import Mathlib.Data.Nat.Digits.Lemmas

/-!
# Event lines

`write_int` and `write_event` of `user/watcher.c`, with the bytes that they
write.  `write_int` takes a C `int`: the delta, which is a `uint64`, is
converted to one first.  It negates a negative number, which is undefined for
the least `int`; the result is `none` then.
-/

namespace Xv6KernelEvent.Watcher

/-- `'0' + digit`. -/
def digitByte (digit : Nat) : UInt8 := UInt8.ofNat (48 + digit)

/-- The loop of `write_int`: the digits in `buf`, the last one first.  The fuel
is the size of `buf`. -/
def digitLoop : (fuel : Nat) → Int → List UInt8
  | 0, _ => []
  | fuel + 1, n =>
    if n > 0 then digitByte (n.tmod 10).toNat :: digitLoop fuel (n.tdiv 10)
    else []

/-- The least `int`. -/
def INT_MIN : Int32 := -2147483648

def writeInt (val : Int32) : Option (List UInt8) :=
  if val = 0 then some [48]
  else if val = INT_MIN then none
  else if val < 0 then some (45 :: (digitLoop 32 (-val).toInt).reverse)
  else some (digitLoop 32 val.toInt).reverse

/-- The conversion of a `uint64` to an `int`. -/
def toInt (value : UInt64) : Int32 := Int32.ofNat value.toNat

/-- `write_event`; the name is what comes before its NUL. -/
def writeEvent (delta_ms : UInt64) (pid : Int32) (name : List UInt8) : Option (List UInt8) :=
  (writeInt (toInt delta_ms)).bind fun delta => (writeInt pid).map fun pid =>
    [91] ++ delta ++ [93, 32, 91] ++ pid ++ [93, 32] ++ name ++ [10]

/-- The canonical decimal numeral of a natural number. -/
def numeral (value : Nat) : List UInt8 :=
  if value = 0 then [48] else ((Nat.digits 10 value).reverse).map digitByte

def signedNumeral (value : Int) : List UInt8 :=
  if value < 0 then 45 :: numeral value.natAbs else numeral value.natAbs

/-- The line for an event. -/
def eventLine (delta : Nat) (pid : Int) (name : List UInt8) : List UInt8 :=
  [91] ++ numeral delta ++ [93, 32, 91] ++ signedNumeral pid ++ [93, 32] ++ name ++ [10]

/-- Reads digits as long as there are some. -/
def readDigits (value : Nat) : List UInt8 → Nat × List UInt8
  | [] => (value, [])
  | byte :: bytes =>
    if 48 ≤ byte ∧ byte ≤ 57 then readDigits (10 * value + (byte.toNat - 48)) bytes
    else (value, byte :: bytes)

def readSigned : List UInt8 → Int × List UInt8
  | 45 :: bytes => (-(readDigits 0 bytes).1, (readDigits 0 bytes).2)
  | bytes => ((readDigits 0 bytes).1, (readDigits 0 bytes).2)

/-- Parses a line. -/
def parseEvent (line : List UInt8) : Option (Nat × Int × List UInt8) :=
  match line with
  | 91 :: line =>
    match readDigits 0 line with
    | (delta, 93 :: 32 :: 91 :: line) =>
      match readSigned line with
      | (pid, 93 :: 32 :: line) =>
        if line.dropWhile (· ≠ 10) = [10] then some (delta, pid, line.takeWhile (· ≠ 10))
        else none
      | _ => none
    | _ => none
  | _ => none

theorem digitByte_toNat (small : digit < 10) : (digitByte digit).toNat = 48 + digit := by
  rw [digitByte, UInt8.toNat_ofNat']
  omega

theorem digitByte_bounds (small : digit < 10) : 48 ≤ digitByte digit ∧ digitByte digit ≤ 57 := by
  rw [UInt8.le_iff_toNat_le, UInt8.le_iff_toNat_le, digitByte_toNat small]
  constructor
  · exact Nat.le_add_right 48 digit
  · exact Nat.add_le_add_left (Nat.le_of_lt_succ small) 48

/-- The loop finds the digits of a positive `int`. -/
theorem digitLoop_eq {fuel value : Nat} (enough : value < 10 ^ fuel) :
    digitLoop fuel value = (Nat.digits 10 value).map digitByte := by
  induction fuel generalizing value with
  | zero =>
    obtain rfl : value = 0 := by omega
    rfl
  | succ fuel induction =>
    rw [digitLoop]
    rcases Nat.eq_zero_or_pos value with rfl | positive
    · rfl
    · have smaller : value / 10 < 10 ^ fuel := by
        rw [Nat.pow_succ] at enough
        exact Nat.div_lt_of_lt_mul (by omega)
      have remainder : ((value : Int).tmod 10).toNat = value % 10 := rfl
      have quotient : (value : Int).tdiv 10 = ((value / 10 : Nat) : Int) := rfl
      rw [if_pos (by omega), remainder, quotient, induction smaller,
        Nat.digits_def' (by decide) positive, List.map_cons]

theorem numeral_pos (positive : 0 < value) :
    numeral value = ((Nat.digits 10 value).map digitByte).reverse := by
  rw [numeral, if_neg (by omega), List.map_reverse]

theorem toInt_neg_of_ne (above : val ≠ INT_MIN) : (-val).toInt = -val.toInt := by
  have low := val.le_toInt
  have high := val.toInt_lt
  have differs : val.toInt ≠ INT_MIN.toInt := fun same => above (Int32.toInt_inj.mp same)
  have least : INT_MIN.toInt = -2147483648 := by decide
  rw [Int32.toInt_neg, Int.bmod_eq_of_le (by omega) (by omega)]

/-- Apart from the least `int`, `write_int` writes the numeral. -/
theorem writeInt_eq {val : Int32} (above : val ≠ INT_MIN) :
    writeInt val = some (signedNumeral val.toInt) := by
  have low := val.le_toInt
  have high := val.toInt_lt
  have fits : val.toInt.natAbs < 10 ^ 32 := by omega
  rw [writeInt, signedNumeral]
  by_cases zero : val = 0
  · subst zero
    rfl
  · have nonzero : val.toInt ≠ 0 := fun same => zero (Int32.toInt_inj.mp same)
    have sign : val < 0 ↔ val.toInt < 0 := Int32.lt_iff_toInt_lt
    rw [if_neg zero, if_neg above, if_congr sign rfl rfl]
    split
    next negative =>
      have magnitude : (-val).toInt = (val.toInt.natAbs : Int) := by
        rw [toInt_neg_of_ne above]
        omega
      rw [magnitude, digitLoop_eq fits, numeral_pos (by omega)]
    next =>
      have magnitude : val.toInt = (val.toInt.natAbs : Int) := by omega
      rw [numeral_pos (by omega), ← digitLoop_eq fits, ← magnitude]

theorem writeInt_INT_MIN : writeInt INT_MIN = none := rfl

theorem readDigits_map (digits : List Nat) (small : ∀ digit ∈ digits, digit < 10) (value : Nat)
    (bytes : List UInt8) :
    readDigits value (digits.map digitByte ++ bytes) =
      readDigits (digits.foldl (fun value digit => 10 * value + digit) value)
        bytes := by
  induction digits generalizing value with
  | nil => rfl
  | cons digit digits induction =>
    have digit_lt := small digit List.mem_cons_self
    rw [List.map_cons, List.cons_append, readDigits,
      if_pos (digitByte_bounds digit_lt), digitByte_toNat digit_lt,
      Nat.add_sub_cancel_left, List.foldl_cons]
    exact induction (fun other member => small other (List.mem_cons_of_mem digit member)) _

theorem foldl_digits (value : Nat) : (Nat.digits 10 value).reverse.foldl
      (fun value digit => 10 * value + digit) 0 = value := by
  rw [List.foldl_reverse]
  have total := Nat.ofDigits_digits 10 value
  rw [Nat.ofDigits_eq_foldr] at total
  simpa [Nat.add_comm] using total

/-- A numeral is read back. -/
theorem readDigits_numeral (value : Nat) (byte : UInt8) (bytes : List UInt8)
    (stop : ¬(48 ≤ byte ∧ byte ≤ 57)) :
    readDigits 0 (numeral value ++ byte :: bytes) = (value, byte :: bytes) := by
  have rest : ∀ value, readDigits value (byte :: bytes) =
      (value, byte :: bytes) := fun value => by rw [readDigits, if_neg stop]
  rw [numeral]
  split
  next zero =>
    rw [zero, List.singleton_append, readDigits, if_pos (by decide)]
    exact rest 0
  next =>
    rw [readDigits_map, foldl_digits, rest]
    intro digit member
    exact Nat.digits_lt_base (by decide) (List.mem_reverse.mp member)

theorem numeral_head (value : Nat) :
    ∃ byte bytes, numeral value = byte :: bytes ∧ 48 ≤ byte ∧ byte ≤ 57 := by
  rcases Nat.eq_zero_or_pos value with rfl | positive
  · exact ⟨48, [], rfl, by decide⟩
  · have nonempty : (Nat.digits 10 value).reverse ≠ [] := by
      rw [Ne, List.reverse_eq_nil_iff, Nat.digits_eq_nil_iff_eq_zero]
      omega
    obtain ⟨digit, digits, split⟩ := List.exists_cons_of_ne_nil nonempty
    have digit_lt : digit < 10 := by
      refine Nat.digits_lt_base (m := value) (by decide) ?_
      rw [← List.mem_reverse, split]
      exact List.mem_cons_self
    refine ⟨digitByte digit, digits.map digitByte, ?_, digitByte_bounds digit_lt⟩
    rw [numeral, if_neg (by omega), split, List.map_cons]

theorem readSigned_numeral (value : Int) (byte : UInt8) (bytes : List UInt8)
    (stop : ¬(48 ≤ byte ∧ byte ≤ 57)) :
    readSigned (signedNumeral value ++ byte :: bytes) = (value, byte :: bytes) := by
  rw [signedNumeral]
  split
  next negative =>
    rw [List.cons_append, readSigned, readDigits_numeral _ _ _ stop]
    simp only [Prod.mk.injEq, and_true]
    omega
  next positive =>
    obtain ⟨first, others, head, low, _⟩ := numeral_head value.natAbs
    have digit : first ≠ 45 := by
      rintro rfl
      exact absurd low (by decide)
    have read := readDigits_numeral value.natAbs byte bytes stop
    rw [head, List.cons_append] at read ⊢
    rw [readSigned, read]
    · simp only [Prod.mk.injEq, and_true]
      omega
    · intro tail same
      exact digit (List.cons.inj same).1

theorem line_eq (delta pid name : List UInt8) :
    [91] ++ delta ++ [93, 32, 91] ++ pid ++ [93, 32] ++ name ++ [10] =
      91 :: (delta ++ 93 :: 32 :: 91 :: (pid ++ 93 :: 32 :: (name ++ [10]))) := by
  simp

/-- A line is parsed back. -/
theorem parseEvent_eventLine (delta : Nat) (pid : Int) (single : 10 ∉ name) :
    parseEvent (eventLine delta pid name) = some (delta, pid, name) := by
  have within : ∀ byte ∈ name, decide (byte ≠ 10) = true := by
    intro byte member
    rw [decide_eq_true_eq]
    rintro rfl
    exact single member
  have ends : (name ++ [10]).dropWhile (· ≠ 10) = [10] := by
    rw [List.dropWhile_append_of_pos within]
    rfl
  have starts : (name ++ [10]).takeWhile (· ≠ 10) = name := by
    rw [List.takeWhile_append_of_pos within]
    simp
  rw [eventLine, line_eq, parseEvent, readDigits_numeral _ _ _ (by decide)]
  simp only
  rw [readSigned_numeral _ _ _ (by decide)]
  simp only
  rw [if_pos ends, starts]

/-- Bytes that are no bracket, before the first bracket. -/
theorem append_bracket_inj {first second rest others : List UInt8} (left : 93 ∉ first)
    (right : 93 ∉ second) (same : first ++ 93 :: rest = second ++ 93 :: others) :
    first = second ∧ rest = others := by
  induction first generalizing second with
  | nil =>
    cases second with
    | nil => exact ⟨rfl, (List.cons.inj same).2⟩
    | cons byte second =>
      have equal := (List.cons.inj same).1
      exact absurd (equal ▸ List.mem_cons_self) right
  | cons byte first induction =>
    cases second with
    | nil =>
      have equal := (List.cons.inj same).1
      exact absurd (equal ▸ List.mem_cons_self) left
    | cons other second =>
      obtain ⟨rfl, tails⟩ := List.cons.inj same
      obtain ⟨rfl, equal⟩ := induction (fun member => left (List.mem_cons_of_mem byte member))
        (fun member => right (List.mem_cons_of_mem byte member)) tails
      exact ⟨rfl, equal⟩

theorem bracket_not_mem_numeral (value : Nat) : 93 ∉ numeral value := by
  rw [numeral]
  split
  next => decide
  next =>
    intro member
    obtain ⟨digit, inside, same⟩ := List.mem_map.mp member
    have digit_lt : digit < 10 := Nat.digits_lt_base (by decide) (List.mem_reverse.mp inside)
    have high := (digitByte_bounds digit_lt).2
    rw [same] at high
    exact absurd high (by decide)

theorem bracket_not_mem_signedNumeral (value : Int) : 93 ∉ signedNumeral value := by
  rw [signedNumeral]
  split
  next =>
    rw [List.mem_cons, not_or]
    exact ⟨by decide, bracket_not_mem_numeral _⟩
  next => exact bracket_not_mem_numeral _

theorem bracket_not_mem_writeInt (written : writeInt val = some bytes) : 93 ∉ bytes := by
  by_cases least : val = INT_MIN
  · rw [least, writeInt_INT_MIN] at written
    cases written
  · rw [writeInt_eq least] at written
    exact Option.some.inj written ▸ bracket_not_mem_signedNumeral _

theorem numeral_injective (same : numeral first = numeral second) : first = second := by
  have left := readDigits_numeral first 93 [] (by decide)
  rw [same, readDigits_numeral second 93 [] (by decide)] at left
  exact (Prod.mk.inj left).1.symm

theorem writeInt_eq_signedNumeral_iff :
    writeInt val = some (signedNumeral val.toInt) ↔ val ≠ INT_MIN := by
  constructor
  · rintro same rfl
    cases same
  · exact writeInt_eq

theorem writeInt_toInt_eq_numeral_iff :
    writeInt (toInt delta) = some (numeral delta.toNat) ↔ delta.toNat < 2 ^ 31 := by
  constructor
  · intro same
    by_cases least : toInt delta = INT_MIN
    · rw [least] at same
      cases same
    · rw [writeInt_eq least, Option.some.injEq, signedNumeral] at same
      split at same
      next =>
        obtain ⟨first, others, head, low, _⟩ := numeral_head delta.toNat
        rw [head] at same
        obtain rfl := (List.cons.inj same).1
        exact absurd low (by decide)
      next =>
        have value := numeral_injective same
        have high := (toInt delta).toInt_lt
        omega
  · intro small
    have value : (toInt delta).toInt = delta.toNat := by
      rw [toInt, Int32.toInt_ofNat', show Int32.size = 4294967296 from rfl,
        Int.bmod_eq_of_le (by omega) (by omega)]
    have above : toInt delta ≠ INT_MIN := by
      intro same
      rw [same, show INT_MIN.toInt = -2147483648 by decide] at value
      omega
    rw [writeInt_eq above, value, signedNumeral, if_neg (by omega), Int.natAbs_natCast]

/-- An event line carries the delta, the pid and the name exactly if the delta
is an `int` and the pid is not the least one. -/
theorem event_lines_are_right_iff (delta_ms : UInt64) (pid : Int32) (name : List UInt8)
    (single : 10 ∉ name) :
    (writeEvent delta_ms pid name = some (eventLine delta_ms.toNat pid.toInt name) ∧
      (writeEvent delta_ms pid name).bind parseEvent = some (delta_ms.toNat, pid.toInt, name)) ↔
      delta_ms.toNat < 2 ^ 31 ∧ pid ≠ INT_MIN := by
  rw [← writeInt_toInt_eq_numeral_iff, ← writeInt_eq_signedNumeral_iff]
  constructor
  · rintro ⟨same, -⟩
    rw [writeEvent, Option.bind_eq_some_iff] at same
    obtain ⟨first, deltas, same⟩ := same
    obtain ⟨second, pids, same⟩ := Option.map_eq_some_iff.mp same
    rw [eventLine, line_eq, line_eq, List.cons_inj_right] at same
    obtain ⟨rfl, rest⟩ := append_bracket_inj (bracket_not_mem_writeInt deltas)
      (bracket_not_mem_numeral _) same
    rw [List.cons_inj_right, List.cons_inj_right] at rest
    obtain ⟨rfl, -⟩ := append_bracket_inj (bracket_not_mem_writeInt pids)
      (bracket_not_mem_signedNumeral _) rest
    exact ⟨deltas, pids⟩
  · rintro ⟨deltas, pids⟩
    have same : writeEvent delta_ms pid name = some (eventLine delta_ms.toNat pid.toInt name) := by
      rw [writeEvent, deltas, pids]
      rfl
    rw [same]
    exact ⟨rfl, parseEvent_eventLine _ _ single⟩

theorem event_lines_are_right_iff_fork : writeEvent 141409 5 [102, 111, 114, 107] =
      some (eventLine 141409 5 [102, 111, 114, 107]) :=
  ((event_lines_are_right_iff 141409 5 [102, 111, 114, 107] (by decide)).mpr
    ⟨by decide, by decide⟩).1

/-- A delta of 2^32 + 7 ms is printed as `7`. -/
theorem event_line_of_long_delta : writeEvent 4294967303 5 [102] =
        some [91, 55, 93, 32, 91, 53, 93, 32, 102, 10] ∧
      writeEvent 4294967303 5 [102] ≠ some (eventLine 4294967303 5 [102]) := by
  have prints : writeEvent 4294967303 5 [102] =
      some [91, 55, 93, 32, 91, 53, 93, 32, 102, 10] := by decide
  refine ⟨prints, fun same => ?_⟩
  have parsed := parseEvent_eventLine 4294967303 5 (show (10 : UInt8) ∉ [102] by decide)
  rw [← Option.some.inj (prints.symm.trans same)] at parsed
  exact absurd parsed (by decide)

end Xv6KernelEvent.Watcher

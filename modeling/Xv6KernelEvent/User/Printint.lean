import Mathlib.Data.Nat.Digits.Lemmas

/-!
# `printint`

The kernel and the user library format a number in a buffer of twenty bytes,
the last digit first.  A store behind the buffer has no result; a loop that
does not end would come to one.
-/

namespace Xv6KernelEvent.Printint

def kernelDigits (place : Nat) : Char := "0123456789abcdef".toList.getD place '\x00'

def userDigits (place : Nat) : Char := "0123456789ABCDEF".toList.getD place '\x00'

/-- `buf[i++] = c`, where `buf` has the `i` bytes stored so far. -/
def store (buf : List Char) (c : Char) : Option (List Char) :=
  if buf.length < 20 then some (buf ++ [c]) else none

/-- `do { buf[i++] = digits[x % base]; } while((x /= base) != 0);`. -/
def digitLoop (digits : Nat → Char) (base x : UInt64) (buf : List Char) : Option (List Char) :=
  if buf.length < 20 then
    if x / base ≠ 0 then digitLoop digits base (x / base) (buf ++ [digits (x % base).toNat])
    else some (buf ++ [digits (x % base).toNat])
  else none
termination_by 20 - buf.length
decreasing_by grind

/-- What both functions do once they know whether there is a sign: the digits
and the sign are stored, and the bytes go out from the last one to the first. -/
def format (digits : Nat → Char) (xx : Int64) (base : Int32) (neg : Bool) :
    Option (List Char) := do
  let x := if neg then (-xx).toUInt64 else xx.toUInt64
  let buf ← digitLoop digits base.toInt64.toUInt64 x []
  let buf ← if neg then store buf '-' else some buf
  some buf.reverse

/-- `printint` of the kernel, with what it gives to `consputc`.  The condition
assigns the comparison to `sign`. -/
def kernelPrintint (xx : Int64) (base sign : Int32) : Option (List Char) :=
  let sign := if sign ≠ 0 then if xx < 0 then 1 else 0 else sign
  format kernelDigits xx base (sign ≠ 0)

/-- `printint` of the user library, with what it writes to which descriptor. -/
def userPrintint (fd : Int32) (xx : Int64) (base sgn : Int32) : Option (List (Int32 × Char)) :=
  let neg := sgn ≠ 0 ∧ xx < 0
  (format userDigits xx base neg).map (List.map (fd, ·))

/-- The canonical numeral, with the lower-case digits of `Nat.toDigits`. -/
def numeral (base : Nat) (value : Int) : List Char :=
  (if value < 0 then ['-'] else []) ++ Nat.toDigits base value.natAbs

/-- `xx` as a signed or as an unsigned number. -/
def value (xx : Int64) (sign : Int32) : Int :=
  if sign ≠ 0 then xx.toInt else xx.toUInt64.toNat

section Loop

variable {digits : Nat → Char} {letter : Char → Char}

/-- The loop stores the numeral, when there is room for all the digits of `x`. -/
theorem digitLoop_toDigits (buf : List Char) (wide : 10 ≤ base.toNat)
    (table : ∀ place < base.toNat, digits place = letter place.digitChar)
    (room : buf.length + count < 20) (fits : x.toNat < 10 ^ (count + 1)) :
    digitLoop digits base x buf =
        some (buf ++ ((Nat.toDigits base.toNat x.toNat).map letter).reverse) ∧
      (Nat.toDigits base.toNat x.toNat).length ≤ count + 1 := by
  rw [Nat.toDigits_eq_if (by omega)]
  fun_induction digitLoop digits base x buf generalizing count with
  | case1 x buf _ more induction =>
    have quotient : (x / base).toNat ≠ 0 := fun zero => more (UInt64.toNat_inj.mp zero)
    rw [UInt64.toNat_div] at quotient induction
    have large : ¬x.toNat < base.toNat := fun small => quotient (Nat.div_eq_of_lt small)
    cases count with
    | zero => exact absurd (Nat.div_eq_of_lt (by omega)) quotient
    | succ count =>
      have bound := Nat.mul_le_mul_right (10 ^ (count + 1)) wide
      rw [Nat.pow_succ'] at fits
      have smaller : x.toNat / base.toNat < 10 ^ (count + 1) := Nat.div_lt_of_lt_mul (by omega)
      obtain ⟨stored, length⟩ := induction (by grind) smaller
      rw [← Nat.toDigits_eq_if (by omega)] at stored length
      have last := table (x.toNat % base.toNat) (Nat.mod_lt _ (by omega))
      rw [if_neg large, stored, UInt64.toNat_mod, last]
      simpa using length
  | case2 x buf _ last =>
    have quotient : (x / base).toNat = 0 := by simp_all
    rw [UInt64.toNat_div, Nat.div_eq_zero_iff_lt (by omega)] at quotient
    rw [if_pos quotient, UInt64.toNat_mod, Nat.mod_eq_of_lt quotient, table _ quotient]
    simp
  | case3 => omega

end Loop

/-- The unsigned reading, and that of the negation, which wraps for the least value. -/
theorem toNat_toUInt64 (xx : Int64) :
    (0 ≤ xx.toInt → (xx.toUInt64.toNat : Int) = xx.toInt) ∧
      (xx.toInt < 0 → (-xx).toUInt64.toNat = xx.toInt.natAbs) := by
  have wraps : xx.toInt = _ := BitVec.toInt_eq_toNat_cond xx.toBitVec
  have negated : (-xx).toUInt64.toNat = (-xx.toBitVec).toNat := rfl
  have plain : xx.toUInt64.toNat = xx.toBitVec.toNat := rfl
  have bound := xx.toBitVec.isLt
  rw [negated, plain, BitVec.toNat_neg]
  split at wraps
  all_goals omega

theorem format_exact {xx : Int64} {digits : Nat → Char} {letter : Char → Char}
    (table : ∀ place < 16, digits place = letter place.digitChar) (sign_eq : letter '-' = '-')
    (choice : base = 10 ∨ base = 16) (signed : neg = true ↔ sign ≠ 0 ∧ xx < 0) :
    format digits xx base neg = some ((numeral base.toInt.toNat (value xx sign)).map letter) := by
  obtain ⟨same, wide, narrow⟩ : base.toInt64.toUInt64.toNat = base.toInt.toNat ∧
      10 ≤ base.toInt.toNat ∧ base.toInt.toNat ≤ 16 := by
    rcases choice with rfl | rfl <;> decide
  obtain ⟨nonneg, negative⟩ := toNat_toUInt64 xx
  rw [← same] at wide narrow ⊢
  rw [Int64.lt_iff_toInt_lt, Int64.toInt_zero] at signed
  have digits_eq (place : Nat) (below : place < base.toInt64.toUInt64.toNat) :
      digits place = letter place.digitChar :=
    table place (by omega)
  cases neg with
  | true =>
    -- The sign takes the twentieth byte.
    obtain ⟨asked, below⟩ := signed.mp rfl
    have low := xx.le_toInt
    have fits : (-xx).toUInt64.toNat < 10 ^ 19 := by omega
    obtain ⟨stored, length⟩ := digitLoop_toDigits [] wide digits_eq (by decide) fits
    rw [numeral, value, if_pos asked, if_pos below, ← negative below]
    simp only [format, if_true, stored]
    generalize Nat.toDigits _ (-xx).toUInt64.toNat = text at length
    have behind : text.length < 20 := by omega
    simp [store, behind, sign_eq]
  | false =>
    have fits : xx.toUInt64.toNat < 10 ^ 20 := xx.toUInt64.toNat_lt.trans (by decide)
    obtain ⟨stored, -⟩ := digitLoop_toDigits [] wide digits_eq (by decide) fits
    have unsigned : value xx sign = xx.toUInt64.toNat := by
      rw [value]
      split
      · rw [nonneg (by grind)]
      · rfl
    rw [numeral, unsigned, if_neg (by omega), Int.natAbs_natCast]
    simp [format, stored]

/-- Both print the exact numeral, within their buffers; the user library has
upper-case digits. -/
theorem printint_exact (fd : Int32) (xx : Int64) (base sign : Int32)
    (choice : base = 10 ∨ base = 16) :
    kernelPrintint xx base sign = some (numeral base.toInt.toNat (value xx sign)) ∧
    userPrintint fd xx base sign =
      some ((numeral base.toInt.toNat (value xx sign)).map fun c => (fd, c.toUpper)) := by
  constructor
  · have table : ∀ place < 16, kernelDigits place = id place.digitChar := by decide
    refine (format_exact table rfl choice ?_).trans (by rw [List.map_id])
    grind
  · have table : ∀ place < 16, userDigits place = place.digitChar.toUpper := by decide
    rw [userPrintint, format_exact table rfl choice decide_eq_true_iff, Option.map_some,
      List.map_map]
    rfl

theorem printint_exact_least :
    kernelPrintint Int64.minValue 10 1 = some "-9223372036854775808".toList ∧
    userPrintint 1 3735928559 16 0 = some ("DEADBEEF".toList.map (1, ·)) :=
  ⟨(printint_exact 1 Int64.minValue 10 1 (.inl rfl)).1.trans (by decide),
    (printint_exact 1 3735928559 16 0 (.inr rfl)).2.trans (by decide)⟩

end Xv6KernelEvent.Printint

import Xv6KernelEvent.User.Grep
import Xv6KernelEvent.User.Memmove

/-!
# The lines that `grep` writes

`grep` keeps the unfinished line of its input in `buf`.  A scan of `buf` by
`strchr` or `match` that leaves it makes the run fail.  `memmove` and `m - p`
are not checked: the scans stop at the zero at `m`, so `p` is at most `m`.  The
bytes of the buffer are a function on its indices; `choice` decides how many of
the bytes that it could deliver the next `read` delivers.
-/

namespace Xv6KernelEvent.Grep

def NEWLINE : UInt8 := 10

/-- `sizeof(buf)`. -/
def BUFSIZE : Nat := 1024

abbrev Buf := Nat → UInt8

/-- `strchr` of the string at index `s`, of which `room` bytes are in `buf`. -/
def strchr (buf : Buf) (c : UInt8) : (room s : Nat) → Option (Option Nat)
  | 0, _ => none
  | room + 1, s =>
    if buf s = 0 then some none
    else if buf s = c then some (some s)
    else strchr buf c room (s + 1)

/-- The string at index `s` that `match` goes through. -/
def stringAt (buf : Buf) : (room s : Nat) → Option (List UInt8)
  | 0, _ => none
  | room + 1, s =>
    if buf s = 0 then some []
    else (stringAt buf room (s + 1)).map (buf s :: ·)

/-- The inner loop, from index `p` on: the bytes that it writes, and `p` and
`buf` behind it.  Every iteration moves `p`. -/
def lineLoop (pattern : List UInt8) : (fuel : Nat) → (buf : Buf) → (p : Nat) →
    Option (List UInt8 × Nat × Buf)
  | 0, _, _ => none
  | fuel + 1, buf, p => do
    match ← strchr buf NEWLINE (BUFSIZE - p) p with
    | none => some ([], p, buf)
    | some q =>
      let cut := Function.update buf q 0
      let line ← stringAt cut (BUFSIZE - p) p
      if «match» pattern line then
        let buf := Function.update cut q NEWLINE
        let written := (List.range (q + 1 - p)).map fun i => buf (p + i)
        let (others, p, buf) ← lineLoop pattern fuel buf (q + 1)
        some (written ++ others, p, buf)
      else lineLoop pattern fuel cut (q + 1)

/-- The bytes that `read` delivers of the ones to come: at least one, unless it
is asked for none or there is none. -/
def delivered (choice request : Nat) (input : List UInt8) : List UInt8 :=
  input.take (min request (choice + 1))

/-- Delivered bytes in the buffer. -/
def fill (buf : Buf) (m : Nat) (bytes : List UInt8) : Buf := fun i =>
  if m ≤ i ∧ i < m + bytes.length then bytes.getD (i - m) 0 else buf i

/-- The outer loop, with the input that is still to come. -/
def grepLoop (pattern : List UInt8) (choice : Nat → Nat) :
    (fuel : Nat) → (buf : Buf) → (m : Nat) → (input : List UInt8) → Option (List UInt8)
  | 0, _, _, _ => none
  | fuel + 1, buf, m, input => do
    let chunk := delivered (choice fuel) (BUFSIZE - m - 1) input
    if chunk = [] then some []
    else
      let buf := fill buf m chunk
      let m := m + chunk.length
      if m ≥ BUFSIZE then none
      else
        let (written, p, buf) ← lineLoop pattern BUFSIZE (Function.update buf m 0) 0
        let m := m - p
        let others ← grepLoop pattern choice fuel (userMemmove buf 0 p m) m
          (input.drop chunk.length)
        some (written ++ others)

/-- `grep`.  `buf` may have any content. -/
def grep (pattern : List UInt8) (choice : Nat → Nat) (buf : Buf) (input : List UInt8) :
    Option (List UInt8) :=
  grepLoop pattern choice (input.length + 1) buf 0 input

/-- Lines with their newlines. -/
def unlines (lines : List (List UInt8)) : List UInt8 := lines.flatMap (· ++ [NEWLINE])

/-- The buffer has these bytes from an index on. -/
def Holds (buf : Buf) : (p : Nat) → List UInt8 → Prop
  | _, [] => True
  | p, byte :: bytes => buf p = byte ∧ Holds buf (p + 1) bytes

variable {buf : Buf} {pattern : List UInt8}

theorem holds_append :
    Holds buf p (front ++ back) ↔ Holds buf p front ∧ Holds buf (p + front.length) back := by
  induction front generalizing p with
  | nil => simp [Holds]
  | cons byte front induction =>
    rw [List.cons_append, Holds, Holds, induction, List.length_cons, and_assoc,
      Nat.add_right_comm, Nat.add_assoc p]

theorem holds_iff : Holds buf p bytes ↔ ∀ i < bytes.length, buf (p + i) = bytes.getD i 0 := by
  induction bytes generalizing p with
  | nil => simp [Holds]
  | cons byte bytes induction =>
    rw [Holds, induction]
    constructor
    · rintro ⟨first, others⟩ i inside
      cases i with
      | zero => exact first
      | succ i =>
        have same := others i (Nat.lt_of_succ_lt_succ inside)
        rw [Nat.add_right_comm] at same
        exact same
    · intro all
      refine ⟨all 0 (Nat.zero_lt_succ _), ?_⟩
      intro i inside
      rw [Nat.add_right_comm]
      exact all (i + 1) (Nat.succ_lt_succ inside)

theorem Holds.congr (holds : Holds buf p bytes)
    (same : ∀ i < bytes.length, other (p + i) = buf (p + i)) : Holds other p bytes := by
  rw [holds_iff] at holds ⊢
  intro i inside
  rw [same i inside, holds i inside]

theorem Holds.map_range (holds : Holds buf p bytes) :
    (List.range bytes.length).map (fun i => buf (p + i)) = bytes := by
  apply List.ext_getElem
  · simp
  · intro i _ inside
    rw [List.getElem_map, List.getElem_range, holds_iff.mp holds i inside,
      List.getD_eq_getElem?_getD, List.getElem?_eq_getElem inside, Option.getD_some]

/-- `strchr` stops at the first newline. -/
theorem strchr_found (holds : Holds buf p (line ++ NEWLINE :: rest))
    (plain : ∀ byte ∈ line, byte ≠ 0 ∧ byte ≠ NEWLINE) (inside : line.length < room) :
    strchr buf NEWLINE room p = some (some (p + line.length)) := by
  induction line generalizing room p with
  | nil =>
    obtain ⟨room, rfl⟩ := Nat.exists_eq_succ_of_ne_zero inside.ne'
    have here : buf p = NEWLINE := holds.1
    rw [strchr, here]
    rfl
  | cons byte line induction =>
    obtain ⟨room, rfl⟩ := Nat.exists_eq_succ_of_ne_zero (Nat.ne_zero_of_lt inside)
    obtain ⟨⟨notNul, notEnd⟩, plain⟩ := List.forall_mem_cons.mp plain
    rw [strchr, holds.1, if_neg notNul, if_neg notEnd,
      induction holds.2 plain (Nat.lt_of_succ_lt_succ inside), List.length_cons,
      Nat.add_right_comm, Nat.add_assoc]

/-- `strchr` stops at the NUL when there is no newline. -/
theorem strchr_none (holds : Holds buf p (rest ++ [0]))
    (plain : ∀ byte ∈ rest, byte ≠ 0 ∧ byte ≠ NEWLINE) (inside : rest.length < room) :
    strchr buf NEWLINE room p = some none := by
  induction rest generalizing room p with
  | nil =>
    obtain ⟨room, rfl⟩ := Nat.exists_eq_succ_of_ne_zero inside.ne'
    rw [strchr, if_pos holds.1]
  | cons byte rest induction =>
    obtain ⟨room, rfl⟩ := Nat.exists_eq_succ_of_ne_zero (Nat.ne_zero_of_lt inside)
    obtain ⟨⟨notNul, notEnd⟩, plain⟩ := List.forall_mem_cons.mp plain
    rw [strchr, holds.1, if_neg notNul, if_neg notEnd]
    exact induction holds.2 plain (Nat.lt_of_succ_lt_succ inside)

theorem stringAt_eq (holds : Holds buf p (line ++ [0]))
    (plain : ∀ byte ∈ line, byte ≠ 0) (inside : line.length < room) :
    stringAt buf room p = some line := by
  induction line generalizing room p with
  | nil =>
    obtain ⟨room, rfl⟩ := Nat.exists_eq_succ_of_ne_zero inside.ne'
    rw [stringAt, if_pos holds.1]
  | cons byte line induction =>
    obtain ⟨room, rfl⟩ := Nat.exists_eq_succ_of_ne_zero (Nat.ne_zero_of_lt inside)
    obtain ⟨notNul, plain⟩ := List.forall_mem_cons.mp plain
    rw [stringAt, holds.1, if_neg notNul, induction holds.2 plain (Nat.lt_of_succ_lt_succ inside)]
    rfl

/-- Bytes that are neither NUL nor newline. -/
def Plain (bytes : List UInt8) : Prop := ∀ byte ∈ bytes, byte ≠ 0 ∧ byte ≠ NEWLINE

theorem unlines_cons (line : List UInt8) (lines : List (List UInt8)) :
    unlines (line :: lines) = line ++ NEWLINE :: unlines lines := by
  simp [unlines]

theorem length_le_unlines (lines : List (List UInt8)) : lines.length ≤ (unlines lines).length := by
  induction lines with
  | nil => exact Nat.zero_le _
  | cons line lines induction =>
    rw [unlines_cons, List.length_append, List.length_cons, List.length_cons]
    omega

/-- The inner loop writes the matching ones of the finished lines in the buffer
and stops at the unfinished one. -/
theorem lineLoop_eq (pattern : List UInt8) (holds : Holds buf p (unlines lines ++ (rest ++ [0])))
    (plain : ∀ line ∈ lines, Plain line) (plainRest : Plain rest)
    (inside : p + (unlines lines).length + rest.length < BUFSIZE) (fuel : Nat)
    (enough : lines.length < fuel) :
    ∃ after, lineLoop pattern fuel buf p = some (unlines (lines.filter («match» pattern)),
        p + (unlines lines).length, after) ∧
      Holds after (p + (unlines lines).length) (rest ++ [0]) := by
  induction lines generalizing buf p fuel with
  | nil =>
    obtain ⟨fuel, rfl⟩ := Nat.exists_eq_succ_of_ne_zero (Nat.ne_zero_of_lt enough)
    have room : rest.length < BUFSIZE - p := by
      change p + 0 + rest.length < BUFSIZE at inside
      omega
    refine ⟨buf, ?_, holds⟩
    rw [lineLoop, strchr_none holds plainRest room]
    rfl
  | cons line lines induction =>
    obtain ⟨fuel, rfl⟩ := Nat.exists_eq_succ_of_ne_zero (Nat.ne_zero_of_lt enough)
    obtain ⟨plainLine, plain⟩ := List.forall_mem_cons.mp plain
    rw [unlines_cons, List.append_assoc, List.cons_append] at holds
    rw [unlines_cons, List.length_append, List.length_cons] at inside ⊢
    have room : line.length < BUFSIZE - p := by omega
    obtain ⟨inLine, atEnd, behind⟩ := holds_append.mp holds
    -- The NUL at the end of the line hides the rest of the buffer from `match`.
    have cut : Holds (Function.update buf (p + line.length) 0) p (line ++ [0]) := by
      refine holds_append.mpr ⟨inLine.congr ?_, Function.update_self .., trivial⟩
      intro i below
      exact Function.update_of_ne (by omega) _ _
    have text := stringAt_eq cut (fun byte member => (plainLine byte member).1) room
    have next (other : Buf) (same : ∀ i, p + line.length < i → other i = buf i) :
        ∃ after, lineLoop pattern fuel other (p + line.length + 1) =
            some (unlines (lines.filter («match» pattern)),
              p + line.length + 1 + (unlines lines).length, after) ∧
          Holds after (p + line.length + 1 + (unlines lines).length) (rest ++ [0]) := by
      refine induction (behind.congr ?_) plain (by omega) fuel (Nat.lt_of_succ_lt_succ enough)
      intro i _
      exact same _ (by omega)
    have total : p + (line.length + ((unlines lines).length + 1)) =
        p + line.length + 1 + (unlines lines).length := by
      omega
    rw [total, lineLoop, strchr_found holds plainLine room]
    simp only [Option.bind_eq_bind, Option.bind_some, text]
    by_cases matching : «match» pattern line = true
    · have restored : Function.update (Function.update buf (p + line.length) 0)
          (p + line.length) NEWLINE = buf := by
        rw [Function.update_idem, ← atEnd, Function.update_eq_self]
      obtain ⟨after, loop, left⟩ := next buf fun _ _ => rfl
      refine ⟨after, ?_, left⟩
      have written := (holds_append.mpr ⟨inLine, atEnd, trivial⟩ :
        Holds buf p (line ++ [NEWLINE])).map_range
      rw [List.length_append, List.length_singleton] at written
      rw [if_pos matching, restored, loop, List.filter_cons_of_pos matching, unlines_cons,
        show p + line.length + 1 - p = line.length + 1 by omega, written]
      simp
    · obtain ⟨after, loop, left⟩ := next (Function.update buf (p + line.length) 0)
        fun i above => Function.update_of_ne above.ne' _ _
      refine ⟨after, ?_, left⟩
      rw [if_neg matching, loop, List.filter_cons_of_neg matching]

/-- The part of the input that the buffer holds consists of finished lines and
the start of a line. -/
theorem buffered_lines (total : content ++ input = unlines lines ++ rest)
    (plain : ∀ line ∈ lines, Plain line) (plainRest : Plain rest) :
    ∃ done todo held, lines = done ++ todo ∧ content = unlines done ++ held ∧
      Plain held ∧ held ++ input = unlines todo ++ rest := by
  induction lines generalizing content with
  | nil =>
    refine ⟨[], [], content, rfl, rfl, ?_, total⟩
    intro byte member
    refine plainRest byte ?_
    change content ++ input = rest at total
    rw [← total]
    exact List.mem_append_left _ member
  | cons line lines induction =>
    obtain ⟨plainLine, plain⟩ := List.forall_mem_cons.mp plain
    have whole := total
    rw [unlines_cons, List.append_assoc, List.cons_append] at total
    rcases List.append_eq_append_iff.mp total with ⟨more, rfl, _⟩ | ⟨more, rfl, split⟩
    · exact ⟨[], (content ++ more) :: lines, content, rfl, rfl,
        fun byte member => plainLine byte (List.mem_append_left _ member), whole⟩
    · cases more with
      | nil =>
        rw [List.append_nil] at whole ⊢
        exact ⟨[], line :: lines, line, rfl, rfl, plainLine, whole⟩
      | cons first more =>
        obtain ⟨rfl, tails⟩ := List.cons.inj split
        obtain ⟨done, todo, held, rfl, rfl, plainHeld, left⟩ := induction tails.symm plain
        refine ⟨line :: done, todo, held, rfl, ?_, plainHeld, left⟩
        rw [unlines_cons, List.append_assoc, List.cons_append]

/-- While a line is unfinished, the buffer has room and the input goes on. -/
theorem unfinished (plain : Plain held) (total : held ++ input = line ++ NEWLINE :: others) :
    held.length ≤ line.length ∧ input ≠ [] := by
  rcases List.append_eq_append_iff.mp total with ⟨more, rfl, split⟩ | ⟨more, rfl, split⟩
  · refine ⟨by simp, ?_⟩
    rintro rfl
    simp at split
  · cases more with
    | nil =>
      refine ⟨by simp, ?_⟩
      rintro rfl
      cases split
    | cons first more =>
      cases split
      exact absurd rfl (plain NEWLINE (by simp)).2

theorem delivered_append (choice request : Nat) (input : List UInt8) :
    delivered choice request input ++ input.drop (delivered choice request input).length =
      input := by
  rw [delivered, List.length_take]
  conv_rhs => rw [← List.take_append_drop (min request (choice + 1)) input]
  congr 1
  rcases Nat.le_total (min request (choice + 1)) input.length with fits | short
  · rw [Nat.min_eq_left fits]
  · rw [Nat.min_eq_right short, List.drop_of_length_le le_rfl, List.drop_of_length_le short]

theorem delivered_eq_nil (choice request : Nat) (input : List UInt8)
    (nothing : delivered choice request input = []) : request = 0 ∨ input = [] := by
  rcases List.take_eq_nil_iff.mp nothing with none | ended
  · exact .inl (by omega)
  · exact .inr ended

theorem holds_fill (holds : Holds buf 0 held) (chunk : List UInt8) :
    Holds (Function.update (fill buf held.length chunk) (held.length + chunk.length) 0) 0
      (held ++ chunk ++ [0]) := by
  refine holds_append.mpr ⟨holds_append.mpr ⟨holds.congr ?_, ?_⟩, ?_, trivial⟩
  · intro i below
    rw [Function.update_of_ne (by omega), fill, if_neg (by omega)]
  · rw [holds_iff]
    intro i below
    rw [Function.update_of_ne (by omega), fill, if_pos (by omega)]
    congr 1
    omega
  · rw [List.length_append, Nat.zero_add, Function.update_self]

/-- The unfinished line, moved to the start of the buffer. -/
theorem Holds.moved (holds : Holds buf p held) :
    Holds (userMemmove buf 0 p held.length) 0 held := by
  rw [userMemmove_eq, Int.toNat_natCast]
  rw [holds_iff] at holds ⊢
  intro i below
  rw [Moved, if_pos (by omega), ← holds i below]
  congr 1
  omega

theorem grepLoop_eq
    (choice : Nat → Nat) (fuel : Nat) (held : List UInt8) (enough : input.length < fuel)
    (holds : Holds buf 0 held) (inside : held.length < BUFSIZE)
    (plainHeld : Plain held) (total : held ++ input = unlines lines ++ rest)
    (plain : ∀ line ∈ lines, Plain line) (plainRest : Plain rest)
    (fits : ∀ line ∈ lines, (line ++ [NEWLINE]).length ≤ BUFSIZE - 1) :
    grepLoop pattern choice fuel buf held.length input =
      some (unlines (lines.filter («match» pattern))) := by
  -- Every round takes a byte of the input; the lines are those not yet written.
  induction fuel generalizing buf lines held input with
  | zero => cases enough
  | succ fuel induction =>
    rw [grepLoop]
    have parts := delivered_append (choice fuel) (BUFSIZE - held.length - 1) input
    have size : (delivered (choice fuel) (BUFSIZE - held.length - 1) input).length ≤
        BUFSIZE - held.length - 1 := by
      rw [delivered, List.length_take]
      omega
    have stops := delivered_eq_nil (choice fuel) (BUFSIZE - held.length - 1) input
    generalize delivered (choice fuel) (BUFSIZE - held.length - 1) input = chunk at *
    simp only [Option.bind_eq_bind]
    by_cases nothing : chunk = []
    · rw [if_pos nothing]
      cases lines with
      | nil => rfl
      | cons line lines =>
        rw [unlines_cons, List.append_assoc, List.cons_append] at total
        obtain ⟨short, more⟩ := unfinished plainHeld total
        have fitting := fits line List.mem_cons_self
        rw [List.length_append, List.length_singleton] at fitting
        rcases stops nothing with full | ended
        · omega
        · exact absurd ended more
    · have positive : 0 < chunk.length := List.length_pos_iff.mpr nothing
      rw [if_neg nothing, if_neg (by omega)]
      generalize left_eq : input.drop chunk.length = left at *
      subst parts
      rw [← List.append_assoc] at total
      obtain ⟨done, todo, held', rfl, content, plainHeld', later⟩ :=
        buffered_lines total plain plainRest
      obtain ⟨plainDone, plainTodo⟩ := List.forall_mem_append.mp plain
      have lengths := congrArg List.length content
      rw [List.length_append, List.length_append] at lengths
      have filled := holds_fill holds chunk
      rw [content, List.append_assoc] at filled
      obtain ⟨after, loop, kept⟩ := lineLoop_eq pattern filled plainDone plainHeld'
        (by omega) BUFSIZE (by have := length_le_unlines done; omega)
      rw [loop]
      simp only [Option.bind_some, Nat.zero_add] at kept ⊢
      rw [show held.length + chunk.length - (unlines done).length = held'.length by omega,
        induction held' (by simp at enough; omega) (holds_append.mp kept).1.moved (by omega)
          plainHeld' later plainTodo (List.forall_mem_append.mp fits).2]
      simp [unlines]

/-- The finished lines of an input, without their newlines, and what comes
behind them. -/
def splitLines : List UInt8 → List (List UInt8) × List UInt8
  | [] => ([], [])
  | byte :: input =>
    if byte = NEWLINE then ([] :: (splitLines input).1, (splitLines input).2)
    else
      match (splitLines input).1 with
      | [] => ([], byte :: (splitLines input).2)
      | line :: lines => ((byte :: line) :: lines, (splitLines input).2)

theorem unlines_splitLines (input : List UInt8) :
    unlines (splitLines input).1 ++ (splitLines input).2 = input := by
  induction input with
  | nil => rfl
  | cons byte input induction =>
    rw [splitLines]
    split
    · rename_i isEnd
      rw [unlines_cons, List.nil_append, List.cons_append, induction, isEnd]
    · split
      · rename_i none
        rw [none] at induction
        exact congrArg (byte :: ·) induction
      · rename_i some
        rw [some, unlines_cons] at induction
        rw [unlines_cons, List.cons_append, List.cons_append, induction]

theorem plain_splitLines (nulFree : 0 ∉ input) :
    (∀ line ∈ (splitLines input).1, Plain line) ∧ Plain (splitLines input).2 := by
  induction input with
  | nil => exact ⟨nofun, nofun⟩
  | cons byte input induction =>
    obtain ⟨notNul, nulFree⟩ := not_or.mp (List.mem_cons.not.mp nulFree)
    obtain ⟨plain, plainRest⟩ := induction nulFree
    rw [splitLines]
    split
    · exact ⟨List.forall_mem_cons.mpr ⟨nofun, plain⟩, plainRest⟩
    · rename_i notEnd
      split
      · exact ⟨nofun, List.forall_mem_cons.mpr ⟨⟨Ne.symm notNul, notEnd⟩, plainRest⟩⟩
      · rename_i some
        rw [some, List.forall_mem_cons] at plain
        exact ⟨List.forall_mem_cons.mpr
          ⟨List.forall_mem_cons.mpr ⟨⟨Ne.symm notNul, notEnd⟩, plain.1⟩, plain.2⟩, plainRest⟩

/-- Whatever the sizes of the reads, `grep` writes the finished lines that match,
each once and in order, and stays inside of its buffer. -/
theorem grep_writes_matching_lines (pattern : List UInt8) (choice : Nat → Nat) (buf : Buf)
    (input : List UInt8) (nulFree : 0 ∉ input)
    (fits : ∀ line ∈ (splitLines input).1, (line ++ [NEWLINE]).length ≤ BUFSIZE - 1) :
    grep pattern choice buf input =
      some (unlines ((splitLines input).1.filter («match» pattern))) := by
  obtain ⟨plain, plainRest⟩ := plain_splitLines nulFree
  have total : [] ++ input = unlines (splitLines input).1 ++ (splitLines input).2 :=
    (unlines_splitLines input).symm
  exact grepLoop_eq choice _ [] (Nat.lt_succ_self _) trivial (by decide) nofun total plain
    plainRest fits

/-- The pattern `b` on the lines `ab` and `c`, one byte at a time. -/
theorem grep_writes_matching_lines_ab :
    grep [98] (fun _ => 0) (fun _ => 7) [97, 98, 10, 99, 10, 98] = some [97, 98, 10] := by
  rw [grep_writes_matching_lines _ _ _ _ (by decide) (by decide)]
  decide

end Xv6KernelEvent.Grep

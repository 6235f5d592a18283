import Mathlib.Algebra.Order.Ring.Nat
import Mathlib.Computability.Language

/-!
# The pattern matcher of `grep`

C strings are the lists of their bytes in front of the NUL, so `*text != '\0'`
is a test for a non-empty list.  `matchstar` and the loop of `match` take the
call of `matchhere` as an argument, since every call is for a shorter pattern.
-/

namespace Xv6KernelEvent.Grep

def CARET : UInt8 := 94

def DOT : UInt8 := 46

def STAR : UInt8 := 42

def DOLLAR : UInt8 := 36

/-- `c == '.' || c == *text`. -/
def takes (c ch : UInt8) : Bool := c == DOT || c == ch

def matchstar (matchhere : List UInt8 → Bool) (c : UInt8) : (text : List UInt8) → Bool
  | [] => matchhere []
  | ch :: text => matchhere (ch :: text) || takes c ch && matchstar matchhere c text

def matchhere : (re text : List UInt8) → Bool
  | [], _ => true
  | [c], text =>
    if c = DOLLAR then text.isEmpty
    else
      match text with
      | [] => false
      | ch :: text => takes c ch && matchhere [] text
  | c :: d :: re, text =>
    if d = STAR then matchstar (matchhere re) c text
    else
      match text with
      | [] => false
      | ch :: text => takes c ch && matchhere (d :: re) text

/-- The loop of `match`, which also looks at the empty string at the end. -/
def matchAnywhere (matchhere : List UInt8 → Bool) : (text : List UInt8) → Bool
  | [] => matchhere []
  | ch :: text => matchhere (ch :: text) || matchAnywhere matchhere text

/-- `match`. -/
def «match» (re text : List UInt8) : Bool :=
  match re with
  | [] => matchAnywhere (matchhere []) text
  | c :: re =>
    if c = CARET then matchhere re text
    else matchAnywhere (matchhere (c :: re)) text

/-- A character of a pattern, on its own or followed by a star. -/
inductive Piece where
  | one (c : UInt8)
  | many (c : UInt8)

/-- What a pattern asks for, between its anchors. -/
structure Pattern where
  pieces : List Piece
  atStart : Bool
  atEnd : Bool

/-- A pattern behind its leading `^`. -/
def Pattern.read : List UInt8 → Pattern
  | [] => { pieces := [], atStart := false, atEnd := false }
  | [c] =>
    if c = DOLLAR then { pieces := [], atStart := false, atEnd := true }
    else { pieces := [.one c], atStart := false, atEnd := false }
  | c :: d :: re =>
    if d = STAR then { read re with pieces := .many c :: (read re).pieces }
    else { read (d :: re) with pieces := .one c :: (read (d :: re)).pieces }

def Pattern.parse : List UInt8 → Pattern
  | [] => read []
  | c :: re => if c = CARET then { read re with atStart := true } else read (c :: re)

/-- The single characters that a character of a pattern stands for. -/
def single (c : UInt8) : Language UInt8 := { word | ∃ ch, word = [ch] ∧ (c = DOT ∨ c = ch) }

open Computability in
def Piece.language : Piece → Language UInt8
  | one c => single c
  | many c => (single c)∗

/-- The texts that the pieces of a pattern match in full. -/
def Pattern.language (pattern : Pattern) : Language UInt8 :=
  (pattern.pieces.map Piece.language).prod

/-- The text has a part that is in the language of the pattern, at its start and
at its end if the pattern is anchored there. -/
def Pattern.MatchesIn (pattern : Pattern) (text : List UInt8) : Prop :=
  ∃ before found after, text = before ++ found ++ after ∧ found ∈ pattern.language ∧
    (pattern.atStart = true → before = []) ∧ (pattern.atEnd = true → after = [])

/-- The text starts with a match, up to its end if the pattern is anchored
there. -/
def Pattern.MatchesAt (pattern : Pattern) (text : List UInt8) : Prop :=
  ∃ found after, text = found ++ after ∧ found ∈ pattern.language ∧
    (pattern.atEnd = true → after = [])

theorem takes_iff : takes c ch = true ↔ c = DOT ∨ c = ch := by simp [takes]

open Computability in
theorem mem_kstar_single (word : List UInt8) :
    word ∈ (single c)∗ ↔ ∀ ch ∈ word, takes c ch = true := by
  rw [Language.mem_kstar]
  constructor
  · rintro ⟨words, rfl, singles⟩ ch member
    obtain ⟨word, listed, inside⟩ := List.mem_flatten.mp member
    obtain ⟨other, rfl, taken⟩ := singles word listed
    rw [List.mem_singleton.mp inside]
    exact takes_iff.mpr taken
  · intro taken
    refine ⟨word.map fun ch => [ch], ?_, ?_⟩
    · induction word with
      | nil => rfl
      | cons ch word induction =>
        rw [List.map_cons, List.flatten_cons,
          ← induction fun other member => taken other (List.mem_cons_of_mem _ member)]
        rfl
    · intro letters member
      obtain ⟨ch, inside, rfl⟩ := List.mem_map.mp member
      exact ⟨ch, rfl, takes_iff.mp (taken ch inside)⟩

/-- The loop of `matchstar` runs over characters that the starred one stands
for, and stops in front of a match of the rest. -/
theorem matchstar_iff (matchhere : List UInt8 → Bool) (text : List UInt8) :
    matchstar matchhere c text = true ↔ ∃ run rest, text = run ++ rest ∧
      (∀ ch ∈ run, takes c ch = true) ∧ matchhere rest = true := by
  induction text with
  | nil =>
    constructor
    · intro here
      exact ⟨[], [], rfl, by simp, here⟩
    · rintro ⟨run, rest, split, _, here⟩
      obtain ⟨rfl, rfl⟩ := List.append_eq_nil_iff.mp split.symm
      exact here
  | cons ch text induction =>
    rw [matchstar, Bool.or_eq_true, Bool.and_eq_true, induction]
    constructor
    · rintro (here | ⟨taken, run, rest, rfl, all, here⟩)
      · exact ⟨[], ch :: text, rfl, by simp, here⟩
      · exact ⟨ch :: run, rest, rfl, List.forall_mem_cons.mpr ⟨taken, all⟩, here⟩
    · rintro ⟨run, rest, split, all, here⟩
      cases run with
      | nil =>
        subst split
        exact .inl here
      | cons first run =>
        cases split
        obtain ⟨taken, all⟩ := List.forall_mem_cons.mp all
        exact .inr ⟨taken, run, rest, rfl, all, here⟩

/-- One more piece in front of a pattern. -/
theorem matchesAt_cons {pattern : Pattern} (piece : Piece) (text : List UInt8) :
    Pattern.MatchesAt { pattern with pieces := piece :: pattern.pieces } text ↔
      ∃ first rest, text = first ++ rest ∧ first ∈ piece.language ∧ pattern.MatchesAt rest := by
  simp only [Pattern.MatchesAt, Pattern.language, List.map_cons, List.prod_cons, Language.mem_mul]
  constructor
  · rintro ⟨found, after, rfl, ⟨first, inPiece, others, inRest, rfl⟩, ends⟩
    exact ⟨first, others ++ after, List.append_assoc .., inPiece, others, after, rfl, inRest, ends⟩
  · rintro ⟨first, rest, rfl, inPiece, others, after, rfl, inRest, ends⟩
    exact ⟨first ++ others, after, (List.append_assoc ..).symm,
      ⟨first, inPiece, others, inRest, rfl⟩, ends⟩

theorem matchesAt_one {pattern : Pattern} (text : List UInt8) :
    Pattern.MatchesAt { pattern with pieces := .one c :: pattern.pieces } text ↔
      ∃ ch rest, text = ch :: rest ∧ takes c ch = true ∧ pattern.MatchesAt rest := by
  rw [matchesAt_cons]
  constructor
  · rintro ⟨first, rest, rfl, ⟨ch, rfl, taken⟩, here⟩
    exact ⟨ch, rest, rfl, takes_iff.mpr taken, here⟩
  · rintro ⟨ch, rest, rfl, taken, here⟩
    exact ⟨[ch], rest, rfl, ⟨ch, rfl, takes_iff.mp taken⟩, here⟩

theorem matchesAt_nil (atStart : Bool) (text : List UInt8) :
    Pattern.MatchesAt { pieces := [], atStart, atEnd := false } text := by
  exact ⟨[], text, rfl, Language.nil_mem_one, by simp⟩

/-- The last test of `matchhere`. -/
theorem literal_iff {pattern : Pattern} {re : List UInt8}
    (here : ∀ text, matchhere re text = true ↔ pattern.MatchesAt text) (text : List UInt8) :
    (match text with
      | [] => false
      | ch :: text => takes c ch && matchhere re text) = true ↔
      Pattern.MatchesAt { pattern with pieces := .one c :: pattern.pieces } text := by
  rw [matchesAt_one]
  cases text with
  | nil => simp
  | cons ch text => simp [here]

theorem matchhere_iff : (re text : List UInt8) →
    (matchhere re text = true ↔ (Pattern.read re).MatchesAt text)
  | [], text => iff_of_true rfl (matchesAt_nil false text)
  | [c], text => by
    rw [matchhere.eq_def, Pattern.read.eq_def]
    by_cases isEnd : c = DOLLAR
    · simp only [if_pos isEnd, List.isEmpty_iff]
      constructor
      · rintro rfl
        exact ⟨[], [], rfl, Language.nil_mem_one, fun _ => rfl⟩
      · rintro ⟨found, after, rfl, isNil, ends⟩
        rw [ends rfl, List.append_nil]
        exact isNil
    · simp only [if_neg isEnd]
      exact literal_iff (matchhere_iff []) text
  | c :: d :: re, text => by
    rw [matchhere.eq_def, Pattern.read.eq_def]
    by_cases starred : d = STAR
    · simp only [if_pos starred]
      rw [matchesAt_cons, matchstar_iff]
      simp only [Piece.language, mem_kstar_single, matchhere_iff re]
    · simp only [if_neg starred]
      exact literal_iff (matchhere_iff (d :: re)) text

/-- The loop of `match` is that of `matchstar` for a character that stands for all. -/
theorem matchAnywhere_eq (matchhere : List UInt8 → Bool) (text : List UInt8) :
    matchAnywhere matchhere text = matchstar matchhere DOT text := by
  induction text with
  | nil => rfl
  | cons ch text induction =>
    rw [matchAnywhere, matchstar, induction, takes_iff.mpr (.inl rfl), Bool.true_and]

theorem Pattern.atStart_read (re : List UInt8) : (Pattern.read re).atStart = false := by
  fun_induction Pattern.read re <;> first | rfl | assumption

/-- A pattern that is not anchored at the start may match behind any prefix. -/
theorem matchAnywhere_read (re text : List UInt8) :
    matchAnywhere (matchhere re) text = true ↔ (Pattern.read re).MatchesIn text := by
  rw [matchAnywhere_eq, matchstar_iff]
  constructor
  · rintro ⟨before, rest, rfl, _, here⟩
    obtain ⟨found, after, rfl, inside, ends⟩ := (matchhere_iff re rest).mp here
    refine ⟨before, found, after, (List.append_assoc ..).symm, inside, ?_, ends⟩
    intro anchored
    rw [Pattern.atStart_read] at anchored
    cases anchored
  · rintro ⟨before, found, after, rfl, inside, _, ends⟩
    exact ⟨before, found ++ after, List.append_assoc .., fun _ _ => takes_iff.mpr (.inl rfl),
      (matchhere_iff re _).mpr ⟨found, after, rfl, inside, ends⟩⟩

/-- The matcher decides whether the text contains a match of the pattern. -/
theorem match_decides_language (re text : List UInt8) :
    «match» re text = true ↔ (Pattern.parse re).MatchesIn text := by
  cases re with
  | nil => exact matchAnywhere_read [] text
  | cons c re =>
    rw [«match», Pattern.parse]
    by_cases anchored : c = CARET
    · rw [if_pos anchored, if_pos anchored, matchhere_iff]
      constructor
      · rintro ⟨found, after, split, inside, ends⟩
        exact ⟨[], found, after, split, inside, fun _ => rfl, ends⟩
      · rintro ⟨before, found, after, split, inside, starts, ends⟩
        obtain rfl := starts rfl
        exact ⟨found, after, split, inside, ends⟩
    · rw [if_neg anchored, if_neg anchored]
      exact matchAnywhere_read (c :: re) text

end Xv6KernelEvent.Grep

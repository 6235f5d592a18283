import Mathlib.Data.List.Basic
import Mathlib.Data.List.Count

/-!
# Things that at most one owner has

Owners have lists of things.  A thing that nobody has may be given to one of
them, and a thing that its only owner gives up is then nobody's.
-/

namespace Xv6KernelEvent

variable {Owner Thing : Type} [DecidableEq Thing]

/-- At most one owner has the thing, and has it once. -/
structure AtMostOne (has : Owner → List Thing) (thing : Thing) : Prop where
  once : ∀ owner, (has owner).count thing ≤ 1
  alone : ∀ first second, thing ∈ has first → thing ∈ has second → first = second

namespace AtMostOne

variable {has next : Owner → List Thing} {thing : Thing}

theorem of_le (one : AtMostOne has thing)
    (fewer : ∀ owner, (next owner).count thing ≤ (has owner).count thing) :
    AtMostOne next thing := by
  have kept (owner : Owner) (member : thing ∈ next owner) : thing ∈ has owner := by
    rw [← List.count_pos_iff] at member ⊢
    exact Nat.lt_of_lt_of_le member (fewer owner)
  refine ⟨fun owner => Nat.le_trans (fewer owner) (one.once owner), ?_⟩
  intro first second inFirst inSecond
  exact one.alone first second (kept first inFirst) (kept second inSecond)

/-- A thing that nobody has goes to `owner`. -/
theorem of_gain (nobody : ∀ other, thing ∉ has other)
    (others : ∀ other, other ≠ owner → next other = has other)
    (here : (next owner).count thing ≤ 1) : AtMostOne next thing := by
  have only (other : Owner) (member : thing ∈ next other) : other = owner := by
    by_contra differs
    rw [others other differs] at member
    exact nobody other member
  refine ⟨?_, ?_⟩
  · intro other
    by_cases same : other = owner
    · rw [same]
      exact here
    · rw [others other same, List.count_eq_zero.mpr (nobody other)]
      exact Nat.zero_le 1
  · intro first second inFirst inSecond
    rw [only first inFirst, only second inSecond]

/-- The owner of a thing gives it up. -/
theorem gone (one : AtMostOne has thing) (others : ∀ other, other ≠ owner → next other = has other)
    (here : (next owner).count thing < (has owner).count thing)
    (other : Owner) : thing ∉ next other := by
  have was : thing ∈ has owner := List.count_pos_iff.mp (Nat.zero_lt_of_lt here)
  by_cases same : other = owner
  · have once := one.once owner
    rw [same, ← List.count_eq_zero]
    omega
  · intro member
    rw [others other same] at member
    exact same (one.alone other owner member was)

end AtMostOne

/-- One of two owners' marks in a list of references is exchanged. -/
theorem perm_replace {marks : List Thing} {old new : Thing} (member : old ∈ marks) :
    (marks.replace old new).Perm (new :: marks.erase old) := by
  induction marks with
  | nil => cases member
  | cons mark marks induction =>
    by_cases same : old = mark
    · subst same
      simp
    · have below : old ∈ marks := by simpa [same] using member
      rw [List.erase_cons_tail (by simpa using Ne.symm same),
        List.replace_cons, beq_eq_false_iff_ne.mpr same]
      exact ((induction below).cons mark).trans (.swap _ _ _)

theorem mem_replace_of_ne {marks : List Thing} {old new mark : Thing} (member : mark ∈ marks)
    (differs : mark ≠ old) : mark ∈ marks.replace old new := by
  by_cases present : old ∈ marks
  · rw [(perm_replace present).mem_iff]
    exact List.mem_cons_of_mem _ ((List.mem_erase_of_ne differs).mpr member)
  · rw [List.replace_of_not_mem present]
    exact member

omit [DecidableEq Thing] in
theorem mem_update_of_mem {marks : Nat → List Thing} {new : List Thing} {mark : Thing}
    (kept : mark ∈ marks i → mark ∈ new) (member : mark ∈ marks j) :
    mark ∈ Function.update marks i new j := by
  by_cases same : j = i
  · subst same
    rw [Function.update_self]
    exact kept member
  · rwa [Function.update_of_ne same]

theorem count_replace_of_ne {marks : List Thing} {old new mark : Thing} (notOld : mark ≠ old)
    (notNew : mark ≠ new) : (marks.replace old new).count mark = marks.count mark := by
  by_cases present : old ∈ marks
  · rw [(perm_replace present).count_eq, List.count_cons_of_ne notNew.symm,
      List.count_erase_of_ne notOld]
  · rw [List.replace_of_not_mem present]

end Xv6KernelEvent

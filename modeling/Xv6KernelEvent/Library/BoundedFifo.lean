import Mathlib.Data.List.Induction
import Mathlib.Data.List.Sort

/-!
# Bounded queues that drop their oldest item

A run of a bounded drop-oldest queue is described by the complete sequence of
pushed items and by two pieces of bookkeeping: the position of the oldest item
that is still pending, and the positions handed out so far.  Positions make
two equal items distinguishable, so statements about loss and duplication do
not depend on the items being different.
-/

namespace Xv6KernelEvent.BoundedFifo

variable {α : Type}

/-- Positive positions read a list through its tail. -/
private theorem filterMap_getElem?_cons (head : α) (tail : List α) {positions : List Nat}
    (positive : ∀ position ∈ positions, 0 < position) :
    (positions.filterMap fun position => (head :: tail)[position]?) =
      (positions.map (· - 1)).filterMap fun position => tail[position]? := by
  rw [List.filterMap_map]
  apply List.filterMap_congr
  intro position member
  obtain ⟨previous, rfl⟩ := Nat.exists_eq_succ_of_ne_zero (positive position member).ne'
  simp

private theorem pairwise_pred
    {positions : List Nat} (positive : ∀ position ∈ positions, 0 < position)
    (increasing : positions.Pairwise (· < ·)) : (positions.map (· - 1)).Pairwise (· < ·) := by
  refine List.pairwise_map.mpr (increasing.imp_of_mem ?_)
  intro left right leftMember _rightMember below
  have := positive left leftMember
  omega

/-- Reading a list at increasing positions yields a subsequence of it. -/
theorem filterMap_getElem?_sublist (items : List α) {positions : List Nat}
    (increasing : positions.Pairwise (· < ·)) :
    (positions.filterMap fun position => items[position]?).Sublist items := by
  induction items generalizing positions with
  | nil => simp
  | cons head tail induction =>
    have shifted : ∀ {later : List Nat},
        (∀ position ∈ later, 0 < position) → later.Pairwise (· < ·) →
        (later.filterMap fun position =>
          (head :: tail)[position]?).Sublist tail := by
      intro later positive laterIncreasing
      rw [filterMap_getElem?_cons head tail positive]
      exact induction (pairwise_pred positive laterIncreasing)
    cases positions with
    | nil => simp
    | cons first rest =>
      obtain ⟨firstBelow, restIncreasing⟩ := List.pairwise_cons.mp increasing
      cases first with
      | zero =>
        simp only [List.filterMap_cons, List.getElem?_cons_zero]
        exact (shifted firstBelow restIncreasing).cons_cons head
      | succ first =>
        refine List.Sublist.cons head (shifted ?_ increasing)
        intro position member
        rcases List.mem_cons.mp member with rfl | later
        · omega
        · have := firstBelow position later
          omega

inductive Op (α : Type) where
  | push (item : α)
  | pop

/-- Everything a run of the queue has done. -/
structure History (α : Type) where
  pushed : List α
  delivered : List Nat
  oldest : Nat

namespace History

def empty : History α := { pushed := [], delivered := [], oldest := 0 }

/-- The items still in the queue, oldest first. -/
def pending (history : History α) : List α := history.pushed.drop history.oldest

/-- The items handed out, in the order of their delivery. -/
def output (history : History α) : List α :=
  history.delivered.filterMap fun position => history.pushed[position]?

/-- One operation.  A push into a full queue first gives up the oldest
pending item; a pop of an empty queue does nothing. -/
def apply (capacity : Nat) (history : History α) : Op α → History α
  | .push item =>
    { history with
      pushed := history.pushed ++ [item]
      oldest :=
        if history.pending.length < capacity then history.oldest
        else history.oldest + 1 }
  | .pop =>
    if history.oldest < history.pushed.length then
      { history with
        delivered := history.delivered ++ [history.oldest]
        oldest := history.oldest + 1 }
    else history

def run (capacity : Nat) (ops : List (Op α)) : History α := ops.foldl (apply capacity) empty

@[simp] theorem run_nil (capacity : Nat) : run capacity ([] : List (Op α)) = empty := rfl

theorem run_concat (capacity : Nat) (ops : List (Op α)) (op : Op α) :
    run capacity (ops ++ [op]) = (run capacity ops).apply capacity op := by
  simp [run]

/-- The bookkeeping is consistent: at most `capacity` items are pending, and
positions are delivered in order and only once they have left the queue. -/
structure Consistent (capacity : Nat) (history : History α) : Prop where
  oldest_le : history.oldest ≤ history.pushed.length
  bounded : history.pushed.length ≤ history.oldest + capacity
  increasing : history.delivered.Pairwise (· < ·)
  delivered_lt : ∀ position ∈ history.delivered, position < history.oldest

theorem consistent_empty (capacity : Nat) : Consistent capacity (empty : History α) := by
  constructor <;> simp [empty]

theorem length_pending (history : History α) :
    history.pending.length = history.pushed.length - history.oldest := by
  simp [pending]

theorem Consistent.apply {history : History α} (positive : 0 < capacity)
    (consistent : Consistent capacity history) (op : Op α) :
    Consistent capacity (history.apply capacity op) := by
  have oldestLe := consistent.oldest_le
  have bounded := consistent.bounded
  cases op with
  | push item =>
    by_cases room : history.pending.length < capacity
    · have space := room
      rw [length_pending] at space
      constructor
      · simp [History.apply, room]
        omega
      · simp [History.apply, room]
        omega
      · exact consistent.increasing
      · simpa [History.apply, room] using consistent.delivered_lt
    · have full := room
      rw [length_pending] at full
      constructor
      · simp [History.apply, room]
        omega
      · simp [History.apply, room]
        omega
      · exact consistent.increasing
      · intro position member
        have before := consistent.delivered_lt position member
        simp [History.apply, room]
        omega
  | pop =>
    by_cases nonempty : history.oldest < history.pushed.length
    · constructor
      · simp only [History.apply, nonempty, if_true]
        omega
      · simp only [History.apply, nonempty, if_true]
        omega
      · simp only [History.apply, nonempty, if_true]
        refine List.pairwise_append.mpr ⟨consistent.increasing, List.pairwise_singleton _ _, ?_⟩
        intro position member next nextMember
        have same : next = history.oldest := by simpa using nextMember
        exact same ▸ consistent.delivered_lt position member
      · intro position member
        simp only [History.apply, nonempty, if_true, List.mem_append,
          List.mem_singleton] at member ⊢
        rcases member with earlier | last
        · exact (consistent.delivered_lt position earlier).trans (Nat.lt_succ_self _)
        · omega
    · simpa [History.apply, nonempty] using consistent

/-- A push appends its item, after giving up the oldest one of a full queue. -/
theorem Consistent.pending_push {history : History α} (positive : 0 < capacity)
    (consistent : Consistent capacity history) (item : α) :
    (history.apply capacity (.push item)).pending =
      (if history.pending.length < capacity then history.pending
        else history.pending.tail) ++ [item] := by
  by_cases room : history.pending.length < capacity
  · simp only [History.apply, room, if_true]
    exact List.drop_append_of_le_length consistent.oldest_le
  · have oldestLt : history.oldest < history.pushed.length := by
      rw [length_pending] at room
      omega
    simp only [History.apply, room, if_false]
    simp only [pending, List.tail_drop]
    exact List.drop_append_of_le_length oldestLt

/-- A push hands out nothing. -/
theorem Consistent.output_push {history : History α}
    (consistent : Consistent capacity history) (item : α) :
    (history.apply capacity (.push item)).output = history.output := by
  simp only [output, History.apply]
  apply List.filterMap_congr
  intro position member
  have below := consistent.delivered_lt position member
  exact List.getElem?_append_left (below.trans_le consistent.oldest_le)

/-- A pop hands out the oldest pending item. -/
theorem apply_pop_of_pending (capacity : Nat) {history : History α}
    (nonempty : history.pending = item :: rest) :
    (history.apply capacity .pop).pending = rest ∧
      (history.apply capacity .pop).output = history.output ++ [item] := by
  have available : history.oldest < history.pushed.length := by
    have lengths := congrArg List.length nonempty
    rw [length_pending, List.length_cons] at lengths
    omega
  simp only [pending, List.drop_eq_getElem_cons available, List.cons.injEq]
    at nonempty
  simp [History.apply, available, pending, output, nonempty]

theorem apply_pop_of_empty {history : History α} (empty : history.pending = []) :
    history.apply capacity .pop = history := by
  have exhausted : ¬history.oldest < history.pushed.length := by
    have lengths := congrArg List.length empty
    rw [length_pending, List.length_nil] at lengths
    omega
  simp [History.apply, exhausted]

theorem run_consistent (positive : 0 < capacity) (ops : List (Op α)) :
    Consistent capacity (run capacity ops) := by
  induction ops using List.reverseRecOn with
  | nil => exact consistent_empty capacity
  | append_singleton ops op induction =>
    rw [run_concat]
    exact induction.apply positive op

/-- A position that left the queue without being delivered was the oldest of
a full queue when a later push arrived. -/
theorem dropped_only_when_full (positive : 0 < capacity) (ops : List (Op α)) :
    ∀ position, position < (run capacity ops).oldest → position ∉ (run capacity ops).delivered →
      ∃ earlier item later, ops = earlier ++ .push item :: later ∧
        (run capacity earlier).oldest = position ∧
        (run capacity earlier).pending.length = capacity := by
  induction ops using List.reverseRecOn with
  | nil =>
    intro position below
    simp [empty] at below
  | append_singleton ops op induction =>
    intro position below absent
    have consistent := run_consistent positive ops
    have inherit : position < (run capacity ops).oldest → position ∉ (run capacity ops).delivered →
        ∃ earlier item later, ops ++ [op] = earlier ++ .push item :: later ∧
          (run capacity earlier).oldest = position ∧
          (run capacity earlier).pending.length = capacity := by
      intro oldBelow oldAbsent
      obtain ⟨earlier, item, later, split, oldest, full⟩ := induction position oldBelow oldAbsent
      exact ⟨earlier, item, later ++ [op], by simp [split], oldest, full⟩
    rw [run_concat] at below absent
    cases op with
    | push item =>
      have oldAbsent : position ∉ (run capacity ops).delivered := absent
      by_cases room : (run capacity ops).pending.length < capacity
      · exact inherit (by simpa [apply, room] using below) oldAbsent
      · by_cases earlier : position < (run capacity ops).oldest
        · exact inherit earlier oldAbsent
        · have last : position = (run capacity ops).oldest := by
            simp [apply, room] at below
            omega
          refine ⟨ops, item, [], rfl, last.symm, ?_⟩
          have bounded := consistent.bounded
          rw [length_pending] at room ⊢
          omega
    | pop =>
      by_cases nonempty : (run capacity ops).oldest < (run capacity ops).pushed.length
      · simp only [apply, nonempty, if_true, List.mem_append,
          List.mem_singleton, not_or] at below absent
        exact inherit (by omega) absent.1
      · simp only [apply, nonempty, if_false] at below absent
        exact inherit below absent

/-- The handed-out items are a subsequence of the pushed ones. -/
theorem Consistent.output_sublist {history : History α} (consistent : Consistent capacity history) :
    history.output.Sublist history.pushed :=
  filterMap_getElem?_sublist history.pushed consistent.increasing

end History

end Xv6KernelEvent.BoundedFifo

import Mathlib.Data.List.Basic
import Mathlib.Data.Nat.ModEq

/-!
# Windows of a circular buffer

A circular buffer keeps its live items in a window of consecutive cells that
may wrap around the end of the storage.  This module describes the window as a
list and records how writing behind the window and advancing its start change
that list.  It mentions neither the element type nor the code that maintains
the cursors.
-/

namespace Xv6KernelEvent.CircularBuffer

variable {α : Type} {capacity : Nat} [NeZero capacity]

/-- The cell that an unbounded cursor names. -/
def position (capacity : Nat) [NeZero capacity] (cursor : Nat) : Fin capacity :=
  ⟨cursor % capacity, Nat.mod_lt cursor (Nat.pos_of_ne_zero (NeZero.ne capacity))⟩

theorem position_mod_add (start offset : Nat) : position capacity (start % capacity + offset) =
      position capacity (start + offset) := by
  apply Fin.ext
  simp [position]

theorem position_eq_iff : position capacity left = position capacity right ↔
      left % capacity = right % capacity := by
  simp [position]

/-- Distinct offsets below the capacity name distinct cells. -/
theorem position_add_injective (leftBelow : left < capacity) (rightBelow : right < capacity)
    (same : position capacity (start + left) = position capacity (start + right)) :
    left = right := by
  have congruent : left ≡ right [MOD capacity] :=
    Nat.ModEq.add_left_cancel' start (position_eq_iff.mp same)
  exact Nat.ModEq.eq_of_lt_of_lt congruent leftBelow rightBelow

/-- The `count` cells that start at `head`, read with wrap-around. -/
def window (cells : Vector α capacity) (head count : Nat) : List α :=
  (List.range count).map fun offset => cells[position capacity (head + offset)]

@[simp] theorem length_window (cells : Vector α capacity) (head count : Nat) :
    (window cells head count).length = count := by
  simp [window]

@[simp] theorem window_zero (cells : Vector α capacity) (head : Nat) :
    window cells head 0 = [] := by
  simp [window]

/-- Only the residue of the start matters. -/
@[simp] theorem window_mod (cells : Vector α capacity) (head count : Nat) :
    window cells (head % capacity) count = window cells head count := by
  simp only [window, position_mod_add]

/-- The first item of a non-empty window is the cell at its start. -/
theorem window_succ (cells : Vector α capacity) (head count : Nat) : window cells head (count + 1) =
      cells[position capacity head] :: window cells (head + 1) count := by
  simp only [window, List.range_succ_eq_map, List.map_cons, Nat.add_zero, List.map_map]
  refine congrArg₂ List.cons rfl (List.map_congr_left ?_)
  intro offset _member
  have shifted : head + (offset + 1) = head + 1 + offset := by omega
  simp only [Function.comp_apply, Nat.succ_eq_add_one, shifted]

/-- Writing the cell just behind a window that is not full appends an item. -/
theorem window_set_succ (cells : Vector α capacity) (head count : Nat) (item : α)
    (space : count < capacity) :
    window (cells.set (position capacity (head + count)) item) head (count + 1) =
      window cells head count ++ [item] := by
  simp only [window, List.range_succ, List.map_append, List.map_cons, List.map_nil]
  refine congrArg₂ (· ++ ·) (List.map_congr_left ?_) ?_
  · intro offset member
    have offsetBelow : offset < count := List.mem_range.mp member
    have different : (position capacity (head + count)).val ≠
        (position capacity (head + offset)).val := by
      intro sameCell
      have offsets : count = offset :=
        position_add_injective space (offsetBelow.trans space) (Fin.ext sameCell)
      omega
    exact Vector.getElem_set_ne _ _ different
  · simp

end Xv6KernelEvent.CircularBuffer

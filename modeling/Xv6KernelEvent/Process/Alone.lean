import Xv6KernelEvent.Process.Safety

/-!
# One CPU for itself

What a function comes to if its CPU takes one step after the other, no other CPU
takes one, and the locks that it asks for are free.
-/

namespace Xv6KernelEvent.Process

open SpinThreads

variable {owner : Lock → Option Nat}

/-- What CPU `c` sees while it runs alone. -/
structure Alone (machine : State) (c : Nat) (thread : Thread)
    (stack : List Frame) (shared : Shared) (owner : Lock → Option Nat) : Prop where
  sane : Sane machine
  alive : machine.panicked = none
  current : (machine.cpu c).thread = thread
  stacked : machine.stack thread = stack
  isShared : machine.shared = shared
  isOwner : machine.owner = owner

section

variable (alone : Alone machine c thread (frame :: rest) shared owner)

include alone

/-- What one step of the code leads to. -/
theorem Alone.act {act : Act Lock Frame Update Reason}
    (coded : code thread.proc? frame shared (.go true) = some act)
    (performed : kernel.perform machine c rest act = some next) :
    kernel.run machine (steps 1 c) = next ∧ Sane next := by
  obtain ⟨sane, alive, rfl, top, rfl, rfl⟩ := alone
  have stepped : kernel.step machine c (.go true) = some next :=
    (kernel.step_of_code machine alive top rfl coded).trans performed
  refine ⟨?_, sane.step stepped⟩
  change (kernel.step machine c (.go true)).getD machine = next
  rw [stepped]
  rfl

theorem Alone.acquire (coded : code thread.proc? frame shared (.go true) =
      some (.acquire lock after)) (free : owner lock = none) :
    Alone (kernel.run machine (steps 1 c)) c thread (after :: rest) shared
      (Function.update owner lock (some c)) := by
  have performed : kernel.perform machine c rest (.acquire lock after) =
      some (((machine.setStack (machine.cpu c).thread (after :: rest)).setOwner
        lock (some c)).setCpu c (machine.cpu c).pushOff) := by
    simp [Kernel.perform, Machine.acquire, Machine.setStack, alone.isOwner, free]
  obtain ⟨isRun, sane⟩ := alone.act coded performed
  rw [isRun]
  obtain ⟨_, alive, rfl, top, rfl, rfl⟩ := alone
  exact
    { sane
      alive
      current := by simp [Machine.setCpu, Cpu.pushOff]
      stacked := Function.update_self ..
      isShared := rfl
      isOwner := rfl }

theorem Alone.release
    (coded : code thread.proc? frame shared (.go true) = some (.release lock after)) :
    Alone (kernel.run machine (steps 1 c)) c thread (after :: rest) shared
      (Function.update owner lock none) := by
  have top : machine.stack (machine.cpu c).thread = frame :: rest := by
    rw [alone.current, alone.stacked]
  have isCode : code (machine.cpu c).thread.proc? frame machine.shared
      (.go true) = some (.release lock after) := by
    rw [alone.current, alone.isShared]
    exact coded
  have onCpu : lock ∈ heldOn discipline machine c :=
    mem_heldOn top (alone.sane.follows top isCode).sound.1
  have mine : machine.owner lock = some c := (alone.sane.owned.owns c lock).mpr onCpu
  have masked : ¬ (machine.cpu c).sie = true := by
    intro enabled
    rw [alone.sane.owned.masked c enabled] at onCpu
    cases onCpu
  have nested : ¬ (machine.cpu c).noff < 1 := by
    rw [alone.sane.owned.depth c]
    exact Nat.not_lt.mpr (List.length_pos_of_mem onCpu)
  have performed : kernel.perform machine c rest (.release lock after) =
      some (((machine.setStack (machine.cpu c).thread (after :: rest)).setOwner
        lock none).setCpu c (machine.cpu c).popOff) := by
    simp [Kernel.perform, Machine.release, Machine.setStack, mine, masked, nested]
  obtain ⟨isRun, sane⟩ := alone.act coded performed
  rw [isRun]
  obtain ⟨_, alive, rfl, _, rfl, rfl⟩ := alone
  exact
    { sane
      alive
      current := by simp [Machine.setCpu, Cpu.popOff]
      stacked := Function.update_self ..
      isShared := rfl
      isOwner := rfl }

theorem Alone.update
    (coded : code thread.proc? frame shared (.go true) = some (.update change after)) :
    Alone (kernel.run machine (steps 1 c)) c thread (after :: rest)
      (change.apply shared) owner := by
  obtain ⟨isRun, sane⟩ := alone.act coded rfl
  rw [isRun]
  obtain ⟨_, alive, rfl, top, rfl, rfl⟩ := alone
  exact
    { sane
      alive
      current := rfl
      stacked := Function.update_self ..
      isShared := rfl
      isOwner := rfl }

end

theorem Alone.ret (alone : Alone machine c thread (frame :: caller :: rest) shared owner)
    (coded : code thread.proc? frame shared (.go true) = some (.ret value)) :
    Alone (kernel.run machine (steps 1 c)) c thread (resume caller value :: rest) shared owner := by
  obtain ⟨isRun, sane⟩ := alone.act coded rfl
  rw [isRun]
  obtain ⟨_, alive, rfl, top, rfl, rfl⟩ := alone
  exact
    { sane
      alive
      current := rfl
      stacked := Function.update_self ..
      isShared := rfl
      isOwner := rfl }

theorem run_steps_add (machine : State) (m n c : Nat) : kernel.run machine (steps (m + n) c) =
      kernel.run (kernel.run machine (steps m c)) (steps n c) := by
  rw [steps, List.replicate_add]
  exact kernel.run_append machine (steps m c) (steps n c)

theorem released_owner (free : owner lock = none) :
    Function.update (Function.update owner lock (some c)) lock none = owner := by
  rw [Function.update_idem, ← free, Function.update_eq_self]

end Xv6KernelEvent.Process

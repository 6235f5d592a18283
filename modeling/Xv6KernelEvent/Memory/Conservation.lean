import Xv6KernelEvent.Memory.System

/-!
# Conservation of pages

Whatever the processes do and however they interleave, the free list, the
processes, the pipes and the kernel together have the pages that `kinit` found,
each of them once.  A process between two calls has its page table in shape, and
a call in progress keeps account of what it holds, so that it comes to its end.
-/

namespace Xv6KernelEvent

open Custody Runs

namespace CallEnd

def holdings (result : CallEnd) : Multiset Nat :=
  result.self.holdings + result.child.elim 0 ProcessMemory.holdings +
    result.pipe.elim 0 fun page => {page}

theorem holdings_plain (value : Int) (p : ProcessMemory) :
    (plain value p).holdings = p.holdings := by
  simp [holdings, plain]

end CallEnd

namespace MemoryCall

/-- What `sbrk(n)` returns to a process of size `before`, and the size that it
leaves. -/
def Sbrk (n : Int) (before : Nat) (value : Int) (after : Nat) : Prop :=
  value = -1 ∧ after = before ∨ value = before ∧
      ((after : Int) = before + n ∨ before + n < 0 ∧ after = before)

/-- How a call ends that a process with memory `before` makes. -/
structure Ends (trampoline : Nat) (call : MemoryCall) (before : ProcessMemory)
    (result : CallEnd) : Prop where
  self : result.self.Sound trampoline
  child : ∀ child, result.child = some child → child.Sound trampoline
  untargeted : call.target = none → result.child = none
  sbrk : ∀ n t, call = .sbrk n t → Sbrk n.toInt before.sz result.value result.self.sz
  reap : ∀ child, call = .reap child →
    result.self = before ∧ result.child = none ∧ result.pipe = none

/-- A call that only changes the memory of its caller. -/
theorem Ends.of_plain (sound : after.Sound trampoline)
    (sbrk : ∀ n t, call = .sbrk n t → Sbrk n.toInt before.sz value after.sz)
    (reap : ∀ child, call = .reap child → after = before) :
    Ends trampoline call before (.plain value after) where
  self := sound
  child := fun _ made => nomatch made
  untargeted := fun _ => rfl
  sbrk := sbrk
  reap := fun child same => ⟨reap child same, rfl, rfl⟩

theorem program_accounts (bound : stock.card ≤ TRAPFRAME) (sound : p.Sound trampoline)
    (freed : ∀ q, zombie = some q → q.Sound trampoline) (call : MemoryCall) :
    Accounts stock (fun result held => held = result.holdings ∧ call.Ends trampoline p result)
      (call.demand p zombie) (call.program trampoline p zombie) := by
  cases call with
  | sbrk n t =>
    refine (sysSbrk_accounts sound t.toInt n.le_toInt n.toInt_lt).seq ?_
    rintro ⟨value, after⟩ held ⟨rfl, kept, values⟩
    refine ⟨(CallEnd.holdings_plain _ _).symm, .of_plain kept ?_ nofun⟩
    rintro _ _ ⟨⟩
    exact values
  | fault va =>
    refine (vmfault_accounts sound va.toNat).seq ?_
    rintro ⟨mem, after⟩ held ⟨⟨rfl, kept, -⟩, -⟩
    exact ⟨(CallEnd.holdings_plain _ _).symm, .of_plain kept nofun nofun⟩
  | copyin srcva len =>
    refine (copyin_accounts sound len.toNat srcva.toNat len.toNat).seq ?_
    rintro ⟨copied, after⟩ held ⟨rfl, kept, -⟩
    exact ⟨(CallEnd.holdings_plain _ _).symm, .of_plain kept nofun nofun⟩
  | copyout dstva len =>
    refine (copyout_accounts sound len.toNat dstva.toNat len.toNat).seq ?_
    rintro ⟨copied, after⟩ held ⟨rfl, kept, -⟩
    exact ⟨(CallEnd.holdings_plain _ _).symm, .of_plain kept nofun nofun⟩
  | exec uargv argument found elf headers =>
    refine (sysExec_accounts bound sound uargv.toNat argument found elf headers).seq ?_
    rintro ⟨executed, after⟩ held ⟨rfl, kept⟩
    exact ⟨(CallEnd.holdings_plain _ _).symm, .of_plain kept nofun nofun⟩
  | fork child =>
    refine (kfork_accounts sound).seq_frame
      (show p.holdings = 0 + p.holdings from (zero_add _).symm) ?_
    rintro (_ | np) held made
    · obtain rfl := made
      exact ⟨by simp [CallEnd.holdings], sound, nofun, nofun, nofun, nofun⟩
    · obtain ⟨rfl, -, fresh⟩ := made
      refine ⟨by simp [CallEnd.holdings, add_comm], sound, ?_, nofun, nofun, nofun⟩
      rintro _ ⟨⟩
      exact fresh
  | reap child =>
    have emptied : Accounts stock (fun _ held => held = 0) (zombie.elim 0 ProcessMemory.holdings)
        (zombie.elim (pure ()) fun q =>
          freeproc (some q.trapframe) (some q.table) q.sz) := by
      cases zombie with
      | none => exact rfl
      | some q => exact freeproc_accounts (freed q rfl)
    refine emptied.seq_frame (add_comm _ _) ?_
    rintro - held rfl
    refine ⟨?_, .of_plain sound nofun fun _ _ => rfl⟩
    rw [CallEnd.holdings_plain, zero_add]
  | pipealloc =>
    refine Accounts.acquire_seq ?_ ?_
    · exact ⟨by simp [CallEnd.holdings, demand], sound, nofun, fun _ => rfl, nofun, nofun⟩
    · intro page available
      refine ⟨?_, sound, nofun, fun _ => rfl, nofun, nofun⟩
      simp [CallEnd.holdings, demand, add_comm]
  | pipeclose page =>
    exact Accounts.release_seq rfl ⟨(CallEnd.holdings_plain _ _).symm, .of_plain sound nofun nofun⟩

end MemoryCall

def Slot.Sound (trampoline : Nat) (stock : Multiset Nat) : Slot → Prop
  | .idle p => p.Sound trampoline
  | .busy activity =>
    Accounts stock (fun result held => held = result.holdings ∧
        activity.call.Ends trampoline activity.before result)
      activity.held activity.task
  | _ => True

namespace MemorySystem

/-- What the processes have. -/
def processes (system : MemorySystem) : Multiset Nat :=
  ∑ index ∈ Finset.range NPROC, (system.slot index).holdings

structure Conserves (trampoline : Nat) (stock : Multiset Nat) (system : MemorySystem) : Prop where
  total : (system.free : Multiset Nat) + system.processes + system.pipes + system.boot = stock
  outside : ∀ index, NPROC ≤ index → system.slot index = .unused
  sound : ∀ index, (system.slot index).Sound trampoline stock
  reserved : ∀ index activity target, system.slot index = .busy activity →
      activity.call.target = some target → system.slot target = .reserved index

variable {system after : MemorySystem} {slot : Slot}

theorem initial_conserves (kend : Nat) : (initial kend).Conserves trampoline (kinit kend) where
  total := by simp [initial, processes, Slot.holdings]
  outside := fun _ _ => rfl
  sound := fun _ => trivial
  reserved := nofun

namespace Conserves

section

variable (conserves : system.Conserves trampoline stock)

include conserves

theorem lt (used : system.slot index ≠ .unused) : index < NPROC := by
  by_contra high
  exact used (conserves.outside index (not_lt.mp high))

theorem share_le (below : index < NPROC) :
    (system.slot index).holdings + (system.free : Multiset Nat) ≤ stock := by
  have part : (system.slot index).holdings ≤ system.processes :=
    Finset.single_le_sum (f := fun other => (system.slot other).holdings)
      (fun _ _ => Multiset.zero_le _) (Finset.mem_range.mpr below)
  calc (system.slot index).holdings + (system.free : Multiset Nat)
      ≤ system.processes + system.free := by gcongr
    _ = system.free + system.processes := add_comm _ _
    _ ≤ system.free + system.processes + (system.pipes + system.boot) := Multiset.le_add_right _ _
    _ = stock := by rw [← conserves.total, add_assoc, add_assoc, add_assoc]

theorem untargeted (free : ∀ other, system.slot index ≠ .reserved other) (other : Nat)
    (activity : Activity) (busy : system.slot other = .busy activity) :
    activity.call.target ≠ some index := fun targets =>
  free other (conserves.reserved other activity index busy targets)

/-- One slot changes, and what it gains or loses is made up for elsewhere. -/
theorem replace (below : index < NPROC)
    (slots : after.slot = Function.update system.slot index slot)
    (balance : (after.free : Multiset Nat) + slot.holdings + after.pipes + after.boot =
      system.free + (system.slot index).holdings + system.pipes + system.boot)
    (sound : slot.Sound trampoline stock)
    (targets : ∀ activity target, slot = .busy activity → activity.call.target = some target →
        target ≠ index ∧ system.slot target = .reserved index)
    (untargeted : ∀ other activity, other ≠ index → system.slot other = .busy activity →
        activity.call.target ≠ some index) : after.Conserves trampoline stock where
  total := by
    have exchanged : after.processes + (system.slot index).holdings =
        system.processes + slot.holdings := by
      rw [processes, slots]
      exact sum_update Slot.holdings system.slot below slot
    apply add_right_cancel (b := (system.slot index).holdings)
    calc (after.free : Multiset Nat) + after.processes + after.pipes +
          after.boot + (system.slot index).holdings
        = after.free + (after.processes + (system.slot index).holdings) +
            after.pipes + after.boot := by abel
      _ = after.free + slot.holdings + after.pipes + after.boot +
            system.processes := by rw [exchanged]; abel
      _ = system.free + system.processes + system.pipes + system.boot +
            (system.slot index).holdings := by rw [balance]; abel
      _ = stock + (system.slot index).holdings := by rw [conserves.total]
  outside := by
    intro other high
    rw [slots, Function.update_of_ne (by omega)]
    exact conserves.outside other high
  sound := by
    intro other
    rw [slots]
    by_cases same : other = index
    · rw [same, Function.update_self]
      exact sound
    · rw [Function.update_of_ne same]
      exact conserves.sound other
  reserved := by
    intro other activity target busy names
    rw [slots] at busy ⊢
    by_cases same : other = index
    · rw [same, Function.update_self] at busy
      obtain ⟨differs, reserved⟩ := targets activity target busy names
      rw [Function.update_of_ne differs, reserved, same]
    · rw [Function.update_of_ne same] at busy
      have differs : target ≠ index := by
        rintro rfl
        exact untargeted other activity same busy names
      rw [Function.update_of_ne differs]
      exact conserves.reserved other activity target busy names

section

variable (busy : system.slot index = .busy activity)

include busy

/-- The slot of a call in progress takes the next state of the call. -/
theorem continue_ (slots : after.slot = Function.update system.slot index
      (.busy { activity with task := task, held := held }))
    (balance : (after.free : Multiset Nat) + held + after.pipes + after.boot =
      system.free + activity.held + system.pipes + system.boot)
    (accounts : Accounts stock (fun result held => held = result.holdings ∧
        activity.call.Ends trampoline activity.before result) held task) :
    after.Conserves trampoline stock := by
  have used : system.slot index ≠ .unused := by rw [busy]; exact nofun
  refine conserves.replace (conserves.lt used) slots ?_ accounts ?_ ?_
  · rw [busy]
    exact balance
  · rintro _ target ⟨⟩ names
    have reserved := conserves.reserved index activity target busy names
    refine ⟨?_, reserved⟩
    rintro rfl
    rw [busy] at reserved
    cases reserved
  · intro other theirs differs
    exact conserves.untargeted (by rw [busy]; exact nofun) other theirs

theorem advance (taken : system.advance index refuse activity = some after) :
    after.Conserves trampoline stock := by
  have used : system.slot index ≠ .unused := by rw [busy]; exact nofun
  have within := conserves.share_le (conserves.lt used)
  have accounts := conserves.sound index
  rw [busy] at within accounts
  simp only [Slot.Sound, Slot.holdings] at accounts within
  rw [MemorySystem.advance] at taken
  split at taken
  · rename_i next task
    rw [task] at accounts
    split at taken
    · rename_i page rest free
      split at taken
      · cases taken
        exact conserves.continue_ busy rfl rfl accounts.1
      · cases taken
        rw [free, ← Multiset.cons_coe, Multiset.add_cons, ← Multiset.cons_add] at within
        refine conserves.continue_ busy rfl ?_ (accounts.2 page
          ((Multiset.le_add_right _ _).trans within))
        simp only [setSlot, free, ← Multiset.cons_coe, Multiset.add_cons, Multiset.cons_add]
    · cases taken
      exact conserves.continue_ busy rfl rfl accounts.1
  · rename_i page next task
    rw [task] at accounts
    cases taken
    obtain ⟨rest, holds, accounts⟩ := accounts
    refine conserves.continue_ busy rfl ?_ (by rwa [holds, Multiset.erase_cons_head])
    simp only [setSlot]
    rw [holds, Multiset.erase_cons_head, ← Multiset.cons_coe, Multiset.cons_add, Multiset.add_cons]
  · cases taken

theorem finish (taken : system.finish index activity = some after) :
    after.Conserves trampoline stock := by
  have used : system.slot index ≠ .unused := by rw [busy]; exact nofun
  have accounts := conserves.sound index
  rw [busy] at accounts
  rw [MemorySystem.finish] at taken
  split at taken
  · rename_i result task
    simp only [Slot.Sound] at accounts
    rw [task] at accounts
    obtain ⟨holds, ends⟩ := accounts
    -- The child stays with the pipes until its slot is filled.
    let extra := result.child.elim 0 ProcessMemory.holdings
    have middle : ({ system.setSlot index (.idle result.self) with
        pipes := system.pipes + (result.pipe.elim 0 fun page => {page}) +
          extra } : MemorySystem).Conserves trampoline stock := by
      refine conserves.replace (conserves.lt used) rfl ?_ ends.self nofun ?_
      · rw [busy]
        simp only [Slot.holdings, setSlot]
        rw [holds, CallEnd.holdings]
        abel
      · intro other theirs differs
        exact conserves.untargeted (by rw [busy]; exact nofun) other theirs
    simp only at taken
    split at taken
    · rename_i target
      cases taken
      have none : extra = 0 := by
        simp only [extra]
        rw [ends.untargeted target, Option.elim_none]
      rwa [none, add_zero] at middle
    · rename_i target names
      cases taken
      have reserved := conserves.reserved index activity target busy names
      have differs : target ≠ index := by
        rintro rfl
        rw [busy] at reserved
        cases reserved
      have empty : (Function.update system.slot index (.idle result.self))
          target = .reserved index := by
        rw [Function.update_of_ne differs, reserved]
      have below : target < NPROC := conserves.lt (by rw [reserved]; exact nofun)
      refine middle.replace below rfl ?_ ?_ ?_ ?_
      · simp only [setSlot]
        rw [empty]
        cases made : result.child with
        | none => simp [Slot.holdings, extra, made]
        | some child =>
          simp only [Slot.holdings, extra, made, Option.elim_some, add_zero]
          abel
      · cases made : result.child with
        | none => trivial
        | some child => exact ends.child child made
      · cases result.child <;> exact nofun
      · intro other theirs _ active
        simp only [setSlot] at active
        by_cases same : other = index
        · rw [same, Function.update_self] at active
          cases active
        · rw [Function.update_of_ne same] at active
          intro again
          have twice := conserves.reserved other theirs target active again
          rw [reserved] at twice
          cases twice
          exact same rfl
  · cases taken

end

theorem boot (free : system.free = page :: rest) :
    ({ system with free := rest, boot := page ::ₘ system.boot } :
      MemorySystem).Conserves trampoline stock where
  total := by
    have total := conserves.total
    rw [free, ← Multiset.cons_coe] at total
    simp only [Multiset.add_cons, Multiset.cons_add] at total ⊢
    exact total
  outside := conserves.outside
  sound := conserves.sound
  reserved := conserves.reserved

theorem userinit (below : index < NPROC) (unused : system.slot index = .unused)
    (executes : (allocproc trampoline).execute system.free = .ok (some made, rest)) :
    ({ system.setSlot index (.idle made) with free := rest } :
      MemorySystem).Conserves trampoline stock := by
  have within := conserves.share_le below
  rw [unused] at within
  obtain ⟨outcome, held, remaining, found, post, kept⟩ :=
    allocproc_accounts.execute system.free within
  rw [executes] at found
  cases found
  obtain ⟨rfl, -, sound⟩ := post
  refine conserves.replace below rfl ?_ sound nofun ?_
  · rw [unused]
    simp only [Slot.holdings, setSlot]
    rw [add_comm (rest : Multiset Nat), kept, zero_add, add_zero]
  · intro other theirs differs
    exact conserves.untargeted (by rw [unused]; exact nofun) other theirs

end

/-- A call begins once the slot it is to fill or empty is its own. -/
theorem begin_ (call : MemoryCall) (zombie : Option ProcessMemory) (bound : stock.card ≤ TRAPFRAME)
    (conserves : system.Conserves trampoline stock) (idle : system.slot index = .idle p)
    (freed : ∀ q, zombie = some q → q.Sound trampoline)
    (reserved : ∀ target, call.target = some target → system.slot target = .reserved index)
    (slots : after.slot = Function.update system.slot index (.busy
      { call := call
        before := p
        task := call.program trampoline p zombie
        held := call.demand p zombie }))
    (balance : (after.free : Multiset Nat) + call.demand p zombie + after.pipes + after.boot =
      system.free + p.holdings + system.pipes + system.boot) :
    after.Conserves trampoline stock := by
  have sound := conserves.sound index
  rw [idle] at sound
  refine conserves.replace (conserves.lt (by rw [idle]; exact nofun)) slots ?_
    (MemoryCall.program_accounts bound sound freed call) ?_ ?_
  · rw [idle]
    exact balance
  · rintro _ target ⟨⟩ names
    refine ⟨?_, reserved target names⟩
    rintro rfl
    have twice := reserved target names
    rw [idle] at twice
    cases twice
  · intro other theirs differs
    exact conserves.untargeted (by rw [idle]; exact nofun) other theirs

/-- The slot that a call is to fill or empty becomes its own; its pages stay
with the pipes meanwhile. -/
theorem reserve (conserves : system.Conserves trampoline stock) (below : target < NPROC)
    (free : ∀ other, system.slot target ≠ .reserved other) (index : Nat) :
    ({ system.setSlot target (.reserved index) with
        pipes := system.pipes + (system.slot target).holdings } :
      MemorySystem).Conserves trampoline stock := by
  refine conserves.replace below rfl ?_ trivial nofun ?_
  · simp only [Slot.holdings, setSlot]
    abel
  · intro other theirs differs
    exact conserves.untargeted free other theirs

theorem start (bound : stock.card ≤ TRAPFRAME) (conserves : system.Conserves trampoline stock)
    (idle : system.slot index = .idle p)
    (taken : system.start trampoline index call p = some after) :
    after.Conserves trampoline stock := by
  rw [MemorySystem.start.eq_def] at taken
  simp only at taken
  split at taken
  · rename_i child
    split at taken
    · rename_i unused
      obtain ⟨below, ⟨⟩⟩ := Option.ite_none_right_eq_some.mp taken
      have middle := conserves.reserve below (by rw [unused]; exact nofun) index
      have differs : index ≠ child := by
        rintro rfl
        rw [idle] at unused
        cases unused
      refine middle.begin_ (.fork child) none bound
        ((Function.update_of_ne differs _ _).trans idle) nofun ?_ ?_ ?_
      · rintro target ⟨⟩
        exact Function.update_self child _ _
      · exact Function.update_comm differs _ _ _
      · rw [unused]
        simp [setSlot, MemoryCall.demand, Slot.holdings]
    · cases taken
  · rename_i child
    split at taken
    · rename_i q zombie
      obtain ⟨differs, ⟨⟩⟩ := Option.ite_none_left_eq_some.mp taken
      have middle := conserves.reserve (conserves.lt (by rw [zombie]; exact nofun))
        (by rw [zombie]; exact nofun) index
      have sound := conserves.sound child
      rw [zombie] at sound
      refine middle.begin_ (.reap child) (some q) bound
        ((Function.update_of_ne (Ne.symm differs) _ _).trans idle) ?_ ?_ ?_ ?_
      · rintro _ ⟨⟩
        exact sound
      · rintro target ⟨⟩
        exact Function.update_self child _ _
      · exact Function.update_comm (Ne.symm differs) _ _ _
      · rw [zombie]
        simp only [setSlot, MemoryCall.demand, Slot.holdings, Option.elim_some]
        abel
    · cases taken
  · rename_i page
    obtain ⟨member, ⟨⟩⟩ := Option.ite_none_right_eq_some.mp taken
    refine conserves.begin_ (.pipeclose page) none bound idle nofun
      (fun _ names => nomatch names) rfl ?_
    simp only [setSlot, MemoryCall.demand]
    conv_rhs => rw [← Multiset.cons_erase member]
    simp only [Multiset.add_cons, Multiset.cons_add]
  · rename_i notFork notReap notClose
    cases taken
    refine conserves.begin_ call none bound idle nofun ?_ rfl ?_
    · intro target names
      cases call with
      | fork child => exact absurd rfl (notFork child)
      | reap child => exact absurd rfl (notReap child)
      | _ => cases names
    · cases call with
      | pipeclose page => exact absurd rfl (notClose page)
      | reap child => exact absurd rfl (notReap child)
      | _ => rfl

theorem next (bound : stock.card ≤ TRAPFRAME) (conserves : system.Conserves trampoline stock)
    (taken : system.next trampoline step = some after) : after.Conserves trampoline stock := by
  cases step with
  | boot =>
    rw [MemorySystem.next] at taken
    split at taken
    · rename_i page rest free
      cases taken
      exact conserves.boot free
    · cases taken
  | userinit index =>
    rw [MemorySystem.next] at taken
    split at taken
    · rename_i unused executes
      obtain ⟨below, ⟨⟩⟩ := Option.ite_none_right_eq_some.mp taken
      exact conserves.userinit below unused executes
    · cases taken
  | start index call =>
    rw [MemorySystem.next] at taken
    split at taken
    · rename_i p idle
      exact conserves.start bound idle taken
    · cases taken
  | advance index refuse =>
    rw [MemorySystem.next] at taken
    split at taken
    · rename_i activity busy
      exact conserves.advance busy taken
    · cases taken
  | finish index =>
    rw [MemorySystem.next] at taken
    split at taken
    · rename_i activity busy
      exact conserves.finish busy taken
    · cases taken

end Conserves

end MemorySystem

end Xv6KernelEvent

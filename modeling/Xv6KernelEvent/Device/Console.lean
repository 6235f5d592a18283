import Xv6KernelEvent.Device.ReadAttempts

/-!
# Reading from the console

`consoleread` (`kernel/console.c`).  A call is a list of passes under
`cons.lock`: it goes to sleep whenever the input is exhausted and, woken up,
continues with whatever the interrupt handler and other readers have made of
the console meanwhile.
-/

namespace Xv6KernelEvent

def INPUT_BUF_SIZE : Nat := 128

theorem INPUT_BUF_SIZE_pos : 0 < INPUT_BUF_SIZE := by decide

/-- `cons` without its lock: the input ring with its read, write and edit
counters, which are `uint`s and wrap. -/
structure Cons where
  buf : Vector UInt8 INPUT_BUF_SIZE
  r : UInt32
  w : UInt32
  e : UInt32

def Cons.byte (cons : Cons) (counter : UInt32) : UInt8 :=
  cons.buf.get ⟨counter.toNat % INPUT_BUF_SIZE, Nat.mod_lt _ INPUT_BUF_SIZE_pos⟩

/-- `C('D')`, the end-of-file character. -/
def controlD : UInt8 := 4

def newline : UInt8 := 10

/-- How one pass ends: asleep on `&cons.r` with `remaining` bytes still
wanted, or returning `value`. -/
inductive ConsoleOutcome where
  | sleeping (remaining : Nat)
  | returned (value : Int)
  deriving DecidableEq

structure ConsolePass where
  outcome : ConsoleOutcome
  cons : Cons
  space : UserSpace
  attempts : List Attempt

/-- The loop of `consoleread` from a point where `remaining` of the `target`
bytes are wanted, up to the next `sleep` or the end of the call. -/
def consolereadPass (userDst : Bool) (alloc : Nat → Bool) (killed : Bool)
    (dst target : Nat) : Nat → Cons → UserSpace → ConsolePass
  | 0, cons, space =>
    { outcome := .returned target
      cons := cons
      space := space
      attempts := [] }
  | remaining + 1, cons, space =>
    if cons.r = cons.w then
      { outcome :=
          if killed then .returned (-1) else .sleeping (remaining + 1)
        cons := cons
        space := space
        attempts := [] }
    else
      let c := cons.byte cons.r
      let advanced := { cons with r := cons.r + 1 }
      let copied := target - (remaining + 1)
      if c = controlD then
        { outcome := .returned copied
          cons :=
            if remaining + 1 < target then { advanced with r := advanced.r - 1 }
            else advanced
          space := space
          attempts := [] }
      else
        let (result, space) := eitherCopyoutByte userDst alloc space (dst + copied) c
        if result = -1 then
          { outcome := .returned copied
            cons := advanced
            space := space
            attempts := [{ cursor := cons.r, copied := false }] }
        else if c = newline then
          { outcome := .returned (copied + 1 : Nat)
            cons := advanced
            space := space
            attempts := [{ cursor := cons.r, copied := true }] }
        else
          let rest := consolereadPass userDst alloc killed dst target remaining advanced space
          { rest with
            attempts := { cursor := cons.r, copied := true } :: rest.attempts }

/-- The console as a reader finds it on (re)acquiring `cons.lock`, and whether
it has been killed by then. -/
structure ConsoleTurn where
  cons : Cons
  killed : Bool

/-- The passes of one call of `consoleread`, one for each turn it gets. -/
def consolereadPasses (userDst : Bool) (alloc : Nat → Bool) (dst target : Nat) :
    Nat → UserSpace → List ConsoleTurn → List ConsolePass
  | _, _, [] => []
  | remaining, space, turn :: turns =>
    let pass := consolereadPass userDst alloc turn.killed dst target remaining turn.cons space
    match pass.outcome with
    | .returned _ => [pass]
    | .sleeping remaining =>
      pass :: consolereadPasses userDst alloc dst target remaining pass.space turns

/-- `consoleread(user_dst, dst, n)`. -/
def consoleread (userDst : Bool) (alloc : Nat → Bool) (dst : Nat) (n : Int)
    (space : UserSpace) (turns : List ConsoleTurn) : List ConsolePass :=
  consolereadPasses userDst alloc dst n.toNat n.toNat space turns

section

variable {userDst : Bool} {alloc : Nat → Bool} {dst target : Nat}

/-- The buffer that a call was given can be stored into. -/
def BufferWritable (userDst : Bool) (alloc : Nat → Bool) (space : UserSpace)
    (dst target : Nat) : Prop :=
  userDst = true → space.Writable alloc dst target

/-- A pass into a writable buffer copies every byte it takes. -/
theorem consolereadPass_copied (killed : Bool) (within : remaining ≤ target) (cons : Cons)
    (writable : BufferWritable userDst alloc space dst target) :
    let pass := consolereadPass userDst alloc killed dst target remaining cons space
    (∀ attempt ∈ pass.attempts, attempt.copied = true) ∧
      (∀ left, pass.outcome = .sleeping left → left ≤ target ∧
          BufferWritable userDst alloc pass.space dst target) := by
  induction remaining generalizing cons space with
  | zero => simp [consolereadPass]
  | succ remaining induction =>
    have copies (byte : UInt8) : (eitherCopyoutByte userDst alloc space
          (dst + (target - (remaining + 1))) byte).1 ≠ -1 := by
      rw [Ne, eitherCopyoutByte_eq_neg_one_iff]
      rintro ⟨user, unwritable⟩
      exact unwritable (writable user _ (by omega))
    simp only [consolereadPass]
    split
    · refine ⟨by simp, fun left sleeps => ?_⟩
      split at sleeps
      · simp at sleeps
      · simp only [ConsoleOutcome.sleeping.injEq] at sleeps
        exact ⟨by omega, writable⟩
    · split
      · simp
      · rw [if_neg (copies _)]
        split
        · simp
        · obtain ⟨copied, sleeps⟩ := induction (by omega) { cons with r := cons.r + 1 }
            (fun user offset below =>
              (pageWritable_eitherCopyoutByte (copies _) _).mpr (writable user offset below))
          refine ⟨?_, sleeps⟩
          intro attempt member
          rcases List.mem_cons.mp member with first | later
          · rw [first]
          · exact copied attempt later

/-- So does a whole call, whatever happens to the console between its
passes. -/
theorem consolereadPasses_copied (turns : List ConsoleTurn) (within : remaining ≤ target)
    (writable : BufferWritable userDst alloc space dst target) :
    ∀ pass ∈ consolereadPasses userDst alloc dst target remaining space turns,
      ∀ attempt ∈ pass.attempts, attempt.copied = true := by
  induction turns generalizing remaining space with
  | nil => simp [consolereadPasses]
  | cons turn turns induction =>
    obtain ⟨copied, sleeps⟩ := consolereadPass_copied turn.killed within turn.cons writable
    simp only [consolereadPasses]
    split
    · simpa using copied
    · rename_i left outcome
      obtain ⟨leftWithin, leftWritable⟩ := sleeps left outcome
      intro pass member
      rcases List.mem_cons.mp member with first | later
      · rw [first]
        exact copied
      · exact induction leftWithin leftWritable pass later

/-- A line of input of which only its first character has arrived. -/
def oneByteTurn : ConsoleTurn :=
  { cons :=
      { buf := Vector.replicate INPUT_BUF_SIZE 97, r := 0, w := 1, e := 1 }
    killed := false }

/-- Fed one byte at a time, a reader takes its whole request unless a copy
fails. -/
theorem consolereadPass_oneByte (userDst : Bool) (alloc : Nat → Bool) (dst target remaining : Nat)
    (space : UserSpace) :
    let copy := eitherCopyoutByte userDst alloc space (dst + (target - (remaining + 1))) 97
    let pass := consolereadPass userDst alloc false dst target (remaining + 1)
      oneByteTurn.cons space
    (copy.1 = -1 → pass.attempts = [{ cursor := 0, copied := false }] ∧ pass.cons.r = 1) ∧
    (copy.1 ≠ -1 → 0 < remaining → pass.outcome = .sleeping remaining ∧ pass.space = copy.2) := by
  have byte : oneByteTurn.cons.byte 0 = 97 := by decide
  have cursors : oneByteTurn.cons.r = 0 ∧ oneByteTurn.cons.w = 1 := ⟨rfl, rfl⟩
  have ordinary : (97 : UInt8) ≠ controlD ∧ (97 : UInt8) ≠ newline := by decide
  constructor
  · intro failed
    simp [consolereadPass, cursors, byte, ordinary, failed]
  · intro copied more
    obtain ⟨fewer, rfl⟩ := Nat.exists_eq_succ_of_ne_zero (by omega : remaining ≠ 0)
    simp [consolereadPass, cursors, byte, ordinary, copied]

/-- Into a buffer with an unwritable byte, some input loses a byte. -/
theorem exists_turns_losing (within : remaining ≤ target)
    (below : offset < remaining) (user : userDst = true)
    (unwritable : ¬space.PageWritable alloc ((dst + (target - remaining) + offset) / PGSIZE)) :
    ∃ turns, ∃ pass ∈ consolereadPasses userDst alloc dst target remaining space turns,
      ¬KeepsUndelivered pass.attempts pass.cons.r := by
  induction remaining generalizing space offset with
  | zero => omega
  | succ remaining induction =>
    obtain ⟨fails, succeeds⟩ := consolereadPass_oneByte userDst alloc dst target remaining space
    by_cases failed : (eitherCopyoutByte userDst alloc space
        (dst + (target - (remaining + 1))) 97).1 = -1
    · obtain ⟨attempts, cursor⟩ := fails failed
      refine ⟨[oneByteTurn], consolereadPass userDst alloc false dst target
        (remaining + 1) oneByteTurn.cons space, ?_, ?_⟩
      · simp only [consolereadPasses]
        split
        · exact List.mem_singleton_self _
        · exact List.mem_cons_self
      · rw [attempts, cursor]
        simp [KeepsUndelivered]
    · have nonzero : offset ≠ 0 := by
        rintro rfl
        exact failed ((eitherCopyoutByte_eq_neg_one_iff _ _ _ _ _).mpr
          ⟨user, by simpa using unwritable⟩)
      obtain ⟨sleeps, copied⟩ := succeeds failed (by omega)
      have still : ¬(eitherCopyoutByte userDst alloc space
          (dst + (target - (remaining + 1))) 97).2.PageWritable alloc
            ((dst + (target - remaining) + (offset - 1)) / PGSIZE) := by
        rw [pageWritable_eitherCopyoutByte failed, show dst + (target - remaining) + (offset - 1) =
            dst + (target - (remaining + 1)) + offset by omega]
        exact unwritable
      obtain ⟨turns, pass, member, loses⟩ := induction (by omega) (by omega) still
      refine ⟨oneByteTurn :: turns, pass, ?_, loses⟩
      simp only [consolereadPasses]
      rw [show oneByteTurn.killed = false from rfl, sleeps, copied]
      exact List.mem_cons_of_mem _ member

/-- A call of `consoleread` keeps every byte it fails to deliver, whatever
happens at the console, exactly if its buffer can be stored into. -/
theorem consoleread_keepsUndelivered_iff (userDst : Bool) (alloc : Nat → Bool) (dst : Nat) (n : Int)
    (space : UserSpace) :
    (∀ turns, ∀ pass ∈ consoleread userDst alloc dst n space turns,
        KeepsUndelivered pass.attempts pass.cons.r) ↔
      BufferWritable userDst alloc space dst n.toNat := by
  constructor
  · intro keeps user offset below
    by_contra unwritable
    obtain ⟨turns, pass, member, loses⟩ := exists_turns_losing
      le_rfl below user (by simpa using unwritable)
    exact loses (keeps turns pass member)
  · intro writable turns pass member attempt tried failed
    have copied := consolereadPasses_copied turns le_rfl writable pass member attempt tried
    simp [copied] at failed

end

end Xv6KernelEvent

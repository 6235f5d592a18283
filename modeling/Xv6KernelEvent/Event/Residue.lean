import Xv6KernelEvent.Event.QueueRefinement

/-!
# Bytes that outlive their event

A consumer receives all `MAXEVENTNAME` bytes of a name, but `kqueue_post`
writes only the string, its NUL and one byte more.  The remaining bytes are
those of the previous record of the slot.  A record is determined by its event
exactly when these bytes were zero, which is how the slots start out.
-/

namespace Xv6KernelEvent

open CString CircularBuffer

/-- Nothing but zeros stands behind the name. -/
def Event.Padded (event : Event) : Prop :=
  ∀ offset, strnlen (byteAt event.name) MAXEVENTNAME ≤ offset → byteAt event.name offset = 0

/-- The bytes of a slot that a post of `eventName` does not write are zero. -/
def Event.CleanFor (old : Event) (eventName : Nat → UInt8) : Prop :=
  ∀ offset, strnlen eventName (MAXEVENTNAME - 1) + 1 < offset → byteAt old.name offset = 0

theorem Event.zero_cleanFor (eventName : Nat → UInt8) : Event.zero.CleanFor eventName := by
  intro offset _above
  by_cases below : offset < MAXEVENTNAME
  · simp [byteAt_of_lt _ below, Event.zero]
  · simp [byteAt, below]

theorem Event.strnlen_overwrite
    (old : Event) (eventName : Nat → UInt8) (pid : Int32) (time : UInt64) :
    strnlen (byteAt (old.overwrite eventName pid time).name) MAXEVENTNAME =
      strnlen eventName (MAXEVENTNAME - 1) := by
  have names := congrArg EventView.name (Event.view_overwrite old eventName pid time)
  simpa [Event.view] using congrArg List.length names

/-- A post leaves a padded record exactly when its slot was clean for it. -/
theorem Event.overwrite_padded_iff
    (old : Event) (eventName : Nat → UInt8) (pid : Int32) (time : UInt64) :
    (old.overwrite eventName pid time).Padded ↔ old.CleanFor eventName := by
  have lengthBelow := strnlen_le eventName (MAXEVENTNAME - 1)
  have bytes : ∀ offset, byteAt (old.overwrite eventName pid time).name offset =
        safestrcpyByte (byteAt old.name) eventName
          (strnlen eventName (MAXEVENTNAME - 1)) MAXEVENTNAME offset :=
    fun offset => byteAt_safestrcpy old.name eventName MAXEVENTNAME_pos le_rfl offset
  unfold Event.Padded
  rw [Event.strnlen_overwrite]
  constructor
  · intro padded offset above
    have zero := padded offset (by omega)
    rw [bytes offset] at zero
    have notInside : ¬offset < strnlen eventName (MAXEVENTNAME - 1) := by omega
    have notEnd : offset ≠ strnlen eventName (MAXEVENTNAME - 1) := by omega
    have notNext : offset ≠ strnlen eventName (MAXEVENTNAME - 1) + 1 := by omega
    simpa [safestrcpyByte, notInside, notEnd, notNext] using zero
  · intro clean offset above
    rw [bytes offset]
    unfold safestrcpyByte
    split
    · omega
    · split
      · rfl
      · split
        · rfl
        · rename_i notEnd notNext
          by_cases next : offset = strnlen eventName (MAXEVENTNAME - 1) + 1
          · have outside : ¬offset < MAXEVENTNAME := by omega
            simp [byteAt, outside]
          · exact clean offset (by omega)

/-- Padded records with the same view are the same record. -/
theorem Event.eq_of_view_eq {left right : Event} (leftPadded : left.Padded)
    (rightPadded : right.Padded) (views : left.view = right.view) : left = right := by
  have pids : left.pid = right.pid := congrArg EventView.pid views
  have times : left.timestamp = right.timestamp := congrArg EventView.timestamp views
  have names : text (byteAt left.name) MAXEVENTNAME =
      text (byteAt right.name) MAXEVENTNAME := congrArg EventView.name views
  have lengths : strnlen (byteAt left.name) MAXEVENTNAME =
      strnlen (byteAt right.name) MAXEVENTNAME := by
    simpa using congrArg List.length names
  have bytes : left.name = right.name := by
    apply ext_byteAt
    intro offset _below
    by_cases inside : offset < strnlen (byteAt left.name) MAXEVENTNAME
    · exact byte_eq_of_text_eq names inside
    · rw [leftPadded offset (by omega), rightPadded offset (by omega)]
  cases left
  cases right
  simp_all

/-- The condition on one call in the state before it: a post finds the slot
under the write cursor clean for its name. -/
def Call.FindsCleanSlot (kq : Kqueue) : Call → Prop
  | .post eventName _ _ => kq.events[position NEVENT kq.tail.toNat].CleanFor eventName
  | .wait => True

/-- Every call of a run meets the condition in the state it is executed in. -/
def FindsCleanSlots (calls : List Call) : Prop :=
  ∀ before call after session, calls = before ++ call :: after →
    Session.run before = some session → call.FindsCleanSlot session.kq

/-- All records that can still reach a consumer, or already have, are
padded. -/
structure Session.NoResidue (session : Session) : Prop where
  pending : ∀ event ∈ session.kq.pending, event.Padded
  delivered : ∀ event ∈ session.delivered, event.Padded

theorem Session.NoResidue.call {session next : Session} {call : Call} (valid : session.kq.Valid)
    (noResidue : session.NoResidue) (clean : call.FindsCleanSlot session.kq)
    (steps : session.call call = some next) : next.NoResidue := by
  cases call with
  | post eventName pid time =>
    obtain ⟨kq, posts, _valid, _events, pending⟩ := kqueuePost_spec valid eventName pid time
    have result : next = { session with kq := kq } := by
      simpa [Session.call, posts, eq_comm] using steps
    subst result
    refine ⟨?_, noResidue.delivered⟩
    intro event member
    simp only [pending, List.mem_append, List.mem_singleton] at member
    rcases member with kept | written
    · apply noResidue.pending event
      split at kept
      · exact kept
      · exact List.mem_of_mem_tail kept
    · subst event
      exact (Event.overwrite_padded_iff _ _ _ _).mpr clean
  | wait =>
    by_cases empty : session.kq.count = 0
    · have result : next = session := by simpa [Session.call, empty, eq_comm] using steps
      exact result ▸ noResidue
    · obtain ⟨event, kq, takes, _valid, _events, pending⟩ := kqueueTake_spec valid empty
      have result : next = { kq := kq, delivered := session.delivered ++ [event] } := by
        simpa [Session.call, empty, takes, eq_comm] using steps
      subst result
      have oldPadded := noResidue.pending
      simp only [pending, List.mem_cons, forall_eq_or_imp] at oldPadded
      refine ⟨oldPadded.2, ?_⟩
      intro handed member
      simp only [List.mem_append, List.mem_singleton] at member
      rcases member with earlier | last
      · exact noResidue.delivered handed earlier
      · exact last ▸ oldPadded.1

theorem Session.run_noResidue {calls : List Call} (clean : FindsCleanSlots calls)
    {session : Session} (runs : Session.run calls = some session) : session.NoResidue := by
  induction calls using List.reverseRecOn generalizing session with
  | nil =>
    have started : session = Session.start := by simpa [Session.run, eq_comm] using runs
    subst started
    exact ⟨by simp [Session.start], by simp [Session.start]⟩
  | append_singleton calls call induction =>
    obtain ⟨before, beforeRuns, represents⟩ := Session.run_represents calls
    have cleanBefore : FindsCleanSlots calls := by
      intro earlier other later state split stateRuns
      exact clean earlier other (later ++ [call]) state (by simp [split]) stateRuns
    have step : before.call call = some session := by
      simpa [Session.run_concat, beforeRuns] using runs
    exact (induction cleanBefore beforeRuns).call represents.valid
      (clean calls call [] before rfl beforeRuns) step

/-- In runs whose posts all find clean slots, the copied-out record is a
function of the posted event: two such runs that deliver the same event, after
whatever earlier posts and waits, deliver the same bytes. -/
theorem delivered_records_agree_of_cleanSlots
    {leftCalls rightCalls : List Call} {left right : Session}
    (leftClean : FindsCleanSlots leftCalls) (rightClean : FindsCleanSlots rightCalls)
    (leftRuns : Session.run leftCalls = some left)
    (rightRuns : Session.run rightCalls = some right) :
    ∀ leftEvent ∈ left.delivered, ∀ rightEvent ∈ right.delivered,
      leftEvent.view = rightEvent.view → leftEvent.name = rightEvent.name := by
  intro leftEvent leftMember rightEvent rightMember views
  have leftPadded := (Session.run_noResidue leftClean leftRuns).delivered leftEvent leftMember
  have rightPadded := (Session.run_noResidue rightClean rightRuns).delivered rightEvent rightMember
  rw [Event.eq_of_view_eq leftPadded rightPadded views]

/-- Memory that holds a string literal. -/
def literal (string : List UInt8) (offset : Nat) : UInt8 := string[offset]?.getD 0

/-- A first post always finds the zeroed slot of the data segment. -/
theorem findsCleanSlots_of_single_post
    (eventName : Nat → UInt8) (pid : Int32) (time : UInt64) (waits : Nat) :
    FindsCleanSlots (.post eventName pid time :: List.replicate waits .wait) := by
  intro before call after session split runs
  cases before with
  | nil =>
    have started : session = Session.start := by simpa [Session.run, eq_comm] using runs
    simp only [List.nil_append, List.cons.injEq] at split
    rw [← split.1, started]
    have slot : kqueueinit.events[position NEVENT kqueueinit.tail.toNat] =
        Event.zero := by
      simp [kqueueinit]
    show Event.CleanFor kqueueinit.events[position NEVENT kqueueinit.tail.toNat] eventName
    rw [slot]
    exact Event.zero_cleanFor eventName
  | cons first before =>
    simp only [List.cons_append, List.cons.injEq] at split
    have member : call ∈ List.replicate waits Call.wait := by
      rw [split.2]
      simp
    rw [List.eq_of_mem_replicate member]
    trivial

/-- The condition is met by a run that posts and delivers `fork`; the theorem
applies to it and to the same run with a second, sleeping waiter. -/
theorem delivered_records_agree_of_cleanSlots_fork : ∃ left right : Session,
      Session.run (.post (literal [102, 111, 114, 107]) 3 7 :: List.replicate 1 .wait) = some left ∧
      Session.run (.post (literal [102, 111, 114, 107]) 3 7 ::
        List.replicate 2 .wait) = some right ∧
      left.delivered.length = 1 ∧ right.delivered.length = 1 ∧
      ∀ leftEvent ∈ left.delivered, ∀ rightEvent ∈ right.delivered,
        leftEvent.view = rightEvent.view → leftEvent.name = rightEvent.name := by
  obtain ⟨left, leftRuns, _⟩ := Session.run_represents
    (.post (literal [102, 111, 114, 107]) 3 7 :: List.replicate 1 .wait)
  obtain ⟨right, rightRuns, _⟩ := Session.run_represents
    (.post (literal [102, 111, 114, 107]) 3 7 :: List.replicate 2 .wait)
  have leftLength : (Session.run (.post (literal [102, 111, 114, 107]) 3 7 ::
      List.replicate 1 .wait)).map (fun session => session.delivered.length) =
      some 1 := by decide +kernel
  have rightLength : (Session.run (.post (literal [102, 111, 114, 107]) 3 7 ::
      List.replicate 2 .wait)).map (fun session => session.delivered.length) =
      some 1 := by decide +kernel
  refine ⟨left, right, leftRuns, rightRuns, ?_, ?_, delivered_records_agree_of_cleanSlots
      (findsCleanSlots_of_single_post _ _ _ _)
      (findsCleanSlots_of_single_post _ _ _ _) leftRuns rightRuns⟩
  · rw [leftRuns] at leftLength
    exact Option.some.inj leftLength
  · rw [rightRuns] at rightLength
    exact Option.some.inj rightLength

/-- `password` is posted into every slot, then `fork`; the queue is drained. -/
def reusedSlotCalls : List Call :=
  List.replicate NEVENT (.post (literal [112, 97, 115, 115, 119, 111, 114, 100]) 2 5) ++
    .post (literal [102, 111, 114, 107]) 3 7 :: List.replicate NEVENT .wait

/-- The same `fork` event in a fresh queue. -/
def freshSlotCalls : List Call := [.post (literal [102, 111, 114, 107]) 3 7, .wait]

/-- The last records of the two runs show the same event in different
bytes. -/
def lastRecordsDiffer (left right : List Call) : Bool :=
  match Session.run left, Session.run right with
  | some left, some right =>
    match left.delivered.getLast?, right.delivered.getLast? with
    | some leftEvent, some rightEvent =>
      leftEvent.view = rightEvent.view ∧ leftEvent.name ≠ rightEvent.name
    | _, _ => false
  | _, _ => false

/-- Bytes of an earlier event reach a consumer through slot reuse. -/
theorem delivered_record_shows_residue : ∃ left right : Session,
      Session.run reusedSlotCalls = some left ∧
      Session.run freshSlotCalls = some right ∧
      ∃ leftEvent ∈ left.delivered, ∃ rightEvent ∈ right.delivered,
        leftEvent.view = rightEvent.view ∧ leftEvent.name ≠ rightEvent.name := by
  have differ : lastRecordsDiffer reusedSlotCalls freshSlotCalls = true := by decide +kernel
  obtain ⟨left, leftRuns, _⟩ := Session.run_represents reusedSlotCalls
  obtain ⟨right, rightRuns, _⟩ := Session.run_represents freshSlotCalls
  simp only [lastRecordsDiffer, leftRuns, rightRuns] at differ
  split at differ
  · rename_i leftEvent rightEvent leftLast rightLast
    exact ⟨left, right, leftRuns, rightRuns, leftEvent, List.mem_of_getLast? leftLast,
      rightEvent, List.mem_of_getLast? rightLast, by simpa using differ⟩
  · simp at differ

end Xv6KernelEvent

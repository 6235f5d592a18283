import Xv6KernelEvent.Event.Queue
import Xv6KernelEvent.Library.BoundedFifo

/-!
# The event queue as a bounded drop-oldest queue

A run of the queue is the sequence of critical sections executed under
`kq.lock`, in the order in which the lock was taken and whichever processes
took it.  `History` of the library is the abstract queue; `Represents` relates
it to the ring, one lemma shows that a call keeps the relation, and the
refinement theorem follows by induction over the run.
-/

namespace Xv6KernelEvent

open CString BoundedFifo

/-- One critical section under `kq.lock`: a complete post, or one pass of
`kqueue_wait_internal` over its loop condition. -/
inductive Call where
  | post (eventName : Nat → UInt8) (pid : Int32) (time : UInt64)
  | wait

/-- The queue together with the records handed out so far. -/
structure Session where
  kq : Kqueue
  delivered : List Event

def Session.start : Session := { kq := kqueueinit, delivered := [] }

/-- A waiter that finds the queue empty goes back to sleep and has completed
nothing. -/
def Session.call (session : Session) : Call → Option Session
  | .post eventName pid time => do
    let kq ← kqueuePost eventName pid time session.kq
    some { session with kq := kq }
  | .wait =>
    if session.kq.count = 0 then some session
    else do
      let (event, kq) ← kqueueTake session.kq
      some { kq := kq, delivered := session.delivered ++ [event] }

def Session.run (calls : List Call) : Option Session := calls.foldlM Session.call Session.start

/-- What a post asks to record. -/
def Call.posted : Call → Option EventView
  | .post eventName pid time => some
      { pid := pid
        name := text eventName (MAXEVENTNAME - 1)
        timestamp := time }
  | .wait => none

/-- The posted events of a run, in posting order. -/
def posted (calls : List Call) : List EventView := calls.filterMap Call.posted

def Call.toOp (call : Call) : Op EventView :=
  match call.posted with
  | some event => .push event
  | none => .pop

theorem Session.run_concat (calls : List Call) (call : Call) : Session.run (calls ++ [call]) =
      (Session.run calls).bind fun session => session.call call := by
  simp [Session.run, List.foldlM_append]

/-- The abstract run of a list of calls. -/
def history (calls : List Call) : History EventView := History.run NEVENT (calls.map Call.toOp)

theorem history_concat (calls : List Call) (call : Call) :
    history (calls ++ [call]) = (history calls).apply NEVENT call.toOp := by
  simp [history, History.run_concat]

theorem history_pushed (calls : List Call) : (history calls).pushed = posted calls := by
  induction calls using List.reverseRecOn with
  | nil => rfl
  | append_singleton calls call induction =>
    rw [history_concat]
    cases call with
    | post eventName pid time => simp [History.apply, Call.toOp, Call.posted, posted, induction]
    | wait =>
      simp only [History.apply, Call.toOp, Call.posted]
      split <;> simp [posted, Call.posted, induction]

/-- The ring holds the pending items and has handed out the output. -/
structure Session.Represents (session : Session) (history : History EventView) : Prop where
  valid : session.kq.Valid
  contents : session.kq.contents = history.pending
  output : session.delivered.map Event.view = history.output

theorem Session.represents_start : Session.start.Represents History.empty := by
  refine ⟨kqueueinit_valid, ?_, ?_⟩
  · simp [Session.start, Kqueue.contents, History.pending, History.empty]
  · simp [Session.start, History.output, History.empty]

theorem Session.Represents.post {session : Session} {history : History EventView}
    (represents : session.Represents history) (consistent : history.Consistent NEVENT)
    (eventName : Nat → UInt8) (pid : Int32) (time : UInt64) :
    ∃ next, session.call (.post eventName pid time) = some next ∧ next.Represents
        (history.apply NEVENT (Call.post eventName pid time).toOp) := by
  obtain ⟨kq, posts, valid, _events, pending⟩ := kqueuePost_spec represents.valid eventName pid time
  have lengths : session.kq.pending.length = history.pending.length := by
    have contents := congrArg List.length represents.contents
    simpa [Kqueue.contents] using contents
  have contents := represents.contents
  simp only [Kqueue.contents] at contents
  refine ⟨{ session with kq := kq }, by simp [Session.call, posts], valid, ?_, ?_⟩
  · simp only [Call.toOp, Call.posted, Kqueue.contents, pending,
      consistent.pending_push NEVENT_pos, List.map_append, List.map_cons,
      List.map_nil, Event.view_overwrite, lengths]
    split
    · rw [contents]
    · rw [List.map_tail, contents]
  · simp only [Call.toOp, Call.posted, consistent.output_push]
    exact represents.output

theorem Session.Represents.wait {session : Session} {history : History EventView}
    (represents : session.Represents history) :
    ∃ next, session.call .wait = some next ∧
      next.Represents (history.apply NEVENT Call.wait.toOp) := by
  have contents := represents.contents
  simp only [Call.toOp, Call.posted]
  by_cases empty : session.kq.count = 0
  · have noPending : session.kq.pending = [] := by
      rw [← List.length_eq_zero_iff, Kqueue.length_pending, empty]
      rfl
    simp only [Kqueue.contents, noPending, List.map_nil] at contents
    refine ⟨session, by simp [Session.call, empty], ?_⟩
    rw [History.apply_pop_of_empty contents.symm]
    exact represents
  · obtain ⟨event, kq, takes, valid, _events, pending⟩ := kqueueTake_spec represents.valid empty
    simp only [Kqueue.contents, pending, List.map_cons] at contents
    obtain ⟨rest, output⟩ := History.apply_pop_of_pending NEVENT contents.symm
    refine ⟨{ kq := kq, delivered := session.delivered ++ [event] },
      by simp [Session.call, empty, takes], valid, rest.symm, ?_⟩
    rw [output, ← represents.output, List.map_append]
    rfl

/-- Every run is defined and represents its abstract run. -/
theorem Session.run_represents (calls : List Call) :
    ∃ session, Session.run calls = some session ∧ session.Represents (history calls) := by
  induction calls using List.reverseRecOn with
  | nil => exact ⟨Session.start, rfl, Session.represents_start⟩
  | append_singleton calls call induction =>
    obtain ⟨session, runs, represents⟩ := induction
    have consistent : (history calls).Consistent NEVENT := History.run_consistent NEVENT_pos _
    have step : ∃ next, session.call call = some next ∧
        next.Represents ((history calls).apply NEVENT call.toOp) := by
      cases call with
      | post eventName pid time => exact represents.post consistent eventName pid time
      | wait => exact represents.wait
    obtain ⟨next, calls', nextRepresents⟩ := step
    refine ⟨next, ?_, ?_⟩
    · simp [Session.run_concat, runs, calls']
    · rw [history_concat]
      exact nextRepresents

theorem history_oldest_add_count {calls : List Call} {session : Session}
    (represents : session.Represents (history calls)) :
    (history calls).oldest + session.kq.count.toNat = (posted calls).length := by
  have consistent : (history calls).Consistent NEVENT := History.run_consistent NEVENT_pos _
  have lengths := congrArg List.length represents.contents
  simp only [Kqueue.contents, List.length_map, Kqueue.length_pending,
    History.length_pending] at lengths
  have oldestLe := consistent.oldest_le
  rw [history_pushed] at lengths oldestLe
  omega

/-- Splitting the abstract operations of a run splits its calls. -/
private theorem calls_of_push (split : calls.map Call.toOp = earlier ++ .push event :: later) :
    ∃ before eventName pid time after, calls = before ++ .post eventName pid time :: after ∧
        before.map Call.toOp = earlier := by
  obtain ⟨before, rest, rfl, beforeEq, restEq⟩ := List.map_eq_append_iff.mp split
  obtain ⟨call, after, rfl, callEq, _afterEq⟩ := List.map_eq_cons_iff.mp restEq
  cases call with
  | post eventName pid time => exact ⟨before, eventName, pid, time, after, rfl, beforeEq⟩
  | wait => simp [Call.toOp, Call.posted] at callEq

/-- The event queue refines a bounded drop-oldest queue: it holds what the
abstract queue holds and has handed out what that has handed out.  The cursors
stay in range, the live slots hold the newest posted events in posting order,
what is handed out is a subsequence of what was posted, and a posted event is
missing only if a later post found it as the oldest of `NEVENT` pending
events. -/
theorem kqueue_refines_dropOldestFifo (calls : List Call) :
    ∃ session, Session.run calls = some session ∧
      (session.kq.contents = (history calls).pending ∧
        session.delivered.map Event.view = (history calls).output) ∧
      (0 ≤ session.kq.head ∧ session.kq.head < NEVENT ∧
        0 ≤ session.kq.tail ∧ session.kq.tail < NEVENT ∧
        0 ≤ session.kq.count ∧ session.kq.count ≤ NEVENT ∧
        session.kq.tail = (session.kq.head + session.kq.count) % NEVENT) ∧
      session.kq.contents = (posted calls).drop ((posted calls).length - session.kq.count.toNat) ∧
      (session.delivered.map Event.view).Sublist (posted calls) ∧
      ∃ positions : List Nat, positions.Pairwise (· < ·) ∧ session.delivered.map Event.view =
          positions.filterMap (fun position => (posted calls)[position]?) ∧
        (∀ position ∈ positions, position < (posted calls).length - session.kq.count.toNat) ∧
        ∀ position, position < (posted calls).length - session.kq.count.toNat →
          position ∉ positions →
          ∃ before eventName pid time after full,
            calls = before ++ .post eventName pid time :: after ∧
            Session.run before = some full ∧ full.kq.count = NEVENT ∧
            (posted before).length = position + NEVENT := by
  obtain ⟨session, runs, represents⟩ := Session.run_represents calls
  have consistent : (history calls).Consistent NEVENT := History.run_consistent NEVENT_pos _
  have oldest := history_oldest_add_count represents
  have oldestEq : (posted calls).length - session.kq.count.toNat =
      (history calls).oldest := by omega
  have valid := represents.valid
  refine ⟨session, runs, ⟨represents.contents, represents.output⟩,
    ⟨valid.head_nonneg, valid.head_lt, valid.tail_nonneg, valid.tail_lt,
      valid.count_nonneg, valid.count_le, valid.tail_eq⟩, ?_, ?_,
    (history calls).delivered, consistent.increasing, ?_, ?_, ?_⟩
  · rw [represents.contents, oldestEq, History.pending, history_pushed]
  · rw [represents.output, ← history_pushed]
    exact consistent.output_sublist
  · rw [represents.output, History.output, history_pushed]
  · rw [oldestEq]
    exact consistent.delivered_lt
  · intro position below absent
    rw [oldestEq] at below
    obtain ⟨earlier, event, later, split, oldestAt, full⟩ :=
      History.dropped_only_when_full NEVENT_pos (calls.map Call.toOp) position below absent
    obtain ⟨before, eventName, pid, time, after, rfl, rfl⟩ := calls_of_push split
    obtain ⟨fullSession, fullRuns, fullRepresents⟩ := Session.run_represents before
    have count := history_oldest_add_count fullRepresents
    have lengths := congrArg List.length fullRepresents.contents
    have countNonneg := fullRepresents.valid.count_nonneg
    simp only [Kqueue.contents, List.length_map, Kqueue.length_pending]
      at lengths
    change (history before).oldest = position at oldestAt
    change (history before).pending.length = NEVENT at full
    exact ⟨before, eventName, pid, time, after, fullSession, rfl, fullRuns, by omega, by omega⟩

end Xv6KernelEvent

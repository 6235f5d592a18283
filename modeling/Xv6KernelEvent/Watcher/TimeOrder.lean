import Xv6KernelEvent.Library.Runs
import Xv6KernelEvent.Watcher.Contextual

/-!
# The queue and the watcher agree on time

Posters and the watcher, its only consumer, take turns with `kq.lock`.
`kqueue_post` reads the clock while it holds the lock, so that the records in
the queue, and the events that the watcher has received, are in the order of
time.  The watcher subtracts only earlier times from later ones.
-/

namespace Xv6KernelEvent.Watcher

open Runs

/-- The queue, the watcher in its contextual mode, the time of the last post and
the events that the watcher has received. -/
structure Observed where
  kq : Kqueue
  watcher : State
  now : UInt64
  received : List Event

/-- The critical sections. -/
inductive Turn where
  | post (eventName : Nat → UInt8) (pid : Int32) (time : UInt64)
  | wait

/-- The clock does not go back, and the watcher sleeps on an empty queue. -/
def next (settings : Settings) (state : Observed) : Turn → Option Observed
  | .post eventName pid time =>
    if state.now ≤ time then
      (kqueuePost eventName pid time state.kq).map fun kq => { state with kq := kq, now := time }
    else none
  | .wait =>
    if state.kq.count = 0 then none
    else
      (kqueueTake state.kq).map fun (ev, kq) =>
        { state with
          kq := kq
          watcher := (receive settings state.watcher ev).1
          received := state.received ++ [ev] }

def boot : Observed where
  kq := kqueueinit
  watcher := start
  now := 0
  received := []

/-- What has been received and what is in the queue is in order. -/
structure Observed.Ordered (settings : Settings) (state : Observed) : Prop where
  valid : state.kq.Valid
  sorted : (state.received ++ state.kq.pending).Pairwise fun earlier later =>
    earlier.timestamp ≤ later.timestamp
  past : ∀ ev ∈ state.received ++ state.kq.pending, ev.timestamp ≤ state.now
  watched : state.watcher.After (foreign settings state.received)

theorem boot_ordered (settings : Settings) : boot.Ordered settings where
  valid := kqueueinit_valid
  sorted := by rw [boot, kqueueinit_pending]; exact .nil
  past := by rw [boot, kqueueinit_pending]; exact fun _ member => nomatch member
  watched := start_after

namespace Observed.Ordered

variable {settings : Settings} {state after : Observed}

section

variable (ordered : state.Ordered settings)

include ordered

theorem post (taken : next settings state (.post eventName pid time) =
      some after) : after.Ordered settings := by
  rw [next] at taken
  split at taken
  next later =>
    obtain ⟨kq, posts, valid, -, pending⟩ := kqueuePost_spec ordered.valid eventName pid time
    rw [posts] at taken
    cases taken
    have kept : (if state.kq.pending.length < NEVENT then state.kq.pending
        else state.kq.pending.tail).Sublist state.kq.pending := by
      split
      next => exact .refl _
      next => exact List.tail_sublist _
    have older : ∀ ev ∈ state.received ++ (if state.kq.pending.length < NEVENT then state.kq.pending
          else state.kq.pending.tail), ev.timestamp ≤ time := by
      intro ev member
      exact UInt64.le_trans (ordered.past ev
        ((List.Sublist.append_left kept _).subset member)) later
    refine ⟨valid, ?_, ?_, ordered.watched⟩
    · show (state.received ++ kq.pending).Pairwise _
      rw [pending, ← List.append_assoc, List.pairwise_append]
      refine ⟨ordered.sorted.sublist (List.Sublist.append_left kept _),
        List.pairwise_singleton _ _, ?_⟩
      intro earlier member new new_eq
      rw [List.mem_singleton.mp new_eq]
      exact older earlier member
    · intro ev member
      rw [pending, ← List.append_assoc, List.mem_append] at member
      rcases member with member | member
      · exact older ev member
      · rw [List.mem_singleton.mp member]
        exact UInt64.le_refl _
  next => cases taken

/-- The watcher has dealt with one more event. -/
theorem received (ev : Event) :
    (receive settings state.watcher ev).1.After (foreign settings (state.received ++ [ev])) := by
  rw [foreign, List.filter_append]
  by_cases own : ev.pid = settings.watcher_pid
  · rw [receive, if_pos own, List.filter_cons_of_neg (by simpa using own),
      List.filter_nil, List.append_nil]
    exact ordered.watched
  · rw [List.filter_cons_of_pos (by simpa using own), List.filter_nil]
    exact (receive_foreign ordered.watched own).1

theorem wait (taken : next settings state .wait = some after) : after.Ordered settings := by
  rw [next] at taken
  split at taken
  next => cases taken
  next waiting =>
    obtain ⟨ev, kq, takes, valid, -, pending⟩ := kqueueTake_spec ordered.valid waiting
    rw [takes] at taken
    cases taken
    have moved : state.received ++ [ev] ++ kq.pending = state.received ++ state.kq.pending := by
      rw [pending, List.append_assoc, List.singleton_append]
    refine ⟨valid, ?_, ?_, ordered.received ev⟩
    · show (state.received ++ [ev] ++ kq.pending).Pairwise _
      rw [moved]
      exact ordered.sorted
    · show ∀ other ∈ state.received ++ [ev] ++ kq.pending, _
      rw [moved]
      exact ordered.past

theorem next (taken : Watcher.next settings state turn = some after) : after.Ordered settings := by
  cases turn with
  | post eventName pid time => exact ordered.post taken
  | wait => exact ordered.wait taken

theorem foreign_sorted :
    (foreign settings state.received).Pairwise fun earlier later =>
      earlier.timestamp ≤ later.timestamp :=
  (List.pairwise_append.mp ordered.sorted).1.filter _

/-- The entries of the buffer are in order. -/
theorem buffer_le (le : i ≤ j) (below : j < state.watcher.event_count) :
    (state.watcher.event_buffer i).delta_ms ≤ (state.watcher.event_buffer j).delta_ms := by
  rw [ordered.watched.count] at below
  have j_lt : j < (stampFrom [] (foreign settings state.received)).length := by
    rw [length_stampFrom]
    omega
  rcases Nat.eq_or_lt_of_le le with rfl | less
  · exact UInt64.le_refl _
  · rw [ordered.watched.entries i (by omega) (by omega), ordered.watched.entries j j_lt (by omega)]
    have sorted : (stampFrom [] (foreign settings state.received)).Pairwise
        fun earlier later => earlier.delta_ms ≤ later.delta_ms :=
      stampFrom_sorted ordered.foreign_sorted
    exact List.pairwise_iff_getElem.mp sorted i j (by omega) j_lt less

/-- The event that the watcher receives next is not before the others. -/
theorem head_latest (pending : state.kq.pending = ev :: rest) :
    ∀ earlier ∈ foreign settings state.received, earlier.timestamp ≤ ev.timestamp := by
  have across := (List.pairwise_append.mp ordered.sorted).2.2
  rw [pending] at across
  intro earlier member
  exact across earlier (List.mem_of_mem_filter member) ev List.mem_cons_self

end

end Observed.Ordered

/-- In every state that any turns of posters and the watcher lead to, the
records in the queue are in the order of time, the deltas in the buffer do not
decrease, and the subtractions that the watcher does for the next event do not
wrap. -/
theorem queue_and_watcher_agree (settings : Settings) (turns : List Turn) (state : Observed)
    (runs : run (next settings) boot turns = some state) :
    (state.kq.pending.Pairwise fun earlier later => earlier.timestamp ≤ later.timestamp) ∧
    (∀ i j, i ≤ j → j < state.watcher.event_count → (state.watcher.event_buffer i).delta_ms ≤
        (state.watcher.event_buffer j).delta_ms) ∧
    ∀ ev kq, state.kq.count ≠ 0 → kqueueTake state.kq = some (ev, kq) →
      ev.pid ≠ settings.watcher_pid → ∀ first,
      first = (if state.watcher.first_timestamp = 0 then ev.timestamp
        else state.watcher.first_timestamp) →
      first ≤ ev.timestamp ∧ ∀ i < state.watcher.event_count,
          (state.watcher.event_buffer i).delta_ms ≤ (ev.timestamp - first) / 1000 := by
  have ordered : state.Ordered settings :=
    run_invariant (fun holds taken => Observed.Ordered.next holds taken) runs
      (boot_ordered settings)
  refine ⟨(List.pairwise_append.mp ordered.sorted).2.1, fun i j => ordered.buffer_le, ?_⟩
  intro ev kq waiting takes other first first_eq
  obtain ⟨head, rest, found, -, -, pending⟩ := kqueueTake_spec ordered.valid waiting
  rw [takes] at found
  cases found
  have latest := ordered.head_latest pending
  have first_base : first = baseline (foreign settings state.received ++ [ev]) := by
    rw [first_eq, ordered.watched.first, baseline_concat]
  rw [first_base]
  refine ⟨baseline_le latest, ?_⟩
  intro i below
  have sorted : (foreign settings state.received ++ [ev]).Pairwise
      fun earlier later => earlier.timestamp ≤ later.timestamp := by
    rw [List.pairwise_append]
    refine ⟨ordered.foreign_sorted, List.pairwise_singleton _ _, ?_⟩
    intro earlier member later later_eq
    rw [List.mem_singleton.mp later_eq]
    exact latest earlier member
  have stamped : (stampFrom [] (foreign settings state.received) ++
      [stamp (foreign settings state.received) ev]).Pairwise
      fun earlier later => earlier.delta_ms ≤ later.delta_ms := by
    rw [← stampFrom_concat]
    exact stampFrom_sorted sorted
  rw [ordered.watched.count] at below
  rw [ordered.watched.entries i (by rw [length_stampFrom]; omega) (by omega)]
  exact (List.pairwise_append.mp stamped).2.2 _ (List.getElem_mem _) _ List.mem_cons_self

/-- Two posts, of which the watcher has received one. -/
def sleepThenFork : List Turn := [.post (fun _ => 115) 5 1000, .wait, .post (fun _ => 102) 5 9000]

theorem queue_and_watcher_agree_sleepThenFork :
    ∃ state, run (next tenSeconds) boot sleepThenFork = some state ∧ state.watcher.event_count = 1 ∧
      state.kq.pending.Pairwise fun earlier later =>
        earlier.timestamp ≤ later.timestamp := by
  have facts : (run (next tenSeconds) boot sleepThenFork).any
      (fun state => decide (state.watcher.event_count = 1)) = true := by
    decide +kernel
  rw [Option.any_eq_true] at facts
  obtain ⟨state, runs, count⟩ := facts
  exact ⟨state, runs, of_decide_eq_true count,
    (queue_and_watcher_agree tenSeconds sleepThenFork state runs).1⟩

end Xv6KernelEvent.Watcher

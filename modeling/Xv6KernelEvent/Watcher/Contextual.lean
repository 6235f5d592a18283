import Xv6KernelEvent.Event.Queue
import Xv6KernelEvent.Watcher.Lines

/-!
# The contextual mode of the watcher

The second loop of `main` in `user/watcher.c`: events are buffered, and a fork
is printed with the recent `sleep` and `write` events before it.  The loop is
compared with what it is for: a report for every fork.  The buffer has room for
`MAX_EVENTS` events and is never emptied; from then on nothing is printed.
-/

namespace Xv6KernelEvent.Watcher

open CString

def MAX_EVENTS : Nat := 1000

/-- An element of `event_buffer`. -/
structure Buffered where
  ev : Event
  delta_ms : UInt64

/-- What `main` has found in its arguments. -/
structure Settings where
  watcher_pid : Int32
  context_window : Int32

structure State where
  first_timestamp : UInt64
  event_count : Nat
  event_buffer : Nat → Buffered

/-- `ev.name[0] == letter`. -/
def Starts (letter : UInt8) (ev : Event) : Prop := byteAt ev.name 0 = letter

instance (letter : UInt8) (ev : Event) : Decidable (Starts letter ev) :=
  inferInstanceAs (Decidable (_ = _))

/-- The line of an entry of the buffer. -/
def Buffered.line (entry : Buffered) : Option (List UInt8) :=
  writeEvent entry.delta_ms entry.ev.pid (text (byteAt entry.ev.name) MAXEVENTNAME)

/-- `fork_time - delta_ms <= context_window`, in `uint64`. -/
def InWindow (window : Int32) (fork_time delta_ms : UInt64) : Prop :=
  fork_time - delta_ms ≤ UInt64.ofInt window.toInt

instance (window : Int32) (fork_time delta_ms : UInt64) :
    Decidable (InWindow window fork_time delta_ms) :=
  inferInstanceAs (Decidable (_ ≤ _))

/-- The lines that are printed, `none` for one whose text is undefined. -/
abbrev Lines : Type := List (Option (List UInt8))

/-- What the loop over earlier entries prints for one of them. -/
def contextLine (window : Int32) (fork_time : UInt64) (entry : Buffered) : Lines :=
  if InWindow window fork_time entry.delta_ms then
    if Starts 115 entry.ev ∨ Starts 119 entry.ev then [entry.line] else []
  else []

/-- The loop over the entries before `idx`, from the one before `i` down. -/
def contextLoop (window : Int32) (fork_time : UInt64) (buffer : Nat → Buffered)
    (idx : Nat) : (i : Nat) → Lines
  | 0 => []
  | i + 1 =>
    if (i : Int) ≥ (idx : Int) - 50 then
      contextLine window fork_time (buffer i) ++ contextLoop window fork_time buffer idx i
    else []

/-- `"  ---\n"`. -/
def separator : List UInt8 := [32, 32, 45, 45, 45, 10]

/-- One round of the loop, after `kqueue_wait` has returned an event. -/
def receive (settings : Settings) (state : State) (ev : Event) : State × Lines :=
  if ev.pid = settings.watcher_pid then (state, [])
  else
    let first_timestamp := if state.first_timestamp = 0 then ev.timestamp else state.first_timestamp
    if state.event_count < MAX_EVENTS then
      let entry : Buffered :=
        { ev := ev
          delta_ms := (ev.timestamp - first_timestamp) / 1000 }
      let idx := state.event_count
      let buffer := Function.update state.event_buffer idx entry
      ({ first_timestamp := first_timestamp
         event_count := idx + 1
         event_buffer := buffer },
        if Starts 102 ev then
          contextLoop settings.context_window entry.delta_ms buffer idx idx ++
            [entry.line, some separator]
        else [])
    else ({ state with first_timestamp := first_timestamp }, [])

def start : State where
  first_timestamp := 0
  event_count := 0
  event_buffer := fun _ => { ev := Event.zero, delta_ms := 0 }

/-- The loop, for the events that `kqueue_wait` returns, and what it prints. -/
def watch (settings : Settings) (state : State) : List Event → State × Lines
  | [] => (state, [])
  | ev :: events =>
    let result := receive settings state ev
    let rest := watch settings result.1 events
    (rest.1, result.2 ++ rest.2)

/-- The events of other processes. -/
def foreign (settings : Settings) (events : List Event) : List Event :=
  events.filter fun ev => ev.pid ≠ settings.watcher_pid

/-- The first timestamp that is not 0. -/
def baseline (events : List Event) : UInt64 := ((events.map Event.timestamp).find? (· ≠ 0)).getD 0

/-- Each event with its delta, after some history. -/
def stampFrom (history : List Event) : List Event → List Buffered
  | [] => []
  | ev :: events =>
    { ev := ev
      delta_ms := (ev.timestamp - baseline (history ++ [ev])) / 1000 } ::
      stampFrom (history ++ [ev]) events

/-- The report for an event: its context, newest first, itself and the
separator if it is a fork. -/
def report (window : Int32) (history : List Buffered) (entry : Buffered) : Lines :=
  if Starts 102 entry.ev then
    (((history.reverse.take 50).filter fun earlier =>
        (Starts 115 earlier.ev ∨ Starts 119 earlier.ev) ∧
          InWindow window entry.delta_ms earlier.delta_ms).map
      Buffered.line) ++ [entry.line, some separator]
  else []

def reportFrom (window : Int32) (history : List Buffered) : List Buffered → Lines
  | [] => []
  | entry :: entries =>
    report window history entry ++ reportFrom window (history ++ [entry]) entries

/-- What the contextual mode is for: a report for every fork. -/
def reports (settings : Settings) (events : List Event) : Lines :=
  reportFrom settings.context_window [] (stampFrom [] (foreign settings events))

theorem stampFrom_append (history first second : List Event) : stampFrom history (first ++ second) =
      stampFrom history first ++ stampFrom (history ++ first) second := by
  induction first generalizing history with
  | nil => rw [List.nil_append, List.append_nil]; rfl
  | cons ev first induction =>
    rw [List.cons_append, stampFrom, stampFrom, induction, List.append_assoc]
    rfl

@[simp] theorem length_stampFrom (history events : List Event) :
    (stampFrom history events).length = events.length := by
  induction events generalizing history with
  | nil => rfl
  | cons ev events induction => rw [stampFrom, List.length_cons, List.length_cons, induction]

theorem reportFrom_append (window : Int32) (history first second : List Buffered) :
    reportFrom window history (first ++ second) = reportFrom window history first ++
        reportFrom window (history ++ first) second := by
  induction first generalizing history with
  | nil => rw [List.nil_append, List.append_nil]; rfl
  | cons entry first induction =>
    rw [List.cons_append, reportFrom, reportFrom, induction, List.append_assoc, List.append_assoc]
    rfl

theorem baseline_concat (events : List Event) (ev : Event) : baseline (events ++ [ev]) =
      if baseline events = 0 then ev.timestamp else baseline events := by
  rw [baseline, baseline, List.map_append, List.find?_append]
  cases found : (events.map Event.timestamp).find? (· ≠ 0) with
  | none =>
    by_cases zero : ev.timestamp = 0
    · simp [zero]
    · simp [zero]
  | some time =>
    have nonzero : time ≠ 0 := by simpa using List.find?_some found
    simp [nonzero]

/-- The loop over the buffer prints the context of the report. -/
theorem contextLoop_eq (window : Int32) (fork_time : UInt64) (idx : Nat) {history : List Buffered}
    (held : ∀ index (below : index < history.length),
      buffer index = history[index]) (within : i ≤ history.length) :
    contextLoop window fork_time buffer idx i =
      ((((history.take i).reverse.take (i + 50 - idx)).filter fun earlier =>
        (Starts 115 earlier.ev ∨ Starts 119 earlier.ev) ∧
          InWindow window fork_time earlier.delta_ms).map
        Buffered.line) := by
  induction i with
  | zero => simp [contextLoop]
  | succ i induction =>
    rw [contextLoop, List.take_succ_eq_append_getElem within,
      List.reverse_append, List.reverse_singleton, List.singleton_append]
    by_cases near : (i : Int) ≥ (idx : Int) - 50
    · have count : i + 1 + 50 - idx = i + 50 - idx + 1 := by omega
      rw [if_pos near, induction (Nat.le_of_succ_le within), count,
        List.take_succ_cons, held i within, contextLine]
      by_cases inside : InWindow window fork_time history[i].delta_ms
      · by_cases named : Starts 115 history[i].ev ∨ Starts 119 history[i].ev
        · rw [if_pos inside, if_pos named, List.filter_cons_of_pos (by
            simpa using ⟨named, inside⟩), List.map_cons, List.singleton_append]
        · rw [if_pos inside, if_neg named, List.filter_cons_of_neg (by
            simpa using fun both => absurd both named), List.nil_append]
      · rw [if_neg inside, List.filter_cons_of_neg (by
          simpa using fun _ => inside), List.nil_append]
    · have count : i + 1 + 50 - idx = 0 := by omega
      rw [if_neg near, count, List.take_zero]
      rfl

/-- An event with its delta, after some history. -/
def stamp (history : List Event) (ev : Event) : Buffered :=
  { ev := ev
    delta_ms := (ev.timestamp - baseline (history ++ [ev])) / 1000 }

theorem stampFrom_concat (events : List Event) (ev : Event) :
    stampFrom [] (events ++ [ev]) = stampFrom [] events ++ [stamp events ev] := by
  rw [stampFrom_append]
  rfl

/-- The state after some events of other processes. -/
structure State.After (state : State) (events : List Event) : Prop where
  first : state.first_timestamp = baseline events
  count : state.event_count = min events.length MAX_EVENTS
  entries : ∀ index (below : index < (stampFrom [] events).length),
    index < MAX_EVENTS → state.event_buffer index = (stampFrom [] events)[index]

theorem start_after : start.After [] := ⟨rfl, rfl, fun _ below => absurd below (Nat.not_lt_zero _)⟩

theorem receive_foreign (after : state.After events) (other : ev.pid ≠ settings.watcher_pid) :
    (receive settings state ev).1.After (events ++ [ev]) ∧ (receive settings state ev).2 =
        if events.length < MAX_EVENTS then
          report settings.context_window (stampFrom [] events) (stamp events ev)
        else [] := by
  have first : (if state.first_timestamp = 0 then ev.timestamp
      else state.first_timestamp) = baseline (events ++ [ev]) := by
    rw [after.first, baseline_concat]
  simp only [receive, if_neg other, first]
  by_cases room : events.length < MAX_EVENTS
  · have count : state.event_count = events.length := by
      rw [after.count, Nat.min_eq_left (Nat.le_of_lt room)]
    have entry : ({ ev := ev, delta_ms := (ev.timestamp -
        baseline (events ++ [ev])) / 1000 } : Buffered) = stamp events ev := rfl
    simp only [count, if_pos room, entry]
    refine ⟨⟨rfl, ?_, ?_⟩, ?_⟩
    · show events.length + 1 = min (events ++ [ev]).length MAX_EVENTS
      rw [List.length_append, List.length_singleton]
      omega
    · intro index below small
      simp only [stampFrom_concat, List.length_append, length_stampFrom,
        List.length_singleton] at below ⊢
      by_cases last : index = events.length
      · subst last
        simp
      · have before : index < events.length := by omega
        rw [Function.update_of_ne last, after.entries index (by simpa) small,
          List.getElem_append_left (by simpa)]
    · have held : ∀ index (below : index < (stampFrom [] events).length),
          Function.update state.event_buffer events.length (stamp events ev)
            index = (stampFrom [] events)[index] := by
        intro index below
        rw [length_stampFrom] at below
        rw [Function.update_of_ne (Nat.ne_of_lt below), after.entries index (by simpa) (by omega)]
      have delta : (ev.timestamp - baseline (events ++ [ev])) / 1000 =
          (stamp events ev).delta_ms := rfl
      have context := contextLoop_eq settings.context_window
        (stamp events ev).delta_ms events.length held
        (show events.length ≤ (stampFrom [] events).length by simp)
      have whole : (stampFrom [] events).take events.length =
          stampFrom [] events := List.take_of_length_le (by simp)
      rw [whole, Nat.add_sub_cancel_left] at context
      rw [delta, context, report]
      rfl
  · have full : ¬state.event_count < MAX_EVENTS := by
      rw [after.count]
      omega
    rw [if_neg full, if_neg room]
    refine ⟨⟨rfl, ?_, ?_⟩, rfl⟩
    · rw [after.count, List.length_append]
      omega
    · intro index below small
      simp only [stampFrom_concat]
      rw [after.entries index (by simp; omega) small, List.getElem_append_left]

theorem watch_eq {history events : List Event} (after : state.After history) :
    (watch settings state events).2 = reportFrom settings.context_window (stampFrom [] history)
        (stampFrom history ((foreign settings events).take (MAX_EVENTS - history.length))) := by
  induction events generalizing state history with
  | nil => simp [watch, foreign, stampFrom, reportFrom]
  | cons ev events induction =>
    rw [watch]
    by_cases own : ev.pid = settings.watcher_pid
    · have skipped : receive settings state ev = (state, []) := by rw [receive, if_pos own]
      have same : foreign settings (ev :: events) = foreign settings events := by
        simp [foreign, own]
      rw [skipped, same]
      exact induction after
    · have more : foreign settings (ev :: events) = ev :: foreign settings events := by
        simp [foreign, own]
      obtain ⟨next, prints⟩ := receive_foreign after own
      rw [prints, induction next, more, stampFrom_concat, List.length_append, List.length_singleton]
      by_cases room : history.length < MAX_EVENTS
      · have count : MAX_EVENTS - history.length = MAX_EVENTS - (history.length + 1) + 1 := by omega
        rw [if_pos room, count, List.take_succ_cons, stampFrom, reportFrom]
        rfl
      · have count : MAX_EVENTS - history.length = 0 := by omega
        have next_count : MAX_EVENTS - (history.length + 1) = 0 := by omega
        rw [if_neg room, count, next_count, List.take_zero, List.take_zero]
        rfl

theorem report_eq_nil_iff {history : List Buffered} :
    report window history entry = [] ↔ ¬Starts 102 entry.ev := by
  rw [report]
  split
  next fork => simp [fork]
  next other => simp [other]

theorem reportFrom_eq_nil_iff {history : List Buffered} :
    reportFrom window history (stampFrom before events) = [] ↔ ∀ ev ∈ events, ¬Starts 102 ev := by
  induction events generalizing history before with
  | nil => simp [stampFrom, reportFrom]
  | cons ev events induction =>
    rw [stampFrom, reportFrom, List.append_eq_nil_iff, report_eq_nil_iff,
      induction, List.forall_mem_cons]

theorem baseline_append_of_ne (nonzero : baseline first ≠ 0) (second : List Event) :
    baseline (first ++ second) = baseline first := by
  rw [baseline] at nonzero
  rw [baseline, baseline, List.map_append, List.find?_append]
  cases found : (first.map Event.timestamp).find? (· ≠ 0) with
  | none => rw [found] at nonzero; exact absurd rfl nonzero
  | some time => rfl

/-- The baseline is not after an event that is not before the others. -/
theorem baseline_le (latest : ∀ earlier ∈ events, earlier.timestamp ≤ ev.timestamp) :
    baseline (events ++ [ev]) ≤ ev.timestamp := by
  rw [baseline_concat]
  split
  next => exact UInt64.le_refl _
  next nonzero =>
    rw [baseline] at nonzero ⊢
    cases found : (events.map Event.timestamp).find? (· ≠ 0) with
    | none => rw [found] at nonzero; exact absurd rfl nonzero
    | some time =>
      obtain ⟨earlier, member, rfl⟩ := List.mem_map.mp (List.mem_of_find?_eq_some found)
      exact latest earlier member

theorem stamp_toNat (latest : ∀ earlier ∈ events, earlier.timestamp ≤ ev.timestamp) :
    (stamp events ev).delta_ms.toNat =
      (ev.timestamp.toNat - (baseline (events ++ [ev])).toNat) / 1000 := by
  rw [stamp, UInt64.toNat_div, UInt64.toNat_sub_of_le _ _ (baseline_le latest)]
  rfl

/-- Deltas do not decrease as long as timestamps do not. -/
theorem stamp_le {events between : List Event} {ev later : Event}
    (before : ∀ earlier ∈ events, earlier.timestamp ≤ ev.timestamp)
    (ordered : ev.timestamp ≤ later.timestamp)
    (latest : ∀ earlier ∈ events ++ [ev] ++ between, earlier.timestamp ≤ later.timestamp) :
    (stamp events ev).delta_ms ≤ (stamp (events ++ [ev] ++ between) later).delta_ms := by
  rw [UInt64.le_iff_toNat_le, stamp_toNat before, stamp_toNat latest]
  by_cases zero : baseline (events ++ [ev]) = 0
  · have stamp_zero : ev.timestamp = 0 := by
      have value := baseline_concat events ev
      rw [zero] at value
      split at value
      next => exact value.symm
      next nonzero => exact absurd value.symm nonzero
    rw [stamp_zero]
    simp
  · rw [List.append_assoc (events ++ [ev]) between, baseline_append_of_ne zero]
    exact Nat.div_le_div_right (Nat.sub_le_sub_right (UInt64.le_iff_toNat_le.mp ordered) _)

theorem stampFrom_sorted {history events : List Event}
    (sorted : (history ++ events).Pairwise fun earlier later =>
      earlier.timestamp ≤ later.timestamp) :
    (stampFrom history events).Pairwise fun earlier later =>
      earlier.delta_ms ≤ later.delta_ms := by
  induction events generalizing history with
  | nil => exact .nil
  | cons ev events induction =>
    have moved : (history ++ [ev] ++ events).Pairwise fun earlier later =>
        earlier.timestamp ≤ later.timestamp := by simpa using sorted
    rw [stampFrom, List.pairwise_cons]
    refine ⟨?_, induction moved⟩
    -- A later entry is the stamp of an event behind some prefix of the rest.
    have entries : ∀ (rest before : List Event) entry,
        entry ∈ stampFrom before rest → ∃ between later tail, rest = between ++ later :: tail ∧
            entry = stamp (before ++ between) later := by
      intro rest
      induction rest with
      | nil => exact fun _ _ member => nomatch member
      | cons first rest induction =>
        intro before entry member
        rw [stampFrom, List.mem_cons] at member
        rcases member with rfl | member
        · exact ⟨[], first, rest, rfl, by rw [List.append_nil]; rfl⟩
        · obtain ⟨between, later, tail, rfl, rfl⟩ := induction (before ++ [first]) entry member
          exact ⟨first :: between, later, tail, rfl, by simp⟩
    intro entry member
    obtain ⟨between, later, tail, rfl, rfl⟩ := entries _ _ _ member
    rw [List.pairwise_append, List.pairwise_append] at moved
    obtain ⟨⟨-, -, past⟩, inner, across⟩ := moved
    have after_between := (List.pairwise_append.mp inner).2.2
    refine @stamp_le history between ev later
      (fun earlier inside => past earlier inside ev List.mem_cons_self)
      (across ev (by simp) later (by simp)) ?_
    intro earlier inside
    rcases List.mem_append.mp inside with inside | inside
    · exact across earlier inside later (by simp)
    · exact after_between earlier inside later List.mem_cons_self

/-- For deltas in order, the window is one of numbers. -/
theorem inWindow_iff (nonneg : 0 ≤ window.toInt) (ordered : delta_ms ≤ fork_time) :
    InWindow window fork_time delta_ms ↔
      (fork_time.toNat : Int) - delta_ms.toNat ≤ window.toInt := by
  have high := window.toInt_lt
  have size : (UInt64.ofInt window.toInt).toNat = window.toInt.toNat := by
    rw [UInt64.ofInt, UInt64.toNat_ofNat']
    omega
  have order := UInt64.le_iff_toNat_le.mp ordered
  rw [InWindow, UInt64.le_iff_toNat_le, size, UInt64.toNat_sub_of_le _ _ ordered]
  omega

theorem watch_eq_reports_iff (settings : Settings) (events : List Event) :
    (watch settings start events).2 = reports settings events ↔
      ∀ ev ∈ (foreign settings events).drop MAX_EVENTS, ¬Starts 102 ev := by
  have split := List.take_append_drop MAX_EVENTS (foreign settings events)
  have whole : reports settings events = reportFrom settings.context_window []
        (stampFrom [] ((foreign settings events).take MAX_EVENTS)) ++
      reportFrom settings.context_window (stampFrom [] ((foreign settings events).take MAX_EVENTS))
        (stampFrom ((foreign settings events).take MAX_EVENTS)
          ((foreign settings events).drop MAX_EVENTS)) := by
    rw [reports]
    nth_rewrite 1 [← split]
    rw [stampFrom_append, reportFrom_append, List.nil_append, List.nil_append]
  rw [watch_eq start_after, whole, List.length_nil, Nat.sub_zero,
    show stampFrom [] [] = [] from rfl, List.self_eq_append_right]
  exact reportFrom_eq_nil_iff

/-- The watcher reports the forks among the first `MAX_EVENTS` events, and every
fork exactly if there is none behind them.  For events in the order of time the
window of a report is one of numbers. -/
theorem forks_are_reported_iff (settings : Settings) (events : List Event) :
    ((watch settings start events).2 = reports settings events ↔
      ∀ ev ∈ (foreign settings events).drop MAX_EVENTS, ¬Starts 102 ev) ∧
    (0 ≤ settings.context_window.toInt → (events.Pairwise fun earlier later =>
        earlier.timestamp ≤ later.timestamp) →
      (stampFrom [] (foreign settings events)).Pairwise fun earlier later =>
        InWindow settings.context_window later.delta_ms earlier.delta_ms ↔
          (later.delta_ms.toNat : Int) - earlier.delta_ms.toNat ≤
            settings.context_window.toInt) := by
  refine ⟨watch_eq_reports_iff settings events, fun nonneg sorted => ?_⟩
  refine (stampFrom_sorted ?_).imp fun ordered => inWindow_iff nonneg ordered
  rw [List.nil_append]
  exact sorted.filter _

/-- An event of process 5. -/
def plainEvent (letter : UInt8) (timestamp : UInt64) : Event :=
  { pid := 5
    name := (Vector.replicate MAXEVENTNAME 0).setIfInBounds 0 letter
    timestamp := timestamp }

def tenSeconds : Settings := { watcher_pid := 3, context_window := 10000 }

theorem forks_are_reported_iff_sleepThenFork : (watch tenSeconds start
        [plainEvent 115 1000, plainEvent 102 9000]).2 =
      reports tenSeconds [plainEvent 115 1000, plainEvent 102 9000] ∧
    (stampFrom [] (foreign tenSeconds [plainEvent 115 1000, plainEvent 102 9000])).Pairwise
      fun earlier later =>
        InWindow tenSeconds.context_window later.delta_ms earlier.delta_ms ↔
          (later.delta_ms.toNat : Int) - earlier.delta_ms.toNat ≤
            tenSeconds.context_window.toInt := by
  obtain ⟨reported, windows⟩ := forks_are_reported_iff tenSeconds
    [plainEvent 115 1000, plainEvent 102 9000]
  exact ⟨reported.mpr (by decide), windows (by decide) (by decide)⟩

/-- A fork behind a thousand other events is not reported. -/
theorem fork_omitted : (watch tenSeconds start
        (List.replicate MAX_EVENTS (plainEvent 119 1000) ++ [plainEvent 102 2000])).2 = [] ∧
      reports tenSeconds (List.replicate MAX_EVENTS (plainEvent 119 1000) ++
        [plainEvent 102 2000]) ≠ [] := by
  have others : foreign tenSeconds (List.replicate MAX_EVENTS (plainEvent 119 1000) ++
      [plainEvent 102 2000]) =
      List.replicate MAX_EVENTS (plainEvent 119 1000) ++ [plainEvent 102 2000] := by
    rw [foreign, List.filter_append, List.filter_replicate_of_pos (by decide)]
    rfl
  constructor
  · rw [watch_eq start_after, others, List.length_nil, Nat.sub_zero,
      List.take_left' List.length_replicate, reportFrom_eq_nil_iff]
    intro ev member
    rw [List.eq_of_mem_replicate member]
    decide
  · rw [reports, others, Ne, reportFrom_eq_nil_iff]
    intro none
    exact none (plainEvent 102 2000) (List.mem_append_right _ List.mem_cons_self) (by decide)

end Xv6KernelEvent.Watcher

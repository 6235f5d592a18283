import Xv6KernelEvent.Log.Machine

/-!
# The invariant of the redo log

Three parts.  `Installing` says how far the disk is from the durable contents,
given the entries of the on-disk header; `Buffers` relates the cache to the
disk and to the contents that readers see; `Disciplined` counts the operations
in progress.  Every phase of the log pins these down, and in every phase the
disk is `Recoverable`.
-/

namespace Xv6KernelEvent

open AtomicStore

/-- Entries that `write_head` can write and `install_trans` can install. -/
structure EntriesValid (start : Nat) (entries : List Nat) : Prop where
  distinct : entries.Nodup
  home : ∀ block ∈ entries, HomeBlock start block
  short : entries.length ≤ LOGBLOCKS

/-- The first log blocks hold the contents of the first entries. -/
def Copied (start : Nat) (disk contents : Nat → Block) (entries : List Nat) (tail : Nat) : Prop :=
  ∀ index block, index < tail → entries[index]? = some block →
    disk (start + index + 1) = contents block

/-- The header names `entries`, the log holds their durable contents, and all
home blocks except the entries from `tail` on are durable already. -/
structure Installing (start : Nat) (disk durable : Nat → Block)
    (entries : List Nat) (tail : Nat) : Prop where
  counted : Header.count (disk start) = entries.length
  header : Header.get (disk start) = some entries
  valid : EntriesValid start entries
  copied : Copied start disk durable entries entries.length
  installed : ∀ block, HomeBlock start block → block ∉ entries.drop tail →
    disk block = durable block

/-- A disk from which recovery reaches the durable contents. -/
def Recoverable (start : Nat) (disk durable : Nat → Block) : Prop :=
  ∃ entries, Installing start disk durable entries 0

theorem EntriesValid.nil (start : Nat) : EntriesValid start [] :=
  ⟨List.nodup_nil, by simp, Nat.zero_le _⟩

theorem EntriesValid.get_put (valid : EntriesValid start entries)
    (block : Block) : Header.get (Header.put entries block) = some entries :=
  Header.get_put block valid.short fun number member => (valid.home number member).1

theorem EntriesValid.concat (valid : EntriesValid start entries) (home : HomeBlock start block)
    (fresh : block ∉ entries) (room : entries.length < LOGBLOCKS) :
    EntriesValid start (entries ++ [block]) := by
  refine ⟨?_, ?_, ?_⟩
  · rw [List.nodup_append]
    refine ⟨valid.distinct, by simp, ?_⟩
    rintro first member second found rfl
    rw [List.mem_singleton] at found
    exact fresh (found ▸ member)
  · intro other member
    rcases List.mem_append.mp member with old | new
    · exact valid.home other old
    · rw [List.mem_singleton] at new
      rw [new]
      exact home
  · simp only [List.length_append, List.length_singleton]
    omega

theorem Installing.recoverable (installing : Installing start disk durable entries tail) :
    Recoverable start disk durable := by
  refine ⟨entries, installing.counted, installing.header, installing.valid, installing.copied, ?_⟩
  intro block home absent
  exact installing.installed block home fun member => absent (List.mem_of_mem_drop member)

/-- With every entry installed, all home blocks are durable. -/
theorem Installing.complete (installing : Installing start disk durable entries entries.length)
    (home : HomeBlock start block) : disk block = durable block :=
  installing.installed block home (by simp)

theorem Installing.done (installing : Installing start disk durable entries tail)
    (past : entries.length ≤ tail) : Installing start disk durable entries entries.length :=
  { installing with
    installed := fun block home _ =>
      installing.installed block home (by simp [List.drop_eq_nil_of_le past]) }

section

theorem not_homeBlock_start : ¬HomeBlock start start := by
  rintro ⟨_, outside⟩
  exact outside ⟨Nat.le_refl _, Nat.le_add_right _ _⟩

theorem not_homeBlock_log (below : tail < LOGBLOCKS) : ¬HomeBlock start (start + tail + 1) := by
  rintro ⟨_, outside⟩
  exact outside ⟨by omega, by omega⟩

theorem HomeBlock.ne_start (home : HomeBlock start block) : block ≠ start := by
  rintro rfl
  exact not_homeBlock_start home

theorem HomeBlock.ne_log (home : HomeBlock start block)
    (below : tail < LOGBLOCKS) : block ≠ start + tail + 1 := by
  rintro rfl
  exact not_homeBlock_log below home

end

/-- A step of `write_log` on a disk whose header is clear. -/
theorem Installing.write_log (clean : Installing start disk durable [] 0) (room : tail < LOGBLOCKS)
    (data : Block) :
    Installing start (Function.update disk (start + tail + 1) data) durable [] 0 := by
  refine ⟨?_, ?_, clean.valid, by simp [Copied], ?_⟩
  · rw [Function.update_of_ne (by omega)]
    exact clean.counted
  · rw [Function.update_of_ne (by omega)]
    exact clean.header
  · intro block home absent
    rw [Function.update_of_ne (home.ne_log room)]
    exact clean.installed block home absent

theorem Copied.write_log (copied : Copied start disk contents entries tail)
    (entry : entries[tail]? = some block) (same : data = contents block) :
    Copied start (Function.update disk (start + tail + 1) data) contents entries (tail + 1) := by
  intro index other below found
  by_cases last : index = tail
  · subst index
    rw [entry, Option.some.injEq] at found
    rw [Function.update_self, ← found, same]
  · rw [Function.update_of_ne (by omega)]
    exact copied index other (by omega) found

/-- Writing the header starts an installation. -/
theorem Installing.write_head (valid : EntriesValid start entries)
    (copied : Copied start disk durable entries entries.length)
    (settled : ∀ block, HomeBlock start block → block ∉ entries →
      disk block = durable block) (block : Block) :
    Installing start (Function.update disk start (Header.put entries block)) durable entries 0 := by
  refine ⟨?_, ?_, valid, ?_, ?_⟩
  · rw [Function.update_self]
    exact Header.count_put block valid.short
  · rw [Function.update_self]
    exact valid.get_put block
  · intro index other below found
    rw [Function.update_of_ne (by omega)]
    exact copied index other below found
  · intro other home absent
    rw [Function.update_of_ne home.ne_start]
    exact settled other home absent

/-- A step of `install_trans` moves one block home. -/
theorem Installing.install (installing : Installing start disk durable entries tail)
    (entry : entries[tail]? = some block) :
    Installing start (Function.update disk block (disk (start + tail + 1))) durable entries
      (tail + 1) := by
  obtain ⟨below, found⟩ := List.getElem?_eq_some_iff.mp entry
  have home := installing.valid.home block (List.mem_of_getElem? entry)
  have data : disk (start + tail + 1) = durable block := installing.copied tail block below entry
  refine ⟨?_, ?_, installing.valid, ?_, ?_⟩
  · rw [Function.update_of_ne home.ne_start.symm]
    exact installing.counted
  · rw [Function.update_of_ne home.ne_start.symm]
    exact installing.header
  · intro index other indexBelow indexFound
    have room : index < LOGBLOCKS := indexBelow.trans_le installing.valid.short
    rw [Function.update_of_ne (home.ne_log room).symm]
    exact installing.copied index other indexBelow indexFound
  · intro other otherHome absent
    by_cases same : other = block
    · subst other
      rw [Function.update_self]
      exact data
    · rw [Function.update_of_ne same]
      apply installing.installed other otherHome
      rw [List.drop_eq_getElem_cons below, found, List.mem_cons]
      rintro (here | later)
      · exact same here
      · exact absent later

namespace LogMachine

/-- How the cache relates to the disk: buffers of home blocks hold `contents`,
references are the holder's and one for a pinned block, a modified buffer is
held within an operation, a block that is neither pinned nor modified is on
disk, and buffers of the log itself agree with the disk. -/
structure Buffers (machine : LogMachine) (pinned : List Nat) (contents : Nat → Block) : Prop where
  data : ∀ block, HomeBlock machine.start block → (machine.fetch block).data = contents block
  refcnt : ∀ block, HomeBlock machine.start block → (machine.fetch block).refcnt =
      (if (machine.fetch block).holder = none then 0 else 1) + if block ∈ pinned then 1 else 0
  held : ∀ block ∈ machine.unlogged, HomeBlock machine.start block ∧
    ∃ process ∈ machine.active, (machine.fetch block).holder = some process
  settled : ∀ block, HomeBlock machine.start block → block ∉ pinned →
    block ∉ machine.unlogged → machine.disk block = contents block
  through : ∀ block, ¬HomeBlock machine.start block →
    (machine.fetch block).data = machine.disk block ∧ (machine.fetch block).holder = none

/-- Operations are counted, and none is in progress outside `running`. -/
structure Disciplined (machine : LogMachine) : Prop where
  counted : machine.outstanding = machine.active.length
  idle : machine.phase ≠ .running → machine.active = []

/-- The blocks on which `log_write` still holds a reference. -/
def pinned (machine : LogMachine) : List Nat :=
  match machine.phase with
  | .committing (.installTrans tail) => machine.lh.drop tail
  | .recovering _ => []
  | _ => machine.lh

/-- What readers of home blocks see. -/
def contents (machine : LogMachine) (ledger : Ledger Nat Block) : Nat → Block :=
  match machine.phase with
  | .recovering _ => machine.disk
  | _ => ledger.logical

/-- The disk in each phase. -/
def DiskAgrees (start : Nat) (disk : Nat → Block) (lh : List Nat)
    (ledger : Ledger Nat Block) : LogPhase → Prop
  | .stopped => Recoverable start disk ledger.durable
  | .recovering .readHead =>
    lh = [] ∧ ledger.logical = ledger.durable ∧ Recoverable start disk ledger.durable
  | .recovering (.installTrans tail) =>
    Installing start disk ledger.durable lh tail ∧ ledger.logical = ledger.durable
  | .recovering .clearHead =>
    lh = [] ∧ ledger.logical = ledger.durable ∧
      ∃ entries, Installing start disk ledger.durable entries entries.length
  | .running => Installing start disk ledger.durable [] 0 ∧ EntriesValid start lh
  | .committing (.writeLog tail) =>
    Installing start disk ledger.durable [] 0 ∧ EntriesValid start lh ∧
      Copied start disk ledger.logical lh tail
  | .committing .writeHead =>
    Installing start disk ledger.durable [] 0 ∧ EntriesValid start lh ∧
      Copied start disk ledger.logical lh lh.length
  | .committing (.installTrans tail) =>
    Installing start disk ledger.durable lh tail ∧ ledger.logical = ledger.durable
  | .committing .clearHead =>
    lh = [] ∧ ledger.logical = ledger.durable ∧
      ∃ entries, Installing start disk ledger.durable entries entries.length
  | .committing .finish => lh = [] ∧ Installing start disk ledger.durable [] 0

structure Invariant (machine : LogMachine) (ledger : Ledger Nat Block) : Prop where
  disk : DiskAgrees machine.start machine.disk machine.lh ledger machine.phase
  buffers : machine.phase ≠ .stopped → machine.Buffers machine.pinned (machine.contents ledger)
  disciplined : machine.phase ≠ .stopped → machine.Disciplined

end LogMachine

/-- In every phase a crash leaves a recoverable disk. -/
theorem LogMachine.DiskAgrees.recoverable {start : Nat} {disk : Nat → Block} {lh : List Nat}
    {phase : LogPhase} (agrees : LogMachine.DiskAgrees start disk lh ledger phase) :
    Recoverable start disk ledger.durable := by
  cases phase with
  | stopped => exact agrees
  | running => exact agrees.1.recoverable
  | recovering pc =>
    cases pc with
    | readHead => exact agrees.2.2
    | installTrans tail => exact agrees.1.recoverable
    | clearHead =>
      obtain ⟨_, _, entries, installing⟩ := agrees
      exact installing.recoverable
  | committing pc =>
    cases pc with
    | clearHead =>
      obtain ⟨_, _, entries, installing⟩ := agrees
      exact installing.recoverable
    | finish => exact agrees.2.recoverable
    | _ => exact agrees.1.recoverable

namespace LogMachine

variable {machine : LogMachine}

@[simp] theorem fetch_setBuf (block other : Nat) (buf : Buf) :
    (machine.setBuf block buf).fetch other =
      if other = block then buf else machine.fetch other := by
  by_cases same : other = block
  · subst other
    simp [fetch, setBuf]
  · simp [fetch, setBuf, same]

@[simp] theorem fetch_bwrite (block other : Nat) (buf : Buf) :
    (machine.bwrite block buf).fetch other =
      if other = block then buf else machine.fetch other := by
  by_cases same : other = block
  · subst other
    simp [fetch, bwrite, setBuf]
  · simp [fetch, bwrite, setBuf, same]

theorem fetch_of_cache (cached : machine.cache block = some buf) : machine.fetch block = buf := by
  simp [fetch, cached]

/-- The machine with other buffers in its cache. -/
def drop (machine : LogMachine) (dropped : Nat → Option Buf) : LogMachine :=
  { machine with cache := dropped }

/-- Some buffers without references are gone. -/
def Drops (machine : LogMachine) (dropped : Nat → Option Buf) : Prop :=
  ∀ block, dropped block = machine.cache block ∨
    dropped block = none ∧ (machine.fetch block).refcnt = 0

theorem Drops.fetch (drops : machine.Drops dropped) (block : Nat) :
    (machine.drop dropped).fetch block = machine.fetch block ∨
      (machine.fetch block).refcnt = 0 ∧ (machine.drop dropped).fetch block =
        { data := machine.disk block, refcnt := 0, holder := none } := by
  rcases drops block with same | ⟨gone, unused⟩
  · left
    simp only [LogMachine.fetch, drop, same]
  · right
    refine ⟨unused, ?_⟩
    simp only [LogMachine.fetch, drop, gone]
    rfl

/-- An operation on a cached buffer that meets its condition. -/
theorem of_cached {meets : Buf → Prop} [DecidablePred meets] {result : Buf → LogMachine}
    (taken : (machine.cache block).bind
      (fun buf => if meets buf then some (result buf) else none) = some after) :
    meets (machine.fetch block) ∧ after = result (machine.fetch block) := by
  obtain ⟨buf, cached, taken⟩ := Option.bind_eq_some_iff.mp taken
  obtain ⟨met, ⟨⟩⟩ := Option.ite_none_right_eq_some.mp taken
  rw [fetch_of_cache cached]
  exact ⟨met, rfl⟩

/-- The machine with a pinned block at the end of the group. -/
abbrev pin (machine : LogMachine) (block : Nat) : LogMachine :=
  { machine.setBuf block
      { machine.fetch block with refcnt := (machine.fetch block).refcnt + 1 } with
    lh := machine.lh ++ [block]
    unlogged := machine.unlogged.filter (· ≠ block) }

/-- `log_write` panics, finds the block in the group, or adds it. -/
theorem logWrite_cases (logs : machine.logWrite process block = some after) :
    after = machine.panic ∧ (LOGBLOCKS ≤ machine.lh.length ∨ machine.outstanding < 1) ∨
      block ∈ machine.lh ∧
        after = { machine with unlogged := machine.unlogged.filter (· ≠ block) } ∨
      block ∉ machine.lh ∧ machine.lh.length < LOGBLOCKS ∧ after = machine.pin block := by
  simp only [logWrite] at logs
  split at logs
  · cases logs
  · rename_i buf cached
    obtain ⟨-, logs⟩ := Option.ite_none_left_eq_some.mp logs
    rw [pin, fetch_of_cache cached]
    grind

theorem drops_evict (unused : (machine.fetch block).refcnt = 0) :
    machine.Drops (Function.update machine.cache block none) := by
  intro other
  by_cases same : other = block
  · subst other
    exact .inr ⟨Function.update_self _ _ _, unused⟩
  · exact .inl (Function.update_of_ne same _ _)

theorem setBuf_fetch (block : Nat) :
    (machine.setBuf block (machine.fetch block)).fetch = machine.fetch := by
  funext other
  rw [fetch_setBuf]
  split
  · subst other
    rfl
  · rfl

namespace Buffers

variable {pinned : List Nat} {contents : Nat → Block}

section

variable (buffers : machine.Buffers pinned contents)

include buffers

/-- A buffer of a home block may change its holder and its references. -/
theorem setBuf (home : HomeBlock machine.start block) (data : buf.data = contents block)
    (refcnt : buf.refcnt = (if buf.holder = none then 0 else 1) + if block ∈ pinned then 1 else 0)
    (held : block ∈ machine.unlogged → ∃ process ∈ machine.active, buf.holder = some process) :
    (machine.setBuf block buf).Buffers pinned contents := by
  constructor
  · intro other otherHome
    rw [fetch_setBuf]
    split
    · subst other
      exact data
    · exact buffers.data other otherHome
  · intro other otherHome
    rw [fetch_setBuf]
    split
    · subst other
      exact refcnt
    · exact buffers.refcnt other otherHome
  · intro other member
    rw [fetch_setBuf]
    split
    · subst other
      exact ⟨home, held member⟩
    · exact buffers.held other member
  · exact buffers.settled
  · intro other away
    rw [fetch_setBuf, if_neg (by rintro rfl; exact away home)]
    exact buffers.through other away

/-- The relation only sees what `fetch` returns. -/
theorem of_fetch_eq {other : LogMachine} (fetch : other.fetch = machine.fetch)
    (same : (other.start, other.disk, other.unlogged, other.active) =
      (machine.start, machine.disk, machine.unlogged, machine.active)) :
    other.Buffers pinned contents := by
  obtain ⟨data, refcnt, held, settled, through⟩ := buffers
  simp only [Prod.mk.injEq] at same
  constructor <;> simp only [same, fetch] <;> assumption

/-- Only the contents of home blocks matter. -/
theorem of_contents_eq
    (same : ∀ block, HomeBlock machine.start block → contents block = other block) :
    machine.Buffers pinned other := by
  refine ⟨?_, buffers.refcnt, buffers.held, ?_, buffers.through⟩
  · intro block home
    rw [← same block home]
    exact buffers.data block home
  · intro block home notPinned logged
    rw [← same block home]
    exact buffers.settled block home notPinned logged

/-- A `bread` and `brelse` may leave a block cached that was not. -/
theorem setBuf_fetch (block : Nat) :
    (machine.setBuf block (machine.fetch block)).Buffers pinned contents :=
  buffers.of_fetch_eq (LogMachine.setBuf_fetch block) rfl

theorem setPhase (phase : LogPhase) : (machine.setPhase phase).Buffers pinned contents :=
  buffers.of_fetch_eq rfl rfl

/-- A buffer of the log may be written through. -/
theorem bwrite_log (away : ¬HomeBlock machine.start block) (free : buf.holder = none) :
    (machine.bwrite block buf).Buffers pinned contents := by
  have different (other : Nat) (home : HomeBlock machine.start other) : other ≠ block := by
    rintro rfl
    exact away home
  constructor
  · intro other home
    rw [fetch_bwrite, if_neg (different other home)]
    exact buffers.data other home
  · intro other home
    rw [fetch_bwrite, if_neg (different other home)]
    exact buffers.refcnt other home
  · intro other member
    have held := buffers.held other member
    rw [fetch_bwrite, if_neg (different other held.1)]
    exact held
  · intro other home notPinned logged
    have kept : (machine.bwrite block buf).disk other = machine.disk other :=
      Function.update_of_ne (different other home) _ _
    rw [kept]
    exact buffers.settled other home notPinned logged
  · intro other otherAway
    rw [fetch_bwrite]
    split
    · subst other
      exact ⟨(Function.update_self block buf.data machine.disk).symm, free⟩
    · rename_i differs
      have kept : (machine.bwrite block buf).disk other = machine.disk other :=
        Function.update_of_ne differs _ _
      rw [kept]
      exact buffers.through other otherAway

/-- A buffer of a home block written through is no longer pinned. -/
theorem bwrite_home (home : HomeBlock machine.start block)
    (pins : pinned = block :: rest) (distinct : pinned.Nodup)
    (data : buf.data = contents block) (free : buf.holder = none)
    (refcnt : buf.refcnt = 0) (logged : block ∉ machine.unlogged) :
    (machine.bwrite block buf).Buffers rest contents := by
  subst pinned
  have unpinned : block ∉ rest := (List.nodup_cons.mp distinct).1
  constructor
  · intro other otherHome
    rw [fetch_bwrite]
    split
    · subst other
      exact data
    · exact buffers.data other otherHome
  · intro other otherHome
    rw [fetch_bwrite]
    split
    · subst other
      simp [refcnt, unpinned]
    · rename_i differs
      have counted := buffers.refcnt other otherHome
      simpa [differs] using counted
  · intro other member
    rw [fetch_bwrite]
    split
    · subst other
      exact absurd member logged
    · exact buffers.held other member
  · intro other otherHome notPinned otherLogged
    by_cases same : other = block
    · subst other
      rw [← data]
      exact Function.update_self _ _ _
    · have kept : (machine.bwrite block buf).disk other =
          machine.disk other := Function.update_of_ne same _ _
      rw [kept]
      exact buffers.settled other otherHome (by simp [same, notPinned]) otherLogged
  · intro other away
    have differs : other ≠ block := by
      rintro rfl
      exact away home
    have kept : (machine.bwrite block buf).disk other = machine.disk other :=
      Function.update_of_ne differs _ _
    rw [fetch_bwrite, if_neg differs, kept]
    exact buffers.through other away

/-- Unreferenced buffers may be dropped: their contents are on disk. -/
theorem drop (drops : machine.Drops dropped) : (machine.drop dropped).Buffers pinned contents := by
  have unused {block : Nat} (gone : (machine.fetch block).refcnt = 0)
      (home : HomeBlock machine.start block) :
      block ∉ pinned ∧ block ∉ machine.unlogged := by
    have counted := buffers.refcnt block home
    rw [gone] at counted
    constructor
    · intro member
      simp [member] at counted
    · intro member
      obtain ⟨_, process, _, holds⟩ := buffers.held block member
      simp only [holds, reduceCtorEq, if_false] at counted
      omega
  constructor
  · intro other home
    rcases drops.fetch other with same | ⟨gone, absent⟩
    · rw [same]
      exact buffers.data other home
    · rw [absent]
      exact buffers.settled other home (unused gone home).1 (unused gone home).2
  · intro other home
    rcases drops.fetch other with same | ⟨gone, absent⟩
    · rw [same]
      exact buffers.refcnt other home
    · rw [absent]
      simp [(unused gone home).1]
  · intro other member
    rcases drops.fetch other with same | ⟨gone, absent⟩
    · rw [same]
      exact buffers.held other member
    · have held := buffers.held other member
      exact absurd member (unused gone held.1).2
  · exact buffers.settled
  · intro other away
    rcases drops.fetch other with same | ⟨gone, absent⟩
    · rw [same]
      exact buffers.through other away
    · rw [absent]
      exact ⟨rfl, rfl⟩

/-- The holder of a buffer changes its contents. -/
theorem modify (home : HomeBlock machine.start block) (active : process ∈ machine.active)
    (holds : (machine.fetch block).holder = some process) (data : Block) :
    Buffers
      { machine.setBuf block { machine.fetch block with data := data } with
        unlogged := block :: machine.unlogged }
      pinned (Function.update contents block data) := by
  let modified : LogMachine :=
    { machine.setBuf block { machine.fetch block with data := data } with
      unlogged := block :: machine.unlogged }
  have here : modified.fetch block = { machine.fetch block with data := data } :=
    (fetch_setBuf block block _).trans (if_pos rfl)
  have kept (other : Nat) (differs : other ≠ block) : modified.fetch other = machine.fetch other :=
    (fetch_setBuf block other _).trans (if_neg differs)
  change modified.Buffers pinned (Function.update contents block data)
  constructor
  · intro other otherHome
    by_cases same : other = block
    · subst other
      rw [here, Function.update_self]
    · rw [kept other same, Function.update_of_ne same]
      exact buffers.data other otherHome
  · intro other otherHome
    by_cases same : other = block
    · subst other
      rw [here]
      exact buffers.refcnt block home
    · rw [kept other same]
      exact buffers.refcnt other otherHome
  · intro other member
    by_cases same : other = block
    · subst other
      rw [here]
      exact ⟨home, process, active, holds⟩
    · rw [kept other same]
      exact buffers.held other ((List.mem_cons.mp member).resolve_left same)
  · intro other otherHome notPinned logged
    have differs : other ≠ block := by
      rintro rfl
      exact logged List.mem_cons_self
    rw [Function.update_of_ne differs]
    exact buffers.settled other otherHome notPinned
      fun member => logged (List.mem_cons_of_mem _ member)
  · intro other away
    have differs : other ≠ block := by
      rintro rfl
      exact away home
    rw [kept other differs]
    exact buffers.through other away

/-- A buffer that has been pinned need not be marked as modified. -/
theorem log (logged : block ∈ pinned) : Buffers
      { machine with unlogged := machine.unlogged.filter (· ≠ block) }
      pinned contents := by
  refine ⟨buffers.data, buffers.refcnt, ?_, ?_, buffers.through⟩
  · intro other member
    exact buffers.held other (List.mem_filter.mp member).1
  · intro other home notPinned notUnlogged
    refine buffers.settled other home notPinned fun member => notUnlogged ?_
    refine List.mem_filter.mpr ⟨member, ?_⟩
    simp only [ne_eq, decide_not, Bool.not_eq_eq_eq_not, Bool.not_true, decide_eq_false_iff_not]
    rintro rfl
    exact notPinned logged

/-- `bpin` of a block that is not pinned yet. -/
theorem pin (home : HomeBlock machine.start block) (fresh : block ∉ pinned) :
    Buffers (machine.setBuf block
        { machine.fetch block with
          refcnt := (machine.fetch block).refcnt + 1 })
      (pinned ++ [block]) contents := by
  constructor
  · intro other otherHome
    rw [fetch_setBuf]
    split
    · subst other
      exact buffers.data block home
    · exact buffers.data other otherHome
  · intro other otherHome
    by_cases same : other = block
    · subst other
      have counted := buffers.refcnt block home
      simp only [fresh, if_false] at counted
      rw [fetch_setBuf, if_pos rfl]
      simp [counted]
    · have counted := buffers.refcnt other otherHome
      rw [fetch_setBuf, if_neg same]
      simpa [same] using counted
  · intro other member
    rw [fetch_setBuf]
    split
    · subst other
      exact buffers.held block member
    · exact buffers.held other member
  · intro other otherHome notPinned logged
    exact buffers.settled other otherHome
      (fun member => notPinned (List.mem_append_left _ member)) logged
  · intro other away
    rw [fetch_setBuf, if_neg (by rintro rfl; exact away home)]
    exact buffers.through other away

end

/-- During recovery, which reads and writes through, the cache agrees with
the disk. -/
theorem bwrite_recovering (buffers : machine.Buffers [] machine.disk)
    (logged : machine.unlogged = []) (free : buf.holder = none) (refcnt : buf.refcnt = 0) :
    (machine.bwrite block buf).Buffers [] (machine.bwrite block buf).disk := by
  have written : (machine.bwrite block buf).disk block = buf.data := Function.update_self _ _ _
  have kept (other : Nat) (differs : other ≠ block) :
      (machine.bwrite block buf).disk other = machine.disk other :=
    Function.update_of_ne differs _ _
  constructor
  · intro other home
    by_cases same : other = block
    · simp [same, written]
    · rw [fetch_bwrite, if_neg same, kept other same]
      exact buffers.data other home
  · intro other home
    by_cases same : other = block
    · simp [same, free, refcnt]
    · rw [fetch_bwrite, if_neg same]
      exact buffers.refcnt other home
  · intro other member
    have unlogged : other ∈ machine.unlogged := member
    simp [logged] at unlogged
  · intro other _home _notPinned _otherLogged
    rfl
  · intro other away
    by_cases same : other = block
    · simp [same, written, free]
    · rw [fetch_bwrite, if_neg same, kept other same]
      exact buffers.through other away

end Buffers

end LogMachine

end Xv6KernelEvent

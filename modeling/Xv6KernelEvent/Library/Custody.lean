import Mathlib.Algebra.BigOperators.Group.Finset.Basic
import Mathlib.Algebra.BigOperators.Intervals
import Mathlib.Algebra.Order.BigOperators.Group.Finset
import Mathlib.Algebra.Order.Group.Multiset
import Mathlib.Algebra.Order.Ring.Nat

/-!
# Custody of resources

Programs that take resources from a common stock and give them back.  Asking
for one may be refused.  A program runs beside others that use the same stock,
so what it gets is not determined by what it did before; what it holds is.

`Accounts` is the weakest precondition of a program in terms of what it holds:
it gives back only what it holds, does not halt, and ends holding what its
postcondition says.  What a program holds beyond its needs is not touched.
-/

namespace Xv6KernelEvent.Custody

inductive Program (Resource Outcome : Type) where
  | done (outcome : Outcome)
  | acquire (next : Option Resource → Program Resource Outcome)
  | release (resource : Resource) (next : Program Resource Outcome)
  | halt (reason : String)

variable {Resource Outcome Other : Type}

namespace Program

def bind (next : Outcome → Program Resource Other) :
    Program Resource Outcome → Program Resource Other
  | .done outcome => next outcome
  | .acquire choose => .acquire fun result => bind next (choose result)
  | .release resource rest => .release resource (bind next rest)
  | .halt reason => .halt reason

instance : Monad (Program Resource) where
  pure := .done
  bind program next := program.bind next

theorem pure_bind (value : Outcome) (next : Outcome → Program Resource Other) :
    (pure value >>= next) = next value := rfl

theorem bind_done (program : Program Resource Outcome) : program.bind .done = program := by
  induction program with
  | done outcome | halt reason => rfl
  | acquire next induction =>
    simp only [bind]
    congr 1
    funext result
    exact induction result
  | release resource next induction =>
    simp only [bind]
    rw [induction]

/-- Runs a program with nobody else taking from or giving to the stock. -/
def execute : Program Resource Outcome → List Resource → Except String (Outcome × List Resource)
  | .done outcome, free => .ok (outcome, free)
  | .acquire next, [] => (next none).execute []
  | .acquire next, resource :: free => (next (some resource)).execute free
  | .release resource next, free => next.execute (resource :: free)
  | .halt reason, _ => .error reason

theorem execute_bind (program : Program Resource Outcome)
    (next : Outcome → Program Resource Other) (free : List Resource) :
    (program >>= next).execute free = match program.execute free with
      | .ok (outcome, rest) => (next outcome).execute rest
      | .error reason => .error reason := by
  change (program.bind next).execute free = _
  induction program generalizing free with
  | done outcome | halt reason => rfl
  | acquire choose induction =>
    cases free with
    | nil => exact induction none []
    | cons resource free => exact induction (some resource) free
  | release resource rest induction => exact induction (resource :: free)

end Program

def acquire : Program Resource (Option Resource) := .acquire .done

def release (resource : Resource) : Program Resource Unit := .release resource (.done ())

def halt (reason : String) : Program Resource Outcome := .halt reason

/-- Runs a program for each index in turn. -/
def forEach (body : Nat → Program Resource Unit) : Nat → Program Resource Unit
  | 0 => pure ()
  | count + 1 => do
    forEach body count
    body count

theorem forEach_zero (body : Nat → Program Resource Unit) : forEach body 0 = pure () := rfl

theorem forEach_succ (body : Nat → Program Resource Unit) (count : Nat) :
    forEach body (count + 1) = (forEach body count >>= fun _ => body count) :=
  rfl

/-- Every outcome of the program has the property, whatever it is granted. -/
def Always (post : Outcome → Prop) : Program Resource Outcome → Prop
  | .done outcome => post outcome
  | .acquire next => ∀ result, Always post (next result)
  | .release _ next => Always post next
  | .halt _ => True

namespace Always

variable {post : Outcome → Prop}

theorem seq {next : Outcome → Program Resource Other} {last : Other → Prop}
    (first : Always post program) (second : ∀ outcome, post outcome → Always last (next outcome)) :
    Always last (program >>= next) := by
  change Always last (program.bind next)
  induction program with
  | done outcome => exact second outcome first
  | acquire choose induction => exact fun result => induction result (first result)
  | release resource rest induction => exact induction first
  | halt reason => trivial

theorem mono {weaker : Outcome → Prop} (always : Always post program)
    (implies : ∀ outcome, post outcome → weaker outcome) : Always weaker program := by
  induction program with
  | done outcome => exact implies outcome always
  | acquire choose induction => exact fun result => induction result (always result)
  | release resource rest induction => exact induction always
  | halt reason => trivial

theorem execute (always : Always post program)
    (executes : program.execute free = .ok (outcome, remaining)) : post outcome := by
  induction program generalizing free with
  | done result =>
    cases executes
    exact always
  | acquire next induction =>
    cases free with
    | nil => exact induction none (always none) executes
    | cons resource free => exact induction (some resource) (always (some resource)) executes
  | release resource next induction => exact induction always executes
  | halt reason => cases executes

end Always

/-- The program keeps account of what it holds, out of a `stock` of all the
resources there are. -/
def Accounts (stock : Multiset Resource) (post : Outcome → Multiset Resource → Prop) :
    Multiset Resource → Program Resource Outcome → Prop
  | held, .done outcome => post outcome held
  | held, .acquire next =>
    Accounts stock post held (next none) ∧ ∀ resource, resource ::ₘ held ≤ stock →
        Accounts stock post (resource ::ₘ held) (next (some resource))
  | held, .release resource next => ∃ rest, held = resource ::ₘ rest ∧ Accounts stock post rest next
  | _, .halt _ => False

namespace Accounts

variable {post weaker : Outcome → Multiset Resource → Prop}

theorem mono (accounts : Accounts stock post held program)
    (implies : ∀ outcome rest, post outcome rest → weaker outcome rest) :
    Accounts stock weaker held program := by
  induction program generalizing held with
  | done outcome => exact implies outcome held accounts
  | acquire next induction =>
    exact ⟨induction none accounts.1, fun resource available =>
      induction (some resource) (accounts.2 resource available)⟩
  | release resource next induction =>
    obtain ⟨rest, holds, accounts⟩ := accounts
    exact ⟨rest, holds, induction accounts⟩
  | halt reason => exact accounts

/-- The rule of sequential composition. -/
theorem bind {next : Outcome → Program Resource Other} {post : Other → Multiset Resource → Prop}
    (accounts : Accounts stock (fun outcome rest => Accounts stock post rest (next outcome))
      held program) : Accounts stock post held (program >>= next) := by
  change Accounts stock post held (program.bind next)
  induction program generalizing held with
  | done outcome | halt reason => exact accounts
  | acquire choose induction =>
    exact ⟨induction none accounts.1, fun resource available =>
      induction (some resource) (accounts.2 resource available)⟩
  | release resource rest induction =>
    obtain ⟨remaining, holds, accounts⟩ := accounts
    exact ⟨remaining, holds, induction accounts⟩

/-- Sequential composition with what the first program is known to leave. -/
theorem seq {next : Outcome → Program Resource Other} {last : Other → Multiset Resource → Prop}
    (first : Accounts stock post held program)
    (second : ∀ outcome rest, post outcome rest → Accounts stock last rest (next outcome)) :
    Accounts stock last held (program >>= next) :=
  bind (first.mono second)

/-- The frame rule. -/
theorem frame (accounts : Accounts stock post held program) (others : Multiset Resource) :
    Accounts stock (fun outcome all => ∃ rest, all = rest + others ∧ post outcome rest)
      (held + others) program := by
  induction program generalizing held with
  | done outcome => exact ⟨held, rfl, accounts⟩
  | acquire next induction =>
    refine ⟨induction none accounts.1, ?_⟩
    intro resource available
    rw [← Multiset.cons_add] at available ⊢
    exact induction (some resource) (accounts.2 resource
      (le_trans (Multiset.le_add_right _ _) available))
  | release resource next induction =>
    obtain ⟨rest, holds, accounts⟩ := accounts
    refine ⟨rest + others, ?_, induction accounts⟩
    rw [holds, Multiset.cons_add]
  | halt reason => exact accounts

/-- The rule of sequential composition for a first program that needs only a
part of what is held. -/
theorem seq_frame (first : Accounts stock post part program) (whole : held = part + others)
    (second : ∀ outcome rest, post outcome rest →
      Accounts stock last (rest + others) (next outcome)) :
    Accounts stock last held (program >>= next) := by
  rw [whole]
  refine (first.frame others).seq ?_
  rintro outcome all ⟨rest, rfl, holds⟩
  exact second outcome rest holds

theorem acquire_seq (refused : Accounts stock post held (next none))
    (granted : ∀ resource, resource ::ₘ held ≤ stock →
      Accounts stock post (resource ::ₘ held) (next (some resource))) :
    Accounts stock post held (acquire >>= next) :=
  ⟨refused, granted⟩

theorem release_seq (holds : held = resource ::ₘ rest)
    (later : Accounts stock post rest (next ())) :
    Accounts stock post held (release resource >>= next) :=
  ⟨rest, holds, later⟩

/-- A loop whose rounds dispose of their shares disposes of everything. -/
theorem forEach {body : Nat → Program Resource Unit} {share : Nat → Multiset Resource} (count : Nat)
    (each : ∀ index < count, Accounts stock (fun _ rest => rest = 0) (share index) (body index)) :
    Accounts stock (fun _ rest => rest = 0)
      (∑ index ∈ Finset.range count, share index) (forEach body count) := by
  induction count with
  | zero => exact rfl
  | succ count induction =>
    rw [Finset.sum_range_succ]
    refine (induction fun index below => each index (Nat.lt_succ_of_lt below)).seq_frame rfl ?_
    rintro - rest rfl
    rw [zero_add]
    exact each count (Nat.lt_succ_self count)

/-- A program that keeps account and runs alone comes to its end, with what it
holds and what is free making up what there was. -/
theorem execute (accounts : Accounts stock post held program) (free : List Resource)
    (within : held + free ≤ stock) :
    ∃ outcome rest remaining, program.execute free = .ok (outcome, remaining) ∧ post outcome rest ∧
        rest + (remaining : Multiset Resource) = held + free := by
  induction program generalizing held free with
  | done outcome => exact ⟨outcome, held, free, rfl, accounts, rfl⟩
  | acquire next induction =>
    cases free with
    | nil => exact induction none accounts.1 [] within
    | cons resource free =>
      have moved : resource ::ₘ held + (free : Multiset Resource) = held + ↑(resource :: free) := by
        rw [← Multiset.cons_coe, Multiset.cons_add, Multiset.add_cons]
      have available : resource ::ₘ held ≤ stock := by
        refine le_trans (Multiset.le_add_right _ free) ?_
        rwa [moved]
      obtain ⟨outcome, rest, remaining, executes, holds, kept⟩ :=
        induction (some resource) (accounts.2 resource available) free (by rwa [moved])
      exact ⟨outcome, rest, remaining, executes, holds, kept.trans moved⟩
  | release resource next induction =>
    obtain ⟨rest, rfl, accounts⟩ := accounts
    have moved : rest + ((resource :: free : List Resource) :
        Multiset Resource) = resource ::ₘ rest + free := by
      rw [← Multiset.cons_coe, Multiset.cons_add, Multiset.add_cons]
    obtain ⟨outcome, last, remaining, executes, holds, kept⟩ :=
      induction accounts (resource :: free) (by rwa [moved])
    exact ⟨outcome, last, remaining, executes, holds, kept.trans moved⟩
  | halt reason => exact accounts.elim

end Accounts

-- Loops over whole tables are never unrolled.
attribute [irreducible] forEach

section Cells

/-- The shares of all holders when one of them changes. -/
theorem sum_update {Holder : Type} (share : Holder → Multiset Resource)
    (holder : Nat → Holder) (below : index < size) (value : Holder) :
    ∑ other ∈ Finset.range size, share (Function.update holder index value other) +
        share (holder index) =
      ∑ other ∈ Finset.range size, share (holder other) + share value := by
  have member : index ∈ Finset.range size := Finset.mem_range.mpr below
  rw [← Finset.add_sum_erase _ _ member, ← Finset.add_sum_erase (Finset.range size) (fun other =>
      share (holder other)) member, Function.update_self]
  have rest : ∑ other ∈ (Finset.range size).erase index,
      share (Function.update holder index value other) =
      ∑ other ∈ (Finset.range size).erase index, share (holder other) := by
    apply Finset.sum_congr rfl
    intro other inside
    rw [Function.update_of_ne (Finset.ne_of_mem_erase inside)]
  rw [rest, add_right_comm, add_comm (share value), add_right_comm]

/-- Where nothing is held twice, a resource has one holder. -/
theorem unique_of_nodup_sum {Holder : Type} [DecidableEq Holder] {holders : Finset Holder}
    {share : Holder → Multiset Resource} {first second : Holder} {resource : Resource}
    (distinct : (∑ holder ∈ holders, share holder).Nodup)
    (first_mem : first ∈ holders) (second_mem : second ∈ holders)
    (with_first : resource ∈ share first)
    (with_second : resource ∈ share second) : first = second := by
  by_contra differs
  rw [← Finset.add_sum_erase _ _ first_mem, Multiset.nodup_add] at distinct
  have others : second ∈ holders.erase first :=
    Finset.mem_erase.mpr ⟨fun same => differs same.symm, second_mem⟩
  exact Multiset.disjoint_left.mp distinct.2.2 with_first
    (Multiset.mem_sum.mpr ⟨second, others, with_second⟩)

/-- The converse: what is held once by one holder is held once. -/
theorem nodup_sum {Holder : Type} [DecidableEq Holder] {holders : Finset Holder}
    {share : Holder → Multiset Resource} (each : ∀ holder ∈ holders, (share holder).Nodup)
    (unique : ∀ first ∈ holders, ∀ second ∈ holders, ∀ resource,
      resource ∈ share first → resource ∈ share second → first = second) :
    (∑ holder ∈ holders, share holder).Nodup := by
  induction holders using Finset.induction_on with
  | empty => exact Multiset.nodup_zero
  | insert holder holders fresh induction =>
    rw [Finset.sum_insert fresh, Multiset.nodup_add]
    refine ⟨each holder (Finset.mem_insert_self _ _), ?_, ?_⟩
    · exact induction (fun other member => each other (Finset.mem_insert_of_mem member))
        fun first first_mem second second_mem => unique first
          (Finset.mem_insert_of_mem first_mem) second
          (Finset.mem_insert_of_mem second_mem)
    · rw [Multiset.disjoint_left]
      intro resource held shared
      obtain ⟨other, member, inside⟩ := Multiset.mem_sum.mp shared
      have same := unique holder (Finset.mem_insert_self _ _) other
        (Finset.mem_insert_of_mem member) resource held inside
      exact fresh (same ▸ member)

/-- What lies in the first cells of a table. -/
@[irreducible]
def contents (size : Nat) (cell : Nat → Option Resource) : Multiset Resource :=
  ∑ index ∈ Finset.range size, (cell index).elim 0 fun resource => {resource}

variable {cell : Nat → Option Resource}

theorem contents_congr (same : ∀ index < size, cell index = other index) :
    contents size cell = contents size other := by
  rw [contents, contents]
  apply Finset.sum_congr rfl
  intro index member
  rw [same index (Finset.mem_range.mp member)]

theorem contents_update (below : index < size) (value : Option Resource) :
    contents size (Function.update cell index value) +
        (cell index).elim 0 (fun resource => {resource}) =
      contents size cell + value.elim 0 fun resource => {resource} := by
  rw [contents, contents]
  exact sum_update (fun entry : Option Resource =>
    entry.elim 0 fun resource => {resource}) cell below value

theorem contents_put (below : index < size) (absent : cell index = none) (resource : Resource) :
    contents size (Function.update cell index (some resource)) =
      resource ::ₘ contents size cell := by
  have exchanged : _ = contents size cell + _ := contents_update below (some resource)
  rwa [absent, Option.elim_none, add_zero, Option.elim_some, add_comm,
    Multiset.singleton_add] at exchanged

theorem contents_take (below : index < size) (present : cell index = some resource) :
    contents size cell = resource ::ₘ contents size (Function.update cell index none) := by
  have exchanged : _ = contents size cell + _ := contents_update below none
  rw [present, Option.elim_none, add_zero, Option.elim_some, add_comm,
    Multiset.singleton_add] at exchanged
  exact exchanged.symm

theorem mem_contents : resource ∈ contents size cell ↔
      ∃ index < size, cell index = some resource := by
  rw [contents, Multiset.mem_sum]
  constructor
  · rintro ⟨index, member, inside⟩
    refine ⟨index, Finset.mem_range.mp member, ?_⟩
    cases present : cell index with
    | none => simp [present] at inside
    | some found =>
      rw [present, Option.elim_some, Multiset.mem_singleton] at inside
      rw [inside]
  · rintro ⟨index, below, present⟩
    refine ⟨index, Finset.mem_range.mpr below, ?_⟩
    rw [present, Option.elim_some]
    exact Multiset.mem_singleton_self resource

/-- In a table without repetition a resource lies in one cell. -/
theorem contents_injective (distinct : (contents size cell).Nodup)
    (first_lt : first < size) (second_lt : second < size) (at_first : cell first = some resource)
    (at_second : cell second = some resource) : first = second := by
  by_contra differs
  rw [contents_take first_lt at_first, Multiset.nodup_cons] at distinct
  apply distinct.1
  rw [mem_contents]
  refine ⟨second, second_lt, ?_⟩
  rw [Function.update_of_ne (fun same => differs same.symm), at_second]

theorem nodup_contents (injective : ∀ first < size, ∀ second < size, ∀ resource,
      cell first = some resource → cell second = some resource →
      first = second) : (contents size cell).Nodup := by
  have member : ∀ index resource,
      resource ∈ (cell index).elim 0 (fun found => ({found} : Multiset Resource)) →
      cell index = some resource := by
    intro index resource inside
    cases present : cell index with
    | none => simp [present] at inside
    | some found =>
      rw [present, Option.elim_some, Multiset.mem_singleton] at inside
      rw [inside]
  rw [contents]
  apply nodup_sum
  · intro index _
    cases cell index with
    | none => exact Multiset.nodup_zero
    | some found => exact Multiset.nodup_singleton found
  · intro first first_mem second second_mem resource with_first with_second
    exact injective first (Finset.mem_range.mp first_mem) second
      (Finset.mem_range.mp second_mem) resource (member first resource with_first)
      (member second resource with_second)

theorem le_card_contents (le : count ≤ size) (filled : ∀ index < count, cell index ≠ none) :
    count ≤ (contents size cell).card := by
  rw [contents, Multiset.card_sum]
  calc count = ∑ _ ∈ Finset.range count, 1 := by rw [← Finset.card_eq_sum_ones, Finset.card_range]
    _ ≤ ∑ index ∈ Finset.range count, Multiset.card
          ((cell index).elim 0 fun resource => {resource}) := by
        apply Finset.sum_le_sum
        intro index member
        obtain ⟨resource, present⟩ := Option.ne_none_iff_exists'.mp
          (filled index (Finset.mem_range.mp member))
        rw [present]
        rfl
    _ ≤ ∑ index ∈ Finset.range size, Multiset.card
          ((cell index).elim 0 fun resource => {resource}) :=
        Finset.sum_le_sum_of_subset (Finset.range_mono le)

theorem contents_eq_filterMap (size : Nat) (cell : Nat → Option Resource) :
    contents size cell = ((List.range size).filterMap cell :) := by
  induction size with
  | zero => rw [contents]; rfl
  | succ size induction =>
    rw [contents] at induction ⊢
    rw [Finset.sum_range_succ, induction, List.range_succ,
      List.filterMap_append, ← Multiset.coe_add]
    congr 1
    cases present : cell size <;> simp [present]

theorem contents_none : contents size (fun _ => (none : Option Resource)) = 0 := by simp [contents]

end Cells

end Xv6KernelEvent.Custody

import Mathlib.Logic.Function.Basic

/-!
# A store with atomic groups of updates

The purpose of a redo log, without a log: updates are collected in the current
group, a commit makes the whole group durable at once, and a crash forgets the
current group.  A ledger keeps the durable groups in commit order, so that the
durable contents are those of the initial store after all of them.
-/

namespace Xv6KernelEvent.AtomicStore

variable {ι β : Type}

structure Ledger (ι β : Type) where
  initial : ι → β
  groups : List (List (ι × β))
  current : List (ι × β)

variable [DecidableEq ι]

/-- The contents after some updates, the last one to an address counting. -/
def applyUpdates (contents : ι → β) (updates : List (ι × β)) : ι → β :=
  updates.foldl (fun contents update => Function.update contents update.1 update.2) contents

namespace Ledger

def empty (initial : ι → β) : Ledger ι β := { initial := initial, groups := [], current := [] }

/-- The contents that survive a crash. -/
def durable (ledger : Ledger ι β) : ι → β := applyUpdates ledger.initial ledger.groups.flatten

/-- The contents that a reader sees. -/
def logical (ledger : Ledger ι β) : ι → β := applyUpdates ledger.durable ledger.current

def record (ledger : Ledger ι β) (address : ι) (value : β) : Ledger ι β :=
  { ledger with current := ledger.current ++ [(address, value)] }

def commit (ledger : Ledger ι β) : Ledger ι β :=
  { ledger with
    groups := ledger.groups ++ [ledger.current]
    current := [] }

def crash (ledger : Ledger ι β) : Ledger ι β := { ledger with current := [] }

@[simp] theorem logical_crash (ledger : Ledger ι β) : ledger.crash.logical = ledger.durable := rfl

@[simp] theorem logical_record (ledger : Ledger ι β) (address : ι) (value : β) :
    (ledger.record address value).logical = Function.update ledger.logical address value := by
  simp [logical, record, durable, applyUpdates]

@[simp] theorem durable_commit (ledger : Ledger ι β) : ledger.commit.durable = ledger.logical := by
  simp [logical, durable, commit, applyUpdates, List.foldl_append]

@[simp] theorem logical_commit (ledger : Ledger ι β) : ledger.commit.logical = ledger.logical := by
  have durable := durable_commit ledger
  simp only [logical, commit, applyUpdates, List.foldl_nil] at durable ⊢
  exact durable

@[simp] theorem logical_empty (initial : ι → β) : (empty initial).logical = initial := rfl

@[simp] theorem durable_empty (initial : ι → β) : (empty initial).durable = initial := rfl

end Ledger

end Xv6KernelEvent.AtomicStore

import Mathlib.Data.List.Nodup
import Mathlib.Logic.Function.Basic

/-!
# Circular doubly linked lists

Nodes are connected by `prev` and `next` links, one of them being the head of
the ring.  A ring is described by the list of its other nodes in the order of
`next`; inserting behind the head and unlinking a node change that list, and a
search that follows the links is a search in the list.
-/

namespace Xv6KernelEvent.LinkedRing

variable {α : Type}

structure Links (α : Type) where
  prev : α → α
  next : α → α

namespace Links

/-- The links lead from one node over a list of nodes to another one, and
back. -/
def Path (links : Links α) : α → List α → α → Prop
  | first, [], last => links.next first = last ∧ links.prev last = first
  | first, node :: nodes, last =>
    links.next first = node ∧ links.prev node = first ∧ links.Path node nodes last

/-- The ring of `head` and `nodes`. -/
structure IsRing (links : Links α) (head : α) (nodes : List α) : Prop where
  path : links.Path head nodes head
  distinct : (head :: nodes).Nodup

def flip (links : Links α) : Links α := { prev := links.next, next := links.prev }

section

variable {links : Links α} {first middle last : α} {nodes front back : List α}

theorem path_append : links.Path first (front ++ middle :: back) last ↔
      links.Path first front middle ∧ links.Path middle back last := by
  induction front generalizing first with
  | nil => simp [Path, and_assoc]
  | cons node front induction => simp only [List.cons_append, Path, induction, and_assoc]

section

variable (path : links.Path first nodes last)

include path

/-- Only the links of the nodes on the way matter. -/
theorem Path.congr {other : Links α}
    (next : ∀ node ∈ first :: nodes, other.next node = links.next node)
    (prev : ∀ node ∈ nodes ++ [last], other.prev node = links.prev node) :
    other.Path first nodes last := by
  induction nodes generalizing first with
  | nil =>
    obtain ⟨forth, back⟩ := path
    exact ⟨(next first (by simp)).trans forth, (prev last (by simp)).trans back⟩
  | cons node nodes induction =>
    obtain ⟨forth, back, rest⟩ := path
    refine ⟨(next first (by simp)).trans forth,
      (prev node (by simp)).trans back, induction rest ?_ ?_⟩
    · intro other member
      exact next other (List.mem_cons_of_mem _ member)
    · intro other member
      exact prev other (List.mem_cons_of_mem _ member)

theorem Path.next_mem : links.next first ∈ nodes ++ [last] := by
  cases nodes with
  | nil | cons node nodes => simp [path.1]

theorem Path.flip : links.flip.Path last nodes.reverse first := by
  induction nodes generalizing first with
  | nil => exact ⟨path.2, path.1⟩
  | cons node nodes induction =>
    obtain ⟨forth, back, rest⟩ := path
    rw [List.reverse_cons, path_append]
    exact ⟨induction rest, back, forth⟩

theorem Path.prev_mem : links.prev last ∈ first :: nodes := by
  have member : links.prev last ∈ nodes.reverse ++ [first] := path.flip.next_mem
  simpa [or_comm] using member

/-- The last link of a path may lead elsewhere. -/
theorem Path.redirect {other : Links α} {target : α} (distinct : (first :: nodes).Nodup)
    (next : ∀ node ∈ first :: nodes, node ≠ links.prev last → other.next node = links.next node)
    (prev : ∀ node ∈ nodes, other.prev node = links.prev node)
    (forth : other.next (links.prev last) = target) (back : other.prev target = links.prev last) :
    other.Path first nodes target := by
  induction nodes generalizing first with
  | nil =>
    rw [path.2] at forth back
    exact ⟨forth, back⟩
  | cons node nodes induction =>
    obtain ⟨link, linkBack, rest⟩ := path
    obtain ⟨firstFresh, nodup⟩ := List.nodup_cons.mp distinct
    have inner : first ≠ links.prev last := by
      intro same
      exact firstFresh (same ▸ rest.prev_mem)
    refine ⟨(next first (by simp) inner).trans link,
      (prev node (by simp)).trans linkBack, induction rest nodup ?_ ?_⟩
    · intro inside member
      exact next inside (List.mem_cons_of_mem _ member)
    · intro inside member
      exact prev inside (List.mem_cons_of_mem _ member)

end

end

variable [DecidableEq α]

/-- `node` goes between `head` and the node behind it. -/
def insertAfter (links : Links α) (head node : α) : Links α :=
  { prev := Function.update (Function.update links.prev node head)
      (links.next head) node
    next := Function.update (Function.update links.next node (links.next head)) head node }

/-- The neighbours of `node` are linked to each other. -/
def unlink (links : Links α) (node : α) : Links α :=
  let prev := Function.update links.prev (links.next node) (links.prev node)
  { prev := prev
    next := Function.update links.next (prev node) (links.next node) }

variable {links : Links α} {head node : α} {nodes : List α}

theorem IsRing.insertAfter (ring : links.IsRing head nodes) (fresh : node ∉ head :: nodes) :
    (links.insertAfter head node).IsRing head (node :: nodes) := by
  obtain ⟨path, distinct⟩ := ring
  obtain ⟨headFresh, nodup⟩ := List.nodup_cons.mp distinct
  have away : node ≠ head := fun same => fresh (by simp [same])
  refine ⟨?_, ?_⟩
  · have behind : links.next head ≠ node := by
      rintro rfl
      refine fresh ?_
      simpa [or_comm] using path.next_mem
    refine ⟨by simp [Links.insertAfter], ?_, ?_⟩
    · simp [Links.insertAfter, behind.symm]
    · cases nodes with
      | nil =>
        have self : links.next head = head := path.1
        exact ⟨by simp [Links.insertAfter, away, self], by simp [Links.insertAfter, self]⟩
      | cons first rest =>
        obtain ⟨forth, -, tail⟩ := path
        refine ⟨by simp [Links.insertAfter, away, forth],
          by simp [Links.insertAfter, forth], tail.congr ?_ ?_⟩
        · intro other member
          have notHead : other ≠ head := by
            rintro rfl
            exact headFresh member
          have notNode : other ≠ node := by
            rintro rfl
            exact fresh (List.mem_cons_of_mem _ member)
          simp [Links.insertAfter, notHead, notNode]
        · intro other member
          have notFirst : other ≠ first := by
            rintro rfl
            rcases List.mem_append.mp member with inside | last
            · exact (List.nodup_cons.mp nodup).1 inside
            · rw [List.mem_singleton] at last
              exact headFresh (last ▸ List.mem_cons_self)
          have notNode : other ≠ node := by
            rintro rfl
            refine fresh ?_
            rcases List.mem_append.mp member with inside | last
            · simp [inside]
            · simp [List.mem_singleton.mp last]
          simp [Links.insertAfter, forth, notFirst, notNode]
  · rw [(List.Perm.swap node head nodes).nodup_iff]
    exact List.nodup_cons.mpr ⟨fresh, distinct⟩

theorem IsRing.unlink {front back : List α} (ring : links.IsRing head (front ++ node :: back)) :
    (links.unlink node).IsRing head (front ++ back) := by
  obtain ⟨path, distinct⟩ := ring
  obtain ⟨before, after⟩ := path_append.mp path
  have sublist : List.Sublist (head :: (front ++ back)) (head :: (front ++ node :: back)) :=
    ((List.sublist_cons_self node back).append_left front).cons_cons head
  refine ⟨?_, distinct.sublist sublist⟩
  obtain ⟨headFresh, inner⟩ := List.nodup_cons.mp distinct
  obtain ⟨frontNodup, backNodup, apart⟩ := List.nodup_append.mp inner
  obtain ⟨nodeFresh, -⟩ := List.nodup_cons.mp backNodup
  simp only [List.mem_append, List.mem_cons, not_or] at headFresh
  have nextMember := after.next_mem
  have prevMember := before.prev_mem
  have nextNode : links.next node ≠ node := by
    intro same
    rw [same] at nextMember
    simp only [List.mem_append, List.mem_singleton] at nextMember
    rcases nextMember with inside | isHead
    · exact nodeFresh inside
    · exact headFresh.2.1 isHead.symm
  have forth : (links.unlink node).next (links.prev node) = links.next node := by
    simp [Links.unlink, nextNode.symm]
  have backwards : (links.unlink node).prev (links.next node) = links.prev node := by
    simp [Links.unlink]
  have nextKept : ∀ other, other ≠ links.prev node →
      (links.unlink node).next other = links.next other := by
    intro other differs
    simp [Links.unlink, nextNode.symm, differs]
  have prevElse : ∀ other, other ≠ links.next node →
      (links.unlink node).prev other = links.prev other := by
    intro other differs
    simp [Links.unlink, differs]
  have way : (links.unlink node).Path head front (links.next node) := by
    refine before.redirect (List.nodup_cons.mpr ⟨headFresh.1, frontNodup⟩)
      (fun other _ differs => nextKept other differs) ?_ forth backwards
    intro other member
    refine prevElse other ?_
    rintro rfl
    rcases List.mem_append.mp nextMember with inside | isHead
    · exact apart _ member _ (List.mem_cons_of_mem _ inside) rfl
    · exact headFresh.1 (List.mem_singleton.mp isHead ▸ member)
  cases back with
  | nil =>
    rw [after.1] at way
    rwa [List.append_nil]
  | cons next rest =>
    obtain ⟨link, -, tail⟩ := after
    rw [link] at way
    refine path_append.mpr ⟨way, tail.congr ?_ ?_⟩
    · intro other member
      refine nextKept other ?_
      rintro rfl
      rcases List.mem_cons.mp prevMember with isHead | inside
      · exact headFresh.2.2 (isHead ▸ member)
      · exact apart _ inside _ (List.mem_cons_of_mem _ member) rfl
    · intro other member
      refine prevElse other ?_
      rw [link]
      rintro rfl
      have nextFresh := (List.nodup_cons.mp (List.nodup_cons.mp backNodup).2).1
      rcases List.mem_append.mp member with inside | isHead
      · exact nextFresh inside
      · exact headFresh.2.2 (List.mem_singleton.mp isHead ▸ List.mem_cons_self)

/-- Following links from a node until the head, looking for a node that passes
a test.  The first argument bounds the number of nodes visited. -/
def search (follow : α → α) (head : α) (test : α → Bool) : Nat → α → Option α
  | 0, _ => none
  | fuel + 1, node =>
    if node = head then none
    else if test node then some node
    else search follow head test fuel (follow node)

theorem Path.search (path : links.Path first nodes head) (outside : head ∉ nodes)
    (test : α → Bool) (enough : nodes.length < fuel) :
    search links.next head test fuel (links.next first) = nodes.find? test := by
  induction nodes generalizing first fuel with
  | nil =>
    obtain ⟨fuel, rfl⟩ := Nat.exists_eq_add_of_lt enough
    simp [Links.search, path.1]
  | cons node nodes induction =>
    obtain ⟨link, -, rest⟩ := path
    cases fuel with
    | zero => simp at enough
    | succ fuel =>
      have notHead : node ≠ head := by
        rintro rfl
        exact outside List.mem_cons_self
      have shorter := induction rest (fun member => outside (List.mem_cons_of_mem _ member))
        (Nat.lt_of_succ_lt_succ enough)
      rw [link, Links.search, if_neg notHead, List.find?_cons, shorter]
      cases test node <;> rfl

theorem IsRing.search_next (ring : links.IsRing head nodes) (test : α → Bool)
    (enough : nodes.length < fuel) :
    search links.next head test fuel (links.next head) = nodes.find? test :=
  ring.path.search (List.nodup_cons.mp ring.distinct).1 test enough

theorem IsRing.search_prev (ring : links.IsRing head nodes) (test : α → Bool)
    (enough : nodes.length < fuel) :
    search links.prev head test fuel (links.prev head) = nodes.reverse.find? test := by
  refine ring.path.flip.search ?_ test (by simpa using enough)
  rw [List.mem_reverse]
  exact (List.nodup_cons.mp ring.distinct).1

end Links

end Xv6KernelEvent.LinkedRing

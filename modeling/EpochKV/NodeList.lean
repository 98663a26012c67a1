/-
Doubly linked lists whose nodes keep their address (`std::list`).

A list is the sequence of its nodes, each with the position an iterator to it has. Nodes are
put in at the front, taken out and moved to the front through an iterator; none of these
changes the position of another node. All that a user of iterators needs is that positions
are `Distinct` and what the members are after each change. Positions come from an
`Allocator`, of which nothing is known but that it does not hand out one that is in use; one
that was given back may come again.
-/
import Mathlib.Data.List.Nodup

set_option autoImplicit false

namespace EpochKV

/-- An iterator. -/
abbrev Pos := Nat

/-- Picks a position that is not in use; what it picks may depend on how often it was asked. -/
structure Allocator where
  pick : Nat → List Pos → Pos
  unused : ∀ n inUse, pick n inUse ∉ inUse

/-- The nodes from the front to the back, each with its position. -/
abbrev NodeList (α : Type) := List (Pos × α)

namespace NodeList

variable {α : Type} {l : NodeList α} {pos p : Pos} {x y : α}

def positions (l : NodeList α) : List Pos := l.map Prod.fst

def erase (l : NodeList α) (pos : Pos) : NodeList α := l.filter fun n => n.1 ≠ pos

/-- `l.splice(l.begin(), l, pos)`. -/
def splice (l : NodeList α) (pos : Pos) : NodeList α := l.filter (fun n => n.1 = pos) ++ l.erase pos

/-- What the iterator points at. -/
def deref (l : NodeList α) (pos : Pos) : Option α := (l.find? fun n => n.1 = pos).map Prod.snd

/-- No two nodes have the same position. -/
def Distinct (l : NodeList α) : Prop := l.positions.Nodup

theorem distinct_nil : Distinct ([] : NodeList α) := List.nodup_nil

@[simp] theorem mem_erase : (p, x) ∈ l.erase pos ↔ (p, x) ∈ l ∧ p ≠ pos := by
  simp [erase]

theorem Distinct.erase (h : l.Distinct) (pos : Pos) : (l.erase pos).Distinct :=
  (List.filter_sublist.map Prod.fst).nodup h

/-- Moving a node to the front changes the order and nothing else. -/
theorem splice_perm (l : NodeList α) (pos : Pos) : (l.splice pos).Perm l := by
  have h := List.filter_append_perm (fun n : Pos × α => n.1 = pos) l
  simpa [splice, NodeList.erase] using h

@[simp] theorem mem_splice : (p, x) ∈ l.splice pos ↔ (p, x) ∈ l := (splice_perm l pos).mem_iff

section

variable (h : l.Distinct)
include h

theorem Distinct.splice (pos : Pos) : (l.splice pos).Distinct :=
  ((splice_perm l pos).map Prod.fst).nodup_iff.2 h

theorem Distinct.cons (hpos : pos ∉ l.positions) (x : α) : Distinct ((pos, x) :: l) :=
  List.nodup_cons.2 ⟨hpos, h⟩

/-- There is one node at a position. -/
theorem Distinct.unique (hx : (p, x) ∈ l) (hy : (p, y) ∈ l) : x = y :=
  congrArg Prod.snd (List.inj_on_of_nodup_map h hx hy rfl)

/-- An iterator to a node of the list finds it. -/
theorem Distinct.deref (hx : (p, x) ∈ l) : l.deref p = some x := by
  have hfound : (l.find? fun n => n.1 = p).isSome := by
    rw [List.find?_isSome]
    exact ⟨_, hx, by simp⟩
  obtain ⟨n, hn⟩ := Option.isSome_iff_exists.1 hfound
  have hpos : n.1 = p := by simpa using List.find?_some hn
  have hmem : (p, n.2) ∈ l := by
    rw [← hpos]
    exact List.mem_of_find?_eq_some hn
  rw [NodeList.deref, hn, Option.map_some, h.unique hmem hx]

/-- Nodes at distinct positions hold distinct values if a value tells its position. -/
theorem Distinct.values_nodup (hinj : ∀ n ∈ l, ∀ m ∈ l, n.2 = m.2 → n.1 = m.1) :
    (l.map Prod.snd).Nodup := by
  refine List.Nodup.map_on ?_ h.of_map
  intro n hn m hm heq
  exact Prod.ext (hinj n hn m hm heq) heq

end

end NodeList

end EpochKV

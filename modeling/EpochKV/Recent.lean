/-
Lists in order of last use.

A history says for each step which value it used, if any, the latest step first. A list is in
order of last use if the values at its front were used later, and a step that keeps it so can
do two things: move the value that it uses to the front, and leave values out.
-/
import Mathlib.Data.List.Pairwise
import Mathlib.Data.List.Sublists

set_option autoImplicit false

namespace EpochKV.Recent

variable {α : Type} [DecidableEq α] {history : List (Option α)} {l l' : List α} {a b : α}

/-- How many steps ago `a` was used. -/
def age (history : List (Option α)) (a : α) : Nat := history.idxOf (some a)

theorem age_self (history : List (Option α)) (a : α) : age (some a :: history) a = 0 :=
  List.idxOf_cons_self

theorem age_other (h : b ≠ a) (history : List (Option α)) :
    age (some b :: history) a = age history a + 1 :=
  List.idxOf_cons_ne _ fun he => h (Option.some.inj he)

/-- In order of last use. -/
structure Ordered (history : List (Option α)) (l : List α) : Prop where
  used : ∀ a ∈ l, some a ∈ history
  order : l.Pairwise fun a b => age history a < age history b

theorem Ordered.nil : Ordered history ([] : List α) := ⟨fun _ => nofun, List.Pairwise.nil⟩

theorem Ordered.sublist (h : Ordered history l) (hl : l'.Sublist l) : Ordered history l' :=
  ⟨fun a ha => h.used a (hl.subset ha), h.order.sublist hl⟩

variable {u : Option α}

section

variable (h : Ordered history l)
include h

/-- A step that uses nothing in the list. -/
theorem Ordered.later (hu : ∀ a ∈ l, u ≠ some a) : Ordered (u :: history) l := by
  have hage : ∀ a ∈ l, age (u :: history) a = age history a + 1 :=
    fun a ha => List.idxOf_cons_ne _ (hu a ha)
  refine ⟨fun a ha => List.mem_cons_of_mem _ (h.used a ha), ?_⟩
  refine h.order.imp_of_mem fun {a b} ha hb hlt => ?_
  rw [hage a ha, hage b hb]
  omega

/-- A step that uses a value puts it in front. -/
theorem Ordered.front (ha : a ∉ l) : Ordered (some a :: history) (a :: l) := by
  have hne : ∀ b ∈ l, a ≠ b := fun b hb he => ha (he ▸ hb)
  have hrest : Ordered (some a :: history) l := h.later fun b hb he => hne b hb (Option.some.inj he)
  constructor
  · intro b hb
    rcases List.mem_cons.1 hb with rfl | hb
    · exact List.mem_cons_self
    · exact hrest.used b hb
  · refine List.pairwise_cons.2 ⟨fun b hb => ?_, hrest.order⟩
    rw [age_self, age_other (hne b hb)]
    omega

/-- All that a step may do to the list. -/
def Reorders : Option α → List α → List α → Prop
  | none, l, l' => l'.Sublist l
  | some a, l, l' => ∃ rest : List α, rest.Sublist l ∧ a ∉ rest ∧ (l' = rest ∨ l' = a :: rest)

theorem Ordered.reorders (hl : Reorders u l l') : Ordered (u :: history) l' := by
  cases u with
  | none => exact (h.sublist hl).later fun _ _ => nofun
  | some a =>
    obtain ⟨rest, hsub, hnot, hl'⟩ := hl
    have hrest := h.sublist hsub
    rcases hl' with rfl | rfl
    · exact hrest.later fun b hb he => hnot (Option.some.inj he ▸ hb)
    · exact hrest.front hnot

end

end EpochKV.Recent

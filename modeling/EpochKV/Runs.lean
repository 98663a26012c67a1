/-
Runs of a state machine, and machines that cannot be told apart.

A machine is a step function with a label on each step. `Reach` are the states
that can be reached while every step meets the condition `ok`; with `ok` always
true these are all reachable states. A run given as a list of labels is the other
form (`Meets`), which a concrete run can be computed in.

A machine that answers its callers is known to them by its answers only
(`transcript`). One such machine stands for another if there is a relation between
their states which the start meets, every call keeps, and under which the answers
agree (`transcript_simulation`). The calls need not be the same: where the second
machine is the more abstract one, what is chance in the first may have to be drawn
differently there to come out the same.
-/
import Mathlib.Data.List.Forall2

set_option autoImplicit false

namespace EpochKV

variable {σ α : Type} {step : σ → α → σ} {ok : σ → α → Prop} {init : σ → Prop}

inductive Reach (step : σ → α → σ) (ok : σ → α → Prop) (init : σ → Prop) : σ → Prop where
  | start {s : σ} : init s → Reach step ok init s
  | next {s : σ} (a : α) : Reach step ok init s → ok s a → Reach step ok init (step s a)

/-- The invariant rule. -/
theorem Reach.invariant {I : σ → Prop} (hinit : ∀ s, init s → I s)
    (hstep : ∀ s a, I s → ok s a → I (step s a)) {s : σ} (h : Reach step ok init s) : I s := by
  induction h with
  | start h => exact hinit _ h
  | next a _ hok ih => exact hstep _ a ih hok

/-- The steps of a list of labels meet the condition, one after the other. -/
def Meets (step : σ → α → σ) (ok : σ → α → Prop) : σ → List α → Prop
  | _, [] => True
  | s, a :: as => ok s a ∧ Meets step ok (step s a) as

instance Meets.decidable [∀ s a, Decidable (ok s a)] (s : σ) (as : List α) :
    Decidable (Meets step ok s as) :=
  match as with
  | [] => isTrue trivial
  | a :: as =>
    have := Meets.decidable (step s a) as
    inferInstanceAs (Decidable (ok s a ∧ Meets step ok (step s a) as))

theorem meets_append {s : σ} {as bs : List α} :
    Meets step ok s (as ++ bs) ↔ Meets step ok s as ∧ Meets step ok (as.foldl step s) bs := by
  induction as generalizing s with
  | nil => exact (and_iff_right trivial).symm
  | cons a as ih => exact (and_congr_right fun _ => ih).trans and_assoc.symm

theorem Reach.run {s : σ} (h : Reach step ok init s) {as : List α} (hm : Meets step ok s as) :
    Reach step ok init (as.foldl step s) := by
  induction as generalizing s with
  | nil => exact h
  | cons a as ih => exact ih (h.next a hm.1) hm.2

/-! ## Answers -/

section Answers

variable {S T C D A : Type} {call : S → C → A × S} {call' : T → D → A × T} {R : S → T → Prop}

/-- The answers to one call after another, and what is left. -/
def transcript (call : S → C → A × S) : List C → S → List A × S
  | [], s => ([], s)
  | c :: cs, s =>
    ((call s c).1 :: (transcript call cs (call s c).2).1, (transcript call cs (call s c).2).2)

/-- **The simulation rule**, for calls that correspond to each other. -/
theorem transcript_simulation (sim : C → D → Prop)
    (hcall : ∀ s t c, R s t → ∃ d, sim c d ∧ (call s c).1 = (call' t d).1 ∧ R (call s c).2 (call' t d).2)
    (cs : List C) {s : S} {t : T} (h : R s t) :
    ∃ ds, List.Forall₂ sim cs ds ∧ (transcript call cs s).1 = (transcript call' ds t).1 ∧
      R (transcript call cs s).2 (transcript call' ds t).2 := by
  induction cs generalizing s t with
  | nil => exact ⟨[], .nil, rfl, h⟩
  | cons c cs ih =>
    obtain ⟨d, hsim, hanswer, hnext⟩ := hcall s t c h
    obtain ⟨ds, hsims, hanswers, hlast⟩ := ih hnext
    exact ⟨d :: ds, .cons hsim hsims, congrArg₂ List.cons hanswer hanswers, hlast⟩

/-- The rule for the same calls on both sides. -/
theorem transcript_same {call' : T → C → A × T}
    (hcall : ∀ s t c, R s t → (call s c).1 = (call' t c).1 ∧ R (call s c).2 (call' t c).2)
    (cs : List C) {s : S} {t : T} (h : R s t) :
    (transcript call cs s).1 = (transcript call' cs t).1 ∧
      R (transcript call cs s).2 (transcript call' cs t).2 := by
  obtain ⟨ds, hsame, hrest⟩ := transcript_simulation Eq
    (fun s t c h => ⟨c, rfl, hcall s t c h⟩) cs h
  rw [List.forall₂_eq_eq_eq] at hsame
  subst hsame
  exact hrest

end Answers

end EpochKV

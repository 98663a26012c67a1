/-
Text in parts with a separator between them, or behind each.

What `std::getline`, `std::string::find` and `rfind` do to a list of characters, and that
they undo what joins the parts: a separator that occurs in none of them is found where it
was put. Characters are of any type with decidable equality.
-/
import Mathlib.Data.List.Basic
import Mathlib.Tactic.Common

set_option autoImplicit false

namespace EpochKV.Separated

variable {α : Type} [DecidableEq α]

/-! ## Lines and parts -/

/-- What a loop of `std::getline` reads: a separator at the very end starts no new line. -/
def getlines (sep : α) (s : List α) : List (List α) :=
  if (s.splitOn sep).getLast? = some [] then (s.splitOn sep).dropLast else s.splitOn sep

/-- The parts that are not empty. -/
def split (s : List α) (sep : α) : List (List α) := (getlines sep s).filter (· ≠ [])

variable {sep x c : α} {ls : List (List α)} {a pat : List α}

section Intercalate

omit [DecidableEq α]

theorem intercalate_cons_cons (sep : α) (l m : List α) (ls : List (List α)) :
    [sep].intercalate (l :: m :: ls) = l ++ sep :: [sep].intercalate (m :: ls) := by
  simp [List.intercalate]

theorem intercalate_append_nil (sep : α) (ls : List (List α)) :
    [sep].intercalate (ls ++ [[]]) = ls.flatMap (· ++ [sep]) := by
  induction ls with
  | nil => rfl
  | cons l ls ih =>
    cases ls with
    | nil => simp [List.intercalate]
    | cons m ls =>
      rw [List.flatMap_cons, ← ih, List.cons_append, List.cons_append, intercalate_cons_cons]
      simp

theorem mem_intercalate (h : x ∈ [sep].intercalate ls) : x = sep ∨ ∃ l ∈ ls, x ∈ l := by
  induction ls with
  | nil => exact absurd h List.not_mem_nil
  | cons l ls ih =>
    cases ls with
    | nil => exact Or.inr ⟨l, List.mem_cons_self, by simpa [List.intercalate] using h⟩
    | cons m ls =>
      rw [intercalate_cons_cons] at h
      rcases List.mem_append.1 h with hl | h
      · exact Or.inr ⟨l, List.mem_cons_self, hl⟩
      rcases List.mem_cons.1 h with rfl | h
      · exact Or.inl rfl
      · obtain hsep | ⟨k, hk, hx⟩ := ih h
        · exact Or.inl hsep
        · exact Or.inr ⟨k, List.mem_cons_of_mem _ hk, hx⟩

end Intercalate

/-- Lines that are ended are read back. -/
theorem getlines_lines (h : ∀ l ∈ ls, sep ∉ l) : getlines sep (ls.flatMap (· ++ [sep])) = ls := by
  have hparts : (ls.flatMap (· ++ [sep])).splitOn sep = ls ++ [[]] := by
    rw [← intercalate_append_nil]
    apply List.splitOn_intercalate
    · intro l hl
      rcases List.mem_append.1 hl with hl | hl
      · exact h l hl
      · rw [List.mem_singleton.1 hl]
        exact List.not_mem_nil
    · simp
  rw [getlines, hparts, if_pos (by simp), List.dropLast_concat]

/-- Parts that are joined are read back, if none is empty. -/
theorem split_join (h : ∀ l ∈ ls, sep ∉ l ∧ l ≠ []) (hne : ls ≠ []) :
    split ([sep].intercalate ls) sep = ls := by
  have hparts : ([sep].intercalate ls).splitOn sep = ls :=
    List.splitOn_intercalate sep (fun l hl => (h l hl).1) hne
  have hlast : ls.getLast? ≠ some [] := fun hl =>
    (h [] (List.mem_of_getLast? hl)).2 rfl
  rw [split, getlines, hparts, if_neg hlast, List.filter_eq_self]
  intro l hl
  exact decide_eq_true (h l hl).2

/-! ## Finding -/

/-- The last place of a character. -/
def rfind (c : α) (s : List α) : Option Nat := (s.reverse.idxOf? c).map fun i => s.length - 1 - i

/-- The first place of a text. -/
def find (pat : List α) : List α → Option Nat
  | [] => if pat = [] then some 0 else none
  | c :: s => if pat <+: c :: s then some 0 else (find pat s).map (· + 1)

theorem idxOf?_middle (ha : c ∉ a) (b : List α) : (a ++ c :: b).idxOf? c = some a.length := by
  induction a with
  | nil => simp [List.idxOf?_cons]
  | cons x a ih =>
    have hx : x ≠ c := fun h => ha (h ▸ List.mem_cons_self)
    rw [List.cons_append, List.idxOf?_cons, ih fun h => ha (List.mem_cons_of_mem _ h)]
    simp [hx]

theorem rfind_middle (a : List α) {b : List α} (hb : c ∉ b) :
    rfind c (a ++ c :: b) = some a.length := by
  have hrev : (a ++ c :: b).reverse = b.reverse ++ c :: a.reverse := by simp
  rw [rfind, hrev, idxOf?_middle (by simpa using hb)]
  simp only [Option.map_some, List.length_reverse, List.length_append, List.length_cons,
    Option.some.injEq]
  omega

/-- A text is not found before its first character is. -/
theorem find_middle (ha : x ∉ a) (b : List α) :
    find (x :: pat) (a ++ (x :: pat ++ b)) = some a.length := by
  induction a with
  | nil => simp [find]
  | cons y a ih =>
    have hne : x ≠ y := fun h => ha (h ▸ List.mem_cons_self)
    rw [List.cons_append, find, if_neg (by simp [List.cons_prefix_cons, hne]),
      ih fun h => ha (List.mem_cons_of_mem _ h)]
    rfl

/-- A text is not found where one of its characters is missing. -/
theorem find_eq_none {s : List α} (hx : x ∈ pat) (hs : x ∉ s) : find pat s = none := by
  induction s with
  | nil => rw [find, if_neg (List.ne_nil_of_mem hx)]
  | cons y s ih =>
    have hno : ¬ pat <+: y :: s := fun h => hs (h.subset hx)
    rw [find, if_neg hno, ih fun h => hs (List.mem_cons_of_mem _ h)]
    rfl

end EpochKV.Separated

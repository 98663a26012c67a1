/-
CLUSTER ADDSLOTS, DELSLOTS and their range forms change all the slots they list or
nothing.

What a list of arguments names is `Listed`, a relation of its own: single slots one by
one, or pairs of bounds with every slot between them. `slot_args_spec` is the parser
against it, `check_slots_spec` the second pass, which looks for a slot named twice or in
the wrong hands. Only after both is anything changed, and `Assigned` says what.
-/
import EpochKV.Roster

set_option autoImplicit false

namespace EpochKV

open Text Slots

variable {slots : List Slot} {range add : Bool} {a : Bytes} {rest : List Bytes}

namespace Cluster

/-! ## The slots that are named -/

/-- The arguments name these slots, in this order. -/
inductive Listed : Bool → List Bytes → List Slot → Prop
  | nil (range : Bool) : Listed range [] []
  | slot {a : Bytes} {rest : List Bytes} {s : Slot} {slots : List Slot} :
      parse_slot a = some s → Listed false rest slots → Listed false (a :: rest) (s :: slots)
  | range {a b : Bytes} {rest : List Bytes} {s e : Slot} {between slots : List Slot} :
      parse_slot a = some s → parse_slot b = some e → s ≤ e →
      (∀ t, t ∈ between ↔ s ≤ t ∧ t ≤ e) → Listed true rest slots →
      Listed true (a :: b :: rest) (between ++ slots)

theorem Listed.ne_nil {args : List Bytes} (h : Listed range args slots) (hargs : args ≠ []) :
    slots ≠ [] := by
  cases h with
  | nil => exact absurd rfl hargs
  | slot => exact List.cons_ne_nil _ _
  | range _ _ hse hbetween =>
    apply List.append_ne_nil_of_left_ne_nil
    exact List.ne_nil_of_mem ((hbetween _).mpr ⟨le_refl _, hse⟩)

theorem mem_between {s e t : Slot} (hse : s ≤ e) :
    t ∈ (List.range' s.val (e.val + 1 - s.val)).filterMap to_slot ↔ s ≤ t ∧ t ≤ e := by
  have hse' : s.val ≤ e.val := hse
  simp only [List.mem_filterMap, List.mem_range'_1, to_slot_eq_some, Fin.le_def]
  constructor
  · rintro ⟨n, hn, rfl⟩
    omega
  · intro h
    exact ⟨t.val, by omega, rfl⟩

/-- A first argument that stands for one slot. -/
theorem slot_args_single (h : slot_args false (a :: rest) = .ok slots) :
    ∃ s more, parse_slot a = some s ∧ slot_args false rest = .ok more ∧ slots = s :: more := by
  cases ha : parse_slot a with
  | none => cases rest <;> simp [slot_args, ha] at h
  | some s =>
    cases rest with
    | nil =>
      simp only [slot_args, ha, Except.ok.injEq] at h
      exact ⟨s, [], rfl, rfl, h.symm⟩
    | cons b rest =>
      cases hrest : slot_args false (b :: rest) with
      | error e => simp [slot_args, ha, hrest, Except.map] at h
      | ok more =>
        simp only [slot_args, ha, hrest, Except.map, Except.ok.injEq] at h
        exact ⟨s, more, rfl, rfl, h.symm⟩

/-- Two first arguments that stand for the slots between them. -/
theorem slot_args_pair {b : Bytes} (h : slot_args true (a :: b :: rest) = .ok slots) :
    ∃ s e more, parse_slot a = some s ∧ parse_slot b = some e ∧ s ≤ e ∧
      slot_args true rest = .ok more ∧
      slots = (List.range' s.val (e.val + 1 - s.val)).filterMap to_slot ++ more := by
  cases ha : parse_slot a with
  | none => simp [slot_args, ha] at h
  | some s =>
    cases hb : parse_slot b with
    | none => simp [slot_args, ha, hb] at h
    | some e =>
      by_cases hes : e < s
      · simp [slot_args, ha, hb, hes] at h
      · cases hrest : slot_args true rest with
        | error msg => simp [slot_args, ha, hb, hes, hrest, Except.map] at h
        | ok more =>
          simp only [slot_args, ha, hb, hes, hrest, Except.map, if_false, Except.ok.injEq] at h
          exact ⟨s, e, more, rfl, rfl, not_lt.mp hes, rfl, h.symm⟩

theorem slot_args_spec (range : Bool) (args : List Bytes) (slots : List Slot)
    (h : slot_args range args = .ok slots) : Listed range args slots := by
  match range, args with
  | range, [] =>
    cases h
    exact .nil range
  | false, a :: rest =>
    obtain ⟨s, more, ha, hrest, rfl⟩ := slot_args_single h
    exact .slot ha (slot_args_spec false rest more hrest)
  | true, [a] => exact absurd h nofun
  | true, a :: b :: rest =>
    obtain ⟨s, e, more, ha, hb, hse, hrest, rfl⟩ := slot_args_pair h
    exact .range ha hb hse (fun _ => mem_between hse) (slot_args_spec true rest more hrest)
  termination_by args.length

/-- The second pass: no slot twice, and each in the hands it has to be in. -/
theorem check_slots_spec {c : Cluster} {seen : List Slot} (h : c.check_slots add seen slots = none) :
    slots.Nodup ∧ (∀ s ∈ slots, s ∉ seen) ∧
      ∀ s ∈ slots, (c.table.own.owner s = none ↔ add = true) := by
  induction slots generalizing seen with
  | nil => exact ⟨List.nodup_nil, nofun, nofun⟩
  | cons a slots ih =>
    simp only [check_slots] at h
    split_ifs at h with hseen hbusy hfree
    obtain ⟨hnodup, hnew, howner⟩ := ih h
    -- `a` is among the slots seen when the others are looked at
    have ha : a ∉ slots := fun hmem => hnew a hmem List.mem_cons_self
    refine ⟨List.nodup_cons.mpr ⟨ha, hnodup⟩, ?_, ?_⟩
    · refine List.forall_mem_cons.mpr ⟨hseen, ?_⟩
      intro s hs hmem
      exact hnew s hs (List.mem_cons_of_mem _ hmem)
    · refine List.forall_mem_cons.mpr ⟨?_, howner⟩
      cases add
      · simpa using hfree
      · simpa using hbusy

/-! ## The change -/

/-- `c'` is `c` after the slots went from nobody to this node, or back to nobody. -/
structure Assigned (c c' : Cluster) (add : Bool) (slots : List Slot) : Prop where
  before : ∀ s ∈ slots, (c.table.own.owner s = none ↔ add = true)
  owner : ∀ s, c'.table.own.owner s =
    if s ∈ slots then (if add then some c.myself else none) else c.table.own.owner s
  mine : c'.table.own.slots c.myself =
    if add then c.table.own.slots c.myself ∪ slots.toFinset
    else c.table.own.slots c.myself \ slots.toFinset
  others : ∀ n ≠ c.myself, c'.table.own.slots n =
    if add then c.table.own.slots n else c.table.own.slots n \ slots.toFinset
  importing : ∀ s, c'.table.importing_from s =
    if add ∧ s ∈ slots then none else c.table.importing_from s
  /-- All else in the tables and outside them, but for the work noted down. -/
  rest : c' = { c with
    table := { c.table with own := c'.table.own, importing_from := c'.table.importing_from }
    todo := { c.todo with save := true, update_state := true, broadcast := true } }

/-- The slots, once they have passed both checks. -/
def assign_all (c : Cluster) (add : Bool) (slots : List Slot) : Cluster :=
  let all := slots.toFinset
  let c := if add then c.drop_importing all else c
  let c := c.set_slots all (if add then some c.myself else none)
  c.todo_save.todo_broadcast

theorem assign_all_eq (c : Cluster) (add : Bool) (hne : slots ≠ []) :
    c.assign_all add slots = { c with
      table := { c.table with
        own := c.table.own.assign slots.toFinset (if add then some c.myself else none)
        importing_from := fun s => if add ∧ s ∈ slots then none else c.table.importing_from s }
      todo := { c.todo with save := true, update_state := true, broadcast := true } } := by
  have hall : slots.toFinset ≠ ∅ := by simpa using hne
  cases add <;>
    simp [assign_all, set_slots, hall, todo_save, todo_broadcast, todo_update_state,
      drop_importing, myself]

theorem assign_all_spec (c : Cluster) (add : Bool) (hne : slots ≠ [])
    (hbefore : ∀ s ∈ slots, (c.table.own.owner s = none ↔ add = true)) :
    Assigned c (c.assign_all add slots) add slots := by
  rw [assign_all_eq c add hne]
  constructor
  · exact hbefore
  · intro s
    simp only [Ownership.owner_assign, List.mem_toFinset]
  · cases add
    · exact Ownership.slots_assign_of_ne _ _ nofun
    · exact Ownership.slots_assign_some _ _ _
  · intro n hn
    cases add
    · exact Ownership.slots_assign_of_ne _ _ nofun
    · refine (Ownership.slots_assign_of_ne _ _ (fun h => hn (Option.some.inj h).symm)).trans ?_
      -- nobody had these slots, so nobody loses them
      apply Finset.sdiff_eq_self_of_disjoint
      apply Finset.disjoint_right.mpr
      intro s hs hmem
      have hnone := (hbefore s (List.mem_toFinset.mp hs)).mpr rfl
      rw [(c.table.own.owner_iff s n).mpr hmem] at hnone
      exact absurd hnone nofun
  · intro s
    rfl
  · rfl

theorem cmd_addslots_spec (c : Cluster) (argv : Args) (range add : Bool)
    (hargs : argv.drop 2 ≠ []) :
    (∃ e, c.cmd_addslots argv range add = (.error e, c)) ∨
      ∃ slots c', c.cmd_addslots argv range add = (ok, c') ∧
        Listed range (argv.drop 2) slots ∧ slots.Nodup ∧ Assigned c c' add slots := by
  unfold cmd_addslots
  split
  · exact Or.inl ⟨_, rfl⟩
  · split
    case h_1 => exact Or.inl ⟨_, rfl⟩
    case h_2 slots hparse =>
      split
      case h_1 => exact Or.inl ⟨_, rfl⟩
      case h_2 hcheck =>
        obtain ⟨hnodup, -, hbefore⟩ := check_slots_spec hcheck
        have hlisted := slot_args_spec range _ slots hparse
        refine Or.inr ⟨slots, c.assign_all add slots, rfl, hlisted, hnodup, ?_⟩
        exact assign_all_spec c add (hlisted.ne_nil hargs) hbefore

/-! ## The command -/

theorem find_slots_subcommand {name : String} (h : (name, Subcommand.slots range add) ∈ subcommands) :
    find_subcommand (lit name) = some (.slots range add) := by
  simp only [subcommands, List.mem_cons, Prod.mk.injEq, Subcommand.slots.injEq, reduceCtorEq,
    and_false, List.not_mem_nil, or_false, false_or] at h
  rcases h with ⟨rfl, rfl, rfl⟩ | ⟨rfl, rfl, rfl⟩ | ⟨rfl, rfl, rfl⟩ | ⟨rfl, rfl, rfl⟩ <;> decide

/-- **All or nothing.** In any state and with any arguments, the four commands either
reply with an error and leave everything as it was, or reply OK: then the slots they list
are distinct, exactly these change hands, and the only other entries of the slot tables
that change are the import marks an ADDSLOTS clears. -/
theorem slots_assigned_or_untouched (env : Env) (c : Cluster) (verb sub : Bytes)
    (args : List Bytes) (error : Bytes) {name : String} {range add : Bool}
    (hsub : (name, Subcommand.slots range add) ∈ subcommands) (hname : to_upper sub = lit name) :
    (∃ e, command env c (verb :: sub :: args) error = (.error e, c)) ∨
      ∃ slots c', command env c (verb :: sub :: args) error = (ok, c') ∧
        Listed range args slots ∧ slots.Nodup ∧ Assigned c c' add slots := by
  have hcommand : command env c (verb :: sub :: args) error =
      c.run_subcommand env (verb :: sub :: args) error sub (.slots range add) args := by
    have hfind := find_slots_subcommand hsub
    rw [← hname] at hfind
    simp only [command, List.drop_succ_cons, List.drop_zero, List.headD_cons, hfind]
  rw [hcommand]
  -- without arguments there is nothing to do; the range forms also want them in pairs
  cases args with
  | nil => cases range <;> exact Or.inl ⟨_, rfl⟩
  | cons a rest =>
    have hrun := cmd_addslots_spec c (verb :: sub :: a :: rest) range add (List.cons_ne_nil a rest)
    cases range with
    | false => exact hrun
    | true =>
      simp only [run_subcommand]
      split
      · exact Or.inl ⟨_, rfl⟩
      · exact hrun

theorem slots_assigned_or_untouched_founder :
    ("ADDSLOTSRANGE", Subcommand.slots true true) ∈ subcommands ∧
      (command (spare 9 1) founder [lit "CLUSTER", lit "addslotsrange", lit "3", lit "5"] []).1 = ok ∧
      ∃ slots c', command (spare 9 1) founder
          (lit "CLUSTER" :: lit "addslotsrange" :: [lit "3", lit "5"]) [] = (ok, c') ∧
        Listed true [lit "3", lit "5"] slots ∧ slots.Nodup ∧ Assigned founder c' true slots := by
  have hok : (command (spare 9 1) founder
      [lit "CLUSTER", lit "addslotsrange", lit "3", lit "5"] []).1 = ok := by decide +kernel
  have hsub : ("ADDSLOTSRANGE", Subcommand.slots true true) ∈ subcommands := by decide
  refine ⟨hsub, hok, ?_⟩
  rcases slots_assigned_or_untouched (spare 9 1) founder (lit "CLUSTER") (lit "addslotsrange")
    [lit "3", lit "5"] [] hsub (by decide) with ⟨e, he⟩ | h
  · rw [he] at hok
    exact absurd hok nofun
  · exact h

end Cluster

end EpochKV

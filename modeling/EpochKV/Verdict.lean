/-
The verdict on the cluster.

`update_state` decides whether this node serves commands at all: only if most of the
masters with slots are reachable, and, where that is asked for, if every slot has an
owner that is not down. It is not run at every change. What is shown here is that it is
run, or due, after every change that could turn the verdict: a node that serves, in a
state in which nothing is due, has a majority and full coverage in its own view.

The majority is one of the masters that serve slots. If there are none, the code does
not ask for one (`size > 0`), which matters only where full coverage is not required.
-/
import EpochKV.Marks

set_option autoImplicit false

namespace EpochKV

open Commands Text

variable {n : NodeId} {f : Node → Node}

namespace Cluster

variable {o : Cause} {c c' : Cluster}

/-- The masters with slots, in our view. -/
def serving (c : Cluster) : List NodeId := c.table.known.filter c.table.serves

/-- Neither suspected nor down. -/
def healthy (c : Cluster) (n : NodeId) : Bool := ¬ (c.table.node n).pfail ∧ ¬ (c.table.node n).fail

theorem minority_eq (c : Cluster) : c.minority = decide (0 < c.serving.length ∧
    (c.serving.filter c.healthy).length < c.serving.length / 2 + 1) := rfl

/-- A verdict is due, or a good one is deserved. -/
def Judged (c : Cluster) : Prop :=
  c.todo.update_state = true ∨ (c.state_ok = true → c.covered = true ∧ c.minority = false)

/-- Nothing the verdict rests on has changed. -/
structure Unmoved (c c' : Cluster) : Prop where
  options : c'.options = c.options
  state_ok : c'.state_ok = c.state_ok
  due : c.todo.update_state = true → c'.todo.update_state = true
  owner : c'.table.own.owner = c.table.own.owner
  health : ∀ s n, c.table.own.owner s = some n →
    (c'.table.node n).pfail = (c.table.node n).pfail ∧ (c'.table.node n).fail = (c.table.node n).fail
  serving : c'.serving = c.serving

theorem exists_slot_of_serving (h : n ∈ c.serving) : ∃ s, c.table.own.owner s = some n := by
  have hserves := (List.mem_filter.mp h).2
  unfold Table.serves at hserves
  obtain ⟨s, hs⟩ := Finset.nonempty_iff_ne_empty.mpr (of_decide_eq_true hserves).2
  exact ⟨s, (c.table.own.owner_iff s n).mpr hs⟩

theorem Unmoved.covered (h : Unmoved c c') : c'.covered = c.covered := by
  unfold Cluster.covered
  rw [h.options, h.owner]
  have hall : (∀ s, ∃ n ∈ c.table.own.owner s, (c'.table.node n).fail = false) ↔
      ∀ s, ∃ n ∈ c.table.own.owner s, (c.table.node n).fail = false := by
    refine forall_congr' fun s => exists_congr fun n => and_congr_right fun hn => ?_
    rw [(h.health s n hn).2]
  simp only [hall]

theorem Unmoved.minority (h : Unmoved c c') : c'.minority = c.minority := by
  have hfilter : c.serving.filter c'.healthy = c.serving.filter c.healthy := by
    refine List.filter_congr fun n hn => ?_
    obtain ⟨s, hs⟩ := exists_slot_of_serving hn
    unfold Cluster.healthy
    rw [(h.health s n hs).1, (h.health s n hs).2]
  rw [minority_eq, minority_eq, h.serving, hfilter]

theorem Judged.unmoved (h : c.Judged) (hu : Unmoved c c') : c'.Judged := by
  rcases h with hdue | hok
  · exact Or.inl (hu.due hdue)
  · refine Or.inr fun hs => ?_
    rw [hu.covered, hu.minority]
    exact hok (hu.state_ok ▸ hs)

/-! ## Changes -/

/-- Rows, known nodes and slots as they were. -/
theorem Unmoved.of_rows (ho : c'.options = c.options) (hs : c'.state_ok = c.state_ok)
    (hd : c.todo.update_state = true → c'.todo.update_state = true)
    (hk : c'.table.known = c.table.known) (hown : c'.table.own = c.table.own)
    (hm : ∀ n, (c'.table.node n).master = (c.table.node n).master)
    (hf : ∀ n, (c'.table.node n).pfail = (c.table.node n).pfail ∧
      (c'.table.node n).fail = (c.table.node n).fail) : Unmoved c c' := by
  refine ⟨ho, hs, hd, by rw [hown], fun _ n _ => hf n, ?_⟩
  unfold Cluster.serving
  rw [hk]
  refine List.filter_congr fun n _ => ?_
  unfold Table.serves
  rw [hown, hm]

theorem Judged.of_table (h : c.Judged) (ht : c'.table = c.table) (ho : c'.options = c.options)
    (hs : c'.state_ok = c.state_ok) (hd : c.todo.update_state = true → c'.todo.update_state = true) :
    c'.Judged := by
  refine h.unmoved (Unmoved.of_rows ho hs hd (by rw [ht]) (by rw [ht]) (fun n => ?_) fun n => ?_)
  · rw [ht]
  · rw [ht]
    exact ⟨rfl, rfl⟩

/-- The role of a node without slots does not matter. -/
theorem Unmoved.of_role (hs : c.table.own.slots n = ∅)
    (hf : (f (c.table.node n)).pfail = (c.table.node n).pfail ∧
      (f (c.table.node n)).fail = (c.table.node n).fail) : Unmoved c (c.modify n f) := by
  refine ⟨rfl, rfl, id, rfl, fun s x _ => ?_, ?_⟩
  · exact node_modify_rec (P := fun y r => r.pfail = (c.table.node y).pfail ∧
      r.fail = (c.table.node y).fail) (fun _ => ⟨rfl, rfl⟩) fun _ => hf
  · refine List.filter_congr fun x _ => ?_
    unfold Table.serves
    by_cases hx : x = n
    · subst hx
      rw [show (c.modify x f).table.own = c.table.own from rfl, hs]
      simp
    · rw [node_modify_of_ne c f hx]
      rfl

/-- Who is no master has no slots. -/
theorem Tidy.slots_empty (h : c.Tidy) (hn : (c.table.node n).master = false) :
    c.table.own.slots n = ∅ := by
  refine Finset.eq_empty_of_forall_notMem fun s hs => ?_
  rw [(h.owner s n ((c.table.own.owner_iff s n).mpr hs)).2] at hn
  cases hn

section

variable (h : c.Judged)
include h

/-- A row changes: the verdict is due, or it was not about this row's health, and a role
changes only without slots. -/
theorem Judged.row {t : Todo} (ht : c.Tidy) (ho : Cause.Novel o c)
    (he : Edit o c t n (f (c.table.node n))) (hr : Recast o c n (f (c.table.node n)))
    (hd : c.todo.Kept t) : Judged { c.modify n f with todo := t } := by
  rcases he.health with hf | hdue
  · refine Judged.of_table (c := { c.modify n f with todo := c.todo }) ?_ rfl rfl rfl hd.due
    cases hr with
    | same hm _ =>
      refine h.unmoved (Unmoved.of_rows rfl rfl id rfl rfl (fun x => ?_) fun x => ?_)
      · exact node_modify_rec (P := fun y r => r.master = (c.table.node y).master) (fun _ => rfl)
          fun _ => hm
      · exact node_modify_rec (P := fun y r => r.pfail = (c.table.node y).pfail ∧
          r.fail = (c.table.node y).fail) (fun _ => ⟨rfl, rfl⟩) fun _ => hf
    | promoted hp hrep _ =>
      refine h.unmoved (Unmoved.of_role (ht.slots_empty ?_) hf)
      have hrole := ht.role _ (hp.proper ho)
      rw [hrep] at hrole
      simpa using hrole.symm
    | resigned _ _ hs _ => exact h.unmoved (Unmoved.of_role hs hf)
    | demoted _ hs _ _ => exact h.unmoved (Unmoved.of_role hs hf)
  · exact Or.inl hdue.1

/-- We take the place of our master: with its slots, or there are none. -/
theorem Judged.succeed {old : NodeId} {t : Todo} (ht : c.Tidy) (hm : c.me.master = false)
    (hk : c.todo.Kept t) (hd : c.table.own.slots old ≠ ∅ → t.update_state = true) :
    Judged { c with
      table :=
        { c.table.modify c.myself fun r =>
            { r with replica := false, master := true, master_id := none } with
          own := c.table.own.assign (c.table.own.slots old) (some c.myself) }
      todo := t } := by
  by_cases hs : c.table.own.slots old = ∅
  · have hrow : Judged (c.modify c.myself fun r =>
        { r with replica := false, master := true, master_id := none }) :=
      h.unmoved (Unmoved.of_role (ht.slots_empty hm) ⟨rfl, rfl⟩)
    have hown : c.table.own.assign ∅ (some c.myself) = c.table.own := c.table.own.assign_empty _
    refine hrow.unmoved (Unmoved.of_rows rfl rfl hk.due rfl ?_ (fun _ => rfl) fun _ => ⟨rfl, rfl⟩)
    show c.table.own.assign (c.table.own.slots old) (some c.myself) = c.table.own
    rw [hs, hown]
  · exact Or.inl (hd hs)

/-- A placeholder has no slots, and no say. -/
theorem Judged.create (ht : c.Tidy) {id : NodeId} (hid : ¬ c.Proper id) (r : Node) :
    Judged { c with table := c.table.create_node id r } := by
  have hnode : ∀ x, x ≠ id → (c.table.create_node id r).node x = c.table.node x :=
    fun x hx => Function.update_of_ne hx ..
  have howner : ∀ s, c.table.own.owner s ≠ some id := fun s hs => hid (ht.owner s id hs).1
  have hslots : c.table.own.slots id = ∅ := by
    refine Finset.eq_empty_of_forall_notMem fun s hs => ?_
    exact howner s ((c.table.own.owner_iff s id).mpr hs)
  have hserves : ∀ x, (c.table.create_node id r).serves x = c.table.serves x := by
    intro x
    unfold Table.serves
    by_cases hx : x = id
    · subst hx
      rw [show (c.table.create_node x r).own = c.table.own from rfl, hslots]
      simp
    · rw [hnode x hx]
      rfl
  refine h.unmoved ⟨rfl, rfl, fun hd => hd, rfl, fun s n hn => ?_, ?_⟩
  · have hne : n ≠ id := fun he => howner s (he ▸ hn)
    rw [show ({ c with table := c.table.create_node id r } : Cluster).table.node n = _ from hnode n hne]
    exact ⟨rfl, rfl⟩
  · show (c.table.create_node id r).known.filter (c.table.create_node id r).serves = _
    rw [funext hserves]
    show (if id ∈ c.table.known then c.table.known else c.table.known ++ [id]).filter _ = _
    split
    · rfl
    · rw [List.filter_append]
      have hnot : c.table.serves id = false := by
        unfold Table.serves
        rw [hslots]
        simp
      rw [List.filter_cons_of_neg (by simp [hnot])]
      exact List.append_nil _

/-- The end of a handshake brings a node without slots. -/
theorem Judged.complete (ht : c.Tidy) {m : Message} (hi : Introduces o c n m) :
    Judged { c with
      table := (c.table.rename_node n m.sender).modify m.sender (introduced m)
      todo := { c.todo with save := true } } := by
  let t : Table := (c.table.rename_node n m.sender).modify m.sender (introduced m)
  have hnode : ∀ x, x ≠ m.sender → t.node x = c.table.node x := by
    intro x hx
    exact (node_introduced c.table n m x).trans (if_neg hx)
  have hslots : ∀ x, ¬ c.Proper x → c.table.own.slots x = ∅ := by
    intro x hx
    refine Finset.eq_empty_of_forall_notMem fun s hs => ?_
    exact hx (ht.owner s x ((c.table.own.owner_iff s x).mpr hs)).1
  have hplace : c.table.own.slots n = ∅ := hslots n hi.not_proper
  have hown : t.own = c.table.own := by
    show c.table.own.assign (c.table.own.slots n) (some m.sender) = c.table.own
    rw [hplace, c.table.own.assign_empty]
  have hserves : ∀ x, t.serves x = c.table.serves x := by
    intro x
    unfold Table.serves
    rw [hown]
    by_cases hx : x = m.sender
    · rw [hx, hslots m.sender hi.unknown]
      simp
    · rw [hnode x hx]
  have hnot : ∀ x, c.table.own.slots x = ∅ → c.table.serves x = false := by
    intro x hx
    unfold Table.serves
    rw [hx]
    simp
  refine h.unmoved ⟨rfl, rfl, id, congrArg Ownership.owner hown, fun s x hx => ?_, ?_⟩
  · have hne : x ≠ m.sender := fun he => hi.unknown (he ▸ (ht.owner s x hx).1)
    rw [show ({ c with table := t, todo := { c.todo with save := true } } : Cluster).table.node x = _
      from hnode x hne]
    exact ⟨rfl, rfl⟩
  · -- the placeholder and the node it turns into count for nothing
    have hout : (c.table.known.filter (· ≠ n)).filter c.table.serves = c.serving := by
      rw [List.filter_filter]
      refine List.filter_congr fun x _ => ?_
      by_cases hx : x = n
      · rw [hx, hnot n hplace]
        rfl
      · simp [hx]
    show t.known.filter t.serves = _
    rw [funext hserves]
    show (if m.sender ∈ c.table.known.filter (· ≠ n) then c.table.known.filter (· ≠ n)
      else c.table.known.filter (· ≠ n) ++ [m.sender]).filter c.table.serves = _
    split
    · exact hout
    · have hsender := hnot m.sender (hslots m.sender hi.unknown)
      rw [List.filter_append, List.filter_cons_of_neg (by simp [hsender])]
      exact (List.append_nil _).trans hout

/-! ## Every change -/

theorem Judged.change (ht : c.Tidy) (ho : Cause.Novel o c) (hs : Change o c c') : c'.Judged := by
  cases hs with
  | aside hs => exact h.of_table hs.table hs.options hs.state_ok hs.todo.due
  | row he hr hk => exact h.row ht ho he hr hk
  | give _ => exact Or.inl rfl
  | succeed _ _ hm hk hd => exact h.succeed ht hm hk hd
  | mark _ => exact h.unmoved (Unmoved.of_rows rfl rfl id rfl rfl (fun _ => rfl) fun _ => ⟨rfl, rfl⟩)
  | create hid _ => exact h.create ht (ho.proper _ hid) _
  | delete _ hd => exact Or.inl hd
  | complete hi => exact h.complete ht hi
  | judge hok _ => exact Or.inr hok
  | save hd => exact h.of_table rfl rfl rfl hd
  | lose _ hd => exact h.of_table rfl rfl rfl hd
  | _ => exact h.of_table rfl rfl rfl id

theorem Judged.changes (ht : c.Tidy) (ho : Cause.Novel o c) (hs : Changes o c c') : c'.Judged :=
  (ht.invariant ho hs (fun _ _ ha hn hj hab => hj.change ha hn hab) h).2

/-! ## Runs -/

omit h in
/-- A process that has only read its file does not serve. -/
theorem judged_from_config (env : Env) (options : Options) (conf : Conf) (store : Store) :
    (from_config env options conf store).Judged := Or.inr fun hs => nomatch hs

theorem Judged.step {e : Event} (hc : c.Orderly) (he : e.Novel c) : (c.step e).Judged := by
  rcases step_cases c e with ⟨-, hcs⟩ | ⟨env, store, -, hcs⟩
  · have hclear : Judged { c with sent := [] } := h.of_table rfl rfl rfl id
    exact hclear.changes (hc.table.of_table rfl) he.clear.cause hcs
  · exact (judged_from_config env _ _ store).changes (tidy_from_config hc.disk env _ store)
      (Cause.Novel.still _) hcs

end

def ticks : Event := .cron (spare 9 6000)

def meets_three : Event :=
  .command (spare 9 1) [lit "CLUSTER", lit "MEET", lit "127.0.0.1", lit "7003"] []

/-- The PONG of node `n`, which has slot `s`, on the connection to `link`. -/
def pongs (t : Time) (link n : NodeId) (s : Slots.Slot) : Event :=
  .packet (spare 8 t) { node := some link }
    { type := .kPong, sender := n, port := 7000 + n, cport := 17000 + n, config_epoch := n, slots := {s} }

/-- Nodes 1, 2 and 3 have a slot each. Node 2 answers when it is pinged, node 3 does not. -/
def trio : Cluster :=
  (((((((founder.step takes_seven).step meets_two).step hears_two).step meets_three).step
    (pongs 1 9 3 9)).step ticks).step (pongs 6001 2 2 8)).step (.cron (spare 9 21001))

end Cluster

end EpochKV

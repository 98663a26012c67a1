/-
What a node has said of itself, and what it is after a crash.

A handler that moves the node to a new epoch leaves both the broadcast and the save to
`before_sleep`, and `before_sleep` broadcasts first; a PING may go out even earlier. A
process that dies in between comes back under the epoch of the file, below the one its
peers have heard of.

`Settled` is the invariant: unless a save is due, the file has the node's own epoch. It
gives the converse. If every save succeeds, no process dies while `todo_save_` is set and
no epoch passes the last that 64 bits hold, no node is ever below an epoch it advertised as
a master.
-/
import EpochKV.Lifetime

set_option autoImplicit false
set_option maxRecDepth 8192

namespace EpochKV

open Commands

namespace Cluster

/-! ## The file and the memory -/

/-- The epochs under which the messages just sent advertise their sender as a master. -/
def announces (c : Cluster) : List Nat :=
  (c.sent.filter fun m => m.2.replica = false).map fun m => m.2.config_epoch

/-- The file and the memory agree on what we are, unless a save is due, and nothing said
since the event began is ahead of it. -/
structure Settled (c : Cluster) : Prop where
  fit : c.Fit
  /-- The file's row of the node says what it is, too. -/
  file : (c.disk.table.node c.myself).replica = !(c.disk.table.node c.myself).master
  saved : c.todo.save = false → (c.disk.table.node c.myself).config_epoch = c.me.config_epoch
  said : ∀ e ∈ c.announces, e ≤ c.me.config_epoch

theorem mem_announces {c : Cluster} {e : Nat} :
    e ∈ c.announces ↔ ∃ m ∈ c.sent, m.2.replica = false ∧ m.2.config_epoch = e := by
  simp [announces, and_assoc]

variable {o : Cause} {c c' : Cluster}

/-- A master says its own epoch. -/
theorem Says.config_of_master {m : Message} (h : c.Says m) (hf : c.Fit) (hr : m.replica = false) :
    m.config_epoch = c.me.config_epoch := by
  have hmaster : c.me.master = true := by
    unfold Fit at hf
    rw [← h.replica, hr] at hf
    simpa using hf
  have hof : c.table.master_of c.myself = some c.myself := if_pos hmaster
  rw [h.config, hof]
  rfl

/-- We stay a master or a replica, and not both. -/
theorem Fit.change (h : c.Fit) (hs : Change o c c') (hd : ¬ o.drawn c.myself)
    (hmet : o.met c.myself) : c'.Fit := by
  unfold Fit
  rcases (hs.edit_self hd hmet).role with hrole | hrole
  · rw [hrole.1, hrole.2]
    exact h
  · exact hrole.2.1

/-- A save that is due stays due until the file is written. -/
theorem Change.save_due (hs : Change o c c') (hl : ¬ o.lossy) (hdue : c.todo.save = true) :
    c'.todo.save = true ∨ c'.disk = c.describe_nodes := by
  cases hs with
  | aside hsame => exact Or.inl (hsame.todo.save hdue)
  | row _ _ ht => exact Or.inl (ht.save hdue)
  | succeed _ _ _ ht _ => exact Or.inl (ht.save hdue)
  | complete _ => exact Or.inl rfl
  | judge _ ht => exact Or.inl (ht hdue)
  | save _ => exact Or.inr rfl
  | lose hlossy _ => exact absurd hlossy hl
  | _ => exact Or.inl hdue

/-- Once no save is due, the file has our epoch, if it had it before whenever none was due:
our epoch changes only with a save due. -/
theorem Change.own_epoch_saved (hs : Change o c c') (hf : c.Fit) (hd : ¬ o.drawn c.myself)
    (hmet : o.met c.myself) (hl : ¬ o.lossy)
    (hold : c.todo.save = false → (c.disk.table.node c.myself).config_epoch = c.me.config_epoch)
    (h : c'.todo.save = false) : (c'.disk.table.node c.myself).config_epoch = c'.me.config_epoch := by
  have hme : c'.me.config_epoch = c.me.config_epoch := by
    refine (hs.edit_self hd hmet).epoch.resolve_right fun he => ?_
    rw [he.save hf] at h
    cases h
  rw [hme]
  cases hsave : c.todo.save with
  | false =>
    rcases hs.disk_cases with hdisk | ⟨v, hdisk⟩
    · rw [hdisk]
      exact hold hsave
    · rw [hdisk]
      rfl
  | true =>
    rcases hs.save_due hl hsave with hdue | hdisk
    · rw [h] at hdue
      cases hdue
    · rw [hdisk]
      rfl

/-! ## Along a chain of changes -/

section

variable (h : c.Settled)
include h

theorem Settled.change (hs : Change o c c') (hd : ¬ o.drawn c.myself)
    (hmet : o.met c.myself) (hl : ¬ o.lossy) (hle : c.me.config_epoch ≤ c.current_epoch) :
    c'.Settled where
  fit := h.fit.change hs hd hmet
  file := by
    rw [hs.myself]
    rcases hs.disk_cases with hdisk | ⟨v, hdisk⟩
    · rw [hdisk]
      exact h.file
    · rw [hdisk]
      exact h.fit
  saved hsave := by
    rw [hs.myself]
    exact hs.own_epoch_saved h.fit hd hmet hl h.saved hsave
  said e he := by
    obtain ⟨m, hm, hr, rfl⟩ := mem_announces.mp he
    rcases hs.sent_cases hm with hold | ⟨hsaid, hme⟩
    · have hbefore := h.said _ (mem_announces.mpr ⟨m, hold, hr, rfl⟩)
      exact hbefore.trans (hs.own_epoch_le hd hmet hle)
    · rw [hme, hsaid.config_of_master h.fit hr]

theorem Settled.changes (hcs : Changes o c c') (hc : c.Sound) (ho : o.Sound)
    (hd : ¬ o.drawn c.myself) (hmet : o.met c.myself) (hl : ¬ o.lossy) : c'.Settled := by
  induction hcs with
  | refl => exact h
  | tail hcs hs ih =>
    have hid := Changes.myself hcs
    have hsound := (Advances.changes ho hcs).sound hc
    refine ih.change hs ?_ ?_ hl (hsound.rows _).epoch
    · rw [hid]
      exact hd
    · rw [hid]
      exact hmet

/-! ## One event -/

/-- One event: the node stays settled and its epoch does not fall, if it is not started
again with a save due. -/
theorem Settled.step (hc : c.Sound) (hg : c.Grounded) {e : Event}
    (hp : ∀ m, e.message = some m → m.Sound) (hd : ¬ e.draws c.myself) (hl : ¬ e.loses)
    (hr : e.is_restart = true → c.todo.save = false) :
    (c.step e).Settled ∧ c.me.config_epoch ≤ (c.step e).me.config_epoch := by
  rcases step_cases c e with ⟨hrest, hcs⟩ | ⟨env, store, rfl, hcs⟩
  · have hsilent : { c with sent := [] }.Settled := ⟨h.fit, h.file, h.saved, by simp [announces]⟩
    exact ⟨hsilent.changes hcs hc.silent hp hd hg.proper hl, (epochs_le_step hc hg hrest hp hd).2⟩
  · -- nothing is drawn, lost or read on the way from the file to the first event
    have hme : c.disk.table.myself = c.myself := hc.file
    have hfile : (c.disk.table.node c.disk.table.myself).replica =
        !(c.disk.table.node c.disk.table.myself).master := by
      rw [hme]
      exact h.file
    have hread : (from_config env c.options c.disk store).Settled :=
      { fit := hfile
        file := hfile
        saved := fun _ => rfl
        said := by simp [announces, from_config] }
    have ho : Cause.still.Sound := Cause.sound_of_none rfl
    have hsound := sound_from_config hc.saved env c.options store
    refine ⟨hread.changes hcs hsound ho id trivial id, ?_⟩
    refine le_trans (le_of_eq ?_) (hcs.own_epoch_le hsound ho id trivial)
    rw [← h.saved (hr rfl), ← hme]
    rfl

end

end Cluster

/-! ## Runs -/

/-- A run so far: the cluster, and the epochs each node has advertised as a master. -/
structure Herald where
  world : World
  announced : NodeId → List Nat

variable {r : Herald}

namespace Herald

def step (r : Herald) (s : Action) : Herald where
  world := r.world.step s
  announced :=
    match r.world.event s with
    | none => r.announced
    | some (i, e) =>
      Function.update r.announced i (r.announced i ++ ((r.world.node i).step e).announces)

/-- Nothing has been said, and what the nodes are is on file. -/
structure Start (r : Herald) : Prop where
  world : r.world.Formed
  settled : ∀ i, (r.world.node i).Settled
  silent : ∀ i, r.announced i = []

/-- No process draws its own id, no epoch is taken past the last, no save fails, and none
dies while a save is due. -/
structure Saves (r : Herald) (s : Action) : Prop where
  fresh : r.world.Fresh s
  unwrapped : r.world.Unwrapped s
  saved : ∀ p ∈ r.world.event s, ¬ p.2.loses
  quiet : ∀ p ∈ r.world.event s, p.2.is_restart = true → (r.world.node p.1).todo.save = false

/-- The invariant of such a run. -/
structure Kept (r : Herald) : Prop where
  world : r.world.Formed
  settled : ∀ i, (r.world.node i).Settled
  announced : ∀ i, ∀ e ∈ r.announced i, e ≤ (r.world.node i).me.config_epoch

theorem Kept.step (h : r.Kept) {s : Action} (hs : r.Saves s) : (r.step s).Kept := by
  have hone : ∀ i e, r.world.event s = some (i, e) → ((r.world.node i).step e).Settled ∧
      (r.world.node i).me.config_epoch ≤ ((r.world.node i).step e).me.config_epoch := by
    intro i e he
    have hdraw : ¬ e.draws (r.world.node i).myself := by
      rw [(h.world.sound.node i).2]
      exact hs.fresh (i, e) he
    exact (h.settled i).step (h.world.sound.node i).1 (h.world.grounded i) (h.world.sound.packet he)
      hdraw (hs.saved (i, e) he) (hs.quiet (i, e) he)
  refine ⟨h.world.step hs.fresh, fun i => ?_, fun i => ?_⟩
  · exact World.node_step_holds (h.settled i) fun e he => (hone i e he).1
  unfold Herald.step
  cases he : r.world.event s with
  | none =>
    rw [World.node_step_of_none he]
    exact h.announced i
  | some p =>
    obtain ⟨j, e⟩ := p
    dsimp only
    by_cases hi : i = j
    · subst hi
      obtain ⟨hnew, hle⟩ := hone i e he
      rw [Function.update_self, World.node_step_self he]
      intro x hx
      rcases List.mem_append.mp hx with hx | hx
      · exact (h.announced i x hx).trans hle
      · exact hnew.said x hx
    · rw [Function.update_of_ne hi, World.node_step_of_ne he hi]
      exact h.announced i

/-- Node 1 moves to a new epoch, the epoch is saved, node 2 is told, node 1 is started
again. -/
def orderly : List Action :=
  [World.bump 1 1, World.sleep 1 1, World.connects 1 2 1,
    .inner 1 (.restart (World.at_time 2) { clock := fun _ => 0 })]

end Herald

end EpochKV

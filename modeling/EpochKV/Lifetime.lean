/-
What holds from the start of a process to its end.

Within one lifetime a node's current epoch and its own config epoch never fall. For
the own epoch that needs two things besides the order of epochs (`Sound`): the node
knows itself under its own id, and no id drawn for a stranger is its own. The draw is
of 160 random bits; were it to hit, `create_node` would free the row that `myself_`
points to.
-/
import EpochKV.World

set_option autoImplicit false

namespace EpochKV

open Text Commands

namespace Cluster

/-- The node knows itself, in memory and in the file. -/
structure Grounded (c : Cluster) : Prop where
  proper : c.Proper c.myself
  file : c.disk.table.myself ∈ c.disk.table.known

/-! ## Our own row -/

variable {o : Cause} {c c' : Cluster}

theorem Grounded.change (h : c.Grounded) (hd : ¬ o.drawn c.myself) (hs : Change o c c') :
    c'.Grounded := by
  have hp : c'.Proper c'.myself := by
    rw [hs.myself]
    exact h.proper.change (fun _ => rfl) hd hs
  refine ⟨hp, ?_⟩
  rcases hs.disk_cases with hdisk | ⟨v, hdisk⟩
  · rw [hdisk]
    exact h.file
  · -- everybody but placeholders is written
    rw [hdisk]
    refine List.mem_filter.mpr ⟨h.proper.1, ?_⟩
    show decide (¬ (c.table.node c.myself).handshake = true) = true
    rw [h.proper.2]
    rfl

theorem Grounded.changes (h : c.Grounded) (hd : ¬ o.drawn c.myself) (hcs : Changes o c c') :
    c'.Grounded := by
  induction hcs with
  | refl => exact h
  | tail hcs hs ih =>
    refine ih.change ?_ hs
    rw [Changes.myself hcs]
    exact hd

/-- Our own row is found under the old id. -/
theorem Change.me_eq (hs : Change o c c') : c'.me = c'.table.node c.myself := by
  rw [← hs.myself]
  rfl

/-- Our own row is neither new nor somebody else's: it is edited. -/
theorem Change.edit_self (hs : Change o c c') (hd : ¬ o.drawn c.myself) (hmet : o.met c.myself) :
    Edit o c c'.todo c.myself c'.me := by
  rw [hs.me_eq]
  cases hs.rewrites c.myself with
  | edited he _ => exact he
  | created hdrawn _ => exact absurd hdrawn hd
  | met hi hx _ => exact absurd (hx ▸ hmet) hi.stranger

/-- Our own epoch does not fall, as long as it is not ahead of the current one. -/
theorem Change.own_epoch_le (hs : Change o c c') (hd : ¬ o.drawn c.myself) (hmet : o.met c.myself)
    (hle : c.me.config_epoch ≤ c.current_epoch) : c.me.config_epoch ≤ c'.me.config_epoch := by
  rcases (hs.edit_self hd hmet).epoch with he | he
  · exact he.ge
  · rcases he.le with hlow | hcur
    · exact hlow
    · rw [hcur.2]
      exact hle

theorem Changes.own_epoch_le (hs : Changes o c c') (hc : c.Sound) (ho : o.Sound)
    (hd : ¬ o.drawn c.myself) (hmet : o.met c.myself) : c.me.config_epoch ≤ c'.me.config_epoch := by
  induction hs with
  | refl => exact le_rfl
  | tail hcs hlast ih =>
    have hid := Changes.myself hcs
    have hsound := (Advances.changes ho hcs).sound hc
    refine ih.trans (hlast.own_epoch_le ?_ ?_ (hsound.rows _).epoch)
    · rw [hid]
      exact hd
    · rw [hid]
      exact hmet

/-! ## One event -/

theorem Grounded.step (h : c.Grounded) {e : Event} (hd : ¬ e.draws c.myself) :
    (c.step e).Grounded := by
  rcases step_cases c e with ⟨-, hcs⟩ | ⟨env, store, -, hcs⟩
  · have hclear : { c with sent := [] }.Grounded := ⟨h.proper, h.file⟩
    exact hclear.changes hd hcs
  · have hread : (from_config env c.options c.disk store).Grounded := ⟨⟨h.file, rfl⟩, h.file⟩
    exact hread.changes id hcs

theorem grounded_first_start (env : Env) (options : Options) (store : Store) (id : NodeId) :
    (first_start env options store id).Grounded := by
  have hknown : id ∈ (first_conf id).table.known := List.mem_singleton_self id
  have hread : (from_config env options (first_conf id) store).Grounded := ⟨⟨hknown, rfl⟩, hknown⟩
  exact hread.changes (fun hd => hd) (changes_first_start env options store id)

/-- Until the process ends, neither epoch falls. -/
theorem epochs_le_step (hc : c.Sound) (hg : c.Grounded) {e : Event} (hr : e.is_restart = false)
    (hp : ∀ m, e.message = some m → m.Sound) (hd : ¬ e.draws c.myself) :
    c.current_epoch ≤ (c.step e).current_epoch ∧
      c.me.config_epoch ≤ (c.step e).me.config_epoch := by
  have hcs := changes_handle { c with sent := [] } hr
  exact ⟨hcs.current_le, hcs.own_epoch_le hc.silent hp hd hg.proper⟩

end Cluster

/-! ## The cluster -/

namespace Action

/-- The step starts process `i` again. -/
def restarts (i : NodeId) : Action → Bool
  | .inner j e => j = i ∧ e.is_restart
  | _ => false

end Action

variable {w : World} {i : NodeId} {e : Cluster.Event} {s : Action}

namespace World

/-- No process draws its own id for a stranger. -/
def Fresh (w : World) (s : Action) : Prop := ∀ p ∈ w.event s, ¬ p.2.draws p.1

/-- Nodes and messages as the code makes them; every node knows itself. -/
structure Formed (w : World) : Prop where
  sound : w.Sound
  grounded : ∀ i, (w.node i).Grounded

/-- **A cluster of processes that have just been started for the first time**, with nothing in
flight, is formed. -/
theorem formed_of_first
    (hnode : ∀ i, ∃ env options store, w.node i = Cluster.first_start env options store i)
    (hown : ∀ a b, w.own a b = []) (hback : ∀ a b, w.back a b = []) : w.Formed where
  sound := by
    refine sound_of_silent (fun i => ?_) hown hback
    obtain ⟨env, options, store, hi⟩ := hnode i
    rw [hi]
    exact Cluster.sound_first_start env options store i
  grounded i := by
    obtain ⟨env, options, store, hi⟩ := hnode i
    rw [hi]
    exact Cluster.grounded_first_start env options store i

theorem Formed.step (h : w.Formed) (hf : w.Fresh s) : (w.step s).Formed where
  sound := h.sound.step s
  grounded i := by
    refine node_step_holds (h.grounded i) fun e he => (h.grounded i).step ?_
    rw [(h.sound.node i).2]
    exact hf (i, e) he

/-- The event of a step that does not start `i` again is no restart, if it is `i`'s. -/
theorem is_restart_of_event (he : w.event s = some (i, e)) (hr : s.restarts i = false) :
    e.is_restart = false := by
  cases s with
  | inner j e' =>
    simp only [event] at he
    split at he
    · cases he
    · cases he
      simpa [Action.restarts] using hr
  | deliver a b env ip ip' =>
    obtain ⟨m, -, hm⟩ := Option.map_eq_some_iff.mp he
    cases hm
    rfl
  | answer a n env =>
    obtain ⟨m, -, hm⟩ := Option.map_eq_some_iff.mp he
    cases hm
    rfl
  | drop => cases he

theorem epochs_le_step (h : w.Formed) (hf : w.Fresh s) (hr : s.restarts i = false) :
    (w.node i).current_epoch ≤ ((w.step s).node i).current_epoch ∧
      (w.node i).me.config_epoch ≤ ((w.step s).node i).me.config_epoch := by
  refine node_step_holds (P := fun c => (w.node i).current_epoch ≤ c.current_epoch ∧
    (w.node i).me.config_epoch ≤ c.me.config_epoch) ⟨le_rfl, le_rfl⟩ fun e he => ?_
  refine Cluster.epochs_le_step (h.sound.node i).1 (h.grounded i) (is_restart_of_event he hr)
    (h.sound.packet he) ?_
  rw [(h.sound.node i).2]
  exact hf (i, e) he

def bump (i : NodeId) (t : Time) : Action :=
  .inner i (.command (at_time t) [lit "CLUSTER", lit "BUMPEPOCH"] [])

/-- The link `i` opened to `n` comes up. -/
def connects (i n : NodeId) (t : Time) : Action := .inner i (.connected (at_time t) n)

theorem eq_of_event_inner {p : NodeId × Cluster.Event} (hp : p ∈ w.event (.inner i e)) :
    p = (i, e) := by
  simp only [event] at hp
  split at hp
  · cases hp
  · exact (Option.some.inj hp).symm

/-- In surroundings that draw 0, only node 0 draws its own id. -/
theorem fresh_inner (hi : i ≠ 0) (he : ∀ env ∈ e.envs, ∃ t, env = at_time t) :
    w.Fresh (.inner i e) := by
  intro p hp
  rw [eq_of_event_inner hp]
  rintro ⟨env, henv, ip, port, cport, h⟩
  obtain ⟨t, rfl⟩ := he env henv
  exact hi h

end World

end EpochKV

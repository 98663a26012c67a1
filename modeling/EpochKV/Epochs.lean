/-
Epochs are ordered: a node's current epoch is at least every config epoch it knows.

`Sound` is that fact, with what it needs to survive: the file and every message in
flight are ordered in the same way, no election is ahead of the current epoch, and
no node names itself as its master. `Advances K c c'` says that `c'` is sound if `c`
was, and that the config epochs of the nodes outside `K` have not risen, our own
apart. Every change advances, so every event does.
-/
import EpochKV.Events

set_option autoImplicit false

namespace EpochKV

open Commands

/-- The row of node `id`, known to a node whose current epoch is `current`. -/
structure Node.Sound (current : Nat) (id : NodeId) (n : Node) : Prop where
  epoch : n.config_epoch ≤ current
  master : n.master_id ≠ some id

/-- The nodes a message is about: its sender, and the node an UPDATE is for. -/
def Cause.about (o : Cause) (n : NodeId) : Prop :=
  ∃ m, o.msg = some m ∧ (n = m.sender ∨ n = m.update_id)

/-- A cause that brings no message. -/
theorem Cause.sound_of_none {o : Cause} (h : o.msg = none) : o.Sound := by
  intro m hm
  rw [h] at hm
  cases hm

variable {c : Cluster} {m : Message} {n : NodeId}

namespace Cluster

structure Sound (c : Cluster) : Prop where
  rows : ∀ n, (c.table.node n).Sound c.current_epoch n
  election : c.election.epoch ≤ c.current_epoch
  /-- The file is our own. -/
  file : c.disk.table.myself = c.myself
  saved : ∀ n, (c.disk.table.node n).Sound c.disk.current_epoch n
  sent : ∀ m ∈ c.sent, m.2.Sound ∧ m.2.sender = c.myself

structure Advances (K : NodeId → Prop) (c c' : Cluster) : Prop where
  myself : c'.myself = c.myself
  sound : c.Sound → c'.Sound
  rows : ∀ n, n ≠ c.myself → ¬ K n → (c'.table.node n).config_epoch ≤ (c.table.node n).config_epoch

/-! ## What is said is sound -/

theorem Sound.config_le (h : c.Sound) (o : Option NodeId) :
    (o.map fun m => (c.table.node m).config_epoch).getD 0 ≤ c.current_epoch := by
  cases o with
  | none => exact Nat.zero_le _
  | some m => exact (h.rows m).epoch

theorem Sound.said (h : c.Sound) (hm : c.Says m) : m.Sound where
  config := by
    rw [hm.config, hm.current]
    exact h.config_le _
  update := by
    rw [hm.current]
    rcases hm.update_epoch with hu | hu
    · rw [hu]
      exact Nat.zero_le _
    · rw [hu]
      exact (h.rows _).epoch
  master := by
    rw [hm.master_id, hm.sender]
    exact (h.rows c.myself).master

/-! ## Changes -/

variable {K : NodeId → Prop} {o : Cause} {c c' c₁ : Cluster}

namespace Advances

theorem refl (c : Cluster) : Advances K c c := ⟨rfl, id, fun _ _ _ => le_rfl⟩

theorem trans (h : Advances K c c₁) (h' : Advances K c₁ c') : Advances K c c' where
  myself := h'.myself.trans h.myself
  sound hs := h'.sound (h.sound hs)
  rows n hn hK := (h'.rows n (fun e => hn (e.trans h.myself)) hK).trans (h.rows n hn hK)

end Advances

section

variable (h : Change o c c')
include h

/-- No election gets ahead of the current epoch. -/
theorem Change.election_le (he : c.election.epoch ≤ c.current_epoch) :
    c'.election.epoch ≤ c'.current_epoch := by
  cases h with
  | aside hs =>
    rw [hs.election, hs.current]
    exact he
  | advance hle => exact he.trans hle
  | elect hel =>
    cases hel with
    | counted _ _ | cleared _ => exact he
    | held _ hel => exact hel.elim (fun heq => heq.le.trans he) fun hle => hle
  | _ => exact he

/-- A row of a sound node stays sound: what comes from a message is ordered there, and a
row that is new is at epoch 0. -/
theorem Sound.row_change (hc : c.Sound) (ho : o.Sound) (n : NodeId) :
    (c'.table.node n).Sound c'.current_epoch n := by
  have hcur := h.current_le
  cases h.rewrites n with
  | edited he _ =>
    refine ⟨?_, ?_⟩
    · rcases he.epoch with heq | hr
      · rw [heq]
        exact (hc.rows n).epoch.trans hcur
      · exact (hr.current ho hc.election).trans hcur
    · rcases he.master_id with hid | ⟨-, hid | ⟨msg, hmsg, rfl, hid⟩ | ⟨rfl, m, hid, hm, -⟩⟩
      · rw [hid]
        exact (hc.rows n).master
      · rw [hid]
        exact (Option.some_ne_none _).symm
      · rw [hid]
        exact (ho msg hmsg).master
      · rw [hid]
        exact fun heq => hm (Option.some.inj heq)
  | created _ hr =>
    have hoff := hr.office
    simp only [Node.office, Prod.mk.injEq] at hoff
    refine ⟨hoff.1.le.trans (Nat.zero_le _), ?_⟩
    rw [hoff.2.2.2.2.1]
    exact (Option.some_ne_none _).symm
  | met hi hx hr =>
    rename_i x m
    subst hx
    refine ⟨le_trans ?_ hcur, ?_⟩
    · rw [hr]
      show ((c.table.rename_node x m.sender).node m.sender).config_epoch ≤ _
      -- the row of the handshake, or its own if it had one
      rcases node_rename_self c.table x m.sender with heq | ⟨-, heq⟩
      · rw [heq]
        exact (hc.rows x).epoch
      · rw [heq]
        exact (hc.rows m.sender).epoch
    · rw [hr]
      exact (ho m hi.msg).master

/-- **A change keeps a node sound.** -/
theorem Sound.change (hc : c.Sound) (ho : o.Sound) : c'.Sound where
  rows := hc.row_change h ho
  election := h.election_le hc.election
  file := by
    rw [h.myself]
    rcases h.disk_cases with hd | ⟨v, hd⟩
    · rw [hd]
      exact hc.file
    · rw [hd]
      rfl
  saved n := by
    rcases h.disk_cases with hd | ⟨v, hd⟩
    · rw [hd]
      exact hc.saved n
    · rw [hd]
      exact ⟨(hc.rows n).epoch, (hc.rows n).master⟩
  sent m hm := by
    rw [h.myself]
    rcases h.sent_cases hm with hm | ⟨hm, -⟩
    · exact hc.sent m hm
    · exact ⟨hc.said hm, hm.sender⟩

/-- **Every change advances.** -/
theorem Advances.change (ho : o.Sound) : Advances o.about c c' where
  myself := h.myself
  sound hc := hc.change h ho
  rows n hme hK := by
    cases h.rewrites n with
    | edited he _ =>
      rcases he.epoch with heq | hr
      · exact heq.le
      · -- a row that rises is ours, or shown by the message
        rcases hr.who with hn | ⟨⟨msg, hmsg, hn⟩, -⟩
        · exact absurd hn hme
        · exact absurd ⟨msg, hmsg, hn.imp And.left fun hu => hu.2.1⟩ hK
    | created _ hr =>
      rw [show (c'.table.node n).config_epoch = 0 from congrArg Prod.fst hr.office]
      exact Nat.zero_le _
    | met hi hx _ => exact absurd ⟨_, hi.msg, Or.inl hx⟩ hK

end

theorem Advances.changes (ho : o.Sound) (h : Changes o c c') : Advances o.about c c' := by
  induction h with
  | refl => exact refl c
  | tail _ hs ih => exact ih.trans (change hs ho)

/-- Without a message, no config epoch rises but our own. -/
theorem Advances.of_none (hm : o.msg = none) (h : Changes o c c') :
    Advances (fun _ => False) c c' := by
  have ha := Advances.changes (Cause.sound_of_none hm) h
  refine ⟨ha.myself, ha.sound, fun n hn _ => ha.rows n hn ?_⟩
  rintro ⟨m, hm', -⟩
  rw [hm] at hm'
  cases hm'

/-! ## Whole events -/

theorem Sound.silent (h : c.Sound) : { c with sent := [] }.Sound :=
  ⟨h.rows, h.election, h.file, h.saved, List.forall_mem_nil _⟩

/-- What a process reads from a sound file is sound. -/
theorem sound_from_config {conf : Conf} (h : ∀ n, (conf.table.node n).Sound conf.current_epoch n)
    (env : Env) (options : Options) (store : Store) : (from_config env options conf store).Sound where
  rows n := ⟨(h n).epoch, (h n).master⟩
  election := Nat.zero_le _
  file := rfl
  saved := h
  sent := List.forall_mem_nil _

/-- A process that is started for the first time is sound, and goes by the id it has drawn. -/
theorem sound_first_start (env : Env) (options : Options) (store : Store) (id : NodeId) :
    (first_start env options store id).Sound ∧ (first_start env options store id).myself = id := by
  have hrow : ∀ n, ((first_conf id).table.node n).Sound 0 n := by
    intro n
    unfold first_conf
    dsimp only
    split <;> exact ⟨le_rfl, nofun⟩
  have ha := Advances.changes (Cause.sound_of_none rfl) (changes_first_start env options store id)
  exact ⟨ha.sound (sound_from_config hrow env options store), ha.myself⟩

/-- **Only the sender of a message, and the node an UPDATE is about, can come to be known
under a higher config epoch in an event**, besides the process itself. -/
theorem advances_step (c : Cluster) {e : Event} (hr : e.is_restart = false)
    (hp : ∀ m, e.message = some m → m.Sound) :
    Advances (e.cause { c with sent := [] }).about { c with sent := [] } (c.step e) :=
  Advances.changes hp (changes_handle _ hr)

/-- **Epochs stay ordered.** Every event of a node's life, crashes included, leaves the
node sound and sends sound messages, if the messages it is given are. -/
theorem Sound.step (h : c.Sound) (e : Event) (hp : ∀ m, e.message = some m → m.Sound) :
    (c.step e).Sound ∧ (c.step e).myself = c.myself := by
  rcases step_cases c e with ⟨hr, -⟩ | ⟨env, store, -, hcs⟩
  · have ha := advances_step c hr hp
    exact ⟨ha.sound h.silent, ha.myself⟩
  · have ha := Advances.changes (Cause.sound_of_none rfl) hcs
    exact ⟨ha.sound (sound_from_config h.saved env _ store), ha.myself.trans h.file⟩

/-! ## 64 bits -/

/-- What is sent in an event has an epoch that the node has reached by its end. -/
theorem sent_current_le (c : Cluster) (e : Event) :
    ∀ m ∈ (c.step e).sent, m.2.current_epoch ≤ (c.step e).current_epoch := by
  have hchange : ∀ (o : Cause) (a b : Cluster), (∀ m ∈ a.sent, m.2.current_epoch ≤ a.current_epoch) →
      Change o a b → ∀ m ∈ b.sent, m.2.current_epoch ≤ b.current_epoch := by
    intro o a b ha hs m hm
    rcases hs.sent_cases hm with hold | ⟨hsaid, -⟩
    · exact (ha m hold).trans hs.current_le
    · rw [hsaid.current]
      exact hs.current_le
  rcases step_cases c e with ⟨-, hcs⟩ | ⟨env, store, -, hcs⟩
  · exact hcs.invariant (hchange _) (List.forall_mem_nil _)
  · exact hcs.invariant (hchange _) (List.forall_mem_nil _)

end Cluster

end EpochKV

/-
Slot claims at an observer, and when they converge.

For one slot that the observer neither owns nor imports, a PING or PONG of a known
master is a bid: `process_packet` raises the sender's epoch, and hands the slot over
if the claim lists it and the recorded owner's epoch is lower. Nothing else in the
function touches the slot's owner or the epochs of other nodes, so a run of such
messages **is** a contest (`packet_bid`), and whether every merge of the masters'
claims ends with the same owner is a question about contests, answered in
`Ownership`.
-/
import EpochKV.Handlers

set_option autoImplicit false

namespace EpochKV

open Text Slots Commands

/-- What decides how a node's claims are treated. -/
def Node.standing (n : Node) : Nat × Bool × Bool := (n.config_epoch, n.handshake, n.master)

variable {env : Env} {msg : Message} {c' : Cluster} {n : NodeId}

namespace Cluster

/-- Between `c` and `c'` the slot kept its owner, and the nodes `K` their standing. -/
structure Keeps (K : List NodeId) (s : Slot) (c c' : Cluster) : Prop where
  myself : c'.myself = c.myself
  owner : c'.table.own.owner s = c.table.own.owner s
  importing : c.table.importing_from s = none → c'.table.importing_from s = none
  known : ∀ n ∈ K, n ∈ c.table.known → n ∈ c'.table.known
  standing : ∀ n ∈ K, n ≠ c.myself → (c'.table.node n).standing = (c.table.node n).standing

namespace Keeps

variable {K : List NodeId} {s : Slot} {c c' : Cluster}

theorem same (h : c'.table = c.table) : Keeps K s c c' where
  myself := congrArg Table.myself h
  owner := congrArg (fun t => t.own.owner s) h
  importing hi := by rwa [h]
  known _ _ hk := by rwa [h]
  standing _ _ _ := by rw [h]

theorem refl (c : Cluster) : Keeps K s c c := same rfl

theorem trans {c₁ c₂ : Cluster} (h : Keeps K s c c₁) (h' : Keeps K s c₁ c₂) : Keeps K s c c₂ where
  myself := h'.myself.trans h.myself
  owner := h'.owner.trans h.owner
  importing hi := h'.importing (h.importing hi)
  known n hn hk := h'.known n hn (h.known n hn hk)
  standing n hn hne :=
    (h'.standing n hn (fun e => hne (e.trans h.myself))).trans (h.standing n hn hne)

theorem ite {a b : Cluster} {p : Prop} [Decidable p] (ha : Keeps K s c a) (hb : Keeps K s c b) :
    Keeps K s c (if p then a else b) := by
  by_cases h : p
  · rwa [if_pos h]
  · rwa [if_neg h]

/-- Our own row may change in any way. -/
theorem modify_myself (c : Cluster) (f : Node → Node) : Keeps K s c (c.modify c.myself f) := by
  refine ⟨rfl, rfl, id, fun _ _ hk => hk, fun m _ hm => ?_⟩
  exact congrArg Node.standing (Function.update_of_ne hm _ _)

end Keeps

/-! ## The parts of `process_packet` that bid nothing -/

section

variable {K : List NodeId} {s : Slot} {o : Cause} {c c' : Cluster}

/-- While a message is read and nothing is decided, slots stay where they are, and nobody
leaves. -/
theorem Change.of_no_act (h : Change o c c') (ha : ¬ o.acts) (hm : o.msg ≠ none) (s : Slot) :
    c'.table.own = c.table.own ∧ (∀ n ∈ c.table.known, n ∈ c'.table.known) ∧
      (c.table.importing_from s = none → c'.table.importing_from s = none) := by
  cases h with
  | aside hs =>
    rw [hs.table]
    exact ⟨rfl, fun _ hn => hn, id⟩
  | give hx =>
    cases hx with
    | adopted hnone _ _ => exact absurd hnone hm
    | freed hnone _ _ => exact absurd hnone hm
    | claimed _ hact | resigned _ hact | disowned hact | placed _ hact => exact absurd hact ha
  | succeed hact _ _ _ _ => exact absurd hact ha
  | mark hr =>
    refine ⟨rfl, fun _ hn => hn, fun hi => ?_⟩
    cases hr with
    | dropped _ hdrop => exact (hdrop s).elim id fun he => he.trans hi
    | sent _ _ _ _ => exact hi
    | accepted hact _ _ _ => exact absurd hact ha
    | foreign hnone _ _ => exact absurd hnone hm
  | create _ _ => exact ⟨rfl, fun n hn => mem_known_create.mpr (Or.inl hn), id⟩
  | delete hn _ =>
    rcases hn with hn | hn
    · exact absurd hn.2 ha
    · exact absurd hn.1 hm
  | complete hi => exact absurd hi.acts ha
  | _ => exact ⟨rfl, fun _ hn => hn, id⟩

theorem Change.keeps (h : Change o c c') (ha : ¬ o.acts) (hm : o.msg ≠ none)
    (hd : ∀ n ∈ K, ¬ o.drawn n) : Keeps K s c c' := by
  obtain ⟨hown, hknown, himp⟩ := h.of_no_act ha hm s
  refine ⟨h.myself, by rw [hown], himp, fun n _ hn => hknown n hn, fun n hn hne => ?_⟩
  cases h.rewrites n with
  | edited he _ =>
    have hrole := he.role.resolve_right fun hr => ha hr.1
    have hepoch := he.epoch.resolve_right fun hr =>
      hr.why.elim ha fun hwhy => hne hwhy.1
    unfold Node.standing
    rw [hrole.1, hepoch, he.handshake]
  | created hdrawn _ => exact absurd hdrawn (hd n hn)
  | met hi _ _ => exact absurd hi.acts ha

/-- A message is read, for everything but what it decides. -/
def chatter (K : List NodeId) (msg : Message) : Cause :=
  { Cause.still with msg := some msg, drawn := fun n => n ∉ K }

theorem Changes.keeps {m : Message} (h : Changes (chatter K m) c c') : Keeps K s c c' := by
  induction h with
  | refl => exact Keeps.refl c
  | tail _ hlast ih => exact ih.trans (hlast.keeps id nofun fun n hn hnot => hnot hn)

end

/-! ## A claim is a bid -/

variable {K : List NodeId} {s : Slot} {c : Cluster}

/-- The contest over `s` as the observer sees it. Its own epoch plays no part: it does
not own the slot, and it makes no claims to itself. -/
def contest (K : List NodeId) (s : Slot) (c : Cluster) : Contest NodeId where
  holder := c.table.own.owner s
  epoch := fun n => if n ∈ K ∧ n ≠ c.myself then (c.table.node n).config_epoch else 0

def bid_of (s : Slot) (msg : Message) : Bid NodeId :=
  { bidder := msg.sender, epoch := msg.config_epoch, listed := s ∈ msg.slots }

section

variable (h : Keeps K s c c')
include h

theorem Keeps.contest : Cluster.contest K s c' = Cluster.contest K s c := by
  unfold Cluster.contest
  congr 1
  · exact h.owner
  · funext n
    rw [h.myself]
    by_cases hn : n ∈ K ∧ n ≠ c.myself
    · rw [if_pos hn, if_pos hn]
      exact congrArg Prod.fst (h.standing n hn.1 hn.2)
    · rw [if_neg hn, if_neg hn]

/-- The observer has no stake in the slot, and the slot's owner is among the nodes. -/
structure Watches (K : List NodeId) (s : Slot) (c : Cluster) : Prop where
  importing : c.table.importing_from s = none
  foreign : c.table.own.owner s ≠ some c.myself
  owner : ∀ o, c.table.own.owner s = some o → o ∈ K

/-- A master that the observer knows. -/
structure Master (K : List NodeId) (c : Cluster) (n : NodeId) : Prop where
  mem : n ∈ K
  known : n ∈ c.table.known
  other : n ≠ c.myself
  met : (c.table.node n).handshake = false
  master : (c.table.node n).master = true

theorem Keeps.watches (hw : Watches K s c) : Watches K s c' where
  importing := h.importing hw.importing
  foreign := by
    rw [h.owner, h.myself]
    exact hw.foreign
  owner := by
    rw [h.owner]
    exact hw.owner

theorem Keeps.master (hn : Master K c n) : Master K c' n where
  mem := hn.mem
  known := h.known n hn.mem hn.known
  other := by
    rw [h.myself]
    exact hn.other
  met := (congrArg (fun p => p.2.1) (h.standing n hn.mem hn.other)).trans hn.met
  master := (congrArg (fun p => p.2.2) (h.standing n hn.mem hn.other)).trans hn.master

end

/-- Losing slots of our own, up to becoming a replica, does not touch this one. -/
theorem keeps_set_as_replica_of (hf : c.table.own.owner s ≠ some c.myself) (m : NodeId) :
    Keeps K s c (c.set_as_replica_of m) := by
  have hr : Keeps K s c c.reset_manual_failover := Keeps.same (table_reset_manual_failover c)
  have hs : ∀ c', Keeps K s c c' →
      Keeps K s c (c'.set_slots (c'.table.own.slots c'.myself) none).clear_moves := by
    intro c' h
    refine h.trans ⟨myself_set_slots .., ?_, fun _ => rfl, fun n _ hk => ?_, fun n _ _ => ?_⟩
    · refine (owner_set_slots ..).trans (if_neg ?_)
      rw [← c'.table.own.owner_iff, h.owner, h.myself]
      exact hf
    · exact (known_set_slots c' _ _).symm ▸ hk
    · exact congrArg (fun f => (f n).standing) (node_set_slots c' _ _)
  unfold set_as_replica_of
  refine Keeps.trans ?_ (Keeps.same (c := follow_master _) rfl)
  exact ((hs _ hr).trans (Keeps.modify_myself _ _)).trans (Keeps.same (table_follow_master _))

section

variable (hw : Watches K s c)
include hw

theorem mem_claimed (n : NodeId) (e : Nat) (slots : SlotBitmap) :
    s ∈ c.claimed n e slots ↔ s ∈ slots ∧
      ∀ o, c.table.own.owner s = some o → o ≠ n ∧ (c.table.node o).config_epoch < e := by
  unfold claimed beats
  rw [Finset.mem_filter, hw.importing]
  cases c.table.own.owner s with
  | none | some => simp

omit hw in
/-- Apart from the slots it takes, a claim leaves everything as it was. -/
theorem take_claimed_spec (c : Cluster) (n : NodeId) (e : Nat) (slots : SlotBitmap) (s : Slot) :
    (c.take_claimed n e slots).myself = c.myself ∧
      (c.take_claimed n e slots).table.own.owner s
        = (if s ∈ c.claimed n e slots then some n else c.table.own.owner s) ∧
      (c.take_claimed n e slots).table.importing_from = c.table.importing_from ∧
      (c.take_claimed n e slots).table.known = c.table.known ∧
      (c.take_claimed n e slots).table.node = c.table.node := by
  unfold Cluster.myself
  rw [table_take_claimed]
  exact ⟨myself_set_slots .., owner_set_slots .., importing_set_slots .., known_set_slots ..,
    node_set_slots ..⟩

/-- After the claim only slots that are ours can still change. -/
theorem keeps_update_slots (hn : n ≠ c.myself) (e : Nat) (slots : SlotBitmap) :
    Keeps K s (c.take_claimed n e slots) (c.update_slots_config_with n e slots) := by
  obtain ⟨hme, how, -⟩ := take_claimed_spec c n e slots s
  have hf : (c.take_claimed n e slots).table.own.owner s ≠
      some (c.take_claimed n e slots).myself := by
    rw [how, hme]
    split
    · exact fun h => hn (Option.some.inj h)
    · exact hw.foreign
  have hk := Keeps.refl (K := K) (s := s) (c.take_claimed n e slots)
  unfold update_slots_config_with
  rw [if_neg hn]
  exact Keeps.ite (Keeps.ite (keeps_set_as_replica_of hf n) hk) (Keeps.ite (hk.trans (Keeps.same rfl)) hk)

omit hw in
/-- The holder after a bid does not depend on the bidder's own epoch. -/
theorem holder_bid_update (d : Contest NodeId) (b : Bid NodeId) (e : Nat) :
    (Contest.bid { d with epoch := Function.update d.epoch b.bidder e } b).holder
      = (d.bid b).holder := by
  unfold Contest.bid
  cases d.holder with
  | none => rfl
  | some m =>
    by_cases hm : m = b.bidder
    · simp [hm]
    · simp [hm]

/-- The slot goes to the claimant exactly if the contest says so. -/
theorem owner_take_claimed :
    (c.take_claimed msg.sender msg.config_epoch msg.slots).table.own.owner s
      = ((contest K s c).bid (bid_of s msg)).holder := by
  rw [(take_claimed_spec c msg.sender msg.config_epoch msg.slots s).2.1]
  unfold Contest.bid contest bid_of
  cases ho : c.table.own.owner s with
  | none =>
    have hmem := mem_claimed hw msg.sender msg.config_epoch msg.slots
    rw [ho] at hmem
    by_cases hs : s ∈ msg.slots
    · rw [if_pos (hmem.mpr ⟨hs, by simp⟩)]
      simp [hs]
    · rw [if_neg fun h => hs (hmem.mp h).1]
      simp [hs]
  | some o =>
    have hoK : o ∈ K ∧ o ≠ c.myself :=
      ⟨hw.owner o ho, fun h => hw.foreign (ho.trans (congrArg some h))⟩
    have hiff : s ∈ c.claimed msg.sender msg.config_epoch msg.slots ↔
        s ∈ msg.slots ∧ o ≠ msg.sender ∧ (c.table.node o).config_epoch < msg.config_epoch := by
      rw [mem_claimed hw, ho]
      simp
    simp only [hiff, hoK, decide_eq_true_eq, ne_eq, not_false_eq_true, and_self, if_true]

omit hw in
/-- Claiming nothing new: the bid changes nothing either. -/
theorem holder_bid_of_same (h : c.table.own.slots msg.sender = msg.slots) :
    ((contest K s c).bid (bid_of s msg)).holder = c.table.own.owner s := by
  by_cases hs : s ∈ msg.slots
  · have ho : c.table.own.owner s = some msg.sender := by
      rw [c.table.own.owner_iff, h]
      exact hs
    rw [ho]
    exact Contest.holder_bid_of_self (b := bid_of s msg) ho
  · unfold Contest.bid contest bid_of
    cases c.table.own.owner s with
    | none | some => simp [hs]

/-- The claims of a message, all of them: one bid, and nobody's standing changes. -/
theorem note_claims_spec (env : Env) (l : Inlet) (hm : Master K c msg.sender) :
    ∃ c', Keeps K s c' (c.note_claims env l msg.sender msg) ∧ c'.myself = c.myself ∧
      c'.table.own.owner s = ((contest K s c).bid (bid_of s msg)).holder ∧
      c'.table.importing_from = c.table.importing_from ∧ c'.table.known = c.table.known ∧
      c'.table.node = c.table.node := by
  have hslots : ∃ c', Keeps K s c' (if c.table.own.slots msg.sender ≠ msg.slots then
      c.update_slots_config_with msg.sender msg.config_epoch msg.slots else c) ∧
      c'.myself = c.myself ∧
      c'.table.own.owner s = ((contest K s c).bid (bid_of s msg)).holder ∧
      c'.table.importing_from = c.table.importing_from ∧ c'.table.known = c.table.known ∧
      c'.table.node = c.table.node := by
    by_cases hne : c.table.own.slots msg.sender = msg.slots
    · rw [if_neg (not_not.mpr hne)]
      exact ⟨c, .refl c, rfl, (holder_bid_of_same hne).symm, rfl, rfl, rfl⟩
    · rw [if_pos hne]
      obtain ⟨hme, -, himp, hkn, hnode⟩ :=
        take_claimed_spec c msg.sender msg.config_epoch msg.slots s
      have hk := keeps_update_slots hw hm.other msg.config_epoch msg.slots
      exact ⟨_, hk, hme, owner_take_claimed hw, himp, hkn, hnode⟩
  obtain ⟨c', hk, hrest⟩ := hslots
  unfold note_claims
  rw [if_pos hm.master]
  refine ⟨c', hk.trans ?_, hrest⟩
  generalize (if c.table.own.slots msg.sender ≠ msg.slots then
    c.update_slots_config_with msg.sender msg.config_epoch msg.slots else c) = c₁
  -- an UPDATE for a stale owner, and our own epoch if it collides with the sender's
  have hread : (chatter K msg).msg ≠ none := Option.some_ne_none msg
  refine Changes.keeps (Changes.handle_epoch_collision ?_ (Or.inr hread) _)
  split
  · exact Changes.refl c₁
  · rename_i hnewer
    obtain ⟨s, hs⟩ := Changes.owner_of_newer_owner hnewer
    exact Changes.ite (Changes.refl c₁) ((Changes.refl c₁).send_update env _ hs)

/-! ## The whole message -/

omit hw in
/-- The sender's epoch rises with its message, listed slots or not. -/
theorem contest_note_epochs (hm : Master K c msg.sender) :
    contest K s (c.note_epochs msg.sender msg) =
      { contest K s c with
        epoch := Function.update (contest K s c).epoch msg.sender
          (max ((contest K s c).epoch msg.sender) msg.config_epoch) } := by
  have hself : (contest K s c).epoch msg.sender = (c.table.node msg.sender).config_epoch :=
    if_pos ⟨hm.mem, hm.other⟩
  have hcur : ∀ c' : Cluster, c'.table = c.table → contest K s (if (c'.table.node msg.sender).config_epoch
      < msg.config_epoch then (c'.modify msg.sender fun r =>
        { r with config_epoch := msg.config_epoch }).todo_save else c') =
      { contest K s c with
        epoch := Function.update (contest K s c).epoch msg.sender
          (max ((contest K s c).epoch msg.sender) msg.config_epoch) } := by
    intro c' hc
    rw [hself, hc]
    by_cases hlt : (c.table.node msg.sender).config_epoch < msg.config_epoch
    · rw [if_pos hlt, max_eq_right hlt.le]
      unfold contest Cluster.myself modify Table.modify
      simp only [hc, table_todo_save, Contest.mk.injEq, true_and]
      funext n
      by_cases hn : n = msg.sender
      · subst hn
        have hin : msg.sender ∈ K ∧ msg.sender ≠ c.table.myself := ⟨hm.mem, hm.other⟩
        simp [hin]
      · simp [hn]
    · rw [if_neg hlt, max_eq_left (not_lt.mp hlt)]
      unfold contest Cluster.myself
      rw [hc]
      congr 1
      rw [← hself]
      exact (Function.update_eq_self _ _).symm
  unfold note_epochs
  split <;> exact hcur _ rfl

omit hw in
/-- And nothing else about anybody changes with it. -/
theorem note_epochs_keeps_rest (c : Cluster) (n : NodeId) (msg : Message) :
    (c.note_epochs n msg).myself = c.myself ∧
      (c.note_epochs n msg).table.own = c.table.own ∧
      (c.note_epochs n msg).table.importing_from = c.table.importing_from ∧
      (c.note_epochs n msg).table.known = c.table.known ∧
      ∀ m, ((c.note_epochs n msg).table.node m).standing.2 = (c.table.node m).standing.2 := by
  have hrow : ∀ c' : Cluster, ∀ m, ((c'.modify n fun r =>
      { r with config_epoch := msg.config_epoch }).table.node m).standing.2
        = (c'.table.node m).standing.2 := by
    intro c' m
    by_cases h : m = n
    · subst h
      simp [modify, Table.modify, Node.standing]
    · simp [modify, Table.modify, Function.update_of_ne h]
  unfold note_epochs
  dsimp only
  split
  · split
    · exact ⟨rfl, rfl, rfl, rfl, hrow _⟩
    · exact ⟨rfl, rfl, rfl, rfl, fun _ => rfl⟩
  · split
    · exact ⟨rfl, rfl, rfl, rfl, hrow _⟩
    · exact ⟨rfl, rfl, rfl, rfl, fun _ => rfl⟩

theorem watches_note_epochs (n : NodeId) (msg : Message) : Watches K s (c.note_epochs n msg) := by
  obtain ⟨hme, hown, himp, -⟩ := note_epochs_keeps_rest c n msg
  exact ⟨by rw [himp]; exact hw.importing, by rw [hown, hme]; exact hw.foreign,
    by rw [hown]; exact hw.owner⟩

omit hw in
theorem master_note_epochs (n : NodeId) (msg : Message) {m : NodeId} (hm : Master K c m) :
    Master K (c.note_epochs n msg) m := by
  obtain ⟨hme, -, -, hkn, hst⟩ := note_epochs_keeps_rest c n msg
  exact ⟨hm.mem, by rw [hkn]; exact hm.known, by rw [hme]; exact hm.other,
    (congrArg Prod.fst (hst m)).trans hm.met, (congrArg Prod.snd (hst m)).trans hm.master⟩

/-- A packet of the bus, with the link it comes from. -/
structure Packet where
  env : Env
  l : Inlet
  msg : Message

def deliver (c : Cluster) (p : Packet) : Cluster := c.process_packet p.env p.l p.msg

/-- A claim: a PING on a link its sender opened, or a PONG there or on our own link to
the sender. The ids drawn for handshakes are new. -/
structure Packet.Claim (K : List NodeId) (p : Packet) : Prop where
  type : p.msg.type = .kPing ∨ p.msg.type = .kPong
  role : p.msg.replica = false
  link : p.l.node = none ∨ p.msg.type = .kPong ∧ p.l.node = some p.msg.sender
  alive : p.msg.type = .kPing → p.l.dead = false ∧ p.env.overflow = false
  fresh : ∀ ip port cport, p.env.random_id ip port cport ∉ K

omit hw in
theorem keeps_note_role (hm : Master K c msg.sender) (hr : msg.replica = false) :
    Keeps K s c (c.note_role msg.sender msg) := by
  unfold note_role
  rw [if_neg (by simp [hr])]
  refine Keeps.ite ⟨rfl, rfl, id, fun _ _ hk => hk, ?_⟩ (Keeps.refl c)
  intro n _ _
  by_cases h : n = msg.sender
  · subst h
    simp [set_node_as_master, modify, Table.modify, Node.standing, hm.master]
  · exact congrArg Node.standing (Function.update_of_ne h _ _)

/-- From the header on, the message of a known master is its claims and its gossip. -/
theorem on_ping_spec (env : Env) (l : Inlet) (hm : Master K c msg.sender)
    (hr : msg.replica = false) (hl : l.node = none ∨ l.node = some msg.sender)
    (hid : ∀ ip port cport, env.random_id ip port cport ∉ K) :
    ∃ c', Keeps K s c' (c.on_ping env l (some msg.sender) msg) ∧ c'.myself = c.myself ∧
      c'.table.own.owner s = ((contest K s c).bid (bid_of s msg)).holder ∧
      c'.table.importing_from s = none ∧
      (∀ n ∈ K, n ∈ c.table.known → n ∈ c'.table.known) ∧
      ∀ n ∈ K, n ≠ c.myself → (c'.table.node n).standing = (c.table.node n).standing := by
  have hident : ∃ c₁, c.identify env l (some msg.sender) msg = (some msg.sender, c₁) ∧
      Keeps K s c c₁ := by
    unfold identify
    rcases hl with hl | hl
    · rw [hl]
      exact ⟨c, rfl, Keeps.refl c⟩
    · rw [hl]
      dsimp only
      rw [if_neg (by simp [hm.met]), if_neg (not_not.mpr rfl)]
      exact ⟨_, rfl, Changes.keeps (m := msg) ((Changes.refl c).note_pong env _ msg)⟩
  obtain ⟨c₁, hi, hk₁⟩ := hident
  have hk₂ := hk₁.trans (keeps_note_role (s := s) (hk₁.master hm) hr)
  obtain ⟨c', hk', hme, how, himp, hkn, hnode⟩ :=
    note_claims_spec (hk₂.watches hw) env l (hk₂.master hm)
  refine ⟨c', ?_, hme.trans hk₂.myself, how.trans (by rw [hk₂.contest]), ?_, ?_, ?_⟩
  · unfold on_ping
    rw [hi]
    -- the sender is still known when its gossip is looked at
    have hm₂ := hk₂.master hm
    have hm' : Master K c' msg.sender := by
      refine ⟨hm.mem, hkn ▸ hm₂.known, hme ▸ hm₂.other, ?_, ?_⟩
      · rw [hnode]
        exact hm₂.met
      · rw [hnode]
        exact hm₂.master
    have hlast := hk'.master hm'
    exact hk'.trans (Changes.keeps (Changes.process_gossip (Changes.refl _) hid rfl
      (Or.inl ⟨hlast.known, hlast.met⟩) fun _ _ => trivial))
  · rw [himp]
    exact hk₂.importing hw.importing
  · intro n hn hkn'
    rw [hkn]
    exact hk₂.known n hn hkn'
  · intro n hn hne
    rw [hnode]
    exact hk₂.standing n hn hne

omit hw in
/-- What comes before the claims leaves the contest alone. -/
theorem on_message_claim {l : Inlet} {c : Cluster} (hp : Packet.Claim K ⟨env, l, msg⟩) {l' : Inlet}
    (hl : l' = l ∨ msg.type = .kPong ∧ l'.node = none) :
    ∃ c', Keeps K s c c' ∧ (l'.node = none ∨ l'.node = some msg.sender) ∧
      c.on_message env l' (some msg.sender) msg = c'.on_ping env l' (some msg.sender) msg := by
  have hnode : l'.node = none ∨ l'.node = some msg.sender := by
    rcases hl with rfl | hl
    · exact hp.link.imp id And.right
    · exact Or.inl hl.2
  rcases hp.type with ht | ht
  · have hl' : l' = l := by
      rcases hl with hl | ⟨hpong, -⟩
      · exact hl
      · exact absurd (ht.symm.trans hpong) MsgType.noConfusion
    have hcs : Changes (chatter K msg) c (c.answer env l' (some msg.sender) msg) :=
      (Changes.refl c).answer hp.fresh rfl l' (some msg.sender)
    refine ⟨_, hcs.keeps, hnode, ?_⟩
    unfold on_message
    have halive := hp.alive ht
    dsimp only at ht halive
    rw [ht]
    dsimp only
    rw [if_neg]
    rw [hl']
    simp [halive.1, halive.2]
  · refine ⟨c, Keeps.refl c, hnode, ?_⟩
    unfold on_message
    rw [ht]

/-- **A claim is a bid.** -/
theorem packet_bid {p : Packet} (hp : p.Claim K) (hm : Master K c p.msg.sender) :
    contest K s (c.deliver p) = (contest K s c).bid (bid_of s p.msg) ∧
      Watches K s (c.deliver p) ∧ ∀ n, Master K c n → Master K (c.deliver p) n := by
  obtain ⟨env, l, msg⟩ := p
  have hsender : c.sender_of msg = some msg.sender := by
    unfold sender_of Table.lookup
    rw [if_pos hm.known]
    simp [hm.met]
  -- the header: the sender's epoch rises, nothing else of the contest moves
  have hk₂ : Keeps K s (c.note_epochs msg.sender msg) (c.note_sender msg.sender msg) :=
    Changes.keeps (m := msg) ((Changes.refl _).note_ports_offset rfl msg.sender)
  have hl : inlet_after l c msg.sender msg = l ∨
      msg.type = .kPong ∧ (inlet_after l c msg.sender msg).node = none := by
    unfold inlet_after
    split
    · rename_i h
      rcases hp.link with hn | ⟨ht, -⟩
      · exact absurd (hn.symm.trans h.2.2) (by simp)
      · exact Or.inr ⟨ht, rfl⟩
    · exact Or.inl rfl
  obtain ⟨c₃, hk₃, hl₃, hon⟩ := on_message_claim (s := s) (c := c.note_sender msg.sender msg) hp hl
  have hk := hk₂.trans hk₃
  have hw₃ := hk.watches (watches_note_epochs hw msg.sender msg)
  have hm₃ := hk.master (master_note_epochs msg.sender msg hm)
  obtain ⟨c', hk', hme, how, himp, hkn, hst⟩ :=
    on_ping_spec hw₃ env (inlet_after l c msg.sender msg) hm₃ hp.role hl₃ hp.fresh
  have hdel : c.deliver ⟨env, l, msg⟩ =
      c₃.on_ping env (inlet_after l c msg.sender msg) (some msg.sender) msg := by
    unfold deliver process_packet
    rw [hsender]
    exact hon
  rw [hdel]
  have hc₃ : contest K s c₃ = _ := hk.contest.trans (contest_note_epochs hm)
  have hholder : c'.table.own.owner s = ((contest K s c).bid (bid_of s msg)).holder := by
    rw [how, hc₃]
    exact holder_bid_update (contest K s c) (bid_of s msg) _
  have hmec : c'.myself = c.myself :=
    hme.trans (hk.myself.trans (note_epochs_keeps_rest c msg.sender msg).1)
  refine ⟨?_, hk'.watches ⟨himp, ?_, ?_⟩, ?_⟩
  · rw [hk'.contest]
    have hep : (contest K s c').epoch = (contest K s c₃).epoch := by
      funext n
      unfold contest
      dsimp only
      rw [hme]
      by_cases hn : n ∈ K ∧ n ≠ c₃.myself
      · rw [if_pos hn, if_pos hn]
        exact congrArg Prod.fst (hst n hn.1 hn.2)
      · rw [if_neg hn, if_neg hn]
    rw [hc₃] at hep
    exact Contest.ext hholder hep
  · rw [hholder, hmec]
    rcases Contest.holder_bid (contest K s c) (bid_of s msg) with h | ⟨h, -⟩
    · rw [h]
      exact hw.foreign
    · rw [h]
      exact fun e => hm.other (Option.some.inj e)
  · rw [hholder]
    intro o ho
    rcases Contest.holder_bid (contest K s c) (bid_of s msg) with h | ⟨h, -⟩
    · exact hw.owner o (h.symm.trans ho)
    · rw [← Option.some.inj (h.symm.trans ho)]
      exact hm.mem
  · intro n hn
    have h₃ := hk.master (master_note_epochs msg.sender msg hn)
    refine hk'.master ⟨hn.mem, hkn n hn.mem h₃.known, ?_, ?_, ?_⟩
    · rw [hme]
      exact h₃.other
    · exact (congrArg (fun p => p.2.1) (hst n hn.mem h₃.other)).trans h₃.met
    · exact (congrArg (fun p => p.2.2) (hst n hn.mem h₃.other)).trans h₃.master

/-- **A run of claims is a contest.** -/
theorem run_bid {ps : List Packet} (hp : ∀ p ∈ ps, p.Claim K)
    (hm : ∀ p ∈ ps, Master K c p.msg.sender) :
    contest K s (ps.foldl deliver c) = (contest K s c).run (ps.map fun p => bid_of s p.msg) := by
  induction ps generalizing c with
  | nil => rfl
  | cons p ps ih =>
    obtain ⟨hc, hw', hm'⟩ := packet_bid hw (hp p (List.mem_cons_self ..))
      (hm p (List.mem_cons_self ..))
    rw [List.foldl_cons, ih hw' (fun q hq => hp q (List.mem_cons_of_mem _ hq))
      (fun q hq => hm' _ (hm q (List.mem_cons_of_mem _ hq))), hc]
    rfl

end

end Cluster

end EpochKV

/-
Every message a node sends can be read.

`decode` refuses a message with a port that is zero, an id that is not one or flags it
cannot make sense of, and the peer then drops the link. So the encoder must never meet
such a value, wherever it came from: gossip about a node passes on what other messages, a
MEET command, the file and the failure detector put into the table.

`Legible` is what keeps them out. Ids that can be named have forty digits; a row that is
gossiped about has ports, which is why it matters that neither we ourselves nor a node
without an answer are; and no row is at once suspected and failed, because the text has
room for one of the two. What a change does to a row, to an owner, to the file and to what
is sent keeps it, so each event does, as long as the messages it brings have passed
`decode` themselves.
-/
import EpochKV.Roster
import EpochKV.Wire

set_option autoImplicit false

namespace EpochKV

open Text Slots Commands Wire

/-- What a row of the table may put on the wire; `listed` if it may be gossiped about. -/
structure Node.Legible (r : Node) (listed : Prop) : Prop where
  master : ∀ id ∈ r.master_id, IsId id
  health : ¬ (r.pfail = true ∧ r.fail = true)
  width : r.port < 2 ^ 16 ∧ r.cport < 2 ^ 16
  ports : listed ∨ r.handshake = true → r.port ≠ 0 ∧ r.cport ≠ 0

/-- The node may be gossiped about: it is known, and it is not us. -/
def Table.Listed (t : Table) (n : NodeId) : Prop := n ∈ t.known ∧ n ≠ t.myself

/-- Ids are ids wherever they may be named, and so are the ports of whom we gossip about. -/
structure Table.Legible (t : Table) : Prop where
  myself : IsId t.myself
  known : ∀ n ∈ t.known, IsId n
  row : ∀ n, (t.node n).Legible (t.Listed n)
  owner : ∀ s n, t.own.owner s = some n → IsId n

variable {n : NodeId} {msg : Message} {id : NodeId}

namespace Cluster

/-- Table, file, options and messages are legible. -/
structure Legible (c : Cluster) : Prop where
  table : c.table.Legible
  disk : c.disk.table.Legible
  options : IsPort c.options.port ∧ IsPort c.options.cport
  sent : ∀ p ∈ c.sent, Wire.Legible p.2

/-- What is read and what is drawn is legible itself. -/
structure Cause.Heard (o : Cause) : Prop where
  message : ∀ m, o.msg = some m → Addressed m
  drawn : ∀ id, o.drawn id → IsId id

variable {o : Cause} {c c' : Cluster}

section

variable (h : c.Legible)
include h

/-! ## What is written and sent -/

/-- What goes to the file is legible too. -/
theorem Legible.describe_nodes : c.describe_nodes.table.Legible where
  myself := h.table.myself
  known n hn := h.table.known n (List.mem_of_mem_filter hn)
  owner s n hn := h.table.owner s n (Option.filter_eq_some_iff.1 hn).1
  row n := by
    have hr := h.table.row n
    refine ⟨hr.master, hr.health, hr.width, fun hl => ?_⟩
    -- in the file there are no handshakes
    have hlisted : c.describe_nodes.table.Listed n := hl.resolve_right nofun
    exact hr.ports (Or.inl ⟨List.mem_of_mem_filter hlisted.1, hlisted.2⟩)

/-- The header says who we are, where, and whose replica. -/
theorem Legible.header (env : Env) (type : MsgType) : Wire.Legible (c.header env type) where
  sender := h.table.myself
  port := h.options.1
  cport := h.options.2
  master := (h.table.row c.table.myself).master
  gossip := nofun
  update := isId_zero
  fail := isId_zero
  health := nofun
  gossips _ := rfl
  updates _ := ⟨rfl, rfl, rfl⟩
  fails _ := rfl

/-- Only nodes that are known, with ports, are gossiped about. -/
theorem Legible.gossip_entry {l : Option NodeId} (hn : c.candidate l n = true) :
    (IsId (c.gossip_entry n).id ∧ IsPort (c.gossip_entry n).port ∧ IsPort (c.gossip_entry n).cport)
      ∧ ¬ ((c.gossip_entry n).pfail = true ∧ (c.gossip_entry n).fail = true) := by
  obtain ⟨hknown, hne, -⟩ := of_decide_eq_true hn
  have hr := h.table.row n
  have hports := hr.ports (Or.inl ⟨hknown, hne⟩)
  exact ⟨⟨h.table.known n hknown, ⟨hports.1, hr.width.1⟩, hports.2, hr.width.2⟩, hr.health⟩

/-- Whatever a node says can be read. -/
theorem Legible.says (hs : c.Says msg) : Wire.Legible msg := by
  cases hs with
  | ping env l ht =>
    have hpings : ∀ {t : MsgType}, t = .kPing ∨ t = .kPong ∨ t = .kMeet → pings t := by
      rintro t (rfl | rfl | rfl)
      · decide
      · decide
      · decide
    refine { h.header env _ with
      gossip := fun g hg => ?_, health := fun g hg => ?_, gossips := fun hno => absurd (hpings ht) hno }
    · obtain ⟨n, rfl, hn⟩ := candidate_of_gossip hg
      exact (h.gossip_entry hn).1
    · obtain ⟨n, rfl, hn⟩ := candidate_of_gossip hg
      exact (h.gossip_entry hn).2
  | update env hown =>
    exact { h.header env .kUpdate with
      update := h.table.owner _ _ hown
      updates := fun hno => absurd rfl hno }
  | fail env hk =>
    exact { h.header env .kFail with
      fail := h.table.known _ hk
      fails := fun hno => absurd rfl hno }
  | request env _ => exact { h.header env .kFailoverAuthRequest with }
  | ack env | mf_start env => exact h.header env _

/-! ## One change -/

theorem Legible.known_change (ho : Cause.Heard o) (hs : Change o c c') (hn : n ∈ c'.table.known) :
    IsId n := by
  cases hs.rewrites n with
  | edited _ hk => exact h.table.known n (hk hn)
  | created hd _ => exact ho.drawn n hd
  | met hi hx _ => exact hx ▸ (ho.message _ hi.msg).sender

theorem Legible.owner_change (ho : Cause.Heard o) (hs : Change o c c') {s : Slot}
    (hn : c'.table.own.owner s = some n) : IsId n := by
  have hpass := hs.passes s
  rw [hn] at hpass
  generalize hx : some n = x at hpass
  cases hpass with
  | kept => exact h.table.owner s n hx.symm
  | lost _ _ => cases hx
  | claimed hc _ _ hp _ =>
    obtain rfl := Option.some.inj hx
    rcases hp.2 with hp | ⟨hd, -⟩
    · exact h.table.known n hp.1
    · exact ho.drawn n hd
  | given _ hgiven =>
    rcases hgiven n hx.symm with rfl | hp
    · exact h.table.myself
    · exact h.table.known n hp.1
  | renamed _ hi => exact Option.some.inj hx ▸ (ho.message _ hi.msg).sender

/-- An edit takes its master and its ports from the message, from ourselves, or leaves them. -/
theorem Legible.row_edit {t : Todo} {r : Node} {listed : Prop} (ho : Cause.Heard o)
    (he : Edit o c t n r) (hl : listed → c.table.Listed n) : r.Legible listed := by
  have hr := h.table.row n
  refine ⟨fun id hid => ?_, ?_, ?_, fun hlisted => ?_⟩
  · rcases he.master_id with hsame | ⟨-, hnone | ⟨m, hm, -, hid'⟩ | ⟨-, m, hm, -, hwho⟩⟩
    · exact hr.master id (hsame ▸ hid)
    · rw [hnone] at hid
      cases hid
    · exact (ho.message m hm).master id (hid' ▸ hid)
    · obtain rfl : m = id := Option.some.inj (hm.symm.trans hid)
      rcases hwho with hk | ⟨e, slots, msg, hmsg, hclaim, -⟩
      · exact h.table.known m hk
      · -- a claim is its sender's, or that of the node of an UPDATE
        have haddr := ho.message msg hmsg
        unfold Message.claim at hclaim
        split at hclaim
        · cases hclaim
          exact haddr.update
        · cases hclaim
          exact haddr.sender
  · rcases he.health with ⟨hpfail, hfail⟩ | ⟨-, hnot, -⟩
    · rw [hpfail, hfail]
      exact hr.health
    · exact hnot
  · rcases he.ports with ⟨hp, hc⟩ | ⟨m, hm, hp, hc⟩ | ⟨hp, hc⟩
    · rw [hp, hc]
      exact hr.width
    · rw [hp, hc]
      exact ⟨(ho.message m hm).port.2, (ho.message m hm).cport.2⟩
    · rw [hp, hc]
      exact ⟨h.options.1.2, h.options.2.2⟩
  · rcases he.ports with ⟨hp, hc⟩ | ⟨m, hm, hp, hc⟩ | ⟨hp, hc⟩
    · rw [hp, hc]
      exact hr.ports (hlisted.imp hl fun hh => he.handshake ▸ hh)
    · rw [hp, hc]
      exact ⟨(ho.message m hm).port.1, (ho.message m hm).cport.1⟩
    · rw [hp, hc]
      exact ⟨h.options.1.1, h.options.2.1⟩

omit h in
/-- A placeholder is met at an address that can be passed on. -/
theorem Placeholder.legible {r : Node} {listed : Prop} (hr : Placeholder o r) (ho : Cause.Heard o) :
    r.Legible listed := by
  have hoffice := hr.office
  simp only [Node.office, Prod.mk.injEq] at hoffice
  have hmaster : r.master_id = none := hoffice.2.2.2.2.1
  refine ⟨fun id hid => ?_, fun hboth => ?_, ?_, fun _ => hr.ports⟩
  · rw [hmaster] at hid
    cases hid
  · rw [hr.health.1] at hboth
    cases hboth.1
  · rcases hr.addressed with hw | ⟨m, hm, ⟨hp, hc⟩ | ⟨g, hg, hp, hc⟩⟩
    · exact hw
    · rw [hp, hc]
      exact ⟨(ho.message m hm).port.2, (ho.message m hm).cport.2⟩
    · obtain ⟨-, hport, hcport⟩ := (ho.message m hm).gossip g hg
      rw [hp, hc]
      exact ⟨hport.2, hcport.2⟩

theorem Legible.row_change (ho : Cause.Heard o) (hs : Change o c c') (n : NodeId) :
    (c'.table.node n).Legible (c'.table.Listed n) := by
  have hme : c'.table.myself = c.table.myself := hs.myself
  cases hs.rewrites n with
  | edited he hk => exact h.row_edit ho he fun hl => ⟨hk hl.1, hme ▸ hl.2⟩
  | created _ hr => exact hr.legible ho
  | met hi hx hr =>
    rename_i p m
    -- the row was a placeholder's, with ports, or that of a node that we know
    have hrow : ((c.table.rename_node p n).node n).Legible (c'.table.Listed n) := by
      rcases node_rename_self c.table p n with heq | ⟨hk, heq⟩
      · rw [heq]
        exact { h.table.row p with ports := fun _ => (h.table.row p).ports (Or.inr hi.placeholder) }
      · rw [heq]
        have hold := h.table.row n
        exact { hold with ports := fun hl => hold.ports (hl.imp (fun hl => ⟨hk, hme ▸ hl.2⟩) id) }
    rw [hr]
    exact { hrow with
      master := (ho.message m hi.msg).master
      ports := fun hl => hrow.ports (Or.inl (hl.resolve_right Bool.false_ne_true)) }

theorem Legible.change (ho : Cause.Heard o) (hs : Change o c c') : c'.Legible where
  table := by
    refine ⟨?_, fun n hn => h.known_change ho hs hn, h.row_change ho hs,
      fun s n hn => h.owner_change ho hs hn⟩
    have hme : c'.table.myself = c.table.myself := hs.myself
    rw [hme]
    exact h.table.myself
  disk := by
    rcases hs.disk_cases with hd | ⟨v, hd⟩
    · rw [hd]
      exact h.disk
    · rw [hd]
      exact h.describe_nodes
  options := by
    rw [hs.options]
    exact h.options
  sent p hp := by
    rcases hs.sent_cases hp with hold | ⟨hsaid, -⟩
    · exact h.sent p hold
    · exact h.says hsaid

theorem Legible.changes (ho : Cause.Heard o) (hs : Changes o c c') : c'.Legible :=
  hs.invariant (fun _ _ ha hab => ha.change ho hab) h

end

/-- What a process reads from a legible file. A first one has no address for us yet; the
options have one. -/
theorem legible_from_config {conf : Conf} (hc : conf.table.Legible) (env : Env) {options : Options}
    (ho : IsPort options.port ∧ IsPort options.cport) (store : Store) :
    (from_config env options conf store).Legible where
  disk := hc
  options := ho
  sent := List.forall_mem_nil _
  table := by
    refine ⟨hc.myself, hc.known, fun n => ?_,
      fun s n hn => hc.owner s n (Option.filter_eq_some_iff.1 hn).1⟩
    have hr := hc.row n
    refine ⟨hr.master, hr.health, hr.width, fun hl => hr.ports (Or.inl ?_)⟩
    exact hl.resolve_right Bool.false_ne_true

theorem heard_still : Cause.Heard Cause.still := ⟨fun _ hm => (nomatch hm), fun _ hd => hd.elim⟩

/-! ## Runs -/

/-- The message an event brings has come through `decode`, and a placeholder gets an id of
forty digits. -/
structure Event.Heard (e : Event) : Prop where
  message : ∀ msg ∈ e.message, ∃ argv, decode argv = some msg
  drawn : ∀ id, e.draws id → IsId id

/-- A process that finds no file, under the ports the command line gives it. -/
def Addressable (c : Cluster) : Prop :=
  ∃ env options store id, IsId id ∧ IsPort options.port ∧ IsPort options.cport ∧
    c = first_start env options store id

theorem Event.Heard.cause {e : Event} (he : e.Heard) (c : Cluster) : Cause.Heard (e.cause c) where
  message m hm := by
    obtain ⟨argv, hargv⟩ := he.message m hm
    exact addressed_of_decode hargv
  drawn := he.drawn

theorem Legible.step (h : c.Legible) {e : Event} (he : e.Heard) : (c.step e).Legible := by
  rcases step_cases c e with ⟨-, hcs⟩ | ⟨env, store, -, hcs⟩
  · have hclear : ({ c with sent := [] } : Cluster).Legible := { h with sent := List.forall_mem_nil _ }
    exact hclear.changes (he.cause _) hcs
  · exact (legible_from_config h.disk env h.options store).changes heard_still hcs

theorem legible_first_conf (hid : IsId id) : (first_conf id).table.Legible where
  myself := hid
  known n hn := List.mem_singleton.1 hn ▸ hid
  owner := nofun
  row n := by
    show (if n = id then ({ master := true } : Node) else {}).Legible _
    -- nothing has an address yet, and we are the only node that is known
    have hlisted : ¬ (first_conf id).table.Listed n := fun hl => hl.2 (List.mem_singleton.1 hl.1)
    split <;> exact ⟨nofun, nofun, by decide, fun hl => absurd hl (not_or.2 ⟨hlisted, nofun⟩)⟩

theorem Addressable.legible (h : c.Addressable) : c.Legible := by
  obtain ⟨env, options, store, id, hid, hport, hcport, rfl⟩ := h
  let blank : Cluster := from_config env options (first_conf id) store
  exact (legible_from_config (legible_first_conf hid) env ⟨hport, hcport⟩ store).changes heard_still
    (changes_restart rfl env blank store)

def first_host : Cluster :=
  first_start (spare 9 0) { port := 7001, cport := 17001, require_full_coverage := false }
    { clock := fun _ => 0 } 1

/-- Node 3, which is not known, asks. -/
def asks : Event :=
  .packet { spare 8 2 with shuffle := [2] } {}
    { type := .kPing, sender := 3, port := 7003, cport := 17003 }

def asked : Cluster := ((first_host.step meets_two).step hears_two).step asks

/-- A message from the outside, and ids drawn by `spare`. -/
theorem heard_of_spare {e : Event} (id : NodeId) (hid : IsId id)
    (he : ∀ env ∈ e.envs, ∃ t s, env = { spare id t with shuffle := s })
    (hm : ∀ msg ∈ e.message, Wire.Legible msg ∧ Sized msg) : e.Heard where
  message msg hmsg := ⟨fields msg, decode_fields (hm msg hmsg).1 (hm msg hmsg).2⟩
  drawn x := by
    rintro ⟨env, henv, ip, port, cport, rfl⟩
    obtain ⟨t, s, rfl⟩ := he env henv
    exact hid

/-- A header without anything behind it. -/
theorem legible_bare (hb : bare msg = msg) (hid : IsId msg.sender) (hm : msg.master_id = none)
    (hport : IsPort msg.port) (hcport : IsPort msg.cport) : Wire.Legible msg := by
  have hmaster : ∀ id ∈ (bare msg).master_id, IsId id := by
    rw [hb, hm]
    nofun
  rw [← hb]
  exact ⟨⟨hid, hport, hcport, hmaster, nofun, isId_zero, isId_zero⟩, nofun, fun _ => rfl,
    fun _ => ⟨rfl, rfl, rfl⟩, fun _ => rfl⟩

end Cluster

end EpochKV

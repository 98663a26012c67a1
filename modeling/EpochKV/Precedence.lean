/-
Which claim a slot is held on.

`update_slots_config_with` lets a claim take a slot if the epoch on record for the owner
is lower. That is meant to say: if the claim the owner has the slot on is an older one.
The two agree as long as the epoch of a claim is on record when the claim is accepted,
and `process_packet` records it in another place: at the top, for senders it knows. The
message that completes a handshake is past that place before its sender is known, and
what it claims is entered under the epoch of the placeholder, which is zero. Everywhere
else the record is there in time, and it does not fall while the node is known.

How a slot can change hands at once is in `Passes`. What a packet does to a slot and what
the other events do follows from it by induction on the changes.
-/
import EpochKV.Lifetime

set_option autoImplicit false

namespace EpochKV

open Slots Commands

variable {n : NodeId} {m : Message} {e : Nat} {slots : SlotBitmap} {c₀ : Cluster}

namespace Cluster

variable {o : Cause} {c c' : Cluster} {s : Slot}

/-! ## Owners are known -/

/-- We know ourselves, and whoever has a slot, under their own ids. -/
structure Housed (c : Cluster) : Prop where
  own : c.Proper c.myself
  slots : ∀ s n, c.table.own.owner s = some n → c.Proper n

theorem Housed.change (h : c.Housed) (hn : Cause.Novel o c) (hs : Change o c c') : c'.Housed where
  own := by
    rw [hs.myself]
    exact h.own.change (fun _ => rfl) (fun hd => hn.proper _ hd h.own) hs
  slots s n ho := by
    have hold : c.Proper n → c'.Proper n := by
      intro hp
      exact hs.proper_of_owner (fun hd => hn.proper n hd hp) hp ho
    have hpass := hs.passes s
    rw [ho] at hpass
    generalize hx : some n = x at hpass
    cases hpass with
    | kept => exact hold (h.slots s n hx.symm)
    | lost => cases hx
    | claimed _ _ _ hnew _ =>
      obtain rfl := Option.some.inj hx
      exact hold (hnew.2.proper hn)
    | given _ hgiven =>
      rcases hgiven n hx.symm with rfl | hp
      · exact hold h.own
      · exact hold hp
    | renamed hown hi =>
      -- a placeholder has no slots
      exact absurd (h.slots s _ hown) hi.not_proper

theorem Housed.changes (h : c.Housed) (hn : Cause.Novel o c) (hs : Changes o c c') : c'.Housed :=
  hs.invariant_novel hn (fun _ _ hna ha hab => ha.change hna hab) h

/-! ## A packet, for one slot -/

/-- What is asked of a message: if it ends a handshake, it claims nothing, or nothing
that the record of a placeholder does not cover. -/
structure Cause.Reads (o : Cause) (m : Message) (c : Cluster) : Prop where
  msg : o.msg = some m
  met : o.met = c.Proper
  new : Cause.Novel o c
  named : ¬ o.drawn m.claim.1
  opens : o.opens → ¬ c.Proper m.sender → m.replica = true ∨ m.slots = ∅ ∨ m.config_epoch = 0

/-- Slot `s` since the packet came in: it is where it was, or its owner has given it up
or was beaten by the claim, whose epoch is on record. -/
inductive Moved (o : Cause) (c₀ : Cluster) (m : Message) (s : Slot) (c : Cluster) : Prop where
  | kept (h : c.table.own.owner s = c₀.table.own.owner s)
  | moved (hb : ∀ a, c₀.table.own.owner s = some a → a ≠ m.claim.1 → a ≠ c₀.myself →
        (c₀.table.node a).config_epoch < m.claim.2.1)
      (h : c.table.own.owner s = none ∨ c.table.own.owner s = some m.claim.1 ∧
        m.claim.1 ≠ c₀.myself ∧ (o.met m.claim.1 ∨ m.claim.2.1 = 0) ∧
        m.claim.2.1 ≤ (c.table.node m.claim.1).config_epoch)

/-- The epoch of a claim that is accepted is on record. -/
theorem Cause.Reads.recorded (h : Cause.Reads o m c₀) (hcs : Changes o c₀ c)
    (hc : o.claims n e slots) (hs : s ∈ slots) (hn : Present o c n) : o.met n ∨ e = 0 := by
  obtain ⟨m', hm, hclaim, hwho⟩ := id hc
  rw [h.msg] at hm
  cases hm
  rcases hwho with ⟨-, hmet⟩ | ⟨ht, hrep⟩
  · exact Or.inl hmet
  · unfold Message.claim at hclaim
    rw [if_neg ht] at hclaim
    cases hclaim
    -- a sender that was not known is at the end of its handshake
    rcases hcs.proper_back (hn.proper (h.new.changes hcs)) with hp | ⟨-, hopens⟩
    · rw [h.met]
      exact Or.inl hp
    · by_cases hp : c₀.Proper m.sender
      · rw [h.met]
        exact Or.inl hp
      · rcases h.opens hopens hp with hr | hslots | he
        · rw [hr] at hrep
          cases hrep
        · rw [hslots] at hs
          cases hs
        · exact Or.inr he

theorem Moved.change (hr : Cause.Reads o m c₀) (h₀ : c₀.Housed) (hcs : Changes o c₀ c)
    (h : Moved o c₀ m s c) (hs : Change o c c') : Moved o c₀ m s c' := by
  have hhoused : c.Housed := h₀.changes hr.new hcs
  have hid : c.myself = c₀.myself := hcs.myself
  have hnone : o.msg ≠ none := by simp [hr.msg]
  -- what is on record for the node of the claim stays on record
  have hkeep : m.claim.1 ≠ c₀.myself → o.met m.claim.1 ∨ m.claim.2.1 = 0 →
      m.claim.2.1 ≤ (c.table.node m.claim.1).config_epoch →
      m.claim.2.1 ≤ (c'.table.node m.claim.1).config_epoch := by
    intro hne hmet hle
    rcases hmet with hmet | hzero
    · exact hle.trans (hs.epoch_le hr.named hmet (hid ▸ hne))
    · rw [hzero]
      exact Nat.zero_le _
  have hpass := hs.passes s
  generalize hx : c'.table.own.owner s = x at hpass
  cases hpass with
  | kept =>
    cases h with
    | kept h => exact .kept (hx.trans h)
    | moved hb h =>
      refine .moved hb ?_
      rw [hx]
      exact h.imp_right fun ⟨hown, hne, hmet, hle⟩ => ⟨hown, hne, hmet, hkeep hne hmet hle⟩
  | lost hown hwhy =>
    cases h with
    | kept h =>
      refine .moved (fun a ha hne hme => ?_) (Or.inl hx)
      rw [← h, hown] at ha
      cases ha
      rcases hwhy with ⟨rfl, -⟩ | hhand | hm | ⟨m', hm, ht, rfl⟩
      · exact absurd hid hme
      · rw [(hhoused.slots s _ hown).2] at hhand
        cases hhand
      · exact absurd hm hnone
      · rw [hr.msg] at hm
        cases hm
        unfold Message.claim at hne
        rw [if_neg ht] at hne
        exact absurd rfl hne
    | moved hb _ => exact .moved hb (Or.inl hx)
  | claimed hc hslot hbeat hn hrow =>
    have hmet := hr.recorded hcs hc hslot hn.2
    obtain ⟨m', hm, hclaim, -⟩ := id hc
    rw [hr.msg] at hm
    cases hm
    rename_i n e slots
    obtain ⟨rfl, rfl⟩ : m.claim.1 = n ∧ m.claim.2.1 = e := by simp [hclaim]
    have hne : m.claim.1 ≠ c₀.myself := hid ▸ hn.1
    have hle : m.claim.2.1 ≤ (c.table.node m.claim.1).config_epoch := by
      rcases hmet with hmet | hzero
      · exact hrow hmet hr.named
      · rw [hzero]
        exact Nat.zero_le _
    refine .moved ?_ (Or.inr ⟨hx, hne, hmet, hkeep hne hmet hle⟩)
    cases h with
    | kept h =>
      intro a ha _ hme
      have hp : c₀.Proper a := h₀.slots s a ha
      have hlow := (hbeat a (h.trans ha)).2
      refine lt_of_le_of_lt (hcs.epoch_le (fun hda => hr.new.proper a hda hp) ?_ hme) hlow
      rw [hr.met]
      exact hp
    | moved hb _ => exact hb
  | given hm _ => exact absurd hm hnone
  | renamed hown hi =>
    exact absurd (hhoused.slots s _ hown) hi.not_proper

theorem Moved.changes (hr : Cause.Reads o m c) (h : c.Housed) (hcs : Changes o c c') (s : Slot) :
    Moved o c m s c' := by
  induction hcs with
  | refl => exact .kept rfl
  | tail hcs hs ih => exact ih.change hr h hcs hs

end Cluster

/-! ## Runs -/

/-- A process, and for each slot the claim it was last assigned on, if a message assigned
it and its owner has not changed since. -/
structure Ledger where
  node : Cluster
  claim : Slot → Option (NodeId × Nat)

namespace Ledger

def record (r : Ledger) (c : Cluster) (e : Cluster.Event) (s : Slot) : Option (NodeId × Nat) :=
  if c.table.own.owner s = r.node.table.own.owner s then r.claim s
  else e.message.bind fun m => (c.table.own.owner s).map fun n => (n, m.claim.2.1)

def step (r : Ledger) (e : Cluster.Event) : Ledger where
  node := r.node.step e
  claim := r.record (r.node.step e) e

structure Start (r : Ledger) : Prop where
  housed : r.node.Housed
  blank : ∀ s, r.claim s = none

/-- The process goes on; the ids drawn are nobody's; and a message that ends a handshake is
a replica's, or claims nothing, or claims it under epoch zero. -/
structure Orderly (r : Ledger) (e : Cluster.Event) : Prop where
  alive : e.is_restart = false
  new : ∀ id, e.draws id → id ∉ r.node.table.known ∧
    ∀ m ∈ e.message, id ≠ m.sender ∧ id ≠ m.claim.1
  link : ∀ env l m, e = .packet env l m → ∀ n, l.node = some n → ¬ e.draws n
  opens : ∀ env l m, e = .packet env l m → ∀ n, l.node = some n →
    (r.node.table.node n).handshake = true → ¬ r.node.Proper m.sender →
    m.replica = true ∨ m.slots = ∅ ∨ m.config_epoch = 0

structure Backed (r : Ledger) : Prop where
  housed : r.node.Housed
  claim : ∀ s n e, r.claim s = some (n, e) → r.node.table.own.owner s = some n ∧
    n ≠ r.node.myself ∧ e ≤ (r.node.table.node n).config_epoch

variable {r : Ledger} {e : Cluster.Event}

theorem Orderly.novel (h : r.Orderly e) : e.Novel r.node := by
  intro id hid
  obtain ⟨hk, hm⟩ := h.new id hid
  exact ⟨hk, fun m hmem => (hm m hmem).1⟩

theorem Orderly.reads {env : Cluster.Env} {l : Inlet} (h : r.Orderly (.packet env l m)) :
    Cluster.Cause.Reads ((Cluster.Event.packet env l m).cause { r.node with sent := [] }) m
      { r.node with sent := [] } where
  msg := rfl
  met := rfl
  new := h.novel.clear.cause
  named hd := ((h.new _ hd).2 m rfl).2 rfl
  opens := by
    rintro ⟨n, hn, hhand | hd⟩ hp
    · exact h.opens env l m rfl n hn hhand hp
    · exact absurd hd (h.link env l m rfl n hn)

theorem housed_clear (h : r.node.Housed) : Cluster.Housed { r.node with sent := [] } := ⟨h.own, h.slots⟩

/-- What holds of an event that is no restart: a claim whose slot stays is on record. -/
theorem Backed.kept (h : r.Backed) (he : r.Orderly e) :
    (r.node.step e).Housed ∧ (r.node.step e).myself = r.node.myself ∧
      ∀ s n x, r.claim s = some (n, x) → x ≤ ((r.node.step e).table.node n).config_epoch := by
  have hcs := Cluster.changes_handle { r.node with sent := [] } he.alive
  refine ⟨(housed_clear h.housed).changes he.novel.clear.cause hcs, hcs.myself, fun s n x hc => ?_⟩
  obtain ⟨hown, hme, hle⟩ := h.claim s n x hc
  have hp : r.node.Proper n := h.housed.slots s n hown
  exact hle.trans (hcs.epoch_le (fun hd => (he.new n hd).1 hp.1) hp hme)

theorem claim_step_of_eq {s : Slot}
    (h : (r.node.step e).table.own.owner s = r.node.table.own.owner s) :
    (r.step e).claim s = r.claim s := if_pos h

theorem Backed.step (h : r.Backed) (he : r.Orderly e) : (r.step e).Backed where
  housed := (h.kept he).1
  claim s n x hc := by
    obtain ⟨-, hid, hrow⟩ := h.kept he
    change (r.node.step e).table.own.owner s = some n ∧ n ≠ (r.node.step e).myself ∧
      x ≤ ((r.node.step e).table.node n).config_epoch
    rw [hid]
    by_cases hsame : (r.node.step e).table.own.owner s = r.node.table.own.owner s
    · rw [claim_step_of_eq hsame] at hc
      obtain ⟨hown, hme, -⟩ := h.claim s n x hc
      exact ⟨hsame.trans hown, hme, hrow s n x hc⟩
    · -- a message has assigned it
      change (if _ then _ else _) = _ at hc
      rw [if_neg hsame] at hc
      obtain ⟨m, hm, hc⟩ := Option.bind_eq_some_iff.mp hc
      obtain ⟨n', hn, hpair⟩ := Option.map_eq_some_iff.mp hc
      cases hpair
      cases e with
      | packet env l msg =>
        cases hm
        have hmoved := Cluster.Moved.changes he.reads (housed_clear h.housed)
          (Cluster.changes_handle { r.node with sent := [] } (e := .packet env l m) rfl) s
        rcases hmoved with hkept | ⟨-, hnone | ⟨hown, hme, -, hle⟩⟩
        · exact absurd hkept hsame
        · rw [show (r.node.step (.packet env l m)).table.own.owner s = none from hnone] at hn
          cases hn
        · have hwho : m.claim.1 = n := by
            rw [show (r.node.step (.packet env l m)).table.own.owner s = some m.claim.1 from hown] at hn
            exact Option.some.inj hn
          subst hwho
          exact ⟨hown, hme, hle⟩
      | _ => cases hm

/-- **The higher epoch wins:** a message that takes a slot from the node another message
gave it to does so on a claim of that node's, made under a higher epoch. -/
theorem higher_epoch_wins (h : Reach step Orderly Start r) {env : Cluster.Env} {l : Inlet}
    {m : Message} (hm : r.Orderly (.packet env l m)) {s : Slot} {a b : NodeId} {x : Nat}
    (hc : r.claim s = some (a, x))
    (hb : (r.step (.packet env l m)).node.table.own.owner s = some b) (hne : b ≠ a) :
    m.claim.1 = b ∧ x < m.claim.2.1 := by
  have hback : r.Backed := by
    refine h.invariant (fun r hr => ⟨hr.housed, fun s n x hc => ?_⟩) fun r e hr he => hr.step he
    rw [hr.blank s] at hc
    cases hc
  obtain ⟨hown, hme, hle⟩ := hback.claim s a x hc
  have hmoved := Cluster.Moved.changes hm.reads (housed_clear hback.housed)
    (Cluster.changes_handle { r.node with sent := [] } (e := .packet env l m) rfl) s
  rcases hmoved with hkept | ⟨hbeat, hnone | ⟨hnew, -⟩⟩
  · have hsame : (r.step (.packet env l m)).node.table.own.owner s = some a := hkept.trans hown
    rw [hb] at hsame
    exact absurd (Option.some.inj hsame) hne
  · rw [show (r.step (.packet env l m)).node.table.own.owner s = none from hnone] at hb
    cases hb
  · rw [show (r.step (.packet env l m)).node.table.own.owner s = some m.claim.1 from hnew] at hb
    cases hb
    exact ⟨rfl, hle.trans_lt (hbeat a hown hne.symm hme)⟩

/-! ## With and without a record

Node 1 knows masters 2 and 3, and is in a handshake under the id 9. -/

def watcher : Ledger where
  node := World.process
    { myself := 1, known := [1, 2, 3, 9]
      node := fun n => if n = 9 then { handshake := true, meet := true } else { master := true }
      own := Ownership.vacant, migrating_to := fun _ => none, importing_from := fun _ => none } 0
  claim := fun _ => none

theorem start_watcher : watcher.Start where
  housed := ⟨⟨by decide, rfl⟩, fun _ _ h => nomatch h⟩
  blank _ := rfl

/-- Master `n` claims slot 7 under epoch `e`. -/
def claims_seven (type : MsgType) (n : NodeId) (e : Nat) : Message :=
  { type, sender := n, current_epoch := e, config_epoch := e, slots := {7} }

def hears (n : NodeId) (e : Nat) : Cluster.Event :=
  .packet (World.at_time 1) {} (claims_seven .kPing n e)

/-- A claim of a node other than 0, which is the id that would be drawn. -/
theorem orderly_hears {r : Ledger} (hn : n ≠ 0) (e : Nat) (hz : 0 ∉ r.node.table.known) :
    r.Orderly (hears n e) where
  alive := rfl
  new := by
    rintro id ⟨env, henv, ip, port, cport, rfl⟩
    rw [List.mem_singleton.mp henv]
    refine ⟨hz, fun m hm => ?_⟩
    cases hm
    exact ⟨hn.symm, hn.symm⟩
  link := by
    rintro env l m he x hx
    cases he
    cases hx
  opens := by
    rintro env l m he x hx
    cases he
    cases hx

/-- Node 2 has slot 7 on a claim under epoch 1, and loses it to one under epoch 2. -/
theorem higher_epoch_wins_seven :
    ((watcher.step (hears 2 1)).step (hears 3 2)).node.table.own.owner 7 = some 3 ∧
      (claims_seven .kPing 3 2).claim.1 = 3 ∧ 1 < (claims_seven .kPing 3 2).claim.2.1 := by
  have hreach : Reach step Orderly Start (watcher.step (hears 2 1)) :=
    .next _ (.start start_watcher) (orderly_hears (by decide) 1 (by decide))
  have hnext : (watcher.step (hears 2 1)).Orderly (hears 3 2) :=
    orderly_hears (by decide) 2 (by decide +kernel)
  have htaken : ((watcher.step (hears 2 1)).step (hears 3 2)).node.table.own.owner 7 = some 3 := by
    decide +kernel
  have hclaim : (watcher.step (hears 2 1)).claim 7 = some (2, 1) := by decide +kernel
  exact ⟨htaken, higher_epoch_wins hreach hnext hclaim htaken (by decide)⟩

/-- Node 4 answers at the address of the placeholder and has slot 7 on a claim under epoch
5, of which there is no record. It loses it to a claim under epoch 3. -/
theorem handshake_claim_beaten :
    let r := watcher.step (.packet (World.at_time 1) { node := some 9 } (claims_seven .kPong 4 5))
    watcher.Start ∧ r.claim 7 = some (4, 5) ∧ r.node.table.own.owner 7 = some 4 ∧
      (r.step (hears 3 3)).node.table.own.owner 7 = some 3 ∧ (claims_seven .kPing 3 3).claim.2.1 = 3 :=
  ⟨start_watcher, by decide +kernel⟩

end Ledger

end EpochKV

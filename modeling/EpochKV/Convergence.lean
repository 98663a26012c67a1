/-
Do the claims of the masters converge?

A claim is compared with the epoch its rival has *now*, and a claim that no longer
lists a slot does not release it. So a master that has given a slot away can keep it
in an observer's table: if it moved on to a higher epoch for some other reason, the
observer may hear of that first, and then the new owner's claim never wins. The
theorem says when this cannot happen, and the run after it is the smallest in which
it does.
-/
import EpochKV.Claims

set_option autoImplicit false

namespace EpochKV

open Slots Commands

namespace Cluster

/-! ## The setting -/

/-- An order in which the packets arrive: each sender's own order is kept. -/
def Merges (ps : List Packet) (claims : NodeId → List Message) : Prop :=
  ∀ n, (ps.map Packet.msg).filter (fun m => m.sender = n) = claims n

/-- The observer knows the masters, and has no stake in the slots of their last claims;
each master's epochs do not fall; the last claims conflict in nothing. -/
structure Observes (c : Cluster) (claims : NodeId → List Message) : Prop where
  sender : ∀ n, ∀ m ∈ claims n, m.sender = n
  type : ∀ n, ∀ m ∈ claims n, m.type = .kPing ∨ m.type = .kPong
  role : ∀ n, ∀ m ∈ claims n, m.replica = false
  master : ∀ n, claims n ≠ [] → Master c.table.known c n
  epochs : ∀ n, ((claims n).map Message.config_epoch).Pairwise (· ≤ ·)
  distinct : ∀ n n' m m', n ≠ n' → (claims n).getLast? = some m → (claims n').getLast? = some m' →
    m.config_epoch ≠ m'.config_epoch ∧ Disjoint m.slots m'.slots
  watches : ∀ n m, (claims n).getLast? = some m → ∀ s ∈ m.slots, Watches c.table.known s c

/-- Whatever the order, every slot of a last claim ends up with its claimant. -/
def Converges (c : Cluster) (claims : NodeId → List Message) : Prop :=
  ∀ ps : List Packet, (∀ p ∈ ps, p.Claim c.table.known) → Merges ps claims →
    ∀ n m, (claims n).getLast? = some m → ∀ s ∈ m.slots,
      (ps.foldl deliver c).table.own.owner s = some n

/-- `r` has the slot to begin with, or claims it under an epoch that the owner recorded
for it cannot stand up to. -/
def Rival (c : Cluster) (claims : NodeId → List Message) (s : Slot) (r : NodeId) : Prop :=
  c.table.own.owner s = some r ∨ ∃ a ∈ claims r, s ∈ a.slots ∧
    ∀ o, c.table.own.owner s = some o → (c.table.node o).config_epoch < a.config_epoch

/-- The epoch the observer ends up with for `r`. -/
def final_epoch (c : Cluster) (claims : NodeId → List Message) (r : NodeId) : Nat :=
  (claims r).foldl (fun e a => max e a.config_epoch) (c.table.node r).config_epoch

/-! ## As contests -/

section

variable {c : Cluster} {claims : NodeId → List Message}

theorem Merges.interleaves {ps : List Packet} (h : Merges ps claims) (s : Slot) :
    Contest.Interleaves (ps.map fun p => bid_of s p.msg) fun n => (claims n).map (bid_of s) := by
  intro n
  dsimp only
  unfold Contest.turns
  rw [← h n, show (fun p : Packet => bid_of s p.msg) = bid_of s ∘ Packet.msg from rfl,
    ← List.map_map, List.filter_map]
  rfl

theorem Merges.mem {ps : List Packet} (h : Merges ps claims) {p : Packet} (hp : p ∈ ps) :
    p.msg ∈ claims p.msg.sender := by
  rw [← h p.msg.sender]
  exact List.mem_filter.mpr ⟨List.mem_map_of_mem hp, by simp⟩

section

variable (ho : Observes c claims)
include ho

/-- All packets of a merge come from masters. -/
theorem Observes.run {ps : List Packet}
    (hp : ∀ p ∈ ps, p.Claim c.table.known) (h : Merges ps claims) {s : Slot}
    (hw : Watches c.table.known s c) :
    contest c.table.known s (ps.foldl deliver c)
      = (contest c.table.known s c).run (ps.map fun p => bid_of s p.msg) :=
  run_bid hw hp fun _ hm => ho.master _ (List.ne_nil_of_mem (h.mem hm))

/-- There is always some order: one master after the other. -/
theorem Observes.exists_interleaving (s : Slot) :
    ∃ l, Contest.Interleaves l fun n => (claims n).map (bid_of s) := by
  refine ⟨(c.table.known.dedup.flatMap claims).map (bid_of s), fun n => ?_⟩
  unfold Contest.turns
  rw [List.filter_map]
  congr 1
  have hgen : ∀ ids : List NodeId, ids.Nodup →
      (ids.flatMap claims).filter (fun m => m.sender = n) = if n ∈ ids then claims n else [] := by
    intro ids hnd
    induction ids with
    | nil => rfl
    | cons i ids ih =>
      rw [List.flatMap_cons, List.filter_append, ih (List.nodup_cons.mp hnd).2]
      by_cases hi : i = n
      · subst hi
        rw [List.filter_eq_self.mpr fun m hm => by simpa using ho.sender i m hm,
          if_neg (List.nodup_cons.mp hnd).1, if_pos (List.mem_cons_self ..), List.append_nil]
      · rw [List.filter_eq_nil_iff.mpr fun m hm => by simpa [ho.sender i m hm] using hi]
        simp [Ne.symm hi]
  refine (hgen _ c.table.known.nodup_dedup).trans ?_
  split
  · rfl
  · rename_i hn
    by_contra hne
    exact hn (List.mem_dedup.mpr (ho.master n (Ne.symm hne)).known)

/-- Every order of the claims is the order of some packets. -/
theorem Observes.exists_packets {ms : List Message}
    (hms : ∀ n, ms.filter (fun m => m.sender = n) = claims n) :
    ∃ ps : List Packet, ps.map Packet.msg = ms ∧ ∀ p ∈ ps, p.Claim c.table.known := by
  obtain ⟨id, hid⟩ := Infinite.exists_notMem_finset c.table.known.toFinset
  refine ⟨ms.map fun m => ⟨{ now := 0, random_id := fun _ _ _ => id }, {}, m⟩, ?_, ?_⟩
  · rw [List.map_map]
    exact List.map_id ms
  intro p hp
  obtain ⟨m, hm, rfl⟩ := List.mem_map.mp hp
  have hmem : m ∈ claims m.sender := by
    rw [← hms m.sender]
    exact List.mem_filter.mpr ⟨hm, by simp⟩
  exact ⟨ho.type _ m hmem, ho.role _ m hmem, Or.inl rfl, fun _ => ⟨rfl, rfl⟩,
    fun _ _ _ h => hid (List.mem_toFinset.mpr h)⟩

/-- Rivals are contenders, and the observer ends with the epoch the contest ends with. -/
theorem Observes.outbid_iff {s : Slot} (hw : Watches c.table.known s c) (n : NodeId) (e : Nat) :
    (contest c.table.known s c).Outbid n e (fun n => (claims n).map (bid_of s)) ↔
      ∀ r, r ≠ n → Rival c claims s r → final_epoch c claims r < e := by
  have hopen : ∀ a : Message, (contest c.table.known s c).Open a.config_epoch ↔
      ∀ o, c.table.own.owner s = some o → (c.table.node o).config_epoch < a.config_epoch := by
    intro a
    refine forall_congr' fun o => imp_congr_right fun hown => ?_
    have hin : o ∈ c.table.known ∧ o ≠ c.myself :=
      ⟨hw.owner o hown, fun h => hw.foreign (hown.trans (congrArg some h))⟩
    rw [show (contest c.table.known s c).epoch o = _ from if_pos hin]
  have hrival : ∀ r, (contest c.table.known s c).Contender r ((claims r).map (bid_of s)) ↔
      Rival c claims s r := by
    intro r
    refine or_congr Iff.rfl ?_
    constructor
    · rintro ⟨b, hb, hlisted, hb'⟩
      obtain ⟨a, ha, rfl⟩ := List.mem_map.mp hb
      exact ⟨a, ha, of_decide_eq_true hlisted, (hopen a).mp hb'⟩
    · rintro ⟨a, ha, hs, ha'⟩
      exact ⟨bid_of s a, List.mem_map_of_mem ha, decide_eq_true hs, (hopen a).mpr ha'⟩
  have htop : ∀ r, Rival c claims s r →
      Contest.top ((contest c.table.known s c).epoch r) ((claims r).map (bid_of s))
        = final_epoch c claims r := by
    intro r hr
    have hin : r ∈ c.table.known ∧ r ≠ c.myself := by
      rcases hr with hr | ⟨a, ha, -⟩
      · exact ⟨hw.owner r hr, fun h => hw.foreign (hr.trans (congrArg some h))⟩
      · exact ⟨(ho.master r (List.ne_nil_of_mem ha)).known, (ho.master r (List.ne_nil_of_mem ha)).other⟩
    rw [show (contest c.table.known s c).epoch r = _ from if_pos hin]
    exact List.foldl_map
  refine forall_congr' fun r => imp_congr_right fun _ => ?_
  rw [hrival r]
  exact imp_congr_right fun hr => by rw [htop r hr]

end

end

/-! ## When they do -/

/-- **Convergence.** The last claims decide the table under every order of arrival if and
only if each claimant's last epoch is above the final epoch of every rival for any of
its slots. -/
theorem claims_converge_iff (c : Cluster) (claims : NodeId → List Message)
    (ho : Observes c claims) :
    Converges c claims ↔
      ∀ n m, (claims n).getLast? = some m → ∀ s ∈ m.slots, ∀ r, r ≠ n → Rival c claims s r →
        final_epoch c claims r < m.config_epoch := by
  have hlast : ∀ {n m}, (claims n).getLast? = some m → ∀ {s}, s ∈ m.slots →
      ∃ first, (claims n).map (bid_of s) = first ++ [bid_of s m] ∧ (bid_of s m).listed = true ∧
        ∀ b ∈ first, b.epoch ≤ (bid_of s m).epoch := by
    intro n m hm s hs
    obtain ⟨first, hfirst⟩ := List.getLast?_eq_some_iff.mp hm
    refine ⟨first.map (bid_of s), by rw [hfirst]; simp, decide_eq_true hs, ?_⟩
    intro b hb
    obtain ⟨a, ha, rfl⟩ := List.mem_map.mp hb
    have hmono := ho.epochs n
    rw [hfirst, List.map_append, List.pairwise_append] at hmono
    exact hmono.2.2 a.config_epoch (List.mem_map_of_mem ha) m.config_epoch (by simp)
  constructor
  · -- an order of the bids is one of some packets, and those bring the table claimed
    intro hall n m hm s hs
    have hw := ho.watches n m hm s hs
    obtain ⟨first, hseq, hlisted, hmax⟩ := hlast hm hs
    rw [← ho.outbid_iff hw n]
    refine (Contest.won_iff hseq hlisted hmax (ho.exists_interleaving s)).mp ?_
    intro l hl
    obtain ⟨ms, rfl, hms⟩ := hl.lift Message.sender fun _ => rfl
    obtain ⟨ps, rfl, hps⟩ := ho.exists_packets hms
    have hrun := ho.run hps hms hw
    rw [List.map_map]
    exact (congrArg Contest.holder hrun).symm.trans (hall ps hps hms n m hm s hs)
  · -- the packets bid in some order, and the last bid of `n` wins in all
    intro hout ps hps hmerge n m hm s hs
    have hw := ho.watches n m hm s hs
    obtain ⟨first, hseq, hlisted, -⟩ := hlast hm hs
    have hwon := Contest.won_of_outbid hseq hlisted
      ((ho.outbid_iff hw n m.config_epoch).mpr (hout n m hm s hs)) (hmerge.interleaves s)
    exact (congrArg Contest.holder (ho.run hps hmerge hw)).trans hwon

/-! ## A slot that moved

Node 1 claims slot 0 under epoch 1 and later, without it, claims under epoch `e`; node 2
claims it under epoch 2. -/

/-- Node 0 knows the masters 1 and 2, and no slot has an owner yet. -/
def observer : Cluster :=
  let table : Table :=
    { myself := 0, known := [0, 1, 2], node := fun _ => { master := true }, own := Ownership.vacant
      migrating_to := fun _ => none, importing_from := fun _ => none }
  { options := {}, host := true, store := { clock := fun _ => 0 }, repl_master := none, table
    current_epoch := 0, last_vote_epoch := 0
    disk := { table, current_epoch := 0, last_vote_epoch := 0 } }

def pong (n epoch : Nat) (slots : SlotBitmap) : Message :=
  { type := .kPong, sender := n, config_epoch := epoch, slots }

def moved (e : Nat) : NodeId → List Message
  | 1 => [pong 1 1 {0}, pong 1 e ∅]
  | 2 => [pong 2 2 {0}]
  | _ => []

theorem observes_moved {e : Nat} (h₁ : 1 ≤ e) (h₂ : e ≠ 2) : Observes observer (moved e) := by
  have hwatch : ∀ s : Slot, Watches observer.table.known s observer :=
    fun _ => ⟨rfl, nofun, nofun⟩
  have hmaster : ∀ n : NodeId, n = 1 ∨ n = 2 → Master observer.table.known observer n := by
    rintro n (rfl | rfl)
    all_goals exact ⟨by decide, by decide, by decide, rfl, rfl⟩
  refine ⟨?_, ?_, ?_, ?_, ?_, ?_, fun _ _ _ s _ => hwatch s⟩
  · rintro (_ | _ | _ | n) <;> simp [moved, pong]
  · rintro (_ | _ | _ | n) <;> simp [moved, pong]
  · rintro (_ | _ | _ | n) <;> simp [moved, pong]
  · rintro (_ | _ | _ | n) hn
    · exact absurd rfl hn
    · exact hmaster 1 (Or.inl rfl)
    · exact hmaster 2 (Or.inr rfl)
    · exact absurd rfl hn
  · rintro (_ | _ | _ | n) <;> simp [moved, pong, h₁]
  · rintro (_ | _ | _ | n) (_ | _ | _ | n') m m' hne hm hm'
    all_goals simp only [moved, List.getLast?_nil, reduceCtorEq, List.getLast?_singleton,
      List.getLast?_cons_cons, Option.some.injEq, ne_eq, not_true_eq_false] at hm hm' hne
    · subst hm hm'
      exact ⟨h₂, by simp [pong]⟩
    · subst hm hm'
      exact ⟨fun h => h₂ h.symm, by simp [pong]⟩

/-- A master that gave the slot away under its old epoch is no obstacle. -/
theorem claims_converge_moved : Observes observer (moved 1) ∧ Converges observer (moved 1) := by
  have ho := observes_moved (e := 1) le_rfl (by decide)
  refine ⟨ho, (claims_converge_iff observer (moved 1) ho).mpr ?_⟩
  -- only node 2's last claim lists a slot, and only node 1 is a rival for it
  rintro (_ | _ | _ | n) m hm s hs r hr hrival
  all_goals simp only [moved, List.getLast?_nil, reduceCtorEq, List.getLast?_singleton,
    List.getLast?_cons_cons, Option.some.injEq] at hm
  all_goals subst hm
  · simp [pong] at hs
  · rcases hrival with h | ⟨a, ha, -⟩
    · cases h
    · match r with
      | 0 => cases ha
      | 1 => decide
      | 2 => exact absurd rfl hr
      | r + 3 => cases ha

/-- The claims of `moved 3` in an order that leaves slot 0 with node 1: its epoch 3 is
heard before node 2's claim. -/
def stale_order : List Packet :=
  [pong 1 1 {0}, pong 1 3 ∅, pong 2 2 {0}].map fun m =>
    ⟨{ now := 1, random_id := fun _ _ _ => 9 }, {}, m⟩

theorem stale_owner_keeps_slot : Observes observer (moved 3) ∧ ¬ Converges observer (moved 3) := by
  refine ⟨observes_moved (by decide) (by decide), fun h => ?_⟩
  have hclaim : ∀ p ∈ stale_order, p.Claim observer.table.known := by
    intro p hp
    obtain ⟨m, hm, rfl⟩ := List.mem_map.mp hp
    have hty : m.type = .kPong ∧ m.replica = false := by
      simp only [List.mem_cons, List.not_mem_nil, or_false] at hm
      rcases hm with rfl | rfl | rfl
      all_goals exact ⟨rfl, rfl⟩
    exact ⟨Or.inr hty.1, hty.2, Or.inl rfl, fun _ => ⟨rfl, rfl⟩,
      fun _ _ _ => show 9 ∉ observer.table.known by decide⟩
  have hmerge : Merges stale_order (moved 3) := by
    rintro (_ | _ | _ | n)
    · rfl
    · rfl
    · rfl
    · simp [stale_order, moved, pong]
  have hfinal : (stale_order.foldl deliver observer).table.own.owner 0 = some 1 := by
    decide +kernel
  have hconv := h stale_order hclaim hmerge 2 (pong 2 2 {0}) rfl 0 (by decide)
  exact absurd (hfinal.symm.trans hconv) (by decide)

end Cluster

end EpochKV

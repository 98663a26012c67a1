/-
The votes of a cluster, from the voter to the candidate.

A vote is a message without a name on it that matters: the candidate only counts. That
the count is right rests on what is shown here. Give every voter and epoch a record of
the process the vote went to (`cast`), and of whether it has arrived (`got`). A voter
votes once in an epoch, the network delivers a message once, so a vote that is read
comes from a voter whose vote in that epoch went to its reader and had not arrived
before (`Ballots.step`).
-/
import EpochKV.World

set_option autoImplicit false

namespace EpochKV

open Text Commands

variable {i : NodeId} {e : Cluster.Event} {m : Message}

namespace World

/-- The record `cast` and `got` of the votes agrees with the cluster. -/
structure Ballots (w : World) (cast : NodeId → Nat → Option NodeId) (got : NodeId → Nat → Prop) :
    Prop where
  marked : ∀ v e, (cast v e).isSome → (w.node v).Marked e
  got_cast : ∀ v e, got v e → (cast v e).isSome
  flight : ∀ v b, ∀ m ∈ w.own v b, m.type = .kFailoverAuthAck →
    cast v m.current_epoch = some b ∧ ¬ got v m.current_epoch
  once : ∀ v b, ((w.own v b).filter fun m => m.type = .kFailoverAuthAck).Pairwise
    fun m m' => m.current_epoch ≠ m'.current_epoch
  back : ∀ a b, ∀ m ∈ w.back a b, m.type ≠ .kFailoverAuthAck

variable {w : World} {cast : NodeId → Nat → Option NodeId} {got : NodeId → Nat → Prop}

section

variable (h : w.Ballots cast got)
include h

/-- Losing messages loses votes, no more. -/
theorem Ballots.take (s : Action) : (w.take s).Ballots cast got where
  marked v e he := by
    rw [node_take]
    exact h.marked v e he
  got_cast := h.got_cast
  flight v b m hm := h.flight v b m ((own_take w s v b).subset hm)
  once v b := (h.once v b).sublist ((own_take w s v b).filter _)
  back a b m hm := h.back a b m ((back_take w s a b).subset hm)

omit h in
/-- The votes among what goes out on a link are the votes sent there. -/
theorem acks_sent_to (w : World) (c : Cluster) (b : NodeId) :
    ((w.sent_to c b).filter fun m => m.type = .kFailoverAuthAck)
      = ((Cluster.acks c.sent).filter fun m => m.1.map w.lead = some b).map Prod.snd := by
  unfold sent_to Cluster.acks
  rw [List.filter_map, List.filter_filter, List.filter_filter]
  congr 1
  refine List.filter_congr fun m _ => ?_
  exact Bool.and_comm _ _

/-- The record, with the votes `as` of process `i`. -/
def enter (w : World) (cast : NodeId → Nat → Option NodeId) (i : NodeId)
    (as : List (Option NodeId × Message)) (v : NodeId) (n : Nat) : Option NodeId :=
  if v = i then
    ((as.find? fun a => a.2.current_epoch = n).bind fun a => a.1.map w.lead).or (cast v n)
  else cast v n

variable {as : List (Option NodeId × Message)} {c' : Cluster}

omit h in
/-- A vote is found under its epoch. -/
theorem find_epoch {a : Option NodeId × Message} (hd : (as.map fun a => a.2.current_epoch).Nodup)
    (ha : a ∈ as) : (as.find? fun b => b.2.current_epoch = a.2.current_epoch) = some a := by
  induction as with
  | nil => cases ha
  | cons b as ih =>
    obtain ⟨hb, hd⟩ := List.nodup_cons.mp hd
    rcases List.mem_cons.mp ha with rfl | ha
    · exact List.find?_cons_of_pos (by simp)
    · have hne : b.2.current_epoch ≠ a.2.current_epoch := by
        intro heq
        exact hb (List.mem_map.mpr ⟨a, ha, heq.symm⟩)
      rw [List.find?_cons_of_neg (by simpa using hne)]
      exact ih hd ha

/-- What is on record stays: nobody votes where they have voted. -/
theorem Ballots.enter_eq (hf : ∀ a ∈ as, Cluster.Fresh (w.node i) c' a) {v p : NodeId} {n : Nat}
    (hp : cast v n = some p) : w.enter cast i as v n = some p := by
  unfold enter
  split
  · rename_i hv
    have hnone : as.find? (fun a => a.2.current_epoch = n) = none := by
      rw [List.find?_eq_none]
      intro a ha heq
      obtain rfl := of_decide_eq_true heq
      refine (hf a ha).unused ?_
      rw [← hv]
      exact h.marked v _ (by rw [hp]; rfl)
    rw [hnone]
    exact hp
  · exact hp

/-- Whatever a process does, the record can follow it. -/
theorem Ballots.act (i : NodeId) (e : Cluster.Event) (opener : Option NodeId) :
    ∃ cast',
    (w.act i e opener).Ballots cast' got ∧ ∀ v n p, cast v n = some p → cast' v n = some p := by
  obtain ⟨as, hv⟩ := Cluster.votes_step (w.node i) e
  have hacks : Cluster.acks ((w.node i).step e).sent = as := hv.acks
  have hfresh : ∀ a ∈ as, Cluster.Fresh (w.node i) ((w.node i).step e) a :=
    fun a ha => ⟨(hv.fresh a ha).link, (hv.fresh a ha).unused, (hv.fresh a ha).recorded⟩
  have hkeep : ∀ v n p, cast v n = some p → w.enter cast i as v n = some p :=
    fun v n p hp => h.enter_eq hfresh hp
  -- the votes on a link are those that were there, and the new ones
  have hown : ∀ v b, (((w.act i e opener).own v b).filter fun m => m.type = .kFailoverAuthAck)
      = ((w.own v b).filter fun m => m.type = .kFailoverAuthAck) ++
        if v = i then (as.filter fun m => m.1.map w.lead = some b).map Prod.snd else [] := by
    intro v b
    show List.filter _ (if _ then _ else _) = _
    split
    · rw [List.filter_append, acks_sent_to, hacks]
    · exact (List.append_nil _).symm
  have hnew : ∀ v b m, m ∈ (if v = i then (as.filter fun m => m.1.map w.lead = some b).map Prod.snd
      else []) → v = i ∧ ∃ a ∈ as, a.1.map w.lead = some b ∧ a.2 = m := by
    intro v b m hm
    split at hm
    · obtain ⟨a, ha, rfl⟩ := List.mem_map.mp hm
      obtain ⟨ha, hl⟩ := List.mem_filter.mp ha
      exact ⟨by assumption, a, ha, of_decide_eq_true hl, rfl⟩
    · cases hm
  refine ⟨w.enter cast i as, ⟨fun v n hn => ?_, fun v n hn => ?_, fun v b m hm ht => ?_, fun v b => ?_,
    fun a b m hm ht => ?_⟩, hkeep⟩
  · by_cases hvi : v = i
    · rw [hvi, node_act_self]
      unfold enter at hn
      rw [if_pos hvi] at hn
      cases hfind : as.find? fun a => a.2.current_epoch = n with
      | none =>
        rw [hfind] at hn
        exact hv.marks n (hvi ▸ h.marked v n hn)
      | some a =>
        have hepoch : a.2.current_epoch = n := by simpa using List.find?_some hfind
        exact hepoch ▸ (hfresh a (List.mem_of_find?_eq_some hfind)).recorded
    · rw [node_act_of_ne _ _ _ hvi]
      unfold enter at hn
      rw [if_neg hvi] at hn
      exact h.marked v n hn
  · obtain ⟨p, hp⟩ := Option.isSome_iff_exists.mp (h.got_cast v n hn)
    rw [hkeep v n p hp]
    rfl
  · have hmem : m ∈ ((w.act i e opener).own v b).filter fun m => m.type = .kFailoverAuthAck :=
      List.mem_filter.mpr ⟨hm, by simpa using ht⟩
    rw [hown] at hmem
    rcases List.mem_append.mp hmem with hold | hmem
    · obtain ⟨hc, hg⟩ := h.flight v b m (List.mem_filter.mp hold).1 ht
      exact ⟨hkeep v _ b hc, hg⟩
    · obtain ⟨rfl, a, ha, hlead, rfl⟩ := hnew v b m hmem
      refine ⟨?_, fun hg => (hfresh a ha).unused (h.marked v _ (h.got_cast v _ hg))⟩
      unfold enter
      rw [if_pos rfl, find_epoch hv.nodup ha]
      show (a.1.map w.lead).or _ = _
      rw [hlead]
      rfl
  · rw [hown]
    refine List.pairwise_append.mpr ⟨h.once v b, ?_, ?_⟩
    · split
      · rw [List.pairwise_map]
        exact (List.pairwise_map.mp hv.nodup).sublist List.filter_sublist
      · exact List.Pairwise.nil
    · intro m₁ hm₁ m₂ hm₂ heq
      obtain ⟨rfl, a, ha, -, rfl⟩ := hnew v b m₂ hm₂
      obtain ⟨hin, ht⟩ := List.mem_filter.mp hm₁
      have hc := (h.flight v b m₁ hin (by simpa using ht)).1
      exact (hfresh a ha).unused (heq ▸ h.marked v _ (by rw [hc]; rfl))
  · change m ∈ if b = i ∧ opener = some a then _ else _ at hm
    split at hm
    · rcases List.mem_append.mp hm with hm | hm
      · exact h.back a b m hm ht
      · -- what goes back on the link it came on is no vote
        obtain ⟨p, hp, rfl⟩ := List.mem_map.mp hm
        obtain ⟨hin, hl⟩ := List.mem_filter.mp hp
        have hack : p ∈ Cluster.acks ((w.node i).step e).sent :=
          List.mem_filter.mpr ⟨hin, by simpa using ht⟩
        have hlink := (hfresh p (hacks ▸ hack)).link
        rw [of_decide_eq_true hl] at hlink
        cases hlink
    · exact h.back a b m hm ht

/-- A vote that leaves its queue is on record as arrived. -/
theorem Ballots.arrive {v b : NodeId} {ms : List Message}
    (hq : w.own v b = m :: ms) (ht : m.type = .kFailoverAuthAck) (env : Cluster.Env) (ip : Bytes)
    (ip' : Option Bytes) :
    (w.take (.deliver v b env ip ip')).Ballots cast
      fun u n => got u n ∨ u = v ∧ n = m.current_epoch := by
  have htake := h.take (.deliver v b env ip ip')
  have hm := h.flight v b m (hq ▸ List.mem_cons_self ..) ht
  refine ⟨htake.marked, fun u n hg => ?_, fun u b' m' hm' ht' => ?_, htake.once, htake.back⟩
  · rcases hg with hg | ⟨rfl, rfl⟩
    · exact h.got_cast u n hg
    · rw [hm.1]
      rfl
  · obtain ⟨hc, hg⟩ := htake.flight u b' m' hm' ht'
    refine ⟨hc, fun hg' => ?_⟩
    rcases hg' with hg' | ⟨rfl, hn⟩
    · exact hg hg'
    · -- the same vote again: then it is on the same link, where it is alone
      rw [hn, hm.1] at hc
      have hb : b = b' := Option.some.inj hc
      subst hb
      have hrest : m' ∈ ms := by
        have : (w.take (.deliver u b env ip ip')).own u b = ms := by
          show set_queue w.own u b (w.own u b).tail u b = ms
          rw [set_queue, Function.update_self, Function.update_self, hq]
          rfl
        rwa [this] at hm'
      have honce := h.once u b
      rw [hq, List.filter_cons, if_pos (by simpa using ht)] at honce
      have hne := (List.pairwise_cons.mp honce).1 m'
        (List.mem_filter.mpr ⟨hrest, by simpa using ht'⟩)
      exact hne hn.symm

/-- **Votes are counted once.** The record follows every step of the cluster, and a vote
that a process reads was cast for it, and had not arrived before. -/
theorem Ballots.step (hs : w.Sound) (s : Action) : ∃ cast' got', (w.step s).Ballots cast' got' ∧
      (∀ v n p, cast v n = some p → cast' v n = some p) ∧ (∀ v n, got v n → got' v n) ∧
      ∀ i env l m, w.event s = some (i, .packet env l m) → m.type = .kFailoverAuthAck →
        cast' m.sender m.current_epoch = some i ∧ ¬ got m.sender m.current_epoch ∧
          got' m.sender m.current_epoch := by
  unfold World.step
  cases he : w.event s with
  | none => exact ⟨cast, got, h.take s, fun _ _ _ hp => hp, fun _ _ hg => hg, by simp⟩
  | some p =>
    obtain ⟨i, e⟩ := p
    by_cases hvote : ∃ env l m, e = .packet env l m ∧ m.type = .kFailoverAuthAck
    · obtain ⟨env, l, m, rfl, ht⟩ := hvote
      rcases packet_of_event he with ⟨a, ip, ip', rfl, ms, hq⟩ | ⟨b, hb⟩
      · obtain ⟨cast', hb', hmono⟩ := (h.arrive hq ht env ip ip').act i (.packet env l m)
          (reader (.deliver a i env ip ip'))
        have hmem : m ∈ w.own a i := hq ▸ List.mem_cons_self ..
        have hsender := (hs.own a i m hmem).2
        obtain ⟨hc, hg⟩ := h.flight a i m hmem ht
        refine ⟨cast', _, hb', hmono, fun _ _ hg => Or.inl hg, ?_⟩
        intro j env' l' m' heq _
        cases heq
        rw [hsender]
        exact ⟨hmono _ _ _ hc, hg, Or.inr ⟨rfl, rfl⟩⟩
      · exact absurd ht (h.back i b m hb)
    · obtain ⟨cast', hb', hmono⟩ := (h.take s).act i e (reader s)
      refine ⟨cast', got, hb', hmono, fun _ _ hg => hg, ?_⟩
      intro j env l m heq ht
      cases heq
      exact absurd ⟨env, l, m, rfl, ht⟩ hvote

end

end World

end EpochKV

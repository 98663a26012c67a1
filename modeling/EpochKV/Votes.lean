/-
One vote per epoch, across crashes.

A master guards against a second vote with two numbers, its current epoch and the
epoch it last voted in. `Past e` reads them: an epoch `e` is past if the current
epoch is beyond it, or is `e` itself and the vote in it is recorded. Both numbers
are also on disk, and the two copies move apart: the epoch rises in memory first,
a failed save forgets the recorded vote, and a failed save may have reached the
disk all the same. What holds throughout is that an epoch that is past in both
copies stays so, and that a vote is only sent in an epoch that was not past, and is
past afterwards (`Votes`). One change does one of these things at most, and both
chain up.
-/
import EpochKV.Events

set_option autoImplicit false

namespace EpochKV

open Text Commands

/-- No vote can be cast in `e` any more. -/
def Past (e current vote : Nat) : Prop := e < current ∨ e = current ∧ vote = e

theorem Past.raise {e current current' vote : Nat} (h : Past e current vote)
    (hle : current ≤ current') : Past e current' vote := by
  unfold Past at h ⊢
  omega

variable {c : Cluster} {c' c₁ : Cluster} {o : Cause}

namespace Cluster

/-- `e` is past in memory and on disk. -/
def Marked (c : Cluster) (e : Nat) : Prop :=
  Past e c.current_epoch c.last_vote_epoch ∧ Past e c.disk.current_epoch c.disk.last_vote_epoch

/-- The votes among some messages. -/
def acks (ms : List (Option NodeId × Message)) : List (Option NodeId × Message) :=
  ms.filter fun m => m.2.type = .kFailoverAuthAck

theorem acks_append (ms ms' : List (Option NodeId × Message)) :
    acks (ms ++ ms') = acks ms ++ acks ms' :=
  List.filter_append ..

theorem acks_eq_nil {ms : List (Option NodeId × Message)}
    (h : ∀ m ∈ ms, m.2.type ≠ .kFailoverAuthAck) : acks ms = [] := by
  simpa [acks, List.filter_eq_nil_iff] using h

/-- A vote is sent over our own link to the requester, in an epoch that was not past and is
past from then on. -/
structure Fresh (c c' : Cluster) (a : Option NodeId × Message) : Prop where
  link : a.1.isSome
  unused : ¬ c.Marked a.2.current_epoch
  recorded : c'.Marked a.2.current_epoch

/-- Marks are kept, and the votes `as` are sent, no two in one epoch. -/
structure Votes (as : List (Option NodeId × Message)) (c c' : Cluster) : Prop where
  options : c'.options = c.options
  marks : ∀ e, c.Marked e → c'.Marked e
  acks : acks c'.sent = acks c.sent ++ as
  nodup : (as.map fun a => a.2.current_epoch).Nodup
  fresh : ∀ a ∈ as, Fresh c c' a

variable {as bs : List (Option NodeId × Message)}

/-- No vote is sent. -/
theorem Votes.silent (ho : c'.options = c.options) (hm : ∀ e, c.Marked e → c'.Marked e)
    (hs : Cluster.acks c'.sent = Cluster.acks c.sent) : Votes [] c c' :=
  ⟨ho, hm, hs.trans (List.append_nil _).symm, List.nodup_nil, nofun⟩

theorem Votes.trans (h : Votes as c c₁) (h' : Votes bs c₁ c') : Votes (as ++ bs) c c' where
  options := h'.options.trans h.options
  marks e he := h'.marks e (h.marks e he)
  acks := by rw [h'.acks, h.acks, List.append_assoc]
  nodup := by
    -- the epochs of the first votes are past when the others are cast
    rw [List.map_append]
    refine List.nodup_append.mpr ⟨h.nodup, h'.nodup, ?_⟩
    intro e he e' he' heq
    obtain ⟨a, ha, rfl⟩ := List.mem_map.mp he
    obtain ⟨b, hb, rfl⟩ := List.mem_map.mp he'
    exact (h'.fresh b hb).unused (heq ▸ (h.fresh a ha).recorded)
  fresh a ha := by
    rcases List.mem_append.mp ha with ha | ha
    · obtain ⟨hl, hu, hr⟩ := h.fresh a ha
      exact ⟨hl, hu, h'.marks _ hr⟩
    · obtain ⟨hl, hu, hr⟩ := h'.fresh a ha
      exact ⟨hl, fun hm => hu (h.marks _ hm), hr⟩

/-- **The vote.** The rules leave only an epoch without a recorded vote, and the vote
is sent only if memory and file both have it. -/
theorem Casts.votes {v : Nat} {d : Conf} {ms : List (Option NodeId × Message)} (h : Casts c v d ms) :
    Votes ms c { c with last_vote_epoch := v, disk := d, sent := c.sent ++ ms } := by
  have hlt : ∀ e, c.Marked e → e < c.current_epoch := by
    intro e he
    rcases he.1 with hlt | ⟨heq, hvote⟩
    · exact hlt
    · exact absurd (hvote.trans heq) h.unused
  have hmarks : ∀ e, c.Marked e →
      Marked { c with last_vote_epoch := v, disk := d, sent := c.sent ++ ms } e := by
    intro e he
    refine ⟨Or.inl (hlt e he), ?_⟩
    rcases h.disk with rfl | rfl
    · exact he.2
    · exact Or.inl (hlt e he)
  rcases h.sent with rfl | ⟨rfl, rfl, env, r, rfl⟩
  · exact Votes.silent rfl hmarks (acks_append _ _ |>.trans (List.append_nil _))
  · refine ⟨rfl, hmarks, acks_append _ _, List.nodup_singleton _, fun a ha => ?_⟩
    rw [List.mem_singleton.mp ha]
    exact ⟨rfl, fun hm => absurd (hlt _ hm) (lt_irrefl _), Or.inr ⟨rfl, rfl⟩, Or.inr ⟨rfl, rfl⟩⟩

theorem Votes.change (h : Change o c c') : ∃ as, Votes as c c' := by
  cases h with
  | aside hs =>
    refine ⟨[], .silent hs.options (fun e he => ?_) (by rw [hs.sent])⟩
    unfold Marked
    rwa [hs.current, hs.vote, hs.disk]
  | advance hle => exact ⟨[], .silent rfl (fun e he => ⟨he.1.raise hle, he.2⟩) rfl⟩
  | save _ => exact ⟨[], .silent rfl (fun e he => ⟨he.1, he.1⟩) rfl⟩
  | say hs =>
    refine ⟨[], .silent rfl (fun _ he => he) ?_⟩
    rw [acks_append, acks_eq_nil fun m hm => (hs m hm).2, List.append_nil]
  | vote hv => exact ⟨_, hv.votes⟩
  | _ => exact ⟨[], .silent rfl (fun _ he => he) rfl⟩

theorem Votes.changes (h : Changes o c c') : ∃ as, Votes as c c' := by
  induction h with
  | refl => exact ⟨[], .silent rfl (fun _ he => he) rfl⟩
  | tail _ hs ih =>
    obtain ⟨as, ha⟩ := ih
    obtain ⟨bs, hb⟩ := Votes.change hs
    exact ⟨as ++ bs, ha.trans hb⟩

/-- One event of a node's life. After a crash, memory is what the file says. -/
theorem votes_step (c : Cluster) (e : Event) : ∃ as, Votes as { c with sent := [] } (c.step e) := by
  rcases step_cases c e with ⟨-, hcs⟩ | ⟨env, store, -, hcs⟩
  · exact Votes.changes hcs
  · obtain ⟨as, hv⟩ := Votes.changes hcs
    have hread : ∀ e, Marked { c with sent := [] } e →
        (from_config env c.options c.disk store).Marked e := fun e he => ⟨he.2, he.2⟩
    refine ⟨as, hv.options, fun e he => hv.marks e (hread e he), hv.acks, hv.nodup, fun a ha => ?_⟩
    obtain ⟨hl, hu, hr⟩ := hv.fresh a ha
    exact ⟨hl, fun hm => hu (hread _ hm), hr⟩

/-! ## Whole runs -/

/-- The epochs of the votes sent in a run, in order. -/
def run_acks : Cluster → List Event → List Nat
  | _, [] => []
  | c, e :: es => (acks (c.step e).sent).map (fun m => m.2.current_epoch) ++ run_acks (c.step e) es

/-- In whatever state a run starts, it votes in no epoch that is past there, and in none
twice. -/
theorem run_acks_spec (c : Cluster) (es : List Event) :
    (run_acks c es).Nodup ∧ ∀ e ∈ run_acks c es, ¬ c.Marked e := by
  induction es generalizing c with
  | nil => exact ⟨List.nodup_nil, by simp [run_acks]⟩
  | cons ev es ih =>
    obtain ⟨hnodup, hopen⟩ := ih (c.step ev)
    obtain ⟨as, hv⟩ := votes_step c ev
    unfold run_acks
    rw [show acks (c.step ev).sent = as from hv.acks]
    refine ⟨List.nodup_append.mpr ⟨hv.nodup, hnodup, ?_⟩, fun e he hm => ?_⟩
    · rintro e he e' he' rfl
      obtain ⟨a, ha, rfl⟩ := List.mem_map.mp he
      exact hopen _ he' (hv.fresh a ha).recorded
    · rcases List.mem_append.mp he with he | he
      · obtain ⟨a, ha, rfl⟩ := List.mem_map.mp he
        exact (hv.fresh a ha).unused hm
      · exact hopen e he (hv.marks e hm)

/-- **One vote per epoch.** Whatever messages arrive, whichever saves fail and wherever
the process crashes, no two votes it sends carry the same epoch. -/
theorem one_vote_per_epoch (c : Cluster) (es : List Event) : (run_acks c es).Nodup :=
  (run_acks_spec c es).1

end Cluster

end EpochKV

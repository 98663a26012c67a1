/-
What stands behind a FAIL flag.

A report is filed if its sender is a master at that moment, and counted whatever has
become of the sender since; the quorum is one of masters that serve slots. So the tally
may be short of a majority of these. It is one if, when it is made, those whose reports
count serve slots, and we do if we count ourselves.
-/
import EpochKV.Hearsay

set_option autoImplicit false
set_option maxRecDepth 8192

namespace EpochKV

open Commands

namespace Cluster

/-! ## The tally -/

theorem needed_quorum_count_fail_reports (env : Env) (c : Cluster) (n : NodeId) :
    (c.count_fail_reports env n).2.table.needed_quorum = c.table.needed_quorum := by
  have hserves : (c.count_fail_reports env n).2.table.serves = c.table.serves := by
    funext m
    refine serves_modify c n ?_ m
    exact fun _ => rfl
  unfold Table.needed_quorum Table.cluster_size
  rw [hserves]
  rfl

/-- A node that is flagged: the reports that are left on file, which are the fresh ones,
and our own opinion make a quorum. -/
theorem Call.quorum {k : Call} (hbefore : (k.state.table.node k.node).fail = false)
    (h : (k.after.table.node k.node).fail = true) :
    k.state.table.needed_quorum ≤
        (k.after.table.node k.node).fail_reports.length + (if k.state.me.master then 1 else 0) ∧
      ∀ r ∈ (k.after.table.node k.node).fail_reports, r ∈ (k.state.table.node k.node).fail_reports ∧
        k.env.now - r.2 ≤ k.state.options.node_timeout * kFailReportValidityMult := by
  have hcount : ((k.state.count_fail_reports k.env k.node).2.table.node k.node).fail_reports.length =
      (k.state.count_fail_reports k.env k.node).1 := by
    unfold count_fail_reports
    rw [node_modify_self]
  have hfresh : ∀ r ∈ ((k.state.count_fail_reports k.env k.node).2.table.node k.node).fail_reports,
      r ∈ (k.state.table.node k.node).fail_reports ∧
        k.env.now - r.2 ≤ k.state.options.node_timeout * kFailReportValidityMult := by
    intro r hr
    unfold count_fail_reports at hr
    rw [node_modify_self] at hr
    obtain ⟨hmem, hold⟩ := List.mem_filter.mp hr
    exact ⟨hmem, not_lt.mp (of_decide_eq_true hold)⟩
  have hfail : ((k.state.count_fail_reports k.env k.node).2.table.node k.node).fail = false := by
    unfold count_fail_reports
    rw [node_modify_self]
    exact hbefore
  have hme : (k.state.count_fail_reports k.env k.node).2.me.master = k.state.me.master :=
    node_modify_rec (c := k.state) (P := fun x r => r.master = (k.state.table.node x).master)
      (fun _ => rfl) fun _ => rfl
  unfold Call.after mark_node_as_failing_if_needed at h ⊢
  dsimp only at h ⊢
  split at h
  · rw [hbefore] at h
    cases h
  · rename_i hguard
    rw [if_neg hguard]
    rw [needed_quorum_count_fail_reports, hme] at h ⊢
    by_cases hle : (k.state.count_fail_reports k.env k.node).1 + (if k.state.me.master then 1 else 0) <
        k.state.table.needed_quorum
    · rw [if_pos hle, hfail] at h
      cases h
    · have hflag : ((((k.state.count_fail_reports k.env k.node).2.flag_fail k.env k.node).table.node
          k.node).fail_reports) =
          ((k.state.count_fail_reports k.env k.node).2.table.node k.node).fail_reports := by
        unfold flag_fail
        rw [node_modify_self]
      rw [if_neg hle]
      refine ⟨?_, ?_⟩
      · show _ ≤ (((k.state.count_fail_reports k.env k.node).2.flag_fail k.env k.node).table.node
          k.node).fail_reports.length + _
        rw [hflag, hcount]
        exact not_lt.mp hle
      · show ∀ r ∈ (((k.state.count_fail_reports k.env k.node).2.flag_fail k.env k.node).table.node
          k.node).fail_reports, _
        rw [hflag]
        exact hfresh

/-- Those whose reports count, and we if we count ourselves, serve slots. -/
structure Call.Serving (k : Call) : Prop where
  reporters : ∀ r ∈ (k.state.table.node k.node).fail_reports,
    k.env.now - r.2 ≤ k.state.options.node_timeout * kFailReportValidityMult →
    k.state.table.serves r.1 = true
  myself : k.state.me.master = true → k.state.table.serves k.state.myself = true

instance (k : Call) : Decidable k.Serving :=
  decidable_of_iff
    ((∀ r ∈ (k.state.table.node k.node).fail_reports,
      k.env.now - r.2 ≤ k.state.options.node_timeout * kFailReportValidityMult →
      k.state.table.serves r.1 = true) ∧
      (k.state.me.master = true → k.state.table.serves k.state.myself = true))
    ⟨fun h => ⟨h.1, h.2⟩, fun h => ⟨h.1, h.2⟩⟩

/-- Node `x` suspects the node of the call: it is ourselves, or it said so lately. -/
def Call.suspects (k : Call) (heard : List Hearsay) (x : NodeId) : Prop :=
  x = k.state.myself ∨ x ∈ k.state.table.known ∧
    ∃ w, Hearsay.latest (heard ++ k.heard) x k.node = some w ∧ w.failing = true ∧
      k.env.now - w.time ≤ k.state.options.node_timeout * kFailReportValidityMult

/-- The reporters and we ourselves are a majority. -/
theorem Call.majority {k : Call} {heard : List Hearsay} (hk : k.Serving) (hf : k.after.Filed)
    (hr : Recalled (heard ++ k.heard) k.after)
    (hother : k.node ≠ k.state.myself) (hknown : k.node ∈ k.state.table.known)
    (hbefore : (k.state.table.node k.node).fail = false)
    (h : (k.after.table.node k.node).fail = true) :
    ∃ S : Finset NodeId, k.state.table.needed_quorum ≤ S.card ∧
      ∀ x ∈ S, k.state.table.serves x = true ∧ k.suspects heard x := by
  obtain ⟨hquorum, hfresh⟩ := Call.quorum hbefore h
  have hsame : k.after.table.known = k.state.table.known := known_mark_node_as_failing ..
  have hid : k.after.myself = k.state.myself := by
    have hcs := (Changes.refl (o := Cause.still) k.state).mark_node_as_failing_if_needed k.env hknown
      trivial
    exact hcs.myself
  have hn : k.node ∈ k.after.table.known := hsame ▸ hknown
  have hreport : ∀ x ∈ ((k.after.table.node k.node).fail_reports.map Prod.fst),
      k.state.table.serves x = true ∧ k.suspects heard x := by
    intro x hx
    obtain ⟨r, hmem, rfl⟩ := List.mem_map.mp hx
    obtain ⟨hold, hnow⟩ := hfresh r hmem
    refine ⟨hk.reporters r hold hnow, Or.inr ⟨hsame ▸ (hf.reporter k.node hn r hmem).1.1, ?_⟩⟩
    exact ⟨_, hr k.node hn (fun e => hother (e.trans hid)) r hmem, rfl, hnow⟩
  have hnodup := hf.once k.node hn
  cases hm : k.state.me.master with
  | false =>
    refine ⟨((k.after.table.node k.node).fail_reports.map Prod.fst).toFinset, ?_, fun x hx => ?_⟩
    · rw [List.toFinset_card_of_nodup hnodup, List.length_map]
      simpa [hm] using hquorum
    · exact hreport x (List.mem_toFinset.mp hx)
  | true =>
    have hself : k.state.myself ∉ (k.after.table.node k.node).fail_reports.map Prod.fst := by
      intro hmem
      obtain ⟨r, hr, he⟩ := List.mem_map.mp hmem
      exact (hf.reporter k.node hn r hr).2.1 (he.trans hid.symm)
    refine ⟨(k.state.myself :: (k.after.table.node k.node).fail_reports.map Prod.fst).toFinset, ?_,
      fun x hx => ?_⟩
    · rw [List.toFinset_card_of_nodup (List.nodup_cons.mpr ⟨hself, hnodup⟩), List.length_cons,
        List.length_map]
      simpa [hm] using hquorum
    · rcases List.mem_cons.mp (List.mem_toFinset.mp hx) with rfl | hx
      · exact ⟨hk.myself hm, Or.inl rfl⟩
      · exact hreport x hx

end Cluster

/-! ## Runs -/

/-- A run so far: the cluster, and the gossip each node has read. -/
structure Rumor where
  world : World
  heard : NodeId → List Hearsay

namespace Rumor

/-- A process as an event finds it. -/
def node (r : Rumor) (i : NodeId) : Cluster := { r.world.node i with sent := [] }

def step (r : Rumor) (s : Action) : Rumor where
  world := r.world.step s
  heard :=
    match r.world.event s with
    | none => r.heard
    | some (i, e) => Function.update r.heard i (r.heard i ++ (r.node i).heard e)

structure Start (r : Rumor) : Prop where
  world : r.world.Unreported
  silent : ∀ i, r.heard i = []

/-- Nobody reads its own messages; a node that is on record as a reporter is a master
whenever it is heard; and those who are counted serve slots. -/
structure Credible (r : Rumor) (s : Action) : Prop where
  foreign : r.world.Foreign s
  steadfast : ∀ p ∈ r.world.event s, ∀ m ∈ p.2.message, (r.node p.1).Steadfast m
  serving : ∀ p ∈ r.world.event s, ∀ k ∈ (r.node p.1).calls p.2, k.Serving

structure Recalled (r : Rumor) : Prop where
  world : r.world.Recorded
  heard : ∀ i, Cluster.Recalled (r.heard i) (r.world.node i)

theorem Recalled.step {r : Rumor} (h : r.Recalled) {s : Action} (hs : r.Credible s) :
    (r.step s).Recalled where
  world := h.world.step hs.foreign
  heard i := by
    unfold Rumor.step
    cases he : r.world.event s with
    | none =>
      rw [World.node_step_of_none he]
      exact h.heard i
    | some p =>
      obtain ⟨j, e⟩ := p
      dsimp only
      by_cases hi : i = j
      · subst hi
        rw [Function.update_self, World.node_step_self he]
        refine (h.heard i).step (h.world.filed i) (hs.foreign (i, e) he).1 ?_ (hs.steadfast (i, e) he)
        rw [(h.world.sound.node i).2]
        exact (hs.foreign (i, e) he).2
      · rw [Function.update_of_ne hi, World.node_step_of_ne he hi]
        exact h.heard i

/-- A call that flags its node has a majority behind it. -/
theorem call_has_majority {r : Rumor} (h : Reach step Credible Start r) {s : Action}
    (hs : r.Credible s) {i : NodeId} {e : Cluster.Event} (he : r.world.event s = some (i, e))
    {k : Cluster.Call} (hk : k ∈ (r.node i).calls e)
    (hbefore : (k.state.table.node k.node).fail = false)
    (hafter : (k.after.table.node k.node).fail = true) :
    ∃ S : Finset NodeId, k.state.table.cluster_size / 2 + 1 ≤ S.card ∧
      ∀ x ∈ S, k.state.table.serves x = true ∧ k.suspects (r.heard i) x := by
  have hr : r.Recalled := by
    refine h.invariant (fun r hr => ⟨hr.world.recorded, fun i n _ _ x hx => ?_⟩) fun r s hr hs => hr.step hs
    rw [hr.world.rows i n] at hx
    cases hx
  have hme : ∀ m ∈ e.message, m.sender ≠ (r.node i).myself := by
    rw [show (r.node i).myself = i from (hr.world.sound.node i).2]
    exact (hs.foreign (i, e) he).2
  have hfiled : (r.node i).Filed :=
    ⟨(hr.world.filed i).reporter, (hr.world.filed i).once, (hr.world.filed i).blank⟩
  have hwords : Cluster.Recalled (r.heard i) (r.node i) := hr.heard i
  obtain ⟨hf, hrec, hother, hknown⟩ := Cluster.recalled_calls hwords hfiled (hs.foreign (i, e) he).1 hme
    (fun m hm => hr.world.candid.read he hm) (hs.steadfast (i, e) he) hk
  exact Cluster.Call.majority (hs.serving (i, e) he k hk) hf hrec hother hknown hbefore hafter

/-- **A node that is moved from PFAIL to FAIL is suspected by a majority of the masters
that serve slots,** in every run in which those that are counted serve slots and are
masters whenever they are heard. -/
theorem fail_has_majority {r : Rumor} (h : Reach step Credible Start r) {s : Action}
    (hs : r.Credible s) {i : NodeId} {e : Cluster.Event} (he : r.world.event s = some (i, e))
    {k : Cluster.Call} (hk : k ∈ (r.node i).calls e)
    (hbefore : (k.state.table.node k.node).pfail = true ∧ (k.state.table.node k.node).fail = false)
    (hafter : (k.after.table.node k.node).fail = true) :
    ∃ S : Finset NodeId, k.state.table.cluster_size / 2 + 1 ≤ S.card ∧
      ∀ x ∈ S, k.state.table.serves x = true ∧ k.suspects (r.heard i) x :=
  call_has_majority h hs he hk hbefore.2 hafter

/-- **Whoever is flagged, is flagged by a majority**, or because a FAIL message says so: no
other way of a step to flag a node is left out of `calls`. -/
theorem flagged_has_majority {r : Rumor} (h : Reach step Credible Start r) {s : Action}
    (hs : r.Credible s) {i n : NodeId} {e : Cluster.Event} (he : r.world.event s = some (i, e))
    (hr : e.is_restart = false) (hp : (r.world.node i).Proper n)
    (hbefore : ((r.world.node i).table.node n).fail = false)
    (hafter : (((r.step s).world.node i).table.node n).fail = true) :
    (∃ m ∈ e.message, m.type = .kFail ∧ n = m.fail_id) ∨
      ∃ k ∈ (r.node i).calls e, k.node = n ∧
        ∃ S : Finset NodeId, k.state.table.cluster_size / 2 + 1 ≤ S.card ∧
          ∀ x ∈ S, k.state.table.serves x = true ∧ k.suspects (r.heard i) x := by
  rw [show (r.step s).world.node i = (r.world.node i).step e from World.node_step_self he] at hafter
  have hnew : e.Novel (r.node i) := (hs.foreign (i, e) he).1
  rcases Cluster.flagged_by_call hr hnew hp hbefore hafter with hname | ⟨k, hk, rfl, hfail, hflag⟩
  · exact Or.inl hname
  · exact Or.inr ⟨k, hk, rfl, call_has_majority h hs he hk hfail hflag⟩

/-! ## Two masters of three, and one of three -/

def trio : Rumor := { world := World.trio, heard := fun _ => [] }

/-- Nodes 1 and 3 suspect node 2, and node 3 is about to tell node 1. -/
def suspected : Rumor :=
  [.inner 1 (.cron (World.about_two 20000 0)), .inner 3 (.cron (World.about_two 20000 0)),
    .inner 3 (.connected (World.about_two 20000 0) 1)].foldl step trio

/-- An event of a process that has no reports on file and makes no calls but good ones. -/
theorem credible_inner {r : Rumor} {i : NodeId} {e : Cluster.Event} (hm : e.message = none)
    (he : ∀ env ∈ e.envs, ∀ ip port cport, env.random_id ip port cport = 0)
    (hd : 0 ∉ (r.world.node i).table.known) (hk : ∀ k ∈ (r.node i).calls e, k.Serving) :
    r.Credible (.inner i e) := by
  refine ⟨World.foreign_inner (d := 0) hm he hd, fun p hp => ?_, fun p hp => ?_⟩
  · rw [World.eq_of_event_inner hp, hm]
    exact fun m hm => absurd hm (Option.not_mem_none m)
  · rw [World.eq_of_event_inner hp]
    exact hk

theorem reach_suspected : Reach step Credible Start suspected := by
  refine Reach.run (.start ⟨World.unreported_trio, fun _ => rfl⟩) ⟨?_, ?_, ?_, trivial⟩
  · exact credible_inner rfl (by simp [Cluster.Event.envs, World.about_two]) (by decide +kernel)
      (by decide +kernel)
  · exact credible_inner rfl (by simp [Cluster.Event.envs, World.about_two]) (by decide +kernel)
      (by decide +kernel)
  · exact credible_inner rfl (by simp [Cluster.Event.envs, World.about_two]) (by decide +kernel)
      (by decide +kernel)

theorem fail_has_majority_suspected :
    ∃ p ∈ suspected.world.event (.deliver 3 1 (World.about_two 20001 0) [] none),
      ∃ k ∈ (suspected.node p.1).calls p.2, (k.after.table.node 2).fail = true ∧
        ∃ S : Finset NodeId, k.state.table.cluster_size / 2 + 1 ≤ S.card ∧
          ∀ x ∈ S, k.state.table.serves x = true ∧ k.suspects (suspected.heard p.1) x := by
  have hcalls : ∃ p ∈ suspected.world.event (.deliver 3 1 (World.about_two 20001 0) [] none),
      ∃ k ∈ (suspected.node p.1).calls p.2, k.node = 2 ∧
        ((k.state.table.node 2).pfail = true ∧ (k.state.table.node 2).fail = false) ∧
          (k.after.table.node 2).fail = true := by
    decide +kernel
  have hsound : suspected.world.Sound :=
    (reach_suspected.invariant (I := fun r => r.world.Sound) (fun r hr => hr.world.sound)
      fun r s hr _ => hr.step s)
  obtain ⟨p, hp, k, hk, hnode, hbefore, hafter⟩ := hcalls
  refine ⟨p, hp, k, hk, hafter, ?_⟩
  refine fail_has_majority reach_suspected ⟨?_, ?_, ?_⟩ hp hk ?_ ?_
  · exact World.foreign_deliver hsound (by decide) (fun _ _ _ => rfl) (by decide +kernel) (by decide)
  · decide +kernel
  · decide +kernel
  · rw [hnode]
    exact hbefore
  · rw [hnode]
    exact hafter

/-- Node 4 is a master without slots. -/
def quartet : Rumor where
  world := { World.trio with
    node := fun i => World.process { World.trio_table i with known := [1, 2, 3, 4].insert i } 0 }
  heard := fun _ => []

theorem start_quartet : quartet.Start where
  world :=
    { sound := by
        refine World.sound_of_silent (fun i => ⟨World.sound_process fun n => ?_, rfl⟩)
          (fun _ _ => rfl) fun _ _ => rfl
        exact ⟨le_rfl, nofun⟩
      rows := fun _ _ => rfl
      candid := ⟨by simp [quartet, World.trio], by simp [quartet, World.trio]⟩ }
  silent _ := rfl

/-- Nodes 1 and 4 suspect node 2, and node 4 is about to tell node 1. -/
def hearsay : Rumor :=
  [.inner 1 (.cron (World.about_two 20000 0)), .inner 4 (.cron (World.about_two 20000 0)),
    .inner 4 (.connected (World.about_two 20000 0) 1)].foldl step quartet

/-- Node 1 flags node 2 on the word of node 4, which serves nothing. Of the three masters
that serve slots, it alone suspects node 2. -/
theorem slotless_report_counted : quartet.Start ∧
    ∃ p ∈ hearsay.world.event (.deliver 4 1 (World.about_two 20001 0) [] none),
      ∃ k ∈ (hearsay.node p.1).calls p.2,
        (k.state.table.node k.node).pfail = true ∧ (k.state.table.node k.node).fail = false ∧
        (k.after.table.node k.node).fail = true ∧
        ¬ ∃ S : Finset NodeId, k.state.table.cluster_size / 2 + 1 ≤ S.card ∧
          ∀ x ∈ S, k.state.table.serves x = true ∧ k.suspects (hearsay.heard p.1) x := by
  have hcalls : ∃ p ∈ hearsay.world.event (.deliver 4 1 (World.about_two 20001 0) [] none),
      ∃ k ∈ (hearsay.node p.1).calls p.2,
        (k.state.table.node k.node).pfail = true ∧ (k.state.table.node k.node).fail = false ∧
        (k.after.table.node k.node).fail = true ∧
        k.state.table.cluster_size = 3 ∧ k.state.table.serves 4 = false ∧ k.state.myself = 1 ∧
        ∀ w ∈ hearsay.heard p.1 ++ k.heard, w.reporter = 4 := by
    decide +kernel
  obtain ⟨p, hp, k, hk, hpfail, hfail, hafter, hsize, hserves, hme, hheard⟩ := hcalls
  refine ⟨start_quartet, p, hp, k, hk, hpfail, hfail, hafter, ?_⟩
  rintro ⟨S, hcard, hS⟩
  have hone : S ⊆ {1} := by
    intro x hx
    obtain ⟨hx4, hsus | ⟨-, w, hw, -⟩⟩ := hS x hx
    · rw [hsus, hme]
      exact Finset.mem_singleton_self 1
    · -- whoever has said anything is node 4
      obtain ⟨hmem, rfl⟩ := Hearsay.of_latest hw
      rw [hheard w hmem, hserves] at hx4
      cases hx4
  have := Finset.card_le_card hone
  rw [hsize] at hcard
  exact absurd (hcard.trans this) (by decide)

end Rumor

end EpochKV

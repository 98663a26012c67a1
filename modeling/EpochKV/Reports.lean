/-
Who is on record as having reported a node.

The tally of `mark_node_as_failing_if_needed` adds our own opinion to the reports on
file. `Filed` is what makes it a count of distinct masters: the reports on a node are
of other nodes that we know, each once, and none is ours. Gossip brings them in under
the id of its sender, so all depends on the sender: it must not be the node that is
reported, which no node gossips about itself, and it must not be ourselves. The second
is not excluded. CLUSTER MEET of our own address makes us read our own messages, and
our gossip about a node we suspect is then filed as a report of ours.
-/
import EpochKV.Lifetime

set_option autoImplicit false
set_option maxRecDepth 8192

namespace EpochKV

open Text Commands

/-- The gossip of a message is not about its sender. -/
def Message.Candid (m : Message) : Prop := ∀ g ∈ m.gossip, g.id ≠ m.sender

namespace Cluster

/-- Nothing is reported of a placeholder. -/
def Blank (c : Cluster) : Prop :=
  ∀ n, (c.table.node n).handshake = true → (c.table.node n).fail_reports = []

structure Filed (c : Cluster) : Prop where
  reporter : ∀ n ∈ c.table.known, ∀ r ∈ (c.table.node n).fail_reports,
    c.Proper r.1 ∧ r.1 ≠ c.myself ∧ r.1 ≠ n
  once : ∀ n ∈ c.table.known, ((c.table.node n).fail_reports.map Prod.fst).Nodup
  blank : c.Blank

/-- The message is of another node, which does not gossip about itself. -/
def Cause.Tame (o : Cause) (me : NodeId) : Prop := ∀ m, o.msg = some m → m.sender ≠ me ∧ m.Candid

/-! ## Along a chain of changes -/

variable {o : Cause} {c c' : Cluster}

/-- The reports on a node: some are withdrawn, or the sender's is filed. -/
theorem Change.reports_cases (hs : Change o c c') (hb : c.Blank) (n : NodeId) :
    (c'.table.node n).fail_reports.Sublist (c.table.node n).fail_reports ∧
        (n ∈ c'.table.known → n ∈ c.table.known ∨ (c'.table.node n).fail_reports = []) ∨
      ∃ m t, Reports o c n m ∧
        (c'.table.node n).fail_reports = ((c.table.node n).report m.sender t).fail_reports := by
  have hnil : (c'.table.node n).fail_reports = [] →
      (c'.table.node n).fail_reports.Sublist (c.table.node n).fail_reports ∧
        (n ∈ c'.table.known → n ∈ c.table.known ∨ (c'.table.node n).fail_reports = []) :=
    fun h => ⟨h ▸ List.nil_sublist _, fun _ => Or.inr h⟩
  cases hs.rewrites n with
  | edited he hk => exact he.reports.imp_left fun hsub => ⟨hsub, fun h => Or.inl (hk h)⟩
  | created _ hr =>
    have hoffice := hr.office
    simp only [Node.office, Prod.mk.injEq] at hoffice
    exact Or.inl (hnil hoffice.2.2.2.2.2)
  | met hi hx hr =>
    -- the row is the placeholder's, which has no reports, or that of a known node
    rename_i p m
    rcases node_rename_self c.table p n with hrow | ⟨hk, hrow⟩
    · refine Or.inl (hnil ?_)
      rw [hr, hrow]
      exact hb p hi.placeholder
    · rw [hr, hrow]
      exact Or.inl ⟨List.Sublist.refl _, fun _ => Or.inl hk⟩

/-- A node that leaves the table takes its reports along. -/
theorem Change.reporter_proper (hs : Change o c c') (hn : Cause.Novel o c) {n : NodeId}
    {r : NodeId × Time} (hr : r ∈ (c'.table.node n).fail_reports) (hp : c.Proper r.1) :
    c'.Proper r.1 := by
  refine ⟨(hs.mem_known hp.2 hp.1).resolve_right ?_, hs.met (fun hd => hn.proper _ hd hp) hp.2⟩
  rintro ⟨-, -, rfl⟩
  have hne : r.1 ≠ r.1 := by simpa using (List.mem_filter.mp hr).2
  exact hne rfl

/-- The sender's old report goes, the new one comes last. -/
theorem nodup_report {r : Node} (h : (r.fail_reports.map Prod.fst).Nodup) (s : NodeId) (t : Time) :
    ((r.report s t).fail_reports.map Prod.fst).Nodup := by
  show ((r.fail_reports.filter fun x => x.1 ≠ s) ++ [(s, t)]).map Prod.fst |>.Nodup
  rw [List.map_append, List.nodup_append]
  refine ⟨h.sublist (List.filter_sublist.map _), List.nodup_singleton _, ?_⟩
  intro a ha b hb
  obtain ⟨x, hx, rfl⟩ := List.mem_map.mp ha
  rw [List.mem_singleton.mp hb]
  simpa using (List.mem_filter.mp hx).2

theorem mem_report {r : Node} {s : NodeId} {t : Time} {x : NodeId × Time}
    (h : x ∈ (r.report s t).fail_reports) : x ∈ r.fail_reports ∧ x.1 ≠ s ∨ x = (s, t) := by
  rcases List.mem_append.mp h with h | h
  · exact Or.inl ⟨(List.mem_filter.mp h).1, by simpa using (List.mem_filter.mp h).2⟩
  · exact Or.inr (List.mem_singleton.mp h)

theorem Blank.change (h : c.Blank) (hs : Change o c c') : c'.Blank := by
  intro n hh
  by_cases hb : (c.table.node n).handshake = true
  · rcases hs.reports_cases h n with ⟨hsub, -⟩ | ⟨m, t, hm, -⟩
    · exact List.eq_nil_of_sublist_nil (h n hb ▸ hsub)
    · rw [hm.proper.2] at hb
      cases hb
  · rcases hs.met_or_drawn (Bool.eq_false_of_not_eq_true hb) with hmet | ⟨-, hrow⟩
    · rw [hmet] at hh
      cases hh
    · simp only [Node.office, Prod.mk.injEq] at hrow
      exact hrow.2.2.2.2.2

theorem Blank.changes (h : c.Blank) (hs : Changes o c c') : c'.Blank :=
  hs.invariant (fun _ _ ha hab => ha.change hab) h

theorem Filed.change (h : c.Filed) (hd : Cause.Novel o c) (ht : Cause.Tame o c.myself)
    (hs : Change o c c') : c'.Filed where
  reporter n hn r hr := by
    have hold : n ∈ c.table.known → r ∈ (c.table.node n).fail_reports →
        c'.Proper r.1 ∧ r.1 ≠ c'.myself ∧ r.1 ≠ n := by
      intro hk hmem
      obtain ⟨hp, hown, hself⟩ := h.reporter n hk r hmem
      rw [hs.myself]
      exact ⟨hs.reporter_proper hd hr hp, hown, hself⟩
    rcases hs.reports_cases h.blank n with ⟨hsub, hk⟩ | ⟨m, t, hm, hnew⟩
    · rcases hk hn with hk | hnil
      · exact hold hk (hsub.subset hr)
      · rw [hnil] at hr
        cases hr
    · rcases mem_report (hnew ▸ hr) with ⟨hmem, -⟩ | rfl
      · exact hold hm.proper.1 hmem
      · obtain ⟨g, hg, hgn⟩ := hm.gossip
        obtain ⟨hother, hcandid⟩ := ht m hm.msg
        rw [hs.myself]
        refine ⟨hs.reporter_proper hd hr (hm.sender (hd.sender m hm.msg)), hother, fun e => ?_⟩
        exact hcandid g hg (hgn.trans e.symm)
  once n hn := by
    rcases hs.reports_cases h.blank n with ⟨hsub, hk⟩ | ⟨m, t, hm, hnew⟩
    · rcases hk hn with hk | hnil
      · exact (h.once n hk).sublist (hsub.map _)
      · rw [hnil]
        exact List.nodup_nil
    · rw [hnew]
      exact nodup_report (h.once n hm.proper.1) _ _
  blank := h.blank.change hs

theorem Filed.changes (h : c.Filed) (hd : Cause.Novel o c) (ht : Cause.Tame o c.myself)
    (hs : Changes o c c') : c'.Filed := by
  have hall : c'.Filed ∧ c'.myself = c.myself := by
    refine hs.invariant_novel (P := fun a => a.Filed ∧ a.myself = c.myself) hd ?_ ⟨h, rfl⟩
    intro a b hna ha hab
    exact ⟨ha.1.change hna (ha.2.symm ▸ ht) hab, hab.myself.trans ha.2⟩
  exact hall.1

/-! ## One event -/

/-- Nothing is reported in a file. -/
theorem filed_from_config (env : Env) (options : Options) (conf : Conf) (store : Store) :
    (from_config env options conf store).Filed :=
  ⟨fun _ _ _ hr => (nomatch hr), fun _ _ => List.nodup_nil, fun _ _ => rfl⟩

theorem Filed.step (h : c.Filed) {e : Event} (hnew : e.Novel c)
    (hme : ∀ m ∈ e.message, m.sender ≠ c.myself) (hc : ∀ m ∈ e.message, m.Candid) :
    (c.step e).Filed := by
  rcases step_cases c e with ⟨-, hcs⟩ | ⟨env, store, -, hcs⟩
  · have hclear : { c with sent := [] }.Filed := ⟨h.reporter, h.once, h.blank⟩
    exact hclear.changes hnew.clear.cause (fun m hm => ⟨hme m hm, hc m hm⟩) hcs
  · exact (filed_from_config env _ _ store).changes (Cause.Novel.still _) (fun _ hm => nomatch hm) hcs

/-- No node gossips about itself. -/
theorem candid_changes (hs : Changes o c c') (h : ∀ m ∈ c.sent, m.2.Candid) :
    ∀ m ∈ c'.sent, m.2.Candid := by
  induction hs with
  | refl => exact h
  | tail _ hlast ih =>
    intro m hm
    rcases hlast.sent_cases hm with hold | ⟨hsaid, -⟩
    · exact ih m hold
    · intro g hg
      rw [hsaid.sender]
      exact hsaid.gossip g hg

theorem candid_step (c : Cluster) (e : Event) : ∀ m ∈ (c.step e).sent, m.2.Candid := by
  rcases step_cases c e with ⟨-, hcs⟩ | ⟨env, store, -, hcs⟩
  · exact candid_changes hcs (by simp)
  · exact candid_changes hcs (List.forall_mem_nil _)

end Cluster

/-! ## The cluster -/

variable {w : World}

namespace World

/-- Nothing is reported yet. -/
structure Unreported (w : World) : Prop where
  sound : w.Sound
  rows : ∀ i n, ((w.node i).table.node n).fail_reports = []
  candid : w.Everywhere Message.Candid

/-- The step draws new ids, and nobody reads a message of its own. -/
def Foreign (w : World) (s : Action) : Prop :=
  ∀ p ∈ w.event s, p.2.Novel (w.node p.1) ∧ ∀ m ∈ p.2.message, m.sender ≠ p.1

structure Recorded (w : World) : Prop where
  sound : w.Sound
  filed : ∀ i, (w.node i).Filed
  candid : w.Everywhere Message.Candid

theorem Recorded.step (h : w.Recorded) {s : Action} (hs : w.Foreign s) :
    (w.step s).Recorded where
  sound := h.sound.step s
  filed i := by
    refine node_step_holds (h.filed i) fun e he => ?_
    refine (h.filed i).step (hs (i, e) he).1 ?_ fun m hm => h.candid.read he hm
    rw [(h.sound.node i).2]
    exact (hs (i, e) he).2
  candid := h.candid.step fun _ _ _ => Cluster.candid_step _ _

theorem Unreported.recorded (h : w.Unreported) : w.Recorded where
  sound := h.sound
  filed i := by
    refine ⟨fun n _ r hr => ?_, fun n _ => ?_, fun n _ => h.rows i n⟩
    · rw [h.rows i n] at hr
      cases hr
    · rw [h.rows i n]
      exact List.nodup_nil
  candid := h.candid

/-- **The reports on a node are of other nodes that are known, never of the node itself
and never our own, and each is on file once,** as long as nobody reads its own messages. -/
theorem reports_by_others {w : World} (h : Reach step Foreign Unreported w) (i n : NodeId)
    (hn : n ∈ (w.node i).table.known) :
    (∀ r ∈ ((w.node i).table.node n).fail_reports,
      r.1 ∈ (w.node i).table.known ∧ r.1 ≠ i ∧ r.1 ≠ n) ∧
      (((w.node i).table.node n).fail_reports.map Prod.fst).Nodup := by
  have hr : w.Recorded := h.invariant (fun w hw => hw.recorded) fun w s hw hs => hw.step hs
  refine ⟨fun r hmem => ?_, (hr.filed i).once n hn⟩
  obtain ⟨hp, hme, hne⟩ := (hr.filed i).reporter n hn r hmem
  rw [(hr.sound.node i).2] at hme
  exact ⟨hp.1, hme, hne⟩

/-! ## Three masters

Nodes 1, 2 and 3 serve a slot each. They are connecting to each other, and wait for an
answer of node 2 since time 1. -/

def trio_table (i : NodeId) : Table where
  myself := i
  known := [1, 2, 3].insert i
  node := fun n =>
    { master := true, ping_sent := if n = 2 then 1 else 0
      link := some { connecting := true, ctime := 19000 } }
  own := ((Ownership.vacant.assign {0} (some 1)).assign {1} (some 2)).assign {2} (some 3)
  migrating_to := fun _ => none
  importing_from := fun _ => none

/-- Node 9 is nobody: it is what node 1 will call itself. -/
def trio : World where
  node := fun i => process (trio_table i) 0
  lead := fun n => if n = 9 then 1 else n
  own := fun _ _ => []
  back := fun _ _ => []

/-- Gossip about node 2 goes along. -/
def about_two (t : Time) (draw : NodeId) : Cluster.Env :=
  { now := t, random_id := fun _ _ _ => draw, shuffle := [2] }

/-- Node 3 suspects node 2 and tells node 1. -/
def suspicion : List Action :=
  [.inner 3 (.cron (about_two 20000 0)), .inner 3 (.connected (about_two 20000 0) 1),
    .deliver 3 1 (about_two 20001 0) [] none]

theorem unreported_trio : trio.Unreported where
  sound := by
    refine sound_of_silent (fun i => ⟨sound_process fun n => ?_, rfl⟩) (fun _ _ => rfl) fun _ _ => rfl
    exact ⟨le_rfl, nofun⟩
  rows _ _ := rfl
  candid := ⟨by simp [trio], by simp [trio]⟩

/-- An event that is no packet, in surroundings that always draw `d`. -/
theorem foreign_inner {i d : NodeId} {e : Cluster.Event} (hm : e.message = none)
    (he : ∀ env ∈ e.envs, ∀ ip port cport, env.random_id ip port cport = d)
    (hd : d ∉ (w.node i).table.known) : w.Foreign (.inner i e) := by
  intro p hp
  rw [eq_of_event_inner hp]
  refine ⟨?_, ?_⟩
  · rintro id ⟨env, henv, ip, port, cport, rfl⟩
    rw [he env henv, hm]
    exact ⟨hd, fun m hm => absurd hm (Option.not_mem_none m)⟩
  · rw [hm]
    exact fun m hm => absurd hm (Option.not_mem_none m)

/-- A message of another node. -/
theorem foreign_deliver (hw : w.Sound) {a b d : NodeId} {env : Cluster.Env} {ip : Bytes}
    {ip' : Option Bytes} (hab : a ≠ b) (he : ∀ ip port cport, env.random_id ip port cport = d)
    (hd : d ∉ (w.node b).table.known) (hda : d ≠ a) : w.Foreign (.deliver a b env ip ip') := by
  intro p hp
  obtain ⟨m, hm, rfl⟩ := Option.map_eq_some_iff.mp hp
  have hs : m.sender = a := (hw.own a b m (List.mem_of_mem_head? hm)).2
  refine ⟨?_, ?_⟩
  · rintro id ⟨env', henv, ip, port, cport, rfl⟩
    rw [List.mem_singleton.mp henv, he]
    refine ⟨hd, fun m' hm' => ?_⟩
    cases hm'
    rw [hs]
    exact hda
  · intro m' hm'
    cases hm'
    rw [hs]
    exact hab

theorem reports_by_others_suspicion :
    (((suspicion.foldl step trio).node 1).table.node 2).fail_reports = [(3, 20001)] ∧
      ∀ r ∈ (((suspicion.foldl step trio).node 1).table.node 2).fail_reports,
        r.1 ∈ ((suspicion.foldl step trio).node 1).table.known ∧ r.1 ≠ 1 ∧ r.1 ≠ 2 := by
  refine ⟨by decide +kernel, (reports_by_others (Reach.run (.start unreported_trio) ?_) 1 2 ?_).1⟩
  · have hsound := (unreported_trio.sound.step (.inner 3 (.cron (about_two 20000 0)))).step
      (.inner 3 (.connected (about_two 20000 0) 1))
    exact ⟨foreign_inner (d := 0) rfl (by simp [Cluster.Event.envs, about_two]) (by decide +kernel),
      foreign_inner (d := 0) rfl (by simp [Cluster.Event.envs, about_two]) (by decide +kernel),
      foreign_deliver hsound (by decide) (fun _ _ _ => rfl) (by decide +kernel) (by decide), trivial⟩
  · decide +kernel

/-- Node 1 suspects node 2. It is told to meet its own address, connects to it under a
placeholder id, and reads its own MEET: its gossip about node 2 becomes a report of node
1, which is counted beside its own opinion. Nobody else has said anything. -/
def self_meet : List Action :=
  [.inner 1 (.command (about_two 19500 9) [lit "CLUSTER", lit "MEET", lit "127.0.0.1", lit "7001"] []),
    .inner 1 (.cron (about_two 20000 9)), .inner 1 (.connected (about_two 20000 9) 9),
    .deliver 1 1 (about_two 20001 9) (lit "127.0.0.1") none]

theorem own_report_counted :
    (((self_meet.foldl step trio).node 1).table.node 2).fail_reports = [(1, 20001)] ∧
      (((self_meet.foldl step trio).node 1).table.node 2).fail = true := by
  decide +kernel

end World

end EpochKV

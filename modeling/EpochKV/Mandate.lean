/-
When is a promotion backed by votes?

A `Watch` follows one node through a run of the cluster and writes down what it has done
since it last became a replica of its present master: the epoch it asked for votes in,
and the votes that came from masters serving slots. `handle_replica_failover` looks at
none of this. It looks at a count and a flag that stay set when the node becomes a
replica, so a count from an earlier election can promote it (`stale_votes_promote`).
`promotion_backed` says what has to be excluded: an open election at the moment the node
becomes a replica, a vote for another epoch, a message that shows the master at the
election's epoch or beyond while the votes are out, and an epoch past the last.
-/
import EpochKV.Agreement

set_option autoImplicit false
set_option maxRecDepth 8192

namespace EpochKV

open Commands

namespace Cluster

/-- When an event happens, if the node reads the clock. -/
def Event.now : Event → Option Time
  | .packet env _ _ | .command env _ _ | .cron env | .before_sleep env _ | .connected env _
  | .stall env | .restart env _ => some env.now
  | .lost_link _ | .data _ => none

/-- The event makes the node a replica, or the replica of another master. A process that
starts counts as one that becomes what it finds itself to be. -/
def becomes_replica (c : Cluster) (e : Event) : Bool :=
  e.is_restart ∨
    (c.step e).me.replica ∧ (c.me.replica = false ∨ (c.step e).me.master_id ≠ c.me.master_id)

/-- A vote from a master that serves slots, as the node sees it. -/
def receives (c : Cluster) (msg : Message) : Bool :=
  msg.type = .kFailoverAuthAck ∧ (c.sender_of msg).any c.table.serves

/-- The election can no longer be won: no votes are out, or the time for them is over. -/
def closed (c : Cluster) (now : Time) : Bool :=
  c.election.sent = false ∨ c.election.time.all fun t => c.auth_timeout < now - t

end Cluster

/-- What a node has done since it became a replica of its master. -/
structure Campaign where
  /-- The epoch of its last request for votes. -/
  request : Option Nat := none
  /-- The votes it has received, from masters serving slots. -/
  votes : List Message := []

namespace Campaign

/-- Whose votes in epoch `e` it has. -/
def voters (g : Campaign) (e : Nat) : Finset NodeId :=
  ((g.votes.filter fun m => m.current_epoch = e).map Message.sender).toFinset

def after (g : Campaign) (c : Cluster) (e : Cluster.Event) : Campaign :=
  let g := if c.becomes_replica e then {} else g
  { request := if c.turn e = some .request then some (c.step e).election.epoch else g.request
    votes := g.votes ++ (e.message.filter c.receives).toList }

end Campaign

/-- A run so far, with an eye on one node. -/
structure Watch where
  world : World
  campaign : Campaign := {}
  /-- The last time the node looked at. -/
  clock : Time := 0

namespace Watch

def step (i : NodeId) (w : Watch) (s : Action) : Watch :=
  match w.world.event s with
  | some (j, e) =>
    if j = i then
      { world := w.world.step s
        campaign := w.campaign.after (w.world.node i) e
        clock := e.now.getD w.clock }
    else { w with world := w.world.step s }
  | none => { w with world := w.world.step s }

structure Start (w : Watch) : Prop where
  world : w.world.Start
  nothing : w.campaign = {}

/-- What a step of node `i` must be like for its elections to be sound. -/
structure Orderly (w : Watch) (c : Cluster) (e : Cluster.Event) : Prop where
  /-- The clock is monotone. -/
  clock : ∀ t ∈ e.now, w.clock ≤ t
  /-- No election is open when the node becomes a replica. -/
  closed : e.is_restart = false → c.becomes_replica e → c.closed (e.now.getD w.clock)
  /-- A vote that is counted is a vote in the election's epoch. -/
  exact : ∀ msg ∈ e.message, c.counts msg → msg.current_epoch = c.election.epoch
  /-- While votes are out, a message from the master comes from a node that is known, and no
  message shows the master, as its sender or as the node of an UPDATE, at the election's epoch
  or beyond. -/
  below : ∀ msg ∈ e.message, c.election.sent → ∀ m ∈ c.me.master_id,
    (m = msg.sender → c.Proper m ∧ msg.config_epoch < c.election.epoch) ∧
      (msg.type = .kUpdate → m = msg.update_id → msg.update_epoch < c.election.epoch)

instance (w : Watch) (c : Cluster) (e : Cluster.Event) : Decidable (Orderly w c e) :=
  decidable_of_iff
    ((∀ t ∈ e.now, w.clock ≤ t) ∧
      (e.is_restart = false → c.becomes_replica e → c.closed (e.now.getD w.clock)) ∧
      (∀ msg ∈ e.message, c.counts msg → msg.current_epoch = c.election.epoch) ∧
      (∀ msg ∈ e.message, c.election.sent → ∀ m ∈ c.me.master_id,
        (m = msg.sender → c.Proper m ∧ msg.config_epoch < c.election.epoch) ∧
          (msg.type = .kUpdate → m = msg.update_id → msg.update_epoch < c.election.epoch)))
    ⟨fun h => ⟨h.1, h.2.1, h.2.2.1, h.2.2.2⟩, fun h => ⟨h.1, h.2, h.3, h.4⟩⟩

/-- No node is taken past the last epoch, and the steps of node `i` are orderly; otherwise
the others may do as they like. -/
structure Fair (i : NodeId) (w : Watch) (s : Action) : Prop where
  unwrapped : w.world.Unwrapped s
  orderly : ∀ p ∈ w.world.event s, p.1 = i → Orderly w (w.world.node i) p.2

instance (i : NodeId) (w : Watch) (s : Action) : Decidable (Fair i w s) :=
  decidable_of_iff
    (w.world.Unwrapped s ∧ ∀ p ∈ w.world.event s, p.1 = i → Orderly w (w.world.node i) p.2)
    ⟨fun h => ⟨h.1, h.2⟩, fun h => ⟨h.1, h.2⟩⟩

end Watch

/-! ## The config epoch after a promotion -/

variable {c : Cluster} {e : Cluster.Event}

namespace Cluster

theorem closed_mono {c' : Cluster} {t t' : Time} (ht : t ≤ t') (ho : c'.options = c.options)
    (hsent : c'.election.sent = c.election.sent)
    (htime : c.election.sent = true → c'.election.time = c.election.time ∨ c'.election.time = none)
    (h : c.closed t) : c'.closed t' := by
  simp only [closed, Bool.decide_or, Bool.or_eq_true, decide_eq_true_eq, Bool.decide_eq_true] at h ⊢
  rw [hsent]
  by_cases hs : c.election.sent = false
  · exact Or.inl hs
  · rcases h with h | h
    · exact absurd h hs
    · right
      have htimeout : c'.auth_timeout = c.auth_timeout := by
        unfold auth_timeout
        rw [ho]
      rcases htime (by simpa using hs) with he | he
      · rw [he]
        cases hct : c.election.time with
        | none => rfl
        | some t₀ =>
          rw [hct] at h
          simp only [Option.all_some, decide_eq_true_eq] at h ⊢
          rw [htimeout]
          exact lt_of_lt_of_le h (Nat.sub_le_sub_right ht t₀)
      · rw [he]
        rfl

theorem options_step (c : Cluster) (e : Event) : (c.step e).options = c.options := by
  obtain ⟨as, hv⟩ := votes_step c e
  exact hv.options

/-- The epoch of another node stays below a bound that no message shows it at, if it does
not introduce itself anew. -/
theorem Changes.epoch_lt {o : Cause} {c' : Cluster} (h : Changes o c c') {m : NodeId} {E : Nat}
    (hne : m ≠ c.myself) (hmet : o.sent_by m → o.met m) (hshow : ∀ e, o.shows m e → e < E)
    (hlt : (c.table.node m).config_epoch < E) : (c'.table.node m).config_epoch < E := by
  have hinv : c'.myself = c.myself ∧ (c'.table.node m).config_epoch < E := by
    refine h.invariant (P := fun a => a.myself = c.myself ∧ (a.table.node m).config_epoch < E)
      ?_ ⟨rfl, hlt⟩
    rintro a b ⟨hid, hold⟩ hs
    refine ⟨hs.myself.trans hid, ?_⟩
    cases hs.rewrites m with
    | edited he _ =>
      rcases he.epoch with heq | hr
      · rw [heq]
        exact hold
      · rcases hr.who with hn | ⟨hn, -⟩
        · exact absurd (hn.trans hid) hne
        · exact hshow _ hn
    | created _ hr =>
      rw [show (b.table.node m).config_epoch = 0 from congrArg Prod.fst hr.office]
      exact Nat.zero_lt_of_lt hold
    | met hi hx _ => exact absurd (hx ▸ hmet ⟨_, hi.msg, hx⟩) hi.stranger
  exact hinv.2

end Cluster

/-! ## The invariant -/

variable {env : Cluster.Env} {g : Campaign} {msg : Message} {i : NodeId} {w : Watch}

namespace Watch

/-- The election under way was opened by the node as a replica of its present master, the
count is covered by the votes on record, and the master's epoch is lower. -/
structure Backing (g : Campaign) (c : Cluster) : Prop where
  request : g.request = some c.election.epoch
  count : c.election.count ≤ (g.voters c.election.epoch).card
  below : ∀ m ∈ c.me.master_id, (c.table.node m).config_epoch < c.election.epoch

/-- An election of a replica cannot be won any more, or it is backed. -/
structure Sane (g : Campaign) (t : Time) (c : Cluster) : Prop where
  unsent : c.election.sent = false → c.election.count = 0
  open_backed : c.me.replica → c.election.sent → c.closed t ∨ Backing g c

theorem mem_voters {e : Nat} {v : NodeId} :
    v ∈ g.voters e ↔ ∃ m ∈ g.votes, m.current_epoch = e ∧ m.sender = v := by
  simp [Campaign.voters, and_assoc]

/-- More votes, more voters. -/
theorem voters_append (g : Campaign) (r : Option Nat) (ms : List Message) (e : Nat) :
    g.voters e ⊆ Campaign.voters { request := r, votes := g.votes ++ ms } e := by
  intro v hv
  obtain ⟨m, hm, he, hs⟩ := mem_voters.mp hv
  exact mem_voters.mpr ⟨m, List.mem_append_left _ hm, he, hs⟩

/-- A sound node's master is some other node. -/
theorem master_ne (hc : c.Sound) {m : NodeId} (hm : m ∈ c.me.master_id) : m ≠ c.myself := by
  rintro rfl
  exact (hc.rows c.myself).master hm

/-- The record of the node after an event that leaves it the master it had. -/
theorem after_of_same (hb : c.becomes_replica e = false) (ht : c.turn e ≠ some .request) :
    g.after c e = { request := g.request, votes := g.votes ++ (e.message.filter c.receives).toList } := by
  unfold Campaign.after
  dsimp only
  rw [if_neg ht, hb]
  rfl

theorem counts_receives (h : c.counts msg) : c.receives msg ∧ c.election.sent = true := by
  simp only [Cluster.counts, Cluster.receives, Cluster.counts_vote, Bool.decide_and, Bool.and_eq_true,
    decide_eq_true_eq, Option.any_eq_true] at h ⊢
  obtain ⟨ht, n, hn, hs, -, hsent⟩ := h
  exact ⟨⟨ht, n, hn, hs⟩, by simpa using hsent⟩

/-- A replica that was not made one by the event had the same master before. -/
theorem same_master (hb : c.becomes_replica e = false) (hrep : (c.step e).me.replica) :
    e.is_restart = false ∧ c.me.replica = true ∧ (c.step e).me.master_id = c.me.master_id := by
  simp only [Cluster.becomes_replica, hrep, true_and, decide_eq_false_iff_not, not_or, ne_eq,
    not_not, Bool.not_eq_true, Bool.not_eq_false] at hb
  exact hb

variable {w : Watch} {c : Cluster} {e : Cluster.Event}

/-- Once votes are out, no event asks for votes. -/
theorem turn_of_sent (hs : c.election.sent = true) : c.turn e ≠ some .request := by
  intro ht
  obtain ⟨⟨env, c₁⟩, hat, hreq⟩ := Option.map_eq_some_iff.mp ht
  have hel := (Cluster.at_election_spec hat).election_of_still
  change c₁.election = c.election at hel
  have hunsent := Cluster.sent_of_request hreq
  rw [hel, hs] at hunsent
  cases hunsent

theorem Orderly.clock_le (ho : Orderly w c e) : w.clock ≤ e.now.getD w.clock := by
  cases hn : e.now with
  | none => exact le_rfl
  | some t => exact ho.clock t hn

/-- While votes are out, the master's epoch stays below the election's. -/
theorem Orderly.below_step (ho : Orderly w c e) (hc : c.Sound) (hs : c.election.sent = true)
    (hb : c.becomes_replica e = false) (hrep : (c.step e).me.replica)
    (hold : ∀ m ∈ c.me.master_id, (c.table.node m).config_epoch < c.election.epoch) :
    ∀ m ∈ (c.step e).me.master_id, ((c.step e).table.node m).config_epoch < c.election.epoch := by
  intro m hm
  obtain ⟨hr, -, hmaster⟩ := same_master hb hrep
  rw [hmaster] at hm
  have hcs := Cluster.changes_handle { c with sent := [] } hr
  refine hcs.epoch_lt (master_ne hc hm) ?_ ?_ (hold m hm)
  · rintro ⟨msg, hmsg, hn⟩
    exact ((ho.below msg hmsg hs m hm).1 hn).1
  · rintro e ⟨msg, hmsg, ⟨hn, rfl⟩ | ⟨ht, hn, rfl⟩⟩
    · exact ((ho.below msg hmsg hs m hm).1 hn).2
    · exact (ho.below msg hmsg hs m hm).2 ht hn

section

variable (h : Sane w.campaign w.clock c)
include h

/-- What is common to a counted vote and an election that is kept: it was closed, and
stays so, or it was backed. -/
theorem Sane.closed_or (ho : Orderly w c e)
    (hr : e.is_restart = false) (hrep : (c.step e).me.replica) (hs : c.election.sent = true)
    (hsent : (c.step e).election.sent = c.election.sent)
    (htime : c.election.sent = true →
      (c.step e).election.time = c.election.time ∨ (c.step e).election.time = none) :
    (c.step e).closed (e.now.getD w.clock) ∨
      c.becomes_replica e = false ∧ Backing w.campaign c := by
  by_cases hb : c.becomes_replica e
  · exact Or.inl (Cluster.closed_mono le_rfl (c.options_step e) hsent htime (ho.closed hr hb))
  · rw [Bool.not_eq_true] at hb
    rcases h.open_backed (same_master hb hrep).2.1 hs with hcl | hback
    · exact Or.inl (Cluster.closed_mono ho.clock_le (c.options_step e) hsent htime hcl)
    · exact Or.inr ⟨hb, hback⟩

section

variable (hc : c.Sound)
include hc

/-- A vote is counted: there is one voter more on record. -/
theorem Sane.counted {l : Inlet} (ho : Orderly w c (.packet env l msg)) (hcount : c.counts msg)
    (hnew : msg.sender ∉ w.campaign.voters msg.current_epoch)
    (hel : (c.step (.packet env l msg)).election
      = { c.election with count := c.election.count + 1 }) :
    Sane (w.campaign.after c (.packet env l msg)) env.now (c.step (.packet env l msg)) := by
  obtain ⟨hrec, hs⟩ := counts_receives hcount
  have hep := ho.exact msg rfl hcount
  refine ⟨fun hu => ?_, fun hrep _ => ?_⟩
  · rw [hel, show c.election.sent = true from hs] at hu
    cases hu
  · rcases h.closed_or ho rfl hrep hs (by rw [hel]) (by rw [hel]; exact fun _ => Or.inl rfl) with
      hcl | ⟨hb, hback⟩
    · exact Or.inl hcl
    · right
      have hafter : w.campaign.after c (.packet env l msg)
          = { request := w.campaign.request, votes := w.campaign.votes ++ [msg] } := by
        rw [after_of_same hb (turn_of_sent hs)]
        simp [Cluster.Event.message, hrec]
      have hins : insert msg.sender (w.campaign.voters c.election.epoch) ⊆
          Campaign.voters { request := w.campaign.request, votes := w.campaign.votes ++ [msg] }
            c.election.epoch := by
        intro v hv
        rcases Finset.mem_insert.mp hv with rfl | hv
        · exact mem_voters.mpr ⟨msg, by simp, hep, rfl⟩
        · exact voters_append _ _ _ _ hv
      have hcard := Finset.card_le_card hins
      rw [hep] at hnew
      rw [Finset.card_insert_of_notMem hnew] at hcard
      refine ⟨?_, ?_, ?_⟩
      · rw [hafter, hel]
        exact hback.request
      · rw [hafter, hel]
        exact (Nat.succ_le_succ hback.count).trans hcard
      · rw [hel]
        exact ho.below_step hc hs hb hrep hback.below

/-- The election is kept, and so is what backs it. -/
theorem Sane.kept (ho : Orderly w c e) (hk : Cluster.Kept c.election (c.step e).election) :
    Sane (w.campaign.after c e) (e.now.getD w.clock) (c.step e) := by
  refine ⟨fun hu => ?_, fun hrep hs' => ?_⟩
  · rw [hk.count]
    exact h.unsent (hk.sent.symm.trans hu)
  · have hs : c.election.sent = true := hk.sent.symm.trans hs'
    have hr : e.is_restart = false := by
      cases e with
      | restart env store =>
        -- a new process has no votes out
        have hz := congrArg Election.sent (Cluster.election_restart env { c with sent := [] } store)
        exact absurd (hs'.symm.trans hz) (by decide)
      | _ => rfl
    rcases h.closed_or ho hr hrep hs hk.sent hk.time with hcl | ⟨hb, hback⟩
    · exact Or.inl hcl
    · right
      rw [after_of_same hb (turn_of_sent hs)]
      refine ⟨?_, ?_, ?_⟩
      · rw [hk.epoch]
        exact hback.request
      · rw [hk.epoch, hk.count]
        exact hback.count.trans (Finset.card_le_card (voters_append _ _ _ _))
      · rw [hk.epoch]
        exact ho.below_step hc hs hb hrep hback.below

/-- Votes are asked for, in an epoch ahead of every epoch known. -/
theorem Sane.asked (t : Time) (htr : c.turn e = some .request) (hunsent : c.election.sent = false)
    (hcount : (c.step e).election.count = c.election.count)
    (hepoch : c.current_epoch < (c.step e).election.epoch) :
    Sane (w.campaign.after c e) t (c.step e) := by
  have hz : (c.step e).election.count = 0 := hcount.trans (h.unsent hunsent)
  refine ⟨fun _ => hz, fun _ _ => Or.inr ⟨?_, ?_, fun m hm => ?_⟩⟩
  · unfold Campaign.after
    dsimp only
    rw [if_pos htr]
  · rw [hz]
    exact Nat.zero_le _
  · -- no message is read, so no epoch rises but our own
    obtain ⟨hr, hmsg⟩ : e.is_restart = false ∧ e.message = none := by
      cases e with
      | cron | before_sleep => exact ⟨rfl, rfl⟩
      | _ => cases htr
    have ha := Cluster.Advances.of_none hmsg (Cluster.changes_handle { c with sent := [] } hr)
    have hne : m ≠ c.myself := ha.myself ▸ master_ne (ha.sound hc.silent) hm
    exact ((ha.rows m hne id).trans (hc.rows m).epoch).trans_lt hepoch

/-- **One event of the node.** -/
theorem Sane.step (ho : Orderly w c e)
    (hnew : ∀ msg ∈ e.message, c.receives msg → msg.sender ∉ w.campaign.voters msg.current_epoch) :
    Sane (w.campaign.after c e) (e.now.getD w.clock) (c.step e) := by
  rcases c.election_cases e with ⟨env, l, msg, rfl, hcount, hel⟩ | hk | ⟨hsent, hzero⟩ |
    ⟨htr, hunsent, -, hcount, hepoch⟩
  · exact h.counted hc ho hcount (hnew msg rfl (counts_receives hcount).1) hel
  · exact h.kept hc ho hk
  · -- scheduled anew, or restarted
    refine ⟨fun _ => hzero, fun _ hs => ?_⟩
    rw [hsent] at hs
    cases hs
  · exact h.asked hc _ htr hunsent hcount hepoch

end

end

/-! ## Whole runs -/

/-- Every vote on record has arrived, and the node's election is sane. -/
def Accounted (i : NodeId) (w : Watch) : Prop :=
  w.world.Sound ∧ Sane w.campaign w.clock (w.world.node i) ∧
    ∃ cast got, w.world.Ballots cast got ∧ ∀ m ∈ w.campaign.votes, got m.sender m.current_epoch

theorem accounted_start (h : w.Start) : Accounted i w := by
  refine ⟨h.world.sound, ⟨?_, ?_⟩, fun _ _ => none, fun _ _ => False, ⟨?_, ?_, ?_, ?_, ?_⟩, ?_⟩
  · simp [h.world.idle]
  · simp [h.world.idle]
  · simp
  · simp
  · simp [h.world.own]
  · simp [h.world.own]
  · simp [h.world.back]
  · simp [h.nothing]

theorem accounted_step {s : Action} (h : Accounted i w) (hf : Fair i w s) :
    Accounted i (w.step i s) := by
  obtain ⟨hsound, hsane, cast, got, hb, hvotes⟩ := h
  obtain ⟨cast', got', hb', -, hg, hread⟩ := hb.step hsound s
  have hold : ∀ m ∈ w.campaign.votes, got' m.sender m.current_epoch := fun m hm => hg _ _ (hvotes m hm)
  unfold Watch.step
  cases he : w.world.event s with
  | none =>
    refine ⟨hsound.step s, ?_, cast', got', hb', hold⟩
    show Sane _ _ ((w.world.step s).node i)
    rw [World.node_step_of_none he]
    exact hsane
  | some p =>
    obtain ⟨j, e⟩ := p
    dsimp only
    by_cases hj : j = i
    · subst hj
      rw [if_pos rfl]
      have hack : ∀ msg ∈ e.message, (w.world.node j).receives msg →
          ¬ got msg.sender msg.current_epoch ∧ got' msg.sender msg.current_epoch := by
        intro msg hmsg hrec
        cases e with
        | packet env l m =>
          cases hmsg
          simp only [Cluster.receives, Bool.decide_and, Bool.and_eq_true, decide_eq_true_eq] at hrec
          exact (hread j env l msg he hrec.1).2
        | _ => cases hmsg
      refine ⟨hsound.step s, ?_, cast', got', hb', ?_⟩
      · show Sane _ _ ((w.world.step s).node j)
        rw [World.node_step_self he]
        refine hsane.step (hsound.node j).1 (hf.orderly _ he rfl) fun msg hmsg hrec hmem => ?_
        obtain ⟨m, hm, hme, hms⟩ := mem_voters.mp hmem
        have hgot := hvotes m hm
        rw [hme, hms] at hgot
        exact (hack msg hmsg hrec).1 hgot
      · intro m hm
        rcases List.mem_append.mp hm with hm | hm
        · split at hm
          · cases hm
          · exact hold m hm
        · rw [Option.mem_toList, Option.filter_eq_some_iff] at hm
          exact (hack m hm.1 hm.2).2
    · rw [if_neg hj]
      refine ⟨hsound.step s, ?_, cast', got', hb', hold⟩
      show Sane _ _ ((w.world.step s).node i)
      rw [World.node_step_of_ne he (Ne.symm hj)]
      exact hsane

def pair_row : NodeId → Node
  | 1 => { master := true, config_epoch := 1 }
  | 2 => { replica := true, master_id := some 1 }
  | 3 => { master := true }
  | _ => {}

def pair_table (i : NodeId) : Table :=
  { myself := i
    known := [1, 2, 3]
    node := fun n => { pair_row n with link := if n = i then none else some { connecting := false } }
    own := Ownership.vacant.assign {0} (some 1)
    migrating_to := fun _ => none
    importing_from := fun _ => none }

def pair : World :=
  { node := fun i => World.process (pair_table i) 1
    lead := id
    own := fun _ _ => []
    back := fun _ _ => [] }

end Watch

end EpochKV

/-
Two winners of one epoch.

Every replica asks for votes in an epoch of its own choosing, and takes for a majority
more than half of the masters that serve slots **in its own view**. Two replicas with
different views of that set can both find a majority in the same epoch without one
voter voting twice. What does hold (`one_winner_per_epoch`) is that there is one winner
if all elections of an epoch draw their votes from one set, of which every winner has
more than half, and no epoch passes the last that 64 bits hold.
-/
import EpochKV.Election

set_option autoImplicit false
set_option maxRecDepth 8192

namespace EpochKV

open Text Commands

/-- A run so far: the cluster, and who was promoted by `handle_replica_failover` under
which `failover_auth_epoch_`. -/
structure Record where
  world : World
  promoted : List (NodeId × Nat) := []

namespace World

/-- Who is promoted by a step, and in which epoch. -/
def promotion (w : World) (s : Action) : Option (NodeId × Nat) :=
  (w.event s).bind fun p =>
    ((w.node p.1).at_election p.2).bind fun q =>
      if q.2.election_turn q.1 = .promote then some (p.1, q.2.election.epoch) else none

/-- All processes have just started, or have not asked for votes since; nothing is in
flight. -/
structure Start (w : World) : Prop where
  sound : w.Sound
  idle : ∀ i, (w.node i).election = {}
  own : ∀ a b, w.own a b = []
  back : ∀ a b, w.back a b = []

end World

variable {i : NodeId} {cast' : NodeId → Nat → Option NodeId} {got' : NodeId → Nat → Prop}
  {e : Election} {E : Nat → Finset NodeId} {r : Record}

namespace Record

def step (r : Record) (s : Action) : Record :=
  { world := r.world.step s, promoted := r.promoted ++ (r.world.promotion s).toList }

structure Start (r : Record) : Prop where
  world : r.world.Start
  none_yet : r.promoted = []

/-- The step takes no epoch past the last, and keeps to the electorates `E`, one for each
epoch: a vote that is counted carries the epoch of the election it is counted in and comes
from that epoch's electorate, and whoever wins has the votes of more than half of it. -/
structure Quorate (E : Nat → Finset NodeId) (r : Record) (s : Action) : Prop where
  unwrapped : r.world.Unwrapped s
  counted : ∀ p ∈ r.world.event s, ∀ msg ∈ p.2.message, (r.world.node p.1).counts msg →
    msg.current_epoch = (r.world.node p.1).election.epoch ∧ msg.sender ∈ E msg.current_epoch
  won : ∀ p ∈ r.world.event s, ∀ q ∈ (r.world.node p.1).at_election p.2,
    q.2.election_turn q.1 = .promote → (E q.2.election.epoch).card < 2 * q.2.table.needed_quorum

instance (E : Nat → Finset NodeId) (r : Record) (s : Action) : Decidable (Quorate E r s) :=
  decidable_of_iff
    (r.world.Unwrapped s ∧
      (∀ p ∈ r.world.event s, ∀ msg ∈ p.2.message, (r.world.node p.1).counts msg →
        msg.current_epoch = (r.world.node p.1).election.epoch ∧ msg.sender ∈ E msg.current_epoch) ∧
      ∀ p ∈ r.world.event s, ∀ q ∈ (r.world.node p.1).at_election p.2,
        q.2.election_turn q.1 = .promote → (E q.2.election.epoch).card < 2 * q.2.table.needed_quorum)
    ⟨fun h => ⟨h.1, h.2.1, h.2.2⟩, fun h => ⟨h.1, h.2, h.3⟩⟩

/-! ## The count is the number of voters -/

section Poll

variable (E : Nat → Finset NodeId) (cast : NodeId → Nat → Option NodeId) (got : NodeId → Nat → Prop)

/-- The votes process `i` has counted are those of as many voters, all of the electorate. -/
structure Poll (i : NodeId) (e : Election) : Prop where
  unsent : e.sent = false → e.count = 0
  voters : ∃ S : Finset NodeId, S.card = e.count ∧
    ∀ v ∈ S, v ∈ E e.epoch ∧ cast v e.epoch = some i ∧ got v e.epoch

/-- `i` had the votes of more than half of the electorate of epoch `e`. -/
def Won (i : NodeId) (e : Nat) : Prop :=
  ∃ S ⊆ E e, (E e).card < 2 * S.card ∧ ∀ v ∈ S, cast v e = some i

variable {E cast got}

theorem Poll.mono (hc : ∀ v n p, cast v n = some p → cast' v n = some p)
    (hg : ∀ v n, got v n → got' v n) (h : Poll E cast got i e) : Poll E cast' got' i e := by
  obtain ⟨S, hcard, hS⟩ := h.voters
  refine ⟨h.unsent, S, hcard, fun v hv => ?_⟩
  obtain ⟨hE, hcast, hgot⟩ := hS v hv
  exact ⟨hE, hc _ _ _ hcast, hg _ _ hgot⟩

theorem Won.mono (hc : ∀ v n p, cast v n = some p → cast' v n = some p) {e : Nat}
    (h : Won E cast i e) : Won E cast' i e := by
  obtain ⟨S, hsub, hcard, hS⟩ := h
  exact ⟨S, hsub, hcard, fun v hv => hc _ _ _ (hS v hv)⟩

/-- With no votes there is nothing to account for. -/
theorem Poll.of_zero (h : e.count = 0) : Poll E cast got i e :=
  ⟨fun _ => h, ∅, h.symm, by simp⟩

/-- Two majorities of one electorate share a voter. -/
theorem Won.unique {j : NodeId} {e : Nat} (hi : Won E cast i e) (hj : Won E cast j e) : i = j := by
  obtain ⟨S, hS, hcard, hv⟩ := hi
  obtain ⟨T, hT, hcard', hv'⟩ := hj
  have hlt : (E e).card < S.card + T.card := by omega
  obtain ⟨v, hmem⟩ := Finset.inter_nonempty_of_card_lt_card_add_card hS hT hlt
  rw [Finset.mem_inter] at hmem
  have heq := (hv v hmem.1).symm.trans (hv' v hmem.2)
  exact Option.some.inj heq

/-- What an event does to a poll, if the vote it may bring is new. -/
theorem Poll.step {c : Cluster} {e : Cluster.Event} (h : Poll E cast got i c.election)
    (hc : ∀ v n p, cast v n = some p → cast' v n = some p) (hg : ∀ v n, got v n → got' v n)
    (hvote : ∀ env l msg, e = .packet env l msg → c.counts msg →
      msg.current_epoch = c.election.epoch ∧ msg.sender ∈ E c.election.epoch ∧
        cast' msg.sender c.election.epoch = some i ∧ ¬ got msg.sender c.election.epoch ∧
        got' msg.sender c.election.epoch) : Poll E cast' got' i (c.step e).election := by
  rcases c.election_cases e with ⟨env, l, msg, rfl, hcount, hel⟩ | hk | ⟨-, hzero⟩ |
    ⟨-, hunsent, -, hcount, -⟩
  · -- a vote counts: one voter more
    obtain ⟨-, hE, hcast, hfresh, hgot⟩ := hvote env l msg rfl hcount
    obtain ⟨S, hcard, hS⟩ := (h.mono hc fun _ _ hg => hg).voters
    have hnew : msg.sender ∉ S := fun hmem => hfresh (hS _ hmem).2.2
    have hsent : c.election.sent = true := by
      simp only [Cluster.counts, Cluster.counts_vote, Bool.decide_and, Bool.and_eq_true,
        decide_eq_true_eq, Option.any_eq_true] at hcount
      obtain ⟨-, n, -, -, -, hs⟩ := hcount
      simpa using hs
    rw [hel]
    refine ⟨fun hu => ?_, insert msg.sender S, ?_, ?_⟩
    · rw [show c.election.sent = false from hu] at hsent
      cases hsent
    · rw [Finset.card_insert_of_notMem hnew, hcard]
    · intro v hv
      rcases Finset.mem_insert.mp hv with rfl | hv
      · exact ⟨hE, hcast, hgot⟩
      · obtain ⟨h₁, h₂, h₃⟩ := hS v hv
        exact ⟨h₁, h₂, hg _ _ h₃⟩
  · -- the election stays, and so do its voters
    obtain ⟨S, hcard, hS⟩ := (h.mono hc hg).voters
    refine ⟨fun hu => ?_, S, ?_, ?_⟩
    · rw [hk.count]
      exact h.unsent (hk.sent.symm.trans hu)
    · rw [hk.count, hcard]
    · rw [hk.epoch]
      exact hS
  · -- nobody has been counted yet
    exact Poll.of_zero hzero
  · exact Poll.of_zero (hcount.trans (h.unsent hunsent))

end Poll

/-! ## The invariant -/

/-- The votes on record account for every count and for every promotion so far. -/
def Accounted (E : Nat → Finset NodeId) (r : Record) : Prop :=
  r.world.Sound ∧ ∃ cast got, r.world.Ballots cast got ∧
    (∀ i, Poll E cast got i (r.world.node i).election) ∧ ∀ p ∈ r.promoted, Won E cast p.1 p.2

theorem accounted_start (h : r.Start) : Accounted E r := by
  refine ⟨h.world.sound, fun _ _ => none, fun _ _ => False, ⟨?_, ?_, ?_, ?_, ?_⟩, ?_, ?_⟩
  · simp
  · simp
  · simp [h.world.own]
  · simp [h.world.own]
  · simp [h.world.back]
  · intro i
    rw [h.world.idle i]
    exact Poll.of_zero rfl
  · simp [h.none_yet]

theorem accounted_step {s : Action} (h : Accounted E r) (hq : Quorate E r s) :
    Accounted E (r.step s) := by
  obtain ⟨hsound, cast, got, hb, hpoll, hwon⟩ := h
  obtain ⟨cast', got', hb', hc, hg, hread⟩ := hb.step hsound s
  refine ⟨hsound.step s, cast', got', hb', fun j => ?_, ?_⟩
  · refine World.node_step_holds (P := fun c => Poll E cast' got' j c.election) ((hpoll j).mono hc hg)
      fun e he => (hpoll j).step hc hg ?_
    rintro env l msg rfl hcount
    obtain ⟨hep, hE⟩ := hq.counted _ he msg rfl hcount
    have hack : msg.type = .kFailoverAuthAck := by
      simp only [Cluster.counts, Bool.decide_and, Bool.and_eq_true, decide_eq_true_eq] at hcount
      exact hcount.1
    obtain ⟨h₁, h₂, h₃⟩ := hread j env l msg he hack
    rw [hep] at hE h₁ h₂ h₃
    exact ⟨hep, hE, h₁, h₂, h₃⟩
  · intro p hp
    rcases List.mem_append.mp hp with hp | hp
    · exact (hwon p hp).mono hc
    · -- promoted just now: its voters are those it has counted
      rw [Option.mem_toList, World.promotion] at hp
      obtain ⟨⟨i, e⟩, he, hp⟩ := Option.bind_eq_some_iff.mp hp
      obtain ⟨⟨env, c⟩, hat, hp⟩ := Option.bind_eq_some_iff.mp hp
      split at hp
      · rename_i hturn
        rw [← Option.some.inj hp]
        have hel := (Cluster.at_election_spec hat).election_of_still
        change c.election = (r.world.node i).election at hel
        obtain ⟨S, hcard, hS⟩ := (hpoll i).voters
        rw [← hel] at hcard hS
        refine ⟨S, fun v hv => (hS v hv).1, ?_, fun v hv => hc _ _ _ (hS v hv).2.1⟩
        have hmaj := hq.won _ he _ hat hturn
        have hquorum := (Cluster.of_promote hturn).2.2.2
        rw [hcard]
        exact hmaj.trans_le (Nat.mul_le_mul_left 2 hquorum)
      · cases hp

/-- **One winner per epoch.** In every run that takes no epoch past 2 ^ 64 - 1 and whose
elections draw their votes, epoch by epoch, from one electorate of which each winner has
more than half, no two nodes are promoted with the same election epoch. -/
theorem one_winner_per_epoch {E : Nat → Finset NodeId} {r : Record}
    (h : Reach Record.step (Quorate E) Start r) {i j : NodeId} {e : Nat}
    (hi : (i, e) ∈ r.promoted) (hj : (j, e) ∈ r.promoted) : i = j := by
  obtain ⟨-, cast, got, -, -, hwon⟩ :=
    h.invariant (I := Accounted E) (fun _ => accounted_start) fun _ _ => accounted_step
  exact (hwon _ hi).unique (hwon _ hj)

/-! ## Two views of the masters

Masters 1, 2 and 3 serve a slot each, and 4, 5 and 6 are their replicas. Replica 4 takes
over from master 1 by a forced failover, which 5 and 1 have not heard of yet when 5 starts
a forced failover of its own, and 6 has. -/

def shard_row : NodeId → Node
  | 1 => { master := true, config_epoch := 1 }
  | 2 => { master := true, config_epoch := 2 }
  | 3 => { master := true, config_epoch := 3 }
  | 4 => { replica := true, master_id := some 1 }
  | 5 => { replica := true, master_id := some 2 }
  | 6 => { replica := true, master_id := some 3 }
  | _ => {}

def shard_table (i : NodeId) : Table :=
  { myself := i
    known := [1, 2, 3, 4, 5, 6]
    node := fun n => { shard_row n with link := if n = i then none else some { connecting := false } }
    own := ((Ownership.vacant.assign {0} (some 1)).assign {1} (some 2)).assign {2} (some 3)
    migrating_to := fun _ => none
    importing_from := fun _ => none }

/-- Everybody knows everybody, and nothing is going on. -/
def shards : World :=
  { node := fun i => World.process (shard_table i) 3
    lead := id
    own := fun _ _ => []
    back := fun _ _ => [] }

theorem start_shards : Start { world := shards } := by
  have hplace : ∀ n, (shard_row n).Sound 3 n := by
    intro n
    match n with
    | 0 | 1 | 2 | 3 | 4 | 5 | 6 => exact ⟨by decide, by decide⟩
    | n + 7 => exact ⟨Nat.zero_le 3, nofun⟩
  have hrow : ∀ i n, ((shard_table i).node n).Sound 3 n :=
    fun i n => ⟨(hplace n).epoch, (hplace n).master⟩
  have hsound : World.Sound shards := World.sound_of_silent
    (fun i => ⟨World.sound_process (hrow i), rfl⟩) (fun _ _ => rfl) fun _ _ => rfl
  exact ⟨⟨hsound, fun _ => rfl, fun _ _ => rfl, fun _ _ => rfl⟩, rfl⟩

/-- Replica 4 asks masters 2 and 3 for their votes, and gets them. -/
def first_failover : List Action :=
  World.campaign 4 10 ++ World.reads 4 2 2 10 ++ World.reads 4 3 2 10 ++
    World.reads 2 4 1 10 ++ World.reads 3 4 1 10 ++ [World.sleep 4 10]

/-- The theorem at this run: three masters, one election. -/
theorem one_winner_first_failover :
    Reach Record.step (Quorate fun _ => {1, 2, 3}) Start (first_failover.foldl step { world := shards }) ∧
      (4, 4) ∈ (first_failover.foldl step { world := shards }).promoted ∧
      ∀ j, (j, 4) ∈ (first_failover.foldl step { world := shards }).promoted → j = 4 := by
  have hr : Reach Record.step (Quorate fun _ => {1, 2, 3}) Start
      (first_failover.foldl step { world := shards }) :=
    (Reach.start start_shards).run (by decide +kernel)
  have hmem : (4, 4) ∈ (first_failover.foldl step { world := shards }).promoted := by
    decide +kernel
  exact ⟨hr, hmem, fun j hj => one_winner_per_epoch hr hj hmem⟩

/-- Of the masters it counts, 5 has the votes of 1 and 3, and 6 those of 4 and 2. -/
def split_view : List Action :=
  first_failover ++ World.reads 4 5 2 10 ++ World.reads 4 6 3 10 ++
    World.campaign 5 10 ++ World.reads 5 1 2 10 ++ World.reads 5 3 2 10 ++
    World.reads 1 5 1 10 ++ World.reads 3 5 1 10 ++ [World.sleep 5 10] ++
    World.campaign 6 10 ++ World.reads 6 4 2 10 ++ World.reads 6 2 2 10 ++
    World.reads 4 6 1 10 ++ World.reads 2 6 1 10 ++ [World.sleep 6 10]

/-- Slots change hands in this step by elections only. -/
def electoral : Action → Bool
  | .inner _ (.command _ argv _) =>
    match Cluster.find_subcommand (to_upper ((argv.drop 1).headD [])) with
    | some (.slots _ _) | some .setslot => false
    | some .failover => Cluster.failover_mode (argv.drop 2).head? ≠ some .takeover
    | _ => true
  | _ => true

theorem two_winners_of_one_epoch :
    ∃ r, Reach Record.step (fun _ s => electoral s = true) Start r ∧
      (5, 5) ∈ r.promoted ∧ (6, 5) ∈ r.promoted := by
  have hpromoted : (split_view.foldl step { world := shards }).promoted = [(4, 4), (5, 5), (6, 5)] := by
    decide +kernel
  refine ⟨split_view.foldl step { world := shards }, ?_, ?_, ?_⟩
  · exact (Reach.start start_shards).run (by decide +kernel)
  · rw [hpromoted]
    decide
  · rw [hpromoted]
    decide

end Record

end EpochKV

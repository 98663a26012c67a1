/-
The cluster: the processes, and the links between them.

Every node opens one link to every other and answers on the links opened to it, so
between two processes there are four queues: `own a b` is what `a` has written to the
link it opened to `b`, `back a b` what `b` has written to that same link. A queue is
first in, first out; how long a message stays in it is up to the run, and a link may
be lost with everything that is in its queues. The table of a process names the other
end of a link by a node id. While a handshake is under way that is a placeholder;
`lead` says which process answers at an id's address.
-/
import EpochKV.Epochs
import EpochKV.Votes
import EpochKV.Runs

set_option autoImplicit false

namespace EpochKV

open Text Commands

structure World where
  node : NodeId → Cluster
  lead : NodeId → NodeId
  own : NodeId → NodeId → List Message
  back : NodeId → NodeId → List Message

/-- A step of the cluster. -/
inductive Action where
  /-- A process takes an event that is no packet. -/
  | inner (i : NodeId) (e : Cluster.Event)
  /-- `b` reads the next message from the link `a` opened to it. -/
  | deliver (a b : NodeId) (env : Cluster.Env) (peer_ip : Bytes) (local_ip : Option Bytes)
  /-- `a` reads the next message from its own link to the node it has as `n`. -/
  | answer (a n : NodeId) (env : Cluster.Env)
  /-- The link `a` opened to `b` is lost. -/
  | drop (a b : NodeId)

def Cluster.Event.is_packet : Cluster.Event → Bool
  | .packet .. => true
  | _ => false

variable {i : NodeId} {w : World} {s : Action} {e : Cluster.Event} {j : NodeId} {m : Message}
  {P : Message → Prop}

namespace World

/-- Which process takes which event. -/
def event (w : World) : Action → Option (NodeId × Cluster.Event)
  | .inner i e => if e.is_packet then none else some (i, e)
  | .deliver a b env peer_ip local_ip =>
    (w.own a b).head?.map fun m => (b, .packet env { peer_ip, local_ip } m)
  | .answer a n env => (w.back a (w.lead n)).head?.map fun m => (a, .packet env { node := some n } m)
  | .drop _ _ => none

def set_queue (q : NodeId → NodeId → List Message) (a b : NodeId) (ms : List Message) :
    NodeId → NodeId → List Message :=
  Function.update q a (Function.update (q a) b ms)

/-- The message that is read leaves its queue. -/
def take (w : World) : Action → World
  | .inner _ _ => w
  | .deliver a b _ _ _ => { w with own := set_queue w.own a b (w.own a b).tail }
  | .answer a n _ =>
    { w with back := set_queue w.back a (w.lead n) (w.back a (w.lead n)).tail }
  | .drop a b => { w with own := set_queue w.own a b [], back := set_queue w.back a b [] }

/-- Whose link is being read, if it is not our own. -/
def reader : Action → Option NodeId
  | .deliver a _ _ _ _ => some a
  | _ => none

/-- What went out on our own link to process `b`. -/
def sent_to (w : World) (c : Cluster) (b : NodeId) : List Message :=
  (c.sent.filter fun m => m.1.map w.lead = some b).map Prod.snd

/-- What went out on the link being read. -/
def sent_back (c : Cluster) : List Message := (c.sent.filter fun m => m.1 = none).map Prod.snd

/-- Process `i` takes event `e`; `opener` opened the link it is reading. -/
def act (w : World) (i : NodeId) (e : Cluster.Event) (opener : Option NodeId) : World :=
  let c := (w.node i).step e
  { w with
    node := Function.update w.node i c
    own := fun a b => if a = i then w.own a b ++ w.sent_to c b else w.own a b
    back := fun a b => if b = i ∧ opener = some a then w.back a b ++ sent_back c else w.back a b }

def step (w : World) (a : Action) : World :=
  match w.event a with
  | none => w.take a
  | some (i, e) => (w.take a).act i e (reader a)

/-! ## Queues -/

theorem set_queue_sublist {q : NodeId → NodeId → List Message} {a b : NodeId} {ms : List Message}
    (h : ms.Sublist (q a b)) (x y : NodeId) : (set_queue q a b ms x y).Sublist (q x y) := by
  unfold set_queue
  by_cases hx : x = a
  · subst hx
    rw [Function.update_self]
    by_cases hy : y = b
    · subst hy
      rwa [Function.update_self]
    · rw [Function.update_of_ne hy]
  · rw [Function.update_of_ne hx]

theorem own_take (w : World) (s : Action) (a b : NodeId) :
    ((w.take s).own a b).Sublist (w.own a b) := by
  cases s with
  | inner => exact List.Sublist.refl _
  | deliver => exact set_queue_sublist (List.tail_sublist _) a b
  | answer => exact List.Sublist.refl _
  | drop => exact set_queue_sublist (List.nil_sublist _) a b

theorem back_take (w : World) (s : Action) (a b : NodeId) :
    ((w.take s).back a b).Sublist (w.back a b) := by
  cases s with
  | inner | deliver => exact List.Sublist.refl _
  | answer => exact set_queue_sublist (List.tail_sublist _) a b
  | drop => exact set_queue_sublist (List.nil_sublist _) a b

@[simp] theorem node_take (w : World) (s : Action) : (w.take s).node = w.node := by
  cases s <;> rfl

theorem node_act_self (w : World) (i : NodeId) (e : Cluster.Event) (opener : Option NodeId) :
    (w.act i e opener).node i = (w.node i).step e := Function.update_self ..

theorem node_act_of_ne (w : World) (e : Cluster.Event) (opener : Option NodeId) (h : j ≠ i) :
    (w.act i e opener).node j = w.node j := Function.update_of_ne h ..

/-- What a step does to the processes. -/
theorem node_step_of_none (h : w.event s = none) : (w.step s).node = w.node := by
  unfold step
  rw [h]
  exact node_take w s

theorem node_step_self (h : w.event s = some (i, e)) : (w.step s).node i = (w.node i).step e := by
  unfold step
  rw [h]
  rw [node_act_self, node_take]

theorem node_step_of_ne (h : w.event s = some (i, e)) (hj : j ≠ i) :
    (w.step s).node j = w.node j := by
  unfold step
  rw [h]
  rw [node_act_of_ne _ _ _ hj, node_take]

/-- What is true of a process, and of what its event makes of it, is true after the step. -/
theorem node_step_holds {P : Cluster → Prop} (h : P (w.node i))
    (hstep : ∀ e, w.event s = some (i, e) → P ((w.node i).step e)) : P ((w.step s).node i) := by
  cases he : w.event s with
  | none =>
    rw [node_step_of_none he]
    exact h
  | some p =>
    obtain ⟨j, e⟩ := p
    by_cases hi : i = j
    · subst hi
      rw [node_step_self he]
      exact hstep e he
    · rw [node_step_of_ne he hi]
      exact h

/-- A packet that is read was in a queue to its reader. -/
theorem packet_of_event {env : Cluster.Env} {l : Inlet} (h : w.event s = some (i, .packet env l m)) :
    (∃ a ip ip', s = .deliver a i env ip ip' ∧ ∃ ms, w.own a i = m :: ms) ∨
      ∃ b, m ∈ w.back i b := by
  cases s with
  | inner j e =>
    simp only [event] at h
    split at h
    · cases h
    · rename_i hp
      cases h
      exact absurd rfl hp
  | deliver a b env' ip ip' =>
    obtain ⟨m', hm, he⟩ := Option.map_eq_some_iff.mp h
    cases he
    exact Or.inl ⟨a, ip, ip', rfl, List.head?_eq_some_iff.mp hm⟩
  | answer a n env' =>
    obtain ⟨m', hm, he⟩ := Option.map_eq_some_iff.mp h
    cases he
    exact Or.inr ⟨w.lead n, List.mem_of_mem_head? hm⟩
  | drop => cases h

/-! ## Epochs across the cluster -/

/-- Every node, and every message in flight, is sound and says who it is. -/
structure Sound (w : World) : Prop where
  node : ∀ i, (w.node i).Sound ∧ (w.node i).myself = i
  own : ∀ a b, ∀ m ∈ w.own a b, m.Sound ∧ m.sender = a
  back : ∀ a b, ∀ m ∈ w.back a b, m.Sound ∧ m.sender = b

section

variable (h : w.Sound)
include h

theorem Sound.take (s : Action) : (w.take s).Sound where
  node i := by
    rw [node_take]
    exact h.node i
  own a b m hm := h.own a b m ((own_take w s a b).subset hm)
  back a b m hm := h.back a b m ((back_take w s a b).subset hm)

theorem Sound.act (hp : ∀ m, e.message = some m → m.Sound)
    (opener : Option NodeId) : (w.act i e opener).Sound := by
  obtain ⟨hs, hme⟩ := (h.node i).1.step e hp
  have hid : ((w.node i).step e).myself = i := hme.trans (h.node i).2
  have hsent : ∀ p : Option NodeId × Message → Bool,
      ∀ m ∈ (((w.node i).step e).sent.filter p).map Prod.snd, m.Sound ∧ m.sender = i := by
    intro p m hm
    obtain ⟨m', hm', rfl⟩ := List.mem_map.mp hm
    rw [← hid]
    exact hs.sent m' (List.mem_filter.mp hm').1
  refine ⟨fun j => ?_, fun a b m hm => ?_, fun a b m hm => ?_⟩
  · by_cases hj : j = i
    · rw [hj, node_act_self]
      exact ⟨hs, hid⟩
    · rw [node_act_of_ne _ _ _ hj]
      exact h.node j
  · change m ∈ if a = i then _ else _ at hm
    split at hm
    · rename_i ha
      rcases List.mem_append.mp hm with hm | hm
      · exact h.own a b m hm
      · exact ha ▸ hsent _ m hm
    · exact h.own a b m hm
  · change m ∈ if b = i ∧ opener = some a then _ else _ at hm
    split at hm
    · rename_i hb
      rcases List.mem_append.mp hm with hm | hm
      · exact h.back a b m hm
      · exact hb.1 ▸ hsent _ m hm
    · exact h.back a b m hm

/-- A packet that is read is sound. -/
theorem Sound.packet (he : w.event s = some (i, e)) : ∀ m, e.message = some m → m.Sound := by
  intro m hm
  cases e with
  | packet env l msg =>
    cases hm
    rcases packet_of_event he with ⟨a, _, _, _, ms, hms⟩ | ⟨b, hb⟩
    · exact (h.own a i m (hms ▸ List.mem_cons_self ..)).1
    · exact (h.back i b m hb).1
  | _ => cases hm

/-- **Epochs are ordered in the whole cluster, whatever happens in it.** -/
theorem Sound.step (s : Action) : (w.step s).Sound := by
  unfold World.step
  split
  · exact h.take s
  · rename_i i e he
    exact (h.take s).act (h.packet he) _

end

/-! ## All messages in flight -/

structure Everywhere (P : Message → Prop) (w : World) : Prop where
  own : ∀ a b, ∀ m ∈ w.own a b, P m
  back : ∀ a b, ∀ m ∈ w.back a b, P m

/-- A message that is read was in flight. -/
theorem Everywhere.read (h : w.Everywhere P) (he : w.event s = some (i, e)) (hm : m ∈ e.message) :
    P m := by
  cases e with
  | packet env l msg =>
    cases hm
    rcases packet_of_event he with ⟨a, _, _, _, ms, hms⟩ | ⟨b, hb⟩
    · exact h.own a i m (hms ▸ List.mem_cons_self ..)
    · exact h.back i b m hb
  | _ => cases hm

/-- What a node sends joins what is in flight. -/
theorem Everywhere.step (h : w.Everywhere P)
    (hs : ∀ i e, w.event s = some (i, e) → ∀ m ∈ ((w.node i).step e).sent, P m.2) :
    (w.step s).Everywhere P := by
  have htake : (w.take s).Everywhere P :=
    ⟨fun a b m hm => h.own a b m ((own_take w s a b).subset hm),
      fun a b m hm => h.back a b m ((back_take w s a b).subset hm)⟩
  unfold World.step
  split
  · exact htake
  · rename_i i e he
    have hsent : ∀ p : Option NodeId × Message → Bool,
        ∀ m ∈ (((w.node i).step e).sent.filter p).map Prod.snd, P m := by
      intro p m hm
      obtain ⟨m', hm', rfl⟩ := List.mem_map.mp hm
      exact hs i e he m' (List.mem_filter.mp hm').1
    rw [← node_take w s] at hsent
    refine ⟨fun a b m hm => ?_, fun a b m hm => ?_⟩
    · change m ∈ if a = i then _ else _ at hm
      split at hm
      · rcases List.mem_append.mp hm with hm | hm
        · exact htake.own a b m hm
        · exact hsent _ m hm
      · exact htake.own a b m hm
    · change m ∈ if b = i ∧ _ then _ else _ at hm
      split at hm
      · rcases List.mem_append.mp hm with hm | hm
        · exact htake.back a b m hm
        · exact hsent _ m hm
      · exact htake.back a b m hm

/-! ## Epochs of 64 bits

The source keeps an epoch in a `uint64_t`, which starts over at 0 after 2 ^ 64 - 1. Here an
epoch is a number that does not, so the two agree until some node gets that far. -/

/-- No step takes a node past the last epoch that fits in 64 bits. -/
def Unwrapped (w : World) (s : Action) : Prop :=
  ∀ p ∈ w.event s, ((w.node p.1).step p.2).current_epoch < 2 ^ 64

instance (w : World) (s : Action) : Decidable (w.Unwrapped s) :=
  inferInstanceAs (Decidable (∀ p ∈ w.event s, ((w.node p.1).step p.2).current_epoch < 2 ^ 64))

/-- Every current epoch fits. -/
structure Fits (w : World) : Prop where
  node : ∀ i, (w.node i).current_epoch < 2 ^ 64
  flight : w.Everywhere fun m => m.current_epoch < 2 ^ 64

theorem Fits.step (h : w.Fits) (hu : w.Unwrapped s) : (w.step s).Fits where
  node i := node_step_holds (P := fun c => c.current_epoch < 2 ^ 64) (h.node i)
    fun e he => hu (i, e) he
  flight := h.flight.step fun i e he m hm =>
    ((w.node i).sent_current_le e m hm).trans_lt (hu (i, e) he)

/-- **As long as no step takes a node past it, no epoch anywhere is past it**: not that of a
node in somebody's table, and not that of a message. -/
theorem epochs_fit {w : World} (h : Reach step Unwrapped (fun w : World => w.Sound ∧ w.Fits) w) :
    (∀ i n, ((w.node i).table.node n).config_epoch < 2 ^ 64) ∧
      ∀ a b, ∀ m ∈ w.own a b ++ w.back a b, m.config_epoch < 2 ^ 64 ∧ m.update_epoch < 2 ^ 64 := by
  obtain ⟨hs, hf⟩ := h.invariant (I := fun w : World => w.Sound ∧ w.Fits) (fun _ h => h)
    fun w s hw hu => ⟨hw.1.step s, hw.2.step hu⟩
  refine ⟨fun i n => ((hs.node i).1.rows n).epoch.trans_lt (hf.node i), fun a b m hm => ?_⟩
  rcases List.mem_append.mp hm with hm | hm
  · have hsound := (hs.own a b m hm).1
    have hlt := hf.flight.own a b m hm
    exact ⟨hsound.config.trans_lt hlt, hsound.update.trans_lt hlt⟩
  · have hsound := (hs.back a b m hm).1
    have hlt := hf.flight.back a b m hm
    exact ⟨hsound.config.trans_lt hlt, hsound.update.trans_lt hlt⟩

/-! ## Small clusters

Parts for runs that are written down step by step. -/

/-- A process that has the given table, in memory and on disk. -/
def process (table : Table) (current_epoch : Nat) : Cluster :=
  { options := {}, host := true, store := { clock := fun _ => 0 }, repl_master := none, table
    current_epoch, last_vote_epoch := 0
    disk := { table, current_epoch, last_vote_epoch := 0 } }

theorem sound_process {table : Table} {epoch : Nat} (h : ∀ n, (table.node n).Sound epoch n) :
    (process table epoch).Sound where
  rows := h
  election := Nat.zero_le epoch
  file := rfl
  saved := h
  sent := List.forall_mem_nil _

/-- A cluster in which nobody has said anything yet. -/
theorem sound_of_silent (hnode : ∀ i, (w.node i).Sound ∧ (w.node i).myself = i)
    (hown : ∀ a b, w.own a b = []) (hback : ∀ a b, w.back a b = []) : w.Sound where
  node := hnode
  own a b := by
    rw [hown]
    exact List.forall_mem_nil _
  back a b := by
    rw [hback]
    exact List.forall_mem_nil _

/-- The surroundings at a given time: the replication link is up, and saving works. -/
def at_time (t : Time) : Cluster.Env :=
  { now := t, master_last_contact := t, random_id := fun _ _ _ => 0 }

def sleep (i : NodeId) (t : Time) : Action := .inner i (.before_sleep (at_time t) (at_time t))

/-- CLUSTER FAILOVER FORCE: the election is scheduled, and then held. -/
def campaign (i : NodeId) (t : Time) : List Action :=
  [.inner i (.command (at_time t) [lit "CLUSTER", lit "FAILOVER", lit "FORCE"] []), sleep i t, sleep i t]

/-- `b` reads `n` messages from the link `a` opened to it. -/
def reads (a b : NodeId) (n : Nat) (t : Time) : List Action :=
  List.replicate n (.deliver a b (at_time t) [] none)

end World

end EpochKV

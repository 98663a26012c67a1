/-
Nodes, slots and epochs (`cluster.cpp`, `cluster.hpp`, `cluster_msg.hpp`).

`Cluster` is the state of one node of the cluster. Functions take the state and
return the new one. Pointers into `nodes_` are node ids; `owner_` and the bitmaps
of the nodes are one `Ownership`, since `set_slot` is the only function that
touches either. A loop over all slots that picks those owned by one node is the
set of that node's slots.

What the class reads from outside stands in `Env`, one per step: the clock, the
replication offset, the random draws, and the fate of a write of `nodes.conf`.
What it does to the outside is part of the state: `disk` is the last `nodes.conf`
that was put in place, `store` the keyspace it deletes slots from, and `sent` the
messages handed to links, oldest first.
-/
import Mathlib.Data.Finset.Max
import Mathlib.Data.Fintype.Basic
import EpochKV.Ownership
import EpochKV.Commands

set_option autoImplicit false

namespace EpochKV

open Text Slots Commands

/-- Milliseconds of the steady clock; 0 is `SteadyTime{}`, "never". -/
abbrev Time := Nat

/-- `std::bitset` over the slots. -/
abbrev SlotBitmap := Finset Slot

namespace SlotBitmap

def lowest (slots : SlotBitmap) : Option Slot := slots.min

def ascend : Nat → SlotBitmap → List Slot
  | 0, _ => []
  | fuel + 1, slots =>
    match slots.lowest with
    | none => []
    | some s => s :: ascend fuel (slots.erase s)

/-- The slots of the set in the order a loop over all slots meets them. -/
def ascending (slots : SlotBitmap) : List Slot := ascend slots.card slots

example : ascending {5, 0, 3} = [0, 3, 5] := by decide +kernel

end SlotBitmap

/-! ## Bus messages -/

inductive MsgType where
  | kPing
  | kPong
  | kMeet
  | kUpdate
  | kFail
  | kFailoverAuthRequest
  | kFailoverAuthAck
  | kMfStart
  deriving DecidableEq

/-- What a PING or PONG says about a node other than its sender. -/
structure GossipEntry where
  id : NodeId
  ip : Bytes
  port : Nat
  cport : Nat
  replica : Bool
  pfail : Bool
  fail : Bool
  deriving DecidableEq

/-- A bus message, header and body; fields that its type does not carry have their defaults. -/
structure Message where
  type : MsgType
  sender : NodeId
  port : Nat := 0
  cport : Nat := 0
  replica : Bool := false
  master_id : Option NodeId := none
  current_epoch : Nat := 0
  config_epoch : Nat := 0
  repl_offset : Nat := 0
  /-- The bits of `mflags`: `kMsgPaused`, `kMsgForceAck`. -/
  paused : Bool := false
  force_ack : Bool := false
  slots : SlotBitmap := ∅
  gossip : List GossipEntry := []
  update_id : NodeId := 0
  update_epoch : Nat := 0
  update_slots : SlotBitmap := ∅
  fail_id : NodeId := 0
  deriving DecidableEq

/-! ## State -/

/-- Our outbound connection to a node. -/
structure Link where
  connecting : Bool := true
  ctime : Time := 0

/-- A row of the node table. The flags are separate fields; `kMyself` is the id. -/
structure Node where
  ip : Bytes := []
  port : Nat := 0
  cport : Nat := 0
  master : Bool := false
  replica : Bool := false
  handshake : Bool := false
  meet : Bool := false
  noaddr : Bool := false
  pfail : Bool := false
  fail : Bool := false
  master_id : Option NodeId := none
  config_epoch : Nat := 0
  ctime : Time := 0
  ping_sent : Time := 0
  pong_received : Time := 0
  fail_time : Time := 0
  voted_time : Time := 0
  repl_offset : Nat := 0
  fail_reports : List (NodeId × Time) := []
  link : Option Link := none

/-- The nodes we know and what we believe about the slots. -/
structure Table where
  myself : NodeId
  known : List NodeId
  node : NodeId → Node
  own : Ownership Slot NodeId
  migrating_to : Slot → Option NodeId
  importing_from : Slot → Option NodeId

/-- Our election, as a replica (`failover_auth_*`). -/
structure Election where
  /-- When to ask for votes; nothing while no election is scheduled. -/
  time : Option Time := none
  rank : Nat := 0
  sent : Bool := false
  count : Nat := 0
  epoch : Nat := 0
  deriving DecidableEq

/-- A manual failover (`mf_*`). -/
structure ManualFailover where
  mf_end : Option Time := none
  replica : Option NodeId := none
  master_offset : Option Nat := none
  can_start : Bool := false
  writes_paused : Bool := false

/-- What the handlers leave for the end of the loop. -/
structure Todo where
  save : Bool := false
  update_state : Bool := false
  broadcast : Bool := false
  handle_failover : Bool := false
  handle_manual_failover : Bool := false

/-- The content of `nodes.conf`. -/
structure Conf where
  table : Table
  current_epoch : Nat
  last_vote_epoch : Nat

structure Options where
  bind_addr : Bytes := lit "127.0.0.1"
  port : Nat := 0
  cport : Nat := 0
  node_timeout : Nat := 15000
  require_full_coverage : Bool := true
  replica_validity_factor : Nat := 10
  replica_no_failover : Bool := false

/-- The fields of `Cluster`, with what it does to the outside. -/
structure Cluster where
  options : Options
  /-- `host_` is set: the bus is up. -/
  host : Bool
  store : Store
  /-- Host and port of `replication_`, if it follows a master. -/
  repl_master : Option (Bytes × Nat)
  table : Table
  current_epoch : Nat
  last_vote_epoch : Nat
  blacklist : List (NodeId × Time) := []
  state_ok : Bool := false
  writable_after : Time := 0
  among_minority_time : Time := 0
  election : Election := {}
  manual : ManualFailover := {}
  todo : Todo := {}
  disk : Conf
  /-- On which link, our own to a node or the one being read, went which message. -/
  sent : List (Option NodeId × Message) := []

/-- What becomes of a `save_config`: all of it, nothing, or a failure after the new
file has already replaced the old one. -/
inductive SaveResult where
  | saved
  | failed
  | renamed
  deriving DecidableEq

/-- What one step reads from outside. -/
structure Cluster.Env where
  now : Time
  /-- `replication_.offset()`, `master_last_contact()` and `ping_period()`. -/
  offset : Nat := 0
  master_last_contact : Time := 0
  ping_period : Nat := 10000
  /-- The placeholder id drawn for a handshake with an address. -/
  random_id : Bytes → Nat → Nat → NodeId
  /-- `rng_() % 500`. -/
  jitter : Nat := 0
  /-- The order the gossip candidates come out of the shuffle in. -/
  shuffle : List NodeId := []
  /-- The node the periodic sample ends with, on the ticks that draw one. -/
  random_ping : Option NodeId := none
  save : SaveResult := .saved
  /-- The link is lost while a reply is written to it. -/
  overflow : Bool := false

/-! ## Constants -/

namespace Cluster

def kBlacklistTtl : Nat := 60000

def kMinHandshakeTimeout : Nat := 1000

def kFailReportValidityMult : Nat := 2

def kFailUndoTimeMult : Nat := 2

def kManualFailoverTimeout : Nat := 5000

def kWritableDelay : Nat := 2000

def kMinRejoinDelay : Nat := 500

def kMaxRejoinDelay : Nat := 5000

def kMinAuthTimeout : Nat := 2000

end Cluster

/-! ## The table -/

namespace Table

def modify (t : Table) (n : NodeId) (f : Node → Node) : Table :=
  { t with node := Function.update t.node n (f (t.node n)) }

def me (t : Table) : Node := t.node t.myself

def lookup (t : Table) (id : NodeId) : Option NodeId := if id ∈ t.known then some id else none

/-- The node a replica names as its master, if we know it. -/
def lookup_master (t : Table) (n : NodeId) : Option NodeId := (t.node n).master_id.bind t.lookup

/-- The node whose slots this one stands for: itself, or its master. -/
def master_of (t : Table) (n : NodeId) : Option NodeId :=
  if (t.node n).master then some n else t.lookup_master n

def create_node (t : Table) (id : NodeId) (n : Node) : Table :=
  { t with
    known := if id ∈ t.known then t.known else t.known ++ [id]
    node := Function.update t.node id n }

/-- Every pointer to `n` is cleared, and the node itself is gone. -/
def del_node (t : Table) (n : NodeId) : Table :=
  { t with
    known := t.known.filter (· ≠ n)
    node := fun id =>
      { t.node id with fail_reports := (t.node id).fail_reports.filter fun r => r.1 ≠ n }
    own := t.own.assign (t.own.slots n) none
    migrating_to := fun s => if t.migrating_to s = some n then none else t.migrating_to s
    importing_from := fun s => if t.importing_from s = some n then none else t.importing_from s }

/-- The node keeps its row and every pointer to it under the new id. If the id is
taken, `insert` leaves the node that has it, and ours is lost. -/
def rename_node (t : Table) (n id : NodeId) : Table :=
  let rest := t.known.filter (· ≠ n)
  let follow := fun o : Option NodeId => if o = some n then some id else o
  { t with
    known := if id ∈ rest then rest else rest ++ [id]
    node := if id ∈ rest then t.node else Function.update t.node id (t.node n)
    own := t.own.assign (t.own.slots n) (some id)
    migrating_to := fun s => follow (t.migrating_to s)
    importing_from := fun s => follow (t.importing_from s) }

/-- A master serving at least one slot. -/
def serves (t : Table) (n : NodeId) : Bool := (t.node n).master ∧ t.own.slots n ≠ ∅

/-- How many masters serve slots: they are the ones that vote. -/
def cluster_size (t : Table) : Nat := (t.known.filter t.serves).length

def needed_quorum (t : Table) : Nat := t.cluster_size / 2 + 1

end Table

namespace Cluster

/-! ## Small steps -/

def me (c : Cluster) : Node := c.table.me

def myself (c : Cluster) : NodeId := c.table.myself

def modify (c : Cluster) (n : NodeId) (f : Node → Node) : Cluster :=
  { c with table := c.table.modify n f }

def todo_save (c : Cluster) : Cluster := { c with todo := { c.todo with save := true } }

def todo_update_state (c : Cluster) : Cluster :=
  { c with todo := { c.todo with update_state := true } }

def todo_broadcast (c : Cluster) : Cluster := { c with todo := { c.todo with broadcast := true } }

def todo_handle_failover (c : Cluster) : Cluster :=
  { c with todo := { c.todo with handle_failover := true } }

/-- `set_slot` for each slot of a set. -/
def set_slots (c : Cluster) (won : SlotBitmap) (o : Option NodeId) : Cluster :=
  if won = ∅ then c
  else todo_update_state { c with table := { c.table with own := c.table.own.assign won o } }

def set_slot (c : Cluster) (slot : Slot) (o : Option NodeId) : Cluster := c.set_slots {slot} o

/-- `inet_pton(AF_INET, …) == 1` for one of the four parts. -/
def octet (s : Bytes) : Bool :=
  match parse_digits s with
  | none => false
  | some n => s.length ≤ 3 ∧ n ≤ 255 ∧ (s.length = 1 ∨ s.head? ≠ some 48)

/-- The text up to its first NUL, as `c_str()` hands it on. -/
def valid_ipv4 (ip : Bytes) : Bool :=
  let parts := (ip.takeWhile (· ≠ 0)).splitOn 46
  parts.length = 4 ∧ parts.all octet

example : valid_ipv4 (lit "127.0.0.1") = true ∧ valid_ipv4 (lit "127.0.01.1") = false := by
  decide

/-- While writes are paused nothing expires either. -/
def pause_writes (c : Cluster) (paused : Bool) : Cluster :=
  { c with
    manual := { c.manual with writes_paused := paused }
    store := { c.store with passive_expiry := paused || c.repl_master.isSome } }

/-- The failover is called off, and a pause with it. -/
def reset_manual_failover (c : Cluster) : Cluster :=
  let c := if c.manual.writes_paused then c.pause_writes false else c
  { c with manual :=
      { c.manual with mf_end := none, replica := none, master_offset := none, can_start := false } }

/-- A replica leaves keys that are due to its master. -/
def replicaof (c : Cluster) (host : Bytes) (port : Nat) : Cluster :=
  if c.repl_master = some (host, port) then c
  else
    { c with
      repl_master := some (host, port)
      store := { c.store with passive_expiry := true } }

def replicaof_no_one (c : Cluster) : Cluster :=
  if c.repl_master = none then c
  else { c with repl_master := none, store := { c.store with passive_expiry := false } }

/-- The replication link follows the master's current address. -/
def follow_master (c : Cluster) : Cluster :=
  if c.me.replica then
    match c.table.lookup_master c.myself with
    | none => c
    | some m =>
      let n := c.table.node m
      if n.ip = [] then c else c.replicaof n.ip n.port
  else c

/-! ## Nodes and slots -/

def del_node (c : Cluster) (n : NodeId) : Cluster :=
  let c' := { c with table := c.table.del_node n }
  let c' := if c.manual.replica = some n then c'.reset_manual_failover else c'
  c'.todo_save.todo_update_state

/-- A row under a made-up id, unless there is one for the address already. -/
def start_handshake (env : Env) (c : Cluster) (ip : Bytes) (port cport : Nat) : Cluster :=
  if valid_ipv4 ip = false ∨ port = 0 ∨ cport = 0 then c
  else if c.table.known.any fun id =>
      let n := c.table.node id
      n.handshake ∧ n.ip = ip ∧ n.port = port ∧ n.cport = cport then c
  else
    let n : Node := { ip, port, cport, handshake := true, meet := true, ctime := env.now }
    { c with table := c.table.create_node (env.random_id ip port cport) n }

/-- No slot is on its way in or out. -/
def clear_moves (c : Cluster) : Cluster :=
  { c with table :=
    { c.table with migrating_to := fun _ => none, importing_from := fun _ => none } }

/-- The election in progress, if there is one, is left as it is. -/
def set_as_replica_of (c : Cluster) (master : NodeId) : Cluster :=
  let c := c.reset_manual_failover
  let c := (c.set_slots (c.table.own.slots c.myself) none).clear_moves
  let c := c.modify c.myself fun n =>
    { n with master := false, replica := true, master_id := some master }
  c.follow_master.todo_save.todo_broadcast

/-- A replica that shows up as a master. -/
def set_node_as_master (c : Cluster) (n : NodeId) : Cluster :=
  (c.modify n fun r => { r with replica := false, master := true, master_id := none }).todo_save

/-! ## Epochs -/

/-- The largest epoch this node has heard of. -/
def max_epoch (c : Cluster) : Nat :=
  (c.table.known.map fun n => (c.table.node n).config_epoch).foldl max c.current_epoch

/-- Move ourselves to `epoch`, which is current from now on. Epochs are natural numbers here
and `uint64_t` in the source, where one more than the last is 0. What is said of the source
holds of runs that stay below it (`World.Unwrapped`). -/
def take_epoch (c : Cluster) (epoch : Nat) : Cluster :=
  let c := { c with current_epoch := epoch }
  (c.modify c.myself fun n => { n with config_epoch := epoch }).todo_save.todo_broadcast

/-- A new epoch, unless ours is the largest already. -/
def bump_epoch_without_consensus (c : Cluster) : Bool × Cluster :=
  if c.me.config_epoch ≠ 0 ∧ c.me.config_epoch = c.max_epoch then (false, c)
  else (true, c.take_epoch (c.max_epoch + 1))

/-- The node with the smaller id of two masters under one epoch moves on. -/
def handle_epoch_collision (c : Cluster) (sender : NodeId) : Cluster :=
  let n := c.table.node sender
  if n.master = false ∨ c.me.master = false ∨ n.config_epoch ≠ c.me.config_epoch then c
  else if sender ≤ c.myself then c
  else c.take_epoch (c.current_epoch + 1)

/-! ## Claims -/

/-- `sender`'s claim under `epoch` takes the slot: it is not being imported here, and
it has no owner, or one with a lower epoch than the claim. -/
def beats (c : Cluster) (sender : NodeId) (epoch : Nat) (slot : Slot) : Bool :=
  match c.table.importing_from slot, c.table.own.owner slot with
  | some _, _ => false
  | none, none => true
  | none, some o => o ≠ sender ∧ (c.table.node o).config_epoch < epoch

/-- What the claim wins. -/
def claimed (c : Cluster) (sender : NodeId) (epoch : Nat) (slots : SlotBitmap) : SlotBitmap :=
  slots.filter fun s => c.beats sender epoch s

/-- The slots the claim takes from this node. -/
def lost (c : Cluster) (sender : NodeId) (epoch : Nat) (slots : SlotBitmap) : SlotBitmap :=
  (c.claimed sender epoch slots).filter fun s => c.table.own.owner s = some c.myself

/-- Slots that were lost with keys still in them. -/
def dirty (c : Cluster) (sender : NodeId) (epoch : Nat) (slots : SlotBitmap) : SlotBitmap :=
  (c.lost sender epoch slots).filter fun s => 0 < c.store.count_keys_in_slot s

def delete_slots (c : Cluster) (slots : SlotBitmap) : Cluster :=
  { c with store := slots.ascending.foldl (fun s slot => (s.delete_slot slot).2) c.store }

def drop_migrating (c : Cluster) (slots : SlotBitmap) : Cluster :=
  { c with table :=
    { c.table with migrating_to := fun s => if s ∈ slots then none else c.table.migrating_to s } }

def drop_importing (c : Cluster) (slots : SlotBitmap) : Cluster :=
  { c with table :=
    { c.table with importing_from := fun s => if s ∈ slots then none else c.table.importing_from s } }

/-- The loop over the claim's slots: those it wins change hands. -/
def take_claimed (c : Cluster) (sender : NodeId) (epoch : Nat) (slots : SlotBitmap) : Cluster :=
  let won := c.claimed sender epoch slots
  let lost := c.lost sender epoch slots
  let c := (c.set_slots won (some sender)).drop_migrating lost
  let c := if lost = ∅ then c else c.todo_broadcast
  if won = ∅ then c else c.todo_save

/-- The claim takes a slot from `m` and leaves it without any. -/
def dispossesses (c : Cluster) (sender : NodeId) (epoch : Nat) (slots : SlotBitmap) (m : NodeId) :
    Bool :=
  let taken := (c.claimed sender epoch slots).filter fun s => c.table.own.owner s = some m
  taken ≠ ∅ ∧ (c.take_claimed sender epoch slots).table.own.slots m = ∅

/-- A master that lost its last slot becomes a replica of the winner; one that keeps some
deletes the keys of those it lost. -/
def update_slots_config_with (c : Cluster) (sender : NodeId) (epoch : Nat) (slots : SlotBitmap) :
    Cluster :=
  if sender = c.myself then c
  else
    let c' := c.take_claimed sender epoch slots
    if (c.table.master_of c.myself).any (c.dispossesses sender epoch slots) then
      if c.me.master ∨ c.me.master_id ≠ some sender then c'.set_as_replica_of sender else c'
    else if c.me.master then c'.delete_slots (c.dirty sender epoch slots)
    else c'

/-! ## Cluster state -/

/-- Every slot is served, or need not be. -/
def covered (c : Cluster) : Bool :=
  c.options.require_full_coverage = false ∨
    ∀ s, ∃ n ∈ c.table.own.owner s, (c.table.node n).fail = false

/-- Fewer than a majority of the masters serving slots are reachable. -/
def minority (c : Cluster) : Bool :=
  let serving := c.table.known.filter c.table.serves
  let reachable := serving.filter fun n => ¬ (c.table.node n).pfail ∧ ¬ (c.table.node n).fail
  0 < serving.length ∧ reachable.length < serving.length / 2 + 1

def note_minority (env : Env) (c : Cluster) : Cluster :=
  if c.minority then { c with among_minority_time := env.now } else c

def rejoin_delay (c : Cluster) : Nat := max kMinRejoinDelay (min c.options.node_timeout kMaxRejoinDelay)

/-- A master that turns "ok" waits a little first. -/
def must_wait (env : Env) (c : Cluster) : Bool :=
  c.me.master ∧ c.host ∧
    (env.now < c.writable_after ∨ env.now - c.among_minority_time < c.rejoin_delay)

/-- `update_state`: down at once, up only after the delay. -/
def update_state (env : Env) (c : Cluster) : Cluster :=
  let c := note_minority env { c with todo := { c.todo with update_state := false } }
  let ok : Bool := c.covered ∧ ¬ c.minority
  if ok = c.state_ok ∨ ok ∧ c.must_wait env then c else { c with state_ok := ok }

/-- The loop stood still: as after a stay on the minority side. -/
def after_stall (env : Env) (c : Cluster) : Cluster :=
  { c with among_minority_time := env.now, state_ok := false }

/-! ## What the small steps do to the table -/

@[simp] theorem table_todo_save (c : Cluster) : c.todo_save.table = c.table := rfl

@[simp] theorem table_reset_manual_failover (c : Cluster) :
    c.reset_manual_failover.table = c.table := by
  unfold reset_manual_failover
  split <;> rfl

@[simp] theorem table_replicaof (c : Cluster) (host : Bytes) (port : Nat) :
    (c.replicaof host port).table = c.table := by
  unfold replicaof
  split <;> rfl

@[simp] theorem table_replicaof_no_one (c : Cluster) : c.replicaof_no_one.table = c.table := by
  unfold replicaof_no_one
  split <;> rfl

@[simp] theorem table_follow_master (c : Cluster) : c.follow_master.table = c.table := by
  unfold follow_master
  split
  · split
    · rfl
    · dsimp only
      split
      · rfl
      · exact table_replicaof c _ _
  · rfl

/-- The table after a set of slots changed hands. -/
theorem table_set_slots (c : Cluster) (won : SlotBitmap) (o : Option NodeId) :
    (c.set_slots won o).table = { c.table with own := (c.set_slots won o).table.own } := by
  unfold set_slots
  split <;> rfl

@[simp] theorem owner_set_slots (c : Cluster) (won : SlotBitmap) (o : Option NodeId) (s : Slot) :
    (c.set_slots won o).table.own.owner s = if s ∈ won then o else c.table.own.owner s := by
  unfold set_slots
  split
  · rename_i h
    simp [h]
  · exact Ownership.owner_assign _ _ _ _

@[simp] theorem node_set_slots (c : Cluster) (won : SlotBitmap) (o : Option NodeId) :
    (c.set_slots won o).table.node = c.table.node := by
  rw [table_set_slots]

@[simp] theorem known_set_slots (c : Cluster) (won : SlotBitmap) (o : Option NodeId) :
    (c.set_slots won o).table.known = c.table.known := by
  rw [table_set_slots]

@[simp] theorem myself_set_slots (c : Cluster) (won : SlotBitmap) (o : Option NodeId) :
    (c.set_slots won o).table.myself = c.table.myself := by
  rw [table_set_slots]

@[simp] theorem importing_set_slots (c : Cluster) (won : SlotBitmap) (o : Option NodeId) :
    (c.set_slots won o).table.importing_from = c.table.importing_from := by
  rw [table_set_slots]

/-- The owners and the migrations are all that a claim changes in the table. -/
theorem table_take_claimed (c : Cluster) (n : NodeId) (e : Nat) (slots : SlotBitmap) :
    (c.take_claimed n e slots).table =
      ((c.set_slots (c.claimed n e slots) (some n)).drop_migrating (c.lost n e slots)).table := by
  unfold take_claimed
  dsimp only
  split
  · split <;> rfl
  · split <;> rfl

end Cluster

end EpochKV

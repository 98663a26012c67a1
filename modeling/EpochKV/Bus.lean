/-
The cluster bus: what a node says (`header`, `send_ping`, `broadcast`), what it
writes to `nodes.conf`, and failure detection.

A link is named by the node at its other end: `some n` is our own connection to
`n`, `none` the accepted connection a packet is being read from. Whether a message
handed to a link arrives is not decided here.
-/
import EpochKV.Cluster

set_option autoImplicit false

namespace EpochKV

open Text Commands

/-- The link a packet is read from. -/
structure Inlet where
  /-- Whose link it is, if it is one of ours. -/
  node : Option NodeId := none
  peer_ip : Bytes := []
  /-- Our end of the connection, as `getsockname` tells. -/
  local_ip : Option Bytes := none
  dead : Bool := false

namespace Node

/-- The link to the node is up. -/
def connected (n : Node) : Bool := n.link.any fun l => ¬ l.connecting

/-- Up, and to a node whose id we know. -/
def usable (n : Node) : Bool := n.connected ∧ ¬ n.handshake

/-- What a line of `nodes.conf` holds. -/
def persisted (n : Node) : Node :=
  { ip := n.ip, port := n.port, cport := n.cport, master := n.master, replica := n.replica,
    noaddr := n.noaddr, pfail := n.pfail, fail := n.fail, master_id := n.master_id,
    config_epoch := n.config_epoch }

/-- A node says again, or for the first time, that this one is down. -/
def report (n : Node) (reporter : NodeId) (t : Time) : Node :=
  { n with fail_reports := n.fail_reports.filter (fun r => r.1 ≠ reporter) ++ [(reporter, t)] }

def retract (n : Node) (reporter : NodeId) : Node :=
  { n with fail_reports := n.fail_reports.filter fun r => r.1 ≠ reporter }

end Node

namespace Cluster

/-! ## nodes.conf -/

/-- `describe_nodes(true)`. -/
def describe_nodes (c : Cluster) : Conf :=
  let listed := fun n => n ∈ c.table.known ∧ ¬ (c.table.node n).handshake
  { table :=
      { c.table with
        known := c.table.known.filter fun n => ¬ (c.table.node n).handshake
        node := fun n => (c.table.node n).persisted
        own := c.table.own.restrict fun n => listed n }
    current_epoch := c.current_epoch
    last_vote_epoch := c.last_vote_epoch }

/-- `save_config`: the file is replaced as a whole, and a failure may come after that. -/
def save_config (env : Env) (c : Cluster) : Bool × Cluster :=
  match env.save with
  | .saved => (true, { c with disk := c.describe_nodes })
  | .failed => (false, c)
  | .renamed => (false, { c with disk := c.describe_nodes })

/-! ## Sending -/

def send (c : Cluster) (l : Option NodeId) (msg : Message) : Cluster :=
  { c with sent := c.sent ++ [(l, msg)] }

/-- A replica advertises the epoch and the slots of its master. -/
def header (env : Env) (c : Cluster) (type : MsgType) : Message :=
  let master := c.table.master_of c.myself
  { type
    sender := c.myself
    port := c.options.port
    cport := c.options.cport
    replica := c.me.replica
    master_id := c.me.master_id
    current_epoch := c.current_epoch
    repl_offset := env.offset
    paused := c.me.master ∧ c.manual.mf_end.isSome
    config_epoch := (master.map fun m => (c.table.node m).config_epoch).getD 0
    slots := (master.map fun m => c.table.own.slots m).getD ∅ }

/-- To every node that can be reached. -/
def broadcast (c : Cluster) (msg : Message) : Cluster :=
  let targets := c.table.known.filter fun n => n ≠ c.myself ∧ (c.table.node n).usable
  { c with sent := c.sent ++ targets.map fun n => (some n, msg) }

/-- A node worth gossiping about over link `l`. -/
def candidate (c : Cluster) (l : Option NodeId) (n : NodeId) : Bool :=
  let r := c.table.node n
  n ∈ c.table.known ∧ n ≠ c.myself ∧ l ≠ some n ∧ ¬ r.handshake ∧ ¬ r.noaddr ∧
    (r.link.isSome ∨ c.table.own.slots n ≠ ∅ ∨ r.pfail)

/-- What we gossip about a node: its address, and our opinion of it. -/
def gossip_entry (c : Cluster) (n : NodeId) : GossipEntry :=
  let r := c.table.node n
  { id := n, ip := r.ip, port := r.port, cport := r.cport, replica := r.replica, pfail := r.pfail,
    fail := r.fail }

/-- All suspects, and random others up to the usual number. -/
def gossip_about (env : Env) (c : Cluster) (l : Option NodeId) : List GossipEntry :=
  let candidates := env.shuffle.dedup.filter (c.candidate l)
  let suspects := candidates.filter fun n => (c.table.node n).pfail
  let others := candidates.filter fun n => ¬ (c.table.node n).pfail
  let wanted := max 3 (c.table.known.length / 10)
  ((suspects ++ others).take (max wanted suspects.length)).map c.gossip_entry

def ping_message (env : Env) (c : Cluster) (l : Option NodeId) (type : MsgType) : Message :=
  { c.header env type with gossip := c.gossip_about env l }

/-- The first PING that is not answered yet keeps its time. -/
def send_ping (env : Env) (c : Cluster) (l : Option NodeId) (type : MsgType) : Cluster :=
  let msg := c.ping_message env l type
  let c :=
    match l with
    | some n =>
      if type = MsgType.kPing ∧ (c.table.node n).ping_sent = 0 then
        c.modify n fun r => { r with ping_sent := env.now }
      else c
    | none => c
  c.send l msg

def broadcast_pong (env : Env) (c : Cluster) : Cluster :=
  let targets := c.table.known.filter fun n => (c.table.node n).usable
  { c with sent := c.sent ++ targets.map fun n => (some n, c.ping_message env (some n) .kPong) }

def send_update (env : Env) (c : Cluster) (l : Option NodeId) (n : NodeId) : Cluster :=
  c.send l { c.header env .kUpdate with
    update_id := n
    update_epoch := (c.table.node n).config_epoch
    update_slots := c.table.own.slots n }

/-! ## Failure detection -/

/-- Reports that are too old are dropped on the way. -/
def count_fail_reports (env : Env) (c : Cluster) (n : NodeId) : Nat × Cluster :=
  let validity := c.options.node_timeout * kFailReportValidityMult
  let fresh := (c.table.node n).fail_reports.filter fun r => ¬ validity < env.now - r.2
  (fresh.length, c.modify n fun r => { r with fail_reports := fresh })

/-- The flag of a node that a majority, or a message, says is down. -/
def flag_fail (env : Env) (c : Cluster) (n : NodeId) : Cluster :=
  c.modify n fun r => { r with pfail := false, fail := true, fail_time := env.now }

/-- From suspected to failed, once a majority of the masters says so. -/
def mark_node_as_failing_if_needed (env : Env) (c : Cluster) (n : NodeId) : Cluster :=
  let r := c.table.node n
  if r.pfail = false ∨ r.fail then c
  else
    let reports := c.count_fail_reports env n
    let c := reports.2
    let failures := reports.1 + if c.me.master then 1 else 0
    if failures < c.table.needed_quorum then c
    else
      let c := c.flag_fail env n
      let c := c.broadcast { c.header env .kFail with fail_id := n }
      c.todo_update_state.todo_handle_failover.todo_save

/-- A master with slots stays failed for a while, so that its replica is not overtaken. -/
def clear_node_failure_if_needed (env : Env) (c : Cluster) (n : NodeId) : Cluster :=
  let r := c.table.node n
  if r.fail ∧ (r.replica ∨ c.table.own.slots n = ∅ ∨
      c.options.node_timeout * kFailUndoTimeMult < env.now - r.fail_time) then
    (c.modify n fun r => { r with fail := false }).todo_update_state.todo_save
  else c

/-- One node of `detect_failures`. -/
def detect_failure (env : Env) (c : Cluster) (n : NodeId) : Cluster :=
  let r := c.table.node n
  if n = c.myself ∨ r.handshake ∨ r.noaddr ∨ r.pfail ∨ r.fail then c
  else if r.ping_sent ≠ 0 ∧ c.options.node_timeout < env.now - r.ping_sent then
    let c := (c.modify n fun r => { r with pfail := true }).todo_update_state
    c.mark_node_as_failing_if_needed env n
  else c

def detect_failures (env : Env) (c : Cluster) : Cluster :=
  c.table.known.foldl (detect_failure env) c

/-! ## Gossip -/

/-- One entry: an opinion about a node we know, or the address of one we do not. -/
def gossip_step (env : Env) (sender : NodeId) (c : Cluster) (g : GossipEntry) : Cluster :=
  if g.id = c.myself then c
  else if g.id ∈ c.table.known then
    if (c.table.node sender).master ∧ ¬ (c.table.node g.id).handshake then
      if g.pfail ∨ g.fail then
        (c.modify g.id fun r => r.report sender env.now).mark_node_as_failing_if_needed env g.id
      else c.modify g.id fun r => r.retract sender
    else c
  else if c.blacklist.any fun b => b.1 = g.id ∧ env.now < b.2 then c
  else c.start_handshake env g.ip g.port g.cport

def process_gossip (env : Env) (c : Cluster) (sender : NodeId) (msg : Message) : Cluster :=
  msg.gossip.foldl (gossip_step env sender) c

end Cluster

end EpochKV

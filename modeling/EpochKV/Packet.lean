/-
`process_packet`: what one bus message does to a node.

The function is long, so each of its parts stands under a name of its own, in the
order of the source: what every message of a known sender brings (`note_sender`),
the answer to a PING (`answer`), the message types that end there, and for PING,
PONG and MEET the identity of the node at the other end (`identify`), its role
(`note_role`), its claims (`note_claims`) and its gossip.
-/
import EpochKV.Failover

set_option autoImplicit false

namespace EpochKV

open Commands

namespace Cluster

/-- Who sends: a node we know under its real id. -/
def sender_of (c : Cluster) (msg : Message) : Option NodeId :=
  (c.table.lookup msg.sender).filter fun n => ¬ (c.table.node n).handshake

def note_epochs (c : Cluster) (n : NodeId) (msg : Message) : Cluster :=
  let c :=
    if c.current_epoch < msg.current_epoch then
      todo_save { c with current_epoch := msg.current_epoch }
    else c
  if (c.table.node n).config_epoch < msg.config_epoch then
    (c.modify n fun r => { r with config_epoch := msg.config_epoch }).todo_save
  else c

/-- A new bus port means a new link. -/
def note_ports (c : Cluster) (n : NodeId) (msg : Message) : Cluster :=
  let r := c.table.node n
  if r.port ≠ msg.port ∨ r.cport ≠ msg.cport then
    (c.modify n fun r =>
      { r with
        port := msg.port
        cport := msg.cport
        link := if r.cport ≠ msg.cport then none else r.link }).todo_save
  else c

/-- Our master has paused its writes: the offset it reports is final. -/
def note_offset (c : Cluster) (n : NodeId) (msg : Message) : Cluster :=
  let c := c.modify n fun r => { r with repl_offset := msg.repl_offset }
  if c.me.replica ∧ c.me.master_id = some n ∧ msg.paused ∧ c.manual.mf_end.isSome ∧
      c.manual.master_offset = none then
    { c with
      manual := { c.manual with master_offset := some msg.repl_offset }
      todo := { c.todo with handle_manual_failover := true } }
  else c

def note_sender (c : Cluster) (n : NodeId) (msg : Message) : Cluster :=
  ((c.note_epochs n msg).note_ports n msg).note_offset n msg

/-- The link as `note_sender` leaves it: it may have dropped the one we read from. -/
def inlet_after (l : Inlet) (c : Cluster) (n : NodeId) (msg : Message) : Inlet :=
  if (c.table.node n).cport ≠ msg.cport ∧ (c.table.node n).link.isSome ∧ l.node = some n then
    { l with node := none, dead := true }
  else l

/-- The answer to a PING or MEET. -/
def answer (env : Env) (c : Cluster) (l : Inlet) (sender : Option NodeId) (msg : Message) :
    Cluster :=
  let c :=
    match l.local_ip with
    | some ip =>
      if c.me.ip = [] ∧ l.dead = false then
        (c.modify c.myself fun n => { n with ip := ip }).todo_save
      else c
    | none => c
  let c :=
    if sender = none ∧ msg.type = MsgType.kMeet ∧ l.peer_ip ≠ [] then
      c.start_handshake env l.peer_ip msg.port msg.cport
    else c
  if l.dead then c else c.send_ping env l.node .kPong

/-! ## The types that end early -/

def on_update (c : Cluster) (msg : Message) : Cluster :=
  match c.table.lookup msg.update_id with
  | none => c
  | some n =>
    if (c.table.node n).handshake ∨ msg.update_epoch ≤ (c.table.node n).config_epoch then c
    else
      let c := if (c.table.node n).replica then c.set_node_as_master n else c
      let c := (c.modify n fun r => { r with config_epoch := msg.update_epoch }).todo_save
      c.update_slots_config_with n msg.update_epoch msg.update_slots

def on_fail (env : Env) (c : Cluster) (msg : Message) : Cluster :=
  match c.table.lookup msg.fail_id with
  | none => c
  | some n =>
    if n = c.myself ∨ (c.table.node n).fail ∨ (c.table.node n).handshake then c
    else (c.flag_fail env n).todo_update_state.todo_handle_failover.todo_save

/-- A vote counts if it comes from a master serving slots and is not older than our
election. Who cast it is not recorded. -/
def counts_vote (c : Cluster) (sender : NodeId) (msg : Message) : Bool :=
  c.table.serves sender ∧ c.election.epoch ≤ msg.current_epoch ∧ c.election.sent

def on_auth_ack (c : Cluster) (sender : NodeId) (msg : Message) : Cluster :=
  if c.counts_vote sender msg then
    todo_handle_failover { c with election := { c.election with count := c.election.count + 1 } }
  else c

/-! ## PING, PONG, MEET -/

def note_pong (env : Env) (c : Cluster) (n : NodeId) (msg : Message) : Cluster :=
  if msg.type = MsgType.kPong then
    let c := c.modify n fun r => { r with pong_received := env.now, ping_sent := 0 }
    if (c.table.node n).pfail then (c.modify n fun r => { r with pfail := false }).todo_update_state
    else c.clear_node_failure_if_needed env n
  else c

/-- The first answer of a node we met: now we know its id. -/
def complete_handshake (c : Cluster) (n : NodeId) (msg : Message) : Cluster :=
  let c := { c with table := c.table.rename_node n msg.sender }
  let c := if c.manual.replica = some n then
    { c with manual := { c.manual with replica := some msg.sender } } else c
  (c.modify msg.sender fun r =>
    { r with
      handshake := false
      meet := false
      replica := r.replica || msg.replica
      master := r.master || !msg.replica
      master_id := msg.master_id }).todo_save

/-- A different node answers at this address. -/
def disown (c : Cluster) (n : NodeId) : Cluster :=
  (c.modify n fun r => { r with noaddr := true, ip := [], link := none }).todo_save

/-- The node whose PING or PONG this is, unless the packet is dropped here. -/
def identify (env : Env) (c : Cluster) (l : Inlet) (sender : Option NodeId) (msg : Message) :
    Option NodeId × Cluster :=
  match l.node with
  | none => (sender, c)
  | some n =>
    if (c.table.node n).handshake then
      if sender.isSome then (none, c.del_node n)
      else (some msg.sender, (c.complete_handshake n msg).note_pong env msg.sender msg)
    else if n ≠ msg.sender then (none, c.disown n)
    else (sender, c.note_pong env n msg)

def note_role (c : Cluster) (sender : NodeId) (msg : Message) : Cluster :=
  if msg.replica then
    let c :=
      if (c.table.node sender).master then
        -- a master turned replica gives up its slots
        ((c.set_slots (c.table.own.slots sender) none).modify sender fun r =>
          { r with master := false, replica := true }).todo_save
      else c
    if (c.table.node sender).master_id ≠ msg.master_id then
      (c.modify sender fun r => { r with master_id := msg.master_id }).todo_save
    else c
  else if (c.table.node sender).replica then c.set_node_as_master sender
  else c

/-- The newer owner we know of the first slot that `sender` claims wrongly. -/
def newer_owner (c : Cluster) (sender : NodeId) (msg : Message) : Option NodeId :=
  let stale : SlotBitmap := msg.slots.filter fun s =>
    (c.table.own.owner s).any fun o =>
      o ≠ sender ∧ msg.config_epoch < (c.table.node o).config_epoch
  stale.lowest.bind c.table.own.owner

def note_claims (env : Env) (c : Cluster) (l : Inlet) (sender : NodeId) (msg : Message) : Cluster :=
  if (c.table.node sender).master then
    let c :=
      if c.table.own.slots sender ≠ msg.slots then
        c.update_slots_config_with sender msg.config_epoch msg.slots
      else c
    let c :=
      match c.newer_owner sender msg with
      | none => c
      | some o => if l.dead then c else c.send_update env (l.node.map fun _ => sender) o
    c.handle_epoch_collision sender
  else c

def on_ping (env : Env) (c : Cluster) (l : Inlet) (sender : Option NodeId) (msg : Message) :
    Cluster :=
  match c.identify env l sender msg with
  | (none, c) => c
  | (some n, c) =>
    (((c.note_role n msg).note_claims env l n msg)).process_gossip env n msg

/-- The message of a sender that is known, or not, once its header is noted. -/
def on_message (env : Env) (c : Cluster) (l : Inlet) (sender : Option NodeId) (msg : Message) :
    Cluster :=
  match msg.type with
  | .kUpdate => if sender.isSome then c.on_update msg else c
  | .kFail => if sender.isSome then c.on_fail env msg else c
  | .kFailoverAuthRequest =>
    match sender with
    | none => c
    | some n => c.send_failover_auth_if_needed env n msg
  | .kFailoverAuthAck =>
    match sender with
    | none => c
    | some n => c.on_auth_ack n msg
  | .kMfStart =>
    match sender with
    | none => c
    | some n => c.start_pause env n l
  | .kPong => c.on_ping env l sender msg
  | .kPing | .kMeet =>
    let c := c.answer env l sender msg
    if l.dead ∨ env.overflow then c else c.on_ping env l sender msg

def process_packet (env : Env) (c : Cluster) (l : Inlet) (msg : Message) : Cluster :=
  let sender := c.sender_of msg
  match sender with
  | none => c.on_message env l none msg
  | some n => (c.note_sender n msg).on_message env (inlet_after l c n msg) sender msg

end Cluster

end EpochKV

/-
One node's life: the event loop (`cron`, `before_sleep`), connections, and the
restart from `nodes.conf`.

A node takes one `Event` at a time. Between two of them the process may crash;
`restart` is the next start, from the file that was last put in place and with
whatever data the store's own files gave back.
-/
import EpochKV.Admin

set_option autoImplicit false

namespace EpochKV

open Text Slots Commands

namespace Cluster

/-! ## Connections -/

/-- `connect_link`. A connection attempt means a PING is on its way. -/
def connect_link (env : Env) (c : Cluster) (n : NodeId) : Cluster :=
  if valid_ipv4 (c.table.node n).ip then
    c.modify n fun r =>
      { r with
        ping_sent := if r.ping_sent = 0 ∧ ¬ r.handshake then env.now else r.ping_sent
        link := some { connecting := true, ctime := env.now } }
  else c

/-- The connection to `n` is established. -/
def finish_connect (env : Env) (c : Cluster) (n : NodeId) : Cluster :=
  match (c.table.node n).link with
  | some l =>
    if l.connecting then
      let type := if (c.table.node n).meet then MsgType.kMeet else MsgType.kPing
      let c := c.modify n fun r => { r with link := some { l with connecting := false } }
      (c.send_ping env (some n) type).modify n fun r => { r with meet := false }
    else c
  | none => c

def free_link (c : Cluster) (n : NodeId) : Cluster := c.modify n fun r => { r with link := none }

/-! ## Cron -/

def handshake_timeout (c : Cluster) : Nat := max c.options.node_timeout kMinHandshakeTimeout

/-- A node that never answered its handshake. -/
def handshake_expired (env : Env) (c : Cluster) (n : NodeId) : Bool :=
  let r := c.table.node n
  n ≠ c.myself ∧ ¬ r.noaddr ∧ r.handshake ∧ c.handshake_timeout < env.now - r.ctime

/-- The first loop of the cron: connect, and give up on connections that hang. -/
def tend_link (env : Env) (c : Cluster) (n : NodeId) : Cluster :=
  let r := c.table.node n
  if n = c.myself ∨ r.noaddr ∨ c.handshake_expired env n then c
  else
    match r.link with
    | none => c.connect_link env n
    | some l => if l.connecting ∧ c.options.node_timeout < env.now - l.ctime then c.free_link n else c

def ping_random (env : Env) (c : Cluster) : Cluster :=
  match env.random_ping with
  | none => c
  | some n =>
    let r := c.table.node n
    if n ∈ c.table.known ∧ n ≠ c.myself ∧ r.usable ∧ r.ping_sent = 0 then
      c.send_ping env (some n) .kPing
    else c

/-- The third loop: no node goes unpinged long enough to look dead. -/
def tend_ping (env : Env) (c : Cluster) (n : NodeId) : Cluster :=
  let r := c.table.node n
  let half := c.options.node_timeout / 2
  if n = c.myself ∨ r.usable = false then c
  else if r.ping_sent ≠ 0 then
    if half < env.now - r.ping_sent ∧
        r.link.any (fun l => c.options.node_timeout < env.now - l.ctime) then c.free_link n
    else c
  else if half < env.now - r.pong_received then c.send_ping env (some n) .kPing
  else c

/-- A paused master keeps telling its replica the final offset. -/
def ping_mf_replica (env : Env) (c : Cluster) : Cluster :=
  match c.manual.replica with
  | none => c
  | some n =>
    if c.me.master ∧ c.manual.mf_end.isSome ∧ (c.table.node n).usable then
      c.send_ping env (some n) .kPing
    else c

def expire_blacklist (env : Env) (c : Cluster) : Cluster :=
  { c with blacklist := c.blacklist.filter fun b => env.now < b.2 }

def cron_links (env : Env) (c : Cluster) : Cluster :=
  let expired := c.table.known.filter (c.handshake_expired env)
  let c := c.table.known.foldl (tend_link env) c
  let c := expired.foldl del_node c
  let c := (c.expire_blacklist env).ping_random env
  c.table.known.foldl (tend_ping env) c

def cron_failover (env : Env) (c : Cluster) : Cluster :=
  if c.me.replica then (c.handle_manual_failover env).handle_replica_failover env else c

def cron (env : Env) (c : Cluster) : Cluster :=
  if c.host = false then c
  else
    let c := ((c.cron_links env).detect_failures env).ping_mf_replica env
    let c := (c.manual_failover_check_timeout env).cron_failover env
    c.follow_master.update_state env

/-! ## Before the loop sleeps -/

def flush_manual_failover (env : Env) (c : Cluster) : Cluster :=
  if c.todo.handle_manual_failover ∧ c.host then c.handle_manual_failover env else c

def flush_failover (env : Env) (c : Cluster) : Cluster :=
  if c.todo.handle_failover ∧ c.host then c.handle_replica_failover env else c

def flush_state (env : Env) (c : Cluster) : Cluster :=
  if c.todo.update_state then c.update_state env else c

def flush_broadcast (env : Env) (c : Cluster) : Cluster :=
  if c.todo.broadcast ∧ c.host then
    { c with todo := { c.todo with broadcast := false } }.broadcast_pong env
  else c

/-- The deferred save: the flag is cleared whether or not it succeeds. -/
def flush_config (env : Env) (c : Cluster) : Cluster :=
  if c.todo.save then
    ({ c with todo := { c.todo with save := false } }.save_config env).2
  else c

/-- `env'` is the time of the save at the end. -/
def before_sleep (env env' : Env) (c : Cluster) : Cluster :=
  let c := (c.flush_manual_failover env).flush_failover env
  ((c.flush_state env).flush_broadcast env).flush_config env'

/-! ## Restart -/

/-- A row as `parse_config` rebuilds it. -/
def load_node (env : Env) (n : Node) : Node :=
  { n.persisted with ctime := env.now, fail_time := if n.fail then env.now else 0 }

/-- The table read back from the file. Marks of nodes that are not in it are dropped. -/
def parse_config (env : Env) (conf : Conf) : Table :=
  let listed := fun o : Option NodeId => o.bind conf.table.lookup
  { conf.table with
    node := fun n => load_node env (conf.table.node n)
    own := conf.table.own.restrict fun n => n ∈ conf.table.known
    migrating_to := fun s => listed (conf.table.migrating_to s)
    importing_from := fun s => listed (conf.table.importing_from s) }

/-- A process that has read the file, and nothing else yet. -/
def from_config (env : Env) (options : Options) (conf : Conf) (store : Store) : Cluster :=
  { options, store, host := false, repl_master := none, table := parse_config env conf
    current_epoch := conf.current_epoch
    last_vote_epoch := conf.last_vote_epoch
    disk := conf }

/-- The command line wins over the file for our own address. -/
def own_address (c : Cluster) : Cluster :=
  c.modify c.myself fun n =>
    { n with
      port := c.options.port
      cport := c.options.cport
      ip := if n.ip = [] ∧ c.options.bind_addr ≠ lit "0.0.0.0" then c.options.bind_addr else n.ip }

/-- `load_config` of an existing file, saved again at once. A start whose save fails
is no start. -/
def load_config (env : Env) (options : Options) (conf : Conf) (store : Store) : Cluster :=
  let c := (from_config env options conf store).own_address.update_state env
  { c with disk := c.describe_nodes }

/-- The slots the store holds keys of. -/
def held_slots (s : Store) : SlotBitmap :=
  (s.tables.dict.keys.map key_hash_slot).toFinset

/-- The slots with keys here that are neither ours nor being imported. -/
def foreign_slots (c : Cluster) : SlotBitmap :=
  (held_slots c.store).filter fun s =>
    c.table.own.owner s ≠ some c.myself ∧ c.table.importing_from s = none

def mark_importing (c : Cluster) (slots : SlotBitmap) : Cluster :=
  { c with table :=
    { c.table with importing_from := fun s =>
        if s ∈ slots then c.table.own.owner s else c.table.importing_from s } }

/-- Keys in slots that are not ours: claim the slot if it is free, else import it. -/
def verify_config_with_data (env : Env) (c : Cluster) : Cluster :=
  if c.me.replica then c
  else
    let foreign := c.foreign_slots
    let free := foreign.filter fun s => c.table.own.owner s = none
    let taken := foreign.filter fun s => c.table.own.owner s ≠ none
    let c := (c.mark_importing taken).set_slots free (some c.myself)
    (if foreign = ∅ then c else c.todo_save).update_state env

/-- `start`: the bus is up. -/
def start (env : Env) (c : Cluster) : Cluster :=
  let c := { c with host := true, writable_after := env.now + kWritableDelay, state_ok := false }
  c.follow_master.update_state env

def restart (env : Env) (c : Cluster) (store : Store) : Cluster :=
  ((load_config env c.options c.disk store).verify_config_with_data env).start env

/-- What a process that finds no file starts from: it knows itself, under a new id. -/
def first_conf (id : NodeId) : Conf where
  table :=
    { myself := id
      known := [id]
      node := fun n => if n = id then { master := true } else {}
      own := Ownership.vacant
      migrating_to := fun _ => none
      importing_from := fun _ => none }
  current_epoch := 0
  last_vote_epoch := 0

def first_start (env : Env) (options : Options) (store : Store) (id : NodeId) : Cluster :=
  ((load_config env options (first_conf id) store).verify_config_with_data env).start env

/-- A process in its first state. -/
def First (c : Cluster) : Prop := ∃ env options store id, c = first_start env options store id

/-! ## Events -/

inductive Event where
  | packet (env : Env) (l : Inlet) (msg : Message)
  | command (env : Env) (argv : Args) (error : Bytes)
  | cron (env : Env)
  | before_sleep (env env' : Env)
  | connected (env : Env) (n : NodeId)
  | lost_link (n : NodeId)
  | stall (env : Env)
  /-- Clients, expiry and replication change the keyspace. -/
  | data (store : Store)
  | restart (env : Env) (store : Store)

/-- The message an event brings. -/
def Event.message : Event → Option Message
  | .packet _ _ msg => some msg
  | _ => none

def Event.is_restart : Event → Bool
  | .restart .. => true
  | _ => false

def handle (c : Cluster) : Event → Cluster
  | .packet env l msg => c.process_packet env l msg
  | .command env argv error => (c.command env argv error).2
  | .cron env => c.cron env
  | .before_sleep env env' => c.before_sleep env env'
  | .connected env n => c.finish_connect env n
  | .lost_link n => c.free_link n
  | .stall env => c.after_stall env
  | .data store => { c with store := store }
  | .restart env store => c.restart env store

/-- One event; `sent` is what it sends. -/
def step (c : Cluster) (e : Event) : Cluster := handle { c with sent := [] } e

end Cluster

end EpochKV

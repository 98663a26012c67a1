/-
The CLUSTER command (`Cluster::command` and the `cmd_…` functions).

Node ids are 40 hexadecimal digits on the wire, numbers here; text that is no id
names no node. The subcommands that only print (INFO, NODES, SLOTS, MYID and
GETKEYSINSLOT) change nothing and their texts are left out.
-/
import EpochKV.Packet

set_option autoImplicit false

namespace EpochKV

open Text Slots Commands

/-! ## Arguments -/

/-- A digit of a node id: lower case only. -/
def hex_digit (c : UInt8) : Option Nat :=
  if 48 ≤ c ∧ c ≤ 57 then some (c.toNat - 48)
  else if 97 ≤ c ∧ c ≤ 102 then some (c.toNat - 87)
  else none

/-- `valid_node_id`, and the id. -/
def parse_node_id (s : Bytes) : Option NodeId :=
  if s.length = 40 then s.foldlM (fun n c => (hex_digit c).map (n * 16 + ·)) 0 else none

def to_slot (n : Nat) : Option Slot := if h : n < kSlots then some ⟨n, h⟩ else none

theorem to_slot_eq_some {n : Nat} {t : Slot} : to_slot n = some t ↔ t.val = n := by
  unfold to_slot
  constructor
  · intro h
    split at h
    · exact congrArg Fin.val (Option.some.inj h).symm
    · exact absurd h nofun
  · rintro rfl
    exact dif_pos t.isLt

/-- A slot as a client writes it. -/
def parse_slot (s : Bytes) : Option Slot :=
  (parse_int64 s).bind fun n => if 0 ≤ n then to_slot n.toNat else none

/-- `parse_num` into a `uint64_t`. -/
def parse_uint64 (s : Bytes) : Option Nat :=
  (parse_digits s).bind fun n => if n < 2 ^ 64 then some n else none

namespace Cluster

/-- The node a client names by its id, if this node knows it. -/
def find_node (c : Cluster) (s : Bytes) : Option NodeId := (parse_node_id s).bind c.table.lookup

def err (s : String) : Reply := .error (lit s)

def ok : Reply := .simple (lit "OK")

/-! ## ADDSLOTS, DELSLOTS and their ranges -/

/-- The slots named by the arguments, in order. -/
def slot_args (range : Bool) : List Bytes → Except Bytes (List Slot)
  | [] => .ok []
  | [a] =>
    match range, parse_slot a with
    | false, some s => .ok [s]
    | _, _ => .error (lit "ERR Invalid or out of range slot")
  | a :: b :: rest =>
    match range, parse_slot a, parse_slot b with
    | false, some s, _ => (slot_args range (b :: rest)).map (s :: ·)
    | true, some s, some e =>
      if e < s then
        .error (lit "ERR start slot number " ++ to_string s.val ++
          lit " is greater than end slot number " ++ to_string e.val)
      else (slot_args range rest).map ((List.range' s (e + 1 - s)).filterMap to_slot ++ ·)
    | _, _, _ => .error (lit "ERR Invalid or out of range slot")

/-- The first complaint about the slots, those before already seen. -/
def check_slots (c : Cluster) (add : Bool) (seen : List Slot) : List Slot → Option Bytes
  | [] => none
  | s :: rest =>
    let slot := lit "ERR Slot " ++ to_string s.val
    if s ∈ seen then some (slot ++ lit " specified multiple times")
    else if add ∧ c.table.own.owner s ≠ none then some (slot ++ lit " is already busy")
    else if ¬ add ∧ c.table.own.owner s = none then some (slot ++ lit " is already unassigned")
    else check_slots c add (s :: seen) rest

/-- ADDSLOTS and DELSLOTS, by slot or by range: nothing is changed unless every slot passes. -/
def cmd_addslots (c : Cluster) (argv : Args) (range add : Bool) : Reply × Cluster :=
  if c.me.replica then (err "ERR Please use this command only with masters.", c)
  else
    match slot_args range (argv.drop 2) with
    | .error e => (.error e, c)
    | .ok slots =>
      match c.check_slots add [] slots with
      | some e => (.error e, c)
      | none =>
        let all := slots.toFinset
        let c := if add then c.drop_importing all else c
        let c := c.set_slots all (if add then some c.myself else none)
        (ok, c.todo_save.todo_broadcast)

/-! ## SETSLOT -/

def set_migrating (c : Cluster) (slot : Slot) (n : Option NodeId) : Cluster :=
  { c with table := { c.table with migrating_to := Function.update c.table.migrating_to slot n } }

def set_importing (c : Cluster) (slot : Slot) (n : Option NodeId) : Cluster :=
  { c with table := { c.table with importing_from := Function.update c.table.importing_from slot n } }

/-- `SETSLOT slot NODE n`, once it is allowed. -/
def assign_slot (c : Cluster) (slot : Slot) (n : NodeId) : Cluster :=
  let c := if c.store.count_keys_in_slot slot = 0 then c.set_migrating slot none else c
  let finishes_import := n = c.myself ∧ c.table.importing_from slot ≠ none
  let c := (if n = c.myself then c.set_importing slot none else c).set_slot slot (some n)
  let c := if finishes_import then c.bump_epoch_without_consensus.2 else c
  c.todo_broadcast

/-- What `SETSLOT slot … node` asks for; `STABLE` names no node and is read before them. -/
inductive SlotAction where
  | migrating
  | importing
  | node
  deriving DecidableEq

def slot_action (s : Bytes) : Option SlotAction :=
  if s = lit "MIGRATING" then some .migrating
  else if s = lit "IMPORTING" then some .importing
  else if s = lit "NODE" then some .node
  else none

/-- A slot is handed away with `NODE` only when this node holds no more of its keys. -/
def setslot_node (c : Cluster) (slot : Slot) (n : NodeId) : SlotAction → Reply × Cluster
  | .migrating =>
    if c.table.own.owner slot ≠ some c.myself then
      (.error (lit "ERR I'm not the owner of hash slot " ++ to_string slot.val), c)
    else (ok, (c.set_migrating slot (some n)).todo_save)
  | .importing =>
    if c.table.own.owner slot = some c.myself then
      (.error (lit "ERR I'm already the owner of hash slot " ++ to_string slot.val), c)
    else (ok, (c.set_importing slot (some n)).todo_save)
  | .node =>
    if c.table.own.owner slot = some c.myself ∧ n ≠ c.myself ∧ 0 < c.store.count_keys_in_slot slot then
      (.error (lit "ERR Can't assign hashslot " ++ to_string slot.val ++
        lit " to a different node while I still hold keys for this hash slot."), c)
    else (ok, (c.assign_slot slot n).todo_save)

/-- SETSLOT: the node named must be a master this node knows. -/
def cmd_setslot (c : Cluster) (argv : Args) : Reply × Cluster :=
  if c.me.replica then (err "ERR Please use SETSLOT only with masters.", c)
  else
    match argv with
    | _ :: _ :: s :: a :: rest =>
      match parse_slot s with
      | none => (err "ERR Invalid or out of range slot", c)
      | some slot =>
        if to_upper a = lit "STABLE" then
          if rest ≠ [] then (err "ERR syntax error", c)
          else (ok, ((c.set_migrating slot none).set_importing slot none).todo_save)
        else
          match rest, slot_action (to_upper a) with
          | [id], some action =>
            match (c.find_node id).filter fun n => ¬ (c.table.node n).handshake with
            | none => (.error (lit "ERR I don't know about node " ++ id), c)
            | some n =>
              if (c.table.node n).replica then (err "ERR Target node is not a master", c)
              else c.setslot_node slot n action
          | _, _ =>
            (err "ERR Invalid CLUSTER SETSLOT action or number of arguments. Try CLUSTER HELP", c)
    | _ => (.nothing, c)

/-! ## MEET, REPLICATE, FORGET, FAILOVER -/

/-- The two ports of MEET: the bus port is 10000 above the other unless it is given. -/
def meet_ports (port : Bytes) (cport : Option Bytes) : Option (Nat × Nat) :=
  (parse_int64 port).bind fun p =>
    let q := match cport with
      | none => some (p + 10000)
      | some b => parse_int64 b
    q.bind fun q =>
      if 0 < p ∧ p ≤ 65535 ∧ 0 < q ∧ q ≤ 65535 then some (p.toNat, q.toNat) else none

/-- MEET starts a handshake; the node is known by its own id once it answers. -/
def cmd_meet (env : Env) (c : Cluster) (ip port : Bytes) (cport : Option Bytes) : Reply × Cluster :=
  match meet_ports port cport with
  | none => (.error (lit "ERR Invalid base port specified: " ++ port), c)
  | some (p, q) =>
    if valid_ipv4 ip = false then
      (.error (lit "ERR Invalid node address specified: " ++ ip ++ lit ":" ++ port), c)
    else (ok, c.start_handshake env ip p q)

/-- REPLICATE: a master may become a replica only when it holds no slot and no key. -/
def cmd_replicate (c : Cluster) (id : Bytes) : Reply × Cluster :=
  match (c.find_node id).filter fun n => ¬ (c.table.node n).handshake with
  | none => (.error (lit "ERR Unknown node " ++ id), c)
  | some n =>
    if n = c.myself then (err "ERR Can't replicate myself", c)
    else if (c.table.node n).replica then
      (err "ERR I can only replicate a master, not a replica.", c)
    else if c.me.master ∧ (c.table.own.slots c.myself ≠ ∅ ∨ c.store.size ≠ 0) then
      (err "ERR To set a master the node must be empty and without assigned slots.", c)
    else (ok, c.set_as_replica_of n)

/-- Gossip does not bring the node back until the entry expires. -/
def ban (env : Env) (c : Cluster) (n : NodeId) : Cluster :=
  { c with blacklist := c.blacklist.filter (fun b => b.1 ≠ n) ++ [(n, env.now + kBlacklistTtl)] }

/-- FORGET: the node is dropped, and for a minute gossip does not bring it back. -/
def cmd_forget (env : Env) (c : Cluster) (id : Bytes) : Reply × Cluster :=
  match c.find_node id with
  | none => (.error (lit "ERR Unknown node " ++ id), c)
  | some n =>
    if n = c.myself then (err "ERR I tried hard but I can't forget myself...", c)
    else if c.me.replica ∧ c.me.master_id = some n then (err "ERR Can't forget my master!", c)
    else (ok, (c.ban env n).del_node n)

/-- Without an option the master takes part; FORCE does without it, TAKEOVER without votes. -/
inductive FailoverMode where
  | coordinated
  | force
  | takeover
  deriving DecidableEq

def failover_mode (opt : Option Bytes) : Option FailoverMode :=
  match opt.map to_upper with
  | none => some .coordinated
  | some s =>
    if s = lit "FORCE" then some .force
    else if s = lit "TAKEOVER" then some .takeover
    else none

/-- A fresh manual failover, its end set. -/
def begin_manual_failover (env : Env) (c : Cluster) : Cluster :=
  let c := c.reset_manual_failover
  { c with manual := { c.manual with mf_end := some (env.now + kManualFailoverTimeout) } }

/-- The three ways: a new epoch at once, an election at once, or ask the master to pause. -/
def run_failover (env : Env) (c : Cluster) (master : NodeId) : FailoverMode → Cluster
  | .takeover => c.bump_epoch_without_consensus.2.failover_replace_master env
  | .force =>
    todo_handle_failover
      { c with
        manual := { c.manual with can_start := true }
        election := { c.election with time := none } }
  | .coordinated =>
    let c := { c with election := { c.election with time := none } }
    c.send (some master) (c.header env .kMfStart)

/-- FAILOVER, for a replica that knows its master. -/
def cmd_failover (env : Env) (c : Cluster) (opt : Option Bytes) : Reply × Cluster :=
  match failover_mode opt with
  | none => (err "ERR syntax error", c)
  | some mode =>
    if c.me.master then (err "ERR You should send CLUSTER FAILOVER to a replica", c)
    else
      match c.table.lookup_master c.myself with
      | none => (err "ERR I'm a replica but my master is unknown to me", c)
      | some m =>
        if mode = .coordinated ∧ ((c.table.node m).fail ∨ (c.table.node m).connected = false) then
          (err "ERR Master is down or failed, please use CLUSTER FAILOVER FORCE", c)
        else (ok, (c.begin_manual_failover env).run_failover env m mode)

/-! ## The dispatcher -/

/-- SET-CONFIG-EPOCH: only before the node knows any other, and only once. -/
def cmd_set_config_epoch (c : Cluster) (arg : Bytes) : Reply × Cluster :=
  match parse_uint64 arg with
  | none => (.error (lit "ERR Invalid config epoch specified: " ++ arg), c)
  | some epoch =>
    if 1 < c.table.known.length then
      (err "ERR The user can assign a config epoch only when the node does not know any other node.", c)
    else if c.me.config_epoch ≠ 0 then (err "ERR Node config epoch is already non-zero", c)
    else
      let c := c.modify c.myself fun n => { n with config_epoch := epoch }
      (ok, todo_save { c with current_epoch := max c.current_epoch epoch })

/-- BUMPEPOCH answers with the epoch the node ends up with. -/
def cmd_bumpepoch (c : Cluster) : Reply × Cluster :=
  let r := c.bump_epoch_without_consensus
  (.simple (lit (if r.1 then "BUMPED " else "STILL ") ++ to_string r.2.me.config_epoch), r.2)

/-- `error` is `strerror(errno)` after a failed save. -/
def cmd_saveconfig (env : Env) (c : Cluster) (error : Bytes) : Reply × Cluster :=
  let r := c.save_config env
  if r.1 then (ok, r.2)
  else (.error (lit "ERR error saving the cluster node config: " ++ error), r.2)

def wrong_args (sub : Bytes) : Reply :=
  .error (lit "ERR wrong number of arguments for 'cluster|" ++ sub ++ lit "' command")

def cmd_countkeysinslot (c : Cluster) (arg : Bytes) : Reply × Cluster :=
  match parse_slot arg with
  | none => (err "ERR Invalid slot", c)
  | some slot => (.integer (c.store.count_keys_in_slot slot), c)

def cmd_count_failure_reports (env : Env) (c : Cluster) (id : Bytes) : Reply × Cluster :=
  match c.find_node id with
  | none => (.error (lit "ERR Unknown node " ++ id), c)
  | some n => (.integer (c.count_fail_reports env n).1, (c.count_fail_reports env n).2)

inductive Subcommand where
  | keyslot
  | countkeysinslot
  /-- ADDSLOTS, DELSLOTS, ADDSLOTSRANGE, DELSLOTSRANGE. -/
  | slots (range add : Bool)
  | setslot
  | meet
  | replicate
  | forget
  | failover
  | count_failure_reports
  | set_config_epoch
  | bumpepoch
  | saveconfig
  /-- The ones that only print: those without arguments, and GETKEYSINSLOT. -/
  | print
  | getkeysinslot
  deriving DecidableEq

def subcommands : List (String × Subcommand) :=
  [("INFO", .print), ("MYID", .print), ("NODES", .print), ("SLOTS", .print),
   ("KEYSLOT", .keyslot), ("COUNTKEYSINSLOT", .countkeysinslot),
   ("GETKEYSINSLOT", .getkeysinslot), ("ADDSLOTS", .slots false true),
   ("DELSLOTS", .slots false false), ("ADDSLOTSRANGE", .slots true true),
   ("DELSLOTSRANGE", .slots true false), ("SETSLOT", .setslot), ("MEET", .meet),
   ("REPLICATE", .replicate), ("FORGET", .forget), ("FAILOVER", .failover),
   ("COUNT-FAILURE-REPORTS", .count_failure_reports), ("SET-CONFIG-EPOCH", .set_config_epoch),
   ("BUMPEPOCH", .bumpepoch), ("SAVECONFIG", .saveconfig)]

def find_subcommand (upper : Bytes) : Option Subcommand :=
  (subcommands.find? fun p => lit p.1 = upper).map Prod.snd

def unknown_subcommand (sub : Bytes) : Reply :=
  .error (lit "ERR unknown subcommand or wrong number of arguments for '" ++ sub ++
    lit "'. Try CLUSTER HELP.")

/-- `CLUSTER sub args`, the subcommand found. -/
def run_subcommand (env : Env) (c : Cluster) (argv : Args) (error : Bytes) (raw : Bytes) :
    Subcommand → List Bytes → Reply × Cluster
  | .keyslot, [key] => (.integer (key_hash_slot key).val, c)
  | .countkeysinslot, [s] => c.cmd_countkeysinslot s
  | .slots false add, _ :: _ => c.cmd_addslots argv false add
  | .slots true add, args =>
    if args.length < 2 ∨ args.length % 2 ≠ 0 then (wrong_args raw, c) else c.cmd_addslots argv true add
  | .setslot, _ :: _ :: _ => c.cmd_setslot argv
  | .meet, [ip, port] => c.cmd_meet env ip port none
  | .meet, [ip, port, cport] => c.cmd_meet env ip port (some cport)
  | .replicate, [id] => c.cmd_replicate id
  | .forget, [id] => c.cmd_forget env id
  | .failover, [] => c.cmd_failover env none
  | .failover, [opt] => c.cmd_failover env (some opt)
  | .count_failure_reports, [id] => c.cmd_count_failure_reports env id
  | .set_config_epoch, [e] => c.cmd_set_config_epoch e
  | .bumpepoch, [] => c.cmd_bumpepoch
  | .saveconfig, [] => c.cmd_saveconfig env error
  | .print, [] => (.nothing, c)
  | .getkeysinslot, [_, _] => (.nothing, c)
  -- these know no other form, so an argument makes them unknown
  | .bumpepoch, _ | .saveconfig, _ | .print, _ => (unknown_subcommand raw, c)
  | _, _ => (wrong_args raw, c)

/-- `Cluster::command`: the subcommand is looked up in upper case. -/
def command (env : Env) (c : Cluster) (argv : Args) (error : Bytes) : Reply × Cluster :=
  let raw := (argv.drop 1).headD []
  match find_subcommand (to_upper raw) with
  | none => (unknown_subcommand raw, c)
  | some sub => c.run_subcommand env argv error raw sub (argv.drop 2)

end Cluster

end EpochKV

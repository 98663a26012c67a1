/-
The command layer (`command_dispatcher.cpp`, and `Cluster::route`).

`dispatch` is the source's: look the name up, check the number of arguments,
redirect, refuse, evict, run the handler. Handlers take the whole argument vector
and return the reply with the new store. What they read from the rest of the
server is collected in `Env`: the sender, the slot map, whether this server is a
replica, whether the log can be written and whether anybody reads it.

The administrative commands (SAVE, PSYNC, INFO, CLUSTER and so on) do not touch the
keyspace here; they are `Handler.other` and their reply comes from the
environment. The client flags that ASKING, READONLY and READWRITE set are inputs of
the commands that follow, not outputs of these.
-/
import EpochKV.Codec
import EpochKV.Store

set_option autoImplicit false

namespace EpochKV.Commands

open Text Slots Codec

/-! ## Texts and replies -/

def kErrNotInteger : Bytes := lit "ERR value is not an integer or out of range"

def kErrIncrOverflow : Bytes := lit "ERR increment or decrement would overflow"

def kErrSyntax : Bytes := lit "ERR syntax error"

def kErrOom : Bytes := lit "OOM command not allowed when used memory > 'maxmemory'."

def kErrReadOnly : Bytes := lit "READONLY You can't write against a read only replica."

def invalid_expire (name : String) : Bytes :=
  lit "ERR invalid expire time in '" ++ lit name ++ lit "' command"

/-- What a handler answers; `nothing` is a reply that comes from elsewhere or not at all. -/
inductive Reply where
  | simple (s : Bytes)
  | error (msg : Bytes)
  | integer (n : Int)
  | bulk (s : Bytes)
  | null
  | nothing
  deriving DecidableEq

/-! ## What a command can see of the server -/

/-- The sender of a command. -/
structure Client where
  asking : Bool := false
  readonly : Bool := false
  is_master : Bool := false
  deriving DecidableEq

abbrev NodeId := Nat

/-- The part of the cluster state that `route` reads. -/
structure RouteView where
  state_ok : Bool
  myself : NodeId
  /-- The master this node replicates, if it is a replica. -/
  my_master : Option NodeId
  owner : Slot → Option NodeId
  migrating_to : Slot → Option NodeId
  importing_from : Slot → Option NodeId
  address : NodeId → Bytes

/-- What the dispatcher and the handlers read of the server, apart from the store. -/
structure Env where
  /-- Nobody for internal callers, such as the replay of the log. -/
  client : Option Client := none
  cluster : Option RouteView := none
  is_replica : Bool := false
  /-- `persistence_->write_error()`; empty if writes can be persisted. -/
  write_error : Bytes := []
  log_wanted : Bool := true
  /-- `migrate::exchange`: host, port, the commands sent, the timeout; answers the
  replies received and the I/O error, if there was one. -/
  exchange : Bytes → Int → List Args → Int → List Bytes × Option Bytes := fun _ _ _ _ => ([], none)
  other : Args → Reply := fun _ => .nothing

def Env.from_master (env : Env) : Bool := (env.client.map Client.is_master).getD false

/-- `propagate_built`: a command is only built if somebody reads it. -/
def propagate_built (env : Env) (s : Store) (argv : Args) : Store :=
  if env.log_wanted then s.propagate argv else s

/-! ## Routing -/

/-- How many of the keys are not here, asked one after the other. -/
def count_missing : List Key → Store → Nat × Store
  | [], s => (0, s)
  | key :: keys, s =>
    let c := s.contains key
    let r := count_missing keys c.2
    (if c.1 then r.1 else r.1 + 1, r.2)

/-- `Cluster::route`: nothing if the command may run here, else the error. -/
def route (v : RouteView) (keys : List Key) (write asking readonly : Bool) (s : Store) :
    Option Bytes × Store :=
  match keys with
  | [] => (none, s)
  | first :: more =>
    let slot := key_hash_slot first
    if more.any (fun k => key_hash_slot k ≠ slot) then
      (some (lit "CROSSSLOT Keys in request don't hash to the same slot"), s)
    else if !v.state_ok then (some (lit "CLUSTERDOWN The cluster is down"), s)
    else match v.owner slot with
      | none => (some (lit "CLUSTERDOWN Hash slot not served"), s)
      | some owner =>
        let migrating := owner = v.myself ∧ (v.migrating_to slot).isSome
        let importing := (v.importing_from slot).isSome
        let m := if migrating ∨ importing then count_missing keys s else (0, s)
        let tryagain := lit "TRYAGAIN Multiple keys request during rehashing of slot"
        if migrating ∧ 0 < m.1 then
          if m.1 < keys.length then (some tryagain, m.2)
          else (some (lit "ASK " ++ to_string slot.val ++ lit " " ++
            ((v.migrating_to slot).map v.address).getD []), m.2)
        else if importing ∧ asking then
          if 1 < keys.length ∧ 0 < m.1 then (some tryagain, m.2) else (none, m.2)
        else if owner ≠ v.myself then
          if !write ∧ readonly ∧ v.my_master = some owner then (none, m.2)
          else (some (lit "MOVED " ++ to_string slot.val ++ lit " " ++ v.address owner), m.2)
        else (none, m.2)

/-! ## SET -/

/-- The options of SET, as the loop has read them so far. -/
structure SetOptions where
  nx : Bool := false
  xx : Bool := false
  keep_ttl : Bool := false
  expire_at : Option Int := none
  deriving DecidableEq

/-- `amount > 0 ? deadline_from(relative ? now : 0, amount, unit_ms) : nullopt`. The
clock is only read for a relative time. -/
def set_deadline (s : Store) (amount unit_ms : Int) (relative : Bool) : Option Int × Store :=
  if amount > 0 then
    if relative then (deadline_from s.now_ms.1 amount unit_ms, s.now_ms.2)
    else (deadline_from 0 amount unit_ms, s)
  else (none, s)

/-- The option loop of `cmd_set`. -/
def set_options : List Bytes → SetOptions → Store → Except Bytes SetOptions × Store
  | [], o, s => (.ok o, s)
  | arg :: rest, o, s =>
    let opt := to_upper arg
    if opt = lit "NX" ∧ o.xx = false then set_options rest { o with nx := true } s
    else if opt = lit "XX" ∧ o.nx = false then set_options rest { o with xx := true } s
    else if opt = lit "KEEPTTL" ∧ o.expire_at = none then
      set_options rest { o with keep_ttl := true } s
    else if (opt = lit "EX" ∨ opt = lit "PX" ∨ opt = lit "EXAT" ∨ opt = lit "PXAT") ∧
        o.keep_ttl = false ∧ o.expire_at = none then
      match rest with
      | [] => (.error kErrSyntax, s)
      | text :: rest =>
        match parse_int64 text with
        | none => (.error kErrNotInteger, s)
        | some amount =>
          let relative := decide (opt = lit "EX" ∨ opt = lit "PX")
          let unit_ms := if opt = lit "EX" ∨ opt = lit "EXAT" then 1000 else 1
          let r := set_deadline s amount unit_ms relative
          match r.1 with
          | none => (.error (invalid_expire "set"), r.2)
          | some d => set_options rest { o with expire_at := some d } r.2
    else (.error kErrSyntax, s)

/-- What a SET is logged as. -/
def set_logged (key : Key) (value : Bytes) (o : SetOptions) : Args :=
  [lit "SET", key, value] ++
    match o.expire_at with
    | some d => [lit "PXAT", to_string d]
    | none => if o.keep_ttl then [lit "KEEPTTL"] else []

def set_expire_opt (s : Store) (key : Key) : Option Int → Store
  | none => s
  | some d => (s.set_expire key d).2

/-- SET: the options are read to the end before the key is looked at. -/
def cmd_set (env : Env) (argv : Args) (s : Store) : Reply × Store :=
  match argv with
  | _ :: key :: value :: opts =>
    let r := set_options opts {} s
    match r.1 with
    | .error e => (.error e, r.2)
    | .ok o =>
      let x := if o.nx || o.xx then r.2.exists_key key else (false, r.2)
      if (o.nx && x.1) || (o.xx && !x.1) then (.null, x.2)
      else
        let s := set_expire_opt (x.2.set key value o.keep_ttl) key o.expire_at
        (.simple (lit "OK"), propagate_built env s (set_logged key value o))
  | _ => (.nothing, s)

/-! ## GET, DEL, EXISTS -/

def cmd_get (argv : Args) (s : Store) : Reply × Store :=
  let r := s.get (argv.getD 1 [])
  match r.1 with
  | some value => (.bulk value, r.2)
  | none => (.null, r.2)

def del_keys : List Key → Store → Nat × Store
  | [], s => (0, s)
  | key :: keys, s =>
    let d := s.del key
    let r := del_keys keys d.2
    (if d.1 then r.1 + 1 else r.1, r.2)

/-- The command is logged as it came, if it deleted anything. -/
def cmd_del (argv : Args) (s : Store) : Reply × Store :=
  let r := del_keys argv.tail s
  (.integer r.1, if r.1 > 0 then r.2.propagate argv else r.2)

def count_existing : List Key → Store → Nat × Store
  | [], s => (0, s)
  | key :: keys, s =>
    let x := s.exists_key key
    let r := count_existing keys x.2
    (if x.1 then r.1 + 1 else r.1, r.2)

def cmd_exists (argv : Args) (s : Store) : Reply × Store :=
  let r := count_existing argv.tail s
  (.integer r.1, r.2)

/-! ## The INCR family -/

/-- The four of them: what is logged is the sum, as a SET that keeps the deadline. -/
def incr_by (env : Env) (key : Key) (delta : Int) (s : Store) : Reply × Store :=
  let r := s.get key
  let value := match r.1 with
    | none => some 0
    | some current => parse_canonical_int64 current
  match value with
  | none => (.error kErrNotInteger, r.2)
  | some value =>
    if ¬ Fits (value + delta) then (.error kErrIncrOverflow, r.2)
    else
      let text := to_string (value + delta)
      let s := r.2.set key text true
      (.integer (value + delta), propagate_built env s [lit "SET", key, text, lit "KEEPTTL"])

def cmd_incr (env : Env) (argv : Args) (s : Store) : Reply × Store :=
  incr_by env (argv.getD 1 []) 1 s

def cmd_decr (env : Env) (argv : Args) (s : Store) : Reply × Store :=
  incr_by env (argv.getD 1 []) (-1) s

def cmd_incrby (env : Env) (argv : Args) (s : Store) : Reply × Store :=
  match parse_int64 (argv.getD 2 []) with
  | none => (.error kErrNotInteger, s)
  | some delta => incr_by env (argv.getD 1 []) delta s

/-- The negation of the smallest 64-bit integer does not fit. -/
def cmd_decrby (env : Env) (argv : Args) (s : Store) : Reply × Store :=
  match parse_int64 (argv.getD 2 []) with
  | none => (.error kErrNotInteger, s)
  | some delta =>
    if delta = int64_min then (.error (lit "ERR decrement would overflow"), s)
    else incr_by env (argv.getD 1 []) (-delta) s

/-! ## The EXPIRE family, TTL, PERSIST -/

/-- The four of them: a deadline that has passed is logged as DEL, any other as an absolute time. -/
def expire_generic (env : Env) (argv : Args) (unit_ms : Int) (relative : Bool) (name : String)
    (s : Store) : Reply × Store :=
  match parse_int64 (argv.getD 2 []) with
  | none => (.error kErrNotInteger, s)
  | some amount =>
    let n := s.now_ms
    match deadline_from (if relative then n.1 else 0) amount unit_ms with
    | none => (.error (invalid_expire name), n.2)
    | some when_ms =>
      let key := argv.getD 1 []
      let r := n.2.set_expire key when_ms
      if r.1 then
        (.integer 1, propagate_built env r.2
          (if when_ms ≤ n.1 then [lit "DEL", key] else [lit "PEXPIREAT", key, to_string when_ms]))
      else (.integer 0, r.2)

def cmd_expire (env : Env) (argv : Args) (s : Store) : Reply × Store :=
  expire_generic env argv 1000 true "expire" s

def cmd_pexpire (env : Env) (argv : Args) (s : Store) : Reply × Store :=
  expire_generic env argv 1 true "pexpire" s

def cmd_expireat (env : Env) (argv : Args) (s : Store) : Reply × Store :=
  expire_generic env argv 1000 false "expireat" s

def cmd_pexpireat (env : Env) (argv : Args) (s : Store) : Reply × Store :=
  expire_generic env argv 1 false "pexpireat" s

/-- Seconds, rounded to the nearest; the negative answers stay as they are. -/
def cmd_ttl (argv : Args) (s : Store) : Reply × Store :=
  let r := s.pttl (argv.getD 1 [])
  (.integer (if r.1 < 0 then r.1 else (r.1 + 500) / 1000), r.2)

def cmd_pttl (argv : Args) (s : Store) : Reply × Store :=
  let r := s.pttl (argv.getD 1 [])
  (.integer r.1, r.2)

def cmd_persist (argv : Args) (s : Store) : Reply × Store :=
  let r := s.persist (argv.getD 1 [])
  if r.1 then (.integer 1, r.2.propagate argv) else (.integer 0, r.2)

/-! ## RESTORE and MIGRATE -/

/-- The option loop of `cmd_restore`: `(replace, absttl)`. -/
def restore_options : List Bytes → Bool × Bool → Option (Bool × Bool)
  | [], o => some o
  | arg :: rest, o =>
    if to_upper arg = lit "REPLACE" then restore_options rest (true, o.2)
    else if to_upper arg = lit "ABSTTL" then restore_options rest (o.1, true)
    else none

/-- A TTL of 0 is none; a relative one that overflows is the largest time there is. -/
def restore_deadline (now ttl : Int) (absttl : Bool) : Option Int :=
  if ttl > 0 then some (if absttl then ttl else (deadline_from now ttl 1).getD int64_max) else none

/-- A value that is already due deletes the key instead of setting it. -/
def restore_into (env : Env) (key : Key) (value : Bytes) (ttl : Int) (absttl : Bool) (s : Store) :
    Reply × Store :=
  let n := s.now_ms
  let expire_at := restore_deadline n.1 ttl absttl
  if expire_at.any (· ≤ n.1) then
    let d := n.2.del key
    (.simple (lit "OK"), if d.1 then d.2.propagate [lit "DEL", key] else d.2)
  else
    let s := set_expire_opt (n.2.set key value false) key expire_at
    (.simple (lit "OK"), propagate_built env s (set_logged key value {expire_at}))

/-- RESTORE and RESTORE-ASKING: without REPLACE the key must be free, and the payload must
verify. -/
def cmd_restore (env : Env) (argv : Args) (s : Store) : Reply × Store :=
  match argv with
  | _ :: key :: ttl_text :: payload :: opts =>
    match restore_options opts (false, false) with
    | none => (.error kErrSyntax, s)
    | some (replace, absttl) =>
      match (parse_int64 ttl_text).filter (0 ≤ ·) with
      | none => (.error (lit "ERR Invalid TTL value, must be >= 0"), s)
      | some ttl =>
        let x := if replace then (false, s) else s.exists_key key
        if x.1 then (.error (lit "BUSYKEY Target key name already exists."), x.2)
        else match restore_value payload with
          | none => (.error (lit "ERR DUMP payload version or checksum are wrong"), x.2)
          | some value => restore_into env key value ttl absttl x.2
  | _ => (.nothing, s)

structure MigrateOptions where
  copy : Bool := false
  replace : Bool := false
  keys : List Key := []

/-- The option loop of `cmd_migrate`; KEYS takes the rest of the line. -/
def migrate_options (single : Key) : List Bytes → MigrateOptions → Except Bytes MigrateOptions
  | [], o => .ok o
  | arg :: rest, o =>
    if to_upper arg = lit "COPY" then migrate_options single rest { o with copy := true }
    else if to_upper arg = lit "REPLACE" then migrate_options single rest { o with replace := true }
    else if to_upper arg = lit "KEYS" then
      if single ≠ [] then
        .error (lit "ERR When using MIGRATE KEYS option, the key argument must be set to the empty string")
      else .ok { o with keys := rest }
    else .error kErrSyntax

/-- The RESTORE-ASKING commands for the keys that exist here, with their keys. -/
def migrate_request (replace : Bool) : List Key → Store → List (Key × Args) × Store
  | [], s => ([], s)
  | key :: keys, s =>
    let g := s.get key
    match g.1 with
    | none => migrate_request replace keys g.2
    | some value =>
      let p := g.2.pttl key
      let r := migrate_request replace keys p.2
      ((key, [lit "RESTORE-ASKING", key, to_string (if p.1 > 0 then p.1 else 0), dump_value value] ++
        (if replace then [lit "REPLACE"] else [])) :: r.1, r.2)

/-- One reply after the other: the first error with a text is remembered, a
confirmed key is deleted unless COPY was asked for. Returns the text (empty if there
is none) and the keys deleted. -/
def migrate_confirm (copy : Bool) : List (Bytes × Key) → Store → Bytes × List Key × Store
  | [], s => ([], [], s)
  | (reply, key) :: more, s =>
    if reply.head? = some 45 then
      let r := migrate_confirm copy more s
      (if reply.tail ≠ [] then reply.tail else r.1, r.2.1, r.2.2)
    else if copy then migrate_confirm copy more s
    else
      let d := s.del key
      let r := migrate_confirm copy more d.2
      (r.1, if d.1 then key :: r.2.1 else r.2.1, r.2.2)

/-- One exchange for all the keys. What the target confirmed is deleted here even if an
error follows. -/
def migrate_keys (env : Env) (host : Bytes) (port timeout : Int) (o : MigrateOptions)
    (keys : List Key) (s : Store) : Reply × Store :=
  let q := migrate_request o.replace keys s
  if q.1 = [] then (.simple (lit "NOKEY"), q.2)
  else
    let x := env.exchange host port (q.1.map Prod.snd) (if timeout > 0 then timeout else 1000)
    let c := migrate_confirm o.copy (x.1.zip (q.1.map Prod.fst)) q.2
    let s := if c.2.1 = [] then c.2.2 else c.2.2.propagate (lit "DEL" :: c.2.1)
    match x.2 with
    | some io_error => (.error io_error, s)
    | none =>
      if c.1 ≠ [] then
        (.error (lit "ERR Target instance replied with error: " ++ sanitize_for_error c.1), s)
      else (.simple (lit "OK"), s)

/-- MIGRATE, for the key given or those behind KEYS. -/
def cmd_migrate (env : Env) (argv : Args) (s : Store) : Reply × Store :=
  match argv with
  | _ :: host :: port_text :: single :: db_text :: timeout_text :: opts =>
    match (parse_int64 port_text).filter (fun p => 0 < p ∧ p ≤ 65535), parse_int64 db_text,
        parse_int64 timeout_text with
    | some port, some db, some timeout =>
      if db ≠ 0 then (.error (lit "ERR DB index is out of range"), s)
      else match migrate_options single opts {} with
        | .error e => (.error e, s)
        | .ok o => migrate_keys env host port timeout o (if o.keys = [] then [single] else o.keys) s
    | _, _, _ => (.error kErrNotInteger, s)
  | _ => (.nothing, s)

def cmd_dump (argv : Args) (s : Store) : Reply × Store :=
  let r := s.get (argv.getD 1 [])
  match r.1 with
  | some value => (.bulk (dump_value value), r.2)
  | none => (.null, r.2)

/-! ## The table -/

inductive Handler where
  | ping | echo | set | get | del | exists_keys | incr | decr | incrby | decrby
  | expire | pexpire | expireat | pexpireat | ttl | pttl | persist | dbsize
  | dump | restore | migrate
  | other
  deriving DecidableEq

/-- A row of the table: name, handler, arity, flags, and where the keys stand. -/
structure CommandSpec where
  name : String
  handler : Handler
  arity : Int
  write : Bool
  deny_oom : Bool
  asking : Bool
  first_key : Nat
  last_key : Int
  key_step : Nat

def table : List (String × CommandSpec) :=
  -- arity, kWrite, kDenyOom, kAsking, keys: first last step
  [("PING", ⟨"ping", .ping, -1, false, false, false, 0, 0, 0⟩),
   ("ECHO", ⟨"echo", .echo, 2, false, false, false, 0, 0, 0⟩),
   ("SET", ⟨"set", .set, -3, true, true, false, 1, 1, 1⟩),
   ("GET", ⟨"get", .get, 2, false, false, false, 1, 1, 1⟩),
   ("DEL", ⟨"del", .del, -2, true, false, false, 1, -1, 1⟩),
   ("EXISTS", ⟨"exists", .exists_keys, -2, false, false, false, 1, -1, 1⟩),
   ("INCR", ⟨"incr", .incr, 2, true, true, false, 1, 1, 1⟩),
   ("DECR", ⟨"decr", .decr, 2, true, true, false, 1, 1, 1⟩),
   ("INCRBY", ⟨"incrby", .incrby, 3, true, true, false, 1, 1, 1⟩),
   ("DECRBY", ⟨"decrby", .decrby, 3, true, true, false, 1, 1, 1⟩),
   ("EXPIRE", ⟨"expire", .expire, 3, true, false, false, 1, 1, 1⟩),
   ("PEXPIRE", ⟨"pexpire", .pexpire, 3, true, false, false, 1, 1, 1⟩),
   ("EXPIREAT", ⟨"expireat", .expireat, 3, true, false, false, 1, 1, 1⟩),
   ("PEXPIREAT", ⟨"pexpireat", .pexpireat, 3, true, false, false, 1, 1, 1⟩),
   ("TTL", ⟨"ttl", .ttl, 2, false, false, false, 1, 1, 1⟩),
   ("PTTL", ⟨"pttl", .pttl, 2, false, false, false, 1, 1, 1⟩),
   ("PERSIST", ⟨"persist", .persist, 2, true, false, false, 1, 1, 1⟩),
   ("DBSIZE", ⟨"dbsize", .dbsize, 1, false, false, false, 0, 0, 0⟩),
   ("SAVE", ⟨"save", .other, 1, false, false, false, 0, 0, 0⟩),
   ("BGSAVE", ⟨"bgsave", .other, 1, false, false, false, 0, 0, 0⟩),
   ("BGREWRITEAOF", ⟨"bgrewriteaof", .other, 1, false, false, false, 0, 0, 0⟩),
   ("LASTSAVE", ⟨"lastsave", .other, 1, false, false, false, 0, 0, 0⟩),
   ("REPLICAOF", ⟨"replicaof", .other, 3, false, false, false, 0, 0, 0⟩),
   ("SLAVEOF", ⟨"slaveof", .other, 3, false, false, false, 0, 0, 0⟩),
   ("REPLCONF", ⟨"replconf", .other, -3, false, false, false, 0, 0, 0⟩),
   ("PSYNC", ⟨"psync", .other, 3, false, false, false, 0, 0, 0⟩),
   ("WAIT", ⟨"wait", .other, 3, false, false, false, 0, 0, 0⟩),
   ("INFO", ⟨"info", .other, -1, false, false, false, 0, 0, 0⟩),
   ("DUMP", ⟨"dump", .dump, 2, false, false, false, 1, 1, 1⟩),
   ("RESTORE", ⟨"restore", .restore, -4, true, true, false, 1, 1, 1⟩),
   ("RESTORE-ASKING", ⟨"restore-asking", .restore, -4, true, true, true, 1, 1, 1⟩),
   ("MIGRATE", ⟨"migrate", .migrate, -6, true, false, false, 0, 0, 0⟩),
   ("CLUSTER", ⟨"cluster", .other, -2, false, false, false, 0, 0, 0⟩),
   ("ASKING", ⟨"asking", .other, 1, false, false, false, 0, 0, 0⟩),
   ("READONLY", ⟨"readonly", .other, 1, false, false, false, 0, 0, 0⟩),
   ("READWRITE", ⟨"readwrite", .other, 1, false, false, false, 0, 0, 0⟩)]

def find_command (upper : Bytes) : Option CommandSpec :=
  (table.find? fun e => lit e.1 = upper).map Prod.snd

/-- A negative arity is a least number of arguments. -/
def arity_ok (arity : Int) (argc : Nat) : Bool :=
  if arity ≥ 0 then argc = arity.toNat else argc ≥ (-arity).toNat

/-- `argv[first..last]`, every `step`-th; a negative `last` counts from the end. -/
def command_keys (spec : CommandSpec) (argv : Args) : List Key :=
  if spec.first_key = 0 then []
  else
    let last := if spec.last_key < 0 then argv.length + spec.last_key else spec.last_key
    (argv.zipIdx.filter fun a => spec.first_key ≤ a.2 ∧ (a.2 : Int) ≤ last ∧
      (a.2 - spec.first_key) % spec.key_step = 0).map Prod.fst

def run_handler (env : Env) (argv : Args) (s : Store) : Handler → Reply × Store
  | .ping =>
    (match argv.length with
      | 1 => .simple (lit "PONG")
      | 2 => .bulk (argv.getD 1 [])
      | _ => .error (lit "ERR wrong number of arguments for 'ping' command"), s)
  | .echo => (.bulk (argv.getD 1 []), s)
  | .set => cmd_set env argv s
  | .get => cmd_get argv s
  | .del => cmd_del argv s
  | .exists_keys => cmd_exists argv s
  | .incr => cmd_incr env argv s
  | .decr => cmd_decr env argv s
  | .incrby => cmd_incrby env argv s
  | .decrby => cmd_decrby env argv s
  | .expire => cmd_expire env argv s
  | .pexpire => cmd_pexpire env argv s
  | .expireat => cmd_expireat env argv s
  | .pexpireat => cmd_pexpireat env argv s
  | .ttl => cmd_ttl argv s
  | .pttl => cmd_pttl argv s
  | .persist => cmd_persist argv s
  | .dbsize => (.integer s.size, s)
  | .dump => cmd_dump argv s
  | .restore => cmd_restore env argv s
  | .migrate => cmd_migrate env argv s
  | .other => (env.other argv, s)

/-- Redirection: skipped for internal callers, for the master's stream and for
commands without keys. -/
def redirect (env : Env) (spec : CommandSpec) (argv : Args) (s : Store) : Option Bytes × Store :=
  match env.cluster, env.client with
  | some v, some c =>
    if c.is_master ∨ spec.first_key = 0 then (none, s)
    else route v (command_keys spec argv) spec.write (c.asking || spec.asking) c.readonly s
  | _, _ => (none, s)

/-- The checks between redirection and the handler, and the eviction. -/
def refuse (env : Env) (spec : CommandSpec) (s : Store) : Option Bytes × Store :=
  if spec.write ∧ env.from_master = false ∧ env.is_replica then (some kErrReadOnly, s)
  else if spec.write ∧ s.loading = false ∧ env.from_master = false ∧ env.write_error ≠ [] then
    (some env.write_error, s)
  else if spec.deny_oom ∧ s.loading = false ∧ env.from_master = false then
    let e := s.evict_if_needed
    (if e.1 then none else some kErrOom, e.2)
  else (none, s)

/-- `dispatch`: the first check that fails answers, and the handler has not run. -/
def dispatch (env : Env) (argv : Args) (s : Store) : Reply × Store :=
  match argv with
  | [] => (.nothing, s)
  | name :: _ =>
    match find_command (to_upper name) with
    | none => (.error (lit "ERR unknown command '" ++ sanitize_for_error name ++ lit "'"), s)
    | some spec =>
      if arity_ok spec.arity argv.length then
        let r := redirect env spec argv s
        match r.1 with
        | some e => (.error e, r.2)
        | none =>
          let a := refuse env spec r.2
          match a.1 with
          | some e => (.error e, a.2)
          | none => run_handler env argv a.2 spec.handler
      else (.error (lit "ERR wrong number of arguments for '" ++ lit spec.name ++
        lit "' command"), s)

end EpochKV.Commands

/-
The cluster client (`kvclient/cluster.py`): slots of keys, the key table, the slot
map, connections, and the batch loop `_execute`.

Whatever is outside the process is one function, `Network`, of the number of the call
that asks: whether a connection opens, whether an idle one was closed by its peer,
what becomes of a batch of commands that is sent, whether the deadline has passed.
A batch that is sent is received up to some command; each received command runs or
is refused and is answered with one value; of the bytes of these answers all or a
first part come back. So a connection is the bytes that will still arrive on it, and
a read that wants more is an `OSError`.

Exceptions are values of `Exn`. The code tells only three kinds apart: `OSError`,
`ReplyError` and the rest, and the rest is never caught. Results are results or
exceptions, as in the code. The counters `redirects` and `retries`, which nothing
reads, are left out, and so are the texts of exceptions.

`log` and `round` are not in the source: the commands as their nodes received them,
with the round of the loop that sent them.
-/
import EpochKV.Kvclient.Conn
import Mathlib.Data.List.Sort
import Mathlib.Logic.Function.Basic

set_option autoImplicit false

namespace EpochKV.Kvclient

open Text Resp

/-! ## Slots -/

def SLOTS : Nat := 16384

/-- `_crc16_table`; Python's integers do not wrap, so the mask comes last. -/
def crc16_entry (i : UInt8) : Nat :=
  (List.range 8).foldl
    (fun crc _ => if crc &&& 0x8000 ≠ 0 then (crc <<< 1) ^^^ 0x1021 else crc <<< 1)
    (i.toNat <<< 8) &&& 0xFFFF

def crc16 (data : Bytes) : Nat :=
  data.foldl (fun crc byte =>
    ((crc <<< 8) &&& 0xFFFF) ^^^ crc16_entry (UInt8.ofNat ((crc >>> 8) ^^^ byte.toNat))) 0

def key_slot (key : Bytes) : Nat :=
  let hashed :=
    match key.idxOf? 123 with
    | none => key
    | some start =>
      match (key.drop (start + 1)).idxOf? 125 with
      | none => key
      | some n => if 0 < n then (key.drop (start + 1)).take n else key
  crc16 hashed &&& (SLOTS - 1)

/-! ## Where a command's keys are -/

structure KeySpec where
  first : Nat
  /-- The last argument, for -1 in the source. -/
  last : Option Nat
  step : Nat
  is_write : Bool

/-- `_KEY_SPECS` -/
def key_specs : List (String × KeySpec) :=
  [("GET", ⟨1, some 1, 1, false⟩), ("TTL", ⟨1, some 1, 1, false⟩), ("PTTL", ⟨1, some 1, 1, false⟩),
   ("DUMP", ⟨1, some 1, 1, false⟩), ("EXISTS", ⟨1, none, 1, false⟩), ("SET", ⟨1, some 1, 1, true⟩),
   ("DEL", ⟨1, none, 1, true⟩), ("EXPIRE", ⟨1, some 1, 1, true⟩), ("PEXPIRE", ⟨1, some 1, 1, true⟩),
   ("EXPIREAT", ⟨1, some 1, 1, true⟩), ("PEXPIREAT", ⟨1, some 1, 1, true⟩),
   ("PERSIST", ⟨1, some 1, 1, true⟩), ("RESTORE", ⟨1, some 1, 1, true⟩)]

def keyless_reads : List String := ["PING", "ECHO", "DBSIZE", "INFO", "CLUSTER"]

def key_spec (name : Bytes) : Option KeySpec :=
  (key_specs.find? fun p => lit p.1 = name).map Prod.snd

/-- `args[first:last + 1:step]` -/
def slice (args : List Arg) (first last step : Nat) : List Arg :=
  (args.zipIdx.filter fun a => first ≤ a.2 ∧ a.2 ≤ last ∧ (a.2 - first) % step = 0).map Prod.fst

/-- The name in capitals; nothing where `args[0]` or its `decode()` raises. -/
def command_name (py : Python) (args : List Arg) : Option Bytes :=
  match args with
  | [] => none
  | .bytes b :: _ => if valid_utf8 b then some (py.upper b) else none
  | .text t :: _ => some (py.upper t)
  -- a lone surrogate is in no name of the tables
  | .surrogate :: _ => some [0xED]

/-- The keys of a command, and whether it is retried as a write. A command that is not
in the table has no keys. -/
def command_keys (py : Python) (args : List Arg) : Option (List Arg × Bool) :=
  (command_name py args).map fun name =>
    match key_spec name with
    | none => ([], !keyless_reads.any fun r => lit r = name)
    | some spec => (slice args spec.first (spec.last.getD (args.length - 1)) spec.step, spec.is_write)

/-- `_Cmd` as it is queued. -/
structure Queued where
  args : List Arg
  slot : Option Nat
  is_write : Bool
  deriving DecidableEq

/-- `Pipeline.call`; nothing where it raises. -/
def queue (py : Python) (args : List Arg) (key : Option Arg) : Option Queued :=
  (command_keys py args).bind fun (keys, is_write) =>
    let keys := match key with
      | none => keys
      | some k => [k]
    (keys.mapM Arg.encode).bind fun keys =>
      match (keys.map key_slot).dedup with
      | [] => some ⟨args, none, is_write⟩
      | [slot] => some ⟨args, some slot, is_write⟩
      -- CrossSlotError
      | _ => none

/-! ## Addresses and exceptions -/

/-- The second half of an address: a number, or what else a slot map named there. -/
inductive Port where
  | number (n : Int)
  | object (wire : Bytes)
  deriving DecidableEq

structure Addr where
  host : Bytes
  port : Port
  deriving DecidableEq

inductive Exn where
  | os_error
  /-- `ConnectionError("no known cluster node answers")` -/
  | no_node_answers
  | reply_error (line : Bytes)
  | too_many_redirects (args : List Arg)
  /-- `UncertainWriteError` -/
  | uncertain_write (addr : Addr) (name : Option Arg)
  /-- `ConnectionError("… not retried …")` -/
  | read_not_retried (addr : Addr) (name : Option Arg)
  /-- `ValueError`, `TypeError`, `IndexError`, `RecursionError` and so on. -/
  | other
  deriving DecidableEq

/-! ## The network -/

inductive Connect where
  | opened
  | os_error
  /-- `Conn(*addr)` raises something else, as for a port above 65535. -/
  | unusable
  deriving DecidableEq

/-- What a node does with a command it received. -/
structure Reaction where
  ran : Bool
  /-- Not every command is answered: a server is silent after REPLCONF ACK. -/
  answered : Bool
  reply : Value
  /-- When, among the commands of this round. -/
  rank : Nat

/-- What becomes of a batch. -/
structure Delivery where
  /-- `sendall` returns. -/
  sent : Bool
  /-- For the commands received, in order. -/
  reactions : List Reaction
  /-- How many bytes of the replies come back, if not all. -/
  arriving : Option Nat

structure Network where
  connect : Nat → Addr → Connect
  peer_closed : Nat → Addr → Bool
  deliver : Nat → Addr → List Args → Delivery
  /-- `time.monotonic() > deadline` -/
  expired : Nat → Bool

/-- A command as its node received it; `tag` is its index in the batch. -/
structure Receipt where
  tag : Option Nat
  frame : Args
  ran : Bool
  reply : Value
  round : Nat
  rank : Nat
  /-- Everything it was sent with was received and answered. -/
  whole : Bool

/-! ## Connections -/

structure Conn where
  /-- The bytes read and not used, and those still to come. -/
  unread : Bytes

/-- `ClusterClient` -/
structure Client where
  known : List Addr
  conns : Addr → Option Conn
  slots : List (Option Addr)
  max_redirects : Int
  tick : Nat := 0
  round : Nat := 0
  log : List Receipt := []

namespace Client

def learn (c : Client) (a : Addr) : Client :=
  if a ∈ c.known then c else { c with known := c.known ++ [a] }

def drop (c : Client) (a : Addr) : Client :=
  { c with
    conns := Function.update c.conns a none
    known := if a ∈ c.known ∧ 1 < c.known.length then c.known.erase a ++ [a] else c.known }

def set_unread (c : Client) (a : Addr) (rest : Bytes) : Client :=
  { c with conns := Function.update c.conns a (some ⟨rest⟩) }

def next_tick (c : Client) : Client := { c with tick := c.tick + 1 }

/-- Drops a cached connection that its peer has closed. -/
def check_idle (net : Network) (a : Addr) (c : Client) : Client :=
  if (c.conns a).isSome ∧ net.peer_closed c.tick a then (c.drop a).next_tick else c.next_tick

def conn (net : Network) (a : Addr) (c : Client) : Except Exn Unit × Client :=
  let c := c.check_idle net a
  if (c.conns a).isSome then (.ok (), c)
  else
    match net.connect c.tick a with
    | .opened => (.ok (), (c.set_unread a []).next_tick)
    | .os_error => (.error .os_error, c.next_tick)
    | .unusable => (.error .other, c.next_tick)

end Client

/-- The replies to the commands that were received. -/
def Delivery.replies (d : Delivery) (n : Nat) : List Value :=
  ((d.reactions.take n).filter Reaction.answered).map Reaction.reply

/-- The bytes of them that come back. -/
def Delivery.bytes (d : Delivery) (n : Nat) : Bytes :=
  match d.arriving with
  | none => render_all (d.replies n)
  | some k => (render_all (d.replies n)).take k

/-- The commands a batch is made of on the wire, each with its index. -/
abbrev Frames := List (Option Nat × Args)

/-- Every command was received, and every reply comes back. -/
def Delivery.complete (d : Delivery) (n : Nat) : Bool :=
  d.sent && decide (n ≤ d.reactions.length) && d.arriving.isNone

def receipts (round : Nat) (frames : Frames) (d : Delivery) : List Receipt :=
  List.zipWith (fun f r => ⟨f.1, f.2, r.ran, r.reply, round, r.rank, d.complete frames.length⟩)
    frames d.reactions

namespace Client

/-- `sendall` of commands that are encoded. -/
def send_frames (net : Network) (a : Addr) (frames : Frames) (c : Client) : Except Exn Unit × Client :=
  let d := net.deliver c.tick a (frames.map Prod.snd)
  let old := ((c.conns a).map Conn.unread).getD []
  let c := { c with log := c.log ++ receipts c.round frames d }
  let c := (c.set_unread a (old ++ d.bytes frames.length)).next_tick
  (if d.sent then .ok () else .error .os_error, c)

/-- Every command is encoded before anything is sent. -/
def send_many (net : Network) (a : Addr) (commands : List (Option Nat × List Arg)) (c : Client) :
    Except Exn Unit × Client :=
  match commands.mapM fun f => (encode f.2).map fun args => (f.1, args) with
  | none => (.error .other, c)
  | some frames => c.send_frames net a frames

def read_reply (py : Python) (a : Addr) (c : Client) : Except Exn Value × Client :=
  match c.conns a with
  | none => (.error .other, c)
  | some conn =>
    match Kvclient.read_reply py py.frames conn.unread with
    | .done v rest => (.ok v, c.set_unread a rest)
    | .short => (.error .os_error, c)
    | .raised rest => (.error .other, c.set_unread a rest)

/-! ## The slot map -/

end Client

/-- `(node[0].decode(), node[1])` -/
def node_addr : Value → Option Addr
  | .array (.bulk host :: port :: _) =>
    if valid_utf8 host then
      some ⟨host, match port with
        | .integer n => .number n
        | v => .object v.render⟩
    else none
  | _ => none

def load_nodes : List Value → Client → Except Exn Unit × Client
  | [], c => (.ok (), c)
  | node :: nodes, c =>
    match node_addr node with
    | none => (.error .other, c)
    | some a => load_nodes nodes (c.learn a)

/-- A slice index of Python on a list of `len` elements. -/
def clamp (len : Nat) (i : Int) : Nat := (max 0 (min (if i < 0 then i + len else i) len)).toNat

/-- `slots[start:end + 1] = [master] * (end - start + 1)` -/
def assign_range (slots : List (Option Addr)) (first last : Int) (master : Addr) : List (Option Addr) :=
  let lo := clamp slots.length first
  let hi := max lo (clamp slots.length (last + 1))
  slots.take lo ++ List.replicate (last - first + 1).toNat (some master) ++ slots.drop hi

def load_ranges : List Value → List (Option Addr) → Client →
    Except Exn (List (Option Addr)) × Client
  | [], slots, c => (.ok slots, c)
  | range :: ranges, slots, c =>
    match range with
    | .array (first :: last :: nodes) =>
      match load_nodes nodes c with
      | (.error e, c) => (.error e, c)
      | (.ok (), c) =>
        match nodes.head?.bind node_addr, first, last with
        | some master, .integer first, .integer last =>
          load_ranges ranges (assign_range slots first last master) c
        | _, _, _ => (.error .other, c)
    -- whatever else can be unpacked has no node to index
    | _ => (.error .other, c)

/-- `for … in ranges`: an empty text has nothing to unpack. -/
def iterate : Value → Option (List Value)
  | .array ranges => some ranges
  | .simple [] | .bulk [] => some []
  | _ => none

namespace Client

def load_map (v : Value) (c : Client) : Except Exn Unit × Client :=
  match iterate v with
  | none => (.error .other, c)
  | some ranges =>
    match load_ranges ranges (List.replicate SLOTS none) c with
    | (.error e, c) => (.error e, c)
    | (.ok slots, c) => (.ok (), { c with slots := slots })

/-- `self.conn(addr).call_raw("CLUSTER", "SLOTS")` -/
def slots_reply (py : Python) (net : Network) (a : Addr) (c : Client) : Except Exn Value × Client :=
  match c.conn net a with
  | (.error e, c) => (.error e, c)
  | (.ok (), c) =>
    match c.send_frames net a [(none, [lit "CLUSTER", lit "SLOTS"])] with
    | (.error e, c) => (.error e, c)
    | (.ok (), c) => c.read_reply py a

def standalone (line : Bytes) : Bool :=
  line.tails.any fun t => (lit "cluster support disabled").isPrefixOf t

def refresh_from (py : Python) (net : Network) : List Addr → Client → Except Exn Unit × Client
  | [], c => (.error .no_node_answers, c)
  | a :: more, c =>
    match c.slots_reply py net a with
    | (.error .os_error, c) => refresh_from py net more (c.drop a)
    | (.error e, c) => (.error e, c)
    | (.ok (.error line), c) =>
      if standalone line then (.ok (), { c with slots := List.replicate SLOTS (some a) })
      else refresh_from py net more (c.drop a)
    | (.ok v, c) => c.load_map v

def refresh (py : Python) (net : Network) (c : Client) : Except Exn Unit × Client :=
  c.refresh_from py net c.known

/-- `_owner`; a wrong guess costs one MOVED. -/
def owner (c : Client) (slot : Option Nat) : Option Addr :=
  match slot with
  | none => c.known.head?
  | some n =>
    match c.slots[n]? with
    | none => none
    | some none => c.known.head?
    | some (some a) => some a

/-- `_recover`: false once the retry budget is spent. -/
def recover (py : Python) (net : Network) (c : Client) : Except Exn Bool × Client :=
  if net.expired c.tick then (.ok false, c.next_tick)
  else
    match c.next_tick.refresh py net with
    | (.ok (), c) | (.error .no_node_answers, c) => (.ok true, c)
    | (.error e, c) => (.error e, c)

end Client

/-! ## A batch -/

/-- `_Cmd` -/
structure Cmd where
  args : List Arg
  slot : Option Nat
  is_write : Bool
  addr : Addr
  asking : Bool := false
  redirects : Nat := 0
  error : Option Exn := none

inductive Result where
  | pending
  | value (v : Value)
  | failed (e : Exn)

/-- `results[i] is _PENDING` -/
def Result.is_pending : Result → Bool
  | .pending => true
  | _ => false

structure Job where
  client : Client
  cmds : Nat → Cmd
  results : Nat → Result

namespace Job

def set_cmd (j : Job) (i : Nat) (c : Cmd) : Job := { j with cmds := Function.update j.cmds i c }

def set_result (j : Job) (i : Nat) (r : Result) : Job :=
  { j with results := Function.update j.results i r }

/-! ### One reply -/

/-- `str(r).partition(" ")` -/
def partition (line : Bytes) : Bytes × Bytes :=
  (line.takeWhile (· ≠ 32), (line.dropWhile (· ≠ 32)).drop 1)

/-- `rsplit(":", 1)`: at the last colon. -/
def parse_addr (py : Python) (s : Bytes) : Option Addr :=
  if 58 ∈ s then
    let port := (s.reverse.takeWhile (· ≠ 58)).reverse
    let host := ((s.reverse.dropWhile (· ≠ 58)).drop 1).reverse
    (py.int_of port).map fun n => ⟨host, .number n⟩
  else none

/-- `moved_slot, target = rest.split()` and the address. -/
def parse_redirect (py : Python) (rest : Bytes) : Option (Bytes × Addr) :=
  match py.split rest with
  | [slot, target] => (parse_addr py target).map fun a => (slot, a)
  | _ => none

/-- An index of Python on a list of `len` elements, from its end if negative. -/
def index (len : Nat) (i : Int) : Option Nat :=
  if 0 ≤ i ∧ i < len then some i.toNat
  else if i < 0 ∧ -len ≤ i then some (i + len).toNat
  else none

/-- `self.slots[int(moved_slot)] = target` -/
def set_owner (py : Python) (c : Client) (slot : Bytes) (a : Addr) : Option Client :=
  (py.int_of slot).bind fun i =>
    (index c.slots.length i).map fun n => { c with slots := c.slots.set n (some a) }

inductive Kind where
  | moved
  | ask
  | tryagain
  | clusterdown
  deriving DecidableEq

/-- The error replies after which a command is sent again. -/
def refusal (line : Bytes) : Option Kind :=
  let kind := (partition line).1
  if kind = lit "MOVED" then some .moved
  else if kind = lit "ASK" then some .ask
  else if kind = lit "TRYAGAIN" then some .tryagain
  else if kind = lit "CLUSTERDOWN" then some .clusterdown
  else none

/-- A MOVED or an ASK: where to go, and for a MOVED the map. -/
def follow (py : Python) (j : Job) (i : Nat) (line : Bytes) (asking : Bool) : Except Exn Bool × Job :=
  let cmd := { j.cmds i with redirects := (j.cmds i).redirects + 1 }
  let j := j.set_cmd i cmd
  if j.client.max_redirects < cmd.redirects then
    (.ok false, j.set_result i (.failed (.too_many_redirects cmd.args)))
  else
    match parse_redirect py (partition line).2 with
    | none => (.error .other, j)
    | some (slot, target) =>
      let j := { j with client := j.client.learn target }
      let sent := j.set_cmd i { cmd with addr := target, asking := asking }
      if asking then (.ok true, sent)
      else
        match set_owner py j.client slot target with
        | none => (.error .other, j)
        | some c => (.ok true, { sent with client := c })

/-- `_handle`: true if the command must be sent again. -/
def handle (py : Python) (j : Job) (i : Nat) : Value → Except Exn Bool × Job
  | .error line =>
    match refusal line with
    | some .moved => j.follow py i line false
    | some .ask => j.follow py i line true
    | some .tryagain | some .clusterdown =>
      (.ok true, j.set_cmd i { j.cmds i with error := some (.reply_error line) })
    | none => (.ok false, j.set_result i (.failed (.reply_error line)))
  | v => (.ok false, j.set_result i (.value v))

/-! ### A connection that was lost -/

/-- `_lost` over the commands from the last to the first; `uncertain` holds the slots of
the writes seen so far. The exceptions print the port as a number. -/
def lost (a : Addr) : List (Option Nat) → List Nat → Job → Except Exn (List Nat) × Job
  | _, [], j => (.ok [], j)
  | uncertain, i :: before, j =>
    let c := j.cmds i
    let fail (e : Exn) (uncertain : List (Option Nat)) : Except Exn (List Nat) × Job :=
      match a.port with
      | .number _ => lost a uncertain before (j.set_result i (.failed e))
      | .object _ => (.error .other, j)
    if c.is_write then fail (.uncertain_write a c.args.head?) (c.slot :: uncertain)
    else if c.slot ∈ uncertain then fail (.read_not_retried a c.args.head?) uncertain
    else
      match lost a uncertain before (j.set_cmd i { c with error := some .os_error }) with
      | (.ok retry, j) => (.ok (i :: retry), j)
      | (.error e, j) => (.error e, j)

def drop_lost (a : Addr) (idxs : List Nat) (j : Job) : Except Exn (List Nat) × Job :=
  lost a [] idxs.reverse { j with client := j.client.drop a }

/-! ### The rounds of the loop -/

/-- `groups.setdefault(addr, []).append(i)` -/
def add_group (a : Addr) (i : Nat) : List (Addr × List Nat) → List (Addr × List Nat)
  | [] => [(a, [i])]
  | (b, idxs) :: more => if b = a then (b, idxs ++ [i]) :: more else (b, idxs) :: add_group a i more

def groups (addr : Nat → Addr) (pending : List Nat) : List (Addr × List Nat) :=
  pending.foldl (fun g i => add_group (addr i) i g) []

/-- The commands of a group on the wire: ASKING before those that need it. -/
def frames (cmds : Nat → Cmd) (idxs : List Nat) : List (Option Nat × List Arg) :=
  idxs.flatMap fun i =>
    (if (cmds i).asking then [(none, [Arg.text (lit "ASKING")])] else []) ++ [(some i, (cmds i).args)]

/-- `cmds[i].error = e` for each of them. -/
def set_errors (e : Option Exn) (idxs : List Nat) (j : Job) : Job :=
  { j with cmds := fun i => if i ∈ idxs then { j.cmds i with error := e } else j.cmds i }

/-- The commands of one node. Nothing is returned once they are sent, else those to
retry: all if there was no connection, and what `_lost` says if it broke. -/
def send_group (net : Network) (a : Addr) (idxs : List Nat) (j : Job) :
    Except Exn (Option (List Nat)) × Job :=
  match j.client.conn net a with
  | (.error .os_error, c) =>
    (.ok (some idxs), set_errors (some .os_error) idxs { j with client := c.drop a })
  | (.error e, c) => (.error e, { j with client := c })
  | (.ok (), c) =>
    match c.send_many net a (frames j.cmds idxs) with
    | (.error .os_error, c) =>
      match drop_lost a idxs { j with client := c } with
      | (.error e, j) => (.error e, j)
      | (.ok back, j) => (.ok (some back), j)
    | (.error e, c) => (.error e, { j with client := c })
    | (.ok (), c) => (.ok none, { j with client := c })

/-- Every node gets its commands before any reply is read. Returns the commands to
retry and the groups that were sent. -/
def send_groups (net : Network) : List (Addr × List Nat) → Job →
    Except Exn (List Nat × List (Addr × List Nat)) × Job
  | [], j => (.ok ([], []), j)
  | (a, idxs) :: more, j =>
    match send_group net a idxs j with
    | (.error e, j) => (.error e, j)
    | (.ok back, j) =>
      match send_groups net more j with
      | (.error e, j) => (.error e, j)
      | (.ok (retry, sent), j) =>
        match back with
        | some back => (.ok (back ++ retry, sent), j)
        | none => (.ok (retry, (a, idxs) :: sent), j)

/-- The reply to command `i`, after the one to its ASKING. -/
def next_reply (py : Python) (a : Addr) (i : Nat) (j : Job) : Except Exn Value × Client :=
  if (j.cmds i).asking then
    match j.client.read_reply py a with
    | (.error e, c) => (.error e, c)
    | (.ok _, c) => c.read_reply py a
  else j.client.read_reply py a

/-- The replies of one connection; the commands left when it fails are lost. -/
def read_replies (py : Python) (a : Addr) : List Nat → Job → Except Exn (List Nat) × Job
  | [], j => (.ok [], j)
  | i :: more, j =>
    match j.next_reply py a i with
    | (.error .os_error, c) => drop_lost a (i :: more) { j with client := c }
    | (.error e, c) => (.error e, { j with client := c })
    | (.ok v, c) =>
      match handle py { j with client := c } i v with
      | (.error e, j) => (.error e, j)
      | (.ok again, j) =>
        match read_replies py a more j with
        | (.ok retry, j) => (.ok (if again then i :: retry else retry), j)
        | (.error e, j) => (.error e, j)

def read_groups (py : Python) : List (Addr × List Nat) → Job → Except Exn (List Nat) × Job
  | [], j => (.ok [], j)
  | (a, idxs) :: more, j =>
    match read_replies py a idxs j with
    | (.error e, j) => (.error e, j)
    | (.ok back, j) =>
      match read_groups py more j with
      | (.ok retry, j) => (.ok (back ++ retry), j)
      | (.error e, j) => (.error e, j)

def waiting (j : Job) (retry : List Nat) : List Nat := retry.filter fun i => (j.cmds i).error.isSome

/-- `cmds[i].addr, cmds[i].asking = self._owner(cmds[i].slot), False` -/
def reroute : List Nat → Job → Except Exn Unit × Job
  | [], j => (.ok (), j)
  | i :: more, j =>
    match j.client.owner (j.cmds i).slot with
    | none => (.error .other, j)
    | some a => reroute more (j.set_cmd i { j.cmds i with addr := a, asking := false })

/-- `results[i] = cmds[i].error` -/
def give_up (j : Job) (idxs : List Nat) : Job :=
  { j with results := fun i =>
      if i ∈ idxs then
        match (j.cmds i).error with
        | some e => .failed e
        | none => j.results i
      else j.results i }

/-- The errors that need the cluster to settle share one wait. -/
def settle (py : Python) (net : Network) (retry : List Nat) (j : Job) : Except Exn (List Nat) × Job :=
  let wait := j.waiting retry
  if wait = [] then (.ok (retry.insertionSort (· ≤ ·)), j)
  else
    match j.client.recover py net with
    | (.error e, c) => (.error e, { j with client := c })
    | (.ok true, c) =>
      match reroute wait { j with client := c } with
      | (.error e, j) => (.error e, j)
      | (.ok (), j) => (.ok (retry.insertionSort (· ≤ ·)), j)
    | (.ok false, c) =>
      let j := give_up { j with client := c } wait
      (.ok ((retry.filter fun i => (j.results i).is_pending).insertionSort (· ≤ ·)), j)

def begin_round (pending : List Nat) (j : Job) : Job :=
  set_errors none pending { j with client := { j.client with round := j.client.round + 1 } }

/-- Sends every group, then reads every group: the commands to retry. -/
def exchange (py : Python) (net : Network) (pending : List Nat) (j : Job) : Except Exn (List Nat) × Job :=
  match send_groups net (groups (fun i => (j.cmds i).addr) pending) j with
  | (.error e, j) => (.error e, j)
  | (.ok (unsent, sent), j) =>
    match read_groups py sent j with
    | (.error e, j) => (.error e, j)
    | (.ok refused, j) => (.ok (unsent ++ refused), j)

/-- One pass of `while pending`: the commands that are left. -/
def round (py : Python) (net : Network) (pending : List Nat) (j : Job) : Except Exn (List Nat) × Job :=
  match exchange py net pending (j.begin_round pending) with
  | (.error e, j) => (.error e, j)
  | (.ok retry, j) => settle py net retry j

inductive Status where
  | running
  | returned
  | raised (e : Exn)
  deriving DecidableEq

/-- `while pending`, for at most so many rounds. -/
def run (py : Python) (net : Network) : Nat → List Nat → Job → Status × Job
  | _, [], j => (.returned, j)
  | 0, _ :: _, j => (.running, j)
  | fuel + 1, i :: more, j =>
    match round py net (i :: more) j with
    | (.error e, j) => (.raised e, j)
    | (.ok pending, j) => run py net fuel pending j

end Job

/-- `ClusterClient.__init__` before its `refresh`. -/
def Client.new (seed : Addr) (max_redirects : Int) : Client :=
  { known := [seed]
    conns := fun _ => none
    slots := List.replicate SLOTS none
    max_redirects := max_redirects }

def Client.close (c : Client) : Client := { c with conns := fun _ => none }

/-! ## `_execute` -/

def Queued.start (q : Queued) (a : Addr) : Cmd :=
  { args := q.args, slot := q.slot, is_write := q.is_write, addr := a }

/-- The commands as they set out; nothing where `_owner` raises. -/
def Client.start (c : Client) (batch : List Queued) : Option (List Cmd) :=
  batch.mapM fun q => (c.owner q.slot).map q.start

def nobody : Addr := ⟨[], .number 0⟩

def no_command : Cmd := { args := [], slot := none, is_write := true, addr := nobody }

/-- The loop state of a batch; the log is that of this batch. -/
def Client.job (c : Client) (cmds : List Cmd) : Job :=
  { client := { c with log := [] }
    cmds := fun i => cmds.getD i no_command
    results := fun _ => .pending }

/-- `_execute`, for at most `fuel` rounds. -/
def execute (py : Python) (net : Network) (fuel : Nat) (c : Client) (batch : List Queued) :
    Job.Status × Job :=
  match c.start batch with
  | none => (.raised .other, c.job [])
  | some cmds => Job.run py net fuel (List.range batch.length) (c.job cmds)

end EpochKV.Kvclient

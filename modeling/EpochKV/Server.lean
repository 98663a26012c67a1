/-
Connections (`server.cpp`, and the parts of `replication.cpp` that park and resume them).

A command that was read may have to wait, and everything the client sent after it waits
behind it: WAIT parks the client until enough replicas have acknowledged, its time is up or
the node's role changes, and while writes are paused a write is held outside the parser's
buffer. Execution then goes on from four places: new input (`handle_readable`), the waiters
that are done (`unblock_waiters`), a change of role (`to_resume`) and the end of a pause
(`resume_held_clients`).

What a command does to the rest of the process (the store, the stream to the replicas, the
cluster) is not looked into: `Host.dispatch` says what it answers and which of the things
that matter here it does besides, and the rest is a state of any type.

A client is known by its descriptor. The fields `input`, `executed`, `parked`, `replies` and
`sent` are no part of the program: they record what was read from the connection, which
commands were dispatched, which of them WAIT has parked, what was answered to which command
and which bytes of that have left.
-/
import Mathlib.Logic.Function.Basic
import EpochKV.Parser

set_option autoImplicit false

namespace EpochKV

open Text Resp

namespace Server

abbrev Fd := Nat

/-- Milliseconds of the steady clock. -/
abbrev Time := Int

def kMaxQueryBufferBytes : Nat := 64 * 1024 * 1024

def kMaxOutputBufferBytes : Nat := 64 * 1024 * 1024

/-! ## Clients -/

/-- `is_master`, and whether `repl_state` is other than `kNone`. -/
inductive Role where
  | ordinary
  | master
  | replica
  deriving DecidableEq

structure Client where
  role : Role := .ordinary
  /-- What the parser has not consumed. -/
  buffer : Bytes := []
  /-- What is not yet sent. -/
  out : Bytes := []
  close_after_flush : Bool := false
  closing : Bool := false
  /-- Parked by WAIT. -/
  blocked : Bool := false
  /-- A write that waits for the end of a pause. -/
  held_command : Option Args := none
  /-- The offset of the client's last write. -/
  woff : Nat := 0
  input : Bytes := []
  executed : List Args := []
  parked : Option Args := none
  replies : List (Args × Bytes) := []
  sent : Bytes := []
  deriving DecidableEq

/-- What the loop of `process_input` finds at its head: nothing that it may run, bytes that
are no command, or a command, with its bytes and the client it was taken from. -/
inductive Turn where
  | stop
  | broken
  | run (command : Args) (raw : Bytes) (c : Client)

namespace Client

def feed (c : Client) (data : Bytes) : Client :=
  { c with buffer := c.buffer ++ data, input := c.input ++ data }

def turn (writes_paused : Bool) (c : Client) : Turn :=
  if c.blocked || c.close_after_flush || c.closing then .stop
  else
    match c.held_command with
    | some command =>
      -- nothing behind it may overtake it
      if writes_paused then .stop else .run command [] { c with held_command := none }
    | none =>
      let result := Parser.call c.buffer
      match result.status with
      | .incomplete => .stop
      | .protocol_error => .broken
      | .complete => .run result.command result.raw { c with buffer := result.buffer }

/-- What is left for the loop: it goes down with every command that is taken. -/
def work (c : Client) : Nat :=
  c.buffer.length + c.held_command.toList.length

/-- A command that was dispatched and wrote `reply`. What a master or a replica would be
answered is discarded. -/
def answered (c : Client) (command : Args) (reply : Bytes) : Client :=
  { c with
    out := if c.role = .ordinary then c.out ++ reply else c.out
    executed := c.executed ++ [command]
    replies := c.replies ++ [(command, reply)] }

/-- A WAIT that was dispatched and found too few replicas. -/
def park (c : Client) (command : Args) : Client :=
  { c with blocked := true, executed := c.executed ++ [command], parked := some command }

/-- The end of that WAIT. -/
def unpark (c : Client) (reply : Bytes) : Client :=
  { c with
    out := c.out ++ reply
    blocked := false
    parked := none
    replies := c.replies ++ c.parked.toList.map (·, reply) }

/-- An error after which nothing more is read. -/
def give_up (c : Client) (error : Bytes) : Client :=
  { c with out := c.out ++ Resp.error error, close_after_flush := true }

end Client

/-! ## The rest of the process -/

/-- What a command comes to: bytes it writes, or a call of `Replication::wait`. -/
inductive Answer where
  | reply (out : Bytes)
  | wait (numreplicas timeout_ms : Int)

/-- What a command does, as far as it is seen here. None of them pauses writes. -/
structure Outcome (Ω : Type) where
  answer : Answer
  /-- It was PSYNC, and the connection is a replica's from now on. -/
  attach : Bool
  /-- It went through `Replication::replicaof`. -/
  role_change : Bool
  /-- It went through `set_writes_paused(false)`. -/
  unpause : Bool
  /-- Connections that it closes. -/
  close : List Fd
  rest : Ω

structure Host (Ω : Type) where
  /-- `CommandDispatcher::dispatch`. For a command of our master its bytes are given, and
  `master_command_applied` is a part of it. -/
  dispatch : Ω → Fd → Args → Option Bytes → Outcome Ω
  is_write : Args → Bool
  /-- `Replication::offset`, 0 without replication. -/
  offset : Ω → Nat
  is_replica : Ω → Bool
  acked_replicas : Ω → Nat → Int
  now : Ω → Time
  /-- Sets `get_ack_pending_`. -/
  want_ack : Ω → Ω
  /-- The GETACK of `before_sleep`. -/
  get_ack : Ω → Ω

structure Waiter where
  client : Fd
  offset : Nat
  numreplicas : Int
  deadline : Option Time
  deriving DecidableEq

end Server

structure Server (Ω : Type) where
  rest : Ω
  conns : Server.Fd → Option Server.Client
  pending_close : List Server.Fd
  writes_paused : Bool
  /-- A pause has ended, and the clients it held are to be resumed. -/
  resume_held : Bool
  held_clients : List Server.Fd
  waiters : List Server.Waiter
  /-- Clients that a change of role has unblocked. -/
  to_resume : List Server.Fd

namespace Server

variable {Ω : Type}

def start (rest : Ω) : Server Ω where
  rest := rest
  conns := fun _ => none
  pending_close := []
  writes_paused := false
  resume_held := false
  held_clients := []
  waiters := []
  to_resume := []

def put (s : Server Ω) (fd : Fd) (c : Client) : Server Ω :=
  { s with conns := Function.update s.conns fd (some c) }

def mark_closing (s : Server Ω) (fd : Fd) : Server Ω :=
  match s.conns fd with
  | none => s
  | some c =>
    if c.closing then s
    else { s.put fd { c with closing := true } with pending_close := s.pending_close ++ [fd] }

def set_writes_paused (s : Server Ω) (paused : Bool) : Server Ω :=
  if paused = s.writes_paused then s
  else { s with writes_paused := paused, resume_held := !paused }

def unpark (s : Server Ω) (fd : Fd) (reply : Bytes) : Server Ω :=
  match s.conns fd with
  | none => s
  | some c => s.put fd (c.unpark reply)

/-! ## Changes of role -/

def unblocked : Bytes := Resp.error (lit
  "UNBLOCKED force unblock from blocking operation, instance state changed (master -> replica?)")

/-- One round of the loop of `Replication::replicaof`. -/
def release (s : Server Ω) (fd : Fd) : Server Ω :=
  let s := s.unpark fd unblocked
  { s with to_resume := s.to_resume ++ [fd] }

/-- What `Replication::replicaof` does to the clients that wait. -/
def role_changed (s : Server Ω) : Server Ω :=
  (s.waiters.map Waiter.client).foldl release { s with waiters := [] }

/-! ## Commands -/

/-- What a command, or something else, does besides. -/
def besides (s : Server Ω) (role_change : Bool) (pause : Option Bool) (close : List Fd) : Server Ω :=
  let s := if role_change then s.role_changed else s
  let s := match pause with
    | none => s
    | some paused => s.set_writes_paused paused
  close.foldl mark_closing s

/-- `Replication::wait`: the reply, unless the client is to be parked. -/
def wait (host : Host Ω) (rest : Ω) (woff : Nat) (numreplicas : Int) : Option Bytes :=
  if host.is_replica rest then
    some (Resp.error (lit "ERR WAIT cannot be used with replica instances"))
  else if numreplicas ≤ host.acked_replicas rest woff then
    some (Resp.integer (host.acked_replicas rest woff))
  else none

def deadline (host : Host Ω) (rest : Ω) (timeout_ms : Int) : Option Time :=
  if 0 < timeout_ms then some (host.now rest + timeout_ms) else none

/-- The client after its command: WAIT counts from its last write, and PSYNC makes it a
replica. -/
def Client.settle (c : Client) (before after : Nat) (attach : Bool) : Client :=
  { c with
    woff := if c.role = .ordinary ∧ after ≠ before then after else c.woff
    role := if attach then .replica else c.role }

/-- What the command `o` comes to for the client it is from. `before` is the offset it was
dispatched at. -/
def answer (host : Host Ω) (s : Server Ω) (fd : Fd) (c : Client) (command : Args) (o : Outcome Ω)
    (before : Nat) : Server Ω :=
  let settled (c : Client) := c.settle before (host.offset s.rest) o.attach
  match o.answer with
  | .reply out => s.put fd (settled (c.answered command out))
  | .wait numreplicas timeout_ms =>
    match wait host s.rest c.woff numreplicas with
    | some out => s.put fd (settled (c.answered command out))
    | none =>
      { s.put fd (settled (c.park command)) with
        waiters := s.waiters ++ [⟨fd, c.woff, numreplicas, deadline host s.rest timeout_ms⟩]
        rest := host.want_ack s.rest }

/-- One command, of a client that it was taken from. -/
def execute (host : Host Ω) (s : Server Ω) (fd : Fd) (c : Client) (command : Args)
    (raw : Bytes) : Server Ω :=
  let o := host.dispatch s.rest fd command (if c.role = .master then some raw else none)
  let done := { s.put fd c with rest := o.rest }.besides o.role_change
    (if o.unpause then some false else none) o.close
  match done.conns fd with
  | none => done
  | some c => answer host done fd c command o (host.offset s.rest)

/-- A write that waits for the end of the pause. -/
def hold (s : Server Ω) (fd : Fd) (c : Client) (command : Args) : Server Ω :=
  { s.put fd { c with held_command := some command } with held_clients := s.held_clients ++ [fd] }

/-! ## The loop -/

/-- The loop of `process_input`, up to the first round that runs no command. -/
def process_loop (host : Host Ω) : Nat → Server Ω → Fd → Server Ω
  | 0, s, _ => s
  | fuel + 1, s, fd =>
    match (s.conns fd).map (Client.turn s.writes_paused) with
    | some (.run command raw c) =>
      if c.role = .ordinary ∧ s.writes_paused ∧ host.is_write command then s.hold fd c command
      else process_loop host fuel (s.execute host fd c command raw) fd
    | _ => s

/-- How `process_input` ends: an error that breaks the framing is found by the loop's last
round, and the length of the buffer is looked at after the loop. -/
def finish (s : Server Ω) (fd : Fd) : Server Ω :=
  match s.conns fd with
  | none => s
  | some c =>
    match c.turn s.writes_paused with
    | .broken =>
      if c.role = .master then s.mark_closing fd
      else s.put fd (c.give_up (lit "ERR Protocol error"))
    | _ =>
      if c.close_after_flush = false ∧ kMaxQueryBufferBytes < c.buffer.length then
        s.put fd (c.give_up (lit "ERR Protocol error: query buffer limit exceeded"))
      else s

def process_input (host : Host Ω) (s : Server Ω) (fd : Fd) : Server Ω :=
  match s.conns fd with
  | none => s
  | some c => (process_loop host (c.work + 1) s fd).finish fd

def process_buffered (host : Host Ω) (s : Server Ω) (fd : Fd) : Server Ω :=
  match s.conns fd with
  | none => s
  | some c => if c.closing then s else process_input host s fd

/-- `read` gave bytes, or nothing more is to come. -/
def handle_readable (host : Host Ω) (s : Server Ω) (fd : Fd) (data : Option Bytes) : Server Ω :=
  match s.conns fd with
  | none => s
  | some c =>
    if c.closing then s
    else
      match data with
      | none => s.mark_closing fd
      | some data =>
        if c.close_after_flush then s else process_input host (s.put fd (c.feed data)) fd

/-! ## Resuming -/

/-- One round of the loop of `resume_held_clients`. -/
def resume_one (host : Host Ω) (s : Server Ω) (fd : Fd) : Server Ω :=
  match s.conns fd with
  | none => s
  | some c =>
    if c.held_command.isSome ∧ c.closing = false then process_input host s fd else s

def resume_held_clients (host : Host Ω) (s : Server Ω) : Server Ω :=
  s.held_clients.foldl (resume_one host) { s with resume_held := false, held_clients := [] }

def Waiter.done (host : Host Ω) (rest : Ω) (w : Waiter) : Bool :=
  w.numreplicas ≤ host.acked_replicas rest w.offset ||
    w.deadline.any (· ≤ host.now rest)

/-- The second loop of `unblock_waiters`, for one client and the count it is told. -/
def unblock_one (host : Host Ω) (s : Server Ω) (done : Fd × Int) : Server Ω :=
  process_buffered host (s.unpark done.1 (integer done.2)) done.1

def unblock_waiters (host : Host Ω) (s : Server Ω) : Server Ω :=
  let done := s.waiters.filter (Waiter.done host s.rest)
  (done.map fun w => (w.client, host.acked_replicas s.rest w.offset)).foldl (unblock_one host)
    { s with waiters := s.waiters.filter fun w => !w.done host s.rest }

def before_sleep (host : Host Ω) (s : Server Ω) : Server Ω :=
  let s := s.to_resume.foldl (process_buffered host) { s with to_resume := [] }
  unblock_waiters host { s with rest := host.get_ack s.rest }

/-! ## Connections that come and go -/

/-- The kernel gives a descriptor that is not in use. -/
def add_client (s : Server Ω) (fd : Fd) (c : Client) : Server Ω :=
  if s.conns fd = none then s.put fd c else s

/-- `adopt_master`, and the `process_buffered` that follows it. -/
def adopt_master (host : Host Ω) (s : Server Ω) (fd : Fd) (pending : Bytes) : Server Ω :=
  if s.conns fd = none then
    process_buffered host (s.put fd (Client.feed { role := .master } pending)) fd
  else s

/-- `send` took so many bytes, or failed. -/
def flush (s : Server Ω) (fd : Fd) (count : Option Nat) : Server Ω :=
  match s.conns fd with
  | none => s
  | some c =>
    if c.closing then s
    else
      match count with
      | none => s.mark_closing fd
      | some n =>
        let s := s.put fd { c with out := c.out.drop n, sent := c.sent ++ c.out.take n }
        if c.out.drop n = [] then
          if c.close_after_flush then s.mark_closing fd else s
        else if c.role ≠ .replica ∧ kMaxOutputBufferBytes < (c.out.drop n).length then
          s.mark_closing fd
        else s

/-- One round of the loop of `close_pending`, `client_closed` included. -/
def close_one (s : Server Ω) (fd : Fd) : Server Ω :=
  if s.conns fd = none then s
  else
    { s with
      conns := Function.update s.conns fd none
      waiters := s.waiters.filter (·.client ≠ fd)
      to_resume := s.to_resume.filter (· ≠ fd)
      held_clients := s.held_clients.filter (· ≠ fd) }

def close_pending (s : Server Ω) : Server Ω :=
  { s.pending_close.foldl close_one s with pending_close := [] }

/-! ## Runs -/

/-- What the event loop does, in pieces. The loop calls them in a fixed order; here they come
in any. -/
inductive Step (Ω : Type) where
  | accept (fd : Fd)
  | adopt_master (fd : Fd) (pending : Bytes)
  | readable (fd : Fd) (data : Option Bytes)
  /-- What is not a client's command: the cluster bus, the link to our master, the timers. -/
  | outside (role_change : Bool) (pause : Option Bool) (close : List Fd) (rest : Ω)
  | cron
  | resume_held
  | before_sleep
  | flush (fd : Fd) (count : Option Nat)
  | close_pending

def step (host : Host Ω) (s : Server Ω) : Step Ω → Server Ω
  | .accept fd => s.add_client fd {}
  | .adopt_master fd pending => adopt_master host s fd pending
  | .readable fd data => handle_readable host s fd data
  | .outside role_change pause close rest =>
    { s with rest := rest }.besides role_change pause close
  | .cron => unblock_waiters host s
  | .resume_held => if s.resume_held then resume_held_clients host s else s
  | .before_sleep => before_sleep host s
  | .flush fd count => s.flush fd count
  | .close_pending => s.close_pending

def run (host : Host Ω) (rest : Ω) (steps : List (Step Ω)) : Server Ω :=
  steps.foldl (step host) (start rest)

end Server

end EpochKV

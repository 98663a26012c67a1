/-
Failover: a replica's election, a master's vote, and manual failovers.

`handle_replica_failover` runs from the cron and after every relevant message. On
each run it does at most one thing: schedule an election, ask for votes, or take
the master's place. `election_turn` is that decision, `handle_replica_failover`
carries it out. The reasons it logs for doing nothing are left out.
-/
import EpochKV.Bus

set_option autoImplicit false

namespace EpochKV

open Commands

namespace Cluster

/-! ## The replica's side -/

def auth_timeout (c : Cluster) : Nat := max (c.options.node_timeout * 2) kMinAuthTimeout

def auth_retry_time (c : Cluster) : Nat := c.auth_timeout * 2

/-- The siblings that have applied more of the master's stream than we have. -/
def replica_rank (env : Env) (c : Cluster) : Nat :=
  match c.table.lookup_master c.myself with
  | none => 0
  | some master =>
    (c.table.known.filter fun id =>
      let n := c.table.node id
      id ≠ c.myself ∧ n.replica ∧ n.master_id = some master ∧ ¬ n.fail ∧ env.offset < n.repl_offset).length

/-- A manual failover is under way and may start its election. -/
def manual_ready (c : Cluster) : Bool := c.manual.mf_end.isSome ∧ c.manual.can_start

/-- Our copy of the master's data is too stale to promote. -/
def data_too_old (env : Env) (c : Cluster) : Bool :=
  let age := env.now - env.master_last_contact
  let age := if c.options.node_timeout < age then age - c.options.node_timeout else age
  0 < c.options.replica_validity_factor ∧ ¬ c.manual_ready ∧
    env.ping_period + c.options.node_timeout * c.options.replica_validity_factor < age

/-- The master whose place we may try to take now. -/
def failing_master (env : Env) (c : Cluster) : Option NodeId :=
  if c.host = false ∨ c.me.replica = false then none
  else
    match c.table.lookup_master c.myself with
    | none => none
    | some m =>
      if c.table.own.slots m = ∅ ∨ ((c.table.node m).fail = false ∧ c.manual_ready = false) ∨
          (c.options.replica_no_failover ∧ c.manual_ready = false) then none
      else if c.data_too_old env then none
      else some m

/-- A sibling overtook us while we were waiting. -/
def step_back (env : Env) (c : Cluster) : Cluster :=
  let rank := c.replica_rank env
  if c.election.sent = false ∧ c.manual.mf_end = none ∧ c.election.rank < rank then
    { c with election :=
      { c.election with
        time := c.election.time.map (· + (rank - c.election.rank) * 1000)
        rank := rank } }
  else c

inductive Turn where
  /-- No election now. -/
  | rest
  | schedule
  /-- Scheduled and not due, or timed out, or short of votes. -/
  | wait
  | request
  | promote
  deriving DecidableEq

def election_turn (env : Env) (c : Cluster) : Turn :=
  if c.failing_master env = none then .rest
  else
    match c.election.time with
    | none => .schedule
    | some scheduled =>
      if c.auth_retry_time < env.now - scheduled then .schedule
      else
        let due := ((c.step_back env).election.time).getD 0
        if env.now < due ∨ c.auth_timeout < env.now - due then .wait
        else if c.election.sent = false then .request
        else if c.table.needed_quorum ≤ c.election.count then .promote
        else .wait

def schedule_election (env : Env) (c : Cluster) : Cluster :=
  let rank := c.replica_rank env
  let scheduled : Election :=
    { c.election with
      rank, time := some (env.now + (500 + env.jitter % 500) + rank * 1000), count := 0, sent := false }
  let c :=
    if c.manual.mf_end.isSome then
      todo_handle_failover { c with election := { scheduled with time := some env.now, rank := 0 } }
    else { c with election := scheduled }
  c.broadcast_pong env

def request_failover_auth (env : Env) (c : Cluster) : Cluster :=
  c.broadcast { c.header env .kFailoverAuthRequest with force_ack := c.manual.mf_end.isSome }

/-- A new epoch for this election, and the request for votes in it. -/
def start_election (env : Env) (c : Cluster) : Cluster :=
  let c := { c with
    current_epoch := c.current_epoch + 1
    election := { c.election with epoch := c.current_epoch + 1 } }
  let c := c.request_failover_auth env
  todo_update_state (todo_save { c with election := { c.election with sent := true } })

def failover_replace_master (env : Env) (c : Cluster) : Cluster :=
  match c.table.lookup_master c.myself with
  | none => c
  | some old_master =>
    if c.me.master then c
    else
      let c := (c.set_node_as_master c.myself).replicaof_no_one
      let c := c.set_slots (c.table.own.slots old_master) (some c.myself)
      let c := ((c.update_state env).save_config env).2
      (c.broadcast_pong env).reset_manual_failover

/-- The election is won: our epoch is the election's, and the master's slots are ours. -/
def win_election (env : Env) (c : Cluster) : Cluster :=
  let c :=
    if c.me.config_epoch < c.election.epoch then
      c.modify c.myself fun n => { n with config_epoch := c.election.epoch }
    else c
  c.failover_replace_master env

def handle_replica_failover (env : Env) (c : Cluster) : Cluster :=
  let c := { c with todo := { c.todo with handle_failover := false } }
  match c.election_turn env with
  | .rest => c
  | .schedule => c.schedule_election env
  | .wait => c.step_back env
  | .request => (c.step_back env).start_election env
  | .promote => c.win_election env

/-! ## The master's side -/

/-- The slots whose owner has a newer config than the request. -/
def newer_slots (c : Cluster) (request : Message) : SlotBitmap :=
  request.slots.filter fun s =>
    (c.table.own.owner s).any fun o => request.config_epoch < (c.table.node o).config_epoch

/-- The master whose replica gets our vote, if no rule is against it. -/
def vote_for (env : Env) (c : Cluster) (requester : NodeId) (request : Message) : Option NodeId :=
  if c.me.replica ∨ c.table.own.slots c.myself = ∅ then none
  else if request.current_epoch < c.current_epoch then none
  else if c.last_vote_epoch = c.current_epoch then none
  else
    match if (c.table.node requester).replica then c.table.lookup_master requester else none with
    | none => none
    | some m =>
      let master := c.table.node m
      if master.fail = false ∧ request.force_ack = false then none
      else if master.voted_time ≠ 0 ∧ env.now - master.voted_time < c.options.node_timeout * 2 then
        none
      else if c.newer_slots request ≠ ∅ then none
      else some m

/-- The vote is on disk before it is sent; if it cannot be saved it is not cast. -/
def send_failover_auth_if_needed (env : Env) (c : Cluster) (requester : NodeId)
    (request : Message) : Cluster :=
  match c.vote_for env requester request with
  | none => c
  | some m =>
    let c := { c with last_vote_epoch := c.current_epoch }
    let c := c.modify m fun n => { n with voted_time := env.now }
    let r := c.save_config env
    if r.1 = false then { r.2 with last_vote_epoch := 0 }
    else if (r.2.table.node requester).connected = false then r.2
    else r.2.send (some requester) (r.2.header env .kFailoverAuthAck)

/-! ## Manual failover -/

def handle_manual_failover (env : Env) (c : Cluster) : Cluster :=
  let c := { c with todo := { c.todo with handle_manual_failover := false } }
  if c.manual.mf_end.isSome ∧ ¬ c.manual.can_start ∧ c.manual.master_offset = some env.offset then
    todo_handle_failover { c with manual := { c.manual with can_start := true } }
  else c

def manual_failover_check_timeout (env : Env) (c : Cluster) : Cluster :=
  if c.manual.mf_end.any fun t => t < env.now then c.reset_manual_failover else c

/-- A replica asks us to pause: `kMfStart`. The link it came on is `l`. -/
def start_pause (env : Env) (c : Cluster) (sender : NodeId) (l : Inlet) : Cluster :=
  if (c.table.node sender).replica = false ∨ (c.table.node sender).master_id ≠ some c.myself then c
  else
    let c := c.reset_manual_failover
    let c := { c with manual :=
      { c.manual with mf_end := some (env.now + kManualFailoverTimeout), replica := some sender } }
    let c := c.pause_writes true
    if (c.table.node sender).connected then c.send_ping env (some sender) .kPing
    else if l.dead then c
    else c.send_ping env l.node .kPing

end Cluster

end EpochKV

/-
What a node does between two events of its life, in small changes.

`Change` lists everything a node can write at once: a row of its table, its epoch, the
owners of slots and their marks, its election, its vote, the verdict on the cluster, the
file, the keyspace, and what it sends. Each constructor carries what the code has checked,
or knows, when it makes the change, and its result is a plain record update: what it does
not write is the same by definition. Everything `handle` does is a chain of changes
(`changes_handle`), the start of a process included. An invariant over whole runs needs one
case for each constructor and no look at the handlers, and when a handler changes, its one
lemma in `Handlers` or `Events` has to be proved again.

Most invariants do not even look at the constructors. They are about a row (`Rewrites`),
about the owner of a slot (`Passes`), about the file (`Change.disk_cases`) or about what is
sent (`Change.sent_cases`), and these say what a change can do to one of them.
-/
import Mathlib.Logic.Relation
import EpochKV.Loop

set_option autoImplicit false

namespace EpochKV

open Text Slots Commands

/-- The epochs of a message are ordered, and its sender is not its own master. -/
structure Message.Sound (m : Message) : Prop where
  config : m.config_epoch ≤ m.current_epoch
  update : m.update_epoch ≤ m.current_epoch
  master : m.master_id ≠ some m.sender

/-- Whose claim to which slots a message carries, and under which epoch. -/
def Message.claim (m : Message) : NodeId × Nat × SlotBitmap :=
  if m.type = MsgType.kUpdate then (m.update_id, m.update_epoch, m.update_slots)
  else (m.sender, m.config_epoch, m.slots)

/-- What a row says of a node's place in the cluster. -/
def Node.office (n : Node) : Nat × Bool × Bool × Bool × Option NodeId × List (NodeId × Time) :=
  (n.config_epoch, n.handshake, n.master, n.replica, n.master_id, n.fail_reports)

/-- All of a row that is not about its IP address, its link and its clocks. -/
def Node.profile (n : Node) :
    (Nat × Bool × Bool × Bool × Option NodeId × List (NodeId × Time)) × (Bool × Bool) × Nat × Nat :=
  (n.office, (n.pfail, n.fail), n.port, n.cport)

/-- What is due on one todo list is due on the other: a save, and a verdict. -/
structure Todo.Kept (t t' : Todo) : Prop where
  save : t.save = true → t'.save = true
  due : t.update_state = true → t'.update_state = true

theorem Todo.Kept.refl (t : Todo) : t.Kept t := ⟨id, id⟩

/-! ## Causes -/

/-- What is going on while a node makes its changes. -/
structure Cause where
  /-- The message being read, if one is. -/
  msg : Option Message
  /-- The nodes known under their own id when it came in. -/
  met : NodeId → Prop
  /-- The ids that may be drawn for handshakes. -/
  drawn : NodeId → Prop
  /-- A save may fail. -/
  lossy : Prop
  /-- We had slots when it came in. -/
  had : Prop
  /-- It came in on the link of a placeholder. -/
  opens : Prop
  /-- Somebody may be promoted, demoted, met or forgotten, and slots may change hands. Without
  it, all that happens is housekeeping. -/
  acts : Prop
  /-- Our election may be scheduled, started or won. -/
  polls : Prop
  /-- CLUSTER FAILOVER may start it over. -/
  cancels : Prop
  /-- The nodes that may come to be flagged as failing. -/
  flags : NodeId → Prop
  /-- The slots a DELSLOTS names. -/
  frees : Slot → Prop
  /-- The node a SETSLOT MIGRATING names. -/
  sends : NodeId → Prop
  /-- Clients, expiry and replication change the keyspace. -/
  traffic : Prop

namespace Cause

/-- Nothing is read, drawn, lost or decided, but for who is down. -/
def still : Cause where
  msg := none
  met := fun _ => True
  drawn := fun _ => False
  lossy := False
  had := False
  opens := False
  acts := False
  polls := False
  cancels := False
  flags := fun _ => True
  frees := fun _ => False
  sends := fun _ => False
  traffic := False

/-- The message comes from `n`. -/
def sent_by (o : Cause) (n : NodeId) : Prop := ∃ m, o.msg = some m ∧ n = m.sender

/-- Its sender says that it is a replica. -/
def resigns (o : Cause) (n : NodeId) : Prop :=
  ∃ m, o.msg = some m ∧ n = m.sender ∧ m.replica = true

/-- The message shows node `n` under epoch `e`: its sender, or the node of an UPDATE. -/
def shows (o : Cause) (n : NodeId) (e : Nat) : Prop :=
  ∃ m, o.msg = some m ∧ (n = m.sender ∧ e = m.config_epoch ∨
    m.type = MsgType.kUpdate ∧ n = m.update_id ∧ e = m.update_epoch)

/-- An UPDATE speaks for a node that is known. A replica makes no claim of its own. -/
def claims (o : Cause) (n : NodeId) (e : Nat) (slots : SlotBitmap) : Prop :=
  ∃ m, o.msg = some m ∧ m.claim = (n, e, slots) ∧
    (m.type = MsgType.kUpdate ∧ o.met n ∨ m.type ≠ MsgType.kUpdate ∧ m.replica = false)

/-- The message names `m` as the master of its sender `n`. -/
def names (o : Cause) (n : NodeId) (m : Option NodeId) : Prop :=
  ∃ msg, o.msg = some msg ∧ n = msg.sender ∧ m = msg.master_id

/-- Two ports to meet somebody at: the sender's, those of an entry of its gossip, or two
numbers a command was given. -/
def addresses (o : Cause) (port cport : Nat) : Prop :=
  port < 2 ^ 16 ∧ cport < 2 ^ 16 ∨ ∃ m, o.msg = some m ∧
    (port = m.port ∧ cport = m.cport ∨ ∃ g ∈ m.gossip, port = g.port ∧ cport = g.cport)

def Sound (o : Cause) : Prop := ∀ m, o.msg = some m → m.Sound

end Cause

variable {n x : NodeId} {c c' : Cluster} {f : Node → Node} {o : Cause} {m id : NodeId} {t : Table}
  {c'' : Cluster} {msg : Message} {e : Nat} {s : Slot}

namespace Cluster

/-- A node known under its own id. -/
def Proper (c : Cluster) (n : NodeId) : Prop :=
  n ∈ c.table.known ∧ (c.table.node n).handshake = false

instance (c : Cluster) (n : NodeId) : Decidable (c.Proper n) :=
  inferInstanceAs (Decidable (n ∈ c.table.known ∧ (c.table.node n).handshake = false))

/-- The node is known under its own id, unless it sent the message and its id was drawn
for a stranger meanwhile. -/
def Present (o : Cause) (c : Cluster) (n : NodeId) : Prop := c.Proper n ∨ o.drawn n ∧ o.sent_by n

/-- We are a master or a replica, and not both. -/
def Fit (c : Cluster) : Prop := c.me.replica = !c.me.master

/-! ## What may be written -/

/-- Nothing that is watched has changed, and what is due stays due. -/
structure Same (c c' : Cluster) : Prop where
  table : c'.table = c.table
  options : c'.options = c.options
  current : c'.current_epoch = c.current_epoch
  vote : c'.last_vote_epoch = c.last_vote_epoch
  election : c'.election = c.election
  disk : c'.disk = c.disk
  sent : c'.sent = c.sent
  keys : c'.store.tables = c.store.tables
  state_ok : c'.state_ok = c.state_ok
  todo : c.todo.Kept c'.todo

/-- The messages a node writes, each in its present state. -/
inductive Says (c : Cluster) : Message → Prop where
  | ping (env : Env) (l : Option NodeId) {type : MsgType}
      (h : type = .kPing ∨ type = .kPong ∨ type = .kMeet) : Says c (c.ping_message env l type)
  | update (env : Env) {n : NodeId} {s : Slot} (h : c.table.own.owner s = some n) :
      Says c { c.header env .kUpdate with
        update_id := n
        update_epoch := (c.table.node n).config_epoch
        update_slots := c.table.own.slots n }
  | fail (env : Env) {n : NodeId} (h : n ∈ c.table.known) :
      Says c { c.header env .kFail with fail_id := n }
  | request (env : Env) (force : Bool) :
      Says c { c.header env .kFailoverAuthRequest with force_ack := force }
  | ack (env : Env) : Says c (c.header env .kFailoverAuthAck)
  | mf_start (env : Env) : Says c (c.header env .kMfStart)

/-- Node `n` comes to be at epoch `e`, which is not below the one it was at; ourselves
we move to the current one. It is to be saved. -/
structure Raises (o : Cause) (c : Cluster) (n : NodeId) (e : Nat) (t : Todo) : Prop where
  le : (c.table.node n).config_epoch ≤ e ∨ n = c.myself ∧ e = c.current_epoch
  current : o.Sound → c.election.epoch ≤ c.current_epoch → e ≤ c.current_epoch
  who : n = c.myself ∨ o.shows n e ∧ c.Proper n
  why : o.acts ∨ n = c.myself ∧ o.msg ≠ none
  save : c.Fit → t.save = true

/-- A master, the sender of the message, says of `n` that it is down. -/
structure Reports (o : Cause) (c : Cluster) (n : NodeId) (m : Message) : Prop where
  msg : o.msg = some m
  gossip : ∃ g ∈ m.gossip, g.id = n
  other : n ≠ c.myself
  proper : c.Proper n
  sender : ¬ o.drawn m.sender → c.Proper m.sender

/-- Why a master may become a replica: by a command while it holds nothing, or when a claim
has taken its last slot. -/
def Yields (o : Cause) (c : Cluster) : Prop :=
  c.me.master = false ∨ c.store.size = 0 ∨
    o.msg.isSome ∧ c.table.own.slots c.myself = ∅ ∧ (o.met c.myself → o.had)

/-- How row `n` may change at once. -/
structure Edit (o : Cause) (c : Cluster) (t : Todo) (n : NodeId) (r : Node) : Prop where
  handshake : r.handshake = (c.table.node n).handshake
  epoch : r.config_epoch = (c.table.node n).config_epoch ∨ Raises o c n r.config_epoch t
  /-- Only the node itself says that it is a replica. -/
  role : (r.master = (c.table.node n).master ∧ r.replica = (c.table.node n).replica) ∨
    o.acts ∧ r.replica = (!r.master) ∧
      (r.master = true ∨ o.resigns n ∨ n = c.myself ∧ Yields o c)
  master_id : r.master_id = (c.table.node n).master_id ∨ o.acts ∧ (r.master_id = none ∨
    o.names n r.master_id ∨ n = c.myself ∧ ∃ m, r.master_id = some m ∧ m ≠ c.myself ∧
      (m ∈ c.table.known ∨ ∃ e slots, o.claims m e slots))
  reports : r.fail_reports.Sublist (c.table.node n).fail_reports ∨
    ∃ m t, Reports o c n m ∧ r.fail_reports = ((c.table.node n).report m.sender t).fail_reports
  /-- Nobody is suspected and failed at once, and the verdict is due. -/
  health : (r.pfail = (c.table.node n).pfail ∧ r.fail = (c.table.node n).fail) ∨
    t.update_state = true ∧ ¬ (r.pfail = true ∧ r.fail = true) ∧
      (r.fail = true → (c.table.node n).fail = true ∨ o.flags n)
  ports : (r.port = (c.table.node n).port ∧ r.cport = (c.table.node n).cport) ∨
    (∃ m, o.msg = some m ∧ r.port = m.port ∧ r.cport = m.cport) ∨
    r.port = c.options.port ∧ r.cport = c.options.cport

/-- What the code knows of a node whose role it changes. -/
inductive Recast (o : Cause) (c : Cluster) (n : NodeId) (r : Node) : Prop where
  | same (hm : r.master = (c.table.node n).master) (hr : r.replica = (c.table.node n).replica)
  | promoted (hp : Present o c n) (h : (c.table.node n).replica = true)
      (hr : r.master = true ∧ r.replica = false)
  /-- Its slots are gone before its role is. -/
  | resigned (hp : Present o c n) (hn : o.sent_by n) (hs : c.table.own.slots n = ∅)
      (hr : r.master = false ∧ r.replica = true)
  | demoted (hn : n = c.myself) (hs : c.table.own.slots n = ∅)
      (hm : ∀ s, c.table.migrating_to s = none ∧ c.table.importing_from s = none)
      (hr : r.master = false ∧ r.replica = true)

/-- The row of a node that is only an address yet. -/
structure Placeholder (o : Cause) (r : Node) : Prop where
  office : r.office = (0, true, false, false, none, [])
  health : r.pfail = false ∧ r.fail = false
  ports : r.port ≠ 0 ∧ r.cport ≠ 0
  addressed : o.addresses r.port r.cport

/-- The node behind placeholder `n` answers with its id for the first time. -/
structure Introduces (o : Cause) (c : Cluster) (n : NodeId) (m : Message) : Prop where
  msg : o.msg = some m
  acts : o.acts
  opens : o.opens
  placeholder : (c.table.node n).handshake = true
  stranger : ¬ o.met m.sender
  unknown : ¬ c.Proper m.sender

theorem Introduces.not_proper {o : Cause} {c : Cluster} {n : NodeId} {m : Message}
    (h : Introduces o c n m) : ¬ c.Proper n :=
  fun hp => Bool.false_ne_true (hp.2.symm.trans h.placeholder)

/-- The row that a handshake ends with. -/
def introduced (m : Message) (r : Node) : Node :=
  { r with
    handshake := false
    meet := false
    replica := r.replica || m.replica
    master := r.master || !m.replica
    master_id := m.master_id }

/-- Why a set of slots may go to `x`, or to nobody. -/
inductive Assigns (o : Cause) (c : Cluster) : SlotBitmap → Option NodeId → Prop where
  /-- The claim of a message takes what it beats. Of ours, the marks are off. -/
  | claimed {n : NodeId} {e : Nat} {slots : SlotBitmap} (h : o.claims n e slots) (ha : o.acts)
      (hn : n ≠ c.myself) (hp : Present o c n)
      (hr : (c.table.node n).master = true ∨ (c.table.node n).replica = false)
      (hrow : o.met n → ¬ o.drawn n → e ≤ (c.table.node n).config_epoch)
      (hm : ∀ s ∈ c.claimed n e slots, c.table.own.owner s = some c.myself →
        c.table.migrating_to s = none) : Assigns o c (c.claimed n e slots) (some n)
  /-- A sender that is a replica gives up its slots. -/
  | resigned {m : Message} (hm : o.msg = some m) (ha : o.acts) (ht : m.type ≠ .kUpdate) :
      Assigns o c (c.table.own.slots m.sender) none
  /-- We give up ours to become a replica. -/
  | disowned (ha : o.acts) (h : c.me.master = false ∨ c.store.size = 0)
      (hm : ∀ s, c.table.migrating_to s = none) : Assigns o c (c.table.own.slots c.myself) none
  | freed {won : SlotBitmap} (hm : o.msg = none) (ha : o.acts) (h : ∀ s ∈ won, o.frees s) :
      Assigns o c won none
  | adopted {won : SlotBitmap} (hm : o.msg = none)
      (h : ∀ s ∈ won, c.table.own.owner s = none ∧ c.table.importing_from s = none)
      (hr : c.me.replica = false) : Assigns o c won (some c.myself)
  | placed {slot : Slot} {n : NodeId} (hm : o.msg = none) (ha : o.acts) (hp : c.Proper n)
      (hr : (c.table.node n).replica = false)
      (hin : n = c.myself → c.table.importing_from slot = none)
      (hout : n ≠ c.myself → c.table.own.owner slot = some c.myself →
        c.table.migrating_to slot = none) : Assigns o c {slot} (some n)

/-- What may become of the marks of slots on their way out and in. -/
inductive Remarks (o : Cause) (c : Cluster) :
    (Slot → Option NodeId) → (Slot → Option NodeId) → Prop where
  | dropped {out into : Slot → Option NodeId}
      (ho : ∀ s, out s = none ∨ out s = c.table.migrating_to s)
      (hi : ∀ s, into s = none ∨ into s = c.table.importing_from s) : Remarks o c out into
  | sent {slot : Slot} {n : NodeId} (hs : c.table.own.owner slot = some c.myself)
      (hp : c.Proper n) (hn : o.sends n) (hr : c.me.replica = false) :
      Remarks o c (Function.update c.table.migrating_to slot (some n)) c.table.importing_from
  | accepted {slot : Slot} {n : NodeId} (ha : o.acts) (hs : c.table.own.owner slot ≠ some c.myself)
      (hp : c.Proper n) (hr : c.me.replica = false) :
      Remarks o c c.table.migrating_to (Function.update c.table.importing_from slot (some n))
  /-- The keys of slots that are others' are taken for keys on their way in. -/
  | foreign {slots : SlotBitmap} (hm : o.msg = none)
      (h : ∀ s ∈ slots, c.table.own.owner s ≠ some c.myself) (hr : c.me.replica = false) :
      Remarks o c c.table.migrating_to fun s =>
        if s ∈ slots then c.table.own.owner s else c.table.importing_from s

/-- What may become of our election. -/
inductive Elects (o : Cause) (c : Cluster) : Election → Prop where
  | counted {m : Message} (hm : o.msg = some m) (ht : m.type = .kFailoverAuthAck) :
      Elects o c { c.election with count := c.election.count + 1 }
  | cleared (hc : o.cancels) : Elects o c { c.election with time := none }
  | held {e : Election} (hp : o.polls) (h : e.epoch = c.election.epoch ∨ e.epoch ≤ c.current_epoch) :
      Elects o c e

/-- A vote, as far as it gets: what is recorded in memory, what is on disk, what is sent.
It is sent only if memory and disk have it. -/
structure Casts (c : Cluster) (v : Nat) (d : Conf) (ms : List (Option NodeId × Message)) : Prop where
  unused : c.last_vote_epoch ≠ c.current_epoch
  disk : d = c.disk ∨ d = { c.describe_nodes with last_vote_epoch := c.current_epoch }
  sent : ms = [] ∨ v = c.current_epoch ∧
    d = { c.describe_nodes with last_vote_epoch := c.current_epoch } ∧
    ∃ env r, ms = [(some r, c.header env .kFailoverAuthAck)]

/-- Slots change hands, and the verdict is due. -/
def give (c : Cluster) (won : SlotBitmap) (x : Option NodeId) : Cluster :=
  todo_update_state { c with table := { c.table with own := c.table.own.assign won x } }

/-- One thing a node writes. -/
inductive Change (o : Cause) : Cluster → Cluster → Prop where
  | aside {c c' : Cluster} (h : Same c c') : Change o c c'
  | row {c : Cluster} {n : NodeId} {f : Node → Node} {t : Todo}
      (h : Edit o c t n (f (c.table.node n))) (hr : Recast o c n (f (c.table.node n)))
      (ht : c.todo.Kept t) : Change o c { c.modify n f with todo := t }
  | advance {c : Cluster} {e : Nat} (h : c.current_epoch ≤ e) :
      Change o c { c with current_epoch := e }
  | elect {c : Cluster} {e : Election} (h : Elects o c e) : Change o c { c with election := e }
  | give {c : Cluster} {won : SlotBitmap} {x : Option NodeId} (h : Assigns o c won x) :
      Change o c (c.give won x)
  /-- A replica takes the place of its master, whose slots come with it. -/
  | succeed {c : Cluster} {old : NodeId} {t : Todo} (ha : o.acts) (hm : o.msg = none)
      (h : c.me.master = false) (ht : c.todo.Kept t)
      (hd : c.table.own.slots old ≠ ∅ → t.update_state = true) :
      Change o c
        { c with
          table :=
            { c.table.modify c.myself fun r =>
                { r with replica := false, master := true, master_id := none } with
              own := c.table.own.assign (c.table.own.slots old) (some c.myself) }
          todo := t }
  | mark {c : Cluster} {out into : Slot → Option NodeId} (h : Remarks o c out into) :
      Change o c { c with table := { c.table with migrating_to := out, importing_from := into } }
  | create {c : Cluster} {id : NodeId} {r : Node} (h : o.drawn id) (hr : Placeholder o r) :
      Change o c { c with table := c.table.create_node id r }
  | delete {c : Cluster} {n : NodeId}
      (h : (c.table.node n).handshake = true ∧ o.acts ∨ o.msg = none ∧ n ≠ c.myself)
      (hd : c.todo.update_state = true) : Change o c { c with table := c.table.del_node n }
  | complete {c : Cluster} {n : NodeId} {m : Message} (h : Introduces o c n m) :
      Change o c
        { c with
          table := (c.table.rename_node n m.sender).modify m.sender (introduced m)
          todo := { c.todo with save := true } }
  /-- The verdict on the cluster, which a good one has to deserve. -/
  | judge {c : Cluster} {ok : Bool} {t : Todo}
      (h : ok = true → c.covered = true ∧ c.minority = false)
      (ht : c.todo.save = true → t.save = true) :
      Change o c { c with state_ok := ok, todo := t }
  | save {c : Cluster} {t : Todo} (ht : c.todo.update_state = true → t.update_state = true) :
      Change o c { c with disk := c.describe_nodes, todo := t }
  | lose {c : Cluster} {t : Todo} (h : o.lossy)
      (ht : c.todo.update_state = true → t.update_state = true) : Change o c { c with todo := t }
  | say {c : Cluster} {ms : List (Option NodeId × Message)}
      (h : ∀ m ∈ ms, c.Says m.2 ∧ m.2.type ≠ .kFailoverAuthAck) :
      Change o c { c with sent := c.sent ++ ms }
  | vote {c : Cluster} {v : Nat} {d : Conf} {ms : List (Option NodeId × Message)}
      (h : Casts c v d ms) : Change o c { c with last_vote_epoch := v, disk := d, sent := c.sent ++ ms }
  /-- The keyspace changes by its own traffic, or loses the slots a claim takes from us. -/
  | keys {c : Cluster} {s : Store} (h : o.traffic ∨ ∃ n e slots, o.claims n e slots ∧
        n ≠ c.myself ∧ s = (c.delete_slots (c.dirty n e slots)).store) :
      Change o c { c with store := s }

/-- A chain of changes. -/
abbrev Changes (o : Cause) : Cluster → Cluster → Prop := Relation.ReflTransGen (Change o)

theorem Edit.refl (o : Cause) (c : Cluster) (t : Todo) (n : NodeId) : Edit o c t n (c.table.node n) where
  handshake := rfl
  epoch := Or.inl rfl
  role := Or.inl ⟨rfl, rfl⟩
  master_id := Or.inl rfl
  reports := Or.inl (List.Sublist.refl _)
  health := Or.inl ⟨rfl, rfl⟩
  ports := Or.inl ⟨rfl, rfl⟩

/-! ## What is said -/

/-- Whatever a node says, it says it under its own name, role and epochs. -/
theorem Says.header (h : c.Says msg) : ∃ env, msg.sender = (c.header env msg.type).sender ∧
    msg.port = c.options.port ∧ msg.cport = c.options.cport ∧ msg.replica = c.me.replica ∧
    msg.master_id = c.me.master_id ∧ msg.current_epoch = c.current_epoch ∧
    msg.config_epoch = (c.header env msg.type).config_epoch := by
  cases h with
  | ping env _ _ | update env _ | fail env _ | request env _ | ack env | mf_start env =>
    exact ⟨env, rfl, rfl, rfl, rfl, rfl, rfl, rfl⟩

theorem Says.sender (h : c.Says msg) : msg.sender = c.myself := by
  obtain ⟨env, hs, -⟩ := h.header
  exact hs

theorem Says.replica (h : c.Says msg) : msg.replica = c.me.replica := by
  obtain ⟨env, -, -, -, hr, -⟩ := h.header
  exact hr

theorem Says.master_id (h : c.Says msg) : msg.master_id = c.me.master_id := by
  obtain ⟨env, -, -, -, -, hm, -⟩ := h.header
  exact hm

theorem Says.current (h : c.Says msg) : msg.current_epoch = c.current_epoch := by
  obtain ⟨env, -, -, -, -, -, hc, -⟩ := h.header
  exact hc

/-- A replica shows the epoch of its master. -/
theorem Says.config (h : c.Says msg) : msg.config_epoch =
    ((c.table.master_of c.myself).map fun n => (c.table.node n).config_epoch).getD 0 := by
  obtain ⟨env, -, -, -, -, -, -, he⟩ := h.header
  exact he

theorem Says.update_epoch (h : c.Says msg) :
    msg.update_epoch = 0 ∨ msg.update_epoch = (c.table.node msg.update_id).config_epoch := by
  cases h with
  | update _ _ => exact Or.inr rfl
  | _ => exact Or.inl rfl

theorem candidate_of_gossip {env : Env} {l : Option NodeId} {g : GossipEntry}
    (h : g ∈ c.gossip_about env l) : ∃ n, g = c.gossip_entry n ∧ c.candidate l n = true := by
  obtain ⟨n, hn, rfl⟩ := List.mem_map.mp h
  refine ⟨n, rfl, ?_⟩
  rcases List.mem_append.mp (List.mem_of_mem_take hn) with h | h
  · exact (List.mem_filter.mp (List.mem_filter.mp h).1).2
  · exact (List.mem_filter.mp (List.mem_filter.mp h).1).2

/-- The gossip of a node is about others. -/
theorem Says.gossip (h : c.Says msg) : ∀ g ∈ msg.gossip, g.id ≠ c.myself := by
  cases h with
  | ping env l _ =>
    intro g hg
    obtain ⟨n, rfl, hn⟩ := candidate_of_gossip hg
    exact (of_decide_eq_true hn).2.1
  | _ => exact nofun

/-! ## Fields -/

theorem node_modify_self (c : Cluster) (n : NodeId) (f : Node → Node) :
    (c.modify n f).table.node n = f (c.table.node n) := Function.update_self ..

theorem node_modify_of_ne (c : Cluster) (f : Node → Node) (h : m ≠ n) :
    (c.modify n f).table.node m = c.table.node m := Function.update_of_ne h ..

/-- A property of a row that holds before and after its change holds of every row. -/
theorem node_modify_rec {P : NodeId → Node → Prop} (h : m ≠ n → P m (c.table.node m))
    (hn : m = n → P n (f (c.table.node n))) : P m ((c.modify n f).table.node m) := by
  by_cases hm : m = n
  · rw [hm, node_modify_self]
    exact hn hm
  · rw [node_modify_of_ne c f hm]
    exact h hm

theorem serves_modify (c : Cluster) (n : NodeId) (hf : ∀ r, (f r).master = r.master) (m : NodeId) :
    (c.modify n f).table.serves m = c.table.serves m := by
  unfold Table.serves modify Table.modify
  by_cases hm : m = n
  · subst hm
    simp [hf]
  · simp [Function.update_of_ne hm]

theorem node_create (t : Table) (id : NodeId) (r : Node) (x : NodeId) :
    (t.create_node id r).node x = if x = id then r else t.node x := Function.update_apply ..

theorem mem_known_create {r : Node} : x ∈ (t.create_node id r).known ↔ x ∈ t.known ∨ x = id := by
  unfold Table.create_node
  split
  · rename_i hid
    refine ⟨Or.inl, ?_⟩
    rintro (h | rfl)
    · exact h
    · exact hid
  · rw [List.mem_append, List.mem_singleton]

theorem mem_known_del : x ∈ (t.del_node n).known ↔ x ∈ t.known ∧ x ≠ n := by
  unfold Table.del_node
  rw [List.mem_filter]
  simp

theorem mem_known_rename : x ∈ (t.rename_node n id).known ↔ x = id ∨ x ∈ t.known ∧ x ≠ n := by
  have hrest : x ∈ t.known.filter (· ≠ n) ↔ x ∈ t.known ∧ x ≠ n := by
    rw [List.mem_filter]
    simp
  show x ∈ (if _ then _ else _ : List NodeId) ↔ _
  split
  · rename_i hid
    rw [hrest]
    refine ⟨Or.inr, ?_⟩
    rintro (rfl | h)
    · exact hrest.mp hid
    · exact h
  · rw [List.mem_append, hrest, List.mem_singleton, or_comm]

/-- The rows after a handshake. -/
theorem node_introduced (t : Table) (n : NodeId) (m : Message) (x : NodeId) :
    ((t.rename_node n m.sender).modify m.sender (introduced m)).node x =
      if x = m.sender then introduced m ((t.rename_node n m.sender).node m.sender) else t.node x := by
  split
  · rename_i hx
    rw [hx]
    exact Function.update_self ..
  · rename_i hx
    refine (Function.update_of_ne hx _ _).trans ?_
    show (if _ then _ else _ : NodeId → Node) x = _
    split
    · rfl
    · exact Function.update_of_ne hx _ _

/-- The row that gets a new name, or the one that had the name already. -/
theorem node_rename_self (t : Table) (n id : NodeId) :
    (t.rename_node n id).node id = t.node n ∨
      id ∈ t.known ∧ (t.rename_node n id).node id = t.node id := by
  show (if _ then _ else _ : NodeId → Node) id = _ ∨ _ ∧ (if _ then _ else _ : NodeId → Node) id = _
  split
  · rename_i hid
    exact Or.inr ⟨(List.mem_filter.mp hid).1, rfl⟩
  · exact Or.inl (Function.update_self ..)

theorem current_le_max_epoch (c : Cluster) : c.current_epoch ≤ c.max_epoch := by
  unfold max_epoch
  generalize c.table.known.map (fun n => (c.table.node n).config_epoch) = es
  generalize c.current_epoch = e
  induction es generalizing e with
  | nil => exact le_rfl
  | cons a es ih => exact le_trans (le_max_left e a) (ih _)

/-! ## One row

What a change does to one row: at most one edit, or the row is new. -/

inductive Rewrites (o : Cause) (c c' : Cluster) (x : NodeId) : Prop where
  | edited (h : Edit o c c'.todo x (c'.table.node x)) (hk : x ∈ c'.table.known → x ∈ c.table.known)
  | created (h : o.drawn x) (hr : Placeholder o (c'.table.node x))
  | met {n : NodeId} {m : Message} (h : Introduces o c n m) (hx : x = m.sender)
      (hr : c'.table.node x = introduced m ((c.table.rename_node n x).node x))

section

variable (h : Change o c c')
include h

theorem Change.rewrites (x : NodeId) : Rewrites o c c' x := by
  cases h with
  | aside hs =>
    refine .edited ?_ ?_
    · rw [hs.table]
      exact Edit.refl ..
    · rw [hs.table]
      exact id
  | row hr hrec ht =>
    rename_i n f t
    refine .edited ?_ id
    exact node_modify_rec (P := fun y r => Edit o c t y r) (fun _ => Edit.refl o c t x) fun _ => hr
  | succeed ha hm hmaster ht hd =>
    rename_i old t
    refine .edited (node_modify_rec (c := c) (n := c.myself) (P := fun y r => Edit o c t y r)
      (f := fun r => { r with replica := false, master := true, master_id := none })
      (fun _ => Edit.refl o c t x) fun _ => ?_) id
    exact { Edit.refl o c t c.myself with
      role := Or.inr ⟨ha, rfl, Or.inl rfl⟩
      master_id := Or.inr ⟨ha, Or.inl rfl⟩ }
  | create hid hr =>
    rename_i id r
    -- only the new row is not an edit of the old one
    by_cases hx : x = id
    · refine .created (hx ▸ hid) ?_
      rw [node_create, if_pos hx]
      exact hr
    · refine .edited ?_ fun hk => (mem_known_create.mp hk).resolve_right hx
      rw [node_create, if_neg hx]
      exact Edit.refl ..
  | delete _ _ =>
    exact .edited { Edit.refl o c c.todo x with reports := Or.inl List.filter_sublist }
      fun hk => (mem_known_del.mp hk).1
  | complete hi =>
    rename_i n m
    -- the row of the handshake is now that of the sender
    by_cases hx : x = m.sender
    · refine .met hi hx ?_
      rw [node_introduced, if_pos hx, hx]
    · refine .edited ?_ fun hk => ((mem_known_rename.mp hk).resolve_left hx).1
      rw [node_introduced, if_neg hx]
      exact Edit.refl ..
  | _ => exact .edited (Edit.refl ..) id

theorem Change.myself : c'.myself = c.myself := by
  cases h with
  | aside hs => exact congrArg Table.myself hs.table
  | _ => rfl

theorem Change.options : c'.options = c.options := by
  cases h with
  | aside hs => exact hs.options
  | _ => rfl

theorem Change.current_le : c.current_epoch ≤ c'.current_epoch := by
  cases h with
  | aside hs => exact hs.current.ge
  | advance he => exact he
  | _ => exact le_rfl

/-- No change makes a placeholder of a node that is known, but a draw of its id, and then
its row is a new one. -/
theorem Change.met_or_drawn (hh : (c.table.node x).handshake = false) :
    (c'.table.node x).handshake = false ∨
      o.drawn x ∧ (c'.table.node x).office = (0, true, false, false, none, []) := by
  cases h.rewrites x with
  | edited he _ => exact Or.inl (he.handshake.trans hh)
  | created hd hr => exact Or.inr ⟨hd, hr.office⟩
  | met _ _ hr =>
    rw [hr]
    exact Or.inl rfl

theorem Change.met (hx : ¬ o.drawn x) (hh : (c.table.node x).handshake = false) :
    (c'.table.node x).handshake = false :=
  (h.met_or_drawn hh).resolve_right fun hd => hx hd.1

/-- Only the sender of the message comes to be known, at the end of a handshake. -/
theorem Change.proper_back (hp : c'.Proper x) : c.Proper x ∨ o.sent_by x ∧ o.opens := by
  obtain ⟨hk, hh⟩ := hp
  cases h.rewrites x with
  | edited he hkn => exact Or.inl ⟨hkn hk, he.handshake.symm.trans hh⟩
  | created _ hr =>
    have hhand := congrArg (fun p => p.2.1) hr.office
    rw [show (c'.table.node x).handshake = true from hhand] at hh
    cases hh
  | met hi hx _ => exact Or.inr ⟨⟨_, hi.msg, hx⟩, hi.opens⟩

/-- The epoch of another node falls only with its row. -/
theorem Change.epoch_le (hx : ¬ o.drawn x) (hmet : o.met x) (hme : x ≠ c.myself) :
    (c.table.node x).config_epoch ≤ (c'.table.node x).config_epoch := by
  cases h.rewrites x with
  | edited he _ =>
    rcases he.epoch with he | he
    · exact he.ge
    · exact he.le.resolve_right fun hn => hme hn.1
  | created hd _ => exact absurd hd hx
  | met hi hs _ => exact absurd (hs ▸ hmet) hi.stranger

/-- Another node stays a master until it says otherwise. -/
theorem Change.master_kept (hx : ¬ o.drawn x) (hmet : o.met x)
    (hme : x ≠ c.myself) (hr : ¬ o.resigns x) (hm : (c.table.node x).master = true) :
    (c'.table.node x).master = true := by
  cases h.rewrites x with
  | edited he _ =>
    rcases he.role with hrole | ⟨-, -, hrole⟩
    · exact hrole.1.trans hm
    · exact hrole.resolve_right fun hn => hn.elim hr fun hn => hme hn.1
  | created hd _ => exact absurd hd hx
  | met hi hs _ => exact absurd (hs ▸ hmet) hi.stranger

/-- Who fails had failed before, or comes to be flagged. -/
theorem Change.fail_back (hx : ¬ o.drawn x) (hmet : o.met x) (hf : ¬ o.flags x)
    (hfail : (c'.table.node x).fail = true) : (c.table.node x).fail = true := by
  cases h.rewrites x with
  | edited he _ =>
    rcases he.health with hsame | ⟨-, -, hback⟩
    · exact hsame.2.symm.trans hfail
    · exact (hback hfail).resolve_right hf
  | created hd _ => exact absurd hd hx
  | met hi hs _ => exact absurd (hs ▸ hmet) hi.stranger

/-- A node leaves the table only as a placeholder, or by a command. -/
theorem Change.mem_known (hh : (c.table.node x).handshake = false) (hk : x ∈ c.table.known) :
    x ∈ c'.table.known ∨ o.msg = none ∧ x ≠ c.myself ∧
      c' = { c with table := c.table.del_node x } := by
  have hne : ∀ n, (c.table.node n).handshake = true → x ≠ n := by
    rintro n hn rfl
    rw [hn] at hh
    cases hh
  cases h with
  | aside hs =>
    rw [hs.table]
    exact Or.inl hk
  | create _ _ => exact Or.inl (mem_known_create.mpr (Or.inl hk))
  | delete hn _ =>
    rename_i n _
    by_cases hx : x = n
    · subst hx
      rcases hn with hn | hn
      · exact absurd rfl (hne x hn.1)
      · exact Or.inr ⟨hn.1, hn.2, rfl⟩
    · exact Or.inl (mem_known_del.mpr ⟨hk, hx⟩)
  | complete hi => exact Or.inl (mem_known_rename.mpr (Or.inr ⟨hk, hne _ hi.placeholder⟩))
  | _ => exact Or.inl hk

omit h in
theorem Proper.change (hm : o.msg = none → x = c.myself) (hx : ¬ o.drawn x) (hp : c.Proper x)
    (h : Change o c c') : c'.Proper x := by
  refine ⟨(h.mem_known hp.2 hp.1).resolve_right ?_, h.met hx hp.2⟩
  rintro ⟨hnone, hne, -⟩
  exact hne (hm hnone)

/-- A node that leaves the table leaves its slots. -/
theorem Change.proper_of_owner (hx : ¬ o.drawn x) (hp : c.Proper x)
    (ho : c'.table.own.owner s = some x) : c'.Proper x := by
  refine ⟨(h.mem_known hp.2 hp.1).resolve_right ?_, h.met hx hp.2⟩
  rintro ⟨-, -, rfl⟩
  change (if s ∈ c.table.own.slots x then none else c.table.own.owner s) = some x at ho
  split at ho
  · cases ho
  · rename_i hs
    exact hs ((c.table.own.owner_iff s x).mp ho)

end

/-! ## One slot -/

/-- Who may have slot `s` after a change. -/
inductive Passes (o : Cause) (c : Cluster) (s : Slot) : Option NodeId → Prop where
  | kept : Passes o c s (c.table.own.owner s)
  /-- We are demoted, a placeholder is dropped, a node is forgotten, or the sender of the
  message is a replica. -/
  | lost {n : NodeId} (h : c.table.own.owner s = some n)
      (hn : n = c.myself ∧ (c.me.master = false ∨ c.store.size = 0) ∨
        (c.table.node n).handshake = true ∨ o.msg = none ∨
        ∃ m, o.msg = some m ∧ m.type ≠ MsgType.kUpdate ∧ n = m.sender) : Passes o c s none
  | claimed {n : NodeId} {e : Nat} {slots : SlotBitmap} (h : o.claims n e slots) (hs : s ∈ slots)
      (hb : ∀ a, c.table.own.owner s = some a → a ≠ n ∧ (c.table.node a).config_epoch < e)
      (hn : n ≠ c.myself ∧ Present o c n)
      (hrow : o.met n → ¬ o.drawn n → e ≤ (c.table.node n).config_epoch) : Passes o c s (some n)
  | given {x : Option NodeId} (hm : o.msg = none)
      (hx : ∀ n, x = some n → n = c.myself ∨ c.Proper n) : Passes o c s x
  | renamed {n : NodeId} {m : Message} (h : c.table.own.owner s = some n)
      (hi : Introduces o c n m) : Passes o c s (some m.sender)

/-- A claim that takes a slot beats its owner. -/
theorem owner_of_beats (h : c.beats n e s = true) {a : NodeId} (ha : c.table.own.owner s = some a) :
    a ≠ n ∧ (c.table.node a).config_epoch < e := by
  unfold beats at h
  rw [ha] at h
  split at h
  · cases h
  · rename_i heq
    cases heq
  · rename_i heq
    cases heq
    exact of_decide_eq_true h

theorem Assigns.passes {won : SlotBitmap} {x : Option NodeId} (h : Assigns o c won x) (hs : s ∈ won) :
    Passes o c s x := by
  have hself : ∀ y, some c.myself = some y → y = c.myself ∨ c.Proper y :=
    fun _ hy => Or.inl (Option.some.inj hy).symm
  cases h with
  | claimed hclaim _ hn hp _ hrow _ =>
    obtain ⟨hslot, hbeats⟩ := Finset.mem_filter.mp hs
    exact .claimed hclaim hslot (fun _ ha => owner_of_beats hbeats ha) ⟨hn, hp⟩ hrow
  | resigned hm _ ht =>
    exact .lost ((c.table.own.owner_iff ..).mpr hs) (Or.inr (Or.inr (Or.inr ⟨_, hm, ht, rfl⟩)))
  | disowned _ hwhy _ => exact .lost ((c.table.own.owner_iff ..).mpr hs) (Or.inl ⟨rfl, hwhy⟩)
  | freed hm _ _ => exact .given hm nofun
  | adopted hm _ _ => exact .given hm hself
  | placed hm _ hp _ _ _ => exact .given hm fun _ hy => Or.inr (Option.some.inj hy ▸ hp)

section

variable (h : Change o c c')
include h

theorem Change.passes (s : Slot) : Passes o c s (c'.table.own.owner s) := by
  cases h with
  | aside hs =>
    rw [hs.table]
    exact .kept
  | give ha =>
    refine (c.table.own.owner_assign ..).symm ▸ ?_
    split
    · exact ha.passes (by assumption)
    · exact .kept
  | succeed _ hm _ _ _ =>
    refine (c.table.own.owner_assign ..).symm ▸ ?_
    split
    · exact .given hm fun _ hy => Or.inl (Option.some.inj hy).symm
    · exact .kept
  | delete hn _ =>
    refine (c.table.own.owner_assign ..).symm ▸ ?_
    split
    · rename_i hmem
      refine .lost ((c.table.own.owner_iff ..).mpr hmem) (Or.inr ?_)
      exact hn.imp And.left fun h => Or.inl h.1
    · exact .kept
  | complete hi =>
    refine (c.table.own.owner_assign ..).symm ▸ ?_
    split
    · rename_i hmem
      exact .renamed ((c.table.own.owner_iff ..).mpr hmem) hi
    · exact .kept
  | _ => exact .kept

/-- While a message is read, no slot comes to us. -/
theorem Change.own_slots_subset (hm : o.msg.isSome) (hmet : o.met c.myself) :
    c'.table.own.slots c'.myself ⊆ c.table.own.slots c.myself := by
  intro s hs
  rw [← c'.table.own.owner_iff, h.myself] at hs
  rw [← c.table.own.owner_iff]
  have hpass := h.passes s
  rw [hs] at hpass
  generalize hx : some c.myself = x at hpass
  cases hpass with
  | kept => rfl
  | lost _ _ => cases hx
  | claimed _ _ _ hn _ => exact absurd (Option.some.inj hx).symm hn.1
  | given hnone _ =>
    rw [hnone] at hm
    cases hm
  | renamed _ hi => exact absurd (Option.some.inj hx ▸ hmet) hi.stranger

/-! ## What is written, what is sent -/

/-- The file changes only to what the memory says, with a vote that is about to be cast. -/
theorem Change.disk_cases :
    c'.disk = c.disk ∨ ∃ v, c'.disk = { c.describe_nodes with last_vote_epoch := v } := by
  cases h with
  | aside hsame => exact Or.inl hsame.disk
  | save _ => exact Or.inr ⟨_, rfl⟩
  | vote hv =>
    rcases hv.disk with hd | hd
    · exact Or.inl hd
    · exact Or.inr ⟨_, hd⟩
  | _ => exact Or.inl rfl

/-- What is sent anew is said in the present state. -/
theorem Change.sent_cases {m : Option NodeId × Message} (hm : m ∈ c'.sent) :
    m ∈ c.sent ∨ c.Says m.2 ∧ c'.me = c.me := by
  cases h with
  | aside hsame =>
    rw [hsame.sent] at hm
    exact Or.inl hm
  | say hsaid =>
    rcases List.mem_append.mp hm with hm | hm
    · exact Or.inl hm
    · exact Or.inr ⟨(hsaid m hm).1, rfl⟩
  | vote hv =>
    rcases List.mem_append.mp hm with hm | hm
    · exact Or.inl hm
    · rcases hv.sent with rfl | ⟨-, -, env, r, rfl⟩
      · cases hm
      · rw [List.mem_singleton.mp hm]
        exact Or.inr ⟨.ack env, rfl⟩
  | _ => exact Or.inl hm

end

/-! ## Chains -/

section

variable (h : Changes o c c')
include h

/-- A property that every change keeps holds after a chain of them. -/
theorem Changes.invariant {P : Cluster → Prop} (hstep : ∀ a b, P a → Change o a b → P b) (hc : P c) :
    P c' := by
  induction h with
  | refl => exact hc
  | tail _ hs ih => exact hstep _ _ ih hs

theorem Changes.myself : c'.myself = c.myself :=
  h.invariant (P := fun a => a.myself = c.myself) (fun _ _ ha hs => hs.myself.trans ha) rfl

theorem Changes.options : c'.options = c.options :=
  h.invariant (P := fun a => a.options = c.options) (fun _ _ ha hs => hs.options.trans ha) rfl

theorem Changes.current_le : c.current_epoch ≤ c'.current_epoch :=
  h.invariant (P := fun a => c.current_epoch ≤ a.current_epoch)
    (fun _ _ ha hs => ha.trans hs.current_le) le_rfl

theorem Changes.met (hx : ¬ o.drawn x) (hh : (c.table.node x).handshake = false) :
    (c'.table.node x).handshake = false :=
  h.invariant (P := fun a => (a.table.node x).handshake = false) (fun _ _ ha hs => hs.met hx ha) hh

theorem Changes.proper_back (hp : c'.Proper x) : c.Proper x ∨ o.sent_by x ∧ o.opens := by
  refine h.invariant (P := fun a => a.Proper x → c.Proper x ∨ o.sent_by x ∧ o.opens) ?_ Or.inl hp
  intro a b ha hs hb
  exact (hs.proper_back hb).elim ha Or.inr

omit h in
theorem Proper.changes (hm : o.msg = none → x = c.myself) (hx : ¬ o.drawn x) (hp : c.Proper x)
    (h : Changes o c c') : c'.Proper x := by
  induction h with
  | refl => exact hp
  | tail hcs hs ih =>
    refine ih.change (fun hnone => ?_) hx hs
    exact (hm hnone).trans (Changes.myself hcs).symm

/-- The sender of a message stays, as long as it is being read. -/
theorem Present.changes {m : Message} (hp : Present o c n) (hm : o.msg = some m) (hn : n = m.sender) :
    Present o c' n := by
  rcases hp with hp | hd
  · by_cases hd : o.drawn n
    · exact Or.inr ⟨hd, m, hm, hn⟩
    · exact Or.inl (hp.changes (by simp [hm]) hd h)
  · exact Or.inr hd

theorem Changes.fail_back (hx : ¬ o.drawn x) (hmet : o.met x) (hf : ¬ o.flags x)
    (hfail : (c'.table.node x).fail = true) : (c.table.node x).fail = true :=
  h.invariant (P := fun a => (a.table.node x).fail = true → (c.table.node x).fail = true)
    (fun _ _ ha hs hb => ha (hs.fail_back hx hmet hf hb)) id hfail

theorem Changes.own_slots_subset (hm : o.msg.isSome) (hmet : o.met c.myself) :
    c'.table.own.slots c'.myself ⊆ c.table.own.slots c.myself := by
  induction h with
  | refl => exact Finset.Subset.refl _
  | tail hcs hs ih =>
    refine (hs.own_slots_subset hm ?_).trans ih
    rw [Changes.myself hcs]
    exact hmet

theorem Changes.master_kept (hx : ¬ o.drawn x) (hmet : o.met x)
    (hme : x ≠ c.myself) (hr : ¬ o.resigns x) (hm : (c.table.node x).master = true) :
    (c'.table.node x).master = true := by
  induction h with
  | refl => exact hm
  | tail hcs hs ih =>
    refine hs.master_kept hx hmet (fun e => ?_) hr ih
    exact hme (e.trans (Changes.myself hcs))

theorem Changes.epoch_le (hx : ¬ o.drawn x) (hmet : o.met x)
    (hme : x ≠ c.myself) : (c.table.node x).config_epoch ≤ (c'.table.node x).config_epoch := by
  induction h with
  | refl => exact le_rfl
  | tail hcs hs ih => exact ih.trans (hs.epoch_le hx hmet fun e => hme (e.trans (Changes.myself hcs)))

end

/-! ## New ids -/

/-- The ids that may be drawn are nobody's: no node is known under them, and the message
does not come from one. -/
structure Cause.Novel (o : Cause) (c : Cluster) : Prop where
  proper : ∀ id, o.drawn id → ¬ c.Proper id
  sender : ∀ m, o.msg = some m → ¬ o.drawn m.sender

theorem Cause.Novel.still (c : Cluster) : Cause.Novel Cause.still c :=
  ⟨fun _ h => h.elim, fun _ h => nomatch h⟩

theorem Cause.Novel.change (h : Cause.Novel o c) (hs : Change o c c') : Cause.Novel o c' where
  proper id hid hp := by
    rcases hs.proper_back hp with hp | ⟨⟨m, hm, rfl⟩, -⟩
    · exact h.proper id hid hp
    · exact h.sender m hm hid
  sender := h.sender

theorem Cause.Novel.changes (h : Cause.Novel o c) (hs : Changes o c c') : Cause.Novel o c' :=
  hs.invariant (fun _ _ ha hab => ha.change hab) h

/-- A property that every change keeps while the ids drawn are new. -/
theorem Changes.invariant_novel {P : Cluster → Prop} (h : Changes o c c') (hn : Cause.Novel o c)
    (hstep : ∀ a b, Cause.Novel o a → P a → Change o a b → P b) (hc : P c) : P c' := by
  have hboth : Cause.Novel o c' ∧ P c' := by
    refine h.invariant (P := fun a => Cause.Novel o a ∧ P a) ?_ ⟨hn, hc⟩
    intro a b ha hab
    exact ⟨ha.1.change hab, hstep a b ha.1 ha.2 hab⟩
  exact hboth.2

theorem Present.proper (h : Present o c n) (ho : Cause.Novel o c) : c.Proper n := by
  rcases h with hp | ⟨hd, m, hm, rfl⟩
  · exact hp
  · exact absurd hd (ho.sender m hm)

end Cluster

end EpochKV

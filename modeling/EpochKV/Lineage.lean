/-
The names of histories: any number of servers that follow one another, are promoted, restart
and lose their connections, in any order (`replication.cpp`).

A server names its data by a replication id and an offset, and a replica that comes back
asks to go on from there (`PSYNC id offset`). Whether that is right is not for one server to
see: the id may be the master's own, one it took over from its master, or the one it had
before a promotion (`replid2`, up to an offset).

What the names stand for is written beside the state. The `history` of a server is the data
its stream began with and every byte since; the backlog holds its end. `lore` has the longest
history there was under an id, also when the servers are gone. `Sound` relates these, and
every event keeps it.

The bytes on their way from one server to another stand in the link, and any number of them
is applied at a time. A transfer that fails is a lost link; the one failure that is not (the
snapshot arrives and is not installed: `Resync`) leaves a name for other data and is left out.
Offsets stay below 2 ^ 63, which is what `PSYNC` can parse.
-/
import EpochKV.Runs
import EpochKV.Backlog

set_option autoImplicit false

namespace EpochKV.Lineage

open Text

variable {σ D : Type}

/-- The data a server has when its stream starts, and the stream. -/
structure History (D : Type) where
  start : D
  log : Bytes

namespace History

def append (h : History D) (data : Bytes) : History D := { h with log := h.log ++ data }

/-- The one is a first part of the other. -/
instance : Preorder (History D) where
  le h k := h.start = k.start ∧ h.log <+: k.log
  le_refl _ := ⟨rfl, List.prefix_rfl⟩
  le_trans _ _ _ h h' := ⟨h.1.trans h'.1, h.2.trans h'.2⟩

theorem le_append (h : History D) (data : Bytes) : h ≤ h.append data :=
  ⟨rfl, List.prefix_append _ _⟩

end History

/-! ## The servers -/

/-- How far a replica has come with its master, and the stream on its way to it. -/
inductive Phase (D : Type) where
  | asked (replid : Bytes) (offset : Int)
  /-- It waits for a snapshot to begin. -/
  | waiting
  | continued (id stream : Bytes)
  /-- With what the snapshot was made of. -/
  | fullresync (id : Bytes) (offset : UInt64) (history : History D) (stream : Bytes)
  | connected (stream : Bytes)

/-- A replica's connection. Once the master has closed its end, what was sent before can
still arrive. -/
structure Link (σ D : Type) where
  master : σ
  attached : Bool
  phase : Phase D

/-- `Replication`, apart from the link. -/
structure Node (σ D : Type) where
  replid : Bytes
  replid2 : Bytes
  second_replid_offset : Option UInt64
  backlog : Backlog
  stream_started : Bool
  master : Option σ
  history : History D

variable {n n' np np' : Node σ D} {l l' : Link σ D} {s p q : σ} {a : Bool} {i stream d : Bytes}
  {h k : History D}

namespace Node

def wants_commands (n : Node σ D) : Bool := n.stream_started && n.master.isNone

def offset (n : Node σ D) : UInt64 := n.backlog.offset

def feed (n : Node σ D) (data : Bytes) : Node σ D :=
  { n with backlog := n.backlog.append data, history := n.history.append data }

/-- The history goes on under another id: `shift_replid`, and `+CONTINUE` with an id that is
not ours. -/
def shift_replid (n : Node σ D) (id : Bytes) : Node σ D :=
  { n with replid2 := n.replid, second_replid_offset := some n.offset, replid := id }

/-- The rest of the stream, if the name is one of ours and the backlog has it. -/
def try_partial_resync (n : Node σ D) (replid : Bytes) (offset : Int) : Option Bytes :=
  if offset < 0 then none
  else
    let start := UInt64.ofNat offset.toNat
    let same_history : Bool := replid = n.replid
      ∨ replid = n.replid2 ∧ n.second_replid_offset.any (start ≤ ·)
    if same_history && n.backlog.contains start then some (n.backlog.copy_from start [])
    else none

/-- A snapshot is installed. -/
def finish_transfer (n : Node σ D) (id : Bytes) (offset : UInt64) (history : History D) :
    Node σ D :=
  { n with replid := id, replid2 := List.replicate 40 48, second_replid_offset := none,
           backlog := n.backlog.reset offset, history := history }

/-- A process starts. -/
def boot (replid : Bytes) (start : D) (backlog_size : Nat) : Node σ D where
  replid := replid
  replid2 := List.replicate 40 48
  second_replid_offset := none
  backlog := Backlog.of_capacity backlog_size
  stream_started := false
  master := none
  history := ⟨start, []⟩

end Node

def Phase.fed (data : Bytes) : Phase D → Phase D
  | .continued id stream => .continued id (stream ++ data)
  | .fullresync id offset history stream => .fullresync id offset history (stream ++ data)
  | .connected stream => .connected (stream ++ data)
  | phase => phase

def Phase.is_asked : Phase D → Bool
  | .asked _ _ => true
  | _ => false

/-! ## All of them -/

structure World (σ D : Type) where
  node : σ → Node σ D
  link : σ → Option (Link σ D)
  replid_shared : σ → Bool
  lore : Bytes → Option (History D)

variable {w : World σ D} {lore lore' : Bytes → Option (History D)}

inductive Event (σ D : Type) where
  | write (s : σ) (data : Bytes)
  | replicaof (s p : σ)
  | replicaof_no_one (s : σ) (fresh : Bytes)
  | connect (q : σ)
  | psync (q : σ)
  | snapshot (q : σ)
  | reply (q : σ)
  | apply (q : σ) (count : Nat)
  /-- The replica's end of the connection is closed. -/
  | lose (q : σ)
  /-- The master's end is. -/
  | close (q : σ)
  | restart (s : σ) (fresh : Bytes) (start : D) (backlog_size : Nat)

section Steps

variable [DecidableEq σ]

def Link.fed (s : σ) (data : Bytes) (l : Link σ D) : Link σ D :=
  if l.master = s ∧ l.attached then { l with phase := l.phase.fed data } else l

def Link.cut (s : σ) (l : Link σ D) : Link σ D :=
  if l.master = s then { l with attached := false } else l

/-- A client that has only asked is not among the replicas. -/
def Link.closed (s : σ) (l : Link σ D) : Link σ D := if l.phase.is_asked then l else l.cut s

namespace World

/-- The state of a server; the lore has what a master does. -/
def put (w : World σ D) (s : σ) (n : Node σ D) : World σ D :=
  { w with
    node := Function.update w.node s n
    lore := if n.wants_commands then Function.update w.lore n.replid (some n.history) else w.lore }

def set_link (w : World σ D) (q : σ) (l : Option (Link σ D)) : World σ D :=
  { w with link := Function.update w.link q l }

def share (w : World σ D) (s : σ) (shared : Bool) : World σ D :=
  { w with replid_shared := Function.update w.replid_shared s shared }

def links (w : World σ D) (f : Link σ D → Link σ D) : World σ D :=
  { w with link := fun q => (w.link q).map f }

def feed (w : World σ D) (s : σ) (data : Bytes) : World σ D :=
  (w.links (Link.fed s data)).put s ((w.node s).feed data)

def disconnect_replicas (w : World σ D) (s : σ) : World σ D := w.links (Link.closed s)

def propagate (w : World σ D) (s : σ) (data : Bytes) : World σ D :=
  if (w.node s).wants_commands then w.feed s data else w

/-- From now on every write is in the stream. -/
def start_stream (w : World σ D) (s : σ) : World σ D :=
  w.put s { w.node s with stream_started := true }

def replicaof (w : World σ D) (s p : σ) : World σ D :=
  if (w.node s).master = some p then w
  else (((w.start_stream s).set_link s none).disconnect_replicas s).put s
    { w.node s with stream_started := true, master := some p }

def replicaof_no_one (w : World σ D) (s : σ) (fresh : Bytes) : World σ D :=
  if (w.node s).master = none then w
  else (((w.share s false).set_link s none).disconnect_replicas s).put s
    { (w.node s).shift_replid fresh with master := none }

/-- The PSYNC of the handshake. -/
def connect (w : World σ D) (q : σ) : World σ D :=
  match (w.node q).master, w.link q with
  | some p, none => w.set_link q (some ⟨p, true,
      if w.replid_shared q then .asked (w.node q).replid (w.node q).offset.toNat
      else .asked (lit "?") (-1)⟩)
  | _, _ => w

/-- `link_state_ == kConnected`. -/
def is_connected (w : World σ D) (s : σ) : Bool :=
  match w.link s with
  | some ⟨_, _, .connected _⟩ => true
  | _ => false

/-- A partial resync, or a snapshot later. -/
def answer (w : World σ D) (p q : σ) (replid : Bytes) (offset : Int) : World σ D :=
  match (w.node p).try_partial_resync replid offset with
  | some rest =>
    (w.set_link q (some ⟨p, true, .continued (w.node p).replid rest⟩)).share p true
  | none => w.set_link q (some ⟨p, true, .waiting⟩)

/-- The master of `q` gets its request. -/
def psync (w : World σ D) (q : σ) : World σ D :=
  match w.link q with
  | some ⟨p, true, .asked replid offset⟩ =>
    -- NOMASTERLINK
    if (w.node p).master.isSome && !w.is_connected p then w.set_link q none
    else (w.start_stream p).answer p q replid offset
  | _ => w

/-- `start_snapshot_for_replicas`, for one of them. -/
def snapshot (w : World σ D) (q : σ) : World σ D :=
  match w.link q with
  | some ⟨p, true, .waiting⟩ =>
    let n := w.node p
    (w.set_link q (some ⟨p, true, .fullresync n.replid n.offset n.history []⟩)).share p true
  | _ => w

/-- `adopt_link`, by a replica that first closes the links of its own. -/
def adopt (w : World σ D) (q p : σ) (attached : Bool) (stream : Bytes) (n : Node σ D) :
    World σ D :=
  (((w.set_link q (some ⟨p, attached, .connected stream⟩)).disconnect_replicas q).put q n).share
    q true

/-- The answer arrives: `handle_psync_reply`, or the end of the transfer. -/
def reply (w : World σ D) (q : σ) : World σ D :=
  match w.link q with
  | some ⟨p, attached, .continued id stream⟩ =>
    if id = (w.node q).replid then
      (w.set_link q (some ⟨p, attached, .connected stream⟩)).share q true
    else w.adopt q p attached stream ((w.node q).shift_replid id)
  | some ⟨p, attached, .fullresync id offset history stream⟩ =>
    w.adopt q p attached stream ((w.node q).finish_transfer id offset history)
  | _ => w

/-- `master_command_applied`. -/
def apply (w : World σ D) (q : σ) (count : Nat) : World σ D :=
  match w.link q with
  | some ⟨p, attached, .connected stream⟩ =>
    (w.feed q (stream.take count)).set_link q
      (some ⟨p, attached, .connected (stream.drop count)⟩)
  | _ => w

def restart (w : World σ D) (s : σ) (fresh : Bytes) (start : D) (size : Nat) : World σ D :=
  (((w.share s false).set_link s none).links (Link.cut s)).put s (.boot fresh start size)

def step (w : World σ D) : Event σ D → World σ D
  | .write s data => w.propagate s data
  | .replicaof s p => w.replicaof s p
  | .replicaof_no_one s fresh => w.replicaof_no_one s fresh
  | .connect q => w.connect q
  | .psync q => w.psync q
  | .snapshot q => w.snapshot q
  | .reply q => w.reply q
  | .apply q count => w.apply q count
  | .lose q => w.set_link q none
  | .close q => w.set_link q ((w.link q).map fun l => { l with attached := false })
  | .restart s fresh start size => w.restart s fresh start size

def Fresh (w : World σ D) (id : Bytes) : Prop := w.lore id = none ∧ ∀ s, (w.node s).replid ≠ id

/-- Ids are drawn anew, and offsets can be parsed. -/
def Allowed (w : World σ D) : Event σ D → Prop
  | .write s data => ((w.node s).history.append data).log.length < 2 ^ 63
  | .replicaof_no_one _ fresh => w.Fresh fresh
  | .restart _ fresh _ _ => w.Fresh fresh
  | _ => True

/-- Servers that have just started. -/
def Initial (w : World σ D) : Prop :=
  (∀ s, w.link s = none ∧ ∃ start size, w.node s = .boot (w.node s).replid start size)
    ∧ (∀ s t, (w.node s).replid = (w.node t).replid → s = t) ∧ w.lore = fun _ => none

end World

end Steps

/-! ## What a name stands for -/

/-- `h` is a first part of the history of `id`. -/
def Known (lore : Bytes → Option (History D)) (id : Bytes) (h : History D) : Prop :=
  ∃ all, lore id = some all ∧ h ≤ all

/-- Histories only grow. -/
def Extends (lore lore' : Bytes → Option (History D)) : Prop :=
  ∀ id h, lore id = some h → Known lore' id h

theorem Known.mono (hk : Known lore i h) (hx : Extends lore lore') : Known lore' i h := by
  obtain ⟨all, hall, hle⟩ := hk
  obtain ⟨all', hall', hle'⟩ := hx i all hall
  exact ⟨all', hall', hle.trans hle'⟩

theorem Known.of_le (hk : Known lore i k) (hle : h ≤ k) : Known lore i h := by
  obtain ⟨all, hall, hk⟩ := hk
  exact ⟨all, hall, hle.trans hk⟩

/-- Of two histories under one id the shorter is a first part of the longer. -/
theorem Known.compare (hh : Known lore i h) (hk : Known lore i k)
    (hle : h.log.length ≤ k.log.length) : h ≤ k := by
  obtain ⟨all, hall, hh⟩ := hh
  obtain ⟨all', hall', hk⟩ := hk
  obtain rfl := Option.some.inj (hall.symm.trans hall')
  exact ⟨hh.1.trans hk.1.symm, List.prefix_of_prefix_length_le hh.2 hk.2 hle⟩

theorem extends_refl : Extends lore lore := fun _ h hh => ⟨h, hh, le_rfl⟩

/-- The backlog holds the end of the log. -/
def Held (b : Backlog) (log : Bytes) : Prop :=
  ∃ pre rest, log = pre ++ rest ∧ b.Holds (UInt64.ofNat pre.length) rest

/-- The other name is good up to its offset. -/
def Node.Second (n : Node σ D) (lore : Bytes → Option (History D)) : Prop :=
  ∀ k, n.second_replid_offset = some k →
    ∃ h ≤ n.history, h.log.length = k.toNat ∧ Known lore n.replid2 h

/-- What one server's fields say about its history. -/
structure Node.Named (n : Node σ D) (lore : Bytes → Option (History D)) : Prop where
  silent : n.stream_started = false → lore n.replid = none ∧ n.second_replid_offset = none
    ∧ n.history.log = [] ∧ n.master = none
  known : n.stream_started = true → Known lore n.replid n.history
  owner : n.wants_commands = true → lore n.replid = some n.history
  second : n.Second lore
  held : Held n.backlog n.history.log

/-- What is on its way to a replica goes on from a known history; as long as the master feeds
the connection, it ends where the master is. -/
def Follows (lore : Bytes → Option (History D)) (np : Node σ D) (attached : Bool) (id : Bytes)
    (h : History D) : Prop :=
  Known lore id h ∧ (attached = true → np.replid = id ∧ np.history = h)

/-- The link `l` of the replica `n` to the master `np`. -/
def Tracks (lore : Bytes → Option (History D)) (n np : Node σ D) (l : Link σ D) : Prop :=
  n.master = some l.master ∧ match l.phase with
    | .asked id offset => offset < 0 ∨ id = n.replid ∧ offset = n.history.log.length
    | .waiting => l.attached = true → np.stream_started = true
    | .continued id stream => Follows lore np l.attached id (n.history.append stream)
    | .fullresync id offset history stream => offset = UInt64.ofNat history.log.length
        ∧ Follows lore np l.attached id (history.append stream)
    | .connected stream => Follows lore np l.attached n.replid (n.history.append stream)

structure Sound (w : World σ D) : Prop where
  named : ∀ s, (w.node s).Named w.lore
  /-- No two masters have one id. -/
  alone : ∀ s t, (w.node s).master = none → (w.node t).master = none →
    (w.node s).replid = (w.node t).replid → s = t
  short : ∀ id h, w.lore id = some h → h.log.length < 2 ^ 63
  link : ∀ q l, w.link q = some l → Tracks w.lore (w.node q) (w.node l.master) l

theorem Sound.started (hw : Sound w) (hm : (w.node s).master = some p) :
    (w.node s).stream_started = true := by
  by_contra hs
  exact absurd (hm.symm.trans ((hw.named s).silent (Bool.eq_false_iff.mpr hs)).2.2.2) nofun

theorem Sound.log_short (hw : Sound w) (s : σ) : (w.node s).history.log.length < 2 ^ 63 := by
  by_cases hs : (w.node s).stream_started = true
  · obtain ⟨all, hall, hle⟩ := (hw.named s).known hs
    exact hle.2.length_le.trans_lt (hw.short _ _ hall)
  · rw [((hw.named s).silent (Bool.eq_false_iff.mpr hs)).2.2.1]
    decide

/-! ## The backlog -/

variable {b : Backlog} {log pre : Bytes}

theorem held_nil (hb : b.histlen = 0) (ho : b.offset = UInt64.ofNat log.length) : Held b log :=
  ⟨log, [], (List.append_nil _).symm, ho ▸ Backlog.holds_nil hb⟩

theorem named_boot (hi : lore i = none) (start : D) (size : Nat) :
    (Node.boot i start size : Node σ D).Named lore where
  silent _ := ⟨hi, rfl, rfl, rfl⟩
  known := nofun
  owner := nofun
  second := nofun
  held := held_nil rfl rfl

theorem Held.offset (hb : Held b log) : b.offset = UInt64.ofNat log.length := by
  obtain ⟨pre, rest, rfl, hb⟩ := hb
  rw [hb.offset, List.length_append, UInt64.ofNat_add]

theorem Held.append (hb : Held b log) (data : Bytes) : Held (b.append data) (log ++ data) := by
  obtain ⟨pre, rest, rfl, hb⟩ := hb
  exact ⟨pre, rest ++ data, List.append_assoc .., (hb.append data).1⟩

/-- What the backlog gives from the end of a first part on is the rest. -/
theorem Held.copy_from (hb : Held b log) (hp : pre <+: log) (hshort : log.length < 2 ^ 63)
    (hin : b.contains (UInt64.ofNat pre.length) = true) :
    pre ++ b.copy_from (UInt64.ofNat pre.length) [] = log := by
  have hoff := hb.offset
  have hback := Backlog.back_le_histlen hin
  obtain ⟨gone, rest, rfl, hb⟩ := hb
  have hle := hp.length_le
  have hhist := hb.histlen
  rw [List.length_append] at hle hshort hoff
  have hdiff : (b.offset - UInt64.ofNat pre.length).toNat
      = gone.length + rest.length - pre.length := by
    rw [hoff, UInt64.toNat_sub, UInt64.toNat_ofNat', UInt64.toNat_ofNat']
    omega
  rw [hdiff] at hback
  -- `pre` ends inside what the backlog holds
  have hsum : pre.length
      = gone.length + (rest.length - (gone.length + rest.length - pre.length)) := by omega
  rw [hb.copy_from hin, hdiff, List.nil_append, ← List.drop_length_add_append, ← hsum]
  exact List.prefix_iff_eq_append.mp hp

theorem Sound.toNat_offset (hw : Sound w) (s : σ) :
    (w.node s).offset.toNat = (w.node s).history.log.length := by
  have hshort := hw.log_short s
  rw [Node.offset, (hw.named s).held.offset, UInt64.toNat_ofNat']
  exact Nat.mod_eq_of_lt (by omega)

/-- **What is continued is right.** The replica holds a first part of what the master has,
and gets the rest. -/
theorem Sound.continues (hw : Sound w) {rest : Bytes} {offset : Int}
    (hl : w.link q = some ⟨p, a, .asked i offset⟩)
    (hc : (w.node p).try_partial_resync i offset = some rest) :
    (w.node q).history.append rest = (w.node p).history := by
  obtain ⟨hm, ht⟩ := hw.link q _ hl
  have hknown := (hw.named q).known (hw.started hm)
  have hq := hw.log_short q
  have hp := hw.log_short p
  rw [Node.try_partial_resync] at hc
  by_cases hneg : offset < 0
  · rw [if_pos hneg] at hc
    exact absurd hc nofun
  obtain ⟨rfl, rfl⟩ := ht.resolve_left hneg
  rw [if_neg hneg, Int.toNat_natCast] at hc
  simp only [Bool.and_eq_true, decide_eq_true_eq, Option.ite_none_right_eq_some,
    Option.some.injEq] at hc
  obtain ⟨⟨hname, hin⟩, rfl⟩ := hc
  -- either name stands for a first part of what the master has, and a longer one
  obtain ⟨h, hh, hlen, hsame⟩ : ∃ h ≤ (w.node p).history,
      (w.node q).history.log.length ≤ h.log.length ∧ Known w.lore (w.node q).replid h := by
    rcases hname with hid | ⟨hid, hsecond⟩
    · refine ⟨_, le_rfl, ?_, ?_⟩
      · have hle := UInt64.le_iff_toNat_le.mp (Backlog.contains_iff.mp hin).2
        rwa [(hw.named p).held.offset, UInt64.toNat_ofNat', UInt64.toNat_ofNat',
          Nat.mod_eq_of_lt (by omega), Nat.mod_eq_of_lt (by omega)] at hle
      · rw [hid] at hknown ⊢
        refine (hw.named p).known ?_
        by_contra hs
        obtain ⟨all, hall, -⟩ := hknown
        exact absurd (((hw.named p).silent (Bool.eq_false_iff.mpr hs)).1.symm.trans hall) nofun
    · cases hk : (w.node p).second_replid_offset with
      | none => exact absurd (hk ▸ hsecond) nofun
      | some k =>
        rw [hk] at hsecond
        have hqk := UInt64.le_iff_toNat_le.mp (of_decide_eq_true hsecond)
        rw [UInt64.toNat_ofNat', Nat.mod_eq_of_lt (by omega)] at hqk
        obtain ⟨h, hh, hlen, hold⟩ := (hw.named p).second k hk
        exact ⟨h, hh, hlen ▸ hqk, hid ▸ hold⟩
  have hle := (hknown.compare hsame hlen).trans hh
  show History.mk _ _ = _
  rw [hle.1, (hw.named p).held.copy_from hle.2 hp hin]

/-! ## One server changes -/

/-- The same history under the same name. -/
structure Same (n n' : Node σ D) : Prop where
  replid : n'.replid = n.replid
  history : n'.history = n.history
  master : n'.master = n.master
  started : n.stream_started = true → n'.stream_started = true

theorem same_refl (n : Node σ D) : Same n n := ⟨rfl, rfl, rfl, id⟩

theorem Follows.mono {a' : Bool} (hf : Follows lore np a i h) (hx : Extends lore lore')
    (hp : a' = true → a = true ∧ Same np np') : Follows lore' np' a' i h := by
  refine ⟨hf.1.mono hx, fun ha => ?_⟩
  obtain ⟨ha, hsame⟩ := hp ha
  rw [hsame.replid, hsame.history]
  exact hf.2 ha

theorem Tracks.mono (ht : Tracks lore n np l) (hx : Extends lore lore') (hn : Same n n')
    (hl : l'.master = l.master ∧ l'.phase = l.phase)
    (hp : l'.attached = true → l.attached = true ∧ (l.phase.is_asked = true ∨ Same np np')) :
    Tracks lore' n' np' l' := by
  obtain ⟨m, a, phase⟩ := l
  obtain ⟨m', a', phase'⟩ := l'
  obtain ⟨rfl, rfl⟩ : m' = m ∧ phase' = phase := hl
  refine ⟨hn.master.trans ht.1, ?_⟩
  have ht := ht.2
  rw [hn.replid, hn.history]
  cases phase' with
  | asked id offset => exact ht
  | waiting => exact fun ha => ((hp ha).2.resolve_left nofun).started (ht (hp ha).1)
  | fullresync id offset history stream =>
    exact ⟨ht.1, ht.2.mono hx fun ha => ⟨(hp ha).1, (hp ha).2.resolve_left nofun⟩⟩
  | continued | connected =>
    exact Follows.mono ht hx fun ha => ⟨(hp ha).1, (hp ha).2.resolve_left nofun⟩

theorem Node.Second.mono (hn : n.Second lore) (hx : Extends lore lore') : n.Second lore' := by
  intro k hk
  obtain ⟨h, hh, hlen, hknown⟩ := hn k hk
  exact ⟨h, hh, hlen, hknown.mono hx⟩

/-- The old name is good up to the offset it is left at. -/
theorem Sound.second_shift (hw : Sound w) (hs : (w.node s).stream_started = true) :
    ((w.node s).shift_replid i).Second w.lore := by
  intro k hk
  obtain rfl := Option.some.inj hk
  exact ⟨_, le_rfl, (hw.toNat_offset s).symm, (hw.named s).known hs⟩

theorem Node.wants_iff : n.wants_commands = true ↔ n.stream_started = true ∧ n.master = none := by
  rw [Node.wants_commands, Bool.and_eq_true, Option.isNone_iff_eq_none]

/-- What a server may do as a master: go on, or begin with an id no other master has. -/
def Leads (w : World σ D) (s : σ) (n : Node σ D) : Prop :=
  n.master = none → (∀ all, w.lore n.replid = some all → all ≤ n.history)
    ∧ n.history.log.length < 2 ^ 63
    ∧ ∀ t, t ≠ s → (w.node t).master = none → (w.node t).replid ≠ n.replid

/-- A replica does not lead. -/
theorem leads_of_replica (hm : n.master = some p) : Leads w s n :=
  fun hnone => absurd (hm.symm.trans hnone) nofun

section Steps

variable [DecidableEq σ]

theorem World.lore_put (w : World σ D) (s : σ) (n : Node σ D) (id : Bytes) :
    (w.put s n).lore id = w.lore id ∨
      n.wants_commands = true ∧ id = n.replid ∧ (w.put s n).lore id = some n.history := by
  by_cases hn : n.wants_commands = true
  · rw [World.put, if_pos hn]
    by_cases hid : id = n.replid
    · exact .inr ⟨hn, hid, hid ▸ Function.update_self ..⟩
    · exact .inl (Function.update_of_ne hid ..)
  · rw [World.put, if_neg hn]
    exact .inl rfl

theorem World.lore_put_self (hn : n.wants_commands = true) :
    (w.put s n).lore n.replid = some n.history := by
  rw [World.put, if_pos hn]
  exact Function.update_self ..

theorem Leads.extends (hn : Leads w s n) : Extends w.lore (w.put s n).lore := by
  intro id h hid
  rcases w.lore_put s n id with hput | ⟨hw, rfl, hput⟩
  · exact ⟨h, hput.trans hid, le_rfl⟩
  · exact ⟨_, hput, (hn (Node.wants_iff.mp hw).2).1 h hid⟩

theorem Sound.put (hw : Sound w) {f : σ → Option (Link σ D)} (hlead : Leads w s n)
    (hn : n.Named (w.put s n).lore)
    (hlink : ∀ q l, f q = some l → Tracks (w.put s n).lore (Function.update w.node s n q)
      (Function.update w.node s n l.master) l) :
    Sound ({ w with link := f }.put s n) := by
  have hx := hlead.extends
  -- the name of another master is not touched
  have hsame : ∀ t, t ≠ s → (w.node t).master = none →
      (w.put s n).lore (w.node t).replid = w.lore (w.node t).replid := by
    intro t ht hm
    rcases w.lore_put s n (w.node t).replid with hput | ⟨hwants, hid, -⟩
    · exact hput
    · exact absurd hid ((hlead (Node.wants_iff.mp hwants).2).2.2 t ht hm)
  refine ⟨(Function.forall_update_iff w.node fun _ n' => n'.Named (w.put s n).lore).mpr
    ⟨hn, fun t ht => ?_⟩, fun t u => ?_, fun id h hid => ?_, hlink⟩
  · have hold := hw.named t
    exact
      { silent := fun hf => ⟨(hsame t ht (hold.silent hf).2.2.2).trans (hold.silent hf).1,
          (hold.silent hf).2⟩
        known := fun hs => (hold.known hs).mono hx
        owner := fun hs => (hsame t ht (Node.wants_iff.mp hs).2).trans (hold.owner hs)
        second := hold.second.mono hx
        held := hold.held }
  · show (Function.update w.node s n t).master = none →
      (Function.update w.node s n u).master = none →
      (Function.update w.node s n t).replid = (Function.update w.node s n u).replid → t = u
    have hold := hw.alone t u
    -- two old masters, or an old one and the new one
    have hne := fun hm => (hlead hm).2.2
    grind [Function.update_apply]
  · rcases w.lore_put s n id with hput | ⟨hwants, -, hput⟩
    · exact hw.short id h (hput.symm.trans hid)
    · obtain rfl := Option.some.inj (hput.symm.trans hid)
      exact (hlead (Node.wants_iff.mp hwants).2).2.1

/-- A server with a stream. -/
theorem Leads.named (hlead : Leads w s n) (hs : n.stream_started = true)
    (hknown : n.master ≠ none → Known w.lore n.replid n.history)
    (hsecond : n.Second w.lore) (hheld : Held n.backlog n.history.log) :
    n.Named (w.put s n).lore where
  silent hf := absurd (hs.symm.trans hf) nofun
  known _ := by
    by_cases hm : n.master = none
    · exact ⟨_, World.lore_put_self (Node.wants_iff.mpr ⟨hs, hm⟩), le_rfl⟩
    · exact (hknown hm).mono hlead.extends
  owner := World.lore_put_self
  second := hsecond.mono hlead.extends
  held := hheld

/-- The master's ends of the links to `s` are closed. -/
def Cuts (s : σ) (f : Link σ D → Link σ D) : Prop :=
  ∀ l, ((f l).master = l.master ∧ (f l).phase = l.phase) ∧ ((f l).attached = true →
    l.attached = true ∧ (l.master = s → l.phase.is_asked = true))

theorem cuts_cut (s : σ) : Cuts s (Link.cut s : Link σ D → _) := by
  intro l
  grind [Link.cut]

theorem cuts_closed (s : σ) : Cuts s (Link.closed s : Link σ D → _) := by
  intro l
  have hcut := cuts_cut s l
  grind [Link.closed]

section

variable (hw : Sound w)
include hw

/-- A server may take another name when it has closed the links of its replicas. -/
theorem Sound.rename {f : Link σ D → Link σ D} {o : Option (Link σ D)}
    (hf : Cuts s f) (hlead : Leads w s n) (hn : n.Named (w.put s n).lore)
    (hown : ∀ l, o = some l → Tracks w.lore n (w.node l.master) l) :
    Sound (((w.set_link s o).links f).put s n) := by
  refine hw.put hlead hn fun q l hl => ?_
  obtain ⟨k, hk, rfl⟩ := Option.map_eq_some_iff.mp hl
  -- before the links are cut, with the master's old state
  have ht : Tracks w.lore (Function.update w.node s n q) (w.node k.master) k := by
    have hk : Function.update w.link s o q = some k := hk
    by_cases hq : q = s
    · subst hq
      rw [Function.update_self] at hk ⊢
      exact hown k hk
    · rw [Function.update_of_ne hq] at hk ⊢
      exact hw.link q k hk
  refine ht.mono hlead.extends (same_refl _) (hf k).1 fun ha => ⟨((hf k).2 ha).1, ?_⟩
  by_cases hm : k.master = s
  · exact .inl (((hf k).2 ha).2 hm)
  · rw [(hf k).1.1, Function.update_of_ne hm]
    exact .inr (same_refl _)

/-! ## The events -/

theorem Sound.set_link {o : Option (Link σ D)}
    (hown : ∀ l, o = some l → Tracks w.lore (w.node q) (w.node l.master) l) :
    Sound (w.set_link q o) := by
  refine ⟨hw.named, hw.alone, hw.short, ?_⟩
  exact (Function.forall_update_iff w.link fun t k =>
    ∀ l, k = some l → Tracks w.lore (w.node t) (w.node l.master) l).mpr
    ⟨hown, fun t _ => hw.link t⟩

theorem Sound.link_to (ht : Tracks w.lore (w.node q) (w.node l.master) l) :
    Sound (w.set_link q (some l)) :=
  hw.set_link fun _ hk => Option.some.inj hk ▸ ht

theorem Sound.share (s : σ) (shared : Bool) : Sound (w.share s shared) :=
  ⟨hw.named, hw.alone, hw.short, hw.link⟩

omit hw in
theorem World.start_stream_self (w : World σ D) (s : σ) :
    (w.start_stream s).node s = { w.node s with stream_started := true } :=
  Function.update_self ..

theorem Sound.start_stream (s : σ) : Sound (w.start_stream s) := by
  have hn := hw.named s
  have hlead : Leads w s { w.node s with stream_started := true } := by
    intro hm
    refine ⟨fun all hall => ?_, hw.log_short s, fun t ht hmt hid => ht (hw.alone t s hmt hm hid)⟩
    -- a stream that has not started has no lore to go back on
    by_cases hs : (w.node s).stream_started = true
    · exact (Option.some.inj (hall.symm.trans (hn.owner (Node.wants_iff.mpr ⟨hs, hm⟩)))).le
    · exact absurd ((hn.silent (Bool.eq_false_iff.mpr hs)).1.symm.trans hall) nofun
  have hsame : ∀ t, Same (w.node t)
      (Function.update w.node s { w.node s with stream_started := true } t) :=
    (Function.forall_update_iff w.node fun t n => Same (w.node t) n).mpr
      ⟨⟨rfl, rfl, rfl, fun _ => rfl⟩, fun t _ => same_refl _⟩
  refine hw.put (f := w.link) hlead (hlead.named rfl (fun hm => ?_) hn.second hn.held) ?_
  · obtain ⟨p, hm⟩ := Option.ne_none_iff_exists'.mp hm
    exact hn.known (hw.started hm)
  · exact fun q l hl => (hw.link q l hl).mono hlead.extends (hsame q) ⟨rfl, rfl⟩
      fun ha => ⟨ha, .inr (hsame _)⟩

theorem Sound.replicaof (s p : σ) : Sound (w.replicaof s p) := by
  rw [World.replicaof]
  split
  · exact hw
  have hw := hw.start_stream s
  have hn := hw.named s
  rw [w.start_stream_self] at hn
  have hlead : Leads (w.start_stream s) s { w.node s with stream_started := true, master := some p } :=
    leads_of_replica rfl
  exact hw.rename (cuts_closed s) hlead
    (hlead.named rfl (fun _ => hn.known rfl) hn.second hn.held) nofun

theorem Sound.replicaof_no_one (s : σ) {fresh : Bytes} (hfresh : w.Fresh fresh) :
    Sound (w.replicaof_no_one s fresh) := by
  rw [World.replicaof_no_one]
  split
  · exact hw
  next hm =>
    obtain ⟨p, hm⟩ := Option.ne_none_iff_exists'.mp hm
    have hs := hw.started hm
    have hlead : Leads w s { (w.node s).shift_replid fresh with master := none } := fun _ =>
      ⟨fun all hall => absurd (hfresh.1.symm.trans hall) nofun, hw.log_short s,
        fun t _ _ => hfresh.2 t⟩
    exact (hw.share s false).rename (cuts_closed s) hlead
      (hlead.named hs (absurd rfl) (hw.second_shift (i := fresh) hs) (hw.named s).held) nofun

theorem Sound.restart (s : σ) {fresh : Bytes} (hfresh : w.Fresh fresh) (start : D)
    (size : Nat) : Sound (w.restart s fresh start size) := by
  have hlead : Leads w s (.boot fresh start size) := fun _ =>
    ⟨fun all hall => absurd (hfresh.1.symm.trans hall) nofun, Nat.two_pow_pos 63, fun t _ _ => hfresh.2 t⟩
  exact (hw.share s false).rename (cuts_cut s) hlead
    (named_boot hfresh.1 start size) nofun

theorem Sound.connect (q : σ) : Sound (w.connect q) := by
  rw [World.connect]
  split
  next p hm hl =>
    refine hw.link_to ⟨hm, ?_⟩
    cases w.replid_shared q
    · exact .inl (by decide)
    · exact .inr ⟨rfl, congrArg Nat.cast (hw.toNat_offset q)⟩
  · exact hw

theorem Sound.answer {replid : Bytes} {offset : Int}
    (hl : w.link q = some ⟨p, true, .asked replid offset⟩)
    (hs : (w.node p).stream_started = true) : Sound (w.answer p q replid offset) := by
  have hm := (hw.link q _ hl).1
  rw [World.answer]
  split
  next rest hc =>
    refine (hw.link_to ?_).share p true
    refine ⟨hm, ?_⟩
    show Follows w.lore (w.node p) true (w.node p).replid ((w.node q).history.append rest)
    -- the replica will be where the master is
    rw [hw.continues hl hc]
    exact ⟨(hw.named p).known hs, fun _ => ⟨rfl, rfl⟩⟩
  · exact hw.link_to ⟨hm, fun _ => hs⟩

theorem Sound.psync (q : σ) : Sound (w.psync q) := by
  rw [World.psync]
  split
  next p id offset hl =>
    split
    · exact hw.set_link nofun
    · exact (hw.start_stream p).answer hl (by rw [w.start_stream_self])
  · exact hw

theorem Sound.snapshot (q : σ) : Sound (w.snapshot q) := by
  rw [World.snapshot]
  split
  next p hl =>
    obtain ⟨hm, hs⟩ := hw.link q _ hl
    have hnil : (w.node p).history.append [] = (w.node p).history :=
      congrArg (History.mk _) (List.append_nil _)
    refine (hw.link_to ?_).share p true
    refine ⟨hm, (hw.named p).held.offset, ?_⟩
    rw [hnil]
    exact ⟨(hw.named p).known (hs rfl), fun _ => ⟨rfl, rfl⟩⟩
  · exact hw

/-- The link of a replica that closes those of its own replicas. -/
theorem Sound.adopt (hm : n.master = some l.master) (hs : n.stream_started = true)
    (hf : Follows w.lore (w.node l.master) l.attached n.replid (n.history.append stream))
    (hsecond : n.Second w.lore) (hheld : Held n.backlog n.history.log) :
    Sound (w.adopt q l.master l.attached stream n) := by
  have hlead : Leads w q n := leads_of_replica hm
  refine (hw.rename (cuts_closed q) hlead (hlead.named hs (fun _ => ?_) hsecond hheld)
    fun k hk => ?_).share q true
  · exact hf.1.of_le (History.le_append _ _)
  · obtain rfl := Option.some.inj hk
    exact ⟨hm, hf⟩

theorem Sound.reply (q : σ) : Sound (w.reply q) := by
  rw [World.reply]
  split
  next p a id stream hl =>
    obtain ⟨hm, hf⟩ := hw.link q _ hl
    split
    next hid =>
      subst hid
      refine (hw.link_to ?_).share q true
      exact ⟨hm, hf⟩
    · have hs := hw.started hm
      exact hw.adopt (l := ⟨p, a, .connected stream⟩) hm hs hf (hw.second_shift hs) (hw.named q).held
  next p a id offset history stream hl =>
    obtain ⟨hm, hoff, hf⟩ := hw.link q _ hl
    exact hw.adopt (l := ⟨p, a, .connected stream⟩) hm (hw.started hm) hf nofun (held_nil rfl hoff)
  · exact hw

/-! ## The stream -/

omit hw in
omit [DecidableEq σ] in
theorem Tracks.fed (ht : Tracks lore n np l) (ha : l.attached = true)
    (hk : Known lore' np.replid (np.history.append d)) :
    Tracks lore' n (np.feed d) { l with phase := l.phase.fed d } := by
  have hfed : ∀ {id h}, Follows lore np l.attached id h →
      Follows lore' (np.feed d) l.attached id (h.append d) := by
    intro id h hf
    -- it ends where the master was
    obtain ⟨rfl, rfl⟩ := hf.2 ha
    exact ⟨hk, fun _ => ⟨rfl, rfl⟩⟩
  obtain ⟨m, a, phase⟩ := l
  refine ⟨ht.1, ?_⟩
  have ht := ht.2
  cases phase with
  | asked | waiting => exact ht
  | fullresync id offset history stream =>
    have hf := hfed ht.2
    rw [History.append, History.append, List.append_assoc] at hf
    exact ⟨ht.1, hf⟩
  | continued | connected =>
    have hf := hfed ht
    rwa [History.append, History.append, List.append_assoc] at hf

/-- A server goes on, and so do the links it feeds. -/
theorem Sound.feed (hs : (w.node s).stream_started = true) (hlead : Leads w s ((w.node s).feed d))
    (hknown : (w.node s).master ≠ none →
      Known w.lore (w.node s).replid ((w.node s).history.append d))
    {o : Option (Link σ D)} (hown : ∀ l, o = some l → Tracks w.lore ((w.node s).feed d)
      (Function.update w.node s ((w.node s).feed d) l.master) l) :
    Sound ((w.feed s d).set_link s o) := by
  have hnamed : ((w.node s).feed d).Named (w.put s ((w.node s).feed d)).lore := by
    refine hlead.named hs hknown (fun k hk => ?_) ((hw.named s).held.append d)
    obtain ⟨h, hh, hold⟩ := (hw.named s).second k hk
    exact ⟨h, hh.trans (History.le_append _ _), hold⟩
  refine hw.put (f := Function.update (fun q => (w.link q).map (Link.fed s d)) s o)
    hlead hnamed fun q l hl => ?_
  -- its own link, then one that it feeds, then any other
  by_cases hq : q = s
  · subst hq
    rw [Function.update_self] at hl ⊢
    exact (hown l hl).mono hlead.extends (same_refl _) ⟨rfl, rfl⟩ fun ha => ⟨ha, .inr (same_refl _)⟩
  · rw [Function.update_of_ne hq] at hl ⊢
    obtain ⟨k, hk, rfl⟩ := Option.map_eq_some_iff.mp hl
    have ht := hw.link q k hk
    by_cases hto : k.master = s ∧ k.attached = true
    · rw [Link.fed, if_pos hto]
      have hnew : Function.update w.node s ((w.node s).feed d) k.master
          = (w.node k.master).feed d := by rw [hto.1, Function.update_self]
      rw [hnew]
      exact ht.fed hto.2 (hto.1 ▸ hnamed.known hs)
    · rw [Link.fed, if_neg hto]
      refine ht.mono hlead.extends (same_refl _) ⟨rfl, rfl⟩ fun ha => ⟨ha, .inr ?_⟩
      rw [Function.update_of_ne fun hm => hto ⟨hm, ha⟩]
      exact same_refl _

theorem Sound.propagate (s : σ) (hshort : ((w.node s).history.append d).log.length < 2 ^ 63) :
    Sound (w.propagate s d) := by
  rw [World.propagate]
  split
  next hwants =>
    obtain ⟨hs, hm⟩ := Node.wants_iff.mp hwants
    have hlink : w.link s = none := Option.eq_none_iff_forall_ne_some.mpr fun l hl =>
      absurd (hm.symm.trans (hw.link s l hl).1) nofun
    have hfeed := hw.feed (d := d) (o := none) hs (fun _ => ⟨fun all hall => ?_, hshort,
      fun t ht hmt hid => ht (hw.alone t s hmt hm hid)⟩) (absurd hm) nofun
    · have hnone : (w.feed s d).link s = none := congrArg (Option.map _) hlink
      rwa [World.set_link, ← hnone, Function.update_eq_self] at hfeed
    · obtain rfl := Option.some.inj (hall.symm.trans ((hw.named s).owner hwants))
      exact ⟨rfl, List.prefix_append _ _⟩
  · exact hw

theorem Sound.apply (q : σ) (count : Nat) : Sound (w.apply q count) := by
  rw [World.apply]
  split
  next p a stream hl =>
    obtain ⟨hm, hf⟩ := hw.link q _ hl
    -- what is applied leaves the stream
    have hsplit : ((w.node q).history.append (stream.take count)).append (stream.drop count)
        = (w.node q).history.append stream := by
      rw [History.append, History.append, List.append_assoc, List.take_append_drop]
      rfl
    refine hw.feed (d := stream.take count) (hw.started hm) (leads_of_replica hm)
      (fun _ => hf.1.of_le ⟨rfl, ?_⟩) fun l hl => ?_
    · exact hsplit ▸ List.prefix_append _ _
    · obtain rfl := Option.some.inj hl
      refine ⟨hm, hsplit ▸ hf.1, fun ha => ?_⟩
      by_cases hp : p = q
      · -- nothing is on its way to itself
        subst hp
        have hlog : _ = _ ++ stream := congrArg History.log (hf.2 ha).2
        rw [Function.update_self, List.self_eq_append_right.mp hlog, List.drop_nil]
        exact ⟨rfl, congrArg (History.mk _) (List.append_nil _).symm⟩
      · rw [Function.update_of_ne hp]
        exact hsplit ▸ hf.2 ha
  · exact hw

/-! ## Runs -/

theorem Sound.step {e : Event σ D} (hok : w.Allowed e) : Sound (w.step e) := by
  cases e with
  | write s d => exact hw.propagate s hok
  | replicaof s p => exact hw.replicaof s p
  | replicaof_no_one s fresh => exact hw.replicaof_no_one s hok
  | connect q => exact hw.connect q
  | psync q => exact hw.psync q
  | snapshot q => exact hw.snapshot q
  | reply q => exact hw.reply q
  | apply q count => exact hw.apply q count
  | lose q => exact hw.set_link nofun
  | close q =>
    refine hw.set_link fun k hk => ?_
    obtain ⟨l, hl, rfl⟩ := Option.map_eq_some_iff.mp hk
    exact (hw.link q l hl).mono extends_refl (same_refl _) ⟨rfl, rfl⟩ nofun
  | restart s fresh start size => exact hw.restart s hok start size

end

omit [DecidableEq σ] in
theorem sound_of_initial (hw : w.Initial) : Sound w := by
  obtain ⟨hboot, hinj, hlore⟩ := hw
  refine ⟨fun s => ?_, fun s t _ _ => hinj s t, fun id h hid => ?_, fun q l hl => ?_⟩
  · obtain ⟨-, start, size, hn⟩ := hboot s
    rw [hn, hlore]
    exact named_boot rfl start size
  · rw [hlore] at hid
    exact absurd hid nofun
  · exact absurd ((hboot q).1.symm.trans hl) nofun

theorem sound_of_reach (hw : Reach World.step World.Allowed World.Initial w) : Sound w :=
  hw.invariant (fun _ => sound_of_initial) fun _ _ h hok => h.step hok

/-- **A partial resync is right**, whatever led up to it: what the replica has, and what it is
sent, are the master's history. -/
theorem continue_gives_the_rest {rest : Bytes} {x : Int}
    (hw : Reach World.step World.Allowed World.Initial w)
    (hl : w.link q = some ⟨p, a, .asked i x⟩)
    (hc : (w.node p).try_partial_resync i x = some rest) :
    (w.node q).history.append rest = (w.node p).history :=
  (sound_of_reach hw).continues hl hc

/-- **One name, one history.** Servers of the same id and offset have the same data. -/
theorem one_name_one_history (hw : Reach World.step World.Allowed World.Initial w)
    (hs : (w.node s).stream_started = true) (hp : (w.node p).stream_started = true)
    (hid : (w.node s).replid = (w.node p).replid)
    (hoff : (w.node s).offset = (w.node p).offset) : (w.node s).history = (w.node p).history := by
  have hw := sound_of_reach hw
  have hlen : (w.node s).history.log.length = (w.node p).history.log.length := by
    rw [← hw.toNat_offset, ← hw.toNat_offset, hoff]
  have hle := (hid ▸ (hw.named s).known hs).compare ((hw.named p).known hp) hlen.le
  show History.mk _ _ = _
  rw [hle.1, hle.2.eq_of_length hlen]

/-- **No byte is lost or sent twice.** What a replica has applied, and what is on its way to
it, are the history of the master that feeds it. -/
theorem connected_stream (hw : Reach World.step World.Allowed World.Initial w)
    (hl : w.link q = some ⟨p, true, .connected stream⟩) :
    (w.node q).replid = (w.node p).replid
      ∧ (w.node q).history.append stream = (w.node p).history := by
  obtain ⟨hid, hlog⟩ := ((sound_of_reach hw).link q _ hl).2.2 rfl
  exact ⟨hid.symm, hlog.symm⟩

end Steps

/-! ## A promotion -/

def trio : World (Fin 3) Nat where
  node s := .boot [s.val.toUInt8] s.val 16
  link _ := none
  replid_shared _ := false
  lore _ := none

/-- Server 1 has more than 2 of what 0 wrote, and is promoted; 2 follows it. -/
def promotion : List (Event (Fin 3) Nat) :=
  [.replicaof 1 0, .connect 1, .psync 1, .snapshot 1, .reply 1, .replicaof 2 0, .connect 2,
    .psync 2, .snapshot 2, .reply 2, .write 0 (lit "ab"), .apply 1 2, .apply 2 1,
    .replicaof_no_one 1 [9], .write 1 (lit "c"), .replicaof 2 1, .connect 2]

theorem reach_promotion :
    Reach World.step World.Allowed World.Initial (promotion.foldl World.step trio) := by
  have hinit : trio.Initial := ⟨fun s => ⟨rfl, s.val, 16, rfl⟩, by decide, rfl⟩
  refine (Reach.start hinit).run ⟨trivial, trivial, trivial, trivial, trivial, trivial, trivial,
    trivial, trivial, trivial, ?_, trivial, trivial, ⟨rfl, ?_⟩, ?_, trivial, trivial, trivial⟩
  · show List.length _ < _
    decide +kernel
  · decide +kernel
  · show List.length _ < _
    decide +kernel

theorem continue_after_promotion :
    let w := promotion.foldl World.step trio
    (w.node 2).history.append (lit "bc") = (w.node 1).history :=
  continue_gives_the_rest reach_promotion (a := true) (i := [0]) (x := 1) rfl
    (by decide +kernel)

theorem same_after_promotion :
    let w := [.psync 2, .reply 2, .apply 2 2].foldl World.step (promotion.foldl World.step trio)
    (w.node 2).history = (w.node 1).history :=
  one_name_one_history (reach_promotion.run ⟨trivial, trivial, trivial, trivial⟩)
    (by decide +kernel) (by decide +kernel) (by decide +kernel) (by decide +kernel)

theorem stream_after_promotion :
    let w := [.psync 2, .reply 2, .apply 2 1].foldl World.step (promotion.foldl World.step trio)
    (w.node 2).replid = (w.node 1).replid
      ∧ (w.node 2).history.append (lit "c") = (w.node 1).history :=
  connected_stream (reach_promotion.run ⟨trivial, trivial, trivial, trivial⟩) rfl

end EpochKV.Lineage

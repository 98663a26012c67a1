/-
What a batch comes to: `_execute` runs a write at most once, and a result is the reply
to its own command.

Both are read off the receipts of the batch. A round gives a command at most one
receipt (`Turn.receipts_le_one`), and what the client concludes from it is `Fate`. A
command is sent again only if nothing was received, if it was refused, or if it is a
read; a result is recorded only from the reply of the receipt of the round.

Both rest on the connections being in step when the call begins. They are left out of
step by an exception that is no `OSError`: it passes through `_execute`, and the
replies that were due stay on a connection that is kept. `Session` is the life of a
client, and `Session.instep` the condition under which that never happens.
-/
import EpochKV.Commands
import EpochKV.Kvclient.Settling

set_option autoImplicit false

namespace EpochKV.Kvclient

open Text Resp

/-! ## Receipts of one command -/

theorem length_of_tag (i : Nat) (l : List Receipt) :
    (of_tag i l).length = (l.map Receipt.tag).count (some i) := by
  rw [of_tag, ← List.countP_eq_length_filter, List.count, List.countP_map]
  congr 1
  funext x
  simp [beq_eq_decide]

theorem count_frames (cmds : Nat → Cmd) (idxs : List Nat) (i : Nat) :
    ((Job.frames cmds idxs).map Prod.fst).count (some i) = idxs.count i := by
  induction idxs with
  | nil => rfl
  | cons k more ih =>
    rw [frames_cons, List.count_append, List.count_cons, List.count_cons, ih]
    split <;> simp

variable {py : Python} {net : Network} {pending : List Nat} {ship : List Receipt} {j j' : Job}
  {r : Except Exn (List Nat)} {i : Nat} {args : List Arg} {c : Client} {v : Value} {q : Queued}
  {batch : List Queued}

/-- A round gives a command at most one receipt. -/
theorem Turn.receipts_le_one (h : Turn py net pending ship j j' r) (hd : pending.Nodup) (i : Nat) :
    (of_tag i ship).length ≤ 1 := by
  by_cases hi : i ∈ pending
  · have hmem : i ∈ pending.filter fun k => (j.cmds k).addr = (j.cmds i).addr := by simp [hi]
    rcases h.cargo (j.cmds i).addr with hc | ⟨t, fr, hfr, hc⟩
    · rw [hc i hmem]
      exact Nat.zero_le 1
    · rw [hc i hmem, length_of_tag, receipts_tags, hfr.tags]
      calc ((Job.frames j.cmds _).map Prod.fst |>.take _).count (some i)
          ≤ ((Job.frames j.cmds _).map Prod.fst).count (some i) := (List.take_sublist _ _).count_le _
        _ = _ := count_frames _ _ i
        _ ≤ 1 := List.nodup_iff_count_le_one.mp (hd.filter _) i
  · rw [h.other i hi]
    exact Nat.zero_le 1

theorem mem_frames {cmds : Nat → Cmd} {idxs : List Nat} (h : (some i, args) ∈ Job.frames cmds idxs) :
    args = (cmds i).args := by
  simp only [Job.frames, List.mem_flatMap] at h
  obtain ⟨k, -, hk⟩ := h
  rcases List.mem_append.mp hk with hk | hk
  · split at hk <;> simp at hk
  · simp only [List.mem_singleton, Prod.mk.injEq, Option.some.injEq] at hk
    rw [hk.1]
    exact hk.2

theorem receipts_frame {round : Nat} {frames : Frames} {d : Delivery} {x : Receipt}
    (h : x ∈ receipts round frames d) : (x.tag, x.frame) ∈ frames := by
  obtain ⟨n, f, r, hf, -, rfl⟩ := mem_receipts h
  exact List.mem_of_getElem? hf

/-- A receipt of command `i` is of the one delivery its group went in. -/
theorem Turn.delivered (h : Turn py net pending ship j j' r) {x : Receipt} (hx : x ∈ of_tag i ship) :
    i ∈ pending ∧ x.tag = some i ∧ ∃ t fr, Encoded j.cmds (j.group pending i) fr ∧
      x ∈ receipts (j.client.round + 1) fr (net.deliver t (j.cmds i).addr (fr.map Prod.snd)) := by
  have hi : i ∈ pending := by
    by_contra hn
    rw [h.other i hn] at hx
    cases hx
  have htag : x.tag = some i := by simpa using (List.mem_filter.mp hx).2
  have hmem : i ∈ j.group pending i := by simp [Job.group, hi]
  rcases h.cargo (j.cmds i).addr with hc | ⟨t, fr, hfr, hc⟩ <;> rw [hc i hmem] at hx
  · cases hx
  · exact ⟨hi, htag, t, fr, hfr, List.mem_of_mem_filter hx⟩

/-- **A receipt of command `i`** is of its arguments, and tells what a node did. -/
theorem Turn.receipt (h : Turn py net pending ship j j' r) {x : Receipt} (hx : x ∈ of_tag i ship) :
    encode (j.cmds i).args = some x.frame ∧
      ∃ t a frames, ∃ y ∈ (net.deliver t a frames).reactions, y.ran = x.ran ∧ y.reply = x.reply := by
  obtain ⟨-, htag, t, fr, hfr, hx⟩ := h.delivered hx
  refine ⟨?_, t, _, _, receipts_reaction hx⟩
  obtain ⟨⟨tag, args⟩, hf, ht, hargs⟩ := hfr.mem (receipts_frame hx)
  simp only at ht hargs
  rw [ht, htag] at hf
  rw [← mem_frames hf]
  exact hargs

variable {l : List Nat} {cmds : List Cmd} {limit : Int} {again : Bool}
  {cut : Addr → List Args → Option Nat} {react : Addr → Args → Bool × Value} {spec : Commands.CommandSpec}

theorem Handled.same {c c' : Cmd} {r : Result} (h : Handled py limit c v c' r again) :
    c.Same c' := by
  cases h <;> exact ⟨rfl, rfl, rfl⟩

theorem Fate.same {group : List Nat} {c : Cmd} {r : Result} (h : Fate py group ship j i c r true) :
    (j.cmds i).Same c := by
  cases h with
  | unsent | retried => exact ⟨rfl, rfl, rfl⟩
  | answered _ h => exact h.same

/-- A command that is sent again is the same command. -/
theorem Turn.same (h : Turn py net pending ship j j' (.ok l)) (hi : i ∈ l) :
    (j.cmds i).Same (j'.cmds i) := by
  obtain ⟨cmd, res, again, hf, -, hl⟩ := (h.each i ((h.left l rfl).2 i hi)).fate
  obtain ⟨rfl, -, hon⟩ := hl l rfl hi
  have hs : (j.cmds i).Same cmd := (begin_round_same pending j i).trans hf.same
  rcases hon with ⟨-, he⟩ | ⟨e, a, -, he, -⟩
  · rw [he]
    exact hs
  · exact ⟨he.args.symm.trans hs.args, he.slot.symm.trans hs.slot, he.is_write.symm.trans hs.is_write⟩

/-! ## The life of a client -/

/-- The batch of these calls of `Pipeline.call`. -/
def queue_all (py : Python) (calls : List (List Arg × Option Arg)) : Option (List Queued) :=
  calls.mapM fun call => queue py call.1 call.2

/-- A client after some calls, each of which returned or raised; `ok` is asked of every
batch. -/
inductive Session (py : Python) (net : Network) (ok : List Queued → Prop) (seed : Addr)
    (max_redirects : Int) : Client → Prop where
  | opened (h : ((Client.new seed max_redirects).refresh py net).1 = .ok ()) :
    Session py net ok seed max_redirects ((Client.new seed max_redirects).refresh py net).2
  | refresh {c : Client} (h : Session py net ok seed max_redirects c) :
    Session py net ok seed max_redirects (c.refresh py net).2
  | conn {c : Client} (a : Addr) (h : Session py net ok seed max_redirects c) :
    Session py net ok seed max_redirects (c.conn net a).2
  | drop {c : Client} (a : Addr) (h : Session py net ok seed max_redirects c) :
    Session py net ok seed max_redirects (c.drop a)
  | close {c : Client} (h : Session py net ok seed max_redirects c) :
    Session py net ok seed max_redirects c.close
  | execute {c : Client} {calls : List (List Arg × Option Arg)} {batch : List Queued} (fuel : Nat)
    (h : Session py net ok seed max_redirects c) (hq : queue_all py calls = some batch) (hb : ok batch)
    (he : (execute py net fuel c batch).1 ≠ .running) :
    Session py net ok seed max_redirects (execute py net fuel c batch).2.client

/-! ### Clusters to run

The failing runs below take place in one small cluster (`fickle`): a node puts the argument
of FORGET into an error line, the client cannot decode it, and the reply after it is never
read. The runs that end well take place in another (`breaking`), where a batch is
redirected and then loses its connection. -/

/-- White space as ASCII has it. -/
def words (s : Bytes) : List Bytes := (s.splitOnP fun b => b = 32 ∨ (9 ≤ b ∧ b ≤ 13)).filter (· ≠ [])

/-- An interpreter as far as ASCII goes. -/
def ascii : Python where
  upper := to_upper
  split := words
  int_of := parse_int64
  frames := 1000
  frames_pos := by decide
  upper_ascii := fun _ _ => rfl
  int_of_decimal := fun _ h => parse_int64_to_string h

def node_a : Addr := ⟨lit "10.0.0.1", .number 7000⟩

/-- The map of a cluster with one master. -/
def whole_map : Value :=
  .array [.array [.integer 0, .integer 16383, .array [.bulk (lit "10.0.0.1"), .integer 7000]]]

/-- A network on which every command arrives. `react` is what a node does with one, and
`cut` says how many bytes of its replies come back before the connection breaks. -/
def Network.torn (cut : Addr → List Args → Option Nat) (react : Addr → Args → Bool × Value) : Network where
  connect _ _ := .opened
  peer_closed _ _ := false
  deliver _ a frames :=
    ⟨true, frames.mapIdx fun n f => ⟨(react a f).1, true, (react a f).2, n⟩, cut a frames⟩
  expired _ := false

/-- A network that loses nothing. -/
def Network.of (react : Addr → Args → Bool × Value) : Network := Network.torn (fun _ _ => none) react

theorem mem_reactions_of {t : Nat} {a : Addr} {frames : List Args} {r : Reaction}
    (h : r ∈ ((Network.torn cut react).deliver t a frames).reactions) :
    ∃ f n, r = ⟨(react a f).1, true, (react a f).2, n⟩ := by
  obtain ⟨n, hn, rfl⟩ := List.mem_mapIdx.mp h
  exact ⟨_, n, rfl⟩

theorem answering_of (h : ∀ a f, (react a f).2.WellFormed ∧ (react a f).2.Sized) :
    (Network.torn cut react).Answering := by
  constructor
  · intro t a frames r hr
    obtain ⟨f, n, rfl⟩ := mem_reactions_of hr
    rfl
  · rintro v ⟨t, a, frames, r, hr, rfl⟩
    obtain ⟨f, n, rfl⟩ := mem_reactions_of hr
    exact h a f

/-- A cluster whose slot 7629 is with the second node when it is read and back when it is
written. FORGET, as the server does, puts its argument into the error. -/
def fickle (a : Addr) (f : Args) : Bool × Value :=
  if f = [lit "CLUSTER", lit "SLOTS"] then (true, whole_map)
  else if f = [lit "ECHO", lit "one"] then (true, .bulk (lit "one"))
  else if f = [lit "ECHO", lit "two"] then (true, .bulk (lit "two"))
  else if f = [lit "GET", lit "k"] then (false, .error (lit "MOVED 7629 10.0.0.2:7000"))
  else if f = [lit "SET", lit "k", lit "v"] then
    if a = node_a then (true, .simple (lit "OK")) else (false, .error (lit "MOVED 7629 10.0.0.1:7000"))
  else (true, .error (lit "ERR Unknown node " ++ [255]))

theorem fickle_answering : (Network.of fickle).Answering := by
  apply answering_of
  intro a f
  unfold fickle
  repeat' split
  all_goals
    simp only [whole_map, Value.WellFormed, AllWellFormed, Value.Sized, AllSized]
    decide

def text (l : List String) : List Arg := l.map fun s => Arg.text (lit s)

/-- The error to this cannot be decoded. -/
def forget : List Arg := text ["CLUSTER", "FORGET"] ++ [.bytes [255]]

def queued (calls : List (List Arg)) : List Queued :=
  (queue_all ascii (calls.map fun args => (args, none))).getD []

/-- A cluster whose slot 7629 is on its way to the second node. The map still names the
first, which has none of the keys left and sends the client on. -/
def handover (a : Addr) (f : Args) : Bool × Value :=
  if f = [lit "CLUSTER", lit "SLOTS"] then (true, whole_map)
  else if f = [lit "PING"] then (true, .simple (lit "PONG"))
  else if f = [lit "ASKING"] then (true, .simple (lit "OK"))
  else if a = node_a then (false, .error (lit "ASK 7629 10.0.0.2:7000"))
  else if f = [lit "GET", lit "k"] then (true, .bulk (lit "v"))
  else if f = [lit "EXPIRE", lit "k", lit "60"] then (true, .integer 1)
  else (true, .simple (lit "OK"))

/-- The connection to the second node breaks after two replies, if more are due. -/
def breaking : Network :=
  Network.torn (fun a frames => if a ≠ node_a ∧ 2 < frames.length then some 10 else none) handover

theorem breaking_answering : breaking.Answering := by
  apply answering_of
  intro a f
  unfold handover
  repeat' split
  all_goals
    simp only [whole_map, Value.WellFormed, AllWellFormed, Value.Sized, AllSized]
    decide

/-- Two writes, two reads of the key they write, and a command without a key. -/
def mixed : List (List Arg) :=
  [text ["SET", "k", "v"], text ["GET", "k"], text ["PING"], text ["EXPIRE", "k", "60"], text ["GET", "k"]]

/-- All but PING are sent on by the first node. Of the four the second node runs, only SET
gets its reply. EXPIRE is not sent again, nor is the GET before it; the GET behind it is,
and is sent on once more. -/
def crossing : Job :=
  (execute ascii breaking 9 ((Client.new node_a 16).refresh ascii breaking).2 (queued mixed)).2

theorem queue_mixed : queue_all ascii (mixed.map fun args => (args, none)) = some (queued mixed) := by
  decide +kernel

theorem opened_instep : ((Client.new node_a 16).refresh ascii breaking).2.InStep :=
  (refresh_from_spec ascii breaking_answering _ fun a k hk => by cases hk).2 (Or.inl (by decide +kernel))

/-- A client of the first cluster after a call with FORGET and one more command, whose
reply it does not read. -/
def behind (args : List Arg) : Client :=
  (execute ascii (Network.of fickle) 9 ((Client.new node_a 16).refresh ascii (Network.of fickle)).2
    (queued [forget, args])).2.client

theorem session_behind
    (hq : queue_all ascii [(forget, none), (args, none)] = some (queued [forget, args]))
    (he : (execute ascii (Network.of fickle) 9 ((Client.new node_a 16).refresh ascii (Network.of fickle)).2
      (queued [forget, args])).1 ≠ .running) :
    Session ascii (Network.of fickle) (fun _ => True) node_a 16 (behind args) :=
  (Session.opened (by decide +kernel)).execute 9 hq trivial he

/-! ## Writes run at most once -/

/-- The reply after which the command is sent again. -/
def Refused (v : Value) : Prop := ∃ line, v = .error line ∧ (Job.refusal line).isSome

/-- A node runs a command when it is received, unless it refuses it. -/
def Network.Honest (net : Network) : Prop :=
  ∀ t a frames, ∀ r ∈ (net.deliver t a frames).reactions, r.ran = true ↔ ¬ Refused r.reply

theorem honest_of (h : ∀ a f, (react a f).1 = true ↔ ¬ Refused (react a f).2) :
    (Network.torn cut react).Honest := by
  intro t a frames r hr
  obtain ⟨f, n, rfl⟩ := mem_reactions_of hr
  exact h a f

theorem fickle_honest : (Network.of fickle).Honest := by
  apply honest_of
  intro a f
  unfold fickle
  repeat' split
  all_goals simp [Refused, whole_map]
  all_goals decide

theorem breaking_honest : breaking.Honest := by
  apply honest_of
  intro a f
  unfold handover
  repeat' split
  all_goals simp [Refused, whole_map]
  all_goals decide

/-- How often command `i` was run. -/
def runs (i : Nat) (log : List Receipt) : Nat := (of_tag i log).countP Receipt.ran

theorem refused_seen : Refused (seen v) ↔ Refused v := by
  constructor
  · rintro ⟨line, he, hr⟩
    exact ⟨line, seen_eq_error he, hr⟩
  · rintro ⟨line, rfl, hr⟩
    exact ⟨line, rfl, hr⟩

/-- What a command whose reply was read is worth: it was run if its result is final, and
not if it is sent again. -/
theorem Handled.refused {c c' : Cmd} {r : Result} (h : Handled py limit c v c' r again) :
    (∀ w, r = .value w → ¬ Refused v) ∧ (again = true → Refused v) := by
  cases h with
  | value h =>
    refine ⟨fun _ _ => ?_, nofun⟩
    rintro ⟨line, he, -⟩
    exact h line he
  | error h => exact ⟨nofun, nofun⟩
  | wait h => exact ⟨nofun, fun _ => ⟨_, rfl, by rcases h with h | h <;> simp [h]⟩⟩
  | stop h => exact ⟨nofun, nofun⟩
  | follow asking h => exact ⟨nofun, fun _ => ⟨_, rfl, by simp [h]⟩⟩

/-- The accounts of the writes `w`: none was run twice, one with a result was run, and one
that is still to be sent was not. -/
structure Ledger (w : Nat → Prop) (pending : List Nat) (j : Job) : Prop where
  kind : ∀ i ∈ pending, w i → (j.cmds i).is_write = true
  fresh : ∀ i ∈ pending, w i → runs i j.client.log = 0
  once : ∀ i, w i → runs i j.client.log ≤ 1
  done : ∀ i, w i → ∀ v, j.results i = .value v → runs i j.client.log = 1

theorem Turn.runs_eq (h : Turn py net pending ship j j' r) (i : Nat) :
    runs i j'.client.log = runs i j.client.log + (of_tag i ship).countP Receipt.ran := by
  rw [runs, h.log, List.countP_append]
  rfl

/-- What a round does to the account of one write that was still to be sent. -/
theorem Turn.account (hh : net.Honest) (h : Turn py net pending ship j j' r) (hi : i ∈ pending)
    (hw : (j.cmds i).is_write = true) :
    (∀ v, j'.results i = .value v → (of_tag i ship).countP Receipt.ran = 1) ∧
      ∀ l, r = .ok l → i ∈ l → (of_tag i ship).countP Receipt.ran = 0 := by
  have hran : ∀ x ∈ of_tag i ship, x.ran = true ↔ ¬ Refused x.reply := by
    intro x hx
    obtain ⟨-, t, a, frames, y, hy, he, hr⟩ := h.receipt hx
    rw [← he, ← hr]
    exact hh t a frames y hy
  obtain ⟨cmd, res, again, hf, hres, hl⟩ := (h.each i hi).fate
  have hval : ∀ v, j'.results i = .value v → res = .value v := by
    intro v hv
    rcases hres with hr | ⟨e, -, -, hr⟩
    · rw [← hr, hv]
    · rw [hr] at hv
      cases hv
  cases hf with
  | midway => exact ⟨fun v hv => absurd (hval v hv) nofun, fun l hr hm => absurd (hl l hr hm).1 nofun⟩
  | unsent hg =>
    rw [hg i (by simp [Job.group, hi])]
    exact ⟨fun v hv => absurd (hval v hv) nofun, fun _ _ _ => rfl⟩
  -- only a read is sent again
  | retried _ hr =>
    rw [(begin_round_same pending j i).is_write, hw] at hr
    cases hr
  | lost hn he => exact ⟨fun v hv => absurd (hval v hv) nofun, fun l hr hm => absurd (hl l hr hm).1 nofun⟩
  | @answered x _ _ _ hx hd =>
    have hx' := hran x (by rw [hx]; exact List.mem_singleton_self x)
    obtain ⟨hv, ha⟩ := hd.refused
    rw [refused_seen] at hv ha
    rw [hx]
    refine ⟨fun v hr => ?_, fun l hr hm => ?_⟩
    · simp [hx'.mpr (hv v (hval v hr))]
    · have := ha (hl l hr hm).1
      simp [show x.ran = false by simpa [this] using hx']

theorem Turn.once (hh : net.Honest) {w : Nat → Prop} (h : Turn py net pending ship j j' r)
    (hd : pending.Nodup) (hl : Ledger w pending j) (hw : w i) :
    runs i j'.client.log ≤ 1 ∧ ∀ v, j'.results i = .value v → runs i j'.client.log = 1 := by
  rw [h.runs_eq]
  by_cases hi : i ∈ pending
  · rw [hl.fresh i hi hw, Nat.zero_add]
    exact ⟨List.countP_le_length.trans (h.receipts_le_one hd i), (h.account hh hi (hl.kind i hi hw)).1⟩
  · rw [h.other i hi, h.results i hi]
    exact ⟨hl.once i hw, hl.done i hw⟩

theorem Turn.ledger (hh : net.Honest) {w : Nat → Prop} (h : Turn py net pending ship j j' (.ok l))
    (hd : pending.Nodup) (hl : Ledger w pending j) : Ledger w l j' := by
  constructor
  · intro i hi hw
    rw [(h.same hi).is_write]
    exact hl.kind i ((h.left l rfl).2 i hi) hw
  · intro i hi hw
    have hp := (h.left l rfl).2 i hi
    rw [h.runs_eq, hl.fresh i hp hw, (h.account hh hp (hl.kind i hp hw)).2 l rfl hi]
  · exact fun i hw => (h.once hh hd hl hw).1
  · exact fun i hw => (h.once hh hd hl hw).2

/-! ### Which commands are writes -/

/-- The entry of the server's table for a command as it is sent. -/
def server_spec (args : List Arg) : Option Commands.CommandSpec :=
  (encode args).bind fun argv => argv.head?.bind fun name => Commands.find_command (to_upper name)

/-- The client takes every write of the server's table for one: those it does not know
are writes to it. -/
theorem table_writes : ∀ e ∈ Commands.table, e.2.write = true →
    (match key_spec (lit e.1) with
      | none => !keyless_reads.any fun r => lit r = lit e.1
      | some spec => spec.is_write) = true := by decide +kernel

theorem table_ascii : ∀ e ∈ Commands.table, ∀ b ∈ lit e.1, b < 128 := by decide +kernel

theorem find_command_mem {name : Bytes} (h : Commands.find_command name = some spec) :
    ∃ e ∈ Commands.table, lit e.1 = name ∧ e.2 = spec := by
  obtain ⟨e, he, rfl⟩ := Option.map_eq_some_iff.mp h
  exact ⟨e, List.mem_of_find?_eq_some he, by simpa using List.find?_some he, rfl⟩

theorem toupper_ascii {b : UInt8} (h : toupper b < 128) : b < 128 := by
  unfold toupper at h
  split at h
  case isTrue hb => exact UInt8.lt_of_le_of_lt hb.2 (by decide)
  case isFalse => exact h

/-- The client and the server mean the same command by a name of the table. -/
theorem command_name_of_spec {name : Bytes} (hs : server_spec args = some spec)
    (hn : command_name py args = some name) : Commands.find_command name = some spec := by
  unfold server_spec at hs
  obtain ⟨argv, hargv, hs⟩ := Option.bind_eq_some_iff.mp hs
  obtain ⟨sent, hsent, hs⟩ := Option.bind_eq_some_iff.mp hs
  obtain ⟨e, he, hname, -⟩ := find_command_mem hs
  -- names of the table are ASCII, where Python and the server fold case alike
  have hascii : ∀ b ∈ sent, b < 128 := by
    intro b hb
    apply toupper_ascii
    apply table_ascii e he
    rw [hname]
    exact List.mem_map_of_mem hb
  have hup := py.upper_ascii sent hascii
  rw [List.head?_eq_getElem?] at hsent
  rcases mapM_getElem? hargv 0 with ⟨-, hno⟩ | ⟨arg, b, harg, hb, henc⟩
  · cases hno.symm.trans hsent
  obtain rfl : b = sent := Option.some.inj (hb.symm.trans hsent)
  obtain ⟨rest, rfl⟩ := List.head?_eq_some_iff.mp (List.head?_eq_getElem?.trans harg)
  cases arg with
  | bytes raw =>
    obtain rfl : raw = b := Option.some.inj henc
    simp only [command_name] at hn
    split at hn
    case isTrue =>
      rw [← Option.some.inj hn, hup]
      exact hs
    case isFalse => cases hn
  | text t =>
    obtain rfl : t = b := Option.some.inj henc
    rw [← Option.some.inj hn, hup]
    exact hs
  | surrogate => cases henc

theorem queue_args {key : Option Arg} (h : queue py args key = some q) :
    q.args = args ∧ ∃ keys, command_keys py args = some (keys, q.is_write) := by
  unfold queue at h
  obtain ⟨⟨keys, is_write⟩, hk, h⟩ := Option.bind_eq_some_iff.mp h
  obtain ⟨bs, -, h⟩ := Option.bind_eq_some_iff.mp h
  split at h
  case h_1 | h_2 =>
    simp only [Option.some.injEq] at h
    subst h
    exact ⟨rfl, keys, hk⟩
  case h_3 => cases h

/-- **A write of the server is queued as a write.** -/
theorem queue_is_write {key : Option Arg} (h : queue py args key = some q)
    (hs : server_spec args = some spec) (hw : spec.write = true) : q.is_write = true := by
  obtain ⟨-, keys, hk⟩ := queue_args h
  unfold command_keys at hk
  obtain ⟨name, hn, hk⟩ := Option.map_eq_some_iff.mp hk
  obtain ⟨e, he, rfl, rfl⟩ := find_command_mem (command_name_of_spec hs hn)
  have ht := table_writes e he hw
  cases hspec : key_spec (lit e.1) with
  | none | some =>
    rw [hspec] at hk ht
    simp only [Prod.mk.injEq] at hk
    rw [← hk.2]
    exact ht

/-! ### The whole call -/

/-- Command `i` of a batch as it sets out. -/
theorem start_cmds (h : c.start batch = some cmds) (hq : batch[i]? = some q) :
    ∃ a, c.owner q.slot = some a ∧ (c.job cmds).cmds i = q.start a := by
  rcases mapM_getElem? h i with ⟨hn, -⟩ | ⟨q', cmd, hq', hcmd, hf⟩
  · rw [hn] at hq
    cases hq
  · obtain rfl : q' = q := by
      rw [hq] at hq'
      exact (Option.some.inj hq').symm
    obtain ⟨a, ha, rfl⟩ := Option.map_eq_some_iff.mp hf
    exact ⟨a, ha, by simp [Client.job, List.getD, hcmd]⟩

theorem loop_start (hs : c.InStep) (cmds : List Cmd) (n : Nat) : Loop (List.range n) (c.job cmds) :=
  ⟨List.nodup_range, List.pairwise_le_range, hs, fun _ _ => rfl⟩

/-- The server's table flags command `i` of the batch as a write. -/
def IsWrite (batch : List Queued) (i : Nat) : Prop :=
  ∃ q spec, batch[i]? = some q ∧ server_spec q.args = some spec ∧ spec.write = true

theorem is_write_of_isWrite {calls : List (List Arg × Option Arg)}
    (hq : queue_all py calls = some batch) (hw : IsWrite batch i) (hi : batch[i]? = some q) :
    q.is_write = true := by
  obtain ⟨q', spec, hi', hspec, hw⟩ := hw
  obtain rfl : q' = q := by
    rw [hi'] at hi
    exact Option.some.inj hi
  rcases mapM_getElem? hq i with ⟨-, hn⟩ | ⟨call, q, -, hq', hcall⟩
  · rw [hn] at hi
    cases hi
  · obtain rfl : q = q' := by
      rw [hi] at hq'
      exact (Option.some.inj hq').symm
    rw [(queue_args hcall).1] at hspec
    exact queue_is_write hcall hspec hw

theorem ledger_start {calls : List (List Arg × Option Arg)} (hq : queue_all py calls = some batch)
    (hstart : c.start batch = some cmds) :
    Ledger (IsWrite batch) (List.range batch.length) (c.job cmds) := by
  refine ⟨?_, fun _ _ _ => rfl, fun _ _ => Nat.zero_le 1, fun _ _ v hv => by cases hv⟩
  intro i _ hw
  obtain ⟨q, spec, hi, -⟩ := id hw
  obtain ⟨a, -, hcmd⟩ := start_cmds hstart hi
  rw [hcmd]
  exact is_write_of_isWrite hq hw hi

/-- **At-most-once writes.** From connections in step, a write is run at most once in
any number of rounds, and exactly once if it has a result. -/
theorem writes_run_at_most_once {py : Python} {net : Network} (hnet : net.Answering) (hh : net.Honest)
    {c : Client} (hs : c.InStep) {calls : List (List Arg × Option Arg)} {batch : List Queued}
    (hq : queue_all py calls = some batch) (fuel : Nat) {i : Nat} (hw : IsWrite batch i) :
    runs i (execute py net fuel c batch).2.client.log ≤ 1 ∧
      ∀ v, (execute py net fuel c batch).2.results i = .value v →
        runs i (execute py net fuel c batch).2.client.log = 1 := by
  unfold execute
  split
  case h_1 => exact ⟨Nat.zero_le 1, fun v hv => by cases hv⟩
  case h_2 cmds hstart =>
    exact run_turns py hnet (Ledger (IsWrite batch))
      (fun j => runs i j.client.log ≤ 1 ∧ ∀ v, j.results i = .value v → runs i j.client.log = 1)
      (fun pending j h => ⟨h.once i hw, h.done i hw⟩)
      (fun pending ship j j' l hl h ht => ht.ledger hh hl.nodup h)
      (fun pending ship j j' e hl h ht => ht.once hh hl.nodup h hw)
      fuel (loop_start hs cmds batch.length) (ledger_start hq hstart)

theorem isWrite_of (hq : batch[i]? = some q)
    (h : (server_spec q.args).any Commands.CommandSpec.write = true) : IsWrite batch i := by
  obtain ⟨spec, hs, hw⟩ := (Option.any_eq_true ..).mp h
  exact ⟨q, spec, hq, hs, hw⟩

theorem writes_run_at_most_once_crossing :
    (List.range 5).map (fun i => runs i crossing.client.log) = [1, 1, 1, 1, 2] ∧
      ∀ i, i = 0 ∨ i = 3 → runs i crossing.client.log ≤ 1 ∧
        ∀ v, crossing.results i = .value v → runs i crossing.client.log = 1 := by
  refine ⟨by decide +kernel, fun i hi => ?_⟩
  have hw : IsWrite (queued mixed) i := by
    rcases hi with rfl | rfl
    · exact isWrite_of (q := ⟨text ["SET", "k", "v"], some 7629, true⟩) (by decide +kernel) (by decide +kernel)
    · exact isWrite_of (q := ⟨text ["EXPIRE", "k", "60"], some 7629, true⟩) (by decide +kernel) (by decide +kernel)
  unfold crossing
  exact writes_run_at_most_once breaking_answering breaking_honest opened_instep queue_mixed 9 hw

theorem writes_not_at_most_once :
    ¬ ∀ (py : Python) (net : Network), net.Answering → net.Honest → ∀ seed max_redirects c,
      Session py net (fun _ => True) seed max_redirects c →
      ∀ calls batch, queue_all py calls = some batch → ∀ fuel i, IsWrite batch i →
        runs i (execute py net fuel c batch).2.client.log ≤ 1 := by
  intro h
  have hs : Session ascii (Network.of fickle) (fun _ => True) node_a 16 (behind (text ["GET", "k"])) :=
    session_behind (by decide +kernel) (by decide +kernel)
  have hw : IsWrite (queued [text ["SET", "k", "v"]]) 0 := isWrite_of (q := ⟨text ["SET", "k", "v"], some 7629, true⟩) (by decide +kernel) (by decide +kernel)
  have := h ascii (Network.of fickle) fickle_answering fickle_honest node_a 16 _ hs
    [(text ["SET", "k", "v"], none)] (queued [text ["SET", "k", "v"]]) (by decide +kernel) 9 0 hw
  have htwo : runs 0 (execute ascii (Network.of fickle) 9 (behind (text ["GET", "k"]))
      (queued [text ["SET", "k", "v"]])).2.client.log = 2 := by decide +kernel
  omega

/-! ## A result is the reply to its command -/

/-- The reply a result stands for, if it stands for one. -/
def recorded : Result → Option Value
  | .value v => some v
  | .failed (.reply_error line) => some (.error line)
  | _ => none

/-- The last receipt of command `i` is of `args`, and its reply is `v`. -/
def Replied (i : Nat) (args : List Arg) (log : List Receipt) (v : Value) : Prop :=
  ∃ x, (of_tag i log).getLast? = some x ∧ encode args = some x.frame ∧ seen x.reply = v

theorem Handled.recorded_reply {c c' : Cmd} {w : Value} {r : Result}
    (h : Handled py limit c v c' r again) (hc : c.error = none) :
    (recorded r = some w → v = w) ∧
      ∀ e, c'.error = some e → recorded (.failed e) = some w → v = w := by
  cases h with
  | value | error =>
    refine ⟨fun h => by simpa [recorded] using h, fun e he => ?_⟩
    rw [hc] at he
    cases he
  | wait =>
    refine ⟨nofun, fun e he h => ?_⟩
    simp only [Option.some.injEq] at he
    subst he
    simpa [recorded] using h
  | stop | follow =>
    refine ⟨nofun, fun e he => ?_⟩
    simp only [hc] at he
    cases he

/-- **A result that a round records** is the reply of the receipt of this round. -/
theorem Turn.recorded_reply (h : Turn py net pending ship j j' r) (hi : i ∈ pending)
    (hv : recorded (j'.results i) = some v) : Replied i (j.cmds i).args j'.client.log v := by
  obtain ⟨cmd, res, again, hf, hres, -⟩ := (h.each i hi).fate
  cases hf with
  | midway =>
    rcases hres with hr | ⟨-, -, ha, -⟩
    · rw [hr] at hv
      cases hv
    · cases ha
  | unsent | retried =>
    rcases hres with hr | ⟨e, he, -, hr⟩
    · rw [hr] at hv
      cases hv
    · simp only [Option.some.injEq] at he
      rw [hr, ← he] at hv
      cases hv
  | @lost e _ he =>
    rcases hres with hr | ⟨-, -, ha, -⟩
    · rw [hr] at hv
      cases e <;> first | exact absurd rfl (he _) | cases hv
    · cases ha
  | @answered x _ _ _ hx hd =>
    have hmem : x ∈ of_tag i ship := by rw [hx]; exact List.mem_singleton_self x
    refine ⟨x, by rw [h.log, hx]; simp, (h.receipt hmem).1, ?_⟩
    obtain ⟨h1, h2⟩ := hd.recorded_reply (w := v) (by rw [begin_round_cmds, if_pos hi])
    rcases hres with hr | ⟨e, he, -, hr⟩
    · exact h1 (hr ▸ hv)
    · exact h2 e he (hr ▸ hv)

/-- Every result so far is the reply to its command. -/
structure Attributed (args : Nat → List Arg) (pending : List Nat) (j : Job) : Prop where
  same : ∀ i ∈ pending, (j.cmds i).args = args i
  replied : ∀ i v, recorded (j.results i) = some v → Replied i (args i) j.client.log v

theorem Turn.replied {args : Nat → List Arg} (h : Turn py net pending ship j j' r)
    (ha : Attributed args pending j) (i : Nat) (v : Value) (hv : recorded (j'.results i) = some v) :
    Replied i (args i) j'.client.log v := by
  by_cases hi : i ∈ pending
  · rw [← ha.same i hi]
    exact h.recorded_reply hi hv
  · rw [h.results i hi] at hv
    obtain ⟨x, hx, hxs⟩ := ha.replied i v hv
    exact ⟨x, by rw [h.log, h.other i hi, List.append_nil]; exact hx, hxs⟩

theorem Turn.attributed {args : Nat → List Arg} (h : Turn py net pending ship j j' (.ok l))
    (ha : Attributed args pending j) : Attributed args l j' := by
  refine ⟨fun i hi => ?_, h.replied ha⟩
  rw [(h.same hi).args]
  exact ha.same i ((h.left l rfl).2 i hi)

/-- Every result of the batch is the reply to its command. -/
def Attributes (batch : List Queued) (j : Job) : Prop :=
  ∀ i q, batch[i]? = some q → ∀ v, recorded (j.results i) = some v → Replied i q.args j.client.log v

section

variable (hnet : net.Answering)
include hnet

/-- One call, from connections in step. -/
theorem attributes_execute (hs : c.InStep) (batch : List Queued) (fuel : Nat) :
    Attributes batch (execute py net fuel c batch).2 := by
  unfold execute
  split
  case h_1 => exact fun i q _ v hv => by cases hv
  case h_2 cmds hstart =>
    have h := run_turns py hnet (Attributed fun i => ((c.job cmds).cmds i).args)
      (fun j => ∀ i v, recorded (j.results i) = some v → Replied i ((c.job cmds).cmds i).args j.client.log v)
      (fun pending j h => h.replied)
      (fun pending ship j j' l hl h ht => ht.attributed h)
      (fun pending ship j j' e hl h ht => ht.replied h)
      fuel (loop_start hs cmds batch.length) ⟨fun _ _ => rfl, fun i v hv => by cases hv⟩
    intro i q hq v hv
    obtain ⟨a, -, hcmd⟩ := start_cmds hstart hq
    have := h i v hv
    rwa [hcmd] at this

/-! ### Connections stay in step -/

/-- Every argument can be encoded. -/
def Encodable (batch : List Queued) : Prop := ∀ q ∈ batch, (encode q.args).isSome

section

variable (hc : net.Clean py)
include hc

theorem round_clean (hl : Loop pending j) (ht : j.Tame) :
    (Job.round py net pending j).2.client.InStep ∧ (Job.round py net pending j).2.Tame := by
  have hround : ({ j.client with round := j.client.round + 1 } : Client).Tame :=
    ht.client.remap rfl fun _ hb => hb
  have ht₀ : (j.begin_round pending).Tame := tame_set_errors (ht.client_of hround) none pending
  obtain ⟨ship, h⟩ := exchanged_exchange py hnet hl.nodup (j := j.begin_round pending) hl.instep hl.results
  unfold Job.round
  generalize Job.exchange py net pending (j.begin_round pending) = p at h
  obtain ⟨r, j₁⟩ := p
  obtain ⟨⟨retry, hr⟩, ht₁⟩ := h.clean hc ht₀
  simp only at hr ht₁
  subst hr
  exact settle_clean hnet hc retry (h.instep retry rfl) ht₁

/-- **With a clean network the connections are in step wherever the loop stops.** -/
theorem run_clean (fuel : Nat) (hl : Loop pending j) (ht : j.Tame) :
    (Job.run py net fuel pending j).2.client.InStep ∧
    (Job.run py net fuel pending j).2.client.Tame := by
  induction fuel generalizing pending j with
  | zero => cases pending <;> exact ⟨hl.instep, ht.client⟩
  | succ fuel ih =>
    cases pending with
    | nil => exact ⟨hl.instep, ht.client⟩
    | cons i more =>
      obtain ⟨hs', ht'⟩ := round_clean hnet hc hl ht
      obtain ⟨ship, hturn⟩ := turn_round py hnet hl.nodup hl.instep hl.results
      unfold Job.run
      generalize Job.round py net (i :: more) j = p at hs' ht' hturn
      obtain ⟨r, j'⟩ := p
      cases r with
      | error e => exact ⟨hs', ht'.client⟩
      | ok l => exact ih hturn.loop ht'

omit hc in
omit hnet in
theorem tame_start (h : c.Tame) (hb : Encodable batch) (hstart : c.start batch = some cmds) :
    (c.job cmds).Tame := by
  have hcmd : ∀ i, ((c.job cmds).cmds i).addr.Numbered ∧ (encode ((c.job cmds).cmds i).args).isSome := by
    intro i
    rcases mapM_getElem? hstart i with ⟨-, hn⟩ | ⟨q, cmd, hq, hcmd, -⟩
    · have : (c.job cmds).cmds i = no_command := by simp [Client.job, List.getD, hn]
      rw [this]
      exact ⟨⟨0, rfl⟩, rfl⟩
    · obtain ⟨a, ha, he⟩ := start_cmds hstart hq
      rw [he]
      exact ⟨owner_numbered h ha, hb q (List.mem_of_getElem? hq)⟩
  exact ⟨h.remap rfl fun _ hb => hb, fun i => (hcmd i).1, fun i => (hcmd i).2⟩

theorem execute_clean (hs : c.InStep) (ht : c.Tame) (hb : Encodable batch) (fuel : Nat) :
    (execute py net fuel c batch).2.client.InStep ∧
    (execute py net fuel c batch).2.client.Tame := by
  unfold execute
  split
  case h_1 => exact ⟨hs, ht.remap rfl fun _ hb => hb⟩
  case h_2 cmds hstart => exact run_clean hnet hc fuel (loop_start hs cmds _) (tame_start ht hb hstart)

theorem Session.instep {seed : Addr} (hn : seed.Numbered)
    {max_redirects : Int} (h : Session py net Encodable seed max_redirects c) :
    c.InStep ∧ c.Tame := by
  induction h with
  | opened =>
    have hg : GoodMap (List.replicate SLOTS none) := goodMap_replicate nofun
    refine refresh_clean hnet hc (c := Client.new seed max_redirects) (fun a k hk => by cases hk)
      ⟨hg.length, hg.owners, fun a ha => ?_⟩
    rw [List.mem_singleton.mp ha]
    exact hn
  | refresh _ ih => exact refresh_clean hnet hc ih.1 ih.2
  | @conn c a _ ih =>
    refine ⟨fun b => ?_, (near_conn net a c).tame ih.2⟩
    by_cases hb : b = a
    · exact hb ▸ (quiet_conn net (ih.1 a)).1
    · exact (ih.1 b).aside (near_conn net a c).toAside hb
  | @drop c a _ ih =>
    refine ⟨fun b => ?_, (near_drop c a).tame ih.2⟩
    by_cases hb : b = a
    · exact hb ▸ quiet_drop c a
    · exact (ih.1 b).aside (near_drop c a).toAside hb
  | close _ ih => exact ⟨fun a k hk => (by cases hk), ih.2.remap rfl fun _ hb => hb⟩
  | execute fuel _ _ hb _ ih => exact execute_clean hnet hc ih.1 ih.2 hb fuel

end

end

/-- **Replies are never misattributed**, in any sequence of calls that never makes Python
raise on a reply or an argument; and no connection is kept with a reply unread. -/
theorem replies_attributed {py : Python} {net : Network} (hnet : net.Answering) (hc : net.Clean py)
    {seed : Addr} (hn : seed.Numbered) {max_redirects : Int} {c : Client}
    (h : Session py net Encodable seed max_redirects c) {batch : List Queued} (hb : Encodable batch)
    (fuel : Nat) :
    Attributes batch (execute py net fuel c batch).2 ∧ (execute py net fuel c batch).2.client.InStep := by
  obtain ⟨hs, ht⟩ := h.instep hnet hc hn
  exact ⟨attributes_execute hnet hs batch fuel, (execute_clean hnet hc hs ht hb fuel).1⟩

theorem breaking_gives {v : Value} (h : breaking.Gives v) :
    v = whole_map ∨ v = .simple (lit "PONG") ∨ v = .simple (lit "OK") ∨
      v = .error (lit "ASK 7629 10.0.0.2:7000") ∨ v = .bulk (lit "v") ∨ v = .integer 1 := by
  obtain ⟨t, a, frames, r, hr, rfl⟩ := h
  obtain ⟨f, n, rfl⟩ := mem_reactions_of hr
  simp only [handover]
  repeat' split
  all_goals simp

theorem breaking_clean : breaking.Clean ascii := by
  refine ⟨nofun, fun v hv => ?_, fun line hv _ => ?_, fun t a r hr => ?_⟩
  · rcases breaking_gives hv with rfl | rfl | rfl | rfl | rfl | rfl
    case inr.inl | inr.inr.inl | inr.inr.inr.inl =>
      simp only [Readable, ascii]
      decide
    all_goals simp [whole_map, ascii, Readable, AllReadable]
  · rcases breaking_gives hv with h | h | h | h | h | h <;> cases h
    exact ⟨lit "7629", ⟨lit "10.0.0.2", .number 7000⟩, 7629, by decide +kernel, by decide +kernel, by decide,
      by decide⟩
  · simp only [breaking, Network.torn, handover, List.mapIdx_cons, List.mapIdx_nil, List.mem_singleton,
      if_true] at hr
    subst hr
    rintro ranges ⟨⟩ first last nodes hm
    simp only [seen_all, seen, List.mem_singleton, Value.array.injEq, List.cons.injEq] at hm
    obtain ⟨rfl, rfl, rfl⟩ := hm
    refine ⟨fun node hn a ha => ?_, ?_⟩
    · rw [List.mem_singleton.mp hn] at ha
      have hnode : node_addr (.array [.bulk (lit "10.0.0.1"), .integer 7000]) = some node_a := by decide
      rw [hnode] at ha
      cases ha
      exact ⟨7000, rfl⟩
    · rintro f l ⟨⟩ ⟨⟩
      decide

def bulk_of : Value → Option Bytes
  | .bulk data => some data
  | _ => none

theorem replies_attributed_crossing :
    (recorded (crossing.results 4)).bind bulk_of = some (lit "v") ∧ Attributes (queued mixed) crossing ∧
      crossing.client.InStep := by
  have hs : Session ascii breaking Encodable node_a 16 ((Client.new node_a 16).refresh ascii breaking).2 :=
    .opened (by decide +kernel)
  refine ⟨by decide +kernel, ?_⟩
  unfold crossing
  exact replies_attributed breaking_answering breaking_clean ⟨7000, rfl⟩ hs (by unfold Encodable; decide +kernel) 9

theorem bulk_of_seen (v : Value) : bulk_of (seen v) = bulk_of v := by
  cases v <;> rfl

theorem replies_not_attributed :
    ¬ ∀ (py : Python) (net : Network), net.Answering → ∀ seed max_redirects c,
      Session py net (fun _ => True) seed max_redirects c →
      ∀ calls batch, queue_all py calls = some batch → ∀ fuel,
        Attributes batch (execute py net fuel c batch).2 := by
  intro h
  have hs : Session ascii (Network.of fickle) (fun _ => True) node_a 16 (behind (text ["ECHO", "one"])) :=
    session_behind (by decide +kernel) (by decide +kernel)
  have ha := h ascii (Network.of fickle) fickle_answering node_a 16 _ hs
    [(text ["ECHO", "two"], none)] (queued [text ["ECHO", "two"]]) (by decide +kernel) 9
  have hone : (recorded ((execute ascii (Network.of fickle) 9 (behind (text ["ECHO", "one"]))
      (queued [text ["ECHO", "two"]])).2.results 0)).bind bulk_of = some (lit "one") := by decide +kernel
  have htwo : ((of_tag 0 (execute ascii (Network.of fickle) 9 (behind (text ["ECHO", "one"]))
      (queued [text ["ECHO", "two"]])).2.client.log).getLast?).bind (fun x => bulk_of x.reply) =
        some (lit "two") := by decide +kernel
  obtain ⟨v, hv, hb⟩ := Option.bind_eq_some_iff.mp hone
  obtain ⟨x, hx, -, rfl⟩ := ha 0 ⟨text ["ECHO", "two"], none, false⟩ (by decide +kernel) v hv
  rw [hx, Option.bind_some] at htwo
  rw [bulk_of_seen, htwo] at hb
  exact absurd hb (by decide)

end EpochKV.Kvclient

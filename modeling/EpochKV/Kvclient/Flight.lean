/-
Replies in flight.

The question every property of the client comes back to is what a round of `_execute`
does to one command, and `Fate` says it once. Either nothing was sent; or the
connection was lost and nobody knows; or the command has one new receipt, and what the
client did about the command is what `handle` does with the reply of that receipt.

This file is the second stage of a round, from the bytes up. When a group has been
sent, what will arrive is a first part of the replies to a first part of its commands
(`InFlight`). One read takes exactly the first of these replies off both
(`Owes.read`, `next_reply_cases`), so each command of the group gets the reply its own
copy was given (`served_read_replies`). It needs the connection to be in step when the
group is sent: no reply of an earlier command still unread.
-/
import EpochKV.Kvclient.Cluster

set_option autoImplicit false

namespace EpochKV.Kvclient

open Text Resp

theorem ok_of_map_ok {ε α β : Type} {f : α → β} {r : Except ε α} {b : β} (h : r.map f = .ok b) :
    ∃ a, r = .ok a ∧ f a = b := by
  cases r with
  | error => exact absurd h nofun
  | ok a => exact ⟨a, rfl, Except.ok.inj h⟩

/-! ## What a network may be -/

/-- Some node answers some command with this. -/
def Network.Gives (net : Network) (v : Value) : Prop :=
  ∃ t a frames, ∃ r ∈ (net.deliver t a frames).reactions, r.reply = v

/-- Every received command is answered with one well-formed value. -/
structure Network.Answering (net : Network) : Prop where
  answered : ∀ t a frames, ∀ r ∈ (net.deliver t a frames).reactions, r.answered = true
  formed : ∀ v, net.Gives v → v.WellFormed ∧ v.Sized

/-- The port is a number. -/
def Addr.Numbered (a : Addr) : Prop := ∃ n, a.port = .number n

/-- A slot map as a server prints it: ranges of slots, nodes with a port. -/
def SaneMap (v : Value) : Prop :=
  ∀ ranges, iterate v = some ranges → ∀ first last nodes, Value.array (first :: last :: nodes) ∈ ranges →
    (∀ node ∈ nodes, ∀ a, node_addr node = some a → a.Numbered) ∧
    ∀ f l, first = .integer f → last = .integer l → 0 ≤ f ∧ f ≤ l ∧ l < SLOTS

/-- Nothing a node says makes Python raise: its texts decode, its redirects name a slot
and an address, its maps are maps, and an address can be tried. -/
structure Network.Clean (py : Python) (net : Network) : Prop where
  connect : ∀ t a, net.connect t a ≠ .unusable
  readable : ∀ v, net.Gives v → Readable py.frames v
  redirects : ∀ line, net.Gives (.error line) →
    Job.refusal line = some .moved ∨ Job.refusal line = some .ask →
    ∃ slot target n, Job.parse_redirect py (Job.partition line).2 = some (slot, target) ∧
      py.int_of slot = some n ∧ 0 ≤ n ∧ n < SLOTS
  maps : ∀ t a, ∀ r ∈ (net.deliver t a [[lit "CLUSTER", lit "SLOTS"]]).reactions, SaneMap (seen r.reply)

/-- The client holds a map of the slots, and ports that are numbers. -/
structure Client.Tame (c : Client) : Prop where
  slots : c.slots.length = SLOTS
  owners : ∀ a, some a ∈ c.slots → a.Numbered
  known : ∀ a ∈ c.known, a.Numbered

/-- So do the commands, and they can be encoded. -/
structure Job.Tame (j : Job) : Prop where
  client : j.client.Tame
  addrs : ∀ i, (j.cmds i).addr.Numbered
  args : ∀ i, (encode (j.cmds i).args).isSome

/-! ## What the code leaves alone -/

/-- Nothing but the connection to `a`, the map and the list of nodes has changed. -/
structure Aside (a : Addr) (c c' : Client) : Prop where
  log : c'.log = c.log
  round : c'.round = c.round
  limit : c'.max_redirects = c.max_redirects
  conns : ∀ b, b ≠ a → c'.conns b = c.conns b

theorem Aside.refl (a : Addr) (c : Client) : Aside a c c := ⟨rfl, rfl, rfl, fun _ _ => rfl⟩

variable {r : Except Exn (List Nat)} {a : Addr} {c : Client} {slot : Bytes} {py : Python}
  {net : Network} {full : Prop} {owed ship : List Receipt} {j₁ j j' j₀ : Job} {i : Nat}
  {idxs group more : List Nat}

theorem Aside.trans {d e : Client} (h : Aside a c d) (h' : Aside a d e) : Aside a c e :=
  ⟨h'.log.trans h.log, h'.round.trans h.round, h'.limit.trans h.limit,
    fun b hb => (h'.conns b hb).trans (h.conns b hb)⟩

theorem Client.Tame.remap {c' : Client} (h : c.Tame) (hs : c'.slots = c.slots)
    (hk : ∀ a ∈ c'.known, a ∈ c.known) : c'.Tame :=
  ⟨hs ▸ h.slots, fun a ha => h.owners a (hs ▸ ha), fun a ha => h.known a (hk a ha)⟩

/-- The same of a step that learns of no node and no owner of a slot. -/
structure Near (a : Addr) (c c' : Client) : Prop extends Aside a c c' where
  tame : c.Tame → c'.Tame

theorem Near.refl (a : Addr) (c : Client) : Near a c c := ⟨Aside.refl a c, id⟩

theorem Near.trans {d e : Client} (h : Near a c d) (h' : Near a d e) : Near a c e :=
  ⟨h.toAside.trans h'.toAside, fun ht => h'.tame (h.tame ht)⟩

theorem near_set_unread (c : Client) (a : Addr) (rest : Bytes) : Near a c (c.set_unread a rest) :=
  ⟨⟨rfl, rfl, rfl, fun _ hb => Function.update_of_ne hb _ _⟩, fun h => h.remap rfl fun _ hb => hb⟩

theorem near_next_tick (c : Client) (a : Addr) : Near a c c.next_tick :=
  ⟨⟨rfl, rfl, rfl, fun _ _ => rfl⟩, fun h => h.remap rfl fun _ hb => hb⟩

/-- The node moves to the end of the list, if it is on it. -/
theorem near_drop (c : Client) (a : Addr) : Near a c (c.drop a) := by
  refine ⟨⟨rfl, rfl, rfl, fun _ hb => Function.update_of_ne hb _ _⟩, fun h => ?_⟩
  refine h.remap (show (c.drop a).slots = c.slots from rfl) fun b hb => ?_
  simp only [Client.drop] at hb
  split at hb
  case isTrue hm =>
    rcases List.mem_append.mp hb with hb | hb
    · exact List.mem_of_mem_erase hb
    · exact List.mem_singleton.mp hb ▸ hm.1
  case isFalse => exact hb

theorem near_read_reply (py : Python) (a : Addr) (c : Client) : Near a c (c.read_reply py a).2 := by
  unfold Client.read_reply
  split
  case h_1 => exact Near.refl a c
  case h_2 =>
    split
    case h_1 | h_3 => exact near_set_unread c a _
    case h_2 => exact Near.refl a c

theorem near_check_idle (net : Network) (a : Addr) (c : Client) : Near a c (c.check_idle net a) := by
  unfold Client.check_idle
  split
  case isTrue => exact (near_drop c a).trans (near_next_tick _ a)
  case isFalse => exact near_next_tick c a

theorem near_conn (net : Network) (a : Addr) (c : Client) : Near a c (c.conn net a).2 := by
  have hi := near_check_idle net a c
  unfold Client.conn
  simp only
  split
  case isTrue => exact hi
  case isFalse =>
    split
    case h_1 => exact hi.trans ((near_set_unread _ a _).trans (near_next_tick _ a))
    case h_2 | h_3 => exact hi.trans (near_next_tick _ a)

/-! ## Maps and addresses -/

variable {c' : Client} {n : Int} {target : Addr} {tags : List (Option Nat)} {l retry : List Nat}
  {j₂ j₃ : Job} {line : Bytes} {v : Value} {cmds : Nat → Cmd}

theorem tame_learn (h : c.Tame) (ha : a.Numbered) : (c.learn a).Tame := by
  unfold Client.learn
  split
  case isTrue => exact h
  case isFalse =>
    refine ⟨h.slots, h.owners, fun b hb => ?_⟩
    rcases List.mem_append.mp hb with hb | hb
    · exact h.known b hb
    · exact List.mem_singleton.mp hb ▸ ha

/-- A slot of the map is given an owner. -/
theorem tame_set_owner (py : Python) (h : c.Tame) (ha : a.Numbered) (hi : py.int_of slot = some n)
    (h0 : 0 ≤ n) (hn : n < SLOTS) : ∃ c', Job.set_owner py c slot a = some c' ∧ c'.Tame := by
  have hx : Job.index c.slots.length n = some n.toNat := by
    rw [Job.index, h.slots, if_pos ⟨h0, hn⟩]
  refine ⟨{ c with slots := c.slots.set n.toNat (some a) }, by simp [Job.set_owner, hi, hx], ?_⟩
  refine ⟨by simpa using h.slots, fun b hb => ?_, h.known⟩
  rcases List.mem_or_eq_of_mem_set hb with hb | hb
  · exact h.owners b hb
  · simp only [Option.some.injEq] at hb
    exact hb ▸ ha

theorem parse_redirect_numbered {rest : Bytes}
    (h : Job.parse_redirect py rest = some (slot, target)) : target.Numbered := by
  unfold Job.parse_redirect at h
  split at h
  case h_1 s t _ =>
    obtain ⟨a, ha, he⟩ := Option.map_eq_some_iff.mp h
    simp only [Prod.mk.injEq] at he
    obtain ⟨-, rfl⟩ := he
    unfold Job.parse_addr at ha
    split at ha
    case isTrue =>
      obtain ⟨n, -, rfl⟩ := Option.map_eq_some_iff.mp ha
      exact ⟨n, rfl⟩
    case isFalse => simp at ha
  case h_2 => simp at h

/-! ## Connections in step -/

/-- No reply is unread on the connection to `a`. -/
def Client.Quiet (c : Client) (a : Addr) : Prop := ∀ k, c.conns a = some k → k.unread = []

/-- No connection has an unread reply. -/
def Client.InStep (c : Client) : Prop := ∀ a, c.Quiet a

theorem quiet_drop (c : Client) (a : Addr) : (c.drop a).Quiet a := by
  intro k hk
  simp [Client.drop] at hk

theorem Client.Quiet.aside {b : Addr} (h : c.Quiet b) (hs : Aside a c c') (hb : b ≠ a) :
    c'.Quiet b := by
  intro k hk
  rw [hs.conns b hb] at hk
  exact h k hk

theorem quiet_check_idle (net : Network) (h : c.Quiet a) : (c.check_idle net a).Quiet a := by
  unfold Client.check_idle
  split
  case isTrue => exact quiet_drop c a
  case isFalse => exact h

/-- A connection that `conn` hands out is in step, and is there. -/
theorem quiet_conn (net : Network) (h : c.Quiet a) :
    (c.conn net a).2.Quiet a ∧ ((c.conn net a).1 = .ok () → ((c.conn net a).2.conns a).isSome) := by
  have hq := quiet_check_idle net h
  unfold Client.conn
  simp only
  split
  case isTrue hs => exact ⟨hq, fun _ => hs⟩
  case isFalse =>
    split
    case h_1 =>
      refine ⟨?_, fun _ => by simp [Client.set_unread, Client.next_tick]⟩
      intro k hk
      simp only [Client.set_unread, Client.next_tick, Function.update_self, Option.some.injEq] at hk
      rw [← hk]
    case h_2 | h_3 => exact ⟨hq, nofun⟩

/-! ## Replies that are due -/

/-- What a connection still brings: the bytes of the replies `owed`, or a first part of
them, for commands with these tags or the first of them. Nothing is missing if `full`. -/
structure Owes (net : Network) (full : Prop) (c : Client) (a : Addr) (tags : List (Option Nat))
    (owed : List Receipt) : Prop where
  order : owed.map Receipt.tag <+: tags
  conn : ∃ k, c.conns a = some k ∧ k.unread <+: render_all (owed.map Receipt.reply) ∧
    (full → k.unread = render_all (owed.map Receipt.reply))
  given : ∀ x ∈ owed, net.Gives x.reply
  all : full → owed.map Receipt.tag = tags

theorem Owes.mono {full' : Prop} (h : Owes net full c a tags owed) (hf : full' → full) :
    Owes net full' c a tags owed := by
  obtain ⟨k, hk, hpre, hall⟩ := h.conn
  exact ⟨h.order, ⟨k, hk, hpre, fun h' => hall (hf h')⟩, h.given, fun h' => h.all (hf h')⟩

theorem read_reply_nil (py : Python) {k : Conn} (hk : c.conns a = some k) (hu : k.unread = []) :
    c.read_reply py a = (.error .os_error, c) := by
  obtain ⟨d, hd⟩ := Nat.exists_eq_succ_of_ne_zero (Nat.pos_iff_ne_zero.mp py.frames_pos)
  simp [Client.read_reply, hk, hu, hd, Kvclient.read_reply, line_end]

/-- **One read takes one reply**, the first that is due; or it fails, or there is text
in a reply that Python cannot hold. -/
theorem Owes.read {t : Option Nat} (h : Owes net full c a (t :: tags) owed) (hnet : net.Answering)
    (py : Python) :
    ((c.read_reply py a).1 = .error .os_error ∧ ¬ full) ∨
      ((c.read_reply py a).1 = .error .other ∧ ∃ x ∈ owed, ¬ Readable py.frames x.reply) ∨
      ∃ x rest, owed = x :: rest ∧ x.tag = t ∧ (c.read_reply py a).1 = .ok (seen x.reply) ∧
        Owes net full (c.read_reply py a).2 a tags rest := by
  obtain ⟨k, hk, hpre, hfull⟩ := h.conn
  cases owed with
  | nil =>
    have hu : k.unread = [] := by simpa using hpre
    refine Or.inl ⟨by rw [read_reply_nil py hk hu], fun hf => ?_⟩
    have := h.all hf
    simp at this
  | cons x rest =>
    have hx := hnet.formed x.reply (h.given x (by simp))
    have htag := h.order
    simp only [List.map_cons, List.cons_prefix_cons] at htag
    simp only [List.map_cons, render_all_cons] at hpre hfull
    rcases read_unfinished py py.frames hx.1 hx.2 hpre with hs | ⟨hr, left, hs⟩ | ⟨left, hl, hu, hs⟩
    · refine Or.inl ⟨by simp [Client.read_reply, hk, hs], fun hf => ?_⟩
      rw [hfull hf] at hs
      rcases reads_value py x.reply py.frames (render_all (rest.map Receipt.reply)) hx.1 hx.2 with
        ⟨-, hv⟩ | ⟨-, left, hv⟩ <;> rw [hv] at hs <;> simp at hs
    · exact Or.inr (Or.inl ⟨by simp [Client.read_reply, hk, hs], x, by simp, hr⟩)
    · refine Or.inr (Or.inr ⟨x, rest, rfl, htag.1, by simp [Client.read_reply, hk, hs], ?_⟩)
      constructor
      · exact htag.2
      · refine ⟨⟨left⟩, by simp [Client.read_reply, hk, hs, Client.set_unread], hl, fun hf => ?_⟩
        have := hfull hf
        rw [hu] at this
        exact List.append_cancel_left this
      · exact fun y hy => h.given y (List.mem_cons_of_mem _ hy)
      · intro hf
        have := h.all hf
        simp only [List.map_cons, List.cons.injEq] at this
        exact this.2

/-- A connection from which nothing is due is in step. -/
theorem Owes.quiet (h : Owes net full c a [] owed) : c.Quiet a := by
  obtain ⟨k, hk, hpre, -⟩ := h.conn
  have ho : owed = [] := by simpa using h.order
  intro k' hk'
  rw [hk] at hk'
  simp only [Option.some.injEq] at hk'
  subst hk'
  simpa [ho] using hpre

/-! ## What a reply does to its command -/

/-- `handle` on one command: the reply, then the command and its result after it, and
whether it is sent again. `limit` is `max_redirects`. -/
inductive Handled (py : Python) (limit : Int) (c : Cmd) : Value → Cmd → Result → Bool → Prop where
  | value {v : Value} (h : ∀ line, v ≠ .error line) : Handled py limit c v c (.value v) false
  | error {line : Bytes} (h : Job.refusal line = none) :
    Handled py limit c (.error line) c (.failed (.reply_error line)) false
  | wait {line : Bytes} (h : Job.refusal line = some .tryagain ∨ Job.refusal line = some .clusterdown) :
    Handled py limit c (.error line) { c with error := some (.reply_error line) } .pending true
  | stop {line : Bytes} (h : Job.refusal line = some .moved ∨ Job.refusal line = some .ask) :
    Handled py limit c (.error line) { c with redirects := c.redirects + 1 }
      (.failed (.too_many_redirects c.args)) false
  | follow {line slot : Bytes} {target : Addr} (asking : Bool)
    (h : Job.refusal line = some (if asking then .ask else .moved))
    (ht : Job.parse_redirect py (Job.partition line).2 = some (slot, target)) :
    Handled py limit c (.error line)
      { c with redirects := c.redirects + 1, addr := target, asking := asking } .pending true

/-- Only the commands listed, and on the client's side only what belongs to `a`. -/
structure Touches (a : Addr) (idxs : List Nat) (j j' : Job) : Prop where
  client : Aside a j.client j'.client
  cmds : ∀ k, k ∉ idxs → j'.cmds k = j.cmds k
  results : ∀ k, k ∉ idxs → j'.results k = j.results k

theorem Touches.refl (a : Addr) (idxs : List Nat) (j : Job) : Touches a idxs j j :=
  ⟨Aside.refl a _, fun _ _ => rfl, fun _ _ => rfl⟩

theorem Touches.trans {m : List Nat} (h : Touches a l j₁ j₂) (h' : Touches a m j₂ j₃) {n : List Nat}
    (hl : l ⊆ n) (hm : m ⊆ n) : Touches a n j₁ j₃ := by
  refine ⟨h.client.trans h'.client, fun k hk => ?_, fun k hk => ?_⟩
  · rw [h'.cmds k fun e => hk (hm e), h.cmds k fun e => hk (hl e)]
  · rw [h'.results k fun e => hk (hm e), h.results k fun e => hk (hl e)]

/-- The same commands touched twice. -/
theorem Touches.and (h : Touches a l j₁ j₂) (h' : Touches a l j₂ j₃) :
    Touches a l j₁ j₃ := h.trans h' (List.Subset.refl l) (List.Subset.refl l)

theorem Touches.weaken {n : List Nat} (h : Touches a l j j') (hl : l ⊆ n) : Touches a n j j' :=
  ⟨h.client, fun k hk => h.cmds k fun e => hk (hl e), fun k hk => h.results k fun e => hk (hl e)⟩

theorem touches_client (h : Aside a j.client c) (idxs : List Nat) :
    Touches a idxs j { j with client := c } := ⟨h, fun _ _ => rfl, fun _ _ => rfl⟩

theorem touches_set_cmd (a : Addr) (j : Job) (i : Nat) (c : Cmd) : Touches a [i] j (j.set_cmd i c) :=
  ⟨Aside.refl a _, fun _ hk => Function.update_of_ne (by simpa using hk) _ _, fun _ _ => rfl⟩

theorem touches_set_result (a : Addr) (j : Job) (i : Nat) (r : Result) :
    Touches a [i] j (j.set_result i r) :=
  ⟨Aside.refl a _, fun _ _ => rfl, fun _ hk => Function.update_of_ne (by simpa using hk) _ _⟩

theorem learn_conns (c : Client) (t : Addr) : (c.learn t).conns = c.conns := by
  unfold Client.learn
  split <;> rfl

theorem aside_learn (a : Addr) (c : Client) (t : Addr) : Aside a c (c.learn t) := by
  unfold Client.learn
  split
  case isTrue => exact Aside.refl a c
  case isFalse => exact ⟨rfl, rfl, rfl, fun _ _ => rfl⟩

theorem aside_set_owner (a : Addr) {t : Addr} (h : Job.set_owner py c slot t = some c') :
    Aside a c c' ∧ c'.conns = c.conns := by
  unfold Job.set_owner at h
  obtain ⟨i, -, h⟩ := Option.bind_eq_some_iff.mp h
  obtain ⟨n, -, rfl⟩ := Option.map_eq_some_iff.mp h
  exact ⟨⟨rfl, rfl, rfl, fun _ _ => rfl⟩, rfl⟩

/-- What `handle` leaves alone: the connections, and every other command. -/
theorem touches_follow (py : Python) (a : Addr) (j : Job) (i : Nat) (line : Bytes) (asking : Bool) :
    Touches a [i] j (j.follow py i line asking).2 ∧
      (j.follow py i line asking).2.client.conns = j.client.conns := by
  unfold Job.follow
  simp only
  have hc := touches_set_cmd a j i { j.cmds i with redirects := (j.cmds i).redirects + 1 }
  split
  case isTrue => exact ⟨hc.and (touches_set_result a _ i _), rfl⟩
  case isFalse =>
    split
    case h_1 => exact ⟨hc, rfl⟩
    case h_2 slot target _ =>
      have hl := hc.and (touches_client (aside_learn a _ target) [i])
      split
      case isTrue =>
        exact ⟨hl.and (touches_set_cmd a _ i _), learn_conns _ _⟩
      case isFalse =>
        split
        case h_1 => exact ⟨hl, learn_conns _ _⟩
        case h_2 c' ho =>
          have hso := aside_set_owner a ho
          have hs := hl.and (touches_set_cmd a _ i { j.cmds i with
            redirects := (j.cmds i).redirects + 1, addr := target, asking := asking })
          exact ⟨hs.and (touches_client hso.1 [i]), hso.2.trans (learn_conns _ _)⟩

theorem touches_handle (py : Python) (a : Addr) (j : Job) (i : Nat) (v : Value) :
    Touches a [i] j (j.handle py i v).2 ∧ (j.handle py i v).2.client.conns = j.client.conns := by
  unfold Job.handle
  split
  case h_1 line =>
    split
    case h_1 | h_2 => exact touches_follow py a j i line _
    case h_3 | h_4 => exact ⟨touches_set_cmd a j i _, rfl⟩
    case h_5 => exact ⟨touches_set_result a j i _, rfl⟩
  case h_2 => exact ⟨touches_set_result a j i _, rfl⟩

theorem follow_cases (py : Python) {asking : Bool} (hp : j.results i = .pending)
    (hk : Job.refusal line = some (if asking then .ask else .moved)) :
    ((j.follow py i line asking).1 = .error .other ∧ (j.follow py i line asking).2.results i = .pending) ∨
      ∃ again, (j.follow py i line asking).1 = .ok again ∧
        Handled py j.client.max_redirects (j.cmds i) (.error line)
          ((j.follow py i line asking).2.cmds i) ((j.follow py i line asking).2.results i) again := by
  have hk' : Job.refusal line = some .moved ∨ Job.refusal line = some .ask := by
    cases asking <;> simp [hk]
  unfold Job.follow
  simp only
  split
  case isTrue =>
    refine Or.inr ⟨false, rfl, ?_⟩
    simpa [Job.set_cmd, Job.set_result] using Handled.stop (c := j.cmds i) hk'
  case isFalse =>
    split
    case h_1 => exact Or.inl ⟨rfl, hp⟩
    case h_2 slot target ht =>
      have hf : Handled py j.client.max_redirects (j.cmds i) (.error line) _ _ _ :=
        Handled.follow asking hk ht
      split
      case isTrue ha =>
        refine Or.inr ⟨true, rfl, ?_⟩
        simpa [Job.set_cmd, hp] using hf
      case isFalse =>
        split
        case h_1 => exact Or.inl ⟨rfl, hp⟩
        case h_2 =>
          refine Or.inr ⟨true, rfl, ?_⟩
          simpa [Job.set_cmd, hp] using hf

/-- **What `handle` does with a reply**, unless it raises. -/
theorem handle_cases (py : Python) (hp : j.results i = .pending) (v : Value) :
    ((j.handle py i v).1 = .error .other ∧ (j.handle py i v).2.results i = .pending) ∨
      ∃ again, (j.handle py i v).1 = .ok again ∧
        Handled py j.client.max_redirects (j.cmds i) v ((j.handle py i v).2.cmds i)
          ((j.handle py i v).2.results i) again := by
  unfold Job.handle
  split
  case h_1 line =>
    split
    case h_1 hk | h_2 hk => exact follow_cases py hp (by simpa using hk)
    case h_3 hk =>
      refine Or.inr ⟨true, rfl, ?_⟩
      simpa [Job.set_cmd, hp] using Handled.wait (c := j.cmds i) (Or.inl hk)
    case h_4 hk =>
      refine Or.inr ⟨true, rfl, ?_⟩
      simpa [Job.set_cmd, hp] using Handled.wait (c := j.cmds i) (Or.inr hk)
    case h_5 hk =>
      refine Or.inr ⟨false, rfl, ?_⟩
      simpa [Job.set_result] using Handled.error (c := j.cmds i) hk
  case h_2 hv =>
    refine Or.inr ⟨false, rfl, ?_⟩
    simpa [Job.set_result] using Handled.value (c := j.cmds i) hv

theorem seen_eq_error (h : seen v = .error line) : v = .error line := by
  cases v <;> simp_all [seen]

section

variable (h : j.Tame)
include h

theorem Job.Tame.client_of (hc : c.Tame) : ({ j with client := c } : Job).Tame :=
  ⟨hc, h.addrs, h.args⟩

theorem Job.Tame.set_cmd {c : Cmd} (ha : c.addr.Numbered)
    (hargs : c.args = (j.cmds i).args) : (j.set_cmd i c).Tame := by
  refine ⟨h.client, fun k => ?_, fun k => ?_⟩
  · by_cases hk : k = i
    · simpa [Job.set_cmd, hk] using ha
    · simpa [Job.set_cmd, hk] using h.addrs k
  · by_cases hk : k = i
    · simpa [Job.set_cmd, hk, hargs] using h.args i
    · simpa [Job.set_cmd, hk] using h.args k

theorem Job.Tame.set_result (i : Nat) (r : Result) : (j.set_result i r).Tame :=
  ⟨h.client, h.addrs, h.args⟩

theorem tame_follow (i : Nat) (asking : Bool)
    (hp : Job.parse_redirect py (Job.partition line).2 = some (slot, target))
    (hi : py.int_of slot = some n) (h0 : 0 ≤ n) (hn : n < SLOTS) :
    (∃ b, (j.follow py i line asking).1 = .ok b) ∧ (j.follow py i line asking).2.Tame := by
  have ht := parse_redirect_numbered hp
  have hc : (j.set_cmd i { j.cmds i with redirects := (j.cmds i).redirects + 1 }).Tame :=
    h.set_cmd (h.addrs i) rfl
  have hl := tame_learn h.client ht
  unfold Job.follow
  simp only [hp]
  split
  case isTrue => exact ⟨⟨false, rfl⟩, hc.set_result i _⟩
  case isFalse =>
    have hs : Job.Tame (Job.set_cmd { (j.set_cmd i { j.cmds i with redirects := (j.cmds i).redirects + 1 })
        with client := j.client.learn target } i { j.cmds i with
          redirects := (j.cmds i).redirects + 1, addr := target, asking := asking }) :=
      (hc.client_of hl).set_cmd ht (by simp [Job.set_cmd])
    split
    case isTrue => exact ⟨⟨true, rfl⟩, hs⟩
    case isFalse =>
      obtain ⟨c', hc', htame⟩ := tame_set_owner py hl ht hi h0 hn
      simp only [Job.set_cmd] at hc' ⊢
      rw [hc']
      exact ⟨⟨true, rfl⟩, hs.client_of htame⟩

end

/-- **No reply of a clean network makes `handle` raise.** -/
theorem tame_handle (hc : net.Clean py) (h : j.Tame) (i : Nat) (hv : net.Gives v) :
    (∃ b, (j.handle py i (seen v)).1 = .ok b) ∧ (j.handle py i (seen v)).2.Tame := by
  unfold Job.handle
  split
  case h_1 line hl =>
    rw [seen_eq_error hl] at hv
    split
    case h_1 hk =>
      obtain ⟨slot, target, n, hp, hi, h0, hn⟩ := hc.redirects line hv (Or.inl hk)
      exact tame_follow h i false hp hi h0 hn
    case h_2 hk =>
      obtain ⟨slot, target, n, hp, hi, h0, hn⟩ := hc.redirects line hv (Or.inr hk)
      exact tame_follow h i true hp hi h0 hn
    case h_3 | h_4 => exact ⟨⟨true, rfl⟩, h.set_cmd (h.addrs i) rfl⟩
    case h_5 => exact ⟨⟨false, rfl⟩, h.set_result i _⟩
  case h_2 => exact ⟨⟨false, rfl⟩, h.set_result i _⟩

/-! ## What became of a command -/

/-- The receipts of one command. -/
def of_tag (i : Nat) (l : List Receipt) : List Receipt := l.filter fun x => x.tag = some i

theorem of_tag_cons (i : Nat) (x : Receipt) (l : List Receipt) :
    of_tag i (x :: l) = if x.tag = some i then x :: of_tag i l else of_tag i l := by
  unfold of_tag
  rw [List.filter_cons]
  simp

@[simp] theorem of_tag_append (i : Nat) (l m : List Receipt) :
    of_tag i (l ++ m) = of_tag i l ++ of_tag i m := List.filter_append l m

/-- The connection was lost before every reply of the group was read. -/
def Torn (group : List Nat) (ship : List Receipt) : Prop :=
  ∀ k ∈ group, ∀ x ∈ of_tag k ship, x.whole = false

/-- A write to the same slot comes after the command. -/
def Held (cmds : Nat → Cmd) (group : List Nat) (i : Nat) : Prop :=
  ∃ k, [i, k].Sublist group ∧ (cmds k).is_write = true ∧ (cmds k).slot = (cmds i).slot

/-- **What a round did to a command** that was sent with `group`: `ship` are the receipts
of the round; then the command, its result and whether it is sent again. -/
inductive Fate (py : Python) (group : List Nat) (ship : List Receipt) (j : Job) (i : Nat) :
    Cmd → Result → Bool → Prop where
  /-- An exception ended the round first. -/
  | midway (c : Cmd) : Fate py group ship j i c .pending false
  /-- The connection could not be opened. -/
  | unsent (h : ∀ k ∈ group, of_tag k ship = []) :
    Fate py group ship j i { j.cmds i with error := some .os_error } .pending true
  /-- The connection was lost: a read is sent again, if there is no write after it. -/
  | retried (ht : Torn group ship) (hw : (j.cmds i).is_write = false) (hh : ¬ Held j.cmds group i) :
    Fate py group ship j i { j.cmds i with error := some .os_error } .pending true
  /-- The connection was lost: a write, or a read before it, is not. -/
  | lost {e : Exn} (ht : Torn group ship) (he : ∀ line, e ≠ .reply_error line) :
    Fate py group ship j i (j.cmds i) (.failed e) false
  /-- The reply to the one copy that was received. -/
  | answered {x : Receipt} {c : Cmd} {r : Result} {again : Bool} (hx : of_tag i ship = [x])
    (h : Handled py j.client.max_redirects (j.cmds i) (seen x.reply) c r again) :
    Fate py group ship j i c r again

/-- The fate of command `i` when a stage of the round ends with `r`: only the commands it
returns are sent again. -/
def Fated (py : Python) (group : List Nat) (ship : List Receipt) (j₀ j : Job)
    (r : Except Exn (List Nat)) (i : Nat) : Prop :=
  ∃ again, Fate py group ship j₀ i (j.cmds i) (j.results i) again ∧
    ∀ retry, r = .ok retry → i ∈ retry → again = true

/-- What a stage returns, to be sent again, is of these commands. -/
def Again (idxs : List Nat) (r : Except Exn (List Nat)) : Prop :=
  ∀ retry, r = .ok retry → retry.Nodup ∧ ∀ i ∈ retry, i ∈ idxs

theorem Again.mono (h : Again idxs r) (hsub : idxs ⊆ more) : Again more r :=
  fun retry hr => ⟨(h retry hr).1, fun k hk => hsub ((h retry hr).2 k hk)⟩

theorem again_one (i : Nat) (again : Bool) : Again [i] (.ok (if again then [i] else [])) := by
  rintro _ ⟨⟩
  cases again <;> simp

section Stages

variable {back : List Nat} (hback : Again idxs (.ok back))
include hback

/-- One stage after the other, on different commands. -/
theorem Again.append (h : Again more r) (hsep : ∀ k ∈ more, k ∉ idxs) :
    Again (idxs ++ more) (r.map (back ++ ·)) := by
  intro retry hr
  obtain ⟨l, rfl, rfl⟩ := ok_of_map_ok hr
  obtain ⟨hnd, hsub⟩ := hback back rfl
  obtain ⟨hnd', hsub'⟩ := h l rfl
  refine ⟨hnd.append hnd' fun k hk hm => hsep k (hsub' k hm) (hsub k hk), fun k hk => ?_⟩
  exact List.mem_append.mpr ((List.mem_append.mp hk).imp (hsub k) (hsub' k))

theorem Fated.after (h : Fated py group ship j₀ j r i) (hi : i ∉ idxs) :
    Fated py group ship j₀ j (r.map (back ++ ·)) i := by
  obtain ⟨again, hf, hm⟩ := h
  refine ⟨again, hf, fun retry hr hir => ?_⟩
  obtain ⟨l, rfl, rfl⟩ := ok_of_map_ok hr
  rcases List.mem_append.mp hir with hib | hil
  · exact absurd ((hback back rfl).2 i hib) hi
  · exact hm l rfl hil

omit hback in
theorem Fated.before (h : Fated py group ship j₀ j (.ok back) i) (hc : j'.cmds i = j.cmds i)
    (hr : j'.results i = j.results i) (hagain : Again more r) (hi : i ∉ more) :
    Fated py group ship j₀ j' (r.map (back ++ ·)) i := by
  obtain ⟨again, hf, hm⟩ := h
  refine ⟨again, by rw [hc, hr]; exact hf, fun retry hret hir => ?_⟩
  obtain ⟨l, rfl, rfl⟩ := ok_of_map_ok hret
  rcases List.mem_append.mp hir with hib | hil
  · exact hm back rfl hib
  · exact absurd ((hagain l rfl).2 i hil) hi

end Stages

/-! ## A lost connection -/

/-- What `lost` does to one command. -/
def Lost (j j' : Job) (r : Except Exn (List Nat)) (i : Nat) : Prop :=
  (j.cmds i).is_write = false ∧ j'.cmds i = { j.cmds i with error := some .os_error } ∧
      j'.results i = j.results i ∨
    (j'.cmds i = j.cmds i ∧ ∃ e, (∀ line, e ≠ .reply_error line) ∧ j'.results i = .failed e ∧
      ∀ retry, r = .ok retry → i ∉ retry) ∨
    (j'.cmds i = j.cmds i ∧ j'.results i = j.results i ∧ ∀ retry, r ≠ .ok retry)

/-- All of it: the commands it was given, nothing else, and no connection. -/
structure LostAll (idxs : List Nat) (j j' : Job) (r : Except Exn (List Nat)) : Prop where
  client : j'.client = j.client
  cmds : ∀ k, k ∉ idxs → j'.cmds k = j.cmds k
  results : ∀ k, k ∉ idxs → j'.results k = j.results k
  each : ∀ i ∈ idxs, Lost j j' r i
  retry : Again idxs r

/-- One command whose result is final, then the others. -/
theorem LostAll.fail {e : Exn} (hi : i ∉ idxs) (he : ∀ line, e ≠ .reply_error line)
    (h : LostAll idxs (j.set_result i (.failed e)) j' r) : LostAll (i :: idxs) j j' r := by
  constructor
  · exact h.client
  · exact fun k hk => h.cmds k fun hm => hk (List.mem_cons_of_mem _ hm)
  · intro k hk
    rw [h.results k fun hm => hk (List.mem_cons_of_mem _ hm)]
    exact Function.update_of_ne (fun hki : k = i => hk (hki ▸ List.mem_cons_self)) _ _
  · intro k hk
    rcases List.mem_cons.mp hk with rfl | hk
    · refine Or.inr (Or.inl ⟨h.cmds k hi, e, he, ?_, fun retry hr hm => hi ((h.retry retry hr).2 k hm)⟩)
      rw [h.results k hi]
      exact Function.update_self _ _ _
    · have hne : k ≠ i := fun hki => hi (hki ▸ hk)
      have hres : (j.set_result i (.failed e)).results k = j.results k := Function.update_of_ne hne _ _
      have hl := h.each k hk
      unfold Lost at hl ⊢
      rw [hres] at hl
      exact hl
  · exact h.retry.mono (List.subset_cons_self _ _)

/-- One read that is sent again, then the others. -/
theorem LostAll.keep (hi : i ∉ idxs) (hw : (j.cmds i).is_write = false)
    (h : LostAll idxs (j.set_cmd i { j.cmds i with error := some .os_error }) j' r) :
    LostAll (i :: idxs) j j' (r.map (i :: ·)) := by
  constructor
  · exact h.client
  · intro k hk
    rw [h.cmds k fun hm => hk (List.mem_cons_of_mem _ hm)]
    exact Function.update_of_ne (fun hki : k = i => hk (hki ▸ List.mem_cons_self)) _ _
  · exact fun k hk => h.results k fun hm => hk (List.mem_cons_of_mem _ hm)
  · intro k hk
    rcases List.mem_cons.mp hk with rfl | hk
    · refine Or.inl ⟨hw, ?_, h.results k hi⟩
      rw [h.cmds k hi]
      exact Function.update_self _ _ _
    · have hne : k ≠ i := fun hki => hi (hki ▸ hk)
      have hcmd : (j.set_cmd i { j.cmds i with error := some .os_error }).cmds k = j.cmds k :=
        Function.update_of_ne hne _ _
      rcases h.each k hk with ⟨h1, h2, h3⟩ | ⟨h1, e, he, h2, h3⟩ | ⟨h1, h2, h3⟩
      · exact Or.inl ⟨hcmd ▸ h1, by rw [h2, hcmd], h3⟩
      · refine Or.inr (Or.inl ⟨by rw [h1, hcmd], e, he, h2, fun retry hr => ?_⟩)
        obtain ⟨l, rfl, rfl⟩ := ok_of_map_ok hr
        simp only [List.mem_cons, not_or]
        exact ⟨hne, h3 l rfl⟩
      · refine Or.inr (Or.inr ⟨by rw [h1, hcmd], h2, fun retry hr => ?_⟩)
        obtain ⟨l, rfl, -⟩ := ok_of_map_ok hr
        exact h3 l rfl
  · exact (again_one i true).append h.retry fun k hk e => hi (List.mem_singleton.mp e ▸ hk)

/-- An exception from printing a port that is no number. -/
theorem LostAll.raise (idxs : List Nat) (j : Job) (e : Exn) : LostAll idxs j j (.error e) :=
  ⟨rfl, fun _ _ => rfl, fun _ _ => rfl, fun _ _ => Or.inr (Or.inr ⟨rfl, rfl, nofun⟩), nofun⟩

/-- One command of `lost`, before those in front of it: its result is final, or it is a read
that is sent again, or its exception cannot be printed. -/
theorem lost_cons_cases (a : Addr) (uncertain : List (Option Nat)) (i : Nat) (before : List Nat) (j : Job) :
    (∃ e later, (∀ line, e ≠ .reply_error line) ∧ uncertain ⊆ later ∧
        ((j.cmds i).is_write = true → (j.cmds i).slot ∈ later) ∧
        Job.lost a uncertain (i :: before) j = Job.lost a later before (j.set_result i (.failed e))) ∨
      ((j.cmds i).is_write = false ∧ (j.cmds i).slot ∉ uncertain ∧
        Job.lost a uncertain (i :: before) j =
          ((Job.lost a uncertain before (j.set_cmd i { j.cmds i with error := some .os_error })).1.map (i :: ·),
            (Job.lost a uncertain before (j.set_cmd i { j.cmds i with error := some .os_error })).2)) ∨
      (¬ a.Numbered ∧ Job.lost a uncertain (i :: before) j = (.error .other, j)) := by
  rw [Job.lost]
  by_cases hkeep : (j.cmds i).is_write = false ∧ (j.cmds i).slot ∉ uncertain
  · refine Or.inr (Or.inl ⟨hkeep.1, hkeep.2, ?_⟩)
    rw [if_neg (by simp [hkeep.1]), if_neg hkeep.2]
    generalize Job.lost a uncertain before _ = p
    obtain ⟨r, j'⟩ := p
    cases r <;> rfl
  · cases hp : a.port with
    -- the text of the exception has the port in it
    | object w =>
      refine Or.inr (Or.inr ⟨fun ⟨n, hn⟩ => (nomatch hp.symm.trans hn), ?_⟩)
      split
      case isTrue => rfl
      case isFalse hw => exact if_pos (not_not.mp fun hu => hkeep ⟨by simpa using hw, hu⟩)
    | number n =>
      refine Or.inl ?_
      split
      case isTrue =>
        exact ⟨.uncertain_write a _, _, nofun, List.subset_cons_self _ _, fun _ => List.mem_cons_self, rfl⟩
      case isFalse hw =>
        have hu := not_not.mp fun hu => hkeep ⟨by simpa using hw, hu⟩
        exact ⟨.read_not_retried a _, _, nofun, List.Subset.refl _, fun _ => hu, if_pos hu⟩

theorem lostAll_lost (a : Addr) (idxs : List Nat) (hn : idxs.Nodup) (uncertain : List (Option Nat))
    (j : Job) : LostAll idxs j (Job.lost a uncertain idxs j).2 (Job.lost a uncertain idxs j).1 := by
  induction idxs generalizing uncertain j with
  | nil => exact ⟨rfl, fun _ _ => rfl, fun _ _ => rfl, by simp, fun _ h => by cases h; simp⟩
  | cons i before ih =>
    have hn' := List.nodup_cons.mp hn
    rcases lost_cons_cases a uncertain i before j with
      ⟨e, later, he, -, -, heq⟩ | ⟨hw, -, heq⟩ | ⟨-, heq⟩ <;> rw [heq]
    · exact LostAll.fail hn'.1 he (ih hn'.2 _ _)
    · exact (ih hn'.2 _ _).keep hn'.1 hw
    · exact LostAll.raise _ j _

/-- A read that is sent again has no lost write to its slot after it. The list is read from
the last command to the first, and `uncertain` are the slots of the writes so far. -/
theorem lost_free (a : Addr) (hn : idxs.Nodup) {uncertain : List (Option Nat)}
    (h : (Job.lost a uncertain idxs j).1 = .ok retry) (hi : i ∈ retry) :
    (j.cmds i).slot ∉ uncertain ∧
      ∀ k, [k, i].Sublist idxs → (j.cmds k).is_write = true → (j.cmds k).slot ≠ (j.cmds i).slot := by
  induction idxs generalizing uncertain j retry with
  | nil =>
    simp only [Job.lost, Except.ok.injEq] at h
    simp [← h] at hi
  | cons m before ih =>
    have hn' := List.nodup_cons.mp hn
    have hcons : ∀ {k}, [k, i].Sublist (m :: before) → k = m ∧ i ∈ before ∨ [k, i].Sublist before := by
      intro k hk
      rcases List.sublist_cons_iff.mp hk with hk | ⟨l, hl, hk⟩
      · exact Or.inr hk
      · simp only [List.cons.injEq] at hl
        obtain ⟨rfl, rfl⟩ := hl
        exact Or.inl ⟨rfl, hk.subset List.mem_cons_self⟩
    rcases lost_cons_cases a uncertain m before j with
      ⟨e, later, -, hsub, hwrite, heq⟩ | ⟨hw, hu, heq⟩ | ⟨-, heq⟩ <;> rw [heq] at h
    · obtain ⟨h1, h2⟩ := ih hn'.2 h hi
      simp only [Job.set_result] at h1 h2
      refine ⟨fun hs => h1 (hsub hs), fun k hk hkw => ?_⟩
      rcases hcons hk with ⟨rfl, -⟩ | hk
      · exact fun he => h1 (he ▸ hwrite hkw)
      · exact h2 k hk hkw
    · -- marking the read for another try moves no slot
      have hslot : ∀ k, ((j.set_cmd m { j.cmds m with error := some .os_error }).cmds k).slot = (j.cmds k).slot ∧
          ((j.set_cmd m { j.cmds m with error := some .os_error }).cmds k).is_write = (j.cmds k).is_write := by
        intro k
        by_cases hk : k = m
        · subst hk
          simp [Job.set_cmd]
        · simp [Job.set_cmd, hk]
      obtain ⟨l, hl, rfl⟩ := ok_of_map_ok h
      rcases List.mem_cons.mp hi with rfl | hil
      · refine ⟨hu, fun k hk hkw => ?_⟩
        rcases hcons hk with ⟨-, hm⟩ | hk
        · exact absurd hm hn'.1
        · exact absurd (hk.subset (by simp)) hn'.1
      · obtain ⟨h1, h2⟩ := ih hn'.2 hl hil
        rw [(hslot i).1] at h1 h2
        refine ⟨h1, fun k hk hkw => ?_⟩
        rcases hcons hk with ⟨rfl, -⟩ | hk
        · rw [hw] at hkw
          cases hkw
        · have := h2 k hk
          rw [(hslot k).1, (hslot k).2] at this
          exact this hkw
    · cases h

/-- With a port that is a number, `lost` does not raise. -/
theorem lost_ok (ha : a.Numbered) (idxs : List Nat) (uncertain : List (Option Nat)) (j : Job) :
    ∃ l, (Job.lost a uncertain idxs j).1 = .ok l := by
  induction idxs generalizing uncertain j with
  | nil => exact ⟨[], rfl⟩
  | cons i before ih =>
    rcases lost_cons_cases a uncertain i before j with
      ⟨e, later, -, -, -, heq⟩ | ⟨-, -, heq⟩ | ⟨hnot, -⟩
    · rw [heq]
      exact ih _ _
    · obtain ⟨l, hl⟩ := ih uncertain (j.set_cmd i { j.cmds i with error := some .os_error })
      rw [heq, hl]
      exact ⟨i :: l, rfl⟩
    · exact absurd ha hnot

theorem LostAll.tame (h : LostAll idxs j j' r) (ht : j.Tame) : j'.Tame := by
  have hcmd : ∀ k, (j'.cmds k).addr = (j.cmds k).addr ∧ (j'.cmds k).args = (j.cmds k).args := by
    intro k
    by_cases hk : k ∈ idxs
    · rcases h.each k hk with ⟨-, hc, -⟩ | ⟨hc, -⟩ | ⟨hc, -⟩ <;> rw [hc] <;> exact ⟨rfl, rfl⟩
    · rw [h.cmds k hk]
      exact ⟨rfl, rfl⟩
  refine ⟨h.client ▸ ht.client, fun k => ?_, fun k => ?_⟩
  · rw [(hcmd k).1]
    exact ht.addrs k
  · rw [(hcmd k).2]
    exact ht.args k

theorem lostAll_reverse (h : LostAll idxs.reverse j j' r) : LostAll idxs j j' r :=
  ⟨h.client, fun k hk => h.cmds k (by simpa using hk), fun k hk => h.results k (by simpa using hk),
    fun i hi => h.each i (by simpa using hi), fun retry hr => by simpa using h.retry retry hr⟩

/-- The connection is gone, and each command is treated by `lost`. -/
theorem drop_lost_spec (a : Addr) (hn : idxs.Nodup) (j : Job) :
    (Job.drop_lost a idxs j).2.client = j.client.drop a ∧
      LostAll idxs { j with client := j.client.drop a } (Job.drop_lost a idxs j).2
        (Job.drop_lost a idxs j).1 := by
  have h := lostAll_reverse (lostAll_lost a idxs.reverse (List.nodup_reverse.mpr hn) []
    { j with client := j.client.drop a })
  exact ⟨h.client, h⟩

theorem drop_lost_free (a : Addr) (hn : idxs.Nodup) (h : (Job.drop_lost a idxs j).1 = .ok retry)
    (hi : i ∈ retry) : ¬ Held j.cmds idxs i := by
  rintro ⟨k, hk, hw, hs⟩
  refine (lost_free a (List.nodup_reverse.mpr hn) h hi).2 k ?_ hw hs
  exact List.reverse_sublist.mpr hk

/-- What comes after a command of the last part of a group is in that part. -/
theorem Held.of_suffix (hs : idxs <:+ group) (hd : group.Nodup) (hi : i ∈ idxs)
    (h : Held cmds group i) : Held cmds idxs i := by
  obtain ⟨first, rfl⟩ := hs
  obtain ⟨k, hk, hw, hslot⟩ := h
  refine ⟨k, ?_, hw, hslot⟩
  obtain ⟨l₁, l₂, he, h₁, h₂⟩ := List.sublist_append_iff.mp hk
  cases l₁ with
  | nil => exact he ▸ h₂
  | cons m l₁ =>
    simp only [List.cons_append, List.cons.injEq] at he
    have him : i ∈ first := h₁.subset (he.1 ▸ List.mem_cons_self)
    exact absurd hi (List.disjoint_of_nodup_append hd him)

/-! ## Reading the replies of a group -/

theorem frames_cons (cmds : Nat → Cmd) (i : Nat) (more : List Nat) :
    (Job.frames cmds (i :: more)).map Prod.fst =
      (if (cmds i).asking then [none] else []) ++ some i :: (Job.frames cmds more).map Prod.fst := by
  unfold Job.frames
  by_cases h : (cmds i).asking = true <;> simp [h]

theorem mem_frames_tags {k : Nat} (h : some k ∈ (Job.frames cmds idxs).map Prod.fst) :
    k ∈ idxs := by
  induction idxs with
  | nil => simp [Job.frames] at h
  | cons i more ih =>
    rw [frames_cons] at h
    rcases List.mem_append.mp h with h | h
    · split at h <;> simp at h
    · rcases List.mem_cons.mp h with h | h
      · simp only [Option.some.injEq] at h
        exact h ▸ List.mem_cons_self
      · exact List.mem_cons_of_mem _ (ih h)

/-- A group that was sent: `ship` are its receipts, `owed` those whose replies are due. -/
structure InFlight (net : Network) (full : Prop) (j₀ j : Job) (a : Addr) (idxs : List Nat)
    (ship owed : List Receipt) : Prop where
  owes : Owes net full j.client a ((Job.frames j₀.cmds idxs).map Prod.fst) owed
  cmds : ∀ i ∈ idxs, j.cmds i = j₀.cmds i
  results : ∀ i ∈ idxs, j.results i = .pending
  mine : ∀ i ∈ idxs, of_tag i ship = of_tag i owed
  limit : j.client.max_redirects = j₀.client.max_redirects

/-- The replies due to the commands after the first are not the first's. -/
theorem of_tag_later (hi : i ∉ more)
    (h : Owes net full c a ((Job.frames cmds more).map Prod.fst) owed) : of_tag i owed = [] := by
  unfold of_tag
  rw [List.filter_eq_nil_iff]
  intro x hx ht
  simp only [decide_eq_true_eq] at ht
  have hm : some i ∈ owed.map Receipt.tag := ht ▸ List.mem_map_of_mem hx
  exact hi (mem_frames_tags (h.order.subset hm))

/-- Steps on other connections and other commands. -/
theorem InFlight.keep {full₁ : Prop} {ship₁ : List Receipt}
    (h : InFlight net full j₀ j a idxs ship owed) (hfull : full₁ → full)
    (hconn : j₁.client.conns a = j.client.conns a)
    (hlimit : j₁.client.max_redirects = j.client.max_redirects)
    (hcmds : ∀ k ∈ idxs, j₁.cmds k = j.cmds k) (hres : ∀ k ∈ idxs, j₁.results k = j.results k)
    (hship : ∀ k ∈ idxs, of_tag k ship₁ = of_tag k ship) :
    InFlight net full₁ j₀ j₁ a idxs ship₁ owed := by
  refine ⟨⟨h.owes.order, ?_, h.owes.given, (h.owes.mono hfull).all⟩, fun k hk => (hcmds k hk).trans (h.cmds k hk),
    fun k hk => (hres k hk).trans (h.results k hk), fun k hk => (hship k hk).trans (h.mine k hk),
    hlimit.trans h.limit⟩
  rw [hconn]
  exact (h.owes.mono hfull).conn

/-- What is left in flight once the first command has been answered. -/
theorem InFlight.rest (h : InFlight net full j₀ j a (i :: more) ship owed) (hc : Aside a j.client c)
    {owed' : List Receipt} (ho : Owes net full c a ((Job.frames j₀.cmds more).map Prod.fst) owed')
    (ht : ∀ k ∈ more, of_tag k owed = of_tag k owed') :
    InFlight net full j₀ { j with client := c } a more ship owed' :=
  ⟨ho, fun k hk => h.cmds k (List.mem_cons_of_mem _ hk), fun k hk => h.results k (List.mem_cons_of_mem _ hk),
    fun k hk => (h.mine k (List.mem_cons_of_mem _ hk)).trans (ht k hk), hc.limit.trans h.limit⟩

theorem near_next_reply (py : Python) (a : Addr) (i : Nat) (j : Job) :
    Near a j.client (j.next_reply py a i).2 := by
  have h := near_read_reply py a j.client
  unfold Job.next_reply
  split
  case isFalse => exact h
  case isTrue =>
    split
    case h_1 c hc => rw [hc] at h; exact h
    case h_2 c hc => rw [hc] at h; exact h.trans (near_read_reply py a c)

/-- **The reply to a command is the reply its own copy was given**, after the one to its
ASKING. -/
theorem next_reply_cases (hnet : net.Answering) (py : Python)
    (h : InFlight net full j₀ j a (i :: more) ship owed) (hi : i ∉ more) :
    ((j.next_reply py a i).1 = .error .os_error ∧ ¬ full) ∨
      ((j.next_reply py a i).1 = .error .other ∧ ∃ x ∈ owed, ¬ Readable py.frames x.reply) ∨
      ∃ x owed', (j.next_reply py a i).1 = .ok (seen x.reply) ∧ of_tag i ship = [x] ∧ x ∈ owed ∧
        owed' ⊆ owed ∧
        InFlight net full j₀ { j with client := (j.next_reply py a i).2 } a more ship owed' := by
  have haside := (near_next_reply py a i j).toAside
  have howes := h.owes
  rw [frames_cons] at howes
  unfold Job.next_reply at haside ⊢
  rw [h.cmds i List.mem_cons_self] at haside ⊢
  -- with ASKING its own reply comes first, and carries no tag of a command
  by_cases hask : (j₀.cmds i).asking = true
  · simp only [hask, if_true] at howes haside ⊢
    have hfirst := howes.read hnet py
    generalize j.client.read_reply py a = first at hfirst haside ⊢
    obtain ⟨r, c⟩ := first
    rcases hfirst with ⟨hr, hn⟩ | ⟨hr, hx⟩ | ⟨y, rest, rfl, hy, hr, ho⟩ <;> obtain rfl := hr
    · exact Or.inl ⟨rfl, hn⟩
    · exact Or.inr (Or.inl ⟨rfl, hx⟩)
    · rcases ho.read hnet py with ⟨hr, hn⟩ | ⟨hr, x, hx, hnr⟩ | ⟨x, rest', rfl, hx, hr, ho'⟩
      · exact Or.inl ⟨hr, hn⟩
      · exact Or.inr (Or.inl ⟨hr, x, List.mem_cons_of_mem _ hx, hnr⟩)
      · refine Or.inr (Or.inr ⟨x, rest', hr, ?_, by simp, fun z hz => by simp [hz], h.rest haside ho' ?_⟩)
        · rw [h.mine i List.mem_cons_self]
          simp [of_tag_cons, hy, hx, of_tag_later hi ho']
        · intro k hk
          have hki : i ≠ k := fun e => hi (e ▸ hk)
          simp [of_tag_cons, hy, hx, hki]
  · have hask' : (j₀.cmds i).asking = false := by simpa using hask
    simp only [hask', Bool.false_eq_true, if_false, List.nil_append] at howes haside ⊢
    rcases howes.read hnet py with ⟨hr, hn⟩ | ⟨hr, hx⟩ | ⟨x, rest, rfl, hx, hr, ho⟩
    · exact Or.inl ⟨hr, hn⟩
    · exact Or.inr (Or.inl ⟨hr, hx⟩)
    · refine Or.inr (Or.inr ⟨x, rest, hr, ?_, by simp, fun z hz => by simp [hz], h.rest haside ho ?_⟩)
      · rw [h.mine i List.mem_cons_self]
        simp [of_tag_cons, hx, of_tag_later hi ho]
      · intro k hk
        have hki : i ≠ k := fun e => hi (e ▸ hk)
        simp [of_tag_cons, hx, hki]

/-- What reading the replies of the last part of a group comes to. -/
structure Served (py : Python) (net : Network) (group : List Nat) (j₀ : Job) (a : Addr) (idxs : List Nat)
    (ship : List Receipt) (j j' : Job) (r : Except Exn (List Nat)) : Prop where
  touches : Touches a idxs j j'
  each : ∀ i ∈ idxs, Fated py group ship j₀ j' r i
  retry : Again idxs r
  quiet : ∀ retry, r = .ok retry → j'.client.Quiet a
  clean : net.Clean py → a.Numbered → j.Tame → (∃ l, r = .ok l) ∧ j'.Tame

/-- An exception: whatever was not done yet is midway. -/
theorem Fated.raised (h : j.results i = .pending) (e : Exn) :
    Fated py group ship j₀ j (.error e) i := by
  refine ⟨false, ?_, nofun⟩
  rw [h]
  exact Fate.midway _

theorem Lost.fated (ht : Torn group ship) (hc : j.cmds i = j₀.cmds i) (hp : j.results i = .pending)
    (hh : ∀ retry, r = .ok retry → i ∈ retry → ¬ Held j₀.cmds group i) (h : Lost j j' r i) :
    Fated py group ship j₀ j' r i := by
  rcases h with ⟨hw, hc', hr'⟩ | ⟨hc', e, he, hr', hno⟩ | ⟨hc', hr', hno⟩
  · by_cases hin : ∃ retry, r = .ok retry ∧ i ∈ retry
    · obtain ⟨retry, hr, hi⟩ := hin
      refine ⟨true, ?_, fun _ _ _ => rfl⟩
      rw [hc', hr', hp, hc]
      exact Fate.retried ht (hc ▸ hw) (hh retry hr hi)
    · refine ⟨false, ?_, fun retry hr hi => absurd ⟨retry, hr, hi⟩ hin⟩
      rw [hr', hp]
      exact Fate.midway _
  · refine ⟨false, ?_, fun retry hr hm => absurd hm (hno retry hr)⟩
    rw [hc', hr', hc]
    exact Fate.lost ht he
  · refine ⟨false, ?_, fun retry hr => absurd hr (hno retry)⟩
    rw [hr', hp]
    exact Fate.midway _

/-- The last part of a group is lost. -/
theorem served_lost (py : Python) (net : Network) (ht : Torn group ship) (hsuf : idxs <:+ group)
    (hd : group.Nodup) (hc : ∀ i ∈ idxs, j.cmds i = j₀.cmds i)
    (hp : ∀ i ∈ idxs, j.results i = .pending) :
    Served py net group j₀ a idxs ship j (Job.drop_lost a idxs j).2 (Job.drop_lost a idxs j).1 := by
  have hdi : idxs.Nodup := hd.sublist hsuf.sublist
  have hheld : ∀ {i}, Held j₀.cmds idxs i → Held j.cmds idxs i := by
    rintro i ⟨k, hk, hw, hs⟩
    have hi : i ∈ idxs := hk.subset (by simp)
    have hki : k ∈ idxs := hk.subset (by simp)
    exact ⟨k, hk, hc k hki ▸ hw, by rw [hc k hki, hc i hi]; exact hs⟩
  have hfree := fun (retry : List Nat) (hr : (Job.drop_lost a idxs j).1 = .ok retry) (i : Nat)
    (hi : i ∈ retry) => drop_lost_free a hdi hr hi
  obtain ⟨hcl, hl⟩ := drop_lost_spec a hdi j
  constructor
  · exact ⟨hcl ▸ (near_drop j.client a).toAside, hl.cmds, hl.results⟩
  · refine fun i hi => (hl.each i hi).fated ht (hc i hi) (hp i hi) fun retry hr hm hh => ?_
    exact hfree retry hr i hm (hheld (hh.of_suffix hsuf hd hi))
  · exact hl.retry
  · intro _ _
    rw [hcl]
    exact quiet_drop j.client a
  · intro _ ha ht
    exact ⟨lost_ok ha _ _ _, hl.tame (ht.client_of ((near_drop _ a).tame ht.client))⟩

/-- The first command answered, then the others served. -/
theorem Served.answer {x : Receipt} {again : Bool} (hi : i ∉ more) (ht : Touches a (i :: more) j j₁)
    (hx : of_tag i ship = [x])
    (hh : Handled py j₀.client.max_redirects (j₀.cmds i) (seen x.reply) (j₁.cmds i) (j₁.results i) again)
    (hclean : net.Clean py → j.Tame → j₁.Tame) (hs : Served py net group j₀ a more ship j₁ j₂ r) :
    Served py net group j₀ a (i :: more) ship j j₂ (r.map ((if again then [i] else []) ++ ·)) := by
  have hne : ∀ k ∈ more, k ∉ [i] := fun k hk e => hi (List.mem_singleton.mp e ▸ hk)
  constructor
  · exact ht.trans hs.touches (List.Subset.refl _) (List.subset_cons_self i more)
  · intro k hk
    rcases List.mem_cons.mp hk with rfl | hk
    · have hf : Fated py group ship j₀ j₁ (.ok (if again then [k] else [])) k := by
        refine ⟨again, Fate.answered hx hh, ?_⟩
        rintro _ ⟨⟩
        cases again <;> simp
      exact hf.before (hs.touches.cmds k hi) (hs.touches.results k hi) hs.retry hi
    · exact (hs.each k hk).after (again_one i again) (hne k hk)
  · exact (again_one i again).append hs.retry hne
  · intro l' hl'
    obtain ⟨l, rfl, -⟩ := ok_of_map_ok hl'
    exact hs.quiet l rfl
  · intro hc ha ht
    obtain ⟨⟨l, rfl⟩, ht'⟩ := hs.clean hc ha (hclean hc ht)
    exact ⟨⟨_, rfl⟩, ht'⟩

/-- **The replies of one connection.** The induction is on the commands still to be
answered; what is in flight shrinks with them. -/
theorem served_read_replies (hnet : net.Answering) (py : Python) (hdg : group.Nodup)
    (idxs : List Nat) (hsuf : idxs <:+ group) (j : Job) (owed : List Receipt)
    (h : InFlight net (¬ Torn group ship) j₀ j a idxs ship owed) :
    Served py net group j₀ a idxs ship j (Job.read_replies py a idxs j).2 (Job.read_replies py a idxs j).1 := by
  induction idxs generalizing j owed with
  | nil =>
    refine ⟨Touches.refl a _ j, by simp, fun _ hr => ?_, fun _ _ => h.owes.quiet, fun _ _ ht => ⟨⟨[], rfl⟩, ht⟩⟩
    simp only [Job.read_replies, Except.ok.injEq] at hr
    simp [← hr]
  | cons i more ih =>
    have hd' := List.nodup_cons.mp (hdg.sublist hsuf.sublist)
    have hsuf' : more <:+ group := (List.suffix_cons i more).trans hsuf
    obtain ⟨haside, htame⟩ := near_next_reply py a i j
    unfold Job.read_replies
    have hreply := next_reply_cases hnet py h hd'.1
    generalize j.next_reply py a i = reply at hreply haside htame
    obtain ⟨r, c⟩ := reply
    rcases hreply with ⟨hr, hn⟩ | ⟨hr, y, hy, hny⟩ | ⟨x, owed', hr, hx, hxo, -, hf⟩ <;> obtain rfl := hr
    · -- the connection is lost: the rest of the group goes with it
      have hs := served_lost py net (not_not.mp hn) (j := { j with client := c }) (a := a) hsuf hdg h.cmds h.results
      exact ⟨(touches_client haside _).and hs.touches, hs.each, hs.retry, hs.quiet,
        fun hc ha ht => hs.clean hc ha (ht.client_of (htame ht.client))⟩
    · exact ⟨touches_client haside _, fun k hk => Fated.raised (h.results k hk) _, nofun, nofun,
        fun hc => absurd (hc.readable _ (h.owes.given y hy)) hny⟩
    · have hhandle : net.Clean py → j.Tame → _ := fun hc ht =>
        tame_handle hc (ht.client_of (htame ht.client)) i (h.owes.given x hxo)
      have hpi : ({ j with client := c } : Job).results i = .pending := h.results i List.mem_cons_self
      have ht := touches_handle py a { j with client := c } i (seen x.reply)
      have hto : Touches a (i :: more) j (Job.handle py { j with client := c } i (seen x.reply)).2 :=
        (touches_client haside (i :: more)).and (ht.1.weaken (by simp))
      have hcases := handle_cases py hpi (seen x.reply)
      dsimp only
      generalize Job.handle py { j with client := c } i (seen x.reply) = handled at hhandle ht hto hcases
      obtain ⟨r', j₁⟩ := handled
      rcases hcases with ⟨he, hres⟩ | ⟨again, he, hh⟩ <;> obtain rfl := he
      · refine ⟨hto, fun k hk => ?_, nofun, nofun, fun hc _ hj => ?_⟩
        · rcases List.mem_cons.mp hk with rfl | hk'
          · exact Fated.raised hres _
          · apply Fated.raised
            rw [ht.1.results k fun e => hd'.1 (List.mem_singleton.mp e ▸ hk')]
            exact h.results k hk
        · obtain ⟨⟨b, hb⟩, -⟩ := hhandle hc hj
          cases hb
      · have hne : ∀ k ∈ more, k ∉ [i] := fun k hk e => hd'.1 (List.mem_singleton.mp e ▸ hk)
        have hf₁ : InFlight net (¬ Torn group ship) j₀ j₁ a more ship owed' :=
          hf.keep id (by rw [ht.2]) ht.1.client.limit (fun k hk => ht.1.cmds k (hne k hk))
            (fun k hk => ht.1.results k (hne k hk)) fun _ _ => rfl
        have hlim : c.max_redirects = j₀.client.max_redirects := haside.limit.trans h.limit
        have hh' : Handled py j₀.client.max_redirects (j₀.cmds i) (seen x.reply) (j₁.cmds i)
            (j₁.results i) again := by
          rw [← hlim, ← h.cmds i List.mem_cons_self]
          exact hh
        have hs := Served.answer hd'.1 hto hx hh' (fun hc hj => (hhandle hc hj).2) (ih hsuf' j₁ owed' hf₁)
        dsimp only
        generalize Job.read_replies py a more j₁ = p at hs
        obtain ⟨r₂, j₂⟩ := p
        cases r₂ <;> cases again <;> exact hs

/-! ## Reading every group -/

/-- The commands of the groups. -/
def members (g : List (Addr × List Nat)) : List Nat := g.flatMap Prod.snd

@[simp] theorem members_cons (p : Addr × List Nat) (g : List (Addr × List Nat)) :
    members (p :: g) = p.2 ++ members g := rfl

theorem mem_members {g : List (Addr × List Nat)} : i ∈ members g ↔ ∃ p ∈ g, i ∈ p.2 :=
  List.mem_flatMap

/-- Only the commands listed, and of the connections only those to the nodes listed. -/
structure Within (nodes : List Addr) (idxs : List Nat) (j j' : Job) : Prop where
  round : j'.client.round = j.client.round
  limit : j'.client.max_redirects = j.client.max_redirects
  conns : ∀ b, b ∉ nodes → j'.client.conns b = j.client.conns b
  cmds : ∀ k, k ∉ idxs → j'.cmds k = j.cmds k
  results : ∀ k, k ∉ idxs → j'.results k = j.results k

section

variable {nodes : List Addr}

theorem Within.refl (nodes : List Addr) (idxs : List Nat) (j : Job) : Within nodes idxs j j :=
  ⟨rfl, rfl, fun _ _ => rfl, fun _ _ => rfl, fun _ _ => rfl⟩

theorem Within.mono {nodes' : List Addr} {idxs' : List Nat} (h : Within nodes idxs j j')
    (hn : nodes ⊆ nodes') (hi : idxs ⊆ idxs') : Within nodes' idxs' j j' :=
  ⟨h.round, h.limit, fun b hb => h.conns b fun e => hb (hn e), fun k hk => h.cmds k fun e => hk (hi e),
    fun k hk => h.results k fun e => hk (hi e)⟩

theorem Within.and (h : Within nodes idxs j j₁) (h' : Within nodes idxs j₁ j') : Within nodes idxs j j' :=
  ⟨h'.round.trans h.round, h'.limit.trans h.limit, fun b hb => (h'.conns b hb).trans (h.conns b hb),
    fun k hk => (h'.cmds k hk).trans (h.cmds k hk), fun k hk => (h'.results k hk).trans (h.results k hk)⟩

/-- The first group alone. -/
theorem Within.first (h : Within [a] idxs j j') (g : List (Addr × List Nat)) :
    Within (((a, idxs) :: g).map Prod.fst) (members ((a, idxs) :: g)) j j' :=
  h.mono (by simp) (List.subset_append_left _ _)

/-- The first group, then the others. -/
theorem Within.cons {g : List (Addr × List Nat)} (h : Within [a] idxs j j₁)
    (h' : Within (g.map Prod.fst) (members g) j₁ j') :
    Within (((a, idxs) :: g).map Prod.fst) (members ((a, idxs) :: g)) j j' :=
  (h.first g).and (h'.mono (List.subset_cons_self _ _) (List.subset_append_right _ _))

theorem Aside.within (h : Aside a j.client j'.client) (hc : ∀ k, k ∉ idxs → j'.cmds k = j.cmds k)
    (hr : ∀ k, k ∉ idxs → j'.results k = j.results k) : Within [a] idxs j j' :=
  ⟨h.round, h.limit, fun b hb => h.conns b (by simpa using hb), hc, hr⟩

theorem Touches.within (h : Touches a idxs j j') : Within [a] idxs j j' :=
  h.client.within h.cmds h.results

end

/-- What the second stage of a round comes to. -/
structure ServedAll (py : Python) (net : Network) (j₀ : Job) (sent : List (Addr × List Nat))
    (ship : List Receipt) (j j' : Job) (r : Except Exn (List Nat)) : Prop
    extends Within (sent.map Prod.fst) (members sent) j j' where
  log : j'.client.log = j.client.log
  each : ∀ p ∈ sent, ∀ i ∈ p.2, Fated py p.2 ship j₀ j' r i
  retry : Again (members sent) r
  quiet : ∀ retry, r = .ok retry → ∀ a ∈ sent.map Prod.fst, j'.client.Quiet a
  clean : net.Clean py → (∀ a ∈ sent.map Prod.fst, a.Numbered) → j.Tame → (∃ l, r = .ok l) ∧ j'.Tame

/-- A fate does not depend on commands that are sent again elsewhere. -/
theorem Fated.mono {r' : Except Exn (List Nat)} (h : Fated py group ship j₀ j r i)
    (hc : j'.cmds i = j.cmds i) (hr : j'.results i = j.results i)
    (hl : ∀ l', r' = .ok l' → i ∈ l' → ∃ l, r = .ok l ∧ i ∈ l) :
    Fated py group ship j₀ j' r' i := by
  obtain ⟨again, hf, hm⟩ := h
  refine ⟨again, by rw [hc, hr]; exact hf, fun l' hl' hi => ?_⟩
  obtain ⟨l, hl, hi⟩ := hl l' hl' hi
  exact hm l hl hi

/-- Nor on receipts of commands that were not sent with it. -/
theorem Fated.of_ship {ship' : List Receipt} (h : Fated py group ship j₀ j r i) (hi : i ∈ group)
    (hs : ∀ k ∈ group, of_tag k ship' = of_tag k ship) : Fated py group ship' j₀ j r i := by
  have htorn : Torn group ship → Torn group ship' := fun ht k hk x hx => ht k hk x (hs k hk ▸ hx)
  obtain ⟨again, hf, hm⟩ := h
  refine ⟨again, ?_, hm⟩
  generalize j.cmds i = c at hf ⊢
  generalize j.results i = res at hf ⊢
  cases hf with
  | midway => exact Fate.midway c
  | unsent hg => exact Fate.unsent fun k hk => (hs k hk).trans (hg k hk)
  | retried ht hw hh => exact Fate.retried (htorn ht) hw hh
  | lost ht he => exact Fate.lost (htorn ht) he
  | answered hx hd => exact Fate.answered ((hs i hi).trans hx) hd

theorem servedAll_read_groups (hnet : net.Answering) (py : Python) (sent : List (Addr × List Nat))
    (ha : (sent.map Prod.fst).Nodup) (hd : (members sent).Nodup) (j : Job)
    (hf : ∀ p ∈ sent, ∃ owed, InFlight net (¬ Torn p.2 ship) j₀ j p.1 p.2 ship owed) :
    ServedAll py net j₀ sent ship j (Job.read_groups py sent j).2 (Job.read_groups py sent j).1 := by
  induction sent generalizing j with
  | nil =>
    refine ⟨Within.refl _ _ j, rfl, by simp, fun _ hr => ?_, by simp, fun _ _ ht => ⟨⟨[], rfl⟩, ht⟩⟩
    simp only [Job.read_groups, Except.ok.injEq] at hr
    simp [← hr]
  | cons p more ih =>
    obtain ⟨a, idxs⟩ := p
    simp only [List.map_cons, List.nodup_cons] at ha
    rw [members_cons, List.nodup_append] at hd
    obtain ⟨owed, hfirst⟩ := hf (a, idxs) List.mem_cons_self
    have hs := served_read_replies hnet py hd.1 idxs List.suffix_rfl j owed hfirst
    unfold Job.read_groups
    cases hp : Job.read_replies py a idxs j with
    | mk r j₁ =>
      rw [hp] at hs
      have hsep : ∀ k ∈ members more, k ∉ idxs := fun k hk hi => hd.2.2 k hi k hk rfl
      -- reading from `a` leaves the other connections and their commands alone
      have hmore : ∀ q ∈ more, ∃ owed, InFlight net (¬ Torn q.2 ship) j₀ j₁ q.1 q.2 ship owed := by
        intro q hq
        obtain ⟨o, ho⟩ := hf q (List.mem_cons_of_mem _ hq)
        have hout : ∀ k ∈ q.2, k ∉ idxs := fun k hk => hsep k (mem_members.mpr ⟨q, hq, hk⟩)
        have hqa : q.1 ≠ a := by
          rintro rfl
          exact ha.1 (List.mem_map_of_mem hq)
        exact ⟨o, ho.keep id (hs.touches.client.conns q.1 hqa) hs.touches.client.limit
          (fun k hk => hs.touches.cmds k (hout k hk)) (fun k hk => hs.touches.results k (hout k hk))
          fun _ _ => rfl⟩
      cases r with
      | error e =>
        refine ⟨hs.touches.within.first more, hs.touches.client.log, ?_, nofun, nofun, fun hc hn ht => ?_⟩
        · intro q hq i hi
          rcases List.mem_cons.mp hq with rfl | hq
          · exact hs.each i hi
          · obtain ⟨o, ho⟩ := hmore q hq
            exact Fated.raised (ho.results i hi) e
        · obtain ⟨⟨l, hl⟩, -⟩ := hs.clean hc (hn a List.mem_cons_self) ht
          cases hl
      | ok back =>
        have hi := ih ha.2 hd.2.1 j₁ hmore
        simp only
        cases hq : Job.read_groups py more j₁ with
        | mk r₂ j₂ =>
          rw [hq] at hi
          have hquiet : j₂.client.Quiet a := by
            intro k hk
            rw [hi.conns a ha.1] at hk
            exact hs.quiet back rfl k hk
          have hmain : ServedAll py net j₀ ((a, idxs) :: more) ship j j₂ (r₂.map (back ++ ·)) := by
            refine ⟨hs.touches.within.cons hi.toWithin, hi.log.trans hs.touches.client.log, ?_, ?_, ?_,
              fun hc hn ht => ?_⟩
            · intro q hq i h
              rcases List.mem_cons.mp hq with rfl | hq
              · have hno : i ∉ members more := fun hm => hsep i hm h
                exact (hs.each i h).before (hi.cmds i hno) (hi.results i hno) hi.retry hno
              · exact (hi.each q hq i h).after hs.retry (hsep i (mem_members.mpr ⟨q, hq, h⟩))
            · exact hs.retry.append hi.retry hsep
            · intro l' hl' b hb
              obtain ⟨l, rfl, -⟩ := ok_of_map_ok hl'
              simp only [List.map_cons, List.mem_cons] at hb
              rcases hb with rfl | hb
              · exact hquiet
              · exact hi.quiet l rfl b hb
            · obtain ⟨⟨l, rfl⟩, ht'⟩ := hi.clean hc (fun b hb => hn b (List.mem_cons_of_mem _ hb))
                (hs.clean hc (hn a List.mem_cons_self) ht).2
              exact ⟨⟨_, rfl⟩, ht'⟩
          cases r₂ <;> exact hmain

end EpochKV.Kvclient

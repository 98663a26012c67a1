/-
What order means for a connection, and what keeps it.

What was parsed from a client's input is, in order, what was executed, the command that is
held and what is still in the buffer, and the replies are those of the executed commands, in
the same order, but for a last one that WAIT has parked (`Client.Fifo`). This alone would hold
of a server that never runs a command again, so the invariant also says where each client that
has something left is remembered: one that is parked is among the waiters, once; one that
holds a command is among the held clients, and the pause is on or its end is still to be dealt
with; any other has no complete command in its buffer, unless it is about to be resumed.

The loops take clients off these lists before they get to them, and a command is taken off the
buffer before it runs. `Hand` is what is on its way, and the invariant counts it.
-/
import Mathlib.Data.List.Basic
import Mathlib.Data.List.Nodup
import EpochKV.Server

set_option autoImplicit false

namespace EpochKV.Server

open Text EpochKV.Parser

variable {Ω : Type}

/-! ## The commands in a stretch of bytes -/

def commands (bytes : Bytes) : List Args :=
  (drain bytes).commands.map Prod.fst

theorem commands_append (bytes more : Bytes) :
    commands (bytes ++ more) = commands bytes ++ commands ((drain bytes).buffer ++ more) := by
  rw [commands, drain_append bytes more, Drained.feed, List.map_append]
  rfl

theorem left_append (bytes more : Bytes) :
    (drain (bytes ++ more)).buffer = (drain ((drain bytes).buffer ++ more)).buffer := by
  rw [drain_append bytes more, Drained.feed]

variable {bytes : Bytes} {busy : Option Args} {paused : Bool} {other : Fd} {s' : Server Ω}
  {done : List Fd}

theorem commands_complete (h : (call bytes).status = .complete) :
    commands bytes = (call bytes).command :: commands (call bytes).buffer := by
  simp only [commands, drain_complete h, List.map_cons]

theorem left_complete (h : (call bytes).status = .complete) :
    (drain bytes).buffer = (drain (call bytes).buffer).buffer := by
  rw [drain_complete h]

variable {c taken c' : Client} {command : Args} {fd : Fd} {s : Server Ω}

namespace Client

/-- An ordinary client that is served: not being closed, and without a protocol or
buffer-limit error. -/
def Open (c : Client) : Prop :=
  c.role = .ordinary ∧ c.closing = false ∧ c.close_after_flush = false

/-- `busy` is a command that was taken from the client and has not answered. -/
structure Fifo (c : Client) (busy : Option Args) : Prop where
  parsed : commands c.input =
    c.executed ++ (busy.toList ++ (c.held_command.toList ++ commands c.buffer))
  left : (drain c.input).buffer = (drain c.buffer).buffer
  answered : c.executed = c.replies.map Prod.fst ++ c.parked.toList
  parked : c.parked.isSome = c.blocked
  written : c.sent ++ c.out = c.replies.flatMap Prod.snd
  held : c.held_command.isSome → c.blocked = false

theorem Fifo.feed (h : c.Fifo busy) (data : Bytes) :
    (c.feed data).Fifo busy where
  parsed := by
    -- what the parser has not consumed of the input is what it has not consumed of the buffer
    have hinput := commands_append c.input data
    have hbuffer := commands_append c.buffer data
    rw [h.parsed, h.left, List.append_assoc, List.append_assoc, List.append_assoc] at hinput
    rw [Client.feed, hbuffer]
    exact hinput
  left := by
    rw [Client.feed, left_append c.input data, left_append c.buffer data, h.left]
  answered := h.answered
  parked := h.parked
  written := h.written
  held := h.held

theorem Fifo.unpark (h : c.Fifo busy) (hblocked : c.blocked = true) (reply : Bytes) :
    (c.unpark reply).Fifo busy := by
  have hsome : c.parked.isSome = true := h.parked.trans hblocked
  obtain ⟨command, hcommand⟩ := Option.isSome_iff_exists.mp hsome
  have hanswered := h.answered
  have hwritten := h.written
  rw [hcommand] at hanswered
  refine ⟨h.parsed, h.left, ?_, rfl, ?_, fun _ => rfl⟩
  · simpa [Client.unpark, hcommand] using hanswered
  · simp [Client.unpark, hcommand, ← hwritten]

/-- The command answers: its reply is the next one. -/
theorem Fifo.answered_fifo (h : c.Fifo (some command)) (hrole : c.role = .ordinary)
    (hblocked : c.blocked = false) (reply : Bytes) : (c.answered command reply).Fifo none := by
  have hnone : c.parked = none := Option.not_isSome_iff_eq_none.mp (by simp [h.parked, hblocked])
  have hanswered := h.answered
  have hwritten := h.written
  rw [hnone] at hanswered
  refine ⟨?_, h.left, ?_, h.parked, ?_, h.held⟩
  · simp [Client.answered, h.parsed]
  · simpa [Client.answered, hnone] using hanswered
  · simp [Client.answered, hrole, ← hwritten]

/-- The command is a WAIT that parks the client. -/
theorem Fifo.park (h : c.Fifo (some command)) (hblocked : c.blocked = false)
    (hheld : c.held_command = none) : (c.park command).Fifo none := by
  have hnone : c.parked = none := Option.not_isSome_iff_eq_none.mp (by simp [h.parked, hblocked])
  have hanswered := h.answered
  rw [hnone] at hanswered
  refine ⟨?_, h.left, ?_, rfl, h.written, ?_⟩
  · simp [Client.park, h.parsed]
  · simpa [Client.park] using hanswered
  · simp [Client.park, hheld]

theorem Fifo.settle (h : c.Fifo busy) (before after : Nat) (attach : Bool) :
    (c.settle before after attach).Fifo busy :=
  ⟨h.parsed, h.left, h.answered, h.parked, h.written, h.held⟩

/-! ## What the loop finds -/

/-- The client the command was taken from. -/
structure Takes (c : Client) (paused : Bool) (command : Args) (taken : Client) : Prop where
  runs : c.blocked = false ∧ c.close_after_flush = false ∧ c.closing = false
  source : (c.held_command = some command ∧ paused = false ∧ taken = { c with held_command := none }) ∨
    (c.held_command = none ∧ (call c.buffer).status = .complete ∧
      command = (call c.buffer).command ∧ taken = { c with buffer := (call c.buffer).buffer })

theorem takes_of_turn {raw : Bytes} (h : c.turn paused = .run command raw taken) :
    c.Takes paused command taken := by
  unfold turn at h
  split at h
  case isTrue => exact absurd h nofun
  case isFalse hruns =>
    have hruns : c.blocked = false ∧ c.close_after_flush = false ∧ c.closing = false := by
      simpa [and_assoc] using hruns
    cases hheld : c.held_command with
    | some held =>
      simp only [hheld] at h
      split at h
      case isTrue => exact absurd h nofun
      case isFalse hpaused =>
        injection h with hcommand _ htaken
        exact ⟨hruns, .inl ⟨by rw [hheld, hcommand], by simpa using hpaused, htaken.symm⟩⟩
    | none =>
      simp only [hheld] at h
      cases hstatus : (call c.buffer).status with
      | incomplete | protocol_error => simp [hstatus] at h
      | complete =>
        simp only [hstatus] at h
        injection h with hcommand _ htaken
        rw [← hheld] at htaken
        exact ⟨hruns, .inr ⟨hheld, hstatus, hcommand.symm, htaken.symm⟩⟩

/-- An open client that the loop leaves is parked, holds a command or has no more of them. -/
theorem turn_stop (hopen : c.Open) (h : c.turn paused = .stop) :
    c.blocked = true ∨ (c.held_command.isSome ∧ paused = true) ∨
      (c.held_command = none ∧ (call c.buffer).status = .incomplete) := by
  cases hblocked : c.blocked with
  | true => exact .inl rfl
  | false =>
    refine .inr ?_
    simp only [turn, hblocked, hopen.2.1, hopen.2.2, Bool.or_self, Bool.false_eq_true, if_false] at h
    cases hheld : c.held_command with
    | some held =>
      simp only [hheld] at h
      refine .inl ⟨rfl, ?_⟩
      by_contra hpaused
      simp [hpaused] at h
    | none =>
      simp only [hheld] at h
      refine .inr ⟨rfl, ?_⟩
      cases hstatus : (call c.buffer).status with
      | incomplete => rfl
      | protocol_error | complete => simp [hstatus] at h

namespace Takes

variable {c taken : Client} {paused : Bool} {command : Args}

section

variable (h : c.Takes paused command taken)
include h

theorem work_lt : taken.work < c.work := by
  obtain ⟨hheld, -, rfl⟩ | ⟨hheld, hstatus, -, rfl⟩ := h.source
  · simp [work, hheld]
  · have := call_length hstatus
    simp only [work, hheld, Option.toList_none, List.length_nil]
    omega

/-- Nothing else about the client changes, and it holds no command then. -/
theorem same : taken.held_command = none ∧ taken.blocked = c.blocked ∧ taken.role = c.role ∧
      taken.closing = c.closing ∧ taken.close_after_flush = c.close_after_flush := by
  obtain ⟨-, -, rfl⟩ | ⟨hheld, -, -, rfl⟩ := h.source
  · exact ⟨rfl, rfl, rfl, rfl, rfl⟩
  · exact ⟨hheld, rfl, rfl, rfl, rfl⟩

theorem open_iff : taken.Open ↔ c.Open := by
  obtain ⟨-, -, hrole, hclosing, hflush⟩ := h.same
  rw [Open, Open, hrole, hclosing, hflush]

/-- The command is the next one that was parsed. -/
theorem fifo (hf : c.Fifo none) : taken.Fifo (some command) := by
  have hparsed := hf.parsed
  obtain ⟨hheld, -, rfl⟩ | ⟨hheld, hstatus, rfl, rfl⟩ := h.source
  · rw [hheld] at hparsed
    exact ⟨hparsed, hf.left, hf.answered, hf.parked, hf.written, fun h => absurd h nofun⟩
  · rw [hheld, commands_complete hstatus] at hparsed
    refine ⟨?_, ?_, hf.answered, hf.parked, hf.written, hf.held⟩
    · simpa [hheld] using hparsed
    · rw [hf.left, left_complete hstatus]

/-- A write that is not dispatched but held stays the next one. -/
theorem hold_fifo (hf : c.Fifo none) : { taken with held_command := some command }.Fifo none := by
  have ht := h.fifo hf
  have hheld := h.same.1
  have hblocked : taken.blocked = false := h.same.2.1.trans h.runs.1
  have hparsed := ht.parsed
  rw [hheld] at hparsed
  exact ⟨hparsed, ht.left, ht.answered, ht.parked, ht.written, fun _ => hblocked⟩

end

end Takes

end Client

/-! ## The invariant -/

/-- What is on its way: waiters that were taken off the list and not yet told, clients that
are about to be resumed, held clients that were taken off theirs, and the commands that are
being dispatched. -/
structure Hand where
  done : List Fd
  resume : List Fd
  held : List Fd
  busy : Fd → Option Args

def Hand.empty : Hand := ⟨[], [], [], fun _ => none⟩

/-- What is known about an open client. -/
structure Served (s : Server Ω) (h : Hand) (fd : Fd) (c : Client) : Prop where
  fifo : c.Fifo (h.busy fd)
  held : c.held_command.isSome →
    fd ∈ h.held ∨ (fd ∈ s.held_clients ∧ (s.writes_paused = true ∨ s.resume_held = true))
  idle : c.blocked = false → c.held_command = none →
    fd ∈ s.to_resume ∨ fd ∈ h.resume ∨ (call c.buffer).status = .incomplete

def waiting (s : Server Ω) (h : Hand) : List Fd :=
  s.waiters.map Waiter.client ++ h.done

structure Inv (s : Server Ω) (h : Hand) : Prop where
  served : ∀ fd c, s.conns fd = some c → c.Open → Served s h fd c
  waiting_iff : ∀ fd, fd ∈ waiting s h ↔ ∃ c, s.conns fd = some c ∧ c.blocked = true
  once : (waiting s h).Nodup
  unpaused : s.resume_held = true → s.writes_paused = false

@[simp] theorem put_self (s : Server Ω) (fd : Fd) (c : Client) : (s.put fd c).conns fd = some c :=
  Function.update_self ..

theorem put_other (s : Server Ω) (h : other ≠ fd) (c : Client) :
    (s.put fd c).conns other = s.conns other :=
  Function.update_of_ne h ..

variable {h h' : Hand}

/-- One client is replaced, and the lists change with it. -/
theorem Inv.replace (hi : Inv s h) (hconns : s'.conns = (s.put fd c').conns)
    (hself : c'.Open → Served s' h' fd c')
    (hothers : ∀ other c, other ≠ fd → Served s h other c → Served s' h' other c)
    (hblocked : fd ∈ waiting s' h' ↔ c'.blocked = true)
    (hwaiting : ∀ other, other ≠ fd → (other ∈ waiting s' h' ↔ other ∈ waiting s h))
    (honce : (waiting s' h').Nodup) (hunpaused : s'.resume_held = true → s'.writes_paused = false) :
    Inv s' h' where
  served := by
    intro other c hc hopen
    rw [hconns] at hc
    by_cases ho : other = fd
    · subst ho
      rw [put_self, Option.some.injEq] at hc
      subst hc
      exact hself hopen
    · rw [put_other s ho] at hc
      exact hothers other c ho (hi.served other c hc hopen)
  waiting_iff := by
    intro other
    rw [hconns]
    by_cases ho : other = fd
    · subst ho
      simpa using hblocked
    · rw [put_other s ho, hwaiting other ho, hi.waiting_iff]
  once := honce
  unpaused := hunpaused

/-- The lists are rearranged, and no client changes. -/
theorem Inv.rearrange (hi : Inv s h) (hconns : s'.conns = s.conns)
    (hserved : ∀ fd c, s.conns fd = some c → c.Open → Served s h fd c → Served s' h' fd c)
    (hwaiting : (waiting s' h').Perm (waiting s h))
    (hunpaused : s'.resume_held = true → s'.writes_paused = false) : Inv s' h' where
  served := fun fd c hc hopen =>
    hserved fd c (hconns ▸ hc) hopen (hi.served fd c (hconns ▸ hc) hopen)
  waiting_iff := fun fd => by rw [hwaiting.mem_iff, hi.waiting_iff, hconns]
  once := hwaiting.nodup_iff.mpr hi.once
  unpaused := hunpaused

/-- A client changes in place. -/
theorem Inv.put (hi : Inv s h) (hc : s.conns fd = some c)
    (hblocked : c'.blocked = c.blocked) (hself : c'.Open → Served s h fd c') :
    Inv (s.put fd c') h := by
  refine hi.replace rfl ?_ ?_ ?_ (fun _ _ => Iff.rfl) hi.once hi.unpaused
  · intro hopen
    exact ⟨(hself hopen).fifo, (hself hopen).held, (hself hopen).idle⟩
  · intro other c _ hs
    exact ⟨hs.fifo, hs.held, hs.idle⟩
  · rw [hblocked]
    exact (hi.waiting_iff fd).trans (by simp [hc])

theorem Inv.rest (hi : Inv s h) (rest : Ω) : Inv { s with rest := rest } h :=
  hi.rearrange rfl (fun _ _ _ _ hs => ⟨hs.fifo, hs.held, hs.idle⟩) (.refl _) hi.unpaused

/-! ## Closing and pausing -/

theorem Inv.mark_closing (hi : Inv s h) (fd : Fd) : Inv (s.mark_closing fd) h := by
  unfold Server.mark_closing
  split
  case h_1 => exact hi
  case h_2 c hc =>
    split
    case isTrue => exact hi
    case isFalse =>
      have hclosed : ¬ { c with closing := true }.Open := fun hopen => absurd hopen.2.1 (by simp)
      have hput : Inv (s.put fd { c with closing := true }) h :=
        hi.put hc rfl fun hopen => absurd hopen hclosed
      exact hput.rearrange rfl (fun _ _ _ _ hs => ⟨hs.fifo, hs.held, hs.idle⟩) (.refl _) hput.unpaused

theorem Inv.set_writes_paused (hi : Inv s h) (paused : Bool) :
    Inv (s.set_writes_paused paused) h := by
  unfold Server.set_writes_paused
  split
  case isTrue => exact hi
  case isFalse =>
    refine hi.rearrange rfl ?_ (.refl _) ?_
    · intro fd c _ _ hs
      refine ⟨hs.fifo, fun hheld => (hs.held hheld).imp_right fun hmem => ⟨hmem.1, ?_⟩, hs.idle⟩
      cases paused <;> simp
    · cases paused <;> simp

/-! ## Parked clients -/

/-- A waiter is told. It may have commands in its buffer now. -/
theorem Inv.unpark (hi : Inv s { h with done := fd :: done }) (reply : Bytes) :
    Inv (s.unpark fd reply) { h with done := done, resume := fd :: h.resume } := by
  -- whoever is in hand is parked, and nowhere else on the list
  have hmem : fd ∈ waiting s { h with done := fd :: done } := by simp [waiting]
  obtain ⟨c, hc, hblocked⟩ := (hi.waiting_iff fd).mp hmem
  have hperm : (waiting s { h with done := fd :: done }).Perm
      (fd :: waiting s { h with done := done }) := List.perm_middle
  have honce := hperm.nodup_iff.mp hi.once
  have hput : s.unpark fd reply = s.put fd (c.unpark reply) := by rw [Server.unpark, hc]
  rw [hput]
  refine hi.replace rfl ?_ ?_ ?_ ?_ (List.nodup_cons.mp honce).2 hi.unpaused
  · intro hopen
    have hs := hi.served fd c hc hopen
    -- a parked client holds no command
    have hheld : c.held_command = none := by
      rw [← Option.not_isSome_iff_eq_none]
      intro hsome
      exact absurd (hs.fifo.held hsome) (by simp [hblocked])
    exact ⟨hs.fifo.unpark hblocked reply, fun h => absurd h (by simp [Client.unpark, hheld]),
      fun _ _ => .inr (.inl List.mem_cons_self)⟩
  · intro other c _ hs
    exact ⟨hs.fifo, hs.held, fun hb hn => (hs.idle hb hn).imp_right (Or.imp_left (List.mem_cons_of_mem _))⟩
  · have hnot : fd ∉ waiting s { h with done := done } := (List.nodup_cons.mp honce).1
    exact iff_of_false hnot (by simp [Client.unpark])
  · intro other ho
    rw [hperm.mem_iff, List.mem_cons]
    exact (or_iff_right ho).symm

theorem Inv.release (hi : Inv s { h with done := fd :: done }) :
    Inv (s.release fd) { h with done := done } := by
  have hu := hi.unpark unblocked
  refine hu.rearrange rfl ?_ (.refl _) hu.unpaused
  intro other c _ _ hs
  refine ⟨hs.fifo, hs.held, fun hb hn => ?_⟩
  rcases hs.idle hb hn with hto | hresume | hstop
  · exact .inl (List.mem_append_left _ hto)
  · rcases List.mem_cons.mp hresume with rfl | hresume
    · exact .inl (List.mem_append_right _ List.mem_cons_self)
    · exact .inr (.inl hresume)
  · exact .inr (.inr hstop)

theorem Inv.foldl_release (fds : List Fd) (hi : Inv s { h with done := fds ++ done }) :
    Inv (fds.foldl Server.release s) { h with done := done } := by
  induction fds generalizing s with
  | nil => exact hi
  | cons fd fds ih => exact ih hi.release

theorem Inv.role_changed (hi : Inv s h) : Inv s.role_changed h := by
  -- `std::exchange`: the list is empty before the first of them is told
  have hmoved : Inv { s with waiters := [] } { h with done := s.waiters.map Waiter.client ++ h.done } :=
    hi.rearrange rfl (fun _ _ _ _ hs => ⟨hs.fifo, hs.held, hs.idle⟩) (.refl _) hi.unpaused
  exact hmoved.foldl_release

theorem Inv.besides (hi : Inv s h) (role_change : Bool) (pause : Option Bool)
    (close : List Fd) : Inv (s.besides role_change pause close) h := by
  have hrole : Inv (if role_change then s.role_changed else s) h := by
    split
    · exact hi.role_changed
    · exact hi
  refine List.foldlRecOn (motive := fun s => Inv s h) close Server.mark_closing ?_
    fun s hs fd _ => hs.mark_closing fd
  split
  · exact hrole
  · exact hrole.set_writes_paused _

/-! ## What a command leaves alone -/

/-- What a client has left to run stays what it was, no client is parked, and writes are not
paused. -/
structure Calm (s s' : Server Ω) : Prop where
  client : ∀ fd c', s'.conns fd = some c' → ∃ c, s.conns fd = some c ∧ c'.buffer = c.buffer ∧
    c'.held_command = c.held_command ∧ (c.blocked = false → c'.blocked = false)
  unpaused : s.writes_paused = false → s'.writes_paused = false

theorem Calm.refl (s : Server Ω) : Calm s s :=
  ⟨fun _ c hc => ⟨c, hc, rfl, rfl, id⟩, id⟩

theorem Calm.trans {a b c : Server Ω} (hab : Calm a b) (hbc : Calm b c) : Calm a c where
  client := by
    intro fd z hz
    obtain ⟨y, hy, hbuffer, hheld, hblocked⟩ := hbc.client fd z hz
    obtain ⟨x, hx, hbuffer', hheld', hblocked'⟩ := hab.client fd y hy
    exact ⟨x, hx, hbuffer.trans hbuffer', hheld.trans hheld', hblocked ∘ hblocked'⟩
  unpaused := hbc.unpaused ∘ hab.unpaused

theorem calm_foldl {α : Type} {f : Server Ω → α → Server Ω} (hf : ∀ s x, Calm s (f s x))
    (xs : List α) (s : Server Ω) : Calm s (xs.foldl f s) :=
  List.foldlRecOn (motive := Calm s) xs f (.refl s) fun b hb x _ => hb.trans (hf b x)

theorem calm_put (hc : s.conns fd = some c) (hbuffer : c'.buffer = c.buffer)
    (hheld : c'.held_command = c.held_command) (hblocked : c.blocked = false → c'.blocked = false) :
    Calm s (s.put fd c') where
  client := by
    intro other x hx
    by_cases ho : other = fd
    · subst ho
      rw [put_self, Option.some.injEq] at hx
      subst hx
      exact ⟨c, hc, hbuffer, hheld, hblocked⟩
    · rw [put_other s ho] at hx
      exact ⟨x, hx, rfl, rfl, id⟩
  unpaused := id

theorem calm_mark_closing (s : Server Ω) (fd : Fd) : Calm s (s.mark_closing fd) := by
  unfold Server.mark_closing
  split
  case h_1 => exact .refl s
  case h_2 c hc =>
    split
    case isTrue => exact .refl s
    case isFalse =>
      have hput : Calm s (s.put fd { c with closing := true }) := calm_put hc rfl rfl id
      exact ⟨hput.client, hput.unpaused⟩

theorem calm_unpark (s : Server Ω) (fd : Fd) (reply : Bytes) : Calm s (s.unpark fd reply) := by
  unfold Server.unpark
  split
  case h_1 => exact .refl s
  case h_2 c hc => exact calm_put hc rfl rfl fun _ => rfl

theorem calm_release (s : Server Ω) (fd : Fd) : Calm s (s.release fd) :=
  ⟨(calm_unpark s fd unblocked).client, (calm_unpark s fd unblocked).unpaused⟩

theorem calm_role_changed (s : Server Ω) : Calm s s.role_changed := by
  have hfold := calm_foldl calm_release (s.waiters.map Waiter.client) { s with waiters := [] }
  exact ⟨hfold.client, hfold.unpaused⟩

theorem calm_set_unpaused (s : Server Ω) : Calm s (s.set_writes_paused false) := by
  unfold Server.set_writes_paused
  split
  · exact .refl s
  · exact ⟨(Calm.refl s).client, fun _ => rfl⟩

/-- What a command does besides. -/
theorem calm_besides (s : Server Ω) (role_change unpause : Bool) (close : List Fd) :
    Calm s (s.besides role_change (if unpause then some false else none) close) := by
  have hrole : Calm s (if role_change then s.role_changed else s) := by
    split
    · exact calm_role_changed s
    · exact .refl s
  cases unpause with
  | false => exact hrole.trans (calm_foldl calm_mark_closing close _)
  | true => exact (hrole.trans (calm_set_unpaused _)).trans (calm_foldl calm_mark_closing close _)

/-! ## One command -/

/-- The command is taken from the client. -/
theorem Inv.take (hi : Inv s h) (hc : s.conns fd = some c)
    (ht : c.Takes s.writes_paused command taken) (hresume : fd ∈ h.resume)
    (hbusy : h.busy fd = none) :
    Inv (s.put fd taken) { h with busy := Function.update h.busy fd (some command) } := by
  obtain ⟨hheld, hblocked, -⟩ := ht.same
  refine hi.replace rfl ?_ ?_ ?_ (fun _ _ => Iff.rfl) hi.once hi.unpaused
  · intro hopen
    have hs := hi.served fd c hc (ht.open_iff.mp hopen)
    refine ⟨?_, fun h => absurd h (by simp [hheld]), fun _ _ => .inr (.inl hresume)⟩
    have hfifo := hs.fifo
    rw [hbusy] at hfifo
    simpa using ht.fifo hfifo
  · intro other c ho hs
    refine ⟨?_, hs.held, hs.idle⟩
    simpa [Function.update_of_ne ho] using hs.fifo
  · rw [hblocked]
    exact (hi.waiting_iff fd).trans (by simp [hc])

/-- PSYNC makes the client one that is not open. -/
theorem Client.open_of_settle {before after : Nat} {attach : Bool}
    (h : (c.settle before after attach).Open) : c.Open := by
  refine ⟨?_, h.2.1, h.2.2⟩
  have hrole := h.1
  cases attach with
  | false => exact hrole
  | true => exact absurd hrole (by simp [Client.settle])

/-- A command answers, or it is a WAIT that parks the client. -/
theorem answer_cases (host : Host Ω) (s : Server Ω) (fd : Fd) (c : Client) (command : Args)
    (o : Outcome Ω) (before : Nat) :
    (∃ out after, s.answer host fd c command o before =
      s.put fd ((c.answered command out).settle before after o.attach)) ∨
    ∃ w after rest, w.client = fd ∧ s.answer host fd c command o before =
      { s.put fd ((c.park command).settle before after o.attach) with
        waiters := s.waiters ++ [w], rest := rest } := by
  unfold Server.answer
  split
  case h_1 => exact .inl ⟨_, _, rfl⟩
  case h_2 =>
    split
    case h_1 => exact .inl ⟨_, _, rfl⟩
    case h_2 => exact .inr ⟨_, _, _, rfl, rfl⟩

section Answers

variable {s : Server Ω} {fd : Fd} {c : Client} {command : Args}
  (hi : Inv s { h with busy := Function.update h.busy fd (some command) })
include hi

section

variable (hc : s.conns fd = some c)
include hc

theorem Inv.fifo_busy (hopen : c.Open) : c.Fifo (some command) := by
  simpa using (hi.served fd c hc hopen).fifo

omit hc in
omit hi in
theorem Served.free {x : Client} (ho : other ≠ fd)
    (hs : Served s { h with busy := Function.update h.busy fd (some command) } other x) :
    Served s h other x := by
  refine ⟨?_, hs.held, hs.idle⟩
  simpa [Function.update_of_ne ho] using hs.fifo

section

variable (hblocked : c.blocked = false)
include hblocked

theorem Inv.not_waiting : fd ∉ waiting s h := by
  intro hmem
  obtain ⟨x, hx, hb⟩ := (hi.waiting_iff fd).mp hmem
  rw [hc, Option.some.injEq] at hx
  rw [← hx, hblocked] at hb
  exact absurd hb (by simp)

theorem Inv.replied (hheld : c.held_command = none) (hresume : fd ∈ h.resume)
    (hbusy : h.busy fd = none)
    (out : Bytes) (before after : Nat) (attach : Bool) :
    Inv (s.put fd ((c.answered command out).settle before after attach)) h := by
  refine hi.replace rfl ?_ ?_ ?_ (fun _ _ => Iff.rfl) hi.once hi.unpaused
  · intro hopen
    have ho : (c.answered command out).Open := Client.open_of_settle hopen
    refine ⟨?_, fun h => absurd h (by simp [Client.answered, Client.settle, hheld]),
      fun _ _ => .inr (.inl hresume)⟩
    rw [hbusy]
    exact ((hi.fifo_busy hc ho).answered_fifo ho.1 hblocked out).settle ..
  · intro other x ho hs
    exact ⟨(hs.free ho).fifo, hs.held, hs.idle⟩
  · exact iff_of_false (hi.not_waiting hc hblocked) (by simp [Client.answered, Client.settle, hblocked])

theorem Inv.parked (hheld : c.held_command = none) (hresume : fd ∈ h.resume)
    (hbusy : h.busy fd = none)
    {w : Waiter} (hw : w.client = fd) (before after : Nat) (attach : Bool) (rest : Ω) :
    Inv { s.put fd ((c.park command).settle before after attach) with
      waiters := s.waiters ++ [w], rest := rest } h := by
  have hnot := hi.not_waiting hc hblocked
  have hperm : ((s.waiters ++ [w]).map Waiter.client ++ h.done).Perm (fd :: waiting s h) := by
    rw [List.map_append, List.append_assoc, ← hw]
    exact List.perm_middle
  refine hi.replace rfl ?_ ?_ ?_ ?_ ?_ hi.unpaused
  · intro hopen
    have ho : (c.park command).Open := Client.open_of_settle hopen
    refine ⟨?_, fun h => absurd h (by simp [Client.park, Client.settle, hheld]),
      fun _ _ => .inr (.inl hresume)⟩
    rw [hbusy]
    exact ((hi.fifo_busy hc ho).park hblocked hheld).settle ..
  · intro other x ho hs
    exact ⟨(hs.free ho).fifo, hs.held, hs.idle⟩
  · exact iff_of_true (hperm.mem_iff.mpr List.mem_cons_self) rfl
  · intro other ho
    exact (hperm.mem_iff.trans List.mem_cons).trans (or_iff_right ho)
  · exact hperm.nodup_iff.mpr (List.nodup_cons.mpr ⟨hnot, hi.once⟩)

end

end

theorem Inv.answer (host : Host Ω) (hc : s.conns fd = some c) (hblocked : c.blocked = false)
    (hheld : c.held_command = none) (hresume : fd ∈ h.resume) (hbusy : h.busy fd = none)
    (o : Outcome Ω) (before : Nat) : Inv (s.answer host fd c command o before) h := by
  obtain ⟨out, after, heq⟩ | ⟨w, after, rest, hw, heq⟩ := answer_cases host s fd c command o before
  · rw [heq]
    exact hi.replied hc hblocked hheld hresume hbusy ..
  · rw [heq]
    exact hi.parked hc hblocked hheld hresume hbusy hw ..

end Answers

section

variable (host : Host Ω)
include host

/-- What a command comes to: things it does besides, then its answer to the client. -/
theorem execute_cases (s : Server Ω) (fd : Fd) (taken : Client) (command : Args)
    (raw : Bytes) : ∃ (o : Outcome Ω) (done : Server Ω), Calm (s.put fd taken) done ∧
      (∀ h, Inv (s.put fd taken) h → Inv done h) ∧
      ((done.conns fd = none ∧ s.execute host fd taken command raw = done) ∨
        ∃ now, done.conns fd = some now ∧
          s.execute host fd taken command raw = done.answer host fd now command o
    (host.offset s.rest)) := by
  unfold Server.execute
  generalize host.dispatch s.rest fd command (if taken.role = .master then some raw else none) = o
  have hcalm := calm_besides { s.put fd taken with rest := o.rest } o.role_change o.unpause o.close
  have hkeeps : ∀ h, Inv (s.put fd taken) h → Inv (Server.besides { s.put fd taken with rest := o.rest }
      o.role_change (if o.unpause then some false else none) o.close) h :=
    fun h hi => (hi.rest o.rest).besides _ _ _
  dsimp only
  generalize Server.besides { s.put fd taken with rest := o.rest } o.role_change
    (if o.unpause then some false else none) o.close = done at hcalm hkeeps ⊢
  refine ⟨o, done, ⟨hcalm.client, hcalm.unpaused⟩, hkeeps, ?_⟩
  split
  case h_1 hnone => exact .inl ⟨hnone, rfl⟩
  case h_2 now hnow => exact .inr ⟨now, hnow, rfl⟩

/-- One command. -/
theorem Inv.execute (hi : Inv s h) (hc : s.conns fd = some c)
    (ht : c.Takes s.writes_paused command taken) (hresume : fd ∈ h.resume)
    (hbusy : h.busy fd = none) (raw : Bytes) : Inv (s.execute host fd taken command raw) h := by
  obtain ⟨o, done, hcalm, hkeeps, hcases⟩ := execute_cases host s fd taken command raw
  have hdone := hkeeps _ (hi.take hc ht hresume hbusy)
  obtain ⟨hnone, heq⟩ | ⟨now, hnow, heq⟩ := hcases
  · rw [heq]
    refine hdone.rearrange rfl ?_ (.refl _) hdone.unpaused
    intro other x hx _ hs
    have ho : other ≠ fd := by
      rintro rfl
      exact absurd (hx.symm.trans hnone) (Option.some_ne_none x)
    exact hs.free ho
  · rw [heq]
    obtain ⟨x, hx, -, hheld, hblocked⟩ := hcalm.client fd now hnow
    have hx : taken = x := by simpa using hx
    subst hx
    have hfree : taken.blocked = false := ht.same.2.1.trans ht.runs.1
    exact hdone.answer host hnow (hblocked hfree) (hheld.trans ht.same.1) hresume hbusy o _

/-- What is left for the loop does not grow while a command runs. -/
theorem execute_work (s : Server Ω) (fd : Fd) (taken : Client) (command : Args)
    (raw : Bytes) (hc : (s.execute host fd taken command raw).conns fd = some c') :
    c'.work = taken.work := by
  obtain ⟨o, done, hcalm, -, hcases⟩ := execute_cases host s fd taken command raw
  obtain ⟨hnone, heq⟩ | ⟨now, hnow, heq⟩ := hcases
  · rw [heq] at hc
    exact absurd (hc.symm.trans hnone) (Option.some_ne_none c')
  · obtain ⟨x, hx, hbuffer, hheld, -⟩ := hcalm.client fd now hnow
    have hx : taken = x := by simpa using hx
    have hnow : now.work = taken.work := by rw [hx, Client.work, Client.work, hbuffer, hheld]
    rw [heq] at hc
    obtain ⟨out, after, heq⟩ | ⟨w, after, rest, -, heq⟩ :=
      answer_cases host done fd now command o (host.offset s.rest)
    · rw [heq, put_self, Option.some.injEq] at hc
      rw [← hc]
      exact hnow
    · rw [heq] at hc
      rw [← Option.some.inj ((put_self ..).symm.trans hc)]
      exact hnow

theorem execute_unpaused (fd : Fd) (taken : Client) (command : Args) (raw : Bytes)
    (h : s.writes_paused = false) :
    (s.execute host fd taken command raw).writes_paused = false := by
  obtain ⟨o, done, hcalm, -, hcases⟩ := execute_cases host s fd taken command raw
  have hdone : done.writes_paused = false := hcalm.unpaused h
  obtain ⟨-, heq⟩ | ⟨now, -, heq⟩ := hcases
  · rw [heq]
    exact hdone
  · obtain ⟨out, after, hanswer⟩ | ⟨w, after, rest, -, hanswer⟩ :=
      answer_cases host done fd now command o (host.offset s.rest)
    · rw [heq, hanswer]
      exact hdone
    · rw [heq, hanswer]
      exact hdone

end

/-- A write is held. -/
theorem Inv.hold (hi : Inv s h) (hc : s.conns fd = some c)
    (ht : c.Takes s.writes_paused command taken) (hpaused : s.writes_paused = true)
    (hbusy : h.busy fd = none) : Inv (s.hold fd taken command) h := by
  refine hi.replace rfl ?_ ?_ ?_ (fun _ _ => Iff.rfl) hi.once hi.unpaused
  · intro hopen
    have hs := hi.served fd c hc (ht.open_iff.mp hopen)
    have hfifo := hs.fifo
    rw [hbusy] at hfifo
    refine ⟨?_, fun _ => .inr ⟨List.mem_append_right _ List.mem_cons_self, .inl hpaused⟩,
      fun _ h => absurd h (Option.some_ne_none _)⟩
    rw [hbusy]
    exact ht.hold_fifo hfifo
  · intro other x _ hs
    exact ⟨hs.fifo, fun hheld => (hs.held hheld).imp_right (And.imp_left (List.mem_append_left _)), hs.idle⟩
  · have hmem : fd ∈ waiting s h ↔ taken.blocked = true := by
      rw [hi.waiting_iff, ht.same.2.1]
      simp [hc]
    exact hmem

end EpochKV.Server

/-
Every connection is served in order, in every run.

The loop of `process_input` runs a client's commands until it may not go on, and it does end:
each command takes from the client's work. The four places that resume a client then give back
what they had taken off the lists, each by the same argument: after `process_input` an open
client has nothing left that it could run.
-/
import EpochKV.Server.Fifo

set_option autoImplicit false

namespace EpochKV.Server

open Text Resp EpochKV.Parser

variable {Ω : Type}

/-! ## The loop -/

variable {fd : Fd} {s : Server Ω} {c : Client} {h : Hand}

/-- The loop keeps the invariant, whatever number of rounds it gets. -/
theorem Inv.process_loop (host : Host Ω) (hresume : fd ∈ h.resume)
    (hbusy : h.busy fd = none) (fuel : Nat) (hi : Inv s h) :
    Inv (s.process_loop host fuel fd) h := by
  induction fuel generalizing s with
  | zero => exact hi
  | succ fuel ih =>
    rw [Server.process_loop]
    split
    case h_2 => exact hi
    case h_1 command raw taken hturn =>
      obtain ⟨c, hc, hturn⟩ := Option.map_eq_some_iff.mp hturn
      have ht := Client.takes_of_turn hturn
      split
      case isTrue hhold => exact hi.hold hc ht hhold.2.1 hbusy
      case isFalse => exact ih (hi.execute host hc ht hresume hbusy raw)

/-- No command of a client pauses writes. -/
theorem process_loop_unpaused (host : Host Ω) (fd : Fd) (fuel : Nat) (h : s.writes_paused = false) :
    (s.process_loop host fuel fd).writes_paused = false := by
  induction fuel generalizing s with
  | zero => exact h
  | succ fuel ih =>
    rw [Server.process_loop]
    split
    case h_2 => exact h
    case h_1 command raw taken _ =>
      split
      case isTrue => exact h
      case isFalse => exact ih (execute_unpaused host fd taken command raw h)

/-- The loop ends: after as many rounds as there is work, none is left to run. -/
theorem process_loop_stops (host : Host Ω) (fd : Fd) (fuel : Nat)
    (hfuel : ∀ c, s.conns fd = some c → c.work < fuel)
    (hc : (s.process_loop host fuel fd).conns fd = some c) (command : Args) (raw : Bytes)
    (taken : Client) :
    c.turn (s.process_loop host fuel fd).writes_paused ≠ .run command raw taken := by
  induction fuel generalizing s with
  | zero => exact absurd (hfuel c hc) (Nat.not_lt_zero _)
  | succ fuel ih =>
    rw [Server.process_loop] at hc ⊢
    split at hc
    -- the loop has stopped by itself
    case h_2 hnone =>
      intro hrun
      exact hnone command raw taken (by rw [hc, Option.map_some, hrun])
    case h_1 next raw' taken' hturn =>
      obtain ⟨x, hx, hturn⟩ := Option.map_eq_some_iff.mp hturn
      have ht := Client.takes_of_turn hturn
      split at hc
      case isTrue hhold =>
        -- the pause is on, and what is held stays at the head
        rw [if_pos hhold]
        have hc : { taken' with held_command := some next } = c := by simpa [Server.hold] using hc
        intro hrun
        obtain ⟨-, hpaused, -⟩ | ⟨hheld, -⟩ := (Client.takes_of_turn hrun).source
        · exact absurd hpaused (by simp [Server.hold, Server.put, hhold.2.1])
        · exact absurd hheld (by simp [← hc])
      case isFalse hhold =>
        rw [if_neg hhold]
        refine ih (fun y hy => ?_) hc
        rw [execute_work host s fd taken' next raw' hy]
        have := ht.work_lt
        have := hfuel x hx
        omega

/-- Bytes that are no command end the client, with or without a reply. -/
theorem Inv.finish (hi : Inv s h) (fd : Fd) : Inv (s.finish fd) h := by
  have hgive_up : ∀ (c : Client) (error : Bytes), s.conns fd = some c →
      Inv (s.put fd (c.give_up error)) h := by
    intro c error hc
    have hclosed : ¬ (c.give_up error).Open := fun hopen => absurd hopen.2.2 (by simp [Client.give_up])
    exact hi.put hc rfl fun hopen => absurd hopen hclosed
  unfold Server.finish
  split
  case h_1 => exact hi
  case h_2 c hc =>
    split
    · split
      · exact hi.mark_closing fd
      · exact hgive_up c _ hc
    · split
      · exact hgive_up c _ hc
      · exact hi

theorem mark_closing_closing (hc : (s.mark_closing fd).conns fd = some c) : c.closing = true := by
  unfold Server.mark_closing at hc
  split at hc
  case h_1 hnone => exact absurd (hc.symm.trans hnone) (Option.some_ne_none c)
  case h_2 x hx =>
    split at hc
    case isTrue hclosing => rwa [← Option.some.inj (hx.symm.trans hc)]
    case isFalse =>
      have hc : { x with closing := true } = c := Option.some.inj ((put_self ..).symm.trans hc)
      rw [← hc]

theorem mark_closing_paused (s : Server Ω) (fd : Fd) :
    (s.mark_closing fd).writes_paused = s.writes_paused := by
  unfold Server.mark_closing
  split
  · rfl
  · split <;> rfl

theorem finish_paused (s : Server Ω) (fd : Fd) : (s.finish fd).writes_paused = s.writes_paused := by
  unfold Server.finish
  split
  · rfl
  · split
    · split
      · exact mark_closing_paused s fd
      · rfl
    · split <;> rfl

/-- A client that is open at the end is the one that the loop left, and its bytes were no
error. -/
theorem finish_open (hc : (s.finish fd).conns fd = some c) (hopen : c.Open) :
    s.conns fd = some c ∧ c.turn s.writes_paused ≠ .broken := by
  have hgave_up : ∀ (x : Client) (error : Bytes), (s.put fd (x.give_up error)).conns fd = some c → False := by
    intro x error hx
    have hx : x.give_up error = c := Option.some.inj ((put_self ..).symm.trans hx)
    exact absurd hopen.2.2 (by simp [← hx, Client.give_up])
  unfold Server.finish at hc
  split at hc
  case h_1 hnone => exact absurd (hc.symm.trans hnone) (Option.some_ne_none c)
  case h_2 x hx =>
    split at hc
    case h_1 =>
      split at hc
      case isTrue => exact absurd (mark_closing_closing hc) (by simp [hopen.2.1])
      case isFalse => exact (hgave_up x _ hc).elim
    case h_2 hturn =>
      split at hc
      case isTrue => exact (hgave_up x _ hc).elim
      case isFalse =>
        refine ⟨hc, ?_⟩
        rw [← Option.some.inj (hx.symm.trans hc)]
        exact hturn

section

variable (host : Host Ω)
include host

theorem Inv.process_input (hi : Inv s h) (hresume : fd ∈ h.resume)
    (hbusy : h.busy fd = none) : Inv (s.process_input host fd) h := by
  unfold Server.process_input
  split
  · exact hi
  · exact (hi.process_loop host hresume hbusy _).finish fd

theorem process_input_unpaused (fd : Fd) (h : s.writes_paused = false) :
    (s.process_input host fd).writes_paused = false := by
  unfold Server.process_input
  split
  · exact h
  · exact (finish_paused ..).trans (process_loop_unpaused host fd _ h)

/-- **`process_input` runs all it may.** An open client that it leaves is parked, holds a
command that the pause is on for, or has no complete command in its buffer. -/
theorem process_input_stops (hc : (s.process_input host fd).conns fd = some c)
    (hopen : c.Open) : c.turn (s.process_input host fd).writes_paused = .stop := by
  unfold Server.process_input at hc ⊢
  split at hc
  case h_1 hnone => exact absurd (hc.symm.trans hnone) (Option.some_ne_none c)
  case h_2 x hx =>
    obtain ⟨hloop, hbroken⟩ := finish_open hc hopen
    have hfuel : ∀ y, s.conns fd = some y → y.work < x.work + 1 := by
      intro y hy
      rw [← Option.some.inj (hx.symm.trans hy)]
      exact Nat.lt_succ_self _
    have hruns := process_loop_stops host fd (x.work + 1) hfuel hloop
    rw [finish_paused]
    cases hturn : c.turn (s.process_loop host (x.work + 1) fd).writes_paused with
    | stop => rfl
    | broken => exact absurd hturn hbroken
    | run command raw taken => exact absurd hturn (hruns command raw taken)

/-! ## Resuming -/

omit host in
/-- The client was resumed: nothing is left that it could run. -/
theorem Inv.resumed (hi : Inv s { h with resume := fd :: h.resume })
    (hstop : ∀ c, s.conns fd = some c → c.Open → c.turn s.writes_paused = .stop) : Inv s h := by
  refine hi.rearrange rfl ?_ (.refl _) hi.unpaused
  intro other c hc hopen hs
  refine ⟨hs.fifo, hs.held, fun hb hn => ?_⟩
  rcases hs.idle hb hn with hto | hresume | hincomplete
  · exact .inl hto
  · rcases List.mem_cons.mp hresume with rfl | hresume
    · rcases Client.turn_stop hopen (hstop c hc hopen) with hblocked | ⟨hheld, -⟩ | ⟨-, hincomplete⟩
      · exact absurd hblocked (by simp [hb])
      · exact absurd hheld (by simp [hn])
      · exact .inr (.inr hincomplete)
    · exact .inr (.inl hresume)
  · exact .inr (.inr hincomplete)

omit host in
/-- It was resumed after the end of a pause: it holds no command. -/
theorem Inv.let_go (hi : Inv s { h with held := fd :: h.held })
    (hnone : ∀ c, s.conns fd = some c → c.Open → c.held_command = none) : Inv s h := by
  refine hi.rearrange rfl ?_ (.refl _) hi.unpaused
  intro other c hc hopen hs
  refine ⟨hs.fifo, fun hheld => ?_, hs.idle⟩
  rcases hs.held hheld with hmem | hmem
  · rcases List.mem_cons.mp hmem with rfl | hmem
    · exact absurd hheld (by simp [hnone c hc hopen])
    · exact .inl hmem
  · exact .inr hmem

omit host in
theorem Inv.more (hi : Inv s h) (fd : Fd) : Inv s { h with resume := fd :: h.resume } :=
  hi.rearrange rfl (fun _ _ _ _ hs => ⟨hs.fifo, hs.held,
    fun hb hn => (hs.idle hb hn).imp_right (Or.imp_left (List.mem_cons_of_mem _))⟩) (.refl _) hi.unpaused

/-- `process_input` on a client that is about to be resumed. -/
theorem Inv.serve (hi : Inv s { h with resume := fd :: h.resume })
    (hbusy : h.busy fd = none) : Inv (s.process_input host fd) h :=
  (hi.process_input host List.mem_cons_self hbusy).resumed fun _ => process_input_stops host

/-- A client that was parked or held goes on with its buffer, unless it is closing. -/
theorem Inv.process_buffered (hi : Inv s { h with resume := fd :: h.resume })
    (hbusy : h.busy fd = none) :
    Inv (s.process_buffered host fd) h := by
  unfold Server.process_buffered
  split
  case h_1 hnone => exact hi.resumed fun c hc => absurd (hc.symm.trans hnone) (Option.some_ne_none c)
  case h_2 x hx =>
    split
    case isFalse => exact hi.serve host hbusy
    case isTrue hclosing =>
      refine hi.resumed fun c hc hopen => absurd hopen.2.1 ?_
      rw [← Option.some.inj (hx.symm.trans hc), hclosing]
      simp

/-- New bytes join the buffer, then all that may run does. -/
theorem Inv.handle_readable (hi : Inv s h) (fd : Fd)
    (data : Option Bytes) (hbusy : h.busy fd = none) : Inv (s.handle_readable host fd data) h := by
  unfold Server.handle_readable
  split
  case h_1 => exact hi
  case h_2 c hc =>
    split
    case isTrue => exact hi
    case isFalse =>
      split
      case h_1 => exact hi.mark_closing fd
      case h_2 bytes =>
        split
        case isTrue => exact hi
        case isFalse =>
          -- a parked client is fed as well: its bytes wait in the buffer
          refine Inv.serve host ?_ hbusy
          refine (hi.more fd).put hc rfl fun hopen => ?_
          have hs := hi.served fd c hc hopen
          exact ⟨hs.fifo.feed bytes, hs.held, fun _ _ => .inr (.inl List.mem_cons_self)⟩

/-- One held client after the end of a pause. -/
theorem Inv.resume_one (hi : Inv s { h with held := fd :: h.held })
    (hpaused : s.writes_paused = false) (hbusy : h.busy fd = none) :
    Inv (s.resume_one host fd) h := by
  unfold Server.resume_one
  split
  case h_1 hnone => exact hi.let_go fun c hc => absurd (hc.symm.trans hnone) (Option.some_ne_none c)
  case h_2 x hx =>
    split
    case isFalse hskip =>
      refine hi.let_go fun c hc hopen => ?_
      rw [Option.some.inj (hx.symm.trans hc)] at hskip
      simpa [hopen.2.1] using hskip
    case isTrue =>
      have hserved := (hi.more fd).serve host hbusy
      refine hserved.let_go fun c hc hopen => ?_
      have hfifo := (hserved.served fd c hc hopen).fifo
      have hstop := process_input_stops host hc hopen
      rw [process_input_unpaused host fd hpaused] at hstop
      -- no command pauses writes, so the loop would have run a command that is still held
      by_contra hheld
      have hsome : c.held_command.isSome := Option.isSome_iff_ne_none.mpr hheld
      rcases Client.turn_stop hopen hstop with hblocked | ⟨-, h⟩ | ⟨h, -⟩
      · exact absurd (hfifo.held hsome) (by simp [hblocked])
      · exact absurd h (by simp)
      · exact hheld h

theorem resume_one_unpaused (fd : Fd) (h : s.writes_paused = false) :
    (s.resume_one host fd).writes_paused = false := by
  unfold Server.resume_one
  split
  · exact h
  · split
    · exact process_input_unpaused host fd h
    · exact h

theorem Inv.foldl_resume_one (hbusy : ∀ fd, h.busy fd = none)
    (fds : List Fd) (hi : Inv s { h with held := fds ++ h.held })
    (hpaused : s.writes_paused = false) : Inv (fds.foldl (Server.resume_one host) s) h := by
  induction fds generalizing s with
  | nil => exact hi
  | cons fd fds ih =>
    exact ih (Inv.resume_one host hi hpaused (hbusy fd)) (resume_one_unpaused host fd hpaused)

/-- The end of a pause: every held client is taken off the list and resumed. -/
theorem Inv.resume_held_clients (hi : Inv s h)
    (hbusy : ∀ fd, h.busy fd = none) (hresume : s.resume_held = true) :
    Inv (s.resume_held_clients host) h := by
  have hmoved : Inv { s with resume_held := false, held_clients := [] }
      { h with held := s.held_clients ++ h.held } := by
    refine hi.rearrange rfl ?_ (.refl _) (fun h => absurd h nofun)
    intro fd c _ _ hs
    refine ⟨hs.fifo, fun hheld => .inl ?_, hs.idle⟩
    rcases hs.held hheld with hmem | hmem
    · exact List.mem_append_right _ hmem
    · exact List.mem_append_left _ hmem.1
  exact Inv.foldl_resume_one host hbusy _ hmoved (hi.unpaused hresume)

theorem Inv.foldl_process_buffered (hbusy : ∀ fd, h.busy fd = none)
    (fds : List Fd) (hi : Inv s { h with resume := fds ++ h.resume }) :
    Inv (fds.foldl (Server.process_buffered host) s) h := by
  induction fds generalizing s with
  | nil => exact hi
  | cons fd fds ih => exact ih (Inv.process_buffered host hi (hbusy fd))

theorem Inv.foldl_unblock_one (hbusy : ∀ fd, h.busy fd = none)
    (done : List (Fd × Int)) (hi : Inv s { h with done := done.map Prod.fst ++ h.done }) :
    Inv (done.foldl (Server.unblock_one host) s) h := by
  induction done generalizing s with
  | nil => exact hi
  | cons told done ih =>
    refine ih ?_
    exact Inv.process_buffered host (hi.unpark (integer told.2)) (hbusy told.1)

/-- The waiters whose replicas or time have come are answered and resumed. -/
theorem Inv.unblock_waiters (hi : Inv s h)
    (hbusy : ∀ fd, h.busy fd = none) : Inv (s.unblock_waiters host) h := by
  refine Inv.foldl_unblock_one host hbusy _ ?_
  refine hi.rearrange rfl (fun _ _ _ _ hs => ⟨hs.fifo, hs.held, hs.idle⟩) ?_ hi.unpaused
  -- those that are done are in hand now, and the others stay: together the same clients
  have hsplit := (List.filter_append_perm (Waiter.done host s.rest) s.waiters).map Waiter.client
  have hperm := (List.perm_append_comm.trans (by simpa using hsplit)).append_right h.done
  simpa [waiting, Function.comp_def] using hperm

/-- Before the loop sleeps, those that a change of role unblocked go on, then the waiters. -/
theorem Inv.before_sleep (hi : Inv s h) (hbusy : ∀ fd, h.busy fd = none) :
    Inv (s.before_sleep host) h := by
  have hmoved : Inv { s with to_resume := [] } { h with resume := s.to_resume ++ h.resume } := by
    refine hi.rearrange rfl ?_ (.refl _) hi.unpaused
    intro fd c _ _ hs
    refine ⟨hs.fifo, hs.held, fun hb hn => .inr ?_⟩
    rcases hs.idle hb hn with hto | hresume | hincomplete
    · exact .inl (List.mem_append_left _ hto)
    · exact .inl (List.mem_append_right _ hresume)
    · exact .inr hincomplete
  exact ((hmoved.foldl_process_buffered host hbusy).rest _).unblock_waiters host hbusy

end

/-! ## Connections that come and go -/

/-- A new client, which may be open only if it is served. -/
theorem Inv.add (hi : Inv s h) (hnone : s.conns fd = none) (hblocked : c.blocked = false)
    (hself : c.Open → Served s h fd c) : Inv (s.put fd c) h := by
  have hnot : fd ∉ waiting s h := by
    intro hmem
    obtain ⟨x, hx, -⟩ := (hi.waiting_iff fd).mp hmem
    exact absurd (hx.symm.trans hnone) (Option.some_ne_none x)
  refine hi.replace rfl ?_ ?_ (iff_of_false hnot (by simp [hblocked])) (fun _ _ => Iff.rfl) hi.once hi.unpaused
  · intro hopen
    exact ⟨(hself hopen).fifo, (hself hopen).held, (hself hopen).idle⟩
  · intro other x _ hs
    exact ⟨hs.fifo, hs.held, hs.idle⟩

theorem fifo_new : Client.Fifo {} none where
  parsed := by simp [commands, drain_nil, Drained.start]
  left := rfl
  answered := rfl
  parked := rfl
  written := rfl
  held := fun h => absurd h nofun

theorem Inv.add_client (hi : Inv s h) (fd : Fd) (hbusy : h.busy fd = none) :
    Inv (s.add_client fd {}) h := by
  unfold Server.add_client
  split
  case isFalse => exact hi
  case isTrue hnone =>
    refine hi.add hnone rfl fun _ => ⟨?_, fun h => absurd h nofun, fun _ _ => .inr (.inr (by decide))⟩
    rw [hbusy]
    exact fifo_new

theorem Inv.adopt_master (host : Host Ω) (hi : Inv s h) (fd : Fd) (pending : Bytes)
    (hbusy : h.busy fd = none) : Inv (s.adopt_master host fd pending) h := by
  unfold Server.adopt_master
  split
  case isFalse => exact hi
  case isTrue hnone =>
    refine Inv.process_buffered host ?_ hbusy
    exact (hi.more fd).add hnone rfl fun hopen => absurd hopen.1 (by simp [Client.feed])

/-- Writing moves bytes from the output to what was sent, and may end the client. -/
theorem Inv.flush (hi : Inv s h) (fd : Fd) (count : Option Nat) :
    Inv (s.flush fd count) h := by
  unfold Server.flush
  split
  case h_1 => exact hi
  case h_2 c hc =>
    split
    case isTrue => exact hi
    case isFalse =>
      split
      case h_1 => exact hi.mark_closing fd
      case h_2 n =>
        have hsent : Inv (s.put fd { c with out := c.out.drop n, sent := c.sent ++ c.out.take n }) h := by
          refine hi.put hc rfl fun hopen => ?_
          have hs := hi.served fd c hc hopen
          refine ⟨⟨hs.fifo.parsed, hs.fifo.left, hs.fifo.answered, hs.fifo.parked, ?_, hs.fifo.held⟩,
            hs.held, hs.idle⟩
          rw [← hs.fifo.written, List.append_assoc, List.take_append_drop]
        split
        · split
          · exact hsent.mark_closing fd
          · exact hsent
        · split
          · exact hsent.mark_closing fd
          · exact hsent

/-- A closed client leaves every list it was on. -/
theorem Inv.close_one (hi : Inv s h) (hdone : h.done = []) (fd : Fd) :
    Inv (s.close_one fd) h := by
  unfold Server.close_one
  split
  case isTrue => exact hi
  case isFalse =>
    have hwaiters : (s.waiters.filter (·.client ≠ fd)).map Waiter.client =
        (s.waiters.map Waiter.client).filter (· ≠ fd) := by
      rw [List.filter_map]
      rfl
    -- no loop has waiters in hand while connections are closed
    have hwaiting : ∀ s' : Server Ω, waiting s' h = s'.waiters.map Waiter.client := by
      intro s'
      rw [waiting, hdone, List.append_nil]
    refine ⟨?_, ?_, ?_, hi.unpaused⟩
    · intro other c hc hopen
      have ho : other ≠ fd := by
        rintro rfl
        simp at hc
      simp only [Function.update_of_ne ho] at hc
      have hs := hi.served other c hc hopen
      refine ⟨hs.fifo, fun hheld => ?_, fun hb hn => ?_⟩
      · exact (hs.held hheld).imp_right (And.imp_left fun hmem => List.mem_filter.mpr ⟨hmem, by simp [ho]⟩)
      · exact (hs.idle hb hn).imp_left fun hmem => List.mem_filter.mpr ⟨hmem, by simp [ho]⟩
    · intro other
      rw [hwaiting, hwaiters, List.mem_filter, ← hwaiting, hi.waiting_iff]
      by_cases ho : other = fd
      · simp [ho]
      · simp [ho]
    · rw [hwaiting, hwaiters, ← hwaiting]
      exact hi.once.filter _

theorem Inv.close_pending (hi : Inv s h) (hdone : h.done = []) :
    Inv s.close_pending h := by
  have hfold := List.foldlRecOn (motive := fun s => Inv s h) s.pending_close Server.close_one hi
    fun s hs fd _ => hs.close_one hdone fd
  exact hfold.rearrange rfl (fun _ _ _ _ hs => ⟨hs.fifo, hs.held, hs.idle⟩) (.refl _) hfold.unpaused

/-! ## Whole runs -/

/-- What one event does; the induction over a run is `inv_run`. -/
theorem Inv.step (host : Host Ω) (hi : Inv s Hand.empty) (a : Step Ω) :
    Inv (s.step host a) Hand.empty := by
  cases a with
  | accept fd => exact hi.add_client fd rfl
  | adopt_master fd pending => exact hi.adopt_master host fd pending rfl
  | readable fd data => exact hi.handle_readable host fd data rfl
  | outside role_change pause close rest => exact (hi.rest rest).besides role_change pause close
  | cron => exact hi.unblock_waiters host fun _ => rfl
  | resume_held =>
    rw [Server.step]
    split
    case isTrue hresume => exact hi.resume_held_clients host (fun _ => rfl) hresume
    case isFalse => exact hi
  | before_sleep => exact hi.before_sleep host fun _ => rfl
  | flush fd count => exact hi.flush fd count
  | close_pending => exact hi.close_pending rfl

end EpochKV.Server

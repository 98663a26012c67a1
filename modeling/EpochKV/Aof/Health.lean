/-
Whether the log recovers (`AppendOnlyFile::healthy`).

Two errors are remembered, that of the last write or sync on the event loop and that of the
background thread. Each goes away only when the same step is made again and succeeds, and
whether it is made again depends on what is left to do: a flush with an empty buffer writes
nothing, and the thread is given nothing unless something was written since.
-/
import EpochKV.Aof.Log

set_option autoImplicit false

namespace EpochKV.Aof

open Text

variable {a : Aof} {io : Io}

/-! ## Calls that succeed -/

/-- Every system call succeeds. A write may still be short, or be interrupted. -/
structure Io.Succeeds (io : Io) : Prop where
  writes : ∀ e, WriteResult.error e ∉ io.writes
  group_sync : io.group_sync = none
  fdatasync : io.fdatasync = none
  background : io.background = none

theorem write_all_ok {len : Nat} {calls : List WriteResult} (h : ∀ e, WriteResult.error e ∉ calls)
    {written : Nat} (hw : written ≤ len) : (write_all len calls written).1 = len := by
  induction calls generalizing written with
  | nil => rfl
  | cons call calls ih =>
    have hcalls : ∀ e, WriteResult.error e ∉ calls := fun e he => h e (List.mem_cons_of_mem _ he)
    unfold write_all
    split
    · omega
    cases call with
    | wrote n => exact ih hcalls (by omega)
    | eintr => exact ih hcalls hw
    | error e => exact absurd List.mem_cons_self (h e)

/-- The buffer is in the file. -/
def drained (a : Aof) : Aof :=
  if a.buf = [] then a
  else if a.policy = .kAlways then { a.full_write with unsynced := false } else a.full_write

theorem flush_ok (h : io.Succeeds) (a : Aof) : a.flush io = (true, a.drained.submit io.now) := by
  rw [flush, drained]
  split
  · rfl
  have hfull : ¬ (write_all a.buf.length io.writes 0).1 < a.buf.length := by
    rw [write_all_ok h.writes (Nat.zero_le _)]
    exact lt_irrefl _
  rw [write_buf]
  rw [if_neg hfull, h.group_sync]
  split <;> rfl

/-! ## The thread -/

/-- The thread is given the file to sync. -/
def Due (a : Aof) (now : Time) : Prop :=
  a.policy = .kEverySec ∧ a.unsynced = true ∧ kEverySecInterval ≤ now - a.last_fsync
    ∧ a.fsync_worker.stage = .idle

variable {now : Time}

theorem submit_of_due (h : a.Due now) :
    a.submit now = { a with
      fsync_worker := { a.fsync_worker with stage := .syncing }
      unsynced := false
      last_fsync := now } := by
  rw [submit, if_pos ⟨h.1, h.2.1, h.2.2.1⟩, Worker.try_submit, if_pos h.2.2.2]
  rfl

theorem submit_of_not_due (h : ¬ a.Due now) : a.submit now = a := by
  rw [submit]
  split
  case isFalse => rfl
  case isTrue hready =>
    have hbusy : a.fsync_worker.stage ≠ .idle := fun hidle => h ⟨hready.1, hready.2.1, hready.2.2, hidle⟩
    rw [Worker.try_submit, if_neg hbusy]
    rfl

theorem last_errno_wait_idle (w : Worker) :
    (w.wait_idle none).last_errno = if w.stage = .syncing then none else w.last_errno := by
  rw [Worker.wait_idle]
  cases h : w.stage with
  | idle | syncing | synced => simp [Worker.run, h]

theorem healthy_iff : a.healthy = true ↔
    a.write_errno = none ∧ (a.policy = .kEverySec → a.fsync_worker.last_errno = none) := by
  rw [healthy, decide_eq_true_iff, worker_errno]
  apply and_congr_right
  intro _
  split
  case isTrue h => exact ⟨fun hnone _ => hnone, fun hnone => hnone h⟩
  case isFalse h => exact ⟨fun _ hev => absurd hev h, fun _ => rfl⟩

/-- After a flush, and a sync by the thread if it was given one. -/
theorem healthy_settled (a : Aof) (now : Time) :
    ((a.submit now).wait_idle none).healthy = true ↔
      a.write_errno = none ∧ (a.policy = .kEverySec →
        a.fsync_worker.last_errno = none ∨ a.fsync_worker.stage = .syncing ∨ a.Due now) := by
  rw [healthy_iff, wait_idle]
  by_cases hdue : a.Due now
  case pos =>
    rw [submit_of_due hdue, if_pos hdue.1]
    rw [last_errno_wait_idle, if_pos rfl]
    exact and_congr_right fun _ => iff_of_true (fun _ => rfl) fun _ => Or.inr (Or.inr hdue)
  case neg =>
    rw [submit_of_not_due hdue]
    split
    case isFalse hother =>
      exact and_congr_right fun _ => iff_of_true (fun h => absurd h hother) fun h => absurd h hother
    case isTrue heverysec =>
      rw [last_errno_wait_idle]
      apply and_congr_right
      intro _
      apply forall_congr'
      intro _
      split
      case isTrue hsyncing => exact iff_of_true rfl (Or.inr (Or.inl hsyncing))
      case isFalse hnot =>
        constructor
        · exact Or.inl
        · rintro (hnone | hsyncing | hd)
          · exact hnone
          · exact absurd hsyncing hnot
          · exact absurd hd hdue

/-! ## Recovery -/

/-- One iteration of the event loop that feeds nothing; the thread gets done. -/
def retry (a : Aof) (io : Io) : Aof := (a.flush io).2.wait_idle io.background

/-- What the code does again heals the log, from the time `t` on: two or more iterations,
more than a second apart, or one `flush_and_sync`. -/
def Recovers (a : Aof) (t : Time) : Prop :=
  (∀ io ios, io.now = t → ios ≠ [] → (∀ i ∈ io :: ios, i.Succeeds) →
      (io :: ios).IsChain (fun i j => i.now + kEverySecInterval < j.now) →
      ((io :: ios).foldl retry a).healthy = true)
    ∧ ∀ io, io.now = t → io.Succeeds → (a.flush_and_sync io).1 = true →
        (a.flush_and_sync io).2.healthy = true

/-- There is something to write again if a write failed, and something to sync again if the
thread failed: it is at it, or it is free and the second is over. -/
def Recoverable (a : Aof) (t : Time) : Prop :=
  (a.write_errno = none ∨ a.buf ≠ [])
    ∧ (a.policy ≠ .kEverySec ∨ a.fsync_worker.last_errno = none ∨ a.fsync_worker.stage = .syncing
      ∨ (a.fsync_worker.stage = .idle ∧ (a.unsynced = true ∨ a.buf ≠ [])
          ∧ kEverySecInterval ≤ t - a.last_fsync))

theorem write_errno_drained (a : Aof) : a.drained.write_errno = none ↔ a.write_errno = none ∨ a.buf ≠ [] := by
  rw [drained]
  split
  case isTrue hnil => exact ⟨Or.inl, fun h => h.resolve_right fun hne => hne hnil⟩
  case isFalse hne =>
    refine iff_of_true ?_ (Or.inr hne)
    split <;> rfl

theorem drained_same (a : Aof) : a.drained.policy = a.policy
    ∧ a.drained.fsync_worker = a.fsync_worker ∧ a.drained.last_fsync = a.last_fsync := by
  rw [drained]
  split
  · exact ⟨rfl, rfl, rfl⟩
  split <;> exact ⟨rfl, rfl, rfl⟩

theorem unsynced_drained (h : a.policy = .kEverySec) :
    a.drained.unsynced = true ↔ a.unsynced = true ∨ a.buf ≠ [] := by
  rw [drained]
  split
  case isTrue hnil => exact ⟨Or.inl, fun h => h.resolve_right fun hne => hne hnil⟩
  case isFalse hne =>
    rw [if_neg (by rw [h]; decide)]
    exact iff_of_true rfl (Or.inr hne)

/-- One flush at `t`, with a sync by the thread if it is given one, heals the log under just
that condition. -/
theorem healthy_drained (a : Aof) (t : Time) :
    ((a.drained.submit t).wait_idle none).healthy = true ↔ a.Recoverable t := by
  obtain ⟨hpolicy, hworker, hlast⟩ := drained_same a
  rw [healthy_settled, write_errno_drained, Recoverable, Due, hpolicy, hworker, hlast]
  apply and_congr_right
  intro _
  by_cases heverysec : a.policy = .kEverySec
  case neg => exact iff_of_true (fun h => absurd h heverysec) (Or.inl heverysec)
  case pos =>
    rw [unsynced_drained heverysec]
    constructor
    · intro h
      rcases h heverysec with hnone | hsyncing | ⟨-, hpending, hsecond, hidle⟩
      · exact Or.inr (Or.inl hnone)
      · exact Or.inr (Or.inr (Or.inl hsyncing))
      · exact Or.inr (Or.inr (Or.inr ⟨hidle, hpending, hsecond⟩))
    · rintro (hother | hnone | hsyncing | ⟨hidle, hpending, hsecond⟩) -
      · exact absurd heverysec hother
      · exact Or.inl hnone
      · exact Or.inr (Or.inl hsyncing)
      · exact Or.inr (Or.inr ⟨heverysec, hpending, hsecond, hidle⟩)

theorem healthy_retry (h : io.Succeeds) (a : Aof) : (a.retry io).healthy = true ↔ a.Recoverable io.now := by
  rw [retry, flush_ok h, h.background]
  exact healthy_drained a io.now

/-- A healthy log stays healthy as long as nothing fails. -/
theorem recoverable_of_healthy (h : a.healthy = true) (t : Time) : a.Recoverable t := by
  obtain ⟨hwrite, hthread⟩ := healthy_iff.1 h
  refine ⟨Or.inl hwrite, ?_⟩
  by_cases heverysec : a.policy = .kEverySec
  · exact Or.inr (Or.inl (hthread heverysec))
  · exact Or.inl heverysec

theorem healthy_retries {ios : List Io} (h : ∀ io ∈ ios, io.Succeeds) (ha : a.healthy = true) :
    (ios.foldl retry a).healthy = true := by
  induction ios generalizing a with
  | nil => exact ha
  | cons io ios ih =>
    obtain ⟨hio, hios⟩ := List.forall_mem_cons.1 h
    exact ih hios ((healthy_retry hio a).2 (recoverable_of_healthy ha io.now))

theorem flush_and_sync_ok (h : io.Succeeds) (a : Aof) :
    a.flush_and_sync io
      = (true, { (a.drained.submit io.now).wait_idle none with unsynced := false }) := by
  rw [flush_and_sync, flush_ok h, h.fdatasync, h.background]
  rfl

/-- **The log recovers just when there is something left to do again.** -/
theorem recovers_iff (a : Aof) (t : Time) : a.Recovers t ↔ a.Recoverable t := by
  constructor
  · rintro ⟨-, hsync⟩
    -- the sync alone tells
    have hio : Io.Succeeds { now := t } := ⟨fun _ => List.not_mem_nil, rfl, rfl, rfl⟩
    have hhealthy := hsync { now := t } rfl hio (by rw [flush_and_sync_ok hio])
    rw [flush_and_sync_ok hio] at hhealthy
    exact (healthy_drained a t).1 hhealthy
  · intro h
    constructor
    · rintro io ios rfl - hios -
      obtain ⟨hio, hrest⟩ := List.forall_mem_cons.1 hios
      rw [List.foldl_cons]
      exact healthy_retries hrest ((healthy_retry hio a).2 h)
    · rintro io rfl hio -
      rw [flush_and_sync_ok hio]
      exact (healthy_drained a io.now).2 h

/-- The disk is full for one flush. -/
theorem recovers_iff_full_disk :
    ([.feed [lit "SET", lit "k", lit "v"],
      .flush { writes := [.wrote 5, .error (lit "No space left on device")] }].foldl step
        (create { policy := .kEverySec } { clock := fun _ => 0 } {}).2).Recovers 5000 :=
  (recovers_iff _ _).2 ⟨Or.inr (by decide +kernel), Or.inr (Or.inl (by decide +kernel))⟩

/-! ## Two logs that do not -/

theorem wait_idle_of_idle {w : Worker} (h : w.stage = .idle) (result : Option Errno) :
    w.wait_idle result = w := by
  have hrun : w.run result = w := by rw [Worker.run, h]
  rw [Worker.wait_idle, hrun, hrun]

/-- Nothing is left to write, or to sync, and so nothing happens. -/
theorem retry_of_idle (hbuf : a.buf = []) (hunsynced : a.unsynced = false)
    (hidle : a.fsync_worker.stage = .idle) (io : Io) : a.retry io = a := by
  have hdue : ¬ a.Due io.now := by
    rintro ⟨-, h, -⟩
    rw [hunsynced] at h
    exact absurd h (by decide)
  rw [retry, flush, if_pos hbuf, submit_of_not_due hdue, wait_idle]
  split
  · rw [wait_idle_of_idle hidle]
  · rfl

theorem retries_of_idle (hbuf : a.buf = []) (hunsynced : a.unsynced = false)
    (hidle : a.fsync_worker.stage = .idle) (ios : List Io) : ios.foldl retry a = a := by
  induction ios with
  | nil => rfl
  | cons io ios ih => rw [List.foldl_cons, retry_of_idle hbuf hunsynced hidle, ih]

/-- Under `everysec`: a command is written, and the sync by the thread fails. -/
def failed_fsync : Aof :=
  [.feed [lit "SET", lit "k", lit "v"], .flush { now := 2000 },
    .thread (some (lit "Input/output error")), .thread none].foldl step
    (create { policy := .kEverySec } { clock := fun _ => 0 } {}).2

/-- Under `no`: a rewrite is to begin, and the sync before it fails. -/
def failed_sync : Aof :=
  [.feed [lit "SET", lit "k", lit "v"],
    .begin_rewrite { fdatasync := some (lit "Input/output error") }].foldl step
    (create { policy := .kNo } { clock := fun _ => 0 } {}).2

/-- One error, and the log is never healthy again, however often it is flushed, nor after a
`flush_and_sync` that succeeds. -/
theorem one_failed_sync_is_final :
    ((∀ ios : List Io, (ios.foldl retry failed_fsync).healthy = false)
        ∧ ∀ t, ¬ failed_fsync.Recovers t)
      ∧ (failed_sync.flush_and_sync {}).1 = true
      ∧ (failed_sync.flush_and_sync {}).2.healthy = false := by
  have hidle : failed_fsync.buf = [] ∧ failed_fsync.unsynced = false
      ∧ failed_fsync.fsync_worker.stage = .idle := by decide +kernel
  have hsick : failed_fsync.healthy = false := by decide +kernel
  refine ⟨⟨fun ios => ?_, fun t ht => ?_⟩, by decide +kernel⟩
  · rw [retries_of_idle hidle.1 hidle.2.1 hidle.2.2]
    exact hsick
  · have hios : ∀ io ∈ [({ now := t } : Io), { now := t + 2000 }], io.Succeeds := by
      intro io hmem
      rcases List.mem_pair.1 hmem with rfl | rfl
      · exact ⟨fun _ => List.not_mem_nil, rfl, rfl, rfl⟩
      · exact ⟨fun _ => List.not_mem_nil, rfl, rfl, rfl⟩
    have hhealthy := ht.1 { now := t } [{ now := t + 2000 }] rfl (List.cons_ne_nil _ _) hios
      (List.isChain_pair.2 (by simp [kEverySecInterval]))
    rw [retries_of_idle hidle.1 hidle.2.1 hidle.2.2, hsick] at hhealthy
    exact absurd hhealthy (by decide)

end EpochKV.Aof

/-
The replica: a snapshot is loaded, then the master's stream is applied, and nothing is
ever dropped by the replica's own clock.

Three questions about it. Does its data depend on its clock (`replica_clock_free`)?
Does it hold exactly the keys its master holds if both read the same times
(`replica_agrees`)? Does a snapshot forked off a running master, plus the stream since
the fork, give the master's data (`fork_reproduces`)? Each is answered for every
history, under the condition without which it fails, and each is followed by the
shortest failure.
-/
import EpochKV.Snapshot
import EpochKV.Replay

set_option autoImplicit false

namespace EpochKV.Replica

open Text Slots Keyspace Commands Store Journal
open Reader Snapshot Replay

/-! ## Applying the stream -/

/-- The environment of a command that arrives on the link to the master. -/
def link (env : Env) : Env := { env with client := some { is_master := true } }

/-- The commands of the stream, through the dispatcher. -/
def apply_stream (env : Env) (log : List Args) (s : Store) : Store :=
  log.foldl (fun s argv => (dispatch (link env) argv s).2) s

/-- An empty replica. -/
def replica (clock : Nat → Nat) (maxmemory : Nat) (policy : EvictionPolicy) : Store :=
  { clock := clock, maxmemory := maxmemory, policy := policy, passive_expiry := true }

theorem obeys_link (env : Env) (s : Store) : Obeys (link env) s := obeys_stream s rfl rfl

variable {log : List Args} {s : Store} {t : Nat} {ops : List Op} {r : Store} {argv : Args}
  {ws : List (Key × Write Bytes Int)}

/-- **A stream under a clock that stands still** is a passive reader at that time. -/
theorem apply_stream_view (env : Env) (h : Stands log ops) (hp : r.passive_expiry = true)
    (ht : ∀ i, r.clock i = t) :
    (apply_stream env log r).view = runPassive (t : Int) ops r.view ∧
      (apply_stream env log r).passive_expiry = true := by
  induction h generalizing r with
  | nil => exact ⟨rfl, hp⟩
  | cons ops hm _ ih =>
    obtain ⟨n, l, hb⟩ := obey_passive (obeys_link env r) hp hm
    have hread : (fun (w : Write Bytes Int) c => w.passive (readAt r w) c)
        = fun w c => w.passive (t : Int) c := by
      funext w c
      have hat : readAt r w = t := by
        cases w <;> exact congrArg Nat.cast (ht _)
      rw [hat]
    rw [hread] at hb
    obtain ⟨hview, hpas⟩ := ih (hb.passive_expiry.trans hp) fun i => by rw [hb.clock]; exact ht i
    rw [apply_stream, List.foldl_cons]
    refine ⟨hview.trans ?_, hpas⟩
    rw [hb.view, runPassive, runPassive, runWith_append, follow, List.foldl_map]
    rfl

/-! ## The replica's clock and its data -/

/-- A stream some master produced, from any state and in any history. -/
def Produced (log : List Args) : Prop :=
  ∃ s h, Master s ∧ (run h s).journal = s.journal ++ log

theorem Produced.stands (h : Produced log) : ∃ ops, Stands log ops := by
  obtain ⟨s, h, hs, hj⟩ := h
  obtain ⟨ops, log', n, hl, -⟩ := run_logged (t := 0) h hs
  have hsame := List.append_cancel_left (hl.becomes.journal.symm.trans hj)
  exact ⟨ops, hsame ▸ hl.stands⟩

/-- A logged write that uses the key's old deadline is alone in its command, and the
command is one that keeps or moves deadlines. -/
theorem usesTtl_of_means (h : Means argv ws) {x : Key × Write Bytes Int} (hx : x ∈ ws)
    (hu : x.2.usesTtl = true) :
    ws = [x] ∧ x.1 = key_of argv ∧
      ((∃ d, x.2 = .expireAt d) ∧ moves_ttl argv = true ∨
        (∀ d, x.2 ≠ .expireAt d) ∧ moves_ttl argv = false ∧ keeps_ttl argv = true) := by
  cases h with
  | set k v =>
    rw [List.mem_singleton.mp hx] at hu
    simp [Write.usesTtl] at hu
  | setAt k v d =>
    rw [List.mem_singleton.mp hx] at hu
    simp [Write.usesTtl] at hu
  | setKeep k v =>
    rw [List.mem_singleton.mp hx]
    exact ⟨rfl, rfl, Or.inr ⟨by simp, rfl, rfl⟩⟩
  | expire k d =>
    rw [List.mem_singleton.mp hx]
    exact ⟨rfl, rfl, Or.inl ⟨⟨d, rfl⟩, rfl⟩⟩
  | del name ks hname hne =>
    obtain ⟨k, -, rfl⟩ := List.mem_map.mp hx
    simp [Write.usesTtl] at hu
  | persist name k hname =>
    rw [List.mem_singleton.mp hx]
    have hh : handler_of [name, k] = some .persist := by
      rw [handler_of, hname]
      rfl
    exact ⟨rfl, rfl, Or.inr ⟨by simp, by rw [moves_ttl, hh], by rw [keeps_ttl, hh]⟩⟩

/-- The reading of the lookup a command of the stream makes for its key: `PEXPIREAT` has
asked for the time once before. -/
def looks_at (s : Store) (argv : Args) : Int :=
  s.clock (s.reads + if moves_ttl argv then 1 else 0)

/-- A command that keeps, moves or removes a deadline finds its key before that deadline. -/
def InTime (s : Store) (argv : Args) : Prop :=
  keeps_ttl argv = true ∨ moves_ttl argv = true →
    ∀ v d, s.view (key_of argv) = some (v, some d) → looks_at s argv < d

def InTimeAlong (env : Env) : List Args → Store → Prop
  | [], _ => True
  | argv :: log, s => InTime s argv ∧ InTimeAlong env log (dispatch (link env) argv s).2

/-- In time, what the lookup of a replica sees is what is there. -/
theorem follow_in_time (hm : Means argv ws) (h : InTime s argv) :
    follow (fun w c => w.passive (readAt s w) c) ws s.view
      = follow (fun w c => w.run c) ws s.view := by
  by_cases hu : ∃ x ∈ ws, x.2.usesTtl = true
  · obtain ⟨⟨k, w⟩, hx, hu⟩ := hu
    obtain ⟨hone, hkey, huse⟩ := usesTtl_of_means hm hx hu
    have hread : looks_at s argv = readAt s w := by
      rcases huse with ⟨⟨d, rfl⟩, hmv⟩ | ⟨hne, hmv, -⟩
      · rw [looks_at, hmv]
        rfl
      · rw [looks_at, hmv]
        cases w <;> first | rfl | exact absurd rfl (hne _)
    have hcell : live (readAt s w) (s.view k) = s.view k := by
      cases hc : s.view k with
      | none => rfl
      | some e =>
        obtain ⟨v, x⟩ := e
        cases x with
        | none => rfl
        | some d =>
          have huses : keeps_ttl argv = true ∨ moves_ttl argv = true := by
            rcases huse with ⟨-, hmv⟩ | ⟨-, -, hk⟩
            · exact Or.inr hmv
            · exact Or.inl hk
          have hlt := h huses v d (by rw [← hkey]; exact hc)
          rw [hread] at hlt
          rw [live_some_some, if_neg (not_le.mpr hlt)]
    rw [hone, follow_one, follow_one, passive_eq_run fun _ => hcell]
  · refine List.foldl_ext _ _ _ fun m x hx => ?_
    dsimp only
    rw [passive_eq_run fun hux => absurd ⟨x, hx, hux⟩ hu]

/-- **A stream in time** is applied as if there were no clock. -/
theorem apply_stream_in_time (env : Env) (h : Stands log ops) (hp : r.passive_expiry = true)
    (hin : InTimeAlong env log r) : (apply_stream env log r).view = runUntimed ops r.view := by
  induction h generalizing r with
  | nil => rfl
  | cons ops hm _ ih =>
    obtain ⟨n, l, hb⟩ := obey_passive (obeys_link env r) hp hm
    rw [follow_in_time hm hin.1] at hb
    rw [apply_stream, List.foldl_cons]
    refine (ih (hb.passive_expiry.trans hp) hin.2).trans ?_
    rw [hb.view, runUntimed, runUntimed, runWith_append, follow, List.foldl_map]
    rfl

/-- A file loaded into the store; the propagator is silent meanwhile. -/
def loaded (f : File) (s : Store) : Store :=
  { (load_from f { s with loading := true }).2 with loading := s.loading }

/-- A full resync as far as the data goes: the file, then the stream. -/
def resync (env : Env) (f : File) (log : List Args) (s : Store) : Store :=
  apply_stream env log (loaded f s)

theorem loaded_spec (f : File) (hp : s.passive_expiry = true) :
    (loaded f s).view = (f.records.filter fun r => ¬ r.Past s.now).foldl Record.put s.view ∧
      (loaded f s).passive_expiry = true ∧ (loaded f s).clock = s.clock := by
  obtain ⟨n, log, h⟩ := load_from_spec (s := { s with loading := true }) (.inl hp) f
  exact ⟨h.view, h.passive_expiry.trans hp, h.clock⟩

/-- No deadline in the file is over when it is loaded, and every command of the stream
that keeps, moves or removes a deadline is applied before that deadline. -/
def Unhurried (env : Env) (f : File) (log : List Args) (s : Store) : Prop :=
  (∀ r ∈ f.records, ¬ r.Past s.now) ∧ InTimeAlong env log (loaded f s)

theorem resync_view (env : Env) (f : File) (h : Stands log ops) (hp : s.passive_expiry = true)
    (hu : Unhurried env f log s) :
    (resync env f log s).view = runUntimed ops (f.records.foldl Record.put s.view) := by
  obtain ⟨hview, hpas, -⟩ := loaded_spec f hp
  have hall : f.records.filter (fun r => ¬ r.Past s.now) = f.records := by
    rw [List.filter_eq_self]
    intro r hr
    simpa using hu.1 r hr
  rw [resync, apply_stream_in_time env h hpas hu.2, hview, hall]

/-- **The replica's data and its clock.** Two replicas that load the same file and apply
the same stream of a master hold the same data, whatever their clocks read, as long as
each of them is unhurried. -/
theorem replica_clock_free (env : Env) (f : File) {log : List Args} (hlog : Produced log)
    {clock clock' : Nat → Nat} (maxmemory : Nat) (policy : EvictionPolicy)
    (h : Unhurried env f log (replica clock maxmemory policy))
    (h' : Unhurried env f log (replica clock' maxmemory policy)) :
    (resync env f log (replica clock maxmemory policy)).view
      = (resync env f log (replica clock' maxmemory policy)).view := by
  obtain ⟨ops, hst⟩ := hlog.stands
  rw [resync_view env f hst rfl h, resync_view env f hst rfl h']
  rfl

/-! ### A deadline removed in time, applied too late

The stream of `persisted` after an empty snapshot. A replica whose clock is slow removes
the deadline of `k`; for one whose clock is past it `PERSIST` finds no key, and the
deadline stays. -/

def empty_file : File := ⟨write_file (master ticks 0 .kNoEviction) 0, none⟩

def persisted_log : List Args := (run persisted (master ticks 0 .kNoEviction)).journal

theorem persisted_log_produced : Produced persisted_log :=
  ⟨master ticks 0 .kNoEviction, persisted, master_isMaster ticks_mono _ _, rfl⟩

theorem persisted_unhurried (ht : t = 0 ∨ t = 50) :
    Unhurried {} empty_file persisted_log (replica (fun _ => t) 0 .kNoEviction) := by
  have hlog : persisted_log
      = [["SET", "k", "v", "PXAT", "100"].map lit, ["PERSIST", "k"].map lit] := by decide +kernel
  have hrecords : empty_file.records = [] := by decide +kernel
  refine ⟨by simp [hrecords], ?_⟩
  rw [hlog]
  refine ⟨?_, ?_, trivial⟩
  · intro huses
    exact absurd huses (by decide)
  · intro _ v d hcell
    have hk : (dispatch (link {}) (["SET", "k", "v", "PXAT", "100"].map lit)
        (loaded empty_file (replica (fun _ => t) 0 .kNoEviction))).2.view
          (key_of (["PERSIST", "k"].map lit)) = some (lit "v", some 100) := by
      rcases ht with rfl | rfl <;> decide +kernel
    rw [hk] at hcell
    simp only [Option.some.injEq, Prod.mk.injEq] at hcell
    rw [← hcell.2]
    rcases ht with rfl | rfl <;> decide +kernel

theorem replica_clock_free_persisted :
    (resync {} empty_file persisted_log (replica (fun _ => 0) 0 .kNoEviction)).view
      = (resync {} empty_file persisted_log (replica (fun _ => 50) 0 .kNoEviction)).view :=
  replica_clock_free {} empty_file persisted_log_produced 0 .kNoEviction
    (persisted_unhurried (Or.inl rfl)) (persisted_unhurried (Or.inr rfl))

theorem persist_depends_on_replica_clock :
    Produced persisted_log ∧
      (resync {} empty_file persisted_log (replica (fun _ => 0) 0 .kNoEviction)).view (lit "k")
        = some (lit "v", none) ∧
      (resync {} empty_file persisted_log (replica (fun _ => 200) 0 .kNoEviction)).view (lit "k")
        = some (lit "v", some 100) :=
  ⟨persisted_log_produced, by decide +kernel, by decide +kernel⟩

/-! ## The same times on both sides

Master and replica in step: each command, expiry round or slot loss happens at one time,
and what it logs is applied by the replica at that time. -/

/-- The store with a clock that shows `t`. -/
def at_time (t : Nat) (s : Store) : Store := { s with clock := fun _ => t }

structure Pair where
  master : Store
  replica : Store

/-- One step of the master at time `x.1`, and its stream at the replica. -/
def Pair.step (env : Env) (p : Pair) (x : Nat × Step) : Pair :=
  let m := x.2.run (at_time x.1 p.master)
  { master := m
    replica := apply_stream env (m.journal.drop p.master.journal.length)
      (at_time x.1 p.replica) }

def Pair.run (env : Env) (h : List (Nat × Step)) (p : Pair) : Pair := h.foldl (Pair.step env) p

/-- The step is no SET with a deadline that is already over. -/
def Prompt (t : Nat) : Step → Prop
  | .client _ argv => handler_of argv = some .set → ∀ d, brings argv t = some d → t < d
  | .expire _ | .lose _ => True

theorem master_at_time (hs : s.passive_expiry = false ∧ s.loading = false) (t : Nat) :
    Master (at_time t s) :=
  ⟨hs.1, hs.2, fun _ _ _ => le_rfl⟩

/-- At one time, a passive reader makes each write of a prompt command as the master did. -/
theorem passive_eq_owner_of_prompt {env : Env} {b n : Nat} {s' : Store} {ks : List Key}
    {main : List Op} (hclock : ∀ i, s.clock i = t) (h : Wrote argv b s s' ks main log n)
    (hp : Prompt t (.client env argv)) :
    Along (fun e c => e.write.passive (t : Int) c = e.write.owner e.time c) (delOps ks ++ main)
      s.view := by
  have hnow : s.now = t := congrArg Nat.cast (hclock _)
  -- where a write brings a deadline, it was made at `t`
  have htime : ∀ e ∈ main, ∀ c, e.write.owner e.time c = e.write.owner (t : Int) c := by
    intro e he c
    cases hd : e.write.deadline with
    | none => exact owner_eq_of_deadline_none hd _ _ _
    | some d =>
      obtain ⟨i, j, -, -, -, -, -, -, hj⟩ := h.times e he d hd
      rw [hj, hclock]
  have hput : ∀ e ∈ main, ∀ v d, e.write = .putAt v d → (t : Int) < d := by
    intro e he v d hw
    obtain ⟨i, j, -, -, -, -, hbr, hgo, -⟩ := h.times e he d (by rw [hw]; rfl)
    rw [hclock] at hbr hgo
    rcases hgo with hset | hlt
    · exact hp hset d hbr
    · exact hlt
  refine along_of_wrote h ?_ ?_
  · intro e c hu hwhich
    rcases hwhich with he | hdel
    · rw [htime e he]
      refine (passive_eq_owner_iff (fun hu' => ?_) ?_).mpr (hput e he)
      · rw [hu] at hu'
        simp at hu'
      · intro d hw
        rw [hw] at hu
        simp [Write.usesTtl] at hu
    · rw [hdel]
      rfl
  · intro e he hu
    obtain ⟨-, -, hlive, huse⟩ := h.ttl e he hu
    rw [htime e he]
    refine (passive_eq_owner_iff (fun _ => ?_) ?_).mpr (hput e he)
    · cases hc : purge ks s.view e.key with
      | none => rfl
      | some x =>
        obtain ⟨v, y⟩ := x
        cases y with
        | none => rfl
        | some d =>
          have hlt := hlive v d hc
          rw [hnow] at hlt
          rw [live_some_some, if_neg (not_le.mpr hlt)]
    · intro d hw
      have hmoved : s.now < d := by
        rcases huse with ⟨-, hne⟩ | ⟨-, d', hw', hlt⟩
        · exact absurd hw (hne d)
        · rw [hw] at hw'
          rw [Write.expireAt.inj hw']
          exact hlt
      rwa [hnow] at hmoved

/-- What one step of the pair keeps. -/
structure InStep (p : Pair) : Prop where
  active : p.master.passive_expiry = false
  reporting : p.master.loading = false
  passive : p.replica.passive_expiry = true
  agree : p.replica.view = p.master.view

theorem InStep.step {p : Pair} (hp : InStep p) (env : Env) {x : Nat × Step}
    (hx : Prompt x.1 x.2) : InStep (p.step env x) := by
  obtain ⟨t, st⟩ := x
  have hm : Master (at_time t p.master) := master_at_time ⟨hp.active, hp.reporting⟩ t
  -- the writes of the step, and that a passive reader at `t` follows them
  have hwrites : ∃ ops log n, Logged (at_time t p.master) (st.run (at_time t p.master)) ops log n ∧
      Along (fun e c => e.write.passive (t : Int) c = e.write.owner e.time c) ops
        (at_time t p.master).view := by
    rcases step_cases st hm with ⟨ks, log, n, hl⟩ | ⟨env', argv, ks, main, log, n, rfl, h⟩
    · exact ⟨_, _, _, hl, along_delOps (fun _ _ => rfl) ks _⟩
    · exact ⟨_, _, _, logged_of_wrote h, passive_eq_owner_of_prompt (fun _ => rfl) h hx⟩
  obtain ⟨ops, log, n, hl, ha⟩ := hwrites
  have hsent : (st.run (at_time t p.master)).journal.drop p.master.journal.length = log := by
    rw [hl.becomes.journal]
    exact List.drop_left
  obtain ⟨hview, hpas⟩ := apply_stream_view env hl.stands (r := at_time t p.replica) (t := t)
    hp.passive fun _ => rfl
  refine ⟨hl.becomes.passive_expiry.trans hp.active, hl.becomes.loading.trans hp.reporting, ?_, ?_⟩
  · show (apply_stream env _ _).passive_expiry = true
    rw [hsent]
    exact hpas
  · show (apply_stream env _ _).view = (st.run (at_time t p.master)).view
    rw [hsent, hview, hl.becomes.view]
    show runPassive (t : Int) ops p.replica.view = runOwner ops p.master.view
    rw [hp.agree]
    exact runWith_eq_runOwner ha

/-- **A replica in step holds what its master holds**: from two empty stores, through any
history of prompt steps at any times, key by key with value and deadline, expired keys
included. -/
theorem replica_agrees (env : Env) (maxmemory maxmemory' : Nat) (policy policy' : EvictionPolicy)
    (clock clock' : Nat → Nat) (h : List (Nat × Step)) (hprompt : ∀ x ∈ h, Prompt x.1 x.2) :
    (Pair.run env h ⟨master clock maxmemory policy, replica clock' maxmemory' policy'⟩).replica.view
      = (Pair.run env h
          ⟨master clock maxmemory policy, replica clock' maxmemory' policy'⟩).master.view := by
  have hstart : InStep ⟨master clock maxmemory policy, replica clock' maxmemory' policy'⟩ :=
    ⟨rfl, rfl, rfl, rfl⟩
  have hrun : ∀ (h : List (Nat × Step)) (p : Pair), (∀ x ∈ h, Prompt x.1 x.2) → InStep p →
      InStep (Pair.run env h p) := by
    intro h
    induction h with
    | nil => exact fun p _ hp => hp
    | cons x h ih =>
      intro p hx hp
      exact ih _ (fun y hy => hx y (List.mem_cons_of_mem x hy))
        (hp.step env (hx x List.mem_cons_self))
  exact (hrun h _ hprompt hstart).agree

/-! ### A deadline that was over from the start

`SET k v PXAT 1` at time 1000: the master stores the key and removes it again, without a
word; the replica stores it and waits for a `DEL` that never comes. -/

theorem replica_agrees_persisted :
    (Pair.run {} [(0, typed ["SET", "k", "v", "PX", "100"]), (50, typed ["PERSIST", "k"])]
        ⟨master ticks 0 .kNoEviction, replica ticks 0 .kNoEviction⟩).replica.view
      = (Pair.run {} [(0, typed ["SET", "k", "v", "PX", "100"]), (50, typed ["PERSIST", "k"])]
        ⟨master ticks 0 .kNoEviction, replica ticks 0 .kNoEviction⟩).master.view := by
  refine replica_agrees {} 0 0 .kNoEviction .kNoEviction ticks ticks _ ?_
  have hset : brings (["SET", "k", "v", "PX", "100"].map lit) 0 = some 100 := by decide +kernel
  simp only [List.forall_mem_cons, List.not_mem_nil, false_implies, implies_true, and_true]
  refine ⟨fun _ d hd => ?_, fun hh => absurd hh (by decide)⟩
  rw [hset] at hd
  have hval := Option.some.inj hd
  omega

theorem past_set_stays_on_replica :
    (Pair.run {} [(1000, typed ["SET", "k", "v", "PXAT", "1"])]
        ⟨master ticks 0 .kNoEviction, replica ticks 0 .kNoEviction⟩).master.view (lit "k") = none ∧
      (Pair.run {} [(1000, typed ["SET", "k", "v", "PXAT", "1"])]
        ⟨master ticks 0 .kNoEviction, replica ticks 0 .kNoEviction⟩).replica.view (lit "k")
        = some (lit "v", some 1) := by
  decide +kernel

/-! ## A snapshot forked off, and the stream since

The child writes what the parent held at the fork, at a reading of its own; the parent
goes on. What the parent logs from then on is applied on top of the loaded file. -/

/-- No deadline the step brings is over for the master and not for a reader at `t`: not a
SET's, and not one that passes between the two readings of another command. -/
def Settles (t : Int) (s : Store) : Step → Prop
  | .client _ argv => ∀ i j, s.reads ≤ i → i ≤ j → j < s.reads + window argv →
      ∀ d, brings argv (s.clock i) = some d → t < d →
        handler_of argv = some .set ∨ s.clock i < d → s.clock j < d
  | .expire _ | .lose _ => True

/-- Every step of the history is fresh and settles in the state it meets. -/
def SteadyAlong (t : Int) : List Step → Store → Prop
  | [], _ => True
  | st :: h, s => (Fresh t s st ∧ Settles t s st) ∧ SteadyAlong t h (st.run s)

theorem run_steady {t : Int} (h : List Step) (hs : Master s) (hst : SteadyAlong t h s) :
    ∃ ops log n, Logged s (run h s) ops log n ∧
      Along (fun e c => Settled t e ∧ ¬ Stale t e.write c) ops s.view := by
  induction h generalizing s with
  | nil => exact ⟨[], [], 0, Logged.refl s, trivial⟩
  | cons st h ih =>
    obtain ⟨⟨hf, hset⟩, hrest⟩ := hst
    have hstep : ∃ ops log n, Logged s (st.run s) ops log n ∧
        Along (fun e c => Settled t e ∧ ¬ Stale t e.write c) ops s.view := by
      rcases step_cases st hs with ⟨ks, log, n, hl⟩ | ⟨env, argv, ks, main, log, n, rfl, hw⟩
      · refine ⟨_, _, _, hl, along_delOps (fun k c => ⟨by simp [Settled, Write.deadline], ?_⟩) ks _⟩
        exact fun hst => absurd (stale_usesTtl hst) (by simp [Write.usesTtl])
      · refine ⟨_, _, _, logged_of_wrote hw, (not_stale_of_fresh hw hf).and_of_forall ?_⟩
        intro e he _ d hd htd
        rcases List.mem_append.mp he with he | he
        · obtain ⟨k, -, rfl⟩ := List.mem_map.mp he
          simp [Write.deadline] at hd
        · obtain ⟨i, j, hi, hij, -, hjb, hbr, hgo, htime⟩ := hw.times e he d hd
          rw [htime]
          exact hset i j hi hij hjb d hbr htd hgo
    obtain ⟨ops, log, n, hl, ha⟩ := hstep
    obtain ⟨ops', log', n', hl', ha'⟩ := ih (hs.step hl.becomes) hrest
    refine ⟨_, _, _, hl.trans hl', ?_⟩
    rw [along_append]
    rw [hl.becomes.view] at ha'
    exact ⟨ha, ha'⟩

/-- In a master's store only the lengths can be too much for the file format. -/
theorem storable_of_run (h : List Step) (hs : Master s) (hd : ∀ k, DatedCell (s.view k))
    (hlen : ∀ k v x, (run h s).view k = some (v, x) → k.length < 2 ^ 64 ∧ v.length < 2 ^ 64) :
    Storable (run h s).view := by
  intro k v x hk
  obtain ⟨hkey, hval⟩ := hlen k v x hk
  refine ⟨hkey, hval, fun d hx => ?_⟩
  obtain ⟨hpos, -, hmax⟩ := run_dated h hs hd k v d (by rw [hk, hx])
  refine ⟨hpos, lt_of_le_of_lt hmax ?_⟩
  decide

/-- **Snapshot plus stream.** The parent's data at the fork, written by the child at `tc`
and loaded by a replica whose clock reads `tl`, and then the stream of what the parent
did since: at `tl` the replica shows what the parent shows. -/
theorem fork_reproduces (env : Env) {s : Store} (hs : Master s) (hsize : Storable s.view)
    (h : List Step) (tc tl : Nat) (hle : tc ≤ tl) (hsteady : SteadyAlong tl h s)
    (maxmemory : Nat) (policy : EvictionPolicy) :
    visible (tl : Int) (resync env ⟨write_file s tc, none⟩
        ((run h s).journal.drop s.journal.length)
        (replica (fun _ => tl) maxmemory policy)).view
      = visible (tl : Int) (run h s).view := by
  obtain ⟨ops, log, n, hl, ha⟩ := run_steady h hs hsteady
  have hsent : (run h s).journal.drop s.journal.length = log := by
    rw [hl.becomes.journal]
    exact List.drop_left
  set r := replica (fun _ => tl) maxmemory policy with hr
  obtain ⟨n', log', hb⟩ := load_from_write_file (r := { r with loading := true }) hsize rfl rfl
    (show (tc : Int) ≤ tl by exact_mod_cast hle)
  have hview : (loaded ⟨write_file s tc, none⟩ r).view = visible (tl : Int) s.view := hb.view
  obtain ⟨-, hpas, hclock⟩ := loaded_spec ⟨write_file s tc, none⟩ (s := r) rfl
  obtain ⟨happly, -⟩ := apply_stream_view env hl.stands hpas fun i => by rw [hclock]; rfl
  rw [hsent, resync, happly, hview, hl.becomes.view]
  refine visible_runPassive ?_ ha
  exact funext fun k => live_live le_rfl _

/-! ### A deadline removed after the fork

`SET k v PX 100` at time 0, the fork, and `PERSIST k` at time 50. The file holds `k` with
its deadline; a replica that loads it at 80 keeps the key, one that loads it at 200 drops
it and has nothing left to persist. -/

def forked : Store := run [typed ["SET", "k", "v", "PX", "100"]] (master ticks 0 .kNoEviction)

theorem forked_isMaster : Master forked := by
  obtain ⟨ops, log, n, hl, -⟩ := run_logged (t := 0) [typed ["SET", "k", "v", "PX", "100"]]
    (master_isMaster ticks_mono 0 .kNoEviction)
  exact (master_isMaster ticks_mono 0 .kNoEviction).step hl.becomes

theorem forked_storable : Storable forked.view := storable_of_entries (by decide +kernel)

theorem storable_of_run_forked : Storable forked.view :=
  storable_of_run [typed ["SET", "k", "v", "PX", "100"]] (master_isMaster ticks_mono 0 .kNoEviction)
    nofun fun k v x hk => ⟨(forked_storable k v x hk).1, (forked_storable k v x hk).2.1⟩

theorem forked_steady : SteadyAlong 80 [typed ["PERSIST", "k"]] forked := by
  refine ⟨⟨?_, ?_⟩, trivial⟩
  · intro v d hcell _ hd
    have hk : forked.view (key_of (["PERSIST", "k"].map lit)) = some (lit "v", some 100) := by
      decide +kernel
    rw [hk] at hcell
    simp only [Option.some.injEq, Prod.mk.injEq] at hcell
    omega
  · intro i j _ _ _ d hbr
    have hnone : brings (["PERSIST", "k"].map lit) (forked.clock i) = none := rfl
    rw [hnone] at hbr
    simp at hbr

theorem fork_reproduces_persisted :
    visible 80 (resync {} ⟨write_file forked 60, none⟩
        ((run [typed ["PERSIST", "k"]] forked).journal.drop forked.journal.length)
        (replica (fun _ => 80) 0 .kNoEviction)).view
      = visible 80 (run [typed ["PERSIST", "k"]] forked).view :=
  fork_reproduces {} forked_isMaster forked_storable [typed ["PERSIST", "k"]]
    60 80 (by decide) forked_steady 0 .kNoEviction

theorem persist_lost_after_fork :
    visible 200 (run [typed ["PERSIST", "k"]] forked).view (lit "k") = some (lit "v", none) ∧
      visible 200 (resync {} ⟨write_file forked 60, none⟩
        ((run [typed ["PERSIST", "k"]] forked).journal.drop forked.journal.length)
        (replica (fun _ => 200) 0 .kNoEviction)).view (lit "k") = none := by
  decide +kernel

end EpochKV.Replica

/-
Restarting from the log.

A master runs commands, expires and evicts keys, and writes its journal; later a
new process replays the journal into an empty store whose clock reads the time of
the restart. Does it end with the data the first process would have now?

It does if no command that keeps, moves or removes a deadline met one that was
still running when the command ran but is over at the restart (`Fresh`). Where this
fails the key is already gone when the replay reaches that command:
`persist_lost_on_replay` is the shortest case. `replay_reproduces` is the law under
that condition, for every history and any monotone clock.
-/
import EpochKV.Reader

set_option autoImplicit false

namespace EpochKV.Replay

open Text Slots Keyspace Commands Store Journal
open Reader

/-! ## Histories -/

/-- What happens to a master: a command, a round of active expiry, the loss of a
slot. Lazy expiry and eviction are part of the commands. -/
inductive Step where
  | client (env : Env) (argv : Args)
  | expire (rounds : List (Nat → Nat))
  | lose (slot : Slot)

/-- One step of a server whose log is read. -/
def Step.run : Step → Store → Store
  | .client env argv, s => (dispatch { env with log_wanted := true } argv s).2
  | .expire rounds, s => (s.active_expire_cycle rounds).2
  | .lose slot, s => (s.delete_slot slot).2

def run (h : List Step) (s : Store) : Store := h.foldl (fun s st => st.run s) s

/-- An empty master under the given clock. -/
def master (clock : Nat → Nat) (maxmemory : Nat) (policy : EvictionPolicy) : Store :=
  { clock := clock, maxmemory := maxmemory, policy := policy }

theorem master_isMaster {clock : Nat → Nat} (h : Monotone clock) (maxmemory : Nat)
    (policy : EvictionPolicy) : Master (master clock maxmemory policy) :=
  ⟨rfl, rfl, h⟩

/-! ## What a step amounts to -/

variable {P : Op → Cell Bytes Int → Prop} {argv : Args} {b : Nat} {ks : List Key}
  {main ops : List Op} {t : Int}

theorem along_delOps (h : ∀ k c, P ⟨0, k, .del⟩ c) (ks : List Key) (m : Space Key Bytes Int) :
    Along P (delOps ks) m := by
  refine along_of_forall fun e he c => ?_
  obtain ⟨k, -, rfl⟩ := List.mem_map.mp he
  exact h k c

variable {n : Nat} {s s' : Store} {log : List Args}

/-- A condition on the writes of a command, checked where it can matter: on a write
that uses the key's old deadline, and then on the cell that write met. -/
theorem along_of_wrote (h : Wrote argv b s s' ks main log n)
    (hfree : ∀ e c, e.write.usesTtl = false → (e ∈ main ∨ e.write = .del) → P e c)
    (httl : ∀ e ∈ main, e.write.usesTtl = true → P e (purge ks s.view e.key)) :
    Along P (delOps ks ++ main) s.view := by
  rw [along_append, runOwner_delOps]
  refine ⟨along_delOps (fun k c => hfree _ c rfl (Or.inr rfl)) ks s.view, ?_⟩
  · by_cases hu : ∃ e ∈ main, e.write.usesTtl = true
    · obtain ⟨e, he, hu⟩ := hu
      have hP := httl e he hu
      rw [(h.ttl e he hu).1]
      exact ⟨hP, trivial⟩
    · refine along_of_forall fun e he c => hfree e c ?_ (Or.inl he)
      by_contra hne
      exact hu ⟨e, he, by simpa using hne⟩

/-- The writes between two states of a master, and the log of them. -/
structure Logged (s s' : Store) (ops : List Op) (log : List Args) (n : Nat) : Prop where
  becomes : Becomes s s' (runOwner ops s.view) n log
  stands : Stands log ops
  times : ∀ e ∈ ops, e.write.deadline ≠ none →
    ∃ j, s.reads ≤ j ∧ j < s.reads + n ∧ e.time = s.clock j

theorem Logged.refl (s : Store) : Logged s s [] [] 0 :=
  ⟨Becomes.refl s, Stands.nil, by simp⟩

theorem Logged.trans {s'' : Store} {ops' : List Op} {log' : List Args} {n' : Nat}
    (h : Logged s s' ops log n) (h' : Logged s' s'' ops' log' n') :
    Logged s s'' (ops ++ ops') (log ++ log') (n + n') where
  becomes := by
    have h₁ := h.becomes.trans h'.becomes
    rwa [h.becomes.view, runOwner, runOwner, ← runWith_append] at h₁
  stands := h.stands.append h'.stands
  times := by
    intro e he hd
    rcases List.mem_append.mp he with he | he
    · obtain ⟨j, h1, h2, h3⟩ := h.times e he hd
      exact ⟨j, h1, by omega, h3⟩
    · obtain ⟨j, h1, h2, h3⟩ := h'.times e he hd
      rw [h.becomes.reads] at h1 h2
      rw [h.becomes.clock] at h3
      exact ⟨j, by omega, by omega, h3⟩

theorem logged_of_drops (hs : Master s) (h : Drops s s' n) :
    ∃ ks log, Logged s s' (delOps ks) log n := by
  obtain ⟨ks, h⟩ := h
  rw [hs.heard, ← runOwner_delOps] at h
  refine ⟨ks, delLog ks, h, stands_delLog ks, ?_⟩
  intro e he hd
  obtain ⟨k, -, rfl⟩ := List.mem_map.mp he
  exact absurd rfl hd

theorem logged_of_wrote (h : Wrote argv b s s' ks main log n) :
    Logged s s' (delOps ks ++ main) (delLog ks ++ log) n where
  becomes := by
    have h₁ := h.becomes
    rwa [← runOwner_delOps, runOwner, runOwner, ← runWith_append] at h₁
  stands := (stands_delLog ks).append h.stands
  times := by
    intro e he hd
    rcases List.mem_append.mp he with he | he
    · obtain ⟨k, -, rfl⟩ := List.mem_map.mp he
      exact absurd rfl hd
    · obtain ⟨d, hd⟩ := Option.ne_none_iff_exists'.mp hd
      obtain ⟨i, j, hi, hij, hj, -, -, -, ht⟩ := h.times e he d hd
      exact ⟨j, by omega, hj, ht⟩

/-! ## The condition -/

/-- The step does not keep, remove or move past `t` a deadline that is running when it
begins and is over at time `t`. -/
def Fresh (t : Int) (s : Store) : Step → Prop
  | .client _ argv =>
    ∀ v d, s.view (key_of argv) = some (v, some d) → s.now < d → d ≤ t →
      keeps_ttl argv = false ∧
      (moves_ttl argv = true → ∀ i, s.reads ≤ i → i < s.reads + window argv →
        ∀ d', brings argv (s.clock i) = some d' → d' ≤ t)
  | .expire _ | .lose _ => True

/-- Every step of the history is fresh in the state it meets. -/
def FreshAlong (t : Int) : List Step → Store → Prop
  | [], _ => True
  | st :: h, s => Fresh t s st ∧ FreshAlong t h (st.run s)

/-- **A fresh command makes no stale write.** -/
theorem not_stale_of_fresh {env : Env} (h : Wrote argv (window argv) s s' ks main log n)
    (hf : Fresh t s (.client env argv)) :
    Along (fun e c => ¬ Stale t e.write c) (delOps ks ++ main) s.view := by
  refine along_of_wrote h ?_ ?_
  · intro e c hu _ hst
    rw [stale_usesTtl hst] at hu
    simp at hu
  · rintro e he hu ⟨v, d, hc, hdt, hw⟩
    obtain ⟨-, hkey, hlive, huse⟩ := h.ttl e he hu
    have hrun := hlive v d hc
    have hcell : s.view (key_of argv) = some (v, some d) := by
      rw [← hkey]
      unfold purge at hc
      split at hc
      · simp at hc
      · exact hc
    obtain ⟨hkeep, hmove⟩ := hf v d hcell hrun hdt
    rcases huse with ⟨hk, -⟩ | ⟨hmv, d', hwrite, -⟩
    · rw [hkeep] at hk
      simp at hk
    · obtain ⟨i, j, hi, hij, -, hjb, hbr, -, -⟩ := h.times e he d' (by rw [hwrite]; rfl)
      rw [hwrite] at hw
      exact absurd (hmove hmv i hi (by omega) d' hbr) (not_le.mpr hw)

/-- A step either only drops keys, or is a command. -/
theorem step_cases (st : Step) (hs : Master s) :
    (∃ ks log n, Logged s (st.run s) (delOps ks) log n) ∨
      ∃ env argv ks main log n, st = .client env argv ∧
        Wrote argv (window argv) s (st.run s) ks main log n := by
  cases st with
  | client env argv =>
    obtain ⟨ks, main, log, n, h⟩ := dispatch_writes { env with log_wanted := true } argv hs rfl
    exact Or.inr ⟨env, argv, ks, main, log, n, rfl, h⟩
  | expire rounds =>
    obtain ⟨n, h⟩ := active_expire_cycle_drops s rounds
    obtain ⟨ks, log, hl⟩ := logged_of_drops hs h
    exact Or.inl ⟨ks, log, n, hl⟩
  | lose slot =>
    obtain ⟨ks, log, hl⟩ := logged_of_drops hs (delete_slot_drops s slot)
    exact Or.inl ⟨ks, log, 0, hl⟩

/-- One step of a master: the writes it made and logged, none of them stale at `t` if it
was fresh. -/
theorem step_logged (st : Step) (hs : Master s) :
    ∃ ops log n, Logged s (st.run s) ops log n ∧
      ∀ t, Fresh t s st → Along (fun e c => ¬ Stale t e.write c) ops s.view := by
  rcases step_cases st hs with ⟨ks, log, n, hl⟩ | ⟨env, argv, ks, main, log, n, rfl, h⟩
  · refine ⟨_, _, _, hl, fun t _ => along_delOps (fun k c hst => ?_) ks s.view⟩
    exact absurd (stale_usesTtl hst) (by simp [Write.usesTtl])
  · exact ⟨_, _, _, logged_of_wrote h, fun t hf => not_stale_of_fresh h hf⟩

/-- **A whole history.** Its journal stands for the writes it made; with every step fresh
none of them is stale. -/
theorem run_logged (h : List Step) (hs : Master s) :
    ∃ ops log n, Logged s (run h s) ops log n ∧
      (FreshAlong t h s → Along (fun e c => ¬ Stale t e.write c) ops s.view) := by
  induction h generalizing s with
  | nil => exact ⟨[], [], 0, Logged.refl s, fun _ => trivial⟩
  | cons st h ih =>
    obtain ⟨ops, log, n, hl, ha⟩ := step_logged st hs
    obtain ⟨ops', log', n', hl', ha'⟩ := ih (hs.step hl.becomes)
    refine ⟨_, _, _, hl.trans hl', ?_⟩
    rintro ⟨hf, hfs⟩
    rw [along_append]
    refine ⟨ha t hf, ?_⟩
    have hrest := ha' hfs
    rwa [hl.becomes.view] at hrest

/-! ## Deadlines are times

A master only holds deadlines that were ahead of a reading of its clock and fit the
source's `int64_t`; the snapshot format relies on both. -/

def DatedCell (c : Cell Bytes Int) : Prop := ∀ v d, c = some (v, some d) → 0 ≤ d ∧ Fits d

theorem fits_of_stands (h : Stands log ops) :
    ∀ e ∈ ops, ∀ d, e.write.deadline = some d → Fits d := by
  induction h with
  | nil => simp
  | cons ops hm _ ih =>
    intro e he d hd
    rcases List.mem_append.mp he with he | he
    · have hmem : (e.key, e.write) ∈ ops.map fun e => (e.key, e.write) :=
        List.mem_map_of_mem he
      generalize ops.map (fun e => (e.key, e.write)) = ws at hm hmem
      cases hm with
      | setAt k v d' _ hfit =>
        obtain ⟨-, hw⟩ := Prod.mk.inj (List.mem_singleton.mp hmem)
        rw [hw] at hd
        exact Option.some.inj hd ▸ hfit
      | expire k d' hfit =>
        obtain ⟨-, hw⟩ := Prod.mk.inj (List.mem_singleton.mp hmem)
        rw [hw] at hd
        exact Option.some.inj hd ▸ hfit
      | set | setKeep | persist =>
        obtain ⟨-, hw⟩ := Prod.mk.inj (List.mem_singleton.mp hmem)
        rw [hw] at hd
        simp [Write.deadline] at hd
      | del =>
        obtain ⟨k, -, hw⟩ := List.mem_map.mp hmem
        rw [← (Prod.mk.inj hw).2] at hd
        simp [Write.deadline] at hd
    · exact ih e he d hd

theorem datedCell_owner {s : Int} {w : Write Bytes Int} {c : Cell Bytes Int} (hc : DatedCell c)
    (hw : ∀ d, w.deadline = some d → Fits d ∧ 0 ≤ s) : DatedCell (w.owner s c) := by
  intro v d h
  cases hd : w.deadline with
  | none =>
    rw [Write.owner, hd, if_neg (by simp)] at h
    cases w with
    | put v' => simp [Write.run] at h
    | putAt v' d' => simp [Write.deadline] at hd
    | expireAt d' => simp [Write.deadline] at hd
    | del => simp [Write.run] at h
    | persist => cases c <;> simp [Write.run] at h
    | keep v' =>
      cases c with
      | none => simp [Write.run] at h
      | some e =>
        simp only [Write.run, Option.bind_some, Option.some.injEq, Prod.mk.injEq] at h
        exact hc e.1 d (by rw [← h.2])
  | some d' =>
    obtain ⟨hfit, hs⟩ := hw d' hd
    rw [Write.owner, hd, if_pos (by simp)] at h
    have hrun := eq_of_live_eq_some h
    have hsame : d' = d := by
      cases w <;> cases c <;> simp_all [Write.run, Write.deadline]
    rw [hrun, live_some_some] at h
    split at h
    · simp at h
    · subst hsame
      exact ⟨by omega, hfit⟩

/-- **Every deadline of a master is a time**, in every state a history leads to. -/
theorem run_dated (h : List Step) (hs : Master s) (hd : ∀ k, DatedCell (s.view k)) :
    ∀ k, DatedCell ((run h s).view k) := by
  obtain ⟨ops, log, n, hl, -⟩ := run_logged (t := 0) h hs
  have hops : ∀ e ∈ ops, ∀ d, e.write.deadline = some d → Fits d ∧ 0 ≤ e.time := by
    intro e he d hdl
    obtain ⟨j, -, -, ht⟩ := hl.times e he (by rw [hdl]; simp)
    exact ⟨fits_of_stands hl.stands e he d hdl, by rw [ht]; exact Int.natCast_nonneg _⟩
  rw [hl.becomes.view]
  generalize s.view = m at hd
  clear hl
  induction ops generalizing m with
  | nil => exact hd
  | cons e ops ih =>
    refine ih (fun e' he' => hops e' (List.mem_cons_of_mem e he')) _ fun k => ?_
    dsimp only
    by_cases hk : k = e.key
    · subst hk
      rw [Function.update_self]
      exact datedCell_owner (hd _) (hops e List.mem_cons_self)
    · rw [Function.update_of_ne hk]
      exact hd k

/-! ## Replaying the journal -/

/-- The environment of the replay: no client, and the node is no replica. -/
def startup (env : Env) : Env := { env with client := none, is_replica := false }

/-- An empty store that is being loaded while its clock reads `t`. -/
def blank (t : Nat) (maxmemory : Nat) (policy : EvictionPolicy) : Store :=
  { clock := fun _ => t, maxmemory := maxmemory, policy := policy, loading := true }

/-- The commands of the log, through the dispatcher. -/
def replay (env : Env) (log : List Args) (s : Store) : Store :=
  log.foldl (fun s argv => (dispatch (startup env) argv s).2) s

theorem follow_ops (t : Int) (ops : List Op) (m : Space Key Bytes Int) :
    follow (fun w c => w.active t c) (ops.map fun e => (e.key, e.write)) m
      = runActive t ops m := by
  rw [follow, List.foldl_map]
  rfl

/-- **The replay of a journal is an active reader of the writes it stands for.** -/
theorem replay_view (env : Env) {t : Nat} (h : Stands log ops) {r : Store}
    (hload : r.loading = true) (hp : r.passive_expiry = false) (ht : ∀ i, r.clock i = t) :
    (replay env log r).view = runActive (t : Int) ops r.view := by
  induction h generalizing r with
  | nil => rfl
  | cons ops hm _ ih =>
    have ho : Obeys (startup env) r := obeys_replay rfl rfl hload
    obtain ⟨n, l, hb⟩ := obey_active ho hp ht hm
    have hrest := ih (hb.loading.trans hload) (hb.passive_expiry.trans hp)
      (fun i => by rw [hb.clock]; exact ht i)
    rw [replay, List.foldl_cons]
    refine hrest.trans ?_
    rw [hb.view, follow_ops, runActive, runActive, runActive, ← runWith_append]

/-- **The replay law.** A history of fresh steps under a monotone clock, restarted at a
time no reading of it exceeds: the replay of the journal holds what is still alive of
the original store's data, with the same values and deadlines. -/
theorem replay_reproduces {clock : Nat → Nat} (hclock : Monotone clock)
    (maxmemory maxmemory' : Nat) (policy policy' : EvictionPolicy) (h : List Step) (env : Env)
    {t : Nat} (hend : ∀ i < (run h (master clock maxmemory policy)).reads, clock i ≤ t)
    (hfresh : FreshAlong t h (master clock maxmemory policy)) :
    visible (t : Int) (replay env (run h (master clock maxmemory policy)).journal
        (blank t maxmemory' policy')).view
      = visible (t : Int) (run h (master clock maxmemory policy)).view := by
  obtain ⟨ops, log, n, hl, ha⟩ := run_logged (t := t) h (master_isMaster hclock maxmemory policy)
  have hjournal : (run h (master clock maxmemory policy)).journal = log := hl.becomes.journal
  have hreads : (run h (master clock maxmemory policy)).reads = n := by
    rw [hl.becomes.reads]
    exact Nat.zero_add n
  -- every deadline check of the history was made at a reading, and those are over by `t`
  have hsettled : ∀ e ∈ ops, Settled (t : Int) e := by
    intro e he
    refine settled_of_le fun hd => ?_
    obtain ⟨j, -, hj, htime⟩ := hl.times e he hd
    rw [htime]
    exact_mod_cast hend j (by rw [hreads]; exact (Nat.zero_add n) ▸ hj)
  have hempty : (blank t maxmemory' policy').view
      = visible (t : Int) (master clock maxmemory policy).view := rfl
  have hlaw := runActive_visible ((ha hfresh).and_of_forall fun e he _ => hsettled e he)
  rw [hjournal, replay_view env hl.stands rfl rfl (fun _ => rfl), hl.becomes.view, hempty, hlaw]
  exact funext fun k => live_live le_rfl _

/-! ## A deadline removed in time, and a restart after it

`SET k v PX 100` at time 0 and `PERSIST k` at time 50. The log holds `SET k v PXAT 100`
and `PERSIST k`; a restart before time 100 keeps the key, a later one loses it. -/

/-- A command typed by an ordinary client. -/
def typed (words : List String) : Step := .client { client := some {} } (words.map lit)

def persisted : List Step := [typed ["SET", "k", "v", "PX", "100"], typed ["PERSIST", "k"]]

/-- `SET` takes the first two readings, `PERSIST` the third. -/
def ticks (i : Nat) : Nat := if i < 2 then 0 else 50

theorem ticks_mono : Monotone ticks := by
  intro i j hij
  unfold ticks
  split <;> split <;> omega

theorem persisted_fresh : FreshAlong 60 persisted (master ticks 0 .kNoEviction) := by
  refine ⟨?_, ?_, trivial⟩
  · intro v d hcell
    exact absurd hcell (by simp [master, Store.view, Tables.view, Tables.empty])
  · intro v d hcell _ hd
    have hk : ((typed ["SET", "k", "v", "PX", "100"]).run (master ticks 0 .kNoEviction)).view
        (key_of (["PERSIST", "k"].map lit)) = some (lit "v", some 100) := by decide +kernel
    rw [hk] at hcell
    simp only [Option.some.injEq, Prod.mk.injEq] at hcell
    omega

theorem replay_reproduces_persisted :
    FreshAlong 60 persisted (master ticks 0 .kNoEviction) ∧
      visible 60 (replay {} (run persisted (master ticks 0 .kNoEviction)).journal
          (blank 60 0 .kNoEviction)).view
        = visible 60 (run persisted (master ticks 0 .kNoEviction)).view :=
  ⟨persisted_fresh,
    replay_reproduces ticks_mono 0 0 .kNoEviction .kNoEviction persisted {}
      (by decide +kernel) persisted_fresh⟩

/-- The same history restarted at time 1000: the original store has `k` for ever, the
replayed one has lost it. -/
theorem persist_lost_on_replay :
    Monotone ticks ∧ (∀ i < (run persisted (master ticks 0 .kNoEviction)).reads, ticks i ≤ 1000) ∧
      visible 1000 (run persisted (master ticks 0 .kNoEviction)).view (lit "k")
        = some (lit "v", none) ∧
      visible 1000 (replay {} (run persisted (master ticks 0 .kNoEviction)).journal
          (blank 1000 0 .kNoEviction)).view (lit "k") = none :=
  ⟨ticks_mono, by decide +kernel, by decide +kernel, by decide +kernel⟩

end EpochKV.Replay

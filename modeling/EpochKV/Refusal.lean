/-
Commands that are answered with an error (`dispatch` and every handler but MIGRATE's).

Each handler checks its arguments in an order of its own, and most look a key up before
they decide. `Sheds` is what those looks may leave behind on any store, a master's or a
replica's, loading or not: some keys are gone, each because it was due at a reading of the
clock taken meanwhile or because memory was over its limit, each reported by one `DEL`, and
every other key is as it was. An error never comes with more than that.
-/
import EpochKV.Admin
import EpochKV.Journal

set_option autoImplicit false

namespace EpochKV.Refusal

open Text Keyspace Commands Store Journal

/-! ## What a look may leave behind -/

/-- The deadline of the key was passed at one of the readings between `s` and `s'`. -/
def Due (s s' : Store) (k : Key) : Prop :=
  ∃ v d i, s.view k = some (v, some d) ∧ s.reads ≤ i ∧ i < s'.reads ∧ d ≤ s.clock i

/-- The key was due, and the store removes such keys itself. -/
def Lapsed (s s' : Store) (k : Key) : Prop := s.passive_expiry = false ∧ Due s s' k

variable {s s' : Store} {k : Key} {env : Env} {argv : Args} {msg : Bytes}

theorem Due.isSome (h : Due s s' k) : (s.view k).isSome := by
  obtain ⟨v, d, i, hv, -⟩ := h
  rw [hv]
  rfl

variable {s'' : Store} {key : Key} {n : Nat} {ks : List Key}

/-- A key that was due by the middle was due by the end. -/
theorem Due.mono (h : Due s s' k) (hr : s'.reads ≤ s''.reads) : Due s s'' k := by
  obtain ⟨v, d, i, hv, hi, hi', hd⟩ := h
  exact ⟨v, d, i, hv, hi, by omega, hd⟩

/-- A key that was due in the second half was due. -/
theorem Due.of_later (h : Due s' s'' k) (hv : s'.view k = s.view k) (hr : s.reads ≤ s'.reads)
    (hc : s'.clock = s.clock) : Due s s'' k := by
  obtain ⟨v, d, i, hd, hi, hi', hle⟩ := h
  exact ⟨v, d, i, by rw [← hv]; exact hd, by omega, hi', by rw [← hc]; exact hle⟩

/-- A lookup moves nothing, or it drops its key and says so. -/
theorem seen_cases (hn : s.asks key ≤ n) (h : Becomes s s' (s.seen key) n (s.expiryLog key)) :
    Becomes s s' s.view n [] ∨
      (Lapsed s s' key ∧
        Becomes s s' (Function.update s.view key none) n (s.heard [[lit "DEL", key]])) := by
  rcases seen_eq_or s key with ⟨hseen, hlog⟩ | ⟨hp, ⟨v, d, hv, hd⟩, hseen, hlog⟩
  · rw [hseen, hlog] at h
    exact .inl h
  · rw [hseen, hlog] at h
    have hasks : s.asks key = 1 := by simp [asks, hv]
    exact .inr ⟨⟨hp, v, d, s.reads, hv, le_rfl, by rw [h.reads]; omega, hd⟩, h⟩

/-- The store has a limit, is over it and makes room for writes, and the key is there to go. -/
def Evicted (s : Store) (k : Key) : Prop :=
  s.maxmemory ≠ 0 ∧ s.maxmemory < s.used_memory ∧ s.policy = .kAllKeysLru ∧ (s.view k).isSome

/-- Between `s` and `s'` exactly the keys `ks` went, by expiry or eviction, with one `DEL`
each, and nothing else happened to the data. -/
structure Sheds (s s' : Store) (ks : List Key) : Prop where
  nodup : ks.Nodup
  cause : ∀ k ∈ ks, Lapsed s s' k ∨ Evicted s k
  becomes : ∃ n, Becomes s s' (purge ks s.view) n (s.heard (delLog ks))
  /-- So a store that is over its limit at some point was so from the beginning. -/
  used : s'.used_memory ≤ s.used_memory

theorem Sheds.of_becomes (h : Becomes s s' s.view n []) (hu : s'.used_memory = s.used_memory) :
    Sheds s s' [] where
  nodup := List.nodup_nil
  cause := by simp
  becomes := ⟨n, by simpa [delLog] using h⟩
  used := hu.le

theorem sheds_refl (s : Store) : ∃ ks, Sheds s s ks := ⟨[], .of_becomes (Becomes.refl s) rfl⟩

/-- A key that goes was there. -/
theorem Sheds.isSome (h : Sheds s s' ks) (hk : k ∈ ks) : (s.view k).isSome := by
  rcases h.cause k hk with ⟨-, hdue⟩ | ⟨-, -, -, hv⟩
  · exact hdue.isSome
  · exact hv

/-- Two stretches: what went in the first is not there to go in the second. -/
theorem Sheds.trans {s₁ s₂ : Store} {ks' : List Key} (h : Sheds s s₁ ks) (h' : Sheds s₁ s₂ ks') :
    Sheds s s₂ (ks ++ ks') := by
  obtain ⟨n, hb⟩ := h.becomes
  obtain ⟨n', hb'⟩ := h'.becomes
  -- what went first is not there to go again
  have hnew : ∀ k ∈ ks', k ∉ ks ∧ s₁.view k = s.view k := by
    intro k hk
    have hsome := h'.isSome hk
    rw [hb.view, purge] at hsome
    by_cases hin : k ∈ ks
    · rw [if_pos hin] at hsome
      simp at hsome
    · exact ⟨hin, by rw [hb.view, purge, if_neg hin]⟩
  refine ⟨?_, ?_, ⟨n + n', ?_⟩, h'.used.trans h.used⟩
  · refine List.nodup_append'.2 ⟨h.nodup, h'.nodup, ?_⟩
    intro k hk hk'
    exact (hnew k hk').1 hk
  · intro k hk
    rcases List.mem_append.1 hk with hk | hk
    · rcases h.cause k hk with ⟨hp, hdue⟩ | he
      · exact .inl ⟨hp, hdue.mono (by rw [hb'.reads]; omega)⟩
      · exact .inr he
    · have hview := (hnew k hk).2
      rcases h'.cause k hk with ⟨hp, hdue⟩ | ⟨hm, hover, hpol, hs⟩
      · rw [hb.passive_expiry] at hp
        exact .inl ⟨hp, hdue.of_later hview (by rw [hb.reads]; omega) hb.clock⟩
      · rw [hb.maxmemory] at hm hover
        rw [hb.policy] at hpol
        rw [hview] at hs
        exact .inr ⟨hm, hover.trans_le h.used, hpol, hs⟩
  · have hall := hb.trans hb'
    rw [hb.view, hb.heard, ← heard_append, ← purge_append] at hall
    rwa [delLog_append]

theorem used_remove_le (s : Store) (key : Key) : (s.remove key).2.used_memory ≤ s.used_memory := by
  unfold remove
  split
  · exact le_rfl
  · unfold clear_expire
    dsimp only
    split <;> dsimp only <;> omega

theorem used_notify_deleted (s : Store) (key : Key) :
    (s.notify_deleted key).used_memory = s.used_memory := by
  unfold notify_deleted propagate
  split <;> rfl

/-- A lookup may drop its key, which frees memory, and takes none. -/
theorem used_lookup_le (s : Store) (key : Key) (touch : Bool) :
    (s.lookup key touch).2.used_memory ≤ s.used_memory := by
  have hexpire : (s.expire_if_needed key).2.used_memory ≤ s.used_memory := by
    unfold expire_if_needed
    dsimp only
    repeat' split
    all_goals try exact le_rfl
    rw [used_notify_deleted]
    exact used_remove_le s.now_ms.2 key
  unfold lookup
  dsimp only
  repeat' split
  all_goals exact hexpire

/-- Reading options takes no memory. -/
theorem used_set_options (opts : List Bytes) (o : SetOptions) (s : Store) :
    (set_options opts o s).2.used_memory = s.used_memory := by
  have hdeadline : ∀ (t : Store) (amount unit_ms : Int) (relative : Bool),
      (set_deadline t amount unit_ms relative).2.used_memory = t.used_memory := by
    intro t amount unit_ms relative
    unfold set_deadline
    repeat' split
    all_goals rfl
  fun_induction set_options opts o s
  case case2 ih | case3 ih | case4 ih => exact ih
  case case7 => exact hdeadline _ _ _ _
  case case8 ih => exact ih.trans (hdeadline _ _ _ _)
  all_goals rfl

/-- A lookup, with or without use of the key. -/
theorem lookup_sheds (s : Store) (key : Key) (touch : Bool) :
    ∃ ks, Sheds s (s.lookup key touch).2 ks := by
  have hused := used_lookup_le s key touch
  rcases seen_cases le_rfl (lookup_spec s key touch).2 with h | ⟨hdue, h⟩
  · exact ⟨[], List.nodup_nil, by simp, ⟨_, by simpa [delLog] using h⟩, hused⟩
  · refine ⟨[key], List.nodup_singleton key, ?_, ⟨s.asks key, ?_⟩, hused⟩
    · intro k hk
      rw [List.mem_singleton.1 hk]
      exact .inl hdue
    · rw [purge_cons, purge_nil]
      exact h

/-! ## Before the handler -/

theorem count_missing_sheds (keys : List Key) (s : Store) :
    ∃ ks, Sheds s (count_missing keys s).2 ks := by
  induction keys generalizing s with
  | nil => exact sheds_refl s
  | cons key keys ih =>
    obtain ⟨ks, h⟩ := lookup_sheds s key false
    obtain ⟨ks', h'⟩ := ih (s.contains key).2
    exact ⟨_, h.trans h'⟩

/-- Routing looks keys up only in a slot that is being moved. -/
theorem route_sheds (v : RouteView) (keys : List Key) (write asking readonly : Bool) (s : Store) :
    ∃ ks, Sheds s (route v keys write asking readonly s).2 ks := by
  unfold route
  split
  · exact sheds_refl s
  · dsimp only
    split
    · exact sheds_refl s
    · split
      · exact sheds_refl s
      · split
        · exact sheds_refl s
        · repeat' split
          all_goals first | exact sheds_refl s | exact count_missing_sheds _ s

theorem redirect_sheds (env : Env) (spec : CommandSpec) (argv : Args) (s : Store) :
    ∃ ks, Sheds s (redirect env spec argv s).2 ks := by
  unfold redirect
  split
  · split
    · exact sheds_refl s
    · exact route_sheds _ _ _ _ _ s
  · exact sheds_refl s

/-- One round of the eviction. -/
theorem evict_one_sheds {victim : Key} (hmax : s.maxmemory ≠ 0)
    (hover : s.maxmemory < s.used_memory) (hpol : s.policy ≠ .kNoEviction)
    (hv : s.tables.lru.getLast? = some victim) (e v : Nat) :
    Sheds s (notify_deleted { (s.remove victim).2 with expired_keys := e, evicted_keys := v } victim)
      [victim] := by
  refine ⟨List.nodup_singleton victim, ?_, ⟨0, ?_⟩, ?_⟩
  · intro k hk
    rw [List.mem_singleton.1 hk]
    refine .inr ⟨hmax, hover, ?_, ?_⟩
    · cases hp : s.policy with
      | kNoEviction => exact absurd hp hpol
      | kAllKeysLru => rfl
    · exact Tables.view_isSome.2 ((s.tables.mem_lru victim).1 (List.mem_of_getLast? hv))
  · rw [purge_cons, purge_nil]
    exact remove_reported s victim e v
  · rw [used_notify_deleted]
    exact used_remove_le s victim

/-- The eviction, by induction on its rounds: each was over the limit when it began. -/
theorem evict_loop_sheds (n : Nat) (hmax : s.maxmemory ≠ 0) :
    ∃ ks, Sheds s (evict_loop n s).2 ks := by
  induction n generalizing s with
  | zero => exact sheds_refl s
  | succ n ih =>
    unfold evict_loop
    split
    · exact sheds_refl s
    next hover =>
      split
      · exact sheds_refl s
      next hpol =>
      split
      · exact sheds_refl s
      next victim hv =>
      have h := evict_one_sheds hmax (not_le.1 hover) hpol hv (s.remove victim).2.expired_keys
        ((s.remove victim).2.evicted_keys + 1)
      obtain ⟨m, hb⟩ := h.becomes
      obtain ⟨ks, h'⟩ := ih (hb.maxmemory.trans_ne hmax)
      exact ⟨_, h.trans h'⟩

theorem refuse_sheds (env : Env) (spec : CommandSpec) (s : Store) :
    ∃ ks, Sheds s (refuse env spec s).2 ks := by
  unfold refuse
  split
  · exact sheds_refl s
  · split
    · exact sheds_refl s
    · split
      · unfold evict_if_needed
        split
        · exact sheds_refl s
        next hmax => exact evict_loop_sheds _ hmax
      · exact sheds_refl s

/-! ## The handlers

One lemma for each handler that can fail. The others answer with something else. -/

theorem cmd_set_error (h : (cmd_set env argv s).1 = .error msg) :
    ∃ ks, Sheds s (cmd_set env argv s).2 ks := by
  unfold cmd_set at h ⊢
  split
  next key value opts =>
    obtain ⟨n, -, -, hb⟩ := set_options_spec opts {} s
    dsimp only at h ⊢
    split
    · exact ⟨[], .of_becomes hb (used_set_options opts {} s)⟩
    next o ho =>
      simp only [ho] at h
      generalize (if (o.nx || o.xx) = true then _ else _ : Bool × Store) = x at h
      split at h <;> simp at h
  · exact sheds_refl s

/-- The family fails on what the value is, after it has looked. -/
theorem incr_by_error {delta : Int} (h : (incr_by env key delta s).1 = .error msg) :
    ∃ ks, Sheds s (incr_by env key delta s).2 ks := by
  unfold incr_by at h ⊢
  dsimp only at h ⊢
  split
  · exact lookup_sheds s key true
  next value hval =>
    split
    · exact lookup_sheds s key true
    next hfit => simp [hval, hfit] at h

theorem expire_generic_error {unit_ms : Int} {relative : Bool} {name : String}
    (h : (expire_generic env argv unit_ms relative name s).1 = .error msg) :
    ∃ ks, Sheds s (expire_generic env argv unit_ms relative name s).2 ks := by
  unfold expire_generic at h ⊢
  split
  · exact sheds_refl s
  next amount hamount =>
    simp only [hamount] at h
    dsimp only at h ⊢
    split
    · exact ⟨[], .of_becomes (now_ms_spec s).2 rfl⟩
    next when_ms hwhen =>
      simp only [hwhen] at h
      split at h <;> simp at h

theorem restore_into_ok (env : Env) (key : Key) (value : Bytes) (ttl : Int) (absttl : Bool)
    (s : Store) : (restore_into env key value ttl absttl s).1 = .simple (lit "OK") := by
  unfold restore_into
  dsimp only
  split <;> rfl

/-- RESTORE fails on its options, on a key that is taken or on the payload. -/
theorem cmd_restore_error (h : (cmd_restore env argv s).1 = .error msg) :
    ∃ ks, Sheds s (cmd_restore env argv s).2 ks := by
  unfold cmd_restore at h ⊢
  split
  next key ttl_text payload opts =>
    dsimp only at h ⊢
    split
    · exact sheds_refl s
    next replace absttl hopts =>
      simp only [hopts] at h
      split
      · exact sheds_refl s
      next ttl httl =>
        simp only [httl] at h
        have hlook : ∃ ks, Sheds s (if replace then (false, s) else s.exists_key key).2 ks := by
          split
          · exact sheds_refl s
          · exact lookup_sheds s key true
        generalize (if replace = true then (false, s) else s.exists_key key) = x at h hlook ⊢
        split
        · exact hlook
        next hfree =>
          rw [if_neg hfree] at h
          split
          · exact hlook
          next value hvalue =>
            simp [hvalue, restore_into_ok] at h
  · exact sheds_refl s

/-- **A handler that fails has only looked.** -/
theorem run_handler_error {handler : Handler} (hm : handler ≠ .migrate)
    (h : (run_handler env argv s handler).1 = .error msg) :
    ∃ ks, Sheds s (run_handler env argv s handler).2 ks := by
  cases handler <;> simp only [run_handler] at h ⊢
  case ping | echo | dbsize | other => exact sheds_refl s
  case set => exact cmd_set_error h
  case get =>
    unfold cmd_get at h
    dsimp only at h
    split at h <;> simp at h
  case del => simp [cmd_del] at h
  case exists_keys => simp [cmd_exists] at h
  case incr | decr => exact incr_by_error h
  case incrby =>
    unfold cmd_incrby at h ⊢
    split
    · exact sheds_refl s
    next delta hd =>
      simp only [hd] at h
      exact incr_by_error h
  case decrby =>
    unfold cmd_decrby at h ⊢
    split
    · exact sheds_refl s
    next delta hd =>
      simp only [hd] at h
      split
      · exact sheds_refl s
      next hmin =>
        rw [if_neg hmin] at h
        exact incr_by_error h
  case expire | pexpire | expireat | pexpireat => exact expire_generic_error h
  case ttl => simp [cmd_ttl] at h
  case pttl => simp [cmd_pttl] at h
  case persist =>
    unfold cmd_persist at h
    dsimp only at h
    split at h <;> simp at h
  case dump =>
    unfold cmd_dump at h
    dsimp only at h
    split at h <;> simp at h
  case restore => exact cmd_restore_error h
  case migrate => exact absurd rfl hm

/-- The handler that is left out is the one of MIGRATE. -/
theorem find_command_migrate {upper : Bytes} {spec : CommandSpec}
    (h : find_command upper = some spec) (hh : spec.handler = .migrate) : upper = lit "MIGRATE" := by
  obtain ⟨name, hmem, rfl⟩ := find_command_mem h
  have hall : ∀ e ∈ table, e.2.handler = .migrate → e.1 = "MIGRATE" := by decide
  exact congrArg lit (hall _ hmem hh)

/-- Every way an error comes about: unknown, misshapen, redirected, refused, or from the handler. -/
theorem dispatch_error_sheds (hm : to_upper (argv.headD []) ≠ lit "MIGRATE")
    (h : (dispatch env argv s).1 = .error msg) : ∃ ks, Sheds s (dispatch env argv s).2 ks := by
  unfold dispatch at h ⊢
  split
  · exact sheds_refl s
  next name args =>
    dsimp only at h ⊢
    split
    · exact sheds_refl s
    next spec hspec =>
      simp only [hspec] at h
      split
      · next harity =>
        rw [if_pos harity] at h
        obtain ⟨ks₁, h₁⟩ := redirect_sheds env spec (name :: args) s
        obtain ⟨ks₂, h₂⟩ := refuse_sheds env spec (redirect env spec (name :: args) s).2
        split
        · exact ⟨ks₁, h₁⟩
        next hroute =>
          simp only [hroute] at h
          split
          · exact ⟨_, h₁.trans h₂⟩
          next hlets =>
            simp only [hlets] at h
            have hne : spec.handler ≠ .migrate := fun hc => hm (find_command_migrate hspec hc)
            obtain ⟨ks₃, h₃⟩ := run_handler_error hne h
            exact ⟨_, (h₁.trans h₂).trans h₃⟩
      · exact sheds_refl s

/-! ## CLUSTER

The subcommands see the store through the cluster's state. One that fails leaves the store
untouched: it returns before its first change, except SAVECONFIG, whose failure is found by
trying to write the file. -/

/-- An error reply comes with the store as it was. -/
def Harmless (c : Cluster) (r : Reply × Cluster) : Prop :=
  ∀ msg, r.1 = .error msg → r.2.store = c.store

@[simp] theorem harmless_same (c : Cluster) (reply : Reply) : Harmless c (reply, c) :=
  fun _ _ => rfl

@[simp] theorem harmless_ok (c c' : Cluster) : Harmless c (Cluster.ok, c') := by
  intro msg h
  simp [Cluster.ok] at h

@[simp] theorem harmless_integer (c c' : Cluster) (n : Int) : Harmless c (.integer n, c') := by
  intro msg h
  simp at h

theorem cmd_addslots_harmless (c : Cluster) (argv : Args) (range add : Bool) :
    Harmless c (c.cmd_addslots argv range add) := by
  unfold Cluster.cmd_addslots
  repeat' split
  all_goals simp

theorem cmd_setslot_harmless (c : Cluster) (argv : Args) : Harmless c (c.cmd_setslot argv) := by
  have hnode : ∀ slot n action, Harmless c (c.setslot_node slot n action) := by
    intro slot n action
    cases action <;> unfold Cluster.setslot_node <;> dsimp only <;> split
    all_goals simp
  unfold Cluster.cmd_setslot
  repeat' split
  all_goals first | exact hnode _ _ _ | simp

theorem cmd_meet_harmless (env : Cluster.Env) (c : Cluster) (ip port : Bytes)
    (cport : Option Bytes) : Harmless c (c.cmd_meet env ip port cport) := by
  unfold Cluster.cmd_meet
  repeat' split
  all_goals simp

theorem cmd_replicate_harmless (c : Cluster) (id : Bytes) : Harmless c (c.cmd_replicate id) := by
  unfold Cluster.cmd_replicate
  repeat' split
  all_goals simp

theorem cmd_forget_harmless (env : Cluster.Env) (c : Cluster) (id : Bytes) :
    Harmless c (c.cmd_forget env id) := by
  unfold Cluster.cmd_forget
  repeat' split
  all_goals simp

theorem cmd_failover_harmless (env : Cluster.Env) (c : Cluster) (opt : Option Bytes) :
    Harmless c (c.cmd_failover env opt) := by
  unfold Cluster.cmd_failover
  repeat' split
  all_goals simp

theorem cmd_count_failure_reports_harmless (env : Cluster.Env) (c : Cluster) (id : Bytes) :
    Harmless c (c.cmd_count_failure_reports env id) := by
  unfold Cluster.cmd_count_failure_reports
  split
  · exact harmless_same c _
  · exact harmless_integer c _ _

theorem cmd_set_config_epoch_harmless (c : Cluster) (arg : Bytes) :
    Harmless c (c.cmd_set_config_epoch arg) := by
  unfold Cluster.cmd_set_config_epoch
  repeat' split
  all_goals exact harmless_same c _

/-- A file that could not be written has not touched the store. -/
theorem cmd_saveconfig_harmless (env : Cluster.Env) (c : Cluster) (error : Bytes) :
    Harmless c (c.cmd_saveconfig env error) := by
  have hstore : (c.save_config env).2.store = c.store := by
    unfold Cluster.save_config
    split <;> rfl
  intro msg _
  unfold Cluster.cmd_saveconfig
  dsimp only
  split <;> exact hstore

theorem run_subcommand_harmless (env : Cluster.Env) (c : Cluster) (argv : Args) (error raw : Bytes)
    (sub : Cluster.Subcommand) (args : List Bytes) :
    Harmless c (c.run_subcommand env argv error raw sub args) := by
  unfold Cluster.run_subcommand
  split
  case h_2 =>
    unfold Cluster.cmd_countkeysinslot
    split <;> exact harmless_same c _
  case h_3 => exact cmd_addslots_harmless c _ _ _
  case h_4 =>
    split
    · exact harmless_same c _
    · exact cmd_addslots_harmless c _ _ _
  case h_5 => exact cmd_setslot_harmless c _
  case h_6 | h_7 => exact cmd_meet_harmless env c _ _ _
  case h_8 => exact cmd_replicate_harmless c _
  case h_9 => exact cmd_forget_harmless env c _
  case h_10 | h_11 => exact cmd_failover_harmless env c _
  case h_12 => exact cmd_count_failure_reports_harmless env c _
  case h_13 => exact cmd_set_config_epoch_harmless c _
  case h_14 =>
    intro msg h
    simp [Cluster.cmd_bumpepoch] at h
  case h_15 => exact cmd_saveconfig_harmless env c error
  all_goals exact harmless_same c _

theorem command_harmless (env : Cluster.Env) (c : Cluster) (argv : Args) (error : Bytes) :
    Harmless c (Cluster.command env c argv error) := by
  unfold Cluster.command
  dsimp only
  split
  · exact harmless_same c _
  · exact run_subcommand_harmless env c _ _ _ _ _

/-! ## The headline -/

/-- **An error reply changes nothing.** For any command but MIGRATE on any store: if the reply
is an error, there are keys, each gone because it was due or because memory was over its
limit, such that every other key has the value and the deadline it had and the propagator was
given one `DEL` for each of them and nothing else. The CLUSTER subcommands, which `dispatch`
passes on to the cluster, fail without touching the store. -/
theorem error_reply_changes_nothing (argv : Args) (hm : to_upper (argv.headD []) ≠ lit "MIGRATE") :
    (∀ (env : Env) (s : Store) (msg : Bytes), (dispatch env argv s).1 = .error msg →
      ∃ ks : List Key, ks.Nodup
        ∧ (∀ k ∈ ks, Lapsed s (dispatch env argv s).2 k ∨ Evicted s k)
        ∧ (∀ k, (dispatch env argv s).2.view k = if k ∈ ks then none else s.view k)
        ∧ (dispatch env argv s).2.journal = s.journal ++ s.heard (delLog ks))
    ∧ ∀ (env : Cluster.Env) (c : Cluster) (error msg : Bytes),
        (Cluster.command env c argv error).1 = .error msg →
          (Cluster.command env c argv error).2.store = c.store := by
  constructor
  · intro env s msg h
    obtain ⟨ks, hks⟩ := dispatch_error_sheds hm h
    obtain ⟨n, hb⟩ := hks.becomes
    refine ⟨ks, hks.nodup, hks.cause, ?_, hb.journal⟩
    intro k
    rw [hb.view, purge]
  · intro env c error msg h
    exact command_harmless env c argv error msg h

/-- INCR of a text. -/
theorem error_reply_incr :
    let s := Store.set { clock := fun n => n } (lit "k") (lit "x") false
    (dispatch {} [lit "INCR", lit "k"] s).1 = .error kErrNotInteger
      ∧ ∃ ks : List Key, ks.Nodup
        ∧ (∀ k ∈ ks, Lapsed s (dispatch {} [lit "INCR", lit "k"] s).2 k ∨ Evicted s k)
        ∧ (∀ k, (dispatch {} [lit "INCR", lit "k"] s).2.view k = if k ∈ ks then none else s.view k)
        ∧ (dispatch {} [lit "INCR", lit "k"] s).2.journal = s.journal ++ s.heard (delLog ks) := by
  intro s
  have h : (dispatch {} [lit "INCR", lit "k"] s).1 = .error kErrNotInteger := by decide +kernel
  exact ⟨h, (error_reply_changes_nothing _ (by decide +kernel)).1 {} s _ h⟩

end EpochKV.Refusal

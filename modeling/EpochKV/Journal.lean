/-
What a master writes to its log, and what the log says.

A master changes its data in two ways: it drops keys on its own (expiry, eviction,
a lost slot), each reported as `DEL`, and it runs commands. The handlers do not log
what the client sent but a command that reproduces the effect: `SET` with an
absolute deadline or `KEEPTTL`, `PEXPIREAT`, `DEL`, `PERSIST`. `Means` says which
writes (`Keyspace.Write`) such a command stands for.

The result of this file is `dispatch_writes`: on a master, every command first drops
some keys and then makes at most one kind of change, and the log says exactly that.
What the change depends on is recorded with it: which clock reading a deadline was
computed from and checked against, and, for a write that uses the deadline the key
already has, that this deadline was not passed when the command began. Everything
that reads the log later (`Replay`, `Replica`) starts from here and never opens a
handler again.
-/
import EpochKV.Commands

set_option autoImplicit false

namespace EpochKV.Journal

open Text Keyspace Commands Store

/-- A write to one key, with the time the master checked its deadline at. -/
abbrev Op := Timed Key Bytes Int

/-! ## The meaning of a log -/

/-- The writes a logged command stands for. -/
inductive Means : Args → List (Key × Write Bytes Int) → Prop
  | set (k : Key) (v : Bytes) : Means [lit "SET", k, v] [(k, .put v)]
  | setAt (k : Key) (v : Bytes) (d : Int) (hpos : 0 < d) (hfit : Fits d) :
    Means [lit "SET", k, v, lit "PXAT", to_string d] [(k, .putAt v d)]
  | setKeep (k : Key) (v : Bytes) : Means [lit "SET", k, v, lit "KEEPTTL"] [(k, .keep v)]
  | expire (k : Key) (d : Int) (hfit : Fits d) :
    Means [lit "PEXPIREAT", k, to_string d] [(k, .expireAt d)]
  /-- DEL is logged as the client spelled it. -/
  | del (name : Bytes) (ks : List Key) (hname : to_upper name = lit "DEL") (hne : ks ≠ []) :
    Means (name :: ks) (ks.map fun k => (k, .del))
  | persist (name : Bytes) (k : Key) (hname : to_upper name = lit "PERSIST") :
    Means [name, k] [(k, .persist)]

/-- A log stands for a list of writes, command by command. -/
inductive Stands : List Args → List Op → Prop
  | nil : Stands [] []
  | cons {argv : Args} {log : List Args} (ops : List Op) {ops' : List Op}
      (h : Means argv (ops.map fun e => (e.key, e.write))) (h' : Stands log ops') :
    Stands (argv :: log) (ops ++ ops')

variable {log : List Args} {m : Space Key Bytes Int} {s₁ s₀ : Store} {unit_ms d ttl : Int}
  {relative absttl : Bool} {keys : List Key} {upper : Bytes}

theorem Stands.append {log' : List Args} {ops ops' : List Op} (h : Stands log ops)
    (h' : Stands log' ops') : Stands (log ++ log') (ops ++ ops') := by
  induction h with
  | nil => exact h'
  | cons ops hm _ ih =>
    rw [List.append_assoc]
    exact Stands.cons ops hm ih

variable {argv : Args} {s s' : Store} {n b a : Nat} {key : Key} {name : Bytes} {env : Env}
  {spec : CommandSpec}

theorem stands_one {e : Op} (h : Means argv [(e.key, e.write)]) : Stands [argv] [e] :=
  Stands.cons [e] h Stands.nil

/-- The deletions of the keys `ks`. -/
def delOps (ks : List Key) : List Op := ks.map fun k => ⟨0, k, .del⟩

theorem stands_delLog (ks : List Key) : Stands (delLog ks) (delOps ks) := by
  induction ks with
  | nil => exact Stands.nil
  | cons k ks ih =>
    exact Stands.cons [⟨0, k, .del⟩] (Means.del (lit "DEL") [k] (by decide) (by simp)) ih

theorem runOwner_delOps (ks : List Key) (m : Space Key Bytes Int) :
    runOwner (delOps ks) m = purge ks m := by
  induction ks generalizing m with
  | nil => exact (purge_nil m).symm
  | cons k ks ih =>
    rw [purge_cons, ← ih]
    rfl

/-! ## What a command asks for

These read the argument vector only, and for a relative time the reading it is
relative to. -/

def handler_of (argv : Args) : Option Handler :=
  match argv with
  | [] => none
  | name :: _ => (find_command (to_upper name)).map CommandSpec.handler

def key_of (argv : Args) : Key := argv.getD 1 []

/-- The command stores a value under the deadline the key has, or removes that
deadline. -/
def keeps_ttl (argv : Args) : Bool :=
  match handler_of argv with
  | some .incr | some .decr | some .incrby | some .decrby | some .persist => true
  | some .set => (argv.drop 3).any fun a => to_upper a = lit "KEEPTTL"
  | _ => false

/-- The command gives an existing key another deadline. -/
def moves_ttl (argv : Args) : Bool :=
  match handler_of argv with
  | some .expire | some .pexpire | some .expireat | some .pexpireat => true
  | _ => false

def expire_when (argv : Args) (unit_ms : Int) (relative : Bool) (now : Int) : Option Int :=
  (parse_int64 (argv.getD 2 [])).bind fun amount =>
    deadline_from (if relative then now else 0) amount unit_ms

def set_when (opts : List Bytes) (r : Nat) : Option Int :=
  match (set_options opts {} { clock := fun _ => r }).1 with
  | .ok o => o.expire_at
  | .error _ => none

def restore_when (argv : Args) (now : Int) : Option Int :=
  match restore_options (argv.drop 4) (false, false), parse_int64 (argv.getD 2 []) with
  | some o, some ttl => restore_deadline now ttl o.2
  | _, _ => none

/-- The deadline the command brings if the clock reads `r`. -/
def brings (argv : Args) (r : Nat) : Option Int :=
  match handler_of argv with
  | some .set => set_when (argv.drop 3) r
  | some .expire => expire_when argv 1000 true r
  | some .pexpire => expire_when argv 1 true r
  | some .expireat => expire_when argv 1000 false r
  | some .pexpireat => expire_when argv 1 false r
  | some .restore => restore_when argv r
  | _ => none

/-! ## What a command did -/

/-- A store that expires keys itself and reports what it does, under a clock that
does not go back. -/
structure Master (s : Store) : Prop where
  active : s.passive_expiry = false
  reporting : s.loading = false
  mono : Monotone s.clock

section

variable (hs : Master s)
include hs

theorem Master.step (h : Becomes s s' m n log) : Master s' where
  active := h.passive_expiry.trans hs.active
  reporting := h.loading.trans hs.reporting
  mono := by rw [h.clock]; exact hs.mono

theorem Master.heard (log : List Args) : s.heard log = log := by
  simp [Store.heard, hs.reporting]

theorem Master.drops (h : Drops s s' n) : Master s' := by
  obtain ⟨_, h⟩ := h
  exact hs.step h

/-- The clock of a master does not go back. -/
theorem Master.now_le (h : Becomes s s' m n log) : s.now ≤ s'.now := by
  rw [h.now, Store.now]
  exact_mod_cast hs.mono (Nat.le_add_right s.reads n)

/-- `argv` took `s` to `s'`: the keys `ks` were dropped, then `main` ran; the log got
a `DEL` for each dropped key and then `log`; the clock was read `n` times. -/
structure Wrote (argv : Args) (b : Nat) (s s' : Store) (ks : List Key) (main : List Op)
    (log : List Args) (n : Nat) : Prop where
  becomes : Becomes s s' (runOwner main (purge ks s.view)) n (delLog ks ++ log)
  stands : Stands log main
  /-- A deadline was computed from one reading and checked against that or a later
  one, both among the first `b`. Only a SET goes on if it is over at the first. -/
  times : ∀ e ∈ main, ∀ d, e.write.deadline = some d →
    ∃ i j, s.reads ≤ i ∧ i ≤ j ∧ j < s.reads + n ∧ j < s.reads + b ∧
      brings argv (s.clock i) = some d ∧ (handler_of argv = some .set ∨ s.clock i < d) ∧
      e.time = s.clock j
  /-- A write that uses the key's old deadline is the only one, and met that deadline
  before it was passed. -/
  ttl : ∀ e ∈ main, e.write.usesTtl = true → main = [e] ∧ e.key = key_of argv ∧
    (∀ v d, purge ks s.view e.key = some (v, some d) → s.now < d) ∧
    (keeps_ttl argv = true ∧ (∀ d, e.write ≠ .expireAt d) ∨
      moves_ttl argv = true ∧ ∃ d, e.write = .expireAt d ∧ s.now < d)

def Writes (argv : Args) (b : Nat) (s s' : Store) : Prop :=
  ∃ ks main log n, Wrote argv b s s' ks main log n

/-- The command changed nothing itself. -/
theorem writes_of_drops (h : Drops s s' n) : Writes argv b s s' := by
  obtain ⟨ks, h⟩ := h
  rw [hs.heard] at h
  refine ⟨ks, [], [], n, ?_, Stands.nil, by simp, by simp⟩
  rw [List.append_nil]
  exact h

/-- Keys dropped before the command ran belong to what it dropped. -/
theorem Writes.after (hd : Drops s s₁ n) (hn : n ≤ a) (h : Writes argv b s₁ s') :
    Writes argv (a + b) s s' := by
  obtain ⟨ks₀, h₀⟩ := hd
  obtain ⟨ks, main, log, n', h⟩ := h
  rw [hs.heard] at h₀
  have hview : purge ks s₁.view = purge (ks₀ ++ ks) s.view := by rw [h₀.view, purge_append]
  have hnow := hs.now_le h₀
  refine ⟨ks₀ ++ ks, main, log, n + n', ?_, h.stands, ?_, ?_⟩
  · have h₁ := h₀.trans h.becomes
    rwa [hview, ← List.append_assoc, ← delLog_append] at h₁
  · intro e he d hdl
    obtain ⟨i, j, hi, hij, hjn, hjb, hbr, hgo, ht⟩ := h.times e he d hdl
    rw [h₀.reads] at hi hjn hjb
    rw [h₀.clock] at hbr hgo ht
    exact ⟨i, j, by omega, hij, by omega, by omega, hbr, hgo, ht⟩
  · intro e he hu
    obtain ⟨hone, hkey, hlive, huse⟩ := h.ttl e he hu
    rw [hview] at hlive
    refine ⟨hone, hkey, fun v d hv => lt_of_le_of_lt hnow (hlive v d hv), ?_⟩
    rcases huse with hk | ⟨hmv, d, hw, hd⟩
    · exact Or.inl hk
    · exact Or.inr ⟨hmv, d, hw, lt_of_le_of_lt hnow hd⟩

/-- Keys dropped first, then one write, logged by one command. -/
theorem writes_one (hd : Drops s s₁ a) (e : Op) (logged : Args)
    (h : Becomes s₁ s' (Function.update s₁.view e.key (e.write.owner e.time (s₁.view e.key))) n
      [logged]) (hm : Means logged [(e.key, e.write)])
    (ht : ∀ d, e.write.deadline = some d → ∃ i j, s.reads ≤ i ∧ i ≤ j ∧ j < s.reads + (a + n) ∧
      j < s.reads + b ∧ brings argv (s.clock i) = some d ∧
      (handler_of argv = some .set ∨ s.clock i < d) ∧ e.time = s.clock j)
    (hu : e.write.usesTtl = true → e.key = key_of argv ∧
      (∀ v d, s₁.view e.key = some (v, some d) → s.now < d) ∧
      (keeps_ttl argv = true ∧ (∀ d, e.write ≠ .expireAt d) ∨
        moves_ttl argv = true ∧ ∃ d, e.write = .expireAt d ∧ s.now < d)) : Writes argv b s s' := by
  obtain ⟨ks, h₀⟩ := hd
  rw [hs.heard] at h₀
  refine ⟨ks, [e], [logged], a + n, ?_, stands_one hm, ?_, ?_⟩
  · have h₁ := h₀.trans h
    rwa [h₀.view] at h₁
  · intro e' he'
    rw [List.mem_singleton.mp he']
    exact ht
  · intro e' he' hu'
    rw [List.mem_singleton.mp he'] at hu' ⊢
    rw [← h₀.view]
    exact ⟨rfl, hu hu'⟩

end

/-! ## The options of SET -/

theorem set_deadline_spec (s : Store) (amount unit_ms : Int) (relative : Bool) :
    ∃ n ≤ 1, Becomes s (set_deadline s amount unit_ms relative).2 s.view n [] := by
  unfold set_deadline
  split
  · split
    · exact ⟨1, le_rfl, (now_ms_spec s).2⟩
    · exact ⟨0, by omega, Becomes.refl s⟩
  · exact ⟨0, by omega, Becomes.refl s⟩

theorem set_deadline_reading {r : Store} (h : s.now = r.now) (amount unit_ms : Int)
    (relative : Bool) :
    (set_deadline s amount unit_ms relative).1 = (set_deadline r amount unit_ms relative).1 := by
  simp only [set_deadline, now_ms, h]
  split
  · split <;> rfl
  · rfl

/-- A deadline a SET accepts is positive: amounts are, and so is the clock. -/
theorem set_deadline_pos {amount : Int} (hu : 0 < unit_ms)
    (h : (set_deadline s amount unit_ms relative).1 = some d) : 0 < d ∧ Fits d := by
  unfold set_deadline at h
  split at h
  case isTrue hpos =>
    have hmul : 0 < amount * unit_ms := Int.mul_pos hpos hu
    split at h
    · obtain ⟨hd, hf⟩ := deadline_from_eq h
      have hnow : 0 ≤ s.now_ms.1 := Int.natCast_nonneg _
      exact ⟨by omega, hf⟩
    · obtain ⟨hd, hf⟩ := deadline_from_eq h
      exact ⟨by omega, hf⟩
  case isFalse => simp at h

/-- The option loop only reads the clock, and that once. -/
theorem set_options_spec (opts : List Bytes) (o : SetOptions) (s : Store) :
    ∃ n ≤ 1, (o.expire_at ≠ none → n = 0) ∧ Becomes s (set_options opts o s).2 s.view n [] := by
  fun_induction set_options opts o s
  case case2 ih | case3 ih | case4 ih => exact ih
  case case7 s _ _ _ _ ho _ _ _ _ _ _ _ _ =>
    obtain ⟨n, hn, h⟩ := set_deadline_spec s _ _ _
    exact ⟨n, hn, fun he => absurd ho.2.2 he, h⟩
  case case8 s _ _ _ _ ho _ _ amount _ relative unit_ms _ _ _ ih =>
    obtain ⟨n, hn, h⟩ := set_deadline_spec s amount unit_ms relative
    obtain ⟨n', -, hn', h'⟩ := ih
    -- the deadline is set now, so the rest of the loop does not read again
    rw [hn' (by simp), h.view] at h'
    exact ⟨n, hn, fun he => absurd ho.2.2 he, h.quiet h'⟩
  all_goals exact ⟨0, by omega, fun _ => rfl, Becomes.refl _⟩

/-- What the options of an accepted SET amount to. -/
theorem set_options_ok {opts : List Bytes} {o o' : SetOptions}
    (h : (set_options opts o s).1 = .ok o') :
    (o'.keep_ttl = true → o.keep_ttl = true ∨ (opts.any fun a => to_upper a = lit "KEEPTTL") = true) ∧
    (∀ d, o'.expire_at = some d → o.expire_at = some d ∨ 0 < d ∧ Fits d) ∧
    ((o.keep_ttl = true → o.expire_at = none) → o'.keep_ttl = true → o'.expire_at = none) := by
  fun_induction set_options opts o s
  case case1 =>
    obtain rfl : _ = o' := by simpa using h
    exact ⟨Or.inl, fun d hd => Or.inl hd, fun hk => hk⟩
  case case2 hnx ih =>
    obtain ⟨h1, h2, h3⟩ := ih h
    exact ⟨fun hk => (h1 hk).imp_right (by simp_all), h2, h3⟩
  case case3 hxx ih =>
    obtain ⟨h1, h2, h3⟩ := ih h
    exact ⟨fun hk => (h1 hk).imp_right (by simp_all), h2, h3⟩
  -- KEEPTTL
  case case4 hkeep ih =>
    obtain ⟨h1, h2, h3⟩ := ih h
    refine ⟨fun _ => Or.inr ?_, h2, fun _ => h3 fun _ => hkeep.2⟩
    rw [List.any_cons, decide_eq_true hkeep.1, Bool.true_or]
  -- a deadline, which excludes KEEPTTL before it
  case case8 opt _ _ _ ho _ _ _ _ _ unit_ms _ d hd ih =>
    obtain ⟨h1, h2, h3⟩ := ih h
    have hu : 0 < unit_ms := by
      show 0 < if opt = lit "EX" ∨ opt = lit "EXAT" then (1000 : Int) else 1
      split <;> norm_num
    refine ⟨fun hk => (h1 hk).imp_right (by simp_all), ?_, ?_⟩
    · intro d' hd'
      rcases h2 d' hd' with he | hpos
      · obtain rfl : d = d' := by simpa using he
        exact Or.inr (set_deadline_pos hu hd)
      · exact Or.inr hpos
    · intro _
      exact h3 fun hk => absurd hk (by simp [ho.2.1])
  all_goals simp at h

/-- The options depend on the clock through its next reading only. -/
theorem set_options_reading (opts : List Bytes) (o : SetOptions) (s r : Store)
    (hnow : o.expire_at = none → s.now = r.now) :
    (set_options opts o s).1 = (set_options opts o r).1 := by
  fun_induction set_options opts o s generalizing r
  case case1 => rfl
  case case2 h1 ih =>
    conv_rhs => rw [set_options.eq_def]
    dsimp only
    rw [if_pos h1]
    exact ih r hnow
  case case3 h1 h2 ih =>
    conv_rhs => rw [set_options.eq_def]
    dsimp only
    rw [if_neg h1, if_pos h2]
    exact ih r hnow
  case case4 h1 h2 h3 ih =>
    conv_rhs => rw [set_options.eq_def]
    dsimp only
    rw [if_neg h1, if_neg h2, if_pos h3]
    exact ih r hnow
  case case5 h1 h2 h3 h4 => rw [set_options, if_neg h1, if_neg h2, if_neg h3, if_pos h4]
  case case6 h1 h2 h3 h4 _ _ hp =>
    rw [set_options, if_neg h1, if_neg h2, if_neg h3, if_pos h4]
    simp only [hp]
  case case7 h1 h2 h3 h4 _ _ amount hp relative unit_ms _ hr =>
    have hd := (set_deadline_reading (hnow h4.2.2) amount unit_ms relative).symm.trans hr
    rw [set_options, if_neg h1, if_neg h2, if_neg h3, if_pos h4]
    simp only [hp]
    rw [hd]
  case case8 h1 h2 h3 h4 _ _ amount hp relative unit_ms _ _ hr ih =>
    have hd := (set_deadline_reading (hnow h4.2.2) amount unit_ms relative).symm.trans hr
    rw [set_options, if_neg h1, if_neg h2, if_neg h3, if_pos h4]
    simp only [hp]
    rw [hd]
    exact ih _ (by simp)
  case case9 h1 h2 h3 h4 =>
    conv_rhs => rw [set_options.eq_def]
    dsimp only
    rw [if_neg h1, if_neg h2, if_neg h3, if_neg h4]

/-! ## Before the handler -/

theorem lookup_drops (s : Store) (key : Key) (touch : Bool) :
    Drops s (s.lookup key touch).2 (s.asks key) :=
  drops_of_seen (lookup_spec s key touch).2

theorem exists_key_drops (s : Store) (key : Key) : Drops s (s.exists_key key).2 (s.asks key) :=
  drops_of_seen (exists_key_spec s key).2

theorem contains_drops (s : Store) (key : Key) : Drops s (s.contains key).2 (s.asks key) :=
  drops_of_seen (contains_spec s key).2

theorem pttl_drops (s : Store) (key : Key) : ∃ n, Drops s (s.pttl key).2 n := by
  obtain ⟨n, h⟩ := pttl_spec s key
  exact ⟨n, drops_of_seen h⟩

theorem count_missing_drops (keys : List Key) (s : Store) :
    ∃ n ≤ keys.length, Drops s (count_missing keys s).2 n := by
  induction keys generalizing s with
  | nil => exact ⟨0, le_rfl, Drops.refl s⟩
  | cons key keys ih =>
    obtain ⟨n, hn, h⟩ := ih (s.contains key).2
    have ha := asks_le s key
    refine ⟨s.asks key + n, ?_, (contains_drops s key).trans h⟩
    rw [List.length_cons]
    omega

theorem route_drops (v : RouteView) (keys : List Key) (write asking readonly : Bool) (s : Store) :
    ∃ n ≤ keys.length, Drops s (route v keys write asking readonly s).2 n := by
  have stay : ∃ n ≤ keys.length, Drops s s n := ⟨0, Nat.zero_le _, Drops.refl s⟩
  unfold route
  split
  · exact stay
  · dsimp only
    split
    · exact stay
    · split
      · exact stay
      · split
        · exact stay
        · repeat' split
          all_goals first | exact stay | exact count_missing_drops _ s

theorem command_keys_length (spec : CommandSpec) (argv : Args) :
    (command_keys spec argv).length ≤ argv.length := by
  unfold command_keys
  split
  · exact Nat.zero_le _
  · rw [List.length_map]
    exact (List.length_filter_le _ _).trans (by rw [List.length_zipIdx])

theorem redirect_drops (env : Env) (spec : CommandSpec) (argv : Args) (s : Store) :
    ∃ n ≤ argv.length, Drops s (redirect env spec argv s).2 n := by
  have stay : ∃ n ≤ argv.length, Drops s s n := ⟨0, Nat.zero_le _, Drops.refl s⟩
  unfold redirect
  split
  case h_1 v c _ _ =>
    split
    · exact stay
    · obtain ⟨n, hn, h⟩ := route_drops v (command_keys spec argv) spec.write
        (c.asking || spec.asking) c.readonly s
      exact ⟨n, hn.trans (command_keys_length spec argv), h⟩
  case h_2 => exact stay

theorem refuse_drops (env : Env) (spec : CommandSpec) (s : Store) : Drops s (refuse env spec s).2 0 := by
  unfold refuse
  split
  · exact Drops.refl s
  · split
    · exact Drops.refl s
    · split
      · exact evict_if_needed_drops s
      · exact Drops.refl s

/-! ## SET, RESTORE and the INCR family -/

section

variable (hs : Master s)
include hs

/-- Seen from the state its lookup left, a set is one change. -/
theorem set_after_lookup (key : Key) (value : Bytes) (keep_ttl : Bool) :
    Becomes (s.lookup key true).2 (s.set key value keep_ttl)
      (Function.update (s.lookup key true).2.view key
        (some (value, if keep_ttl then ((s.lookup key true).2.view key).bind Prod.snd else none)))
      0 [] := by
  have h₁ := (lookup_spec s key true).2
  have h₂ := set_spec s key value keep_ttl
  rw [h₁.view, seen_self, hs.active, update_seen]
  exact h₁.rebase h₂

/-- A deadline that is still there after a lookup is not passed. -/
theorem lt_of_deadline_after_lookup {v : Bytes}
    (h : (s.lookup key true).2.view key = some (v, some d)) : s.now < d := by
  rw [(lookup_spec s key true).2.view, seen_self, hs.active] at h
  have hv := eq_of_live_eq_some h
  rw [hv, if_neg (by simp), live_some_some] at h
  split at h
  · simp at h
  · omega

/-- **A value stored with what SET can ask for**: `set`, `set_expire` and the log. -/
theorem store_writes (hd : Drops s s₀ a) (key : Key) (value : Bytes)
    (o : SetOptions) (hko : o.keep_ttl = true → o.expire_at = none)
    (hat : ∀ d, o.expire_at = some d → 0 < d ∧ Fits d ∧
      ∃ i, s.reads ≤ i ∧ i ≤ s.reads + a ∧ brings argv (s.clock i) = some d ∧
        (handler_of argv = some .set ∨ s.clock i < d))
    (hk : o.keep_ttl = true → key = key_of argv ∧ keeps_ttl argv = true) (hb : a + 2 ≤ b) :
    Writes argv b s ((set_expire_opt (s₀.set key value o.keep_ttl) key o.expire_at).propagate
      (set_logged key value o)) := by
  have hs₀ := hs.drops hd
  have hlook := lookup_drops s₀ key true
  have hs₁ := hs₀.drops hlook
  have hset := set_after_lookup hs₀ key value o.keep_ttl
  have hprop : ∀ (s₂ : Store) (m : Space Key Bytes Int) (n : Nat),
      Becomes (s₀.lookup key true).2 s₂ m n [] →
      Becomes (s₀.lookup key true).2 (s₂.propagate (set_logged key value o)) m n
        [set_logged key value o] := by
    intro s₂ m n h
    have h' := h.propagate (set_logged key value o)
    rwa [hs₁.heard] at h'
  cases hx : o.expire_at with
  | none =>
    cases hkeep : o.keep_ttl with
    | false =>
      rw [hkeep] at hset
      refine writes_one hs (hd.trans hlook) ⟨0, key, .put value⟩ _ (hprop _ _ _ hset) ?_
        (by simp [Write.deadline]) (by simp [Write.usesTtl])
      simp only [set_logged, hx, hkeep]
      exact Means.set key value
    | true =>
      rw [hkeep] at hset
      refine writes_one hs (hd.trans hlook) ⟨0, key, .keep value⟩ _ (hprop _ _ _ hset) ?_
        (by simp [Write.deadline]) ?_
      · simp only [set_logged, hx, hkeep]
        exact Means.setKeep key value
      · intro _
        obtain ⟨hkey, hkt⟩ := hk hkeep
        obtain ⟨_, hd₀⟩ := hd
        exact ⟨hkey, fun v d hv => lt_of_le_of_lt (hs.now_le hd₀)
          (lt_of_deadline_after_lookup hs₀ hv), Or.inl ⟨hkt, by simp⟩⟩
  | some d =>
    -- KEEPTTL and a deadline exclude each other
    have hkeep : o.keep_ttl = false := by
      by_contra hne
      rw [hko (by simpa using hne)] at hx
      simp at hx
    obtain ⟨hpos, hfit, i, hi, hia, hbr, hgo⟩ := hat d hx
    rw [hkeep] at hset
    simp only [Bool.false_eq_true, if_false] at hset
    have hboth := hset.set_expire d
    rw [hs₁.active, if_neg (by simp)] at hboth
    obtain ⟨_, hd₀⟩ := hd
    obtain ⟨_, hl₀⟩ := hlook
    have hreads : (s₀.lookup key true).2.reads = s.reads + (a + s₀.asks key) := by
      rw [hl₀.reads, hd₀.reads]
      omega
    have hclock : (s₀.lookup key true).2.clock = s.clock := hl₀.clock.trans hd₀.clock
    have hask := asks_le s₀ key
    -- `set_expire` compares the deadline with a reading of its own
    refine writes_one hs (Drops.trans ⟨_, hd₀⟩ ⟨_, hl₀⟩)
      ⟨s.clock (s.reads + (a + s₀.asks key)), key, .putAt value d⟩ (set_logged key value o) (n := 1)
      ?_ ?_ ?_
      (by simp [Write.usesTtl])
    · have h' := hprop _ _ _ hboth
      rw [hclock, hreads] at h'
      rw [hkeep]
      exact h'
    · simp only [set_logged, hx]
      exact Means.setAt key value d hpos hfit
    · intro d' hd'
      obtain rfl : d = d' := by simpa [Write.deadline] using hd'
      exact ⟨i, s.reads + (a + s₀.asks key), hi, by omega, by omega, by omega, hbr, hgo, rfl⟩

/-! ## Deletions -/

/-- The key, if a lookup would drop it. -/
def dueKeys (s : Store) (key : Key) : List Key :=
  if (s.view key).isSome ∧ live s.now (s.view key) = none then [key] else []

theorem expiryLog_eq (key : Key) : s.expiryLog key = delLog (dueKeys s key) := by
  unfold expiryLog dueKeys
  simp only [hs.active, true_and, hs.heard]
  split <;> rfl

omit hs in
/-- What is not there, or is dropped as due, needs no command to delete it. -/
theorem update_none_of_dead (h : live s.now (s.view key) = none) :
    Function.update s.view key none = purge (dueKeys s key) s.view := by
  unfold dueKeys
  cases hv : s.view key with
  | none => rw [if_neg (by simp), purge_nil, ← hv, Function.update_eq_self]
  | some e => rw [if_pos ⟨rfl, by rw [← hv]; exact h⟩, purge_cons, purge_nil]

/-- DEL of one key: logged if the key was there. -/
theorem del_one_writes (hd : Drops s s₀ a) (key : Key) :
    Writes argv b s (if (s₀.del key).1 = true then (s₀.del key).2.propagate [lit "DEL", key]
      else (s₀.del key).2) := by
  have hs₀ := hs.drops hd
  obtain ⟨h1, h2⟩ := del_spec s₀ key
  split
  case isTrue hlive =>
    rw [h1] at hlive
    obtain ⟨e, he⟩ := Option.isSome_iff_exists.mp hlive
    rw [expiryLog_of_live (he.trans (eq_of_live_eq_some he).symm)] at h2
    have h3 := h2.propagate [lit "DEL", key]
    rw [hs₀.heard] at h3
    exact writes_one hs hd ⟨0, key, .del⟩ _ h3 (Means.del _ [key] (by decide) (by simp))
      (by simp [Write.deadline]) (by simp [Write.usesTtl])
  case isFalse hdead =>
    rw [h1, Bool.not_eq_true, Option.isSome_eq_false_iff, Option.isNone_iff_eq_none] at hdead
    rw [update_none_of_dead hdead, expiryLog_eq hs₀, ← hs₀.heard (delLog _)] at h2
    exact writes_of_drops hs (hd.trans ⟨_, h2⟩)

omit hs in
/-- DEL of several keys: some are dropped as due on the way, and if none was there
these are all that goes. -/
theorem del_keys_spec (keys : List Key) (hs : Master s) :
    ∃ ks n, ks ⊆ keys ∧ Becomes s (del_keys keys s).2 (purge keys s.view) n (delLog ks) ∧
      ((del_keys keys s).1 = 0 → purge keys s.view = purge ks s.view) := by
  induction keys generalizing s with
  | nil => exact ⟨[], 0, by simp, by simpa [del_keys, delLog] using Becomes.refl s, by simp⟩
  | cons key keys ih =>
    obtain ⟨h1, h2⟩ := del_spec s key
    rw [expiryLog_eq hs] at h2
    obtain ⟨ks, n, hsub, h3, h4⟩ := ih (hs.step h2)
    refine ⟨dueKeys s key ++ ks, s.asks key + n, ?_, ?_, ?_⟩
    · refine List.append_subset.mpr ⟨?_, fun x hx => List.mem_cons_of_mem _ (hsub hx)⟩
      unfold dueKeys
      split <;> simp
    · have h5 := h2.trans h3
      rw [h2.view, ← purge_cons, ← delLog_append] at h5
      exact h5
    · intro hzero
      simp only [del_keys] at hzero
      split at hzero
      · simp at hzero
      · rename_i hdead
        rw [h1, Bool.not_eq_true, Option.isSome_eq_false_iff, Option.isNone_iff_eq_none] at hdead
        have h6 := h4 hzero
        rw [h2.view, update_none_of_dead hdead] at h6
        rw [purge_cons, update_none_of_dead hdead, h6, purge_append]

omit hs in
/-- Some keys were dropped as due, then `keys` were deleted by one DEL. -/
theorem writes_dels {ks : List Key}
    (h : Becomes s s' (purge keys (purge ks s.view)) n (delLog ks ++ [name :: keys]))
    (hname : to_upper name = lit "DEL") (hne : keys ≠ []) : Writes argv b s s' := by
  rw [← runOwner_delOps] at h
  refine ⟨ks, delOps keys, [name :: keys], n, h, ?_, ?_, ?_⟩
  · have hm := Means.del name keys hname hne
    have hst := Stands.cons (delOps keys) (by rw [delOps, List.map_map]; exact hm) Stands.nil
    rwa [List.append_nil] at hst
  · intro e he d hd
    obtain ⟨k, -, rfl⟩ := List.mem_map.mp he
    simp [Write.deadline] at hd
  · intro e he hu
    obtain ⟨k, -, rfl⟩ := List.mem_map.mp he
    simp [Write.usesTtl] at hu

theorem cmd_del_writes (hargv : argv = name :: keys)
    (hname : to_upper name = lit "DEL") : Writes argv 4 s (cmd_del argv s).2 := by
  subst hargv
  obtain ⟨ks, n, hsub, h, hnone⟩ := del_keys_spec keys hs
  unfold cmd_del
  dsimp only [List.tail_cons]
  split
  case isTrue hpos =>
    have hne : keys ≠ [] := by
      rintro rfl
      simp [del_keys] at hpos
    have h' := h.propagate (name :: keys)
    rw [hs.heard] at h'
    have hpurge : purge keys s.view = purge keys (purge ks s.view) := by
      funext k
      by_cases hk : k ∈ keys
      · simp [purge, hk]
      · have hk' : k ∉ ks := fun hks => hk (hsub hks)
        simp [purge, hk, hk']
    rw [hpurge] at h'
    exact writes_dels h' hname hne
  case isFalse hzero =>
    rw [hnone (by omega), ← hs.heard (delLog ks)] at h
    exact writes_of_drops hs ⟨ks, h⟩

theorem cmd_set_writes (hlog : env.log_wanted = true)
    (hh : handler_of argv = some .set) : Writes argv 4 s (cmd_set env argv s).2 := by
  unfold cmd_set
  split
  case h_2 => exact writes_of_drops hs (Drops.refl s)
  case h_1 name key value opts =>
    obtain ⟨n₀, hn₀, -, h₀⟩ := set_options_spec opts {} s
    have hd₀ : Drops s (set_options opts {} s).2 n₀ := Drops.of_becomes h₀
    have hsame : (set_options opts {} s).1 = (set_options opts {} { clock := fun _ => s.clock s.reads }).1 :=
      set_options_reading opts {} s _ fun _ => rfl
    dsimp only
    cases hr : (set_options opts {} s).1 with
    | error e => exact writes_of_drops hs hd₀
    | ok o =>
      obtain ⟨hkeep, hat, hko⟩ := set_options_ok hr
      -- NX and XX ask for the key once more
      have hx : ∃ n₁ ≤ 1, Drops (set_options opts {} s).2
          (if (o.nx || o.xx) = true then (set_options opts {} s).2.exists_key key
            else (false, (set_options opts {} s).2)).2 n₁ := by
        split
        · exact ⟨_, asks_le _ _, exists_key_drops _ key⟩
        · exact ⟨0, Nat.zero_le _, Drops.refl _⟩
      obtain ⟨n₁, hn₁, hd₁⟩ := hx
      dsimp only
      generalize (if (o.nx || o.xx) = true then (set_options opts {} s).2.exists_key key
        else (false, (set_options opts {} s).2)) = x at hd₁ ⊢
      have hd := hd₀.trans hd₁
      split
      · exact writes_of_drops hs hd
      · simp only [propagate_built, hlog, if_true]
        refine store_writes hs hd key value o (hko (by simp)) ?_ ?_ (by omega)
        · intro d hd'
          have hbr : brings (name :: key :: value :: opts) (s.clock s.reads) = some d := by
            simp only [brings, hh, set_when, List.drop_succ_cons, List.drop_zero, ← hsame, hr, hd']
          rcases hat d hd' with habs | ⟨hpos, hfit⟩
          · simp at habs
          · exact ⟨hpos, hfit, s.reads, le_rfl, by omega, hbr, Or.inl hh⟩
        · intro hk
          refine ⟨rfl, ?_⟩
          rcases hkeep hk with habs | hany
          · simp at habs
          · simpa only [keeps_ttl, hh, List.drop_succ_cons, List.drop_zero] using hany

theorem incr_by_writes {delta : Int} (hlog : env.log_wanted = true)
    (hk : keeps_ttl argv = true) : Writes argv 4 s (incr_by env (key_of argv) delta s).2 := by
  have hd : Drops s (s.get (key_of argv)).2 (s.asks (key_of argv)) :=
    drops_of_seen (get_spec s _).2
  have ha := asks_le s (key_of argv)
  unfold incr_by
  dsimp only
  split
  · exact writes_of_drops hs hd
  · split
    · exact writes_of_drops hs hd
    · simp only [propagate_built, hlog, if_true]
      exact store_writes hs hd (key_of argv) _ { keep_ttl := true } (fun _ => rfl) (by simp)
        (fun _ => ⟨rfl, hk⟩) (by omega)

omit hs in
theorem restore_deadline_pos {now : Int} (hnow : 0 ≤ now) (hfit : Fits ttl)
    (h : restore_deadline now ttl absttl = some d) : 0 < d ∧ Fits d := by
  unfold restore_deadline at h
  split at h
  case isFalse => simp at h
  case isTrue hpos =>
    have hd := Option.some.inj h
    split at hd
    · exact ⟨by omega, hd ▸ hfit⟩
    · cases hf : deadline_from now ttl 1 with
      | none =>
        rw [hf, Option.getD_none] at hd
        rw [← hd]
        decide
      | some d' =>
        rw [hf, Option.getD_some] at hd
        obtain ⟨he, hfit'⟩ := deadline_from_eq hf
        exact ⟨by omega, hd ▸ hfit'⟩

theorem restore_into_writes {value : Bytes} (hlog : env.log_wanted = true)
    (hd : Drops s s₀ a) (ha : a ≤ 1) (hfit : Fits ttl)
    (hbr : ∀ r : Nat, brings argv r = restore_deadline r ttl absttl) :
    Writes argv 4 s (restore_into env key value ttl absttl s₀).2 := by
  have hd₁ := hd.trans (Drops.of_becomes (now_ms_spec s₀).2)
  have hs₁ := hs.drops hd₁
  unfold restore_into
  dsimp only
  split
  case isTrue =>
    exact del_one_writes hs hd₁ key
  case isFalse hdue =>
    simp only [propagate_built, hlog, if_true]
    refine store_writes hs hd₁ key value { expire_at := restore_deadline s₀.now_ms.1 ttl absttl }
      (by simp) ?_ (by simp) (by omega)
    intro d hd'
    obtain ⟨_, hd₀⟩ := hd
    have hnow : s₀.now_ms.1 = s.clock (s.reads + a) := hd₀.now
    obtain ⟨hpos, hf⟩ := restore_deadline_pos (Int.natCast_nonneg _) hfit hd'
    refine ⟨hpos, hf, s.reads + a, by omega, by omega, ?_, Or.inr ?_⟩
    · rw [hbr, ← hnow]
      exact hd'
    · rw [show restore_deadline s₀.now_ms.1 ttl absttl = some d from hd'] at hdue
      simp only [Option.any_some, decide_eq_true_eq, not_le] at hdue
      rw [← hnow]
      exact hdue

theorem cmd_restore_writes (hlog : env.log_wanted = true)
    (hh : handler_of argv = some .restore) : Writes argv 4 s (cmd_restore env argv s).2 := by
  have stay : Writes argv 4 s s := writes_of_drops hs (Drops.refl s)
  unfold cmd_restore
  split
  case h_2 => exact stay
  case h_1 name key ttl_text payload opts =>
    split
    case h_1 => exact stay
    case h_2 replace absttl hopts =>
      split
      case h_1 => exact stay
      case h_2 ttl httl =>
        obtain ⟨hparse, -⟩ := Option.filter_eq_some_iff.mp httl
        have hx : ∃ n ≤ 1, Drops s (if replace = true then (false, s) else s.exists_key key).2 n := by
          split
          · exact ⟨0, Nat.zero_le _, Drops.refl s⟩
          · exact ⟨_, asks_le s key, exists_key_drops s key⟩
        obtain ⟨n, hn, hd⟩ := hx
        dsimp only
        generalize (if replace = true then (false, s) else s.exists_key key) = x at hd ⊢
        split
        · exact writes_of_drops hs hd
        · split
          · exact writes_of_drops hs hd
          · refine restore_into_writes hs hlog hd hn (parse_int64_fits hparse) fun r => ?_
            simp only [brings, hh, restore_when, List.drop_succ_cons, List.drop_zero, hopts,
              List.getD_cons_succ, List.getD_cons_zero, hparse]

/-! ## The EXPIRE family and PERSIST -/

/-- Seen from the state its lookup left, a successful `set_expire` is one change. -/
theorem set_expire_after_lookup (when_ms : Int) {e : Bytes × Option Int}
    (hl : live s.now (s.view key) = some e) :
    (s.lookup key true).2.view key = some e ∧
      Becomes (s.lookup key true).2 (s.set_expire key when_ms).2
        (Function.update (s.lookup key true).2.view key
          (live (s.second key) (some (e.1, some when_ms)))) 1 [] := by
  have hv := eq_of_live_eq_some hl
  have hself := hl.trans hv.symm
  have hlook := (lookup_spec s key true).2
  rw [seen_of_live hself, expiryLog_of_live hself] at hlook
  have h := (set_expire_found s key when_ms hl).2
  rw [hs.active, if_neg (by simp)] at h
  rw [hlook.view]
  exact ⟨hv, hlook.rebase h⟩

theorem expire_generic_writes {name : String} (hlog : env.log_wanted = true)
    (hmove : moves_ttl argv = true)
    (hbr : ∀ r : Nat, brings argv r = expire_when argv unit_ms relative r) :
    Writes argv 4 s (expire_generic env argv unit_ms relative name s).2 := by
  have hd₀ : Drops s s.now_ms.2 1 := Drops.of_becomes (now_ms_spec s).2
  have hs₀ := hs.drops hd₀
  unfold expire_generic
  split
  case h_1 => exact writes_of_drops hs (Drops.refl s)
  case h_2 amount hamount =>
    dsimp only
    split
    case h_1 => exact writes_of_drops hs hd₀
    case h_2 when_ms hwhen =>
      have hbrings : brings argv (s.clock s.reads) = some when_ms := by
        rw [hbr, expire_when, hamount]
        exact hwhen
      set key := argv.getD 1 [] with hkey
      cases hl : live s.now_ms.2.now (s.now_ms.2.view key) with
      | none =>
        obtain ⟨h1, h2⟩ := set_expire_missing s.now_ms.2 key when_ms hl
        rw [h1, if_neg (by simp)]
        exact writes_of_drops hs (hd₀.trans (drops_of_seen h2))
      | some e =>
        have hdl := hd₀.trans (lookup_drops s.now_ms.2 key true)
        have hask := asks_le s.now_ms.2 key
        -- the reading `set_expire` compares the deadline with
        set j := s.reads + (1 + s.now_ms.2.asks key) with hj
        have hsecond : s.now_ms.2.second key = s.clock j := by
          show ((s.clock (s.reads + 1 + s.now_ms.2.asks key) : Nat) : Int) = _
          rw [hj, Nat.add_assoc]
        obtain ⟨hview, hmain⟩ := set_expire_after_lookup hs₀ when_ms hl
        rw [hsecond] at hmain
        rw [(set_expire_found s.now_ms.2 key when_ms hl).1, if_pos rfl]
        simp only [propagate_built, hlog, if_true]
        have hsaid : ∀ logged, Becomes (s.now_ms.2.lookup key true).2
            ((s.now_ms.2.set_expire key when_ms).2.propagate logged)
            (Function.update (s.now_ms.2.lookup key true).2.view key
              (live (s.clock j : Int) (some (e.1, some when_ms)))) 1 [logged] := by
          intro logged
          have h := hmain.propagate logged
          rwa [(hs.drops hdl).heard] at h
        by_cases hpast : when_ms ≤ s.now_ms.1
        · -- the deadline is passed at the first reading, so it is at the second
          have hle : when_ms ≤ s.clock j := by
            refine hpast.trans ?_
            show (s.clock s.reads : Int) ≤ s.clock j
            exact_mod_cast hs.mono (Nat.le_add_right s.reads _)
          have h := hsaid [lit "DEL", key]
          rw [live_some_some, if_pos hle] at h
          rw [if_pos hpast]
          exact writes_one hs hdl ⟨0, key, .del⟩ _ h (Means.del _ [key] (by decide) (by simp))
            (by simp [Write.deadline]) (by simp [Write.usesTtl])
        · rw [if_neg hpast]
          refine writes_one hs hdl ⟨s.clock j, key, .expireAt when_ms⟩ _ (n := 1) ?_
            (Means.expire key when_ms (deadline_from_eq hwhen).2) ?_ ?_
          · simp only [Write.owner, Write.deadline, Option.isSome_some, if_true, Write.run, hview,
              Option.map_some]
            exact hsaid _
          · intro d hd
            obtain rfl : when_ms = d := by simpa [Write.deadline] using hd
            exact ⟨s.reads, j, le_rfl, by omega, by omega, by omega, hbrings,
              Or.inr (not_le.mp hpast), rfl⟩
          · intro _
            refine ⟨rfl, ?_, Or.inr ⟨hmove, when_ms, rfl, not_le.mp hpast⟩⟩
            intro v d hvd
            exact lt_of_le_of_lt (hs.now_le (now_ms_spec s).2)
              (lt_of_deadline_after_lookup hs₀ hvd)

theorem cmd_persist_writes (hargv : argv = [name, key])
    (hname : to_upper name = lit "PERSIST") (hk : keeps_ttl argv = true) :
    Writes argv 4 s (cmd_persist argv s).2 := by
  have hkey : argv.getD 1 [] = key := by rw [hargv]; rfl
  obtain ⟨h1, h2⟩ := persist_spec s key
  unfold cmd_persist
  dsimp only
  rw [hkey, h1]
  cases hl : live s.now (s.view key) with
  | none =>
    rw [hl] at h2
    simp only [Option.bind_none, Option.isSome_none, Bool.false_eq_true, if_false]
    exact writes_of_drops hs (drops_of_seen (by simpa using h2))
  | some e =>
    have hv := eq_of_live_eq_some hl
    have hself := hl.trans hv.symm
    rw [hl, Option.isSome_some, if_pos rfl, expiryLog_of_live hself, hv] at h2
    cases hd : e.2 with
    | none =>
      have he : (e.1, (none : Option Int)) = e := by rw [← hd]
      rw [Option.map_some, he, ← hv, Function.update_eq_self] at h2
      simp only [Option.bind_some, hd, Option.isSome_none, Bool.false_eq_true, if_false]
      exact writes_of_drops hs (Drops.of_becomes h2)
    | some d =>
      have hlook := (lookup_spec s key true).2
      rw [seen_of_live hself, expiryLog_of_live hself] at hlook
      have hmain := hlook.rebase (k := 0) h2
      have hlog' := hmain.propagate argv
      rw [(hs.step hlook).heard, ← hlook.view, ← hv, ← hlook.view] at hlog'
      simp only [Option.bind_some, hd, Option.isSome_some, if_true]
      refine writes_one hs (lookup_drops s key true) ⟨0, key, .persist⟩ _ hlog' ?_
        (by simp [Write.deadline]) ?_
      · rw [hargv]
        exact Means.persist name key hname
      · intro _
        exact ⟨hkey.symm, fun v d hvd => lt_of_deadline_after_lookup hs hvd, Or.inl ⟨hk, by simp⟩⟩

/-! ## MIGRATE -/

omit hs in
theorem migrate_request_drops (replace : Bool) (keys : List Key) (s : Store) :
    ∃ n, Drops s (migrate_request replace keys s).2 n := by
  induction keys generalizing s with
  | nil => exact ⟨0, Drops.refl s⟩
  | cons key keys ih =>
    have hget : Drops s (s.get key).2 (s.asks key) := drops_of_seen (get_spec s key).2
    unfold migrate_request
    dsimp only
    split
    · obtain ⟨n, h⟩ := ih (s.get key).2
      exact ⟨_, hget.trans h⟩
    · obtain ⟨n, hp⟩ := pttl_drops (s.get key).2 key
      obtain ⟨n', h⟩ := ih ((s.get key).2.pttl key).2
      exact ⟨_, (hget.trans hp).trans h⟩

omit hs in
/-- The confirmed keys go: those that were there are returned, the others were dropped
as due. -/
theorem migrate_confirm_spec (copy : Bool) (replies : List (Bytes × Key)) (hs : Master s) :
    ∃ ks n, Becomes s (migrate_confirm copy replies s).2.2
      (purge (migrate_confirm copy replies s).2.1 (purge ks s.view)) n (delLog ks) := by
  induction replies generalizing s with
  | nil => exact ⟨[], 0, by simpa [migrate_confirm, delLog] using Becomes.refl s⟩
  | cons r replies ih =>
    obtain ⟨reply, key⟩ := r
    unfold migrate_confirm
    split
    · exact ih hs
    · split
      · exact ih hs
      · obtain ⟨h1, h2⟩ := del_spec s key
        rw [expiryLog_eq hs] at h2
        obtain ⟨ks, n, h3⟩ := ih (hs.step h2)
        have h4 := h2.trans h3
        rw [h2.view, ← delLog_append] at h4
        refine ⟨dueKeys s key ++ ks, s.asks key + n, ?_⟩
        have hdata : purge (if (s.del key).1 = true
              then key :: (migrate_confirm copy replies (s.del key).2).2.1
              else (migrate_confirm copy replies (s.del key).2).2.1)
            (purge (dueKeys s key ++ ks) s.view)
            = purge (migrate_confirm copy replies (s.del key).2).2.1
              (purge ks (Function.update s.view key none)) := by
          rw [h1]
          cases hl : live s.now (s.view key) with
          | none => simp [update_none_of_dead hl, purge_append]
          | some e =>
            have hnd : dueKeys s key = [] := by simp [dueKeys, hl]
            rw [Option.isSome_some, if_pos rfl, hnd, List.nil_append, purge_cons]
            congr 1
            funext k
            by_cases hk : k = key
            · subst hk
              simp [purge]
            · simp [purge, hk]
        rw [hdata]
        exact h4

theorem migrate_keys_writes {host : Bytes} {port timeout : Int} {o : MigrateOptions} :
    Writes argv 4 s (migrate_keys env host port timeout o keys s).2 := by
  obtain ⟨n, hreq⟩ := migrate_request_drops o.replace keys s
  have hs₁ := hs.drops hreq
  unfold migrate_keys
  dsimp only
  split
  case isTrue => exact writes_of_drops hs hreq
  case isFalse =>
    generalize env.exchange host port _ _ = x
    obtain ⟨ks, n', hconf⟩ := migrate_confirm_spec o.copy
      (x.1.zip ((migrate_request o.replace keys s).1.map Prod.fst)) hs₁
    generalize migrate_confirm o.copy _ _ = c at hconf ⊢
    obtain ⟨ks₀, hreq⟩ := hreq
    rw [hs.heard] at hreq
    have hall := hreq.trans hconf
    rw [hreq.view, ← purge_append ks₀ ks, ← delLog_append] at hall
    have hdone : Writes argv 4 s
        (if c.2.1 = [] then c.2.2 else c.2.2.propagate (lit "DEL" :: c.2.1)) := by
      split
      case isTrue hnil =>
        rw [hnil, purge_nil, ← hs.heard (delLog _)] at hall
        exact writes_of_drops hs ⟨_, hall⟩
      case isFalse hne =>
        have h := hall.propagate (lit "DEL" :: c.2.1)
        rw [hs.heard] at h
        exact writes_dels h rfl hne
    split
    · exact hdone
    · split <;> exact hdone

theorem cmd_migrate_writes : Writes argv 4 s (cmd_migrate env argv s).2 := by
  have stay : Writes argv 4 s s := writes_of_drops hs (Drops.refl s)
  unfold cmd_migrate
  split
  · split
    · split
      · exact stay
      · split
        · exact stay
        · exact migrate_keys_writes hs
    · exact stay
  · exact stay

end

/-! ## Dispatch -/

theorem count_existing_drops (keys : List Key) (s : Store) :
    ∃ n, Drops s (count_existing keys s).2 n := by
  induction keys generalizing s with
  | nil => exact ⟨0, Drops.refl s⟩
  | cons key keys ih =>
    obtain ⟨n, h⟩ := ih (s.exists_key key).2
    exact ⟨_, (exists_key_drops s key).trans h⟩

section

variable (h : find_command upper = some spec)
include h

/-- A name in the table, and what it is the name of. -/
theorem find_command_mem : ∃ name, (name, spec) ∈ table ∧ lit name = upper := by
  unfold find_command at h
  obtain ⟨⟨name, spec'⟩, hfind, rfl⟩ := Option.map_eq_some_iff.mp h
  exact ⟨name, List.mem_of_find?_eq_some hfind, by simpa using List.find?_some hfind⟩

theorem find_command_del (hh : spec.handler = .del) : upper = lit "DEL" := by
  obtain ⟨name, hmem, rfl⟩ := find_command_mem h
  have hall : ∀ e ∈ table, e.2.handler = .del → e.1 = "DEL" := by decide
  exact congrArg lit (hall _ hmem hh)

theorem find_command_persist (hh : spec.handler = .persist) :
    upper = lit "PERSIST" ∧ spec.arity = 2 := by
  obtain ⟨name, hmem, rfl⟩ := find_command_mem h
  have hall : ∀ e ∈ table, e.2.handler = .persist → e.1 = "PERSIST" ∧ e.2.arity = 2 := by decide
  exact ⟨congrArg lit (hall _ hmem hh).1, (hall _ hmem hh).2⟩

end

/-- **What a handler does on a master.** -/
theorem run_handler_writes {args : List Bytes} (hs : Master s) (hlog : env.log_wanted = true)
    (hspec : find_command (to_upper name) = some spec)
    (harity : arity_ok spec.arity (name :: args).length = true) :
    Writes (name :: args) 4 s (run_handler env (name :: args) s spec.handler).2 := by
  have hh : handler_of (name :: args) = some spec.handler := by simp [handler_of, hspec]
  have stay : Writes (name :: args) 4 s s := writes_of_drops hs (Drops.refl s)
  have get_drops : ∀ key, Drops s (s.get key).2 (s.asks key) :=
    fun key => drops_of_seen (get_spec s key).2
  cases hc : spec.handler <;> rw [hc] at hh <;> simp only [run_handler]
  case ping | echo | dbsize | other => exact stay
  case set => exact cmd_set_writes hs hlog hh
  case get =>
    unfold cmd_get
    dsimp only
    split <;> exact writes_of_drops hs (get_drops _)
  case del => exact cmd_del_writes hs rfl (find_command_del hspec hc)
  case exists_keys =>
    obtain ⟨n, h⟩ := count_existing_drops args s
    exact writes_of_drops hs h
  case incr | decr => exact incr_by_writes hs hlog (by simp [keeps_ttl, hh])
  case incrby =>
    unfold cmd_incrby
    split
    · exact stay
    · exact incr_by_writes hs hlog (by simp [keeps_ttl, hh])
  case decrby =>
    unfold cmd_decrby
    split
    · exact stay
    · split
      · exact stay
      · exact incr_by_writes hs hlog (by simp [keeps_ttl, hh])
  case expire | pexpire | expireat | pexpireat =>
    exact expire_generic_writes hs hlog (by simp [moves_ttl, hh]) fun r => by simp [brings, hh]
  case ttl | pttl =>
    obtain ⟨n, h⟩ := pttl_drops s ((name :: args).getD 1 [])
    exact writes_of_drops hs h
  case persist =>
    obtain ⟨hname, har⟩ := find_command_persist hspec hc
    have hlen : args.length = 1 := by
      rw [har] at harity
      simpa [arity_ok] using harity
    obtain ⟨key, rfl⟩ := List.length_eq_one_iff.mp hlen
    exact cmd_persist_writes hs rfl hname (by simp [keeps_ttl, hh])
  case dump =>
    unfold cmd_dump
    dsimp only
    split <;> exact writes_of_drops hs (get_drops _)
  case restore => exact cmd_restore_writes hs hlog hh
  case migrate => exact cmd_migrate_writes hs

/-- How many clock readings after its start a command can still take the one it
checks a deadline against. -/
def window (argv : Args) : Nat := argv.length + 4

/-- **What a command does on a master whose log is read.** -/
theorem dispatch_writes (env : Env) (argv : Args) (hs : Master s) (hlog : env.log_wanted = true) :
    Writes argv (window argv) s (dispatch env argv s).2 := by
  have stay : Writes argv (window argv) s s := writes_of_drops hs (Drops.refl s)
  unfold dispatch
  split
  case h_1 => exact stay
  case h_2 name args =>
    split
    case h_1 => exact stay
    case h_2 spec hspec =>
      split
      case isFalse => exact stay
      case isTrue harity =>
        obtain ⟨n, hn, hroute⟩ := redirect_drops env spec (name :: args) s
        have hlets := refuse_drops env spec (redirect env spec (name :: args) s).2
        have hd := hroute.trans hlets
        dsimp only
        split
        · exact writes_of_drops hs hroute
        · split
          · exact writes_of_drops hs hd
          · exact (run_handler_writes (hs.drops hd) hlog hspec harity).after hs hd (by omega)

end EpochKV.Journal

/-
Reading a log back.

Two parts of the server run logged commands through `dispatch`: the replay at
startup (no client, loading, a store that expires keys) and the link to the master
(a client marked `is_master`, passive expiry). Neither is redirected, refused or
made to evict (`Obeys`), so only the handlers matter, and only on the six forms of
`Journal.Means`.

`obey_active` and `obey_passive` say what one logged command does to such a store:
the writes it stands for, as an active or a passive reader runs them
(`Keyspace.Write.active`, `Keyspace.Write.passive`). The passive statement keeps the
clock general: `readAt` is the one reading the outcome depends on.
-/
import EpochKV.Journal

set_option autoImplicit false

namespace EpochKV.Reader

open Text Keyspace Commands Store Journal

/-- No check of `dispatch` stands between this caller and the handlers. -/
def Obeys (env : Env) (s : Store) : Prop :=
  ∀ spec argv, redirect env spec argv s = (none, s) ∧ refuse env spec s = (none, s)

variable {env : Env} {s : Store} {name : Bytes}

/-- The replay of the log at startup. -/
theorem obeys_replay (hc : env.client = none) (hr : env.is_replica = false) (hl : s.loading = true) :
    Obeys env s := by
  intro spec argv
  constructor
  · simp [redirect, hc]
  · simp [refuse, hr, hl]

/-- The master's stream. -/
theorem obeys_stream {c : Client} (s : Store) (hc : env.client = some c) (hm : c.is_master = true) :
    Obeys env s := by
  have hf : env.from_master = true := by simp [Env.from_master, hc, hm]
  intro spec argv
  constructor
  · unfold redirect
    split
    case h_1 v c' _ hc' =>
      obtain rfl : c = c' := by simpa [hc] using hc'
      simp [hm]
    case h_2 => rfl
  · simp [refuse, hf]

theorem dispatch_of_obeys (h : Obeys env s) {args : List Bytes} {spec : CommandSpec}
    (hspec : find_command (to_upper name) = some spec)
    (harity : arity_ok spec.arity (args.length + 1) = true) :
    dispatch env (name :: args) s = run_handler env (name :: args) s spec.handler := by
  obtain ⟨h1, h2⟩ := h spec (name :: args)
  simp only [dispatch, hspec, List.length_cons, harity, if_true, h1, h2]

/-- What a reader itself would log does not concern it. -/
theorem propagate_built_spec (env : Env) (s : Store) (argv : Args) :
    ∃ log, Becomes s (propagate_built env s argv) s.view 0 log := by
  unfold propagate_built
  split
  · exact ⟨_, propagate_spec s argv⟩
  · exact ⟨_, Becomes.refl s⟩

/-! ## The options of the logged forms -/

variable {d : Int} {key value : Bytes} {opts : List Bytes} {o : SetOptions}
  {m : Space Key Bytes Int} {n t : Nat} {log : List Args} {argv : Args}
  {ws : List (Key × Write Bytes Int)}

theorem set_options_pxat (hpos : 0 < d) (hfit : Fits d) (s : Store) :
    set_options [lit "PXAT", to_string d] {} s = (.ok { expire_at := some d }, s) := by
  have h1 : ¬ (to_upper (lit "PXAT") = lit "NX" ∧ (false : Bool) = false) := by decide
  have h2 : ¬ (to_upper (lit "PXAT") = lit "XX" ∧ (false : Bool) = false) := by decide
  have h3 : ¬ (to_upper (lit "PXAT") = lit "KEEPTTL" ∧ (none : Option Int) = none) := by decide
  have h4 : (to_upper (lit "PXAT") = lit "EX" ∨ to_upper (lit "PXAT") = lit "PX" ∨
      to_upper (lit "PXAT") = lit "EXAT" ∨ to_upper (lit "PXAT") = lit "PXAT") ∧
      (false : Bool) = false ∧ (none : Option Int) = none := by decide
  have hunit : (if to_upper (lit "PXAT") = lit "EX" ∨ to_upper (lit "PXAT") = lit "EXAT"
      then (1000 : Int) else 1) = 1 := by decide
  have hrel : decide (to_upper (lit "PXAT") = lit "EX" ∨ to_upper (lit "PXAT") = lit "PX")
      = false := by decide
  have hd : set_deadline s d 1 false = (some d, s) := by
    simp [set_deadline, hpos, deadline_from, hfit]
  rw [set_options, if_neg h1, if_neg h2, if_neg h3, if_pos h4]
  simp only [parse_int64_to_string hfit, hunit, hrel, hd, set_options]

theorem set_options_keepttl (s : Store) :
    set_options [lit "KEEPTTL"] {} s = (.ok { keep_ttl := true }, s) := by
  have h1 : ¬ (to_upper (lit "KEEPTTL") = lit "NX" ∧ (false : Bool) = false) := by decide
  have h2 : ¬ (to_upper (lit "KEEPTTL") = lit "XX" ∧ (false : Bool) = false) := by decide
  have h3 : to_upper (lit "KEEPTTL") = lit "KEEPTTL" ∧ (none : Option Int) = none := by decide
  rw [set_options, if_neg h1, if_neg h2, if_pos h3, set_options]

/-- A SET whose options are known and ask for no condition. -/
theorem cmd_set_of_options (h : set_options opts {} s = (.ok o, s)) (hnx : o.nx = false)
    (hxx : o.xx = false) :
    (cmd_set env (name :: key :: value :: opts) s).2
      = propagate_built env (set_expire_opt (s.set key value o.keep_ttl) key o.expire_at)
        (set_logged key value o) := by
  simp [cmd_set, h, hnx, hxx]

/-! ## One command -/

/-- The reading a logged write depends on: that of its lookup. `PEXPIREAT` asks for the
time once before. -/
def readAt (s : Store) : Write Bytes Int → Int
  | .expireAt _ => s.clock (s.reads + 1)
  | _ => s.now

/-- The writes one after the other, each on its own key. -/
def follow (f : Write Bytes Int → Cell Bytes Int → Cell Bytes Int)
    (ws : List (Key × Write Bytes Int)) (m : Space Key Bytes Int) : Space Key Bytes Int :=
  ws.foldl (fun m w => Function.update m w.1 (f w.2 (m w.1))) m

theorem follow_one (f : Write Bytes Int → Cell Bytes Int → Cell Bytes Int) (k : Key)
    (w : Write Bytes Int) (m : Space Key Bytes Int) :
    follow f [(k, w)] m = Function.update m k (f w (m k)) := rfl

theorem follow_dels {f : Write Bytes Int → Cell Bytes Int → Cell Bytes Int}
    (hf : ∀ c, f .del c = none) (ks : List Key) (m : Space Key Bytes Int) :
    follow f (ks.map fun k => (k, .del)) m = purge ks m := by
  induction ks generalizing m with
  | nil => exact (purge_nil m).symm
  | cons k ks ih =>
    rw [purge_cons, ← ih, List.map_cons, follow, List.foldl_cons, hf]
    rfl

theorem del_keys_view (keys : List Key) (s : Store) :
    ∃ n log, Becomes s (del_keys keys s).2 (purge keys s.view) n log := by
  induction keys generalizing s with
  | nil => exact ⟨0, [], by simpa [del_keys] using Becomes.refl s⟩
  | cons key keys ih =>
    have h := (del_spec s key).2
    obtain ⟨n, log, h'⟩ := ih (s.del key).2
    rw [h.view, ← purge_cons] at h'
    exact ⟨_, _, h.trans h'⟩

section

variable (ho : Obeys env s)
include ho

/-- `DEL` reclaims every key it names, whoever runs it. -/
theorem obey_del {ks : List Key} (hname : to_upper name = lit "DEL") (hne : ks ≠ []) :
    ∃ n log, Becomes s (dispatch env (name :: ks) s).2 (purge ks s.view) n log := by
  have hspec : find_command (to_upper name) = some ⟨"del", .del, -2, true, false, false, 1, -1, 1⟩ := by
    rw [hname]
    rfl
  have hlen : 0 < ks.length := List.length_pos_iff.mpr hne
  obtain ⟨n, log, h⟩ := del_keys_view ks s
  rw [dispatch_of_obeys ho hspec (by simp [arity_ok]; omega), run_handler]
  by_cases hpos : (del_keys ks s).1 > 0
  · have he : (cmd_del (name :: ks) s).2 = (del_keys ks s).2.propagate (name :: ks) := if_pos hpos
    rw [he]
    exact ⟨_, _, h.propagate _⟩
  · have he : (cmd_del (name :: ks) s).2 = (del_keys ks s).2 := if_neg hpos
    rw [he]
    exact ⟨n, log, h⟩

/-- The three forms of SET come down to `set` and `set_expire`. -/
theorem obey_set (h : set_options opts {} s = (.ok o, s)) (hnx : o.nx = false) (hxx : o.xx = false)
    (hset : Becomes s (set_expire_opt (s.set key value o.keep_ttl) key o.expire_at) m n log) :
    ∃ n log, Becomes s (dispatch env (lit "SET" :: key :: value :: opts) s).2 m n log := by
  have hspec : find_command (to_upper (lit "SET"))
      = some ⟨"set", .set, -3, true, true, false, 1, 1, 1⟩ := rfl
  obtain ⟨log', h'⟩ := propagate_built_spec env
    (set_expire_opt (s.set key value o.keep_ttl) key o.expire_at) (set_logged key value o)
  rw [dispatch_of_obeys ho hspec (by simp [arity_ok]), run_handler, cmd_set_of_options h hnx hxx]
  rw [hset.view] at h'
  exact ⟨_, _, hset.trans h'⟩

/-- `PEXPIREAT` of a logged deadline. -/
theorem obey_expire {key : Key} (hfit : Fits d)
    (hexp : Becomes s.now_ms.2 (s.now_ms.2.set_expire key d).2 m n log) :
    ∃ n log, Becomes s (dispatch env [lit "PEXPIREAT", key, to_string d] s).2 m n log := by
  have hspec : find_command (to_upper (lit "PEXPIREAT"))
      = some ⟨"pexpireat", .pexpireat, 3, true, false, false, 1, 1, 1⟩ := rfl
  have hd : deadline_from 0 d 1 = some d := by simp [deadline_from, hfit]
  have hall := (now_ms_spec s).2.trans hexp
  rw [dispatch_of_obeys ho hspec (by simp [arity_ok]), run_handler, cmd_pexpireat, expire_generic]
  simp only [List.getD_cons_succ, List.getD_cons_zero, parse_int64_to_string hfit,
    Bool.false_eq_true, if_false, hd]
  by_cases hset : (s.now_ms.2.set_expire key d).1 = true
  · obtain ⟨log', h'⟩ := propagate_built_spec env (s.now_ms.2.set_expire key d).2
      (if d ≤ s.now_ms.1 then [lit "DEL", key] else [lit "PEXPIREAT", key, to_string d])
    rw [hall.view] at h'
    simp only [if_pos hset]
    exact ⟨_, _, hall.trans h'⟩
  · simp only [if_neg hset]
    exact ⟨_, _, hall⟩

theorem obey_persist {key : Key} (hname : to_upper name = lit "PERSIST")
    (hper : Becomes s (s.persist key).2 m n log) :
    ∃ n log, Becomes s (dispatch env [name, key] s).2 m n log := by
  have hspec : find_command (to_upper name)
      = some ⟨"persist", .persist, 2, true, false, false, 1, 1, 1⟩ := by
    rw [hname]
    rfl
  rw [dispatch_of_obeys ho hspec (by simp [arity_ok]), run_handler, cmd_persist]
  simp only [List.getD_cons_succ, List.getD_cons_zero]
  by_cases hset : (s.persist key).1 = true
  · simp only [if_pos hset]
    exact ⟨_, _, hper.propagate _⟩
  · simp only [if_neg hset]
    exact ⟨_, _, hper⟩

end

/-- `set_expire` on a replica. -/
theorem set_expire_passive (hp : s.passive_expiry = true) (key : Key) (d : Int) :
    ∃ n log, Becomes s (s.set_expire key d).2
      (Function.update s.view key ((Write.expireAt d).passive s.now (s.view key))) n log := by
  cases hl : live s.now (s.view key) with
  | none =>
    have h := (set_expire_missing s key d hl).2
    rw [seen, hp, if_pos rfl] at h
    simp only [Write.passive, hl, Option.isSome_none, Bool.false_eq_true, if_false,
      Function.update_eq_self]
    exact ⟨_, _, h⟩
  | some e =>
    have h := (set_expire_found s key d hl).2
    rw [hp, if_pos rfl] at h
    refine ⟨_, _, h.congr ?_⟩
    simp only [Write.passive, hl, Option.isSome_some, if_true]
    rw [eq_of_live_eq_some hl]
    rfl

theorem persist_passive (hp : s.passive_expiry = true) (key : Key) :
    ∃ n log, Becomes s (s.persist key).2
      (Function.update s.view key (Write.persist.passive s.now (s.view key))) n log := by
  have h := (persist_spec s key).2
  rw [seen, hp, if_pos rfl] at h
  refine ⟨_, _, h.congr ?_⟩
  unfold Write.passive
  split
  · rfl
  · exact (Function.update_eq_self key s.view).symm

/-- `set_expire` on a store that expires keys, under a clock that stands still. -/
theorem set_expire_active (hp : s.passive_expiry = false) (ht : ∀ i, s.clock i = t) (key : Key)
    (d : Int) :
    ∃ n log, Becomes s (s.set_expire key d).2
      (Function.update s.view key ((Write.expireAt d).active t (s.view key))) n log := by
  have hnow : s.now = t := by rw [Store.now, ht]
  cases hl : live s.now (s.view key) with
  | none =>
    have h := (set_expire_missing s key d hl).2
    rw [seen, hp, if_neg (by simp), hl] at h
    rw [hnow] at hl
    simp only [Write.active, hl, Write.run, Option.map_none, live_none]
    exact ⟨_, _, h⟩
  | some e =>
    have h := (set_expire_found s key d hl).2
    rw [hp, if_neg (by simp), second, ht] at h
    rw [hnow] at hl
    simp only [Write.active, hl, Write.run, Option.map_some]
    exact ⟨_, _, h⟩

theorem persist_active (hp : s.passive_expiry = false) (ht : ∀ i, s.clock i = t) (key : Key) :
    ∃ n log, Becomes s (s.persist key).2
      (Function.update s.view key (Write.persist.active t (s.view key))) n log := by
  have hnow : s.now = t := by rw [Store.now, ht]
  have h := (persist_spec s key).2
  have hseen : s.seen key = Function.update s.view key (live (t : Int) (s.view key)) := by
    rw [seen, hp, if_neg (by simp), hnow]
  rw [hseen, hnow] at h
  refine ⟨_, _, h.congr ?_⟩
  unfold Write.active
  cases hl : live (t : Int) (s.view key) with
  | none => rfl
  | some e =>
    rw [eq_of_live_eq_some hl]
    rfl

/-- `SET … KEEPTTL` on a store that expires keys: the deadline it keeps is not passed. -/
theorem keep_active (t : Int) (v : Bytes) (c : Cell Bytes Int) :
    (Write.keep v).active t c = some (v, (live t c).bind Prod.snd) := by
  unfold Write.active
  cases hl : live t c with
  | none => rfl
  | some e =>
    have hc := eq_of_live_eq_some hl
    rw [hc] at hl
    obtain ⟨v', d⟩ := e
    cases d with
    | none => rfl
    | some d =>
      rw [live_some_some] at hl
      split at hl
      case isTrue => simp at hl
      case isFalse hd =>
        show live t (some (v, some d)) = some (v, some d)
        rw [live_some_some, if_neg hd]

/-- **One logged command on a replica.** -/
theorem obey_passive (ho : Obeys env s) (hp : s.passive_expiry = true) (hm : Means argv ws) :
    ∃ n log, Becomes s (dispatch env argv s).2
      (follow (fun w c => w.passive (readAt s w) c) ws s.view) n log := by
  cases hm with
  | set k v => exact obey_set ho (o := {}) rfl rfl rfl (set_spec s k v false)
  | setAt k v d hpos hfit =>
    obtain ⟨log, h⟩ := set_then_expire s k v d
    rw [hp, if_pos rfl] at h
    exact obey_set ho (set_options_pxat hpos hfit s) rfl rfl h
  | setKeep k v => exact obey_set ho (set_options_keepttl s) rfl rfl (set_spec s k v true)
  | expire k d hfit =>
    -- the reading of the lookup is the second one
    obtain ⟨n, log, h⟩ := set_expire_passive (s := s.now_ms.2) hp k d
    exact obey_expire ho hfit h
  | del name ks hname hne =>
    rw [follow_dels fun _ => rfl]
    exact obey_del ho hname hne
  | persist name k hname =>
    obtain ⟨n, log, h⟩ := persist_passive hp k
    exact obey_persist ho hname h

/-- **One logged command replayed by a store that expires keys**, under a clock that
stands still. -/
theorem obey_active (ho : Obeys env s) (hp : s.passive_expiry = false) (ht : ∀ i, s.clock i = t)
    (hm : Means argv ws) :
    ∃ n log, Becomes s (dispatch env argv s).2 (follow (fun w c => w.active t c) ws s.view) n
      log := by
  cases hm with
  | set k v => exact obey_set ho (o := {}) rfl rfl rfl (set_spec s k v false)
  | setAt k v d hpos hfit =>
    obtain ⟨log, h⟩ := set_then_expire s k v d
    rw [hp, if_neg (by simp), second, ht] at h
    exact obey_set ho (set_options_pxat hpos hfit s) rfl rfl h
  | setKeep k v =>
    have h := set_spec s k v true
    rw [if_pos rfl, Store.now, ht] at h
    rw [follow_one, keep_active]
    exact obey_set ho (set_options_keepttl s) rfl rfl h
  | expire k d hfit =>
    obtain ⟨n, log, h⟩ := set_expire_active (s := s.now_ms.2) hp ht k d
    exact obey_expire ho hfit h
  | del name ks hname hne =>
    rw [follow_dels fun _ => rfl]
    exact obey_del ho hname hne
  | persist name k hname =>
    obtain ⟨n, log, h⟩ := persist_active hp ht k
    exact obey_persist ho hname h

end EpochKV.Reader

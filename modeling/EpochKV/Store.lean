/-
The keyspace store (`store.cpp`).

State passing: every function takes a `Store` and returns its result with the new
one. Three things of the source live outside the class and are made explicit:

* the clock is the stream of its readings, `clock`, and `reads` says how many were
  taken. A function that asks for the time twice may get two different answers;
* the deletion listener, as `kv_server.cpp` sets it, hands `DEL key` to the same
  propagator the command handlers use. `journal` is everything that propagator
  was given, in order. While the server loads its data (`loading`) it is silent;
* `random_entry` draws from an argument.

Below the definitions stands one specification per function, in terms of `view`
(what is stored) and `live` (what is not due yet). The same statement covers a
master's store and a replica's: they differ in `passive_expiry` only.
-/
import EpochKV.Tables

set_option autoImplicit false

namespace EpochKV

open Text Slots Keyspace

inductive EvictionPolicy where
  | kNoEviction
  | kAllKeysLru
  deriving DecidableEq

/-- The fields of `Store` that are not tables, and what it does to the outside. -/
structure Store where
  /-- Bytes; 0 = unlimited. -/
  maxmemory : Nat := 0
  policy : EvictionPolicy := .kNoEviction
  /-- Unix time in ms, one value per call. -/
  clock : Nat → Nat
  reads : Nat := 0
  tables : Tables := .empty
  passive_expiry : Bool := false
  loading : Bool := false
  used_memory : Nat := 0
  expired_keys : Nat := 0
  evicted_keys : Nat := 0
  journal : List Args := []

variable {s s' : Store} {m m' : Space Key Bytes Int} {n : Nat} {log : List Args} {key : Key}
  {s'' : Store} {n' : Nat}

namespace Store

def kEntryOverhead : Nat := 128

def kExpireOverhead : Nat := 64

def kExpireSamplesPerLoop : Nat := 20

def entry_cost (key : Key) (value_size : Nat) : Nat := kEntryOverhead + 2 * key.length + value_size

def expire_cost (key : Key) : Nat := kExpireOverhead + key.length

/-! ## The functions -/

/-- What the next call of the clock answers. -/
def now (s : Store) : Int := s.clock s.reads

def now_ms (s : Store) : Int × Store := (s.now, { s with reads := s.reads + 1 })

/-- The propagator of `kv_server.cpp`: silent while loading. -/
def propagate (s : Store) (argv : Args) : Store :=
  if s.loading then s else { s with journal := s.journal ++ [argv] }

def notify_deleted (s : Store) (key : Key) : Store := s.propagate [lit "DEL", key]

/-- The deadline goes, and what it cost. -/
def clear_expire (s : Store) (key : Key) : Bool × Store :=
  if key ∈ s.tables.expires then
    (true, { s with
      tables := s.tables.clearDeadline key
      used_memory := s.used_memory - expire_cost key })
  else (false, s)

/-- `Store::remove`: the entry, its nodes and its deadline go, without a word. -/
def remove (s : Store) (key : Key) : Bool × Store :=
  match s.tables.dict.lookup key with
  | none => (false, s)
  | some value =>
    let s := { s with used_memory := s.used_memory - entry_cost key value.length }
    let s := (s.clear_expire key).2
    (true, { s with tables := s.tables.unlink key })

/-- Deletes a key that is due and says so; a replica only hides it. -/
def expire_if_needed (s : Store) (key : Key) : Bool × Store :=
  if s.tables.expires.keys = [] then (false, s)
  else match s.tables.expires.lookup key with
    | none => (false, s)
    | some when_ms =>
      let r := s.now_ms
      if when_ms > r.1 then (false, r.2)
      else if r.2.passive_expiry then (true, r.2)
      else
        let s := (r.2.remove key).2
        (true, notify_deleted { s with expired_keys := s.expired_keys + 1 } key)

/-- The value of a key that is not due; `touch` makes it the most recently used. -/
def lookup (s : Store) (key : Key) (touch : Bool) : Option Bytes × Store :=
  let r := s.expire_if_needed key
  if r.1 then (none, r.2)
  else match r.2.tables.dict.lookup key with
    | none => (none, r.2)
    | some value =>
      (some value, if touch then { r.2 with tables := r.2.tables.touch key } else r.2)

def get (s : Store) (key : Key) : Option Bytes × Store := s.lookup key true

/-- `Store::exists`. -/
def exists_key (s : Store) (key : Key) : Bool × Store :=
  let r := s.lookup key true
  (r.1.isSome, r.2)

def contains (s : Store) (key : Key) : Bool × Store :=
  let r := s.lookup key false
  (r.1.isSome, r.2)

def set (s : Store) (key : Key) (value : Bytes) (keep_ttl : Bool) : Store :=
  let r := s.lookup key true
  match r.1 with
  | some old =>
    let s := { r.2 with
      used_memory := r.2.used_memory - old.length + value.length
      tables := r.2.tables.assign key value }
    if keep_ttl then s else (s.clear_expire key).2
  | none =>
    -- an expired key may still be physically here
    let s := if r.2.passive_expiry then (r.2.remove key).2 else r.2
    { s with
      used_memory := s.used_memory + entry_cost key value.length
      tables := s.tables.link key value }

def del (s : Store) (key : Key) : Bool × Store :=
  let r := s.lookup key false
  (r.1.isSome, (r.2.remove key).2)

/-- A deadline that has passed deletes the key, except on a replica. -/
def set_expire (s : Store) (key : Key) (when_ms : Int) : Bool × Store :=
  let r := s.lookup key true
  match r.1 with
  | none => (false, r.2)
  | some _ =>
    let n := r.2.now_ms
    if when_ms ≤ n.1 ∧ n.2.passive_expiry = false then (true, (n.2.remove key).2)
    else
      let cost := if key ∈ n.2.tables.expires then 0 else expire_cost key
      (true, { n.2 with
        tables := n.2.tables.setDeadline key when_ms
        used_memory := n.2.used_memory + cost })

def persist (s : Store) (key : Key) : Bool × Store :=
  let r := s.lookup key true
  match r.1 with
  | none => (false, r.2)
  | some _ => r.2.clear_expire key

def pttl (s : Store) (key : Key) : Int × Store :=
  let r := s.lookup key false
  match r.1 with
  | none => (-2, r.2)
  | some _ =>
    match r.2.tables.expires.lookup key with
    | none => (-1, r.2)
    | some when_ms =>
      let n := r.2.now_ms
      (when_ms - n.1, n.2)

/-- The loop of `evict_if_needed`. Every round takes one key out of the LRU list,
so its length is enough fuel: with an empty list the loop ends either way. -/
def evict_loop : Nat → Store → Bool × Store
  | 0, s => (decide (s.used_memory ≤ s.maxmemory), s)
  | n + 1, s =>
    if s.used_memory ≤ s.maxmemory then (true, s)
    else if s.policy = .kNoEviction then (false, s)
    else match s.tables.lru.getLast? with
      | none => (false, s)
      | some victim =>
        let s := (s.remove victim).2
        evict_loop n (notify_deleted { s with evicted_keys := s.evicted_keys + 1 } victim)

def evict_if_needed (s : Store) : Bool × Store :=
  if s.maxmemory = 0 then (true, s) else evict_loop s.tables.lru.length s

/-- The sampling loop of one round of active expiry, over the draws it makes.
Returns how many keys it deleted. -/
def expire_samples (now : Int) : List Nat → Store → Nat × Store
  | [], s => (0, s)
  | draw :: draws, s =>
    let entries := s.tables.expires.entries
    match entries[draw % entries.length]? with
    | none => (0, s)
    | some ⟨key, when_ms⟩ =>
      if when_ms ≤ now then
        let r := expire_samples now draws ((s.remove key).2.notify_deleted key)
        (r.1 + 1, r.2)
      else expire_samples now draws s

/-- The rounds of `active_expire_cycle`, one infinite supply of draws per round.
The list ends where the time budget does. -/
def expire_rounds : List (Nat → Nat) → Store → Nat × Store
  | [], s => (0, s)
  | draws :: rounds, s =>
    if s.tables.expires.entries = [] then (0, s)
    else
      let sampled := min kExpireSamplesPerLoop s.tables.expires.entries.length
      let n := s.now_ms
      let r := expire_samples n.1 ((List.range sampled).map draws) n.2
      if r.1 * 4 ≤ sampled then r
      else
        let r' := expire_rounds rounds r.2
        (r.1 + r'.1, r'.2)

/-- Nothing on a replica. -/
def active_expire_cycle (s : Store) (rounds : List (Nat → Nat)) : Nat × Store :=
  if s.passive_expiry then (0, s)
  else
    let r := expire_rounds rounds s
    (r.1, { r.2 with expired_keys := r.2.expired_keys + r.1 })

def clear (s : Store) : Store := { s with tables := .empty, used_memory := 0 }

def count_keys_in_slot (s : Store) (slot : Slot) : Nat := (s.tables.slots slot).length

/-- The loop of `delete_slot`: each key of the slot is removed and reported. -/
def delete_loop (slot : Slot) : Nat → Store → Nat × Store
  | 0, s => (0, s)
  | n + 1, s =>
    match s.tables.slots slot with
    | [] => (0, s)
    | victim :: _ =>
      let r := delete_loop slot n ((s.remove victim).2.notify_deleted victim)
      (r.1 + 1, r.2)

def delete_slot (s : Store) (slot : Slot) : Nat × Store :=
  delete_loop slot (s.tables.slots slot).length s

def size (s : Store) : Nat := s.tables.dict.entries.length

/-- What is stored under each key, due or not. -/
def view (s : Store) : Space Key Bytes Int := s.tables.view

/-! ## Specifications

A function is specified by the state it leaves: the new `view`, how often it read
the clock, and what the propagator was given. Counters and the LRU order are left
open; everything else is unchanged. -/

/-- `s'` is `s` with the data `m`, after `n` more clock readings, with `log` added
to the journal. -/
structure Becomes (s s' : Store) (m : Space Key Bytes Int) (n : Nat) (log : List Args) : Prop where
  view : s'.view = m
  reads : s'.reads = s.reads + n
  journal : s'.journal = s.journal ++ log
  clock : s'.clock = s.clock
  passive_expiry : s'.passive_expiry = s.passive_expiry
  loading : s'.loading = s.loading
  maxmemory : s'.maxmemory = s.maxmemory
  policy : s'.policy = s.policy

theorem Becomes.refl (s : Store) : Becomes s s s.view 0 [] := by
  constructor <;> simp

section

variable (h : Becomes s s' m n log)
include h

theorem Becomes.trans {log' : List Args} (h' : Becomes s' s'' m' n' log') :
    Becomes s s'' m' (n + n') (log ++ log') where
  view := h'.view
  reads := by rw [h'.reads, h.reads, Nat.add_assoc]
  journal := by rw [h'.journal, h.journal, List.append_assoc]
  clock := h'.clock.trans h.clock
  passive_expiry := h'.passive_expiry.trans h.passive_expiry
  loading := h'.loading.trans h.loading
  maxmemory := h'.maxmemory.trans h.maxmemory
  policy := h'.policy.trans h.policy

theorem Becomes.congr (hm : m = m') : Becomes s s' m' n log := hm ▸ h

/-- A second change that neither reads the clock nor says anything. -/
theorem Becomes.quiet (h' : Becomes s' s'' m' 0 []) : Becomes s s'' m' n log := by
  simpa using h.trans h'

omit h in
/-- The rest of a change, seen from halfway. -/
theorem Becomes.rebase {s₁ : Store} {m₁ : Space Key Bytes Int} {k : Nat}
    (h₁ : Becomes s s₁ m₁ n log) (h : Becomes s s' m (n + k) log) : Becomes s₁ s' m k [] where
  view := h.view
  reads := by rw [h.reads, h₁.reads, Nat.add_assoc]
  journal := by rw [h.journal, h₁.journal, List.append_nil]
  clock := h.clock.trans h₁.clock.symm
  passive_expiry := h.passive_expiry.trans h₁.passive_expiry.symm
  loading := h.loading.trans h₁.loading.symm
  maxmemory := h.maxmemory.trans h₁.maxmemory.symm
  policy := h.policy.trans h₁.policy.symm

/-- The next reading after `n` more. -/
theorem Becomes.now : s'.now = s.clock (s.reads + n) := by
  rw [Store.now, h.clock, h.reads]

/-- A change of the tables and the counters only. -/
theorem Becomes.tables {t : Tables} (ht : t.view = m') (u e v : Nat) :
    Becomes s { s' with tables := t, used_memory := u, expired_keys := e, evicted_keys := v }
      m' n log :=
  { h with view := ht }

omit h in
theorem now_ms_spec (s : Store) : s.now_ms.1 = s.now ∧ Becomes s s.now_ms.2 s.view 1 [] := by
  refine ⟨rfl, ?_⟩
  constructor <;> simp [now_ms, Store.view]

/-- The commands the propagator keeps: all, unless the server is loading. -/
def heard (s : Store) (log : List Args) : List Args := if s.loading then [] else log

omit h in
@[simp] theorem heard_nil (s : Store) : s.heard [] = [] := by simp [heard]

theorem Becomes.heard (log' : List Args) : s'.heard log' = s.heard log' := by
  rw [Store.heard, Store.heard, h.loading]

end

theorem propagate_spec (s : Store) (argv : Args) :
    Becomes s (s.propagate argv) s.view 0 (s.heard [argv]) := by
  unfold propagate heard
  split
  case isTrue => exact Becomes.refl s
  case isFalse => constructor <;> simp [Store.view]

/-- A change, then the command that says it. -/
theorem Becomes.propagate {s s' : Store} {m : Space Key Bytes Int} {n : Nat} {log : List Args}
    (h : Becomes s s' m n log) (argv : Args) :
    Becomes s (s'.propagate argv) m n (log ++ s.heard [argv]) := by
  have h' := h.trans (propagate_spec s' argv)
  rwa [h.view, h.heard] at h'

theorem notify_deleted_spec (s : Store) (key : Key) :
    Becomes s (s.notify_deleted key) s.view 0 (s.heard [[lit "DEL", key]]) :=
  propagate_spec s _

/-- The value stays, and the answer says whether there was a deadline. -/
theorem clear_expire_spec (s : Store) (key : Key) :
    (s.clear_expire key).1 = ((s.view key).bind Prod.snd).isSome ∧
      Becomes s (s.clear_expire key).2
        (Function.update s.view key ((s.view key).map fun e => (e.1, none))) 0 [] := by
  unfold clear_expire
  split
  case isTrue hk =>
    obtain ⟨d, hd⟩ := Option.isSome_iff_exists.mp (AList.lookup_isSome.mpr hk)
    obtain ⟨v, hv⟩ := Tables.view_of_deadline hd
    refine ⟨by rw [Store.view, hv]; rfl, ?_⟩
    exact (Becomes.refl s).tables (Tables.view_clearDeadline _ key) _ _ _
  case isFalse hk =>
    have hd : s.tables.expires.lookup key = none := AList.lookup_eq_none.mpr hk
    have hv : (s.view key).map (fun e => (e.1, (none : Option Int))) = s.view key := by
      simp [Store.view, Tables.view, hd, Function.comp_def]
    refine ⟨?_, ?_⟩
    · simp [Store.view, Tables.view, hd]
    · rw [hv, Function.update_eq_self]
      exact Becomes.refl s

theorem remove_spec (s : Store) (key : Key) :
    Becomes s (s.remove key).2 (Function.update s.view key none) 0 [] := by
  unfold remove
  split
  case h_1 hk =>
    have hv : s.view key = none := by rw [Store.view, Tables.view, hk]; rfl
    rw [← hv, Function.update_eq_self]
    exact Becomes.refl s
  case h_2 value hk =>
    have h := ((Becomes.refl s).tables (t := s.tables) rfl (s.used_memory - entry_cost key value.length)
      s.expired_keys s.evicted_keys).trans (clear_expire_spec _ key).2
    refine h.tables ?_ _ _ _
    rw [Tables.view_unlink]
    exact (congrArg (Function.update · key none) h.view).trans (Function.update_idem ..)

/-- One key removed and reported, whatever happens to the counters in between. -/
theorem remove_reported (s : Store) (key : Key) (e v : Nat) :
    Becomes s (notify_deleted { (s.remove key).2 with expired_keys := e, evicted_keys := v } key)
      (Function.update s.view key none) 0 (s.heard [[lit "DEL", key]]) := by
  have h1 := remove_spec s key
  have h2 := h1.tables (t := (s.remove key).2.tables) h1.view (s.remove key).2.used_memory e v
  have h3 := h2.trans (notify_deleted_spec _ key)
  rwa [h2.heard, h2.view] at h3

/-! ### Lookup -/

/-- The data after a lookup of `key`: an active store drops the key if it is due. -/
def seen (s : Store) (key : Key) : Space Key Bytes Int :=
  if s.passive_expiry then s.view else Function.update s.view key (live s.now (s.view key))

/-- A lookup asks for the time only if the key has a deadline. -/
def asks (s : Store) (key : Key) : Nat := if ((s.view key).bind Prod.snd).isSome then 1 else 0

theorem asks_le (s : Store) (key : Key) : s.asks key ≤ 1 := by
  unfold asks
  split <;> omega

/-- A lookup that drops the key says so. -/
def expiryLog (s : Store) (key : Key) : List Args :=
  if s.passive_expiry = false ∧ (s.view key).isSome ∧ live s.now (s.view key) = none then
    s.heard [[lit "DEL", key]]
  else []

theorem seen_self (s : Store) (key : Key) :
    s.seen key key = if s.passive_expiry then s.view key else live s.now (s.view key) := by
  unfold seen
  split
  · rfl
  · rw [Function.update_self]

/-- A second look at what a lookup left changes nothing more under the key. -/
theorem update_seen (s : Store) (key : Key) (c : Cell Bytes Int) :
    Function.update (s.seen key) key c = Function.update s.view key c := by
  unfold seen
  split
  · rfl
  · rw [Function.update_idem]

/-- Nothing is due: a lookup leaves the data alone. -/
theorem seen_of_live (h : live s.now (s.view key) = s.view key) : s.seen key = s.view := by
  rw [seen, h, Function.update_eq_self, ite_self]

theorem expiryLog_of_live (h : live s.now (s.view key) = s.view key) : s.expiryLog key = [] := by
  unfold expiryLog
  rw [if_neg]
  rintro ⟨-, hs, hn⟩
  rw [← h, hn] at hs
  simp at hs

/-- A lookup moves nothing, or it drops its key, which was due, and says so. -/
theorem seen_eq_or (s : Store) (key : Key) : s.seen key = s.view ∧ s.expiryLog key = [] ∨
    s.passive_expiry = false ∧ (∃ v d, s.view key = some (v, some d) ∧ d ≤ s.now) ∧
      s.seen key = Function.update s.view key none ∧ s.expiryLog key = s.heard [[lit "DEL", key]] := by
  rcases live_cases s.now (s.view key) with hl | ⟨v, d, hv, hd, hl⟩
  · exact .inl ⟨seen_of_live hl, expiryLog_of_live hl⟩
  · cases hp : s.passive_expiry with
    | true => exact .inl ⟨by simp [seen, hp], by simp [expiryLog, hp]⟩
    | false =>
      refine .inr ⟨rfl, ⟨v, d, hv, hd⟩, by simp [seen, hp, hl], ?_⟩
      rw [expiryLog, if_pos ⟨hp, by rw [hv]; rfl, hl⟩]

theorem view_of_expires_none (h : s.tables.expires.lookup key = none) :
    (s.view key).bind Prod.snd = none ∧ live s.now (s.view key) = s.view key := by
  cases hd : s.tables.dict.lookup key <;> simp [Store.view, Tables.view, h, hd]

/-- The fast path of `expire_if_needed` is the general one on a key without a
deadline. -/
theorem expire_if_needed_of_none (h : s.tables.expires.lookup key = none) :
    s.expire_if_needed key = (false, s) := by
  unfold expire_if_needed
  split
  · rfl
  · rw [h]

/-- A key with a deadline takes one reading of the clock. -/
theorem expire_if_needed_of_some {d : Int} (h : s.tables.expires.lookup key = some d) :
    s.expire_if_needed key =
      if d > s.now then (false, s.now_ms.2)
      else if s.passive_expiry then (true, s.now_ms.2)
      else (true, notify_deleted { (s.now_ms.2.remove key).2 with
        expired_keys := (s.now_ms.2.remove key).2.expired_keys + 1 } key) := by
  have hk : s.tables.expires.keys ≠ [] := by
    intro hnil
    have hmem : key ∈ s.tables.expires.keys :=
      AList.mem_keys.mpr (AList.lookup_isSome.mp (by rw [h]; rfl))
    rw [hnil] at hmem
    simp at hmem
  rw [expire_if_needed, if_neg hk, h]
  rfl

/-- The answer is whether the key was due; what becomes of it is `seen`. -/
theorem expire_if_needed_spec (s : Store) (key : Key) :
    (s.expire_if_needed key).1 = decide ((s.view key).isSome ∧ live s.now (s.view key) = none) ∧
      Becomes s (s.expire_if_needed key).2 (s.seen key) (s.asks key) (s.expiryLog key) := by
  cases h : s.tables.expires.lookup key with
  | none =>
    obtain ⟨hb, hl⟩ := view_of_expires_none h
    rw [expire_if_needed_of_none h, seen_of_live hl, expiryLog_of_live hl, asks, hb, hl]
    refine ⟨?_, Becomes.refl s⟩
    cases s.view key <;> simp
  | some d =>
    obtain ⟨v, hv⟩ := Tables.view_of_deadline h
    have hv' : s.view key = some (v, some d) := hv
    rw [expire_if_needed_of_some h]
    by_cases hd : d > s.now
    · have hl : live s.now (s.view key) = s.view key := by
        rw [hv', live_some_some, if_neg (not_le.mpr hd)]
      rw [if_pos hd, seen_of_live hl, expiryLog_of_live hl, asks, hl, hv']
      exact ⟨by simp, (now_ms_spec s).2⟩
    · have hl : live s.now (s.view key) = none := by
        rw [hv', live_some_some, if_pos (not_lt.mp hd)]
      rw [if_neg hd, seen, expiryLog, asks, hl, hv']
      split
      case isTrue hp => exact ⟨by simp, by simpa [hp] using (now_ms_spec s).2⟩
      case isFalse hp =>
        refine ⟨by simp, ?_⟩
        have hread := (now_ms_spec s).2
        have hgone := hread.trans (remove_reported s.now_ms.2 key
          ((s.now_ms.2.remove key).2.expired_keys + 1) (s.now_ms.2.remove key).2.evicted_keys)
        rw [hread.heard, hread.view] at hgone
        simpa [hp] using hgone

/-- **Lookup.** The answer is the key's value unless it is due; master and replica
give the same answer and differ in what they keep. -/
theorem lookup_spec (s : Store) (key : Key) (touch : Bool) :
    (s.lookup key touch).1 = (live s.now (s.view key)).map Prod.fst ∧
      Becomes s (s.lookup key touch).2 (s.seen key) (s.asks key) (s.expiryLog key) := by
  obtain ⟨h1, h2⟩ := expire_if_needed_spec s key
  unfold lookup
  by_cases hdue : (s.view key).isSome ∧ live s.now (s.view key) = none
  · have hr : (s.expire_if_needed key).1 = true := by rw [h1, decide_eq_true hdue]
    simp only [hr, if_true]
    exact ⟨by rw [hdue.2]; rfl, h2⟩
  · have hr : (s.expire_if_needed key).1 = false := by rw [h1, decide_eq_false hdue]
    have hl : live s.now (s.view key) = s.view key := by
      rcases live_cases s.now (s.view key) with h | ⟨v, d, hv, -, h⟩
      · exact h
      · exact absurd ⟨by rw [hv]; rfl, h⟩ hdue
    have hview : (s.expire_if_needed key).2.tables.view = s.view := by
      have := h2.view
      rwa [seen_of_live hl] at this
    have hget : (s.expire_if_needed key).2.tables.dict.lookup key = (s.view key).map Prod.fst := by
      rw [← hview, Tables.view, Option.map_map]
      simp [Function.comp_def]
    simp only [hr, Bool.false_eq_true, if_false]
    rw [hl, ← hget]
    cases hd : (s.expire_if_needed key).2.tables.dict.lookup key with
    | none => exact ⟨rfl, h2⟩
    | some value =>
      refine ⟨rfl, ?_⟩
      cases touch with
      | false => exact h2
      | true =>
        refine h2.tables ?_ _ _ _
        rw [Tables.view_touch, hview, seen_of_live hl]

/-! ### Reads and writes -/

theorem get_spec (s : Store) (key : Key) :
    (s.get key).1 = (live s.now (s.view key)).map Prod.fst ∧
      Becomes s (s.get key).2 (s.seen key) (s.asks key) (s.expiryLog key) :=
  lookup_spec s key true

theorem exists_key_spec (s : Store) (key : Key) :
    (s.exists_key key).1 = (live s.now (s.view key)).isSome ∧
      Becomes s (s.exists_key key).2 (s.seen key) (s.asks key) (s.expiryLog key) := by
  obtain ⟨h1, h2⟩ := lookup_spec s key true
  refine ⟨?_, h2⟩
  rw [exists_key, h1, Option.isSome_map]

theorem contains_spec (s : Store) (key : Key) :
    (s.contains key).1 = (live s.now (s.view key)).isSome ∧
      Becomes s (s.contains key).2 (s.seen key) (s.asks key) (s.expiryLog key) := by
  obtain ⟨h1, h2⟩ := lookup_spec s key false
  refine ⟨?_, h2⟩
  rw [contains, h1, Option.isSome_map]

/-- **Set.** Master and replica store the same thing: the new value, under the old
deadline if it was asked for and is not due. -/
theorem set_spec (s : Store) (key : Key) (value : Bytes) (keep_ttl : Bool) :
    Becomes s (s.set key value keep_ttl)
      (Function.update s.view key
        (some (value, if keep_ttl then (live s.now (s.view key)).bind Prod.snd else none)))
      (s.asks key) (s.expiryLog key) := by
  obtain ⟨h1, h2⟩ := lookup_spec s key true
  unfold set
  cases hl : live s.now (s.view key) with
  | none =>
    -- nothing to overwrite; on a replica the due key may still be in the tables
    rw [hl, Option.map_none] at h1
    simp only [h1, Option.bind_none, ite_self]
    split
    case isTrue =>
      have h3 := h2.quiet (remove_spec _ key)
      refine h3.tables ?_ _ _ _
      rw [Tables.view_link]
      refine (congrArg (Function.update · key _) h3.view).trans ?_
      rw [Function.update_idem, h2.view, update_seen]
    case isFalse =>
      refine h2.tables ?_ _ _ _
      rw [Tables.view_link]
      exact (congrArg (Function.update · key _) h2.view).trans (update_seen ..)
  | some e =>
    have hv := eq_of_live_eq_some hl
    rw [seen_of_live (hl.trans hv.symm)] at h2
    rw [hl, Option.map_some] at h1
    simp only [h1, Option.bind_some]
    have h3 : Becomes s { (s.lookup key true).2 with
        used_memory := (s.lookup key true).2.used_memory - e.1.length + value.length
        tables := (s.lookup key true).2.tables.assign key value }
        (Function.update s.view key (some (value, e.2))) (s.asks key) (s.expiryLog key) := by
      refine h2.tables ?_ _ _ _
      have hview : (s.lookup key true).2.tables.view = s.view := h2.view
      rw [Tables.view_assign, hview, hv, Option.map_some]
    cases keep_ttl with
    | true => exact h3
    | false =>
      have h4 := h3.quiet (clear_expire_spec _ key).2
      rw [h3.view, Function.update_idem, Function.update_self] at h4
      exact h4

/-- **Del.** The key is gone; the answer says whether it was there and not due. -/
theorem del_spec (s : Store) (key : Key) :
    (s.del key).1 = (live s.now (s.view key)).isSome ∧
      Becomes s (s.del key).2 (Function.update s.view key none) (s.asks key)
        (s.expiryLog key) := by
  obtain ⟨h1, h2⟩ := lookup_spec s key false
  refine ⟨by rw [del, h1, Option.isSome_map], ?_⟩
  have h3 := h2.quiet (remove_spec _ key)
  rw [h2.view, update_seen] at h3
  exact h3

/-- **Set_expire** on a key that is not there, or due: only the lookup. -/
theorem set_expire_missing (s : Store) (key : Key) (when_ms : Int)
    (h : live s.now (s.view key) = none) :
    (s.set_expire key when_ms).1 = false ∧
      Becomes s (s.set_expire key when_ms).2 (s.seen key) (s.asks key) (s.expiryLog key) := by
  obtain ⟨h1, h2⟩ := lookup_spec s key true
  rw [h, Option.map_none] at h1
  unfold set_expire
  simp only [h1, true_and]
  exact h2

/-- The second reading `set_expire` takes, after the one of its lookup. -/
def second (s : Store) (key : Key) : Int := s.clock (s.reads + s.asks key)

/-- **Set_expire** on a key that is there: a master compares the new deadline with
its second reading and removes the key without a word if it is passed. -/
theorem set_expire_found (s : Store) (key : Key) (when_ms : Int) {e : Bytes × Option Int}
    (hl : live s.now (s.view key) = some e) :
    (s.set_expire key when_ms).1 = true ∧
      Becomes s (s.set_expire key when_ms).2
        (Function.update s.view key
          (if s.passive_expiry then some (e.1, some when_ms)
            else live (s.second key) (some (e.1, some when_ms))))
        (s.asks key + 1) [] := by
  obtain ⟨h1, h2⟩ := lookup_spec s key true
  have hv := eq_of_live_eq_some hl
  have hself := hl.trans hv.symm
  rw [hl, Option.map_some] at h1
  rw [seen_of_live hself, expiryLog_of_live hself] at h2
  obtain ⟨hn, h3⟩ := now_ms_spec (s.lookup key true).2
  rw [h2.now] at hn
  have h4 := h2.trans h3
  rw [h2.view] at h4
  have hp := h4.passive_expiry
  unfold set_expire
  simp only [h1]
  by_cases hdue : when_ms ≤ s.second key ∧ s.passive_expiry = false
  · rw [if_pos (by rw [hn, hp]; exact hdue), if_neg (by simp [hdue.2]), live_some_some,
      if_pos hdue.1]
    have h5 := h4.quiet (remove_spec _ key)
    rw [h4.view] at h5
    exact ⟨rfl, h5⟩
  · rw [if_neg (by rw [hn, hp]; exact hdue)]
    have hstay : (if s.passive_expiry then some (e.1, some when_ms)
        else live (s.second key) (some (e.1, some when_ms))) = some (e.1, some when_ms) := by
      split
      case isTrue => rfl
      case isFalse hact =>
        rw [live_some_some, if_neg]
        exact fun hle => hdue ⟨hle, by simpa using hact⟩
    rw [hstay]
    refine ⟨rfl, h4.tables ?_ _ _ _⟩
    have hview : (s.lookup key true).2.now_ms.2.tables.view = s.view := h4.view
    rw [Tables.view_setDeadline, hview, hv, Option.map_some]

/-- A key that was just stored has no deadline: `set_expire` reads the clock once. -/
theorem Becomes.set_expire {s s' : Store} {m : Space Key Bytes Int} {n : Nat} {log : List Args}
    {key : Key} {value : Bytes} (h : Becomes s s' (Function.update m key (some (value, none))) n log)
    (d : Int) :
    Becomes s (s'.set_expire key d).2
      (Function.update m key (if s.passive_expiry then some (value, some d)
        else live (s.clock (s.reads + n) : Int) (some (value, some d)))) (n + 1) log := by
  have hview : s'.view key = some (value, none) := by rw [h.view, Function.update_self]
  have hasks : s'.asks key = 0 := by simp [asks, hview]
  have hfound := (set_expire_found s' key d (e := (value, none)) (by rw [hview]; rfl)).2
  rw [h.passive_expiry, hasks, second, hasks, h.clock, h.reads] at hfound
  have h' := h.trans hfound
  rwa [h.view, Function.update_idem, List.append_nil] at h'

/-- Storing with a deadline: a replica keeps what it is told, an active store checks
the deadline against one more reading. -/
theorem set_then_expire (s : Store) (key : Key) (value : Bytes) (d : Int) :
    ∃ log, Becomes s ((s.set key value false).set_expire key d).2
      (Function.update s.view key
        (if s.passive_expiry then some (value, some d)
          else live (s.second key) (some (value, some d)))) (s.asks key + 1) log := by
  have hset := set_spec s key value false
  simp only [Bool.false_eq_true, if_false] at hset
  exact ⟨_, hset.set_expire d⟩

/-- **Persist.** -/
theorem persist_spec (s : Store) (key : Key) :
    (s.persist key).1 = ((live s.now (s.view key)).bind Prod.snd).isSome ∧
      Becomes s (s.persist key).2
        (if (live s.now (s.view key)).isSome then
          Function.update s.view key ((s.view key).map fun e => (e.1, none))
        else s.seen key)
        (s.asks key) (s.expiryLog key) := by
  obtain ⟨h1, h2⟩ := lookup_spec s key true
  unfold persist
  cases hl : live s.now (s.view key) with
  | none =>
    rw [hl, Option.map_none] at h1
    simp only [h1]
    exact ⟨rfl, by simpa using h2⟩
  | some e =>
    have hv := eq_of_live_eq_some hl
    rw [hl, Option.map_some] at h1
    rw [seen_of_live (hl.trans hv.symm)] at h2
    obtain ⟨h3, h4⟩ := clear_expire_spec (s.lookup key true).2 key
    rw [h2.view, hv] at h3
    have h5 := h2.quiet h4
    rw [h2.view] at h5
    simp only [h1]
    exact ⟨h3, by simpa using h5⟩

/-- **Pttl** changes no more than its lookup. -/
theorem pttl_spec (s : Store) (key : Key) :
    ∃ n, Becomes s (s.pttl key).2 (s.seen key) n (s.expiryLog key) := by
  obtain ⟨h1, h2⟩ := lookup_spec s key false
  unfold pttl
  simp only
  split
  case h_1 => exact ⟨_, h2⟩
  case h_2 =>
    split
    case h_1 => exact ⟨_, h2⟩
    case h_2 =>
      have h3 := h2.trans (now_ms_spec _).2
      rw [h2.view, List.append_nil] at h3
      exact ⟨_, h3⟩

/-! ### Keys the store drops on its own

Eviction, active expiry and `delete_slot` remove one key after another and report
each. Which keys they pick does not matter to what follows; that every one of them
is reported does. -/

/-- The data without the keys `ks`. -/
def purge (ks : List Key) (m : Space Key Bytes Int) : Space Key Bytes Int :=
  fun k => if k ∈ ks then none else m k

@[simp] theorem purge_nil (m : Space Key Bytes Int) : purge [] m = m := by
  funext k
  simp [purge]

/-- The first of the keys goes first. -/
theorem purge_cons (key : Key) (ks : List Key) (m : Space Key Bytes Int) :
    purge (key :: ks) m = purge ks (Function.update m key none) := by
  funext k
  by_cases h : k = key
  · subst h
    simp [purge]
  · simp [purge, h]

theorem purge_append (ks ks' : List Key) (m : Space Key Bytes Int) :
    purge (ks ++ ks') m = purge ks' (purge ks m) := by
  funext k
  by_cases h : k ∈ ks <;> by_cases h' : k ∈ ks' <;> simp [purge, h, h']

/-- One `DEL` for each key. -/
def delLog (ks : List Key) : List Args := ks.map fun k => [lit "DEL", k]

theorem delLog_append (ks ks' : List Key) : delLog (ks ++ ks') = delLog ks ++ delLog ks' :=
  List.map_append

theorem heard_append (s : Store) (log log' : List Args) :
    s.heard (log ++ log') = s.heard log ++ s.heard log' := by
  unfold heard
  split <;> simp

/-- Between `s` and `s'` the store dropped some keys on its own and reported them,
and read the clock `n` times. -/
def Drops (s s' : Store) (n : Nat) : Prop :=
  ∃ ks, Becomes s s' (purge ks s.view) n (s.heard (delLog ks))

theorem Drops.refl (s : Store) : Drops s s 0 :=
  ⟨[], by simpa [delLog] using Becomes.refl s⟩

theorem Drops.trans (h : Drops s s' n) (h' : Drops s' s'' n') : Drops s s'' (n + n') := by
  obtain ⟨ks, h⟩ := h
  obtain ⟨ks', h'⟩ := h'
  refine ⟨ks ++ ks', ?_⟩
  have h2 := h.trans h'
  rw [h.view, h.heard, ← heard_append, ← purge_append] at h2
  rwa [delLog_append]

/-- A clock reading, or a change of the counters, drops nothing. -/
theorem Drops.of_becomes (h : Becomes s s' s.view n []) : Drops s s' n :=
  ⟨[], by simpa [delLog] using h⟩

/-- A lookup drops the key it finds due, on a master; on a replica it drops nothing. -/
theorem drops_of_seen (h : Becomes s s' (s.seen key) n (s.expiryLog key)) : Drops s s' n := by
  rcases seen_eq_or s key with ⟨hseen, hlog⟩ | ⟨-, -, hseen, hlog⟩
  · rw [hseen, hlog] at h
    exact .of_becomes h
  · rw [hseen, hlog] at h
    exact ⟨[key], by rwa [purge_cons, purge_nil]⟩

theorem drops_one (s : Store) (key : Key) (e v : Nat) :
    Drops s (notify_deleted { (s.remove key).2 with expired_keys := e, evicted_keys := v } key) 0 :=
  ⟨[key], by rw [purge_cons, purge_nil]; exact remove_reported s key e v⟩

/-- One key a round, by induction on the rounds. -/
theorem evict_loop_drops (n : Nat) (s : Store) : Drops s (evict_loop n s).2 0 := by
  induction n generalizing s with
  | zero => exact Drops.refl s
  | succ n ih =>
    unfold evict_loop
    split
    · exact Drops.refl s
    · split
      · exact Drops.refl s
      · split
        · exact Drops.refl s
        · exact (drops_one s _ _ _).trans (ih _)

theorem evict_if_needed_drops (s : Store) : Drops s s.evict_if_needed.2 0 := by
  unfold evict_if_needed
  split
  · exact Drops.refl s
  · exact evict_loop_drops _ s

theorem expire_samples_drops (now : Int) (draws : List Nat) (s : Store) :
    Drops s (expire_samples now draws s).2 0 := by
  induction draws generalizing s with
  | nil => exact Drops.refl s
  | cons draw draws ih =>
    unfold expire_samples
    simp only
    split
    · exact Drops.refl s
    · split
      · exact (drops_one s _ _ _).trans (ih _)
      · exact ih s

theorem expire_rounds_drops (rounds : List (Nat → Nat)) (s : Store) :
    ∃ n, Drops s (expire_rounds rounds s).2 n := by
  induction rounds generalizing s with
  | nil => exact ⟨0, Drops.refl s⟩
  | cons draws rounds ih =>
    unfold expire_rounds
    split
    · exact ⟨0, Drops.refl s⟩
    · have h1 := (Drops.of_becomes (now_ms_spec s).2).trans
        (expire_samples_drops s.now_ms.1
          ((List.range (min kExpireSamplesPerLoop s.tables.expires.entries.length)).map draws) _)
      simp only
      split
      · exact ⟨_, h1⟩
      · obtain ⟨n, h2⟩ := ih (expire_samples s.now_ms.1 _ _).2
        exact ⟨_, h1.trans h2⟩

/-- The readings of the clock depend on how many rounds there were. -/
theorem active_expire_cycle_drops (s : Store) (rounds : List (Nat → Nat)) :
    ∃ n, Drops s (s.active_expire_cycle rounds).2 n := by
  unfold active_expire_cycle
  split
  · exact ⟨0, Drops.refl s⟩
  · obtain ⟨n, h⟩ := expire_rounds_drops rounds s
    exact ⟨n, h.trans (Drops.of_becomes ((Becomes.refl _).tables rfl _ _ _))⟩

theorem delete_loop_drops (slot : Slot) (n : Nat) (s : Store) :
    Drops s (delete_loop slot n s).2 0 := by
  induction n generalizing s with
  | zero => exact Drops.refl s
  | succ n ih =>
    unfold delete_loop
    split
    · exact Drops.refl s
    · exact (drops_one s _ _ _).trans (ih _)

theorem delete_slot_drops (s : Store) (slot : Slot) : Drops s (s.delete_slot slot).2 0 :=
  delete_loop_drops slot _ s

end Store

end EpochKV

/-
The store as `store.cpp` lays it out: two hash tables and `kSlots + 1` linked lists that hold
iterators into each other.

`Store` has the tables of a store as one value that cannot be inconsistent. Here nothing is
given: an entry of `dict` holds the iterators of its nodes in `lru` and in the list of its
slot, the nodes of a slot's list point at the key inside a node of `lru`, nodes are unlinked
through these iterators without looking at what they hold, and the byte counter is adjusted
in a dozen places. `Linked` is the invariant that keeps this together, in the form in which
the changes keep it: what the members of each list are, in terms of `dict`. Three changes are
all there is to check (an entry leaves, an entry comes, an entry is overwritten or used); the
public functions are put together from them, and `consistent_run` says what holds after any
sequence of calls.
-/
import EpochKV.HashTable
import EpochKV.NodeList
import EpochKV.Store

set_option autoImplicit false

namespace EpochKV

open Text Slots

/-- `Store::Entry`: the value and the iterators of its two nodes. -/
structure Entry where
  value : Bytes
  lru_pos : Pos
  slot_pos : Pos

/-- The fields of `Store`, with the clock and the listener as values. -/
structure Layout where
  /-- Bytes; 0 = unlimited. -/
  maxmemory : Nat := 0
  policy : EvictionPolicy := .kNoEviction
  /-- One value per call. -/
  clock : Nat → Int
  reads : Nat := 0
  passive_expiry : Bool := false
  dict : HashTable Entry := .fresh
  expires : HashTable Int := .fresh
  /-- Keys, most recently used at the front. -/
  lru : NodeList Key := []
  /-- Per slot, pointers to the keys in the nodes of `lru`. -/
  slots : Slot → NodeList Pos := fun _ => []
  /-- Without a lower bound, so that an underflow would show. -/
  used_memory : Int := 0
  expired_keys : Nat := 0
  evicted_keys : Nat := 0
  /-- What the deletion listener was told. -/
  deleted : List Key := []
  /-- How many list nodes were allocated so far. -/
  nodes : Nat := 0

variable {key : Key} {s : Layout} {k k' : Key} {e e' entry : Entry} {V : Type} {t : HashTable V}

namespace Layout

open EpochKV.Store (entry_cost expire_cost kExpireSamplesPerLoop)

/-! ## The functions -/

def now_ms (s : Layout) : Int × Layout := (s.clock s.reads, { s with reads := s.reads + 1 })

def notify_deleted (s : Layout) (key : Key) : Layout := { s with deleted := s.deleted ++ [key] }

def clear_expire (s : Layout) (key : Key) : Bool × Layout :=
  let r := s.expires.del key
  if ¬ r.1 then (false, { s with expires := r.2 })
  else (true, { s with expires := r.2, used_memory := s.used_memory - expire_cost key })

/-- `Store::remove`: both nodes are unlinked through the iterators of the entry. -/
def remove (s : Layout) (key : Key) : Bool × Layout :=
  match s.dict.find key with
  | none => (false, s)
  | some entry =>
    let slot := key_hash_slot key
    let s := { s with
      used_memory := s.used_memory - entry_cost key entry.value.length
      slots := Function.update s.slots slot ((s.slots slot).erase entry.slot_pos)
      lru := s.lru.erase entry.lru_pos
      dict := (s.dict.del key).2 }
    (true, (s.clear_expire key).2)

/-- A replica leaves a key that is due where it is: its master will delete it. -/
def expire_if_needed (s : Layout) (key : Key) : Bool × Layout :=
  if s.expires.size = 0 then (false, s)
  else match s.expires.find key with
    | none => (false, s)
    | some when_ms =>
      let r := s.now_ms
      if when_ms > r.1 then (false, r.2)
      else if r.2.passive_expiry then (true, r.2)
      else
        let s := (r.2.remove key).2
        (true, notify_deleted { s with expired_keys := s.expired_keys + 1 } key)

/-- The entry of a key that is not due; `touch` moves it to the front. -/
def lookup (s : Layout) (key : Key) (touch : Bool) : Option Entry × Layout :=
  let r := s.expire_if_needed key
  if r.1 then (none, r.2)
  else match r.2.dict.find key with
    | none => (none, r.2)
    | some entry =>
      (some entry, if touch then { r.2 with lru := r.2.lru.splice entry.lru_pos } else r.2)

def get (s : Layout) (key : Key) : Option Bytes × Layout :=
  let r := s.lookup key true
  (r.1.map Entry.value, r.2)

/-- `Store::exists`. -/
def exists_key (s : Layout) (key : Key) : Bool × Layout :=
  let r := s.lookup key true
  (r.1.isSome, r.2)

def contains (s : Layout) (key : Key) : Bool × Layout :=
  let r := s.lookup key false
  (r.1.isSome, r.2)

/-- The part of `set` for a key that is not there. -/
def link (A : Allocator) (s : Layout) (key : Key) (value : Bytes) : Layout :=
  let slot := key_hash_slot key
  let lru_pos := A.pick s.nodes s.lru.positions
  let slot_pos := A.pick (s.nodes + 1) (s.slots slot).positions
  { s with
    used_memory := s.used_memory + entry_cost key value.length
    lru := (lru_pos, key) :: s.lru
    slots := Function.update s.slots slot ((slot_pos, lru_pos) :: s.slots slot)
    dict := (s.dict.set key ⟨value, lru_pos, slot_pos⟩).2
    nodes := s.nodes + 2 }

def set (A : Allocator) (s : Layout) (key : Key) (value : Bytes) (keep_ttl : Bool) : Layout :=
  let r := s.lookup key true
  match r.1 with
  | some entry =>
    let s := { r.2 with
      used_memory := r.2.used_memory - entry.value.length + value.length
      dict := r.2.dict.assign key { entry with value := value } }
    if keep_ttl then s else (s.clear_expire key).2
  | none =>
    -- an expired key may still be physically here
    let s := if r.2.passive_expiry then (r.2.remove key).2 else r.2
    s.link A key value

def del (s : Layout) (key : Key) : Bool × Layout :=
  let r := s.lookup key false
  (r.1.isSome, (r.2.remove key).2)

/-- A deadline that has passed deletes the key, except on a replica. -/
def set_expire (s : Layout) (key : Key) (when_ms : Int) : Bool × Layout :=
  let r := s.lookup key true
  match r.1 with
  | none => (false, r.2)
  | some _ =>
    let n := r.2.now_ms
    if when_ms ≤ n.1 ∧ n.2.passive_expiry = false then (true, (n.2.remove key).2)
    else match n.2.expires.find key with
      | some _ => (true, { n.2 with expires := n.2.expires.assign key when_ms })
      | none =>
        (true, { n.2 with
          expires := (n.2.expires.set key when_ms).2
          used_memory := n.2.used_memory + expire_cost key })

def persist (s : Layout) (key : Key) : Bool × Layout :=
  let r := s.lookup key true
  match r.1 with
  | none => (false, r.2)
  | some _ => r.2.clear_expire key

def pttl (s : Layout) (key : Key) : Int × Layout :=
  let r := s.lookup key false
  match r.1 with
  | none => (-2, r.2)
  | some _ =>
    match r.2.expires.find key with
    | none => (-1, r.2)
    | some when_ms =>
      let n := r.2.now_ms
      (when_ms - n.1, n.2)

/-- The loop of `evict_if_needed`: every round takes one node out of `lru`. -/
def evict_loop : Nat → Layout → Bool × Layout
  | 0, s => (decide (s.used_memory ≤ s.maxmemory), s)
  | n + 1, s =>
    if s.used_memory ≤ s.maxmemory then (true, s)
    else if s.policy = .kNoEviction then (false, s)
    else match s.lru.getLast? with
      | none => (false, s)
      | some victim =>
        let s := (s.remove victim.2).2
        evict_loop n (notify_deleted { s with evicted_keys := s.evicted_keys + 1 } victim.2)

def evict_if_needed (s : Layout) : Bool × Layout :=
  if s.maxmemory = 0 then (true, s) else evict_loop s.lru.length s

/-- The sampling loop of one round of active expiry: `random_entry` may draw any entry. -/
def expire_samples (now : Int) : List Nat → Layout → Nat × Layout
  | [], s => (0, s)
  | draw :: draws, s =>
    let entries := s.expires.for_each
    match entries[draw % entries.length]? with
    | none => (0, s)
    | some ⟨key, when_ms⟩ =>
      if when_ms ≤ now then
        let r := expire_samples now draws ((s.remove key).2.notify_deleted key)
        (r.1 + 1, r.2)
      else expire_samples now draws s

/-- The rounds of `active_expire_cycle`, with a supply of draws each. The list ends where the
time budget does. -/
def expire_rounds : List (Nat → Nat) → Layout → Nat × Layout
  | [], s => (0, s)
  | draws :: rounds, s =>
    if s.expires.size = 0 then (0, s)
    else
      let sampled := min kExpireSamplesPerLoop s.expires.size
      let n := s.now_ms
      let r := expire_samples n.1 ((List.range sampled).map draws) n.2
      if r.1 * 4 ≤ sampled then r
      else
        let r' := expire_rounds rounds r.2
        (r.1 + r'.1, r'.2)

def active_expire_cycle (s : Layout) (rounds : List (Nat → Nat)) : Nat × Layout :=
  if s.passive_expiry then (0, s)
  else
    let r := expire_rounds rounds s
    (r.1, { r.2 with expired_keys := r.2.expired_keys + r.1 })

/-- `active_rehash`, for as many rounds as the budget allows. -/
def active_rehash : Nat → Layout → Bool × Layout
  | 0, s => (s.dict.rehashing || s.expires.rehashing, s)
  | rounds + 1, s =>
    if s.dict.rehashing || s.expires.rehashing then
      active_rehash rounds { s with
        dict := (s.dict.rehash_step 100).2
        expires := (s.expires.rehash_step 100).2 }
    else (false, s)

def clear (s : Layout) : Layout :=
  { s with dict := .fresh, expires := .fresh, lru := [], slots := fun _ => [], used_memory := 0 }

/-- The loop of `delete_slot`, through the front of the list while there is one. -/
def delete_loop (slot : Slot) : Nat → Layout → Nat × Layout
  | 0, s => (0, s)
  | n + 1, s =>
    match s.slots slot with
    | [] => (0, s)
    | front :: _ =>
      match s.lru.deref front.2 with
      -- a dangling pointer
      | none => (0, s)
      | some victim =>
        let r := delete_loop slot n ((s.remove victim).2.notify_deleted victim)
        (r.1 + 1, r.2)

def delete_slot (s : Layout) (slot : Slot) : Nat × Layout :=
  delete_loop slot (s.slots slot).length s

def set_passive_expiry (s : Layout) (on : Bool) : Layout := { s with passive_expiry := on }

/-- The keys that the list of a slot points at, as `keys_in_slot` reads them. -/
def slot_keys (s : Layout) (slot : Slot) : List (Option Key) :=
  (s.slots slot).map fun n => s.lru.deref n.2

/-! ## The invariant -/

/-- The members of the lists, in terms of `dict`. -/
structure Linked (find : Key → Option Entry) (lru : NodeList Key) (slots : Slot → NodeList Pos) :
    Prop where
  lru_distinct : lru.Distinct
  slots_distinct : ∀ slot, (slots slot).Distinct
  mem_lru : ∀ pos key, (pos, key) ∈ lru ↔ ∃ e, find key = some e ∧ e.lru_pos = pos
  mem_slots : ∀ slot pos lru_pos, (pos, lru_pos) ∈ slots slot ↔
    ∃ key e, find key = some e ∧ key_hash_slot key = slot ∧ e.slot_pos = pos ∧ e.lru_pos = lru_pos

/-- The cost of an entry of `dict`, and of one of `expires`. -/
def dict_cost (node : HashTable.Node Entry) : Nat := entry_cost node.1 node.2.value.length

def deadline_cost (node : HashTable.Node Int) : Nat := expire_cost node.1

/-- The invariant: tables, lists and counter fit together. -/
structure Sound (s : Layout) : Prop where
  dict : s.dict.Valid
  expires : s.expires.Valid
  linked : Linked s.dict.find s.lru s.slots
  expires_sub : ∀ key when_ms, s.expires.find key = some when_ms → ∃ e, s.dict.find key = some e
  used_memory : s.used_memory = s.dict.total dict_cost + s.expires.total deadline_cost

namespace Linked

variable {find : Key → Option Entry} {lru : NodeList Key} {slots : Slot → NodeList Pos}

section

variable (h : Linked find lru slots)
include h

/-- Entries of two keys have their own nodes. -/
theorem lru_pos_inj (hk : find k = some e) (hk' : find k' = some e')
    (hpos : e'.lru_pos = e.lru_pos) : k' = k :=
  h.lru_distinct.unique ((h.mem_lru _ _).2 ⟨e', hk', rfl⟩) ((h.mem_lru _ _).2 ⟨e, hk, hpos.symm⟩)

/-- Two keys of one slot have their own nodes in its list. -/
theorem slot_pos_inj (hk : find k = some e) (hk' : find k' = some e')
    (hslot : key_hash_slot k' = key_hash_slot k) (hpos : e'.slot_pos = e.slot_pos) : k' = k := by
  have hmem := (h.mem_slots (key_hash_slot k) e.slot_pos e.lru_pos).2 ⟨k, e, hk, rfl, rfl, rfl⟩
  have hmem' := (h.mem_slots (key_hash_slot k) e.slot_pos e'.lru_pos).2
    ⟨k', e', hk', hslot, hpos, rfl⟩
  exact h.lru_pos_inj hk hk' ((h.slots_distinct _).unique hmem' hmem)

/-- The entry of a key does not matter to the list of another slot. -/
theorem mem_other {slot : Slot} {pos lru_pos : Pos} (hs : slot ≠ key_hash_slot key)
    (x : Option Entry) : (pos, lru_pos) ∈ slots slot ↔ ∃ k e, (if k = key then x else find k) = some e ∧
      key_hash_slot k = slot ∧ e.slot_pos = pos ∧ e.lru_pos = lru_pos := by
  rw [h.mem_slots]
  refine exists_congr fun k => exists_congr fun e => and_congr_left fun hrest => ?_
  have hk : k ≠ key := by
    rintro rfl
    exact hs hrest.1.symm
  rw [if_neg hk]

/-- An entry leaves. -/
theorem unlink (hkey : find key = some entry) :
    Linked (fun k => if k = key then none else find k) (lru.erase entry.lru_pos)
      (Function.update slots (key_hash_slot key)
        ((slots (key_hash_slot key)).erase entry.slot_pos)) := by
  refine ⟨h.lru_distinct.erase _, ?_, ?_, ?_⟩
  · rw [Function.forall_update_iff slots fun _ l => NodeList.Distinct l]
    exact ⟨(h.slots_distinct _).erase _, fun slot _ => h.slots_distinct slot⟩
  · intro pos k
    simp only [NodeList.mem_erase, h.mem_lru, Option.ite_none_left_eq_some]
    constructor
    · rintro ⟨⟨e, he, rfl⟩, hne⟩
      refine ⟨e, ⟨?_, he⟩, rfl⟩
      rintro rfl
      rw [hkey] at he
      exact hne (congrArg Entry.lru_pos (Option.some.inj he).symm)
    · rintro ⟨e, ⟨hk, he⟩, rfl⟩
      exact ⟨⟨e, he, rfl⟩, fun hpos => hk (h.lru_pos_inj hkey he hpos)⟩
  · intro slot pos lru_pos
    by_cases hslot : slot = key_hash_slot key
    case neg =>
      rw [Function.update_of_ne hslot]
      exact h.mem_other hslot none
    subst hslot
    simp only [Function.update_self, NodeList.mem_erase, h.mem_slots, Option.ite_none_left_eq_some]
    constructor
    · rintro ⟨⟨k, e, he, hk, rfl, rfl⟩, hne⟩
      refine ⟨k, e, ⟨?_, he⟩, hk, rfl, rfl⟩
      rintro rfl
      rw [hkey] at he
      exact hne (congrArg Entry.slot_pos (Option.some.inj he).symm)
    · rintro ⟨k, e, ⟨hne, he⟩, hk, rfl, rfl⟩
      exact ⟨⟨k, e, he, hk, rfl, rfl⟩, fun hpos => hne (h.slot_pos_inj hkey he hk hpos)⟩

/-- An entry comes, with a new node in either list. -/
theorem link (entry : Entry) (hkey : find key = none) (hlru : entry.lru_pos ∉ lru.positions)
    (hslot : entry.slot_pos ∉ (slots (key_hash_slot key)).positions) :
    Linked (fun k => if k = key then some entry else find k) ((entry.lru_pos, key) :: lru)
      (Function.update slots (key_hash_slot key)
        ((entry.slot_pos, entry.lru_pos) :: slots (key_hash_slot key))) := by
  refine ⟨h.lru_distinct.cons hlru key, ?_, ?_, ?_⟩
  · rw [Function.forall_update_iff slots fun _ l => NodeList.Distinct l]
    exact ⟨(h.slots_distinct _).cons hslot _, fun slot _ => h.slots_distinct slot⟩
  · intro pos k
    rw [List.mem_cons, Prod.mk.injEq, h.mem_lru]
    by_cases hk : k = key
    · simp [hk, hkey, eq_comm]
    · simp [hk]
  · intro slot pos lru_pos
    by_cases hs : slot = key_hash_slot key
    case neg =>
      rw [Function.update_of_ne hs]
      exact h.mem_other hs (some entry)
    subst hs
    rw [Function.update_self, List.mem_cons, Prod.mk.injEq, h.mem_slots]
    constructor
    · rintro (⟨rfl, rfl⟩ | ⟨k, e, he, hrest⟩)
      · exact ⟨key, entry, if_pos rfl, rfl, rfl, rfl⟩
      · have hk : k ≠ key := by
          rintro rfl
          simp [hkey] at he
        exact ⟨k, e, by rwa [if_neg hk], hrest⟩
    · rintro ⟨k, e, he, hrest⟩
      by_cases hk : k = key
      · rw [if_pos hk] at he
        cases he
        exact .inl ⟨hrest.2.1.symm, hrest.2.2.symm⟩
      · exact .inr ⟨k, e, by rwa [if_neg hk] at he, hrest⟩

/-- An entry is overwritten, and keeps its nodes. -/
theorem assign (new : Entry) (hkey : find key = some entry)
    (hlru : new.lru_pos = entry.lru_pos) (hslot : new.slot_pos = entry.slot_pos) :
    Linked (fun k => if k = key then some new else find k) lru slots := by
  refine ⟨h.lru_distinct, h.slots_distinct, ?_, ?_⟩
  · intro pos k
    rw [h.mem_lru]
    by_cases hk : k = key
    · subst hk
      simp [hkey, hlru]
    · simp [hk]
  · intro slot pos lru_pos
    rw [h.mem_slots]
    refine exists_congr fun k => ?_
    by_cases hk : k = key
    · subst hk
      simp [hkey, hlru, hslot]
    · simp [hk]

/-- An entry is used. -/
theorem touch (pos : Pos) : Linked find (lru.splice pos) slots :=
  ⟨h.lru_distinct.splice pos, h.slots_distinct, fun p k => NodeList.mem_splice.trans (h.mem_lru p k),
    h.mem_slots⟩

end

end Linked

/-! ## One call -/

section

variable (h : s.Sound)
include h

/-- The clock, the counters and the flags do not matter. -/
theorem Sound.frame {s' : Layout} (hdict : s'.dict = s.dict)
    (hexpires : s'.expires = s.expires) (hlru : s'.lru = s.lru) (hslots : s'.slots = s.slots)
    (hused : s'.used_memory = s.used_memory) : s'.Sound := by
  obtain ⟨h1, h2, h3, h4, h5⟩ := h
  rw [← hdict] at h1
  rw [← hexpires] at h2
  rw [← hdict, ← hlru, ← hslots] at h3
  rw [← hdict, ← hexpires] at h4
  rw [← hdict, ← hexpires, ← hused] at h5
  exact ⟨h1, h2, h3, h4, h5⟩

/-- While `key` is taken out its deadline is there a little longer. -/
structure Nearly (key : Key) (s : Layout) : Prop where
  dict : s.dict.Valid
  expires : s.expires.Valid
  linked : Linked s.dict.find s.lru s.slots
  expires_sub : ∀ k when_ms, k ≠ key → s.expires.find k = some when_ms →
    ∃ e, s.dict.find k = some e
  used_memory : s.used_memory = s.dict.total dict_cost + s.expires.total deadline_cost

theorem Sound.nearly (key : Key) : s.Nearly key :=
  ⟨h.dict, h.expires, h.linked, fun k when_ms _ => h.expires_sub k when_ms, h.used_memory⟩

omit h in
theorem Nearly.clear_expire (h : s.Nearly key) : (s.clear_expire key).2.Sound := by
  obtain ⟨hvalid, -, hflag⟩ := HashTable.del_perm h.expires key
  have hfind := HashTable.find_del h.expires key
  have hsub : ∀ k when_ms, (s.expires.del key).2.find k = some when_ms →
      ∃ e, s.dict.find k = some e := by
    intro k when_ms hk
    rw [hfind] at hk
    by_cases hkey : k = key
    · simp [hkey] at hk
    · rw [if_neg hkey] at hk
      exact h.expires_sub k when_ms hkey hk
  rw [← HashTable.find_isSome h.expires] at hflag
  unfold Layout.clear_expire
  cases hold : s.expires.find key with
  | none =>
    have htotal := HashTable.total_del_none h.expires deadline_cost hold
    rw [hold] at hflag
    rw [if_pos (by simpa using hflag)]
    refine ⟨h.dict, hvalid, h.linked, hsub, ?_⟩
    rw [htotal]
    exact h.used_memory
  | some when_ms =>
    have htotal := HashTable.total_del h.expires deadline_cost hold
    have hused := h.used_memory
    rw [hold] at hflag
    rw [if_neg (by simpa using hflag)]
    refine ⟨h.dict, hvalid, h.linked, hsub, ?_⟩
    have hcost : deadline_cost ⟨key, when_ms⟩ = expire_cost key := rfl
    dsimp only
    omega

/-- An entry leaves every structure, and its cost leaves the counter. -/
theorem remove_sound (key : Key) :
    (s.remove key).2.Sound ∧ (s.remove key).2.dict.find key = none := by
  unfold remove
  cases hkey : s.dict.find key with
  | none => exact ⟨h, hkey⟩
  | some entry =>
    obtain ⟨hvalid, -, -⟩ := HashTable.del_perm h.dict key
    have hfind := HashTable.find_del h.dict key
    have htotal := HashTable.total_del h.dict dict_cost hkey
    have hused := h.used_memory
    have hlinked := h.linked.unlink hkey
    rw [← funext hfind] at hlinked
    -- between the two steps the key may still have a deadline
    have hnearly : Nearly key { s with
        used_memory := s.used_memory - entry_cost key entry.value.length
        slots := Function.update s.slots (key_hash_slot key)
          ((s.slots (key_hash_slot key)).erase entry.slot_pos)
        lru := s.lru.erase entry.lru_pos
        dict := (s.dict.del key).2 } := by
      refine ⟨hvalid, h.expires, hlinked, ?_, ?_⟩
      · intro k when_ms hne hk
        obtain ⟨e, he⟩ := h.expires_sub k when_ms hk
        refine ⟨e, ?_⟩
        rw [hfind, if_neg hne, he]
      · have hcost : dict_cost ⟨key, entry⟩ = entry_cost key entry.value.length := rfl
        dsimp only
        omega
    refine ⟨hnearly.clear_expire, ?_⟩
    have hdict : ∀ t : Layout, (t.clear_expire key).2.dict = t.dict := by
      intro t
      unfold Layout.clear_expire
      dsimp only
      split <;> rfl
    rw [hdict, hfind, if_pos rfl]

/-- Unless it is a replica, a key that was due is gone. -/
theorem expire_if_needed_sound (key : Key) : (s.expire_if_needed key).2.Sound ∧
      ((s.expire_if_needed key).1 = true → (s.expire_if_needed key).2.passive_expiry = false →
        (s.expire_if_needed key).2.dict.find key = none) := by
  unfold expire_if_needed
  split
  · exact ⟨h, by simp⟩
  split
  · exact ⟨h, by simp⟩
  next when_ms _ =>
    have hnow : s.now_ms.2.Sound := h.frame rfl rfl rfl rfl rfl
    dsimp only
    split
    · exact ⟨hnow, by simp⟩
    split
    next hpassive =>
      refine ⟨hnow, ?_⟩
      intro _ hnot
      rw [hpassive] at hnot
      cases hnot
    · obtain ⟨hsound, hfind⟩ := remove_sound hnow key
      exact ⟨hsound.frame rfl rfl rfl rfl rfl, fun _ _ => hfind⟩

theorem lookup_sound (key : Key) (touch : Bool) : (s.lookup key touch).2.Sound ∧
      (∀ e, (s.lookup key touch).1 = some e → (s.lookup key touch).2.dict.find key = some e) ∧
      ((s.lookup key touch).1 = none → (s.lookup key touch).2.passive_expiry = false →
        (s.lookup key touch).2.dict.find key = none) := by
  obtain ⟨hsound, hgone⟩ := expire_if_needed_sound h key
  unfold lookup
  dsimp only
  split
  next hdue => exact ⟨hsound, by simp, fun _ => hgone hdue⟩
  split
  next hnone => exact ⟨hsound, by simp, fun _ _ => hnone⟩
  next entry hentry =>
    cases touch with
    | false => exact ⟨hsound, fun e he => he ▸ hentry, by simp⟩
    | true =>
      refine ⟨?_, fun e he => he ▸ hentry, by simp⟩
      exact ⟨hsound.dict, hsound.expires, hsound.linked.touch _, hsound.expires_sub,
        hsound.used_memory⟩

/-- A key that gets an entry, or another one, may have a deadline. -/
theorem Sound.expires_kept {d : HashTable Entry}
    (hfind : ∀ k, d.find k = if k = key then some e else s.dict.find k) (k : Key) (when_ms : Int)
    (hk : s.expires.find k = some when_ms) : ∃ e, d.find k = some e := by
  rw [hfind]
  split
  · exact ⟨_, rfl⟩
  · exact h.expires_sub k when_ms hk

/-- A key that was not there gets an entry and two nodes. -/
theorem link_sound (A : Allocator) (hkey : s.dict.find key = none) (value : Bytes) :
    (s.link A key value).Sound := by
  have hlru := A.unused s.nodes s.lru.positions
  have hslot := A.unused (s.nodes + 1) (s.slots (key_hash_slot key)).positions
  unfold link
  dsimp only
  generalize A.pick s.nodes _ = lru_pos at hlru ⊢
  generalize A.pick (s.nodes + 1) _ = slot_pos at hslot ⊢
  have hfind := HashTable.find_set h.dict key ⟨value, lru_pos, slot_pos⟩
  have hlinked := h.linked.link ⟨value, lru_pos, slot_pos⟩ hkey hlru hslot
  rw [← funext hfind] at hlinked
  refine ⟨(HashTable.set_perm h.dict key _).1, h.expires, hlinked, h.expires_kept hfind, ?_⟩
  have htotal := HashTable.total_set h.dict dict_cost hkey ⟨value, lru_pos, slot_pos⟩
  have hcost : dict_cost ⟨key, ⟨value, lru_pos, slot_pos⟩⟩ = entry_cost key value.length := rfl
  have hused := h.used_memory
  dsimp only
  omega

/-- An entry is overwritten. -/
theorem assign_sound (hold : s.dict.find key = some entry) (value : Bytes) : Sound { s with
    used_memory := s.used_memory - entry.value.length + value.length
    dict := s.dict.assign key { entry with value := value } } := by
  have hfind := HashTable.find_assign h.dict hold { entry with value := value }
  have htotal := HashTable.total_assign h.dict dict_cost hold { entry with value := value }
  have hused := h.used_memory
  have hlinked := h.linked.assign { entry with value := value } hold rfl rfl
  rw [← funext hfind] at hlinked
  refine ⟨(HashTable.assign_perm h.dict hold _).1, h.expires, hlinked, h.expires_kept hfind, ?_⟩
  have hcost : dict_cost ⟨key, entry⟩ = Store.kEntryOverhead + 2 * key.length +
      entry.value.length := rfl
  have hcost' : dict_cost ⟨key, { entry with value := value }⟩ =
      Store.kEntryOverhead + 2 * key.length + value.length := rfl
  dsimp only
  omega

/-- On a replica the key may still be there although `lookup` did not find it. -/
theorem set_sound (A : Allocator) (key : Key) (value : Bytes) (keep_ttl : Bool) :
    (s.set A key value keep_ttl).Sound := by
  obtain ⟨hsound, hsome, hnone⟩ := lookup_sound h key true
  unfold set
  dsimp only
  generalize s.lookup key true = r at hsound hsome hnone ⊢
  split
  next entry hentry =>
    have hset := assign_sound hsound (hsome entry hentry) value
    split
    · exact hset
    · exact (hset.nearly key).clear_expire
  next hmissing =>
    cases hpassive : r.2.passive_expiry with
    | false => exact link_sound hsound A (hnone hmissing hpassive) value
    | true =>
      obtain ⟨hremoved, hgone⟩ := remove_sound hsound key
      exact link_sound hremoved A hgone value

theorem del_sound (key : Key) : (s.del key).2.Sound :=
  (remove_sound (lookup_sound h key false).1 key).1

/-- A key that is there gets a deadline, whether or not it had one. -/
theorem deadline_sound (hkey : s.dict.find key = some entry) {x : HashTable Int} {when_ms : Int}
    {cost : Nat} (hx : x.Valid)
    (hfind : ∀ k, x.find k = if k = key then some when_ms else s.expires.find k)
    (htotal : x.total deadline_cost = s.expires.total deadline_cost + cost) :
    Sound { s with expires := x, used_memory := s.used_memory + cost } := by
  refine ⟨h.dict, hx, h.linked, ?_, ?_⟩
  · intro k w hk
    rw [hfind] at hk
    by_cases heq : k = key
    · exact ⟨entry, heq ▸ hkey⟩
    · rw [if_neg heq] at hk
      exact h.expires_sub k w hk
  · have hused := h.used_memory
    dsimp only
    omega

theorem set_expire_sound (key : Key) (when_ms : Int) : (s.set_expire key when_ms).2.Sound := by
  obtain ⟨hsound, hsome, -⟩ := lookup_sound h key true
  unfold set_expire
  dsimp only
  generalize s.lookup key true = r at hsound hsome ⊢
  split
  · exact hsound
  next entry hentry =>
    have hnow : r.2.now_ms.2.Sound := hsound.frame rfl rfl rfl rfl rfl
    have hhere : r.2.now_ms.2.dict.find key = some entry := hsome entry hentry
    generalize r.2.now_ms = n at hnow hhere ⊢
    split
    · exact (remove_sound hnow key).1
    split
    next old hold =>
      have htotal := HashTable.total_assign hnow.expires deadline_cost hold when_ms
      have hcost : deadline_cost ⟨key, old⟩ = deadline_cost ⟨key, when_ms⟩ := rfl
      exact (deadline_sound hnow hhere (HashTable.assign_perm hnow.expires hold _).1
        (HashTable.find_assign hnow.expires hold when_ms)
        (show _ = _ + 0 by omega)).frame rfl rfl rfl rfl (Int.add_zero _).symm
    next hold =>
      have htotal := HashTable.total_set hnow.expires deadline_cost hold when_ms
      exact deadline_sound hnow hhere (HashTable.set_perm hnow.expires key _).1
        (HashTable.find_set hnow.expires key when_ms) htotal

theorem persist_sound (key : Key) : (s.persist key).2.Sound := by
  have hsound := (lookup_sound h key true).1
  unfold persist
  dsimp only
  split
  · exact hsound
  · exact (hsound.nearly key).clear_expire

theorem pttl_sound (key : Key) : (s.pttl key).2.Sound := by
  have hsound := (lookup_sound h key false).1
  unfold pttl
  dsimp only
  split
  · exact hsound
  split
  · exact hsound
  · exact hsound.frame rfl rfl rfl rfl rfl

end

theorem find_rehash_step (h : t.Valid) (n : Nat) : (t.rehash_step n).2.find = t.find := by
  obtain ⟨hvalid, hcontents⟩ := HashTable.rehash_step_contents h n
  funext k
  rw [HashTable.find_eq hvalid, hcontents, HashTable.find_eq h]

/-- Rehashing moves entries between the two arrays of a table and changes neither contents
nor cost. -/
theorem rehash_round_sound (h : s.Sound) : Sound { s with
    dict := (s.dict.rehash_step 100).2
    expires := (s.expires.rehash_step 100).2 } := by
  refine ⟨(HashTable.rehash_step_spec h.dict 100).1, (HashTable.rehash_step_spec h.expires 100).1,
    ?_, ?_, ?_⟩
  · rw [find_rehash_step h.dict]
    exact h.linked
  · rw [find_rehash_step h.dict, find_rehash_step h.expires]
    exact h.expires_sub
  · rw [HashTable.total_rehash_step h.dict, HashTable.total_rehash_step h.expires]
    exact h.used_memory

/-! ## Loops

A loop of the store takes turns of four kinds, and what these keep every loop keeps. -/

/-- `t` is `s` after some turns: the clock is read, the tables move entries between their arrays,
the counters are set, or a key is removed and reported. -/
inductive Prunes : Layout → Layout → Prop
  | refl (s : Layout) : Prunes s s
  | read {s t : Layout} : Prunes s.now_ms.2 t → Prunes s t
  | rehash {s t : Layout} : Prunes { s with
      dict := (s.dict.rehash_step 100).2
      expires := (s.expires.rehash_step 100).2 } t → Prunes s t
  | count {s t : Layout} (expired evicted : Nat) :
      Prunes { s with expired_keys := expired, evicted_keys := evicted } t → Prunes s t
  | remove {s t : Layout} (key : Key) : Prunes ((s.remove key).2.notify_deleted key) t → Prunes s t

theorem Prunes.trans {t u : Layout} (h : Prunes s t) (h' : Prunes t u) : Prunes s u := by
  induction h with
  | refl => exact h'
  | read _ ih => exact .read (ih h')
  | rehash _ ih => exact .rehash (ih h')
  | count expired evicted _ ih => exact .count expired evicted (ih h')
  | remove key _ ih => exact .remove key (ih h')

theorem Prunes.sound {t : Layout} (h : Prunes s t) (hs : s.Sound) : t.Sound := by
  induction h with
  | refl => exact hs
  | read _ ih | count _ _ _ ih => exact ih (hs.frame rfl rfl rfl rfl rfl)
  | rehash _ ih => exact ih (rehash_round_sound hs)
  | remove key _ ih => exact ih ((remove_sound hs key).1.frame rfl rfl rfl rfl rfl)

theorem prunes_expire_if_needed (s : Layout) (key : Key) : Prunes s (s.expire_if_needed key).2 := by
  unfold expire_if_needed
  split
  · exact .refl s
  split
  · exact .refl s
  dsimp only
  split
  · exact .read (.refl _)
  split
  · exact .read (.refl _)
  · exact .read (.remove key (.count _ _ (.refl _)))

theorem prunes_evict_if_needed (s : Layout) : Prunes s s.evict_if_needed.2 := by
  have hloop : ∀ (n : Nat) (s : Layout), Prunes s (evict_loop n s).2 := by
    intro n
    induction n with
    | zero => exact .refl
    | succ n ih =>
      intro s
      rw [evict_loop]
      split
      · exact .refl s
      split
      · exact .refl s
      split
      · exact .refl s
      next victim _ => exact .remove victim.2 (.count _ _ (ih _))
  unfold evict_if_needed
  split
  · exact .refl s
  · exact hloop _ s

theorem prunes_expire_samples (now : Int) (draws : List Nat) (s : Layout) :
    Prunes s (expire_samples now draws s).2 := by
  induction draws generalizing s with
  | nil => exact .refl s
  | cons draw draws ih =>
    rw [expire_samples]
    split
    · exact .refl s
    split
    · exact .remove _ (ih _)
    · exact ih s

theorem prunes_active_expire_cycle (s : Layout) (rounds : List (Nat → Nat)) :
    Prunes s (s.active_expire_cycle rounds).2 := by
  have hrounds : Prunes s (expire_rounds rounds s).2 := by
    induction rounds generalizing s with
    | nil => exact .refl s
    | cons draws rounds ih =>
      rw [expire_rounds]
      split
      · exact .refl s
      dsimp only
      split
      · exact .read (prunes_expire_samples _ _ _)
      · exact .read ((prunes_expire_samples _ _ _).trans (ih _))
  unfold active_expire_cycle
  split
  · exact .refl s
  · exact hrounds.trans (.count _ _ (.refl _))

theorem prunes_active_rehash (rounds : Nat) (s : Layout) : Prunes s (active_rehash rounds s).2 := by
  induction rounds generalizing s with
  | zero => exact .refl s
  | succ rounds ih =>
    rw [active_rehash]
    split
    · exact .rehash (ih _)
    · exact .refl s

theorem prunes_delete_loop (slot : Slot) (n : Nat) (s : Layout) :
    Prunes s (delete_loop slot n s).2 := by
  induction n generalizing s with
  | zero => exact .refl s
  | succ n ih =>
    rw [delete_loop]
    split
    · exact .refl s
    split
    · exact .refl s
    · exact .remove _ (ih _)

theorem find_fresh (key : Bytes) : (HashTable.fresh : HashTable V).find key = none := by
  rw [HashTable.find_eq HashTable.Valid.fresh, HashTable.contents_fresh, Finmap.lookup_empty]

/-- Nothing is stored. -/
theorem sound_of_empty (hdict : s.dict = .fresh) (hexpires : s.expires = .fresh) (hlru : s.lru = [])
    (hslots : s.slots = fun _ => []) (hused : s.used_memory = 0) : s.Sound := by
  constructor
  · rw [hdict]
    exact HashTable.Valid.fresh
  · rw [hexpires]
    exact HashTable.Valid.fresh
  · rw [hdict, hlru, hslots]
    refine ⟨NodeList.distinct_nil, fun _ => NodeList.distinct_nil, ?_, ?_⟩
    · intro pos key
      simp [find_fresh]
    · intro slot pos lru_pos
      simp [find_fresh]
  · intro key when_ms hk
    rw [hexpires, find_fresh] at hk
    cases hk
  · rw [hused, hdict, hexpires]
    simp [HashTable.total, HashTable.for_each, HashTable.fresh, HashTable.make_table]

theorem lists_clear_expire (s : Layout) (key : Key) :
    (s.clear_expire key).2.lru = s.lru ∧ (s.clear_expire key).2.slots = s.slots := by
  unfold clear_expire
  dsimp only
  split <;> exact ⟨rfl, rfl⟩

/-! ## Whole runs -/

/-- The public functions; the draws and the rounds stand for chance and the time budget. -/
inductive Call where
  | get (key : Key)
  | exists_key (key : Key)
  | contains (key : Key)
  | set (key : Key) (value : Bytes) (keep_ttl : Bool)
  | del (key : Key)
  | set_expire (key : Key) (when_ms : Int)
  | persist (key : Key)
  | pttl (key : Key)
  | evict_if_needed
  | active_expire_cycle (rounds : List (Nat → Nat))
  | active_rehash (rounds : Nat)
  | delete_slot (slot : Slot)
  | clear
  | set_passive_expiry (on : Bool)

/-- What a call leaves. -/
def call (A : Allocator) (s : Layout) : Call → Layout
  | .get key => (s.get key).2
  | .exists_key key => (s.exists_key key).2
  | .contains key => (s.contains key).2
  | .set key value keep_ttl => s.set A key value keep_ttl
  | .del key => (s.del key).2
  | .set_expire key when_ms => (s.set_expire key when_ms).2
  | .persist key => (s.persist key).2
  | .pttl key => (s.pttl key).2
  | .evict_if_needed => s.evict_if_needed.2
  | .active_expire_cycle rounds => (s.active_expire_cycle rounds).2
  | .active_rehash rounds => (active_rehash rounds s).2
  | .delete_slot slot => (s.delete_slot slot).2
  | .clear => s.clear
  | .set_passive_expiry on => s.set_passive_expiry on

/-- Every public function keeps the invariant. -/
theorem call_sound (A : Allocator) (h : s.Sound) (c : Call) : (s.call A c).Sound := by
  cases c with
  | get key | exists_key key => exact (lookup_sound h key true).1
  | contains key => exact (lookup_sound h key false).1
  | set key value keep_ttl => exact set_sound h A key value keep_ttl
  | del key => exact del_sound h key
  | set_expire key when_ms => exact set_expire_sound h key when_ms
  | persist key => exact persist_sound h key
  | pttl key => exact pttl_sound h key
  | evict_if_needed => exact (prunes_evict_if_needed s).sound h
  | active_expire_cycle rounds => exact (prunes_active_expire_cycle s rounds).sound h
  | active_rehash rounds => exact (prunes_active_rehash rounds s).sound h
  | delete_slot slot => exact (prunes_delete_loop slot _ s).sound h
  | clear => exact sound_of_empty rfl rfl rfl rfl rfl
  | set_passive_expiry on => exact h.frame rfl rfl rfl rfl rfl

theorem sound_run (A : Allocator) (calls : List Call) (h : s.Sound) :
    (calls.foldl (call A) s).Sound := by
  induction calls generalizing s with
  | nil => exact h
  | cons c calls ih => exact ih (call_sound A h c)

/-- What a reader of `store.hpp` expects of the structures. -/
structure Consistent (s : Layout) : Prop where
  /-- `lru_` lists the keys of `dict_`, each once, -/
  lru_nodup : (s.lru.map Prod.snd).Nodup
  mem_lru : ∀ key, key ∈ s.lru.map Prod.snd ↔ key ∈ s.dict.contents
  /-- and the entry of a key has the position of its node; -/
  lru_pos : ∀ key e, s.dict.find key = some e → s.lru.deref e.lru_pos = some key
  /-- `slots_[h]` points at the keys of the slot, each once; -/
  slots_nodup : ∀ slot, (s.slot_keys slot).Nodup
  mem_slots : ∀ slot key, some key ∈ s.slot_keys slot ↔
    key ∈ s.dict.contents ∧ key_hash_slot key = slot
  no_dangling : ∀ slot, none ∉ s.slot_keys slot
  /-- only a key that is there has a deadline; -/
  expires_sub : ∀ key ∈ s.expires.contents, key ∈ s.dict.contents
  /-- and `used_memory_` is what all this costs. -/
  used_memory : s.used_memory =
    ((s.dict.for_each.map fun n => entry_cost n.1 n.2.value.length).sum +
      (s.expires.for_each.map fun n => expire_cost n.1).sum : Nat)

theorem mem_contents_iff (h : t.Valid) {key : Bytes} :
    key ∈ t.contents ↔ ∃ e, t.find key = some e := by
  rw [HashTable.find_eq h, Finmap.mem_iff]

/-- The invariant, read as the header describes the structures. -/
theorem Sound.mem_lru (h : s.Sound) : key ∈ s.lru.map Prod.snd ↔ ∃ e, s.dict.find key = some e := by
  rw [List.mem_map]
  constructor
  · rintro ⟨⟨p, k⟩, hn, rfl⟩
    obtain ⟨e, he, -⟩ := (h.linked.mem_lru _ _).1 hn
    exact ⟨e, he⟩
  · rintro ⟨e, he⟩
    exact ⟨(e.lru_pos, key), (h.linked.mem_lru _ _).2 ⟨e, he, rfl⟩, rfl⟩

theorem Sound.consistent (h : s.Sound) : s.Consistent := by
  -- the position an entry keeps leads back to its key
  have hderef : ∀ key e, s.dict.find key = some e → s.lru.deref e.lru_pos = some key := fun key e he =>
    h.linked.lru_distinct.deref ((h.linked.mem_lru _ _).2 ⟨e, he, rfl⟩)
  constructor
  · apply h.linked.lru_distinct.values_nodup
    rintro ⟨p, k⟩ hn ⟨p', k'⟩ hn' rfl
    obtain ⟨e, he, rfl⟩ := (h.linked.mem_lru _ _).1 hn
    obtain ⟨e', he', rfl⟩ := (h.linked.mem_lru _ _).1 hn'
    rw [he] at he'
    exact congrArg Entry.lru_pos (Option.some.inj he')
  · intro key
    rw [mem_contents_iff h.dict]
    exact h.mem_lru
  · exact hderef
  · intro slot
    refine List.Nodup.map_on ?_ (h.linked.slots_distinct slot).of_map
    rintro ⟨q, p⟩ hn ⟨q', p'⟩ hn' heq
    obtain ⟨k, e, he, -, rfl, rfl⟩ := (h.linked.mem_slots _ _ _).1 hn
    obtain ⟨k', e', he', -, rfl, rfl⟩ := (h.linked.mem_slots _ _ _).1 hn'
    rw [hderef k e he, hderef k' e' he', Option.some.injEq] at heq
    subst heq
    rw [he] at he'
    cases he'
    rfl
  · intro slot key
    rw [mem_contents_iff h.dict, slot_keys, List.mem_map]
    constructor
    · rintro ⟨⟨q, p⟩, hn, heq⟩
      obtain ⟨k, e, he, hslot, rfl, rfl⟩ := (h.linked.mem_slots _ _ _).1 hn
      rw [hderef k e he, Option.some.injEq] at heq
      subst heq
      exact ⟨⟨e, he⟩, hslot⟩
    · rintro ⟨⟨e, he⟩, hslot⟩
      exact ⟨(e.slot_pos, e.lru_pos), (h.linked.mem_slots _ _ _).2 ⟨key, e, he, hslot, rfl, rfl⟩,
        hderef key e he⟩
  · intro slot hnone
    obtain ⟨⟨q, p⟩, hn, heq⟩ := List.mem_map.1 hnone
    obtain ⟨k, e, he, -, rfl, rfl⟩ := (h.linked.mem_slots _ _ _).1 hn
    rw [hderef k e he] at heq
    cases heq
  · intro key hk
    rw [mem_contents_iff h.expires] at hk
    obtain ⟨when_ms, hk⟩ := hk
    rw [mem_contents_iff h.dict]
    exact h.expires_sub key when_ms hk
  · exact h.used_memory

/-- **The structures stay in step**, whatever is called, whatever the clock says and wherever
the nodes are allocated. -/
theorem consistent_run (A : Allocator) (maxmemory : Nat) (policy : EvictionPolicy)
    (clock : Nat → Int) (calls : List Call) :
    (calls.foldl (call A) { maxmemory, policy, clock }).Consistent := by
  exact (sound_run A calls (sound_of_empty rfl rfl rfl rfl rfl)).consistent

end Layout

end EpochKV

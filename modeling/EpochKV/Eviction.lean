/-
Which keys are evicted.

`lru` is in order of last use: `get`, `exists`, `set`, `set_expire` and `persist` move the key
that they find, or create, to the front, and nothing else but keys that leave changes the
order. Eviction takes keys from the back until the counter is within the limit; that it always
gets there is because the counter is exact, so that a store without keys counts 0.
-/
import Mathlib.Algebra.Order.BigOperators.Group.List
import EpochKV.Layout
import EpochKV.Recent

set_option autoImplicit false

namespace EpochKV.Layout

open Text Slots Recent
open EpochKV.Store (entry_cost expire_cost)

/-- The keys, most recently used first. -/
def keys (s : Layout) : List Key := s.lru.map Prod.snd

/-! ## The order -/

variable {e : Entry} {init : NodeList Key} {pos : Pos} {s' : Layout}

section

variable {s : Layout} {key : Key}

theorem Sound.mem_keys (h : s.Sound) : key ∈ s.keys ↔ ∃ e, s.dict.find key = some e :=
  h.mem_lru

theorem Sound.not_mem_keys (h : s.Sound) (hkey : s.dict.find key = none) : key ∉ s.keys := by
  rw [h.mem_keys, hkey]
  rintro ⟨e, he⟩
  exact absurd he nofun

theorem keys_remove (s : Layout) (key : Key) : (s.remove key).2.keys.Sublist s.keys := by
  unfold remove
  split
  · exact List.Sublist.refl _
  · rw [keys, (lists_clear_expire _ key).1]
    exact List.filter_sublist.map Prod.snd

theorem Prunes.keys (h : Prunes s s') : s'.keys.Sublist s.keys := by
  induction h with
  | refl => exact List.Sublist.refl _
  | read _ ih | rehash _ ih | count _ _ _ ih => exact ih
  | remove key _ ih => exact ih.trans (keys_remove _ key)

/-- A node that is moved to the front. -/
theorem keys_splice (h : s.Sound) (he : s.dict.find key = some e) :
    (s.lru.splice e.lru_pos).map Prod.snd = key :: (s.lru.erase e.lru_pos).map Prod.snd
      ∧ key ∉ (s.lru.erase e.lru_pos).map Prod.snd := by
  have hmem : (e.lru_pos, key) ∈ s.lru := (h.linked.mem_lru _ _).2 ⟨e, he, rfl⟩
  have honly : s.lru.filter (fun n => n.1 = e.lru_pos) = [(e.lru_pos, key)] := by
    have hnodup : s.lru.Nodup := h.linked.lru_distinct.of_map
    refine List.perm_singleton.1 ((List.perm_ext_iff_of_nodup (hnodup.filter _) (List.nodup_singleton _)).2 ?_)
    rintro ⟨pos, k⟩
    rw [List.mem_filter, List.mem_singleton, decide_eq_true_iff, Prod.mk.injEq]
    constructor
    · rintro ⟨hn, rfl⟩
      exact ⟨rfl, h.linked.lru_distinct.unique hn hmem⟩
    · rintro ⟨rfl, rfl⟩
      exact ⟨hmem, rfl⟩
  constructor
  · rw [NodeList.splice, honly]
    rfl
  · intro hin
    obtain ⟨⟨pos, k⟩, hn, rfl⟩ := List.mem_map.1 hin
    rw [NodeList.mem_erase, h.linked.mem_lru] at hn
    obtain ⟨⟨e', he', hpos⟩, hne⟩ := hn
    rw [he] at he'
    exact hne ((Option.some.inj he') ▸ hpos).symm

/-- A lookup that touches puts what it finds in front, and otherwise may drop keys. -/
theorem keys_lookup (h : s.Sound) (key : Key) :
    ((s.lookup key true).1 = none ∧ (s.lookup key true).2.keys.Sublist s.keys)
      ∨ ∃ e rest, (s.lookup key true).1 = some e ∧ rest.Sublist s.keys ∧ key ∉ rest
          ∧ (s.lookup key true).2.keys = key :: rest := by
  have hexpire := (prunes_expire_if_needed s key).keys
  have hsound := (expire_if_needed_sound h key).1
  unfold lookup
  dsimp only
  split
  · exact Or.inl ⟨rfl, hexpire⟩
  split
  · exact Or.inl ⟨rfl, hexpire⟩
  next e he =>
    obtain ⟨hfront, hnot⟩ := keys_splice hsound he
    exact Or.inr ⟨e, _, rfl, (List.filter_sublist.map Prod.snd).trans hexpire, hnot, hfront⟩

theorem keys_lookup_false (s : Layout) (key : Key) :
    (s.lookup key false).2.keys.Sublist s.keys := by
  have hexpire := (prunes_expire_if_needed s key).keys
  unfold lookup
  dsimp only
  split
  · exact hexpire
  split <;> exact hexpire

theorem keys_clear_expire (s : Layout) (key : Key) : (s.clear_expire key).2.keys = s.keys := by
  rw [keys, (lists_clear_expire s key).1]
  rfl

/-- The key that a lookup finds. -/
def found (s : Layout) (key : Key) : Option Key :=
  if (s.lookup key true).1.isSome then some key else none

/-- The key that a call uses: it is found, or created. -/
def touched (s : Layout) : Call → Option Key
  | .get key => s.found key
  | .exists_key key => s.found key
  | .set key _ _ => some key
  | .set_expire key _ => s.found key
  | .persist key => s.found key
  | _ => none

/-- What a lookup does to the order, and what may still be taken away after it. -/
theorem reorders_lookup (h : s.Sound) (key : Key) {l : List Key}
    (hl : l = (s.lookup key true).2.keys
      ∨ ((s.lookup key true).1.isSome = true ∧ l.Sublist (s.lookup key true).2.keys ∧ key ∉ l)) :
    Reorders (s.found key) s.keys l := by
  rw [found]
  rcases keys_lookup h key with ⟨hnone, hsub⟩ | ⟨e, rest, hsome, hsub, hnot, hkeys⟩
  · rw [hnone] at hl ⊢
    rcases hl with rfl | ⟨habs, -⟩
    · exact hsub
    · exact absurd habs nofun
  · rw [hkeys] at hl
    rw [hsome]
    rcases hl with rfl | ⟨-, hl, hkey⟩
    · exact ⟨rest, hsub, hnot, Or.inr rfl⟩
    · refine ⟨l, ?_, hkey, Or.inl rfl⟩
      rcases List.sublist_cons_iff.1 hl with hl | ⟨r, rfl, -⟩
      · exact hl.trans hsub
      · exact absurd List.mem_cons_self hkey

theorem reorders_set (A : Allocator) (h : s.Sound) (key : Key) (value : Bytes) (keep_ttl : Bool) :
    Reorders (some key) s.keys (s.set A key value keep_ttl).keys := by
  obtain ⟨hsound, -, hgone⟩ := lookup_sound h key true
  unfold set
  dsimp only
  rcases keys_lookup h key with ⟨hnone, hsub⟩ | ⟨e, rest, hsome, hsub, hnot, hkeys⟩
  · rw [hnone]
    -- the key is not there, or is taken out
    cases hpassive : (s.lookup key true).2.passive_expiry with
    | false => exact ⟨_, hsub, hsound.not_mem_keys (hgone hnone hpassive), Or.inr rfl⟩
    | true =>
      obtain ⟨hremoved, hfind⟩ := remove_sound hsound key
      exact ⟨_, (keys_remove _ key).trans hsub, hremoved.not_mem_keys hfind, Or.inr rfl⟩
  · rw [hsome]
    dsimp only
    refine ⟨rest, hsub, hnot, Or.inr ?_⟩
    split
    · exact hkeys
    · rw [keys_clear_expire]
      exact hkeys

theorem reorders_set_expire (h : s.Sound) (key : Key) (when_ms : Int) :
    Reorders (s.found key) s.keys (s.set_expire key when_ms).2.keys := by
  have hsound := (lookup_sound h key true).1
  unfold set_expire
  dsimp only
  split
  case h_1 => exact reorders_lookup h key (Or.inl rfl)
  case h_2 e hsome =>
    have hnow : (s.lookup key true).2.now_ms.2.Sound := hsound.frame rfl rfl rfl rfl rfl
    obtain ⟨hremoved, hfind⟩ := remove_sound hnow key
    split
    · -- found, and then removed
      exact reorders_lookup h key (Or.inr ⟨Option.isSome_iff_exists.2 ⟨e, hsome⟩,
        keys_remove _ key, hremoved.not_mem_keys hfind⟩)
    split <;> exact reorders_lookup h key (Or.inl rfl)

/-- One call. -/
theorem reorders_call (A : Allocator) (h : s.Sound) (c : Call) :
    Reorders (s.touched c) s.keys (s.call A c).keys := by
  cases c with
  | get key | exists_key key => exact reorders_lookup h key (Or.inl rfl)
  | contains key => exact keys_lookup_false s key
  | set key value keep_ttl => exact reorders_set A h key value keep_ttl
  | del key => exact (keys_remove _ key).trans (keys_lookup_false s key)
  | set_expire key when_ms => exact reorders_set_expire h key when_ms
  | persist key =>
    apply reorders_lookup h key
    left
    show (s.persist key).2.keys = _
    unfold persist
    dsimp only
    split
    · rfl
    · exact keys_clear_expire _ key
  | pttl key =>
    refine List.Sublist.trans ?_ (keys_lookup_false s key)
    show (s.pttl key).2.keys.Sublist _
    unfold pttl
    dsimp only
    split
    · exact List.Sublist.refl _
    split <;> exact List.Sublist.refl _
  | evict_if_needed => exact (prunes_evict_if_needed s).keys
  | active_expire_cycle rounds => exact (prunes_active_expire_cycle s rounds).keys
  | active_rehash rounds => exact (prunes_active_rehash rounds s).keys
  | delete_slot slot => exact (prunes_delete_loop slot _ s).keys
  | clear => exact List.nil_sublist _
  | set_passive_expiry on => exact List.Sublist.refl _

/-! ## Eviction -/

/-- What a key adds to the counter. -/
def cost (s : Layout) (key : Key) : Nat :=
  ((s.dict.find key).elim 0 fun e => entry_cost key e.value.length)
    + ((s.expires.find key).elim 0 fun _ => expire_cost key)

/-- What else `remove` leaves alone. -/
structure Only (s s' : Layout) : Prop where
  maxmemory : s'.maxmemory = s.maxmemory
  policy : s'.policy = s.policy
  deleted : s'.deleted = s.deleted
  clock : s'.clock = s.clock
  reads : s'.reads = s.reads
  passive_expiry : s'.passive_expiry = s.passive_expiry
  expired_keys : s'.expired_keys = s.expired_keys
  evicted_keys : s'.evicted_keys = s.evicted_keys

theorem only_clear_expire (s : Layout) (key : Key) : Only s (s.clear_expire key).2 := by
  unfold clear_expire
  dsimp only
  split <;> exact ⟨rfl, rfl, rfl, rfl, rfl, rfl, rfl, rfl⟩

theorem only_remove (s : Layout) (key : Key) : Only s (s.remove key).2 := by
  unfold remove
  split
  · exact ⟨rfl, rfl, rfl, rfl, rfl, rfl, rfl, rfl⟩
  · unfold clear_expire
    dsimp only
    split <;> exact ⟨rfl, rfl, rfl, rfl, rfl, rfl, rfl, rfl⟩

theorem clear_expire_spec (h : s.expires.Valid) (key : Key) :
    (∀ k, (s.clear_expire key).2.expires.find k = if k = key then none else s.expires.find k)
      ∧ (s.clear_expire key).2.used_memory
          = s.used_memory - ((s.expires.find key).elim 0 fun _ => expire_cost key)
      ∧ (s.clear_expire key).2.dict = s.dict ∧ (s.clear_expire key).2.lru = s.lru := by
  obtain ⟨-, -, hflag⟩ := HashTable.del_perm h key
  rw [← HashTable.find_isSome h] at hflag
  unfold clear_expire
  cases hold : s.expires.find key with
  | none =>
    rw [hold] at hflag
    rw [if_pos (by simpa using hflag)]
    exact ⟨HashTable.find_del h key, (sub_zero _).symm, rfl, rfl⟩
  | some when_ms =>
    rw [hold] at hflag
    rw [if_neg (by simpa using hflag)]
    exact ⟨HashTable.find_del h key, rfl, rfl, rfl⟩

/-- `remove` of a key that is there. -/
theorem remove_spec (h : s.Sound) (he : s.dict.find key = some e) :
    (∀ k, (s.remove key).2.dict.find k = if k = key then none else s.dict.find k)
      ∧ (∀ k, (s.remove key).2.expires.find k = if k = key then none else s.expires.find k)
      ∧ (s.remove key).2.used_memory = s.used_memory - s.cost key
      ∧ (s.remove key).2.lru = s.lru.erase e.lru_pos := by
  unfold remove
  rw [he]
  obtain ⟨hexpires, hused, hdict, hlru⟩ := clear_expire_spec (s := { s with
    used_memory := s.used_memory - entry_cost key e.value.length
    slots := Function.update s.slots (key_hash_slot key)
      ((s.slots (key_hash_slot key)).erase e.slot_pos)
    lru := s.lru.erase e.lru_pos
    dict := (s.dict.del key).2 }) h.expires key
  refine ⟨?_, hexpires, ?_, hlru⟩
  · intro k
    rw [hdict]
    exact HashTable.find_del h.dict key k
  · rw [hused, cost, he]
    dsimp only [Option.elim_some]
    push_cast
    ring

/-- `s'` is `s` without some keys, all of which it had. -/
structure Loses (s : Layout) (gone : List Key) (s' : Layout) : Prop where
  had : ∀ k ∈ gone, ∃ e, s.dict.find k = some e
  nodup : gone.Nodup
  dict : ∀ k, s'.dict.find k = if k ∈ gone then none else s.dict.find k
  expires : ∀ k, s'.expires.find k = if k ∈ gone then none else s.expires.find k

theorem Loses.same (hdict : ∀ k, s'.dict.find k = s.dict.find k)
    (hexpires : ∀ k, s'.expires.find k = s.expires.find k) : Loses s [] s' :=
  ⟨nofun, List.nodup_nil, hdict, hexpires⟩

theorem loses_remove (h : s.Sound) (he : s.dict.find key = some e) : Loses s [key] (s.remove key).2 := by
  obtain ⟨hdict, hexpires, -⟩ := remove_spec h he
  simp only [← List.mem_singleton (b := key)] at hdict hexpires
  refine ⟨fun k hk => ?_, List.nodup_singleton key, hdict, hexpires⟩
  rw [List.mem_singleton.1 hk]
  exact ⟨e, he⟩

/-- What is there afterwards was there before, with the same deadline. -/
theorem Loses.before {gone : List Key} (h : Loses s gone s') {k : Key} (hk : s'.dict.find k = some e) :
    k ∉ gone ∧ s.dict.find k = some e ∧ s'.expires.find k = s.expires.find k := by
  rw [h.dict] at hk
  by_cases hmem : k ∈ gone
  · rw [if_pos hmem] at hk
    exact absurd hk nofun
  · rw [if_neg hmem] at hk
    exact ⟨hmem, hk, (h.expires k).trans (if_neg hmem)⟩

theorem Loses.trans {gone gone' : List Key} {s'' : Layout} (h : Loses s gone s')
    (h' : Loses s' gone' s'') : Loses s (gone ++ gone') s'' where
  had k hk := by
    rcases List.mem_append.1 hk with hk | hk
    · exact h.had k hk
    · obtain ⟨e, he⟩ := h'.had k hk
      exact ⟨e, (h.before he).2.1⟩
  nodup := by
    refine List.nodup_append'.2 ⟨h.nodup, h'.nodup, fun k hk hk' => ?_⟩
    obtain ⟨e, he⟩ := h'.had k hk'
    exact (h.before he).1 hk
  dict k := by
    rw [h'.dict, h.dict]
    by_cases hk : k ∈ gone <;> by_cases hk' : k ∈ gone' <;> simp [hk, hk']
  expires k := by
    rw [h'.expires, h.expires]
    by_cases hk : k ∈ gone <;> by_cases hk' : k ∈ gone' <;> simp [hk, hk']

/-- The last node is the one that `remove` of its key takes out. -/
theorem erase_last (h : s.Sound) (hlru : s.lru = init ++ [(pos, key)]) :
    ∃ e, s.dict.find key = some e ∧ s.lru.erase e.lru_pos = init := by
  have hmem : (pos, key) ∈ s.lru := by
    rw [hlru]
    exact List.mem_append_right _ List.mem_cons_self
  obtain ⟨e, he, rfl⟩ := (h.linked.mem_lru _ _).1 hmem
  refine ⟨e, he, ?_⟩
  have hdistinct := h.linked.lru_distinct
  rw [hlru, NodeList.Distinct, NodeList.positions, List.map_append, List.nodup_append] at hdistinct
  rw [hlru, NodeList.erase, List.filter_append, List.filter_eq_self.2, List.filter_cons_of_neg]
  · exact List.append_nil init
  · simp
  · intro n hn
    apply decide_eq_true
    exact hdistinct.2.2 n.1 (List.mem_map_of_mem hn) e.lru_pos List.mem_cons_self

/-- A store without keys counts 0. -/
theorem used_memory_of_nil (h : s.Sound) (hnil : s.lru = []) : s.used_memory = 0 := by
  have hdict : ∀ k, s.dict.find k = none := by
    intro k
    by_contra hne
    obtain ⟨e, he⟩ := Option.ne_none_iff_exists'.1 hne
    have hmem := h.mem_keys.2 ⟨e, he⟩
    rw [keys, hnil] at hmem
    exact absurd hmem List.not_mem_nil
  have hnone : s.dict.for_each = [] := by
    refine List.eq_nil_iff_forall_not_mem.2 ?_
    rintro ⟨k, e⟩ hmem
    rw [HashTable.mem_for_each h.dict, hdict] at hmem
    exact absurd hmem nofun
  have hnone' : s.expires.for_each = [] := by
    refine List.eq_nil_iff_forall_not_mem.2 ?_
    rintro ⟨k, when_ms⟩ hmem
    rw [HashTable.mem_for_each h.expires] at hmem
    obtain ⟨e, he⟩ := h.expires_sub k when_ms hmem
    rw [hdict] at he
    exact absurd he nofun
  rw [h.used_memory, HashTable.total, HashTable.total, hnone, hnone']
  rfl

/-- The counter without some of the keys. -/
def used_without (s : Layout) (victims : NodeList Key) : Int :=
  s.used_memory - (victims.map fun n => s.cost n.2).sum

/-- **Eviction**: the keys at the back of `lru` are removed, the last one first, as few as bring
the counter within the limit; the rest is as it was. -/
structure Evicts (s : Layout) (r : Bool × Layout) (kept victims : NodeList Key) : Prop where
  result : r.1 = true
  split : s.lru = kept ++ victims
  lru : r.2.lru = kept
  dict : ∀ k, r.2.dict.find k = if k ∈ victims.map Prod.snd then none else s.dict.find k
  expires : ∀ k, r.2.expires.find k = if k ∈ victims.map Prod.snd then none else s.expires.find k
  used_memory : r.2.used_memory = s.used_without victims
  enough : s.used_without victims ≤ s.maxmemory
  shortest : ∀ kept' victims', s.lru = kept' ++ victims' → victims'.length < victims.length →
    s.maxmemory < s.used_without victims'
  /-- The listener is told in the order of removal. -/
  order : r.2.deleted = s.deleted ++ (victims.map Prod.snd).reverse

theorem evicts_none (h : s.used_memory ≤ s.maxmemory) : Evicts s (true, s) s.lru [] where
  result := rfl
  split := (List.append_nil _).symm
  lru := rfl
  dict k := by rw [if_neg (by simp)]
  expires k := by rw [if_neg (by simp)]
  used_memory := (sub_zero _).symm
  enough := le_of_eq_of_le (sub_zero _) h
  shortest _ _ _ hlt := absurd hlt (Nat.not_lt_zero _)
  order := (List.append_nil _).symm

/-- What is found once a key and then others are gone. -/
theorem find_without_append {β : Type} (victims : NodeList Key) (pos : Pos) (key k : Key)
    (found : Option β) :
    (if k ∈ victims.map Prod.snd then none else if k = key then none else found) =
      if k ∈ (victims ++ [(pos, key)]).map Prod.snd then none else found := by
  have hmem : k ∈ (victims ++ [(pos, key)]).map Prod.snd ↔ k ∈ victims.map Prod.snd ∨ k = key := by
    rw [List.map_append, List.mem_append]
    exact or_congr_right List.mem_singleton
  by_cases hk : k = key
  · rw [if_pos hk, ite_self, if_pos (hmem.2 (Or.inr hk))]
  · rw [if_neg hk]
    exact if_congr (hmem.trans (or_iff_left hk)).symm rfl rfl

/-- The keys in front of the victim are other keys, and cost what they did. -/
theorem used_without_append {key : Key} (pos : Pos) {v : NodeList Key} (hkey : key ∉ v.map Prod.snd)
    (hdict : ∀ k, s'.dict.find k = if k = key then none else s.dict.find k)
    (hexpires : ∀ k, s'.expires.find k = if k = key then none else s.expires.find k)
    (hused : (s'.used_memory : Int) = s.used_memory - s.cost key) :
    s'.used_without v = s.used_without (v ++ [(pos, key)]) := by
  have hsame : (v.map fun n => s'.cost n.2) = v.map fun n => s.cost n.2 := by
    refine List.map_congr_left fun n hn => ?_
    have hne : n.2 ≠ key := fun hk => hkey (hk ▸ List.mem_map_of_mem hn)
    rw [cost, cost, hdict, hexpires, if_neg hne, if_neg hne]
  rw [used_without, used_without, hsame, hused, List.map_append, List.sum_append]
  simp only [List.map_cons, List.map_nil, List.sum_cons, List.sum_nil, Nat.add_zero]
  push_cast
  ring

/-- One more victim. -/
theorem Evicts.cons (h : s.Sound) {kept victims : NodeList Key} {r : Bool × Layout}
    (hlru : s.lru = init ++ [(pos, key)]) (hover : s.maxmemory < s.used_memory) (evicted : Nat)
    (hr : Evicts (notify_deleted { (s.remove key).2 with evicted_keys := evicted } key) r kept victims) :
    Evicts s r kept (victims ++ [(pos, key)]) := by
  obtain ⟨e, he, herase⟩ := erase_last h hlru
  obtain ⟨hdict, hexpires, hused, hlru₁⟩ := remove_spec h he
  rw [herase] at hlru₁
  set s' := notify_deleted { (s.remove key).2 with evicted_keys := evicted } key
  change ∀ k, s'.dict.find k = _ at hdict
  change ∀ k, s'.expires.find k = _ at hexpires
  change s'.used_memory = _ at hused
  change s'.lru = _ at hlru₁
  have hmax : s'.maxmemory = s.maxmemory := (only_remove s key).maxmemory
  have hdeleted : s'.deleted = s.deleted ++ [key] := congrArg (· ++ [key]) (only_remove s key).deleted
  have hkeys : key ∉ init.map Prod.snd := by
    have hnodup := h.consistent.lru_nodup
    rw [hlru, List.map_append, List.nodup_append] at hnodup
    intro hin
    exact hnodup.2.2 key hin key List.mem_cons_self rfl
  -- what is left without `v` after this victim is what is left without both
  have hcost : ∀ v : NodeList Key, v.Sublist init →
      s'.used_without v = s.used_without (v ++ [(pos, key)]) := by
    intro v hv
    have hnot : key ∉ v.map Prod.snd := fun hin => hkeys ((hv.map Prod.snd).subset hin)
    exact used_without_append pos hnot hdict hexpires hused
  have hvictims : victims.Sublist init := by
    rw [← hlru₁, hr.split]
    exact List.sublist_append_right kept victims
  constructor
  · exact hr.result
  · rw [hlru, ← hlru₁, hr.split, List.append_assoc]
  · exact hr.lru
  · intro k
    rw [hr.dict, hdict]
    exact find_without_append victims pos key k _
  · intro k
    rw [hr.expires, hexpires]
    exact find_without_append victims pos key k _
  · rw [hr.used_memory, hcost victims hvictims]
  · rw [← hcost victims hvictims, ← hmax]
    exact hr.enough
  · -- fewer victims of `s` are fewer victims after this one, or none
    intro kept' victims' hsplit hshort
    rcases List.eq_nil_or_concat victims' with rfl | ⟨rest, last, rfl⟩
    · rw [used_without, List.map_nil, List.sum_nil]
      simpa using hover
    · rw [List.concat_eq_append] at hsplit hshort ⊢
      have heq := hlru.symm.trans hsplit
      rw [← List.append_assoc] at heq
      obtain ⟨hinit, hlast⟩ := List.append_inj' heq rfl
      cases hlast
      rw [← hcost rest (hinit ▸ List.sublist_append_right kept' rest), ← hmax]
      refine hr.shortest kept' rest (hlru₁.trans hinit) ?_
      rw [List.length_append, List.length_append] at hshort
      exact Nat.lt_of_add_lt_add_right hshort
  · rw [hr.order, hdeleted, List.map_append, List.reverse_append, List.append_assoc]
    rfl

theorem evict_loop_spec (n : Nat) (h : s.Sound) (hpolicy : s.policy = .kAllKeysLru)
    (hn : s.lru.length ≤ n) : ∃ kept victims, Evicts s (evict_loop n s) kept victims := by
  -- on the rounds: a store without keys counts 0, so while it is over the limit there is a last key
  induction n generalizing s with
  | zero =>
    have hnil : s.lru = [] := List.length_eq_zero_iff.1 (Nat.le_zero.1 hn)
    have hle : s.used_memory ≤ s.maxmemory := by
      rw [used_memory_of_nil h hnil]
      exact Int.natCast_nonneg _
    refine ⟨s.lru, [], ?_⟩
    rw [evict_loop, decide_eq_true hle]
    exact evicts_none hle
  | succ n ih =>
    rw [evict_loop]
    split
    case isTrue hle => exact ⟨s.lru, [], evicts_none hle⟩
    case isFalse hover =>
      rw [if_neg (by rw [hpolicy]; decide)]
      rcases List.eq_nil_or_concat s.lru with hnil | ⟨init, ⟨pos, key⟩, hlru⟩
      · rw [used_memory_of_nil h hnil] at hover
        exact absurd (Int.natCast_nonneg _) hover
      · rw [List.concat_eq_append] at hlru
        obtain ⟨e, he, herase⟩ := erase_last h hlru
        obtain ⟨-, -, -, hlru₁⟩ := remove_spec h he
        have hlast : s.lru.getLast? = some (pos, key) := by
          rw [hlru]
          exact List.getLast?_concat
        rw [hlast]
        have hsound : (notify_deleted { (s.remove key).2 with
            evicted_keys := (s.remove key).2.evicted_keys + 1 } key).Sound :=
          (remove_sound h key).1.frame rfl rfl rfl rfl rfl
        have hlen : (s.remove key).2.lru.length ≤ n := by
          rw [hlru₁, herase]
          rw [hlru, List.length_append] at hn
          exact Nat.le_of_succ_le_succ hn
        obtain ⟨kept, victims, hr⟩ := ih hsound ((only_remove s key).policy.trans hpolicy) hlen
        exact ⟨kept, victims ++ [(pos, key)], hr.cons h hlru (not_le.1 hover) _⟩

/-! ## Whole runs -/

end

/-- A call, with the history of the keys that were used. -/
def step (A : Allocator) (r : Layout × List (Option Key)) (c : Call) : Layout × List (Option Key) :=
  (r.1.call A c, r.1.touched c :: r.2)

theorem ordered_run (A : Allocator) (calls : List Call) {r : Layout × List (Option Key)}
    (h : r.1.Sound) (hr : Ordered r.2 r.1.keys) :
    (calls.foldl (step A) r).1.Sound
      ∧ Ordered (calls.foldl (step A) r).2 (calls.foldl (step A) r).1.keys := by
  induction calls generalizing r with
  | nil => exact ⟨h, hr⟩
  | cons c calls ih => exact ih (call_sound A h c) (hr.reorders (reorders_call A h c))

/-- **Eviction is exactly LRU.** After any sequence of calls, `lru` lists the keys in order of
their last use, and `evict_if_needed` with a limit removes the shortest part at the end of it
that brings the counter within the limit, from the back, and nothing else. -/
theorem lru_is_exact (A : Allocator) (maxmemory : Nat) (policy : EvictionPolicy)
    (clock : Nat → Int) (calls : List Call) :
    let r := calls.foldl (step A) ({ maxmemory, policy, clock }, [])
    (∀ k, k ∈ r.1.keys ↔ ∃ e, r.1.dict.find k = some e)
      ∧ Ordered r.2 r.1.keys
      ∧ (r.1.policy = .kAllKeysLru → r.1.maxmemory ≠ 0 →
          ∃ kept victims, Evicts r.1 r.1.evict_if_needed kept victims) := by
  obtain ⟨hsound, hordered⟩ := ordered_run A calls (r := ({ maxmemory, policy, clock }, []))
    (sound_of_empty rfl rfl rfl rfl rfl) Ordered.nil
  refine ⟨fun k => hsound.mem_keys, hordered, fun hpolicy hmax => ?_⟩
  rw [evict_if_needed, if_neg hmax]
  exact evict_loop_spec _ hsound hpolicy le_rfl

/-- Positions are handed out upwards. -/
def upwards : Allocator where
  pick _ inUse := inUse.sum + 1
  unused _ inUse h := by
    have hle := List.single_le_sum (fun x _ => Nat.zero_le x) _ h
    omega

/-- `a` was used after `b` was stored. -/
def two_keys : Layout × List (Option Key) :=
  [.set (lit "a") [] false, .set (lit "b") [] false, .get (lit "a")].foldl (step upwards)
    ({ maxmemory := 200, policy := .kAllKeysLru, clock := fun _ => 0 }, [])

theorem lru_is_exact_two_keys :
    two_keys.1.keys = [lit "a", lit "b"] ∧ two_keys.1.evict_if_needed.2.keys = [lit "a"]
      ∧ ∃ kept victims, Evicts two_keys.1 two_keys.1.evict_if_needed kept victims := by
  refine ⟨by decide +kernel, by decide +kernel, ?_⟩
  exact (lru_is_exact upwards 200 .kAllKeysLru (fun _ => 0) _).2.2 (by decide +kernel) (by decide +kernel)

end EpochKV.Layout

/-
The store as it is laid out, and the store as the rest of the server sees it.

`store.cpp` is modelled twice. `Layout` has its hash tables, its linked lists and their
iterators; `Store` has four tables that are consistent by construction, and it is `Store`
that the commands, the log and the replication are modelled over. Nothing would be known of
the program if the two disagreed. They do not: `Shows` relates a layout to the store it
implements, every public function keeps it and answers the same, and so no sequence of calls
tells the two apart (`layout_refines_store`).

The proof goes by the elementary changes. `Fills` says that a layout has the tables of a
store; a key is taken out, put in, overwritten, used, or its deadline changes, and each of
these is done to the lists through iterators on one side and by key on the other. The public
functions are the same compositions of them on both sides. Only `random_entry` is not: the
entry that is drawn depends on the order of the entries, which is nobody's business in
`Store`, so the same key takes another draw there.
-/
import EpochKV.Eviction
import EpochKV.Runs

set_option autoImplicit false

namespace EpochKV.Layout

open Text Slots Keyspace
open EpochKV.Store (entry_cost expire_cost kExpireSamplesPerLoop)

/-! ## The relation -/

/-- What is stored under each key. -/
def view (l : Layout) : Space Key Bytes Int := fun k =>
  (l.dict.find k).map fun e => (e.value, l.expires.find k)

/-- The node of a key in the list of its slot, with what it points at. -/
def node (l : Layout) (k : Key) : Pos × Pos :=
  ((l.dict.find k).elim 0 Entry.slot_pos, (l.dict.find k).elim 0 Entry.lru_pos)

/-- The layout has these tables, and counts this much memory. -/
structure Fills (l : Layout) (t : Tables) (used : Nat) : Prop where
  sound : l.Sound
  view : l.view = t.view
  lru : l.keys = t.lru
  slots : ∀ slot, l.slots slot = (t.slots slot).map l.node
  used_memory : l.used_memory = used

/-- The layout is one of the store. What its listener was told is what the store has handed to
the propagator. -/
structure Shows (l : Layout) (s : Store) : Prop where
  fills : Fills l s.tables s.used_memory
  maxmemory : l.maxmemory = s.maxmemory
  policy : l.policy = s.policy
  clock : ∀ n, l.clock n = s.clock n
  reads : l.reads = s.reads
  passive_expiry : l.passive_expiry = s.passive_expiry
  expired_keys : l.expired_keys = s.expired_keys
  evicted_keys : l.evicted_keys = s.evicted_keys
  journal : s.journal = s.heard (l.deleted.map fun key => [lit "DEL", key])

variable {l l' : Layout} {t t' : Tables} {used used' : Nat} {s s' : Store} {key : Key} {e : Entry}

section

variable (h : Fills l t used)
include h

theorem Fills.dict (k : Key) : (l.dict.find k).map Entry.value = t.dict.lookup k := by
  have hview := congrArg (Option.map Prod.fst) (congrFun h.view k)
  simpa only [Layout.view, Tables.view, Option.map_map, Function.comp_def, Option.map_id'] using hview

/-- Only a key that is there has a deadline, on either side. -/
theorem Fills.expires (k : Key) : l.expires.find k = t.expires.lookup k := by
  have hview := congrFun h.view k
  have hdict := h.dict k
  unfold Layout.view Tables.view at hview
  cases he : l.dict.find k with
  | none =>
    have hnot : k ∉ t.dict := AList.lookup_eq_none.1 (by rw [← hdict, he]; rfl)
    rw [AList.lookup_eq_none.2 fun hk => hnot (t.expires_sub k hk), Option.eq_none_iff_forall_ne_some]
    intro d hd
    obtain ⟨e, he'⟩ := h.sound.expires_sub k d hd
    rw [he] at he'
    cases he'
  | some e =>
    rw [he, Option.map_some] at hdict
    rw [he, ← hdict, Option.map_some, Option.map_some, Option.some.injEq] at hview
    exact (Prod.ext_iff.1 hview).2

theorem Fills.mem_dict : key ∈ t.dict ↔ ∃ e, l.dict.find key = some e := by
  rw [← AList.lookup_isSome, ← h.dict, Option.isSome_map, Option.isSome_iff_exists]

theorem Fills.mem_expires : key ∈ t.expires ↔ (l.expires.find key).isSome = true := by
  rw [h.expires, AList.lookup_isSome]

theorem Fills.deadline_cost : ((l.expires.find key).elim 0 fun _ => expire_cost key) =
    if key ∈ t.expires then expire_cost key else 0 := by
  rw [if_congr h.mem_expires rfl rfl]
  cases l.expires.find key <;> rfl

/-- The tables may be written in another way. -/
theorem Fills.congr (hview : t'.view = t.view) (hlru : t'.lru = t.lru)
    (hslots : ∀ slot, t'.slots slot = t.slots slot) : Fills l t' used :=
  ⟨h.sound, h.view.trans hview.symm, h.lru.trans hlru.symm,
    fun slot => (h.slots slot).trans (congrArg _ (hslots slot).symm), h.used_memory⟩

/-- The clock, the flags and the counters of keys are not part of it. -/
theorem Fills.frame (hdict : l'.dict = l.dict) (hexpires : l'.expires = l.expires)
    (hlru : l'.lru = l.lru) (hslots : l'.slots = l.slots) (hused : l'.used_memory = l.used_memory) :
    Fills l' t used where
  sound := h.sound.frame hdict hexpires hlru hslots hused
  view := by
    rw [← h.view]
    unfold Layout.view
    rw [hdict, hexpires]
  lru := by rw [keys, hlru, ← keys, h.lru]
  slots slot := by
    rw [hslots, h.slots]
    unfold node
    rw [hdict]
  used_memory := hused.trans h.used_memory

end

/-! ## Elementary changes -/

theorem Sound.nonneg (h : l.Sound) : 0 ≤ l.used_memory := by
  rw [h.used_memory]
  exact Int.natCast_nonneg _

theorem apply_eq_ite {α : Type} (f : Key → α) (key k : Key) : f k = if k = key then f key else f k := by
  split
  next heq => rw [heq]
  next => rfl

/-- One key changes. -/
theorem view_update (l : Layout) {x : Option Entry} {y : Option Int}
    (hdict : ∀ k, l'.dict.find k = if k = key then x else l.dict.find k)
    (hexpires : ∀ k, l'.expires.find k = if k = key then y else l.expires.find k) :
    l'.view = Function.update l.view key (x.map fun e => (e.value, y)) := by
  funext k
  rw [view, hdict, hexpires, Function.update_apply]
  split <;> rfl

/-- The entry stays, and its deadline changes. -/
theorem view_deadline (l l' : Layout) (hdict : l'.dict = l.dict) {y : Option Int}
    (hexpires : ∀ k, l'.expires.find k = if k = key then y else l.expires.find k) :
    l'.view = Function.update l.view key ((l.view key).map fun v => (v.1, y)) := by
  rw [view_update l (by rw [hdict]; exact apply_eq_ite _ key) hexpires, view, Option.map_map]
  rfl

/-- Unlinking the node of a key takes the key out of the order. -/
theorem keys_erase (h : l.Sound) (he : l.dict.find key = some e) :
    (l.lru.erase e.lru_pos).map Prod.snd = l.keys.erase key := by
  have hnodup : l.keys.Nodup := h.consistent.lru_nodup
  rw [hnodup.erase_eq_filter, keys, NodeList.erase, List.filter_map]
  refine congrArg (List.map Prod.snd) (List.filter_congr ?_)
  rintro ⟨pos, k⟩ hn
  obtain ⟨e', he', rfl⟩ := (h.linked.mem_lru pos k).1 hn
  rw [Bool.eq_iff_iff, decide_eq_true_iff, Function.comp_apply, bne_iff_ne]
  refine not_congr ⟨fun hpos => h.linked.lru_pos_inj he he' hpos, fun hk => ?_⟩
  rw [show k = key from hk, he] at he'
  exact congrArg Entry.lru_pos (Option.some.inj he').symm

theorem fills_clear_expire (h : Fills l t used) (key : Key) :
    (l.clear_expire key).1 = decide (key ∈ t.expires) ∧
      Fills (l.clear_expire key).2 (t.clearDeadline key)
        (used - if key ∈ t.expires then expire_cost key else 0) := by
  obtain ⟨hexpires, hused, hdict, hlru⟩ := clear_expire_spec h.sound.expires key
  have hsound : (l.clear_expire key).2.Sound := (h.sound.nearly key).clear_expire
  have hflag : (l.clear_expire key).1 = (l.expires.find key).isSome := by
    obtain ⟨-, -, hflag⟩ := HashTable.del_perm h.sound.expires key
    rw [← HashTable.find_isSome h.sound.expires] at hflag
    unfold clear_expire
    dsimp only
    rw [← Bool.eq_iff_iff.2 hflag]
    split
    next hno => exact (Bool.eq_false_iff.2 hno).symm
    next hyes => exact (not_not.1 hyes).symm
  refine ⟨?_, hsound, ?_, ?_, fun slot => ?_, ?_⟩
  · rw [hflag, Bool.eq_iff_iff, decide_eq_true_iff, h.mem_expires]
  · rw [view_deadline l _ hdict hexpires, h.view, Tables.view_clearDeadline]
  · rw [keys, hlru, ← keys, h.lru]
    rfl
  · rw [(lists_clear_expire l key).2, h.slots]
    unfold node
    rw [hdict]
    rfl
  · have hnonneg := hsound.nonneg
    rw [hused, h.used_memory, h.deadline_cost] at hnonneg ⊢
    omega

theorem fills_remove (h : Fills l t used) (he : l.dict.find key = some e) :
    Fills (l.remove key).2 (t.unlink key)
      (used - entry_cost key e.value.length - if key ∈ t.expires then expire_cost key else 0) := by
  obtain ⟨hdict, hexpires, hused, hlru⟩ := remove_spec h.sound he
  have hsound := (remove_sound h.sound key).1
  refine ⟨hsound, ?_, ?_, fun slot => ?_, ?_⟩
  · rw [view_update l hdict hexpires, h.view, Tables.view_unlink]
    rfl
  · rw [keys, hlru, keys_erase h.sound he, h.lru]
    rfl
  · have hupdate : (l.remove key).2.slots =
        Function.update l.slots (key_hash_slot key) ((l.slots (key_hash_slot key)).erase e.slot_pos) := by
      unfold remove
      simp only [he, (lists_clear_expire _ key).2]
    have hnode : ∀ k, k ≠ key → (l.remove key).2.node k = l.node k := by
      intro k hk
      unfold node
      rw [hdict, if_neg hk]
    rw [hupdate]
    unfold Tables.unlink
    dsimp only
    by_cases hslot : slot = key_hash_slot key
    · subst hslot
      rw [Function.update_self, Function.update_self, h.slots, NodeList.erase, List.filter_map,
        (t.slots_nodup _).erase_eq_filter]
      have hsame : ∀ k ∈ t.slots (key_hash_slot key),
          ((fun n : Pos × Pos => decide (n.1 ≠ e.slot_pos)) ∘ l.node) k = (k != key) := by
        intro k hk
        obtain ⟨hthere, hin⟩ := (t.mem_slots _ k).1 hk
        obtain ⟨e', he'⟩ := h.mem_dict.1 hthere
        rw [Function.comp_apply, node, he', Bool.eq_iff_iff, decide_eq_true_iff, bne_iff_ne]
        refine not_congr ⟨h.sound.linked.slot_pos_inj he he' hin, fun hk => ?_⟩
        rw [hk, he] at he'
        exact congrArg Entry.slot_pos (Option.some.inj he').symm
      rw [List.filter_congr hsame]
      exact List.map_congr_left fun k hk => (hnode k (bne_iff_ne.1 (List.mem_filter.1 hk).2)).symm
    · rw [Function.update_of_ne hslot, Function.update_of_ne hslot, h.slots]
      refine List.map_congr_left fun k hk => (hnode k fun heq => hslot ?_).symm
      rw [← ((t.mem_slots slot k).1 hk).2, heq]
  · have hnonneg := hsound.nonneg
    rw [hused, h.used_memory, cost, h.deadline_cost, he] at hnonneg ⊢
    dsimp only [Option.elim_some] at hnonneg ⊢
    omega

/-- A key that is used moves to the front. -/
theorem fills_touch (h : Fills l t used) (he : l.dict.find key = some e) :
    Fills { l with lru := l.lru.splice e.lru_pos } (t.touch key) used := by
  have hlists : (t.touch key).lru = key :: t.lru.erase key ∧ (t.touch key).slots = t.slots := by
    unfold Tables.touch
    rw [dif_pos (h.mem_dict.2 ⟨e, he⟩)]
    exact ⟨rfl, rfl⟩
  refine ⟨⟨h.sound.dict, h.sound.expires, h.sound.linked.touch _, h.sound.expires_sub,
    h.sound.used_memory⟩, h.view.trans (Tables.view_touch t key).symm, ?_, ?_, h.used_memory⟩
  · rw [hlists.1, keys, (keys_splice h.sound he).1, keys_erase h.sound he, h.lru]
  · rw [hlists.2]
    exact h.slots

/-- A key that is not there gets an entry. -/
theorem fills_link (A : Allocator) (h : Fills l t used) (hkey : l.dict.find key = none) (value : Bytes) :
    Fills (l.link A key value) (t.link key value) (used + entry_cost key value.length) := by
  have hnot : key ∉ t.dict := by
    rw [h.mem_dict, hkey]
    nofun
  have hno : l.expires.find key = none := by
    rw [h.expires, AList.lookup_eq_none.2 fun hk => hnot (t.expires_sub key hk)]
  have hfind := HashTable.find_set h.sound.dict key
    ⟨value, A.pick l.nodes l.lru.positions,
      A.pick (l.nodes + 1) (l.slots (key_hash_slot key)).positions⟩
  refine ⟨link_sound h.sound A hkey value, ?_, ?_, fun slot => ?_, ?_⟩
  · have hsame := apply_eq_ite l.expires.find key
    rw [hno] at hsame
    refine Eq.trans (view_update l hfind hsame) ?_
    rw [Tables.view_link, h.view]
    rfl
  · show key :: l.keys = key :: t.lru.erase key
    rw [h.lru, List.erase_of_not_mem fun hin => hnot ((t.mem_lru key).1 hin)]
  · have hfree : ∀ slot, (t.slots slot).erase key = t.slots slot := fun slot =>
      List.erase_of_not_mem fun hin => hnot ((t.mem_slots slot key).1 hin).1
    -- the nodes of the others are where they were
    have hold : (t.slots slot).map (l.link A key value).node = l.slots slot := by
      rw [h.slots]
      refine List.map_congr_left fun k hk => ?_
      have hne : k ≠ key := fun heq => hnot (heq ▸ ((t.mem_slots slot k).1 hk).1)
      unfold node
      rw [show (l.link A key value).dict.find k = l.dict.find k from (hfind k).trans (if_neg hne)]
    unfold Tables.link Tables.unlink
    dsimp only
    by_cases hslot : slot = key_hash_slot key
    · subst hslot
      rw [Function.update_self, Function.update_self, hfree, List.map_cons, hold, node,
        show (l.link A key value).dict.find key = some _ from (hfind key).trans (if_pos rfl)]
      exact Function.update_self ..
    · rw [Function.update_of_ne hslot, Function.update_of_ne hslot, hold]
      exact Function.update_of_ne hslot ..
  · show l.used_memory + entry_cost key value.length = _
    rw [h.used_memory]
    rfl

theorem fills_assign (h : Fills l t used) (he : l.dict.find key = some e) (value : Bytes) :
    Fills { l with
      used_memory := l.used_memory - e.value.length + value.length
      dict := l.dict.assign key { e with value := value } } (t.assign key value)
      (used - e.value.length + value.length) := by
  have hlists : (t.assign key value).lru = t.lru ∧ (t.assign key value).slots = t.slots := by
    unfold Tables.assign
    split <;> exact ⟨rfl, rfl⟩
  have hfind := HashTable.find_assign h.sound.dict he { e with value := value }
  refine ⟨assign_sound h.sound he value, ?_, ?_, fun slot => ?_, ?_⟩
  · have hkey : l.view key = some (e.value, l.expires.find key) := by
      rw [view, he]
      rfl
    refine Eq.trans (view_update l hfind (apply_eq_ite l.expires.find key)) ?_
    rw [Tables.view_assign, ← h.view, hkey]
    rfl
  · exact h.lru.trans hlists.1.symm
  · rw [hlists.2]
    refine (h.slots slot).trans (List.map_congr_left fun k _ => ?_)
    unfold node
    rw [hfind]
    split
    next heq => rw [heq, he]; rfl
    next => rfl
  · -- what the entry costs is counted, so nothing is cut off
    have hle : e.value.length ≤ used := by
      have hrest := (remove_sound h.sound key).1.nonneg
      rw [(remove_spec h.sound he).2.2.1, h.used_memory, cost, he] at hrest
      dsimp only [Option.elim_some, entry_cost] at hrest
      omega
    show l.used_memory - e.value.length + value.length = _
    rw [h.used_memory]
    push_cast [hle]
    ring

/-- A deadline for a key that is there. -/
theorem fills_setDeadline (h : Fills l t used) (he : l.dict.find key = some e) (when_ms : Int)
    {x : HashTable Int} {cost : Nat} (hx : x.Valid)
    (hfind : ∀ k, x.find k = if k = key then some when_ms else l.expires.find k)
    (htotal : x.total deadline_cost = l.expires.total deadline_cost + cost) :
    Fills { l with expires := x, used_memory := l.used_memory + cost } (t.setDeadline key when_ms)
      (used + cost) := by
  have hlists : (t.setDeadline key when_ms).lru = t.lru ∧ (t.setDeadline key when_ms).slots = t.slots := by
    unfold Tables.setDeadline
    split <;> exact ⟨rfl, rfl⟩
  refine ⟨deadline_sound h.sound he hx hfind htotal, ?_, h.lru.trans hlists.1.symm, ?_, ?_⟩
  · refine Eq.trans (view_deadline l { l with expires := x, used_memory := _ } rfl hfind) ?_
    rw [Tables.view_setDeadline, h.view]
  · rw [hlists.2]
    exact h.slots
  · show l.used_memory + cost = _
    rw [h.used_memory]
    rfl

/-- Nothing is stored. -/
theorem fills_empty (hdict : l.dict = .fresh) (hexpires : l.expires = .fresh) (hlru : l.lru = [])
    (hslots : l.slots = fun _ => []) (hused : l.used_memory = 0) : Fills l .empty 0 := by
  refine ⟨sound_of_empty hdict hexpires hlru hslots hused, funext fun k => ?_, ?_, fun slot => ?_, hused⟩
  · rw [view, hdict, find_fresh]
    rfl
  · rw [keys, hlru]
    rfl
  · rw [hslots]
    rfl

theorem fills_rehash (h : Fills l t used) : Fills { l with
    dict := (l.dict.rehash_step 100).2
    expires := (l.expires.rehash_step 100).2 } t used := by
  have hdict := find_rehash_step h.sound.dict 100
  refine ⟨rehash_round_sound h.sound, ?_, h.lru, fun slot => ?_, h.used_memory⟩
  · rw [← h.view]
    unfold view
    rw [hdict, find_rehash_step h.sound.expires]
  · refine (h.slots slot).trans ?_
    unfold node
    rw [hdict]

/-- The deadlines are the same, in some order. -/
theorem Fills.perm (h : Fills l t used) : l.expires.for_each.Perm t.expires.entries := by
  refine List.lookup_ext h.sound.expires.nodup t.expires.nodupKeys fun k d => ?_
  rw [HashTable.dlookup_for_each h.sound.expires, h.expires]
  rfl

theorem Fills.size (h : Fills l t used) : l.expires.size = t.expires.entries.length :=
  h.sound.expires.count.trans h.perm.length_eq

/-! ## The public functions -/

/-- A function answers the same, and leaves what corresponds. -/
def Agree {α : Type} (r : α × Layout) (r' : α × Store) : Prop := r.1 = r'.1 ∧ Shows r.2 r'.2

theorem Agree.map {α β : Type} {r : α × Layout} {r' : α × Store} (h : Agree r r') (f : α → β) :
    Agree (f r.1, r.2) (r'.map f id) :=
  ⟨congrArg f h.1, h.2⟩

/-- What is said of the tables is said separately. -/
theorem Shows.change (h : Shows l s) (hfills : Fills l' t' used') (honly : Only l l') :
    Shows l' { s with tables := t', used_memory := used' } where
  fills := hfills
  maxmemory := honly.maxmemory.trans h.maxmemory
  policy := honly.policy.trans h.policy
  clock n := (congrFun honly.clock n).trans (h.clock n)
  reads := honly.reads.trans h.reads
  passive_expiry := honly.passive_expiry.trans h.passive_expiry
  expired_keys := honly.expired_keys.trans h.expired_keys
  evicted_keys := honly.evicted_keys.trans h.evicted_keys
  journal := by
    rw [honly.deleted]
    exact h.journal

theorem Shows.count (h : Shows l s) (expired evicted : Nat) :
    Shows { l with
        expired_keys := l.expired_keys + expired
        evicted_keys := l.evicted_keys + evicted }
      { s with
        expired_keys := s.expired_keys + expired
        evicted_keys := s.evicted_keys + evicted } :=
  { h with
    fills := h.fills.frame rfl rfl rfl rfl rfl
    expired_keys := congrArg (· + expired) h.expired_keys
    evicted_keys := congrArg (· + evicted) h.evicted_keys }

theorem agree_now_ms (h : Shows l s) : Agree l.now_ms s.now_ms := by
  refine ⟨?_, h.fills.frame rfl rfl rfl rfl rfl, h.maxmemory, h.policy, h.clock, ?_, h.passive_expiry,
    h.expired_keys, h.evicted_keys, h.journal⟩
  · show l.clock l.reads = s.clock s.reads
    rw [h.clock, h.reads]
  · exact congrArg (· + 1) h.reads

theorem shows_notify_deleted (h : Shows l s) (key : Key) :
    Shows (l.notify_deleted key) (s.notify_deleted key) := by
  have hfills : Fills (l.notify_deleted key) s.tables s.used_memory := h.fills.frame rfl rfl rfl rfl rfl
  have hjournal := h.journal
  unfold Store.notify_deleted Store.propagate
  unfold Store.heard at hjournal
  split
  next hloading =>
    rw [if_pos hloading] at hjournal
    exact ⟨hfills, h.maxmemory, h.policy, h.clock, h.reads, h.passive_expiry, h.expired_keys,
      h.evicted_keys, hjournal.trans (if_pos hloading).symm⟩
  next hserving =>
    rw [if_neg hserving] at hjournal
    refine ⟨hfills, h.maxmemory, h.policy, h.clock, h.reads, h.passive_expiry, h.expired_keys,
      h.evicted_keys, ?_⟩
    show s.journal ++ _ = if s.loading then [] else (l.deleted ++ [key]).map _
    rw [if_neg hserving, List.map_append, hjournal]
    rfl

theorem agree_clear_expire (h : Shows l s) (key : Key) : Agree (l.clear_expire key) (s.clear_expire key) := by
  obtain ⟨hflag, hfills⟩ := fills_clear_expire h.fills key
  have hshows := h.change hfills (only_clear_expire l key)
  unfold Store.clear_expire
  split
  next hmem =>
    rw [if_pos hmem] at hshows
    exact ⟨hflag.trans (decide_eq_true hmem), hshows⟩
  next hmem =>
    rw [if_neg hmem] at hshows
    refine ⟨hflag.trans (decide_eq_false hmem), { hshows with
      fills := hshows.fills.congr (Eq.symm ?_) rfl fun _ => rfl }⟩
    rw [Tables.view_clearDeadline, Function.update_eq_self_iff, Tables.view,
      AList.lookup_eq_none.2 hmem, Option.map_map]
    rfl

theorem agree_remove (h : Shows l s) (key : Key) : Agree (l.remove key) (s.remove key) := by
  have hvalue := h.fills.dict key
  unfold Store.remove
  cases he : l.dict.find key with
  | none =>
    rw [he, Option.map_none] at hvalue
    rw [← hvalue, remove, he]
    exact ⟨rfl, h⟩
  | some e =>
    rw [he, Option.map_some] at hvalue
    rw [← hvalue]
    have hflag : (l.remove key).1 = true := by
      unfold remove
      rw [he]
    have hshows := h.change (fills_remove h.fills he) (only_remove l key)
    refine ⟨hflag, ?_⟩
    unfold Store.clear_expire
    dsimp only
    split
    next hmem =>
      -- `Store` forgets the deadline first, and then everything
      rw [if_pos hmem] at hshows
      refine { hshows with fills := hshows.fills.congr ?_ rfl fun _ => rfl }
      rw [Tables.view_unlink, Tables.view_clearDeadline, Function.update_idem, Tables.view_unlink]
    next hmem =>
      rw [if_neg hmem] at hshows
      exact hshows

theorem agree_expire_if_needed (h : Shows l s) (key : Key) :
    Agree (l.expire_if_needed key) (s.expire_if_needed key) := by
  have hempty : l.expires.size = 0 ↔ s.tables.expires.keys = [] := by
    rw [h.fills.size, List.length_eq_zero_iff, AList.keys, List.keys, List.map_eq_nil_iff]
  unfold expire_if_needed Store.expire_if_needed
  rw [h.fills.expires]
  by_cases hsize : l.expires.size = 0
  · rw [if_pos hsize, if_pos (hempty.1 hsize)]
    exact ⟨rfl, h⟩
  rw [if_neg hsize, if_neg (mt hempty.2 hsize)]
  cases s.tables.expires.lookup key with
  | none => exact ⟨rfl, h⟩
  | some when_ms =>
    obtain ⟨hnow, hread⟩ := agree_now_ms h
    generalize l.now_ms = n at hnow hread ⊢
    generalize s.now_ms = n' at hnow hread ⊢
    dsimp only
    rw [hnow, hread.passive_expiry]
    by_cases hlater : when_ms > n'.1
    · rw [if_pos hlater, if_pos hlater]
      exact ⟨rfl, hread⟩
    rw [if_neg hlater, if_neg hlater]
    by_cases hpassive : n'.2.passive_expiry = true
    · rw [if_pos hpassive, if_pos hpassive]
      exact ⟨rfl, hread⟩
    rw [if_neg hpassive, if_neg hpassive]
    exact ⟨rfl, shows_notify_deleted ((agree_remove hread key).2.count 1 0) key⟩

theorem agree_lookup (h : Shows l s) (key : Key) (touch : Bool) :
    (l.lookup key touch).1.map Entry.value = (s.lookup key touch).1 ∧
      Shows (l.lookup key touch).2 (s.lookup key touch).2 := by
  obtain ⟨hdue, hkept⟩ := agree_expire_if_needed h key
  unfold lookup Store.lookup
  generalize l.expire_if_needed key = r at hdue hkept ⊢
  generalize s.expire_if_needed key = r' at hdue hkept ⊢
  dsimp only
  rw [hdue, ← hkept.fills.dict]
  by_cases hgone : r'.1 = true
  · rw [if_pos hgone, if_pos hgone]
    exact ⟨rfl, hkept⟩
  rw [if_neg hgone, if_neg hgone]
  cases he : r.2.dict.find key with
  | none => exact ⟨rfl, hkept⟩
  | some e =>
    refine ⟨rfl, ?_⟩
    cases touch with
    | false => exact hkept
    | true =>
      exact hkept.change (fills_touch hkept.fills he) ⟨rfl, rfl, rfl, rfl, rfl, rfl, rfl, rfl⟩

/-- A lookup finds an entry on both sides, or on neither. -/
theorem lookup_cases (h : Shows l s) (key : Key) (touch : Bool) :
    ((l.lookup key touch).1 = none ∧ (s.lookup key touch).1 = none) ∨
      ∃ e, (l.lookup key touch).1 = some e ∧ (s.lookup key touch).1 = some e.value ∧
        (l.lookup key touch).2.dict.find key = some e := by
  have hvalue := (agree_lookup h key touch).1
  obtain ⟨-, hfound, -⟩ := lookup_sound h.fills.sound key touch
  cases he : (l.lookup key touch).1 with
  | none =>
    rw [he] at hvalue
    exact .inl ⟨rfl, hvalue.symm⟩
  | some e =>
    rw [he] at hvalue
    exact .inr ⟨e, rfl, hvalue.symm, hfound e he⟩

theorem shows_set (A : Allocator) (h : Shows l s) (key : Key) (value : Bytes) (keep_ttl : Bool) :
    Shows (l.set A key value keep_ttl) (s.set key value keep_ttl) := by
  have hkept := (agree_lookup h key true).2
  have hgone := (lookup_sound h.fills.sound key true).2.2
  unfold set Store.set
  obtain ⟨hnone, hnone'⟩ | ⟨e, hsome, hsome', he⟩ := lookup_cases h key true
  · specialize hgone hnone
    dsimp only
    rw [hnone, hnone']
    generalize (l.lookup key true).2 = r at hkept hgone ⊢
    generalize (s.lookup key true).2 = r' at hkept ⊢
    have hlink : ∀ {m : Layout} {u : Store}, Shows m u → m.dict.find key = none → Shows (m.link A key value)
        { u with
          used_memory := u.used_memory + entry_cost key value.length
          tables := u.tables.link key value } := fun hshows hfree =>
      hshows.change (fills_link A hshows.fills hfree value) ⟨rfl, rfl, rfl, rfl, rfl, rfl, rfl, rfl⟩
    cases hpassive : r.passive_expiry with
    | false =>
      rw [← hkept.passive_expiry, hpassive]
      exact hlink hkept (hgone hpassive)
    | true =>
      rw [← hkept.passive_expiry, hpassive]
      exact hlink (agree_remove hkept key).2 (remove_sound hkept.fills.sound key).2
  · dsimp only
    rw [hsome, hsome']
    generalize (l.lookup key true).2 = r at hkept he ⊢
    generalize (s.lookup key true).2 = r' at hkept ⊢
    have hassigned := hkept.change (fills_assign hkept.fills he value) ⟨rfl, rfl, rfl, rfl, rfl, rfl, rfl, rfl⟩
    cases keep_ttl with
    | true => exact hassigned
    | false => exact (agree_clear_expire hassigned key).2

theorem agree_del (h : Shows l s) (key : Key) : Agree (l.del key) (s.del key) := by
  obtain ⟨hvalue, hkept⟩ := agree_lookup h key false
  refine ⟨?_, (agree_remove hkept key).2⟩
  show (l.lookup key false).1.isSome = (s.lookup key false).1.isSome
  rw [← hvalue, Option.isSome_map]

theorem agree_set_expire (h : Shows l s) (key : Key) (when_ms : Int) :
    Agree (l.set_expire key when_ms) (s.set_expire key when_ms) := by
  have hkept := (agree_lookup h key true).2
  unfold set_expire Store.set_expire
  obtain ⟨hnone, hnone'⟩ | ⟨e, hsome, hsome', he⟩ := lookup_cases h key true
  · dsimp only
    rw [hnone, hnone']
    exact ⟨rfl, hkept⟩
  · dsimp only
    rw [hsome, hsome']
    obtain ⟨hnow, hread⟩ := agree_now_ms hkept
    have hhere : (l.lookup key true).2.now_ms.2.dict.find key = some e := he
    generalize (l.lookup key true).2.now_ms = n at hnow hread hhere ⊢
    generalize (s.lookup key true).2.now_ms = n' at hnow hread ⊢
    have hvalid := hread.fills.sound.expires
    have hsame : (when_ms ≤ n.1 ∧ n.2.passive_expiry = false) ↔
        (when_ms ≤ n'.1 ∧ n'.2.passive_expiry = false) := by
      rw [hnow, hread.passive_expiry]
    by_cases hpast : when_ms ≤ n.1 ∧ n.2.passive_expiry = false
    · rw [if_pos hpast, if_pos (hsame.1 hpast)]
      exact ⟨rfl, (agree_remove hread key).2⟩
    rw [if_neg hpast, if_neg (mt hsame.2 hpast)]
    cases hold : n.2.expires.find key with
    | some old =>
      have hmem : key ∈ n'.2.tables.expires := hread.fills.mem_expires.2 (by rw [hold]; rfl)
      have htotal := HashTable.total_assign hvalid deadline_cost hold when_ms
      have hcost : deadline_cost ⟨key, old⟩ = deadline_cost ⟨key, when_ms⟩ := rfl
      rw [if_pos hmem]
      have hfills := fills_setDeadline hread.fills hhere when_ms (HashTable.assign_perm hvalid hold _).1
        (HashTable.find_assign hvalid hold when_ms) (show _ = _ + 0 by omega)
      exact ⟨rfl, hread.change (hfills.frame rfl rfl rfl rfl (Int.add_zero _).symm)
        ⟨rfl, rfl, rfl, rfl, rfl, rfl, rfl, rfl⟩⟩
    | none =>
      have hmem : key ∉ n'.2.tables.expires := by
        rw [hread.fills.mem_expires, hold]
        exact Bool.false_ne_true
      rw [if_neg hmem]
      have hfills := fills_setDeadline hread.fills hhere when_ms (HashTable.set_perm hvalid key _).1
        (HashTable.find_set hvalid key when_ms) (HashTable.total_set hvalid deadline_cost hold when_ms)
      exact ⟨rfl, hread.change hfills ⟨rfl, rfl, rfl, rfl, rfl, rfl, rfl, rfl⟩⟩

theorem agree_persist (h : Shows l s) (key : Key) : Agree (l.persist key) (s.persist key) := by
  have hkept := (agree_lookup h key true).2
  unfold persist Store.persist
  obtain ⟨hnone, hnone'⟩ | ⟨e, hsome, hsome', -⟩ := lookup_cases h key true
  · dsimp only
    rw [hnone, hnone']
    exact ⟨rfl, hkept⟩
  · dsimp only
    rw [hsome, hsome']
    exact agree_clear_expire hkept key

theorem agree_pttl (h : Shows l s) (key : Key) : Agree (l.pttl key) (s.pttl key) := by
  have hkept := (agree_lookup h key false).2
  unfold pttl Store.pttl
  obtain ⟨hnone, hnone'⟩ | ⟨e, hsome, hsome', -⟩ := lookup_cases h key false
  · dsimp only
    rw [hnone, hnone']
    exact ⟨rfl, hkept⟩
  · dsimp only
    rw [hsome, hsome', hkept.fills.expires]
    cases (s.lookup key false).2.tables.expires.lookup key with
    | none => exact ⟨rfl, hkept⟩
    | some when_ms =>
      obtain ⟨hnow, hread⟩ := agree_now_ms hkept
      exact ⟨congrArg (when_ms - ·) hnow, hread⟩

/-! ### Loops -/

theorem agree_evict_loop (n : Nat) (h : Shows l s) : Agree (evict_loop n l) (Store.evict_loop n s) := by
  induction n generalizing l s with
  | zero =>
    refine ⟨decide_eq_decide.2 ?_, h⟩
    rw [h.fills.used_memory, h.maxmemory, Nat.cast_le]
  | succ n ih =>
    rw [evict_loop, Store.evict_loop, h.fills.used_memory, h.maxmemory, h.policy]
    by_cases hfits : s.used_memory ≤ s.maxmemory
    · rw [if_pos hfits, if_pos (Nat.cast_le.2 hfits)]
      exact ⟨rfl, h⟩
    rw [if_neg hfits, if_neg (mt Nat.cast_le.1 hfits)]
    by_cases hpolicy : s.policy = .kNoEviction
    · rw [if_pos hpolicy, if_pos hpolicy]
      exact ⟨rfl, h⟩
    rw [if_neg hpolicy, if_neg hpolicy]
    have hlast : s.tables.lru.getLast? = l.lru.getLast?.map Prod.snd := by
      rw [← h.fills.lru, keys, List.getLast?_map]
    rw [hlast]
    cases l.lru.getLast? with
    | none => exact ⟨rfl, h⟩
    | some victim => exact ih (shows_notify_deleted ((agree_remove h victim.2).2.count 0 1) victim.2)

theorem agree_evict_if_needed (h : Shows l s) : Agree l.evict_if_needed s.evict_if_needed := by
  have hlength : l.lru.length = s.tables.lru.length := by
    rw [← h.fills.lru, keys, List.length_map]
  unfold evict_if_needed Store.evict_if_needed
  rw [h.maxmemory, hlength]
  split
  · exact ⟨rfl, h⟩
  · exact agree_evict_loop _ h

theorem agree_delete_loop (slot : Slot) (n : Nat) (h : Shows l s) :
    Agree (delete_loop slot n l) (Store.delete_loop slot n s) := by
  induction n generalizing l s with
  | zero => exact ⟨rfl, h⟩
  | succ n ih =>
    have hslots := h.fills.slots slot
    rw [delete_loop, Store.delete_loop]
    cases hkeys : s.tables.slots slot with
    | nil =>
      rw [hkeys, List.map_nil] at hslots
      rw [hslots]
      exact ⟨rfl, h⟩
    | cons victim rest =>
      have hmem : victim ∈ s.tables.slots slot := hkeys ▸ List.mem_cons_self
      obtain ⟨e, he⟩ := h.fills.mem_dict.1 ((s.tables.mem_slots slot victim).1 hmem).1
      have hderef : l.lru.deref (l.node victim).2 = some victim := by
        rw [node, he]
        exact h.fills.sound.consistent.lru_pos victim e he
      rw [hkeys, List.map_cons] at hslots
      rw [hslots]
      dsimp only
      rw [hderef]
      obtain ⟨hcount, hshows⟩ := ih (shows_notify_deleted (agree_remove h victim).2 victim)
      exact ⟨congrArg (· + 1) hcount, hshows⟩

theorem agree_delete_slot (h : Shows l s) (slot : Slot) : Agree (l.delete_slot slot) (s.delete_slot slot) := by
  have hlength : (l.slots slot).length = (s.tables.slots slot).length := by
    rw [h.fills.slots, List.length_map]
  unfold delete_slot Store.delete_slot
  rw [hlength]
  exact agree_delete_loop slot _ h

/-- The draws that make the other store pick the same keys. -/
theorem agree_expire_samples (now : Int) (draws : List Nat) (h : Shows l s) :
    ∃ draws' : List Nat, draws'.length = draws.length ∧
      Agree (expire_samples now draws l) (Store.expire_samples now draws' s) := by
  induction draws generalizing l s with
  | nil => exact ⟨[], rfl, rfl, h⟩
  | cons draw draws ih =>
    rw [expire_samples]
    cases hdrawn : l.expires.for_each[draw % l.expires.for_each.length]? with
    | none =>
      -- only an empty table answers nothing
      have hnil : l.expires.for_each = [] := by
        by_contra hne
        have hlt := Nat.mod_lt draw (List.length_pos_of_ne_nil hne)
        exact absurd (List.getElem?_eq_none_iff.1 hdrawn) (Nat.not_le.2 hlt)
      have hnil' : s.tables.expires.entries = [] := List.nil_perm.1 (hnil ▸ h.fills.perm)
      refine ⟨draw :: draws, rfl, ?_⟩
      rw [Store.expire_samples, hnil']
      exact ⟨rfl, h⟩
    | some node =>
      obtain ⟨key, when_ms⟩ := node
      have hmem : ⟨key, when_ms⟩ ∈ s.tables.expires.entries :=
        h.fills.perm.mem_iff.1 (List.mem_of_getElem? hdrawn)
      obtain ⟨i, hi, hget⟩ := List.getElem_of_mem hmem
      have hsame : s.tables.expires.entries[i % s.tables.expires.entries.length]? = some ⟨key, when_ms⟩ := by
        rw [Nat.mod_eq_of_lt hi, List.getElem?_eq_getElem hi, hget]
      have hfirst : ∀ draws', Store.expire_samples now (i :: draws') s =
          if when_ms ≤ now then
            ((Store.expire_samples now draws' ((s.remove key).2.notify_deleted key)).1 + 1,
              (Store.expire_samples now draws' ((s.remove key).2.notify_deleted key)).2)
          else Store.expire_samples now draws' s := by
        intro draws'
        rw [Store.expire_samples]
        rw [hsame]
      dsimp only
      by_cases hdue : when_ms ≤ now
      · obtain ⟨draws', hlength, hcount, hshows⟩ :=
          ih (shows_notify_deleted (agree_remove h key).2 key)
        refine ⟨i :: draws', congrArg (· + 1) hlength, ?_⟩
        rw [hfirst, if_pos hdue, if_pos hdue]
        exact ⟨congrArg (· + 1) hcount, hshows⟩
      · obtain ⟨draws', hlength, hagree⟩ := ih h
        refine ⟨i :: draws', congrArg (· + 1) hlength, ?_⟩
        rw [hfirst, if_neg hdue, if_neg hdue]
        exact hagree

theorem agree_expire_rounds (rounds : List (Nat → Nat)) (h : Shows l s) :
    ∃ rounds' : List (Nat → Nat), rounds'.length = rounds.length ∧
      Agree (expire_rounds rounds l) (Store.expire_rounds rounds' s) := by
  induction rounds generalizing l s with
  | nil => exact ⟨[], rfl, rfl, h⟩
  | cons draws rounds ih =>
    have hempty : s.tables.expires.entries = [] ↔ l.expires.size = 0 := by
      rw [h.fills.size, List.length_eq_zero_iff]
    rw [expire_rounds]
    by_cases hsize : l.expires.size = 0
    · refine ⟨draws :: rounds, rfl, ?_⟩
      rw [if_pos hsize, Store.expire_rounds, if_pos (hempty.2 hsize)]
      exact ⟨rfl, h⟩
    obtain ⟨hnow, hread⟩ := agree_now_ms h
    obtain ⟨draws', hlength, hcount, hshows⟩ := agree_expire_samples l.now_ms.1
      ((List.range (min kExpireSamplesPerLoop l.expires.size)).map draws) hread
    rw [List.length_map, List.length_range] at hlength
    have hdraws : (List.range (min kExpireSamplesPerLoop s.tables.expires.entries.length)).map
        (fun i => draws'.getD i 0) = draws' := by
      rw [← h.fills.size, ← hlength]
      refine List.ext_getElem (by rw [List.length_map, List.length_range]) fun i hi hi' => ?_
      rw [List.getElem_map, List.getElem_range, List.getD_eq_getElem?_getD, List.getElem?_eq_getElem hi',
        Option.getD_some]
    have hround : ∀ rounds', Store.expire_rounds ((fun i => draws'.getD i 0) :: rounds') s =
        if (Store.expire_samples s.now_ms.1 draws' s.now_ms.2).1 * 4 ≤
            min kExpireSamplesPerLoop l.expires.size then
          Store.expire_samples s.now_ms.1 draws' s.now_ms.2
        else
          ((Store.expire_samples s.now_ms.1 draws' s.now_ms.2).1 +
              (Store.expire_rounds rounds' (Store.expire_samples s.now_ms.1 draws' s.now_ms.2).2).1,
            (Store.expire_rounds rounds' (Store.expire_samples s.now_ms.1 draws' s.now_ms.2).2).2) := by
      intro rounds'
      rw [Store.expire_rounds, if_neg (mt hempty.1 hsize)]
      dsimp only
      rw [hdraws, h.fills.size]
    rw [if_neg hsize]
    dsimp only
    rw [hnow] at hcount hshows ⊢
    by_cases hfew : (Store.expire_samples s.now_ms.1 draws' s.now_ms.2).1 * 4 ≤
        min kExpireSamplesPerLoop l.expires.size
    · refine ⟨(fun i => draws'.getD i 0) :: rounds, rfl, ?_⟩
      rw [hround, if_pos hfew, hcount, if_pos hfew]
      exact ⟨hcount, hshows⟩
    · obtain ⟨rounds', hrest, hcount', hshows'⟩ := ih hshows
      refine ⟨(fun i => draws'.getD i 0) :: rounds', congrArg (· + 1) hrest, ?_⟩
      rw [hround, if_neg hfew, hcount, if_neg hfew]
      exact ⟨congrArg₂ (· + ·) rfl hcount', hshows'⟩

theorem agree_active_expire_cycle (h : Shows l s) (rounds : List (Nat → Nat)) :
    ∃ rounds' : List (Nat → Nat), rounds'.length = rounds.length ∧
      Agree (l.active_expire_cycle rounds) (s.active_expire_cycle rounds') := by
  obtain ⟨rounds', hlength, hcount, hshows⟩ := agree_expire_rounds rounds h
  refine ⟨rounds', hlength, ?_⟩
  unfold active_expire_cycle Store.active_expire_cycle
  rw [h.passive_expiry]
  split
  · exact ⟨rfl, h⟩
  · refine ⟨hcount, ?_⟩
    dsimp only
    rw [hcount]
    exact hshows.count _ 0

theorem shows_active_rehash (rounds : Nat) (h : Shows l s) : Shows (active_rehash rounds l).2 s := by
  induction rounds generalizing l with
  | zero => exact h
  | succ rounds ih =>
    rw [active_rehash]
    split
    · exact ih { h with fills := fills_rehash h.fills }
    · exact h

/-! ## Whole runs -/

/-- What a caller gets back. -/
inductive Answer where
  | value (v : Option Bytes)
  | flag (b : Bool)
  | number (n : Int)
  | done

/-- What a call answers. `active_rehash` reports whether the tables are still being moved, which
its only caller ignores. -/
def answer (s : Layout) : Call → Answer
  | .get key => .value (s.get key).1
  | .exists_key key => .flag (s.exists_key key).1
  | .contains key => .flag (s.contains key).1
  | .del key => .flag (s.del key).1
  | .set_expire key when_ms => .flag (s.set_expire key when_ms).1
  | .persist key => .flag (s.persist key).1
  | .pttl key => .number (s.pttl key).1
  | .evict_if_needed => .flag s.evict_if_needed.1
  | .active_expire_cycle rounds => .number (s.active_expire_cycle rounds).1
  | .delete_slot slot => .number (s.delete_slot slot).1
  | .set .. | .active_rehash _ | .clear | .set_passive_expiry _ => .done

/-- A call on the store of the other model, where there is nothing to move: the answer, and
the store after it. -/
def Call.machine (s : Store) : Call → Answer × Store
  | .get key => (s.get key).map .value id
  | .exists_key key => (s.exists_key key).map .flag id
  | .contains key => (s.contains key).map .flag id
  | .set key value keep_ttl => (.done, s.set key value keep_ttl)
  | .del key => (s.del key).map .flag id
  | .set_expire key when_ms => (s.set_expire key when_ms).map .flag id
  | .persist key => (s.persist key).map .flag id
  | .pttl key => (s.pttl key).map .number id
  | .evict_if_needed => s.evict_if_needed.map .flag id
  | .active_expire_cycle rounds => (s.active_expire_cycle rounds).map (fun n : Nat => .number n) id
  | .active_rehash _ => (.done, s)
  | .delete_slot slot => (s.delete_slot slot).map (fun n : Nat => .number n) id
  | .clear => (.done, s.clear)
  | .set_passive_expiry on => (.done, { s with passive_expiry := on })

/-- The same call, but for the draws. -/
inductive Call.Like : Call → Call → Prop where
  | same (c : Call) : Like c c
  | drawn {rounds rounds' : List (Nat → Nat)} (h : rounds'.length = rounds.length) :
      Like (.active_expire_cycle rounds) (.active_expire_cycle rounds')

/-- **One call.** Every public function of the layout does what the store does. -/
theorem shows_call (A : Allocator) (h : Shows l s) (c : Call) :
    ∃ c', Call.Like c c' ∧ Agree (l.answer c, l.call A c) (c'.machine s) := by
  cases c with
  | get key =>
    obtain ⟨hvalue, hshows⟩ := agree_lookup h key true
    exact ⟨_, .same _, congrArg Answer.value hvalue, hshows⟩
  | exists_key key =>
    obtain ⟨hvalue, hshows⟩ := agree_lookup h key true
    refine ⟨_, .same _, congrArg Answer.flag ?_, hshows⟩
    exact (Option.isSome_map ..).symm.trans (congrArg Option.isSome hvalue)
  | contains key =>
    obtain ⟨hvalue, hshows⟩ := agree_lookup h key false
    refine ⟨_, .same _, congrArg Answer.flag ?_, hshows⟩
    exact (Option.isSome_map ..).symm.trans (congrArg Option.isSome hvalue)
  | set key value keep_ttl => exact ⟨_, .same _, rfl, shows_set A h key value keep_ttl⟩
  | del key => exact ⟨_, .same _, (agree_del h key).map Answer.flag⟩
  | set_expire key when_ms => exact ⟨_, .same _, (agree_set_expire h key when_ms).map Answer.flag⟩
  | persist key => exact ⟨_, .same _, (agree_persist h key).map Answer.flag⟩
  | pttl key => exact ⟨_, .same _, (agree_pttl h key).map Answer.number⟩
  | evict_if_needed => exact ⟨_, .same _, (agree_evict_if_needed h).map Answer.flag⟩
  | active_expire_cycle rounds =>
    obtain ⟨rounds', hlength, hagree⟩ := agree_active_expire_cycle h rounds
    exact ⟨_, .drawn hlength, hagree.map fun n => Answer.number n⟩
  | active_rehash rounds => exact ⟨_, .same _, rfl, shows_active_rehash rounds h⟩
  | delete_slot slot => exact ⟨_, .same _, (agree_delete_slot h slot).map fun n => Answer.number n⟩
  | clear =>
    refine ⟨_, .same _, rfl, ?_⟩
    exact h.change (fills_empty rfl rfl rfl rfl rfl) ⟨rfl, rfl, rfl, rfl, rfl, rfl, rfl, rfl⟩
  | set_passive_expiry on =>
    exact ⟨_, .same _, rfl, { h with
      fills := h.fills.frame rfl rfl rfl rfl rfl
      passive_expiry := rfl }⟩

/-- The layout as its callers see it. -/
def machine (A : Allocator) (l : Layout) (c : Call) : Answer × Layout := (l.answer c, l.call A c)

/-- **The layout refines the store.** Whatever is called, the hash tables and lists answer what
the consistent tables do, and end up with the same keys, values, deadlines and orders, the same
counters, and the same deletions reported. -/
theorem layout_refines_store (A : Allocator) (maxmemory : Nat) (policy : EvictionPolicy)
    (clock : Nat → Nat) (loading : Bool) (calls : List Call) :
    ∃ calls', List.Forall₂ Call.Like calls calls' ∧
      (transcript (machine A) calls { maxmemory, policy, clock := fun n => clock n }).1 =
        (transcript Call.machine calls' { maxmemory, policy, clock, loading }).1 ∧
      Shows (transcript (machine A) calls { maxmemory, policy, clock := fun n => clock n }).2
        (transcript Call.machine calls' { maxmemory, policy, clock, loading }).2 := by
  refine transcript_simulation (R := Shows) Call.Like (fun l s c h => shows_call A h c) calls ?_
  exact ⟨fills_empty rfl rfl rfl rfl rfl, rfl, rfl, fun _ => rfl, rfl, rfl, rfl, rfl,
    (Store.heard_nil _).symm⟩

end EpochKV.Layout

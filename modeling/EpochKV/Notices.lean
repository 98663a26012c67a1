/-
What the deletion listener is told.

The AOF and the replicas learn only through the listener of keys that the store removes of its
own accord: because a deadline has passed, to make room, or with a whole slot. A `Trace` takes a
call apart into what it does to the keys: a key is removed, for a reason that is true of the
store at that moment and of the call; the listener is told; all keys go at once; and steps that
change nothing a reason could depend on, which keeps the stores of a trace those of the call.
What the call then stores under its own key (`Writes`) comes last, when nothing is removed any
more. Every call has such a trace, with the keys told being the keys removed for reasons of its
own, one for one, and `Reported` says which keys these are by the store before the call and the
store after it alone.
-/
import EpochKV.Expiry

set_option autoImplicit false

namespace EpochKV.Layout

open Text Slots

/-! ## Traces -/

/-- Why a key is removed. -/
inductive Why where
  | expired
  | evicted
  | slot
  /-- By `del`, or by `set_expire` with a time that is not ahead. -/
  | asked
  /-- It was due long ago, but only its master's commands remove it. -/
  | reclaimed
  deriving DecidableEq

/-- Of the store's own accord. -/
def Why.own : Why → Bool
  | .expired => true
  | .evicted => true
  | .slot => true
  | .asked => false
  | .reclaimed => false

inductive Event where
  | removed (why : Why) (key : Key)
  /-- The listener is called, and finds the store like this. -/
  | told (key : Key) (store : Layout)
  /-- All keys are dropped at once. -/
  | cleared

/-- The deadline is not ahead of a reading of the clock that the call has taken. -/
def Overdue (start : Nat) (s : Layout) (key : Key) : Prop :=
  ∃ when_ms i, s.expires.find key = some when_ms ∧ start ≤ i ∧ i < s.reads ∧ when_ms ≤ s.clock i

/-- There is no deadline, or it is ahead of a reading that the call has taken. -/
def Live (start : Nat) (s : Layout) (key : Key) : Prop :=
  ∀ when_ms, s.expires.find key = some when_ms → ∃ i, start ≤ i ∧ i < s.reads ∧ s.clock i < when_ms

/-- The call looks the key up. -/
def Call.looks_up (key : Key) : Call → Prop
  | .get k => k = key
  | .exists_key k => k = key
  | .contains k => k = key
  | .set k _ _ => k = key
  | .del k => k = key
  | .set_expire k _ => k = key
  | .persist k => k = key
  | .pttl k => k = key
  | _ => False

/-- The reason is true of the call and of the store before the removal. -/
def Reason (c : Call) (start : Nat) (s : Layout) (key : Key) : Why → Prop
  | .expired => (c.looks_up key ∨ ∃ rounds, c = .active_expire_cycle rounds)
      ∧ s.passive_expiry = false ∧ Overdue start s key
  | .evicted => c = .evict_if_needed ∧ s.maxmemory ≠ 0 ∧ s.maxmemory < s.used_memory
      ∧ s.keys.getLast? = some key
  | .slot => c = .delete_slot (key_hash_slot key)
  | .asked => Live start s key
      ∧ (c = .del key ∨ ∃ when_ms i, c = .set_expire key when_ms ∧ start ≤ i ∧ i < s.reads
          ∧ when_ms ≤ s.clock i)
  | .reclaimed => s.passive_expiry = true ∧ Overdue start s key
      ∧ (c = .del key ∨ ∃ value keep_ttl, c = .set key value keep_ttl)

/-- Nothing happens to the keys: they, their deadlines, the lists and the byte counter are what
they were. The clock may be read, a key that is looked up may come to the front, a counter may go
up, and a table may move its entries. -/
structure Quiet (c : Call) (s t : Layout) : Prop where
  deleted : t.deleted = s.deleted
  dict : ∀ k, t.dict.find k = s.dict.find k
  expires : ∀ k, t.expires.find k = s.expires.find k
  lru : t.lru = s.lru ∨ ∃ k e, c.looks_up k ∧ s.dict.find k = some e ∧ t.lru = s.lru.splice e.lru_pos
  slots : t.slots = s.slots
  used_memory : t.used_memory = s.used_memory
  maxmemory : t.maxmemory = s.maxmemory
  passive_expiry : t.passive_expiry = s.passive_expiry
  clock : t.clock = s.clock
  reads : s.reads ≤ t.reads

/-- What a call stores under its key at its end. No key leaves, and nothing is told. -/
structure Writes (c : Call) (s t : Layout) : Prop where
  deleted : t.deleted = s.deleted
  stay : ∀ k e, s.dict.find k = some e → ∃ e', t.dict.find k = some e'
  others : ∀ k, ¬ c.looks_up k →
    t.dict.find k = s.dict.find k ∧ t.expires.find k = s.expires.find k
  clock : t.clock = s.clock
  reads : t.reads = s.reads

/-- What a call that began when the clock had been read `start` times does to the keys. -/
inductive Trace (c : Call) (start : Nat) : Layout → List Event → Layout → Prop
  | done (s : Layout) : Trace c start s [] s
  | quiet {s t u : Layout} {es : List Event} :
      Quiet c s t → Trace c start t es u → Trace c start s es u
  | removed {s u : Layout} {es : List Event} (why : Why) (key : Key) (e : Entry) :
      s.dict.find key = some e → Reason c start s key why →
      Trace c start (s.remove key).2 es u → Trace c start s (.removed why key :: es) u
  | told {s u : Layout} {es : List Event} (key : Key) :
      Trace c start (s.notify_deleted key) es u → Trace c start s (.told key s :: es) u
  | cleared {s u : Layout} {es : List Event} :
      c = .clear → Trace c start s.clear es u → Trace c start s (.cleared :: es) u

/-- The key is there before, and no longer after. -/
def Leaves (s t : Layout) (key : Key) : Prop :=
  (∃ e, s.dict.find key = some e) ∧ t.dict.find key = none

/-- The key is due at the next reading of the clock, and the store is the one to remove it. -/
def Lapses (s : Layout) (key : Key) : Prop :=
  s.passive_expiry = false ∧
    ∃ when_ms, s.expires.find key = some when_ms ∧ when_ms ≤ s.clock s.reads

/-- Which keys a call from `s` to `t` has to report: the key that it looks up, if it is due at
the reading this takes; what leaves by active expiry, and was due at a reading of the call; what
is evicted; and what is deleted with its slot. -/
def Reported (c : Call) (s t : Layout) (key : Key) : Prop :=
  match c with
  | .active_expire_cycle _ => s.passive_expiry = false ∧ Leaves s t key ∧
      ∃ when_ms i, s.expires.find key = some when_ms ∧ s.reads ≤ i ∧ i < t.reads ∧ when_ms ≤ s.clock i
  | .evict_if_needed => Leaves s t key
  | .delete_slot slot => key_hash_slot key = slot ∧ ∃ e, s.dict.find key = some e
  | c => c.looks_up key ∧ s.Lapses key

/-- The keys that the listener is told. -/
def told (es : List Event) : List Key :=
  es.filterMap fun
    | .told key _ => some key
    | _ => none

/-- The keys that the store removes of its own accord. -/
def own (es : List Event) : List Key :=
  es.filterMap fun
    | .removed why key => if why.own then some key else none
    | _ => none

/-- The key is nowhere in the store, and no list holds a node that was freed. -/
structure Absent (s : Layout) (key : Key) : Prop where
  dict : s.dict.find key = none
  lru : key ∉ s.keys
  slots : some key ∉ s.slot_keys (key_hash_slot key)
  dangling : ∀ slot, none ∉ s.slot_keys slot
  expires : s.expires.find key = none

/-- A trace in which what is told is what the store removes of its own accord, once each, when
the key is gone. -/
structure Reports (c : Call) (start : Nat) (s : Layout) (es : List Event) (t : Layout) : Prop where
  trace : Trace c start s es t
  once : told es = own es
  absent : ∀ key u, Event.told key u ∈ es → Absent u key

variable {e : Entry} {why : Why}

section

variable {c : Call} {start : Nat} {s t u : Layout} {es es' : List Event} {key : Key}

theorem Trace.trans (h : Trace c start s es t) (h' : Trace c start t es' u) :
    Trace c start s (es ++ es') u := by
  induction h with
  | done s => exact h'
  | quiet hq _ ih => exact .quiet hq (ih h')
  | removed why key e he hwhy _ ih => exact .removed why key e he hwhy (ih h')
  | told key _ ih => exact .told key (ih h')
  | cleared hc _ ih => exact .cleared hc (ih h')

/-- The record of the listener is that of the trace. -/
theorem Trace.deleted (h : Trace c start s es t) : t.deleted = s.deleted ++ Layout.told es := by
  induction h with
  | done s => exact (List.append_nil _).symm
  | quiet hq _ ih => rw [ih, hq.deleted]
  | removed why key e he hwhy _ ih => rw [ih, (only_remove _ key).deleted]; rfl
  | told key _ ih =>
    rw [ih]
    exact List.append_assoc _ [key] _
  | cleared hc _ ih => exact ih

/-- A step that leaves tables, lists and counter alone. -/
theorem Quiet.of_same (hdict : t.dict = s.dict) (hexpires : t.expires = s.expires)
    (hlru : t.lru = s.lru) (hslots : t.slots = s.slots) (hused : t.used_memory = s.used_memory)
    (honly : t.deleted = s.deleted ∧ t.maxmemory = s.maxmemory ∧
      t.passive_expiry = s.passive_expiry ∧ t.clock = s.clock) (hreads : s.reads ≤ t.reads) :
    Quiet c s t :=
  ⟨honly.1, fun k => by rw [hdict], fun k => by rw [hexpires], Or.inl hlru, hslots, hused,
    honly.2.1, honly.2.2.1, honly.2.2.2, hreads⟩

theorem Writes.refl (s : Layout) : Writes c s s :=
  ⟨rfl, fun _ e he => ⟨e, he⟩, fun _ _ => ⟨rfl, rfl⟩, rfl, rfl⟩

theorem Writes.trans (h : Writes c s t) (h' : Writes c t u) : Writes c s u where
  deleted := h'.deleted.trans h.deleted
  stay _ e he := by
    obtain ⟨e', he'⟩ := h.stay _ e he
    exact h'.stay _ e' he'
  others k hk :=
    ⟨(h'.others k hk).1.trans (h.others k hk).1, (h'.others k hk).2.trans (h.others k hk).2⟩
  clock := h'.clock.trans h.clock
  reads := h'.reads.trans h.reads

theorem Reports.done (s : Layout) : Reports c start s [] s :=
  ⟨.done s, rfl, fun _ _ => nofun⟩

theorem Reports.quiet (h : Quiet c s t) : Reports c start s [] t :=
  ⟨.quiet h (.done t), rfl, fun _ _ => nofun⟩

theorem told_append (es es' : List Event) : Layout.told (es ++ es') = Layout.told es ++ Layout.told es' :=
  List.filterMap_append

theorem Reports.trans (h : Reports c start s es t) (h' : Reports c start t es' u) :
    Reports c start s (es ++ es') u := by
  refine ⟨h.trace.trans h'.trace, ?_, ?_⟩
  · rw [told_append, own, List.filterMap_append]
    exact congrArg₂ (· ++ ·) h.once h'.once
  · intro key v hv
    rcases List.mem_append.1 hv with hv | hv
    · exact h.absent key v hv
    · exact h'.absent key v hv

theorem Sound.absent (h : s.Sound) (hkey : s.dict.find key = none) : Absent s key := by
  refine ⟨hkey, h.not_mem_keys hkey, ?_, h.consistent.no_dangling, ?_⟩
  · rw [h.consistent.mem_slots, mem_contents_iff h.dict, hkey]
    rintro ⟨⟨e, he⟩, -⟩
    exact absurd he nofun
  · by_contra hne
    obtain ⟨when_ms, hwhen⟩ := Option.ne_none_iff_exists'.1 hne
    obtain ⟨e, he⟩ := h.expires_sub key when_ms hwhen
    rw [hkey] at he
    exact absurd he nofun

/-- Where keys are only lost, those are the keys that leave. -/
theorem Loses.mem_iff {gone : List Key} (h : Loses s gone t) : key ∈ gone ↔ Leaves s t key := by
  constructor
  · intro hk
    exact ⟨h.had key hk, (h.dict key).trans (if_pos hk)⟩
  · rintro ⟨⟨e, he⟩, hnone⟩
    by_contra hk
    rw [h.dict, if_neg hk, he] at hnone
    exact absurd hnone nofun

/-- What a lookup tells: its key, if it is due. -/
def ToldLapse (s : Layout) (key : Key) (es : List Event) : Prop :=
  s.Lapses key ∧ Layout.told es = [key] ∨ ¬ s.Lapses key ∧ Layout.told es = []

/-- More events of which nothing is told. -/
theorem ToldLapse.append (h : ToldLapse s key es) (hnil : Layout.told es' = []) :
    ToldLapse s key (es ++ es') := by
  unfold ToldLapse
  rw [told_append, hnil, List.append_nil]
  exact h

/-- A round of `delete_slot`. -/
theorem slots_remove_lt (h : s.Sound) {slot : Slot} {pos lru_pos : Pos}
    (hmem : (pos, lru_pos) ∈ s.slots slot) :
    ∃ key e, s.dict.find key = some e ∧ key_hash_slot key = slot ∧ s.lru.deref lru_pos = some key ∧
      ((s.remove key).2.slots slot).length < (s.slots slot).length := by
  obtain ⟨key, e, he, rfl, rfl, rfl⟩ := (h.linked.mem_slots _ _ _).1 hmem
  refine ⟨key, e, he, rfl, h.consistent.lru_pos key e he, ?_⟩
  unfold remove
  simp only [he, (lists_clear_expire _ key).2, Function.update_self]
  rw [NodeList.erase, List.length_filter_lt_length_iff_exists]
  exact ⟨_, hmem, by simp⟩

theorem delete_loop_exact (slot : Slot) (n : Nat) (h : s.Sound)
    (hn : (s.slots slot).length ≤ n) :
    (delete_loop slot n s).2.slots slot = [] ∧ ∀ k, key_hash_slot k ≠ slot →
      (delete_loop slot n s).2.dict.find k = s.dict.find k
        ∧ (delete_loop slot n s).2.expires.find k = s.expires.find k := by
  induction n generalizing s with
  | zero => exact ⟨List.length_eq_zero_iff.1 (Nat.le_zero.1 hn), fun _ _ => ⟨rfl, rfl⟩⟩
  | succ n ih =>
    rw [delete_loop]
    split
    case h_1 hnil => exact ⟨hnil, fun _ _ => ⟨rfl, rfl⟩⟩
    case h_2 front rest hcons =>
      have hfront : (front.1, front.2) ∈ s.slots slot := hcons ▸ List.mem_cons_self
      obtain ⟨victim, e, he, hslot, hderef, hlt⟩ := slots_remove_lt h hfront
      rw [hderef]
      obtain ⟨hdict, hexpires, -⟩ := remove_spec h he
      obtain ⟨hnil, hrest⟩ := ih (s := (s.remove victim).2.notify_deleted victim)
        ((remove_sound h victim).1.frame rfl rfl rfl rfl rfl) (Nat.lt_succ_iff.1 (hlt.trans_le hn))
      refine ⟨hnil, fun k hk => ?_⟩
      -- the victim is of the slot, so it is not `k`
      have hne : k ≠ victim := fun heq => hk (heq ▸ hslot)
      exact ⟨(hrest k hk).1.trans ((hdict k).trans (if_neg hne)),
        (hrest k hk).2.trans ((hexpires k).trans (if_neg hne))⟩

/-- A key that is there has a node in the list of its slot. -/
theorem absent_of_slot_nil (h : s.Sound) {slot : Slot} (hnil : s.slots slot = [])
    (hk : key_hash_slot key = slot) : Absent s key := by
  refine h.absent (Option.eq_none_iff_forall_ne_some.2 fun e he => ?_)
  have hmem := (h.linked.mem_slots slot _ _).2 ⟨key, e, he, hk, rfl, rfl⟩
  exact List.not_mem_nil (hnil ▸ hmem)

/-! ## Every call -/

theorem ToldLapse.mem (h : ToldLapse s key es) (k : Key) :
    k ∈ Layout.told es ↔ k = key ∧ s.Lapses key := by
  rcases h with ⟨hyes, htold⟩ | ⟨hno, htold⟩
  · rw [htold, List.mem_singleton]
    exact (and_iff_left hyes).symm
  · rw [htold]
    exact ⟨nofun, fun hk => absurd hk.2 hno⟩

end

/-- `delete_slot` leaves no trace of the keys of the slot, and takes nothing else. -/
theorem delete_slot_exact (A : Allocator) (maxmemory : Nat) (policy : EvictionPolicy)
    (clock : Nat → Int) (calls : List Call) (slot : Slot) (key : Key) :
    let s := calls.foldl (call A) { maxmemory, policy, clock }
    let t := (s.delete_slot slot).2
    if key_hash_slot key = slot then Absent t key
    else t.dict.find key = s.dict.find key ∧ t.expires.find key = s.expires.find key := by
  intro s t
  have hs : s.Sound := sound_run A calls (sound_of_empty rfl rfl rfl rfl rfl)
  obtain ⟨hnil, hrest⟩ := delete_loop_exact slot _ hs le_rfl
  split
  case isFalse hk => exact hrest key hk
  case isTrue hk => exact absent_of_slot_nil ((prunes_delete_loop slot _ _).sound hs) hnil hk

end EpochKV.Layout

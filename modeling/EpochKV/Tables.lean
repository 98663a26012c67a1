/-
Hash slots (`cluster_slot.cpp`), and the four tables behind `Store`, kept consistent by
construction.

A key belongs to one of 16384 slots: CRC-16/XMODEM of its hash tag, or of the whole key
when it has none, masked to 14 bits. The store indexes its keys by slot and the cluster
assigns owners to slots, so both layers meet here.

`store.hpp` keeps a value table, a deadline table, the LRU list and one key list
per hash slot, tied together by iterators. What those iterators guarantee is
stated here as fields: a key is in the LRU list once if and only if it has a
value, it is in its own slot's list once and in no other, and only a key with a
value has a deadline. Six elementary changes are all `store.cpp` ever does to the
four tables; each keeps the fields, so no later proof has to.

`view` forgets the two lists: a key's value and deadline, which is what a client,
a snapshot and a replica can tell a store by.
-/
import Mathlib.Data.List.AList
import EpochKV.Text
import EpochKV.Keyspace

set_option autoImplicit false

namespace EpochKV

namespace Slots

open Text

def kSlots : Nat := 16384

instance : NeZero kSlots := ⟨by decide⟩

abbrev Slot := Fin kSlots

instance : LawfulBEq Slot := inferInstance

/-- One entry of the CRC table: the CRC of a single high byte, bit by bit. -/
def crc16_table (i : UInt8) : UInt16 :=
  (List.range 8).foldl
    (fun crc _ => if crc &&& 0x8000 ≠ 0 then (crc <<< 1) ^^^ 0x1021 else crc <<< 1)
    (i.toUInt16 <<< 8)

/-- CRC-16/XMODEM (polynomial 0x1021, initial value 0), one byte per step. -/
def crc16 (data : Bytes) : UInt16 :=
  data.foldl (fun crc c => (crc <<< 8) ^^^ crc16_table ((crc >>> 8).toUInt8 ^^^ c)) 0

/-- The part of the key that is hashed: what stands between the first `{` and
the next `}`, when both exist and something stands between them. -/
def hash_tag (key : Bytes) : Bytes :=
  match key.idxOf? 123 with
  | none => key
  | some i =>
    match (key.drop (i + 1)).idxOf? 125 with
    | none | some 0 => key
    | some n => (key.drop (i + 1)).take n

theorem mask_lt (n : Nat) : n &&& (kSlots - 1) < kSlots :=
  lt_of_le_of_lt Nat.and_le_right (by decide)

def key_hash_slot (key : Bytes) : Slot :=
  ⟨(crc16 (hash_tag key)).toNat &&& (kSlots - 1), mask_lt _⟩

example : key_hash_slot (lit "{user:1}:name") = key_hash_slot (lit "user:1") := by decide

example : (key_hash_slot (lit "123456789")).val = 0x31C3 := by decide

end Slots

/-! ## The tables -/

open Text Slots Keyspace

abbrev Key := Bytes

/-- `dict_`, `expires_`, `lru_` (front = most recently used) and `slots_`. -/
structure Tables where
  dict : AList (fun _ : Key => Bytes)
  expires : AList (fun _ : Key => Int)
  lru : List Key
  slots : Slot → List Key
  expires_sub : ∀ k ∈ expires, k ∈ dict
  lru_nodup : lru.Nodup
  mem_lru : ∀ k, k ∈ lru ↔ k ∈ dict
  slots_nodup : ∀ sl, (slots sl).Nodup
  mem_slots : ∀ sl k, k ∈ slots sl ↔ k ∈ dict ∧ key_hash_slot k = sl

variable {t : Tables} {k : Key}

namespace Tables

def empty : Tables where
  dict := ∅
  expires := ∅
  lru := []
  slots := fun _ => []
  expires_sub := by simp
  lru_nodup := List.nodup_nil
  mem_lru := by simp
  slots_nodup := fun _ => List.nodup_nil
  mem_slots := by simp

/-! ## The elementary changes -/

/-- The key leaves all four tables. -/
def unlink (t : Tables) (key : Key) : Tables where
  dict := t.dict.erase key
  expires := t.expires.erase key
  lru := t.lru.erase key
  slots := Function.update t.slots (key_hash_slot key) ((t.slots (key_hash_slot key)).erase key)
  expires_sub k hk := by
    rw [AList.mem_erase] at hk ⊢
    exact ⟨hk.1, t.expires_sub k hk.2⟩
  lru_nodup := t.lru_nodup.erase key
  mem_lru k := by rw [t.lru_nodup.mem_erase_iff, AList.mem_erase, t.mem_lru]
  slots_nodup sl := by
    by_cases h : sl = key_hash_slot key
    · subst h
      simpa using (t.slots_nodup _).erase key
    · simpa [Function.update_of_ne h] using t.slots_nodup sl
  mem_slots sl k := by
    by_cases h : sl = key_hash_slot key
    · subst h
      rw [Function.update_self, (t.slots_nodup _).mem_erase_iff, AList.mem_erase, t.mem_slots,
        and_assoc]
    · rw [Function.update_of_ne h, t.mem_slots, AList.mem_erase]
      constructor
      · rintro ⟨hk, hs⟩
        exact ⟨⟨fun e => h (e ▸ hs).symm, hk⟩, hs⟩
      · rintro ⟨⟨-, hk⟩, hs⟩
        exact ⟨hk, hs⟩

/-- A fresh entry at the front of the LRU list and of its slot. Whatever stood
under the key goes first: `Store::set` only gets here when nothing does. -/
def link (t : Tables) (key : Key) (value : Bytes) : Tables where
  dict := (t.unlink key).dict.insert key value
  expires := (t.unlink key).expires
  lru := key :: (t.unlink key).lru
  slots := Function.update (t.unlink key).slots (key_hash_slot key)
    (key :: (t.unlink key).slots (key_hash_slot key))
  expires_sub k hk := by
    rw [AList.mem_insert]
    exact Or.inr ((t.unlink key).expires_sub k hk)
  lru_nodup := by
    refine List.nodup_cons.mpr ⟨?_, (t.unlink key).lru_nodup⟩
    rw [(t.unlink key).mem_lru, unlink, AList.mem_erase]
    simp
  mem_lru k := by rw [List.mem_cons, AList.mem_insert, (t.unlink key).mem_lru]
  slots_nodup sl := by
    by_cases h : sl = key_hash_slot key
    · subst h
      rw [Function.update_self]
      refine List.nodup_cons.mpr ⟨?_, (t.unlink key).slots_nodup _⟩
      rw [(t.unlink key).mem_slots, unlink, AList.mem_erase]
      simp
    · rw [Function.update_of_ne h]
      exact (t.unlink key).slots_nodup sl
  mem_slots sl k := by
    by_cases h : sl = key_hash_slot key
    · subst h
      rw [Function.update_self, List.mem_cons, AList.mem_insert, (t.unlink key).mem_slots]
      constructor
      · rintro (rfl | ⟨hk, hs⟩)
        · exact ⟨Or.inl rfl, rfl⟩
        · exact ⟨Or.inr hk, hs⟩
      · rintro ⟨rfl | hk, hs⟩
        · exact Or.inl rfl
        · exact Or.inr ⟨hk, hs⟩
    · rw [Function.update_of_ne h, AList.mem_insert, (t.unlink key).mem_slots]
      constructor
      · rintro ⟨hk, hs⟩
        exact ⟨Or.inr hk, hs⟩
      · rintro ⟨rfl | hk, hs⟩
        · exact absurd hs.symm h
        · exact ⟨hk, hs⟩

/-- `entry->value = value` on an existing entry. -/
def assign (t : Tables) (key : Key) (value : Bytes) : Tables :=
  if h : key ∈ t.dict then
    { t with
      dict := t.dict.insert key value
      expires_sub := fun k hk => AList.mem_insert _ |>.mpr (Or.inr (t.expires_sub k hk))
      mem_lru := fun k => by
        rw [t.mem_lru, AList.mem_insert]
        exact ⟨Or.inr, fun hk => hk.elim (fun e => e ▸ h) id⟩
      mem_slots := fun sl k => by
        rw [t.mem_slots, AList.mem_insert]
        have hk : k = key ∨ k ∈ t.dict ↔ k ∈ t.dict :=
          ⟨fun hk => hk.elim (fun e => e ▸ h) id, Or.inr⟩
        rw [hk] }
  else t

/-- `lru_.splice(lru_.begin(), lru_, entry->lru_pos)` on an existing entry. -/
def touch (t : Tables) (key : Key) : Tables :=
  if h : key ∈ t.dict then
    { t with
      lru := key :: t.lru.erase key
      lru_nodup := List.nodup_cons.mpr ⟨t.lru_nodup.not_mem_erase, t.lru_nodup.erase key⟩
      mem_lru := fun k => by
        rw [List.mem_cons, t.lru_nodup.mem_erase_iff, t.mem_lru]
        constructor
        · rintro (rfl | hk)
          · exact h
          · exact hk.2
        · intro hk
          by_cases e : k = key
          · exact Or.inl e
          · exact Or.inr ⟨e, hk⟩ }
  else t

/-- `expires_.set(key, when_ms)` for an existing entry. -/
def setDeadline (t : Tables) (key : Key) (when_ms : Int) : Tables :=
  if h : key ∈ t.dict then
    { t with
      expires := t.expires.insert key when_ms
      expires_sub := fun k hk => by
        rcases (AList.mem_insert _).mp hk with rfl | hk
        · exact h
        · exact t.expires_sub k hk }
  else t

/-- `expires_.del(key)`. -/
def clearDeadline (t : Tables) (key : Key) : Tables :=
  { t with
    expires := t.expires.erase key
    expires_sub := fun k hk => t.expires_sub k ((AList.mem_erase).mp hk).2 }

/-! ## What the changes mean -/

/-- A key's value and deadline. -/
def view (t : Tables) : Space Key Bytes Int :=
  fun k => (t.dict.lookup k).map fun v => (v, t.expires.lookup k)

theorem view_eq_none : t.view k = none ↔ k ∉ t.dict := by
  rw [view, Option.map_eq_none_iff, AList.lookup_eq_none]

theorem view_isSome : (t.view k).isSome ↔ k ∈ t.dict := by
  rw [view, Option.isSome_map, AList.lookup_isSome]

/-- A deadline in the table is the deadline of a stored value. -/
theorem view_of_deadline {d : Int} (h : t.expires.lookup k = some d) :
    ∃ v, t.view k = some (v, some d) := by
  have hk : k ∈ t.expires := AList.lookup_isSome.mp (by rw [h]; rfl)
  obtain ⟨v, hv⟩ := Option.isSome_iff_exists.mp (AList.lookup_isSome.mpr (t.expires_sub k hk))
  exact ⟨v, by rw [view, hv, h]; rfl⟩

@[simp] theorem view_unlink (t : Tables) (key : Key) :
    (t.unlink key).view = Function.update t.view key none := by
  funext k
  by_cases h : k = key
  · subst h
    simp [view, unlink]
  · simp [view, unlink, h]

@[simp] theorem view_link (t : Tables) (key : Key) (value : Bytes) :
    (t.link key value).view = Function.update t.view key (some (value, none)) := by
  funext k
  by_cases h : k = key
  · subst h
    simp [view, link, unlink]
  · simp [view, link, unlink, h]

@[simp] theorem view_assign (t : Tables) (key : Key) (value : Bytes) :
    (t.assign key value).view
      = Function.update t.view key ((t.view key).map fun e => (value, e.2)) := by
  unfold assign
  split
  case isTrue hk =>
    obtain ⟨v, hv⟩ := Option.isSome_iff_exists.mp (AList.lookup_isSome.mpr hk)
    funext k
    by_cases h : k = key
    · subst h
      simp [view, hv]
    · simp [view, h]
  case isFalse hk =>
    rw [view_eq_none.mpr hk, Option.map_none, ← view_eq_none.mpr hk, Function.update_eq_self]

@[simp] theorem view_touch (t : Tables) (key : Key) : (t.touch key).view = t.view := by
  unfold touch
  split <;> rfl

@[simp] theorem view_setDeadline (t : Tables) (key : Key) (when_ms : Int) :
    (t.setDeadline key when_ms).view
      = Function.update t.view key ((t.view key).map fun e => (e.1, some when_ms)) := by
  unfold setDeadline
  split
  case isTrue hk =>
    funext k
    by_cases h : k = key
    · subst h
      simp [view, Function.comp_def]
    · simp [view, h]
  case isFalse hk =>
    rw [view_eq_none.mpr hk, Option.map_none, ← view_eq_none.mpr hk, Function.update_eq_self]

@[simp] theorem view_clearDeadline (t : Tables) (key : Key) :
    (t.clearDeadline key).view
      = Function.update t.view key ((t.view key).map fun e => (e.1, none)) := by
  funext k
  by_cases h : k = key
  · subst h
    simp [view, clearDeadline, Function.comp_def]
  · simp [view, clearDeadline, h]

end Tables

end EpochKV

/-
The hash table (`hash_table.hpp`), generic in the values.

Two arrays of chains. A resize allocates the second one and moves the chains of the first
over, a few at a time, from index 0 on; `rehash_idx` is the first one not moved yet. A key is
looked for in one chain only, of the old array if its index there is not moved yet and of the
new one otherwise, so everything turns on every node being filed where that rule says
(`Filed`). Given this, the chains together (`entries`) are the table, in an order that is
nobody's business: moving a chain permutes them, `set` and `del` change the one chain, and
a new resize, which may start inside any of these, changes nothing.

`contents` is the finite map of the entries. The last section runs any sequence of calls on
any number of tables, moved from one to another, beside the same calls on finite maps.
-/
import Mathlib.Data.Finmap
import Mathlib.Data.List.Lookmap
import EpochKV.Runs
import EpochKV.Text

set_option autoImplicit false

namespace EpochKV

open Text

/-- A node of a chain: key and value. -/
abbrev HashTable.Node (V : Type) := (_ : Bytes) × V

structure HashTable (V : Type) where
  /-- `tables_[0]`. -/
  old : List (List (HashTable.Node V))
  /-- `tables_[1]`; without buckets unless a resize is going on. -/
  new : List (List (HashTable.Node V)) := []
  rehash_idx : Nat := 0
  num_entries : Nat := 0

variable {i : Nat} {key : Bytes} {α : Type} {table : List (List α)} {x : α}

namespace HashTable

variable {V : Type}

/-! ## The functions -/

def kInitialBucketCount : Nat := 16

def make_table (size : Nat) : List (List (Node V)) := List.replicate size []

/-- The constructor. -/
def fresh : HashTable V := { old := make_table kInitialBucketCount }

def bucket_index (hash size : Nat) : Nat := hash &&& (size - 1)

/-- FNV-1a. -/
def hash_key (key : Bytes) : Nat :=
  (key.foldl (fun (hash : UInt64) c => (hash ^^^ c.toUInt64) * 1099511628211)
    14695981039346656037).toNat

/-- The index of the bucket of a key in an array. -/
def home (table : List (List (Node V))) (key : Bytes) : Nat :=
  bucket_index (hash_key key) table.length

def rehashing (t : HashTable V) : Bool := t.new.length ≠ 0

def size (t : HashTable V) : Nat := t.num_entries

/-- The bucket of the key in the old array was moved. -/
def moved (t : HashTable V) (key : Bytes) : Bool := t.rehashing && home t.old key < t.rehash_idx

def bucket_for (t : HashTable V) (key : Bytes) : List (Node V) :=
  if t.moved key then t.new.getD (home t.new key) [] else t.old.getD (home t.old key) []

/-- What is stored through the reference that `bucket_for` returns. -/
def assign_bucket (t : HashTable V) (key : Bytes) (chain : List (Node V)) : HashTable V :=
  if t.moved key then { t with new := t.new.set (home t.new key) chain }
  else { t with old := t.old.set (home t.old key) chain }

/-- The load factor is a double: `load > 0.75`, and `load < 0.1` with the double next to 0.1. -/
def maybe_resize (t : HashTable V) : HashTable V :=
  if t.rehashing then t
  else
    let buckets := t.old.length
    if 4 * t.num_entries > 3 * buckets then { t with new := make_table (buckets * 2) }
    else if buckets > kInitialBucketCount ∧
        t.num_entries * 2 ^ 55 < 3602879701896397 * buckets then
      { t with new := make_table (buckets / 2) }
    else t

/-- A node goes to the head of its chain in the new array. -/
def relink (table : List (List (Node V))) (node : Node V) : List (List (Node V)) :=
  table.set (home table node.1) (node :: table.getD (home table node.1) [])

/-- The loop of `rehash_step`, with `left` old buckets to go; `empty_visits` is a `size_t` and
wraps below 0. -/
def rehash_loop : Nat → Nat → Nat → HashTable V → HashTable V
  | 0, _, _, t => t
  | left + 1, n, empty_visits, t =>
    if n = 0 then t
    else
      match t.old.getD t.rehash_idx [] with
      | [] =>
        let t := { t with rehash_idx := t.rehash_idx + 1 }
        let empty_visits := (empty_visits + (2 ^ 64 - 1)) % 2 ^ 64
        if empty_visits = 0 then t else rehash_loop left n empty_visits t
      | node :: chain =>
        let t := { t with
          old := t.old.set t.rehash_idx []
          new := (node :: chain).foldl relink t.new
          rehash_idx := t.rehash_idx + 1 }
        rehash_loop left (n - 1) empty_visits t

def rehash_step (t : HashTable V) (n : Nat) : Bool × HashTable V :=
  if ¬ t.rehashing then (false, t)
  else
    let t := rehash_loop (t.old.length - t.rehash_idx) n (n * 10 % 2 ^ 64) t
    let t :=
      if t.rehash_idx = t.old.length then
        maybe_resize { t with old := t.new, new := [], rehash_idx := 0 }
      else t
    (t.rehashing, t)

/-- Whether the key was newly inserted. -/
def set (t : HashTable V) (key : Bytes) (value : V) : Bool × HashTable V :=
  let t := (t.rehash_step 1).2
  let head := t.bucket_for key
  if key ∈ head.keys then (false, t.assign_bucket key (head.kreplace key value))
  else
    let t := t.assign_bucket key (⟨key, value⟩ :: head)
    (true, { t with num_entries := t.num_entries + 1 }.maybe_resize)

def find (t : HashTable V) (key : Bytes) : Option V := (t.bucket_for key).dlookup key

/-- What a caller stores through the pointer that `find` returned. -/
def assign (t : HashTable V) (key : Bytes) (value : V) : HashTable V :=
  if key ∈ (t.bucket_for key).keys then
    t.assign_bucket key ((t.bucket_for key).kreplace key value)
  else t

def get (t : HashTable V) (key : Bytes) : Option V := t.find key

def contains (t : HashTable V) (key : Bytes) : Bool := (t.find key).isSome

def del (t : HashTable V) (key : Bytes) : Bool × HashTable V :=
  let t := (t.rehash_step 1).2
  let head := t.bucket_for key
  if key ∈ head.keys then
    let t := t.assign_bucket key (head.kerase key)
    (true, { t with num_entries := t.num_entries - 1 }.maybe_resize)
  else (false, t)

/-- What `for_each` hands out, in its order. -/
def for_each (t : HashTable V) : List (Node V) := t.old.flatten ++ t.new.flatten

/-! ## Chains and arrays -/

/-- The chains before the one at `i`, and those behind it. -/
theorem flatten_split (h : i < table.length) :
    ∃ before after, table.flatten = before ++ table.getD i [] ++ after ∧
      ∀ chain, (table.set i chain).flatten = before ++ chain ++ after := by
  refine ⟨(table.take i).flatten, (table.drop (i + 1)).flatten, ?_, ?_⟩
  · have hsplit : table = table.take i ++ table.getD i [] :: table.drop (i + 1) := by
      rw [List.getD_eq_getElem?_getD, List.getElem?_eq_getElem h, Option.getD_some,
        ← List.drop_eq_getElem_cons h, List.take_append_drop]
    have hflat := congrArg List.flatten hsplit
    rwa [List.flatten_append, List.flatten_cons, ← List.append_assoc] at hflat
  · intro chain
    rw [List.set_eq_take_append_cons_drop, if_pos h]
    simp

theorem mem_flatten_iff : x ∈ table.flatten ↔ ∃ i < table.length, x ∈ table.getD i [] := by
  rw [List.mem_flatten]
  constructor
  · rintro ⟨chain, hchain, hx⟩
    obtain ⟨i, hi, rfl⟩ := List.mem_iff_getElem.1 hchain
    refine ⟨i, hi, ?_⟩
    rwa [List.getD_eq_getElem?_getD, List.getElem?_eq_getElem hi]
  · rintro ⟨i, hi, hx⟩
    rw [List.getD_eq_getElem?_getD, List.getElem?_eq_getElem hi] at hx
    exact ⟨_, List.getElem_mem hi, hx⟩

/-- A chain of an array in which one was changed. -/
theorem mem_getD_set {j : Nat} {chain : List α} (h : x ∈ (table.set i chain).getD j []) :
    (i = j ∧ x ∈ chain) ∨ (i ≠ j ∧ x ∈ table.getD j []) := by
  rw [List.getD_eq_getElem?_getD, List.getElem?_set] at h
  by_cases hij : i = j
  · rw [if_pos hij] at h
    split at h
    · exact .inl ⟨hij, h⟩
    · simp at h
  · rw [if_neg hij] at h
    exact .inr ⟨hij, h⟩

theorem forall_mem_set {P : Nat → α → Prop} {chain : List α}
    (h : ∀ j, ∀ x ∈ table.getD j [], P j x) (hchain : ∀ x ∈ chain, P i x) :
    ∀ j, ∀ x ∈ (table.set i chain).getD j [], P j x := by
  intro j x hx
  rcases mem_getD_set hx with ⟨rfl, hmem⟩ | ⟨-, hmem⟩
  · exact hchain x hmem
  · exact h j x hmem

variable {chain : List (Node V)}

/-- Overwriting an entry is erasing it and putting the new one in front, but for the order. -/
theorem kreplace_perm (h : key ∈ chain.keys) (value : V) :
    (chain.kreplace key value).Perm (chain.kinsert key value) := by
  induction chain with
  | nil => simp at h
  | cons node chain ih =>
    obtain ⟨k, v⟩ := node
    by_cases hk : key = k
    · subst hk
      have hhead : (⟨key, v⟩ :: chain : List (Node V)).kreplace key value = ⟨key, value⟩ :: chain :=
        List.lookmap_cons_some _ _ (if_pos rfl)
      rw [hhead, List.kinsert_def, List.kerase_cons_eq (show key = (⟨key, v⟩ : Node V).1 from rfl)]
    · have hmem : key ∈ chain.keys := by simpa [hk] using h
      have hhead : (⟨k, v⟩ :: chain : List (Node V)).kreplace key value =
          ⟨k, v⟩ :: chain.kreplace key value :=
        List.lookmap_cons_none _ _ (if_neg hk)
      rw [hhead, List.kinsert_def, List.kerase_cons_ne hk]
      exact ((ih hmem).cons _).trans (List.Perm.swap _ _ _)

variable {nodes : List (Node V)}

/-- The entries of a list without a repeated key are those of its finite map. -/
theorem entries_toFinmap (h : nodes.NodupKeys) : nodes.toFinmap.entries = nodes := by
  have hmap : nodes.toFinmap = AList.toFinmap ⟨nodes, h⟩ := by
    apply Finmap.ext_lookup
    intro k
    rw [Finmap.dlookup_list_toFinmap, Finmap.lookup_toFinmap]
    rfl
  rw [hmap]
  rfl

theorem toFinmap_congr {nodes' : List (Node V)} (hnd : nodes.NodupKeys) (h : nodes.Perm nodes') :
    nodes.toFinmap = nodes'.toFinmap := by
  apply Finmap.ext_lookup
  intro k
  rw [Finmap.dlookup_list_toFinmap, Finmap.dlookup_list_toFinmap, List.perm_dlookup k hnd h]

theorem home_lt {table : List (List (Node V))} (h : 0 < table.length) (key : Bytes) :
    home table key < table.length := by
  have : home table key ≤ table.length - 1 := Nat.and_le_right
  omega

@[simp] theorem length_relink (table : List (List (Node V))) (node : Node V) :
    (relink table node).length = table.length :=
  List.length_set

/-- A bucket's index depends on the number of buckets alone. -/
theorem home_congr {table table' : List (List (Node V))} (h : table'.length = table.length)
    (key : Bytes) : home table' key = home table key := by
  rw [home, h, home]

theorem length_foldl_relink (chain : List (Node V)) (table : List (List (Node V))) :
    (chain.foldl relink table).length = table.length := by
  induction chain generalizing table with
  | nil => rfl
  | cons node chain ih => rw [List.foldl_cons, ih, length_relink]

theorem flatten_foldl_relink (chain : List (Node V)) {table : List (List (Node V))}
    (h : 0 < table.length) : (chain.foldl relink table).flatten.Perm (chain ++ table.flatten) := by
  induction chain generalizing table with
  | nil => rfl
  | cons node chain ih =>
    obtain ⟨before, after, hflat, hset⟩ := flatten_split (home_lt h node.1)
    have hnode : (relink table node).flatten.Perm (node :: table.flatten) := by
      rw [relink, hset, hflat]
      simp
    have hrest := ih (show 0 < (relink table node).length by rwa [length_relink])
    exact (hrest.trans (hnode.append_left chain)).trans List.perm_middle

variable {e : Node V}

/-- Every node of the new array was there or came with the chain, to its own bucket. -/
theorem mem_foldl_relink {table : List (List (Node V))}
    (h : e ∈ (chain.foldl relink table).getD i []) :
    e ∈ table.getD i [] ∨ e ∈ chain ∧ home table e.1 = i := by
  induction chain generalizing table with
  | nil => exact .inl h
  | cons node chain ih =>
    rcases ih h with hmem | ⟨hmem, hhome⟩
    · rcases mem_getD_set hmem with ⟨rfl, hnode⟩ | ⟨-, hmem⟩
      · rcases List.mem_cons.1 hnode with rfl | hmem
        · exact .inr ⟨List.mem_cons_self, rfl⟩
        · exact .inl hmem
      · exact .inl hmem
    · rw [home_congr (length_relink table node)] at hhome
      exact .inr ⟨List.mem_cons_of_mem _ hmem, hhome⟩

/-! ## Where a node is -/

/-- Every node lies where `bucket_for` looks for its key. -/
structure Filed (t : HashTable V) : Prop where
  pos : 0 < t.old.length
  le : t.rehash_idx ≤ t.old.length
  idle : t.new = [] → t.rehash_idx = 0
  old : ∀ i, ∀ e ∈ t.old.getD i [], home t.old e.1 = i ∧ t.rehash_idx ≤ i
  new : ∀ i, ∀ e ∈ t.new.getD i [], home t.new e.1 = i ∧ home t.old e.1 < t.rehash_idx

/-- The table between two calls. -/
structure Valid (t : HashTable V) : Prop extends Filed t where
  lt : t.rehash_idx < t.old.length
  nodup : t.for_each.NodupKeys
  count : t.num_entries = t.for_each.length

variable {t : HashTable V}

theorem rehashing_iff : t.rehashing = true ↔ t.new ≠ [] := by
  simp [rehashing]

theorem Filed.mem_bucket_for (h : t.Filed) (he : e ∈ t.for_each) : e ∈ t.bucket_for e.1 := by
  unfold bucket_for moved
  rcases List.mem_append.1 he with he | he
  · obtain ⟨i, -, hmem⟩ := mem_flatten_iff.1 he
    obtain ⟨hhome, hle⟩ := h.old i e hmem
    rw [if_neg (by simp [hhome, hle]), hhome]
    exact hmem
  · obtain ⟨i, hi, hmem⟩ := mem_flatten_iff.1 he
    obtain ⟨hhome, hlt⟩ := h.new i e hmem
    have hne : t.new ≠ [] := List.ne_nil_of_length_pos (by omega)
    rw [if_pos (by simp [rehashing_iff.2 hne, hlt]), hhome]
    exact hmem

/-- The bucket of a key among the others, and what storing another chain there does. -/
theorem Filed.split (h : t.Filed) (key : Bytes) :
    ∃ before after, t.for_each = before ++ t.bucket_for key ++ after ∧
      ∀ chain, (t.assign_bucket key chain).for_each = before ++ chain ++ after := by
  unfold bucket_for assign_bucket for_each
  by_cases hm : t.moved key
  · have hne : t.new ≠ [] := rehashing_iff.1 (by simp_all [moved])
    obtain ⟨before, after, hflat, hset⟩ :=
      flatten_split (home_lt (List.length_pos_of_ne_nil hne) key)
    refine ⟨t.old.flatten ++ before, after, ?_, ?_⟩
    · rw [if_pos hm, hflat]
      simp
    · intro chain
      rw [if_pos hm]
      simp [hset]
  · obtain ⟨before, after, hflat, hset⟩ := flatten_split (home_lt h.pos key)
    refine ⟨before, after ++ t.new.flatten, ?_, ?_⟩
    · rw [if_neg hm, hflat]
      simp
    · intro chain
      rw [if_neg hm]
      simp [hset]

/-- A chain of nodes of the bucket and of new ones for the key can be stored there. -/
theorem Filed.assign_bucket (h : t.Filed) (hchain : ∀ e ∈ chain, e.1 = key ∨ e ∈ t.bucket_for key) :
    (t.assign_bucket key chain).Filed := by
  unfold bucket_for at hchain
  unfold HashTable.assign_bucket
  by_cases hm : t.moved key
  · have hlt : home t.old key < t.rehash_idx := by simp_all [moved]
    simp only [if_pos hm] at hchain ⊢
    have hhome := home_congr (List.length_set : (t.new.set (home t.new key) chain).length = _)
    refine ⟨h.pos, h.le, ?_, h.old, ?_⟩
    · intro hnil
      exact h.idle ((List.set_eq_nil_iff _ _).1 hnil)
    · simp only [hhome]
      refine forall_mem_set h.new fun e he => ?_
      rcases hchain e he with hkey | hmem
      · rw [hkey]
        exact ⟨rfl, hlt⟩
      · exact h.new _ e hmem
  · simp only [if_neg hm] at hchain ⊢
    have hhome := home_congr (List.length_set : (t.old.set (home t.old key) chain).length = _)
    -- a key that is not moved is at the index or above
    have hle : t.rehash_idx ≤ home t.old key := by
      by_cases hne : t.new = []
      · rw [h.idle hne]
        exact Nat.zero_le _
      · simpa [moved, rehashing_iff.2 hne] using hm
    refine ⟨by simpa using h.pos, by simpa using h.le, h.idle, ?_, ?_⟩
    · simp only [hhome]
      refine forall_mem_set h.old fun e he => ?_
      rcases hchain e he with hkey | hmem
      · rw [hkey]
        exact ⟨rfl, hle⟩
      · exact h.old _ e hmem
    · simp only [hhome]
      exact h.new

/-! ## Resizing -/

theorem getD_make_table (size i : Nat) : (make_table size : List (List (Node V))).getD i [] = [] := by
  rw [make_table, List.getD_eq_getElem?_getD, List.getElem?_replicate]
  split <;> rfl

theorem flatten_make_table (size : Nat) : (make_table size : List (List (Node V))).flatten = [] := by
  simp [make_table]

/-- A resize may begin at any time, with no bucket moved yet. -/
theorem Valid.begin (h : t.Valid) (hidle : t.new = []) (buckets : Nat) :
    Valid { t with new := make_table buckets } ∧
      for_each { t with new := make_table buckets } = t.for_each := by
  have hsame : for_each { t with new := make_table buckets } = t.for_each := by
    rw [for_each, for_each, hidle, flatten_make_table]
    rfl
  have hfiled : Filed { t with new := make_table buckets } := by
    refine ⟨h.pos, h.le, fun _ => h.idle hidle, h.old, ?_⟩
    intro i e he
    rw [getD_make_table] at he
    simp at he
  exact ⟨⟨hfiled, h.lt, by rw [hsame]; exact h.nodup, by rw [hsame]; exact h.count⟩, hsame⟩

theorem maybe_resize_spec (h : t.Valid) :
    t.maybe_resize.Valid ∧ t.maybe_resize.for_each = t.for_each := by
  unfold maybe_resize
  split
  · exact ⟨h, rfl⟩
  next hidle =>
    have hidle : t.new = [] := by
      by_contra hne
      exact hidle (rehashing_iff.2 hne)
    dsimp only
    split
    · exact h.begin hidle _
    · split
      · exact h.begin hidle _
      · exact ⟨h, rfl⟩

/-- What moving buckets leaves as it is. -/
structure Shuffled (t t' : HashTable V) : Prop where
  filed : t'.Filed
  busy : t'.new ≠ []
  num_entries : t'.num_entries = t.num_entries
  perm : t'.for_each.Perm t.for_each

variable {t' : HashTable V}

theorem Shuffled.trans {t'' : HashTable V} (h : Shuffled t t') (h' : Shuffled t' t'') :
    Shuffled t t'' :=
  ⟨h'.filed, h'.busy, h'.num_entries.trans h.num_entries, h'.perm.trans h.perm⟩

/-- An empty bucket is passed over. -/
theorem Filed.skip (h : t.Filed) (hbusy : t.new ≠ []) (hlt : t.rehash_idx < t.old.length)
    (hempty : t.old.getD t.rehash_idx [] = []) :
    Shuffled t { t with rehash_idx := t.rehash_idx + 1 } := by
  refine ⟨⟨h.pos, hlt, fun hnil => absurd hnil hbusy, ?_, ?_⟩, hbusy, rfl, .refl _⟩
  · intro i e he
    obtain ⟨hhome, hle⟩ := h.old i e he
    refine ⟨hhome, Nat.lt_of_le_of_ne hle ?_⟩
    rintro rfl
    rw [hempty] at he
    simp at he
  · intro i e he
    obtain ⟨hhome, hlt⟩ := h.new i e he
    exact ⟨hhome, Nat.lt_succ_of_lt hlt⟩

/-- A bucket is moved. -/
theorem Filed.move (h : t.Filed) (hbusy : t.new ≠ []) (hlt : t.rehash_idx < t.old.length) :
    Shuffled t { t with
      old := t.old.set t.rehash_idx []
      new := (t.old.getD t.rehash_idx []).foldl relink t.new
      rehash_idx := t.rehash_idx + 1 } := by
  have hpos := List.length_pos_of_ne_nil hbusy
  have hlen := length_foldl_relink (t.old.getD t.rehash_idx []) t.new
  have hold := home_congr (List.length_set : (t.old.set t.rehash_idx []).length = _)
  have hbusy' : (t.old.getD t.rehash_idx []).foldl relink t.new ≠ [] :=
    List.ne_nil_of_length_pos (by omega)
  refine ⟨⟨?_, ?_, fun hnil => absurd hnil hbusy', ?_, ?_⟩, hbusy', rfl, ?_⟩
  · simpa using h.pos
  · simpa using hlt
  · intro i e he
    rw [hold]
    rcases mem_getD_set he with ⟨-, hmem⟩ | ⟨hne, hmem⟩
    · simp at hmem
    · obtain ⟨hhome, hle⟩ := h.old i e hmem
      exact ⟨hhome, Nat.lt_of_le_of_ne hle hne⟩
  · intro i e he
    rw [hold, home_congr hlen]
    rcases mem_foldl_relink he with hmem | ⟨hmem, hhome⟩
    · obtain ⟨hhome, hlt⟩ := h.new i e hmem
      exact ⟨hhome, Nat.lt_succ_of_lt hlt⟩
    · rw [(h.old _ e hmem).1]
      exact ⟨hhome, Nat.lt_succ_self _⟩
  · obtain ⟨before, after, hflat, hset⟩ := flatten_split hlt
    unfold for_each
    rw [hset, hflat]
    have hmoved := flatten_foldl_relink (t.old.getD t.rehash_idx []) hpos
    refine (hmoved.append_left _).trans ?_
    -- the chain from between the others to the front of the new array
    simpa using (List.perm_append_comm_assoc after (t.old.getD t.rehash_idx []) _).append_left before

theorem rehash_loop_spec (left n empty_visits : Nat) (h : t.Filed) (hbusy : t.new ≠ [])
    (hleft : t.rehash_idx + left ≤ t.old.length) :
    Shuffled t (rehash_loop left n empty_visits t) := by
  induction left generalizing n empty_visits t with
  | zero => exact ⟨h, hbusy, rfl, .refl _⟩
  | succ left ih =>
    have hlt : t.rehash_idx < t.old.length := by omega
    rw [rehash_loop]
    split
    · exact ⟨h, hbusy, rfl, .refl _⟩
    split
    next hempty =>
      have hskip := h.skip hbusy hlt hempty
      dsimp only
      split
      · exact hskip
      · apply hskip.trans
        apply ih n _ hskip.filed hskip.busy
        dsimp only
        omega
    next node chain hchain =>
      have hmove := h.move hbusy hlt
      rw [hchain] at hmove
      apply hmove.trans
      apply ih (n - 1) empty_visits hmove.filed hmove.busy
      simp only [List.length_set]
      omega

/-- **A call of `rehash_step` shows nowhere**, whether it moves buckets, ends the resize or
begins the next. -/
theorem rehash_step_spec (h : t.Valid) (n : Nat) :
    (t.rehash_step n).2.Valid ∧ (t.rehash_step n).2.for_each.Perm t.for_each := by
  unfold rehash_step
  split
  · exact ⟨h, .refl _⟩
  next hbusy =>
    have hbusy : t.new ≠ [] := rehashing_iff.1 (by simpa using hbusy)
    have hle := h.lt
    have hloop := rehash_loop_spec (t.old.length - t.rehash_idx) n (n * 10 % 2 ^ 64) h.toFiled hbusy
      (by omega)
    dsimp only
    generalize rehash_loop _ _ _ t = t' at hloop ⊢
    have hnodup : t'.for_each.NodupKeys := (List.perm_nodupKeys hloop.perm).2 h.nodup
    have hcount : t'.num_entries = t'.for_each.length := by
      rw [hloop.num_entries, h.count, hloop.perm.length_eq]
    split
    next hend =>
      -- nothing is left in the old array
      have hnone : t'.old.flatten = [] := by
        rw [List.eq_nil_iff_forall_not_mem]
        intro e he
        obtain ⟨i, hi, hmem⟩ := mem_flatten_iff.1 he
        have := (hloop.filed.old i e hmem).2
        omega
      have hsame : for_each { t' with old := t'.new, new := [], rehash_idx := 0 } = t'.for_each := by
        simp [for_each, hnone]
      have hpos := List.length_pos_of_ne_nil hloop.busy
      have hvalid : Valid { t' with old := t'.new, new := [], rehash_idx := 0 } := by
        refine ⟨⟨hpos, Nat.zero_le _, fun _ => rfl, ?_, ?_⟩, hpos, ?_, ?_⟩
        · intro i e he
          exact ⟨(hloop.filed.new i e he).1, Nat.zero_le _⟩
        · intro i e he
          simp at he
        · rw [hsame]
          exact hnodup
        · rw [hsame]
          exact hcount
      obtain ⟨hvalid', hsame'⟩ := maybe_resize_spec hvalid
      refine ⟨hvalid', ?_⟩
      rw [hsame', hsame]
      exact hloop.perm
    next hmore =>
      have hlt := Nat.lt_of_le_of_ne hloop.filed.le hmore
      exact ⟨⟨hloop.filed, hlt, hnodup, hcount⟩, hloop.perm⟩

/-! ## The finite map -/

/-- What the table stands for. -/
def contents (t : HashTable V) : Finmap fun _ : Bytes => V := t.for_each.toFinmap

theorem Valid.fresh : (fresh : HashTable V).Valid := by
  have hempty : (HashTable.fresh : HashTable V).for_each = [] := by
    simp [for_each, HashTable.fresh, make_table]
  have hpos : 0 < (HashTable.fresh : HashTable V).old.length := by
    simp [HashTable.fresh, make_table, kInitialBucketCount]
  refine ⟨⟨hpos, Nat.zero_le _, fun _ => rfl, ?_, ?_⟩, hpos, ?_, ?_⟩
  · intro i e he
    rw [HashTable.fresh, getD_make_table] at he
    simp at he
  · intro i e he
    simp [HashTable.fresh] at he
  · rw [hempty]
    exact List.nodupKeys_nil
  · rw [hempty]
    rfl

theorem contents_fresh : (fresh : HashTable V).contents = ∅ := by
  simp [contents, for_each, fresh, make_table]

theorem Valid.entries (h : t.Valid) : t.contents.entries = t.for_each :=
  entries_toFinmap h.nodup

theorem Valid.size_eq (h : t.Valid) : t.size = t.contents.keys.card := by
  have hkeys : t.contents.keys.val = t.contents.entries.map Sigma.fst := rfl
  rw [size, h.count, Finset.card_def, hkeys, h.entries]
  simp

theorem Filed.mem_keys_bucket_for (h : t.Filed) :
    key ∈ (t.bucket_for key).keys ↔ key ∈ t.for_each.keys := by
  obtain ⟨before, after, heq, -⟩ := h.split key
  constructor
  · intro hk
    rw [heq, List.keys, List.map_append, List.map_append]
    exact List.mem_append_left _ (List.mem_append_right _ hk)
  · intro hk
    obtain ⟨e, he, rfl⟩ := List.mem_map.1 hk
    exact List.mem_map.2 ⟨e, h.mem_bucket_for he, rfl⟩

/-- The one chain that is looked at says what all entries say. -/
theorem dlookup_for_each (h : t.Valid) (key : Bytes) : t.for_each.dlookup key = t.find key := by
  obtain ⟨before, after, heq, -⟩ := h.split key
  have hnodup : (t.bucket_for key).NodupKeys := by
    have hsub : (t.bucket_for key).Sublist t.for_each := by
      rw [heq, List.append_assoc]
      exact (List.sublist_append_left _ _).trans (List.sublist_append_right _ _)
    exact h.nodup.sublist hsub
  apply Option.ext
  intro v
  rw [find, ← Option.mem_def, ← Option.mem_def, List.mem_dlookup_iff h.nodup,
    List.mem_dlookup_iff hnodup]
  refine ⟨h.mem_bucket_for, ?_⟩
  intro hmem
  rw [heq]
  exact List.mem_append_left _ (List.mem_append_right _ hmem)

theorem find_eq (h : t.Valid) (key : Bytes) : t.find key = t.contents.lookup key := by
  rw [contents, Finmap.dlookup_list_toFinmap, dlookup_for_each h]

/-- A table with these entries, in any order, finds what is among them. -/
theorem find_of_perm (h : t.Valid) (hperm : t.for_each.Perm nodes) (key : Bytes) :
    t.find key = nodes.dlookup key := by
  rw [← dlookup_for_each h, List.perm_dlookup key h.nodup hperm]

/-- A call that changed one bucket: what is left of `Valid` to see to is the keys and the count. -/
theorem Filed.settle (h : t.Filed) (hlt : t.rehash_idx < t.old.length)
    (hchain : ∀ e ∈ chain, e.1 = key ∨ e ∈ t.bucket_for key) {n : Nat}
    (hnodup : (t.assign_bucket key chain).for_each.NodupKeys)
    (hcount : n = (t.assign_bucket key chain).for_each.length) :
    Valid { t.assign_bucket key chain with num_entries := n } := by
  have hfiled := h.assign_bucket hchain
  have hlt' : (t.assign_bucket key chain).rehash_idx < (t.assign_bucket key chain).old.length := by
    unfold HashTable.assign_bucket
    split
    · exact hlt
    · simpa using hlt
  exact ⟨⟨hfiled.pos, hfiled.le, hfiled.idle, hfiled.old, hfiled.new⟩, hlt', hnodup, hcount⟩

theorem num_entries_assign_bucket (t : HashTable V) (key : Bytes) (chain : List (Node V)) :
    (t.assign_bucket key chain).num_entries = t.num_entries := by
  unfold HashTable.assign_bucket
  split <;> rfl

theorem mem_contents : key ∈ t.contents ↔ key ∈ t.for_each.keys := by
  rw [contents, Finmap.mem_list_toFinmap]
  simp [List.keys]

/-- Erasing a key from one of three lists that have no key twice. -/
theorem kerase_middle {before after : List (Node V)} (hnodup : (before ++ chain ++ after).NodupKeys)
    (hk : key ∈ chain.keys) :
    (before ++ chain ++ after).kerase key = before ++ chain.kerase key ++ after := by
  have hbefore : key ∉ before.keys := by
    intro hmem
    rw [List.NodupKeys, List.keys, List.append_assoc, List.map_append] at hnodup
    refine List.disjoint_of_nodup_append hnodup hmem ?_
    rw [List.map_append]
    exact List.mem_append_left _ hk
  rw [List.append_assoc, List.kerase_append_right hbefore, List.kerase_append_left hk,
    List.append_assoc]

section

variable (h : t.Valid)
include h

/-- The value of a node is overwritten. -/
theorem Valid.overwrite (hk : key ∈ (t.bucket_for key).keys) (value : V) :
    (t.assign_bucket key ((t.bucket_for key).kreplace key value)).Valid ∧
      (t.assign_bucket key ((t.bucket_for key).kreplace key value)).for_each.Perm
        (t.for_each.kinsert key value) := by
  obtain ⟨before, after, heq, hset⟩ := h.split key
  have hnodup := h.nodup
  rw [heq] at hnodup
  have hreplace := kreplace_perm hk value
  have hperm : (t.assign_bucket key ((t.bucket_for key).kreplace key value)).for_each.Perm
      (t.for_each.kinsert key value) := by
    rw [hset, List.kinsert_def, heq, kerase_middle hnodup hk]
    refine ((hreplace.append_left before).append_right after).trans ?_
    simp
  refine ⟨?_, hperm⟩
  have hvalid : Valid { t.assign_bucket key ((t.bucket_for key).kreplace key value) with
      num_entries := t.num_entries } := by
    refine h.settle h.lt ?_ ((List.perm_nodupKeys hperm).2 (List.kinsert_nodupKeys _ _ h.nodup)) ?_
    · intro e he
      rcases List.mem_cons.1 (hreplace.subset he) with rfl | he
      · exact .inl rfl
      · exact .inr ((List.kerase_sublist key _).subset he)
    · rw [h.count, hset, heq]
      simp [List.kreplace, List.length_lookmap]
  rwa [show t.num_entries = _ from (num_entries_assign_bucket t key _).symm] at hvalid

/-- A node is put at the head of its chain. -/
theorem Valid.link (hk : key ∉ (t.bucket_for key).keys) (value : V) :
    Valid { t.assign_bucket key (⟨key, value⟩ :: t.bucket_for key) with
        num_entries := t.num_entries + 1 } ∧
      (t.assign_bucket key (⟨key, value⟩ :: t.bucket_for key)).for_each.Perm
        (t.for_each.kinsert key value) := by
  obtain ⟨before, after, heq, hset⟩ := h.split key
  have hnew : key ∉ t.for_each.keys := fun hmem => hk (h.mem_keys_bucket_for.2 hmem)
  have hperm : (t.assign_bucket key (⟨key, value⟩ :: t.bucket_for key)).for_each.Perm
      (t.for_each.kinsert key value) := by
    rw [hset, List.kinsert_def, List.kerase_of_notMem_keys hnew, heq]
    simp
  refine ⟨h.settle h.lt ?_ ((List.perm_nodupKeys hperm).2 (List.kinsert_nodupKeys _ _ h.nodup)) ?_,
    hperm⟩
  · intro e he
    rcases List.mem_cons.1 he with rfl | he
    · exact .inl rfl
    · exact .inr he
  · rw [h.count, hset, heq]
    simp only [List.length_append, List.length_cons]
    omega

/-- A node is taken out of its chain. -/
theorem Valid.unlink (hk : key ∈ (t.bucket_for key).keys) :
    Valid { t.assign_bucket key ((t.bucket_for key).kerase key) with
        num_entries := t.num_entries - 1 } ∧
      (t.assign_bucket key ((t.bucket_for key).kerase key)).for_each = t.for_each.kerase key := by
  obtain ⟨before, after, heq, hset⟩ := h.split key
  have hnodup := h.nodup
  rw [heq] at hnodup
  have hsame : (t.assign_bucket key ((t.bucket_for key).kerase key)).for_each =
      t.for_each.kerase key := by
    rw [hset, heq, kerase_middle hnodup hk]
  refine ⟨h.settle h.lt ?_ ?_ ?_, hsame⟩
  · intro e he
    exact .inr ((List.kerase_sublist key _).subset he)
  · rw [hsame]
    exact h.nodup.kerase key
  · obtain ⟨v, l, r, -, hl, hr⟩ := List.exists_of_kerase (h.mem_keys_bucket_for.1 hk)
    rw [hsame, h.count, hr, hl]
    simp

/-- `set` puts an entry for the key in front, but for the order. -/
theorem set_perm (key : Bytes) (value : V) : (t.set key value).2.Valid ∧
      (t.set key value).2.for_each.Perm (t.for_each.kinsert key value) ∧
      ((t.set key value).1 = true ↔ key ∉ t.for_each.keys) := by
  obtain ⟨hvalid, hstep⟩ := rehash_step_spec h 1
  unfold set
  dsimp only
  generalize (t.rehash_step 1).2 = u at hvalid hstep ⊢
  have hins : (u.for_each.kinsert key value).Perm (t.for_each.kinsert key value) :=
    hstep.kinsert hvalid.nodup
  have hkeys : u.for_each.keys.Perm t.for_each.keys := hstep.map _
  rw [← hkeys.mem_iff, ← hvalid.mem_keys_bucket_for]
  split
  next hk =>
    obtain ⟨hnext, hperm⟩ := hvalid.overwrite hk value
    exact ⟨hnext, hperm.trans hins, by simp [hk]⟩
  next hk =>
    obtain ⟨hnext, hperm⟩ := hvalid.link hk value
    rw [num_entries_assign_bucket]
    obtain ⟨hresized, heq⟩ := maybe_resize_spec hnext
    refine ⟨hresized, ?_, by simp [hk]⟩
    rw [heq]
    exact hperm.trans hins

/-- `del` takes the entry of the key out, but for the order. -/
theorem del_perm (key : Bytes) :
    (t.del key).2.Valid ∧ (t.del key).2.for_each.Perm (t.for_each.kerase key) ∧
      ((t.del key).1 = true ↔ key ∈ t.for_each.keys) := by
  obtain ⟨hvalid, hstep⟩ := rehash_step_spec h 1
  unfold del
  dsimp only
  generalize (t.rehash_step 1).2 = u at hvalid hstep ⊢
  have herase : (u.for_each.kerase key).Perm (t.for_each.kerase key) := hstep.kerase hvalid.nodup
  have hkeys : u.for_each.keys.Perm t.for_each.keys := hstep.map _
  rw [← hkeys.mem_iff, ← hvalid.mem_keys_bucket_for]
  split
  next hk =>
    obtain ⟨hnext, hkerase⟩ := hvalid.unlink hk
    rw [num_entries_assign_bucket]
    obtain ⟨hresized, heq⟩ := maybe_resize_spec hnext
    refine ⟨hresized, ?_, by simp [hk]⟩
    rw [heq]
    exact (List.Perm.of_eq hkerase).trans herase
  next hk =>
    refine ⟨hvalid, ?_, by simp [hk]⟩
    rw [hvalid.mem_keys_bucket_for] at hk
    rwa [List.kerase_of_notMem_keys hk] at herase

omit h in
theorem toFinmap_kinsert (key : Bytes) (value : V) :
    (nodes.kinsert key value).toFinmap = nodes.toFinmap.insert key value := by
  apply Finmap.ext_lookup
  intro k
  rw [Finmap.dlookup_list_toFinmap]
  by_cases hk : k = key
  · subst hk
    rw [List.dlookup_kinsert, Finmap.lookup_insert]
  · rw [List.dlookup_kinsert_ne hk, Finmap.lookup_insert_of_ne _ hk, Finmap.dlookup_list_toFinmap]

omit h in
theorem toFinmap_kerase (hnodup : nodes.NodupKeys) (key : Bytes) :
    (nodes.kerase key).toFinmap = nodes.toFinmap.erase key := by
  apply Finmap.ext_lookup
  intro k
  rw [Finmap.dlookup_list_toFinmap]
  by_cases hk : k = key
  · subst hk
    rw [List.dlookup_kerase _ hnodup, Finmap.lookup_erase]
  · rw [List.dlookup_kerase_ne hk, Finmap.lookup_erase_ne hk, Finmap.dlookup_list_toFinmap]

theorem rehash_step_contents (n : Nat) :
    (t.rehash_step n).2.Valid ∧ (t.rehash_step n).2.contents = t.contents := by
  obtain ⟨hvalid, hperm⟩ := rehash_step_spec h n
  exact ⟨hvalid, toFinmap_congr hvalid.nodup hperm⟩

theorem set_spec (key : Bytes) (value : V) :
    (t.set key value).2.Valid ∧ (t.set key value).2.contents = t.contents.insert key value ∧
      (t.set key value).1 = decide (key ∉ t.contents) := by
  obtain ⟨hvalid, hperm, hflag⟩ := set_perm h key value
  refine ⟨hvalid, ?_, ?_⟩
  · rw [contents, toFinmap_congr hvalid.nodup hperm, toFinmap_kinsert, contents]
  · rw [Bool.eq_iff_iff, hflag, decide_eq_true_iff, mem_contents]

theorem del_spec (key : Bytes) :
    (t.del key).2.Valid ∧ (t.del key).2.contents = t.contents.erase key ∧
      (t.del key).1 = decide (key ∈ t.contents) := by
  obtain ⟨hvalid, hperm, hflag⟩ := del_perm h key
  refine ⟨hvalid, ?_, ?_⟩
  · rw [contents, toFinmap_congr hvalid.nodup hperm, toFinmap_kerase h.nodup, contents]
  · rw [Bool.eq_iff_iff, hflag, decide_eq_true_iff, mem_contents]

end

variable {old : V}

theorem assign_perm (h : t.Valid) (hold : t.find key = some old) (value : V) :
    (t.assign key value).Valid ∧ (t.assign key value).for_each.Perm (t.for_each.kinsert key value) := by
  have hk : key ∈ (t.bucket_for key).keys := List.dlookup_isSome.1 (by rw [← find, hold]; rfl)
  rw [assign, if_pos hk]
  exact h.overwrite hk value

variable {value : V}

section

variable (h : t.Valid)
include h

theorem mem_for_each : ⟨key, value⟩ ∈ t.for_each ↔ t.find key = some value := by
  rw [← dlookup_for_each h]
  exact (List.mem_dlookup_iff h.nodup).symm

theorem find_isSome : (t.find key).isSome ↔ key ∈ t.for_each.keys := by
  rw [find, List.dlookup_isSome, h.mem_keys_bucket_for]

theorem find_eq_none : t.find key = none ↔ key ∉ t.for_each.keys := by
  rw [← find_isSome h, Option.not_isSome_iff_eq_none]

/-! ### Looking up after a change, and sums over the entries -/

theorem find_of_kinsert (h' : t'.Valid)
    (hperm : t'.for_each.Perm (t.for_each.kinsert key value)) (k : Bytes) :
    t'.find k = if k = key then some value else t.find k := by
  rw [find_of_perm h' hperm, ← dlookup_for_each h]
  split
  next hk =>
    subst hk
    exact List.dlookup_kinsert _
  next hk => exact List.dlookup_kinsert_ne hk

theorem find_set (key : Bytes) (value : V) (k : Bytes) :
    (t.set key value).2.find k = if k = key then some value else t.find k :=
  find_of_kinsert h (set_perm h key value).1 (set_perm h key value).2.1 k

theorem find_assign (hold : t.find key = some old) (value : V) (k : Bytes) :
    (t.assign key value).find k = if k = key then some value else t.find k :=
  find_of_kinsert h (assign_perm h hold value).1 (assign_perm h hold value).2 k

theorem find_del (key : Bytes) (k : Bytes) :
    (t.del key).2.find k = if k = key then none else t.find k := by
  obtain ⟨hvalid, hperm, -⟩ := del_perm h key
  rw [find_of_perm hvalid hperm, ← dlookup_for_each h]
  split
  next hk =>
    subst hk
    exact List.dlookup_kerase _ h.nodup
  next hk => exact List.dlookup_kerase_ne hk

/-- The sum of what the entries cost. -/
def total (t : HashTable V) (cost : Node V → Nat) : Nat := (t.for_each.map cost).sum

omit h in
theorem sum_kerase (nodes : List (Node V)) (cost : Node V → Nat)
    (h : nodes.dlookup key = some value) :
    ((nodes.kerase key).map cost).sum + cost ⟨key, value⟩ = (nodes.map cost).sum := by
  have hk : key ∈ nodes.keys := List.dlookup_isSome.1 (by rw [h]; rfl)
  obtain ⟨v, l, r, hl, hnodes, hkerase⟩ := List.exists_of_kerase hk
  have hv : v = value := by
    rw [hnodes, List.dlookup_append, List.dlookup_eq_none.2 hl, Option.none_or,
      List.dlookup_cons_eq] at h
    exact Option.some.inj h
  rw [hkerase, hnodes, hv]
  simp only [List.map_append, List.map_cons, List.sum_append, List.sum_cons]
  omega

theorem total_set (cost : Node V → Nat) (hnew : t.find key = none) (value : V) :
    (t.set key value).2.total cost = t.total cost + cost ⟨key, value⟩ := by
  have hk := (find_eq_none h).1 hnew
  have hsum := ((set_perm h key value).2.1.map cost).sum_eq
  rw [List.kinsert_def, List.kerase_of_notMem_keys hk, List.map_cons, List.sum_cons] at hsum
  rw [total, hsum, total]
  omega

theorem total_assign (cost : Node V → Nat) (hold : t.find key = some old) (value : V) :
    (t.assign key value).total cost + cost ⟨key, old⟩ = t.total cost + cost ⟨key, value⟩ := by
  have hsum := ((assign_perm h hold value).2.map cost).sum_eq
  have herase := sum_kerase t.for_each cost ((dlookup_for_each h key).trans hold)
  rw [List.kinsert_def, List.map_cons, List.sum_cons] at hsum
  rw [total, hsum, total]
  omega

theorem total_del (cost : Node V → Nat) (hold : t.find key = some old) :
    (t.del key).2.total cost + cost ⟨key, old⟩ = t.total cost := by
  have hsum := ((del_perm h key).2.1.map cost).sum_eq
  have herase := sum_kerase t.for_each cost ((dlookup_for_each h key).trans hold)
  rw [total, hsum, total]
  exact herase

theorem total_del_none (cost : Node V → Nat) (hnone : t.find key = none) :
    (t.del key).2.total cost = t.total cost := by
  have hk := (find_eq_none h).1 hnone
  have hsum := ((del_perm h key).2.1.map cost).sum_eq
  rwa [List.kerase_of_notMem_keys hk] at hsum

theorem total_rehash_step (cost : Node V → Nat) (n : Nat) :
    (t.rehash_step n).2.total cost = t.total cost :=
  ((rehash_step_spec h n).2.map cost).sum_eq

end

/-! ## Whole runs -/

/-- A call, on the table of that number. -/
inductive Call (V : Type) where
  | set (i : Nat) (key : Bytes) (value : V)
  | del (i : Nat) (key : Bytes)
  | find (i : Nat) (key : Bytes)
  | get (i : Nat) (key : Bytes)
  | contains (i : Nat) (key : Bytes)
  | rehash_step (i n : Nat)
  /-- `HashTable dest(std::move(source))`. -/
  | move_construct (dest source : Nat)
  /-- `dest = std::move(source)`, which swaps the two. -/
  | move_assign (dest source : Nat)

inductive Answer (V : Type) where
  | flag (b : Bool)
  | value (v : Option V)
  /-- How far a resize is is not the map's business, and a move has no result. -/
  | nothing
  deriving DecidableEq

/-- All tables of a program. -/
abbrev Heap (V : Type) := Nat → HashTable V

/-- A table changes, and answers. -/
def Heap.update (h : Heap V) (i : Nat) (out : Bool × HashTable V) : Answer V × Heap V :=
  (.flag out.1, Function.update h i out.2)

def Heap.call (h : Heap V) : Call V → Answer V × Heap V
  | .set i key value => h.update i ((h i).set key value)
  | .del i key => h.update i ((h i).del key)
  | .find i key => (.value ((h i).find key), h)
  | .get i key => (.value ((h i).get key), h)
  | .contains i key => (.flag ((h i).contains key), h)
  | .rehash_step i n => (.nothing, Function.update h i ((h i).rehash_step n).2)
  -- a fresh table that is swapped with the other
  | .move_construct dest source =>
    (.nothing, Function.update (Function.update h dest (h source)) source fresh)
  | .move_assign dest source =>
    (.nothing, Function.update (Function.update h dest (h source)) source (h dest))

/-- The same calls on finite maps. -/
abbrev Maps (V : Type) := Nat → Finmap fun _ : Bytes => V

def Maps.call (m : Maps V) : Call V → Answer V × Maps V
  | .set i key value =>
    (.flag (decide (key ∉ m i)), Function.update m i ((m i).insert key value))
  | .del i key => (.flag (decide (key ∈ m i)), Function.update m i ((m i).erase key))
  | .find i key => (.value ((m i).lookup key), m)
  | .get i key => (.value ((m i).lookup key), m)
  | .contains i key => (.flag (decide (key ∈ m i)), m)
  | .rehash_step _ _ => (.nothing, m)
  | .move_construct dest source =>
    (.nothing, Function.update (Function.update m dest (m source)) source ∅)
  | .move_assign dest source =>
    (.nothing, Function.update (Function.update m dest (m source)) source (m dest))

/-- Every table is sound and stands for its map. -/
def Models (h : Heap V) (m : Maps V) : Prop := ∀ i, (h i).Valid ∧ (h i).contents = m i

variable {m : Maps V}

theorem Models.update {h : Heap V} (hm : Models h m) {c : Finmap fun _ : Bytes => V} (ht : t.Valid)
    (hc : t.contents = c) : Models (Function.update h i t) (Function.update m i c) := by
  intro j
  by_cases hj : j = i
  · subst hj
    rw [Function.update_self, Function.update_self]
    exact ⟨ht, hc⟩
  · rw [Function.update_of_ne hj, Function.update_of_ne hj]
    exact hm j

theorem call_models {h : Heap V} (hm : Models h m) (c : Call V) :
    (h.call c).1 = (m.call c).1 ∧ Models (h.call c).2 (m.call c).2 := by
  cases c with
  | set i key value =>
    obtain ⟨hvalid, hcontents, hflag⟩ := set_spec (hm i).1 key value
    rw [(hm i).2] at hcontents hflag
    exact ⟨congrArg Answer.flag hflag, hm.update hvalid hcontents⟩
  | del i key =>
    obtain ⟨hvalid, hcontents, hflag⟩ := del_spec (hm i).1 key
    rw [(hm i).2] at hcontents hflag
    exact ⟨congrArg Answer.flag hflag, hm.update hvalid hcontents⟩
  | find i key =>
    refine ⟨congrArg Answer.value ?_, hm⟩
    rw [find_eq (hm i).1, (hm i).2]
  | get i key =>
    refine ⟨congrArg Answer.value ?_, hm⟩
    rw [get, find_eq (hm i).1, (hm i).2]
  | contains i key =>
    refine ⟨congrArg Answer.flag ?_, hm⟩
    rw [contains, find_eq (hm i).1, (hm i).2, Bool.eq_iff_iff, Finmap.lookup_isSome, decide_eq_true_iff]
  | rehash_step i n =>
    obtain ⟨hvalid, hcontents⟩ := rehash_step_contents (hm i).1 n
    refine ⟨rfl, ?_⟩
    have := hm.update (i := i) hvalid (hcontents.trans (hm i).2)
    rwa [Function.update_eq_self] at this
  | move_construct dest source =>
    exact ⟨rfl, (hm.update (hm source).1 (hm source).2).update Valid.fresh contents_fresh⟩
  | move_assign dest source =>
    exact ⟨rfl, (hm.update (hm source).1 (hm source).2).update (hm dest).1 (hm dest).2⟩

/-- **The hash table is a finite map**: whatever is called on however many tables, moved from
one to another, the answers are those of finite maps; and of every table the size is the
number of keys, `for_each` visits each entry once, and looking a key up leaves all as it is. -/
theorem refines_finite_maps (cs : List (Call V)) :
    let h := transcript Heap.call cs fun _ => (fresh : HashTable V)
    let m := transcript Maps.call cs fun _ => ∅
    h.1 = m.1 ∧
      (∀ i, (h.2 i).size = (m.2 i).keys.card ∧ (h.2 i).for_each = (m.2 i).entries) ∧
      ∀ i key, (h.2.call (.find i key)).2 = h.2 := by
  have hstart : Models (fun _ => (fresh : HashTable V)) fun _ => ∅ :=
    fun _ => ⟨Valid.fresh, contents_fresh⟩
  obtain ⟨hanswers, hmodels⟩ := transcript_same (fun _ _ c hm => call_models hm c) cs hstart
  refine ⟨hanswers, ?_, fun _ _ => rfl⟩
  intro i
  obtain ⟨hvalid, hcontents⟩ := hmodels i
  rw [← hcontents]
  exact ⟨hvalid.size_eq, hvalid.entries.symm⟩

end HashTable

end EpochKV

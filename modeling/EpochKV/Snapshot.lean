/-
The snapshot file: `snapshot.cpp`'s writer and loader.

A file is a header, one record for each key, an end marker and a CRC-32 of all that
precedes it. The writer leaves out keys whose deadline is over at its reading of the
clock; the loader drops those whose deadline is over at its own. `load_from_write_file`
composes the two: what a loader reads back at `tl` is what was visible at the writer's
time and is visible at `tl`, with the deadlines as stored.
-/
import EpochKV.Codec
import EpochKV.Store

set_option autoImplicit false

namespace EpochKV.Snapshot

open Text Keyspace Codec Store

def kMagic : Bytes := lit "KVSNAP"

/-- A file as `Reader` sees it: the bytes that can be read, and the error that ends the
reading if it is not the end of the file. -/
structure File where
  bytes : Bytes
  read_error : Option Bytes := none

/-- One key as `for_each` hands it out: `expire_ms` is -1 for a key without a deadline. -/
structure Record where
  key : Key
  value : Bytes
  expire_ms : Int
  deriving DecidableEq

/-! ## Writing -/

def put_string (s : Bytes) : Bytes := put_varint s.length ++ s

def put_record (r : Record) : Bytes :=
  (if 0 ≤ r.expire_ms then kOpExpireMs :: put_fixed r.expire_ms.toNat 8 else []) ++
    (kOpString :: put_string r.key ++ put_string r.value)

def for_each (s : Store) : List Record :=
  s.tables.dict.entries.map fun e => ⟨e.1, e.2, (s.tables.expires.lookup e.1).getD (-1)⟩

/-- What the writer keeps at its reading `now`. -/
def kept (now : Int) (r : Record) : Bool := r.expire_ms < 0 ∨ now < r.expire_ms

def body (now : Int) (s : Store) : Bytes :=
  kMagic ++ kVersion :: (((for_each s).filter (kept now)).flatMap put_record ++ [kOpEof])

/-- The bytes `write_file` produces if the clock reads `now`. -/
def write_file (s : Store) (now : Int) : Bytes :=
  body now s ++ put_fixed (crc32_update 0 (body now s)).toNat 4

/-! ## Loading -/

def get_string (b : Bytes) : Option (Bytes × Bytes) :=
  match get_varint b with
  | none => none
  | some (len, rest) => if rest.length < len then none else some (rest.take len, rest.drop len)

/-- Why a load fails: the bytes end too early, or they are not what they should be. -/
inductive Failure where
  | short (what : Bytes)
  | wrong (what : Bytes)
  deriving DecidableEq

def truncated : Failure := .short (lit "truncated")

inductive Parsed where
  | eof (rest : Bytes)
  | record (r : Record) (rest : Bytes)
  | bad (why : Failure)

/-- The rest of a record, from its type byte on. -/
def get_entry (op : UInt8) (expire_ms : Int) (b : Bytes) : Parsed :=
  if op = kOpEof ∧ expire_ms = -1 then .eof b
  else if op ≠ kOpString then .bad (.wrong (lit "corrupt: unknown record type"))
  else
    match get_string b with
    | none => .bad truncated
    | some (key, b) =>
      match get_string b with
      | none => .bad truncated
      | some (value, b) => .record ⟨key, value, expire_ms⟩ b

/-- One turn of the loop of `load_from`, up to the point where the store is touched. -/
def get_record (b : Bytes) : Parsed :=
  match b with
  | [] => .bad truncated
  | op :: b =>
    if op = kOpExpireMs then
      match get_fixed b 8 with
      | some (raw, op :: b) =>
        -- the cast to `int64_t` is negative
        if 2 ^ 63 ≤ raw then .bad (.wrong (lit "corrupt expire time")) else get_entry op raw b
      | _ => .bad truncated
    else get_entry op (-1) b

def load_record (now : Int) (s : Store) (r : Record) : Store :=
  if 0 ≤ r.expire_ms ∧ r.expire_ms ≤ now then s
  else
    let s := s.set r.key r.value false
    if 0 ≤ r.expire_ms then (s.set_expire r.key r.expire_ms).2 else s

variable {b rest : Bytes} {s : Store}

theorem varint_loop_length {fuel i v n : Nat} (h : varint_loop fuel i v b = some (n, rest)) :
    rest.length < b.length := by
  fun_induction varint_loop fuel i v b
  case case1 | case2 => simp at h
  case case3 =>
    simp only [Option.some.injEq, Prod.mk.injEq] at h
    simp [h.2]
  case case4 ih =>
    have := ih h
    rw [List.length_cons]
    omega

theorem get_string_length {x : Bytes} (h : get_string b = some (x, rest)) :
    rest.length < b.length := by
  unfold get_string at h
  split at h
  · simp at h
  case h_2 len tail hv =>
    have := varint_loop_length hv
    split at h
    · simp at h
    · simp only [Option.some.injEq, Prod.mk.injEq] at h
      rw [← h.2, List.length_drop]
      omega

variable {r : Record}

theorem get_entry_length {op : UInt8} {expire_ms : Int}
    (h : get_entry op expire_ms b = .record r rest) : rest.length < b.length := by
  unfold get_entry at h
  split at h
  · simp at h
  split at h
  · simp at h
  split at h
  · simp at h
  case h_2 hk =>
    have := get_string_length hk
    split at h
    · simp at h
    case h_2 hv =>
      have := get_string_length hv
      simp only [Parsed.record.injEq] at h
      rw [← h.2]
      omega

/-- A record takes bytes, so the loop ends. -/
theorem get_record_length (h : get_record b = .record r rest) : rest.length < b.length := by
  unfold get_record at h
  split at h
  · simp at h
  case h_2 op b =>
    rw [List.length_cons]
    split at h
    · split at h
      case h_1 raw op' b' hf =>
        have hlen : b'.length < b.length := by
          unfold get_fixed at hf
          split at hf
          · simp at hf
          · simp only [Option.some.injEq, Prod.mk.injEq] at hf
            have := congrArg List.length hf.2
            rw [List.length_drop, List.length_cons] at this
            omega
        split at h
        · simp at h
        · have := get_entry_length h
          omega
      · simp at h
    · have := get_entry_length h
      omega

/-- The loop of `load_from`: what is left after the end marker, or what is wrong. -/
def load_loop (now : Int) (b : Bytes) (s : Store) : Except Failure Bytes × Store :=
  match h : get_record b with
  | .eof rest => (.ok rest, s)
  | .bad why => (.error why, s)
  | .record r rest =>
    have := get_record_length h
    load_loop now rest (load_record now s r)
termination_by b.length

/-- The reason given for a failure: where the bytes end too early, the read error behind it if
there is one. -/
def fail (read_error : Option Bytes) : Failure → Option Bytes
  | .short what => some (read_error.getD what)
  | .wrong what => some what

/-- The part of `load_from` after the end marker: the checksum covers everything through
that marker, and nothing may follow it. -/
def check_end (f : File) (rest : Bytes) : Option Bytes :=
  let expected := crc32_update 0 (f.bytes.take (f.bytes.length - rest.length))
  match get_fixed rest 4 with
  | none => fail f.read_error truncated
  | some (stored, rest) =>
    if stored ≠ expected.toNat then fail f.read_error (.wrong (lit "checksum mismatch"))
    else if rest ≠ [] then
      fail f.read_error (.wrong (lit "unexpected data after the end of the snapshot"))
    else none

/-- The file is too short for the magic bytes, or has others in their place. -/
def bad_magic (f : File) : Failure :=
  let what := lit "not a snapshot file (bad magic)"
  if f.bytes.length < kMagic.length then .short what else .wrong what

/-- `load_from`: the reason of a failure if there is one, and the store it leaves. -/
def load_from (f : File) (s : Store) : Option Bytes × Store :=
  if f.bytes.take kMagic.length ≠ kMagic then (fail f.read_error (bad_magic f), s)
  else
    match f.bytes.drop kMagic.length with
    | [] => (fail f.read_error truncated, s)
    | version :: b =>
      if version ≠ kVersion then
        (some (lit "unsupported snapshot version " ++ to_string version.toNat), s)
      else
        let n := s.now_ms
        let out := load_loop n.1 b n.2
        (match out.1 with
          | .error why => fail f.read_error why
          | .ok rest => check_end f rest, out.2)

/-! ## What a load does to the store -/

/-- The records a loader gets to see: all up to the end marker or the first error. -/
def records (b : Bytes) : List Record :=
  match h : get_record b with
  | .eof _ => []
  | .bad _ => []
  | .record r rest =>
    have := get_record_length h
    r :: records rest
termination_by b.length

theorem records_of_record (h : get_record b = .record r rest) : records b = r :: records rest := by
  rw [records.eq_def]
  split
  case h_1 h' | h_2 h' => rw [h] at h'; simp at h'
  case h_3 h' =>
    rw [h, Parsed.record.injEq] at h'
    obtain ⟨rfl, rfl⟩ := h'
    rfl

theorem records_of_end (h : ∀ r rest, get_record b ≠ .record r rest) : records b = [] := by
  rw [records.eq_def]
  split
  case h_1 | h_2 => rfl
  case h_3 h' => exact absurd h' (h _ _)

theorem load_loop_store (now : Int) (b : Bytes) (s : Store) :
    (load_loop now b s).2 = (records b).foldl (load_record now) s := by
  fun_induction load_loop now b s
  case case1 h | case2 h => rw [records_of_end (by simp [h])]; rfl
  case case3 h _ ih => rw [ih, records_of_record h, List.foldl_cons]

def Record.deadline (r : Record) : Option Int := if 0 ≤ r.expire_ms then some r.expire_ms else none

/-- The deadline of the record is over at `now`, and a loader passes over it. -/
def Record.Past (now : Int) (r : Record) : Prop := 0 ≤ r.expire_ms ∧ r.expire_ms ≤ now

instance (now : Int) (r : Record) : Decidable (r.Past now) := by
  unfold Record.Past
  infer_instance

/-- The record as it arrives in the data. -/
def Record.put (m : Space Key Bytes Int) (r : Record) : Space Key Bytes Int :=
  Function.update m r.key (some (r.value, r.deadline))

/-- A deadline the loader does not pass over at `now` stays when the store is told to set it:
the store is a replica's, or its clock does not go beyond `now` meanwhile. -/
def Lenient (now : Int) (s : Store) : Prop :=
  s.passive_expiry = true ∨ ∀ i, (s.clock i : Int) ≤ now

variable {now tc : Int} {m : Space Key Bytes Int}

theorem Lenient.step {s' : Store} {n : Nat} {log : List Args} (h : Lenient now s)
    (hb : Becomes s s' m n log) : Lenient now s' := by
  rcases h with h | h
  · exact .inl (hb.passive_expiry.trans h)
  · exact .inr fun i => by rw [hb.clock]; exact h i

/-- A record is taken as it stands, or passed over. -/
theorem load_record_spec (hp : Lenient now s) (r : Record) :
    ∃ n log, Becomes s (load_record now s r)
      (if r.Past now then s.view else r.put s.view) n log := by
  unfold load_record
  by_cases hpast : r.Past now
  · rw [if_pos hpast, if_pos (show 0 ≤ r.expire_ms ∧ r.expire_ms ≤ now from hpast)]
    exact ⟨0, [], Becomes.refl s⟩
  · rw [if_neg hpast, if_neg (show ¬ (0 ≤ r.expire_ms ∧ r.expire_ms ≤ now) from hpast)]
    by_cases hd : 0 ≤ r.expire_ms
    · obtain ⟨log, h⟩ := set_then_expire s r.key r.value r.expire_ms
      have hkeep : (if s.passive_expiry then some (r.value, some r.expire_ms)
          else live (s.second r.key) (some (r.value, some r.expire_ms)))
            = some (r.value, some r.expire_ms) := by
        rcases hp with hp | hp
        · rw [hp, if_pos rfl]
        · have hclock : s.second r.key ≤ now := hp _
          have hahead : now < r.expire_ms := by
            by_contra hle
            exact hpast ⟨hd, not_lt.1 hle⟩
          have hlive : live (s.second r.key) (some (r.value, some r.expire_ms))
              = some (r.value, some r.expire_ms) := by
            rw [live_some_some, if_neg (by omega)]
          rw [hlive, ite_self]
      rw [hkeep] at h
      simp only [if_pos hd, Record.put, Record.deadline]
      exact ⟨_, log, h⟩
    · have h := set_spec s r.key r.value false
      simp only [Bool.false_eq_true, if_false] at h
      simp only [if_neg hd, Record.put, Record.deadline]
      exact ⟨_, _, h⟩

/-- **The loop**: the records that are not past are put one after another. -/
theorem load_records_spec (hp : Lenient now s) (rs : List Record) :
    ∃ n log, Becomes s (rs.foldl (load_record now) s)
      ((rs.filter fun r => ¬ r.Past now).foldl Record.put s.view) n log := by
  induction rs generalizing s with
  | nil => exact ⟨0, [], Becomes.refl s⟩
  | cons r rs ih =>
    obtain ⟨n, log, h⟩ := load_record_spec hp r
    obtain ⟨n', log', h'⟩ := ih (hp.step h)
    refine ⟨_, _, (h.trans h').congr ?_⟩
    rw [h.view]
    by_cases hpast : r.Past now <;> simp [hpast]

/-- The records of a file whose header is right. -/
def File.records (f : File) : List Record :=
  if f.bytes.take kMagic.length ≠ kMagic then []
  else
    match f.bytes.drop kMagic.length with
    | [] => []
    | version :: b => if version ≠ kVersion then [] else Snapshot.records b

/-- **Loading a file**, whether it succeeds or not: the records it gave that were not past
at the loader's one reading of the clock. -/
theorem load_from_spec (hp : Lenient s.now s) (f : File) :
    ∃ n log, Becomes s (load_from f s).2
      ((f.records.filter fun r => ¬ r.Past s.now).foldl Record.put s.view) n log := by
  have stay : ∃ n log, Becomes s s s.view n log := ⟨0, [], Becomes.refl s⟩
  unfold load_from File.records
  by_cases hmagic : f.bytes.take kMagic.length ≠ kMagic
  · rw [if_pos hmagic, if_pos hmagic]
    exact stay
  rw [if_neg hmagic, if_neg hmagic]
  cases f.bytes.drop kMagic.length with
  | nil => exact stay
  | cons version b =>
    dsimp only
    by_cases hv : version ≠ kVersion
    · rw [if_pos hv, if_pos hv]
      exact stay
    rw [if_neg hv, if_neg hv]
    have hnow := (now_ms_spec s).2
    obtain ⟨n, log, h⟩ := load_records_spec (hp.step hnow) (Snapshot.records b)
    have hloop := hnow.trans h
    rw [hnow.view] at hloop
    rw [← load_loop_store] at hloop
    exact ⟨_, _, hloop⟩

/-! ## The round trip -/

/-- A record with lengths and a deadline that fit the format. -/
structure Record.Sized (r : Record) : Prop where
  key : r.key.length < 2 ^ 64
  value : r.value.length < 2 ^ 64
  expire : r.expire_ms = -1 ∨ 0 ≤ r.expire_ms ∧ r.expire_ms < 2 ^ 63

theorem get_string_put_string {x : Bytes} (h : x.length < 2 ^ 64) (rest : Bytes) :
    get_string (put_string x ++ rest) = some (x, rest) := by
  rw [get_string, put_string, List.append_assoc, get_varint_put_varint h]
  simp

theorem get_entry_put (h : r.Sized) (rest : Bytes) :
    get_entry kOpString r.expire_ms (put_string r.key ++ put_string r.value ++ rest)
      = .record r rest := by
  rw [get_entry, if_neg (by simp [kOpString, kOpEof]), if_neg (by simp), List.append_assoc,
    get_string_put_string h.key]
  dsimp only
  rw [get_string_put_string h.value]

/-- **One record is read back as it was written.** -/
theorem get_record_put_record (h : r.Sized) (rest : Bytes) :
    get_record (put_record r ++ rest) = .record r rest := by
  rcases h.expire with hneg | ⟨hpos, hlt⟩
  · rw [put_record, if_neg (by omega), List.nil_append, List.cons_append, List.cons_append,
      get_record, if_neg (by simp [kOpString, kOpExpireMs]), ← hneg]
    exact get_entry_put h rest
  · have hnat : r.expire_ms.toNat < 256 ^ 8 := by omega
    have hback : (r.expire_ms.toNat : Int) = r.expire_ms := Int.toNat_of_nonneg hpos
    rw [put_record, if_pos hpos, List.append_assoc, List.cons_append, get_record, if_pos rfl,
      get_fixed_put_fixed 8 hnat]
    simp only [List.cons_append]
    rw [if_neg (by omega), hback]
    exact get_entry_put h rest

theorem get_record_eof (rest : Bytes) : get_record (kOpEof :: rest) = .eof rest := by
  rw [get_record, if_neg (by simp [kOpEof, kOpExpireMs]), get_entry, if_pos ⟨rfl, rfl⟩]

variable {rs : List Record}

theorem records_put (h : ∀ r ∈ rs, r.Sized) (rest : Bytes) :
    records (rs.flatMap put_record ++ kOpEof :: rest) = rs := by
  induction rs with
  | nil => exact records_of_end (by simp [get_record_eof])
  | cons r rs ih =>
    rw [List.flatMap_cons, List.append_assoc,
      records_of_record (get_record_put_record (h r List.mem_cons_self) _),
      ih fun r' hr' => h r' (List.mem_cons_of_mem r hr')]

theorem load_loop_of_record (h : get_record b = .record r rest) (now : Int) (s : Store) :
    load_loop now b s = load_loop now rest (load_record now s r) := by
  rw [load_loop.eq_def]
  split
  case h_1 h' | h_2 h' => rw [h] at h'; simp at h'
  case h_3 h' =>
    rw [h, Parsed.record.injEq] at h'
    obtain ⟨rfl, rfl⟩ := h'
    rfl

theorem load_loop_of_eof (h : get_record b = .eof rest) (now : Int) (s : Store) :
    load_loop now b s = (.ok rest, s) := by
  rw [load_loop.eq_def]
  split
  case h_1 h' =>
    rw [h, Parsed.eof.injEq] at h'
    rw [h']
  case h_2 h' | h_3 h' => rw [h] at h'; simp at h'

theorem load_loop_put (h : ∀ r ∈ rs, r.Sized) (now : Int) (rest : Bytes) (s : Store) :
    (load_loop now (rs.flatMap put_record ++ kOpEof :: rest) s).1 = .ok rest := by
  induction rs generalizing s with
  | nil =>
    rw [List.flatMap_nil, List.nil_append, load_loop_of_eof (get_record_eof rest)]
  | cons r rs ih =>
    rw [List.flatMap_cons, List.append_assoc,
      load_loop_of_record (get_record_put_record (h r List.mem_cons_self) _)]
    exact ih (fun r' hr' => h r' (List.mem_cons_of_mem r hr')) _

/-! ## From one store to another -/

/-- What the format can hold: lengths below `2 ^ 64` and deadlines that are times. No
other data occurs in a running store. -/
def Storable (m : Space Key Bytes Int) : Prop :=
  ∀ k v x, m k = some (v, x) →
    k.length < 2 ^ 64 ∧ v.length < 2 ^ 64 ∧ ∀ d, x = some d → 0 ≤ d ∧ d < 2 ^ 63

/-- What the C++ types hold: lengths below `2 ^ 64`, deadlines below `2 ^ 63`. -/
def Typed (m : Space Key Bytes Int) : Prop :=
  ∀ k v x, m k = some (v, x) →
    k.length < 2 ^ 64 ∧ v.length < 2 ^ 64 ∧ ∀ d, x = some d → d < 2 ^ 63

theorem Storable.typed (h : Storable m) : Typed m := by
  intro k v x hk
  obtain ⟨h1, h2, h3⟩ := h k v x hk
  exact ⟨h1, h2, fun d hd => (h3 d hd).2⟩

/-- It can be read off the tables. -/
theorem storable_of_entries
    (h : ∀ e ∈ s.tables.dict.entries, e.1.length < 2 ^ 64 ∧ e.2.length < 2 ^ 64 ∧
      ∀ d ∈ s.tables.expires.lookup e.1, 0 ≤ d ∧ d < 2 ^ 63) : Storable s.view := by
  intro k v x hk
  simp only [Store.view, Tables.view, Option.map_eq_some_iff, Prod.mk.injEq] at hk
  obtain ⟨v', hv, rfl, rfl⟩ := hk
  obtain ⟨h1, h2, h3⟩ := h ⟨k, v'⟩ (AList.mem_lookup_iff.mp hv)
  exact ⟨h1, h2, fun d hd => h3 d hd⟩

theorem mem_for_each :
    r ∈ for_each s ↔ ∃ x, s.view r.key = some (r.value, x) ∧ r.expire_ms = x.getD (-1) := by
  simp only [for_each, List.mem_map, Store.view, Tables.view, Option.map_eq_some_iff]
  constructor
  · rintro ⟨⟨k, v⟩, he, rfl⟩
    exact ⟨_, ⟨v, AList.mem_lookup_iff.mpr he, rfl⟩, rfl⟩
  · rintro ⟨x, ⟨v, hv, hx⟩, hexp⟩
    obtain ⟨rfl, rfl⟩ := Prod.mk.inj hx
    refine ⟨⟨r.key, _⟩, AList.mem_lookup_iff.mp hv, ?_⟩
    rw [← hexp]

theorem for_each_keys_nodup (s : Store) : ((for_each s).map Record.key).Nodup := by
  rw [for_each, List.map_map]
  exact s.tables.dict.nodupKeys

/-- The record as the file has it: a negative time is not written. -/
def Record.written (r : Record) : Record := if r.expire_ms < 0 then { r with expire_ms := -1 } else r

theorem put_record_written (r : Record) : put_record r.written = put_record r := by
  unfold Record.written
  split
  next h =>
    have hneg : ¬ 0 ≤ r.expire_ms := by omega
    simp [put_record, hneg]
  · rfl

theorem written_put (m : Space Key Bytes Int) (r : Record) :
    Record.put m r.written = Record.put m r := by
  unfold Record.written
  split
  next h =>
    have hneg : ¬ 0 ≤ r.expire_ms := by omega
    simp [Record.put, Record.deadline, hneg]
  · rfl

theorem written_past (now : Int) (r : Record) : r.written.Past now ↔ r.Past now := by
  unfold Record.written
  split
  next h =>
    simp only [Record.Past]
    omega
  · rfl

theorem for_each_sized (h : Typed s.view) : ∀ r ∈ for_each s, r.written.Sized := by
  intro r hr
  obtain ⟨x, hv, hexp⟩ := mem_for_each.mp hr
  obtain ⟨hk, hl, hd⟩ := h _ _ _ hv
  unfold Record.written
  split
  next hneg => exact ⟨hk, hl, .inl rfl⟩
  next hpos =>
    refine ⟨hk, hl, .inr ⟨by omega, ?_⟩⟩
    cases x with
    | none =>
      rw [Option.getD_none] at hexp
      omega
    | some d =>
      rw [hexp]
      exact hd d rfl

theorem foldl_put_of_not_mem {k : Key} (h : ∀ r ∈ rs, r.key ≠ k) (m : Space Key Bytes Int) :
    rs.foldl Record.put m k = m k := by
  induction rs generalizing m with
  | nil => rfl
  | cons r rs ih =>
    rw [List.foldl_cons, ih fun r' hr' => h r' (List.mem_cons_of_mem r hr')]
    exact Function.update_of_ne (h r List.mem_cons_self).symm _ _

theorem foldl_put_of_mem (hnd : (rs.map Record.key).Nodup) (hr : r ∈ rs) (m : Space Key Bytes Int) :
    rs.foldl Record.put m r.key = some (r.value, r.deadline) := by
  induction rs generalizing m with
  | nil => simp at hr
  | cons r' rs ih =>
    rw [List.map_cons, List.nodup_cons] at hnd
    rw [List.foldl_cons]
    rcases List.mem_cons.mp hr with rfl | hr
    · rw [foldl_put_of_not_mem fun r' hr' he => hnd.1 (List.mem_map.mpr ⟨r', hr', he⟩)]
      exact Function.update_self _ _ _
    · exact ih hnd.2 hr _

/-- What is loaded at `tl` of a key: what is visible then, except that a deadline before
the epoch is lost on the way, since the writer takes it for none. -/
def reloaded (tl : Int) : Cell Bytes Int → Cell Bytes Int
  | some (v, some d) => if d < 0 then some (v, none) else live tl (some (v, some d))
  | c => c

/-- The records a writer at `tc` keeps and a loader at `tl` does not pass over. -/
theorem foldl_put_for_each (s : Store) {tl : Int} (hle : tc ≤ tl) :
    (((for_each s).filter (kept tc)).filter fun r => ¬ r.Past tl).foldl Record.put (fun _ => none)
      = fun k => reloaded tl (s.view k) := by
  have hnd : ((((for_each s).filter (kept tc)).filter fun r => ¬ r.Past tl).map Record.key).Nodup :=
    ((List.filter_sublist.trans List.filter_sublist).map _).nodup (for_each_keys_nodup s)
  funext k
  have hmem : ∀ r : Record, r ∈ ((for_each s).filter (kept tc)).filter (fun r => ¬ r.Past tl) ↔
      r ∈ for_each s ∧ (r.expire_ms < 0 ∨ tc < r.expire_ms) ∧ ¬ r.Past tl := by
    intro r
    simp only [List.mem_filter, kept, decide_eq_true_eq, and_assoc]
  cases hv : s.view k with
  | none =>
    refine foldl_put_of_not_mem ?_ _
    rintro r hr rfl
    obtain ⟨x, hx, -⟩ := mem_for_each.mp ((hmem r).mp hr).1
    rw [hv] at hx
    simp at hx
  | some e =>
    obtain ⟨v, x⟩ := e
    cases x with
    | none =>
      have hr : (⟨k, v, -1⟩ : Record) ∈ for_each s := mem_for_each.mpr ⟨none, hv, rfl⟩
      exact foldl_put_of_mem hnd ((hmem _).mpr ⟨hr, Or.inl (by simp), by simp [Record.Past]⟩) _
    | some d =>
      have hr : (⟨k, v, d⟩ : Record) ∈ for_each s := mem_for_each.mpr ⟨some d, hv, rfl⟩
      rw [reloaded]
      by_cases hneg : d < 0
      · have hput := foldl_put_of_mem hnd
          ((hmem ⟨k, v, d⟩).mpr ⟨hr, Or.inl hneg, fun hp => by have := hp.1; dsimp only at this; omega⟩)
          (fun _ => none)
        rw [if_pos hneg, hput, Record.deadline, if_neg (by dsimp only; omega)]
      rw [if_neg hneg, live_some_some]
      by_cases hdue : d ≤ tl
      · rw [if_pos hdue]
        refine foldl_put_of_not_mem ?_ _
        rintro r hr' rfl
        obtain ⟨hr', -, hpast⟩ := (hmem r).mp hr'
        obtain ⟨x, hx, hexp⟩ := mem_for_each.mp hr'
        rw [hv] at hx
        obtain ⟨-, rfl⟩ := Prod.mk.inj (Option.some.inj hx)
        rw [Option.getD_some] at hexp
        exact hpast ⟨by omega, by omega⟩
      · have hput := foldl_put_of_mem hnd
          ((hmem ⟨k, v, d⟩).mpr ⟨hr, Or.inr (by dsimp only; omega), fun hp => hdue hp.2⟩)
          (fun _ => none)
        rw [if_neg hdue, hput, Record.deadline, if_pos (by dsimp only; omega)]

theorem reloaded_of_storable (h : Storable m) (tl : Int) :
    (fun k => reloaded tl (m k)) = visible tl m := by
  funext k
  rw [visible]
  rcases hv : m k with _ | ⟨v, _ | d⟩
  · rfl
  · rfl
  · obtain ⟨hd, -⟩ := (h _ _ _ hv).2.2 d rfl
    rw [reloaded, if_neg (by omega)]

theorem body_split (now : Int) (s : Store) (rest : Bytes) :
    (body now s ++ rest).take kMagic.length = kMagic ∧
      (body now s ++ rest).drop kMagic.length
        = kVersion :: (((for_each s).filter (kept now)).flatMap put_record ++ kOpEof :: rest) := by
  constructor
  · rw [body, List.append_assoc, List.take_left]
  · rw [body, List.append_assoc, List.drop_left]
    simp

theorem flatMap_written (rs : List Record) :
    (rs.map Record.written).flatMap put_record = rs.flatMap put_record := by
  rw [List.flatMap_map]
  simp only [put_record_written]

theorem foldl_written (now : Int) (rs : List Record) (m : Space Key Bytes Int) :
    ((rs.map Record.written).filter fun r => ¬ r.Past now).foldl Record.put m
      = (rs.filter fun r => ¬ r.Past now).foldl Record.put m := by
  induction rs generalizing m with
  | nil => rfl
  | cons r rs ih =>
    by_cases hpast : r.Past now
    · have hpast' := (written_past now r).2 hpast
      simpa [hpast, hpast'] using ih m
    · have hpast' : ¬ r.written.Past now := fun h => hpast ((written_past now r).1 h)
      simpa [hpast, hpast', written_put] using ih (Record.put m r)

section

variable (h : Typed s.view)
include h

theorem written_sized (tc : Int) :
    ∀ r ∈ ((for_each s).filter (kept tc)).map Record.written, r.Sized := by
  intro r hr
  obtain ⟨r', hr', rfl⟩ := List.mem_map.1 hr
  exact for_each_sized h r' (List.mem_of_mem_filter hr')

/-- The records of a written file are those the writer kept. -/
theorem records_write_file (tc : Int) :
    File.records ⟨write_file s tc, none⟩ = ((for_each s).filter (kept tc)).map Record.written := by
  obtain ⟨htake, hdrop⟩ := body_split tc s (put_fixed (crc32_update 0 (body tc s)).toNat 4)
  rw [← flatMap_written] at hdrop
  unfold File.records write_file
  simp only [htake, hdrop, ne_eq, not_true_eq_false, if_false]
  exact records_put (written_sized h tc) _

/-- A written file is accepted. -/
theorem load_from_write_file_ok (tc : Int) (r : Store) :
    (load_from ⟨write_file s tc, none⟩ r).1 = none := by
  obtain ⟨htake, hdrop⟩ := body_split tc s (put_fixed (crc32_update 0 (body tc s)).toNat 4)
  rw [← flatMap_written] at hdrop
  unfold load_from write_file
  simp only [htake, hdrop, ne_eq, not_true_eq_false, if_false]
  rw [load_loop_put (written_sized h tc)]
  have hlen := length_put_fixed (crc32_update 0 (body tc s)).toNat 4
  have hfix := get_fixed_put_fixed 4
    (show (crc32_update 0 (body tc s)).toNat < 256 ^ 4 from UInt32.toNat_lt _) []
  rw [List.append_nil] at hfix
  simp only [check_end, hfix, List.length_append, Nat.add_sub_cancel, List.take_left, ne_eq,
    not_true_eq_false, if_false]

/-- **Saved at `tc`, loaded at `tl`**: what an empty store ends with. -/
theorem reload_write_file {r : Store} (hp : Lenient r.now r)
    (hempty : r.view = fun _ => none) (hle : tc ≤ r.now) :
    ∃ n log, Becomes r (load_from ⟨write_file s tc, none⟩ r).2
      (fun k => reloaded r.now (s.view k)) n log := by
  obtain ⟨n, log, hb⟩ := load_from_spec hp ⟨write_file s tc, none⟩
  rw [records_write_file h, hempty, foldl_written, foldl_put_for_each s hle] at hb
  exact ⟨n, log, hb⟩

end

/-- An empty replica ends with what is visible at `tl` of the store that was saved. -/
theorem load_from_write_file {r : Store} (h : Storable s.view) (hp : r.passive_expiry = true)
    (hempty : r.view = fun _ => none) (hle : tc ≤ r.now) :
    ∃ n log, Becomes r (load_from ⟨write_file s tc, none⟩ r).2 (visible r.now s.view) n log := by
  rw [← reloaded_of_storable h]
  exact reload_write_file h.typed (.inl hp) hempty hle

end EpochKV.Snapshot

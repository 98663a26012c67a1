/-
The checksum of `snapshot.cpp`, and what it is good for.

`crc32_update` goes through its data a byte at a time, by a table of 256 words. It is the
cyclic check of `Crc` with the polynomial `0xEDB88320`, started with all ones. A string that
ends in its own checksum, lowest byte first, leaves the same register whatever it says
(`feed_sealed`), so of two such strings neither is the other with up to four bytes in a row
changed (`sealed_unique`).

A DUMP payload is such a string. `restore_value` of `Codec` takes it apart as a list; the
source goes through it by index, and `restore_value_at` does so here, with every index it
reads checked.
-/
import EpochKV.Codec
import EpochKV.Crc

set_option autoImplicit false

namespace EpochKV.Codec

open Text

/-! ## The table -/

def polynomial : BitVec 32 := 0xEDB88320#32

/-- One turn of the inner loop that fills the table. -/
def table_shift (c : UInt32) : UInt32 :=
  if c &&& 1 ≠ 0 then (0xEDB88320 : UInt32) ^^^ (c >>> 1) else c >>> 1

theorem low_bit (c : UInt32) : c &&& 1 ≠ 0 ↔ c.toBitVec.getLsbD 0 = true := by
  have hand : (c &&& 1).toBitVec = (BitVec.ofBool (c.toBitVec.getLsbD 0)).setWidth 32 :=
    BitVec.and_one_eq_setWidth_ofBool_getLsbD
  rw [← UInt32.toBitVec_inj.ne, hand]
  cases c.toBitVec.getLsbD 0 <;> decide

theorem toBitVec_table_shift (c : UInt32) :
    (table_shift c).toBitVec = Crc.shift polynomial c.toBitVec := by
  rw [table_shift, Crc.shift, Crc.carry]
  by_cases h : c &&& 1 ≠ 0
  · rw [if_pos h, (low_bit c).1 h, if_pos rfl, BitVec.xor_comm]
    rfl
  · have hlow : c.toBitVec.getLsbD 0 = false := by
      rw [← Bool.not_eq_true, ← low_bit]
      exact h
    rw [if_neg h, hlow, if_neg Bool.false_ne_true]
    exact BitVec.xor_zero.symm

theorem toBitVec_crc32_table (i : UInt8) :
    (crc32_table i).toBitVec = Crc.shifts polynomial 8 (Crc.low 32 i) := by
  have hturns : ∀ (l : List Nat) (c : UInt32),
      (l.foldl (fun c _ => table_shift c) c).toBitVec
        = Crc.shifts polynomial l.length c.toBitVec := by
    intro l
    induction l with
    | nil => exact fun _ => rfl
    | cons a l ih =>
      intro c
      rw [List.foldl_cons, ih, toBitVec_table_shift, List.length_cons, Crc.shifts_add]
      rfl
  have hlow : i.toUInt32.toBitVec = Crc.low 32 i := by
    apply BitVec.eq_of_toNat_eq
    have hi := i.toNat_lt
    rw [Crc.low, BitVec.toNat_ofNat, Nat.mod_eq_of_lt (by omega)]
    rfl
  rw [← hlow]
  exact hturns (List.range 8) i.toUInt32

/-- The byte the table is asked for, and the rest of the register. -/
theorem split_register (c : UInt32) (b : UInt8) :
    c.toBitVec ^^^ Crc.low 32 b
      = Crc.low 32 (c.toUInt8 ^^^ b) ^^^ ((c.toBitVec >>> 8) <<< 8) := by
  apply BitVec.eq_of_getLsbD_eq
  intro i hi
  have hlow : ∀ x : UInt8, (Crc.low 32 x).getLsbD i = x.toBitVec.getLsbD i := by
    intro x
    rw [Crc.low, BitVec.getLsbD_ofNat, decide_eq_true hi, Bool.true_and]
    rfl
  rw [BitVec.getLsbD_xor, BitVec.getLsbD_xor, hlow, hlow, UInt8.toBitVec_xor, BitVec.getLsbD_xor,
    UInt32.toBitVec_toUInt8, BitVec.getLsbD_setWidth, BitVec.getLsbD_shiftLeft,
    BitVec.getLsbD_ushiftRight, decide_eq_true hi, Bool.true_and]
  by_cases h8 : i < 8
  · simp [h8]
  · have hsum : 8 + (i - 8) = i := by omega
    have hb : b.toBitVec.getLsbD i = false := BitVec.getLsbD_of_ge _ _ (by omega)
    simp [h8, hsum, hb]

/-- **A look-up is eight shifts.** -/
theorem toBitVec_crc32_byte (c : UInt32) (b : UInt8) :
    (crc32_byte c b).toBitVec = Crc.step polynomial c.toBitVec b := by
  have hhigh : (c.toBitVec >>> 8).toNat < 2 ^ (32 - 8) := by
    rw [BitVec.toNat_ushiftRight, Nat.shiftRight_eq_div_pow]
    have hlt := c.toBitVec.isLt
    omega
  rw [Crc.step, split_register, Crc.shifts_xor, Crc.shifts_shiftLeft hhigh, crc32_byte,
    UInt32.toBitVec_xor, toBitVec_crc32_table]
  rfl

theorem toBitVec_foldl_crc32_byte (data : Bytes) (c : UInt32) :
    (data.foldl crc32_byte c).toBitVec = Crc.feed polynomial c.toBitVec data := by
  induction data generalizing c with
  | nil => rfl
  | cons b data ih =>
    rw [List.foldl_cons, ih, toBitVec_crc32_byte]
    rfl

theorem toBitVec_crc32_update (data : Bytes) :
    (crc32_update 0 data).toBitVec = ~~~ Crc.feed polynomial (BitVec.allOnes 32) data := by
  rw [crc32_update, UInt32.toBitVec_not, toBitVec_foldl_crc32_byte]
  rfl

/-! ## Strings that end in their checksum -/

/-- The last four bytes are the checksum of those before, lowest byte first. -/
def Sealed (s : Bytes) : Prop :=
  ∃ body sum, s = body ++ sum ∧ get_fixed sum 4 = some ((crc32_update 0 body).toNat, [])

variable {n : Nat} {payload : Bytes} {v i version : Nat} {b : Bytes}

theorem get_fixed_eq_some {data : Bytes} :
    get_fixed data n = some (v, []) ↔ data.length = n ∧ Crc.value data = v := by
  rw [get_fixed, Option.ite_none_left_eq_some, Option.some.injEq, Prod.mk.injEq,
    List.drop_eq_nil_iff]
  constructor
  · rintro ⟨hge, hv, hle⟩
    have hlen : data.length = n := by omega
    rw [← hlen, List.take_length] at hv
    exact ⟨hlen, hv⟩
  · rintro ⟨rfl, hv⟩
    rw [List.take_length]
    exact ⟨lt_irrefl _, hv, le_rfl⟩

theorem xor_not_self (x : BitVec 32) : x ^^^ ~~~ x = BitVec.allOnes 32 := by
  apply BitVec.eq_of_getLsbD_eq
  intro i hi
  rw [BitVec.getLsbD_xor, BitVec.getLsbD_not, BitVec.getLsbD_allOnes, decide_eq_true hi]
  cases x.getLsbD i <;> rfl

/-- The register after a sealed string does not depend on the string. -/
theorem feed_sealed {s : Bytes} (h : Sealed s) :
    Crc.feed polynomial (BitVec.allOnes 32) s
      = Crc.shifts polynomial 32 (BitVec.allOnes 32) := by
  obtain ⟨body, sum, rfl, hsum⟩ := h
  obtain ⟨hlen, hvalue⟩ := get_fixed_eq_some.1 hsum
  have hword : Crc.word 32 sum = ~~~ Crc.feed polynomial (BitVec.allOnes 32) body := by
    apply BitVec.eq_of_toNat_eq
    rw [Crc.toNat_word (by omega), hvalue, ← toBitVec_crc32_update]
    rfl
  rw [Crc.feed_append, Crc.feed_eq_shifts _ (by omega), hlen, hword, xor_not_self]

/-- **Up to four bytes in a row cannot be changed unseen.** -/
theorem sealed_unique {a : Bytes} (ha : Sealed a) (hb : Sealed b) (h : Crc.Within 4 a b) :
    a = b := by
  by_contra hne
  have hdiff := Crc.feed_ne_of_within (p := polynomial) (by decide) (by norm_num) h hne
    (BitVec.allOnes 32)
  rw [feed_sealed ha, feed_sealed hb] at hdiff
  exact hdiff rfl

/-! ## DUMP payloads -/

theorem sealed_dump_value (value : Bytes) : Sealed (dump_value value) := by
  refine ⟨_, _, rfl, ?_⟩
  have hback := get_fixed_put_fixed 4 (show (crc32_update 0 ([kOpString] ++ put_varint value.length
    ++ value ++ [kVersion, 0])).toNat < 256 ^ 4 from UInt32.toNat_lt _) []
  rwa [List.append_nil] at hback

theorem sealed_of_restore_value (h : restore_value payload ≠ none) : Sealed payload := by
  unfold restore_value at h
  split at h
  · exact absurd rfl h
  dsimp only at h
  split at h
  · exact absurd rfl h
  next hcrc =>
  exact ⟨_, _, (List.take_append_drop _ _).symm, not_ne_iff.1 hcrc⟩

/-! ## By index -/

/-- An index outside the payload. -/
inductive OutOfRange where
  | at (index : Nat)
  deriving DecidableEq

/-- `payload[index]`. -/
def read (payload : Bytes) (index : Nat) : Except OutOfRange UInt8 :=
  match payload[index]? with
  | some b => .ok b
  | none => .error (.at index)

/-- Byte `i` of the stored checksum. -/
def join_byte (crc : UInt32) (b : UInt8) (i : Nat) : UInt32 :=
  crc ||| b.toUInt32 <<< UInt32.ofNat (8 * i)

/-- The loop that puts the stored checksum together. -/
def read_crc (payload : Bytes) (body : Nat) : Except OutOfRange UInt32 :=
  [0, 1, 2, 3].foldlM (fun crc i => do
    let b ← read payload (body + i)
    return join_byte crc b i) 0

/-- The checksum of the first `body` bytes, read one after another. -/
def read_update (payload : Bytes) (body : Nat) : Except OutOfRange UInt32 := do
  let data ← (List.range body).mapM (read payload)
  return crc32_update 0 data

/-- The loop over the length: at most ten bytes, none of them the version. What it finds is
the length and the position behind it. -/
def length_loop (payload : Bytes) (version : Nat) :
    Nat → Nat → Nat → Nat → Except OutOfRange (Option (Nat × Nat))
  | 0, _, _, _ => return none
  | fuel + 1, i, pos, len => do
    if pos = version then return none
    let byte ← read payload pos
    let len := len ||| ((byte.toNat % 128) <<< (7 * i)) % 2 ^ 64
    if byte.toNat < 128 then return some (len, pos + 1)
    else length_loop payload version fuel (i + 1) (pos + 1) len

/-- `payload.substr(pos, len)`, which refuses a position behind the end. -/
def substr (payload : Bytes) (pos len : Nat) : Except OutOfRange Bytes :=
  if payload.length < pos then .error (.at pos) else .ok ((payload.drop pos).take len)

/-- The length and the value, which must end where the version begins. -/
def read_value (payload : Bytes) (version : Nat) : Except OutOfRange (Option Bytes) := do
  match ← length_loop payload version kMaxVarintBytes 0 1 0 with
  | none => return none
  | some (len, pos) =>
    if len ≠ version - pos then return none
    let value ← substr payload pos len
    return some value

def restore_value_at (payload : Bytes) : Except OutOfRange (Option Bytes) := do
  if payload.length < 1 + 1 + 2 + 4 then return none
  let body := payload.length - 4
  let crc ← read_crc payload body
  let expected ← read_update payload body
  if crc ≠ expected then return none
  let low ← read payload (body - 2)
  if low ≠ kVersion then return none
  let high ← read payload (body - 1)
  if high ≠ 0 then return none
  let op ← read payload 0
  if op ≠ kOpString then return none
  read_value payload (body - 2)

theorem read_of_lt (h : i < payload.length) : read payload i = .ok payload[i] := by
  rw [read, List.getElem?_eq_getElem h]

theorem toNat_join_byte {acc : UInt32} (hi : i < 4) (hacc : acc.toNat < 2 ^ (8 * i)) (b : UInt8) :
    (join_byte acc b i).toNat = acc.toNat + b.toNat * 2 ^ (8 * i) := by
  have hb := b.toNat_lt
  have hplace : (UInt32.ofNat (8 * i)).toNat % 32 = 8 * i := by
    rw [UInt32.toNat_ofNat']
    omega
  have hfits : b.toNat * 2 ^ (8 * i) < 2 ^ 32 := by
    interval_cases i <;> omega
  rw [join_byte, UInt32.toNat_or, UInt32.toNat_shiftLeft, hplace, UInt8.toNat_toUInt32, Nat.shiftLeft_eq,
    Nat.mod_eq_of_lt hfits, Nat.or_comm, Nat.mul_comm b.toNat,
    ← Nat.two_pow_add_eq_or_of_lt hacc b.toNat, Nat.add_comm]

theorem read_crc_eq {body : Nat} (h : body + 4 = payload.length) :
    ∃ crc, read_crc payload body = .ok crc ∧ crc.toNat = Crc.value (payload.drop body) := by
  obtain ⟨b0, b1, b2, b3, hsum⟩ : ∃ b0 b1 b2 b3, payload.drop body = [b0, b1, b2, b3] := by
    apply List.length_eq_four.1
    rw [List.length_drop]
    omega
  have hread : ∀ i, read payload (body + i)
      = match [b0, b1, b2, b3][i]? with
        | some b => .ok b
        | none => .error (.at (body + i)) := by
    intro i
    rw [read, ← hsum, List.getElem?_drop]
  have h0 := b0.toNat_lt
  have h1 := b1.toNat_lt
  have h2 := b2.toNat_lt
  have hacc0 := @toNat_join_byte 0 0 (by norm_num) (by decide) b0
  have hacc1 := toNat_join_byte (i := 1) (by norm_num) (by rw [hacc0]; norm_num; omega) b1
  have hacc2 := toNat_join_byte (i := 2) (by norm_num) (by rw [hacc1, hacc0]; norm_num; omega) b2
  have hacc3 := toNat_join_byte (i := 3) (by norm_num)
    (by rw [hacc2, hacc1, hacc0]; norm_num; omega) b3
  refine ⟨join_byte (join_byte (join_byte (join_byte 0 b0 0) b1 1) b2 2) b3 3, ?_, ?_⟩
  · simp only [read_crc, List.foldlM_cons, hread]
    rfl
  · rw [hacc3, hacc2, hacc1, hacc0, hsum]
    simp only [Crc.value, List.foldr_cons, List.foldr_nil, UInt32.toNat_zero]
    omega

theorem mapM_read_range (h : n ≤ payload.length) :
    (List.range n).mapM (read payload) = .ok (payload.take n) := by
  induction n with
  | zero => rfl
  | succ n ih =>
    rw [List.range_succ, List.mapM_append, ih (by omega), List.mapM_cons, read_of_lt h,
      ← List.take_append_getElem h]
    rfl

theorem varint_loop_suffix {fuel : Nat} {rest : Bytes} (h : varint_loop fuel i v b = some (n, rest)) :
    rest <:+ b := by
  fun_induction varint_loop fuel i v b
  case case1 | case2 => simp at h
  case case3 =>
    simp only [Option.some.injEq, Prod.mk.injEq] at h
    exact h.2 ▸ List.suffix_cons _ _
  case case4 ih => exact (ih h).trans (List.suffix_cons _ _)

/-- The loop by index is the loop over what is left of the list. -/
theorem length_loop_eq (hv : version ≤ payload.length) (fuel i : Nat) {pos : Nat}
    (hpos : pos ≤ version) (len : Nat) :
    length_loop payload version fuel i pos len
      = .ok ((varint_loop fuel i len ((payload.take version).drop pos)).map
          fun r => (r.1, version - r.2.length)) := by
  induction fuel generalizing i pos len with
  | zero => rfl
  | succ fuel ih =>
    rw [length_loop]
    by_cases hend : pos = version
    · have hnil : (payload.take version).drop pos = [] := by
        apply List.drop_eq_nil_of_le
        rw [List.length_take]
        omega
      rw [if_pos hend, hnil]
      rfl
    -- the byte at `pos` is the head of what is left
    have hlt : pos < (payload.take version).length := by
      rw [List.length_take]
      omega
    have hcons : (payload.take version).drop pos
        = payload[pos] :: (payload.take version).drop (pos + 1) := by
      rw [List.drop_eq_getElem_cons hlt, List.getElem_take]
    rw [if_neg hend, read_of_lt (by omega), hcons, varint_loop]
    dsimp only [Bind.bind, Except.bind, pure, Except.pure]
    by_cases hlast : payload[pos].toNat < 128
    · have hback : version - ((payload.take version).drop (pos + 1)).length = pos + 1 := by
        rw [List.length_drop, List.length_take]
        omega
      rw [if_pos hlast, if_pos hlast, Option.map_some, hback]
    · rw [if_neg hlast, if_neg hlast]
      exact ih (i + 1) (by omega) _

theorem read_value_eq (hv : version ≤ payload.length) (hone : 1 ≤ version) :
    read_value payload version
      = .ok (match get_varint ((payload.take version).drop 1) with
        | none => none
        | some (len, rest) => if len ≠ rest.length then none else some rest) := by
  rw [read_value, length_loop_eq hv _ _ hone, get_varint]
  dsimp only [Bind.bind, Except.bind]
  cases hloop : varint_loop kMaxVarintBytes 0 0 ((payload.take version).drop 1) with
  | none => rfl
  | some r =>
    obtain ⟨len, rest⟩ := r
    -- what is left is the end of the part before the version
    have hsuffix := (varint_loop_suffix hloop).trans (List.drop_suffix 1 _)
    have hlen : (payload.take version).length = version := List.length_take_of_le hv
    have hle : rest.length ≤ version := hlen ▸ hsuffix.length_le
    have hrest : rest = (payload.drop (version - rest.length)).take rest.length := by
      have hdrop := List.suffix_iff_eq_drop.1 hsuffix
      rw [hlen, List.drop_take, Nat.sub_sub_self hle] at hdrop
      exact hdrop
    have hback : version - (version - rest.length) = rest.length := Nat.sub_sub_self hle
    dsimp only [Option.map_some]
    rw [hback]
    by_cases hne : len ≠ rest.length
    · rw [if_pos hne, if_pos hne]
      rfl
    · rw [if_neg hne, if_neg hne, not_ne_iff.1 hne, substr, if_neg (by omega), ← hrest]
      rfl

theorem read_update_eq (h : n ≤ payload.length) :
    read_update payload n = .ok (crc32_update 0 (payload.take n)) := by
  rw [read_update, mapM_read_range h]
  rfl

/-- The last two bytes of the body, and the first. -/
theorem body_ends (h : 2 ≤ n) (hn : n ≤ payload.length) :
    (payload.take n).drop (n - 2) = [payload[n - 2], payload[n - 1]]
      ∧ (payload.take n).head? = some payload[0] := by
  have hlen : (payload.take n).length = n := List.length_take_of_le hn
  have hnext : n - 2 + 1 = n - 1 := by omega
  constructor
  · rw [List.drop_eq_getElem_cons (by omega), List.getElem_take]
    congr 1
    rw [List.drop_eq_getElem_cons (by omega), List.getElem_take]
    simp only [hnext]
    congr 1
    apply List.drop_eq_nil_of_le
    omega
  · rw [List.head?_take, if_neg (by omega), List.head?_eq_getElem?, List.getElem?_eq_getElem]

/-- **The indices the source uses are all inside the payload**, and it finds what the list
version finds. -/
theorem restore_value_at_eq (payload : Bytes) :
    restore_value_at payload = .ok (restore_value payload) := by
  rw [restore_value_at, restore_value]
  by_cases hshort : payload.length < 1 + 1 + 2 + 4
  · rw [if_pos hshort, if_pos hshort]
    rfl
  rw [if_neg hshort, if_neg hshort]
  dsimp only
  set body := payload.length - 4 with hbody
  have hle : body ≤ payload.length := by omega
  have hlen : (payload.take body).length = body := List.length_take_of_le hle
  have hfour : body + 4 = payload.length := by omega
  obtain ⟨crc, hread, hcrc⟩ := read_crc_eq hfour
  -- the checksum is read byte by byte there, as a number here
  have hseal : get_fixed (payload.drop body) 4
      ≠ some ((crc32_update 0 (payload.take body)).toNat, [])
        ↔ crc ≠ crc32_update 0 (payload.take body) := by
    rw [Ne, get_fixed_eq_some, ← hcrc, UInt32.toNat_inj, List.length_drop]
    apply not_congr
    constructor
    · exact fun h => h.2
    · exact fun h => ⟨by omega, h⟩
  have htwo : 2 ≤ body := by omega
  obtain ⟨hends, hhead⟩ := body_ends htwo hle
  rw [hread, read_update_eq hle, hlen, hends, hhead]
  dsimp only [Bind.bind, Except.bind]
  by_cases hsum : crc ≠ crc32_update 0 (payload.take body)
  · rw [if_pos hsum, if_pos (hseal.2 hsum)]
    rfl
  -- what is read from here on is inside the body
  rw [if_neg hsum, if_neg (mt hseal.1 hsum), read_of_lt (by omega), read_of_lt (by omega),
    read_of_lt (by omega), List.take_take, Nat.min_eq_left (by omega),
    read_value_eq (by omega) (by omega)]
  dsimp only
  by_cases hlow : payload[body - 2] ≠ kVersion
  · rw [if_pos hlow, if_pos (Or.inl fun h => hlow (List.cons.inj h).1)]
    rfl
  by_cases hhigh : payload[body - 1] ≠ 0
  · rw [if_neg hlow, if_pos hhigh,
      if_pos (Or.inl fun h => hhigh (List.cons.inj (List.cons.inj h).2).1)]
    rfl
  by_cases hop : payload[0] ≠ kOpString
  · rw [if_neg hlow, if_neg hhigh, if_pos hop, if_pos (Or.inr fun h => hop (Option.some.inj h))]
    rfl
  rw [if_neg hlow, if_neg hhigh, if_neg hop, not_ne_iff.1 hlow, not_ne_iff.1 hhigh,
    not_ne_iff.1 hop]
  refine congrArg Except.ok (Eq.symm (if_neg ?_))
  simp

/-- **DUMP and RESTORE.** A dumped value is restored as it was. A payload that differs from
a dumped one, and only within four bytes in a row, is refused. On no payload is anything
read outside of it. -/
theorem dump_restore {value : Bytes} (h : value.length < 2 ^ 64) :
    restore_value (dump_value value) = some value
      ∧ (∀ payload, Crc.Within 4 (dump_value value) payload → payload ≠ dump_value value →
          restore_value payload = none)
      ∧ ∀ payload, restore_value_at payload = .ok (restore_value payload) := by
  refine ⟨restore_value_dump_value h, ?_, restore_value_at_eq⟩
  intro payload hwithin hne
  by_contra hsome
  exact hne (sealed_unique (sealed_dump_value value) (sealed_of_restore_value hsome) hwithin).symm

/-- A flipped bit in the length of "ab". -/
theorem dump_restore_flipped :
    restore_value (dump_value (lit "ab")) = some (lit "ab")
      ∧ restore_value ((dump_value (lit "ab")).set 1 3) = none := by
  have hsize : (lit "ab").length < 2 ^ 64 := by decide
  obtain ⟨hback, hrefused, -⟩ := dump_restore hsize
  refine ⟨hback, hrefused _ ⟨[kOpString], [2], [3], (dump_value (lit "ab")).drop 2, ?_⟩ ?_⟩
  · decide +kernel
  · decide +kernel

end EpochKV.Codec

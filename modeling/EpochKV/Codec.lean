/-
The byte encodings of `snapshot.cpp`: base-128 lengths, little-endian integers,
CRC-32, and the `DUMP` payload built from them.

Lengths and integers are natural numbers below `2 ^ 64`, the range of the source's
`uint64_t`. Reading back what was written is the content of this file:
`get_varint_put_varint`, `get_fixed_put_fixed` and, for the payload a migrated key
travels in, `restore_value_dump_value`.
-/
import Mathlib.Data.Nat.Bitwise
import EpochKV.Text

set_option autoImplicit false

namespace EpochKV.Codec

open Text

def kVersion : UInt8 := 1

def kOpString : UInt8 := 0x00

def kOpExpireMs : UInt8 := 0xFC

def kOpEof : UInt8 := 0xFF

/-- Seven bits a byte: ten bytes for 64 bits. -/
def kMaxVarintBytes : Nat := 10

/-! ## CRC-32 -/

/-- An entry of the table in `crc32_update`. -/
def crc32_table (i : UInt8) : UInt32 :=
  (List.range 8).foldl
    (fun (c : UInt32) _ => if c &&& 1 ≠ 0 then (0xEDB88320 : UInt32) ^^^ (c >>> 1) else c >>> 1) i.toUInt32

/-- One byte into the (complemented) register. -/
def crc32_byte (crc : UInt32) (b : UInt8) : UInt32 :=
  crc32_table (crc.toUInt8 ^^^ b) ^^^ (crc >>> 8)

/-- `crc32_update`: the register is complemented before and after. -/
def crc32_update (crc : UInt32) (data : Bytes) : UInt32 := ~~~ (data.foldl crc32_byte (~~~ crc))

/-- The checksum can be computed while streaming. -/
theorem crc32_update_append (crc : UInt32) (a b : Bytes) :
    crc32_update crc (a ++ b) = crc32_update (crc32_update crc a) b := by
  simp only [crc32_update, List.foldl_append, UInt32.not_not]

example : crc32_update 0 (lit "123456789") = 0xCBF43926 := by decide +kernel

/-! ## Base-128 lengths -/

/-- The `do`/`while` of `put_varint`, at most `fuel` bytes. -/
def varint_bytes : Nat → Nat → Bytes
  | 0, _ => []
  | fuel + 1, v =>
    if v / 128 ≠ 0 then UInt8.ofNat (v % 128 + 128) :: varint_bytes fuel (v / 128)
    else [UInt8.ofNat (v % 128)]

def put_varint (v : Nat) : Bytes := varint_bytes kMaxVarintBytes v

/-- The loop of `get_varint` from byte `i` on: bit 7 says that more follows, the
other bits go in at `7 * i`, and what does not fit into 64 bits is lost. -/
def varint_loop : Nat → Nat → Nat → Bytes → Option (Nat × Bytes)
  | 0, _, _, _ => none
  | _ + 1, _, _, [] => none
  | fuel + 1, i, v, byte :: rest =>
    let v := v ||| ((byte.toNat % 128) <<< (7 * i)) % 2 ^ 64
    if byte.toNat < 128 then some (v, rest) else varint_loop fuel (i + 1) v rest

def get_varint (data : Bytes) : Option (Nat × Bytes) := varint_loop kMaxVarintBytes 0 0 data

theorem toNat_ofNat_lt {n : Nat} (h : n < 256) : (UInt8.ofNat n).toNat = n := by
  rw [UInt8.toNat_ofNat', Nat.mod_eq_of_lt h]

/-- The bits read so far are below `7 * i`, the new ones are not: the two do not
overlap, and joining them is addition. -/
theorem join_bits {i acc w : Nat} (hacc : acc < 2 ^ (7 * i)) (hw : w * 2 ^ (7 * i) < 2 ^ 64) :
    acc ||| (w <<< (7 * i)) % 2 ^ 64 = acc + w * 2 ^ (7 * i) := by
  rw [Nat.shiftLeft_eq, Nat.mod_eq_of_lt hw, Nat.or_comm, Nat.mul_comm w,
    ← Nat.two_pow_add_eq_or_of_lt hacc w, Nat.add_comm]

/-- The induction is on the bytes still to come; `acc` is what the bytes before
them stood for. -/
theorem varint_loop_varint_bytes (fuel i acc v : Nat) (rest : Bytes) (hacc : acc < 2 ^ (7 * i))
    (hv : v < 2 ^ (7 * fuel)) (hfit : v * 2 ^ (7 * i) < 2 ^ 64) (hpos : 0 < fuel) :
    varint_loop fuel i acc (varint_bytes fuel v ++ rest)
      = some (acc + v * 2 ^ (7 * i), rest) := by
  induction fuel generalizing i acc v with
  | zero => omega
  | succ fuel ih =>
    have hpow : 2 ^ (7 * (i + 1)) = 128 * 2 ^ (7 * i) := by rw [Nat.mul_succ, Nat.pow_add]; ring
    have hlow : v % 128 * 2 ^ (7 * i) < 2 ^ 64 :=
      lt_of_le_of_lt (Nat.mul_le_mul_right _ (Nat.mod_le v 128)) hfit
    have hjoin := join_bits hacc hlow
    have hmod : v % 128 < 128 := Nat.mod_lt v (by norm_num)
    by_cases hbig : v / 128 = 0
    · have hsmall : v % 128 = v := by omega
      rw [hsmall] at hjoin hmod
      have hv256 : v < 256 := by omega
      rw [varint_bytes, if_neg (not_not.mpr hbig), hsmall, List.cons_append, List.nil_append,
        varint_loop, toNat_ofNat_lt hv256, hsmall, if_pos hmod, hjoin]
    · have hbyte : (UInt8.ofNat (v % 128 + 128)).toNat = v % 128 + 128 := toNat_ofNat_lt (by omega)
      have hstrip : (v % 128 + 128) % 128 = v % 128 := by omega
      -- another byte follows, so there was fuel for it
      have hfuel : 0 < fuel := by
        by_contra h0
        have : fuel = 0 := by omega
        subst this
        norm_num at hv
        omega
      have hsplit : v = v % 128 + 128 * (v / 128) := (Nat.mod_add_div v 128).symm
      have hrest : v % 128 * 2 ^ (7 * i) + v / 128 * 2 ^ (7 * (i + 1)) = v * 2 ^ (7 * i) := by
        rw [hpow]
        conv_rhs => rw [hsplit]
        ring
      have hacc' : acc + v % 128 * 2 ^ (7 * i) < 2 ^ (7 * (i + 1)) := by
        rw [hpow]
        have : v % 128 * 2 ^ (7 * i) ≤ 127 * 2 ^ (7 * i) := Nat.mul_le_mul_right _ (by omega)
        omega
      have hv' : v / 128 < 2 ^ (7 * fuel) := by
        rw [Nat.div_lt_iff_lt_mul (by norm_num)]
        have : 2 ^ (7 * (fuel + 1)) = 2 ^ (7 * fuel) * 128 := by rw [Nat.mul_succ, Nat.pow_add]
        omega
      have hstep := ih (i + 1) (acc + v % 128 * 2 ^ (7 * i)) (v / 128) hacc' hv' (by omega) hfuel
      rw [varint_bytes, if_pos hbig, List.cons_append, varint_loop]
      simp only [hbyte, hstrip, hjoin]
      rw [if_neg (by omega), hstep, Nat.add_assoc, hrest]

variable {v : Nat}

/-- **A length is read back as it was written.** -/
theorem get_varint_put_varint (hv : v < 2 ^ 64) (rest : Bytes) :
    get_varint (put_varint v ++ rest) = some (v, rest) := by
  have h := varint_loop_varint_bytes kMaxVarintBytes 0 0 v rest (by norm_num)
    (lt_trans hv (by decide)) (by simpa using hv) (by decide)
  simpa [get_varint, put_varint] using h

/-! ## Little-endian integers -/

def put_fixed (v : Nat) (bytes : Nat) : Bytes :=
  (List.range bytes).map fun i => UInt8.ofNat (v >>> (8 * i))

def get_fixed (data : Bytes) (bytes : Nat) : Option (Nat × Bytes) :=
  if data.length < bytes then none
  else some ((data.take bytes).foldr (fun b v => b.toNat + 256 * v) 0, data.drop bytes)

/-- The bytes of a number, the lowest first, stand for it. -/
theorem foldr_put_fixed (v bytes : Nat) :
    (put_fixed v bytes).foldr (fun b v => b.toNat + 256 * v) 0 = v % 256 ^ bytes := by
  induction bytes generalizing v with
  | zero => simp [put_fixed, Nat.mod_one]
  | succ n ih =>
    have hshift : (List.range n).map ((fun i => UInt8.ofNat (v >>> (8 * i))) ∘ Nat.succ)
        = put_fixed (v / 256) n := by
      refine List.map_congr_left fun i _ => ?_
      simp only [Function.comp_apply]
      rw [show 8 * Nat.succ i = 8 + 8 * i by omega, Nat.shiftRight_add, Nat.shiftRight_eq_div_pow v 8]
    rw [put_fixed, List.range_succ_eq_map, List.map_cons, List.map_map, hshift, List.foldr_cons, ih]
    simp only [Nat.mul_zero, Nat.shiftRight_zero, UInt8.toNat_ofNat']
    rw [show (2 : Nat) ^ 8 = 256 by norm_num, Nat.pow_succ', Nat.mod_mul]

theorem length_put_fixed (v bytes : Nat) : (put_fixed v bytes).length = bytes := by
  simp [put_fixed]

/-- **A number is read back as it was written.** -/
theorem get_fixed_put_fixed (bytes : Nat) (hv : v < 256 ^ bytes) (rest : Bytes) :
    get_fixed (put_fixed v bytes ++ rest) bytes = some (v, rest) := by
  have hlen := length_put_fixed v bytes
  rw [get_fixed, if_neg (by rw [List.length_append, hlen]; omega),
    List.take_left' hlen, List.drop_left' hlen, foldr_put_fixed, Nat.mod_eq_of_lt hv]

/-! ## The payload of DUMP and RESTORE -/

/-- `dump_value`: type, length, value and version, and the checksum of these. -/
def dump_value (value : Bytes) : Bytes :=
  let payload := [kOpString] ++ put_varint value.length ++ value ++ [kVersion, 0]
  payload ++ put_fixed (crc32_update 0 payload).toNat 4

/-- `restore_value`: the checksum is checked before anything is read. -/
def restore_value (payload : Bytes) : Option Bytes :=
  if payload.length < 1 + 1 + 2 + 4 then none
  else
    let body := payload.take (payload.length - 4)
    if get_fixed (payload.drop (payload.length - 4)) 4
        ≠ some ((crc32_update 0 body).toNat, []) then none
    else if body.drop (body.length - 2) ≠ [kVersion, 0] ∨ body.head? ≠ some kOpString then none
    else
      match get_varint ((body.take (body.length - 2)).drop 1) with
      | none => none
      | some (len, rest) => if len ≠ rest.length then none else some rest

theorem put_varint_ne_nil (v : Nat) : put_varint v ≠ [] := by
  unfold put_varint kMaxVarintBytes varint_bytes
  split <;> simp

/-- **A dumped value is restored as it was.** -/
theorem restore_value_dump_value {value : Bytes} (h : value.length < 2 ^ 64) :
    restore_value (dump_value value) = some value := by
  set inner := [kOpString] ++ put_varint value.length ++ value with hinner
  set body := inner ++ [kVersion, 0] with hbody
  have hdump : dump_value value = body ++ put_fixed (crc32_update 0 body).toNat 4 := rfl
  have hcrc := length_put_fixed (crc32_update 0 body).toNat 4
  have hlen : (dump_value value).length = body.length + 4 := by
    rw [hdump, List.length_append, hcrc]
  have hvar : 0 < (put_varint value.length).length :=
    List.length_pos_iff.mpr (put_varint_ne_nil _)
  have hin : inner.length = 1 + (put_varint value.length).length + value.length := by
    simp only [hinner, List.length_append, List.length_singleton]
  have hb : body.length = inner.length + 2 := by simp [hbody]
  have htake : (dump_value value).take (body.length + 4 - 4) = body := by
    rw [Nat.add_sub_cancel, hdump, List.take_left]
  have hdrop : (dump_value value).drop (body.length + 4 - 4)
      = put_fixed (crc32_update 0 body).toNat 4 ++ [] := by
    rw [Nat.add_sub_cancel, hdump, List.drop_left, List.append_nil]
  have hfix := get_fixed_put_fixed 4
    (show (crc32_update 0 body).toNat < 256 ^ 4 from UInt32.toNat_lt _) []
  have hend : body.drop (body.length - 2) = [kVersion, 0] := by
    rw [hb, Nat.add_sub_cancel, hbody, List.drop_left]
  have hhead : body.head? = some kOpString := rfl
  have hfields : (body.take (body.length - 2)).drop 1 = put_varint value.length ++ value := by
    rw [hb, Nat.add_sub_cancel, hbody, List.take_left]
    rfl
  unfold restore_value
  rw [if_neg (by omega)]
  simp only [hlen, htake, hdrop, hfix, hend, hhead, hfields, ne_eq, not_true_eq_false, or_self,
    if_false, get_varint_put_varint h]

end EpochKV.Codec

/-
A reflected cyclic redundancy check, for a register of any width.

The register is shifted down one bit at a time, and the polynomial is added whenever a one
falls out; a byte is added to the low end of the register before eight such shifts. Two
facts carry everything here. A shift is linear in exclusive or (`shift_xor`), so the bytes
fed can be collected into one word before all the shifts (`feed_eq_shifts`). And a shift is
one to one if the polynomial has its top bit (`shift_injective`), so two strings that differ
only within a stretch no longer than the register leave different registers
(`feed_ne_of_within`).
-/
import Mathlib.Data.Nat.Bitwise
import Mathlib.Logic.Function.Iterate
import Mathlib.Tactic.Ring

set_option autoImplicit false

namespace EpochKV.Crc

variable {w : Nat} {p : BitVec w}

/-! ## One shift -/

/-- The polynomial, if a one falls out. -/
def carry (p : BitVec w) (out : Bool) : BitVec w := if out then p else 0

/-- One bit out at the low end. -/
def shift (p c : BitVec w) : BitVec w := (c >>> 1) ^^^ carry p (c.getLsbD 0)

theorem getLsbD_carry (out : Bool) (i : Nat) : (carry p out).getLsbD i = (out && p.getLsbD i) := by
  cases out <;> simp [carry]

theorem getLsbD_shift (c : BitVec w) (i : Nat) :
    (shift p c).getLsbD i = (c.getLsbD (1 + i) ^^ (c.getLsbD 0 && p.getLsbD i)) := by
  rw [shift, BitVec.getLsbD_xor, BitVec.getLsbD_ushiftRight, getLsbD_carry]

/-- A shift is linear. -/
theorem shift_xor (a b : BitVec w) : shift p (a ^^^ b) = shift p a ^^^ shift p b := by
  apply BitVec.eq_of_getLsbD_eq
  intro i _
  simp only [BitVec.getLsbD_xor, getLsbD_shift]
  cases a.getLsbD (1 + i) <;> cases b.getLsbD (1 + i) <;> cases a.getLsbD 0 <;>
    cases b.getLsbD 0 <;> simp

variable {c : BitVec w} {a b bytes : List UInt8}

theorem eq_zero_of_shift (hp : p.msb = true) (h : shift p c = 0) : c = 0 := by
  have hbit : ∀ i, (c.getLsbD (1 + i) ^^ (c.getLsbD 0 && p.getLsbD i)) = false := by
    intro i
    rw [← getLsbD_shift, h]
    exact BitVec.getLsbD_zero
  -- the top bit of the result is the bit that fell out
  have hout : c.getLsbD 0 = false := by
    have htop := hbit (w - 1)
    rw [← BitVec.msb_eq_getLsbD_last, hp, BitVec.getLsbD_of_ge c _ (by omega)] at htop
    simpa using htop
  apply BitVec.eq_of_getLsbD_eq
  intro i _
  cases i with
  | zero => exact hout.trans BitVec.getLsbD_zero.symm
  | succ i =>
    have hnext := hbit i
    rw [hout, Nat.add_comm] at hnext
    simpa using hnext

/-- The bit that fell out can be told from the top of the result, so nothing is lost. -/
theorem shift_injective (hp : p.msb = true) : Function.Injective (shift p) := by
  intro a b h
  rw [← BitVec.xor_eq_zero_iff]
  apply eq_zero_of_shift hp
  rw [shift_xor, h, BitVec.xor_self]
  rfl

/-! ## Many shifts -/

def shifts (p : BitVec w) (n : Nat) (c : BitVec w) : BitVec w := (shift p)^[n] c

theorem shifts_succ (n : Nat) (c : BitVec w) : shifts p (n + 1) c = shift p (shifts p n c) :=
  Function.iterate_succ_apply' _ _ _

theorem shifts_add (m n : Nat) (c : BitVec w) : shifts p (m + n) c = shifts p m (shifts p n c) :=
  Function.iterate_add_apply _ _ _ _

theorem shifts_injective (hp : p.msb = true) (n : Nat) : Function.Injective (shifts p n) :=
  (shift_injective hp).iterate n

theorem shifts_xor (n : Nat) (a b : BitVec w) :
    shifts p n (a ^^^ b) = shifts p n a ^^^ shifts p n b := by
  induction n with
  | zero => rfl
  | succ n ih => rw [shifts_succ, shifts_succ, shifts_succ, ih, shift_xor]

variable {n : Nat}

/-- A register with its low bits clear is only moved down. -/
theorem shifts_of_clear (h : ∀ i < n, c.getLsbD i = false) : shifts p n c = c >>> n := by
  induction n with
  | zero => exact (BitVec.ushiftRight_zero c).symm
  | succ n ih =>
    have hlow : (c >>> n).getLsbD 0 = false := by
      rw [BitVec.getLsbD_ushiftRight]
      exact h n (Nat.lt_succ_self n)
    rw [shifts_succ, ih fun i hi => h i (by omega), shift, hlow, BitVec.shiftRight_add]
    exact BitVec.xor_zero

/-- Bits that were moved up with room above them come down unchanged. -/
theorem shifts_shiftLeft {x : BitVec w} (h : x.toNat < 2 ^ (w - n)) : shifts p n (x <<< n) = x := by
  rw [shifts_of_clear fun i hi => by simp [hi]]
  apply BitVec.eq_of_getLsbD_eq
  intro i hi
  rw [BitVec.getLsbD_ushiftRight, BitVec.getLsbD_shiftLeft, Nat.add_sub_cancel_left]
  by_cases hin : n + i < w
  · simp [hin]
  · have hhigh : x.getLsbD i = false := by
      apply Nat.testBit_eq_false_of_lt
      apply lt_of_lt_of_le h
      exact Nat.pow_le_pow_right Nat.two_pos (by omega)
    rw [hhigh, Bool.and_false]

/-! ## Bytes -/

/-- A byte at the low end of the register. -/
def low (w : Nat) (b : UInt8) : BitVec w := BitVec.ofNat w b.toNat

/-- One byte into the register. -/
def step (p : BitVec w) (c : BitVec w) (b : UInt8) : BitVec w := shifts p 8 (c ^^^ low w b)

def feed (p : BitVec w) (c : BitVec w) (bytes : List UInt8) : BitVec w := bytes.foldl (step p) c

theorem feed_append (c : BitVec w) (a b : List UInt8) :
    feed p c (a ++ b) = feed p (feed p c a) b := List.foldl_append

/-- Bytes side by side, the first one lowest. -/
def word (w : Nat) : List UInt8 → BitVec w
  | [] => 0
  | b :: bs => low w b ^^^ (word w bs <<< 8)

/-- Their value. -/
def value (bytes : List UInt8) : Nat := bytes.foldr (fun b v => b.toNat + 256 * v) 0

theorem value_lt (bytes : List UInt8) : value bytes < 2 ^ (8 * bytes.length) := by
  induction bytes with
  | nil => exact Nat.one_pos
  | cons b bs ih =>
    have hb := b.toNat_lt
    have hpow : 2 ^ (8 * (b :: bs).length) = 256 * 2 ^ (8 * bs.length) := by
      rw [List.length_cons, Nat.mul_succ, Nat.pow_add]
      ring
    rw [hpow]
    show b.toNat + 256 * value bs < _
    omega

/-- Bytes can be told from their value, given how many there are. -/
theorem value_injective (hlen : a.length = b.length) (h : value a = value b) : a = b := by
  induction a generalizing b with
  | nil => exact (List.eq_nil_of_length_eq_zero hlen.symm).symm
  | cons x a ih =>
    cases b with
    | nil => simp at hlen
    | cons y b =>
      have hx := x.toNat_lt
      have hy := y.toNat_lt
      have hv : x.toNat + 256 * value a = y.toNat + 256 * value b := h
      have hhead : x = y := UInt8.toNat_inj.1 (by omega)
      rw [hhead, ih (Nat.succ.inj hlen) (by omega)]

/-- Bits below the eighth and bits from there on do not meet. -/
theorem xor_shiftLeft_eight {b v : Nat} (hb : b < 256) : b ^^^ (v <<< 8) = b + 256 * v := by
  have hsum : b + 256 * v = 2 ^ 8 * v + b := by omega
  rw [hsum]
  apply Nat.eq_of_testBit_eq
  intro i
  rw [Nat.testBit_xor, Nat.testBit_shiftLeft, Nat.testBit_two_pow_mul_add v (by omega)]
  by_cases hi : i < 8
  · have hge : ¬ 8 ≤ i := by omega
    simp [hi, hge]
  · have hge : 8 ≤ i := by omega
    have hlow : b.testBit i = false := by
      apply Nat.testBit_eq_false_of_lt
      apply lt_of_lt_of_le (show b < 2 ^ 8 by omega)
      exact Nat.pow_le_pow_right Nat.two_pos hge
    simp [hi, hge, hlow]

/-- As many bytes as the register holds stand side by side in it. -/
theorem toNat_word (h : 8 * bytes.length ≤ w) : (word w bytes).toNat = value bytes := by
  induction bytes with
  | nil => exact BitVec.toNat_zero
  | cons b bs ih =>
    rw [List.length_cons] at h
    have hb := b.toNat_lt
    have hwhole := lt_of_lt_of_le (value_lt (b :: bs))
      (Nat.pow_le_pow_right Nat.two_pos (show 8 * (b :: bs).length ≤ w from h))
    have hsum : value (b :: bs) = b.toNat + 256 * value bs := rfl
    have hshift : value bs <<< 8 = 256 * value bs := by
      rw [Nat.shiftLeft_eq]
      ring
    rw [word, BitVec.toNat_xor, BitVec.toNat_shiftLeft, ih (by omega), low, BitVec.toNat_ofNat,
      Nat.mod_eq_of_lt (by omega), Nat.mod_eq_of_lt (by rw [hshift]; omega),
      xor_shiftLeft_eight hb, hsum]

/-- **The bytes may be collected first**: as many as the register holds, added at once, and
then all the shifts. -/
theorem feed_eq_shifts (c : BitVec w) (h : 8 * bytes.length ≤ w) :
    feed p c bytes = shifts p (8 * bytes.length) (c ^^^ word w bytes) := by
  induction bytes generalizing c with
  | nil => exact BitVec.xor_zero.symm
  | cons b bs ih =>
    rw [List.length_cons] at h
    have hroom : (word w bs).toNat < 2 ^ (w - 8) := by
      rw [toNat_word (by omega)]
      apply lt_of_lt_of_le (value_lt bs)
      exact Nat.pow_le_pow_right Nat.two_pos (by omega)
    have hmoved : shifts p 8 (word w bs <<< 8) = word w bs := shifts_shiftLeft hroom
    have hfirst : feed p c (b :: bs) = feed p (step p c b) bs := rfl
    rw [hfirst, ih _ (by omega), step, List.length_cons, Nat.mul_succ, shifts_add, word,
      ← BitVec.xor_assoc, shifts_xor 8 (c ^^^ low w b), hmoved]

/-! ## Damage -/

/-- The strings differ only within `n` bytes next to each other. -/
def Within {α : Type} (n : Nat) (a b : List α) : Prop :=
  ∃ before xs ys after, a = before ++ (xs ++ after) ∧ b = before ++ (ys ++ after) ∧
    xs.length = ys.length ∧ xs.length ≤ n

/-- Whatever follows, two registers that differ stay different. -/
theorem feed_injective (hp : p.msb = true) (bytes : List UInt8) :
    Function.Injective fun c => feed p c bytes := by
  induction bytes with
  | nil => exact Function.injective_id
  | cons b bs ih =>
    intro a a' h
    have hstep : step p a b = step p a' b := ih h
    exact (BitVec.xor_left_inj _).1 (shifts_injective hp 8 hstep)

/-- **A stretch of damage no longer than the register is seen**, wherever it is. -/
theorem feed_ne_of_within (hp : p.msb = true) (hn : 8 * n ≤ w) (h : Within n a b) (hne : a ≠ b)
    (c : BitVec w) : feed p c a ≠ feed p c b := by
  obtain ⟨before, xs, ys, after, rfl, rfl, hlen, hle⟩ := h
  intro hfeed
  rw [feed_append, feed_append, feed_append, feed_append] at hfeed
  -- the same bytes follow, so the registers differ no more before them
  have hword : feed p (feed p c before) xs = feed p (feed p c before) ys :=
    feed_injective hp after hfeed
  generalize feed p c before = c' at hword
  rw [feed_eq_shifts c' (by omega), feed_eq_shifts c' (by omega), hlen] at hword
  have hsame : word w xs = word w ys := (BitVec.xor_right_inj _).1 (shifts_injective hp _ hword)
  apply hne
  have hvalue : value xs = value ys := by
    rw [← toNat_word (w := w) (by omega), hsame, toNat_word (by omega)]
  rw [value_injective hlen hvalue]

end EpochKV.Crc

/-
Byte strings and the integer texts of the command layer.

Everything a client sends, and everything the server writes to a log, is a
vector of byte strings (`CommandDispatcher::Args`). Four small functions of
`command_dispatcher.cpp` decide what such a string means as a number or as an
option word: `to_upper`, `parse_int64`, `parse_canonical_int64` and
`deadline_from`; `std::to_string` goes the other way.

The one fact the logs rest on is `parse_int64_to_string`: a deadline that is
printed into a logged command is read back as the same deadline, for every
64-bit value. A `std::from_chars` that reads "-" or "" fails, as here.
-/
import Mathlib.Data.Nat.Digits.Lemmas

set_option autoImplicit false

namespace EpochKV.Text

/-- A C++ `std::string`: arbitrary bytes, any length. -/
abbrev Bytes := List UInt8

instance : LawfulBEq Bytes := inferInstance

/-- `CommandDispatcher::Args`. -/
abbrev Args := List Bytes

/-- A string literal of the source, as its bytes. -/
def lit (s : String) : Bytes := s.toUTF8.data.toList

/-! ## Option words -/

/-- `std::toupper` in the C locale. -/
def toupper (c : UInt8) : UInt8 := if 97 ≤ c ∧ c ≤ 122 then c - 32 else c

def to_upper (s : Bytes) : Bytes := s.map toupper

/-- Client text echoed inside an error line: CR and LF become blanks. -/
def sanitize_for_error (s : Bytes) : Bytes :=
  s.map fun c => if c = 13 ∨ c = 10 then 32 else c

/-! ## 64-bit integers as text -/

def int64_min : Int := -9223372036854775808

def int64_max : Int := 9223372036854775807

/-- The value is representable as an `int64_t`. -/
def Fits (n : Int) : Prop := int64_min ≤ n ∧ n ≤ int64_max

instance (n : Int) : Decidable (Fits n) := inferInstanceAs (Decidable (_ ∧ _))

/-- One digit of `std::from_chars`, most significant first. -/
def read_digit (acc : Nat) (c : UInt8) : Option Nat :=
  if 48 ≤ c ∧ c ≤ 57 then some (acc * 10 + (c.toNat - 48)) else none

/-- A non-empty run of decimal digits and nothing else. -/
def parse_digits (s : Bytes) : Option Nat :=
  if s = [] then none else s.foldlM read_digit 0

/-- `std::from_chars` into an `int64_t`, the whole string consumed: an optional
minus sign, digits, and a value in range. -/
def parse_int64 (s : Bytes) : Option Int :=
  match s with
  | 45 :: rest => (parse_digits rest).bind fun n => if Fits (-n) then some (-n) else none
  | _ => (parse_digits s).bind fun n => if Fits n then some (n : Int) else none

def nat_to_string (n : Nat) : Bytes :=
  if n = 0 then [48] else (Nat.digits 10 n).reverse.map fun d => UInt8.ofNat (48 + d)

/-- `std::to_string`. -/
def to_string (n : Int) : Bytes :=
  if n < 0 then 45 :: nat_to_string n.natAbs else nat_to_string n.natAbs

/-- Only the spelling `std::to_string` would produce counts. -/
def parse_canonical_int64 (s : Bytes) : Option Int :=
  (parse_int64 s).bind fun n => if to_string n = s then some n else none

/-- `now + amount * unit_ms`, or nothing when either step overflows. -/
def deadline_from (now amount unit_ms : Int) : Option Int :=
  if Fits (amount * unit_ms) ∧ Fits (now + amount * unit_ms) then some (now + amount * unit_ms)
  else none

theorem deadline_from_eq {now amount unit_ms d : Int} (h : deadline_from now amount unit_ms = some d) :
    d = now + amount * unit_ms ∧ Fits d := by
  unfold deadline_from at h
  split at h
  case isTrue hf =>
    simp only [Option.some.injEq] at h
    exact ⟨h.symm, h ▸ hf.2⟩
  case isFalse => simp at h

/-! ## Printing and reading back -/

/-- A printed digit is read as itself. -/
theorem read_digit_ofNat {acc d : Nat} (hd : d < 10) :
    read_digit acc (UInt8.ofNat (48 + d)) = some (acc * 10 + d) := by
  interval_cases d <;> simp [read_digit]

/-- The digits of a number, least significant first, read back through
`from_chars`. The induction is on the digit list, so the step peels the *last*
character of the text. -/
theorem foldlM_read_digit (ds : List Nat) (hds : ∀ d ∈ ds, d < 10) :
    (ds.reverse.map fun d => UInt8.ofNat (48 + d)).foldlM read_digit 0
      = some (Nat.ofDigits 10 ds) := by
  induction ds with
  | nil => rfl
  | cons d ds ih =>
    have ih' := ih fun x hx => hds x (List.mem_cons_of_mem _ hx)
    rw [List.reverse_cons, List.map_append, List.foldlM_append, ih']
    simp only [List.map_cons, List.map_nil, Option.bind_eq_bind, Option.bind_some,
      List.foldlM_cons, List.foldlM_nil]
    rw [read_digit_ofNat (hds d List.mem_cons_self)]
    simp only [Option.bind_some, Nat.ofDigits_cons, Option.pure_def, Option.some.injEq]
    ring

theorem nat_to_string_ne_nil (n : Nat) : nat_to_string n ≠ [] := by
  unfold nat_to_string
  split
  case isTrue => simp
  case isFalse h => simp [Nat.digits_ne_nil_iff_ne_zero.mpr h]

/-- A number is printed with digits. -/
theorem digit_of_mem_nat_to_string {n : Nat} {b : UInt8} (h : b ∈ nat_to_string n) :
    48 ≤ b ∧ b ≤ 57 := by
  unfold nat_to_string at h
  split at h
  case isTrue =>
    rw [List.mem_singleton.1 h]
    decide
  case isFalse =>
    simp only [List.map_reverse, List.mem_reverse, List.mem_map] at h
    obtain ⟨d, hd, rfl⟩ := h
    have hlt : d < 10 := Nat.digits_lt_base (by norm_num) hd
    interval_cases d <;> decide

theorem parse_digits_nat_to_string (n : Nat) : parse_digits (nat_to_string n) = some n := by
  rw [parse_digits, if_neg (nat_to_string_ne_nil n), nat_to_string]
  split
  case isTrue h => rw [h]; decide
  case isFalse h =>
    rw [foldlM_read_digit _ fun d hd => Nat.digits_lt_base (by norm_num) hd, Nat.ofDigits_digits]

/-- A printed natural number does not start with a minus sign. -/
theorem nat_to_string_head_ne (n : Nat) (rest : Bytes) : nat_to_string n ≠ 45 :: rest := by
  intro h
  have hp := parse_digits_nat_to_string n
  rw [h, parse_digits, if_neg (by simp), List.foldlM_cons] at hp
  simp [read_digit] at hp

/-- The text of an integer is read back if it is a 64-bit value, and refused otherwise. -/
theorem parse_int64_of_to_string (n : Int) :
    parse_int64 (to_string n) = if Fits n then some n else none := by
  unfold to_string
  split
  case isTrue hneg =>
    have habs : -((n.natAbs : Int)) = n := by omega
    simp only [parse_int64, parse_digits_nat_to_string, Option.bind_some, habs]
  case isFalse hpos =>
    have habs : ((n.natAbs : Int)) = n := by omega
    unfold parse_int64
    split
    case h_1 rest heq => exact absurd heq (nat_to_string_head_ne _ _)
    case h_2 => simp only [parse_digits_nat_to_string, Option.bind_some, habs]

variable {n : Int}

/-- **The text of a 64-bit integer is read back as that integer.** -/
theorem parse_int64_to_string (h : Fits n) : parse_int64 (to_string n) = some n := by
  rw [parse_int64_of_to_string, if_pos h]

/-- What `parse_int64` accepts is a 64-bit value. -/
theorem parse_int64_fits {s : Bytes} (h : parse_int64 s = some n) : Fits n := by
  unfold parse_int64 at h
  split at h <;>
  · obtain ⟨m, -, hm⟩ := Option.bind_eq_some_iff.mp h
    split at hm
    case isTrue hf => simp only [Option.some.injEq] at hm; exact hm ▸ hf
    case isFalse => simp at hm

example : parse_int64 (lit "-042") = some (-42) := by decide

example : parse_canonical_int64 (lit "007") = none := by decide

example : parse_int64 (lit "9223372036854775808") = none := by decide

end EpochKV.Text

/-
RESP2 values and their wire form (`reply.hpp`).

A reply is one value: a status line, an error line, an integer, a byte string with
its length in front, one of the two nulls, or an array of values. A status or an
error ends at the first CRLF, so it is the only kind whose content can break the
framing: `Value.WellFormed` asks that no such line, at any depth, holds CR or LF.

The writers of `reply.cpp` follow. They append to the output of a connection, and are the
source's byte for byte.

What makes a stream of replies readable is stated here once, without a reader:
`line_end` cuts a stream at its first CRLF, and a line without CR is cut where it
was written.
-/
import EpochKV.Text

set_option autoImplicit false

namespace EpochKV.Resp

open Text

/-- A reply of RESP2. -/
inductive Value where
  /-- `+line` -/
  | simple (line : Bytes)
  /-- `-line` -/
  | error (line : Bytes)
  /-- `:n` -/
  | integer (n : Int)
  /-- `$length`, then the bytes. -/
  | bulk (data : Bytes)
  /-- `$-1` -/
  | null
  /-- `*-1` -/
  | null_array
  /-- `*length`, then the values. -/
  | array (items : List Value)

def crlf : Bytes := [13, 10]

mutual
/-- The bytes of a value on the wire. -/
def Value.render : Value → Bytes
  | .simple s => 43 :: s ++ crlf
  | .error s => 45 :: s ++ crlf
  | .integer n => 58 :: to_string n ++ crlf
  | .bulk data => 36 :: to_string data.length ++ crlf ++ data ++ crlf
  | .null => lit "$-1" ++ crlf
  | .null_array => lit "*-1" ++ crlf
  | .array items => 42 :: to_string items.length ++ crlf ++ render_all items

def render_all : List Value → Bytes
  | [] => []
  | v :: vs => v.render ++ render_all vs
end

/-! ## The writers

Each writes the wire form of one value, but for `array_header`: it writes the first line of
an array only, and as many values have to follow it. -/

def error (msg : Bytes) : Bytes := 45 :: msg ++ crlf

def integer (n : Int) : Bytes := 58 :: to_string n ++ crlf

def bulk_string (s : Bytes) : Bytes := 36 :: to_string s.length ++ crlf ++ s ++ crlf

def array_header (n : Nat) : Bytes := 42 :: to_string n ++ crlf

/-- A command as an array of byte strings, which is also how it is logged. -/
def command (argv : Args) : Bytes := array_header argv.length ++ argv.flatMap bulk_string

@[simp] theorem render_all_nil : render_all [] = [] := rfl

@[simp] theorem render_all_cons (v : Value) (vs : List Value) :
    render_all (v :: vs) = v.render ++ render_all vs := rfl

/-! ## Lines -/

/-- The byte would end a line, or look as if it did. -/
def ends_line (b : UInt8) : Bool := b = 13 ∨ b = 10

/-- Nothing in the text can be taken for the end of a line. -/
def OneLine (s : Bytes) : Prop := ∀ b ∈ s, ends_line b = false

instance (s : Bytes) : Decidable (OneLine s) := List.decidableBAll (fun b => ends_line b = false) s

@[simp] theorem oneLine_cons (b : UInt8) (s : Bytes) :
    OneLine (b :: s) ↔ ends_line b = false ∧ OneLine s := by simp [OneLine]

variable {s : Bytes}

/-- Digits end no line. -/
theorem oneLine_of_digits (h : ∀ b ∈ s, 48 ≤ b ∧ b ≤ 57) : OneLine s := by
  intro b hb
  obtain ⟨hge, -⟩ := h b hb
  simp only [ends_line, decide_eq_false_iff_not, not_or]
  constructor
  · rintro rfl
    exact absurd hge (by decide)
  · rintro rfl
    exact absurd hge (by decide)

theorem oneLine_nat_to_string (n : Nat) : OneLine (nat_to_string n) :=
  oneLine_of_digits fun _ => digit_of_mem_nat_to_string

/-- The text of a number is one line. -/
@[simp] theorem oneLine_to_string (n : Int) : OneLine (to_string n) := by
  unfold to_string
  split
  case isTrue => exact (oneLine_cons _ _).mpr ⟨by decide, oneLine_nat_to_string _⟩
  case isFalse => exact oneLine_nat_to_string _

/-- A stream up to its first CRLF, and what follows. -/
def line_end : Bytes → Option (Bytes × Bytes)
  | [] => none
  | 13 :: 10 :: rest => some ([], rest)
  | b :: rest => (line_end rest).map fun r => (b :: r.1, r.2)

/-- Only a carriage return can end a line. -/
theorem line_end_cons {b : UInt8} (h : b ≠ 13) (rest : Bytes) :
    line_end (b :: rest) = (line_end rest).map fun r => (b :: r.1, r.2) := by
  rw [line_end]
  intro r hb
  simp [h] at hb

/-- A line is cut where it was written. -/
theorem line_end_line (h : OneLine s) (rest : Bytes) :
    line_end (s ++ (crlf ++ rest)) = some (s, rest) := by
  induction s with
  | nil => rfl
  | cons b s ih =>
    have hb := (oneLine_cons b s).mp h
    have hne : b ≠ 13 := by
      rintro rfl
      exact absurd hb.1 (by decide)
    rw [List.cons_append, line_end_cons hne, ih hb.2]
    rfl

/-- More bytes behind a complete line do not move its end. -/
theorem line_end_append {u : Bytes} {line rest : Bytes} (h : line_end u = some (line, rest))
    (w : Bytes) : line_end (u ++ w) = some (line, rest ++ w) := by
  induction u using line_end.induct generalizing line rest with
  | case1 => simp [line_end] at h
  | case2 r =>
    simp only [line_end, Option.some.injEq, Prod.mk.injEq] at h
    obtain ⟨rfl, rfl⟩ := h
    rfl
  | case3 b r hnot ih =>
    rw [line_end] at h
    swap
    · exact hnot
    obtain ⟨⟨l, r'⟩, hr, he⟩ := Option.map_eq_some_iff.mp h
    simp only [Prod.mk.injEq] at he
    obtain ⟨rfl, rfl⟩ := he
    have hw : line_end (b :: (r ++ w)) = (line_end (r ++ w)).map fun p => (b :: p.1, p.2) := by
      rw [line_end]
      intro t hb ht
      -- the second byte of the pair is in `r` already, since `r` holds a whole line
      cases r with
      | nil => simp [line_end] at hr
      | cons c r =>
        simp only [List.cons_append, List.cons.injEq] at ht
        exact hnot r hb (by rw [ht.1])
    rw [List.cons_append, hw, ih hr]
    rfl

/-! ## Well-formed values -/

mutual
/-- Every status and error line in the value is one line. -/
def Value.WellFormed : Value → Prop
  | .simple s | .error s => OneLine s
  | .integer _ | .bulk _ | .null | .null_array => True
  | .array items => AllWellFormed items

def AllWellFormed : List Value → Prop
  | [] => True
  | v :: vs => v.WellFormed ∧ AllWellFormed vs
end

mutual
/-- Every number written on the wire, lengths included, is a 64-bit one. -/
def Value.Sized : Value → Prop
  | .simple _ | .error _ | .null | .null_array => True
  | .integer n => Fits n
  | .bulk data => Fits data.length
  | .array items => Fits items.length ∧ AllSized items

def AllSized : List Value → Prop
  | [] => True
  | v :: vs => v.Sized ∧ AllSized vs
end

end EpochKV.Resp

/-
The client's side of a connection (`kvclient/resp.py`).

Python text is kept as its UTF-8 bytes: `bytes.decode()` is the check that the bytes
are valid and changes nothing else, and `str.encode()` fails exactly for a `str`
with a lone surrogate, which has no such bytes. What else the code takes from the
interpreter is a parameter, `Python`: the case table, `str.split()`, `int()` and
how deep calls may nest.

`read_reply` pulls bytes until it has a whole reply. Here it gets every byte that will
ever arrive: `short` is the read that would wait for more, which ends in an `OSError`
(a timeout, a reset, the end of the stream), and `raised` is any other exception,
with the bytes it left in the buffer. The result about it is `read_unfinished`: from
any part of what a server sends, one read gives the first reply, waits, or raises.
-/
import EpochKV.Resp

set_option autoImplicit false

namespace EpochKV.Kvclient

open Text Resp

/-! ## What the interpreter provides -/

structure Python where
  /-- `str.upper()` -/
  upper : Bytes → Bytes
  /-- `str.split()`, at any white space. -/
  split : Bytes → List Bytes
  /-- `int(s)`; nothing where it raises `ValueError`. -/
  int_of : Bytes → Option Int
  /-- How deep `read_reply` may call itself before `RecursionError`. -/
  frames : Nat
  frames_pos : 0 < frames
  upper_ascii : ∀ s : Bytes, (∀ b ∈ s, b < 128) → upper s = to_upper s
  int_of_decimal : ∀ n : Int, Fits n → int_of (to_string n) = some n

/-- The bytes still due in a UTF-8 sequence, as ranges, and one byte more. A surrogate,
an overlong form and a value above 10FFFF have no place in the table. -/
def utf8_next (due : List (UInt8 × UInt8)) (b : UInt8) : Option (List (UInt8 × UInt8)) :=
  match due with
  | (lo, hi) :: rest => if lo ≤ b ∧ b ≤ hi then some rest else none
  | [] =>
    if b < 0x80 then some []
    else if b < 0xC2 then none
    else if b ≤ 0xDF then some [(0x80, 0xBF)]
    else if b = 0xE0 then some [(0xA0, 0xBF), (0x80, 0xBF)]
    else if b = 0xED then some [(0x80, 0x9F), (0x80, 0xBF)]
    else if b ≤ 0xEF then some [(0x80, 0xBF), (0x80, 0xBF)]
    else if b = 0xF0 then some [(0x90, 0xBF), (0x80, 0xBF), (0x80, 0xBF)]
    else if b ≤ 0xF3 then some [(0x80, 0xBF), (0x80, 0xBF), (0x80, 0xBF)]
    else if b = 0xF4 then some [(0x80, 0x8F), (0x80, 0xBF), (0x80, 0xBF)]
    else none

/-- `bytes.decode()` does not raise. -/
def valid_utf8 (s : Bytes) : Bool := s.foldlM utf8_next [] = some []

example : valid_utf8 (lit "né") = true ∧ valid_utf8 [0xED, 0xA0, 0x80] = false := by decide

/-- An argument of a command; anything that is not `bytes` is sent as `str(a)`. -/
inductive Arg where
  | bytes (b : Bytes)
  | text (t : Bytes)
  /-- A `str` that holds a lone surrogate. -/
  | surrogate
  deriving DecidableEq

/-- `a if isinstance(a, bytes) else str(a).encode()`; nothing where it raises. -/
def Arg.encode : Arg → Option Bytes
  | .bytes b => some b
  | .text t => some t
  | .surrogate => none

/-- The command as the server gets it. -/
def encode (args : List Arg) : Option Args := args.mapM Arg.encode

/-! ## Reading -/

inductive Read (α : Type) where
  | done (a : α) (rest : Bytes)
  | short
  | raised (rest : Bytes)

namespace Read

variable {α β : Type}

def bind (r : Read α) (f : α → Bytes → Read β) : Read β :=
  match r with
  | .done a rest => f a rest
  | .short => .short
  | .raised rest => .raised rest

/-- The same outcome with more bytes behind it; a read that waits says nothing. -/
def more (w : Bytes) : Read α → Read α
  | .done a rest => .done a (rest ++ w)
  | .short => .short
  | .raised rest => .raised (rest ++ w)

end Read

def read_items (read : Bytes → Read Value) : Nat → Bytes → Read (List Value)
  | 0, buf => .done [] buf
  | n + 1, buf =>
    (read buf).bind fun v rest => (read_items read n rest).bind fun vs rest => .done (v :: vs) rest

/-- `read_reply` after its line: `nested` reads the items of an array. -/
def read_body (py : Python) (nested : Bytes → Read Value) (line rest : Bytes) : Read Value :=
  match line with
  | 43 :: s => if valid_utf8 s then .done (.simple s) rest else .raised rest
  | 45 :: s => if valid_utf8 s then .done (.error s) rest else .raised rest
  | 58 :: s =>
    match py.int_of s with
    | some n => .done (.integer n) rest
    | none => .raised rest
  | 36 :: s =>
    match py.int_of s with
    | some n =>
      if n < 0 then .done .null rest
      else if rest.length < n.toNat + 2 then .short
      else .done (.bulk (rest.take n.toNat)) (rest.drop (n.toNat + 2))
    | none => .raised rest
  | 42 :: s =>
    match py.int_of s with
    | some n =>
      if n < 0 then .done .null rest
      else (read_items nested n.toNat rest).bind fun vs rest => .done (.array vs) rest
    | none => .raised rest
  | _ => .raised rest

def read_reply (py : Python) : Nat → Bytes → Read Value
  | 0, buf => .raised buf
  | depth + 1, buf =>
    match line_end buf with
    | none => .short
    | some (line, rest) => read_body py (read_reply py depth) line rest

/-! ## More bytes do not change what was read -/

/-- What the reader found it finds again when more bytes follow. -/
def Steady {α : Type} (f : Bytes → Read α) : Prop :=
  ∀ u w, f u ≠ .short → f (u ++ w) = (f u).more w

variable {α : Type} {v : Value} {rest : Bytes}

theorem Steady.bind {β : Type} {f : Bytes → Read α} (hf : Steady f) {g : α → Bytes → Read β}
    (hg : ∀ a, Steady (g a)) : Steady fun u => (f u).bind g := by
  intro u w h
  cases hu : f u with
  | done a rest =>
    have h' := hf u w (by rw [hu]; nofun)
    simp only [hu, Read.bind, Read.more] at h h' ⊢
    rw [h']
    exact hg a rest w h
  | short => simp [hu, Read.bind] at h
  | raised rest =>
    have h' := hf u w (by rw [hu]; nofun)
    simp only [hu, Read.bind, Read.more] at h' ⊢
    rw [h']

theorem Steady.done (a : α) : Steady fun u => Read.done a u := fun _ _ _ => rfl

theorem Steady.raised : Steady fun u => (Read.raised u : Read α) := fun _ _ _ => rfl

variable {f : Bytes → Read Value}

theorem Steady.items (hf : Steady f) (n : Nat) : Steady (read_items f n) := by
  induction n with
  | zero => exact Steady.done []
  | succ n ih => exact hf.bind fun v => ih.bind fun vs => Steady.done (v :: vs)

theorem Steady.body (py : Python) (hf : Steady f) (line : Bytes) :
    Steady (read_body py f line) := by
  intro u w h
  unfold read_body at h ⊢
  split at h
  case h_1 | h_2 => split <;> rfl
  case h_3 s =>
    cases py.int_of s <;> rfl
  case h_4 s =>
    cases hs : py.int_of s with
    | none => rfl
    | some n =>
      simp only [hs] at h ⊢
      by_cases hn : n < 0
      · simp only [if_pos hn]
        rfl
      · by_cases hl : u.length < n.toNat + 2
        · simp [hn, hl] at h
        · -- the payload and its line end are there, so more bytes do not change it
          have hl' : ¬ (u ++ w).length < n.toNat + 2 := by
            rw [List.length_append]
            omega
          have ht : (u ++ w).take n.toNat = u.take n.toNat := List.take_append_of_le_length (by omega)
          have hd : (u ++ w).drop (n.toNat + 2) = u.drop (n.toNat + 2) ++ w :=
            List.drop_append_of_le_length (by omega)
          simp only [if_neg hn, if_neg hl, if_neg hl', ht, hd]
          rfl
  case h_5 s =>
    cases hs : py.int_of s with
    | none => rfl
    | some n =>
      simp only [hs] at h ⊢
      by_cases hn : n < 0
      · simp only [if_pos hn]
        rfl
      · simp only [if_neg hn] at h ⊢
        exact (hf.items n.toNat).bind (fun vs => Steady.done (Value.array vs)) u w h
  case h_6 => rfl

/-- **What `read_reply` returned or raised does not depend on how much has arrived.** -/
theorem read_reply_steady (py : Python) (depth : Nat) : Steady (read_reply py depth) := by
  induction depth with
  | zero => exact Steady.raised
  | succ depth ih =>
    intro u w h
    rw [read_reply] at h ⊢
    rw [read_reply]
    cases hu : line_end u with
    | none => simp [hu] at h
    | some p =>
      rw [line_end_append hu w]
      simp only [hu] at h ⊢
      exact Steady.body py ih p.1 p.2 w h

/-! ## Reading what a server wrote -/

mutual
/-- The value as Python holds it: both nulls are `None`. -/
def seen : Value → Value
  | .null_array => .null
  | .array items => .array (seen_all items)
  | .simple s => .simple s
  | .error s => .error s
  | .integer n => .integer n
  | .bulk data => .bulk data
  | .null => .null

def seen_all : List Value → List Value
  | [] => []
  | v :: vs => seen v :: seen_all vs
end

mutual
/-- `read_reply` can turn the value into a Python object: the texts decode and the
arrays nest no deeper than the calls may. -/
def Readable : Nat → Value → Prop
  | 0, _ => False
  | _ + 1, .simple s => valid_utf8 s = true
  | _ + 1, .error s => valid_utf8 s = true
  | depth + 1, .array items => AllReadable depth items
  | _ + 1, .integer _ => True
  | _ + 1, .bulk _ => True
  | _ + 1, .null => True
  | _ + 1, .null_array => True

def AllReadable : Nat → List Value → Prop
  | _, [] => True
  | depth, v :: vs => Readable depth v ∧ AllReadable depth vs
end

/-- What a read of `v`, followed by `rest`, comes to. -/
def Reads (py : Python) (depth : Nat) (v : Value) (rest : Bytes) : Prop :=
  (Readable depth v ∧ read_reply py depth (v.render ++ rest) = .done (seen v) rest) ∨
    (¬ Readable depth v ∧ ∃ left, read_reply py depth (v.render ++ rest) = .raised left)

/-- The items of an array, read one after the other. -/
def ReadsAll (py : Python) (depth : Nat) (vs : List Value) (rest : Bytes) : Prop :=
  (AllReadable depth vs ∧
      read_items (read_reply py depth) vs.length (render_all vs ++ rest) = .done (seen_all vs) rest) ∨
    (¬ AllReadable depth vs ∧
      ∃ left, read_items (read_reply py depth) vs.length (render_all vs ++ rest) = .raised left)

theorem read_line (py : Python) (depth : Nat) {line : Bytes} (h : OneLine line) (rest : Bytes) :
    read_reply py (depth + 1) (line ++ (crlf ++ rest)) = read_body py (read_reply py depth) line rest := by
  rw [read_reply, line_end_line h]

theorem int_of_length (py : Python) {n : Nat} (h : Fits n) : py.int_of (to_string n) = some (n : Int) :=
  py.int_of_decimal n h

theorem Reads.of_done {py : Python} {depth : Nat} (hr : Readable depth v)
    (h : read_reply py depth (v.render ++ rest) = .done (seen v) rest) : Reads py depth v rest :=
  Or.inl ⟨hr, h⟩

/-- A status or error line decodes or raises. -/
theorem reads_text (py : Python) (depth : Nat) {c : UInt8} {s : Bytes} (hc : ends_line c = false)
    (hs : OneLine s) (rest : Bytes) (hrender : v.render = c :: s ++ crlf) (hseen : seen v = v)
    (hread : Readable (depth + 1) v ↔ valid_utf8 s = true)
    (hbody : read_body py (read_reply py depth) (c :: s) rest =
      if valid_utf8 s then .done v rest else .raised rest) : Reads py (depth + 1) v rest := by
  have hl := read_line py depth ((oneLine_cons c s).mpr ⟨hc, hs⟩) rest
  rw [hbody] at hl
  have he : v.render ++ rest = c :: s ++ (crlf ++ rest) := by rw [hrender, List.append_assoc]
  unfold Reads
  rw [he, hl, hread, hseen]
  by_cases hv : valid_utf8 s = true
  · exact Or.inl ⟨hv, by rw [if_pos hv]⟩
  · exact Or.inr ⟨hv, rest, by rw [if_neg hv]⟩

mutual
/-- **One read of a server's reply**: the reply itself and nothing of what follows, or
an exception if there is text in it that Python cannot hold. -/
theorem reads_value (py : Python) : ∀ (v : Value) (depth : Nat) (rest : Bytes),
    v.WellFormed → v.Sized → Reads py depth v rest
  | v, 0, rest, _, _ => by
    -- no frame is left for the value
    refine Or.inr ⟨?_, v.render ++ rest, rfl⟩
    cases v <;> simp [Readable]
  | .simple s, depth + 1, rest, hw, _ =>
    reads_text py depth (by decide) hw rest rfl rfl (by simp [Readable]) rfl
  | .error s, depth + 1, rest, hw, _ =>
    reads_text py depth (by decide) hw rest rfl rfl (by simp [Readable]) rfl
  | .integer n, depth + 1, rest, _, hz => by
    apply Reads.of_done (by simp [Readable])
    have hl : OneLine (58 :: to_string n) := (oneLine_cons _ _).mpr ⟨by decide, oneLine_to_string n⟩
    rw [show (Value.integer n).render ++ rest = 58 :: to_string n ++ (crlf ++ rest) by
      simp [Value.render], read_line py depth hl]
    simp [read_body, py.int_of_decimal n hz, seen]
  | .bulk data, depth + 1, rest, _, hz => by
    apply Reads.of_done (by simp [Readable])
    have hl : OneLine (36 :: to_string data.length) :=
      (oneLine_cons _ _).mpr ⟨by decide, oneLine_to_string _⟩
    rw [show (Value.bulk data).render ++ rest =
        36 :: to_string data.length ++ (crlf ++ (data ++ (crlf ++ rest))) by simp [Value.render],
      read_line py depth hl]
    have hn : ¬ ((data.length : Int) < 0) := by omega
    have hlen : ¬ (data ++ (crlf ++ rest)).length < data.length + 2 := by
      simp [crlf]
    simp only [read_body, int_of_length py hz, if_neg hn, Int.toNat_natCast, if_neg hlen, seen]
    simp [crlf]
  | .null, depth + 1, rest, _, _ => by
    apply Reads.of_done (by simp [Readable])
    have hint := py.int_of_decimal (-1) (by decide)
    have hl : OneLine (36 :: to_string (-1)) := by decide
    rw [show Value.null.render ++ rest = 36 :: to_string (-1) ++ (crlf ++ rest) by rfl,
      read_line py depth hl]
    simp [read_body, hint, seen]
  | .null_array, depth + 1, rest, _, _ => by
    apply Reads.of_done (by simp [Readable])
    have hint := py.int_of_decimal (-1) (by decide)
    have hl : OneLine (42 :: to_string (-1)) := by decide
    rw [show Value.null_array.render ++ rest = 42 :: to_string (-1) ++ (crlf ++ rest) by rfl,
      read_line py depth hl]
    simp [read_body, hint, seen]
  | .array items, depth + 1, rest, hw, hz => by
    have hl : OneLine (42 :: to_string items.length) :=
      (oneLine_cons _ _).mpr ⟨by decide, oneLine_to_string _⟩
    have hn : ¬ ((items.length : Int) < 0) := by omega
    have hread : read_reply py (depth + 1) ((Value.array items).render ++ rest) =
        (read_items (read_reply py depth) items.length (render_all items ++ rest)).bind
          fun vs rest => .done (.array vs) rest := by
      rw [show (Value.array items).render ++ rest =
          42 :: to_string items.length ++ (crlf ++ (render_all items ++ rest)) by simp [Value.render],
        read_line py depth hl]
      simp only [read_body, int_of_length py hz.1, if_neg hn, Int.toNat_natCast]
    unfold Reads
    rw [hread]
    rcases reads_items py items depth rest hw hz.2 with ⟨hr, h⟩ | ⟨hr, left, h⟩
    · exact Or.inl ⟨by simpa [Readable] using hr, by rw [h]; simp [Read.bind, seen]⟩
    · exact Or.inr ⟨by simpa [Readable] using hr, left, by rw [h]; rfl⟩

theorem reads_items (py : Python) : ∀ (vs : List Value) (depth : Nat) (rest : Bytes),
    AllWellFormed vs → AllSized vs → ReadsAll py depth vs rest
  | [], depth, rest, _, _ => Or.inl ⟨by simp [AllReadable], by simp [read_items, seen_all]⟩
  | v :: vs, depth, rest, hw, hz => by
    have hv := reads_value py v depth (render_all vs ++ rest) hw.1 hz.1
    have hvs := reads_items py vs depth rest hw.2 hz.2
    unfold ReadsAll
    simp only [render_all_cons, List.length_cons, read_items, AllReadable, seen_all, List.append_assoc]
    rcases hv with ⟨hr, h⟩ | ⟨hr, left, h⟩
    · rcases hvs with ⟨hrs, hs⟩ | ⟨hrs, left, hs⟩
      · exact Or.inl ⟨⟨hr, hrs⟩, by simp [h, hs, Read.bind]⟩
      · exact Or.inr ⟨fun hb => hrs hb.2, left, by simp [h, hs, Read.bind]⟩
    · exact Or.inr ⟨fun hb => hr hb.1, left, by simp [h, Read.bind]⟩
end

/-- **A read from any part of what is still to come**: the first reply, a wait, or an
exception. The part is what arrives before the connection fails. -/
theorem read_unfinished (py : Python) (depth : Nat) (hw : v.WellFormed) (hz : v.Sized) {u : Bytes}
    (hu : u <+: v.render ++ rest) :
    read_reply py depth u = .short ∨
      (¬ Readable depth v ∧ ∃ left, read_reply py depth u = .raised left) ∨
      ∃ left, left <+: rest ∧ u = v.render ++ left ∧ read_reply py depth u = .done (seen v) left := by
  obtain ⟨w, hw'⟩ := hu
  by_cases hs : read_reply py depth u = .short
  · exact Or.inl hs
  · have hmore := read_reply_steady py depth u w hs
    rw [hw'] at hmore
    rcases reads_value py v depth rest hw hz with ⟨hr, h⟩ | ⟨hr, left, h⟩
    · rw [h] at hmore
      cases hread : read_reply py depth u with
      | short => exact absurd hread hs
      | raised left => simp [hread, Read.more] at hmore
      | done v' left =>
        simp only [hread, Read.more, Read.done.injEq] at hmore
        obtain ⟨rfl, rfl⟩ := hmore
        refine Or.inr (Or.inr ⟨left, ⟨w, rfl⟩, ?_, rfl⟩)
        rw [← List.append_assoc] at hw'
        exact List.append_cancel_right hw'
    · rw [h] at hmore
      cases hread : read_reply py depth u with
      | short => exact absurd hread hs
      | raised left' => exact Or.inr (Or.inl ⟨hr, left', rfl⟩)
      | done v' left' => simp [hread, Read.more] at hmore

end EpochKV.Kvclient

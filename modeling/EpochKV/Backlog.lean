/-
The replication backlog (`repl_backlog.cpp`): the last bytes of the stream in a circular
buffer, each known by its offset from the start of the stream.

Offsets are 64-bit numbers that wrap around, as in the source, and so are the comparisons of
`contains`; a range of offsets that wraps contains nothing. The buffer itself is read
rotated to the write position (`Circular`). `Holds` is what the rest of the server may use:
the buffer holds the end of a given stream, as much of it as there is room for, and
`copy_from` gives that end from any offset it contains.
-/
import EpochKV.Circular
import EpochKV.Text

set_option autoImplicit false

namespace EpochKV

open Text Circular

/-- `ReplBacklog`. -/
structure Backlog where
  buf : Bytes
  /-- Where the next byte goes. -/
  write_pos : Nat
  /-- Valid bytes. -/
  histlen : Nat
  offset : UInt64
  inside : write_pos < buf.length
  held : histlen ≤ buf.length

variable {b : Backlog} {start base : UInt64} {s : Bytes} {p : UInt64 × Bytes}

namespace Backlog

/-- The constructor makes room for one byte at least. -/
def of_capacity (capacity : Nat) : Backlog where
  buf := List.replicate (max capacity 1) 0
  write_pos := 0
  histlen := 0
  offset := 0
  inside := by
    rw [List.length_replicate]
    omega
  held := Nat.zero_le _

def capacity (b : Backlog) : Nat := b.buf.length

def start_offset (b : Backlog) : UInt64 := b.offset - UInt64.ofNat b.histlen

def contains (b : Backlog) (start : UInt64) : Bool := b.start_offset ≤ start ∧ start ≤ b.offset

theorem contains_iff :
    b.contains start = true ↔ b.offset - UInt64.ofNat b.histlen ≤ start ∧ start ≤ b.offset := by
  rw [contains, start_offset]
  exact decide_eq_true_iff

/-! ## Writing -/

/-- What of `data` fits before the end of the buffer. -/
def piece (b : Backlog) (data : Bytes) : Bytes := data.take (b.capacity - b.write_pos)

theorem length_piece (b : Backlog) (data : Bytes) :
    (b.piece data).length = min data.length (b.capacity - b.write_pos) := by
  rw [piece, List.length_take, min_comm]

theorem write_pos_add_piece (b : Backlog) (data : Bytes) :
    b.write_pos + (b.piece data).length ≤ b.buf.length := by
  have hpos := b.inside
  rw [length_piece, capacity]
  omega

/-- A turn of the loop of `append`. -/
def write_piece (b : Backlog) (data : Bytes) : Backlog where
  buf := overwrite b.buf b.write_pos (b.piece data)
  write_pos := (b.write_pos + (b.piece data).length) % b.capacity
  histlen := min (b.histlen + (b.piece data).length) b.capacity
  offset := b.offset
  inside := by
    rw [length_overwrite (b.write_pos_add_piece data)]
    apply Nat.mod_lt
    exact Nat.zero_lt_of_lt b.inside
  held := by
    rw [length_overwrite (b.write_pos_add_piece data)]
    exact Nat.min_le_right _ _

/-- The loop of `append`; every turn takes a byte at least. -/
def append_loop : Nat → Bytes → Backlog → Backlog
  | 0, _, b => b
  | fuel + 1, data, b =>
    if data = [] then b
    else append_loop fuel (data.drop (b.piece data).length) (b.write_piece data)

def append (b : Backlog) (data : Bytes) : Backlog :=
  -- only the last `capacity` bytes can survive
  let kept := data.drop (data.length - b.capacity)
  append_loop kept.length kept { b with offset := b.offset + UInt64.ofNat data.length }

/-- The buffer is empty and the count goes on at `offset`. -/
def reset (b : Backlog) (offset : UInt64) : Backlog where
  buf := b.buf
  write_pos := 0
  histlen := 0
  offset := offset
  inside := Nat.zero_lt_of_lt b.inside
  held := Nat.zero_le _

/-! ## Reading -/

/-- The bytes from offset `start` on, after `out`. The newest byte is just before
`write_pos`. -/
def copy_from (b : Backlog) (start : UInt64) (out : Bytes) : Bytes :=
  let len := (b.offset - start).toNat
  copy_loop b.buf len len ((b.write_pos + b.buf.length - len) % b.buf.length) out

/-! ## The buffer as a queue -/

/-- The buffer from the write position around to it: the oldest byte comes first. -/
def ring (b : Backlog) : Bytes := b.buf.rotate b.write_pos

/-- The valid bytes. -/
def window (b : Backlog) : Bytes := b.ring.drop (b.capacity - b.histlen)

theorem length_ring (b : Backlog) : b.ring.length = b.capacity := List.length_rotate _ _

theorem capacity_write_piece (b : Backlog) (data : Bytes) :
    (b.write_piece data).capacity = b.capacity :=
  length_overwrite (b.write_pos_add_piece data)

theorem ring_write_piece (b : Backlog) (data : Bytes) :
    (b.write_piece data).ring = (b.ring ++ b.piece data).drop (b.piece data).length := by
  have hfit := b.write_pos_add_piece data
  have hmod : (b.write_piece data).ring
      = (overwrite b.buf b.write_pos (b.piece data)).rotate
          (b.write_pos + (b.piece data).length) := by
    rw [← List.rotate_mod, length_overwrite hfit]
    rfl
  rw [hmod, rotate_overwrite hfit]
  rfl

/-- A turn takes a byte at least, and what it leaves follows what it took. -/
theorem piece_spec (b : Backlog) {data : Bytes} (h : data ≠ []) :
    0 < (b.piece data).length ∧ (b.piece data).length ≤ data.length
      ∧ b.piece data ++ data.drop (b.piece data).length = data := by
  have hpos := b.inside
  have hdata := List.length_pos_iff.mpr h
  have hlen := b.length_piece data
  rw [capacity] at hlen
  refine ⟨by omega, by omega, ?_⟩
  rw [b.length_piece, piece]
  rcases Nat.le_total data.length (b.capacity - b.write_pos) with hle | hle
  · rw [min_eq_left hle, List.take_of_length_le hle, List.drop_length, List.append_nil]
  · rw [min_eq_right hle, List.take_append_drop]

/-- The whole loop, for data that fits into the buffer. -/
theorem append_loop_spec (fuel : Nat) (data : Bytes) (hfuel : data.length ≤ fuel)
    (hfit : data.length ≤ b.capacity) :
    (append_loop fuel data b).ring = (b.ring ++ data).drop data.length ∧
      (append_loop fuel data b).histlen = min (b.histlen + data.length) b.capacity ∧
      (append_loop fuel data b).offset = b.offset ∧
      (append_loop fuel data b).capacity = b.capacity := by
  -- nothing to write
  have hnone : b.ring = (b.ring ++ []).drop 0 ∧ b.histlen = min (b.histlen + 0) b.capacity ∧
      b.offset = b.offset ∧ b.capacity = b.capacity :=
    ⟨by simp, (Nat.min_eq_left b.held).symm, rfl, rfl⟩
  induction fuel generalizing data b with
  | zero =>
    obtain rfl := List.eq_nil_of_length_eq_zero (Nat.le_zero.mp hfuel)
    exact hnone
  | succ fuel ih =>
    rw [append_loop]
    by_cases hnil : data = []
    · subst hnil
      rw [if_pos rfl]
      exact hnone
    rw [if_neg hnil]
    obtain ⟨hone, hle, hsplit⟩ := b.piece_spec hnil
    obtain ⟨hring, hhist, hoff, hcap⟩ := ih (data.drop (b.piece data).length)
      (b := b.write_piece data) (by rw [List.length_drop]; omega)
      (by rw [List.length_drop, capacity_write_piece]; omega)
      ⟨by simp, (Nat.min_eq_left (b.write_piece data).held).symm, rfl, rfl⟩
    refine ⟨?_, ?_, hoff, hcap.trans (b.capacity_write_piece data)⟩
    · have hlong : (b.piece data).length ≤ (b.ring ++ b.piece data).length := by
        rw [List.length_append]
        omega
      have hsum : (b.piece data).length + (data.length - (b.piece data).length) = data.length := by
        omega
      rw [hring, ring_write_piece, List.length_drop, ← List.drop_append_of_le_length hlong,
        List.append_assoc, hsplit, List.drop_drop, hsum]
    · rw [hhist, capacity_write_piece, List.length_drop]
      show min (min (b.histlen + (b.piece data).length) b.capacity
        + (data.length - (b.piece data).length)) b.capacity = _
      omega

/-! ## What the buffer is for -/

/-- The buffer holds the end of the stream `s`, whose first byte has offset `base`: as
much of it as there is room for. -/
structure Holds (b : Backlog) (base : UInt64) (s : Bytes) : Prop where
  offset : b.offset = base + UInt64.ofNat s.length
  histlen : b.histlen = min b.capacity s.length
  window : b.window = s.drop (s.length - b.histlen)

/-- A buffer with no valid bytes. -/
theorem holds_nil (h : b.histlen = 0) : b.Holds b.offset [] where
  offset := by simp
  histlen := by simp [h]
  window := by
    rw [List.drop_nil, window, h]
    apply List.drop_eq_nil_of_le
    rw [length_ring, Nat.sub_zero]

/-- **Writing** extends the stream. -/
theorem Holds.append (h : b.Holds base s) (data : Bytes) :
    (b.append data).Holds base (s ++ data) ∧ (b.append data).capacity = b.capacity := by
  have hheld : b.histlen ≤ b.capacity := b.held
  have hhist := h.histlen
  set kept := data.drop (data.length - b.capacity) with hkept
  have hlen : kept.length = min data.length b.capacity := by
    rw [hkept, List.length_drop]
    omega
  obtain ⟨hring, hhist', hoff', hcap'⟩ := append_loop_spec kept.length kept
    (b := { b with offset := b.offset + UInt64.ofNat data.length }) le_rfl
    (by rw [hlen]; exact min_le_right _ _)
  have hring : (b.append data).ring = (b.ring ++ kept).drop kept.length := hring
  have hhist' : (b.append data).histlen = min (b.histlen + kept.length) b.capacity := hhist'
  have hoff' : (b.append data).offset = b.offset + UInt64.ofNat data.length := hoff'
  have hcap' : (b.append data).capacity = b.capacity := hcap'
  have hnew : (b.append data).histlen = min b.capacity (s ++ data).length := by
    rw [hhist', hlen, List.length_append]
    omega
  refine ⟨⟨?_, hcap'.symm ▸ hnew, ?_⟩, hcap'⟩
  · rw [hoff', h.offset, List.length_append, UInt64.ofNat_add, UInt64.add_assoc]
  rw [Backlog.window, hring, hcap', List.drop_drop, List.length_append]
  rcases Nat.lt_or_ge b.capacity data.length with hlong | hshort
  · -- nothing of the old bytes is left
    have hfull : (b.append data).histlen = b.capacity := by
      rw [hnew, List.length_append]
      omega
    have hk : kept.length = b.capacity := by omega
    have hskip : s.length + data.length - b.capacity = s.length + (data.length - b.capacity) := by
      omega
    rw [hfull, Nat.sub_self, Nat.add_zero, hk, List.drop_left' b.length_ring, hskip,
      List.drop_append, List.drop_eq_nil_of_le (Nat.le_add_right _ _), List.nil_append,
      Nat.add_sub_cancel_left]
  · -- all of the data is kept
    have hk : kept = data := by
      rw [hkept, Nat.sub_eq_zero_of_le hshort, List.drop_zero]
    rw [hk] at hhist' ⊢
    have hsplit : data.length + (b.capacity - (b.append data).histlen)
        = (b.capacity - b.histlen) + (b.histlen + data.length - (b.append data).histlen) := by
      omega
    have hskip : s.length - b.histlen + (b.histlen + data.length - (b.append data).histlen)
        = s.length + data.length - (b.append data).histlen := by
      omega
    have hold : (b.ring ++ data).drop (b.capacity - b.histlen)
        = (s ++ data).drop (s.length - b.histlen) := by
      rw [List.drop_append_of_le_length (by rw [length_ring]; omega),
        List.drop_append_of_le_length (by omega), ← h.window, Backlog.window]
    rw [hsplit, ← List.drop_drop, hold, List.drop_drop, hskip]

/-- An offset that is contained is so many bytes back as the buffer has. -/
theorem back_le_histlen (h : b.contains start = true) : (b.offset - start).toNat ≤ b.histlen := by
  obtain ⟨hfirst, hlast⟩ := contains_iff.mp h
  rw [UInt64.le_iff_toNat_le] at hfirst hlast
  have hlt := b.offset.toNat_lt
  rw [UInt64.toNat_sub, UInt64.toNat_ofNat'] at hfirst
  rw [UInt64.toNat_sub]
  omega

/-- **Reading** gives the end of the stream from the offset on. -/
theorem Holds.copy_from (h : b.Holds base s) (hin : b.contains start = true) (out : Bytes) :
    b.copy_from start out = out ++ s.drop (s.length - (b.offset - start).toNat) := by
  have hheld : b.histlen ≤ b.buf.length := b.held
  have hback := back_le_histlen hin
  have hhist := h.histlen
  set len := (b.offset - start).toNat with hlen
  have hpos : 0 < b.buf.length := Nat.zero_lt_of_lt b.inside
  show copy_loop b.buf len len ((b.write_pos + b.buf.length - len) % b.buf.length) out = _
  rw [copy_loop_eq le_rfl (by omega) (Nat.mod_lt _ hpos), List.rotate_mod,
    take_rotate_back (by omega)]
  -- the end of the ring is the end of the window, and that is the end of the stream
  have hring : b.ring.drop (b.buf.length - len) = b.window.drop (b.histlen - len) := by
    rw [Backlog.window, List.drop_drop, capacity]
    congr 1
    omega
  show out ++ b.ring.drop (b.buf.length - len) = _
  rw [hring, h.window, List.drop_drop]
  congr 2
  omega

/-! ## Whole histories -/

inductive Op where
  | append (data : Bytes)
  | reset (offset : UInt64)

def step (b : Backlog) : Op → Backlog
  | .append data => b.append data
  | .reset offset => b.reset offset

/-- Where the count began, and what was appended since. -/
def since : UInt64 × Bytes → Op → UInt64 × Bytes
  | (base, s), .append data => (base, s ++ data)
  | _, .reset offset => (offset, [])

theorem holds_step (h : b.Holds p.1 p.2) (op : Op) :
    (b.step op).Holds (since p op).1 (since p op).2 ∧ (b.step op).capacity = b.capacity := by
  cases op with
  | append data => exact h.append data
  | reset offset => exact ⟨holds_nil (b := b.reset offset) rfl, rfl⟩

theorem holds_run (h : b.Holds p.1 p.2) (ops : List Op) :
    (ops.foldl step b).Holds (ops.foldl since p).1 (ops.foldl since p).2
      ∧ (ops.foldl step b).capacity = b.capacity := by
  induction ops generalizing b p with
  | nil => exact ⟨h, rfl⟩
  | cons op ops ih =>
    obtain ⟨hstep, hcap⟩ := holds_step h op
    obtain ⟨hrun, hcaps⟩ := ih hstep
    exact ⟨hrun, hcaps.trans hcap⟩

/-- **The backlog holds the end of the stream.** After any appends and resets, of any
lengths: the offset is the base of the last reset and what was appended since; the offsets
contained are the last ones, as many as fit and were appended; and from each of them on
`copy_from` gives the bytes appended last. The arithmetic is that of `uint64_t`; as long as
the offset has not gone past its end, it is that of the natural numbers. -/
theorem backlog_holds_newest (capacity : Nat) (ops : List Op) :
    let b := ops.foldl step (of_capacity capacity)
    let base := (ops.foldl since (0, [])).1
    let s := (ops.foldl since (0, [])).2
    b.capacity = max capacity 1
      ∧ b.offset = base + UInt64.ofNat s.length
      ∧ (∀ start, b.contains start = true ↔
          b.offset - UInt64.ofNat (min b.capacity s.length) ≤ start ∧ start ≤ b.offset)
      ∧ (∀ start, b.contains start = true → (b.offset - start).toNat ≤ s.length ∧
          ∀ out, b.copy_from start out = out ++ s.drop (s.length - (b.offset - start).toNat))
      ∧ (base.toNat + s.length < 2 ^ 64 → b.offset.toNat = base.toNat + s.length ∧
          ∀ start, b.contains start = true ↔
            base.toNat + s.length - min b.capacity s.length ≤ start.toNat
              ∧ start.toNat ≤ base.toNat + s.length) := by
  intro b base s
  obtain ⟨hholds, hcap⟩ := holds_run (p := (0, [])) (holds_nil (b := of_capacity capacity) rfl) ops
  have hcontains : ∀ start, b.contains start = true ↔
      b.offset - UInt64.ofNat (min b.capacity s.length) ≤ start ∧ start ≤ b.offset := by
    intro start
    rw [contains_iff, hholds.histlen]
  refine ⟨hcap.trans (List.length_replicate ..), hholds.offset, hcontains, ?_, ?_⟩
  · intro start hin
    have hback := back_le_histlen hin
    have hhist : b.histlen = min b.capacity s.length := hholds.histlen
    exact ⟨by omega, hholds.copy_from hin⟩
  · -- without a wrap the offsets are numbers
    intro hfits
    have hoff : b.offset.toNat = base.toNat + s.length := by
      have hoffset : b.offset = base + UInt64.ofNat s.length := hholds.offset
      rw [hoffset, UInt64.toNat_add, UInt64.toNat_ofNat']
      omega
    refine ⟨hoff, fun start => ?_⟩
    rw [hcontains, UInt64.le_iff_toNat_le, UInt64.le_iff_toNat_le, UInt64.toNat_sub,
      UInt64.toNat_ofNat', hoff]
    omega

/-- Seven bytes through a buffer of four. -/
theorem backlog_holds_newest_around :
    let b := [Op.append (lit "abcde"), .append (lit "fg")].foldl step (of_capacity 4)
    b.offset.toNat = 7 ∧ b.contains 3 = true ∧ b.copy_from 3 (lit "+") = lit "+defg" := by
  obtain ⟨-, -, -, hcopy, hnat⟩ :=
    backlog_holds_newest 4 [Op.append (lit "abcde"), .append (lit "fg")]
  obtain ⟨hoff, hcontains⟩ := hnat (by decide +kernel)
  have hin := (hcontains 3).mpr (by decide +kernel)
  refine ⟨hoff.trans (by decide +kernel), hin, ?_⟩
  exact ((hcopy 3 hin).2 (lit "+")).trans (by decide +kernel)

end Backlog

end EpochKV

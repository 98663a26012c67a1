/-
A list read and written around its end.

A circular buffer of fixed size is awkward only because of its end: writes and reads that
reach it go on at the front. Rotated to the write position (`List.rotate`) the buffer is a
queue, oldest element first: writing `piece` drops as many elements in front as it adds
behind (`rotate_overwrite`), and the newest `len` elements are a `drop` of the rotation
(`take_rotate_back`). The loop that reads them in stretches is `copy_loop`.
-/
import Mathlib.Data.List.Rotate

set_option autoImplicit false

namespace EpochKV.Circular

variable {α : Type}

/-- `piece` in place of as many elements from `pos` on. -/
def overwrite (buf : List α) (pos : Nat) (piece : List α) : List α :=
  buf.take pos ++ piece ++ buf.drop (pos + piece.length)

variable {buf : List α} {pos : Nat} {piece : List α} {len fuel : Nat}

theorem length_overwrite (h : pos + piece.length ≤ buf.length) :
    (overwrite buf pos piece).length = buf.length := by
  simp only [overwrite, List.length_append, List.length_take, List.length_drop]
  omega

/-- Writing a piece is adding it at the end of the queue and dropping as much in front. -/
theorem rotate_overwrite (h : pos + piece.length ≤ buf.length) :
    (overwrite buf pos piece).rotate (pos + piece.length)
      = (buf.rotate pos ++ piece).drop piece.length := by
  have hpos : pos ≤ buf.length := by omega
  have hhead : (buf.take pos ++ piece).length = pos + piece.length := by
    rw [List.length_append, List.length_take_of_le hpos]
  have hdrop : piece.length ≤ (buf.drop pos).length := by
    rw [List.length_drop]
    omega
  rw [List.rotate_eq_drop_append_take (by rw [length_overwrite h]; exact h),
    List.rotate_eq_drop_append_take hpos, overwrite, List.drop_left' hhead, List.take_left' hhead,
    List.append_assoc, List.drop_append_of_le_length hdrop, List.drop_drop]

/-- The `len` elements before `pos`, around the front: the end of the queue. -/
theorem take_rotate_back (h : len ≤ buf.length) :
    (buf.rotate (pos + buf.length - len)).take len
      = (buf.rotate pos).drop (buf.length - len) := by
  have hback : pos + buf.length - len = pos + (buf.length - len) := by omega
  have hrest : buf.length - len ≤ (buf.rotate pos).length := by
    rw [List.length_rotate]
    omega
  rw [hback, ← List.rotate_rotate, List.rotate_eq_drop_append_take hrest]
  apply List.take_left'
  rw [List.length_drop, List.length_rotate]
  omega

/-- `len` elements from `pos` on, in stretches that end at the end of the buffer, behind
`out`. -/
def copy_loop (buf : List α) : Nat → Nat → Nat → List α → List α
  | 0, _, _, out => out
  | fuel + 1, len, pos, out =>
    if len = 0 then out
    else
      let n := min len (buf.length - pos)
      copy_loop buf fuel (len - n) ((pos + n) % buf.length) (out ++ (buf.drop pos).take n)

/-- A stretch that ends before the end of the buffer takes one turn. -/
theorem copy_loop_stretch (hfuel : len ≤ fuel) (hlen : len ≤ buf.length - pos) (out : List α) :
    copy_loop buf fuel len pos out = out ++ (buf.drop pos).take len := by
  match fuel, len with
  | 0, 0 => simp [copy_loop]
  | fuel + 1, 0 => simp [copy_loop]
  | fuel + 1, len + 1 =>
    rw [copy_loop, if_neg (by omega)]
    dsimp only
    rw [Nat.min_eq_left hlen, Nat.sub_self]
    cases fuel <;> simp [copy_loop]

/-- The whole loop: at most one stretch up to the end, and one from the front. -/
theorem copy_loop_eq (hfuel : len ≤ fuel) (hlen : len ≤ buf.length) (hpos : pos < buf.length)
    (out : List α) : copy_loop buf fuel len pos out = out ++ (buf.rotate pos).take len := by
  have htail : (buf.drop pos).length = buf.length - pos := List.length_drop
  rw [List.rotate_eq_drop_append_take (le_of_lt hpos)]
  rcases Nat.le_total len (buf.length - pos) with hle | hge
  · rw [copy_loop_stretch hfuel hle, List.take_append_of_le_length (htail ▸ hle)]
  · obtain ⟨fuel, rfl⟩ : ∃ n, fuel = n + 1 := ⟨fuel - 1, by omega⟩
    have hwrap : (pos + (buf.length - pos)) % buf.length = 0 := by
      rw [Nat.add_sub_cancel' (le_of_lt hpos), Nat.mod_self]
    have hrest : len - (buf.length - pos) ≤ pos := by omega
    have hall : (buf.drop pos).take (buf.length - pos) = buf.drop pos := by
      rw [← htail, List.take_length]
    have hfirst : (buf.drop pos).take len = buf.drop pos :=
      List.take_of_length_le (htail ▸ hge)
    rw [copy_loop, if_neg (by omega)]
    dsimp only
    rw [Nat.min_eq_right hge, hwrap, copy_loop_stretch (by omega) (by omega), List.drop_zero, hall,
      List.append_assoc, List.take_append, hfirst, htail, List.take_take, Nat.min_eq_left hrest]

end EpochKV.Circular

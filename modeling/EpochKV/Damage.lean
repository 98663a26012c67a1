/-
A damaged snapshot is refused.

Three kinds of damage are looked at: a file cut short, a file with something behind it, and
up to four bytes in a row changed anywhere. A changed length or type byte makes the loader
see other records, so nothing can be said about what it reads on the way. It does not matter:
a load that succeeds has used up the whole file and found its checksum at the end
(`accepted_spec`), and of two files of one length with that property neither is the other
with four bytes changed. The other two kinds rest on the loader never looking further than
it has to: what it reads of a file it reads of every longer one (`load_loop_append`).
-/
import EpochKV.Checksum
import EpochKV.SnapshotIo

set_option autoImplicit false

namespace EpochKV.Snapshot

open Text Codec

/-! ## Bytes behind what is read -/

variable {b rest : Bytes} {v n : Nat} {now : Int} {bytes : Bytes}

theorem varint_loop_append {fuel i : Nat} (h : varint_loop fuel i v b = some (n, rest))
    (more : Bytes) : varint_loop fuel i v (b ++ more) = some (n, rest ++ more) := by
  fun_induction varint_loop fuel i v b
  case case1 | case2 => simp at h
  case case3 hlast =>
    simp only [Option.some.injEq, Prod.mk.injEq] at h
    obtain ⟨rfl, rfl⟩ := h
    rw [List.cons_append, varint_loop, if_pos hlast]
  case case4 hlast ih =>
    rw [List.cons_append, varint_loop, if_neg hlast]
    exact ih h

theorem get_string_append {x : Bytes} (h : get_string b = some (x, rest)) (more : Bytes) :
    get_string (b ++ more) = some (x, rest ++ more) := by
  unfold get_string at h ⊢
  cases hv : get_varint b with
  | none => simp [hv] at h
  | some p =>
    obtain ⟨len, tail⟩ := p
    rw [show get_varint (b ++ more) = some (len, tail ++ more) from varint_loop_append hv more]
    simp only [hv] at h ⊢
    split at h
    · simp at h
    next hlong =>
    simp only [Option.some.injEq, Prod.mk.injEq] at h
    obtain ⟨rfl, rfl⟩ := h
    have hle : len ≤ tail.length := by omega
    rw [if_neg (by rw [List.length_append]; omega), List.take_append_of_le_length hle,
      List.drop_append_of_le_length hle]

theorem get_fixed_append (h : get_fixed b n = some (v, rest)) (more : Bytes) :
    get_fixed (b ++ more) n = some (v, rest ++ more) := by
  rw [get_fixed, Option.ite_none_left_eq_some, Option.some.injEq, Prod.mk.injEq] at h
  obtain ⟨hlong, rfl, rfl⟩ := h
  have hle : n ≤ b.length := by omega
  rw [get_fixed, if_neg (by rw [List.length_append]; omega), List.take_append_of_le_length hle,
    List.drop_append_of_le_length hle]

/-- The same outcome with more bytes behind it. -/
def Parsed.later (more : Bytes) : Parsed → Parsed
  | .eof rest => .eof (rest ++ more)
  | .record r rest => .record r (rest ++ more)
  | .bad why => .bad why

/-- The outcome is not that the bytes are too few, or wrong. -/
def Parsed.good : Parsed → Bool
  | .bad _ => false
  | _ => true

theorem get_entry_append {op : UInt8} {expire_ms : Int} (h : (get_entry op expire_ms b).good = true)
    (more : Bytes) : get_entry op expire_ms (b ++ more) = (get_entry op expire_ms b).later more := by
  unfold get_entry at h ⊢
  split
  · rfl
  next hop =>
  rw [if_neg hop] at h
  split
  · rfl
  next hstring =>
  rw [if_neg hstring] at h
  cases hk : get_string b with
  | none => simp [hk, Parsed.good] at h
  | some key =>
    obtain ⟨key, tail⟩ := key
    rw [get_string_append hk more]
    simp only [hk] at h ⊢
    cases hv : get_string tail with
    | none => simp [hv, Parsed.good] at h
    | some value =>
      rw [get_string_append hv more]
      rfl

theorem get_record_append (h : (get_record b).good = true) (more : Bytes) :
    get_record (b ++ more) = (get_record b).later more := by
  cases b with
  | nil => simp [get_record, Parsed.good] at h
  | cons op b =>
    rw [get_record] at h
    rw [List.cons_append, get_record, get_record]
    by_cases hop : op = kOpExpireMs
    case neg =>
      rw [if_neg hop] at h
      rw [if_neg hop, if_neg hop]
      exact get_entry_append h more
    case pos =>
      rw [if_pos hop] at h
      rw [if_pos hop, if_pos hop]
      rcases hf : get_fixed b 8 with _ | ⟨raw, _ | ⟨op, tail⟩⟩
      · simp [hf, Parsed.good] at h
      · simp [hf, Parsed.good] at h
      · rw [get_fixed_append hf more]
        simp only [hf, List.cons_append] at h ⊢
        split
        · rfl
        next hraw =>
        rw [if_neg hraw] at h
        exact get_entry_append h more

variable {s : Store}

/-- **What is read of a file is read of every longer one.** -/
theorem load_loop_append (h : (load_loop now b s).1 = .ok rest) (more : Bytes) :
    (load_loop now (b ++ more) s).1 = .ok (rest ++ more) := by
  fun_induction load_loop now b s
  case case1 b s tail hr =>
    obtain rfl := Except.ok.inj h
    have hlater := get_record_append (by rw [hr]; rfl) more
    rw [hr] at hlater
    rw [load_loop_of_eof hlater]
  case case2 => simp at h
  case case3 b s r tail hr _ ih =>
    have hlater := get_record_append (by rw [hr]; rfl) more
    rw [hr] at hlater
    rw [load_loop_of_record hlater]
    exact ih h

/-- What is left after the end marker is the end of what was there. -/
theorem load_loop_suffix (h : (load_loop now b s).1 = .ok rest) : rest <:+ b := by
  have hrest : Reader.rest { buf := b, reads := [] } = b := List.append_nil b
  obtain ⟨hloop, hpass⟩ := Reader.load_loop_goes now { buf := b, reads := [] } s
  rw [hrest] at hloop
  rw [hloop] at h
  cases hout : (Reader.load_loop now { buf := b, reads := [] } s).1 with
  | error why => simp [hout, Except.map] at h
  | ok r =>
    simp only [hout, Except.map, Except.ok.injEq] at h
    obtain ⟨used, hused, -⟩ := hpass r hout
    rw [hrest, h] at hused
    exact ⟨used, hused.symm⟩

/-! ## An accepted file -/

/-- **A file that is accepted** was read to its end, and ends in its checksum. -/
theorem accepted_spec (h : (load_from ⟨bytes, none⟩ s).1 = none) :
    ∃ b rest, bytes = kMagic ++ kVersion :: b
      ∧ (load_loop s.now_ms.1 b s.now_ms.2).1 = .ok rest ∧ rest.length = 4 ∧ Sealed bytes := by
  -- the exits in the order of the source; each but the last is an error
  unfold load_from at h
  split at h
  · unfold bad_magic at h
    split at h <;> simp [fail] at h
  next hmagic =>
  split at h
  · simp [fail, truncated] at h
  next version b hb =>
  split at h
  · simp at h
  next hversion =>
  dsimp only at h
  split at h
  next why _ => cases why <;> simp [fail] at h
  next rest hloop =>
  have hbytes : bytes = kMagic ++ kVersion :: b := by
    have hsplit := List.take_append_drop kMagic.length bytes
    rw [show bytes.take kMagic.length = kMagic from not_ne_iff.1 hmagic,
      show bytes.drop kMagic.length = version :: b from hb, not_ne_iff.1 hversion] at hsplit
    exact hsplit.symm
  unfold check_end at h
  dsimp only at h
  split at h
  · simp [fail, truncated] at h
  next stored tail hfixed =>
  split at h
  · simp [fail] at h
  next hstored =>
  split at h
  · simp [fail] at h
  next htail =>
  rw [not_ne_iff.1 htail, not_ne_iff.1 hstored] at hfixed
  -- the checksum is that of the bytes before what the loop has left
  have hsuffix : rest <:+ bytes := by
    rw [hbytes]
    exact (load_loop_suffix hloop).trans ((List.suffix_cons _ _).trans (List.suffix_append _ _))
  obtain ⟨used, rfl⟩ := hsuffix
  rw [List.length_append, Nat.add_sub_cancel, List.take_left] at hfixed
  exact ⟨b, rest, hbytes, hloop, (get_fixed_eq_some.1 hfixed).1, used, rest, rfl, hfixed⟩

/-! ## Damage -/

/-- Cut short, with something behind it, or with up to four bytes in a row changed. -/
structure Damaged (file bytes : Bytes) : Prop where
  ne : bytes ≠ file
  how : bytes <+: file ∨ file <+: bytes ∨ Crc.Within 4 file bytes

theorem write_file_split (s : Store) (now : Int) :
    write_file s now = kMagic ++ kVersion :: (((for_each s).filter (kept now)).flatMap put_record
      ++ kOpEof :: put_fixed (crc32_update 0 (body now s)).toNat 4) := by
  obtain ⟨htake, hdrop⟩ := body_split now s (put_fixed (crc32_update 0 (body now s)).toNat 4)
  have hsplit := List.take_append_drop kMagic.length (write_file s now)
  rw [write_file, htake, hdrop] at hsplit
  exact hsplit.symm

/-- The loader finds the end marker where the writer put it, whatever is behind. -/
theorem load_loop_write_file (h : Typed s.view) (now tl : Int) (r : Store) (more : Bytes) :
    (load_loop tl (((for_each s).filter (kept now)).flatMap put_record ++ kOpEof :: more) r).1
      = .ok more := by
  rw [← flatMap_written]
  exact load_loop_put (written_sized h now) tl more r

theorem sealed_write_file (s : Store) (now : Int) : Sealed (write_file s now) := by
  refine ⟨_, _, rfl, ?_⟩
  have hback := get_fixed_put_fixed 4
    (show (crc32_update 0 (body now s)).toNat < 256 ^ 4 from UInt32.toNat_lt _) []
  rwa [List.append_nil] at hback

theorem load_from_damaged (h : Typed s.view) (now : Int) (hd : Damaged (write_file s now) bytes)
    (r : Store) : (load_from ⟨bytes, none⟩ r).1 ≠ none := by
  intro haccepted
  obtain ⟨b, rest, hbytes, hloop, hlen, hsealed⟩ := accepted_spec haccepted
  have hsum := length_put_fixed (crc32_update 0 (body now s)).toNat 4
  have hempty : ∀ {x y more : Bytes}, x = y ++ more → y.length = 4 → x.length = 4 → more = [] := by
    rintro x y more rfl hy hx
    rw [List.length_append, hy] at hx
    exact List.eq_nil_of_length_eq_zero (by omega)
  rcases hd.how with ⟨more, hmore⟩ | ⟨more, hmore⟩ | hwithin
  · -- the loader would have found four bytes behind the marker, and the writer has put no more
    have hrecords : b ++ more = ((for_each s).filter (kept now)).flatMap put_record
        ++ kOpEof :: put_fixed (crc32_update 0 (body now s)).toNat 4 := by
      rw [write_file_split, hbytes, List.append_assoc, List.cons_append] at hmore
      exact (List.cons.inj (List.append_cancel_left hmore)).2
    have hend := load_loop_append hloop more
    rw [hrecords, load_loop_write_file h] at hend
    rw [hempty (Except.ok.inj hend) hlen hsum, List.append_nil] at hmore
    exact hd.ne hmore
  · have hrecords : b = ((for_each s).filter (kept now)).flatMap put_record
        ++ kOpEof :: (put_fixed (crc32_update 0 (body now s)).toNat 4 ++ more) := by
      rw [write_file_split, hbytes, List.append_assoc, List.cons_append, List.append_assoc,
        List.cons_append] at hmore
      exact ((List.cons.inj (List.append_cancel_left hmore)).2).symm
    rw [hrecords, load_loop_write_file h] at hloop
    rw [hempty (Except.ok.inj hloop).symm hsum hlen, List.append_nil] at hmore
    exact hd.ne hmore.symm
  · exact hd.ne (sealed_unique (sealed_write_file s now) hsealed hwithin).symm

/-- **Damage to a snapshot is detected.** Whatever a store held, a file that is its snapshot
cut short, continued, or changed within four bytes in a row is not loaded, however the reads
cut it. -/
theorem damage_is_detected {s : Store} (h : Typed s.view) (now : Int) {bytes : Bytes}
    (hd : Damaged (write_buffered s now) bytes) {chunks : List Bytes}
    (hc : chunks.flatten = bytes) (hne : ∀ c ∈ chunks, c ≠ []) (r : Store) :
    (Reader.load_from none { reads := chunks } r).1 ≠ none := by
  rw [write_buffered_eq] at hd
  rw [reader_load_from chunks hne, hc]
  exact load_from_damaged h now hd r

/-- One byte behind the file. -/
theorem damage_is_detected_longer :
    (Reader.load_from none { reads := [write_buffered (stamped 5) 0 ++ [0]] } (stamped 5)).1
      ≠ none := by
  have hd : Damaged (write_buffered (stamped 5) 0) (write_buffered (stamped 5) 0 ++ [0]) :=
    ⟨by simp, Or.inr (Or.inl (List.prefix_append _ _))⟩
  exact damage_is_detected (typed_stamped (by norm_num)) 0 hd List.flatten_singleton (by simp) _

end EpochKV.Snapshot

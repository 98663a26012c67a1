/-
The two buffers between a snapshot and its file (`Writer` and `Reader` in `snapshot.cpp`).

`Snapshot` speaks of the bytes of a file. The source produces them through a buffer of 64 KB
that is written out whenever it is full, and consumes them through another that is filled by
calls of `read`, each of which may return fewer bytes than were asked for; a record may lie
across any of these borders, and both sides keep a checksum as they go. Here the buffers are
shown not to matter: what is written is `write_file`, and a load through any sequence of reads
is `load_from` on the bytes read.
-/
import EpochKV.Snapshot

set_option autoImplicit false

namespace EpochKV.Snapshot

open Text Keyspace Codec Store

def kIoBufferSize : Nat := 64 * 1024

/-! ## Writing -/

structure Writer where
  buf : Bytes := []
  /-- What `write_all` was given. -/
  file : Bytes := []
  crc : UInt32 := 0

namespace Writer

def flush (w : Writer) : Writer := { w with file := w.file ++ w.buf, buf := [] }

def put (w : Writer) (data : Bytes) : Writer :=
  let w : Writer := { w with crc := crc32_update w.crc data, buf := w.buf ++ data }
  if kIoBufferSize ≤ w.buf.length then w.flush else w

def put_byte (w : Writer) (b : UInt8) : Writer := w.put [b]

def put_string (w : Writer) (s : Bytes) : Writer := (w.put (put_varint s.length)).put s

/-- The body of the loop over the store. -/
def put_entry (now : Int) (w : Writer) (r : Record) : Writer :=
  if 0 ≤ r.expire_ms then
    if r.expire_ms ≤ now then w
    else
      let w := (w.put_byte kOpExpireMs).put (put_fixed r.expire_ms.toNat 8)
      ((w.put_byte kOpString).put_string r.key).put_string r.value
  else ((w.put_byte kOpString).put_string r.key).put_string r.value

/-- Everything put so far, written out or not. -/
def sent (w : Writer) : Bytes := w.file ++ w.buf

theorem file_flush (w : Writer) : w.flush.file = w.sent := rfl

/-- The checksum is that of everything put so far. -/
def Sound (w : Writer) : Prop := w.crc = crc32_update 0 w.sent

theorem sent_put (w : Writer) (data : Bytes) : (w.put data).sent = w.sent ++ data := by
  unfold put sent
  dsimp only
  split <;> simp [flush]

theorem Sound.put {w : Writer} (h : w.Sound) (data : Bytes) : (w.put data).Sound := by
  have hcrc : (w.put data).crc = crc32_update w.crc data := by
    unfold Writer.put
    dsimp only
    split <;> rfl
  rw [Sound, hcrc, sent_put, crc32_update_append, ← h]

theorem sent_put_entry (now : Int) (w : Writer) (r : Record) :
    (w.put_entry now r).sent = w.sent ++ if kept now r then put_record r else [] := by
  unfold put_entry put_byte put_string
  by_cases hpos : 0 ≤ r.expire_ms
  · have hneg : ¬ r.expire_ms < 0 := by omega
    by_cases hdue : r.expire_ms ≤ now
    · have hkept : ¬ now < r.expire_ms := by omega
      simp [hpos, hdue, kept, hneg, hkept]
    · have hkept : now < r.expire_ms := by omega
      simp [hpos, hdue, kept, hneg, hkept, sent_put, put_record, Snapshot.put_string]
  · have hneg : r.expire_ms < 0 := by omega
    simp [hpos, kept, hneg, sent_put, put_record, Snapshot.put_string]

theorem Sound.put_entry {w : Writer} (h : w.Sound) (now : Int) (r : Record) :
    (w.put_entry now r).Sound := by
  unfold Writer.put_entry Writer.put_byte Writer.put_string
  split
  · split
    · exact h
    · exact ((((((h.put _).put _).put _).put _).put _).put _).put _
  · exact ((((h.put _).put _).put _).put _).put _

theorem put_entries (now : Int) (rs : List Record) (w : Writer) (h : w.Sound) :
    (rs.foldl (put_entry now) w).sent = w.sent ++ (rs.filter (kept now)).flatMap put_record ∧
      (rs.foldl (put_entry now) w).Sound := by
  induction rs generalizing w with
  | nil => exact ⟨by simp, h⟩
  | cons r rs ih =>
    obtain ⟨hsent, hsound⟩ := ih (w.put_entry now r) (h.put_entry now r)
    refine ⟨?_, hsound⟩
    rw [List.foldl_cons, hsent, sent_put_entry]
    by_cases hk : kept now r <;> simp [hk]

end Writer

/-- `write_file`, put by put. -/
def write_buffered (s : Store) (now : Int) : Bytes :=
  let w := (Writer.put {} kMagic).put_byte kVersion
  let w := ((for_each s).foldl (Writer.put_entry now) w).put_byte kOpEof
  (w.put (put_fixed w.crc.toNat 4)).flush.file

/-- **The buffer of the writer does not show in the file.** -/
theorem write_buffered_eq (s : Store) (now : Int) : write_buffered s now = write_file s now := by
  have hstart : Writer.Sound {} := by
    unfold Writer.Sound
    decide
  obtain ⟨hsent, hsound⟩ := Writer.put_entries now (for_each s)
    ((Writer.put {} kMagic).put_byte kVersion) ((hstart.put _).put _)
  unfold write_buffered write_file
  dsimp only
  generalize (for_each s).foldl (Writer.put_entry now) _ = w at hsent hsound ⊢
  have hbody : (w.put_byte kOpEof).sent = body now s := by
    rw [Writer.put_byte, Writer.sent_put, hsent, Writer.put_byte, Writer.sent_put, Writer.sent_put]
    simp [body, Writer.sent]
  have hcrc : (w.put_byte kOpEof).crc = crc32_update 0 (body now s) := by
    rw [← hbody]
    exact hsound.put _
  rw [Writer.file_flush, Writer.sent_put, hbody, hcrc]

/-! ## Reading -/

/-- The buffer, and what the calls of `read` to come return, up to the end of the file. -/
structure Reader where
  buf : Bytes := []
  reads : List Bytes
  crc : UInt32 := 0

variable {r r' : Reader} {α : Type} {g : Parsed}

namespace Reader

/-- Everything that is still to come. -/
def rest (r : Reader) : Bytes := r.buf ++ r.reads.flatten

/-- What the buffer has, if it is enough. -/
def get_buffered (reads : List Bytes) (len : Nat) (buf : Bytes) (crc : UInt32) : Bytes × Reader :=
  (buf.take len, { buf := buf.drop len, reads, crc := crc32_update crc (buf.take len) })

/-- The loop of `get`: the buffer is used up, and the next `read` fills it. -/
def get_loop : List Bytes → Nat → Bytes → UInt32 → Option (Bytes × Reader)
  | [], len, buf, crc => if len ≤ buf.length then some (get_buffered [] len buf crc) else none
  | chunk :: reads, len, buf, crc =>
    if len ≤ buf.length then some (get_buffered (chunk :: reads) len buf crc)
    else
      (get_loop reads (len - buf.length) chunk (crc32_update crc buf)).map fun p => (buf ++ p.1, p.2)

/-- `Reader::get`: `len` bytes, or nothing if the file ends before. -/
def get (r : Reader) (len : Nat) : Option (Bytes × Reader) := get_loop r.reads len r.buf r.crc

def get_byte (r : Reader) : Option (UInt8 × Reader) := (r.get 1).map fun p => (p.1.headD 0, p.2)

def varint_loop : Nat → Nat → Nat → Reader → Option (Nat × Reader)
  | 0, _, _, _ => none
  | fuel + 1, i, v, r =>
    r.get_byte.bind fun p =>
      let v := v ||| ((p.1.toNat % 128) <<< (7 * i)) % 2 ^ 64
      if p.1.toNat < 128 then some (v, p.2) else varint_loop fuel (i + 1) v p.2

def get_varint (r : Reader) : Option (Nat × Reader) := varint_loop kMaxVarintBytes 0 0 r

def get_fixed (r : Reader) (bytes : Nat) : Option (Nat × Reader) :=
  (r.get bytes).map fun p => (p.1.foldr (fun b v => b.toNat + 256 * v) 0, p.2)

/-- The loop of `get_string`: a buffer's worth at a time. -/
def get_pieces (len : Nat) (r : Reader) : Option (Bytes × Reader) :=
  if len = 0 then some ([], r)
  else
    (r.get (min len kIoBufferSize)).bind fun p =>
      (get_pieces (len - min len kIoBufferSize) p.2).map fun q => (p.1 ++ q.1, q.2)
termination_by len
decreasing_by
  unfold kIoBufferSize
  omega

def get_string (r : Reader) : Option (Bytes × Reader) :=
  r.get_varint.bind fun p => get_pieces p.1 p.2

/-- `if (!...) return fail("truncated")`. -/
def or_truncated {α β : Type} (f : Option α) (next : α → Except Failure β) : Except Failure β :=
  match f with
  | none => .error truncated
  | some x => next x

/-- The rest of a record, from its type byte on; nothing is the end marker. -/
def get_entry (op : UInt8) (expire_ms : Int) (r : Reader) :
    Except Failure (Option Record × Reader) :=
  if op = kOpEof ∧ expire_ms = -1 then .ok (none, r)
  else if op ≠ kOpString then .error (.wrong (lit "corrupt: unknown record type"))
  else
    or_truncated r.get_string fun key =>
      or_truncated key.2.get_string fun value =>
        .ok (some ⟨key.1, value.1, expire_ms⟩, value.2)

def get_record (r : Reader) : Except Failure (Option Record × Reader) :=
  or_truncated r.get_byte fun op =>
    if op.1 = kOpExpireMs then
      or_truncated (op.2.get_fixed 8) fun raw =>
        or_truncated raw.2.get_byte fun op =>
          -- the cast to `int64_t` is negative
          if 2 ^ 63 ≤ raw.1 then .error (.wrong (lit "corrupt expire time"))
          else get_entry op.1 raw.1 op.2
    else get_entry op.1 (-1) op.2

/-! ### What the bytes are

Every function above is one on the bytes to come, whatever lies in the buffer. -/

/-- From `r` to `r'` some of the bytes to come were used, and the checksum was taken over them. -/
def Passes (r r' : Reader) : Prop :=
  ∃ used, r.rest = used ++ r'.rest ∧ r'.crc = crc32_update r.crc used ∧ r'.reads <:+ r.reads

theorem Passes.refl (r : Reader) : r.Passes r := by
  refine ⟨[], rfl, ?_, List.suffix_rfl⟩
  simp [crc32_update]

theorem Passes.trans {r'' : Reader} (h : r.Passes r') (h' : r'.Passes r'') : r.Passes r'' := by
  obtain ⟨used, hused, hcrc, hsuf⟩ := h
  obtain ⟨used', hused', hcrc', hsuf'⟩ := h'
  refine ⟨used ++ used', ?_, ?_, hsuf'.trans hsuf⟩
  · rw [hused, hused', List.append_assoc]
  · rw [hcrc', hcrc, crc32_update_append]

/-- `f` is what a function of the reader returned, `g` what it should return given the bytes
to come: the same result, with the bytes behind it still to come. -/
def Reads {α : Type} (r : Reader) (f : Option (α × Reader)) (g : Option (α × Bytes)) : Prop :=
  match g with
  | none => f = none
  | some (x, rest) => ∃ r', f = some (x, r') ∧ r'.rest = rest ∧ r.Passes r'

/-- The next `len` bytes. -/
def take_bytes (len : Nat) (b : Bytes) : Option (Bytes × Bytes) :=
  if b.length < len then none else some (b.take len, b.drop len)

/-- The buffer has enough. -/
theorem get_loop_of_le {reads : List Bytes} {len : Nat} {buf : Bytes} {crc : UInt32}
    (h : len ≤ buf.length) :
    Reads { buf, reads, crc } (get_loop reads len buf crc) (take_bytes len (buf ++ reads.flatten)) := by
  have hlong : ¬ (buf ++ reads.flatten).length < len := by
    rw [List.length_append]
    omega
  have hloop : get_loop reads len buf crc = some (get_buffered reads len buf crc) := by
    cases reads <;> rw [get_loop, if_pos h]
  rw [hloop, take_bytes, if_neg hlong, List.take_append_of_le_length h,
    List.drop_append_of_le_length h]
  refine ⟨_, rfl, rfl, buf.take len, ?_, rfl, List.suffix_rfl⟩
  unfold rest
  rw [← List.append_assoc, List.take_append_drop]

theorem get_loop_reads (reads : List Bytes) (len : Nat) (buf : Bytes) (crc : UInt32) :
    Reads { buf, reads, crc } (get_loop reads len buf crc) (take_bytes len (buf ++ reads.flatten)) := by
  -- on the reads to come: a round that is not the last uses the buffer up
  induction reads generalizing len buf crc with
  | nil =>
    by_cases h : len ≤ buf.length
    · exact get_loop_of_le h
    · have hshort : (buf ++ ([] : List Bytes).flatten).length < len := by
        simp only [List.flatten_nil, List.append_nil]
        omega
      rw [get_loop, if_neg h, take_bytes, if_pos hshort]
      rfl
  | cons chunk reads ih =>
    by_cases h : len ≤ buf.length
    · exact get_loop_of_le h
    · have hnext := ih (len - buf.length) chunk (crc32_update crc buf)
      rw [get_loop, if_neg h]
      by_cases hshort : (chunk ++ reads.flatten).length < len - buf.length
      · have hshort' : (buf ++ (chunk :: reads).flatten).length < len := by
          rw [List.flatten_cons, List.length_append]
          omega
        rw [take_bytes, if_pos hshort] at hnext
        rw [take_bytes, if_pos hshort', hnext]
        rfl
      · have hshort' : ¬ (buf ++ (chunk :: reads).flatten).length < len := by
          rw [List.flatten_cons, List.length_append]
          omega
        have hle : buf.length ≤ len := by omega
        rw [take_bytes, if_neg hshort] at hnext
        obtain ⟨r', hf, hrest, used, hused, hcrc, hsuf⟩ := hnext
        have htake : (buf ++ (chunk ++ reads.flatten)).take len =
            buf ++ (chunk ++ reads.flatten).take (len - buf.length) := by
          rw [List.take_append, List.take_of_length_le hle]
        have hdrop : (buf ++ (chunk ++ reads.flatten)).drop len =
            (chunk ++ reads.flatten).drop (len - buf.length) := by
          rw [List.drop_append, List.drop_eq_nil_of_le hle, List.nil_append]
        rw [take_bytes, if_neg hshort', hf, List.flatten_cons, htake, hdrop]
        refine ⟨r', rfl, hrest, buf ++ used, ?_, ?_, hsuf.trans (List.suffix_cons _ _)⟩
        · rw [List.append_assoc, ← hused]
          rfl
        · rw [hcrc, crc32_update_append]

theorem get_reads (r : Reader) (len : Nat) : r.Reads (r.get len) (take_bytes len r.rest) :=
  get_loop_reads r.reads len r.buf r.crc

/-- One function after another. -/
theorem Reads.bind {β : Type} {f : Option (α × Reader)} {g : Option (α × Bytes)} (h : r.Reads f g)
    {F : α × Reader → Option (β × Reader)} {G : α × Bytes → Option (β × Bytes)}
    (hF : ∀ (x : α) (r' : Reader), r'.Reads (F (x, r')) (G (x, r'.rest))) :
    r.Reads (f.bind F) (g.bind G) := by
  cases g with
  | none =>
    rw [show f = none from h]
    rfl
  | some p =>
    obtain ⟨x, rest⟩ := p
    obtain ⟨r', rfl, rfl, hp⟩ := h
    have hx := hF x r'
    simp only [Option.bind_some]
    cases hg : G (x, r'.rest) with
    | none =>
      rw [hg] at hx
      exact hx
    | some q =>
      rw [hg] at hx
      obtain ⟨r'', hf, hrest, hp'⟩ := hx
      exact ⟨r'', hf, hrest, hp.trans hp'⟩

theorem Reads.map {β : Type} {f : Option (α × Reader)} {g : Option (α × Bytes)} (h : r.Reads f g)
    (k : α → β) : r.Reads (f.map fun p => (k p.1, p.2)) (g.map fun p => (k p.1, p.2)) := by
  cases g with
  | none =>
    rw [show f = none from h]
    rfl
  | some p =>
    obtain ⟨r', rfl, hrest⟩ := h
    exact ⟨r', rfl, hrest⟩

/-- A result that uses nothing. -/
theorem reads_pure (r : Reader) (x : α) : r.Reads (some (x, r)) (some (x, r.rest)) :=
  ⟨r, rfl, rfl, Passes.refl r⟩

def take_byte : Bytes → Option (UInt8 × Bytes)
  | [] => none
  | b :: rest => some (b, rest)

theorem get_byte_reads (r : Reader) : r.Reads r.get_byte (take_byte r.rest) := by
  have h := (r.get_reads 1).map fun b => b.headD 0
  have hg : (take_bytes 1 r.rest).map (fun p => (p.1.headD 0, p.2)) = take_byte r.rest := by
    cases r.rest <;> simp [take_bytes, take_byte]
  rwa [hg] at h

theorem varint_loop_reads (fuel i v : Nat) (r : Reader) :
    r.Reads (varint_loop fuel i v r) (Codec.varint_loop fuel i v r.rest) := by
  induction fuel generalizing i v r with
  | zero => rfl
  | succ fuel ih =>
    have hg : Codec.varint_loop (fuel + 1) i v r.rest = (take_byte r.rest).bind fun p =>
        let v := v ||| ((p.1.toNat % 128) <<< (7 * i)) % 2 ^ 64
        if p.1.toNat < 128 then some (v, p.2) else Codec.varint_loop fuel (i + 1) v p.2 := by
      cases r.rest <;> rfl
    rw [varint_loop, hg]
    refine r.get_byte_reads.bind ?_
    intro byte r'
    split
    · exact reads_pure r' _
    · exact ih _ _ r'

theorem get_fixed_reads (r : Reader) (bytes : Nat) :
    r.Reads (r.get_fixed bytes) (Codec.get_fixed r.rest bytes) := by
  have h := (r.get_reads bytes).map fun b => b.foldr (fun b v => b.toNat + 256 * v) 0
  have hg : (take_bytes bytes r.rest).map
      (fun p => (p.1.foldr (fun b v => b.toNat + 256 * v) 0, p.2)) = Codec.get_fixed r.rest bytes := by
    unfold take_bytes Codec.get_fixed
    split <;> rfl
  rwa [hg] at h

/-- Taking the pieces one after another is taking all at once. -/
theorem take_bytes_add (m n : Nat) (b : Bytes) :
    take_bytes (m + n) b =
      (take_bytes m b).bind fun p => (take_bytes n p.2).map fun q => (p.1 ++ q.1, q.2) := by
  unfold take_bytes
  by_cases hm : b.length < m
  · rw [if_pos hm, if_pos (by omega)]
    rfl
  · rw [if_neg hm]
    simp only [Option.bind_some, List.length_drop]
    by_cases hn : b.length < m + n
    · rw [if_pos hn, if_pos (by omega)]
      rfl
    · rw [if_neg hn, if_neg (by omega)]
      simp [List.take_add]

theorem get_pieces_reads (len : Nat) (r : Reader) :
    r.Reads (get_pieces len r) (take_bytes len r.rest) := by
  induction len using Nat.strongRecOn generalizing r with
  | _ len ih =>
    rw [get_pieces]
    split
    next h0 =>
      subst h0
      simpa [take_bytes] using reads_pure r ([] : Bytes)
    next hpos =>
      have hsplit : len = min len kIoBufferSize + (len - min len kIoBufferSize) := by omega
      have hlt : len - min len kIoBufferSize < len := by
        unfold kIoBufferSize
        omega
      rw [show take_bytes len r.rest = take_bytes (min len kIoBufferSize +
        (len - min len kIoBufferSize)) r.rest from congrArg (take_bytes · r.rest) hsplit, take_bytes_add]
      refine (r.get_reads _).bind ?_
      intro piece r'
      exact (ih _ hlt r').map fun b => piece ++ b

theorem get_string_reads (r : Reader) : r.Reads r.get_string (Snapshot.get_string r.rest) := by
  have hg : Snapshot.get_string r.rest =
      (Codec.get_varint r.rest).bind fun p => take_bytes p.1 p.2 := by
    unfold Snapshot.get_string take_bytes
    cases Codec.get_varint r.rest <;> rfl
  rw [hg]
  exact (varint_loop_reads kMaxVarintBytes 0 0 r).bind get_pieces_reads

/-- The same for a record, whose reading has reasons to fail. -/
def Goes (r : Reader) (f : Except Failure (Option Record × Reader)) : Parsed → Prop
  | .bad why => f = .error why
  | .eof rest => ∃ r', f = .ok (none, r') ∧ r'.rest = rest ∧ r.Passes r'
  | .record x rest => ∃ r', f = .ok (some x, r') ∧ r'.rest = rest ∧ r.Passes r'

theorem Goes.of_passes {f : Except Failure (Option Record × Reader)} (hp : r.Passes r')
    (h : r'.Goes f g) : r.Goes f g := by
  cases g with
  | bad why => exact h
  | eof rest =>
    obtain ⟨r'', hf, hrest, hp'⟩ := h
    exact ⟨r'', hf, hrest, hp.trans hp'⟩
  | record x rest =>
    obtain ⟨r'', hf, hrest, hp'⟩ := h
    exact ⟨r'', hf, hrest, hp.trans hp'⟩

theorem Reads.goes {f : Option (α × Reader)} {g : Option (α × Bytes)} (h : r.Reads f g)
    {F : α × Reader → Except Failure (Option Record × Reader)} {G : α × Bytes → Parsed}
    (hF : ∀ (x : α) (r' : Reader), r'.Goes (F (x, r')) (G (x, r'.rest))) :
    r.Goes (or_truncated f F) (g.elim (.bad truncated) G) := by
  cases g with
  | none =>
    rw [show f = none from h]
    rfl
  | some p =>
    obtain ⟨r', rfl, hrest, hp⟩ := h
    have hx := hF p.1 r'
    rw [hrest] at hx
    exact hx.of_passes hp

theorem get_entry_goes (op : UInt8) (expire_ms : Int) (r : Reader) :
    r.Goes (get_entry op expire_ms r) (Snapshot.get_entry op expire_ms r.rest) := by
  have hg : Snapshot.get_entry op expire_ms r.rest =
      if op = kOpEof ∧ expire_ms = -1 then .eof r.rest
      else if op ≠ kOpString then .bad (.wrong (lit "corrupt: unknown record type"))
      else
        (Snapshot.get_string r.rest).elim (.bad truncated) fun key =>
          (Snapshot.get_string key.2).elim (.bad truncated) fun value =>
            .record ⟨key.1, value.1, expire_ms⟩ value.2 := by
    unfold Snapshot.get_entry
    cases Snapshot.get_string r.rest with
    | none => rfl
    | some key => cases h : Snapshot.get_string key.2 <;> simp [h]
  rw [hg, get_entry]
  split
  · exact ⟨r, rfl, rfl, Passes.refl r⟩
  split
  · rfl
  refine r.get_string_reads.goes ?_
  intro key r'
  refine r'.get_string_reads.goes ?_
  intro value r''
  exact ⟨r'', rfl, rfl, Passes.refl r''⟩

theorem get_record_goes (r : Reader) : r.Goes r.get_record (Snapshot.get_record r.rest) := by
  have hg : Snapshot.get_record r.rest =
      (take_byte r.rest).elim (.bad truncated) fun op =>
        if op.1 = kOpExpireMs then
          (Codec.get_fixed op.2 8).elim (.bad truncated) fun raw =>
            (take_byte raw.2).elim (.bad truncated) fun op =>
              if 2 ^ 63 ≤ raw.1 then .bad (.wrong (lit "corrupt expire time"))
              else Snapshot.get_entry op.1 raw.1 op.2
        else Snapshot.get_entry op.1 (-1) op.2 := by
    unfold Snapshot.get_record
    cases r.rest with
    | nil => rfl
    | cons op b =>
      simp only [take_byte, Option.elim_some]
      cases Codec.get_fixed b 8 with
      | none => rfl
      | some p =>
        obtain ⟨raw, _ | ⟨op, b⟩⟩ := p
        · rfl
        · rfl
  rw [hg]
  refine r.get_byte_reads.goes ?_
  intro op r₁
  split
  · refine (r₁.get_fixed_reads 8).goes ?_
    intro raw r₂
    refine r₂.get_byte_reads.goes ?_
    intro op r₃
    split
    · rfl
    · exact get_entry_goes op raw r₃
  · exact get_entry_goes op (-1) r₁

/-- What was returned tells what the bytes are. -/
theorem Goes.of_error {why : Failure} (h : r.Goes (.error why) g) : g = .bad why := by
  cases g with
  | bad why' =>
    cases h
    rfl
  | eof rest =>
    obtain ⟨_, hf, -⟩ := h
    cases hf
  | record x rest =>
    obtain ⟨_, hf, -⟩ := h
    cases hf

theorem Goes.of_eof (h : r.Goes (.ok (none, r')) g) : g = .eof r'.rest ∧ r.Passes r' := by
  cases g with
  | bad why => cases h
  | eof rest =>
    obtain ⟨_, hf, rfl, hp⟩ := h
    cases hf
    exact ⟨rfl, hp⟩
  | record x rest =>
    obtain ⟨_, hf, -⟩ := h
    cases hf

theorem Goes.of_record {x : Record} (h : r.Goes (.ok (some x, r')) g) :
    g = .record x r'.rest ∧ r.Passes r' := by
  cases g with
  | bad why => cases h
  | eof rest =>
    obtain ⟨_, hf, -⟩ := h
    cases hf
  | record y rest =>
    obtain ⟨_, hf, rfl, hp⟩ := h
    cases hf
    exact ⟨rfl, hp⟩

theorem get_record_shorter {x : Record} (h : r.get_record = .ok (some x, r')) :
    r'.rest.length < r.rest.length := by
  have hgoes := r.get_record_goes
  rw [h] at hgoes
  exact get_record_length hgoes.of_record.1

/-! ### A load -/

def load_loop (now : Int) (r : Reader) (s : Store) : Except Failure Reader × Store :=
  match h : r.get_record with
  | .error why => (.error why, s)
  | .ok (none, r) => (.ok r, s)
  | .ok (some x, r') =>
    have := get_record_shorter h
    load_loop now r' (load_record now s x)
termination_by r.rest.length

/-- Nothing in the buffer, and `read` returns nothing more. -/
def at_eof (r : Reader) : Bool := r.buf.isEmpty && r.reads.isEmpty

def check_end (read_error : Option Bytes) (r : Reader) : Option Bytes :=
  match r.get_fixed 4 with
  | none => fail read_error truncated
  | some (stored, r') =>
    if stored ≠ r.crc.toNat then fail read_error (.wrong (lit "checksum mismatch"))
    else if ¬ r'.at_eof then
      fail read_error (.wrong (lit "unexpected data after the end of the snapshot"))
    else none

/-- `load_from`; `read_error` is the error that ends the reads, if one does. -/
def load_from (read_error : Option Bytes) (r : Reader) (s : Store) : Option Bytes × Store :=
  let bad_magic := lit "not a snapshot file (bad magic)"
  match r.get kMagic.length with
  | none => (fail read_error (.short bad_magic), s)
  | some (magic, r) =>
    if magic ≠ kMagic then (fail read_error (.wrong bad_magic), s)
    else
      match r.get_byte with
      | none => (fail read_error truncated, s)
      | some (version, r) =>
        if version ≠ kVersion then
          (some (lit "unsupported snapshot version " ++ to_string version.toNat), s)
        else
          let n := s.now_ms
          let out := r.load_loop n.1 n.2
          (match out.1 with
            | .error why => fail read_error why
            | .ok r => r.check_end read_error, out.2)

theorem load_loop_goes (now : Int) (r : Reader) (s : Store) :
    Snapshot.load_loop now r.rest s =
        ((load_loop now r s).1.map Reader.rest, (load_loop now r s).2) ∧
      ∀ r', (load_loop now r s).1 = .ok r' → r.Passes r' := by
  fun_induction load_loop now r s
  case case1 r s why h =>
    have hgoes := r.get_record_goes
    rw [h] at hgoes
    rw [Snapshot.load_loop.eq_def]
    split
    case h_1 h' => rw [hgoes.of_error] at h'; cases h'
    case h_2 h' =>
      rw [hgoes.of_error] at h'
      cases h'
      exact ⟨rfl, by simp⟩
    case h_3 h' => rw [hgoes.of_error] at h'; cases h'
  case case2 r s r' h =>
    have hgoes := r.get_record_goes
    rw [h] at hgoes
    obtain ⟨hg, hp⟩ := hgoes.of_eof
    rw [load_loop_of_eof hg]
    refine ⟨rfl, ?_⟩
    intro r'' h''
    cases h''
    exact hp
  case case3 r s x r' h _ ih =>
    have hgoes := r.get_record_goes
    rw [h] at hgoes
    obtain ⟨hg, hp⟩ := hgoes.of_record
    rw [load_loop_of_record hg]
    exact ⟨ih.1, fun r'' h'' => hp.trans (ih.2 r'' h'')⟩

theorem at_eof_iff (hne : ∀ c ∈ r.reads, c ≠ []) : r.at_eof = true ↔ r.rest = [] := by
  unfold at_eof rest
  rw [Bool.and_eq_true, List.isEmpty_iff, List.isEmpty_iff, List.append_eq_nil_iff]
  refine and_congr_right fun _ => ?_
  cases h : r.reads with
  | nil => simp
  | cons c reads =>
    have := hne c (h ▸ List.mem_cons_self)
    simp [this]

theorem check_end_goes {r₀ : Reader} (hne : ∀ c ∈ r₀.reads, c ≠ []) (hcrc : r₀.crc = 0)
    (hp : r₀.Passes r) (read_error : Option Bytes) :
    r.check_end read_error = Snapshot.check_end ⟨r₀.rest, read_error⟩ r.rest := by
  obtain ⟨used, hused, hused', hsuf⟩ := hp
  have hexpected : crc32_update 0 (r₀.rest.take (r₀.rest.length - r.rest.length)) = r.crc := by
    rw [hused', hcrc, hused, List.length_append, Nat.add_sub_cancel, List.take_left]
  have hfix := r.get_fixed_reads 4
  unfold check_end Snapshot.check_end
  rw [hexpected]
  cases hg : Codec.get_fixed r.rest 4 with
  | none =>
    rw [hg] at hfix
    rw [show r.get_fixed 4 = none from hfix]
  | some p =>
    rw [hg] at hfix
    obtain ⟨r', hf, hrest, -, -, -, hsuf'⟩ := hfix
    have heof := at_eof_iff (r := r') fun c hc => hne c (hsuf.subset (hsuf'.subset hc))
    rw [hf]
    simp only [heof, hrest, ne_eq]

end Reader

/-- **Nor does the buffer of the reader show**, however the reads cut the file. -/
theorem reader_load_from (chunks : List Bytes) (hne : ∀ c ∈ chunks, c ≠ [])
    (read_error : Option Bytes) (s : Store) :
    Reader.load_from read_error { reads := chunks } s =
      load_from ⟨chunks.flatten, read_error⟩ s := by
  have hmagic := Reader.get_reads { reads := chunks } kMagic.length
  rw [show Reader.rest { reads := chunks } = chunks.flatten from rfl] at hmagic
  unfold Reader.load_from load_from
  by_cases hlen : chunks.flatten.length < kMagic.length
  · have hshort : chunks.flatten.take kMagic.length ≠ kMagic := by
      intro h
      have := congrArg List.length h
      rw [List.length_take] at this
      omega
    rw [show Reader.take_bytes _ _ = none from if_pos hlen] at hmagic
    rw [show Reader.get _ _ = none from hmagic, if_pos hshort, bad_magic, if_pos hlen]
  · rw [show Reader.take_bytes _ _ = _ from if_neg hlen] at hmagic
    obtain ⟨r₁, hf, hr₁, hp₁⟩ := hmagic
    have hwrong : bad_magic ⟨chunks.flatten, read_error⟩ =
        .wrong (lit "not a snapshot file (bad magic)") := if_neg hlen
    rw [hf, hwrong]
    dsimp only
    rw [show chunks.flatten.drop kMagic.length = r₁.rest from hr₁.symm]
    split
    · rfl
    have hbyte := r₁.get_byte_reads
    cases hb : r₁.rest with
    | nil =>
      rw [hb] at hbyte
      rw [show r₁.get_byte = none from hbyte]
    | cons version b =>
      rw [hb] at hbyte
      obtain ⟨r₂, hf₂, rfl, hp₂⟩ := hbyte
      rw [hf₂]
      dsimp only
      split
      · rfl
      obtain ⟨hloop, hpass⟩ := r₂.load_loop_goes s.now_ms.1 s.now_ms.2
      rw [hloop]
      cases hout : (Reader.load_loop s.now_ms.1 r₂ s.now_ms.2).1 with
      | error why => rfl
      | ok r₃ =>
        have hp := (hp₁.trans hp₂).trans (hpass r₃ hout)
        exact congrArg (·, _) (Reader.check_end_goes hne rfl hp read_error)

/-! ## Round trips -/

/-- Saved at `ts` and loaded at `tl` into an empty store of a master, `s` comes back: what has no
deadline and what has one after `tl`. -/
def RoundTrips (s : Store) : Prop :=
  ∀ (ts tl : Nat) (chunks : List Bytes) (r : Store), ts ≤ tl →
    chunks.flatten = write_buffered s ts → (∀ c ∈ chunks, c ≠ []) →
    r.view = (fun _ => none) → r.passive_expiry = false → (∀ i, r.clock i = tl) →
    (Reader.load_from none { reads := chunks } r).1 = none ∧
      (Reader.load_from none { reads := chunks } r).2.view = visible (tl : Int) s.view

theorem reloaded_of_nonneg {tl : Int} {cell : Cell Bytes Int}
    (h : ∀ v d, cell = some (v, some d) → 0 ≤ d) : reloaded tl cell = live tl cell := by
  rcases cell with _ | ⟨v, _ | d⟩
  · rfl
  · rfl
  · exact if_neg (not_lt.2 (h v d rfl))

/-- What a load leaves, whatever the deadlines are. -/
theorem reader_load_from_view {s r : Store} (h : Typed s.view) {ts tl : Nat} (hle : ts ≤ tl)
    {chunks : List Bytes} (hbytes : chunks.flatten = write_buffered s ts)
    (hne : ∀ c ∈ chunks, c ≠ []) (hempty : r.view = fun _ => none) (hclock : ∀ i, r.clock i = tl) :
    (Reader.load_from none { reads := chunks } r).1 = none ∧
      (Reader.load_from none { reads := chunks } r).2.view = fun k => reloaded tl (s.view k) := by
  have hnow : r.now = tl := congrArg Int.ofNat (hclock r.reads)
  have hlenient : Lenient r.now r := by
    right
    intro i
    rw [hclock, hnow]
  have hsaved : (ts : Int) ≤ r.now := by
    rw [hnow]
    omega
  rw [reader_load_from chunks hne, hbytes, write_buffered_eq]
  obtain ⟨n, log, hb⟩ := reload_write_file h hlenient hempty hsaved
  refine ⟨load_from_write_file_ok h ts r, ?_⟩
  rw [hb.view, hnow]

/-- Saved and loaded at the epoch. -/
theorem RoundTrips.at_epoch {s : Store} (hround : RoundTrips s) (h : Typed s.view) (k : Key) :
    reloaded (0 : Nat) (s.view k) = live ((0 : Nat) : Int) (s.view k) := by
  have hbytes : [write_buffered s (0 : Nat)].flatten = write_buffered s (0 : Nat) := by simp
  have hne : ∀ c ∈ [write_buffered s (0 : Nat)], c ≠ [] := by
    intro c hc
    rw [List.mem_singleton.1 hc, write_buffered_eq, write_file, body, kMagic]
    simp [lit]
  have hempty : Store.view { clock := fun _ => 0 } = fun _ => none := rfl
  have hvisible := (hround 0 0 _ _ le_rfl hbytes hne hempty rfl fun _ => rfl).2
  rw [(reader_load_from_view h le_rfl hbytes hne hempty fun _ => rfl).2] at hvisible
  exact congrFun hvisible k

/-- **A snapshot brings back a store exactly if no deadline lies before the epoch.** -/
theorem round_trips_iff {s : Store} (h : Typed s.view) :
    RoundTrips s ↔ ∀ k v d, s.view k = some (v, some d) → 0 ≤ d := by
  constructor
  · intro hround k v d hk
    by_contra hneg
    have hcell := hround.at_epoch h k
    rw [hk, reloaded, if_pos (by omega), live, if_pos (by omega)] at hcell
    cases hcell
  · intro hd ts tl chunks r hle hbytes hne hempty _ hclock
    obtain ⟨hok, hview⟩ := reader_load_from_view h hle hbytes hne hempty hclock
    refine ⟨hok, hview.trans ?_⟩
    funext k
    exact reloaded_of_nonneg (hd k)

/-- A replica was told to set a key, and of its deadline. -/
def stamped (when_ms : Int) : Store :=
  ((Store.set { clock := fun _ => 0, passive_expiry := true } (lit "k") (lit "v") false).set_expire
    (lit "k") when_ms).2

theorem view_stamped (when_ms : Int) :
    (stamped when_ms).view =
      Function.update (fun _ => none) (lit "k") (some (lit "v", some when_ms)) := by
  have hset := set_spec { clock := fun _ => 0, passive_expiry := true } (lit "k") (lit "v") false
  unfold stamped
  generalize Store.set { clock := fun _ => 0, passive_expiry := true } _ _ _ = s at hset ⊢
  have hlive : live s.now (s.view (lit "k")) = some (lit "v", none) := by
    rw [hset.view, Function.update_self]
    rfl
  have hpassive : s.passive_expiry = true := hset.passive_expiry
  rw [(set_expire_found s (lit "k") when_ms hlive).2.view, hset.view, hpassive, if_pos rfl,
    Function.update_idem]
  rfl

theorem typed_stamped {when_ms : Int} (h : when_ms < 2 ^ 63) : Typed (stamped when_ms).view := by
  intro k v x hk
  rw [view_stamped] at hk
  by_cases hkey : k = lit "k"
  · subst hkey
    rw [Function.update_self] at hk
    cases hk
    refine ⟨by decide, by decide, ?_⟩
    intro d hd
    cases hd
    exact h
  · rw [Function.update_of_ne hkey] at hk
    cases hk

theorem round_trips_stamped : RoundTrips (stamped 5) := by
  refine (round_trips_iff (typed_stamped (by decide))).2 ?_
  intro k v d hk
  rw [view_stamped] at hk
  by_cases hkey : k = lit "k"
  · subst hkey
    rw [Function.update_self] at hk
    cases hk
    decide
  · rw [Function.update_of_ne hkey] at hk
    cases hk

/-- The key is overdue ever since, and comes back for good. -/
theorem stamped_before_epoch : ¬ RoundTrips (stamped (-1)) := by
  intro hround
  have hcell := hround.at_epoch (typed_stamped (by decide)) (lit "k")
  rw [view_stamped, Function.update_self] at hcell
  revert hcell
  decide

end EpochKV.Snapshot

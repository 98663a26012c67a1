/-
What is in the log, whatever goes wrong when it is written.

A flush moves bytes from the buffer to the end of the open file. If a write stops half way,
what got out is cut off again, or, if that fails too, it stays and leaves the buffer; either
way the file and the buffer side by side are what they were (`Moved`). Only a flush that
emptied the buffer lets a rewrite go on to the next file, so every file but the last ends
with a command.
-/
import EpochKV.Aof

set_option autoImplicit false

namespace EpochKV.Aof

open Text Resp

/-- The commands as they are logged. -/
def encode (cmds : List Args) : Bytes := cmds.flatMap command

theorem encode_append (a b : List Args) : encode (a ++ b) = encode a ++ encode b :=
  List.flatMap_append

/-! ## One flush -/

variable {written : Nat} {fd : Option Nat} {c : Bytes} {io : Io} {older : List Nat}

theorem write_all_le {len : Nat} (calls : List WriteResult) (h : written ≤ len) :
    (write_all len calls written).1 ≤ len := by
  induction calls generalizing written with
  | nil => exact le_rfl
  | cons call calls ih =>
    unfold write_all
    split
    · exact h
    cases call with
    | wrote n => exact ih (by omega)
    | eintr => exact ih h
    | error e => exact h

/-- Bytes go from the front of the buffer to the end of the open file, and nothing else
moves. -/
structure Moved (a a' : Aof) : Prop where
  incrs : a'.incrs = a.incrs
  fd : a'.fd = a.fd
  next_seq : a'.next_seq = a.next_seq
  base : a'.base = a.base
  manifest : a'.dir.manifest = a.dir.manifest
  other : ∀ n, a.fd ≠ some n → a'.dir.incr n = a.dir.incr n
  current : ∀ n c, a.fd = some n → a.dir.incr n = some c → c.length = a.incr_bytes →
    ∃ c', a'.dir.incr n = some c' ∧ c' ++ a'.buf = c ++ a.buf ∧ c'.length = a'.incr_bytes

variable {a a' a'' : Aof}

/-- Neither the files nor the buffer change. -/
theorem Moved.still (hincrs : a'.incrs = a.incrs) (hfd : a'.fd = a.fd)
    (hseq : a'.next_seq = a.next_seq) (hbase : a'.base = a.base) (hdir : a'.dir = a.dir)
    (hbuf : a'.buf = a.buf) (hbytes : a'.incr_bytes = a.incr_bytes) : Moved a a' where
  incrs := hincrs
  fd := hfd
  next_seq := hseq
  base := hbase
  manifest := by rw [hdir]
  other n _ := by rw [hdir]
  current n c _ hc hlen := ⟨c, by rw [hdir, hc], by rw [hbuf], by rw [hbytes, hlen]⟩

theorem Moved.trans (h : Moved a a') (h' : Moved a' a'') : Moved a a'' where
  incrs := h'.incrs.trans h.incrs
  fd := h'.fd.trans h.fd
  next_seq := h'.next_seq.trans h.next_seq
  base := h'.base.trans h.base
  manifest := h'.manifest.trans h.manifest
  other n hn := (h'.other n (h.fd ▸ hn)).trans (h.other n hn)
  current n c hn hc hlen := by
    obtain ⟨c', hc', htext', hlen'⟩ := h.current n c hn hc hlen
    obtain ⟨c'', hc'', htext'', hlen''⟩ := h'.current n c' (h.fd ▸ hn) hc' hlen'
    exact ⟨c'', hc'', htext''.trans htext', hlen''⟩

variable {d : Dir} {n : Nat}

theorem append_other (h : fd ≠ some n) (data : Bytes) : (d.append fd data).incr n = d.incr n := by
  cases fd with
  | none => rfl
  | some m => exact Function.update_of_ne (fun he => h (congrArg some he.symm)) _ _

theorem manifest_append (d : Dir) (fd : Option Nat) (data : Bytes) :
    (d.append fd data).manifest = d.manifest := by
  cases fd <;> rfl

theorem manifest_truncate (d : Dir) (fd : Option Nat) (size : Nat) :
    (d.truncate fd size).manifest = d.manifest := by
  cases fd <;> rfl

theorem append_current (h : d.incr n = some c) (data : Bytes) :
    (d.append (some n) data).incr n = some (c ++ data) := by
  refine (Function.update_self _ _ _).trans ?_
  rw [h, Option.map_some]

theorem truncate_other (h : fd ≠ some n) (size : Nat) : (d.truncate fd size).incr n = d.incr n := by
  cases fd with
  | none => rfl
  | some m => exact Function.update_of_ne (fun he => h (congrArg some he.symm)) _ _

/-- Cutting off what was appended. -/
theorem resize_append (c data : Bytes) : Dir.resize (c ++ data) c.length = c := by
  rw [Dir.resize, List.take_left, List.length_append, Nat.sub_eq_zero_of_le (Nat.le_add_right _ _)]
  exact List.append_nil c

theorem truncate_append {size : Nat} (h : d.incr n = some c) (hlen : c.length = size) (data : Bytes) :
    ((d.append (some n) data).truncate (some n) size).incr n = some c := by
  refine (Function.update_self _ _ _).trans ?_
  rw [append_current h, Option.map_some, ← hlen, resize_append]

theorem moved_full_write (a : Aof) : Moved a a.full_write where
  incrs := rfl
  fd := rfl
  next_seq := rfl
  base := rfl
  manifest := manifest_append _ _ _
  other n hn := append_other hn _
  current n c hn hc hlen := by
    refine ⟨c ++ a.buf, ?_, List.append_nil _, ?_⟩
    · show (a.dir.append a.fd a.buf).incr n = _
      rw [hn, append_current hc]
    · show (c ++ a.buf).length = a.incr_bytes + a.buf.length
      rw [List.length_append, hlen]

theorem moved_short_write (a : Aof) (hw : written ≤ a.buf.length) (errno : Option Errno) (io : Io) :
    Moved a (a.short_write written errno io) := by
  have happend := manifest_append a.dir a.fd (a.buf.take written)
  rw [short_write]
  split
  case isFalse hnone =>
    -- nothing got out
    have hzero : written = 0 := by omega
    refine ⟨rfl, rfl, rfl, rfl, happend, fun n hn => append_other hn _, fun n c hn hc hlen => ?_⟩
    refine ⟨c, ?_, rfl, hlen⟩
    show (a.dir.append a.fd (a.buf.take written)).incr n = _
    rw [hn, append_current hc, hzero, List.take_zero, List.append_nil]
  case isTrue =>
    cases io.ftruncate with
    | none =>
      refine ⟨rfl, rfl, rfl, rfl, (manifest_truncate _ _ _).trans happend, fun n hn => ?_,
        fun n c hn hc hlen => ⟨c, ?_, rfl, hlen⟩⟩
      · exact (truncate_other hn _).trans (append_other hn _)
      · show ((a.dir.append a.fd (a.buf.take written)).truncate a.fd a.incr_bytes).incr n = _
        rw [hn, truncate_append hc hlen]
    | some e =>
      refine ⟨rfl, rfl, rfl, rfl, happend, fun n hn => append_other hn _, fun n c hn hc hlen => ?_⟩
      refine ⟨c ++ a.buf.take written, ?_, ?_, ?_⟩
      · show (a.dir.append a.fd (a.buf.take written)).incr n = _
        rw [hn, append_current hc]
      · show (c ++ a.buf.take written) ++ a.buf.drop written = c ++ a.buf
        rw [List.append_assoc, List.take_append_drop]
      · show (c ++ a.buf.take written).length = a.incr_bytes + written
        rw [List.length_append, List.length_take_of_le hw, hlen]

theorem moved_write_buf (a : Aof) (io : Io) : Moved a (a.write_buf io).2 := by
  rw [write_buf]
  split
  · exact moved_short_write a (write_all_le _ (Nat.zero_le _)) _ io
  split
  · cases io.group_sync with
    | none | some => exact (moved_full_write a).trans (.still rfl rfl rfl rfl rfl rfl rfl)
  · exact moved_full_write a

/-- A write that is reported to have succeeded was one of everything. -/
theorem buf_write_buf (h : (a.write_buf io).1 = true) : (a.write_buf io).2.buf = [] := by
  rw [write_buf] at h ⊢
  split at h
  · simp at h
  next hlong =>
  rw [if_neg hlong]
  split
  · cases io.group_sync <;> rfl
  · rfl

theorem moved_submit (a : Aof) (now : Time) : Moved a (a.submit now) ∧ (a.submit now).buf = a.buf := by
  rw [submit]
  dsimp only
  split
  · split <;> exact ⟨.still rfl rfl rfl rfl rfl rfl rfl, rfl⟩
  · exact ⟨.still rfl rfl rfl rfl rfl rfl rfl, rfl⟩

theorem moved_flush (a : Aof) (io : Io) :
    Moved a (a.flush io).2 ∧ ((a.flush io).1 = true → (a.flush io).2.buf = []) := by
  rw [flush]
  dsimp only
  split
  case isTrue hnil =>
    obtain ⟨hmoved, hbuf⟩ := moved_submit a io.now
    exact ⟨hmoved, fun _ => hbuf.trans hnil⟩
  case isFalse =>
    have hwrite := moved_write_buf a io
    split
    case isTrue hok =>
      obtain ⟨hmoved, hbuf⟩ := moved_submit (a.write_buf io).2 io.now
      exact ⟨hwrite.trans hmoved, fun _ => hbuf.trans (buf_write_buf hok)⟩
    case isFalse => exact ⟨hwrite, nofun⟩

theorem moved_wait_idle (a : Aof) (result : Option Errno) :
    Moved a (a.wait_idle result) ∧ (a.wait_idle result).buf = a.buf := by
  rw [wait_idle]
  split <;> exact ⟨.still rfl rfl rfl rfl rfl rfl rfl, rfl⟩

theorem moved_flush_and_sync (a : Aof) (io : Io) :
    Moved a (a.flush_and_sync io).2
      ∧ ((a.flush_and_sync io).1 = true → (a.flush_and_sync io).2.buf = []) := by
  obtain ⟨hflush, hbuf⟩ := moved_flush a io
  obtain ⟨hwait, hsame⟩ := moved_wait_idle (a.flush io).2 io.background
  rw [flush_and_sync]
  split
  case isTrue => exact ⟨hflush, nofun⟩
  case isFalse hok =>
    have hempty := hsame.trans (hbuf (by rwa [Bool.not_eq_false] at hok))
    cases io.fdatasync with
    | none => exact ⟨(hflush.trans hwait).trans (.still rfl rfl rfl rfl rfl rfl rfl), fun _ => hempty⟩
    | some e => exact ⟨(hflush.trans hwait).trans (.still rfl rfl rfl rfl rfl rfl rfl), nofun⟩

/-! ## The whole log -/

/-- The log is that of `parts`, a list of commands for each file but the last, and then
`current`, which begins in the last file and may end in the buffer. -/
structure Holds (a : Aof) (parts : List (List Args)) (current : List Args) : Prop where
  files : ∃ older n c, a.incrs = older ++ [n] ∧ a.fd = some n ∧ n ∉ older
    ∧ older.map a.dir.incr = parts.map (fun cmds => some (encode cmds))
    ∧ a.dir.incr n = some c ∧ c ++ a.buf = encode current ∧ c.length = a.incr_bytes
  fresh : ∀ n ∈ a.incrs, n < a.next_seq

variable {parts : List (List Args)} {current : List Args}

section

variable (h : a.Holds parts current)
include h

theorem Holds.moved (hm : Moved a a') : a'.Holds parts current := by
  obtain ⟨⟨older, n, c, hincrs, hfd, hnot, holder, hc, htext, hlen⟩, hfresh⟩ := h
  obtain ⟨c', hc', htext', hlen'⟩ := hm.current n c hfd hc hlen
  refine ⟨⟨older, n, c', hm.incrs.trans hincrs, hm.fd.trans hfd, hnot, ?_, hc', htext'.trans htext,
    hlen'⟩, ?_⟩
  · rw [← holder]
    refine List.map_congr_left fun m hmem => hm.other m ?_
    rintro hfd'
    rw [hfd] at hfd'
    exact hnot (Option.some.inj hfd' ▸ hmem)
  · rw [hm.incrs, hm.next_seq]
    exact hfresh

/-- The files, once it is known which they are. -/
theorem Holds.files_eq (hincrs : a.incrs = older ++ [n]) (hbuf : a.buf = []) :
    a.dir.incr n = some (encode current)
      ∧ older.map a.dir.incr = parts.map fun cmds => some (encode cmds) := by
  obtain ⟨⟨older', n', c, hincrs', -, -, holder, hc, htext, -⟩, -⟩ := h
  obtain ⟨rfl, hlast⟩ := List.append_inj' (hincrs.symm.trans hincrs') rfl
  cases hlast
  rw [hbuf, List.append_nil] at htext
  exact ⟨htext ▸ hc, holder⟩

theorem Holds.feed (argv : Args) : (a.feed argv).Holds parts (current ++ [argv]) := by
  obtain ⟨⟨older, n, c, hincrs, hfd, hnot, holder, hc, htext, hlen⟩, hfresh⟩ := h
  refine ⟨⟨older, n, c, hincrs, hfd, hnot, holder, hc, ?_, hlen⟩, hfresh⟩
  show c ++ (a.buf ++ command argv) = _
  rw [← List.append_assoc, htext, encode_append]
  exact congrArg (encode current ++ ·) (List.append_nil _).symm

/-- What happens to the directory between the files that are known is of no account. -/
theorem Holds.dir (hd : ∀ n ∈ a.incrs, d.incr n = a.dir.incr n) :
    Holds { a with dir := d } parts current := by
  obtain ⟨⟨older, n, c, hincrs, hfd, hnot, holder, hc, htext, hlen⟩, hfresh⟩ := h
  have hmem : n ∈ a.incrs := by
    rw [hincrs]
    exact List.mem_append_right _ List.mem_cons_self
  refine ⟨⟨older, n, c, hincrs, hfd, hnot, ?_, (hd n hmem).trans hc, htext, hlen⟩, hfresh⟩
  rw [← holder]
  refine List.map_congr_left fun m hm => hd m ?_
  rw [hincrs]
  exact List.mem_append_left _ hm

omit h in
theorem incr_persist_manifest (d : Dir) (base : Option Nat) (incrs : List Nat) (io : Io) :
    (persist_manifest d base incrs io).2.incr = d.incr := by
  rw [persist_manifest]
  cases io.manifest <;> rfl

/-- **A rewrite** that begins closes the part; one that does not leaves the log as it is. -/
theorem Holds.begin_rewrite (io : Io) :
    ((a.begin_rewrite io).1 = none ∧ (a.begin_rewrite io).2.Holds (parts ++ [current]) [])
      ∨ (a.begin_rewrite io).2.Holds parts current := by
  obtain ⟨hmoved, hbuf⟩ := moved_flush_and_sync a io
  have hflushed := h.moved hmoved
  rw [Aof.begin_rewrite]
  split
  · exact Or.inr hflushed
  next hok =>
  have hempty := hbuf (by rwa [Bool.not_eq_false] at hok)
  generalize (a.flush_and_sync io).2 = b at hflushed hempty
  cases io.open_incr with
  | some e => exact Or.inr hflushed
  | none =>
    -- the new number is that of no file of the log
    have hnew : b.next_seq ∉ b.incrs := fun hin => lt_irrefl _ (hflushed.fresh _ hin)
    have hincr := incr_persist_manifest (b.dir.create_incr b.next_seq) b.base
      (b.incrs ++ [b.next_seq]) io
    have hne : ∀ m ∈ b.incrs, m ≠ b.next_seq := fun m hm he => hnew (he ▸ hm)
    have hcreate : ∀ m ∈ b.incrs, (b.dir.create_incr b.next_seq).incr m = b.dir.incr m :=
      fun m hm => Function.update_of_ne (hne m hm) _ _
    dsimp only
    split
    case h_1 error _ =>
      refine Or.inr (hflushed.dir fun m hm => ?_)
      split
      · refine (Function.update_of_ne (hne m hm) _ _).trans ?_
        rw [hincr, hcreate m hm]
      · rw [hincr, hcreate m hm]
    case h_2 =>
      obtain ⟨⟨older, n, c, hincrs, hfd, hnot, holder, hc, htext, hlen⟩, hfresh⟩ := hflushed
      rw [hempty, List.append_nil] at htext
      refine Or.inl ⟨rfl, ⟨b.incrs, b.next_seq, [], rfl, rfl, hnew, ?_, ?_, ?_, rfl⟩, ?_⟩
      · show b.incrs.map (persist_manifest _ _ _ io).2.incr = _
        rw [hincr, List.map_congr_left hcreate, hincrs, List.map_append, holder, List.map_append,
          List.map_singleton, List.map_singleton, hc, htext]
      · show (persist_manifest _ _ _ io).2.incr _ = _
        rw [hincr]
        exact Function.update_self _ _ _
      · rw [hempty]
        rfl
      · intro m hm
        rcases List.mem_append.1 hm with hm | hm
        · exact Nat.lt_succ_of_lt (hfresh m hm)
        · rw [List.mem_singleton.1 hm]
          exact Nat.lt_succ_self _

/-! ## Runs -/

inductive Op where
  | feed (argv : Args)
  | flush (io : Io)
  | flush_and_sync (io : Io)
  | begin_rewrite (io : Io)
  /-- The background thread goes on. -/
  | thread (result : Option Errno)

def step (a : Aof) : Op → Aof
  | .feed argv => a.feed argv
  | .flush io => (a.flush io).2
  | .flush_and_sync io => (a.flush_and_sync io).2
  | .begin_rewrite io => (a.begin_rewrite io).2
  | .thread result => { a with fsync_worker := a.fsync_worker.run result }

/-- The commands fed, in order. -/
def fed (ops : List Op) : List Args :=
  ops.filterMap fun
    | .feed argv => some argv
    | _ => none

omit h in
theorem fed_cons (op : Op) (ops : List Op) : fed (op :: ops) = fed [op] ++ fed ops := by
  cases op <;> rfl

/-- One step: the log goes on with what was fed. -/
theorem holds_step (op : Op) : ∃ parts' current', (a.step op).Holds parts' current' ∧
      parts'.flatten ++ current' = parts.flatten ++ current ++ fed [op] := by
  cases op with
  | feed argv => exact ⟨_, _, h.feed argv, (List.append_assoc _ _ _).symm⟩
  | flush io => exact ⟨_, _, h.moved (moved_flush a io).1, (List.append_nil _).symm⟩
  | flush_and_sync io => exact ⟨_, _, h.moved (moved_flush_and_sync a io).1, (List.append_nil _).symm⟩
  | thread result => exact ⟨_, _, h.moved (.still rfl rfl rfl rfl rfl rfl rfl), (List.append_nil _).symm⟩
  | begin_rewrite io =>
    rcases h.begin_rewrite io with ⟨-, hnext⟩ | hsame
    · refine ⟨_, _, hnext, ?_⟩
      rw [List.flatten_append, List.flatten_singleton, List.append_nil]
      exact (List.append_nil _).symm
    · exact ⟨_, _, hsame, (List.append_nil _).symm⟩

theorem holds_run (ops : List Op) : ∃ parts' current', (ops.foldl step a).Holds parts' current' ∧
      parts'.flatten ++ current' = parts.flatten ++ current ++ fed ops := by
  induction ops generalizing a parts current with
  | nil => exact ⟨_, _, h, (List.append_nil _).symm⟩
  | cons op ops ih =>
    obtain ⟨parts₁, current₁, h₁, hlog₁⟩ := holds_step h op
    obtain ⟨parts₂, current₂, h₂, hlog₂⟩ := ih h₁
    refine ⟨parts₂, current₂, h₂, ?_⟩
    rw [hlog₂, hlog₁, fed_cons op ops, List.append_assoc (parts.flatten ++ current)]

/-! ## The manifest -/

/-- The manifest on disk is that of the base and the incr files in use. -/
def Listed (a : Aof) : Prop := a.dir.manifest = some (entries a.base a.incrs)

omit h in
theorem Listed.moved (h : a.Listed) (hm : Moved a a') : a'.Listed := by
  rw [Listed, hm.manifest, hm.base, hm.incrs]
  exact h

/-- No manifest is renamed into place by a step that then reports an error: the directory
can be synced. -/
def Op.Durable : Op → Prop
  | .begin_rewrite io => ∀ e, io.manifest ≠ .renamed e
  | _ => True

omit h in
theorem Listed.step (h : a.Listed) {op : Op} (hop : op.Durable) : (a.step op).Listed := by
  cases op with
  | feed argv => exact h
  | flush io => exact h.moved (moved_flush a io).1
  | flush_and_sync io => exact h.moved (moved_flush_and_sync a io).1
  | thread result => exact h
  | begin_rewrite io =>
    have hflushed := h.moved (moved_flush_and_sync a io).1
    show (a.begin_rewrite io).2.Listed
    rw [Aof.begin_rewrite]
    split
    · exact hflushed
    generalize (a.flush_and_sync io).2 = b at hflushed
    cases io.open_incr with
    | some e => exact hflushed
    | none =>
      dsimp only
      rw [persist_manifest]
      cases hm : io.manifest with
      | done => exact rfl
      | renamed e => exact absurd hm (hop e)
      | failed e =>
        dsimp only
        split <;> exact hflushed

omit h in
theorem Listed.run (h : a.Listed) (ops : List Op) (hops : ∀ op ∈ ops, op.Durable) :
    (ops.foldl Aof.step a).Listed := by
  induction ops generalizing a with
  | nil => exact h
  | cons op ops ih =>
    rw [List.forall_mem_cons] at hops
    exact ih (h.step hops.1) hops.2

/-! ## From outside -/

/-- The bytes of an incr file. -/
def content (a : Aof) (n : Nat) : Bytes := (a.dir.incr n).getD []

/-- A log that is open, with nothing in the buffer: the incr files of the manifest hold
`log`, every one of them whole commands. -/
def Opened (a : Aof) (log : List Args) : Prop :=
  a.Listed ∧ ∃ parts current, a.Holds parts current ∧ a.buf = [] ∧ log = parts.flatten ++ current

omit h in
/-- A log that was just created. -/
theorem opened_create {store : Store} (hbuf : a.buf = []) (h : (a.create store io).1 = none) :
    (a.create store io).2.Opened [] := by
  rw [create] at h ⊢
  cases hm : io.mkdir with
  | some e => simp [hm] at h
  | none =>
  cases hs : io.save_base with
  | failed | renamed => simp [hm, hs] at h
  | done =>
  cases ho : io.open_incr with
  | some e => simp [hm, hs, ho] at h
  | none =>
  simp only [hm, hs, ho] at h ⊢
  cases hp : io.manifest with
  | failed | renamed => simp [persist_manifest, hp] at h
  | done =>
    simp only [persist_manifest, hp]
    refine ⟨rfl, [], [], ⟨⟨[], a.next_seq + 1, [], rfl, rfl, List.not_mem_nil, rfl, ?_, hbuf, rfl⟩, ?_⟩,
      hbuf, rfl⟩
    · exact Function.update_self _ _ _
    · intro n hn
      rw [List.mem_singleton.1 hn]
      exact Nat.lt_succ_self _

omit h in
/-- The files up to one that is not the last. -/
theorem take_map_parts {f : Nat → Option Bytes}
    (h : older.map f = parts.map fun cmds => some (encode cmds)) (k : Nat) :
    (older.take k).flatMap (fun n => (f n).getD []) = encode (parts.take k).flatten := by
  induction k generalizing older parts with
  | zero => rfl
  | succ k ih =>
    cases older with
    | nil =>
      have hnil : parts = [] := List.map_eq_nil_iff.1 h.symm
      rw [hnil]
      rfl
    | cons n older =>
      cases parts with
      | nil => simp at h
      | cons cmds parts =>
        simp only [List.map_cons, List.cons.injEq] at h
        rw [List.take_succ_cons, List.take_succ_cons, List.flatMap_cons, h.1, ih h.2,
          List.flatten_cons, encode_append]
        rfl

/-- The files and the buffer, side by side. -/
theorem Holds.text : a.incrs.flatMap a.content ++ a.buf = encode (parts.flatten ++ current) := by
  obtain ⟨⟨older, n, c, hincrs, -, -, holder, hc, htext, -⟩, -⟩ := h
  have hcount : parts.length = older.length := by
    have := congrArg List.length holder
    rwa [List.length_map, List.length_map, eq_comm] at this
  have hall := take_map_parts holder older.length
  rw [List.take_length, ← hcount, List.take_length] at hall
  calc a.incrs.flatMap a.content ++ a.buf
      = older.flatMap a.content ++ (a.content n ++ a.buf) := by
        rw [hincrs, List.flatMap_append, List.flatMap_singleton, List.append_assoc]
    _ = encode parts.flatten ++ (c ++ a.buf) := by
        rw [content, hc]
        exact congrArg (· ++ (c ++ a.buf)) hall
    _ = encode (parts.flatten ++ current) := by rw [htext, encode_append]

theorem Holds.size :
    ∃ n, a.fd = some n ∧ a.incrs.getLast? = some n ∧ (a.content n).length = a.incr_bytes := by
  obtain ⟨⟨older, n, c, hincrs, hfd, -, -, hc, -, hlen⟩, -⟩ := h
  refine ⟨n, hfd, ?_, ?_⟩
  · rw [hincrs]
    exact List.getLast?_concat
  · rw [content, hc]
    exact hlen

/-- The files up to one that is not the last hold the first so many commands. -/
theorem Holds.boundary {before after : List Nat} {m : Nat}
    (hsplit : a.incrs = before ++ m :: after) (hafter : after ≠ []) :
    ∃ k, (before ++ [m]).flatMap a.content = encode ((parts.flatten ++ current).take k) := by
  obtain ⟨⟨older, n, c, hincrs, -, -, holder, -⟩, -⟩ := h
  -- the file is one of the older ones
  obtain ⟨rest, last, rfl⟩ := (List.eq_nil_or_concat after).resolve_left hafter
  have holder_eq : older = before ++ m :: rest := by
    have heq := hincrs.symm.trans hsplit
    rw [List.concat_eq_append, ← List.cons_append, ← List.append_assoc] at heq
    exact List.append_inj_left' heq rfl
  have htake : older.take (before.length + 1) = before ++ [m] := by
    rw [holder_eq, List.take_append, List.take_of_length_le (Nat.le_succ _),
      Nat.add_sub_cancel_left, List.take_succ_cons, List.take_zero]
  have hfiles := take_map_parts holder (before.length + 1)
  rw [htake] at hfiles
  -- and so are the parts up to it
  have hparts : parts.flatten ++ current = (parts.take (before.length + 1)).flatten
      ++ ((parts.drop (before.length + 1)).flatten ++ current) := by
    rw [← List.append_assoc, ← List.flatten_append, List.take_append_drop]
  refine ⟨(parts.take (before.length + 1)).flatten.length, ?_⟩
  rw [hparts, List.take_left]
  exact hfiles

end

/-- **The log is intact, whatever fails.** After any calls of `feed`, `flush`,
`flush_and_sync` and `begin_rewrite`, with writes that are short or fail and truncations
that fail, at any point: the bytes of the incr files, in order, and then the buffer are the
encodings of all the commands fed since the base; `incr_bytes` is the size of the file that
is open, the last one; and every other file ends where a command ends. The manifest on disk
lists these files, in this order, as long as no sync of the directory fails. -/
theorem log_is_intact {log : List Args} (h : a.Opened log) (ops : List Op) :
    let b := ops.foldl step a
    b.incrs.flatMap b.content ++ b.buf = (log ++ fed ops).flatMap command
      ∧ (∃ n, b.fd = some n ∧ b.incrs.getLast? = some n ∧ (b.content n).length = b.incr_bytes)
      ∧ (∀ before n after, b.incrs = before ++ n :: after → after ≠ [] →
          ∃ k, (before ++ [n]).flatMap b.content = ((log ++ fed ops).take k).flatMap command)
      ∧ ((∀ op ∈ ops, op.Durable) → b.dir.manifest = some (entries b.base b.incrs)) := by
  obtain ⟨hlisted, parts, current, hholds, -, rfl⟩ := h
  obtain ⟨parts', current', hrun, hlog⟩ := holds_run hholds ops
  intro b
  rw [← hlog]
  exact ⟨hrun.text, hrun.size, fun before n after hsplit hafter => hrun.boundary hsplit hafter,
    Listed.run hlisted ops⟩

/-- A write stops after three bytes that cannot be cut off again, a rewrite fails to begin,
and the next one begins. -/
def mishaps : List Op :=
  [.feed [lit "SET", lit "k", lit "v"],
    .flush { writes := [.wrote 3, .error (lit "No space left on device")],
             ftruncate := some (lit "Input/output error") },
    .feed [lit "DEL", lit "k"],
    .begin_rewrite { writes := [.error (lit "No space left on device")] },
    .begin_rewrite {},
    .feed [lit "SET", lit "k", lit "w"]]

/-- A log that was just created, for no data. -/
def created : Option Bytes × Aof := create { policy := .kAlways } { clock := fun _ => 0 } {}

theorem log_is_intact_mishaps :
    let b := mishaps.foldl step created.2
    b.incrs.flatMap b.content ++ b.buf = (fed mishaps).flatMap command ∧ b.incrs = [2, 3] := by
  have hopen : created.2.Opened [] := opened_create rfl (by decide +kernel)
  exact ⟨(log_is_intact hopen mishaps).1, by decide +kernel⟩

end EpochKV.Aof

/-
Reading the log back (`AppendOnlyFile::load`).

A file is read in pieces of at most 4096 bytes, which need not end where a command ends, and
every piece is given to the parser of the network side. What counts is how many bytes the
commands take that were read so far: a crash may have left half a command behind them, and
that is cut off, but only from the last file.

The callback that runs a command is known by the list of its calls.
-/
import EpochKV.Parser
import EpochKV.Aof.Log

set_option autoImplicit false

namespace EpochKV.Aof

open Text Resp

def kLoadChunkSize : Nat := 4096

/-- One call of `read`. At the end of the file it returns nothing. -/
inductive ReadResult where
  | got (n : Nat)
  | eintr
  | error (errno : Errno)

/-- What becomes of the system calls of `load`. -/
structure LoadIo where
  open_manifest : Option Errno := none
  open_base : Option Errno := none
  read_base : Option Errno := none
  open_incr : Nat → Option Errno := fun _ => none
  /-- The calls of `read`, for each incr file; those not listed return as much as they may. -/
  reads : Nat → List ReadResult := fun _ => []
  truncate : Option Errno := none
  open_append : Option Errno := none

/-! ## One file -/

/-- Full pieces up to the end of the file. -/
def full_reads : Nat → Bytes → List Bytes
  | 0, _ => []
  | fuel + 1, rest =>
    if rest = [] then []
    else rest.take kLoadChunkSize :: full_reads fuel (rest.drop kLoadChunkSize)

/-- The pieces that are read, and the error that ended it. -/
def read_pieces : List ReadResult → Bytes → List Bytes × Option Errno
  | [], rest => (full_reads rest.length rest, none)
  | .got n :: calls, rest =>
    if rest = [] then ([], none)
    else
      let len := max 1 (min n kLoadChunkSize)
      let more := read_pieces calls (rest.drop len)
      (rest.take len :: more.1, more.2)
  | .eintr :: calls, rest => read_pieces calls rest
  | .error e :: _, _ => ([], some e)

/-- The locals of `replay_incr`. -/
structure Replay where
  /-- Bytes the parser has not consumed. -/
  buffer : Bytes := []
  fed : Nat := 0
  /-- Length of the front that is made of complete commands. -/
  valid_bytes : Nat := 0
  replayed : List Args := []
  corrupt : Bool := false

/-- One round of the loop. The calls of the parser are those of `drain`; after each command
`valid_bytes` is set, so the last one decides. -/
def Replay.piece (r : Replay) (chunk : Bytes) : Replay :=
  -- a corrupt command has ended the loop
  if r.corrupt then r
  else
    let fed := r.fed + chunk.length
    let d := Parser.drain (r.buffer ++ chunk)
    { buffer := d.buffer
      fed := fed
      valid_bytes := if d.commands = [] then r.valid_bytes else fed - d.buffer.length
      replayed := r.replayed ++ d.commands.map Prod.fst
      corrupt := d.status = .protocol_error }

/-- What `load` has done so far. -/
structure Load where
  error : Option Bytes := none
  replayed : List Args := []
  store : Store
  aof : Aof

namespace Load

def fail (l : Load) (error : Bytes) : Load := { l with error := some error }

/-- The bytes of a file that was replayed. -/
def count (l : Load) (is_last : Bool) (bytes : Nat) : Load :=
  if is_last then { l with aof := { l.aof with incr_bytes := l.aof.incr_bytes + bytes } }
  else { l with aof := { l.aof with older_incr_bytes := l.aof.older_incr_bytes + bytes } }

/-- The end of `replay_incr`: half a command may be left. -/
def finish (l : Load) (n : Nat) (is_last : Bool) (r : Replay) (truncate : Option Errno) : Load :=
  let file_path := join l.aof.path (incr_name n)
  if r.buffer = [] then l.count is_last r.valid_bytes
  else if is_last = false then
    l.fail (file_path ++ lit ": truncated command at byte offset " ++ to_string r.valid_bytes)
  else
    match truncate with
    | some e => l.fail (file_path ++ lit ": truncate: " ++ e)
    | none =>
      let dir := l.aof.dir.truncate (some n) r.valid_bytes
      { l with aof := { l.aof with dir := dir } }.count is_last r.valid_bytes

def replay_incr (l : Load) (io : LoadIo) (n : Nat) (is_last : Bool) : Load :=
  let file_path := join l.aof.path (incr_name n)
  match l.aof.dir.incr n, io.open_incr n with
  | none, _ => l.fail (file_path ++ lit ": No such file or directory")
  | some _, some e => l.fail (file_path ++ lit ": " ++ e)
  | some content, none =>
    let pieces := read_pieces (io.reads n) content
    let r := pieces.1.foldl Replay.piece {}
    let l := { l with replayed := l.replayed ++ r.replayed }
    if r.corrupt then
      l.fail (file_path ++ lit ": corrupt command at byte offset " ++ to_string r.valid_bytes)
    else
      match pieces.2 with
      | some e => l.fail (file_path ++ lit ": " ++ e)
      | none => l.finish n is_last r io.truncate

/-- The loop over the incr files. -/
def replay_incrs (io : LoadIo) : List Nat → Load → Load
  | [], l => l
  | n :: rest, l =>
    let l := l.replay_incr io n rest.isEmpty
    if l.error = none then replay_incrs io rest l else l

end Load

/-! ## The manifest and the base -/

/-- One line of the manifest. -/
def read_entry (a : Aof) (entry : FileEntry) : Option Bytes × Aof :=
  let next_seq := max a.next_seq (entry.seq + 1)
  if entry.is_base then
    if a.base ≠ none ∨ a.incrs ≠ [] then
      (some (lit "AOF manifest: the base file must be listed once, first"), a)
    else (none, { a with base := some entry.seq, next_seq := next_seq })
  else (none, { a with incrs := a.incrs ++ [entry.seq], next_seq := next_seq })

def read_entries (a : Aof) : List FileEntry → Option Bytes × Aof
  | [] =>
    if a.incrs = [] then (some (lit "AOF manifest lists no incr file"), a) else (none, a)
  | entry :: rest =>
    let r := a.read_entry entry
    if r.1 = none then read_entries r.2 rest else r

/-- `read_manifest`, on a manifest whose lines are entries already. The text of a line (`file
NAME seq N type b`) is not modelled, nor the error for one that is malformed. -/
def read_manifest (a : Aof) (io : LoadIo) : Option Bytes × Aof :=
  let file_path := join a.path kManifestName
  match a.dir.manifest, io.open_manifest with
  | none, _ => (some (file_path ++ lit ": No such file or directory"), a)
  | some _, some e => (some (file_path ++ lit ": " ++ e), a)
  | some manifest, none => a.read_entries manifest

/-- `snapshot::load` of the base, if the manifest has one. -/
def load_base (a : Aof) (store : Store) (io : LoadIo) : Load :=
  match a.base with
  | none => { store := store, aof := a }
  | some n =>
    let l : Load := { store := store, aof := a }
    let base_path := join a.path (base_name n)
    match a.dir.base n, io.open_base with
    | none, _ => l.fail (base_path ++ lit ": listed in the manifest but missing")
    | some _, some e => l.fail (base_path ++ lit ": " ++ e)
    | some bytes, none =>
      let r := Snapshot.load_from ⟨bytes, io.read_base⟩ store
      match r.1 with
      | some reason => { l with store := r.2 }.fail (base_path ++ lit ": " ++ reason)
      | none => { store := r.2, aof := { a with base_bytes := bytes.length } }

/-- The incr file is opened again, for appending. -/
def open_last (l : Load) (io : LoadIo) : Load :=
  let last := l.aof.incrs.getLast?
  match io.open_append with
  | some e => l.fail (join l.aof.path (incr_name (last.getD 0)) ++ lit ": " ++ e)
  | none =>
    let a := { l.aof with fd := last }
    { l with aof := { a with size_after_rewrite := a.current_size } }

def load (a : Aof) (store : Store) (io : LoadIo) : Load :=
  let m := a.read_manifest io
  match m.1 with
  | some error => { error := some error, store := store, aof := m.2 }
  | none =>
    let l := m.2.load_base store io
    if l.error ≠ none then l
    else
      let l := l.replay_incrs io m.2.incrs
      if l.error ≠ none then l else open_last l io

/-! ## Reading in pieces -/

theorem flatten_full_reads (fuel : Nat) (rest : Bytes) (h : rest.length ≤ fuel) :
    (full_reads fuel rest).flatten = rest := by
  induction fuel generalizing rest with
  | zero => exact (List.eq_nil_of_length_eq_zero (Nat.le_zero.1 h)).symm
  | succ fuel ih =>
    unfold full_reads
    split
    case isTrue hnil => exact hnil.symm
    case isFalse hne =>
      have hpos : 0 < rest.length := List.length_pos_iff.2 hne
      have hshort : (rest.drop kLoadChunkSize).length ≤ fuel := by
        rw [List.length_drop, kLoadChunkSize]
        omega
      rw [List.flatten_cons, ih _ hshort, List.take_append_drop]

/-- Calls that do not fail return the file, however short they are. -/
theorem read_pieces_ok {calls : List ReadResult} (h : ∀ e, ReadResult.error e ∉ calls)
    (rest : Bytes) : (read_pieces calls rest).1.flatten = rest ∧ (read_pieces calls rest).2 = none := by
  induction calls generalizing rest with
  | nil => exact ⟨flatten_full_reads _ rest le_rfl, rfl⟩
  | cons call calls ih =>
    have hcalls : ∀ e, ReadResult.error e ∉ calls := fun e he => h e (List.mem_cons_of_mem _ he)
    cases call with
    | eintr => exact ih hcalls rest
    | error e => exact absurd List.mem_cons_self (h e)
    | got n =>
      unfold read_pieces
      split
      case isTrue hnil => exact ⟨hnil.symm, rfl⟩
      case isFalse =>
        obtain ⟨hmore, hok⟩ := ih hcalls (rest.drop (max 1 (min n kLoadChunkSize)))
        refine ⟨?_, hok⟩
        rw [List.flatten_cons, hmore, List.take_append_drop]

/-- The locals after a file, or a part of one, was read. -/
def Replay.of (bytes : Bytes) : Replay :=
  let d := Parser.drain bytes
  { buffer := d.buffer
    fed := bytes.length
    valid_bytes := bytes.length - d.buffer.length
    replayed := d.commands.map Prod.fst
    corrupt := d.status = .protocol_error }

theorem length_drain (bytes : Bytes) : (Parser.drain bytes).buffer.length ≤ bytes.length := by
  have hlen := congrArg List.length (Parser.drain_ranges bytes)
  rw [List.length_append] at hlen
  omega

/-- One more piece is as if it had been there from the start. -/
theorem piece_of {bytes : Bytes} (h : (Replay.of bytes).corrupt = false) (chunk : Bytes) :
    (Replay.of bytes).piece chunk = Replay.of (bytes ++ chunk) := by
  have hfed := Parser.drain_append bytes chunk
  have hbuffer := length_drain bytes
  rw [Replay.piece, h, Replay.of, Replay.of, hfed, Parser.Drained.feed]
  dsimp only
  rw [if_neg (by decide), List.map_append, List.length_append]
  congr 1
  split
  case isFalse => rfl
  case isTrue hnone =>
    -- no command is complete yet, and all of the piece stays in the buffer
    have hall := Parser.drain_ranges ((Parser.drain bytes).buffer ++ chunk)
    rw [hnone, List.flatMap_nil, List.nil_append] at hall
    rw [hall, List.length_append]
    omega

theorem foldl_piece (chunks : List Bytes) (bytes : Bytes)
    (h : (Replay.of (bytes ++ chunks.flatten)).corrupt = false) :
    chunks.foldl Replay.piece (Replay.of bytes) = Replay.of (bytes ++ chunks.flatten) := by
  induction chunks generalizing bytes with
  | nil => rw [List.foldl_nil, List.flatten_nil, List.append_nil]
  | cons chunk chunks ih =>
    have hnot : (Replay.of bytes).corrupt = false := by
      apply decide_eq_false
      intro herror
      exact of_decide_eq_false h (Parser.drain_error_append herror _)
    rw [List.flatten_cons, ← List.append_assoc] at h ⊢
    rw [List.foldl_cons, piece_of hnot chunk, ih _ h]

theorem replay_of_nil : Replay.of [] = {} := by
  rw [Replay.of, Parser.drain_nil]
  rfl

/-! ## A file that was cut -/

/-- The commands that lie within the first `k` bytes. -/
def whole (k : Nat) : List Args → List Args
  | [] => []
  | c :: cmds =>
    if (command c).length ≤ k then c :: whole (k - (command c).length) cmds else []

/-- The cut falls inside a command. -/
def Inside (k : Nat) (cmds : List Args) : Prop :=
  ∃ before c after, cmds = before ++ c :: after
    ∧ (encode before).length < k ∧ k < (encode before).length + (command c).length

/-- A vector of strings. -/
def Typed (c : Args) : Prop := c.length < 2 ^ 64 ∧ ∀ arg ∈ c, arg.length < 2 ^ 64

instance (c : Args) : Decidable (Typed c) := inferInstanceAs (Decidable (_ ∧ _))

theorem encode_cons (c : Args) (cmds : List Args) : encode (c :: cmds) = command c ++ encode cmds :=
  List.flatMap_cons

variable {k : Nat} {cmds : List Args}

theorem whole_of_le (h : (encode cmds).length ≤ k) : whole k cmds = cmds := by
  induction cmds generalizing k with
  | nil => rfl
  | cons c cmds ih =>
    rw [encode_cons, List.length_append] at h
    rw [whole, if_pos (by omega), ih (by omega)]

variable {c : Args} {a : Aof} {incrs : List Nat}

theorem mem_of_mem_whole (h : c ∈ whole k cmds) : c ∈ cmds := by
  induction cmds generalizing k with
  | nil => exact h
  | cons d cmds ih =>
    rw [whole] at h
    split at h
    · rcases List.mem_cons.1 h with rfl | h
      · exact List.mem_cons_self
      · exact List.mem_cons_of_mem _ (ih h)
    · exact absurd h List.not_mem_nil

/-- Part of a command is no command, and no error. -/
theorem try_parse_part (hc : Typed c) (hk : k < (command c).length) :
    Parser.try_parse_command ((command c).take k) = .incomplete := by
  by_contra hverdict
  have hlater := Parser.try_parse_command_append hverdict ((command c).drop k)
  have hparse := Parser.try_parse_command_command hc.1 hc.2 []
  rw [List.append_nil] at hparse
  rw [List.take_append_drop, hparse] at hlater
  -- the verdict would have to be the whole command, with nothing behind it
  cases hr : Parser.try_parse_command ((command c).take k) with
  | incomplete => exact hverdict hr
  | protocol_error => simp [hr, Parser.Result.later] at hlater
  | complete d rest =>
    rw [hr, Parser.Result.later, Parser.Result.complete.injEq] at hlater
    have hnil := (List.append_eq_nil_iff.1 hlater.2.symm).2
    rw [List.drop_eq_nil_iff] at hnil
    omega

section

variable (h : ∀ c ∈ cmds, Typed c)
include h

theorem drain_cut (k : Nat) :
    (Parser.drain ((encode cmds).take k)).commands = (whole k cmds).map (fun c => (c, command c))
      ∧ (Parser.drain ((encode cmds).take k)).status = .incomplete := by
  induction cmds generalizing k with
  | nil =>
    rw [encode, List.flatMap_nil, List.take_nil, Parser.drain_nil]
    exact ⟨rfl, rfl⟩
  | cons c cmds ih =>
    obtain ⟨hc, hcmds⟩ := List.forall_mem_cons.1 h
    rw [encode_cons, whole]
    split
    case isTrue hle =>
      -- the command is there
      have hcall := Parser.call_complete
        (Parser.try_parse_command_command hc.1 hc.2 ((encode cmds).take (k - (command c).length)))
      rw [List.length_append, Nat.add_sub_cancel, List.take_left] at hcall
      obtain ⟨hcommands, hstatus⟩ := ih hcmds (k - (command c).length)
      rw [List.take_append, List.take_of_length_le hle,
        Parser.drain_complete (by rw [hcall]), hcall]
      refine ⟨?_, hstatus⟩
      rw [List.map_cons, hcommands]
    case isFalse hlt =>
      -- only part of it is
      have hshort : k < (command c).length := by omega
      have hcall : Parser.call ((command c).take k) = ⟨.incomplete, [], [], (command c).take k⟩ := by
        rw [Parser.call, try_parse_part hc hshort]
      rw [List.take_append_of_le_length hshort.le, Parser.drain_stop (by rw [hcall]; simp), hcall]
      exact ⟨rfl, rfl⟩

/-- What the cut leaves of a command is behind the whole ones. -/
theorem encode_whole (k : Nat) :
    encode (whole k cmds) ++ (Parser.drain ((encode cmds).take k)).buffer =
    (encode cmds).take k := by
  have hranges := Parser.drain_ranges ((encode cmds).take k)
  rw [(drain_cut h k).1, List.flatMap_map] at hranges
  exact hranges

theorem replay_of_cut (k : Nat) :
    (Replay.of ((encode cmds).take k)).valid_bytes = (encode (whole k cmds)).length
      ∧ (Replay.of ((encode cmds).take k)).replayed = whole k cmds
      ∧ (Replay.of ((encode cmds).take k)).corrupt = false := by
  obtain ⟨hcommands, hstatus⟩ := drain_cut h k
  refine ⟨?_, ?_, ?_⟩
  · have hlen := congrArg List.length (encode_whole h k)
    rw [List.length_append] at hlen
    show ((encode cmds).take k).length - (Parser.drain _).buffer.length = _
    omega
  · show (Parser.drain _).commands.map Prod.fst = _
    rw [hcommands, List.map_map]
    exact List.map_id _
  · apply decide_eq_false
    rw [hstatus]
    exact nofun

end

theorem inside_cons :
    Inside k (c :: cmds) ↔ (0 < k ∧ k < (command c).length)
      ∨ ((command c).length ≤ k ∧ Inside (k - (command c).length) cmds) := by
  constructor
  · rintro ⟨before, d, after, heq, hlow, hhigh⟩
    cases before with
    | nil =>
      rw [List.nil_append, List.cons.injEq] at heq
      rw [← heq.1, show (encode []).length = 0 from rfl, Nat.zero_add] at hhigh
      exact Or.inl ⟨hlow, hhigh⟩
    | cons b before =>
      rw [List.cons_append, List.cons.injEq] at heq
      rw [← heq.1, encode_cons, List.length_append] at hlow hhigh
      exact Or.inr ⟨by omega, before, d, after, heq.2, by omega, by omega⟩
  · rintro (⟨hpos, hlt⟩ | ⟨hle, before, d, after, rfl, hlow, hhigh⟩)
    · exact ⟨[], c, cmds, rfl, hpos, by rwa [show (encode []).length = 0 from rfl, Nat.zero_add]⟩
    · refine ⟨c :: before, d, after, rfl, ?_, ?_⟩
      · rw [encode_cons, List.length_append]
        omega
      · rw [encode_cons, List.length_append]
        omega

/-- The whole commands are all there is, unless the cut falls inside one. -/
theorem encode_whole_eq_iff : encode (whole k cmds) = (encode cmds).take k ↔ ¬ Inside k cmds := by
  induction cmds generalizing k with
  | nil =>
    refine iff_of_true ?_ ?_
    · rw [whole, encode, List.flatMap_nil, List.take_nil]
    · rintro ⟨before, c, after, heq, -⟩
      simp at heq
  | cons c cmds ih =>
    rw [inside_cons, whole, encode_cons]
    split
    -- the first command is whole: the cut is in one of the others, or in none
    case isTrue hle =>
      rw [encode_cons, List.take_append, List.take_of_length_le hle, List.append_cancel_left_eq, ih]
      constructor
      · rintro hnot (⟨-, hlt⟩ | ⟨-, hin⟩)
        · omega
        · exact hnot hin
      · rintro hnot hin
        exact hnot (Or.inr ⟨hle, hin⟩)
    -- the cut falls into the first, or before its first byte
    case isFalse hlt =>
      rw [List.take_append_of_le_length (by omega), eq_comm,
        show encode [] = [] from rfl, List.take_eq_nil_iff]
      have hne : command c ≠ [] := by
        rw [command, array_header]
        exact List.cons_ne_nil _ _
      constructor
      · rintro (hzero | hnil)
        · rintro (⟨hpos, -⟩ | ⟨hle, -⟩)
          · omega
          · omega
        · exact absurd hnil hne
      · intro hnot
        apply Or.inl
        by_contra hpos
        exact hnot (Or.inl ⟨by omega, by omega⟩)

/-! ## The loop over the files -/

/-- No call fails. Reads may still be short, or be interrupted. -/
structure LoadIo.Fine (io : LoadIo) : Prop where
  open_manifest : io.open_manifest = none
  open_base : io.open_base = none
  read_base : io.read_base = none
  open_incr : ∀ n, io.open_incr n = none
  reads : ∀ n e, ReadResult.error e ∉ io.reads n
  truncate : io.truncate = none
  open_append : io.open_append = none

variable {io : LoadIo} {l : Load} {n k : Nat} {cmds : List Args}

/-- `replay_incr` for a file that was cut. -/
theorem replay_incr_cut (hio : io.Fine) (h : ∀ c ∈ cmds, Typed c)
    (hfile : l.aof.dir.incr n = some ((encode cmds).take k)) (is_last : Bool) :
    l.replay_incr io n is_last
      = { l with replayed := l.replayed ++ whole k cmds }.finish n is_last
          (Replay.of ((encode cmds).take k)) none := by
  obtain ⟨hflat, hok⟩ := read_pieces_ok (hio.reads n) ((encode cmds).take k)
  obtain ⟨-, hreplayed, hcorrupt⟩ := replay_of_cut h k
  have hfold := foldl_piece (read_pieces (io.reads n) ((encode cmds).take k)).1 []
  rw [hflat, List.nil_append, replay_of_nil] at hfold
  rw [Load.replay_incr, hfile, hio.open_incr]
  dsimp only
  rw [hfold hcorrupt, hcorrupt, hreplayed, hok, hio.truncate]
  rfl

section

variable (h : ∀ c ∈ cmds, Typed c)
include h

/-- A file of whole commands is replayed. -/
theorem finish_whole (hnot : ¬ Inside k cmds) (l : Load) (is_last : Bool) :
    l.finish n is_last (Replay.of ((encode cmds).take k)) none
      = l.count is_last (encode (whole k cmds)).length := by
  have hall := encode_whole h k
  rw [← encode_whole_eq_iff.2 hnot, List.append_right_eq_self] at hall
  have hbuffer : (Replay.of ((encode cmds).take k)).buffer = [] := by
    rw [← encode_whole_eq_iff.2 hnot]
    exact hall
  rw [Load.finish, if_pos hbuffer, (replay_of_cut h k).1]

theorem buffer_ne_nil (hin : Inside k cmds) : (Replay.of ((encode cmds).take k)).buffer ≠ [] := by
  intro hnil
  have hall := encode_whole h k
  have hbuffer : (Parser.drain ((encode cmds).take k)).buffer = [] := hnil
  rw [hbuffer, List.append_nil, encode_whole_eq_iff] at hall
  exact hall hin

/-- The last file is left with its whole commands. -/
theorem finish_last (hfile : l.aof.dir.incr n = some ((encode cmds).take k)) :
    ∃ d : Dir, d.manifest = l.aof.dir.manifest ∧ d.base = l.aof.dir.base
      ∧ d.incr n = some (encode (whole k cmds)) ∧ (∀ m, m ≠ n → d.incr m = l.aof.dir.incr m)
      ∧ l.finish n true (Replay.of ((encode cmds).take k)) none
          = { l with aof := { l.aof with
                dir := d
                incr_bytes := l.aof.incr_bytes + (encode (whole k cmds)).length } } := by
  by_cases hin : Inside k cmds
  case neg =>
    refine ⟨l.aof.dir, rfl, rfl, ?_, fun _ _ => rfl, ?_⟩
    · rw [hfile, encode_whole_eq_iff.2 hin]
    · rw [finish_whole h hin]
      rfl
  case pos =>
    refine ⟨l.aof.dir.truncate (some n) (encode (whole k cmds)).length, rfl, rfl, ?_, fun m hm => ?_, ?_⟩
    · refine (Function.update_self _ _ _).trans ?_
      rw [hfile, Option.map_some, ← encode_whole h k, resize_append]
    · exact Function.update_of_ne hm _ _
    · rw [Load.finish, if_neg (buffer_ne_nil h hin), if_neg (by decide), (replay_of_cut h k).1]
      rfl

end

theorem not_inside_of_le (hk : (encode cmds).length ≤ k) : ¬ Inside k cmds := by
  rw [← encode_whole_eq_iff, whole_of_le hk, List.take_of_length_le hk]

/-- A file that was not cut. -/
theorem replay_incr_whole (hio : io.Fine) (h : ∀ c ∈ cmds, Typed c)
    (hfile : l.aof.dir.incr n = some (encode cmds)) (is_last : Bool) :
    l.replay_incr io n is_last
      = { l with replayed := l.replayed ++ cmds }.count is_last (encode cmds).length := by
  have hk : (encode cmds).length ≤ (encode cmds).length := le_rfl
  rw [← List.take_length (l := encode cmds)] at hfile
  rw [replay_incr_cut hio h hfile, finish_whole h (not_inside_of_le hk), whole_of_le hk]

theorem error_count (l : Load) (is_last : Bool) (bytes : Nat) :
    (l.count is_last bytes).error = l.error := by
  rw [Load.count]
  split <;> rfl

theorem dir_count (l : Load) (is_last : Bool) (bytes : Nat) :
    (l.count is_last bytes).aof.dir = l.aof.dir := by
  rw [Load.count]
  split <;> rfl

/-- What the loop has done after the files of `parts`, none of them the last. -/
def Load.past (l : Load) (parts : List (List Args)) : Load :=
  { l with
    replayed := l.replayed ++ parts.flatten
    aof := { l.aof with
      older_incr_bytes := l.aof.older_incr_bytes + (encode parts.flatten).length } }

theorem past_cons (l : Load) (cmds : List Args) (parts : List (List Args)) :
    ({ l with replayed := l.replayed ++ cmds }.count false (encode cmds).length).past parts
      = l.past (cmds :: parts) := by
  simp only [Load.past, Load.count, List.flatten_cons, encode_append, List.length_append,
    List.append_assoc, Nat.add_assoc, Bool.false_eq_true, if_false]

/-- The files before one that is there. -/
theorem replay_incrs_older (hio : io.Fine) {older rest : List Nat} {parts : List (List Args)}
    (hrest : rest ≠ []) (hok : l.error = none) (h : ∀ cmds ∈ parts, ∀ c ∈ cmds, Typed c)
    (hfiles : older.map l.aof.dir.incr = parts.map fun cmds => some (encode cmds)) :
    l.replay_incrs io (older ++ rest) = (l.past parts).replay_incrs io rest := by
  induction older generalizing l parts with
  | nil =>
    have hnil : parts = [] := List.map_eq_nil_iff.1 hfiles.symm
    subst hnil
    have hsame : l.past [] = l := by
      rw [Load.past, List.flatten_nil, List.append_nil]
      rfl
    rw [List.nil_append, hsame]
  | cons n older ih =>
    cases parts with
    | nil => simp at hfiles
    | cons cmds parts =>
      rw [List.map_cons, List.map_cons, List.cons.injEq] at hfiles
      obtain ⟨hcmds, hparts⟩ := List.forall_mem_cons.1 h
      have hmore : (older ++ rest).isEmpty = false := by
        rw [List.isEmpty_eq_false_iff]
        exact List.append_ne_nil_of_right_ne_nil _ hrest
      rw [List.cons_append, Load.replay_incrs, hmore, replay_incr_whole hio hcmds hfiles.1,
        error_count, if_pos hok, ih ?_ hparts ?_, past_cons]
      · rw [error_count]
        exact hok
      · rw [dir_count]
        exact hfiles.2

/-! ## Starting again -/

/-- A process that finds this directory. -/
def start (policy : FsyncPolicy) (path : Bytes) (dir : Dir) : Aof :=
  { policy := policy, path := path, dir := dir }

/-- One more than every sequence number so far. -/
def last_seq (seqs : List Nat) (seq : Nat) : Nat := seqs.foldl (fun s n => max s (n + 1)) seq

theorem le_last_seq (seqs : List Nat) (seq : Nat) : seq ≤ last_seq seqs seq := by
  induction seqs generalizing seq with
  | nil => exact le_rfl
  | cons n seqs ih => exact (le_max_left _ _).trans (ih _)

theorem lt_last_seq {seqs : List Nat} {n : Nat} (h : n ∈ seqs) (seq : Nat) : n < last_seq seqs seq := by
  induction seqs generalizing seq with
  | nil => exact absurd h List.not_mem_nil
  | cons m seqs ih =>
    rcases List.mem_cons.1 h with rfl | h
    · exact (Nat.lt_of_succ_le (le_max_right _ _)).trans_le (le_last_seq seqs _)
    · exact ih h _

theorem read_entry_incr (a : Aof) (n : Nat) :
    a.read_entry ⟨n, false⟩
      = (none, { a with incrs := a.incrs ++ [n], next_seq := max a.next_seq (n + 1) }) := rfl

theorem read_entry_base (hbase : a.base = none) (hincrs : a.incrs = []) (n : Nat) :
    a.read_entry ⟨n, true⟩
      = (none, { a with base := some n, next_seq := max a.next_seq (n + 1) }) := by
  rw [read_entry, if_pos rfl, if_neg]
  rintro (h | h)
  · exact h hbase
  · exact h hincrs

theorem read_entries_incrs (a : Aof) (h : a.incrs ++ incrs ≠ []) :
    a.read_entries (incrs.map fun n => ⟨n, false⟩)
      = (none, { a with incrs := a.incrs ++ incrs, next_seq := last_seq incrs a.next_seq }) := by
  induction incrs generalizing a with
  | nil =>
    rw [List.append_nil] at h ⊢
    rw [List.map_nil, read_entries, if_neg h]
    rfl
  | cons n incrs ih =>
    rw [List.map_cons, read_entries, read_entry_incr, if_pos rfl, ih _ (by simp), List.append_assoc]
    rfl

/-- The manifest was read. -/
def listed (policy : FsyncPolicy) (path : Bytes) (d : Dir) (base : Option Nat) (incrs : List Nat) :
    Aof :=
  { policy := policy
    path := path
    dir := d
    base := base
    incrs := incrs
    next_seq := last_seq (base.toList ++ incrs) 1 }

/-- The manifest is read as it was written. -/
theorem read_manifest_start (hio : io.Fine) (policy : FsyncPolicy) (path : Bytes) {d : Dir}
    {base : Option Nat} (hincrs : incrs ≠ []) (hmanifest : d.manifest = some (entries base incrs)) :
    (start policy path d).read_manifest io = (none, listed policy path d base incrs) := by
  have hdir : (start policy path d).dir.manifest = some (entries base incrs) := hmanifest
  rw [read_manifest, hdir, hio.open_manifest, entries]
  cases base with
  | none => exact read_entries_incrs (start policy path d) hincrs
  | some b =>
    show (start policy path d).read_entries (⟨b, true⟩ :: incrs.map fun n => ⟨n, false⟩) = _
    rw [read_entries, read_entry_base rfl rfl, if_pos rfl]
    exact read_entries_incrs { start policy path d with base := some b, next_seq := max 1 (b + 1) } hincrs

/-- The base of the directory, if there is one, is a snapshot that can be loaded. -/
def BaseLoads (d : Dir) (base : Option Nat) (store : Store) : Prop :=
  ∀ b ∈ base, ∃ bytes, d.base b = some bytes ∧ (Snapshot.load_from ⟨bytes, none⟩ store).1 = none

theorem load_base_ok (hio : io.Fine) {store : Store} (h : BaseLoads a.dir a.base store) :
    ∃ store' bytes, a.load_base store io = { store := store', aof := { a with base_bytes := bytes } } := by
  rw [load_base]
  cases hb : a.base with
  | none =>
    refine ⟨store, a.base_bytes, ?_⟩
    dsimp only
    rw [← hb]
  | some b =>
    obtain ⟨bytes, hbytes, hok⟩ := h b hb
    refine ⟨(Snapshot.load_from ⟨bytes, none⟩ store).2, bytes.length, ?_⟩
    dsimp only
    rw [hbytes, hio.open_base, hio.read_base]
    dsimp only
    rw [hok, ← hb]

/-! ## The torn tail -/

/-- The loop is about to read the file `n`. -/
structure Load.At (l : Load) (d : Dir) (base : Option Nat) (incrs : List Nat) (replayed : List Args) :
    Prop where
  error : l.error = none
  replayed : l.replayed = replayed
  dir : l.aof.dir = d
  base : l.aof.base = base
  incrs : l.aof.incrs = incrs
  fresh : ∀ n ∈ l.aof.incrs, n < l.aof.next_seq
  buf : l.aof.buf = []
  incr_bytes : l.aof.incr_bytes = 0

section

variable {d : Dir} {store : Store} {base : Option Nat} {older after : List Nat}
  {parts : List (List Args)}

section

variable (hio : io.Fine)
include hio

/-- The loop gets to a file if the files before it are whole. -/
theorem load_start (policy : FsyncPolicy) (path : Bytes)
    (hmanifest : d.manifest = some (entries base (older ++ n :: after)))
    (hbase : BaseLoads d base store) (hparts : ∀ cmds ∈ parts, ∀ c ∈ cmds, Typed c)
    (holder : older.map d.incr = parts.map fun cmds => some (encode cmds)) :
    ∃ l : Load, l.At d base (older ++ n :: after) parts.flatten ∧
      (start policy path d).load store io
        = if (l.replay_incrs io (n :: after)).error ≠ none then l.replay_incrs io (n :: after)
          else open_last (l.replay_incrs io (n :: after)) io := by
  have hread := read_manifest_start hio policy path (by simp) hmanifest
  obtain ⟨store', bytes, hload⟩ := load_base_ok hio
    (show BaseLoads (listed policy path d base (older ++ n :: after)).dir _ store from hbase)
  generalize hl : (Load.mk none [] store'
    { listed policy path d base (older ++ n :: after) with base_bytes := bytes }) = l at hload
  have hpast : l.At d base (older ++ n :: after) [] := by
    subst hl
    exact ⟨rfl, rfl, rfl, rfl, rfl, fun m hm => lt_last_seq (List.mem_append_right _ hm) 1, rfl, rfl⟩
  have hloop := replay_incrs_older hio (List.cons_ne_nil n after) hpast.error hparts
    (hpast.dir ▸ holder)
  refine ⟨l.past parts, ⟨hpast.error, ?_, hpast.dir, hpast.base, hpast.incrs, hpast.fresh,
    hpast.buf, hpast.incr_bytes⟩, ?_⟩
  · show l.replayed ++ parts.flatten = _
    rw [hpast.replayed, List.nil_append]
  · rw [← hloop, load, hread]
    rw [hload, if_neg (fun hne => hne hpast.error)]
    rfl

theorem open_last_ok (l : Load) : open_last l io = { l with aof := { l.aof with
      fd := l.aof.incrs.getLast?
      size_after_rewrite := l.aof.current_size } } := by
  rw [open_last, hio.open_append]
  rfl

section

variable (policy : FsyncPolicy) (path : Bytes)
    (hmanifest : d.manifest = some (entries base (older ++ [n])))
    (hbase : BaseLoads d base store) (hparts : ∀ cmds ∈ parts, ∀ c ∈ cmds, Typed c)
    (holder : older.map d.incr = parts.map fun cmds => some (encode cmds)) (hnot : n ∉ older)
    (h : ∀ c ∈ cmds, Typed c) (hfile : d.incr n = some ((encode cmds).take k))
include hmanifest hbase hparts holder hnot h hfile

/-- **The last file**: the commands that are whole are replayed, the rest is cut off, and the
log is open behind them. -/
theorem load_last :
    let l := (start policy path d).load store io
    l.error = none ∧ l.replayed = parts.flatten ++ whole k cmds
      ∧ l.aof.incrs = older ++ [n] ∧ l.aof.Holds parts (whole k cmds) ∧ l.aof.buf = []
      ∧ l.aof.base = base ∧ l.aof.dir.manifest = d.manifest ∧ l.aof.dir.base = d.base := by
  obtain ⟨l, hat, hload⟩ := load_start hio policy path hmanifest hbase hparts holder
  have hreplay := replay_incr_cut (l := l) hio h (hat.dir ▸ hfile) true
  have hloop : l.replay_incrs io [n] = l.replay_incr io n true := by
    rw [Load.replay_incrs, Load.replay_incrs]
    split <;> rfl
  obtain ⟨d', hmanifest', hbase', hn, hother, hfinish⟩ := finish_last
    (l := { l with replayed := l.replayed ++ whole k cmds }) h (hat.dir ▸ hfile)
  rw [hreplay, hfinish] at hloop
  rw [hat.dir] at hmanifest' hbase' hother
  rw [hloop, if_neg (fun hne => hne hat.error), open_last_ok hio] at hload
  rw [hload]
  refine ⟨hat.error, ?_, hat.incrs, ⟨⟨older, n, encode (whole k cmds), hat.incrs, ?_, hnot, ?_, hn, ?_, ?_⟩,
    hat.fresh⟩, hat.buf, hat.base, hmanifest', hbase'⟩
  · exact congrArg (· ++ whole k cmds) hat.replayed
  · show l.aof.incrs.getLast? = some n
    rw [hat.incrs]
    exact List.getLast?_concat
  · show older.map d'.incr = _
    rw [← holder]
    exact List.map_congr_left fun m hm => hother m (fun he => hnot (he ▸ hm))
  · show encode (whole k cmds) ++ l.aof.buf = _
    rw [hat.buf, List.append_nil]
  · show _ = l.aof.incr_bytes + _
    rw [hat.incr_bytes, Nat.zero_add]

/-- A log that was just loaded is open, and holds what was replayed. -/
theorem opened_load :
    ((start policy path d).load store io).aof.Opened ((start policy path d).load store io).replayed := by
  obtain ⟨-, hreplayed, hincrs, hholds, hbuf, hbase', hmanifest', -⟩ :=
    load_last hio policy path hmanifest hbase hparts holder hnot h hfile
  refine ⟨?_, parts, whole k cmds, hholds, hbuf, hreplayed⟩
  rw [Listed, hmanifest', hmanifest, hbase', hincrs]

end

/-- Files of whole commands cause no error. -/
theorem error_replay_incrs {files : List Nat} (hok : l.error = none)
    (hparts : ∀ cmds ∈ parts, ∀ c ∈ cmds, Typed c)
    (hfiles : files.map l.aof.dir.incr = parts.map fun cmds => some (encode cmds)) :
    (l.replay_incrs io files).error = none := by
  induction files generalizing l parts with
  | nil => exact hok
  | cons n files ih =>
    cases parts with
    | nil => simp at hfiles
    | cons cmds parts =>
      rw [List.map_cons, List.map_cons, List.cons.injEq] at hfiles
      obtain ⟨hcmds, hrest⟩ := List.forall_mem_cons.1 hparts
      rw [Load.replay_incrs, replay_incr_whole hio hcmds hfiles.1, error_count, if_pos hok]
      refine ih ?_ hrest ?_
      · rw [error_count]
        exact hok
      · rw [dir_count]
        exact hfiles.2

/-- **Another file**: the load fails just when the cut is inside a command. -/
theorem load_inner (policy : FsyncPolicy) (path : Bytes) (hafter : after ≠ [])
    (hmanifest : d.manifest = some (entries base (older ++ n :: after)))
    (hbase : BaseLoads d base store) (hparts : ∀ cmds ∈ parts, ∀ c ∈ cmds, Typed c)
    (holder : older.map d.incr = parts.map fun cmds => some (encode cmds))
    (h : ∀ c ∈ cmds, Typed c) (hfile : d.incr n = some ((encode cmds).take k))
    {later : List (List Args)} (hlater : ∀ cmds ∈ later, ∀ c ∈ cmds, Typed c)
    (hrest : after.map d.incr = later.map fun cmds => some (encode cmds)) :
    ((start policy path d).load store io).error ≠ none ↔ Inside k cmds := by
  obtain ⟨l, hat, hload⟩ := load_start hio policy path hmanifest hbase hparts holder
  have hreplay := replay_incr_cut (l := l) hio h (hat.dir ▸ hfile) false
  have hmore : after.isEmpty = false := List.isEmpty_eq_false_iff.2 hafter
  rw [hload, Load.replay_incrs, hmore, hreplay]
  by_cases hin : Inside k cmds
  case pos =>
    -- not the last file, so half a command at its end is an error
    refine iff_of_true ?_ hin
    have hfail : ∀ (l : Load) (e : Bytes), (l.fail e).error ≠ none := fun _ _ => Option.some_ne_none _
    rw [Load.finish, if_neg (buffer_ne_nil h hin), if_pos rfl, if_neg (hfail _ _), if_pos (hfail _ _)]
    exact hfail _ _
  case neg =>
    refine iff_of_false ?_ hin
    rw [finish_whole h hin]
    -- the files after it are read, and the last one is opened
    have hnext := (error_count { l with replayed := l.replayed ++ whole k cmds } false
      (encode (whole k cmds)).length).trans hat.error
    have hdir := (dir_count { l with replayed := l.replayed ++ whole k cmds } false
      (encode (whole k cmds)).length).trans hat.dir
    generalize { l with replayed := l.replayed ++ whole k cmds }.count false
      (encode (whole k cmds)).length = next at hnext hdir ⊢
    have hend := error_replay_incrs hio hnext hlater (hdir ▸ hrest)
    rw [if_pos hnext, if_neg (fun hne => hne hend), open_last_ok hio]
    exact fun hne => hne hend

end

/-- A log on disk whose file `n` holds the first `k` bytes of `cmds`. The files before it and
behind it are whole. -/
structure Torn (d : Dir) (store : Store) (older : List Nat) (n : Nat) (after : List Nat)
    (parts : List (List Args)) (cmds : List Args) (k : Nat) (later : List (List Args)) : Prop where
  manifest : ∃ base, d.manifest = some (entries base (older ++ n :: after)) ∧ BaseLoads d base store
  older_files : older.map d.incr = parts.map fun cmds => some (encode cmds)
  file : d.incr n = some ((encode cmds).take k)
  later_files : after.map d.incr = later.map fun cmds => some (encode cmds)
  distinct : n ∉ older
  typed : ∀ part ∈ cmds :: (parts ++ later), ∀ c ∈ part, Typed c

variable {later : List (List Args)}

/-- **Recovery from a torn tail.** The last incr file holds the first `k` bytes of the
encodings of some commands. Loading replays those whose encoding lies within `k`, after the
commands of the files before, and the file is left with their encodings. If encodings of
further commands are appended and the log is loaded again, both parts are replayed. If the
file is not the last one, the load fails just when `k` falls inside a command. -/
theorem torn_tail (h : Torn d store older n after parts cmds k later) (policy : FsyncPolicy)
    (path : Bytes) (hio : io.Fine) :
    let l := (start policy path d).load store io
    (after = [] → l.error = none ∧ l.replayed = parts.flatten ++ whole k cmds
      ∧ l.aof.dir.incr n = some (encode (whole k cmds))
      ∧ ∀ more : List Args, (∀ c ∈ more, Typed c) → ∀ io' : LoadIo, io'.Fine →
          let l' := (start policy path (l.aof.dir.append (some n) (encode more))).load store io'
          l'.error = none ∧ l'.replayed = parts.flatten ++ (whole k cmds ++ more))
      ∧ (after ≠ [] → (l.error ≠ none ↔ Inside k cmds)) := by
  obtain ⟨⟨base, hmanifest, hbase⟩, holder, hfile, hlater, hnot, htyped⟩ := h
  obtain ⟨hcmds, hrest⟩ := List.forall_mem_cons.1 htyped
  have hparts : ∀ part ∈ parts, ∀ c ∈ part, Typed c :=
    fun part hp => hrest part (List.mem_append_left _ hp)
  refine ⟨?_, fun hafter => load_inner hio policy path hafter hmanifest hbase hparts holder hcmds hfile
    (fun part hp => hrest part (List.mem_append_right _ hp)) hlater⟩
  rintro rfl
  obtain ⟨herror, hreplayed, hincrs, hholds, hbuf, -, hmanifest', hbase'⟩ :=
    load_last hio policy path hmanifest hbase hparts holder hnot hcmds hfile
  obtain ⟨hn, holder'⟩ := hholds.files_eq hincrs hbuf
  refine ⟨herror, hreplayed, hn, fun more hmore io' hio' => ?_⟩
  generalize ((start policy path d).load store io).aof.dir = d' at *
  -- the file of the second load holds both parts, and is not cut
  have hboth : (d'.append (some n) (encode more)).incr n
      = some ((encode (whole k cmds ++ more)).take (encode (whole k cmds ++ more)).length) := by
    rw [append_current hn, List.take_length, encode_append]
  have hother : older.map (d'.append (some n) (encode more)).incr
      = parts.map fun cmds => some (encode cmds) := by
    rw [← holder']
    refine List.map_congr_left fun m hm => append_other ?_ _
    exact fun he => hnot (Option.some.inj he ▸ hm)
  have htyped' : ∀ c ∈ whole k cmds ++ more, Typed c := by
    intro c hc
    rcases List.mem_append.1 hc with hc | hc
    · exact hcmds c (mem_of_mem_whole hc)
    · exact hmore c hc
  have hbase'' : BaseLoads (d'.append (some n) (encode more)) base store :=
    fun b hb => hbase' ▸ hbase b hb
  have hmanifest'' := (manifest_append d' (some n) (encode more)).trans (hmanifest'.trans hmanifest)
  obtain ⟨herror', hreplayed', -⟩ := load_last hio' policy path hmanifest'' hbase'' hparts hother hnot
    htyped' hboth
  rw [whole_of_le le_rfl] at hreplayed'
  exact ⟨herror', hreplayed'⟩

end

theorem fine_default : LoadIo.Fine {} :=
  ⟨rfl, rfl, rfl, fun _ => rfl, fun _ _ => List.not_mem_nil, rfl, rfl⟩

/-- A `SET` and the first nine bytes of a `DEL`, in a file that is followed by those listed. -/
def half_del (after : List Nat) : Dir :=
  { manifest := some (entries none (1 :: after))
    incr := fun n => some (if n = 1
      then (encode [[lit "SET", lit "k", lit "v"], [lit "DEL", lit "k"]]).take 36 else []) }

theorem torn_tail_half_del :
    ((start .kNo [] (half_del [])).load { clock := fun _ => 0 } {}).replayed
        = [[lit "SET", lit "k", lit "v"]]
      ∧ ((start .kNo [] (half_del [2])).load { clock := fun _ => 0 } {}).error ≠ none := by
  have hbase : ∀ after, BaseLoads (half_del after) none { clock := fun _ => 0 } :=
    fun _ => nofun
  have hlast : Torn (half_del []) { clock := fun _ => 0 } [] 1 [] []
      [[lit "SET", lit "k", lit "v"], [lit "DEL", lit "k"]] 36 [] :=
    ⟨⟨none, rfl, hbase _⟩, rfl, rfl, rfl, List.not_mem_nil, by decide +kernel⟩
  have hinner : Torn (half_del [2]) { clock := fun _ => 0 } [] 1 [2] []
      [[lit "SET", lit "k", lit "v"], [lit "DEL", lit "k"]] 36 [[]] :=
    ⟨⟨none, rfl, hbase _⟩, rfl, rfl, rfl, List.not_mem_nil, by decide +kernel⟩
  refine ⟨((torn_tail hlast .kNo [] fine_default).1 rfl).2.1, ?_⟩
  refine ((torn_tail hinner .kNo [] fine_default).2 (List.cons_ne_nil 2 [])).2 ?_
  exact ⟨[[lit "SET", lit "k", lit "v"]], [lit "DEL", lit "k"], [], rfl, by decide +kernel⟩

end EpochKV.Aof

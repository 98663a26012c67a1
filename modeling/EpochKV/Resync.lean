/-
The replica's side of a resync: the link to the master as a state machine, from the
handshake through the transfer of a snapshot to the installed dataset, with every
place where it can fail.

A replica names its data by `replid` and `offset` when it reconnects. A failed full
resync must leave that name right: name and data as they were, or no name at all
(`PSYNC ? -1`). `failed_resync_denotes_iff` says exactly when it does: not if the name is
shared, the snapshot has arrived, and loading it or restarting the AOF fails. The data
is then gone (`corrupt_snapshot_clears_dataset`), and the name is kept.
-/
import EpochKV.Replica

set_option autoImplicit false

namespace EpochKV.Resync

open Text Keyspace Snapshot Replica

def kReplIdLength : Nat := 40

def kMaxHandshakeLine : Nat := 64 * 1024

inductive LinkState where
  | kConnect
  | kConnecting
  | kHandshake
  | kTransfer
  | kConnected
  deriving DecidableEq

/-- A node while it is a replica. `transfer` is the content of the file the snapshot is
received into, `why` the reason of the last aborted link. -/
structure Node where
  store : Store
  passive : store.passive_expiry = true
  replid : Bytes
  replid2 : Bytes
  second_replid_offset : Option Nat
  offset : Nat
  replid_shared : Bool
  link_state : LinkState
  link_buf : Bytes
  handshake_replies : Nat
  transfer_path : Bytes
  transfer_replid : Bytes
  transfer_offset : Nat
  transfer_remaining : Option Nat
  transfer : Bytes
  why : Bytes

/-- How the system calls of a turn end: `none` is success. A failed `open` of the received
file says `none` for "no such file"; a file that opens can fail to be read after some
bytes. Without an AOF its reset does not fail. -/
structure Io where
  open_error : Option Bytes := none
  write_error : Option Bytes := none
  fsync_error : Option Bytes := none
  load_open : Except (Option Bytes) (Option (Nat × Bytes)) := .ok none
  reset_error : Option Bytes := none

/-! ## Lines from the master -/

def find_crlf : Bytes → Option (Bytes × Bytes)
  | [] => none
  | 13 :: 10 :: rest => some ([], rest)
  | c :: rest => (find_crlf rest).map fun x => (c :: x.1, x.2)

inductive Line where
  | line (l rest : Bytes)
  | more (rest : Bytes)
  | too_long

/-- Bare line feeds are keepalives. -/
def take_line (buf : Bytes) : Line :=
  let b := buf.dropWhile (· = 10)
  match find_crlf b with
  | some (l, rest) => .line l rest
  | none => if b.length > kMaxHandshakeLine then .too_long else .more b

def is_space (c : UInt8) : Bool := c = 32 ∨ 9 ≤ c ∧ c ≤ 13

def is_digit (c : UInt8) : Bool := 48 ≤ c ∧ c ≤ 57

/-- White space, a sign, and the digits of an unsigned number, with what follows; no
number without a digit. -/
def read_unsigned (b : Bytes) : Option (Bool × Nat × Bytes) :=
  let b := b.dropWhile is_space
  let x : Bool × Bytes :=
    match b with
    | 45 :: rest => (true, rest)
    | 43 :: rest => (false, rest)
    | _ => (false, b)
  let digits := x.2.takeWhile is_digit
  if digits = [] then none
  else some (x.1, digits.foldl (fun n c => 10 * n + (c.toNat - 48)) 0, x.2.dropWhile is_digit)

/-- A minus sign wraps around. -/
def wrap_sign (negative : Bool) (n : Nat) : Nat := if negative then (2 ^ 64 - n) % 2 ^ 64 else n

/-- `strtoull` on the `$<length>` line; it stops at a zero byte, and is content with
nothing at all before one. -/
def header_size (line : Bytes) : Option Nat :=
  match line with
  | 36 :: c :: rest =>
    let text := (c :: rest).takeWhile (· ≠ 0)
    match read_unsigned text with
    | none => if text = [] then some 0 else none
    | some (negative, n, tail) =>
      if tail ≠ [] then none
      else some (if 2 ^ 64 ≤ n then 2 ^ 64 - 1 else wrap_sign negative n)
  | _ => none

/-- `in >> id >> off` after `+FULLRESYNC `. -/
def fullresync_reply (text : Bytes) : Option (Bytes × Nat) :=
  let b := text.dropWhile is_space
  let id := b.takeWhile fun c => ¬ is_space c
  match read_unsigned (b.dropWhile fun c => ¬ is_space c) with
  | none => none
  | some (negative, n, _) =>
    if 2 ^ 64 ≤ n ∨ id.length ≠ kReplIdLength then none else some (id, wrap_sign negative n)

/-! ## The link -/

/-- `close_link`, and a new attempt later. -/
def abort_link (why : Bytes) (n : Node) : Node :=
  { n with link_state := .kConnect, link_buf := [], transfer := [], why := why }

/-- The PSYNC of the handshake: by name if someone else knows the name. -/
def psync_command (n : Node) : Args :=
  if n.replid_shared then [lit "PSYNC", n.replid, to_string n.offset]
  else [lit "PSYNC", lit "?", lit "-1"]

/-- The stream begins; what is left in the buffer is its first part. -/
def adopt_link (n : Node) : Node := { n with link_state := .kConnected, replid_shared := true }

/-- `persistence.load` of the received bytes: the file as it can be read, or the error. -/
def received_file (io : Io) (content : Bytes) : File :=
  match io.load_open with
  | .ok none => ⟨content, none⟩
  | .ok (some (k, e)) => ⟨content.take k, some e⟩
  | .error _ => ⟨[], none⟩

/-- `snapshot::load` on the received file: the error, if any, and the store. -/
def load (io : Io) (path content : Bytes) (s : Store) : Option Bytes × Store :=
  match io.load_open with
  | .error none => (some [], s)
  | .error (some e) => (some (path ++ lit ": " ++ e), s)
  | .ok _ =>
    let r := load_from (received_file io content) s
    (r.1.map fun reason => path ++ lit ": " ++ reason, r.2)

/-- `replace_dataset`: the store is emptied first. -/
def replace_dataset (io : Io) (path content : Bytes) (s : Store) : Option Bytes × Store :=
  let r := load io path content { s.clear with loading := true }
  (match r.1 with
    | some e => some e
    | none => io.reset_error.map fun e => lit "restarting the AOF: " ++ e,
    { r.2 with loading := s.loading })

/-- What a replica makes of a file: its records that are not past at `now`. -/
def content_of (f : File) (now : Int) : Space Key Bytes Int :=
  (f.records.filter fun r => ¬ r.Past now).foldl Record.put fun _ => none

theorem replace_dataset_spec (io : Io) (path content : Bytes) {s : Store}
    (hp : s.passive_expiry = true) :
    (replace_dataset io path content s).2.view
        = content_of (received_file io content) s.now ∧
      (replace_dataset io path content s).2.passive_expiry = true := by
  have hload : (load io path content { s.clear with loading := true }).2.view
        = content_of (received_file io content) s.now ∧
      (load io path content { s.clear with loading := true }).2.passive_expiry = true := by
    unfold load
    split
    case h_1 h | h_2 h => exact ⟨by rw [received_file, h]; rfl, hp⟩
    case h_3 h =>
      obtain ⟨n, log, hb⟩ := load_from_spec (s := { s.clear with loading := true }) (.inl hp)
        (received_file io content)
      exact ⟨hb.view, hb.passive_expiry.trans hp⟩
  exact hload

/-- The whole file is there: it is synced, loaded and installed. -/
def finish_transfer (io : Io) (n : Node) : Node :=
  match io.fsync_error with
  | some e => abort_link (lit "fsync of the received snapshot: " ++ e) n
  | none =>
    let r := replace_dataset io n.transfer_path n.transfer n.store
    let n : Node :=
      { n with
        store := r.2
        passive := (replace_dataset_spec io n.transfer_path n.transfer n.passive).2 }
    match r.1 with
    | some e => abort_link (lit "loading the master's snapshot: " ++ e) n
    | none =>
      adopt_link
        { n with
          replid := n.transfer_replid
          replid2 := List.replicate kReplIdLength 48
          second_replid_offset := none
          offset := n.transfer_offset
          transfer := [] }

def handle_psync_reply (io : Io) (line : Bytes) (n : Node) : Node :=
  if (lit "+FULLRESYNC ").isPrefixOf line then
    match fullresync_reply (line.drop 12) with
    | none => abort_link (lit "malformed reply: " ++ line) n
    | some (id, off) =>
      let n := { n with transfer_replid := id, transfer_offset := off }
      match io.open_error with
      | some e => abort_link (n.transfer_path ++ lit ": " ++ e) n
      | none => { n with transfer_remaining := none, transfer := [], link_state := .kTransfer }
  else if line = lit "+CONTINUE" ∨ (lit "+CONTINUE ").isPrefixOf line then
    let id := line.drop 10
    if id ≠ [] ∧ id ≠ n.replid then
      adopt_link { n with
        replid2 := n.replid, second_replid_offset := some n.offset, replid := id }
    else adopt_link n
  else abort_link (lit "master refused PSYNC: " ++ line) n

/-- A turn of the loop of `process_link_input` during the handshake. -/
def handshake_turn (io : Io) (n : Node) : Node :=
  match take_line n.link_buf with
  | .more rest => { n with link_buf := rest }
  | .too_long => abort_link (lit "reply line from master too long") n
  | .line l rest =>
    let n := { n with link_buf := rest }
    if n.handshake_replies < 3 then
      -- an error to REPLCONF just means an older master
      if n.handshake_replies = 0 ∧ (l = [] ∨ l.head? = some 45) then
        abort_link (lit "master replied to PING with: " ++ l) n
      else { n with handshake_replies := n.handshake_replies + 1 }
    else handle_psync_reply io l n

/-- The bytes that are there go to the file, at most `size` of them. -/
def receive (io : Io) (size : Nat) (n : Node) : Node :=
  let k := min size n.link_buf.length
  if 0 < k ∧ io.write_error.isSome then
    abort_link (lit "writing the received snapshot: " ++ io.write_error.getD []) n
  else
    let n := { n with
      transfer := n.transfer ++ n.link_buf.take k
      link_buf := n.link_buf.drop k
      transfer_remaining := some (size - k) }
    if 0 < size - k then n else finish_transfer io n

/-- A turn of the loop during the transfer. -/
def transfer_turn (io : Io) (n : Node) : Node :=
  match n.transfer_remaining with
  | some size => receive io size n
  | none =>
    match take_line n.link_buf with
    | .more rest => { n with link_buf := rest }
    | .too_long => abort_link (lit "reply line from master too long") n
    | .line l rest =>
      match header_size l with
      | none =>
        abort_link (lit "expected the snapshot's $<length> header, got: " ++ l)
          { n with link_buf := rest }
      | some size => receive io size { n with link_buf := rest, transfer_remaining := some size }

/-! ## The events of the link -/

/-- What can happen to the link. The loop of `process_link_input` is any number of turns;
`lost` is a closed connection, a failed read or a timeout. -/
inductive Event where
  | connecting
  | connected (error : Option Bytes) (sent : Bool)
  | received (data : Bytes)
  | turn (io : Io)
  | lost (why : Bytes)

def Node.step (n : Node) : Event → Node
  | .connecting =>
    if n.link_state = .kConnect then { n with link_state := .kConnecting, link_buf := [] } else n
  | .connected error sent =>
    if n.link_state ≠ .kConnecting then n
    else
      match error with
      | some e => abort_link (lit "connect: " ++ e) n
      | none =>
        if sent then { n with link_state := .kHandshake, handshake_replies := 0 }
        else abort_link (lit "sending the handshake failed") n
  | .received data =>
    if n.link_state = .kHandshake ∨ n.link_state = .kTransfer then
      { n with link_buf := n.link_buf ++ data }
    else n
  | .turn io =>
    match n.link_state with
    | .kHandshake => handshake_turn io n
    | .kTransfer => transfer_turn io n
    | _ => n
  | .lost why => if n.link_state = .kConnect then n else abort_link why n

/-! ## What an event does to the history and the data -/

/-- The link is between the handshake and the end of the transfer. -/
def Node.Busy (n : Node) : Prop := n.link_state = .kHandshake ∨ n.link_state = .kTransfer

/-- The name of the history, whether it is shared, and the data are as they were. -/
structure Keeps (n n' : Node) : Prop where
  replid : n'.replid = n.replid
  offset : n'.offset = n.offset
  shared : n'.replid_shared = n.replid_shared
  store : n'.store = n.store

theorem Keeps.refl (n : Node) : Keeps n n := ⟨rfl, rfl, rfl, rfl⟩

theorem Keeps.trans {a b c : Node} (h : Keeps a b) (h' : Keeps b c) : Keeps a c :=
  ⟨h'.replid.trans h.replid, h'.offset.trans h.offset, h'.shared.trans h.shared,
    h'.store.trans h.store⟩

theorem keeps_abort_link (why : Bytes) (n : Node) : Keeps n (abort_link why n) :=
  ⟨rfl, rfl, rfl, rfl⟩

theorem handshake_turn_spec (io : Io) (n : Node) :
    Keeps n (handshake_turn io n) ∨ (handshake_turn io n).link_state = .kConnected := by
  unfold handshake_turn
  split
  · exact Or.inl ⟨rfl, rfl, rfl, rfl⟩
  · exact Or.inl (keeps_abort_link _ n)
  · dsimp only
    split
    · split <;> exact Or.inl ⟨rfl, rfl, rfl, rfl⟩
    · unfold handle_psync_reply
      split
      · split
        · exact Or.inl ⟨rfl, rfl, rfl, rfl⟩
        · split <;> exact Or.inl ⟨rfl, rfl, rfl, rfl⟩
      · split
        · dsimp only
          split <;> exact Or.inr rfl
        · exact Or.inl ⟨rfl, rfl, rfl, rfl⟩

/-- The size of the snapshot and the bytes received from here on, once the size is known. -/
def Node.arriving (n : Node) : Option (Nat × Bytes) :=
  match n.transfer_remaining with
  | some size => some (size, n.link_buf)
  | none =>
    match take_line n.link_buf with
    | .line l rest => (header_size l).map fun size => (size, rest)
    | _ => none

/-- This turn has the whole file and gets it to disk: it goes on to replace the dataset. -/
def Node.Replaces (n : Node) (io : Io) : Prop :=
  n.link_state = .kTransfer ∧ ∃ size rest, n.arriving = some (size, rest) ∧ size ≤ rest.length ∧
    (0 < size → io.write_error = none) ∧ io.fsync_error = none

variable {n : Node}

theorem not_replaces (h : n.arriving = none) (io : Io) : ¬ n.Replaces io := by
  rintro ⟨-, size, rest, h', -⟩
  rw [h] at h'
  simp at h'

/-- The data in the received file. -/
def Node.arrived (n : Node) (io : Io) : Space Key Bytes Int :=
  match n.arriving with
  | some (size, rest) =>
    content_of (received_file io (n.transfer ++ rest.take size)) n.store.now
  | none => n.store.view

/-- The dataset was replaced and the link aborted: the name is the old one, the data are
those of the file. -/
structure Replaced (n n' : Node) (m : Space Key Bytes Int) : Prop where
  replid : n'.replid = n.replid
  offset : n'.offset = n.offset
  shared : n'.replid_shared = n.replid_shared
  view : n'.store.view = m
  aborted : n'.link_state = .kConnect

theorem finish_transfer_spec (io : Io) (n : Node) :
    (io.fsync_error ≠ none → Keeps n (finish_transfer io n)) ∧
      (io.fsync_error = none → (finish_transfer io n).link_state = .kConnected ∨
        Replaced n (finish_transfer io n)
          (content_of (received_file io n.transfer) n.store.now)) := by
  unfold finish_transfer
  cases io.fsync_error with
  | some e => exact ⟨fun _ => keeps_abort_link _ n, fun h => absurd h (by simp)⟩
  | none =>
    refine ⟨fun h => absurd rfl h, fun _ => ?_⟩
    dsimp only
    split
    · exact Or.inr ⟨rfl, rfl, rfl,
        (replace_dataset_spec io n.transfer_path n.transfer n.passive).1, rfl⟩
    · exact Or.inl rfl

/-- Receiving, seen from a node that knows the size. -/
theorem receive_spec (io : Io) (size : Nat) (n : Node) :
    (¬ (size ≤ n.link_buf.length ∧ (0 < size → io.write_error = none) ∧ io.fsync_error = none) →
        Keeps n (receive io size n)) ∧
      (size ≤ n.link_buf.length → (0 < size → io.write_error = none) → io.fsync_error = none →
        (receive io size n).link_state = .kConnected ∨
          Replaced n (receive io size n)
            (content_of (received_file io (n.transfer ++ n.link_buf.take size)) n.store.now)) := by
  unfold receive
  by_cases hwrite : 0 < min size n.link_buf.length ∧ io.write_error.isSome = true
  · rw [if_pos hwrite]
    refine ⟨fun _ => keeps_abort_link _ n, fun hle hok _ => ?_⟩
    rw [hok (by omega)] at hwrite
    simp at hwrite
  · rw [if_neg hwrite]
    by_cases hrest : 0 < size - min size n.link_buf.length
    · rw [if_pos hrest]
      exact ⟨fun _ => ⟨rfl, rfl, rfl, rfl⟩, fun hle => by omega⟩
    · rw [if_neg hrest]
      have hmin : min size n.link_buf.length = size := by omega
      rw [hmin] at hwrite ⊢
      obtain ⟨hbad, hgood⟩ := finish_transfer_spec io
        { n with
          transfer := n.transfer ++ n.link_buf.take size
          link_buf := n.link_buf.drop size
          transfer_remaining := some (size - size) }
      refine ⟨fun h => ?_, fun _ _ hsync => ?_⟩
      · have hsync : io.fsync_error ≠ none := by
          intro hsync
          refine h ⟨by omega, fun hpos => ?_, hsync⟩
          by_contra hne
          exact hwrite ⟨hpos, Option.isSome_iff_ne_none.mpr hne⟩
        obtain ⟨h1, h2, h3, h4⟩ := hbad hsync
        exact ⟨h1, h2, h3, h4⟩
      · rcases hgood hsync with h | ⟨h1, h2, h3, h4, h5⟩
        · exact Or.inl h
        · exact Or.inr ⟨h1, h2, h3, h4, h5⟩

/-- **A turn of the transfer.** -/
theorem transfer_turn_spec (io : Io) (hn : n.link_state = .kTransfer) :
    (¬ n.Replaces io → Keeps n (transfer_turn io n)) ∧
      (n.Replaces io → (transfer_turn io n).link_state = .kConnected ∨
        Replaced n (transfer_turn io n) (n.arrived io)) := by
  unfold transfer_turn
  cases hrem : n.transfer_remaining with
  | some size =>
    have harr : n.arriving = some (size, n.link_buf) := by rw [Node.arriving, hrem]
    obtain ⟨hbad, hgood⟩ := receive_spec io size n
    refine ⟨fun h => hbad fun hok => h ⟨hn, size, n.link_buf, harr, hok⟩, ?_⟩
    rintro ⟨-, size', rest, harr', hle, hw, hf⟩
    obtain ⟨rfl, rfl⟩ := Prod.mk.inj (Option.some.inj (harr.symm.trans harr'))
    rw [Node.arrived, harr]
    exact hgood hle hw hf
  | none =>
    cases hline : take_line n.link_buf with
    | more rest =>
      have harr : n.arriving = none := by rw [Node.arriving, hrem, hline]
      exact ⟨fun _ => ⟨rfl, rfl, rfl, rfl⟩, fun hr => absurd hr (not_replaces harr io)⟩
    | too_long =>
      have harr : n.arriving = none := by rw [Node.arriving, hrem, hline]
      exact ⟨fun _ => keeps_abort_link _ n, fun hr => absurd hr (not_replaces harr io)⟩
    | line l rest =>
      dsimp only
      cases hsize : header_size l with
      | none =>
        have harr : n.arriving = none := by simp [Node.arriving, hrem, hline, hsize]
        exact ⟨fun _ => ⟨rfl, rfl, rfl, rfl⟩, fun hr => absurd hr (not_replaces harr io)⟩
      | some size =>
        have harr : n.arriving = some (size, rest) := by simp [Node.arriving, hrem, hline, hsize]
        obtain ⟨hbad, hgood⟩ := receive_spec io size
          { n with link_buf := rest, transfer_remaining := some size }
        refine ⟨fun h => ?_, ?_⟩
        · obtain ⟨h1, h2, h3, h4⟩ := hbad fun hok => h ⟨hn, size, rest, harr, hok⟩
          exact ⟨h1, h2, h3, h4⟩
        · rintro ⟨-, size', rest', harr', hle, hw, hf⟩
          obtain ⟨rfl, rfl⟩ := Prod.mk.inj (Option.some.inj (harr.symm.trans harr'))
          rw [Node.arrived, harr]
          rcases hgood hle hw hf with h | ⟨h1, h2, h3, h4, h5⟩
          · exact Or.inl h
          · exact Or.inr ⟨h1, h2, h3, h4, h5⟩

/-! ## A failed resync -/

/-- The event goes on to replace the dataset. -/
def Event.Replaces (e : Event) (n : Node) : Prop :=
  match e with
  | .turn io => n.Replaces io
  | _ => False

/-- The data such an event brings. -/
def Event.arrived (e : Event) (n : Node) : Space Key Bytes Int :=
  match e with
  | .turn io => n.arrived io
  | _ => n.store.view

/-- **One event of a busy link**: everything is kept, or the link is adopted, or the
dataset was replaced and the link aborted. -/
theorem step_spec (hn : n.Busy) (e : Event) :
    (¬ e.Replaces n → Keeps n (n.step e) ∨ (n.step e).link_state = .kConnected) ∧
      (e.Replaces n → (n.step e).link_state = .kConnected ∨
        Replaced n (n.step e) (e.arrived n)) := by
  have hne : n.link_state ≠ .kConnect ∧ n.link_state ≠ .kConnecting := by
    rcases hn with h | h <;> rw [h] <;> simp
  cases e with
  | connecting =>
    refine ⟨fun _ => Or.inl ?_, fun h => h.elim⟩
    rw [Node.step, if_neg hne.1]
    exact Keeps.refl n
  | connected error sent =>
    refine ⟨fun _ => Or.inl ?_, fun h => h.elim⟩
    unfold Node.step
    dsimp only
    rw [if_pos hne.2]
    exact Keeps.refl n
  | received data =>
    refine ⟨fun _ => Or.inl ?_, fun h => h.elim⟩
    rw [Node.step, if_pos (show n.link_state = .kHandshake ∨ n.link_state = .kTransfer from hn)]
    exact ⟨rfl, rfl, rfl, rfl⟩
  | lost why =>
    refine ⟨fun _ => Or.inl ?_, fun h => h.elim⟩
    rw [Node.step, if_neg hne.1]
    exact keeps_abort_link why n
  | turn io =>
    rcases hn with h | h
    · have hstep : n.step (.turn io) = handshake_turn io n := by rw [Node.step, h]
      rw [hstep]
      refine ⟨fun _ => handshake_turn_spec io n, fun hr => ?_⟩
      have hr : n.link_state = .kTransfer := hr.1
      rw [h] at hr
      simp at hr
    · have hstep : n.step (.turn io) = transfer_turn io n := by rw [Node.step, h]
      obtain ⟨hbad, hgood⟩ := transfer_turn_spec io h
      rw [hstep]
      exact ⟨fun hr => Or.inl (hbad hr), hgood⟩

/-- The link stays busy. -/
def Receiving (n n' : Node) : Prop := ∃ e : Event, n' = n.step e ∧ n'.Busy

theorem keeps_of_receiving {n' : Node} (hn : n.Busy) (h : Relation.ReflTransGen Receiving n n') :
    Keeps n n' ∧ n'.Busy := by
  induction h with
  | refl => exact ⟨Keeps.refl n, hn⟩
  | @tail n' _ _ hstep ih =>
    obtain ⟨hk, hb⟩ := ih
    obtain ⟨e, rfl, hb'⟩ := hstep
    refine ⟨hk.trans ?_, hb'⟩
    -- an event after which the link is still busy has neither adopted nor aborted it
    obtain ⟨hkeep, hrepl⟩ := step_spec hb e
    by_cases hr : e.Replaces n'
    · rcases hrepl hr with h | h
      · rcases hb' with h' | h' <;> rw [h] at h' <;> simp at h'
      · rcases hb' with h' | h' <;> rw [h.aborted] at h' <;> simp at h'
    · rcases hkeep hr with h | h
      · exact h
      · rcases hb' with h' | h' <;> rw [h] at h' <;> simp at h'

/-- Name and data are those of `n`, or the next PSYNC does not name anything. -/
def Denotes (n n' : Node) : Prop :=
  (n'.replid = n.replid ∧ n'.offset = n.offset ∧ n'.store.view = n.store.view) ∨
    psync_command n' = [lit "PSYNC", lit "?", lit "-1"]

theorem psync_command_anonymous :
    psync_command n = [lit "PSYNC", lit "?", lit "-1"] ↔
      n.replid_shared = false ∨ (n.replid = lit "?" ∧ to_string n.offset = lit "-1") := by
  unfold psync_command
  cases n.replid_shared <;> simp

theorem to_string_nat_ne (k : Nat) : to_string (k : Int) ≠ lit "-1" := by
  have hlit : lit "-1" = 45 :: lit "1" := by decide
  rw [to_string, if_neg (by omega), hlit]
  exact nat_to_string_head_ne _ _

/-- **When a failed full resync leaves a replica with the right name for its data.** From
the state `n₀` before the resync, through any events of the handshake and the transfer, to
an event that aborts the link. -/
theorem failed_resync_denotes_iff {n₀ n : Node} (hn₀ : n₀.Busy)
    (hrun : Relation.ReflTransGen Receiving n₀ n) (e : Event)
    (habort : (n.step e).link_state = .kConnect) :
    Denotes n₀ (n.step e) ↔
      n.replid_shared = false ∨ ¬ e.Replaces n ∨ e.arrived n = n.store.view := by
  obtain ⟨hk, hb⟩ := keeps_of_receiving hn₀ hrun
  obtain ⟨hkeep, hrepl⟩ := step_spec hb e
  by_cases hr : e.Replaces n
  · rcases hrepl hr with h | h
    · rw [h] at habort
      simp at habort
    · have hanon : psync_command (n.step e) = [lit "PSYNC", lit "?", lit "-1"] ↔
          n.replid_shared = false := by
        rw [psync_command_anonymous, h.shared]
        exact or_iff_left fun hx => to_string_nat_ne _ hx.2
      have hview : (n.step e).store.view = n₀.store.view ↔ e.arrived n = n.store.view := by
        rw [h.view, hk.store]
      rw [Denotes, hanon, hview]
      have hname : (n.step e).replid = n₀.replid ∧ (n.step e).offset = n₀.offset :=
        ⟨h.replid.trans hk.replid, h.offset.trans hk.offset⟩
      constructor
      · rintro (⟨-, -, hv⟩ | hs)
        · exact Or.inr (Or.inr hv)
        · exact Or.inl hs
      · rintro (hs | hnr | hv)
        · exact Or.inr hs
        · exact absurd hr hnr
        · exact Or.inl ⟨hname.1, hname.2, hv⟩
  · refine iff_of_true ?_ (Or.inr (Or.inl hr))
    rcases hkeep hr with h | h
    · have hall := hk.trans h
      exact Or.inl ⟨hall.replid, hall.offset, by rw [hall.store]⟩
    · rw [h] at habort
      simp at habort

/-! ### One bad byte

A replica that holds `k` and whose name is known to others has received a file of one byte,
which is no snapshot. -/

def synced : Store :=
  apply_stream {} [["SET", "k", "v"].map lit] (replica (fun _ => 0) 0 .kNoEviction)

def one_byte : Node where
  store := synced
  passive := by decide +kernel
  replid := List.replicate 40 97
  replid2 := List.replicate 40 48
  second_replid_offset := none
  offset := 29
  replid_shared := true
  link_state := .kTransfer
  link_buf := [120]
  handshake_replies := 3
  transfer_path := lit "temp-repl-1.snap"
  transfer_replid := List.replicate 40 98
  transfer_offset := 500
  transfer_remaining := some 1
  transfer := []
  why := []

theorem failed_resync_denotes_fsync :
    Denotes one_byte (one_byte.step (.turn { fsync_error := some (lit "EIO") })) :=
  (failed_resync_denotes_iff (Or.inr rfl) .refl (.turn { fsync_error := some (lit "EIO") })
    (by decide +kernel)).mpr (Or.inr (Or.inl fun h => by
      obtain ⟨-, _, _, _, _, _, hsync⟩ := h
      simp at hsync))

theorem corrupt_snapshot_clears_dataset :
    (one_byte.step (.turn {})).link_state = .kConnect ∧
      (one_byte.step (.turn {})).why
        = lit "loading the master's snapshot: temp-repl-1.snap: not a snapshot file (bad magic)" ∧
      psync_command (one_byte.step (.turn {}))
        = [lit "PSYNC", one_byte.replid, to_string one_byte.offset] ∧
      ¬ Denotes one_byte (one_byte.step (.turn {})) := by
  refine ⟨by decide +kernel, by decide +kernel, by decide +kernel, ?_⟩
  rintro (⟨-, -, hview⟩ | hanon)
  · have hbefore : one_byte.store.view (lit "k") = some (lit "v", none) := by decide +kernel
    have hafter : (one_byte.step (.turn {})).store.view (lit "k") = none := by decide +kernel
    rw [hview, hbefore] at hafter
    simp at hafter
  · exact absurd hanon (by decide +kernel)

end EpochKV.Resync

/-
The append-only file (`aof.cpp`): a directory with a manifest, a base snapshot and the incr
files that hold the commands since.

Every operation takes an `Io` that says what becomes of the system calls it makes, so a run
with failures is a run with other `Io`s. An error number is known by what `strerror` says of
it. A file of the log is known by its kind and sequence number, from which the source makes
its name; the manifest is the list of its entries, and the text of its lines is left out.

The thread that syncs in the background under `everysec` goes through three stages, and the
error it leaves is visible before it is ready for the next file (`Worker`).
-/
import EpochKV.Resp
import EpochKV.SnapshotIo

set_option autoImplicit false

namespace EpochKV

open Text

inductive FsyncPolicy where
  | kAlways
  | kEverySec
  | kNo
  deriving DecidableEq

namespace Aof

/-- An error number, by what `strerror` says of it. -/
abbrev Errno := Bytes

/-- Milliseconds of the steady clock. -/
abbrev Time := Int

def kEverySecInterval : Time := 1000

structure FileEntry where
  seq : Nat
  is_base : Bool
  deriving DecidableEq

/-- The directory, as a process that starts now would find it. -/
structure Dir where
  manifest : Option (List FileEntry) := none
  base : Nat → Option Bytes := fun _ => none
  incr : Nat → Option Bytes := fun _ => none

/-- One call of `write`. -/
inductive WriteResult where
  | wrote (n : Nat)
  | eintr
  | error (errno : Errno)

/-- A file that is written beside the old one and then renamed over it: `durable_rename`
fails before the rename, or after it, when the directory is synced. -/
inductive Replaced where
  | done
  | failed (errno : Errno)
  | renamed (errno : Errno)

/-- What becomes of the system calls of one operation. -/
structure Io where
  now : Time := 0
  /-- The calls of `write`; those not listed write all that is left. -/
  writes : List WriteResult := []
  ftruncate : Option Errno := none
  /-- `fdatasync` in `flush`, under `always`. -/
  group_sync : Option Errno := none
  /-- `fdatasync` in `flush_and_sync`. -/
  fdatasync : Option Errno := none
  /-- That of the background thread, if it is waited for. -/
  background : Option Errno := none
  mkdir : Option Errno := none
  save_base : Replaced := .done
  open_incr : Option Errno := none
  manifest : Replaced := .done
  unlink : Bool := true

/-! ## The background thread -/

inductive Stage where
  | idle
  | syncing
  /-- The error is stored, the next file is not yet accepted. -/
  | synced
  deriving DecidableEq

/-- `FsyncWorker`. -/
structure Worker where
  stage : Stage := .idle
  last_errno : Option Errno := none
  deriving DecidableEq

def Worker.try_submit (w : Worker) : Bool × Worker :=
  if w.stage = .idle then (true, { w with stage := .syncing }) else (false, w)

/-- The next thing the thread does; `result` is what `fdatasync` reports. -/
def Worker.run (w : Worker) (result : Option Errno) : Worker :=
  match w.stage with
  | .idle => w
  | .syncing => { stage := .synced, last_errno := result }
  | .synced => { w with stage := .idle }

/-- Blocks until the thread has nothing to do. -/
def Worker.wait_idle (w : Worker) (result : Option Errno) : Worker := (w.run result).run result

end Aof

/-- `AppendOnlyFile`, with its directory. -/
structure Aof where
  policy : FsyncPolicy
  /-- `dir_`. -/
  path : Bytes := lit "./appendonlydir"
  dir : Aof.Dir := {}
  /-- There is one under `everysec` only; under the other policies it is never used. -/
  fsync_worker : Aof.Worker := {}
  base : Option Nat := none
  /-- The last one is being appended to. -/
  incrs : List Nat := []
  next_seq : Nat := 1
  /-- The incr file that is open. -/
  fd : Option Nat := none
  buf : Bytes := []
  write_errno : Option Aof.Errno := none
  unsynced : Bool := false
  last_fsync : Aof.Time := 0
  base_bytes : Nat := 0
  older_incr_bytes : Nat := 0
  incr_bytes : Nat := 0
  size_after_rewrite : Nat := 0

namespace Aof

def current_size (a : Aof) : Nat := a.base_bytes + a.older_incr_bytes + a.incr_bytes

/-! ## Files -/

/-- `fileutil::join`. -/
def join (dir name : Bytes) : Bytes :=
  if dir = [] then name
  else if dir.getLast? = some 47 then dir ++ name else dir ++ lit "/" ++ name

def base_name (seq : Nat) : Bytes := lit "appendonly.aof." ++ to_string seq ++ lit ".base.snap"

def incr_name (seq : Nat) : Bytes := lit "appendonly.aof." ++ to_string seq ++ lit ".incr.aof"

def kManifestName : Bytes := lit "appendonly.aof.manifest"

/-- `fileutil::write_all`: how many of `len` bytes get out, and the error that stopped it. -/
def write_all (len : Nat) : List WriteResult → Nat → Nat × Option Errno
  | [], _ => (len, none)
  | call :: calls, written =>
    if len ≤ written then (written, none)
    else
      match call with
      | .wrote n => write_all len calls (written + min n (len - written))
      | .eintr => write_all len calls written
      | .error e => (written, some e)

namespace Dir

/-- The file is open for appending. -/
def append (d : Dir) (fd : Option Nat) (data : Bytes) : Dir :=
  match fd with
  | none => d
  | some n => { d with incr := Function.update d.incr n ((d.incr n).map (· ++ data)) }

/-- A shorter file is filled up with zeros. -/
def resize (content : Bytes) (size : Nat) : Bytes :=
  content.take size ++ List.replicate (size - content.length) 0

def truncate (d : Dir) (fd : Option Nat) (size : Nat) : Dir :=
  match fd with
  | none => d
  | some n => { d with incr := Function.update d.incr n ((d.incr n).map (resize · size)) }

def create_incr (d : Dir) (n : Nat) : Dir := { d with incr := Function.update d.incr n (some []) }

def unlink_incr (d : Dir) (n : Nat) : Dir := { d with incr := Function.update d.incr n none }

def create_base (d : Dir) (n : Nat) (snapshot : Bytes) : Dir :=
  { d with base := Function.update d.base n (some snapshot) }

end Dir

/-- The lines of the manifest. -/
def entries (base : Option Nat) (incrs : List Nat) : List FileEntry :=
  (base.map fun n => ⟨n, true⟩).toList ++ incrs.map fun n => ⟨n, false⟩

/-- The error, if one is reported, and the directory: the manifest may be the new one even
so. What is written is the list of entries, not the text the source makes of it. -/
def persist_manifest (d : Dir) (base : Option Nat) (incrs : List Nat) (io : Io) :
    Option Bytes × Dir :=
  match io.manifest with
  | .done => (none, { d with manifest := some (entries base incrs) })
  | .failed e => (some (lit "writing the AOF manifest: " ++ e), d)
  | .renamed e =>
    (some (lit "writing the AOF manifest: " ++ e), { d with manifest := some (entries base incrs) })

/-- `create`: a base of the current data, and an empty incr file. The error is the first
component. -/
def create (a : Aof) (store : Store) (io : Io) : Option Bytes × Aof :=
  match io.mkdir with
  | some e => (some (a.path ++ lit ": " ++ e), a)
  | none =>
    let snapshot := Snapshot.write_buffered store store.now
    let saved := { a with dir := a.dir.create_base a.next_seq snapshot }
    match io.save_base with
    | .failed e => (some (lit "writing the AOF base: " ++ e), a)
    | .renamed e => (some (lit "writing the AOF base: " ++ e), saved)
    | .done =>
      let incr := a.next_seq + 1
      match io.open_incr with
      | some e => (some (join a.path (incr_name incr) ++ lit ": " ++ e), saved)
      | none =>
        let named := { saved with base := some a.next_seq, incrs := [incr] }
        let m := persist_manifest (saved.dir.create_incr incr) named.base named.incrs io
        match m.1 with
        | some error => (some error, { named with dir := m.2 })
        | none =>
          let a := { named with
            dir := m.2
            next_seq := a.next_seq + 2
            fd := some incr
            base_bytes := snapshot.length
            older_incr_bytes := 0
            incr_bytes := 0 }
          (none, { a with size_after_rewrite := a.current_size })

/-! ## Logging -/

def feed (a : Aof) (argv : Args) : Aof := { a with buf := a.buf ++ Resp.command argv }

/-- A write that did not get everything out. What did is cut off again; if that fails too it
stays, and only the rest is tried again. -/
def short_write (a : Aof) (written : Nat) (errno : Option Errno) (io : Io) : Aof :=
  let a := { a with
    dir := a.dir.append a.fd (a.buf.take written)
    write_errno := errno }
  if 0 < written then
    match io.ftruncate with
    | none => { a with dir := a.dir.truncate a.fd a.incr_bytes }
    | some _ => { a with incr_bytes := a.incr_bytes + written, buf := a.buf.drop written }
  else a

/-- Everything is in the file. -/
def full_write (a : Aof) : Aof :=
  { a with
    dir := a.dir.append a.fd a.buf
    incr_bytes := a.incr_bytes + a.buf.length
    buf := []
    write_errno := none
    unsynced := true }

/-- The part of `flush` for a buffer that is not empty. -/
def write_buf (a : Aof) (io : Io) : Bool × Aof :=
  let w := write_all a.buf.length io.writes 0
  if w.1 < a.buf.length then (false, a.short_write w.1 w.2 io)
  else if a.policy = .kAlways then
    match io.group_sync with
    | some e => (false, { a.full_write with write_errno := some e })
    | none => (true, { a.full_write with unsynced := false })
  else (true, a.full_write)

/-- The second part of `flush`: under `everysec`, the thread is given the file to sync. -/
def submit (a : Aof) (now : Time) : Aof :=
  if a.policy = .kEverySec ∧ a.unsynced = true ∧ kEverySecInterval ≤ now - a.last_fsync then
    let s := a.fsync_worker.try_submit
    if s.1 then { a with fsync_worker := s.2, unsynced := false, last_fsync := now } else a
  else a

def flush (a : Aof) (io : Io) : Bool × Aof :=
  if a.buf = [] then (true, a.submit io.now)
  else
    let w := a.write_buf io
    if w.1 then (true, w.2.submit io.now) else (false, w.2)

/-- Waits for the thread, if there is one. -/
def wait_idle (a : Aof) (result : Option Errno) : Aof :=
  if a.policy = .kEverySec then { a with fsync_worker := a.fsync_worker.wait_idle result } else a

def flush_and_sync (a : Aof) (io : Io) : Bool × Aof :=
  let f := a.flush io
  if f.1 = false then (false, f.2)
  else
    let a := f.2.wait_idle io.background
    match io.fdatasync with
    | some e => (false, { a with write_errno := some e })
    | none => (true, { a with unsynced := false })

/-- The error of the thread, if there is one. -/
def worker_errno (a : Aof) : Option Errno :=
  if a.policy = .kEverySec then a.fsync_worker.last_errno else none

def healthy (a : Aof) : Bool := a.write_errno = none ∧ a.worker_errno = none

def last_error (a : Aof) : Bytes :=
  (a.write_errno.or a.worker_errno).getD (lit "no error")

/-- Step 1 of a rewrite: new writes go to a new incr file. -/
def begin_rewrite (a : Aof) (io : Io) : Option Bytes × Aof :=
  let f := a.flush_and_sync io
  let a := f.2
  if f.1 = false then (some (lit "flushing the AOF before rewrite: " ++ a.last_error), a)
  else
    let incr := a.next_seq
    match io.open_incr with
    | some e => (some (join a.path (incr_name incr) ++ lit ": " ++ e), a)
    | none =>
      let m := persist_manifest (a.dir.create_incr incr) a.base (a.incrs ++ [incr]) io
      match m.1 with
      | some error =>
        (some error, { a with dir := if io.unlink then m.2.unlink_incr incr else m.2 })
      | none =>
        (none, { a with
          dir := m.2
          incrs := a.incrs ++ [incr]
          next_seq := a.next_seq + 1
          fd := some incr
          older_incr_bytes := a.older_incr_bytes + a.incr_bytes
          incr_bytes := 0 })

end Aof

end EpochKV

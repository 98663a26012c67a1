/-
Keyspaces whose entries carry deadlines, and what a log of writes means on one.

A cell is nothing, or a value with an optional deadline. A log is a list of
writes; the same log can be run in three ways:

* by the **owner** of the data, who ran each write at its own time and dropped the
  key when the write brought a deadline that was already due (`runOwner`);
* by an **active** reader, who runs the whole log at one later time and drops
  whatever is due before and after each write (`runActive`);
* by a **passive** reader, who drops nothing, but does not see a due cell when a
  write asks for the old deadline (`runPassive`).

The three agree exactly when no write keeps, extends or removes a deadline that
the reader already considers passed. That is `Stale` below, and
`active_live_iff` is the one-cell statement everything above this file uses. Keys,
values and times are arbitrary; times need a linear order.
-/
import Mathlib.Order.Lattice
import Mathlib.Logic.Function.Basic
import Mathlib.Tactic.Common

set_option autoImplicit false

namespace EpochKV.Keyspace

variable {K V T : Type*}

/-! ## One cell -/

/-- What is stored under a key: nothing, or a value and perhaps a deadline. -/
abbrev Cell (V T : Type*) := Option (V × Option T)

/-- A logged write to one key. -/
inductive Write (V T : Type*) where
  /-- Store the value, without a deadline. -/
  | put (v : V)
  /-- Store the value with this deadline. -/
  | putAt (v : V) (d : T)
  /-- Store the value under whatever deadline the key has. -/
  | keep (v : V)
  /-- Give the key this deadline, if it exists. -/
  | expireAt (d : T)
  /-- Take the key's deadline away. -/
  | persist
  | del
  deriving DecidableEq

namespace Write

/-- The meaning of a write, without any clock. -/
def run : Write V T → Cell V T → Cell V T
  | put v, _ => some (v, none)
  | putAt v d, _ => some (v, some d)
  | keep v, c => some (v, c.bind Prod.snd)
  | expireAt d, c => c.map fun e => (e.1, some d)
  | persist, c => c.map fun e => (e.1, none)
  | del, _ => none

/-- The writes whose effect depends on the deadline the key already has. -/
def usesTtl : Write V T → Bool
  | keep _ | expireAt _ | persist => true
  | put _ | putAt _ _ | del => false

/-- The deadline a write gives its key. -/
def deadline : Write V T → Option T
  | putAt _ d | expireAt d => some d
  | put _ | keep _ | persist | del => none

end Write

variable [LinearOrder T]

/-- The cell as seen at time `t`: a passed deadline hides it. -/
def live (t : T) : Cell V T → Cell V T
  | some (v, some d) => if d ≤ t then none else some (v, some d)
  | some (v, none) => some (v, none)
  | none => none

@[simp] theorem live_none (t : T) : live t (none : Cell V T) = none := rfl

@[simp] theorem live_some_none (t : T) (v : V) : live t (some (v, none)) = some (v, none) := rfl

theorem live_some_some (t : T) (v : V) (d : T) :
    live t (some (v, some d)) = if d ≤ t then none else some (v, some d) := rfl

variable {t : T}

/-- A later look hides everything an earlier one hid. -/
theorem live_live {t' : T} (h : t ≤ t') (c : Cell V T) : live t' (live t c) = live t' c := by
  match c with
  | none => rfl
  | some (v, none) => rfl
  | some (v, some d) =>
    by_cases hd : d ≤ t
    · rw [live_some_some, if_pos hd, live_none, live_some_some, if_pos (hd.trans h)]
    · rw [live_some_some, if_neg hd]

/-- Either the cell is visible as it is, or its deadline is passed at `t` and hides it. -/
theorem live_cases (t : T) (c : Cell V T) :
    live t c = c ∨ ∃ v d, c = some (v, some d) ∧ d ≤ t ∧ live t c = none := by
  match c with
  | none => exact Or.inl rfl
  | some (v, none) => exact Or.inl rfl
  | some (v, some d) =>
    rw [live_some_some]
    split
    case isTrue h => exact Or.inr ⟨v, d, rfl, h, rfl⟩
    case isFalse => exact Or.inl rfl

theorem live_eq_none_or (t : T) (c : Cell V T) : live t c = none ∨ live t c = c := by
  rcases live_cases t c with h | ⟨v, d, -, -, h⟩
  · exact Or.inr h
  · exact Or.inl h

variable {c : Cell V T}

/-- What can be seen is there. -/
theorem eq_of_live_eq_some {e : V × Option T} (h : live t c = some e) : c = some e := by
  rcases live_eq_none_or t c with hn | hs
  · rw [hn] at h
    simp at h
  · rw [← hs, h]

namespace Write

/-- The owner of the data: the write runs, and a deadline it brings along is
checked against the clock at once. -/
def owner (s : T) (w : Write V T) (c : Cell V T) : Cell V T :=
  if w.deadline.isSome then live s (w.run c) else w.run c

/-- A reader that expires on its own clock: the key is dropped if due, the write
runs, and the result is dropped if due. -/
def active (t : T) (w : Write V T) (c : Cell V T) : Cell V T := live t (w.run (live t c))

/-- A reader that never drops anything, but for which a due key does not exist:
`keep` starts without a deadline, `expireAt` and `persist` do nothing. -/
def passive (t : T) (w : Write V T) (c : Cell V T) : Cell V T :=
  match w with
  | keep v => some (v, (live t c).bind Prod.snd)
  | expireAt _ | persist => if (live t c).isSome then w.run c else c
  | put _ | putAt _ _ | del => w.run c

end Write

/-- **The writes a later reader gets wrong.** The key has a deadline the reader
considers passed, and the write keeps it, removes it, or moves it past the
reader's time. -/
def Stale (t : T) (w : Write V T) (c : Cell V T) : Prop :=
  ∃ v d, c = some (v, some d) ∧ d ≤ t ∧
    match w with
    | .keep _ | .persist => True
    | .expireAt d' => t < d'
    | .put _ | .putAt _ _ | .del => False

variable {w : Write V T}

theorem stale_usesTtl (h : Stale t w c) : w.usesTtl = true := by
  obtain ⟨v, d, -, -, hw⟩ := h
  cases w <;> first | rfl | exact hw.elim

theorem not_stale_none (t : T) (w : Write V T) : ¬ Stale t w none := by
  rintro ⟨v, d, h, -⟩
  exact absurd h (by simp)

/-- **An active reader at `t` follows the owner exactly on the writes that are
not stale for it.** Both directions: on a stale write it is wrong at once. -/
theorem active_live_iff (t : T) (w : Write V T) (c : Cell V T) :
    w.active t (live t c) = live t (w.run c) ↔ ¬ Stale t w c := by
  unfold Write.active
  rw [live_live le_rfl]
  match c with
  | none => exact iff_of_true rfl (not_stale_none t w)
  | some (v, none) =>
    refine iff_of_true rfl ?_
    rintro ⟨v', d, h, -⟩
    simp at h
  | some (v, some d) =>
    by_cases hd : d ≤ t
    · -- the reader does not have the key any more; the owner's write found it
      rw [live_some_some, if_pos hd]
      cases w with
      | put | putAt | del => simp [Write.run, Stale]
      | keep v' => simp [Write.run, Stale, live_some_some, hd]
      | persist => simp [Write.run, Stale, hd]
      | expireAt d' =>
        by_cases hd' : d' ≤ t
        · simp [Write.run, Stale, live_some_some, hd, hd']
        · simp [Write.run, Stale, live_some_some, hd, hd', lt_of_not_ge hd']
    · rw [live_some_some, if_neg hd]
      refine iff_of_true rfl ?_
      rintro ⟨v', d', h, hle, -⟩
      simp only [Option.some.injEq, Prod.mk.injEq] at h
      exact hd (h.2 ▸ hle)

/-- A later look does not tell what the owner dropped from what it kept. -/
theorem live_owner {s : T} (w : Write V T) (c : Cell V T)
    (hs : ∀ d, w.deadline = some d → t < d → s < d) : live t (w.owner s c) = live t (w.run c) := by
  unfold Write.owner
  split
  case isFalse => rfl
  case isTrue hd =>
    obtain ⟨d, hd⟩ := Option.isSome_iff_exists.mp hd
    have hrun : w.run c = none ∨ ∃ v, w.run c = some (v, some d) := by
      cases w <;> cases c <;> simp_all [Write.run, Write.deadline]
    rcases hrun with h | ⟨v, h⟩
    · rw [h, live_none]
    · rw [h, live_some_some s]
      split
      case isFalse => rfl
      case isTrue hds =>
        -- the owner dropped the key at `s`, so the deadline is passed at `t` too
        have hdt : d ≤ t := not_lt.mp fun hlt => absurd (hs d hd hlt) (not_lt.mpr hds)
        rw [live_none, live_some_some, if_pos hdt]

/-- Where it can see the key, a passive reader runs the write as it stands. -/
theorem passive_eq_run (hc : w.usesTtl = true → live t c = c) : w.passive t c = w.run c := by
  cases w with
  | put | putAt | del => rfl
  | keep v => simp [Write.passive, Write.run, hc rfl]
  | persist | expireAt d =>
    cases c with
    | none => rfl
    | some e => simp [Write.passive, hc rfl]

/-- **A passive reader at the owner's own time does what the owner does**, unless
the write itself carries a deadline that is already due: there the owner drops
the key and the reader keeps it. -/
theorem passive_eq_owner_iff (hc : w.usesTtl = true → live t c = c)
    (hx : ∀ d, w = .expireAt d → t < d) :
    w.passive t c = w.owner t c ↔ ∀ v d, w = .putAt v d → t < d := by
  rw [passive_eq_run hc]
  cases w with
  | put v | keep v | persist | del => simp [Write.owner, Write.deadline]
  | putAt v d => simp [Write.owner, Write.run, Write.deadline, live_some_some]
  | expireAt d =>
    have hd : ¬ d ≤ t := not_le.mpr (hx d rfl)
    refine iff_of_true ?_ (by simp)
    cases c <;> simp [Write.owner, Write.run, Write.deadline, live_some_some, hd]

/-- The time of a write that brings no deadline does not matter. -/
theorem owner_eq_of_deadline_none (h : w.deadline = none) (s t : T) (c : Cell V T) :
    w.owner s c = w.owner t c := by
  simp [Write.owner, h]

/-- What a passive reader at `t` can see after a write is what an active reader
has. -/
theorem live_passive (t : T) (w : Write V T) (r : Cell V T) :
    live t (w.passive t r) = w.active t (live t r) := by
  unfold Write.active
  rw [live_live le_rfl]
  cases w with
  | put | putAt | del | keep => rfl
  | persist | expireAt d =>
    rcases live_eq_none_or t r with h | h
    · simp [Write.passive, Write.run, h]
    · cases r with
      | none => rfl
      | some e => simp [Write.passive, h]

/-! ## A keyspace and a log -/

/-- Every key's cell. -/
abbrev Space (K V T : Type*) := K → Cell V T

/-- A write to a key, and the time its owner ran it. -/
structure Timed (K V T : Type*) where
  time : T
  key : K
  write : Write V T

/-- The keyspace as seen at time `t`. -/
def visible (t : T) (m : Space K V T) : Space K V T := fun k => live t (m k)

variable [DecidableEq K]

/-- Each entry of the log changes the cell of its own key by `f`. -/
def runWith (f : T → Write V T → Cell V T → Cell V T) (ops : List (Timed K V T))
    (m : Space K V T) : Space K V T :=
  ops.foldl (fun m e => Function.update m e.key (f e.time e.write (m e.key))) m

/-- The owner's run: every write at its own time. -/
def runOwner (ops : List (Timed K V T)) (m : Space K V T) : Space K V T :=
  runWith Write.owner ops m

/-- An active reader at the one time `t`. -/
def runActive (t : T) (ops : List (Timed K V T)) (m : Space K V T) : Space K V T :=
  runWith (fun _ => Write.active t) ops m

/-- A passive reader at the one time `t`. -/
def runPassive (t : T) (ops : List (Timed K V T)) (m : Space K V T) : Space K V T :=
  runWith (fun _ => Write.passive t) ops m

/-- The writes without any clock. -/
def runUntimed (ops : List (Timed K V T)) (m : Space K V T) : Space K V T :=
  runWith (fun _ => Write.run) ops m

omit [LinearOrder T] in
@[simp] theorem runWith_nil (f : T → Write V T → Cell V T → Cell V T) (m : Space K V T) :
    runWith f [] m = m := rfl

omit [LinearOrder T] in
@[simp] theorem runWith_cons (f : T → Write V T → Cell V T → Cell V T) (e : Timed K V T)
    (ops : List (Timed K V T)) (m : Space K V T) :
    runWith f (e :: ops) m
      = runWith f ops (Function.update m e.key (f e.time e.write (m e.key))) := rfl

omit [LinearOrder T] in
theorem runWith_append (f : T → Write V T → Cell V T → Cell V T) (ops ops' : List (Timed K V T))
    (m : Space K V T) : runWith f (ops ++ ops') m = runWith f ops' (runWith f ops m) :=
  List.foldl_append

/-- `P` holds of every entry and of the cell the owner's run applies it to. -/
def Along (P : Timed K V T → Cell V T → Prop) : List (Timed K V T) → Space K V T → Prop
  | [], _ => True
  | e :: ops, m =>
    P e (m e.key) ∧ Along P ops (Function.update m e.key (e.write.owner e.time (m e.key)))

theorem along_append (P : Timed K V T → Cell V T → Prop) (ops ops' : List (Timed K V T))
    (m : Space K V T) :
    Along P (ops ++ ops') m ↔ Along P ops m ∧ Along P ops' (runOwner ops m) := by
  induction ops generalizing m with
  | nil => simp [Along, runOwner]
  | cons e ops ih =>
    simp only [List.cons_append, Along, ih, and_assoc]
    rfl

variable {P : Timed K V T → Cell V T → Prop}

theorem along_of_forall :
    ∀ {ops : List (Timed K V T)} {m : Space K V T}, (∀ e ∈ ops, ∀ c, P e c) → Along P ops m
  | [], _, _ => trivial
  | e :: _, _, h =>
    ⟨h e List.mem_cons_self _, along_of_forall fun e' he' => h e' (List.mem_cons_of_mem e he')⟩

theorem Along.and_of_forall {Q : Timed K V T → Cell V T → Prop} :
    ∀ {ops : List (Timed K V T)} {m : Space K V T}, (∀ e ∈ ops, ∀ c, Q e c) → Along P ops m →
      Along (fun e c => Q e c ∧ P e c) ops m
  | [], _, _, _ => trivial
  | e :: _, _, h, hp =>
    ⟨⟨h e List.mem_cons_self _, hp.1⟩,
      hp.2.and_of_forall fun e' he' => h e' (List.mem_cons_of_mem e he')⟩

variable {ops : List (Timed K V T)} {m : Space K V T} {f : T → Write V T → Cell V T → Cell V T}
  {r : Space K V T}

/-- **A reader that follows the owner cell by cell follows it over a whole log.**
`R` is what the reader's cell and the owner's are compared by. -/
theorem runWith_simulates {R : Cell V T → Cell V T → Prop}
    (step : ∀ e r c, P e c → R r c → R (f e.time e.write r) (e.write.owner e.time c))
    (hP : Along P ops m) (h : ∀ k, R (r k) (m k)) (k : K) :
    R (runWith f ops r k) (runOwner ops m k) := by
  induction ops generalizing r m with
  | nil => exact h k
  | cons e ops ih =>
    refine ih hP.2 fun j => ?_
    by_cases hj : j = e.key
    · subst hj
      simpa using step e _ _ hP.1 (h _)
    · simpa [Function.update_of_ne hj] using h j

/-- A reader that does what the owner does at every write it meets ends where the owner
ends. -/
theorem runWith_eq_runOwner
    (h : Along (fun e c => f e.time e.write c = e.write.owner e.time c) ops m) :
    runWith f ops m = runOwner ops m := by
  funext k
  refine runWith_simulates (R := fun r c => r = c) ?_ h (fun _ => rfl) k
  rintro e r c he rfl
  exact he

/-- The owner's deadline check at its own time cannot disagree with a look at `t`. -/
def Settled (t : T) (e : Timed K V T) : Prop :=
  ∀ d, e.write.deadline = some d → t < d → e.time < d

omit [DecidableEq K] in
theorem settled_of_le {e : Timed K V T} (h : e.write.deadline ≠ none → e.time ≤ t) :
    Settled t e := fun d hd ht => (h (by simp [hd])).trans_lt ht

/-- **Replay at a later time.** An active reader at `t` ends with what is visible
of the owner's keyspace at `t`, if no write of the log is stale at `t`. -/
theorem runActive_visible (h : Along (fun e c => Settled t e ∧ ¬ Stale t e.write c) ops m) :
    runActive t ops (visible t m) = visible t (runOwner ops m) := by
  funext k
  refine runWith_simulates (R := fun r c => r = live t c) ?_ h (fun _ => rfl) k
  rintro e r c ⟨hs, hw⟩ rfl
  rw [(active_live_iff t _ c).mpr hw, live_owner _ _ hs]

/-- **Following the log passively.** A passive reader at `t` that saw the same as
the owner at `t` still does after the log, if no write of it is stale at `t`. -/
theorem visible_runPassive (hr : visible t r = visible t m)
    (h : Along (fun e c => Settled t e ∧ ¬ Stale t e.write c) ops m) :
    visible t (runPassive t ops r) = visible t (runOwner ops m) := by
  funext k
  refine runWith_simulates (R := fun r c => live t r = live t c) ?_ h (fun j => congrFun hr j) k
  rintro e r c ⟨hs, hw⟩ hrc
  rw [live_passive, hrc, (active_live_iff t _ c).mpr hw, live_owner _ _ hs]

end EpochKV.Keyspace

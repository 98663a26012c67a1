/-
A slot on its way from one node to another, seen by a client that follows redirects.

`route` decides on one node, with that node's marks and that node's keys. Here the nodes
stand side by side: a client sends its command to one of them, goes where a MOVED or an ASK
points, says ASKING first in the second case, and stops when a node runs the command
(`World.journey`). While a slot moves the answers fit together: the source serves what it
still holds, everything else goes to the target, and no other node serves anything but reads
of clients that accept a replica's data.
-/
import EpochKV.Journal

set_option autoImplicit false

namespace EpochKV.Redirects

open Text Slots Keyspace Commands Store

/-! ## Error lines that send a client on -/

/-- The address behind the slot number. -/
def address_of (rest : Bytes) : Bytes := (rest.dropWhile (· ≠ 32)).drop 1

/-- Whether ASKING goes first, and the address to go to. -/
def redirection (e : Bytes) : Option (Bool × Bytes) :=
  if lit "MOVED " <+: e then some (false, address_of (e.drop 6))
  else if lit "ASK " <+: e then some (true, address_of (e.drop 4))
  else none

theorem address_of_slot (slot : Nat) (addr : Bytes) :
    address_of (to_string slot ++ lit " " ++ addr) = addr := by
  have hdigits : ∀ b ∈ nat_to_string slot, decide (b ≠ 32) = true := by
    intro b hb
    obtain ⟨hge, -⟩ := digit_of_mem_nat_to_string hb
    rw [decide_eq_true_eq]
    rintro rfl
    exact absurd hge (by decide)
  have htext : to_string slot = nat_to_string slot := by simp [to_string]
  rw [address_of, htext, List.append_assoc, List.dropWhile_append_of_pos hdigits]
  rfl

theorem redirection_moved (slot : Nat) (addr : Bytes) :
    redirection (lit "MOVED " ++ to_string slot ++ lit " " ++ addr) = some (false, addr) := by
  rw [redirection, List.append_assoc, List.append_assoc, if_pos (List.prefix_append _ _),
    List.drop_left' (by decide), ← List.append_assoc, address_of_slot]

theorem redirection_ask (slot : Nat) (addr : Bytes) :
    redirection (lit "ASK " ++ to_string slot ++ lit " " ++ addr) = some (true, addr) := by
  have hother : ¬ lit "MOVED " <+: lit "ASK " ++ (to_string slot ++ (lit " " ++ addr)) := by
    rintro ⟨t, ht⟩
    have hhead := congrArg List.head? ht
    rw [show lit "MOVED " = 77 :: [79, 86, 69, 68, 32] by decide,
      show lit "ASK " = 65 :: [83, 75, 32] by decide] at hhead
    simp at hhead
  rw [redirection, List.append_assoc, List.append_assoc, if_neg hother,
    if_pos (List.prefix_append _ _), List.drop_left' (by decide), ← List.append_assoc,
    address_of_slot]

/-! ## Nodes and clients -/

/-- A node: what its `route` reads (for a `Cluster`, its `route_view`), and its keys. -/
structure Site where
  view : RouteView
  store : Store

abbrev World := NodeId → Site

/-- The routing of one command on node `n`. -/
def World.ask (w : World) (spec : CommandSpec) (argv : Args) (asking readonly : Bool) (n : NodeId) :
    Option Bytes × Store :=
  redirect { client := some { asking, readonly }, cluster := some (w n).view } spec argv (w n).store

/-- A client sends the command to node `n`, with ASKING before it if `asking`, and follows
what it is told for at most that many sends. `find` is how it finds the node at an address.
Returns the node that ran the command, if one did, and the nodes as they are then. -/
def World.journey (find : Bytes → Option NodeId) (spec : CommandSpec) (argv : Args)
    (readonly : Bool) : Nat → NodeId → Bool → World → Option NodeId × World
  | 0, _, _, w => (none, w)
  | sends + 1, n, asking, w =>
    let r := w.ask spec argv asking readonly n
    let w := Function.update w n { w n with store := r.2 }
    match r.1 with
    | none => (some n, w)
    | some e =>
      match redirection e with
      | none => (none, w)
      | some (asking, addr) =>
        match find addr with
        | none => (none, w)
        | some m => World.journey find spec argv readonly sends m asking w

/-- The slot moves from `a` to `b`, and the nodes agree on everything else `route` asks of
all of them. -/
structure Moving (nodes : Set NodeId) (w : World) (find : Bytes → Option NodeId) (a b : NodeId)
    (slot : Slot) : Prop where
  source_mem : a ∈ nodes
  target_mem : b ∈ nodes
  ne : a ≠ b
  myself : ∀ n ∈ nodes, (w n).view.myself = n
  state_ok : ∀ n ∈ nodes, (w n).view.state_ok = true
  owner : ∀ n ∈ nodes, (w n).view.owner slot = some a
  migrating : (w a).view.migrating_to slot = some b
  importing : (w b).view.importing_from slot = some a
  /-- A node that takes a slot over is no replica of the one it takes it from. -/
  target_master : (w b).view.my_master ≠ some a
  /-- Addresses lead where they should. -/
  find_source : ∀ n ∈ nodes, find ((w n).view.address a) = some a
  find_target : find ((w a).view.address b) = some b

variable {slot : Slot}

theorem Moving.of_views {nodes : Set NodeId} {w w' : World} {find : Bytes → Option NodeId}
    {a b : NodeId} (hm : Moving nodes w find a b slot) (h : ∀ n, (w' n).view = (w n).view) :
    Moving nodes w' find a b slot where
  source_mem := hm.source_mem
  target_mem := hm.target_mem
  ne := hm.ne
  myself := by simpa only [h] using hm.myself
  state_ok := by simpa only [h] using hm.state_ok
  owner := by simpa only [h] using hm.owner
  migrating := by simpa only [h] using hm.migrating
  importing := by simpa only [h] using hm.importing
  target_master := by simpa only [h] using hm.target_master
  find_source := by simpa only [h] using hm.find_source
  find_target := by simpa only [h] using hm.find_target

/-! ## One node's answer -/

/-- The key is not due at the next reading. -/
def Holds (s : Store) (key : Key) : Prop := (live s.now (s.view key)).isSome

instance (s : Store) (key : Key) : Decidable (Holds s key) :=
  inferInstanceAs (Decidable (_ = true))

variable {keys : List Key}

section Route

variable {v : RouteView} {key : Key} {s : Store} {a b : NodeId} {write asking readonly : Bool}

/-- The source of a move serves a key it has and asks for the others at the target. -/
theorem route_source (write asking readonly : Bool) (s : Store) (hok : v.state_ok = true) (hown : v.owner (key_hash_slot key) = some v.myself)
    (hmig : v.migrating_to (key_hash_slot key) = some b) :
    (route v [key] write asking readonly s).1 =
      if Holds s key then none
      else some (lit "ASK " ++ to_string (key_hash_slot key).val ++ lit " " ++ v.address b) := by
  have hhas := (contains_spec s key).1
  by_cases hh : Holds s key
  · rw [hh] at hhas
    simp [route, hok, hown, hmig, count_missing, hhas, hh]
  · rw [(Bool.not_eq_true _).mp hh] at hhas
    simp [route, hok, hown, hmig, count_missing, hhas, hh]

/-- A node that neither owns the slot, nor was told to take the command, nor may serve it
from a replica, names the owner. -/
theorem route_elsewhere (s : Store) (hok : v.state_ok = true) (hown : v.owner (key_hash_slot key) = some a)
    (hne : a ≠ v.myself) (hask : asking = true → v.importing_from (key_hash_slot key) = none)
    (hread : write = false → readonly = true → v.my_master ≠ some a) :
    (route v [key] write asking readonly s).1 =
      some (lit "MOVED " ++ to_string (key_hash_slot key).val ++ lit " " ++ v.address a) := by
  have htold : ¬ ((v.importing_from (key_hash_slot key)).isSome = true ∧ asking = true) := by
    rintro ⟨hi, ha⟩
    rw [hask ha] at hi
    simp at hi
  have hserve : ¬ ((!write) = true ∧ readonly = true ∧ v.my_master = some a) := by
    rintro ⟨hw, hr, hm⟩
    exact hread (by simpa using hw) hr hm
  unfold route
  simp only [List.any_nil, Bool.false_eq_true, if_false, hok, Bool.not_true, hown, hne, false_and,
    htold, hserve, ne_eq, not_false_eq_true, if_true]

/-- The target takes one key after ASKING, whether it has it or not. -/
theorem route_target (hok : v.state_ok = true) (hown : v.owner (key_hash_slot key) = some a)
    (hne : a ≠ v.myself) (himp : v.importing_from (key_hash_slot key) = some b) :
    (route v [key] write true readonly s).1 = none := by
  simp [route, hok, hown, hne, himp]

/-- Nothing missing: every key was there when it was asked for. -/
theorem held_of_count_missing {s : Store} (h : (count_missing keys s).1 = 0) :
    ∀ k ∈ keys, ∃ i, s.reads ≤ i ∧ i ≤ s.reads + keys.length ∧
      (live ((s.clock i : Nat) : Int) (s.view k)).isSome := by
  induction keys generalizing s with
  | nil => simp
  | cons key keys ih =>
    obtain ⟨hhas, hb⟩ := contains_spec s key
    rw [count_missing] at h
    cases hc : (s.contains key).1 with
    | false => simp [hc] at h
    | true =>
      rw [hc, if_pos rfl] at h
      rw [hc] at hhas
      -- the key is not due, so asking for it moved nothing
      have hself := (live_eq_none_or s.now (s.view key)).resolve_left fun hn => by simp [hn] at hhas
      rw [seen_of_live hself] at hb
      intro k hk
      rcases List.mem_cons.1 hk with rfl | hk
      · exact ⟨s.reads, le_rfl, by omega, hhas.symm⟩
      · obtain ⟨i, hi, hi', hlive⟩ := ih h k hk
        rw [hb.reads] at hi hi'
        rw [hb.clock, hb.view] at hlive
        have hasks := asks_le s key
        exact ⟨i, by omega, by rw [List.length_cons]; omega, hlive⟩

/-- The owner of a slot on its way out runs a command only if it has all its keys, and so does
a node that imports the slot if the keys are several. -/
theorem held_of_route (hslot : ∀ k ∈ keys, key_hash_slot k = slot) (hown : v.owner slot = some a)
    (hmove : a = v.myself ∧ (v.migrating_to slot).isSome ∨
      a ≠ v.myself ∧ (v.importing_from slot).isSome ∧ 1 < keys.length ∧ v.my_master ≠ some a)
    (h : (route v keys write asking readonly s).1 = none) : (count_missing keys s).1 = 0 := by
  cases keys with
  | nil => rfl
  | cons first more =>
    have hfirst := hslot first List.mem_cons_self
    unfold route at h
    dsimp only at h
    rw [hfirst] at h
    split at h
    · simp at h
    split at h
    · simp at h
    by_contra hmiss
    have hpos : 0 < (count_missing (first :: more) s).1 := by omega
    rcases hmove with ⟨rfl, hmig⟩ | ⟨hne, himp, hlen, hmaster⟩
    · simp only [hown, hmig, true_and, and_self, true_or, if_true] at h
      rw [if_pos hpos] at h
      split at h <;> simp at h
    · simp only [hown, hne, himp, false_and, or_true, if_true, if_false, true_and, hmaster, and_false,
        ne_eq, not_false_eq_true] at h
      split at h
      · rw [if_pos ⟨hlen, hpos⟩] at h
        simp at h
      · simp at h

end Route

/-! ## The journey -/

section Journey

variable {nodes : Set NodeId} {w : World} {find : Bytes → Option NodeId} {a b n : NodeId}
  {spec : CommandSpec} {argv : Args} {key : Key} {asking readonly : Bool}

theorem World.ask_eq (hkeys : command_keys spec argv = keys) (hne : keys ≠ []) :
    w.ask spec argv asking readonly n =
      route (w n).view keys spec.write (asking || spec.asking) readonly (w n).store := by
  have hfirst : spec.first_key ≠ 0 := by
    intro h0
    rw [command_keys, if_pos h0] at hkeys
    exact hne hkeys.symm
  simp only [World.ask, redirect, Bool.false_eq_true, hfirst, or_self, if_false, hkeys]

theorem World.journey_accepted (sends : Nat) (h : (w.ask spec argv asking readonly n).1 = none) :
    (World.journey find spec argv readonly (sends + 1) n asking w).1 = some n := by
  rw [World.journey]
  simp only [h]

/-- One redirect followed. The stores of the other nodes are as they were. -/
theorem World.journey_redirected (sends : Nat) {e addr : Bytes} {again : Bool} {m : NodeId}
    (h : (w.ask spec argv asking readonly n).1 = some e) (he : redirection e = some (again, addr))
    (hm : find addr = some m) :
    ∃ w' : World, (∀ k ≠ n, w' k = w k) ∧ (w' n).view = (w n).view ∧
      World.journey find spec argv readonly (sends + 1) n asking w =
        World.journey find spec argv readonly sends m again w' := by
  refine ⟨Function.update w n { w n with store := (w.ask spec argv asking readonly n).2 }, ?_, ?_, ?_⟩
  · intro k hk
    rw [Function.update_of_ne hk]
  · rw [Function.update_self]
  · rw [World.journey]
    simp only [h, he, hm]

/-- The source runs the command or passes it on to the target, which takes it. -/
theorem journey_from_source (hm : Moving nodes w find a b (key_hash_slot key))
    (hkeys : command_keys spec argv = [key]) (more : Nat) :
    (World.journey find spec argv readonly (more + 2) a asking w).1 =
      some (if Holds (w a).store key then a else b) := by
  have hmyself := hm.myself a hm.source_mem
  have hown : (w a).view.owner (key_hash_slot key) = some (w a).view.myself := by
    rw [hmyself]
    exact hm.owner a hm.source_mem
  have hask := route_source spec.write (asking || spec.asking) readonly (w a).store
    (hm.state_ok a hm.source_mem) hown hm.migrating
  rw [← World.ask_eq hkeys (by simp)] at hask
  by_cases hhas : Holds (w a).store key
  · rw [if_pos hhas] at hask ⊢
    exact World.journey_accepted (more + 1) hask
  · rw [if_neg hhas] at hask ⊢
    obtain ⟨w', hsame, -, hgo⟩ := World.journey_redirected (more + 1) hask (redirection_ask _ _)
      hm.find_target
    have hview : (w' b).view = (w b).view := by rw [hsame b hm.ne.symm]
    have htake : (w'.ask spec argv true readonly b).1 = none := by
      rw [World.ask_eq hkeys (by simp), hview, Bool.true_or]
      refine route_target (hm.state_ok b hm.target_mem) (hm.owner b hm.target_mem) ?_ hm.importing
      rw [hm.myself b hm.target_mem]
      exact hm.ne
    rw [hgo]
    exact World.journey_accepted more htake

end Journey

/-- **Redirects end, and keys are served in one place.** While a slot moves from `a` to `b`, a
command with one key, started at any node, is run after at most three sends: by `a` if `a` has
the key and by `b` otherwise. The start may not be a place that serves the command without
owning the slot: a replica of `a` asked for a read by a READONLY client, or an importing node
asked by a command that brings its own ASKING. A command with several keys is run by `a` only
if `a` has all of them, and by `b` only if `b` has; each key was there when it was looked for. -/
theorem redirects_end {nodes : Set NodeId} {w : World} {find : Bytes → Option NodeId} {a b : NodeId}
    {slot : Slot} (hm : Moving nodes w find a b slot) (spec : CommandSpec) (argv : Args)
    (readonly : Bool) :
    (∀ key, command_keys spec argv = [key] → key_hash_slot key = slot → ∀ n ∈ nodes,
      (n ≠ a → spec.write = false → readonly = true → (w n).view.my_master ≠ some a) →
      (n ≠ a → spec.asking = true → (w n).view.importing_from slot = none) →
      (World.journey find spec argv readonly 3 n false w).1 =
        some (if Holds (w a).store key then a else b))
    ∧ ∀ keys asking, command_keys spec argv = keys → 1 < keys.length →
        (∀ k ∈ keys, key_hash_slot k = slot) → ∀ n, n = a ∨ n = b →
        (w.ask spec argv asking readonly n).1 = none →
        ∀ k ∈ keys, ∃ i, (w n).store.reads ≤ i ∧ i ≤ (w n).store.reads + keys.length ∧
          (live (((w n).store.clock i : Nat) : Int) ((w n).store.view k)).isSome := by
  constructor
  · rintro key hkeys rfl n hn hread hask
    by_cases hna : n = a
    case pos =>
      rw [hna]
      exact journey_from_source hm hkeys 1
    case neg =>
      -- any other node names the source, and two more sends are left
      have hasked : (false || spec.asking) = true →
          (w n).view.importing_from (key_hash_slot key) = none := by simpa using hask hna
      have hmoved := route_elsewhere (w n).store (hm.state_ok n hn) (hm.owner n hn)
        (by rw [hm.myself n hn]; exact fun h => hna h.symm) hasked (hread hna)
      rw [← World.ask_eq hkeys (by simp)] at hmoved
      obtain ⟨w', hsame, hview, hgo⟩ := World.journey_redirected 2 hmoved (redirection_moved _ _)
        (hm.find_source n hn)
      have hviews : ∀ k, (w' k).view = (w k).view := by
        intro k
        by_cases hk : k = n
        · rw [hk, hview]
        · rw [hsame k hk]
      have hm' := hm.of_views hviews
      rw [hgo, journey_from_source hm' hkeys 0, hsame a (fun h => hna h.symm)]
  · intro keys asking hkeys hlen hslot n hn hrun
    have hne : keys ≠ [] := by
      rintro rfl
      simp at hlen
    rw [World.ask_eq hkeys hne] at hrun
    refine held_of_count_missing ?_
    rcases hn with rfl | rfl
    · refine held_of_route hslot (hm.owner n hm.source_mem) (Or.inl ⟨?_, ?_⟩) hrun
      · exact (hm.myself n hm.source_mem).symm
      · rw [hm.migrating]
        rfl
    · refine held_of_route hslot (hm.owner n hm.target_mem)
        (Or.inr ⟨?_, ?_, hlen, hm.target_master⟩) hrun
      · rw [hm.myself n hm.target_mem]
        exact hm.ne
      · rw [hm.importing]
        rfl

/-! ## Three nodes

Node 1 gives its slots to node 2; node 3 is a replica of node 1. Node 1 has the key `k`. -/

def scene : World := fun n =>
  { view :=
      { state_ok := true
        myself := n
        my_master := if n = 3 then some 1 else none
        owner := fun _ => some 1
        migrating_to := fun _ => if n = 1 then some 2 else none
        importing_from := fun _ => if n = 2 then some 1 else none
        address := fun m => [UInt8.ofNat m] }
    store :=
      if n = 1 then Store.set { clock := id } (lit "k") (lit "v") false else { clock := id } }

def find_site : Bytes → Option NodeId
  | [b] => some b.toNat
  | _ => none

theorem moving_scene : Moving {1, 2, 3} scene find_site 1 2 (key_hash_slot (lit "k")) where
  source_mem := by simp
  target_mem := by simp
  ne := by decide
  myself := fun _ _ => rfl
  state_ok := fun _ _ => rfl
  owner := fun _ _ => rfl
  migrating := rfl
  importing := rfl
  target_master := by decide
  find_source := fun _ _ => rfl
  find_target := rfl

def spec_get : CommandSpec := ⟨"get", .get, 2, false, false, false, 1, 1, 1⟩

def spec_restore_asking : CommandSpec := ⟨"restore-asking", .restore, -4, true, true, true, 1, 1, 1⟩

example : find_command (lit "GET") = some spec_get ∧
    find_command (lit "RESTORE-ASKING") = some spec_restore_asking :=
  ⟨rfl, rfl⟩

theorem redirects_end_scene : Holds (scene 1).store (lit "k") ∧
    (World.journey find_site spec_get [lit "GET", lit "k"] false 3 3 false scene).1 = some 1 := by
  have hhas : Holds (scene 1).store (lit "k") := by decide +kernel
  refine ⟨hhas, ?_⟩
  have h := (redirects_end moving_scene spec_get [lit "GET", lit "k"] false).1 (lit "k")
    (by decide +kernel) rfl 3 (by simp) (by simp) (by simp [spec_get])
  rwa [if_pos hhas] at h

/-- The two places that serve a command of a slot they do not own: a replica, for a READONLY
client, and the target, for a command that brings its own ASKING. Node 1 has the key. -/
theorem served_elsewhere : Moving {1, 2, 3} scene find_site 1 2 (key_hash_slot (lit "k")) ∧
    Holds (scene 1).store (lit "k") ∧
    (World.journey find_site spec_get [lit "GET", lit "k"] true 3 3 false scene).1 = some 3 ∧
    (World.journey find_site spec_restore_asking [lit "RESTORE-ASKING", lit "k", lit "0", []] false
      3 2 false scene).1 = some 2 :=
  ⟨moving_scene, by decide +kernel⟩

end EpochKV.Redirects

/-
The text of `nodes.conf` (`describe_nodes(true)` and `parse_config`).

`Cluster.describe_nodes` and `Cluster.parse_config` say what the file holds and what comes
back from it as a table. This module has the text in between: one line for each node,
sorted by id, with its slots as ranges and, on our own line, the slots on their way; and a
last line with the epochs. Writer and reader are two loops that share nothing but the
format.

The reader builds a fresh cluster line by line (`Draft`). Its errors carry the source's
texts. Ids are numbers in the model, so a master that is no id is left out where the source
would keep the text; the writer never writes one.
-/
import EpochKV.Separated
import EpochKV.Legible

set_option autoImplicit false

namespace EpochKV.NodesConf

open Text Slots Commands Wire Separated

/-! ## Writing -/

/-- The flags of a line; the names in the file are those of the protocol. -/
structure Flags where
  myself : Bool
  master : Bool
  replica : Bool
  pfail : Bool
  fail : Bool
  handshake : Bool
  noaddr : Bool
  deriving DecidableEq

def Flags.names (f : Flags) : List Bytes :=
  [(f.myself, "myself"), (f.master, "master"), (f.replica, "slave"), (f.pfail, "fail?"),
    (f.fail, "fail"), (f.handshake, "handshake"), (f.noaddr, "noaddr")].filterMap fun p =>
      if p.1 then some (lit p.2) else none

/-- Without a flag the field is not empty, or the line would have one field less. -/
def Flags.text (f : Flags) : Bytes :=
  if f.names = [] then lit "noflags" else [44].intercalate f.names

def flags_of (t : Table) (n : NodeId) : Flags :=
  let r := t.node n
  ⟨n = t.myself, r.master, r.replica, r.pfail, r.fail, r.handshake, r.noaddr⟩

def address_text (r : Node) : Bytes :=
  r.ip ++ 58 :: (to_string r.port ++ 64 :: to_string r.cport)

/-- The inner loop of `for_each_range`. -/
def range_end (slots : SlotBitmap) : Nat → Slot → Slot
  | 0, e => e
  | fuel + 1, e =>
    match to_slot (e.val + 1) with
    | some next => if next ∈ slots then range_end slots fuel next else e
    | none => e

/-- The outer loop of `for_each_range`, from a slot on. -/
def ranges_from (slots : SlotBitmap) : Nat → Nat → List (Slot × Slot)
  | 0, _ => []
  | fuel + 1, i =>
    match to_slot i with
    | none => []
    | some start =>
      if start ∈ slots then
        (start, range_end slots kSlots start) ::
          ranges_from slots fuel ((range_end slots kSlots start).val + 1)
      else ranges_from slots fuel (i + 1)

/-- `for_each_range`: the set bits as ranges. -/
def ranges (slots : SlotBitmap) : List (Slot × Slot) := ranges_from slots kSlots 0

def range_text (r : Slot × Slot) : Bytes :=
  if r.2 ≠ r.1 then to_string r.1.val ++ 45 :: to_string r.2.val else to_string r.1.val

/-- A slot on its way: `[slot->-id]` or `[slot-<-id]`. -/
def mark_text (slot : Slot) (arrow : Bytes) (id : NodeId) : Bytes :=
  91 :: (to_string slot.val ++ (arrow ++ (node_id_text id ++ [93])))

def slot_marks (t : Table) (slot : Slot) : List Bytes :=
  (t.migrating_to slot).toList.map (mark_text slot (lit "->-")) ++
    (t.importing_from slot).toList.map (mark_text slot (lit "-<-"))

/-- The fields of a line that every node has. -/
def node_head (unix_ms : Time → Int) (t : Table) (n : NodeId) : List Bytes :=
  let r := t.node n
  [node_id_text n, address_text r, (flags_of t n).text, r.master_id.elim (lit "-") node_id_text,
    to_string (unix_ms r.ping_sent), to_string (unix_ms r.pong_received), to_string r.config_epoch,
    if n = t.myself ∨ r.connected then lit "connected" else lit "disconnected"]

def node_tokens (t : Table) (n : NodeId) : List Bytes :=
  (ranges (t.own.slots n)).map range_text ++
    if n = t.myself then (List.finRange kSlots).flatMap (slot_marks t) else []

def node_line (unix_ms : Time → Int) (t : Table) (n : NodeId) : Bytes :=
  [32].intercalate (node_head unix_ms t n ++ node_tokens t n)

def vars_fields (current_epoch last_vote_epoch : Nat) : List Bytes :=
  [lit "vars", lit "currentEpoch", to_string current_epoch, lit "lastVoteEpoch",
    to_string last_vote_epoch]

/-- Nodes that have not answered yet are not in the file. -/
def sorted (t : Table) : List NodeId :=
  (t.known.filter fun n => ¬ (t.node n).handshake).mergeSort

/-- `describe_nodes(true)`. `unix_ms` shows a time of the steady clock on the wall's. -/
def describe_nodes (unix_ms : Time → Int) (c : Cluster) : Bytes :=
  ((sorted c.table).map (node_line unix_ms c.table) ++
    [[32].intercalate (vars_fields c.current_epoch c.last_vote_epoch)]).flatMap (· ++ [10])

/-! ## Reading -/

/-- A mark as it was read; its node may come in a later line. -/
structure Move where
  slot : Slot
  migrating : Bool
  node : Bytes

/-- A fresh cluster while the file is read. -/
structure Draft where
  myself : Option NodeId := none
  known : List NodeId := []
  node : NodeId → Node := fun _ => {}
  own : Ownership Slot NodeId := Ownership.vacant
  current_epoch : Nat := 0
  last_vote_epoch : Nat := 0
  moves : List Move := []

/-- Names come with values; one that is not known is skipped. -/
def parse_vars (d : Draft) : List Bytes → Except Bytes Draft
  | name :: value :: rest =>
    if name = lit "currentEpoch" then
      match parse_uint64 value with
      | none => .error (lit "bad currentEpoch")
      | some epoch => parse_vars { d with current_epoch := epoch } rest
    else if name = lit "lastVoteEpoch" then
      match parse_uint64 value with
      | none => .error (lit "bad lastVoteEpoch")
      | some epoch => parse_vars { d with last_vote_epoch := epoch } rest
    else parse_vars d rest
  | _ => .ok d

def parse_flags (s : Bytes) : Flags :=
  let flags := split s 44
  ⟨lit "myself" ∈ flags, lit "master" ∈ flags, lit "slave" ∈ flags, lit "fail?" ∈ flags,
    lit "fail" ∈ flags, lit "handshake" ∈ flags, lit "noaddr" ∈ flags⟩

/-- `ip:port@cport` -/
def parse_address (s : Bytes) : Option (Bytes × Nat × Nat) :=
  match rfind 58 s, s.idxOf? 64 with
  | some colon, some at' =>
    if at' < colon then none
    else do
      let port ← parse_uint 16 ((s.drop (colon + 1)).take (at' - colon - 1))
      let cport ← parse_uint 16 (s.drop (at' + 1))
      return (s.take colon, port, cport)
  | _, _ => none

/-- `[slot->-id]` or `[slot-<-id]`, without the brackets. -/
def parse_move (inner : Bytes) : Option Move :=
  let mig := find (lit "->-") inner
  (mig.or (find (lit "-<-") inner)).bind fun pos =>
    (parse_slot (inner.take pos)).map fun slot => ⟨slot, mig.isSome, inner.drop (pos + 3)⟩

/-- A slot, or two with a dash between them. -/
def parse_range (tok : Bytes) : Option (Slot × Slot) :=
  let dash := tok.idxOf? 45
  (parse_slot (dash.elim tok tok.take)).bind fun first =>
    (parse_slot (dash.elim tok fun i => tok.drop (i + 1))).bind fun last =>
      if last < first then none else some (first, last)

def is_move (tok : Bytes) : Bool :=
  2 < tok.length ∧ tok.head? = some 91 ∧ tok.getLast? = some 93

/-- What stands behind the eighth field: a mark, or a range of slots. -/
def parse_token (n : NodeId) (d : Draft) (tok : Bytes) : Except Bytes Draft :=
  if is_move tok then
    match parse_move ((tok.drop 1).take (tok.length - 2)) with
    | none => .error (lit "bad slot entry: " ++ tok)
    | some move => .ok { d with moves := d.moves ++ [move] }
  else
    match parse_range tok with
    | none => .error (lit "bad slot range: " ++ tok)
    | some r => .ok { d with own := d.own.assign (Finset.Icc r.1 r.2) (some n) }

/-- The row `create_node` makes, with what the line says. -/
def row_of (env : Cluster.Env) (f : Flags) (ip : Bytes) (port cport : Nat)
    (master_id : Option NodeId) (config_epoch : Nat) : Node :=
  { ip, port, cport, master := f.master, replica := f.replica, noaddr := f.noaddr, pfail := f.pfail
    fail := f.fail, master_id, config_epoch, ctime := env.now
    -- a FAIL we knew of before the restart stands
    fail_time := if f.fail then env.now else 0 }

/-- A line of a node; `line` is the whole of it, for the error texts. The source keeps any
text as the id of the master. Here one that is no id is dropped, since ids are numbers. -/
def parse_node (env : Cluster.Env) (d : Draft) (line : Bytes) : List Bytes → Except Bytes Draft
  | id :: address :: flags :: master :: _ :: _ :: epoch :: _ :: tokens =>
    match (parse_node_id id).filter (· ∉ d.known) with
    | none => .error (lit "bad node line: " ++ line)
    | some n =>
      let f := parse_flags flags
      if f.handshake then .ok d
      else
        match parse_address address with
        | none => .error (lit "bad address: " ++ address)
        | some (ip, port, cport) =>
          match parse_uint64 epoch with
          | none => .error (lit "bad config epoch: " ++ line)
          | some config_epoch =>
            let master_id := if master ≠ lit "-" then parse_node_id master else none
            let row := row_of env f ip port cport master_id config_epoch
            if f.myself ∧ d.myself.isSome then .error (lit "more than one node flagged myself")
            else
              tokens.foldlM (parse_token n)
                { d with
                  myself := if f.myself then some n else d.myself
                  known := d.known ++ [n]
                  node := Function.update d.node n row }
  | _ => .error (lit "bad node line: " ++ line)

/-- The line with the epochs, or one of a node. An empty line is skipped. -/
def parse_line (env : Cluster.Env) (d : Draft) (line : Bytes) : Except Bytes Draft :=
  match split line 32 with
  | [] => .ok d
  | word :: rest => if word = lit "vars" then parse_vars d rest else parse_node env d line (word :: rest)

/-- Moves of nodes that are not in the file are dropped. -/
def put_move (t : Table) (m : Move) : Table :=
  match (parse_node_id m.node).bind t.lookup with
  | none => t
  | some n =>
    if m.migrating then { t with migrating_to := Function.update t.migrating_to m.slot (some n) }
    else { t with importing_from := Function.update t.importing_from m.slot (some n) }

/-- The marks are put once every node is known. -/
def finish (d : Draft) : Except Bytes Conf :=
  match d.myself with
  | none => .error (lit "no node is flagged myself")
  | some myself =>
    let t : Table :=
      { myself, known := d.known, node := d.node, own := d.own, migrating_to := fun _ => none
        importing_from := fun _ => none }
    .ok { table := d.moves.foldl put_move t, current_epoch := d.current_epoch
          last_vote_epoch := d.last_vote_epoch }

/-- What a fresh cluster has read, or the error. -/
def parse_config (env : Cluster.Env) (text : Bytes) : Except Bytes Conf :=
  ((getlines 10 text).foldlM (parse_line env) {}).bind finish

/-! ## What a field is made of -/

variable {x : UInt8} {n : NodeId} {t : Table} {done : List NodeId} {c : Cluster}

theorem notMem_to_string_nat (hx : ¬ (48 ≤ x ∧ x ≤ 57)) (n : Nat) :
    x ∉ to_string n := fun h => hx (digit_of_mem_nat_to_string h)

theorem notMem_to_string (hx : ¬ (48 ≤ x ∧ x ≤ 57)) (hneg : x ≠ 45) (n : Int) :
    x ∉ to_string n := by
  intro h
  unfold to_string at h
  split at h
  · rcases List.mem_cons.1 h with rfl | h
    · exact hneg rfl
    · exact hx (digit_of_mem_nat_to_string h)
  · exact hx (digit_of_mem_nat_to_string h)

theorem to_string_ne_nil (n : Int) : to_string n ≠ [] := by
  unfold to_string
  split
  · exact List.cons_ne_nil _ _
  · exact nat_to_string_ne_nil _

theorem notMem_hex_text (hx : ∀ d < 16, hex_char d ≠ x) (k n : Nat) : x ∉ hex_text k n := by
  induction k generalizing n with
  | zero => exact List.not_mem_nil
  | succ k ih =>
    rw [hex_text, List.mem_append, List.mem_singleton, not_or]
    exact ⟨ih _, fun h => hx _ (Nat.mod_lt n (by norm_num)) h.symm⟩

theorem notMem_node_id_text (hx : ∀ d < 16, hex_char d ≠ x) (id : NodeId) :
    x ∉ node_id_text id := notMem_hex_text hx 40 id

/-- Four numbers below 256 with dots between them, or nothing. -/
def Dotted (ip : Bytes) : Prop :=
  ip = [] ∨ ((ip.splitOn 46).length = 4 ∧ ∀ part ∈ ip.splitOn 46, Cluster.octet part = true)

theorem digit_of_mem_of_parse_digits {s : Bytes} {n : Nat} (h : parse_digits s = some n) :
    ∀ b ∈ s, 48 ≤ b ∧ b ≤ 57 := by
  rw [parse_digits, Option.ite_none_left_eq_some] at h
  obtain ⟨-, h⟩ := h
  generalize 0 = acc at h
  induction s generalizing acc with
  | nil => exact fun _ hb => absurd hb List.not_mem_nil
  | cons c s ih =>
    rw [List.foldlM_cons] at h
    obtain ⟨next, hnext, hrest⟩ := Option.bind_eq_some_iff.1 h
    rw [read_digit, Option.ite_none_right_eq_some] at hnext
    intro b hb
    rcases List.mem_cons.1 hb with rfl | hb
    · exact hnext.1
    · exact ih next hrest b hb

theorem notMem_of_dotted (hx : ¬ (48 ≤ x ∧ x ≤ 57)) (hdot : x ≠ 46) {ip : Bytes} (h : Dotted ip) :
    x ∉ ip := by
  intro hmem
  rcases h with rfl | ⟨-, hparts⟩
  · exact absurd hmem List.not_mem_nil
  · have hjoin : [46].intercalate (ip.splitOn 46) = ip := List.intercalate_splitOn 46
    rw [← hjoin] at hmem
    rcases mem_intercalate hmem with rfl | ⟨part, hpart, hin⟩
    · exact hdot rfl
    · have hoctet := hparts part hpart
      unfold Cluster.octet at hoctet
      split at hoctet
      · exact absurd hoctet Bool.false_ne_true
      · rename_i n hn
        exact hx (digit_of_mem_of_parse_digits hn x hin)

/-! ## Reading the fields back -/

/-- All hundred and twenty-eight sets of flags come back. -/
theorem parse_flags_text (f : Flags) : parse_flags f.text = f := by
  have hall : ∀ a b c d e g h : Bool, parse_flags (Flags.text ⟨a, b, c, d, e, g, h⟩)
      = ⟨a, b, c, d, e, g, h⟩ := by
    decide +kernel
  exact hall ..

variable {r : Node} {i : Nat} {arrow : Bytes} {id : NodeId} {fs : List Bytes} {o : Option NodeId}
  {u : Table} {s : Bytes}

/-- The last colon and the first `@` are the ones that were written. -/
theorem parse_address_text (hip : Dotted r.ip) (hport : r.port < 2 ^ 16) (hcport : r.cport < 2 ^ 16) :
    parse_address (address_text r) = some (r.ip, r.port, r.cport) := by
  have hcolon : rfind 58 (address_text r) = some r.ip.length := by
    apply rfind_middle
    rw [List.mem_append, List.mem_cons]
    rintro (h | h | h)
    · exact notMem_to_string_nat (by decide) _ h
    · exact absurd h (by decide)
    · exact notMem_to_string_nat (by decide) _ h
  have hat : (address_text r).idxOf? 64
      = some (r.ip ++ 58 :: to_string r.port).length := by
    have hsplit : address_text r = (r.ip ++ 58 :: to_string r.port) ++ 64 :: to_string r.cport := by
      simp [address_text]
    rw [hsplit]
    apply idxOf?_middle
    rw [List.mem_append, List.mem_cons]
    rintro (h | h | h)
    · exact notMem_of_dotted (by decide) (by decide) hip h
    · exact absurd h (by decide)
    · exact notMem_to_string_nat (by decide) _ h
  have hlen : (r.ip ++ 58 :: to_string r.port).length
      = r.ip.length + 1 + (to_string r.port).length := by
    rw [List.length_append, List.length_cons]
    omega
  have hafter : (address_text r).drop (r.ip.length + 1)
      = to_string r.port ++ 64 :: to_string r.cport := by
    rw [address_text, ← List.drop_drop, List.drop_left]
    rfl
  have htail : (address_text r).drop (r.ip.length + 1 + (to_string r.port).length + 1)
      = to_string r.cport := by
    rw [Nat.add_assoc, ← List.drop_drop, hafter, ← List.drop_drop, List.drop_left]
    rfl
  rw [parse_address, hcolon, hat]
  dsimp only
  rw [hlen, if_neg (by omega), hafter, htail,
    show r.ip.length + 1 + (to_string r.port).length - r.ip.length - 1 = (to_string r.port).length by
      omega, List.take_left, parse_uint_to_string hport, parse_uint_to_string hcport, address_text,
    List.take_left]
  rfl

theorem parse_slot_to_string (s : Slot) : parse_slot (to_string s.val) = some s := by
  have hlt := s.isLt
  have hfits : Fits (s.val : Int) := by
    simp only [kSlots] at hlt
    unfold Fits int64_min int64_max
    omega
  rw [parse_slot, parse_int64_to_string hfits, Option.bind_some, if_pos (Int.natCast_nonneg _)]
  simp [to_slot]

/-- The dash, if there is one, is the only one. -/
theorem parse_range_text {r : Slot × Slot} (h : r.1 ≤ r.2) : parse_range (range_text r) = some r := by
  have hnot : ∀ s : Slot, (45 : UInt8) ∉ to_string s.val := fun s =>
    notMem_to_string_nat (by decide) _
  unfold parse_range range_text
  by_cases hne : r.2 ≠ r.1
  · rw [if_pos hne, idxOf?_middle (hnot r.1)]
    have hrest : (to_string r.1.val ++ 45 :: to_string r.2.val).drop ((to_string r.1.val).length + 1)
        = to_string r.2.val := by
      rw [← List.drop_drop, List.drop_left]
      rfl
    simp only [Option.elim_some, List.take_left, hrest, parse_slot_to_string, Option.bind_some]
    rw [if_neg (not_lt.2 h)]
  · rw [if_neg hne]
    have hnone : (to_string r.1.val).idxOf? 45 = none := List.idxOf?_eq_none_iff.2 (hnot r.1)
    have heq : r.2 = r.1 := not_not.1 hne
    simp only [hnone, Option.elim_none, parse_slot_to_string, Option.bind_some, lt_irrefl, if_false]
    exact congrArg some (Prod.ext_iff.2 ⟨rfl, heq.symm⟩)

/-- What stands behind the arrow. -/
theorem drop_arrow (a arrow : Bytes) (h : arrow.length = 3) (b : Bytes) :
    (a ++ (arrow ++ b)).drop (a.length + 3) = b := by
  rw [← List.drop_drop, List.drop_left, List.drop_left' h]

theorem parse_move_migrating (slot : Slot) (id : NodeId) :
    parse_move (to_string slot.val ++ (lit "->-" ++ node_id_text id))
      = some ⟨slot, true, node_id_text id⟩ := by
  have hfind : find (lit "->-") (to_string slot.val ++ (lit "->-" ++ node_id_text id))
      = some (to_string slot.val).length :=
    find_middle (notMem_to_string_nat (by decide) _) _
  have hrest := drop_arrow (to_string slot.val) (lit "->-") (by decide) (node_id_text id)
  simp only [parse_move, hfind, Option.some_or, Option.bind_some, List.take_left,
    parse_slot_to_string, Option.map_some, hrest, Option.isSome_some]

theorem parse_move_importing (slot : Slot) (id : NodeId) :
    parse_move (to_string slot.val ++ (lit "-<-" ++ node_id_text id))
      = some ⟨slot, false, node_id_text id⟩ := by
  -- there is no `>` in it
  have hnone : find (lit "->-") (to_string slot.val ++ (lit "-<-" ++ node_id_text id)) = none := by
    apply find_eq_none (x := 62) (by decide)
    rw [List.mem_append, List.mem_append]
    rintro (h | h | h)
    · exact notMem_to_string_nat (by decide) _ h
    · exact absurd h (by decide)
    · exact notMem_node_id_text (by decide) _ h
  have hfind : find (lit "-<-") (to_string slot.val ++ (lit "-<-" ++ node_id_text id))
      = some (to_string slot.val).length :=
    find_middle (notMem_to_string_nat (by decide) _) _
  have hrest := drop_arrow (to_string slot.val) (lit "-<-") (by decide) (node_id_text id)
  simp only [parse_move, hnone, hfind, Option.none_or, Option.bind_some, List.take_left,
    parse_slot_to_string, Option.map_some, hrest, Option.isSome_none]

/-! ## Ranges -/

theorem to_slot_eq_none : to_slot i = none ↔ kSlots ≤ i := by
  unfold to_slot
  split
  case isTrue h => exact ⟨nofun, fun hle => absurd h (not_lt.2 hle)⟩
  case isFalse h => exact ⟨fun _ => not_lt.1 h, fun _ => rfl⟩

/-- A range goes up, through slots of the set. -/
theorem range_end_spec (slots : SlotBitmap) (fuel : Nat) (start : Slot) :
    start ≤ range_end slots fuel start ∧
      ∀ s, start < s → s ≤ range_end slots fuel start → s ∈ slots := by
  induction fuel generalizing start with
  | zero => exact ⟨le_refl _, fun s hlt hle => absurd hle (not_le.2 hlt)⟩
  | succ fuel ih =>
    have hstay : start ≤ start ∧ ∀ s, start < s → s ≤ start → s ∈ slots :=
      ⟨le_refl _, fun s hlt hle => absurd hle (not_le.2 hlt)⟩
    rw [range_end]
    split
    · rename_i next hnext
      have hval := to_slot_eq_some.1 hnext
      split
      · rename_i hin
        obtain ⟨hle, hall⟩ := ih next
        refine ⟨le_trans (Fin.le_def.2 (by omega)) hle, fun s hlt hs => ?_⟩
        by_cases heq : s = next
        · rw [heq]
          exact hin
        · apply hall s _ hs
          have hne : s.val ≠ next.val := fun h => heq (Fin.ext h)
          rw [Fin.lt_def] at hlt ⊢
          omega
      · exact hstay
    · exact hstay

/-- The ranges from `i` on cover the slots of the set from `i` on, and nothing else. -/
theorem mem_ranges_from (slots : SlotBitmap) {fuel : Nat} (hfuel : kSlots ≤ fuel + i) (s : Slot) :
    (∃ r ∈ ranges_from slots fuel i, r.1 ≤ s ∧ s ≤ r.2) ↔ s ∈ slots ∧ i ≤ s.val := by
  have hs := s.isLt
  induction fuel generalizing i with
  | zero =>
    constructor
    · rintro ⟨r, hr, -⟩
      exact absurd hr List.not_mem_nil
    · intro h
      omega
  | succ fuel ih =>
    rw [ranges_from]
    split
    · rename_i hnone
      have hend := to_slot_eq_none.1 hnone
      constructor
      · rintro ⟨r, hr, -⟩
        exact absurd hr List.not_mem_nil
      · intro h
        omega
    · rename_i start hstart
      have hval := to_slot_eq_some.1 hstart
      split
      · rename_i hin
        obtain ⟨hup, hall⟩ := range_end_spec slots kSlots start
        have hnext : (range_end slots kSlots start).val + 1 ≥ i + 1 := by
          rw [Fin.le_def] at hup
          omega
        have hrest := ih (i := (range_end slots kSlots start).val + 1) (by omega)
        simp only [List.mem_cons, exists_eq_or_imp, hrest]
        constructor
        · rintro (⟨hlow, hhigh⟩ | ⟨hmem, hlow⟩)
          · refine ⟨?_, by rw [Fin.le_def] at hlow; omega⟩
            by_cases heq : s = start
            · rw [heq]
              exact hin
            · exact hall s (lt_of_le_of_ne hlow (Ne.symm heq)) hhigh
          · exact ⟨hmem, by omega⟩
        · rintro ⟨hmem, hlow⟩
          by_cases hle : s ≤ range_end slots kSlots start
          · exact Or.inl ⟨Fin.le_def.2 (by omega), hle⟩
          · rw [Fin.le_def] at hle
            exact Or.inr ⟨hmem, by omega⟩
      · rename_i hout
        refine (ih (by omega)).trans ?_
        constructor
        · rintro ⟨hmem, hlow⟩
          exact ⟨hmem, by omega⟩
        · rintro ⟨hmem, hlow⟩
          refine ⟨hmem, ?_⟩
          have hne : s.val ≠ i := fun h => hout (by rwa [← Fin.ext (h.trans hval.symm)])
          omega

theorem mem_ranges (slots : SlotBitmap) (s : Slot) :
    (∃ r ∈ ranges slots, r.1 ≤ s ∧ s ≤ r.2) ↔ s ∈ slots := by
  rw [ranges, mem_ranges_from slots (by omega) s]
  simp

theorem ranges_from_up (slots : SlotBitmap) (fuel i : Nat) :
    ∀ r ∈ ranges_from slots fuel i, r.1 ≤ r.2 := by
  induction fuel generalizing i with
  | zero => nofun
  | succ fuel ih =>
    rw [ranges_from]
    split
    · nofun
    · rename_i start _
      split
      · intro r hr
        rcases List.mem_cons.1 hr with rfl | hr
        · exact (range_end_spec slots kSlots start).1
        · exact ih _ r hr
      · exact ih _

/-! ## Reading the tokens of a line -/

theorem notMem_range_text (hx : ¬ (48 ≤ x ∧ x ≤ 57)) (hdash : x ≠ 45) (r : Slot × Slot) :
    x ∉ range_text r := by
  unfold range_text
  split
  · rw [List.mem_append, List.mem_cons]
    rintro (h | h | h)
    · exact notMem_to_string_nat hx _ h
    · exact hdash h
    · exact notMem_to_string_nat hx _ h
  · exact notMem_to_string_nat hx _

theorem parse_token_range (n : NodeId) (d : Draft) {r : Slot × Slot} (h : r.1 ≤ r.2) :
    parse_token n d (range_text r)
      = .ok { d with own := d.own.assign (Finset.Icc r.1 r.2) (some n) } := by
  have hmove : is_move (range_text r) = false := by
    refine decide_eq_false fun hm => ?_
    exact notMem_range_text (by decide) (by decide) r (List.mem_of_head? hm.2.1)
  rw [parse_token, if_neg (by simp [hmove]), parse_range_text h]

/-- The brackets come off again. -/
theorem parse_token_mark (n : NodeId) (d : Draft) (slot : Slot) {move : Move}
    (h : parse_move (to_string slot.val ++ (arrow ++ node_id_text id)) = some move) :
    parse_token n d (mark_text slot arrow id) = .ok { d with moves := d.moves ++ [move] } := by
  have htext : mark_text slot arrow id
      = 91 :: ((to_string slot.val ++ (arrow ++ node_id_text id)) ++ [93]) := by
    simp [mark_text]
  have hne := List.length_pos_of_ne_nil (to_string_ne_nil slot.val)
  have hmove : is_move (mark_text slot arrow id) = true := by
    rw [htext]
    refine decide_eq_true ⟨?_, rfl, ?_⟩
    · simp only [List.length_cons, List.length_append, List.length_nil]
      omega
    · rw [← List.cons_append, List.getLast?_concat]
  have hinner : ((mark_text slot arrow id).drop 1).take ((mark_text slot arrow id).length - 2)
      = to_string slot.val ++ (arrow ++ node_id_text id) := by
    rw [htext, List.drop_one, List.tail_cons]
    apply List.take_left'
    simp only [List.length_cons, List.length_append, List.length_nil]
    omega
  rw [parse_token, if_pos hmove, hinner, h]

/-- The marks of a slot as the reader keeps them. -/
def slot_moves (t : Table) (slot : Slot) : List Move :=
  (t.migrating_to slot).toList.map (fun id => ⟨slot, true, node_id_text id⟩) ++
    (t.importing_from slot).toList.map fun id => ⟨slot, false, node_id_text id⟩

theorem parse_ranges (n : NodeId) {rs : List (Slot × Slot)} (h : ∀ r ∈ rs, r.1 ≤ r.2) (d : Draft)
    (rest : List Bytes) :
    (rs.map range_text ++ rest).foldlM (parse_token n) d
      = rest.foldlM (parse_token n)
          { d with own := rs.foldl (fun o r => o.assign (Finset.Icc r.1 r.2) (some n)) d.own } := by
  induction rs generalizing d with
  | nil => rfl
  | cons r rs ih =>
    rw [List.map_cons, List.cons_append, List.foldlM_cons,
      parse_token_range n d (h r List.mem_cons_self)]
    exact ih (fun x hx => h x (List.mem_cons_of_mem _ hx)) _

theorem parse_slot_marks (n : NodeId) (t : Table) (slot : Slot) (d : Draft) :
    (slot_marks t slot).foldlM (parse_token n) d
      = .ok { d with moves := d.moves ++ slot_moves t slot } := by
  have hout := fun id d => parse_token_mark n d slot (parse_move_migrating slot id)
  have hin := fun id d => parse_token_mark n d slot (parse_move_importing slot id)
  unfold slot_marks slot_moves
  -- a slot has a mark of either kind, both or none
  cases t.migrating_to slot <;> cases t.importing_from slot <;>
    simp [hout, hin, bind, Except.bind, pure, Except.pure]

theorem parse_marks (n : NodeId) (t : Table) (slots : List Slot) (d : Draft) :
    (slots.flatMap (slot_marks t)).foldlM (parse_token n) d
      = .ok { d with moves := d.moves ++ slots.flatMap (slot_moves t) } := by
  induction slots generalizing d with
  | nil => simp [pure, Except.pure]
  | cons slot slots ih =>
    rw [List.flatMap_cons, List.foldlM_append, parse_slot_marks]
    show List.foldlM (parse_token n) _ _ = _
    rw [ih, List.flatMap_cons, List.append_assoc]

/-! ## A line is made of fields -/

/-- Neither a blank nor the end of a line is in it. -/
structure Field (s : Bytes) : Prop where
  ne_nil : s ≠ []
  blank : (32 : UInt8) ∉ s
  line : (10 : UInt8) ∉ s

theorem Field.of_and (h : s ≠ [] ∧ (32 : UInt8) ∉ s ∧ (10 : UInt8) ∉ s) : Field s :=
  ⟨h.1, h.2.1, h.2.2⟩

theorem field_to_string (n : Int) : Field (to_string n) :=
  ⟨to_string_ne_nil n, notMem_to_string (by decide) (by decide) n,
    notMem_to_string (by decide) (by decide) n⟩

theorem field_node_id_text (id : NodeId) : Field (node_id_text id) :=
  ⟨node_id_text_ne (by decide) id, notMem_node_id_text (by decide) id, notMem_node_id_text (by decide) id⟩

theorem field_address_text (h : Dotted r.ip) : Field (address_text r) := by
  have hnot : ∀ x : UInt8, ¬ (48 ≤ x ∧ x ≤ 57) → x ≠ 46 → x ≠ 58 → x ≠ 64 → x ∉ address_text r := by
    intro x hx hdot hcolon hat
    rw [address_text, List.mem_append, List.mem_cons, List.mem_append, List.mem_cons]
    rintro (hm | hm | hm | hm | hm)
    · exact notMem_of_dotted hx hdot h hm
    · exact hcolon hm
    · exact notMem_to_string_nat hx _ hm
    · exact hat hm
    · exact notMem_to_string_nat hx _ hm
  exact ⟨by simp [address_text], hnot 32 (by decide) (by decide) (by decide) (by decide),
    hnot 10 (by decide) (by decide) (by decide) (by decide)⟩

theorem field_flags_text (f : Flags) : Field f.text := by
  have hall : ∀ a b c d e g h : Bool, Flags.text ⟨a, b, c, d, e, g, h⟩ ≠ []
      ∧ (32 : UInt8) ∉ Flags.text ⟨a, b, c, d, e, g, h⟩
      ∧ (10 : UInt8) ∉ Flags.text ⟨a, b, c, d, e, g, h⟩ := by
    decide +kernel
  exact .of_and (hall ..)

theorem field_range_text (r : Slot × Slot) : Field (range_text r) := by
  refine ⟨?_, notMem_range_text (by decide) (by decide) r, notMem_range_text (by decide) (by decide) r⟩
  unfold range_text
  split
  · simp
  · exact to_string_ne_nil _

theorem field_mark_text (slot : Slot) (h : Field arrow) (id : NodeId) :
    Field (mark_text slot arrow id) := by
  have hnot : ∀ x : UInt8, ¬ (48 ≤ x ∧ x ≤ 57) → (∀ d < 16, hex_char d ≠ x) → x ≠ 91 → x ≠ 93 →
      x ∉ arrow → x ∉ mark_text slot arrow id := by
    intro x hx hhex hopen hclose harrow
    rw [mark_text, List.mem_cons, List.mem_append, List.mem_append, List.mem_append,
      List.mem_singleton]
    rintro (hm | hm | hm | hm | hm)
    · exact hopen hm
    · exact notMem_to_string_nat hx _ hm
    · exact harrow hm
    · exact notMem_node_id_text hhex _ hm
    · exact hclose hm
  exact ⟨List.cons_ne_nil _ _,
    hnot 32 (by decide) (by decide) (by decide) (by decide) h.blank,
    hnot 10 (by decide) (by decide) (by decide) (by decide) h.line⟩

theorem field_node_head (unix_ms : Time → Int) (hip : Dotted (t.node n).ip) :
    ∀ f ∈ node_head unix_ms t n, Field f := by
  have hmaster : Field ((t.node n).master_id.elim (lit "-") node_id_text) := by
    cases (t.node n).master_id with
    | none => exact .of_and (by decide)
    | some id => exact field_node_id_text id
  have hlink : Field (if n = t.myself ∨ (t.node n).connected = true then lit "connected"
      else lit "disconnected") := by
    split <;> exact .of_and (by decide)
  simp only [node_head, List.forall_mem_cons]
  exact ⟨field_node_id_text n, field_address_text hip, field_flags_text _, hmaster,
    field_to_string _, field_to_string _, field_to_string _, hlink, nofun⟩

theorem field_node_tokens (t : Table) (n : NodeId) : ∀ f ∈ node_tokens t n, Field f := by
  have hmarks : ∀ slot, ∀ f ∈ slot_marks t slot, Field f := by
    intro slot f hf
    rcases List.mem_append.1 hf with hf | hf
    · obtain ⟨id, -, rfl⟩ := List.mem_map.1 hf
      exact field_mark_text slot (.of_and (by decide)) id
    · obtain ⟨id, -, rfl⟩ := List.mem_map.1 hf
      exact field_mark_text slot (.of_and (by decide)) id
  intro f hf
  rcases List.mem_append.1 hf with hf | hf
  · obtain ⟨r, -, rfl⟩ := List.mem_map.1 hf
    exact field_range_text r
  · split at hf
    · obtain ⟨slot, -, hin⟩ := List.mem_flatMap.1 hf
      exact hmarks slot f hin
    · exact absurd hf List.not_mem_nil

theorem field_node_line (unix_ms : Time → Int) (hip : Dotted (t.node n).ip) :
    ∀ f ∈ node_head unix_ms t n ++ node_tokens t n, Field f := by
  intro f hf
  rcases List.mem_append.1 hf with hf | hf
  · exact field_node_head unix_ms hip f hf
  · exact field_node_tokens t n f hf

/-- The reader finds the fields the writer joined. -/
theorem split_line (h : ∀ f ∈ fs, Field f) (hne : fs ≠ []) : split ([32].intercalate fs) 32 = fs :=
  split_join (fun f hf => ⟨(h f hf).blank, (h f hf).ne_nil⟩) hne

theorem line_of_fields (h : ∀ f ∈ fs, Field f) : (10 : UInt8) ∉ [32].intercalate fs := by
  intro hmem
  rcases mem_intercalate hmem with heq | ⟨f, hf, hin⟩
  · exact absurd heq (by decide)
  · exact (h f hf).line hin

/-! ## Line by line -/

/-- The row can be written in a line. -/
structure Writable (t : Table) (n : NodeId) : Prop where
  id : IsId n
  ip : Dotted (t.node n).ip
  width : (t.node n).port < 2 ^ 16 ∧ (t.node n).cport < 2 ^ 16
  master : ∀ id ∈ (t.node n).master_id, IsId id
  epoch : (t.node n).config_epoch < 2 ^ 64
  met : (t.node n).handshake = false

/-- What has been read once the lines of `done` have; `moves` stand on our own. -/
def draft (env : Cluster.Env) (t : Table) (moves : List Move) (done : List NodeId) : Draft where
  myself := if t.myself ∈ done then some t.myself else none
  known := done
  node := fun n => if n ∈ done then Cluster.load_node env (t.node n) else {}
  own := t.own.restrict fun n => n ∈ done
  moves := if t.myself ∈ done then moves else []

/-- The ranges of a line give all of its slots to the node. -/
theorem owner_foldl_assign (rs : List (Slot × Slot)) (n : NodeId) (o : Ownership Slot NodeId) (s : Slot) :
    (rs.foldl (fun o r => o.assign (Finset.Icc r.1 r.2) (some n)) o).owner s
      = if ∃ r ∈ rs, r.1 ≤ s ∧ s ≤ r.2 then some n else o.owner s := by
  induction rs generalizing o with
  | nil => simp
  | cons r rs ih =>
    rw [List.foldl_cons, ih, Ownership.owner_assign]
    by_cases hrest : ∃ x ∈ rs, x.1 ≤ s ∧ s ≤ x.2
    · obtain ⟨x, hx, hin⟩ := hrest
      rw [if_pos ⟨x, hx, hin⟩, if_pos ⟨x, List.mem_cons_of_mem _ hx, hin⟩]
    · rw [if_neg hrest]
      have hiff : (∃ x ∈ r :: rs, x.1 ≤ s ∧ s ≤ x.2) ↔ s ∈ Finset.Icc r.1 r.2 := by
        rw [Finset.mem_Icc]
        constructor
        · rintro ⟨x, hx, hin⟩
          rcases List.mem_cons.1 hx with rfl | hx
          · exact hin
          · exact absurd ⟨x, hx, hin⟩ hrest
        · exact fun hin => ⟨r, List.mem_cons_self, hin⟩
      simp only [hiff]

/-- What a line does to the owners: the node has its slots. -/
theorem own_after_ranges (t : Table) (done : List NodeId) (n : NodeId) :
    (ranges (t.own.slots n)).foldl (fun o r => o.assign (Finset.Icc r.1 r.2) (some n))
        (t.own.restrict fun x => x ∈ done)
      = t.own.restrict fun x => x ∈ done ++ [n] := by
  apply Ownership.eq_of_owner
  funext s
  rw [owner_foldl_assign]
  simp only [mem_ranges, ← t.own.owner_iff]
  show _ = (t.own.owner s).filter _
  by_cases hs : t.own.owner s = some n
  · rw [if_pos hs, hs]
    simp [Option.filter]
  · rw [if_neg hs]
    show (t.own.owner s).filter _ = _
    cases ho : t.own.owner s with
    | none => rfl
    | some x =>
      have hx : x ≠ n := fun h => hs (by rw [ho, h])
      simp [Option.filter, hx]

theorem parse_master_field (h : ∀ id ∈ o, IsId id) :
    (if o.elim (lit "-") node_id_text ≠ lit "-" then parse_node_id (o.elim (lit "-") node_id_text)
      else none) = o := by
  have hparse := parse_master_text h
  rw [parse_master] at hparse
  split at hparse
  · rename_i hne
    obtain ⟨id, hid, rfl⟩ := Option.map_eq_some_iff.1 hparse
    rw [if_pos hne]
    exact hid
  · rename_i heq
    rw [if_neg heq]
    exact Option.some.inj hparse

/-- The node of a line goes into the draft. -/
theorem draft_append (env : Cluster.Env) (t : Table) (moves : List Move) (hn : n ∉ done) :
    draft env t moves (done ++ [n]) =
      { draft env t moves done with
        myself := if n = t.myself then some n else (draft env t moves done).myself
        known := done ++ [n]
        node := Function.update (draft env t moves done).node n (Cluster.load_node env (t.node n))
        own := t.own.restrict fun x => x ∈ done ++ [n]
        moves := (draft env t moves done).moves ++ if n = t.myself then moves else [] } := by
  have hnode : (draft env t moves (done ++ [n])).node
      = Function.update (draft env t moves done).node n (Cluster.load_node env (t.node n)) := by
    funext x
    rw [Function.update_apply]
    show (if x ∈ done ++ [n] then Cluster.load_node env (t.node x) else {}) = _
    by_cases hx : x = n
    · rw [hx, if_pos (by simp), if_pos rfl]
    · rw [if_neg hx]
      simp [draft, hx]
  have hme : (draft env t moves (done ++ [n])).myself
      = if n = t.myself then some n else (draft env t moves done).myself := by
    by_cases hself : n = t.myself
    · simp [draft, hself]
    · simp [draft, hself, Ne.symm hself]
  have hmoves : (draft env t moves (done ++ [n])).moves
      = (draft env t moves done).moves ++ if n = t.myself then moves else [] := by
    by_cases hself : n = t.myself
    · have hnot : t.myself ∉ done := hself ▸ hn
      simp [draft, hself, hnot]
    · simp [draft, hself, Ne.symm hself]
  rw [← hnode, ← hme, ← hmoves]
  rfl

/-- All marks, in the order of the slots. -/
def all_moves (t : Table) : List Move := (List.finRange kSlots).flatMap (slot_moves t)

/-- The slots and marks of a line are what the draft lacks of its node. -/
theorem parse_tokens (env : Cluster.Env) (t : Table) (hn : n ∉ done) :
    (node_tokens t n).foldlM (parse_token n)
        { draft env t (all_moves t) done with
          myself := if n = t.myself then some n else (draft env t (all_moves t) done).myself
          known := done ++ [n]
          node := Function.update (draft env t (all_moves t) done).node n
            (Cluster.load_node env (t.node n)) }
      = .ok (draft env t (all_moves t) (done ++ [n])) := by
  have hown : (draft env t (all_moves t) done).own = t.own.restrict fun x => x ∈ done := rfl
  have hup : ∀ r ∈ ranges (t.own.slots n), r.1 ≤ r.2 := ranges_from_up _ _ _
  rw [node_tokens, parse_ranges n hup]
  rw [hown, own_after_ranges, draft_append env t _ hn]
  by_cases hself : n = t.myself
  · simp only [if_pos hself, parse_marks]
    rfl
  · simp only [if_neg hself, List.append_nil]
    rfl

/-- One line takes the draft one node further. -/
theorem parse_line_node (env : Cluster.Env) (unix_ms : Time → Int) (hw : Writable t n)
    (hn : n ∉ done) :
    parse_line env (draft env t (all_moves t) done) (node_line unix_ms t n)
      = .ok (draft env t (all_moves t) (done ++ [n])) := by
  have hsplit := split_line (field_node_line unix_ms hw.ip) (by simp [node_head])
  have hvars : node_id_text n ≠ lit "vars" := node_id_text_ne (by decide) n
  have hid : (parse_node_id (node_id_text n)).filter (· ∉ done) = some n := by
    rw [parse_node_id_text hw.id]
    simp [Option.filter, hn]
  have hepoch : parse_uint64 (to_string (t.node n).config_epoch) = some (t.node n).config_epoch :=
    parse_uint_to_string hw.epoch
  have htwice : ¬ ((flags_of t n).myself = true ∧
      (draft env t (all_moves t) done).myself.isSome = true) := by
    rintro ⟨hself, hsome⟩
    obtain rfl : n = t.myself := of_decide_eq_true hself
    simp [draft, hn] at hsome
  have hrow : row_of env (flags_of t n) (t.node n).ip (t.node n).port (t.node n).cport
      (t.node n).master_id (t.node n).config_epoch = Cluster.load_node env (t.node n) := rfl
  have hflag : (flags_of t n).handshake = false := hw.met
  have hknown : (draft env t (all_moves t) done).known = done := rfl
  have hmyself : ((flags_of t n).myself = true) = (n = t.myself) := by simp [flags_of]
  rw [parse_line, node_line, hsplit]
  simp only [node_head, List.cons_append, List.nil_append]
  rw [if_neg hvars, parse_node]
  simp only [hknown, hid, parse_flags_text, hflag, Bool.false_eq_true, if_false,
    parse_address_text hw.ip hw.width.1 hw.width.2, hepoch, parse_master_field hw.master, hrow]
  rw [if_neg htwice]
  simp only [hmyself]
  exact parse_tokens env t hn

/-- All lines of nodes, by induction on those to come. -/
theorem parse_lines (env : Cluster.Env) (unix_ms : Time → Int) {todo : List NodeId}
    (hw : ∀ n ∈ todo, Writable t n) (hnodup : (done ++ todo).Nodup) :
    (todo.map (node_line unix_ms t)).foldlM (parse_line env) (draft env t (all_moves t) done)
      = .ok (draft env t (all_moves t) (done ++ todo)) := by
  induction todo generalizing done with
  | nil =>
    rw [List.append_nil]
    rfl
  | cons n todo ih =>
    have hn : n ∉ done := fun h =>
      (List.nodup_append.1 hnodup).2.2 n h n List.mem_cons_self rfl
    rw [List.map_cons, List.foldlM_cons, parse_line_node env unix_ms (hw n List.mem_cons_self) hn]
    have hshift : done ++ n :: todo = (done ++ [n]) ++ todo := by simp
    rw [hshift] at hnodup ⊢
    exact ih (fun x hx => hw x (List.mem_cons_of_mem _ hx)) hnodup

theorem field_vars (current last : Nat) : ∀ f ∈ vars_fields current last, Field f := by
  simp only [vars_fields, List.forall_mem_cons]
  exact ⟨.of_and (by decide), .of_and (by decide), field_to_string _,
    .of_and (by decide), field_to_string _, nofun⟩

theorem parse_line_vars (env : Cluster.Env) (d : Draft) {current last : Nat} (hc : current < 2 ^ 64)
    (hl : last < 2 ^ 64) :
    parse_line env d ([32].intercalate (vars_fields current last))
      = .ok { d with current_epoch := current, last_vote_epoch := last } := by
  have hcurrent : parse_uint64 (to_string current) = some current := parse_uint_to_string hc
  have hlast : parse_uint64 (to_string last) = some last := parse_uint_to_string hl
  have hne : lit "lastVoteEpoch" ≠ lit "currentEpoch" := by decide
  rw [parse_line, split_line (field_vars current last) (by simp [vars_fields])]
  simp only [vars_fields, if_true, parse_vars, hcurrent, if_neg hne, hlast]

/-! ## The marks -/

/-- The table once the marks of some slots are put. -/
def marked (u t : Table) (done : List Slot) : Table :=
  { u with
    migrating_to := fun s => if s ∈ done then t.migrating_to s else none
    importing_from := fun s => if s ∈ done then t.importing_from s else none }

/-- The marks of one kind that a slot has, which are one or none. -/
theorem put_marks (u : Table) (slot : Slot) (migrating : Bool)
    (h : ∀ id, o = some id → IsId id ∧ id ∈ u.known) :
    (o.toList.map fun id => (⟨slot, migrating, node_id_text id⟩ : Move)).foldl put_move u =
      let put := fun f => if o.isSome then Function.update f slot o else f
      if migrating then { u with migrating_to := put u.migrating_to }
      else { u with importing_from := put u.importing_from } := by
  cases o with
  | none => cases migrating <;> rfl
  | some id =>
    obtain ⟨hid, hk⟩ := h id rfl
    have hfound : (parse_node_id (node_id_text id)).bind u.lookup = some id := by
      rw [parse_node_id_text hid, Option.bind_some, Table.lookup, if_pos hk]
    simp only [Option.toList_some, List.map_cons, List.map_nil, List.foldl_cons, List.foldl_nil,
      put_move, hfound, Option.isSome_some, if_true]

/-- A mark that is put, or one that is not there. -/
theorem update_mark (f : Slot → Option NodeId) (done : List Slot) (slot : Slot) :
    (if (f slot).isSome then
        Function.update (fun s => if s ∈ done then f s else none) slot (f slot)
      else fun s => if s ∈ done then f s else none)
      = fun s => if s ∈ done ++ [slot] then f s else none := by
  funext s
  by_cases hs : s = slot
  · subst hs
    cases hf : f s with
    | none => simp [hf]
    | some id => simp
  · split
    · rw [Function.update_of_ne hs]
      simp [hs]
    · simp [hs]

/-- The marks of one slot, which may be on its way out and in at once. -/
theorem put_slot_moves (slot : Slot)
    (hout : ∀ id, t.migrating_to slot = some id → IsId id ∧ id ∈ u.known)
    (hin : ∀ id, t.importing_from slot = some id → IsId id ∧ id ∈ u.known) (done : List Slot) :
    (slot_moves t slot).foldl put_move (marked u t done) = marked u t (done ++ [slot]) := by
  have hafter : marked u t (done ++ [slot]) =
      { u with
        migrating_to := if (t.migrating_to slot).isSome then
            Function.update (marked u t done).migrating_to slot (t.migrating_to slot)
          else (marked u t done).migrating_to
        importing_from := if (t.importing_from slot).isSome then
            Function.update (marked u t done).importing_from slot (t.importing_from slot)
          else (marked u t done).importing_from } := by
    unfold marked
    rw [← update_mark t.migrating_to done slot, ← update_mark t.importing_from done slot]
  rw [hafter, slot_moves, List.foldl_append, put_marks (marked u t done) slot true hout]
  exact put_marks { marked u t done with migrating_to := _ } slot false hin

theorem put_moves (hout : ∀ s id, t.migrating_to s = some id → IsId id ∧ id ∈ u.known)
    (hin : ∀ s id, t.importing_from s = some id → IsId id ∧ id ∈ u.known) (slots done : List Slot) :
    (slots.flatMap (slot_moves t)).foldl put_move (marked u t done) = marked u t (done ++ slots) := by
  induction slots generalizing done with
  | nil =>
    rw [List.append_nil]
    rfl
  | cons slot slots ih =>
    rw [List.flatMap_cons, List.foldl_append, put_slot_moves slot (hout slot) (hin slot), ih]
    simp

/-- All marks of the table come back. -/
theorem put_all_moves (hout : ∀ s id, t.migrating_to s = some id → IsId id ∧ id ∈ u.known)
    (hin : ∀ s id, t.importing_from s = some id → IsId id ∧ id ∈ u.known)
    (hu : u.migrating_to = (fun _ => none) ∧ u.importing_from = fun _ => none) :
    (all_moves t).foldl put_move u
      = { u with migrating_to := t.migrating_to, importing_from := t.importing_from } := by
  have hstart : u = marked u t [] := by
    obtain ⟨myself, known, node, own, out, into⟩ := u
    obtain ⟨rfl, rfl⟩ := hu
    simp [marked]
  have hall := put_moves hout hin (List.finRange kSlots) []
  rw [List.nil_append, ← hstart] at hall
  rw [all_moves, hall]
  unfold marked
  simp only [List.mem_finRange, if_true]

/-! ## The whole file -/

/-- A cluster whose file says all that a file should. -/
structure Storable (c : Cluster) : Prop where
  self : c.Proper c.table.myself
  nodup : c.table.known.Nodup
  line : ∀ n, c.Proper n → Writable c.table n
  migrating : ∀ s id, c.table.migrating_to s = some id → c.Proper id
  importing : ∀ s id, c.table.importing_from s = some id → c.Proper id
  current_epoch : c.current_epoch < 2 ^ 64
  last_vote_epoch : c.last_vote_epoch < 2 ^ 64

theorem mem_sorted : n ∈ sorted c.table ↔ c.Proper n := by
  rw [sorted, List.mem_mergeSort, List.mem_filter]
  simp [Cluster.Proper]

theorem nodup_sorted (h : t.known.Nodup) : (sorted t).Nodup :=
  (List.mergeSort_perm _ _).nodup_iff.2 (h.filter _)

/-- Two tables that agree on the nodes they know, in whatever order these stand. -/
structure Same (t u : Table) : Prop where
  myself : t.myself = u.myself
  known : t.known.Perm u.known
  row : ∀ n ∈ u.known, t.node n = u.node n
  own : t.own = u.own
  migrating : t.migrating_to = u.migrating_to
  importing : t.importing_from = u.importing_from

/-- The table that a file gives. -/
def read_table (env : Cluster.Env) (c : Cluster) : Table where
  myself := c.table.myself
  known := sorted c.table
  node := fun n => if n ∈ sorted c.table then Cluster.load_node env (c.table.node n) else {}
  own := c.table.own.restrict fun n => n ∈ sorted c.table
  migrating_to := c.table.migrating_to
  importing_from := c.table.importing_from

/-- **The file reads back**: what is written for a cluster gives its table and epochs. -/
theorem parse_describe (env : Cluster.Env) (unix_ms : Time → Int) (h : Storable c) :
    parse_config env (describe_nodes unix_ms c)
      = .ok ⟨read_table env c, c.current_epoch, c.last_vote_epoch⟩ := by
  have hw : ∀ n ∈ sorted c.table, Writable c.table n := fun n hn => h.line n (mem_sorted.1 hn)
  have hlines : getlines 10 (describe_nodes unix_ms c)
      = (sorted c.table).map (node_line unix_ms c.table) ++
        [[32].intercalate (vars_fields c.current_epoch c.last_vote_epoch)] := by
    apply getlines_lines
    intro line hline
    rcases List.mem_append.1 hline with hline | hline
    · obtain ⟨n, hn, rfl⟩ := List.mem_map.1 hline
      exact line_of_fields (field_node_line unix_ms (hw n hn).ip)
    · rw [List.mem_singleton.1 hline]
      exact line_of_fields (field_vars _ _)
  have hstart : ({} : Draft) = draft env c.table (all_moves c.table) [] := by
    have hown : c.table.own.restrict (fun _ => false) = Ownership.vacant := by
      apply Ownership.eq_of_owner
      funext s
      show (c.table.own.owner s).filter _ = none
      cases c.table.own.owner s with
      | none => rfl
      | some x => simp [Option.filter]
    simp [draft, hown]
  have hself : c.table.myself ∈ sorted c.table := mem_sorted.2 h.self
  rw [parse_config, hlines, List.foldlM_append, hstart,
    parse_lines env unix_ms hw (by rw [List.nil_append]; exact nodup_sorted h.nodup), List.nil_append]
  show (List.foldlM (parse_line env) (draft env c.table (all_moves c.table) (sorted c.table)) _).bind _
    = _
  rw [List.foldlM_cons, parse_line_vars env _ h.current_epoch h.last_vote_epoch]
  show finish _ = _
  have hdraft : (draft env c.table (all_moves c.table) (sorted c.table)).myself
      = some c.table.myself := if_pos hself
  have hmoves : (draft env c.table (all_moves c.table) (sorted c.table)).moves
      = all_moves c.table := if_pos hself
  simp only [finish, hdraft, hmoves]
  have hmet : ∀ id, c.Proper id → IsId id ∧ id ∈ sorted c.table := fun id hp =>
    ⟨(h.line id hp).id, mem_sorted.2 hp⟩
  rw [put_all_moves (t := c.table) (fun s id hid => hmet id (h.migrating s id hid))
    (fun s id hid => hmet id (h.importing s id hid)) ⟨rfl, rfl⟩]
  rfl

/-- Marks of nodes that are met are not dropped. -/
theorem bind_lookup_of_proper (h : ∀ id, o = some id → c.Proper id) :
    o.bind c.describe_nodes.table.lookup = o := by
  cases o with
  | none => rfl
  | some id =>
    have hp := h id rfl
    have hk : id ∈ c.describe_nodes.table.known :=
      List.mem_filter.2 ⟨hp.1, decide_eq_true (by simp [hp.2])⟩
    rw [Option.bind_some, Table.lookup, if_pos hk]

/-- What the text gives back is what `Cluster.parse_config` makes of the content of the
file. -/
theorem same_read_table (env : Cluster.Env) (h : Storable c) :
    Same (read_table env c) (Cluster.parse_config env c.describe_nodes) where
  myself := rfl
  known := List.mergeSort_perm _ _
  row n hn := by
    have hmem : n ∈ sorted c.table := (List.mergeSort_perm _ _).mem_iff.2 hn
    exact if_pos hmem
  own := by
    apply Ownership.eq_of_owner
    funext s
    show (c.table.own.owner s).filter _ = ((c.table.own.owner s).filter _).filter _
    cases c.table.own.owner s with
    | none => rfl
    | some x =>
      have hlisted : x ∈ c.describe_nodes.table.known ↔ c.Proper x := by
        rw [← mem_sorted]
        exact (List.mergeSort_perm _ _).mem_iff.symm
      by_cases hp : c.Proper x
      · simp [Option.filter, mem_sorted, hlisted, hp, hp.1, hp.2]
      · have hnot : ¬ (x ∈ c.table.known ∧ (c.table.node x).handshake = false) := hp
        simp [Option.filter, mem_sorted, hp, hnot]
  migrating := funext fun s => (bind_lookup_of_proper (h.migrating s)).symm
  importing := funext fun s => (bind_lookup_of_proper (h.importing s)).symm

end EpochKV.NodesConf

/-
The messages of the cluster bus as bytes (`cluster_msg.cpp`).

A message is a RESP array of byte strings: a header of eleven fields, and behind it what
the type of the message carries. `encode` writes it, `decode` reads the array that the
parser found. An id is forty lower-case hexadecimal digits; it is a number in the model, so
`node_id_text` is its text here. Of `mflags` the model has the two bits in use.

Encoder and decoder are separate code. `decode` refuses ports that are zero, ids that are
no ids and flags it does not know, so what it reads back is not every `Message` but every
legible one: `decode_fields` is the round trip of these. That a node sends no others is
shown in `Legible`.
-/
import EpochKV.Admin
import EpochKV.Parser

set_option autoImplicit false

namespace EpochKV.Wire

open Text Slots Commands

/-! ## Fields -/

def kGossipFields : Nat := 5

def kSlotBytes : Nat := kSlots / 8

def type_name : MsgType → Bytes
  | .kPing => lit "PING"
  | .kPong => lit "PONG"
  | .kMeet => lit "MEET"
  | .kUpdate => lit "UPDATE"
  | .kFail => lit "FAIL"
  | .kFailoverAuthRequest => lit "FAILOVER_AUTH_REQUEST"
  | .kFailoverAuthAck => lit "FAILOVER_AUTH_ACK"
  | .kMfStart => lit "MFSTART"

def kAllTypes : List MsgType :=
  [.kPing, .kPong, .kMeet, .kUpdate, .kFail, .kFailoverAuthRequest, .kFailoverAuthAck, .kMfStart]

/-- The names are compared one after the other; case matters. -/
def parse_type (s : Bytes) : Option MsgType := kAllTypes.find? fun t => s = type_name t

/-- Election and manual-failover messages carry nothing beyond the header. -/
def header_only (t : MsgType) : Bool :=
  t = .kFailoverAuthRequest ∨ t = .kFailoverAuthAck ∨ t = .kMfStart

/-- `std::from_chars` into an unsigned type of so many bits, the whole string consumed. -/
def parse_uint (bits : Nat) (s : Bytes) : Option Nat :=
  (parse_digits s).bind fun n => if n < 2 ^ bits then some n else none

/-- A port on the bus is never zero. -/
def parse_port (s : Bytes) : Option Nat :=
  (parse_uint 16 s).bind fun port => if port ≠ 0 then some port else none

def role_name (replica : Bool) : Bytes := if replica then lit "slave" else lit "master"

def parse_role (s : Bytes) : Option Bool :=
  if s ≠ lit "master" ∧ s ≠ lit "slave" then none else some (s = lit "slave")

/-- The role, then the sender's opinion of the node's health. -/
def gossip_flags (g : GossipEntry) : Bytes :=
  let flags := role_name g.replica
  if g.fail then flags ++ lit ",fail"
  else if g.pfail then flags ++ lit ",fail?"
  else flags

/-- One word behind the role. -/
def parse_gossip_flag (g : GossipEntry) (flag : Bytes) : Option GossipEntry :=
  if flag = lit "fail?" then some { g with pfail := true }
  else if flag = lit "fail" then some { g with fail := true }
  else none

/-- The role comes first, and then words with commas between them. -/
def parse_gossip_flags (s : Bytes) (g : GossipEntry) : Option GossipEntry :=
  match s.splitOn 44 with
  | [] => none
  | role :: flags =>
    (parse_role role).bind fun replica => flags.foldlM parse_gossip_flag { g with replica }

/-! ## Ids -/

def hex_char (d : Nat) : UInt8 := UInt8.ofNat (if d < 10 then 48 + d else 87 + d)

/-- The last `k` hexadecimal digits of a number. -/
def hex_text : Nat → Nat → Bytes
  | 0, _ => []
  | k + 1, n => hex_text k (n / 16) ++ [hex_char (n % 16)]

/-- The text of an id, as the source keeps it. -/
def node_id_text (id : NodeId) : Bytes := hex_text 40 id

/-- The number has a text of forty digits. -/
def IsId (id : NodeId) : Prop := id < 16 ^ 40

instance (id : NodeId) : Decidable (IsId id) := inferInstanceAs (Decidable (_ < _))

theorem length_hex_text (k n : Nat) : (hex_text k n).length = k := by
  induction k generalizing n with
  | zero => rfl
  | succ k ih => rw [hex_text, List.length_append, ih, List.length_singleton]

/-- An id is no text of another length. -/
theorem node_id_text_ne {s : Bytes} (h : s.length ≠ 40) (id : NodeId) : node_id_text id ≠ s :=
  fun heq => h (heq ▸ length_hex_text 40 id)

theorem hex_digit_hex_char {d : Nat} (hd : d < 16) : hex_digit (hex_char d) = some d := by
  interval_cases d <;> decide

variable {n port : Nat} {id : NodeId} {o : Option NodeId} {gs : List GossipEntry} {argv : Args}
  {e : GossipEntry}

theorem read_hex_text {k : Nat} (hn : n < 16 ^ k) :
    (hex_text k n).foldlM (fun n c => (hex_digit c).map (n * 16 + ·)) 0 = some n := by
  induction k generalizing n with
  | zero =>
    have hzero : n = 0 := by simpa using hn
    rw [hzero]
    rfl
  | succ k ih =>
    have hfront : n / 16 < 16 ^ k := by
      rw [pow_succ] at hn
      omega
    rw [hex_text, List.foldlM_append, ih hfront]
    have hlast := hex_digit_hex_char (Nat.mod_lt n (by norm_num : 0 < 16))
    simp only [Option.bind_eq_bind, Option.bind_some, List.foldlM_cons, List.foldlM_nil, hlast,
      Option.map_some, Option.pure_def]
    congr 1
    omega

theorem parse_node_id_text (h : IsId id) : parse_node_id (node_id_text id) = some id := by
  rw [parse_node_id, node_id_text, if_pos (length_hex_text _ _)]
  exact read_hex_text h

variable {s : Bytes} {g : GossipEntry} {msg : Message}

/-- Digits of a number cannot exceed what their count allows. -/
theorem lt_of_read_hex {acc : Nat}
    (h : s.foldlM (fun n c => (hex_digit c).map (n * 16 + ·)) acc = some n) :
    n < (acc + 1) * 16 ^ s.length := by
  induction s generalizing acc with
  | nil =>
    simp only [List.foldlM_nil, Option.pure_def, Option.some.injEq] at h
    simp only [List.length_nil, pow_zero]
    omega
  | cons c s ih =>
    rw [List.foldlM_cons] at h
    obtain ⟨next, hnext, hrest⟩ := Option.bind_eq_some_iff.1 h
    obtain ⟨d, hd, rfl⟩ := Option.map_eq_some_iff.1 hnext
    have hlt : d < 16 := by
      have hc := c.toNat_lt
      rw [hex_digit] at hd
      split at hd
      case isTrue hrange =>
        have hhigh := UInt8.le_iff_toNat_le.1 hrange.2
        simp only [Option.some.injEq] at hd
        simp only [UInt8.reduceToNat] at hhigh
        omega
      case isFalse =>
        rw [Option.ite_none_right_eq_some] at hd
        have hhigh := UInt8.le_iff_toNat_le.1 hd.1.2
        have heq := Option.some.inj hd.2
        simp only [UInt8.reduceToNat] at hhigh
        omega
    calc n < (acc * 16 + d + 1) * 16 ^ s.length := ih hrest
      _ ≤ ((acc + 1) * 16) * 16 ^ s.length := Nat.mul_le_mul_right _ (by omega)
      _ = (acc + 1) * 16 ^ (c :: s).length := by rw [List.length_cons, pow_succ]; ring

/-- What is accepted as an id is one. -/
theorem isId_of_parse (h : parse_node_id s = some id) : IsId id := by
  rw [parse_node_id, Option.ite_none_right_eq_some] at h
  have hlt := lt_of_read_hex h.2
  rw [h.1] at hlt
  simpa [IsId] using hlt

/-! ## Bitmaps -/

/-- A byte from its bits, the lowest first. -/
def byte_of (bit : Nat → Bool) : UInt8 :=
  (List.range 8).foldl (fun b j => if bit j then b ||| (1 <<< UInt8.ofNat j) else b) 0

def has_bit (b : UInt8) (j : Nat) : Bool := b &&& (1 <<< UInt8.ofNat j) ≠ 0

/-- Slot `8 * i + j` is bit `j` of byte `i`. -/
def slots_to_bytes (slots : SlotBitmap) : Bytes :=
  (List.range kSlotBytes).map fun i => byte_of fun j => (to_slot (8 * i + j)).any (· ∈ slots)

/-- A bitmap of another length is refused. -/
def slots_from_bytes (bytes : Bytes) : Option SlotBitmap :=
  if bytes.length ≠ kSlotBytes then none
  else some (Finset.univ.filter fun slot : Slot => has_bit (bytes.getD (slot / 8) 0) (slot % 8))

/-- A byte says which bits it was made of: all of them are tried. -/
theorem has_bit_byte_of (bit : Nat → Bool) {j : Nat} (hj : j < 8) :
    has_bit (byte_of bit) j = bit j := by
  have hbits : ∀ b0 b1 b2 b3 b4 b5 b6 b7 : Bool, ∀ j < 8,
      has_bit (byte_of fun i => [b0, b1, b2, b3, b4, b5, b6, b7].getD i false) j
        = [b0, b1, b2, b3, b4, b5, b6, b7].getD j false := by
    decide +kernel
  have hbyte := hbits (bit 0) (bit 1) (bit 2) (bit 3) (bit 4) (bit 5) (bit 6) (bit 7) j hj
  have hread : ([bit 0, bit 1, bit 2, bit 3, bit 4, bit 5, bit 6, bit 7].getD j false) = bit j := by
    interval_cases j <;> rfl
  rw [hread] at hbyte
  exact hbyte

/-- A bitmap comes back. -/
theorem slots_from_bytes_to_bytes (slots : SlotBitmap) :
    slots_from_bytes (slots_to_bytes slots) = some slots := by
  have hlen : (slots_to_bytes slots).length = kSlotBytes := by
    rw [slots_to_bytes, List.length_map, List.length_range]
  rw [slots_from_bytes, if_neg (fun hne => hne hlen)]
  refine congrArg some (Finset.ext fun slot => ?_)
  have hbyte : slot.val / 8 < kSlotBytes := by
    have hslot := slot.isLt
    simp only [kSlotBytes, kSlots] at hslot ⊢
    omega
  have hread : (slots_to_bytes slots).getD (slot.val / 8) 0
      = byte_of fun j => (to_slot (8 * (slot.val / 8) + j)).any (· ∈ slots) := by
    rw [List.getD_eq_getElem?_getD, slots_to_bytes, List.getElem?_map, List.getElem?_range hbyte]
    rfl
  have hback : 8 * (slot.val / 8) + slot.val % 8 = slot.val := by omega
  rw [Finset.mem_filter, hread, has_bit_byte_of _ (Nat.mod_lt _ (by norm_num)), hback]
  simp [to_slot]

/-! ## The message -/

def mflags (msg : Message) : Nat :=
  (if msg.paused then 1 else 0) ||| (if msg.force_ack then 2 else 0)

/-- The eleven fields of the header, in the order of the source. -/
def header_fields (msg : Message) : Args :=
  [type_name msg.type, node_id_text msg.sender, to_string msg.port, to_string msg.cport,
    role_name msg.replica, msg.master_id.elim (lit "-") node_id_text, to_string msg.current_epoch,
    to_string msg.config_epoch, to_string msg.repl_offset, to_string (mflags msg),
    slots_to_bytes msg.slots]

def gossip_fields (g : GossipEntry) : Args :=
  [node_id_text g.id, g.ip, to_string g.port, to_string g.cport, gossip_flags g]

/-- What stands behind the header depends on the type. -/
def body_fields (msg : Message) : Args :=
  if msg.type = .kUpdate then
    [node_id_text msg.update_id, to_string msg.update_epoch, slots_to_bytes msg.update_slots]
  else if msg.type = .kFail then [node_id_text msg.fail_id]
  else if header_only msg.type then []
  else to_string msg.gossip.length :: msg.gossip.flatMap gossip_fields

def fields (msg : Message) : Args := header_fields msg ++ body_fields msg

def encode (msg : Message) : Bytes := Resp.command (fields msg)

/-- The sender's master, or that it has none. -/
def parse_master (s : Bytes) : Option (Option NodeId) :=
  if s ≠ lit "-" then (parse_node_id s).map some else some none

/-- The header, and the fields behind it. -/
def decode_header : Args → Option (Message × Args)
  | type :: sender :: port :: cport :: role :: master :: current_epoch :: config_epoch ::
      repl_offset :: flags :: slots :: body => do
    let type ← parse_type type
    let sender ← parse_node_id sender
    let port ← parse_port port
    let cport ← parse_port cport
    let replica ← parse_role role
    let current_epoch ← parse_uint 64 current_epoch
    let config_epoch ← parse_uint 64 config_epoch
    let repl_offset ← parse_uint 64 repl_offset
    let mflags ← parse_uint 32 flags
    let slots ← slots_from_bytes slots
    let master_id ← parse_master master
    return ({ type, sender, port, cport, replica, master_id, current_epoch, config_epoch,
              repl_offset, slots, paused := mflags.testBit 0, force_ack := mflags.testBit 1 }, body)
  | _ => none

def decode_entry (id ip port cport flags : Bytes) : Option GossipEntry := do
  let id ← parse_node_id id
  let port ← parse_port port
  let cport ← parse_port cport
  parse_gossip_flags flags { id, ip, port, cport, replica := false, pfail := false, fail := false }

/-- The loop over the gossiped nodes. -/
def decode_gossip : Nat → Args → Option (List GossipEntry)
  | 0, _ => some []
  | count + 1, id :: ip :: port :: cport :: flags :: rest => do
    let g ← decode_entry id ip port cport flags
    let gs ← decode_gossip count rest
    return g :: gs
  | _, _ => none

def decode_update (msg : Message) : Args → Option Message
  | [id, epoch, slots] => do
    let update_id ← parse_node_id id
    let update_epoch ← parse_uint 64 epoch
    let update_slots ← slots_from_bytes slots
    return { msg with update_id, update_epoch, update_slots }
  | _ => none

def decode_fail (msg : Message) : Args → Option Message
  | [id] => (parse_node_id id).map fun fail_id => { msg with fail_id }
  | _ => none

/-- The count is checked against the number of fields before it is multiplied. -/
def decode_ping (msg : Message) : Args → Option Message
  | [] => none
  | n :: entries => do
    let count ← parse_uint 64 n
    let body_size := entries.length + 1
    if body_size < count ∨ body_size ≠ 1 + count * kGossipFields then none
    else (decode_gossip count entries).map fun gossip => { msg with gossip }

def decode_body (msg : Message) (body : Args) : Option Message :=
  if msg.type = .kUpdate then decode_update msg body
  else if msg.type = .kFail then decode_fail msg body
  else if header_only msg.type then if body.length = 0 then some msg else none
  else decode_ping msg body

/-- `cluster_msg::decode`: nothing if any field is not what it should be. -/
def decode (argv : Args) : Option Message :=
  (decode_header argv).bind fun p => decode_body p.1 p.2

/-! ## What can be read back -/

def IsPort (port : Nat) : Prop := port ≠ 0 ∧ port < 2 ^ 16

instance (port : Nat) : Decidable (IsPort port) := inferInstanceAs (Decidable (_ ∧ _))

/-- Ids and ports are ones: what `decode` checks of them. -/
structure Addressed (msg : Message) : Prop where
  sender : IsId msg.sender
  port : IsPort msg.port
  cport : IsPort msg.cport
  master : ∀ id ∈ msg.master_id, IsId id
  gossip : ∀ g ∈ msg.gossip, IsId g.id ∧ IsPort g.port ∧ IsPort g.cport
  update : IsId msg.update_id
  fail : IsId msg.fail_id

/-- The message gossips: PING, PONG and MEET. -/
def pings (t : MsgType) : Prop := t ≠ .kUpdate ∧ t ≠ .kFail ∧ header_only t = false

instance (t : MsgType) : Decidable (pings t) := inferInstanceAs (Decidable (_ ∧ _))

/-- A message whose text says all of it: nobody is gossiped to be both suspected and
failed, for which there is no text, and fields of other types are empty. -/
structure Legible (msg : Message) : Prop extends Addressed msg where
  health : ∀ g ∈ msg.gossip, ¬ (g.pfail = true ∧ g.fail = true)
  gossips : ¬ pings msg.type → msg.gossip = []
  updates : msg.type ≠ .kUpdate → msg.update_id = 0 ∧ msg.update_epoch = 0 ∧ msg.update_slots = ∅
  fails : msg.type ≠ .kFail → msg.fail_id = 0

/-- The numbers and the text are ones the source's types can hold. -/
structure Sized (msg : Message) : Prop where
  current_epoch : msg.current_epoch < 2 ^ 64
  config_epoch : msg.config_epoch < 2 ^ 64
  repl_offset : msg.repl_offset < 2 ^ 64
  update_epoch : msg.update_epoch < 2 ^ 64
  text : (encode msg).length < 2 ^ 64

/-! ## Field by field -/

theorem parse_type_name (t : MsgType) : parse_type (type_name t) = some t := by
  cases t <;> decide

/-- A number that the type can hold comes back. -/
theorem parse_uint_to_string {bits : Nat} (hn : n < 2 ^ bits) :
    parse_uint bits (to_string n) = some n := by
  have hdigits : parse_digits (to_string n) = some n := parse_digits_nat_to_string n
  rw [parse_uint, hdigits, Option.bind_some, if_pos hn]

theorem parse_port_to_string (h : IsPort port) : parse_port (to_string port) = some port := by
  rw [parse_port, parse_uint_to_string h.2, Option.bind_some, if_pos h.1]

theorem parse_role_name (replica : Bool) : parse_role (role_name replica) = some replica := by
  cases replica <;> decide

theorem parse_master_text (h : ∀ id ∈ o, IsId id) :
    parse_master (o.elim (lit "-") node_id_text) = some o := by
  cases o with
  | none => rfl
  | some id =>
    rw [Option.elim_some, parse_master, if_pos (node_id_text_ne (by decide) id),
      parse_node_id_text (h id rfl)]
    rfl

theorem testBit_mflags (msg : Message) :
    (mflags msg).testBit 0 = msg.paused ∧ (mflags msg).testBit 1 = msg.force_ack
      ∧ mflags msg < 2 ^ 32 := by
  unfold mflags
  cases msg.paused <;> cases msg.force_ack <;> decide

/-- The health of a node is read back unless it is two things at once. -/
theorem parse_gossip_flags_text (g e : GossipEntry) (h : ¬ (g.pfail = true ∧ g.fail = true))
    (hp : e.pfail = false) (hf : e.fail = false) :
    parse_gossip_flags (gossip_flags g) e
      = some { e with replica := g.replica, pfail := g.pfail, fail := g.fail } := by
  obtain ⟨id, ip, port, cport, replica, pfail, fail⟩ := g
  obtain ⟨id', ip', port', cport', replica', pfail', fail'⟩ := e
  subst hp hf
  cases pfail <;> cases fail
  case true.true => exact absurd ⟨rfl, rfl⟩ h
  all_goals cases replica <;> rfl

theorem decode_entry_text (hid : IsId g.id) (hport : IsPort g.port) (hcport : IsPort g.cport)
    (h : ¬ (g.pfail = true ∧ g.fail = true)) :
    decode_entry (node_id_text g.id) g.ip (to_string g.port) (to_string g.cport) (gossip_flags g)
      = some g := by
  simp only [decode_entry, parse_node_id_text hid, parse_port_to_string hport,
    parse_port_to_string hcport, Option.bind_eq_bind, Option.bind_some]
  exact parse_gossip_flags_text g _ h rfl rfl

/-- The gossip comes back entry by entry. -/
theorem decode_gossip_text (haddr : ∀ g ∈ gs, IsId g.id ∧ IsPort g.port ∧ IsPort g.cport)
    (hhealth : ∀ g ∈ gs, ¬ (g.pfail = true ∧ g.fail = true)) :
    decode_gossip gs.length (gs.flatMap gossip_fields) = some gs := by
  induction gs with
  | nil => rfl
  | cons g gs ih =>
    have hrest := ih (fun x hx => haddr x (List.mem_cons_of_mem _ hx))
      fun x hx => hhealth x (List.mem_cons_of_mem _ hx)
    obtain ⟨hid, hport, hcport⟩ := haddr g List.mem_cons_self
    have hentry := decode_entry_text hid hport hcport (hhealth g List.mem_cons_self)
    simp only [List.length_cons, List.flatMap_cons, gossip_fields, List.cons_append,
      List.nil_append, decode_gossip, hentry, Option.bind_eq_bind, Option.bind_some, hrest,
      Option.pure_def]

theorem length_gossip_fields (gs : List GossipEntry) :
    (gs.flatMap gossip_fields).length = gs.length * kGossipFields := by
  induction gs with
  | nil => rfl
  | cons g gs ih =>
    rw [List.flatMap_cons, List.length_append, ih, List.length_cons, Nat.succ_mul, Nat.add_comm]
    rfl

/-! ## The round trip -/

/-- What the header says. -/
def bare (msg : Message) : Message :=
  { msg with gossip := [], update_id := 0, update_epoch := 0, update_slots := ∅, fail_id := 0 }

/-- A header and what the type carries are the whole message. -/
theorem bare_with (h : Legible msg) :
    (pings msg.type → { bare msg with gossip := msg.gossip } = msg)
      ∧ (msg.type = .kUpdate →
          { bare msg with
            update_id := msg.update_id
            update_epoch := msg.update_epoch
            update_slots := msg.update_slots } = msg)
      ∧ (msg.type = .kFail → { bare msg with fail_id := msg.fail_id } = msg)
      ∧ (header_only msg.type = true → bare msg = msg) := by
  obtain ⟨-, -, hgossips, hupdates, hfails⟩ := h
  obtain ⟨type, sender, port, cport, replica, master_id, current_epoch, config_epoch, repl_offset,
    paused, force_ack, slots, gossip, update_id, update_epoch, update_slots, fail_id⟩ := msg
  dsimp only [bare] at *
  refine ⟨?_, ?_, ?_, ?_⟩
  · intro hp
    obtain ⟨rfl, rfl, rfl⟩ := hupdates hp.1
    rw [hfails hp.2.1]
  · rintro rfl
    rw [hgossips fun hp => hp.1 rfl, hfails (by decide)]
  · rintro rfl
    obtain ⟨rfl, rfl, rfl⟩ := hupdates (by decide)
    rw [hgossips fun hp => hp.2.1 rfl]
  · intro honly
    have hu : type ≠ .kUpdate := by
      rintro rfl
      exact absurd honly (by decide)
    have hf : type ≠ .kFail := by
      rintro rfl
      exact absurd honly (by decide)
    obtain ⟨rfl, rfl, rfl⟩ := hupdates hu
    rw [hgossips fun hp => by simp [hp.2.2] at honly, hfails hf]

/-- The header comes back, and the body is left. -/
theorem decode_header_fields (h : Addressed msg) (hs : Sized msg) (body : Args) :
    decode_header (header_fields msg ++ body) = some (bare msg, body) := by
  obtain ⟨hpaused, hforce, hflags⟩ := testBit_mflags msg
  simp only [header_fields, List.cons_append, List.nil_append, decode_header, parse_type_name,
    parse_node_id_text h.sender, parse_port_to_string h.port, parse_port_to_string h.cport,
    parse_role_name, parse_uint_to_string hs.current_epoch, parse_uint_to_string hs.config_epoch,
    parse_uint_to_string hs.repl_offset, parse_uint_to_string hflags, slots_from_bytes_to_bytes,
    parse_master_text h.master, Option.bind_eq_bind, Option.bind_some, Option.pure_def,
    hpaused, hforce]
  rfl

/-- Nothing in a command is longer than the command. -/
theorem length_le_command (argv : Args) :
    argv.length ≤ (Resp.command argv).length ∧
      ∀ arg ∈ argv, arg.length ≤ (Resp.command argv).length := by
  have hall : argv.length ≤ (argv.flatMap Resp.bulk_string).length ∧
      ∀ arg ∈ argv, arg.length ≤ (argv.flatMap Resp.bulk_string).length := by
    induction argv with
    | nil => simp
    | cons arg argv ih =>
      have hone : arg.length + 1 ≤ (Resp.bulk_string arg).length := by
        simp only [Resp.bulk_string, List.cons_append, List.length_cons, List.length_append]
        omega
      rw [List.flatMap_cons, List.length_append, List.length_cons]
      refine ⟨by omega, fun a ha => ?_⟩
      rcases List.mem_cons.1 ha with rfl | ha
      · omega
      · have := ih.2 a ha
        omega
  rw [Resp.command, List.length_append]
  exact ⟨by omega, fun arg harg => (hall.2 arg harg).trans (by omega)⟩

/-- A message that fits into memory does not gossip about too many. -/
theorem gossip_length_lt (hs : Sized msg) (hp : pings msg.type) : msg.gossip.length < 2 ^ 64 := by
  have hlen := (length_le_command (fields msg)).1
  have hbody : body_fields msg
      = to_string msg.gossip.length :: msg.gossip.flatMap gossip_fields := by
    rw [body_fields, if_neg hp.1, if_neg hp.2.1, if_neg (by simp [hp.2.2])]
  have htext : (Resp.command (fields msg)).length < 2 ^ 64 := hs.text
  have hcount : (fields msg).length
      = (header_fields msg).length + (msg.gossip.length * kGossipFields + 1) := by
    rw [fields, List.length_append, hbody, List.length_cons, length_gossip_fields]
  simp only [kGossipFields] at hcount
  omega

theorem decode_ping_fields (h : Legible msg) (hs : Sized msg) (hp : pings msg.type) :
    decode_ping (bare msg) (to_string msg.gossip.length :: msg.gossip.flatMap gossip_fields)
      = some msg := by
  have hlen := length_gossip_fields msg.gossip
  have hcount : ¬ ((msg.gossip.flatMap gossip_fields).length + 1 < msg.gossip.length ∨
      (msg.gossip.flatMap gossip_fields).length + 1 ≠ 1 + msg.gossip.length * kGossipFields) := by
    rw [hlen]
    simp only [kGossipFields]
    omega
  simp only [decode_ping, parse_uint_to_string (gossip_length_lt hs hp), Option.bind_eq_bind,
    Option.bind_some, if_neg hcount, decode_gossip_text h.gossip h.health, Option.map_some]
  exact congrArg some ((bare_with h).1 hp)

/-- **What `encode` writes of a legible message, `decode` accepts, and it reads the same
message**, in the fields its type carries as in the others. -/
theorem decode_fields (h : Legible msg) (hs : Sized msg) : decode (fields msg) = some msg := by
  rw [decode, fields, decode_header_fields h.toAddressed hs, Option.bind_some]
  have htype : (bare msg).type = msg.type := rfl
  rw [decode_body, body_fields, htype]
  obtain ⟨-, hwith_update, hwith_fail, hwith_nothing⟩ := bare_with h
  by_cases hupdate : msg.type = .kUpdate
  · simp only [if_pos hupdate, decode_update, parse_node_id_text h.update,
      parse_uint_to_string hs.update_epoch, slots_from_bytes_to_bytes, Option.bind_eq_bind,
      Option.bind_some, Option.pure_def]
    exact congrArg some (hwith_update hupdate)
  rw [if_neg hupdate, if_neg hupdate]
  by_cases hfail : msg.type = .kFail
  · simp only [if_pos hfail, decode_fail, parse_node_id_text h.fail, Option.map_some]
    exact congrArg some (hwith_fail hfail)
  rw [if_neg hfail, if_neg hfail]
  by_cases honly : header_only msg.type = true
  · rw [if_pos honly, if_pos honly, List.length_nil, if_pos rfl]
    exact congrArg some (hwith_nothing honly)
  rw [if_neg honly, if_neg honly]
  exact decode_ping_fields h hs ⟨hupdate, hfail, Bool.eq_false_iff.2 honly⟩

/-! ## What is accepted

`decode` is also the guard of the node that reads: no message that passes it names an id
or a port that could not be written again. -/

theorem isPort_of_parse (h : parse_port s = some port) : IsPort port := by
  obtain ⟨n, hn, hport⟩ := Option.bind_eq_some_iff.1 h
  obtain ⟨k, -, hk⟩ := Option.bind_eq_some_iff.1 hn
  rw [Option.ite_none_right_eq_some] at hk hport
  obtain rfl := Option.some.inj hk.2
  obtain rfl := Option.some.inj hport.2
  exact ⟨hport.1, hk.1⟩

theorem isId_of_parse_master (h : parse_master s = some o) : ∀ id ∈ o, IsId id := by
  intro id hid
  rw [parse_master] at h
  split at h
  case isTrue =>
    obtain ⟨n, hn, rfl⟩ := Option.map_eq_some_iff.1 h
    obtain rfl := Option.some.inj hid
    exact isId_of_parse hn
  case isFalse =>
    obtain rfl := Option.some.inj h
    exact absurd hid nofun

theorem isId_zero : IsId 0 := by decide

/-- The header is refused unless its ids and ports are ones. -/
theorem addressed_of_decode_header {body : Args} (h : decode_header argv = some (msg, body)) :
    Addressed msg := by
  unfold decode_header at h
  split at h
  case h_2 => exact absurd h nofun
  case h_1 =>
    simp only [Option.bind_eq_bind, Option.bind_eq_some_iff, Option.pure_def, Option.some.injEq,
      Prod.mk.injEq] at h
    obtain ⟨-, -, sender, hsender, port, hport, cport, hcport, -, -, -, -, -, -, -, -, -, -, -, -,
      master, hmaster, rfl, -⟩ := h
    exact ⟨isId_of_parse hsender, isPort_of_parse hport, isPort_of_parse hcport,
      isId_of_parse_master hmaster, nofun, isId_zero, isId_zero⟩

/-- The words of the flags name no id and no port. -/
theorem parse_gossip_flag_keeps (flags : List Bytes) (h : flags.foldlM parse_gossip_flag e = some g) :
    g.id = e.id ∧ g.port = e.port ∧ g.cport = e.cport := by
  induction flags generalizing e with
  | nil =>
    obtain rfl := Option.some.inj h
    exact ⟨rfl, rfl, rfl⟩
  | cons flag flags ih =>
    rw [List.foldlM_cons] at h
    obtain ⟨mid, hmid, hrest⟩ := Option.bind_eq_some_iff.1 h
    obtain ⟨hid, hport, hcport⟩ := ih hrest
    rw [hid, hport, hcport]
    unfold parse_gossip_flag at hmid
    split at hmid
    · obtain rfl := Option.some.inj hmid
      exact ⟨rfl, rfl, rfl⟩
    · rw [Option.ite_none_right_eq_some] at hmid
      obtain rfl := Option.some.inj hmid.2
      exact ⟨rfl, rfl, rfl⟩

theorem parse_gossip_flags_keeps (h : parse_gossip_flags s e = some g) :
    g.id = e.id ∧ g.port = e.port ∧ g.cport = e.cport := by
  unfold parse_gossip_flags at h
  split at h
  · exact absurd h nofun
  · obtain ⟨replica, -, hflags⟩ := Option.bind_eq_some_iff.1 h
    have hkeeps := parse_gossip_flag_keeps _ hflags
    exact hkeeps

theorem addressed_of_decode_entry {id ip port cport flags : Bytes}
    (h : decode_entry id ip port cport flags = some g) :
    IsId g.id ∧ IsPort g.port ∧ IsPort g.cport := by
  simp only [decode_entry, Option.bind_eq_bind, Option.bind_eq_some_iff] at h
  obtain ⟨n, hn, p, hp, q, hq, hflags⟩ := h
  obtain ⟨hid, hport, hcport⟩ := parse_gossip_flags_keeps hflags
  rw [hid, hport, hcport]
  exact ⟨isId_of_parse hn, isPort_of_parse hp, isPort_of_parse hq⟩

/-- So is every entry, by induction on their number. -/
theorem addressed_of_decode_gossip {count : Nat} {entries : Args}
    (h : decode_gossip count entries = some gs) :
    ∀ g ∈ gs, IsId g.id ∧ IsPort g.port ∧ IsPort g.cport := by
  induction count generalizing entries gs with
  | zero =>
    obtain rfl := Option.some.inj h
    exact nofun
  | succ count ih =>
    unfold decode_gossip at h
    split at h
    case h_1 => contradiction
    case h_3 => exact absurd h nofun
    case h_2 k id ip port cport flags rest heq =>
      obtain rfl := Nat.succ.inj heq
      simp only [Option.bind_eq_bind, Option.bind_eq_some_iff, Option.pure_def,
        Option.some.injEq] at h
      obtain ⟨g, hg, gs', hgs, rfl⟩ := h
      intro x hx
      rcases List.mem_cons.1 hx with rfl | hx
      · exact addressed_of_decode_entry hg
      · exact ih hgs x hx

/-- What is accepted names ids and ports. -/
theorem addressed_of_decode (h : decode argv = some msg) : Addressed msg := by
  obtain ⟨⟨head, body⟩, hhead, hbody⟩ := Option.bind_eq_some_iff.1 h
  have haddr := addressed_of_decode_header hhead
  unfold decode_body at hbody
  split at hbody
  · unfold decode_update at hbody
    split at hbody
    · simp only [Option.bind_eq_bind, Option.bind_eq_some_iff, Option.pure_def,
        Option.some.injEq] at hbody
      obtain ⟨id, hid, epoch, -, slots, -, rfl⟩ := hbody
      exact { haddr with update := isId_of_parse hid }
    · exact absurd hbody nofun
  split at hbody
  · unfold decode_fail at hbody
    split at hbody
    · obtain ⟨id, hid, rfl⟩ := Option.map_eq_some_iff.1 hbody
      exact { haddr with fail := isId_of_parse hid }
    · exact absurd hbody nofun
  split at hbody
  · rw [Option.ite_none_right_eq_some] at hbody
    obtain rfl := Option.some.inj hbody.2
    exact haddr
  · unfold decode_ping at hbody
    split at hbody
    · exact absurd hbody nofun
    · simp only [Option.bind_eq_bind, Option.bind_eq_some_iff] at hbody
      obtain ⟨count, -, hgossip⟩ := hbody
      rw [Option.ite_none_left_eq_some] at hgossip
      obtain ⟨gs, hgs, rfl⟩ := Option.map_eq_some_iff.1 hgossip.2
      exact { haddr with gossip := addressed_of_decode_gossip hgs }

/-! ## The bytes on the wire -/

end EpochKV.Wire

/-
What becomes of a key while slots move.

Keys are moved by MIGRATE, which deletes what the target has confirmed, and slots by
SETSLOT NODE, which refuses to give away a slot that still has keys. The bus is the third
party: `update_slots_config_with` deletes the keys of a slot that a claim takes from us,
because the new owner is the authority for them, and a master that loses its last slot
becomes a replica, whose keys the next resync replaces. Both are right if the claim is a
late word about a migration that is over. They are not if a claim beats a node that has
the keys: a third node puts into an UPDATE the slots it believes another node to have,
under the epoch that node has since moved to, and the two need not belong together.

So a key stays with some master as long as no claim beats its reader on a slot it still
has keys in, and none takes its last slot from a reader that has any. A migration by itself
is no danger: the SETSLOTs and the two ends of MIGRATE keep to this condition, however much
of the exchange is lost (`meets_batch`, `meets_migration`).
-/
import EpochKV.Migration
import EpochKV.Precedence

set_option autoImplicit false
set_option maxRecDepth 8192

namespace EpochKV

open Text Commands

def Store.value (s : Store) (k : Key) : Option Bytes := s.tables.dict.lookup k

variable {k : Key} {v : Bytes}

namespace Cluster

variable {o : Cause} {c c' : Cluster}

/-! ## Keys, and our own role -/

/-- But for their own traffic, only a claim deletes keys. -/
theorem Change.keys_cases (hs : Change o c c') (ht : ¬ o.traffic) :
    c'.store.tables = c.store.tables ∨ ∃ n e slots, o.claims n e slots ∧ n ≠ c.myself ∧
      c'.store = (c.delete_slots (c.dirty n e slots)).store := by
  cases hs with
  | aside h => exact Or.inl h.keys
  | keys h => exact Or.inr (h.resolve_left ht)
  | _ => exact Or.inl rfl

/-- A master stays one unless it has no keys, or a claim has taken its last slot. -/
theorem Change.own_master_kept (hs : Change o c c') (hd : ¬ o.drawn c.myself) (hmet : o.met c.myself)
    (hr : ¬ o.resigns c.myself) (hm : c.me.master = true) :
    c'.me.master = true ∨ c.store.size = 0 ∨
      o.msg.isSome ∧ c.table.own.slots c.myself = ∅ ∧ o.had := by
  rcases (hs.edit_self hd hmet).role with hrole | ⟨-, -, hwhy⟩
  · rw [hrole.1]
    exact Or.inl hm
  · rcases hwhy with hmaster | hresign | ⟨-, hrep | hnil | ⟨hmsg, hnil, hhad⟩⟩
    · exact Or.inl hmaster
    · exact absurd hresign hr
    · rw [hm] at hrep
      cases hrep
    · exact Or.inr (Or.inl hnil)
    · exact Or.inr (Or.inr ⟨hmsg, hnil, hhad hmet⟩)

theorem delete_slots_empty (c : Cluster) : (c.delete_slots ∅).store = c.store := by
  unfold delete_slots
  rfl

/-! ## A node that has keys -/

/-- The claim of the message, if it beats us, is to slots we have no keys in, and not to all
the slots we have. -/
structure Cause.Spares (o : Cause) (c : Cluster) : Prop where
  traffic : ¬ o.traffic
  drawn : ¬ o.drawn c.myself
  met : o.met c.myself
  proper : c.Proper c.myself
  sender : ∀ m, o.msg = some m → m.sender ≠ c.myself
  had : o.had → c.table.own.slots c.myself ≠ ∅
  slots : ∀ n e slots, o.claims n e slots → n ≠ c.myself → c.me.config_epoch < e →
    ∀ s ∈ slots, c.table.own.owner s = some c.myself → c.store.count_keys_in_slot s = 0
  last : ∀ n e slots, o.claims n e slots → n ≠ c.myself → c.me.config_epoch < e →
    c.table.own.slots c.myself ≠ ∅ → c.table.own.slots c.myself ⊆ slots → c.store.size = 0

theorem Cause.claims_unique {n n' : NodeId} {e e' : Nat} {slots slots' : SlotBitmap}
    (h : o.claims n e slots) (h' : o.claims n' e' slots') : slots = slots' := by
  obtain ⟨m, hm, hclaim, -⟩ := h
  obtain ⟨m', hm', hclaim', -⟩ := h'
  rw [hm] at hm'
  cases hm'
  rw [hclaim] at hclaim'
  exact congrArg (fun p => p.2.2) hclaim'

/-- So far nothing is lost: we are a master, the keys are there, and a slot that was ours
is ours or was taken by the claim. -/
structure Spared (o : Cause) (c₀ c : Cluster) : Prop where
  master : c.me.master = true
  keys : c.store.tables = c₀.store.tables
  slots : o.msg.isSome → ∀ s ∈ c₀.table.own.slots c₀.myself, c.table.own.owner s = some c₀.myself ∨
    ∃ n e slots, o.claims n e slots ∧ n ≠ c₀.myself ∧ c₀.me.config_epoch < e ∧ s ∈ slots

section Chain

variable {c₀ : Cluster}

/-- No key is in a slot that the claim takes from us. -/
theorem Spared.dirty_eq_empty (ho : Cause.Spares o c₀) (hcs : Changes o c₀ c) (h : Spared o c₀ c)
    (hle : c₀.me.config_epoch ≤ c.me.config_epoch) {n : NodeId} {e : Nat} {slots : SlotBitmap}
    (hc : o.claims n e slots) (hn : n ≠ c.myself) : c.dirty n e slots = ∅ := by
  have hid : c.myself = c₀.myself := hcs.myself
  have hmsg : o.msg.isSome := by
    obtain ⟨m, hm, -⟩ := hc
    rw [hm]
    rfl
  refine Finset.eq_empty_of_forall_notMem fun s hs => ?_
  obtain ⟨hlost, hkeys⟩ := Finset.mem_filter.mp hs
  obtain ⟨hclaimed, hown⟩ := Finset.mem_filter.mp hlost
  obtain ⟨hslot, hbeats⟩ := Finset.mem_filter.mp hclaimed
  have hlow : c.me.config_epoch < e := (owner_of_beats hbeats hown).2
  have hmine : s ∈ c₀.table.own.slots c₀.myself :=
    hcs.own_slots_subset hmsg ho.met ((c.table.own.owner_iff ..).mp hown)
  have hzero := ho.slots n e slots hc (hid ▸ hn) (hle.trans_lt hlow) s hslot
    ((c₀.table.own.owner_iff ..).mpr hmine)
  unfold Store.count_keys_in_slot at hkeys hzero
  rw [h.keys, hzero] at hkeys
  exact absurd hkeys (lt_irrefl 0)

theorem Spared.change (ho : Cause.Spares o c₀) (hcs : Changes o c₀ c) (hsize : c₀.store.size ≠ 0)
    (hle : c₀.me.config_epoch ≤ c.me.config_epoch) (h : Spared o c₀ c) (hs : Change o c c') :
    Spared o c₀ c' := by
  have hid : c.myself = c₀.myself := hcs.myself
  have hsame : c.store.size = c₀.store.size := by
    unfold Store.size
    rw [h.keys]
  have hhand : (c.table.node c₀.myself).handshake = false := hcs.met ho.drawn ho.proper.2
  refine ⟨?_, ?_, fun hmsg s hmine => ?_⟩
  · have hresign : ¬ o.resigns c.myself := by
      rintro ⟨m, hm, hsender, -⟩
      exact ho.sender m hm (hsender.symm.trans hid)
    have hdrawn : ¬ o.drawn c.myself := hid ▸ ho.drawn
    have hmet : o.met c.myself := hid ▸ ho.met
    rcases hs.own_master_kept hdrawn hmet hresign h.master with hm | hnil | ⟨hmsg, hnil, hhad⟩
    · exact hm
    · exact absurd (hsame.symm.trans hnil) hsize
    · -- every slot we had was taken by the claim
      refine absurd ?_ hsize
      have htaken : ∀ s ∈ c₀.table.own.slots c₀.myself,
          ∃ n e slots, o.claims n e slots ∧ n ≠ c₀.myself ∧ c₀.me.config_epoch < e ∧ s ∈ slots := by
        intro s hmine
        refine (h.slots hmsg s hmine).resolve_left fun hown => ?_
        rw [← hid] at hown
        have hmem := (c.table.own.owner_iff ..).mp hown
        rw [hnil] at hmem
        cases hmem
      obtain ⟨s, hmine⟩ := Finset.nonempty_of_ne_empty (ho.had hhad)
      obtain ⟨n, e, slots, hc, hn, hlow, -⟩ := htaken s hmine
      refine ho.last n e slots hc hn hlow (ho.had hhad) fun x hx => ?_
      obtain ⟨_, _, slots', hc', -, -, hmem⟩ := htaken x hx
      exact Cause.claims_unique hc' hc ▸ hmem
  · rcases hs.keys_cases ho.traffic with hkeys | ⟨n, e, slots, hc, hn, hstore⟩
    · exact hkeys.trans h.keys
    · rw [hstore, h.dirty_eq_empty ho hcs hle hc hn, delete_slots_empty]
      exact h.keys
  · rcases h.slots hmsg s hmine with hown | htaken
    · have hpass := hs.passes s
      generalize hx : c'.table.own.owner s = x at hpass
      cases hpass with
      | kept => exact Or.inl hown
      | lost hn hwhy =>
        rw [hown] at hn
        cases hn
        rcases hwhy with ⟨-, hrep | hnil⟩ | hph | hm | ⟨m, hm, -, hsender⟩
        · rw [h.master] at hrep
          cases hrep
        · exact absurd (hsame.symm.trans hnil) hsize
        · rw [hhand] at hph
          cases hph
        · rw [hm] at hmsg
          cases hmsg
        · exact absurd hsender.symm (ho.sender m hm)
      | claimed hc hslot hbeat hn _ =>
        refine Or.inr ⟨_, _, _, hc, hid ▸ hn.1, ?_, hslot⟩
        have hlow := (hbeat _ hown).2
        rw [← hid] at hlow
        exact hle.trans_lt hlow
      | given hm _ =>
        rw [hm] at hmsg
        cases hmsg
      | renamed hn hi =>
        rw [hown] at hn
        cases hn
        have hph := hi.placeholder
        rw [hhand] at hph
        cases hph
    · exact Or.inr htaken

theorem Spared.changes (ho : Cause.Spares o c) (hc : c.Sound) (hm : o.Sound) (hsize : c.store.size ≠ 0)
    (hmaster : c.me.master = true) (hcs : Changes o c c') : Spared o c c' := by
  induction hcs with
  | refl => exact ⟨hmaster, rfl, fun _ s hs => Or.inl ((c.table.own.owner_iff ..).mpr hs)⟩
  | tail hcs hs ih => exact ih.change ho hcs hsize (Changes.own_epoch_le hcs hc hm ho.drawn ho.met) hs

end Chain

/-! ## One event -/

/-- We are a master and have the key, with this value. -/
def Holds (c : Cluster) (k : Key) (v : Bytes) : Prop :=
  c.me.master = true ∧ c.store.value k = some v

/-- The claim of message `m` beats us. -/
def BeatenBy (c : Cluster) (m : Message) : Prop :=
  m.claim.1 ≠ c.myself ∧ c.me.config_epoch < m.claim.2.1

/-- What the event must leave alone if we are a master: a slot that has keys, and our last
slot if we have any keys. -/
structure Event.Lenient (c : Cluster) (e : Event) : Prop where
  slots : ∀ m ∈ e.message, c.BeatenBy m → ∀ s ∈ m.claim.2.2,
    c.table.own.owner s = some c.myself → c.store.count_keys_in_slot s = 0
  last : ∀ m ∈ e.message, c.BeatenBy m → c.table.own.slots c.myself ≠ ∅ →
    c.table.own.slots c.myself ⊆ m.claim.2.2 → c.store.size = 0

instance (c : Cluster) (m : Message) : Decidable (c.BeatenBy m) := inferInstanceAs (Decidable (_ ∧ _))

-- by filters, since a quantifier over slots is tried on all of them
instance (c : Cluster) (e : Event) : Decidable (e.Lenient c) :=
  decidable_of_iff
    ((∀ m ∈ e.message, c.BeatenBy m → (m.claim.2.2.filter fun s =>
      ¬ (c.table.own.owner s = some c.myself → c.store.count_keys_in_slot s = 0)) = ∅) ∧
      ∀ m ∈ e.message, c.BeatenBy m → c.table.own.slots c.myself ≠ ∅ →
        c.table.own.slots c.myself \ m.claim.2.2 = ∅ → c.store.size = 0)
    (by
      simp only [Finset.filter_eq_empty_iff, not_not, Finset.sdiff_eq_empty_iff_subset]
      exact ⟨fun h => ⟨fun m hm hb s hs => h.1 m hm hb hs, h.2⟩,
        fun h => ⟨fun m hm hb s hs => h.slots m hm hb s hs, h.last⟩⟩)

theorem size_ne_zero_of_value {s : Store} (h : s.value k = some v) : s.size ≠ 0 := by
  intro hnil
  have hk : k ∈ s.tables.dict := AList.lookup_isSome.mp (by rw [show s.tables.dict.lookup k = _ from h]; rfl)
  have hentries : s.tables.dict.entries = [] := List.length_eq_zero_iff.mp hnil
  have hkeys : k ∈ s.tables.dict.entries.keys := hk
  rw [hentries] at hkeys
  cases hkeys

theorem Holds.step (h : c.Holds k v) (hc : c.Sound) (hg : c.Grounded) {e : Event}
    (he : e.is_restart = false) (hdata : e.is_data = false)
    (hm : ∀ m ∈ e.message, m.Sound ∧ m.sender ≠ c.myself) (hd : ¬ e.draws c.myself) (hl : c.me.master = true → e.Lenient c) : (c.step e).Holds k v := by
  have hclear : { c with sent := [] }.Sound := ⟨hc.rows, hc.election, hc.file, hc.saved, by simp⟩
  have hspares : Cause.Spares (e.cause { c with sent := [] }) { c with sent := [] } :=
    { traffic := fun ht => absurd (hdata.symm.trans ht) Bool.false_ne_true
      drawn := hd
      met := hg.proper
      proper := hg.proper
      sender := fun m hmsg => (hm m hmsg).2
      had := id
      slots := by
        rintro n e' slots ⟨m, hmsg, hclaim, -⟩ hn hlow
        have hs := (hl h.1).slots m hmsg
        unfold BeatenBy at hs
        rw [hclaim] at hs
        exact hs ⟨hn, hlow⟩
      last := by
        rintro n e' slots ⟨m, hmsg, hclaim, -⟩ hn hlow
        have hs := (hl h.1).last m hmsg
        unfold BeatenBy at hs
        rw [hclaim] at hs
        exact hs ⟨hn, hlow⟩ }
  have hsp := Spared.changes hspares hclear (fun m hmsg => (hm m hmsg).1) (size_ne_zero_of_value h.2) h.1
    (changes_handle { c with sent := [] } he)
  refine ⟨hsp.master, ?_⟩
  unfold Store.value
  rw [show (c.step e).store.tables = _ from hsp.keys]
  exact h.2

end Cluster

/-! ## The cluster -/

namespace World

def Held (w : World) (k : Key) (v : Bytes) : Prop := ∃ i, (w.node i).Holds k v

/-- No process is started again, and nobody reads its own messages. The key is deleted on
a master only if another one has it, as MIGRATE does. A claim does not beat its reader on
a slot that has keys there, nor on all its slots while it has any keys. -/
structure Gentle (k : Key) (v : Bytes) (w : World) (s : Action) : Prop where
  fresh : w.Fresh s
  alive : ∀ p ∈ w.event s, p.2.is_restart = false
  foreign : ∀ p ∈ w.event s, ∀ m ∈ p.2.message, m.sender ≠ p.1
  data : ∀ i store, w.event s = some (i, .data store) → (w.node i).Holds k v →
    store.value k = some v ∨ ∃ j, j ≠ i ∧ (w.node j).Holds k v
  lenient : ∀ p ∈ w.event s, (w.node p.1).me.master = true → p.2.Lenient (w.node p.1)

theorem Held.step {w : World} (hw : w.Formed) (h : w.Held k v) {s : Action} (hs : w.Gentle k v s) :
    (w.step s).Held k v := by
  obtain ⟨i, hi⟩ := h
  cases he : w.event s with
  | none =>
    refine ⟨i, ?_⟩
    rw [node_step_of_none he]
    exact hi
  | some p =>
    obtain ⟨j, e⟩ := p
    by_cases hij : i = j
    · subst hij
      have hself : (w.node i).myself = i := (hw.sound.node i).2
      have hall : e.is_data = false → (w.step s).Held k v := by
        intro hdata
        refine ⟨i, ?_⟩
        rw [node_step_self he]
        refine hi.step (hw.sound.node i).1 (hw.grounded i) (hs.alive (i, e) he) hdata
          (fun m hm => ⟨hw.sound.packet he m hm, ?_⟩) ?_ (hs.lenient (i, e) he)
        · rw [hself]
          exact hs.foreign (i, e) he m hm
        · rw [hself]
          exact hs.fresh (i, e) he
      cases e with
      | data store =>
        rcases hs.data i store he hi with hv | ⟨j, hj, hold⟩
        · refine ⟨i, ?_⟩
          rw [node_step_self he]
          exact ⟨hi.1, hv⟩
        · refine ⟨j, ?_⟩
          rw [node_step_of_ne he hj]
          exact hold
      | _ => exact hall rfl
    · refine ⟨i, ?_⟩
      rw [node_step_of_ne he hij]
      exact hi

/-- **A key stays with some master,** in every run in which no claim beats a reader on a
slot that has keys, or on all the slots of a reader that has keys. -/
theorem key_is_kept {k : Key} {v : Bytes} {w : World}
    (h : Reach step (Gentle k v) (fun w => w.Formed ∧ w.Held k v) w) :
    ∃ i, (w.node i).me.master = true ∧ (w.node i).store.value k = some v := by
  have hall : w.Formed ∧ w.Held k v :=
    h.invariant (fun _ h => h) fun w s hw hs => ⟨hw.1.step hs.fresh, hw.2.step hw.1 hs⟩
  exact hall.2

/-! ## Two migrations

Masters 1, 2 and 3 have a slot each, under epochs 1, 2 and 3. Key `a` is in the slot of
node 1. -/

def bare_store : Store := { clock := fun _ => 0 }

def full_store : Store := bare_store.set (lit "a") (lit "v") false

def shards_table (i : NodeId) : Table where
  myself := i
  known := [1, 2, 3].insert i
  node := fun n => { master := true, config_epoch := min n 3, link := some { connecting := false } }
  own := ((Ownership.vacant.assign {15495} (some 1)).assign {1} (some 2)).assign {2} (some 3)
  migrating_to := fun _ => none
  importing_from := fun _ => none

def shards : World where
  node := fun i => { process (shards_table i) 3 with store := if i = 1 then full_store else bare_store }
  lead := id
  own := fun _ _ => []
  back := fun _ _ => []

/-- The 40 digits of a small id. -/
def hex_id (n : NodeId) : Bytes := List.replicate 39 48 ++ to_string n

def setslot (i : NodeId) (slot : Bytes) (action : String) (n : NodeId) : Action :=
  .inner i (.command (at_time 1) [lit "CLUSTER", lit "SETSLOT", slot, lit action, hex_id n] [])

/-- The two SETSLOTs that a migration begins with. -/
def opening (source target : NodeId) (slot : Bytes) : List Action :=
  [setslot target slot "IMPORTING" source, setslot source slot "MIGRATING" target]

/-- A complete migration; `moves` are the MIGRATE batches. -/
def migration (source target : NodeId) (slot : Bytes) (moves : List Action) : List Action :=
  opening source target slot ++ moves ++
    [setslot target slot "NODE" target, setslot source slot "NODE" target]

/-- A MIGRATE: its keys, its options, and how much of the exchange gets through. -/
structure Batch where
  /-- The source's surroundings, with what `exchange` answers. -/
  env : Commands.Env
  /-- The target's. -/
  tenv : Commands.Env := {}
  host : Bytes := []
  port : Int := 1
  timeout : Int := 1
  options : MigrateOptions := {}
  keys : List Key
  /-- How many of the commands reach the target. -/
  reached : Nat

/-- What the target is left with. -/
def Batch.received (b : Batch) (s t : Store) : Store :=
  (Migration.serve b.tenv (Migration.sent_to b.options b.keys s b.reached) t).2

/-- What the source is left with. -/
def Batch.left (b : Batch) (s : Store) : Store :=
  (migrate_keys b.env b.host b.port b.timeout b.options b.keys s).2

/-- A MIGRATE from `i` to `j`: RESTORE-ASKING there, and then the deletion here. -/
def batch (w : World) (i j : NodeId) (b : Batch) : List Action :=
  [.inner j (.data (b.received (w.node i).store (w.node j).store)),
    .inner i (.data (b.left (w.node i).store))]

/-- MIGRATE of key `a`, which the target confirms. -/
def batch_a : Batch where
  env := Migration.answering [lit "+OK"]
  keys := [lit "a"]
  reached := 1

/-- The key goes from node 1 to node 2. -/
def first_migration : List Action :=
  migration 1 2 (lit "15495") (batch ((opening 1 2 (lit "15495")).foldl step shards) 1 2 batch_a)

/-- Node 2 tells node 1 that it has the slot now. -/
def told : List Action := first_migration ++ [sleep 2 1, .deliver 2 1 (at_time 1) [] none]

section Steps

variable {k : Key} {v : Bytes} {w : World} {i : NodeId}

theorem gentle_inner {e : Cluster.Event} (hi : i ≠ 0) (hr : e.is_restart = false)
    (hdata : e.is_data = false) (hm : e.message = none) (he : ∀ env ∈ e.envs, ∃ t, env = at_time t) :
    w.Gentle k v (.inner i e) where
  fresh := fresh_inner hi he
  alive p hp := by
    rw [eq_of_event_inner hp]
    exact hr
  foreign p hp := by
    rw [eq_of_event_inner hp, hm]
    exact fun m hm => absurd hm (Option.not_mem_none m)
  data j store hp := by
    cases eq_of_event_inner hp
    cases hdata
  lenient p hp _ := by
    rw [eq_of_event_inner hp]
    exact ⟨by simp [hm], by simp [hm]⟩

theorem gentle_data {store : Store} (hi : i ≠ 0)
    (h : (w.node i).Holds k v → store.value k = some v ∨ ∃ j, j ≠ i ∧ (w.node j).Holds k v) :
    w.Gentle k v (.inner i (.data store)) where
  fresh := fresh_inner hi nofun
  alive p hp := by
    rw [eq_of_event_inner hp]
    rfl
  foreign p hp := by
    rw [eq_of_event_inner hp]
    exact fun m hm => absurd hm (Option.not_mem_none m)
  data j s hp := by
    cases eq_of_event_inner hp
    exact h
  lenient p hp _ := by
    rw [eq_of_event_inner hp]
    have hnone : ∀ m, m ∉ Cluster.Event.message (.data store) := Option.not_mem_none
    exact ⟨fun m hm => absurd hm (hnone m), fun m hm => absurd hm (hnone m)⟩

theorem gentle_setslot (hi : i ≠ 0) (slot : Bytes) (action : String) (n : NodeId) :
    w.Gentle k v (setslot i slot action n) :=
  gentle_inner hi rfl rfl rfl (by simp [Cluster.Event.envs])

/-- What the condition asks of a MIGRATE with respect to a key: its source is a master that has
the key without a deadline or not at all, its target a master that does not evict, and the
replies are the target's. -/
structure Batch.Sane (b : Batch) (k : Key) (v : Bytes) (w : World) (i j : NodeId) : Prop where
  ne : i ≠ j
  ids : i ≠ 0 ∧ j ≠ 0
  source : (w.node i).me.master = true
  target : (w.node j).me.master = true
  here : (w.node i).store.view k = some (v, none) ∨ (w.node i).store.view k = none
  there : (w.node j).Holds k v → (w.node j).store.view k = some (v, none)
  unlimited : (w.node j).store.maxmemory = 0
  short : v.length < 2 ^ 64
  exchanged : Migration.Exchanged b.env b.host b.port b.timeout b.options b.keys (w.node i).store
    b.tenv b.reached (w.node j).store

theorem value_of_view {s : Store} {dl : Option Int} (h : s.view k = some (v, dl)) :
    s.value k = some v := by
  obtain ⟨x, hx, heq⟩ := Option.map_eq_some_iff.mp h
  rw [Store.value, hx]
  exact congrArg some (congrArg Prod.fst heq)

/-- **The two ends of a MIGRATE keep the key**, however much of the exchange is lost. -/
theorem meets_batch {j : NodeId} {b : Batch} (h : b.Sane k v w i j) :
    Meets step (Gentle k v) w (batch w i j b) := by
  have hevent : w.event (.inner j (.data (b.received (w.node i).store (w.node j).store))) =
      some (j, .data (b.received (w.node i).store (w.node j).store)) := rfl
  have hj := node_step_self hevent
  have hi := node_step_of_ne hevent h.ne
  refine ⟨gentle_data h.ids.2 fun hold => ?_, gentle_data h.ids.1 fun hold => ?_, trivial⟩
  · rcases h.here with hv | hnone
    · exact Or.inr ⟨i, h.ne, h.source, value_of_view hv⟩
    · -- the source does not have the key, and sends nothing for it
      have hsends : Migration.Sends b.options.replace k v
          ((migrate_request b.options.replace b.keys (w.node i).store).1.take b.reached) := by
        refine ⟨fun p hp => ?_⟩
        have hin := List.mem_of_mem_take hp
        obtain ⟨value, dl, pttl, hthere, hp'⟩ := Migration.value_of_sent hin
        refine ⟨pttl, value, hp', fun hk => ?_⟩
        rw [hk, hnone] at hthere
        cases hthere
      have hsettled : Migration.Settled k v (w.node j).store := ⟨h.there hold, h.unlimited⟩
      exact Or.inl (value_of_view (hsettled.serve h.short hsends).view)
  · rw [hi] at hold
    rcases h.here with hv | hnone
    · rcases Migration.key_at_one_end hv h.short h.unlimited h.exchanged with hkept | hmoved
      · exact Or.inl (value_of_view hkept)
      · refine Or.inr ⟨j, h.ne.symm, ?_⟩
        rw [hj]
        exact ⟨h.target, value_of_view hmoved.view⟩
    · have habsent := hold.2
      rw [Store.value, show (w.node i).store.tables.dict.lookup k = none from
        Option.map_eq_none_iff.mp hnone] at habsent
      cases habsent

/-- **A complete migration keeps the key** if its batches do. -/
theorem meets_migration {j : NodeId} {moves : List Action} (hi : i ≠ 0) (hj : j ≠ 0) (slot : Bytes)
    (h : Meets step (Gentle k v) ((opening i j slot).foldl step w) moves) :
    Meets step (Gentle k v) w (migration i j slot moves) := by
  rw [migration, meets_append, meets_append]
  refine ⟨⟨⟨gentle_setslot hj .., gentle_setslot hi .., trivial⟩, h⟩, ?_⟩
  exact ⟨gentle_setslot hj .., gentle_setslot hi .., trivial⟩

/-- A packet that nothing is lost by. -/
theorem gentle_deliver {a b : NodeId} {t : Time} {ip : Bytes} {ip' : Option Bytes} (hb : b ≠ 0)
    (hl : ∀ p ∈ w.event (.deliver a b (at_time t) ip ip'),
      (∀ m ∈ p.2.message, m.sender ≠ p.1) ∧ p.2.Lenient (w.node p.1)) :
    w.Gentle k v (.deliver a b (at_time t) ip ip') where
  fresh p hp := by
    obtain ⟨m, -, rfl⟩ := Option.map_eq_some_iff.mp hp
    rintro ⟨env, henv, ip, port, cport, h⟩
    rw [List.mem_singleton.mp henv] at h
    exact hb h
  alive p hp := by
    obtain ⟨m, -, rfl⟩ := Option.map_eq_some_iff.mp hp
    rfl
  foreign p hp := (hl p hp).1
  data i store hp := by
    obtain ⟨m, -, hm⟩ := Option.map_eq_some_iff.mp hp
    cases hm
  lenient p hp _ := (hl p hp).2

end Steps

theorem formed_shards : shards.Formed where
  sound := by
    refine sound_of_silent (fun i => ⟨?_, rfl⟩) (fun _ _ => rfl) fun _ _ => rfl
    have hrow : ∀ n, ((shards_table i).node n).Sound 3 n := fun n => ⟨min_le_right n 3, nofun⟩
    -- the keys say nothing about the nodes
    exact { sound_process hrow with }
  grounded i := by
    have hk : i ∈ (shards_table i).known := by simp [shards_table]
    exact ⟨⟨hk, rfl⟩, hk⟩

theorem sane_batch_a :
    batch_a.Sane (lit "a") (lit "v") ((opening 1 2 (lit "15495")).foldl step shards) 1 2 where
  ne := by decide
  ids := by decide
  source := by decide +kernel
  target := by decide +kernel
  here := Or.inl (by decide +kernel)
  there h := absurd h.2 (by decide +kernel)
  unlimited := by decide +kernel
  short := by decide
  exchanged := ⟨1, by decide +kernel⟩

theorem key_is_kept_told :
    ∃ i, ((told.foldl step shards).node i).me.master = true ∧
      ((told.foldl step shards).node i).store.value (lit "a") = some (lit "v") := by
  refine key_is_kept (Reach.run (.start ⟨formed_shards, 1, rfl, by decide⟩) ?_)
  rw [told, meets_append]
  refine ⟨meets_migration (by decide) (by decide) _ (meets_batch sane_batch_a), ?_, ?_, trivial⟩
  · exact gentle_inner (by decide) rfl rfl rfl (by simp [Cluster.Event.envs])
  · exact gentle_deliver (by decide) (by decide +kernel)

/-- The key has gone from node 1 to node 2, and a slot from node 3 to node 1, each by a
complete migration. Node 3 has heard of the epoch node 1 took for the second, but not yet
of the first: to node 2, which claims the slot of the key, it answers with an UPDATE that
gives the slot to node 1 under that epoch. -/
def relayed : List Action :=
  told ++ migration 3 1 (lit "2") [] ++ [sleep 1 1, .deliver 1 3 (at_time 1) [] none,
    .deliver 2 3 (at_time 1) [] none, .answer 2 3 (at_time 1)]

/-- Whose turn it is. -/
def actor : Action → Option NodeId
  | .inner i _ => some i
  | .deliver _ b _ _ _ => some b
  | .answer a _ _ => some a
  | .drop _ _ => none

theorem node_step_of_actor {w : World} {s : Action} {i : NodeId} (h : actor s ≠ some i) :
    (w.step s).node i = w.node i := by
  cases he : w.event s with
  | none => rw [node_step_of_none he]
  | some p =>
    refine node_step_of_ne he fun hi => h ?_
    cases s with
    | inner j e =>
      rw [eq_of_event_inner he] at hi
      rw [hi]
      rfl
    | deliver a b env ip ip' =>
      obtain ⟨m, -, hm⟩ := Option.map_eq_some_iff.mp he
      rw [hi, ← hm]
      rfl
    | answer a n env =>
      obtain ⟨m, -, hm⟩ := Option.map_eq_some_iff.mp he
      rw [hi, ← hm]
      rfl
    | drop => cases he

theorem node_run_of_actor {ss : List Action} {i : NodeId} (h : ∀ s ∈ ss, actor s ≠ some i) (w : World) :
    (ss.foldl step w).node i = w.node i := by
  induction ss generalizing w with
  | nil => rfl
  | cons s ss ih =>
    refine (ih (fun x hx => h x (List.mem_cons_of_mem _ hx)) _).trans ?_
    exact node_step_of_actor (h s (List.mem_cons_self ..))

/-- Node 2 takes it for a claim that beats its own, and deletes the only copy. -/
theorem only_copy_deleted :
    shards.Formed ∧ (shards.node 1).Holds (lit "a") (lit "v") ∧
      ((relayed.dropLast.foldl step shards).node 2).Holds (lit "a") (lit "v") ∧
      ∀ i, ((relayed.foldl step shards).node i).store.value (lit "a") = none := by
  refine ⟨formed_shards, ⟨rfl, by decide⟩, ?_, fun i => ?_⟩
  · unfold Cluster.Holds
    decide +kernel
  · by_cases hi : i ∈ [1, 2, 3]
    · have hall : ∀ i ∈ [1, 2, 3], ((relayed.foldl step shards).node i).store.value (lit "a") = none := by
        decide +kernel
      exact hall i hi
    · -- nobody else takes part
      have hactors : ∀ s ∈ relayed, ∀ j ∈ actor s, j ∈ [1, 2, 3] := by decide
      rw [node_run_of_actor fun s hs he => hi (hactors s hs i he)]
      have h1 : i ≠ 1 := fun e => hi (by simp [e])
      unfold shards
      dsimp only
      rw [if_neg h1]
      rfl

end World

end EpochKV

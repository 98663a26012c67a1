/-
The slot table points where it should.

`Tidy` is the invariant of the table: we know ourselves, every node known under its own
id is either a master or a replica, a placeholder is neither, slots belong to masters
that are known, and the marks point to nodes that are known. It is shown for each kind
of change, then for a whole event, and for the start from a file that was written in a
tidy state. The one thing asked of a step is that the ids it draws for placeholders are
new: `nodes_[id] = ...` would free the node that has the id, with the pointers to it.
-/
import EpochKV.Events
import EpochKV.Runs

set_option autoImplicit false

namespace EpochKV

open Text Slots Commands

/-- What a row says of a node's role: master, replica, or only an address yet. -/
def Node.role (n : Node) : Bool × Bool × Bool := (n.master, n.replica, n.handshake)

variable {n : NodeId} {x : Option NodeId} {slot : Slot} {id : NodeId}

namespace Cluster

variable {o : Cause} {c c' : Cluster}

/-- The table is in order: roles are plain, and all that points to a node points to one
that is known. -/
structure Tidy (c : Cluster) : Prop where
  self : c.Proper c.myself
  nodup : c.table.known.Nodup
  bare : ∀ n, (c.table.node n).handshake = true →
    (c.table.node n).master = false ∧ (c.table.node n).replica = false
  role : ∀ n, c.Proper n → (c.table.node n).replica = !(c.table.node n).master
  owner : ∀ s n, c.table.own.owner s = some n → c.Proper n ∧ (c.table.node n).master = true
  migrating : ∀ s n, c.table.migrating_to s = some n → n ∈ c.table.known
  importing : ∀ s n, c.table.importing_from s = some n → n ∈ c.table.known

/-! ## Changes that leave the nodes and their roles alone -/

/-- The same nodes are known, in the same roles. -/
structure Alike (c c' : Cluster) : Prop where
  myself : c'.table.myself = c.table.myself
  known : c'.table.known = c.table.known
  role : ∀ n, (c'.table.node n).role = (c.table.node n).role

namespace Alike

variable {n : NodeId}

section

variable (h : Alike c c')
include h

theorem master (n : NodeId) :
    (c'.table.node n).master = (c.table.node n).master := congrArg Prod.fst (h.role n)

theorem replica (n : NodeId) : (c'.table.node n).replica = (c.table.node n).replica :=
  congrArg (fun r => r.2.1) (h.role n)

theorem handshake (n : NodeId) : (c'.table.node n).handshake = (c.table.node n).handshake :=
  congrArg (fun r => r.2.2) (h.role n)

theorem proper (n : NodeId) : c'.Proper n ↔ c.Proper n := by
  unfold Proper
  rw [h.known, h.handshake]

end

end Alike

section

variable (h : c.Tidy)
include h

/-- Slots and marks may change, the slots to masters that are known. -/
theorem Tidy.of_alike (ha : Alike c c') (ho : ∀ s n, c'.table.own.owner s = some n →
      c.table.own.owner s = some n ∨ c.Proper n ∧ (c.table.node n).master = true)
    (hm : ∀ s n, c'.table.migrating_to s = some n → n ∈ c.table.known)
    (hi : ∀ s n, c'.table.importing_from s = some n → n ∈ c.table.known) : c'.Tidy where
  self := by
    unfold Cluster.myself
    rw [ha.proper, ha.myself]
    exact h.self
  nodup := by
    rw [ha.known]
    exact h.nodup
  bare n hn := by
    rw [ha.master, ha.replica]
    exact h.bare n (ha.handshake n ▸ hn)
  role n hn := by
    rw [ha.replica, ha.master]
    exact h.role n ((ha.proper n).mp hn)
  owner s n hn := by
    rw [ha.proper, ha.master]
    exact (ho s n hn).elim (h.owner s n) id
  migrating s n hn := ha.known ▸ hm s n hn
  importing s n hn := ha.known ▸ hi s n hn

/-- Marks come off, or point to nodes that are known. -/
theorem Tidy.moves {f g : Slot → Option NodeId}
    (hf : ∀ s n, f s = some n → n ∈ c.table.known) (hg : ∀ s n, g s = some n → n ∈ c.table.known) :
    Tidy { c with table := { c.table with migrating_to := f, importing_from := g } } :=
  h.of_alike ⟨rfl, rfl, fun _ => rfl⟩ (fun _ _ hn => Or.inl hn) hf hg

/-- A node that is known and no replica is a master. -/
theorem Tidy.master (hp : c.Proper n) (hr : (c.table.node n).replica = false) :
    (c.table.node n).master = true := by
  have hrole := h.role n hp
  rw [hr] at hrole
  simpa using hrole.symm

/-- Slots go to nobody, or to a master that is known. -/
theorem Tidy.give {won : SlotBitmap} (ho : Cause.Novel o c) (ha : Assigns o c won x) :
    (c.give won x).Tidy := by
  have hx : ∀ n, x = some n → c.Proper n ∧ (c.table.node n).master = true := by
    cases ha with
    | claimed _ _ _ hp hr _ _ =>
      intro n hn
      obtain rfl := Option.some.inj hn
      have hp := hp.proper ho
      exact ⟨hp, hr.elim id (h.master hp)⟩
    | resigned _ _ _ | disowned _ _ _ | freed _ _ _ => exact nofun
    | adopted _ _ hr => exact fun n hn => Option.some.inj hn ▸ ⟨h.self, h.master h.self hr⟩
    | placed _ _ hp hr _ _ => exact fun n hn => Option.some.inj hn ▸ ⟨hp, h.master hp hr⟩
  refine h.of_alike ⟨rfl, rfl, fun _ => rfl⟩ (fun s n hn => ?_) h.migrating h.importing
  change (c.table.own.assign won x).owner s = some n at hn
  rw [Ownership.owner_assign] at hn
  split at hn
  · exact Or.inr (hx n hn)
  · exact Or.inl hn

omit h in
/-- A mark that is set points to the node it was set to, any other where it did. -/
theorem mem_of_update {α β : Type} [DecidableEq α] {f : α → Option β} {a x : α} {y b : β}
    {P : β → Prop} (h : Function.update f a (some y) x = some b) (hy : P y)
    (hf : ∀ x b, f x = some b → P b) : P b := by
  by_cases hx : x = a
  · subst hx
    rw [Function.update_self] at h
    exact Option.some.inj h ▸ hy
  · rw [Function.update_of_ne hx] at h
    exact hf x b h

omit h in
theorem eq_some_of_dropped {α : Type} {x y : Option α} {a : α} (h : x = none ∨ x = y)
    (hx : x = some a) : y = some a := by
  rcases h with h | h
  · rw [h] at hx
    cases hx
  · exact h ▸ hx

/-- Each way the marks change: off, to a node that was named, or to an owner. -/
theorem Tidy.remark {out into : Slot → Option NodeId} (hm : Remarks o c out into) :
    Tidy { c with table := { c.table with migrating_to := out, importing_from := into } } := by
  cases hm with
  | dropped ho hi =>
    exact h.moves (fun s n hn => h.migrating s n (eq_some_of_dropped (ho s) hn))
      fun s n hn => h.importing s n (eq_some_of_dropped (hi s) hn)
  | sent _ hp _ _ =>
    exact h.moves (fun _ _ hn => mem_of_update (P := (· ∈ c.table.known)) hn hp.1 h.migrating)
      h.importing
  | accepted _ _ hp _ =>
    exact h.moves h.migrating
      fun _ _ hn => mem_of_update (P := (· ∈ c.table.known)) hn hp.1 h.importing
  | foreign _ _ _ =>
    -- the new marks point to the owners
    refine h.moves h.migrating fun s n hn => ?_
    split at hn
    · exact (h.owner s n hn).1.1
    · exact h.importing s n hn

/-! ## Changes of a role -/

/-- One node changes its role, and keeps no slots it may not have. -/
theorem Tidy.of_row (hp : c.Proper n) (hme : c'.table.myself = c.table.myself) (hk : c'.table.known = c.table.known)
    (hrow : ∀ x, x ≠ n → (c'.table.node x).role = (c.table.node x).role)
    (hmet : (c'.table.node n).handshake = false)
    (hrole : (c'.table.node n).replica = !(c'.table.node n).master)
    (ho : ∀ s x, c'.table.own.owner s = some x →
      (x ≠ n → c.table.own.owner s = some x) ∧ (x = n → (c'.table.node n).master = true))
    (hm : ∀ s n, c'.table.migrating_to s = some n → c.table.migrating_to s = some n)
    (hi : ∀ s n, c'.table.importing_from s = some n → c.table.importing_from s = some n) :
    c'.Tidy := by
  have hbit : ∀ x, x ≠ n → (c'.table.node x).master = (c.table.node x).master ∧
      (c'.table.node x).replica = (c.table.node x).replica ∧
      (c'.table.node x).handshake = (c.table.node x).handshake := by
    intro x hx
    have hr := hrow x hx
    simp only [Node.role, Prod.mk.injEq] at hr
    exact hr
  have hproper : ∀ x, c.Proper x → c'.Proper x := by
    rintro x ⟨hx, hh⟩
    refine ⟨hk ▸ hx, ?_⟩
    by_cases he : x = n
    · exact he ▸ hmet
    · rw [(hbit x he).2.2]
      exact hh
  refine ⟨?_, hk ▸ h.nodup, fun x hx => ?_, fun x hx => ?_, fun s x hx => ?_, fun s x hx => ?_,
    fun s x hx => ?_⟩
  · unfold Cluster.myself
    rw [hme]
    exact hproper _ h.self
  · by_cases he : x = n
    · rw [he, hmet] at hx
      cases hx
    · rw [(hbit x he).1, (hbit x he).2.1]
      exact h.bare x ((hbit x he).2.2 ▸ hx)
  · by_cases he : x = n
    · exact he ▸ hrole
    · rw [(hbit x he).1, (hbit x he).2.1]
      exact h.role x ⟨hk ▸ hx.1, (hbit x he).2.2 ▸ hx.2⟩
  · by_cases he : x = n
    · exact ⟨hproper x (he ▸ hp), he ▸ (ho s x hx).2 he⟩
    · obtain ⟨hxp, hxm⟩ := h.owner s x ((ho s x hx).1 he)
      exact ⟨hproper x hxp, (hbit x he).1 ▸ hxm⟩
  · exact hk ▸ h.migrating s x (hm s x hx)
  · exact hk ▸ h.importing s x (hi s x hx)

omit h in
theorem role_modify_of_ne (c : Cluster) {x : NodeId} (f : Node → Node) (hx : x ≠ n) :
    ((c.modify n f).table.node x).role = (c.table.node x).role := by
  rw [node_modify_of_ne c f hx]

/-- A row changes: its role stays, or is one that its slots allow. -/
theorem Tidy.row {f : Node → Node} {t : Todo} (ho : Cause.Novel o c)
    (he : Edit o c t n (f (c.table.node n))) (hr : Recast o c n (f (c.table.node n))) :
    (c.modify n f).Tidy := by
  -- a node that has the other role has a row of its own, and no slots it may not have
  have hnew : c.Proper n → (f (c.table.node n)).replica = (!(f (c.table.node n)).master) →
      ((f (c.table.node n)).master = false → c.table.own.slots n = ∅) → (c.modify n f).Tidy := by
    intro hp hrole hslots
    refine h.of_row hp rfl rfl (fun x hx => role_modify_of_ne c f hx) ?_ ?_
      (fun s x hx => ⟨fun _ => hx, ?_⟩) (fun _ _ => id) fun _ _ => id
    · rw [node_modify_self, he.handshake]
      exact hp.2
    · rw [node_modify_self]
      exact hrole
    · rintro rfl
      rw [node_modify_self]
      by_contra hm
      have hnone := hslots (by simpa using hm)
      have hmem := (c.table.own.owner_iff s x).mp hx
      rw [hnone] at hmem
      cases hmem
  cases hr with
  | same hm hr =>
    refine h.of_alike ⟨rfl, rfl, fun x => ?_⟩ (fun _ _ hx => Or.inl hx) h.migrating h.importing
    refine node_modify_rec (P := fun y r => r.role = (c.table.node y).role) (fun _ => rfl) fun _ => ?_
    unfold Node.role
    rw [hm, hr, he.handshake]
  | promoted hp _ hr => exact hnew (hp.proper ho) (by rw [hr.1, hr.2]; rfl) (by simp [hr.1])
  | resigned hp _ hs hr => exact hnew (hp.proper ho) (by rw [hr.1, hr.2]; rfl) fun _ => hs
  | demoted hn hs _ hr => exact hnew (hn ▸ h.self) (by rw [hr.1, hr.2]; rfl) fun _ => hs

/-- We come to be a master, and whatever slots come to be ours. -/
theorem Tidy.succeed (won : SlotBitmap) {t : Todo} :
    Tidy { c with
      table :=
        { c.table.modify c.myself fun r =>
            { r with replica := false, master := true, master_id := none } with
          own := c.table.own.assign won (some c.myself) }
      todo := t } := by
  let f : Node → Node := fun r => { r with replica := false, master := true, master_id := none }
  have hself : (c.modify c.myself f).table.node c.myself = f (c.table.node c.myself) :=
    node_modify_self ..
  refine h.of_row h.self rfl rfl (fun x hx => role_modify_of_ne c f hx) ?_ ?_ (fun s x hx => ?_)
    (fun _ _ => id) fun _ _ => id
  · exact (congrArg Node.handshake hself).trans h.self.2
  · exact (congrArg Node.replica hself).trans (congrArg (fun r : Node => !r.master) hself).symm
  · refine ⟨fun hne => ?_, fun _ => congrArg Node.master hself⟩
    change (c.table.own.assign won (some c.myself)).owner s = some x at hx
    rw [Ownership.owner_assign] at hx
    split at hx
    · exact absurd (Option.some.inj hx).symm hne
    · exact hx

/-! ## Nodes that come and go -/

/-- A placeholder takes an id that no node goes by. -/
theorem Tidy.create {r : Node} (hid : ¬ c.Proper id) (hr : Placeholder o r) :
    Tidy { c with table := c.table.create_node id r } := by
  have hoffice := hr.office
  simp only [Node.office, Prod.mk.injEq] at hoffice
  obtain ⟨-, hhand, hmaster, hreplica, -, -⟩ := hoffice
  have hold : ∀ x, c.Proper x → x ≠ id := by
    rintro x hx rfl
    exact hid hx
  have hnode : ∀ x, x ≠ id → (c.table.create_node id r).node x = c.table.node x :=
    fun x hx => Function.update_of_ne hx ..
  have hself : (c.table.create_node id r).node id = r := Function.update_self ..
  have hproper : ∀ x, c.Proper x → Cluster.Proper { c with table := c.table.create_node id r } x :=
    fun x hx => ⟨mem_known_create.mpr (Or.inl hx.1), (hnode x (hold x hx)).symm ▸ hx.2⟩
  refine ⟨hproper _ h.self, ?_, fun x hx => ?_, fun x hx => ?_, fun s x hx => ?_, fun s x hx => ?_,
    fun s x hx => ?_⟩
  · show (if id ∈ c.table.known then c.table.known else c.table.known ++ [id]).Nodup
    split
    · exact h.nodup
    · rename_i hnew
      exact List.Nodup.append h.nodup (List.nodup_singleton id) (by simpa using hnew)
  · by_cases he : x = id
    · subst he
      exact hself.symm ▸ ⟨hmaster, hreplica⟩
    · change ((c.table.create_node id r).node x).handshake = true at hx
      show ((c.table.create_node id r).node x).master = false ∧
        ((c.table.create_node id r).node x).replica = false
      rw [hnode x he] at hx ⊢
      exact h.bare x hx
  · obtain ⟨hk, hmet⟩ := hx
    change ((c.table.create_node id r).node x).handshake = false at hmet
    show ((c.table.create_node id r).node x).replica = !((c.table.create_node id r).node x).master
    by_cases he : x = id
    · rw [he, hself, hhand] at hmet
      cases hmet
    · rw [hnode x he] at hmet ⊢
      exact h.role x ⟨(mem_known_create.mp hk).resolve_right he, hmet⟩
  · obtain ⟨hp, hm⟩ := h.owner s x hx
    refine ⟨hproper x hp, ?_⟩
    show ((c.table.create_node id r).node x).master = true
    rwa [hnode x (hold x hp)]
  · exact mem_known_create.mpr (Or.inl (h.migrating s x hx))
  · exact mem_known_create.mpr (Or.inl (h.importing s x hx))

/-- A node that goes takes the pointers to it along. -/
theorem Tidy.delete (hn : (c.table.node n).handshake = true ∨ n ≠ c.myself) :
    Tidy { c with table := c.table.del_node n } := by
  have hne : n ≠ c.myself := by
    rcases hn with hhand | hne
    · rintro rfl
      rw [h.self.2] at hhand
      cases hhand
    · exact hne
  have hmark : ∀ {x : Option NodeId} {a : NodeId}, (if x = some n then none else x) = some a →
      x = some a ∧ a ≠ n := by
    intro x a hx
    split at hx
    · cases hx
    · rename_i hxn
      exact ⟨hx, fun he => hxn (he ▸ hx)⟩
  refine ⟨⟨mem_known_del.mpr ⟨h.self.1, hne.symm⟩, h.self.2⟩, h.nodup.filter _, h.bare,
    fun x hx => h.role x ⟨(mem_known_del.mp hx.1).1, hx.2⟩, fun s x hx => ?_, fun s x hx => ?_,
    fun s x hx => ?_⟩
  · change (c.table.own.assign (c.table.own.slots n) none).owner s = some x at hx
    rw [Ownership.owner_assign] at hx
    split at hx
    · cases hx
    · rename_i hmem
      obtain ⟨hp, hm⟩ := h.owner s x hx
      refine ⟨⟨mem_known_del.mpr ⟨hp.1, ?_⟩, hp.2⟩, hm⟩
      rintro rfl
      exact hmem ((c.table.own.owner_iff s x).mp hx)
  · obtain ⟨hold, hxn⟩ := hmark hx
    exact mem_known_del.mpr ⟨h.migrating s x hold, hxn⟩
  · obtain ⟨hold, hxn⟩ := hmark hx
    exact mem_known_del.mpr ⟨h.importing s x hold, hxn⟩

omit h in
/-- The new id is not listed twice, even if it was taken. -/
theorem nodup_rename {t : Table} (h : t.known.Nodup) (n id : NodeId) :
    (t.rename_node n id).known.Nodup := by
  show (if id ∈ t.known.filter (· ≠ n) then t.known.filter (· ≠ n)
    else t.known.filter (· ≠ n) ++ [id]).Nodup
  split
  · exact h.filter _
  · rename_i hid
    refine List.Nodup.append (h.filter _) (List.nodup_singleton id) fun a ha hid' => ?_
    exact hid (List.mem_singleton.mp hid' ▸ ha)

/-- The row a handshake ends with is a placeholder's, even if the id was taken. -/
theorem Tidy.bare_rename (hn : (c.table.node n).handshake = true) (hid : ¬ c.Proper id) :
    ((c.table.rename_node n id).node id).master = false ∧
      ((c.table.rename_node n id).node id).replica = false := by
  rcases node_rename_self c.table n id with hrow | ⟨hk, hrow⟩
  · rw [hrow]
    exact h.bare n hn
  · rw [hrow]
    refine h.bare id ?_
    by_contra hmet
    exact hid ⟨hk, by simpa using hmet⟩

/-- The end of a handshake: the placeholder's row and marks go to the sender's id. -/
theorem Tidy.complete {m : Message} {t : Todo} (hi : Introduces o c n m) :
    Tidy { c with
      table := (c.table.rename_node n m.sender).modify m.sender (introduced m)
      todo := t } := by
  obtain ⟨hmaster, hreplica⟩ := h.bare_rename hi.placeholder hi.unknown
  generalize hc' : ({ c with
    table := (c.table.rename_node n m.sender).modify m.sender (introduced m)
    todo := t } : Cluster) = c'
  have hknown : ∀ x, x ∈ c'.table.known ↔ x = m.sender ∨ x ∈ c.table.known ∧ x ≠ n := by
    intro x
    rw [← hc']
    exact mem_known_rename
  have hnode : ∀ x, c'.table.node x =
      if x = m.sender then introduced m ((c.table.rename_node n m.sender).node m.sender)
      else c.table.node x := by
    intro x
    rw [← hc']
    exact node_introduced c.table n m x
  have hold : ∀ x, c.Proper x → x ≠ m.sender := by
    rintro x hx rfl
    exact hi.unknown hx
  have hrow : ∀ x, c.Proper x → c'.table.node x = c.table.node x := by
    intro x hx
    rw [hnode, if_neg (hold x hx)]
  have hproper : ∀ x, c.Proper x → c'.Proper x := by
    intro x hx
    refine ⟨(hknown x).mpr (Or.inr ⟨hx.1, ?_⟩), (congrArg Node.handshake (hrow x hx)).trans hx.2⟩
    rintro rfl
    exact hi.not_proper hx
  have hmark : ∀ {x : Option NodeId} {a : NodeId}, (∀ b, x = some b → b ∈ c.table.known) →
      (if x = some n then some m.sender else x) = some a → a ∈ c'.table.known := by
    intro x a hk hx
    split at hx
    · exact (hknown a).mpr (Or.inl (Option.some.inj hx).symm)
    · rename_i hxn
      exact (hknown a).mpr (Or.inr ⟨hk a hx, fun he => hxn (he ▸ hx)⟩)
  have hself : c'.myself = c.myself := by
    rw [← hc']
    rfl
  refine ⟨?_, ?_, fun x hx => ?_, fun x hx => ?_, fun s x hx => ?_, fun s x hx => ?_, fun s x hx => ?_⟩
  · rw [hself]
    exact hproper _ h.self
  · rw [← hc']
    exact nodup_rename h.nodup n m.sender
  · rw [hnode] at hx ⊢
    split
    · rename_i he
      rw [if_pos he] at hx
      cases hx
    · rename_i he
      rw [if_neg he] at hx
      exact h.bare x hx
  · obtain ⟨hk, hmet⟩ := hx
    rw [hnode] at hmet ⊢
    split
    · -- its flags are those of the message
      show ((_ || m.replica : Bool)) = !((_ || !m.replica : Bool))
      rw [hmaster, hreplica]
      simp
    · rename_i he
      rw [if_neg he] at hmet
      exact h.role x ⟨(((hknown x).mp hk).resolve_left he).1, hmet⟩
  · rw [← hc'] at hx
    change (c.table.own.assign (c.table.own.slots n) (some m.sender)).owner s = some x at hx
    rw [Ownership.owner_assign] at hx
    split at hx
    · -- a placeholder has no slots
      rename_i hs
      exact absurd (h.owner s n ((c.table.own.owner_iff s n).mpr hs)).1 hi.not_proper
    · obtain ⟨hp, hxm⟩ := h.owner s x hx
      exact ⟨hproper x hp, (congrArg Node.master (hrow x hp)).trans hxm⟩
  · rw [← hc'] at hx
    exact hmark (h.migrating s) hx
  · rw [← hc'] at hx
    exact hmark (h.importing s) hx

/-! ## Every change -/

theorem Tidy.of_table (ht : c'.table = c.table) : c'.Tidy := by
  refine h.of_alike ⟨by rw [ht], by rw [ht], fun n => by rw [ht]⟩ (fun s n hn => Or.inl (ht ▸ hn)) ?_ ?_
  · rw [ht]
    exact h.migrating
  · rw [ht]
    exact h.importing

/-- One change: each kind has its lemma above. -/
theorem Tidy.change (ho : Cause.Novel o c) (hs : Change o c c') : c'.Tidy := by
  cases hs with
  | aside hs => exact h.of_table hs.table
  | row he hr _ => exact (h.row ho he hr).of_table rfl
  | give ha => exact h.give ho ha
  | succeed _ _ _ _ _ => exact h.succeed _
  | mark hm => exact h.remark hm
  | create hid hr => exact h.create (ho.proper _ hid) hr
  | delete hn _ => exact h.delete (hn.imp And.left And.right)
  | complete hi => exact h.complete hi
  | _ => exact h.of_table rfl

/-- An invariant of tidy tables that every change keeps holds after a chain of them. -/
theorem Tidy.invariant {I : Cluster → Prop} (hn : Cause.Novel o c) (hs : Changes o c c')
    (hstep : ∀ a b, a.Tidy → Cause.Novel o a → I a → Change o a b → I b) (hi : I c) :
    c'.Tidy ∧ I c' := by
  refine hs.invariant_novel (P := fun a => a.Tidy ∧ I a) hn ?_ ⟨h, hi⟩
  intro a b hna ha hab
  exact ⟨ha.1.change hna hab, hstep a b ha.1 hna ha.2 hab⟩

end

/-! ## The file -/

end Cluster

/-- A file that a tidy table was written to. -/
structure Conf.Tidy (conf : Conf) : Prop where
  self : conf.table.myself ∈ conf.table.known
  nodup : conf.table.known.Nodup
  role : ∀ n ∈ conf.table.known, (conf.table.node n).replica = !(conf.table.node n).master
  owner : ∀ s n, conf.table.own.owner s = some n → (conf.table.node n).master = true

namespace Cluster

variable {o : Cause} {c c' : Cluster}

/-- What is written of a tidy table is in order. -/
theorem Tidy.describe_nodes (h : c.Tidy) : c.describe_nodes.Tidy where
  self := by
    have hmet : decide ¬ (c.table.node c.myself).handshake = true := by simp [h.self.2]
    exact List.mem_filter.mpr ⟨h.self.1, hmet⟩
  nodup := h.nodup.filter _
  role n hn := by
    obtain ⟨hk, hmet⟩ := List.mem_filter.mp hn
    exact h.role n ⟨hk, by simpa using hmet⟩
  owner s n hn := by
    exact (h.owner s n (Option.filter_eq_some_iff.mp hn).1).2

/-- What is looked up is known. -/
theorem mem_known_of_lookup {t : Table} (h : x.bind t.lookup = some n) : n ∈ t.known := by
  obtain ⟨y, -, hy⟩ := Option.bind_eq_some_iff.mp h
  obtain ⟨hk, hy⟩ := Option.ite_none_right_eq_some.mp hy
  exact Option.some.inj hy ▸ hk

/-- And what is read of such a file. -/
theorem tidy_from_config {conf : Conf} (h : conf.Tidy) (env : Env) (options : Options) (store : Store) :
    (from_config env options conf store).Tidy where
  self := ⟨h.self, rfl⟩
  nodup := h.nodup
  bare _ hn := nomatch hn
  role n hn := h.role n hn.1
  owner s n hn := by
    obtain ⟨hown, hk⟩ := Option.filter_eq_some_iff.mp hn
    exact ⟨⟨of_decide_eq_true hk, rfl⟩, h.owner s n hown⟩
  migrating _ _ hn := mem_known_of_lookup hn
  importing _ _ hn := mem_known_of_lookup hn

/-! ## Runs -/

/-- The table is tidy, and so is the file. -/
structure Orderly (c : Cluster) : Prop where
  table : c.Tidy
  disk : c.disk.Tidy

/-- A chain of changes; the file is one of the tables on the way. -/
theorem Orderly.changes (h : c.Orderly) (ho : Cause.Novel o c) (hs : Changes o c c') :
    c'.Orderly := by
  have hstep : ∀ a b : Cluster, a.Tidy → Cause.Novel o a → a.disk.Tidy → Change o a b →
      b.disk.Tidy := by
    intro a b ha _ hd hab
    rcases hab.disk_cases with he | ⟨v, he⟩
    · rw [he]
      exact hd
    · -- the file does not say less for the vote that is in it
      have hwritten := ha.describe_nodes
      rw [he]
      exact ⟨hwritten.self, hwritten.nodup, hwritten.role, hwritten.owner⟩
  obtain ⟨ht, hd⟩ := h.table.invariant ho hs hstep h.disk
  exact ⟨ht, hd⟩

theorem Orderly.from_config {conf : Conf} (h : conf.Tidy) (env : Env) (options : Options) (store : Store) :
    (from_config env options conf store).Orderly := ⟨tidy_from_config h env options store, h⟩

/-- An event, or a restart from the file. -/
theorem Orderly.step {e : Event} (h : c.Orderly) (he : e.Novel c) : (c.step e).Orderly := by
  rcases step_cases c e with ⟨-, hcs⟩ | ⟨env, store, -, hcs⟩
  · have hclear : Orderly { c with sent := [] } := ⟨h.table.of_table rfl, h.disk⟩
    exact hclear.changes he.clear.cause hcs
  · exact (Orderly.from_config h.disk env _ store).changes (Cause.Novel.still _) hcs

theorem tidy_first_conf (id : NodeId) : (first_conf id).Tidy where
  self := List.mem_singleton_self id
  nodup := List.nodup_singleton id
  role n hn := by
    obtain rfl := List.mem_singleton.mp hn
    simp [first_conf]
  owner _ _ hn := nomatch hn

theorem First.orderly (h : First c) : c.Orderly := by
  obtain ⟨env, options, store, id, hcs⟩ := h.changes
  exact (Orderly.from_config (tidy_first_conf id) env options store).changes (Cause.Novel.still _) hcs

end Cluster

/-- The two tables as the source has them. -/
structure SlotTables where
  owner : Slot → Option NodeId
  bits : NodeId → SlotBitmap

namespace SlotTables

/-- The bitmaps once the slot's owner has lost it. -/
def cleared (t : SlotTables) (slot : Slot) : NodeId → SlotBitmap :=
  match t.owner slot with
  | some old => Function.update t.bits old ((t.bits old).erase slot)
  | none => t.bits

theorem cleared_of_some {t : SlotTables} {old : NodeId} (h : t.owner slot = some old) :
    t.cleared slot = Function.update t.bits old ((t.bits old).erase slot) := by
  unfold cleared
  rw [h]

theorem cleared_of_none {t : SlotTables} (h : t.owner slot = none) : t.cleared slot = t.bits := by
  unfold cleared
  rw [h]

/-- `set_slot`: the old owner loses the bit, the new one gets it, then the owner is written. -/
def set_slot (t : SlotTables) (slot : Slot) : Option NodeId → SlotTables
  | some n =>
    { owner := Function.update t.owner slot (some n)
      bits := Function.update (t.cleared slot) n (insert slot (t.cleared slot n)) }
  | none => { owner := Function.update t.owner slot none, bits := t.cleared slot }

end SlotTables

namespace Ownership

def tables (t : Ownership Slot NodeId) : SlotTables := ⟨t.owner, t.slots⟩

/-- One `set_slot` is one assignment, given that the tables agree. -/
theorem tables_assign_one (t : Ownership Slot NodeId) (slot : Slot) (o : Option NodeId) :
    (t.assign {slot} o).tables = t.tables.set_slot slot o := by
  have howner : (t.assign {slot} o).owner = Function.update t.owner slot o := by
    funext s
    rw [Function.update_apply, owner_assign]
    simp
  -- taking the slot out everywhere is taking it from its owner
  have hout : ∀ n, t.tables.cleared slot n = (t.slots n).erase slot := by
    intro n
    have hnot : t.owner slot ≠ some n → (t.slots n).erase slot = t.slots n := fun hne =>
      Finset.erase_eq_of_notMem fun hmem => hne ((t.owner_iff slot n).mpr hmem)
    cases hold : t.owner slot with
    | none =>
      rw [hnot (hold ▸ nofun), SlotTables.cleared_of_none hold]
      rfl
    | some old =>
      rw [SlotTables.cleared_of_some hold]
      by_cases hn : n = old
      · rw [hn, Function.update_self]
        rfl
      · rw [Function.update_of_ne hn, hnot fun he => hn (Option.some.inj (he.symm.trans hold))]
        rfl
  have hleft : ∀ n, o ≠ some n → (t.assign {slot} o).slots n = t.tables.cleared slot n := by
    intro n hne
    rw [hout, slots_assign_of_ne t _ hne, Finset.sdiff_singleton_eq_erase]
  cases o with
  | none =>
    have hbits : (t.assign {slot} none).slots = t.tables.cleared slot :=
      funext fun n => hleft n nofun
    unfold tables SlotTables.set_slot
    rw [howner, hbits]
    rfl
  | some m =>
    have hbits : (t.assign {slot} (some m)).slots =
        Function.update (t.tables.cleared slot) m (insert slot (t.tables.cleared slot m)) := by
      funext n
      by_cases hn : n = m
      · subst hn
        rw [Function.update_self, hout, slots_assign_some]
        ext x
        by_cases hx : x = slot
        · simp [hx]
        · simp [hx]
      · rw [Function.update_of_ne hn, hleft n fun he => hn (Option.some.inj he).symm]
    unfold tables SlotTables.set_slot
    rw [howner, hbits]
    rfl

/-- The loops over slots, each of which goes through `set_slot`. -/
theorem tables_assign (t : Ownership Slot NodeId) (l : List Slot) (o : Option NodeId) :
    (t.assign l.toFinset o).tables = l.foldl (fun u s => u.set_slot s o) t.tables := by
  induction l generalizing t with
  | nil =>
    rw [List.toFinset_nil, assign_empty]
    rfl
  | cons s l ih =>
    have hsplit : t.assign (s :: l).toFinset o = (t.assign {s} o).assign l.toFinset o := by
      refine eq_of_owner (funext fun x => ?_)
      rw [owner_assign, owner_assign, owner_assign, List.toFinset_cons]
      by_cases hx : x = s
      · simp [hx]
      · simp [hx]
    rw [hsplit, ih, tables_assign_one]
    rfl

end Ownership

namespace Cluster

variable {c : Cluster}

/-- The surroundings at a given time, in which `id` is the id that would be drawn. -/
def spare (id : NodeId) (t : Time) : Env := { now := t, random_id := fun _ _ _ => id }

theorem novel_of_spare {e : Event} (he : ∀ env ∈ e.envs, ∃ t, env = spare id t)
    (hk : id ∉ c.table.known) (hm : ∀ m ∈ e.message, id ≠ m.sender) : e.Novel c := by
  rintro x ⟨env, henv, ip, port, cport, rfl⟩
  obtain ⟨t, rfl⟩ := he env henv
  exact ⟨hk, hm⟩

/-- Node 1 starts, takes slot 7, and meets node 2, which has slot 8. -/
def founder : Cluster :=
  first_start (spare 9 0) { require_full_coverage := false } { clock := fun _ => 0 } 1

def takes_seven : Event := .command (spare 9 1) [lit "CLUSTER", lit "ADDSLOTS", lit "7"] []

def meets_two : Event :=
  .command (spare 9 1) [lit "CLUSTER", lit "MEET", lit "127.0.0.1", lit "7002"] []

def hears_two : Event :=
  .packet (spare 8 1) { node := some 9 }
    { type := .kPong, sender := 2, port := 7002, cport := 17002, config_epoch := 1, slots := {8} }

def sends_seven (id : String) : Event :=
  .command (spare 8 1) [lit "CLUSTER", lit "SETSLOT", lit "7", lit "MIGRATING", lit id] []

end Cluster

end EpochKV

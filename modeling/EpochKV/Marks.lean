/-
Slots on their way in or out.

A slot is marked MIGRATING on the node that gives it up and IMPORTING on the one that
takes it, and `route` answers ASK by these marks. `Marks` says what they should mean: a
slot on its way out is ours and goes to another node, one on its way in is not ours, and
a replica has no marks. The rules for it speak of the functions alone; a change uses
one or two of them.

Two commands break it. DELSLOTS gives up a slot and leaves its MIGRATING mark, and
SETSLOT MIGRATING takes our own id for the target. A third way is a message of our own
that comes back to us: it may say that we are a replica when we are none any more, and
the marks stay when we believe it.
-/
import EpochKV.Roster

set_option autoImplicit false

namespace EpochKV

open Text Slots Commands

/-- What the marks of slots on their way out and in should mean, for a node that is `me`. -/
structure Marks (me : NodeId) (owner out into : Slot → Option NodeId) (replica : Bool) : Prop where
  mine : ∀ s n, out s = some n → owner s = some me ∧ n ≠ me
  theirs : ∀ s, into s ≠ none → owner s ≠ some me
  idle : replica = true → ∀ s, out s = none ∧ into s = none

variable {n : NodeId}

namespace Marks

variable {me : NodeId} {owner out into : Slot → Option NodeId} {replica : Bool}

section

variable (h : Marks me owner out into replica)
include h

/-- Slots go to others, or to nobody, with no mark on those we had. -/
theorem give {won : SlotBitmap} {x : Option NodeId}
    (hx : x ≠ some me) (hm : ∀ s ∈ won, out s = none) :
    Marks me (fun s => if s ∈ won then x else owner s) out into replica where
  mine s n hn := by
    have hs : s ∉ won := by
      intro hs
      rw [hm s hs] at hn
      cases hn
    rw [if_neg hs]
    exact h.mine s n hn
  theirs s hs := by
    split
    · exact hx
    · exact h.theirs s hs
  idle := h.idle

/-- Slots come to us, none of them still on its way. -/
theorem take {won : SlotBitmap} (hi : ∀ s ∈ won, into s = none) :
    Marks me (fun s => if s ∈ won then some me else owner s) out into replica where
  mine s n hn := by
    split
    · exact ⟨rfl, (h.mine s n hn).2⟩
    · exact h.mine s n hn
  theirs s hs := by
    rw [if_neg fun hmem => hs (hi s hmem)]
    exact h.theirs s hs
  idle := h.idle

/-- Marks come off, or point to a node that has changed its name. -/
theorem drop {out' into' : Slot → Option NodeId}
    (ho : ∀ s n, out' s = some n → out s ≠ none ∧ n ≠ me)
    (hi : ∀ s, into' s ≠ none → into s ≠ none) :
    Marks me owner out' into' replica where
  mine s n hn := by
    obtain ⟨hold, hne⟩ := ho s n hn
    obtain ⟨m, hm⟩ := Option.ne_none_iff_exists'.mp hold
    exact ⟨(h.mine s m hm).1, hne⟩
  theirs s hs := h.theirs s (hi s hs)
  idle hr s := by
    obtain ⟨hout, hinto⟩ := h.idle hr s
    refine ⟨?_, ?_⟩
    · by_contra hne
      obtain ⟨n, hn⟩ := Option.ne_none_iff_exists'.mp hne
      exact (ho s n hn).1 hout
    · by_contra hne
      exact hi s hne hinto

theorem mark_out {slot : Slot} (hs : owner slot = some me) (hn : n ≠ me) (hr : replica = false) :
    Marks me owner (Function.update out slot (some n)) into replica where
  mine s m hm := by
    by_cases he : s = slot
    · subst he
      rw [Function.update_self] at hm
      exact ⟨hs, Option.some.inj hm ▸ hn⟩
    · rw [Function.update_of_ne he] at hm
      exact h.mine s m hm
  theirs := h.theirs
  idle hrep := by
    rw [hr] at hrep
    cases hrep

theorem mark_in {into' : Slot → Option NodeId}
    (hs : ∀ s, into' s ≠ none → into s ≠ none ∨ owner s ≠ some me) (hr : replica = false) :
    Marks me owner out into' replica where
  mine := h.mine
  theirs s hne := (hs s hne).elim (h.theirs s) id
  idle hrep := by
    rw [hr] at hrep
    cases hrep

theorem role {replica' : Bool}
    (hr : replica' = true → replica = true) : Marks me owner out into replica' :=
  ⟨h.mine, h.theirs, fun hrep => h.idle (hr hrep)⟩

/-- Owners are forgotten, but not us. -/
theorem restrict {p : NodeId → Bool} (hp : p me = true) :
    Marks me (fun s => (owner s).filter p) out into replica where
  mine s n hn := ⟨Option.filter_eq_some_iff.mpr ⟨(h.mine s n hn).1, hp⟩, (h.mine s n hn).2⟩
  theirs s hs hown := h.theirs s hs (Option.filter_eq_some_iff.mp hown).1
  idle := h.idle

end

theorem clear (me : NodeId) (owner : Slot → Option NodeId) (replica : Bool) :
    Marks me owner (fun _ => none) (fun _ => none) replica :=
  ⟨fun _ _ hn => (nomatch hn), fun _ hs => absurd rfl hs, fun _ _ => ⟨rfl, rfl⟩⟩

end Marks

variable {s : Slot}

namespace Cluster

variable {o : Cause} {c c' : Cluster}

def MarksHold (c : Cluster) : Prop :=
  Marks c.myself c.table.own.owner c.table.migrating_to c.table.importing_from c.me.replica

/-! ## Changes -/

/-- A row of ours, if it is not ours that changed. -/
theorem me_modify_of_ne (c : Cluster) (f : Node → Node) (h : n ≠ c.myself) :
    (c.modify n f).me = c.me := node_modify_of_ne c f h.symm

/-- What is asked of an event: no message of our own, and no SETSLOT MIGRATING to ourselves.
The slots that are freed are not sent away at the same time. -/
structure Cautious (o : Cause) (me : NodeId) : Prop where
  sender : ∀ m, o.msg = some m → m.sender ≠ me
  target : ¬ o.sends me
  either : ∀ s n, o.frees s → ¬ o.sends n

section

variable (h : c.MarksHold)
include h

/-- A slot that is another's has no mark of ours. -/
theorem MarksHold.unmarked (hs : c.table.own.owner s ≠ some c.myself) :
    c.table.migrating_to s = none := by
  by_contra hne
  obtain ⟨n, hn⟩ := Option.ne_none_iff_exists'.mp hne
  exact hs (h.mine s n hn).1

theorem MarksHold.still (hn : c.table.migrating_to s = some n) :
    c.table.migrating_to s ≠ none ∧ n ≠ c.myself := by
  refine ⟨fun hnone => ?_, (h.mine s n hn).2⟩
  rw [hnone] at hn
  cases hn

theorem MarksHold.of_table (ht : c'.table = c.table) : c'.MarksHold := by
  unfold MarksHold Cluster.me Cluster.myself
  rw [ht]
  exact h

/-- A row changes; if it is ours, we do not turn replica with marks on. -/
theorem MarksHold.row {f : Node → Node} (hc : Cautious o c.myself)
    (hr : Recast o c n (f (c.table.node n))) : (c.modify n f).MarksHold := by
  by_cases hn : n = c.myself
  · subst hn
    have hme : (c.modify c.myself f).me = f c.me := node_modify_self ..
    have hmarks : (f c.me).replica = true →
        ∀ s, c.table.migrating_to s = none ∧ c.table.importing_from s = none := by
      intro hrep
      cases hr with
      | same _ hrole => exact h.idle (hrole.symm.trans hrep)
      | promoted _ _ hrole =>
        rw [show (f c.me).replica = false from hrole.2] at hrep
        cases hrep
      | resigned _ hsent _ _ =>
        obtain ⟨m, hm, he⟩ := hsent
        exact absurd he.symm (hc.sender m hm)
      | demoted _ _ hm _ => exact hm
    refine ⟨h.mine, h.theirs, fun hrep => hmarks ?_⟩
    rwa [hme] at hrep
  · refine Marks.role h fun hrep => ?_
    rwa [me_modify_of_ne c f hn] at hrep

/-- Slots change hands. Those that leave us have no mark, by the code or by what is asked. -/
theorem MarksHold.give {won : SlotBitmap} {x : Option NodeId} (hc : Cautious o c.myself)
    (hf : ∀ s, o.frees s → c.table.migrating_to s = none) (ha : Assigns o c won x) :
    (c.give won x).MarksHold := by
  have hothers : ∀ {n}, n ≠ c.myself → ∀ s ∈ c.table.own.slots n, c.table.migrating_to s = none := by
    intro n hne s hs
    refine h.unmarked fun hown => hne ?_
    exact Option.some.inj (((c.table.own.owner_iff s n).mpr hs).symm.trans hown)
  have hmarked : ∀ s, (c.table.own.owner s = some c.myself → c.table.migrating_to s = none) →
      c.table.migrating_to s = none := by
    intro s hs
    by_cases hown : c.table.own.owner s = some c.myself
    · exact hs hown
    · exact h.unmarked hown
  cases ha with
  | claimed _ _ hn _ _ _ hm =>
    exact Marks.give h (fun he => hn (Option.some.inj he)) fun s hs => hmarked s (hm s hs)
  | resigned hm _ _ => exact Marks.give h nofun (hothers (hc.sender _ hm))
  | disowned _ _ hm => exact Marks.give h nofun fun s _ => hm s
  | freed _ _ hw => exact Marks.give h nofun fun s hs => hf s (hw s hs)
  | adopted _ hw _ => exact Marks.take h fun s hs => (hw s hs).2
  | @placed slot n _ _ _ _ hin hout =>
    by_cases hn : n = c.myself
    · subst hn
      refine Marks.take h fun s hs => ?_
      rw [Finset.mem_singleton.mp hs]
      exact hin rfl
    · refine Marks.give h (fun he => hn (Option.some.inj he)) fun s hs => ?_
      rw [Finset.mem_singleton.mp hs]
      exact hmarked slot (hout hn)

theorem MarksHold.remark {out into : Slot → Option NodeId} (hc : Cautious o c.myself)
    (hm : Remarks o c out into) :
    MarksHold { c with table := { c.table with migrating_to := out, importing_from := into } } := by
  cases hm with
  | dropped ho hi =>
    refine Marks.drop h (fun s n hn => h.still (eq_some_of_dropped (ho s) hn)) fun s hs => ?_
    rcases hi s with hnone | heq
    · exact absurd hnone hs
    · rwa [← heq]
  | sent hs _ hn hr => exact Marks.mark_out h hs (fun he => hc.target (he ▸ hn)) hr
  | @accepted slot n _ hs _ hr =>
    refine Marks.mark_in h (fun s hne => ?_) hr
    by_cases he : s = slot
    · exact Or.inr (he ▸ hs)
    · change Function.update c.table.importing_from slot (some n) s ≠ none at hne
      rw [Function.update_of_ne he] at hne
      exact Or.inl hne
  | @foreign slots _ hw hr =>
    refine Marks.mark_in h (fun s hne => ?_) hr
    by_cases he : s ∈ slots
    · exact Or.inr (hw s he)
    · refine Or.inl fun hnone => hne ?_
      exact (if_neg he).trans hnone

theorem MarksHold.delete (hne : n ≠ c.myself) :
    MarksHold { c with table := c.table.del_node n } := by
  have hdrop : Marks c.myself c.table.own.owner (c.table.del_node n).migrating_to
      (c.table.del_node n).importing_from c.me.replica := by
    refine Marks.drop h (fun s x hx => ?_) fun s hx hnone => hx ?_
    · change (if c.table.migrating_to s = some n then none else c.table.migrating_to s) = some x at hx
      split at hx
      · cases hx
      · exact h.still hx
    · show (if _ then _ else _) = _
      split
      · rfl
      · exact hnone
  refine Marks.give hdrop nofun fun s hs => ?_
  have hold : c.table.migrating_to s = none := by
    refine h.unmarked fun hown => hne ?_
    exact Option.some.inj (((c.table.own.owner_iff s n).mpr hs).symm.trans hown)
  show (if _ then _ else _) = _
  split
  · rfl
  · exact hold

/-- The marks that point to a placeholder point to the node once it is known. -/
theorem MarksHold.complete {m : Message} {t : Todo} (ht : c.Tidy) (hi : Introduces o c n m) :
    MarksHold { c with
      table := (c.table.rename_node n m.sender).modify m.sender (introduced m)
      todo := t } := by
  have hne : m.sender ≠ c.myself := by
    intro he
    exact hi.unknown (he ▸ ht.self)
  have hdrop : Marks c.myself c.table.own.owner (c.table.rename_node n m.sender).migrating_to
      (c.table.rename_node n m.sender).importing_from c.me.replica := by
    refine Marks.drop h (fun s x hx => ?_) fun s hx hnone => hx ?_
    · have hx : (if c.table.migrating_to s = some n then some m.sender else c.table.migrating_to s) =
          some x := hx
      split at hx
      · rename_i hold
        exact ⟨(h.still hold).1, Option.some.inj hx ▸ hne⟩
      · exact h.still hx
    · show (if c.table.importing_from s = some n then _ else _) = _
      rw [if_neg (hnone ▸ nofun), hnone]
  have hgive : Marks c.myself (fun s => if s ∈ c.table.own.slots n then some m.sender
      else c.table.own.owner s) (c.table.rename_node n m.sender).migrating_to
      (c.table.rename_node n m.sender).importing_from c.me.replica := by
    refine Marks.give hdrop (fun he => hne (Option.some.inj he)) fun s hs => ?_
    -- a placeholder has no slots
    exact absurd (ht.owner s n ((c.table.own.owner_iff s n).mpr hs)).1 hi.not_proper
  refine Marks.role hgive fun hrep => ?_
  have hme := node_introduced c.table n m c.myself
  rw [if_neg hne.symm] at hme
  exact (congrArg Node.replica hme).symm.trans hrep

theorem MarksHold.change (ht : c.Tidy) (ho : Cause.Novel o c) (hc : Cautious o c.myself)
    (hf : ∀ s, o.frees s → c.table.migrating_to s = none) (hs : Change o c c') : c'.MarksHold := by
  have hother : ∀ {n}, ¬ c.Proper n → n ≠ c.myself := by
    rintro n hn rfl
    exact hn ht.self
  cases hs with
  | aside hs => exact h.of_table hs.table
  | row _ hr _ => exact (h.row hc hr).of_table rfl
  | give ha => exact h.give hc hf ha
  | @succeed old _ _ _ hm _ _ =>
    -- a replica has no marks
    have hrep : c.me.replica = true := by
      have hrole := ht.role _ ht.self
      rw [show (c.table.node c.myself).master = false from hm] at hrole
      exact hrole
    exact Marks.role (Marks.take h fun s _ => (h.idle hrep s).2) fun _ => hrep
  | mark hm => exact h.remark hc hm
  | create hid _ =>
    rename_i id r _
    have hme : (c.table.create_node id r).me = c.me :=
      Function.update_of_ne (hother (ho.proper _ hid)).symm ..
    exact Marks.role h fun hr => (congrArg Node.replica hme).symm.trans hr
  | delete hn _ =>
    refine h.delete ?_
    rcases hn with hhand | hne
    · refine hother fun hp => ?_
      rw [hp.2] at hhand
      cases hhand.1
    · exact hne.2
  | complete hi => exact h.complete ht hi
  | _ => exact h.of_table rfl

end

/-- Only SETSLOT MIGRATING sets the mark. -/
theorem Change.migrating_none (hs : Change o c c') (hn : ∀ n, ¬ o.sends n)
    (h : c.table.migrating_to s = none) : c'.table.migrating_to s = none := by
  cases hs with
  | aside hs => rwa [hs.table]
  | mark hm =>
    cases hm with
    | dropped ho _ => exact (ho s).elim id fun he => he.trans h
    | sent _ _ hsend _ => exact absurd hsend (hn _)
    | accepted _ _ _ _ | foreign _ _ _ => exact h
  | delete _ _ =>
    show (if _ then _ else _) = _
    split
    · rfl
    · exact h
  | complete _ =>
    rename_i n m _
    show (if c.table.migrating_to s = some n then _ else _) = _
    rw [if_neg (h ▸ nofun), h]
  | _ => exact h

/-! ## Runs -/

end Cluster

def Conf.MarksHold (conf : Conf) : Prop :=
  Marks conf.table.myself conf.table.own.owner conf.table.migrating_to conf.table.importing_from
    (conf.table.node conf.table.myself).replica

namespace Cluster

variable {o : Cause} {c c' : Cluster}

theorem MarksHold.describe_nodes (h : c.MarksHold) (ht : c.Tidy) : c.describe_nodes.MarksHold := by
  refine Marks.restrict h ?_
  exact decide_eq_true ⟨ht.self.1, by simp [ht.self.2]⟩

theorem marked_from_config {conf : Conf} (h : conf.MarksHold) (ht : conf.Tidy) (env : Env)
    (options : Options) (store : Store) : (from_config env options conf store).MarksHold := by
  have hlisted : ∀ {x : Option NodeId} {n : NodeId}, x.bind conf.table.lookup = some n → x = some n := by
    intro x n hx
    obtain ⟨y, rfl, hy⟩ := Option.bind_eq_some_iff.mp hx
    unfold Table.lookup at hy
    split at hy
    · exact hy
    · cases hy
  have hdrop : Marks conf.table.myself conf.table.own.owner (parse_config env conf).migrating_to
      (parse_config env conf).importing_from (conf.table.node conf.table.myself).replica := by
    refine Marks.drop h (fun s n hn => ?_) fun s hs hnone => hs ?_
    · have hn := hlisted hn
      exact ⟨hn ▸ nofun, (h.mine s n hn).2⟩
    · exact (congrArg (fun x => Option.bind x conf.table.lookup) hnone)
  exact Marks.restrict hdrop (decide_eq_true ht.self)

/-- Table and file are tidy, and the marks in both mean what they should. -/
structure WellMarked (c : Cluster) : Prop where
  orderly : c.Orderly
  marks : c.MarksHold
  disk : c.disk.MarksHold

theorem WellMarked.changes (h : c.WellMarked) (ho : Cause.Novel o c) (hc : Cautious o c.myself)
    (hf : ∀ s, o.frees s → c.table.migrating_to s = none) (hs : Changes o c c') : c'.WellMarked := by
  have hstep : ∀ a b : Cluster, a.Tidy → Cause.Novel o a →
      (a.myself = c.myself ∧ a.MarksHold ∧ a.disk.MarksHold ∧
        ∀ s, o.frees s → a.table.migrating_to s = none) → Change o a b →
      b.myself = c.myself ∧ b.MarksHold ∧ b.disk.MarksHold ∧
        ∀ s, o.frees s → b.table.migrating_to s = none := by
    rintro a b ha hn ⟨hid, hm, hd, hfree⟩ hab
    refine ⟨hab.myself.trans hid, hm.change ha hn (hid ▸ hc) hfree hab, ?_, fun s hs => ?_⟩
    · rcases hab.disk_cases with he | ⟨v, he⟩
      · rw [he]
        exact hd
      · rw [he]
        exact hm.describe_nodes ha
    · exact hab.migrating_none (fun n => hc.either s n hs) (hfree s hs)
  obtain ⟨-, -, hm, hd, -⟩ := h.orderly.table.invariant ho hs hstep ⟨rfl, h.marks, h.disk, hf⟩
  exact ⟨h.orderly.changes ho hs, hm, hd⟩

/-- What is asked of an event: new ids for placeholders, no message of our own, no DELSLOTS
of a slot that is on its way out, and no SETSLOT MIGRATING to ourselves. -/
structure Careful (c : Cluster) (e : Event) : Prop where
  draws : e.Novel c
  sender : ∀ m ∈ e.message, m.sender ≠ c.myself
  frees : ∀ s, e.frees s → c.table.migrating_to s = none
  sends : ¬ e.sends c.myself

theorem Careful.cautious {e : Event} (h : Careful c e) :
    Cautious (e.cause { c with sent := [] }) c.myself where
  sender m hm := h.sender m hm
  target := h.sends
  either s n hf hs := by
    cases e with
    | command env argv error =>
      obtain ⟨range, slots, hsub, -⟩ := hf
      rw [hs.1] at hsub
      cases hsub
    | _ => exact hf.elim

theorem cautious_still (me : NodeId) : Cautious Cause.still me :=
  ⟨fun _ h => (nomatch h), fun h => h.elim, fun _ _ h => h.elim⟩

theorem WellMarked.from_config {conf : Conf} (h : conf.MarksHold) (ht : conf.Tidy) (env : Env)
    (options : Options) (store : Store) : (from_config env options conf store).WellMarked :=
  ⟨Orderly.from_config ht env options store, marked_from_config h ht env options store, h⟩

theorem WellMarked.step {e : Event} (h : c.WellMarked) (he : Careful c e) : (c.step e).WellMarked := by
  rcases step_cases c e with ⟨-, hcs⟩ | ⟨env, store, -, hcs⟩
  · have hclear : WellMarked { c with sent := [] } :=
      ⟨⟨h.orderly.table.of_table rfl, h.orderly.disk⟩, h.marks, h.disk⟩
    exact hclear.changes he.draws.clear.cause he.cautious he.frees hcs
  · exact (WellMarked.from_config h.disk h.orderly.disk env _ store).changes (Cause.Novel.still _)
      (cautious_still _) (fun _ hf => hf.elim) hcs

def address (c : Cluster) (n : NodeId) : Bytes :=
  (c.table.node n).ip ++ lit ":" ++ to_string (c.table.node n).port

end Cluster

end EpochKV

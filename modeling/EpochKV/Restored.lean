/-
A node that starts again finds what it left (`nodes.conf`).

`NodesConf` has the round trip of the text for a cluster whose file says all that it
should. Here it is shown that every cluster a process reaches is one: owners and marks
point to nodes that are met, so none of them is lost with the handshakes, which the file
leaves out; ids, masters and ports are ones that the reader takes.

The marks need an invariant of their own. `Tidy` says that they point to nodes that are
known, and a handshake is known; but a mark is only ever set to a node that was met, and a
node that was met stays so until it is deleted, with every mark that points to it.
-/
import EpochKV.Marks
import EpochKV.NodesConf

set_option autoImplicit false

namespace EpochKV

open Commands Wire

namespace Cluster

variable {o : Cause} {c c' : Cluster}

/-! ## Marks point to nodes that are met -/

/-- The marks point to nodes known under their own ids. -/
structure Aimed (c : Cluster) : Prop where
  migrating : ∀ s n, c.table.migrating_to s = some n → c.Proper n
  importing : ∀ s n, c.table.importing_from s = some n → c.Proper n

/-- Where the marks point after a change was met before it. -/
theorem Aimed.target (h : c.Aimed) (ht : c.Tidy) (hs : Change o c c') :
    (∀ s n, c'.table.migrating_to s = some n → c.Proper n) ∧
      ∀ s n, c'.table.importing_from s = some n → c.Proper n := by
  cases hs with
  | aside hs =>
    rw [hs.table]
    exact ⟨h.migrating, h.importing⟩
  | mark hm =>
    cases hm with
    | dropped ho hi =>
      exact ⟨fun s n hn => h.migrating s n (eq_some_of_dropped (ho s) hn),
        fun s n hn => h.importing s n (eq_some_of_dropped (hi s) hn)⟩
    | sent _ hp _ _ =>
      exact ⟨fun s x hx => mem_of_update (P := c.Proper) hx hp h.migrating, h.importing⟩
    | accepted _ _ hp _ =>
      exact ⟨h.migrating, fun s x hx => mem_of_update (P := c.Proper) hx hp h.importing⟩
    | foreign _ _ _ =>
      refine ⟨h.migrating, fun s x hx => ?_⟩
      change (if _ then _ else _) = _ at hx
      split at hx
      · exact (ht.owner s x hx).1
      · exact h.importing s x hx
  | @delete n hn _ =>
    have hmark : ∀ {x : Option NodeId} {a : NodeId}, (∀ b, x = some b → c.Proper b) →
        (if x = some n then none else x) = some a → c.Proper a := by
      intro x a hx ha
      split at ha
      · cases ha
      · exact hx a ha
    exact ⟨fun s x hx => hmark (h.migrating s) hx, fun s x hx => hmark (h.importing s) hx⟩
  | @complete n m hi =>
    -- no mark points to the placeholder, so none follows it
    have hmark : ∀ {x : Option NodeId} {a : NodeId}, (∀ b, x = some b → c.Proper b) →
        (if x = some n then some m.sender else x) = some a → c.Proper a := by
      intro x a hx ha
      split at ha
      · rename_i heq
        exact absurd (hx n heq) hi.not_proper
      · exact hx a ha
    exact ⟨fun s x hx => hmark (h.migrating s) hx, fun s x hx => hmark (h.importing s) hx⟩
  | _ => exact ⟨h.migrating, h.importing⟩

theorem Aimed.change (h : c.Aimed) (ht : c.Tidy) (ho : Cause.Novel o c) (hs : Change o c c') :
    c'.Aimed := by
  obtain ⟨hm, hi⟩ := h.target ht hs
  have ht' := ht.change ho hs
  -- a node that was met stays so as long as it is known
  have hstay : ∀ n, c.Proper n → n ∈ c'.table.known → c'.Proper n := by
    intro n hp hk
    exact ⟨hk, hs.met (fun hd => ho.proper n hd hp) hp.2⟩
  constructor
  · intro s n hn
    exact hstay n (hm s n hn) (ht'.migrating s n hn)
  · intro s n hn
    exact hstay n (hi s n hn) (ht'.importing s n hn)

theorem Aimed.changes (h : c.Aimed) (ht : c.Tidy) (ho : Cause.Novel o c) (hs : Changes o c c') :
    c'.Aimed :=
  (ht.invariant ho hs (fun _ _ ha hn hi hab => hi.change ha hn hab) h).2

/-- In a table that comes from a file there are no handshakes. -/
theorem aimed_from_config {conf : Conf} (h : conf.Tidy) (env : Env) (options : Options) (store : Store) :
    (from_config env options conf store).Aimed := by
  have ht := tidy_from_config h env options store
  exact ⟨fun s n hn => ⟨ht.migrating s n hn, rfl⟩, fun s n hn => ⟨ht.importing s n hn, rfl⟩⟩

/-! ## Runs -/

/-- The table is tidy, its marks point to nodes that are met, and all of it can be
written. -/
structure Restorable (c : Cluster) : Prop where
  orderly : c.Orderly
  aimed : c.Aimed
  legible : c.Legible

/-- An event of the outside: what it brings was read from the bus, and the ids it draws are
new. -/
structure Usual (c : Cluster) (e : Event) : Prop where
  draws : e.Novel c
  heard : e.Heard

theorem Restorable.step {e : Event} (h : c.Restorable) (he : Usual c e) : (c.step e).Restorable := by
  refine ⟨h.orderly.step he.draws, ?_, h.legible.step he.heard⟩
  rcases step_cases c e with ⟨-, hcs⟩ | ⟨env, store, -, hcs⟩
  · have hclear : Aimed { c with sent := [] } := ⟨h.aimed.migrating, h.aimed.importing⟩
    exact hclear.changes (h.orderly.table.of_table rfl) he.draws.clear.cause hcs
  · exact (aimed_from_config h.orderly.disk env _ store).changes
      (tidy_from_config h.orderly.disk env _ store) (Cause.Novel.still _) hcs

theorem Addressable.restorable (h : c.Addressable) : c.Restorable := by
  have hl := h.legible
  obtain ⟨env, options, store, id, -, -, -, rfl⟩ := h
  have hfirst : First (first_start env options store id) := ⟨env, options, store, id, rfl⟩
  refine ⟨hfirst.orderly, ?_, hl⟩
  let blank : Cluster := from_config env options (first_conf id) store
  exact (aimed_from_config (tidy_first_conf id) env options store).changes
    (tidy_from_config (tidy_first_conf id) env options store) (Cause.Novel.still _)
    (changes_restart rfl env blank store)

theorem restorable_of_reach (h : Reach Cluster.step Usual Addressable c) : c.Restorable :=
  h.invariant (fun _ hc => hc.restorable) fun _ _ hc he => hc.step he

/-! ## The file of a node -/

/-- The epochs are ones of the source's 64-bit fields. -/
structure EpochsFit (c : Cluster) : Prop where
  config : ∀ n, c.Proper n → (c.table.node n).config_epoch < 2 ^ 64
  current : c.current_epoch < 2 ^ 64
  last_vote : c.last_vote_epoch < 2 ^ 64

theorem Restorable.storable (h : c.Restorable)
    (hip : ∀ n, c.Proper n → NodesConf.Dotted (c.table.node n).ip) (hf : c.EpochsFit) :
    NodesConf.Storable c where
  self := h.orderly.table.self
  nodup := h.orderly.table.nodup
  line n hn := by
    have hr := h.legible.table.row n
    exact ⟨h.legible.table.known n hn.1, hip n hn, hr.width, hr.master, hf.config n hn, hn.2⟩
  migrating := h.aimed.migrating
  importing := h.aimed.importing
  current_epoch := hf.current
  last_vote_epoch := hf.last_vote

/-- The content of a file is what the cluster had when it was written. -/
structure Restores (c : Cluster) (conf : Conf) : Prop where
  nodes : ∀ n, n ∈ conf.table.known ↔ n ∈ c.table.known ∧ (c.table.node n).handshake = false
  nodup : conf.table.known.Nodup
  myself : conf.table.myself = c.table.myself
  /-- Address, role, health, master and epoch. -/
  row : ∀ n ∈ conf.table.known, (conf.table.node n).persisted = (c.table.node n).persisted
  owner : ∀ s, conf.table.own.owner s = c.table.own.owner s
  migrating : ∀ s, conf.table.migrating_to s = c.table.migrating_to s
  importing : ∀ s, conf.table.importing_from s = c.table.importing_from s
  current_epoch : conf.current_epoch = c.current_epoch
  last_vote_epoch : conf.last_vote_epoch = c.last_vote_epoch

theorem Restorable.restores (h : c.Restorable) (env : Env) :
    c.Restores ⟨NodesConf.read_table env c, c.current_epoch, c.last_vote_epoch⟩ where
  nodes _ := NodesConf.mem_sorted
  nodup := NodesConf.nodup_sorted h.orderly.table.nodup
  myself := rfl
  row n hn := by
    have hrow : (NodesConf.read_table env c).node n = load_node env (c.table.node n) := if_pos hn
    rw [hrow]
    rfl
  owner s := by
    show (c.table.own.owner s).filter _ = c.table.own.owner s
    cases ho : c.table.own.owner s with
    | none => rfl
    | some n =>
      have hp := (h.orderly.table.owner s n ho).1
      simp [Option.filter, NodesConf.mem_sorted, hp]
  migrating _ := rfl
  importing _ := rfl
  current_epoch := rfl
  last_vote_epoch := rfl

/-- A restart from the text is a restart from the content: `Cluster.restart` may read the
one for the other. -/
theorem text_gives_table (h : Reach Cluster.step Usual Addressable c)
    (hip : ∀ n, c.Proper n → NodesConf.Dotted (c.table.node n).ip) (hf : c.EpochsFit) (env : Env)
    (unix_ms : Time → Int) :
    ∃ conf, NodesConf.parse_config env (NodesConf.describe_nodes unix_ms c) = .ok conf ∧
      NodesConf.Same conf.table (parse_config env c.describe_nodes) ∧
      conf.current_epoch = c.describe_nodes.current_epoch ∧
      conf.last_vote_epoch = c.describe_nodes.last_vote_epoch := by
  have hs := (restorable_of_reach h).storable hip hf
  exact ⟨_, NodesConf.parse_describe env unix_ms hs, NodesConf.same_read_table env hs, rfl, rfl⟩

/-- **What a node writes to `nodes.conf` it reads back.** In every state a process reaches,
with the addresses of its nodes dotted or empty, a fresh process takes the text without an
error and has the same nodes, apart from handshakes, with the same addresses, roles, flags,
masters and epochs, the same owner of every slot, the same slots on their way, and the same
two epochs of its own. -/
theorem nodes_conf_round_trip (h : Reach Cluster.step Usual Addressable c)
    (hip : ∀ n, c.Proper n → NodesConf.Dotted (c.table.node n).ip) (hf : c.EpochsFit) (env : Env)
    (unix_ms : Time → Int) :
    ∃ conf, NodesConf.parse_config env (NodesConf.describe_nodes unix_ms c) = .ok conf ∧
      c.Restores conf := by
  have hr := restorable_of_reach h
  exact ⟨_, NodesConf.parse_describe env unix_ms (hr.storable hip hf), hr.restores env⟩

/-! ## A slot on its way -/

def leaving : Cluster :=
  (((first_host.step takes_seven).step meets_two).step hears_two).step
    (sends_seven "0000000000000000000000000000000000000002")

theorem usual_of_spare {e : Event} (id : NodeId) (hid : IsId id)
    (he : ∀ env ∈ e.envs, ∃ t, env = spare id t) (hk : id ∉ c.table.known)
    (hm : ∀ msg ∈ e.message, id ≠ msg.sender ∧ Wire.Legible msg ∧ Sized msg) : Usual c e where
  draws := novel_of_spare he hk fun msg hmsg => (hm msg hmsg).1
  heard := by
    apply heard_of_spare id hid
    · intro env henv
      obtain ⟨t, rfl⟩ := he env henv
      exact ⟨t, [], rfl⟩
    · exact fun msg hmsg => (hm msg hmsg).2

theorem reach_leaving : Reach Cluster.step Usual Addressable leaving := by
  have hfirst : first_host.Addressable :=
    ⟨_, _, _, 1, by decide, by decide, by decide, rfl⟩
  have hseven : Usual first_host takes_seven :=
    usual_of_spare 9 (by decide) (fun _ h => ⟨1, List.mem_singleton.1 h⟩) (by decide +kernel) nofun
  have hmeet : Usual (first_host.step takes_seven) meets_two :=
    usual_of_spare 9 (by decide) (fun _ h => ⟨1, List.mem_singleton.1 h⟩) (by decide +kernel) nofun
  have hhear : Usual ((first_host.step takes_seven).step meets_two) hears_two := by
    refine usual_of_spare 8 (by decide) (fun _ h => ⟨1, List.mem_singleton.1 h⟩) (by decide +kernel)
      fun msg hmsg => ?_
    obtain rfl := Option.some.inj hmsg
    refine ⟨by decide, legible_bare rfl (by decide) rfl (by decide) (by decide), ?_⟩
    exact ⟨by decide, by decide, by decide, by decide, by decide +kernel⟩
  have hsend : Usual (((first_host.step takes_seven).step meets_two).step hears_two)
      (sends_seven "0000000000000000000000000000000000000002") :=
    usual_of_spare 8 (by decide) (fun _ h => ⟨1, List.mem_singleton.1 h⟩) (by decide +kernel) nofun
  exact ((((Reach.start hfirst).next _ hseven).next _ hmeet).next _ hhear).next _ hsend

/-- The mark and the two owners are in the file of a node that gives a slot away. -/
theorem nodes_conf_round_trip_leaving :
    leaving.table.known = [1, 2] ∧ leaving.table.migrating_to 7 = some 2 ∧
      ∃ conf, NodesConf.parse_config (spare 9 5) (NodesConf.describe_nodes (fun t => t) leaving)
          = .ok conf ∧ leaving.Restores conf := by
  have hknown : leaving.table.known = [1, 2] := by decide +kernel
  have hrows : ∀ n ∈ [1, 2], ((leaving.table.node n).ip.splitOn 46).length = 4 ∧
      (∀ part ∈ (leaving.table.node n).ip.splitOn 46, octet part = true) ∧
      (leaving.table.node n).config_epoch < 2 ^ 64 := by
    decide +kernel
  have hfits : leaving.EpochsFit := by
    refine ⟨fun n hn => ?_, by decide +kernel, by decide +kernel⟩
    exact (hrows n (hknown ▸ hn.1)).2.2
  refine ⟨hknown, by decide +kernel, nodes_conf_round_trip reach_leaving (fun n hn => ?_) hfits _ _⟩
  obtain ⟨hlen, hparts, -⟩ := hrows n (hknown ▸ hn.1)
  exact Or.inr ⟨hlen, hparts⟩

end Cluster

end EpochKV

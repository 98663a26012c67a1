/-
A packet is a chain of changes.

The lemmas follow the source: the small steps, the bus, and the parts of `process_packet`.
They are stated backwards (`Changes o c c' → Changes o c (c'.f …)`), so that a proof reads a
definition from the outside in. On its way through a packet the proof carries what is known of
the sender (`Heard`, `Stranger`), since that decides which epoch its claim is compared with and
under whose name its gossip is filed.

What a handler does in one order a chain may do in another, where the result is the same.
The marks of slots come off before the slots change hands, and keys in slots that are lost
are deleted before that: then every state in between is one the invariants allow.
-/
import EpochKV.Changes

set_option autoImplicit false

namespace EpochKV

open Text Slots Commands

variable {o : Cause} {msg : Message} {c : Cluster} {c' c'' : Cluster} {sender : Option NodeId}
  {n m : NodeId} {env : Env} {f : Node → Node} {e : Nat}

namespace Cluster

/-! ## What the small steps leave alone -/

theorem reset_manual_failover_rest (c : Cluster) :
    c.reset_manual_failover =
      { c with manual := c.reset_manual_failover.manual, store := c.reset_manual_failover.store } := by
  unfold reset_manual_failover
  split <;> rfl

theorem store_reset_manual_failover (c : Cluster) :
    c.reset_manual_failover.store.tables = c.store.tables := by
  unfold reset_manual_failover
  split <;> rfl

/-- A node that gives up its slots has none. -/
theorem slots_set_slots_self (c : Cluster) (n : NodeId) :
    (c.set_slots (c.table.own.slots n) none).table.own.slots n = ∅ := by
  unfold set_slots
  split
  · assumption
  · exact Finset.sdiff_self _

/-- Marks and owners are different fields. -/
theorem set_slots_moves (c : Cluster) (won : SlotBitmap) (x : Option NodeId)
    (out into : Slot → Option NodeId) :
    set_slots { c with table := { c.table with migrating_to := out, importing_from := into } } won x =
      { c.set_slots won x with
        table := { (c.set_slots won x).table with migrating_to := out, importing_from := into } } := by
  unfold set_slots
  split <;> rfl

/-- What a claim does, with the marks taken off first. -/
theorem take_claimed_eq (c : Cluster) (n : NodeId) (e : Nat) (slots : SlotBitmap) :
    ∃ t : Todo, (c.take_claimed n e slots) =
        { (c.drop_migrating (c.lost n e slots)).set_slots (c.claimed n e slots) (some n) with
          todo := t } ∧
      ((c.drop_migrating (c.lost n e slots)).set_slots (c.claimed n e slots) (some n)).todo.Kept t := by
  unfold take_claimed set_slots
  dsimp only
  split
  · split <;> exact ⟨_, rfl, id, id⟩
  · split <;> exact ⟨_, rfl, fun _ => rfl, id⟩

/-- Keys play no part in a claim. -/
theorem take_claimed_store (c : Cluster) (n : NodeId) (e : Nat) (slots : SlotBitmap) (s : Store) :
    take_claimed { c with store := s } n e slots = { c.take_claimed n e slots with store := s } := by
  have hw : claimed { c with store := s } n e slots = c.claimed n e slots := rfl
  have hl : lost { c with store := s } n e slots = c.lost n e slots := rfl
  unfold take_claimed set_slots
  rw [hw, hl]
  by_cases hwon : c.claimed n e slots = ∅
  · by_cases hlost : c.lost n e slots = ∅
    · simp only [if_pos hwon, if_pos hlost]
      rfl
    · simp only [if_pos hwon, if_neg hlost]
      rfl
  · by_cases hlost : c.lost n e slots = ∅
    · simp only [if_neg hwon, if_pos hlost]
      rfl
    · simp only [if_neg hwon, if_neg hlost]
      rfl

/-- The end of a handshake: a row under a new id, and the pointer of a manual failover. -/
theorem complete_handshake_eq (c : Cluster) (n : NodeId) (m : Message) :
    ∃ manual, c.complete_handshake n m =
      { c with
        table := (c.table.rename_node n m.sender).modify m.sender (introduced m)
        todo := { c.todo with save := true }
        manual := manual } := by
  unfold complete_handshake
  dsimp only
  split <;> exact ⟨_, rfl⟩

/-- The verdict, and when the minority side was last seen. -/
theorem update_state_eq (env : Env) (c : Cluster) :
    ∃ ok t, (ok = true → c.covered = true ∧ c.minority = false) ∧ c.update_state env =
      { c with
        state_ok := ok
        todo := { c.todo with update_state := false }
        among_minority_time := t } := by
  have hmin : ∃ t, note_minority env { c with todo := { c.todo with update_state := false } } =
      { c with todo := { c.todo with update_state := false }, among_minority_time := t } := by
    unfold note_minority
    split <;> exact ⟨_, rfl⟩
  obtain ⟨t, ht⟩ := hmin
  unfold update_state
  dsimp only
  rw [ht]
  split
  · rename_i hkeep
    refine ⟨c.state_ok, t, fun hok => ?_, rfl⟩
    rcases hkeep with heq | ⟨hdeserved, -⟩
    · have hdeserved : decide (c.covered = true ∧ ¬ c.minority = true) = true := heq.trans hok
      simpa using hdeserved
    · have hdeserved : decide (c.covered = true ∧ ¬ c.minority = true) = true := hdeserved
      simpa using hdeserved
  · refine ⟨_, t, fun hok => ?_, rfl⟩
    have hok : decide (c.covered = true ∧ ¬ c.minority = true) = true := hok
    simpa using hok

/-- The link to the master and the row of the table are different things. -/
theorem replicaof_no_one_set_node_as_master (c : Cluster) (n : NodeId) :
    (c.set_node_as_master n).replicaof_no_one = c.replicaof_no_one.set_node_as_master n := by
  unfold replicaof_no_one
  split
  · rename_i hnone
    exact (if_pos hnone).symm ▸ rfl
  · rename_i hnone
    exact (if_neg hnone).symm ▸ rfl

/-- A mark that comes off, and the others. -/
theorem update_none_or (f : Slot → Option NodeId) (slot s : Slot) :
    Function.update f slot none s = none ∨ Function.update f slot none s = f s := by
  by_cases hs : s = slot
  · exact Or.inl (hs ▸ Function.update_self ..)
  · exact Or.inr (Function.update_of_ne hs ..)

/-- A verdict makes nobody known or forgotten. -/
theorem known_mark_node_as_failing (env : Env) (c : Cluster) (n : NodeId) :
    (c.mark_node_as_failing_if_needed env n).table.known = c.table.known := by
  unfold mark_node_as_failing_if_needed
  refine iteInduction (motive := fun c' : Cluster => c'.table.known = c.table.known) (fun _ => rfl) ?_
  intro _
  exact iteInduction (motive := fun c' : Cluster => c'.table.known = c.table.known) (fun _ => rfl)
    fun _ => rfl

theorem known_detect_failure (env : Env) (c : Cluster) (n : NodeId) :
    (detect_failure env c n).table.known = c.table.known := by
  unfold detect_failure
  dsimp only
  split
  · rfl
  · split
    · exact known_mark_node_as_failing env _ n
    · rfl

/-! ## The small steps -/

namespace Changes

variable {o : Cause} {c c' : Cluster} {msg : Message}

theorem refl (c : Cluster) : Changes o c c := Relation.ReflTransGen.refl

section

variable (h : Changes o c c')
include h

theorem next (hs : Change o c' c'') : Changes o c c'' :=
  Relation.ReflTransGen.tail h hs

omit h in
theorem ite {a b : Cluster} {p : Prop} [Decidable p] (ha : Changes o c a) (hb : Changes o c b) :
    Changes o c (if p then a else b) := by
  by_cases h : p
  · rwa [if_pos h]
  · rwa [if_neg h]

omit h in
/-- A loop whose body is a chain of changes is one. -/
theorem foldl {α : Type} {f : Cluster → α → Cluster} (h : ∀ c a, Changes o c (f c a))
    (l : List α) (c : Cluster) : Changes o c (l.foldl f c) := by
  induction l generalizing c with
  | nil => exact refl c
  | cons a l ih => exact Relation.ReflTransGen.trans (h c a) (ih _)

theorem same (hs : Same c' c'') : Changes o c c'' :=
  h.next (.aside hs)

/-- An edit of a row, the todo list untouched. -/
theorem edit (hf : Edit o c' c'.todo n (f (c'.table.node n)))
    (hr : Recast o c' n (f (c'.table.node n))) : Changes o c (c'.modify n f) :=
  h.next (.row hf hr (.refl _))

/-- An edit of a row that is to be saved. -/
theorem edit_save (hf : Edit o c' { c'.todo with save := true } n (f (c'.table.node n)))
    (hr : Recast o c' n (f (c'.table.node n))) : Changes o c (c'.modify n f).todo_save :=
  h.next (.row (f := f) hf hr ⟨fun _ => rfl, id⟩)

/-- Address, link and clocks of a node. -/
theorem row (n : NodeId) (hf : ∀ r, (f r).profile = r.profile) : Changes o c (c'.modify n f) := by
  have hr := hf (c'.table.node n)
  simp only [Node.profile, Node.office, Prod.mk.injEq] at hr
  obtain ⟨⟨he, hh, hm, hr, hid, hf⟩, hhealth, hports⟩ := hr
  exact h.edit ⟨hh, Or.inl he, Or.inl ⟨hm, hr⟩, Or.inl hid, Or.inl (hf ▸ List.Sublist.refl _),
    Or.inl hhealth, Or.inl hports⟩ (.same hm hr)

/-- The health of a node, with the verdict due. -/
theorem health (n : NodeId) (hf : ∀ r, (f r).office = r.office ∧ (f r).port = r.port ∧
      (f r).cport = r.cport)
    (hh : ¬ ((f (c'.table.node n)).pfail = true ∧ (f (c'.table.node n)).fail = true))
    (hb : (f (c'.table.node n)).fail = true → (c'.table.node n).fail = true ∨ o.flags n) :
    Changes o c (c'.modify n f).todo_update_state := by
  obtain ⟨hr, hports⟩ := hf (c'.table.node n)
  simp only [Node.office, Prod.mk.injEq] at hr
  obtain ⟨he, hhand, hm, hr, hid, hf⟩ := hr
  exact h.next (.row (f := f) ⟨hhand, Or.inl he, Or.inl ⟨hm, hr⟩, Or.inl hid,
    Or.inl (hf ▸ List.Sublist.refl _), Or.inr ⟨rfl, hh, hb⟩, Or.inl hports⟩ (.same hm hr)
    ⟨id, fun _ => rfl⟩)

theorem todo {t : Todo} (ht : c'.todo.Kept t) : Changes o c { c' with todo := t } :=
  h.same ⟨rfl, rfl, rfl, rfl, rfl, rfl, rfl, rfl, rfl, ht⟩

theorem manual (m : ManualFailover) : Changes o c { c' with manual := m } :=
  h.same ⟨rfl, rfl, rfl, rfl, rfl, rfl, rfl, rfl, rfl, .refl _⟩

theorem todo_save : Changes o c c'.todo_save := h.todo ⟨fun _ => rfl, id⟩

theorem todo_update_state : Changes o c c'.todo_update_state := h.todo ⟨id, fun _ => rfl⟩

theorem todo_broadcast : Changes o c c'.todo_broadcast := h.todo ⟨id, id⟩

theorem todo_handle_failover : Changes o c c'.todo_handle_failover := h.todo ⟨id, id⟩

/-- Marks come off. -/
theorem unmark {out into : Slot → Option NodeId}
    (ho : ∀ s, out s = none ∨ out s = c'.table.migrating_to s)
    (hi : ∀ s, into s = none ∨ into s = c'.table.importing_from s) :
    Changes o c { c' with table := { c'.table with migrating_to := out, importing_from := into } } :=
  h.next (.mark (.dropped ho hi))

/-- Slots change hands, if there are any. -/
theorem set_slots {won : SlotBitmap} {x : Option NodeId} (hx : won ≠ ∅ → Assigns o c' won x) :
    Changes o c (c'.set_slots won x) := by
  unfold Cluster.set_slots
  split
  · exact h
  · rename_i hw
    exact h.next (.give (hx hw))

theorem send (l : Option NodeId) (hm : c'.Says msg) (ht : msg.type ≠ .kFailoverAuthAck) :
    Changes o c (c'.send l msg) := by
  refine h.next (.say fun m hmem => ?_)
  rw [List.mem_singleton.mp hmem]
  exact ⟨hm, ht⟩

theorem broadcast (hm : c'.Says msg) (ht : msg.type ≠ .kFailoverAuthAck) :
    Changes o c (c'.broadcast msg) := by
  refine h.next (.say fun m hmem => ?_)
  obtain ⟨n, -, rfl⟩ := List.mem_map.mp hmem
  exact ⟨hm, ht⟩

theorem pause_writes (b : Bool) : Changes o c (c'.pause_writes b) :=
  h.same ⟨rfl, rfl, rfl, rfl, rfl, rfl, rfl, rfl, rfl, .refl _⟩

theorem reset_manual_failover : Changes o c c'.reset_manual_failover := by
  unfold Cluster.reset_manual_failover
  exact manual (ite (h.pause_writes false) h) _

theorem replicaof (host : Bytes) (port : Nat) : Changes o c (c'.replicaof host port) := by
  unfold Cluster.replicaof
  exact ite h (h.same ⟨rfl, rfl, rfl, rfl, rfl, rfl, rfl, rfl, rfl, .refl _⟩)

theorem replicaof_no_one : Changes o c c'.replicaof_no_one := by
  unfold Cluster.replicaof_no_one
  exact ite h (h.same ⟨rfl, rfl, rfl, rfl, rfl, rfl, rfl, rfl, rfl, .refl _⟩)

theorem follow_master : Changes o c c'.follow_master := by
  unfold Cluster.follow_master
  refine ite ?_ h
  split
  · exact h
  · exact ite h (h.replicaof _ _)

/-- The verdict: "ok" only if every slot is served and a majority is reachable. -/
theorem update_state (env : Env) : Changes o c (c'.update_state env) := by
  obtain ⟨ok, t, hok, heq⟩ := update_state_eq env c'
  have hj := h.next (.judge (t := { c'.todo with update_state := false }) hok id)
  rw [heq]
  exact hj.same ⟨rfl, rfl, rfl, rfl, rfl, rfl, rfl, rfl, rfl, .refl _⟩

/-- The file, if it gets there. -/
theorem save_config (env : Env) : Changes o c (c'.save_config env).2 := by
  have hdisk : Changes o c { c' with disk := c'.describe_nodes } := h.next (.save (t := c'.todo) id)
  unfold Cluster.save_config
  cases env.save with
  | saved => exact hdisk
  | failed => exact h
  | renamed => exact hdisk

/-! ## Nodes, epochs and slots -/

/-- The verdict is due once the node is gone; here it is due first. -/
theorem del_node (hn : (c'.table.node n).handshake = true ∧ o.acts ∨ o.msg = none ∧ n ≠ c'.myself) :
    Changes o c (c'.del_node n) := by
  have hd : Changes o c { c'.todo_update_state with table := c'.table.del_node n } :=
    h.todo_update_state.next (.delete hn rfl)
  unfold Cluster.del_node
  dsimp only
  split
  · rw [reset_manual_failover_rest]
    exact hd.same ⟨rfl, rfl, rfl, rfl, rfl, rfl, rfl, store_reset_manual_failover _, rfl, fun _ => rfl,
      fun _ => rfl⟩
  · exact hd.todo_save

/-- An address at which nobody is met yet gets a placeholder. -/
theorem start_handshake {ip : Bytes} {port cport : Nat} (hd : o.drawn (env.random_id ip port cport))
    (ha : o.addresses port cport) : Changes o c (c'.start_handshake env ip port cport) := by
  unfold Cluster.start_handshake
  split
  · exact h
  · rename_i hvalid
    obtain ⟨-, hport, hcport⟩ : valid_ipv4 ip = true ∧ ¬ port = 0 ∧ ¬ cport = 0 := by
      simpa [not_or] using hvalid
    exact ite h (h.next (.create hd ⟨rfl, ⟨rfl, rfl⟩, ⟨hport, hcport⟩, ha⟩))

section

variable (ha : o.acts)
include ha

/-- We become a replica: the marks come off, the slots go, and then the role changes. -/
theorem demote (hm : m ≠ c'.myself) (hk : m ∈ c'.table.known ∨ ∃ e slots, o.claims m e slots)
    (hw : Yields o c') {c₁ : Cluster}
    (hc₁ : c₁ = (c'.set_slots (c'.table.own.slots c'.myself) none).clear_moves) :
    Changes o c (c₁.modify c₁.myself fun r =>
      { r with master := false, replica := true, master_id := some m }) := by
  have hmoves : Changes o c c'.clear_moves := h.unmark (fun _ => Or.inl rfl) fun _ => Or.inl rfl
  have hslots : Changes o c c₁ := by
    rw [hc₁, show (c'.set_slots (c'.table.own.slots c'.myself) none).clear_moves =
      c'.clear_moves.set_slots (c'.table.own.slots c'.myself) none from (set_slots_moves ..).symm]
    refine hmoves.set_slots fun hne => .disowned ha ?_ fun _ => rfl
    rcases hw with hw | hw | hw
    · exact Or.inl hw
    · exact Or.inr hw
    · exact absurd hw.2.1 hne
  obtain ⟨hme, hrow, hstore, hknown, hgone, hmarks⟩ : c₁.myself = c'.myself ∧ c₁.me = c'.me ∧
      c₁.store = c'.store ∧ c₁.table.known = c'.table.known ∧ c₁.table.own.slots c'.myself = ∅ ∧
      ∀ s, c₁.table.migrating_to s = none ∧ c₁.table.importing_from s = none := by
    rw [hc₁]
    unfold Cluster.set_slots
    split
    · exact ⟨rfl, rfl, rfl, rfl, by assumption, fun _ => ⟨rfl, rfl⟩⟩
    · exact ⟨rfl, rfl, rfl, rfl, Finset.sdiff_self _, fun _ => ⟨rfl, rfl⟩⟩
  rw [← hme] at hgone
  have hyields : Yields o c₁ := by
    unfold Yields at hw ⊢
    rw [hrow, hstore, hme]
    exact hw.imp_right (Or.imp_right fun hw => ⟨hw.1, hme ▸ hgone, hw.2.2⟩)
  exact hslots.edit { Edit.refl o c₁ c₁.todo c₁.myself with
    role := Or.inr ⟨ha, rfl, Or.inr (Or.inr ⟨rfl, hyields⟩)⟩
    master_id := Or.inr ⟨ha, Or.inr (Or.inr ⟨rfl, m, rfl, hme ▸ hm, hknown ▸ hk⟩)⟩ }
    (.demoted rfl hgone hmarks ⟨rfl, rfl⟩)

/-- What a manual failover has going is called off first. -/
theorem set_as_replica_of (hm : m ≠ c'.myself)
    (hk : m ∈ c'.table.known ∨ ∃ e slots, o.claims m e slots) (hw : Yields o c') :
    Changes o c (c'.set_as_replica_of m) := by
  have ht := table_reset_manual_failover c'
  have hd := h.reset_manual_failover.demote ha (m := m) ?_ ?_ ?_ rfl
  · exact todo_broadcast (todo_save (follow_master hd))
  · unfold Cluster.myself
    rwa [ht]
  · rwa [ht]
  · unfold Yields Cluster.me Cluster.myself Store.size at hw ⊢
    rwa [ht, store_reset_manual_failover]

/-- Only a node that is a replica is promoted. -/
theorem set_node_as_master (hp : Present o c' n) (hr : (c'.table.node n).replica = true) :
    Changes o c (c'.set_node_as_master n) :=
  h.edit_save { Edit.refl o c' _ n with
    role := Or.inr ⟨ha, rfl, Or.inl rfl⟩
    master_id := Or.inr ⟨ha, Or.inl rfl⟩ } (.promoted hp hr ⟨rfl, rfl⟩)

/-- A claim takes what it beats. -/
theorem take_claimed {slots : SlotBitmap} (hc : o.claims n e slots) (hn : n ≠ c'.myself)
    (hp : Present o c' n) (hr : (c'.table.node n).master = true ∨ (c'.table.node n).replica = false)
    (hrow : o.met n → ¬ o.drawn n → e ≤ (c'.table.node n).config_epoch) :
    Changes o c (c'.take_claimed n e slots) := by
  have hdrop : Changes o c (c'.drop_migrating (c'.lost n e slots)) := by
    refine h.unmark (fun s => ?_) fun _ => Or.inr rfl
    split
    · exact Or.inl rfl
    · exact Or.inr rfl
  have hgive : Changes o c
      ((c'.drop_migrating (c'.lost n e slots)).set_slots (c'.claimed n e slots) (some n)) := by
    refine hdrop.set_slots fun _ => ?_
    refine .claimed hc ha hn hp hr hrow fun s hs hown => ?_
    exact if_pos (Finset.mem_filter.mpr ⟨hs, hown⟩)
  obtain ⟨t, ht, hkept⟩ := take_claimed_eq c' n e slots
  rw [ht]
  exact hgive.todo hkept

/-- A claim, with what becomes of us if it takes our shard's last slot. -/
theorem update_slots_config_with {slots : SlotBitmap} (hc : o.claims n e slots)
    (hp : Present o c' n) (hr : (c'.table.node n).master = true ∨ (c'.table.node n).replica = false)
    (hrow : n ≠ c'.myself → o.met n → ¬ o.drawn n → e ≤ (c'.table.node n).config_epoch)
    (hhad : c'.table.own.slots c'.myself ≠ ∅ → o.met c'.myself → o.had) :
    Changes o c (c'.update_slots_config_with n e slots) := by
  unfold Cluster.update_slots_config_with
  by_cases hn : n = c'.myself
  · rw [if_pos hn]
    exact h
  · rw [if_neg hn]
    have ht := h.take_claimed ha hc hn hp hr (hrow hn)
    -- the keys are deleted after the slots are taken; the other order ends in the same state
    have hd : Changes o c ((c'.take_claimed n e slots).delete_slots (c'.dirty n e slots)) := by
      have hkeys : Changes o c (c'.delete_slots (c'.dirty n e slots)) :=
        h.next (.keys (Or.inr ⟨n, e, slots, hc, hn, rfl⟩))
      have htake := hkeys.take_claimed ha hc hn hp hr (hrow hn)
      have hstore := congrArg Cluster.store (take_claimed_store c' n e slots c'.store)
      unfold Cluster.delete_slots at htake ⊢
      rw [take_claimed_store] at htake
      rw [show (c'.take_claimed n e slots).store = c'.store from hstore]
      exact htake
    have hme : (c'.take_claimed n e slots).myself = c'.myself := by
      unfold Cluster.myself
      rw [table_take_claimed]
      exact myself_set_slots ..
    have hkeep : (c'.take_claimed n e slots).me = c'.me := by
      unfold Cluster.me
      rw [table_take_claimed]
      exact congrArg (fun t => t.node t.myself) (table_set_slots ..)
    split
    · rename_i hany
      refine ite (ht.set_as_replica_of ha ?_ (Or.inr ⟨e, slots, hc⟩) ?_) ht
      · rw [hme]
        exact hn
      · unfold Yields
        rw [hkeep, hme]
        -- a replica yields; a master does if the claim took the last of its slots
        cases hmaster : c'.me.master with
        | false => exact Or.inl rfl
        | true =>
          have hof : c'.table.master_of c'.myself = some c'.myself := if_pos hmaster
          have htaken : (∃ x ∈ c'.claimed n e slots, c'.table.own.owner x = some c'.myself) ∧
              (c'.take_claimed n e slots).table.own.slots c'.myself = ∅ := by
            rw [hof] at hany
            simpa [dispossesses] using hany
          refine Or.inr (Or.inr ⟨?_, htaken.2, hhad ?_⟩)
          · obtain ⟨m, hm, -⟩ := hc
            rw [hm]
            rfl
          · obtain ⟨x, -, hx⟩ := htaken.1
            exact Finset.ne_empty_of_mem ((c'.table.own.owner_iff x c'.myself).mp hx)
    · exact ite hd ht

end

/-- Our own epoch goes to one that no node here is beyond. -/
theorem take_epoch (hw : o.acts ∨ o.msg ≠ none) (he : c'.current_epoch ≤ e) :
    Changes o c (c'.take_epoch e) := by
  have ha : Changes o c { c' with current_epoch := e } := h.next (.advance he)
  refine todo_broadcast (ha.edit_save { Edit.refl o _ _ _ with epoch := Or.inr ?_ } (.same rfl rfl))
  exact ⟨Or.inr ⟨rfl, rfl⟩, fun _ _ => le_rfl, Or.inl rfl, hw.imp_right fun hm => ⟨rfl, hm⟩,
    fun _ => rfl⟩

theorem handle_epoch_collision (hw : o.acts ∨ o.msg ≠ none) (n : NodeId) :
    Changes o c (c'.handle_epoch_collision n) := by
  unfold Cluster.handle_epoch_collision
  exact ite h (ite h (h.take_epoch hw (Nat.le_succ _)))

theorem bump_epoch_without_consensus (ha : o.acts) :
    Changes o c c'.bump_epoch_without_consensus.2 := by
  unfold Cluster.bump_epoch_without_consensus
  split
  · exact h
  · exact h.take_epoch (Or.inl ha) (le_trans (current_le_max_epoch c') (Nat.le_succ _))

/-! ## The bus -/

theorem send_ping (env : Env) (l : Option NodeId) {type : MsgType}
    (ht : type = .kPing ∨ type = .kPong ∨ type = .kMeet) : Changes o c (c'.send_ping env l type) := by
  have hmsg : c'.Says (c'.ping_message env l type) := .ping env l ht
  have hack : (c'.ping_message env l type).type ≠ .kFailoverAuthAck := by
    show type ≠ _
    rcases ht with rfl | rfl | rfl
    all_goals exact MsgType.noConfusion
  unfold Cluster.send_ping
  cases l with
  | none => exact h.send none hmsg hack
  | some n =>
    dsimp only
    split
    · -- the text was made before the row's clock is set, so the message comes first here
      exact (h.send (some n) hmsg hack).row n (f := fun r => { r with ping_sent := env.now }) fun _ => rfl
    · exact h.send (some n) hmsg hack

theorem broadcast_pong (env : Env) : Changes o c (c'.broadcast_pong env) := by
  refine h.next (.say fun m hm => ?_)
  obtain ⟨n, -, rfl⟩ := List.mem_map.mp hm
  exact ⟨.ping env (some n) (Or.inr (Or.inl rfl)), MsgType.noConfusion⟩

theorem send_update (env : Env) (l : Option NodeId) {s : Slot} (hn : c'.table.own.owner s = some n) :
    Changes o c (c'.send_update env l n) :=
  h.send l (.update env hn) MsgType.noConfusion

theorem count_fail_reports (env : Env) (n : NodeId) : Changes o c (c'.count_fail_reports env n).2 :=
  h.edit { Edit.refl o c' _ n with reports := Or.inl List.filter_sublist } (.same rfl rfl)

/-- The flag goes up, and everybody who can be reached is told. -/
theorem mark_node_as_failing_if_needed (env : Env) (hk : n ∈ c'.table.known) (hn : o.flags n) :
    Changes o c (c'.mark_node_as_failing_if_needed env n) := by
  have hr := h.count_fail_reports env n
  have hf : Changes o c ((c'.count_fail_reports env n).2.flag_fail env n).todo_update_state :=
    hr.health n (fun _ => ⟨rfl, rfl, rfl⟩) (fun hh => nomatch hh.1) fun _ => Or.inr hn
  unfold Cluster.mark_node_as_failing_if_needed
  refine ite h (ite hr ?_)
  -- the verdict is due first, which the message does not show
  exact todo_save (todo_handle_failover (hf.broadcast (.fail env hk) MsgType.noConfusion))

theorem clear_node_failure_if_needed (env : Env) (n : NodeId) :
    Changes o c (c'.clear_node_failure_if_needed env n) := by
  unfold Cluster.clear_node_failure_if_needed
  refine ite (todo_save (h.health n ?_ ?_ ?_)) h
  · exact fun _ => ⟨rfl, rfl, rfl⟩
  · exact fun hh => nomatch hh.2
  · exact fun hf => nomatch hf

/-- A node that does not answer is suspected, and perhaps a majority already did. -/
theorem detect_failure (env : Env) (hk : n ∈ c'.table.known) (hn : o.flags n) :
    Changes o c (Cluster.detect_failure env c' n) := by
  unfold Cluster.detect_failure
  dsimp only
  split
  · exact h
  · rename_i hskip
    have hfail : (c'.table.node n).fail ≠ true := by
      intro hfail
      exact hskip (Or.inr (Or.inr (Or.inr (Or.inr hfail))))
    refine ite (mark_node_as_failing_if_needed (h.health n ?_ ?_ Or.inl) env hk hn) h
    · exact fun _ => ⟨rfl, rfl, rfl⟩
    · exact fun hh => hfail hh.2

/-- Along a list of nodes that are known, which they stay. -/
theorem foldl_detect_failure (env : Env) (hf : ∀ n, o.flags n) {l : List NodeId}
    (hl : ∀ n ∈ l, n ∈ c'.table.known) : Changes o c (l.foldl (Cluster.detect_failure env) c') := by
  induction l generalizing c' with
  | nil => exact h
  | cons n l ih =>
    refine ih (h.detect_failure env (hl n (List.mem_cons_self ..)) (hf n)) fun x hx => ?_
    rw [known_detect_failure]
    exact hl x (List.mem_cons_of_mem _ hx)

theorem detect_failures (env : Env) (hf : ∀ n, o.flags n) : Changes o c (c'.detect_failures env) :=
  h.foldl_detect_failure env hf fun _ hn => hn

end

end Changes

/-! ## A packet -/

/-- What is known of the sender of a message once its header is noted. -/
structure Heard (o : Cause) (msg : Message) (c : Cluster) : Prop where
  read : o.msg = some msg
  acts : o.acts
  proper : o.met msg.sender → Present o c msg.sender
  epoch : msg.sender ≠ c.myself → o.met msg.sender → ¬ o.drawn msg.sender →
    msg.config_epoch ≤ (c.table.node msg.sender).config_epoch
  current : o.met msg.sender → msg.current_epoch ≤ c.current_epoch
  had : c.table.own.slots c.myself ≠ ∅ → o.met c.myself → o.had
  known : ∀ n, c.Proper n → o.met n ∨ n = msg.sender
  reported : ∀ g ∈ msg.gossip, o.flags g.id
  failed : msg.type = .kFail → o.flags msg.fail_id

/-- What is known of a message whose sender is not. -/
structure Stranger (o : Cause) (msg : Message) (l : Inlet) (c : Cluster) : Prop where
  sender : ¬ o.met msg.sender
  unknown : ¬ c.Proper msg.sender
  opens : ∀ n, l.node = some n → (c.table.node n).handshake = true ∨ o.drawn n → o.opens

/-- A stranger stays one along changes that do not meet it. -/
theorem Stranger.changes {l : Inlet} (hs : Stranger o msg l c) (h : Changes o c c')
    (hp : c'.Proper msg.sender → c.Proper msg.sender) : Stranger o msg l c' where
  sender := hs.sender
  unknown hnew := hs.unknown (hp hnew)
  opens n hn hhand := by
    refine hs.opens n hn ?_
    by_contra hnot
    obtain ⟨hmet, hd⟩ := not_or.mp hnot
    rcases hhand with hhand | hdrawn
    · rw [h.met hd (Bool.eq_false_iff.mpr hmet)] at hhand
      cases hhand
    · exact hd hdrawn

/-- What is known of a sender stays so: epochs do not fall, and no slot comes to be ours. -/
theorem Heard.changes (hh : Heard o msg c) (h : Changes o c c') : Heard o msg c' where
  read := hh.read
  acts := hh.acts
  proper hmet := (hh.proper hmet).changes h hh.read rfl
  epoch hme hmet hd := by
    have hne : msg.sender ≠ c.myself := fun e => hme (e.trans h.myself.symm)
    exact (hh.epoch hne hmet hd).trans (h.epoch_le hd hmet hne)
  current hmet := (hh.current hmet).trans h.current_le
  had hne hmet := by
    rw [h.myself] at hmet
    have hsub := h.own_slots_subset (by simp [hh.read]) hmet
    exact hh.had (fun he => hne (Finset.subset_empty.mp (he ▸ hsub))) hmet
  known n hp := by
    rcases h.proper_back hp with hp | ⟨⟨m, hm, rfl⟩, -⟩
    · exact hh.known n hp
    · rw [hh.read] at hm
      cases hm
      exact Or.inr rfl
  reported := hh.reported
  failed := hh.failed

/-- What the answer to a PING or MEET is made of: our own address, a handshake, a PONG. -/
theorem answer_induct {P : Cluster → Prop} {l : Inlet} (h : P c)
    (hip : ∀ ip, P (c.modify c.myself fun n => { n with ip := ip }).todo_save)
    (hmeet : ∀ c', P c' → P (c'.start_handshake env l.peer_ip msg.port msg.cport))
    (hpong : ∀ c', P c' → P (c'.send_ping env l.node .kPong)) (sender : Option NodeId) :
    P (c.answer env l sender msg) := by
  unfold answer
  refine iteInduction (fun _ => ?_) fun _ => hpong _ ?_
  all_goals
    refine iteInduction (fun _ => hmeet _ ?_) fun _ => ?_
    all_goals
      cases l.local_ip with
      | none => exact h
      | some ip => exact iteInduction (fun _ => hip ip) fun _ => h

namespace Changes

variable {o : Cause} {c c' : Cluster} {env : Env} {msg : Message}

section

variable (h : Changes o c c')
include h

/-- The sender of a message is at the epoch it shows, if it was known. -/
theorem note_epochs (hm : o.msg = some msg) (ha : o.acts) (hp : c'.Proper msg.sender) :
    Changes o c (c'.note_epochs msg.sender msg) ∧
      msg.config_epoch ≤ ((c'.note_epochs msg.sender msg).table.node msg.sender).config_epoch ∧
      msg.current_epoch ≤ (c'.note_epochs msg.sender msg).current_epoch := by
  have hrow : ∀ c₁ : Cluster, Changes o c c₁ → c₁.Proper msg.sender →
      msg.current_epoch ≤ c₁.current_epoch →
      (c₁.table.node msg.sender).config_epoch < msg.config_epoch → Changes o c
        (c₁.modify msg.sender fun r => { r with config_epoch := msg.config_epoch }).todo_save := by
    intro c₁ h₁ hp₁ hle hlt
    refine h₁.edit_save { Edit.refl o c₁ _ msg.sender with epoch := Or.inr ?_ } (.same rfl rfl)
    exact ⟨Or.inl hlt.le, fun hs _ => (hs msg hm).config.trans hle,
      Or.inr ⟨⟨msg, hm, Or.inl ⟨rfl, rfl⟩⟩, hp₁⟩, Or.inl ha, fun _ => rfl⟩
  have hnew : ∀ c₁ : Cluster, msg.config_epoch ≤
      ((c₁.modify msg.sender fun r => { r with config_epoch := msg.config_epoch }).table.node
        msg.sender).config_epoch := by
    intro c₁
    rw [node_modify_self]
  unfold Cluster.note_epochs
  dsimp only
  -- the current epoch is raised first, so the row never gets above it
  by_cases hlt : c'.current_epoch < msg.current_epoch
  · have hc : Changes o c (Cluster.todo_save { c' with current_epoch := msg.current_epoch }) :=
      todo_save (h.next (.advance hlt.le))
    rw [if_pos hlt]
    split
    · rename_i hcfg
      exact ⟨hrow _ hc hp le_rfl hcfg, hnew _, le_rfl⟩
    · rename_i hcfg
      exact ⟨hc, not_lt.mp hcfg, le_rfl⟩
  · rw [if_neg hlt]
    split
    · rename_i hcfg
      exact ⟨hrow _ h hp (not_lt.mp hlt) hcfg, hnew _, not_lt.mp hlt⟩
    · rename_i hcfg
      exact ⟨h, not_lt.mp hcfg, not_lt.mp hlt⟩

/-- The header's other fields. -/
theorem note_ports_offset (hm : o.msg = some msg) (n : NodeId) :
    Changes o c ((c'.note_ports n msg).note_offset n msg) := by
  have hp : Changes o c (c'.note_ports n msg) := by
    unfold note_ports
    refine ite (h.edit_save { Edit.refl o c' _ n with ports := ?_ } (.same rfl rfl)) h
    exact Or.inr (Or.inl ⟨msg, hm, rfl, rfl⟩)
  have ho := hp.row n (f := fun r => { r with repl_offset := msg.repl_offset }) fun _ => rfl
  unfold note_offset
  exact ite (ho.same ⟨rfl, rfl, rfl, rfl, rfl, rfl, rfl, rfl, rfl, id, id⟩) ho

/-- A MEET starts a handshake back, and either is answered with a PONG. -/
theorem answer (hd : ∀ ip port cport, o.drawn (env.random_id ip port cport)) (hm : o.msg = some msg)
    (l : Inlet) (sender : Option NodeId) : Changes o c (c'.answer env l sender msg) := by
  refine answer_induct h (fun _ => todo_save (h.row _ fun _ => rfl)) ?_ ?_ sender
  · exact fun _ h => h.start_handshake (hd _ _ _) (Or.inr ⟨msg, hm, Or.inl ⟨rfl, rfl⟩⟩)
  · exact fun _ h => h.send_ping env _ (Or.inr (Or.inl rfl))

omit h in
/-- The answer to a PING makes nobody known. -/
theorem proper_of_answer {l : Inlet} (h : (c.answer env l sender msg).Proper n) : c.Proper n := by
  have hcs : Changes { Cause.still with drawn := fun _ => True, msg := some msg } c
      (c.answer env l sender msg) := (refl c).answer (fun _ _ _ => trivial) rfl l sender
  exact (hcs.proper_back h).resolve_right fun hnew => hnew.2

/-- An UPDATE: the node it names is a master, at that epoch, with those slots. -/
theorem on_update (hh : Heard o msg c') (ht : msg.type = .kUpdate)
    (hmet : o.met msg.sender) : Changes o c (c'.on_update msg) := by
  unfold Cluster.on_update Table.lookup
  by_cases hk : msg.update_id ∈ c'.table.known
  · rw [if_pos hk]
    dsimp only
    split
    · exact h
    · rename_i hlow
      have hproper : c'.Proper msg.update_id := ⟨hk, by simpa using fun hhand => hlow (Or.inl hhand)⟩
      have hknown : o.met msg.update_id := (hh.known _ hproper).elim id fun he => he ▸ hmet
      have hclaim : o.claims msg.update_id msg.update_epoch msg.update_slots :=
        ⟨msg, hh.read, if_pos ht, Or.inl ⟨ht, hknown⟩⟩
      -- whatever it was, it is a master when its claim is looked at
      have hrole : ∃ c₁, (if (c'.table.node msg.update_id).replica = true then
          c'.set_node_as_master msg.update_id else c') = c₁ ∧ Changes o c c₁ ∧
          c₁.current_epoch = c'.current_epoch ∧ c₁.Proper msg.update_id ∧
          (c₁.table.node msg.update_id).config_epoch = (c'.table.node msg.update_id).config_epoch ∧
          ((c₁.table.node msg.update_id).master = true ∨
            (c₁.table.node msg.update_id).replica = false) ∧
          (c₁.table.own.slots c₁.myself ≠ ∅ → o.met c₁.myself → o.had) := by
        split
        · rename_i hrep
          have hnode : (c'.set_node_as_master msg.update_id).table.node msg.update_id =
              { c'.table.node msg.update_id with
                replica := false, master := true, master_id := none } := by
            unfold Cluster.set_node_as_master
            rw [table_todo_save, node_modify_self]
          refine ⟨_, rfl, h.set_node_as_master hh.acts (Or.inl hproper) hrep, rfl, ⟨hk, ?_⟩, ?_, ?_, hh.had⟩
          · rw [hnode]
            exact hproper.2
          · rw [hnode]
          · rw [hnode]
            exact Or.inl rfl
        · rename_i hrep
          exact ⟨c', rfl, h, rfl, hproper, rfl, Or.inr (Bool.eq_false_iff.mpr hrep), hh.had⟩
      obtain ⟨c₁, heq, h₁, hcur, hp₁, hep, hmaster, hhad⟩ := hrole
      rw [heq]
      have hraise : Raises o c₁ msg.update_id msg.update_epoch { c₁.todo with save := true } := by
        refine ⟨Or.inl ?_, fun hs _ => ?_, Or.inr ⟨⟨msg, hh.read, Or.inr ⟨ht, rfl, rfl⟩⟩, hp₁⟩,
          Or.inl hh.acts, fun _ => rfl⟩
        · rw [hep]
          exact (not_le.mp fun hle => hlow (Or.inr hle)).le
        · rw [hcur]
          exact (hs msg hh.read).update.trans (hh.current hmet)
      have hnode : (c₁.modify msg.update_id fun r =>
          { r with config_epoch := msg.update_epoch }).table.node msg.update_id =
          { c₁.table.node msg.update_id with config_epoch := msg.update_epoch } := node_modify_self ..
      refine update_slots_config_with (h₁.edit_save
        { Edit.refl o c₁ _ msg.update_id with epoch := Or.inr hraise } (.same rfl rfl)) hh.acts hclaim
        (Or.inl ⟨hp₁.1, ?_⟩) ?_ (fun _ _ _ => ?_) hhad
      · exact (congrArg Node.handshake hnode).trans hp₁.2
      · exact hmaster.imp (congrArg Node.master hnode).trans (congrArg Node.replica hnode).trans
      · exact (congrArg Node.config_epoch hnode).ge
  · rw [if_neg hk]
    exact h

/-- A FAIL is believed of any node that is met, but of ourselves. -/
theorem on_fail (env : Env) (hf : o.flags msg.fail_id) : Changes o c (c'.on_fail env msg) := by
  unfold Cluster.on_fail Table.lookup
  split
  · exact h
  · rename_i n hn
    obtain rfl : msg.fail_id = n := by
      split at hn
      · exact Option.some.inj hn
      · cases hn
    refine ite h (todo_save (todo_handle_failover (h.health _ ?_ ?_ fun _ => Or.inr hf)))
    · exact fun _ => ⟨rfl, rfl, rfl⟩
    · exact fun hh => nomatch hh.1

theorem start_pause (env : Env) (n : NodeId) (l : Inlet) :
    Changes o c (c'.start_pause env n l) := by
  have hp := pause_writes (manual h.reset_manual_failover { c'.reset_manual_failover.manual with
    mf_end := some (env.now + kManualFailoverTimeout), replica := some n }) true
  unfold Cluster.start_pause
  exact ite h (ite (hp.send_ping env _ (Or.inl rfl)) (ite hp (hp.send_ping env _ (Or.inl rfl))))

theorem note_pong (env : Env) (n : NodeId) (msg : Message) :
    Changes o c (c'.note_pong env n msg) := by
  have hp := h.row n (f := fun r => { r with pong_received := env.now, ping_sent := 0 })
    fun _ => rfl
  unfold Cluster.note_pong
  refine ite (ite (hp.health n ?_ ?_ Or.inl) (hp.clear_node_failure_if_needed env n)) h
  · exact fun _ => ⟨rfl, rfl, rfl⟩
  · exact fun hh => nomatch hh.1

/-- The node whose PING or PONG this is was known, or has just been met. -/
theorem identify (env : Env) (l : Inlet) (hh : Heard o msg c')
    (hs : ∀ n, sender = some n → n = msg.sender ∧ o.met n)
    (hn : sender = none → Stranger o msg l c') :
    Changes o c (c'.identify env l sender msg).2 ∧
      ∀ n, (c'.identify env l sender msg).1 = some n → n = msg.sender ∧
        Present o (c'.identify env l sender msg).2 n := by
  have hknown : ∀ n, sender = some n → n = msg.sender ∧ Present o c' n := by
    intro n hsn
    obtain ⟨rfl, hmet⟩ := hs n hsn
    exact ⟨rfl, hh.proper hmet⟩
  unfold Cluster.identify
  split
  · exact ⟨h, hknown⟩
  · rename_i n _
    split
    · rename_i hhand
      split
      · exact ⟨h.del_node (Or.inl ⟨hhand, hh.acts⟩), nofun⟩
      · rename_i hnone
        -- the handshake ends: its row is renamed to the sender
        have hst : Stranger o msg l c' := hn (by simpa using hnone)
        have hintro : Introduces o c' n msg := ⟨hh.read, hh.acts,
          hst.opens n (by assumption) (Or.inl hhand), hhand, hst.sender, hst.unknown⟩
        obtain ⟨manual, heq⟩ := complete_handshake_eq c' n msg
        have hc : Changes o c (c'.complete_handshake n msg) := by
          have hc := h.next (.complete hintro)
          rw [heq]
          exact hc.manual manual
        refine ⟨hc.note_pong env _ _, fun x hx => ⟨(Option.some.inj hx).symm, ?_⟩⟩
        have hp : (c'.complete_handshake n msg).Proper msg.sender := by
          unfold Proper
          rw [heq, node_introduced, if_pos rfl]
          exact ⟨mem_known_rename.mpr (Or.inl rfl), rfl⟩
        obtain rfl := Option.some.inj hx
        exact Present.changes ((refl _).note_pong env _ _) (Or.inl hp) hh.read rfl
    · split
      · exact ⟨todo_save (h.row _ fun _ => rfl), nofun⟩
      · refine ⟨h.note_pong env _ _, fun x hx => ⟨(hknown x hx).1, ?_⟩⟩
        exact Present.changes ((refl _).note_pong env n msg) (hknown x hx).2 hh.read (hknown x hx).1

/-- The role the sender shows; a replica keeps no slots. -/
theorem note_role (hm : o.msg = some msg) (ha : o.acts) (ht : msg.type ≠ .kUpdate)
    (hp : Present o c' msg.sender) : Changes o c (c'.note_role msg.sender msg) := by
  unfold Cluster.note_role
  split
  · rename_i hrep
    have hs : Changes o c (c'.set_slots (c'.table.own.slots msg.sender) none) :=
      h.set_slots fun _ => .resigned hm ha ht
    have hone : Changes o c' (c'.set_slots (c'.table.own.slots msg.sender) none) :=
      (refl c').set_slots fun _ => .resigned hm ha ht
    have hr := ite (p := (c'.table.node msg.sender).master = true)
      (hs.edit_save (n := msg.sender) (f := fun r => { r with master := false, replica := true })
        { Edit.refl o _ _ msg.sender with
          role := Or.inr ⟨ha, rfl, Or.inr (Or.inl ⟨msg, hm, rfl, hrep⟩)⟩ }
        (.resigned (Present.changes hone hp hm rfl) ⟨msg, hm, rfl⟩ (slots_set_slots_self c' _)
          ⟨rfl, rfl⟩)) h
    refine ite (hr.edit_save { Edit.refl o _ _ msg.sender with
      master_id := Or.inr ⟨ha, Or.inr (Or.inl ⟨msg, hm, rfl, rfl⟩)⟩ } (.same rfl rfl)) hr
  · split
    · rename_i hrep
      exact h.set_node_as_master ha hp hrep
    · exact h

omit h in
/-- A sender that says it is a replica is one from then on. -/
theorem master_note_role (c : Cluster) (n : NodeId) (h : msg.replica = true) :
    ((c.note_role n msg).table.node n).master = false := by
  have hrow : ∀ c₁ : Cluster, (c₁.table.node n).master = false →
      ((if (c₁.table.node n).master_id ≠ msg.master_id then
        (c₁.modify n fun r => { r with master_id := msg.master_id }).todo_save
      else c₁ : Cluster).table.node n).master = false := by
    intro c₁ h₁
    split
    · rw [table_todo_save, node_modify_self]
      exact h₁
    · exact h₁
  unfold Cluster.note_role
  rw [if_pos h]
  refine hrow _ ?_
  split
  · rw [table_todo_save, node_modify_self]
  · rename_i hm
    exact Bool.eq_false_iff.mpr hm

omit h in
theorem owner_of_newer_owner {n m : NodeId} (h : c.newer_owner n msg = some m) :
    ∃ s, c.table.own.owner s = some m := by
  obtain ⟨s, -, hs⟩ := Option.bind_eq_some_iff.mp h
  exact ⟨s, hs⟩

/-- The slots the sender shows; whoever is behind is told. -/
theorem note_claims (hh : Heard o msg c') (ht : msg.type ≠ .kUpdate)
    (hrole : msg.replica = true → (c'.table.node msg.sender).master = false)
    (hp : Present o c' msg.sender) (env : Env) (l : Inlet) :
    Changes o c (c'.note_claims env l msg.sender msg) := by
  unfold Cluster.note_claims
  split
  · rename_i hmaster
    have hrep : msg.replica = false := by
      refine Bool.eq_false_iff.mpr fun hr => ?_
      rw [hrole hr] at hmaster
      cases hmaster
    have hclaim : o.claims msg.sender msg.config_epoch msg.slots :=
      ⟨msg, hh.read, if_neg ht, Or.inr ⟨ht, hrep⟩⟩
    have hu := ite (p := c'.table.own.slots msg.sender ≠ msg.slots)
      (h.update_slots_config_with hh.acts hclaim hp (Or.inl hmaster) hh.epoch hh.had) h
    refine handle_epoch_collision ?_ (Or.inl hh.acts) msg.sender
    split
    · exact hu
    · rename_i hnewer
      obtain ⟨s, hs⟩ := owner_of_newer_owner hnewer
      exact ite hu (hu.send_update env _ hs)
  · exact h

section

variable (hd : ∀ ip port cport, o.drawn (env.random_id ip port cport))
include hd

/-- One entry of the gossip. -/
theorem gossip_step (hm : o.msg = some msg) (hs : Present o c' msg.sender) {g : GossipEntry}
    (hg : g ∈ msg.gossip) (hf : o.flags g.id) :
    Changes o c (Cluster.gossip_step env msg.sender c' g) := by
  unfold Cluster.gossip_step
  split
  · exact h
  · rename_i hme
    split
    · rename_i hk
      split
      · rename_i hmaster
        have hreport : Reports o c' g.id msg := ⟨hm, ⟨g, hg, rfl⟩, hme, ⟨hk, by simpa using hmaster.2⟩,
          fun hnew => hs.resolve_right fun hdrawn => hnew hdrawn.1⟩
        refine ite (mark_node_as_failing_if_needed ?_ env hk hf) ?_
        · exact h.edit { Edit.refl o c' _ g.id with
            reports := Or.inr ⟨msg, env.now, hreport, rfl⟩ } (.same rfl rfl)
        · exact h.edit { Edit.refl o c' _ g.id with
            reports := Or.inl List.filter_sublist } (.same rfl rfl)
      · exact h
    · refine ite h (h.start_handshake (hd _ _ _) (Or.inr ⟨msg, hm, Or.inr ⟨g, hg, rfl, rfl⟩⟩))

/-- Along the list, the sender stays known. -/
theorem process_gossip (hm : o.msg = some msg) (hs : Present o c' msg.sender)
    (hf : ∀ g ∈ msg.gossip, o.flags g.id) : Changes o c (c'.process_gossip env msg.sender msg) := by
  have hl : ∀ l : List GossipEntry, (∀ g ∈ l, g ∈ msg.gossip) → ∀ c₁, Changes o c c₁ →
      Present o c₁ msg.sender →
      Changes o c (l.foldl (Cluster.gossip_step env msg.sender) c₁) := by
    intro l
    induction l with
    | nil => exact fun _ _ h₁ _ => h₁
    | cons g l ih =>
      intro hmem c₁ h₁ hp
      have hg := hmem g (List.mem_cons_self ..)
      refine ih (fun g' hg' => hmem g' (List.mem_cons_of_mem _ hg')) _
        (h₁.gossip_step hd hm hp hg (hf g hg)) ?_
      exact Present.changes (gossip_step (refl c₁) hd hm hp hg (hf g hg)) hp hm rfl
  exact hl msg.gossip (fun _ hg => hg) c' h hs

/-- The parts of a PING in their order: who it is, its role, its slots, its gossip. -/
theorem on_ping (l : Inlet) (hh : Heard o msg c') (ht : msg.type ≠ .kUpdate)
    (hs : ∀ n, sender = some n → n = msg.sender ∧ o.met n)
    (hn : sender = none → Stranger o msg l c') : Changes o c (c'.on_ping env l sender msg) := by
  obtain ⟨hi, hwho⟩ := h.identify env l hh hs hn
  have hone := (identify (refl (o := o) c') env l hh hs hn).1
  unfold Cluster.on_ping
  split
  · rename_i heq
    rwa [heq] at hi
  · rename_i n c₁ heq
    rw [heq] at hi hone hwho
    obtain ⟨rfl, hp⟩ := hwho n rfl
    have hrole := note_role (refl (o := o) c₁) hh.read hh.acts ht hp
    have hpr := Present.changes hrole hp hh.read rfl
    have hheard := (hh.changes hone).changes hrole
    have hclaims := note_claims (refl (o := o) _) hheard ht (master_note_role c₁ _) hpr env l
    refine process_gossip (note_claims (hi.note_role hh.read hh.acts ht hp) hheard ht
      (master_note_role c₁ _) hpr env l) hd hh.read ?_ hh.reported
    exact Present.changes hclaims hpr hh.read rfl

omit hd in
/-- The vote is on disk before it is sent, and forgotten if it cannot be saved. -/
theorem send_failover_auth_if_needed (env : Env) (n : NodeId)
    (request : Message) : Changes o c (c'.send_failover_auth_if_needed env n request) := by
  unfold Cluster.send_failover_auth_if_needed
  cases hv : c'.vote_for env n request with
  | none => exact h
  | some m =>
    have hopen : c'.last_vote_epoch ≠ c'.current_epoch := by
      intro heq
      unfold vote_for at hv
      simp [heq] at hv
    have hrow := h.row m (f := fun r => { r with voted_time := env.now }) fun _ => rfl
    generalize hc₁ : (c'.modify m fun r => { r with voted_time := env.now }) = c₁ at hrow
    have hopen₁ : c₁.last_vote_epoch ≠ c₁.current_epoch := by
      rw [← hc₁]
      exact hopen
    have hcast : ∀ v d, d = c₁.disk ∨ d = { c₁.describe_nodes with last_vote_epoch := c₁.current_epoch } →
        Changes o c { c₁ with last_vote_epoch := v, disk := d } := by
      intro v d hd
      have hv := hrow.next (.vote (v := v) ⟨hopen₁, hd, Or.inl rfl⟩)
      rwa [List.append_nil] at hv
    have hsent : Changes o c { c₁ with
        last_vote_epoch := c₁.current_epoch
        disk := { c₁.describe_nodes with last_vote_epoch := c₁.current_epoch }
        sent := c₁.sent ++ [(some n, c₁.header env .kFailoverAuthAck)] } :=
      hrow.next (.vote ⟨hopen₁, Or.inr rfl, Or.inr ⟨rfl, rfl, env, n, rfl⟩⟩)
    subst hc₁
    unfold Cluster.save_config
    cases env.save with
    | saved => exact ite (hcast _ _ (Or.inr rfl)) (ite (hcast _ _ (Or.inr rfl)) hsent)
    | failed => exact hcast _ _ (Or.inl rfl)
    | renamed => exact hcast _ _ (Or.inr rfl)

omit hd in
theorem on_auth_ack (hm : o.msg = some msg) (ht : msg.type = .kFailoverAuthAck) (n : NodeId) :
    Changes o c (c'.on_auth_ack n msg) := by
  unfold Cluster.on_auth_ack
  exact ite (todo_handle_failover (h.next (.elect (.counted hm ht)))) h

/-- By the type of the message. -/
theorem on_message (l : Inlet) (hh : Heard o msg c')
    (hs : ∀ n, sender = some n → n = msg.sender ∧ o.met n)
    (hn : sender = none → Stranger o msg l c') : Changes o c (c'.on_message env l sender msg) := by
  have hmet : sender.isSome → o.met msg.sender := by
    intro hsome
    obtain ⟨n, hsn⟩ := Option.isSome_iff_exists.mp hsome
    exact (hs n hsn).1 ▸ (hs n hsn).2
  unfold Cluster.on_message
  split
  · rename_i ht
    split
    · rename_i hsome
      exact h.on_update hh ht (hmet hsome)
    · exact h
  · rename_i ht
    exact ite (h.on_fail env (hh.failed ht)) h
  · split
    · exact h
    · exact h.send_failover_auth_if_needed env _ msg
  · rename_i ht
    split
    · exact h
    · exact h.on_auth_ack hh.read ht _
  · split
    · exact h
    · exact h.start_pause env _ l
  · rename_i ht
    exact h.on_ping hd l hh (by simp [ht]) hs hn
  all_goals
    rename_i ht
    have ha := h.answer hd hh.read l sender
    have hone := answer (refl (o := o) c') hd hh.read l sender
    exact ite ha (ha.on_ping hd l (hh.changes hone) (by simp [ht]) hs fun h =>
      (hn h).changes hone proper_of_answer)

end

end

end Changes

theorem sender_of_eq_some (h : c.sender_of msg = some n) : n = msg.sender ∧ c.Proper n := by
  unfold sender_of Table.lookup at h
  split at h
  · rename_i hk
    obtain ⟨h₁, h₂⟩ := Option.filter_eq_some_iff.mp h
    obtain rfl := Option.some.inj h₁
    exact ⟨rfl, hk, by simpa using h₂⟩
  · cases h

theorem not_proper_of_sender_of (h : c.sender_of msg = none) : ¬ c.Proper msg.sender := by
  rintro ⟨hk, hh⟩
  unfold sender_of Table.lookup at h
  rw [if_pos hk] at h
  simp [hh] at h

/-- **A packet, in changes.** -/
theorem changes_process_packet (hm : o.msg = some msg) (ha : o.acts) (hmet : o.met = c.Proper)
    (hhad : c.table.own.slots c.myself ≠ ∅ → o.had)
    (hd : ∀ ip port cport, o.drawn (env.random_id ip port cport)) (l : Inlet)
    (ho : ∀ n, l.node = some n → (c.table.node n).handshake = true ∨ o.drawn n → o.opens)
    (hg : ∀ g ∈ msg.gossip, o.flags g.id) (hf : msg.type = .kFail → o.flags msg.fail_id) :
    Changes o c (c.process_packet env l msg) := by
  have hrefl := Changes.refl (o := o) c
  unfold Cluster.process_packet
  dsimp only
  split
  · rename_i heq
    have hunknown := not_proper_of_sender_of heq
    have hnot : ¬ o.met msg.sender := hmet ▸ hunknown
    exact hrefl.on_message hd l ⟨hm, ha, fun h => absurd h hnot, fun _ h => absurd h hnot,
      fun h => absurd h hnot, fun hne _ => hhad hne, fun n hp => Or.inl (hmet ▸ hp), hg, hf⟩ nofun
      fun _ => ⟨hnot, hunknown, ho⟩
  · rename_i n heq
    obtain ⟨rfl, hp⟩ := sender_of_eq_some heq
    obtain ⟨he, hcfg, hcur⟩ := hrefl.note_epochs hm ha hp
    have hrest := (Changes.refl (o := o) (c.note_epochs msg.sender msg)).note_ports_offset hm msg.sender
    have hown : (c.note_epochs msg.sender msg).table.own.slots (c.note_epochs msg.sender msg).myself ≠ ∅ →
        o.met (c.note_epochs msg.sender msg).myself → o.had := by
      intro hne hmet
      rw [he.myself] at hmet
      have hsub := he.own_slots_subset (by simp [hm]) hmet
      exact hhad fun hnil => hne (Finset.subset_empty.mp (hnil ▸ hsub))
    have hback : ∀ n, (c.note_epochs msg.sender msg).Proper n → o.met n ∨ n = msg.sender := by
      intro n hn
      rcases he.proper_back hn with hn | ⟨⟨m, hmsg, rfl⟩, -⟩
      · exact Or.inl (hmet ▸ hn)
      · rw [hm] at hmsg
        cases hmsg
        exact Or.inr rfl
    have hheard : Heard o msg (c.note_epochs msg.sender msg) :=
      ⟨hm, ha, fun _ => Present.changes he (Or.inl hp) hm rfl, fun _ _ _ => hcfg, fun _ => hcur, hown,
        hback, hg, hf⟩
    refine (he.note_ports_offset hm msg.sender).on_message hd _ (hheard.changes hrest) ?_ ?_
    · rw [heq]
      rintro n hn
      obtain rfl := Option.some.inj hn
      exact ⟨rfl, hmet ▸ hp⟩
    · rw [heq]
      nofun

end Cluster

end EpochKV

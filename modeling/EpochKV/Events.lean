/-
Every event is a chain of changes.

To the packet of `Handlers` come the election, the loop, the commands and the start of a
process; together they are all of `handle` (`changes_handle`).
-/
import EpochKV.Handlers

set_option autoImplicit false

namespace EpochKV

open Text Slots Commands

variable {o : Cause} {msg : Message} {c : Cluster} {c' c'' : Cluster} {sender : Option NodeId}
  {n m : NodeId} {env : Env} {f : Node → Node} {e : Nat}

namespace Cluster

/-! ## The election -/

namespace Changes

variable {o : Cause} {c c' : Cluster} {env : Env}

section

variable (h : Changes o c c')
include h

/-- A replica takes its master's place. -/
theorem succeed (ha : o.acts) (hm : o.msg = none) (hmaster : c'.me.master = false) (old : NodeId) :
    Changes o c ((c'.set_node_as_master c'.myself).set_slots (c'.table.own.slots old)
      (some c'.myself)) := by
  by_cases hempty : c'.table.own.slots old = ∅
  · have hs := h.next (.succeed (t := { c'.todo with save := true }) ha hm hmaster
      ⟨fun _ => rfl, id⟩ fun hne => absurd hempty hne)
    have hown : c'.table.own.assign (c'.table.own.slots old) (some c'.myself) = c'.table.own := by
      refine Ownership.eq_of_owner (funext fun s => ?_)
      rw [Ownership.owner_assign, hempty, if_neg (Finset.notMem_empty s)]
    rw [hown] at hs
    unfold Cluster.set_slots
    rw [if_pos hempty]
    exact hs
  · unfold Cluster.set_slots
    rw [if_neg hempty]
    exact h.next (.succeed (t := { c'.todo with save := true, update_state := true }) ha hm hmaster
      ⟨fun _ => rfl, fun _ => rfl⟩ fun _ => rfl)

/-- What `failover_replace_master` does once its checks are passed. -/
theorem replace_master (ha : o.acts) (hm : o.msg = none) (hmaster : c'.me.master = false) (env : Env)
    (old : NodeId) :
    Changes o c (((((c'.set_node_as_master c'.myself).replicaof_no_one.set_slots
      ((c'.set_node_as_master c'.myself).replicaof_no_one.table.own.slots old)
      (some (c'.set_node_as_master c'.myself).replicaof_no_one.myself)).update_state env
        |>.save_config env).2.broadcast_pong env).reset_manual_failover) := by
  have htable : c'.replicaof_no_one.table = c'.table := table_replicaof_no_one c'
  have hme : c'.replicaof_no_one.myself = c'.myself := congrArg Table.myself htable
  have hreplica : c'.replicaof_no_one.me.master = false := by
    unfold Cluster.me
    rw [htable]
    exact hmaster
  have hs := h.replicaof_no_one.succeed ha hm hreplica old
  rw [replicaof_no_one_set_node_as_master, ← hme]
  exact reset_manual_failover (broadcast_pong (save_config (update_state hs env) env) env)

theorem failover_replace_master (ha : o.acts) (hm : o.msg = none) (env : Env) :
    Changes o c (c'.failover_replace_master env) := by
  unfold Cluster.failover_replace_master
  split
  · exact h
  · split
    · exact h
    · rename_i hmaster
      exact h.replace_master ha hm (Bool.eq_false_iff.mpr hmaster) env _

omit h in
theorem of_failing_master (h : c.failing_master env ≠ none) :
    c.me.replica = true ∧ c.table.lookup_master c.myself ≠ none := by
  unfold failing_master at h
  split at h
  · exact absurd rfl h
  · rename_i hne
    refine ⟨by simpa using fun hr => hne (Or.inr hr), fun hl => ?_⟩
    rw [hl] at h
    exact h rfl

/-- The election is won. Unless we were a master all along, the new epoch is saved: the
flag that the promotion sets is already there for the epoch. -/
theorem win_election (ha : o.acts) (hm : o.msg = none) (hr : c'.me.replica = true)
    (hl : c'.table.lookup_master c'.myself ≠ none) : Changes o c (c'.win_election env) := by
  unfold Cluster.win_election
  dsimp only
  split
  · rename_i hlt
    have hraise : ∀ t : Todo, (c'.Fit → t.save = true) → c'.todo.Kept t →
        Changes o c { c'.modify c'.myself fun n => { n with config_epoch := c'.election.epoch } with
          todo := t } := by
      intro t ht hkept
      refine h.next (.row { Edit.refl o c' t c'.myself with epoch := Or.inr ?_ } (.same rfl rfl) hkept)
      exact ⟨Or.inl hlt.le, fun _ hle => hle, Or.inl rfl, Or.inl ha, ht⟩
    have hme : (c'.modify c'.myself fun n => { n with config_epoch := c'.election.epoch }).me =
        { c'.me with config_epoch := c'.election.epoch } := node_modify_self ..
    unfold Cluster.failover_replace_master
    split
    · rename_i hnone
      -- raising the epoch does not change whose replica we are
      refine absurd ?_ hl
      have hid : ((c'.modify c'.myself fun n => { n with config_epoch := c'.election.epoch }).table.node
          c'.myself).master_id = (c'.table.node c'.myself).master_id := by
        rw [node_modify_self]
      unfold Table.lookup_master at hnone ⊢
      rw [show (c'.modify c'.myself _).myself = c'.myself from rfl, hid] at hnone
      exact hnone
    · rw [hme]
      split
      · rename_i hmaster
        refine hraise c'.todo (fun hfit => ?_) (.refl _)
        -- a master that is a replica does not fit, so nothing has to be saved
        unfold Fit at hfit
        rw [hr, show c'.me.master = true from hmaster] at hfit
        cases hfit
      · rename_i hmaster
        refine (hraise { c'.todo with save := true } (fun _ => rfl) ⟨fun _ => rfl, id⟩).replace_master
          ha hm ?_ env _
        exact (congrArg Node.master hme).trans (Bool.eq_false_iff.mpr hmaster)
  · exact h.failover_replace_master ha hm env

section

variable (hp : o.polls)
include hp

/-- Only the time and the rank of an election that has not begun. -/
theorem step_back (env : Env) : Changes o c (c'.step_back env) := by
  unfold Cluster.step_back
  exact ite (h.next (.elect (.held hp (Or.inl rfl)))) h

/-- A new epoch, and an election in it. -/
theorem start_election (env : Env) : Changes o c (c'.start_election env) := by
  have ha : Changes o c { c' with current_epoch := c'.current_epoch + 1 } :=
    h.next (.advance (Nat.le_succ _))
  have hnew : Changes o c { c' with
      current_epoch := c'.current_epoch + 1
      election := { c'.election with epoch := c'.current_epoch + 1 } } :=
    ha.next (.elect (.held hp (Or.inr le_rfl)))
  have hsent := hnew.broadcast (.request env c'.manual.mf_end.isSome) MsgType.noConfusion
  exact todo_update_state (todo_save (hsent.next (.elect (.held hp (Or.inl rfl)))))

/-- By the turn of the election: wait, schedule, ask for votes, or win. -/
theorem handle_replica_failover (ha : o.acts) (hm : o.msg = none) (env : Env) :
    Changes o c (c'.handle_replica_failover env) := by
  have ht := h.todo (t := { c'.todo with handle_failover := false }) ⟨id, id⟩
  unfold Cluster.handle_replica_failover
  dsimp only
  split
  · exact ht
  · unfold schedule_election
    refine broadcast_pong ?_ env
    split
    · exact todo_handle_failover (ht.next (.elect (.held hp (Or.inl rfl))))
    · exact ht.next (.elect (.held hp (Or.inl rfl)))
  · exact ht.step_back hp env
  · exact (ht.step_back hp env).start_election hp env
  · rename_i hturn
    have hfail : failing_master env { c' with todo := { c'.todo with handle_failover := false } } ≠
        none := by
      intro hnone
      unfold election_turn at hturn
      rw [if_pos hnone] at hturn
      cases hturn
    obtain ⟨hr, hl⟩ := of_failing_master hfail
    exact ht.win_election ha hm hr hl

end

/-! ## The loop -/

theorem handle_manual_failover (env : Env) : Changes o c (c'.handle_manual_failover env) := by
  have ht := h.todo (t := { c'.todo with handle_manual_failover := false }) ⟨id, id⟩
  unfold Cluster.handle_manual_failover
  exact ite (todo_handle_failover (ht.manual _)) ht

theorem manual_failover_check_timeout (env : Env) :
    Changes o c (c'.manual_failover_check_timeout env) := by
  unfold Cluster.manual_failover_check_timeout
  exact ite h.reset_manual_failover h

theorem free_link (n : NodeId) : Changes o c (c'.free_link n) :=
  h.row n fun _ => rfl

theorem finish_connect (env : Env) (n : NodeId) : Changes o c (c'.finish_connect env n) := by
  unfold Cluster.finish_connect
  split
  · refine ite (row (send_ping (h.row n ?_) env (some n) ?_) n ?_) h
    · exact fun _ => rfl
    · split
      · exact Or.inr (Or.inr rfl)
      · exact Or.inl rfl
    · exact fun _ => rfl
  · exact h

theorem tend_link (env : Env) (n : NodeId) : Changes o c (c'.tend_link env n) := by
  have hc : Changes o c (c'.connect_link env n) := by
    unfold Cluster.connect_link
    refine ite (h.row n ?_) h
    exact fun _ => rfl
  unfold Cluster.tend_link
  refine ite h ?_
  split
  · exact hc
  · exact ite (h.free_link n) h

theorem ping_random (env : Env) : Changes o c (c'.ping_random env) := by
  unfold Cluster.ping_random
  split
  · exact h
  · exact ite (h.send_ping env _ (Or.inl rfl)) h

theorem tend_ping (env : Env) (n : NodeId) : Changes o c (c'.tend_ping env n) := by
  unfold Cluster.tend_ping
  exact ite h (ite (ite (h.free_link n) h) (ite (h.send_ping env _ (Or.inl rfl)) h))

theorem ping_mf_replica (env : Env) : Changes o c (c'.ping_mf_replica env) := by
  unfold Cluster.ping_mf_replica
  split
  · exact h
  · exact ite (h.send_ping env _ (Or.inl rfl)) h

/-- A handshake that expires is not with ourselves. -/
theorem del_expired (hm : o.msg = none) {l : List NodeId}
    (hl : ∀ n ∈ l, n ≠ c'.myself) : Changes o c (l.foldl Cluster.del_node c') := by
  induction l generalizing c' with
  | nil => exact h
  | cons n l ih =>
    have hn : n ≠ c'.myself := hl n (List.mem_cons_self ..)
    have hone := del_node (refl (o := o) c') (Or.inr ⟨hm, hn⟩)
    refine ih (h.del_node (Or.inr ⟨hm, hn⟩)) fun x hx => ?_
    rw [hone.myself]
    exact hl x (List.mem_cons_of_mem _ hx)

/-- The first half of the cron: links, handshakes, the blacklist and pings. -/
theorem cron_links (hm : o.msg = none) (env : Env) : Changes o c (c'.cron_links env) := by
  have htend := foldl (fun c n => (refl (o := o) c).tend_link env n) c'.table.known c'
  have h₁ : Changes o c (c'.table.known.foldl (Cluster.tend_link env) c') :=
    Relation.ReflTransGen.trans h htend
  have h₂ := h₁.del_expired hm (l := c'.table.known.filter (c'.handshake_expired env)) <| by
    intro n hn
    rw [htend.myself]
    exact (of_decide_eq_true (List.mem_filter.mp hn).2).1
  have h₃ : Changes o c (expire_blacklist env _) :=
    h₂.same ⟨rfl, rfl, rfl, rfl, rfl, rfl, rfl, rfl, rfl, .refl _⟩
  exact Relation.ReflTransGen.trans (h₃.ping_random env)
    (foldl (fun c n => (refl c).tend_ping env n) _ _)

/-- What the cron does once it has looked for failures. -/
theorem cron_rest (hp : o.polls) (ha : o.acts) (hm : o.msg = none) (env : Env) :
    Changes o c ((((c'.ping_mf_replica env).manual_failover_check_timeout env).cron_failover
      env).follow_master.update_state env) := by
  have hb := (h.ping_mf_replica env).manual_failover_check_timeout env
  unfold cron_failover
  refine update_state (follow_master (ite ?_ hb)) env
  exact (hb.handle_manual_failover env).handle_replica_failover hp ha hm env

theorem cron (hp : o.polls) (ha : o.acts) (hm : o.msg = none) (hf : ∀ n, o.flags n) (env : Env) :
    Changes o c (c'.cron env) := by
  unfold Cluster.cron
  exact ite h (((h.cron_links hm env).detect_failures env hf).cron_rest hp ha hm env)

theorem flush_broadcast (env : Env) : Changes o c (c'.flush_broadcast env) := by
  have ht := h.todo (t := { c'.todo with broadcast := false }) ⟨id, id⟩
  unfold Cluster.flush_broadcast
  exact ite (ht.broadcast_pong env) h

/-- The flag is cleared with the save, or the save is lost. -/
theorem flush_config (env : Env) (hl : env.save = .failed → o.lossy) : Changes o c (c'.flush_config env) := by
  unfold Cluster.flush_config
  refine ite ?_ h
  unfold Cluster.save_config
  cases hsave : env.save with
  | saved => exact h.next (.save id)
  | failed => exact h.next (.lose (hl hsave) id)
  | renamed => exact h.next (.save id)

/-- What the handlers left, in the order of the source: the file comes last. -/
theorem before_sleep (hp : o.polls) (ha : o.acts) (hm : o.msg = none) (env : Env) {env' : Env}
    (hl : env'.save = .failed → o.lossy) : Changes o c (c'.before_sleep env env') := by
  have h₁ : Changes o c (c'.flush_manual_failover env) := ite (h.handle_manual_failover env) h
  have h₂ : Changes o c (flush_failover env _) := ite (h₁.handle_replica_failover hp ha hm env) h₁
  have h₃ : Changes o c (flush_state env _) := ite (h₂.update_state env) h₂
  exact (h₃.flush_broadcast env).flush_config env' hl

/-! ## Commands -/

omit h in
/-- ADDSLOTS passes only with slots that nobody has. -/
theorem owner_of_check_slots {seen slots : List Slot} (h : c.check_slots true seen slots = none)
    {s : Slot} (hs : s ∈ slots) : c.table.own.owner s = none := by
  induction slots generalizing seen with
  | nil => cases hs
  | cons a slots ih =>
    unfold Cluster.check_slots at h
    split at h
    · cases h
    · split at h
      · cases h
      · rename_i hbusy
        split at h
        · cases h
        · rcases List.mem_cons.mp hs with rfl | hs
          · by_contra hne
            exact hbusy ⟨rfl, hne⟩
          · exact ih h hs

section

variable (ha : o.acts) (hm : o.msg = none)
include ha hm

theorem cmd_addslots (argv : Args) (range add : Bool)
    (hf : add = false → ∀ slots, slot_args range (argv.drop 2) = .ok slots →
      ∀ s ∈ slots, o.frees s) : Changes o c (c'.cmd_addslots argv range add).2 := by
  unfold Cluster.cmd_addslots
  split
  · exact h
  · rename_i hrep
    split
    · exact h
    · rename_i slots hargs
      split
      · exact h
      · rename_i hcheck
        refine todo_broadcast (todo_save ?_)
        cases add with
        | false =>
          refine h.set_slots fun _ => .freed hm ha fun s hs => ?_
          exact hf rfl slots hargs s (List.mem_toFinset.mp hs)
        | true =>
          -- no slot that comes in is marked as on its way in
          have hdrop : Changes o c (c'.drop_importing slots.toFinset) := by
            refine h.unmark (fun _ => Or.inr rfl) fun s => ?_
            split
            · exact Or.inl rfl
            · exact Or.inr rfl
          refine hdrop.set_slots fun _ => .adopted hm (fun s hs => ⟨?_, if_pos hs⟩) ?_
          · exact owner_of_check_slots hcheck (List.mem_toFinset.mp hs)
          · exact Bool.eq_false_iff.mpr hrep

/-- The slot's marks are gone where they have to be, and then it changes hands. -/
theorem assign_slot {slot : Slot} (hp : c'.Proper n) (hr : (c'.table.node n).replica = false)
    (hk : c'.table.own.owner slot = some c'.myself → n ≠ c'.myself →
      c'.store.count_keys_in_slot slot = 0) : Changes o c (c'.assign_slot slot n) := by
  have hout : ∃ c₁, (if c'.store.count_keys_in_slot slot = 0 then c'.set_migrating slot none else c') =
      c₁ ∧ Changes o c c₁ ∧ c₁.Proper n ∧ (c₁.table.node n).replica = false ∧
      (n ≠ c₁.myself → c₁.table.own.owner slot = some c₁.myself → c₁.table.migrating_to slot = none) := by
    split
    · exact ⟨_, rfl, h.unmark (update_none_or _ slot) fun _ => Or.inr rfl, hp, hr,
        fun _ _ => Function.update_self ..⟩
    · rename_i hkeys
      exact ⟨c', rfl, h, hp, hr, fun hne hown => absurd (hk hown hne) hkeys⟩
  obtain ⟨c₁, heq, h₁, hp₁, hr₁, hmig⟩ := hout
  have hin : ∃ c₂, (if n = c₁.myself then c₁.set_importing slot none else c₁) = c₂ ∧ Changes o c c₂ ∧
      c₂.Proper n ∧ (c₂.table.node n).replica = false ∧
      (n = c₂.myself → c₂.table.importing_from slot = none) ∧
      (n ≠ c₂.myself → c₂.table.own.owner slot = some c₂.myself →
        c₂.table.migrating_to slot = none) := by
    split
    · exact ⟨_, rfl, h₁.unmark (fun _ => Or.inr rfl) (update_none_or _ slot), hp₁, hr₁,
        fun _ => Function.update_self .., hmig⟩
    · rename_i hne
      exact ⟨c₁, rfl, h₁, hp₁, hr₁, fun he => absurd he hne, hmig⟩
  obtain ⟨c₂, heq₂, h₂, hp₂, hr₂, hin₂, hout₂⟩ := hin
  have hs : Changes o c (c₂.set_slot slot (some n)) :=
    h₂.set_slots fun _ => .placed hm ha hp₂ hr₂ hin₂ hout₂
  unfold Cluster.assign_slot
  dsimp only
  rw [heq, heq₂]
  exact todo_broadcast (ite (hs.bump_epoch_without_consensus ha) hs)

omit h ha hm in
/-- A node found by its id, and not in a handshake. -/
theorem proper_of_find_node {id : Bytes}
    (h : ((c.find_node id).filter fun n => ¬ (c.table.node n).handshake) = some n) :
    c.Proper n ∧ parse_node_id id = some n := by
  obtain ⟨hfound, hmet⟩ := Option.filter_eq_some_iff.mp h
  obtain ⟨x, hid, hx⟩ := Option.bind_eq_some_iff.mp hfound
  unfold Table.lookup at hx
  split at hx
  · cases hx
    exact ⟨⟨by assumption, by simpa using hmet⟩, hid⟩
  · cases hx

/-- MIGRATING and IMPORTING set a mark, NODE hands the slot over. -/
theorem setslot_node (slot : Slot) {a : SlotAction}
    (hme : c'.me.replica = false) (hp : c'.Proper n) (hr : (c'.table.node n).replica = false)
    (hs : a = .migrating → o.sends n) : Changes o c (c'.setslot_node slot n a).2 := by
  cases a with
  | migrating =>
    simp only [Cluster.setslot_node]
    split
    · exact h
    · rename_i hown
      exact todo_save (h.next (.mark (.sent (not_not.mp hown) hp (hs rfl) hme)))
  | importing =>
    simp only [Cluster.setslot_node]
    split
    · exact h
    · rename_i hown
      exact todo_save (h.next (.mark (.accepted ha hown hp hme)))
  | node =>
    simp only [Cluster.setslot_node]
    split
    · exact h
    · rename_i hkeys
      refine todo_save (h.assign_slot ha hm hp hr fun hown hne => ?_)
      by_contra hpos
      exact hkeys ⟨hown, hne, Nat.pos_of_ne_zero hpos⟩

theorem cmd_setslot (argv : Args)
    (hs : ∀ x y z a id n, argv = [x, y, z, a, id] → slot_action (to_upper a) = some .migrating →
      parse_node_id id = some n → o.sends n) : Changes o c (c'.cmd_setslot argv).2 := by
  unfold Cluster.cmd_setslot
  split
  · exact h
  · rename_i hme
    split
    · split
      · exact h
      · split
        · split
          · exact h
          · exact todo_save (h.unmark (update_none_or _ _) (update_none_or _ _))
        · split
          · rename_i haction
            split
            · exact h
            · rename_i hfind
              obtain ⟨hp, hid⟩ := proper_of_find_node hfind
              split
              · exact h
              · rename_i hrep
                refine h.setslot_node ha hm _ (Bool.eq_false_iff.mpr hme) hp (Bool.eq_false_iff.mpr hrep)
                  ?_
                rintro rfl
                exact hs _ _ _ _ _ _ rfl haction hid
          · exact h
    · exact h

omit hm in
/-- Whoever turns replica by command is one already, or holds nothing. -/
theorem cmd_replicate (id : Bytes) : Changes o c (c'.cmd_replicate id).2 := by
  unfold Cluster.cmd_replicate
  split
  · exact h
  · rename_i hfind
    split
    · exact h
    · rename_i hne
      split
      · exact h
      · split
        · exact h
        · rename_i hbusy
          refine h.set_as_replica_of ha hne (Or.inl (proper_of_find_node hfind).1.1) ?_
          cases hmaster : c'.me.master with
          | false => exact Or.inl hmaster
          | true =>
            refine Or.inr (Or.inl ?_)
            by_contra hsize
            exact hbusy ⟨hmaster, Or.inr hsize⟩

omit ha in
theorem cmd_forget (env : Env) (id : Bytes) : Changes o c (c'.cmd_forget env id).2 := by
  have hb : ∀ n, Changes o c (c'.ban env n) :=
    fun _ => h.same ⟨rfl, rfl, rfl, rfl, rfl, rfl, rfl, rfl, rfl, .refl _⟩
  unfold Cluster.cmd_forget
  split
  · exact h
  · split
    · exact h
    · rename_i hne
      split
      · exact h
      · exact (hb _).del_node (Or.inr ⟨hm, hne⟩)

theorem cmd_failover (hc : o.cancels) (env : Env) (opt : Option Bytes) :
    Changes o c (c'.cmd_failover env opt).2 := by
  have hb : Changes o c (c'.begin_manual_failover env) := manual h.reset_manual_failover _
  have hr : ∀ m mode, Changes o c ((c'.begin_manual_failover env).run_failover env m mode) := by
    intro m mode
    cases mode with
    | coordinated =>
      exact (hb.next (.elect (.cleared hc))).send (some m) (.mf_start env) MsgType.noConfusion
    | force =>
      have hman := hb.manual { (c'.begin_manual_failover env).manual with can_start := true }
      exact todo_handle_failover (hman.next (.elect (.cleared hc)))
    | takeover => exact (hb.bump_epoch_without_consensus ha).failover_replace_master ha hm env
  unfold Cluster.cmd_failover
  repeat' split
  all_goals first
    | exact h
    | exact hr _ _

omit hm in
theorem cmd_set_config_epoch (arg : Bytes) : Changes o c (c'.cmd_set_config_epoch arg).2 := by
  unfold Cluster.cmd_set_config_epoch
  split
  · exact h
  · rename_i e _
    split
    · exact h
    · split
      · exact h
      · rename_i hzero
        have hadv : Changes o c { c' with current_epoch := max c'.current_epoch e } :=
          h.next (.advance (le_max_left _ _))
        have hz : c'.me.config_epoch = 0 := not_not.mp hzero
        refine hadv.edit_save (n := c'.myself) (f := fun n => { n with config_epoch := e })
          { Edit.refl o _ _ c'.myself with epoch := Or.inr ?_ } (.same rfl rfl)
        exact ⟨Or.inl (hz.le.trans (Nat.zero_le e)), fun _ _ => le_max_right _ _, Or.inl rfl, Or.inl ha,
          fun _ => rfl⟩

end

end

end Changes

/-- A MEET names two ports. -/
theorem meet_ports_lt {port : Bytes} {cport : Option Bytes} {p q : Nat}
    (h : meet_ports port cport = some (p, q)) : p < 2 ^ 16 ∧ q < 2 ^ 16 := by
  unfold meet_ports at h
  obtain ⟨a, -, h⟩ := Option.bind_eq_some_iff.mp h
  obtain ⟨b, -, h⟩ := Option.bind_eq_some_iff.mp h
  split at h
  · cases h
    omega
  · cases h

/-- The slots a command gives up: those a DELSLOTS or DELSLOTSRANGE names. -/
def Event.frees : Event → Slot → Prop
  | .command _ argv _, s =>
    ∃ range slots, find_subcommand (to_upper ((argv.drop 1).headD [])) = some (.slots range false) ∧
      slot_args range (argv.drop 2) = .ok slots ∧ s ∈ slots
  | _, _ => False

/-- The node a SETSLOT MIGRATING names. -/
def Event.sends : Event → NodeId → Prop
  | .command _ argv _, n =>
    find_subcommand (to_upper ((argv.drop 1).headD [])) = some .setslot ∧
      ∃ x y z a id, argv = [x, y, z, a, id] ∧ slot_action (to_upper a) = some .migrating ∧
        parse_node_id id = some n
  | _, _ => False

namespace Changes

variable {o : Cause} {c c' : Cluster} {env : Env}

section

variable (h : Changes o c c')
include h

/-- By the subcommand; those that only print change nothing. -/
theorem command (ha : o.acts) (hm : o.msg = none) (hc : o.cancels)
    (hd : ∀ ip port cport, o.drawn (env.random_id ip port cport)) (argv : Args) (error : Bytes)
    (hf : ∀ s, (Event.command env argv error).frees s → o.frees s)
    (hs : ∀ n, (Event.command env argv error).sends n → o.sends n) :
    Changes o c (c'.command env argv error).2 := by
  have hmeet : ∀ ip port cport, Changes o c (c'.cmd_meet env ip port cport).2 := by
    intro ip port cport
    unfold Cluster.cmd_meet
    split
    · exact h
    · rename_i hports
      split
      · exact h
      · exact h.start_handshake (hd _ _ _) (Or.inl (meet_ports_lt hports))
  have hcount : ∀ id, Changes o c (c'.cmd_count_failure_reports env id).2 := by
    intro id
    unfold Cluster.cmd_count_failure_reports
    split
    · exact h
    · exact h.count_fail_reports env _
  have hkeys : ∀ s, Changes o c (c'.cmd_countkeysinslot s).2 := by
    intro s
    unfold Cluster.cmd_countkeysinslot
    split <;> exact h
  have hsave : Changes o c (c'.cmd_saveconfig env error).2 := by
    unfold Cluster.cmd_saveconfig
    dsimp only
    split <;> exact h.save_config env
  unfold Cluster.command
  dsimp only
  split
  · exact h
  · rename_i sub hsub
    have hadd : ∀ range add, sub = .slots range add →
        Changes o c (c'.cmd_addslots argv range add).2 := by
      rintro range add rfl
      refine h.cmd_addslots ha hm argv range add ?_
      rintro rfl slots hargs s hmem
      exact hf s ⟨range, slots, hsub, hargs, hmem⟩
    have hset : sub = .setslot → Changes o c (c'.cmd_setslot argv).2 := by
      rintro rfl
      refine h.cmd_setslot ha hm argv fun x y z a id n hargv haction hid => ?_
      exact hs n ⟨hsub, x, y, z, a, id, hargv, haction, hid⟩
    unfold run_subcommand
    split
    all_goals first
      | exact h
      | exact hadd _ _ rfl
      | exact hset rfl
      | exact hmeet _ _ _
      | exact h.cmd_replicate ha _
      | exact h.cmd_forget hm env _
      | exact h.cmd_failover ha hm hc env _
      | exact h.cmd_set_config_epoch ha _
      | exact h.bump_epoch_without_consensus ha
      | exact hsave
      | exact hkeys _
      | exact hcount _
      | skip
    split
    · exact h
    · exact hadd _ _ rfl

/-! ## Start -/

/-- Keys in slots that are not ours: a free slot is adopted, any other is marked. -/
theorem verify_config_with_data (hm : o.msg = none) (env : Env) :
    Changes o c (c'.verify_config_with_data env) := by
  unfold Cluster.verify_config_with_data
  split
  · exact h
  · rename_i hrep
    have hme : c'.me.replica = false := Bool.eq_false_iff.mpr hrep
    have hf : Changes o c (c'.mark_importing (c'.foreign_slots.filter fun s =>
        c'.table.own.owner s ≠ none)) := by
      refine h.next (.mark (.foreign hm (fun s hs => ?_) hme))
      exact (Finset.mem_filter.mp (Finset.mem_filter.mp hs).1).2.1
    have hown : Assigns o (c'.mark_importing (c'.foreign_slots.filter fun s =>
        c'.table.own.owner s ≠ none)) (c'.foreign_slots.filter fun s => c'.table.own.owner s = none)
        (some c'.myself) := by
      refine .adopted hm (fun s hs => ?_) hme
      obtain ⟨hforeign, hfree⟩ := Finset.mem_filter.mp hs
      have hnot : s ∉ c'.foreign_slots.filter fun s => c'.table.own.owner s ≠ none :=
        fun hmem => (Finset.mem_filter.mp hmem).2 hfree
      exact ⟨hfree, (if_neg hnot).trans (Finset.mem_filter.mp hforeign).2.2⟩
    have ha := hf.set_slots fun _ => hown
    exact update_state (ite ha ha.todo_save) env

theorem start (env : Env) : Changes o c (c'.start env) := by
  have hdown : Changes o c { c' with state_ok := false } :=
    h.next (.judge (t := c'.todo) nofun id)
  have hup : Changes o c { c' with
      host := true, writable_after := env.now + kWritableDelay, state_ok := false } :=
    hdown.same ⟨rfl, rfl, rfl, rfl, rfl, rfl, rfl, rfl, rfl, .refl _⟩
  exact update_state (follow_master hup) env

end

end Changes

/-- What a process does from reading its file to the first event. -/
theorem changes_restart (hm : o.msg = none) (env : Env) (c : Cluster) (store : Store) :
    Changes o (from_config env c.options c.disk store) (c.restart env store) := by
  have hown : Changes o (from_config env c.options c.disk store)
      (from_config env c.options c.disk store).own_address :=
    (Changes.refl _).edit { Edit.refl o _ _ _ with ports := Or.inr (Or.inr ⟨rfl, rfl⟩) } (.same rfl rfl)
  have hload : Changes o (from_config env c.options c.disk store)
      (load_config env c.options c.disk store) := (hown.update_state env).next (.save id)
  exact (hload.verify_config_with_data hm env).start env

/-! ## Whole events -/

/-- The surroundings an event comes with. -/
def Event.envs : Event → List Env
  | .packet env _ _ | .command env _ _ | .cron env | .connected env _ | .stall env
  | .restart env _ => [env]
  | .before_sleep env env' => [env, env']
  | .lost_link _ | .data _ => []

/-- The ids an event may draw for the nodes it meets. -/
def Event.draws (e : Event) (id : NodeId) : Prop :=
  ∃ env ∈ e.envs, ∃ ip port cport, id = env.random_id ip port cport

def Event.loses (e : Event) : Prop := ∃ env ∈ e.envs, env.save = .failed

/-- The event is a packet on the link of a placeholder, or of a node whose id it draws. -/
def Event.opens (c : Cluster) : Event → Prop
  | e@(.packet _ l _) => ∃ n, l.node = some n ∧ ((c.table.node n).handshake = true ∨ e.draws n)
  | _ => False

def Event.is_command : Event → Bool
  | .command .. => true
  | _ => false

/-- The loop's own turns: only they look after our election. -/
def Event.polls : Event → Bool
  | .cron _ | .before_sleep .. => true
  | _ => false

/-- Connections and the clock decide nothing. -/
def Event.acts (e : Event) : Bool := e.message.isSome || e.is_command || e.polls

/-- The nodes an event may flag as failing: those a message reports, and in the cron any. -/
def Event.flags : Event → NodeId → Prop
  | .packet _ _ m, n => m.type = .kFail ∧ n = m.fail_id ∨ ∃ g ∈ m.gossip, n = g.id
  | .cron _, _ => True
  | _, _ => False

/-- Clients, expiry and replication change the keyspace. -/
def Event.is_data : Event → Bool
  | .data _ => true
  | _ => false

def Event.cause (c : Cluster) (e : Event) : Cause where
  msg := e.message
  met := c.Proper
  drawn := e.draws
  lossy := e.loses
  had := c.table.own.slots c.myself ≠ ∅
  opens := e.opens c
  acts := e.acts
  polls := e.polls
  cancels := e.is_command
  flags := e.flags
  frees := e.frees
  sends := e.sends
  traffic := e.is_data

/-- **An event, in changes.** -/
theorem changes_handle (c : Cluster) {e : Event} (he : e.is_restart = false) :
    Changes (e.cause c) c (c.handle e) := by
  have hc := Changes.refl (o := e.cause c) c
  have hone : ∀ env ∈ e.envs, ∀ ip port cport, (e.cause c).drawn (env.random_id ip port cport) :=
    fun env henv ip port cport => ⟨env, henv, ip, port, cport, rfl⟩
  cases e with
  | packet env l msg =>
    exact changes_process_packet rfl rfl rfl (fun hne => hne) (hone env (List.mem_singleton_self _)) l
      (fun n hn hh => ⟨n, hn, hh⟩) (fun g hg => Or.inr ⟨g, hg, rfl⟩) fun ht => Or.inl ⟨ht, rfl⟩
  | command env argv error =>
    exact hc.command rfl rfl rfl (hone env (List.mem_singleton_self _)) argv error (fun _ h => h) fun _ h => h
  | cron env => exact hc.cron rfl rfl rfl (fun _ => trivial) env
  | before_sleep env env' =>
    exact hc.before_sleep rfl rfl rfl env fun h => ⟨env', by simp [Event.envs], h⟩
  | connected env n => exact hc.finish_connect env n
  | lost_link n => exact hc.free_link n
  | stall env =>
    have hdown : Changes (Event.cause c (.stall env)) c { c with state_ok := false } :=
      hc.next (.judge (t := c.todo) nofun id)
    exact hdown.same ⟨rfl, rfl, rfl, rfl, rfl, rfl, rfl, rfl, rfl, .refl _⟩
  | data store => exact hc.next (.keys (Or.inl rfl))
  | restart env store => cases he

/-- The ids the event draws are new: nobody is known under them, and its message does not
come from one. -/
def Event.Novel (c : Cluster) (e : Event) : Prop :=
  ∀ id, e.draws id → id ∉ c.table.known ∧ ∀ m ∈ e.message, id ≠ m.sender

theorem Event.Novel.cause {e : Event} (h : e.Novel c) : Cause.Novel (e.cause c) c where
  proper id hid hp := (h id hid).1 hp.1
  sender m hm hd := (h _ hd).2 m hm rfl

theorem Event.Novel.clear {e : Event} (h : e.Novel c) : e.Novel { c with sent := [] } := h

/-- **A step, in changes**: from where the node was, or from its file. -/
theorem step_cases (c : Cluster) (e : Event) :
    e.is_restart = false ∧ Changes (e.cause { c with sent := [] }) { c with sent := [] } (c.step e) ∨
      ∃ env store, e = .restart env store ∧
        Changes Cause.still (from_config env c.options c.disk store) (c.step e) := by
  cases he : e.is_restart with
  | false => exact Or.inl ⟨rfl, changes_handle _ he⟩
  | true =>
    cases e with
    | restart env store => exact Or.inr ⟨env, store, rfl, changes_restart rfl env _ store⟩
    | _ => cases he

/-- The first start of a process, in changes. -/
theorem changes_first_start (env : Env) (options : Options) (store : Store) (id : NodeId) :
    Changes Cause.still (from_config env options (first_conf id) store)
      (first_start env options store id) :=
  changes_restart rfl env (from_config env options (first_conf id) store) store

theorem First.changes (h : First c) : ∃ env options store id,
    Changes Cause.still (from_config env options (first_conf id) store) c := by
  obtain ⟨env, options, store, id, rfl⟩ := h
  exact ⟨env, options, store, id, changes_first_start env options store id⟩

end Cluster

end EpochKV

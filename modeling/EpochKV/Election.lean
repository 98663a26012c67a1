/-
What one event can do to a node's election.

The election state of a replica (`time`, `sent`, `count`, `epoch`) is written in few
places, and this file finds them all (`election_cases`): a vote is counted, an election
is scheduled, votes are asked for, CLUSTER FAILOVER clears the time, and a restart
clears everything. Becoming a replica, or the replica of another master, is not among
them: an election that was won, or is still running, stays as it is.
-/
import EpochKV.Ballots

set_option autoImplicit false

namespace EpochKV

open Text Commands

namespace Cluster

/-! ## Where the election is looked at -/

/-- The state in which `handle_replica_failover` runs when the event is handled, and the
time it is then, if it runs at all. -/
def at_election (c : Cluster) (e : Event) : Option (Env × Cluster) :=
  let c := { c with sent := [] }
  match e with
  | .cron env =>
    let c' := (((c.cron_links env).detect_failures env).ping_mf_replica env)
      |>.manual_failover_check_timeout env
    if c.host ∧ c'.me.replica then some (env, c'.handle_manual_failover env) else none
  | .before_sleep env _ =>
    let c := c.flush_manual_failover env
    if c.todo.handle_failover ∧ c.host then some (env, c) else none
  | _ => none

/-- What `handle_replica_failover` decides, if it runs. -/
def turn (c : Cluster) (e : Event) : Option Turn :=
  (c.at_election e).map fun p => p.2.election_turn p.1

/-- A vote arrives that is counted. -/
def counts (c : Cluster) (msg : Message) : Bool :=
  msg.type = .kFailoverAuthAck ∧ (c.sender_of msg).any fun n => c.counts_vote n msg

end Cluster

/-- A node's place in the cluster. -/
def Node.place (n : Node) : Bool × Bool × Option NodeId × Nat :=
  (n.master, n.replica, n.master_id, n.config_epoch)

variable {c : Cluster} {env : Env} {c₁ : Cluster} {o : Cause} {c' : Cluster} {n : NodeId}

namespace Cluster

/-! ## What the changes say -/

/-- Without a message or a decision, every node keeps its place. -/
theorem Change.place (h : Change o c c') (ha : ¬ o.acts) (hm : o.msg = none) (hd : ¬ o.drawn n) :
    (c'.table.node n).place = (c.table.node n).place := by
  cases h.rewrites n with
  | edited he _ =>
    have hrole := he.role.resolve_right fun hr => ha hr.1
    have hid := he.master_id.resolve_right fun hr => ha hr.1
    have hepoch := he.epoch.resolve_right fun hr => hr.why.elim ha fun hw => hw.2 hm
    exact Prod.ext hrole.1 (Prod.ext hrole.2 (Prod.ext hid hepoch))
  | created hdrawn _ => exact absurd hdrawn hd
  | met hi _ _ => exact absurd hi.acts ha

/-- The election is touched by votes, by the loop and by CLUSTER FAILOVER only. -/
theorem Change.election_eq (h : Change o c c') (hp : ¬ o.polls) (hx : ¬ o.cancels)
    (hm : ∀ m, o.msg = some m → m.type ≠ .kFailoverAuthAck) : c'.election = c.election := by
  cases h with
  | aside hs => exact hs.election
  | elect he =>
    cases he with
    | counted hmsg ht => exact absurd ht (hm _ hmsg)
    | cleared hc => exact absurd hc hx
    | held hpolls _ => exact absurd hpolls hp
  | _ => rfl

theorem Changes.place (h : Changes o c c') (ha : ¬ o.acts) (hm : o.msg = none) (hd : ¬ o.drawn n) :
    (c'.table.node n).place = (c.table.node n).place :=
  h.invariant (P := fun a => (a.table.node n).place = (c.table.node n).place)
    (fun _ _ ih hs => (hs.place ha hm hd).trans ih) rfl

theorem Changes.election_eq (h : Changes o c c') (hp : ¬ o.polls) (hx : ¬ o.cancels)
    (hm : ∀ m, o.msg = some m → m.type ≠ .kFailoverAuthAck) : c'.election = c.election :=
  h.invariant (P := fun a => a.election = c.election)
    (fun _ _ ih hs => (hs.election_eq hp hx hm).trans ih) rfl

/-- Housekeeping leaves the election alone. -/
theorem Changes.election_of_still (h : Changes Cause.still c c') : c'.election = c.election :=
  h.election_eq (fun hp => hp) (fun hx => hx) nofun

/-- What the cron does before it looks at the election. -/
theorem changes_before_election (env : Env) (c : Cluster) :
    Changes Cause.still c ((((c.cron_links env).detect_failures env).ping_mf_replica env)
      |>.manual_failover_check_timeout env) :=
  ((((Changes.refl c).cron_links rfl env).detect_failures env fun _ => trivial).ping_mf_replica env)
    |>.manual_failover_check_timeout env

/-- Up to the election an event is housekeeping. -/
theorem at_election_spec {e : Event} (h : c.at_election e = some (env, c₁)) :
    Changes Cause.still { c with sent := [] } c₁ := by
  cases e with
  | cron env' =>
    simp only [at_election] at h
    split at h
    · obtain ⟨rfl, rfl⟩ := Prod.mk.inj (Option.some.inj h)
      exact (changes_before_election env' _).handle_manual_failover env'
    · cases h
  | before_sleep env' env'' =>
    simp only [at_election] at h
    split at h
    · obtain ⟨rfl, rfl⟩ := Prod.mk.inj (Option.some.inj h)
      exact Changes.ite ((Changes.refl _).handle_manual_failover _) (Changes.refl _)
    · cases h
  | _ => cases h

/-! ## What becomes of the election -/

/-- The header of a message changes neither the election nor whether a node serves slots. -/
theorem note_sender_spec (c : Cluster) (n : NodeId) (msg : Message) (m : NodeId) :
    (c.note_sender n msg).election = c.election ∧
      (c.note_sender n msg).table.serves m = c.table.serves m := by
  have hrow : ∀ (c' : Cluster) (f : Node → Node), (∀ r, (f r).master = r.master) →
      (c'.modify n f).todo_save.table.serves m = c'.table.serves m := by
    intro c' f hf
    rw [table_todo_save]
    exact serves_modify c' n hf m
  have hepochs : (c.note_epochs n msg).election = c.election ∧
      (c.note_epochs n msg).table.serves m = c.table.serves m := by
    unfold note_epochs
    dsimp only
    split <;>
    · split
      · exact ⟨rfl, hrow _ _ fun _ => rfl⟩
      · exact ⟨rfl, rfl⟩
  have hports : ∀ c' : Cluster, (c'.note_ports n msg).election = c'.election ∧
      (c'.note_ports n msg).table.serves m = c'.table.serves m := by
    intro c'
    unfold note_ports
    dsimp only
    split
    · exact ⟨rfl, hrow _ _ fun _ => rfl⟩
    · exact ⟨rfl, rfl⟩
  have hoffset : ∀ c' : Cluster, (c'.note_offset n msg).election = c'.election ∧
      (c'.note_offset n msg).table.serves m = c'.table.serves m := by
    intro c'
    have hserves : (c'.modify n fun r => { r with repl_offset := msg.repl_offset }).table.serves m
        = c'.table.serves m := by
      refine serves_modify c' n ?_ m
      exact fun _ => rfl
    unfold note_offset
    dsimp only
    split <;> exact ⟨rfl, hserves⟩
  exact ⟨(hoffset _).1.trans ((hports _).1.trans hepochs.1),
    (hoffset _).2.trans ((hports _).2.trans hepochs.2)⟩

/-- A packet leaves the election alone, unless it is a vote that counts. -/
theorem election_process_packet (env : Env) (c : Cluster) (l : Inlet) (msg : Message) :
    (c.process_packet env l msg).election =
      if c.counts msg then { c.election with count := c.election.count + 1 } else c.election := by
  by_cases hack : msg.type = .kFailoverAuthAck
  · unfold process_packet counts on_message
    rw [hack]
    cases c.sender_of msg with
    | none => simp
    | some n =>
      obtain ⟨hel, hserves⟩ := note_sender_spec c n msg n
      have hcounts : (c.note_sender n msg).counts_vote n msg = c.counts_vote n msg := by
        unfold counts_vote
        rw [hel, hserves]
      show ((c.note_sender n msg).on_auth_ack n msg).election = _
      unfold on_auth_ack
      rw [hcounts]
      by_cases hv : c.counts_vote n msg
      · simp [hv, todo_handle_failover, hel]
      · simp [hv, hel]
  · have hnot : ¬ c.counts msg = true := by
      unfold counts
      simp [hack]
    rw [if_neg hnot]
    have hcs := changes_handle c (e := .packet env l msg) rfl
    refine hcs.election_eq nofun nofun ?_
    rintro m hm
    cases hm
    exact hack

/-- While votes are asked for, a sibling that is ahead does not push us back. -/
theorem step_back_of_sent (h : c.election.sent = true) : c.step_back env = c := by
  unfold step_back
  simp [h]

theorem election_step_back (env : Env) (c : Cluster) :
    (c.step_back env).election.sent = c.election.sent ∧
      (c.step_back env).election.count = c.election.count ∧
      (c.step_back env).election.epoch = c.election.epoch := by
  unfold step_back
  dsimp only
  split <;> exact ⟨rfl, rfl, rfl⟩

theorem election_failover_replace_master (env : Env) (c : Cluster) :
    (c.failover_replace_master env).election = c.election :=
  ((Changes.refl (o := { Cause.still with acts := True }) c).failover_replace_master trivial rfl env)
    |>.election_eq (fun hp => hp) (fun hx => hx) nofun

theorem step_back_todo (env : Env) (c : Cluster) (t : Todo) :
    step_back env { c with todo := t } = { c.step_back env with todo := t } := by
  have hrank : replica_rank env { c with todo := t } = c.replica_rank env := rfl
  unfold step_back
  rw [hrank]
  dsimp only
  split <;> rfl

theorem election_turn_todo (env : Env) (c : Cluster) (t : Todo) :
    election_turn env { c with todo := t } = c.election_turn env := by
  unfold election_turn
  rw [step_back_todo]
  rfl

/-- Neither winning an election nor losing it closes it. -/
theorem election_handle_replica_failover (env : Env) (c : Cluster) :
    (c.handle_replica_failover env).election =
      match c.election_turn env with
      | .rest | .promote => c.election
      | .schedule => (c.schedule_election env).election
      | .wait => (c.step_back env).election
      | .request =>
        { (c.step_back env).election with epoch := c.current_epoch + 1, sent := true } := by
  unfold handle_replica_failover
  dsimp only
  rw [election_turn_todo]
  cases c.election_turn env with
  | rest => rfl
  | schedule =>
    unfold schedule_election
    dsimp only
    split <;> rfl
  | wait =>
    rw [step_back_todo]
  | request =>
    have hcur : (c.step_back env).current_epoch = c.current_epoch := by
      unfold step_back
      dsimp only
      split <;> rfl
    rw [step_back_todo, ← hcur]
    rfl
  | promote =>
    unfold win_election
    rw [election_failover_replace_master]
    split <;> rfl

theorem sent_of_request (h : c.election_turn env = .request) : c.election.sent = false := by
  by_contra hsent
  unfold election_turn at h
  split at h
  · cases h
  · split at h
    · cases h
    · dsimp only at h
      repeat' split at h
      all_goals cases h

/-- When the election is won: our master is known, the election is not too old, and the
votes are there. -/
theorem of_promote (h : c.election_turn env = .promote) :
    c.failing_master env ≠ none ∧ c.election.sent = true ∧
      (∃ t, c.election.time = some t ∧ env.now - t ≤ c.auth_timeout) ∧
      c.table.needed_quorum ≤ c.election.count := by
  unfold election_turn at h
  split at h
  · cases h
  · rename_i hmaster
    split at h
    · cases h
    · rename_i t ht
      split at h
      · cases h
      · dsimp only at h
        split at h
        · cases h
        · rename_i hdue
          split at h
          · cases h
          · rename_i hsent
            have hs : c.election.sent = true := by simpa using hsent
            rw [step_back_of_sent hs, ht] at hdue
            split at h
            · rename_i hq
              refine ⟨hmaster, hs, ⟨t, ht, ?_⟩, hq⟩
              exact not_lt.mp fun hlt => hdue (Or.inr hlt)
            · cases h

/-! ## One event -/

/-- The election is as it was, up to its schedule; once votes are asked for, the schedule
can only be cleared. -/
structure Kept (e e' : Election) : Prop where
  sent : e'.sent = e.sent
  count : e'.count = e.count
  epoch : e'.epoch = e.epoch
  time : e.sent = true → e'.time = e.time ∨ e'.time = none

theorem Kept.refl (e : Election) : Kept e e := ⟨rfl, rfl, rfl, fun _ => Or.inl rfl⟩

theorem Kept.of_eq {e e' : Election} (h : e' = e) : Kept e e' := h ▸ Kept.refl e

theorem Kept.trans {e e' e'' : Election} (h : Kept e e') (h' : Kept e' e'') : Kept e e'' where
  sent := h'.sent.trans h.sent
  count := h'.count.trans h.count
  epoch := h'.epoch.trans h.epoch
  time hs := by
    rcases h'.time (h.sent.trans hs) with he | he
    · rw [he]
      exact h.time hs
    · exact Or.inr he

/-- Without a message, all that can happen to the election outside the loop is that it is
started over. -/
theorem Change.election_kept (h : Change o c c') (hp : ¬ o.polls) (hm : o.msg = none) :
    Kept c.election c'.election := by
  cases h with
  | aside hs => exact Kept.of_eq hs.election
  | elect he =>
    cases he with
    | counted hmsg _ =>
      rw [hm] at hmsg
      cases hmsg
    | cleared _ => exact ⟨rfl, rfl, rfl, fun _ => Or.inr rfl⟩
    | held hpolls _ => exact absurd hpolls hp
  | _ => exact Kept.refl _

theorem Changes.election_kept (h : Changes o c c') (hp : ¬ o.polls) (hm : o.msg = none) :
    Kept c.election c'.election :=
  h.invariant (P := fun a => Kept c.election a.election)
    (fun _ _ ih hs => ih.trans (hs.election_kept hp hm)) (Kept.refl _)

/-- The rest of `before_sleep`, its save included. -/
theorem election_flush (env env' : Env) (c : Cluster) :
    (((c.flush_state env).flush_broadcast env).flush_config env').election = c.election := by
  have hs : Changes { Cause.still with lossy := True } c (c.flush_state env) :=
    Changes.ite ((Changes.refl c).update_state env) (Changes.refl c)
  have hf := (hs.flush_broadcast env).flush_config env' fun _ => trivial
  exact hf.election_eq (fun hp => hp) (fun hx => hx) nofun

/-- What follows the election in an event leaves it alone. -/
theorem election_of_at_election {e : Event} (h : c.at_election e = some (env, c₁)) :
    (c.step e).election = (c₁.handle_replica_failover env).election := by
  cases e with
  | cron env' =>
    simp only [at_election] at h
    split at h
    · rename_i hc
      obtain ⟨rfl, rfl⟩ := Prod.mk.inj (Option.some.inj h)
      show (Cluster.cron _ _).election = _
      unfold cron cron_failover
      dsimp only
      rw [if_neg (by simpa using hc.1), if_pos hc.2]
      exact (Changes.update_state (Changes.follow_master (Changes.refl _)) _).election_of_still
    · cases h
  | before_sleep env' env'' =>
    simp only [at_election] at h
    split at h
    · rename_i hc
      obtain ⟨rfl, rfl⟩ := Prod.mk.inj (Option.some.inj h)
      show (Cluster.before_sleep _ _ _).election = _
      unfold before_sleep flush_failover
      rw [if_pos hc]
      exact election_flush _ _ _
    · cases h
  | _ => cases h

/-- A new process has no election. -/
theorem election_restart (env : Env) (c : Cluster) (store : Store) :
    (c.restart env store).election = {} :=
  (changes_restart (o := Cause.still) rfl env c store).election_of_still

/-- If the election is not looked at, only a vote or CLUSTER FAILOVER can touch it, or a
restart. -/
theorem election_of_not_at_election {e : Event} (h : c.at_election e = none) :
    (∃ env l msg, e = .packet env l msg ∧ c.counts msg ∧
      (c.step e).election = { c.election with count := c.election.count + 1 }) ∨
    Kept c.election (c.step e).election ∨
    (c.step e).election.sent = false ∧ (c.step e).election.count = 0 := by
  cases e with
  | packet env l msg =>
    have he : (c.step (.packet env l msg)).election = _ :=
      election_process_packet env { c with sent := [] } l msg
    by_cases hv : c.counts msg
    · exact Or.inl ⟨env, l, msg, rfl, hv, he.trans (if_pos hv)⟩
    · exact Or.inr (Or.inl (Kept.of_eq (he.trans (if_neg hv))))
  | command env argv error =>
    have hcs := changes_handle { c with sent := [] } (e := .command env argv error) rfl
    exact Or.inr (Or.inl (hcs.election_kept nofun rfl))
  | cron env =>
    refine Or.inr (Or.inl (Kept.of_eq ?_))
    simp only [at_election] at h
    split at h
    · cases h
    · rename_i hc
      show (Cluster.cron _ _).election = _
      unfold cron cron_failover
      dsimp only
      split
      · rfl
      · rename_i hhost
        rw [if_neg fun hr => hc ⟨by simpa using hhost, hr⟩]
        have hb := changes_before_election env { c with sent := [] }
        have hel := (Changes.update_state hb.follow_master env).election_of_still
        exact hel
  | before_sleep env env' =>
    refine Or.inr (Or.inl (Kept.of_eq ?_))
    simp only [at_election] at h
    split at h
    · cases h
    · rename_i hc
      show (Cluster.before_sleep _ _ _).election = _
      unfold before_sleep flush_failover
      rw [if_neg hc]
      have hm : Changes Cause.still { c with sent := [] }
          (flush_manual_failover env { c with sent := [] }) :=
        Changes.ite ((Changes.refl _).handle_manual_failover env) (Changes.refl _)
      have hel := hm.election_of_still
      exact (election_flush env env' _).trans hel
  | connected env n =>
    have hcs := changes_handle { c with sent := [] } (e := .connected env n) rfl
    exact Or.inr (Or.inl (hcs.election_kept nofun rfl))
  | lost_link | stall | data => exact Or.inr (Or.inl (Kept.refl _))
  | restart env store =>
    have he : (c.step (.restart env store)).election = {} := election_restart env _ store
    exact Or.inr (Or.inr ⟨congrArg Election.sent he, congrArg Election.count he⟩)

/-- **What one event can do to the election.** -/
theorem election_cases (c : Cluster) (e : Event) :
    (∃ env l msg, e = .packet env l msg ∧ c.counts msg ∧
      (c.step e).election = { c.election with count := c.election.count + 1 }) ∨
    Kept c.election (c.step e).election ∨
    ((c.step e).election.sent = false ∧ (c.step e).election.count = 0) ∨
    (c.turn e = some .request ∧ c.election.sent = false ∧ (c.step e).election.sent = true ∧
      (c.step e).election.count = c.election.count ∧ c.current_epoch < (c.step e).election.epoch) := by
  cases ha : c.at_election e with
  | none =>
    rcases election_of_not_at_election ha with h | h | h
    · exact Or.inl h
    · exact Or.inr (Or.inl h)
    · exact Or.inr (Or.inr (Or.inl h))
  | some p =>
    obtain ⟨env, c₁⟩ := p
    have hstep := election_of_at_election ha
    have hcs := at_election_spec ha
    rw [election_handle_replica_failover] at hstep
    have hturn : c.turn e = some (c₁.election_turn env) := by
      unfold turn
      rw [ha]
      rfl
    have hel := hcs.election_of_still
    change c₁.election = c.election at hel
    rw [hturn]
    cases ht : c₁.election_turn env with
    | rest | promote =>
      rw [ht] at hstep
      exact Or.inr (Or.inl (Kept.of_eq (hstep.trans hel)))
    | schedule =>
      rw [ht] at hstep
      refine Or.inr (Or.inr (Or.inl ?_))
      rw [hstep]
      unfold schedule_election
      dsimp only
      split <;> exact ⟨rfl, rfl⟩
    | wait =>
      rw [ht] at hstep
      refine Or.inr (Or.inl ?_)
      obtain ⟨hs, hc, hep⟩ := election_step_back env c₁
      rw [hstep, ← hel]
      refine ⟨hs, hc, hep, fun hsent => Or.inl ?_⟩
      rw [step_back_of_sent hsent]
    | request =>
      rw [ht] at hstep
      obtain ⟨hs, hc, -⟩ := election_step_back env c₁
      refine Or.inr (Or.inr (Or.inr ⟨rfl, ?_, ?_, ?_, ?_⟩))
      · rw [← hel]
        exact sent_of_request ht
      · rw [hstep]
      · rw [hstep, ← hel]
        exact hc
      · rw [hstep]
        exact Nat.lt_succ_of_le hcs.current_le

end Cluster

end EpochKV

/-
The end of a round, and the loop.

Commands that met a dead node, a CLUSTERDOWN or a TRYAGAIN share one wait and one
reload of the slot map (`settled_settle`). The reload talks to nodes over the cached
connections, so it too has to leave them in step; what it adds to the log belongs to
no command.

`turn_round` puts the three stages of a round together, and `run_turns` is the rule by
which everything about `_execute` is proved: what one round keeps, and what holds
wherever the loop may stop.
-/
import EpochKV.Kvclient.Rounds

set_option autoImplicit false

namespace EpochKV.Kvclient

open Text Resp

/-! ## Reloading the map -/

/-- Receipts of no command of the batch may have been added. -/
structure Between (c c' : Client) : Prop where
  log : ∀ i, of_tag i c'.log = of_tag i c.log
  round : c'.round = c.round

theorem Between.refl (c : Client) : Between c c := ⟨fun _ => rfl, rfl⟩

variable {c c' : Client} {a : Addr} {py : Python} {net : Network} {j : Job} {ship : List Receipt}
  {pending : List Nat}

theorem Between.trans {d e : Client} (h : Between c d) (h' : Between d e) : Between c e :=
  ⟨fun i => (h'.log i).trans (h.log i), h'.round.trans h.round⟩

theorem Aside.between (h : Aside a c c') : Between c c' :=
  ⟨fun i => by rw [h.log], h.round⟩

/-- Only the list of nodes and the map have changed. -/
structure Remapped (c c' : Client) : Prop where
  between : Between c c'
  conns : c'.conns = c.conns

theorem Remapped.refl (c : Client) : Remapped c c := ⟨Between.refl c, rfl⟩

theorem Remapped.trans {d e : Client} (h : Remapped c d) (h' : Remapped d e) : Remapped c e :=
  ⟨h.between.trans h'.between, h'.conns.trans h.conns⟩

theorem Remapped.instep (h : Remapped c c') (hs : c.InStep) : c'.InStep := by
  intro a k hk
  rw [h.conns] at hk
  exact hs a k hk

theorem remapped_learn (c : Client) (a : Addr) : Remapped c (c.learn a) :=
  ⟨(aside_learn a c a).between, learn_conns c a⟩

theorem remapped_load_nodes (nodes : List Value) (c : Client) : Remapped c (load_nodes nodes c).2 := by
  induction nodes generalizing c with
  | nil => exact Remapped.refl c
  | cons node nodes ih =>
    unfold load_nodes
    split
    case h_1 => exact Remapped.refl c
    case h_2 a _ => exact (remapped_learn c a).trans (ih (c.learn a))

theorem remapped_load_ranges (ranges : List Value) (slots : List (Option Addr)) (c : Client) :
    Remapped c (load_ranges ranges slots c).2 := by
  induction ranges generalizing slots c with
  | nil => exact Remapped.refl c
  | cons range ranges ih =>
    unfold load_ranges
    split
    case h_1 first last nodes =>
      have hn := remapped_load_nodes nodes c
      split
      case h_1 e c' hl => rw [hl] at hn; exact hn
      case h_2 c' hl =>
        rw [hl] at hn
        split
        case h_1 => exact hn.trans (ih _ c')
        case h_2 => exact hn
    case h_2 => exact Remapped.refl c

theorem remapped_load_map (v : Value) (c : Client) : Remapped c (c.load_map v).2 := by
  unfold Client.load_map
  split
  case h_1 => exact Remapped.refl c
  case h_2 ranges _ =>
    have h := remapped_load_ranges ranges (List.replicate SLOTS none) c
    split
    case h_1 e c' hl => rw [hl] at h; exact h
    case h_2 slots c' hl =>
      rw [hl] at h
      exact ⟨⟨h.between.log, h.between.round⟩, h.conns⟩

/-! ### Maps of a clean network -/

/-- Every owner in the map has a port that is a number. -/
structure GoodMap (slots : List (Option Addr)) : Prop where
  length : slots.length = SLOTS
  owners : ∀ a, some a ∈ slots → a.Numbered

theorem goodMap_replicate {o : Option Addr} (h : ∀ a, o = some a → a.Numbered) :
    GoodMap (List.replicate SLOTS o) :=
  ⟨List.length_replicate, fun a ha => h a (List.eq_of_mem_replicate ha).symm⟩

theorem goodMap_assign_range {slots : List (Option Addr)} (h : GoodMap slots) {f l : Int} {master : Addr}
    (h0 : 0 ≤ f) (hfl : f ≤ l) (hl : l < SLOTS) (hm : master.Numbered) :
    GoodMap (assign_range slots f l master) := by
  have hlen := h.length
  refine ⟨?_, fun a ha => ?_⟩
  · simp only [assign_range, clamp, List.length_append, List.length_take, List.length_replicate,
      List.length_drop]
    omega
  · simp only [assign_range, List.mem_append] at ha
    rcases ha with (ha | ha) | ha
    · exact h.owners a (List.mem_of_mem_take ha)
    · have := List.eq_of_mem_replicate ha
      simp only [Option.some.injEq] at this
      exact this ▸ hm
    · exact h.owners a (List.mem_of_mem_drop ha)

theorem tame_load_nodes {nodes : List Value}
    (hn : ∀ node ∈ nodes, ∀ a, node_addr node = some a → a.Numbered) (h : c.Tame) :
    (load_nodes nodes c).2.Tame := by
  induction nodes generalizing c with
  | nil => exact h
  | cons node nodes ih =>
    unfold load_nodes
    split
    case h_1 => exact h
    case h_2 a ha =>
      exact ih (fun m hm => hn m (List.mem_cons_of_mem _ hm)) (tame_learn h (hn node List.mem_cons_self a ha))

/-- One range of a map, as `SaneMap` has it. -/
def SaneRange (range : Value) : Prop :=
  ∀ first last nodes, range = .array (first :: last :: nodes) →
    (∀ node ∈ nodes, ∀ a, node_addr node = some a → a.Numbered) ∧
    ∀ f l, first = .integer f → last = .integer l → 0 ≤ f ∧ f ≤ l ∧ l < SLOTS

theorem tame_load_ranges {ranges : List Value} (hr : ∀ range ∈ ranges, SaneRange range)
    {slots : List (Option Addr)} (hs : GoodMap slots) (h : c.Tame) :
    (load_ranges ranges slots c).2.Tame ∧ ∀ m, (load_ranges ranges slots c).1 = .ok m → GoodMap m := by
  induction ranges generalizing slots c with
  | nil => exact ⟨h, fun m hm => by cases hm; exact hs⟩
  | cons range ranges ih =>
    have hrest := fun r hm => hr r (List.mem_cons_of_mem range hm)
    unfold load_ranges
    split
    case h_1 first last nodes =>
      obtain ⟨hnodes, hbounds⟩ := hr _ List.mem_cons_self first last nodes rfl
      have hn := tame_load_nodes hnodes h
      split
      case h_1 e c' hl => rw [hl] at hn; exact ⟨hn, nofun⟩
      case h_2 c' hl =>
        rw [hl] at hn
        split
        case h_1 master f l hmaster =>
          obtain ⟨node, hhead, hm⟩ := Option.bind_eq_some_iff.mp hmaster
          obtain ⟨h0, hfl, hlt⟩ := hbounds f l rfl rfl
          have hnum := hnodes node (List.mem_of_head? hhead) master hm
          exact ih hrest (goodMap_assign_range hs h0 hfl hlt hnum) hn
        case h_2 => exact ⟨hn, nofun⟩
    case h_2 => exact ⟨h, nofun⟩

theorem tame_load_map {v : Value} (hv : SaneMap v) (h : c.Tame) : (c.load_map v).2.Tame := by
  unfold Client.load_map
  split
  case h_1 => exact h
  case h_2 ranges hi =>
    have hr := tame_load_ranges
      (fun range hm first last nodes he => hv ranges hi first last nodes (he ▸ hm))
      (goodMap_replicate (o := none) nofun) h
    split
    case h_1 e c' hl => rw [hl] at hr; exact hr.1
    case h_2 slots c' hl =>
      rw [hl] at hr
      exact ⟨(hr.2 slots rfl).length, (hr.2 slots rfl).owners, hr.1.known⟩

/-! ### Asking for the map -/

theorem read_reply_error {e : Exn} (h : (c.read_reply py a).1 = .error e) :
    e = .os_error ∨ e = .other := by
  unfold Client.read_reply at h
  split at h
  case h_1 => cases h; exact Or.inr rfl
  case h_2 =>
    split at h
    case h_1 => cases h
    case h_2 => cases h; exact Or.inl rfl
    case h_3 => cases h; exact Or.inr rfl

/-- `slots_reply` uses one connection; a reply that was read leaves it in step. -/
structure Asked (py : Python) (net : Network) (a : Addr) (c c' : Client) (r : Except Exn Value) : Prop where
  between : Between c c'
  conns : ∀ b, b ≠ a → c'.conns b = c.conns b
  quiet : ∀ v, r = .ok v → c'.Quiet a
  error : ∀ e, r = .error e → e = .os_error ∨ e = .other
  clean : net.Clean py → r ≠ .error .other ∧ ∀ v, r = .ok v → SaneMap v
  tame : c.Tame → c'.Tame

theorem asked_slots_reply (py : Python) (hnet : net.Answering) (hq : c.Quiet a) :
    Asked py net a c (c.slots_reply py net a).2 (c.slots_reply py net a).1 := by
  have hside := near_conn net a c
  have hquiet := (quiet_conn net hq).1
  have herr := fun (e : Exn) (he : (c.conn net a).1 = .error e) => conn_error he
  have hother := fun (he : (c.conn net a).1 = .error .other) => conn_other he nofun
  unfold Client.slots_reply
  generalize c.conn net a = p at hside hquiet herr hother
  obtain ⟨r, c₁⟩ := p
  cases r with
  | error e =>
    refine ⟨hside.between, hside.conns, nofun, ?_, fun hc => ⟨fun he => ?_, nofun⟩, hside.tame⟩
    · rintro e' ⟨⟩
      exact herr e rfl
    · simp only [Except.error.injEq] at he
      obtain ⟨t, ht⟩ := hother (by rw [he])
      exact hc.connect t a ht
  | ok u =>
    simp only at hside hquiet ⊢
    generalize hfr : [(none, [lit "CLUSTER", lit "SLOTS"])] = fr
    have hres := send_frames_result net a fr c₁
    have howes := owes_send hnet hquiet fr
    have hlog := send_frames_log net a fr c₁
    have hnear := hside.trans (near_send_frames net a fr c₁)
    generalize c₁.send_frames net a fr = p at howes hlog hnear hres
    obtain ⟨r₂, c₂⟩ := p
    simp only at howes hlog hres
    have htame₂ : c.Tame → c₂.Tame := fun ht => (hnear.tame ht).remap rfl fun _ hb => hb
    -- the question carries no tag, so no command has it in its history
    have hnone : ∀ i, of_tag i c₂.log = of_tag i c.log := by
      intro i
      rw [hlog, of_tag_append, of_tag_receipts _ _ (by simp [← hfr]), List.append_nil, hside.log]
    have hb : Between c c₂ := ⟨hnone, hnear.round⟩
    have hc : ∀ b, b ≠ a → c₂.conns b = c.conns b := hnear.conns
    subst hfr
    rcases hres with rfl | ⟨rfl, -⟩
    swap
    · exact ⟨hb, hc, nofun, fun e he => Or.inl (by cases he; rfl), fun _ => ⟨nofun, nofun⟩, htame₂⟩
    · simp only
      have hread := near_read_reply py a c₂
      refine ⟨hb.trans hread.between, fun b hba => (hread.conns b hba).trans (hc b hba), fun v hv => ?_,
        fun e he => read_reply_error he, fun hcl => ⟨fun he => ?_, fun v hv => ?_⟩,
        fun ht => hread.tame (htame₂ ht)⟩
      all_goals rcases howes.read hnet py with ⟨hr, -⟩ | ⟨hr, x, hx, hbad⟩ | ⟨x, rest, hx, -, hr, ho⟩
      all_goals first | rw [hr] at hv | rw [hr] at he
      case refine_1.inr.inr => exact ho.quiet
      case refine_2.inr.inl => exact hbad (hcl.readable _ (howes.given x hx))
      case refine_3.inr.inr =>
        simp only [Except.ok.injEq] at hv
        subst hv
        obtain ⟨r, hm, -, hreply⟩ := receipts_reaction (hx ▸ List.mem_cons_self (a := x) (l := rest))
        rw [← hreply]
        exact hcl.maps _ a r hm
      all_goals first | cases hv | cases he

theorem Asked.instep {v : Value} (h : Asked py net a c c' (.ok v)) (hs : c.InStep) : c'.InStep := by
  intro b
  by_cases hb : b = a
  · exact hb ▸ h.quiet v rfl
  · intro k hk
    rw [h.conns b hb] at hk
    exact hs b k hk

theorem Asked.instep_drop {r : Except Exn Value} (h : Asked py net a c c' r) (hs : c.InStep) :
    (c'.drop a).InStep := by
  intro b
  by_cases hb : b = a
  · exact hb ▸ quiet_drop c' a
  · intro k hk
    rw [(near_drop c' a).conns b hb, h.conns b hb] at hk
    exact hs b k hk

/-- **Reloading the map** adds nothing to the history of a command, and unless it raises
something unforeseen the connections stay in step. -/
theorem refresh_from_spec (py : Python) (hnet : net.Answering) (addrs : List Addr) (hs : c.InStep) :
    Between c (c.refresh_from py net addrs).2 ∧
      ((c.refresh_from py net addrs).1 = .ok () ∨ (c.refresh_from py net addrs).1 = .error .no_node_answers →
        (c.refresh_from py net addrs).2.InStep) := by
  induction addrs generalizing c with
  | nil => exact ⟨Between.refl c, fun _ => hs⟩
  | cons a more ih =>
    have h := asked_slots_reply py hnet (hs a)
    have hdrop := h.between.trans (near_drop _ a).between
    unfold Client.refresh_from
    generalize c.slots_reply py net a = p at h hdrop
    obtain ⟨r, c'⟩ := p
    match r with
    | .error .os_error =>
      obtain ⟨hb, hi⟩ := ih (h.instep_drop hs)
      exact ⟨hdrop.trans hb, hi⟩
    | .ok (.error line) =>
      simp only
      split
      case isTrue => exact ⟨⟨h.between.log, h.between.round⟩, fun _ => h.instep hs⟩
      case isFalse =>
        obtain ⟨hb, hi⟩ := ih (h.instep_drop hs)
        exact ⟨hdrop.trans hb, hi⟩
    | .ok (.simple _) | .ok (.integer _) | .ok (.bulk _) | .ok .null | .ok .null_array | .ok (.array _) =>
      exact ⟨h.between.trans (remapped_load_map _ c').between,
        fun _ => (remapped_load_map _ c').instep (h.instep hs)⟩
    | .error .other => exact ⟨h.between, fun he => by rcases he with he | he <;> cases he⟩
    | .error .no_node_answers | .error (.reply_error _) | .error (.too_many_redirects _)
    | .error (.uncertain_write _ _) | .error (.read_not_retried _ _) =>
      rcases h.error _ rfl with he | he <;> cases he

section

variable (hnet : net.Answering)
include hnet

/-- **With a clean network every connection is in step afterwards**, whatever the outcome. -/
theorem refresh_from_clean (hc : net.Clean py) {addrs : List Addr}
    (ha : ∀ a ∈ addrs, a.Numbered) (hs : c.InStep) (ht : c.Tame) :
    (c.refresh_from py net addrs).2.InStep ∧ (c.refresh_from py net addrs).2.Tame := by
  induction addrs generalizing c with
  | nil => exact ⟨hs, ht⟩
  | cons a more ih =>
    have h := asked_slots_reply py hnet (hs a)
    have hmore := fun b hb => ha b (List.mem_cons_of_mem a hb)
    unfold Client.refresh_from
    generalize c.slots_reply py net a = p at h
    obtain ⟨r, c'⟩ := p
    have ht' := h.tame ht
    match r with
    | .error .os_error => exact ih hmore (h.instep_drop hs) ((near_drop c' a).tame ht')
    | .ok (.error line) =>
      simp only
      split
      case isTrue =>
        have hg : GoodMap (List.replicate SLOTS (some a)) :=
          goodMap_replicate fun b hb => by cases hb; exact ha a List.mem_cons_self
        exact ⟨h.instep hs, hg.length, hg.owners, ht'.known⟩
      case isFalse => exact ih hmore (h.instep_drop hs) ((near_drop c' a).tame ht')
    | .ok (.simple _) | .ok (.integer _) | .ok (.bulk _) | .ok .null | .ok .null_array | .ok (.array _) =>
      exact ⟨(remapped_load_map _ c').instep (h.instep hs), tame_load_map ((h.clean hc).2 _ rfl) ht'⟩
    | .error .other => exact absurd rfl (h.clean hc).1
    | .error .no_node_answers | .error (.reply_error _) | .error (.too_many_redirects _)
    | .error (.uncertain_write _ _) | .error (.read_not_retried _ _) =>
      rcases h.error _ rfl with he | he <;> cases he

theorem refresh_clean (hc : net.Clean py) (hs : c.InStep) (ht : c.Tame) :
    (c.refresh py net).2.InStep ∧ (c.refresh py net).2.Tame :=
  refresh_from_clean hnet hc ht.known hs ht

theorem recover_clean (hc : net.Clean py) (hs : c.InStep) (ht : c.Tame) :
    (c.recover py net).2.InStep ∧ (c.recover py net).2.Tame := by
  have ht' : c.next_tick.Tame := ht.remap rfl fun _ hb => hb
  unfold Client.recover
  split
  case isTrue => exact ⟨hs, ht'⟩
  case isFalse =>
    have h := refresh_clean hnet hc (c := c.next_tick) hs ht'
    split
    case h_1 c' hr | h_2 c' hr => rw [hr] at h; exact h
    case h_3 e c' _ hr => rw [hr] at h; exact h

end

theorem recover_spec (py : Python) (hnet : net.Answering) (hs : c.InStep) :
    Between c (c.recover py net).2 ∧ ∀ b, (c.recover py net).1 = .ok b → (c.recover py net).2.InStep := by
  have hn : Between c c.next_tick := ⟨fun _ => rfl, rfl⟩
  obtain ⟨hb, hi⟩ := refresh_from_spec py hnet c.next_tick.known (c := c.next_tick) hs
  unfold Client.recover
  split
  case isTrue => exact ⟨hn, fun _ _ => hs⟩
  case isFalse =>
    unfold Client.refresh
    generalize c.next_tick.refresh_from py net c.next_tick.known = p at hb hi
    obtain ⟨r, c'⟩ := p
    match r with
    | .ok () => exact ⟨hn.trans hb, fun _ _ => hi (Or.inl rfl)⟩
    | .error .no_node_answers => exact ⟨hn.trans hb, fun _ _ => hi (Or.inr rfl)⟩
    | .error .os_error | .error .other | .error (.reply_error _) | .error (.too_many_redirects _)
    | .error (.uncertain_write _ _) | .error (.read_not_retried _ _) => exact ⟨hn.trans hb, nofun⟩

/-! ## Settling -/

/-- The command is the same but for where it goes next. -/
structure Cmd.Same (c c' : Cmd) : Prop where
  args : c'.args = c.args
  slot : c'.slot = c.slot
  is_write : c'.is_write = c.is_write

theorem Cmd.Same.refl (c : Cmd) : c.Same c := ⟨rfl, rfl, rfl⟩

theorem Cmd.Same.trans {c d e : Cmd} (h : c.Same d) (h' : d.Same e) : c.Same e :=
  ⟨h'.args.trans h.args, h'.slot.trans h.slot, h'.is_write.trans h.is_write⟩

/-- What rerouting does to one command: nothing if it is not listed. -/
theorem reroute_spec (l : List Nat) (j : Job) :
    (Job.reroute l j).2.client = j.client ∧ (Job.reroute l j).2.results = j.results ∧
      (∀ k, k ∉ l → (Job.reroute l j).2.cmds k = j.cmds k) ∧
      (∀ k, (j.cmds k).Same ((Job.reroute l j).2.cmds k)) ∧
      ((Job.reroute l j).1 = .ok () → ∀ k ∈ l, ∃ a, j.client.owner (j.cmds k).slot = some a ∧
        (Job.reroute l j).2.cmds k = { j.cmds k with addr := a, asking := false }) := by
  induction l generalizing j with
  | nil => exact ⟨rfl, rfl, fun _ _ => rfl, fun k => Cmd.Same.refl _, fun _ => by simp⟩
  | cons i more ih =>
    unfold Job.reroute
    cases ho : j.client.owner (j.cmds i).slot with
    | none => exact ⟨rfl, rfl, fun _ _ => rfl, fun k => Cmd.Same.refl _, nofun⟩
    | some a =>
      simp only
      -- on the commands left, from the state with the first one rerouted
      obtain ⟨hc, hr, hk, hsame, hok⟩ := ih (j.set_cmd i { j.cmds i with addr := a, asking := false })
      have hself : (j.set_cmd i { j.cmds i with addr := a, asking := false }).cmds i =
          { j.cmds i with addr := a, asking := false } := Function.update_self _ _ _
      have hother : ∀ k, k ≠ i →
          (j.set_cmd i { j.cmds i with addr := a, asking := false }).cmds k = j.cmds k :=
        fun k hki => Function.update_of_ne hki _ _
      refine ⟨hc, hr, fun k hkm => ?_, fun k => ?_, fun h k hkm => ?_⟩
      · simp only [List.mem_cons, not_or] at hkm
        rw [hk k hkm.2, hother k hkm.1]
      · by_cases hki : k = i
        · subst hki
          have := hsame k
          rw [hself] at this
          exact ⟨this.args, this.slot, this.is_write⟩
        · rw [← hother k hki]
          exact hsame k
      · by_cases hmem : k ∈ more
        · obtain ⟨b, hb, he⟩ := hok h k hmem
          by_cases hki : k = i
          · subst hki
            rw [hself] at hb he
            exact ⟨b, hb, he⟩
          · rw [hother k hki] at hb he
            exact ⟨b, hb, he⟩
        · rcases List.mem_cons.mp hkm with rfl | hkm
          · exact ⟨a, ho, (hk k hmem).trans hself⟩
          · exact absurd hkm hmem

/-- **What settling comes to.** -/
structure Settled (retry : List Nat) (j j' : Job) (r : Except Exn (List Nat)) : Prop where
  between : Between j.client j'.client
  same : ∀ k, (j.cmds k).Same (j'.cmds k)
  cmds : ∀ k, k ∉ j.waiting retry → j'.cmds k = j.cmds k
  /-- A result is added only when the budget is spent, and it is the last error. -/
  results : ∀ k, j'.results k = j.results k ∨
    k ∈ retry ∧ ∃ e, (j.cmds k).error = some e ∧ j'.results k = .failed e
  left : ∀ l, r = .ok l → ∃ kept : List Nat, kept.Sublist retry ∧ l = kept.insertionSort (· ≤ ·) ∧
    ∀ i ∈ kept, j'.results i = j.results i
  instep : ∀ l, r = .ok l → j'.client.InStep
  /-- Commands that waited go to the owner of their slot. -/
  routed : ∀ l, r = .ok l → ∀ i ∈ l, i ∈ j.waiting retry →
    ∃ a, j'.client.owner (j.cmds i).slot = some a ∧ (j'.cmds i).addr = a ∧ (j'.cmds i).asking = false

theorem owner_numbered (h : c.Tame) {slot : Option Nat} (ha : c.owner slot = some a) :
    a.Numbered := by
  unfold Client.owner at ha
  split at ha
  case h_1 => exact h.known a (List.mem_of_head? ha)
  case h_2 n =>
    split at ha
    case h_1 => cases ha
    case h_2 => exact h.known a (List.mem_of_head? ha)
    case h_3 b hb =>
      simp only [Option.some.injEq] at ha
      exact ha ▸ h.owners b (List.mem_of_getElem? hb)

theorem tame_reroute {l : List Nat} (h : j.Tame) : (Job.reroute l j).2.Tame := by
  induction l generalizing j with
  | nil => exact h
  | cons i more ih =>
    unfold Job.reroute
    split
    case h_1 => exact h
    case h_2 a ha => exact ih (h.set_cmd (owner_numbered h.client ha) rfl)

theorem settle_clean (hnet : net.Answering) (hc : net.Clean py) (retry : List Nat)
    (hs : j.client.InStep) (ht : j.Tame) :
    (Job.settle py net retry j).2.client.InStep ∧ (Job.settle py net retry j).2.Tame := by
  obtain ⟨hs', ht'⟩ := recover_clean hnet hc hs ht.client
  have hj := ht.client_of ht'
  unfold Job.settle
  simp only
  split
  case isTrue => exact ⟨hs, ht⟩
  case isFalse =>
    split
    case h_1 e c hr => rw [hr] at hs' hj; exact ⟨hs', hj⟩
    case h_2 c hr =>
      rw [hr] at hs' hj
      have hroute := (reroute_spec (j.waiting retry) { j with client := c }).1
      have htame := tame_reroute (l := j.waiting retry) hj
      split
      case h_1 j' hl | h_2 j' hl =>
        rw [hl] at hroute htame
        simp only at hroute
        exact ⟨hroute ▸ hs', htame⟩
    case h_3 c hr =>
      rw [hr] at hs' hj
      exact ⟨hs', hj.client, hj.addrs, hj.args⟩

theorem mem_waiting {retry : List Nat} {i : Nat} :
    i ∈ j.waiting retry ↔ i ∈ retry ∧ ∃ e, (j.cmds i).error = some e := by
  simp [Job.waiting, Option.isSome_iff_exists]

theorem settled_settle (py : Python) (hnet : net.Answering) (retry : List Nat)
    (hs : j.client.InStep) :
    Settled retry j (Job.settle py net retry j).2 (Job.settle py net retry j).1 := by
  unfold Job.settle
  simp only
  split
  case isTrue hw =>
    refine ⟨Between.refl _, fun k => Cmd.Same.refl _, fun _ _ => rfl, fun _ => Or.inl rfl, ?_,
      fun _ _ => hs, fun l _ i _ hi => by simp [hw] at hi⟩
    rintro l ⟨⟩
    exact ⟨retry, .refl _, rfl, fun _ _ => rfl⟩
  case isFalse =>
    obtain ⟨hb, hi⟩ := recover_spec py hnet hs
    generalize j.client.recover py net = p at hb hi
    obtain ⟨r, c⟩ := p
    match r with
    | .error e =>
      exact ⟨hb, fun k => Cmd.Same.refl _, fun _ _ => rfl, fun _ => Or.inl rfl, nofun, nofun, nofun⟩
    | .ok true =>
      simp only
      obtain ⟨hc, hr, hk, hsame, hok⟩ := reroute_spec (j.waiting retry) { j with client := c }
      generalize Job.reroute (j.waiting retry) { j with client := c } = p at hc hr hk hsame hok
      obtain ⟨r', j'⟩ := p
      simp only at hc hr hk hsame hok
      cases r' with
      | error e => exact ⟨hc ▸ hb, hsame, hk, fun k => Or.inl (by rw [hr]), nofun, nofun, nofun⟩
      | ok u =>
        refine ⟨hc ▸ hb, hsame, hk, fun k => Or.inl (by rw [hr]), ?_, ?_, ?_⟩
        · rintro l ⟨⟩
          exact ⟨retry, .refl _, rfl, fun _ _ => by rw [hr]⟩
        · rintro l ⟨⟩
          rw [hc]
          exact hi true rfl
        · rintro l ⟨⟩ i - hiw
          obtain ⟨a, ha, he⟩ := hok rfl i hiw
          exact ⟨a, hc ▸ ha, by rw [he], by rw [he]⟩
    | .ok false =>
      have hres : ∀ k, k ∉ j.waiting retry →
          (Job.give_up { j with client := c } (j.waiting retry)).results k = j.results k :=
        fun k hk => if_neg hk
      have hgive : ∀ k ∈ j.waiting retry, ∃ e, (j.cmds k).error = some e ∧
          (Job.give_up { j with client := c } (j.waiting retry)).results k = .failed e := by
        intro k hk
        obtain ⟨-, e, he⟩ := mem_waiting.mp hk
        refine ⟨e, he, ?_⟩
        simp only [Job.give_up, if_pos hk, he]
      -- what is left to do did not wait
      have hleft : ∀ i ∈ retry.filter fun i =>
          ((Job.give_up { j with client := c } (j.waiting retry)).results i).is_pending,
          i ∉ j.waiting retry := by
        intro i hil hw
        obtain ⟨e, -, he⟩ := hgive i hw
        simp [he, Result.is_pending] at hil
      refine ⟨hb, fun k => Cmd.Same.refl _, fun _ _ => rfl, fun k => ?_, ?_, ?_, ?_⟩
      · by_cases hk : k ∈ j.waiting retry
        · exact Or.inr ⟨(mem_waiting.mp hk).1, hgive k hk⟩
        · exact Or.inl (hres k hk)
      · rintro l ⟨⟩
        exact ⟨_, List.filter_sublist, rfl, fun i hi => hres i (hleft i hi)⟩
      · rintro l ⟨⟩
        exact hi false rfl
      · rintro l ⟨⟩ i hil hw
        exact absurd hw (hleft i ((List.perm_insertionSort (· ≤ ·) _).mem_iff.mp hil))

/-! ## One pass of the loop -/

/-- Where a command that is sent again goes: where its reply said, or to the owner of
its slot if it had to wait. -/
def Onward (c : Client) (cmd cmd' : Cmd) : Prop :=
  (cmd.error = none ∧ cmd' = cmd) ∨
    ∃ e a, cmd.error = some e ∧ cmd'.Same cmd ∧ c.owner cmd.slot = some a ∧ cmd'.addr = a ∧ cmd'.asking = false

/-- The commands that are sent with command `i`. -/
def Job.group (j : Job) (pending : List Nat) (i : Nat) : List Nat :=
  pending.filter fun k => (j.cmds k).addr = (j.cmds i).addr

/-- **What a round comes to for one command.** -/
structure Turned (py : Python) (pending : List Nat) (ship : List Receipt) (j j' : Job)
    (r : Except Exn (List Nat)) (i : Nat) : Prop where
  fate : ∃ cmd res again, Fate py (j.group pending i) ship (j.begin_round pending) i cmd res again ∧
    (j'.results i = res ∨ ∃ e, cmd.error = some e ∧ again = true ∧ j'.results i = .failed e) ∧
    ∀ l, r = .ok l → i ∈ l → again = true ∧ j'.results i = res ∧ Onward j'.client cmd (j'.cmds i)

/-- **What a round comes to**: `ship` are its receipts. -/
structure Turn (py : Python) (net : Network) (pending : List Nat) (ship : List Receipt) (j j' : Job)
    (r : Except Exn (List Nat)) : Prop where
  log : ∀ i, of_tag i j'.client.log = of_tag i j.client.log ++ of_tag i ship
  round : j'.client.round = j.client.round + 1
  results : ∀ k, k ∉ pending → j'.results k = j.results k
  other : ∀ k, k ∉ pending → of_tag k ship = []
  cargo : ∀ a, Carried net j.cmds (j.client.round + 1) a (pending.filter fun i => (j.cmds i).addr = a) ship
  each : ∀ i ∈ pending, Turned py pending ship j j' r i
  left : Again pending r
  sorted : ∀ l, r = .ok l → l.Pairwise (· ≤ ·)
  instep : ∀ l, r = .ok l → j'.client.InStep

theorem Handled.again {limit : Int} {c c' : Cmd} {v : Value} {r : Result}
    (h : Handled py limit c v c' r true) : r = .pending := by
  cases h <;> rfl

theorem Fate.again {group : List Nat} {i : Nat} {c : Cmd} {r : Result}
    (h : Fate py group ship j i c r true) : r = .pending := by
  cases h with
  | unsent | retried => rfl
  | answered _ h => exact h.again

theorem begin_round_cmds (pending : List Nat) (j : Job) (k : Nat) :
    (j.begin_round pending).cmds k = if k ∈ pending then { j.cmds k with error := none } else j.cmds k := rfl

theorem begin_round_same (pending : List Nat) (j : Job) (k : Nat) :
    (j.cmds k).Same ((j.begin_round pending).cmds k) := by
  rw [begin_round_cmds]
  split
  case isTrue => exact ⟨rfl, rfl, rfl⟩
  case isFalse => exact Cmd.Same.refl _

theorem begin_round_addr (pending : List Nat) (j : Job) (k : Nat) :
    ((j.begin_round pending).cmds k).addr = (j.cmds k).addr := by
  rw [begin_round_cmds]
  split <;> rfl

theorem frames_begin_round (idxs : List Nat) :
    Job.frames (j.begin_round pending).cmds idxs = Job.frames j.cmds idxs := by
  unfold Job.frames
  apply List.flatMap_congr
  intro k _
  rw [begin_round_cmds]
  split <;> rfl

theorem cargo_begin_round {j₁ : Job} {r : Except Exn (List Nat)}
    (h : Exchanged py net pending ship (j.begin_round pending) j₁ r) (a : Addr) :
    Carried net j.cmds (j.client.round + 1) a (pending.filter fun i => (j.cmds i).addr = a) ship := by
  have hc := h.cargo a
  unfold Carried Encoded at hc ⊢
  simp only [begin_round_addr, frames_begin_round] at hc
  exact hc

/-- The stages of a round, when the exchange raises. -/
theorem Exchanged.turn_raised {j₁ : Job} {e : Exn}
    (h : Exchanged py net pending ship (j.begin_round pending) j₁ (.error e)) :
    Turn py net pending ship j j₁ (.error e) := by
  refine ⟨fun i => ?_, h.round, h.results, h.other, cargo_begin_round h, fun i hi => ⟨?_⟩, nofun, nofun, nofun⟩
  · rw [h.log, of_tag_append]
    rfl
  · obtain ⟨again, hf, -⟩ := h.each i hi
    simp only [begin_round_addr] at hf
    exact ⟨_, _, again, hf, Or.inl rfl, nofun⟩

/-- The stages of a round, when there is something to settle. -/
theorem Exchanged.turn_settled {retry : List Nat} {j₁ j₂ : Job} {r : Except Exn (List Nat)}
    (h : Exchanged py net pending ship (j.begin_round pending) j₁ (.ok retry))
    (hs : Settled retry j₁ j₂ r) : Turn py net pending ship j j₂ r := by
  have hretry := h.retry retry rfl
  refine ⟨fun i => ?_, hs.between.round.trans h.round, fun k hk => ?_, h.other, cargo_begin_round h,
    fun i hi => ⟨?_⟩, fun l hl => ?_, fun l hl => ?_, hs.instep⟩
  · rw [hs.between.log, h.log, of_tag_append]
    rfl
  · rcases hs.results k with hr | ⟨hr, -⟩
    · rw [hr]
      exact h.results k hk
    · exact absurd (hretry.2 k hr) hk
  · obtain ⟨again, hf, hag⟩ := h.each i hi
    simp only [begin_round_addr] at hf
    refine ⟨_, _, again, hf, ?_, fun l hl hil => ?_⟩
    · rcases hs.results i with hr | ⟨hr, e, he, hres⟩
      · exact Or.inl hr
      · exact Or.inr ⟨e, he, hag retry rfl hr, hres⟩
    · obtain ⟨kept, hkept, rfl, hsame⟩ := hs.left l hl
      have hik := (List.perm_insertionSort (· ≤ ·) kept).mem_iff.mp hil
      have hir := hkept.subset hik
      have hres := hsame i hik
      refine ⟨hag retry rfl hir, hres, ?_⟩
      cases he : (j₁.cmds i).error with
      | none =>
        refine Or.inl ⟨he, hs.cmds i fun hw => ?_⟩
        obtain ⟨-, e, he'⟩ := mem_waiting.mp hw
        rw [he] at he'
        cases he'
      | some e =>
        obtain ⟨a, ho, ha, hask⟩ := hs.routed _ hl i hil (mem_waiting.mpr ⟨hir, e, he⟩)
        have hsame := hs.same i
        exact Or.inr ⟨e, a, he, ⟨hsame.args.symm, hsame.slot.symm, hsame.is_write.symm⟩, ho, ha, hask⟩
  · obtain ⟨kept, hkept, rfl, -⟩ := hs.left l hl
    have hperm := List.perm_insertionSort (· ≤ ·) kept
    exact ⟨hperm.nodup_iff.mpr (hretry.1.sublist hkept), fun i hi =>
      hretry.2 i (hkept.subset (hperm.mem_iff.mp hi))⟩
  · obtain ⟨kept, -, rfl, -⟩ := hs.left l hl
    exact List.pairwise_insertionSort (· ≤ ·) kept

/-- **One round.** -/
theorem turn_round (py : Python) (hnet : net.Answering) (hd : pending.Nodup)
    (hstep : j.client.InStep) (hp : ∀ i ∈ pending, j.results i = .pending) :
    ∃ ship, Turn py net pending ship j (Job.round py net pending j).2 (Job.round py net pending j).1 := by
  obtain ⟨ship, h⟩ := exchanged_exchange py hnet hd (j := j.begin_round pending) hstep hp
  refine ⟨ship, ?_⟩
  unfold Job.round
  generalize Job.exchange py net pending (j.begin_round pending) = p at h
  obtain ⟨r, j₁⟩ := p
  cases r with
  | error e => exact h.turn_raised
  | ok retry => exact h.turn_settled (settled_settle py hnet retry (h.instep retry rfl))

/-! ## The loop -/

/-- A loop state between two rounds. -/
structure Loop (pending : List Nat) (j : Job) : Prop where
  nodup : pending.Nodup
  sorted : pending.Pairwise (· ≤ ·)
  instep : j.client.InStep
  results : ∀ i ∈ pending, j.results i = .pending

theorem Turn.loop {l : List Nat} {j' : Job} (h : Turn py net pending ship j j' (.ok l)) :
    Loop l j' := by
  refine ⟨(h.left l rfl).1, h.sorted l rfl, h.instep l rfl, fun i hi => ?_⟩
  obtain ⟨cmd, res, again, hf, -, hl⟩ := (h.each i ((h.left l rfl).2 i hi)).fate
  obtain ⟨rfl, hr, -⟩ := hl l rfl hi
  rw [hr]
  exact hf.again

/-- **The rule for the loop.** `inv` is kept by a round that leaves `l` to do, and `post`
holds wherever the loop may stop. -/
theorem run_turns (py : Python) (hnet : net.Answering) (inv : List Nat → Job → Prop)
    (post : Job → Prop) (hinv : ∀ pending j, inv pending j → post j)
    (hnext : ∀ pending ship j j' l, Loop pending j → inv pending j →
      Turn py net pending ship j j' (.ok l) → inv l j')
    (hraise : ∀ pending ship j j' e, Loop pending j → inv pending j →
      Turn py net pending ship j j' (.error e) → post j') (fuel : Nat) (hl : Loop pending j)
    (hi : inv pending j) : post (Job.run py net fuel pending j).2 := by
  induction fuel generalizing pending j with
  | zero => cases pending <;> exact hinv _ _ hi
  | succ fuel ih =>
    cases pending with
    | nil => exact hinv _ _ hi
    | cons i more =>
      obtain ⟨ship, ht⟩ := turn_round py hnet hl.nodup hl.instep hl.results
      unfold Job.run
      generalize Job.round py net (i :: more) j = p at ht
      obtain ⟨r, j'⟩ := p
      cases r with
      | error e => exact hraise _ ship j j' e hl hi ht
      | ok l => exact ih ht.loop (hnext _ ship j j' l hl hi ht)

end EpochKV.Kvclient

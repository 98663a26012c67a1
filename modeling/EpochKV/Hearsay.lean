/-
What a node has heard of others.

`process_gossip` reads the entries of a gossip section one by one, after all else in the
packet is done (`process_packet_gossip`), and files or strikes out a report for each. A
history of the entries that were read tells what each node's latest word about another
was. The reports on file are such words (`Recalled`), if a node that has a report on file
is a master whenever it is heard: the gossip of a replica is passed over, and the report
it made as a master would stay.

`mark_node_as_failing_if_needed` is called in two places: for each entry that reports a
node, and in the cron when a node is first suspected. `calls` lists the calls an event
makes, each with the state it is made in, and `flagged_by_call` says that none is left out:
who comes to be flagged as failing was named in a FAIL message, or by one of these calls.
-/
import EpochKV.Reports

set_option autoImplicit false

namespace EpochKV

open Text Commands

/-! ## What is heard -/

/-- One node's word about another. -/
structure Hearsay where
  reporter : NodeId
  subject : NodeId
  failing : Bool
  time : Time
  deriving DecidableEq

def GossipEntry.hearsay (s : NodeId) (t : Time) (g : GossipEntry) : Hearsay :=
  { reporter := s, subject := g.id, failing := g.pfail || g.fail, time := t }

variable {n : NodeId} {x : Hearsay} {env : Env} {c : Cluster} {s : NodeId} {sender : Option NodeId}
  {msg : Message}

namespace Hearsay

/-- The latest word of `s` about `n`. -/
def latest (heard : List Hearsay) (s n : NodeId) : Option Hearsay :=
  heard.reverse.find? fun x => x.reporter = s ∧ x.subject = n

theorem latest_append (heard : List Hearsay) (x : Hearsay) (s n : NodeId) :
    latest (heard ++ [x]) s n =
      if x.reporter = s ∧ x.subject = n then some x else latest heard s n := by
  unfold latest
  rw [List.reverse_append, List.reverse_singleton, List.singleton_append, List.find?_cons]
  by_cases h : x.reporter = s ∧ x.subject = n
  · simp [h]
  · simp [h]

theorem of_latest {heard : List Hearsay} (h : latest heard s n = some x) :
    x ∈ heard ∧ x.reporter = s := by
  unfold latest at h
  have hx : x.reporter = s ∧ x.subject = n := by simpa using List.find?_some h
  exact ⟨List.mem_reverse.mp (List.mem_of_find?_eq_some h), hx.1⟩

end Hearsay

/-- The message without its gossip. -/
def Message.bare (m : Message) : Message := { m with gossip := [] }

namespace Cluster

/-- The gossip of a message is read once its header is noted: it is a PING, PONG or MEET,
and not dropped. -/
def hears_from (env : Env) (c : Cluster) (l : Inlet) (sender : Option NodeId) (msg : Message) : Bool :=
  match msg.type with
  | .kPong => (c.identify env l sender msg).1.isSome
  | .kPing | .kMeet =>
    ¬ (l.dead ∨ env.overflow) ∧ ((c.answer env l sender msg).identify env l sender msg).1.isSome
  | _ => false

def hears (env : Env) (c : Cluster) (l : Inlet) (msg : Message) : Bool :=
  match c.sender_of msg with
  | none => c.hears_from env l none msg
  | some n => (c.note_sender n msg).hears_from env (inlet_after l c n msg) (some n) msg

/-- Whose PING or PONG it is, is its sender. -/
theorem identify_sender {l : Inlet} (hs : ∀ n, sender = some n → n = msg.sender)
    (h : (c.identify env l sender msg).1 = some n) : n = msg.sender := by
  unfold identify at h
  split at h
  · exact hs n h
  · split at h
    · split at h
      · cases h
      · exact (Option.some.inj h).symm
    · split at h
      · cases h
      · exact hs n h

theorem on_ping_gossip (env : Env) (c : Cluster) (l : Inlet)
    (hs : ∀ n, sender = some n → n = msg.sender) :
    c.on_ping env l sender msg =
      if (c.identify env l sender msg).1.isSome then
        (c.on_ping env l sender msg.bare).process_gossip env msg.sender msg
      else c.on_ping env l sender msg.bare := by
  have hbare : c.identify env l sender msg.bare = c.identify env l sender msg := rfl
  unfold on_ping
  rw [hbare]
  cases hi : c.identify env l sender msg with
  | mk who c₁ =>
    cases who with
    | none => rfl
    | some n =>
      have hn : n = msg.sender := identify_sender hs (by rw [hi])
      subst hn
      rfl

theorem on_message_gossip (env : Env) (c : Cluster) (l : Inlet)
    (hs : ∀ n, sender = some n → n = msg.sender) :
    c.on_message env l sender msg =
      if c.hears_from env l sender msg then
        (c.on_message env l sender msg.bare).process_gossip env msg.sender msg
      else c.on_message env l sender msg.bare := by
  have htype : msg.bare.type = msg.type := rfl
  have hping : (if l.dead ∨ env.overflow then c.answer env l sender msg
      else (c.answer env l sender msg).on_ping env l sender msg) =
      if (decide (¬ (l.dead = true ∨ env.overflow = true) ∧
          ((c.answer env l sender msg).identify env l sender msg).1.isSome = true)) = true then
        (if l.dead ∨ env.overflow then c.answer env l sender msg
          else (c.answer env l sender msg).on_ping env l sender msg.bare).process_gossip env msg.sender msg
      else if l.dead ∨ env.overflow then c.answer env l sender msg
        else (c.answer env l sender msg).on_ping env l sender msg.bare := by
    by_cases hd : l.dead = true ∨ env.overflow = true
    · rw [if_pos hd, if_pos hd, if_neg (by simp [hd])]
    · rw [if_neg hd, if_neg hd, on_ping_gossip env _ l hs]
      simp only [hd, not_false_eq_true, true_and, decide_eq_true_eq]
  unfold on_message hears_from
  rw [htype]
  cases msg.type with
  | kPong => exact on_ping_gossip env c l hs
  | kPing | kMeet => exact hping
  | _ => rfl

/-- **A packet is the packet without its gossip, and then the gossip.** -/
theorem process_packet_gossip (env : Env) (c : Cluster) (l : Inlet) (msg : Message) :
    c.process_packet env l msg =
      if c.hears env l msg then
        (c.process_packet env l msg.bare).process_gossip env msg.sender msg
      else c.process_packet env l msg.bare := by
  have hbare : c.sender_of msg.bare = c.sender_of msg := rfl
  unfold process_packet hears
  rw [hbare]
  cases hs : c.sender_of msg with
  | none => exact on_message_gossip env c l nofun
  | some n =>
    refine on_message_gossip env (c.note_sender n msg) (inlet_after l c n msg) fun x hx => ?_
    rw [← Option.some.inj hx]
    exact (sender_of_eq_some hs).1

/-! ## On the side -/

/-- The cause of what happens on the side while entry `g` is read: as if a message brought
its address, and nothing else. -/
def aside (env : Env) (g : GossipEntry) : Cause :=
  { Cause.still with
    msg := some { type := .kPing, sender := g.id, port := g.port, cport := g.cport }
    drawn := fun id => ∃ ip port cport, id = env.random_id ip port cport }

theorem aside_bare {g : GossipEntry} : ∀ m, (aside env g).msg = some m → m.gossip = [] := by
  rintro m hm
  cases hm
  rfl

theorem changes_handshake (env : Env) (c : Cluster) (g : GossipEntry) :
    Changes (aside env g) c (c.start_handshake env g.ip g.port g.cport) :=
  (Changes.refl c).start_handshake ⟨g.ip, g.port, g.cport, rfl⟩ (Or.inr ⟨_, rfl, Or.inl ⟨rfl, rfl⟩⟩)

/-! ## The calls -/

/-- A call of `mark_node_as_failing_if_needed`, with what was heard in this event before. -/
structure Call where
  env : Env
  state : Cluster
  node : NodeId
  heard : List Hearsay

def Call.after (k : Call) : Cluster := k.state.mark_node_as_failing_if_needed k.env k.node

variable {k : Call}

theorem known_detect_failures (env : Env) (ns : List NodeId) (c : Cluster) :
    (ns.foldl (detect_failure env) c).table.known = c.table.known := by
  induction ns generalizing c with
  | nil => rfl
  | cons n ns ih => exact (ih _).trans (known_detect_failure env c n)

/-- The calls made along a list, given which call is made at an item after those before it. -/
def calls_along {α : Type} (step : Cluster → α → Cluster)
    (call : List α → Cluster → α → Option Call) : List α → Cluster → List α → List Call
  | _, _, [] => []
  | before, c, a :: rest =>
    (call before c a).toList ++ calls_along step call (before ++ [a]) (step c a) rest

theorem mem_calls_along {α : Type} {step : Cluster → α → Cluster}
    {call : List α → Cluster → α → Option Call} {before rest : List α}
    (h : k ∈ calls_along step call before c rest) :
    ∃ l a r, rest = l ++ a :: r ∧ call (before ++ l) (l.foldl step c) a = some k := by
  induction rest generalizing before c with
  | nil => cases h
  | cons a rest ih =>
    rcases List.mem_append.mp h with h | h
    · refine ⟨[], a, rest, rfl, ?_⟩
      rw [List.append_nil]
      exact Option.mem_toList.mp h
    · obtain ⟨l, x, r, rfl, hx⟩ := ih h
      refine ⟨a :: l, x, r, rfl, ?_⟩
      rwa [List.append_assoc] at hx

/-- What a list of steps does is done by one of the calls along it, if a step that calls
nothing does not do it. -/
theorem exists_call_along {α : Type} {step : Cluster → α → Cluster}
    {call : List α → Cluster → α → Option Call} {P : Cluster → Prop} {Q : Call → Prop}
    (hnone : ∀ before c a, call before c a = none → P (step c a) → P c)
    (hsome : ∀ before c a k, call before c a = some k → P (step c a) → P c ∨ Q k)
    (before : List α) {rest : List α} (h : P (rest.foldl step c)) :
    P c ∨ ∃ k ∈ calls_along step call before c rest, Q k := by
  induction rest generalizing before c with
  | nil => exact Or.inl h
  | cons a rest ih =>
    rcases ih (before ++ [a]) h with hp | ⟨k, hk, hq⟩
    · cases hc : call before c a with
      | none => exact Or.inl (hnone before c a hc hp)
      | some k =>
        refine (hsome before c a k hc hp).imp_right fun hq => ⟨k, ?_, hq⟩
        exact List.mem_append_left _ (by rw [hc]; exact List.mem_singleton_self k)
    · exact Or.inr ⟨k, List.mem_append_right _ hk, hq⟩

/-- The call flags node `n` as failing. -/
def Call.Flags (k : Call) (n : NodeId) : Prop :=
  k.node = n ∧ (k.state.table.node n).fail = false ∧ (k.after.table.node n).fail = true

theorem node_mark_node_as_failing_of_ne {m : NodeId} (h : n ≠ m) :
    (c.mark_node_as_failing_if_needed env m).table.node n = c.table.node n := by
  have hcount : (c.count_fail_reports env m).2.table.node n = c.table.node n :=
    node_modify_of_ne c _ h
  have hflag : ((c.count_fail_reports env m).2.flag_fail env m).table.node n = c.table.node n :=
    (node_modify_of_ne _ _ h).trans hcount
  unfold mark_node_as_failing_if_needed
  refine iteInduction (motive := fun c' : Cluster => c'.table.node n = c.table.node n) (fun _ => rfl) ?_
  exact fun _ => iteInduction (motive := fun c' : Cluster => c'.table.node n = c.table.node n)
    (fun _ => hcount) fun _ => hflag

/-- Who has failed after a call had failed before, or is flagged by it. -/
theorem Call.fail_after (h : (k.after.table.node n).fail = true) :
    (k.state.table.node n).fail = true ∨ k.Flags n := by
  by_cases hn : n = k.node
  · cases hf : (k.state.table.node n).fail with
    | true => exact Or.inl rfl
    | false => exact Or.inr ⟨hn.symm, hf, h⟩
  · rw [Call.after, node_mark_node_as_failing_of_ne hn] at h
    exact Or.inl h

/-- The call of `gossip_step`. -/
def gossip_call (env : Env) (s : NodeId) (before : List GossipEntry) (c : Cluster)
    (g : GossipEntry) : Option Call :=
  if g.id ≠ c.myself ∧ g.id ∈ c.table.known ∧ (c.table.node s).master ∧
      ¬ (c.table.node g.id).handshake ∧ (g.pfail ∨ g.fail) then
    some {
      env
      state := c.modify g.id fun r => r.report s env.now
      node := g.id
      heard := (before ++ [g]).map (GossipEntry.hearsay s env.now) }
  else none

theorem gossip_step_call {before : List GossipEntry} {g : GossipEntry}
    (h : gossip_call env s before c g = some k) : gossip_step env s c g = k.after := by
  unfold gossip_call at h
  split at h
  · rename_i hg
    obtain ⟨hme, hk, hm, hh, hf⟩ := hg
    cases h
    unfold gossip_step
    rw [if_neg hme, if_pos hk, if_pos ⟨hm, hh⟩, if_pos hf]
    rfl
  · cases h

/-- An entry that calls nothing flags nobody. -/
theorem fail_of_gossip_call_none {before : List GossipEntry} {g : GossipEntry}
    (hd : ∀ ip port cport, n ≠ env.random_id ip port cport)
    (hc : gossip_call env s before c g = none)
    (h : ((gossip_step env s c g).table.node n).fail = true) : (c.table.node n).fail = true := by
  unfold gossip_step at h
  split at h
  · exact h
  · rename_i hme
    split at h
    · rename_i hk
      split at h
      · rename_i hg
        split at h
        · rename_i hf
          unfold gossip_call at hc
          rw [if_pos ⟨hme, hk, hg.1, hg.2, hf⟩] at hc
          cases hc
        · revert h
          exact node_modify_rec (P := fun y r => r.fail = true → (c.table.node y).fail = true)
            (fun _ => id) fun _ => id
      · exact h
    · split at h
      · exact h
      · refine Changes.fail_back (o := { aside env g with flags := fun _ => False }) ?_ ?_ trivial id h
        · exact (Changes.refl c).start_handshake ⟨g.ip, g.port, g.cport, rfl⟩
            (Or.inr ⟨_, rfl, Or.inl ⟨rfl, rfl⟩⟩)
        · rintro ⟨ip, port, cport, he⟩
          exact hd ip port cport he

theorem fail_of_gossip_call {before : List GossipEntry} {g : GossipEntry}
    (hc : gossip_call env s before c g = some k)
    (h : ((gossip_step env s c g).table.node n).fail = true) :
    (c.table.node n).fail = true ∨ k.Flags n := by
  rw [gossip_step_call hc] at h
  refine (Call.fail_after h).imp_left ?_
  unfold gossip_call at hc
  split at hc
  · cases hc
    exact node_modify_rec (P := fun y r => r.fail = true → (c.table.node y).fail = true)
      (fun _ => id) fun _ => id
  · cases hc

/-- The call of `detect_failure`. -/
def detect_call (env : Env) (c : Cluster) (n : NodeId) : Option Call :=
  let r := c.table.node n
  if ¬ (n = c.myself ∨ r.handshake ∨ r.noaddr ∨ r.pfail ∨ r.fail) ∧
      r.ping_sent ≠ 0 ∧ c.options.node_timeout < env.now - r.ping_sent then
    some {
      env
      state := (c.modify n fun r => { r with pfail := true }).todo_update_state
      node := n
      heard := [] }
  else none

theorem detect_failure_call (h : detect_call env c n = some k) :
    detect_failure env c n = k.after := by
  unfold detect_call at h
  dsimp only at h
  split at h
  · rename_i hg
    cases h
    unfold detect_failure
    rw [if_neg hg.1, if_pos hg.2]
    rfl
  · cases h

theorem detect_failure_of_none (h : detect_call env c n = none) : detect_failure env c n = c := by
  unfold detect_call at h
  unfold detect_failure
  dsimp only at h ⊢
  split
  · rfl
  · rename_i hskip
    split
    · rename_i hlate
      rw [if_pos ⟨hskip, hlate⟩] at h
      cases h
    · rfl

theorem fail_of_detect_call {m : NodeId} (hc : detect_call env c m = some k)
    (h : ((detect_failure env c m).table.node n).fail = true) :
    (c.table.node n).fail = true ∨ k.Flags n := by
  rw [detect_failure_call hc] at h
  refine (Call.fail_after h).imp_left ?_
  unfold detect_call at hc
  dsimp only at hc
  split at hc
  · cases hc
    exact node_modify_rec (c := c) (f := fun r => { r with pfail := true })
      (P := fun y r => r.fail = true → (c.table.node y).fail = true) (fun _ => id) fun _ => id
  · cases hc

theorem Call.of_gossip {before : List GossipEntry} {g : GossipEntry}
    (h : gossip_call env s before c g = some k) :
    k.node ≠ k.state.myself ∧ k.node ∈ k.state.table.known ∧
      k.heard = (before ++ [g]).map (GossipEntry.hearsay s env.now) := by
  unfold gossip_call at h
  split at h
  · rename_i hg
    cases h
    exact ⟨hg.1, hg.2.1, rfl⟩
  · cases h

theorem Call.of_detect (h : detect_call env c n = some k) (hn : n ∈ c.table.known) :
    k.node ≠ k.state.myself ∧ k.node ∈ k.state.table.known ∧ k.heard = [] := by
  unfold detect_call at h
  dsimp only at h
  split at h
  · rename_i hg
    cases h
    exact ⟨fun e => hg.1 (Or.inl e), hn, rfl⟩
  · cases h

/-- What an event lets a node hear. -/
def heard (c : Cluster) : Event → List Hearsay
  | .packet env l msg =>
    if c.hears env l msg then msg.gossip.map (GossipEntry.hearsay msg.sender env.now) else []
  | _ => []

/-- The calls an event makes. -/
def calls (c : Cluster) : Event → List Call
  | .packet env l msg =>
    if c.hears env l msg then
      calls_along (gossip_step env msg.sender) (gossip_call env msg.sender) []
        (c.process_packet env l msg.bare) msg.gossip
    else []
  | .cron env =>
    if c.host then
      calls_along (detect_failure env) (fun _ => detect_call env) [] (c.cron_links env)
        (c.cron_links env).table.known
    else []
  | _ => []

/-! ## The reports on file are words heard -/

def Recalled (heard : List Hearsay) (c : Cluster) : Prop :=
  ∀ n ∈ c.table.known, n ≠ c.myself → ∀ r ∈ (c.table.node n).fail_reports,
    Hearsay.latest heard r.1 n = some { reporter := r.1, subject := n, failing := true, time := r.2 }

/-- A report of `s` is on file. -/
def Reported (c : Cluster) (s : NodeId) : Prop :=
  ∃ n ∈ c.table.known, ∃ r ∈ (c.table.node n).fail_reports, r.1 = s

instance (c : Cluster) (s : NodeId) : Decidable (c.Reported s) :=
  inferInstanceAs (Decidable (∃ n ∈ c.table.known, ∃ r ∈ (c.table.node n).fail_reports, r.1 = s))

section Changes

variable {o : Cause} {c c' : Cluster} {heard : List Hearsay} {s : NodeId}

/-- Without gossip, no report is filed. -/
theorem Change.reports_sublist (hs : Change o c c') (hb : c.Blank)
    (ho : ∀ m, o.msg = some m → m.gossip = []) (hn : n ∈ c'.table.known) {r : NodeId × Time}
    (hr : r ∈ (c'.table.node n).fail_reports) :
    n ∈ c.table.known ∧ r ∈ (c.table.node n).fail_reports := by
  rcases hs.reports_cases hb n with ⟨hsub, hk⟩ | ⟨m, t, hm, -⟩
  · rcases hk hn with hk | hnil
    · exact ⟨hk, hsub.subset hr⟩
    · rw [hnil] at hr
      cases hr
  · obtain ⟨g, hg, -⟩ := hm.gossip
    rw [ho m hm.msg] at hg
    cases hg

theorem Changes.reports_sublist (hs : Changes o c c') (hb : c.Blank)
    (ho : ∀ m, o.msg = some m → m.gossip = []) (hn : n ∈ c'.table.known) {r : NodeId × Time}
    (hr : r ∈ (c'.table.node n).fail_reports) :
    n ∈ c.table.known ∧ r ∈ (c.table.node n).fail_reports := by
  induction hs with
  | refl => exact ⟨hn, hr⟩
  | tail hcs hlast ih =>
    obtain ⟨hk, hmem⟩ := hlast.reports_sublist (hb.changes hcs) ho hn hr
    exact ih hk hmem

theorem Recalled.changes (h : Recalled heard c) (hs : Changes o c c') (hb : c.Blank)
    (ho : ∀ m, o.msg = some m → m.gossip = []) : Recalled heard c' := by
  intro n hn hme r hr
  obtain ⟨hk, hmem⟩ := hs.reports_sublist hb ho hn hr
  exact h n hk (fun e => hme (e.trans hs.myself.symm)) r hmem

theorem Reported.back (hs : Changes o c c') (hb : c.Blank)
    (ho : ∀ m, o.msg = some m → m.gossip = []) (h : c'.Reported s) : c.Reported s := by
  obtain ⟨n, hn, r, hr, hrs⟩ := h
  obtain ⟨hk, hmem⟩ := hs.reports_sublist hb ho hn hr
  exact ⟨n, hk, r, hmem, hrs⟩

/-- A word about a node of which its speaker has no report on file. -/
theorem Recalled.hear (h : Recalled heard c)
    (hx : x.subject ∈ c.table.known → x.subject ≠ c.myself →
      ∀ r ∈ (c.table.node x.subject).fail_reports, r.1 ≠ x.reporter) :
    Recalled (heard ++ [x]) c := by
  intro n hn hme r hr
  rw [Hearsay.latest_append, if_neg]
  · exact h n hn hme r hr
  · rintro ⟨hrep, rfl⟩
    exact hx hn hme r hr hrep.symm

/-- A word that is filed or struck out: of its speaker, what is left is this word. -/
theorem Recalled.write (h : Recalled heard c) {f : Node → Node}
    (hf : ∀ r ∈ (f (c.table.node x.subject)).fail_reports,
      r ∈ (c.table.node x.subject).fail_reports ∧ r.1 ≠ x.reporter ∨
        x.failing = true ∧ r = (x.reporter, x.time)) :
    Recalled (heard ++ [x]) (c.modify x.subject f) := by
  intro n hn hme r hr
  rw [Hearsay.latest_append]
  by_cases hnx : n = x.subject
  · subst hnx
    rw [node_modify_self] at hr
    rcases hf r hr with ⟨hmem, hne⟩ | ⟨hfail, rfl⟩
    · rw [if_neg fun e => hne e.1.symm]
      exact h x.subject hn hme r hmem
    · rw [if_pos ⟨rfl, rfl⟩, ← hfail]
  · rw [node_modify_of_ne c f hnx] at hr
    rw [if_neg fun e => hnx e.2.symm]
    exact h n hn hme r hr

end Changes

/-! ## Reading gossip

While the gossip of `s` is read, `s` is a master, or has no report on file. Its word
then never leaves an older one of its own behind. -/

section Gossip

variable {env : Env} {s : NodeId} {c : Cluster} {heard : List Hearsay}

/-- What holds while the gossip of `s` is read. -/
structure Listening (heard : List Hearsay) (s : NodeId) (c : Cluster) : Prop where
  blank : c.Blank
  recalled : Recalled heard c
  vouched : c.Reported s → (c.table.node s).master = true

section

variable (h : Listening heard s c)
include h

theorem Listening.aside {g : GossipEntry} {c' : Cluster} (hs : Changes (aside env g) c c')
    (hme : s ≠ c.myself) (hd : ∀ ip port cport, s ≠ env.random_id ip port cport) :
    Listening heard s c' where
  blank := h.blank.changes hs
  recalled := h.recalled.changes hs h.blank aside_bare
  vouched hr := by
    refine hs.master_kept ?_ trivial hme ?_ (h.vouched (hr.back hs h.blank aside_bare))
    · rintro ⟨ip, port, cport, he⟩
      exact hd ip port cport he
    · rintro ⟨m, hm, -, hreplica⟩
      cases hm
      cases hreplica

/-- A row whose reports alone are rewritten, by a master. -/
theorem Listening.write (hm : (c.table.node s).master = true)
    {f : Node → Node} (hrow : ∀ r, (f r).master = r.master)
    (hh : (f (c.table.node x.subject)).handshake = false)
    (hf : ∀ r ∈ (f (c.table.node x.subject)).fail_reports,
      r ∈ (c.table.node x.subject).fail_reports ∧ r.1 ≠ x.reporter ∨
        x.failing = true ∧ r = (x.reporter, x.time)) :
    Listening (heard ++ [x]) s (c.modify x.subject f) where
  blank n := by
    refine node_modify_rec (P := fun _ r => r.handshake = true → r.fail_reports = [])
      (fun _ => h.blank n) fun _ hhand => ?_
    rw [hh] at hhand
    cases hhand
  recalled := h.recalled.write hf
  vouched _ := by
    refine node_modify_rec (P := fun _ r => r.master = true) (fun _ => hm) ?_
    rintro rfl
    rw [hrow]
    exact hm

theorem Listening.gossip_step (hme : s ≠ c.myself)
    (hd : ∀ ip port cport, s ≠ env.random_id ip port cport) (g : GossipEntry) :
    Listening (heard ++ [g.hearsay s env.now]) s (gossip_step env s c g) := by
  have hunfiled : (g.id ∈ c.table.known → g.id ≠ c.myself →
      ∀ r ∈ (c.table.node g.id).fail_reports, r.1 ≠ s) →
      Listening (heard ++ [g.hearsay s env.now]) s c :=
    fun hx => ⟨h.blank, h.recalled.hear hx, h.vouched⟩
  unfold Cluster.gossip_step
  split
  · -- gossip about ourselves is skipped
    rename_i hid
    exact hunfiled fun _ hne => absurd hid hne
  · split
    · rename_i hk
      split
      · rename_i hg
        have hhand : (c.table.node g.id).handshake = false := by simpa using hg.2
        split
        · -- the report is filed, and the node may be marked failing
          rename_i hfail
          have hw := h.write hg.1 (x := g.hearsay s env.now) (f := fun r => r.report s env.now)
            (fun _ => rfl) hhand <| by
              intro r hr
              have hfailing : (g.hearsay s env.now).failing = true := by
                simpa [GossipEntry.hearsay] using hfail
              exact (mem_report hr).imp_right fun e => ⟨hfailing, e⟩
          refine hw.aside (g := g) ?_ hme hd
          exact (Changes.refl _).mark_node_as_failing_if_needed env hk trivial
        · refine h.write hg.1 (x := g.hearsay s env.now) (f := fun r => r.retract s)
            (fun _ => rfl) hhand fun r hr => Or.inl ⟨(List.mem_filter.mp hr).1, ?_⟩
          exact of_decide_eq_true (List.mem_filter.mp hr).2
      · -- the speaker is no master and has no report on file, or nothing is reported of `g`
        rename_i hg
        refine hunfiled fun _ _ r hr hrs => hg ⟨?_, ?_⟩
        · exact h.vouched ⟨g.id, hk, r, hr, hrs⟩
        · intro hhand
          rw [h.blank g.id hhand] at hr
          cases hr
    · rename_i hk
      have hx := hunfiled fun hmem => absurd hmem hk
      split
      · exact hx
      · exact hx.aside (changes_handshake env c g) hme hd

omit h in
theorem myself_gossip_step (env : Env) (s : NodeId) (c : Cluster) (g : GossipEntry) :
    (gossip_step env s c g).myself = c.myself := by
  unfold gossip_step
  refine iteInduction (motive := fun c' : Cluster => c'.myself = c.myself) (fun _ => rfl) fun _ => ?_
  split
  · rename_i hk
    split
    · split
      · have hcs := (Changes.refl (o := Cause.still) (c.modify g.id fun r => r.report s env.now))
          |>.mark_node_as_failing_if_needed env hk trivial
        exact hcs.myself
      · rfl
    · rfl
  · split
    · rfl
    · exact (changes_handshake env c g).myself

theorem Listening.gossip (hme : s ≠ c.myself)
    (hd : ∀ ip port cport, s ≠ env.random_id ip port cport) (gs : List GossipEntry) :
    Listening (heard ++ gs.map (GossipEntry.hearsay s env.now)) s
      (gs.foldl (Cluster.gossip_step env s) c) := by
  induction gs generalizing heard c with
  | nil =>
    rw [List.map_nil, List.append_nil]
    exact h
  | cons g gs ih =>
    rw [List.map_cons, List.append_cons]
    refine ih (h.gossip_step hme hd g) ?_
    rw [myself_gossip_step]
    exact hme

end

end Gossip

/-! ## One event -/

section Event

variable {c : Cluster} {heard : List Hearsay} {env : Env} {l : Inlet} {msg : Message}

/-- A packet with some of its gossip. -/
theorem process_packet_with (env : Env) (c : Cluster) (l : Inlet) (msg : Message)
    (gs : List GossipEntry) :
    c.process_packet env l { msg with gossip := gs } =
      if c.hears env l msg then
        gs.foldl (gossip_step env msg.sender) (c.process_packet env l msg.bare)
      else c.process_packet env l msg.bare :=
  process_packet_gossip env c l { msg with gossip := gs }

/-- The sender of a packet, if it is on record as a reporter, is a master and says so. -/
def Steadfast (c : Cluster) (msg : Message) : Prop :=
  c.Reported msg.sender → (c.table.node msg.sender).master = true ∧ msg.replica = false

instance (c : Cluster) (msg : Message) : Decidable (c.Steadfast msg) :=
  inferInstanceAs (Decidable (_ → _))

/-- Once the header and the claims of a packet are noted, its gossip can be read. -/
theorem Recalled.listening (h : Recalled heard c) (hf : c.Filed)
    (hnew : (Event.packet env l msg).Novel c) (hme : msg.sender ≠ c.myself)
    (hv : c.Steadfast msg) : Listening heard msg.sender (c.process_packet env l msg.bare) := by
  have hcs : Changes ((Event.packet env l msg.bare).cause c) c (c.process_packet env l msg.bare) :=
    changes_handle c (e := .packet env l msg.bare) rfl
  have ho : ∀ m, ((Event.packet env l msg.bare).cause c).msg = some m → m.gossip = [] := by
    intro m hm
    cases hm
    rfl
  refine ⟨hf.blank.changes hcs, h.changes hcs hf.blank ho, fun hr => ?_⟩
  have hrep : c.Reported msg.sender := hr.back hcs hf.blank ho
  obtain ⟨n, hn, r, hmem, hrs⟩ := id hrep
  have hp : c.Proper msg.sender := hrs ▸ (hf.reporter n hn r hmem).1
  refine hcs.master_kept ?_ hp hme ?_ (hv hrep).1
  · exact fun hd => (hnew msg.sender hd).1 hp.1
  · rintro ⟨m, hm, -, hreplica⟩
    cases hm
    have hfalse : msg.bare.replica = false := (hv hrep).2
    rw [hfalse] at hreplica
    cases hreplica

theorem not_drawn_sender (hnew : (Event.packet env l msg).Novel c) (ip : Bytes) (port cport : Nat) :
    msg.sender ≠ env.random_id ip port cport := fun e =>
  (hnew msg.sender ⟨env, List.mem_singleton_self _, ip, port, cport, e⟩).2 msg rfl rfl

theorem Recalled.packet (h : Recalled heard c) (hf : c.Filed)
    (hnew : (Event.packet env l msg).Novel c) (hme : msg.sender ≠ c.myself)
    (hv : c.Steadfast msg) :
    Recalled (heard ++ c.heard (.packet env l msg)) (c.process_packet env l msg) := by
  have hl := h.listening hf hnew hme hv
  have hid : (c.process_packet env l msg.bare).myself = c.myself :=
    (changes_handle c (e := .packet env l msg.bare) rfl).myself
  have hwords : c.heard (.packet env l msg) =
      if c.hears env l msg then msg.gossip.map (GossipEntry.hearsay msg.sender env.now) else [] := rfl
  rw [hwords, process_packet_gossip]
  split
  · refine (hl.gossip ?_ (not_drawn_sender hnew) msg.gossip).recalled
    rw [hid]
    exact hme
  · rw [List.append_nil]
    exact hl.recalled

theorem Recalled.step (h : Recalled heard c) (hf : c.Filed) {e : Event} (hnew : e.Novel c)
    (hme : ∀ m ∈ e.message, m.sender ≠ c.myself) (hv : ∀ m ∈ e.message, c.Steadfast m) :
    Recalled (heard ++ Cluster.heard { c with sent := [] } e) (c.step e) := by
  have hclear : { c with sent := [] }.Filed := ⟨hf.reporter, hf.once, hf.blank⟩
  have hrec : Recalled heard { c with sent := [] } := h
  have hquiet : e.message = none → Recalled heard (c.step e) := by
    intro hm
    rcases step_cases c e with ⟨-, hcs⟩ | ⟨env, store, -, hcs⟩
    · refine hrec.changes hcs hclear.blank fun m hmsg => ?_
      cases hm.symm.trans hmsg
    · -- a process that has just been started has no reports
      have hread : Recalled heard (from_config env c.options c.disk store) :=
        fun _ _ _ _ hr => nomatch hr
      exact hread.changes hcs (fun _ _ => rfl) nofun
  cases e with
  | packet env l msg => exact hrec.packet hclear hnew (hme msg rfl) (hv msg rfl)
  | _ =>
    show Recalled (heard ++ []) _
    rw [List.append_nil]
    exact hquiet rfl

theorem calls_packet (c : Cluster) (env : Env) (l : Inlet) (msg : Message) :
    c.calls (.packet env l msg) = if c.hears env l msg then
      calls_along (Cluster.gossip_step env msg.sender) (gossip_call env msg.sender) []
        (c.process_packet env l msg.bare) msg.gossip else [] := rfl

theorem calls_cron (c : Cluster) (env : Env) : c.calls (.cron env) = if c.host then
    calls_along (Cluster.detect_failure env) (fun _ => detect_call env) [] (c.cron_links env)
      (c.cron_links env).table.known else [] := rfl

/-- **Behind every call** stand reports that are words heard, of other nodes that are
known, each once. -/
theorem recalled_calls (h : Recalled heard c) (hf : c.Filed) {e : Event} (hnew : e.Novel c)
    (hme : ∀ m ∈ e.message, m.sender ≠ c.myself) (hc : ∀ m ∈ e.message, m.Candid)
    (hv : ∀ m ∈ e.message, c.Steadfast m) (hk : k ∈ c.calls e) :
    k.after.Filed ∧ Recalled (heard ++ k.heard) k.after ∧
      k.node ≠ k.state.myself ∧ k.node ∈ k.state.table.known := by
  cases e with
  | packet env l msg =>
    rw [calls_packet] at hk
    split at hk
    · rename_i hh
      obtain ⟨before, g, rest, hgs, hcall⟩ := mem_calls_along hk
      -- the state after the call is the one after the packet with its gossip up to here
      have hafter : k.after = c.process_packet env l { msg with gossip := before ++ [g] } := by
        rw [process_packet_with, if_pos hh, List.foldl_append, ← gossip_step_call hcall]
        rfl
      have hcs : Changes ((Event.packet env l { msg with gossip := before ++ [g] }).cause c) c k.after := by
        rw [hafter]
        exact changes_handle c (e := .packet env l { msg with gossip := before ++ [g] }) rfl
      have hcandid : Message.Candid { msg with gossip := before ++ [g] } := by
        intro x hx
        refine hc msg rfl x ?_
        rw [hgs, List.append_cons]
        exact List.mem_append_left _ hx
      obtain ⟨hother, hknown, hheard⟩ := Call.of_gossip hcall
      have hnew' : (Event.packet env l { msg with gossip := before ++ [g] }).Novel c := by
        intro id hid
        refine ⟨(hnew id hid).1, fun m hm => ?_⟩
        cases hm
        exact (hnew id hid).2 msg rfl
      have hrec := h.packet hf hnew' (hme msg rfl) (hv msg rfl)
      refine ⟨hf.changes hnew'.cause (fun m hm => ?_) hcs, ?_, hother, hknown⟩
      · cases hm
        exact ⟨hme msg rfl, hcandid⟩
      · rw [hafter, hheard]
        have hwords : c.heard (.packet env l { msg with gossip := before ++ [g] }) =
            if c.hears env l msg then (before ++ [g]).map (GossipEntry.hearsay msg.sender env.now)
            else [] := rfl
        rw [hwords, if_pos hh] at hrec
        exact hrec
    · cases hk
  | cron env =>
    rw [calls_cron] at hk
    split at hk
    · obtain ⟨before, n, rest, hns, hcall⟩ := mem_calls_along hk
      have hn : n ∈ (before.foldl (Cluster.detect_failure env) (c.cron_links env)).table.known := by
        rw [known_detect_failures, hns]
        exact List.mem_append_right _ (List.mem_cons_self ..)
      have hcs : Changes ((Event.cron env).cause c) c k.after := by
        rw [← detect_failure_call hcall]
        have hlinks := (Changes.refl (o := (Event.cron env).cause c) c).cron_links rfl env
        have hmem : ∀ x ∈ before, x ∈ (c.cron_links env).table.known := by
          intro x hx
          rw [hns]
          exact List.mem_append_left _ hx
        exact (hlinks.foldl_detect_failure env (fun _ => trivial) hmem).detect_failure env hn trivial
      obtain ⟨hother, hknown, hheard⟩ := Call.of_detect hcall hn
      refine ⟨hf.changes hnew.cause (fun _ hm => absurd hm nofun) hcs, ?_, hother, hknown⟩
      rw [hheard, List.append_nil]
      exact h.changes hcs hf.blank nofun
    · cases hk
  | _ => cases hk

/-! ## No call is left out -/

/-- **Who comes to be flagged as failing** was named in a FAIL message, or is flagged by one
of the calls. -/
theorem flagged_by_call {n : NodeId} {e : Event} (he : e.is_restart = false) (hnew : e.Novel c)
    (hp : c.Proper n) (hbefore : (c.table.node n).fail = false)
    (hafter : ((c.handle e).table.node n).fail = true) :
    (∃ m ∈ e.message, m.type = .kFail ∧ n = m.fail_id) ∨ ∃ k ∈ c.calls e, k.Flags n := by
  have hd : ¬ e.draws n := fun hd => (hnew n hd).1 hp.1
  have hnot : ¬ (c.table.node n).fail = true := by simp [hbefore]
  have hquiet : ¬ e.flags n → False := by
    intro hf
    exact hnot ((changes_handle c he).fail_back hd hp hf hafter)
  cases e with
  | packet env l msg =>
    by_cases hfail : msg.type = .kFail ∧ n = msg.fail_id
    · exact Or.inl ⟨msg, rfl, hfail⟩
    · -- without the gossip nobody is flagged
      have hbare : ¬ ((c.process_packet env l msg.bare).table.node n).fail = true := by
        intro hf
        refine hnot ((changes_handle c (e := .packet env l msg.bare) rfl).fail_back hd hp ?_ hf)
        rintro (hname | ⟨g, hg, -⟩)
        · exact hfail hname
        · cases hg
      change ((c.process_packet env l msg).table.node n).fail = true at hafter
      rw [process_packet_gossip] at hafter
      rw [calls_packet]
      split at hafter
      · rename_i hh
        rw [if_pos hh]
        refine Or.inr ((exists_call_along (P := fun c => (c.table.node n).fail = true)
          (Q := fun k => k.Flags n) ?_ ?_ [] hafter).resolve_left hbare)
        · intro before c₁ g hc
          refine fail_of_gossip_call_none (fun ip port cport he => hd ?_) hc
          exact ⟨env, List.mem_singleton_self _, ip, port, cport, he⟩
        · exact fun before c₁ g k hc => fail_of_gossip_call hc
      · exact absurd hafter hbare
  | cron env =>
    change ((c.cron env).table.node n).fail = true at hafter
    unfold Cluster.cron at hafter
    rw [calls_cron]
    split at hafter
    · exact absurd hafter hnot
    · rename_i hhost
      rw [if_pos (by simpa using hhost)]
      -- what comes before and after the search flags nobody
      let quiet : Cause :=
        { Cause.still with acts := True, polls := True, flags := fun _ => False }
      have hlinks := ((Changes.refl (o := quiet) c).cron_links rfl env).fail_back id trivial id (x := n)
      have hrest := ((Changes.refl (o := quiet) ((c.cron_links env).detect_failures env)).cron_rest
        trivial trivial rfl env).fail_back id trivial id hafter
      refine Or.inr ((exists_call_along (P := fun c => (c.table.node n).fail = true)
        (Q := fun k => k.Flags n) ?_ ?_ [] hrest).resolve_left fun hf => hnot (hlinks hf))
      · intro before c₁ m hc hf
        rwa [detect_failure_of_none hc] at hf
      · exact fun before c₁ m k hc => fail_of_detect_call hc
  | _ => exact (hquiet id).elim

end Event

end Cluster

end EpochKV

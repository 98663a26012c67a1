/-
Commands on one key run in queue order.

Two commands of a batch that name a common key are kept together: as long as both are
to be sent they go to the same node in the same round, the earlier one first
(`Pair.addr`). A node runs what it received in order, so in a round in which the later
one ran the earlier one was received before it (`Turn.pair`). What is left to show is
that the earlier one is not sent again after that. A read whose reply was lost is held
back by a write that follows it (`Held`). A refusal is different: the client resends
the command and does not look at what became of those behind it, so the order rests on
the nodes, which must refuse them too and in the same words (`Network.Firm`).

It also rests on both commands having the slot of their key. The client's table does
not list every command that has keys, and one it does not know has no slot.
-/
import EpochKV.Kvclient.Delivery

set_option autoImplicit false

namespace EpochKV.Kvclient

open Text Resp

/-! ## What a command names -/

/-- The keys of a command, by the server's table; MIGRATE finds its own. -/
def named_keys (argv : Args) : List Key :=
  match argv.head?.bind fun name => Commands.find_command (to_upper name) with
  | none => []
  | some spec =>
    if spec.handler = .migrate then
      match Commands.migrate_options (argv.getD 3 []) (argv.drop 6) {} with
      | .error _ => []
      | .ok o => if o.keys = [] then [argv.getD 3 []] else o.keys
    else Commands.command_keys spec argv

def Shares (f g : Args) : Prop := ∃ k ∈ named_keys f, k ∈ named_keys g

/-- Every command is queued with the slot of the keys it names. -/
def Slotted (batch : List Queued) : Prop :=
  ∀ q ∈ batch, ∀ argv, encode q.args = some argv → ∀ k ∈ named_keys argv, q.slot = some (key_slot k)

/-! ## Nodes -/

/-- A node runs the commands of a batch in the order it received them. -/
def Network.Sequential (net : Network) : Prop :=
  ∀ t a frames (m n : Nat) (x y : Reaction), m < n → (net.deliver t a frames).reactions[m]? = some x →
    (net.deliver t a frames).reactions[n]? = some y → x.rank < y.rank

/-- A node that refuses a command refuses those on the same key behind it in the same
words, and the connection lives until the client knows. -/
structure Network.Firm (net : Network) : Prop where
  same : ∀ t a frames (m n : Nat) (f g : Args) (x y : Reaction), m < n →
    frames[m]? = some f → frames[n]? = some g → (net.deliver t a frames).reactions[m]? = some x →
    (net.deliver t a frames).reactions[n]? = some y → Shares f g → Refused x.reply → y.reply = x.reply
  whole : ∀ t a frames, ∀ r ∈ (net.deliver t a frames).reactions, Refused r.reply →
    (net.deliver t a frames).complete frames.length = true

/-! ## Two commands of one delivery -/

variable {i k : Nat} {x y : Receipt} {q : Queued} {c : Cmd} {res : Result}

theorem sublist_of_sorted {l : List Nat} (hs : l.Pairwise (· ≤ ·)) (hi : i ∈ l) (hk : k ∈ l)
    (hik : i < k) : [i, k].Sublist l := by
  induction l with
  | nil => cases hi
  | cons m l ih =>
    rw [List.pairwise_cons] at hs
    rcases List.mem_cons.mp hi with rfl | hi'
    · rcases List.mem_cons.mp hk with rfl | hk'
      · exact absurd hik (Nat.lt_irrefl k)
      · exact (List.singleton_sublist.mpr hk').cons_cons i
    · rcases List.mem_cons.mp hk with rfl | hk'
      · exact absurd (hs.1 i hi') (Nat.not_le.mpr hik)
      · exact (ih hs.2 hi' hk').cons m

variable {α : Type} {p : Queued} {group : List Nat} {batch : List Queued} {l : List α}

/-- A first part of a list with the second of two elements has the first. -/
theorem sublist_of_first_part [BEq α] [LawfulBEq α] {p : List α} {a b : α} (hab : [a, b].Sublist l)
    (hc : l.count b ≤ 1) (hp : p <+: l) (hb : b ∈ p) : [a, b].Sublist p := by
  obtain ⟨q, rfl⟩ := hp
  have hbq : b ∉ q := by
    intro h
    rw [List.count_append] at hc
    have h1 := List.count_pos_iff.mpr hb
    have h2 := List.count_pos_iff.mpr h
    omega
  obtain ⟨l₁, l₂, he, h₁, h₂⟩ := List.sublist_append_iff.mp hab
  cases l₂ with
  | nil => simpa [he] using h₁
  | cons c l₂ =>
    -- then the second element would be in the other part
    exfalso
    apply hbq
    apply h₂.subset
    have hlast : [a, b].getLast (by simp) = (l₁ ++ c :: l₂).getLast (by simp) := by simp [he]
    simp only [List.getLast_append_of_ne_nil, ne_eq, reduceCtorEq, not_false_eq_true] at hlast
    have hm := List.getLast_mem (l := c :: l₂) (by simp)
    simpa [← hlast] using hm

theorem frames_sublist (cmds : Nat → Cmd) {l m : List Nat} (h : l.Sublist m) :
    (l.map some).Sublist ((Job.frames cmds m).map Prod.fst) := by
  induction h with
  | slnil => exact List.Sublist.refl _
  | @cons l m a _ ih =>
    rw [frames_cons]
    exact (ih.cons _).trans (List.sublist_append_right _ _)
  | @cons_cons l m a _ ih =>
    rw [frames_cons, List.map_cons]
    exact (ih.cons_cons _).trans (List.sublist_append_right _ _)

theorem receipts_at (round : Nat) (fr : Frames) (d : Delivery) {n : Nat} (hn : n < (receipts round fr d).length) :
    ∃ f x, fr[n]? = some f ∧ d.reactions[n]? = some x ∧
      (receipts round fr d)[n] = ⟨f.1, f.2, x.ran, x.reply, round, x.rank, d.complete fr.length⟩ := by
  have h := receipts_getElem? round fr d n
  rw [List.getElem?_eq_getElem hn] at h
  obtain ⟨f, hf, h⟩ := Option.bind_eq_some_iff.mp h.symm
  obtain ⟨x, hx, h⟩ := Option.map_eq_some_iff.mp h
  exact ⟨f, x, hf, hx, h.symm⟩

/-- What the receipts of one delivery are to each other. -/
theorem receipts_pairwise {net : Network} (hseq : net.Sequential) (hfirm : net.Firm) (round t : Nat) (a : Addr)
    (fr : Frames) :
    (receipts round fr (net.deliver t a (fr.map Prod.snd))).Pairwise fun x y =>
      x.rank < y.rank ∧ (Shares x.frame y.frame → Refused x.reply → y.reply = x.reply) := by
  rw [List.pairwise_iff_getElem]
  intro m n hm hn hmn
  obtain ⟨f, x, hf, hx, hxe⟩ := receipts_at round fr (net.deliver t a (fr.map Prod.snd)) hm
  obtain ⟨g, y, hg, hy, hye⟩ := receipts_at round fr (net.deliver t a (fr.map Prod.snd)) hn
  rw [hxe, hye]
  refine ⟨hseq t a _ m n x y hmn hx hy, ?_⟩
  exact hfirm.same t a _ m n f.2 g.2 x y hmn (by rw [List.getElem?_map, hf]; rfl)
    (by rw [List.getElem?_map, hg]; rfl) hx hy

theorem eq_singleton (h : l.length ≤ 1) {x : α} (hx : x ∈ l) : l = [x] := by
  match l, h with
  | [z], _ => rw [List.mem_singleton.mp hx]

theorem eq_of_length_le_one (h : l.length ≤ 1) {x y : α} (hx : x ∈ l) (hy : y ∈ l) : x = y := by
  rw [eq_singleton h hy] at hx
  exact List.mem_singleton.mp hx

section Pairs

variable {py : Python} {net : Network} {pending : List Nat} {ship : List Receipt} {j j' : Job}
  {r : Except Exn (List Nat)} {i k : Nat}

theorem mem_group (hi : i ∈ pending) : i ∈ j.group pending i := by simp [Job.group, hi]

theorem group_eq (ha : (j.cmds i).addr = (j.cmds k).addr) : j.group pending i = j.group pending k := by
  unfold Job.group
  rw [ha]

section

variable (h : Turn py net pending ship j j' r)
include h

/-- Every receipt of a round has its number. -/
theorem Turn.receipt_round (hx : x ∈ of_tag i ship) : x.round = j.client.round + 1 := by
  obtain ⟨-, -, t, fr, -, hx⟩ := h.delivered hx
  obtain ⟨n, f, y, -, -, rfl⟩ := mem_receipts hx
  rfl

/-- A refusal arrives with everything it was sent with. -/
theorem Turn.receipt_whole (hfirm : net.Firm)
    (hx : x ∈ of_tag i ship) (hr : Refused x.reply) : x.whole = true := by
  obtain ⟨-, -, t, fr, -, hx⟩ := h.delivered hx
  obtain ⟨n, f, y, -, hy, rfl⟩ := mem_receipts hx
  have hw := hfirm.whole t _ _ y (List.mem_of_getElem? hy) hr
  rwa [List.length_map] at hw

/-- **Two commands sent together.** If the later one was received, so was the earlier one
before it; and a refusal of the one is a refusal of the other. -/
theorem Turn.pair (hseq : net.Sequential) (hfirm : net.Firm)
    (hl : Loop pending j) (hi : i ∈ pending) (hk : k ∈ pending) (hik : i < k)
    (ha : (j.cmds i).addr = (j.cmds k).addr) (hy : y ∈ of_tag k ship) :
    ∃ x, of_tag i ship = [x] ∧ x.rank < y.rank ∧
      (Shares x.frame y.frame → Refused x.reply → y.reply = x.reply) := by
  have hki : k ∈ j.group pending i := by
    rw [group_eq ha]
    exact mem_group hk
  rcases h.cargo (j.cmds i).addr with hc | ⟨t, fr, hfr, hc⟩
  · rw [hc k hki] at hy
    cases hy
  · have hci := hc i (mem_group hi)
    have hck := hc k hki
    have hpw := receipts_pairwise hseq hfirm (j.client.round + 1) t (j.cmds i).addr fr
    have htags := receipts_tags (j.client.round + 1) fr (net.deliver t (j.cmds i).addr (fr.map Prod.snd))
    have hlei := h.receipts_le_one hl.nodup i
    have hlek := h.receipts_le_one hl.nodup k
    rw [hci] at hlei ⊢
    rw [hck] at hlek hy
    generalize receipts (j.client.round + 1) fr (net.deliver t (j.cmds i).addr (fr.map Prod.snd)) = got at *
    -- the tags of the delivery are those of the group, in order
    have hsub : [i, k].Sublist (j.group pending i) :=
      sublist_of_sorted (hl.sorted.sublist List.filter_sublist) (mem_group hi) hki hik
    have hpair : [some i, some k].Sublist (got.map Receipt.tag) := by
      rw [htags, hfr.tags]
      refine sublist_of_first_part (frames_sublist j.cmds hsub) ?_ (List.take_prefix _ _) ?_
      · rw [count_frames]
        exact List.nodup_iff_count_le_one.mp (hl.nodup.filter _) k
      · rw [← hfr.tags, ← htags]
        obtain ⟨hm, ht⟩ := List.mem_filter.mp hy
        simp only [decide_eq_true_eq] at ht
        exact ht ▸ List.mem_map_of_mem hm
    obtain ⟨two, htwo, he⟩ := List.sublist_map_iff.mp hpair
    obtain ⟨x, rest, rfl, hx, hrest⟩ := List.map_eq_cons_iff.mp he.symm
    obtain ⟨z, rest, rfl, hz, hnil⟩ := List.map_eq_cons_iff.mp hrest
    rw [List.map_eq_nil_iff] at hnil
    subst hnil
    have hxi : x ∈ of_tag i got := List.mem_filter.mpr ⟨htwo.subset (by simp), by simp [hx]⟩
    have hzk : z ∈ of_tag k got := List.mem_filter.mpr ⟨htwo.subset (by simp), by simp [hz]⟩
    have hxz := hpw.sublist htwo
    rw [List.pairwise_pair] at hxz
    rw [eq_of_length_le_one hlek hy hzk]
    exact ⟨x, eq_singleton hlei hxi, hxz⟩

end

end Pairs

/-! ## Order -/

/-- The runs of command `i`. -/
def run_of (i : Nat) (log : List Receipt) : List Receipt := (of_tag i log).filter Receipt.ran

/-- In an earlier round of sending, or in the same one and earlier at the nodes. A receipt
has the round its command was sent in. A node that ran a command after the client had given
up on its connection, and after a later round, cannot be told from one that ran it before. -/
def Receipt.before (x y : Receipt) : Prop := x.round < y.round ∨ x.round = y.round ∧ x.rank < y.rank

/-- Command `i` runs before command `k`. A read can be run again, when its reply was lost;
if one of the two is a write, every run counts. -/
structure InOrder (write : Prop) (i k : Nat) (log : List Receipt) : Prop where
  first : ∀ y ∈ run_of k log, run_of i log = [] ∨ ∃ x ∈ run_of i log, x.before y
  all : write → ∀ x ∈ run_of i log, ∀ y ∈ run_of k log, x.before y

/-- The command as it was queued. -/
structure Carries (q : Queued) (c : Cmd) : Prop where
  args : c.args = q.args
  slot : c.slot = q.slot
  is_write : c.is_write = q.is_write

theorem Carries.same {c' : Cmd} (h : Carries q c) (hs : c.Same c') : Carries q c' :=
  ⟨hs.args.trans h.args, hs.slot.trans h.slot, hs.is_write.trans h.is_write⟩

/-- Two queued commands on one key. -/
structure Rivals (p q : Queued) : Prop where
  slot : p.slot = q.slot
  shares : ∀ f g, encode p.args = some f → encode q.args = some g → Shares f g

/-- What holds of `p` at index `i` and `q` behind it at `k`, between two rounds. -/
structure Pair (p q : Queued) (i k : Nat) (pending : List Nat) (j : Job) : Prop where
  left : i ∈ pending → Carries p (j.cmds i)
  right : k ∈ pending → Carries q (j.cmds k)
  addr : i ∈ pending → k ∈ pending → (j.cmds i).addr = (j.cmds k).addr
  wait : p.is_write = true ∨ q.is_write = true → i ∈ pending → run_of k j.client.log = []
  first : ∀ y ∈ run_of k j.client.log,
    (i ∉ pending ∧ run_of i j.client.log = []) ∨ ∃ x ∈ run_of i j.client.log, x.before y
  all : p.is_write = true ∨ q.is_write = true →
    ∀ x ∈ run_of i j.client.log, ∀ y ∈ run_of k j.client.log, x.before y
  old : ∀ m, ∀ x ∈ of_tag m j.client.log, x.round ≤ j.client.round

theorem Pair.inOrder {pending : List Nat} {j : Job} (h : Pair p q i k pending j) :
    InOrder (p.is_write = true ∨ q.is_write = true) i k j.client.log :=
  ⟨fun y hy => (h.first y hy).imp And.right id, h.all⟩

section Steps

variable {py : Python} {net : Network} {pending l : List Nat} {ship : List Receipt} {j j' : Job}
  {r : Except Exn (List Nat)} {i k : Nat} {p q : Queued}

theorem mem_run_of {log : List Receipt} : x ∈ run_of i log ↔ x ∈ of_tag i log ∧ x.ran = true := by
  simp [run_of]

theorem Turn.run_of (h : Turn py net pending ship j j' r) (i : Nat) :
    run_of i j'.client.log = run_of i j.client.log ++ run_of i ship := by
  rw [Kvclient.run_of, h.log, List.filter_append]
  rfl

section

variable (hp : Pair p q i k pending j)
include hp

/-- Receipts of this round come after those before it. -/
theorem Pair.before_new (h : Turn py net pending ship j j' r)
    {m n : Nat} (hx : x ∈ of_tag m j.client.log) (hy : y ∈ of_tag n ship) : x.before y := by
  refine Or.inl ?_
  rw [h.receipt_round hy]
  exact Nat.lt_succ_of_le (hp.old m x hx)

/-- What refuses the earlier command refuses the later one. -/
theorem Pair.refused (hr : Rivals p q)
    (h : Turn py net pending ship j j' r) (hx : x ∈ of_tag i ship) (hy : y ∈ of_tag k ship)
    (hxy : Shares x.frame y.frame → Refused x.reply → y.reply = x.reply) (hx' : Refused x.reply) :
    y.reply = x.reply := by
  refine hxy (hr.shares _ _ ?_ ?_) hx'
  · rw [← (hp.left (h.delivered hx).1).args]
    exact (h.receipt hx).1
  · rw [← (hp.right ((h.delivered hy).1)).args]
    exact (h.receipt hy).1

omit hp in
theorem Turn.ran_iff (h : Turn py net pending ship j j' r) (hh : net.Honest)
    (hx : x ∈ of_tag i ship) : x.ran = true ↔ ¬ Refused x.reply := by
  obtain ⟨-, t, a, frames, y, hy, he, hr⟩ := h.receipt hx
  rw [← he, ← hr]
  exact hh t a frames y hy

/-- In a round in which the later command runs, the earlier one has run before it. -/
theorem Pair.ran_first (hr : Rivals p q) (hik : i < k)
    (hh : net.Honest) (hseq : net.Sequential) (hfirm : net.Firm) (hl : Loop pending j)
    (h : Turn py net pending ship j j' r) (hi : i ∈ pending) (hy : y ∈ run_of k ship) :
    ∃ x, of_tag i ship = [x] ∧ x.ran = true ∧ x.before y := by
  obtain ⟨hy, hran⟩ := mem_run_of.mp hy
  have hk := (h.delivered hy).1
  obtain ⟨x, hx, hrank, hxy⟩ := h.pair hseq hfirm hl hi hk hik (hp.addr hi hk) hy
  have hxm : x ∈ of_tag i ship := hx ▸ List.mem_singleton_self x
  refine ⟨x, hx, ?_, Or.inr ⟨by rw [h.receipt_round hxm, h.receipt_round hy], hrank⟩⟩
  rw [h.ran_iff hh hxm]
  intro href
  rw [h.ran_iff hh hy, hp.refused hr h hxm hy hxy href] at hran
  exact hran href

/-- The order after a round, however it ended. -/
theorem Pair.inOrder_next (hr : Rivals p q) (hik : i < k) (hh : net.Honest)
    (hseq : net.Sequential) (hfirm : net.Firm) (hl : Loop pending j)
    (h : Turn py net pending ship j j' r) :
    (∀ y ∈ run_of k j'.client.log,
      (i ∉ pending ∧ run_of i j'.client.log = []) ∨ ∃ x ∈ run_of i j'.client.log, x.before y) ∧
    (p.is_write = true ∨ q.is_write = true →
      ∀ x ∈ run_of i j'.client.log, ∀ y ∈ run_of k j'.client.log, x.before y) := by
  have hnew : i ∉ pending → run_of i ship = [] := by
    intro hi
    rw [run_of, h.other i hi]
    rfl
  rw [h.run_of i, h.run_of k]
  refine ⟨fun y hy => ?_, fun hw x hx y hy => ?_⟩
  · rcases List.mem_append.mp hy with hy | hy
    · rcases hp.first y hy with ⟨hi, hnone⟩ | ⟨x, hx, hb⟩
      · exact Or.inl ⟨hi, by rw [hnone, hnew hi]; rfl⟩
      · exact Or.inr ⟨x, List.mem_append_left _ hx, hb⟩
    · -- the later one ran just now: with the earlier one, or after it
      by_cases hi : i ∈ pending
      · obtain ⟨x, hx, hran, hb⟩ := hp.ran_first hr hik hh hseq hfirm hl h hi hy
        refine Or.inr ⟨x, List.mem_append_right _ ?_, hb⟩
        exact mem_run_of.mpr ⟨hx ▸ List.mem_singleton_self x, hran⟩
      · rw [hnew hi, List.append_nil]
        cases hold : run_of i j.client.log with
        | nil => exact Or.inl ⟨hi, rfl⟩
        | cons x more =>
          refine Or.inr ⟨x, List.mem_cons_self, ?_⟩
          have hx : x ∈ run_of i j.client.log := hold ▸ List.mem_cons_self
          exact hp.before_new h (mem_run_of.mp hx).1 (mem_run_of.mp hy).1
  · rcases List.mem_append.mp hx with hx | hx <;> rcases List.mem_append.mp hy with hy | hy
    · exact hp.all hw x hx y hy
    · exact hp.before_new h (mem_run_of.mp hx).1 (mem_run_of.mp hy).1
    · -- the earlier command was still to be sent, so the later one had not run
      have hi := (h.delivered (mem_run_of.mp hx).1).1
      rw [hp.wait hw hi] at hy
      cases hy
    · have hi := (h.delivered (mem_run_of.mp hx).1).1
      obtain ⟨z, hz, -, hb⟩ := hp.ran_first hr hik hh hseq hfirm hl h hi hy
      have hxi := (mem_run_of.mp hx).1
      rw [hz] at hxi
      rw [List.mem_singleton.mp hxi]
      exact hb

omit hp in
/-- A command that is sent again was refused, unless no reply to it was read. -/
theorem Fate.refused (hf : Fate py group ship j i c res true) (hi : i ∈ group)
    (hx : of_tag i ship = [x]) :
    Refused x.reply ∨
      (Torn group ship ∧ (j.cmds i).is_write = false ∧ ¬ Held j.cmds group i) := by
  cases hf with
  | unsent h =>
    rw [h i hi] at hx
    cases hx
  | retried ht hw hh => exact Or.inr ⟨ht, hw, hh⟩
  | @answered z _ _ _ hz hd =>
    rw [hx] at hz
    simp only [List.cons.injEq, and_true] at hz
    subst hz
    exact Or.inl (refused_seen.mp (hd.refused.2 rfl))

omit hp in
theorem held_begin_round (h : Held j.cmds group i) : Held (j.begin_round pending).cmds group i := by
  obtain ⟨k, hk, hw, hs⟩ := h
  refine ⟨k, hk, ?_, ?_⟩
  · rw [(begin_round_same pending j k).is_write]
    exact hw
  · rw [(begin_round_same pending j k).slot, (begin_round_same pending j i).slot]
    exact hs

/-- If the earlier command is sent again, the later one has not run. -/
theorem Pair.wait_next (hr : Rivals p q) (hik : i < k) (hh : net.Honest)
    (hseq : net.Sequential) (hfirm : net.Firm) (hl : Loop pending j)
    (h : Turn py net pending ship j j' (.ok l)) (hw : p.is_write = true ∨ q.is_write = true)
    (hi : i ∈ l) :
    run_of k j'.client.log = [] := by
  have hip := (h.left l rfl).2 i hi
  rw [h.run_of, hp.wait hw hip, List.nil_append, List.eq_nil_iff_forall_not_mem]
  intro y hy
  obtain ⟨x, hx, hran, -⟩ := hp.ran_first hr hik hh hseq hfirm hl h hip hy
  have hyk := (mem_run_of.mp hy).1
  have hk := (h.delivered hyk).1
  obtain ⟨cmd, res, again, hf, -, hag⟩ := (h.each i hip).fate
  obtain ⟨rfl, -⟩ := hag l rfl hi
  rcases hf.refused (mem_group hip) hx with href | ⟨-, hread, hheld⟩
  · exact (h.ran_iff hh (hx ▸ List.mem_singleton_self x)).mp hran href
  · -- the earlier one is a read, so the later one is a write, and holds it back
    rw [(begin_round_same pending j i).is_write, (hp.left hip).is_write] at hread
    have hqw : q.is_write = true := hw.resolve_left (by simp [hread])
    refine hheld (held_begin_round ⟨k, ?_, ?_, ?_⟩)
    · apply sublist_of_sorted (hl.sorted.sublist List.filter_sublist) (mem_group hip) _ hik
      show k ∈ j.group pending i
      rw [group_eq (hp.addr hip hk)]
      exact mem_group hk
    · rw [(hp.right hk).is_write]
      exact hqw
    · rw [(hp.right hk).slot, (hp.left hip).slot, hr.slot]

omit hp in
/-- Where a command goes next, when it is not the node's reply that says so. -/
theorem Onward.addr_of_error {c : Client} {cmd cmd' : Cmd} (h : Onward c cmd cmd') (he : cmd.error ≠ none) :
    c.owner cmd.slot = some cmd'.addr := by
  rcases h with ⟨hn, -⟩ | ⟨e, a, -, -, ho, ha, -⟩
  · exact absurd hn he
  · rw [ha]
    exact ho

omit hp in
/-- Both are sent again for the same reply. -/
theorem Handled.onward {py : Python} {limit : Int} {d c₁ d₁ c₂ d₂ : Cmd} {v : Value} {res' : Result}
    {client : Client} (hc : Handled py limit c v c₁ res true)
    (hd : Handled py limit d v d₁ res' true) (hslot : c.slot = d.slot) (hce : c.error = none)
    (hde : d.error = none) (hco : Onward client c₁ c₂) (hdo : Onward client d₁ d₂) :
    c₂.addr = d₂.addr := by
  cases hc with
  | wait hk =>
    have ho := hco.addr_of_error nofun
    cases hd with
    | wait => 
      have ho' := hdo.addr_of_error nofun
      simp only [hslot] at ho
      rw [ho] at ho'
      exact Option.some.inj ho'
    | follow asking hk' =>
      rw [hk'] at hk
      cases asking <;> simp at hk
  | follow asking hk ht =>
    cases hd with
    | wait hk' =>
      rw [hk] at hk'
      cases asking <;> simp at hk'
    | follow asking' hk' ht' =>
      rw [ht] at ht'
      simp only [Option.some.injEq, Prod.mk.injEq] at ht'
      rcases hco with ⟨-, rfl⟩ | ⟨e, a, he, -⟩
      · rcases hdo with ⟨-, rfl⟩ | ⟨e, a, he, -⟩
        · exact ht'.2
        · simp [hde] at he
      · simp [hce] at he

omit hp in
/-- Why a command is sent again: no reply to it was read, or it was refused. -/
theorem Fate.why (hf : Fate py group ship j i c res true) :
    (Torn group ship ∧ c.error ≠ none ∧ c.slot = (j.cmds i).slot) ∨
      ∃ x, of_tag i ship = [x] ∧
        Handled py j.client.max_redirects (j.cmds i) (seen x.reply) c res true := by
  cases hf with
  | unsent h =>
    refine Or.inl ⟨fun k hk x hx => ?_, nofun, rfl⟩
    rw [h k hk] at hx
    cases hx
  | retried ht => exact Or.inl ⟨ht, nofun, rfl⟩
  | answered hx hd => exact Or.inr ⟨_, hx, hd⟩

omit hp in
theorem Turn.not_torn (h : Turn py net pending ship j j' r) (hfirm : net.Firm) (hi : i ∈ pending)
    {limit : Int} {c' : Cmd} (hx : of_tag i ship = [x])
    (hd : Handled py limit c (seen x.reply) c' res true) : ¬ Torn (j.group pending i) ship := by
  intro ht
  have hxm : x ∈ of_tag i ship := hx ▸ List.mem_singleton_self x
  have hw := h.receipt_whole hfirm hxm (refused_seen.mp (hd.refused.2 rfl))
  rw [ht i (mem_group hi) x hxm] at hw
  cases hw

/-- **Commands on one key stay together.** -/
theorem Pair.addr_next (hr : Rivals p q) (hik : i < k)
    (hseq : net.Sequential) (hfirm : net.Firm) (hl : Loop pending j)
    (h : Turn py net pending ship j j' (.ok l)) (hi : i ∈ l) (hk : k ∈ l) :
    (j'.cmds i).addr = (j'.cmds k).addr := by
  have hip := (h.left l rfl).2 i hi
  have hkp := (h.left l rfl).2 k hk
  have ha := hp.addr hip hkp
  have hslot : ((j.begin_round pending).cmds i).slot = ((j.begin_round pending).cmds k).slot := by
    rw [(begin_round_same pending j i).slot, (begin_round_same pending j k).slot, (hp.left hip).slot,
      (hp.right hkp).slot, hr.slot]
  have hcleared : ∀ m ∈ pending, ((j.begin_round pending).cmds m).error = none := by
    intro m hm
    rw [begin_round_cmds, if_pos hm]
  obtain ⟨c, res, again, hf, -, hag⟩ := (h.each i hip).fate
  obtain ⟨rfl, -, hon⟩ := hag l rfl hi
  obtain ⟨d, res', again, hf', -, hag'⟩ := (h.each k hkp).fate
  obtain ⟨rfl, -, hon'⟩ := hag' l rfl hk
  rcases hf.why with ⟨ht, he, hs⟩ | ⟨x, hx, hd⟩
  · -- the group was torn, so both look up the owner of the slot again
    rcases hf'.why with ⟨-, he', hs'⟩ | ⟨y, hy, hd'⟩
    · have ho := hon.addr_of_error he
      rw [hs, hslot, ← hs', hon'.addr_of_error he'] at ho
      exact (Option.some.inj ho).symm
    · rw [group_eq ha] at ht
      exact absurd ht (h.not_torn hfirm hkp hy hd')
  · rcases hf'.why with ⟨ht', -⟩ | ⟨y, hy, hd'⟩
    · rw [← group_eq ha] at ht'
      exact absurd ht' (h.not_torn hfirm hip hx hd)
    · -- both were refused, and with the same reply
      have hym : y ∈ of_tag k ship := hy ▸ List.mem_singleton_self y
      obtain ⟨z, hz, -, hzy⟩ := h.pair hseq hfirm hl hip hkp hik ha hym
      obtain rfl : x = z := by simpa [hx] using hz
      have hxm : x ∈ of_tag i ship := hx ▸ List.mem_singleton_self x
      rw [hp.refused hr h hxm hym hzy (refused_seen.mp (hd.refused.2 rfl))] at hd'
      exact hd.onward hd' hslot (hcleared i hip) (hcleared k hkp) hon hon'

theorem Pair.next (hr : Rivals p q) (hik : i < k) (hh : net.Honest)
    (hseq : net.Sequential) (hfirm : net.Firm) (hl : Loop pending j)
    (h : Turn py net pending ship j j' (.ok l)) : Pair p q i k l j' := by
  have hsub := (h.left l rfl).2
  obtain ⟨hfirst, hall⟩ := hp.inOrder_next hr hik hh hseq hfirm hl h
  constructor
  · exact fun hi => (hp.left (hsub i hi)).same (h.same hi)
  · exact fun hk => (hp.right (hsub k hk)).same (h.same hk)
  · exact hp.addr_next hr hik hseq hfirm hl h
  · exact hp.wait_next hr hik hh hseq hfirm hl h
  · exact fun y hy => (hfirst y hy).imp_left fun hn => ⟨fun hi => hn.1 (hsub i hi), hn.2⟩
  · exact hall
  · intro m x hx
    rw [h.round]
    rw [h.log, List.mem_append] at hx
    rcases hx with hx | hx
    · exact Nat.le_succ_of_le (hp.old m x hx)
    · exact (h.receipt_round hx).le

end

end Steps

/-! ## The whole call -/

theorem rivals_of_slotted (hs : Slotted batch) (hp : p ∈ batch) (hq : q ∈ batch) {f g : Args}
    (hf : encode p.args = some f) (hg : encode q.args = some g) (h : Shares f g) : Rivals p q := by
  constructor
  · obtain ⟨key, hkf, hkg⟩ := h
    rw [hs p hp f hf key hkf, hs q hq g hg key hkg]
  · intro f' g' hf' hg'
    rw [hf] at hf'
    rw [hg] at hg'
    cases hf'
    cases hg'
    exact h

theorem InOrder.mono {w w' : Prop} {log : List Receipt} (h : InOrder w i k log) (hw : w' → w) :
    InOrder w' i k log := ⟨h.first, fun h' => h.all (hw h')⟩

/-- One call, for any two commands that share a key and have its slot. -/
theorem rivals_in_order {py : Python} {net : Network} (hnet : net.Answering) (hh : net.Honest)
    (hseq : net.Sequential) (hfirm : net.Firm) {c : Client} (hs : c.InStep) (fuel : Nat)
    (hik : i < k) (hp : batch[i]? = some p) (hq : batch[k]? = some q) (hr : Rivals p q) :
    InOrder (p.is_write = true ∨ q.is_write = true) i k (execute py net fuel c batch).2.client.log := by
  unfold execute
  split
  case h_1 => exact ⟨fun y hy => (by cases hy), fun _ x hx => (by cases hx)⟩
  case h_2 cmds hstart =>
    obtain ⟨a, hpa, hpc⟩ := start_cmds hstart hp
    obtain ⟨b, hqb, hqc⟩ := start_cmds hstart hq
    have hpair : Pair p q i k (List.range batch.length) (c.job cmds) := by
      refine ⟨fun _ => ?_, fun _ => ?_, fun _ _ => ?_, fun _ _ => rfl, fun y hy => (by cases hy),
        fun _ x hx => (by cases hx), fun _ x hx => (by cases hx)⟩
      · rw [hpc]
        exact ⟨rfl, rfl, rfl⟩
      · rw [hqc]
        exact ⟨rfl, rfl, rfl⟩
      · rw [hr.slot, hqb] at hpa
        rw [hpc, hqc]
        exact (Option.some.inj hpa).symm
    exact run_turns py hnet (Pair p q i k)
      (fun j => InOrder (p.is_write = true ∨ q.is_write = true) i k j.client.log)
      (fun pending j hpair => hpair.inOrder)
      (fun pending ship j j' l hl hpair ht => hpair.next hr hik hh hseq hfirm hl ht)
      (fun pending ship j j' e hl hpair ht => by
        obtain ⟨hfirst, hall⟩ := hpair.inOrder_next hr hik hh hseq hfirm hl ht
        exact ⟨fun y hy => (hfirst y hy).imp And.right id, hall⟩)
      fuel (loop_start hs cmds batch.length) hpair

/-- **Commands on the same key run in queue order.** If one of the two is a write, no run of
the earlier one comes after a run of the later one: a read never sees a write queued
behind it. Every received command is answered (`Answering`), and a node runs a command in
the round in which it was sent (`Receipt.before`). -/
theorem commands_run_in_order {py : Python} {net : Network} (hnet : net.Answering) (hh : net.Honest)
    (hseq : net.Sequential) (hfirm : net.Firm) {c : Client} (hs : c.InStep)
    {calls : List (List Arg × Option Arg)} {batch : List Queued} (hcalls : queue_all py calls = some batch)
    (hslot : Slotted batch) (fuel : Nat) {i k : Nat} (hik : i < k) {p q : Queued} (hp : batch[i]? = some p)
    (hq : batch[k]? = some q) {f g : Args} (hf : encode p.args = some f) (hg : encode q.args = some g)
    (h : Shares f g) :
    InOrder (IsWrite batch i ∨ IsWrite batch k) i k (execute py net fuel c batch).2.client.log := by
  have hr := rivals_of_slotted hslot (List.mem_of_getElem? hp) (List.mem_of_getElem? hq) hf hg h
  refine (rivals_in_order hnet hh hseq hfirm hs fuel hik hp hq hr).mono ?_
  rintro (hw | hw)
  · exact Or.inl (is_write_of_isWrite hcalls hw hp)
  · exact Or.inr (is_write_of_isWrite hcalls hw hq)

theorem sequential_of (cut : Addr → List Args → Option Nat) (react : Addr → Args → Bool × Value) :
    (Network.torn cut react).Sequential := by
  intro t a frames m n x y hmn hx hy
  have hrank : ∀ (m : Nat) (x : Reaction),
      ((Network.torn cut react).deliver t a frames).reactions[m]? = some x → x.rank = m := by
    intro m x hx
    simp only [Network.torn, List.getElem?_mapIdx] at hx
    obtain ⟨f, -, rfl⟩ := Option.map_eq_some_iff.mp hx
    rfl
  rw [hrank m x hx, hrank n y hy]
  exact hmn

theorem handover_refused {a : Addr} {f : Args} (h : Refused (handover a f).2) :
    a = node_a ∧ (handover a f).2 = .error (lit "ASK 7629 10.0.0.2:7000") := by
  revert h
  unfold handover
  repeat' split
  all_goals simp_all [Refused, whole_map]

/-- The first node sends on whatever names a key. -/
theorem handover_keyed {f : Args} {key : Key} (h : key ∈ named_keys f) :
    (handover node_a f).2 = .error (lit "ASK 7629 10.0.0.2:7000") := by
  have hne : ∀ g, named_keys g = [] → f ≠ g := by
    rintro g hg rfl
    rw [hg] at h
    cases h
  unfold handover
  rw [if_neg (hne _ (by decide +kernel)), if_neg (hne _ (by decide +kernel)), if_neg (hne _ (by decide +kernel)),
    if_pos rfl]

theorem breaking_firm : breaking.Firm := by
  constructor
  · intro t a frames m n f g x y _ hf hg hx hy hshare hr
    obtain ⟨key, -, hkey⟩ := hshare
    simp only [breaking, Network.torn, List.getElem?_mapIdx, hf, hg, Option.map_some, Option.some.injEq] at hx hy
    subst hx hy
    obtain ⟨rfl, hx⟩ := handover_refused hr
    exact (handover_keyed hkey).trans hx.symm
  · intro t a frames r hm hr
    obtain ⟨f, n, rfl⟩ := mem_reactions_of hm
    obtain ⟨rfl, -⟩ := handover_refused hr
    simp [breaking, Network.torn, Delivery.complete]

theorem slotted_of (h : (batch.all fun q => (encode q.args).all fun argv =>
    (named_keys argv).all fun k => q.slot = some (key_slot k)) = true) : Slotted batch := by
  intro q hq argv hargv k hk
  rw [List.all_eq_true] at h
  have := h q hq
  rw [hargv] at this
  simp only [Option.all_some, List.all_eq_true, decide_eq_true_eq] at this
  exact this k hk

theorem crossing_in_order :
    (run_of 4 crossing.client.log).map Receipt.round = [2, 4] ∧
      InOrder True 0 4 crossing.client.log ∧ InOrder True 1 3 crossing.client.log := by
  have h := @commands_run_in_order ascii breaking breaking_answering breaking_honest (sequential_of _ _)
    breaking_firm _ opened_instep _ _ queue_mixed (slotted_of (by decide +kernel)) 9
  have hset : IsWrite (queued mixed) 0 :=
    isWrite_of (q := ⟨text ["SET", "k", "v"], some 7629, true⟩) (by decide +kernel) (by decide +kernel)
  have hexpire : IsWrite (queued mixed) 3 :=
    isWrite_of (q := ⟨text ["EXPIRE", "k", "60"], some 7629, true⟩) (by decide +kernel) (by decide +kernel)
  refine ⟨by decide +kernel, ?_, ?_⟩ <;> unfold crossing
  · exact (h (by decide : 0 < 4) (p := ⟨text ["SET", "k", "v"], some 7629, true⟩)
      (q := ⟨text ["GET", "k"], some 7629, false⟩) (by decide +kernel) (by decide +kernel)
      (f := [lit "SET", lit "k", lit "v"]) (g := [lit "GET", lit "k"]) (by decide) (by decide)
      ⟨lit "k", by decide +kernel, by decide +kernel⟩).mono fun _ => Or.inl hset
  · exact (h (by decide : 1 < 3) (p := ⟨text ["GET", "k"], some 7629, false⟩)
      (q := ⟨text ["EXPIRE", "k", "60"], some 7629, true⟩) (by decide +kernel) (by decide +kernel)
      (f := [lit "GET", lit "k"]) (g := [lit "EXPIRE", lit "k", lit "60"]) (by decide) (by decide)
      ⟨lit "k", by decide +kernel, by decide +kernel⟩).mono fun _ => Or.inr hexpire

/-- A cluster that is all on its second node; the first only knows that. -/
def elsewhere (a : Addr) (f : Args) : Bool × Value :=
  if f = [lit "CLUSTER", lit "SLOTS"] then
    (true, .array [.array [.integer 0, .integer 16383, .array [.bulk (lit "10.0.0.2"), .integer 7000]]])
  else if a = node_a then (false, .error (lit "MOVED 7629 10.0.0.2:7000"))
  else (true, .null)

theorem elsewhere_answering : (Network.of elsewhere).Answering := by
  apply answering_of
  intro a f
  unfold elsewhere
  repeat' split
  all_goals
    simp only [Value.WellFormed, AllWellFormed, Value.Sized, AllSized]
    decide

theorem elsewhere_honest : (Network.of elsewhere).Honest := by
  apply honest_of
  intro a f
  unfold elsewhere
  repeat' split
  all_goals simp [Refused]
  decide

/-- INCR is not in the client's table: it goes to the first node while the GET behind it
goes to the owner of the key. -/
theorem commands_not_in_order :
    ¬ ∀ (py : Python) (net : Network), net.Answering → net.Honest → net.Sequential → ∀ seed max_redirects c,
      Session py net (fun _ => True) seed max_redirects c →
      ∀ calls batch, queue_all py calls = some batch → ∀ fuel i k, i < k → ∀ p q, batch[i]? = some p →
        batch[k]? = some q → ∀ f g, encode p.args = some f → encode q.args = some g → Shares f g →
        InOrder (IsWrite batch i ∨ IsWrite batch k) i k (execute py net fuel c batch).2.client.log := by
  intro h
  have hs : Session ascii (Network.of elsewhere) (fun _ => True) node_a 16
      ((Client.new node_a 16).refresh ascii (Network.of elsewhere)).2 := .opened (by decide +kernel)
  have ho := h ascii (Network.of elsewhere) elsewhere_answering elsewhere_honest (sequential_of _ elsewhere)
    node_a 16 _ hs [(text ["INCR", "k"], none), (text ["GET", "k"], none)]
    (queued [text ["INCR", "k"], text ["GET", "k"]]) (by decide +kernel) 9 0 1 (by decide)
    ⟨text ["INCR", "k"], none, true⟩ ⟨text ["GET", "k"], some 7629, false⟩ (by decide +kernel)
    (by decide +kernel) [lit "INCR", lit "k"] [lit "GET", lit "k"] (by decide) (by decide)
    ⟨lit "k", by decide +kernel, by decide +kernel⟩
  have hrounds : (run_of 0 (execute ascii (Network.of elsewhere) 9
      ((Client.new node_a 16).refresh ascii (Network.of elsewhere)).2
      (queued [text ["INCR", "k"], text ["GET", "k"]])).2.client.log).map Receipt.round = [2] ∧
      (run_of 1 (execute ascii (Network.of elsewhere) 9
      ((Client.new node_a 16).refresh ascii (Network.of elsewhere)).2
      (queued [text ["INCR", "k"], text ["GET", "k"]])).2.client.log).map Receipt.round = [1] := by
    decide +kernel
  generalize (execute ascii (Network.of elsewhere) 9
      ((Client.new node_a 16).refresh ascii (Network.of elsewhere)).2
      (queued [text ["INCR", "k"], text ["GET", "k"]])).2.client.log = log at ho hrounds
  obtain ⟨y, more, hy, hround, -⟩ := List.map_eq_cons_iff.mp hrounds.2
  rcases ho.first y (hy ▸ List.mem_cons_self) with hnone | ⟨x, hx, hb⟩
  · rw [hnone] at hrounds
    simp at hrounds
  · have hx' : x.round ∈ (run_of 0 log).map Receipt.round := List.mem_map_of_mem hx
    rw [hrounds.1, List.mem_singleton] at hx'
    unfold Receipt.before at hb
    omega

end EpochKV.Kvclient

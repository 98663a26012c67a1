/-
A round of `_execute`: the commands are sent and their replies read.

The first stage sends every group and the second reads every group; either may be
left by an exception anywhere. `exchanged_exchange` says what both come to: the log
grows by the receipts of the round, every command has its `Fate`, only the commands
that are sent again are returned, and unless there was an exception the connections
are in step again.
-/
import EpochKV.Kvclient.Flight

set_option autoImplicit false

namespace EpochKV.Kvclient

open Text Resp

/-! ## Groups -/

/-- The groups of a round: one for each address, with its commands in order. -/
structure GroupsOf (addr : Nat → Addr) (pending : List Nat) (g : List (Addr × List Nat)) : Prop where
  nodup : (g.map Prod.fst).Nodup
  member : ∀ a idxs, (a, idxs) ∈ g → idxs = pending.filter (addr · = a) ∧ idxs ≠ []
  cover : ∀ i ∈ pending, addr i ∈ g.map Prod.fst

theorem add_group_fst (a : Addr) (i : Nat) (g : List (Addr × List Nat)) :
    (Job.add_group a i g).map Prod.fst =
      if a ∈ g.map Prod.fst then g.map Prod.fst else g.map Prod.fst ++ [a] := by
  induction g with
  | nil => simp [Job.add_group]
  | cons p more ih =>
    obtain ⟨b, idxs⟩ := p
    unfold Job.add_group
    by_cases hb : b = a
    · simp [hb]
    · have hb' : ¬ a = b := fun h => hb h.symm
      simp only [if_neg hb, List.map_cons, ih, List.mem_cons, hb', false_or]
      split <;> simp

variable {a : Addr} {i : Nat} {g : List (Addr × List Nat)} {idxs pending : List Nat}
  {addr : Nat → Addr} {d : Delivery} {net : Network} {c : Client} {e : Exn} {py : Python}
  {j₀ j : Job}

/-- An entry after a command was added: the old one, or the one of its address. -/
theorem mem_add_group (hn : (g.map Prod.fst).Nodup) {b : Addr} (h : (b, idxs) ∈ Job.add_group a i g) :
    (b ≠ a ∧ (b, idxs) ∈ g) ∨
      (b = a ∧ ∃ old, idxs = old ++ [i] ∧ ((a, old) ∈ g ∨ (old = [] ∧ a ∉ g.map Prod.fst))) := by
  induction g with
  | nil =>
    simp only [Job.add_group, List.mem_singleton, Prod.mk.injEq] at h
    obtain ⟨rfl, rfl⟩ := h
    exact Or.inr ⟨rfl, [], rfl, Or.inr ⟨rfl, by simp⟩⟩
  | cons p more ih =>
    obtain ⟨c, l⟩ := p
    simp only [List.map_cons, List.nodup_cons] at hn
    unfold Job.add_group at h
    by_cases hc : c = a
    · subst hc
      simp only [if_true, List.mem_cons, Prod.mk.injEq] at h
      rcases h with ⟨rfl, rfl⟩ | h
      · exact Or.inr ⟨rfl, l, rfl, Or.inl (by simp)⟩
      · refine Or.inl ⟨?_, List.mem_cons_of_mem _ h⟩
        rintro rfl
        exact hn.1 (List.mem_map_of_mem (f := Prod.fst) h)
    · simp only [if_neg hc, List.mem_cons, Prod.mk.injEq] at h
      rcases h with ⟨rfl, rfl⟩ | h
      · exact Or.inl ⟨hc, by simp⟩
      · rcases ih hn.2 h with ⟨hb, hm⟩ | ⟨hb, old, ho, hm⟩
        · exact Or.inl ⟨hb, List.mem_cons_of_mem _ hm⟩
        · refine Or.inr ⟨hb, old, ho, ?_⟩
          rcases hm with hm | ⟨hm, hno⟩
          · exact Or.inl (List.mem_cons_of_mem _ hm)
          · refine Or.inr ⟨hm, ?_⟩
            simp only [List.map_cons, List.mem_cons, not_or]
            exact ⟨fun h' => hc h'.symm, hno⟩

theorem GroupsOf.add (h : GroupsOf addr pending g) (i : Nat) :
    GroupsOf addr (pending ++ [i]) (Job.add_group (addr i) i g) := by
  constructor
  · rw [add_group_fst]
    split
    case isTrue => exact h.nodup
    case isFalse hn =>
      exact h.nodup.append (List.nodup_singleton _) (List.disjoint_singleton.mpr hn)
  · intro b idxs hb
    rw [List.filter_append]
    rcases mem_add_group h.nodup hb with ⟨hne, hm⟩ | ⟨rfl, old, rfl, hm⟩
    · obtain ⟨he, hn⟩ := h.member b idxs hm
      have hi : ¬ addr i = b := fun e => hne e.symm
      exact ⟨by simp [← he, hi], hn⟩
    · refine ⟨?_, by simp⟩
      rcases hm with hm | ⟨rfl, hno⟩
      · simp [(h.member _ old hm).1]
      · -- nobody in `pending` has this address, or it would have a group
        have hnone : pending.filter (fun k => addr k = addr i) = [] := by
          rw [List.filter_eq_nil_iff]
          intro k hk he
          simp only [decide_eq_true_eq] at he
          exact hno (he ▸ h.cover k hk)
        simp [hnone]
  · intro k hk
    rw [add_group_fst]
    rcases List.mem_append.mp hk with hk | hk
    · have := h.cover k hk
      split <;> simp [this]
    · rw [List.mem_singleton.mp hk]
      split
      case isTrue h => exact h
      case isFalse => simp

theorem groupsOf_foldl (addr : Nat → Addr) (pending before : List Nat) (g : List (Addr × List Nat))
    (h : GroupsOf addr before g) :
    GroupsOf addr (before ++ pending) (pending.foldl (fun g i => Job.add_group (addr i) i g) g) := by
  induction pending generalizing before g with
  | nil => simpa using h
  | cons i more ih =>
    have := ih (before ++ [i]) _ (h.add i)
    simpa using this

theorem groupsOf_groups (addr : Nat → Addr) (pending : List Nat) :
    GroupsOf addr pending (Job.groups addr pending) :=
  groupsOf_foldl addr pending [] [] ⟨by simp, by simp, by simp⟩

variable {p : Addr × List Nat} {round k : Nat} {frames fr : Frames} {x : Receipt} {cmds : Nat → Cmd}
  {ship : List Receipt} {retry : List Nat} {sent : List (Addr × List Nat)}

/-- A group is everything that goes where one of its commands goes. -/
theorem GroupsOf.eq_filter (h : GroupsOf addr pending g) (hp : p ∈ g) (hi : i ∈ p.2) :
    p.2 = pending.filter fun k => addr k = addr i := by
  have he := (h.member p.1 p.2 hp).1
  have hia := hi
  rw [he] at hia
  simp only [List.mem_filter, decide_eq_true_eq] at hia
  rw [he, hia.2]

/-- Every address of a round is that of a command. -/
theorem GroupsOf.exists_addr (h : GroupsOf addr pending g) (ha : a ∈ g.map Prod.fst) :
    ∃ i, addr i = a := by
  obtain ⟨p, hp, rfl⟩ := List.mem_map.mp ha
  obtain ⟨he, hne⟩ := h.member p.1 p.2 hp
  obtain ⟨i, hi⟩ := List.exists_mem_of_ne_nil _ hne
  rw [he] at hi
  simp only [List.mem_filter, decide_eq_true_eq] at hi
  exact ⟨i, hi.2⟩

/-! ## Sending a group -/

/-- The receipt of the `n`-th command. -/
theorem receipts_getElem? (round : Nat) (frames : Frames) (d : Delivery) (n : Nat) :
    (receipts round frames d)[n]? = (frames[n]?).bind fun f => (d.reactions[n]?).map fun r =>
      ⟨f.1, f.2, r.ran, r.reply, round, r.rank, d.complete frames.length⟩ := by
  unfold receipts
  rw [List.getElem?_zipWith]
  cases frames[n]? <;> cases d.reactions[n]? <;> rfl

theorem mem_receipts (h : x ∈ receipts round frames d) :
    ∃ (n : Nat) (f : Option Nat × Args) (r : Reaction),
      frames[n]? = some f ∧ d.reactions[n]? = some r ∧
      x = ⟨f.1, f.2, r.ran, r.reply, round, r.rank, d.complete frames.length⟩ := by
  obtain ⟨n, hn⟩ := List.mem_iff_getElem?.mp h
  rw [receipts_getElem?] at hn
  obtain ⟨f, hf, hn⟩ := Option.bind_eq_some_iff.mp hn
  obtain ⟨r, hr, rfl⟩ := Option.map_eq_some_iff.mp hn
  exact ⟨n, f, r, hf, hr, rfl⟩

theorem receipts_tags (round : Nat) (frames : Frames) (d : Delivery) :
    (receipts round frames d).map Receipt.tag = (frames.map Prod.fst).take d.reactions.length := by
  apply List.ext_getElem?
  intro n
  rw [List.getElem?_map, receipts_getElem?, List.getElem?_take, List.getElem?_map]
  by_cases hn : n < d.reactions.length
  · rw [if_pos hn, List.getElem?_eq_getElem hn]
    cases frames[n]? <;> rfl
  · rw [if_neg hn, List.getElem?_eq_none (Nat.le_of_not_lt hn)]
    cases frames[n]? <;> rfl

theorem receipts_replies (round : Nat) (frames : Frames) (h : ∀ r ∈ d.reactions, r.answered = true) :
    (receipts round frames d).map Receipt.reply = d.replies frames.length := by
  have hall : (d.reactions.take frames.length).filter Reaction.answered = d.reactions.take frames.length :=
    List.filter_eq_self.mpr fun r hr => h r (List.mem_of_mem_take hr)
  unfold Delivery.replies
  rw [hall]
  apply List.ext_getElem?
  intro n
  rw [List.getElem?_map, receipts_getElem?, List.getElem?_map, List.getElem?_take]
  by_cases hn : n < frames.length
  · rw [if_pos hn, List.getElem?_eq_getElem hn]
    cases d.reactions[n]? <;> rfl
  · rw [if_neg hn, List.getElem?_eq_none (Nat.le_of_not_lt hn)]
    rfl

theorem receipts_reaction (h : x ∈ receipts round frames d) :
    ∃ r ∈ d.reactions, r.ran = x.ran ∧ r.reply = x.reply := by
  obtain ⟨n, f, r, -, hr, rfl⟩ := mem_receipts h
  exact ⟨r, List.mem_of_getElem? hr, rfl, rfl⟩

theorem torn_receipts {group : List Nat} (h : d.complete frames.length = false) :
    Torn group (receipts round frames d) :=
  fun _ _ _ hx => by
    obtain ⟨n, f, r, -, -, rfl⟩ := mem_receipts (List.mem_of_mem_filter hx)
    exact h

/-- Each member of a list and its image. -/
theorem mapM_getElem? {α β : Type} {f : α → Option β} {l : List α} {m : List β} (h : l.mapM f = some m)
    (i : Nat) : (l[i]? = none ∧ m[i]? = none) ∨ ∃ a b, l[i]? = some a ∧ m[i]? = some b ∧ f a = some b := by
  induction l generalizing m i with
  | nil =>
    simp only [List.mapM_nil, Option.pure_def, Option.some.injEq] at h
    simp [← h]
  | cons x l ih =>
    simp only [List.mapM_cons, Option.bind_eq_bind, Option.bind_eq_some_iff, Option.pure_def,
      Option.some.injEq] at h
    obtain ⟨y, hy, m', hm', rfl⟩ := h
    cases i with
    | zero => exact Or.inr ⟨x, y, rfl, rfl, hy⟩
    | succ i => simpa using ih hm' i

/-- The commands of a group as they go on the wire. -/
def Encoded (cmds : Nat → Cmd) (idxs : List Nat) (fr : Frames) : Prop :=
  ((Job.frames cmds idxs).mapM fun f => (encode f.2).map fun args => (f.1, args)) = some fr

theorem Encoded.tags (h : Encoded cmds idxs fr) :
    fr.map Prod.fst = (Job.frames cmds idxs).map Prod.fst := by
  apply List.ext_getElem?
  intro n
  rw [List.getElem?_map, List.getElem?_map]
  rcases mapM_getElem? h n with ⟨hl, hr⟩ | ⟨f, p, hl, hr, he⟩ <;> rw [hl, hr]
  · rfl
  · obtain ⟨args, -, rfl⟩ := Option.map_eq_some_iff.mp he
    rfl

theorem Encoded.mem (h : Encoded cmds idxs fr) {p : Option Nat × Args} (hp : p ∈ fr) :
    ∃ f ∈ Job.frames cmds idxs, f.1 = p.1 ∧ encode f.2 = some p.2 := by
  obtain ⟨n, hn⟩ := List.mem_iff_getElem?.mp hp
  rcases mapM_getElem? h n with ⟨-, hr⟩ | ⟨f, q, hl, hr, he⟩ <;> rw [hr] at hn <;> cases hn
  obtain ⟨args, hargs, rfl⟩ := Option.map_eq_some_iff.mp he
  exact ⟨f, List.mem_of_getElem? hl, rfl, hargs⟩

theorem bytes_first_part (d : Delivery) (n : Nat) : d.bytes n <+: render_all (d.replies n) := by
  unfold Delivery.bytes
  split
  case h_1 => exact List.prefix_refl _
  case h_2 k _ => exact List.take_prefix k _

/-- **Once commands are sent**, what the connection brings is what their node answered. -/
theorem owes_send (hnet : net.Answering) (hq : c.Quiet a) (fr : Frames) :
    Owes net ((net.deliver c.tick a (fr.map Prod.snd)).complete fr.length = true) (c.send_frames net a fr).2 a
      (fr.map Prod.fst)
      (receipts c.round fr (net.deliver c.tick a (fr.map Prod.snd))) := by
  have hold : ((c.conns a).map Conn.unread).getD [] = [] := by
    cases hk : c.conns a with
    | none => rfl
    | some k => exact hq k hk
  have hall := hnet.answered c.tick a (fr.map Prod.snd)
  generalize hd : net.deliver c.tick a (fr.map Prod.snd) = d at hall
  have hfull : d.complete fr.length = true → fr.length ≤ d.reactions.length ∧ d.arriving = none := by
    intro h
    simp only [Delivery.complete, Bool.and_eq_true, decide_eq_true_eq, Option.isNone_iff_eq_none] at h
    exact ⟨h.1.2, h.2⟩
  constructor
  · rw [receipts_tags]
    exact List.take_prefix _ _
  · refine ⟨⟨d.bytes fr.length⟩, ?_, ?_, fun h => ?_⟩
    · simp [Client.send_frames, Client.set_unread, Client.next_tick, hold, hd]
    · rw [receipts_replies _ _ hall]
      exact bytes_first_part d fr.length
    · simp only [receipts_replies _ _ hall, Delivery.bytes, (hfull h).2]
  · intro x hx
    obtain ⟨r, hr, -, he⟩ := receipts_reaction hx
    exact ⟨c.tick, a, fr.map Prod.snd, r, hd ▸ hr, he⟩
  · intro h
    rw [receipts_tags]
    apply List.take_of_length_le
    rw [List.length_map]
    exact (hfull h).1

theorem send_frames_log (net : Network) (a : Addr) (fr : Frames) (c : Client) :
    (c.send_frames net a fr).2.log =
      c.log ++ receipts c.round fr (net.deliver c.tick a (fr.map Prod.snd)) := rfl

/-- Sending touches one connection, but for the log. -/
theorem near_send_frames (net : Network) (a : Addr) (fr : Frames) (c : Client) :
    Near a c { (c.send_frames net a fr).2 with log := c.log } :=
  ⟨⟨rfl, rfl, rfl, fun _ hb => Function.update_of_ne hb _ _⟩, fun h => h.remap rfl fun _ hb => hb⟩

theorem send_frames_result (net : Network) (a : Addr) (fr : Frames) (c : Client) :
    (c.send_frames net a fr).1 = .ok () ∨
      ((c.send_frames net a fr).1 = .error .os_error ∧
        (net.deliver c.tick a (fr.map Prod.snd)).complete fr.length = false) := by
  unfold Client.send_frames
  simp only
  by_cases h : (net.deliver c.tick a (fr.map Prod.snd)).sent = true
  · exact Or.inl (if_pos h)
  · exact Or.inr ⟨if_neg h, by simp [Delivery.complete, h]⟩

/-- Receipts are of the commands that were sent. -/
theorem of_tag_receipts (round : Nat) (d : Delivery) (hk : some k ∉ fr.map Prod.fst) :
    of_tag k (receipts round fr d) = [] := by
  unfold of_tag
  rw [List.filter_eq_nil_iff]
  intro x hx ht
  simp only [decide_eq_true_eq] at ht
  have hm : some k ∈ (receipts round fr d).map Receipt.tag := ht ▸ List.mem_map_of_mem hx
  rw [receipts_tags] at hm
  exact hk (List.mem_of_mem_take hm)

theorem conn_error (h : (c.conn net a).1 = .error e) : e = .os_error ∨ e = .other := by
  unfold Client.conn at h
  simp only at h
  split at h
  case isTrue => cases h
  case isFalse =>
    split at h
    case h_1 => cases h
    case h_2 => cases h; exact Or.inl rfl
    case h_3 => cases h; exact Or.inr rfl

/-- `conn` raises something else only where the address cannot be tried. -/
theorem conn_other (h : (c.conn net a).1 = .error e) (he : e ≠ .os_error) :
    ∃ t, net.connect t a = .unusable := by
  unfold Client.conn at h
  simp only at h
  split at h
  case isTrue => cases h
  case isFalse =>
    split at h
    case h_1 => cases h
    case h_2 => cases h; exact absurd rfl he
    case h_3 hu => exact ⟨_, hu⟩

/-- What sending the commands of one node comes to: `ship` are the receipts. -/
structure SentOne (py : Python) (net : Network) (j₀ : Job) (a : Addr) (idxs : List Nat)
    (ship : List Receipt) (j j' : Job) (r : Except Exn (Option (List Nat))) : Prop
    extends Within [a] idxs j j' where
  log : j'.client.log = j.client.log ++ ship
  cargo : ship = [] ∨ ∃ t fr, Encoded j₀.cmds idxs fr ∧
    ship = receipts j₀.client.round fr (net.deliver t a (fr.map Prod.snd))
  raised : ∀ e, r = .error e → ∀ i ∈ idxs, Fated py idxs ship j₀ j' (.error e) i
  back : ∀ l, r = .ok (some l) → (∀ i ∈ idxs, Fated py idxs ship j₀ j' (.ok l) i) ∧
    Again idxs (.ok l) ∧ j'.client.Quiet a
  sent : r = .ok none → InFlight net (¬ Torn idxs ship) j₀ j' a idxs ship ship
  clean : net.Clean py → a.Numbered → j.Tame → (∃ l, r = .ok l) ∧ j'.Tame

theorem SentOne.other {j' : Job} {r : Except Exn (Option (List Nat))}
    (h : SentOne py net j₀ a idxs ship j j' r) (hk : k ∉ idxs) : of_tag k ship = [] := by
  rcases h.cargo with rfl | ⟨t, fr, hfr, rfl⟩
  · rfl
  · apply of_tag_receipts
    rw [hfr.tags]
    exact fun hm => hk (mem_frames_tags hm)

/-- The commands were sent to `a` in one delivery, or not at all. -/
def Carried (net : Network) (cmds : Nat → Cmd) (round : Nat) (a : Addr) (idxs : List Nat)
    (ship : List Receipt) : Prop :=
  (∀ i ∈ idxs, of_tag i ship = []) ∨ ∃ t fr, Encoded cmds idxs fr ∧
    ∀ i ∈ idxs, of_tag i ship = of_tag i (receipts round fr (net.deliver t a (fr.map Prod.snd)))

theorem Carried.of_ship {ship' : List Receipt} (h : Carried net cmds round a idxs ship)
    (hs : ∀ k ∈ idxs, of_tag k ship' = of_tag k ship) : Carried net cmds round a idxs ship' := by
  rcases h with h | ⟨t, fr, hfr, h⟩
  · exact Or.inl fun i hi => (hs i hi).trans (h i hi)
  · exact Or.inr ⟨t, fr, hfr, fun i hi => (hs i hi).trans (h i hi)⟩

theorem SentOne.carried {j' : Job} {r : Except Exn (Option (List Nat))}
    (h : SentOne py net j₀ a idxs ship j j' r) :
    Carried net j₀.cmds j₀.client.round a idxs ship := by
  rcases h.cargo with rfl | ⟨t, fr, hfr, rfl⟩
  · exact Or.inl fun _ _ => rfl
  · exact Or.inr ⟨t, fr, hfr, fun _ _ => rfl⟩

theorem tame_set_errors (h : j.Tame) (e : Option Exn) (idxs : List Nat) :
    (Job.set_errors e idxs j).Tame := by
  refine ⟨h.client, fun k => ?_, fun k => ?_⟩
  · simp only [Job.set_errors]
    split <;> exact h.addrs k
  · simp only [Job.set_errors]
    split <;> exact h.args k

/-- Commands whose arguments can be encoded can be sent. -/
theorem encoded_of_tame (h : j.Tame) (idxs : List Nat) : ∃ fr, Encoded j.cmds idxs fr := by
  unfold Encoded Job.frames
  induction idxs with
  | nil => exact ⟨[], rfl⟩
  | cons i more ih =>
    obtain ⟨fr, hfr⟩ := ih
    obtain ⟨args, hargs⟩ := Option.isSome_iff_exists.mp (h.args i)
    have hask : encode [Arg.text (lit "ASKING")] = some [lit "ASKING"] := rfl
    by_cases ha : (j.cmds i).asking = true <;>
      simp [ha, hfr, hargs, hask]

/-- Nothing was sent. -/
theorem SentOne.nothing (hc : Near a j.client c) (hp : ∀ i ∈ idxs, j.results i = .pending)
    (e : Exn) (hclean : net.Clean py → j.Tame → False) :
    SentOne py net j₀ a idxs [] j { j with client := c } (.error e) :=
  ⟨hc.within (fun _ _ => rfl) fun _ _ => rfl, by simpa using hc.log, Or.inl rfl,
    fun _ he i hi => by cases he; exact Fated.raised (hp i hi) e, nofun, nofun,
    fun hn _ ht => (hclean hn ht).elim⟩

/-- No connection could be opened. -/
theorem SentOne.refused (hd : idxs.Nodup) (hc : Near a j.client c)
    (hcmds : ∀ i ∈ idxs, j.cmds i = j₀.cmds i) (hp : ∀ i ∈ idxs, j.results i = .pending) :
    SentOne py net j₀ a idxs [] j
      (Job.set_errors (some .os_error) idxs { j with client := c.drop a }) (.ok (some idxs)) := by
  have ha := hc.trans (near_drop c a)
  refine ⟨ha.within (fun k hk => if_neg hk) fun _ _ => rfl, ha.log.trans (List.append_nil _).symm,
    Or.inl rfl, nofun, fun l hl => ?_, nofun, fun _ _ ht => ⟨⟨_, rfl⟩, ?_⟩⟩
  swap
  · exact tame_set_errors (ht.client_of (ha.tame ht.client)) _ _
  simp only [Except.ok.injEq, Option.some.injEq] at hl
  subst hl
  refine ⟨fun i hi => ⟨true, ?_, fun _ _ _ => rfl⟩, ?_, quiet_drop c a⟩
  swap
  · rintro _ ⟨⟩
    exact ⟨hd, fun _ h => h⟩
  have hci : (Job.set_errors (some .os_error) idxs { j with client := c.drop a }).cmds i =
      { j₀.cmds i with error := some .os_error } := by
    rw [← hcmds i hi]
    exact if_pos hi
  have hri : (Job.set_errors (some .os_error) idxs { j with client := c.drop a }).results i = .pending :=
    hp i hi
  rw [hci, hri]
  exact Fate.unsent fun _ _ => rfl

/-- The connection broke while the commands were being sent: some were received. -/
theorem SentOne.lost (h : SentOne py net j₀ a idxs ship j { j with client := c } (.ok none))
    (hn : Torn idxs ship) (hd : idxs.Nodup) (hcmds : ∀ i ∈ idxs, j.cmds i = j₀.cmds i)
    (hp : ∀ i ∈ idxs, j.results i = .pending) :
    SentOne py net j₀ a idxs ship j
      (match Job.drop_lost a idxs { j with client := c } with
        | (.error e, j) => (Except.error e, j)
        | (.ok back, j) => (Except.ok (some back), j)).2
      (match Job.drop_lost a idxs { j with client := c } with
        | (.error e, j) => (Except.error e, j)
        | (.ok back, j) => (Except.ok (some back), j)).1 := by
  have hs := served_lost py net hn (j := { j with client := c }) (a := a) List.suffix_rfl hd hcmds hp
  generalize Job.drop_lost a idxs { j with client := c } = p at hs
  obtain ⟨r, j'⟩ := p
  have hw := h.toWithin.and hs.touches.within
  have hlog := hs.touches.client.log.trans h.log
  cases r with
  | error e =>
    refine ⟨hw, hlog, h.cargo, ?_, nofun, nofun, fun hc ha ht => ?_⟩
    · rintro e' ⟨⟩
      exact hs.each
    · obtain ⟨⟨l, hl⟩, -⟩ := hs.clean hc ha (h.clean hc ha ht).2
      cases hl
  | ok back =>
    refine ⟨hw, hlog, h.cargo, nofun, ?_, nofun, fun hc ha ht => ⟨⟨_, rfl⟩, (hs.clean hc ha (h.clean hc ha ht).2).2⟩⟩
    rintro l ⟨⟩
    exact ⟨hs.each, hs.retry, hs.quiet back rfl⟩

theorem sentOne_send_group (py : Python) (hnet : net.Answering) (hd : idxs.Nodup)
    (hq : j.client.Quiet a) (hround : j.client.round = j₀.client.round)
    (hlimit : j.client.max_redirects = j₀.client.max_redirects)
    (hcmds : ∀ i ∈ idxs, j.cmds i = j₀.cmds i) (hp : ∀ i ∈ idxs, j.results i = .pending) :
    ∃ ship, SentOne py net j₀ a idxs ship j (Job.send_group net a idxs j).2
      (Job.send_group net a idxs j).1 := by
  have hside := near_conn net a j.client
  have hquiet := quiet_conn net hq
  unfold Job.send_group
  cases hconn : j.client.conn net a with
  | mk r c =>
    have herr : ∀ e, r = .error e → e ≠ .os_error → net.Clean py → j.Tame → False := by
      intro e he hne hc _
      obtain ⟨t, ht⟩ := conn_other (by rw [hconn]; exact he) hne
      exact hc.connect t a ht
    rw [hconn] at hside hquiet
    simp only at hside hquiet
    match r with
    | .error .os_error => exact ⟨[], SentOne.refused hd hside hcmds hp⟩
    | .ok () =>
      have hframes : Job.frames j.cmds idxs = Job.frames j₀.cmds idxs := by
        unfold Job.frames
        apply List.flatMap_congr
        intro i hi
        rw [hcmds i hi]
      simp only [Client.send_many, hframes]
      cases hfr : (Job.frames j₀.cmds idxs).mapM fun f => (encode f.2).map fun args => (f.1, args) with
      | none =>
        refine ⟨[], SentOne.nothing hside hp _ fun _ ht => ?_⟩
        obtain ⟨fr, he⟩ := encoded_of_tame ht idxs
        unfold Encoded at he
        rw [hframes, hfr] at he
        cases he
      | some fr =>
        have henc : Encoded j₀.cmds idxs fr := hfr
        have howes := owes_send hnet hquiet.1 fr
        rw [henc.tags] at howes
        have hlog := send_frames_log net a fr c
        have hnear := hside.trans (near_send_frames net a fr c)
        have hres := send_frames_result net a fr c
        simp only
        rw [hside.round, hround] at howes hlog
        generalize hd' : net.deliver c.tick a (fr.map Prod.snd) = d at howes hlog hres
        generalize c.send_frames net a fr = p at howes hlog hnear hres
        obtain ⟨r', c'⟩ := p
        -- a reply that may be missing is one of a delivery that was torn
        have hwhole := howes.mono fun hn : ¬ Torn idxs (receipts j₀.client.round fr d) => by
          by_contra hd
          exact hn (torn_receipts (by simpa using hd))
        refine ⟨receipts j₀.client.round fr d, ?_⟩
        have hcargo : SentOne py net j₀ a idxs (receipts j₀.client.round fr d) j { j with client := c' }
            (.ok none) :=
          ⟨⟨hnear.round, hnear.limit, fun b hb => hnear.conns b (by simpa using hb),
              fun _ _ => rfl, fun _ _ => rfl⟩,
            by rw [hlog, hside.log], Or.inr ⟨c.tick, fr, henc, by rw [hd']⟩, nofun, nofun,
            fun _ => ⟨hwhole, hcmds, hp, fun _ _ => rfl, hnear.limit.trans hlimit⟩,
            fun _ _ ht => ⟨⟨_, rfl⟩, ht.client_of ((hnear.tame ht.client).remap rfl fun _ hb => hb)⟩⟩
        rcases hres with rfl | ⟨rfl, hn⟩
        · exact hcargo
        · exact hcargo.lost (torn_receipts hn) hd hcmds hp
    | .error .other | .error .no_node_answers | .error (.reply_error _) | .error (.too_many_redirects _)
    | .error (.uncertain_write _ _) | .error (.read_not_retried _ _) =>
      exact ⟨[], SentOne.nothing hside hp _ (herr _ rfl nofun)⟩

/-! ## Sending every group -/

/-- What the first stage of a round comes to: `ship` are the receipts. -/
structure SentAll (py : Python) (net : Network) (j₀ : Job) (todo : List (Addr × List Nat))
    (ship : List Receipt) (j j' : Job) (r : Except Exn (List Nat × List (Addr × List Nat))) : Prop
    extends Within (todo.map Prod.fst) (members todo) j j' where
  log : j'.client.log = j.client.log ++ ship
  other : ∀ k, k ∉ members todo → of_tag k ship = []
  cargo : ∀ p ∈ todo, Carried net j₀.cmds j₀.client.round p.1 p.2 ship
  raised : ∀ e, r = .error e → ∀ p ∈ todo, ∀ i ∈ p.2, Fated py p.2 ship j₀ j' (.error e) i
  sent : ∀ retry sent, r = .ok (retry, sent) → sent.Sublist todo ∧
    ∀ p ∈ sent, ∃ owed, InFlight net (¬ Torn p.2 ship) j₀ j' p.1 p.2 ship owed
  back : ∀ retry sent, r = .ok (retry, sent) → ∀ p ∈ todo, p ∉ sent →
    j'.client.Quiet p.1 ∧ ∀ i ∈ p.2, Fated py p.2 ship j₀ j' (.ok retry) i
  retry : ∀ retry sent, r = .ok (retry, sent) → retry.Nodup ∧
    ∀ i ∈ retry, ∃ p ∈ todo, p ∉ sent ∧ i ∈ p.2
  clean : net.Clean py → (∀ a ∈ todo.map Prod.fst, a.Numbered) → j.Tame → (∃ l, r = .ok l) ∧ j'.Tame

theorem SentAll.nil (py : Python) (net : Network) (j₀ j : Job) :
    SentAll py net j₀ [] [] j j (.ok ([], [])) := by
  refine ⟨Within.refl _ _ j, by simp, fun _ _ => rfl, by simp, nofun, fun _ _ hr => ?_, by simp, fun _ _ hr => ?_, fun _ _ ht => ⟨⟨_, rfl⟩, ht⟩⟩
  · cases hr
    simp
  · cases hr
    simp

/-- The first node raised: the others got nothing. -/
theorem SentAll.stop {j₁ : Job} {more : List (Addr × List Nat)}
    (h : SentOne py net j₀ a idxs ship j j₁ (.error e)) (hsep : ∀ k ∈ members more, k ∉ idxs)
    (hp : ∀ i ∈ members more, j.results i = .pending) :
    SentAll py net j₀ ((a, idxs) :: more) ship j j₁ (.error e) := by
  refine ⟨h.first more, h.log, fun k hk => h.other fun hm => hk (List.mem_append_left _ hm), ?_, ?_, nofun, nofun, nofun,
    fun hc hn ht => ?_⟩
  · intro p hp'
    rcases List.mem_cons.mp hp' with rfl | hp'
    · exact h.carried
    · exact Or.inl fun i hi => h.other (hsep i (mem_members.mpr ⟨p, hp', hi⟩))
  · rintro e' ⟨⟩ p hp' i hi
    rcases List.mem_cons.mp hp' with rfl | hp'
    · exact h.raised e rfl i hi
    · have him := mem_members.mpr ⟨p, hp', hi⟩
      apply Fated.raised
      rw [h.results i (hsep i him)]
      exact hp i him
  · obtain ⟨⟨l, hl⟩, -⟩ := h.clean hc (hn a List.mem_cons_self) ht
    cases hl

section Cons

variable {py : Python} {net : Network} {j₀ j j₁ j₂ : Job} {a : Addr} {idxs : List Nat}
  {more : List (Addr × List Nat)} {ship₁ ship₂ : List Receipt} {back : Option (List Nat)}
  {r : Except Exn (List Nat × List (Addr × List Nat))}

/-- The groups of a round share no address and no command. -/
structure Apart (a : Addr) (idxs : List Nat) (more : List (Addr × List Nat)) : Prop where
  addr : a ∉ more.map Prod.fst
  cmds : ∀ k ∈ members more, k ∉ idxs

/-- The receipts of a command are those of its own group. -/
theorem of_tag_first (h : SentAll py net j₀ more ship₂ j₁ j₂ r) (hsep : Apart a idxs more)
    (hi : i ∈ idxs) : of_tag i (ship₁ ++ ship₂) = of_tag i ship₁ := by
  rw [of_tag_append, h.other i fun hm => hsep.cmds i hm hi, List.append_nil]

theorem of_tag_second (h : SentOne py net j₀ a idxs ship₁ j j₁ (.ok back))
    (hsep : Apart a idxs more) (hi : i ∈ members more) :
    of_tag i (ship₁ ++ ship₂) = of_tag i ship₂ := by
  rw [of_tag_append, h.other (hsep.cmds i hi), List.nil_append]

section

variable (h₁ : SentOne py net j₀ a idxs ship₁ j j₁ (.ok back))
include h₁

/-- What the two have in common, however the rest of the stage ends. -/
theorem sentAll_frame (h₂ : SentAll py net j₀ more ship₂ j₁ j₂ r) (hsep : Apart a idxs more) :
    j₂.client.log = j.client.log ++ (ship₁ ++ ship₂) ∧
      (∀ k, k ∉ members ((a, idxs) :: more) → of_tag k (ship₁ ++ ship₂) = []) ∧
      ∀ p ∈ (a, idxs) :: more, Carried net j₀.cmds j₀.client.round p.1 p.2 (ship₁ ++ ship₂) := by
  refine ⟨by rw [h₂.log, h₁.log, List.append_assoc], fun k hk => ?_, fun p hp => ?_⟩
  · simp only [members_cons, List.mem_append, not_or] at hk
    rw [of_tag_append, h₁.other hk.1, h₂.other k hk.2, List.append_nil]
  · rcases List.mem_cons.mp hp with rfl | hp
    · exact h₁.carried.of_ship fun i hi => of_tag_first h₂ hsep hi
    · exact (h₂.cargo p hp).of_ship fun i hi => of_tag_second h₁ hsep (mem_members.mpr ⟨p, hp, hi⟩)

omit h₁ in
theorem torn_first (h : SentAll py net j₀ more ship₂ j₁ j₂ r) (hsep : Apart a idxs more) :
    Torn idxs ship₁ → Torn idxs (ship₁ ++ ship₂) :=
  fun ht k hk x hx => ht k hk x (of_tag_first h hsep hk ▸ hx)

omit h₁ in
theorem torn_second (h : SentOne py net j₀ a idxs ship₁ j j₁ (.ok back)) (hsep : Apart a idxs more)
    (hp : p ∈ more) : Torn p.2 ship₂ → Torn p.2 (ship₁ ++ ship₂) :=
  fun ht k hk x hx => ht k hk x (of_tag_second h hsep (mem_members.mpr ⟨p, hp, hk⟩) ▸ hx)

theorem sentAll_clean (h₂ : SentAll py net j₀ more ship₂ j₁ j₂ r) (hc : net.Clean py)
    (hn : ∀ b ∈ ((a, idxs) :: more).map Prod.fst, b.Numbered) (ht : j.Tame) :
    (∃ l, r = .ok l) ∧ j₂.Tame :=
  h₂.clean hc (fun b hb => hn b (List.mem_cons_of_mem _ hb)) (h₁.clean hc (hn a List.mem_cons_self) ht).2

omit h₁ in
/-- A command of the first group when the others have been sent. -/
theorem first_unchanged (h₂ : SentAll py net j₀ more ship₂ j₁ j₂ r) (hsep : Apart a idxs more)
    (hi : i ∈ idxs) : j₂.cmds i = j₁.cmds i ∧ j₂.results i = j₁.results i :=
  ⟨h₂.cmds i fun hm => hsep.cmds i hm hi, h₂.results i fun hm => hsep.cmds i hm hi⟩

theorem SentAll.cons_error (h₂ : SentAll py net j₀ more ship₂ j₁ j₂ (.error e))
    (hsep : Apart a idxs more) :
    SentAll py net j₀ ((a, idxs) :: more) (ship₁ ++ ship₂) j j₂ (.error e) := by
  obtain ⟨hlog, hother, hcargo⟩ := sentAll_frame h₁ h₂ hsep
  refine ⟨h₁.cons h₂.toWithin, hlog, hother, hcargo, ?_, nofun, nofun, nofun, sentAll_clean h₁ h₂⟩
  rintro e' ⟨⟩ p hp i hi
  rcases List.mem_cons.mp hp with rfl | hp
  · obtain ⟨hc, hr⟩ := first_unchanged h₂ hsep hi
    match back, h₁ with
    | some l, h₁ =>
      have hm : Fated py idxs ship₁ j₀ j₂ (.error e) i := ((h₁.back l rfl).1 i hi).mono hc hr nofun
      exact hm.of_ship hi fun k hk => of_tag_first h₂ hsep hk
    | none, h₁ =>
      apply Fated.raised
      rw [hr]
      exact (h₁.sent rfl).results i hi
  · exact (h₂.raised e rfl p hp i hi).of_ship hi fun k hk =>
      of_tag_second h₁ hsep (mem_members.mpr ⟨p, hp, hk⟩)

end

/-- The first group was not sent, or lost while it was. -/
theorem SentAll.cons_back {l : List Nat} (h₁ : SentOne py net j₀ a idxs ship₁ j j₁ (.ok (some l)))
    (h₂ : SentAll py net j₀ more ship₂ j₁ j₂ (.ok (retry, sent))) (hsep : Apart a idxs more) :
    SentAll py net j₀ ((a, idxs) :: more) (ship₁ ++ ship₂) j j₂ (.ok (l ++ retry, sent)) := by
  obtain ⟨hlog, hother, hcargo⟩ := sentAll_frame h₁ h₂ hsep
  obtain ⟨hfate, hback, hquiet⟩ := h₁.back l rfl
  obtain ⟨hsl, hfly⟩ := h₂.sent retry sent rfl
  have hnotin : (a, idxs) ∉ sent := fun h => hsep.addr (List.mem_map_of_mem (hsl.mem h))
  have hretry := h₂.retry retry sent rfl
  have hagain : Again (members more) (.ok retry) := by
    rintro _ ⟨⟩
    refine ⟨hretry.1, fun i hi => ?_⟩
    obtain ⟨p, hp, -, hip⟩ := hretry.2 i hi
    exact mem_members.mpr ⟨p, hp, hip⟩
  refine ⟨h₁.cons h₂.toWithin, hlog, hother, hcargo, nofun, ?_, ?_, ?_,
    fun hc hn ht => ⟨⟨_, rfl⟩, (sentAll_clean h₁ h₂ hc hn ht).2⟩⟩
  · rintro _ _ ⟨⟩
    refine ⟨hsl.cons _, fun p hp => ?_⟩
    obtain ⟨owed, ho⟩ := hfly p hp
    exact ⟨owed, ho.keep (mt (torn_second h₁ hsep (hsl.mem hp))) rfl rfl (fun _ _ => rfl) (fun _ _ => rfl)
      fun k hk => of_tag_second h₁ hsep (mem_members.mpr ⟨p, hsl.mem hp, hk⟩)⟩
  · rintro _ _ ⟨⟩ p hp hps
    rcases List.mem_cons.mp hp with rfl | hp
    · refine ⟨fun k hk => hquiet k (by rw [← h₂.conns a hsep.addr]; exact hk), fun i hi => ?_⟩
      obtain ⟨hc, hr⟩ := first_unchanged h₂ hsep hi
      exact Fated.of_ship ((hfate i hi).before hc hr hagain fun hm => hsep.cmds i hm hi) hi fun k hk =>
        of_tag_first h₂ hsep hk
    · obtain ⟨hq, hf⟩ := h₂.back retry sent rfl p hp hps
      refine ⟨hq, fun i hi => ?_⟩
      exact Fated.of_ship ((hf i hi).after hback (hsep.cmds i (mem_members.mpr ⟨p, hp, hi⟩))) hi
        fun k hk => of_tag_second h₁ hsep (mem_members.mpr ⟨p, hp, hk⟩)
  · rintro _ _ ⟨⟩
    refine ⟨(hback.append hagain hsep.cmds _ rfl).1, fun i hi => ?_⟩
    rcases List.mem_append.mp hi with hi | hi
    · exact ⟨(a, idxs), List.mem_cons_self, hnotin, (hback l rfl).2 i hi⟩
    · obtain ⟨p, hp, hps, hip⟩ := hretry.2 i hi
      exact ⟨p, List.mem_cons_of_mem _ hp, hps, hip⟩

/-- The first group is in flight. -/
theorem SentAll.cons_sent (h₁ : SentOne py net j₀ a idxs ship₁ j j₁ (.ok none))
    (h₂ : SentAll py net j₀ more ship₂ j₁ j₂ (.ok (retry, sent))) (hsep : Apart a idxs more) :
    SentAll py net j₀ ((a, idxs) :: more) (ship₁ ++ ship₂) j j₂ (.ok (retry, (a, idxs) :: sent)) := by
  obtain ⟨hlog, hother, hcargo⟩ := sentAll_frame h₁ h₂ hsep
  obtain ⟨hsl, hfly⟩ := h₂.sent retry sent rfl
  have hretry := h₂.retry retry sent rfl
  refine ⟨h₁.cons h₂.toWithin, hlog, hother, hcargo, nofun, ?_, ?_, ?_,
    fun hc hn ht => ⟨⟨_, rfl⟩, (sentAll_clean h₁ h₂ hc hn ht).2⟩⟩
  · rintro _ _ ⟨⟩
    refine ⟨hsl.cons_cons _, fun p hp => ?_⟩
    rcases List.mem_cons.mp hp with rfl | hp
    · exact ⟨ship₁, (h₁.sent rfl).keep (mt (torn_first h₂ hsep)) (h₂.conns a hsep.addr) h₂.limit
        (fun k hk => (first_unchanged h₂ hsep hk).1) (fun k hk => (first_unchanged h₂ hsep hk).2)
        fun k hk => of_tag_first h₂ hsep hk⟩
    · obtain ⟨owed, ho⟩ := hfly p hp
      exact ⟨owed, ho.keep (mt (torn_second h₁ hsep (hsl.mem hp))) rfl rfl (fun _ _ => rfl) (fun _ _ => rfl)
        fun k hk => of_tag_second h₁ hsep (mem_members.mpr ⟨p, hsl.mem hp, hk⟩)⟩
  · rintro _ _ ⟨⟩ p hp hps
    simp only [List.mem_cons, not_or] at hps
    rcases List.mem_cons.mp hp with rfl | hp
    · exact absurd rfl hps.1
    · obtain ⟨hq, hf⟩ := h₂.back retry sent rfl p hp hps.2
      exact ⟨hq, fun i hi => (hf i hi).of_ship hi fun k hk =>
        of_tag_second h₁ hsep (mem_members.mpr ⟨p, hp, hk⟩)⟩
  · rintro _ _ ⟨⟩
    refine ⟨hretry.1, fun i hi => ?_⟩
    obtain ⟨p, hp, hps, hip⟩ := hretry.2 i hi
    refine ⟨p, List.mem_cons_of_mem _ hp, ?_, hip⟩
    simp only [List.mem_cons, not_or]
    refine ⟨?_, hps⟩
    rintro rfl
    exact hsep.addr (List.mem_map_of_mem (f := Prod.fst) hp)

end Cons

/-- **The first stage**: every group is sent, lost, or not sent at all. -/
theorem sentAll_send_groups (py : Python) (hnet : net.Answering) (todo : List (Addr × List Nat))
    (ha : (todo.map Prod.fst).Nodup) (hd : (members todo).Nodup) (j : Job)
    (hq : ∀ a ∈ todo.map Prod.fst, j.client.Quiet a) (hround : j.client.round = j₀.client.round)
    (hlimit : j.client.max_redirects = j₀.client.max_redirects)
    (hcmds : ∀ i ∈ members todo, j.cmds i = j₀.cmds i)
    (hp : ∀ i ∈ members todo, j.results i = .pending) :
    ∃ ship, SentAll py net j₀ todo ship j (Job.send_groups net todo j).2 (Job.send_groups net todo j).1 := by
  induction todo generalizing j with
  | nil => exact ⟨[], SentAll.nil py net j₀ j⟩
  | cons p more ih =>
    obtain ⟨a, idxs⟩ := p
    simp only [List.map_cons, List.nodup_cons] at ha
    rw [members_cons, List.nodup_append] at hd
    have hsep : Apart a idxs more := ⟨ha.1, fun k hk hi => hd.2.2 k hi k hk rfl⟩
    obtain ⟨ship₁, h₁⟩ := sentOne_send_group py hnet hd.1 (hq a List.mem_cons_self) hround hlimit
      (fun i hi => hcmds i (List.mem_append_left _ hi)) fun i hi => hp i (List.mem_append_left _ hi)
    unfold Job.send_groups
    generalize Job.send_group net a idxs j = s at h₁
    obtain ⟨r, j₁⟩ := s
    have hpmore : ∀ i ∈ members more, j.results i = .pending := fun i hi => hp i (List.mem_append_right _ hi)
    cases r with
    | error e => exact ⟨ship₁, SentAll.stop h₁ hsep.cmds hpmore⟩
    | ok back =>
      obtain ⟨ship₂, h₂⟩ := ih ha.2 hd.2.1 j₁
        (fun b hb k hk => hq b (List.mem_cons_of_mem _ hb) k (by
          rw [← h₁.conns b fun e => ha.1 (List.mem_singleton.mp e ▸ hb)]
          exact hk))
        (h₁.round.trans hround) (h₁.limit.trans hlimit)
        (fun i hi => (h₁.cmds i (hsep.cmds i hi)).trans (hcmds i (List.mem_append_right _ hi)))
        (fun i hi => (h₁.results i (hsep.cmds i hi)).trans (hpmore i hi))
      simp only
      generalize Job.send_groups net more j₁ = s at h₂
      obtain ⟨r₂, j₂⟩ := s
      match r₂, back with
      | .error e, back => exact ⟨_, SentAll.cons_error h₁ h₂ hsep⟩
      | .ok (retry, sent), some l => exact ⟨_, SentAll.cons_back h₁ h₂ hsep⟩
      | .ok (retry, sent), none => exact ⟨_, SentAll.cons_sent h₁ h₂ hsep⟩

/-! ## Both stages -/

section

variable (h : GroupsOf addr pending g)
include h

theorem GroupsOf.mem (i : Nat) : i ∈ members g ↔ i ∈ pending := by
  constructor
  · intro hi
    obtain ⟨p, hp, hip⟩ := mem_members.mp hi
    rw [(h.member p.1 p.2 hp).1] at hip
    exact List.mem_of_mem_filter hip
  · intro hi
    obtain ⟨p, hp, hpa⟩ := List.mem_map.mp (h.cover i hi)
    refine mem_members.mpr ⟨p, hp, ?_⟩
    rw [(h.member p.1 p.2 hp).1]
    simp [hi, hpa]

theorem GroupsOf.nodup_members (hd : pending.Nodup) : (members g).Nodup := by
  unfold members
  rw [List.nodup_flatMap]
  refine ⟨fun p hp => ?_, ?_⟩
  · rw [(h.member p.1 p.2 hp).1]
    exact hd.filter _
  · -- a command has one address
    have hpw : g.Pairwise fun p q => p.1 ≠ q.1 := List.pairwise_map.mp h.nodup
    apply hpw.imp_of_mem
    intro p q hp hq hne i hip hiq
    rw [(h.member p.1 p.2 hp).1] at hip
    rw [(h.member q.1 q.2 hq).1] at hiq
    simp only [List.mem_filter, decide_eq_true_eq] at hip hiq
    exact hne (hip.2.symm.trans hiq.2)

/-- A command is in one group. -/
theorem GroupsOf.unique {q : Addr × List Nat} (hp : p ∈ g)
    (hq : q ∈ g) (hip : i ∈ p.2) (hiq : i ∈ q.2) : p = q := by
  have hpm := (h.member p.1 p.2 hp).1
  have hqm := (h.member q.1 q.2 hq).1
  rw [hpm] at hip
  rw [hqm] at hiq
  simp only [List.mem_filter, decide_eq_true_eq] at hip hiq
  have ha : p.1 = q.1 := hip.2.symm.trans hiq.2
  exact Prod.ext ha (by rw [hpm, hqm, ha])

end

/-- **What a round comes to before it settles**: `ship` are the receipts of the round. -/
structure Exchanged (py : Python) (net : Network) (pending : List Nat) (ship : List Receipt)
    (j j' : Job) (r : Except Exn (List Nat)) : Prop where
  log : j'.client.log = j.client.log ++ ship
  round : j'.client.round = j.client.round
  results : ∀ k, k ∉ pending → j'.results k = j.results k
  other : ∀ k, k ∉ pending → of_tag k ship = []
  cargo : ∀ a, Carried net j.cmds j.client.round a (pending.filter fun i => (j.cmds i).addr = a) ship
  each : ∀ i ∈ pending, Fated py (pending.filter fun k => (j.cmds k).addr = (j.cmds i).addr) ship j j' r i
  retry : Again pending r
  instep : ∀ retry, r = .ok retry → j'.client.InStep
  clean : net.Clean py → j.Tame → (∃ l, r = .ok l) ∧ j'.Tame

section Stages

variable (hg : GroupsOf (fun i => (j.cmds i).addr) pending g)
include hg

theorem GroupsOf.numbered (ht : j.Tame) : ∀ a ∈ g.map Prod.fst, a.Numbered := by
  intro a ha
  obtain ⟨i, rfl⟩ := hg.exists_addr ha
  exact ht.addrs i

variable {j₁ : Job}

theorem GroupsOf.carried {r : Except Exn (List Nat × List (Addr × List Nat))}
    (hs : SentAll py net j g ship j j₁ r) (a : Addr) :
    Carried net j.cmds j.client.round a (pending.filter fun i => (j.cmds i).addr = a) ship := by
  by_cases ha : a ∈ g.map Prod.fst
  · obtain ⟨p, hp, rfl⟩ := List.mem_map.mp ha
    have := hs.cargo p hp
    rwa [(hg.member p.1 p.2 hp).1] at this
  · refine Or.inl fun i hi => absurd ?_ ha
    simp only [List.mem_filter, decide_eq_true_eq] at hi
    exact hi.2 ▸ hg.cover i hi.1

/-- The first stage raised. -/
theorem Exchanged.raised (hs : SentAll py net j g ship j j₁ (.error e)) :
    Exchanged py net pending ship j j₁ (.error e) := by
  have hmem : ∀ k, k ∉ pending → k ∉ members g := fun k hk h => hk ((hg.mem k).mp h)
  refine ⟨hs.log, hs.round, fun k hk => hs.results k (hmem k hk), fun k hk => hs.other k (hmem k hk),
    hg.carried hs, fun i hi => ?_, nofun, nofun, fun hc ht => ?_⟩
  · obtain ⟨p, hp, hip⟩ := mem_members.mp ((hg.mem i).mpr hi)
    rw [← hg.eq_filter hp hip]
    exact hs.raised e rfl p hp i hip
  · obtain ⟨⟨l, hl⟩, -⟩ := hs.clean hc (hg.numbered ht) ht
    cases hl

/-- Both stages: a command that was not sent is none of those whose replies are read. -/
theorem Exchanged.read {unsent : List Nat} {j₂ : Job} {r : Except Exn (List Nat)}
    (hs : SentAll py net j g ship j j₁ (.ok (unsent, sent)))
    (hr : ServedAll py net j sent ship j₁ j₂ r) (hstep : j.client.InStep) :
    Exchanged py net pending ship j j₂ (r.map (unsent ++ ·)) := by
  have hmem : ∀ k, k ∉ pending → k ∉ members g := fun k hk h => hk ((hg.mem k).mp h)
  obtain ⟨hsl, -⟩ := hs.sent unsent sent rfl
  obtain ⟨hnd, hunsent⟩ := hs.retry unsent sent rfl
  have hsub : members sent ⊆ members g := (hsl.flatMap _).subset
  have hout : ∀ p ∈ g, p ∉ sent → ∀ i ∈ p.2, i ∉ members sent := by
    intro p hp hps i hi him
    obtain ⟨q, hq, hiq⟩ := mem_members.mp him
    exact hps (hg.unique hp (hsl.mem hq) hi hiq ▸ hq)
  have hback : Again (pending.filter (· ∉ members sent)) (.ok unsent) := by
    rintro _ ⟨⟩
    refine ⟨hnd, fun i hi => ?_⟩
    obtain ⟨p, hp, hps, hip⟩ := hunsent i hi
    simpa [(hg.mem i).mp (mem_members.mpr ⟨p, hp, hip⟩)] using hout p hp hps i hip
  refine ⟨hr.log.trans hs.log, hr.round.trans hs.round, fun k hk => ?_, fun k hk => hs.other k (hmem k hk),
    hg.carried hs, fun i hi => ?_, ?_, ?_, fun hc ht => ?_⟩
  · exact (hr.results k fun h => hmem k hk (hsub h)).trans (hs.results k (hmem k hk))
  · obtain ⟨p, hp, hip⟩ := mem_members.mp ((hg.mem i).mpr hi)
    rw [← hg.eq_filter hp hip]
    by_cases hps : p ∈ sent
    · exact (hr.each p hps i hip).after hback (by simp [mem_members.mpr ⟨p, hps, hip⟩])
    · have him := hout p hp hps i hip
      exact ((hs.back unsent sent rfl p hp hps).2 i hip).before (hr.cmds i him) (hr.results i him) hr.retry him
  · refine (hback.append hr.retry fun k hk => by simp [hk]).mono ?_
    exact List.append_subset.mpr ⟨List.filter_subset_self _, fun i hi => (hg.mem i).mp (hsub hi)⟩
  · -- a connection is read to its end, dropped unsent, or as it was before
    intro l' hl' a
    obtain ⟨l, rfl, -⟩ := ok_of_map_ok hl'
    by_cases hsa : a ∈ sent.map Prod.fst
    · exact hr.quiet l rfl a hsa
    · intro k hk
      rw [hr.conns a hsa] at hk
      by_cases hga : a ∈ g.map Prod.fst
      · obtain ⟨p, hp, rfl⟩ := List.mem_map.mp hga
        exact (hs.back unsent sent rfl p hp fun h => hsa (List.mem_map_of_mem h)).1 k hk
      · rw [hs.conns a hga] at hk
        exact hstep a k hk
  · obtain ⟨⟨l, rfl⟩, ht'⟩ := hr.clean hc (fun a ha => hg.numbered ht a ((hsl.map Prod.fst).mem ha))
      (hs.clean hc (hg.numbered ht) ht).2
    exact ⟨⟨_, rfl⟩, ht'⟩

end Stages

theorem exchanged_exchange (py : Python) (hnet : net.Answering) (hd : pending.Nodup)
    (hstep : j.client.InStep) (hp : ∀ i ∈ pending, j.results i = .pending) :
    ∃ ship, Exchanged py net pending ship j (Job.exchange py net pending j).2
      (Job.exchange py net pending j).1 := by
  have hg := groupsOf_groups (fun i => (j.cmds i).addr) pending
  have hnd := hg.nodup_members hd
  obtain ⟨ship, hs⟩ := sentAll_send_groups py hnet _ hg.nodup hnd j (fun a _ => hstep a) rfl rfl
    (fun _ _ => rfl) fun i hi => hp i ((hg.mem i).mp hi)
  refine ⟨ship, ?_⟩
  unfold Job.exchange
  generalize Job.send_groups net (Job.groups (fun i => (j.cmds i).addr) pending) j = s at hs
  obtain ⟨r, j₁⟩ := s
  match r with
  | .error e => exact .raised hg hs
  | .ok (unsent, sent) =>
    obtain ⟨hsl, hfly⟩ := hs.sent unsent sent rfl
    have hr := servedAll_read_groups hnet py sent (hg.nodup.sublist (hsl.map _))
      (hnd.sublist (hsl.flatMap _)) j₁ hfly
    have hmain := Exchanged.read hg hs hr hstep
    simp only
    generalize Job.read_groups py sent j₁ = s at hmain
    obtain ⟨r₂, j₂⟩ := s
    cases r₂ <;> exact hmain

end EpochKV.Kvclient

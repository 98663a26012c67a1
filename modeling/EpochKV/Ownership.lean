/-
Ownership of items, and contests over one item.

`Ownership` keeps two views of one relation in step: who owns an item, and which
items an owner has. The agreement of the two is a field, so every way to change
the one has to say what becomes of the other.

A `Contest` is the life of a single item under **bids**. A bid names its bidder,
the epoch it is made under and whether it lists the item; the item goes to the
bidder if it is listed and the present holder's epoch is lower. A holder's epoch
rises with every bid it makes, listed or not, and a bid that no longer lists the
item does not give it up. `won_iff` says when, in spite of that, one bidder ends
up with the item however the bids of the others are interleaved with its own.

Items and owners are arbitrary types.
-/
import Mathlib.Data.Finset.Basic
import Mathlib.Order.Basic
import Mathlib.Logic.Function.Basic
import Mathlib.Tactic.Common

set_option autoImplicit false

namespace EpochKV

variable {S N : Type*} [DecidableEq S] [DecidableEq N]

/-! ## Owners and their items -/

structure Ownership (S N : Type*) where
  owner : S → Option N
  slots : N → Finset S
  owner_iff : ∀ s n, owner s = some n ↔ s ∈ slots n

variable {n : N}

namespace Ownership

/-- Nobody owns anything. -/
def vacant : Ownership S N where
  owner := fun _ => none
  slots := fun _ => ∅
  owner_iff := by simp

/-- All of `won` goes to `o`. -/
def assign (t : Ownership S N) (won : Finset S) (o : Option N) : Ownership S N where
  owner := fun s => if s ∈ won then o else t.owner s
  slots := fun n => if o = some n then t.slots n ∪ won else t.slots n \ won
  owner_iff := by
    intro s n
    by_cases hs : s ∈ won
    · rw [if_pos hs]
      by_cases ho : o = some n
      · simp [ho, hs]
      · simp [ho, hs]
    · rw [if_neg hs, t.owner_iff]
      by_cases ho : o = some n
      · simp [ho, hs]
      · simp [ho, hs]

/-- Only the owners in `p` keep what they have. -/
def restrict (t : Ownership S N) (p : N → Bool) : Ownership S N where
  owner := fun s => (t.owner s).filter p
  slots := fun n => if p n then t.slots n else ∅
  owner_iff := by
    intro s n
    rw [Option.filter_eq_some_iff, t.owner_iff]
    by_cases hp : p n = true
    · simp [hp]
    · simp [hp]

omit [DecidableEq S] [DecidableEq N] in
/-- The owners say it all. -/
theorem eq_of_owner {t u : Ownership S N} (h : t.owner = u.owner) : t = u := by
  have hslots : t.slots = u.slots := by
    funext n
    ext s
    rw [← t.owner_iff, ← u.owner_iff, h]
  cases t
  cases u
  congr

theorem owner_assign (t : Ownership S N) (won : Finset S) (o : Option N) (s : S) :
    (t.assign won o).owner s = if s ∈ won then o else t.owner s := rfl

theorem assign_empty (t : Ownership S N) (o : Option N) : t.assign ∅ o = t :=
  eq_of_owner (funext fun s => (t.owner_assign ∅ o s).trans (if_neg (Finset.notMem_empty s)))

theorem slots_assign_some (t : Ownership S N) (won : Finset S) (n : N) :
    (t.assign won (some n)).slots n = t.slots n ∪ won := if_pos rfl

theorem slots_assign_of_ne (t : Ownership S N) (won : Finset S) {o : Option N} (h : o ≠ some n) :
    (t.assign won o).slots n = t.slots n \ won := if_neg h

end Ownership

/-! ## Contests -/

structure Bid (N : Type*) where
  bidder : N
  epoch : Nat
  listed : Bool

@[ext] structure Contest (N : Type*) where
  holder : Option N
  epoch : N → Nat

variable {c : Contest N} {b : Bid N} {l : List (Bid N)} {seq : N → List (Bid N)} {e : Nat}
  {first : List (Bid N)} {m : N}

namespace Contest

/-- A bid under `e` would take the item from whoever holds it. -/
def Open (c : Contest N) (e : Nat) : Prop := ∀ m, c.holder = some m → c.epoch m < e

/-- **One bid.** -/
def bid (c : Contest N) (b : Bid N) : Contest N where
  holder :=
    match c.holder with
    | none => if b.listed then some b.bidder else none
    | some m => if b.listed ∧ m ≠ b.bidder ∧ c.epoch m < b.epoch then some b.bidder else some m
  epoch := Function.update c.epoch b.bidder (max (c.epoch b.bidder) b.epoch)

def run (c : Contest N) (l : List (Bid N)) : Contest N := l.foldl bid c

@[simp] theorem run_cons (c : Contest N) (b : Bid N) (l : List (Bid N)) :
    c.run (b :: l) = (c.bid b).run l := rfl

theorem run_append (c : Contest N) (l l' : List (Bid N)) : c.run (l ++ l') = (c.run l).run l' :=
  List.foldl_append

theorem bid_epoch_self (c : Contest N) (b : Bid N) :
    (c.bid b).epoch b.bidder = max (c.epoch b.bidder) b.epoch := Function.update_self _ _ _

theorem bid_epoch_of_ne (c : Contest N) (b : Bid N) (h : n ≠ b.bidder) :
    (c.bid b).epoch n = c.epoch n := Function.update_of_ne h _ _

theorem le_bid_epoch (c : Contest N) (b : Bid N) (n : N) : c.epoch n ≤ (c.bid b).epoch n := by
  by_cases h : n = b.bidder
  · subst h
    rw [bid_epoch_self]
    exact le_max_left _ _
  · rw [bid_epoch_of_ne c b h]

/-- What a bid can do to the holder. -/
theorem holder_bid (c : Contest N) (b : Bid N) :
    (c.bid b).holder = c.holder ∨
      (c.bid b).holder = some b.bidder ∧ b.listed = true ∧ c.Open b.epoch := by
  unfold bid Open
  cases hh : c.holder with
  | none =>
    by_cases hl : b.listed = true
    · right
      simp [hl]
    · left
      simp [hl]
  | some m =>
    dsimp only
    split
    · rename_i hw
      right
      refine ⟨rfl, hw.1, ?_⟩
      intro m' hm'
      cases hm'
      exact hw.2.2
    · left
      rfl

theorem holder_bid_of_open (hl : b.listed = true) (ho : c.Open b.epoch) :
    (c.bid b).holder = some b.bidder := by
  unfold bid
  cases hh : c.holder with
  | none => simp [hl]
  | some m =>
    by_cases hm : m = b.bidder
    · simp [hm]
    · simp [hl, hm, ho m hh]

theorem holder_bid_of_self (h : c.holder = some b.bidder) : (c.bid b).holder = some b.bidder := by
  unfold bid
  simp [h]

/-! ## The bids of one bidder -/

def turns (n : N) (l : List (Bid N)) : List (Bid N) := l.filter fun b => b.bidder = n

/-- The epoch a bidder ends with: the highest of its bids, or the one it had. -/
def top (e : Nat) (l : List (Bid N)) : Nat := l.foldl (fun e b => max e b.epoch) e

omit [DecidableEq N] in
theorem le_top (e : Nat) (l : List (Bid N)) : e ≤ top e l := by
  induction l generalizing e with
  | nil => exact le_rfl
  | cons b l ih => exact le_trans (le_max_left _ _) (ih _)

omit [DecidableEq N] in
theorem le_top_of_mem (e : Nat) (h : b ∈ l) : b.epoch ≤ top e l := by
  induction l generalizing e with
  | nil => cases h
  | cons b' l ih =>
    rcases List.mem_cons.mp h with rfl | h
    · exact le_trans (le_max_right _ _) (le_top _ _)
    · exact ih _ h

theorem run_epoch (c : Contest N) (l : List (Bid N)) (n : N) :
    (c.run l).epoch n = top (c.epoch n) (turns n l) := by
  induction l generalizing c with
  | nil => rfl
  | cons b l ih =>
    rw [run_cons, ih]
    by_cases h : b.bidder = n
    · subst h
      rw [bid_epoch_self]
      simp [turns, top]
    · rw [bid_epoch_of_ne c b (Ne.symm h)]
      simp [turns, h]

/-! ## Who can ever hold the item -/

/-- `n` holds the item to begin with, or makes a bid that the first holder cannot
stand up to. -/
def Contender (c : Contest N) (n : N) (l : List (Bid N)) : Prop :=
  c.holder = some n ∨ ∃ b ∈ l, b.listed = true ∧ c.Open b.epoch

/-- The holder's epoch never falls below the first holder's, so a bid that wins at
any time would have won at the start. -/
theorem open_of_run (h : (c.run l).Open e) : c.Open e := by
  induction l generalizing c with
  | nil => exact h
  | cons b l ih =>
    have h' := ih h
    intro m hm
    rcases holder_bid c b with hk | ⟨hk, -, hw⟩
    · exact lt_of_le_of_lt (le_bid_epoch c b m) (h' m (hk.trans hm))
    · have hb := h' b.bidder hk
      rw [bid_epoch_self] at hb
      exact lt_trans (lt_of_lt_of_le (hw m hm) (le_max_right _ _)) hb

/-- Everyone who holds the item after some bids was a contender from the start. -/
theorem contender_of_holder (h : (c.run l).holder = some n) : c.Contender n (turns n l) := by
  induction l using List.reverseRecOn with
  | nil => exact Or.inl h
  | append_singleton l b ih =>
    rw [run_append] at h
    rcases holder_bid (c.run l) b with hk | ⟨hk, hl, hw⟩
    · rcases ih (hk.symm.trans h) with h₀ | ⟨b', hb', h'⟩
      · exact Or.inl h₀
      · refine Or.inr ⟨b', ?_, h'⟩
        simp only [turns, List.filter_append, List.mem_append]
        exact Or.inl hb'
    · have hn : b.bidder = n := Option.some.inj (hk.symm.trans h)
      refine Or.inr ⟨b, ?_, hl, open_of_run hw⟩
      simp [turns, hn]

theorem turns_append (n : N) (l l' : List (Bid N)) : turns n (l ++ l') = turns n l ++ turns n l' :=
  List.filter_append ..

omit [DecidableEq N] in
theorem top_append (e : Nat) (l l' : List (Bid N)) : top e (l ++ l') = top (top e l) l' :=
  List.foldl_append

omit [DecidableEq N] in
theorem Contender.append (h : c.Contender n l) (l' : List (Bid N)) : c.Contender n (l ++ l') := by
  rcases h with h | ⟨b, hb, h⟩
  · exact Or.inl h
  · exact Or.inr ⟨b, List.mem_append_left _ hb, h⟩

/-! ## Winning whatever the order -/

/-- `l` is a merge of the bidders' own sequences. -/
def Interleaves (l : List (Bid N)) (seq : N → List (Bid N)) : Prop := ∀ n, turns n l = seq n

/-- Every rival that can ever hold the item stays below `e` for good. -/
def Outbid (c : Contest N) (n : N) (e : Nat) (seq : N → List (Bid N)) : Prop :=
  ∀ m, m ≠ n → c.Contender m (seq m) → top (c.epoch m) (seq m) < e

/-- Nobody takes the item from `n` once it holds it under an epoch that outbids
its rivals. -/
theorem holder_stays {l₁ l₂ : List (Bid N)} (hout : c.Outbid n e seq)
    (hl : Interleaves (l₁ ++ l₂) seq) (hmine : turns n l₂ = []) (hheld : (c.run l₁).holder = some n)
    (he : e ≤ (c.run l₁).epoch n) : (c.run (l₁ ++ l₂)).holder = some n := by
  induction l₂ using List.reverseRecOn generalizing seq with
  | nil => rwa [List.append_nil]
  | append_singleton l₂ b ih =>
    rw [turns_append, List.append_eq_nil_iff] at hmine
    have hne : b.bidder ≠ n := by
      intro h
      have := hmine.2
      simp [turns, h] at this
    -- the bids before the last one are a merge of their own, with fewer contenders
    have hout' : c.Outbid n e fun m => turns m (l₁ ++ l₂) := by
      intro m hm hc
      have hseq : seq m = turns m (l₁ ++ l₂) ++ turns m [b] := by
        rw [← hl m, ← List.append_assoc, turns_append]
      have hlt := hout m hm (by rw [hseq]; exact hc.append _)
      rw [hseq, top_append] at hlt
      exact lt_of_le_of_lt (le_top _ _) hlt
    have hbefore := ih hout' (fun _ => rfl) hmine.1
    rw [← List.append_assoc, run_append]
    rcases holder_bid (c.run (l₁ ++ l₂)) b with hk | ⟨-, hlist, hw⟩
    · exact hk.trans hbefore
    · exfalso
      have hmem : b ∈ seq b.bidder := by
        rw [← hl b.bidder]
        simp [turns]
      have hbe := hw n hbefore
      have htop := hout _ hne (Or.inr ⟨b, hmem, hlist, open_of_run hw⟩)
      have hb := le_top_of_mem (c.epoch b.bidder) hmem
      have hn : (c.run l₁).epoch n ≤ (c.run (l₁ ++ l₂)).epoch n := by
        rw [run_append, run_epoch (c.run l₁) l₂ n]
        exact le_top _ _
      omega

/-- **Enough:** a last bid that outbids every contender decides the contest. -/
theorem won_of_outbid (hseq : seq n = first ++ [b]) (hlist : b.listed = true)
    (hout : c.Outbid n b.epoch seq) (hl : Interleaves l seq) : (c.run l).holder = some n := by
  have hn : turns n l = first ++ [b] := (hl n).trans hseq
  obtain ⟨l₁, l', rfl, -, hb⟩ := List.filter_eq_append_iff.mp hn
  obtain ⟨l₂, l₃, rfl, -, hbn, h₃⟩ := List.filter_eq_cons_iff.mp hb
  have hbn : b.bidder = n := by simpa using hbn
  rw [show l₁ ++ (l₂ ++ b :: l₃) = (l₁ ++ l₂ ++ [b]) ++ l₃ by simp] at hl ⊢
  have hsplit : c.run (l₁ ++ l₂ ++ [b]) = (c.run (l₁ ++ l₂)).bid b := run_append ..
  refine holder_stays hout hl h₃ ?_ ?_
  · rw [hsplit, ← hbn]
    by_cases hh : (c.run (l₁ ++ l₂)).holder = some b.bidder
    · exact holder_bid_of_self hh
    · refine holder_bid_of_open hlist ?_
      intro m hm
      have hmn : m ≠ n := fun h => hh (by rw [hbn, ← h]; exact hm)
      have hm' : seq m = turns m (l₁ ++ l₂) ++ turns m ([b] ++ l₃) := by
        rw [← hl m, ← turns_append]
        simp
      have hlt := hout m hmn (by rw [hm']; exact (contender_of_holder hm).append _)
      rw [hm', top_append, ← run_epoch] at hlt
      exact lt_of_le_of_lt (le_top _ _) hlt
  · rw [hsplit, ← hbn, bid_epoch_self]
    exact le_max_right _ _

/-- A contender that bids alone ends up with the item. -/
theorem holder_of_contender (hl : ∀ b ∈ l, b.bidder = m) (h : c.Contender m l) :
    (c.run l).holder = some m := by
  induction l generalizing c with
  | nil =>
    rcases h with h | ⟨b, hb, -⟩
    · exact h
    · cases hb
  | cons b l ih =>
    have hb : b.bidder = m := hl b (List.mem_cons_self ..)
    refine ih (fun b' hb' => hl b' (List.mem_cons_of_mem _ hb')) ?_
    rcases h with h | ⟨b', hb', hlist, ho⟩
    · exact Or.inl (by rw [← hb]; exact holder_bid_of_self (h.trans (congrArg some hb.symm)))
    · rcases holder_bid c b with hk | ⟨hk, -⟩
      · rcases List.mem_cons.mp hb' with rfl | hb'
        · exact Or.inl (by rw [← hb]; exact holder_bid_of_open hlist ho)
        · by_cases hm : c.holder = some m
          · exact Or.inl (hk.trans hm)
          · refine Or.inr ⟨b', hb', hlist, ?_⟩
            intro n hn
            have hne : n ≠ b.bidder := fun e => hm (by rw [← hb, ← e, ← hk]; exact hn)
            rw [bid_epoch_of_ne c b hne]
            exact ho n (hk.symm.trans hn)
      · exact Or.inl (hb ▸ hk)

/-- No bid under at most the holder's epoch takes the item from it. -/
theorem holder_kept (h : c.holder = some m) (hl : ∀ b ∈ l, b.epoch ≤ c.epoch m) :
    (c.run l).holder = some m := by
  induction l generalizing c with
  | nil => exact h
  | cons b l ih =>
    refine ih ?_ (fun b' hb' => le_trans (hl b' (List.mem_cons_of_mem _ hb')) (le_bid_epoch c b m))
    rcases holder_bid c b with hk | ⟨-, -, hw⟩
    · exact hk.trans h
    · exact absurd (hw m h) (not_lt.mpr (hl b (List.mem_cons_self ..)))

theorem holder_ne_of_no_turn (hl : ∀ b ∈ l, b.bidder ≠ n) (h : c.holder ≠ some n) :
    (c.run l).holder ≠ some n := by
  induction l generalizing c with
  | nil => exact h
  | cons b l ih =>
    refine ih (fun b' hb' => hl b' (List.mem_cons_of_mem _ hb')) ?_
    rcases holder_bid c b with hk | ⟨hk, -⟩
    · rwa [hk]
    · rw [hk]
      exact fun e => hl b (List.mem_cons_self ..) (Option.some.inj e)

theorem bidder_of_mem_turns (h : b ∈ turns n l) : b.bidder = n := by
  simpa using (List.mem_filter.mp h).2

/-- The merge in which `m` bids first, then `n`, then all the others. -/
theorem interleaves_first (hmn : m ≠ n) (hl : Interleaves l seq) :
    Interleaves (seq m ++ seq n ++ l.filter fun b => b.bidder ≠ m ∧ b.bidder ≠ n) seq := by
  intro k
  have hself : ∀ j, turns j (seq j) = seq j := by
    intro j
    rw [← hl j]
    simp [turns]
  have hother : ∀ j, j ≠ k → turns k (seq j) = [] := by
    intro j hj
    rw [← hl j]
    refine List.filter_eq_nil_iff.mpr (fun b hb => ?_)
    rw [bidder_of_mem_turns hb]
    simp [hj]
  rw [turns_append, turns_append]
  by_cases hkm : k = m
  · subst hkm
    rw [hself, hother n (Ne.symm hmn)]
    simp [turns]
    exact fun _ _ h h' => absurd h h'
  · by_cases hkn : k = n
    · subst hkn
      rw [hself, hother m hmn]
      simp [turns]
      exact fun _ _ h _ => h
    · rw [hother m (Ne.symm hkm), hother n (Ne.symm hkn), ← hl k]
      simp only [turns, List.filter_filter, List.nil_append]
      refine List.filter_congr (fun b _ => ?_)
      by_cases hb : b.bidder = k
      · simp [hb, hkm, hkn]
      · simp [hb]

/-- **Exactly:** the bidder whose last bid lists the item gets it under every merge if
and only if it outbids every contender. -/
theorem won_iff (hseq : seq n = first ++ [b]) (hlist : b.listed = true)
    (hmax : ∀ b' ∈ first, b'.epoch ≤ b.epoch) (hex : ∃ l, Interleaves l seq) :
    (∀ l, Interleaves l seq → (c.run l).holder = some n) ↔ c.Outbid n b.epoch seq := by
  refine ⟨?_, fun hout l hl => won_of_outbid hseq hlist hout hl⟩
  intro hall m hm hc
  by_contra hlow
  obtain ⟨l, hl⟩ := hex
  have hbm : ∀ b ∈ seq m, b.bidder = m := fun b hb => bidder_of_mem_turns ((hl m).symm ▸ hb)
  have hmine : (c.run (seq m)).epoch m = top (c.epoch m) (seq m) := by
    rw [run_epoch]
    congr 1
    exact List.filter_eq_self.mpr (fun b hb => by simpa using hbm b hb)
  -- `m` takes the item, none of `n`'s bids beats it, and afterwards `n` is silent
  have hheld : ((c.run (seq m)).run (seq n)).holder = some m := by
    refine holder_kept (holder_of_contender hbm hc) (fun b' hb' => ?_)
    rw [hmine]
    rw [hseq] at hb'
    rcases List.mem_append.mp hb' with hb' | hb'
    · exact le_trans (hmax b' hb') (not_lt.mp hlow)
    · rw [List.mem_singleton.mp hb']
      exact not_lt.mp hlow
  have hwon := hall _ (interleaves_first hm hl)
  rw [run_append, run_append] at hwon
  refine holder_ne_of_no_turn ?_ ?_ hwon
  · intro b' hb'
    have hne : b'.bidder ≠ m ∧ b'.bidder ≠ n := by simpa using (List.mem_filter.mp hb').2
    exact hne.2
  · rw [hheld]
    exact fun e => hm (Option.some.inj e)

/-- A merge of the bids made by some messages comes from a merge of the messages. -/
theorem Interleaves.lift {α : Type*} {f : α → Bid N} {seq : N → List α}
    (h : Interleaves l fun n => (seq n).map f) (who : α → N) (hf : ∀ a, (f a).bidder = who a) :
    ∃ as : List α, as.map f = l ∧ ∀ n, as.filter (fun a => who a = n) = seq n := by
  induction l generalizing seq with
  | nil =>
    refine ⟨[], rfl, fun n => ?_⟩
    have hn : [] = (seq n).map f := h n
    rw [List.map_eq_nil_iff.mp hn.symm]
    rfl
  | cons b l ih =>
    -- the first bid is the head of its bidder's sequence
    have hb : b :: turns b.bidder l = (seq b.bidder).map f := by
      have hb := h b.bidder
      unfold turns at hb
      rw [List.filter_cons_of_pos (by simp)] at hb
      exact hb
    obtain ⟨a, rest, hseq, rfl, hrest⟩ := List.map_eq_cons_iff.mp hb.symm
    have hl : Interleaves l fun n => (Function.update seq (f a).bidder rest n).map f := by
      intro n
      dsimp only
      by_cases hn : n = (f a).bidder
      · subst hn
        rw [Function.update_self, hrest]
      · rw [Function.update_of_ne hn]
        refine Eq.trans ?_ (h n)
        exact (List.filter_cons_of_neg (by simpa using Ne.symm hn)).symm
    obtain ⟨as, has, hfil⟩ := ih hl
    refine ⟨a :: as, by rw [List.map_cons, has], fun n => ?_⟩
    by_cases hn : n = (f a).bidder
    · subst hn
      rw [List.filter_cons_of_pos (by simp [hf]), hfil, Function.update_self, hseq]
    · rw [List.filter_cons_of_neg (by simpa [hf] using fun e => hn (e.symm.trans (hf a).symm)), hfil,
        Function.update_of_ne hn]

end Contest

end EpochKV

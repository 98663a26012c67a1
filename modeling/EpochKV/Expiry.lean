/-
Active expiry: it ends, and deletes only what is due.

A round reads the clock once, draws a sample of the keys that have a deadline, and removes
those among it that are past. It is followed by another one while more than a quarter of
the sample was. Without a time budget that ends because a round that goes on has removed
an entry of `expires`: every key there is in `dict` too, so `remove` finds it.

`Drops` is what any number of such removals do. A round is one (`drops_expire_samples`),
and so is a sequence of rounds (`purges_expire_rounds`).
-/
import EpochKV.Eviction

set_option autoImplicit false

namespace EpochKV.HashTable

open Text

variable {V : Type} {t : HashTable V}

theorem mem_keys_contents (h : t.Valid) (key : Bytes) :
    key ∈ t.contents.keys ↔ ∃ v, t.find key = some v := by
  rw [Finmap.mem_keys, Finmap.mem_iff, find_eq h]

/-- A table that has lost these keys, each of which it had. -/
theorem size_of_lost {t' : HashTable V} (h : t.Valid) (h' : t'.Valid) {keys : List Bytes}
    (hnodup : keys.Nodup) (hhad : ∀ k ∈ keys, ∃ v, t.find k = some v)
    (hlost : ∀ k, t'.find k = if k ∈ keys then none else t.find k) :
    t'.size + keys.length = t.size := by
  have hsub : keys.toFinset ⊆ t.contents.keys := by
    intro k hk
    exact (mem_keys_contents h k).mpr (hhad k (List.mem_toFinset.mp hk))
  have hrest : t'.contents.keys = t.contents.keys \ keys.toFinset := by
    ext k
    rw [mem_keys_contents h', Finset.mem_sdiff, mem_keys_contents h, List.mem_toFinset, hlost]
    by_cases hk : k ∈ keys <;> simp [hk]
  rw [h'.size_eq, h.size_eq, hrest, ← List.toFinset_card_of_nodup hnodup]
  exact Finset.card_sdiff_add_card_eq_card hsub

end EpochKV.HashTable

namespace EpochKV.Layout

open Text Slots
open EpochKV.Store (kExpireSamplesPerLoop)

variable {s s' s'' : Layout}

/-! ## Removals -/

/-- `s'` is `s` without some keys that had a deadline, each of them reported. -/
structure Drops (s : Layout) (keys : List Key) (s' : Layout) : Prop extends Loses s keys s' where
  timed : ∀ k ∈ keys, ∃ d, s.expires.find k = some d
  deleted : s'.deleted = s.deleted ++ keys
  clock : s'.clock = s.clock

theorem Drops.refl (s : Layout) : Drops s [] s :=
  ⟨.same (fun _ => rfl) fun _ => rfl, nofun, (List.append_nil _).symm, rfl⟩

variable {keys : List Key} {d : Int}

section

variable (h : Drops s keys s')
include h

/-- What has a deadline afterwards had it before. -/
theorem Drops.earlier {k : Key} (hk : s'.expires.find k = some d) : s.expires.find k = some d := by
  rw [h.expires] at hk
  by_cases hmem : k ∈ keys
  · rw [if_pos hmem] at hk
    exact absurd hk nofun
  · rwa [if_neg hmem] at hk

theorem Drops.trans {keys' : List Key} (h' : Drops s' keys' s'') : Drops s (keys ++ keys') s'' where
  toLoses := h.toLoses.trans h'.toLoses
  timed k hk := by
    rcases List.mem_append.mp hk with hk | hk
    · exact h.timed k hk
    · obtain ⟨d, hd⟩ := h'.timed k hk
      exact ⟨d, h.earlier hd⟩
  deleted := by rw [h'.deleted, h.deleted, List.append_assoc]
  clock := h'.clock.trans h.clock

theorem Drops.size (hs : s.Sound) (hs' : s'.Sound) :
    s'.expires.size + keys.length = s.expires.size :=
  HashTable.size_of_lost hs.expires hs'.expires h.nodup h.timed h.expires

end

theorem drops_remove (h : s.Sound) {key : Key} (hd : s.expires.find key = some d) :
    Drops s [key] ((s.remove key).2.notify_deleted key) := by
  -- the entry is there, or nothing would be removed
  obtain ⟨e, he⟩ := h.expires_sub key d hd
  have honly := only_remove s key
  obtain ⟨hhad, hnodup, hdict, hexpires⟩ := loses_remove h he
  refine ⟨⟨hhad, hnodup, hdict, hexpires⟩, fun k hk => ?_, ?_, honly.clock⟩
  · rw [List.mem_singleton.mp hk]
    exact ⟨d, hd⟩
  · exact congrArg (· ++ [key]) honly.deleted

/-! ## A round -/

/-- **The samples of one round**: what is removed was due at the time read, and is counted. -/
theorem drops_expire_samples (now : Int) (draws : List Nat) (h : s.Sound) :
    ∃ keys, Drops s keys (expire_samples now draws s).2 ∧
      (∀ k ∈ keys, ∃ d, s.expires.find k = some d ∧ d ≤ now) ∧
      (expire_samples now draws s).1 = keys.length ∧
      (expire_samples now draws s).2.reads = s.reads := by
  induction draws generalizing s with
  | nil => exact ⟨[], .refl s, nofun, rfl, rfl⟩
  | cons draw draws ih =>
    rw [expire_samples]
    dsimp only
    split
    case h_1 => exact ⟨[], .refl s, nofun, rfl, rfl⟩
    case h_2 key when_ms hdraw =>
      split
      case isFalse => exact ih h
      case isTrue hdue =>
        have hwhen : s.expires.find key = some when_ms :=
          (HashTable.mem_for_each h.expires).mp (List.mem_of_getElem? hdraw)
        have hfirst := drops_remove h hwhen
        have hsound : ((s.remove key).2.notify_deleted key).Sound :=
          (remove_sound h key).1.frame rfl rfl rfl rfl rfl
        obtain ⟨keys, hdrops, hall, hcount, hreads⟩ := ih hsound
        refine ⟨key :: keys, hfirst.trans hdrops, ?_, ?_, ?_⟩
        · refine List.forall_mem_cons.mpr ⟨⟨when_ms, hwhen, hdue⟩, ?_⟩
          intro k hk
          obtain ⟨d, hd, hle⟩ := hall k hk
          exact ⟨d, hfirst.earlier hd, hle⟩
        · rw [hcount, List.length_cons]
        · exact hreads.trans (only_remove s key).reads

/-! ## The rounds -/

/-- `r` is what the rounds make of `s`, where `victims` are the keys deleted in each: a round
deletes what was due at the one time it reads. -/
structure Purges (s : Layout) (victims : List (List Key)) (r : Nat × Layout) : Prop where
  drops : Drops s victims.flatten r.2
  due : ∀ j keys, victims[j]? = some keys →
    ∀ k ∈ keys, ∃ d, s.expires.find k = some d ∧ d ≤ s.clock (s.reads + j)
  count : r.1 = victims.flatten.length
  reads : r.2.reads = s.reads + victims.length

theorem Purges.none (s : Layout) : Purges s [] (0, s) := ⟨.refl s, nofun, rfl, rfl⟩

/-- A round before the others. -/
theorem Purges.cons {victims : List (List Key)} {r : Nat × Layout} (hdrops : Drops s keys s')
    (hreads : s'.reads = s.reads + 1)
    (hdue : ∀ k ∈ keys, ∃ d, s.expires.find k = some d ∧ d ≤ s.clock s.reads)
    (hrest : Purges s' victims r) : Purges s (keys :: victims) (keys.length + r.1, r.2) where
  drops := hdrops.trans hrest.drops
  due := by
    intro j ks hj k hk
    cases j with
    | zero =>
      cases hj
      exact hdue k hk
    | succ j =>
      obtain ⟨d, hd, hle⟩ := hrest.due j ks hj k hk
      rw [hdrops.clock, hreads] at hle
      refine ⟨d, hdrops.earlier hd, ?_⟩
      rwa [Nat.add_assoc, Nat.add_comm 1 j] at hle
  count := by rw [List.flatten_cons, List.length_append, hrest.count]
  reads := by
    rw [hrest.reads, hreads, List.length_cons]
    omega

/-- The first round on a store that has deadlines: what it leaves, and what it removes. -/
theorem purges_round (sample : List Nat) (h : s.Sound) :
    ∃ keys, (expire_samples s.now_ms.1 sample s.now_ms.2).1 = keys.length ∧
      Drops s keys (expire_samples s.now_ms.1 sample s.now_ms.2).2 ∧
      ∀ victims r, Purges (expire_samples s.now_ms.1 sample s.now_ms.2).2 victims r →
        Purges s (keys :: victims) (keys.length + r.1, r.2) := by
  have hnow : s.now_ms.2.Sound := h.frame rfl rfl rfl rfl rfl
  obtain ⟨keys, hdrops, hdue, hcount, hreads⟩ := drops_expire_samples s.now_ms.1 sample hnow
  -- the reading of the clock changes nothing that `Drops` looks at
  have hdrops : Drops s keys (expire_samples s.now_ms.1 sample s.now_ms.2).2 :=
    ⟨⟨hdrops.had, hdrops.nodup, hdrops.dict, hdrops.expires⟩, hdrops.timed, hdrops.deleted, hdrops.clock⟩
  exact ⟨keys, hcount, hdrops, fun victims r hrest => hrest.cons hdrops hreads hdue⟩

theorem purges_expire_rounds (rounds : List (Nat → Nat)) (h : s.Sound) :
    ∃ victims, Purges s victims (expire_rounds rounds s) := by
  induction rounds generalizing s with
  | nil => exact ⟨[], .none s⟩
  | cons draws rounds ih =>
    rw [expire_rounds]
    split
    · exact ⟨[], .none s⟩
    · dsimp only
      generalize (List.range (min kExpireSamplesPerLoop s.expires.size)).map draws = sample
      obtain ⟨keys, hcount, -, hround⟩ := purges_round sample h
      split
      · refine ⟨[keys], ?_⟩
        have hlast := hround [] _ (.none _)
        rwa [Nat.add_zero, ← hcount] at hlast
      · have hsound := (prunes_expire_samples s.now_ms.1 sample s.now_ms.2).read.sound h
        obtain ⟨victims, hrest⟩ := ih hsound
        refine ⟨keys :: victims, ?_⟩
        rw [hcount]
        exact hround victims _ hrest

/-! ## The counter -/

theorem expired_keys_expire_samples (now : Int) (draws : List Nat) (s : Layout) :
    (expire_samples now draws s).2.expired_keys = s.expired_keys := by
  induction draws generalizing s with
  | nil => rfl
  | cons draw draws ih =>
    rw [expire_samples]
    split
    · rfl
    · split
      · exact (ih _).trans (only_remove s _).expired_keys
      · exact ih s

/-- The counter is only brought up to date after the loop. -/
theorem expired_keys_expire_rounds (rounds : List (Nat → Nat)) (s : Layout) :
    (expire_rounds rounds s).2.expired_keys = s.expired_keys := by
  induction rounds generalizing s with
  | nil => rfl
  | cons draws rounds ih =>
    rw [expire_rounds]
    split
    · rfl
    · dsimp only
      split
      · exact expired_keys_expire_samples _ _ s.now_ms.2
      · exact (ih _).trans (expired_keys_expire_samples _ _ s.now_ms.2)

/-! ## The end -/

/-- The loop is over before it runs out of rounds: nothing has a deadline any more, or at
most a quarter of the last sample was due. -/
def Ends : List (Nat → Nat) → Layout → Prop
  | [], s => s.expires.size = 0
  | draws :: rounds, s =>
    s.expires.size = 0 ∨
      let sampled := min kExpireSamplesPerLoop s.expires.size
      let r := expire_samples s.now_ms.1 ((List.range sampled).map draws) s.now_ms.2
      r.1 * 4 ≤ sampled ∨ Ends rounds r.2

/-- **A round that is not the last has removed a key**, so as many rounds as there are
deadlines are enough. -/
theorem ends_of_length (rounds : List (Nat → Nat)) (h : s.Sound)
    (hlength : s.expires.size ≤ rounds.length) : Ends rounds s := by
  induction rounds generalizing s with
  | nil => exact Nat.le_zero.mp hlength
  | cons draws rounds ih =>
    apply or_iff_not_imp_left.mpr
    intro hsize
    apply or_iff_not_imp_left.mpr
    generalize (List.range (min kExpireSamplesPerLoop s.expires.size)).map draws = sample
    intro hgoes_on
    have hsound := (prunes_expire_samples s.now_ms.1 sample s.now_ms.2).read.sound h
    obtain ⟨keys, hcount, hdrops, -⟩ := purges_round sample h
    have hfewer := hdrops.size h hsound
    rw [List.length_cons] at hlength
    exact ih hsound (by omega)

/-- After the end further rounds do nothing. -/
theorem expire_rounds_of_ends {rounds : List (Nat → Nat)} (more : List (Nat → Nat))
    (h : Ends rounds s) : expire_rounds (rounds ++ more) s = expire_rounds rounds s := by
  induction rounds generalizing s with
  | nil =>
    cases more with
    | nil => rfl
    | cons draws more =>
      rw [List.nil_append, expire_rounds]
      exact if_pos h
  | cons draws rounds ih =>
    rw [List.cons_append, expire_rounds, expire_rounds]
    split
    · rfl
    case isFalse hsize =>
      dsimp only
      split
      · rfl
      case isFalse hgoes_on =>
        rw [ih ((h.resolve_left hsize).resolve_left hgoes_on)]

/-- **Active expiry is sound and ends.** In any store that calls can lead to, whatever the
clock shows and whichever keys are drawn: under passive expiry nothing happens; otherwise
each round deletes only keys that were due at the time it read, all of them are reported,
and their number is returned and added to `expired_keys`. However much time there is, the
loop is over after at most as many rounds as keys have a deadline. -/
theorem active_expiry_sound (A : Allocator) (maxmemory : Nat) (policy : EvictionPolicy)
    (clock : Nat → Int) (calls : List Call) (rounds : List (Nat → Nat)) :
    let s : Layout := calls.foldl (call A) { maxmemory, policy, clock }
    let r := s.active_expire_cycle rounds
    (if s.passive_expiry then r = (0, s)
      else r.2.expired_keys = s.expired_keys + r.1 ∧ ∃ victims, Purges s victims r) ∧
      (s.expires.size ≤ rounds.length →
        Ends rounds s ∧ ∀ more, s.active_expire_cycle (rounds ++ more) = r) := by
  intro s r
  have hsound : s.Sound := sound_run A calls (sound_of_empty rfl rfl rfl rfl rfl)
  constructor
  · split
    case isTrue hpassive => exact if_pos hpassive
    case isFalse hactive =>
      have hr : r = ((expire_rounds rounds s).1, { (expire_rounds rounds s).2 with
          expired_keys := (expire_rounds rounds s).2.expired_keys + (expire_rounds rounds s).1 }) :=
        if_neg hactive
      obtain ⟨victims, hpurges⟩ := purges_expire_rounds rounds hsound
      rw [hr]
      refine ⟨congrArg (· + _) (expired_keys_expire_rounds rounds s), victims, ?_⟩
      -- the counter is nothing that `Purges` looks at
      obtain ⟨hdrops, hdue, hcount, hreads⟩ := hpurges
      exact ⟨⟨⟨hdrops.had, hdrops.nodup, hdrops.dict, hdrops.expires⟩, hdrops.timed, hdrops.deleted,
        hdrops.clock⟩, hdue, hcount, hreads⟩
  · intro hlength
    have hends := ends_of_length rounds hsound hlength
    refine ⟨hends, fun more => ?_⟩
    simp only [r, active_expire_cycle, expire_rounds_of_ends more hends]

/-- Two keys get deadlines, 5 and 50, and the clock goes on to 10: one of them is deleted. -/
theorem active_expiry_sound_two :
    let s : Layout := [Call.set [97] [1] false, .set [98] [2] false, .set_expire [97] 5,
      .set_expire [98] 50].foldl (call upwards)
        { maxmemory := 0, policy := .kNoEviction, clock := fun n => if n < 2 then 0 else 10 }
    let r := s.active_expire_cycle [id, id]
    s.passive_expiry = false ∧ s.expires.size ≤ 2 ∧ r.1 = 1 ∧ r.2.deleted = [[97]] ∧
      (∃ victims, Purges s victims r) ∧ Ends [id, id] s := by
  have h := active_expiry_sound upwards 0 .kNoEviction (fun n => if n < 2 then 0 else 10)
    [.set [97] [1] false, .set [98] [2] false, .set_expire [97] 5, .set_expire [98] 50] [id, id]
  refine ⟨by decide +kernel, by decide +kernel, by decide +kernel, by decide +kernel,
    h.1.2, (h.2 (by decide +kernel)).1⟩

end EpochKV.Layout

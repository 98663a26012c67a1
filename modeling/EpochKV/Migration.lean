/-
MIGRATE, the sending side (`cmd_migrate`), and RESTORE-ASKING on the other.

A round of the loop that builds the request looks a key up twice and reads the clock up to
three times: `get` checks the deadline, `pttl` checks it again, and the remaining time is
computed from a third reading. What the loop sends is followed round by round here, and so is
what becomes of the keys once the replies are in.
-/
import EpochKV.Refusal

set_option autoImplicit false

namespace EpochKV.Migration

open Text Slots Keyspace Codec Commands Store
open Journal Refusal

/-! ## One round -/

/-- What is sent for a key. A time that is not positive is sent as 0. -/
def restore_asking (replace : Bool) (key : Key) (pttl : Int) (value : Bytes) : Args :=
  [lit "RESTORE-ASKING", key, to_string (if pttl > 0 then pttl else 0), dump_value value] ++
    (if replace then [lit "REPLACE"] else [])

/-- What one round adds to the request. -/
def sends (replace : Bool) (s : Store) (key : Key) : List (Key × Args) :=
  match (s.get key).1 with
  | none => []
  | some value => [(key, restore_asking replace key ((s.get key).2.pttl key).1 value)]

/-- The store after one round. -/
def after (s : Store) (key : Key) : Store :=
  match (s.get key).1 with
  | none => (s.get key).2
  | some _ => ((s.get key).2.pttl key).2

theorem migrate_request_cons (replace : Bool) (key : Key) (keys : List Key) (s : Store) :
    migrate_request replace (key :: keys) s =
      (sends replace s key ++ (migrate_request replace keys (after s key)).1,
        (migrate_request replace keys (after s key)).2) := by
  rw [migrate_request, sends, after]
  cases (s.get key).1 <;> rfl

section Round

variable {s : Store} {key : Key} {v : Bytes} {d : Int} {replace : Bool}

theorem asks_deadline (h : s.view key = some (v, some d)) : s.asks key = 1 := by
  simp [asks, h]

theorem get_of_live (h : live s.now (s.view key) = s.view key) :
    (s.get key).1 = (s.view key).map Prod.fst ∧ Becomes s (s.get key).2 s.view (s.asks key) [] := by
  obtain ⟨h1, h2⟩ := get_spec s key
  rw [h] at h1
  rw [seen_of_live h, expiryLog_of_live h] at h2
  exact ⟨h1, h2⟩

theorem round_absent (replace : Bool) (h : s.view key = none) :
    sends replace s key = [] ∧ Becomes s (after s key) s.view 0 [] := by
  have hself : live s.now (s.view key) = s.view key := by rw [h]; rfl
  obtain ⟨h1, h2⟩ := get_of_live hself
  rw [h, Option.map_none] at h1
  rw [asks, h] at h2
  simp only [sends, after, h1]
  exact ⟨trivial, h2⟩

theorem pttl_forever (h : s.view key = some (v, none)) :
    (s.pttl key).1 = -1 ∧ Becomes s (s.pttl key).2 s.view 0 [] := by
  have hself : live s.now (s.view key) = s.view key := by rw [h]; rfl
  obtain ⟨h1, h2⟩ := lookup_spec s key false
  rw [hself, h, Option.map_some] at h1
  rw [seen_of_live hself, expiryLog_of_live hself, asks, h] at h2
  have hno : (s.lookup key false).2.tables.expires.lookup key = none := by
    have hview := congrFun h2.view key
    rw [h] at hview
    cases hx : (s.lookup key false).2.tables.expires.lookup key with
    | none => rfl
    | some d =>
      obtain ⟨w, hw⟩ := Tables.view_of_deadline hx
      rw [Store.view, hw] at hview
      simp at hview
  simp only [pttl, h1, hno]
  exact ⟨trivial, h2⟩

theorem round_forever (replace : Bool) (h : s.view key = some (v, none)) :
    sends replace s key = [(key, restore_asking replace key (-1) v)] ∧
      Becomes s (after s key) s.view 0 [] := by
  have hself : live s.now (s.view key) = s.view key := by rw [h]; rfl
  obtain ⟨h1, h2⟩ := get_of_live hself
  rw [h, Option.map_some] at h1
  rw [asks, h] at h2
  have hv : (s.get key).2.view key = some (v, none) := by rw [h2.view]; exact h
  obtain ⟨h3, h4⟩ := pttl_forever hv
  rw [h2.view] at h4
  simp only [sends, after, h1, h3]
  exact ⟨trivial, h2.quiet h4⟩

theorem lookup_due (touch : Bool) (h : s.view key = some (v, some d)) (hd : d ≤ s.now) :
    (s.lookup key touch).1 = none ∧
      Becomes s (s.lookup key touch).2 (s.seen key) 1 (s.expiryLog key) := by
  obtain ⟨h1, h2⟩ := lookup_spec s key touch
  rw [h, live_some_some, if_pos hd] at h1
  rw [asks_deadline h] at h2
  exact ⟨h1, h2⟩

theorem round_due (replace : Bool) (h : s.view key = some (v, some d)) (hd : d ≤ s.now) :
    sends replace s key = [] ∧ Becomes s (after s key) (s.seen key) 1 (s.expiryLog key) := by
  obtain ⟨h1, h2⟩ := lookup_due true h hd
  simp only [sends, after, Store.get, h1]
  exact ⟨trivial, h2⟩

/-- The remaining time is computed from a reading of its own. -/
theorem pttl_ahead (h : s.view key = some (v, some d)) (hd : s.now < d) :
    (s.pttl key).1 = d - s.clock (s.reads + 1) ∧ Becomes s (s.pttl key).2 s.view 2 [] := by
  have hself : live s.now (s.view key) = s.view key := by
    rw [h, live_some_some, if_neg (not_le.2 hd)]
  obtain ⟨h1, h2⟩ := lookup_spec s key false
  rw [hself, h, Option.map_some] at h1
  rw [seen_of_live hself, expiryLog_of_live hself, asks_deadline h] at h2
  have hx : (s.lookup key false).2.tables.expires.lookup key = some d := by
    have hview := congrFun h2.view key
    rw [h, Store.view, Tables.view] at hview
    cases hdict : (s.lookup key false).2.tables.dict.lookup key with
    | none => simp [hdict] at hview
    | some w =>
      simp only [hdict, Option.map_some, Option.some.injEq, Prod.mk.injEq] at hview
      exact hview.2
  have h3 := h2.trans (now_ms_spec _).2
  rw [h2.view, List.append_nil] at h3
  simp only [pttl, h1, hx]
  refine ⟨?_, h3⟩
  rw [(now_ms_spec _).1, h2.now]

theorem get_ahead (h : s.view key = some (v, some d)) (hd : s.now < d) :
    (s.get key).1 = some v ∧ Becomes s (s.get key).2 s.view 1 [] ∧
      (s.get key).2.view key = some (v, some d) := by
  have hself : live s.now (s.view key) = s.view key := by
    rw [h, live_some_some, if_neg (not_le.2 hd)]
  obtain ⟨h1, h2⟩ := get_of_live hself
  rw [h, Option.map_some] at h1
  rw [asks_deadline h] at h2
  exact ⟨h1, h2, by rw [h2.view]; exact h⟩

/-- The deadline lies ahead of all readings of the round. -/
theorem round_ahead (replace : Bool) (h : s.view key = some (v, some d)) (hd : s.now < d)
    (hd' : (s.clock (s.reads + 1) : Int) < d) :
    sends replace s key = [(key, restore_asking replace key (d - s.clock (s.reads + 2)) v)] ∧
      Becomes s (after s key) s.view 3 [] := by
  obtain ⟨h1, h2, hv⟩ := get_ahead h hd
  have hahead : (s.get key).2.now < d := by rw [h2.now]; exact hd'
  obtain ⟨h3, h4⟩ := pttl_ahead hv hahead
  rw [h2.view] at h4
  rw [h2.clock, h2.reads] at h3
  simp only [sends, after, h1, h3]
  exact ⟨trivial, h2.trans h4⟩

/-- The deadline passes between the two lookups: the key is still sent. -/
theorem round_overtaken (replace : Bool) (h : s.view key = some (v, some d)) (hd : s.now < d)
    (hd' : d ≤ s.clock (s.reads + 1)) :
    sends replace s key = [(key, restore_asking replace key (-2) v)] ∧
      Becomes s (after s key)
        (if s.passive_expiry then s.view else Function.update s.view key none) 2
        (if s.passive_expiry then [] else s.heard [[lit "DEL", key]]) := by
  obtain ⟨h1, h2, hv⟩ := get_ahead h hd
  have hdue : d ≤ (s.get key).2.now := by rw [h2.now]; exact hd'
  obtain ⟨h3, h4⟩ := lookup_due false hv hdue
  have hdead : live (s.get key).2.now ((s.get key).2.view key) = none := by
    rw [hv, live_some_some, if_pos hdue]
  have hseen : (s.get key).2.seen key =
      if s.passive_expiry then s.view else Function.update s.view key none := by
    rw [seen, h2.passive_expiry, hdead, h2.view]
  have hlog : (s.get key).2.expiryLog key =
      if s.passive_expiry then [] else s.heard [[lit "DEL", key]] := by
    rw [expiryLog, h2.passive_expiry, h2.heard, hdead, hv]
    cases s.passive_expiry <;> simp
  rw [hseen, hlog] at h4
  simp only [sends, after, h1, pttl, h3]
  exact ⟨trivial, h2.trans h4⟩

end Round

variable {s s' : Store} {key : Key} {replace : Bool}

theorem isSome_of_get (h : (s.get key).1 ≠ none) : (s.view key).isSome := by
  rw [(get_spec s key).1] at h
  cases hv : s.view key with
  | none => simp [hv] at h
  | some e => rfl

variable {keys ks rs : List Key} {p : Key × Args} {pttl : Int} {n : Nat}

/-! ## What becomes of the keys

Two things take keys out of the source while MIGRATE runs: it deletes what the target
confirmed, and any lookup may find a key due. `Moves` keeps them apart. -/

/-- Between `s` and `s'` the keys `rs` were taken out, the keys `ks` were due and were dropped
and reported with one `DEL` each, and any other key is as it was. Only a passive store, which
leaves expiry to its master, drops a due key that it is told to delete without a report. -/
structure Moves (s s' : Store) (ks rs : List Key) : Prop where
  reads : s.reads ≤ s'.reads
  clock : s'.clock = s.clock
  passive_expiry : s'.passive_expiry = s.passive_expiry
  loading : s'.loading = s.loading
  journal : s'.journal = s.journal ++ s.heard (delLog ks)
  nodup : (ks ++ rs).Nodup
  due : ∀ k ∈ ks, s'.view k = none ∧ Lapsed s s' k
  taken : ∀ k ∈ rs, s'.view k = none ∧ (s.view k).isSome
  others : ∀ k, k ∉ ks → k ∉ rs →
    s'.view k = s.view k ∨ (s.passive_expiry = true ∧ s'.view k = none ∧ Due s s' k)

theorem Moves.of_becomes {m : Space Key Bytes Int} {log : List Args} (h : Becomes s s' m n log)
    (hlog : log = s.heard (delLog ks)) (hnodup : (ks ++ rs).Nodup)
    (hdue : ∀ k ∈ ks, m k = none ∧ Lapsed s s' k) (htaken : ∀ k ∈ rs, m k = none ∧ (s.view k).isSome)
    (hothers : ∀ k, k ∉ ks → k ∉ rs →
      m k = s.view k ∨ (s.passive_expiry = true ∧ m k = none ∧ Due s s' k)) : Moves s s' ks rs := by
  obtain rfl := h.view
  refine ⟨?_, h.clock, h.passive_expiry, h.loading, hlog ▸ h.journal, hnodup, hdue, htaken, hothers⟩
  rw [h.reads]
  omega

theorem Moves.of_same (h : Becomes s s' s.view n []) : Moves s s' [] [] :=
  .of_becomes h (by simp [delLog]) List.nodup_nil (by simp) (by simp) fun _ _ _ => .inl rfl

theorem Moves.refl (s : Store) : Moves s s [] [] := .of_same (Becomes.refl s)

section

variable {k : Key} (h : Moves s s' ks rs)
include h

/-- Nothing comes back. -/
theorem Moves.view_eq (k : Key) : s'.view k = s.view k ∨ s'.view k = none := by
  by_cases hk : k ∈ ks
  · exact .inr (h.due k hk).1
  · by_cases hr : k ∈ rs
    · exact .inr (h.taken k hr).1
    · exact (h.others k hk hr).imp_right fun ho => ho.2.1

/-- What is left is what was there, and in neither list. -/
theorem Moves.left_over (hk : (s'.view k).isSome) : k ∉ ks ∧ k ∉ rs ∧ s'.view k = s.view k := by
  have hne : s'.view k ≠ none := Option.isSome_iff_ne_none.1 hk
  exact ⟨fun hin => hne (h.due k hin).1, fun hin => hne (h.taken k hin).1, (h.view_eq k).resolve_right hne⟩

/-- A key without a deadline goes only if it is taken. -/
theorem Moves.forever {v : Bytes} (hv : s.view k = some (v, none)) (hr : k ∉ rs) :
    s'.view k = some (v, none) := by
  have hnot : ∀ s'', ¬ Due s s'' k := by
    rintro s'' ⟨v', d, i, hv', -⟩
    rw [hv] at hv'
    simp at hv'
  by_cases hk : k ∈ ks
  · exact absurd (h.due k hk).2.2 (hnot _)
  · rcases h.others k hk hr with ho | ⟨-, -, hdue⟩
    · rw [ho, hv]
    · exact absurd hdue (hnot _)

end

theorem Moves.trans {s₁ s₂ : Store} {ks' rs' : List Key} (h : Moves s s₁ ks rs)
    (h' : Moves s₁ s₂ ks' rs') : Moves s s₂ (ks ++ ks') (rs ++ rs') := by
  -- what goes in the second half was still there after the first
  have hdue' : ∀ k ∈ ks', k ∉ ks ∧ k ∉ rs ∧ s₁.view k = s.view k := fun k hk =>
    h.left_over (h'.due k hk).2.2.isSome
  have htaken' : ∀ k ∈ rs', k ∉ ks ∧ k ∉ rs ∧ s₁.view k = s.view k := fun k hk =>
    h.left_over (h'.taken k hk).2
  have hgone : ∀ k, s₁.view k = none → s₂.view k = none := by
    intro k hk
    rcases h'.view_eq k with ho | ho
    · rw [ho, hk]
    · exact ho
  refine
    { reads := h.reads.trans h'.reads
      clock := h'.clock.trans h.clock
      passive_expiry := h'.passive_expiry.trans h.passive_expiry
      loading := h'.loading.trans h.loading
      journal := ?_
      nodup := ?_
      due := ?_
      taken := ?_
      others := ?_ }
  · have hheard : s₁.heard (delLog ks') = s.heard (delLog ks') := by rw [heard, heard, h.loading]
    rw [h'.journal, h.journal, hheard, List.append_assoc, ← heard_append, delLog_append]
  · have h1 := List.nodup_append'.1 h.nodup
    have h2 := List.nodup_append'.1 h'.nodup
    rw [List.nodup_append', List.nodup_append', List.nodup_append']
    refine ⟨⟨h1.1, h2.1, ?_⟩, ⟨h1.2.1, h2.2.1, ?_⟩, ?_⟩
    · intro k hk hk'
      exact (hdue' k hk').1 hk
    · intro k hk hk'
      exact (htaken' k hk').2.1 hk
    · intro k hk hr
      rcases List.mem_append.1 hk with hk | hk <;> rcases List.mem_append.1 hr with hr | hr
      · exact h1.2.2 hk hr
      · exact (htaken' k hr).1 hk
      · exact (hdue' k hk).2.1 hr
      · exact h2.2.2 hk hr
  · intro k hk
    rcases List.mem_append.1 hk with hk | hk
    · obtain ⟨hn, hp, hd⟩ := h.due k hk
      exact ⟨hgone k hn, hp, hd.mono h'.reads⟩
    · obtain ⟨hn, hp, hd⟩ := h'.due k hk
      rw [h.passive_expiry] at hp
      exact ⟨hn, hp, hd.of_later (hdue' k hk).2.2 h.reads h.clock⟩
  · intro k hk
    rcases List.mem_append.1 hk with hk | hk
    · obtain ⟨hn, hs⟩ := h.taken k hk
      exact ⟨hgone k hn, hs⟩
    · obtain ⟨hn, hs⟩ := h'.taken k hk
      rw [(htaken' k hk).2.2] at hs
      exact ⟨hn, hs⟩
  · intro k hk hr
    rw [List.mem_append, not_or] at hk hr
    rcases h.others k hk.1 hr.1 with h1 | ⟨hp, h1, hd⟩
    · rcases h'.others k hk.2 hr.2 with h2 | ⟨hp, h2, hd⟩
      · exact .inl (h2.trans h1)
      · rw [h.passive_expiry] at hp
        exact .inr ⟨hp, h2, hd.of_later h1 h.reads h.clock⟩
    · exact .inr ⟨hp, hgone k h1, hd.mono h'.reads⟩

theorem moves_of_seen (hn : s.asks key ≤ n) (h : Becomes s s' (s.seen key) n (s.expiryLog key)) :
    ∃ ks, Moves s s' ks [] := by
  rcases seen_cases hn h with h | ⟨hdue, h⟩
  · exact ⟨[], .of_same h⟩
  · refine ⟨[key], .of_becomes h rfl (List.nodup_singleton key) ?_ (by simp) ?_⟩
    · intro k hk
      rw [List.mem_singleton.1 hk, Function.update_self]
      exact ⟨rfl, hdue⟩
    · intro k hk _
      exact .inl (Function.update_of_ne (by simpa using hk) _ _)

theorem pttl_moves (s : Store) (key : Key) : ∃ ks, Moves s (s.pttl key).2 ks [] := by
  obtain ⟨h1, h2⟩ := lookup_spec s key false
  obtain ⟨ks, h⟩ := moves_of_seen le_rfl h2
  unfold pttl
  dsimp only
  split
  · exact ⟨ks, h⟩
  · split
    · exact ⟨ks, h⟩
    · have hread := h.trans (.of_same (now_ms_spec (s.lookup key false).2).2)
      rw [List.append_nil] at hread
      exact ⟨ks, hread⟩

theorem after_moves (s : Store) (key : Key) : ∃ ks, Moves s (after s key) ks [] := by
  obtain ⟨ks, h⟩ := moves_of_seen le_rfl (get_spec s key).2
  unfold after
  split
  · exact ⟨ks, h⟩
  · obtain ⟨ks', h'⟩ := pttl_moves (s.get key).2 key
    exact ⟨_, h.trans h'⟩

/-- Building the request takes nothing out but what is due. -/
theorem request_moves (replace : Bool) (keys : List Key) (s : Store) :
    ∃ ks, Moves s (migrate_request replace keys s).2 ks [] := by
  induction keys generalizing s with
  | nil => exact ⟨[], .refl s⟩
  | cons key keys ih =>
    obtain ⟨ks, h⟩ := after_moves s key
    obtain ⟨ks', h'⟩ := ih (after s key)
    rw [migrate_request_cons]
    exact ⟨_, h.trans h'⟩

/-- What is sent for a key is its value. -/
theorem value_of_sent (h : p ∈ (migrate_request replace keys s).1) :
    ∃ v dl pttl, s.view p.1 = some (v, dl) ∧ p.2 = restore_asking replace p.1 pttl v := by
  induction keys generalizing s with
  | nil => simp [migrate_request] at h
  | cons key keys ih =>
    rw [migrate_request_cons] at h
    rcases List.mem_append.1 h with h | h
    · unfold sends at h
      split at h
      · simp at h
      next value hval =>
        rw [List.mem_singleton.1 h]
        rw [(get_spec s key).1] at hval
        obtain ⟨⟨v, dl⟩, hlive, rfl⟩ := Option.map_eq_some_iff.1 hval
        exact ⟨v, dl, _, eq_of_live_eq_some hlive, rfl⟩
    · obtain ⟨v, dl, pttl, hv, hp⟩ := ih h
      obtain ⟨ks, hmoves⟩ := after_moves s key
      exact ⟨v, dl, pttl, (hmoves.left_over (by rw [hv]; rfl)).2.2 ▸ hv, hp⟩

/-! ## RESTORE-ASKING at the target -/

theorem propagate_built_view (env : Env) (t : Store) (argv : Args) :
    (propagate_built env t argv).view = t.view := by
  unfold propagate_built
  split
  · exact (propagate_spec t argv).view
  · rfl

/-- What a RESTORE leaves under its key. With a time to live the key may already be due
there when the store looks at the clock again. -/
theorem restore_into_view (env : Env) (key : Key) (value : Bytes) (ttl : Int) (t : Store) :
    (¬ 0 < ttl → (restore_into env key value ttl false t).2.view key = some (value, none)) ∧
      (0 < ttl → (restore_into env key value ttl false t).2.view key = none ∨
        ∃ d, (restore_into env key value ttl false t).2.view key = some (value, some d)) := by
  constructor
  · intro httl
    simp only [restore_into, restore_deadline, gt_iff_lt, httl, if_false, Option.any_none,
      Bool.false_eq_true, set_expire_opt]
    rw [propagate_built_view, (set_spec _ key value false).view, Function.update_self]
    rfl
  · intro httl
    unfold restore_into
    simp only [restore_deadline, gt_iff_lt, httl, if_true, Bool.false_eq_true, if_false]
    split
    · refine .inl ?_
      have hdel := (del_spec t.now_ms.2 key).2.view
      split
      · rw [(propagate_spec _ _).view, hdel, Function.update_self]
      · rw [hdel, Function.update_self]
    · simp only [set_expire_opt]
      rw [propagate_built_view]
      obtain ⟨log, hb⟩ := set_then_expire t.now_ms.2 key value
        ((deadline_from t.now_ms.1 ttl 1).getD int64_max)
      rw [hb.view, Function.update_self]
      split
      · exact .inr ⟨_, rfl⟩
      · rw [live_some_some]
        split
        · exact .inl rfl
        · exact .inr ⟨_, rfl⟩

theorem restore_options_asking (replace : Bool) :
    restore_options (if replace then [lit "REPLACE"] else []) (false, false) = some (replace, false) := by
  cases replace <;> decide

/-- **RESTORE-ASKING that is not refused** has stored the value, under a deadline if and
only if it came with a time to live, or that time is over at the target. -/
theorem restore_asking_stored {env : Env} {value : Bytes} {t : Store}
    (h : ∀ msg, (cmd_restore env (restore_asking replace key pttl value) t).1 ≠ .error msg) :
    ∃ w, restore_value (dump_value value) = some w ∧
      (¬ 0 < pttl → (cmd_restore env (restore_asking replace key pttl value) t).2.view key
        = some (w, none)) ∧
      (0 < pttl → (cmd_restore env (restore_asking replace key pttl value) t).2.view key = none ∨
        ∃ d, (cmd_restore env (restore_asking replace key pttl value) t).2.view key
          = some (w, some d)) := by
  have hopts := restore_options_asking replace
  unfold restore_asking cmd_restore at h ⊢
  simp only [List.cons_append, List.nil_append, hopts] at h ⊢
  cases hparse : (parse_int64 (to_string (if pttl > 0 then pttl else 0))).filter (0 ≤ ·) with
  | none => simp [hparse] at h
  | some ttl =>
    simp only [hparse] at h ⊢
    have httl : ttl = if pttl > 0 then pttl else 0 := by
      obtain ⟨hp, -⟩ := Option.filter_eq_some_iff.1 hparse
      rw [parse_int64_of_to_string] at hp
      by_cases hf : Fits (if pttl > 0 then pttl else 0)
      · rw [if_pos hf] at hp
        exact (Option.some.inj hp).symm
      · rw [if_neg hf] at hp
        simp at hp
    generalize (if replace = true then (false, t) else t.exists_key key) = x at h ⊢
    split
    next hx => simp [hx] at h
    next hx =>
      rw [if_neg hx] at h
      cases hval : restore_value (dump_value value) with
      | none => simp [hval] at h
      | some w =>
        obtain ⟨hno, hyes⟩ := restore_into_view env key w ttl x.2
        refine ⟨w, rfl, ?_, ?_⟩
        · intro hp
          refine hno ?_
          rw [httl, if_neg hp]
          exact lt_irrefl 0
        · intro hp
          refine hyes ?_
          rw [httl, if_pos hp]
          exact hp

/-! ## Deadlines on the way -/

/-- The command carries a time to live, and a target that does not refuse it stores the key
under a deadline if it stores it at all. -/
def CarriesTtl (p : Key × Args) : Prop :=
  p.2.getD 2 [] ≠ lit "0" ∧
    ∀ (env : Env) (t : Store), (∀ msg, (cmd_restore env p.2 t).1 ≠ .error msg) →
      ∀ w dl, (cmd_restore env p.2 t).2.view p.1 = some (w, dl) → dl ≠ none

/-- No deadline is lost on the way: what is sent for a key that had one when the command
began carries one, and a key is sent only if its deadline lies ahead of the last reading
taken before its payload is built. -/
def Kept (replace : Bool) (keys : List Key) (s : Store) : Prop :=
  (∀ p ∈ (migrate_request replace keys s).1, ∀ v d, s.view p.1 = some (v, some d) → CarriesTtl p) ∧
    ∀ pre key post, keys = pre ++ key :: post →
      ((migrate_request replace pre s).2.get key).1 ≠ none →
      ∀ v d, s.view key = some (v, some d) →
        (s.clock ((after (migrate_request replace pre s).2 key).reads - 1) : Int) < d

/-- Whenever a key of the list has a deadline that lies ahead at the reading its round begins
with, it still lies ahead two readings later. The data `m` and the number `i` of the next
reading are followed through the list: a round takes no reading for a key without a deadline,
one for a key that is due, which an active store then drops, and three for any other. -/
def Steady (passive : Bool) (clock : Nat → Nat) : List Key → Space Key Bytes Int → Nat → Prop
  | [], _, _ => True
  | key :: keys, m, i =>
    match m key with
    | some (_, some d) =>
      if d ≤ clock i then
        Steady passive clock keys (if passive then m else Function.update m key none) (i + 1)
      else (clock (i + 2) : Int) < d ∧ Steady passive clock keys m (i + 3)
    | _ => Steady passive clock keys m i

theorem carriesTtl_of_pos (value : Bytes) (h : 0 < pttl) :
    CarriesTtl (key, restore_asking replace key pttl value) := by
  constructor
  · simp only [restore_asking, List.cons_append, List.getD_cons_succ, List.getD_cons_zero,
      gt_iff_lt, h, if_true]
    intro heq
    have hzero : parse_digits (lit "0") = some 0 := by decide
    have htext : to_string pttl = nat_to_string pttl.natAbs := by
      rw [to_string, if_neg (by omega)]
    rw [← heq, htext, parse_digits_nat_to_string] at hzero
    have := Option.some.inj hzero
    omega
  · intro env t hok w dl hview
    obtain ⟨w', -, -, hstored⟩ := restore_asking_stored hok
    rcases hstored h with hn | ⟨d, hd⟩
    · rw [hn] at hview
      simp at hview
    · rw [hd] at hview
      simp only [Option.some.injEq, Prod.mk.injEq] at hview
      rw [← hview.2]
      simp

theorem not_carriesTtl (value : Bytes) (h : ¬ 0 < pttl) :
    ¬ CarriesTtl (key, restore_asking replace key pttl value) := by
  rintro ⟨htext, -⟩
  refine htext ?_
  simp only [restore_asking, List.cons_append, List.getD_cons_succ, List.getD_cons_zero,
    gt_iff_lt, h, if_false]
  decide

/-- Round by round: the first key is in order, and so is the rest of the list from the state
its round leaves. -/
theorem kept_cons {m : Space Key Bytes Int} {log : List Args} (hb : Becomes s (after s key) m n log) :
    Kept replace (key :: keys) s ↔
      (∀ v d, s.view key = some (v, some d) → (∀ p ∈ sends replace s key, CarriesTtl p) ∧
        ((s.get key).1 ≠ none → (s.clock (s.reads + n - 1) : Int) < d)) ∧
      Kept replace keys (after s key) := by
  have hkey : ∀ p ∈ sends replace s key, p.1 = key := by
    intro p hp
    unfold sends at hp
    split at hp
    · simp at hp
    · rw [List.mem_singleton.1 hp]
  -- what is left in the later state is what was there in the earlier one
  obtain ⟨ks, hmoves⟩ := after_moves s key
  have hback : ∀ {k e}, (after s key).view k = some e → s.view k = some e := fun hk =>
    (hmoves.left_over (by rw [hk]; rfl)).2.2 ▸ hk
  constructor
  · rintro ⟨hsent, hfresh⟩
    refine ⟨?_, ?_, ?_⟩
    · intro v d hv
      constructor
      · intro p hp
        refine hsent p ?_ v d (by rw [hkey p hp]; exact hv)
        rw [migrate_request_cons]
        exact List.mem_append_left _ hp
      · intro hget
        have h := hfresh [] key keys rfl hget v d hv
        rwa [migrate_request, hb.reads] at h
    · intro p hp v d hv
      refine hsent p ?_ v d (hback hv)
      rw [migrate_request_cons]
      exact List.mem_append_right _ hp
    · intro pre k post hkeys hget v d hv
      have h := hfresh (key :: pre) k post (by rw [hkeys]; rfl)
      rw [migrate_request_cons] at h
      rw [hb.clock]
      exact h hget v d (hback hv)
  · rintro ⟨hhead, hsent, hfresh⟩
    constructor
    · intro p hp v d hv
      rw [migrate_request_cons] at hp
      rcases List.mem_append.1 hp with hp | hp
      · rw [hkey p hp] at hv
        exact (hhead v d hv).1 p hp
      · refine hsent p hp v d ?_
        obtain ⟨v', dl, pttl, hthere, -⟩ := value_of_sent hp
        rw [(hmoves.left_over (by rw [hthere]; rfl)).2.2, hv]
    · intro pre k post hkeys hget v d hv
      cases pre with
      | nil =>
        simp only [List.nil_append, List.cons.injEq] at hkeys
        obtain ⟨rfl, -⟩ := hkeys
        rw [migrate_request, hb.reads]
        exact (hhead v d hv).2 hget
      | cons k' pre =>
        simp only [List.cons_append, List.cons.injEq] at hkeys
        obtain ⟨rfl, hkeys⟩ := hkeys
        rw [migrate_request_cons] at hget ⊢
        have h := hfresh pre k post hkeys hget v d
        rw [hb.clock] at h
        refine h ?_
        obtain ⟨ks', hrest⟩ := request_moves replace pre (after s key)
        have hsome := isSome_of_get hget
        rw [(hrest.left_over hsome).2.2] at hsome
        rw [(hmoves.left_over hsome).2.2, hv]

/-- **When MIGRATE keeps deadlines.** -/
theorem kept_iff_steady (replace : Bool) (keys : List Key) {s : Store} (hmono : Monotone s.clock) :
    Kept replace keys s ↔ Steady s.passive_expiry s.clock keys s.view s.reads := by
  -- on the list; the clock and the mode stay, the data and the readings are those of `Steady`
  induction keys generalizing s with
  | nil => simp [Kept, Steady, migrate_request]
  | cons key keys ih =>
    have hnext : ∀ {m n log}, Becomes s (after s key) m n log →
        (Kept replace keys (after s key) ↔
          Steady s.passive_expiry s.clock keys m (s.reads + n)) := by
      intro m n log hb
      rw [ih (by rw [hb.clock]; exact hmono), hb.passive_expiry, hb.clock, hb.view, hb.reads]
    rw [Steady]
    cases hv : s.view key with
    | none =>
      have hb := (round_absent replace hv).2
      rw [kept_cons hb, hnext hb]
      simp [hv]
    | some e =>
      obtain ⟨v, dl⟩ := e
      cases dl with
      | none =>
        have hb := (round_forever replace hv).2
        rw [kept_cons hb, hnext hb]
        simp [hv]
      | some d =>
        by_cases hdue : d ≤ s.clock s.reads
        · -- the key is not sent, and an active store drops it
          obtain ⟨hnone, hb⟩ := round_due replace hv hdue
          have hget : (s.get key).1 = none := (lookup_due true hv hdue).1
          have hseen : s.seen key =
              if s.passive_expiry then s.view else Function.update s.view key none := by
            rw [seen, hv, live_some_some, if_pos (show d ≤ s.now from hdue)]
          rw [kept_cons hb, hnext hb]
          simp only [hdue, if_true, ← hseen, hnone, hget]
          simp
        · have hahead : s.now < d := not_le.1 hdue
          simp only [hdue, if_false]
          by_cases hlast : (s.clock (s.reads + 2) : Int) < d
          · have hmid : (s.clock (s.reads + 1) : Int) < d := by
              have := hmono (show s.reads + 1 ≤ s.reads + 2 by omega)
              omega
            obtain ⟨hsent, hb⟩ := round_ahead replace hv hahead hmid
            rw [kept_cons hb, hnext hb]
            simp only [hlast, true_and, hsent, List.mem_singleton, forall_eq]
            refine ⟨fun h => h.2, fun h => ⟨?_, h⟩⟩
            intro v' d' hv'
            rw [hv] at hv'
            obtain ⟨rfl, rfl⟩ : v = v' ∧ d = d' := by simpa using hv'
            exact ⟨carriesTtl_of_pos v (by omega), fun _ => hlast⟩
          · -- by then the deadline has passed, and the key is sent without one
            have hlost : ∃ pttl, ¬ 0 < pttl ∧
                sends replace s key = [(key, restore_asking replace key pttl v)] := by
              by_cases hmid : (s.clock (s.reads + 1) : Int) < d
              · exact ⟨_, by omega, (round_ahead replace hv hahead hmid).1⟩
              · exact ⟨-2, by omega, (round_overtaken replace hv hahead (not_lt.1 hmid)).1⟩
            obtain ⟨pttl, hneg, hsent⟩ := hlost
            simp only [hlast, false_and, iff_false]
            rintro ⟨hall, -⟩
            refine not_carriesTtl v hneg (hall (key, restore_asking replace key pttl v) ?_ v d hv)
            rw [migrate_request_cons, hsent]
            simp

/-- A key `k` with the deadline 10, set at the first reading of the clock. -/
def with_deadline (clock : Nat → Nat) : Store :=
  ((Store.set { clock } (lit "k") (lit "v") false).set_expire (lit "k") 10).2

theorem clock_with_deadline (clock : Nat → Nat) : (with_deadline clock).clock = clock := by
  obtain ⟨log, hb⟩ := set_then_expire { clock } (lit "k") (lit "v") 10
  exact hb.clock

theorem view_with_deadline : (with_deadline fun _ => 9).view (lit "k") = some (lit "v", some 10) := by
  decide +kernel

theorem kept_still_clock :
    Monotone (with_deadline fun _ => 9).clock ∧
      Steady false (fun _ => 9) [lit "k"] (with_deadline fun _ => 9).view 1 ∧
      Kept false [lit "k"] (with_deadline fun _ => 9) := by
  have hmono : Monotone (with_deadline fun _ => 9).clock := by
    rw [clock_with_deadline]
    exact monotone_const
  have hsteady : Steady false (fun _ => 9) [lit "k"] (with_deadline fun _ => 9).view 1 := by
    rw [Steady, view_with_deadline]
    simp [Steady]
  refine ⟨hmono, hsteady, (kept_iff_steady false [lit "k"] hmono).2 ?_⟩
  rw [clock_with_deadline]
  exact hsteady

/-- The clock ticks to 10 after the lookup inside `pttl` and before the reading it
subtracts. -/
def ticking (n : Nat) : Nat := if n ≤ 2 then 9 else 10

/-- The key is sent without its deadline, and the target keeps it for good. -/
theorem deadline_dropped :
    Monotone ticking ∧ (with_deadline ticking).view (lit "k") = some (lit "v", some 10) ∧
      (migrate_request false [lit "k"] (with_deadline ticking)).1 =
        [(lit "k", [lit "RESTORE-ASKING", lit "k", lit "0", dump_value (lit "v")])] ∧
      (cmd_restore {} [lit "RESTORE-ASKING", lit "k", lit "0", dump_value (lit "v")]
        { clock := fun _ => 10 }).2.view (lit "k") = some (lit "v", none) := by
  refine ⟨?_, by decide +kernel, by decide +kernel, by decide +kernel⟩
  intro i j hij
  unfold ticking
  split <;> split <;> omega

/-! ## After the replies -/

/-- Deleting a confirmed key: it is taken out if it is still live, else it was due or gone. -/
theorem del_moves (s : Store) (key : Key) :
    ∃ ks, Moves s (s.del key).2 ks (if (s.del key).1 then [key] else []) := by
  obtain ⟨hlive, hb⟩ := del_spec s key
  have hother : ∀ k ≠ key, Function.update s.view key none k = s.view k := fun k hk =>
    Function.update_of_ne hk _ _
  rcases live_cases s.now (s.view key) with hself | ⟨v, d, hv, hd, hdead⟩
  · rw [hlive, hself]
    rw [expiryLog_of_live hself] at hb
    cases hv : s.view key with
    | none =>
      -- there is nothing to delete
      exact ⟨[], .of_same (hb.congr (by rw [← hv, Function.update_eq_self]))⟩
    | some e =>
      rw [Option.isSome_some, if_pos rfl]
      refine ⟨[], .of_becomes hb (by simp [delLog]) (List.nodup_singleton key) (by simp) ?_ ?_⟩
      · intro k hk
        rw [List.mem_singleton.1 hk, hv, Function.update_self]
        exact ⟨rfl, rfl⟩
      · intro k _ hk
        exact .inl (hother k (by simpa using hk))
  · have hdue : Due s (s.del key).2 key :=
      ⟨v, d, s.reads, hv, le_rfl, by rw [hb.reads, asks_deadline hv]; omega, hd⟩
    rw [hlive, hdead]
    cases hp : s.passive_expiry with
    | true =>
      refine ⟨[], .of_becomes hb (by simp [expiryLog, hp, delLog]) List.nodup_nil (by simp) (by simp) ?_⟩
      intro k _ _
      by_cases hk : k = key
      · rw [hk, Function.update_self]
        exact .inr ⟨hp, rfl, hdue⟩
      · exact .inl (hother k hk)
    | false =>
      have hlog : s.expiryLog key = s.heard [[lit "DEL", key]] := by
        rw [expiryLog, if_pos ⟨hp, by rw [hv]; rfl, hdead⟩]
      refine ⟨[key], .of_becomes hb hlog (List.nodup_singleton key) ?_ (by simp) ?_⟩
      · intro k hk
        rw [List.mem_singleton.1 hk, Function.update_self]
        exact ⟨rfl, hp, hdue⟩
      · intro k hk _
        exact .inl (hother k (by simpa using hk))

/-- A reply that is not an error. -/
def Confirms (line : Bytes) : Prop := line.head? ≠ some 45

/-- **After the replies.** The keys reported in the one `DEL` are confirmed keys. -/
theorem confirm_moves (copy : Bool) (replies : List (Bytes × Key)) (s : Store) :
    ∃ ks, Moves s (migrate_confirm copy replies s).2.2 ks (migrate_confirm copy replies s).2.1 ∧
      (∀ k ∈ (migrate_confirm copy replies s).2.1, copy = false ∧
        ∃ line, (line, k) ∈ replies ∧ Confirms line) := by
  induction replies generalizing s with
  | nil => exact ⟨[], .refl s, by simp [migrate_confirm]⟩
  | cons r replies ih =>
    obtain ⟨reply, key⟩ := r
    have hmore : ∀ {k}, (copy = false ∧ ∃ line, (line, k) ∈ replies ∧ Confirms line) →
        copy = false ∧ ∃ line, (line, k) ∈ (reply, key) :: replies ∧ Confirms line := by
      rintro k ⟨hc, line, hmem, hline⟩
      exact ⟨hc, line, List.mem_cons_of_mem _ hmem, hline⟩
    obtain ⟨ks, h, hconf⟩ := ih s
    unfold migrate_confirm
    split
    · exact ⟨ks, h, fun k hk => hmore (hconf k hk)⟩
    next hok =>
      split
      · exact ⟨ks, h, fun k hk => hmore (hconf k hk)⟩
      next hcopy =>
        obtain ⟨ks, h⟩ := del_moves s key
        obtain ⟨ks', h', hconf⟩ := ih (s.del key).2
        refine ⟨ks ++ ks', ?_, ?_⟩
        · have hall := h.trans h'
          dsimp only
          split
          next hd => rwa [if_pos hd] at hall
          next hd => rwa [if_neg hd] at hall
        · intro k hk
          dsimp only at hk
          split at hk
          · rcases List.mem_cons.1 hk with rfl | hk
            · exact ⟨by simpa using hcopy, reply, List.mem_cons_self, hok⟩
            · exact hmore (hconf k hk)
          · exact hmore (hconf k hk)

/-- A reply and its key stand at the same place of the two lists. -/
theorem index_of_mem_zip {lines : List Bytes} {sent : List (Key × Args)} {line : Bytes} {k : Key}
    (h : (line, k) ∈ lines.zip (sent.map Prod.fst)) :
    ∃ (i : Nat) (cmd : Args), lines[i]? = some line ∧ sent[i]? = some (k, cmd) := by
  obtain ⟨i, hi⟩ := List.mem_iff_getElem?.1 h
  obtain ⟨hline, hkey⟩ := List.getElem?_zip_eq_some.1 hi
  rw [List.getElem?_map, Option.map_eq_some_iff] at hkey
  obtain ⟨⟨k', cmd⟩, hsent, rfl⟩ := hkey
  exact ⟨i, cmd, hline, hsent⟩

/-- The one report at the end changes nothing else. -/
theorem Moves.reported (h : Moves s s' ks rs) :
    let t := if rs = [] then s' else s'.propagate (lit "DEL" :: rs)
    t.journal = s.journal ++ s.heard (delLog ks ++ if rs = [] then [] else [lit "DEL" :: rs]) ∧
      t.view = s'.view ∧ t.reads = s'.reads := by
  split
  · rw [List.append_nil]
    exact ⟨h.journal, rfl, rfl⟩
  · have hp := propagate_spec s' (lit "DEL" :: rs)
    refine ⟨?_, hp.view, hp.reads⟩
    have hheard : s'.heard [lit "DEL" :: rs] = s.heard [lit "DEL" :: rs] := by
      rw [heard, heard, h.loading]
    rw [hp.journal, h.journal, hheard, List.append_assoc, ← heard_append]

/-- What a run of MIGRATE leaves in the source, as far as expiry goes: the keys `ks` were due
and are gone, and the keys outside both lists are untouched, or due in a passive store. -/
theorem Moves.left (h : Moves s s' ks rs) {t : Store} (hview : t.view = s'.view)
    (hreads : t.reads = s'.reads) :
    (∀ k ∈ ks, t.view k = none ∧ Lapsed s t k) ∧ ∀ k, k ∉ ks → k ∉ rs →
      t.view k = s.view k ∨ (s.passive_expiry = true ∧ t.view k = none ∧ Due s t k) := by
  rw [hview]
  constructor
  · intro k hk
    obtain ⟨hnone, hp, hdue⟩ := h.due k hk
    exact ⟨hnone, hp, hdue.mono hreads.ge⟩
  · intro k hk hr
    rcases h.others k hk hr with ho | ⟨hp, hnone, hdue⟩
    · exact .inl ho
    · exact .inr ⟨hp, hnone, hdue.mono hreads.ge⟩

/-- The target confirmed a RESTORE-ASKING with the value the key had. -/
def Confirmed (env : Env) (host : Bytes) (port timeout : Int) (o : MigrateOptions) (keys : List Key)
    (s : Store) (k : Key) : Prop :=
  ∃ (v : Bytes) (dl : Option Int) (pttl : Int) (i : Nat) (line : Bytes),
    s.view k = some (v, dl)
    ∧ (migrate_request o.replace keys s).1[i]? = some (k, restore_asking o.replace k pttl v)
    ∧ (env.exchange host port ((migrate_request o.replace keys s).1.map Prod.snd)
        (if timeout > 0 then timeout else 1000)).1[i]? = some line
    ∧ Confirms line

/-- **MIGRATE, in moves**: whatever the replies, the store is what the moves leave, with one
report of the confirmed keys. -/
theorem migrate_keys_moves (env : Env) (host : Bytes) (port timeout : Int) (o : MigrateOptions)
    (keys : List Key) (s : Store) : ∃ (ks rs : List Key) (s' : Store), Moves s s' ks rs ∧
      (migrate_keys env host port timeout o keys s).2 =
        (if rs = [] then s' else s'.propagate (lit "DEL" :: rs)) ∧
      ∀ k ∈ rs, o.copy = false ∧ Confirmed env host port timeout o keys s k := by
  obtain ⟨ks₀, hreq⟩ := request_moves o.replace keys s
  unfold migrate_keys Confirmed
  dsimp only
  split
  next hnone => exact ⟨ks₀, [], _, hreq, rfl, by simp⟩
  next hsome =>
    generalize hx : env.exchange host port _ _ = x
    obtain ⟨ks, hconf, hrs⟩ := confirm_moves o.copy
      (x.1.zip ((migrate_request o.replace keys s).1.map Prod.fst))
      (migrate_request o.replace keys s).2
    generalize migrate_confirm o.copy _ _ = c at hconf hrs ⊢
    refine ⟨ks₀ ++ ks, c.2.1, c.2.2, hreq.trans hconf, ?_, ?_⟩
    · -- the three replies leave the same store
      split
      · rfl
      · split <;> rfl
    · intro k hk
      obtain ⟨hcopy, line, hmem, hline⟩ := hrs k hk
      obtain ⟨i, cmd, hi, hsent⟩ := index_of_mem_zip hmem
      obtain ⟨v, dl, pttl, hv, hcmd⟩ := value_of_sent (List.mem_of_getElem? hsent)
      exact ⟨hcopy, v, dl, pttl, i, line, hv, hcmd ▸ hsent, hi, hline⟩

/-- The first line of a reply. -/
def first_line : Reply → Bytes
  | .simple text => 43 :: text
  | .error msg => 45 :: msg
  | .integer n => 58 :: to_string n
  | .bulk text => 36 :: to_string text.length
  | .null => lit "$-1"
  | .nothing => []

theorem confirms_first_line {r : Reply} : Confirms (first_line r) ↔ ∀ msg, r ≠ .error msg := by
  cases r <;> simp [Confirms, first_line]
  decide

/-- The target runs what it is sent, one command after the other. -/
def serve (env : Env) : List Args → Store → List Reply × Store
  | [], t => ([], t)
  | cmd :: cmds, t =>
    let r := dispatch env cmd t
    let rest := serve env cmds r.2
    (r.1 :: rest.1, rest.2)

/-- The key is stored for good, and the store does not evict. -/
structure Settled (key : Key) (v : Bytes) (t : Store) : Prop where
  view : t.view key = some (v, none)
  unlimited : t.maxmemory = 0

section BothEnds

variable {v value : Bytes} {env : Env} {t t' : Store} {log : List Args}

/-- Neither expiry nor eviction takes such a key. -/
theorem Settled.sheds (h : Settled key v t) (hs : Sheds t t' ks) : Settled key v t' := by
  obtain ⟨n, hb⟩ := hs.becomes
  refine ⟨?_, hb.maxmemory.trans h.unlimited⟩
  have hout : key ∉ ks := by
    intro hin
    rcases hs.cause key hin with ⟨-, v', d, -, hv, -⟩ | ⟨hmax, -⟩
    · rw [h.view] at hv
      simp at hv
    · exact hmax h.unlimited
  rw [hb.view, purge, if_neg hout, h.view]

/-- Of the data, only what is stored under `key` has changed. -/
def At (key : Key) (t t' : Store) : Prop :=
  ∃ e n log, Becomes t t' (Function.update t.view key e) n log

theorem At.refl (key : Key) (t : Store) : At key t t :=
  ⟨t.view key, 0, [], (Becomes.refl t).congr (Function.update_eq_self key t.view).symm⟩

theorem At.trans {t'' : Store} (h : At key t t') (h' : At key t' t'') : At key t t'' := by
  obtain ⟨e, n, log, hb⟩ := h
  obtain ⟨e', n', log', hb'⟩ := h'
  have hall := hb.trans hb'
  rw [hb.view, Function.update_idem] at hall
  exact ⟨e', _, _, hall⟩

theorem At.of_same (h : Becomes t t' t.view n log) : At key t t' :=
  ⟨t.view key, n, log, h.congr (Function.update_eq_self key t.view).symm⟩

theorem at_propagate_built (env : Env) (key : Key) (t : Store) (argv : Args) :
    At key t (propagate_built env t argv) := by
  unfold propagate_built
  split
  · exact .of_same (propagate_spec t argv)
  · exact .refl key t

theorem at_restore_into (env : Env) (key : Key) (value : Bytes) (ttl : Int) (t : Store) :
    At key t (restore_into env key value ttl false t).2 := by
  refine (At.of_same (now_ms_spec t).2).trans ?_
  unfold restore_into
  dsimp only
  split
  · have hdel : At key t.now_ms.2 (t.now_ms.2.del key).2 := ⟨none, _, _, (del_spec t.now_ms.2 key).2⟩
    split
    · exact hdel.trans (.of_same (propagate_spec _ _))
    · exact hdel
  · refine At.trans ?_ (at_propagate_built env key _ _)
    cases restore_deadline t.now_ms.1 ttl false with
    | none => exact ⟨_, _, _, set_spec t.now_ms.2 key value false⟩
    | some d =>
      obtain ⟨log, hset⟩ := set_then_expire t.now_ms.2 key value d
      exact ⟨_, _, log, hset⟩

/-- RESTORE leaves the other keys alone. -/
theorem at_cmd_restore (env : Env) (replace : Bool) (key : Key) (pttl : Int) (value : Bytes) (t : Store) :
    At key t (cmd_restore env (restore_asking replace key pttl value) t).2 := by
  have hlook : At key t (if replace then (false, t) else t.exists_key key).2 := by
    split
    · exact .refl key t
    · have hb := (exists_key_spec t key).2
      unfold seen at hb
      split at hb
      · exact .of_same hb
      · exact ⟨_, _, _, hb⟩
  unfold restore_asking cmd_restore
  simp only [List.cons_append, List.nil_append, restore_options_asking replace]
  generalize (if replace = true then (false, t) else t.exists_key key) = x at hlook ⊢
  split
  · exact .refl key t
  · split
    · exact hlook
    · split
      · exact hlook
      · exact hlook.trans (at_restore_into env key _ _ x.2)

/-- RESTORE-ASKING comes to its handler, past the checks of `dispatch`, or is refused. -/
theorem dispatch_restore_asking (env : Env) (replace : Bool) (key : Key) (pttl : Int) (value : Bytes)
    (t : Store) : ∃ t' ks, Sheds t t' ks ∧
      (dispatch env (restore_asking replace key pttl value) t =
          cmd_restore env (restore_asking replace key pttl value) t' ∨
        ∃ msg, dispatch env (restore_asking replace key pttl value) t = (.error msg, t')) := by
  have hfind : ∃ spec, find_command (to_upper (lit "RESTORE-ASKING")) = some spec ∧
      spec.handler = .restore ∧ spec.arity = -4 := ⟨_, rfl, rfl, rfl⟩
  obtain ⟨spec, hfind, hhandler, harity⟩ := hfind
  have hlong : arity_ok spec.arity (restore_asking replace key pttl value).length = true := by
    rw [harity]
    cases replace <;> rfl
  obtain ⟨rest, hrest⟩ : ∃ rest, restore_asking replace key pttl value = lit "RESTORE-ASKING" :: rest :=
    ⟨_, rfl⟩
  rw [hrest] at hlong ⊢
  obtain ⟨ks₁, h₁⟩ := redirect_sheds env spec (lit "RESTORE-ASKING" :: rest) t
  obtain ⟨ks₂, h₂⟩ := refuse_sheds env spec (redirect env spec (lit "RESTORE-ASKING" :: rest) t).2
  generalize hd : dispatch env (lit "RESTORE-ASKING" :: rest) t = d
  simp only [dispatch, hfind, hlong, if_true, hhandler, run_handler] at hd
  split at hd
  next e _ => exact ⟨_, ks₁, h₁, Or.inr ⟨e, hd.symm⟩⟩
  next =>
    split at hd
    next e _ => exact ⟨_, _, h₁.trans h₂, Or.inr ⟨e, hd.symm⟩⟩
    next => exact ⟨_, _, h₁.trans h₂, Or.inl hd.symm⟩

theorem dispatch_maxmemory (env : Env) (replace : Bool) (key : Key) (pttl : Int) (value : Bytes) (t : Store) :
    (dispatch env (restore_asking replace key pttl value) t).2.maxmemory = t.maxmemory := by
  obtain ⟨t', ks, hsheds, heq⟩ := dispatch_restore_asking env replace key pttl value t
  obtain ⟨m, hb⟩ := hsheds.becomes
  rcases heq with heq | ⟨msg, heq⟩
  · obtain ⟨e, n, log, hb'⟩ := at_cmd_restore env replace key pttl value t'
    rw [heq]
    exact hb'.maxmemory.trans hb.maxmemory
  · rw [heq]
    exact hb.maxmemory

/-- RESTORE-ASKING without a time to live that is not refused settles its key. -/
theorem settled_of_dispatch (hmax : t.maxmemory = 0) (hlen : v.length < 2 ^ 64) (hneg : ¬ 0 < pttl)
    (hok : ∀ msg, (dispatch env (restore_asking replace key pttl v) t).1 ≠ .error msg) :
    Settled key v (dispatch env (restore_asking replace key pttl v) t).2 := by
  refine ⟨?_, (dispatch_maxmemory env replace key pttl v t).trans hmax⟩
  obtain ⟨t', ks, hsheds, heq | ⟨msg, heq⟩⟩ := dispatch_restore_asking env replace key pttl v t
  · rw [heq] at hok ⊢
    obtain ⟨w, hw, hno, -⟩ := restore_asking_stored hok
    rw [restore_value_dump_value hlen, Option.some.injEq] at hw
    rw [hno hneg, hw]
  · rw [heq] at hok
    exact absurd rfl (hok msg)

/-- A settled key stays, unless a RESTORE-ASKING with something else comes for it. -/
theorem Settled.dispatch (h : Settled key v t) (hlen : v.length < 2 ^ 64) {k : Key} {pttl' : Int}
    (hsame : k = key → value = v ∧ ¬ 0 < pttl') :
    Settled key v (dispatch env (restore_asking replace k pttl' value) t).2 := by
  by_cases hk : k = key ∧
      ∀ msg, (Commands.dispatch env (restore_asking replace k pttl' value) t).1 ≠ .error msg
  · obtain ⟨rfl, hok⟩ := hk
    obtain ⟨rfl, hneg⟩ := hsame rfl
    exact settled_of_dispatch h.unlimited hlen hneg hok
  · refine ⟨?_, (dispatch_maxmemory env replace k pttl' value t).trans h.unlimited⟩
    obtain ⟨t', ks, hsheds, heq | ⟨msg, heq⟩⟩ := dispatch_restore_asking env replace k pttl' value t
    · have h' := h.sheds hsheds
      rw [heq] at hk ⊢
      by_cases hkey : k = key
      · -- it comes for this key and is refused
        obtain ⟨msg, herr⟩ := not_forall_not.1 fun hok => hk ⟨hkey, hok⟩
        obtain ⟨ks', hs⟩ := cmd_restore_error herr
        exact (h'.sheds hs).view
      · obtain ⟨e, n, log, hb⟩ := at_cmd_restore env replace k pttl' value t'
        rw [hb.view, Function.update_of_ne fun hkk => hkey hkk.symm]
        exact h'.view
    · rw [heq]
      exact (h.sheds hsheds).view

/-- What MIGRATE sends, as far as the key is concerned: its value without a time to live. -/
structure Sends (replace : Bool) (key : Key) (v : Bytes) (sent : List (Key × Args)) : Prop where
  asks : ∀ p ∈ sent, ∃ pttl value, p.2 = restore_asking replace p.1 pttl value ∧
    (p.1 = key → value = v ∧ ¬ 0 < pttl)

theorem Sends.tail {sent : List (Key × Args)} (h : Sends replace key v (p :: sent)) :
    Sends replace key v sent := ⟨fun q hq => h.asks q (List.mem_cons_of_mem _ hq)⟩

theorem Settled.serve {sent : List (Key × Args)} (h : Settled key v t) (hlen : v.length < 2 ^ 64)
    (hs : Sends replace key v sent) : Settled key v (serve env (sent.map Prod.snd) t).2 := by
  induction sent generalizing t with
  | nil => exact h
  | cons p sent ih =>
    obtain ⟨pttl, value, hp, hsame⟩ := hs.asks p List.mem_cons_self
    refine ih ?_ hs.tail
    rw [hp]
    exact h.dispatch hlen hsame

/-- **A confirmed key is at the target**, whatever comes after it. -/
theorem settled_of_confirmed {sent : List (Key × Args)} (hmax : t.maxmemory = 0)
    (hlen : v.length < 2 ^ 64) (hs : Sends replace key v sent) {i : Nat} {cmd : Args} {r : Reply}
    (hi : sent[i]? = some (key, cmd)) (hr : (serve env (sent.map Prod.snd) t).1[i]? = some r)
    (hok : ∀ msg, r ≠ .error msg) : Settled key v (serve env (sent.map Prod.snd) t).2 := by
  induction sent generalizing t i with
  | nil => simp at hi
  | cons p sent ih =>
    obtain ⟨pttl, value, hp, hsame⟩ := hs.asks p List.mem_cons_self
    have hrest : (dispatch env p.2 t).2.maxmemory = t.maxmemory :=
      hp ▸ dispatch_maxmemory env replace p.1 pttl value t
    cases i with
    | zero =>
      -- the reply is to this command, and the rest keeps what it has stored
      simp only [List.getElem?_cons_zero, Option.some.injEq] at hi
      subst hi
      simp only [List.map_cons, serve, List.getElem?_cons_zero, Option.some.injEq] at hr
      subst hr
      obtain ⟨rfl, hneg⟩ := hsame rfl
      dsimp only at hp hok
      subst hp
      exact (settled_of_dispatch hmax hlen hneg hok).serve hlen hs.tail
    | succ i =>
      exact ih (hrest.trans hmax) hs.tail hi hr

end BothEnds

/-- A key without a deadline is sent with its value and without a time to live. -/
theorem sends_request (replace : Bool) (keys : List Key) (s : Store) {key : Key} {v : Bytes}
    (hv : s.view key = some (v, none)) : Sends replace key v (migrate_request replace keys s).1 := by
  induction keys generalizing s with
  | nil => exact ⟨by simp [migrate_request]⟩
  | cons k keys ih =>
    rw [migrate_request_cons]
    refine ⟨fun p hp => ?_⟩
    rcases List.mem_append.1 hp with hp | hp
    · by_cases hk : k = key
      · subst hk
        rw [(round_forever replace hv).1, List.mem_singleton] at hp
        subst hp
        exact ⟨-1, v, rfl, fun _ => ⟨rfl, by decide⟩⟩
      · unfold sends at hp
        split at hp
        · simp at hp
        · rw [List.mem_singleton.1 hp]
          exact ⟨_, _, rfl, fun hkk => absurd hkk hk⟩
    · -- the round leaves such a key alone
      obtain ⟨ks, hmoves⟩ := after_moves s k
      exact (ih (after s k) (hmoves.forever hv List.not_mem_nil)).asks p hp

theorem length_serve (env : Env) (cmds : List Args) (t : Store) :
    (serve env cmds t).1.length = cmds.length := by
  induction cmds generalizing t with
  | nil => rfl
  | cons cmd cmds ih => exact congrArg (· + 1) (ih _)

/-- What the source of a MIGRATE sends. -/
def sent_to (o : MigrateOptions) (keys : List Key) (s : Store) (m : Nat) : List Args :=
  ((migrate_request o.replace keys s).1.take m).map Prod.snd

/-- The target has run the first `m` of the commands that the source sent, and the source has
read some of the replies, in order. -/
def Exchanged (env : Env) (host : Bytes) (port timeout : Int) (o : MigrateOptions) (keys : List Key)
    (s : Store) (tenv : Env) (m : Nat) (t : Store) : Prop :=
  ∃ n, (env.exchange host port ((migrate_request o.replace keys s).1.map Prod.snd)
    (if timeout > 0 then timeout else 1000)).1 =
      ((serve tenv (sent_to o keys s m) t).1.map first_line).take n

/-- **A key is at one end or the other**, wherever the exchange breaks off. -/
theorem key_at_one_end {env tenv : Env} {host : Bytes} {port timeout : Int} {o : MigrateOptions}
    {keys : List Key} {s t : Store} {m : Nat} {key : Key} {v : Bytes}
    (hv : s.view key = some (v, none)) (hlen : v.length < 2 ^ 64) (hmax : t.maxmemory = 0)
    (hx : Exchanged env host port timeout o keys s tenv m t) :
    (migrate_keys env host port timeout o keys s).2.view key = some (v, none) ∨
      Settled key v (serve tenv (sent_to o keys s m) t).2 := by
  obtain ⟨ks, rs, s', h, heq, hrs⟩ := migrate_keys_moves env host port timeout o keys s
  obtain ⟨-, hview, -⟩ := h.reported
  by_cases hrskey : key ∈ rs
  · -- confirmed, so the target has answered it and not with an error
    right
    obtain ⟨-, v', dl, pttl, i, line, hv', hsent, hline, hconf⟩ := hrs key hrskey
    obtain ⟨n, hlines⟩ := hx
    rw [hlines, List.getElem?_take] at hline
    split at hline
    case isFalse => simp at hline
    rw [List.getElem?_map, Option.map_eq_some_iff] at hline
    obtain ⟨r, hr, rfl⟩ := hline
    have hi : i < m := by
      have hlt := (List.getElem?_eq_some_iff.1 hr).1
      rw [length_serve, sent_to, List.length_map, List.length_take] at hlt
      omega
    have hasks : Sends o.replace key v ((migrate_request o.replace keys s).1.take m) :=
      ⟨fun p hp => (sends_request o.replace keys s hv).asks p (List.mem_of_mem_take hp)⟩
    have hcmd := (List.getElem?_take_of_lt hi).trans hsent
    exact settled_of_confirmed hmax hlen hasks hcmd hr (confirms_first_line.1 hconf)
  · left
    rw [heq, hview]
    exact h.forever hv hrskey

/-- A target that answers these lines. -/
def answering (lines : List Bytes) : Env := { exchange := fun _ _ _ _ => (lines, none) }

end EpochKV.Migration

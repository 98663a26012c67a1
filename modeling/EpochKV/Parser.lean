/-
The server's request parser (`resp_parser.cpp`).

The buffer is what was fed and not yet consumed. `try_parse_command` looks at its front
only: a command that is there whole is taken off, anything else leaves the buffer as it
is. What a command looks like is said apart from the parser, by `IsCommand`: the digits of
a length may be spelled in more than one way, the bytes of an argument are free.

The parser starts from the front of the buffer on every call, so what makes it
incremental is one fact: a verdict other than "incomplete" is not changed by bytes that
arrive later (`try_parse_command_append`). Every exit of the two loops is decided by
bytes that are already there.
-/
import EpochKV.Resp

set_option autoImplicit false

namespace EpochKV.Parser

open Text Resp

inductive Result where
  | complete (command : Args) (rest : Bytes)
  | incomplete
  | protocol_error
  deriving DecidableEq

/-- Digits only, at least one, and a value that fits into a `size_t`. -/
def parse_length (digits : Bytes) : Option Nat :=
  if digits = [] then none
  else digits.foldlM (fun value c =>
    if c < 48 ∨ 57 < c then none
    else
      let digit := c.toNat - 48
      if (2 ^ 64 - 1 - digit) / 10 < value then none else some (value * 10 + digit)) 0

/-- One more argument in front of what was read. -/
def Result.push (arg : Bytes) : Result → Result
  | .complete command rest => .complete (arg :: command) rest
  | r => r

/-- The loop over the arguments. -/
def parse_args : Nat → Bytes → Result
  | 0, buf => .complete [] buf
  | _ + 1, [] => .incomplete
  | count + 1, c :: buf =>
    if c ≠ 36 then .protocol_error
    else
      match line_end buf with
      | none => .incomplete
      | some (digits, buf) =>
        match parse_length digits with
        | none => .protocol_error
        | some len =>
          if buf.length < len + 2 then .incomplete
          else if (buf.drop len).take 2 ≠ crlf then .protocol_error
          else (parse_args count (buf.drop (len + 2))).push (buf.take len)

def try_parse_command : Bytes → Result
  | [] => .incomplete
  | c :: buf =>
    if c ≠ 42 then .protocol_error
    else
      match line_end buf with
      | none => .incomplete
      | some (digits, buf) =>
        match parse_length digits with
        | none => .protocol_error
        | some count => parse_args count buf

example : try_parse_command (lit "*1\r\n$4\r\nPING\r\n*1") = .complete [lit "PING"] (lit "*1") := by
  decide +kernel

/-! ## Lengths -/

/-- Digits, and the number they spell: leading zeros are allowed, and the value is one that a
`size_t` holds. -/
structure IsNumber (s : Bytes) (n : Nat) : Prop where
  ne_nil : s ≠ []
  digits : ∀ c ∈ s, 48 ≤ c ∧ c ≤ 57
  value : Nat.ofDigits 10 (s.reverse.map fun c => c.toNat - 48) = n
  fits : n < 2 ^ 64

/-- One round of the loop of `parse_length`. -/
def length_digit (value : Nat) (c : UInt8) : Option Nat :=
  if c < 48 ∨ 57 < c then none
  else
    let digit := c.toNat - 48
    if (2 ^ 64 - 1 - digit) / 10 < value then none else some (value * 10 + digit)

theorem parse_length_eq (s : Bytes) :
    parse_length s = if s = [] then none else s.foldlM length_digit 0 := rfl

/-- A round goes on with a digit, as long as the value fits. -/
theorem length_digit_eq_some {value next : Nat} {c : UInt8} :
    length_digit value c = some next ↔
      (48 ≤ c ∧ c ≤ 57) ∧ value * 10 + (c.toNat - 48) = next ∧ next < 2 ^ 64 := by
  have hrange : ¬ (c < 48 ∨ 57 < c) ↔ 48 ≤ c ∧ c ≤ 57 := by
    rw [not_or, UInt8.not_lt, UInt8.not_lt]
  rw [length_digit, Option.ite_none_left_eq_some, hrange]
  apply and_congr_right
  rintro ⟨-, hhigh⟩
  have hnine : c.toNat - 48 ≤ 9 := by
    have hle : c.toNat ≤ 57 := hhigh
    omega
  rw [Option.ite_none_left_eq_some, Option.some.injEq]
  constructor
  · rintro ⟨hfits, rfl⟩
    refine ⟨rfl, ?_⟩
    omega
  · rintro ⟨rfl, hlt⟩
    refine ⟨?_, rfl⟩
    omega

theorem ofDigits_cons_text (c : UInt8) (s : Bytes) :
    Nat.ofDigits 10 ((c :: s).reverse.map fun c => c.toNat - 48)
      = (c.toNat - 48) * 10 ^ s.length
        + Nat.ofDigits 10 (s.reverse.map fun c => c.toNat - 48) := by
  rw [List.reverse_cons, List.map_append, Nat.ofDigits_append, List.map_singleton,
    Nat.ofDigits_singleton, List.length_map, List.length_reverse]
  ring

variable {n : Nat} {argv : Args} {buf rest : Bytes} {s : Bytes}

/-- The rest of the loop: what was read counts for as many places as there are digits left. -/
theorem foldlM_length_digit {value : Nat} (hv : value < 2 ^ 64) :
    s.foldlM length_digit value = some n ↔
      (∀ c ∈ s, 48 ≤ c ∧ c ≤ 57)
        ∧ value * 10 ^ s.length + Nat.ofDigits 10 (s.reverse.map fun c => c.toNat - 48) = n
        ∧ n < 2 ^ 64 := by
  induction s generalizing value with
  | nil =>
    simp only [List.foldlM_nil, Option.pure_def, Option.some.injEq, List.not_mem_nil,
      false_implies, implies_true, List.length_nil, pow_zero, mul_one, List.reverse_nil,
      List.map_nil, Nat.ofDigits_nil, add_zero, true_and]
    constructor
    · rintro rfl
      exact ⟨rfl, hv⟩
    · rintro ⟨rfl, -⟩
      rfl
  | cons c s ih =>
    rw [List.foldlM_cons, List.forall_mem_cons, ofDigits_cons_text, List.length_cons, pow_succ]
    -- the value after `c` is at most the whole value
    have hplace : value * (10 ^ s.length * 10) + ((c.toNat - 48) * 10 ^ s.length
          + Nat.ofDigits 10 (s.reverse.map fun c => c.toNat - 48))
        = (value * 10 + (c.toNat - 48)) * 10 ^ s.length
          + Nat.ofDigits 10 (s.reverse.map fun c => c.toNat - 48) := by ring
    rw [hplace]
    constructor
    · intro h
      obtain ⟨next, hnext, hrest⟩ := Option.bind_eq_some_iff.1 h
      obtain ⟨hdigit, rfl, hlt⟩ := length_digit_eq_some.1 hnext
      obtain ⟨hdigits, hvalue, hfits⟩ := (ih hlt).1 hrest
      exact ⟨⟨hdigit, hdigits⟩, hvalue, hfits⟩
    · rintro ⟨⟨hdigit, hdigits⟩, hvalue, hfits⟩
      have hle : value * 10 + (c.toNat - 48)
          ≤ (value * 10 + (c.toNat - 48)) * 10 ^ s.length :=
        Nat.le_mul_of_pos_right _ (by positivity)
      have hlt : value * 10 + (c.toNat - 48) < 2 ^ 64 := by omega
      refine Option.bind_eq_some_iff.2 ⟨_, length_digit_eq_some.2 ⟨hdigit, rfl, hlt⟩, ?_⟩
      exact (ih hlt).2 ⟨hdigits, hvalue, hfits⟩

theorem parse_length_eq_some : parse_length s = some n ↔ IsNumber s n := by
  rw [parse_length_eq, Option.ite_none_left_eq_some, foldlM_length_digit (by norm_num), zero_mul,
    zero_add]
  constructor
  · rintro ⟨hne, hdigits, hvalue, hfits⟩
    exact ⟨hne, hdigits, hvalue, hfits⟩
  · rintro ⟨hne, hdigits, hvalue, hfits⟩
    exact ⟨hne, hdigits, hvalue, hfits⟩

theorem IsNumber.oneLine (h : IsNumber s n) : OneLine s :=
  oneLine_of_digits h.digits

theorem isNumber_to_string (hn : n < 2 ^ 64) : IsNumber (to_string n) n where
  ne_nil := nat_to_string_ne_nil n
  digits _ hc := digit_of_mem_nat_to_string hc
  value := by
    show Nat.ofDigits 10 ((nat_to_string n).reverse.map fun c => c.toNat - 48) = n
    rw [nat_to_string]
    split
    case isTrue hzero => rw [hzero]; rfl
    case isFalse =>
      rw [← List.map_reverse, List.reverse_reverse, List.map_map]
      have hback : (Nat.digits 10 n).map ((fun c : UInt8 => c.toNat - 48) ∘ fun d => UInt8.ofNat (48 + d))
          = Nat.digits 10 n := by
        refine (List.map_congr_left fun d hd => ?_).trans (List.map_id _)
        have hlt : d < 10 := Nat.digits_lt_base (by norm_num) hd
        interval_cases d <;> rfl
      rw [hback, Nat.ofDigits_digits]
  fits := hn

/-! ## The grammar -/

/-- `$` and the length, then the bytes, each followed by CRLF. -/
def IsBulk (arg text : Bytes) : Prop :=
  ∃ digits, IsNumber digits arg.length ∧ text = 36 :: (digits ++ (crlf ++ (arg ++ crlf)))

inductive IsBulks : Args → Bytes → Prop
  | nil : IsBulks [] []
  | cons {arg text texts : Bytes} {argv : Args} :
      IsBulk arg text → IsBulks argv texts → IsBulks (arg :: argv) (text ++ texts)

/-- `*` and the number of arguments, then the arguments. -/
def IsCommand (argv : Args) (text : Bytes) : Prop :=
  ∃ digits texts, IsNumber digits argv.length ∧ IsBulks argv texts ∧
    text = 42 :: (digits ++ (crlf ++ texts))

theorem parse_args_of_isBulks {texts : Bytes} (h : IsBulks argv texts) (rest : Bytes) :
    parse_args argv.length (texts ++ rest) = .complete argv rest := by
  induction h with
  | nil => rfl
  | @cons arg text texts argv hbulk _ ih =>
    obtain ⟨digits, hnumber, rfl⟩ := hbulk
    have hline := line_end_line hnumber.oneLine (arg ++ (crlf ++ (texts ++ rest)))
    have hlong : ¬ (arg ++ (crlf ++ (texts ++ rest))).length < arg.length + 2 := by
      simp only [List.length_append, crlf, List.length_cons, List.length_nil]
      omega
    simp only [List.cons_append, List.append_assoc, List.length_cons]
    rw [parse_args, if_neg (by decide), hline]
    dsimp only
    rw [parse_length_eq_some.2 hnumber]
    dsimp only
    rw [if_neg hlong, List.drop_left, List.take_left, ← List.drop_drop, List.drop_left]
    rw [if_neg (by simp [crlf]), show (crlf ++ (texts ++ rest)).drop 2 = texts ++ rest from rfl, ih]
    rfl

/-- Everything the grammar allows is read, with what stands behind it left. -/
theorem try_parse_command_of_isCommand {text : Bytes} (h : IsCommand argv text) (rest : Bytes) :
    try_parse_command (text ++ rest) = .complete argv rest := by
  obtain ⟨digits, texts, hnumber, hbulks, rfl⟩ := h
  have hline := line_end_line hnumber.oneLine (texts ++ rest)
  simp only [List.cons_append, List.append_assoc]
  rw [try_parse_command, if_neg (by decide), hline]
  dsimp only
  rw [parse_length_eq_some.2 hnumber]
  exact parse_args_of_isBulks hbulks rest

theorem line_end_split {line : Bytes} (h : line_end buf = some (line, rest)) :
    buf = line ++ (crlf ++ rest) := by
  induction buf using line_end.induct generalizing line rest with
  | case1 => simp [line_end] at h
  | case2 r =>
    simp only [line_end, Option.some.injEq, Prod.mk.injEq] at h
    obtain ⟨rfl, rfl⟩ := h
    rfl
  | case3 b r hb ih =>
    rw [line_end] at h
    case x_1 => exact hb
    obtain ⟨p, hp, heq⟩ := Option.map_eq_some_iff.1 h
    simp only [Prod.mk.injEq] at heq
    obtain ⟨rfl, rfl⟩ := heq
    rw [ih hp, List.cons_append]

/-- The bytes of an argument and the CRLF behind it. -/
theorem take_drop_crlf {tail : Bytes} {len : Nat} (hlong : ¬ tail.length < len + 2)
    (hcr : ¬ (tail.drop len).take 2 ≠ crlf) :
    (tail.take len).length = len ∧ tail = tail.take len ++ (crlf ++ tail.drop (len + 2)) := by
  rw [not_ne_iff] at hcr
  refine ⟨List.length_take_of_le (by omega), ?_⟩
  rw [← hcr, ← List.drop_drop, List.take_append_drop, List.take_append_drop]

theorem isBulks_of_parse_args {count : Nat} (h : parse_args count buf = .complete argv rest) :
    argv.length = count ∧ ∃ texts, IsBulks argv texts ∧ buf = texts ++ rest := by
  induction count generalizing buf argv with
  | zero =>
    simp only [parse_args, Result.complete.injEq] at h
    obtain ⟨rfl, rfl⟩ := h
    exact ⟨rfl, [], .nil, rfl⟩
  | succ count ih =>
    cases buf with
    | nil => simp [parse_args] at h
    | cons c buf =>
      rw [parse_args] at h
      split at h
      · simp at h
      next hc =>
      split at h
      · simp at h
      next digits tail hl =>
      split at h
      · simp at h
      next len hlen =>
      split at h
      · simp at h
      next hlong =>
      split at h
      · simp at h
      next hcr =>
      cases hr : parse_args count (tail.drop (len + 2)) with
      | incomplete | protocol_error => simp [hr, Result.push] at h
      | complete argv' rest' =>
        simp only [hr, Result.push, Result.complete.injEq] at h
        obtain ⟨rfl, rfl⟩ := h
        obtain ⟨hcount, texts, hbulks, htexts⟩ := ih hr
        obtain ⟨htake, hsplit⟩ := take_drop_crlf hlong hcr
        have hbulk : IsBulk (tail.take len) (36 :: (digits ++ (crlf ++ (tail.take len ++ crlf)))) :=
          ⟨digits, htake.symm ▸ parse_length_eq_some.1 hlen, rfl⟩
        refine ⟨congrArg (· + 1) hcount, _, .cons hbulk hbulks, ?_⟩
        have htail : tail = tail.take len ++ (crlf ++ (texts ++ rest')) := htexts ▸ hsplit
        rw [not_ne_iff.1 hc, line_end_split hl]
        nth_rewrite 1 [htail]
        simp only [List.cons_append, List.append_assoc]

/-- A command was read from a text of the grammar, which is taken off the buffer. -/
theorem isCommand_of_try_parse_command (h : try_parse_command buf = .complete argv rest) :
    ∃ text, IsCommand argv text ∧ buf = text ++ rest := by
  cases buf with
  | nil => simp [try_parse_command] at h
  | cons c buf =>
    rw [try_parse_command] at h
    split at h
    · simp at h
    next hc =>
    split at h
    · simp at h
    next digits tail hl =>
    split at h
    · simp at h
    next count hcount =>
    obtain ⟨hlen, texts, hbulks, rfl⟩ := isBulks_of_parse_args h
    refine ⟨_, ⟨digits, texts, hlen.symm ▸ parse_length_eq_some.1 hcount, hbulks, rfl⟩, ?_⟩
    rw [not_ne_iff.1 hc, line_end_split hl]
    simp only [List.cons_append, List.append_assoc]

theorem IsCommand.ne_nil {text : Bytes} (h : IsCommand argv text) : text ≠ [] := by
  obtain ⟨digits, texts, -, -, rfl⟩ := h
  exact List.cons_ne_nil _ _

/-! ## A command that the server wrote -/

theorem isBulks_bulk_strings (hsize : ∀ arg ∈ argv, arg.length < 2 ^ 64) :
    IsBulks argv (argv.flatMap bulk_string) := by
  induction argv with
  | nil => exact .nil
  | cons arg argv ih =>
    rw [List.forall_mem_cons] at hsize
    rw [List.flatMap_cons]
    refine .cons ⟨_, isNumber_to_string hsize.1, ?_⟩ (ih hsize.2)
    simp only [bulk_string, List.cons_append, List.append_assoc]

theorem isCommand_command (hlen : argv.length < 2 ^ 64) (hsize : ∀ arg ∈ argv, arg.length < 2 ^ 64) :
    IsCommand argv (command argv) := by
  refine ⟨_, _, isNumber_to_string hlen, isBulks_bulk_strings hsize, ?_⟩
  simp only [command, array_header, List.cons_append, List.append_assoc]

/-- **A command is read back as it was written**, and what stands behind it is left. -/
theorem try_parse_command_command (hlen : argv.length < 2 ^ 64)
    (hsize : ∀ arg ∈ argv, arg.length < 2 ^ 64) (rest : Bytes) :
    try_parse_command (command argv ++ rest) = .complete argv rest :=
  try_parse_command_of_isCommand (isCommand_command hlen hsize) rest

/-! ## Bytes that arrive later -/

/-- The same verdict with more bytes at the end of the buffer. -/
def Result.later (more : Bytes) : Result → Result
  | .complete command rest => .complete command (rest ++ more)
  | r => r

theorem later_push (arg more : Bytes) (r : Result) :
    (r.push arg).later more = (r.later more).push arg := by
  cases r <;> rfl

theorem push_eq_incomplete {arg : Bytes} {r : Result} :
    r.push arg = .incomplete ↔ r = .incomplete := by
  cases r <;> simp [Result.push]

theorem parse_args_append {count : Nat} (h : parse_args count buf ≠ .incomplete) (more : Bytes) :
    parse_args count (buf ++ more) = (parse_args count buf).later more := by
  -- on the number of arguments: the exits of one round are decided by the bytes it looked at
  induction count generalizing buf with
  | zero => rfl
  | succ count ih =>
    cases buf with
    | nil => exact absurd rfl h
    | cons c buf =>
      rw [parse_args] at h
      rw [List.cons_append, parse_args, parse_args]
      by_cases hc : c ≠ 36
      · rw [if_pos hc, if_pos hc]
        rfl
      rw [if_neg hc] at h
      rw [if_neg hc, if_neg hc]
      cases hl : line_end buf with
      | none => exact absurd (by simp only [hl]) h
      | some p =>
        obtain ⟨digits, rest⟩ := p
        rw [line_end_append hl more]
        simp only [hl] at h ⊢
        cases hn : parse_length digits with
        | none => rfl
        | some len =>
          simp only [hn] at h ⊢
          by_cases hshort : rest.length < len + 2
          · exact absurd (by rw [if_pos hshort]) h
          have hlong : ¬ (rest ++ more).length < len + 2 := by
            rw [List.length_append]
            omega
          have hle : len ≤ rest.length := by omega
          have hle2 : len + 2 ≤ rest.length := by omega
          have htail : ((rest ++ more).drop len).take 2 = (rest.drop len).take 2 := by
            rw [List.drop_append_of_le_length hle, List.take_append_of_le_length]
            rw [List.length_drop]
            omega
          rw [if_neg hshort] at h
          rw [if_neg hshort, if_neg hlong, htail]
          by_cases hcr : (rest.drop len).take 2 ≠ crlf
          · rw [if_pos hcr, if_pos hcr]
            rfl
          rw [if_neg hcr] at h
          rw [if_neg hcr, if_neg hcr, List.take_append_of_le_length hle,
            List.drop_append_of_le_length hle2, later_push, ih]
          intro hinc
          exact h (push_eq_incomplete.2 hinc)

/-- **A verdict on the front of the buffer stands**: later bytes only lengthen what is left
behind a complete command. -/
theorem try_parse_command_append (h : try_parse_command buf ≠ .incomplete) (more : Bytes) :
    try_parse_command (buf ++ more) = (try_parse_command buf).later more := by
  cases buf with
  | nil => exact absurd rfl h
  | cons c buf =>
    rw [try_parse_command] at h
    rw [List.cons_append, try_parse_command, try_parse_command]
    by_cases hc : c ≠ 42
    · rw [if_pos hc, if_pos hc]
      rfl
    rw [if_neg hc] at h
    rw [if_neg hc, if_neg hc]
    cases hl : line_end buf with
    | none => exact absurd (by simp only [hl]) h
    | some p =>
      obtain ⟨digits, rest⟩ := p
      rw [line_end_append hl more]
      simp only [hl] at h ⊢
      cases hn : parse_length digits with
      | none => rfl
      | some count =>
        simp only [hn] at h ⊢
        exact parse_args_append h more

theorem try_parse_command_length {command : Args}
    (h : try_parse_command buf = .complete command rest) : rest.length < buf.length := by
  obtain ⟨text, hcommand, rfl⟩ := isCommand_of_try_parse_command h
  have : 0 < text.length := List.length_pos_of_ne_nil hcommand.ne_nil
  rw [List.length_append]
  omega

/-! ## The parser object -/

inductive Status where
  | complete
  | incomplete
  | protocol_error
  deriving DecidableEq

/-- What one call of `RespParser::try_parse_command` on a buffer returns and leaves. -/
structure Call where
  status : Status
  command : Args
  /-- The bytes the command was read from. -/
  raw : Bytes
  buffer : Bytes
  deriving DecidableEq

def call (buf : Bytes) : Call :=
  match try_parse_command buf with
  | .complete command rest => ⟨.complete, command, buf.take (buf.length - rest.length), rest⟩
  | .incomplete => ⟨.incomplete, [], [], buf⟩
  | .protocol_error => ⟨.protocol_error, [], [], buf⟩

theorem call_complete {command : Args} (h : try_parse_command buf = .complete command rest) :
    call buf = ⟨.complete, command, buf.take (buf.length - rest.length), rest⟩ := by
  simp only [call, h]

/-- The range of a command is the part of the buffer that the call took off. -/
theorem call_raw (buf : Bytes) : (call buf).raw ++ (call buf).buffer = buf := by
  cases h : try_parse_command buf with
  | complete command rest =>
    obtain ⟨text, -, rfl⟩ := isCommand_of_try_parse_command h
    simp [call_complete h]
  | incomplete | protocol_error => simp [call, h]

theorem call_length (h : (call buf).status = .complete) :
    (call buf).buffer.length < buf.length := by
  cases hr : try_parse_command buf with
  | complete command rest =>
    rw [call_complete hr]
    exact try_parse_command_length hr
  | incomplete | protocol_error => simp [call, hr] at h

theorem call_append (h : (call buf).status ≠ .incomplete) (more : Bytes) :
    call (buf ++ more) = { call buf with buffer := (call buf).buffer ++ more } := by
  cases hr : try_parse_command buf with
  | incomplete => simp [call, hr] at h
  | protocol_error =>
    have hlater := try_parse_command_append (hr.trans_ne (by simp)) more
    simp only [hr, Result.later] at hlater
    simp only [call, hr, hlater]
  | complete command rest =>
    have hlater := try_parse_command_append (hr.trans_ne (by simp)) more
    rw [hr, Result.later] at hlater
    have hlt := try_parse_command_length hr
    have hlen : (buf ++ more).length - (rest ++ more).length = buf.length - rest.length := by
      rw [List.length_append, List.length_append]
      omega
    rw [call_complete hr, call_complete hlater, hlen, List.take_append_of_le_length (by omega)]

/-- A call that returns no command leaves the buffer as it was, and reports no range. -/
theorem call_stop (h : (call buf).status ≠ .complete) :
    (call buf).buffer = buf ∧ (call buf).raw = [] := by
  cases hr : try_parse_command buf with
  | complete command rest => simp [call, hr] at h
  | incomplete | protocol_error => simp [call, hr]

/-- What a reader has taken from the parser so far: the commands with their ranges, the
status of the last call and what is left in the buffer. -/
structure Drained where
  commands : List (Args × Bytes)
  status : Status
  buffer : Bytes
  deriving DecidableEq

/-- Calls until one does not return a command. -/
def drain (buf : Bytes) : Drained :=
  if (call buf).status = .complete then
    let rest := drain (call buf).buffer
    { rest with commands := ((call buf).command, (call buf).raw) :: rest.commands }
  else ⟨[], (call buf).status, (call buf).buffer⟩
termination_by buf.length
decreasing_by exact call_length (by assumption)

theorem drain_complete (h : (call buf).status = .complete) :
    drain buf = ⟨((call buf).command, (call buf).raw) :: (drain (call buf).buffer).commands,
      (drain (call buf).buffer).status, (drain (call buf).buffer).buffer⟩ := by
  rw [drain, if_pos h]

theorem drain_stop (h : (call buf).status ≠ .complete) :
    drain buf = ⟨[], (call buf).status, (call buf).buffer⟩ := by
  rw [drain, if_neg h]

/-- One read of the connection: `feed`, then calls until one does not return a command. -/
def Drained.feed (d : Drained) (chunk : Bytes) : Drained :=
  let next := drain (d.buffer ++ chunk)
  { next with commands := d.commands ++ next.commands }

/-- A parser that was fed nothing. -/
def Drained.start : Drained := ⟨[], .incomplete, []⟩

/-- Draining what is there and then more is draining both at once. -/
theorem drain_append (buf more : Bytes) : drain (buf ++ more) = (drain buf).feed more := by
  -- on the length of the buffer: each complete command leaves a shorter one
  induction hn : buf.length using Nat.strongRecOn generalizing buf with
  | _ n ih =>
    by_cases h : (call buf).status = .complete
    case pos =>
      have hcall := call_append (h.trans_ne (by simp)) more
      have hnext := ih _ (hn ▸ call_length h) (call buf).buffer rfl
      rw [drain_complete h, drain_complete (by rw [hcall]; exact h), hcall]
      simp only [hnext, Drained.feed, List.cons_append]
    case neg =>
      simp only [drain_stop h, Drained.feed, (call_stop h).1, List.nil_append]

/-- The ranges of the commands and what is left are the bytes that were fed, in order. -/
theorem drain_ranges (buf : Bytes) :
    (drain buf).commands.flatMap Prod.snd ++ (drain buf).buffer = buf := by
  induction hn : buf.length using Nat.strongRecOn generalizing buf with
  | _ n ih =>
    by_cases h : (call buf).status = .complete
    case pos =>
      have hnext := ih _ (hn ▸ call_length h) (call buf).buffer rfl
      rw [drain_complete h, List.flatMap_cons, List.append_assoc, hnext, call_raw]
    case neg =>
      simp only [drain_stop h, (call_stop h).1, List.flatMap_nil, List.nil_append]

/-- What is left is something no call takes a command from, for the reason that is reported. -/
theorem call_drain (buf : Bytes) :
    (call (drain buf).buffer).status = (drain buf).status ∧ (drain buf).status ≠ .complete := by
  induction hn : buf.length using Nat.strongRecOn generalizing buf with
  | _ n ih =>
    by_cases h : (call buf).status = .complete
    case pos =>
      rw [drain_complete h]
      exact ih _ (hn ▸ call_length h) (call buf).buffer rfl
    case neg =>
      rw [drain_stop h]
      exact ⟨congrArg (fun b => (call b).status) (call_stop h).1, h⟩

/-- An error stays an error. -/
theorem drain_error_append (h : (drain buf).status = .protocol_error) (more : Bytes) :
    (drain (buf ++ more)).status = .protocol_error := by
  have hcall : (call (drain buf).buffer).status = .protocol_error := (call_drain buf).1.trans h
  have hmore := congrArg Call.status (call_append (hcall.trans_ne (by simp)) more)
  have hlater : (call ((drain buf).buffer ++ more)).status = .protocol_error := hmore.trans hcall
  rw [drain_append, Drained.feed, drain_stop (hlater.trans_ne (by simp))]
  exact hlater

theorem foldl_feed (chunks : List Bytes) (fed : Bytes) :
    chunks.foldl Drained.feed (drain fed) = drain (fed ++ chunks.flatten) := by
  induction chunks generalizing fed with
  | nil => simp
  | cons chunk chunks ih =>
    rw [List.foldl_cons, ← drain_append, ih, List.flatten_cons, List.append_assoc]

theorem drain_nil : drain [] = Drained.start := by
  rw [drain_stop (by decide)]
  rfl

/-- **The parser accepts exactly the grammar.** A command is returned, and the rest of the
buffer left, just when the buffer starts with a text of that command. An error is reported
only when no bytes that may follow can make the buffer start with a command. What the server
writes as a command is such a text. -/
theorem accepts_exactly_grammar (buf : Bytes) :
    (∀ argv rest, try_parse_command buf = .complete argv rest ↔
        ∃ text, IsCommand argv text ∧ buf = text ++ rest)
      ∧ (try_parse_command buf = .protocol_error →
          ∀ more argv text rest, IsCommand argv text → buf ++ more ≠ text ++ rest)
      ∧ ∀ argv : Args, argv.length < 2 ^ 64 → (∀ arg ∈ argv, arg.length < 2 ^ 64) →
          try_parse_command (command argv ++ buf) = .complete argv buf := by
  refine ⟨fun argv rest => ⟨isCommand_of_try_parse_command, ?_⟩, ?_, ?_⟩
  · rintro ⟨text, hcommand, rfl⟩
    exact try_parse_command_of_isCommand hcommand rest
  · -- the verdict stands, and the extension would be read as a command
    intro herror more argv text rest hcommand heq
    have hlater := try_parse_command_append (herror.trans_ne (by simp)) more
    rw [heq, try_parse_command_of_isCommand hcommand rest, herror] at hlater
    simp [Result.later] at hlater
  · intro argv hlen hsize
    exact try_parse_command_command hlen hsize buf

theorem accepts_exactly_grammar_ping :
    (∀ more argv text rest, IsCommand argv text → lit "*1\r\nPING" ++ more ≠ text ++ rest)
      ∧ try_parse_command (command [lit "PING", []] ++ lit "*1\r\nPING")
          = .complete [lit "PING", []] (lit "*1\r\nPING") := by
  obtain ⟨-, herror, hwritten⟩ := accepts_exactly_grammar (lit "*1\r\nPING")
  exact ⟨herror (by decide +kernel), hwritten _ (by decide) (by decide +kernel)⟩

/-- **Parsing does not depend on how the bytes arrive.** However a byte string is cut into
reads, the commands, their ranges, the last status and the buffer are those of feeding it
at once. The ranges and the buffer make up the string again, so a protocol error is found at
the same byte. A verdict on a front of the string stands whatever comes behind it, and a call
that finds no whole command takes nothing off the buffer. -/
theorem reads_parse_alike (chunks : List Bytes) :
    chunks.foldl Drained.feed Drained.start = drain chunks.flatten
      ∧ (drain chunks.flatten).commands.flatMap Prod.snd ++ (drain chunks.flatten).buffer
          = chunks.flatten
      ∧ (∀ buf more, (call buf).status ≠ .incomplete →
          call (buf ++ more) = { call buf with buffer := (call buf).buffer ++ more })
      ∧ ∀ buf, (call buf).status = .incomplete → (call buf).buffer = buf := by
  refine ⟨?_, drain_ranges _, ?_, ?_⟩
  · rw [← drain_nil, foldl_feed, List.nil_append]
  · intro buf more h
    exact call_append h more
  · intro buf h
    exact (call_stop (h.trans_ne (by simp))).1

end EpochKV.Parser

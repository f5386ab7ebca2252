import OsdevX64.Stdio.Field

/-!
# String and character fields

What `%s` and `%c` are to send: as much of the string as the precision allows, or
the character, with blanks up to the width.  The source counts the string with
`_strnlen_s`, whose result is an `unsigned int` whatever the limit, and
`(size_t)-1` is the limit where there is no precision.  So **a `%s` sends its
field exactly if a precision is given, the string is shorter than `2 ^ 32` bytes
or the width does not exceed the length that is left of it modulo `2 ^ 32`**
(`text_field_iff`); a `%c` always does.

The precision of a `%c` is read, with its argument, and not used.
-/

namespace OsdevX64.Stdio

open ByteMemory MachineInt

/-- The bytes that a precision lets through. -/
def cut (limit : Option ℕ) (s : List Byte) : List Byte :=
  match limit with
  | none => s
  | some p => s.take p

/-- The length of a string as `_strnlen_s` returns it without a precision. -/
def shortLength (s : List Byte) : ℕ := u32 (min s.length (2 ^ 64 - 1))

/-! ## Padding -/

theorem length_padded (flags : Flags) (width len : ℕ) (text : List Byte) :
    (padded flags width len text).length = (width - len) + text.length := by
  unfold padded
  cases flags.left with
  | false => simp only [Bool.not_false, if_true, Bool.false_eq_true, if_false, List.length_append,
      List.length_replicate, List.length_nil, Nat.add_zero]
  | true => simp only [Bool.not_true, Bool.false_eq_true, if_true, if_false, List.length_append,
      List.length_replicate, List.length_nil, Nat.zero_add, Nat.add_comm]

/-- A text that is counted right is sent as a field. -/
theorem padded_eq_pad {flags : Flags} {l : Layout} (hleft : flags.left = l.left)
    (text : List Byte) :
    padded flags l.width text.length text = l.blanks.pad [] text := by
  unfold padded Layout.pad Layout.blanks
  dsimp only
  rw [hleft, List.length_nil, Nat.zero_add]
  cases l.left with
  | false => simp
  | true => simp

/-- A text that is counted wrong is sent as a field only if the padding is the same. -/
theorem padded_eq_pad_iff {flags : Flags} {l : Layout} (hleft : flags.left = l.left) (len : ℕ)
    (text : List Byte) :
    padded flags l.width len text = l.blanks.pad [] text ↔
      l.width - len = l.width - text.length := by
  rw [← padded_eq_pad hleft]
  constructor
  · intro heq
    have hlength := congrArg List.length heq
    rw [length_padded, length_padded] at hlength
    exact Nat.add_right_cancel hlength
  · intro hfill
    unfold padded
    rw [hfill]

/-- A text that fills the width has no padding. -/
theorem pad_of_width_le {l : Layout} {text : List Byte} (h : l.width ≤ text.length) :
    l.blanks.pad [] text = text := by
  have hfill : l.width - (0 + text.length) = 0 := by omega
  unfold Layout.pad Layout.blanks
  dsimp only
  rw [List.length_nil, hfill]
  split_ifs <;> simp

/-! ## The case `s` -/

theorem strnlen_eq (s : List Byte) (maxsize : ℕ) : strnlen s maxsize = min s.length maxsize := by
  induction s generalizing maxsize with
  | nil => exact (Nat.zero_min maxsize).symm
  | cons c s ih =>
      cases maxsize with
      | zero => rfl
      | succ maxsize =>
          rw [strnlen, ih, List.length_cons, Nat.succ_min_succ]

/-- With a precision the string is counted right. -/
theorem convertStringText_limited (env : Env) (spec : Spec) (hflag : spec.flags.precision = true)
    (hlt : spec.precision < 2 ^ 32) :
    let s := (env.strings (env.args spec.ap)).bytes
    convertStringText env spec =
      padded spec.flags spec.width (s.take spec.precision).length (s.take spec.precision) := by
  intro s
  have hcount : (if u32 (strnlen s (if spec.precision ≠ 0 then spec.precision else 2 ^ 64 - 1)) <
        spec.precision then
      u32 (strnlen s (if spec.precision ≠ 0 then spec.precision else 2 ^ 64 - 1))
      else spec.precision) = (s.take spec.precision).length := by
    rw [List.length_take, strnlen_eq]
    by_cases hzero : spec.precision = 0
    -- a precision of zero is no limit for `_strnlen_s`
    · rw [hzero, if_neg (Nat.not_lt_zero _), Nat.zero_min]
    · rw [if_pos hzero, u32_of_lt (by omega)]
      split_ifs <;> omega
  unfold convertStringText stringText
  dsimp only
  rw [hflag, if_pos rfl, if_pos rfl]
  exact congrArg (padded spec.flags spec.width · (s.take spec.precision)) hcount

/-- Without a precision the length is cut to 32 bits. -/
theorem convertStringText_unlimited (env : Env) (spec : Spec)
    (hflag : spec.flags.precision = false) (hzero : spec.precision = 0) :
    let s := (env.strings (env.args spec.ap)).bytes
    convertStringText env spec = padded spec.flags spec.width (shortLength s) s := by
  intro s
  unfold convertStringText stringText shortLength
  dsimp only
  rw [hflag, hzero, if_neg Bool.false_ne_true, if_neg Bool.false_ne_true,
    if_neg (not_not_intro rfl), strnlen_eq]

/-- The padding is right exactly if the length is, or none is needed. -/
theorem shortLength_fill_iff {width : ℕ} (hwidth : width < 2 ^ 32) (s : List Byte) :
    width - shortLength s = width - s.length ↔ s.length < 2 ^ 32 ∨ width ≤ shortLength s := by
  by_cases hshort : s.length < 2 ^ 32
  · have hsame : shortLength s = s.length := by
      rw [shortLength, Nat.min_eq_left (by omega), u32_of_lt hshort]
    rw [hsame]
    exact iff_of_true rfl (Or.inl hshort)
  · omega

/-! ## Directives -/

/-- What a conversion without a length modifier needs to know of its directive. -/
theorem Directive.spec_fields (env : Env) (ap : ℕ) {d : Directive}
    (hlength : d.conversion.length = .none) :
    let l := layout env ap d.flags d.width
    let limit := d.precision.limit env (ap + d.width.stars)
    let spec := d.spec env ap
    spec.flags.left = l.left ∧ spec.width = l.width ∧ spec.flags.precision = limit.isSome ∧
      spec.precision = limit.getD 0 ∧ spec.ap = ap + d.width.stars + d.precision.stars := by
  intro l limit spec
  have hspec := d.spec_eq env ap
  rw [hlength] at hspec
  refine ⟨?_, ?_, ?_, ?_, ?_⟩
  · exact congrArg (·.flags.left) hspec
  · exact congrArg (·.width) hspec
  · exact congrArg (·.flags.precision) hspec
  · exact congrArg (·.precision) hspec
  · exact congrArg (·.ap) hspec

/-- **A `%s` sends its field** when the length that it counts is right or does not
matter, and at no other time. -/
theorem string_text_iff (env : Env) (ap : ℕ) (flags : List Flag) (width : Width)
    (precision : Precision) :
    let l := (layout env ap flags width).blanks
    let limit := precision.limit env (ap + width.stars)
    let s := (env.strings (env.args (ap + width.stars + precision.stars))).bytes
    ((Directive.mk flags width precision .string).text env ap).1 = l.pad [] (cut limit s) ↔
      limit ≠ none ∨ s.length < 2 ^ 32 ∨ l.width ≤ shortLength s := by
  intro l limit s
  obtain ⟨hleft, hwidth, hflag, hprecision, hap⟩ :=
    (Directive.mk flags width precision .string).spec_fields env ap rfl
  have htext : ((Directive.mk flags width precision .string).text env ap).1 =
      convertStringText env ((Directive.mk flags width precision .string).spec env ap) := rfl
  rw [htext]
  generalize (Directive.mk flags width precision .string).spec env ap = spec at *
  have hs : (env.strings (env.args spec.ap)).bytes = s := by rw [hap]
  change spec.flags.precision = limit.isSome at hflag
  change spec.precision = limit.getD 0 at hprecision
  cases hlimit : limit with
  | some p =>
      rw [hlimit] at hflag hprecision
      have hlt : spec.precision < 2 ^ 32 := by
        rw [hprecision]
        exact Precision.limit_lt hlimit
      refine iff_of_true ?_ (Or.inl (Option.some_ne_none p))
      rw [convertStringText_limited env spec hflag hlt, hs, hprecision, hwidth]
      exact padded_eq_pad hleft (s.take p)
  | none =>
      rw [hlimit] at hflag hprecision
      have hfill := shortLength_fill_iff (width.amount_lt env ap) s
      rw [convertStringText_unlimited env spec hflag hprecision, hs, hwidth]
      refine (padded_eq_pad_iff hleft (shortLength s) s).trans (hfill.trans ?_)
      exact ⟨Or.inr, fun h => h.resolve_left (not_not_intro rfl)⟩

/-- A `%c` sends its field. -/
theorem char_text (env : Env) (ap : ℕ) (flags : List Flag) (width : Width)
    (precision : Precision) :
    ((Directive.mk flags width precision .char).text env ap).1 =
      (layout env ap flags width).blanks.pad []
        [(env.args (ap + width.stars + precision.stars)).setWidth 8] := by
  obtain ⟨hleft, hwidth, -, -, hap⟩ :=
    (Directive.mk flags width precision .char).spec_fields env ap rfl
  have htext : ((Directive.mk flags width precision .char).text env ap).1 =
      let spec := (Directive.mk flags width precision .char).spec env ap
      padded spec.flags spec.width 1 [(env.args spec.ap).setWidth 8] := rfl
  rw [htext]
  dsimp only
  rw [hwidth, hap]
  exact padded_eq_pad (l := layout env ap flags width) hleft
    [(env.args (ap + width.stars + precision.stars)).setWidth 8]

/-- **`%s` and `%c` in a format.**  Between what the items around it send stands the
field of the directive, for `%c` in every case and for `%s` exactly if the length of the
string is not cut, or does not matter. -/
theorem text_field_iff (env : Env) (before after : List Item) (flags : List Flag) (width : Width)
    (precision : Precision) :
    let l := (layout env (taken before) flags width).blanks
    let limit := precision.limit env (taken before + width.stars)
    let next := taken before + (width.stars + precision.stars + 1)
    let arg := env.args (taken before + width.stars + precision.stars)
    let s := (env.strings arg).bytes
    (emitted env
        (formatOf (before ++ .directive ⟨flags, width, precision, .string⟩ :: after)) =
          (itemsText env before 0).1 ++ l.pad [] (cut limit s) ++ (itemsText env after next).1 ↔
      limit ≠ none ∨ s.length < 2 ^ 32 ∨ l.width ≤ shortLength s) ∧
    emitted env (formatOf (before ++ .directive ⟨flags, width, precision, .char⟩ :: after)) =
      (itemsText env before 0).1 ++ l.pad [] [arg.setWidth 8] ++ (itemsText env after next).1 := by
  intro l limit next arg s
  refine ⟨?_, ?_⟩
  · have hitems := emitted_directive_iff env before after
      ⟨flags, width, precision, .string⟩ (l.pad [] (cut limit s))
    exact hitems.trans (string_text_iff env (taken before) flags width precision)
  · rw [emitted_directive, char_text]
    rfl

/-- `%1s` with a string of `2 ^ 32` bytes: its length is counted as 0. -/
theorem string_of_two_pow_32 (s : CString) (hlength : s.bytes.length = 2 ^ 32) :
    let env : Env := ⟨⟨fun _ => 0, 0⟩, fun _ => 0, fun _ => s⟩
    let d : Directive := ⟨[], .literal ⟨1, []⟩ (by decide), .absent, .string⟩
    emitted env (formatOf [.directive d]) = ch ' ' :: s.bytes ∧
      (layout env 0 d.flags d.width).blanks.pad [] (cut none s.bytes) = s.bytes := by
  intro env d
  refine ⟨?_, pad_of_width_le ?_⟩
  · have hcount : shortLength s.bytes = 0 := by
      rw [shortLength, hlength]
      rfl
    have htext := convertStringText_unlimited env (d.spec env 0) rfl rfl
    have hemitted := emitted_directive env [] [] d
    change emitted env (formatOf [.directive d]) = [] ++ convertStringText env (d.spec env 0) ++ []
      at hemitted
    change _ = padded (d.spec env 0).flags 1 (shortLength s.bytes) s.bytes at htext
    rw [hemitted, htext, hcount, List.nil_append, List.append_nil]
    change List.replicate 1 (ch ' ') ++ s.bytes ++ [] = _
    rw [List.append_nil]
    rfl
  · change 1 ≤ s.bytes.length
    rw [hlength]
    exact Nat.two_pow_pos 32

/-- A string of `2 ^ 32` letters. -/
def overlong : CString where
  bytes := List.replicate (2 ^ 32) (ch 'a')
  nul_free b hb := by
    rw [List.eq_of_mem_replicate hb]
    decide

/-- **A blank is sent in front of a string of `2 ^ 32` bytes** by `%1s`, which asks
for none. -/
theorem overlong_is_padded :
    let env : Env := ⟨⟨fun _ => 0, 0⟩, fun _ => 0, fun _ => overlong⟩
    let d : Directive := ⟨[], .literal ⟨1, []⟩ (by decide), .absent, .string⟩
    let field := (layout env 0 d.flags d.width).blanks.pad [] (cut none overlong.bytes)
    emitted env (formatOf [.directive d]) = ch ' ' :: overlong.bytes ∧
      field = overlong.bytes ∧ emitted env (formatOf [.directive d]) ≠ field := by
  intro env d field
  obtain ⟨hemitted, hfield⟩ := string_of_two_pow_32 overlong List.length_replicate
  refine ⟨hemitted, hfield, fun heq => ?_⟩
  exact List.cons_ne_self (ch ' ') overlong.bytes (hemitted.symm.trans (heq.trans hfield))

end OsdevX64.Stdio

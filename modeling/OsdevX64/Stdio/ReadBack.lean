import OsdevX64.Stdio.TextField

/-!
# Reading a whole format back

A single field reads back as its value (`Layout.readField_field`); here the fields of a
whole format do.  `readItems` goes through a text by the items of the format it was made
with: literal characters have to be there, a number is read with its padding and its
sign, a string up to the character that the format has behind it.

A format is `Delimited` when that is enough to tell its fields apart.  Its directives are
`Readable`: `%d`, `%i`, `%u`, `%x`, `%X` and `%o` without `#`, precision, star and `ll`, a
width under `0` being at most 32, and `%c` and `%s` without width and precision.  Behind
each stands a literal: behind a number one that is no digit, nor a blank under `-`.
**From the text of a delimited format every argument can be read back**
(`format_read_back`), if no string has the literal that ends it (`StringsEnd`) and no
`int` is `INT_MIN` (`NoOverflow`).
-/

namespace OsdevX64.Stdio

open ByteMemory MachineInt

/-! ## Delimited formats -/

/-- What a conversion prints. -/
inductive Value
  | int (v : ℤ)
  | char (c : Byte)
  | text (s : List Byte)
  deriving DecidableEq, Repr

/-- A conversion whose field shows all of its argument. -/
def Conversion.Readable (flags : List Flag) (width : Width) : Conversion → Prop
  | .int length c => .hash ∉ flags ∧ width ≠ .star ∧ length ≠ .ll ∧ c ≠ .b ∧
      -- `_ntoa_format` stores at most 32 zeros
      (.zero ∈ flags → .minus ∉ flags → width.fixed ≤ 32)
  | .char => width = .absent
  | .string => width = .absent
  | _ => False

instance (flags : List Flag) (width : Width) (c : Conversion) :
    Decidable (c.Readable flags width) :=
  match c with
  | .int _ _ => inferInstanceAs (Decidable (_ ∧ _ ∧ _ ∧ _ ∧ _))
  | .char => inferInstanceAs (Decidable (_ = _))
  | .string => inferInstanceAs (Decidable (_ = _))
  | .pointer => isFalse id
  | .percent => isFalse id

/-- A directive whose field shows all of its argument. -/
def Directive.Readable (d : Directive) : Prop :=
  d.precision = .absent ∧ d.conversion.Readable d.flags d.width

instance (d : Directive) : Decidable d.Readable := inferInstanceAs (Decidable (_ ∧ _))

/-- The field of a directive ends before the literal `c`. -/
def Directive.EndsAt (d : Directive) (c : Byte) : Prop :=
  match d.conversion with
  | .int _ _ => digitValue c = none ∧ (.minus ∈ d.flags → c ≠ ch ' ')
  | _ => True

instance (d : Directive) (c : Byte) : Decidable (d.EndsAt c) :=
  match d with
  | ⟨_, _, _, .int _ _⟩ => inferInstanceAs (Decidable (_ ∧ (_ → _)))
  | ⟨_, _, _, .char⟩ => isTrue trivial
  | ⟨_, _, _, .string⟩ => isTrue trivial
  | ⟨_, _, _, .pointer⟩ => isTrue trivial
  | ⟨_, _, _, .percent⟩ => isTrue trivial

/-- The literal at the start of a format. -/
def delimiter : List Item → Byte
  | .literal c _ :: _ => c
  | _ => 0

/-- Every field can be told from what is behind it. -/
def Delimited : List Item → Prop
  | [] => True
  | .literal _ _ :: items => Delimited items
  | .directive d :: .literal c _ :: items => d.Readable ∧ d.EndsAt c ∧ Delimited items
  | .directive _ :: _ => False

instance decidableDelimited : (items : List Item) → Decidable (Delimited items)
  | [] => isTrue trivial
  | .literal _ _ :: items => decidableDelimited items
  | .directive d :: .literal c _ :: items =>
      have := decidableDelimited items
      inferInstanceAs (Decidable (d.Readable ∧ d.EndsAt c ∧ Delimited items))
  | [.directive _] => isFalse id
  | .directive _ :: .directive _ :: _ => isFalse id

/-- No string holds the character that ends it. -/
def StringsEnd (env : Env) : List Item → ℕ → Prop
  | [], _ => True
  | .literal _ _ :: items, ap => StringsEnd env items ap
  | .directive d :: items, ap =>
      (d.conversion = .string → delimiter items ∉ (env.strings (env.args ap)).bytes ∧
        (env.strings (env.args ap)).bytes.length < 2 ^ 32) ∧ StringsEnd env items (ap + 1)

instance decidableStringsEnd (env : Env) : (items : List Item) → (ap : ℕ) →
    Decidable (StringsEnd env items ap)
  | [], _ => isTrue trivial
  | .literal _ _ :: items, ap => decidableStringsEnd env items ap
  | .directive _ :: items, ap =>
      have := decidableStringsEnd env items (ap + 1)
      inferInstanceAs (Decidable ((_ → _ ∧ _) ∧ StringsEnd env items (ap + 1)))

/-- The directive converts `INT_MIN` as an `int`. -/
def Directive.Overflows (env : Env) (d : Directive) (ap : ℕ) : Prop :=
  match d.conversion with
  | .int length c => c.Overflows length (env.args ap)
  | _ => False

instance (env : Env) (d : Directive) (ap : ℕ) : Decidable (d.Overflows env ap) :=
  match d with
  | ⟨_, _, _, .int _ _⟩ => inferInstanceAs (Decidable (IntConversion.Overflows _ _ _))
  | ⟨_, _, _, .char⟩ => isFalse id
  | ⟨_, _, _, .string⟩ => isFalse id
  | ⟨_, _, _, .pointer⟩ => isFalse id
  | ⟨_, _, _, .percent⟩ => isFalse id

/-- No argument is `INT_MIN` where an `int` is converted. -/
def NoOverflow (env : Env) : List Item → ℕ → Prop
  | [], _ => True
  | .literal _ _ :: items, ap => NoOverflow env items ap
  | .directive d :: items, ap => ¬ d.Overflows env ap ∧ NoOverflow env items (ap + 1)

instance decidableNoOverflow (env : Env) : (items : List Item) → (ap : ℕ) →
    Decidable (NoOverflow env items ap)
  | [], _ => isTrue trivial
  | .literal _ _ :: items, ap => decidableNoOverflow env items ap
  | .directive d :: items, ap =>
      have := decidableNoOverflow env items (ap + 1)
      inferInstanceAs (Decidable (¬ d.Overflows env ap ∧ NoOverflow env items (ap + 1)))

/-- What a directive prints of its argument. -/
def Directive.value (env : Env) (d : Directive) (ap : ℕ) : Value :=
  match d.conversion with
  | .int length c => .int (c.value length (env.args ap))
  | .char => .char ((env.args ap).setWidth 8)
  | _ => .text (env.strings (env.args ap)).bytes

/-- What a format prints of its arguments. -/
def itemsValues (env : Env) : List Item → ℕ → List Value
  | [], _ => []
  | .literal _ _ :: items, ap => itemsValues env items ap
  | .directive d :: items, ap => d.value env ap :: itemsValues env items (ap + 1)

/-- The layout of a field without stars. -/
def Directive.fixedLayout (d : Directive) : Layout where
  width := d.width.fixed
  left := .minus ∈ d.flags
  zero := .zero ∈ d.flags
  plus := .plus ∈ d.flags
  space := .space ∈ d.flags

/-- The field of a directive that shows its argument. -/
def Directive.plain (env : Env) (d : Directive) (ap : ℕ) : List Byte :=
  match d.conversion with
  | .int length c => d.fixedLayout.field c (c.value length (env.args ap))
  | .char => [(env.args ap).setWidth 8]
  | _ => (env.strings (env.args ap)).bytes

/-- The text of such directives between literals. -/
def itemsPlain (env : Env) : List Item → ℕ → List Byte
  | [], _ => []
  | .literal c _ :: items, ap => c :: itemsPlain env items ap
  | .directive d :: items, ap => d.plain env ap ++ itemsPlain env items (ap + 1)

/-! ## The reader -/

/-- What is behind a number: blanks, a sign and digits are passed. -/
def afterField (text : List Byte) : List Byte :=
  let text := text.dropWhile (· = ch ' ')
  let text := if peek text = ch '-' ∨ peek text = ch '+' then text.tail else text
  text.dropWhile fun c => digitValue c ≠ none

/-- Read a field that ends at `c`. -/
def Directive.read (d : Directive) (c : Byte) (text : List Byte) : Value × List Byte :=
  match d.conversion with
  | .int _ conversion =>
      let rest := afterField text
      (.int (readField conversion.base text),
        if .minus ∈ d.flags then rest.dropWhile (· = ch ' ') else rest)
  | .char => (.char (peek text), text.tail)
  | _ => (.text (text.takeWhile (· ≠ c)), text.dropWhile (· ≠ c))

/-- Read the fields of a format, and return what is behind it. -/
def readItems : List Item → List Byte → Option (List Value × List Byte)
  | [], text => some ([], text)
  | .literal c _ :: items, text => if text.head? = some c then readItems items text.tail else none
  | .directive d :: items, text =>
      let (value, text) := d.read (delimiter items) text
      (readItems items text).map fun (values, text) => (value :: values, text)

/-! ## Fields -/

/-- **A field is blanks, a sign, digits and blanks**, and those at the end are the
padding of a field to the left. -/
theorem Layout.field_parts (l : Layout) (c : IntConversion) (v : ℤ) :
    ∃ (j k : ℕ) (ds : List ℕ), (∀ d ∈ ds, d < 16) ∧ ds ≠ [] ∧
      Positional.value c.base ds = v.natAbs ∧ (l.left = false → k = 0) ∧
      l.field c v = List.replicate j (ch ' ') ++ (l.sign c.signed v ++
        (ds.map (fun digit => digitChar digit (c = .X)) ++ List.replicate k (ch ' '))) := by
  obtain ⟨hbase, hbase16⟩ := c.base_bounds
  generalize hds : Positional.digits c.base v.natAbs = ds
  have hlt : ∀ d ∈ ds, d < 16 := by
    intro d hd
    rw [← hds] at hd
    exact (Positional.lt_of_mem_digits hbase hd).trans_le hbase16
  have hne : ds ≠ [] := by
    rintro rfl
    rw [Positional.digits, List.reverse_eq_nil_iff, Positional.lowFirst_eq hbase] at hds
    cases hds
  have hvalue : Positional.value c.base ds = v.natAbs := by
    rw [← hds, Positional.value_digits]
  unfold field pad numberText
  rw [hds]
  generalize l.width - ((l.sign c.signed v).length + _) = fill
  dsimp only
  cases hleft : l.left with
  | true =>
      refine ⟨0, fill, ds, hlt, hne, hvalue, fun h => absurd h Bool.true_eq_false_eq_False, ?_⟩
      rw [if_pos rfl, List.append_assoc]
      rfl
  | false =>
      rw [if_neg Bool.false_ne_true]
      by_cases hzero : l.zero = true
      · -- the zeros of the padding are digits
        refine ⟨0, 0, List.replicate fill 0 ++ ds, ?_, List.append_ne_nil_of_right_ne_nil _ hne,
          ?_, fun _ => rfl, ?_⟩
        · refine List.forall_mem_append.mpr ⟨fun d hd => ?_, hlt⟩
          rw [List.eq_of_mem_replicate hd]
          decide
        · rw [Positional.value_zeros, hvalue]
        · rw [if_pos hzero, List.map_append, List.map_replicate, List.append_assoc]
          show _ = l.sign c.signed v ++ ((List.replicate fill (ch '0') ++ _) ++ [])
          rw [List.append_nil]
      · refine ⟨fill, 0, ds, hlt, hne, hvalue, fun _ => rfl, ?_⟩
        rw [if_neg hzero, List.append_assoc]
        show _ = List.replicate fill (ch ' ') ++ (l.sign c.signed v ++ (_ ++ []))
        rw [List.append_nil]

/-- Blanks are passed. -/
theorem dropWhile_blanks (k : ℕ) (text : List Byte) :
    (List.replicate k (ch ' ') ++ text).dropWhile (· = ch ' ') =
      text.dropWhile (· = ch ' ') := by
  induction k with
  | zero => rfl
  | succ k ih => exact ih

/-- Digits are passed. -/
theorem dropWhile_digits (uppercase : Bool) {ds : List ℕ} (hds : ∀ d ∈ ds, d < 16)
    {rest : List Byte} (hrest : digitValue (peek rest) = none) :
    (ds.map (fun digit => digitChar digit uppercase) ++ rest).dropWhile
      (fun c => digitValue c ≠ none) = rest := by
  rw [List.dropWhile_append_of_pos]
  · cases rest with
    | nil => rfl
    | cons c rest =>
        have hc : digitValue c = none := hrest
        exact List.dropWhile_cons_of_neg (by simpa using hc)
  · intro c hc
    obtain ⟨d, hd, rfl⟩ := List.mem_map.mp hc
    rw [digitValue_digitChar (hds d hd)]
    rfl

/-- A number in front of other text. -/
theorem read_number (base : ℕ) (uppercase : Bool) {ds : List ℕ} (hds : ∀ d ∈ ds, d < 16)
    (hne : ds ≠ []) (j : ℕ) {sign : List Byte}
    (hsign : sign = [] ∨ sign = [ch ' '] ∨ sign = [ch '+'] ∨ sign = [ch '-'])
    {rest : List Byte} (hrest : digitValue (peek rest) = none) :
    let text := List.replicate j (ch ' ') ++ (sign ++
      (ds.map (fun digit => digitChar digit uppercase) ++ rest))
    readField base text =
        (if sign = [ch '-'] then -(Positional.value base ds : ℤ) else Positional.value base ds) ∧
      afterField text = rest := by
  intro text
  have hread := readDigits_append base uppercase hds rest hrest 0
  have hdrop := dropWhile_digits uppercase hds hrest
  obtain ⟨d, ds, rfl⟩ := List.exists_cons_of_ne_nil hne
  have hdigit : digitValue (digitChar d uppercase) = some d :=
    digitValue_digitChar (hds d List.mem_cons_self) uppercase
  have hno (c : Byte) (hc : digitValue c = none) : digitChar d uppercase ≠ c := by
    intro h
    rw [h, hc] at hdigit
    cases hdigit
  have hblank := hno (ch ' ') (by decide)
  have hminus := hno (ch '-') (by decide)
  have hplus := hno (ch '+') (by decide)
  rw [List.map_cons, List.cons_append] at hread hdrop
  have hskip : text.dropWhile (· = ch ' ') =
      (sign ++ (digitChar d uppercase :: (ds.map (fun digit => digitChar digit uppercase) ++
        rest))).dropWhile (· = ch ' ') := dropWhile_blanks j _
  unfold readField afterField
  rw [hskip]
  generalize ds.map (fun digit => digitChar digit uppercase) ++ rest = tail at hread hdrop ⊢
  have hnumber : (digitChar d uppercase :: tail).dropWhile (· = ch ' ') =
      digitChar d uppercase :: tail := List.dropWhile_cons_of_neg (by simpa using hblank)
  have hpeek : peek (digitChar d uppercase :: tail) = digitChar d uppercase := rfl
  obtain rfl | rfl | rfl | rfl := hsign
  · rw [List.nil_append, hnumber]
    dsimp only
    rw [hpeek, if_neg hminus, if_neg hplus, if_neg (not_or.mpr ⟨hminus, hplus⟩), hread]
    exact ⟨rfl, hdrop⟩
  · rw [show [ch ' '] ++ (digitChar d uppercase :: tail) =
      List.replicate 1 (ch ' ') ++ (digitChar d uppercase :: tail) from rfl, dropWhile_blanks,
      hnumber]
    dsimp only
    rw [hpeek, if_neg hminus, if_neg hplus, if_neg (not_or.mpr ⟨hminus, hplus⟩), hread]
    exact ⟨rfl, hdrop⟩
  · show (readDigits base (digitChar d uppercase :: tail) 0 : ℤ) = _ ∧
      (digitChar d uppercase :: tail).dropWhile _ = rest
    rw [hread]
    exact ⟨rfl, hdrop⟩
  · show -(readDigits base (digitChar d uppercase :: tail) 0 : ℤ) = _ ∧
      (digitChar d uppercase :: tail).dropWhile _ = rest
    rw [hread]
    exact ⟨rfl, hdrop⟩

/-- **A field in front of other text reads back**, and what is behind it is found. -/
theorem Layout.read_field (l : Layout) (c : IntConversion) (v : ℤ) {rest : List Byte}
    (hrest : digitValue (peek rest) = none) (hblank : l.left = true → peek rest ≠ ch ' ') :
    readField c.base (l.field c v ++ rest) = v ∧
      (if l.left then (afterField (l.field c v ++ rest)).dropWhile (· = ch ' ')
        else afterField (l.field c v ++ rest)) = rest := by
  obtain ⟨j, k, ds, hds, hne, hvalue, hk, hparts⟩ := l.field_parts c v
  have hbehind : digitValue (peek (List.replicate k (ch ' ') ++ rest)) = none := by
    cases k with
    | zero => exact hrest
    | succ k =>
        show digitValue (ch ' ') = none
        decide
  obtain ⟨hread, hafter⟩ :=
    read_number c.base (c = .X) hds hne j (l.sign_cases c.signed v) hbehind
  have htext : l.field c v ++ rest = List.replicate j (ch ' ') ++ (l.sign c.signed v ++
      (ds.map (fun digit => digitChar digit (c = .X)) ++ (List.replicate k (ch ' ') ++ rest))) := by
    rw [hparts]
    simp only [List.append_assoc]
  rw [htext, hread, hafter, hvalue]
  constructor
  · by_cases hneg : v < 0
    · rw [if_pos ((l.sign_eq_minus _ _).mpr hneg)]
      omega
    · rw [if_neg (mt (l.sign_eq_minus _ _).mp hneg)]
      omega
  · cases hleft : l.left with
    | false => rw [if_neg Bool.false_ne_true, hk hleft, List.replicate_zero, List.nil_append]
    | true =>
        rw [if_pos rfl, dropWhile_blanks]
        cases rest with
        | nil => rfl
        | cons b rest =>
            have hb : b ≠ ch ' ' := hblank hleft
            exact List.dropWhile_cons_of_neg (by simpa using hb)

/-! ## Formats -/

theorem Width.fixed_eq {width : Width} (h : width ≠ .star) (env : Env) (ap : ℕ) :
    width.stars = 0 ∧ width.negative env ap = false ∧ width.amount env ap = width.fixed := by
  cases width with
  | absent => exact ⟨rfl, rfl, rfl⟩
  | literal n hn => exact ⟨rfl, rfl, rfl⟩
  | star => exact absurd rfl h

/-- Without a width there is no padding. -/
theorem pad_absent (env : Env) (ap : ℕ) (flags : List Flag) {text : List Byte} :
    (layout env ap flags .absent).blanks.pad [] text = text := by
  have hfill : (layout env ap flags .absent).blanks.width - (0 + text.length) = 0 :=
    Nat.zero_sub _
  unfold Layout.pad
  rw [List.length_nil, hfill]
  dsimp only
  split_ifs
  · exact List.append_nil text
  · rfl
  · rfl

/-- A directive that shows its argument takes one. -/
theorem Directive.Readable.taken {d : Directive} (h : d.Readable) : d.taken = 1 := by
  obtain ⟨flags, width, precision, conversion⟩ := d
  obtain ⟨rfl, hconversion⟩ : precision = .absent ∧ conversion.Readable flags width := h
  cases conversion with
  | int length c =>
      obtain ⟨-, hwidth, hlength, -⟩ := hconversion
      have hnot : ¬ (Conversion.int length c).IsLongLong := hlength
      have hstars : width.stars = 0 := by
        cases width with
        | star => exact absurd rfl hwidth
        | _ => rfl
      show width.stars + 0 + Conversion.taken (.int length c) = 1
      rw [Conversion.taken, if_neg hnot, hstars]
      rfl
  | char =>
      obtain rfl : width = .absent := hconversion
      rfl
  | string =>
      obtain rfl : width = .absent := hconversion
      rfl
  | pointer => exact hconversion.elim
  | percent => exact hconversion.elim

/-- **Such a directive prints its field.** -/
theorem Directive.text_plain (env : Env) (ap : ℕ) {d : Directive} (h : d.Readable)
    (hstring : d.conversion = .string → (env.strings (env.args ap)).bytes.length < 2 ^ 32)
    (hint : ¬ d.Overflows env ap) :
    d.text env ap = (d.plain env ap, ap + 1) := by
  refine Prod.ext ?_ ((d.text_snd env ap).trans (by rw [h.taken]))
  obtain ⟨flags, width, precision, conversion⟩ := d
  obtain ⟨rfl, hconversion⟩ : precision = .absent ∧ conversion.Readable flags width := h
  cases conversion with
  | int length conversion =>
      obtain ⟨hhash, hwidth, hlength, hb, hzero⟩ := hconversion
      obtain ⟨hstars, hnegative, hamount⟩ := Width.fixed_eq hwidth env ap
      have hlayout : layout env ap flags width =
          Directive.fixedLayout ⟨flags, width, .absent, .int length conversion⟩ := by
        unfold layout Directive.fixedLayout
        rw [hnegative, hamount, Bool.or_false]
      have htext := integerDirective_text env ap hhash width hlength hb
        (fun hover => absurd hover (by
          rw [hstars, Nat.add_zero]
          exact hint))
        (fun hz hl => by
          rw [hlayout] at hz hl ⊢
          exact hzero (of_decide_eq_true hz) (of_decide_eq_false hl))
      rw [hstars, Nat.add_zero, hlayout] at htext
      exact htext
  | char =>
      obtain rfl : width = .absent := hconversion
      exact (char_text env ap flags .absent .absent).trans (pad_absent env ap flags)
  | string =>
      obtain rfl : width = .absent := hconversion
      have htext := string_text_iff env ap flags .absent .absent
      exact (htext.mpr (Or.inr (Or.inl (hstring rfl)))).trans (pad_absent env ap flags)
  | pointer => exact hconversion.elim
  | percent => exact hconversion.elim

/-- **One field is read back.** -/
theorem Directive.read_plain (env : Env) (ap : ℕ) {d : Directive} (h : d.Readable) {c : Byte}
    (hends : d.EndsAt c) (hstring : d.conversion = .string →
      c ∉ (env.strings (env.args ap)).bytes) (rest : List Byte) :
    d.read c (d.plain env ap ++ c :: rest) = (d.value env ap, c :: rest) := by
  obtain ⟨flags, width, precision, conversion⟩ := d
  obtain ⟨rfl, hconversion⟩ : precision = .absent ∧ conversion.Readable flags width := h
  cases conversion with
  | int length conversion =>
      obtain ⟨hdigit, hblank⟩ : digitValue c = none ∧ (Flag.minus ∈ flags → c ≠ ch ' ') := hends
      obtain ⟨hread, hafter⟩ := (Directive.fixedLayout ⟨flags, width, .absent,
        .int length conversion⟩).read_field conversion (conversion.value length (env.args ap))
        (show digitValue (peek (c :: rest)) = none from hdigit)
        (fun hl => hblank (of_decide_eq_true hl))
      simp only [Directive.fixedLayout, decide_eq_true_eq] at hafter
      exact Prod.ext (congrArg Value.int hread) hafter
  | char => rfl
  | string =>
      show (Value.text (((env.strings (env.args ap)).bytes ++ c :: rest).takeWhile (· ≠ c)),
        ((env.strings (env.args ap)).bytes ++ c :: rest).dropWhile (· ≠ c)) = _
      have hall : ∀ b ∈ (env.strings (env.args ap)).bytes, decide (b ≠ c) = true :=
        fun b hb => decide_eq_true fun hbc => hstring rfl (hbc ▸ hb)
      have hstop : ¬ decide (c ≠ c) = true := by simp
      rw [List.takeWhile_append_of_pos hall, List.dropWhile_append_of_pos hall,
        List.takeWhile_cons_of_neg (p := fun b : Byte => decide (b ≠ c)) hstop,
        List.dropWhile_cons_of_neg (p := fun b : Byte => decide (b ≠ c)) hstop, List.append_nil]
      rfl
  | pointer => exact hconversion.elim
  | percent => exact hconversion.elim

theorem readItems_directive (d : Directive) (items : List Item) (text : List Byte) :
    readItems (.directive d :: items) text =
      (readItems items (d.read (delimiter items) text).2).map fun r =>
        ((d.read (delimiter items) text).1 :: r.1, r.2) := rfl

/-- A delimited format is literals, and fields with a literal behind them. -/
theorem Delimited.cases {d : Directive} {items : List Item}
    (h : Delimited (.directive d :: items)) :
    ∃ c hc rest, items = .literal c hc :: rest ∧ d.Readable ∧ d.EndsAt c ∧ Delimited rest := by
  cases items with
  | nil => exact h.elim
  | cons next rest =>
      cases next with
      | directive d' => exact h.elim
      | literal c hc => exact ⟨c, hc, rest, rfl, h⟩

/-- **A delimited format prints its fields and literals.** -/
theorem itemsText_plain (env : Env) {items : List Item} (h : Delimited items) (ap : ℕ)
    (hstrings : StringsEnd env items ap) (hints : NoOverflow env items ap) :
    (itemsText env items ap).1 = itemsPlain env items ap := by
  induction items generalizing ap with
  | nil => rfl
  | cons i items ih =>
      cases i with
      | literal c hc => exact congrArg (List.cons c) (ih h ap hstrings hints)
      | directive d =>
          obtain ⟨c, hc, rest, rfl, hreadable, -, hrest⟩ := h.cases
          have htext := d.text_plain env ap hreadable (fun hs => (hstrings.1 hs).2) hints.1
          show (d.text env ap).1 ++ (itemsText env (.literal c hc :: rest) (d.text env ap).2).1 = _
          rw [htext]
          exact congrArg (d.plain env ap ++ ·) (ih hrest (ap + 1) hstrings.2 hints.2)

/-- The items of a delimited format are read back from the text in front of anything. -/
theorem readItems_plain (env : Env) {items : List Item} (h : Delimited items) (ap : ℕ)
    (hstrings : StringsEnd env items ap) (rest : List Byte) :
    readItems items (itemsPlain env items ap ++ rest) =
      some (itemsValues env items ap, rest) := by
  induction items generalizing ap with
  | nil => rfl
  | cons i items ih =>
      cases i with
      | literal c hc =>
          show (if some c = some c then readItems items (itemsPlain env items ap ++ rest)
            else none) = _
          rw [if_pos rfl]
          exact ih h ap hstrings
      | directive d =>
          obtain ⟨c, hc, behind, rfl, hreadable, hends, hrest⟩ := h.cases
          have hread := d.read_plain env ap hreadable hends (fun hs => (hstrings.1 hs).1)
            (itemsPlain env behind (ap + 1) ++ rest)
          have htext : itemsPlain env (.directive d :: .literal c hc :: behind) ap ++ rest =
              d.plain env ap ++ c :: (itemsPlain env behind (ap + 1) ++ rest) :=
            List.append_assoc _ _ _
          rw [htext, readItems_directive]
          show ((readItems (.literal c hc :: behind) (d.read c _).2).map fun r =>
            ((d.read c _).1 :: r.1, r.2)) = _
          rw [hread]
          exact congrArg (Option.map fun r => (d.value env ap :: r.1, r.2))
            (ih hrest (ap + 1) hstrings.2)

/-- `%-5d|%016lx: %s` and a line feed. -/
def threeFields : List Item :=
  [.directive (integerDirective [.minus] (.digits 5 []) .none .d),
    .literal (ch '|') (by decide),
    .directive (integerDirective [.zero] (.digits 1 [6]) .l .x),
    .literal (ch ':') (by decide), .literal (ch ' ') (by decide),
    .directive ⟨[], .absent, .absent, .string⟩, .literal (ch '\n') (by decide)]

end OsdevX64.Stdio

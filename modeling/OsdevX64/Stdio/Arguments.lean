import Mathlib.Algebra.Order.BigOperators.Group.List
import OsdevX64.Stdio.Syntax

/-!
# Which argument a conversion gets

An item takes its arguments from where the one before it stopped: a star takes
one, and so does a conversion, but for `%` and, in the source, for an integer
with the modifier `ll`, whose branch is empty.  `Directive.arguments` is what a
directive should take and `Directive.taken` what it takes.

The text of an item depends on the arguments it takes and on no others
(`itemsText_congr`).  So **the output of two formats in a row is that of the one
followed by that of the other exactly when the first has no `ll`**
(`splits_iff`).
-/

namespace OsdevX64.Stdio

open ByteMemory MachineInt

/-! ## The text of items -/

/-- What a directive sends, and the next argument behind it. -/
def Directive.text (env : Env) (d : Directive) (ap : ℕ) : List Byte × ℕ :=
  let spec := d.spec env ap
  let (text, taken) := convertText env spec d.conversion.byte
  (text, spec.ap + taken)

/-- What an item sends, and the next argument behind it. -/
def Item.text (env : Env) (ap : ℕ) : Item → List Byte × ℕ
  | .literal c _ => ([c], ap)
  | .directive d => d.text env ap

/-- What items send one after the other, and the next argument behind them. -/
def itemsText (env : Env) : List Item → ℕ → List Byte × ℕ
  | [], ap => ([], ap)
  | i :: items, ap =>
      let (text, ap) := i.text env ap
      let (texts, ap) := itemsText env items ap
      (text ++ texts, ap)

/-- **The text of a format is the text of its items.** -/
theorem formatText_items (env : Env) (items : List Item) {fuel : ℕ} (hfuel : items.length < fuel)
    (ap : ℕ) :
    formatText env fuel (formatBytes items) ap = .ok (itemsText env items ap).1 := by
  induction items generalizing fuel ap with
  | nil =>
      obtain ⟨fuel, rfl⟩ := Nat.exists_eq_succ_of_ne_zero (Nat.ne_zero_of_lt hfuel)
      rfl
  | cons i items ih =>
      obtain ⟨fuel, rfl⟩ := Nat.exists_eq_succ_of_ne_zero (Nat.ne_zero_of_lt hfuel)
      have hrest := ih (Nat.lt_of_succ_lt_succ hfuel)
      have hbytes : formatBytes (i :: items) = i.bytes ++ formatBytes items := List.flatMap_cons
      rw [hbytes]
      cases i with
      | literal c h =>
          have hpeek : peek ([c] ++ formatBytes items) = c := rfl
          rw [Item.bytes, formatText, hpeek, if_neg h.1, if_pos h.2]
          show formatText env fuel (formatBytes items) ap >>= _ = _
          rw [hrest]
          rfl
      | directive d =>
          have hpeek : peek (ch '%' :: d.bytes ++ formatBytes items) = ch '%' := rfl
          rw [Item.bytes, formatText, hpeek, if_neg percent_ne_zero, if_neg (not_not_intro rfl)]
          show scanSpec env (d.bytes ++ formatBytes items) ap >>= _ = _
          rw [scanSpec_bytes]
          show formatText env fuel (formatBytes items) _ >>= _ = _
          rw [hrest]
          rfl

theorem length_le_formatBytes (items : List Item) : items.length ≤ (formatBytes items).length := by
  induction items with
  | nil => exact Nat.le_refl 0
  | cons i items ih =>
      have hbytes : formatBytes (i :: items) = i.bytes ++ formatBytes items := List.flatMap_cons
      have hi : 1 ≤ i.bytes.length := by
        cases i with
        | literal c h => exact Nat.le_refl 1
        | directive d => exact Nat.le_add_left 1 _
      rw [hbytes, List.length_append, List.length_cons]
      omega

/-- What a call with the format emits. -/
theorem emitted_formatOf (env : Env) (items : List Item) :
    emitted env (formatOf items) = (itemsText env items 0).1 := by
  have htext := formatText_items env items
    (Nat.lt_succ_of_le (length_le_formatBytes items)) 0
  unfold emitted sprintf
  rw [@vsnprintfCore_eq env (formatOf items) _ htext]
  exact puts_sent _ _

theorem itemsText_append (env : Env) (first second : List Item) (ap : ℕ) :
    itemsText env (first ++ second) ap =
      ((itemsText env first ap).1 ++ (itemsText env second (itemsText env first ap).2).1,
        (itemsText env second (itemsText env first ap).2).2) := by
  induction first generalizing ap with
  | nil => rfl
  | cons i first ih =>
      rw [List.cons_append, itemsText]
      dsimp only
      rw [ih, itemsText]
      simp only [List.append_assoc]

/-! ## How many arguments are taken -/

/-- A star takes the width. -/
def Width.stars : Width → ℕ
  | .star => 1
  | _ => 0

/-- A star takes the precision. -/
def Precision.stars : Precision → ℕ
  | .star => 1
  | _ => 0

/-- Every conversion but `%` has an argument. -/
def Conversion.arguments : Conversion → ℕ
  | .percent => 0
  | _ => 1

/-- An integer conversion of a `long long`. -/
def Conversion.IsLongLong (c : Conversion) : Prop := c.length = .ll

instance (c : Conversion) : Decidable c.IsLongLong := inferInstanceAs (Decidable (c.length = .ll))

/-- The arguments of a directive: one a star, one for the conversion. -/
def Directive.arguments (d : Directive) : ℕ :=
  d.width.stars + d.precision.stars + d.conversion.arguments

/-- The arguments that a conversion takes. -/
def Conversion.taken (c : Conversion) : ℕ := if c.IsLongLong then 0 else c.arguments

/-- The arguments that a directive takes. -/
def Directive.taken (d : Directive) : ℕ :=
  d.width.stars + d.precision.stars + d.conversion.taken

/-- The arguments of an item. -/
def Item.arguments : Item → ℕ
  | .literal _ _ => 0
  | .directive d => d.arguments

/-- The arguments that an item takes. -/
def Item.taken : Item → ℕ
  | .literal _ _ => 0
  | .directive d => d.taken

/-- The arguments of a format. -/
def arguments (items : List Item) : ℕ := (items.map Item.arguments).sum

/-- The arguments that a format takes. -/
def taken (items : List Item) : ℕ := (items.map Item.taken).sum

theorem Width.apply_ap (env : Env) (spec : Spec) (w : Width) :
    (w.apply env spec).ap = spec.ap + w.stars := by
  cases w with
  | absent => rfl
  | literal n h => rfl
  | star =>
      rw [Width.apply]
      split_ifs
      · rfl
      · rfl

theorem Precision.apply_ap (env : Env) (spec : Spec) (p : Precision) :
    (p.apply env spec).ap = spec.ap + p.stars := by
  cases p with
  | absent => rfl
  | dot => rfl
  | literal n => rfl
  | star => rfl

theorem Directive.spec_ap (env : Env) (d : Directive) (ap : ℕ) :
    (d.spec env ap).ap = ap + d.width.stars + d.precision.stars := by
  rw [Directive.spec]
  dsimp only
  rw [Precision.apply_ap, Width.apply_ap]

theorem foldl_set_longLong (fs : List Flag) (flags : Flags) :
    (fs.foldl Flag.set flags).longLong = flags.longLong := by
  induction fs generalizing flags with
  | nil => rfl
  | cons f fs ih =>
      rw [List.foldl_cons, ih]
      cases f <;> rfl

/-- Only the modifier `ll` sets the flag of the empty branch. -/
theorem Directive.spec_longLong (env : Env) (d : Directive) (ap : ℕ) :
    (d.spec env ap).flags.longLong = decide d.conversion.IsLongLong := by
  have hwidth (w : Width) (spec : Spec) :
      (w.apply env spec).flags.longLong = spec.flags.longLong := by
    cases w with
    | absent => rfl
    | literal n h => rfl
    | star =>
        rw [Width.apply]
        split_ifs
        · rfl
        · rfl
  have hprecision (p : Precision) (spec : Spec) :
      (p.apply env spec).flags.longLong = spec.flags.longLong := by
    cases p <;> rfl
  have hlength (length : Length) (flags : Flags) (h : flags.longLong = false) :
      (length.apply flags).longLong = decide (length = .ll) := by
    cases length <;> first
      | rfl
      | exact h
  refine hlength d.conversion.length _ ?_
  rw [hprecision, hwidth]
  exact foldl_set_longLong d.flags {}

theorem convertText_int (env : Env) (spec : Spec) (c : IntConversion) :
    convertText env spec c.byte = convertIntText env spec c.byte :=
  if_pos (by cases c <;> decide)

theorem intFlags_longLong (flags : Flags) (c : Byte) :
    (intFlags flags c).longLong = flags.longLong := by
  simp only [intFlags, apply_ite Flags.longLong, ite_self]

/-- With `ll` nothing is sent and nothing is taken. -/
theorem convertIntText_longLong (env : Env) {spec : Spec} (h : spec.flags.longLong = true)
    (c : Byte) : convertIntText env spec c = ([], 0) := by
  unfold convertIntText
  dsimp only
  rw [intFlags_longLong, if_pos h]

theorem convertIntText_snd (env : Env) {spec : Spec} (h : spec.flags.longLong = false)
    (c : Byte) : (convertIntText env spec c).2 = 1 := by
  unfold convertIntText
  dsimp only
  rw [intFlags_longLong, if_neg (by rw [h]; exact Bool.false_ne_true)]
  split_ifs <;> rfl

/-- A directive takes its stars and, but for `ll` and `%`, one argument more. -/
theorem Directive.text_snd (env : Env) (d : Directive) (ap : ℕ) :
    (d.text env ap).2 = ap + d.taken := by
  have hconversion : (convertText env (d.spec env ap) d.conversion.byte).2 =
      d.conversion.taken := by
    have hlong := d.spec_longLong env ap
    cases hc : d.conversion with
    | int length c =>
        rw [hc] at hlong
        show (convertText env (d.spec env ap) c.byte).2 = _
        rw [convertText_int, Conversion.taken]
        by_cases hll : (Conversion.int length c).IsLongLong
        · rw [decide_eq_true hll] at hlong
          rw [if_pos hll, convertIntText_longLong env hlong]
        · rw [decide_eq_false hll] at hlong
          rw [if_neg hll, convertIntText_snd env hlong]
          rfl
    | char => rfl
    | string => rfl
    | pointer => rfl
    | percent => rfl
  show (d.spec env ap).ap + (convertText env (d.spec env ap) d.conversion.byte).2 = _
  rw [hconversion, d.spec_ap, Directive.taken]
  omega

theorem Item.text_snd (env : Env) (i : Item) (ap : ℕ) : (i.text env ap).2 = ap + i.taken := by
  cases i with
  | literal c h => rfl
  | directive d => exact d.text_snd env ap

theorem itemsText_snd (env : Env) (items : List Item) (ap : ℕ) :
    (itemsText env items ap).2 = ap + taken items := by
  induction items generalizing ap with
  | nil => rfl
  | cons i items ih =>
      show (itemsText env items (i.text env ap).2).2 = _
      rw [ih, i.text_snd]
      exact Nat.add_assoc ap i.taken (taken items)

/-- What a directive sends stands between what the items around it send. -/
theorem emitted_directive (env : Env) (before after : List Item) (d : Directive) :
    emitted env (formatOf (before ++ .directive d :: after)) =
      (itemsText env before 0).1 ++ (d.text env (taken before)).1 ++
        (itemsText env after (taken before + d.taken)).1 := by
  rw [emitted_formatOf, itemsText_append, itemsText_snd, Nat.zero_add, itemsText, Item.text]
  dsimp only
  rw [d.text_snd, List.append_assoc]

/-- The items around a directive tell nothing about what it sends. -/
theorem emitted_directive_iff (env : Env) (before after : List Item) (d : Directive)
    (text : List Byte) :
    emitted env (formatOf (before ++ .directive d :: after)) =
        (itemsText env before 0).1 ++ text ++ (itemsText env after (taken before + d.taken)).1 ↔
      (d.text env (taken before)).1 = text := by
  rw [emitted_directive]
  exact (List.append_left_inj _).trans (List.append_right_inj _)

/-! ## Only the arguments that are taken matter -/

/-- The same strings and the same build, and the same `n` arguments from `ap` and
from `ap'` on. -/
structure Agree (env env' : Env) (ap ap' n : ℕ) : Prop where
  strings : env.strings = env'.strings
  build : env.toBuild = env'.toBuild
  args : ∀ i < n, env.args (ap + i) = env'.args (ap' + i)

theorem Agree.part {env env' : Env} {ap ap' n : ℕ} (h : Agree env env' ap ap' n) {k m : ℕ}
    (hkm : k + m ≤ n) : Agree env env' (ap + k) (ap' + k) m where
  strings := h.strings
  build := h.build
  args i hi := by
    rw [Nat.add_assoc, Nat.add_assoc]
    exact h.args (k + i) (by omega)

theorem Agree.mono {env env' : Env} {ap ap' n m : ℕ} (h : Agree env env' ap ap' n) (hmn : m ≤ n) :
    Agree env env' ap ap' m :=
  ⟨h.strings, h.build, fun i hi => h.args i (Nat.lt_of_lt_of_le hi hmn)⟩

/-- The part of the environment that a conversion sees. -/
def Env.only (env : Env) (ap : ℕ) : Env := { env with args := fun _ => env.args ap }

theorem Agree.only {env env' : Env} {ap ap' n : ℕ} (h : Agree env env' ap ap' n) {i : ℕ}
    (hi : i < n) : env.only (ap + i) = env'.only (ap' + i) := by
  unfold Env.only
  rw [h.args i hi, h.strings, h.build]

theorem Agree.int {env env' : Env} {ap ap' : ℕ} (h : Agree env env' ap ap' 1) :
    env.int ap = env'.int ap' := by
  unfold Env.int
  rw [show env.args ap = env'.args ap' from h.args 0 Nat.one_pos]

/-- The same specification at another argument. -/
def Spec.moveTo (spec : Spec) (ap : ℕ) : Spec := { spec with ap := ap }

theorem convertText_only (env : Env) (spec : Spec) (ap : ℕ) (c : Byte) :
    convertText env (spec.moveTo ap) c = convertText (env.only ap) (spec.moveTo 0) c := rfl

theorem Width.apply_congr {env env' : Env} {ap ap' : ℕ} (w : Width)
    (h : Agree env env' ap ap' w.stars) (spec : Spec) :
    w.apply env' (spec.moveTo ap') = (w.apply env (spec.moveTo ap)).moveTo (ap' + w.stars) := by
  cases w with
  | absent => rfl
  | literal n hn => rfl
  | star =>
      have hint : env.int (spec.moveTo ap).ap = env'.int (spec.moveTo ap').ap := h.int
      rw [Width.apply, Width.apply, hint]
      dsimp only
      split_ifs
      · rfl
      · rfl

theorem Precision.apply_congr {env env' : Env} {ap ap' : ℕ} (p : Precision)
    (h : Agree env env' ap ap' p.stars) (spec : Spec) :
    p.apply env' (spec.moveTo ap') = (p.apply env (spec.moveTo ap)).moveTo (ap' + p.stars) := by
  cases p with
  | absent => rfl
  | dot => rfl
  | literal n => rfl
  | star =>
      have hint : env.int (spec.moveTo ap).ap = env'.int (spec.moveTo ap').ap := h.int
      rw [Precision.apply, Precision.apply, hint]
      rfl

/-- The stars are all that a specification depends on. -/
theorem Directive.spec_congr {env env' : Env} {ap ap' : ℕ} (d : Directive)
    (h : Agree env env' ap ap' (d.width.stars + d.precision.stars)) :
    d.spec env' ap' =
      (d.spec env ap).moveTo (ap' + d.width.stars + d.precision.stars) := by
  generalize hspec : d.width.apply env ⟨d.flags.foldl Flag.set {}, 0, 0, ap⟩ = spec
  have hwidth : d.width.apply env' ⟨d.flags.foldl Flag.set {}, 0, 0, ap'⟩ =
      spec.moveTo (ap' + d.width.stars) := by
    rw [← hspec]
    exact d.width.apply_congr (h.mono (Nat.le_add_right _ _))
      ⟨d.flags.foldl Flag.set {}, 0, 0, 0⟩
  have hself : spec.moveTo (ap + d.width.stars) = spec := by
    have hap : spec.ap = ap + d.width.stars := by rw [← hspec, Width.apply_ap]
    rw [← hap]
    rfl
  have hprecision := d.precision.apply_congr (h.part (k := d.width.stars) (Nat.le_refl _)) spec
  rw [hself] at hprecision
  rw [Directive.spec, Directive.spec, hspec, hwidth, hprecision]
  rfl

/-- A conversion that takes no argument sends the same in every environment. -/
theorem convertText_of_taken_zero (env env' : Env) {spec : Spec} {c : Conversion}
    (hlong : spec.flags.longLong = decide c.IsLongLong) (hc : c.taken = 0) (ap ap' : ℕ) :
    convertText env' (spec.moveTo ap') c.byte = convertText env (spec.moveTo ap) c.byte := by
  cases c with
  | int length c =>
      by_cases hll : (Conversion.int length c).IsLongLong
      · rw [decide_eq_true hll] at hlong
        show convertText env' (spec.moveTo ap') c.byte = convertText env (spec.moveTo ap) c.byte
        have hnone (env : Env) (ap : ℕ) : convertIntText env (spec.moveTo ap) c.byte = ([], 0) :=
          @convertIntText_longLong env (spec.moveTo ap) hlong c.byte
        rw [convertText_int, convertText_int, hnone, hnone]
      · rw [Conversion.taken, if_neg hll] at hc
        exact absurd hc Nat.one_ne_zero
  | char => exact absurd hc Nat.one_ne_zero
  | string => exact absurd hc Nat.one_ne_zero
  | pointer => exact absurd hc Nat.one_ne_zero
  | percent => rfl

/-- **A directive depends on the arguments it takes**, and on no others. -/
theorem Directive.text_congr {env env' : Env} {ap ap' : ℕ} (d : Directive)
    (h : Agree env env' ap ap' d.taken) : (d.text env' ap').1 = (d.text env ap).1 := by
  have hspec := d.spec_congr (h.mono (Nat.le_add_right _ d.conversion.taken))
  have hself : (d.spec env ap).moveTo (ap + d.width.stars + d.precision.stars) =
      d.spec env ap := by
    rw [← d.spec_ap env ap]
    rfl
  have hconversion : convertText env' (d.spec env' ap') d.conversion.byte =
      convertText env (d.spec env ap) d.conversion.byte := by
    rw [show d.spec env' ap' = _ from hspec]
    conv_rhs => rw [← hself]
    by_cases htaken : d.conversion.taken = 0
    · exact convertText_of_taken_zero env env' (d.spec_longLong env ap) htaken _ _
    · have honly := h.only (i := d.width.stars + d.precision.stars)
        (by rw [Directive.taken]; omega)
      rw [← Nat.add_assoc, ← Nat.add_assoc] at honly
      rw [convertText_only env, convertText_only env', honly]
  show (convertText env' (d.spec env' ap') d.conversion.byte).1 = _
  rw [hconversion]
  rfl

/-- **Items depend on the arguments they take.** -/
theorem itemsText_congr {env env' : Env} {ap ap' : ℕ} (items : List Item)
    (h : Agree env env' ap ap' (taken items)) :
    (itemsText env' items ap').1 = (itemsText env items ap).1 := by
  induction items generalizing ap ap' with
  | nil => rfl
  | cons i items ih =>
      have htaken : taken (i :: items) = i.taken + taken items := rfl
      rw [htaken] at h
      have hi : (i.text env' ap').1 = (i.text env ap).1 := by
        cases i with
        | literal c hc => rfl
        | directive d => exact d.text_congr (h.mono (Nat.le_add_right _ _))
      have hrest := ih (h.part (k := i.taken) (Nat.le_refl _))
      rw [← i.text_snd env ap, ← i.text_snd env' ap'] at hrest
      show (i.text env' ap').1 ++ (itemsText env' items (i.text env' ap').2).1 = _
      rw [hi, hrest]
      rfl

/-! ## Argument lists -/

/-- The environment with the arguments of a list. -/
def Env.withArgs (env : Env) (args : List (BitVec 64)) : Env :=
  { env with args := fun i => args.getD i 0 }

/-- A format, with its arguments, in front of another: what they emit in one call
is what they emit in two. -/
def Splits (first : List Item) : Prop :=
  ∀ (env : Env) (second : List Item) (args args' : List (BitVec 64)),
    args.length = arguments first →
      emitted (env.withArgs (args ++ args')) (formatOf (first ++ second)) =
        emitted (env.withArgs args) (formatOf first) ++
          emitted (env.withArgs args') (formatOf second)

/-- The format converts no `long long`. -/
def NoLongLong (items : List Item) : Prop :=
  ∀ d, Item.directive d ∈ items → ¬ d.conversion.IsLongLong

theorem Item.taken_le (i : Item) : i.taken ≤ i.arguments := by
  cases i with
  | literal c h => exact Nat.le_refl 0
  | directive d =>
      refine Nat.add_le_add_left ?_ _
      unfold Conversion.taken
      split_ifs
      · exact Nat.zero_le _
      · exact Nat.le_refl _

theorem taken_le (items : List Item) : taken items ≤ arguments items :=
  List.sum_le_sum fun i _ => i.taken_le

theorem Conversion.arguments_of_longLong {c : Conversion} (h : c.IsLongLong) :
    c.arguments = 1 := by
  cases c with
  | int length c => rfl
  | char => cases h
  | string => cases h
  | pointer => cases h
  | percent => cases h

/-- **A format takes its arguments exactly if it converts no `long long`.** -/
theorem taken_eq_iff (items : List Item) : taken items = arguments items ↔ NoLongLong items := by
  induction items with
  | nil => exact iff_of_true rfl fun d hd => absurd hd List.not_mem_nil
  | cons i items ih =>
      have hi := i.taken_le
      have hitems := taken_le items
      have htaken : taken (i :: items) = i.taken + taken items := rfl
      have harguments : arguments (i :: items) = i.arguments + arguments items := rfl
      have hboth : taken (i :: items) = arguments (i :: items) ↔
          i.taken = i.arguments ∧ taken items = arguments items := by
        rw [htaken, harguments]
        omega
      have hitem : i.taken = i.arguments ↔ ∀ d, i = .directive d → ¬ d.conversion.IsLongLong := by
        cases i with
        | literal c h => exact iff_of_true rfl fun d hd => Item.noConfusion hd
        | directive d =>
            constructor
            · rintro heq d' hd hll
              cases hd
              have hone := Conversion.arguments_of_longLong hll
              have hzero : d.conversion.taken = 0 := if_pos hll
              have hsum := Nat.add_left_cancel (heq : d.taken = d.arguments)
              rw [hone, hzero] at hsum
              exact absurd hsum Nat.zero_ne_one
            · intro hnot
              have hsame : d.conversion.taken = d.conversion.arguments := if_neg (hnot d rfl)
              show d.taken = d.arguments
              rw [Directive.taken, hsame]
              rfl
      rw [hboth, hitem, ih]
      constructor
      · rintro ⟨hfirst, hrest⟩ d hd
        rcases List.mem_cons.mp hd with heq | hd
        · exact hfirst d heq.symm
        · exact hrest d hd
      · intro hall
        exact ⟨fun d hd => hall d (List.mem_cons.mpr (.inl hd.symm)),
          fun d hd => hall d (List.mem_cons_of_mem i hd)⟩

/-- The first of two argument lists is seen as if it were alone. -/
theorem agree_append_left (env : Env) (args args' : List (BitVec 64)) {n : ℕ}
    (hn : n ≤ args.length) : Agree (env.withArgs args) (env.withArgs (args ++ args')) 0 0 n where
  strings := rfl
  build := rfl
  args i hi := by
    have hlt : 0 + i < args.length := by omega
    exact (List.getD_append args args' 0 (0 + i) hlt).symm

/-- The second of two argument lists is seen from behind the first. -/
theorem agree_append_right (env : Env) (args args' : List (BitVec 64)) (n : ℕ) :
    Agree (env.withArgs args') (env.withArgs (args ++ args')) 0 args.length n where
  strings := rfl
  build := rfl
  args i _ := by
    have hright := List.getD_append_right args args' 0 (args.length + i) (Nat.le_add_right _ _)
    rw [Nat.add_sub_cancel_left] at hright
    rw [Nat.zero_add]
    exact hright.symm

/-- The directive `%c`. -/
def percentChar : Directive := ⟨[], .absent, .absent, .char⟩

/-- **Argument lists follow formats exactly when no `long long` is converted.** -/
theorem splits_iff (first : List Item) : Splits first ↔ NoLongLong first := by
  rw [← taken_eq_iff]
  constructor
  · intro hsplits
    by_contra hne
    have hlt := Nat.lt_of_le_of_ne (taken_le first) hne
    -- zeros for the first format and a one for the second: `%c` finds a zero
    generalize hn : arguments first = n at hlt
    let env : Env := ⟨⟨fun _ => 0, 0⟩, fun _ => 0, fun _ => ⟨[], by simp⟩⟩
    have hcall := hsplits env [.directive percentChar] (List.replicate n 0) [1]
      (by rw [List.length_replicate, hn])
    have hfirst := itemsText_congr first (agree_append_left env (List.replicate n 0) [1]
      (n := taken first) (by rw [List.length_replicate]; exact hlt.le))
    rw [emitted_formatOf, emitted_formatOf, emitted_formatOf, itemsText_append, itemsText_snd,
      hfirst] at hcall
    have htail := List.append_cancel_left hcall
    have hzero : (List.replicate n (0 : BitVec 64) ++ [1]).getD (0 + taken first) 0 = 0 := by
      rw [Nat.zero_add, List.getD_append _ _ _ _ (by rw [List.length_replicate]; exact hlt),
        List.getD_replicate _ hlt]
    have hchar : [BitVec.setWidth 8
        ((List.replicate n (0 : BitVec 64) ++ [1]).getD (0 + taken first) 0)] =
          [BitVec.setWidth 8 (1 : BitVec 64)] := htail
    rw [hzero] at hchar
    exact absurd hchar (by decide)
  · intro heq env second args args' hlength
    rw [emitted_formatOf, emitted_formatOf, emitted_formatOf, itemsText_append]
    dsimp only
    rw [itemsText_snd, Nat.zero_add, heq, ← hlength,
      itemsText_congr first (agree_append_left env args args' (by rw [heq, hlength])),
      itemsText_congr second (agree_append_right env args args' (taken second))]

/-- The directive `%lld`. -/
def percentLongLong : Directive := ⟨[], .absent, .absent, .int .ll .d⟩

/-- **`%lld%c` with the arguments 65 and 66** sends the character 65: the first
conversion sends nothing and takes nothing. -/
theorem longLong_shifts :
    emitted ⟨⟨fun _ => 0, 0⟩, fun i => [65, 66].getD i 0, fun _ => ⟨[], by simp⟩⟩
        (formatOf [.directive percentLongLong, .directive percentChar]) = [65] ∧
      ¬ Splits [.directive percentLongLong] := by
  constructor
  · rw [emitted_formatOf]
    decide
  · intro hsplits
    have hcall := hsplits ⟨⟨fun _ => 0, 0⟩, fun _ => 0, fun _ => ⟨[], by simp⟩⟩
      [.directive percentChar] [65] [66] rfl
    rw [emitted_formatOf, emitted_formatOf, emitted_formatOf] at hcall
    exact absurd hcall (by decide)

end OsdevX64.Stdio

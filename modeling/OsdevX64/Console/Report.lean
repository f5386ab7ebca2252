import OsdevX64.Console.Messages
import OsdevX64.Lib.Repeat

/-!
# Reports

The kernel reports what it finds with formats of numbers and strings.  A `Format` carries
what such a format is checked for once: its fields can be told apart, its literals can be
shown, and what it prints fits into the array of `printf`.

Then **a call prints one fixed text** (`Format.print_eq`), whatever the build, **and
the text reads back as the arguments** (`Format.read_text`).
-/

namespace OsdevX64.Console

open ByteMemory
open Stdio (Build CString Env Fault Item Directive IntConversion Value Delimited StringsEnd
  NoOverflow ch formatOf delimiter itemsPlain itemsValues readItems)

/-! ## Formats -/

/-- The literal characters of a string. -/
def stretch (text : String) : List Item :=
  (chars text).filterMap fun b => if h : b ≠ 0 ∧ b ≠ ch '%' then some (.literal b h) else none

/-- A literal that can be shown, or the field of a number or a string. -/
def Fit : Item → Prop
  | .literal c _ => PrintsByte c
  | .directive d => d.conversion ≠ .char

instance (i : Item) : Decidable (Fit i) :=
  match i with
  | .literal c _ => inferInstanceAs (Decidable (PrintsByte c))
  | .directive d => inferInstanceAs (Decidable (d.conversion ≠ .char))

/-- Behind every string is a line feed or a comma. -/
def TextsEnd : List Item → Prop
  | [] => True
  | .literal _ _ :: items => TextsEnd items
  | .directive d :: items =>
      (d.conversion = .string → delimiter items = 10 ∨ delimiter items = ch ',') ∧ TextsEnd items

instance decidableTextsEnd : (items : List Item) → Decidable (TextsEnd items)
  | [] => isTrue trivial
  | .literal _ _ :: items => decidableTextsEnd items
  | .directive _ :: items =>
      have := decidableTextsEnd items
      inferInstanceAs (Decidable ((_ → _ ∨ _) ∧ TextsEnd items))

/-- Behind every string is a line feed. -/
def LinesEnd : List Item → Prop
  | [] => True
  | .literal _ _ :: items => LinesEnd items
  | .directive d :: items => (d.conversion = .string → delimiter items = 10) ∧ LinesEnd items

instance decidableLinesEnd : (items : List Item) → Decidable (LinesEnd items)
  | [] => isTrue trivial
  | .literal _ _ :: items => decidableLinesEnd items
  | .directive _ :: items =>
      have := decidableLinesEnd items
      inferInstanceAs (Decidable ((_ → _) ∧ LinesEnd items))

/-- The strings of a report are this long at most. -/
def textRoom : ℕ := 64

/-- How long the text of an item can be. -/
def room : Item → ℕ
  | .literal _ _ => 1
  | .directive d =>
      match d.conversion with
      | .int _ _ => max d.width.fixed 32
      | _ => textRoom

/-- A literal, or a directive that converts no signed `int`. -/
def Wide : Item → Prop
  | .literal _ _ => True
  | .directive d =>
      match d.conversion with
      | .int length c => length ≠ .none ∨ c.signed = false
      | _ => True

instance (i : Item) : Decidable (Wide i) :=
  match i with
  | .literal _ _ => isTrue trivial
  | .directive ⟨_, _, _, .int _ _⟩ => inferInstanceAs (Decidable (_ ∨ _))
  | .directive ⟨_, _, _, .char⟩ => isTrue trivial
  | .directive ⟨_, _, _, .string⟩ => isTrue trivial
  | .directive ⟨_, _, _, .pointer⟩ => isTrue trivial
  | .directive ⟨_, _, _, .percent⟩ => isTrue trivial

/-- The format of a report. -/
structure Format where
  items : List Item
  delimited : Delimited items
  fit : ∀ i ∈ items, Fit i
  textsEnd : TextsEnd items
  room_lt : (items.map room).sum < printfBufferSize

/-- **What every literal keeps, a stretch keeps.** -/
theorem stretch_keeps {P : List Item → Prop}
    (h : ∀ c hc items, P items → P (.literal c hc :: items)) (text : String)
    {items : List Item} (hitems : P items) : P (stretch text ++ items) := by
  unfold stretch
  induction chars text with
  | nil => exact hitems
  | cons b bytes ih =>
      rw [List.filterMap_cons]
      split
      · exact ih
      · rename_i i hi
        by_cases hb : b ≠ 0 ∧ b ≠ ch '%'
        · rw [dif_pos hb] at hi
          cases hi
          exact h b hb _ ih
        · rw [dif_neg hb] at hi
          cases hi

/-- Literals alone have no fields to be told apart. -/
theorem stretch_literals (text : String) : Delimited (stretch text) ∧ TextsEnd (stretch text) := by
  have hkeeps : Delimited (stretch text ++ []) ∧ TextsEnd (stretch text ++ []) :=
    stretch_keeps (P := fun items => Delimited items ∧ TextsEnd items) (fun _ _ _ h => h) text
      ⟨trivial, trivial⟩
  rwa [List.append_nil] at hkeeps

theorem stretch_wide (text : String) : ∀ i ∈ stretch text, Wide i := by
  have hkeeps : ∀ i ∈ stretch text ++ [], Wide i :=
    stretch_keeps (P := fun items => ∀ i ∈ items, Wide i)
      (fun _ _ _ h => List.forall_mem_cons.mpr ⟨trivial, h⟩) text
      fun _ hi => absurd hi List.not_mem_nil
  rwa [List.append_nil] at hkeeps

/-- A text that begins with another character is no stretch. -/
theorem readItems_stretch_none {text : String} {c : Byte} {bytes : List Byte}
    (htext : chars text = c :: bytes) (hc : c ≠ 0 ∧ c ≠ ch '%') (items : List Item) {b : Byte}
    (hb : b ≠ c) (rest : List Byte) : readItems (stretch text ++ items) (b :: rest) = none := by
  unfold stretch
  rw [htext, List.filterMap_cons, dif_pos hc]
  exact if_neg fun heq => hb (Option.some_inj.mp heq)

/-- A format without fields. -/
def message (text : String)
    (h : (∀ i ∈ stretch text, Fit i) ∧ ((stretch text).map room).sum < printfBufferSize) :
    Format where
  items := stretch text
  delimited := (stretch_literals text).1
  fit := h.1
  textsEnd := (stretch_literals text).2
  room_lt := h.2

/-! ## Arguments -/

/-- An argument of `printf`. -/
inductive PrintArg
  | word (w : BitVec 64)
  | str (text : CString)

/-- A string that the formats can end. -/
def Named (text : List Byte) : Prop := text.length ≤ textRoom ∧ ∀ b ∈ text, IsPrint b ∧ b ≠ ch ','

instance (text : List Byte) : Decidable (Named text) :=
  decidable_of_iff (text.length ≤ textRoom ∧ (text.all fun b => IsPrint b ∧ b ≠ ch ',') = true)
    (and_congr_right' (List.all_eq_true.trans (forall₂_congr fun _ _ => decide_eq_true_iff)))

/-- A number, or a string that the formats can end. -/
def PrintArg.Ok : PrintArg → Prop
  | .word _ => True
  | .str text => Named text.bytes

/-- The arguments as `printf` gets them.  A string is passed by its place among them. -/
def printEnv (build : Build) (args : List PrintArg) : Env where
  args ap :=
    match args[ap]? with
    | some (.word w) => w
    | _ => BitVec.ofNat 64 ap
  strings a :=
    match args[a.toNat]? with
    | some (.str text) => text
    | _ => ⟨[], fun _ h => absurd h List.not_mem_nil⟩
  toBuild := build

/-- What is printed. -/
def Format.text (F : Format) (args : List PrintArg) : List Byte :=
  itemsPlain (printEnv ⟨fun _ => 0, 0⟩ args) F.items 0

/-- No argument is `INT_MIN` where the format converts an `int`. -/
def Format.NoOverflow (F : Format) (args : List PrintArg) : Prop :=
  Stdio.NoOverflow (printEnv ⟨fun _ => 0, 0⟩ args) F.items 0

/-- The arguments that are printed. -/
def Format.values (F : Format) (args : List PrintArg) : List Value :=
  itemsValues (printEnv ⟨fun _ => 0, 0⟩ args) F.items 0

/-- Read the arguments from the front of a text. -/
def Format.read (F : Format) (text : List Byte) : Option (List Value × List Byte) :=
  readItems F.items text

/-- Read the format as often as it is there. -/
def Format.readMany (F : Format) (text : List Byte) : List (List Value) × List Byte :=
  Repeat.many F.read text

/-- A call of `printf`. -/
def Format.print (F : Format) (build : Screen → Build) (s : Screen) (args : List PrintArg) :
    Except Fault Screen :=
  printf (printEnv (build s) args) (build s).stack s (formatOf F.items)

/-! ## What is printed -/

/-- Every string that `printf` can meet is one of the arguments, or empty. -/
theorem printEnv_strings {args : List PrintArg} {P : List Byte → Prop} (hnil : P [])
    (h : ∀ text, PrintArg.str text ∈ args → P text.bytes) (build : Build) (a : BitVec 64) :
    P ((printEnv build args).strings a).bytes := by
  unfold printEnv
  dsimp only
  split
  · exact h _ (List.mem_of_getElem? ‹_›)
  · exact hnil

theorem printEnv_named {args : List PrintArg} (h : ∀ a ∈ args, a.Ok) (build : Build)
    (a : BitVec 64) : Named ((printEnv build args).strings a).bytes :=
  printEnv_strings ⟨Nat.zero_le _, fun _ hb => absurd hb List.not_mem_nil⟩
    (fun text htext => h (.str text) htext) build a

theorem stringsEnd_of_named {env : Env} (h : ∀ a, Named (env.strings a).bytes)
    {items : List Item} (hends : TextsEnd items) (ap : ℕ) : StringsEnd env items ap := by
  induction items generalizing ap with
  | nil => trivial
  | cons i items ih =>
      cases i with
      | literal c hc => exact ih hends ap
      | directive d =>
          obtain ⟨hend, hrest⟩ := hends
          refine ⟨fun hs => ⟨fun hmem => ?_, ?_⟩, ih hrest (ap + 1)⟩
          · obtain ⟨⟨hprint, -⟩, hcomma⟩ := (h _).2 _ hmem
            rcases hend hs with hline | hline
            · rw [hline] at hprint
              exact absurd hprint (by decide)
            · exact hcomma hline
          · exact (h _).1.trans_lt (by decide)

/-- What converts no signed `int` converts no `INT_MIN`. -/
theorem noOverflow_of_wide (env : Env) {items : List Item} (h : ∀ i ∈ items, Wide i) (ap : ℕ) :
    NoOverflow env items ap := by
  induction items generalizing ap with
  | nil => trivial
  | cons i items ih =>
      obtain ⟨hi, hrest⟩ := List.forall_mem_cons.mp h
      cases i with
      | literal c hc => exact ih hrest ap
      | directive d =>
          refine ⟨fun hover => ?_, ih hrest (ap + 1)⟩
          obtain ⟨flags, width, precision, conversion⟩ := d
          cases conversion with
          | int length c =>
              rcases hi with hlength | hsigned
              · exact hlength hover.1
              · exact Stdio.IntConversion.not_overflows_of_unsigned hsigned _ _ hover
          | _ => exact hover

/-- Nor does a format that prints another value for each argument. -/
theorem noOverflow_of_values {env : Env} {items : List Item} {ap : ℕ}
    (h : Value.int (-2 ^ 31) ∉ itemsValues env items ap) : NoOverflow env items ap := by
  induction items generalizing ap with
  | nil => trivial
  | cons i items ih =>
      cases i with
      | literal c hc => exact @ih ap h
      | directive d =>
          obtain ⟨hfirst, hrest⟩ := not_or.mp (mt List.mem_cons.mpr h)
          refine ⟨fun hover => hfirst ?_, ih hrest⟩
          obtain ⟨flags, width, precision, conversion⟩ := d
          cases conversion with
          | int length c =>
              obtain ⟨rfl, hmin⟩ := hover
              exact congrArg Value.int hmin.symm
          | _ => exact hover.elim

/-- Printable strings end at line feeds, and are no longer than what is printed. -/
theorem stringsEnd_of_lines {env : Env} (h : ∀ a, ∀ b ∈ (env.strings a).bytes, IsPrint b)
    {items : List Item} (hends : LinesEnd items) {ap : ℕ}
    (hlen : (itemsPlain env items ap).length < 2 ^ 32) : StringsEnd env items ap := by
  induction items generalizing ap with
  | nil => trivial
  | cons i items ih =>
      cases i with
      | literal c hc => exact @ih hends ap (Nat.lt_of_succ_lt hlen)
      | directive d =>
          obtain ⟨hend, hrest⟩ := hends
          change (d.plain env ap ++ itemsPlain env items (ap + 1)).length < _ at hlen
          rw [List.length_append] at hlen
          refine ⟨fun hs => ⟨fun hmem => ?_, ?_⟩, ih hrest (by omega)⟩
          · rw [hend hs] at hmem
            exact absurd (h _ 10 hmem) (by decide)
          · unfold Directive.plain at hlen
            rw [hs] at hlen
            exact (Nat.le_add_right _ _).trans_lt hlen

theorem digitChar_isPrint {digit : ℕ} (h : digit < 16) (uppercase : Bool) :
    IsPrint (Stdio.digitChar digit uppercase) := by
  have hall : ∀ digit < 16, ∀ uppercase, IsPrint (Stdio.digitChar digit uppercase) := by decide
  exact hall digit h uppercase

/-- Fields are printable. -/
theorem field_isPrint (l : Stdio.Layout) (c : IntConversion) (v : ℤ) :
    ∀ b ∈ l.field c v, IsPrint b := by
  obtain ⟨j, k, ds, hds, -, -, -, hparts⟩ := l.field_parts c v
  have hblanks (n : ℕ) : ∀ b ∈ List.replicate n (ch ' '), IsPrint b := by
    intro b hb
    rw [List.eq_of_mem_replicate hb]
    decide
  have hsign : ∀ b ∈ l.sign c.signed v, IsPrint b := by
    rcases l.sign_cases c.signed v with hs | hs | hs | hs <;> rw [hs] <;> decide
  rw [hparts]
  refine List.forall_mem_append.mpr ⟨hblanks j, List.forall_mem_append.mpr ⟨hsign,
    List.forall_mem_append.mpr ⟨fun b hb => ?_, hblanks k⟩⟩⟩
  obtain ⟨d, hd, rfl⟩ := List.mem_map.mp hb
  exact digitChar_isPrint (hds d hd) _

/-- **Only printable characters and line feeds are printed.** -/
theorem itemsPlain_prints {env : Env} (h : ∀ a, ∀ b ∈ (env.strings a).bytes, IsPrint b)
    {items : List Item} (hfit : ∀ i ∈ items, Fit i) (ap : ℕ) :
    ∀ b ∈ itemsPlain env items ap, PrintsByte b := by
  induction items generalizing ap with
  | nil => exact fun b hb => absurd hb List.not_mem_nil
  | cons i items ih =>
      obtain ⟨hi, hrest⟩ := List.forall_mem_cons.mp hfit
      cases i with
      | literal c hc => exact List.forall_mem_cons.mpr ⟨hi, ih hrest ap⟩
      | directive d =>
          refine List.forall_mem_append.mpr ⟨?_, ih hrest (ap + 1)⟩
          have hstring : ∀ b ∈ (env.strings (env.args ap)).bytes, PrintsByte b :=
            fun b hb => Or.inr (h _ b hb)
          unfold Directive.plain
          split
          · exact fun b hb => Or.inr (field_isPrint _ _ _ b hb)
          · exact absurd ‹_› hi
          · exact hstring

/-- A field is as long as its width, or as its number. -/
theorem length_field_le {c : IntConversion} (hc : c ≠ .b) (l : Stdio.Layout) (length : Stdio.Length)
    (arg : BitVec 64) : (l.field c (c.value length arg)).length ≤ max l.width 32 := by
  have hdigits := Stdio.length_digits_lt hc length arg
  have hsign : (l.sign c.signed (c.value length arg)).length ≤ 1 := by
    rcases l.sign_cases c.signed (c.value length arg) with hs | hs | hs | hs <;> rw [hs] <;> decide
  unfold Stdio.Layout.field
  rw [l.length_pad, Stdio.numberText, List.length_map]
  change _ < 32 at hdigits
  omega

/-- **No more than the format has room for is printed.** -/
theorem length_itemsPlain_le {env : Env} (h : ∀ a, Named (env.strings a).bytes)
    {items : List Item} (hitems : Delimited items) (ap : ℕ) :
    (itemsPlain env items ap).length ≤ (items.map room).sum := by
  induction items generalizing ap with
  | nil => exact le_rfl
  | cons i items ih =>
      rw [List.map_cons, List.sum_cons]
      cases i with
      | literal c hc =>
          have hrest := ih hitems ap
          show (itemsPlain env items ap).length + 1 ≤ 1 + _
          omega
      | directive d =>
          obtain ⟨c, hc, rest, rfl, hreadable, -, hbehind⟩ := hitems.cases
          have hrest := ih (show Delimited (.literal c hc :: rest) from hbehind) (ap + 1)
          have hfield : (d.plain env ap).length ≤ room (.directive d) := by
            obtain ⟨flags, width, precision, conversion⟩ := d
            obtain ⟨-, hconversion⟩ := hreadable
            cases conversion with
            | int length c => exact length_field_le hconversion.2.2.2.1 _ length (env.args ap)
            | char => exact (by decide : 1 ≤ textRoom)
            | string => exact (h _).1
            | pointer => exact hconversion.elim
            | percent => exact hconversion.elim
          show (d.plain env ap ++ _).length ≤ _
          rw [List.length_append]
          omega

/-- Literals have no values. -/
theorem itemsValues_stretch (env : Env) (text : String) (items : List Item) (ap : ℕ) :
    itemsValues env (stretch text ++ items) ap = itemsValues env items ap :=
  stretch_keeps (P := fun front => itemsValues env front ap = itemsValues env items ap)
    (fun _ _ _ h => h) text rfl

/-- What is left to the build is not printed. -/
theorem itemsPlain_build (build build' : Build) (args : List PrintArg) (items : List Item)
    (ap : ℕ) :
    itemsPlain (printEnv build args) items ap = itemsPlain (printEnv build' args) items ap := by
  induction items generalizing ap with
  | nil => rfl
  | cons i items ih =>
      cases i with
      | literal c hc => exact congrArg (List.cons c) (ih ap)
      | directive d => exact congrArg (d.plain (printEnv build args) ap ++ ·) (ih (ap + 1))

/-- Nor does it matter to what is converted. -/
theorem noOverflow_build {build : Build} (build' : Build) {args : List PrintArg}
    {items : List Item} {ap : ℕ} (h : NoOverflow (printEnv build args) items ap) :
    NoOverflow (printEnv build' args) items ap := by
  induction items generalizing ap with
  | nil => trivial
  | cons i items ih =>
      cases i with
      | literal c hc => exact @ih ap h
      | directive d => exact ⟨h.1, ih h.2⟩

/-- Nor to where the strings end. -/
theorem stringsEnd_build {build : Build} (build' : Build) {args : List PrintArg}
    {items : List Item} {ap : ℕ} (h : StringsEnd (printEnv build args) items ap) :
    StringsEnd (printEnv build' args) items ap := by
  induction items generalizing ap with
  | nil => trivial
  | cons i items ih =>
      cases i with
      | literal c hc => exact @ih ap h
      | directive d => exact ⟨h.1, ih h.2⟩

namespace Format

variable (F : Format) {args : List PrintArg}

/-- A call whose strings end where the format says prints its text, if that is plain. -/
theorem print_of_plain (build : Screen → Build) (s : Screen)
    (hends : StringsEnd (printEnv ⟨fun _ => 0, 0⟩ args) F.items 0) (hints : F.NoOverflow args)
    (hplain : Plain (F.text args)) :
    F.print build s args = .ok (runCalls s (textCalls (F.text args))) :=
  have htext := Stdio.itemsText_plain (printEnv (build s) args) F.delimited 0
    (stringsEnd_build _ hends) (noOverflow_build _ hints)
  printf_plain (htext.trans (itemsPlain_build _ _ args F.items 0)) hplain (build s).stack s

/-- The text of such a call reads back. -/
theorem read_of_ends (hends : StringsEnd (printEnv ⟨fun _ => 0, 0⟩ args) F.items 0)
    (rest : List Byte) : F.read (F.text args ++ rest) = some (F.values args, rest) :=
  Stdio.readItems_plain _ F.delimited 0 hends rest

theorem text_prints (h : ∀ a ∈ args, a.Ok) : ∀ b ∈ F.text args, PrintsByte b :=
  itemsPlain_prints (fun a b hb => ((printEnv_named h _ a).2 b hb).1) F.fit 0

theorem text_plain (h : ∀ a ∈ args, a.Ok) : Plain (F.text args) where
  length_lt := (length_itemsPlain_le (printEnv_named h _) F.delimited 0).trans_lt F.room_lt
  shown b hb := Or.inr (F.text_prints h b hb)

/-- **A call prints the text.** -/
theorem print_eq (build : Screen → Build) (s : Screen) (h : ∀ a ∈ args, a.Ok)
    (hints : F.NoOverflow args) :
    F.print build s args = .ok (runCalls s (textCalls (F.text args))) :=
  F.print_of_plain build s (stringsEnd_of_named (printEnv_named h _) F.textsEnd 0) hints
    (F.text_plain h)

/-- Calls one after the other print their texts one after the other. -/
theorem print_lines (build : Screen → Build) (s : Screen) {lines : List (List PrintArg)}
    (h : ∀ args ∈ lines, ∀ a ∈ args, a.Ok) (hints : ∀ args ∈ lines, F.NoOverflow args) :
    lines.foldlM (F.print build) s = .ok (runCalls s (textCalls (lines.flatMap F.text))) := by
  induction lines generalizing s with
  | nil => rfl
  | cons args lines ih =>
      obtain ⟨hargs, hlines⟩ := List.forall_mem_cons.mp h
      obtain ⟨hint, hrest⟩ := List.forall_mem_cons.mp hints
      rw [List.foldlM_cons, F.print_eq build s hargs hint, List.flatMap_cons, textCalls_append,
        runCalls_append]
      exact ih _ hlines hrest

/-- **The text reads back as the arguments.** -/
theorem read_text (h : ∀ a ∈ args, a.Ok) (rest : List Byte) :
    F.read (F.text args ++ rest) = some (F.values args, rest) :=
  F.read_of_ends (stringsEnd_of_named (printEnv_named h _) F.textsEnd 0) rest

/-- A format that converts no signed `int` never meets `INT_MIN`. -/
theorem noOverflow (hwide : ∀ i ∈ F.items, Wide i) (args : List PrintArg) : F.NoOverflow args :=
  noOverflow_of_wide _ hwide 0

theorem text_ne_nil (hne : F.items ≠ []) (args : List PrintArg) : F.text args ≠ [] := by
  have hdelimited := F.delimited
  unfold text
  cases hitems : F.items with
  | nil => exact absurd hitems hne
  | cons i items =>
      rw [hitems] at hdelimited
      cases i with
      | literal c hc => exact List.cons_ne_nil _ _
      | directive d =>
          obtain ⟨c, hc, rest, rfl, -⟩ := hdelimited.cases
          exact List.append_ne_nil_of_right_ne_nil _ (List.cons_ne_nil _ _)

/-- **Repetitions of the format read back one after the other**, up to where it ends. -/
theorem readMany_flatMap (hne : F.items ≠ []) {lines : List (List PrintArg)}
    (h : ∀ args ∈ lines, ∀ a ∈ args, a.Ok) {rest : List Byte} (hrest : F.read rest = none) :
    F.readMany (lines.flatMap F.text ++ rest) = (lines.map F.values, rest) :=
  Repeat.many_flatMap (fun args hargs => F.read_text (h args hargs))
    (fun args _ => F.text_ne_nil hne args) hrest

end Format

/-- A message has no arguments to overflow. -/
theorem message_noOverflow {text : String} (h) (args : List PrintArg) :
    (message text h).NoOverflow args :=
  (message text h).noOverflow (stretch_wide text) args

end OsdevX64.Console

import OsdevX64.Console.Printf
import OsdevX64.Console.Tail
import OsdevX64.Stdio.ReadBack

/-!
# Messages

What the kernel and its modules print are short texts of printable characters.  On
these `printf` and the terminal have one effect, **the calls of `terminal_char` for the
characters of the text** (`printf_plain`); the array of `printf` and the sign of a `char`
play no part.

The items of a format are given by its literal stretches (`literals`) and its directives,
and what they print is put together from the lemmas below.
-/

namespace OsdevX64.Console

open ByteMemory
open Stdio (CString Env Fault Item Directive ch formatOf itemsText)

/-! ## Texts -/

/-- The characters of a string. -/
def chars (text : String) : List Byte := text.toList.map ch

/-- A string literal, up to its NUL. -/
def literal (text : String) : CString where
  bytes := untilNul (chars text)
  nul_free := untilNul_ne_zero _

/-- A printable character. -/
def IsPrint (b : Byte) : Prop := 32 ≤ b.toNat ∧ b.toNat ≤ 126

instance (b : Byte) : Decidable (IsPrint b) :=
  inferInstanceAs (Decidable (32 ≤ b.toNat ∧ b.toNat ≤ 126))

/-- A character that a session shows: printable, a backspace or a line feed. -/
def Shown (b : Byte) : Prop := b = 8 ∨ b = 10 ∨ IsPrint b

instance (b : Byte) : Decidable (Shown b) :=
  inferInstanceAs (Decidable (b = 8 ∨ b = 10 ∨ IsPrint b))

/-- A character of a text without backspaces. -/
def PrintsByte (b : Byte) : Prop := b = 10 ∨ IsPrint b

instance (b : Byte) : Decidable (PrintsByte b) := inferInstanceAs (Decidable (b = 10 ∨ IsPrint b))

/-- Print a text. -/
def textCalls (text : List Byte) : List Call := text.map fun b => .char b.toNat

/-- A number in decimal. -/
def decimal (n : ℕ) : List Byte := Stdio.numberText 10 false n

theorem chars_append (text text' : String) : chars (text ++ text') = chars text ++ chars text' := by
  unfold chars
  rw [String.toList_append, List.map_append]

theorem chars_ofList (text : List Char) : chars (String.ofList text) = text.map ch := by
  unfold chars
  rw [String.toList_ofList]

theorem textCalls_append (text text' : List Byte) :
    textCalls (text ++ text') = textCalls text ++ textCalls text' := List.map_append

theorem runCalls_append (s : Screen) (calls calls' : List Call) :
    runCalls s (calls ++ calls') = runCalls (runCalls s calls) calls' := List.foldl_append

/-- Characters below 128 reach the terminal as they are. -/
theorem terminalPrint_eq (s : Screen) {text : CString} (htext : ∀ b ∈ text.bytes, b.toNat < 128) :
    terminalPrint s text = runCalls s (textCalls text.bytes) := by
  unfold terminalPrint runCalls textCalls
  rw [List.foldl_map]
  refine List.foldl_ext _ _ s fun s b hb => ?_
  rw [charArg_eq, if_pos (htext b hb)]
  rfl

/-- A text that `printf` prints as it is. -/
structure Plain (text : List Byte) : Prop where
  length_lt : text.length < printfBufferSize
  shown : ∀ b ∈ text, Shown b

theorem Shown.bounds {b : Byte} (h : Shown b) : b ≠ 0 ∧ b.toNat < 128 := by
  rcases h with rfl | rfl | ⟨hlow, hhigh⟩
  · decide
  · decide
  · exact ⟨fun hzero => absurd (hzero ▸ hlow) (by decide), by omega⟩

theorem IsPrint.ne {b : Byte} (hb : IsPrint b) : b.toNat ≠ 8 ∧ b.toNat ≠ 10 := by
  unfold IsPrint at hb
  omega

theorem textCalls_printsText {text : List Byte} (h : ∀ b ∈ text, PrintsByte b) :
    ∀ call ∈ textCalls text, call.PrintsText := by
  intro call hcall
  obtain ⟨b, hb, rfl⟩ := List.mem_map.mp hcall
  rcases h b hb with rfl | ⟨hlow, hhigh⟩
  · exact Or.inr rfl
  · exact Or.inl ⟨hlow, hhigh⟩

/-- **A plain text is printed character by character.** -/
theorem printf_plain {env : Env} {items : List Item} {text : List Byte}
    (htext : (itemsText env items 0).1 = text) (hplain : Plain text) (stack : Memory ℕ)
    (s : Screen) : printf env stack s (formatOf items) = .ok (runCalls s (textCalls text)) := by
  rw [printf_items htext hplain.length_lt (fun b hb => (hplain.shown b hb).bounds.1),
    terminalPrint_eq s fun b hb => (hplain.shown b hb).bounds.2]

/-! ## Literal stretches -/

/-- Literal characters. -/
def literals (text : List Byte) (h : ∀ b ∈ text, b ≠ 0 ∧ b ≠ ch '%') : List Item :=
  text.pmap (fun b hb => Item.literal b hb) h

theorem formatBytes_literals (text : List Byte) (h : ∀ b ∈ text, b ≠ 0 ∧ b ≠ ch '%') :
    Stdio.formatBytes (literals text h) = text := by
  unfold Stdio.formatBytes literals
  induction text with
  | nil => rfl
  | cons b text ih =>
      rw [List.pmap_cons, List.flatMap_cons, ih]
      rfl

theorem itemsText_literals (env : Env) (text : List Byte) (h : ∀ b ∈ text, b ≠ 0 ∧ b ≠ ch '%')
    (ap : ℕ) : itemsText env (literals text h) ap = (text, ap) := by
  unfold literals
  induction text with
  | nil => rfl
  | cons b text ih =>
      rw [List.pmap_cons, itemsText]
      show (_ ++ (itemsText env (text.pmap _ _) ap).1, (itemsText env (text.pmap _ _) ap).2) = _
      rw [ih]
      rfl

/-! ## Directives -/

/-- `%c`. -/
def charDirective : Directive := ⟨[], .absent, .absent, .char⟩

/-- `%d`. -/
def intDirective : Directive := Stdio.integerDirective [] .absent .none .d

/-- `%s`. -/
def stringDirective : Directive := ⟨[], .absent, .absent, .string⟩

/-- A field without a width is what is in it. -/
theorem pad_none (text : List Byte) :
    Stdio.Layout.pad ⟨0, false, false, false, false⟩ [] text = text := by
  unfold Stdio.Layout.pad
  dsimp only
  rw [if_neg Bool.false_ne_true, if_neg Bool.false_ne_true, Nat.zero_sub]
  rfl

theorem charDirective_text (env : Env) (ap : ℕ) :
    charDirective.text env ap = ([(env.args ap).setWidth 8], ap + 1) := rfl

theorem intDirective_text {env : Env} {ap n : ℕ} (hn : n < 2 ^ 31)
    (harg : env.args ap = BitVec.ofNat 64 n) :
    intDirective.text env ap = (decimal n, ap + 1) := by
  have hvalue : Stdio.IntConversion.value .d .none (env.args ap) = n := by
    show ((env.args ap).setWidth 32).toInt = n
    rw [harg, BitVec.toInt_eq_toNat_of_lt]
    · rw [BitVec.toNat_setWidth, BitVec.toNat_ofNat]
      omega
    · rw [BitVec.toNat_setWidth, BitVec.toNat_ofNat]
      omega
  have hfield : (intDirective.text env ap).1 = _ := Stdio.integerDirective_text env ap
    List.not_mem_nil .absent (by decide) (by decide)
    (fun hover => absurd (hvalue.symm.trans hover.2) (by omega)) (by intro h; cases h)
  refine Prod.ext (hfield.trans ?_) (intDirective.text_snd env ap)
  show Stdio.Layout.field _ .d (Stdio.IntConversion.value .d .none (env.args ap)) = _
  rw [hvalue]
  unfold Stdio.Layout.field Stdio.Layout.sign
  rw [if_neg (Int.not_lt.mpr (Int.natCast_nonneg n))]
  exact pad_none (decimal n)

theorem stringDirective_text {env : Env} {ap : ℕ}
    (hlen : (env.strings (env.args ap)).bytes.length < 2 ^ 32) :
    stringDirective.text env ap = ((env.strings (env.args ap)).bytes, ap + 1) := by
  refine Prod.ext ?_ (stringDirective.text_snd env ap)
  have hlimit := Stdio.string_text_iff env ap [] .absent .absent
  exact (hlimit.mpr (Or.inr (Or.inl hlen))).trans (pad_none _)

theorem decimal_isPrint (n : ℕ) : ∀ b ∈ decimal n, IsPrint b := by
  intro b hb
  obtain ⟨d, hd, rfl⟩ := List.mem_map.mp hb
  have hall : ∀ d < 10, IsPrint (Stdio.digitChar d false) := by decide
  exact hall d (Positional.lt_of_mem_digits (by decide) hd)

theorem length_decimal_le {n : ℕ} (hn : n < 2 ^ 31) : (decimal n).length ≤ 10 := by
  rw [decimal, Stdio.numberText, List.length_map]
  exact Positional.length_digits_le (by decide) (hn.trans (by decide)) (by decide)

theorem decimal_shown (n : ℕ) : ∀ b ∈ decimal n, Shown b :=
  fun b hb => Or.inr (Or.inr (decimal_isPrint n b hb))

end OsdevX64.Console

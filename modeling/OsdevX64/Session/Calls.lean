import OsdevX64.Session.Transcript

/-!
# What the calls of the shell print

`Performs f buffer outs calls`: the calls `outs` of the kernel have the effect of
`calls` on every screen, whatever the build.  There is a lemma for each format
that the shell uses, and **calls one after the other print their texts one after the
other** (`Performs.append`).
-/

namespace OsdevX64.Session

open ByteMemory MachineInt Words Kernel Console
open Stdio (CString Env Item Directive ch formatOf itemsText)
open ShellModule (Shell Arg Output HoldsText isSpace shellBufferSize)

/-- The effect of calls of the kernel. -/
def Performs (f : Frame) (buffer : Memory ℕ) (outs : List Output) (calls : List Call) : Prop :=
  ∀ s : Screen, outs.foldlM (f.perform buffer) s = .ok (runCalls s calls)

section Calls

variable {f : Frame} {buffer : Memory ℕ}

theorem performs_nil : Performs f buffer [] [] := fun _ => rfl

theorem Performs.append {outs outs' : List Output} {calls calls' : List Call}
    (h : Performs f buffer outs calls) (h' : Performs f buffer outs' calls') :
    Performs f buffer (outs ++ outs') (calls ++ calls') := by
  intro s
  rw [List.foldlM_append, h s]
  show outs'.foldlM (f.perform buffer) (runCalls s calls) = _
  rw [h', runCalls, runCalls, runCalls, List.foldl_append]

theorem performs_setColor (fg bg : ℕ) :
    Performs f buffer [.terminalSetColor fg bg] [.setColor fg bg] := fun _ => rfl

/-! ## Texts -/

/-- **One `printf`**, by the items of its format. -/
theorem performs_printf {format : String} {args : List Arg} (items : List Item)
    (hformat : (literal format).bytes = Stdio.formatBytes items) {text : List Byte}
    (htext : ∀ s, (itemsText (f.env s buffer args) items 0).1 = text) (hplain : Plain text) :
    Performs f buffer [.printf format args] (textCalls text) := by
  intro s
  have hliteral : literal format = formatOf items := cString_ext hformat
  show f.perform buffer s (.printf format args) >>= _ = _
  rw [Frame.perform, hliteral, printf_plain (htext s) hplain]
  rfl

/-- A format without directives prints itself. -/
theorem performs_literal {format : String}
    (hformat : ∀ b ∈ chars format, Shown b ∧ b ≠ ch '%')
    (hlen : (chars format).length < printfBufferSize) :
    Performs f buffer [.printf format []] (textCalls (chars format)) := by
  refine performs_printf
    (literals (chars format) fun b hb => ⟨(hformat b hb).1.bounds.1, (hformat b hb).2⟩) ?_
    (fun s => congrArg Prod.fst (itemsText_literals _ _ _ 0))
    ⟨hlen, fun b hb => (hformat b hb).1⟩
  rw [formatBytes_literals]
  exact untilNul_eq_self fun b hb => (hformat b hb).1.bounds.1

/-- The prompt. -/
theorem performs_prompt : Performs f buffer
    [.terminalSetColor terminalGreen terminalBlack, .printf "\nImaginaryOS>" [],
      .terminalSetColor terminalWhite terminalBlack, .printf " " []] promptCalls := by
  have hname : Performs f buffer [.printf "\nImaginaryOS>" []]
      (textCalls (chars "\nImaginaryOS>")) := performs_literal (by decide) (by decide)
  have hblank : Performs f buffer [.printf " " []] (textCalls (chars " ")) :=
    performs_literal (by decide) (by decide)
  exact (((performs_setColor _ _).append hname).append (performs_setColor _ _)).append hblank

/-- The banner is printable rows, none of which holds a directive. -/
theorem banner_chars : ∀ b ∈ chars banner, (b = 10 ∨ IsPrint b) ∧ b ≠ ch '%' := by
  -- row by row: the whole string is too long to evaluate at once
  unfold banner
  simp only [chars_append, List.forall_mem_append, -String.reduceAppend]
  have hend : ∀ b ∈ chars "###########    ###########\n", (b = 10 ∨ IsPrint b) ∧ b ≠ ch '%' := by
    rw [chars_ofList]
    decide
  have hside : ∀ b ∈ chars "###                    ###\n", (b = 10 ∨ IsPrint b) ∧ b ≠ ch '%' := by
    rw [chars_ofList]
    decide
  refine ⟨⟨⟨⟨⟨⟨⟨⟨⟨⟨⟨?_, hend⟩, hend⟩, hside⟩, hside⟩, hside⟩, ?_⟩, hside⟩, hside⟩, hside⟩,
    hend⟩, ?_⟩
  all_goals
    rw [chars_ofList]
    decide

theorem length_banner : (chars banner).length < printfBufferSize := by
  unfold banner
  simp only [chars_append, List.length_append, -String.reduceAppend]
  decide

/-- The greeting. -/
theorem performs_banner : Performs f buffer [.printf banner []] (textCalls (chars banner)) :=
  performs_literal (fun b hb => ⟨Or.inr (banner_chars b hb).1, (banner_chars b hb).2⟩)
    length_banner

/-! ## Formats with arguments -/

/-- The echo of a character. -/
theorem performs_char (n : ℕ) (hn : Shown (BitVec.ofNat 8 n)) :
    Performs f buffer [.printf "%c" [.int n]] (textCalls [BitVec.ofNat 8 n]) := by
  refine performs_printf [.directive charDirective] (by decide) (fun s => ?_)
    ⟨(by decide : 1 < printfBufferSize), fun b hb => List.mem_singleton.mp hb ▸ hn⟩
  rw [itemsText]
  dsimp only
  rw [Stdio.Item.text, charDirective_text, itemsText, List.append_nil]
  show [(BitVec.ofNat 64 n).setWidth 8] = _
  rw [BitVec.setWidth_ofNat_of_le (by decide)]

theorem argcLine_plain {n : ℕ} (hn : n < 2 ^ 31) : Plain (argcLine n) where
  length_lt := by
    have hlen := length_decimal_le hn
    rw [argcLine, List.length_append, List.length_append]
    show 7 + ((decimal n).length + 1) < 1024
    omega
  shown := List.forall_mem_append.mpr ⟨by decide, List.forall_mem_append.mpr
    ⟨decimal_shown n, by decide⟩⟩

/-- The number of words. -/
theorem performs_argc {n : ℕ} (hn : n < 2 ^ 31) :
    Performs f buffer [.printf "argc = %d\n" [.int n]] (textCalls (argcLine n)) := by
  refine performs_printf (literals (chars "argc = ") (by decide) ++
    .directive intDirective :: literals (chars "\n") (by decide)) (by decide) (fun s => ?_)
    (argcLine_plain hn)
  rw [Stdio.itemsText_append, itemsText_literals, itemsText]
  dsimp only
  rw [Stdio.Item.text, intDirective_text hn rfl, itemsText_literals]
  rfl

theorem wordLine_plain {i : ℕ} (hi : i < 2 ^ 31) {word : List Byte}
    (hlen : word.length < shellBufferSize) (hword : ∀ b ∈ word, IsPrint b) :
    Plain (wordLine i word) where
  length_lt := by
    have hdigits := length_decimal_le hi
    have hlen' : word.length < 256 := hlen
    rw [wordLine, List.length_append, List.length_append, List.length_append]
    show (decimal i).length + 2 + word.length + 1 < 1024
    omega
  shown := List.forall_mem_append.mpr ⟨List.forall_mem_append.mpr ⟨List.forall_mem_append.mpr
    ⟨decimal_shown i, by decide⟩, fun b hb => Or.inr (Or.inr (hword b hb))⟩, by decide⟩

/-- **The line of a word**, which is read from the buffer. -/
theorem performs_word {i p : ℕ} (hi : i < 2 ^ 31) (hp : p < 2 ^ 64) {word : List Byte}
    (htext : HoldsText buffer p word) (hlen : word.length < shellBufferSize)
    (hword : ∀ b ∈ word, IsPrint b) :
    Performs f buffer [.printf "%d. %s\n" [.int i, .str p]] (textCalls (wordLine i word)) := by
  refine performs_printf (.directive intDirective :: literals (chars ". ") (by decide) ++
    .directive stringDirective :: literals (chars "\n") (by decide)) (by decide) (fun s => ?_)
    (wordLine_plain hi hlen hword)
  have hstring : (Env.strings (f.env s buffer [.int i, .str p])
      (Env.args (f.env s buffer [.int i, .str p]) 1)).bytes = word := by
    show stringAt buffer shellBufferSize (f.base + BitVec.ofNat 64 p - f.base).toNat = word
    rw [BitVec.add_comm, BitVec.add_sub_cancel, BitVec.toNat_ofNat, Nat.mod_eq_of_lt hp,
      stringAt_eq htext.cells htext.nul hlen]
    exact untilNul_eq_self htext.ne_zero
  rw [Stdio.itemsText_append, itemsText]
  dsimp only
  rw [Stdio.Item.text, intDirective_text hi rfl, itemsText_literals, itemsText]
  dsimp only
  have hsmall : word.length < 2 ^ 32 := hlen.trans (by decide)
  rw [Stdio.Item.text, stringDirective_text (by rw [hstring]; exact hsmall), hstring,
    itemsText_literals, wordLine, List.append_assoc, List.append_assoc, List.append_assoc]

end Calls

end OsdevX64.Session

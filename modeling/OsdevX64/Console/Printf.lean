import Mathlib.Data.List.TakeWhile
import OsdevX64.Console.Lookups
import OsdevX64.Stdio.Arguments
import OsdevX64.Stdio.Truncation

/-!
# `printf`

The kernel's `printf` formats into a local array of 1024 bytes and prints the string
that is then in it.  The array is long enough for 1023 characters, and the string ends
at the first NUL, which may be a character of the text: **what reaches the terminal is
the first line of the text that fits, up to its first NUL** (`printf_prints`), whatever
the array held before.

The loop of `terminal_print` has no bound of its own.  It ends inside the array, since
`vsnprintf` always leaves a NUL there (`stringAt_truncated`).
-/

namespace OsdevX64.Console

open ByteMemory MachineInt
open Stdio (CString Env Fault Item vsnprintf emitted EndsInside Truncated formatOf itemsText)

/-! ## Strings in memory -/

/-- The bytes from `p` up to a NUL, of which at most `room` are looked at. -/
def stringAt (m : Memory ℕ) : ℕ → ℕ → List Byte
  | 0, _ => []
  | room + 1, p => if m p = 0 then [] else m p :: stringAt m room (p + 1)

theorem stringAt_ne_zero (m : Memory ℕ) (room p : ℕ) : ∀ b ∈ stringAt m room p, b ≠ 0 := by
  induction room generalizing p with
  | zero => exact fun b hb => absurd hb List.not_mem_nil
  | succ room ih =>
      intro b hb
      rw [stringAt] at hb
      split_ifs at hb with hnul
      · exact absurd hb List.not_mem_nil
      · rcases List.mem_cons.mp hb with rfl | hb
        · exact hnul
        · exact ih (p + 1) b hb

theorem cString_ext {a b : CString} (h : a.bytes = b.bytes) : a = b := by
  cases a
  cases b
  cases h
  rfl

/-- The string at `p`. -/
def cStringAt (m : Memory ℕ) (room p : ℕ) : CString where
  bytes := stringAt m room p
  nul_free := stringAt_ne_zero m room p

/-- The characters before the first NUL. -/
def untilNul (text : List Byte) : List Byte := text.takeWhile fun b => b ≠ 0

theorem untilNul_ne_zero (text : List Byte) : ∀ b ∈ untilNul text, b ≠ 0 := by
  intro b hb
  exact of_decide_eq_true (List.mem_takeWhile_imp (p := fun b : Byte => b ≠ 0) hb)

theorem untilNul_eq_self {text : List Byte} (h : ∀ b ∈ text, b ≠ 0) : untilNul text = text :=
  List.takeWhile_eq_self_iff.mpr fun b hb => decide_eq_true (h b hb)

/-- **A text with a NUL behind it** is read up to its own first NUL. -/
theorem stringAt_eq {m : Memory ℕ} {room p : ℕ} {text : List Byte}
    (hcells : ∀ k (h : k < text.length), m (p + k) = text[k]) (hnul : m (p + text.length) = 0)
    (hroom : text.length < room) : stringAt m room p = untilNul text := by
  induction text generalizing room p with
  | nil =>
      obtain ⟨room, rfl⟩ := Nat.exists_eq_succ_of_ne_zero (Nat.ne_zero_of_lt hroom)
      exact if_pos hnul
  | cons b text ih =>
      obtain ⟨room, rfl⟩ := Nat.exists_eq_succ_of_ne_zero (Nat.ne_zero_of_lt hroom)
      have hfirst : m p = b := hcells 0 (Nat.succ_pos _)
      have hrest : stringAt m room (p + 1) = untilNul text := by
        refine ih (fun k hk => ?_) ?_ (Nat.lt_of_succ_lt_succ hroom)
        · rw [Nat.add_assoc, Nat.add_comm 1]
          exact hcells (k + 1) (Nat.succ_lt_succ hk)
        · rw [Nat.add_assoc, Nat.add_comm 1]
          exact hnul
      rw [stringAt, hfirst, hrest, untilNul, untilNul, List.takeWhile_cons]
      by_cases hb : b = 0
      · rw [if_pos hb, if_neg (by simpa using hb)]
      · rw [if_neg hb, if_pos (by simpa using hb)]

/-! ## The source -/

/-- `sizeof(buf)` in `printf`. -/
def printfBufferSize : ℕ := 1024

/-- `printf`; `stack` is what the array `buf` holds on entry. -/
def printf (env : Env) (stack : Memory ℕ) (s : Screen) (format : CString) :
    Except Fault Screen := do
  let r ← vsnprintf env (some (Tracked.fresh stack)) printfBufferSize format
  let buf := r.out.buffer.elim stack Tracked.cell
  return terminalPrint s (cStringAt buf printfBufferSize 0)

/-! ## What reaches the terminal -/

/-- What fits into the array, up to the first NUL. -/
def printedText (text : List Byte) : List Byte := untilNul (text.take (printfBufferSize - 1))

theorem printedText_ne_zero (text : List Byte) : ∀ b ∈ printedText text, b ≠ 0 :=
  untilNul_ne_zero _

/-- A short text without a NUL is printed as it is. -/
theorem printedText_eq_self {text : List Byte} (hlen : text.length < printfBufferSize)
    (hnul : ∀ b ∈ text, b ≠ 0) : printedText text = text := by
  unfold printedText
  rw [List.take_of_length_le (Nat.le_sub_one_of_lt hlen), untilNul_eq_self hnul]

/-- **The string in a buffer after a truncated text** ends inside the buffer. -/
theorem stringAt_truncated {text : List Byte} {count : ℕ} (hcount : 1 ≤ count)
    {buffer : Tracked ℕ Byte} (h : Truncated text count buffer) :
    stringAt buffer.cell count 0 = untilNul (text.take (count - 1)) := by
  have hlength : (text.take (count - 1)).length = min text.length (count - 1) := by
    rw [List.length_take, Nat.min_comm]
  refine stringAt_eq (fun k hk => ?_) ?_ ?_
  · rw [hlength] at hk
    rw [Nat.zero_add, List.getElem_take]
    exact h.stored k (by omega) (by omega)
  · rw [Nat.zero_add, hlength]
    exact h.nul hcount
  · rw [hlength]
    omega

/-- A format that ends outside a directive has a text, and `printf` formats it. -/
theorem exists_formatText (env : Env) (format : CString) (hformat : ¬ EndsInside format) :
    Stdio.formatText env (format.bytes.length + 1) format.bytes 0 =
      .ok (emitted env format) := by
  obtain ⟨o, ho⟩ := (Stdio.formatLoop_ends env (Nat.lt_add_one _) format.nul_free
    (Stdio.Out.start none 0) 0).1 hformat
  rw [Stdio.formatLoop_eq] at ho
  cases htext : Stdio.formatText env (format.bytes.length + 1) format.bytes 0 with
  | error fault =>
      rw [htext] at ho
      cases ho
  | ok text =>
      have hemitted : emitted env format = text := by
        unfold emitted Stdio.sprintf
        rw [Stdio.vsnprintfCore_eq htext]
        exact Stdio.puts_sent _ text
      rw [hemitted]

/-- **`printf` prints what fits.** -/
theorem printf_prints (env : Env) (stack : Memory ℕ) (s : Screen) (format : CString)
    (hformat : ¬ EndsInside format) (hlen : (emitted env format).length < 2 ^ 31) :
    printf env stack s format = .ok (terminalPrint s
      ⟨printedText (emitted env format), printedText_ne_zero _⟩) := by
  obtain ⟨buffer, hbuffer, htruncated⟩ :=
    @Stdio.finish_truncated stack printfBufferSize _ hlen
  have hcall : vsnprintf env (some (Tracked.fresh stack)) printfBufferSize format =
      .ok ((Stdio.Out.start (some (Tracked.fresh stack)) printfBufferSize).puts
        (emitted env format)).finish :=
    Stdio.vsnprintfCore_eq (exists_formatText env format hformat) _ _
  have hstring : cStringAt buffer.cell printfBufferSize 0 =
      ⟨printedText (emitted env format), printedText_ne_zero _⟩ :=
    cString_ext (stringAt_truncated (by decide) htruncated)
  unfold printf
  rw [hcall]
  show Except.ok (terminalPrint s (cStringAt (Option.elim _ stack Tracked.cell) _ 0)) = _
  rw [hbuffer]
  exact congrArg (fun text => Except.ok (terminalPrint s text)) hstring

/-- A format made of items does not end inside a directive. -/
theorem not_endsInside_formatOf (items : List Item) : ¬ EndsInside (formatOf items) := by
  intro hends
  have env : Env :=
    ⟨⟨fun _ => 0, 0⟩, fun _ => 0, fun _ => ⟨[], fun _ h => absurd h List.not_mem_nil⟩⟩
  have hloop := (Stdio.formatLoop_ends env (Nat.lt_add_one _) (formatOf items).nul_free
    (Stdio.Out.start none 0) 0).2 hends
  have htext : Stdio.formatText env ((formatOf items).bytes.length + 1) (formatOf items).bytes 0 =
      .ok (itemsText env items 0).1 :=
    Stdio.formatText_items env items (Nat.lt_succ_of_le (Stdio.length_le_formatBytes items)) 0
  rw [Stdio.formatLoop_eq, htext] at hloop
  cases hloop

/-- **A short text without a NUL is printed as it is.** -/
theorem printf_items {env : Env} {items : List Item} {text : List Byte}
    (htext : (itemsText env items 0).1 = text) (hlen : text.length < printfBufferSize)
    (hnul : ∀ b ∈ text, b ≠ 0) (stack : Memory ℕ) (s : Screen) :
    printf env stack s (formatOf items) = .ok (terminalPrint s ⟨text, hnul⟩) := by
  have hemitted : emitted env (formatOf items) = text :=
    (Stdio.emitted_formatOf env items).trans htext
  have hsmall : text.length < 2 ^ 31 := hlen.trans (by decide)
  rw [printf_prints env stack s _ (not_endsInside_formatOf items) (by rwa [hemitted])]
  simp only [hemitted, printedText_eq_self hlen hnul]

end OsdevX64.Console

import OsdevX64.Stdio.Format

/-!
# When the format scan stays inside the string

The source steps over the character in the conversion switch without looking
whether it is the NUL.  So a format that ends inside a conversion specification
takes the pointer beyond it, and **that is the only way** (`scan_iff`).

"Inside a specification" is said by an automaton over the format (`Mode`), which
knows nothing of the scanner.  The proof follows a specification through the
scanner: after each part the automaton is in the mode of that part.
-/

namespace OsdevX64.Stdio

open ByteMemory MachineInt

/-- Where in a format a position is. -/
inductive Mode
  | text
  /-- Behind `%` and flags. -/
  | flags
  /-- In the digits of a width. -/
  | width
  /-- Behind a width. -/
  | afterWidth
  /-- Behind the dot of a precision. -/
  | dot
  /-- In the digits of a precision. -/
  | precision
  /-- Behind a precision. -/
  | afterPrecision
  /-- Behind one `l` or one `h`. -/
  | l
  | h
  /-- Behind a length modifier. -/
  | afterLength
  deriving DecidableEq, Repr

/-- A flag character. -/
def isFlag (c : Byte) : Bool := [ch '0', ch '-', ch '+', ch ' ', ch '#'].contains c

/-- The mode behind the first character that is neither flag, width nor precision. -/
def Mode.length (c : Byte) : Mode :=
  if c = ch 'l' then .l
  else if c = ch 'h' then .h
  else if c = ch 't' ∨ c = ch 'j' ∨ c = ch 'z' then .afterLength
  else .text

/-- The mode behind the first character that is neither flag nor width. -/
def Mode.dotOrLength (c : Byte) : Mode := if c = ch '.' then .dot else Mode.length c

/-- The mode behind one more character.  A character that starts no part of a
specification is its conversion character. -/
def Mode.next : Mode → Byte → Mode
  | .text, c => if c = ch '%' then .flags else .text
  | .flags, c =>
      if isFlag c then .flags
      else if isDigit c then .width
      else if c = ch '*' then .afterWidth
      else Mode.dotOrLength c
  | .width, c => if isDigit c then .width else Mode.dotOrLength c
  | .afterWidth, c => Mode.dotOrLength c
  | .dot, c =>
      if isDigit c then .precision else if c = ch '*' then .afterPrecision else Mode.length c
  | .precision, c => if isDigit c then .precision else Mode.length c
  | .afterPrecision, c => Mode.length c
  | .l, c => if c = ch 'l' then .afterLength else .text
  | .h, c => if c = ch 'h' then .afterLength else .text
  | .afterLength, _ => .text

/-- From a mode the format ends inside a specification. -/
def EndsInsideFrom (m : Mode) (format : List Byte) : Prop := format.foldl Mode.next m ≠ .text

/-- The format ends inside a conversion specification. -/
def EndsInside (format : CString) : Prop := EndsInsideFrom .text format.bytes

instance (m : Mode) (format : List Byte) : Decidable (EndsInsideFrom m format) := by
  unfold EndsInsideFrom
  infer_instance

instance (format : CString) : Decidable (EndsInside format) := by
  unfold EndsInside
  infer_instance

@[simp] theorem endsInsideFrom_cons (m : Mode) (c : Byte) (format : List Byte) :
    EndsInsideFrom m (c :: format) ↔ EndsInsideFrom (m.next c) format := Iff.rfl

/-- The end of a format is inside a specification in every mode but `text`. -/
theorem endsInsideFrom_nil {m : Mode} (hm : m ≠ .text) : EndsInsideFrom m [] := hm

/-! ## The scanning loops -/

/-- The digits of a number keep the automaton in its mode. -/
theorem atoi_ends {m : Mode} (hm : ∀ c, isDigit c = true → m.next c = m) (format : List Byte)
    (i : ℕ) :
    (EndsInsideFrom m format ↔ EndsInsideFrom m (atoi format i).2) ∧
      isDigit (peek (atoi format i).2) = false ∧ (atoi format i).2 <:+ format := by
  induction format generalizing i with
  | nil => exact ⟨Iff.rfl, (by decide : isDigit 0 = false), List.suffix_rfl⟩
  | cons c format ih =>
      rw [atoi]
      cases hc : isDigit c with
      | true =>
          obtain ⟨hends, hpeek, hsuffix⟩ := ih (u32 (u32 (i * 10) + (c.toNat - (ch '0').toNat)))
          rw [if_pos rfl, endsInsideFrom_cons, hm c hc]
          exact ⟨hends, hpeek, hsuffix.trans (List.suffix_cons c format)⟩
      | false =>
          rw [if_neg Bool.false_ne_true]
          exact ⟨Iff.rfl, hc, List.suffix_rfl⟩

/-- The flags keep the automaton in its mode. -/
theorem scanFlags_ends (format : List Byte) (flags : Flags) :
    (EndsInsideFrom .flags format ↔ EndsInsideFrom .flags (scanFlags format flags).2) ∧
      isFlag (peek (scanFlags format flags).2) = false ∧ (scanFlags format flags).2 <:+ format := by
  induction format generalizing flags with
  | nil => exact ⟨Iff.rfl, (by decide : isFlag 0 = false), List.suffix_rfl⟩
  | cons c format ih =>
      have hstep (hflag : isFlag c = true) (flags : Flags) :
          (EndsInsideFrom .flags (c :: format) ↔
            EndsInsideFrom .flags (scanFlags format flags).2) ∧
          isFlag (peek (scanFlags format flags).2) = false ∧
          (scanFlags format flags).2 <:+ c :: format := by
        obtain ⟨hends, hpeek, hsuffix⟩ := ih flags
        rw [endsInsideFrom_cons, Mode.next, if_pos hflag]
        exact ⟨hends, hpeek, hsuffix.trans (List.suffix_cons c format)⟩
      rw [scanFlags]
      split_ifs with h0 h1 h2 h3 h4
      · exact hstep (by rw [h0]; decide) _
      · exact hstep (by rw [h1]; decide) _
      · exact hstep (by rw [h2]; decide) _
      · exact hstep (by rw [h3]; decide) _
      · exact hstep (by rw [h4]; decide) _
      · refine ⟨Iff.rfl, ?_, List.suffix_rfl⟩
        simp [isFlag, peek, h0, h1, h2, h3, h4]

/-! ## The parts of a specification -/

/-- A part of the scan that succeeds, leaves a suffix and takes the automaton
from one mode to another. -/
def Scans (m m' : Mode) (scan : Except Fault (Spec × List Byte)) (format : List Byte) : Prop :=
  ∃ spec rest, scan = .ok (spec, rest) ∧ rest <:+ format ∧
    (EndsInsideFrom m format ↔ EndsInsideFrom m' rest)

/-- Where two modes go on alike, they end alike. -/
theorem endsInsideFrom_congr {m m' : Mode} {format : List Byte} (hm : m ≠ .text) (hm' : m' ≠ .text)
    (h : ∀ c rest, format = c :: rest → m.next c = m'.next c) :
    EndsInsideFrom m format ↔ EndsInsideFrom m' format := by
  cases format with
  | nil => exact iff_of_true (endsInsideFrom_nil hm) (endsInsideFrom_nil hm')
  | cons c rest => rw [endsInsideFrom_cons, endsInsideFrom_cons, h c rest rfl]

/-- What is peeked and is not the NUL is there. -/
theorem eq_cons_of_peek {format : List Byte} {c : Byte} (h : peek format = c) (hc : c ≠ 0) :
    ∃ rest, format = c :: rest := by
  cases format with
  | nil => exact absurd h.symm hc
  | cons a rest =>
      obtain rfl : a = c := h
      exact ⟨rest, rfl⟩

theorem scanWidth_scans (env : Env) (spec : Spec) (format : List Byte)
    (hflag : isFlag (peek format) = false) :
    Scans .flags .afterWidth (scanWidth env spec format) format := by
  unfold scanWidth
  split_ifs with hdigit hstar
  · obtain ⟨hends, hpeek, hsuffix⟩ := atoi_ends (m := .width) (fun c hc => if_pos hc) format 0
    refine ⟨_, _, rfl, hsuffix, ?_⟩
    -- from the first digit on the two modes agree; behind the last one they agree again
    have hflags : EndsInsideFrom .flags format ↔ EndsInsideFrom .width format := by
      refine endsInsideFrom_congr (by decide) (by decide) fun c rest hformat => ?_
      rw [hformat] at hflag hdigit
      simp only [peek, List.headD_cons] at hflag hdigit
      simp [Mode.next, hflag, hdigit]
    have hwidth : EndsInsideFrom .width (atoi format 0).2 ↔
        EndsInsideFrom .afterWidth (atoi format 0).2 := by
      refine endsInsideFrom_congr (by decide) (by decide) fun c rest hformat => ?_
      rw [hformat] at hpeek
      simp only [peek, List.headD_cons] at hpeek
      simp [Mode.next, hpeek]
    exact hflags.trans (hends.trans hwidth)
  · obtain ⟨rest, rfl⟩ := eq_cons_of_peek hstar (by decide)
    refine ⟨_, rest, rfl, List.suffix_cons _ _, ?_⟩
    rw [endsInsideFrom_cons, show Mode.next .flags (ch '*') = .afterWidth by decide]
  · refine ⟨_, _, rfl, List.suffix_rfl, ?_⟩
    refine endsInsideFrom_congr (by decide) (by decide) fun c rest hformat => ?_
    rw [hformat] at hflag hdigit hstar
    simp only [peek, List.headD_cons] at hflag hdigit hstar
    simp [Mode.next, hflag, hdigit, hstar]

theorem scanPrecision_scans (env : Env) (spec : Spec) (format : List Byte) :
    Scans .afterWidth .afterPrecision (scanPrecision env spec format) format := by
  unfold scanPrecision
  split_ifs with hdot
  · obtain ⟨rest, rfl⟩ := eq_cons_of_peek hdot (by decide)
    show Scans _ _ (if isDigit (peek rest) then _ else _) _
    have hdot' : EndsInsideFrom .afterWidth (ch '.' :: rest) ↔ EndsInsideFrom .dot rest := by
      rw [endsInsideFrom_cons, show Mode.next .afterWidth (ch '.') = .dot by decide]
    split_ifs with hdigit hstar
    · obtain ⟨hends, hpeek, hsuffix⟩ := atoi_ends (m := .precision) (fun c hc => if_pos hc) rest 0
      refine ⟨_, _, rfl, hsuffix.trans (List.suffix_cons _ _), ?_⟩
      have hprecision : EndsInsideFrom .dot rest ↔ EndsInsideFrom .precision rest := by
        refine endsInsideFrom_congr (by decide) (by decide) fun c rest hformat => ?_
        rw [hformat] at hdigit
        simp only [peek, List.headD_cons] at hdigit
        simp [Mode.next, hdigit]
      have hafter : EndsInsideFrom .precision (atoi rest 0).2 ↔
          EndsInsideFrom .afterPrecision (atoi rest 0).2 := by
        refine endsInsideFrom_congr (by decide) (by decide) fun c rest hformat => ?_
        rw [hformat] at hpeek
        simp only [peek, List.headD_cons] at hpeek
        simp [Mode.next, hpeek]
      exact hdot'.trans (hprecision.trans (hends.trans hafter))
    · obtain ⟨rest, rfl⟩ := eq_cons_of_peek hstar (by decide)
      refine ⟨_, rest, rfl, ⟨[ch '.', ch '*'], rfl⟩, hdot'.trans ?_⟩
      rw [endsInsideFrom_cons, show Mode.next .dot (ch '*') = .afterPrecision by decide]
    · refine ⟨_, rest, rfl, List.suffix_cons _ _, hdot'.trans ?_⟩
      refine endsInsideFrom_congr (by decide) (by decide) fun c rest hformat => ?_
      rw [hformat] at hdigit hstar
      simp only [peek, List.headD_cons] at hdigit hstar
      simp [Mode.next, hdigit, hstar]
  · refine ⟨_, _, rfl, List.suffix_rfl, ?_⟩
    refine endsInsideFrom_congr (by decide) (by decide) fun c rest hformat => ?_
    rw [hformat] at hdot
    simp only [peek, List.headD_cons] at hdot
    simp [Mode.next, Mode.dotOrLength, hdot]

/-- A letter that may be doubled. -/
theorem doubled_ends {m : Mode} {a : Byte} (hm : m ≠ .text)
    (hnext : ∀ c, m.next c = if c = a then .afterLength else .text) (rest : List Byte) :
    (peek rest = a → a ≠ 0 → ∃ rest', rest = a :: rest' ∧
      (EndsInsideFrom m rest ↔ EndsInsideFrom .afterLength rest')) ∧
    (peek rest ≠ a → (EndsInsideFrom m rest ↔ EndsInsideFrom .afterLength rest)) := by
  constructor
  · intro hpeek ha
    obtain ⟨rest', rfl⟩ := eq_cons_of_peek hpeek ha
    refine ⟨rest', rfl, ?_⟩
    rw [endsInsideFrom_cons, hnext, if_pos rfl]
  · intro hpeek
    refine endsInsideFrom_congr hm (by decide) fun c rest' hformat => ?_
    rw [hformat] at hpeek
    have hca : ¬ c = a := hpeek
    rw [hnext, if_neg hca]
    rfl

theorem scanLength_scans (spec : Spec) (format : List Byte) :
    Scans .afterPrecision .afterLength (scanLength spec format) format := by
  unfold scanLength
  dsimp only
  split_ifs with hl hh hother
  · obtain ⟨rest, rfl⟩ := eq_cons_of_peek hl (by decide)
    obtain ⟨htwo, hone⟩ := doubled_ends (m := .l) (by decide) (fun _ => rfl) rest
    show Scans _ _ (if peek rest = ch 'l' then _ else _) _
    split_ifs with hll
    · obtain ⟨rest', rfl, hends⟩ := htwo hll (by decide)
      exact ⟨_, rest', rfl, ⟨[ch 'l', ch 'l'], rfl⟩, hends⟩
    · exact ⟨_, rest, rfl, List.suffix_cons _ _, hone hll⟩
  · obtain ⟨rest, rfl⟩ := eq_cons_of_peek hh (by decide)
    obtain ⟨htwo, hone⟩ := doubled_ends (m := .h) (by decide) (fun _ => rfl) rest
    show Scans _ _ (if peek rest = ch 'h' then _ else _) _
    split_ifs with hhh
    · obtain ⟨rest', rfl, hends⟩ := htwo hhh (by decide)
      exact ⟨_, rest', rfl, ⟨[ch 'h', ch 'h'], rfl⟩, hends⟩
    · exact ⟨_, rest, rfl, List.suffix_cons _ _, hone hhh⟩
  · obtain ⟨rest, hformat⟩ := eq_cons_of_peek (c := peek format) rfl
      (by rcases hother with h | h | h <;> rw [h] <;> decide)
    rw [hformat]
    refine ⟨_, rest, rfl, List.suffix_cons _ _, ?_⟩
    rw [endsInsideFrom_cons]
    have hnext : Mode.next .afterPrecision (peek format) = .afterLength := by
      simp [Mode.next, Mode.length, hl, hh, hother]
    rw [hnext]
  · refine ⟨_, _, rfl, List.suffix_rfl, ?_⟩
    refine endsInsideFrom_congr (by decide) (by decide) fun c rest hformat => ?_
    rw [hformat] at hl hh hother
    simp only [peek, List.headD_cons] at hl hh hother
    simp [Mode.next, Mode.length, hl, hh, hother]

/-- **A specification is scanned without leaving the format**, and what is left
starts with the conversion character. -/
theorem scanSpec_scans (env : Env) (format : List Byte) (ap : ℕ) :
    Scans .flags .afterLength (scanSpec env format ap) format := by
  obtain ⟨hflags, hpeek, hsuffix⟩ := scanFlags_ends format {}
  obtain ⟨spec₁, rest₁, hscan₁, hsuffix₁, hends₁⟩ := scanWidth_scans env
    ⟨(scanFlags format {}).1, 0, 0, ap⟩ (scanFlags format {}).2 hpeek
  obtain ⟨spec₂, rest₂, hscan₂, hsuffix₂, hends₂⟩ := scanPrecision_scans env spec₁ rest₁
  obtain ⟨spec₃, rest₃, hscan₃, hsuffix₃, hends₃⟩ := scanLength_scans spec₂ rest₂
  -- each part takes over in the mode in which the one before left
  refine ⟨spec₃, rest₃, ?_, hsuffix₃.trans (hsuffix₂.trans (hsuffix₁.trans hsuffix)),
    hflags.trans (hends₁.trans (hends₂.trans hends₃))⟩
  unfold scanSpec
  dsimp only
  rw [hscan₁]
  show scanPrecision env spec₁ rest₁ >>= _ = _
  rw [hscan₂]
  exact hscan₃

/-! ## The loop -/

section Loop

variable (env : Env) (fuel : ℕ) (o : Out) (ap : ℕ)

@[simp] theorem formatLoop_nil : formatLoop env (fuel + 1) o [] ap = .ok o := rfl

/-- A literal character. -/
theorem formatLoop_literal {c : Byte} (hc : c ≠ 0) (hpercent : c ≠ ch '%') (rest : List Byte) :
    formatLoop env (fuel + 1) o (c :: rest) ap = formatLoop env fuel (o.put c) rest ap := by
  rw [formatLoop, if_neg (show ¬ peek (c :: rest) = 0 from hc),
    if_pos (show peek (c :: rest) ≠ ch '%' from hpercent)]
  rfl

theorem percent_ne_zero : ch '%' ≠ 0 := by decide

/-- A conversion specification. -/
theorem formatLoop_spec {spec : Spec} {c : Byte} {rest rest' : List Byte}
    (hscan : scanSpec env rest ap = .ok (spec, c :: rest')) :
    formatLoop env (fuel + 1) o (ch '%' :: rest) ap =
      formatLoop env fuel (convert env o spec c).1 rest' (convert env o spec c).2 := by
  rw [formatLoop, if_neg (show ¬ peek (ch '%' :: rest) = 0 from percent_ne_zero),
    if_neg (show ¬ peek (ch '%' :: rest) ≠ ch '%' from not_not_intro rfl)]
  show (scanSpec env rest ap >>= _) = _
  rw [hscan]
  rfl

/-- A conversion specification without a conversion character. -/
theorem formatLoop_overrun {spec : Spec} {rest : List Byte}
    (hscan : scanSpec env rest ap = .ok (spec, [])) :
    formatLoop env (fuel + 1) o (ch '%' :: rest) ap = .error .overrun := by
  rw [formatLoop, if_neg (show ¬ peek (ch '%' :: rest) = 0 from percent_ne_zero),
    if_neg (show ¬ peek (ch '%' :: rest) ≠ ch '%' from not_not_intro rfl)]
  show (scanSpec env rest ap >>= _) = _
  rw [hscan]
  rfl

end Loop

/-- **The loop over a format**: it ends, unless the format ends inside a
specification, and then it overruns. -/
theorem formatLoop_ends (env : Env) {fuel : ℕ} {format : List Byte}
    (hfuel : format.length < fuel) (hnul : ∀ b ∈ format, b ≠ 0) (o : Out) (ap : ℕ) :
    (¬ EndsInsideFrom .text format → ∃ o', formatLoop env fuel o format ap = .ok o') ∧
      (EndsInsideFrom .text format → formatLoop env fuel o format ap = .error .overrun) := by
  induction fuel generalizing format o ap with
  | zero => omega
  | succ fuel ih =>
      cases format with
      | nil => exact ⟨fun _ => ⟨o, rfl⟩, fun h => absurd rfl h⟩
      | cons c rest =>
          rw [List.length_cons] at hfuel
          have hrest : ∀ b ∈ rest, b ≠ 0 := fun b hb => hnul b (List.mem_cons_of_mem _ hb)
          rw [endsInsideFrom_cons]
          by_cases hpercent : c = ch '%'
          · rw [hpercent, show Mode.next .text (ch '%') = .flags by decide]
            obtain ⟨spec, rest', hscan, hsuffix, hends⟩ := scanSpec_scans env rest ap
            rw [hends]
            cases rest' with
            | nil =>
                have hinside : EndsInsideFrom .afterLength [] := endsInsideFrom_nil (by decide)
                exact ⟨fun h => absurd hinside h, fun _ => formatLoop_overrun env fuel o ap hscan⟩
            | cons c' rest' =>
                have hlen := hsuffix.length_le
                rw [List.length_cons] at hlen
                rw [formatLoop_spec env fuel o ap hscan, endsInsideFrom_cons]
                exact ih (by omega) (fun b hb => hrest b (hsuffix.subset
                  (List.mem_cons_of_mem _ hb))) _ _
          · rw [formatLoop_literal env fuel o ap (hnul c List.mem_cons_self) hpercent,
              show Mode.next .text c = .text from if_neg hpercent]
            exact ih (by omega) hrest (o.put c) ap

/-- **The format is scanned inside the string** exactly when it does not end
inside a conversion specification; otherwise the pointer moves beyond the NUL. -/
theorem scan_iff (env : Env) (buffer : Option (Tracked ℕ Byte)) (count : ℕ) (format : CString) :
    ((∃ r, vsnprintf env buffer count format = .ok r) ↔ ¬ EndsInside format) ∧
      (EndsInside format → vsnprintf env buffer count format = .error .overrun) := by
  obtain ⟨hends, hoverrun⟩ := formatLoop_ends env (Nat.lt_add_one format.bytes.length)
    format.nul_free (Out.start buffer count) 0
  have hfault : EndsInside format → vsnprintf env buffer count format = .error .overrun := by
    intro h
    unfold vsnprintf vsnprintfCore
    rw [hoverrun h]
    rfl
  refine ⟨⟨fun ⟨r, hr⟩ h => ?_, fun h => ?_⟩, hfault⟩
  · rw [hfault h] at hr
    cases hr
  · obtain ⟨o, ho⟩ := hends h
    unfold vsnprintf vsnprintfCore
    rw [ho]
    exact ⟨_, rfl⟩

/-- The format `%`. -/
def percent : CString := ⟨[ch '%'], by decide⟩

/-- On the format `%` the pointer moves beyond the NUL. -/
theorem percent_overruns :
    ¬ ∀ (env : Env) (buffer : Option (Tracked ℕ Byte)) (count : ℕ) (format : CString),
      ∃ r, vsnprintf env buffer count format = .ok r := by
  intro h
  obtain ⟨r, hr⟩ := h ⟨⟨fun _ => 0, 0⟩, fun _ => 0, fun _ => ⟨[], by decide⟩⟩ none 0 percent
  cases hr

end OsdevX64.Stdio

import OsdevX64.Stdio.Precision

/-!
# Alternate and binary forms

The conversions of unsigned types without a precision, with or without `#`.  The source
makes room for the prefix by taking characters back whenever the buffer is as long as the
width, as if these were zeros of the padding, and a binary number may have more digits
than the buffer.  So **no digit is lost exactly if there are at most 32 and, under `#`,
the width is not the number of digits, nor one more where a hexadecimal number is padded
with zeros** (`alternate_denotes_iff`).

The prefix needs room as well: behind 31 binary digits there is room for its letter and
none for its zero.

`digitsRead` reads a text by its digits alone; `Denotes` asks for the whole form, with
blanks, a prefix or none, and digits.
-/

namespace OsdevX64.Stdio

open ByteMemory MachineInt

/-! ## Reference -/

/-- The digit of a base that a character stands for. -/
def digitOf (base : ℕ) (c : Byte) : Option ℕ := (digitValue c).filter (· < base)

/-- The number that the digits of a text stand for, whatever else is in it. -/
def digitsRead (base : ℕ) (text : List Byte) : ℕ :=
  Positional.value base (text.filterMap (digitOf base))

/-- The letter of a base. -/
def IntConversion.letter : IntConversion → List Byte
  | .x => [ch 'x']
  | .X => [ch 'X']
  | .b => [ch 'b']
  | _ => []

/-- The prefix under `#`. -/
def IntConversion.alternate (c : IntConversion) : List Byte := ch '0' :: c.letter

/-- A text that is a number: blanks, a prefix or none, digits, blanks. -/
def Denotes (c : IntConversion) (text : List Byte) (v : ℕ) : Prop :=
  ∃ i k front ds, (front = [] ∨ front = c.alternate) ∧ (∀ d ∈ ds, d < c.base) ∧
    Positional.value c.base ds = v ∧
      text = List.replicate i (ch ' ') ++ (front ++ (digitsText c ds ++ List.replicate k (ch ' ')))

/-- The `n` digits fit into the buffer and `#` takes none of them back. -/
def KeepsDigits (l : Layout) (base : ℕ) (hash : Bool) (n : ℕ) : Prop :=
  n ≤ 32 ∧ (hash = true → l.width ≠ n ∧
    ¬ (base = 16 ∧ l.zero = true ∧ l.left = false ∧ l.width = n + 1))

/-- A binary number with 31 digits and zeros in the buffer, when `#` adds its prefix. -/
def SplitsPrefix (l : Layout) (base : ℕ) (hash : Bool) (n : ℕ) : Prop :=
  hash = true ∧ base = 2 ∧
    if l.zero && !l.left then l.width = 32 ∨ n = 31 ∧ l.width < 31 else n = 31

instance (l : Layout) (base : ℕ) (hash : Bool) (n : ℕ) : Decidable (KeepsDigits l base hash n) :=
  inferInstanceAs (Decidable (_ ∧ _))

instance (l : Layout) (base : ℕ) (hash : Bool) (n : ℕ) : Decidable (SplitsPrefix l base hash n) :=
  inferInstanceAs (Decidable (_ ∧ _ ∧ if l.zero && !l.left then _ else _))

/-! ## Reading -/

theorem digitOf_digitChar {base digit : ℕ} (hbase : base ≤ 16) (h : digit < base)
    (uppercase : Bool) : digitOf base (digitChar digit uppercase) = some digit := by
  rw [digitOf, digitValue_digitChar (h.trans_le hbase), Option.filter_some,
    if_pos (decide_eq_true h)]

theorem filterMap_blanks (base k : ℕ) :
    (List.replicate k (ch ' ')).filterMap (digitOf base) = [] := by
  rw [List.filterMap_replicate_of_none (by rfl)]

theorem filterMap_digits {c : IntConversion} {ds : List ℕ} (hds : ∀ d ∈ ds, d < c.base) :
    (digitsText c ds).filterMap (digitOf c.base) = ds := by
  induction ds with
  | nil => rfl
  | cons d ds ih =>
      rw [digitsText, List.map_cons, List.filterMap_cons,
        digitOf_digitChar c.base_bounds.2 (hds d List.mem_cons_self)]
      exact congrArg (d :: ·) (ih fun e he => hds e (List.mem_cons_of_mem d he))

/-- Zeros and what is no digit do not count in front of digits. -/
theorem digitsRead_around {c : IntConversion} {ds : List ℕ} (hds : ∀ d ∈ ds, d < c.base)
    {front : List Byte} {j : ℕ} (hfront : front.filterMap (digitOf c.base) = List.replicate j 0)
    (i k : ℕ) :
    digitsRead c.base (List.replicate i (ch ' ') ++
      (front ++ (digitsText c ds ++ List.replicate k (ch ' ')))) = Positional.value c.base ds := by
  rw [digitsRead, List.filterMap_append, List.filterMap_append, List.filterMap_append,
    filterMap_blanks, filterMap_blanks, filterMap_digits hds, hfront, List.nil_append,
    List.append_nil, Positional.value_zeros]

/-- What denotes a number reads as the number. -/
theorem Denotes.digitsRead_eq {c : IntConversion} {text : List Byte} {v : ℕ}
    (h : Denotes c text v) : digitsRead c.base text = v := by
  obtain ⟨i, k, front, ds, hfront, hds, rfl, rfl⟩ := h
  have hzeros : ∃ j, front.filterMap (digitOf c.base) = List.replicate j 0 := by
    rcases hfront with rfl | rfl
    · exact ⟨0, rfl⟩
    · refine ⟨1, ?_⟩
      cases c <;> rfl
  obtain ⟨j, hj⟩ := hzeros
  exact digitsRead_around hds hj i k

/-- Two texts that are the same have the same first character behind their blanks. -/
theorem first_after_blanks {i i' : ℕ} {c c' : Byte} {t t' : List Byte} (hc : c ≠ ch ' ')
    (hc' : c' ≠ ch ' ')
    (h : List.replicate i (ch ' ') ++ c :: t = List.replicate i' (ch ' ') ++ c' :: t') :
    c = c' := by
  have hdrop (k : ℕ) {b : Byte} (hb : b ≠ ch ' ') (rest : List Byte) :
      (List.replicate k (ch ' ') ++ b :: rest).dropWhile (· = ch ' ') = b :: rest := by
    induction k with
    | zero => exact List.dropWhile_cons_of_neg (by simpa using hb)
    | succ k ih => exact ih
  have hrest := congrArg (List.dropWhile (· = ch ' ')) h
  rw [hdrop i hc, hdrop i' hc'] at hrest
  exact (List.cons.inj hrest).1

/-- A number does not begin with the letter of base 2. -/
theorem not_denotes_letter (i : ℕ) (t : List Byte) {v : ℕ} (hv : v ≠ 0) :
    ¬ Denotes .b (List.replicate i (ch ' ') ++ ch 'b' :: t) v := by
  rintro ⟨i', k, front, ds, hfront, hds, hvalue, htext⟩
  rcases hfront with rfl | rfl
  · cases ds with
    | nil => exact hv hvalue.symm
    | cons d ds =>
        have hd : ∀ d < 2, digitChar d false ≠ ch ' ' ∧ ch 'b' ≠ digitChar d false := by decide
        obtain ⟨hblank, hletter⟩ := hd d (hds d List.mem_cons_self)
        exact hletter (first_after_blanks (by decide) hblank htext)
  · exact absurd (first_after_blanks (by decide) (by decide) htext) (by decide)

/-! ## What the source stores -/

/-- The length of the buffer after the padding with zeros. -/
def paddedLength (l : Layout) (n : ℕ) : ℕ :=
  if l.zero && !l.left then max (min n ntoaBufferSize) (min l.width ntoaBufferSize)
  else min n ntoaBufferSize

/-- What is left of it when `#` has taken characters back. -/
def keptLength (l : Layout) (base : ℕ) (hash : Bool) (n : ℕ) : ℕ :=
  let len := paddedLength l n
  if hash && len = l.width then (if len - 1 ≠ 0 && base = 16 then len - 2 else len - 1) else len

/-- The prefix that fits behind `len` characters, in the order in which it is stored. -/
def storedFront (c : IntConversion) (hash : Bool) (len : ℕ) : List Byte :=
  if hash then
    let letter := if len < ntoaBufferSize then c.letter else []
    letter ++ if len + letter.length < ntoaBufferSize then [ch '0'] else []
  else []

theorem paddedLength_le (l : Layout) (n : ℕ) : paddedLength l n ≤ 32 := by
  unfold paddedLength ntoaBufferSize
  split_ifs <;> omega

theorem keptLength_le (l : Layout) (base : ℕ) (hash : Bool) (n : ℕ) :
    keptLength l base hash n ≤ paddedLength l n := by
  unfold keptLength
  dsimp only
  split_ifs <;> omega

theorem Digits.stored_pushRoom_eq (d : Digits) (c : Byte) :
    (d.pushRoom c).stored = d.stored ++ if d.len < ntoaBufferSize then [c] else [] := by
  by_cases hroom : d.len < ntoaBufferSize
  · rw [if_pos hroom, stored_pushRoom hroom]
  · rw [if_neg hroom, pushRoom, if_neg hroom, List.append_nil]

/-- Taking characters back leaves the first ones. -/
theorem Digits.stored_truncate (d : Digits) {len : ℕ} (hlen : len ≤ d.len) :
    ({ d with len := len } : Digits).stored = d.stored.take len := by
  unfold stored
  rw [← List.map_take, List.take_range, Nat.min_eq_left hlen]

theorem padZeros_unsigned (d : Digits) (width : ℕ) {flags : Flags} (hplus : flags.plus = false)
    (hspace : flags.space = false) :
    padZeros d false 0 width flags =
      (d.pushMany (ch '0')
        (if flags.zeropad && !flags.left then min width ntoaBufferSize - d.len else 0), width) := by
  unfold padZeros
  rw [hplus, hspace]
  cases flags.left with
  | true => simp [Digits.pushMany]
  | false => cases flags.zeropad <;> simp [Digits.pushMany]

theorem takeBack_eq {d : Digits} (hlen : d.len ≠ 0) (base width : ℕ) {flags : Flags}
    (hprecision : flags.precision = false) :
    takeBack d base 0 width flags =
      { d with len :=
          if d.len = width then (if d.len - 1 ≠ 0 && base = 16 then d.len - 2 else d.len - 1)
          else d.len } := by
  unfold takeBack
  rw [hprecision]
  by_cases hwidth : d.len = width
  · rw [if_pos (by simp [hlen, ← hwidth]), if_pos hwidth]
    dsimp only
    split_ifs
    · rfl
    · rfl
  · rw [if_neg (by simp [hlen, hwidth]), if_neg hwidth]

theorem stored_addBaseLetter (d : Digits) (c : IntConversion) {flags : Flags}
    (hupper : flags.uppercase = decide (c = .X)) :
    (addBaseLetter d c.base flags).stored =
      d.stored ++ if d.len < ntoaBufferSize then c.letter else [] := by
  unfold addBaseLetter
  rw [hupper]
  cases c with
  | x => exact d.stored_pushRoom_eq (ch 'x')
  | X => exact d.stored_pushRoom_eq (ch 'X')
  | b => exact d.stored_pushRoom_eq (ch 'b')
  | d | i | u | o =>
      simp [IntConversion.base, IntConversion.letter]

/-- **The prefix takes the place of what is taken back.** -/
theorem stored_addPrefix {d : Digits} {l : Layout} {n : ℕ} (hlen : d.len = paddedLength l n)
    (hne : d.len ≠ 0) {c : IntConversion} {hash : Bool} {flags : Flags}
    (hhash : flags.hash = hash) (hprecision : flags.precision = false)
    (hupper : flags.uppercase = decide (c = .X)) :
    (addPrefix d c.base 0 l.width flags).stored =
      d.stored.take (keptLength l c.base hash n) ++
        storedFront c hash (keptLength l c.base hash n) := by
  have hkept := keptLength_le l c.base hash n
  unfold addPrefix storedFront
  rw [hhash]
  cases hash with
  | false =>
      have hall : keptLength l c.base false n = d.len := hlen.symm
      rw [if_neg Bool.false_ne_true, if_neg Bool.false_ne_true, hall, List.append_nil,
        List.take_of_length_le d.length_stored.le]
  | true =>
      rw [if_pos rfl, if_pos rfl, takeBack_eq hne c.base l.width hprecision]
      have hlength : (if d.len = l.width then
          (if (d.len - 1 ≠ 0 && c.base = 16) = true then d.len - 2 else d.len - 1) else d.len) =
            keptLength l c.base true n := by
        unfold keptLength
        simp only [Bool.true_and, decide_eq_true_eq, hlen]
      rw [hlength]
      have hstored := d.stored_truncate (hkept.trans_eq hlen.symm)
      generalize hm : keptLength l c.base true n = m at *
      have hletter := stored_addBaseLetter { d with len := m } c hupper
      have hletterLen : (addBaseLetter { d with len := m } c.base flags).len =
          m + (if m < ntoaBufferSize then c.letter else []).length := by
        rw [← Digits.length_stored, hletter, List.length_append, Digits.length_stored]
      dsimp only
      rw [Digits.stored_pushRoom_eq, hletter, hletterLen, hstored, List.append_assoc]

/-- A text is sent with blanks around it, if any. -/
theorem outRevText_around (d : Digits) (width : ℕ) (flags : Flags) :
    ∃ i k, outRevText d width flags =
      List.replicate i (ch ' ') ++ (d.stored.reverse ++ List.replicate k (ch ' ')) := by
  unfold outRevText
  rw [d.text_eq, List.append_assoc]
  cases flags.left with
  | true => exact ⟨0, width - d.len, by simp⟩
  | false =>
      cases flags.zeropad with
      | true => exact ⟨0, 0, by simp⟩
      | false => exact ⟨width - d.len, 0, by simp⟩

/-- **`_ntoa_long` without a sign and without a precision**: of the digits and the zeros as
many as are kept, with the prefix that fits. -/
theorem ntoaLongText_unsigned (stack : Memory ℕ) {value : ℕ} (hvalue : value ≠ 0)
    {c : IntConversion} (hunsigned : c.signed = false) (hbase : c.base ≠ 10) {l : Layout}
    {hash : Bool} {word : Flags} (hword : word.Says l none hash c) :
    let n := (Nat.digits c.base value).length
    let m := keptLength l c.base hash n
    ∃ i k zeros, ntoaLongText stack value false c.base 0 l.width word =
      List.replicate i (ch ' ') ++ ((storedFront c hash m).reverse ++
        (digitsText c (((Nat.digits c.base value).take 32 ++ List.replicate zeros 0).take m).reverse
          ++ List.replicate k (ch ' '))) := by
  intro n m
  have hplus : word.plus = false := by rw [hword.plus, hunsigned, Bool.false_and]
  have hspace : word.space = false := by rw [hword.space, hunsigned, Bool.false_and]
  have hhash : word.hash = hash := by rw [hword.hash, decide_eq_true hbase, Bool.and_true]
  have hbase1 : 1 < c.base := c.base_bounds.1
  have hlow : Positional.lowFirst c.base value = Nat.digits c.base value := if_neg hvalue
  unfold ntoaLongText ntoaLongDigits
  dsimp only
  rw [if_neg hvalue, hword.precision, Option.isSome_none, Bool.not_false, Bool.true_or, if_pos rfl]
  have hdigits := stored_ntoaDigits_take hbase1 word.uppercase ntoaBufferSize value
    ⟨Tracked.fresh stack, 0⟩
  generalize ntoaDigits c.base word.uppercase ntoaBufferSize value ⟨Tracked.fresh stack, 0⟩ = d
    at hdigits ⊢
  have hstored : d.stored = digitsText c ((Nat.digits c.base value).take 32) := by
    rw [hdigits, hlow, hword.uppercase]
    rfl
  have hdlen : d.len = min n 32 := by
    rw [← d.length_stored, hstored, digitsText, List.length_map, List.length_take, Nat.min_comm]
  have hn : n ≠ 0 := mt Positional.length_natDigits_eq_zero_iff.mp hvalue
  unfold ntoaFormatDigits
  dsimp only
  rw [padZeros_unsigned d l.width hplus hspace, hword.zeropad, hword.left, Option.isSome_none,
    Bool.not_false, Bool.and_true]
  dsimp only
  generalize hzeros : (if (l.zero && !l.left) = true then min l.width ntoaBufferSize - d.len
    else 0) = zeros
  have hlen : (d.pushMany (ch '0') zeros).len = paddedLength l n := by
    rw [pushMany_len, ← hzeros, hdlen]
    unfold paddedLength ntoaBufferSize
    split_ifs <;> omega
  have hne : (d.pushMany (ch '0') zeros).len ≠ 0 := by
    rw [pushMany_len, hdlen]
    omega
  have hfinal : (addSign (addPrefix (d.pushMany (ch '0') zeros) c.base 0 l.width word) false
      word).stored = (digitsText c ((Nat.digits c.base value).take 32 ++
        List.replicate zeros 0)).take m ++ storedFront c hash m := by
    have hnone (d : Digits) : addSign d false word = d := by
      rw [addSign, hplus, hspace, if_neg Bool.false_ne_true, if_neg Bool.false_ne_true,
        if_neg Bool.false_ne_true]
    rw [hnone, stored_addPrefix hlen hne hhash (hword.precision.trans rfl) hword.uppercase,
      Digits.stored_pushMany, hstored, digitsText, digitsText, List.map_append, List.map_replicate]
    rfl
  obtain ⟨i, k, htext⟩ := outRevText_around
    (addSign (addPrefix (d.pushMany (ch '0') zeros) c.base 0 l.width word) false word) l.width word
  refine ⟨i, k, zeros, ?_⟩
  rw [htext, hfinal, List.reverse_append, List.append_assoc, digitsText, digitsText,
    ← List.map_take, List.map_reverse]

/-! ## When that is the number -/

/-- Enough is kept exactly if no digit is taken back. -/
theorem le_keptLength_iff (l : Layout) {base : ℕ} (hash : Bool) {n : ℕ} (hn : n ≠ 0)
    (hhex : base = 16 → n ≤ 16) : n ≤ keptLength l base hash n ↔ KeepsDigits l base hash n := by
  unfold keptLength paddedLength KeepsDigits ntoaBufferSize
  cases hash with
  | false =>
      simp only [Bool.false_and, Bool.false_eq_true, if_false, false_imp_iff, and_true]
      split_ifs <;> omega
  | true =>
      by_cases hbase : base = 16
      · have hle := hhex hbase
        cases l.zero <;> cases l.left <;> simp [hbase] <;> split_ifs <;> omega
      · cases l.zero <;> cases l.left <;> simp [hbase] <;> split_ifs <;> omega

/-- Where no digit is lost, a binary number is left with 31 characters exactly if its
prefix is split. -/
theorem keptLength_eq_31_iff {l : Layout} {n : ℕ} (h : KeepsDigits l 2 true n) :
    keptLength l 2 true n = 31 ↔ SplitsPrefix l 2 true n := by
  obtain ⟨hn, hwidth⟩ := h
  have hne := (hwidth rfl).1
  unfold keptLength paddedLength SplitsPrefix ntoaBufferSize
  cases l.zero <;> cases l.left <;> simp <;> split_ifs <;> omega

/-- A hexadecimal number is never left with 31 characters. -/
theorem keptLength_hex_ne (l : Layout) {n : ℕ} (hn : n ≤ 16) : keptLength l 16 true n ≠ 31 := by
  unfold keptLength paddedLength ntoaBufferSize
  cases l.zero <;> cases l.left <;> simp <;> split_ifs <;> omega

/-- The prefix is there as a whole or not at all, unless its letter takes the last place
of the buffer. -/
theorem reverse_storedFront (c : IntConversion) (hash : Bool) {m : ℕ} (hm : m ≤ 32) :
    (storedFront c hash m).reverse = [] ∨ (storedFront c hash m).reverse = c.alternate ∨
      hash = true ∧ m = 31 ∧ c.letter ≠ [] ∧ (storedFront c hash m).reverse = c.letter := by
  have hletter : c.letter.length ≤ 1 ∧ c.letter.reverse = c.letter := by cases c <;> decide
  unfold storedFront ntoaBufferSize
  cases hash with
  | false => exact Or.inl rfl
  | true =>
      rw [if_pos rfl]
      dsimp only
      by_cases hroom : m < 32
      · rw [if_pos hroom]
        by_cases hzero : m + c.letter.length < 32
        · rw [if_pos hzero, List.reverse_append, hletter.2]
          exact Or.inr (Or.inl rfl)
        · rw [if_neg hzero, List.append_nil, hletter.2]
          refine Or.inr (Or.inr ⟨rfl, by omega, fun hnil => ?_, rfl⟩)
          rw [hnil, List.length_nil] at hzero
          omega
      · rw [if_neg hroom, List.length_nil, Nat.add_zero, if_neg hroom]
        exact Or.inl rfl

/-- No part of a prefix counts in front of the digits. -/
theorem filterMap_storedFront (c : IntConversion) (hash : Bool) {m : ℕ} (hm : m ≤ 32) :
    ∃ j, (storedFront c hash m).reverse.filterMap (digitOf c.base) = List.replicate j 0 := by
  rcases reverse_storedFront c hash hm with hnone | hwhole | ⟨-, -, -, hletter⟩
  · exact ⟨0, by rw [hnone]; rfl⟩
  · refine ⟨1, ?_⟩
    rw [hwhole]
    cases c <;> rfl
  · refine ⟨0, ?_⟩
    rw [hletter]
    cases c <;> rfl

/-- **Unsigned conversions denote their value**, by their digits and as a whole form. -/
theorem unsigned_denotes_iff (stack : Memory ℕ) {v : ℕ} (hv : v ≠ 0) (hlt : v < 2 ^ 64)
    {c : IntConversion} (hunsigned : c.signed = false) (hbase : c.base ≠ 10) {l : Layout}
    {hash : Bool} {word : Flags} (hword : word.Says l none hash c) :
    let n := (Nat.digits c.base v).length
    let text := ntoaLongText stack v false c.base 0 l.width word
    (digitsRead c.base text = v ↔ KeepsDigits l c.base hash n) ∧
      (Denotes c text v ↔ KeepsDigits l c.base hash n ∧ ¬ SplitsPrefix l c.base hash n) := by
  intro n text
  obtain ⟨i, k, zeros, htext⟩ := ntoaLongText_unsigned stack hv hunsigned hbase hword
  have hbase1 : 1 < c.base := c.base_bounds.1
  have hn : n ≠ 0 := mt Positional.length_natDigits_eq_zero_iff.mp hv
  have hhex : c.base = 16 → n ≤ 16 := by
    intro h16
    refine (Nat.digits_length_le_iff hbase1 v).mpr ?_
    rw [h16]
    exact hlt
  have hm := (keptLength_le l c.base hash n).trans (paddedLength_le l n)
  have hkept := le_keptLength_iff l hash hn hhex
  change text = List.replicate i (ch ' ') ++
    ((storedFront c hash (keptLength l c.base hash n)).reverse ++ _) at htext
  generalize hmdef : keptLength l c.base hash n = m at *
  have hvalue := Positional.value_take hbase1 v zeros hm
  have hds : ∀ d ∈ (((Nat.digits c.base v).take 32 ++ List.replicate zeros 0).take m).reverse,
      d < c.base := by
    intro d hd
    exact Positional.lt_of_mem_take_zeros hbase1 (List.mem_of_mem_take (List.mem_reverse.mp hd))
  generalize (((Nat.digits c.base v).take 32 ++ List.replicate zeros 0).take m).reverse = ds
    at htext hvalue hds
  obtain ⟨j, hfront⟩ := filterMap_storedFront c hash hm
  have hread : digitsRead c.base text = v ↔ KeepsDigits l c.base hash n := by
    rw [htext, digitsRead_around hds hfront, hvalue, ← hkept]
    refine Iff.trans ?_ (Nat.digits_length_le_iff hbase1 v).symm
    constructor
    · intro heq
      rw [← heq]
      exact Nat.mod_lt v (Nat.pow_pos (Nat.zero_lt_of_lt hbase1))
    · exact Nat.mod_eq_of_lt
  refine ⟨hread, ?_⟩
  constructor
  · intro hdenotes
    have hkeeps := hread.mp hdenotes.digitsRead_eq
    refine ⟨hkeeps, fun hsplit => ?_⟩
    obtain ⟨rfl, h2, -⟩ := id hsplit
    obtain rfl : c = .b := by cases c <;> first | rfl | exact absurd h2 (by decide)
    have h31 : m = 31 := hmdef.symm.trans ((keptLength_eq_31_iff hkeeps).mpr hsplit)
    rw [htext, h31] at hdenotes
    exact not_denotes_letter i _ hv hdenotes
  · rintro ⟨hkeeps, hsplit⟩
    have hwhole : (storedFront c hash m).reverse = [] ∨
        (storedFront c hash m).reverse = c.alternate := by
      rcases reverse_storedFront c hash hm with hnone | hall | ⟨rfl, h31, hletter, -⟩
      · exact Or.inl hnone
      · exact Or.inr hall
      · exfalso
        cases c with
        | x => exact keptLength_hex_ne l (hhex rfl) (hmdef.trans h31)
        | X => exact keptLength_hex_ne l (hhex rfl) (hmdef.trans h31)
        | b => exact hsplit ((keptLength_eq_31_iff hkeeps).mp (hmdef.trans h31))
        | d | i | u | o => exact hletter rfl
    refine ⟨i, k, _, ds, hwhole, hds, hvalue.trans (Nat.mod_eq_of_lt ?_), htext⟩
    exact (Nat.digits_length_le_iff hbase1 v).mp (hkept.mpr hkeeps)

/-- **Alternate and binary forms in a format.**  The digits of the field are those of the
value exactly if none is lost, and the field is a number with its prefix or none exactly if,
besides, the prefix is not split. -/
theorem alternate_denotes_iff (env : Env) (before after : List Item) (flags : List Flag)
    (width : Width) {length : Length} (hlength : length ≠ .ll) {c : IntConversion}
    (hc : c = .x ∨ c = .X ∨ c = .o ∨ c = .b)
    (hvalue : c.value length (env.args (taken before + width.stars)) ≠ 0) :
    let d := integerDirective flags width length c
    let l := layout env (taken before) flags width
    let v := (c.value length (env.args (taken before + width.stars))).natAbs
    let n := (Nat.digits c.base v).length
    let hash := decide (.hash ∈ flags)
    ∃ field, emitted env (formatOf (before ++ .directive d :: after)) =
        (itemsText env before 0).1 ++ field ++ (itemsText env after (taken before + d.taken)).1 ∧
      (digitsRead c.base field = v ↔ KeepsDigits l c.base hash n) ∧
      (Denotes c field v ↔ KeepsDigits l c.base hash n ∧ ¬ SplitsPrefix l c.base hash n) := by
  intro d l v n hash
  refine ⟨_, emitted_directive env before after d, ?_⟩
  obtain ⟨word, hword, htext⟩ := integer_text env (taken before) flags width .absent hlength c
  have hunsigned : c.signed = false := by rcases hc with rfl | rfl | rfl | rfl <;> rfl
  have hbase : c.base ≠ 10 := by rcases hc with rfl | rfl | rfl | rfl <;> decide
  have hv : v ≠ 0 := Int.natAbs_ne_zero.mpr hvalue
  have hlt : v < 2 ^ 64 := (c.value_lt length _).trans_le
    (Nat.pow_le_pow_right Nat.two_pos length.bits_le)
  have hnonneg : decide (c.value length (env.args (taken before + width.stars)) < 0) = false := by
    unfold IntConversion.value
    rw [hunsigned, if_neg Bool.false_ne_true]
    exact decide_eq_false (by omega)
  have hfield : (d.text env (taken before)).1 =
      ntoaLongText env.stack v false c.base 0 l.width word := by
    rw [← hnonneg]
    refine htext.trans ?_
    rw [IntConversion.magnitude_eq fun hover =>
      absurd hover (IntConversion.not_overflows_of_unsigned hunsigned _ _)]
    rfl
  rw [hfield]
  exact unsigned_denotes_iff env.stack hv hlt hunsigned hbase hword

/-- `%#10x` with the argument `0x12345678`. -/
theorem alternate_denotes_ten :
    let env : Env := ⟨⟨fun _ => 0, 0⟩, fun _ => 0x12345678, fun _ => ⟨[], by simp⟩⟩
    ∃ field, emitted env (formatOf [.directive
        (integerDirective [.hash] (.literal ⟨1, [0]⟩ (by decide)) .none .x)]) = field ∧
      Denotes .x field 0x12345678 := by
  intro env
  obtain ⟨field, hfield, -, hdenotes⟩ := alternate_denotes_iff env [] [] [.hash]
    (.literal ⟨1, [0]⟩ (by decide)) (by decide : Length.none ≠ .ll) (c := .x) (Or.inl rfl)
    (by decide)
  refine ⟨field, ?_, hdenotes.mpr (by decide)⟩
  exact hfield.trans (List.append_nil field)

/-- **Two digits are lost** by `%#8x` with the argument `0x12345678`: `0x345678` is sent. -/
theorem width_takes_digits :
    let env : Env := ⟨⟨fun _ => 0, 0⟩, fun _ => 0x12345678, fun _ => ⟨[], by simp⟩⟩
    let field := emitted env (formatOf [.directive
      (integerDirective [.hash] (.literal ⟨8, []⟩ (by decide)) .none .x)])
    field = ch '0' :: ch 'x' :: [3, 4, 5, 6, 7, 8].map digitByte ∧
      digitsRead 16 field = 0x345678 ∧ ¬ Denotes .x field 0x12345678 := by
  intro env field
  have hread : digitsRead 16 field = 0x345678 := by decide
  refine ⟨by decide, hread, fun hdenotes => ?_⟩
  exact absurd (hread.symm.trans hdenotes.digitsRead_eq) (by decide)

end OsdevX64.Stdio

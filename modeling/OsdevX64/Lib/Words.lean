import Mathlib.Data.List.Basic

/-!
# The words of a line

A word is a maximal run of elements that are not separators.  `words` cuts a
line at its separators and drops the empty pieces; `wordCount` counts the words
in one pass from the left, remembering whether the next element would start a
word, as a scanner does.  They agree (`length_words`).

`wordStarts` are the positions at which a scanner finds the words: **from there up to
the next separator the line has the word** (`words_eq_map_starts`).
-/

namespace Words

variable {α : Type*}

/-- The words of a line, in order. -/
def words (sep : α → Bool) (line : List α) : List (List α) :=
  (line.splitOnP sep).filter fun word => !word.isEmpty

/-- The number of words that start in a line; `fresh` says that the element
before it was a separator. -/
def wordCount (sep : α → Bool) : Bool → List α → ℕ
  | _, [] => 0
  | fresh, a :: line =>
      if sep a then wordCount sep true line
      else fresh.toNat + wordCount sep false line

/-- What one element adds to the count. -/
theorem wordCount_cons (sep : α → Bool) (fresh : Bool) (a : α) (line : List α) :
    wordCount sep fresh (a :: line) =
      (if sep a then 0 else fresh.toNat) + wordCount sep (sep a) line := by
  rw [wordCount]
  cases hsep : sep a with
  | true => exact (Nat.zero_add _).symm
  | false => rfl

/-- Counting from the left, after a separator and inside a word. -/
theorem wordCount_eq (sep : α → Bool) (line : List α) :
    wordCount sep true line = (words sep line).length ∧
      wordCount sep false line =
        ((line.splitOnP sep).tail.filter fun word => !word.isEmpty).length := by
  induction line with
  | nil => exact ⟨rfl, rfl⟩
  | cons a line ih =>
      obtain ⟨htrue, hfalse⟩ := ih
      unfold words at htrue ⊢
      obtain ⟨word, rest, hsplit⟩ := List.exists_cons_of_ne_nil (List.splitOnP_ne_nil sep line)
      rw [List.splitOnP_cons_eq_if_modifyHead]
      by_cases hsep : sep a
      · simp only [wordCount, if_pos hsep, htrue, List.tail_cons]
        exact ⟨rfl, trivial⟩
      · rw [hsplit] at hfalse
        simp only [wordCount, if_neg hsep, hsplit, List.modifyHead_cons, hfalse, List.tail_cons]
        exact ⟨Nat.add_comm 1 _, Nat.zero_add _⟩

/-- **The scanner counts the words.** -/
theorem length_words (sep : α → Bool) (line : List α) :
    (words sep line).length = wordCount sep true line :=
  (wordCount_eq sep line).1.symm

/-! ## Where the words start -/

/-- The positions of the words of a line whose first element has position `p`; `fresh`
says that the element before it was a separator. -/
def wordStarts (sep : α → Bool) : Bool → ℕ → List α → List ℕ
  | _, _, [] => []
  | fresh, p, a :: line =>
      if sep a then wordStarts sep true (p + 1) line
      else (if fresh then [p] else []) ++ wordStarts sep false (p + 1) line

/-- The positions that one element adds. -/
theorem wordStarts_cons (sep : α → Bool) (fresh : Bool) (p : ℕ) (a : α) (line : List α) :
    wordStarts sep fresh p (a :: line) =
      (if !sep a && fresh then [p] else []) ++ wordStarts sep (sep a) (p + 1) line := by
  rw [wordStarts]
  cases sep a with
  | true => rfl
  | false => rfl

/-- The word that a scanner reads from a position on. -/
def wordAt (sep : α → Bool) (line : List α) (p : ℕ) : List α :=
  (line.drop p).takeWhile fun a => !sep a

/-- The first piece ends at the first separator. -/
theorem splitOnP_eq_takeWhile_cons (sep : α → Bool) (line : List α) :
    ∃ rest, line.splitOnP sep = (line.takeWhile fun a => !sep a) :: rest := by
  induction line with
  | nil => exact ⟨[], rfl⟩
  | cons a line ih =>
      obtain ⟨rest, hrest⟩ := ih
      rw [List.splitOnP_cons_eq_if_modifyHead, List.takeWhile_cons]
      cases hsep : sep a with
      | true => exact ⟨line.splitOnP sep, rfl⟩
      | false =>
          rw [hrest]
          exact ⟨rest, rfl⟩

/-- After a separator the words are found at their starts, and inside a word those
after it. -/
theorem map_wordStarts (sep : α → Bool) (before line : List α) :
    (wordStarts sep true before.length line).map (wordAt sep (before ++ line)) = words sep line ∧
      (wordStarts sep false before.length line).map (wordAt sep (before ++ line)) =
        (line.splitOnP sep).tail.filter fun word => !word.isEmpty := by
  induction line generalizing before with
  | nil => exact ⟨rfl, rfl⟩
  | cons a line ih =>
      obtain ⟨htrue, hfalse⟩ := ih (before ++ [a])
      rw [List.append_assoc, List.singleton_append, List.length_append, List.length_singleton]
        at htrue hfalse
      obtain ⟨rest, hrest⟩ := splitOnP_eq_takeWhile_cons sep line
      unfold words at htrue ⊢
      rw [wordStarts_cons, wordStarts_cons, List.splitOnP_cons_eq_if_modifyHead]
      cases hsep : sep a with
      | true => exact ⟨htrue, htrue⟩
      | false =>
          have hword : wordAt sep (before ++ a :: line) before.length =
              a :: line.takeWhile fun a => !sep a := by
            rw [wordAt, List.drop_left, List.takeWhile_cons, hsep]
            rfl
          rw [hrest] at hfalse ⊢
          refine ⟨?_, hfalse⟩
          show wordAt sep (before ++ a :: line) before.length ::
            (wordStarts sep false (before.length + 1) line).map
              (wordAt sep (before ++ a :: line)) = _
          rw [hword, hfalse]
          rfl

/-- **A line has its words at their starts.** -/
theorem words_eq_map_starts (sep : α → Bool) (line : List α) :
    words sep line = (wordStarts sep true 0 line).map (wordAt sep line) :=
  (map_wordStarts sep [] line).1.symm

end Words

import Mathlib.Data.List.Basic

/-!
# Reading again and again

A reader takes a value off the front of a text.  `many` reads as often as it can and leaves
the rest.  **What was written one after the other is read one after the other**, up to where
the reader fails (`many_flatMap`).
-/

namespace Repeat

variable {A B X : Type*}

/-- Read at most `fuel` times, as long as there is a value. -/
def upTo (read : List B → Option (A × List B)) : ℕ → List B → List A × List B
  | 0, text => ([], text)
  | fuel + 1, text =>
      match read text with
      | some (value, rest) =>
          let (others, rest) := upTo read fuel rest
          (value :: others, rest)
      | none => ([], text)

/-- Read as often as there is a value. -/
def many (read : List B → Option (A × List B)) (text : List B) : List A × List B :=
  upTo read text.length text

/-- **Texts one after the other are read back**, if each is read in front of anything. -/
theorem many_flatMap {read : List B → Option (A × List B)} {write : X → List B} {value : X → A}
    {xs : List X} (hread : ∀ x ∈ xs, ∀ rest, read (write x ++ rest) = some (value x, rest))
    (hne : ∀ x ∈ xs, write x ≠ []) {rest : List B} (hrest : read rest = none) :
    many read (xs.flatMap write ++ rest) = (xs.map value, rest) := by
  unfold many
  suffices hfuel : ∀ fuel, (xs.flatMap write ++ rest).length ≤ fuel →
      upTo read fuel (xs.flatMap write ++ rest) = (xs.map value, rest) from hfuel _ (Nat.le_refl _)
  induction xs with
  | nil =>
      intro fuel _
      show upTo read fuel rest = ([], rest)
      cases fuel with
      | zero => rfl
      | succ fuel => rw [upTo, hrest]
  | cons x xs ih =>
      intro fuel hfuel
      obtain ⟨hread, hreads⟩ := List.forall_mem_cons.mp hread
      obtain ⟨hne, hnes⟩ := List.forall_mem_cons.mp hne
      have hpos := List.length_pos_iff.mpr hne
      rw [List.flatMap_cons, List.append_assoc] at hfuel ⊢
      rw [List.length_append] at hfuel
      cases fuel with
      | zero => omega
      | succ fuel =>
          rw [upTo, hread]
          dsimp only
          rw [ih hreads hnes fuel (by omega)]
          rfl

end Repeat

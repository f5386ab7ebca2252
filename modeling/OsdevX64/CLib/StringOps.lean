import Mathlib.Data.List.Infix
import OsdevX64.Lib.ByteMemory

/-!
# The string functions of `string.c`

A string is a run of non-zero bytes in memory with a NUL behind it (`StringAt`).
`strcmp` stops where either of its strings ends, so it cannot tell a string from
a longer one that it begins: it decides whether one is a prefix of the other
(`strcmp_of_strings`).
-/

namespace OsdevX64.CLib

open ByteMemory

variable {A : Type*} [AddMonoidWithOne A]

/-- The bytes of the NUL-terminated string at an address. -/
def StringAt (mem : Memory A) : A → List Byte → Prop
  | p, [] => mem p = 0
  | p, c :: s => mem p = c ∧ c ≠ 0 ∧ StringAt mem (p + 1) s

instance StringAt.decidable (mem : Memory A) : ∀ p s, Decidable (StringAt mem p s)
  | p, [] => inferInstanceAs (Decidable (mem p = 0))
  | p, c :: s =>
      have := StringAt.decidable mem (p + 1) s
      inferInstanceAs (Decidable (mem p = c ∧ c ≠ 0 ∧ StringAt mem (p + 1) s))

/-- There is one string at an address. -/
theorem StringAt.unique {mem : Memory A} {p : A} {a b : List Byte} (ha : StringAt mem p a)
    (hb : StringAt mem p b) : a = b := by
  induction a generalizing p b with
  | nil =>
      cases b with
      | nil => rfl
      | cons d b => exact absurd (hb.1.symm.trans ha) hb.2.1
  | cons c a ih =>
      cases b with
      | nil => exact absurd (ha.1.symm.trans hb) ha.2.1
      | cons d b => rw [ih ha.2.2 hb.2.2, ← ha.1, hb.1]

/-- `strcmp`, if its loop ends within `fuel` turns. -/
def strcmp (mem : Memory A) (s1 s2 : A) : ℕ → Option ℕ
  | 0 => none
  | fuel + 1 =>
      if mem s1 ≠ 0 ∧ mem s2 ≠ 0 then
        if mem s1 ≠ mem s2 then some 1
        else strcmp mem (s1 + 1) (s2 + 1) fuel
      else some 0

/-- One of two strings begins the other. -/
def Comparable (a b : List Byte) : Prop := a <+: b ∨ b <+: a

instance (a b : List Byte) : Decidable (Comparable a b) :=
  inferInstanceAs (Decidable (a <+: b ∨ b <+: a))

theorem comparable_cons {c d : Byte} {a b : List Byte} :
    Comparable (c :: a) (d :: b) ↔ c = d ∧ Comparable a b := by
  unfold Comparable
  rw [List.cons_prefix_cons, List.cons_prefix_cons]
  constructor
  · rintro (⟨heq, hpre⟩ | ⟨heq, hpre⟩)
    · exact ⟨heq, .inl hpre⟩
    · exact ⟨heq.symm, .inr hpre⟩
  · rintro ⟨heq, hpre | hpre⟩
    · exact .inl ⟨heq, hpre⟩
    · exact .inr ⟨heq.symm, hpre⟩

/-- **`strcmp` is 0 exactly on strings one of which begins the other.** -/
theorem strcmp_of_strings {mem : Memory A} {s1 s2 : A} {a b : List Byte} {fuel : ℕ}
    (ha : StringAt mem s1 a) (hb : StringAt mem s2 b) (hfuel : a.length < fuel) :
    strcmp mem s1 s2 fuel = some (if Comparable a b then 0 else 1) := by
  induction a generalizing s1 s2 b fuel with
  | nil =>
      obtain ⟨fuel, rfl⟩ := Nat.exists_eq_succ_of_ne_zero (Nat.ne_zero_of_lt hfuel)
      rw [strcmp, if_neg (fun h => h.1 ha), if_pos (.inl List.nil_prefix)]
  | cons c a ih =>
      obtain ⟨fuel, rfl⟩ := Nat.exists_eq_succ_of_ne_zero (Nat.ne_zero_of_lt hfuel)
      cases b with
      | nil => rw [strcmp, if_neg (fun h => h.2 hb), if_pos (.inr List.nil_prefix)]
      | cons d b =>
          rw [strcmp, if_pos ⟨ha.1 ▸ ha.2.1, hb.1 ▸ hb.2.1⟩, ha.1, hb.1]
          by_cases hcd : c = d
          · have hrest := ih ha.2.2 hb.2.2 (Nat.lt_of_succ_lt_succ hfuel)
            rw [if_neg (not_not_intro hcd), hrest]
            simp only [comparable_cons, hcd, true_and]
          · rw [if_pos hcd, if_neg (fun h => hcd (comparable_cons.mp h).1)]

/-- Two different strings that `strcmp` does not tell apart: one is a proper
prefix of the other. -/
def Confused (a b : List Byte) : Prop := a ≠ b ∧ Comparable a b

instance (a b : List Byte) : Decidable (Confused a b) :=
  inferInstanceAs (Decidable (a ≠ b ∧ Comparable a b))

theorem comparable_iff {a b : List Byte} : Comparable a b ↔ a = b ∨ Confused a b := by
  constructor
  · intro h
    by_cases hab : a = b
    · exact .inl hab
    · exact .inr ⟨hab, h⟩
  · rintro (rfl | h)
    · exact .inl List.prefix_rfl
    · exact h.2

/-- A result of 0 means the same string, or a confused pair. -/
theorem strcmp_eq_zero_iff {mem : Memory A} {s1 s2 : A} {a b : List Byte} {fuel : ℕ}
    (ha : StringAt mem s1 a) (hb : StringAt mem s2 b) (hfuel : a.length < fuel) :
    strcmp mem s1 s2 fuel = some 0 ↔ a = b ∨ Confused a b := by
  rw [strcmp_of_strings ha hb hfuel, ← comparable_iff]
  split_ifs with h
  · exact iff_of_true rfl h
  · exact iff_of_false (by simp) h

end OsdevX64.CLib

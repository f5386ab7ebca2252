import Mathlib.Data.List.MinMax

/-!
# The first maximum of a list

A scan that keeps the best entry so far and replaces it by a strictly better one ends
with the first of the best.  `FirstMax` says this about the list alone: the entries
before are worse, those behind are no better.  `List.argmax` of the entries of a kind
is the first maximum among them (`mem_argmax_filter_iff`), so there is at most one.
-/

namespace FirstMaximum

variable {α β : Type*} [LinearOrder β] {p : α → Prop} {f : α → β} {l : List α} {a m : α}

/-- An entry with `p` that is better than those before it and no worse than those behind
it. -/
def FirstMax (p : α → Prop) (f : α → β) (l : List α) (m : α) : Prop :=
  ∃ before after, l = before ++ m :: after ∧ p m ∧ (∀ b ∈ before, p b → f b < f m) ∧
    ∀ b ∈ after, p b → f b ≤ f m

theorem FirstMax.mem (h : FirstMax p f l m) : m ∈ l := by
  obtain ⟨before, after, rfl, -⟩ := h
  exact List.mem_append_right before List.mem_cons_self

theorem FirstMax.le (h : FirstMax p f l m) (ha : a ∈ l) (hp : p a) : f a ≤ f m := by
  obtain ⟨before, after, rfl, -, hbefore, hafter⟩ := h
  rcases List.mem_append.mp ha with ha | ha
  · exact (hbefore a ha hp).le
  · rcases List.mem_cons.mp ha with rfl | ha
    · exact le_rfl
    · exact hafter a ha hp

theorem not_firstMax_nil (m : α) : ¬ FirstMax p f [] m := fun h => List.not_mem_nil h.mem

/-- One more entry is the maximum if it is better than all before it, and leaves the
maximum where it is otherwise. -/
theorem firstMax_concat_iff :
    FirstMax p f (l ++ [a]) m ↔
      (m = a ∧ p a ∧ ∀ b ∈ l, p b → f b < f a) ∨ FirstMax p f l m ∧ (p a → f a ≤ f m) := by
  constructor
  · rintro ⟨before, after, hsplit, hm, hbefore, hafter⟩
    rcases List.eq_nil_or_concat after with rfl | ⟨init, last, rfl⟩
    · obtain ⟨rfl, hlast⟩ := List.append_inj' hsplit rfl
      cases hlast
      exact Or.inl ⟨rfl, hm, hbefore⟩
    · rw [List.concat_eq_append] at hsplit hafter
      rw [← List.cons_append, ← List.append_assoc] at hsplit
      obtain ⟨rfl, hlast⟩ := List.append_inj' hsplit rfl
      cases hlast
      refine Or.inr ⟨⟨before, init, rfl, hm, hbefore, ?_⟩, ?_⟩
      · exact fun b hb => hafter b (List.mem_append_left _ hb)
      · exact hafter a (List.mem_append_right _ List.mem_cons_self)
  · rintro (⟨rfl, hp, hall⟩ | ⟨⟨before, after, rfl, hm, hbefore, hafter⟩, hlast⟩)
    · exact ⟨l, [], rfl, hp, hall, fun b hb => absurd hb List.not_mem_nil⟩
    · refine ⟨before, after ++ [a], by rw [List.append_assoc, List.cons_append], hm, hbefore, ?_⟩
      intro b hb
      rcases List.mem_append.mp hb with hb | hb
      · exact hafter b hb
      · rw [List.mem_singleton.mp hb]
        exact hlast

/-- **The first maximum** of the entries with `p`. -/
theorem mem_argmax_filter_iff [DecidablePred p] (l : List α) (m : α) :
    m ∈ (l.filter p).argmax f ↔ FirstMax p f l m := by
  induction l using List.reverseRecOn with
  | nil => exact iff_of_false (Option.not_mem_none m) (not_firstMax_nil m)
  | append_singleton l a ih =>
      rw [List.filter_append, firstMax_concat_iff, ← ih]
      by_cases hp : p a
      · rw [List.filter_cons_of_pos (by simpa using hp), List.filter_nil, List.argmax_concat]
        cases hbest : (l.filter p).argmax f with
        | none =>
            have hnone : ∀ b ∈ l, ¬ p b := by
              intro b hb hpb
              have hfilter := List.argmax_eq_none.mp hbest
              exact List.not_mem_nil (hfilter ▸ List.mem_filter.mpr ⟨hb, decide_eq_true hpb⟩)
            constructor
            · intro hm
              exact Or.inl ⟨(Option.mem_some_iff.mp hm).symm, hp,
                fun b hb hpb => absurd hpb (hnone b hb)⟩
            · rintro (⟨rfl, -⟩ | ⟨hm, -⟩)
              · exact Option.mem_some_self m
              · exact absurd hm (Option.not_mem_none m)
        | some c =>
            have hle : ∀ b ∈ l, p b → f b ≤ f c := fun b hb hpb =>
              List.le_of_mem_argmax (List.mem_filter.mpr ⟨hb, decide_eq_true hpb⟩) hbest
            have hc := List.mem_filter.mp (List.argmax_mem hbest)
            dsimp only
            split_ifs with hbetter
            · constructor
              · intro hm
                exact Or.inl ⟨(Option.mem_some_iff.mp hm).symm, hp,
                  fun b hb hpb => (hle b hb hpb).trans_lt hbetter⟩
              · rintro (⟨rfl, -⟩ | ⟨hm, hworse⟩)
                · exact Option.mem_some_self m
                · rw [← Option.mem_some_iff.mp hm] at hworse
                  exact absurd (hworse hp) (not_le_of_gt hbetter)
            · constructor
              · intro hm
                rw [← Option.mem_some_iff.mp hm]
                exact Or.inr ⟨Option.mem_some_self c, fun _ => not_lt.mp hbetter⟩
              · rintro (⟨rfl, -, hall⟩ | ⟨hm, -⟩)
                · exact absurd (hall c hc.1 (of_decide_eq_true hc.2)) hbetter
                · exact hm
      · rw [List.filter_cons_of_neg (by simpa using hp), List.filter_nil,
          List.append_nil]
        exact ⟨fun hm => Or.inr ⟨hm, fun ha => absurd ha hp⟩,
          fun h => h.elim (fun hm => absurd hm.2.1 hp) fun hm => hm.1⟩

/-- There is at most one. -/
theorem FirstMax.unique {m' : α} (h : FirstMax p f l m) (h' : FirstMax p f l m') : m = m' := by
  classical
  exact Option.mem_unique ((mem_argmax_filter_iff l m).mpr h) ((mem_argmax_filter_iff l m').mpr h')

end FirstMaximum

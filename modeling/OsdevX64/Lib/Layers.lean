import Mathlib.Data.List.Basic

/-!
# Painted layers

A picture is painted layer by layer, each with one value over a region.  What is seen
at a point is the value of the last layer that covers it (`seen`).  Layers that agree
where they cover the point need no order (`seen_uniform`): what they show depends on
whether one of them covers it.
-/

namespace Layers

variable {P V : Type*}

/-- A region and what it is painted with. -/
structure Layer (P V : Type*) where
  covers : P → Bool
  value : V

/-- What is seen at a point when the layers are painted over a value. -/
def seen (layers : List (Layer P V)) (p : P) (behind : V) : V :=
  layers.foldl (fun v l => if l.covers p then l.value else v) behind

@[simp] theorem seen_nil (p : P) (behind : V) : seen [] p behind = behind := rfl

theorem seen_cons (l : Layer P V) (layers : List (Layer P V)) (p : P) (behind : V) :
    seen (l :: layers) p behind = seen layers p (if l.covers p then l.value else behind) := rfl

/-- Layers are painted over what was painted before. -/
theorem seen_append (back front : List (Layer P V)) (p : P) (behind : V) :
    seen (back ++ front) p behind = seen front p (seen back p behind) := List.foldl_append

/-- **Layers that agree at a point** show their value if one of them covers it. -/
theorem seen_uniform {layers : List (Layer P V)} {p : P} {value : V}
    (h : ∀ l ∈ layers, l.covers p = true → l.value = value) (behind : V) :
    seen layers p behind = if ∃ l ∈ layers, l.covers p = true then value else behind := by
  induction layers generalizing behind with
  | nil => rw [seen_nil, if_neg fun ⟨l, hl, _⟩ => List.not_mem_nil hl]
  | cons l layers ih =>
      obtain ⟨hl, hlayers⟩ := List.forall_mem_cons.mp h
      rw [seen_cons, ih hlayers]
      simp only [List.exists_mem_cons_iff]
      by_cases hrest : ∃ l ∈ layers, l.covers p = true
      · rw [if_pos hrest, if_pos (Or.inr hrest)]
      · rw [if_neg hrest]
        by_cases hcovers : l.covers p = true
        · rw [if_pos hcovers, if_pos (Or.inl hcovers), hl hcovers]
        · rw [if_neg hcovers, if_neg fun hor => hor.elim hcovers hrest]

end Layers

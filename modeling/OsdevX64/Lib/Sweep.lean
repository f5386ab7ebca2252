import Mathlib.Data.List.Induction

/-!
# Sweeps

A loop that visits every element of a list and settles it.  If no visit unsettles
what was settled before, everything is settled in the end (`foldl_settles`); two
nested loops settle a grid (`foldl_foldl_settles`).
-/

namespace Sweep

variable {S K L : Type*}

/-- **A sweep settles what it visits**, if a visit settles its element and keeps
those that are settled. -/
theorem foldl_settles {step : S → K → S} {inv : S → Prop} {settled : S → K → Prop} {ks : List K}
    (hinv : ∀ s k, k ∈ ks → inv s → inv (step s k))
    (hvisit : ∀ s k, k ∈ ks → inv s → settled (step s k) k)
    (hkeep : ∀ s k k', k ∈ ks → k' ∈ ks → inv s → settled s k' → settled (step s k) k')
    {s : S} (hs : inv s) :
    inv (ks.foldl step s) ∧ ∀ k ∈ ks, settled (ks.foldl step s) k := by
  induction ks using List.reverseRecOn with
  | nil => exact ⟨hs, fun k hk => absurd hk List.not_mem_nil⟩
  | append_singleton ks k ih =>
      have hlast : k ∈ ks ++ [k] := List.mem_append_right ks List.mem_cons_self
      have hinit {k' : K} (hk' : k' ∈ ks) : k' ∈ ks ++ [k] := List.mem_append_left [k] hk'
      obtain ⟨hmid, hsettled⟩ := ih (fun s k' hk' => hinv s k' (hinit hk'))
        (fun s k' hk' => hvisit s k' (hinit hk'))
        (fun s k' k'' hk' hk'' => hkeep s k' k'' (hinit hk') (hinit hk''))
      rw [List.foldl_append]
      refine ⟨hinv _ k hlast hmid, fun k' hk' => ?_⟩
      rcases List.mem_append.mp hk' with hk' | hk'
      · exact hkeep _ k k' hlast (hinit hk') hmid (hsettled k' hk')
      · rw [List.mem_singleton.mp hk']
        exact hvisit _ k hlast hmid

/-- **Nested sweeps settle a grid.** -/
theorem foldl_foldl_settles {step : S → K → L → S} {inv : S → Prop} {settled : S → K → L → Prop}
    {ks : List K} {ls : S → List L} {all : List L} (hls : ∀ s, inv s → ls s = all)
    (hinv : ∀ s k l, k ∈ ks → l ∈ all → inv s → inv (step s k l))
    (hvisit : ∀ s k l, k ∈ ks → l ∈ all → inv s → settled (step s k l) k l)
    (hkeep : ∀ s k l k' l', k ∈ ks → l ∈ all → k' ∈ ks → l' ∈ all → inv s → settled s k' l' →
      settled (step s k l) k' l') {s : S} (hs : inv s) :
    inv (ks.foldl (fun s k => (ls s).foldl (fun s l => step s k l) s) s) ∧
      ∀ k ∈ ks, ∀ l ∈ all,
        settled (ks.foldl (fun s k => (ls s).foldl (fun s l => step s k l) s) s) k l := by
  have hrow (s : S) (k : K) (hk : k ∈ ks) (hs : inv s) :
      inv (all.foldl (fun s l => step s k l) s) ∧
        ∀ l ∈ all, settled (all.foldl (fun s l => step s k l) s) k l :=
    @foldl_settles S L (fun s l => step s k l) inv (fun s l => settled s k l) all
      (fun s l hl hs => hinv s k l hk hl hs) (fun s l hl hs => hvisit s k l hk hl hs)
      (fun s l l' hl hl' hs => hkeep s k l k l' hk hl hk hl' hs) s hs
  refine @foldl_settles S K _ inv (fun s k => ∀ l ∈ all, settled s k l) ks ?_ ?_ ?_ s hs
  · intro s k hk hs
    rw [hls s hs]
    exact (hrow s k hk hs).1
  · intro s k hk hs
    rw [hls s hs]
    exact (hrow s k hk hs).2
  · intro s k k' hk hk' hs hsettled l' hl'
    rw [hls s hs]
    -- the row of `k` keeps every cell of the row of `k'`
    refine (List.foldlRecOn (motive := fun s => inv s ∧ settled s k' l') all _
      ⟨hs, hsettled l' hl'⟩ ?_).2
    rintro q ⟨hq, hcell⟩ l hl
    exact ⟨hinv q k l hk hl hq, hkeep q k l k' l' hk hl hk' hl' hq hcell⟩

end Sweep

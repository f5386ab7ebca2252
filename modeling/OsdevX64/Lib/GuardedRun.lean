import Mathlib.Data.List.Infix
import Mathlib.Logic.Basic

/-!
# Runs that stay good exactly when they are guarded

A program that does not check a limit stays within it on some inputs only.  To
say which, run a reference beside it that the limit does not bother, and guard
every event by a condition on the reference.  `GuardedBy` collects what one step
has to satisfy; the conclusion (`GuardedBy.good_iff`) is an equivalence about
whole runs: **the program has stayed good if and only if every guard held**.

The program is a partial step function, so that a step whose loops have not been
shown to end can be `none`; `GuardedBy.total` is the proof that none is.

`GuardedAt` is the same for a property that a later step may restore, with guards
on the state itself: **every state of the run is good if and only if every guard
held** (`GuardedAt.good_iff`).
-/

namespace GuardedRun

variable {S R E : Type*}

/-- Along the reference run every event meets its guard. -/
def Guarded (ref : R → E → R) (guard : R → E → Prop) : R → List E → Prop
  | _, [] => True
  | r, e :: events => guard r e ∧ Guarded ref guard (ref r e) events

instance Guarded.decidable (ref : R → E → R) (guard : R → E → Prop)
    [∀ r e, Decidable (guard r e)] : ∀ r events, Decidable (Guarded ref guard r events)
  | _, [] => isTrue trivial
  | r, e :: events =>
      have := Guarded.decidable ref guard (ref r e) events
      inferInstanceAs (Decidable (guard r e ∧ Guarded ref guard (ref r e) events))

/-- A run is guarded if the guard holds after each of its prefixes. -/
theorem guarded_of_prefixes {ref : R → E → R} {guard : R → E → Prop} {r : R} {events : List E}
    (h : ∀ pre e, pre ++ [e] <+: events → guard (pre.foldl ref r) e) :
    Guarded ref guard r events := by
  induction events generalizing r with
  | nil => trivial
  | cons e events ih =>
      refine ⟨h [] e ?_, ih fun pre e' hpre => h (e :: pre) e' ?_⟩
      · exact List.cons_prefix_cons.mpr ⟨rfl, List.nil_prefix⟩
      · exact List.cons_prefix_cons.mpr ⟨rfl, hpre⟩

/-- A run is guarded where both its parts are. -/
theorem guarded_append (ref : R → E → R) (guard : R → E → Prop) (r : R) (pre rest : List E) :
    Guarded ref guard r (pre ++ rest) ↔
      Guarded ref guard r pre ∧ Guarded ref guard (pre.foldl ref r) rest := by
  induction pre generalizing r with
  | nil => exact (iff_of_eq (true_and _)).symm
  | cons e pre ih => exact (and_congr_right' (ih (ref r e))).trans and_assoc.symm

/-- A relation that every guarded step keeps holds at the end of a guarded run. -/
theorem Guarded.foldl_rel {ref : R → E → R} {guard : R → E → Prop} {step : S → E → S}
    {Rel : S → R → Prop}
    (hstep : ∀ s r e, Rel s r → guard r e → Rel (step s e) (ref r e)) {s : S} {r : R}
    {events : List E} (hrel : Rel s r) (h : Guarded ref guard r events) :
    Rel (events.foldl step s) (events.foldl ref r) := by
  induction events generalizing s r with
  | nil => exact hrel
  | cons e events ih => exact ih (hstep s r e hrel h.1) h.2

/-- Two references agree on what is guarded, where an invariant makes each guard
and each step of theirs the same. -/
theorem guarded_congr {ref ref' : R → E → R} {guard guard' : R → E → Prop} (Inv : R → Prop)
    (hguard : ∀ r e, Inv r → (guard r e ↔ guard' r e))
    (hstep : ∀ r e, Inv r → guard' r e → ref r e = ref' r e ∧ Inv (ref' r e)) {r : R}
    (hr : Inv r) (events : List E) : Guarded ref guard r events ↔ Guarded ref' guard' r events := by
  induction events generalizing r with
  | nil => exact Iff.rfl
  | cons e events ih =>
      refine (and_congr_left' (hguard r e hr)).trans (and_congr_right fun hg => ?_)
      obtain ⟨heq, hinv⟩ := hstep r e hr hg
      rw [heq]
      exact ih hinv

/-- What one step has to satisfy. -/
structure GuardedBy (step : S → E → Option S) (good : S → Prop) (ref : R → E → R)
    (guard : R → E → Prop) (Rel : S → R → Prop) : Prop where
  /-- A step always has a result. -/
  total : ∀ s e, ∃ s', step s e = some s'
  /-- What went wrong stays wrong. -/
  stays_bad : ∀ s e s', step s e = some s' → good s' → good s
  /-- Under its guard a step goes well and follows the reference. -/
  keeps : ∀ s r e s', Rel s r → good s → guard r e → step s e = some s' →
    good s' ∧ Rel s' (ref r e)
  /-- Without its guard a step goes wrong. -/
  breaks : ∀ s r e s', Rel s r → good s → ¬ guard r e → step s e = some s' → ¬ good s'

variable {step : S → E → Option S} {good : S → Prop} {ref : R → E → R}
  {guard : R → E → Prop} {Rel : S → R → Prop}

/-- Every run has a result. -/
theorem GuardedBy.exists_run (h : GuardedBy step good ref guard Rel) (s : S) (events : List E) :
    ∃ s', events.foldlM step s = some s' := by
  induction events generalizing s with
  | nil => exact ⟨s, rfl⟩
  | cons e events ih =>
      obtain ⟨s', hs'⟩ := h.total s e
      obtain ⟨s'', hs''⟩ := ih s'
      refine ⟨s'', ?_⟩
      rw [List.foldlM_cons, hs']
      exact hs''

/-- A good end has a good beginning. -/
theorem GuardedBy.good_of_run (h : GuardedBy step good ref guard Rel) {s s' : S}
    {events : List E} (hrun : events.foldlM step s = some s') (hgood : good s') : good s := by
  induction events generalizing s with
  | nil =>
      cases hrun
      exact hgood
  | cons e events ih =>
      obtain ⟨q, hq⟩ := h.total s e
      rw [List.foldlM_cons, hq] at hrun
      exact h.stays_bad s e q hq (ih hrun)

/-- **A run stays good exactly when it is guarded**, and then ends where the
reference does. -/
theorem GuardedBy.good_iff (h : GuardedBy step good ref guard Rel) {s s' : S} {r : R}
    {events : List E} (hrel : Rel s r) (hgood : good s)
    (hrun : events.foldlM step s = some s') :
    (good s' ↔ Guarded ref guard r events) ∧
      (Guarded ref guard r events → Rel s' (events.foldl ref r)) := by
  induction events generalizing s r with
  | nil =>
      cases hrun
      exact ⟨iff_of_true hgood trivial, fun _ => hrel⟩
  | cons e events ih =>
      obtain ⟨q, hq⟩ := h.total s e
      rw [List.foldlM_cons, hq] at hrun
      by_cases hguard : guard r e
      · obtain ⟨hgood', hrel'⟩ := h.keeps s r e q hrel hgood hguard hq
        obtain ⟨hiff, hend⟩ := ih hrel' hgood' hrun
        exact ⟨⟨fun hs => ⟨hguard, hiff.mp hs⟩, fun hg => hiff.mpr hg.2⟩, fun hg => hend hg.2⟩
      -- once bad, the run stays bad, and it is not guarded either
      · have hbad := h.breaks s r e q hrel hgood hguard hq
        exact ⟨⟨fun hs => absurd (h.good_of_run hrun hs) hbad, fun hg => absurd hg.1 hguard⟩,
          fun hg => absurd hg.1 hguard⟩

/-! ## Every state of a run -/

section States

variable {step : S → E → S} {ok : E → Prop} {inv good : S → Prop} {guard : S → E → Prop}

/-- What one step has to satisfy, on events that are `ok`. -/
structure GuardedAt (step : S → E → S) (ok : E → Prop) (inv good : S → Prop)
    (guard : S → E → Prop) : Prop where
  /-- The invariant does not depend on the guard. -/
  stable : ∀ s e, inv s → ok e → inv (step s e)
  /-- Under its guard a step goes well. -/
  keeps : ∀ s e, inv s → ok e → good s → guard s e → good (step s e)
  /-- Without its guard a step goes wrong. -/
  breaks : ∀ s e, inv s → ok e → good s → ¬ guard s e → ¬ good (step s e)

/-- **Every state of a run is good exactly when the run is guarded.** -/
theorem GuardedAt.good_iff (h : GuardedAt step ok inv good guard) {s : S} (hinv : inv s)
    (hgood : good s) {events : List E} (hok : ∀ e ∈ events, ok e) :
    (∀ pre, pre <+: events → good (pre.foldl step s)) ↔ Guarded step guard s events := by
  induction events generalizing s with
  | nil =>
      refine iff_of_true (fun pre hpre => ?_) trivial
      rw [List.prefix_nil.mp hpre]
      exact hgood
  | cons e events ih =>
      have he := hok e List.mem_cons_self
      have hrest := fun hgood' => @ih (step s e) (h.stable s e hinv he) hgood'
        fun e' he' => hok e' (List.mem_cons_of_mem e he')
      constructor
      · intro hall
        have hnext := hall [e] (List.cons_prefix_cons.mpr ⟨rfl, List.nil_prefix⟩)
        have hguard : guard s e := by
          by_contra hnot
          exact h.breaks s e hinv he hgood hnot hnext
        exact ⟨hguard, (hrest hnext).mp fun pre hpre =>
          hall (e :: pre) (List.cons_prefix_cons.mpr ⟨rfl, hpre⟩)⟩
      · rintro ⟨hguard, hguards⟩ pre hpre
        cases pre with
        | nil => exact hgood
        | cons e' pre =>
            obtain ⟨rfl, htail⟩ := List.cons_prefix_cons.mp hpre
            exact (hrest (h.keeps s e' hinv he hgood hguard)).mpr hguards pre htail

/-- Guards that do not look at the state. -/
theorem guarded_const_iff {ok : E → Prop} (step : S → E → S) (s : S) (events : List E) :
    Guarded step (fun _ => ok) s events ↔ ∀ e ∈ events, ok e := by
  induction events generalizing s with
  | nil => exact iff_of_true trivial fun e he => absurd he List.not_mem_nil
  | cons e events ih => exact (and_congr_right' (ih (step s e))).trans List.forall_mem_cons.symm

end States

end GuardedRun

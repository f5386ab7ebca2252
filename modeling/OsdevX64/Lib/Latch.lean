import Mathlib.Data.List.Basic
import Mathlib.Data.List.Count
import Mathlib.Logic.Function.Basic

/-!
# Latched requests with priorities

Sources raise requests, and a request waits until it is taken.  A source that is raised
again while it waits still waits once.  `order` lists the sources, the most urgent first,
and whoever takes gets the first one that waits.

* `taken_le_raised` — nothing is taken that was not raised.
* `served_or_behind` — a source that waits is taken, unless those before it in the order
  were raised often enough to be taken instead.
-/

namespace Latch

variable {A B : Type*} [DecidableEq A]

/-- What happens: a source is raised, or a request is taken with what comes with it. -/
inductive Event (A B : Type*)
  | raise (a : A)
  | take (b : B)

/-- The sources that wait after an event. -/
def next (order : List A) (pending : A → Bool) : Event A B → A → Bool
  | .raise a => Function.update pending a true
  | .take _ =>
      match order.find? pending with
      | none => pending
      | some a => Function.update pending a false

/-- What is taken at an event. -/
def taken (order : List A) (pending : A → Bool) : Event A B → List (A × B)
  | .raise _ => []
  | .take b => (order.find? pending).toList.map fun a => (a, b)

/-- The sources that wait after some events. -/
def after (order : List A) (pending : A → Bool) (events : List (Event A B)) : A → Bool :=
  events.foldl (next order) pending

/-- What is taken in the course of some events. -/
def served (order : List A) : (A → Bool) → List (Event A B) → List (A × B)
  | _, [] => []
  | pending, e :: events => taken order pending e ++ served order (next order pending e) events

theorem served_append (order : List A) (pending : A → Bool) (events more : List (Event A B)) :
    served order pending (events ++ more) =
      served order pending events ++ served order (after order pending events) more := by
  induction events generalizing pending with
  | nil => rfl
  | cons e events ih =>
      rw [List.cons_append, served, served, ih, List.append_assoc]
      rfl

theorem mem_served (order : List A) (pending : A → Bool) (events : List (Event A B)) :
    ∀ s ∈ served order pending events, s.1 ∈ order := by
  induction events generalizing pending with
  | nil => exact fun s hs => absurd hs List.not_mem_nil
  | cons e events ih =>
      intro s hs
      rcases List.mem_append.mp hs with hs | hs
      · cases e with
        | raise a => exact absurd hs List.not_mem_nil
        | take b =>
            obtain ⟨a, ha, rfl⟩ := List.mem_map.mp hs
            exact List.mem_of_find?_eq_some (Option.mem_toList.mp ha)
      · exact ih _ s hs

/-! ## Nothing is taken that was not raised -/

/-- An event that raises a source. -/
def Event.raises (a : A) : Event A B → Bool
  | .raise c => c = a
  | .take _ => false

theorem step_count (order : List A) (pending : A → Bool) (e : Event A B) (a : A) :
    (taken order pending e).countP (fun s => s.1 = a) + (next order pending e a).toNat ≤
      (pending a).toNat + (e.raises a).toNat := by
  cases e with
  | raise c =>
      show 0 + (Function.update pending c true a).toNat ≤ (pending a).toNat + (decide (c = a)).toNat
      by_cases h : c = a
      · subst h
        simp
      · rw [Function.update_of_ne (Ne.symm h)]
        omega
  | take b =>
      cases hfind : order.find? pending with
      | none =>
          rw [taken, next, hfind]
          exact Nat.le_of_eq (Nat.zero_add _)
      | some c =>
          have hc : pending c = true := List.find?_some hfind
          rw [taken, next, hfind]
          by_cases h : c = a
          · subst h
            simp [hc, Event.raises]
          · simp [h, Function.update_of_ne (Ne.symm h), Event.raises]

/-- **A source is taken at most as often as it was raised**, counting with those that wait
those that still do. -/
theorem taken_le_raised (order : List A) (pending : A → Bool) (events : List (Event A B)) (a : A) :
    (served order pending events).countP (fun s => s.1 = a) +
        (after order pending events a).toNat ≤
      (pending a).toNat + events.countP (Event.raises a) := by
  induction events generalizing pending with
  | nil => exact Nat.le_of_eq (Nat.zero_add _)
  | cons e events ih =>
      have hstep := step_count order pending e a
      have hrest := ih (next order pending e)
      have hhead : (e :: events).countP (Event.raises a) =
          (e.raises a).toNat + events.countP (Event.raises a) := by
        rw [List.countP_cons, Nat.add_comm]
        cases e.raises a <;> rfl
      rw [served, List.countP_append, hhead]
      show _ + (after order (next order pending e) events a).toNat ≤ _
      omega

/-! ## How long a request waits -/

/-- The sources before `a`. -/
def front (order : List A) (a : A) : List A := order.takeWhile fun c => c ≠ a

/-- An event that raises a source of a list. -/
def Event.raisesOf (sources : List A) : Event A B → Bool
  | .raise c => c ∈ sources
  | .take _ => false

/-- An event at which a request is taken. -/
def Event.isTake : Event A B → Bool
  | .raise _ => false
  | .take _ => true

/-- Changing a source elsewhere does not change a count. -/
theorem countP_update_of_notMem {sources : List A} {c : A} (h : c ∉ sources) (pending : A → Bool)
    (v : Bool) : sources.countP (Function.update pending c v) = sources.countP pending := by
  refine List.countP_congr fun x hx => ?_
  have hne : x ≠ c := fun heq => h (heq ▸ hx)
  rw [Function.update_of_ne hne]

/-- One more source waits at most. -/
theorem countP_update_true_le {sources : List A} (hnodup : sources.Nodup) (pending : A → Bool)
    (c : A) : sources.countP (Function.update pending c true) ≤ sources.countP pending + 1 := by
  induction sources with
  | nil => exact Nat.zero_le _
  | cons x sources ih =>
      obtain ⟨hx, hrest⟩ := List.nodup_cons.mp hnodup
      rw [List.countP_cons, List.countP_cons]
      by_cases h : x = c
      · subst h
        rw [countP_update_of_notMem hx, Function.update_self, if_pos rfl]
        omega
      · have := ih hrest
        rw [Function.update_of_ne h]
        omega

/-- One source fewer waits. -/
theorem countP_update_false {sources : List A} (hnodup : sources.Nodup) {pending : A → Bool}
    {c : A} (hc : c ∈ sources) (hpending : pending c = true) :
    sources.countP (Function.update pending c false) + 1 = sources.countP pending := by
  induction sources with
  | nil => exact absurd hc List.not_mem_nil
  | cons x sources ih =>
      obtain ⟨hx, hrest⟩ := List.nodup_cons.mp hnodup
      rw [List.countP_cons, List.countP_cons]
      by_cases h : x = c
      · subst h
        rw [countP_update_of_notMem hx, Function.update_self, if_neg Bool.false_ne_true,
          if_pos hpending]
      · have := ih hrest ((List.mem_cons.mp hc).resolve_left (Ne.symm h))
        rw [Function.update_of_ne h]
        omega

/-- The first that waits is the source itself or before it. -/
theorem find?_front {order : List A} {pending : A → Bool} {a : A} (ha : a ∈ order)
    (hpending : pending a = true) :
    ∃ c, order.find? pending = some c ∧ (c = a ∨ c ∈ front order a) := by
  induction order with
  | nil => exact absurd ha List.not_mem_nil
  | cons x order ih =>
      by_cases hxa : x = a
      · subst hxa
        exact ⟨x, List.find?_cons_of_pos hpending, Or.inl rfl⟩
      · have hfront : front (x :: order) a = x :: front order a :=
          List.takeWhile_cons_of_pos (decide_eq_true hxa)
        cases hx : pending x with
        | true =>
            refine ⟨x, List.find?_cons_of_pos hx, Or.inr ?_⟩
            rw [hfront]
            exact List.mem_cons_self
        | false =>
            obtain ⟨c, hc, hcase⟩ := ih ((List.mem_cons.mp ha).resolve_left (Ne.symm hxa))
            have hskip : ¬ pending x = true := Bool.eq_false_iff.mp hx
            refine ⟨c, (List.find?_cons_of_neg hskip).trans hc, hcase.imp_right fun h => ?_⟩
            rw [hfront]
            exact List.mem_cons_of_mem x h

/-- **A request that waits is taken, or only those before it were.** -/
theorem served_or_behind {order : List A} (hnodup : order.Nodup) {a : A} (ha : a ∈ order)
    {pending : A → Bool} (hpending : pending a = true) (events : List (Event A B)) :
    (∃ b, (a, b) ∈ served order pending events) ∨
      events.countP Event.isTake ≤ (front order a).countP pending +
        events.countP (Event.raisesOf (front order a)) := by
  have hfrontNodup : (front order a).Nodup := hnodup.sublist (List.takeWhile_sublist _)
  induction events generalizing pending with
  | nil => exact Or.inr (Nat.zero_le _)
  | cons e events ih =>
      rw [served, List.countP_cons, List.countP_cons]
      cases e with
      | raise c =>
          have hkeeps : Function.update pending c true a = true := by
            by_cases h : a = c
            · rw [h, Function.update_self]
            · rw [Function.update_of_ne h, hpending]
          refine (ih hkeeps).imp (fun h => h) fun hle => ?_
          by_cases hc : c ∈ front order a
          · have hone := countP_update_true_le hfrontNodup pending c
            simp only [Event.isTake, Event.raisesOf, hc, decide_true, if_true, if_false,
              Bool.false_eq_true]
            omega
          · rw [countP_update_of_notMem hc] at hle
            simp only [Event.isTake, Event.raisesOf, hc, decide_false, if_false,
              Bool.false_eq_true]
            omega
      | take b =>
          obtain ⟨c, hfind, hcase⟩ := find?_front ha hpending
          have htaken : taken order pending (.take b) = [(c, b)] := by
            rw [taken, hfind]
            rfl
          have hnext : next order pending (.take b) = Function.update pending c false := by
            rw [next, hfind]
          rw [htaken, hnext]
          by_cases h : c = a
          · subst h
            exact Or.inl ⟨b, List.mem_append_left _ List.mem_cons_self⟩
          · have hc := hcase.resolve_left h
            have hkeeps : Function.update pending c false a = true := by
              rw [Function.update_of_ne (Ne.symm h), hpending]
            refine (ih hkeeps).imp (fun ⟨b, hb⟩ => ⟨b, List.mem_append_right _ hb⟩) fun hle => ?_
            have hone := countP_update_false hfrontNodup hc (List.find?_some hfind)
            simp only [Event.isTake, Event.raisesOf, if_true, if_false, Bool.false_eq_true]
            omega

end Latch

import Mathlib.Algebra.Order.Monoid.Defs
import Mathlib.Data.List.Basic
import Mathlib.Tactic.Abel

/-!
# Accounts of a run

An event of a run may add something to an account, by an amount that depends on the
state it meets (`total`).  A law that relates a measure of the state to the accounts
need only be checked for one step:

* `total_balance` — what a step takes from the measure and what it puts into it balance,
  so they balance over the run;
* `total_le` — a step is paid for by the measure, so the run is.

The invariant of the steps is a parameter.
-/

namespace Accounts

variable {S E M : Type*}

section Monoid

variable [AddCommMonoid M] (step : S → E → S) (amount : S → E → M)

/-- What the events of a run add up to. -/
def total : S → List E → M
  | _, [] => 0
  | s, e :: events => amount s e + total (step s e) events

@[simp] theorem total_nil (s : S) : total step amount s [] = 0 := rfl

@[simp] theorem total_cons (s : S) (e : E) (events : List E) :
    total step amount s (e :: events) = amount s e + total step amount (step s e) events := rfl

theorem total_add (amount' : S → E → M) (s : S) (events : List E) :
    total step (fun s e => amount s e + amount' s e) s events =
      total step amount s events + total step amount' s events := by
  induction events generalizing s with
  | nil => exact (zero_add 0).symm
  | cons e events ih => rw [total_cons, ih, total_cons, total_cons, add_add_add_comm]

variable {step} {inv : S → Prop} {m : S → M} {spent earned : S → E → M}

/-- **A measure that every step keeps in balance is in balance over the run.** -/
theorem total_balance (hinv : ∀ s e, inv s → inv (step s e))
    (hstep : ∀ s e, inv s → m (step s e) + spent s e = m s + earned s e) {s : S}
    (hs : inv s) (events : List E) :
    m (events.foldl step s) + total step spent s events =
      m s + total step earned s events := by
  induction events generalizing s with
  | nil => rfl
  | cons e events ih =>
      rw [List.foldl_cons, total_cons, total_cons]
      calc
        _ = m (events.foldl step (step s e)) + total step spent (step s e) events +
              spent s e := by abel
        _ = m (step s e) + total step earned (step s e) events + spent s e := by
              rw [ih (hinv s e hs)]
        _ = m (step s e) + spent s e + total step earned (step s e) events := by abel
        _ = m s + earned s e + total step earned (step s e) events := by
              rw [hstep s e hs]
        _ = _ := add_assoc _ _ _

end Monoid

section Ordered

variable [AddCommMonoid M] [PartialOrder M] [IsOrderedAddMonoid M] {step : S → E → S}
  {inv : S → Prop} {m : S → M} {spent earned : S → E → M}

/-- **What every step can pay for is paid for over the run.** -/
theorem total_le (hinv : ∀ s e, inv s → inv (step s e))
    (hstep : ∀ s e, inv s → m s + spent s e ≤ m (step s e) + earned s e) {s : S}
    (hs : inv s) (events : List E) :
    m s + total step spent s events ≤
      m (events.foldl step s) + total step earned s events := by
  induction events generalizing s with
  | nil => exact le_rfl
  | cons e events ih =>
      rw [List.foldl_cons, total_cons, total_cons]
      calc
        _ = m s + spent s e + total step spent (step s e) events := (add_assoc _ _ _).symm
        _ ≤ m (step s e) + earned s e + total step spent (step s e) events :=
              add_le_add_left (hstep s e hs) _
        _ = m (step s e) + total step spent (step s e) events + earned s e := by abel
        _ ≤ m (events.foldl step (step s e)) + total step earned (step s e) events +
              earned s e := add_le_add_left (ih (hinv s e hs)) _
        _ = _ := by abel

end Ordered

section Natural

variable (step : S → E → S)

theorem total_mul (c : ℕ) (amount : S → E → ℕ) (s : S) (events : List E) :
    total step (fun s e => c * amount s e) s events = c * total step amount s events := by
  induction events generalizing s with
  | nil => rfl
  | cons e events ih => rw [total_cons, ih, total_cons, Nat.mul_add]

/-- Counting the events of a kind. -/
theorem total_count (p : E → Bool) (s : S) (events : List E) :
    total step (fun _ e => (p e).toNat) s events = events.countP p := by
  induction events generalizing s with
  | nil => rfl
  | cons e events ih =>
      rw [total_cons, ih, List.countP_cons, Nat.add_comm]
      cases p e <;> rfl

end Natural

end Accounts

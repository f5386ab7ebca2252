import Mathlib.Data.List.Basic

/-!
# Following a chain

A list in memory is a first node and, for each node, the next one.  `Links` says which
nodes are met on the way from one node to another; `walk` is the loop that follows the
chain until a test holds, with the number of turns it is allowed.

* `walk_eq_some_iff` — the loop ends at a node exactly when that is the first node of
  the chain with the test, and it is met in time.
* `walk_congr` — it depends on the nodes of the chain only.
-/

namespace Chain

variable {A : Type*}

/-- The nodes from `a` on, before `b`. -/
def Links (next : A → A) : A → List A → A → Prop
  | a, [], b => a = b
  | a, x :: xs, b => a = x ∧ Links next (next x) xs b

/-- `while(!stop(a)) a = next(a);` -/
def walk (next : A → A) (stop : A → Bool) : ℕ → A → Option A
  | 0, _ => none
  | fuel + 1, a => if stop a then some a else walk next stop fuel (next a)

/-- **The loop ends at the first node with the test.** -/
theorem walk_eq_some_iff {next : A → A} {stop : A → Bool} {fuel : ℕ} {a b : A} :
    walk next stop fuel a = some b ↔
      ∃ xs, Links next a xs b ∧ xs.length < fuel ∧ (∀ x ∈ xs, stop x = false) ∧
        stop b = true := by
  induction fuel generalizing a with
  | zero => exact iff_of_false (Option.some_ne_none b).symm fun ⟨_, _, h, _⟩ => Nat.not_lt_zero _ h
  | succ fuel ih =>
      rw [walk]
      cases hstop : stop a with
      | true =>
          rw [if_pos rfl, Option.some_inj]
          constructor
          · rintro rfl
            exact ⟨[], rfl, Nat.succ_pos fuel, fun x hx => absurd hx List.not_mem_nil, hstop⟩
          · rintro ⟨xs, hlinks, -, hnot, -⟩
            cases xs with
            | nil => exact hlinks
            | cons x xs =>
                have hx := hnot x List.mem_cons_self
                rw [← hlinks.1, hstop] at hx
                exact absurd hx Bool.noConfusion
      | false =>
          rw [if_neg Bool.false_ne_true, ih]
          constructor
          · rintro ⟨xs, hlinks, hlt, hnot, hb⟩
            exact ⟨a :: xs, ⟨rfl, hlinks⟩, Nat.succ_lt_succ hlt,
              List.forall_mem_cons.mpr ⟨hstop, hnot⟩, hb⟩
          · rintro ⟨xs, hlinks, hlt, hnot, hb⟩
            cases xs with
            | nil =>
                rw [← (hlinks : a = b), hstop] at hb
                exact absurd hb Bool.noConfusion
            | cons x xs =>
                obtain ⟨rfl, hrest⟩ := hlinks
                exact ⟨xs, hrest, Nat.lt_of_succ_lt_succ hlt,
                  (List.forall_mem_cons.mp hnot).2, hb⟩

/-- A way is two ways with a node between them. -/
theorem links_append {next : A → A} {a b : A} {xs ys : List A} :
    Links next a (xs ++ ys) b ↔ ∃ c, Links next a xs c ∧ Links next c ys b := by
  induction xs generalizing a with
  | nil => exact ⟨fun h => ⟨a, rfl, h⟩, fun ⟨_, hc, h⟩ => hc ▸ h⟩
  | cons x xs ih =>
      rw [List.cons_append, Links, ih]
      constructor
      · rintro ⟨hx, c, hxs, hys⟩
        exact ⟨c, ⟨hx, hxs⟩, hys⟩
      · rintro ⟨c, ⟨hx, hxs⟩, hys⟩
        exact ⟨hx, c, hxs, hys⟩

/-- **A walk stays the same** where the nodes of the chain keep their links and the test, up
to an end that has the test. -/
theorem walk_congr {next next' : A → A} {stop stop' : A → Bool} {a b : A} {xs : List A}
    (h : Links next a xs b) (hnext : ∀ x ∈ xs, next' x = next x)
    (hstop : ∀ x ∈ xs, stop' x = stop x) (hb : stop b = true) (hb' : stop' b = true)
    (fuel : ℕ) : walk next' stop' fuel a = walk next stop fuel a := by
  induction fuel generalizing a xs with
  | zero => rfl
  | succ fuel ih =>
      cases xs with
      | nil =>
          rw [(h : a = b), walk, walk, if_pos hb, if_pos hb']
      | cons x xs =>
          obtain ⟨rfl, hrest⟩ := h
          obtain ⟨hx, hxs⟩ := List.forall_mem_cons.mp hnext
          obtain ⟨hx', hxs'⟩ := List.forall_mem_cons.mp hstop
          rw [walk, walk, hx, hx', ih hrest hxs hxs']

end Chain

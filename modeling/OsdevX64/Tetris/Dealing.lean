import Mathlib.Tactic.IntervalCases
import OsdevX64.Tetris.Shuffle

/-!
# Which types are dealt

Successive calls of `_new_piece`, for any values of `rand` that are not negative.
The bag is filled again when the deal index is 6, so **a bag deals six of its seven
types**: draw `n` is entry `n % 6` of bag `n / 6` (`drawn_spec`).

Seven draws in a row therefore take the rest of one bag and the beginning of the
next.  They are a complete set of types exactly if the beginning of the next bag
makes up for what was dealt before and what was left (`bags_complete_iff`).
-/

namespace OsdevX64.TetrisModule

/-! ## Draws -/

/-- The game with the number of values of `rand` that were used. -/
structure Dealer where
  game : Tetris
  used : ℕ

/-- Fill the bag with the given values of `rand`. -/
def refillFrom (rs : ℕ → ℤ) (g : Tetris) : Tetris := { g with bag := shuffle g.bag rs }

/-- A call of `_new_piece`: the type it returns. -/
def deal (rs : ℕ → ℤ) (s : Dealer) : ℤ × Dealer :=
  let (type, g) := newPiece (refillFrom fun i => rs (s.used + i)) s.game
  (type, ⟨g, if s.game.idx = 6 then s.used + 7 else s.used⟩)

/-- After `n` calls. -/
def afterDraws (rs : ℕ → ℤ) : ℕ → Dealer
  | 0 => ⟨Tetris.boot, 0⟩
  | n + 1 => (deal rs (afterDraws rs n)).2

/-- The type that call number `n` returns, from 0 on. -/
def drawn (rs : ℕ → ℤ) (n : ℕ) : ℤ := (deal rs (afterDraws rs n)).1

/-- The shuffle of the source is the one with the values of its `rand`. -/
theorem newPiece_refillFrom (g : Tetris) :
    (newPiece refillBag g).1 = (newPiece (refillFrom (randValues g.rngState)) g).1 := by
  unfold newPiece
  rw [refillBag_eq]
  split_ifs <;> rfl

/-- The order in which bag number `b` is filled. -/
def order (rs : ℕ → ℤ) (b : ℕ) : Equiv.Perm (Fin 7) := orderAfter (fun i => rs (7 * b + i)) 7

/-- Bag number `b`. -/
def bagList (rs : ℕ → ℤ) (b : ℕ) : List ℤ := List.ofFn fun x : Fin 7 => ((order rs b x : ℕ) : ℤ)

/-- The dealer is at entry `i` of bag number `b`. -/
structure Dealing (rs : ℕ → ℤ) (s : Dealer) (b i : ℕ) : Prop where
  idx : s.game.idx = i
  used : s.used = 7 * (b + 1)
  bag : ∀ x : Fin 7, s.game.bag.cell x = (order rs b x : ℕ)

section Draws

variable {rs : ℕ → ℤ} {s : Dealer}

/-- A draw from a bag that is not used up. -/
theorem Dealing.deal {b i : ℕ} (h : Dealing rs s b i) (hi : i < 6) :
    (deal rs s).1 = (order rs b (Fin.ofNat 7 i) : ℕ) ∧ Dealing rs (deal rs s).2 b (i + 1) := by
  have hidx := h.idx
  have hne : s.game.idx ≠ 6 := by omega
  have hi7 : ((Fin.ofNat 7 i : Fin 7) : ℤ) = i := by
    exact_mod_cast Nat.mod_eq_of_lt (by omega : i < 7)
  have hentry := h.bag (Fin.ofNat 7 i)
  rw [hi7] at hentry
  unfold TetrisModule.deal newPiece
  rw [if_neg hne, if_neg hne]
  refine ⟨?_, ?_, h.used, h.bag⟩
  · show s.game.bag.cell s.game.idx = _
    rw [hidx, hentry]
  · show s.game.idx + 1 = _
    rw [hidx]
    rfl

/-- A draw that fills the bag first. -/
theorem deal_refill (hrs : ∀ n, 0 ≤ rs n) {b : ℕ} (hidx : s.game.idx = 6) (hused : s.used = 7 * b) :
    (deal rs s).1 = (order rs b 0 : ℕ) ∧ Dealing rs (deal rs s).2 b 1 := by
  have hbag (x : Fin 7) : (shuffle s.game.bag fun i => rs (s.used + i)).cell x =
      (order rs b x : ℕ) := by
    rw [shuffle_cell _ (fun i => hrs _), hused]
    rfl
  unfold deal newPiece
  rw [if_pos hidx, if_pos hidx]
  exact ⟨hbag 0, rfl, by rw [hused]; rfl, hbag⟩

/-- **Draw `n` is entry `n % 6` of bag `n / 6`.** -/
theorem drawn_spec (hrs : ∀ n, 0 ≤ rs n) (n : ℕ) :
    drawn rs n = (order rs (n / 6) (Fin.ofNat 7 (n % 6)) : ℕ) ∧
      Dealing rs (afterDraws rs (n + 1)) (n / 6) (n % 6 + 1) := by
  induction n with
  | zero => exact deal_refill hrs rfl rfl
  | succ n ih =>
      obtain ⟨-, hdealing⟩ := ih
      have hmod := Nat.mod_lt n (by decide : 0 < 6)
      by_cases hlast : n % 6 + 1 = 6
      · have hdiv : (n + 1) / 6 = n / 6 + 1 := by omega
        have hfirst : (n + 1) % 6 = 0 := by omega
        rw [hdiv, hfirst]
        refine deal_refill hrs ?_ hdealing.used
        rw [hdealing.idx, hlast]
        rfl
      · have hdiv : (n + 1) / 6 = n / 6 := by omega
        have hnext : (n + 1) % 6 = n % 6 + 1 := by omega
        rw [hdiv, hnext]
        exact hdealing.deal (by omega)

end Draws

/-! ## Complete sets -/

/-- Draws number `7 * k` to `7 * k + 6` return every type once. -/
def Complete (rs : ℕ → ℤ) (k : ℕ) : Prop :=
  ((List.range 7).map fun i => drawn rs (7 * k + i)).Perm types

/-- The first `r + 1` types of a bag are, in some order, the first `r` and the last of
the bag before it. -/
def Completes (before after : List ℤ) (r : ℕ) : Prop :=
  (after.take (r + 1)).Perm (before.take r ++ before.drop 6)

instance (before after : List ℤ) (r : ℕ) : Decidable (Completes before after r) :=
  inferInstanceAs (Decidable (List.Perm _ _))

theorem bagList_perm (rs : ℕ → ℤ) (b : ℕ) : (bagList rs b).Perm types :=
  (order rs b).ofFn_comp_perm fun x => ((x : ℕ) : ℤ)

/-- Seven draws in a row: the rest of a bag, but for its last type, and the beginning of
the next. -/
theorem window_eq {rs : ℕ → ℤ} (hrs : ∀ n, 0 ≤ rs n) (k : ℕ) :
    (List.range 7).map (fun i => drawn rs (7 * k + i)) =
      ((bagList rs (k + k / 6)).take 6).drop (k % 6) ++
        (bagList rs (k + k / 6 + 1)).take (k % 6 + 1) := by
  have hdrawn (i : ℕ) (hi : i < 7) : drawn rs (7 * k + i) =
      if k % 6 + i < 6 then ((order rs (k + k / 6) (Fin.ofNat 7 (k % 6 + i)) : ℕ) : ℤ)
      else ((order rs (k + k / 6 + 1) (Fin.ofNat 7 (k % 6 + i - 6)) : ℕ) : ℤ) := by
    rw [(drawn_spec hrs _).1]
    split_ifs with hrest
    · rw [show (7 * k + i) / 6 = k + k / 6 by omega, show (7 * k + i) % 6 = k % 6 + i by omega]
    · rw [show (7 * k + i) / 6 = k + k / 6 + 1 by omega,
        show (7 * k + i) % 6 = k % 6 + i - 6 by omega]
  rw [List.map_congr_left fun i hi => hdrawn i (List.mem_range.mp hi)]
  have hmod := Nat.mod_lt k (by decide : 0 < 6)
  unfold bagList
  generalize order rs (k + k / 6) = before
  generalize order rs (k + k / 6 + 1) = after
  generalize k % 6 = r at hmod
  interval_cases r <;> rfl

/-- **Seven draws are complete exactly if the next bag begins with the types that are
missing**: those that the bag before it dealt to the seven draws before, and the one
that it kept. -/
theorem bags_complete_iff (rs : ℕ → ℤ) (hrs : ∀ n, 0 ≤ rs n) (k : ℕ) :
    Complete rs k ↔
      Completes (bagList rs (k + k / 6)) (bagList rs (k + k / 6 + 1)) (k % 6) := by
  have hall := bagList_perm rs (k + k / 6)
  unfold Complete Completes
  rw [window_eq hrs]
  generalize bagList rs (k + k / 6) = before at hall ⊢
  generalize (bagList rs (k + k / 6 + 1)).take (k % 6 + 1) = start
  have hmod := Nat.mod_lt k (by decide : 0 < 6)
  -- the bag is what was dealt before, what these draws take of it, and its last type
  have hsplit : before.take (k % 6) ++ (before.take 6).drop (k % 6) ++ before.drop 6 = before := by
    have htake : before.take (k % 6) = (before.take 6).take (k % 6) := by
      rw [List.take_take, Nat.min_eq_left (by omega)]
    rw [htake, List.take_append_drop, List.take_append_drop]
  have hparts : ((before.take 6).drop (k % 6) ++ (before.take (k % 6) ++ before.drop 6)).Perm
      types := by
    refine List.Perm.trans ?_ hall
    conv_rhs => rw [← hsplit]
    rw [← List.append_assoc]
    exact List.perm_append_comm.append_right _
  constructor
  · intro hcomplete
    exact (List.perm_append_left_iff _).mp (hcomplete.trans hparts.symm)
  · intro hstart
    exact ((List.perm_append_left_iff _).mpr hstart).trans hparts

/-- Every bag in order, but the second begins with the last type of the first. -/
def makingUp (n : ℕ) : ℤ := if n = 7 then 6 else n % 7

theorem bags_complete_iff_makingUp : Complete makingUp 0 :=
  (bags_complete_iff makingUp (fun n => by unfold makingUp; split_ifs <;> omega) 0).mpr
    (by decide)

/-- Every bag in order: the seventh draw returns the first type once more, and the last
type is not dealt. -/
theorem seventh_draw_repeats :
    drawn (fun n => n % 7) 0 = 0 ∧ drawn (fun n => n % 7) 6 = 0 ∧
      ¬ Complete (fun n => n % 7) 0 := by
  have hrs (n : ℕ) : 0 ≤ (n : ℤ) % 7 := by omega
  refine ⟨(drawn_spec hrs 0).1.trans (by decide), (drawn_spec hrs 6).1.trans (by decide), ?_⟩
  unfold Complete
  rw [window_eq hrs]
  decide

end OsdevX64.TetrisModule

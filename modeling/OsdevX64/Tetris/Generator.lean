import OsdevX64.Lib.XorShift
import OsdevX64.Tetris.Shuffle

/-!
# The generator

`rand` is three xor-shifts of `rng_state`.  The two left shifts lose nothing, but the
right shift is that of an `int`: it copies the sign.  So `rand` is not injective, **two
states have the same successor exactly if they differ by `fatalState`**
(`xorshift_eq_iff`), and `fatalState` itself is the one state other than 0 that is
followed by 0.

No state is followed by `fatalState` (`xorshift_ne_fatal`).  A run thus ends in 0 only if
it begins there (`rand_degenerates_iff`), and the game, which begins with another seed,
never gets there (`runGame_alive`).
-/

namespace OsdevX64.TetrisModule

open Kernel XorShift

/-- The state whose bits are all set by the first shift. -/
def fatalState : BitVec 32 := 0xFC001FFF

theorem left_fatalState : left 13 fatalState = BitVec.allOnes 32 := by decide

theorem xorshift_eq (s : BitVec 32) : xorshift s = left 5 (arith 17 (left 13 s)) := rfl

/-- **Which states have the same successor.** -/
theorem xorshift_eq_iff (s t : BitVec 32) :
    xorshift s = xorshift t ↔ s = t ∨ s ^^^ t = fatalState := by
  rw [xorshift_eq, xorshift_eq, left_eq_iff (by decide), arith_eq_iff (by decide),
    left_eq_iff (by decide), ← left_xor, ← left_fatalState, left_eq_iff (by decide)]

theorem xorshift_eq_zero_iff (s : BitVec 32) : xorshift s = 0 ↔ s = 0 ∨ s = fatalState := by
  have hzero := xorshift_eq_iff s 0#32
  rw [BitVec.xor_zero, show xorshift 0#32 = 0#32 by decide] at hzero
  exact hzero

/-- The right shift leaves no state that the last shift could turn into this one. -/
theorem xorshift_ne_fatal (s : BitVec 32) : xorshift s ≠ fatalState := by
  have hlast : left 5 (0xB2739C1F : BitVec 32) = fatalState := by decide
  rw [xorshift_eq, ← hlast, ne_eq, left_eq_iff (by decide)]
  intro heq
  have hmsb := msb_arith 17 (left 13 s)
  rw [heq] at hmsb
  exact absurd hmsb (by decide)

/-- A state that no run takes to 0. -/
def Alive (s : BitVec 32) : Prop := s ≠ 0 ∧ s ≠ fatalState

instance (s : BitVec 32) : Decidable (Alive s) := inferInstanceAs (Decidable (_ ∧ _))

theorem Alive.xorshift {s : BitVec 32} (h : Alive s) : Alive (xorshift s) :=
  ⟨fun hzero => ((xorshift_eq_zero_iff s).mp hzero).elim h.1 h.2, xorshift_ne_fatal s⟩

theorem Alive.iterate {s : BitVec 32} (h : Alive s) (n : ℕ) :
    Alive (TetrisModule.xorshift^[n] s) := by
  induction n with
  | zero => exact h
  | succ n ih =>
      rw [Function.iterate_succ_apply']
      exact ih.xorshift

/-! ## Calls of `rand` -/

/-- The game after `n` calls of `rand`. -/
def randCalls (g : Tetris) (n : ℕ) : Tetris := (fun g => (rand g).2)^[n] g

theorem rand_rngState (g : Tetris) : (rand g).2.rngState = xorshift g.rngState := rfl

theorem randCalls_rngState (g : Tetris) (n : ℕ) :
    (randCalls g n).rngState = xorshift^[n] g.rngState := by
  induction n with
  | zero => rfl
  | succ n ih =>
      rw [randCalls, Function.iterate_succ_apply', rand_rngState, Function.iterate_succ_apply',
        ← ih]
      rfl

/-- **Where the generator degenerates.**  Two states are followed by the same one if they
differ by `fatalState`, a state is followed by 0 if it is `fatalState`, and so is a run if
it begins there. -/
theorem rand_degenerates_iff (g : Tetris) :
    (∀ g' : Tetris, (rand g).2.rngState = (rand g').2.rngState ↔
      g.rngState = g'.rngState ∨ g.rngState ^^^ g'.rngState = fatalState) ∧
    ((rand g).2.rngState = 0 ↔ g.rngState = 0 ∨ g.rngState = fatalState) ∧
    ((∃ n, (randCalls g n).rngState = 0) ↔ g.rngState = 0 ∨ g.rngState = fatalState) := by
  refine ⟨fun g' => ?_, ?_, ?_⟩
  · rw [rand_rngState, rand_rngState]
    exact xorshift_eq_iff g.rngState g'.rngState
  · rw [rand_rngState]
    exact xorshift_eq_zero_iff g.rngState
  · constructor
    · rintro ⟨n, hzero⟩
      rw [randCalls_rngState] at hzero
      by_contra hstate
      exact (Alive.iterate (not_or.mp hstate) n).1 hzero
    · rintro (hzero | hfatal)
      · exact ⟨0, hzero⟩
      · exact ⟨1, (xorshift_eq_zero_iff g.rngState).mpr (Or.inr hfatal)⟩

/-- **`fatalState` is followed by 0**, and 1 and 0xFC001FFE by the same state. -/
theorem fatalState_degenerates :
    let game (s : BitVec 32) : Tetris := { Tetris.boot with rngState := s }
    (rand (game 0xFC001FFF)).2.rngState = 0 ∧ (randCalls (game 0xFC001FFF) 1).rngState = 0 ∧
      (rand (game 1)).2.rngState = (rand (game 0xFC001FFE)).2.rngState ∧
      ¬ Function.Injective (fun s => (rand (game s)).2.rngState) := by
  intro game
  have hsame : (rand (game 1)).2.rngState = (rand (game 0xFC001FFE)).2.rngState := by decide
  refine ⟨by decide, by decide, hsame, fun hinj => ?_⟩
  exact absurd (hinj hsame) (by decide)

/-! ## Runs of the game -/

/-- A new piece takes seven values of `rand` or none. -/
theorem newPiece_alive {g : Tetris} (h : Alive g.rngState) :
    Alive (newPiece refillBag g).2.rngState := by
  unfold newPiece takePiece
  dsimp only
  split_ifs
  · rw [refillBag_eq]
    exact h.iterate 7
  · exact h

theorem land_alive {g : Tetris} (h : Alive g.rngState) : Alive (land refillBag g).rngState := by
  unfold land
  rw [(spawn_supply _).rngState]
  exact newPiece_alive (g := lock g) h

theorem mmain_alive (g : Tetris) : Alive (mmain refillBag g).1.rngState :=
  newPiece_alive (g := reset g) (by show Alive 31419526; decide)

/-- **In every run of the game the generator stays alive.** -/
theorem runGame_alive (signals : List Signal) : Alive (runGame signals).rngState := by
  refine List.foldlRecOn (motive := fun g : Tetris => Alive g.rngState) signals _
    (mmain_alive Tetris.boot) ?_
  intro g hg signal _
  cases signal with
  | init => exact mmain_alive g
  | keyboard e =>
      show Alive (keyChange g e).rngState
      rw [(keyChange_supply g e).rngState]
      exact hg
  | timer =>
      show Alive (timerEvent refillBag g).rngState
      rw [timerEvent_eq]
      split_ifs
      · exact land_alive hg
      · exact hg

end OsdevX64.TetrisModule

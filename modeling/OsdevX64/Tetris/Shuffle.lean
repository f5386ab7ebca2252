import Mathlib.Algebra.Group.End
import Mathlib.Data.List.OfFn
import Mathlib.Logic.Equiv.Fin.Basic
import Mathlib.Tactic.FinCases
import OsdevX64.Tetris.Invariant

/-!
# The shuffle

`_new_piece` fills the bag with the seven types and swaps every entry `i` with the
entry `rand() % 7`.  `shuffle` is this loop with the values of `rand` as an argument
(`refillBag_eq`).  With values that are not negative it composes seven transpositions
(`shuffle_cell`), so the bag stays a permutation of the types.

But `rand` returns a signed number and `%` keeps its sign.  Every index is in range
exactly when no remainder is negative (`shuffle_within_iff`), and **the second value
from the initial `rng_state` already gives the index -2**, so that no run of the game
is safe (`shuffle_never_safe`).
-/

namespace OsdevX64.TetrisModule

open Kernel

/-! ## The loops with the values of `rand` -/

/-- The new `rng_state`. -/
def xorshift (s : BitVec 32) : BitVec 32 :=
  let s := s ^^^ s <<< 13
  let s := s ^^^ s.sshiftRight 17
  s ^^^ s <<< 5

/-- The values that `rand` returns from a state on. -/
def randValues (s : BitVec 32) (n : ℕ) : ℤ := (xorshift^[n + 1] s).toInt

/-- One swap, with the value of `rand`. -/
def swapWith (bag : Tracked ℤ ℤ) (i r : ℤ) : Tracked ℤ ℤ :=
  let j := r.tmod 7
  let (tmp, bag) := bag.read i
  let (b, bag) := bag.read j
  (bag.write i b).write j tmp

/-- The bag before the shuffle. -/
def sortedBag (bag : Tracked ℤ ℤ) : Tracked ℤ ℤ :=
  (List.range 7).foldl (fun bag (i : ℕ) => bag.write (i : ℤ) (i : ℤ)) bag

/-- The first `n` swaps. -/
def swaps (bag : Tracked ℤ ℤ) (rs : ℕ → ℤ) (n : ℕ) : Tracked ℤ ℤ :=
  (List.range n).foldl (fun bag (i : ℕ) => swapWith bag i (rs i)) bag

/-- The loops that fill and shuffle the bag. -/
def shuffle (bag : Tracked ℤ ℤ) (rs : ℕ → ℤ) : Tracked ℤ ℤ := swaps (sortedBag bag) rs 7

theorem swaps_succ (bag : Tracked ℤ ℤ) (rs : ℕ → ℤ) (n : ℕ) :
    swaps bag rs (n + 1) = swapWith (swaps bag rs n) n (rs n) := by
  rw [swaps, List.range_succ, List.foldl_append]
  rfl

theorem foldl_swapBag (g : Tetris) (n : ℕ) :
    (List.range n).foldl (fun g (i : ℕ) => swapBag g i) g =
      { g with
        bag := swaps g.bag (randValues g.rngState) n
        rngState := xorshift^[n] g.rngState } := by
  induction n with
  | zero => rfl
  | succ n ih =>
      rw [List.range_succ, List.foldl_append, ih, swaps_succ, List.foldl_cons, List.foldl_nil,
        randValues, Function.iterate_succ_apply']
      rfl

/-- **The refill shuffles with the next seven values of `rand`.** -/
theorem refillBag_eq (g : Tetris) :
    refillBag g =
      { g with
        bag := shuffle g.bag (randValues g.rngState)
        rngState := xorshift^[7] g.rngState } :=
  foldl_swapBag { g with bag := sortedBag g.bag } 7

/-! ## Indices -/

/-- An index of the array `bag`. -/
def IsBagIndex (i : ℤ) : Prop := 0 ≤ i ∧ i < 7

theorem sortedBag_within {bag : Tracked ℤ ℤ} (h : bag.Within IsBagIndex) :
    (sortedBag bag).Within IsBagIndex := by
  refine List.foldlRecOn (motive := fun bag : Tracked ℤ ℤ => bag.Within IsBagIndex) _ _ h
    fun bag hbag i hi => hbag.write ?_ _
  have hlt := List.mem_range.mp hi
  exact ⟨by omega, by omega⟩

theorem swapWith_within {bag : Tracked ℤ ℤ} (h : bag.Within IsBagIndex) {i r : ℤ}
    (hi : IsBagIndex i) (hr : IsBagIndex (r.tmod 7)) : (swapWith bag i r).Within IsBagIndex :=
  (((h.read hi).read hr).write hi _).write hr _

/-- The history of a bag only grows. -/
theorem swapWith_reads (bag : Tracked ℤ ℤ) (i r : ℤ) :
    (swapWith bag i r).reads = r.tmod 7 :: i :: bag.reads := rfl

/-- A remainder that is not negative is an index. -/
theorem isBagIndex_tmod {r : ℤ} : IsBagIndex (r.tmod 7) ↔ 0 ≤ r.tmod 7 :=
  ⟨fun h => h.1, fun h => ⟨h, Int.tmod_lt_of_pos r (by decide)⟩⟩

theorem mem_swaps_reads (bag : Tracked ℤ ℤ) (rs : ℕ → ℤ) {i n : ℕ} (hi : i < n) :
    (rs i).tmod 7 ∈ (swaps bag rs n).reads := by
  induction n with
  | zero => exact absurd hi (Nat.not_lt_zero i)
  | succ n ih =>
      rw [swaps_succ, swapWith_reads]
      rcases Nat.lt_succ_iff_lt_or_eq.mp hi with hi | rfl
      · exact List.mem_cons_of_mem _ (List.mem_cons_of_mem _ (ih hi))
      · exact List.mem_cons_self

theorem swaps_within {bag : Tracked ℤ ℤ} (h : bag.Within IsBagIndex) {rs : ℕ → ℤ} {n : ℕ}
    (hn : n ≤ 7) (hrs : ∀ i < n, 0 ≤ (rs i).tmod 7) : (swaps bag rs n).Within IsBagIndex := by
  induction n with
  | zero => exact h
  | succ n ih =>
      rw [swaps_succ]
      have hlast : n < 7 := hn
      exact swapWith_within (ih hlast.le fun i hi => hrs i (Nat.lt_succ_of_lt hi))
        ⟨by omega, by omega⟩ (isBagIndex_tmod.mpr (hrs n (Nat.lt_succ_self n)))

/-- **The shuffle stays in the bag exactly when no remainder is negative.** -/
theorem shuffle_within_iff {bag : Tracked ℤ ℤ} (h : bag.Within IsBagIndex) (rs : ℕ → ℤ) :
    (shuffle bag rs).Within IsBagIndex ↔ ∀ i < 7, 0 ≤ (rs i).tmod 7 := by
  constructor
  · intro hwithin i hi
    exact (hwithin.reads _ (mem_swaps_reads _ rs hi)).1
  · intro hrs
    exact swaps_within (sortedBag_within h) (Nat.le_refl 7) hrs

/-! ## The order of the bag -/

/-- The entry that a value selects, if it is not negative. -/
def slot (r : ℤ) : Fin 7 := ⟨(r % 7).toNat, by omega⟩

/-- The order of the bag after `n` swaps. -/
def orderAfter (rs : ℕ → ℤ) : ℕ → Equiv.Perm (Fin 7)
  | 0 => 1
  | n + 1 => orderAfter rs n * Equiv.swap (slot (rs n)) (Fin.ofNat 7 n)

/-- The seven types. -/
def types : List ℤ := List.ofFn fun x : Fin 7 => (x : ℤ)

/-- The content of the bag. -/
def bagTypes (bag : Tracked ℤ ℤ) : List ℤ := List.ofFn fun x : Fin 7 => bag.cell x

theorem slot_eq {r : ℤ} (hr : 0 ≤ r) : (slot r : ℤ) = r.tmod 7 := by
  rw [Int.tmod_eq_emod_of_nonneg hr]
  exact Int.toNat_of_nonneg (Int.emod_nonneg r (by decide))

theorem swapWith_cell (bag : Tracked ℤ ℤ) (i r : ℤ) :
    (swapWith bag i r).cell = bag.cell ∘ Equiv.swap (r.tmod 7) i :=
  (Equiv.comp_swap_eq_update (r.tmod 7) i bag.cell).symm

theorem sortedBag_cell (bag : Tracked ℤ ℤ) (x : Fin 7) : (sortedBag bag).cell x = x := by
  fin_cases x <;> rfl

/-- The swaps compose transpositions of the entries. -/
theorem swaps_cell (bag : Tracked ℤ ℤ) {rs : ℕ → ℤ} (hrs : ∀ i, 0 ≤ rs i) {n : ℕ} (hn : n ≤ 7)
    (x : Fin 7) : (swaps bag rs n).cell x = bag.cell (orderAfter rs n x) := by
  induction n generalizing x with
  | zero => rfl
  | succ n ih =>
      have hlast : n < 7 := hn
      have hcast : Function.Injective fun x : Fin 7 => (x : ℤ) := by
        intro x y hxy
        exact Fin.ext (Int.ofNat.inj hxy)
      have hn' : ((Fin.ofNat 7 n : Fin 7) : ℤ) = n := by
        exact_mod_cast Nat.mod_eq_of_lt hlast
      have hswap := hcast.swap_apply (slot (rs n)) (Fin.ofNat 7 n) x
      rw [slot_eq (hrs n), hn'] at hswap
      rw [swaps_succ, swapWith_cell, Function.comp_apply, hswap, ih hlast.le]
      rfl

/-- **With values that are not negative the shuffle puts the types in an order.** -/
theorem shuffle_cell (bag : Tracked ℤ ℤ) {rs : ℕ → ℤ} (hrs : ∀ i, 0 ≤ rs i) (x : Fin 7) :
    (shuffle bag rs).cell x = (orderAfter rs 7 x : ℕ) := by
  rw [shuffle, swaps_cell _ hrs (Nat.le_refl 7), sortedBag_cell]

/-- The bag is a permutation of the types. -/
theorem bagTypes_shuffle (bag : Tracked ℤ ℤ) {rs : ℕ → ℤ} (hrs : ∀ i, 0 ≤ rs i) :
    (bagTypes (shuffle bag rs)).Perm types := by
  unfold bagTypes
  simp only [shuffle_cell bag hrs]
  exact (orderAfter rs 7).ofFn_comp_perm fun x => ((x : ℕ) : ℤ)

/-! ## Runs -/

/-- The game after INIT and the given signals. -/
def runGame (signals : List Signal) : Tetris :=
  (.init :: signals).foldl (fun g signal => (signalHandler refillBag g signal).1) Tetris.boot

/-- Every index of the bag was in range, the bag is a permutation of the types, and
both pieces have a type. -/
structure SafeBag (g : Tetris) : Prop where
  indices : g.bag.Within IsBagIndex
  bag : (bagTypes g.bag).Perm types
  cp : IsType g.cp.type
  np : IsType g.np.type

/-- What a new piece reads of a bag that has to be filled first. -/
theorem newPiece_reads_refill {g : Tetris} (hidx : g.idx = 6) :
    (newPiece refillBag g).2.bag.reads =
      0 :: (shuffle g.bag (randValues g.rngState)).reads := by
  unfold newPiece
  rw [if_pos hidx, refillBag_eq]
  rfl

theorem newPiece_reads (g : Tetris) : g.bag.reads ⊆ (newPiece refillBag g).2.bag.reads := by
  have hswaps (bag : Tracked ℤ ℤ) (rs : ℕ → ℤ) (n : ℕ) : bag.reads ⊆ (swaps bag rs n).reads := by
    induction n with
    | zero => exact List.Subset.refl _
    | succ n ih =>
        rw [swaps_succ, swapWith_reads]
        exact fun i hi => List.mem_cons_of_mem _ (List.mem_cons_of_mem _ (ih hi))
  by_cases hidx : g.idx = 6
  · rw [newPiece_reads_refill hidx]
    exact List.Subset.trans (hswaps (sortedBag g.bag) _ 7) (List.subset_cons_self _ _)
  · unfold newPiece
    rw [if_neg hidx]
    exact List.subset_cons_self _ _

/-- What the next pieces come from is the same: the bag and the state of the generator. -/
structure SameSupply (g g' : Tetris) : Prop where
  bag : g'.bag = g.bag
  rngState : g'.rngState = g.rngState

theorem SameSupply.refl (g : Tetris) : SameSupply g g := ⟨rfl, rfl⟩

theorem spawn_supply (g : Tetris) : SameSupply g (spawn g) := by
  unfold spawn
  split_ifs
  · exact ⟨rfl, rfl⟩
  · exact SameSupply.refl g

theorem tryMove_supply (g : Tetris) (move undo : Piece → Piece) :
    SameSupply g (tryMove g move undo) := by
  unfold tryMove
  dsimp only
  split_ifs
  · exact ⟨rfl, rfl⟩
  · exact ⟨rfl, rfl⟩

/-- No key changes the supply. -/
theorem keyChange_supply (g : Tetris) (e : ModuleKeyEvent) : SameSupply g (keyChange g e) := by
  unfold keyChange rotate moveLeft moveRight
  split_ifs <;> first
    | exact ⟨rfl, rfl⟩
    | exact tryMove_supply g _ _

/-- **No signal removes an index from the history of the bag.** -/
theorem signal_reads (g : Tetris) (signal : Signal) :
    g.bag.reads ⊆ (signalHandler refillBag g signal).1.bag.reads := by
  cases signal with
  | init => exact newPiece_reads (reset g)
  | keyboard e =>
      show g.bag.reads ⊆ (keyChange g e).bag.reads
      rw [(keyChange_supply g e).bag]
      exact List.Subset.refl _
  | timer =>
      show g.bag.reads ⊆ (timerEvent refillBag g).bag.reads
      rw [timerEvent_eq]
      split_ifs
      · unfold land
        rw [(spawn_supply _).bag]
        exact newPiece_reads (lock g)
      · exact List.Subset.refl _

/-- When INIT fills the bag, the second value of `rand` selects the entry -2. -/
theorem init_reads : (-2 : ℤ) ∈ (mmain refillBag Tetris.boot).1.bag.reads := by
  have hvalue : (randValues (reset Tetris.boot).rngState 1).tmod 7 = -2 := by decide
  show (-2 : ℤ) ∈ (newPiece refillBag (reset Tetris.boot)).2.bag.reads
  rw [newPiece_reads_refill rfl, ← hvalue]
  exact List.mem_cons_of_mem _ (mem_swaps_reads _ _ (by decide))

theorem runGame_reads (signals : List Signal) : (-2 : ℤ) ∈ (runGame signals).bag.reads := by
  refine List.foldlRecOn (motive := fun g : Tetris => (-2 : ℤ) ∈ g.bag.reads) signals _
    init_reads ?_
  intro g hg signal _
  exact signal_reads g signal hg

/-- **No run of the game shuffles safely**: from INIT on there is an index below 0. -/
theorem shuffle_never_safe (signals : List Signal) : ¬ SafeBag (runGame signals) := by
  intro hsafe
  have hindex := hsafe.indices.reads _ (runGame_reads signals)
  exact absurd hindex.1 (by decide)

/-- INIT alone: the second swap is with the entry -2. -/
theorem init_swaps_below_bag :
    (randValues 31419526 1).tmod 7 = -2 ∧ ¬ SafeBag (runGame []) := by
  refine ⟨by decide, fun hsafe => ?_⟩
  exact absurd (hsafe.indices.reads _ (runGame_reads [])).1 (by decide)

end OsdevX64.TetrisModule

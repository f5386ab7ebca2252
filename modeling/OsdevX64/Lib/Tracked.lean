import OsdevX64.Lib.ByteMemory

/-!
# Arrays that record their accesses

A C object is an array of cells that does not check its bounds.  `Tracked ι α`
models it by a total function together with the list of the indices read and
the list of the indices written, so that "every access is in range" is a
statement about the two lists (`Within`) and the functional content stays a
plain function.

All accesses go through `read` and `write` (and their multi-byte versions), so a
loop over a tracked array stays within a set of indices when each of its steps
does.
-/

open ByteMemory

/-- An array with cells `α` indexed by `ι`, with its access history. -/
structure Tracked (ι α : Type*) where
  cell : ι → α
  /-- Indices read, the latest first. -/
  reads : List ι
  /-- Indices written, the latest first. -/
  writes : List ι

namespace Tracked

variable {ι α : Type*}

/-- An array that has not been accessed. -/
def fresh (cell : ι → α) : Tracked ι α := ⟨cell, [], []⟩

/-- Read a cell. -/
def read (t : Tracked ι α) (i : ι) : α × Tracked ι α :=
  (t.cell i, { t with reads := i :: t.reads })

/-- Write a cell. -/
def write [DecidableEq ι] (t : Tracked ι α) (i : ι) (a : α) : Tracked ι α :=
  { t with cell := Function.update t.cell i a, writes := i :: t.writes }

@[simp] theorem read_fst (t : Tracked ι α) (i : ι) : (t.read i).1 = t.cell i := rfl

@[simp] theorem cell_read (t : Tracked ι α) (i : ι) : (t.read i).2.cell = t.cell := rfl

@[simp] theorem cell_write [DecidableEq ι] (t : Tracked ι α) (i : ι) (a : α) :
    (t.write i a).cell = Function.update t.cell i a := rfl

@[simp] theorem writes_write [DecidableEq ι] (t : Tracked ι α) (i : ι) (a : α) :
    (t.write i a).writes = i :: t.writes := rfl

/-! ## Multi-byte cells -/

section Bytes

variable {A : Type*} [AddMonoidWithOne A]

/-- Read an `n`-byte little-endian object. -/
def loadBytes (t : Tracked A Byte) (a : A) (n : ℕ) : ℕ × Tracked A Byte :=
  (loadLE t.cell a n,
    { t with reads := (List.range n).map (fun i : ℕ => a + (i : A)) ++ t.reads })

/-- Write an `n`-byte little-endian object. -/
def storeBytes [DecidableEq A] (t : Tracked A Byte) (a : A) (n v : ℕ) : Tracked A Byte :=
  { t with
    cell := storeLE t.cell a n v
    writes := (List.range n).map (fun i : ℕ => a + (i : A)) ++ t.writes }

@[simp] theorem loadBytes_fst (t : Tracked A Byte) (a : A) (n : ℕ) :
    (t.loadBytes a n).1 = loadLE t.cell a n := rfl

@[simp] theorem cell_loadBytes (t : Tracked A Byte) (a : A) (n : ℕ) :
    (t.loadBytes a n).2.cell = t.cell := rfl

@[simp] theorem cell_storeBytes [DecidableEq A] (t : Tracked A Byte) (a : A) (n v : ℕ) :
    (t.storeBytes a n v).cell = storeLE t.cell a n v := rfl

end Bytes

/-! ## Staying within a set of indices -/

/-- Every access so far was at an index of `P`. -/
structure Within (t : Tracked ι α) (P : ι → Prop) : Prop where
  reads : ∀ i ∈ t.reads, P i
  writes : ∀ i ∈ t.writes, P i

variable {P : ι → Prop} {t : Tracked ι α}

theorem within_fresh (cell : ι → α) : (fresh cell).Within P :=
  ⟨by simp [fresh], by simp [fresh]⟩

theorem Within.read (h : t.Within P) {i : ι} (hi : P i) : (t.read i).2.Within P := by
  refine ⟨fun j hj => ?_, h.writes⟩
  rcases List.mem_cons.mp hj with rfl | hj
  · exact hi
  · exact h.reads j hj

theorem Within.write [DecidableEq ι] (h : t.Within P) {i : ι} (hi : P i) (a : α) :
    (t.write i a).Within P := by
  refine ⟨h.reads, fun j hj => ?_⟩
  rcases List.mem_cons.mp hj with rfl | hj
  · exact hi
  · exact h.writes j hj

section Bytes

variable {A : Type*} [AddMonoidWithOne A] {Q : A → Prop} {b : Tracked A Byte}

theorem Within.loadBytes (h : b.Within Q) {a : A} {n : ℕ}
    (ha : ∀ i < n, Q (a + (i : A))) : (b.loadBytes a n).2.Within Q := by
  refine ⟨fun j hj => ?_, h.writes⟩
  rcases List.mem_append.mp hj with hj | hj
  · obtain ⟨i, hi, rfl⟩ := List.mem_map.mp hj
    exact ha i (List.mem_range.mp hi)
  · exact h.reads j hj

theorem Within.storeBytes [DecidableEq A] (h : b.Within Q) {a : A} {n v : ℕ}
    (ha : ∀ i < n, Q (a + (i : A))) : (b.storeBytes a n v).Within Q := by
  refine ⟨h.reads, fun j hj => ?_⟩
  rcases List.mem_append.mp hj with hj | hj
  · obtain ⟨i, hi, rfl⟩ := List.mem_map.mp hj
    exact ha i (List.mem_range.mp hi)
  · exact h.writes j hj

end Bytes

end Tracked

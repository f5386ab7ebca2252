import Mathlib.Data.List.Basic

/-!
# What happens to a buffer

A buffer of a fixed size is filled and emptied through a counter.  The log of a program
has every value that the counter takes and every index that is written or read, the latest
first.  It is safe if the counter never leaves the buffer, nothing is written outside and
nothing is read that was not written before (`Safe`); each kind of event has the condition
under which a safe log stays safe.
-/

namespace BufferLog

/-- An event at the buffer. -/
inductive Event
  /-- The counter is set. -/
  | length (n : ℕ)
  | write (i : ℕ)
  | read (i : ℕ)
  deriving DecidableEq, Repr

/-- Nothing happens outside a buffer of the given size, and nothing is read that was not
written. -/
structure Safe (size : ℕ) (log : List Event) : Prop where
  length : ∀ n, .length n ∈ log → n ≤ size
  write : ∀ i, .write i ∈ log → i < size
  read : ∀ later i earlier, log = later ++ .read i :: earlier → .write i ∈ earlier

variable {size : ℕ} {log : List Event}

theorem safe_nil : Safe size [] where
  length n hn := absurd hn List.not_mem_nil
  write i hi := absurd hi List.not_mem_nil
  read later i earlier hsplit := by
    have hmem : Event.read i ∈ later ++ .read i :: earlier :=
      List.mem_append_right later List.mem_cons_self
    rw [← hsplit] at hmem
    exact absurd hmem List.not_mem_nil

/-- A read is the event that was added, or it was in the log. -/
theorem split_cons {e : Event} {later earlier : List Event} {i : ℕ}
    (h : e :: log = later ++ .read i :: earlier) :
    (e = .read i ∧ log = earlier) ∨ ∃ later', log = later' ++ .read i :: earlier := by
  cases later with
  | nil =>
      obtain ⟨rfl, rfl⟩ := List.cons.inj h
      exact Or.inl ⟨rfl, rfl⟩
  | cons e' later =>
      obtain ⟨-, hrest⟩ := List.cons.inj h
      exact Or.inr ⟨later, hrest⟩

theorem Safe.cons_length (h : Safe size log) {n : ℕ} (hn : n ≤ size) :
    Safe size (.length n :: log) where
  length m hm := by
    rcases List.mem_cons.mp hm with heq | hm
    · cases heq
      exact hn
    · exact h.length m hm
  write i hi := h.write i ((List.mem_cons.mp hi).resolve_left (by simp))
  read later i earlier hsplit := by
    rcases split_cons hsplit with ⟨heq, -⟩ | ⟨later', hlog⟩
    · cases heq
    · exact h.read later' i earlier hlog

theorem Safe.cons_write (h : Safe size log) {i : ℕ} (hi : i < size) :
    Safe size (.write i :: log) where
  length n hn := h.length n ((List.mem_cons.mp hn).resolve_left (by simp))
  write j hj := by
    rcases List.mem_cons.mp hj with heq | hj
    · cases heq
      exact hi
    · exact h.write j hj
  read later j earlier hsplit := by
    rcases split_cons hsplit with ⟨heq, -⟩ | ⟨later', hlog⟩
    · cases heq
    · exact h.read later' j earlier hlog

/-- Only what was written is read. -/
theorem Safe.cons_read (h : Safe size log) {i : ℕ} (hi : .write i ∈ log) :
    Safe size (.read i :: log) where
  length n hn := h.length n ((List.mem_cons.mp hn).resolve_left (by simp))
  write j hj := h.write j ((List.mem_cons.mp hj).resolve_left (by simp))
  read later j earlier hsplit := by
    rcases split_cons hsplit with ⟨heq, rfl⟩ | ⟨later', hlog⟩
    · cases heq
      exact hi
    · exact h.read later' j earlier hlog

end BufferLog

import Mathlib

/-!
# Arrays on the stack

An array of a fixed number of cells, none of them set when the array is declared.  A write
is in bounds or it fails; a read fails as well when its cell is not set.

## Main results

* `write_of_lt`, `write_of_le` — a write changes its own cell, or fails.
* `Holds.snoc`, `Holds.cons` — a write at either end of a run of values extends it.
* `Holds.reads` — reading the cells of a run one after the other answers its values.
-/

namespace ProtoST.Lib

universe u

/-- An array of `n` cells. -/
structure FixedArray (α : Type u) (n : Nat) where
  cells : List (Option α)
  length_cells : cells.length = n

namespace FixedArray

/-- What an access does wrong, with its index. -/
inductive Fault where
  | outOfBounds (index : Nat)
  | unset (index : Nat)
  deriving DecidableEq, Repr

variable {α : Type u} {n : Nat}

/-- The array as it is declared. -/
def declare : FixedArray α n := ⟨List.replicate n none, List.length_replicate⟩

/-- `array[i] = v`. -/
def write (a : FixedArray α n) (i : Nat) (v : α) : Except Fault (FixedArray α n) :=
  if i < n then .ok ⟨a.cells.set i (some v), by rw [List.length_set, a.length_cells]⟩
  else .error (.outOfBounds i)

/-- The value of `array[i]`. -/
def read (a : FixedArray α n) (i : Nat) : Except Fault α :=
  match a.cells[i]? with
  | none => .error (.outOfBounds i)
  | some none => .error (.unset i)
  | some (some v) => .ok v

/-- The values of the `k` cells from `lo` on. -/
def reads (a : FixedArray α n) (lo : Nat) : Nat → Except Fault (List α)
  | 0 => .ok []
  | k + 1 => do
      let v ← a.read lo
      let vs ← a.reads (lo + 1) k
      return v :: vs

theorem write_of_le {a : FixedArray α n} {i : Nat} {v : α} (h : n ≤ i) :
    a.write i v = .error (.outOfBounds i) :=
  if_neg (Nat.not_lt.mpr h)

/-- A write in bounds changes its own cell only. -/
theorem write_of_lt (a : FixedArray α n) {i : Nat} (hi : i < n) (v : α) :
    ∃ b, a.write i v = .ok b ∧ b.read i = .ok v ∧ ∀ j, j ≠ i → b.read j = a.read j := by
  have hlen : i < a.cells.length := by
    rw [a.length_cells]
    exact hi
  refine ⟨_, if_pos hi, ?_, ?_⟩
  · simp [read, hlen]
  · intro j hj
    simp [read, List.getElem?_set_ne (Ne.symm hj)]

/-- `a.Holds lo vs`: the cells from `lo` on hold the values `vs`. -/
def Holds (a : FixedArray α n) (lo : Nat) (vs : List α) : Prop :=
  lo + vs.length ≤ n ∧ ∀ i (h : i < vs.length), a.read (lo + i) = .ok vs[i]

namespace Holds

variable {a : FixedArray α n} {lo : Nat} {vs : List α}

theorem nil (h : lo ≤ n) : a.Holds lo [] := by
  refine ⟨by simpa using h, ?_⟩
  intro i hi
  simp at hi

theorem read (h : a.Holds lo vs) {i : Nat} {v : α} (hi : vs[i]? = some v) :
    a.read (lo + i) = .ok v := by
  obtain ⟨hlt, hv⟩ := List.getElem?_eq_some_iff.mp hi
  rw [h.2 i hlt, hv]

theorem tail {v : α} (h : a.Holds lo (v :: vs)) : a.Holds (lo + 1) vs := by
  refine ⟨by have := h.1; rw [List.length_cons] at this; omega, ?_⟩
  intro i hi
  have hv := h.2 (i + 1) (by simpa using hi)
  rw [List.getElem_cons_succ] at hv
  rw [← hv]
  congr 1
  omega

/-- A write behind the run. -/
theorem snoc (h : a.Holds lo vs) (hlt : lo + vs.length < n) (v : α) :
    ∃ b, a.write (lo + vs.length) v = .ok b ∧ b.Holds lo (vs ++ [v]) := by
  obtain ⟨b, hb, hnew, hold⟩ := a.write_of_lt hlt v
  refine ⟨b, hb, by rw [List.length_append, List.length_singleton]; omega, ?_⟩
  intro i hi
  by_cases heq : i = vs.length
  · subst heq
    simpa using hnew
  · have hin : i < vs.length := by
      rw [List.length_append, List.length_singleton] at hi
      omega
    rw [List.getElem_append_left hin, hold _ (by omega), h.2 i hin]

/-- A write in front of the run. -/
theorem cons (h : a.Holds (lo + 1) vs) (v : α) :
    ∃ b, a.write lo v = .ok b ∧ b.Holds lo (v :: vs) := by
  have hbound := h.1
  obtain ⟨b, hb, hnew, hold⟩ := a.write_of_lt (show lo < n by omega) v
  refine ⟨b, hb, by rw [List.length_cons]; omega, ?_⟩
  intro i hi
  cases i with
  | zero => exact hnew
  | succ i =>
      have hv := h.2 i (by simpa using hi)
      rw [hold _ (by omega), List.getElem_cons_succ, ← hv]
      congr 1
      omega

/-- Reading a run. -/
theorem reads (h : a.Holds lo vs) : a.reads lo vs.length = .ok vs := by
  induction vs generalizing lo with
  | nil => rfl
  | cons v vs ih =>
      have hv : a.read lo = .ok v := h.read (i := 0) rfl
      rw [List.length_cons, FixedArray.reads, hv, ih h.tail]
      rfl

/-- A part of a run. -/
theorem append {us : List α} (h : a.Holds lo (us ++ vs)) :
    a.Holds lo us ∧ a.Holds (lo + us.length) vs := by
  induction us generalizing lo with
  | nil => exact ⟨nil (by have := h.1; omega), h⟩
  | cons u us ih =>
      obtain ⟨hus, hvs⟩ := ih h.tail
      refine ⟨?_, by rw [List.length_cons, Nat.add_comm us.length, ← Nat.add_assoc]; exact hvs⟩
      refine ⟨by have := hus.1; rw [List.length_cons]; omega, ?_⟩
      intro i hi
      exact h.read (by rw [List.getElem?_append_left hi, List.getElem?_eq_getElem hi])

end Holds

end FixedArray

end ProtoST.Lib

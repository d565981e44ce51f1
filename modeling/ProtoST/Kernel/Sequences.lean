import Mathlib.Data.List.Basic
import ProtoST.Primitives.IntegerDivision

/-!
# Sequences

`at:` of a sequence and the loop of `SequenceableCollection >> copyFrom:to:`
(`lib/kernel/collection.st`), with indices of any size.

## Main results

* `copyLoop_eq` — the loop copies the elements between its indices.
* `copyLoop_error` — the loop signals an error at an index that has no element.
-/

namespace ProtoST.Kernel.Sequences

open ProtoST.Primitives.IntegerDivision (Signal)

variable {O : Type} {elements : List O}

/-- The elements from an index to an index. -/
def between (elements : List O) (first last : Int) : List O :=
  (elements.take last.toNat).drop (first - 1).toNat

/-- `start to: stop do: [:i | out add: (self at: i)]` -/
def copyLoop (elementAt : Int → Except Signal O) (i stop : Int) : Except Signal (List O) :=
  if i ≤ stop then do return (← elementAt i) :: (← copyLoop elementAt (i + 1) stop)
  else .ok []
termination_by (stop + 1 - i).toNat
decreasing_by omega

variable {at_ : Int → Except Signal O}

theorem copyLoop_empty (at_ : Int → Except Signal O) {i stop : Int} (h : stop < i) :
    copyLoop at_ i stop = .ok [] := by
  rw [copyLoop, if_neg (by omega)]

/-- The elements between two indices. -/
theorem copyLoop_eq
    (hAt : ∀ n (hn : n < elements.length), at_ ((n : Nat) + 1) = .ok elements[n]) {i stop : Int}
    (hFirst : 1 ≤ i) (hLast : stop ≤ elements.length) :
    copyLoop at_ i stop = .ok (between elements i stop) := by
  induction hn : (stop + 1 - i).toNat generalizing i with
  | zero =>
      have hEmpty : between elements i stop = [] := by
        refine List.drop_eq_nil_of_le ?_
        rw [List.length_take]
        omega
      rw [copyLoop, if_neg (by omega), hEmpty]
  | succ n ih =>
      have hIn : (i - 1).toNat < elements.length := by omega
      have hIndex : (((i - 1).toNat : Nat) : Int) + 1 = i := by omega
      have hHere := hAt (i - 1).toNat hIn
      rw [hIndex] at hHere
      have hNext : (i + 1 - 1).toNat = (i - 1).toNat + 1 := by omega
      have hTake : (i - 1).toNat < (elements.take stop.toNat).length := by
        rw [List.length_take]
        omega
      rw [copyLoop, if_pos (by omega), hHere, ih (by omega) (by omega), between, between, hNext,
        List.drop_eq_getElem_cons hTake, List.getElem_take]
      rfl

/-- An index out of range is read, unless the loop is empty. -/
theorem copyLoop_error (elements : List O) (hLow : ∀ i : Int, i < 1 → ∃ s, at_ i = .error s)
    (hHigh : ∀ i : Int, elements.length < i → ∃ s, at_ i = .error s)
    {i stop : Int} (hSome : i ≤ stop) (hOut : i < 1 ∨ elements.length < stop) :
    ∃ s, copyLoop at_ i stop = .error s := by
  induction hn : (stop - i).toNat generalizing i with
  | zero =>
      obtain rfl : i = stop := by omega
      obtain ⟨s, hs⟩ : ∃ s, at_ i = .error s := hOut.elim (hLow i) (hHigh i)
      refine ⟨s, ?_⟩
      rw [copyLoop, if_pos le_rfl, hs]
      rfl
  | succ n ih =>
      cases hHere : at_ i with
      | error s =>
          refine ⟨s, ?_⟩
          rw [copyLoop, if_pos hSome, hHere]
          rfl
      | ok x =>
          have hIn : ¬ i < 1 := by
            intro h
            obtain ⟨s, hs⟩ := hLow i h
            rw [hHere] at hs
            cases hs
          obtain ⟨s, hRest⟩ := ih (i := i + 1) (by omega) (.inr (hOut.resolve_left hIn)) (by omega)
          refine ⟨s, ?_⟩
          rw [copyLoop, if_pos hSome, hHere, hRest]
          rfl

end ProtoST.Kernel.Sequences

import Mathlib.Data.List.TakeWhile

/-!
# Runs at the head of a list

A scanner takes the longest run of elements that satisfy a predicate.  When a list is
written as such a run and a rest that does not go on with it (`Stops`), the scanner finds
just that split.

## Main results

* `takeWhile_of_stops`, `dropWhile_of_stops` — the split of `run ++ rest`.
* `stops_dropWhile` — what a scan leaves does not go on with the run.
-/

namespace ProtoST.Lib

universe u

variable {α : Type u} {p q : α → Bool} {run rest : List α}

/-- The list does not begin with an element that satisfies `p`. -/
def Stops (p : α → Bool) (rest : List α) : Prop := ∀ c ∈ rest.head?, p c = false

namespace Stops

theorem nil : Stops p [] := fun c h => by cases h

theorem cons {c : α} (h : p c = false) : Stops p (c :: rest) := fun d hd => by
  cases hd
  exact h

theorem head {c : α} (h : Stops p (c :: rest)) : p c = false := h c rfl

theorem imp (h : Stops p rest) (hpq : ∀ c, q c = true → p c = true) : Stops q rest := by
  intro c hc
  cases hq : q c with
  | false => rfl
  | true =>
      have := h c hc
      rw [hpq c hq] at this
      cases this

/-- A run of other elements may stand before. -/
theorem append (h : Stops p rest) (hrun : ∀ c ∈ run, p c = false) : Stops p (run ++ rest) := by
  cases run with
  | nil => exact h
  | cons c run => exact .cons (hrun c List.mem_cons_self)

end Stops

theorem dropWhile_of_head (h : Stops p rest) : rest.dropWhile p = rest := by
  cases rest with
  | nil => rfl
  | cons c rest => simp [h.head]

theorem takeWhile_of_head (h : Stops p rest) : rest.takeWhile p = [] := by
  cases rest with
  | nil => rfl
  | cons c rest => simp [h.head]

theorem takeWhile_of_stops (hrun : ∀ c ∈ run, p c = true) (hrest : Stops p rest) :
    (run ++ rest).takeWhile p = run := by
  rw [List.takeWhile_append_of_pos hrun, takeWhile_of_head hrest, List.append_nil]

theorem dropWhile_of_stops (hrun : ∀ c ∈ run, p c = true) (hrest : Stops p rest) :
    (run ++ rest).dropWhile p = rest := by
  rw [List.dropWhile_append_of_pos hrun, dropWhile_of_head hrest]

theorem stops_dropWhile (l : List α) : Stops p (l.dropWhile p) := by
  induction l with
  | nil => exact .nil
  | cons c l ih =>
      cases hc : p c with
      | true => simpa [hc] using ih
      | false => simpa [hc] using Stops.cons hc

end ProtoST.Lib

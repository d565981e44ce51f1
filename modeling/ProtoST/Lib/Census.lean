import Mathlib.Data.List.Basic
import Mathlib.Tactic.Common

/-!
# Counting the members of a list

The states of a number of threads are a list, and an invariant may count those that have
some property.  A thread that goes from one state to another is counted once less and
once more.

## Main results

* `countP_set_add` — the count after one member has changed.
-/

namespace ProtoST.Lib

variable {α : Type} {l : List α} {i : Nat} {a b : α} {p : α → Bool}

theorem countP_pos_of_getElem? (h : l[i]? = some a) (hp : p a = true) : 0 < l.countP p :=
  List.countP_pos_iff.mpr ⟨a, List.mem_of_getElem? h, hp⟩

/-- A member that goes from `a` to `b` is counted once less and once more. -/
theorem countP_set_add (p : α → Bool) (h : l[i]? = some a) :
    (l.set i b).countP p + (p a).toNat = l.countP p + (p b).toNat := by
  obtain ⟨hi, ha⟩ := List.getElem?_eq_some_iff.mp h
  rw [List.countP_set hi, ha]
  cases hpa : p a with
  | false =>
    cases p b <;> simp
  | true =>
    have := countP_pos_of_getElem? h hpa
    cases p b <;> simp <;> omega

/-- A member of the changed list is the new one or an old one. -/
theorem mem_set_cases {c : α} (h : c ∈ l.set i b) : c = b ∨ c ∈ l := by
  rcases List.mem_or_eq_of_mem_set h with h | h
  · exact .inr h
  · exact .inl h

/-- A member other than the one that changes stays. -/
theorem mem_set_of_ne {c : α} (h : c ∈ l) (hi : l[i]? = some a) (hne : c ≠ a) :
    c ∈ l.set i b := by
  obtain ⟨j, hj⟩ := List.getElem?_of_mem h
  have hij : i ≠ j := by
    rintro rfl
    rw [hi] at hj
    exact hne (Option.some.inj hj).symm
  refine List.mem_of_getElem? (i := j) ?_
  rw [List.getElem?_set_ne hij]
  exact hj

/-- The new member. -/
theorem mem_set_self (hi : l[i]? = some a) : b ∈ l.set i b := by
  obtain ⟨h, -⟩ := List.getElem?_eq_some_iff.mp hi
  exact List.mem_set h b

end ProtoST.Lib

import Mathlib.Algebra.Order.Floor.Ring
import Mathlib.Algebra.Order.Field.Basic
import Mathlib.Data.List.Range
import Mathlib.Tactic.Common
import Mathlib.Tactic.Linarith
import Mathlib.Tactic.Ring

/-!
# Arithmetic progressions

The terms `a + k * d` from `a` up to a bound that is on the side of `d`, and the loop that
runs through a sequence by a test and a step.

## Main results

* `term_le_iff`, `le_term_iff` — the terms within the bound are the first `count` ones.
* `loop_eq` — the loop visits the sequence until its test fails.
-/

namespace ProtoST.Lib.Progression

/-! ## Terms and their count -/

section Terms

variable {K : Type} [Field K] [LinearOrder K] [FloorRing K]

/-- The number of the terms of `a`, `a + d`, … within `b`. -/
def count (a b d : K) : Nat := (⌊(b - a) / d⌋ + 1).toNat

def term (a d : K) (k : Nat) : K := a + k * d

def terms (a b d : K) : List K := (List.range (count a b d)).map (term a d)

omit [LinearOrder K] [FloorRing K] in
@[simp] theorem term_zero (a d : K) : term a d 0 = a := by
  rw [term, Nat.cast_zero, zero_mul, add_zero]

omit [LinearOrder K] [FloorRing K] in
theorem term_succ (a d : K) (k : Nat) : term a d (k + 1) = term a d k + d := by
  rw [term, term, Nat.cast_succ]
  ring

@[simp] theorem length_terms (a b d : K) : (terms a b d).length = count a b d := by
  rw [terms, List.length_map, List.length_range]

variable {a b d : K}

theorem getElem?_terms {k : Nat} (h : k < count a b d) :
    (terms a b d)[k]? = some (term a d k) := by
  rw [terms, List.getElem?_map, List.getElem?_range h]
  rfl

theorem lt_count_iff {k : Nat} : k < count a b d ↔ (k : K) ≤ (b - a) / d := by
  have hcast : (k : K) = ((k : Int) : K) := (Int.cast_natCast k).symm
  rw [hcast, ← Int.le_floor, count]
  omega

variable [IsStrictOrderedRing K]

/-- The terms of an increasing progression within the bound. -/
theorem term_le_iff (hd : 0 < d) {k : Nat} : term a d k ≤ b ↔ k < count a b d := by
  rw [lt_count_iff, le_div_iff₀ hd, term]
  exact ⟨fun h => by linarith, fun h => by linarith⟩

/-- The terms of a decreasing progression within the bound. -/
theorem le_term_iff (hd : d < 0) {k : Nat} : b ≤ term a d k ↔ k < count a b d := by
  rw [lt_count_iff, le_div_iff_of_neg hd, term]
  exact ⟨fun h => by linarith, fun h => by linarith⟩

end Terms

/-! ## Loops -/

section Loops

variable {m : Type → Type} [Monad m] {α : Type}

/-- A loop with a test, a body and a step, which leaves by `out` when its fuel is spent. -/
def loop (out : m Unit) (test : α → m Bool) (body : α → m Unit) (next : α → m α) :
    Nat → α → m Unit
  | 0, _ => out
  | fuel + 1, x => do
      if ← test x then
        body x
        loop out test body next fuel (← next x)
      else pure ()

variable [LawfulMonad m] {out : m Unit} {test : α → m Bool} {body : α → m Unit}
  {next : α → m α}

/-- A loop visits a sequence until its test fails. -/
theorem loop_eq (f : Nat → α) {n fuel : Nat} (htest : ∀ k < n, test (f k) = pure true)
    (hnext : ∀ k < n, next (f k) = pure (f (k + 1))) (hend : test (f n) = pure false)
    (hfuel : n < fuel) :
    loop out test body next fuel (f 0) = forM (List.range n) fun k => body (f k) := by
  induction n generalizing f fuel with
  | zero =>
      obtain ⟨fuel, rfl⟩ : ∃ k, fuel = k + 1 := ⟨fuel - 1, by omega⟩
      rw [loop, hend, pure_bind, if_neg Bool.false_ne_true]
      rfl
  | succ n ih =>
      obtain ⟨fuel, rfl⟩ : ∃ k, fuel = k + 1 := ⟨fuel - 1, by omega⟩
      have hfuel' : n < fuel := by omega
      have hrest := ih (fun k => f (k + 1)) (fun k hk => htest (k + 1) (by omega))
        (fun k hk => hnext (k + 1) (by omega)) hend hfuel'
      rw [loop, htest 0 (by omega), pure_bind, if_pos rfl, hnext 0 (by omega)]
      simp only [pure_bind]
      rw [hrest, List.range_succ_eq_map, List.forM_cons, List.forM_map]

end Loops

end ProtoST.Lib.Progression

import Mathlib.Order.Basic
import Mathlib.Tactic.Common

/-!
# While loops

A loop that runs its body on the variables as long as its test holds.  It leaves by `out` when its
fuel is spent, and an invariant with a variant shows that it does not.

## Main results

* `whileTrue_spec` — the rule of an invariant and a variant.
-/

namespace ProtoST.Lib.WhileLoop

variable {m : Type → Type} [Monad m] {α : Type}

/-- `[test] whileTrue: [body]`, of the variables that both read. -/
def whileTrue (out : m α) (test : α → m Bool) (body : α → m α) : Nat → α → m α
  | 0, _ => out
  | fuel + 1, x => do
      if ← test x then whileTrue out test body fuel (← body x) else pure x

variable [LawfulMonad m] (out : m α) {test : α → m Bool} {body : α → m α}

/-- A loop whose body keeps an invariant and decreases a variant ends where its test fails. -/
theorem whileTrue_spec {Inv P : α → Prop} [DecidablePred P] (variant : α → Nat)
    (hTest : ∀ x, Inv x → test x = pure (decide (P x)))
    (hBody : ∀ x, Inv x → P x → ∃ y, body x = pure y ∧ Inv y ∧ variant y < variant x)
    {fuel : Nat} {x : α} (hInv : Inv x) (hFuel : variant x < fuel) :
    ∃ y, whileTrue out test body fuel x = pure y ∧ Inv y ∧ ¬ P y := by
  induction fuel generalizing x with
  | zero => exact absurd hFuel (Nat.not_lt_zero _)
  | succ fuel ih =>
      by_cases hMore : P x
      · obtain ⟨y, hStep, hNext, hLess⟩ := hBody x hInv hMore
        obtain ⟨z, hRest, hEnd⟩ := ih hNext (by omega)
        refine ⟨z, ?_, hEnd⟩
        rw [whileTrue, hTest x hInv, decide_eq_true hMore, pure_bind, if_pos rfl, hStep,
          pure_bind, hRest]
      · refine ⟨x, ?_, hInv, hMore⟩
        rw [whileTrue, hTest x hInv, decide_eq_false hMore, pure_bind,
          if_neg Bool.false_ne_true]

end ProtoST.Lib.WhileLoop

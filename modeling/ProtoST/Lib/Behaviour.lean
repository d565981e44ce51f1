import Mathlib.Data.Set.Basic

/-!
# Behaviours and the computations that refine them

A behaviour says which outcomes and which next states a computation may have from a state.
A computation refines a behaviour, along a relation `R` of states, when each of its runs
is one that the behaviour allows.  Only the runs that end in a `good` state count: what
makes a state bad is never undone.

## Main results

* `Refines.bind`, `Refines.visit` — sequences and loops of computations that refine.
-/

namespace ProtoST.Lib

variable {ε σ τ α β : Type}

/-- The outcomes and next states that are allowed from a state. -/
def Behaviour (ε τ α : Type) := τ → Except ε α → τ → Prop

namespace Behaviour

instance : Monad (Behaviour ε τ) where
  pure x := fun t out t' => out = .ok x ∧ t' = t
  bind p f := fun t out t'' => ∃ o t', p t o t' ∧
    match o with
    | .ok x => f x t' out t''
    | .error e => out = .error e ∧ t'' = t'

instance : MonadExceptOf ε (Behaviour ε τ) where
  throw e := fun t out t' => out = .error e ∧ t' = t
  tryCatch p f := fun t out t'' => ∃ o t', p t o t' ∧
    match o with
    | .ok x => out = .ok x ∧ t'' = t'
    | .error e => f e t' out t''

end Behaviour

/-- The values that `f` keeps, for each element in order. -/
def visit {m : Type → Type} [Monad m] (f : α → m (Option β)) : List α → m (List β)
  | [] => pure []
  | x :: xs => do
      let kept ← f x
      let others ← visit f xs
      pure (kept.toList ++ others)

/-- The outcome of a run. -/
def outcome : EStateM.Result ε σ α → Except ε α
  | .ok x _ => .ok x
  | .error e _ => .error e

/-- The state at the end of a run. -/
def final : EStateM.Result ε σ α → σ
  | .ok _ s => s
  | .error _ s => s

/-- Every run of `c` to a good state is a run of `p`. -/
structure Refines (good : σ → Prop) (R : σ → τ → Prop) (c : EStateM ε σ α)
    (p : Behaviour ε τ α) : Prop where
  good_of_final : ∀ s, good (final (c s)) → good s
  simulates : ∀ s t, R s t → good (final (c s)) →
    ∃ t', p t (outcome (c s)) t' ∧ R (final (c s)) t'

namespace Refines

variable {good : σ → Prop} {R : σ → τ → Prop}

theorem pure (x : α) : Refines (ε := ε) good R (Pure.pure x) (Pure.pure x) where
  good_of_final _ h := h
  simulates _ t hR _ := ⟨t, ⟨rfl, rfl⟩, hR⟩

theorem throw (e : ε) :
    Refines good R (MonadExcept.throw e : EStateM ε σ α) (MonadExcept.throw e) where
  good_of_final _ h := h
  simulates _ t hR _ := ⟨t, ⟨rfl, rfl⟩, hR⟩

theorem bind {c : EStateM ε σ α} {p : Behaviour ε τ α} {f : α → EStateM ε σ β}
    {q : α → Behaviour ε τ β} (hc : Refines good R c p) (hf : ∀ x, Refines good R (f x) (q x)) :
    Refines good R (c >>= f) (p >>= q) where
  good_of_final s hfinal := by
    apply hc.good_of_final
    change good (final (EStateM.bind c f s)) at hfinal
    unfold EStateM.bind at hfinal
    cases hrun : c s with
    | ok x s' =>
        rw [hrun] at hfinal
        exact (hf x).good_of_final s' hfinal
    | error e s' =>
        rw [hrun] at hfinal
        exact hfinal
  simulates s t hR hfinal := by
    change good (final (EStateM.bind c f s)) at hfinal
    change ∃ t', _ ∧ R (final (EStateM.bind c f s)) t'
    have hstep := hc.simulates s t hR
    cases hrun : c s with
    | ok x s' =>
        simp only [EStateM.bind, hrun] at hfinal hstep ⊢
        obtain ⟨t', hp, hR'⟩ := hstep ((hf x).good_of_final s' hfinal)
        obtain ⟨t'', hq, hR''⟩ := (hf x).simulates s' t' hR' hfinal
        refine ⟨t'', ⟨_, t', hp, ?_⟩, hR''⟩
        change q x t' (outcome (EStateM.bind c f s)) t''
        rwa [EStateM.bind, hrun]
    | error e s' =>
        simp only [EStateM.bind, hrun] at hfinal hstep ⊢
        obtain ⟨t', hp, hR'⟩ := hstep hfinal
        refine ⟨t', ⟨_, t', hp, ?_⟩, hR'⟩
        change outcome (EStateM.bind c f s) = .error e ∧ t' = t'
        rw [EStateM.bind, hrun]
        exact ⟨rfl, rfl⟩

/-- A behaviour that allows more is refined too. -/
theorem mono {c : EStateM ε σ α} {p q : Behaviour ε τ α} (h : Refines good R c p)
    (hpq : ∀ t out t', p t out t' → q t out t') : Refines good R c q where
  good_of_final := h.good_of_final
  simulates s t hR hgood := by
    obtain ⟨t', hp, hR'⟩ := h.simulates s t hR hgood
    exact ⟨t', hpq _ _ _ hp, hR'⟩

theorem visit {f : α → EStateM ε σ (Option β)} {g : α → Behaviour ε τ (Option β)}
    (hf : ∀ x, Refines good R (f x) (g x)) (xs : List α) :
    Refines good R (Lib.visit f xs) (Lib.visit g xs) := by
  induction xs with
  | nil => exact pure []
  | cons x xs ih => exact (hf x).bind fun kept => ih.bind fun others => pure _

end Refines

end ProtoST.Lib

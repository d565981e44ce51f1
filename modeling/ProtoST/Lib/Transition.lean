import Mathlib.Logic.Function.Basic
import Mathlib.Data.List.Basic

/-!
# Machines: executable transition systems and their runs

A `Machine` is a set of initial states and a *partial step function*: `step s a`
is the state after the action `a`, or `none` when `a` is not enabled in `s`.
An action names the thread that moves and resolves whatever the thread leaves
open, so a run of a concurrent program is a list of actions and every
interleaving is one such list.

`Reach ok s` says that a run whose every step satisfies `ok` ends in `s`.  The
side condition `ok` is how an assumption on runs is stated ("no wrap-around
between these two steps", "no two threads are in this region at once"); with
`ok := fun _ _ => True` it is plain reachability.

## Main results

* `Reach.invariant` — what holds initially and is preserved by every allowed
  step holds in every state reached.
* `Steps.preserves` — the same between two states of one run.
* `reach_of_exec` — a concrete list of actions that `exec` accepts is a run.
-/

namespace ProtoST.Lib

universe u v

/-- An executable labelled transition system. -/
structure Machine (σ : Type u) (α : Type v) where
  /-- The initial states. -/
  init : σ → Prop
  /-- One atomic step, or `none` when the action is not enabled. -/
  step : σ → α → Option σ

/-- What a guarded step needs, and where it leads. -/
theorem guarded {σ : Type u} {p : Prop} [Decidable p] {s t : σ}
    (h : (if p then some s else none) = some t) : p ∧ t = s :=
  (Option.ite_none_right_eq_some.mp h).imp_right fun h => (Option.some.inj h).symm

namespace Machine

variable {σ : Type u} {α : Type v} (M : Machine σ α)

/-- States at the end of a run all of whose steps satisfy `ok`. -/
inductive Reach (ok : σ → α → Prop) : σ → Prop
  | init {s : σ} : M.init s → Reach ok s
  | step {s t : σ} (a : α) :
      Reach ok s → ok s a → M.step s a = some t → Reach ok t

/-- The side condition that allows every step. -/
def anyStep : σ → α → Prop := fun _ _ => True

/-- Plain reachability. -/
abbrev Reachable : σ → Prop := M.Reach anyStep

variable {M} {ok : σ → α → Prop}

/-- **Invariant rule.** The step case may use that the source is reachable. -/
theorem Reach.invariant {P : σ → Prop} (hinit : ∀ s, M.init s → P s)
    (hstep : ∀ s a t, M.Reach ok s → P s → ok s a →
      M.step s a = some t → P t)
    {s : σ} (h : M.Reach ok s) : P s := by
  induction h with
  | init hs => exact hinit _ hs
  | step a hreach hok hs ih => exact hstep _ a _ hreach ih hok hs

/-- Weakening the side condition keeps the states reached. -/
theorem Reach.mono {ok ok' : σ → α → Prop} (himp : ∀ s a, ok s a → ok' s a)
    {s : σ} (h : M.Reach ok s) : M.Reach ok' s := by
  induction h with
  | init hs => exact .init hs
  | step a _ hok hs ih => exact .step a ih (himp _ _ hok) hs

/-- A run under a side condition is a run. -/
theorem Reach.reachable {s : σ} (h : M.Reach ok s) :
    M.Reachable s :=
  h.mono fun _ _ _ => trivial

variable (M)

/-- `Steps s t`: some sequence of steps leads from `s` to `t`. -/
inductive Steps (s : σ) : σ → Prop
  | refl : Steps s s
  | tail {t u : σ} (a : α) : Steps s t → M.step t a = some u → Steps s u

variable {M}

/-- What a step from a reachable state preserves, every later state has. -/
theorem Steps.preserves {P : σ → Prop}
    (hstep : ∀ s a t, M.Reachable s → P s → M.step s a = some t → P t)
    {s t : σ} (hs : M.Reachable s) (h : M.Steps s t) (hP : P s) :
    M.Reachable t ∧ P t := by
  induction h with
  | refl => exact ⟨hs, hP⟩
  | tail a _ hstep' ih =>
      exact ⟨.step a ih.1 trivial hstep', hstep _ a _ ih.1 ih.2 hstep'⟩

variable (M)

/-- Perform a list of actions, failing at the first that is not enabled. -/
def exec : σ → List α → Option σ
  | s, [] => some s
  | s, a :: as => (M.step s a).bind fun t => exec t as

/-- Like `exec`, checking the side condition `ok` at every step. -/
def execOk (ok : σ → α → Bool) : σ → List α → Option σ
  | s, [] => some s
  | s, a :: as =>
      if ok s a then (M.step s a).bind fun t => execOk ok t as else none

variable {M}

/-- From a reached state, an accepted list of allowed actions reaches its end. -/
theorem reach_of_execOk (okb : σ → α → Bool) (hok : ∀ s a, okb s a = true → ok s a) {as : List α} :
    ∀ {s t : σ}, M.Reach ok s → M.execOk okb s as = some t → M.Reach ok t := by
  induction as with
  | nil =>
      intro s t hs hexec
      obtain rfl : s = t := Option.some.inj hexec
      exact hs
  | cons a as ih =>
      intro s t hs hexec
      simp only [execOk] at hexec
      split at hexec
      · rename_i hallowed
        obtain ⟨m, hm, hrest⟩ := Option.bind_eq_some_iff.mp hexec
        exact ih (.step a hs (hok _ _ hallowed) hm) hrest
      · cases hexec

/-- From a reached state, an accepted list of actions reaches its end. -/
theorem reach_of_exec {as : List α} :
    ∀ {s t : σ}, M.Reachable s → M.exec s as = some t → M.Reachable t := by
  induction as with
  | nil =>
      intro s t hs hexec
      obtain rfl : s = t := Option.some.inj hexec
      exact hs
  | cons a as ih =>
      intro s t hs hexec
      obtain ⟨m, hm, hrest⟩ := Option.bind_eq_some_iff.mp hexec
      exact ih (.step a hs trivial hm) hrest

end Machine

end ProtoST.Lib

import Mathlib.Logic.Relation

/-!
# Systems in lockstep

Two systems whose states are related go on alike, step by step, until they part: one
of them takes a step that the other cannot take.

## Main results

* `Lockstep.runs` — a run of the one is a run of the other, up to where they part.
* `Lockstep.symm` — the same, seen from the other system.
-/

namespace ProtoST.Lib

universe u v

open Relation (ReflTransGen)

variable {α : Type u} {β : Type v} {A : α → α → Prop} {B : β → β → Prop}
  {R P : α → β → Prop}

/-- From related states, what the one system does the other does, or they part. -/
structure Lockstep (A : α → α → Prop) (B : β → β → Prop) (R P : α → β → Prop) : Prop where
  left : ∀ {a a' : α} {b : β}, R a b → A a a' → (∃ b', B b b' ∧ R a' b') ∨ P a b
  right : ∀ {a : α} {b b' : β}, R a b → B b b' → (∃ a', A a a' ∧ R a' b') ∨ P a b

/-- Runs from `a` and `b` that are alike lead to states where the systems part. -/
def PartsFrom (A : α → α → Prop) (B : β → β → Prop) (R P : α → β → Prop) (a : α) (b : β) :
    Prop :=
  ∃ a' b', ReflTransGen A a a' ∧ ReflTransGen B b b' ∧ R a' b' ∧ P a' b'

theorem Lockstep.symm (h : Lockstep A B R P) :
    Lockstep B A (fun b a => R a b) (fun b a => P a b) := ⟨h.right, h.left⟩

/-- **A run goes alike**, up to where the systems part. -/
theorem Lockstep.runs (h : Lockstep A B R P) {a a' : α} {b : β} (hR : R a b)
    (hrun : ReflTransGen A a a') :
    (∃ b', ReflTransGen B b b' ∧ R a' b') ∨ PartsFrom A B R P a b := by
  induction hrun with
  | refl => exact .inl ⟨b, .refl, hR⟩
  | tail hbefore hstep ih =>
    rcases ih with ⟨b', hb, hR'⟩ | hparts
    · rcases h.left hR' hstep with ⟨b'', hb', hR''⟩ | hP
      · exact .inl ⟨b'', hb.tail hb', hR''⟩
      · exact .inr ⟨_, b', hbefore, hb, hR', hP⟩
    · exact .inr hparts

end ProtoST.Lib

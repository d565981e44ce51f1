import ProtoST.Primitives.CallbacksRules

/-!
# The record of an actor

An actor whose method is under way on a thread has a suspension record, and other actors that wait
below it on the thread have theirs.  The primitives write neither.

## Main definitions

* `Accounts` — what the events of an evaluation say of the record of an actor.
-/

namespace ProtoST.Primitives.Callbacks

open ProtoST.Lib

variable {V F M K : Type}

/-- The number of frames that the record of an actor holds. -/
def Thread.held (th : Thread V F M) (a : V) : Nat :=
  ((th.suspensions a).suspendedFrame.getD []).length

/-- The record of `a`, if `a` is the current actor or buried, apart from `__waiting_on__`. -/
structure Holds (a : V) (th : Thread V F M) (l : List (Event V M)) (th' : Thread V F M) : Prop where
  currentActor : th'.currentActor = th.currentActor
  buriedActors : th'.buriedActors = th.buriedActors
  aside : th.currentActor ≠ some a → a ∈ th.buriedActors → th'.suspensions a = th.suspensions a
  kept : th.currentActor = some a → .suspends a ∉ l →
    (th'.suspensions a).suspendedFrame = (th.suspensions a).suspendedFrame ∧
      (th'.suspensions a).suspendedFuture = (th.suspensions a).suspendedFuture
  grown : th.currentActor = some a → .suspends a ∈ l → th.held a < th'.held a

/-- The record of `a`. -/
structure Accounts (a : V) (th : Thread V F M) (l : List (Event V M)) (th' : Thread V F M) : Prop
    extends Holds a th l th' where
  untouched : th.currentActor = some a → .suspends a ∉ l → .waits a ∉ l →
    (th'.suspensions a).waitingOn = (th.suspensions a).waitingOn
  waited : th.currentActor = some a → .suspends a ∉ l → .waits a ∈ l →
    (th'.suspensions a).waitingOn = none

variable {a : V}

namespace Holds

theorem held_le {th th' : Thread V F M} {l : List (Event V M)} (h : Holds a th l th')
    (hcurrent : th.currentActor = some a) : th.held a ≤ th'.held a := by
  by_cases hsuspends : .suspends a ∈ l
  · exact Nat.le_of_lt (h.grown hcurrent hsuspends)
  · unfold Thread.held
    exact Nat.le_of_eq (by rw [(h.kept hcurrent hsuspends).1])

theorem trans (s : Thread V F M) (l : List (Event V M)) (t : Thread V F M)
    (l' : List (Event V M)) (u : Thread V F M) (h : Holds a s l t) (h' : Holds a t l' u) :
    Holds a s (l ++ l') u where
  currentActor := h'.currentActor.trans h.currentActor
  buriedActors := h'.buriedActors.trans h.buriedActors
  aside := by
    intro hcurrent hburied
    have haside := h'.aside (by rw [h.currentActor]; exact hcurrent)
      (by rw [h.buriedActors]; exact hburied)
    exact haside.trans (h.aside hcurrent hburied)
  kept := by
    intro hcurrent hnone
    rw [List.mem_append, not_or] at hnone
    have hfirst := h.kept hcurrent hnone.1
    have hrest := h'.kept (h.currentActor.trans hcurrent) hnone.2
    exact ⟨hrest.1.trans hfirst.1, hrest.2.trans hfirst.2⟩
  grown := by
    intro hcurrent hsome
    have hcurrent' := h.currentActor.trans hcurrent
    rcases List.mem_append.mp hsome with hl | hl'
    · exact Nat.lt_of_lt_of_le (h.grown hcurrent hl) (h'.held_le hcurrent')
    · exact Nat.lt_of_le_of_lt (h.held_le hcurrent) (h'.grown hcurrent' hl')

end Holds

namespace Accounts

theorem refl (a : V) (th : Thread V F M) : Accounts a th [] th where
  currentActor := rfl
  buriedActors := rfl
  aside _ _ := rfl
  kept _ _ := ⟨rfl, rfl⟩
  grown _ h := by cases h
  untouched _ _ _ := rfl
  waited _ _ h := by cases h

theorem trans (s : Thread V F M) (l : List (Event V M)) (t : Thread V F M)
    (l' : List (Event V M)) (u : Thread V F M) (h : Accounts a s l t) (h' : Accounts a t l' u) :
    Accounts a s (l ++ l') u where
  toHolds := Holds.trans s l t l' u h.toHolds h'.toHolds
  untouched := by
    intro hcurrent hsuspends hwaits
    rw [List.mem_append, not_or] at hsuspends hwaits
    have hfirst := h.untouched hcurrent hsuspends.1 hwaits.1
    have hrest := h'.untouched (h.currentActor.trans hcurrent) hsuspends.2 hwaits.2
    exact hrest.trans hfirst
  waited := by
    intro hcurrent hsuspends hwaits
    rw [List.mem_append, not_or] at hsuspends
    have hcurrent' := h.currentActor.trans hcurrent
    by_cases hl' : .waits a ∈ l'
    · exact h'.waited hcurrent' hsuspends.2 hl'
    · have hl := (List.mem_append.mp hwaits).resolve_right hl'
      rw [h'.untouched hcurrent' hsuspends.2 hl']
      exact h.waited hcurrent hsuspends.1 hl

end Accounts

/-- Every evaluation of the kind accounts for the record. -/
abbrev Accounted (a : V) {α : Type} (m : Evaluation V F M α) : Prop :=
  Does (fun th l _ th' => Accounts a th l th') m

theorem accounted_bind {α β : Type} {m : Evaluation V F M α} {f : α → Evaluation V F M β}
    (hm : Accounted a m) (hf : ∀ x, Accounted a (f x)) : Accounted a (m >>= f) :=
  Does.bind (fun s l _ t l' _ u h h' => Accounts.trans s l t l' u h h') hm hf

theorem accounted_pure {α : Type} (x : α) : Accounted a (pure x : Evaluation V F M α) :=
  does_pure (Accounts.refl a)

theorem accounted_read {α : Type} (g : Thread V F M → α) :
    Accounted a (Traced.read g : Evaluation V F M α) :=
  does_read (Accounts.refl a)

/-- A change of something else. -/
theorem accounted_modify {g : Thread V F M → Thread V F M}
    (hg : ∀ th, (g th).currentActor = th.currentActor ∧ (g th).buriedActors = th.buriedActors ∧
      (g th).suspensions = th.suspensions) :
    Accounted a (Traced.modify g : Evaluation V F M PUnit) := by
  refine does_modify fun th => ?_
  obtain ⟨hcurrent, hburied, hsuspensions⟩ := hg th
  have hsame : (g th).suspensions a = th.suspensions a := by rw [hsuspensions]
  refine ⟨⟨hcurrent, hburied, fun _ _ => hsame, fun _ _ => ?_, fun _ h => by cases h⟩,
    fun _ _ _ => ?_, fun _ _ h => by cases h⟩
  · rw [hsame]
    exact ⟨rfl, rfl⟩
  · rw [hsame]

theorem accounted_record {e : Event V M} (hwaits : e ≠ .waits a) (hsuspends : e ≠ .suspends a) :
    Accounted a (Traced.record e : Evaluation V F M PUnit) := by
  refine does_record fun th => ⟨⟨rfl, rfl, fun _ _ => rfl, fun _ _ => ⟨rfl, rfl⟩, fun _ h => ?_⟩,
    fun _ _ _ => rfl, fun _ _ h => ?_⟩
  · exact absurd (List.mem_singleton.mp h).symm hsuspends
  · exact absurd (List.mem_singleton.mp h).symm hwaits

theorem accounted_rules (a : V) : HandlerRules (fun _ => True)
    (fun m : Evaluation V F M (Exit V) => Accounted a m) (fun m => Accounted a m) where
  exits _ _ := trivial
  forget h := h
  pure := accounted_pure
  bind := accounted_bind
  exit _ := accounted_pure _
  bindExit := accounted_bind
  exitBind hm hf := accounted_bind hm fun x => hf x trivial
  unfinished := does_unfinished
  read _ := accounted_read _
  stderr _ := accounted_record (fun h => by cases h) fun h => by cases h
  modify hbeside _ := accounted_modify fun th => by
    rw [hbeside th]
    exact ⟨rfl, rfl, rfl⟩
  look := accounted_read
  record hwaits hsuspends := accounted_record (hwaits a) (hsuspends a)
  handlers hg := accounted_modify fun th => by
    rw [hg th]
    exact ⟨rfl, rfl, rfl⟩

end ProtoST.Primitives.Callbacks

import ProtoST.Primitives.CallbacksRules

/-!
# Callbacks of futures: what every evaluation leaves as it was

However an evaluation ends, the handler stack with its enabled entries, the active signals, the
engines with their frames and the slot cursor are what they were.

## Main results

* `restored_run` — an evaluation restores the thread.
-/

namespace ProtoST.Primitives.Callbacks

open ProtoST.Lib

variable {V F M K : Type}

/-- The thread is as it was, objects and futures aside. -/
structure Restored (th th' : Thread V F M) : Prop where
  handlers : th'.handlers.entries = th.handlers.entries
  activeSignals : th'.activeSignals = th.activeSignals
  engines : th'.engines = th.engines
  slotCursor : th'.slotCursor = th.slotCursor

/-- Likewise, but the innermost engine goes on with frames of its own. -/
structure Within (th th' : Thread V F M) : Prop where
  handlers : th'.handlers.entries = th.handlers.entries
  activeSignals : th'.activeSignals = th.activeSignals
  outer : th'.engines.tail = th.engines.tail
  slotBases : th'.engines.map Engine.slotBase = th.engines.map Engine.slotBase

namespace Restored

theorem refl (th : Thread V F M) : Restored th th := ⟨rfl, rfl, rfl, rfl⟩

theorem trans (s t u : Thread V F M) (h : Restored s t) (h' : Restored t u) : Restored s u where
  handlers := h'.handlers.trans h.handlers
  activeSignals := h'.activeSignals.trans h.activeSignals
  engines := h'.engines.trans h.engines
  slotCursor := h'.slotCursor.trans h.slotCursor

theorem within {s t : Thread V F M} (h : Restored s t) : Within s t where
  handlers := h.handlers
  activeSignals := h.activeSignals
  outer := congrArg List.tail h.engines
  slotBases := congrArg (List.map Engine.slotBase) h.engines

end Restored

namespace Within

theorem refl (th : Thread V F M) : Within th th := ⟨rfl, rfl, rfl, rfl⟩

theorem trans (s t u : Thread V F M) (h : Within s t) (h' : Within t u) : Within s u where
  handlers := h'.handlers.trans h.handlers
  activeSignals := h'.activeSignals.trans h.activeSignals
  outer := h'.outer.trans h.outer
  slotBases := h'.slotBases.trans h.slotBases

end Within

/-- What every part of a computation restores, the whole restores. -/
theorem restored_bind {α β : Type} {m : Evaluation V F M α} {f : α → Evaluation V F M β}
    (hm : Keeps Restored m) (hf : ∀ a, Keeps Restored (f a)) : Keeps Restored (m >>= f) :=
  Keeps.bind Restored.trans hm hf

theorem restored_pure {α : Type} (a : α) : Keeps Restored (pure a : Evaluation V F M α) :=
  keeps_pure Restored.refl a

theorem restored_read {α : Type} (g : Thread V F M → α) :
    Keeps Restored (Traced.read g : Evaluation V F M α) :=
  keeps_read Restored.refl g

theorem restored_record (e : Event V M) :
    Keeps Restored (Traced.record e : Evaluation V F M PUnit) :=
  keeps_record Restored.refl e

theorem restored_modify {g : Thread V F M → Thread V F M} (h : ∀ th, Restored th (g th)) :
    Keeps Restored (Traced.modify g : Evaluation V F M PUnit) :=
  keeps_modify h

theorem restored_rules : WaitRules (fun _ => True)
    (fun m : Evaluation V F M (Exit V) => Keeps Restored m) (fun m => Keeps Restored m) where
  exits _ _ := trivial
  forget h := h
  pure := restored_pure
  bind := restored_bind
  exit _ := restored_pure _
  bindExit := restored_bind
  exitBind hm hf := restored_bind hm fun x => hf x trivial
  unfinished := keeps_unfinished
  read _ := restored_read _
  stderr _ := restored_record _
  modify hbeside _ := restored_modify fun th => by
    rw [hbeside th]
    exact ⟨rfl, rfl, rfl, rfl⟩
  waits _ := restored_record _
  write haround _ := restored_modify fun th => by
    rw [haround th]
    exact ⟨rfl, rfl, rfl, rfl⟩

variable {P : Program V F M K} {runner : Task V F K → Evaluation V F M (Exit V)}

/-! ## Engines -/

theorem Within.leave {th t : Thread V F M} {c : Code F K} (h : Within (th.enter c) t) :
    Restored th t.leave := by
  have hbases := h.slotBases
  cases hengines : t.engines with
  | nil =>
    rw [hengines] at hbases
    cases hbases
  | cons e outer =>
    rw [hengines] at hbases
    have houter := h.outer
    rw [hengines] at houter
    unfold Thread.leave
    rw [hengines]
    exact ⟨h.handlers, h.activeSignals, houter, (List.cons.inj hbases).1⟩

theorem restored_runWithArgs {loop : K → Evaluation V F M (Exit V)}
    (hloop : ∀ k, Keeps Within (loop k)) (c : Code F K) :
    Keeps Restored (runWithArgs loop c) := by
  refine restored_bind (restored_read _) fun engines => ?_
  refine restored_bind (restored_read _) fun slotCursor => ?_
  split
  · exact restored_pure _
  split
  · exact restored_pure _
  · exact (hloop c.entry).bracket fun th t h => h.leave

theorem within_move (k : K) : Keeps Within (move P k) := by
  intro th moved th' h
  unfold move at h
  cases hengines : th.engines with
  | nil =>
    rw [hengines] at h
    cases h
  | cons e outer =>
    rw [hengines] at h
    cases h
    exact ⟨rfl, rfl, by rw [hengines]; rfl, by rw [hengines]; rfl⟩

/-! ## Blocks and signals -/

section Parts

variable (hrunner : ∀ t, Keeps Restored (runner t))
include hrunner

omit hrunner in
theorem restored_handlerStackFindById (id : Nat) :
    Keeps Restored (handlerStackFindById id : Evaluation V F M _) := by
  refine restored_bind (restored_read _) fun entry => ?_
  cases entry with
  | none => exact restored_pure _
  | some e => exact restored_bind (restored_record _) fun _ => restored_pure _

omit hrunner in
/-- What was switched off is on again. -/
theorem restored_disabledFrom {m : Evaluation V F M (Exit V)} (hm : Keeps Restored m) (id : Nat) :
    Keeps Restored (disabledFrom id m) := by
  intro th x th' h
  obtain ⟨_, _, hread, h⟩ := outcome_bind h
  cases hread
  obtain ⟨t, ht, rfl⟩ := outcome_bracket h
  have hinner := hm _ _ t ht
  exact ⟨Scopes.switchOn_switchOffFrom id hinner.handlers, hinner.activeSignals, hinner.engines,
    hinner.slotCursor⟩

variable [DecidableEq V]

omit hrunner in
theorem restored_handlerStackFindMatch (exc : V) (below : Option Nat) (catchAll : Bool) :
    Keeps Restored (handlerStackFindMatch P exc below catchAll) := by
  refine restored_bind (restored_read _) fun shared => ?_
  refine restored_bind (restored_read _) fun entry => ?_
  cases entry with
  | none => exact restored_bind (restored_record _) fun _ => restored_pure _
  | some e => exact restored_bind (restored_record _) fun _ => restored_pure _

omit hrunner in
theorem restored_nextHandler (exc : V) (foreign : Bool) (first below : Option Nat) :
    Keeps Restored (nextHandler P exc foreign first below) := by
  cases first with
  | none => exact restored_handlerStackFindMatch _ _ _
  | some id => exact restored_handlerStackFindById id

omit [DecidableEq V] in
theorem restored_invokeHandler (exc : V) (foreign : Bool) (e : Scope (Handler V)) :
    Keeps Restored (invokeHandler P runner exc foreign e) := by
  intro th x th' h
  obtain ⟨_, _, hrecord, h⟩ := outcome_bind h
  cases hrecord
  obtain ⟨t, ht, rfl⟩ := outcome_bracket h
  have hinner := restored_rules.sendToHandler hrunner exc e _ _ t ht
  exact ⟨hinner.handlers, congrArg List.tail hinner.activeSignals, hinner.engines,
    hinner.slotCursor⟩

theorem restored_signalInstance (turns : Nat) (exc : V) (first : Option Nat) :
    Keeps Restored (signalInstance P runner turns exc first) := by
  refine restored_bind (restored_read _) fun foreign => ?_
  exact restored_rules.signalLoop hrunner exc foreign restored_nextHandler
    (fun e => restored_disabledFrom (restored_invokeHandler hrunner exc foreign e) e.id) turns
    first none

theorem restored_signalNestingLimitAt (turns id : Nat) :
    Keeps Restored (signalNestingLimitAt P runner turns id) := by
  refine restored_bind (restored_read _) fun limitError => ?_
  refine restored_bind (restored_rules.newNestingLimitError P) fun _ => ?_
  exact restored_signalInstance hrunner turns limitError (some id)

/-! ## Protected blocks -/

omit hrunner [DecidableEq V] in
theorem pushAll_eq (guards : List (Handler V)) (th : Thread V F M) :
    pushAll guards th = (⟨[], some ((Scopes.pushList guards th.handlers).1,
      { th with handlers := (Scopes.pushList guards th.handlers).2 })⟩ :
        Course (Event V M) (Thread V F M) (List Nat)) := by
  induction guards generalizing th with
  | nil => rfl
  | cons g guards ih =>
    show (pushAll guards >>= fun ids => pure (th.handlers.next :: ids))
      { th with handlers := th.handlers.push g } = _
    have hpushed := ih { th with handlers := th.handlers.push g }
    rw [bind_some (congrArg Course.outcome hpushed), hpushed]
    rfl

omit hrunner [DecidableEq V] in
theorem popAll_eq (ids : List Nat) (th : Thread V F M) :
    popAll ids th = (⟨[], some (⟨⟩, { th with handlers := Scopes.popList ids th.handlers })⟩ :
      Course (Event V M) (Thread V F M) PUnit) := by
  induction ids generalizing th with
  | nil => rfl
  | cons id ids ih =>
    show (popAll ids >>= fun _ => Traced.modify fun th =>
      { th with handlers := th.handlers.pop id }) th = _
    rw [bind_some (congrArg Course.outcome (ih th)), ih th]
    rfl

/-- The entries with these numbers, pushed last, are gone. -/
structure Popped (ids : List Nat) (th th' : Thread V F M) : Prop where
  handlers : ∀ own rest, own.map Scope.id = ids.reverse → th.handlers.entries = own ++ rest →
    th'.handlers.entries = rest
  activeSignals : th'.activeSignals = th.activeSignals
  engines : th'.engines = th.engines
  slotCursor : th'.slotCursor = th.slotCursor

omit hrunner [DecidableEq V] in
theorem Popped.restored {th th' : Thread V F M} (h : Popped [] th th') : Restored th th' :=
  ⟨h.handlers [] th.handlers.entries rfl rfl, h.activeSignals, h.engines, h.slotCursor⟩

omit hrunner [DecidableEq V] in
theorem Restored.popped {ids : List Nat} (s t u : Thread V F M) (h : Restored s t)
    (h' : Popped ids t u) : Popped ids s u where
  handlers own rest hids hentries := h'.handlers own rest hids (h.handlers.trans hentries)
  activeSignals := h'.activeSignals.trans h.activeSignals
  engines := h'.engines.trans h.engines
  slotCursor := h'.slotCursor.trans h.slotCursor

omit hrunner [DecidableEq V] in
theorem Popped.andRestored {ids : List Nat} (s t u : Thread V F M) (h : Popped ids s t)
    (h' : Restored t u) : Popped ids s u where
  handlers own rest hids hentries := h'.handlers.trans (h.handlers own rest hids hentries)
  activeSignals := h'.activeSignals.trans h.activeSignals
  engines := h'.engines.trans h.engines
  slotCursor := h'.slotCursor.trans h.slotCursor

omit hrunner [DecidableEq V] in
theorem popped_popAll (ids : List Nat) :
    Keeps (Popped ids) (popAll ids : Evaluation V F M PUnit) := by
  intro th x th' h
  rw [popAll_eq] at h
  cases h
  exact ⟨fun own rest hids hentries => Scopes.popList_of_entries hids hentries, rfl, rfl, rfl⟩

/-- The ids that an attempt finds on the stack. -/
def pendingIds : Option (List Nat × Nat) → List Nat
  | none => []
  | some (ids, _) => ids

theorem restored_attempt (turns : Nat) (protectedBlock : V) (pending : Option (List Nat × Nat)) :
    Keeps Restored (attempt P runner turns protectedBlock pending) := by
  cases pending with
  | none => exact restored_rules.invokeBlock hrunner _ _
  | some p => exact restored_signalNestingLimitAt hrunner turns p.2

omit hrunner [DecidableEq V] in
theorem popped_afterAttempt {again : Option (List Nat × Nat) → Evaluation V F M (Exit V)}
    (hagain : ∀ pending, Keeps (Popped (pendingIds pending)) (again pending)) (first : Bool)
    (ids : List Nat) (x : Exit V) : Keeps (Popped ids) (afterAttempt again first ids x) := by
  have hpop : ∀ x : Exit V, Keeps (Popped ids) (do
      popAll ids
      pure x : Evaluation V F M (Exit V)) := fun x =>
    Keeps.bind Popped.andRestored (popped_popAll ids) fun _ => restored_pure x
  cases x with
  | unwindToHandler id v =>
    refine Keeps.bind Popped.andRestored (popped_popAll ids) fun _ => ?_
    split <;> exact restored_pure _
  | retrySignal id =>
    refine Keeps.bind Popped.andRestored (popped_popAll ids) fun _ => ?_
    split
    · exact (hagain none).mono fun _ _ h => h.restored
    · exact restored_pure _
  | nestingLimitUnwind id =>
    rw [afterAttempt]
    split
    · exact hagain (some (ids, id))
    · exact hpop _
  | _ => exact hpop _

theorem popped_attempts (protectedBlock : V) (guards : List (Handler V)) :
    ∀ (turns : Nat) (pending : Option (List Nat × Nat)), Keeps (Popped (pendingIds pending))
      (attempts P runner protectedBlock guards turns pending) := by
  intro turns
  induction turns with
  | zero => exact fun pending => keeps_unfinished
  | succ turns ih =>
    intro pending th x th' h
    obtain ⟨ids, t, hids, h⟩ := outcome_bind h
    have hrest : Popped ids t th' := Keeps.bind Restored.popped
      (restored_attempt hrunner turns protectedBlock pending)
      (fun x => popped_afterAttempt ih pending.isNone ids x) t x th' h
    cases pending with
    | some p =>
      cases hids
      exact hrest
    | none =>
      rw [show attemptIds guards none = (pushAll guards : Evaluation V F M (List Nat)) from rfl,
        pushAll_eq] at hids
      cases hids
      obtain ⟨own, hown, hentries⟩ := Scopes.pushList_entries guards th.handlers
      refine ⟨?_, hrest.activeSignals, hrest.engines, hrest.slotCursor⟩
      intro own' rest hown' hrest'
      cases List.map_eq_nil_iff.mp hown'
      rw [hrest.handlers own th.handlers.entries hown hentries]
      exact hrest'

theorem restored_runProtected (turns : Nat) (protectedBlock : V) (guards : List (Handler V)) :
    Keeps Restored (runProtected P runner turns protectedBlock guards) :=
  (popped_attempts hrunner protectedBlock guards turns none).mono fun _ _ h => h.restored

/-! ## Messages -/

omit hrunner [DecidableEq V] in
theorem restored_setCurrentActor (actor : Option V) :
    Keeps Restored (Traced.modify (setCurrentActor actor) : Evaluation V F M PUnit) :=
  restored_modify fun _ => ⟨rfl, rfl, rfl, rfl⟩

theorem restored_settleMessage (m : Message V F K) (x : Exit V) :
    Keeps Restored (settleMessage P runner m x) := by
  have hreject : ∀ x : Exit V, Keeps Restored (do
      let error ← Traced.read fun th => P.rejectionFor th.shared x
      settleFuture P runner m.future true error : Evaluation V F M PUnit) := fun x =>
    restored_bind (restored_read _) fun error =>
      restored_rules.settleFuture hrunner m.future true error
  cases x with
  | normal v => exact restored_rules.settleFuture hrunner m.future false v
  | futureYield f => exact restored_rules.setSuspension m.actor fun _ _ => rfl
  | _ => exact hreject _

theorem restored_drainMessage (m : Message V F K) : Keeps Restored (drainMessage P runner m) := by
  have hmethod : Keeps Restored (do
      Traced.modify (setCurrentActor (some m.actor))
      let x ← runner (.code m.code)
      if m.resumes || x.isCarrier then Traced.modify (setCurrentActor none)
      settleMessage P runner m x
      Traced.modify (setCurrentActor none) : Evaluation V F M PUnit) := by
    refine restored_bind (restored_setCurrentActor _) fun _ => ?_
    refine restored_bind (hrunner _) fun x => ?_
    have hend : Keeps Restored (do
        settleMessage P runner m x
        Traced.modify (setCurrentActor none) : Evaluation V F M PUnit) :=
      restored_bind (restored_settleMessage hrunner m x) fun _ => restored_setCurrentActor _
    dsimp only
    split
    · exact restored_bind (restored_setCurrentActor _) fun _ => hend
    · exact hend
  unfold drainMessage
  split
  · exact restored_bind (restored_rules.setSuspension m.actor fun _ _ => rfl) fun _ => hmethod
  · exact hmethod

omit hrunner [DecidableEq V] in
theorem restored_hidingHandlers {α : Type} {m : Evaluation V F M α} (hm : Keeps Restored m) :
    Keeps Restored (hidingHandlers m) := by
  intro th a th' h
  obtain ⟨r, hr, hpair⟩ := Option.map_eq_some_iff.mp h
  cases hpair
  have hinner := hm _ _ _ hr
  exact ⟨Scopes.switchOn_switchOffAll hinner.handlers, hinner.activeSignals, hinner.engines,
    hinner.slotCursor⟩

theorem restored_helpOthers (self : V) (helps : List (Message V F K)) :
    Keeps Restored (helpOthers P runner self helps) := by
  induction helps with
  | nil => exact restored_pure _
  | cons m helps ih =>
    refine restored_bind (restored_read _) fun buried => ?_
    split
    · exact ih
    · refine restored_bind ((restored_hidingHandlers (restored_drainMessage hrunner m)).enclosed _)
        fun _ => ?_
      exact restored_bind (restored_setCurrentActor _) fun _ => ih

theorem restored_prim_Future_wait (turns : Nat) (future : V) (helps : List (Message V F K))
    (outside : Option (Bool × V)) :
    Keeps Restored (prim_Future_wait P runner turns future helps outside) :=
  restored_rules.waits_or_yields hrunner (fun _ => trivial) turns
    (fun exc => restored_signalInstance hrunner turns exc none)
    (restored_helpOthers hrunner) future helps outside

/-! ## The loop of an engine -/

omit hrunner in
theorem restored_suspend (f : V) : Keeps Restored (suspend f : Evaluation V F M (Exit V)) :=
  restored_rules.suspend (fun _ => trivial) (fun _ => restored_record _) f

omit hrunner in
theorem within_goOn {loop : K → Evaluation V F M (Exit V)} (hloop : ∀ k, Keeps Within (loop k))
    (resume : Exit V → K) (x : Exit V) : Keeps Within (goOn loop resume x) := by
  cases x with
  | futureYield f => exact (restored_suspend f).mono fun _ _ h => h.within
  | _ => exact hloop _

theorem within_runLoop (turns : Nat) : ∀ k : K, Keeps Within (runLoop P runner turns k) := by
  induction turns with
  | zero => exact fun k => keeps_unfinished
  | succ turns ih =>
    intro k
    refine Keeps.bind Within.trans (within_move k) fun moved => ?_
    cases moved with
    | finish x =>
      cases x with
      | futureYield f => exact (restored_suspend f).mono fun _ _ h => h.within
      | _ => exact keeps_pure Within.refl _
    | call p resume =>
      exact Keeps.bind Within.trans ((hrunner _).mono fun _ _ h => h.within) fun x =>
        within_goOn ih resume x
    | wait future helps outside resume =>
      exact Keeps.bind Within.trans
        ((restored_prim_Future_wait hrunner turns future helps outside).mono fun _ _ h => h.within)
        fun x => within_goOn ih resume x

theorem restored_perform (turns : Nat) (p : Primitive V F K) :
    Keeps Restored (perform P runner turns p) :=
  restored_rules.perform hrunner turns
    (fun exc => restored_signalInstance hrunner turns exc none)
    (restored_runProtected hrunner turns) p

end Parts

/-- **An evaluation restores the thread**, however it ends. -/
theorem restored_run [DecidableEq V] (P : Program V F M K) :
    ∀ (n : Nat) (t : Task V F K), Keeps Restored (run P n t) := by
  intro n
  induction n with
  | zero => exact fun t => keeps_unfinished
  | succ n ih =>
    intro t
    cases t with
    | code c => exact restored_runWithArgs (within_runLoop ih n) c
    | primitive p => exact restored_perform ih n p

end ProtoST.Primitives.Callbacks

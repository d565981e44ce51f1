import ProtoST.Primitives.CallbacksRecords
import ProtoST.Primitives.CallbacksRestored

/-!
# What an evaluation records of an actor

Two things write the suspension record of an actor whose method is under way on the thread: a wait
on a pending future, which clears `__waiting_on__` when it ends, and the `catch` of a `FutureYield`.
The messages of other actors that the thread runs meanwhile leave it alone.

## Main results

* `accounted_run` — the record of the current actor, by the events of the evaluation.
-/

namespace ProtoST.Primitives.Callbacks

open ProtoST.Lib

variable {V F M K : Type} {a : V}
variable {P : Program V F M K} {runner : Task V F K → Evaluation V F M (Exit V)}

section Messages

variable [DecidableEq V] (hrunner : ∀ t, Accounted a (runner t))
include hrunner

/-! ## Messages of other actors -/

/-- The record of `a`, if `a` is buried and not current. -/
structure Aside (a : V) (th th' : Thread V F M) : Prop where
  buriedActors : th'.buriedActors = th.buriedActors
  currentActor : th.currentActor ≠ some a → th'.currentActor ≠ some a
  aside : th.currentActor ≠ some a → a ∈ th.buriedActors → th'.suspensions a = th.suspensions a

omit hrunner [DecidableEq V] in
theorem Aside.trans (s t u : Thread V F M) (h : Aside a s t) (h' : Aside a t u) : Aside a s u where
  buriedActors := h'.buriedActors.trans h.buriedActors
  currentActor hcurrent := h'.currentActor (h.currentActor hcurrent)
  aside := by
    intro hcurrent hburied
    have hrest := h'.aside (h.currentActor hcurrent) (by rw [h.buriedActors]; exact hburied)
    exact hrest.trans (h.aside hcurrent hburied)

omit hrunner [DecidableEq V] in
theorem aside_of_accounted {α : Type} {m : Evaluation V F M α} (hm : Accounted a m) :
    Keeps (Aside a) m := by
  intro th x th' h
  have hdone := hm th x th' h
  exact ⟨hdone.buriedActors, fun hcurrent => by rw [hdone.currentActor]; exact hcurrent,
    hdone.aside⟩

omit hrunner [DecidableEq V] in
theorem aside_setCurrentActor {actor : Option V} (hactor : actor ≠ some a) :
    Keeps (Aside a) (Traced.modify (setCurrentActor actor) : Evaluation V F M PUnit) :=
  keeps_modify fun _ => ⟨rfl, fun _ => hactor, fun _ _ => rfl⟩

omit hrunner in
theorem setSuspension_of_ne {actor : V} (hactor : actor ≠ a) (th : Thread V F M)
    (g : Suspension V F → Suspension V F) :
    (th.setSuspension actor g).suspensions a = th.suspensions a := if_neg hactor.symm

omit hrunner in
theorem aside_setSuspension {actor : V} (hactor : actor ≠ a) (g : Suspension V F → Suspension V F) :
    Keeps (Aside a) (Traced.modify fun th => th.setSuspension actor g : Evaluation V F M PUnit) :=
  keeps_modify fun th => ⟨rfl, fun hcurrent => hcurrent, fun _ _ => setSuspension_of_ne hactor th g⟩

variable {m : Message V F K}

theorem aside_settleMessage (hactor : m.actor ≠ a) (x : Exit V) :
    Keeps (Aside a) (settleMessage P runner m x) := by
  have hreject : ∀ x : Exit V, Keeps (Aside a) (do
      let error ← Traced.read fun th => P.rejectionFor th.shared x
      settleFuture P runner m.future true error : Evaluation V F M PUnit) := fun x =>
    aside_of_accounted (accounted_bind (accounted_read _) fun error =>
      (accounted_rules a).settleFuture hrunner m.future true error)
  cases x with
  | normal v => exact aside_of_accounted ((accounted_rules a).settleFuture hrunner m.future false v)
  | futureYield f => exact aside_setSuspension hactor _
  | _ => exact hreject _

/-- A message of another actor, from the method on. -/
theorem aside_method (hactor : m.actor ≠ a) : Keeps (Aside a) (do
    let x ← runner (.code m.code)
    if m.resumes || x.isCarrier then Traced.modify (setCurrentActor none)
    settleMessage P runner m x
    Traced.modify (setCurrentActor none) : Evaluation V F M PUnit) := by
  have hnone : (none : Option V) ≠ some a := fun h => by cases h
  refine Keeps.bind Aside.trans (aside_of_accounted (hrunner _)) fun x => ?_
  have hend : Keeps (Aside a) (do
      settleMessage P runner m x
      Traced.modify (setCurrentActor none) : Evaluation V F M PUnit) :=
    Keeps.bind Aside.trans (aside_settleMessage hrunner hactor x) fun _ =>
      aside_setCurrentActor hnone
  dsimp only
  split
  · exact Keeps.bind Aside.trans (aside_setCurrentActor hnone) fun _ => hend
  · exact hend

/-- **A message of another actor** leaves the record of a buried actor alone. -/
theorem drainMessage_aside (hactor : m.actor ≠ a) {th th' : Thread V F M}
    {u : PUnit} (hburied : a ∈ th.buriedActors)
    (h : (drainMessage P runner m th).outcome = some (u, th')) :
    th'.buriedActors = th.buriedActors ∧ th'.suspensions a = th.suspensions a := by
  have hmethod : ∀ t : Thread V F M, t.buriedActors = th.buriedActors →
      t.suspensions a = th.suspensions a → ((do
        Traced.modify (setCurrentActor (some m.actor))
        let x ← runner (.code m.code)
        if m.resumes || x.isCarrier then Traced.modify (setCurrentActor none)
        settleMessage P runner m x
        Traced.modify (setCurrentActor none) : Evaluation V F M PUnit) t).outcome = some (u, th') →
      th'.buriedActors = th.buriedActors ∧ th'.suspensions a = th.suspensions a := by
    intro t hsame hrecord hrun
    obtain ⟨_, t', hset, hrun⟩ := outcome_bind hrun
    cases hset
    have hother : some m.actor ≠ some a := fun h => hactor (Option.some.inj h)
    have haside := aside_method hrunner hactor _ u th' hrun
    refine ⟨haside.buriedActors.trans hsame, ?_⟩
    have hkept := haside.aside hother (hsame ▸ hburied)
    exact hkept.trans hrecord
  unfold drainMessage at h
  split at h
  · obtain ⟨_, t, hset, hrun⟩ := outcome_bind h
    cases hset
    have hrecord := setSuspension_of_ne hactor th fun _ => ⟨none, none, none⟩
    exact hmethod _ (by rfl) (by exact hrecord) hrun
  · exact hmethod th rfl rfl h

/-- The messages that a waiting thread runs, and the record of a buried actor. -/
theorem helpOthers_aside (self : V) (helps : List (Message V F K)) {th th' : Thread V F M}
    {u : PUnit} (hburied : a ∈ th.buriedActors) (hself : th.currentActor = some self)
    (h : (helpOthers P runner self helps th).outcome = some (u, th')) :
    th'.buriedActors = th.buriedActors ∧ th'.suspensions a = th.suspensions a ∧
      th'.currentActor = some self ∧
        ∀ e ∈ (helpOthers P runner self helps th).events, ∃ l, e = .helped l := by
  induction helps generalizing th with
  | nil =>
    cases h
    exact ⟨rfl, rfl, hself, fun e he => by cases he⟩
  | cons m helps ih =>
    have hcontains : (Traced.read fun th : Thread V F M => th.buriedActors.contains m.actor :
        Evaluation V F M Bool) th =
          ⟨[], some (th.buriedActors.contains m.actor, th)⟩ := rfl
    rw [helpOthers, bind_some (congrArg Course.outcome hcontains)] at h ⊢
    rw [hcontains, List.nil_append]
    by_cases hready : th.buriedActors.contains m.actor = true
    · rw [if_pos hready] at h ⊢
      exact ih hburied hself h
    · rw [if_neg hready] at h ⊢
      have hactor : m.actor ≠ a := by
        rintro rfl
        exact hready (List.contains_iff_mem.mpr hburied)
      obtain ⟨_, t, ht, hrest⟩ := outcome_bind h
      obtain ⟨r, hr, hpair⟩ := Option.map_eq_some_iff.mp ht
      cases hpair
      have hdrained := drainMessage_aside hrunner hactor (by exact hburied) hr
      rw [bind_some ht]
      obtain ⟨_, t', hset, hhelps⟩ := outcome_bind hrest
      cases hset
      rw [bind_some rfl]
      have hburied' : a ∈ r.2.buriedActors := by
        rw [hdrained.1]
        exact hburied
      have hrec := ih (by exact hburied') (by rfl) hhelps
      refine ⟨hrec.1.trans hdrained.1, hrec.2.1.trans hdrained.2, hrec.2.2.1, fun e he => ?_⟩
      rcases List.mem_cons.mp he with rfl | he
      · exact ⟨_, rfl⟩
      · exact hrec.2.2.2 e he

/-! ## Waiting -/

theorem accounted_waitedValue (turns : Nat) (future : V) :
    Accounted a (waitedValue P runner turns future) :=
  (accounted_rules a).waitedValue hrunner turns
    (fun exc => (accounted_rules a).signalInstance hrunner turns exc none) future

omit hrunner in
theorem setSuspension_self (th : Thread V F M) (actor : V) (g : Suspension V F → Suspension V F) :
    (th.setSuspension actor g).suspensions actor = g (th.suspensions actor) := if_pos rfl

omit hrunner in
/-- The current actor writes its `__waiting_on__`. -/
theorem holds_setWaitingOn {self : V} {th : Thread V F M} (hself : th.currentActor = some self)
    (future : Option V) :
    Holds a th [] (th.setSuspension self fun s => { s with waitingOn := future }) where
  currentActor := rfl
  buriedActors := rfl
  aside := by
    intro hcurrent _
    refine setSuspension_of_ne ?_ th _
    rintro rfl
    exact hcurrent hself
  kept := by
    intro hcurrent _
    cases Option.some.inj (hself.symm.trans hcurrent)
    rw [setSuspension_self]
    exact ⟨rfl, rfl⟩
  grown _ h := by cases h

end Messages

section Waits

variable [DecidableEq V] (hrunner : ∀ b t, Accounted b (runner t))
include hrunner

theorem holds_helpOthers {self : V} {helps : List (Message V F K)} {th th' : Thread V F M}
    {u : PUnit} (hself : th.currentActor = some self) (hburied : self ∈ th.buriedActors)
    (h : (helpOthers P runner self helps th).outcome = some (u, th')) :
    Holds a th (helpOthers P runner self helps th).events th' := by
  have hkept := helpOthers_aside (hrunner self) self helps hburied hself h
  have haside : ∀ b ∈ th.buriedActors, th'.suspensions b = th.suspensions b := fun b hb =>
    (helpOthers_aside (hrunner b) self helps hb hself h).2.1
  refine ⟨hkept.2.2.1.trans hself.symm, hkept.1, fun _ => haside a, fun hcurrent _ => ?_,
    fun _ hsuspends => ?_⟩
  · cases Option.some.inj (hself.symm.trans hcurrent)
    rw [haside a hburied]
    exact ⟨rfl, rfl⟩
  · obtain ⟨l, hl⟩ := hkept.2.2.2 _ hsuspends
    cases hl

omit hrunner [DecidableEq V] in
theorem Accounts.of_cleared {self : V} {th th' : Thread V F M} {l : List (Event V M)}
    (h : Holds a th l th') (hself : th.currentActor = some self) (hwaits : .waits self ∈ l)
    (hcleared : (th'.suspensions self).waitingOn = none) : Accounts a th l th' where
  toHolds := h
  untouched := by
    intro hcurrent _ hnone
    cases Option.some.inj (hself.symm.trans hcurrent)
    exact absurd hwaits hnone
  waited := by
    intro hcurrent _ _
    cases Option.some.inj (hself.symm.trans hcurrent)
    exact hcleared

/-- In the method of `self` the record of `a` holds what it did, apart from `__waiting_on__`, and
the thread ends in a state that is `Q`. -/
def While (self a : V) (Q : Thread V F M → Prop) (th : Thread V F M) (l : List (Event V M))
    (th' : Thread V F M) : Prop :=
  th.currentActor = some self → Holds a th l th' ∧ Q th'

/-- The evaluation does so. -/
abbrev Does.While {α : Type} (self a : V) (Q : α → Thread V F M → Prop)
    (m : Evaluation V F M α) : Prop :=
  Does (fun th l x th' => Callbacks.While self a (Q x) th l th') m

omit hrunner [DecidableEq V] in
theorem while_bind {α β : Type} {self : V} {m : Evaluation V F M α} {f : α → Evaluation V F M β}
    {Q : α → Thread V F M → Prop} {Q' : β → Thread V F M → Prop} (hm : Does.While self a Q m)
    (hf : ∀ x, Does.While self a Q' (f x)) : Does.While self a Q' (m >>= f) := by
  refine Does.bind (fun s l x t l' y u h h' hself => ?_) hm hf
  have hfirst := (h hself).1
  have hrest := h' (hfirst.currentActor.trans hself)
  exact ⟨Holds.trans s l t l' u hfirst hrest.1, hrest.2⟩

omit hrunner [DecidableEq V] in
theorem while_of_accounted {α : Type} {m : Evaluation V F M α} (hm : Accounted a m) (self : V) :
    Does.While self a (fun _ _ => True) m :=
  hm.mono fun _ _ _ _ h _ => ⟨h.toHolds, trivial⟩

omit hrunner in
theorem while_setWaitingOn (self : V) (future : Option V) :
    Does.While self a (fun _ th => (th.suspensions self).waitingOn = future)
      (setWaitingOn self future : Evaluation V F M PUnit) := by
  refine does_modify fun th hself => ⟨holds_setWaitingOn hself future, ?_⟩
  exact congrArg Suspension.waitingOn (setSuspension_self th self _)

omit hrunner in
/-- What ends with `__waiting_on__` cleared. -/
theorem while_cleared {α : Type} (self : V) (x : α) :
    Does.While self a (fun _ th => (th.suspensions self).waitingOn = none) (do
      setWaitingOn self none
      pure x : Evaluation V F M α) := by
  intro th y th' h hself
  obtain ⟨_, t, ht, h⟩ := outcome_bind h
  cases ht
  cases h
  rw [bind_some rfl]
  exact ⟨holds_setWaitingOn hself none,
    congrArg Suspension.waitingOn (setSuspension_self th self _)⟩

/-- What follows the messages of other actors in a wait. -/
theorem while_settled (turns : Nat) (self future : V) (outside : Option (Bool × V)) :
    Does.While self a (fun _ th => (th.suspensions self).waitingOn = none) (do
      Traced.modify (settledOutside future outside)
      let x ← waitedValue P runner turns future
      setWaitingOn self none
      pure x : Evaluation V F M (Exit V)) := by
  refine while_bind (while_of_accounted ((accounted_rules a).settledOutside future outside) self)
    fun _ => ?_
  refine while_bind (while_of_accounted (accounted_waitedValue (hrunner a) turns future) self)
    fun x => ?_
  exact while_cleared self x

/-- The messages of other actors, in the method of `self`, which is buried. -/
theorem does_helpUntilSettled (turns : Nat) (self future : V) (helps : List (Message V F K))
    (outside : Option (Bool × V)) :
    Does (fun th l _ th' => self ∈ th.buriedActors →
      While self a (fun t => (t.suspensions self).waitingOn = none) th l th')
      (helpUntilSettled P runner turns self future helps outside) := by
  intro th x th' h hburied hself
  obtain ⟨_, t, ht, hrest⟩ := outcome_bind h
  have hhelped := holds_helpOthers (a := a) hrunner hself hburied ht
  have hsettled := while_settled (a := a) hrunner turns self future outside t x th' hrest
    (hhelped.currentActor.trans hself)
  unfold helpUntilSettled
  rw [bind_some ht]
  exact ⟨Holds.trans th _ t _ th' hhelped hsettled.1, hsettled.2⟩

theorem while_waitHelping (turns : Nat) (self future : V) (helps : List (Message V F K))
    (outside : Option (Bool × V)) :
    Does.While self a (fun _ th => (th.suspensions self).waitingOn = none)
      (waitHelping P runner turns self future helps outside) := by
  intro th x th' h hself
  obtain ⟨t, ht, rfl⟩ := outcome_bracket h
  have hinner := does_helpUntilSettled (a := a) hrunner turns self future helps outside _ x t ht
    List.mem_cons_self hself
  have hevents : (waitHelping P runner turns self future helps outside th).events =
      (helpUntilSettled P runner turns self future helps outside
        { th with buriedActors := self :: th.buriedActors }).events := by
    unfold waitHelping
    rw [bind_some rfl, bind_some ht, bind_some rfl]
    exact (List.nil_append _).trans ((congrArg _ (List.nil_append _)).trans (List.append_nil _))
  rw [hevents]
  refine ⟨⟨hinner.1.currentActor, congrArg List.tail hinner.1.buriedActors, fun hcurrent hmem => ?_,
    hinner.1.kept, hinner.1.grown⟩, hinner.2⟩
  exact hinner.1.aside hcurrent (List.mem_cons_of_mem _ hmem)

omit hrunner in
/-- A wait that throws ends with `__waiting_on__` cleared. -/
theorem while_detectWaitCycle (self future : V) :
    Does.While self a (fun throws th => throws = true → (th.suspensions self).waitingOn = none)
      (detectWaitCycle self future : Evaluation V F M Bool) := by
  refine while_bind (while_setWaitingOn self (some future)) fun _ => ?_
  refine while_bind (while_of_accounted (accounted_read _) self) fun cycle => ?_
  split
  · have hcleared : Does.While self a (fun _ th => (th.suspensions self).waitingOn = none) (do
        setWaitingOn self none
        pure true : Evaluation V F M Bool) := while_cleared self true
    exact hcleared.mono fun _ _ _ _ h hself => ⟨(h hself).1, fun _ => (h hself).2⟩
  · refine does_pure fun th _ => ⟨(Accounts.refl a th).toHolds, fun h => ?_⟩
    cases h

/-- The exit of a wait, and the record: a `FutureYield` is yet to be recorded. -/
def Waited (a : V) (th : Thread V F M) (l : List (Event V M)) (x : Exit V) (th' : Thread V F M) :
    Prop :=
  Accounts a th l th' ∨ ((∃ f, x = .futureYield f) ∧ Holds a th l th')

omit hrunner [DecidableEq V] in
theorem holds_waits {self : V} (th : Thread V F M) : Holds a th [.waits self] th where
  currentActor := rfl
  buriedActors := rfl
  aside _ _ := rfl
  kept _ _ := ⟨rfl, rfl⟩
  grown _ h := by cases List.mem_singleton.mp h

/-- What a wait does that has found no cycle. -/
theorem while_waitOn (turns : Nat) (self future : V) (helps : List (Message V F K))
    (outside : Option (Bool × V)) :
    Does.While self a
      (fun x th => (∃ f, x = .futureYield f) ∨ (th.suspensions self).waitingOn = none) (do
        let engines ← Traced.read fun th => th.engines.length
        if 1 < engines then waitHelping P runner turns self future helps outside
        else pure (.futureYield future)) := by
  refine while_bind (while_of_accounted (accounted_read _) self) fun engines => ?_
  split
  · have hhelping := while_waitHelping (a := a) (P := P) hrunner turns self future helps outside
    exact hhelping.mono fun _ _ _ _ h hself => ⟨(h hself).1, .inr (h hself).2⟩
  · exact does_pure fun th _ => ⟨(Accounts.refl a th).toHolds, .inl ⟨future, rfl⟩⟩

theorem does_waitPending (turns : Nat) (self future : V) (helps : List (Message V F K))
    (outside : Option (Bool × V)) :
    Does (fun th l x th' => th.currentActor = some self → Waited a th l x th')
      (waitPending P runner turns self future helps outside) := by
  have hwait : Does.While self a
      (fun x th => (∃ f, x = .futureYield f) ∨ (th.suspensions self).waitingOn = none) (do
        if ← detectWaitCycle self future then pure (.stdException kDeadlockMessage)
        else do
          let engines ← Traced.read fun th => th.engines.length
          if 1 < engines then waitHelping P runner turns self future helps outside
          else pure (.futureYield future)) := by
    intro th x th' h hself
    obtain ⟨throws, t, ht, h⟩ := outcome_bind h
    have hdetect := while_detectWaitCycle (a := a) self future th throws t ht hself
    rw [bind_some ht]
    cases throws with
    | true =>
      cases h
      exact ⟨Holds.trans th _ _ [] _ hdetect.1 (Accounts.refl a _).toHolds, .inr (hdetect.2 rfl)⟩
    | false =>
      have hrest := while_waitOn (a := a) (P := P) hrunner turns self future helps outside t x th' h
        (hdetect.1.currentActor.trans hself)
      exact ⟨Holds.trans th _ t _ th' hdetect.1 hrest.1, hrest.2⟩
  intro th x th' h hself
  obtain ⟨_, t, ht, h⟩ := outcome_bind h
  cases ht
  unfold waitPending
  rw [bind_some rfl]
  have hrest := hwait th x th' h hself
  have hwaits : Holds a th [.waits self] th := holds_waits th
  have hholds := Holds.trans th _ th _ th' hwaits hrest.1
  rcases hrest.2 with hyields | hcleared
  · exact .inr ⟨hyields, hholds⟩
  · exact .inl (Accounts.of_cleared hholds hself List.mem_cons_self hcleared)

theorem does_prim_Future_wait (turns : Nat) (future : V) (helps : List (Message V F K))
    (outside : Option (Bool × V)) :
    Does (Waited a) (prim_Future_wait P runner turns future helps outside) := by
  intro th x th' h
  obtain ⟨actor, t, ht, h⟩ := outcome_bind h
  cases ht
  unfold prim_Future_wait
  rw [bind_some rfl]
  dsimp only at h ⊢
  have hvalue := accounted_waitedValue (P := P) (hrunner a) turns future
  cases hactor : th.currentActor with
  | none =>
    rw [hactor] at h
    exact .inl (accounted_bind ((accounted_rules a).settledOutside future outside)
      (fun _ => hvalue) th x th' h)
  | some self =>
    rw [hactor] at h
    obtain ⟨state, t, ht, h⟩ := outcome_bind h
    cases ht
    dsimp only at h ⊢
    rw [bind_some rfl]
    dsimp only
    cases hstate : th.readState future with
    | pending =>
      rw [hstate] at h
      exact does_waitPending hrunner turns self future helps outside th x th' h hactor
    | resolved =>
      rw [hstate] at h
      exact .inl (hvalue th x th' h)
    | rejected =>
      rw [hstate] at h
      exact .inl (hvalue th x th' h)

end Waits

/-! ## The loop of an engine -/

/-- Writes of the record of `actor`, which holds no fewer frames after them. -/
structure Writes (actor : V) (th th' : Thread V F M) : Prop where
  currentActor : th'.currentActor = th.currentActor
  buriedActors : th'.buriedActors = th.buriedActors
  others : ∀ b ≠ actor, th'.suspensions b = th.suspensions b
  held_le : th.held actor ≤ th'.held actor

namespace Writes

theorem refl (actor : V) (th : Thread V F M) : Writes actor th th :=
  ⟨rfl, rfl, fun _ _ => rfl, Nat.le_refl _⟩

theorem trans (actor : V) (s t u : Thread V F M) (h : Writes actor s t) (h' : Writes actor t u) :
    Writes actor s u where
  currentActor := h'.currentActor.trans h.currentActor
  buriedActors := h'.buriedActors.trans h.buriedActors
  others b hb := (h'.others b hb).trans (h.others b hb)
  held_le := Nat.le_trans h.held_le h'.held_le

end Writes

/-- The current actor is suspended. -/
theorem Accounts.of_suspends {actor : V} {th t th' : Thread V F M} {l : List (Event V M)}
    (hactor : th.currentActor = some actor) (hfirst : Writes actor th t)
    (hgrows : th.held actor < t.held actor) (hrest : Writes actor t th')
    (hsuspends : .suspends actor ∈ l) : Accounts a th l th' := by
  have hwrites := Writes.trans actor th t th' hfirst hrest
  have hself : th.currentActor = some a → .suspends a ∈ l := by
    intro hcurrent
    cases Option.some.inj (hactor.symm.trans hcurrent)
    exact hsuspends
  refine ⟨⟨hwrites.currentActor, hwrites.buriedActors, fun hcurrent _ => ?_,
    fun hcurrent hnone => absurd (hself hcurrent) hnone, fun hcurrent _ => ?_⟩,
    fun hcurrent hnone => absurd (hself hcurrent) hnone,
    fun hcurrent hnone => absurd (hself hcurrent) hnone⟩
  · apply hwrites.others
    rintro rfl
    exact hcurrent hactor
  · cases Option.some.inj (hactor.symm.trans hcurrent)
    exact Nat.lt_of_lt_of_le hgrows hrest.held_le

section Loop

variable [DecidableEq V]

theorem writes_setWaitingOn (actor : V) (future : Option V) :
    Keeps (Writes actor) (setWaitingOn actor future : Evaluation V F M PUnit) := by
  refine keeps_modify fun th => ⟨rfl, rfl, fun b hb => setSuspension_of_ne hb.symm th _, ?_⟩
  unfold Thread.held
  exact Nat.le_of_eq (by rw [setSuspension_self])

/-- The end of `suspend`, after the frames are recorded. -/
theorem writes_registered (actor future : V) (firstCatch : Bool) :
    Keeps (Writes actor) (do
      if firstCatch then do
        setWaitingOn actor (some future)
        if ← appendOrDrained future .waiters actor then pure (.futureYield future)
        else do
          Traced.modify fun th => { th with scheduled := th.scheduled ++ [actor] }
          pure (.futureYield future)
      else pure (.futureYield future) : Evaluation V F M (Exit V)) := by
  have hpure : ∀ x : Exit V, Keeps (Writes actor) (pure x : Evaluation V F M (Exit V)) := fun x =>
    keeps_pure (Writes.refl actor) x
  split
  · refine Keeps.bind (Writes.trans actor) (writes_setWaitingOn actor (some future)) fun _ => ?_
    refine Keeps.bind (Writes.trans actor) ?_ fun appended => ?_
    · refine Keeps.bind (Writes.trans actor) (keeps_read (Writes.refl actor) _) fun list => ?_
      cases list with
      | none => exact keeps_pure (Writes.refl actor) false
      | some list =>
        refine Keeps.bind (Writes.trans actor) (keeps_modify fun th => ?_) fun _ =>
          keeps_pure (Writes.refl actor) true
        exact ⟨rfl, rfl, fun _ _ => rfl, Nat.le_refl _⟩
    · split
      · exact hpure _
      · refine Keeps.bind (Writes.trans actor) (keeps_modify fun th => ?_) fun _ => hpure _
        exact ⟨rfl, rfl, fun _ _ => rfl, Nat.le_refl _⟩
  · exact hpure _

omit [DecidableEq V] in
theorem snapshotFrames_pos {th : Thread V F M} (hlive : th.engines ≠ []) :
    0 < (snapshotFrames th).length := by
  unfold snapshotFrames
  split
  · exact absurd ‹_› hlive
  · rw [List.length_reverse]
    exact Nat.succ_pos _

/-- An engine that suspends the current actor adds its frames to the record. -/
theorem held_lt_setSuspension {th : Thread V F M} (hlive : th.engines ≠ []) (actor : V) :
    th.held actor < (th.setSuspension actor fun s =>
      { s with suspendedFrame := some (snapshotFrames th ++ s.suspendedFrame.getD []) }).held
        actor := by
  have hpos := snapshotFrames_pos hlive
  unfold Thread.held
  rw [setSuspension_self, Option.getD_some, List.length_append]
  exact Nat.lt_add_of_pos_left hpos

theorem writes_recorded (th : Thread V F M) (actor : V) :
    Writes actor th (th.setSuspension actor fun s =>
      { s with suspendedFrame := some (snapshotFrames th ++ s.suspendedFrame.getD []) }) := by
  refine ⟨rfl, rfl, fun b hb => setSuspension_of_ne hb.symm th _, ?_⟩
  unfold Thread.held
  rw [setSuspension_self, Option.getD_some, List.length_append]
  exact Nat.le_add_left _ _

/-- What a `FutureYield` leaves in the record, from a thread with an engine. -/
theorem does_suspend (future : V) :
    Does (fun th l _ th' => th.engines ≠ [] →
      Accounts a th l th' ∧ (th.currentActor = some a → .suspends a ∈ l))
      (suspend future : Evaluation V F M (Exit V)) := by
  intro th x th' h hlive
  obtain ⟨actor, t, ht, h⟩ := outcome_bind h
  cases ht
  dsimp only at h
  cases hactor : th.currentActor with
  | none =>
    rw [hactor] at h
    cases h
    have hevents : (suspend future th).events = [] := by
      unfold suspend
      rw [bind_some rfl]
      dsimp only
      rw [hactor]
      rfl
    rw [hevents]
    refine ⟨Accounts.refl a th, fun hcurrent => ?_⟩
    cases hcurrent
  | some actor =>
    rw [hactor] at h
    obtain ⟨_, t, ht, h⟩ := outcome_bind h
    cases ht
    obtain ⟨firstCatch, t, ht, h⟩ := outcome_bind h
    cases ht
    obtain ⟨_, t, ht, h⟩ := outcome_bind h
    cases ht
    have hrest := writes_registered actor future _ _ x th' h
    have hfirst := writes_recorded th actor
    have hsuspends : .suspends actor ∈ (suspend future th).events := by
      unfold suspend
      rw [bind_some rfl]
      dsimp only
      rw [hactor]
      dsimp only
      rw [bind_some rfl]
      exact List.mem_cons_self
    refine ⟨Accounts.of_suspends hactor hfirst (held_lt_setSuspension hlive actor) hrest hsuspends,
      fun hcurrent => ?_⟩
    cases Option.some.inj hcurrent
    exact hsuspends

variable {loop : K → Evaluation V F M (Exit V)}

/-- What the loop of an engine does with the exit of a call. -/
theorem does_goOn
    (hloop : ∀ k, Does (fun th l _ th' => th.engines ≠ [] → Accounts a th l th') (loop k))
    (resume : Exit V → K) (x : Exit V) :
    Does (fun th l _ th' => th.engines ≠ [] → Accounts a th l th' ∧
      ((∃ f, x = .futureYield f) → th.currentActor = some a → .suspends a ∈ l))
      (goOn loop resume x) := by
  have hother : (∀ f, x ≠ .futureYield f) → Does (fun th l _ th' => th.engines ≠ [] →
      Accounts a th l th' ∧
        ((∃ f, x = .futureYield f) → th.currentActor = some a → .suspends a ∈ l))
      (loop (resume x)) := fun hx => (hloop _).mono fun _ _ _ _ h hlive =>
    ⟨h hlive, fun ⟨f, hf⟩ => absurd hf (hx f)⟩
  cases x with
  | futureYield f =>
    exact (does_suspend f).mono fun _ _ _ _ h hlive => ⟨(h hlive).1, fun _ => (h hlive).2⟩
  | _ => exact hother fun f h => by cases h

omit [DecidableEq V] in
/-- A call whose exit the record has yet to tell of, and what the loop does with the exit. -/
theorem Waited.accounts {x : Exit V} {s t u : Thread V F M} {l l' : List (Event V M)}
    (h : Waited a s l x t) (h' : Accounts a t l' u)
    (hsuspends : (∃ f, x = .futureYield f) → t.currentActor = some a → .suspends a ∈ l') :
    Accounts a s (l ++ l') u := by
  rcases h with h | ⟨hyields, h⟩
  · exact Accounts.trans s l t l' u h h'
  · have hmem : s.currentActor = some a → .suspends a ∈ l ++ l' := fun hcurrent =>
      List.mem_append_right l (hsuspends hyields (h.currentActor.trans hcurrent))
    exact ⟨Holds.trans s l t l' u h h'.toHolds, fun hcurrent hnone => absurd (hmem hcurrent) hnone,
      fun hcurrent hnone => absurd (hmem hcurrent) hnone⟩

variable (hrunner : ∀ b t, Accounted b (runner t)) (hrestored : ∀ t, Keeps Restored (runner t))

omit [DecidableEq V] in
theorem does_move (k : K) :
    Does (fun th l _ th' => Accounts a th l th' ∧ th'.engines ≠ []) (move P k) := by
  intro th moved th' h
  unfold move at h ⊢
  cases hengines : th.engines with
  | nil =>
    rw [hengines] at h
    cases h
  | cons e outer =>
    rw [hengines] at h
    cases h
    have hchanged := accounted_modify (a := a) (g := fun th : Thread V F M =>
      th.withView e outer (P.next k outer (th.view e)).2) fun th => ⟨rfl, rfl, rfl⟩
    exact ⟨hchanged th ⟨⟩ _ rfl, List.cons_ne_nil _ _⟩

/-- A call, and what the loop does with its exit. -/
theorem does_called {m : Evaluation V F M (Exit V)}
    (hm : Does (Waited a) m) (hrestored : Keeps Restored m)
    (hloop : ∀ k, Does (fun th l _ th' => th.engines ≠ [] → Accounts a th l th') (loop k))
    (resume : Exit V → K) :
    Does (fun th l _ th' => th.engines ≠ [] → Accounts a th l th') (m >>= goOn loop resume) := by
  intro th x th' h hlive
  obtain ⟨y, t, ht, h⟩ := outcome_bind h
  rw [bind_some ht]
  have hlive' : t.engines ≠ [] := by
    rw [(hrestored th y t ht).engines]
    exact hlive
  have hrest := does_goOn hloop resume y t x th' h hlive'
  exact (hm th y t ht).accounts hrest.1 hrest.2

variable (hrunner : ∀ b t, Accounted b (runner t)) (hrestored : ∀ t, Keeps Restored (runner t))
include hrunner hrestored

theorem does_afterMove (turns : Nat)
    (hloop : ∀ k, Does (fun th l _ th' => th.engines ≠ [] → Accounts a th l th') (loop k))
    (moved : Move V F K) :
    Does (fun th l _ th' => th.engines ≠ [] → Accounts a th l th')
      (afterMove P runner turns loop moved) := by
  cases moved with
  | finish x =>
    cases x with
    | futureYield f => exact (does_suspend f).mono fun _ _ _ _ h hlive => (h hlive).1
    | _ => exact does_pure fun th _ => Accounts.refl a th
  | call p resume =>
    have hcall : Does (Waited a) (runner (.primitive p)) :=
      (hrunner a _).mono fun _ _ _ _ h => .inl h
    exact does_called hcall (hrestored _) hloop resume
  | wait future helps outside resume =>
    have hwait := does_prim_Future_wait (a := a) (P := P) hrunner turns future helps outside
    exact does_called hwait (restored_prim_Future_wait hrestored turns future helps outside) hloop
      resume

theorem does_runLoop (turns : Nat) : ∀ k : K,
    Does (fun th l _ th' => th.engines ≠ [] → Accounts a th l th') (runLoop P runner turns k) := by
  induction turns with
  | zero => exact fun k => does_unfinished
  | succ turns ih =>
    intro k
    refine Does.bind ?_ (does_move (a := a) k) (does_afterMove (P := P) hrunner hrestored turns ih)
    exact fun s l _ t l' _ u h h' _ => Accounts.trans s l t l' u h.1 (h' h.2)

omit [DecidableEq V] hrunner hrestored in
theorem accounted_leave (x : Exit V) : Accounted a (do
    Traced.modify Thread.leave
    pure x : Evaluation V F M (Exit V)) := by
  refine accounted_bind (accounted_modify fun th => ?_) fun _ => accounted_pure x
  unfold Thread.leave
  split <;> exact ⟨rfl, rfl, rfl⟩

omit [DecidableEq V] hrunner hrestored in
theorem accounted_runWithArgs
    (hloop : ∀ k, Does (fun th l _ th' => th.engines ≠ [] → Accounts a th l th') (loop k))
    (c : Code F K) : Accounted a (runWithArgs loop c) := by
  refine accounted_bind (accounted_read _) fun engines => ?_
  refine accounted_bind (accounted_read _) fun slotCursor => ?_
  split
  · exact accounted_pure _
  split
  · exact accounted_pure _
  · intro th x th' h
    obtain ⟨_, t, ht, h⟩ := outcome_bind h
    cases ht
    obtain ⟨y, t, ht, h⟩ := outcome_bind h
    have henter := accounted_modify (a := a) (g := Thread.enter c) fun th : Thread V F M =>
      ⟨rfl, rfl, rfl⟩
    have hbody := hloop c.entry (th.enter c) y t ht (List.cons_ne_nil _ _)
    have hleave := accounted_leave (a := a) y t x th' h
    rw [bind_some rfl, bind_some ht]
    exact Accounts.trans th [] _ _ th' (henter th ⟨⟩ _ rfl)
      (Accounts.trans _ _ t _ th' hbody hleave)

end Loop

/-- **The record of the current actor**, by the events of an evaluation. -/
theorem accounted_run [DecidableEq V] (P : Program V F M K) :
    ∀ (n : Nat) (a : V) (t : Task V F K), Accounted a (run P n t) := by
  intro n
  induction n with
  | zero => exact fun a t => does_unfinished
  | succ n ih =>
    intro a t
    cases t with
    | code c => exact accounted_runWithArgs (does_runLoop ih (restored_run P n) n) c
    | primitive p => exact (accounted_rules a).perform (ih a) n p

end ProtoST.Primitives.Callbacks

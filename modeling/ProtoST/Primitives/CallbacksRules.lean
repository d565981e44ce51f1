import ProtoST.Primitives.Callbacks

/-!
# Callbacks of futures: the parts of an evaluation

Most primitives read and write objects and futures only: they leave the handler stack to
`signalInstance` and `runProtected`, the engines to `runWithArgs` and the actors to the wait.  What
composition keeps, and what such reads and writes have, they have.

## Main definitions

* `Rules` — a property of evaluations that composition keeps, with the parts that have it.
* `HandlerRules`, `WaitRules` — likewise, with what signals and protected blocks do to the handler
  stack, and with what a wait writes.

## Main results

* `Rules.perform`, `HandlerRules.perform` — a primitive, from what it evaluates.
-/

namespace ProtoST.Primitives.Callbacks

open ProtoST.Lib

variable {V F M K : Type}

def Thread.withHandlers (th : Thread V F M) (hs : Scopes (Handler V)) : Thread V F M :=
  { th with handlers := hs }

/-- Objects and futures apart, the thread is what it was. -/
def Thread.Beside (th th' : Thread V F M) : Prop :=
  th' = { th with shared := th'.shared, futures := th'.futures, scheduled := th'.scheduled }

/-- Objects, futures and actors apart, the thread is what it was. -/
def Thread.Around (th th' : Thread V F M) : Prop :=
  th' = { th with
    shared := th'.shared, futures := th'.futures, scheduled := th'.scheduled,
    suspensions := th'.suspensions, currentActor := th'.currentActor,
    buriedActors := th'.buriedActors }

def Exit.yields : Exit V → Bool
  | .futureYield _ => true
  | _ => false

/-- A property of evaluations that composition keeps, and the same with exits that are `ok`.  The
primitive parts that have it do not see the handler stack. -/
structure Rules (ok : Exit V → Prop) (X : Evaluation V F M (Exit V) → Prop)
    (L : {α : Type} → Evaluation V F M α → Prop) : Prop where
  exits : ∀ x : Exit V, x.yields = false → ok x
  forget : ∀ {m : Evaluation V F M (Exit V)}, X m → L m
  pure : ∀ {α : Type} (x : α), L (Pure.pure x : Evaluation V F M α)
  bind : ∀ {α β : Type} {m : Evaluation V F M α} {f : α → Evaluation V F M β},
    L m → (∀ x, L (f x)) → L (m >>= f)
  exit : ∀ {x : Exit V}, ok x → X (Pure.pure x)
  bindExit : ∀ {α : Type} {m : Evaluation V F M α} {f : α → Evaluation V F M (Exit V)},
    L m → (∀ x, X (f x)) → X (m >>= f)
  exitBind : ∀ {m : Evaluation V F M (Exit V)} {f : Exit V → Evaluation V F M (Exit V)},
    X m → (∀ x, ok x → X (f x)) → X (m >>= f)
  unfinished : X (Traced.unfinished : Evaluation V F M (Exit V))
  read : ∀ {α : Type} {g : Thread V F M → α}, (∀ th hs, g (th.withHandlers hs) = g th) →
    L (Traced.read g : Evaluation V F M α)
  stderr : ∀ text, L (Traced.record (.stderr text) : Evaluation V F M PUnit)
  modify : ∀ {g : Thread V F M → Thread V F M}, (∀ th : Thread V F M, th.Beside (g th)) →
    (∀ th hs, g (th.withHandlers hs) = (g th).withHandlers hs) →
    L (Traced.modify g : Evaluation V F M PUnit)

/-- Likewise, with what a wait records and writes. -/
structure WaitRules (ok : Exit V → Prop) (X : Evaluation V F M (Exit V) → Prop)
    (L : {α : Type} → Evaluation V F M α → Prop) : Prop extends Rules ok X L where
  waits : ∀ actor, L (Traced.record (.waits actor) : Evaluation V F M PUnit)
  write : ∀ {g : Thread V F M → Thread V F M}, (∀ th : Thread V F M, th.Around (g th)) →
    (∀ th hs, g (th.withHandlers hs) = (g th).withHandlers hs) →
    L (Traced.modify g : Evaluation V F M PUnit)

namespace Rules

variable {ok : Exit V → Prop} {X : Evaluation V F M (Exit V) → Prop}
variable {L : {α : Type} → Evaluation V F M α → Prop}
variable {P : Program V F M K} {runner : Task V F K → Evaluation V F M (Exit V)}

/-! ## Blocks and signals -/

section Parts

variable (hL : Rules ok X L) (hrunner : ∀ t, X (runner t))
include hL

/-- An exit that is no `FutureYield`. -/
theorem ends {x : Exit V} (hx : x.yields = false) :
    X (Pure.pure x : Evaluation V F M (Exit V)) := hL.exit (hL.exits x hx)

include hrunner in
theorem invokeBlock (block : V) (args : List V) : X (invokeBlock P runner block args) := by
  refine hL.bindExit (hL.read fun _ _ => rfl) fun what => ?_
  cases what with
  | object value =>
    dsimp only
    split
    · exact hrunner _
    · exact hL.ends rfl
  | closure argCount body =>
    dsimp only
    split
    · exact hL.ends rfl
    · exact hrunner _

include hrunner in
theorem sentMessageText (exc : V) : L (sentMessageText P runner exc) := by
  refine hL.bind (hL.read fun _ _ => rfl) fun method => ?_
  cases method with
  | none => exact hL.pure _
  | some task =>
    refine hL.bind (hL.forget (hrunner task)) fun x => ?_
    cases x with
    | normal v => exact hL.bind (hL.read fun _ _ => rfl) fun text => hL.pure _
    | _ => exact hL.pure _

theorem foreignDefaultAction (exc : V) : X (foreignDefaultAction P exc) := by
  refine hL.bindExit (hL.read fun _ _ => rfl) fun text => ?_
  exact hL.bindExit (hL.read fun _ _ => rfl) fun trace => hL.ends rfl

include hrunner in
theorem sendToHandler (exc : V) (e : Scope (Handler V)) : X (sendToHandler P runner exc e) := by
  refine hL.bindExit (hL.read fun _ _ => rfl) fun what => ?_
  split
  · exact hL.invokeBlock hrunner _ _
  · exact hL.invokeBlock hrunner _ _

theorem newNestingLimitError (P : Program V F M K) : L (Traced.modify fun th =>
    { th with shared := (P.newNestingLimitError th.shared).2 } : Evaluation V F M PUnit) :=
  hL.modify (fun _ => rfl) fun _ _ => rfl

variable [DecidableEq V]

include hrunner in
theorem defaultAction (exc : V) : X (defaultAction P runner exc) := by
  refine hL.bindExit (hL.read fun _ _ => rfl) fun aborts => ?_
  split
  · refine hL.bindExit ?_ fun message => ?_
    · refine hL.bind (hL.read fun _ _ => rfl) fun className => ?_
      refine hL.bind (hL.sentMessageText hrunner exc) fun sent => ?_
      exact hL.bind (hL.read fun _ _ => rfl) fun stored => hL.pure _
    · exact hL.bindExit (hL.read fun _ _ => rfl) fun trace => hL.ends rfl
  · refine hL.bindExit (hL.read fun _ _ => rfl) fun text => ?_
    refine hL.bindExit (hL.read fun _ _ => rfl) fun className => ?_
    split
    · exact hL.bindExit (hL.stderr _) fun _ => hL.ends rfl
    · exact hL.ends rfl

include hrunner in
/-- What exceeds the nesting limit, with a search that has the property. -/
theorem raiseNestingLimitError {below : Option Nat}
    (hfind : ∀ exc, L (handlerStackFindMatch P exc below false)) :
    X (raiseNestingLimitError P runner below) := by
  refine hL.bindExit (hL.read fun _ _ => rfl) fun limitError => ?_
  refine hL.bindExit (hL.newNestingLimitError P) fun _ => ?_
  refine hL.bindExit (hfind _) fun entry => ?_
  cases entry with
  | some e => exact hL.ends rfl
  | none =>
    refine hL.exitBind (hL.defaultAction hrunner _) fun x hx => ?_
    cases x with
    | normal v => exact hL.ends rfl
    | _ => exact hL.exit hx

include hrunner in
/-- The loop of `signalInstance`, with the searches and the evaluation of a handler. -/
theorem signalLoop (exc : V) (foreign : Bool)
    (hnext : ∀ exc foreign first below, L (nextHandler P exc foreign first below))
    (hhandle : ∀ e, X (disabledFrom e.id (invokeHandler P runner exc foreign e))) :
    ∀ (turns : Nat) (first below : Option Nat),
      X (signalLoop P runner exc foreign turns first below) := by
  intro turns
  induction turns with
  | zero => exact fun first below => hL.unfinished
  | succ turns ih =>
    intro first below
    refine hL.bindExit (hnext exc foreign first below) fun entry => ?_
    cases entry with
    | none =>
      dsimp only
      split
      · exact hL.foreignDefaultAction exc
      · exact hL.defaultAction hrunner exc
    | some e =>
      refine hL.bindExit (hL.read fun _ _ => rfl) fun engines => ?_
      split
      · exact hL.raiseNestingLimitError hrunner fun exc => hnext exc false none below
      · refine hL.exitBind (hhandle e) fun x hx => ?_
        cases x with
        | normal v => exact hL.ends rfl
        | resumeSignal id v =>
          dsimp only
          split <;> exact hL.ends rfl
        | passSignal id =>
          dsimp only
          split
          · exact ih none (some e.id)
          · exact hL.ends rfl
        | _ => exact hL.exit hx

theorem handlerAction (exc : V) (inactive : String) {exit : Nat → Exit V}
    (hexit : ∀ id, (exit id).yields = false) :
    X (handlerAction exc inactive exit : Evaluation V F M (Exit V)) := by
  refine hL.bindExit (hL.read fun _ _ => rfl) fun id => ?_
  cases id with
  | none => exact hL.ends rfl
  | some id => exact hL.ends (hexit id)

theorem prim_Exception_resume (exc v : V) : X (prim_Exception_resume P exc v) := by
  refine hL.bindExit (hL.read fun _ _ => rfl) fun resumable => ?_
  split
  · exact hL.handlerAction _ _ fun _ => rfl
  · exact hL.ends rfl

end Parts

/-! ## Protected blocks -/

section Blocks

variable (hL : Rules ok X L) (hrunner : ∀ t, X (runner t))
include hL hrunner

theorem cleanedUp (cleanupBlock : V) {exit : Exit V} (hexit : ok exit) :
    X (cleanedUp P runner cleanupBlock exit) := by
  refine hL.exitBind (hL.invokeBlock hrunner _ _) fun x hx => ?_
  cases x with
  | normal v => exact hL.exit hexit
  | _ => exact hL.exit hx

theorem afterCatch (cleanupBlock : V) {exit : Exit V} (hexit : ok exit) :
    X (afterCatch P runner cleanupBlock exit) := by
  cases exit with
  | normal v => exact hL.ends rfl
  | futureYield f => exact hL.exit hexit
  | _ => exact hL.cleanedUp hrunner cleanupBlock hexit

theorem prim_Block_ensure (protectedBlock cleanupBlock : V) :
    X (prim_Block_ensure P runner protectedBlock cleanupBlock) := by
  refine hL.exitBind (hL.invokeBlock hrunner _ _) fun x hx => ?_
  cases x with
  | normal v =>
    refine hL.exitBind (hL.invokeBlock hrunner _ _) fun y hy => ?_
    cases y with
    | normal w => exact hL.ends rfl
    | _ => exact hL.afterCatch hrunner _ hy
  | _ => exact hL.afterCatch hrunner _ hx

theorem prim_Block_ifCurtailed (protectedBlock cleanupBlock : V) :
    X (prim_Block_ifCurtailed P runner protectedBlock cleanupBlock) :=
  hL.exitBind (hL.invokeBlock hrunner _ _) fun _ hx => hL.afterCatch hrunner _ hx

/-! ## Callbacks -/

theorem invokeCallback (block : V) (args : List V) : L (invokeCallback P runner block args) := by
  refine hL.bind (hL.forget (hL.invokeBlock hrunner _ _)) fun x => ?_
  refine hL.bind (hL.read fun _ _ => rfl) fun report => ?_
  cases report with
  | none => exact hL.pure _
  | some text => exact hL.stderr _

theorem fireCallbackList (arg : V) (callbacks : List V) :
    L (fireCallbackList P runner arg callbacks) := by
  induction callbacks with
  | nil => exact hL.pure _
  | cons callback callbacks ih =>
    exact hL.bind (hL.invokeCallback hrunner callback [arg]) fun _ => ih

/-- A callback, and what the registration answers. -/
theorem registered (block : V) {g : Thread V F M → V}
    (hg : ∀ th hs, g (th.withHandlers hs) = g th) (future : V) : X (do
      let v ← Traced.read g
      Callbacks.invokeCallback P runner block [v]
      Pure.pure (.normal future) : Evaluation V F M (Exit V)) := by
  refine hL.bindExit (hL.read hg) fun v => ?_
  exact hL.bindExit (hL.invokeCallback hrunner block [v]) fun _ => hL.ends rfl

variable [DecidableEq V]

omit hrunner in
theorem setFuture (future : V) (g : Future V → Future V) :
    L (Traced.modify fun th => th.setFuture future g : Evaluation V F M PUnit) :=
  hL.modify (fun _ => rfl) fun _ _ => rfl

omit hrunner in
theorem drainList (future : V) (key : ListKey) :
    L (drainList future key : Evaluation V F M (List V)) := by
  refine hL.bind (hL.read fun _ _ => rfl) fun list => ?_
  exact hL.bind (hL.setFuture _ _) fun _ => hL.pure _

omit hrunner in
theorem appendOrDrained (future : V) (key : ListKey) (item : V) :
    L (appendOrDrained future key item : Evaluation V F M Bool) := by
  refine hL.bind (hL.read fun _ _ => rfl) fun list => ?_
  cases list with
  | none => exact hL.pure _
  | some list => exact hL.bind (hL.setFuture _ _) fun _ => hL.pure _

theorem settleFuture (future : V) (reject : Bool) (payload : V) :
    L (settleFuture P runner future reject payload) := by
  refine hL.bind (hL.read fun _ _ => rfl) fun settling => ?_
  split
  · exact hL.pure _
  · refine hL.bind (hL.setFuture _ _) fun _ => ?_
    refine hL.bind (hL.drainList _ _) fun callbacks => ?_
    refine hL.bind (hL.fireCallbackList hrunner payload callbacks) fun _ => ?_
    refine hL.bind (hL.setFuture _ _) fun _ => ?_
    refine hL.bind (hL.drainList _ _) fun waiters => ?_
    exact hL.modify (fun _ => rfl) fun _ _ => rfl

theorem prim_Future_thenDo (future block : V) :
    X (prim_Future_thenDo P runner future block) := by
  refine hL.bindExit (hL.read fun _ _ => rfl) fun state => ?_
  cases state with
  | rejected => exact hL.ends rfl
  | resolved => exact hL.registered hrunner block (fun _ _ => rfl) future
  | pending =>
    refine hL.bindExit (hL.appendOrDrained _ _ _) fun appended => ?_
    split
    · exact hL.ends rfl
    · exact hL.registered hrunner block (fun _ _ => rfl) future

theorem prim_Future_catch (future block : V) : X (prim_Future_catch P runner future block) := by
  refine hL.bindExit (hL.read fun _ _ => rfl) fun state => ?_
  cases state with
  | resolved => exact hL.ends rfl
  | rejected => exact hL.registered hrunner block (fun _ _ => rfl) future
  | pending =>
    refine hL.bindExit (hL.appendOrDrained _ _ _) fun appended => ?_
    split
    · exact hL.ends rfl
    · exact hL.registered hrunner block (fun _ _ => rfl) future

/-- **A primitive**, with the two that use the handler stack. -/
theorem perform (turns : Nat)
    (hsignal : ∀ exc, X (Callbacks.signalInstance P runner turns exc none))
    (hprotected : ∀ protectedBlock guards,
      X (Callbacks.runProtected P runner turns protectedBlock guards))
    (p : Primitive V F K) : X (perform P runner turns p) := by
  cases p with
  | value block args => exact hL.invokeBlock hrunner block args
  | onDo protectedBlock guards => exact hprotected protectedBlock guards
  | ensure protectedBlock cleanupBlock => exact hL.prim_Block_ensure hrunner _ _
  | ifCurtailed protectedBlock cleanupBlock => exact hL.prim_Block_ifCurtailed hrunner _ _
  | signal exc => exact hsignal exc
  | exceptionReturn exc v => exact hL.handlerAction _ _ fun _ => rfl
  | exceptionResume exc v => exact hL.prim_Exception_resume exc v
  | exceptionRetry exc => exact hL.handlerAction _ _ fun _ => rfl
  | exceptionPass exc => exact hL.handlerAction _ _ fun _ => rfl
  | thenDo future block => exact hL.prim_Future_thenDo hrunner future block
  | catchDo future block => exact hL.prim_Future_catch hrunner future block
  | resolve future v =>
    exact hL.bindExit (hL.settleFuture hrunner future false v) fun _ => hL.ends rfl
  | rejectWith future error =>
    exact hL.bindExit (hL.settleFuture hrunner future true error) fun _ => hL.ends rfl

/-! ## Waiting -/

theorem raiseRejection (turns : Nat)
    (hsignal : ∀ exc, X (Callbacks.signalInstance P runner turns exc none)) (error : V) :
    X (raiseRejection P runner turns error) := by
  refine hL.bindExit (hL.read fun _ _ => rfl) fun isException => ?_
  split
  · refine hL.bindExit (hL.read fun _ _ => rfl) fun copying => ?_
    cases copying with
    | none => exact hsignal error
    | some task =>
      refine hL.exitBind (hrunner task) fun x hx => ?_
      cases x with
      | normal copy => exact hsignal copy
      | _ => exact hL.exit hx
  · refine hL.bindExit (hL.read fun _ _ => rfl) fun isForeign => ?_
    split
    · exact hsignal error
    · exact hL.bindExit (hL.read fun _ _ => rfl) fun text => hL.ends rfl

theorem waitedValue (turns : Nat)
    (hsignal : ∀ exc, X (Callbacks.signalInstance P runner turns exc none)) (future : V) :
    X (waitedValue P runner turns future) := by
  refine hL.bindExit (hL.read fun _ _ => rfl) fun state => ?_
  cases state with
  | pending => exact hL.unfinished
  | resolved => exact hL.bindExit (hL.read fun _ _ => rfl) fun v => hL.ends rfl
  | rejected =>
    exact hL.bindExit (hL.read fun _ _ => rfl) fun error =>
      hL.raiseRejection hrunner turns hsignal error

omit hrunner in
theorem settledOutside (future : V) (outside : Option (Bool × V)) :
    L (Traced.modify (settledOutside future outside) : Evaluation V F M PUnit) := by
  have hstate : ∀ (th : Thread V F M) hs, (th.withHandlers hs).readState future =
      th.readState future := fun _ _ => rfl
  refine hL.modify (fun th => ?_) fun th hs => ?_
  · unfold Callbacks.settledOutside
    split <;> rfl
  · unfold Callbacks.settledOutside
    rw [hstate]
    split <;> rfl

end Blocks

end Rules

/-! ## Handlers -/

/-- Likewise, for a property that the handler stack has nothing to do with. -/
structure HandlerRules (ok : Exit V → Prop) (X : Evaluation V F M (Exit V) → Prop)
    (L : {α : Type} → Evaluation V F M α → Prop) : Prop extends Rules ok X L where
  look : ∀ {α : Type} (g : Thread V F M → α), L (Traced.read g : Evaluation V F M α)
  record : ∀ {e : Event V M}, (∀ a, e ≠ .waits a) → (∀ a, e ≠ .suspends a) →
    L (Traced.record e : Evaluation V F M PUnit)
  handlers : ∀ {g : Thread V F M → Thread V F M}, (∀ th : Thread V F M, g th =
      { th with handlers := (g th).handlers, activeSignals := (g th).activeSignals }) →
    L (Traced.modify g : Evaluation V F M PUnit)

namespace HandlerRules

variable {ok : Exit V → Prop} {X : Evaluation V F M (Exit V) → Prop}
variable {L : {α : Type} → Evaluation V F M α → Prop}
variable {P : Program V F M K} {runner : Task V F K → Evaluation V F M (Exit V)}
variable (hL : HandlerRules ok X L) (hrunner : ∀ t, X (runner t))
include hL

theorem disabledFrom {m : Evaluation V F M (Exit V)} (hm : X m) (id : Nat) :
    X (disabledFrom id m) := by
  refine hL.bindExit (hL.look _) fun disabled => ?_
  refine hL.bindExit (hL.handlers fun _ => rfl) fun _ => ?_
  refine hL.exitBind hm fun x hx => ?_
  exact hL.bindExit (hL.handlers fun _ => rfl) fun _ => hL.exit hx

theorem nextHandler [DecidableEq V] (exc : V) (foreign : Bool) (first below : Option Nat) :
    L (nextHandler P exc foreign first below) := by
  cases first with
  | none =>
    refine hL.bind (hL.look _) fun shared => ?_
    refine hL.bind (hL.look _) fun entry => ?_
    cases entry <;>
      exact hL.bind (hL.record (fun _ h => by cases h) fun _ h => by cases h) fun _ => hL.pure _
  | some id =>
    refine hL.bind (hL.look _) fun entry => ?_
    cases entry with
    | none => exact hL.pure _
    | some e =>
      exact hL.bind (hL.record (fun _ h => by cases h) fun _ h => by cases h) fun _ => hL.pure _

include hrunner in
theorem invokeHandler (exc : V) (foreign : Bool) (e : Scope (Handler V)) :
    X (invokeHandler P runner exc foreign e) := by
  refine hL.bindExit (hL.record (fun _ h => by cases h) fun _ h => by cases h) fun _ => ?_
  refine hL.bindExit (hL.handlers fun _ => rfl) fun _ => ?_
  refine hL.exitBind (hL.sendToHandler hrunner exc e) fun x hx => ?_
  exact hL.bindExit (hL.handlers fun _ => rfl) fun _ => hL.exit hx

include hrunner in
theorem signalInstance [DecidableEq V] (turns : Nat) (exc : V) (first : Option Nat) :
    X (signalInstance P runner turns exc first) := by
  refine hL.bindExit (hL.look _) fun foreign => ?_
  exact hL.signalLoop hrunner exc foreign hL.nextHandler
    (fun e => hL.disabledFrom (hL.invokeHandler hrunner exc foreign e) e.id) turns first none

/-! ## Protected blocks -/

theorem pushAll (guards : List (Handler V)) :
    L (pushAll guards : Evaluation V F M (List Nat)) := by
  induction guards with
  | nil => exact hL.pure _
  | cons g guards ih =>
    refine hL.bind (hL.look _) fun id => ?_
    refine hL.bind (hL.handlers fun _ => rfl) fun _ => ?_
    exact hL.bind ih fun ids => hL.pure _

theorem popAll (ids : List Nat) : L (popAll ids : Evaluation V F M PUnit) := by
  induction ids with
  | nil => exact hL.pure _
  | cons id ids ih => exact hL.bind ih fun _ => hL.handlers fun _ => rfl

include hrunner in
theorem attempt [DecidableEq V] (turns : Nat) (protectedBlock : V)
    (pending : Option (List Nat × Nat)) : X (attempt P runner turns protectedBlock pending) := by
  cases pending with
  | none => exact hL.invokeBlock hrunner _ _
  | some p =>
    refine hL.bindExit (hL.look _) fun limitError => ?_
    refine hL.bindExit (hL.newNestingLimitError P) fun _ => ?_
    exact hL.signalInstance hrunner turns limitError (some p.2)

theorem afterAttempt {again : Option (List Nat × Nat) → Evaluation V F M (Exit V)}
    (hagain : ∀ pending, X (again pending)) (first : Bool) (ids : List Nat) {x : Exit V}
    (hx : ok x) : X (afterAttempt again first ids x) := by
  have hpop : X (do
      Callbacks.popAll ids
      pure x : Evaluation V F M (Exit V)) := hL.bindExit (hL.popAll ids) fun _ => hL.exit hx
  cases x with
  | unwindToHandler id v =>
    refine hL.bindExit (hL.popAll ids) fun _ => ?_
    split <;> exact hL.ends rfl
  | retrySignal id =>
    refine hL.bindExit (hL.popAll ids) fun _ => ?_
    split
    · exact hagain none
    · exact hL.ends rfl
  | nestingLimitUnwind id =>
    rw [Callbacks.afterAttempt]
    split
    · exact hagain (some (ids, id))
    · exact hpop
  | _ => exact hpop

include hrunner in
theorem attempts [DecidableEq V] (protectedBlock : V) (guards : List (Handler V)) :
    ∀ (turns : Nat) (pending : Option (List Nat × Nat)),
      X (attempts P runner protectedBlock guards turns pending) := by
  intro turns
  induction turns with
  | zero => exact fun pending => hL.unfinished
  | succ turns ih =>
    intro pending
    refine hL.bindExit ?_ fun ids => ?_
    · cases pending with
      | none => exact hL.pushAll guards
      | some p => exact hL.pure p.1
    · exact hL.exitBind (hL.attempt hrunner turns protectedBlock pending) fun x hx =>
        hL.afterAttempt ih pending.isNone ids hx

include hrunner in
theorem perform [DecidableEq V] (turns : Nat) (p : Primitive V F K) :
    X (perform P runner turns p) :=
  hL.toRules.perform hrunner turns (fun exc => hL.signalInstance hrunner turns exc none)
    (fun protectedBlock guards => hL.attempts hrunner protectedBlock guards turns none) p

end HandlerRules

namespace WaitRules

variable {ok : Exit V → Prop} {X : Evaluation V F M (Exit V) → Prop}
variable {L : {α : Type} → Evaluation V F M α → Prop} [DecidableEq V]
variable {P : Program V F M K} {runner : Task V F K → Evaluation V F M (Exit V)}
variable (hL : WaitRules ok X L) (hrunner : ∀ t, X (runner t))
include hL

theorem setSuspension (actor : V) {g : Thread V F M → Suspension V F → Suspension V F}
    (hg : ∀ th hs, g (th.withHandlers hs) = g th) :
    L (Traced.modify fun th => th.setSuspension actor (g th) : Evaluation V F M PUnit) := by
  refine hL.write (fun _ => rfl) fun th hs => ?_
  rw [hg]
  rfl

omit hL in
theorem waitsInCycle_withHandlers (th : Thread V F M) (hs : Scopes (Handler V)) (self : V) :
    ∀ (steps : Nat) (future : Option V),
      waitsInCycle (th.withHandlers hs) self steps future = waitsInCycle th self steps future := by
  intro steps
  induction steps with
  | zero => exact fun future => rfl
  | succ steps ih =>
    intro future
    cases future with
    | none => rfl
    | some future =>
      have hstate : (th.withHandlers hs).readState future = th.readState future := rfl
      have hfutures : (th.withHandlers hs).futures = th.futures := rfl
      have hburied : (th.withHandlers hs).buriedActors = th.buriedActors := rfl
      have hrest : ∀ target, waitsInCycle (th.withHandlers hs) self steps
          ((th.withHandlers hs).suspensions target).waitingOn =
            waitsInCycle th self steps (th.suspensions target).waitingOn := fun target => ih _
      simp only [waitsInCycle, hstate, hfutures, hburied, hrest]

theorem detectWaitCycle (self future : V) :
    L (detectWaitCycle self future : Evaluation V F M Bool) := by
  refine hL.bind (hL.setSuspension self fun _ _ => rfl) fun _ => ?_
  refine hL.bind (hL.read fun th hs => waitsInCycle_withHandlers th hs self _ _) fun cycle => ?_
  split
  · exact hL.bind (hL.setSuspension self fun _ _ => rfl) fun _ => hL.pure _
  · exact hL.pure _

include hrunner in
theorem waitHelping (turns : Nat)
    (hsignal : ∀ exc, X (Callbacks.signalInstance P runner turns exc none)) (self future : V)
    {helps : List (Message V F K)} (hhelp : L (helpOthers P runner self helps))
    (outside : Option (Bool × V)) : X (waitHelping P runner turns self future helps outside) := by
  refine hL.bindExit (hL.write (fun _ => rfl) fun _ _ => rfl) fun _ => ?_
  refine hL.exitBind ?_ fun x hx => ?_
  · refine hL.bindExit hhelp fun _ => ?_
    refine hL.bindExit (hL.settledOutside future outside) fun _ => ?_
    refine hL.exitBind (hL.waitedValue hrunner turns hsignal future) fun x hx => ?_
    exact hL.bindExit (hL.setSuspension self fun _ _ => rfl) fun _ => hL.exit hx
  · exact hL.bindExit (hL.write (fun _ => rfl) fun _ _ => rfl) fun _ => hL.exit hx

include hrunner in
/-- A wait, from what comes of one that no cycle forbids. -/
theorem prim_Future_wait (turns : Nat)
    (hsignal : ∀ exc, X (Callbacks.signalInstance P runner turns exc none)) (future : V)
    (helps : List (Message V F K)) (outside : Option (Bool × V))
    (hpending : ∀ self, X (do
      let engines ← Traced.read fun th => th.engines.length
      if 1 < engines then Callbacks.waitHelping P runner turns self future helps outside
      else pure (.futureYield future))) :
    X (prim_Future_wait P runner turns future helps outside) := by
  have hwaited := hL.waitedValue hrunner turns hsignal future
  refine hL.bindExit (hL.read fun _ _ => rfl) fun actor => ?_
  cases actor with
  | none => exact hL.bindExit (hL.settledOutside future outside) fun _ => hwaited
  | some self =>
    refine hL.bindExit (hL.read fun _ _ => rfl) fun state => ?_
    cases state with
    | pending =>
      refine hL.bindExit (hL.waits self) fun _ => ?_
      refine hL.bindExit (hL.detectWaitCycle self future) fun cycle => ?_
      split
      · exact hL.ends rfl
      · exact hpending self
    | _ => exact hwaited

section Suspending

variable (hyields : ∀ future, ok (.futureYield future))
include hyields

include hrunner in
/-- A wait that may suspend. -/
theorem waits_or_yields (turns : Nat)
    (hsignal : ∀ exc, X (Callbacks.signalInstance P runner turns exc none))
    (hhelp : ∀ self helps, L (helpOthers P runner self helps)) (future : V)
    (helps : List (Message V F K)) (outside : Option (Bool × V)) :
    X (Callbacks.prim_Future_wait P runner turns future helps outside) := by
  refine hL.prim_Future_wait hrunner turns hsignal future helps outside fun self => ?_
  refine hL.bindExit (hL.read fun _ _ => rfl) fun engines => ?_
  split
  · exact hL.waitHelping hrunner turns hsignal self future (hhelp self helps) outside
  · exact hL.exit (hyields future)

/-! ## The loop of an engine -/

theorem suspend (hsuspends : ∀ actor, L (Traced.record (.suspends actor) : Evaluation V F M PUnit))
    (future : V) : X (suspend future : Evaluation V F M (Exit V)) := by
  refine hL.bindExit (hL.read fun _ _ => rfl) fun actor => ?_
  cases actor with
  | none => exact hL.ends rfl
  | some actor =>
    refine hL.bindExit (hsuspends actor) fun _ => ?_
    refine hL.bindExit (hL.read fun _ _ => rfl) fun firstCatch => ?_
    refine hL.bindExit (hL.setSuspension actor fun _ _ => rfl) fun _ => ?_
    split
    · refine hL.bindExit (hL.setSuspension actor fun _ _ => rfl) fun _ => ?_
      refine hL.bindExit (hL.appendOrDrained future .waiters actor) fun appended => ?_
      split
      · exact hL.exit (hyields future)
      · refine hL.bindExit (hL.modify (fun _ => rfl) fun _ _ => rfl) fun _ => ?_
        exact hL.exit (hyields future)
    · exact hL.exit (hyields future)

end Suspending

end WaitRules

end ProtoST.Primitives.Callbacks

import ProtoST.Lib.Course
import ProtoST.Lib.Scopes
import ProtoST.Primitives.Cleanup

/-!
# Callbacks of futures

`thenDo:` and `catch:` callbacks (`future_prims.cpp`) run inside whatever settles the future or
registers them: in the same thread, above its engines and its handler stack.  Between two calls
of the primitives that are modelled here code is a `Program`, which may do anything with the
objects, the futures and the frames of its own engine.

The events of a thread say what its searches for handlers answered, and what it wrote to stderr.

## Main definitions

* `Exit` — how an evaluation ends.
* `signalInstance`, `runProtected`, `prim_Block_ensure` — signals and what they cross.
* `invokeCallback`, `fireCallbackList`, `settleFuture` — the callbacks.
* `run` — the evaluation of code.
-/

namespace ProtoST.Primitives.Callbacks

open ProtoST.Lib
open ProtoST.Primitives.Cleanup (kMaxNestedEngines kFrameRegionLimit kNestingLimitMessage)

/-! ## The thread -/

/-- How an evaluation ends: with a value, or by a C++ exception. -/
inductive Exit (V : Type) where
  | normal (v : V)
  | unwindToHandler (handlerId : Nat) (v : V)
  | retrySignal (handlerId : Nat)
  | resumeSignal (handlerId : Nat) (v : V)
  | passSignal (handlerId : Nat)
  | nestingLimitUnwind (handlerId : Nat)
  | nonLocalReturn (home : Nat) (v : V)
  | futureYield (future : V)
  /-- `UnhandledSTException`, with the `ProtoException` it arrived in or without. -/
  | unhandled (exc : V) (message trace : String) (original : Bool)
  /-- Another `proto::ProtoException`. -/
  | protoException (value : V)
  | stdException (what : String)
  deriving DecidableEq, Repr

/-- The control transfers that `drainOne` names, apart from `FutureYield`. -/
def Exit.isCarrier {V : Type} : Exit V → Bool
  | .unwindToHandler .. | .retrySignal _ | .resumeSignal .. | .passSignal _
  | .nestingLimitUnwind _ | .nonLocalReturn .. => true
  | .normal _ | .futureYield _ | .unhandled .. | .protoException _ | .stdException _ => false

/-- An entry of the handler stack, apart from its id and whether it is enabled. -/
structure Handler (V : Type) where
  guardClass : V
  handlerBlock : V
  deriving DecidableEq, Repr

/-- An entry of `g_activeSignals`. -/
structure ActiveSignal (V : Type) where
  exception : V
  handlerId : Nat
  foreign : Bool
  deriving DecidableEq, Repr

structure Engine (F : Type) where
  frame : F
  /-- The outer frames, innermost first. -/
  callers : List F
  slotBase : Nat
  deriving DecidableEq, Repr

inductive FutureState where
  | pending | resolved | rejected
  deriving DecidableEq, Repr

/-- The attributes of a future; a list is `none` once it is drained. -/
structure Future (V : Type) where
  settling : Bool
  state : FutureState
  value : V
  error : V
  thenCbs : Option (List V)
  catchCbs : Option (List V)
  waiters : Option (List V)
  /-- The actor that is to settle it. -/
  targetActor : Option V
  deriving DecidableEq, Repr

/-- What an actor that is suspended records. -/
structure Suspension (V F : Type) where
  /-- `__suspended_frame__`, outermost first. -/
  suspendedFrame : Option (List F)
  waitingOn : Option V
  suspendedFuture : Option V
  deriving DecidableEq, Repr

structure Thread (V F M : Type) where
  /-- The objects. -/
  shared : M
  futures : V → Future V
  /-- The actors given to `schedule`. -/
  scheduled : List V
  handlers : Scopes (Handler V)
  /-- `g_activeSignals`, innermost first. -/
  activeSignals : List (ActiveSignal V)
  /-- `g_liveEngines`, innermost first. -/
  engines : List (Engine F)
  /-- `g_slotCursor`. -/
  slotCursor : Nat
  suspensions : V → Suspension V F
  currentActor : Option V
  /-- `t_buriedActors`, innermost first. -/
  buriedActors : List V

/-- What happens in a thread. -/
inductive Event (V M : Type) where
  /-- A search for a handler answers the entry with an id. -/
  | answered (handlerId : Nat)
  /-- The block of an entry is evaluated. -/
  | handling (handlerId : Nat)
  /-- A search for a handler of `exc` answers none; `catchAll` is set for a foreign exception. -/
  | unhandled (exc : V) (catchAll : Bool) (shared : M)
  | stderr (text : String)
  /-- An actor begins to wait on a pending future. -/
  | waits (actor : V)
  /-- An engine suspends an actor. -/
  | suspends (actor : V)
  /-- What happened in a message of another actor, run by `waitHelping`. -/
  | helped (events : List (Event V M))

abbrev Evaluation (V F M α : Type) : Type := Traced (Event V M) (Thread V F M) α

/-! ## Programs -/

/-- Compiled code, with the first frame of the engine that runs it. -/
structure Code (F K : Type) where
  regionSize : Nat
  frame : F
  entry : K

/-- A message of an actor that a waiting thread runs. -/
structure Message (V F K : Type) where
  actor : V
  future : V
  /-- Set for a method that was suspended. -/
  resumes : Bool
  code : Code F K

/-- A primitive of this file, with its receiver and arguments. -/
inductive Primitive (V F K : Type) where
  | value (block : V) (args : List V)
  /-- `on:do:` or `on:do:on:do:`. -/
  | onDo (protectedBlock : V) (guards : List (Handler V))
  | ensure (protectedBlock cleanupBlock : V)
  | ifCurtailed (protectedBlock cleanupBlock : V)
  | signal (exc : V)
  | exceptionReturn (exc v : V)
  | exceptionResume (exc v : V)
  | exceptionRetry (exc : V)
  | exceptionPass (exc : V)
  | thenDo (future block : V)
  | catchDo (future block : V)
  | resolve (future v : V)
  | rejectWith (future error : V)

inductive Task (V F K : Type) where
  | code (c : Code F K)
  | primitive (p : Primitive V F K)

/-- What a value is for `invokeBlock`. -/
inductive Evaluable (V F K : Type) where
  | closure (argCount : Nat) (body : List V → Code F K)
  /-- Not a block: what a send of `value`, `value:` or `value:value:` runs, if it is
  understood. -/
  | object (value : List V → Option (Task V F K))

/-- A guard: a class, or an `ExceptionSet` with its members. -/
inductive Guard (V : Type) where
  | one (object : V)
  | set (object : V) (members : List (Guard V))

/-- What code reads and writes. -/
structure View (V F M : Type) where
  shared : M
  futures : V → Future V
  frame : F
  callers : List F
  slotCursor : Nat

/-- What code does next: it ends, or it calls a primitive or `Future >> wait` and goes on with its
exit. -/
inductive Move (V F K : Type) where
  | finish (x : Exit V)
  | call (p : Primitive V F K) (resume : Exit V → K)
  /-- With the messages that the thread runs while it waits, and what another thread settles the
  future to. -/
  | wait (future : V) (helps : List (Message V F K)) (outside : Option (Bool × V))
      (resume : Exit V → K)

structure Program (V F M K : Type) where
  /-- `PROTO_NONE`. -/
  nil : V
  exceptionProto : V
  evaluable : M → V → Evaluable V F K
  /-- Code sees the engines around its own one. -/
  next : K → List (Engine F) → View V F M → Move V F K × View V F M
  guard : M → V → Guard V
  hasParent : M → V → V → Bool
  isExceptionInstance : M → V → Bool
  /-- `__resumable__`. -/
  resumableMarker : M → V → Option Bool
  /-- `__unhandled_is_error__`. -/
  unhandledIsError : M → V → Bool
  className : M → V → String
  /-- `messageTextOf`. -/
  messageTextOf : M → V → String
  /-- What a send of `messageText` runs. -/
  messageText : M → V → Option (Task V F K)
  /-- The text of a value that is a String. -/
  asString : M → V → Option String
  describeForeignValue : M → V → String
  /-- `describeProtoException`, of a value that is no `UnhandledSTException`. -/
  describeProtoException : M → V → String
  describeActiveStack : M → List (Engine F) → String
  newNestingLimitError : M → V × M
  /-- The value that `drainOne` rejects a future with. -/
  rejectionFor : M → Exit V → V
  /-- What a send of `shallowCopy` runs. -/
  shallowCopy : M → V → Option (Task V F K)
  /-- A value of another language that `raiseRejection` signals as it is. -/
  isForeignError : M → V → Bool
  describeRejection : M → V → String

variable {V F M K : Type} [DecidableEq V]

/-! ## Engines -/

namespace Thread

def view (th : Thread V F M) (e : Engine F) : View V F M where
  shared := th.shared
  futures := th.futures
  frame := e.frame
  callers := e.callers
  slotCursor := th.slotCursor

def withView (th : Thread V F M) (e : Engine F) (outer : List (Engine F)) (v : View V F M) :
    Thread V F M :=
  { th with
    shared := v.shared
    futures := v.futures
    slotCursor := v.slotCursor
    engines := ⟨v.frame, v.callers, e.slotBase⟩ :: outer }

/-- The constructor of an engine, and the push of its first frame. -/
def enter (c : Code F K) (th : Thread V F M) : Thread V F M :=
  { th with
    engines := ⟨c.frame, [], th.slotCursor⟩ :: th.engines
    slotCursor := th.slotCursor + c.regionSize }

/-- The innermost engine is left: `SlotCursorGuard`, and its destructor. -/
def leave (th : Thread V F M) : Thread V F M :=
  match th.engines with
  | [] => th
  | e :: outer => { th with engines := outer, slotCursor := e.slotBase }

def readState (th : Thread V F M) (future : V) : FutureState := (th.futures future).state

/-- Writes attributes of an actor. -/
def setSuspension (th : Thread V F M) (actor : V) (g : Suspension V F → Suspension V F) :
    Thread V F M :=
  { th with
    suspensions := fun a => if a = actor then g (th.suspensions a) else th.suspensions a }

/-- Writes attributes of a future. -/
def setFuture (th : Thread V F M) (future : V) (g : Future V → Future V) : Thread V F M :=
  { th with futures := fun f => if f = future then g (th.futures f) else th.futures f }

end Thread

section Evaluate

variable (P : Program V F M K) (runner : Task V F K → Evaluation V F M (Exit V))

/-- `ExecutionEngine::runWithArgs`, with the loop that runs the code. -/
def runWithArgs (runLoop : K → Evaluation V F M (Exit V)) (c : Code F K) :
    Evaluation V F M (Exit V) := do
  let engines ← Traced.read fun th => th.engines.length
  let slotCursor ← Traced.read fun th => th.slotCursor
  if kMaxNestedEngines < engines + 1 then pure (.stdException kNestingLimitMessage)
  else if kFrameRegionLimit < slotCursor + c.regionSize then
    pure (.stdException "engine slot region exhausted")
  else do
    Traced.modify (Thread.enter c)
    let x ← runLoop c.entry
    Traced.modify Thread.leave
    pure x

/-- One move of the code of the innermost engine. -/
def move (k : K) : Evaluation V F M (Move V F K) := fun th =>
  match th.engines with
  | [] => ⟨[], none⟩
  | e :: outer =>
      let moved := P.next k outer (th.view e)
      ⟨[], some (moved.1, th.withView e outer moved.2)⟩

/-- `invokeBlock`. -/
def invokeBlock (block : V) (args : List V) : Evaluation V F M (Exit V) := do
  match ← Traced.read fun th => P.evaluable th.shared block with
  | .object value =>
      match (if args.length ≤ 2 then value args else none) with
      | some task => runner task
      | none =>
          pure (.stdException "a block was expected here, but the argument is not a block")
  | .closure argCount body =>
      if argCount ≠ args.length then
        pure (.stdException
          s!"block arg count mismatch (expected {argCount}, got {args.length})")
      else runner (.code (body args))

/-! ## Searching for a handler -/

mutual

/-- `matchesGuard`. -/
def matchesGuard (shared : M) (exc : V) (catchAll : Bool) : Guard V → Bool
  | .one object =>
      exc == object || (catchAll && object == P.exceptionProto) || P.hasParent shared exc object
  | .set object members =>
      exc == object || (catchAll && object == P.exceptionProto) ||
        matchesMember shared exc catchAll members

def matchesMember (shared : M) (exc : V) (catchAll : Bool) : List (Guard V) → Bool
  | [] => false
  | member :: members =>
      matchesGuard shared exc catchAll member || matchesMember shared exc catchAll members

end

/-- Would the entry handle the exception? -/
def takes (shared : M) (exc : V) (catchAll : Bool) (e : Scope (Handler V)) : Bool :=
  e.enabled && matchesGuard P shared exc catchAll (P.guard shared e.value.guardClass)

/-- The entries strictly outer to the one with an id; all of them, when there is none. -/
def searchBelow (below : Option Nat) (entries : List (Scope (Handler V))) :
    List (Scope (Handler V)) :=
  match below with
  | none => entries
  | some id =>
      if id ∈ entries.map Scope.id then (entries.dropWhile fun e => e.id ≠ id).tail else entries

/-- `handlerStackFindMatch`. -/
def handlerStackFindMatch (exc : V) (below : Option Nat) (catchAll : Bool) :
    Evaluation V F M (Option (Scope (Handler V))) := do
  let shared ← Traced.read fun th => th.shared
  match ← Traced.read fun th =>
      (searchBelow below th.handlers.entries).find? (takes P th.shared exc catchAll) with
  | some e => do
      Traced.record (.answered e.id)
      pure (some e)
  | none => do
      Traced.record (.unhandled exc catchAll shared)
      pure none

/-- `handlerStackFindById`. -/
def handlerStackFindById (id : Nat) : Evaluation V F M (Option (Scope (Handler V))) := do
  match ← Traced.read fun th => th.handlers.entries.find? fun e => e.id = id with
  | some e => do
      Traced.record (.answered e.id)
      pure (some e)
  | none => pure none

/-! ## Signals -/

/-- `findActiveSignal`. -/
def findActiveSignal (th : Thread V F M) (exc : V) : Option (ActiveSignal V) :=
  th.activeSignals.find? fun a => a.exception = exc

def isResumable (th : Thread V F M) (exc : V) : Bool :=
  match findActiveSignal th exc with
  | some ⟨_, _, true⟩ => false
  | _ => (P.resumableMarker th.shared exc).getD true

/-- The text of what a send of `messageText` answers, nothing when it fails. -/
def sentMessageText (exc : V) : Evaluation V F M String := do
  match ← Traced.read fun th => P.messageText th.shared exc with
  | none => pure ""
  | some task => do
      match ← runner task with
      | .normal v => do
          let text ← Traced.read fun th => P.asString th.shared v
          pure (text.getD "")
      | _ => pure ""

/-- What an unhandled exception with a class name and a text reports. -/
def unhandledText (className text : String) : String :=
  if text = "" then if className = "" then "unhandled exception" else className
  else if className = "" ∨ className = "Error" ∨ className = "MessageNotUnderstood" ∨
      text = className ∨ (className ++ ":").isPrefixOf text then text
  else className ++ ": " ++ text

/-- `defaultActionMessage`. -/
def defaultActionMessage (exc : V) : Evaluation V F M String := do
  let className ← Traced.read fun th => P.className th.shared exc
  let sent ← sentMessageText P runner exc
  let stored ← Traced.read fun th => P.messageTextOf th.shared exc
  pure (unhandledText className (if sent = "" then stored else sent))

/-- `defaultAction`. -/
def defaultAction (exc : V) : Evaluation V F M (Exit V) := do
  let aborts ← Traced.read fun th =>
    P.unhandledIsError th.shared exc || !isResumable P th exc
  if aborts then do
    let message ← defaultActionMessage P runner exc
    let trace ← Traced.read fun th => P.describeActiveStack th.shared th.engines
    pure (.unhandled exc message trace false)
  else do
    let text ← Traced.read fun th => P.messageTextOf th.shared exc
    let className ← Traced.read fun th => P.className th.shared exc
    if text ≠ "" then
      Traced.record (.stderr ((if className = "" then "Exception" else className) ++
        ": " ++ text))
    pure (.normal P.nil)

/-- `foreignDefaultAction`, of a value that is signalled again. -/
def foreignDefaultAction (exc : V) : Evaluation V F M (Exit V) := do
  let text ← Traced.read fun th => P.describeForeignValue th.shared exc
  let trace ← Traced.read fun th => P.describeActiveStack th.shared th.engines
  pure (.unhandled exc text trace false)

/-- `raiseNestingLimitError`. -/
def raiseNestingLimitError (below : Option Nat) : Evaluation V F M (Exit V) := do
  let limitError ← Traced.read fun th => (P.newNestingLimitError th.shared).1
  Traced.modify fun th => { th with shared := (P.newNestingLimitError th.shared).2 }
  match ← handlerStackFindMatch P limitError below false with
  | some e => pure (.nestingLimitUnwind e.id)
  | none => do
      match ← defaultAction P runner limitError with
      | .normal _ => pure (.stdException "the default action of an Error returned")
      | x => pure x

/-- Evaluates `m` with the entries from one inward disabled. -/
def disabledFrom (id : Nat) (m : Evaluation V F M (Exit V)) : Evaluation V F M (Exit V) := do
  let disabled ← Traced.read fun th => Scopes.flippedFrom id th.handlers.entries
  Traced.modify fun th => { th with handlers := th.handlers.switchOffFrom id }
  let x ← m
  Traced.modify fun th => { th with handlers := th.handlers.switchOn disabled }
  pure x

/-- A send of `value` or `value:` to the block of an entry. -/
def sendToHandler (exc : V) (e : Scope (Handler V)) : Evaluation V F M (Exit V) := do
  match ← Traced.read fun th => P.evaluable th.shared e.value.handlerBlock with
  | .closure 0 _ => invokeBlock P runner e.value.handlerBlock []
  | _ => invokeBlock P runner e.value.handlerBlock [exc]

/-- The block of an entry, in the scope of its active signal. -/
def invokeHandler (exc : V) (foreign : Bool) (e : Scope (Handler V)) :
    Evaluation V F M (Exit V) := do
  Traced.record (.handling e.id)
  Traced.modify fun th =>
    { th with activeSignals := ⟨exc, e.id, foreign⟩ :: th.activeSignals }
  let x ← sendToHandler P runner exc e
  Traced.modify fun th => { th with activeSignals := th.activeSignals.tail }
  pure x

/-- The handler that `signalInstance` runs next. -/
def nextHandler (exc : V) (foreign : Bool) (first below : Option Nat) :
    Evaluation V F M (Option (Scope (Handler V))) :=
  match first with
  | some id => handlerStackFindById id
  | none => handlerStackFindMatch P exc below foreign

/-- The loop of `signalInstance`: `first` is the handler to run first, `below` is where the search
goes on. -/
def signalLoop (exc : V) (foreign : Bool) :
    Nat → Option Nat → Option Nat → Evaluation V F M (Exit V)
  | 0, _, _ => Traced.unfinished
  | turns + 1, first, below => do
      match ← nextHandler P exc foreign first below with
      | none => if foreign then foreignDefaultAction P exc else defaultAction P runner exc
      | some e => do
          let engines ← Traced.read fun th => th.engines.length
          if kMaxNestedEngines ≤ engines then raiseNestingLimitError P runner below
          else do
            match ← disabledFrom e.id (invokeHandler P runner exc foreign e) with
            | .normal v => pure (.unwindToHandler e.id v)
            | .resumeSignal id v =>
                if id = e.id then pure (.normal v) else pure (.resumeSignal id v)
            | .passSignal id =>
                if id = e.id then signalLoop exc foreign turns none (some e.id)
                else pure (.passSignal id)
            | x => pure x

/-- `signalInstance`. -/
def signalInstance (turns : Nat) (exc : V) (first : Option Nat) : Evaluation V F M (Exit V) := do
  let foreign ← Traced.read fun th => !P.isExceptionInstance th.shared exc
  signalLoop P runner exc foreign turns first none

/-- `signalNestingLimitAt`. -/
def signalNestingLimitAt (turns : Nat) (id : Nat) : Evaluation V F M (Exit V) := do
  let limitError ← Traced.read fun th => (P.newNestingLimitError th.shared).1
  Traced.modify fun th => { th with shared := (P.newNestingLimitError th.shared).2 }
  signalInstance P runner turns limitError (some id)

/-- The id of the handler that runs for `exc`. -/
def activeHandlerIdOf (exc : V) : Evaluation V F M (Option Nat) :=
  Traced.read fun th => (findActiveSignal th exc).map ActiveSignal.handlerId

/-- A handler action: the exit it takes to the handler that runs for `exc`. -/
def handlerAction (exc : V) (inactive : String) (exit : Nat → Exit V) :
    Evaluation V F M (Exit V) := do
  match ← activeHandlerIdOf exc with
  | none => pure (.stdException inactive)
  | some id => pure (exit id)

def prim_Exception_return (exc v : V) : Evaluation V F M (Exit V) :=
  handlerAction exc "return: sent to an exception with no active handler" fun id =>
    .unwindToHandler id v

def prim_Exception_resume (exc v : V) : Evaluation V F M (Exit V) := do
  let resumable ← Traced.read fun th => isResumable P th exc
  if resumable then
    handlerAction exc "resume: sent to an exception with no active handler" fun id =>
      .resumeSignal id v
  else pure (.stdException "cannot resume a non-resumable exception")

def prim_Exception_retry (exc : V) : Evaluation V F M (Exit V) :=
  handlerAction exc "retry sent to an exception with no active handler" .retrySignal

def prim_Exception_pass (exc : V) : Evaluation V F M (Exit V) :=
  handlerAction exc "pass sent to an exception with no active handler" .passSignal

/-! ## Protected blocks -/

/-- `handlerStackPush` of each guard in order: the last one is the innermost. -/
def pushAll : List (Handler V) → Evaluation V F M (List Nat)
  | [] => pure []
  | g :: guards => do
      let id ← Traced.read fun th => th.handlers.next
      Traced.modify fun th => { th with handlers := th.handlers.push g }
      let ids ← pushAll guards
      pure (id :: ids)

/-- `popAll`: newest first. -/
def popAll : List Nat → Evaluation V F M PUnit
  | [] => pure ⟨⟩
  | id :: ids => do
      popAll ids
      Traced.modify fun th => { th with handlers := th.handlers.pop id }

/-- The ids of the entries of an attempt. -/
def attemptIds (guards : List (Handler V)) (pending : Option (List Nat × Nat)) :
    Evaluation V F M (List Nat) :=
  match pending with
  | none => pushAll guards
  | some (ids, _) => pure ids

def attempt (turns : Nat) (protectedBlock : V) (pending : Option (List Nat × Nat)) :
    Evaluation V F M (Exit V) :=
  match pending with
  | none => invokeBlock P runner protectedBlock []
  | some (_, target) => signalNestingLimitAt P runner turns target

/-- What follows an attempt with the ids `ids` that ends so: `again` is the next one, on the ids of
the entries that stay and the one whose handler runs. -/
def afterAttempt (again : Option (List Nat × Nat) → Evaluation V F M (Exit V)) (first : Bool)
    (ids : List Nat) : Exit V → Evaluation V F M (Exit V)
  | .unwindToHandler id v => do
      popAll ids
      if id ∈ ids then pure (.normal v) else pure (.unwindToHandler id v)
  | .retrySignal id => do
      popAll ids
      if id ∈ ids then again none else pure (.retrySignal id)
  | .nestingLimitUnwind id =>
      if first ∧ id ∈ ids then again (some (ids, id))
      else do
        popAll ids
        pure (.nestingLimitUnwind id)
  | x => do
      popAll ids
      pure x

/-- The loop of `runProtected`.  `pending` are the ids of the entries on the stack and the one whose
handler runs on the nesting limit's `Error`. -/
def attempts (protectedBlock : V) (guards : List (Handler V)) :
    Nat → Option (List Nat × Nat) → Evaluation V F M (Exit V)
  | 0, _ => Traced.unfinished
  | turns + 1, pending => do
      let ids ← attemptIds guards pending
      let x ← attempt P runner turns protectedBlock pending
      afterAttempt (attempts protectedBlock guards turns) pending.isNone ids x

/-- `runProtected`. -/
def runProtected (turns : Nat) (protectedBlock : V) (guards : List (Handler V)) :
    Evaluation V F M (Exit V) :=
  attempts P runner protectedBlock guards turns none

/-- The cleanup, and the exit when it answers. -/
def cleanedUp (cleanupBlock : V) (exit : Exit V) : Evaluation V F M (Exit V) := do
  match ← invokeBlock P runner cleanupBlock [] with
  | .normal _ => pure exit
  | x => pure x

/-- The end of `ensure:` and `ifCurtailed:`: what the `catch` clauses took leaves, after the
cleanup. -/
def afterCatch (cleanupBlock : V) (exit : Exit V) : Evaluation V F M (Exit V) :=
  match exit with
  | .normal v => pure (.normal v)
  | .futureYield f => pure (.futureYield f)
  | exit => cleanedUp P runner cleanupBlock exit

def prim_Block_ensure (protectedBlock cleanupBlock : V) : Evaluation V F M (Exit V) := do
  match ← invokeBlock P runner protectedBlock [] with
  | .normal v => do
      match ← invokeBlock P runner cleanupBlock [] with
      | .normal _ => pure (.normal v)
      | x => afterCatch P runner cleanupBlock x
  | x => afterCatch P runner cleanupBlock x

def prim_Block_ifCurtailed (protectedBlock cleanupBlock : V) : Evaluation V F M (Exit V) := do
  let x ← invokeBlock P runner protectedBlock []
  afterCatch P runner cleanupBlock x

/-! ## Callbacks -/

/-- The line of `reportCallbackError`. -/
def callbackError (text : String) : String :=
  "error in a Future callback: " ++
    (if "error: ".isPrefixOf text then (text.drop 7).toString else text)

/-- What the `catch` clauses of `invokeCallback` report of an exit. -/
def callbackReport (shared : M) : Exit V → Option String
  | .normal _ => none
  | .unhandled _ message trace _ =>
      some ("error: " ++ message ++ (if trace = "" then "" else "\n" ++ trace))
  | .protoException v => some ("error: " ++ P.describeProtoException shared v)
  | .stdException what => some ("error: " ++ what)
  | _ => some "non-local exit from a callback"

/-- `invokeCallback`. -/
def invokeCallback (block : V) (args : List V) : Evaluation V F M PUnit := do
  let x ← invokeBlock P runner block args
  match ← Traced.read fun th => callbackReport P th.shared x with
  | none => pure ⟨⟩
  | some text => Traced.record (.stderr (callbackError text))

def fireCallbackList (arg : V) : List V → Evaluation V F M PUnit
  | [] => pure ⟨⟩
  | callback :: callbacks => do
      invokeCallback P runner callback [arg]
      fireCallbackList arg callbacks

/-- The lists of a future. -/
inductive ListKey where
  | thenCbs | catchCbs | waiters
  deriving DecidableEq, Repr

def ListKey.get (key : ListKey) (f : Future V) : Option (List V) :=
  match key with
  | .thenCbs => f.thenCbs
  | .catchCbs => f.catchCbs
  | .waiters => f.waiters

def ListKey.set (key : ListKey) (f : Future V) (list : Option (List V)) : Future V :=
  match key with
  | .thenCbs => { f with thenCbs := list }
  | .catchCbs => { f with catchCbs := list }
  | .waiters => { f with waiters := list }

def drainList (future : V) (key : ListKey) : Evaluation V F M (List V) := do
  let list ← Traced.read fun th => key.get (th.futures future)
  Traced.modify fun th => th.setFuture future fun f => key.set f none
  pure (list.getD [])

def appendOrDrained (future : V) (key : ListKey) (item : V) : Evaluation V F M Bool := do
  match ← Traced.read fun th => key.get (th.futures future) with
  | none => pure false
  | some list => do
      Traced.modify fun th => th.setFuture future fun f => key.set f (some (list ++ [item]))
      pure true

/-- `settleFuture`. -/
def settleFuture (future : V) (reject : Bool) (payload : V) : Evaluation V F M PUnit := do
  if ← Traced.read fun th => (th.futures future).settling then pure ⟨⟩
  else do
    Traced.modify fun th => th.setFuture future fun f =>
      if reject then { f with settling := true, error := payload }
      else { f with settling := true, value := payload }
    let callbacks ← drainList future (if reject then .catchCbs else .thenCbs)
    fireCallbackList P runner payload callbacks
    Traced.modify fun th => th.setFuture future fun f =>
      { f with state := if reject then .rejected else .resolved }
    let waiters ← drainList future .waiters
    Traced.modify fun th => { th with scheduled := th.scheduled ++ waiters }

def prim_Future_resolve (future v : V) : Evaluation V F M (Exit V) := do
  settleFuture P runner future false v
  pure (.normal future)

def prim_Future_rejectWith (future error : V) : Evaluation V F M (Exit V) := do
  settleFuture P runner future true error
  pure (.normal future)

def prim_Future_thenDo (future block : V) : Evaluation V F M (Exit V) := do
  match ← Traced.read fun th => th.readState future with
  | .rejected => pure (.normal future)
  | .resolved => do
      let v ← Traced.read fun th => (th.futures future).value
      invokeCallback P runner block [v]
      pure (.normal future)
  | .pending => do
      if ← appendOrDrained future .thenCbs block then pure (.normal future)
      else do
        let v ← Traced.read fun th => (th.futures future).value
        invokeCallback P runner block [v]
        pure (.normal future)

def prim_Future_catch (future block : V) : Evaluation V F M (Exit V) := do
  match ← Traced.read fun th => th.readState future with
  | .resolved => pure (.normal future)
  | .rejected => do
      let e ← Traced.read fun th => (th.futures future).error
      invokeCallback P runner block [e]
      pure (.normal future)
  | .pending => do
      if ← appendOrDrained future .catchCbs block then pure (.normal future)
      else do
        let e ← Traced.read fun th => (th.futures future).error
        invokeCallback P runner block [e]
        pure (.normal future)

/-! ## Messages -/

def setCurrentActor (actor : Option V) (th : Thread V F M) : Thread V F M :=
  { th with currentActor := actor }

/-- What `drainOne` does when the method of a message ends. -/
def settleMessage (m : Message V F K) : Exit V → Evaluation V F M PUnit
  | .normal v => settleFuture P runner m.future false v
  | .futureYield _ => Traced.modify fun th =>
      th.setSuspension m.actor fun s => { s with suspendedFuture := some m.future }
  | x => do
      let error ← Traced.read fun th => P.rejectionFor th.shared x
      settleFuture P runner m.future true error

/-- A message in `drainOne`. -/
def drainMessage (m : Message V F K) : Evaluation V F M PUnit := do
  if m.resumes then
    Traced.modify fun th => th.setSuspension m.actor fun _ => ⟨none, none, none⟩
  Traced.modify (setCurrentActor (some m.actor))
  let x ← runner (.code m.code)
  if m.resumes || x.isCarrier then Traced.modify (setCurrentActor none)
  settleMessage P runner m x
  Traced.modify (setCurrentActor none)

/-- Evaluates `m` with all handlers of the thread disabled: `handlerStackDisableAll`, and
`handlerStackRestore` after it. -/
def hidingHandlers {α : Type} (m : Evaluation V F M α) : Evaluation V F M α := fun th =>
  let c := m { th with handlers := th.handlers.switchOffAll }
  { events := c.events
    outcome := c.outcome.map fun r =>
      (r.1, { r.2 with
        handlers := r.2.handlers.switchOn (Scopes.enabledIds th.handlers.entries) }) }

/-- The messages that `waitHelping` runs.  An actor whose method is under way on this thread is not
ready. -/
def helpOthers (self : V) : List (Message V F K) → Evaluation V F M PUnit
  | [] => pure ⟨⟩
  | m :: helps => do
      if ← Traced.read fun th => th.buriedActors.contains m.actor then helpOthers self helps
      else do
        Traced.enclosed .helped (hidingHandlers (drainMessage P runner m))
        Traced.modify (setCurrentActor (some self))
        helpOthers self helps

/-! ## Waiting -/

/-- `raiseRejection`. -/
def raiseRejection (turns : Nat) (error : V) : Evaluation V F M (Exit V) := do
  if ← Traced.read fun th => P.isExceptionInstance th.shared error then
    match ← Traced.read fun th => P.shallowCopy th.shared error with
    | none => signalInstance P runner turns error none
    | some task => do
        match ← runner task with
        | .normal copy => signalInstance P runner turns copy none
        | x => pure x
  else if ← Traced.read fun th => P.isForeignError th.shared error then
    signalInstance P runner turns error none
  else do
    let text ← Traced.read fun th => P.describeRejection th.shared error
    pure (.stdException ("Future rejected: " ++ text))

/-- The end of a wait: on a future that nobody settles it does not end. -/
def waitedValue (turns : Nat) (future : V) : Evaluation V F M (Exit V) := do
  match ← Traced.read fun th => th.readState future with
  | .pending => Traced.unfinished
  | .resolved => do
      let v ← Traced.read fun th => (th.futures future).value
      pure (.normal v)
  | .rejected => do
      let error ← Traced.read fun th => (th.futures future).error
      raiseRejection P runner turns error

/-- The walk of `detectWaitCycle`: an actor on the way is `self`, or is buried on this thread. -/
def waitsInCycle (th : Thread V F M) (self : V) : Nat → Option V → Bool
  | 0, _ => false
  | _ + 1, none => false
  | steps + 1, some future =>
      if th.readState future ≠ .pending then false
      else
        match (th.futures future).targetActor with
        | none => false
        | some target =>
            if target = self ∨ target ∈ th.buriedActors then true
            else waitsInCycle th self steps (th.suspensions target).waitingOn

/-- What `detectWaitCycle` throws. -/
def kDeadlockMessage : String :=
  "deadlock: this actor waits for a reply that can only come from an actor " ++
    "waiting on it (an actor that waits handles no other message; chain with " ++
    "thenDo: instead of waiting)"

def setWaitingOn (actor : V) (future : Option V) : Evaluation V F M PUnit :=
  Traced.modify fun th => th.setSuspension actor fun s => { s with waitingOn := future }

/-- `detectWaitCycle`: does it throw? -/
def detectWaitCycle (self future : V) : Evaluation V F M Bool := do
  setWaitingOn self (some future)
  if ← Traced.read fun th => waitsInCycle th self 256 (some future) then do
    setWaitingOn self none
    pure true
  else pure false

/-- Another thread settles the future. -/
def settledOutside (future : V) (outside : Option (Bool × V)) (th : Thread V F M) :
    Thread V F M :=
  match th.readState future, outside with
  | .pending, some (true, error) => th.setFuture future fun f =>
      { f with settling := true, state := .rejected, error := error }
  | .pending, some (false, v) => th.setFuture future fun f =>
      { f with settling := true, state := .resolved, value := v }
  | _, _ => th

def helpUntilSettled (turns : Nat) (self future : V) (helps : List (Message V F K))
    (outside : Option (Bool × V)) : Evaluation V F M (Exit V) := do
  helpOthers P runner self helps
  Traced.modify (settledOutside future outside)
  let x ← waitedValue P runner turns future
  setWaitingOn self none
  pure x

/-- `waitHelping`. -/
def waitHelping (turns : Nat) (self future : V) (helps : List (Message V F K))
    (outside : Option (Bool × V)) : Evaluation V F M (Exit V) := do
  Traced.modify fun th => { th with buriedActors := self :: th.buriedActors }
  let x ← helpUntilSettled P runner turns self future helps outside
  Traced.modify fun th => { th with buriedActors := th.buriedActors.tail }
  pure x

/-- The path of `prim_Future_wait` in the method of an actor, for a pending future. -/
def waitPending (turns : Nat) (self future : V) (helps : List (Message V F K))
    (outside : Option (Bool × V)) : Evaluation V F M (Exit V) := do
  Traced.record (.waits self)
  if ← detectWaitCycle self future then pure (.stdException kDeadlockMessage)
  else do
    let engines ← Traced.read fun th => th.engines.length
    if 1 < engines then waitHelping P runner turns self future helps outside
    else pure (.futureYield future)

def prim_Future_wait (turns : Nat) (future : V) (helps : List (Message V F K))
    (outside : Option (Bool × V)) : Evaluation V F M (Exit V) := do
  match ← Traced.read fun th => th.currentActor with
  | none => do
      Traced.modify (settledOutside future outside)
      waitedValue P runner turns future
  | some self => do
      match ← Traced.read fun th => th.readState future with
      | .pending => waitPending P runner turns self future helps outside
      | _ => waitedValue P runner turns future

/-! ## The loop of an engine -/

/-- `snapshotFrames`. -/
def snapshotFrames (th : Thread V F M) : List F :=
  match th.engines with
  | [] => []
  | e :: _ => (e.frame :: e.callers).reverse

/-- The `catch` of a `FutureYield`. -/
def suspend (future : V) : Evaluation V F M (Exit V) := do
  match ← Traced.read fun th => th.currentActor with
  | none => pure (.stdException "FutureYield outside of actor handler")
  | some actor => do
      Traced.record (.suspends actor)
      let firstCatch ← Traced.read fun th => (th.suspensions actor).suspendedFrame.isNone
      Traced.modify fun th => th.setSuspension actor fun s =>
        { s with suspendedFrame := some (snapshotFrames th ++ s.suspendedFrame.getD []) }
      if firstCatch then do
        setWaitingOn actor (some future)
        if ← appendOrDrained future .waiters actor then pure (.futureYield future)
        else do
          Traced.modify fun th => { th with scheduled := th.scheduled ++ [actor] }
          pure (.futureYield future)
      else pure (.futureYield future)

/-- What follows a primitive in the code that called it. -/
def goOn (loop : K → Evaluation V F M (Exit V)) (resume : Exit V → K) :
    Exit V → Evaluation V F M (Exit V)
  | .futureYield future => suspend future
  | x => loop (resume x)

/-- What follows a move. -/
def afterMove (turns : Nat) (loop : K → Evaluation V F M (Exit V)) :
    Move V F K → Evaluation V F M (Exit V)
  | .finish (.futureYield future) => suspend future
  | .finish x => pure x
  | .call p resume => do
      let x ← runner (.primitive p)
      goOn loop resume x
  | .wait future helps outside resume => do
      let x ← prim_Future_wait P runner turns future helps outside
      goOn loop resume x

/-- The loop of an engine. -/
def runLoop : Nat → K → Evaluation V F M (Exit V)
  | 0, _ => Traced.unfinished
  | turns + 1, k => do
      let moved ← move P k
      afterMove P runner turns (runLoop turns) moved

/-- The primitive `p`. -/
def perform (turns : Nat) : Primitive V F K → Evaluation V F M (Exit V)
  | .value block args => invokeBlock P runner block args
  | .onDo protectedBlock guards => runProtected P runner turns protectedBlock guards
  | .ensure protectedBlock cleanupBlock => prim_Block_ensure P runner protectedBlock cleanupBlock
  | .ifCurtailed protectedBlock cleanupBlock =>
      prim_Block_ifCurtailed P runner protectedBlock cleanupBlock
  | .signal exc => signalInstance P runner turns exc none
  | .exceptionReturn exc v => prim_Exception_return exc v
  | .exceptionResume exc v => prim_Exception_resume P exc v
  | .exceptionRetry exc => prim_Exception_retry exc
  | .exceptionPass exc => prim_Exception_pass exc
  | .thenDo future block => prim_Future_thenDo P runner future block
  | .catchDo future block => prim_Future_catch P runner future block
  | .resolve future v => prim_Future_resolve P runner future v
  | .rejectWith future error => prim_Future_rejectWith P runner future error

end Evaluate

/-- The evaluation of a task, to a depth of `n` calls. -/
def run (P : Program V F M K) : Nat → Task V F K → Evaluation V F M (Exit V)
  | 0, _ => Traced.unfinished
  | n + 1, .code c => runWithArgs (runLoop P (run P n) n) c
  | n + 1, .primitive p => perform P (run P n) n p

end ProtoST.Primitives.Callbacks

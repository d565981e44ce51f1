import ProtoST.Lib.Transition

/-!
# The turns of an actor

The model of one actor (`runtime/STRuntime.cpp`: `schedule`, `MailboxCursor`,
`drainOne`, `finishDrain`; `runtime/ExecutionEngine.cpp`: the `FutureYield`
clause of `runLoop`; `primitives/future_prims.cpp`: `settleFuture`,
`invokeCallback`, `appendFutureWaiter`, `prim_Future_wait`) with any number of
threads that send to it, run its turns and settle futures.

The flag `__sched__` is 0 (idle), 1 (active) or 2 (active, with a wakeup
pending).  `schedule()` takes it from 0 to 1 and enqueues the actor, or from 1
to 2; `finishDrain` takes it back.  The ready stack and the mailbox queue are
linearizable, so the model has the number of times the actor is in the stack and
the list of messages in the queue.  Reads and compare-and-swaps of shared
attributes are single steps.  What only the owner of the turn touches (the cursor,
the attributes of the suspension) changes together with the step that it belongs
to.

A thread can be in four places at once, one nested in the other: in a turn, in a
`settleFuture` of that turn or of other code, in the `FutureYield` clause of an
engine and in `schedule()`.  Only the innermost moves.  A thread that helps other
actors from within a wait counts as a further thread.

`fut m` is the future of the message `m`, if it has one.  The components `pushed`,
`started`, `suspended`, `awaits`, `registered` and `woken` record what happened;
no step reads them, except that a resumed turn notes whose frames it restores.
-/

namespace ProtoST.Runtime.ActorTurn

open ProtoST.Lib

/-- Where the frames of a snapshot come from: an engine that runs a message, or
one that runs a `thenDo:`/`catch:` block. -/
inductive Src (M : Type) where
  | message (m : M)
  | callback
  deriving DecidableEq, Repr

/-- `MailboxCursor`: the rest of the batch, `pendingLoaded_` and
`pendingDirty_`. -/
structure Cursor (M : Type) where
  batch : List M
  loaded : Bool
  dirty : Bool
  deriving DecidableEq, Repr

/-- The cursor as it is constructed. -/
def Cursor.fresh {M : Type} : Cursor M := ⟨[], false, false⟩

/-- What the turn runs: a user method, a primitive that `drainOne` calls itself
(no engine is live), or restored frames with the message future and the messages
that are resumed. -/
inductive Mode (M F : Type) where
  | method (m : M) (c : Cursor M)
  | primitive (m : M) (c : Cursor M)
  | resumed (frames : List (Src M)) (future : Option F) (who : List M)
  deriving DecidableEq, Repr

/-- What `drainOne` finds for the selector of a message. -/
inductive Shape where
  | invalidSelector
  | notUnderstood
  | method
  | primitive
  deriving DecidableEq, Repr

/-- `finishDrain`.  `released` tells the mailbox check after the flag was
released from the one before. -/
inductive Fin where
  | read
  | casTwoOne
  | hasTail (released : Bool)
  | hasQueue (released : Bool)
  | casStale
  | casRelease
  | casReclaim
  | enqueue
  deriving DecidableEq, Repr

/-- `drainOne`.  `current` tells whether the actor is still the current actor
of the thread. -/
inductive Turn (M F : Type) where
  | idle
  | popped
  | next (c : Cursor M)
  | body (mode : Mode M F)
  | settling (current : Bool) (c : Cursor M)
  | yielded (mode : Mode M F) (g : F)
  | spill (c : Cursor M) (susp : Bool)
  | finish (susp : Bool) (fin : Fin)
  deriving DecidableEq, Repr

/-- `settleFuture`; `wake` has the waiters that are still to be scheduled. -/
inductive Settle (F : Type) where
  | idle
  | claim (f : F)
  | fire (f : F)
  | publish (f : F)
  | drain (f : F)
  | wake (f : F) (n : Nat)
  deriving DecidableEq, Repr

/-- The settle of a message's future. -/
def Settle.ofMessage {F : Type} : Option F → Settle F
  | none => .idle
  | some f => .claim f

/-- The `FutureYield` clause of an engine that runs `frames`. -/
inductive Catch (M F : Type) where
  | idle
  | snap (g : F) (frames : List (Src M))
  | readState (g : F)
  | append (g : F)
  | rethrow (g : F)
  deriving DecidableEq, Repr

/-- `schedule()`, with the push in front of it when it is a send. -/
inductive Sched (M : Type) where
  | idle
  | push (m : M)
  | read
  | casOne
  | casZero
  | enqueue
  deriving DecidableEq, Repr

/-- The actor, the futures and the threads. -/
structure State (T M F : Type) where
  /-- `__sched__`. -/
  flag : Nat
  /-- How often the actor is in the ready stack. -/
  ready : Nat
  queue : List M
  /-- `__pending__`. -/
  pending : List M
  /-- `__suspended_frame__`, outermost engine first. -/
  snapshot : Option (List (Src M))
  /-- `__suspended_future__`. -/
  suspFut : Option F
  /-- `__waiting_on__`. -/
  waitingOn : Option F
  /-- `__settling__`. -/
  claimed : F → Bool
  /-- Whether `__state__` is settled. -/
  published : F → Bool
  /-- Whether `__waiters__` is the drained sentinel. -/
  drained : F → Bool
  /-- How often the actor is in `__waiters__`. -/
  waiters : F → Nat
  turn : T → Turn M F
  settle : T → Settle F
  catching : T → Catch M F
  sched : T → Sched M
  pushed : List M
  started : List M
  /-- The started messages that yielded and are not resumed. -/
  suspended : List M
  /-- The future of the last yield that reached `drainOne`. -/
  awaits : Option F
  /-- The future that has the actor as a waiter since its last yield. -/
  registered : Option F
  /-- Whether the settle has scheduled every waiter. -/
  woken : F → Bool

def initial {T M F : Type} : State T M F where
  flag := 0
  ready := 0
  queue := []
  pending := []
  snapshot := none
  suspFut := none
  waitingOn := none
  claimed := fun _ => false
  published := fun _ => false
  drained := fun _ => false
  waiters := fun _ => 0
  turn := fun _ => .idle
  settle := fun _ => .idle
  catching := fun _ => .idle
  sched := fun _ => .idle
  pushed := []
  started := []
  suspended := []
  awaits := none
  registered := none
  woken := fun _ => false

/-- What can happen. -/
inductive Action (T M F : Type) where
  /-- Code on the thread sends a message to the actor. -/
  | send (t : T) (m : M)
  /-- Code on the thread settles a future. -/
  | settleBy (t : T) (f : F)
  /-- The actor's code, or a callback of its turn, evaluates `Future>>wait` on a
  pending future in the only live engine; `keep` frames of a resumed stack have
  not returned, besides the outermost. -/
  | wait (t : T) (g : F) (keep : Nat)
  /-- The message itself is `wait`, sent to an actor that wraps a future. -/
  | bareYield (t : T) (g : F)
  /-- `detectWaitCycle` records a wait that does not suspend. -/
  | help (t : T) (g : F)
  /-- That wait is over. -/
  | helped (t : T)
  /-- `drainOne` pops the actor. -/
  | pop (t : T)
  /-- `drainOne` takes the message that `MailboxCursor::next` answers. -/
  | start (t : T) (shape : Shape)
  /-- The body ends, by `NonLocalReturn` or a stray unwind if `unwound`. -/
  | leave (t : T) (unwound : Bool)
  /-- `FutureYield` reaches `drainOne`. -/
  | deliver (t : T)
  /-- `invokeCallback`, or a primitive between the engine and `drainOne`, drops
  the `FutureYield`. -/
  | swallow (t : T)
  /-- The thread's next operation. -/
  | run (t : T)
  deriving DecidableEq, Repr

/-- The code of the turn runs outside of an engine while the actor is the
current one: a callback or block it runs is the only live engine. -/
def Turn.bare {M F : Type} : Turn M F → Bool
  | .body (.primitive _ _) | .settling true _ => true
  | _ => false

/-- The thread runs code of the image. -/
def inCode {M F : Type} : Settle F → Turn M F → Bool
  | .fire _, _ => true
  | .idle, .idle | .idle, .body _ => true
  | _, _ => false

/-- The thread runs code of the image for the actor. -/
def inActor {M F : Type} : Settle F → Turn M F → Bool
  | .fire _, .body _ | .idle, .body _ | .fire _, .settling true _ => true
  | _, _ => false

/-- The frames of the engine that runs the body. -/
def Mode.frames {M F : Type} (keep : Nat) : Mode M F → List (Src M)
  | .method m _ | .primitive m _ => [.message m]
  | .resumed frames _ _ => frames.take (keep + 1)

namespace State

variable {T M F : Type} [DecidableEq T] [DecidableEq F]

abbrev setTurn (s : State T M F) (t : T) (x : Turn M F) : State T M F :=
  { s with turn := Function.update s.turn t x }

abbrev setSettle (s : State T M F) (t : T) (x : Settle F) : State T M F :=
  { s with settle := Function.update s.settle t x }

abbrev setCatch (s : State T M F) (t : T) (x : Catch M F) : State T M F :=
  { s with catching := Function.update s.catching t x }

abbrev setSched (s : State T M F) (t : T) (x : Sched M) : State T M F :=
  { s with sched := Function.update s.sched t x }

/-- `resolveFutureFromDrain` or `rejectFutureFromDrain`, when there is a
future. -/
abbrev settleMessage (s : State T M F) (t : T) (future : Option F) :
    State T M F :=
  s.setSettle t (.ofMessage future)

/-- `schedule()`. -/
def runSched (s : State T M F) (t : T) : Option (State T M F) :=
  match s.sched t with
  | .idle => none
  | .push m =>
      some { s.setSched t .read with
        queue := s.queue ++ [m], pushed := s.pushed ++ [m] }
  | .read =>
      some <| s.setSched t <|
        if s.flag = 2 then .idle
        else if s.flag = 1 then .casOne
        else .casZero
  | .casOne =>
      some <|
        if s.flag = 1 then { s.setSched t .idle with flag := 2 }
        else s.setSched t .read
  | .casZero =>
      some <|
        if s.flag = 0 then { s.setSched t .enqueue with flag := 1 }
        else s.setSched t .read
  | .enqueue => some { s.setSched t .idle with ready := s.ready + 1 }

/-- The `FutureYield` clause of `runLoop`, up to the rethrow. -/
def runCatch (s : State T M F) (t : T) : Option (State T M F) :=
  match s.catching t with
  | .idle | .rethrow _ => none
  | .snap g frames =>
      match s.snapshot with
      | none =>
          some { s.setCatch t (.readState g) with
            snapshot := some frames, waitingOn := some g }
      | some existing =>
          -- an outer engine of the same yield, or so `firstCatch` takes it
          some { s.setCatch t (.rethrow g) with
            snapshot := some (frames ++ existing) }
  | .readState g =>
      some <|
        if s.published g then (s.setCatch t (.rethrow g)).setSched t .read
        else s.setCatch t (.append g)
  | .append g =>
      some <|
        if s.drained g then (s.setCatch t (.rethrow g)).setSched t .read
        else
          { s.setCatch t (.rethrow g) with
            waiters := Function.update s.waiters g (s.waiters g + 1)
            registered := some g }

/-- `settleFuture`. -/
def runSettle (s : State T M F) (t : T) : Option (State T M F) :=
  match s.settle t with
  | .idle => none
  | .claim f =>
      some <|
        if s.claimed f then s.setSettle t .idle
        else
          { s.setSettle t (.fire f) with
            claimed := Function.update s.claimed f true }
  | .fire f => some (s.setSettle t (.publish f))
  | .publish f =>
      some { s.setSettle t (.drain f) with
        published := Function.update s.published f true }
  | .drain f =>
      some { s.setSettle t (.wake f (s.waiters f)) with
        drained := Function.update s.drained f true
        waiters := Function.update s.waiters f 0 }
  | .wake f 0 =>
      some { s.setSettle t .idle with woken := Function.update s.woken f true }
  | .wake f (n + 1) => some ((s.setSettle t (.wake f n)).setSched t .read)

/-- `finishDrain`. -/
def runFinish (s : State T M F) (t : T) (susp : Bool) : Fin → State T M F
  | .read =>
      s.setTurn t (.finish susp (if s.flag = 2 then .casTwoOne else .casRelease))
  | .casTwoOne =>
      if s.flag = 2 then
        { s.setTurn t (.finish susp (.hasTail false)) with flag := 1 }
      else s.setTurn t (.finish susp .read)
  | .hasTail released =>
      s.setTurn t <| .finish susp <|
        if s.pending = [] then .hasQueue released
        else if released then .casReclaim else .enqueue
  | .hasQueue released =>
      s.setTurn t <|
        if s.queue = [] then
          if released then .idle
          else .finish susp (if susp then .enqueue else .casStale)
        else .finish susp (if released then .casReclaim else .enqueue)
  | .casStale =>
      if s.flag = 1 then { s.setTurn t .idle with flag := 0 }
      else s.setTurn t (.finish susp .read)
  | .casRelease =>
      if s.flag = 1 then
        { s.setTurn t (if susp then .idle else .finish susp (.hasTail true)) with
          flag := 0 }
      else s.setTurn t (.finish susp .read)
  | .casReclaim =>
      if s.flag = 0 then { s.setTurn t (.finish susp .enqueue) with flag := 1 }
      else s.setTurn t .idle
  | .enqueue => { s.setTurn t .idle with ready := s.ready + 1 }

/-- `MailboxCursor::next`, when the batch is used up: `loadPending`, then
`loadQueueBatch`. -/
def runCursor (s : State T M F) (t : T) (c : Cursor M) : State T M F :=
  if c.loaded then
    if s.queue = [] then s.setTurn t (.spill c false)
    else { s.setTurn t (.next { c with batch := s.queue }) with queue := [] }
  else if s.pending = [] then s.setTurn t (.next { c with loaded := true })
  else s.setTurn t (.next ⟨s.pending, true, true⟩)

/-- `MailboxCursor::spill`. -/
abbrev runSpill (s : State T M F) (t : T) (c : Cursor M) (susp : Bool) :
    State T M F :=
  { s.setTurn t (.finish susp .read) with
    pending :=
      if c.batch ≠ [] then c.batch else if c.dirty then [] else s.pending }

/-- The resume path of `drainOne`, up to `continueRun`. -/
abbrev resumeFrames [DecidableEq M] (s : State T M F) (t : T)
    (frames : List (Src M)) : State T M F :=
  { s.setTurn t (.body (.resumed frames s.suspFut
        (s.suspended.filter fun m => .message m ∈ frames))) with
    snapshot := none
    waitingOn := none
    suspFut := none
    suspended := s.suspended.filter fun m => .message m ∉ frames
    registered := none }

/-- The beginning of `drainOne`: a fresh turn, a deferred resume, or a resume. -/
def runPopped [DecidableEq M] (s : State T M F) (t : T) : State T M F :=
  match s.snapshot with
  | none => s.setTurn t (.next .fresh)
  | some frames =>
      if s.waitingOn.any fun g => !s.published g then
        s.setTurn t (.finish true .read)
      else s.resumeFrames t frames

/-- The `FutureYield` clauses of `drainOne`. -/
def runYielded (fut : M → Option F) (s : State T M F) (t : T) (g : F) :
    Mode M F → State T M F
  | .method m c | .primitive m c =>
      { s.setTurn t (.spill c true) with
        suspFut := (fut m).or s.suspFut
        suspended := s.suspended ++ [m]
        awaits := some g }
  | .resumed _ future who =>
      { s.setTurn t (.finish true .read) with
        suspFut := future.or s.suspFut
        suspended := s.suspended ++ who
        awaits := some g }

/-- `drainOne` and `finishDrain`, where the turn goes on by itself. -/
def runTurn [DecidableEq M] (fut : M → Option F) (s : State T M F) (t : T) :
    Option (State T M F) :=
  match s.turn t with
  | .idle | .body _ => none
  | .popped => some (s.runPopped t)
  | .next c => if c.batch = [] then some (s.runCursor t c) else none
  | .settling _ c => some (s.setTurn t (.next c))
  | .yielded mode g => some (s.runYielded fut t g mode)
  | .spill c susp => some (s.runSpill t c susp)
  | .finish susp fin => some (s.runFinish t susp fin)

/-- The thread's next operation, where it is innermost. -/
def run [DecidableEq M] (fut : M → Option F) (s : State T M F) (t : T) :
    Option (State T M F) :=
  if s.sched t ≠ .idle then s.runSched t
  else if s.catching t ≠ .idle then s.runCatch t
  else if s.settle t ≠ .idle then s.runSettle t
  else s.runTurn fut t

/-- Neither `schedule()` nor a `FutureYield` clause runs on the thread. -/
def free [DecidableEq M] (s : State T M F) (t : T) : Bool :=
  s.sched t = .idle ∧ s.catching t = .idle

/-- `drainOne` handles the message `m` with the rest of the batch in `c`. -/
def take (fut : M → Option F) (s : State T M F) (t : T) (m : M)
    (c : Cursor M) (shape : Shape) : State T M F :=
  let s := { s with started := s.started ++ [m] }
  match shape with
  | .invalidSelector => (s.setTurn t (.settling false c)).settleMessage t (fut m)
  | .notUnderstood => (s.setTurn t (.settling true c)).settleMessage t (fut m)
  | .method => s.setTurn t (.body (.method m c))
  | .primitive => s.setTurn t (.body (.primitive m c))

/-- The body ends: the message's future is settled, with the actor still
current unless the frames were restored or the exit was an unwind. -/
def leaveBody (fut : M → Option F) (s : State T M F) (t : T)
    (unwound : Bool) : Mode M F → State T M F
  | .method m c | .primitive m c =>
      (s.setTurn t (.settling (!unwound) c)).settleMessage t (fut m)
  | .resumed _ future _ =>
      (s.setTurn t (.settling false .fresh)).settleMessage t future

/-- One action. -/
def step [DecidableEq M] (fut : M → Option F) (s : State T M F) :
    Action T M F → Option (State T M F)
  | .send t m =>
      if s.free t ∧ inCode (s.settle t) (s.turn t) then
        some (s.setSched t (.push m))
      else none
  | .settleBy t f =>
      if s.free t ∧ s.settle t = .idle ∧ inCode (s.settle t) (s.turn t) then
        some (s.setSettle t (.claim f))
      else none
  | .wait t g keep =>
      if s.free t ∧ s.published g = false then
        match s.settle t, s.turn t with
        | .idle, .body mode =>
            some { s.setCatch t (.snap g (mode.frames keep)) with
              waitingOn := some g }
        | .fire _, turn =>
            if turn.bare then
              some { s.setCatch t (.snap g [.callback]) with waitingOn := some g }
            else none
        | _, _ => none
      else none
  | .bareYield t g =>
      if s.free t ∧ s.settle t = .idle ∧ s.published g = false then
        match s.turn t with
        | .body (.primitive m c) =>
            some { s.setTurn t (.yielded (.primitive m c) g) with
              waitingOn := some g }
        | _ => none
      else none
  | .help t g =>
      if s.free t ∧ inActor (s.settle t) (s.turn t) then
        some { s with waitingOn := some g }
      else none
  | .helped t =>
      if s.free t ∧ inActor (s.settle t) (s.turn t) then
        some { s with waitingOn := none }
      else none
  | .pop t =>
      if s.free t ∧ s.settle t = .idle ∧ s.turn t = .idle ∧ 0 < s.ready then
        some { s.setTurn t .popped with ready := s.ready - 1 }
      else none
  | .start t shape =>
      if s.free t ∧ s.settle t = .idle then
        match s.turn t with
        | .next ⟨m :: rest, loaded, dirty⟩ =>
            some (s.take fut t m ⟨rest, loaded, dirty⟩ shape)
        | _ => none
      else none
  | .leave t unwound =>
      if s.free t ∧ s.settle t = .idle then
        match s.turn t with
        | .body mode => some (s.leaveBody fut t unwound mode)
        | _ => none
      else none
  | .deliver t =>
      if s.sched t = .idle ∧ s.settle t = .idle then
        match s.catching t, s.turn t with
        | .rethrow g, .body mode =>
            some ((s.setCatch t .idle).setTurn t (.yielded mode g))
        | _, _ => none
      else none
  | .swallow t =>
      if s.sched t = .idle ∧ (s.turn t).bare then
        match s.catching t with
        | .rethrow _ => some (s.setCatch t .idle)
        | _ => none
      else none
  | .run t => s.run fut t

end State

/-- The actor, with `fut m` the future of the message `m`. -/
def machine {T M F : Type} [DecidableEq T] [DecidableEq M] [DecidableEq F]
    (fut : M → Option F) : Machine (State T M F) (Action T M F) where
  init s := s = initial
  step := State.step fut

/-! ## The cases of a step -/

section Cases

variable {T M F : Type} [DecidableEq T] [DecidableEq M] [DecidableEq F]
  {fut : M → Option F} {s s' : State T M F}

/-- `schedule()` as a relation, one constructor for each way to take a step. -/
inductive DoesSched (s : State T M F) (t : T) : State T M F → Prop
  | push {m : M} : s.sched t = .push m →
      DoesSched s t { s.setSched t .read with
        queue := s.queue ++ [m], pushed := s.pushed ++ [m] }
  | marked : s.sched t = .read → s.flag = 2 → DoesSched s t (s.setSched t .idle)
  | active : s.sched t = .read → s.flag = 1 →
      DoesSched s t (s.setSched t .casOne)
  | quiet : s.sched t = .read → s.flag ≠ 2 → s.flag ≠ 1 →
      DoesSched s t (s.setSched t .casZero)
  | mark : s.sched t = .casOne → s.flag = 1 →
      DoesSched s t { s.setSched t .idle with flag := 2 }
  | markFail : s.sched t = .casOne → s.flag ≠ 1 →
      DoesSched s t (s.setSched t .read)
  | claim : s.sched t = .casZero → s.flag = 0 →
      DoesSched s t { s.setSched t .enqueue with flag := 1 }
  | claimFail : s.sched t = .casZero → s.flag ≠ 0 →
      DoesSched s t (s.setSched t .read)
  | enqueue : s.sched t = .enqueue →
      DoesSched s t { s.setSched t .idle with ready := s.ready + 1 }

/-- The `FutureYield` clause of `runLoop` as a relation. -/
inductive DoesCatch (s : State T M F) (t : T) : State T M F → Prop
  | first {g : F} {frames : List (Src M)} :
      s.catching t = .snap g frames → s.snapshot = none →
      DoesCatch s t { s.setCatch t (.readState g) with
        snapshot := some frames, waitingOn := some g }
  | again {g : F} {frames existing : List (Src M)} :
      s.catching t = .snap g frames → s.snapshot = some existing →
      DoesCatch s t { s.setCatch t (.rethrow g) with
        snapshot := some (frames ++ existing) }
  | settled {g : F} : s.catching t = .readState g → s.published g = true →
      DoesCatch s t ((s.setCatch t (.rethrow g)).setSched t .read)
  | pending {g : F} : s.catching t = .readState g → s.published g = false →
      DoesCatch s t (s.setCatch t (.append g))
  | drained {g : F} : s.catching t = .append g → s.drained g = true →
      DoesCatch s t ((s.setCatch t (.rethrow g)).setSched t .read)
  | parked {g : F} : s.catching t = .append g → s.drained g = false →
      DoesCatch s t { s.setCatch t (.rethrow g) with
        waiters := Function.update s.waiters g (s.waiters g + 1)
        registered := some g }

/-- `settleFuture` as a relation. -/
inductive DoesSettle (s : State T M F) (t : T) : State T M F → Prop
  | lose {f : F} : s.settle t = .claim f → s.claimed f = true →
      DoesSettle s t (s.setSettle t .idle)
  | win {f : F} : s.settle t = .claim f → s.claimed f = false →
      DoesSettle s t { s.setSettle t (.fire f) with
        claimed := Function.update s.claimed f true }
  | fired {f : F} : s.settle t = .fire f →
      DoesSettle s t (s.setSettle t (.publish f))
  | publish {f : F} : s.settle t = .publish f →
      DoesSettle s t { s.setSettle t (.drain f) with
        published := Function.update s.published f true }
  | drain {f : F} : s.settle t = .drain f →
      DoesSettle s t { s.setSettle t (.wake f (s.waiters f)) with
        drained := Function.update s.drained f true
        waiters := Function.update s.waiters f 0 }
  | wake {f : F} {n : Nat} : s.settle t = .wake f (n + 1) →
      DoesSettle s t ((s.setSettle t (.wake f n)).setSched t .read)
  | woken {f : F} : s.settle t = .wake f 0 →
      DoesSettle s t { s.setSettle t .idle with
        woken := Function.update s.woken f true }

/-- `finishDrain` as a relation. -/
inductive DoesFinish (s : State T M F) (t : T) (susp : Bool) :
    Fin → State T M F → Prop
  | marked : s.flag = 2 →
      DoesFinish s t susp .read (s.setTurn t (.finish susp .casTwoOne))
  | unmarked : s.flag ≠ 2 →
      DoesFinish s t susp .read (s.setTurn t (.finish susp .casRelease))
  | consume : s.flag = 2 →
      DoesFinish s t susp .casTwoOne
        { s.setTurn t (.finish susp (.hasTail false)) with flag := 1 }
  | consumeFail : s.flag ≠ 2 →
      DoesFinish s t susp .casTwoOne (s.setTurn t (.finish susp .read))
  | noTail {released : Bool} : s.pending = [] →
      DoesFinish s t susp (.hasTail released)
        (s.setTurn t (.finish susp (.hasQueue released)))
  | tail : s.pending ≠ [] →
      DoesFinish s t susp (.hasTail false) (s.setTurn t (.finish susp .enqueue))
  | tailReleased : s.pending ≠ [] →
      DoesFinish s t susp (.hasTail true)
        (s.setTurn t (.finish susp .casReclaim))
  | work : s.queue ≠ [] ∨ susp = true →
      DoesFinish s t susp (.hasQueue false)
        (s.setTurn t (.finish susp .enqueue))
  | stale : s.queue = [] → susp = false →
      DoesFinish s t susp (.hasQueue false)
        (s.setTurn t (.finish susp .casStale))
  | workReleased : s.queue ≠ [] →
      DoesFinish s t susp (.hasQueue true)
        (s.setTurn t (.finish susp .casReclaim))
  | empty : s.queue = [] →
      DoesFinish s t susp (.hasQueue true) (s.setTurn t .idle)
  | releaseStale : s.flag = 1 →
      DoesFinish s t susp .casStale { s.setTurn t .idle with flag := 0 }
  | staleFail : s.flag ≠ 1 →
      DoesFinish s t susp .casStale (s.setTurn t (.finish susp .read))
  | release : s.flag = 1 → susp = false →
      DoesFinish s t susp .casRelease
        { s.setTurn t (.finish susp (.hasTail true)) with flag := 0 }
  | releaseSuspended : s.flag = 1 → susp = true →
      DoesFinish s t susp .casRelease { s.setTurn t .idle with flag := 0 }
  | releaseFail : s.flag ≠ 1 →
      DoesFinish s t susp .casRelease (s.setTurn t (.finish susp .read))
  | reclaim : s.flag = 0 →
      DoesFinish s t susp .casReclaim
        { s.setTurn t (.finish susp .enqueue) with flag := 1 }
  | reclaimFail : s.flag ≠ 0 →
      DoesFinish s t susp .casReclaim (s.setTurn t .idle)
  | requeue :
      DoesFinish s t susp .enqueue { s.setTurn t .idle with ready := s.ready + 1 }

/-- `drainOne` as a relation. -/
inductive DoesTurn (fut : M → Option F) (s : State T M F) (t : T) :
    State T M F → Prop
  | fresh : s.turn t = .popped → s.snapshot = none →
      DoesTurn fut s t (s.setTurn t (.next .fresh))
  | defer {frames : List (Src M)} {g : F} :
      s.turn t = .popped → s.snapshot = some frames → s.waitingOn = some g →
      s.published g = false →
      DoesTurn fut s t (s.setTurn t (.finish true .read))
  | resume {frames : List (Src M)} :
      s.turn t = .popped → s.snapshot = some frames →
      (∀ g, s.waitingOn = some g → s.published g = true) →
      DoesTurn fut s t (s.resumeFrames t frames)
  | tail {c : Cursor M} : s.turn t = .next c → c.batch = [] →
      c.loaded = false → s.pending ≠ [] →
      DoesTurn fut s t (s.setTurn t (.next ⟨s.pending, true, true⟩))
  | noTail {c : Cursor M} : s.turn t = .next c → c.batch = [] →
      c.loaded = false → s.pending = [] →
      DoesTurn fut s t (s.setTurn t (.next { c with loaded := true }))
  | takeAll {c : Cursor M} : s.turn t = .next c → c.batch = [] →
      c.loaded = true → s.queue ≠ [] →
      DoesTurn fut s t
        { s.setTurn t (.next { c with batch := s.queue }) with queue := [] }
  | done {c : Cursor M} : s.turn t = .next c → c.batch = [] →
      c.loaded = true → s.queue = [] →
      DoesTurn fut s t (s.setTurn t (.spill c false))
  | settled {current : Bool} {c : Cursor M} :
      s.turn t = .settling current c →
      DoesTurn fut s t (s.setTurn t (.next c))
  | yielded {mode : Mode M F} {g : F} {m : M} {c : Cursor M} :
      s.turn t = .yielded mode g →
      (mode = .method m c ∨ mode = .primitive m c) →
      DoesTurn fut s t
        { s.setTurn t (.spill c true) with
          suspFut := (fut m).or s.suspFut
          suspended := s.suspended ++ [m]
          awaits := some g }
  | reyielded {frames : List (Src M)} {future : Option F} {who : List M} {g : F} :
      s.turn t = .yielded (.resumed frames future who) g →
      DoesTurn fut s t
        { s.setTurn t (.finish true .read) with
          suspFut := future.or s.suspFut
          suspended := s.suspended ++ who
          awaits := some g }
  | spill {c : Cursor M} {susp : Bool} : s.turn t = .spill c susp →
      DoesTurn fut s t (s.runSpill t c susp)
  | finish {susp : Bool} {fin : Fin} {s' : State T M F} :
      s.turn t = .finish susp fin → DoesFinish s t susp fin s' →
      DoesTurn fut s t s'

/-- `step` as a relation, one constructor for each way to take a step. -/
inductive Does (fut : M → Option F) (s : State T M F) :
    Action T M F → State T M F → Prop
  | send {t : T} {m : M} : s.sched t = .idle → s.catching t = .idle →
      inCode (s.settle t) (s.turn t) = true →
      Does fut s (.send t m) (s.setSched t (.push m))
  | settleBy {t : T} {f : F} : s.sched t = .idle → s.catching t = .idle →
      s.settle t = .idle → inCode (s.settle t) (s.turn t) = true →
      Does fut s (.settleBy t f) (s.setSettle t (.claim f))
  | wait {t : T} {g : F} {keep : Nat} {mode : Mode M F} :
      s.sched t = .idle → s.catching t = .idle → s.settle t = .idle →
      s.turn t = .body mode → s.published g = false →
      Does fut s (.wait t g keep)
        { s.setCatch t (.snap g (mode.frames keep)) with waitingOn := some g }
  | waitCallback {t : T} {f g : F} {keep : Nat} :
      s.sched t = .idle → s.catching t = .idle → s.settle t = .fire f →
      (s.turn t).bare = true → s.published g = false →
      Does fut s (.wait t g keep)
        { s.setCatch t (.snap g [.callback]) with waitingOn := some g }
  | bareYield {t : T} {g : F} {m : M} {c : Cursor M} :
      s.sched t = .idle → s.catching t = .idle → s.settle t = .idle →
      s.turn t = .body (.primitive m c) → s.published g = false →
      Does fut s (.bareYield t g)
        { s.setTurn t (.yielded (.primitive m c) g) with waitingOn := some g }
  | help {t : T} {g : F} : s.sched t = .idle → s.catching t = .idle →
      inActor (s.settle t) (s.turn t) = true →
      Does fut s (.help t g) { s with waitingOn := some g }
  | helped {t : T} : s.sched t = .idle → s.catching t = .idle →
      inActor (s.settle t) (s.turn t) = true →
      Does fut s (.helped t) { s with waitingOn := none }
  | pop {t : T} : s.sched t = .idle → s.catching t = .idle →
      s.settle t = .idle → s.turn t = .idle → 0 < s.ready →
      Does fut s (.pop t) { s.setTurn t .popped with ready := s.ready - 1 }
  | startFailed {t : T} {m : M} {rest : List M} {loaded dirty : Bool}
      {current : Bool} {shape : Shape} :
      s.sched t = .idle → s.catching t = .idle → s.settle t = .idle →
      s.turn t = .next ⟨m :: rest, loaded, dirty⟩ →
      Does fut s (.start t shape)
        (({ s with started := s.started ++ [m] }.setTurn t
          (.settling current ⟨rest, loaded, dirty⟩)).settleMessage t (fut m))
  | start {t : T} {m : M} {rest : List M} {loaded dirty : Bool}
      {mode : Mode M F} {shape : Shape} :
      s.sched t = .idle → s.catching t = .idle → s.settle t = .idle →
      s.turn t = .next ⟨m :: rest, loaded, dirty⟩ →
      (mode = .method m ⟨rest, loaded, dirty⟩ ∨
        mode = .primitive m ⟨rest, loaded, dirty⟩) →
      Does fut s (.start t shape)
        ({ s with started := s.started ++ [m] }.setTurn t (.body mode))
  | leave {t : T} {m : M} {c : Cursor M} {mode : Mode M F} {unwound : Bool} :
      s.sched t = .idle → s.catching t = .idle → s.settle t = .idle →
      s.turn t = .body mode → (mode = .method m c ∨ mode = .primitive m c) →
      Does fut s (.leave t unwound)
        ((s.setTurn t (.settling (!unwound) c)).settleMessage t (fut m))
  | leaveResumed {t : T} {frames : List (Src M)} {future : Option F}
      {who : List M} {unwound : Bool} :
      s.sched t = .idle → s.catching t = .idle → s.settle t = .idle →
      s.turn t = .body (.resumed frames future who) →
      Does fut s (.leave t unwound)
        ((s.setTurn t (.settling false .fresh)).settleMessage t future)
  | deliver {t : T} {g : F} {mode : Mode M F} :
      s.sched t = .idle → s.catching t = .rethrow g → s.settle t = .idle →
      s.turn t = .body mode →
      Does fut s (.deliver t) ((s.setCatch t .idle).setTurn t (.yielded mode g))
  | swallow {t : T} {g : F} :
      s.sched t = .idle → s.catching t = .rethrow g →
      (s.turn t).bare = true →
      Does fut s (.swallow t) (s.setCatch t .idle)
  | sched {t : T} {s' : State T M F} : DoesSched s t s' →
      Does fut s (.run t) s'
  | catching {t : T} {s' : State T M F} : s.sched t = .idle →
      DoesCatch s t s' → Does fut s (.run t) s'
  | settle {t : T} {s' : State T M F} :
      s.sched t = .idle → s.catching t = .idle →
      DoesSettle s t s' → Does fut s (.run t) s'
  | turn {t : T} {s' : State T M F} :
      s.sched t = .idle → s.catching t = .idle → s.settle t = .idle →
      DoesTurn fut s t s' → Does fut s (.run t) s'

variable {t : T}

omit [DecidableEq M] [DecidableEq F] in
/-- The next operation of `schedule()`. -/
theorem does_of_runSched (h : s.runSched t = some s') :
    DoesSched s t s' := by
  cases hs : s.sched t with
  | idle => simp [State.runSched, hs] at h
  | push m =>
      simp only [State.runSched, hs, Option.some.injEq] at h
      subst h
      exact .push hs
  | read =>
      simp only [State.runSched, hs, Option.some.injEq] at h
      subst h
      by_cases htwo : s.flag = 2
      · simpa [htwo] using .marked hs htwo
      · by_cases hone : s.flag = 1
        · simpa [hone] using .active hs hone
        · simpa [htwo, hone] using .quiet hs htwo hone
  | casOne =>
      simp only [State.runSched, hs, Option.some.injEq] at h
      subst h
      by_cases hone : s.flag = 1
      · simpa [hone] using .mark hs hone
      · simpa [hone] using .markFail hs hone
  | casZero =>
      simp only [State.runSched, hs, Option.some.injEq] at h
      subst h
      by_cases hzero : s.flag = 0
      · simpa [hzero] using .claim hs hzero
      · simpa [hzero] using .claimFail hs hzero
  | enqueue =>
      simp only [State.runSched, hs, Option.some.injEq] at h
      subst h
      exact .enqueue hs

omit [DecidableEq M] in
/-- The next operation of the `FutureYield` clause. -/
theorem does_of_runCatch (h : s.runCatch t = some s') :
    DoesCatch s t s' := by
  cases hc : s.catching t with
  | idle => simp [State.runCatch, hc] at h
  | rethrow g => simp [State.runCatch, hc] at h
  | snap g frames =>
      cases hsnap : s.snapshot with
      | none =>
          simp only [State.runCatch, hc, hsnap, Option.some.injEq] at h
          subst h
          exact .first hc hsnap
      | some existing =>
          simp only [State.runCatch, hc, hsnap, Option.some.injEq] at h
          subst h
          exact .again hc hsnap
  | readState g =>
      simp only [State.runCatch, hc, Option.some.injEq] at h
      subst h
      cases hpub : s.published g with
      | true => simpa [hpub] using .settled hc hpub
      | false => simpa [hpub] using .pending hc hpub
  | append g =>
      simp only [State.runCatch, hc, Option.some.injEq] at h
      subst h
      cases hdrained : s.drained g with
      | true => simpa [hdrained] using .drained hc hdrained
      | false => simpa [hdrained] using .parked hc hdrained

omit [DecidableEq M] in
/-- The next operation of `settleFuture`. -/
theorem does_of_runSettle (h : s.runSettle t = some s') :
    DoesSettle s t s' := by
  cases hs : s.settle t with
  | idle => simp [State.runSettle, hs] at h
  | claim f =>
      simp only [State.runSettle, hs, Option.some.injEq] at h
      subst h
      cases hclaimed : s.claimed f with
      | true => simpa [hclaimed] using .lose hs hclaimed
      | false => simpa [hclaimed] using .win hs hclaimed
  | fire f =>
      simp only [State.runSettle, hs, Option.some.injEq] at h
      subst h
      exact .fired hs
  | publish f =>
      simp only [State.runSettle, hs, Option.some.injEq] at h
      subst h
      exact .publish hs
  | drain f =>
      simp only [State.runSettle, hs, Option.some.injEq] at h
      subst h
      exact .drain hs
  | wake f n =>
      cases n with
      | zero =>
          simp only [State.runSettle, hs, Option.some.injEq] at h
          subst h
          exact .woken hs
      | succ n =>
          simp only [State.runSettle, hs, Option.some.injEq] at h
          subst h
          exact .wake hs

omit [DecidableEq M] [DecidableEq F] in
/-- The next operation of `finishDrain`. -/
theorem does_finish (s : State T M F) (t : T) (susp : Bool) (fin : Fin) :
    DoesFinish s t susp fin (s.runFinish t susp fin) := by
  cases fin with
  | read =>
      by_cases h : s.flag = 2
      · simpa [State.runFinish, h] using .marked h
      · simpa [State.runFinish, h] using .unmarked h
  | casTwoOne =>
      by_cases h : s.flag = 2
      · simpa [State.runFinish, h] using .consume h
      · simpa [State.runFinish, h] using .consumeFail h
  | hasTail released =>
      by_cases h : s.pending = []
      · simpa [State.runFinish, h] using .noTail h
      · cases released with
        | false => simpa [State.runFinish, h] using .tail h
        | true => simpa [State.runFinish, h] using .tailReleased h
  | hasQueue released =>
      by_cases h : s.queue = []
      · cases released with
        | true => simpa [State.runFinish, h] using .empty h
        | false =>
            cases susp with
            | true => simpa [State.runFinish, h] using .work (.inr rfl)
            | false => simpa [State.runFinish, h] using .stale h rfl
      · cases released with
        | true => simpa [State.runFinish, h] using .workReleased h
        | false => simpa [State.runFinish, h] using .work (.inl h)
  | casStale =>
      by_cases h : s.flag = 1
      · simpa [State.runFinish, h] using .releaseStale h
      · simpa [State.runFinish, h] using .staleFail h
  | casRelease =>
      by_cases h : s.flag = 1
      · cases susp with
        | true => simpa [State.runFinish, h] using .releaseSuspended h rfl
        | false => simpa [State.runFinish, h] using .release h rfl
      · simpa [State.runFinish, h] using .releaseFail h
  | casReclaim =>
      by_cases h : s.flag = 0
      · simpa [State.runFinish, h] using .reclaim h
      · simpa [State.runFinish, h] using .reclaimFail h
  | enqueue => exact .requeue

omit [DecidableEq F] in
/-- The beginning of `drainOne`. -/
theorem does_popped (ht : s.turn t = .popped) :
    DoesTurn fut s t (s.runPopped t) := by
  unfold State.runPopped
  cases hsnap : s.snapshot with
  | none => exact .fresh ht hsnap
  | some frames =>
      cases hwait : s.waitingOn with
      | none => exact .resume ht hsnap (by simp [hwait])
      | some g =>
          cases hpub : s.published g with
          | false => simpa [hpub] using .defer ht hsnap hwait hpub
          | true => simpa [hpub] using .resume ht hsnap (by simp [hwait, hpub])

omit [DecidableEq F] in
/-- The cursor, when the batch is used up. -/
theorem does_cursor {c : Cursor M} (ht : s.turn t = .next c)
    (hbatch : c.batch = []) : DoesTurn fut s t (s.runCursor t c) := by
  obtain ⟨batch, loaded, dirty⟩ := c
  unfold State.runCursor
  cases loaded with
  | true =>
      by_cases hqueue : s.queue = []
      · simpa [hqueue] using .done ht hbatch rfl hqueue
      · simpa [hqueue] using .takeAll ht hbatch rfl hqueue
  | false =>
      by_cases hpending : s.pending = []
      · simpa [hpending] using .noTail ht hbatch rfl hpending
      · simpa [hpending] using .tail ht hbatch rfl hpending

omit [DecidableEq F] in
/-- The next operation of `drainOne`. -/
theorem does_of_runTurn (h : s.runTurn fut t = some s') :
    DoesTurn fut s t s' := by
  unfold State.runTurn at h
  cases ht : s.turn t with
  | idle => simp [ht] at h
  | body mode => simp [ht] at h
  | popped =>
      simp only [ht, Option.some.injEq] at h
      subst h
      exact does_popped ht
  | next c =>
      simp only [ht] at h
      split at h
      · rename_i hbatch
        obtain rfl := Option.some.inj h
        exact does_cursor ht hbatch
      · cases h
  | settling current c =>
      simp only [ht, Option.some.injEq] at h
      subst h
      exact .settled ht
  | yielded mode g =>
      simp only [ht, Option.some.injEq] at h
      subst h
      cases mode with
      | method m c => exact .yielded ht (.inl rfl)
      | primitive m c => exact .yielded ht (.inr rfl)
      | resumed frames future who => exact .reyielded ht
  | spill c susp =>
      simp only [ht, Option.some.injEq] at h
      subst h
      exact .spill ht
  | finish susp fin =>
      simp only [ht, Option.some.injEq] at h
      subst h
      exact .finish ht (does_finish s t susp fin)

/-- The next operation of a thread. -/
theorem does_of_run (h : s.run fut t = some s') :
    Does fut s (.run t) s' := by
  unfold State.run at h
  split at h
  · exact .sched (does_of_runSched h)
  · rename_i hsched
    split at h
    · exact .catching (not_not.mp hsched) (does_of_runCatch h)
    · rename_i hcatch
      split at h
      · exact .settle (not_not.mp hsched) (not_not.mp hcatch)
          (does_of_runSettle h)
      · rename_i hsettle
        exact .turn (not_not.mp hsched) (not_not.mp hcatch)
          (not_not.mp hsettle) (does_of_runTurn h)

omit [DecidableEq T] in
theorem free_iff :
    s.free t = true ↔ s.sched t = .idle ∧ s.catching t = .idle := by
  simp [State.free]

/-- `drainOne` takes a message. -/
theorem does_take {m : M} {rest : List M} {loaded dirty : Bool}
    (shape : Shape) (hsched : s.sched t = .idle) (hcatch : s.catching t = .idle)
    (hsettle : s.settle t = .idle)
    (ht : s.turn t = .next ⟨m :: rest, loaded, dirty⟩) :
    Does fut s (.start t shape) (s.take fut t m ⟨rest, loaded, dirty⟩ shape) := by
  cases shape with
  | invalidSelector => exact .startFailed hsched hcatch hsettle ht
  | notUnderstood => exact .startFailed hsched hcatch hsettle ht
  | method => exact .start hsched hcatch hsettle ht (.inl rfl)
  | primitive => exact .start hsched hcatch hsettle ht (.inr rfl)

/-- A body ends. -/
theorem does_leave {mode : Mode M F} (unwound : Bool)
    (hsched : s.sched t = .idle) (hcatch : s.catching t = .idle)
    (hsettle : s.settle t = .idle) (ht : s.turn t = .body mode) :
    Does fut s (.leave t unwound) (s.leaveBody fut t unwound mode) := by
  cases mode with
  | method m c => exact .leave hsched hcatch hsettle ht (.inl rfl)
  | primitive m c => exact .leave hsched hcatch hsettle ht (.inr rfl)
  | resumed frames future who => exact .leaveResumed hsched hcatch hsettle ht

/-- **The cases of a step.** -/
theorem does_of_step {act : Action T M F} (h : s.step fut act = some s') :
    Does fut s act s' := by
  cases act with
  | run t => exact does_of_run h
  | send t m =>
      obtain ⟨hif, rfl⟩ := guarded h
      obtain ⟨hsched, hcatch⟩ := free_iff.mp hif.1
      exact .send hsched hcatch hif.2
  | settleBy t f =>
      obtain ⟨hif, rfl⟩ := guarded h
      obtain ⟨hsched, hcatch⟩ := free_iff.mp hif.1
      exact .settleBy hsched hcatch hif.2.1 hif.2.2
  | wait t g keep =>
      simp only [State.step] at h
      split at h
      · rename_i hif
        obtain ⟨hsched, hcatch⟩ := free_iff.mp hif.1
        split at h
        · rename_i hsettle ht
          obtain rfl := Option.some.inj h
          exact .wait hsched hcatch hsettle ht hif.2
        · rename_i hsettle
          split at h
          · rename_i hbare
            obtain rfl := Option.some.inj h
            exact .waitCallback hsched hcatch hsettle hbare hif.2
          · cases h
        · cases h
      · cases h
  | bareYield t g =>
      simp only [State.step] at h
      split at h
      · rename_i hif
        obtain ⟨hsched, hcatch⟩ := free_iff.mp hif.1
        split at h
        · rename_i ht
          obtain rfl := Option.some.inj h
          exact .bareYield hsched hcatch hif.2.1 ht hif.2.2
        · cases h
      · cases h
  | help t g =>
      obtain ⟨hif, rfl⟩ := guarded h
      obtain ⟨hsched, hcatch⟩ := free_iff.mp hif.1
      exact .help hsched hcatch hif.2
  | helped t =>
      obtain ⟨hif, rfl⟩ := guarded h
      obtain ⟨hsched, hcatch⟩ := free_iff.mp hif.1
      exact .helped hsched hcatch hif.2
  | pop t =>
      obtain ⟨hif, rfl⟩ := guarded h
      obtain ⟨hsched, hcatch⟩ := free_iff.mp hif.1
      exact .pop hsched hcatch hif.2.1 hif.2.2.1 hif.2.2.2
  | start t shape =>
      simp only [State.step] at h
      split at h
      · rename_i hif
        obtain ⟨hsched, hcatch⟩ := free_iff.mp hif.1
        split at h
        · rename_i ht
          obtain rfl := Option.some.inj h
          exact does_take shape hsched hcatch hif.2 ht
        · cases h
      · cases h
  | leave t unwound =>
      simp only [State.step] at h
      split at h
      · rename_i hif
        obtain ⟨hsched, hcatch⟩ := free_iff.mp hif.1
        split at h
        · rename_i ht
          obtain rfl := Option.some.inj h
          exact does_leave unwound hsched hcatch hif.2 ht
        · cases h
      · cases h
  | deliver t =>
      simp only [State.step] at h
      split at h
      · rename_i hif
        split at h
        · rename_i hcatch ht
          obtain rfl := Option.some.inj h
          exact .deliver hif.1 hcatch hif.2 ht
        · cases h
      · cases h
  | swallow t =>
      simp only [State.step] at h
      split at h
      · rename_i hif
        split at h
        · rename_i hcatch
          obtain rfl := Option.some.inj h
          exact .swallow hif.1 hcatch hif.2
        · cases h
      · cases h

end Cases

end ProtoST.Runtime.ActorTurn

import ProtoST.Lib.Transition

/-!
# Settling a future

The model of the lock-free future of `primitives/future_prims.cpp`: one future,
any number of calls on it (`settleFuture`, `thenDo:`, `catch:`,
`appendFutureWaiter`), one atomic attribute operation to a step.

A future is a claim flag, a published state, a value, an error and three lists.
Each list is absent at first, grows by compare-and-swap, and is *drained* once:
the settler swaps it for the terminal sentinel `PROTO_NONE`.  `thenDo:` and
`catch:` are one algorithm at two outcomes, and `appendOrDrained` is one loop at
the three lists, so the program points carry the `Outcome` and the `Job` they
work for.

A call is named by a number and runs once; a callback that calls the future
again is a call of its own.  Whatever a callback does, it does between the
`firing` and the `calling` points.  The components `calls`, `winner`,
`invocations`, `returned` and `scheduled` record what happened and are read by
no step.
-/

namespace ProtoST.Primitives.FutureSettle

open ProtoST.Lib

/-! ## Attributes -/

/-- The two ways to settle: `reject == false` and `reject == true`. -/
inductive Outcome where
  | resolved
  | rejected
  deriving DecidableEq, Repr

namespace Outcome

/-- What `__state__` is set to; 0 is pending. -/
def code : Outcome → Nat
  | resolved => 1
  | rejected => 2

def other : Outcome → Outcome
  | resolved => rejected
  | rejected => resolved

end Outcome

/-- The list attributes `__then_cbs__`, `__catch_cbs__` and `__waiters__`. -/
inductive Key where
  | thenCbs
  | catchCbs
  | waiters
  deriving DecidableEq, Repr

/-- The callbacks an outcome fires. -/
def Outcome.cbsKey : Outcome → Key
  | .resolved => .thenCbs
  | .rejected => .catchCbs

/-- An item of a list, with the number of the call that appended it. -/
structure Entry (V : Type) where
  id : Nat
  item : V
  deriving DecidableEq, Repr

/-- A list attribute: absent, a `ProtoList`, or `PROTO_NONE`. -/
inductive Slot (V : Type) where
  | absent
  | list (entries : List (Entry V))
  | drained
  deriving DecidableEq, Repr

/-- The entries of a list attribute. -/
def Slot.entries {V : Type} : Slot V → List (Entry V)
  | .list l => l
  | _ => []

/-! ## Calls and program points -/

/-- What `appendOrDrained` is run for: a callback of an outcome, or a waiting
actor. -/
inductive Job (V : Type) where
  | callback (o : Outcome) (block : V)
  | waiter (actor : V)
  deriving DecidableEq, Repr

namespace Job

variable {V : Type}

def key : Job V → Key
  | callback o _ => o.cbsKey
  | waiter _ => .waiters

def item : Job V → V
  | callback _ block => block
  | waiter actor => actor

end Job

/-- A call on the future.  A payload `none` is a null pointer or `nil`, which
`settleFuture` treats alike. -/
inductive Op (V : Type) where
  | settle (o : Outcome) (payload : Option V)
  | register (job : Job V)
  deriving DecidableEq, Repr

namespace Op

variable {V : Type}

/-- `Future>>resolve:`, and the settlement of a message that returned. -/
def resolve (value : Option V) : Op V := .settle .resolved value

/-- `Future>>thenDo:`. -/
def thenDo (block : V) : Op V := .register (.callback .resolved block)

end Op

/-- How a call ended. -/
inductive Ret (V : Type) where
  /-- `settleFuture` won the claim and ran to its end. -/
  | settled (o : Outcome) (payload : Option V)
  /-- `settleFuture` lost the claim. -/
  | lost
  /-- `thenDo:`/`catch:` appended its block. -/
  | appended
  /-- `thenDo:`/`catch:` ran its block itself. -/
  | fired
  /-- `thenDo:`/`catch:` found the future settled the other way. -/
  | skipped
  /-- `appendFutureWaiter` answered this. -/
  | parked (b : Bool)
  deriving DecidableEq, Repr

/-- The two lists a settlement drains. -/
inductive Stage where
  | callbacks
  | waiters
  deriving DecidableEq, Repr

def Stage.key : Stage → Outcome → Key
  | .callbacks, o => o.cbsKey
  | .waiters, _ => .waiters

/-- Where a call is, with the locals it holds there. -/
inductive Pc (V : Type) where
  | idle
  -- `settleFuture`
  | claim (o : Outcome) (payload : Option V)
  | writeResult (o : Outcome) (payload : Option V)
  | drainRead (o : Outcome) (payload : Option V) (stage : Stage)
  | drainCas (o : Outcome) (payload : Option V) (stage : Stage) (cur : Slot V)
  | fire (o : Outcome) (payload : Option V) (todo : List (Entry V))
  | firing (o : Outcome) (payload : Option V) (e : Entry V)
      (todo : List (Entry V))
  | publish (o : Outcome) (payload : Option V)
  | notify (o : Outcome) (payload : Option V)
  | schedule (o : Outcome) (payload : Option V) (todo : List (Entry V))
  -- `prim_Future_thenDo`, `prim_Future_catch`, `appendFutureWaiter`
  | readState (job : Job V)
  | appendRead (job : Job V)
  | appendCas (job : Job V) (cur : Slot V)
  | readResult (o : Outcome) (block : V)
  | call (o : Outcome) (block : V) (arg : Option V)
  | calling (o : Outcome) (block : V)
  | ret (r : Ret V)
  deriving DecidableEq, Repr

/-- A block invoked: for which call, on which outcome, with which argument. -/
structure Invocation (V : Type) where
  id : Nat
  outcome : Outcome
  arg : Option V
  deriving DecidableEq, Repr

/-- The settlement that won the claim. -/
@[ext] structure Winner (V : Type) where
  id : Nat
  outcome : Outcome
  payload : Option V
  deriving DecidableEq, Repr

/-- The future's attributes, the calls on it and the record of what happened. -/
structure State (V : Type) where
  /-- `__settling__`: absent or `PROTO_TRUE`. -/
  settling : Bool
  /-- `__state__`. -/
  state : Nat
  /-- `__value__` and `__error__`: absent, or an object or nil. -/
  result : Outcome → Option (Option V)
  list : Key → Slot V
  pc : Nat → Pc V
  calls : Nat → Option (Op V)
  winner : Option (Winner V)
  invocations : List (Invocation V)
  returned : List Nat
  scheduled : List Nat

/-- A future as `newFuture` makes it: only `__state__` is an own attribute. -/
def initial {V : Type} : State V where
  settling := false
  state := 0
  result := fun _ => none
  list := fun _ => .absent
  pc := fun _ => .idle
  calls := fun _ => none
  winner := none
  invocations := []
  returned := []
  scheduled := []

/-! ## Steps -/

/-- A call begins, or a call performs its next atomic operation. -/
inductive Action (V : Type) where
  | begin (i : Nat) (op : Op V)
  | run (i : Nat)
  deriving DecidableEq, Repr

namespace State

variable {V : Type}

def goto (s : State V) (i : Nat) (pc : Pc V) : State V :=
  { s with pc := Function.update s.pc i pc }

def setList (s : State V) (k : Key) (slot : Slot V) : State V :=
  { s with list := Function.update s.list k slot }

end State

/-- `drainList` answered `l`: fire the callbacks, or schedule the waiters. -/
def Stage.use {V : Type} (stage : Stage) (o : Outcome) (payload : Option V)
    (l : List (Entry V)) : Pc V :=
  match stage with
  | .callbacks => .fire o payload l
  | .waiters => .schedule o payload l

/-- A registrant read `st` from `__state__`. -/
def Job.onState {V : Type} (job : Job V) (st : Nat) : Pc V :=
  match job with
  | .callback o block =>
      if st = o.other.code then .ret .skipped
      else if st = o.code then .readResult o block
      else .appendRead job
  | .waiter _ => if st ≠ 0 then .ret (.parked false) else .appendRead job

/-- `appendOrDrained` answered true. -/
def Job.onAppended {V : Type} : Job V → Pc V
  | .callback _ _ => .ret .appended
  | .waiter _ => .ret (.parked true)

/-- `appendOrDrained` answered false. -/
def Job.onDrained {V : Type} : Job V → Pc V
  | .callback o block => .readResult o block
  | .waiter _ => .ret (.parked false)

/-- Where a call starts. -/
def Op.entry {V : Type} : Op V → Pc V
  | .settle o payload => .claim o payload
  | .register job => .readState job

namespace State

variable {V : Type} [DecidableEq V]

/-- The next atomic operation of call `i`. -/
def runThread (s : State V) (i : Nat) : Option (State V) :=
  match s.pc i with
  | .idle => none
  | .claim o payload =>
      some <| if s.settling then s.goto i (.ret .lost) else
        { s.goto i (.writeResult o payload) with
          settling := true, winner := some ⟨i, o, payload⟩ }
  | .writeResult o payload =>
      some { s.goto i (.drainRead o payload .callbacks) with
        result := Function.update s.result o (some payload) }
  | .drainRead o payload stage =>
      some <| s.goto i <|
        if s.list (stage.key o) = .drained then stage.use o payload []
        else .drainCas o payload stage (s.list (stage.key o))
  | .drainCas o payload stage cur =>
      some <| if s.list (stage.key o) = cur then
        (s.setList (stage.key o) .drained).goto i
          (stage.use o payload cur.entries)
      else s.goto i (.drainRead o payload stage)
  | .fire o payload [] => some (s.goto i (.publish o payload))
  | .fire o payload (e :: todo) =>
      some { s.goto i (.firing o payload e todo) with
        invocations := s.invocations ++ [⟨e.id, o, payload⟩] }
  | .firing o payload e todo =>
      some { s.goto i (.fire o payload todo) with
        returned := s.returned ++ [e.id] }
  | .publish o payload =>
      some { s.goto i (.notify o payload) with state := o.code }
  | .notify o payload => some (s.goto i (.drainRead o payload .waiters))
  | .schedule o payload [] => some (s.goto i (.ret (.settled o payload)))
  | .schedule o payload (e :: todo) =>
      some { s.goto i (.schedule o payload todo) with
        scheduled := s.scheduled ++ [e.id] }
  | .readState job => some (s.goto i (job.onState s.state))
  | .appendRead job =>
      some <| s.goto i <|
        if s.list job.key = .drained then job.onDrained
        else .appendCas job (s.list job.key)
  | .appendCas job cur =>
      some <| if s.list job.key = cur then
        (s.setList job.key (.list (cur.entries ++ [⟨i, job.item⟩]))).goto i
          job.onAppended
      else s.goto i (.appendRead job)
  | .readResult o block =>
      some (s.goto i (.call o block ((s.result o).getD none)))
  | .call o block arg =>
      some { s.goto i (.calling o block) with
        invocations := s.invocations ++ [⟨i, o, arg⟩] }
  | .calling _ _ =>
      some { s.goto i (.ret .fired) with returned := s.returned ++ [i] }
  | .ret _ => none

/-- One action. -/
def step (s : State V) : Action V → Option (State V)
  | .begin i op =>
      if s.pc i = .idle then
        some { s.goto i op.entry with
          calls := Function.update s.calls i (some op) }
      else none
  | .run i => s.runThread i

end State

/-- The future with all calls on it. -/
def machine (V : Type) [DecidableEq V] : Machine (State V) (Action V) where
  init s := s = initial
  step := State.step

/-! ## How far the settlement is -/

namespace Pc

variable {V : Type}

/-- The claim a program point holds. -/
def settles : Pc V → Option (Outcome × Option V)
  | writeResult o p | drainRead o p _ | drainCas o p _ _ | fire o p _
  | firing o p _ _ | publish o p | notify o p | schedule o p _
  | ret (.settled o p) => some (o, p)
  | _ => none

/-- How far a settlement is: 2 from the result on, 3 from the callbacks' drain,
5 from the publication and 7 from the waiters' drain. -/
def phase : Pc V → Nat
  | writeResult .. => 1
  | drainRead _ _ .callbacks | drainCas _ _ .callbacks _ => 2
  | fire .. | firing .. => 3
  | publish .. => 4
  | notify .. => 5
  | drainRead _ _ .waiters | drainCas _ _ .waiters _ => 6
  | schedule .. => 7
  | ret (.settled ..) => 8
  | _ => 0

/-- Callbacks drained and not yet invoked. -/
def toFire : Pc V → List (Entry V)
  | fire _ _ l | firing _ _ _ l => l
  | _ => []

/-- The callback running. -/
def running : Pc V → List (Entry V)
  | firing _ _ e _ => [e]
  | _ => []

/-- Waiters drained and not yet scheduled. -/
def toWake : Pc V → List (Entry V)
  | schedule _ _ l => l
  | _ => []

/-- The number of times a registration's block is to be invoked, as far as its
own call went. -/
def placed : Pc V → Nat
  | ret .appended | calling .. | ret .fired => 1
  | _ => 0

/-- Whether the call is running its own block. -/
def self : Pc V → Nat
  | calling .. => 1
  | _ => 0

/-- Whether the call parked its actor. -/
def parked : Pc V → Nat
  | ret (.parked true) => 1
  | _ => 0

end Pc

namespace State

variable {V : Type}

/-- How far the future's settlement is. -/
def phase (s : State V) : Nat :=
  match s.winner with
  | none => 0
  | some w => (s.pc w.id).phase

/-- What the winning settlement holds. -/
def held (s : State V) (f : Pc V → List (Entry V)) : List (Entry V) :=
  match s.winner with
  | none => []
  | some w => f (s.pc w.id)

/-- How often registration `i` was invoked. -/
def invoked (s : State V) (i : Nat) : Nat :=
  (s.invocations.map (·.id)).count i

/-- How often registration `i` is listed at `k`. -/
def listed (s : State V) (k : Key) (i : Nat) : Nat :=
  ((s.list k).entries.map (·.id)).count i

/-- How often the winning settlement holds registration `i`. -/
def holds (s : State V) (f : Pc V → List (Entry V)) (i : Nat) : Nat :=
  ((s.held f).map (·.id)).count i

end State

end ProtoST.Primitives.FutureSettle

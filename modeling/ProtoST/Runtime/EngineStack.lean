import ProtoST.Lib.Transition

/-!
# The engines of a thread

An `ExecutionEngine` runs compiled code on a stack of frames.  A primitive that
evaluates a block runs it in an engine of its own, so the engines live on a thread
(`g_liveEngines`) form a stack too, with the C++ frames of a primitive between two
neighbours.  All of them pack the regions of their frames into the one slot array of
the thread, which `slotCursor` hands out.

`step` over-approximates what the threads do: an instruction may change its frame in
any way that keeps the frame's place, a send may call any method, and a primitive may
run any number of blocks before it answers.  What `^` does is not approximated
(`NonLocalReturn`): the machine is there to say which stacks of engines there are.

## Main definitions

* `Frame`, `Engine`, `Thread` — the stacks, innermost first.
* `popDownTo` — the unwinding of one engine to an activation.
* `machine` — the threads, the frames of suspended actors, and the frame ids.
-/

namespace ProtoST.Runtime.EngineStack

/-! ## Frames -/

/-- Slots at the start of a frame region: the captured dict and `self`. -/
def kHeaderSlots : Nat := 2

/-- Frame regions start above the transient pins. -/
def kFrameRegionBase : Nat := 256

/-- `ExecutionEngine::Frame`. -/
structure Frame where
  /-- Where the region of the frame starts. -/
  baseSlot : Nat
  localCount : Nat
  maxStack : Nat
  /-- The depth of the operand stack. -/
  sp : Nat
  frameId : Nat
  homeFrameId : Nat
  deriving DecidableEq, Repr

namespace Frame

/-- `frameRegionSize`. -/
def regionSize (f : Frame) : Nat := kHeaderSlots + f.localCount + f.maxStack

/-- Where the region of the frame ends. -/
def regionEnd (f : Frame) : Nat := f.baseSlot + f.regionSize

/-- `opStackBase`. -/
def opStackBase (f : Frame) : Nat := f.baseSlot + kHeaderSlots + f.localCount

/-- The frame with one more operand. -/
def pushed (f : Frame) : Frame := { f with sp := f.sp + 1 }

/-- The frame of a block that returns from another activation. -/
def IsBlock (f : Frame) : Prop := f.homeFrameId ≠ f.frameId

instance (f : Frame) : Decidable f.IsBlock := inferInstanceAs (Decidable (_ ≠ _))

end Frame

/-- Pops frames down to and including the one with the id `home`: that frame, and
the ones below it. -/
def popDownTo {F : Type} (frameId : F → Nat) (home : Nat) : List F → Option (F × List F)
  | [] => none
  | f :: below => if frameId f = home then some (f, below) else popDownTo frameId home below

/-! ## Engines and threads -/

/-- The C++ code that runs an engine, by what it does with a `NonLocalReturn` that
leaves the engine. -/
inductive Native
  /-- `do:`, `value`, `perform:` and the like let it pass
  (`translateNativeException`). -/
  | plain
  /-- `on:do:` takes its handlers off the handler stack and lets it pass. -/
  | guarded (handlerIds : List Nat)
  /-- `ensure:` and `ifCurtailed:` run their cleanup block, then let it pass. -/
  | cleanup
  /-- `thenDo:` and `catch:` callbacks report it. -/
  | callback
  /-- `drainOne` rejects the future of the message. -/
  | turn
  /-- A send or an import from another runtime reports it. -/
  | foreign
  /-- `runTopLevel` reports it. -/
  | topLevel
  /-- `defaultActionMessage` drops it and takes the stored text for what
  `messageText` did not answer. -/
  | messageText
  /-- `formatValue` drops it and takes the built-in form for what `displayString` did
  not answer. -/
  | displayString
  /-- The debugger reports that its expression has no value. -/
  | evaluation
  deriving DecidableEq, Repr

/-- Does the return end here? -/
def Native.stops : Native → Bool
  | .plain | .guarded _ | .cleanup => false
  | .callback | .turn | .foreign | .topLevel | .messageText | .displayString
  | .evaluation => true

/-- The handlers the code pushed for this engine. -/
def Native.handlerIds : Native → List Nat
  | .guarded ids => ids
  | .plain | .cleanup | .callback | .turn | .foreign | .topLevel | .messageText
  | .displayString | .evaluation => []

/-- One engine: its frames, innermost first, and the code that runs it. -/
structure Engine where
  frames : List Frame
  /-- The slot cursor when the engine started. -/
  slotBase : Nat
  native : Native
  /-- A primitive called by the innermost frame is running. -/
  calling : Bool
  deriving DecidableEq, Repr

variable (V : Type)

/-- What one thread has: `none` in a slot is `PROTO_NONE`. -/
structure Thread where
  /-- `g_liveEngines`, innermost first. -/
  engines : List Engine
  /-- `g_slotCursor`. -/
  slotCursor : Nat
  slots : Nat → Option V
  /-- The active `on:do:` handlers, innermost first. -/
  handlers : List Nat

variable {V}

namespace Thread

/-- The operand stack of a frame, bottom first. -/
def operands (t : Thread V) (f : Frame) : List (Option V) :=
  (List.range f.sp).map fun i => t.slots (f.opStackBase + i)

/-- The top of the operand stack of a frame, `PROTO_NONE` when it is empty. -/
def peek (t : Thread V) (f : Frame) : Option V :=
  if f.sp = 0 then none else t.slots (f.opStackBase + (f.sp - 1))

/-- `homeFrameAlive`. -/
def homeFrameAlive (t : Thread V) (frameId : Nat) : Bool :=
  frameId != 0 && t.engines.any fun e => e.frames.any fun f => f.frameId == frameId

/-- The ids of the live frames. -/
def frameIds (t : Thread V) : List Nat :=
  t.engines.flatMap fun e => e.frames.map Frame.frameId

/-- The innermost engine is left: its destructor runs, and the guard rewinds the slot
cursor.  The primitive that ran it goes on. -/
def leave (t : Thread V) (e : Engine) (outer : List Engine) : Thread V :=
  { t with
    engines := outer
    slotCursor := e.slotBase
    handlers := t.handlers.filter (· ∉ e.native.handlerIds) }

/-- The frames of the innermost engine become `callers`, whose first one gets `v`:
`none` when its operand stack is full. -/
def pushOn (t : Thread V) (e : Engine) (outer : List Engine) (cursor : Nat)
    (caller : Frame) (callers : List Frame) (v : Option V) : Option (Thread V) :=
  if caller.sp < caller.maxStack then
    some { t with
      engines := { e with frames := caller.pushed :: callers, calling := false } :: outer
      slotCursor := cursor
      slots := Function.update t.slots (caller.opStackBase + caller.sp) v }
  else none

/-- Starts an engine whose first frame is `f`. -/
def runEngine (t : Thread V) (native : Native) (frames : List Frame) (cursor : Nat) :
    Thread V :=
  { t with
    engines := ⟨frames, t.slotCursor, native, false⟩ :: t.engines
    slotCursor := cursor
    handlers := native.handlerIds ++ t.handlers }

end Thread

/-- What a call asks for: the geometry of the callee and the home its block carries,
`0` for a method. -/
structure Callee where
  localCount : Nat
  maxStack : Nat
  home : Nat
  deriving DecidableEq, Repr

/-- The frame `pushFrame` makes. -/
def Callee.frame (c : Callee) (cursor frameId : Nat) : Frame :=
  { baseSlot := cursor
    localCount := c.localCount
    maxStack := c.maxStack
    sp := 0
    frameId := frameId
    homeFrameId := if c.home = 0 then frameId else c.home }

/-- The frames of a snapshot, packed from `cursor` on, outermost last: what
`restoreFrames` builds, with the cursor after it. -/
def restoreFrames : List Frame → Nat → List Frame × Nat
  | [], cursor => ([], cursor)
  | f :: below, cursor =>
      let rest := restoreFrames below cursor
      let placed : Frame := { f with baseSlot := rest.2 }
      (placed :: rest.1, placed.regionEnd)

/-! ## The machine -/

/-- The threads, the frames of suspended actors, and the next frame id. -/
structure State (T V : Type) where
  thread : T → Thread V
  /-- Snapshots not yet restored. -/
  suspended : List (List Frame)
  /-- `nextFrameId()` answers this. -/
  nextFrameId : Nat

/-- What a thread can do next. -/
inductive Action (T V : Type)
  /-- A thread that runs no engine, or whose primitive is running, starts one. -/
  | run (t : T) (native : Native) (callee : Callee)
  /-- An instruction changes the depth of its frame's operand stack. -/
  | advance (t : T) (sp : Nat)
  /-- An instruction writes a slot of its frame. -/
  | store (t : T) (slot : Nat) (v : Option V)
  /-- A send of `argc` arguments pushes a frame. -/
  | call (t : T) (argc : Nat) (callee : Callee)
  /-- A send of `argc` arguments calls a primitive. -/
  | enter (t : T) (argc : Nat)
  /-- The primitive answers. -/
  | answer (t : T) (v : Option V)
  /-- `RETURN_TOP`, or `RETURN` in a frame that is its own home. -/
  | localReturn (t : T) (v : Option V)
  /-- The innermost engine unwinds to its activation `home`: a non-local return. -/
  | land (t : T) (home : Nat) (v : Option V)
  /-- A C++ exception leaves the innermost engine. -/
  | raise (t : T)
  /-- `Future>>wait` suspends the actor that the only engine runs. -/
  | yield (t : T)
  /-- A turn restores a snapshot and gives `wait` its answer. -/
  | resume (t : T) (snapshot : List Frame) (v : Option V)

/-- The thread runs nothing, or a primitive. -/
def Thread.InNative (t : Thread V) : Bool :=
  match t.engines with
  | [] => true
  | e :: _ => e.calling

variable {T : Type} [DecidableEq T]

namespace State

/-- Replaces the thread `t`. -/
def set (s : State T V) (t : T) (th : Thread V) : State T V :=
  { s with thread := Function.update s.thread t th }

/-- Pops the innermost frames of the innermost engine down to `home`, and hands `v`
to the caller; an engine without frames is left. -/
def land (s : State T V) (t : T) (e : Engine) (outer : List Engine) (home : Nat)
    (v : Option V) : Option (State T V) :=
  match popDownTo Frame.frameId home e.frames with
  | none => none
  | some (_, []) => some (s.set t ((s.thread t).leave e outer))
  | some (h, caller :: callers) =>
      ((s.thread t).pushOn e outer h.baseSlot caller callers v).map (s.set t)

/-- One action of one thread. -/
def step (s : State T V) : Action T V → Option (State T V)
  | .run t native callee =>
      if (s.thread t).InNative then
        let f := callee.frame (s.thread t).slotCursor s.nextFrameId
        some { (s.set t ((s.thread t).runEngine native [f] f.regionEnd)) with
          nextFrameId := s.nextFrameId + 1 }
      else none
  | .advance t sp =>
      match (s.thread t).engines with
      | ⟨f :: below, base, native, false⟩ :: outer =>
          if sp ≤ f.maxStack then
            some (s.set t { s.thread t with
              engines := ⟨{ f with sp := sp } :: below, base, native, false⟩ :: outer })
          else none
      | _ => none
  | .store t slot v =>
      match (s.thread t).engines with
      | ⟨f :: _, _, _, false⟩ :: _ =>
          if f.baseSlot ≤ slot ∧ slot < f.regionEnd then
            some (s.set t { s.thread t with
              slots := Function.update (s.thread t).slots slot v })
          else none
      | _ => none
  | .call t argc callee =>
      match (s.thread t).engines with
      | ⟨f :: below, base, native, false⟩ :: outer =>
          if argc + 1 ≤ f.sp then
            let g := callee.frame (s.thread t).slotCursor s.nextFrameId
            let frames := g :: { f with sp := f.sp - (argc + 1) } :: below
            some { (s.set t { s.thread t with
                engines := ⟨frames, base, native, false⟩ :: outer
                slotCursor := g.regionEnd }) with
              nextFrameId := s.nextFrameId + 1 }
          else none
      | _ => none
  | .enter t argc =>
      match (s.thread t).engines with
      | ⟨f :: below, base, native, false⟩ :: outer =>
          if argc + 1 ≤ f.sp then
            let frames := { f with sp := f.sp - (argc + 1) } :: below
            some (s.set t { s.thread t with
              engines := ⟨frames, base, native, true⟩ :: outer })
          else none
      | _ => none
  | .answer t v =>
      match (s.thread t).engines with
      | ⟨f :: below, base, native, true⟩ :: outer =>
          ((s.thread t).pushOn ⟨f :: below, base, native, true⟩ outer
            (s.thread t).slotCursor f below v).map (s.set t)
      | _ => none
  | .localReturn t v =>
      match (s.thread t).engines with
      | ⟨f :: below, base, native, false⟩ :: outer =>
          s.land t ⟨f :: below, base, native, false⟩ outer f.frameId v
      | _ => none
  | .land t home v =>
      match (s.thread t).engines with
      | e :: outer => s.land t e outer home v
      | [] => none
  | .raise t =>
      match (s.thread t).engines with
      | e :: outer => some (s.set t ((s.thread t).leave e outer))
      | [] => none
  | .yield t =>
      match (s.thread t).engines with
      | [⟨frames, base, native, true⟩] =>
          some { (s.set t ((s.thread t).leave ⟨frames, base, native, true⟩ [])) with
            suspended := frames :: s.suspended }
      | _ => none
  | .resume t snapshot v =>
      if (s.thread t).InNative ∧ snapshot ∈ s.suspended then
        match restoreFrames snapshot (s.thread t).slotCursor with
        | (f :: below, cursor) =>
            let th := (s.thread t).runEngine .turn (f :: below) cursor
            (th.pushOn ⟨f :: below, (s.thread t).slotCursor, .turn, false⟩
                (s.thread t).engines cursor f below v).map fun th' =>
              { (s.set t th') with suspended := s.suspended.erase snapshot }
        | ([], _) => none
      else none

end State

/-- No engine runs, nothing is suspended, and no frame id was given out. -/
def machine : Lib.Machine (State T V) (Action T V) where
  init s :=
    s.suspended = [] ∧ 0 < s.nextFrameId ∧
      ∀ t, (s.thread t).engines = [] ∧ (s.thread t).slotCursor = kFrameRegionBase
  step := State.step

/-! ## `RETURN` -/

/-- Where a return ends. -/
inductive Outcome (T V : Type)
  /-- The innermost engine goes on with its innermost frame. -/
  | continues (s : State T V)
  /-- The innermost engine ended: the code that ran it gets `v`. -/
  | answers (v : Option V) (s : State T V)
  /-- The code that ran the innermost engine stopped the return. -/
  | stopped (s : State T V)
  /-- `BlockCannotReturn` is signalled. -/
  | blockCannotReturn (s : State T V)

namespace State

/-- What a landing among `callers` leads to. -/
def landed (callers : List Frame) (v : Option V) (s : State T V) : Outcome T V :=
  match callers with
  | [] => .answers v s
  | _ :: _ => .continues s

/-- The thread `t` goes from `s` to `s'` without touching the engines `below`, which
it has in both. -/
inductive Runs (t : T) (below : List Engine) (s : State T V) : State T V → Prop
  | refl : Runs t below s s
  | tail {s' s'' : State T V} (a : Action T V) :
      Runs t below s s' → s'.step a = some s'' →
      below <:+ (s''.thread t).engines → Runs t below s s''

/-- `NonLocalReturn` on its way to `home`: the catch clauses of `runLoop` and of the
code between the engines. -/
inductive Unwinds (t : T) (home : Nat) (v : Option V) : State T V → Outcome T V → Prop
  | caught {s s' : State T V} {e : Engine} {outer : List Engine} {h : Frame}
      {callers : List Frame} :
      (s.thread t).engines = e :: outer → popDownTo Frame.frameId home e.frames =
        some (h, callers) →
      s.land t e outer home v = some s' → Unwinds t home v s (landed callers v s')
  | passes {s : State T V} {e : Engine} {outer : List Engine} {o : Outcome T V} :
      (s.thread t).engines = e :: outer → popDownTo Frame.frameId home e.frames = none →
      e.native.stops = false → e.native ≠ .cleanup →
      Unwinds t home v (s.set t ((s.thread t).leave e outer)) o → Unwinds t home v s o
  | cleansUp {s s' : State T V} {e : Engine} {outer : List Engine} {o : Outcome T V} :
      (s.thread t).engines = e :: outer → popDownTo Frame.frameId home e.frames = none →
      e.native = .cleanup → Runs t outer (s.set t ((s.thread t).leave e outer)) s' →
      (s'.thread t).engines = outer → Unwinds t home v s' o → Unwinds t home v s o
  | stops {s : State T V} {e : Engine} {outer : List Engine} :
      (s.thread t).engines = e :: outer → popDownTo Frame.frameId home e.frames = none →
      e.native.stops = true →
      Unwinds t home v s (.stopped (s.set t ((s.thread t).leave e outer)))

/-- What `RETURN` does in the frame `f` on top of the innermost engine. -/
inductive Returns (s : State T V) (t : T) (f : Frame) (v : Option V) :
    Outcome T V → Prop
  /-- The frame is its own home. -/
  | here {s' : State T V} {e : Engine} {outer : List Engine} {callers : List Frame} :
      f.homeFrameId = f.frameId → (s.thread t).engines = e :: outer →
      e.frames = f :: callers → s.land t e outer f.frameId v = some s' →
      Returns s t f v (landed callers v s')
  /-- The home is in this engine. -/
  | ours {s' : State T V} {e : Engine} {outer : List Engine} {h : Frame}
      {callers : List Frame} :
      f.IsBlock → (s.thread t).engines = e :: outer →
      popDownTo Frame.frameId f.homeFrameId e.frames = some (h, callers) →
      s.land t e outer f.homeFrameId v = some s' → Returns s t f v (landed callers v s')
  /-- `throw NonLocalReturn`. -/
  | throws {e : Engine} {outer : List Engine} {o : Outcome T V} :
      f.IsBlock → (s.thread t).engines = e :: outer →
      popDownTo Frame.frameId f.homeFrameId e.frames = none →
      (s.thread t).homeFrameAlive f.homeFrameId = true →
      Unwinds t f.homeFrameId v s o → Returns s t f v o
  /-- No engine has the home. -/
  | dead {e : Engine} {outer : List Engine} :
      f.IsBlock → (s.thread t).engines = e :: outer →
      popDownTo Frame.frameId f.homeFrameId e.frames = none →
      (s.thread t).homeFrameAlive f.homeFrameId = false →
      Returns s t f v (.blockCannotReturn s)

end State

end ProtoST.Runtime.EngineStack

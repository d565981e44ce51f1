import ProtoST.Runtime.Bytecode

/-!
# The instruction handlers

`handle` is the `switch` of `ExecutionEngine::runLoop`, jumps aside: what an
instruction does with the frame on top.  A handler only gets at its frame through
the accessors of the engine (`push`, `pop`, `getLocal`, …), so it is a `Script` of
them, which can run on a frame kept as lists and on a frame laid out in the slot
array.  Objects, their attributes and everything else behind the frame are the
business of a `Host`.

## Main definitions

* `Script`, `Script.run` — programs over one frame.
* `handle` — the handlers.
-/

namespace ProtoST.Runtime.Handlers

open ProtoST.Runtime.Bytecode

/-! ## Frames -/

/-- The instance-variable write group a frame is in the middle of: how many of its
writes are pending, where the first of their values is on the operand stack, and the
first entry of the group.  The engine reads these fields only while `ivGroupActive`
is set, so a frame without it has none. -/
structure WriteGroup where
  pending : Nat
  base : Nat
  first : Nat
  deriving DecidableEq, Repr

/-- What an activation has, wherever it is kept.  The operand stack is bottom
first. -/
structure Activation (V M : Type) where
  module : M
  pc : Nat
  locals : List V
  operands : List V
  maxStack : Nat
  self : V
  captured : V
  frameId : Nat
  homeFrameId : Nat
  group : Option WriteGroup

/-! ## Scripts -/

/-- A program over the frame on top, in the accessors of the engine.  `fault` is a
C++ exception, which leaves the engine. -/
inductive Script (V α : Type) where
  | done (a : α)
  | fault (text : String)
  | push (v : V) (k : Script V α)
  | pop (k : V → Script V α)
  | peek (k : V → Script V α)
  /-- `f.sp`. -/
  | depth (k : Nat → Script V α)
  /-- The operand at a position above the bottom. -/
  | operand (i : Nat) (k : V → Script V α)
  /-- `f.sp -= n`. -/
  | drop (n : Nat) (k : Script V α)
  | getLocal (slot : Nat) (k : V → Script V α)
  | setLocal (slot : Nat) (v : V) (k : Script V α)
  | getSelf (k : V → Script V α)
  | getCaptured (k : V → Script V α)
  | setCaptured (v : V) (k : Script V α)
  | homeFrameId (k : Nat → Script V α)
  | getGroup (k : Option WriteGroup → Script V α)
  | setGroup (g : Option WriteGroup) (k : Script V α)

section Run

variable {V M α : Type}

/-- Runs a script on a frame kept as lists. -/
@[grind =] def Script.run : Script V α → Activation V M → Except String (α × Activation V M)
  | .done a, f => .ok (a, f)
  | .fault text, _ => .error text
  | .push v k, f =>
    if f.operands.length < f.maxStack then k.run { f with operands := f.operands ++ [v] }
    else .error "operand stack overflow"
  | .pop k, f =>
    match f.operands.getLast? with
    | some v => (k v).run { f with operands := f.operands.dropLast }
    | none => .error "engine operand stack underflow"
  | .peek k, f =>
    match f.operands.getLast? with
    | some v => (k v).run f
    | none => .error "engine operand stack peek on empty"
  | .depth k, f => (k f.operands.length).run f
  | .operand i k, f =>
    match f.operands[i]? with
    | some v => (k v).run f
    | none => .error "engine operand stack underflow"
  | .drop n k, f => k.run { f with operands := f.operands.take (f.operands.length - n) }
  | .getLocal slot k, f =>
    match f.locals[slot]? with
    | some v => (k v).run f
    | none => .error "engine local slot out of range"
  | .setLocal slot v k, f =>
    if slot < f.locals.length then k.run { f with locals := f.locals.set slot v }
    else .error "engine local slot out of range"
  | .getSelf k, f => (k f.self).run f
  | .getCaptured k, f => (k f.captured).run f
  | .setCaptured v k, f => k.run { f with captured := v }
  | .homeFrameId k, f => (k f.homeFrameId).run f
  | .getGroup k, f => (k f.group).run f
  | .setGroup g k, f => k.run { f with group := g }

/-- A script whose result goes through `g`. -/
def Script.map {β : Type} (g : α → β) : Script V α → Script V β
  | .done a => .done (g a)
  | .fault text => .fault text
  | .push v k => .push v (k.map g)
  | .pop k => .pop fun v => (k v).map g
  | .peek k => .peek fun v => (k v).map g
  | .depth k => .depth fun n => (k n).map g
  | .operand i k => .operand i fun v => (k v).map g
  | .drop n k => .drop n (k.map g)
  | .getLocal slot k => .getLocal slot fun v => (k v).map g
  | .setLocal slot v k => .setLocal slot v (k.map g)
  | .getSelf k => .getSelf fun v => (k v).map g
  | .getCaptured k => .getCaptured fun v => (k v).map g
  | .setCaptured v k => .setCaptured v (k.map g)
  | .homeFrameId k => .homeFrameId fun n => (k n).map g
  | .getGroup k => .getGroup fun h => (k h).map g
  | .setGroup h k => .setGroup h (k.map g)

end Run

/-! ## What is behind the frames -/

/-- The objects and the tables of the runtime: `W` is their state. -/
structure Host (V W M : Type) where
  /-- `PROTO_NONE`. -/
  none : V
  /-- `PROTO_TRUE` and `PROTO_FALSE`. -/
  bool : Bool → V
  /-- `STRuntime::materialize`. -/
  materialize : W → Constant → V × W
  /-- The SmallInteger operators, for two SmallIntegers and a SmallInteger result. -/
  binInt : IntOp → V → V → Option V
  objectProto : V
  newChild : W → V → V × W
  getAttribute : W → V → String → V
  getOwnAttributeDirect : W → V → String → V
  hasOwnAttribute : W → V → String → Bool
  setAttribute : W → V → String → V → W
  setAttributes : W → V → List (String × V) → W
  /-- An object, its first parent, the first parent of that one, and so on. -/
  firstParents : W → V → List V
  /-- A value of the globals object, `PROTO_NONE` when there is none. -/
  getGlobal : W → String → V
  setGlobal : W → String → V → W
  /-- A `BlockClosure` on a block of a module: its dictionary, its `self` and the
  home of its creator. -/
  newBlock : W → M → Nat → V → V → Nat → V × W
  makeArrayInstance : W → List V → V × W
  /-- Is a debugger attached? -/
  attached : W → Bool

/-- What the engine does after a handler. -/
inductive Next (V W : Type) where
  | goOn (w : W)
  | send (kind : SendKind) (selector : String) (receiver : V) (args : List V) (w : W)
  | doesNotUnderstand (selector : String) (receiver : V) (w : W)
  /-- `RETURN_TOP`, and `RETURN` when `home` is given. -/
  | leave (home : Option Nat) (v : V) (w : W)

/-- The key of an instance variable. -/
def ivSymbol (name : String) : String := "_iv_" ++ name

/-! ## Handlers -/

section Handle

variable {V W M : Type} [DecidableEq V] (host : Host V W M)

/-- `storeInstVar`. -/
def storeInstVar {α : Type} (w : W) (name : String) (v : V) (k : W → Script V α) :
    Script V α :=
  .getSelf fun self =>
    if self = host.none then .fault "STORE_INSTVAR self is null"
    else k (host.setAttribute w self (ivSymbol name) v)

/-- The loop of `flushInstVarGroup`: the writes from position `k` on, `n` of them. -/
def flushFrom {α : Type} (entries : List GroupEntry) (first base : Nat) :
    Nat → Nat → W → (W → Script V α) → Script V α
  | _, 0, w, next => next w
  | k, n + 1, w, next =>
    match entries[first + k]? with
    | some e =>
      .operand (base + k) fun v =>
        storeInstVar host w e.name v fun w => flushFrom entries first base (k + 1) n w next
    | Option.none => .fault "instVarGroupEntry"

/-- `flushInstVarGroup`. -/
def flushInstVarGroup {α : Type} (entries : List GroupEntry) (g : WriteGroup) (w : W)
    (next : W → Script V α) : Script V α :=
  .setGroup Option.none <| flushFrom host entries g.first g.base 0 g.pending w next

/-- The names and the values of a whole group, its first value at `bottom`. -/
def collectGroup {α : Type} (entries : List GroupEntry) (first bottom : Nat) :
    Nat → Nat → List (String × V) → (List (String × V) → Script V α) → Script V α
  | _, 0, pairs, next => next pairs
  | k, n + 1, pairs, next =>
    match entries[first + k]? with
    | some e =>
      .operand (bottom + k) fun v =>
        collectGroup entries first bottom (k + 1) n (pairs ++ [(ivSymbol e.name, v)]) next
    | none => .fault "instVarGroupEntry"

/-- The loop that takes the arguments of a send off the stack. -/
def popArgs {α : Type} : Nat → List V → (List V → Script V α) → Script V α
  | 0, args, next => next args
  | n + 1, args, next => .pop fun v => popArgs n (v :: args) next

/-- The head of the send handlers: what is sent to whom. -/
def sendHandler (w : W) (kind : SendKind) (selector : String) : Script V (Next V W) :=
  .depth fun sp =>
    if sp < argCount kind selector + 1 then .fault "SEND with insufficient stack"
    else
      popArgs (argCount kind selector) [] fun args =>
        .pop fun receiver => .done (.send kind selector receiver args w)

/-- The return handlers hand on the top of the stack. -/
def returnHandler (w : W) (home : Option Nat) : Script V (Next V W) :=
  .depth fun sp =>
    if sp = 0 then .done (.leave home host.none w)
    else .peek fun v => .done (.leave home v w)

/-- The dictionary `STORE_CAPTURED` writes to. -/
def capturedOwner (w : W) (dict : V) (name : String) : V :=
  (((host.firstParents w dict).takeWhile fun d => d ≠ host.objectProto).find? fun d =>
    host.hasOwnAttribute w d name).getD dict

/-- A list up to and including the first `last`. -/
def through (last : V) : List V → List V
  | [] => []
  | p :: ps => if p = last then [p] else p :: through last ps

/-- The class `STORE_CLASSVAR` writes to. -/
def classVarOwner (w : W) (self : V) (name : String) : V :=
  ((through host.objectProto (host.firstParents w self)).find? fun p =>
    host.hasOwnAttribute w p (ivSymbol name)).getD self

/-- `IVAR_GROUP`: the first write decides whether the group is written at once. -/
def ivarGroupHandler (entries : List GroupEntry) (w : W) (entry : Nat) :
    Script V (Next V W) :=
  match entries[entry]? with
  | Option.none => .fault "instVarGroupEntry"
  | some e =>
    .depth fun sp =>
      if sp = 0 then .fault "IVAR_GROUP empty stack"
      else
        .getSelf fun self => .getGroup fun g =>
          let g :=
            if e.position = 0 then
              if self ≠ host.none ∧ host.attached w = false then some ⟨0, sp - 1, entry⟩
              else Option.none
            else g
          match g with
          | some g => .setGroup (some { g with pending := g.pending + 1 }) (.done (.goOn w))
          | Option.none =>
            .setGroup Option.none <| .peek fun v =>
              storeInstVar host w e.name v fun w => .done (.goOn w)

/-- `IVAR_GROUP_END`: the whole group as one version of `self`, or its last write. -/
def ivarGroupEndHandler (entries : List GroupEntry) (w : W) (entry : Nat) :
    Script V (Next V W) :=
  match entries[entry]? with
  | Option.none => .fault "instVarGroupEntry"
  | some e =>
    let cut (w : W) : Script V (Next V W) :=
      .pop fun last => .drop (e.count - 1) (.push last (.done (.goOn w)))
    .depth fun sp =>
      if sp < e.count then .fault "IVAR_GROUP_END stack underflow"
      else
        .getGroup fun
          | some _ =>
            .setGroup Option.none <|
              collectGroup entries (entry - e.position) (sp - e.count) 0 e.count []
                fun pairs =>
                  .getSelf fun self =>
                    if self = host.none then .fault "STORE_INSTVAR self is null"
                    else cut (host.setAttributes w self pairs)
          | Option.none => .peek fun v => storeInstVar host w e.name v cut

/-- A SmallInteger operator: on a miss the pending writes of a group are written,
and the message is sent. -/
def binIntHandler (entries : List GroupEntry) (w : W) (op : IntOp) :
    Script V (Next V W) :=
  .pop fun rhs => .pop fun lhs =>
    match host.binInt op lhs rhs with
    | some r => .push r (.done (.goOn w))
    | Option.none =>
      .push lhs <| .push rhs <| .getGroup fun
        | some g =>
          flushInstVarGroup host entries g w fun w => sendHandler w .binary op.selector
        | Option.none => sendHandler w .binary op.selector

/-- The handler of an instruction of the module `m`. -/
@[grind =] def handle (m : M) (entries : List GroupEntry) (w : W) : Op → Script V (Next V W)
  | .pushNil => .push host.none (.done (.goOn w))
  | .pushTrue => .push (host.bool true) (.done (.goOn w))
  | .pushFalse => .push (host.bool false) (.done (.goOn w))
  | .pushConst c =>
    let (v, w) := host.materialize w c
    .push v (.done (.goOn w))
  | .dup => .peek fun v => .push v (.done (.goOn w))
  | .pop => .pop fun _ => .done (.goOn w)
  | .pushLocal slot => .getLocal slot.index fun v => .push v (.done (.goOn w))
  | .storeLocal slot => .pop fun v => .setLocal slot.index v (.done (.goOn w))
  | .pushSelf => .getSelf fun self => .push self (.done (.goOn w))
  | .retTop => returnHandler host w Option.none
  | .ret => .homeFrameId fun home => returnHandler host w (some home)
  | .pushBlock index =>
    .getCaptured fun dict => .homeFrameId fun home => .getSelf fun self =>
      let (block, w) := host.newBlock w m index dict self home
      .push block (.done (.goOn w))
  | .binInt op => binIntHandler host entries w op
  | .send kind selector => sendHandler w kind selector
  | .assertBoolOrDnu selector =>
    .peek fun v =>
      if v = host.bool true ∨ v = host.bool false then .done (.goOn w)
      else .pop fun receiver => .done (.doesNotUnderstand selector receiver w)
  | .pushCaptured name =>
    .getCaptured fun dict =>
      .push (if dict = host.none then host.none else host.getAttribute w dict name)
        (.done (.goOn w))
  | .storeCaptured name =>
    .pop fun v => .getCaptured fun dict =>
      if dict = host.none then .fault "STORE_CAPTURED without captured dict"
      else .done (.goOn (host.setAttribute w (capturedOwner host w dict name) name v))
  | .defineCaptured name =>
    .pop fun v => .getCaptured fun dict =>
      if dict = host.none then .fault "DEFINE_CAPTURED without captured dict"
      else .done (.goOn (host.setAttribute w dict name v))
  | .makeCaptured inherit =>
    .getCaptured fun dict =>
      let parent := if inherit && decide (dict ≠ host.none) then dict else host.objectProto
      let (child, w) := host.newChild w parent
      .setCaptured child (.done (.goOn w))
  | .pushGlobal name =>
    let v := host.getGlobal w name
    if v = host.none then .fault ("undefined global: " ++ name)
    else .push v (.done (.goOn w))
  | .storeGlobal name => .pop fun v => .done (.goOn (host.setGlobal w name v))
  | .pushInstVar name =>
    .getSelf fun self =>
      .push (if self = host.none then host.none
        else host.getAttribute w self (ivSymbol name)) (.done (.goOn w))
  | .pushOwnInstVar name =>
    .getSelf fun self =>
      .push (if self = host.none then host.none
        else host.getOwnAttributeDirect w self (ivSymbol name)) (.done (.goOn w))
  | .storeInstVar name =>
    .pop fun v => storeInstVar host w name v fun w => .done (.goOn w)
  | .storeClassVar name =>
    .pop fun v => .getSelf fun self =>
      if self = host.none then .fault "STORE_CLASSVAR self is null"
      else
        .done (.goOn (host.setAttribute w (classVarOwner host w self name) (ivSymbol name) v))
  | .makeArray count =>
    .depth fun sp =>
      if sp < count then .fault "MAKE_ARRAY with insufficient stack"
      else
        popArgs count [] fun elements =>
          let (array, w) := host.makeArrayInstance w elements
          .push array (.done (.goOn w))
  | .ivarGroup entry => ivarGroupHandler host entries w entry
  | .ivarGroupEnd entry => ivarGroupEndHandler host entries w entry

end Handle

end ProtoST.Runtime.Handlers

import Mathlib

/-!
# Message dispatch

The four places that find a method for a message and run it: the `SEND_*` handler
and the `SEND_CALL` handler of the engine (`runtime/ExecutionEngine.cpp`),
`sendDynamic` behind `perform:` (`primitives/object_prims.cpp`), and the turn of an
actor, `drainOne` (`runtime/STRuntime.cpp`).  Each walks the attributes itself and
has its own filters and its own ways to fail.

protoCore is not part of the repository: `Space` is what the four places ask it and
the runtime.  A function that answers `none` stands for a null pointer or
`PROTO_NONE`, which the code treats alike.  `Outcome` is what a dispatch comes to: a
method or primitive that is run, with all it is run on, or the failure.  The guards
on the depth of the stack are left out.
-/

namespace ProtoST.Runtime.Dispatch

/-- What the dispatch reads of a compiled module; `id` is its address. -/
structure BytecodeModule where
  id : Nat
  argCount : Nat
  isCallForm : Bool
  callPosArity : Nat
  callNamedKeys : List String
  deriving DecidableEq, Repr

/-- The kinds of value that `methodHolder` and the error texts tell apart; `object`
is an object cell. -/
inductive Kind where
  | nil
  | boolean
  | smallInteger
  | largeInteger
  | float
  | string (isSymbol : Bool)
  | character
  | object
  | other
  deriving DecidableEq, Repr

/-- The objects, as the dispatch sees them. -/
structure Space (Obj : Type) where
  kind : Obj → Kind
  getAttribute : Obj → String → Option Obj
  getOwnAttributeDirect : Obj → String → Option Obj
  getParents : Obj → List Obj
  /-- `isInteger` and `asLong`. -/
  asLong : Obj → Option Int
  asString : Obj → Option String
  isMethod : Obj → Bool
  /-- The module whose address the object owns under `__bc_ptr__`. -/
  bcPtr : Obj → Option BytecodeModule
  protoNone : Obj
  /-- `== PROTO_TRUE`. -/
  isProtoTrue : Obj → Bool
  nilProto : Obj
  booleanProto : Obj
  smallIntegerProto : Obj
  largeIntegerProto : Obj
  floatProto : Obj
  stringProto : Obj
  characterProto : Obj
  errorProto : Obj
  globals : Obj
  unsetMarker : Obj
  /-- The index under which `prim_Block_value` is registered. -/
  blockValue : Nat
  /-- `findActiveSignal` finds a foreign exception that is being handled. -/
  foreignSignal : Obj → Bool
  makeMessage : String → List Obj → Obj
  /-- A Message is a new object. -/
  message_new : ∀ selector args, makeMessage selector args ∉ args

/-- The runtime errors of the dispatch. -/
inductive Failure where
  | superOutside
  | superUnresolved (cls : String)
  | superNoSuperclass (cls : String)
  | arity (selector : String) (expected got : Nat)
  | valueAttribute (selector : String)
  | blockArity (expected got : Nat)
  | tooManyArgs (mangled : String)
  | callToActor (mangled : String)
  | notCallForm (name mangled : String)
  | positional (name : String) (expected got : Nat)
  | namedArg (name key : String)
  | argCountMismatch (name : String)
  | primitiveNamed (name : String)
  | dynamicArity (selector : String)
  | notUnderstood (selector : String)
  | notUnderstoodBy (selector : String) (cls : Option String)
  | methodShape
  deriving DecidableEq, Repr

/-- A message in the mailbox of an actor. -/
structure Message (Obj : Type) where
  selector : String
  args : List Obj
  deriving DecidableEq, Repr

/-- What a dispatch comes to. -/
inductive Outcome (Obj : Type) where
  /-- The message is in the mailbox of the actor, a Future is answered. -/
  | enqueued (actor : Obj) (message : Message Obj)
  | block (module : BytecodeModule) (self captured home : Option Obj)
      (args : List Obj)
  | method (attr : Obj) (module : BytecodeModule) (self : Obj)
      (captured : Option Obj) (args : List Obj)
  | primitive (index : Nat) (self : Obj) (args : List Obj)
  /-- `ProtoObject::call` of a method another language exports. -/
  | protoMethod (name : String) (self : Obj) (args : List Obj)
      (keywords : List (String × Obj))
  | value (v : Obj)
  /-- An Error is signalled, under the handlers of the sender. -/
  | error (e : Failure)
  | messageNotUnderstood (receiver message : Obj) (text : String)
  /-- A C++ exception leaves the engine; in the turn of an actor it rejects the
  Future with its text. -/
  | runtimeError (e : Failure)
  deriving DecidableEq, Repr

/-! ## Sends -/

/-- The instruction of a send.  A `super` send has the class that defines the
method it is in, by name and by `__class_id__`. -/
inductive SendOp where
  | unary
  | binary
  | keyword
  | super (definingClass : String) (definingClassId : Int)
  deriving DecidableEq, Repr

/-- `sendArgCount`. -/
def SendOp.argCount (op : SendOp) (selector : String) : Nat :=
  match op with
  | .unary => 0
  | .binary => 1
  | .keyword => selector.toList.count ':'
  | .super _ _ =>
      match selector.toList with
      | [] => 0
      | c :: _ =>
          if selector.toList.count ':' = 0 ∧ ¬ c.isAlpha ∧ c ≠ '_' then 1
          else selector.toList.count ':'

/-- A send, with the arguments its instruction pops. -/
structure Send (Obj : Type) where
  op : SendOp
  selector : String
  args : List Obj
  arity : args.length = op.argCount selector

/-- A call-form send.  `mangled` is the constant of the instruction, with the
number of positional arguments and the sorted keys of the named ones. -/
structure CallSend (Obj : Type) where
  name : String
  mangled : String
  pos : List Obj
  named : List (String × Obj)

/-- The messages an actor reference answers itself. -/
def isActorLocalSelector (selector : String) : Bool :=
  selector ∈
    ["==", "~~", "=", "~=", "hash", "identityHash", "yourself",
      "isNil", "notNil", "ifNil:", "ifNotNil:", "ifNil:ifNotNil:", "ifNotNil:ifNil:",
      "printString", "printOn:", "displayString", "printNl", "displayNl",
      "isActor", "__wrappedObject"]

/-- `value`, `value:`, `value:value:` and so on. -/
def Send.isValueFamily {Obj : Type} (c : Send Obj) : Bool :=
  match c.op with
  | .unary => c.selector = "value"
  | .keyword => c.selector = String.join (List.replicate c.args.length "value:")
  | .binary | .super _ _ => false

/-- An attribute that holds a primitive: its index in the registry. -/
def primitiveIndex (marker : Int) : Option Nat :=
  if 0 < marker ∧ marker.toNat.testBit 62 then some (marker.toNat % 2 ^ 62)
  else none

namespace Space

variable {Obj : Type} (sp : Space Obj)

/-- Where the lookup for a receiver starts. -/
def methodHolder (recv : Obj) : Obj :=
  match sp.kind recv with
  | .nil => sp.nilProto
  | .boolean => sp.booleanProto
  | .smallInteger => sp.smallIntegerProto
  | .object => recv
  | .largeInteger => sp.largeIntegerProto
  | .float => sp.floatProto
  | .string _ => sp.stringProto
  | .character => sp.characterProto
  | .other => recv

def isActor (recv : Obj) : Bool :=
  (sp.getOwnAttributeDirect recv "__wrapped__").isSome

/-- The attribute holds a primitive. -/
def primIdx (attr : Obj) : Option Nat :=
  (sp.asLong attr).bind primitiveIndex

/-- A method that `__installClassMethod:as:` installed. -/
def isClassSide (attr : Obj) : Bool :=
  (sp.getOwnAttributeDirect attr "__class_side__").any sp.isProtoTrue

/-- The receiver is a class object. -/
def isClass (recv : Obj) : Bool :=
  (sp.getOwnAttributeDirect recv "__class_name__").isSome

/-- The end of the text of a `MessageNotUnderstood`. -/
def describeReceiverForDNU (recv : Obj) : String :=
  match sp.kind recv with
  | .nil => " (receiver: nil)"
  | .smallInteger => " (receiver class: SmallInteger)"
  | .largeInteger => " (receiver class: LargeInteger)"
  | .string isSymbol =>
      if isSymbol then " (receiver class: Symbol)" else " (receiver class: String)"
  | .boolean => " (receiver class: Boolean)"
  | .float => " (receiver class: Float)"
  | .character | .object | .other =>
      match (sp.getOwnAttributeDirect recv "__class_name__").bind sp.asString with
      | some name => " (receiver class: " ++ name ++ " class)"
      | none =>
          match (sp.getAttribute recv "__class_name__").bind sp.asString with
          | some name => " (receiver class: " ++ name ++ ")"
          | none => " (receiver class: unknown)"

/-! ### Running what was found -/

/-- A block with its arguments. -/
def runBlock (module : BytecodeModule) (recv : Obj) (args : List Obj) : Outcome Obj :=
  if module.argCount ≠ args.length then
    .error (.blockArity module.argCount args.length)
  else
    .block module (sp.getOwnAttributeDirect recv "__block_self__")
      (sp.getOwnAttributeDirect recv "__captured__")
      (sp.getOwnAttributeDirect recv "__home_frame__") args

/-- A registered primitive; `prim_Block_value` on a block runs the block. -/
def callPrimitive (index : Nat) (recv : Obj) (args : List Obj) : Outcome Obj :=
  match sp.bcPtr recv with
  | some module =>
      if index = sp.blockValue then sp.runBlock module recv args
      else .primitive index recv args
  | none => .primitive index recv args

/-- A user method. -/
def runMethod (attr : Obj) (module : BytecodeModule) (recv : Obj)
    (args : List Obj) : Outcome Obj :=
  .method attr module recv (sp.getOwnAttributeDirect attr "__captured__") args

/-! ### `perform:` -/

/-- `sendDynamicFrom`: `none` when the selector is not understood, a failure when it
throws. -/
def sendDynamicFrom (recv lookupRoot : Obj) (selector : String) (args : List Obj) :
    Option (Except Failure (Outcome Obj)) :=
  match sp.getAttribute lookupRoot selector with
  | none => none
  | some method =>
      match sp.bcPtr method with
      | some module =>
          if module.argCount ≠ args.length + 1 then
            some (.error (.dynamicArity selector))
          else some (.ok (sp.runMethod method module recv args))
      | none => (sp.primIdx method).map fun index =>
          .ok (sp.callPrimitive index recv args)

def sendDynamic (recv : Obj) (selector : String) (args : List Obj) :
    Option (Except Failure (Outcome Obj)) :=
  sp.sendDynamicFrom recv (sp.methodHolder recv) selector args

/-- `prim_Object_performWithArguments`.  What it throws becomes an Error at the
boundary of the primitive. -/
def performWithArguments (recv : Obj) (selector : String) (args : List Obj) :
    Outcome Obj :=
  match sp.sendDynamic recv selector args with
  | some (.ok outcome) => outcome
  | some (.error e) => .error e
  | none => .error (.notUnderstood selector)

/-! ### Not understood -/

/-- `canSendToForeignException`. -/
def canSendToForeignException (recv : Obj) (selector : String) : Bool :=
  sp.foreignSignal recv && (sp.getAttribute sp.errorProto selector).isSome

/-- `sendToForeignException`, a native boundary. -/
def sendToForeignException (recv : Obj) (selector : String) (args : List Obj) :
    Outcome Obj :=
  match sp.sendDynamicFrom recv sp.errorProto selector args with
  | some (.ok outcome) => outcome
  | some (.error e) => .error e
  | none => .error (.notUnderstood selector)

/-- `ExecutionEngine::doesNotUnderstand`. -/
def doesNotUnderstand (recv : Obj) (selector : String) (args : List Obj) :
    Outcome Obj :=
  if sp.canSendToForeignException recv selector then
    sp.sendToForeignException recv selector args
  else
    let message := sp.makeMessage selector args
    match (sp.getAttribute (sp.methodHolder recv) "doesNotUnderstand:").bind sp.bcPtr with
    | some _ =>
        match sp.sendDynamic recv "doesNotUnderstand:" [message] with
        | some (.ok outcome) => outcome
        | some (.error e) => .runtimeError e
        | none => .value sp.protoNone
    | none =>
        .messageNotUnderstood recv message
          ("doesNotUnderstand: " ++ selector ++ sp.describeReceiverForDNU recv)

/-! ### `SEND_UNARY`, `SEND_BINARY`, `SEND_KEYWORD`, `SEND_SUPER` -/

/-- The node of the chain that is the defining class. -/
def defines (definingClass : String) (definingClassId : Int) (node : Obj) : Bool :=
  if definingClassId ≠ 0 then
    (sp.getOwnAttributeDirect node "__class_id__").bind sp.asLong = some definingClassId
  else
    (sp.getOwnAttributeDirect node "__class_name__").bind sp.asString =
      some definingClass

/-- Depth first and left to right over the parents, for a number of hops. -/
def findDefiningClass (definingClass : String) (definingClassId : Int) :
    Nat → List Obj → Option Obj
  | 0, _ | _ + 1, [] => none
  | hops + 1, node :: stack =>
      if sp.kind node = .nil then
        findDefiningClass definingClass definingClassId hops stack
      else if sp.defines definingClass definingClassId node then some node
      else
        findDefiningClass definingClass definingClassId hops
          (sp.getParents node ++ stack)

/-- The lookup of a `super` send: the parents of the defining class, in order. -/
def superLookup (definingClass : String) (definingClassId : Int) (recv : Obj)
    (selector : String) : Except Failure (Option Obj) :=
  if definingClass = "" then .error .superOutside
  else
    let found := sp.findDefiningClass definingClass definingClassId 4096 [recv]
    match found.or (sp.getAttribute sp.globals definingClass) with
    | none => .error (.superUnresolved definingClass)
    | some cls =>
        match sp.getParents cls with
        | [] => .error (.superNoSuperclass definingClass)
        | parents => .ok (parents.findSome? fun parent => sp.getAttribute parent selector)

/-- The attribute a send finds. -/
def lookup (c : Send Obj) (recv : Obj) : Except Failure (Option Obj) :=
  match c.op with
  | .super definingClass definingClassId =>
      sp.superLookup definingClass definingClassId recv c.selector
  | .unary | .binary | .keyword =>
      .ok (sp.getAttribute (sp.methodHolder recv) c.selector)

/-- The class-side filter. -/
def hidden (recv attr : Obj) : Bool :=
  sp.isClassSide attr && !sp.isClass recv

/-- What the `SEND` handler does with the attribute. -/
def activate (c : Send Obj) (recv attr : Obj) : Outcome Obj :=
  match sp.bcPtr attr with
  | some module =>
      if module.argCount ≠ c.args.length + 1 then
        .error (.arity c.selector (module.argCount - 1) c.args.length)
      else sp.runMethod attr module recv c.args
  | none =>
      match sp.primIdx attr with
      | some index => sp.callPrimitive index recv c.args
      | none =>
          -- member access
          if c.args.length = 0 then .value attr
          else .error (.valueAttribute c.selector)

/-- The `SEND` handler. -/
def send (c : Send Obj) (recv : Obj) : Outcome Obj :=
  if sp.isActor recv && !isActorLocalSelector c.selector then
    .enqueued recv ⟨c.selector, c.args⟩
  else
    match if c.isValueFamily then sp.bcPtr recv else none with
    | some module => sp.runBlock module recv c.args
    | none =>
        match sp.lookup c recv with
        | .error e => .error e
        | .ok none => sp.doesNotUnderstand recv c.selector c.args
        | .ok (some attr) =>
            if sp.hidden recv attr then
              sp.doesNotUnderstand recv c.selector c.args
            else sp.activate c recv attr

/-! ### `SEND_CALL` -/

/-- The values of the declared keys, both sides sorted; a key that is not declared is
the failure. -/
def bindNamed : List String → List (String × Obj) → Except String (List Obj)
  | [], [] => .ok []
  | [], (key, _) :: _ => .error key
  | _ :: decl, [] => (bindNamed decl []).map (sp.unsetMarker :: ·)
  | declKey :: decl, (key, v) :: rest =>
      if key < declKey then .error key
      else if key = declKey then (bindNamed decl rest).map (v :: ·)
      else (bindNamed decl ((key, v) :: rest)).map (sp.unsetMarker :: ·)

/-- A call-form method with the arguments of the call. -/
def callMethod (c : CallSend Obj) (recv attr : Obj) (module : BytecodeModule) :
    Outcome Obj :=
  if !module.isCallForm then .error (.notCallForm c.name c.mangled)
  else if c.pos.length ≠ module.callPosArity then
    .error (.positional c.name module.callPosArity c.pos.length)
  else
    match sp.bindNamed module.callNamedKeys c.named with
    | .error key => .error (.namedArg c.name key)
    | .ok values =>
        if module.argCount ≠ 1 + module.callPosArity + module.callNamedKeys.length then
          .runtimeError (.argCountMismatch c.name)
        else sp.runMethod attr module recv (c.pos ++ values)

/-- An attribute that is not a user method. -/
def callAttribute (c : CallSend Obj) (recv attr : Obj) : Outcome Obj :=
  if sp.isMethod attr then .protoMethod c.name recv c.pos c.named
  else if c.pos.length + c.named.length = 0 then .value attr
  else
    match sp.primIdx attr with
    | some index =>
        if c.named.length ≠ 0 then .error (.primitiveNamed c.name)
        else sp.callPrimitive index recv c.pos
    | none => sp.doesNotUnderstand recv c.mangled []

/-- The `SEND_CALL` handler. -/
def sendCall (c : CallSend Obj) (recv : Obj) : Outcome Obj :=
  if 16 < c.pos.length + c.named.length then .error (.tooManyArgs c.mangled)
  else if sp.isActor recv then .error (.callToActor c.mangled)
  else
    match sp.getAttribute (sp.methodHolder recv) c.name with
    | none => sp.doesNotUnderstand recv c.mangled []
    | some attr =>
        match sp.bcPtr attr with
        | some module => sp.callMethod c recv attr module
        | none => sp.callAttribute c recv attr

/-! ### The turn of an actor -/

/-- `drainOne` with a message for the wrapped object. -/
def drainMessage (wrapped : Obj) (message : Message Obj) : Outcome Obj :=
  match sp.getAttribute wrapped message.selector with
  | none =>
      .runtimeError (.notUnderstoodBy message.selector
        ((sp.getAttribute wrapped "__class_name__").bind sp.asString))
  | some method =>
      match sp.bcPtr method with
      | some module => sp.runMethod method module wrapped message.args
      | none =>
          match sp.asLong method with
          | some marker =>
              match primitiveIndex marker with
              | some index => sp.callPrimitive index wrapped message.args
              | none => .runtimeError .methodShape
          | none =>
              .runtimeError (.notUnderstoodBy message.selector
                ((sp.getAttribute wrapped "__class_name__").bind sp.asString))

/-- One message of `drainOne`. -/
def drainOne (actor : Obj) (message : Message Obj) : Outcome Obj :=
  match sp.getOwnAttributeDirect actor "__wrapped__" with
  | none => .runtimeError (.notUnderstoodBy message.selector none)
  | some wrapped => sp.drainMessage wrapped message

end Space

end ProtoST.Runtime.Dispatch

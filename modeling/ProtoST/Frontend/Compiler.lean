import ProtoST.Frontend.Analysis

/-!
# The compiler

`emitNode` is `emitExpr` and `emitStatement` of `Compiler.cpp`: it answers the
code of a node and the compiler state after it.  The scopes around the innermost
one are only read, so they are part of the context, and the innermost one is
part of the state.  A block literal compiles to a module of its own in a scope of
its own.

Jumps are emitted through `emitForwardJump`, `resolveForwardJumps` and
`closeLoop` in three patterns only, the items of `Lib.Structured`: `flatten` puts
the offsets in.  The class tables of `collectClasses` enter as `classes`: what
`instVarsThroughChain` and `resolveClassVarsFor` answer for a class.

## Main results

* `compileModule` — the module of a list of top-level forms, and the errors.
* `emitNode`, `emitAll` — the code of an expression, a statement and a list of them.
-/

namespace ProtoST.Frontend

open ProtoST.Lib.Structured ProtoST.Runtime.Bytecode

/-! ## The compiler state -/

/-- What the compiler reports. -/
inductive CompileError where
  | argumentAssignment (name : String)
  | undeclaredAssignment (name cls : String)
  | undeclared (name cls : String)
  | superCallForm (name : String)
  | cascadeNode
  | thisContext
  | unsupported
  | duplicateName (name place : String)
  | shadowsInstVar (name cls : String)
  deriving DecidableEq, Repr

/-- `Compiler::Scope`.  `loopArgs` are the loop variables `inlinedLoopArgs_`
holds for this scope. -/
structure Scope where
  slots : List (String × Nat)
  nextSlot : Nat
  captured : List String
  args : List String
  loopArgs : List String
  isMethod : Bool

/-- What the class tables answer for a class. -/
structure ClassScope where
  instVars : List String
  classInstVars : List String
  classVars : List String
  ownClassVars : List String

/-- The method being emitted. -/
structure MethodContext where
  className : String
  instVars : List String
  classVars : List String
  classSide : Bool

/-- What emission reads and does not change: the options, the method, the
instance variables the closure analysis sees here, and the scopes around the
innermost one, innermost first. -/
structure Context where
  repl : Bool
  groups : Bool
  method : Option MethodContext
  ivars : List String
  enclosing : List Scope

/-- The compiler state: the innermost scope, the tables of the module being
emitted, and the errors so far. -/
structure Emitter where
  scope : Scope
  blocks : List Module
  groupEntries : List GroupEntry
  errors : List CompileError

namespace Emitter

def error (st : Emitter) (e : CompileError) : Emitter :=
  { st with errors := st.errors ++ [e] }

def setScope (st : Emitter) (s : Scope) : Emitter := { st with scope := s }

end Emitter

/-! ## Names -/

/-- `std::unordered_map::operator[]` with an assignment. -/
def setSlot (slots : List (String × Nat)) (name : String) (slot : Nat) :
    List (String × Nat) :=
  (name, slot) :: slots.filter fun b => b.1 != name

def eraseSlot (slots : List (String × Nat)) (name : String) : List (String × Nat) :=
  slots.filter fun b => b.1 != name

/-- `declareLocal`. -/
def Scope.declare (s : Scope) (name : String) : Nat × Scope :=
  match s.slots.lookup name with
  | some slot => (slot, s)
  | none =>
    (s.nextSlot, { s with slots := setSlot s.slots name s.nextSlot
                          nextSlot := s.nextSlot + 1 })

/-- `declareLocal` in the innermost scope. -/
def Emitter.declareLocal (ctx : Context) (st : Emitter) (name : String) :
    Slot × Emitter :=
  let (slot, scope) := st.scope.declare name
  (⟨ctx.enclosing.length, slot⟩, st.setScope scope)

/-- `resolveLocal`: the scopes from the innermost out, up to a method. -/
def resolveIn : List Scope → String → Option Slot
  | [], _ => none
  | s :: outer, name =>
    match s.slots.lookup name with
    | some slot => some ⟨outer.length, slot⟩
    | none => if s.isMethod then none else resolveIn outer name

/-- `isCaptured`. -/
def capturedIn : List Scope → String → Bool
  | [], _ => false
  | s :: outer, name =>
    if s.captured.contains name then true
    else if (s.slots.lookup name).isSome then false
    else if s.isMethod then false
    else capturedIn outer name

/-- `reportArgumentAssignment`: does the name resolve to an argument? -/
def argumentIn : List Scope → String → Bool
  | [], _ => false
  | s :: outer, name =>
    if (s.slots.lookup name).isSome then s.args.contains name || s.loopArgs.contains name
    else if s.isMethod then false
    else argumentIn outer name

section Names

variable (ctx : Context) (scope : Scope)

/-- `scopes_`, innermost first. -/
def scopes : List Scope := scope :: ctx.enclosing

def resolveLocal (name : String) : Option Slot := resolveIn (scopes ctx scope) name

def isCaptured (name : String) : Bool := capturedIn (scopes ctx scope) name

/-- `assignsReplGlobalInBlock`. -/
def assignsReplGlobalInBlock (name : String) : Bool :=
  ctx.repl && !ctx.enclosing.isEmpty && !(scopes ctx scope).any Scope.isMethod
    && (resolveLocal ctx scope name).isNone

/-- The error of `reportUndeclaredInMethod`. -/
def undeclaredInMethod (name : String) : Option CompileError :=
  match ctx.method with
  | none => none
  | some m =>
    if (resolveLocal ctx scope name).isSome then none
    else some (.undeclaredAssignment name m.className)

/-- Where a name lives. -/
inductive Target where
  | rejected (e : CompileError)
  | captured
  | slot (s : Slot)
  | instVar
  | classVar
  | global
  | fresh
  deriving DecidableEq, Repr

def instVarNames : List String := (ctx.method.map MethodContext.instVars).getD []

def classVarNames : List String := (ctx.method.map MethodContext.classVars).getD []

/-- `std::islower` of the first character. -/
def startsLower (name : String) : Bool := name.toList.head?.any Char.isLower

/-- Where a read of `name` goes: the `Identifier` case of `emitExpr`. -/
def loadTarget (name : String) : Target :=
  if isCaptured ctx scope name then .captured
  else
    match resolveLocal ctx scope name with
    | some s => .slot s
    | none =>
      if (instVarNames ctx).contains name then .instVar
      else if (classVarNames ctx).contains name then .classVar
      else
        match ctx.method with
        | some m =>
          if !ctx.repl && startsLower name then .rejected (.undeclared name m.className)
          else .global
        | none => .global

/-- Where an assignment to `name` goes: the order of the `Assignment` cases. -/
def storeTarget (name : String) : Target :=
  if argumentIn (scopes ctx scope) name then .rejected (.argumentAssignment name)
  else if isCaptured ctx scope name then
    match undeclaredInMethod ctx scope name with
    | some e => .rejected e
    | none => .captured
  else
    match resolveLocal ctx scope name with
    | some s => .slot s
    | none =>
      if (instVarNames ctx).contains name then .instVar
      else if (classVarNames ctx).contains name then .classVar
      else if (ctx.repl && ctx.enclosing.isEmpty)
          || assignsReplGlobalInBlock ctx scope name then .global
      else
        match undeclaredInMethod ctx scope name with
        | some e => .rejected e
        | none => .fresh

end Names

/-! ## Instance-variable write groups -/

/-- `BytecodeModule::kMaxInstVarGroup`. -/
def kMaxInstVarGroup : Nat := 16

section Groups

variable (ctx : Context) (scope : Scope)

/-- Does `STORE_INSTVAR` perform an assignment to this name? -/
def isInstVarTarget (name : String) : Bool :=
  !isCaptured ctx scope name && (resolveLocal ctx scope name).isNone
    && (instVarNames ctx).contains name

/-- The selectors of `isInertGroupValue`. -/
def fastOperator (o : Operator) : Option IntOp :=
  if o.text = "+" then some .add
  else if o.text = "-" then some .sub
  else if o.text = "<=" then some .le
  else if o.text = "<" then some .lt
  else if o.text = ">=" then some .ge
  else if o.text = ">" then some .gt
  else if o.text = "=" then some .eq
  else none

/-- `isInertGroupValue`. -/
def isInertGroupValue (written : List String) : Node → Bool
  | .literal _ | .trueLit | .falseLit | .nilLit | .self => true
  | .identifier x =>
    isCaptured ctx scope x || (resolveLocal ctx scope x).isSome
      || (((instVarNames ctx).contains x || (classVarNames ctx).contains x)
        && !written.contains x)
  | .binarySend r o a =>
    (fastOperator o).isSome && isInertGroupValue written r && isInertGroupValue written a
  | _ => false

/-- The loop of `tryEmitInstVarGroup` from the second statement on: how many more
statements join a group of `taken` that writes `written`. -/
def groupTail (written : List String) (taken : Nat) : List Node → Nat
  | .assignment x v :: rest =>
    if taken < kMaxInstVarGroup && isInstVarTarget ctx scope x
        && isInertGroupValue ctx scope written v then
      groupTail (x :: written) (taken + 1) rest + 1
    else 0
  | _ => 0

/-- The length of the group that starts with these statements, 0 for none. -/
def groupRun (stmts : List Node) : Nat :=
  if ctx.groups && !(instVarNames ctx).isEmpty then
    match stmts with
    | .assignment x _ :: rest =>
      if isInstVarTarget ctx scope x then
        let n := groupTail ctx scope [x] 1 rest + 1
        if n < 2 then 0 else n
      else 0
    | _ => 0
  else 0

end Groups

/-! ## Emission -/

/-- Emission of a piece of code: the code and the compiler state after it. -/
abbrev Emit := Emitter → Code × Emitter

namespace Emit

/-- `m.emit` and `m.emitWide`. -/
def code (c : Code) : Emit := fun st => (c, st)

/-- One emission after the other. -/
def seq (a b : Emit) : Emit := fun st =>
  let (c, st) := a st
  let (c', st) := b st
  (c ++ c', st)

instance : Append Emit := ⟨seq⟩

/-- Code around the code of an emission. -/
def wrap (a : Emit) (f : Code → Code) : Emit := fun st =>
  let (c, st) := a st
  (f c, st)

/-- Code around the codes of two emissions. -/
def wrap₂ (a b : Emit) (f : Code → Code → Code) : Emit := fun st =>
  let (c, st) := a st
  let (c', st) := b st
  (f c c', st)

/-- An error, and the code emitted instead. -/
def fail (e : CompileError) (c : Code) : Emit := fun st => (c, st.error e)

/-- Emission with the slot of a local declared in the innermost scope. -/
def declaring (ctx : Context) (name : String) (k : Slot → Emit) : Emit := fun st =>
  let (s, st) := st.declareLocal ctx name
  k s st

/-- Emission that depends on the innermost scope. -/
def reading (k : Scope → Emit) : Emit := fun st => k st.scope st

end Emit

open Emit (code)

/-- The send of a message to a receiver that may be `super`. -/
def sendOp (isSuper : Bool) (kind : SendKind) (selector : String) : Item Op :=
  .op (.send (if isSuper then .super else kind) selector)

/-- The send of a binary message: a fast-path operator where there is one. -/
def binaryOp (isSuper : Bool) (o : Operator) : Item Op :=
  if isSuper then .op (.send .super o.text)
  else
    match fastOperator o with
    | some op => .op (.binInt op)
    | none => .op (.send .binary o.text)

/-- The `Identifier` case of `emitExpr`. -/
def emitLoad (ctx : Context) (x : String) : Emit := .reading fun scope =>
  match loadTarget ctx scope x with
  | .rejected e => .fail e [.op .pushNil]
  | .captured => code [.op (.pushCaptured x)]
  | .slot s => code [.op (.pushLocal s)]
  | .instVar =>
    if (ctx.method.map MethodContext.classSide).getD false then
      code [.op (.pushOwnInstVar x)]
    else code [.op (.pushInstVar x)]
  | .classVar => code [.op (.pushInstVar x)]
  | .global | .fresh => code [.op (.pushGlobal x)]

/-- The `Assignment` cases of `emitExpr` and `emitStatement`, which differ in
what they emit for an assignment they reject. -/
def emitStore (ctx : Context) (stmt : Bool) (x : String) (value : Emit) : Emit :=
  .reading fun scope =>
    match storeTarget ctx scope x with
    | .rejected e => .fail e (if stmt then [] else [.op .pushNil])
    | .captured => value ++ code [.op .dup, .op (.storeCaptured x)]
    | .slot s => value ++ code [.op .dup, .op (.storeLocal s)]
    | .instVar => value ++ code [.op .dup, .op (.storeInstVar x)]
    | .classVar => value ++ code [.op .dup, .op (.storeClassVar x)]
    | .global => value ++ code [.op .dup, .op (.storeGlobal x)]
    | .fresh => .declaring ctx x fun s => value ++ code [.op .dup, .op (.storeLocal s)]

/-- The hidden temporaries of a construct: a prefix and the next slot. -/
def hidden (base : String) (slot : Nat) : String := base ++ toString slot

/-! ### Inlined control sends -/

/-- `ifTrue:` and `ifFalse:`. -/
def emitIf (selector : String) (invert : Bool) (cond body : Emit) : Emit :=
  cond ++ code [.op (.assertBoolOrDnu selector)]
    ++ body.wrap fun b => [.branch invert b [.op .pushNil]]

/-- `ifTrue:ifFalse:` and `ifFalse:ifTrue:`. -/
def emitIfElse (selector : String) (cond trueBranch falseBranch : Emit) : Emit :=
  cond ++ code [.op (.assertBoolOrDnu selector)]
    ++ trueBranch.wrap₂ falseBranch fun t f => [.branch false t f]

/-- `whileTrue:` and `whileFalse:`. -/
def emitWhile (selector : String) (invert : Bool) (cond body : Emit) : Emit :=
  (cond.wrap₂ body fun c b =>
      [.loop (c ++ [.op (.assertBoolOrDnu selector)]) invert (b ++ [.op .pop])])
    ++ code [.op .pushNil]

/-- A `to:do:` loop binds its variable to the counter and hides a captured
variable of the same name. -/
def Scope.bindLoop (s : Scope) (name : String) (slot : Nat) : Scope :=
  { s with slots := setSlot s.slots name slot
           captured := s.captured.filter fun x => x != name
           loopArgs := name :: s.loopArgs }

/-- Behind the loop the name has its binding from before it. -/
def Scope.unbindLoop (s before : Scope) (name : String) : Scope :=
  { s with
      slots :=
        match before.slots.lookup name with
        | some slot => setSlot s.slots name slot
        | none => eraseSlot s.slots name
      captured := if before.captured.contains name then name :: s.captured else s.captured
      loopArgs := s.loopArgs.tail }

/-- Emission of a loop body, with the loop variable bound to the counter. -/
def emitBound (name : String) (slot : Nat) (body : Emit) : Emit := fun st =>
  let before := st.scope
  let (c, st) := body (st.setScope (before.bindLoop name slot))
  (c, st.setScope (st.scope.unbindLoop before name))

/-- The `to:do:` case of `tryEmitInlinedControl`: the receiver stays under the
loop, which counts a copy of it. -/
def emitToDo (ctx : Context) (name : String) (start stop body : Emit) : Emit :=
  .reading fun scope =>
    .declaring ctx (hidden "__td_i_" scope.nextSlot) fun slotI =>
      .declaring ctx (hidden "__td_end_" scope.nextSlot) fun slotEnd =>
        start ++ code [.op .dup, .op (.storeLocal slotI)]
          ++ stop ++ code [.op (.storeLocal slotEnd)]
          ++ (emitBound name slotI.index body).wrap fun b =>
            [.loop
              [.op (.pushLocal slotI), .op (.pushLocal slotEnd), .op (.binInt .le)] false
              (b ++ [.op .pop, .op (.pushLocal slotI), .op (.pushConst (.integer 1)),
                .op (.binInt .add), .op (.storeLocal slotI)])]

/-- `emitDoYieldingLoop`. -/
def emitDoYielding (ctx : Context) (receiver block : Emit) : Emit :=
  .reading fun scope =>
    .declaring ctx (hidden "__dy_coll_" scope.nextSlot) fun slotColl =>
      .declaring ctx (hidden "__dy_blk_" scope.nextSlot) fun slotBlk =>
        .declaring ctx (hidden "__dy_n_" scope.nextSlot) fun slotN =>
          .declaring ctx (hidden "__dy_i_" scope.nextSlot) fun slotI =>
            receiver ++ code [.op (.storeLocal slotColl)]
              ++ block ++ code [.op (.storeLocal slotBlk),
                .op (.pushLocal slotColl), .op (.send .unary "size"), .op (.storeLocal slotN),
                .op (.pushConst (.integer 1)), .op (.storeLocal slotI),
                .loop
                  [.op (.pushLocal slotI), .op (.pushLocal slotN), .op (.send .binary "<=")]
                  false
                  [.op (.pushLocal slotBlk), .op (.pushLocal slotColl),
                    .op (.pushLocal slotI), .op (.send .keyword "at:"),
                    .op (.send .keyword "value:"), .op .pop,
                    .op (.pushLocal slotI), .op (.pushConst (.integer 1)),
                    .op (.send .binary "+"), .op (.storeLocal slotI)],
                .op (.pushLocal slotColl)]

/-- The emissions of an argument: as an expression, and as the body of an
inlined block. -/
structure ArgEmit where
  expr : Emit
  body : Emit

/-- The arguments of a message in order. -/
def emitExprs : List ArgEmit → Emit
  | [] => code []
  | a :: rest => a.expr ++ emitExprs rest

/-- The argument of a one-argument block. -/
def Node.loopVariable : Node → String
  | .block (i :: _) _ _ => i
  | _ => ""

/-- The `KeywordSend` case of `emitExpr`, with `tryEmitInlinedControl`. -/
def emitKeyword (ctx : Context) (r : Node) (parts : List (Ident × Node))
    (receiver : ArgEmit) (args : List ArgEmit) : Emit :=
  let selector := keywordSelector (parts.map Prod.fst)
  let send := receiver.expr ++ emitExprs args ++ code [sendOp r.isSuper .keyword selector]
  match parts, args with
  | [(k, n)], [a] =>
    if k.text = "doYielding" && !r.isSuper && n.isDoYieldingBlock then
      emitDoYielding ctx receiver.expr a.expr
    else if inlinedSend ctx.ivars r parts then
      if k.text = "ifTrue" || k.text = "ifFalse" then
        emitIf selector (k.text = "ifFalse") receiver.expr a.body
      else emitWhile selector (k.text = "whileFalse") receiver.body a.body
    else send
  | [(k, _), (_, n)], [a, b] =>
    if inlinedSend ctx.ivars r parts then
      if k.text = "to" then emitToDo ctx n.loopVariable receiver.expr a.expr b.body
      else if k.text = "ifFalse" then emitIfElse selector receiver.expr b.body a.body
      else emitIfElse selector receiver.expr a.body b.body
    else send
  | _, _ => send

/-! ### Scopes -/

/-- The names declared twice. -/
def duplicates : List String → List String
  | [] => []
  | x :: rest => if rest.contains x then x :: duplicates rest else duplicates rest

/-- The errors of `reportDuplicateNames`. -/
def duplicateErrors (names : List String) (place : String) : List CompileError :=
  (duplicates names).map fun x => .duplicateName x place

/-- The scope of a block or a method: its names in order, the first ones its
arguments. -/
def openScope (captured args locals : List String) (isMethod : Bool) : Scope :=
  ((if isMethod then ["self"] else []) ++ args ++ locals).foldl
    (fun s x => (s.declare x).2) ⟨[], 0, captured, args, [], isMethod⟩

/-- `emitCaptureProlog`. -/
def captureProlog (ctx : Context) (scope : Scope) (args locals : List String) : Code :=
  if scope.captured.isEmpty then []
  else
    let argDefs := args.filter fun x => scope.captured.contains x
    let localDefs := locals.filter fun x => scope.captured.contains x
    let make : Code :=
      if scope.isMethod then [.op (.makeCaptured false)]
      else if argDefs.isEmpty && localDefs.isEmpty then []
      else [.op (.makeCaptured true)]
    make
      ++ argDefs.flatMap (fun x =>
          match resolveLocal ctx scope x with
          | some slot => [.op (.pushLocal slot), .op (.defineCaptured x)]
          | none => [])
      ++ localDefs.flatMap fun x => [.op .pushNil, .op (.defineCaptured x)]

/-- The context inside a block literal that stands in `scope`. -/
def Context.inBlock (ctx : Context) (scope : Scope) (names : List String) : Context :=
  { ctx with ivars := without ctx.ivars names, enclosing := scopes ctx scope }

/-- The `Block` case of `emitExpr`: `body` emits the statements in the scope of
the block. -/
def emitBlock (ctx : Context) (args locals : List String) (stmts : List Node)
    (body : Context → Emit) : Emit := fun st =>
  let names := args ++ locals
  let inner := ctx.inBlock st.scope names
  let scope := openScope (blockCaptured ctx.ivars names stmts) args locals false
  let sub : Emitter := ⟨scope, [], [], st.errors ++ duplicateErrors names "a block"⟩
  let (c, sub) := (code (captureProlog inner scope args locals)
    ++ (if stmts.isEmpty then code [.op .pushNil] else body inner) ++ code [.op .retTop]) sub
  let m : Runtime.Bytecode.Module := .mk c sub.blocks sub.groupEntries args.length none
    (ctx.method.map MethodContext.className)
  ([.op (.pushBlock st.blocks.length)],
    { st with blocks := st.blocks ++ [m], errors := sub.errors })

/-! ### Statements and expressions -/

/-- One write of an instance-variable write group. -/
def emitGroupWrite (x : String) (position count : Nat) (value : Emit) : Emit :=
  value ++ fun st =>
    let entry := st.groupEntries.length
    ([.op (if position + 1 < count then .ivarGroup entry else .ivarGroupEnd entry)],
      { st with groupEntries := st.groupEntries ++ [⟨x, position, count⟩] })

/-- The `POP` between a statement and the next. -/
def popBetween (last : Bool) : Emit := code (if last then [] else [.op .pop])

/-- One turn of `emitStatements`: `group` is the position of the statement in the
write group being emitted and the length of the group, which
`tryEmitInstVarGroup` decides at its first statement.  `value` emits the value of
the statement when it is an assignment. -/
def emitTurn (ctx : Context) (group : Nat × Nat) (n : Node) (rest : List Node)
    (stmt value : Emit) (next : Nat × Nat → Emit) : Emit := .reading fun scope =>
  let (position, count) :=
    if group.2 = 0 then (0, groupRun ctx scope (n :: rest)) else group
  match n, count with
  | .assignment x _, _ + 1 =>
    if position + 1 < count then
      emitGroupWrite x position count value ++ next (position + 1, count)
    else
      emitGroupWrite x position count value ++ popBetween rest.isEmpty ++ next (0, 0)
  | _, _ => stmt ++ popBetween rest.isEmpty ++ next (0, 0)

mutual

/-- `emitExpr`, and with `stmt` what `emitStatement` does with the node. -/
def emitNode (ctx : Context) (stmt : Bool) : Node → Emit
  | .literal c => code [.op (.pushConst c)]
  | .trueLit => code [.op .pushTrue]
  | .falseLit => code [.op .pushFalse]
  | .nilLit => code [.op .pushNil]
  | .self => code [.op .pushSelf]
  | .super => code [.op .pushSelf]
  | .thisContext => .fail .thisContext [.op .pushNil]
  | .identifier x => emitLoad ctx x
  | .assignment x v => emitStore ctx stmt x (emitNode ctx false v)
  | .unarySend r sel =>
    emitNode ctx false r ++ code [sendOp r.isSuper .unary sel.text]
  | .binarySend r o a =>
    emitNode ctx false r ++ emitNode ctx false a ++ code [binaryOp r.isSuper o]
  | .keywordSend r parts =>
    emitKeyword ctx r parts ⟨emitNode ctx false r, emitInlinedBlockBody ctx r⟩
      (emitParts ctx parts)
  | .callSend r name ps ns =>
    if r.isSuper then .fail (.superCallForm name.text) [.op .pushNil]
    else
      emitNode ctx false r ++ emitArgs ctx ps ++ emitExprs (emitParts ctx ns)
        ++ code [.op (.send .call
          (mangled name.text ps.length (ns.map fun p => p.1.text)))]
  | .cascade r ms =>
    emitNode ctx false r ++ .reading fun scope =>
      .declaring ctx (hidden "__cascade_tmp_" scope.nextSlot) fun tmp =>
        emitPartials ctx r.isSuper tmp ms
  | .arrayLit es => emitArgs ctx es ++ code [.op (.makeArray es.length)]
  | .block args locals body =>
    emitBlock ctx args locals body fun inner => emitAll inner (0, 0) body
  | .ret v =>
    if stmt then emitNode ctx false v ++ code [.op .ret]
    else .fail .unsupported [.op .pushNil]

/-- Expressions in order. -/
def emitArgs (ctx : Context) : List Node → Emit
  | [] => code []
  | n :: rest => emitNode ctx false n ++ emitArgs ctx rest

/-- The arguments of keywords or keys. -/
def emitParts (ctx : Context) : List (Ident × Node) → List ArgEmit
  | [] => []
  | (_, n) :: rest =>
    ⟨emitNode ctx false n, emitInlinedBlockBody ctx n⟩ :: emitParts ctx rest

/-- One message of a cascade, above a copy of the receiver. -/
def emitPartial (ctx : Context) (isSuper : Bool) : Partial → Emit
  | .unary _ sel => code [sendOp isSuper .unary sel.text]
  | .binary o a => emitNode ctx false a ++ code [sendOp isSuper .binary o.text]
  | .keyword parts =>
    emitExprs (emitParts ctx parts)
      ++ code [sendOp isSuper .keyword (keywordSelector (parts.map Prod.fst))]
  | .call _ _ _ => .fail .cascadeNode []

/-- The messages of a cascade: the receiver is below, `tmp` keeps the last result. -/
def emitPartials (ctx : Context) (isSuper : Bool) (tmp : Slot) : List Partial → Emit
  | [] => code []
  | m :: rest =>
    code [.op .dup] ++ emitPartial ctx isSuper m
      ++ code (if rest.isEmpty then [.op (.storeLocal tmp), .op .pop, .op (.pushLocal tmp)]
        else [.op .pop])
      ++ emitPartials ctx isSuper tmp rest

/-- `emitInlinedBlockBody`.  The names of the block hide instance variables from
the closure analysis of what is nested in it. -/
def emitInlinedBlockBody (ctx : Context) : Node → Emit
  | .block args locals body =>
    if body.isEmpty then code [.op .pushNil]
    else emitAll { ctx with ivars := without ctx.ivars (args ++ locals) } (0, 0) body
  | _ => code []

/-- The value of an assignment. -/
def emitValue (ctx : Context) : Node → Emit
  | .assignment _ v => emitNode ctx false v
  | _ => code []

/-- `emitStatements`. -/
def emitAll (ctx : Context) (group : Nat × Nat) : List Node → Emit
  | [] => code []
  | n :: rest =>
    emitTurn ctx group n rest (emitNode ctx true n) (emitValue ctx n)
      fun group => emitAll ctx group rest

end

/-! ## Top-level forms -/

/-- The body of a method behind its prologues: without a final `^` it answers
`self`, which is in its slot 0. -/
def emitMethodBody (ctx : Context) (body : List Node) : Emit :=
  (if body.isEmpty then code [.op .pushNil] else emitAll ctx (0, 0) body)
    ++ (if body.getLast?.any Node.isRet then code []
      else
        (if body.isEmpty then code [] else code [.op .pop])
          ++ code [.op (.pushLocal ⟨ctx.enclosing.length, 0⟩), .op .ret])

/-- The prologue of a call-form method: a named parameter that was omitted takes
the value of its default. -/
def emitDefaults (ctx : Context) : Nat → List (String × Node) → Emit
  | _, [] => code []
  | slot, (_, e) :: rest =>
    code [.op (.pushLocal ⟨ctx.enclosing.length, slot⟩), .op (.pushConst .unsetMarker),
        .op (.send .binary "==")]
      ++ (emitNode ctx false e).wrap (fun c =>
        [.skipIf false (c ++ [.op (.storeLocal ⟨ctx.enclosing.length, slot⟩)])])
      ++ emitDefaults ctx (slot + 1) rest

/-- The module of a method, in the scopes of the module that declares it. -/
def emitMethod (ctx : Context) (className : String) (classSide : Bool) (cls : ClassScope)
    (analysed : List String) (selector : String) (args locals : List String)
    (callForm : Option CallForm) (prologue : Context → Emit) (walked body : List Node) :
    Emitter → Module × List CompileError := fun st =>
  let names := args ++ locals
  let instVars := if classSide then cls.classInstVars else cls.instVars
  let method : MethodContext := ⟨className, instVars, cls.classVars, classSide⟩
  let ivars := without analysed names
  let inner : Context := ⟨ctx.repl, ctx.groups, some method, ivars, scopes ctx st.scope⟩
  let scope := openScope (scopeCaptured ivars names false walked) args locals true
  let errors := st.errors ++ duplicateErrors names (className ++ ">>" ++ selector)
    ++ (names.filter fun x => instVars.contains x).map fun x => .shadowsInstVar x className
  let (c, sub) := (code (captureProlog inner scope args locals) ++ prologue inner
    ++ emitMethodBody inner body) ⟨scope, [], [], errors⟩
  (.mk c sub.blocks sub.groupEntries (args.length + 1) callForm (some className), sub.errors)

/-- Install a method module on its class. -/
def emitInstall (className selector : String) (classSide : Bool)
    (method : Emitter → Module × List CompileError) : Emit := fun st =>
  let (m, errors) := method st
  ([.op (.pushGlobal className), .op (.pushBlock st.blocks.length),
    .op (.pushConst (.symbol selector)),
    .op (.send .keyword
      (if classSide then "__installClassMethod:as:" else "__installMethod:as:"))],
    { st with blocks := st.blocks ++ [m], errors := errors })

/-- Names in a string, separated by blanks. -/
def packed (names : List String) : String := " ".intercalate names

/-- Send a keyword message with a string to the class on the stack. -/
def stringSend (text selector : String) : Code :=
  [.op (.pushConst (.string text)), .op (.send .keyword selector)]

/-- `emitSetInstVarNames` and the class-variable initialisation. -/
def classTail (d : ClassDecl) : Code :=
  (if d.instVars.isEmpty then [] else stringSend (packed d.instVars) "__setInstVarNames:")
    ++ (if d.classVars.isEmpty then [] else stringSend (packed d.classVars) "__initClassVars:")
    ++ [.op .dup, .op (.storeGlobal d.name)]

/-- The `ClassDecl` case of `emitStatement`. -/
def emitClassDecl (ctx : Context) (d : ClassDecl) : Emit :=
  match d.mixins with
  | some mixins =>
    code [.op (.pushGlobal d.superName), .op (.pushConst (.symbol d.name))]
      ++ code (if d.instVars.isEmpty then []
        else [.op (.pushConst (.string (packed d.instVars)))])
      ++ emitNode ctx false mixins
      ++ code (.op (.send .keyword
          (if d.instVars.isEmpty then "subclass:uses:"
            else "subclass:instanceVariableNames:uses:")) :: classTail d)
  | none =>
    code (.op (.pushGlobal d.superName) :: (stringSend d.name "__subclassNamed:"
      ++ stringSend d.name "__setClassName:" ++ classTail d))

/-- `emitStatement` at the top level. -/
def emitTop (ctx : Context) (classes : String → Option ClassScope) : Top → Emit
  | .classDecl d => emitClassDecl ctx d
  | .methodDecl d =>
    let cls := (classes d.className).getD ⟨[], [], [], []⟩
    let own := if d.classSide then cls.classInstVars else cls.instVars
    emitInstall d.className d.selector d.classSide
      (emitMethod ctx d.className d.classSide cls (own ++ cls.classVars) d.selector
        d.args d.locals none (fun _ => code []) d.body d.body)
  | .callMethodDecl d =>
    let cls := (classes d.className).getD ⟨[], [], [], []⟩
    let own := if d.classSide then cls.classInstVars else cls.instVars
    let keys := d.named.map Prod.fst
    emitInstall d.className d.name d.classSide
      (emitMethod ctx d.className d.classSide cls (own ++ cls.ownClassVars) d.name
        (d.positional ++ keys) d.locals (some ⟨d.positional.length, keys⟩)
        (fun inner => emitDefaults inner (1 + d.positional.length) d.named)
        (d.named.map Prod.snd ++ d.body) d.body)
  | .statement n => emitNode ctx true n

/-- The top-level forms of a module, with a `POP` between them. -/
def emitTops (ctx : Context) (classes : String → Option ClassScope) : List Top → Emit
  | [] => code []
  | t :: rest => emitTop ctx classes t ++ popBetween rest.isEmpty ++ emitTops ctx classes rest

/-- What the analysis walks in a top-level form: method bodies are scopes of
their own. -/
def Top.walked : Top → List Node
  | .classDecl d => d.mixins.toList
  | .statement n => [n]
  | .methodDecl _ | .callMethodDecl _ => []

/-- `compileModule`. -/
def compileModule (repl groups : Bool) (classes : String → Option ClassScope)
    (tops : List Top) : Module × List CompileError :=
  let captured := scopeCaptured [] [] repl (tops.flatMap Top.walked)
  let ctx : Context := ⟨repl, groups, none, [], []⟩
  let body := if tops.isEmpty then code [.op .pushNil] else emitTops ctx classes tops
  let (c, st) := (body ++ code [.op .retTop])
    ⟨openScope captured [] [] false, [], [], []⟩
  (.mk c st.blocks st.groupEntries 0 none none, st.errors)

end ProtoST.Frontend

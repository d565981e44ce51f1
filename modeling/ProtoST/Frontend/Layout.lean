import ProtoST.Frontend.Compiler

/-!
# What the debugger is told about the code

Next to the instructions of a module `Compiler.cpp` records the names of its slots
(`recordLocalNames`) and where a slot has another one: in an inlined `to:do:` loop the counter has
the name of the block argument (`addScopedLocal`).

A layout is the code of a piece with the scoped locals in it, and with the scope in which each
instruction is emitted: the scope that an identifier at this point is resolved in.

## Main definitions

* `layNode`, `layAll` — the layouts of what `emitNode` and `emitAll` emit.
* `blockUnit`, `methodUnit`, `moduleUnit` — what is recorded of a block, a method and a module.
-/

namespace ProtoST.Frontend

open ProtoST.Lib.Structured ProtoST.Runtime.Bytecode
open Emit (code)

/-! ## Layouts -/

/-- `BytecodeModule::ScopedLocal`. -/
structure ScopedLocal where
  slot : Nat
  name : String
  fromPc : Nat
  toPc : Nat
  deriving DecidableEq, Repr

def ScopedLocal.shift (n : Nat) (l : ScopedLocal) : ScopedLocal :=
  { l with fromPc := n + l.fromPc, toPc := n + l.toPc }

def ScopedLocal.covers (l : ScopedLocal) (pc : Nat) : Bool :=
  decide (l.fromPc ≤ pc) && decide (pc < l.toPc)

theorem ScopedLocal.covers_iff {l : ScopedLocal} {pc : Nat} :
    l.covers pc = true ↔ l.fromPc ≤ pc ∧ pc < l.toPc := by
  unfold covers
  rw [Bool.and_eq_true, decide_eq_true_eq, decide_eq_true_eq]

theorem ScopedLocal.covers_shift (l : ScopedLocal) (n pc : Nat) :
    (l.shift n).covers (n + pc) = l.covers pc := by
  rw [Bool.eq_iff_iff, covers_iff, covers_iff]
  unfold shift
  exact and_congr Nat.add_le_add_iff_left Nat.add_lt_add_iff_left

structure Layout where
  instrs : List (Flat Op × Scope)
  scopedLocals : List ScopedLocal

namespace Layout

def code (l : Layout) : FlatCode := l.instrs.map Prod.fst

def size (l : Layout) : Nat := l.instrs.length

/-- Instructions emitted in one scope. -/
def emitted (scope : Scope) (is : FlatCode) : Layout := ⟨is.map fun i => (i, scope), []⟩

def append (a b : Layout) : Layout :=
  ⟨a.instrs ++ b.instrs, a.scopedLocals ++ b.scopedLocals.map (ScopedLocal.shift a.size)⟩

instance : Append Layout := ⟨append⟩

/-- `addScopedLocal`, over the whole piece. -/
def addScopedLocal (l : Layout) (slot : Nat) (name : String) : Layout :=
  { l with scopedLocals := l.scopedLocals ++ [⟨slot, name, 0, l.size⟩] }

/-- The layout of `Item.skipIf`. -/
def skipIf (sense : Bool) (scope : Scope) (body : Layout) : Layout :=
  emitted scope [.jumpIf sense body.size] ++ body

/-- The layout of `Item.branch`. -/
def branch (sense : Bool) (scope : Scope) (fall : Layout) (scope' : Scope) (target : Layout) :
    Layout :=
  emitted scope [.jumpIf sense (fall.size + 1)] ++
    (fall ++ (emitted scope' [.jump target.size] ++ target))

/-- The layout of `Item.loop`. -/
def loop (test : Layout) (sense : Bool) (scope : Scope) (body : Layout) (scope' : Scope) :
    Layout :=
  test ++ (emitted scope [.jumpIf sense (body.size + 1)] ++
    (body ++ emitted scope' [.jumpBack (test.size + body.size + 2)]))

@[simp] theorem size_emitted (scope : Scope) (is : FlatCode) :
    (emitted scope is).size = is.length := List.length_map _

@[simp] theorem code_emitted (scope : Scope) (is : FlatCode) : (emitted scope is).code = is := by
  unfold code emitted
  rw [List.map_map]
  exact List.map_id is

@[simp] theorem instrs_append (a b : Layout) : (a ++ b).instrs = a.instrs ++ b.instrs := rfl

@[simp] theorem scopedLocals_append (a b : Layout) :
    (a ++ b).scopedLocals = a.scopedLocals ++ b.scopedLocals.map (ScopedLocal.shift a.size) := rfl

@[simp] theorem code_append (a b : Layout) : (a ++ b).code = a.code ++ b.code :=
  List.map_append

@[simp] theorem size_append (a b : Layout) : (a ++ b).size = a.size + b.size :=
  List.length_append

@[simp] theorem code_addScopedLocal (l : Layout) (slot : Nat) (name : String) :
    (l.addScopedLocal slot name).code = l.code := rfl

@[simp] theorem length_code (l : Layout) : l.code.length = l.size := List.length_map _

theorem code_skipIf {body : Layout} {b : Code} (h : body.code = flatten b) (sense : Bool)
    (scope : Scope) : (skipIf sense scope body).code = flatten [.skipIf sense b] := by
  have hsize : body.size = (flatten b).length := by rw [← h, length_code]
  simp [skipIf, Item.flatten, h, hsize]

theorem code_branch {fall target : Layout} {f t : Code} (hf : fall.code = flatten f)
    (ht : target.code = flatten t) (sense : Bool) (scope scope' : Scope) :
    (branch sense scope fall scope' target).code = flatten [.branch sense f t] := by
  have hfall : fall.size = (flatten f).length := by rw [← hf, length_code]
  have htarget : target.size = (flatten t).length := by rw [← ht, length_code]
  simp [branch, Item.flatten, hf, ht, hfall, htarget]

theorem code_loop {test body : Layout} {t b : Code} (ht : test.code = flatten t)
    (hb : body.code = flatten b) (sense : Bool) (scope scope' : Scope) :
    (loop test sense scope body scope').code = flatten [.loop t sense b] := by
  have htest : test.size = (flatten t).length := by rw [← ht, length_code]
  have hbody : body.size = (flatten b).length := by rw [← hb, length_code]
  simp [loop, Item.flatten, ht, hb, htest, hbody]

end Layout

/-- Emission with its layout. -/
abbrev Lay := Emitter → Layout × Emitter

namespace Lay

/-- Emission in one scope. -/
def of (e : Emit) : Lay := fun st => (.emitted st.scope (flatten (e st).1), (e st).2)

def seq (a b : Lay) : Lay := fun st => ((a st).1 ++ (b (a st).2).1, (b (a st).2).2)

instance : Append Lay := ⟨seq⟩

def declaring (ctx : Context) (name : String) (k : Slot → Lay) : Lay := fun st =>
  k (st.declareLocal ctx name).1 (st.declareLocal ctx name).2

def reading (k : Scope → Lay) : Lay := fun st => k st.scope st

def skipIf (sense : Bool) (body : Lay) : Lay := fun st =>
  (.skipIf sense st.scope (body st).1, (body st).2)

def branch (sense : Bool) (fall target : Lay) : Lay := fun st =>
  (.branch sense st.scope (fall st).1 (fall st).2.scope (target (fall st).2).1,
    (target (fall st).2).2)

def loop (test : Lay) (sense : Bool) (body : Lay) : Lay := fun st =>
  (.loop (test st).1 sense (test st).2.scope (body (test st).2).1 (body (test st).2).2.scope,
    (body (test st).2).2)

/-- A loop with its variable bound to the counter, from its test on. -/
def bound (name : String) (slot : Nat) (l : Lay) : Lay := fun st =>
  let before := st.scope
  let (c, st) := l (st.setScope (before.bindLoop name slot))
  (c.addScopedLocal slot name, st.setScope (st.scope.unbindLoop before name))

end Lay

/-! ## Expressions and statements -/

/-- The `Assignment` cases. -/
def layStore (ctx : Context) (stmt : Bool) (x : String) (value : Lay) : Lay :=
  .reading fun scope =>
    match storeTarget ctx scope x with
    | .rejected e => .of (.fail e (if stmt then [] else [.op .pushNil]))
    | .captured => value ++ .of (code [.op .dup, .op (.storeCaptured x)])
    | .slot s => value ++ .of (code [.op .dup, .op (.storeLocal s)])
    | .instVar => value ++ .of (code [.op .dup, .op (.storeInstVar x)])
    | .classVar => value ++ .of (code [.op .dup, .op (.storeClassVar x)])
    | .global => value ++ .of (code [.op .dup, .op (.storeGlobal x)])
    | .fresh => .declaring ctx x fun s => value ++ .of (code [.op .dup, .op (.storeLocal s)])

def layIf (selector : String) (invert : Bool) (cond body : Lay) : Lay :=
  cond ++ .of (code [.op (.assertBoolOrDnu selector)])
    ++ .branch invert body (.of (code [.op .pushNil]))

def layIfElse (selector : String) (cond trueBranch falseBranch : Lay) : Lay :=
  cond ++ .of (code [.op (.assertBoolOrDnu selector)]) ++ .branch false trueBranch falseBranch

def layWhile (selector : String) (invert : Bool) (cond body : Lay) : Lay :=
  .loop (cond ++ .of (code [.op (.assertBoolOrDnu selector)])) invert
      (body ++ .of (code [.op .pop]))
    ++ .of (code [.op .pushNil])

/-- The `to:do:` case of `tryEmitInlinedControl`. -/
def layToDo (ctx : Context) (name : String) (start stop body : Lay) : Lay :=
  .reading fun scope =>
    .declaring ctx (hidden "__td_i_" scope.nextSlot) fun slotI =>
      .declaring ctx (hidden "__td_end_" scope.nextSlot) fun slotEnd =>
        start ++ .of (code [.op .dup, .op (.storeLocal slotI)])
          ++ stop ++ .of (code [.op (.storeLocal slotEnd)])
          ++ .bound name slotI.index (.loop
            (.of (code [.op (.pushLocal slotI), .op (.pushLocal slotEnd), .op (.binInt .le)])) false
            (body ++ .of (code [.op .pop, .op (.pushLocal slotI), .op (.pushConst (.integer 1)),
              .op (.binInt .add), .op (.storeLocal slotI)])))

/-- `emitDoYieldingLoop`, whose loop has no scoped local. -/
def layDoYielding (ctx : Context) (receiver block : Lay) : Lay :=
  .reading fun scope =>
    .declaring ctx (hidden "__dy_coll_" scope.nextSlot) fun slotColl =>
      .declaring ctx (hidden "__dy_blk_" scope.nextSlot) fun slotBlk =>
        .declaring ctx (hidden "__dy_n_" scope.nextSlot) fun slotN =>
          .declaring ctx (hidden "__dy_i_" scope.nextSlot) fun slotI =>
            receiver ++ .of (code [.op (.storeLocal slotColl)])
              ++ block ++ .of (code [.op (.storeLocal slotBlk),
                .op (.pushLocal slotColl), .op (.send .unary "size"), .op (.storeLocal slotN),
                .op (.pushConst (.integer 1)), .op (.storeLocal slotI),
                .loop
                  [.op (.pushLocal slotI), .op (.pushLocal slotN), .op (.send .binary "<=")]
                  false
                  [.op (.pushLocal slotBlk), .op (.pushLocal slotColl),
                    .op (.pushLocal slotI), .op (.send .keyword "at:"),
                    .op (.send .keyword "value:"), .op .pop,
                    .op (.pushLocal slotI), .op (.pushConst (.integer 1)),
                    .op (.send .binary "+"), .op (.storeLocal slotI)],
                .op (.pushLocal slotColl)])

structure ArgLay where
  expr : Lay
  body : Lay

def layExprs : List ArgLay → Lay
  | [] => .of (code [])
  | a :: rest => a.expr ++ layExprs rest

/-- The `KeywordSend` case of `emitExpr`. -/
def layKeyword (ctx : Context) (r : Node) (parts : List (Ident × Node))
    (receiver : ArgLay) (args : List ArgLay) : Lay :=
  let selector := keywordSelector (parts.map Prod.fst)
  let send := receiver.expr ++ layExprs args ++ .of (code [sendOp r.isSuper .keyword selector])
  match parts, args with
  | [(k, n)], [a] =>
    if k.text = "doYielding" && !r.isSuper && n.isDoYieldingBlock then
      layDoYielding ctx receiver.expr a.expr
    else if inlinedSend ctx.ivars r parts then
      if k.text = "ifTrue" || k.text = "ifFalse" then
        layIf selector (k.text = "ifFalse") receiver.expr a.body
      else layWhile selector (k.text = "whileFalse") receiver.body a.body
    else send
  | [(k, _), (_, n)], [a, b] =>
    if inlinedSend ctx.ivars r parts then
      if k.text = "to" then layToDo ctx n.loopVariable receiver.expr a.expr b.body
      else if k.text = "ifFalse" then layIfElse selector receiver.expr b.body a.body
      else layIfElse selector receiver.expr a.body b.body
    else send
  | _, _ => send

def layGroupWrite (x : String) (position count : Nat) (value : Lay) : Lay :=
  value ++ .of (emitGroupWrite x position count (code []))

/-- One turn of `emitStatements`. -/
def layTurn (ctx : Context) (group : Nat × Nat) (n : Node) (rest : List Node)
    (stmt value : Lay) (next : Nat × Nat → Lay) : Lay := .reading fun scope =>
  let (position, count) :=
    if group.2 = 0 then (0, groupRun ctx scope (n :: rest)) else group
  match n, count with
  | .assignment x _, _ + 1 =>
    if position + 1 < count then
      layGroupWrite x position count value ++ next (position + 1, count)
    else
      layGroupWrite x position count value ++ .of (popBetween rest.isEmpty) ++ next (0, 0)
  | _, _ => stmt ++ .of (popBetween rest.isEmpty) ++ next (0, 0)

mutual

/-- The layout of `emitNode`. -/
def layNode (ctx : Context) (stmt : Bool) : Node → Lay
  | .literal c => .of (emitNode ctx stmt (.literal c))
  | .trueLit => .of (emitNode ctx stmt .trueLit)
  | .falseLit => .of (emitNode ctx stmt .falseLit)
  | .nilLit => .of (emitNode ctx stmt .nilLit)
  | .self => .of (emitNode ctx stmt .self)
  | .super => .of (emitNode ctx stmt .super)
  | .thisContext => .of (emitNode ctx stmt .thisContext)
  | .identifier x => .of (emitNode ctx stmt (.identifier x))
  | .assignment x v => layStore ctx stmt x (layNode ctx false v)
  | .unarySend r sel => layNode ctx false r ++ .of (code [sendOp r.isSuper .unary sel.text])
  | .binarySend r o a =>
    layNode ctx false r ++ layNode ctx false a ++ .of (code [binaryOp r.isSuper o])
  | .keywordSend r parts =>
    layKeyword ctx r parts ⟨layNode ctx false r, layInlinedBlockBody ctx r⟩ (layParts ctx parts)
  | .callSend r name ps ns =>
    if r.isSuper then .of (.fail (.superCallForm name.text) [.op .pushNil])
    else
      layNode ctx false r ++ layArgs ctx ps ++ layExprs (layParts ctx ns)
        ++ .of (code [.op (.send .call
          (mangled name.text ps.length (ns.map fun p => p.1.text)))])
  | .cascade r ms =>
    layNode ctx false r ++ .reading fun scope =>
      .declaring ctx (hidden "__cascade_tmp_" scope.nextSlot) fun tmp =>
        layPartials ctx r.isSuper tmp ms
  | .arrayLit es => layArgs ctx es ++ .of (code [.op (.makeArray es.length)])
  | .block args locals body => .of (emitNode ctx stmt (.block args locals body))
  | .ret v =>
    if stmt then layNode ctx false v ++ .of (code [.op .ret])
    else .of (.fail .unsupported [.op .pushNil])

def layArgs (ctx : Context) : List Node → Lay
  | [] => .of (code [])
  | n :: rest => layNode ctx false n ++ layArgs ctx rest

def layParts (ctx : Context) : List (Ident × Node) → List ArgLay
  | [] => []
  | (_, n) :: rest => ⟨layNode ctx false n, layInlinedBlockBody ctx n⟩ :: layParts ctx rest

def layPartial (ctx : Context) (isSuper : Bool) : Partial → Lay
  | .unary _ sel => .of (code [sendOp isSuper .unary sel.text])
  | .binary o a => layNode ctx false a ++ .of (code [sendOp isSuper .binary o.text])
  | .keyword parts =>
    layExprs (layParts ctx parts)
      ++ .of (code [sendOp isSuper .keyword (keywordSelector (parts.map Prod.fst))])
  | .call _ _ _ => .of (.fail .cascadeNode [])

def layPartials (ctx : Context) (isSuper : Bool) (tmp : Slot) : List Partial → Lay
  | [] => .of (code [])
  | m :: rest =>
    .of (code [.op .dup]) ++ layPartial ctx isSuper m
      ++ .of (code (if rest.isEmpty then [.op (.storeLocal tmp), .op .pop, .op (.pushLocal tmp)]
        else [.op .pop]))
      ++ layPartials ctx isSuper tmp rest

def layInlinedBlockBody (ctx : Context) : Node → Lay
  | .block args locals body =>
    if body.isEmpty then .of (code [.op .pushNil])
    else layAll { ctx with ivars := without ctx.ivars (args ++ locals) } (0, 0) body
  | _ => .of (code [])

def layValue (ctx : Context) : Node → Lay
  | .assignment _ v => layNode ctx false v
  | _ => .of (code [])

/-- The layout of `emitAll`. -/
def layAll (ctx : Context) (group : Nat × Nat) : List Node → Lay
  | [] => .of (code [])
  | n :: rest =>
    layTurn ctx group n rest (layNode ctx true n) (layValue ctx n) fun group =>
      layAll ctx group rest

end

/-! ## Top-level forms -/

def layMethodBody (ctx : Context) (body : List Node) : Lay :=
  (if body.isEmpty then .of (code [.op .pushNil]) else layAll ctx (0, 0) body)
    ++ .of (if body.getLast?.any Node.isRet then code []
      else
        (if body.isEmpty then code [] else code [.op .pop])
          ++ code [.op (.pushLocal ⟨ctx.enclosing.length, 0⟩), .op .ret])

def layDefaults (ctx : Context) : Nat → List (String × Node) → Lay
  | _, [] => .of (code [])
  | slot, (_, e) :: rest =>
    .of (code [.op (.pushLocal ⟨ctx.enclosing.length, slot⟩), .op (.pushConst .unsetMarker),
        .op (.send .binary "==")])
      ++ .skipIf false
        (layNode ctx false e ++ .of (code [.op (.storeLocal ⟨ctx.enclosing.length, slot⟩)]))
      ++ layDefaults ctx (slot + 1) rest

def layClassDecl (ctx : Context) (d : ClassDecl) : Lay :=
  match d.mixins with
  | some mixins =>
    .of (code [.op (.pushGlobal d.superName), .op (.pushConst (.symbol d.name))])
      ++ .of (code (if d.instVars.isEmpty then []
        else [.op (.pushConst (.string (packed d.instVars)))]))
      ++ layNode ctx false mixins
      ++ .of (code (.op (.send .keyword
          (if d.instVars.isEmpty then "subclass:uses:"
            else "subclass:instanceVariableNames:uses:")) :: classTail d))
  | none => .of (emitClassDecl ctx d)

def layTop (ctx : Context) (classes : String → Option ClassScope) : Top → Lay
  | .classDecl d => layClassDecl ctx d
  | .methodDecl d => .of (emitTop ctx classes (.methodDecl d))
  | .callMethodDecl d => .of (emitTop ctx classes (.callMethodDecl d))
  | .statement n => layNode ctx true n

def layTops (ctx : Context) (classes : String → Option ClassScope) : List Top → Lay
  | [] => .of (code [])
  | t :: rest =>
    layTop ctx classes t ++ .of (popBetween rest.isEmpty) ++ layTops ctx classes rest

/-! ## Code units -/

/-- `recordLocalNames`: the name of each slot, "" for none. -/
def localNames (s : Scope) : List String :=
  s.slots.foldl (fun names b => names.set b.2 b.1) (List.replicate s.nextSlot "")

/-- What is compiled of a block, a method or a module: its code with its scoped locals, the scope
behind it, and what it declares. -/
structure CodeUnit where
  ctx : Context
  args : List String
  locals : List String
  layout : Layout
  last : Scope

namespace CodeUnit

def code (u : CodeUnit) : FlatCode := u.layout.code

def localNames (u : CodeUnit) : List String := Frontend.localNames u.last

def scopedLocals (u : CodeUnit) : List ScopedLocal := u.layout.scopedLocals

/-- The scope in which the instruction at `pc` was emitted. -/
def scopeAt (u : CodeUnit) (pc : Nat) : Option Scope := u.layout.instrs[pc]?.map Prod.snd

end CodeUnit

/-- The code of a scope. -/
def codeUnit (ctx : Context) (args locals : List String) (scope : Scope)
    (errors : List CompileError) (l : Lay) : CodeUnit :=
  ⟨ctx, args, locals, (l ⟨scope, [], [], errors⟩).1, (l ⟨scope, [], [], errors⟩).2.scope⟩

/-- The module of `emitBlock`. -/
def blockUnit (ctx : Context) (args locals : List String) (stmts : List Node) (st : Emitter) :
    CodeUnit :=
  let names := args ++ locals
  let inner := ctx.inBlock st.scope names
  let scope := openScope (blockCaptured ctx.ivars names stmts) args locals false
  codeUnit inner args locals scope (st.errors ++ duplicateErrors names "a block")
    (.of (code (captureProlog inner scope args locals))
      ++ ((if stmts.isEmpty then .of (code [.op .pushNil]) else layAll inner (0, 0) stmts)
        ++ .of (code [.op .retTop])))

/-- The module of `emitMethod`. -/
def methodUnit (ctx : Context) (className : String) (classSide : Bool) (cls : ClassScope)
    (analysed : List String) (selector : String) (args locals : List String)
    (prologue : Context → Lay) (walked body : List Node) (st : Emitter) : CodeUnit :=
  let names := args ++ locals
  let instVars := if classSide then cls.classInstVars else cls.instVars
  let method : MethodContext := ⟨className, instVars, cls.classVars, classSide⟩
  let ivars := without analysed names
  let inner : Context := ⟨ctx.repl, ctx.groups, some method, ivars, scopes ctx st.scope⟩
  let scope := openScope (scopeCaptured ivars names false walked) args locals true
  let errors := st.errors ++ duplicateErrors names (className ++ ">>" ++ selector)
    ++ (names.filter fun x => instVars.contains x).map fun x => .shadowsInstVar x className
  codeUnit inner args locals scope errors
    (.of (code (captureProlog inner scope args locals))
      ++ (prologue inner ++ layMethodBody inner body))

/-- The module of `compileModule`. -/
def moduleUnit (repl groups : Bool) (classes : String → Option ClassScope) (tops : List Top) :
    CodeUnit :=
  let captured := scopeCaptured [] [] repl (tops.flatMap Top.walked)
  let ctx : Context := ⟨repl, groups, none, [], []⟩
  codeUnit ctx [] [] (openScope captured [] [] false) []
    ((if tops.isEmpty then .of (code [.op .pushNil]) else layTops ctx classes tops)
      ++ .of (code [.op .retTop]))

end ProtoST.Frontend

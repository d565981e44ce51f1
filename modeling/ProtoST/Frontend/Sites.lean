import Mathlib
import ProtoST.Frontend.Compiler

/-!
# Identifiers in emitted code

Where an identifier lives is looked up when its code is emitted, in the scopes that are open
there.  `sitesNode` lists the identifiers of a node, each with the scopes of its lookup, the
names that the program declares around it, and how the closure analysis sees the place: it
walks the tree as `emitNode` does and hands the compiler state on from one part to the next.
Parts the compiler rejects unread are listed as if it had read them.

## Main results

* `MethodParts.sites` — the identifiers of a method.
* `sitesNode`, `sitesAll` — the identifiers of an expression and of a list of statements.
-/

namespace ProtoST.Frontend

open ProtoST.Runtime.Bytecode

/-- Where a piece of code stands: the names the method and the blocks and loops around it
declare, whether it stands in a block, and in how many blocks the analysis takes for real. -/
structure Place where
  bound : List String
  inBlock : Bool
  level : Nat

/-- How an identifier is used; a group write is an assignment in an instance-variable write
group. -/
inductive Use where
  | read | write | groupWrite
  deriving DecidableEq, Repr

/-- An identifier, with the scopes in which it is looked up. -/
structure Site where
  name : String
  use : Use
  ctx : Context
  scope : Scope
  place : Place

/-- The identifiers of a piece of code, by the state in which its emission starts. -/
abbrev Sites := Emitter → List Site

namespace Sites

def none : Sites := fun _ => []

/-- The identifiers of a piece, and of the one whose code is emitted behind it. -/
def andThen (s : Sites) (e : Emit) (t : Sites) : Sites := fun st => s st ++ t (e st).2

/-- The identifiers of a piece behind the declaration of a local. -/
def declaring (ctx : Context) (name : String) (k : Slot → Sites) : Sites := fun st =>
  k (st.declareLocal ctx name).1 (st.declareLocal ctx name).2

def reading (k : Scope → Sites) : Sites := fun st => k st.scope st

end Sites

/-- The place in a block that declares these names. -/
def Place.inside (place : Place) (names : List String) (inlined : Bool) : Place :=
  ⟨names ++ place.bound, true, if inlined then place.level else place.level + 1⟩

section Constructs

variable (ctx : Context) (place : Place)

def sitesLoad (x : String) : Sites := fun st => [⟨x, .read, ctx, st.scope, place⟩]

def sitesStore (x : String) (value : Sites) : Sites := fun st =>
  ⟨x, .write, ctx, st.scope, place⟩ ::
    if storeTarget ctx st.scope x = .fresh then value (st.declareLocal ctx x).2 else value st

/-- The emissions of an argument, with their identifiers. -/
structure ArgSites where
  emits : ArgEmit
  expr : Sites
  body : Sites

def sitesExprs : List ArgSites → Sites
  | [] => .none
  | a :: rest => a.expr.andThen a.emits.expr (sitesExprs rest)

/-- The identifiers of an inlined loop body. -/
def sitesBound (name : String) (slot : Nat) (body : Sites) : Sites := fun st =>
  body (st.setScope (st.scope.bindLoop name slot))

def sitesToDo (name : String) (start stop : ArgSites) (body : Sites) : Sites :=
  .reading fun scope =>
    .declaring ctx (hidden "__td_i_" scope.nextSlot) fun slotI =>
      .declaring ctx (hidden "__td_end_" scope.nextSlot) fun _ =>
        start.expr.andThen start.emits.expr
          (stop.expr.andThen stop.emits.expr (sitesBound name slotI.index body))

def sitesDoYielding (receiver block : ArgSites) : Sites :=
  .reading fun scope =>
    .declaring ctx (hidden "__dy_coll_" scope.nextSlot) fun _ =>
      .declaring ctx (hidden "__dy_blk_" scope.nextSlot) fun _ =>
        .declaring ctx (hidden "__dy_n_" scope.nextSlot) fun _ =>
          .declaring ctx (hidden "__dy_i_" scope.nextSlot) fun _ =>
            receiver.expr.andThen receiver.emits.expr block.expr

/-- The identifiers of a keyword message, in the cases of `emitKeyword`. -/
def sitesKeyword (r : Node) (parts : List (Ident × Node)) (receiver : ArgSites)
    (args : List ArgSites) : Sites :=
  let send := receiver.expr.andThen receiver.emits.expr (sitesExprs args)
  match parts, args with
  | [(k, n)], [a] =>
    if k.text = "doYielding" && !r.isSuper && n.isDoYieldingBlock then
      sitesDoYielding ctx receiver a
    else if inlinedSend ctx.ivars r parts then
      if k.text = "ifTrue" || k.text = "ifFalse" then
        receiver.expr.andThen receiver.emits.expr a.body
      else receiver.body.andThen receiver.emits.body a.body
    else send
  | [(k, _), (_, n)], [a, b] =>
    if inlinedSend ctx.ivars r parts then
      if k.text = "to" then sitesToDo ctx n.loopVariable receiver a b.body
      else if k.text = "ifFalse" then
        receiver.expr.andThen receiver.emits.expr (b.body.andThen b.emits.body a.body)
      else receiver.expr.andThen receiver.emits.expr (a.body.andThen a.emits.body b.body)
    else send
  | _, _ => send

/-- The identifiers of a block literal; `inlined` says what the analysis takes it for. -/
def sitesBlock (inlined : Bool) (args locals : List String) (stmts : List Node)
    (body : Context → Place → Sites) : Sites := fun st =>
  let names := args ++ locals
  body (ctx.inBlock st.scope names) (place.inside names inlined)
    ⟨openScope (blockCaptured ctx.ivars names stmts) args locals false, [], [],
      st.errors ++ duplicateErrors names "a block"⟩

/-- One turn of `emitStatements`; `start` is the scope in which the write group being emitted
was decided on. -/
def sitesTurn (group : Nat × Nat) (start : Scope) (n : Node) (rest : List Node)
    (stmt value : Sites) (emitStmt emitValue : Emit)
    (next : Nat × Nat → Scope → Sites) : Sites := .reading fun scope =>
  let start := if group.2 = 0 then scope else start
  let (position, count) :=
    if group.2 = 0 then (0, groupRun ctx scope (n :: rest)) else group
  match n, count with
  | .assignment x _, _ + 1 => fun st =>
    ⟨x, .groupWrite, ctx, start, place⟩ ::
      value.andThen (emitGroupWrite x position count emitValue)
        (next (if position + 1 < count then (position + 1, count) else (0, 0)) start) st
  | _, _ => stmt.andThen emitStmt (next (0, 0) start)

end Constructs

mutual

/-- The identifiers of a node; `inlined` says what the analysis takes a block literal for
when this node is one. -/
def sitesNode (ctx : Context) (place : Place) (inlined : Bool) : Node → Sites
  | .literal _ | .trueLit | .falseLit | .nilLit => .none
  | .self | .super | .thisContext => .none
  | .identifier x => sitesLoad ctx place x
  | .assignment x v => sitesStore ctx place x (sitesNode ctx place false v)
  | .unarySend r _ => sitesNode ctx place false r
  | .binarySend r _ a =>
    (sitesNode ctx place false r).andThen (emitNode ctx false r) (sitesNode ctx place false a)
  | .keywordSend r parts =>
    let inl := inlinedSend ctx.ivars r parts
    sitesKeyword ctx r parts
      ⟨⟨emitNode ctx false r, emitInlinedBlockBody ctx r⟩, sitesNode ctx place inl r,
        sitesInlinedBlockBody ctx place r⟩
      (sitesParts ctx place inl parts)
  | .callSend r _ ps ns =>
    (sitesNode ctx place false r).andThen (emitNode ctx false r)
      ((sitesArgs ctx place ps).andThen (emitArgs ctx ps)
        (sitesExprs (sitesParts ctx place false ns)))
  | .cascade r ms =>
    (sitesNode ctx place false r).andThen (emitNode ctx false r) <| .reading fun scope =>
      .declaring ctx (hidden "__cascade_tmp_" scope.nextSlot) fun tmp =>
        sitesPartials ctx place r.isSuper tmp ms
  | .arrayLit es => sitesArgs ctx place es
  | .block args locals body =>
    sitesBlock ctx place inlined args locals body fun ctx place =>
      .reading fun scope => sitesAll ctx place (0, 0) scope body
  | .ret v => sitesNode ctx place false v

def sitesArgs (ctx : Context) (place : Place) : List Node → Sites
  | [] => .none
  | n :: rest =>
    (sitesNode ctx place false n).andThen (emitNode ctx false n) (sitesArgs ctx place rest)

def sitesParts (ctx : Context) (place : Place) (inlined : Bool) :
    List (Ident × Node) → List ArgSites
  | [] => []
  | (_, n) :: rest =>
    ⟨⟨emitNode ctx false n, emitInlinedBlockBody ctx n⟩, sitesNode ctx place inlined n,
      sitesInlinedBlockBody ctx place n⟩ :: sitesParts ctx place inlined rest

def sitesPartial (ctx : Context) (place : Place) : Partial → Sites
  | .unary _ _ => .none
  | .binary _ a => sitesNode ctx place false a
  | .keyword parts => sitesExprs (sitesParts ctx place false parts)
  | .call _ ps ns =>
    (sitesArgs ctx place ps).andThen (emitArgs ctx ps)
      (sitesExprs (sitesParts ctx place false ns))

def sitesPartials (ctx : Context) (place : Place) (isSuper : Bool) (tmp : Slot) :
    List Partial → Sites
  | [] => .none
  | m :: rest =>
    (sitesPartial ctx place m).andThen (emitPartial ctx isSuper m)
      (sitesPartials ctx place isSuper tmp rest)

/-- The identifiers of a block literal that is inlined. -/
def sitesInlinedBlockBody (ctx : Context) (place : Place) : Node → Sites
  | .block args locals body => .reading fun scope =>
    sitesAll { ctx with ivars := without ctx.ivars (args ++ locals) }
      (place.inside (args ++ locals) true) (0, 0) scope body
  | _ => .none

/-- The identifiers of the value of an assignment. -/
def sitesValue (ctx : Context) (place : Place) : Node → Sites
  | .assignment _ v => sitesNode ctx place false v
  | _ => .none

/-- The identifiers of statements. -/
def sitesAll (ctx : Context) (place : Place) (group : Nat × Nat) (start : Scope) :
    List Node → Sites
  | [] => .none
  | n :: rest =>
    sitesTurn ctx place group start n rest (sitesNode ctx place false n) (sitesValue ctx place n)
      (emitNode ctx true n) (emitValue ctx n) fun group start => sitesAll ctx place group start rest

end

/-! ## Methods -/

/-- The identifiers of the defaults of named parameters. -/
def sitesDefaults (ctx : Context) (place : Place) : List (String × Node) → Sites
  | [] => .none
  | (_, e) :: rest =>
    (sitesNode ctx place false e).andThen (emitNode ctx false e) (sitesDefaults ctx place rest)

/-- What `emitMethod` is given for a method: its class, its side and selector, the variables
the analysis takes for variables of `self`, its parameters and temporaries, the defaults of
its named parameters and its body. -/
structure MethodParts where
  className : String
  classSide : Bool
  selector : String
  analysed : List String
  args : List String
  locals : List String
  callForm : Option CallForm
  defaults : List (String × Node)
  body : List Node

/-- The methods among the top-level forms. -/
def Top.method (cls : ClassScope) : Top → Option MethodParts
  | .methodDecl d =>
    let own := if d.classSide then cls.classInstVars else cls.instVars
    some ⟨d.className, d.classSide, d.selector, own ++ cls.classVars, d.args, d.locals, none, [],
      d.body⟩
  | .callMethodDecl d =>
    let own := if d.classSide then cls.classInstVars else cls.instVars
    let keys := d.named.map Prod.fst
    some ⟨d.className, d.classSide, d.name, own ++ cls.ownClassVars, d.positional ++ keys,
      d.locals, some ⟨d.positional.length, keys⟩, d.named, d.body⟩
  | .classDecl _ | .statement _ => none

namespace MethodParts

variable (m : MethodParts) (cls : ClassScope)

def names : List String := m.args ++ m.locals

/-- The variables of the class on the side of the method. -/
def instVars : List String := if m.classSide then cls.classInstVars else cls.instVars

/-- What the analysis walks. -/
def walked : List Node := m.defaults.map Prod.snd ++ m.body

/-- The closure dictionary of the method. -/
def captured : List String := scopeCaptured (without m.analysed m.names) m.names false m.walked

/-- The context inside the method. -/
def context (ctx : Context) (scope : Scope) : Context :=
  ⟨ctx.repl, ctx.groups,
    some ⟨m.className, m.instVars cls, cls.classVars, m.classSide⟩,
    without m.analysed m.names, scopes ctx scope⟩

def scope : Scope := openScope m.captured m.args m.locals true

/-- The state in which the code of the method starts. -/
def start (st : Emitter) : Emitter :=
  ⟨m.scope, [], [], st.errors ++ duplicateErrors m.names (m.className ++ ">>" ++ m.selector)
    ++ (m.names.filter fun x => (m.instVars cls).contains x).map
      fun x => .shadowsInstVar x m.className⟩

/-- The place outside every block; slot 0 is the receiver's. -/
def place : Place := ⟨"self" :: m.names, false, 0⟩

/-- The identifiers of a method. -/
def sites (ctx : Context) (st : Emitter) : List Site :=
  let inner := m.context cls ctx st.scope
  (sitesDefaults inner m.place m.defaults).andThen
    (emitDefaults inner (1 + (m.args.length - m.defaults.length)) m.defaults)
    (.reading fun scope => sitesAll inner m.place (0, 0) scope m.body) (m.start cls st)

/-- The module of the method. -/
def emit (ctx : Context) (st : Emitter) : Runtime.Bytecode.Module × List CompileError :=
  emitMethod ctx m.className m.classSide cls m.analysed m.selector m.args m.locals m.callForm
    (fun inner => emitDefaults inner (1 + (m.args.length - m.defaults.length)) m.defaults)
    m.walked m.body st

end MethodParts

end ProtoST.Frontend

import ProtoST.Frontend.Ast

/-!
# The closure analysis

`walkNode` is the pass that runs before emission.  For each scope it collects
the names the scope declares, the names its own statements mention and the
names the blocks nested in it need; a name declared here and needed there lives
in the closure dictionary of the scope.  The block arguments of a control send
that will be inlined count as code of the enclosing scope.

The source keeps its results in tables keyed by syntax nodes.  The entry of a
node depends on the node and on the instance variables in view only, so here
`blockCaptured` and `inlinedToDo` compute an entry where it is read.

## Main results

* `mem_freeIn` — what a block asks of the scopes around it.
* `mem_blockCaptured` — the closure dictionary of a block.
-/

namespace ProtoST.Frontend

open ProtoST.Runtime.Bytecode

/-! ## The control sends the compiler inlines -/

/-- `Compiler::InlineShape`. -/
inductive InlineShape where
  | none | ifTrue | ifTrueIfFalse | whileTrue | toDo
  deriving DecidableEq, Repr

/-- A block literal with neither arguments nor temporaries. -/
def Node.isInlineableBlock : Node → Bool
  | .block [] [] _ => true
  | _ => false

/-- A block literal with one argument and no temporaries. -/
def Node.isLoopBlock : Node → Bool
  | .block [_] [] _ => true
  | _ => false

/-- A block literal with one argument. -/
def Node.isDoYieldingBlock : Node → Bool
  | .block [_] _ _ => true
  | _ => false

/-- `Compiler::inlineShapeOf`, of the receiver and the parts of a keyword send. -/
def inlineShapeOf (receiver : Node) (parts : List (Ident × Node)) : InlineShape :=
  if receiver.isSuper then .none
  else
    match parts with
    | [(k, a)] =>
      if a.isInlineableBlock && (k.text == "ifTrue" || k.text == "ifFalse") then .ifTrue
      else if receiver.isInlineableBlock && a.isInlineableBlock
          && (k.text == "whileTrue" || k.text == "whileFalse") then .whileTrue
      else .none
    | [(k, a), (k', b)] =>
      if a.isInlineableBlock && b.isInlineableBlock
          && (k.text == "ifTrue" && k'.text == "ifFalse"
            || k.text == "ifFalse" && k'.text == "ifTrue") then .ifTrueIfFalse
      else if k.text == "to" && k'.text == "do" && b.isLoopBlock then .toDo
      else .none
    | _ => .none

/-! ## The walk -/

/-- `ScopeWalker`: the names a piece of code adds to the scope it stands in. -/
structure Walk where
  declared : List String
  directRefs : List String
  innerNeeds : List String

namespace Walk

def empty : Walk := ⟨[], [], []⟩

def union (v w : Walk) : Walk :=
  ⟨v.declared ++ w.declared, v.directRefs ++ w.directRefs, v.innerNeeds ++ w.innerNeeds⟩

def refs (name : String) : Walk := ⟨[], [name], []⟩

def declares (name : String) : Walk := ⟨[name], [], []⟩

end Walk

/-- The instance variables a scope sees past names that hide them. -/
def without (ivars names : List String) : List String :=
  ivars.filter fun x => !names.contains x

/-- What is free in a block with these names and this walk of its body. -/
def freeIn (ivars names : List String) (xs : List String) : List String :=
  xs.filter fun x => !names.contains x && !(without ivars names).contains x

/-- What a block asks of the scope around it: of an inlined block, the names its
body mentions belong there as if written there; of a real block, all of them
have to be captured. -/
def Walk.ofBlock (inlined : Bool) (ivars names : List String) (body : Walk) : Walk :=
  let direct := freeIn ivars names body.directRefs
  let inner := freeIn ivars names body.innerNeeds
  if inlined then ⟨[], direct, inner⟩ else ⟨[], [], direct ++ inner⟩

mutual

/-- `walkNode`: `inBlock` is `ScopeWalker::isBlock`, and `inlined` says what a
block literal is when this node is one. -/
@[grind =] def walkNode (ivars : List String) (inBlock inlined : Bool) : Node → Walk
  | .literal _ | .trueLit | .falseLit | .nilLit => .empty
  | .self | .super | .thisContext => .empty
  | .identifier x => .refs x
  | .assignment x v =>
    (if inBlock then Walk.refs x else Walk.declares x).union (walkNode ivars inBlock false v)
  | .unarySend r _ => walkNode ivars inBlock false r
  | .binarySend r _ a =>
    (walkNode ivars inBlock false r).union (walkNode ivars inBlock false a)
  | .keywordSend r parts =>
    let inl :=
      match inlineShapeOf r parts with
      | .none => false
      | .toDo =>
        match parts with
        | [_, (_, .block args locals body)] =>
          let names := args ++ locals
          let w := walkAll (without ivars names) true body
          !args.any fun i => w.innerNeeds.contains i
        | _ => true
      | _ => true
    (walkNode ivars inBlock inl r).union (walkParts ivars inBlock inl parts)
  | .callSend r _ ps ns =>
    (walkNode ivars inBlock false r).union
      ((walkAll ivars inBlock ps).union (walkParts ivars inBlock false ns))
  | .cascade r ms => (walkNode ivars inBlock false r).union (walkPartials ivars inBlock ms)
  | .arrayLit es => walkAll ivars inBlock es
  | .block args locals body =>
    let names := args ++ locals
    .ofBlock inlined ivars names (walkAll (without ivars names) true body)
  | .ret v => walkNode ivars inBlock false v

/-- The arguments of a keyword send. -/
def walkParts (ivars : List String) (inBlock inlined : Bool) : List (Ident × Node) → Walk
  | [] => .empty
  | (_, a) :: rest =>
    (walkNode ivars inBlock inlined a).union (walkParts ivars inBlock inlined rest)

/-- One headless send of a cascade: its arguments are never inlined. -/
def walkPartial (ivars : List String) (inBlock : Bool) : Partial → Walk
  | .unary _ _ => .empty
  | .binary _ a => walkNode ivars inBlock false a
  | .keyword parts => walkParts ivars inBlock false parts
  | .call _ ps ns => (walkAll ivars inBlock ps).union (walkParts ivars inBlock false ns)

def walkPartials (ivars : List String) (inBlock : Bool) : List Partial → Walk
  | [] => .empty
  | m :: rest => (walkPartial ivars inBlock m).union (walkPartials ivars inBlock rest)

/-- Statements, or the elements of a literal. -/
def walkAll (ivars : List String) (inBlock : Bool) : List Node → Walk
  | [] => .empty
  | n :: rest => (walkNode ivars inBlock false n).union (walkAll ivars inBlock rest)

end

/-- `walkBlockScope`: the walk of the body of a block. -/
def walkBlock (ivars names : List String) (body : List Node) : Walk :=
  walkAll (without ivars names) true body

/-- `capturedByScope` of a block: its names that a block nested in it needs. -/
def blockCaptured (ivars names : List String) (body : List Node) : List String :=
  names.filter fun x => (walkBlock ivars names body).innerNeeds.contains x

/-- Whether `inlinedSends` has this send. -/
def inlinedSend (ivars : List String) (receiver : Node) (parts : List (Ident × Node)) :
    Bool :=
  match inlineShapeOf receiver parts with
  | .none => false
  | .toDo =>
    match parts with
    | [_, (_, .block args locals body)] =>
      !args.any fun i => (walkBlock ivars (args ++ locals) body).innerNeeds.contains i
    | _ => true
  | _ => true

/-- `capturedOf` a module or a method: `declared` are its names, and the names it
assigns outside its blocks are declared too. -/
def scopeCaptured (ivars declared : List String) (inBlock : Bool) (body : List Node) :
    List String :=
  let w := walkAll ivars inBlock body
  (declared ++ w.declared).filter fun x => w.innerNeeds.contains x

/-! ## What is in the walks -/

@[simp] theorem Walk.union_declared (v w : Walk) :
    (v.union w).declared = v.declared ++ w.declared := rfl

@[simp] theorem Walk.union_directRefs (v w : Walk) :
    (v.union w).directRefs = v.directRefs ++ w.directRefs := rfl

@[simp] theorem Walk.union_innerNeeds (v w : Walk) :
    (v.union w).innerNeeds = v.innerNeeds ++ w.innerNeeds := rfl

theorem mem_without {ivars names : List String} {x : String} :
    x ∈ without ivars names ↔ x ∈ ivars ∧ x ∉ names := by
  simp [without]

theorem mem_freeIn {ivars names xs : List String} {x : String} :
    x ∈ freeIn ivars names xs ↔ x ∈ xs ∧ x ∉ names ∧ x ∉ ivars := by
  simp only [freeIn, List.mem_filter, List.contains_eq_mem, Bool.and_eq_true,
    Bool.not_eq_true', decide_eq_false_iff_not, mem_without]
  tauto

theorem mem_blockCaptured {ivars names : List String} {body : List Node} {x : String} :
    x ∈ blockCaptured ivars names body ↔
      x ∈ names ∧ x ∈ (walkBlock ivars names body).innerNeeds := by
  simp [blockCaptured]

end ProtoST.Frontend

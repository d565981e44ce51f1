import Mathlib
import ProtoST.Lib.Transition
import ProtoST.Runtime.Dispatch

/-!
# The graph of the classes

Classes, their instances and the operations that build them
(`primitives/object_prims.cpp`): a class declaration, `subclass:`, `subclass:uses:`,
`addBehavior:`, the installation of a method, and the attributes and globals a program
sets.

protoCore is not part of the repository.  A cell holds the chain of parents it
captured when it was made, as `getParents` answers it; a lookup reads the own
attributes along that chain.  `newChild` puts the prototype before its chain.  What
`addParent` makes of the chain of an immutable cell is a parameter, `AddParent`.  A
program sets an attribute to `nil` only where it is a variable (`Runtime/Metaclasses.lean`).
-/

namespace ProtoST.Runtime.ClassGraph

open ProtoST.Lib ProtoST.Runtime.Dispatch

/-- The wrapper of a compiled method. -/
structure MethodObj where
  module : BytecodeModule
  /-- `__class_side__`. -/
  classSide : Bool
  deriving DecidableEq, Repr

inductive Value where
  | ref (address : Nat)
  | int (v : Int)
  | string (s : String)
  | method (m : MethodObj)
  | protoTrue
  /-- Of a variable that was set to it. -/
  | nil
  | globals
  deriving DecidableEq, Repr

/-- An object.  A shape carries the chain of a class with several parents; programs
do not get hold of it. -/
structure Cell where
  chain : List Nat
  isShape : Bool
  attributes : String → Option Value

/-- `addParent` of an immutable cell: the chain of the fresh cell, from the one of
the cell, the parent and the chain of the parent. -/
structure AddParent where
  link : List Nat → Nat → List Nat → List Nat
  mem_link : ∀ chain p ancestors x,
    x ∈ link chain p ancestors ↔ x = p ∨ x ∈ ancestors ∨ x ∈ chain

structure Graph where
  cells : Nat → Cell
  size : Nat
  globals : String → Option Value
  /-- `__kernel_loaded__`. -/
  kernelLoaded : Bool
  nextClassId : Int
  /-- `definingClassId` of a compiled method. -/
  definingClassId : Nat → Int
  /-- Each class with the methods declared in it. -/
  declared : List (Nat × Nat)

/-- `objectProto`. -/
def objectProto : Nat := 1

namespace Graph

def chain (g : Graph) (a : Nat) : List Nat := (g.cells a).chain

/-- `getOwnAttributeDirect`. -/
def own (g : Graph) (a : Nat) (key : String) : Option Value := (g.cells a).attributes key

/-- The first attribute along a chain. -/
def lookup (g : Graph) (chain : List Nat) (key : String) : Option Value :=
  chain.findSome? fun a => g.own a key

def getAttribute (g : Graph) (a : Nat) (key : String) : Option Value :=
  g.lookup (a :: g.chain a) key

/-- No two objects of the list have one id. -/
def OneEach (g : Graph) (l : List Nat) : Prop :=
  ∀ x ∈ l, ∀ y ∈ l, ∀ v, g.own x "__class_id__" = some v →
    g.own y "__class_id__" = some v → x = y

/-- The parents with all that is above them. -/
def ancestors (g : Graph) (parents : List Nat) : List Nat :=
  objectProto :: g.chain objectProto ++ parents.flatMap fun p => p :: g.chain p

/-- What a program can have in hand. -/
def IsObject (g : Graph) (a : Nat) : Prop := a < g.size ∧ (g.cells a).isShape = false

instance (g : Graph) (a : Nat) : Decidable (g.IsObject a) :=
  inferInstanceAs (Decidable (_ ∧ _))

/-- The id of a class. -/
def classId (g : Graph) (a : Nat) : Option Value := g.own a "__class_id__"

/-! ## The operations -/

/-- The new object is at the old size; `methods` are declared in it. -/
def alloc (g : Graph) (cell : Cell) (methods : List Nat) : Graph :=
  { g with
    cells := Function.update g.cells g.size cell
    size := g.size + 1
    declared := methods.map (g.size, ·) ++ g.declared }

def setAttribute (g : Graph) (a : Nat) (key : String) (v : Value) : Graph :=
  { g with
    cells := Function.update g.cells a
      { g.cells a with
        attributes := Function.update (g.cells a).attributes key (some v) } }

def bind (g : Graph) (name : String) (v : Value) : Graph :=
  { g with globals := Function.update g.globals name (some v) }

def newChild (g : Graph) (p : Nat) : Graph :=
  g.alloc ⟨p :: g.chain p, false, fun _ => none⟩ []

/-- The id an installation stamps: the one of the class, or a new one. -/
def stampId (g : Graph) (cls : Nat) : Int :=
  match g.classId cls with
  | some (.int id) => id
  | _ => g.nextClassId

/-- `stampDefiningClass`. -/
def stampDefiningClass (g : Graph) (cls : Nat) (m : MethodObj) : Graph :=
  match g.classId cls with
  | some (.int id) =>
      { g with definingClassId := Function.update g.definingClassId m.module.id id }
  | _ =>
      { g.setAttribute cls "__class_id__" (.int g.nextClassId) with
        nextClassId := g.nextClassId + 1
        definingClassId := Function.update g.definingClassId m.module.id g.nextClassId }

/-- `prim_Object_installMethod` and `prim_Object_installClassMethod`. -/
def installMethod (g : Graph) (cls : Nat) (selector : String) (m : MethodObj) : Graph :=
  let g := (g.stampDefiningClass cls m).setAttribute cls selector (.method m)
  { g with declared := (cls, m.module.id) :: g.declared }

/-- A named class. -/
def named (g : Graph) (cls : Nat) (name : String) : Graph :=
  (g.setAttribute cls "__class_name__" (.string name)).bind name (.ref cls)

/-- `makeSubclass`. -/
def makeSubclass (g : Graph) (superCls : Nat) (name : String) : Graph :=
  (g.newChild superCls).named g.size name

/-- The class that a declaration answers again. -/
def existingClass (g : Graph) (superCls : Nat) (name : String) : Option Nat :=
  match g.globals name with
  | some (.ref existing) =>
      if g.own existing "__user_class__" = some .protoTrue ∧
          (g.chain existing).head? = some superCls then some existing
      else none
  | _ => none

/-- A class declaration: `prim_Object_subclassNamed`, `__setClassName:` and the
global. -/
def subclassNamed (g : Graph) (superCls : Nat) (name : String) : Graph :=
  match g.existingClass superCls name with
  | some existing => g.named existing name
  | none =>
      let cls := g.size
      let g := g.newChild superCls
      let g := if g.kernelLoaded then g.setAttribute cls "__user_class__" .protoTrue else g
      g.named cls name

variable (pc : AddParent)

/-- The chain of a shape, from the last parent wanted to the first. -/
def shapeChain (g : Graph) (parents : List Nat) : List Nat :=
  parents.foldl (fun chain p => pc.link chain p (g.chain p))
    (objectProto :: g.chain objectProto)

def makeShape (g : Graph) (parents : List Nat) : Graph :=
  g.alloc ⟨g.shapeChain pc parents, true, fun _ => none⟩ []

/-- `makeSubclassWithMixins`. -/
def makeSubclassWithMixins (g : Graph) (superCls : Nat) (name : String)
    (mixins : List Nat) : Graph :=
  let shape := g.size
  ((g.makeShape pc (mixins.reverse ++ [superCls])).newChild shape).named (shape + 1) name

/-- The parents of the shape in `addBehaviorToClass`. -/
def behaviorParents (g : Graph) (oldCls mixin : Nat) : List Nat :=
  mixin :: (g.chain oldCls).reverse

/-- `addBehaviorToClass`. -/
def addBehaviorToClass (g : Graph) (oldCls mixin : Nat) : Graph :=
  let shape := g.size
  let g' := g.makeShape pc (g.behaviorParents oldCls mixin)
  let g' := g'.alloc ⟨shape :: g'.chain shape, false, (g.cells oldCls).attributes⟩
    ((g.declared.filter (·.1 = oldCls)).map (·.2))
  match g.own oldCls "__class_name__" with
  | some (.string name) => g'.bind name (.ref (shape + 1))
  | _ => g'

end Graph

/-- What a program does to the graph. -/
inductive ClassOp where
  | subclassNamed (superCls : Nat) (name : String)
  | subclass (superCls : Nat) (name : String)
  | subclassUses (superCls : Nat) (name : String) (mixins : List Nat)
  | addBehavior (cls mixin : Nat)
  | installMethod (cls : Nat) (selector : String) (m : MethodObj)
  | newChild (cls : Nat)
  | setAttribute (a : Nat) (key : String) (v : Value)
  | bind (name : String) (v : Value)
  | kernelLoaded
  deriving DecidableEq

def Value.isMethod : Value → Bool
  | .method _ => true
  | _ => false

namespace Graph

variable (pc : AddParent)

/-- The objects are there, a compiled method is installed once, and `__class_id__` and
methods are set by installations only. -/
def Enabled (g : Graph) : ClassOp → Prop
  | .subclassNamed superCls _ | .subclass superCls _ => g.IsObject superCls
  | .subclassUses superCls _ mixins => ∀ p ∈ superCls :: mixins, g.IsObject p
  | .addBehavior cls mixin => g.IsObject cls ∧ g.IsObject mixin
  | .installMethod cls selector m =>
      g.IsObject cls ∧ selector ≠ "__class_id__" ∧ ∀ d ∈ g.declared, d.2 ≠ m.module.id
  | .newChild cls => g.IsObject cls
  | .setAttribute a key v =>
      g.IsObject a ∧ key ≠ "__class_id__" ∧ v.isMethod = false ∧ v ≠ .nil
  | .bind _ _ | .kernelLoaded => True

instance (g : Graph) (op : ClassOp) : Decidable (g.Enabled op) :=
  match op with
  | .subclassNamed _ _ | .subclass _ _ | .newChild _ =>
      inferInstanceAs (Decidable (g.IsObject _))
  | .subclassUses superCls _ mixins =>
      inferInstanceAs (Decidable (∀ p ∈ superCls :: mixins, g.IsObject p))
  | .addBehavior _ _ => inferInstanceAs (Decidable (_ ∧ _))
  | .installMethod _ selector m =>
      inferInstanceAs (Decidable (_ ∧ selector ≠ "__class_id__" ∧
        ∀ d ∈ g.declared, d.2 ≠ m.module.id))
  | .setAttribute _ key _ =>
      inferInstanceAs (Decidable (_ ∧ key ≠ "__class_id__" ∧ _ = false ∧ _ ≠ _))
  | .bind _ _ | .kernelLoaded => inferInstanceAs (Decidable True)

def apply (g : Graph) : ClassOp → Graph
  | .subclassNamed superCls name => g.subclassNamed superCls name
  | .subclass superCls name => g.makeSubclass superCls name
  | .subclassUses superCls name mixins => g.makeSubclassWithMixins pc superCls name mixins
  | .addBehavior cls mixin => g.addBehaviorToClass pc cls mixin
  | .installMethod cls selector m => g.installMethod cls selector m
  | .newChild cls => g.newChild cls
  | .setAttribute a key v => g.setAttribute a key v
  | .bind name v => g.bind name v
  | .kernelLoaded => { g with kernelLoaded := true }

/-- **The condition.**  A class is not built over two copies of one class: among the
parents and all that is above them no two classes have one id, and none has the id of
the class that `addBehavior:` rebuilds. -/
def Apart (g : Graph) : ClassOp → Prop
  | .subclassUses superCls _ mixins => g.OneEach (g.ancestors (superCls :: mixins))
  | .addBehavior cls mixin =>
      g.OneEach (g.ancestors (g.behaviorParents cls mixin)) ∧
        ∀ x ∈ g.ancestors (g.behaviorParents cls mixin), ∀ v,
          g.classId x = some v → g.classId cls ≠ some v
  | .subclassNamed _ _ | .subclass _ _ | .installMethod _ _ _ | .newChild _
  | .setAttribute _ _ _ | .bind _ _ | .kernelLoaded => True

/-- The bootstrap: the root of protoCore and `objectProto`. -/
def IsInitial (g : Graph) : Prop :=
  g.size = 2 ∧ (∀ a, g.chain a = if a = objectProto then [0] else []) ∧
    (∀ a, (g.cells a).isShape = decide (a ≠ objectProto)) ∧
    (∀ a, g.classId a = none) ∧
    (∀ a key v, g.own a key = some v → v.isMethod = false ∧ a < 2) ∧
    g.nextClassId = 1 ∧ g.declared = []

/-- The programs that build classes. -/
def machine : Machine Graph ClassOp where
  init := IsInitial
  step g op := if g.Enabled op then some (g.apply pc op) else none

end Graph

end ProtoST.Runtime.ClassGraph

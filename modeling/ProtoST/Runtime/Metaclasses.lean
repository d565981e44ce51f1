import ProtoST.Runtime.SuperDispatch
import ProtoST.Runtime.Handlers

/-!
# Classes and their metaclasses

`prim_Object_class` and `metaclassOf` (`primitives/object_prims.cpp`) answer the
metaclass of a class.  The metaclass is made by the first `class` send and kept in the
attribute `__metaclass__` of the class, from a check to a store with nothing between
them that would hold another thread back: so the send is two steps here, and the steps
of the threads interleave.

The other operations on classes are the ones of `Runtime/ClassGraph.lean`, with
`prim_Object_shallowCopy` and the variables.  A class-instance variable is an attribute of
the class itself, a class variable one of the class that declares it, and both are kept
under `_iv_` and the name.  A thread runs each of these operations in one step.

What the class-instance variables of a class are to hold is stated beside the attributes
(`Image.instVars`): each class has its own, which its assignments set.

The comment at `metaclassOf` calls what `soleInstanceOf` reads `soleInstance`; no
message of that name is bound.

## Main results

* `classes_paired` — as long as no class is copied or rebuilt once it has its metaclass,
  no two threads make the metaclass of one class, and an assignment to a class variable
  finds the class that declares it, classes and metaclasses are paired.
* `not_paired_rebuilt`, `not_paired_hidden` — otherwise they need not be.
-/

namespace ProtoST.Runtime.ClassGraph.Metaclasses

open ProtoST.Lib
open ProtoST.Runtime.ClassGraph.Graph (own_alloc own_setAttribute size_stamp)
open ProtoST.Runtime.Handlers (ivSymbol)

/-! ## The operations -/

/-- `soleInstanceOf`. -/
def soleInstanceOf (g : Graph) : Value → Option Value
  | .ref a => g.own a "__sole_instance__"
  | _ => none

/-- `PUSH_OWN_INSTVAR`. -/
def ownInstVar (g : Graph) (self : Nat) (name : String) : Value :=
  (g.own self (ivSymbol name)).getD .nil

/-- `STORE_INSTVAR`. -/
def storeInstVar (g : Graph) (self : Nat) (name : String) (v : Value) : Graph :=
  g.setAttribute self (ivSymbol name) v

/-- `prim_Object_initClassVars`: a class that is declared again keeps its values. -/
def initClassVars (g : Graph) (cls : Nat) : List String → Graph
  | [] => g
  | name :: names =>
      if (g.own cls (ivSymbol name)).isSome then initClassVars g cls names
      else initClassVars (storeInstVar g cls name .nil) cls names

/-- The first object with the variable on the way along first parents.  A parent is older
than its child, so that no more than `p + 1` objects are on the way from `p`. -/
def firstOwner (g : Graph) (name : String) : Nat → Nat → Option Nat
  | 0, _ => none
  | n + 1, p =>
      if (g.own p (ivSymbol name)).isSome then some p
      else if p = objectProto then none
      else
        match (g.chain p).head? with
        | some parent => firstOwner g name n parent
        | none => none

/-- The object that `STORE_CLASSVAR` writes. -/
def classVarOwner (g : Graph) (self : Nat) (name : String) : Nat :=
  (firstOwner g name (self + 1) self).getD self

/-- `STORE_CLASSVAR`. -/
def storeClassVar (g : Graph) (self : Nat) (name : String) (v : Value) : Graph :=
  g.setAttribute (classVarOwner g self name) (ivSymbol name) v

/-- `prim_Object_shallowCopy` of an object. -/
def shallowCopy (g : Graph) (r : Nat) : Graph :=
  match g.chain r with
  | [] => g
  | parent :: _ =>
      g.alloc ⟨parent :: g.chain parent, false, (g.cells r).attributes⟩
        ((g.declared.filter (·.1 = r)).map (·.2))

/-- The name that `metaclassOf` gives to a metaclass. -/
def metaclassName : Value → String
  | .string name => name ++ " class"
  | _ => "Class class"

/-- The object that `metaclassOf` makes of a class that has no metaclass. -/
def newMetaclass (g : Graph) (cls : Nat) (className : Value) : Graph :=
  ((g.newChild objectProto).setAttribute g.size "__class_name__"
    (.string (metaclassName className))).setAttribute g.size "__sole_instance__" (.ref cls)

/-- What a program does with its classes, but for the `class` sends. -/
inductive Edit where
  | subclassNamed (superCls : Nat) (name : String)
  | subclass (superCls : Nat) (name : String)
  | subclassUses (superCls : Nat) (name : String) (mixins : List Nat)
  | addBehavior (cls mixin : Nat)
  /-- Of an instance or of a class-side method, as the method says. -/
  | installMethod (cls : Nat) (selector : String) (m : MethodObj)
  | newChild (cls : Nat)
  | shallowCopy (r : Nat)
  /-- Of a class it is an assignment to a class-instance variable. -/
  | storeInstVar (self : Nat) (name : String) (v : Value)
  | initClassVars (cls : Nat) (names : List String)
  | storeClassVar (self : Nat) (name : String) (v : Value)
  | setClassName (cls : Nat) (name : String)
  | bind (name : String) (v : Value)
  | kernelLoaded

/-- The objects that an edit is about. -/
def Edit.operands : Edit → List Nat
  | .subclassNamed a _ | .subclass a _ | .installMethod a _ _ | .newChild a | .shallowCopy a
  | .storeInstVar a _ _ | .initClassVars a _ | .storeClassVar a _ _ | .setClassName a _ => [a]
  | .subclassUses a _ mixins => a :: mixins
  | .addBehavior a mixin => [a, mixin]
  | .bind _ _ | .kernelLoaded => []

/-- The object that an edit makes with the attributes of another one, and that one. -/
def Edit.copied (g : Graph) : Edit → Option (Nat × Nat)
  | .addBehavior cls _ => some (g.size + 1, cls)
  | .shallowCopy r => if g.chain r = [] then none else some (g.size, r)
  | _ => none

def Edit.apply (pc : AddParent) (g : Graph) : Edit → Graph
  | .subclassNamed superCls name => g.subclassNamed superCls name
  | .subclass superCls name => g.makeSubclass superCls name
  | .subclassUses superCls name mixins => g.makeSubclassWithMixins pc superCls name mixins
  | .addBehavior cls mixin => g.addBehaviorToClass pc cls mixin
  | .installMethod cls selector m => g.installMethod cls selector m
  | .newChild cls => g.newChild cls
  | .shallowCopy r => Metaclasses.shallowCopy g r
  | .storeInstVar self name v => Metaclasses.storeInstVar g self name v
  | .initClassVars cls names => Metaclasses.initClassVars g cls names
  | .storeClassVar self name v => Metaclasses.storeClassVar g self name v
  | .setClassName cls name => g.setAttribute cls "__class_name__" (.string name)
  | .bind name v => g.bind name v
  | .kernelLoaded => { g with kernelLoaded := true }

/-- What the copy of an object is given of what the objects have. -/
def copying {β : Type} (copied : Option (Nat × Nat)) (has : Nat → β) : Nat → β :=
  match copied with
  | some (copy, original) => Function.update has copy (has original)
  | none => has

/-- The class variables that each class declares. -/
def Edit.declare (g : Graph) (classVars : Nat → List String) : Edit → Nat → List String
  | .initClassVars cls names => Function.update classVars cls (names ++ classVars cls)
  | e => copying (e.copied g) classVars

/-- What the class-instance variables of each class are to hold. -/
def Edit.assign (g : Graph) (instVars : Nat → String → Value) : Edit → Nat → String → Value
  | .storeInstVar self name v =>
      Function.update instVars self (Function.update (instVars self) name v)
  | e => copying (e.copied g) instVars

theorem copying_self {β : Type} {copy original : Nat} {f : Nat → β} :
    copying (some (copy, original)) f copy = f original :=
  Function.update_self ..

theorem copying_of_ne {β : Type} {a copy original : Nat} {f : Nat → β} (h : a ≠ copy) :
    copying (some (copy, original)) f a = f a :=
  Function.update_of_ne h ..

/-- A thread that has found no metaclass of a class and has made one. -/
structure Creating where
  cls : Nat
  metaclass : Nat

structure Image where
  graph : Graph
  /-- What each thread is about. -/
  sends : Nat → Option Creating
  /-- The classes that `class` was sent to, with the answers. -/
  answers : List (Nat × Value)
  classVars : Nat → List String
  instVars : Nat → String → Value

inductive Action where
  | edit (e : Edit)
  /-- `class` up to its answer, or to the store of a new metaclass. -/
  | sendClass (thread cls : Nat)
  | storeMetaclass (thread : Nat)

/-- The check of `metaclassOf`. -/
def sendClass (s : Image) (thread cls : Nat) (className : Value) : Image :=
  match s.graph.own cls "__metaclass__" with
  | some answer => { s with answers := (cls, answer) :: s.answers }
  | none =>
      { s with
        graph := newMetaclass s.graph cls className
        sends := Function.update s.sends thread (some ⟨cls, s.graph.size⟩) }

/-- The store of `metaclassOf`. -/
def storeMetaclass (s : Image) (thread : Nat) (p : Creating) : Image :=
  { s with
    graph := s.graph.setAttribute p.cls "__metaclass__" (.ref p.metaclass)
    sends := Function.update s.sends thread none
    answers := (p.cls, .ref p.metaclass) :: s.answers }

def editImage (pc : AddParent) (s : Image) (e : Edit) : Image :=
  { s with
    graph := e.apply pc s.graph
    classVars := e.declare s.graph s.classVars
    instVars := e.assign s.graph s.instVars }

def step (pc : AddParent) (s : Image) : Action → Option Image
  | .edit e =>
      if ∀ a ∈ e.operands, s.graph.IsObject a then some (editImage pc s e) else none
  | .sendClass thread cls =>
      match s.sends thread, s.graph.own cls "__class_name__" with
      | none, some className =>
          if s.graph.IsObject cls then some (sendClass s thread cls className) else none
      | _, _ => none
  | .storeMetaclass thread => (s.sends thread).map fun p => storeMetaclass s thread p

/-- The threads of a program, from the bootstrap on. -/
def machine (pc : AddParent) : Machine Image Action where
  init s := s.graph.IsInitial ∧ (∀ a, s.graph.own a "__metaclass__" = none) ∧
    (∀ thread, s.sends thread = none) ∧ s.answers = [] ∧ (∀ cls, s.classVars cls = []) ∧
    ∀ cls name, s.instVars cls name = ownInstVar s.graph cls name
  step := step pc

/-! ## Pairing -/

/-- **The claim, of a state.** -/
structure Paired (s : Image) : Prop where
  same : ∀ cls a b, (cls, a) ∈ s.answers → (cls, b) ∈ s.answers → a = b
  soleInstance : ∀ cls a, (cls, a) ∈ s.answers → soleInstanceOf s.graph a = some (.ref cls)
  distinct : ∀ cls other a, (cls, a) ∈ s.answers → (other, a) ∈ s.answers → cls = other
  /-- A class-instance variable holds what its class assigned to it; where the class has a
  class variable of that name, it never assigned to another one. -/
  unshared : ∀ cls name, ownInstVar s.graph cls name = s.instVars cls name ∨
    name ∈ s.classVars cls ∧ s.instVars cls name = .nil

/-- **The condition**, on a step. -/
def Separate (s : Image) : Action → Prop
  | .edit (.addBehavior cls _) => s.graph.own cls "__metaclass__" = none
  | .edit (.shallowCopy r) => s.graph.own r "__metaclass__" = none
  | .edit (.installMethod _ selector _) =>
      selector ≠ "__metaclass__" ∧ selector ≠ "__sole_instance__" ∧
        ∀ name, selector ≠ ivSymbol name
  | .edit (.storeInstVar self name _) => name ∉ s.classVars self
  | .edit (.initClassVars cls names) => ∀ name ∈ names,
      name ∈ s.classVars cls ∨ s.graph.own cls (ivSymbol name) = none
  | .edit (.storeClassVar self name _) => name ∈ s.classVars (classVarOwner s.graph self name)
  | .sendClass _ cls => s.graph.own cls "__metaclass__" = none →
      ∀ thread p, s.sends thread = some p → p.cls ≠ cls
  | _ => True

/-! ## What an edit leaves alone -/

section Edits

variable {g : Graph} {pc : AddParent} {a b : Nat} {key name : String}

theorem own_newChild :
    (g.newChild a).own b key = if b = g.size then none else g.own b key :=
  own_alloc

theorem own_named :
    (g.named a name).own b key =
      if b = a ∧ key = "__class_name__" then some (.string name) else g.own b key :=
  own_setAttribute

theorem own_initClassVars (names : List String) (g : Graph) :
    (initClassVars g a names).size = g.size ∧
      (¬ (b = a ∧ ∃ name ∈ names, key = ivSymbol name) →
        (initClassVars g a names).own b key = g.own b key) := by
  induction names generalizing g with
  | nil => exact ⟨rfl, fun _ => rfl⟩
  | cons name names ih =>
      have hRest : ¬ (b = a ∧ ∃ x ∈ name :: names, key = ivSymbol x) →
          ¬ (b = a ∧ ∃ x ∈ names, key = ivSymbol x) :=
        fun h ⟨hb, x, hx, hKey⟩ => h ⟨hb, x, List.mem_cons_of_mem name hx, hKey⟩
      unfold initClassVars
      split
      · exact ⟨(ih g).1, fun h => (ih g).2 (hRest h)⟩
      · refine ⟨(ih _).1, fun h => ((ih _).2 (hRest h)).trans ?_⟩
        exact own_setAttribute.trans (if_neg fun hThis =>
          h ⟨hThis.1, name, List.mem_cons_self, hThis.2⟩)

/-- A class that is declared for the first time. -/
theorem own_declared {superCls : Nat} (h : g.existingClass superCls name = none) (b : Nat)
    (key : String) :
    (g.subclassNamed superCls name).size = g.size + 1 ∧
      (b ≠ g.size → (g.subclassNamed superCls name).own b key = g.own b key) ∧
      (key ≠ "__class_name__" → key ≠ "__user_class__" →
        (g.subclassNamed superCls name).own g.size key = none) := by
  unfold Graph.subclassNamed
  rw [h]
  dsimp only
  split
  · refine ⟨rfl, fun hb => ?_, fun hName hUser => ?_⟩
    · rw [own_named, if_neg (fun h => hb h.1), own_setAttribute, if_neg (fun h => hb h.1),
        own_newChild, if_neg hb]
    · rw [own_named, if_neg (fun h => hName h.2), own_setAttribute, if_neg (fun h => hUser h.2),
        own_newChild, if_pos rfl]
  · refine ⟨rfl, fun hb => ?_, fun hName _ => ?_⟩
    · rw [own_named, if_neg (fun h => hb h.1), own_newChild, if_neg hb]
    · rw [own_named, if_neg (fun h => hName h.2), own_newChild, if_pos rfl]

theorem own_makeSubclassWithMixins {superCls : Nat} {mixins : List Nat} :
    (g.makeSubclassWithMixins pc superCls name mixins).own b key =
      if b = g.size + 1 ∧ key = "__class_name__" then some (.string name)
      else if b = g.size + 1 ∨ b = g.size then none else g.own b key := by
  have hShape : (g.makeShape pc (mixins.reverse ++ [superCls])).size = g.size + 1 := rfl
  unfold Graph.makeSubclassWithMixins
  rw [own_named, own_newChild, hShape]
  by_cases hNew : b = g.size + 1
  · simp [hNew]
  · by_cases hb : b = g.size
    · simp [hb, Graph.makeShape]
    · simp [hNew, hb, Graph.makeShape]

theorem own_addBehaviorToClass (g : Graph) (pc : AddParent) (cls mixin b : Nat) (key : String) :
    (g.addBehaviorToClass pc cls mixin).size = g.size + 2 ∧
      (g.addBehaviorToClass pc cls mixin).own b key =
        if b = g.size + 1 then g.own cls key else if b = g.size then none else g.own b key := by
  have hOwn : ∀ (chain : List Nat) (methods : List Nat),
      ((g.makeShape pc (g.behaviorParents cls mixin)).alloc
        ⟨chain, false, (g.cells cls).attributes⟩ methods).own b key =
        if b = g.size + 1 then g.own cls key else if b = g.size then none else g.own b key := by
    intro chain methods
    have hShape : (g.makeShape pc (g.behaviorParents cls mixin)).size = g.size + 1 := rfl
    rw [own_alloc, hShape]
    by_cases hNew : b = g.size + 1
    · rw [if_pos hNew, if_pos hNew]
      rfl
    · rw [if_neg hNew, if_neg hNew, Graph.makeShape, own_alloc]
  unfold Graph.addBehaviorToClass
  dsimp only
  split
  · refine ⟨rfl, ?_⟩
    exact hOwn _ ((g.declared.filter (·.1 = cls)).map (·.2))
  · exact ⟨rfl, hOwn _ _⟩

theorem own_stampDefiningClass {cls : Nat} {m : MethodObj}
    (h : ¬ (b = cls ∧ key = "__class_id__")) :
    (g.stampDefiningClass cls m).own b key = g.own b key := by
  unfold Graph.stampDefiningClass
  split
  · rfl
  · exact own_setAttribute.trans (if_neg h)

theorem own_shallowCopy (g : Graph) (a b : Nat) (key : String) :
    (g.chain a = [] ∧ shallowCopy g a = g) ∨
      g.chain a ≠ [] ∧ (shallowCopy g a).size = g.size + 1 ∧
        (shallowCopy g a).own b key = if b = g.size then g.own a key else g.own b key := by
  unfold shallowCopy
  split
  · rename_i hChain
    exact .inl ⟨hChain, rfl⟩
  · rename_i hChain
    exact .inr ⟨by rw [hChain]; exact List.cons_ne_nil _ _, rfl, own_alloc⟩

/-- The attributes that an edit writes, of the objects there are. -/
def Edit.Touches (g : Graph) (a : Nat) (key : String) : Edit → Prop
  | .subclassNamed superCls name =>
      g.existingClass superCls name = some a ∧ key = "__class_name__"
  | .installMethod cls selector _ => a = cls ∧ (key = selector ∨ key = "__class_id__")
  | .storeInstVar self name _ => a = self ∧ key = ivSymbol name
  | .initClassVars cls names => a = cls ∧ ∃ name ∈ names, key = ivSymbol name
  | .storeClassVar self name _ => a = classVarOwner g self name ∧ key = ivSymbol name
  | .setClassName cls _ => a = cls ∧ key = "__class_name__"
  | _ => False

/-- What an edit does to the attributes. -/
theorem own_edit (hFresh : ∀ a key, g.size ≤ a → g.own a key = none) (pc : AddParent) (e : Edit)
    (a : Nat) (key : String) :
    g.size ≤ (e.apply pc g).size ∧
      ((a < g.size ∨ (e.apply pc g).size ≤ a) → ¬ e.Touches g a key →
        (e.apply pc g).own a key = g.own a key) ∧
      (g.size ≤ a → a < (e.apply pc g).size → key ≠ "__class_name__" → key ≠ "__user_class__" →
        (e.apply pc g).own a key = copying (e.copied g) (g.own · key) a) := by
  cases e with
  | subclassNamed superCls name =>
      show g.size ≤ (g.subclassNamed superCls name).size ∧
        ((a < g.size ∨ (g.subclassNamed superCls name).size ≤ a) → _ →
          (g.subclassNamed superCls name).own a key = _) ∧
        (_ → a < (g.subclassNamed superCls name).size → _ → _ →
          (g.subclassNamed superCls name).own a key = g.own a key)
      cases hExisting : g.existingClass superCls name with
      | some cls =>
          have hSame : g.subclassNamed superCls name = g.named cls name := by
            unfold Graph.subclassNamed
            rw [hExisting]
          rw [hSame]
          refine ⟨le_refl _, fun _ hUntouched => ?_, fun hGe hLt => absurd hLt (not_lt.mpr hGe)⟩
          refine own_named.trans (if_neg fun h => hUntouched ⟨?_, h.2⟩)
          rw [h.1]
          exact hExisting
      | none =>
          obtain ⟨hSize, hOld, hNew⟩ := own_declared hExisting a key
          rw [hSize]
          refine ⟨Nat.le_succ _, fun h _ => hOld (by omega), fun hGe hLt hName hUser => ?_⟩
          have ha : a = g.size := by omega
          rw [hFresh a key hGe, ha]
          exact hNew hName hUser
  | subclass superCls name =>
      refine ⟨Nat.le_succ _, fun h _ => ?_, fun hGe hLt hName _ => ?_⟩
      · have hOld : a ≠ g.size := by
          rcases h with h | h
          · exact Nat.ne_of_lt h
          · exact Nat.ne_of_gt h
        exact own_named.trans ((if_neg fun h => hOld h.1).trans (own_newChild.trans (if_neg hOld)))
      · have hNew : a = g.size := Nat.le_antisymm (Nat.le_of_lt_succ hLt) hGe
        refine Eq.trans ?_ (hFresh a key hGe).symm
        exact own_named.trans ((if_neg fun h => hName h.2).trans (own_newChild.trans (if_pos hNew)))
  | subclassUses superCls name mixins =>
      refine ⟨Nat.le_add_right _ 2, fun h _ => ?_, fun hGe hLt hName _ => ?_⟩
      · have hOld : a < g.size ∨ g.size + 2 ≤ a := h
        refine own_makeSubclassWithMixins.trans ((if_neg ?_).trans (if_neg ?_))
        · omega
        · omega
      · have hLt' : a < g.size + 2 := hLt
        refine Eq.trans ?_ (hFresh a key hGe).symm
        refine own_makeSubclassWithMixins.trans ((if_neg fun h => hName h.2).trans (if_pos ?_))
        omega
  | addBehavior cls mixin =>
      obtain ⟨hSize, hOwn⟩ := own_addBehaviorToClass g pc cls mixin a key
      refine ⟨?_, fun h _ => ?_, fun hGe hLt _ _ => ?_⟩
      · show g.size ≤ (g.addBehaviorToClass pc cls mixin).size
        omega
      · have hOld : a < g.size ∨ (g.addBehaviorToClass pc cls mixin).size ≤ a := h
        refine hOwn.trans ((if_neg ?_).trans (if_neg ?_))
        · omega
        · omega
      · have hLt' : a < (g.addBehaviorToClass pc cls mixin).size := hLt
        by_cases hNew : a = g.size + 1
        · rw [hNew] at hOwn ⊢
          exact hOwn.trans ((if_pos rfl).trans (copying_self (f := (g.own · key))).symm)
        · refine hOwn.trans ((if_neg hNew).trans ((if_pos (by omega)).trans ?_))
          exact (hFresh a key hGe).symm.trans (copying_of_ne (f := (g.own · key)) hNew).symm
  | installMethod cls selector m =>
      have hSize : (g.installMethod cls selector m).size = g.size := size_stamp
      refine ⟨le_of_eq hSize.symm, fun _ hUntouched => ?_, fun hGe hLt => ?_⟩
      · refine Graph.own_installMethod.trans ((if_neg fun h => hUntouched ⟨h.1, .inl h.2⟩).trans ?_)
        exact own_stampDefiningClass fun h => hUntouched ⟨h.1, .inr h.2⟩
      · exact absurd (lt_of_lt_of_eq hLt hSize) (not_lt.mpr hGe)
  | newChild cls =>
      refine ⟨Nat.le_succ _, fun h _ => ?_, fun hGe hLt _ _ => ?_⟩
      · refine own_newChild.trans (if_neg ?_)
        rcases h with h | h
        · exact Nat.ne_of_lt h
        · exact Nat.ne_of_gt h
      · refine Eq.trans ?_ (hFresh a key hGe).symm
        exact own_newChild.trans (if_pos (Nat.le_antisymm (Nat.le_of_lt_succ hLt) hGe))
  | shallowCopy r =>
      show g.size ≤ (shallowCopy g r).size ∧
        ((a < g.size ∨ (shallowCopy g r).size ≤ a) → _ → (shallowCopy g r).own a key = _) ∧
        (_ → a < (shallowCopy g r).size → _ → _ → (shallowCopy g r).own a key =
          copying (if g.chain r = [] then none else some (g.size, r)) (g.own · key) a)
      rcases own_shallowCopy g r a key with ⟨-, hSame⟩ | ⟨hChain, hSize, hOwn⟩
      · rw [hSame]
        exact ⟨le_refl _, fun _ _ => rfl, fun hGe hLt => absurd hLt (not_lt.mpr hGe)⟩
      · rw [hSize, hOwn, if_neg hChain]
        refine ⟨Nat.le_succ _, fun h _ => if_neg (by omega), fun hGe hLt _ _ => ?_⟩
        have hNew : a = g.size := by omega
        rw [if_pos hNew, hNew]
        exact (copying_self (f := (g.own · key))).symm
  | storeInstVar self name v =>
      refine ⟨le_refl _, fun _ hUntouched => ?_, fun hGe hLt => absurd hLt (not_lt.mpr hGe)⟩
      exact own_setAttribute.trans (if_neg hUntouched)
  | initClassVars cls names =>
      obtain ⟨hSize, hOwn⟩ := own_initClassVars names g
      refine ⟨le_of_eq hSize.symm, fun _ hUntouched => hOwn hUntouched, fun hGe hLt => ?_⟩
      exact absurd (lt_of_lt_of_eq hLt hSize) (not_lt.mpr hGe)
  | storeClassVar self name v =>
      refine ⟨le_refl _, fun _ hUntouched => ?_, fun hGe hLt => absurd hLt (not_lt.mpr hGe)⟩
      exact own_setAttribute.trans (if_neg hUntouched)
  | setClassName cls name =>
      refine ⟨le_refl _, fun _ hUntouched => ?_, fun hGe hLt => absurd hLt (not_lt.mpr hGe)⟩
      exact own_setAttribute.trans (if_neg hUntouched)
  | bind name v => exact ⟨le_refl _, fun _ _ => rfl, fun hGe hLt => absurd hLt (not_lt.mpr hGe)⟩
  | kernelLoaded => exact ⟨le_refl _, fun _ _ => rfl, fun hGe hLt => absurd hLt (not_lt.mpr hGe)⟩

/-- A copy is a new object. -/
theorem copied_bounds (pc : AddParent) {e : Edit} {copy original : Nat}
    (h : e.copied g = some (copy, original)) :
    g.size ≤ copy ∧ copy < (e.apply pc g).size ∧ original ∈ e.operands := by
  cases e with
  | addBehavior cls mixin =>
      have hSize : ((Edit.addBehavior cls mixin).apply pc g).size = g.size + 2 :=
        (own_addBehaviorToClass g pc cls mixin 0 "").1
      cases h
      exact ⟨Nat.le_succ _, by omega, List.mem_cons_self⟩
  | shallowCopy r =>
      rcases own_shallowCopy g r 0 "" with ⟨hChain, -⟩ | ⟨hChain, hSize, -⟩
      · cases h.symm.trans (if_pos hChain)
      · cases h.symm.trans (if_neg hChain)
        exact ⟨le_refl _, (Nat.lt_succ_self _).trans_eq hSize.symm, List.mem_cons_self⟩
  | _ => cases h

/-- The attributes that an edit does not write go to the copies. -/
theorem own_edit_of_not_touches (hFresh : ∀ a key, g.size ≤ a → g.own a key = none) {e : Edit}
    (hTouches : ¬ e.Touches g a key) (hName : key ≠ "__class_name__")
    (hUser : key ≠ "__user_class__") :
    (e.apply pc g).own a key = copying (e.copied g) (g.own · key) a := by
  obtain ⟨-, hOld, hNew⟩ := own_edit hFresh pc e a key
  by_cases hThere : a < g.size ∨ (e.apply pc g).size ≤ a
  · rw [hOld hThere hTouches]
    cases hCopied : e.copied g with
    | none => rfl
    | some p =>
        obtain ⟨hGe, hLt, -⟩ := copied_bounds pc hCopied
        exact (copying_of_ne (f := (g.own · key)) (by omega)).symm
  · exact hNew (by omega) (by omega) hName hUser

theorem firstOwner_cases {n p owner : Nat} (h : firstOwner g name n p = some owner) :
    (g.own owner (ivSymbol name)).isSome := by
  induction n generalizing p with
  | zero => cases h
  | succ n ih =>
      unfold firstOwner at h
      split at h
      · rename_i hOwn
        cases h
        exact hOwn
      · split at h
        · cases h
        · split at h
          · exact ih h
          · cases h

theorem classVarOwner_lt (hFresh : ∀ a key, g.size ≤ a → g.own a key = none) (ha : a < g.size) :
    classVarOwner g a name < g.size := by
  unfold classVarOwner
  cases hFirst : firstOwner g name (a + 1) a with
  | none => exact ha
  | some owner =>
      have hOwn := firstOwner_cases hFirst
      by_contra hGe
      rw [Option.getD_some, not_lt] at hGe
      rw [hFresh owner _ hGe] at hOwn
      cases hOwn

/-- What is written is there. -/
theorem touches_lt (hFresh : ∀ a key, g.size ≤ a → g.own a key = none) {e : Edit}
    (hOperands : ∀ b ∈ e.operands, g.IsObject b) (h : e.Touches g a key) : a < g.size := by
  cases e with
  | subclassNamed superCls name =>
      obtain ⟨hExisting, -⟩ := h
      by_contra hGe
      unfold Graph.existingClass at hExisting
      split at hExisting
      · split at hExisting
        · rename_i hUser
          cases hExisting
          rw [hFresh _ _ (not_lt.mp hGe)] at hUser
          cases hUser.1
        · cases hExisting
      · cases hExisting
  | installMethod cls _ _ | storeInstVar cls _ _ | initClassVars cls _ | setClassName cls _ =>
      rw [h.1]
      exact (hOperands cls List.mem_cons_self).1
  | storeClassVar self name v =>
      rw [h.1]
      exact classVarOwner_lt hFresh (hOperands self List.mem_cons_self).1
  | _ => exact h.elim

end Edits

/-- What a step is. -/
theorem step_cases {pc : AddParent} {s t : Image} {action : Action}
    (hStep : step pc s action = some t) :
    (∃ e : Edit, action = .edit e ∧ (∀ a ∈ e.operands, s.graph.IsObject a) ∧
        t = editImage pc s e) ∨
      (∃ thread cls className, action = .sendClass thread cls ∧ s.sends thread = none ∧
        s.graph.own cls "__class_name__" = some className ∧ s.graph.IsObject cls ∧
        t = sendClass s thread cls className) ∨
      ∃ thread p, action = .storeMetaclass thread ∧ s.sends thread = some p ∧
        t = storeMetaclass s thread p := by
  cases action with
  | edit e =>
      by_cases hOperands : ∀ a ∈ e.operands, s.graph.IsObject a
      · exact .inl ⟨e, rfl, hOperands, Option.some.inj (hStep.symm.trans (if_pos hOperands))⟩
      · cases hStep.symm.trans (if_neg hOperands)
  | sendClass thread cls =>
      cases hSend : s.sends thread with
      | some p => simp [step, hSend] at hStep
      | none =>
          cases hName : s.graph.own cls "__class_name__" with
          | none => simp [step, hSend, hName] at hStep
          | some className =>
              by_cases hObject : s.graph.IsObject cls
              · have hSent : sendClass s thread cls className = t := by
                  simpa [step, hSend, hName, hObject] using hStep
                exact .inr (.inl ⟨thread, cls, className, rfl, hSend, hName, hObject, hSent.symm⟩)
              · simp [step, hSend, hName, hObject] at hStep
  | storeMetaclass thread =>
      obtain ⟨p, hSend, hStored⟩ := Option.map_eq_some_iff.mp hStep
      exact .inr (.inr ⟨thread, p, rfl, hSend, hStored.symm⟩)

/-! ## The invariant -/

/-- `m` has been made as the metaclass of `cls`. -/
structure Describes (g : Graph) (m cls : Nat) : Prop where
  cls_lt : cls < g.size
  metaclass_lt : m < g.size
  soleInstance : g.own m "__sole_instance__" = some (.ref cls)

structure Inv (s : Image) : Prop where
  stored : ∀ cls v, s.graph.own cls "__metaclass__" = some v →
    ∃ m, v = .ref m ∧ Describes s.graph m cls
  creating : ∀ thread p, s.sends thread = some p →
    s.graph.own p.cls "__metaclass__" = none ∧ Describes s.graph p.metaclass p.cls
  /-- One thread at a time makes the metaclass of a class. -/
  alone : ∀ thread other p q, s.sends thread = some p → s.sends other = some q →
    p.cls = q.cls → thread = other
  answered : ∀ cls a, (cls, a) ∈ s.answers → s.graph.own cls "__metaclass__" = some a

/-- What is invariant of the variables. -/
structure Vars (s : Image) : Prop where
  fresh : ∀ a key, s.graph.size ≤ a → s.graph.own a key = none
  undeclared : ∀ a, s.graph.size ≤ a → s.classVars a = []
  apart : ∀ cls name, name ∈ s.classVars cls → s.instVars cls name = .nil
  unshared : ∀ cls name, ownInstVar s.graph cls name = s.instVars cls name ∨
    name ∈ s.classVars cls

/-- What every step but the store does to the attributes of the pairing. -/
structure Keeps (g g' : Graph) : Prop where
  size_le : g.size ≤ g'.size
  metaclass : ∀ cls, g'.own cls "__metaclass__" = g.own cls "__metaclass__" ∨
    g.size ≤ cls ∧ g'.own cls "__metaclass__" = none
  soleInstance : ∀ m < g.size, g'.own m "__sole_instance__" = g.own m "__sole_instance__"

section Invariant

variable {s : Image} {g : Graph} {pc : AddParent}

theorem Describes.keeps {g' : Graph} (hKeeps : Keeps g g') {m cls : Nat}
    (h : Describes g m cls) : Describes g' m cls where
  cls_lt := Nat.lt_of_lt_of_le h.cls_lt hKeeps.size_le
  metaclass_lt := Nat.lt_of_lt_of_le h.metaclass_lt hKeeps.size_le
  soleInstance := (hKeeps.soleInstance m h.metaclass_lt).trans h.soleInstance

theorem Keeps.metaclass_lt {g' : Graph} (hKeeps : Keeps g g') {cls : Nat} (h : cls < g.size) :
    g'.own cls "__metaclass__" = g.own cls "__metaclass__" := by
  rcases hKeeps.metaclass cls with hSame | ⟨hGe, -⟩
  · exact hSame
  · exact absurd h (not_lt.mpr hGe)

theorem Inv.keeps (h : Inv s) {t : Image} (hKeeps : Keeps s.graph t.graph)
    (hSends : t.sends = s.sends) (hAnswers : t.answers = s.answers) : Inv t where
  stored cls v hOwn := by
    rcases hKeeps.metaclass cls with hSame | ⟨-, hNone⟩
    · obtain ⟨m, hRef, hDescribes⟩ := h.stored cls v (hSame.symm.trans hOwn)
      exact ⟨m, hRef, hDescribes.keeps hKeeps⟩
    · cases hNone.symm.trans hOwn
  creating thread p hp := by
    obtain ⟨hNone, hDescribes⟩ := h.creating thread p (hSends ▸ hp)
    exact ⟨(hKeeps.metaclass_lt hDescribes.cls_lt).trans hNone, hDescribes.keeps hKeeps⟩
  alone thread other p q hp hq := h.alone thread other p q (hSends ▸ hp) (hSends ▸ hq)
  answered cls a ha := by
    have hOwn := h.answered cls a (hAnswers ▸ ha)
    obtain ⟨m, -, hDescribes⟩ := h.stored cls a hOwn
    exact (hKeeps.metaclass_lt hDescribes.cls_lt).trans hOwn

theorem ivSymbol_injective {x y : String} (h : ivSymbol x = ivSymbol y) : x = y :=
  String.append_right_inj "_iv_" |>.mp h

theorem ivSymbol_ne {key name : String} (hKey : ¬ "_iv_".toList <+: key.toList) :
    key ≠ ivSymbol name := by
  intro h
  apply hKey
  rw [h, ivSymbol, String.toList_append]
  exact List.prefix_append _ _

variable {e : Edit}

/-- An edit that meets the condition leaves the attributes of the pairing alone. -/
theorem not_touches (hSeparate : Separate s (.edit e)) {key : String}
    (hKey : key ∈ ["__metaclass__", "__sole_instance__"]) (a : Nat) :
    ¬ e.Touches s.graph a key := by
  intro hTouches
  have hPlain : key ≠ "__class_name__" ∧ key ≠ "__class_id__" ∧
      ¬ "_iv_".toList <+: key.toList := by
    rcases List.mem_pair.mp hKey with rfl | rfl
    · decide
    · decide
  cases e with
  | installMethod cls selector m =>
      rcases hTouches.2 with hSelector | hId
      · rw [hSelector] at hKey
        exact (List.mem_pair.mp hKey).elim hSeparate.1 hSeparate.2.1
      · exact hPlain.2.1 hId
  | storeInstVar self name v => exact ivSymbol_ne hPlain.2.2 hTouches.2
  | storeClassVar self name v => exact ivSymbol_ne hPlain.2.2 hTouches.2
  | initClassVars cls names =>
      obtain ⟨name, -, hName⟩ := hTouches.2
      exact ivSymbol_ne hPlain.2.2 hName
  | subclassNamed superCls name => exact hPlain.1 hTouches.2
  | setClassName cls name => exact hPlain.1 hTouches.2
  | _ => exact hTouches

theorem keeps_edit (hVars : Vars s) (hSeparate : Separate s (.edit e)) :
    Keeps s.graph (e.apply pc s.graph) := by
  have hOwn : ∀ a, ∀ key ∈ ["__metaclass__", "__sole_instance__"],
      (e.apply pc s.graph).own a key = copying (e.copied s.graph) (s.graph.own · key) a := by
    intro a key hKey
    refine own_edit_of_not_touches hVars.fresh (not_touches hSeparate hKey a) ?_ ?_ <;>
      rcases List.mem_pair.mp hKey with rfl | rfl <;> decide
  have hSource : ∀ copy r, e.copied s.graph = some (copy, r) →
      s.graph.own r "__metaclass__" = none := by
    intro copy r hr
    cases e with
    | addBehavior cls mixin =>
        cases hr
        exact hSeparate
    | shallowCopy q =>
        by_cases hChain : s.graph.chain q = []
        · cases hr.symm.trans (if_pos hChain)
        · cases hr.symm.trans (if_neg hChain)
          exact hSeparate
    | _ => cases hr
  refine ⟨(own_edit hVars.fresh pc e 0 "").1, fun cls => ?_, fun m hm => ?_⟩
  · rw [hOwn cls _ (by decide)]
    cases hCopied : e.copied s.graph with
    | none => exact .inl rfl
    | some p =>
        obtain ⟨copy, r⟩ := p
        by_cases hCls : cls = copy
        · rw [hCls, copying_self]
          exact .inr ⟨(copied_bounds pc hCopied).1, hSource copy r hCopied⟩
        · exact .inl (copying_of_ne hCls)
  · rw [hOwn m _ (by decide)]
    cases hCopied : e.copied s.graph with
    | none => rfl
    | some p =>
        have hGe := (copied_bounds pc hCopied).1
        exact copying_of_ne (by omega)

/-- An edit that is no assignment to a variable and declares none. -/
theorem Vars.copy (h : Vars s)
    (hOwn : ∀ a name, (e.apply pc s.graph).own a (ivSymbol name) =
      copying (e.copied s.graph) (s.graph.own · (ivSymbol name)) a)
    (hDeclare : e.declare s.graph s.classVars = copying (e.copied s.graph) s.classVars)
    (hAssign : e.assign s.graph s.instVars = copying (e.copied s.graph) s.instVars) :
    (∀ cls name, name ∈ (editImage pc s e).classVars cls →
        (editImage pc s e).instVars cls name = .nil) ∧
      ∀ cls name, ownInstVar (editImage pc s e).graph cls name =
        (editImage pc s e).instVars cls name ∨ name ∈ (editImage pc s e).classVars cls := by
  have hFrom : ∀ cls, ∃ r, (editImage pc s e).classVars cls = s.classVars r ∧
      (editImage pc s e).instVars cls = s.instVars r ∧
      ∀ name, ownInstVar (editImage pc s e).graph cls name = ownInstVar s.graph r name := by
    intro cls
    have hVar : ∀ name, ownInstVar (editImage pc s e).graph cls name =
        (copying (e.copied s.graph) (s.graph.own · (ivSymbol name)) cls).getD .nil :=
      fun name => congrArg (fun v => v.getD Value.nil) (hOwn cls name)
    have hDeclared : (editImage pc s e).classVars cls = _ := congrFun hDeclare cls
    have hAssigned : (editImage pc s e).instVars cls = _ := congrFun hAssign cls
    cases hCopied : e.copied s.graph with
    | none =>
        simp only [hCopied] at hVar hDeclared hAssigned
        exact ⟨cls, hDeclared, hAssigned, hVar⟩
    | some p =>
        obtain ⟨copy, original⟩ := p
        simp only [hCopied] at hVar hDeclared hAssigned
        by_cases hCls : cls = copy
        · simp only [hCls, copying_self] at hVar hDeclared hAssigned
          rw [hCls]
          exact ⟨original, hDeclared, hAssigned, hVar⟩
        · simp only [copying_of_ne hCls] at hVar hDeclared hAssigned
          exact ⟨cls, hDeclared, hAssigned, hVar⟩
  refine ⟨fun cls name hName => ?_, fun cls name => ?_⟩
  · obtain ⟨r, hDeclared, hAssigned, -⟩ := hFrom cls
    rw [hAssigned]
    rw [hDeclared] at hName
    exact h.apart r name hName
  · obtain ⟨r, hDeclared, hAssigned, hVar⟩ := hFrom cls
    rw [hAssigned, hDeclared, hVar]
    exact h.unshared r name

variable {className : Value}

theorem own_newMetaclass {cls b : Nat} {key : String} :
    (newMetaclass g cls className).own b key =
      if b = g.size then
        if key = "__sole_instance__" then some (.ref cls)
        else if key = "__class_name__" then some (.string (metaclassName className)) else none
      else g.own b key := by
  unfold newMetaclass
  rw [own_setAttribute, own_setAttribute, own_newChild]
  by_cases hb : b = g.size
  · simp [hb]
  · simp [hb]

theorem keeps_newMetaclass (cls : Nat) (className : Value) :
    Keeps g (newMetaclass g cls className) where
  size_le := Nat.le_succ _
  metaclass a := by
    rw [own_newMetaclass]
    by_cases ha : a = g.size
    · rw [if_pos ha]
      exact .inr ⟨le_of_eq ha.symm, rfl⟩
    · rw [if_neg ha]
      exact .inl rfl
  soleInstance m hm := own_newMetaclass.trans (if_neg (Nat.ne_of_lt hm))

/-- The check, of a class that has no metaclass and that no thread makes one for. -/
theorem Inv.create (h : Inv s) {thread cls : Nat} (hCls : cls < s.graph.size)
    (hNone : s.graph.own cls "__metaclass__" = none)
    (hAlone : ∀ other p, s.sends other = some p → p.cls ≠ cls) :
    Inv { s with
      graph := newMetaclass s.graph cls className
      sends := Function.update s.sends thread (some ⟨cls, s.graph.size⟩) } := by
  have hKeeps := keeps_newMetaclass (g := s.graph) cls className
  have hBuilt : Inv { s with graph := newMetaclass s.graph cls className } := h.keeps hKeeps rfl rfl
  have hDescribes : Describes (newMetaclass s.graph cls className) s.graph.size cls :=
    ⟨Nat.lt_succ_of_lt hCls, Nat.lt_succ_self _, own_newMetaclass.trans (if_pos rfl)⟩
  refine ⟨hBuilt.stored, ?_, ?_, hBuilt.answered⟩
  · intro other p hp
    by_cases hOther : other = thread
    · rw [hOther] at hp
      have hNew : (⟨cls, s.graph.size⟩ : Creating) = p := by
        simpa using hp
      subst hNew
      exact ⟨(hKeeps.metaclass_lt hCls).trans hNone, hDescribes⟩
    · exact hBuilt.creating other p ((Function.update_of_ne hOther _ _).symm.trans hp)
  · intro t u p q hp hq hSame
    by_cases ht : t = thread
    · by_cases hu : u = thread
      · rw [ht, hu]
      · have hNew : (⟨cls, s.graph.size⟩ : Creating) = p := by
          rw [ht] at hp
          simpa using hp
        rw [← hNew] at hSame
        have hq' := (Function.update_of_ne hu _ _).symm.trans hq
        exact absurd hSame.symm (hAlone u q hq')
    · have hp' := (Function.update_of_ne ht _ _).symm.trans hp
      by_cases hu : u = thread
      · have hNew : (⟨cls, s.graph.size⟩ : Creating) = q := by
          rw [hu] at hq
          simpa using hq
        rw [← hNew] at hSame
        exact absurd hSame (hAlone t p hp')
      · exact h.alone t u p q hp' ((Function.update_of_ne hu _ _).symm.trans hq) hSame

/-- The store of `metaclassOf`. -/
theorem Inv.store (h : Inv s) {thread : Nat} {p : Creating}
    (hSend : s.sends thread = some p) : Inv (storeMetaclass s thread p) := by
  obtain ⟨hNone, hDescribes⟩ := h.creating thread p hSend
  have hOwn : ∀ cls key, (storeMetaclass s thread p).graph.own cls key =
      if cls = p.cls ∧ key = "__metaclass__" then some (.ref p.metaclass)
      else s.graph.own cls key := fun _ _ => own_setAttribute
  have hKept : ∀ m cls, Describes s.graph m cls →
      Describes (storeMetaclass s thread p).graph m cls := fun m cls h' =>
    ⟨h'.cls_lt, h'.metaclass_lt,
      ((hOwn _ _).trans (if_neg fun h => absurd h.2 (by decide))).trans h'.soleInstance⟩
  have hOthers : ∀ t q, (storeMetaclass s thread p).sends t = some q →
      t ≠ thread ∧ s.sends t = some q := by
    intro t q ht
    have hNe : t ≠ thread := by
      intro heq
      rw [heq] at ht
      have hNone : (storeMetaclass s thread p).sends thread = none := Function.update_self ..
      cases hNone.symm.trans ht
    exact ⟨hNe, (Function.update_of_ne hNe _ _).symm.trans ht⟩
  constructor
  · intro cls v hv
    rw [hOwn] at hv
    split at hv
    · rename_i hThis
      refine ⟨p.metaclass, (Option.some.inj hv).symm, ?_⟩
      rw [hThis.1]
      exact hKept _ _ hDescribes
    · obtain ⟨m, hRef, hm⟩ := h.stored cls v hv
      exact ⟨m, hRef, hKept m cls hm⟩
  · intro t q hq
    obtain ⟨hNe, hq⟩ := hOthers t q hq
    obtain ⟨hNone', hDescribes'⟩ := h.creating t q hq
    refine ⟨?_, hKept _ _ hDescribes'⟩
    rw [hOwn, if_neg]
    · exact hNone'
    · exact fun hSame => hNe (h.alone t thread q p hq hSend hSame.1)
  · intro t u q r hq hr hSame
    exact h.alone t u q r (hOthers t q hq).2 (hOthers u r hr).2 hSame
  · intro cls a ha
    rw [hOwn]
    rcases List.mem_cons.mp ha with hThis | ha
    · cases hThis
      exact if_pos ⟨rfl, rfl⟩
    · have hStored := h.answered cls a ha
      rw [if_neg]
      · exact hStored
      · intro hSame
        rw [hSame.1, hNone] at hStored
        cases hStored

/-- The check, of any class. -/
theorem Inv.sendClass (h : Inv s) {thread cls : Nat} (hCls : cls < s.graph.size)
    (hAlone : s.graph.own cls "__metaclass__" = none →
      ∀ other p, s.sends other = some p → p.cls ≠ cls) :
    Inv (sendClass s thread cls className) := by
  unfold Metaclasses.sendClass
  cases hOwn : s.graph.own cls "__metaclass__" with
  | none => exact h.create hCls hOwn (hAlone hOwn)
  | some answer =>
      refine ⟨h.stored, h.creating, h.alone, fun c a ha => ?_⟩
      rcases List.mem_cons.mp ha with hThis | ha
      · cases hThis
        exact hOwn
      · exact h.answered c a ha

/-! ## The variables -/

/-- An edit that neither assigns to a variable nor declares one. -/
theorem Vars.other (h : Vars s) (hTouches : ∀ a name, ¬ e.Touches s.graph a (ivSymbol name))
    (hDeclare : e.declare s.graph s.classVars = copying (e.copied s.graph) s.classVars)
    (hAssign : e.assign s.graph s.instVars = copying (e.copied s.graph) s.instVars) :
    (∀ cls name, name ∈ (editImage pc s e).classVars cls →
        (editImage pc s e).instVars cls name = .nil) ∧
      ∀ cls name, ownInstVar (editImage pc s e).graph cls name =
        (editImage pc s e).instVars cls name ∨ name ∈ (editImage pc s e).classVars cls :=
  h.copy (fun a name => own_edit_of_not_touches h.fresh (hTouches a name)
    (ivSymbol_ne (by decide)).symm (ivSymbol_ne (by decide)).symm) hDeclare hAssign

/-- `STORE_INSTVAR`. -/
theorem Vars.assign (h : Vars s) {self : Nat} {x : String} {v : Value}
    (hSeparate : x ∉ s.classVars self) :
    (∀ cls name, name ∈ s.classVars cls →
        (Edit.storeInstVar self x v).assign s.graph s.instVars cls name = .nil) ∧
      ∀ cls name, ownInstVar (storeInstVar s.graph self x v) cls name =
        (Edit.storeInstVar self x v).assign s.graph s.instVars cls name ∨
          name ∈ s.classVars cls := by
  have hAssign : ∀ cls name, (Edit.storeInstVar self x v).assign s.graph s.instVars cls name =
      if cls = self ∧ name = x then v else s.instVars cls name := by
    intro cls name
    simp only [Edit.assign, Function.update_apply]
    by_cases hCls : cls = self
    · rw [if_pos hCls, hCls, Function.update_apply]
      simp
    · simp [hCls]
  refine ⟨fun cls name hName => ?_, fun cls name => ?_⟩
  · rw [hAssign, if_neg]
    · exact h.apart cls name hName
    · rintro ⟨rfl, rfl⟩
      exact hSeparate hName
  · have hOwn : ownInstVar (storeInstVar s.graph self x v) cls name =
        if cls = self ∧ name = x then v else ownInstVar s.graph cls name := by
      unfold ownInstVar Metaclasses.storeInstVar
      rw [own_setAttribute]
      by_cases hThis : cls = self ∧ name = x
      · rw [if_pos hThis, if_pos ⟨hThis.1, congrArg ivSymbol hThis.2⟩, Option.getD_some]
      · rw [if_neg hThis, if_neg fun hKey => hThis ⟨hKey.1, ivSymbol_injective hKey.2⟩]
    rw [hOwn, hAssign]
    split
    · exact .inl rfl
    · exact h.unshared cls name

/-- `__initClassVars:` -/
theorem Vars.declare (h : Vars s) {self : Nat} {names : List String}
    (hSeparate : ∀ name ∈ names,
      name ∈ s.classVars self ∨ s.graph.own self (ivSymbol name) = none) :
    (∀ cls name, name ∈ (Edit.initClassVars self names).declare s.graph s.classVars cls →
        s.instVars cls name = .nil) ∧
      ∀ cls name, ownInstVar (initClassVars s.graph self names) cls name = s.instVars cls name ∨
        name ∈ (Edit.initClassVars self names).declare s.graph s.classVars cls := by
  have hDeclare : ∀ cls name, name ∈
    (Edit.initClassVars self names).declare s.graph s.classVars cls ↔
      (cls = self ∧ name ∈ names) ∨ name ∈ s.classVars cls := by
    intro cls name
    simp only [Edit.declare, Function.update_apply]
    by_cases hCls : cls = self
    · simp [hCls]
    · simp [hCls]
  have hNew : ∀ name ∈ names, s.instVars self name = .nil := by
    intro name hName
    rcases hSeparate name hName with hDeclared | hNone
    · exact h.apart self name hDeclared
    · rcases h.unshared self name with hSame | hDeclared
      · rw [← hSame, ownInstVar, hNone, Option.getD_none]
      · exact h.apart self name hDeclared
  refine ⟨fun cls name hName => ?_, fun cls name => ?_⟩
  · rcases (hDeclare cls name).mp hName with ⟨rfl, hNamed⟩ | hOld
    · exact hNew name hNamed
    · exact h.apart cls name hOld
  · rw [hDeclare]
    by_cases hThis : cls = self ∧ name ∈ names
    · exact .inr (.inl hThis)
    · have hOwn : (initClassVars s.graph self names).own cls (ivSymbol name) =
          s.graph.own cls (ivSymbol name) :=
        (own_initClassVars names s.graph).2
          fun ⟨hCls, x, hx, hKey⟩ => hThis ⟨hCls, ivSymbol_injective hKey ▸ hx⟩
      rw [ownInstVar, hOwn]
      exact (h.unshared cls name).imp id .inr

/-- `STORE_CLASSVAR`, of a class that declares the variable. -/
theorem Vars.assignClassVar (h : Vars s) {self : Nat} {x : String} {v : Value}
    (hSeparate : x ∈ s.classVars (classVarOwner s.graph self x)) (cls : Nat) (name : String) :
    ownInstVar (storeClassVar s.graph self x v) cls name = s.instVars cls name ∨
      name ∈ s.classVars cls := by
  by_cases hThis : cls = classVarOwner s.graph self x ∧ name = x
  · rw [hThis.1, hThis.2]
    exact .inr hSeparate
  · unfold ownInstVar Metaclasses.storeClassVar
    rw [own_setAttribute, if_neg fun hKey => hThis ⟨hKey.1, ivSymbol_injective hKey.2⟩]
    exact h.unshared cls name

/-- An edit that meets the condition. -/
theorem Vars.edit (h : Vars s) (hOperands : ∀ a ∈ e.operands, s.graph.IsObject a)
    (hSeparate : Separate s (.edit e)) : Vars (editImage pc s e) := by
  have hSize : s.graph.size ≤ (e.apply pc s.graph).size := (own_edit h.fresh pc e 0 "").1
  have hPlain : ∀ {key name}, ¬ "_iv_".toList <+: String.toList key → ivSymbol name ≠ key :=
    fun hKey => (ivSymbol_ne hKey).symm
  have hBoth : (∀ cls name, name ∈ (editImage pc s e).classVars cls →
        (editImage pc s e).instVars cls name = .nil) ∧
      ∀ cls name, ownInstVar (editImage pc s e).graph cls name =
        (editImage pc s e).instVars cls name ∨ name ∈ (editImage pc s e).classVars cls := by
    cases e with
    | storeInstVar self name v => exact h.assign hSeparate
    | initClassVars self names => exact h.declare hSeparate
    | storeClassVar self name v => exact ⟨h.apart, h.assignClassVar hSeparate⟩
    | installMethod cls selector m =>
        refine h.other (fun a name hTouches => ?_) rfl rfl
        rcases hTouches.2 with hKey | hKey
        · exact hSeparate.2.2 name hKey.symm
        · exact hPlain (by decide) hKey
    | subclassNamed | setClassName =>
        exact h.other (fun a name hTouches => hPlain (by decide) hTouches.2) rfl rfl
    | _ => exact h.other (fun a name hTouches => hTouches) rfl rfl
  refine ⟨fun a key ha => ?_, fun a ha => ?_, hBoth.1, hBoth.2⟩
  · have hTouches : ¬ e.Touches s.graph a key := fun hTouches =>
      absurd (touches_lt h.fresh hOperands hTouches) (not_lt.mpr (hSize.trans ha))
    exact ((own_edit h.fresh pc e a key).2.1 (.inr ha) hTouches).trans
      (h.fresh a key (hSize.trans ha))
  · have hOld := h.undeclared a (hSize.trans ha)
    have hCopy : copying (e.copied s.graph) s.classVars a = s.classVars a := by
      cases hCopied : e.copied s.graph with
      | none => rfl
      | some p =>
          have hLt := (copied_bounds pc hCopied).2.1
          have ha' : (e.apply pc s.graph).size ≤ a := ha
          exact copying_of_ne (by omega)
    cases e with
    | initClassVars self names =>
        have hSelf := (hOperands self List.mem_cons_self).1
        exact (Function.update_of_ne (Nat.ne_of_gt (hSelf.trans_le (hSize.trans ha))) ..).trans hOld
    | _ => exact hCopy.trans hOld

/-- A step that makes no variable and keeps those there are. -/
theorem Vars.keep (h : Vars s) {t : Image} (hSize : s.graph.size ≤ t.graph.size)
    (hFresh : ∀ a key, t.graph.size ≤ a → t.graph.own a key = none)
    (hOwn : ∀ a name, t.graph.own a (ivSymbol name) = s.graph.own a (ivSymbol name))
    (hClassVars : t.classVars = s.classVars) (hInstVars : t.instVars = s.instVars) : Vars t where
  fresh := hFresh
  undeclared a ha := (congrFun hClassVars a).trans (h.undeclared a (hSize.trans ha))
  apart cls name hName := by
    rw [hInstVars]
    exact h.apart cls name (hClassVars ▸ hName)
  unshared cls name := by
    rw [ownInstVar, hOwn, hInstVars, hClassVars]
    exact h.unshared cls name

theorem Vars.sendClass (h : Vars s) (thread cls : Nat) (className : Value) :
    Vars (sendClass s thread cls className) := by
  unfold Metaclasses.sendClass
  split
  · exact h.keep (le_refl _) h.fresh (fun _ _ => rfl) rfl rfl
  · refine h.keep (Nat.le_succ _) (fun a key ha => ?_) (fun a name => ?_) rfl rfl
    · have ha' : s.graph.size + 1 ≤ a := ha
      exact own_newMetaclass.trans ((if_neg (by omega)).trans (h.fresh a key (by omega)))
    · refine own_newMetaclass.trans ?_
      by_cases ha : a = s.graph.size
      · rw [if_pos ha, if_neg (ivSymbol_ne (by decide)).symm, if_neg (ivSymbol_ne (by decide)).symm,
          h.fresh a _ (le_of_eq ha.symm)]
      · rw [if_neg ha]

theorem Vars.store (h : Vars s) {thread : Nat} {p : Creating} (hCls : p.cls < s.graph.size) :
    Vars (storeMetaclass s thread p) := by
  refine h.keep (le_refl _) (fun a key ha => ?_) (fun a name => ?_) rfl rfl
  · have ha' : s.graph.size ≤ a := ha
    exact own_setAttribute.trans ((if_neg fun hThis => by omega).trans (h.fresh a key ha'))
  · exact own_setAttribute.trans (if_neg fun hThis => (ivSymbol_ne (by decide)).symm hThis.2)

/-! ## The theorem -/

/-- One step that meets the condition. -/
theorem inv_step (h : Inv s) (hVars : Vars s) {action : Action} {t : Image}
    (hSeparate : Separate s action) (hStep : step pc s action = some t) : Inv t ∧ Vars t := by
  rcases step_cases hStep with ⟨e, rfl, hOperands, rfl⟩ |
    ⟨thread, cls, className, rfl, -, -, hObject, rfl⟩ | ⟨thread, p, -, hSend, rfl⟩
  · exact ⟨h.keeps (keeps_edit hVars hSeparate) rfl rfl, hVars.edit hOperands hSeparate⟩
  · exact ⟨h.sendClass hObject.1 hSeparate, hVars.sendClass thread cls className⟩
  · exact ⟨h.store hSend, hVars.store (h.creating thread p hSend).2.cls_lt⟩

theorem inv_of_init (h : (machine pc).init s) : Inv s ∧ Vars s := by
  obtain ⟨hInitial, hNone, hSends, hAnswers, hClassVars, hInstVars⟩ := h
  constructor
  · refine ⟨fun cls v hv => ?_, fun thread p hp => ?_, fun thread other p q hp => ?_,
      fun cls a ha => ?_⟩
    · cases (hNone cls).symm.trans hv
    · cases (hSends thread).symm.trans hp
    · cases (hSends thread).symm.trans hp
    · rw [hAnswers] at ha
      cases ha
  · refine ⟨fun a key ha => ?_, fun a _ => hClassVars a, fun cls name hName => ?_,
      fun cls name => .inl (hInstVars cls name).symm⟩
    · obtain ⟨hSize, -, -, -, hOwn, -⟩ := hInitial
      cases hv : s.graph.own a key with
      | none => rfl
      | some v =>
          have hLt := (hOwn a key v hv).2
          omega
    · rw [hClassVars] at hName
      cases hName

theorem Inv.paired (h : Inv s) (hVars : Vars s) : Paired s where
  same cls a b ha hb := Option.some.inj ((h.answered cls a ha).symm.trans (h.answered cls b hb))
  soleInstance cls a ha := by
    obtain ⟨m, hRef, hDescribes⟩ := h.stored cls a (h.answered cls a ha)
    rw [hRef]
    exact hDescribes.soleInstance
  distinct cls other a ha hb := by
    obtain ⟨m, hRef, hDescribes⟩ := h.stored cls a (h.answered cls a ha)
    obtain ⟨n, hRef', hDescribes'⟩ := h.stored other a (h.answered other a hb)
    cases hRef.symm.trans hRef'
    cases hDescribes.soleInstance.symm.trans hDescribes'.soleInstance
    rfl
  unshared cls name :=
    (hVars.unshared cls name).imp id fun hName => ⟨hName, hVars.apart cls name hName⟩

end Invariant

/-- **Classes and metaclasses stay paired**, in every run whose steps meet the
condition. -/
theorem classes_paired (pc : AddParent) (s : Image)
    (h : (machine pc).Reach Separate s) : Paired s := by
  have hInv : Inv s ∧ Vars s := by
    apply Machine.Reach.invariant _ _ h
    · exact fun _ hInit => inv_of_init hInit
    · exact fun _ _ _ _ hs hSeparate hStep => inv_step hs.1 hs.2 hSeparate hStep
  exact hInv.1.paired hInv.2

/-! ## Runs -/

/-- Before the first statement of a program. -/
def start : Image :=
  ⟨bootGraph, fun _ => none, [], fun _ => [], fun cls name => ownInstVar bootGraph cls name⟩

theorem start_init (pc : AddParent) : (machine pc).init start := by
  refine ⟨bootGraph_initial, ?_, fun _ => rfl, rfl, fun _ => rfl, fun _ _ => rfl⟩
  rintro (_ | _ | a)
  · rfl
  · rfl
  · rfl

/-- After some statements. -/
def after (actions : List Action) : Image :=
  ((machine prepend).exec start actions).getD start

/-- `Object subclass: #C` with a class variable, and a subclass that assigns to a
class-instance variable of its own and to the class variable; then `C class` from two threads
one after the other. -/
def pairing : List Action :=
  [.edit (.subclass objectProto "C"), .edit (.initClassVars 2 ["tally"]), .edit (.subclass 2 "D"),
    .edit (.storeInstVar 3 "count" (.int 1)), .edit (.storeClassVar 3 "tally" (.int 7)),
    .sendClass 0 2, .storeMetaclass 0, .sendClass 1 2]

theorem classes_paired_two : (after pairing).answers = [(2, .ref 4), (2, .ref 4)] ∧
    ownInstVar (after pairing).graph 2 "tally" = .int 7 ∧
    ownInstVar (after pairing).graph 3 "count" = .int 1 ∧ Paired (after pairing) := by
  refine ⟨by decide, by decide, by decide, classes_paired prepend (after pairing) ?_⟩
  have hC : (machine prepend).Reach Separate (after (pairing.take 1)) :=
    .step (.edit (.subclass objectProto "C")) (.init (start_init prepend)) trivial rfl
  have hTally : (machine prepend).Reach Separate (after (pairing.take 2)) :=
    .step (.edit (.initClassVars 2 ["tally"])) hC (by simp only [Separate]; decide) rfl
  have hD : (machine prepend).Reach Separate (after (pairing.take 3)) :=
    .step (.edit (.subclass 2 "D")) hTally trivial rfl
  have hCount : (machine prepend).Reach Separate (after (pairing.take 4)) :=
    .step (.edit (.storeInstVar 3 "count" (.int 1))) hD (by simp only [Separate]; decide) rfl
  have hAssigned : (machine prepend).Reach Separate (after (pairing.take 5)) :=
    .step (.edit (.storeClassVar 3 "tally" (.int 7))) hCount (by simp only [Separate]; decide) rfl
  have hCheck : (machine prepend).Reach Separate (after (pairing.take 6)) :=
    .step (.sendClass 0 2) hAssigned (fun _ _ _ h => by cases h) rfl
  have hStore : (machine prepend).Reach Separate (after (pairing.take 7)) :=
    .step (.storeMetaclass 0) hCheck trivial rfl
  exact .step (.sendClass 1 2) hStore (fun h => by cases h) rfl

/-- `C class`, then `C addBehavior: M`, and `C class` again. -/
def rebuilding : List Action :=
  [.edit (.subclass objectProto "C"), .edit (.subclass objectProto "M"), .sendClass 0 2,
    .storeMetaclass 0, .edit (.addBehavior 2 3), .sendClass 0 6]

/-- The rebuilt class has the metaclass of the old one. -/
theorem not_paired_rebuilt : (machine prepend).Reachable (after rebuilding) ∧
    ¬ Paired (after rebuilding) := by
  constructor
  · have hExec : (machine prepend).exec start rebuilding = some (after rebuilding) := rfl
    exact Machine.reach_of_exec (.init (start_init prepend)) hExec
  · intro hPaired
    have hSame := hPaired.distinct 2 6 (.ref 4) (by decide) (by decide)
    exact absurd hSame (by decide)

/-- A class variable of `Shape`, a class-instance variable of that name of its subclass
`Circle`, and an assignment to the class variable that `Circle` inherits. -/
def hidden : List Action :=
  [.edit (.subclass objectProto "Shape"), .edit (.initClassVars 2 ["count"]),
    .edit (.subclass 2 "Circle"), .edit (.storeInstVar 3 "count" (.int 1)),
    .edit (.storeClassVar 3 "count" (.int 2))]

/-- The class-instance variable is assigned to. -/
theorem not_paired_hidden : (machine prepend).Reachable (after hidden) ∧
    ¬ Paired (after hidden) := by
  constructor
  · have hExec : (machine prepend).exec start hidden = some (after hidden) := rfl
    exact Machine.reach_of_exec (.init (start_init prepend)) hExec
  · intro hPaired
    rcases hPaired.unshared 3 "count" with hSame | ⟨hDeclared, -⟩
    · exact absurd hSame (by decide)
    · exact absurd hDeclared (by decide)

end ProtoST.Runtime.ClassGraph.Metaclasses

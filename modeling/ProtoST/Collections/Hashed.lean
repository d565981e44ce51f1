import ProtoST.Collections.Equality
import ProtoST.Lib.Behaviour
import ProtoST.Lib.KeyedEntries

/-!
# Sets, Bags and Dictionaries

The methods of the hashed collections, from `collection_prims.cpp` and
`lib/kernel/collection.st`, and the programs that use them.  A collection is an object
with the attributes `__data__` and `__size__`; a Set and a Dictionary keep a map there,
which they reach through protoCore's hashed-collection helper (`HashedMap`), a Bag keeps
the list of its occurrences.

A run keeps a trace: every look at a collection, with the comparison it makes if it
compares with each element in turn.
-/

namespace ProtoST.Collections

open Lib

/-- protoCore's `KeySemantics`. -/
structure KeySemantics (K : Type) where
  isIdentityKey : K → Bool
  keyHash : K → Nat
  keyEquals : K → K → Bool

/-- protoCore's `ProtoMap` and its hashed-collection helper. -/
class HashedMap (K M : Type) where
  newMap : M
  hashedGet : M → KeySemantics K → K → Option K
  hashedPut : M → KeySemantics K → K → K → M
  hashedRemove : M → KeySemantics K → K → M
  /-- The entries in the order of `hashedForEach`. -/
  hashedForEach : M → List (K × K)

/-- The helper implements a map for a semantics: `Valid` are the maps it builds. -/
structure HashedMap.Lawful {K M : Type} [HashedMap K M] (sem : KeySemantics K)
    (Valid : M → Prop) : Prop where
  new : Valid (newMap K) ∧ hashedForEach (newMap K : M) = ([] : List (K × K))
  distinct : ∀ {m : M}, Valid m → Keyed.Distinct sem.keyEquals (hashedForEach m)
  get : ∀ {m : M}, Valid m → ∀ k,
    hashedGet m sem k = Keyed.lookup sem.keyEquals k (hashedForEach m)
  put : ∀ {m : M}, Valid m → ∀ k v, Valid (hashedPut m sem k v) ∧
    (hashedForEach (hashedPut m sem k v)).Perm
      (Keyed.store sem.keyEquals k v (hashedForEach m))
  remove : ∀ {m : M}, Valid m → ∀ k, Valid (hashedRemove m sem k) ∧
    (hashedForEach (hashedRemove m sem k)).Perm (Keyed.delete sem.keyEquals k (hashedForEach m))

variable {O M : Type} [DecidableEq O] [Protocol O]

/-- `stKeySemantics`. -/
def stKeySemantics : KeySemantics (Value O) where
  isIdentityKey _ := false
  keyHash := stKeyHash
  keyEquals := stKeyEquals

/-! ## Objects -/

/-- The classes. -/
inductive Class where
  | set
  | bag
  | dictionary
  deriving DecidableEq

/-- What `__data__` holds. -/
inductive Data (O M : Type) where
  | list (occurrences : List (Value O))
  | map (m : M)

/-- A collection: its class and its attributes. -/
structure Obj (O M : Type) where
  cls : Class
  data : Option (Data O M)
  size : Option Int

/-- The errors.  A comparison fails when the `=` it sends raises one. -/
inductive Error where
  | signal (className text : String)
  | doesNotUnderstand (selector : String)
  | comparison
  deriving DecidableEq

/-- How a search compares an element with the value it looks for. -/
inductive Comparison where
  | native
  | send
  deriving DecidableEq

/-- Whether the element `e` is taken for `x`. -/
def Comparison.ask : Comparison → Value O → Value O → Option Bool
  | native, e, x => some (nativeEquals e x)
  | send, e, x => sendEquals e x

section Methods
variable [HashedMap (Value O) M]

namespace Obj

/-- `mapData`. -/
def mapData (r : Obj O M) : M :=
  match r.data with
  | some (.map m) => m
  | _ => HashedMap.newMap (Value O)

/-- `listData`. -/
def listData (r : Obj O M) : List (Value O) :=
  match r.data with
  | some (.list xs) => xs
  | _ => []

/-- `hashedSize`. -/
def hashedSize (r : Obj O M) : Int := r.size.getD 0

/-- `setHashedData`. -/
def setHashedData (r : Obj O M) (updated : M) (size : Int) : Obj O M :=
  { r with data := some (.map updated), size := some size }

/-- `setData`. -/
def setData (r : Obj O M) (updated : List (Value O)) : Obj O M :=
  { r with data := some (.list updated) }

/-- `hashedEntries`. -/
def hashedEntries (r : Obj O M) : List (Value O × Value O) :=
  HashedMap.hashedForEach r.mapData

/-- The elements that `forEachElement` visits. -/
def forEachElement (r : Obj O M) : List (Value O) :=
  match r.cls with
  | .set => r.hashedEntries.map (·.1)
  | .bag => r.listData
  | .dictionary => r.hashedEntries.map (·.2)

/-- `prim_Set_add`. -/
def setAdd (e : Value O) (r : Obj O M) : Value O × Obj O M :=
  if HashedMap.hashedGet r.mapData stKeySemantics e = none then
    (e, r.setHashedData (HashedMap.hashedPut r.mapData stKeySemantics e e) (r.hashedSize + 1))
  else (e, r)

/-- What `prim_Set_remove` and `prim_Set_removeIfAbsent` do when the element is there. -/
def setRemove (e : Value O) (r : Obj O M) : Option (Value O) × Obj O M :=
  if HashedMap.hashedGet r.mapData stKeySemantics e = none then (none, r)
  else
    (some e, r.setHashedData (HashedMap.hashedRemove r.mapData stKeySemantics e)
      (r.hashedSize - 1))

/-- `prim_Set_includes`. -/
def setIncludes (e : Value O) (r : Obj O M) : Bool × Obj O M :=
  ((HashedMap.hashedGet r.mapData stKeySemantics e).isSome, r)

/-- `prim_Bag_add`. -/
def bagAdd (e : Value O) (r : Obj O M) : Value O × Obj O M :=
  (e, r.setData (r.listData ++ [e]))

/-- What `prim_Bag_remove` and `prim_Bag_removeIfAbsent` do when the element is there: the
occurrence at `indexOfEqual` is taken out. -/
def bagRemove (e : Value O) (r : Obj O M) : Option (Value O) × Obj O M :=
  if r.listData.any fun x => nativeEquals x e then
    (some e, r.setData (r.listData.eraseP fun x => nativeEquals x e))
  else (none, r)

/-- `prim_Bag_includes`. -/
def bagIncludes (e : Value O) (r : Obj O M) : Bool × Obj O M :=
  (r.listData.any fun x => nativeEquals x e, r)

/-- `prim_Bag_occurrencesOf`. -/
def bagOccurrencesOf (e : Value O) (r : Obj O M) : Nat × Obj O M :=
  (r.listData.countP fun x => nativeEquals x e, r)

/-- `dictLookup`. -/
def dictLookup (key : Value O) (r : Obj O M) : Option (Value O) × Obj O M :=
  (HashedMap.hashedGet r.mapData stKeySemantics key, r)

/-- `dictStore`. -/
def dictStore (key value : Value O) (r : Obj O M) : Unit × Obj O M :=
  let fresh := (HashedMap.hashedGet r.mapData stKeySemantics key).isNone
  ((), r.setHashedData (HashedMap.hashedPut r.mapData stKeySemantics key value)
    (r.hashedSize + if fresh then 1 else 0))

/-- `dictRemove`. -/
def dictRemove (key : Value O) (r : Obj O M) : Option (Value O) × Obj O M :=
  match HashedMap.hashedGet r.mapData stKeySemantics key with
  | none => (none, r)
  | some v =>
      (some v, r.setHashedData (HashedMap.hashedRemove r.mapData stKeySemantics key)
        (r.hashedSize - 1))

/-- `prim_Dict_includes`. -/
def dictIncludes (value : Value O) (r : Obj O M) : Bool × Obj O M :=
  (r.forEachElement.any fun v => nativeEquals v value, r)

/-- `count: [:each | each = anObject]`, over the elements visited. -/
def countEquals (x : Value O) : List (Value O) → Option Nat
  | [] => some 0
  | e :: es => do
      let found ← sendEquals e x
      let n ← countEquals x es
      pure (n + if found then 1 else 0)

/-- `Collection>>occurrencesOf:`. -/
def occurrencesOf (x : Value O) (r : Obj O M) : Option Nat × Obj O M :=
  (countEquals x r.forEachElement, r)

/-- `size`. -/
def elementCount (r : Obj O M) : Int × Obj O M :=
  match r.cls with
  | .bag => (r.listData.length, r)
  | _ => (r.hashedSize, r)

/-- `shallowCopy`: a new object with the same attributes. -/
def shallowCopy (r : Obj O M) : Obj O M := { r with }

/-- `Set new`, `Bag new` and `Dictionary new`. -/
def new : Class → Obj O M
  | .bag => { cls := .bag, data := some (.list []), size := none }
  | cls => { cls := cls, data := some (.map (HashedMap.newMap (Value O))), size := some 0 }

/-- `makeInstanceOfSpecies`, for the species of a Set and of a Bag: the gathered elements
are added one by one, or are the occurrences. -/
def ofSpecies (cls : Class) (data : List (Value O)) : Obj O M :=
  match cls with
  | .set => data.foldl (fun s e => (s.setAdd e).2) (new .set)
  | cls => { cls := cls, data := some (.list data), size := none }

end Obj

/-! ## Runs -/

/-- A look at the collection `receiver`, and the comparison it makes with the elements. -/
structure Step (O M : Type) where
  heap : List (Obj O M)
  receiver : Obj O M
  comparison : Option (Comparison × Value O)

/-- The collections of a program and the looks it has taken at them. -/
structure State (O M : Type) where
  heap : List (Obj O M)
  trace : List (Step O M)

/-- A computation over the collections. -/
abbrev Run (O M : Type) := EStateM Error (State O M)

/-- Run a method on the collection `c` of class `cls`. -/
def call {α : Type} (cls : Class) (c : Nat) (method : Obj O M → α × Obj O M)
    (comparison : Option (Comparison × Value O)) : Run O M α := fun s =>
  match s.heap[c]? with
  | some r =>
      if r.cls = cls then
        let (answer, updated) := method r
        .ok answer ⟨s.heap.set c updated, s.trace ++ [⟨s.heap, r, comparison⟩]⟩
      else .error (.doesNotUnderstand "") s
  | none => .error (.doesNotUnderstand "") s

/-- A new object. -/
def allocate (r : Obj O M) : Run O M Nat := fun s =>
  .ok s.heap.length ⟨s.heap ++ [r], s.trace⟩

/-- The class of the collection `c`. -/
def classOf (c : Nat) : Run O M Class := fun s =>
  match s.heap[c]? with
  | some r => .ok r.cls s
  | none => .error (.doesNotUnderstand "") s

/-- A comparison that raises an error ends the send. -/
def orFail {α : Type} : Option α → Run O M α
  | some x => pure x
  | none => throw .comparison

def integer (n : Int) : Value O := .number (.integer n)

/-- `Dictionary>>add:`. -/
def addAssociation (c : Nat) (e : Value O) : Run O M (Value O) := do
  match e.userEquality.bind Protocol.association with
  | some (key, value) =>
      call .dictionary c (Obj.dictStore key value) none
      pure e
  | none => throw (.doesNotUnderstand "key")

/-- `add:`. -/
def add (c : Nat) (e : Value O) : Run O M (Value O) := do
  match ← classOf c with
  | .set => call .set c (Obj.setAdd e) none
  | .bag => call .bag c (Obj.bagAdd e) none
  | .dictionary => addAssociation c e

/-- `remove:ifAbsent:`; a Dictionary has none. -/
def removeIfAbsent (c : Nat) (e : Value O) (aBlock : Run O M (Value O)) : Run O M (Value O) := do
  let removed ←
    match ← classOf c with
    | .set => call .set c (Obj.setRemove e) none
    | .bag => call .bag c (Obj.bagRemove e) (some (.native, e))
    | .dictionary => throw (.doesNotUnderstand "remove:ifAbsent:")
  match removed with
  | some e => pure e
  | none => aBlock

/-- `remove:`. -/
def remove (c : Nat) (e : Value O) : Run O M (Value O) := do
  match ← classOf c with
  | .set =>
      match ← call .set c (Obj.setRemove e) none with
      | some e => pure e
      | none => throw (.signal "NotFound" "Set>>remove: element not found")
  | .bag =>
      match ← call .bag c (Obj.bagRemove e) (some (.native, e)) with
      | some e => pure e
      | none => throw (.signal "NotFound" "Bag>>remove: element not found")
  | .dictionary => throw (.doesNotUnderstand "remove:")

/-- `includes:`. -/
def includes (c : Nat) (e : Value O) : Run O M Bool := do
  match ← classOf c with
  | .set => call .set c (Obj.setIncludes e) none
  | .bag => call .bag c (Obj.bagIncludes e) (some (.native, e))
  | .dictionary => call .dictionary c (Obj.dictIncludes e) (some (.native, e))

/-- `occurrencesOf:`. -/
def occurrencesOf (c : Nat) (e : Value O) : Run O M Nat := do
  match ← classOf c with
  | .bag => call .bag c (Obj.bagOccurrencesOf e) (some (.native, e))
  | cls => orFail (← call cls c (Obj.occurrencesOf e) (some (.send, e)))

/-- `size`. -/
def size (c : Nat) : Run O M Int := do
  call (← classOf c) c Obj.elementCount none

/-- The elements that an iteration over `c` visits: those it has when it begins. -/
def elements (c : Nat) : Run O M (List (Value O)) := do
  call (← classOf c) c (fun r => (r.forEachElement, r)) none

/-- The entries that `keysAndValuesDo:` visits. -/
def entries (c : Nat) : Run O M (List (Value O × Value O)) :=
  call .dictionary c (fun r => (r.hashedEntries, r)) none

/-- `Dictionary>>at:`. -/
def dictAt (c : Nat) (key : Value O) : Run O M (Value O) := do
  match ← call .dictionary c (Obj.dictLookup key) none with
  | some v => pure v
  | none => throw (.signal "KeyNotFound" "Dictionary>>at: key not found")

/-- `Dictionary>>at:ifAbsent:`. -/
def dictAtIfAbsent (c : Nat) (key : Value O) (aBlock : Run O M (Value O)) :
    Run O M (Value O) := do
  match ← call .dictionary c (Obj.dictLookup key) none with
  | some v => pure v
  | none => aBlock

/-- `Dictionary>>at:ifAbsentPut:`: the map is read again after the block. -/
def dictAtIfAbsentPut (c : Nat) (key : Value O) (aBlock : Run O M (Value O)) :
    Run O M (Value O) := do
  match ← call .dictionary c (Obj.dictLookup key) none with
  | some v => pure v
  | none =>
      let fresh ← aBlock
      call .dictionary c (Obj.dictStore key fresh) none
      pure fresh

/-- `Dictionary>>at:put:`. -/
def dictAtPut (c : Nat) (key value : Value O) : Run O M (Value O) := do
  call .dictionary c (Obj.dictStore key value) none
  pure value

/-- `Dictionary>>removeKey:`. -/
def dictRemoveKey (c : Nat) (key : Value O) : Run O M (Value O) := do
  match ← call .dictionary c (Obj.dictRemove key) none with
  | some v => pure v
  | none => throw (.signal "KeyNotFound" "Dictionary>>removeKey: key not found")

/-- `Dictionary>>removeKey:ifAbsent:`. -/
def dictRemoveKeyIfAbsent (c : Nat) (key : Value O) (aBlock : Run O M (Value O)) :
    Run O M (Value O) := do
  match ← call .dictionary c (Obj.dictRemove key) none with
  | some v => pure v
  | none => aBlock

/-- `Dictionary>>includesKey:`. -/
def dictIncludesKey (c : Nat) (key : Value O) : Run O M Bool := do
  let found ← call .dictionary c (Obj.dictLookup key) none
  pure found.isSome

/-- `copy`. -/
def copy (c : Nat) : Run O M Nat := fun s =>
  match s.heap[c]? with
  | some r => allocate r.shallowCopy s
  | none => .error (.doesNotUnderstand "") s

/-- A collection given as an argument: one of the program's, or any other, by the elements
that its `do:` yields. -/
inductive Source (O : Type) where
  | collection (c : Nat)
  | elements (xs : List (Value O))

/-- The elements that `aCollection do:` yields. -/
def Source.visited : Source O → Run O M (List (Value O))
  | collection c => Collections.elements c
  | elements xs => pure xs

/-- The entries of the argument, when it is a Dictionary. -/
def Source.dictionaryEntries : Source O → Run O M (Option (List (Value O × Value O)))
  | collection d => do
      match ← classOf d with
      | .dictionary => do return some (← entries d)
      | _ => pure none
  | elements _ => pure none

/-- `Dictionary>>addAll:`: the entries of a Dictionary, else its elements, Associations. -/
def dictAddAll (c : Nat) (aCollection : Source O) : Run O M Unit := do
  match ← aCollection.dictionaryEntries with
  | some es =>
      let _ ← visit (β := Unit) (fun (key, value) => do
        let _ ← dictAtPut c key value
        pure none) es
  | none =>
      let xs ← aCollection.visited
      let _ ← visit (β := Unit) (fun e => do
        let _ ← addAssociation c e
        pure none) xs

/-- `addAll:`. -/
def addAll (c : Nat) (aCollection : Source O) : Run O M Unit := do
  match ← classOf c with
  | .dictionary => dictAddAll c aCollection
  | _ =>
      let xs ← aCollection.visited
      let _ ← visit (β := Unit) (fun e => do
        let _ ← add c e
        pure none) xs

/-- `withAll:`. -/
def withAll (cls : Class) (aCollection : Source O) : Run O M Nat := do
  let c ← allocate (Obj.new cls)
  addAll c aCollection
  pure c

/-- A block of one argument. -/
abbrev Block (O M : Type) := Value O → Run O M (Value O)

/-- `do:`. -/
def doEach (c : Nat) (aBlock : Block O M) : Run O M Unit := do
  let xs ← elements c
  let _ ← visit (β := Unit) (fun e => do
    let _ ← aBlock e
    pure none) xs

/-- The answer of a block that `ifTrue:` or `not` is sent to. -/
def asBoolean (selector : String) : Value O → Run O M Bool
  | .boolean b => pure b
  | _ => throw (.doesNotUnderstand selector)

/-- `collect:`: a Dictionary keeps its keys. -/
def collect (c : Nat) (aBlock : Block O M) : Run O M Nat := do
  match ← classOf c with
  | .dictionary =>
      let out ← allocate (Obj.new .dictionary)
      let es ← entries c
      let _ ← visit (β := Unit) (fun (key, value) => do
        let mapped ← aBlock value
        let _ ← dictAtPut out key mapped
        pure none) es
      pure out
  | cls =>
      let xs ← elements c
      let out ← visit (fun e => do
        let mapped ← aBlock e
        pure (some mapped)) xs
      allocate (Obj.ofSpecies cls out)

/-- `Dictionary>>select:`, and `reject:` with the answers of the block negated. -/
def dictSelect (c : Nat) (aBlock : Value O → Run O M Bool) : Run O M Nat := do
  let out ← allocate (Obj.new .dictionary)
  let es ← entries c
  let _ ← visit (β := Unit) (fun (key, value) => do
    if ← aBlock value then
      let _ ← dictAtPut out key value
    pure none) es
  pure out

/-- `selectReject`. -/
def selectReject (c : Nat) (aBlock : Block O M) (keepWhenTrue : Bool) : Run O M Nat := do
  match ← classOf c with
  | .dictionary =>
      dictSelect c fun v => do
        if keepWhenTrue then
          asBoolean "ifTrue:" (← aBlock v)
        else
          let b ← asBoolean "not" (← aBlock v)
          pure !b
  | cls =>
      let xs ← elements c
      let out ← visit (fun e => do
        let keep ← aBlock e
        pure (if (keep == .boolean true) == keepWhenTrue then some e else none)) xs
      allocate (Obj.ofSpecies cls out)

end Methods

/-! ## Programs -/

/-- The sends without a block. -/
inductive Message (O : Type) where
  | add (e : Value O)
  | remove (e : Value O)
  | includes (e : Value O)
  | occurrencesOf (e : Value O)
  | size
  | at (key : Value O)
  | atPut (key value : Value O)
  | removeKey (key : Value O)
  | includesKey (key : Value O)

/-- The sends with a block that they run when the element or the key is absent. -/
inductive IfAbsent (O : Type) where
  | remove (e : Value O)
  | at (key : Value O)
  | atPut (key : Value O)
  | removeKey (key : Value O)

/-- The sends that answer a new collection built by a block. -/
inductive Derive where
  | collect
  | select
  | reject

/-- A program: its sends, and what it goes on to do with each answer.  Blocks are programs
too, and may use every collection of the program. -/
inductive Prog (O : Type) where
  | answer (v : Value O)
  | new (cls : Class) (rest : Nat → Prog O)
  | withAll (cls : Class) (aCollection : Source O) (rest : Nat → Prog O)
  | copy (c : Nat) (rest : Nat → Prog O)
  | addAll (c : Nat) (aCollection : Source O) (rest : Prog O)
  | send (c : Nat) (message : Message O) (rest : Value O → Prog O)
  | ifAbsent (c : Nat) (message : IfAbsent O) (aBlock : Prog O) (rest : Value O → Prog O)
  | doEach (c : Nat) (aBlock : Value O → Prog O) (rest : Prog O)
  | derive (c : Nat) (message : Derive) (aBlock : Value O → Prog O) (rest : Nat → Prog O)

section Run
variable [HashedMap (Value O) M]

/-- Run a send. -/
def Message.run (c : Nat) : Message O → Run O M (Value O)
  | add e => Collections.add c e
  | remove e => Collections.remove c e
  | includes e => do return .boolean (← Collections.includes c e)
  | occurrencesOf e => do return integer (← Collections.occurrencesOf c e)
  | size => do return integer (← Collections.size c)
  | «at» key => dictAt c key
  | atPut key value => dictAtPut c key value
  | removeKey key => dictRemoveKey c key
  | includesKey key => do return .boolean (← dictIncludesKey c key)

/-- Run a send with a block for the absent element. -/
def IfAbsent.run (c : Nat) (aBlock : Run O M (Value O)) : IfAbsent O → Run O M (Value O)
  | remove e => removeIfAbsent c e aBlock
  | «at» key => dictAtIfAbsent c key aBlock
  | atPut key => dictAtIfAbsentPut c key aBlock
  | removeKey key => dictRemoveKeyIfAbsent c key aBlock

/-- Run a send that builds a collection. -/
def Derive.run (c : Nat) (aBlock : Block O M) : Derive → Run O M Nat
  | collect => Collections.collect c aBlock
  | select => selectReject c aBlock true
  | reject => selectReject c aBlock false

/-- Run a program. -/
def Prog.run : Prog O → Run O M (Value O)
  | answer v => pure v
  | new cls rest => do (rest (← allocate (Obj.new cls))).run
  | withAll cls aCollection rest => do (rest (← Collections.withAll cls aCollection)).run
  | copy c rest => do (rest (← Collections.copy c)).run
  | addAll c aCollection rest => do
      Collections.addAll c aCollection
      rest.run
  | send c message rest => do (rest (← message.run c)).run
  | ifAbsent c message aBlock rest => do (rest (← message.run c aBlock.run)).run
  | doEach c aBlock rest => do
      Collections.doEach c fun e => (aBlock e).run
      rest.run
  | derive c message aBlock rest => do
      (rest (← message.run c fun e => (aBlock e).run)).run

end Run

end ProtoST.Collections

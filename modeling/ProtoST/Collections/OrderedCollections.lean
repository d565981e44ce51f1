import Mathlib.Data.List.Basic
import ProtoST.Kernel.Sequences
import ProtoST.Lib.EffectfulSort
import ProtoST.Primitives.NativeIntervals

/-!
# Ordered collections

The primitives of OrderedCollection (`primitives/collection_prims.cpp`) and the methods that
`lib/kernel/collection.st` builds on them.  The state of a method is the list of the receiver.  An
argument is another collection, or the receiver itself.

Objects are identical when they are equal here; `compares` is what else protoCore's comparison takes
for the same.  protoCore's lists take an `int` for an index.

## Main results

* `operation_refines` — an operation that keeps to its conditions is the list function.
* `operations_refine` — a run of such operations is the run of the list functions.
* `not_operations_refine` — a collection is not put before itself, nor are the elements removed
  that a block answers true for, nor the elements of a NumericInterval added.
-/

namespace ProtoST.Collections.OrderedCollections

open ProtoST.Kernel.Sequences
open ProtoST.Lib (bind_of_error bind_of_ok)
open ProtoST.Primitives
open ProtoST.Primitives.IntegerDivision (Signal toInt)
open ProtoST.Primitives.NativeIntervals (ListCore)
open ProtoST.Primitives.WideBits (asLong)

/-- protoCore's lists and comparison, nil, and the send `=`. -/
structure Core (O : Type) extends ListCore O where
  removeAt : List O → Int → List O
  removeAt_eq : ∀ (xs : List O) (i : Nat), i < xs.length → removeAt xs i = xs.eraseIdx i
  compares : O → O → Bool
  nil : O
  equals : O → O → Except Signal Bool

/-- Another collection, by what its methods answer: `do:`, `at:` and `reverseDo:`; and by what
`forEachElement` visits of it, which is not always what `do:` yields: of a NumericInterval it
visits nothing, of a String it signals. -/
structure Collection (O : Type) where
  elements : List O
  forEachElement : Except Signal (List O)
  elementAt : Int → Except Signal O
  reverseDo : Except Signal (List O)

inductive Argument (O : Type) where
  | self
  | other (c : Collection O)

abbrev Method (O α : Type) := EStateM Signal (List O) α

def sent {O α : Type} : Except Signal α → Method O α
  | .ok a => pure a
  | .error s => throw s

def outOfBounds {α : Type} (index : Int) (size : Nat) : Except Signal α :=
  .error (.error ("index " ++ toString index ++ " out of bounds 1.." ++ toString size))

def outOfRange {α : Type} (name : String) (index : Int) (size : Nat) : Except Signal α :=
  .error (.classed "SubscriptOutOfBounds"
    (name ++ " index " ++ toString index ++ " out of range 1.." ++ toString size))

section Methods

variable {O : Type} (core : Core O)

/-! ## Primitives -/

/-- `at:` -/
def elementAt (data : List O) (index : Int) : Except Signal O := do
  let idx1 ← asLong index
  if idx1 < 1 ∨ idx1 > data.length then outOfRange "OrderedCollection>>at:" idx1 data.length
  else return core.getAt data (toInt (idx1 - 1))

/-- `at:put:`, of an Array too. -/
def setElement (name : String) (data : List O) (index : Int) (value : O) :
    Except Signal (List O) := do
  let idx1 ← asLong index
  if idx1 < 1 ∨ idx1 > data.length then outOfRange name idx1 data.length
  else return core.setAt data (toInt (idx1 - 1)) value

def atPut (index : Int) (value : O) : Method O O := do
  set (← sent (setElement core "OrderedCollection>>at:put:" (← get) index value))
  return value

/-- `add:` and `addLast:` -/
def add (e : O) : Method O O := do
  modify fun data => data ++ [e]
  return e

def addFirst (e : O) : Method O O := do
  modify fun data => e :: data
  return e

def removeFirst : Method O O := do
  match ← get with
  | [] => throw (.error "OrderedCollection>>removeFirst: collection is empty")
  | e :: rest =>
      set rest
      return e

def removeLast : Method O O := do
  let data ← get
  match data.getLast? with
  | none => throw (.error "OrderedCollection>>removeLast: collection is empty")
  | some e =>
      set data.dropLast
      return e

/-- What `forEachElement` visits of a list. -/
def visited (data : List O) : List O :=
  (List.range data.length).map fun i : Nat => core.getAt data (toInt i)

/-- What `forEachElement` visits of an argument. -/
def visits (data : List O) : Argument O → Except Signal (List O)
  | .self => .ok (visited core data)
  | .other c => c.forEachElement

/-- What `do:` of an argument yields. -/
def iterated (data : List O) : Argument O → List O
  | .self => visited core data
  | .other c => c.elements

def addAll (aCollection : Argument O) : Method O Unit := do
  let data ← get
  let elements ← sent (visits core data aCollection)
  set (data ++ elements)

section Removing

variable [DecidableEq O]

/-- Identical, or the same for protoCore's comparison. -/
def same (e value : O) : Bool := decide (e = value) || core.compares e value

def indexOfEqual (data : List O) (value : O) : Int :=
  match (List.range data.length).find? fun i : Nat =>
    same core (core.getAt data (toInt i)) value with
  | some i => toInt i
  | none => -1

def remove (value : O) : Method O O := do
  let data ← get
  let idx := indexOfEqual core data value
  if idx < 0 then throw (.classed "NotFound" "OrderedCollection>>remove: element not found")
  else
    set (core.removeAt data idx)
    return value

/-- `do: [:each | self remove: each]` -/
def removeEach (elements : List O) : Method O Unit :=
  forM elements fun each => do let _ ← remove core each

end Removing

/-! ## Methods of the library -/

/-- `[self size …] whileTrue: [tail addFirst: self removeLast]` -/
def tearOff (test : Int → Bool) (tail data : List O) : EStateM.Result Signal (List O) (List O) :=
  if test data.length then
    match _hLast : data.getLast? with
    | none => .error (.error "OrderedCollection>>removeLast: collection is empty") data
    | some e => tearOff test (e :: tail) data.dropLast
  else .ok tail data
termination_by data.length
decreasing_by
  cases data with
  | nil => cases _hLast
  | cons d data =>
      rw [List.length_dropLast, List.length_cons]
      omega

/-- `add:beforeIndex:` -/
def addBeforeIndex (anObject : O) (anIndex : Int) : Method O O := do
  let size := (← get).length
  if 1 ≤ anIndex ∧ anIndex ≤ size + 1 then
    let tail ← (tearOff (fun size => decide (size ≥ anIndex)) [] : Method O (List O))
    let _ ← add anObject
    forM (visited core tail) fun each => do let _ ← add each
    return anObject
  else sent (outOfBounds anIndex (size + 1))

/-- `add:afterIndex:` -/
def addAfterIndex (anObject : O) (anIndex : Int) : Method O O :=
  addBeforeIndex core anObject (anIndex + 1)

def removeAt (anIndex : Int) : Method O O := do
  let size := (← get).length
  if 1 ≤ anIndex ∧ anIndex ≤ size then
    let tail ← (tearOff (fun size => decide (size > anIndex)) [] : Method O (List O))
    let removed ← removeLast
    forM (visited core tail) fun each => do let _ ← add each
    return removed
  else sent (outOfBounds anIndex size)

/-- `Array new: n` -/
def arrayNew (n : Int) : Except Signal (List O) := do
  let n ← asLong n
  if n < 0 then .error (.error "Array new: negative size")
  else return List.replicate n.toNat core.nil

/-- `do: [:i | answer at: i put: …]`, of the indices that the loop yields. -/
def fillEach (take : Method O O) (indices : List Int) (answer : List O) : Method O (List O) :=
  indices.foldlM (fun answer i => do
    sent (setElement core "Array>>at:put:" answer i (← take))) answer

/-- `removeFirst:` and `removeLast:`, which differ in the order of the indices. -/
def removeMany (take : Method O O) (indices : List Int → List Int) (n : Int) :
    Method O (List O) := do
  let size := (← get).length
  if n > size then
    throw (.error ("remove: " ++ toString n ++ " but the collection has only " ++ toString size ++
      " elements"))
  else
    let answer ← sent (arrayNew core n)
    fillEach core take (indices ((List.range n.toNat).map fun i : Nat => (i : Int) + 1)) answer

/-- `removeFirst:` -/
def removeFirstN (n : Int) : Method O (List O) := removeMany core removeFirst id n

/-- `removeLast:` -/
def removeLastN (n : Int) : Method O (List O) := removeMany core removeLast List.reverse n

/-- `self size to: 1 by: -1 do: [:i | self addFirst: (self at: i)]` -/
def reverseAdd : Nat → Method O Unit
  | 0 => pure ()
  | i + 1 => do
      let _ ← addFirst (← sent (elementAt core (← get) (i + 1)))
      reverseAdd i

def addAllFirst (aCollection : Argument O) : Method O Unit := do
  match aCollection with
  | .self => reverseAdd core (← get).length
  | .other c => forM (← sent c.reverseDo) fun each => do let _ ← addFirst each

def addAllLast (aCollection : Argument O) : Method O Unit := do
  forM (iterated core (← get) aCollection) fun each => do let _ ← add each

/-- `select:`, of a block that answers by the number of its evaluation too. -/
def select (aBlock : Nat → O → Except Signal Bool) : Nat → List O → Except Signal (List O)
  | _, [] => .ok []
  | k, each :: rest => do
      if ← aBlock k each then return each :: (← select aBlock (k + 1) rest)
      else select aBlock (k + 1) rest

section RemovingAll

variable [DecidableEq O]

def removeAllSuchThat (aBlock : Nat → O → Except Signal Bool) : Method O Unit := do
  let selected ← sent (select aBlock 0 (visited core (← get)))
  removeEach core (visited core (visited core selected))

/-- `removeAll:` -/
def removeAllOf (aCollection : Argument O) : Method O Unit := do
  let data ← get
  match aCollection with
  | .self => removeEach core (visited core (visited core data))
  | .other c => removeEach core c.elements

def removeAll : Method O Unit := do
  removeEach core (visited core (visited core (← get)))

end RemovingAll

/-! ## Copies -/

/-- `copyFrom:to:` -/
def copyFrom (data : List O) (start stop : Int) : Except Signal (List O) :=
  copyLoop (elementAt core data) start stop

/-- `i to: 1 by: -1 do: [:i | out add: (self at: i)]` -/
def reverseLoop (data : List O) : Nat → Except Signal (List O)
  | 0 => .ok []
  | i + 1 => do return (← elementAt core data (i + 1)) :: (← reverseLoop data i)

def reversed (data : List O) : Except Signal (List O) := reverseLoop core data data.length

/-- `at:` and `size` of an argument. -/
def argumentAt (data : List O) (index : Int) : Argument O → Except Signal O
  | .self => elementAt core data index
  | .other c => c.elementAt index

def argumentSize (data : List O) : Argument O → Nat
  | .self => data.length
  | .other c => c.elements.length

/-- `(1 to: n) allSatisfy: [:k | (self at: i + k - 1) = (oldSubCollection at: k)]` -/
def occursAt (data : List O) (old : Argument O) (n i : Nat) : Except Signal Bool :=
  (List.range n).allM fun k : Nat => do
    core.equals (← elementAt core data ((i : Int) + k)) (← argumentAt core data (k + 1) old)

def replaceLoop (data : List O) (old new : Argument O) (n : Nat) (hn : 0 < n) (i : Nat) :
    Except Signal (List O) :=
  if i ≤ data.length then do
    if ← (if i + n - 1 ≤ data.length then occursAt core data old n i else .ok false) then
      return (← visits core data new) ++ (← replaceLoop data old new n hn (i + n))
    else return (← elementAt core data i) :: (← replaceLoop data old new n hn (i + 1))
  else .ok []
termination_by data.length + 1 - i
decreasing_by
  · omega
  · omega

/-- `copyReplaceAll:with:`.  `withAll:` reads the elements of the copy by index. -/
def copyReplaceAll (data : List O) (old new : Argument O) : Except Signal (List O) :=
  if hn : 0 < argumentSize data old then do
    return visited core (← replaceLoop core data old new (argumentSize data old) hn 1)
  else .ok data

end Methods

/-! ## Operations -/

inductive Operation (O : Type) where
  | add (x : O)
  | addFirst (x : O)
  | addLast (x : O)
  | addAll (c : Argument O)
  | addAllFirst (c : Argument O)
  | addAllLast (c : Argument O)
  | addBeforeIndex (x : O) (index : Int)
  | addAfterIndex (x : O) (index : Int)
  | atPut (index : Int) (x : O)
  | removeFirst
  | removeLast
  | removeFirstN (n : Int)
  | removeLastN (n : Int)
  | removeAt (index : Int)
  | removeAllSuchThat (aBlock : Nat → O → Except Signal Bool)
  | removeAllOf (c : Argument O)
  | removeAll
  | copyFrom (start stop : Int)
  | reversed
  | copyReplaceAll (old new : Argument O)

inductive Answer (O : Type) where
  | self
  | argument
  | element (x : O)
  | array (xs : List O)
  | collection (xs : List O)
  deriving DecidableEq

section Runs

variable {O : Type} [DecidableEq O] (core : Core O)

def perform : Operation O → Method O (Answer O)
  | .add x | .addLast x => do return .element (← add x)
  | .addFirst x => do return .element (← addFirst x)
  | .addAll c => do
      addAll core c
      return .argument
  | .addAllFirst c => do
      addAllFirst core c
      return .argument
  | .addAllLast c => do
      addAllLast core c
      return .argument
  | .addBeforeIndex x index => do return .element (← addBeforeIndex core x index)
  | .addAfterIndex x index => do return .element (← addAfterIndex core x index)
  | .atPut index x => do return .element (← atPut core index x)
  | .removeFirst => do return .element (← removeFirst)
  | .removeLast => do return .element (← removeLast)
  | .removeFirstN n => do return .array (← removeFirstN core n)
  | .removeLastN n => do return .array (← removeLastN core n)
  | .removeAt index => do return .element (← removeAt core index)
  | .removeAllSuchThat aBlock => do
      removeAllSuchThat core aBlock
      return .self
  | .removeAllOf c => do
      removeAllOf core c
      return .argument
  | .removeAll => do
      removeAll core
      return .self
  | .copyFrom start stop => do return .collection (← sent (copyFrom core (← get) start stop))
  | .reversed => do return .collection (← sent (reversed core (← get)))
  | .copyReplaceAll old new => do
      return .collection (← sent (copyReplaceAll core (← get) old new))

/-- The answer, unless an error is signalled, and the elements after it. -/
def settle : EStateM.Result Signal (List O) (Answer O) → Option (Answer O) × List O
  | .ok a data => (some a, data)
  | .error _ data => (none, data)

def operate (operation : Operation O) (data : List O) : Option (Answer O) × List O :=
  settle (perform core operation data)

/-- The answers of a run, and the elements after it. -/
def run (step : Operation O → List O → Option (Answer O) × List O) :
    List (Operation O) → List O → List (Option (Answer O)) × List O
  | [], data => ([], data)
  | operation :: rest, data =>
      let after := run step rest (step operation data).2
      ((step operation data).1 :: after.1, after.2)

end Runs

/-! ## List functions -/

section Lists

variable {O : Type}

/-- The elements of an argument before the operation. -/
def Argument.before (data : List O) : Argument O → List O
  | .self => data
  | .other c => c.elements

def insertBefore (x : O) (index : Int) (data : List O) : Option (Answer O) × List O :=
  if 1 ≤ index ∧ index ≤ data.length + 1 then
    (some (.element x), data.insertIdx (index - 1).toNat x)
  else (none, data)

/-- What a block answers of each element. -/
def answers (aBlock : Nat → O → Except Signal Bool) : Nat → List O → Except Signal (List Bool)
  | _, [] => .ok []
  | k, x :: rest => do return (← aBlock k x) :: (← answers aBlock (k + 1) rest)

/-- The elements whose answers are `b`. -/
def answering (b : Bool) : List O → List Bool → List O
  | x :: xs, p :: ps => if p = b then x :: answering b xs ps else answering b xs ps
  | _, _ => []

/-- Remove each of some elements, unless one is absent. -/
def eraseEach (same : O → O → Bool) : List O → List O → Option (List O)
  | [], data => some data
  | y :: ys, data =>
      if data.any (same · y) then eraseEach same ys (data.eraseP (same · y)) else none

/-- Whether the elements of the second list are the first ones of the first. -/
def startsWith (equals : O → O → Except Signal Bool) : List O → List O → Except Signal Bool
  | x :: xs, y :: ys => do if ← equals x y then startsWith equals xs ys else .ok false
  | _, _ => .ok true

/-- Replace every non-overlapping occurrence, from the left. -/
def replaceAll (equals : O → O → Except Signal Bool) (old new : List O) :
    List O → Except Signal (List O)
  | [] => .ok []
  | x :: rest => do
      if ← (if old.length ≤ rest.length + 1 then startsWith equals (x :: rest) old
        else .ok false) then
        return new ++ (← replaceAll equals old new (rest.drop (old.length - 1)))
      else return x :: (← replaceAll equals old new rest)
termination_by data => data.length
decreasing_by
  · rw [List.length_drop, List.length_cons]
    omega
  · rw [List.length_cons]
    omega

variable [DecidableEq O] (core : Core O)

/-- The list function of an operation: its answer, or an error, and the elements after it. -/
def expected : Operation O → List O → Option (Answer O) × List O
  | .add x, data | .addLast x, data => (some (.element x), data ++ [x])
  | .addFirst x, data => (some (.element x), x :: data)
  | .addAll c, data | .addAllLast c, data => (some .argument, data ++ c.before data)
  | .addAllFirst c, data => (some .argument, c.before data ++ data)
  | .addBeforeIndex x index, data => insertBefore x index data
  | .addAfterIndex x index, data => insertBefore x (index + 1) data
  | .atPut index x, data =>
      if 1 ≤ index ∧ index ≤ data.length then
        (some (.element x), data.set (index - 1).toNat x)
      else (none, data)
  | .removeFirst, data => (data.head?.map .element, data.tail)
  | .removeLast, data => (data.getLast?.map .element, data.dropLast)
  | .removeFirstN n, data =>
      if 0 ≤ n ∧ n ≤ data.length then (some (.array (data.take n.toNat)), data.drop n.toNat)
      else (none, data)
  | .removeLastN n, data =>
      if 0 ≤ n ∧ n ≤ data.length then
        (some (.array (data.drop (data.length - n.toNat))), data.take (data.length - n.toNat))
      else (none, data)
  | .removeAt index, data =>
      if 1 ≤ index ∧ index ≤ data.length then
        (data[(index - 1).toNat]?.map .element, data.eraseIdx (index - 1).toNat)
      else (none, data)
  | .removeAllSuchThat aBlock, data =>
      match answers aBlock 0 data with
      | .ok ps => (some .self, answering false data ps)
      | .error _ => (none, data)
  | .removeAllOf c, data =>
      match eraseEach (same core) (c.before data) data with
      | some rest => (some .argument, rest)
      | none => (none, data)
  | .removeAll, _ => (some .self, [])
  | .copyFrom start stop, data =>
      if stop < start then (some (.collection []), data)
      else if 1 ≤ start ∧ stop ≤ data.length then
        (some (.collection (between data start stop)), data)
      else (none, data)
  | .reversed, data => (some (.collection data.reverse), data)
  | .copyReplaceAll old new, data =>
      if old.before data = [] then (some (.collection data), data)
      else
        match replaceAll core.equals (old.before data) (new.before data) data with
        | .ok out => (some (.collection out), data)
        | .error _ => (none, data)

/-- Indices that an `int` holds. -/
def Short (data : List O) : Prop := data.length ≤ 0x80000000

/-- An argument that is read by index. -/
def Collection.Indexed (c : Collection O) : Prop :=
  ∀ (k : Nat) (x : O), c.elements[k]? = some x → c.elementAt (k + 1) = .ok x

/-- An argument whose elements the primitives visit as `do:` yields them. -/
def Argument.Iterates : Argument O → Prop
  | .self => True
  | .other c => c.forEachElement = .ok c.elements

/-- The elements that a replacement makes at most of each element are few enough. -/
def ShortCopy (data new : List O) : Prop := data.length * max 1 new.length ≤ 0x80000000

/-- No element that a block answers true for comes after one that is the same for protoCore and
that it answers false for. -/
def Selects (same : O → O → Bool) : List O → List Bool → Prop
  | x :: xs, p :: ps =>
      (p = false → ∀ y ∈ answering true xs ps, same x y = false) ∧ Selects same xs ps
  | _, _ => True

/-- What an operation asks of the collection and of its arguments. -/
def Keeps : Operation O → List O → Prop
  | .add _, _ | .addFirst _, _ | .addLast _, _ | .removeFirst, _ | .removeLast, _ => True
  | .addAll .self, data => Short data
  | .addAll (.other c), _ => (Argument.other c).Iterates
  | .addAllFirst .self, data => data.length ≤ 1
  | .addAllFirst (.other c), _ => c.reverseDo = .ok c.elements.reverse
  | .removeAllSuchThat aBlock, data =>
      Short data ∧ ∀ ps, answers aBlock 0 data = .ok ps → Selects (same core) data ps
  | .removeAllOf c, data => Short data ∧ (eraseEach (same core) (c.before data) data).isSome
  | .copyReplaceAll old new, data =>
      ShortCopy data (new.before data) ∧ new.Iterates ∧ ∀ c, old = .other c → c.Indexed
  | _, data => Short data

end Lists

/-! ## Indices -/

section Indices

variable {O : Type} {core : Core O} {data : List O} {n : Nat}

theorem getAt_eq (h : Short data) (hn : n < data.length) :
    core.getAt data (toInt n) = data[n] := by
  unfold Short at h
  rw [IntegerDivision.toInt_eq (by omega) (by omega)]
  exact core.getAt_eq data n hn

theorem visited_eq (h : Short data) : visited core data = data := by
  refine List.ext_getElem (by simp [visited]) fun n _ hn => ?_
  simp only [visited, List.getElem_map, List.getElem_range, getAt_eq h hn]

theorem asLong_index (h : Short data) (hn : n < data.length) :
    asLong ((n : Int) + 1) = .ok ((n : Int) + 1) := by
  unfold Short at h
  exact if_neg (by omega)

theorem ShortCopy.short {new : List O} (h : ShortCopy data new) : Short data := by
  have hLe : data.length * 1 ≤ data.length * max 1 new.length :=
    Nat.mul_le_mul_left _ (Nat.le_max_left 1 new.length)
  unfold ShortCopy at h
  unfold Short
  omega

theorem visits_eq {c : Argument O} (h : Short data) (hIterates : c.Iterates) :
    visits core data c = .ok (c.before data) := by
  cases c with
  | self => exact congrArg Except.ok (visited_eq h)
  | other c => exact hIterates

theorem elementAt_eq (h : Short data) (hn : n < data.length) :
    elementAt core data (n + 1) = .ok data[n] := by
  unfold elementAt
  rw [asLong_index h hn]
  show (if (n : Int) + 1 < 1 ∨ (n : Int) + 1 > data.length then _ else
    Except.ok (core.getAt data (toInt ((n : Int) + 1 - 1)))) = _
  rw [if_neg (by omega), Int.add_sub_cancel, getAt_eq h hn]

theorem asLong_out {index : Int} (h : index < 1 ∨ n < index) :
    (∃ s, asLong index = .error s) ∨ asLong index = .ok index ∧ (index < 1 ∨ index > n) := by
  unfold asLong
  split
  · exact .inl ⟨_, rfl⟩
  · exact .inr ⟨rfl, h⟩

theorem elementAt_out {index : Int} (h : index < 1 ∨ data.length < index) :
    ∃ s, elementAt core data index = .error s := by
  unfold elementAt
  rcases asLong_out h with ⟨s, hs⟩ | ⟨hLong, hOut⟩
  · rw [hs]
    exact ⟨s, rfl⟩
  · rw [hLong]
    exact ⟨_, if_pos hOut⟩

theorem setElement_eq (h : Short data) (name : String) (hn : n < data.length) (x : O) :
    setElement core name data (n + 1) x = .ok (data.set n x) := by
  unfold setElement
  rw [asLong_index h hn]
  show (if (n : Int) + 1 < 1 ∨ (n : Int) + 1 > data.length then _ else
    Except.ok (core.setAt data (toInt ((n : Int) + 1 - 1)) x)) = _
  unfold Short at h
  rw [if_neg (by omega), Int.add_sub_cancel, IntegerDivision.toInt_eq (by omega) (by omega),
    core.setAt_eq data n x hn]

theorem setElement_out (core : Core O) (name : String) {index : Int}
    (h : index < 1 ∨ data.length < index) (x : O) :
    ∃ s, setElement core name data index x = .error s := by
  unfold setElement
  rcases asLong_out h with ⟨s, hs⟩ | ⟨hLong, hOut⟩
  · rw [hs]
    exact ⟨s, rfl⟩
  · rw [hLong]
    exact ⟨_, if_pos hOut⟩

theorem copyFrom_eq (h : Short data) {start stop : Int} (hFirst : 1 ≤ start)
    (hLast : stop ≤ data.length) : copyFrom core data start stop = .ok (between data start stop) :=
  copyLoop_eq (fun _ hn => elementAt_eq h hn) hFirst hLast

theorem copyFrom_error (core : Core O) {start stop : Int} (hSome : start ≤ stop)
    (hOut : start < 1 ∨ data.length < stop) : ∃ s, copyFrom core data start stop = .error s :=
  copyLoop_error data (fun _ hi => elementAt_out (.inl hi))
    (fun _ hi => elementAt_out (.inr hi)) hSome hOut

theorem reverseLoop_eq (h : Short data) (hn : n ≤ data.length) :
    reverseLoop core data n = .ok (data.take n).reverse := by
  induction n with
  | zero => rfl
  | succ n ih =>
      rw [reverseLoop, elementAt_eq h hn, ih (by omega), List.take_succ_eq_append_getElem hn,
        List.reverse_append]
      rfl

end Indices

/-! ## Insertion -/

section Insertion

variable {O : Type} {core : Core O} {data : List O}

theorem forM_add (xs : List O) :
    (forM xs fun each => do let _ ← add each : Method O Unit) data = .ok () (data ++ xs) := by
  induction xs generalizing data with
  | nil =>
      rw [List.append_nil]
      rfl
  | cons x xs ih =>
      have hHere : (do let _ ← add x : Method O Unit) data = .ok () (data ++ [x]) := rfl
      rw [List.forM_cons, bind_of_ok hHere, ih, List.append_assoc, List.singleton_append]

theorem forM_addFirst (xs : List O) :
    (forM xs fun each => do let _ ← addFirst each : Method O Unit) data =
      .ok () (xs.reverse ++ data) := by
  induction xs generalizing data with
  | nil => rfl
  | cons x xs ih =>
      have hHere : (do let _ ← addFirst x : Method O Unit) data = .ok () (x :: data) := rfl
      rw [List.forM_cons, bind_of_ok hHere, ih, List.reverse_cons, List.append_assoc,
        List.singleton_append]

/-- The tail that is torn off. -/
theorem tearOff_eq {test : Int → Bool} (keep : Nat)
    (hTest : ∀ n : Nat, test n = decide (keep < n)) (tail data : List O) :
    tearOff test tail data = .ok (data.drop keep ++ tail) (data.take keep) := by
  induction data using List.reverseRecOn generalizing tail with
  | nil =>
      rw [tearOff, List.length_nil, hTest, decide_eq_false (Nat.not_lt_zero keep),
        if_neg Bool.false_ne_true, List.drop_nil, List.take_nil]
      rfl
  | append_singleton data x ih =>
      rw [tearOff, hTest, List.length_append, List.length_singleton]
      by_cases hMore : keep < data.length + 1
      · rw [decide_eq_true hMore, if_pos rfl]
        split
        next hNone => simp at hNone
        next e hSome =>
          rw [List.getLast?_concat] at hSome
          cases hSome
          rw [List.dropLast_concat, ih, List.drop_append_of_le_length (by omega),
            List.take_append_of_le_length (by omega), List.append_assoc, List.singleton_append]
      · have hAll : (data ++ [x]).length ≤ keep := by
          rw [List.length_append, List.length_singleton]
          omega
        rw [decide_eq_false hMore, if_neg Bool.false_ne_true, List.drop_eq_nil_of_le hAll,
          List.take_of_length_le hAll]
        rfl

/-- The tail is short when the collection is. -/
theorem Short.drop (h : Short data) (n : Nat) : Short (data.drop n) := by
  unfold Short at *
  rw [List.length_drop]
  omega

variable {n : Nat}

theorem insertIdx_eq (x : O) {data : List O} (hn : n ≤ data.length) :
    data.insertIdx n x = data.take n ++ x :: data.drop n := by
  induction n generalizing data with
  | zero => rfl
  | succ n ih =>
      cases data with
      | nil => exact absurd hn (by simp)
      | cons y data =>
          rw [List.insertIdx_succ_cons, ih (Nat.le_of_succ_le_succ hn), List.take_succ_cons,
            List.drop_succ_cons, List.cons_append]

theorem addBeforeIndex_eq (h : Short data) (x : O) (hn : n ≤ data.length) :
    addBeforeIndex core x (n + 1) data = .ok x (data.insertIdx n x) := by
  have hTear : tearOff (fun size => decide (size ≥ (n : Int) + 1)) [] data =
      .ok (data.drop n) (data.take n) := by
    rw [tearOff_eq n (fun m => decide_eq_decide.mpr (by omega)), List.append_nil]
  have hInsert : data.insertIdx n x = data.take n ++ [x] ++ data.drop n := by
    rw [insertIdx_eq x hn, List.append_assoc, List.singleton_append]
  show (if 1 ≤ (n : Int) + 1 ∧ (n : Int) + 1 ≤ data.length + 1 then do
    let tail ← (tearOff (fun size => decide (size ≥ (n : Int) + 1)) [] : Method O (List O))
    let _ ← add x
    forM (visited core tail) fun each => do let _ ← add each
    return x
    else sent (outOfBounds ((n : Int) + 1) (data.length + 1)) : Method O O) data = _
  rw [if_pos (by omega), bind_of_ok hTear, visited_eq (h.drop n)]
  show (do
    forM (data.drop n) fun each => do let _ ← add each
    return x : Method O O) (data.take n ++ [x]) = _
  rw [bind_of_ok (forM_add _), hInsert]
  rfl

theorem addBeforeIndex_error (core : Core O) (x : O) {index : Int}
    (h : index < 1 ∨ data.length + 1 < index) :
    ∃ s, addBeforeIndex core x index data = .error s data := by
  refine ⟨.error ("index " ++ toString index ++ " out of bounds 1.." ++
    toString (data.length + 1)), ?_⟩
  show (if 1 ≤ index ∧ index ≤ data.length + 1 then _ else
    sent (outOfBounds index (data.length + 1)) : Method O O) data = _
  rw [if_neg (by omega)]
  rfl

theorem removeAt_eq (h : Short data) (hn : n < data.length) :
    removeAt core (n + 1) data = .ok data[n] (data.eraseIdx n) := by
  have hTear : tearOff (fun size => decide (size > (n : Int) + 1)) [] data =
      .ok (data.drop (n + 1)) (data.take (n + 1)) := by
    rw [tearOff_eq (n + 1) (fun m => decide_eq_decide.mpr (by omega)), List.append_nil]
  have hTake : data.take (n + 1) = data.take n ++ [data[n]] :=
    List.take_succ_eq_append_getElem hn
  have hLast : (removeLast : Method O O) (data.take (n + 1)) = .ok data[n] (data.take n) := by
    rw [hTake]
    unfold removeLast
    show (match (data.take n ++ [data[n]]).getLast? with
      | none => throw (.error "OrderedCollection>>removeLast: collection is empty")
      | some e => do
          set (data.take n ++ [data[n]]).dropLast
          return e : Method O O) _ = _
    rw [List.getLast?_concat, List.dropLast_concat]
    rfl
  show (if 1 ≤ (n : Int) + 1 ∧ (n : Int) + 1 ≤ data.length then do
    let tail ← (tearOff (fun size => decide (size > (n : Int) + 1)) [] : Method O (List O))
    let removed ← removeLast
    forM (visited core tail) fun each => do let _ ← add each
    return removed
    else sent (outOfBounds ((n : Int) + 1) data.length) : Method O O) data = _
  rw [if_pos (by omega), bind_of_ok hTear, bind_of_ok hLast, visited_eq (h.drop (n + 1)),
    bind_of_ok (forM_add _), List.eraseIdx_eq_take_drop_succ]
  rfl

theorem removeAt_error (core : Core O) {index : Int} (h : index < 1 ∨ data.length < index) :
    ∃ s, removeAt core index data = .error s data := by
  refine ⟨.error ("index " ++ toString index ++ " out of bounds 1.." ++ toString data.length), ?_⟩
  show (if 1 ≤ index ∧ index ≤ data.length then _ else
    sent (outOfBounds index data.length) : Method O O) data = _
  rw [if_neg (by omega)]
  rfl

end Insertion

/-! ## Removal at the ends -/

section Ends

variable {O : Type} {core : Core O}

theorem removeLast_concat (data : List O) (x : O) :
    (removeLast : Method O O) (data ++ [x]) = .ok x data := by
  unfold removeLast
  show (match (data ++ [x]).getLast? with
    | none => throw (.error "OrderedCollection>>removeLast: collection is empty")
    | some e => do
        set (data ++ [x]).dropLast
        return e : Method O O) _ = _
  rw [List.getLast?_concat, List.dropLast_concat]
  rfl

/-- The indices from 1. -/
def indices (n : Nat) : List Int := (List.range n).map fun i : Nat => (i : Int) + 1

variable {n : Nat}

/-- A turn of the loop of `removeFirst:` and `removeLast:`. -/
theorem fill_turn (core : Core O) {take : Method O O} {data rest answer : List O} {x : O}
    (hTake : take data = .ok x rest) (hShort : Short answer) (hn : n < answer.length) :
    (do sent (setElement core "Array>>at:put:" answer ((n : Int) + 1) (← take)) :
      Method O (List O)) data =
      .ok (answer.set n x) rest := by
  rw [bind_of_ok hTake, setElement_eq hShort _ hn]
  rfl

theorem fill_firsts (core : Core O) {k : Nat} (front data : List O) (hk : k ≤ data.length)
    (hShort : front.length + k ≤ 0x80000000) :
    fillEach core removeFirst ((List.range k).map fun i : Nat =>
      ((front.length + i : Nat) : Int) + 1)
      (front ++ List.replicate k core.nil) data = .ok (front ++ data.take k) (data.drop k) := by
  induction k generalizing front data with
  | zero =>
      rw [List.replicate_zero, List.take_zero, List.drop_zero]
      rfl
  | succ k ih =>
      cases data with
      | nil => exact absurd hk (by simp)
      | cons x data =>
          have hArray : (front ++ List.replicate (k + 1) core.nil).length ≤ 0x80000000 := by
            rw [List.length_append, List.length_replicate]
            exact hShort
          have hSet : (front ++ List.replicate (k + 1) core.nil).set front.length x =
              (front ++ [x]) ++ List.replicate k core.nil := by
            rw [List.set_append_right front.length x le_rfl, Nat.sub_self,
              List.replicate_succ, List.set_cons_zero, List.append_assoc, List.singleton_append]
          have hTake : (removeFirst : Method O O) (x :: data) = .ok x data := rfl
          have hTurn := fill_turn core hTake hArray
            (n := front.length) (by simp)
          rw [hSet] at hTurn
          have hRest : ((List.range k).map Nat.succ).map
              (fun i : Nat => ((front.length + i : Nat) : Int) + 1) =
              (List.range k).map fun i : Nat => (((front ++ [x]).length + i : Nat) : Int) + 1 := by
            rw [List.map_map]
            refine List.map_congr_left fun i _ => ?_
            simp only [Function.comp, List.length_append, List.length_singleton]
            omega
          have hNext := ih (front ++ [x]) data
            (by rw [List.length_cons] at hk; omega)
            (by rw [List.length_append, List.length_singleton]; omega)
          rw [List.range_succ_eq_map, List.map_cons, hRest, Nat.add_zero]
          unfold fillEach at hNext ⊢
          rw [List.foldlM_cons, bind_of_ok hTurn, hNext, List.take_succ_cons, List.drop_succ_cons,
            List.append_assoc, List.singleton_append]

theorem fill_lasts (core : Core O) {k : Nat} (back data : List O) (hk : k ≤ data.length)
    (hShort : k + back.length ≤ 0x80000000) :
    fillEach core removeLast (indices k).reverse (List.replicate k core.nil ++ back) data =
      .ok (data.drop (data.length - k) ++ back) (data.take (data.length - k)) := by
  induction k generalizing back data with
  | zero =>
      rw [Nat.sub_zero, List.drop_length, List.take_length]
      rfl
  | succ k ih =>
      obtain rfl | ⟨data, x, rfl⟩ := data.eq_nil_or_concat
      · exact absurd hk (by simp)
      · rw [List.concat_eq_append] at hk ⊢
        have hArray : (List.replicate (k + 1) core.nil ++ back).length ≤ 0x80000000 := by
          rw [List.length_append, List.length_replicate]
          exact hShort
        have hSet : (List.replicate (k + 1) core.nil ++ back).set k x =
            List.replicate k core.nil ++ (x :: back) := by
          rw [List.replicate_succ', List.append_assoc, List.set_append_right _ _ (by simp),
            List.length_replicate, Nat.sub_self]
          rfl
        have hTurn := fill_turn core (removeLast_concat data x) hArray (n := k)
          (by rw [List.length_append, List.length_replicate]; omega)
        rw [hSet] at hTurn
        have hNext := ih (x :: back) data
          (by rw [List.length_append, List.length_singleton] at hk; omega)
          (by rw [List.length_cons]; omega)
        have hReverse : (indices (k + 1)).reverse = ((k : Int) + 1) :: (indices k).reverse := by
          rw [indices, List.range_succ, List.map_append, List.reverse_append]
          rfl
        rw [hReverse]
        unfold fillEach at hNext ⊢
        have hLength : (data ++ [x]).length - (k + 1) = data.length - k := by
          rw [List.length_append, List.length_singleton]
          omega
        rw [List.foldlM_cons, bind_of_ok hTurn, hNext, hLength,
          List.drop_append_of_le_length (by omega), List.take_append_of_le_length (by omega),
          List.append_assoc, List.singleton_append]

variable {data : List O}

theorem removeMany_eq {take : Method O O} {order : List Int → List Int}
    (h : Short data) (hn : n ≤ data.length) :
    removeMany core take order n data =
      fillEach core take (order (indices n)) (List.replicate n core.nil) data := by
  unfold Short at h
  have hNew : arrayNew core n = .ok (List.replicate n core.nil) := by
    have hLong : asLong n = .ok (n : Int) := if_neg (by omega)
    unfold arrayNew
    rw [hLong]
    show (if (n : Int) < 0 then .error (.error "Array new: negative size")
      else Except.ok (List.replicate (n : Int).toNat core.nil)) = _
    rw [if_neg (by omega), Int.toNat_natCast]
  show (if (n : Int) > data.length then _ else do
    let answer ← sent (arrayNew core n)
    fillEach core take (order (indices (n : Int).toNat)) answer : Method O (List O)) data = _
  rw [if_neg (by omega), hNew, Int.toNat_natCast]
  rfl

theorem removeMany_error (core : Core O) (take : Method O O)
    (order : List Int → List Int) {n : Int}
    (h : n < 0 ∨ data.length < n) : ∃ s, removeMany core take order n data = .error s data := by
  by_cases hMany : n > data.length
  · refine ⟨.error ("remove: " ++ toString n ++ " but the collection has only " ++
      toString data.length ++ " elements"), ?_⟩
    show (if n > data.length then _ else _ : Method O (List O)) data = _
    rw [if_pos hMany]
    rfl
  · have hNew : ∃ s, arrayNew core n = .error s := by
      unfold arrayNew WideBits.asLong
      split
      · exact ⟨_, rfl⟩
      · exact ⟨_, if_pos (by omega)⟩
    obtain ⟨s, hs⟩ := hNew
    refine ⟨s, ?_⟩
    show (if n > data.length then _ else do
      let answer ← sent (arrayNew core n)
      fillEach core take (order (indices n.toNat)) answer : Method O (List O)) data = _
    rw [if_neg hMany, hs]
    rfl

theorem removeFirstN_eq (h : Short data) (hn : n ≤ data.length) :
    removeFirstN core n data = .ok (data.take n) (data.drop n) := by
  have hFill := fill_firsts core [] data hn (by unfold Short at h; simp; omega)
  have hIndices : ((List.range n).map fun i : Nat => ((([] : List O).length + i : Nat) : Int) + 1) =
      indices n := by
    refine List.map_congr_left fun i _ => ?_
    rw [List.length_nil, Nat.zero_add]
  rw [hIndices, List.nil_append, List.nil_append] at hFill
  rw [removeFirstN, removeMany_eq h hn]
  exact hFill

theorem removeLastN_eq (h : Short data) (hn : n ≤ data.length) :
    removeLastN core n data = .ok (data.drop (data.length - n)) (data.take (data.length - n)) := by
  have hFill := fill_lasts core [] data hn (by unfold Short at h; simp; omega)
  rw [List.append_nil, List.append_nil] at hFill
  rw [removeLastN, removeMany_eq h hn]
  exact hFill

end Ends

/-! ## Removal of elements -/

section Removal

variable {O : Type} [DecidableEq O] {core : Core O} {data : List O}

omit [DecidableEq O] in
/-- A search by index. -/
theorem find_range {p : O → Bool} {f : Nat → O} {data : List O}
    (hf : ∀ (i : Nat) (hi : i < data.length), f i = data[i]) :
    ((List.range data.length).find? fun i => p (f i)) = data.findIdx? p := by
  cases hFound : data.findIdx? p with
  | none =>
      refine List.find?_range_eq_none.mpr fun i hi => ?_
      rw [hf i hi, List.findIdx?_eq_none_iff.mp hFound _ (List.getElem_mem hi)]
      rfl
  | some i =>
      obtain ⟨hi, hHere, hBefore⟩ := List.findIdx?_eq_some_iff_getElem.mp hFound
      refine List.find?_range_eq_some.mpr ⟨?_, List.mem_range.mpr hi, fun j hj => ?_⟩
      · rw [hf i hi]
        exact hHere
      · have hNot := hBefore j hj
        rw [hf j (by omega)]
        simpa using hNot

theorem same_self (x : O) : same core x x = true := by
  rw [same, decide_eq_true rfl, Bool.true_or]

theorem indexOfEqual_eq (core : Core O) (h : Short data) (value : O) :
    indexOfEqual core data value =
      match data.findIdx? (same core · value) with
      | some i => (i : Int)
      | none => -1 := by
  unfold indexOfEqual
  rw [find_range (p := (same core · value)) (f := fun i => core.getAt data (toInt i))
    fun i hi => getAt_eq h hi]
  cases hFound : data.findIdx? (same core · value) with
  | none => rfl
  | some i =>
      have hLt : i < data.length := (List.findIdx?_eq_some_iff_findIdx_eq.mp hFound).1
      unfold Short at h
      exact IntegerDivision.toInt_eq (by omega) (by omega)

theorem remove_eq (h : Short data) {value : O} (hAny : data.any (same core · value) = true) :
    remove core value data = .ok value (data.eraseP (same core · value)) := by
  have hIndex := indexOfEqual_eq core h value
  rw [List.eraseP_eq_eraseIdx]
  cases hFound : data.findIdx? (same core · value) with
  | none =>
      obtain ⟨x, hMem, hx⟩ := List.any_eq_true.mp hAny
      rw [List.findIdx?_eq_none_iff.mp hFound x hMem] at hx
      cases hx
  | some i =>
      obtain ⟨hi, -, -⟩ := List.findIdx?_eq_some_iff_getElem.mp hFound
      rw [hFound] at hIndex
      dsimp only at hIndex
      show (if indexOfEqual core data value < 0 then _ else do
        set (core.removeAt data (indexOfEqual core data value))
        return value : Method O O) data = _
      rw [hIndex, if_neg (not_lt.mpr (Int.natCast_nonneg i)), core.removeAt_eq data i hi]
      rfl

/-- Removal one by one. -/
theorem removeEach_eq {ys rest : List O} (h : Short data)
    (hErase : eraseEach (same core) ys data = some rest) :
    removeEach core ys data = .ok () rest := by
  induction ys generalizing data with
  | nil =>
      cases hErase
      rfl
  | cons y ys ih =>
      unfold eraseEach at hErase
      split at hErase
      next hAny =>
        have hShort : Short (data.eraseP (same core · y)) := by
          have hLength := List.length_eraseP_le (p := (same core · y)) (l := data)
          unfold Short at *
          omega
        have hHere : (do let _ ← remove core y : Method O Unit) data =
            .ok () (data.eraseP (same core · y)) := by
          rw [bind_of_ok (remove_eq h hAny)]
          rfl
        have hRest := ih hShort hErase
        unfold removeEach at hRest ⊢
        rw [List.forM_cons, bind_of_ok hHere, hRest]
      next => cases hErase

/-- Elements that are not the first one are removed behind it. -/
theorem eraseEach_cons {x : O} {ys : List O} (hOther : ∀ y ∈ ys, same core x y = false)
    (data : List O) :
    eraseEach (same core) ys (x :: data) = (eraseEach (same core) ys data).map (x :: ·) := by
  induction ys generalizing data with
  | nil => rfl
  | cons y ys ih =>
      have hFirst := hOther y List.mem_cons_self
      have hAny : (x :: data).any (same core · y) = data.any (same core · y) := by
        rw [List.any_cons, hFirst, Bool.false_or]
      have hErase : (x :: data).eraseP (same core · y) = x :: data.eraseP (same core · y) := by
        rw [List.eraseP_cons, hFirst]
        rfl
      unfold eraseEach
      rw [hAny, hErase, ih fun z hz => hOther z (List.mem_cons_of_mem y hz)]
      split
      next => rfl
      next => rfl

theorem eraseEach_self_cons (x : O) (ys data : List O) :
    eraseEach (same core) (x :: ys) (x :: data) = eraseEach (same core) ys data := by
  have hAny : (x :: data).any (same core · x) = true := by
    rw [List.any_cons, same_self, Bool.true_or]
  have hErase : (x :: data).eraseP (same core · x) = data := by
    rw [List.eraseP_cons, same_self]
    rfl
  rw [eraseEach, if_pos hAny, hErase]

/-- The selected elements are removed, and no others. -/
theorem eraseEach_answering {ps : List Bool} (hLength : ps.length = data.length)
    (h : Selects (same core) data ps) :
    eraseEach (same core) (answering true data ps) data = some (answering false data ps) := by
  induction data generalizing ps with
  | nil => rfl
  | cons x data ih =>
      cases ps with
      | nil => cases hLength
      | cons p ps =>
          obtain ⟨hKept, hRest⟩ := h
          have hNext := ih (Nat.succ.inj hLength) hRest
          cases p with
          | true =>
              show eraseEach (same core) (x :: answering true data ps) (x :: data) = _
              rw [eraseEach_self_cons, hNext]
              rfl
          | false =>
              show eraseEach (same core) (answering true data ps) (x :: data) = _
              rw [eraseEach_cons (hKept rfl), hNext]
              rfl

theorem eraseEach_all (data : List O) : eraseEach (same core) data data = some [] := by
  induction data with
  | nil => rfl
  | cons x data ih => rw [eraseEach_self_cons, ih]

omit [DecidableEq O] in
theorem select_eq (aBlock : Nat → O → Except Signal Bool) (k : Nat) (data : List O) :
    select aBlock k data = (answers aBlock k data).map (answering true data) := by
  induction data generalizing k with
  | nil => rfl
  | cons x data ih =>
      unfold select answers
      rw [ih]
      cases aBlock k x with
      | error s => rfl
      | ok p =>
          cases answers aBlock (k + 1) data with
          | error s =>
              cases p with
              | false => rfl
              | true => rfl
          | ok ps =>
              cases p with
              | false => rfl
              | true => rfl

omit [DecidableEq O] in
theorem length_answers {aBlock : Nat → O → Except Signal Bool} {k : Nat} {data : List O}
    {ps : List Bool} (h : answers aBlock k data = .ok ps) : ps.length = data.length := by
  induction data generalizing k ps with
  | nil =>
      cases h
      rfl
  | cons x data ih =>
      unfold answers at h
      cases hHere : aBlock k x with
      | error s =>
          rw [hHere] at h
          cases h
      | ok p =>
          cases hRest : answers aBlock (k + 1) data with
          | error s =>
              rw [hHere, hRest] at h
              cases h
          | ok qs =>
              rw [hHere, hRest] at h
              cases h
              rw [List.length_cons, List.length_cons, ih hRest]

omit [DecidableEq O] in
theorem length_answering_le (b : Bool) (data : List O) (ps : List Bool) :
    (answering b data ps).length ≤ data.length := by
  induction data generalizing ps with
  | nil => exact Nat.le_refl 0
  | cons x data ih =>
      cases ps with
      | nil => exact Nat.zero_le _
      | cons p ps =>
          have hRest := ih ps
          unfold answering
          split
          next =>
            rw [List.length_cons, List.length_cons]
            omega
          next =>
            rw [List.length_cons]
            omega

end Removal

/-! ## Replacement -/

section Replacement

variable {O : Type} {core : Core O} {data : List O}

theorem allM_startsWith (equals : O → O → Except Signal Bool) {xs ys : List O}
    (f : Nat → Except Signal Bool) (hLength : ys.length ≤ xs.length)
    (hf : ∀ (k : Nat) (x y : O), xs[k]? = some x → ys[k]? = some y → f k = equals x y) :
    (List.range ys.length).allM f = startsWith equals xs ys := by
  induction ys generalizing xs f with
  | nil =>
      cases xs with
      | nil => rfl
      | cons x xs => rfl
  | cons y ys ih =>
      cases xs with
      | nil => exact absurd hLength (by simp)
      | cons x xs =>
          have hRest := ih (fun k => f (k + 1))
            (show ys.length ≤ xs.length from Nat.le_of_succ_le_succ hLength)
            fun k a b ha hb => hf (k + 1) a b ha hb
          rw [List.length_cons, List.range_succ_eq_map, List.allM_cons,
            NativeIntervals.allM_map Nat.succ, hf 0 x y rfl rfl]
          unfold startsWith
          rw [← hRest]
          rfl

theorem occursAt_eq (h : Short data) {old : Argument O} {ys : List O}
    (hOld : ∀ (k : Nat) (y : O), ys[k]? = some y → argumentAt core data (k + 1) old = .ok y)
    {j : Nat} (hLength : ys.length ≤ (data.drop j).length) :
    occursAt core data old ys.length (j + 1) = startsWith core.equals (data.drop j) ys := by
  refine allM_startsWith core.equals _ hLength fun k x y hx hy => ?_
  rw [List.getElem?_drop] at hx
  obtain ⟨hIn, rfl⟩ := List.getElem?_eq_some_iff.mp hx
  have hIndex : ((j + 1 : Nat) : Int) + k = ((j + k : Nat) : Int) + 1 := by omega
  rw [hIndex, elementAt_eq h hIn, hOld k y hy]
  rfl

/-- The loop of `copyReplaceAll:with:` from an index. -/
theorem replaceLoop_eq (h : Short data) {old new : Argument O} {ys zs : List O}
    (hOld : ∀ (k : Nat) (y : O), ys[k]? = some y → argumentAt core data (k + 1) old = .ok y)
    (hNew : visits core data new = .ok zs) (hn : 0 < ys.length) (j : Nat) :
    replaceLoop core data old new ys.length hn (j + 1) =
      replaceAll core.equals ys zs (data.drop j) := by
  induction hMeasure : data.length - j using Nat.strong_induction_on generalizing j with
  | _ m ih =>
      by_cases hMore : j < data.length
      · have hDrop : data.drop j = data[j] :: data.drop (j + 1) := List.drop_eq_getElem_cons hMore
        have hTest : (if j + 1 + ys.length - 1 ≤ data.length then
            occursAt core data old ys.length (j + 1) else .ok false) =
            if ys.length ≤ (data.drop (j + 1)).length + 1 then
              startsWith core.equals (data[j] :: data.drop (j + 1)) ys else .ok false := by
          rw [← hDrop]
          by_cases hFits : ys.length ≤ (data.drop j).length
          · rw [List.length_drop] at hFits
            rw [if_pos (by omega), if_pos (by rw [List.length_drop]; omega)]
            exact occursAt_eq h hOld (by rw [List.length_drop]; exact hFits)
          · rw [List.length_drop] at hFits
            rw [if_neg (by omega), if_neg (by rw [List.length_drop]; omega)]
        have hAfter := ih (data.length - (j + ys.length)) (by omega) (j + ys.length) rfl
        have hNext := ih (data.length - (j + 1)) (by omega) (j + 1) rfl
        have hSkip : (data.drop (j + 1)).drop (ys.length - 1) = data.drop (j + ys.length) := by
          rw [List.drop_drop]
          congr 1
          omega
        have hOver : j + 1 + ys.length = j + ys.length + 1 := by omega
        have hHere : elementAt core data ((j + 1 : Nat) : Int) = .ok data[j] := elementAt_eq h hMore
        rw [replaceLoop, if_pos (by omega), hTest, hOver, hAfter, hNext, hNew, hHere, hDrop,
          replaceAll,
          hSkip]
        rfl
      · rw [replaceLoop, if_neg (by omega), List.drop_eq_nil_of_le (by omega), replaceAll]

/-- A replacement makes of each element that element or the new ones. -/
theorem length_replaceAll_le (equals : O → O → Except Signal Bool) (old new : List O)
    {data out : List O} (h : replaceAll equals old new data = .ok out) :
    out.length ≤ data.length * max 1 new.length := by
  induction hLength : data.length using Nat.strong_induction_on generalizing data out with
  | _ n ih =>
      cases data with
      | nil =>
          rw [replaceAll] at h
          cases h
          exact Nat.zero_le _
      | cons x rest =>
          rw [List.length_cons] at hLength
          rw [replaceAll] at h
          cases hTest : (if old.length ≤ rest.length + 1 then
              startsWith equals (x :: rest) old else .ok false) with
          | error s =>
              rw [hTest] at h
              cases h
          | ok found =>
              rw [hTest] at h
              cases found with
              | true =>
                  cases hRest : replaceAll equals old new (rest.drop (old.length - 1)) with
                  | error s =>
                      simp only [hRest] at h
                      cases h
                  | ok more =>
                      simp only [hRest] at h
                      cases h
                      have hDrop : (rest.drop (old.length - 1)).length ≤ rest.length := by
                        rw [List.length_drop]
                        omega
                      have hMore := ih _ (by omega) hRest rfl
                      have hMono := Nat.mul_le_mul_right (max 1 new.length) hDrop
                      rw [List.length_append, ← hLength, Nat.succ_mul]
                      omega
              | false =>
                  cases hRest : replaceAll equals old new rest with
                  | error s =>
                      simp only [hRest] at h
                      cases h
                  | ok more =>
                      simp only [hRest] at h
                      cases h
                      have hMore := ih _ (by omega) hRest rfl
                      rw [List.length_cons, ← hLength, Nat.succ_mul]
                      omega

theorem copyReplaceAll_eq {old new : Argument O} (hCopy : ShortCopy data (new.before data))
    (hNew : new.Iterates) (hOld : ∀ c, old = .other c → c.Indexed) :
    copyReplaceAll core data old new =
      if old.before data = [] then .ok data
      else replaceAll core.equals (old.before data) (new.before data) data := by
  have h : Short data := hCopy.short
  have hAt (k : Nat) (y : O) (hy : (old.before data)[k]? = some y) :
      argumentAt core data (k + 1) old = .ok y := by
    cases old with
    | self =>
        obtain ⟨hIn, rfl⟩ := List.getElem?_eq_some_iff.mp hy
        exact elementAt_eq h hIn
    | other c => exact hOld c rfl k y hy
  have hSize : argumentSize data old = (old.before data).length := by
    cases old with
    | self => rfl
    | other c => rfl
  unfold copyReplaceAll
  by_cases hSome : old.before data = []
  · have hZero : ¬ 0 < argumentSize data old := by
      rw [hSize, hSome]
      exact Nat.lt_irrefl 0
    rw [dif_neg hZero, if_pos hSome]
  · have hPos : 0 < (old.before data).length := List.length_pos_iff.mpr hSome
    have hLoop := replaceLoop_eq h hAt (visits_eq h hNew) hPos 0
    rw [List.drop_zero] at hLoop
    rw [if_neg hSome]
    simp only [hSize, hPos, dite_true]
    rw [hLoop]
    cases hOut : replaceAll core.equals (old.before data) (new.before data) data with
    | error s => rfl
    | ok out =>
        have hShort : Short out :=
          (length_replaceAll_le core.equals (old.before data) (new.before data) hOut).trans hCopy
        show Except.ok (visited core out) = _
        rw [visited_eq hShort]

end Replacement

/-! ## Runs of operations -/

section Refinement

variable {O : Type} [DecidableEq O] {core : Core O} {data : List O} {operation : Operation O}

variable {α : Type}

theorem operate_ok {method : Method O α}
    (answer : α → Answer O) (hPerform : perform core operation = do return answer (← method))
    {a : α} {rest : List O} (h : method data = .ok a rest) :
    operate core operation data = (some (answer a), rest) := by
  rw [operate, hPerform, bind_of_ok h]
  rfl

theorem operate_error {method : Method O α}
    (answer : α → Answer O) (hPerform : perform core operation = do return answer (← method))
    {s : Signal} {rest : List O} (h : method data = .error s rest) :
    operate core operation data = (none, rest) := by
  rw [operate, hPerform, bind_of_error h]
  rfl

omit [DecidableEq O] in
theorem sent_error {e : Except Signal α} {s : Signal} (h : e = .error s) :
    (sent e : Method O α) data = .error s data := by
  rw [h]
  rfl

omit [DecidableEq O] in
theorem sent_ok {e : Except Signal α} {a : α} (h : e = .ok a) :
    (sent e : Method O α) data = .ok a data := by
  rw [h]
  rfl

omit [DecidableEq O] in
theorem iterated_eq (core : Core O) (h : Short data) (c : Argument O) : iterated core data c =
    c.before data := by
  cases c with
  | self => exact visited_eq h
  | other c => rfl

/-- An index of an element, and the natural number before it. -/
theorem index_cases (index : Int) (n : Nat) :
    (∃ k : Nat, index = k + 1 ∧ k < n) ∨ ¬ (1 ≤ index ∧ index ≤ n) ∧ (index < 1 ∨ n < index) := by
  by_cases h : 1 ≤ index ∧ index ≤ n
  · exact .inl ⟨(index - 1).toNat, by omega, by omega⟩
  · exact .inr ⟨h, by omega⟩

theorem insertBefore_refines (h : Short data) (x : O) (index : Int)
    (hPerform : perform core operation = do return .element (← addBeforeIndex core x index)) :
    operate core operation data = insertBefore x index data := by
  rcases index_cases index (data.length + 1) with ⟨k, rfl, hk⟩ | ⟨hNot, hOut⟩
  · rw [operate_ok _ hPerform (addBeforeIndex_eq h x (by omega)), insertBefore, if_pos (by omega),
      Int.add_sub_cancel, Int.toNat_natCast]
  · obtain ⟨s, hs⟩ := addBeforeIndex_error core x
      (show index < 1 ∨ data.length + 1 < index by omega)
    rw [operate_error _ hPerform hs, insertBefore, if_neg (by omega)]

theorem addAllFirst_eq {c : Argument O} (hKeeps : Keeps core (.addAllFirst c) data) :
    addAllFirst core c data = .ok () (c.before data ++ data) := by
  cases c with
  | other c =>
      have hReverse : c.reverseDo = .ok c.elements.reverse := hKeeps
      show (do forM (← sent c.reverseDo) fun each => do let _ ← addFirst each : Method O Unit)
        data = _
      rw [bind_of_ok (sent_ok hReverse), forM_addFirst, List.reverse_reverse]
      rfl
  | self =>
      have hFew : data.length ≤ 1 := hKeeps
      cases data with
      | nil => rfl
      | cons x rest =>
          have hRest : rest = [] := by
            rw [List.length_cons] at hFew
            exact List.length_eq_zero_iff.mp (by omega)
          subst hRest
          have hShort : Short [x] := by
            unfold Short
            rw [List.length_singleton]
            omega
          have hHere : elementAt core [x] ((0 : Nat) + 1) = .ok x :=
            elementAt_eq hShort (n := 0) Nat.zero_lt_one
          show (do
            let _ ← addFirst (← sent (elementAt core [x] ((0 : Nat) + 1)))
            reverseAdd core 0 : Method O Unit) [x] = _
          rw [hHere]
          rfl

theorem atPut_refines (h : Short data) (index : Int) (x : O) :
    operate core (.atPut index x) data = expected core (.atPut index x) data := by
  have hRun : atPut core index x data = (do
      set (← sent (setElement core "OrderedCollection>>at:put:" data index x))
      return x : Method O O) data := rfl
  dsimp only [expected]
  rcases index_cases index data.length with ⟨k, rfl, hk⟩ | ⟨hNot, hOut⟩
  · rw [bind_of_ok (sent_ok (setElement_eq h _ hk x))] at hRun
    rw [operate_ok .element rfl hRun, if_pos (by omega), Int.add_sub_cancel,
      Int.toNat_natCast]
  · obtain ⟨s, hs⟩ := setElement_out core "OrderedCollection>>at:put:" hOut x
    rw [bind_of_error (sent_error hs)] at hRun
    rw [operate_error .element rfl hRun, if_neg hNot]

theorem removeAt_refines (h : Short data) (index : Int) :
    operate core (.removeAt index) data = expected core (.removeAt index) data := by
  dsimp only [expected]
  rcases index_cases index data.length with ⟨k, rfl, hk⟩ | ⟨hNot, hOut⟩
  · rw [operate_ok .element rfl (removeAt_eq h hk), if_pos (by omega),
      Int.add_sub_cancel, Int.toNat_natCast, List.getElem?_eq_getElem hk]
    rfl
  · obtain ⟨s, hs⟩ := removeAt_error core hOut
    rw [operate_error .element rfl hs, if_neg hNot]

/-- `removeFirst:` and `removeLast:`, by what they do with a count that fits. -/
theorem removeMany_refines (take : Method O O)
    (order : List Int → List Int) (n : Int) (removed kept : Nat → List O)
    (hPerform : perform core operation = do return .array (← removeMany core take order n))
    (hTake : ∀ k : Nat, k ≤ data.length →
      removeMany core take order k data = .ok (removed k) (kept k)) :
    operate core operation data =
      if 0 ≤ n ∧ n ≤ data.length then (some (.array (removed n.toNat)), kept n.toNat)
      else (none, data) := by
  by_cases hn : 0 ≤ n ∧ n ≤ data.length
  · have hCount : ((n.toNat : Nat) : Int) = n := Int.toNat_of_nonneg hn.1
    have hRun := hTake n.toNat (by omega)
    rw [hCount] at hRun
    rw [operate_ok _ hPerform hRun, if_pos hn]
  · obtain ⟨s, hs⟩ := removeMany_error core take order
      (show n < 0 ∨ data.length < n by omega)
    rw [operate_error _ hPerform hs, if_neg hn]

theorem removeAllSuchThat_refines {aBlock : Nat → O → Except Signal Bool} (h : Short data)
    (hSelects : ∀ ps, answers aBlock 0 data = .ok ps → Selects (same core) data ps) :
    operate core (.removeAllSuchThat aBlock) data =
      expected core (.removeAllSuchThat aBlock) data := by
  have hSelect := select_eq aBlock 0 data
  have hRun : removeAllSuchThat core aBlock data = (do
      let selected ← sent (select aBlock 0 (visited core data))
      removeEach core (visited core (visited core selected)) : Method O Unit) data := rfl
  rw [visited_eq h] at hRun
  dsimp only [expected]
  cases hAnswers : answers aBlock 0 data with
  | error s =>
      rw [hAnswers] at hSelect
      rw [bind_of_error (sent_error hSelect)] at hRun
      exact operate_error (fun _ => .self) rfl hRun
  | ok ps =>
      rw [hAnswers] at hSelect
      have hFew : Short (answering true data ps) := by
        have hLength := length_answering_le true data ps
        unfold Short at *
        omega
      rw [bind_of_ok (sent_ok hSelect), visited_eq hFew, visited_eq hFew, removeEach_eq h
        (eraseEach_answering (length_answers hAnswers) (hSelects ps hAnswers))] at hRun
      exact operate_ok (fun _ => .self) rfl hRun

theorem removeAllOf_refines {c : Argument O} (h : Short data)
    (hPresent : (eraseEach (same core) (c.before data) data).isSome) :
    operate core (.removeAllOf c) data = expected core (.removeAllOf c) data := by
  obtain ⟨rest, hErase⟩ := Option.isSome_iff_exists.mp hPresent
  have hRemove : removeAllOf core c data = .ok () rest := by
    cases c with
    | self =>
        have hRun : removeAllOf core .self data =
            removeEach core (visited core (visited core data)) data := rfl
        rw [visited_eq h, visited_eq h] at hRun
        exact hRun.trans (removeEach_eq h hErase)
    | other c => exact removeEach_eq h hErase
  dsimp only [expected]
  rw [hErase]
  exact operate_ok (fun _ => .argument) rfl hRemove

/-- An operation that answers a copy. -/
theorem copy_refines (copy : List O → Except Signal (List O))
    (hPerform : perform core operation = do return .collection (← sent (copy (← get)))) :
    operate core operation data = match copy data with
      | .ok out => (some (.collection out), data)
      | .error _ => (none, data) := by
  rw [operate, hPerform]
  cases hCopy : copy data with
  | ok out =>
      show settle ((do return .collection (← sent (copy data)) : Method O (Answer O)) data) = _
      rw [hCopy]
      rfl
  | error s =>
      show settle ((do return .collection (← sent (copy data)) : Method O (Answer O)) data) = _
      rw [hCopy]
      rfl

theorem copyFrom_refines (h : Short data) (start stop : Int) :
    operate core (.copyFrom start stop) data = expected core (.copyFrom start stop) data := by
  rw [copy_refines (fun data => copyFrom core data start stop) rfl]
  dsimp only [expected]
  by_cases hEmpty : stop < start
  · have hCopy : copyFrom core data start stop = .ok [] := copyLoop_empty _ hEmpty
    rw [hCopy, if_pos hEmpty]
  · by_cases hIn : 1 ≤ start ∧ stop ≤ data.length
    · rw [copyFrom_eq h hIn.1 hIn.2, if_neg hEmpty, if_pos hIn]
    · obtain ⟨s, hs⟩ := copyFrom_error core (show start ≤ stop by omega)
        (show start < 1 ∨ data.length < stop by omega)
      rw [hs, if_neg hEmpty, if_neg hIn]

theorem copyReplaceAll_refines {old new : Argument O}
    (hKeeps : Keeps core (.copyReplaceAll old new) data) :
    operate core (.copyReplaceAll old new) data = expected core (.copyReplaceAll old new) data := by
  obtain ⟨hCopy, hNew, hOld⟩ := hKeeps
  rw [copy_refines (fun data => copyReplaceAll core data old new) rfl]
  dsimp only [expected]
  rw [copyReplaceAll_eq hCopy hNew hOld]
  by_cases hNone : old.before data = []
  · rw [if_pos hNone, if_pos hNone]
  · rw [if_neg hNone, if_neg hNone]

/-- An operation that keeps to its conditions is the list function. -/
theorem operation_refines (operation : Operation O) (hKeeps : Keeps core operation data) :
    operate core operation data = expected core operation data := by
  cases operation with
  | add x => rfl
  | addFirst x => rfl
  | addLast x => rfl
  | addAll c =>
      have hVisits : visits core data c = .ok (c.before data) := by
        cases c with
        | self => exact visits_eq hKeeps trivial
        | other c => exact hKeeps
      have hAdd : addAll core c data = .ok () (data ++ c.before data) := by
        have hRun : addAll core c data = (do
            let elements ← sent (visits core data c)
            set (data ++ elements) : Method O Unit) data := rfl
        rw [hRun, bind_of_ok (sent_ok hVisits)]
        rfl
      exact operate_ok (fun _ => .argument) rfl hAdd
  | addAllFirst c => exact operate_ok (fun _ => .argument) rfl (addAllFirst_eq hKeeps)
  | addAllLast c =>
      have h : Short data := hKeeps
      have hAdd : addAllLast core c data = .ok () (data ++ c.before data) := by
        rw [← iterated_eq core h c]
        exact forM_add _
      exact operate_ok (fun _ => .argument) rfl hAdd
  | addBeforeIndex x index => exact insertBefore_refines hKeeps x index rfl
  | addAfterIndex x index => exact insertBefore_refines hKeeps x (index + 1) rfl
  | atPut index x => exact atPut_refines hKeeps index x
  | removeFirst =>
      cases data with
      | nil => rfl
      | cons x rest => rfl
  | removeLast =>
      obtain rfl | ⟨rest, x, rfl⟩ := data.eq_nil_or_concat
      · rfl
      · rw [List.concat_eq_append, operate_ok .element rfl (removeLast_concat rest x)]
        dsimp only [expected]
        rw [List.getLast?_concat, List.dropLast_concat]
        rfl
  | removeFirstN n =>
      exact removeMany_refines OrderedCollections.removeFirst id n _ _ rfl
        fun k hk => removeFirstN_eq hKeeps hk
  | removeLastN n =>
      exact removeMany_refines OrderedCollections.removeLast List.reverse n
        (fun k => data.drop (data.length - k)) _ rfl fun k hk => removeLastN_eq hKeeps hk
  | removeAt index => exact removeAt_refines hKeeps index
  | removeAllSuchThat aBlock => exact removeAllSuchThat_refines hKeeps.1 hKeeps.2
  | removeAllOf c => exact removeAllOf_refines hKeeps.1 hKeeps.2
  | removeAll =>
      have h : Short data := hKeeps
      have hRun : removeAll core data =
        removeEach core (visited core (visited core data)) data := rfl
      rw [visited_eq h, visited_eq h, removeEach_eq h (eraseEach_all data)] at hRun
      exact operate_ok (fun _ => .self) rfl hRun
  | copyFrom start stop => exact copyFrom_refines hKeeps start stop
  | reversed =>
      have hReverse : reversed core data = .ok data.reverse := by
        rw [reversed, reverseLoop_eq hKeeps le_rfl, List.take_length]
      rw [copy_refines (OrderedCollections.reversed core) rfl, hReverse]
      rfl
  | copyReplaceAll old new => exact copyReplaceAll_refines hKeeps

variable (core) in
/-- Every operation of a run keeps to its conditions. -/
inductive RunKeeps : List (Operation O) → List O → Prop
  | nil (data : List O) : RunKeeps [] data
  | cons {operation : Operation O} {rest : List (Operation O)} {data : List O} :
      Keeps core operation data → RunKeeps rest (expected core operation data).2 →
      RunKeeps (operation :: rest) data

/-- A run of operations that keep to their conditions is the run of the list functions. -/
theorem operations_refine {operations : List (Operation O)} (h : RunKeeps core operations data) :
    run (operate core) operations data = run (expected core) operations data := by
  induction h with
  | nil data => rfl
  | cons hKeeps hRest ih =>
      unfold run
      rw [operation_refines _ hKeeps, ih]

end Refinement

/-! ## Runs on numbers -/

/-- A number, an Integer or a Float. -/
structure Numeral where
  value : Nat
  isFloat : Bool
  deriving DecidableEq

/-- Numbers are the same when their values are. -/
def numerals : Core Numeral where
  getAt xs i := (xs[i.toNat]?).getD ⟨0, false⟩
  setAt xs i x := xs.set i.toNat x
  removeAt xs i := xs.eraseIdx i.toNat
  getAt_eq xs i h := by
    rw [Int.toNat_natCast, List.getElem?_eq_getElem h]
    rfl
  setAt_eq xs i x _ := by rw [Int.toNat_natCast]
  removeAt_eq xs i _ := by rw [Int.toNat_natCast]
  compares x y := x.value == y.value
  nil := ⟨0, false⟩
  equals x y := .ok (x.value == y.value)

def integer (n : Nat) : Numeral := ⟨n, false⟩

/-- An insertion, a removal by value and a removal at the end. -/
theorem operations_refine_numerals :
    run (operate numerals) [.addBeforeIndex (integer 5) 2, .removeAllOf .self, .removeLast]
        [integer 1, integer 2] =
      run (expected numerals) [.addBeforeIndex (integer 5) 2, .removeAllOf .self, .removeLast]
        [integer 1, integer 2] := by
  refine operations_refine (.cons ?_ (.cons ⟨?_, ?_⟩ (.cons trivial (.nil _))))
  · exact show (2 : Nat) ≤ 0x80000000 by decide
  · exact show (3 : Nat) ≤ 0x80000000 by decide
  · decide

/-- `(1 to: 1)`, a NumericInterval. -/
def numericInterval : Collection Numeral where
  elements := [integer 1]
  forEachElement := .ok []
  elementAt i := if i = 1 then .ok (integer 1) else .error (.error "Interval>>at:: out of range")
  reverseDo := .ok [integer 1]

/-- A collection put before itself, a Float that a block tells from an Integer, and an interval
whose elements are added. -/
theorem not_operations_refine :
    run (operate numerals) [.addAllFirst .self] [integer 1, integer 2, integer 3] ≠
        run (expected numerals) [.addAllFirst .self] [integer 1, integer 2, integer 3] ∧
      run (operate numerals) [.removeAllSuchThat fun _ x => .ok x.isFloat] [integer 1, ⟨1, true⟩] ≠
        run (expected numerals) [.removeAllSuchThat fun _ x => .ok x.isFloat]
          [integer 1, ⟨1, true⟩] ∧
      run (operate numerals) [.addAll (.other numericInterval)] [] ≠
        run (expected numerals) [.addAll (.other numericInterval)] [] := by
  decide

end ProtoST.Collections.OrderedCollections

import ProtoST.Collections.Hashed
import Mathlib.Data.List.Range
import Mathlib.Tactic.Ring

/-!
# Collections as arguments

`addAll:`, `removeAll:`, the comma and `withAll:` of the collection classes, for every kind
of collection they can be given.  The primitives iterate with `forEachElement`, which
recognises what an object holds; the methods written in protoST send `do:`, which each
class answers in its own way.

The actions that a method runs for an element (`add:`, `remove:`, `at:put:`) are parameters,
over any state; so is the arithmetic of Numbers that a NumericInterval uses.

## Main results

* `Argument.doEach_eq` — what `do:` yields, for every kind.
* `Operation.run_agrees` — the methods visit that, but for the exceptions of
  `Operation.Usual`; what a primitive does with a NumericInterval is left out.
* `Operation.not_run_eq_onElements` — the exceptions are there.
-/

namespace ProtoST.Collections

variable {O σ : Type}

/-- The arithmetic of Numbers; a Fraction is an object. -/
class Arithmetic (O : Type) where
  add : Value O → Value O → Value O
  sub : Value O → Value O → Value O
  mul : Value O → Value O → Value O
  div : Value O → Value O → Value O
  floor : Value O → Int

/-- What an instance of a built-in collection class holds: the list of an Array, an
OrderedCollection, a SortedCollection or a Bag, the map of a Set or of a Dictionary, the
bounds of an Interval. -/
inductive Store (O : Type) where
  | list (xs : List (Value O))
  | set (es : List (Value O × Value O))
  | dictionary (es : List (Value O × Value O))
  | interval (start stop step : Int)

/-- A collection: an instance of a built-in class, of a user subclass of one that overrides
`do:`, of a user class with no native store, and the kinds written in protoST. -/
inductive Argument (O : Type) where
  | builtin (s : Store O)
  | overriding (s : Store O) (yields : List (Value O))
  | user (yields : List (Value O))
  | numericInterval (start stop step : Value O)
  | string (text : List Nat)
  | symbol (text : List Nat)

/-- A method over the state of a program. -/
abbrev Method (σ α : Type) := EStateM Error σ α

def runtimeError (text : String) : Error := .signal "Error" text

/-! ## Iteration -/

/-- `intervalSize`. -/
def intervalSize (start stop step : Int) : Int :=
  if step = 0 then 0
  else if step > 0 then
    if stop < start then 0 else (stop - start).tdiv step + 1
  else if stop > start then 0
  else (start - stop).tdiv (-step) + 1

/-- The loop over the elements of an Interval: `fn` answers whether to go on. -/
def intervalLoop (fn : Value O → Method σ Bool) (step : Int) : Nat → Int → Method σ Bool
  | 0, _ => pure true
  | n + 1, cur => do
      if ← fn (integer cur) then intervalLoop fn step n (cur + step) else pure false

/-- The loop over a list. -/
def listLoop (fn : Value O → Method σ Bool) : List (Value O) → Method σ Bool
  | [] => pure true
  | e :: es => do
      if ← fn e then listLoop fn es else pure false

/-- The arms of `forEachElement` for the built-in kinds. -/
def Store.forEach (fn : Value O → Method σ Bool) : Store O → Method σ Bool
  | interval start stop step =>
      intervalLoop fn step (intervalSize start stop step).toNat start
  | list xs => listLoop fn xs
  | set es => listLoop fn (es.map (·.1))
  | dictionary es => listLoop fn (es.map (·.2))

/-- The count of what a built-in instance holds. -/
def Store.size : Store O → Nat
  | list xs => xs.length
  | set es => es.length
  | dictionary es => es.length
  | interval start stop step => (intervalSize start stop step).toNat

/-- `i to: i + n - 1 do: aBlock`. -/
def toDo (aBlock : Nat → Method σ Unit) : Nat → Nat → Method σ Unit
  | _, 0 => pure ()
  | i, n + 1 => do
      aBlock i
      toDo aBlock (i + 1) n

section
variable [Arithmetic O]

/-- `NumericInterval>>size`. -/
def numericSize (start stop step : Value O) : Nat :=
  (Arithmetic.floor (Arithmetic.div (Arithmetic.sub stop start) step) + 1).toNat

/-- `start + ((i - 1) * step)`. -/
def numericElement (start step : Value O) (i : Nat) : Value O :=
  Arithmetic.add start (Arithmetic.mul (integer (i - 1)) step)

/-- `String>>at:`. -/
def characterAt (text : List Nat) (i : Nat) : Value O := .character (text.getD (i - 1) 0)

namespace Argument

/-- `do:`. -/
def doEach (aBlock : Value O → Method σ Unit) : Argument O → Method σ Unit
  | builtin s => do
      let _ ← s.forEach fun e => do
        aBlock e
        pure true
  | overriding _ yields => forM yields aBlock
  | user yields => forM yields aBlock
  | numericInterval start stop step =>
      toDo (fun i => aBlock (numericElement start step i)) 1 (numericSize start stop step)
  | string text => toDo (fun i => aBlock (characterAt text i)) 1 text.length
  | symbol text => toDo (fun i => aBlock (characterAt text i)) 1 text.length

/-- `__elementsForIteration`: `self do: [:each | out addLast: each]`. -/
def elementsForIteration (c : Argument O) : List (Value O) :=
  Lib.final (c.doEach (fun e => modify fun out => out ++ [e]) [])

/-- `forEachElement`.  A NumericInterval descends from Interval and has none of its
attributes, which default to 1, 0 and 1. -/
def forEachElement (fn : Value O → Method σ Bool) : Argument O → Method σ Bool
  | builtin s => s.forEach fn
  | overriding s _ => s.forEach fn
  | numericInterval _ _ _ => (Store.interval 1 0 1).forEach fn
  | user yields => listLoop fn (user yields).elementsForIteration
  | string _ => throw (runtimeError "collection does not understand iteration")
  | symbol _ => throw (runtimeError "collection does not understand iteration")

/-- The elements appended to a C++ list, one at a time. -/
def appendTo (data : List (Value O)) (c : Argument O) : Method σ (List (Value O)) :=
  let append : Value O → Method (List (Value O)) Bool := fun e => do
    modify fun out => out ++ [e]
    pure true
  match c.forEachElement append data with
  | .ok _ out => pure out
  | .error e _ => throw e

/-- `size`. -/
def size : Argument O → Nat
  | builtin s => s.size
  | overriding s _ => s.size
  | user yields => (user yields).elementsForIteration.length
  | numericInterval start stop step => numericSize start stop step
  | string text => text.length
  | symbol text => text.length

/-- `asArray`. -/
def asArray : Argument O → Method σ (Argument O)
  | numericInterval start stop step =>
      pure (builtin (.list
        ((List.range (numericSize start stop step)).map fun i =>
          numericElement start step (i + 1))))
  | c => do return builtin (.list (← c.appendTo []))

end Argument

/-! ## The operations that take a collection -/

/-- A method that takes a collection, with the actions it runs. -/
inductive Operation (O σ : Type) where
  /-- `Collection>>addAll:`; `String class>>withAll:` with `nextPut:`. -/
  | addAll (add : Value O → Method σ Unit)
  /-- `OrderedCollection>>addAll:`, `prim_OC_addAll`. -/
  | orderedAddAll (data : List (Value O)) (setData : List (Value O) → Method σ Unit)
  /-- `SortedCollection>>addAll:`. -/
  | sortedAddAll (add : Value O → Method σ Unit) (sort : Method σ Unit)
  /-- `Dictionary>>addAll:`. -/
  | dictionaryAddAll (atPut : Value O → Value O → Method σ Unit) (add : Value O → Method σ Unit)
  /-- `Collection>>removeAll:`, of the receiver itself or of another collection. -/
  | removeAll (isReceiver : Bool) (remove : Value O → Method σ Unit)
  /-- The comma. -/
  | comma (receiver : Argument O) (answer : List (Value O) → Method σ Unit)
  /-- `Array class>>withAll:`. -/
  | arrayWithAll (new : Nat → Method σ Unit) (atPut : Nat → Value O → Method σ Unit)
  /-- `withAll:` of the other classes: `self new addAll: aCollection`. -/
  | withAll (new : Method σ Unit) (addAll : Operation O σ)

namespace Argument

/-- The text of a String or a Symbol. -/
def text : Argument O → Option (List Nat)
  | string text => some text
  | symbol text => some text
  | _ => none

/-- The entries of a Dictionary. -/
def entries : Argument O → Option (List (Value O × Value O))
  | builtin (.dictionary es) => some es
  | overriding (.dictionary es) _ => some es
  | _ => none

end Argument

/-- `i := i + 1` and the action. -/
def counted (action : Nat → Value O → Method σ Unit) (e : Value O) : Method (σ × Nat) Unit :=
  fun s =>
    match action (s.2 + 1) e s.1 with
    | .ok _ s' => .ok () (s', s.2 + 1)
    | .error error s' => .error error (s', s.2 + 1)

/-- The counter is gone when the method returns. -/
def uncounted : EStateM.Result Error (σ × Nat) Unit → EStateM.Result Error σ Unit
  | .ok _ s => .ok () s.1
  | .error error s => .error error s.1

/-- Run `action` with the index of each element that `do:` yields: `i := i + 1`. -/
def withIndex (action : Nat → Value O → Method σ Unit) (c : Argument O) : Method σ Unit :=
  fun s => uncounted (c.doEach (counted action) (s, 0))

namespace Operation

/-- `prim_Collection_concat`. -/
def concat (receiver c : Argument O) (answer : List (Value O) → Method σ Unit) :
    Method σ Unit := do
  let out ← receiver.appendTo []
  let out ← c.appendTo out
  answer out

/-- `prim_StrConcat`, for a collection as argument. -/
def stringConcat (text : List Nat) (c : Argument O) (answer : List (Value O) → Method σ Unit) :
    Method σ Unit :=
  match c.text with
  | some other => answer ((text ++ other).map .character)
  | none => throw (runtimeError ("Cannot append a non-string to a String " ++
      "(use printString or displayString to convert it)"))

/-- Run a method on a collection. -/
def run (c : Argument O) : Operation O σ → Method σ Unit
  | addAll add => c.doEach add
  | orderedAddAll data setData => do setData (← c.appendTo data)
  | sortedAddAll add sort => do
      c.doEach add
      sort
  | dictionaryAddAll atPut add =>
      match c.entries with
      | some es => forM es fun e => atPut e.1 e.2
      | none => c.doEach add
  | removeAll isReceiver remove => do
      let elements ← if isReceiver then c.asArray else pure c
      elements.doEach remove
  | comma receiver answer =>
      match receiver with
      | .string text => stringConcat text c answer
      | .symbol text => stringConcat text c answer
      | .numericInterval .. => do concat (← receiver.asArray) c answer
      | receiver => concat receiver c answer
  | arrayWithAll new atPut => do
      new c.size
      withIndex atPut c
  | withAll new method => do
      new
      method.run c

end Operation

/-! ## What `do:` yields -/

/-- What an iteration over a built-in instance visits. -/
def Store.elements : Store O → List (Value O)
  | list xs => xs
  | set es => es.map (·.1)
  | dictionary es => es.map (·.2)
  | interval start stop step =>
      (List.range (intervalSize start stop step).toNat).map fun i : Nat =>
        integer (start + i * step)

/-- What `do:` yields. -/
def Argument.elements : Argument O → List (Value O)
  | builtin s => s.elements
  | overriding _ yields => yields
  | user yields => yields
  | numericInterval start stop step =>
      (List.range (numericSize start stop step)).map fun i => numericElement start step (i + 1)
  | string text => text.map .character
  | symbol text => text.map .character

section Loops
omit [Arithmetic O]

theorem listLoop_eq (fn : Value O → Method σ Unit) (xs : List (Value O)) :
    (listLoop (fun e => do
      fn e
      pure true) xs) = (do
        forM xs fn
        pure true) := by
  induction xs with
  | nil => simp [listLoop]
  | cons x xs ih =>
      rw [listLoop, ih, List.forM_cons]
      simp only [bind_assoc, pure_bind, if_true]

theorem intervalLoop_eq (fn : Value O → Method σ Bool) (step : Int) (n : Nat) (cur : Int) :
    intervalLoop fn step n cur =
      listLoop fn ((List.range n).map fun i : Nat => integer (cur + i * step)) := by
  induction n generalizing cur with
  | zero => rfl
  | succ n ih =>
      rw [intervalLoop, List.range_succ_eq_map, List.map_cons, listLoop, ih, List.map_map]
      have hfirst : cur + (0 : Nat) * step = cur := by simp
      have hrest : (fun i : Nat => integer (O := O) (cur + step + i * step)) =
          (fun i : Nat => integer (cur + i * step)) ∘ Nat.succ := by
        funext i
        simp only [Function.comp, Nat.cast_succ]
        congr 1
        ring
      rw [hfirst, hrest]

/-- The built-in kinds are visited element by element. -/
theorem Store.forEach_eq (fn : Value O → Method σ Bool) (s : Store O) :
    s.forEach fn = listLoop fn s.elements := by
  cases s with
  | interval start stop step => exact intervalLoop_eq fn step _ start
  | _ => rfl

/-- A counted loop visits `g 0`, `g 1` and so on when it runs `fn` on them. -/
theorem toDo_eq {aBlock : Nat → Method σ Unit} {fn : Value O → Method σ Unit} {g : Nat → Value O}
    (i n : Nat) (h : ∀ j, aBlock (i + j) = fn (g j)) :
    toDo aBlock i n = forM ((List.range n).map g) fn := by
  induction n generalizing i g with
  | zero => rfl
  | succ n ih =>
      have hnext : ∀ j, aBlock (i + 1 + j) = fn (g (j + 1)) := by
        intro j
        rw [← h (j + 1)]
        congr 1
        omega
      rw [toDo, ih (i + 1) hnext, List.range_succ_eq_map, List.map_cons, List.forM_cons,
        List.map_map, ← h 0]
      rfl

end Loops

namespace Argument

/-- What `do:` yields, for every kind. -/
theorem doEach_eq (aBlock : Value O → Method σ Unit) (c : Argument O) :
    c.doEach aBlock = forM c.elements aBlock := by
  have htext : ∀ text : List Nat, toDo (fun i => aBlock (characterAt text i)) 1 text.length =
      forM (text.map Value.character) aBlock := by
    intro text
    have hget : (List.range text.length).map (fun i => Value.character (O := O) (text.getD i 0)) =
        text.map Value.character := by
      refine List.ext_getElem (by simp) fun i hi _ => ?_
      simp only [List.length_map, List.length_range] at hi
      simp [hi]
    rw [← hget]
    refine toDo_eq 1 text.length fun j => ?_
    rw [characterAt, Nat.add_sub_cancel_left]
  cases c with
  | builtin s =>
      rw [doEach, s.forEach_eq, listLoop_eq]
      simp only [bind_assoc, pure_bind, bind_pure_unit]
      rfl
  | overriding s yields => rfl
  | user yields => rfl
  | numericInterval start stop step =>
      refine toDo_eq 1 (numericSize start stop step) fun j => ?_
      rw [Nat.add_comm]
  | string text => exact htext text
  | symbol text => exact htext text

/-- What `do:` yields is what is gathered. -/
theorem elementsForIteration_eq (c : Argument O) : c.elementsForIteration = c.elements := by
  have happend : ∀ (es out : List (Value O)),
      (forM es (fun e => modify fun out => out ++ [e]) : Method (List (Value O)) Unit) out =
        .ok () (out ++ es) := by
    intro es
    induction es with
    | nil => exact fun out => by simp; rfl
    | cons e es ih =>
        intro out
        rw [List.forM_cons]
        change (forM es _ : Method (List (Value O)) Unit) (out ++ [e]) = _
        rw [ih, List.append_assoc, List.singleton_append]
  rw [elementsForIteration, doEach_eq, happend]
  rfl

/-- What a primitive visits: the elements that a built-in instance holds, whatever its
class makes of `do:`.  Strings and Symbols are no collections. -/
def stored : Argument O → Option (List (Value O))
  | overriding s _ => some s.elements
  | string _ => none
  | symbol _ => none
  | c => some c.elements

/-- Whether it is a NumericInterval. -/
def isNumericInterval : Argument O → Bool
  | numericInterval _ _ _ => true
  | _ => false

/-- What a primitive does with an argument that is no collection. -/
def noIteration {α : Type} : Method σ α :=
  throw (runtimeError "collection does not understand iteration")

omit [Arithmetic O] in
/-- Appending goes through the whole list. -/
theorem listLoop_append (es out : List (Value O)) :
    listLoop (fun e => (do
      modify fun out => out ++ [e]
      pure true : Method (List (Value O)) Bool)) es out = .ok true (out ++ es) := by
  induction es generalizing out with
  | nil => simp [listLoop]; rfl
  | cons e es ih =>
      change listLoop _ es (out ++ [e]) = _
      rw [ih, List.append_assoc, List.singleton_append]

/-- The elements are appended in their order. -/
theorem appendTo_eq (data : List (Value O)) {c : Argument O} (h : c.isNumericInterval = false) :
    (c.appendTo data : Method σ (List (Value O))) =
      match c.stored with
      | some xs => pure (data ++ xs)
      | none => noIteration := by
  cases c with
  | builtin s =>
      unfold appendTo
      simp only [forEachElement, s.forEach_eq, listLoop_append]
      rfl
  | overriding s yields =>
      unfold appendTo
      simp only [forEachElement, s.forEach_eq, listLoop_append]
      rfl
  | user yields =>
      unfold appendTo
      simp only [forEachElement, elementsForIteration_eq, listLoop_append]
      rfl
  | numericInterval start stop step => cases h
  | string text => rfl
  | symbol text => rfl

/-- `asArray` holds what a primitive visits, and the elements of a NumericInterval. -/
theorem asArray_eq (c : Argument O) :
    (c.asArray : Method σ (Argument O)) =
      match c.stored with
      | some xs => pure (builtin (.list xs))
      | none => noIteration := by
  cases c with
  | builtin s =>
      change (do return builtin (.list (← (builtin s).appendTo []))) = _
      rw [appendTo_eq [] rfl]
      rfl
  | overriding s yields =>
      change (do return builtin (.list (← (overriding s yields).appendTo []))) = _
      rw [appendTo_eq [] rfl]
      rfl
  | user yields =>
      change (do return builtin (.list (← (user yields).appendTo []))) = _
      rw [appendTo_eq [] rfl]
      rfl
  | numericInterval start stop step => rfl
  | string text => rfl
  | symbol text => rfl

end Argument

omit [Arithmetic O] in
/-- The counter runs ahead of the action. -/
theorem uncounted_forM (action : Nat → Value O → Method σ Unit) (es : List (Value O)) (s : σ)
    (i : Nat) : uncounted ((forM es (counted action) : Method (σ × Nat) Unit) (s, i)) =
      (forM (es.zipIdx (i + 1)) fun e => action e.2 e.1 : Method σ Unit) s := by
  induction es generalizing s i with
  | nil => rfl
  | cons e es ih =>
      rw [List.zipIdx_cons, List.forM_cons, List.forM_cons]
      change uncounted (EStateM.bind (counted action e) (fun _ => forM es (counted action))
        (s, i)) =
        EStateM.bind (action (i + 1) e) _ s
      cases hact : action (i + 1) e s with
      | ok a s' => simp only [EStateM.bind, counted, hact, ih]
      | error error s' => simp only [EStateM.bind, counted, hact, uncounted]

/-- The actions are run with the indices 1, 2 and so on. -/
theorem withIndex_eq (action : Nat → Value O → Method σ Unit) (c : Argument O) :
    withIndex action c = forM (c.elements.zipIdx 1) fun e => action e.2 e.1 := by
  funext s
  rw [← uncounted_forM action c.elements s 0]
  unfold withIndex
  rw [Argument.doEach_eq]

/-! ## What the operations visit -/

namespace Operation

/-- The method, had it visited exactly these elements. -/
def onElements (xs : List (Value O)) : Operation O σ → Method σ Unit
  | addAll add => forM xs add
  | orderedAddAll data setData => setData (data ++ xs)
  | sortedAddAll add sort => do
      forM xs add
      sort
  | dictionaryAddAll _ add => forM xs add
  | removeAll _ remove => forM xs remove
  | comma receiver answer => answer (receiver.stored.getD receiver.elements ++ xs)
  | arrayWithAll new atPut => do
      new xs.length
      forM (xs.zipIdx 1) fun e => atPut e.2 e.1
  | withAll new method => do
      new
      method.onElements xs

/-- What the method does by design.  The primitives read what an instance of a built-in
class holds and take no String or Symbol; a Dictionary adds the entries of a Dictionary; a
String appends only Strings and Symbols; an Array takes its size from the argument. -/
def expected (c : Argument O) : Operation O σ → Method σ Unit
  | orderedAddAll data setData =>
      match c.stored with
      | some xs => setData (data ++ xs)
      | none => Argument.noIteration
  | dictionaryAddAll atPut add =>
      match c.entries with
      | some es => forM es fun e => atPut e.1 e.2
      | none => forM c.elements add
  | removeAll isReceiver remove =>
      if isReceiver then
        match c.stored with
        | some xs => forM xs remove
        | none => Argument.noIteration
      else forM c.elements remove
  | comma receiver answer =>
      match receiver.stored with
      | none => stringConcat ((receiver.text).getD []) c answer
      | some left =>
          match c.stored with
          | some xs => answer (left ++ xs)
          | none => Argument.noIteration
  | arrayWithAll new atPut => do
      new c.size
      forM (c.elements.zipIdx 1) fun e => atPut e.2 e.1
  | withAll new method => do
      new
      method.expected c
  | method => method.onElements c.elements

/-- Whether the method iterates over its argument with `forEachElement`. -/
def native : Operation O σ → Bool
  | orderedAddAll _ _ => true
  | comma receiver _ => receiver.text.isNone
  | withAll _ method => method.native
  | _ => false

/-- The elements that an instance holds are those that its `do:` yields. -/
def plain (c : Argument O) : Prop := c.stored = some c.elements

/-- When a method is expected to visit the elements of its argument: not a Dictionary that
is added to a Dictionary, for a String only texts, for a primitive and for `removeAll:` of
itself only a plain collection. -/
def Usual (c : Argument O) : Operation O σ → Prop
  | orderedAddAll _ _ => plain c
  | dictionaryAddAll _ _ => c.entries = none
  | removeAll isReceiver _ => isReceiver = true → plain c
  | comma receiver _ =>
      match receiver.text with
      | some _ => c.text.isSome
      | none => plain c
  | arrayWithAll _ _ => c.size = c.elements.length
  | withAll _ method => method.Usual c
  | _ => True

theorem concat_eq (receiver : Argument O) {c : Argument O} (answer : List (Value O) → Method σ Unit)
    (hreceiver : receiver.isNumericInterval = false) (hc : c.isNumericInterval = false) :
    concat receiver c answer =
      match receiver.stored with
      | none => Argument.noIteration
      | some left =>
          match c.stored with
          | some xs => answer (left ++ xs)
          | none => Argument.noIteration := by
  rw [concat, Argument.appendTo_eq [] hreceiver]
  cases receiver.stored with
  | none => rfl
  | some left =>
      simp only [List.nil_append, pure_bind]
      rw [Argument.appendTo_eq left hc]
      cases c.stored with
      | none => rfl
      | some xs => exact pure_bind _ _

/-- The comma, for every receiver. -/
theorem comma_eq (receiver c : Argument O) (answer : List (Value O) → Method σ Unit)
    (h : receiver.text.isNone = true → c.isNumericInterval = false) :
    (comma receiver answer).run c = (comma receiver answer).expected c := by
  cases receiver with
  | string text => rfl
  | symbol text => rfl
  | builtin s => exact concat_eq (.builtin s) answer rfl (h rfl)
  | overriding s yields => exact concat_eq (.overriding s yields) answer rfl (h rfl)
  | user yields => exact concat_eq (.user yields) answer rfl (h rfl)
  | numericInterval start stop step =>
      exact concat_eq (.builtin (.list (Argument.numericInterval start stop step).elements))
        answer rfl (h rfl)

/-- The methods do what is expected of them; of a NumericInterval this is not said of the
methods that iterate with `forEachElement`. -/
theorem run_eq (op : Operation O σ) (c : Argument O)
    (h : op.native = true → c.isNumericInterval = false) : op.run c = op.expected c := by
  induction op with
  | addAll add => exact c.doEach_eq add
  | orderedAddAll data setData =>
      rw [run, expected, c.appendTo_eq data (h rfl)]
      cases c.stored with
      | none => rfl
      | some xs => exact pure_bind _ _
  | sortedAddAll add sort =>
      rw [run, c.doEach_eq add]
      rfl
  | dictionaryAddAll atPut add => rw [run, expected, c.doEach_eq add]
  | removeAll isReceiver remove =>
      rw [run, expected]
      cases isReceiver with
      | false => exact (pure_bind _ _).trans (c.doEach_eq remove)
      | true =>
          simp only [if_true, c.asArray_eq]
          cases c.stored with
          | none => rfl
          | some xs => exact (pure_bind _ _).trans ((Argument.builtin (.list xs)).doEach_eq remove)
  | comma receiver answer => exact comma_eq receiver c answer h
  | arrayWithAll new atPut => rw [run, expected, withIndex_eq]
  | withAll new method ih => rw [run, expected, ih h]

/-- What is expected is a visit of the elements, where that is usual. -/
theorem expected_eq_onElements (op : Operation O σ) (c : Argument O) (h : op.Usual c) :
    op.expected c = op.onElements c.elements := by
  induction op with
  | orderedAddAll data setData =>
      change c.stored = some c.elements at h
      rw [expected, h]
      rfl
  | dictionaryAddAll atPut add =>
      change c.entries = none at h
      rw [expected, h]
      rfl
  | removeAll isReceiver remove =>
      cases isReceiver with
      | false => rfl
      | true =>
          have hplain : c.stored = some c.elements := h rfl
          rw [expected, if_pos rfl, hplain]
          rfl
  | comma receiver answer =>
      have htext : ∀ text, c.text.isSome →
          stringConcat text c answer = answer (text.map .character ++ c.elements) := by
        intro text hc
        cases c with
        | string other => exact congrArg answer List.map_append
        | symbol other => exact congrArg answer List.map_append
        | _ => cases hc
      have hplain : receiver.text = none → c.stored = some c.elements := by
        intro hreceiver
        rw [Usual, hreceiver] at h
        exact h
      cases receiver with
      | string text => exact htext text h
      | symbol text => exact htext text h
      | _ =>
          rw [expected, hplain rfl]
          rfl
  | arrayWithAll new atPut =>
      change c.size = c.elements.length at h
      rw [expected, h]
      rfl
  | withAll new method ih => rw [expected, onElements, ih h]
  | _ => rfl

/-- The methods do what is expected of them, and but for the exceptions of `Usual` that is to
visit the elements that `do:` yields, in their order, each once. -/
theorem run_agrees (op : Operation O σ) (c : Argument O)
    (h : op.native = true → c.isNumericInterval = false) :
    op.run c = op.expected c ∧ (op.Usual c → op.run c = op.onElements c.elements) :=
  ⟨op.run_eq c h, fun husual => (op.run_eq c h).trans (op.expected_eq_onElements c husual)⟩

end Operation

end

/-! ## The exceptions -/

/-- The exact value of a number. -/
def exactValue : Value Unit → Rat
  | .number (.integer n) => n
  | .number (.float q) => q
  | _ => 0

/-- Exact arithmetic on Integers and Floats. -/
instance exactArithmetic : Arithmetic Unit where
  add a b := .number (.float (exactValue a + exactValue b))
  sub a b := .number (.float (exactValue a - exactValue b))
  mul a b := .number (.float (exactValue a * exactValue b))
  div a b := .number (.float (exactValue a / exactValue b))
  floor a := (exactValue a).floor

namespace Operation

/-- The elements that a method adds to a list. -/
abbrev Added := Method (List (Value Unit)) Unit

/-- Add an element. -/
def appendElement (e : Value Unit) : Added := modify fun out => out ++ [e]

/-- Replace the list. -/
def replaceElements (xs : List (Value Unit)) : Added := set xs

/-- `(OrderedCollection withAll: #(1)) addAll: (1 to: 3)`. -/
theorem run_agrees_interval :
    Lib.final ((orderedAddAll [integer 1] replaceElements).run (.builtin (.interval 1 3 1)) []) =
      [integer 1, integer 1, integer 2, integer 3] := by
  rw [((orderedAddAll [integer 1] replaceElements).run_agrees (.builtin (.interval 1 3 1))
    fun _ => rfl).2 rfl]
  decide

/-- Not every method visits what `do:` yields: a Dictionary adds the entries of a Dictionary,
a String appends no Array, an OrderedCollection adds no String, and the comma reads what an
instance holds although its class overrides `do:`. -/
theorem not_run_eq_onElements :
    let addEntries : Operation Unit (List (Value Unit)) :=
      dictionaryAddAll (fun k v => do appendElement k; appendElement v) appendElement
    let entries : Argument Unit := .builtin (.dictionary [(integer 1, integer 2)])
    let array : Argument Unit := .builtin (.list [integer 1])
    let reversed : Argument Unit :=
      .overriding (.list [integer 1, integer 2]) [integer 2, integer 1]
    addEntries.run entries ≠ addEntries.onElements entries.elements ∧
      (comma (.string [97]) replaceElements).run array ≠
        (comma (.string [97]) replaceElements).onElements array.elements ∧
      (orderedAddAll [] replaceElements).run (.string [97]) ≠
        (orderedAddAll [] replaceElements).onElements (Argument.string [97]).elements ∧
      (comma array replaceElements).run reversed ≠
        (comma array replaceElements).onElements reversed.elements := by
  have hdiffer : ∀ {m n : Added}, Lib.final (m []) ≠ Lib.final (n []) → m ≠ n :=
    fun hne heq => hne (congrArg (fun m => Lib.final (m [])) heq)
  exact ⟨hdiffer (by decide), hdiffer (by decide), hdiffer (by decide), hdiffer (by decide)⟩

end Operation

end ProtoST.Collections

import ProtoST.Collections.Hashed

/-!
# Finite sets, multisets and maps

What a program over Sets, Bags and Dictionaries may do when a Set is a finite set of
values, a Bag a multiset and a Dictionary a finite map, all three keyed by the equality
of keys.  An iteration visits the elements in some order, each once; a program that
iterates has one behaviour for each order.
-/

namespace ProtoST.Collections

open Lib

variable {O : Type} [DecidableEq O] [Protocol O]

/-- A set by its members, a multiset by how often it holds a value, a map by its values. -/
inductive Content (O : Type) where
  | set (holds : Value O → Bool)
  | bag (occurrences : Value O → Nat)
  | dictionary (value : Value O → Option (Value O))

namespace Content

def cls : Content O → Class
  | set _ => .set
  | bag _ => .bag
  | dictionary _ => .dictionary

/-- `es` lists the content, each entry once; an element is listed with itself. -/
def Enumerates : Content O → List (Value O × Value O) → Prop
  | set S, es => Keyed.Distinct stKeyEquals es ∧ (∀ e ∈ es, e.2 = e.1) ∧
      ∀ v, S v = (Keyed.lookup stKeyEquals v es).isSome
  | bag n, es => (∀ e ∈ es, e.2 = e.1) ∧ ∀ v, n v = (es.map (·.1)).countP fun x => stKeyEquals x v
  | dictionary m, es => Keyed.Distinct stKeyEquals es ∧
      ∀ k, m k = Keyed.lookup stKeyEquals k es

/-- The empty content. -/
def empty : Class → Content O
  | .set => set fun _ => false
  | .bag => bag fun _ => 0
  | .dictionary => dictionary fun _ => none

/-- The set or the multiset of the values in a list. -/
def ofElements : Class → List (Value O) → Content O
  | .set, xs => set fun v => xs.any fun x => stKeyEquals x v
  | .bag, xs => bag fun v => xs.countP fun x => stKeyEquals x v
  | .dictionary, _ => empty .dictionary

/-- Add a value to a set or a multiset. -/
def insert (e : Value O) : Content O → Value O × Content O
  | set S => (e, set fun v => S v || stKeyEquals e v)
  | bag n => (e, bag fun v => n v + if stKeyEquals e v then 1 else 0)
  | a => (e, a)

/-- Take a value out of a set, or one occurrence of it out of a multiset. -/
def erase (e : Value O) : Content O → Option (Value O) × Content O
  | set S => if S e then (some e, set fun v => S v && !stKeyEquals e v) else (none, set S)
  | bag n =>
      if 0 < n e then (some e, bag fun v => n v - if stKeyEquals e v then 1 else 0)
      else (none, bag n)
  | a => (none, a)

/-- Whether a set or a multiset holds a value. -/
def mem (e : Value O) : Content O → Bool × Content O
  | set S => (S e, set S)
  | bag n => (decide (0 < n e), bag n)
  | a => (false, a)

/-- How often a multiset holds a value. -/
def count (e : Value O) : Content O → Nat × Content O
  | bag n => (n e, bag n)
  | a => (0, a)

/-- The value of a key. -/
def get (key : Value O) : Content O → Option (Value O) × Content O
  | dictionary m => (m key, dictionary m)
  | a => (none, a)

/-- Give a key a value. -/
def put (key value : Value O) : Content O → Unit × Content O
  | dictionary m => ((), dictionary fun k => if stKeyEquals key k then some value else m k)
  | a => ((), a)

/-- Take a key out. -/
def eraseKey (key : Value O) : Content O → Option (Value O) × Content O
  | dictionary m => (m key, dictionary fun k => if stKeyEquals key k then none else m k)
  | a => (none, a)

end Content

namespace Finite

/-- A behaviour of programs over finite sets, multisets and maps. -/
abbrev Spec (O : Type) := Behaviour Error (List (Content O))

/-- An operation on the collection `c` of class `cls`. -/
def call {α : Type} (cls : Class) (c : Nat) (operation : Content O → α × Content O) : Spec O α :=
  fun A out A' =>
    match A[c]? with
    | some a =>
        if a.cls = cls then out = .ok (operation a).1 ∧ A' = A.set c (operation a).2
        else out = .error (.doesNotUnderstand "") ∧ A' = A
    | none => out = .error (.doesNotUnderstand "") ∧ A' = A

/-- A question about the collection `c` of class `cls` that has several answers. -/
def observe {α : Type} (cls : Class) (c : Nat) (answers : Content O → α → Prop) : Spec O α :=
  fun A out A' => A' = A ∧
    match A[c]? with
    | some a =>
        if a.cls = cls then ∃ x, answers a x ∧ out = .ok x
        else out = .error (.doesNotUnderstand "")
    | none => out = .error (.doesNotUnderstand "")

def allocate (a : Content O) : Spec O Nat := fun A out A' => out = .ok A.length ∧ A' = A ++ [a]

def classOf (c : Nat) : Spec O Class := fun A out A' => A' = A ∧
  match A[c]? with
  | some a => out = .ok a.cls
  | none => out = .error (.doesNotUnderstand "")

/-- Any order of the elements. -/
def elements (c : Nat) : Spec O (List (Value O)) := do
  observe (← classOf c) c fun a xs => ∃ es, a.Enumerates es ∧ xs = es.map (·.2)

/-- Any order of the entries. -/
def entries (c : Nat) : Spec O (List (Value O × Value O)) :=
  observe .dictionary c fun a es => a.Enumerates es

/-! ## The sends -/

def addAssociation (c : Nat) (e : Value O) : Spec O (Value O) := do
  match e.userEquality.bind Protocol.association with
  | some (key, value) =>
      call .dictionary c (Content.put key value)
      pure e
  | none => throw (.doesNotUnderstand "key")

def add (c : Nat) (e : Value O) : Spec O (Value O) := do
  match ← classOf c with
  | .set => call .set c (Content.insert e)
  | .bag => call .bag c (Content.insert e)
  | .dictionary => addAssociation c e

def removeIfAbsent (c : Nat) (e : Value O) (aBlock : Spec O (Value O)) : Spec O (Value O) := do
  let removed ←
    match ← classOf c with
    | .set => call .set c (Content.erase e)
    | .bag => call .bag c (Content.erase e)
    | .dictionary => throw (.doesNotUnderstand "remove:ifAbsent:")
  match removed with
  | some e => pure e
  | none => aBlock

def remove (c : Nat) (e : Value O) : Spec O (Value O) := do
  match ← classOf c with
  | .set =>
      match ← call .set c (Content.erase e) with
      | some e => pure e
      | none => throw (.signal "NotFound" "Set>>remove: element not found")
  | .bag =>
      match ← call .bag c (Content.erase e) with
      | some e => pure e
      | none => throw (.signal "NotFound" "Bag>>remove: element not found")
  | .dictionary => throw (.doesNotUnderstand "remove:")

/-- A Dictionary includes the values of its keys. -/
def includes (c : Nat) (e : Value O) : Spec O Bool := do
  match ← classOf c with
  | .set => call .set c (Content.mem e)
  | .bag => call .bag c (Content.mem e)
  | .dictionary =>
      observe .dictionary c fun a found => ∃ es, a.Enumerates es ∧
        found = (es.map (·.2)).any fun v => stKeyEquals v e

def occurrencesOf (c : Nat) (e : Value O) : Spec O Nat := do
  match ← classOf c with
  | .bag => call .bag c (Content.count e)
  | cls =>
      observe cls c fun a n => ∃ es, a.Enumerates es ∧
        n = (es.map (·.2)).countP fun v => stKeyEquals v e

/-- The number of entries. -/
def size (c : Nat) : Spec O Int := do
  observe (← classOf c) c fun a n => ∃ es, a.Enumerates es ∧ n = es.length

def dictAt (c : Nat) (key : Value O) : Spec O (Value O) := do
  match ← call .dictionary c (Content.get key) with
  | some v => pure v
  | none => throw (.signal "KeyNotFound" "Dictionary>>at: key not found")

def dictAtIfAbsent (c : Nat) (key : Value O) (aBlock : Spec O (Value O)) : Spec O (Value O) := do
  match ← call .dictionary c (Content.get key) with
  | some v => pure v
  | none => aBlock

/-- The entry is put into the map that the block leaves. -/
def dictAtIfAbsentPut (c : Nat) (key : Value O) (aBlock : Spec O (Value O)) :
    Spec O (Value O) := do
  match ← call .dictionary c (Content.get key) with
  | some v => pure v
  | none =>
      let fresh ← aBlock
      call .dictionary c (Content.put key fresh)
      pure fresh

def dictAtPut (c : Nat) (key value : Value O) : Spec O (Value O) := do
  call .dictionary c (Content.put key value)
  pure value

def dictRemoveKey (c : Nat) (key : Value O) : Spec O (Value O) := do
  match ← call .dictionary c (Content.eraseKey key) with
  | some v => pure v
  | none => throw (.signal "KeyNotFound" "Dictionary>>removeKey: key not found")

def dictRemoveKeyIfAbsent (c : Nat) (key : Value O) (aBlock : Spec O (Value O)) :
    Spec O (Value O) := do
  match ← call .dictionary c (Content.eraseKey key) with
  | some v => pure v
  | none => aBlock

def dictIncludesKey (c : Nat) (key : Value O) : Spec O Bool := do
  let found ← call .dictionary c (Content.get key)
  pure found.isSome

def copy (c : Nat) : Spec O Nat := fun A out A' =>
  match A[c]? with
  | some a => allocate a A out A'
  | none => out = .error (.doesNotUnderstand "") ∧ A' = A

def visited : Source O → Spec O (List (Value O))
  | .collection c => elements c
  | .elements xs => pure xs

def dictionaryEntries : Source O → Spec O (Option (List (Value O × Value O)))
  | .collection d => do
      match ← classOf d with
      | .dictionary => do return some (← entries d)
      | _ => pure none
  | .elements _ => pure none

def dictAddAll (c : Nat) (aCollection : Source O) : Spec O Unit := do
  match ← dictionaryEntries aCollection with
  | some es =>
      let _ ← visit (β := Unit) (fun (key, value) => do
        let _ ← dictAtPut c key value
        pure none) es
  | none =>
      let xs ← visited aCollection
      let _ ← visit (β := Unit) (fun e => do
        let _ ← addAssociation c e
        pure none) xs

def addAll (c : Nat) (aCollection : Source O) : Spec O Unit := do
  match ← classOf c with
  | .dictionary => dictAddAll c aCollection
  | _ =>
      let xs ← visited aCollection
      let _ ← visit (β := Unit) (fun e => do
        let _ ← add c e
        pure none) xs

def withAll (cls : Class) (aCollection : Source O) : Spec O Nat := do
  let c ← allocate (Content.empty cls)
  addAll c aCollection
  pure c

def doEach (c : Nat) (aBlock : Value O → Spec O (Value O)) : Spec O Unit := do
  let xs ← elements c
  let _ ← visit (β := Unit) (fun e => do
    let _ ← aBlock e
    pure none) xs

def asBoolean (selector : String) : Value O → Spec O Bool
  | .boolean b => pure b
  | _ => throw (.doesNotUnderstand selector)

/-- The images of the elements; a map keeps its keys. -/
def collect (c : Nat) (aBlock : Value O → Spec O (Value O)) : Spec O Nat := do
  match ← classOf c with
  | .dictionary =>
      let out ← allocate (Content.empty .dictionary)
      let es ← entries c
      let _ ← visit (β := Unit) (fun (key, value) => do
        let mapped ← aBlock value
        let _ ← dictAtPut out key mapped
        pure none) es
      pure out
  | cls =>
      let xs ← elements c
      let out ← visit (fun e => do
        let mapped ← aBlock e
        pure (some mapped)) xs
      allocate (Content.ofElements cls out)

def dictSelect (c : Nat) (aBlock : Value O → Spec O Bool) : Spec O Nat := do
  let out ← allocate (Content.empty .dictionary)
  let es ← entries c
  let _ ← visit (β := Unit) (fun (key, value) => do
    if ← aBlock value then
      let _ ← dictAtPut out key value
    pure none) es
  pure out

/-- The elements for which the block answers true, or those for which it does not. -/
def selectReject (c : Nat) (aBlock : Value O → Spec O (Value O)) (keepWhenTrue : Bool) :
    Spec O Nat := do
  match ← classOf c with
  | .dictionary =>
      dictSelect c fun v => do
        if keepWhenTrue then
          asBoolean "ifTrue:" (← aBlock v)
        else
          let b ← asBoolean "not" (← aBlock v)
          pure !b
  | cls =>
      let xs ← elements c
      let out ← visit (fun e => do
        let keep ← aBlock e
        pure (if (keep == .boolean true) == keepWhenTrue then some e else none)) xs
      allocate (Content.ofElements cls out)

/-! ## Programs -/

def message (c : Nat) : Message O → Spec O (Value O)
  | .add e => add c e
  | .remove e => remove c e
  | .includes e => do return .boolean (← includes c e)
  | .occurrencesOf e => do return integer (← occurrencesOf c e)
  | .size => do return integer (← size c)
  | .at key => dictAt c key
  | .atPut key value => dictAtPut c key value
  | .removeKey key => dictRemoveKey c key
  | .includesKey key => do return .boolean (← dictIncludesKey c key)

def ifAbsent (c : Nat) (aBlock : Spec O (Value O)) : IfAbsent O → Spec O (Value O)
  | .remove e => removeIfAbsent c e aBlock
  | .at key => dictAtIfAbsent c key aBlock
  | .atPut key => dictAtIfAbsentPut c key aBlock
  | .removeKey key => dictRemoveKeyIfAbsent c key aBlock

def derive (c : Nat) (aBlock : Value O → Spec O (Value O)) : Derive → Spec O Nat
  | .collect => collect c aBlock
  | .select => selectReject c aBlock true
  | .reject => selectReject c aBlock false

end Finite

/-- What a program may do over finite sets, multisets and maps. -/
def Prog.spec : Prog O → Finite.Spec O (Value O)
  | answer v => pure v
  | new cls rest => do (rest (← Finite.allocate (Content.empty cls))).spec
  | withAll cls aCollection rest => do (rest (← Finite.withAll cls aCollection)).spec
  | copy c rest => do (rest (← Finite.copy c)).spec
  | addAll c aCollection rest => do
      Finite.addAll c aCollection
      rest.spec
  | send c message rest => do (rest (← Finite.message c message)).spec
  | ifAbsent c message aBlock rest => do (rest (← Finite.ifAbsent c aBlock.spec message)).spec
  | doEach c aBlock rest => do
      Finite.doEach c fun e => (aBlock e).spec
      rest.spec
  | derive c message aBlock rest => do
      (rest (← Finite.derive c (fun e => (aBlock e).spec) message)).spec

end ProtoST.Collections

import Mathlib.Data.List.Induction
import ProtoST.Collections.Sorting
import ProtoST.Lib.WeakOrders

/-!
# `SortedCollection`

An `OrderedCollection` that sorts its list after each insertion (`collection.st`).  It
inherits the protocol of `OrderedCollection`, forbids insertion at a place, and takes
everything else as it is; the methods below are the ones that a `SortedCollection`
answers, with the messages to `self` resolved there.

What elements, blocks and other collections do is a parameter: it may change the rest of
the state and it may be left by an exception.  The comparisons of a sort block are taken
to come from an order (`SortOrder`), of either convention: `[:x :y | x <= y]` holds of an
element and itself, `[:x :y | x < y]` does not, and both are sort blocks.

## Main definitions

* `Receiver`, `Op`, `perform` — a collection, the operations, and what they do.
* `Keeps` — what is asked of an operation.
* `Meets` — when an operation does that.

## Main results

* `keeps_iff` — for one operation.
* `allKeep_iff` — for every sequence of operations.
-/

namespace ProtoST.Collections.SortedCollection

open ProtoST.Lib WeakOrders Sorting

variable {α ε σ : Type}

/-! ## Collections -/

/-- What the elements answer. -/
structure Elements (α ε σ : Type) where
  /-- The send of `<=`. -/
  lessOrEqual : α → α → EStateM (Exit ε) σ (Option Bool)
  /-- `e == value`, or `partialCompare` finds them equal: numbers by value across kinds,
  strings by content. -/
  equal : α → α → Bool
  equal_refl : ∀ x, equal x x = true
  equal_symm : ∀ x y, equal x y = true → equal y x = true
  equal_trans : ∀ x y z, equal x y = true → equal y z = true → equal x z = true

/-- A sort block, `none` being `nil`, and the order it answers by when it answers. -/
structure SortOrder (E : Elements α ε σ) where
  block : Option (SortBlock α ε σ)
  precedes : α → α → Bool
  answers : ∀ x y, Answers (mayPrecede E.lessOrEqual block x y) (· = precedes x y)
  order : WeakOrder precedes

/-- The order of the elements by the block. -/
def SortOrder.le {E : Elements α ε σ} (b : SortOrder E) (x y : α) : Bool := may b.precedes x y

/-- A `SortedCollection`, and the rest of the state. -/
structure Receiver (E : Elements α ε σ) where
  /-- `__data__`. -/
  elements : List α
  /-- The instance variable `sortBlock`. -/
  sortBlock : SortOrder E
  rest : σ

/-- A method of the collection. -/
abbrev Method (E : Elements α ε σ) (β : Type) := EStateM (Exit ε) (Receiver E) β

/-- What `do:` of a collection does from some state on: the elements it evaluates the
block for, each with the state then, and how it ends. -/
structure Visits (α ε σ : Type) where
  visited : List (α × σ)
  exit : Option (Exit ε)
  rest : σ

/-- A collection given as an argument: the receiver itself, or another one. -/
inductive Argument (α ε σ : Type) where
  | receiver
  | other (visits reverseVisits : σ → Visits α ε σ)

variable {E : Elements α ε σ}

namespace Receiver

/-- The iteration over a list that was read off before. -/
def snapshot (xs : List α) (rest : σ) : Visits α ε σ :=
  ⟨xs.map fun x => (x, rest), none, rest⟩

/-- What `aCollection do:` visits. -/
def visits (s : Receiver E) : Argument α ε σ → Visits α ε σ
  | .receiver => snapshot s.elements s.rest
  | .other visits _ => visits s.rest

/-- What `aCollection reverseDo:` visits. -/
def reverseVisits (s : Receiver E) : Argument α ε σ → Visits α ε σ
  | .receiver => snapshot s.elements.reverse s.rest
  | .other _ visits => visits s.rest

/-- The elements are in the order of the sort block. -/
def Ordered (s : Receiver E) : Prop :=
  s.elements.Pairwise fun x y => s.sortBlock.le x y = true

end Receiver

/-- `aCollection do: aBlock`, and `reverseDo:`. -/
def iterate (block : α → Method E Unit) : List (α × σ) → Method E Unit
  | [] => pure ()
  | x :: xs => do
      modify fun s => { s with rest := x.2 }
      block x.1
      iterate block xs

/-- The iteration `v`, to its end. -/
def Visits.run (v : Visits α ε σ) (block : α → Method E Unit) : Method E Unit := do
  iterate block v.visited
  modify fun s => { s with rest := v.rest }
  match v.exit with
  | some e => throw e
  | none => pure ()

/-- Code that does not touch the collection. -/
def outside {β : Type} (m : EStateM (Exit ε) σ β) : Method E β := fun s =>
  match m s.rest with
  | .ok b rest => .ok b { s with rest := rest }
  | .error e rest => .error e { s with rest := rest }

/-! ## The primitives of `OrderedCollection` -/

namespace OrderedCollection

/-- `prim_OC_add`. -/
def add (x : α) : Method E α := do
  modify fun s => { s with elements := s.elements ++ [x] }
  return x

/-- `prim_OC_removeFirst`. -/
def removeFirst : Method E α := do
  match (← get).elements with
  | [] => throw (.error "OrderedCollection>>removeFirst: collection is empty")
  | x :: xs =>
      modify fun s => { s with elements := xs }
      return x

/-- `prim_OC_removeLast`. -/
def removeLast : Method E α := do
  match (← get).elements.getLast? with
  | none => throw (.error "OrderedCollection>>removeLast: collection is empty")
  | some x =>
      modify fun s => { s with elements := s.elements.dropLast }
      return x

/-- `indexOfEqual`. -/
def indexOfEqual (E : Elements α ε σ) (data : List α) (value : α) : Option Nat :=
  data.findIdx? fun e => E.equal e value

/-- `prim_OC_remove`. -/
def remove (value : α) : Method E α := do
  match indexOfEqual E (← get).elements value with
  | none => throw (.error "OrderedCollection>>remove: element not found")
  | some idx =>
      modify fun s => { s with elements := s.elements.eraseIdx idx }
      return value

/-- `prim_OC_removeIfAbsent`: what the block answers is the answer where nothing is
removed. -/
def removeIfAbsent (value : α) (block : EStateM (Exit ε) σ α) : Method E α := do
  match indexOfEqual E (← get).elements value with
  | none => outside block
  | some idx =>
      modify fun s => { s with elements := s.elements.eraseIdx idx }
      return value

/-- `prim_Seq_sort`. -/
def sort (block : Option (SortBlock α ε σ)) : Method E Unit := fun s =>
  match Sorting.sort E.lessOrEqual block ⟨some s.elements, s.rest⟩ with
  | .ok _ w => .ok () { s with elements := w.data.getD s.elements, rest := w.rest }
  | .error e w => .error e { s with elements := w.data.getD s.elements, rest := w.rest }

end OrderedCollection

/-! ## The methods -/

/-- `Object >> shouldNotImplement`. -/
def shouldNotImplement {β : Type} : Method E β :=
  throw (.error "This message is not appropriate for this object")

/-- `SortedCollection >> add:`. -/
def add (x : α) : Method E α := do
  let _ ← OrderedCollection.add x
  OrderedCollection.sort (← get).sortBlock.block
  return x

/-- `SortedCollection >> addAll:`. -/
def addAll (aCollection : Argument α ε σ) : Method E Unit := do
  ((← get).visits aCollection).run fun x => do
    let _ ← OrderedCollection.add x
  OrderedCollection.sort (← get).sortBlock.block

/-- `SortedCollection >> addFirst:`. -/
def addFirst (_ : α) : Method E α := shouldNotImplement

/-- `SortedCollection >> at:put:`. -/
def atPut (_ : Int) (_ : α) : Method E α := shouldNotImplement

/-- `SortedCollection >> addLast:`. -/
def addLast (_ : α) : Method E α := shouldNotImplement

/-- `SortedCollection >> add:beforeIndex:`. -/
def addBeforeIndex (_ : α) (_ : Int) : Method E α := shouldNotImplement

/-- `OrderedCollection >> add:afterIndex:`. -/
def addAfterIndex (x : α) (anIndex : Int) : Method E α := addBeforeIndex x (anIndex + 1)

/-- `OrderedCollection >> addAllFirst:`. -/
def addAllFirst (aCollection : Argument α ε σ) : Method E Unit := do
  ((← get).reverseVisits aCollection).run fun x => do
    let _ ← addFirst x

/-- `OrderedCollection >> addAllLast:`. -/
def addAllLast (aCollection : Argument α ε σ) : Method E Unit := do
  ((← get).visits aCollection).run fun x => do
    let _ ← addLast x

/-- `[self size > anIndex] whileTrue: [tail addFirst: self removeLast]`, for at most `n`
turns. -/
def popTail (anIndex : Int) : Nat → List α → Method E (List α)
  | 0, tail => pure tail
  | n + 1, tail => do
      if ((← get).elements.length : Int) > anIndex then
        let x ← OrderedCollection.removeLast
        popTail anIndex n (x :: tail)
      else pure tail

/-- `tail do: [:each | self addLast: each]`. -/
def addAllAtEnd : List α → Method E Unit
  | [] => pure ()
  | x :: tail => do
      let _ ← addLast x
      addAllAtEnd tail

/-- `OrderedCollection >> removeAt:`. -/
def removeAt (anIndex : Int) : Method E α := do
  let size := (← get).elements.length
  if 1 ≤ anIndex ∧ anIndex ≤ size then
    let tail ← popTail anIndex size []
    let removed ← OrderedCollection.removeLast
    addAllAtEnd tail
    return removed
  else throw (.error s!"index {anIndex} out of bounds 1..{size}")

/-- `n` times `self removeFirst`. -/
def popFirst : Nat → Method E (List α)
  | 0 => pure []
  | n + 1 => do
      let x ← OrderedCollection.removeFirst
      return x :: (← popFirst n)

/-- `OrderedCollection >> removeFirst:`. -/
def removeFirstN (n : Int) : Method E (List α) := do
  let size := (← get).elements.length
  if n > size then
    throw (.error s!"removeFirst: {n} but the collection has only {size} elements")
  else if n < 0 then throw (.error "Array new: negative size")
  else popFirst n.toNat

/-- `n` times `self removeLast`; the answers fill an array from its end. -/
def popLast : Nat → List α → Method E (List α)
  | 0, answer => pure answer
  | n + 1, answer => do
      let x ← OrderedCollection.removeLast
      popLast n (x :: answer)

/-- `OrderedCollection >> removeLast:`. -/
def removeLastN (n : Int) : Method E (List α) := do
  let size := (← get).elements.length
  if n > size then
    throw (.error s!"removeLast: {n} but the collection has only {size} elements")
  else if n < 0 then throw (.error "Array new: negative size")
  else popLast n.toNat []

/-- `self remove: each`. -/
def removeEach (x : α) : Method E Unit := do
  let _ ← OrderedCollection.remove x

/-- `Collection >> removeAll:`. -/
def removeAll (aCollection : Argument α ε σ) : Method E Unit := do
  ((← get).visits aCollection).run removeEach

/-- `Collection >> removeAll`. -/
def removeAllElements : Method E Unit := do
  let s ← get
  (Receiver.snapshot s.elements s.rest).run removeEach

/-- `self select: aBlock`. -/
def select (aBlock : α → EStateM (Exit ε) σ Bool) : List α → EStateM (Exit ε) σ (List α)
  | [] => pure []
  | x :: xs => do
      let keep ← aBlock x
      let kept ← select aBlock xs
      return if keep then x :: kept else kept

/-- `Collection >> removeAllSuchThat:`. -/
def removeAllSuchThat (aBlock : α → EStateM (Exit ε) σ Bool) : Method E Unit := do
  let selected ← outside (select aBlock (← get).elements)
  (Receiver.snapshot selected (← get).rest).run removeEach

/-- `SortedCollection >> setSortBlock:`. -/
def setSortBlock (aBlock : SortOrder E) : Method E Unit :=
  modify fun s => { s with sortBlock := aBlock }

/-- An operation that a `SortedCollection` answers. -/
inductive Op (E : Elements α ε σ) where
  | add (x : α)
  | addAll (aCollection : Argument α ε σ)
  | addFirst (x : α)
  | addLast (x : α)
  | atPut (index : Int) (x : α)
  | addBeforeIndex (x : α) (index : Int)
  | addAfterIndex (x : α) (index : Int)
  | addAllFirst (aCollection : Argument α ε σ)
  | addAllLast (aCollection : Argument α ε σ)
  | remove (x : α)
  | removeIfAbsent (x : α) (aBlock : EStateM (Exit ε) σ α)
  | removeFirst
  | removeLast
  | removeAt (index : Int)
  | removeFirstN (n : Int)
  | removeLastN (n : Int)
  | removeAll (aCollection : Argument α ε σ)
  | removeAllElements
  | removeAllSuchThat (aBlock : α → EStateM (Exit ε) σ Bool)
  /-- `sort:`, and `sort` with no block. -/
  | sort (aBlock : SortOrder E)
  | setSortBlock (aBlock : SortOrder E)
  /-- The sequence goes on with the copy, which has the list and the block of the
  receiver. -/
  | copy

/-- What an operation does. -/
def perform : Op E → Method E Unit
  | .add x => discard (add x)
  | .addAll aCollection => addAll aCollection
  | .addFirst x => discard (addFirst x)
  | .addLast x => discard (addLast x)
  | .atPut index x => discard (atPut index x)
  | .addBeforeIndex x index => discard (addBeforeIndex x index)
  | .addAfterIndex x index => discard (addAfterIndex x index)
  | .addAllFirst aCollection => addAllFirst aCollection
  | .addAllLast aCollection => addAllLast aCollection
  | .remove x => discard (OrderedCollection.remove x)
  | .removeIfAbsent x aBlock => discard (OrderedCollection.removeIfAbsent x aBlock)
  | .removeFirst => discard OrderedCollection.removeFirst
  | .removeLast => discard OrderedCollection.removeLast
  | .removeAt index => discard (removeAt index)
  | .removeFirstN n => discard (removeFirstN n)
  | .removeLastN n => discard (removeLastN n)
  | .removeAll aCollection => removeAll aCollection
  | .removeAllElements => removeAllElements
  | .removeAllSuchThat aBlock => removeAllSuchThat aBlock
  | .sort aBlock => OrderedCollection.sort aBlock.block
  | .setSortBlock aBlock => setSortBlock aBlock
  | .copy => pure ()

/-! ## What is asked -/

/-- What a completed operation adds to a collection and takes from it. -/
def Op.Changes : Op E → Receiver E → List α → List α → Prop
  | .add x, _, added, removed | .addFirst x, _, added, removed
  | .addLast x, _, added, removed | .addBeforeIndex x _, _, added, removed
  | .addAfterIndex x _, _, added, removed => added = [x] ∧ removed = []
  | .addAll aCollection, s, added, removed | .addAllLast aCollection, s, added, removed =>
      added = (s.visits aCollection).visited.map Prod.fst ∧ removed = []
  | .addAllFirst aCollection, s, added, removed =>
      added = (s.reverseVisits aCollection).visited.map Prod.fst ∧ removed = []
  | .atPut index x, s, added, removed =>
      added = [x] ∧ removed = (s.elements.drop (index.toNat - 1)).take 1
  | .remove x, _, added, removed => added = [] ∧ ∃ y, E.equal y x = true ∧ removed = [y]
  | .removeIfAbsent x _, s, added, removed =>
      added = [] ∧ ((∃ y, E.equal y x = true ∧ removed = [y]) ∨
        (∀ y ∈ s.elements, E.equal y x = false) ∧ removed = [])
  | .removeFirst, s, added, removed => added = [] ∧ removed = s.elements.take 1
  | .removeLast, s, added, removed =>
      added = [] ∧ removed = s.elements.drop (s.elements.length - 1)
  | .removeAt index, s, added, removed =>
      added = [] ∧ removed = (s.elements.drop (index.toNat - 1)).take 1
  | .removeFirstN n, s, added, removed => added = [] ∧ removed = s.elements.take n.toNat
  | .removeLastN n, s, added, removed =>
      added = [] ∧ removed = s.elements.drop (s.elements.length - n.toNat)
  | .removeAll aCollection, s, added, removed =>
      added = [] ∧ List.Forall₂ (fun y x => E.equal y x = true) removed
        ((s.visits aCollection).visited.map Prod.fst)
  | .removeAllElements, s, added, removed => added = [] ∧ removed = s.elements
  | .removeAllSuchThat aBlock, s, added, removed =>
      added = [] ∧ ∃ rest, select aBlock s.elements s.rest = .ok removed rest
  | .sort _, _, added, removed | .setSortBlock _, _, added, removed
  | .copy, _, added, removed => added = [] ∧ removed = []

/-- The sort block after an operation. -/
def Op.sortBlock : Op E → Receiver E → SortOrder E
  | .setSortBlock aBlock, _ => aBlock
  | _, s => s.sortBlock

/-- What is asked of an operation: completed, it leaves the elements in order, and they
are those before plus what was added minus what was removed; left by an exception, it
changed nothing. -/
def Keeps (op : Op E) (s : Receiver E) : Prop :=
  match perform op s with
  | .ok _ s' =>
      s'.Ordered ∧ s'.sortBlock = op.sortBlock s ∧
        ∃ added removed, op.Changes s added removed ∧
          (s'.elements ++ removed).Perm (s.elements ++ added)
  | .error _ s' => s'.elements = s.elements ∧ s'.sortBlock = s.sortBlock

/-! ## When an operation does it -/

/-- No comparison of the sort is left by an exception. -/
def SortOrder.Completes (b : SortOrder E) (xs : List α) (rest : σ) : Prop :=
  ∃ w, Sorting.sort E.lessOrEqual b.block ⟨some xs, rest⟩ = .ok () w

/-- What is left after the elements equal to `values` are removed one by one; `none`
when one is not found. -/
def removeValues (E : Elements α ε σ) (xs : List α) : List α → Option (List α)
  | [] => some xs
  | value :: values =>
      match OrderedCollection.indexOfEqual E xs value with
      | none => none
      | some idx => removeValues E (xs.eraseIdx idx) values

/-- The elements of the list that are equal to one of them. -/
def group (E : Elements α ε σ) (x : α) (xs : List α) : List α := xs.filter (E.equal · x)

/-- When an operation does what is asked of it. -/
def Meets : Op E → Receiver E → Prop
  | .add x, s => s.sortBlock.Completes (s.elements ++ [x]) s.rest
  | .addAll aCollection, s =>
      let v := s.visits aCollection
      v.visited = [] ∨
        v.exit = none ∧ s.sortBlock.Completes (s.elements ++ v.visited.map Prod.fst) v.rest
  | .removeAt index, s => ¬ (1 ≤ index ∧ index < s.elements.length)
  | .removeAll aCollection, s =>
      let v := s.visits aCollection
      (∀ x ∈ v.visited.head?, OrderedCollection.indexOfEqual E s.elements x.1 = none) ∨
        v.exit = none ∧ (removeValues E s.elements (v.visited.map Prod.fst)).isSome
  | .removeAllSuchThat aBlock, s =>
      ∀ selected rest, select aBlock s.elements s.rest = .ok selected rest →
        ∀ x ∈ selected, ((group E x s.elements).take (group E x selected).length).Perm
          (group E x selected)
  | .sort aBlock, s =>
      ¬ aBlock.Completes s.elements s.rest ∨
        ∀ x ∈ s.elements, ∀ y ∈ s.elements, aBlock.precedes y x = false → s.sortBlock.le x y
  | .setSortBlock aBlock, s => s.elements.Pairwise fun x y => aBlock.le x y = true
  | _, _ => True

/-! ## The primitives -/

section Primitives

variable {s s' : Receiver E} {xs ys : List α} {x y : α}

@[simp] theorem add_run (x : α) (s : Receiver E) :
    OrderedCollection.add x s = .ok x { s with elements := s.elements ++ [x] } := rfl

theorem removeFirst_run (s : Receiver E) :
    OrderedCollection.removeFirst s =
      match s.elements with
      | [] => .error (.error "OrderedCollection>>removeFirst: collection is empty") s
      | x :: xs => .ok x { s with elements := xs } := by
  obtain ⟨xs, b, rest⟩ := s
  cases xs <;> rfl

/-- A method that reads the collection first. -/
theorem get_run {β : Type} (f : Receiver E → Method E β) (s : Receiver E) :
    ((do f (← get)) : Method E β) s = f s s := rfl

theorem removeLast_run (hs : s.elements = xs ++ [x]) :
    OrderedCollection.removeLast s = .ok x { s with elements := xs } := by
  have hlast : s.elements.getLast? = some x := by rw [hs, List.getLast?_concat]
  have hdrop : s.elements.dropLast = xs := by rw [hs, List.dropLast_concat]
  refine (get_run _ s).trans ?_
  rw [hlast, ← hdrop]
  rfl

theorem indexOfEqual_eq_some {idx : Nat}
    (h : OrderedCollection.indexOfEqual E xs x = some idx) :
    ∃ front y back, xs = front ++ y :: back ∧ xs.eraseIdx idx = front ++ back ∧
      E.equal y x = true ∧ ∀ z ∈ front, E.equal z x = false := by
  obtain ⟨hidx, hequal, hfirst⟩ := List.findIdx?_eq_some_iff_getElem.mp h
  refine ⟨xs.take idx, xs[idx], xs.drop (idx + 1), ?_, List.eraseIdx_eq_take_drop_succ xs idx,
    hequal, fun z hz => ?_⟩
  · rw [← List.drop_eq_getElem_cons hidx, List.take_append_drop]
  · obtain ⟨i, hi, rfl⟩ := List.mem_take_iff_getElem.mp hz
    have hlt : i < idx := by omega
    exact Bool.eq_false_iff.mpr (hfirst i hlt)

theorem indexOfEqual_eq_none (h : OrderedCollection.indexOfEqual E xs x = none) :
    ∀ y ∈ xs, E.equal y x = false := by
  intro y hy
  exact List.findIdx?_eq_none_iff.mp h y hy

theorem remove_run (x : α) (s : Receiver E) :
    OrderedCollection.remove x s =
      match OrderedCollection.indexOfEqual E s.elements x with
      | none => .error (.error "OrderedCollection>>remove: element not found") s
      | some idx => .ok x { s with elements := s.elements.eraseIdx idx } := by
  refine (get_run _ s).trans ?_
  cases OrderedCollection.indexOfEqual E s.elements x <;> rfl

/-- The two ways a sort of the collection goes. -/
theorem sort_cases (b : SortOrder E) (s : Receiver E) :
    (b.Completes s.elements s.rest ∧ ∃ rest, OrderedCollection.sort b.block s =
        .ok () { s with elements := s.elements.mergeSort b.precedes, rest := rest }) ∨
      (¬ b.Completes s.elements s.rest ∧ ∃ e rest, OrderedCollection.sort b.block s =
        .error e { s with rest := rest }) := by
  cases hsort : Sorting.sort E.lessOrEqual b.block ⟨some s.elements, s.rest⟩ with
  | ok u w =>
    have hdata := sort_spec (fun x _ y _ => b.answers x y) rfl hsort
    refine .inl ⟨⟨w, hsort⟩, w.rest, ?_⟩
    simp only [OrderedCollection.sort, hsort, hdata, Option.getD_some]
  | error e w =>
    have hdata := sort_error hsort
    refine .inr ⟨?_, e, w.rest, ?_⟩
    · rintro ⟨w', hw'⟩
      rw [hsort] at hw'
      cases hw'
    · simp only [OrderedCollection.sort, hsort, hdata, Option.getD_some]

end Primitives

/-! ## Iterations -/

section Iterations

variable {s s' : Receiver E} {v : Visits α ε σ} {block : α → Method E Unit} {xs ys : List α}

theorem visits_run_of_ok (h : iterate block v.visited s = .ok () s') :
    v.run block s =
      match v.exit with
      | some e => .error e { s' with rest := v.rest }
      | none => .ok () { s' with rest := v.rest } := by
  refine (bind_of_ok h).trans ((bind_of_ok rfl).trans ?_)
  cases v.exit <;> rfl

theorem visits_run_of_error {e : Exit ε} (h : iterate block v.visited s = .error e s') :
    v.run block s = .error e s' :=
  bind_of_error h

/-- `super add: each`, for each. -/
theorem iterate_add (zs : List (α × σ)) : ∀ s : Receiver E, ∃ rest,
    iterate (fun x => do let _ ← OrderedCollection.add x) zs s =
      .ok () { s with elements := s.elements ++ zs.map Prod.fst, rest := rest } := by
  induction zs with
  | nil =>
    intro s
    exact ⟨s.rest, by simp [iterate, pure, EStateM.pure]⟩
  | cons z zs ih =>
    intro s
    obtain ⟨rest, hrest⟩ := ih { s with elements := s.elements ++ [z.1], rest := z.2 }
    refine ⟨rest, (bind_of_ok rfl).trans ((bind_of_ok (bind_of_ok rfl)).trans ?_)⟩
    rw [hrest]
    simp

/-- An element for which the block is left. -/
theorem iterate_error {e : Exit ε} {z : α × σ} {zs : List (α × σ)}
    (h : block z.1 { s with rest := z.2 } = .error e s') :
    iterate block (z :: zs) s = .error e s' :=
  (bind_of_ok rfl).trans (bind_of_error h)

/-- `self remove: each`, for each. -/
theorem iterate_removeEach (zs : List (α × σ)) : ∀ s : Receiver E,
    match removeValues E s.elements (zs.map Prod.fst) with
    | some ys => ∃ rest, iterate removeEach zs s =
        .ok () { s with elements := ys, rest := rest }
    | none => ∃ e ys rest, iterate removeEach zs s =
        .error e { s with elements := ys, rest := rest } ∧ ys.length ≤ s.elements.length ∧
          (ys = s.elements ↔
            ∀ z ∈ zs.head?, OrderedCollection.indexOfEqual E s.elements z.1 = none) := by
  induction zs with
  | nil =>
    intro s
    exact ⟨s.rest, rfl⟩
  | cons z zs ih =>
    intro s
    simp only [List.map_cons, removeValues]
    have hremove := remove_run z.1 { s with rest := z.2 }
    dsimp only at hremove
    cases hidx : OrderedCollection.indexOfEqual E s.elements z.1 with
    | none =>
      rw [hidx] at hremove
      exact ⟨_, s.elements, z.2, iterate_error (bind_of_error hremove), Nat.le_refl _,
        fun _ z' hz => by cases hz; exact hidx, fun _ => rfl⟩
    | some idx =>
      rw [hidx] at hremove
      have hstep : iterate removeEach (z :: zs) s =
          iterate removeEach zs { s with elements := s.elements.eraseIdx idx, rest := z.2 } :=
        (bind_of_ok rfl).trans (bind_of_ok (bind_of_ok hremove))
      obtain ⟨front, y, back, hxs, herase, -, -⟩ := indexOfEqual_eq_some hidx
      have hlt : (s.elements.eraseIdx idx).length < s.elements.length := by
        rw [herase, hxs]
        simp
      have hrec := ih { s with elements := s.elements.eraseIdx idx, rest := z.2 }
      dsimp only at hrec ⊢
      rw [hstep]
      split at hrec
      · exact hrec
      · obtain ⟨e, ys, rest, hrun, hle, -⟩ := hrec
        refine ⟨e, ys, rest, hrun, by omega, ?_⟩
        constructor
        · intro heq
          rw [heq] at hle
          omega
        · intro hnone
          have hcontra := hnone z rfl
          rw [hidx] at hcontra
          cases hcontra

theorem group_append (x : α) (xs ys : List α) :
    group E x (xs ++ ys) = group E x xs ++ group E x ys :=
  List.filter_append xs ys

theorem group_cons_of_equal {x y : α} (h : E.equal y x = true) (xs : List α) :
    group E x (y :: xs) = y :: group E x xs :=
  List.filter_cons_of_pos h

theorem group_cons_of_not_equal {x y : α} (h : E.equal y x = false) (xs : List α) :
    group E x (y :: xs) = group E x xs :=
  List.filter_cons_of_neg (Bool.eq_false_iff.mp h)

/-- The first element equal to a value is the first of its group, and in no other one. -/
theorem group_of_first {front : List α} {y value : α} (hequal : E.equal y value = true)
    (hfront : ∀ z ∈ front, E.equal z value = false) (back : List α) (x : α) :
    (E.equal y x = true ∧ E.equal value x = true ∧
        group E x (front ++ y :: back) = y :: group E x (front ++ back)) ∨
      E.equal y x = false ∧ E.equal value x = false ∧
        group E x (front ++ y :: back) = group E x (front ++ back) := by
  have hback := E.equal_symm y value hequal
  rw [group_append, group_append]
  cases hyx : E.equal y x with
  | true =>
    have hempty : group E x front = [] := by
      refine List.filter_eq_nil_iff.mpr fun z hz hzx => ?_
      have hzy := E.equal_trans z x y hzx (E.equal_symm y x hyx)
      have hcontra := hfront z hz
      rw [E.equal_trans z y value hzy hequal] at hcontra
      cases hcontra
    rw [group_cons_of_equal hyx, hempty]
    exact .inl ⟨rfl, E.equal_trans value y x hback hyx, rfl⟩
  | false =>
    rw [group_cons_of_not_equal hyx]
    refine .inr ⟨rfl, Bool.eq_false_iff.mpr fun hvalue => ?_, rfl⟩
    rw [E.equal_trans y value x hequal hvalue] at hyx
    cases hyx

/-- What is taken away is equal to the values, the first ones of each group, and the rest
keeps its order. -/
theorem removeValues_spec {values : List α} (h : removeValues E xs values = some ys) :
    ys.Sublist xs ∧ ∃ removed,
      List.Forall₂ (fun y x => E.equal y x = true) removed values ∧
        (ys ++ removed).Perm xs ∧
        ∀ x, group E x removed = (group E x xs).take (group E x values).length := by
  induction values generalizing xs with
  | nil =>
    cases h
    exact ⟨.refl _, [], .nil, by rw [List.append_nil], fun _ => rfl⟩
  | cons value values ih =>
    unfold removeValues at h
    split at h
    · cases h
    · rename_i idx hidx
      obtain ⟨front, y, back, rfl, herase, hequal, hfront⟩ := indexOfEqual_eq_some hidx
      rw [herase] at h
      obtain ⟨hsub, removed, hremoved, hperm, hgroups⟩ := ih h
      refine ⟨hsub.trans ((List.Sublist.refl front).append (List.sublist_cons_self y back)),
        y :: removed, .cons hequal hremoved, ?_, fun x => ?_⟩
      · have hcons : (y :: (ys ++ removed)).Perm (y :: (front ++ back)) := hperm.cons y
        exact List.perm_middle.trans (hcons.trans List.perm_middle.symm)
      · rcases group_of_first hequal hfront back x with
          ⟨hyx, hvalue, hfirst⟩ | ⟨hyx, hvalue, hother⟩
        · rw [group_cons_of_equal hyx, group_cons_of_equal hvalue, hfirst, hgroups x]
          rfl
        · rw [group_cons_of_not_equal hyx, group_cons_of_not_equal hvalue, hother, hgroups x]

theorem exists_equal_of_mem {xs ys : List α}
    (h : List.Forall₂ (fun x y => E.equal x y = true) xs ys) {x : α} (hx : x ∈ xs) :
    ∃ y ∈ ys, E.equal x y = true := by
  induction h with
  | nil => cases hx
  | cons hequal _ ih =>
    rcases List.mem_cons.mp hx with rfl | hx
    · exact ⟨_, List.mem_cons_self, hequal⟩
    · obtain ⟨y, hy, hxy⟩ := ih hx
      exact ⟨y, List.mem_cons_of_mem _ hy, hxy⟩

/-- Values and what is taken away for them are compared group by group. -/
theorem perm_iff_groups {xs ys : List α}
    (hxs : List.Forall₂ (fun x y => E.equal x y = true) xs ys) :
    xs.Perm ys ↔ ∀ y ∈ ys, (group E y xs).Perm (group E y ys) := by
  classical
  refine ⟨fun hperm y _ => hperm.filter _, fun hgroups => ?_⟩
  have hcount (zs : List α) {y z : α} (hzy : E.equal z y = true) :
      (group E y zs).count z = zs.count z := List.count_filter hzy
  refine List.perm_iff_count.mpr fun z => ?_
  by_cases hz : ∃ y ∈ ys, E.equal z y = true
  · obtain ⟨y, hy, hzy⟩ := hz
    rw [← hcount xs hzy, ← hcount ys hzy, (hgroups y hy).count_eq]
  · have hnot : z ∉ ys := fun hmem => hz ⟨z, hmem, E.equal_refl z⟩
    have hnot' : z ∉ xs := fun hmem => hz (exists_equal_of_mem hxs hmem)
    rw [List.count_eq_zero.mpr hnot, List.count_eq_zero.mpr hnot']

/-- The head of a part of the list, after elements that are not it. -/
theorem sublist_of_not_mem {front back : List α} {x : α} (hx : x ∉ front)
    (h : (x :: ys).Sublist (front ++ back)) : (x :: ys).Sublist back := by
  induction front with
  | nil => exact h
  | cons z front ih =>
    rcases List.cons_sublist_cons'.mp h with h | ⟨rfl, -⟩
    · exact ih (fun hmem => hx (List.mem_cons_of_mem _ hmem)) h
    · exact absurd List.mem_cons_self hx

/-- Elements of the collection are all found, whatever equal ones are removed for them. -/
theorem removeValues_isSome {values : List α} (h : values.Sublist xs) :
    (removeValues E xs values).isSome := by
  induction values generalizing xs with
  | nil => rfl
  | cons value values ih =>
    unfold removeValues
    cases hidx : OrderedCollection.indexOfEqual E xs value with
    | none =>
      have hequal := indexOfEqual_eq_none hidx value (h.subset List.mem_cons_self)
      rw [E.equal_refl] at hequal
      cases hequal
    | some idx =>
      obtain ⟨front, y, back, rfl, herase, -, hfront⟩ := indexOfEqual_eq_some hidx
      have hmem : value ∉ front := by
        intro hmem
        have hequal := hfront value hmem
        rw [E.equal_refl] at hequal
        cases hequal
      dsimp only
      rw [herase]
      have hback : values.Sublist back := by
        rcases List.cons_sublist_cons'.mp (sublist_of_not_mem hmem h) with hsub | ⟨-, hsub⟩
        · exact (List.sublist_cons_self _ _).trans hsub
        · exact hsub
      exact ih (hback.trans (List.sublist_append_right front back))

/-- Each element in turn is the first that is equal to itself. -/
theorem removeValues_self (xs : List α) : removeValues E xs xs = some [] := by
  induction xs with
  | nil => rfl
  | cons x xs ih =>
    have hidx : OrderedCollection.indexOfEqual E (x :: xs) x = some 0 := by
      simp [OrderedCollection.indexOfEqual, List.findIdx?_cons, E.equal_refl]
    simp only [removeValues, hidx, List.eraseIdx_cons_zero, ih]

end Iterations

/-! ## Loops of the methods -/

section Loops

variable {s : Receiver E} {xs : List α}

/-- The elements after an index are moved to `tail`. -/
theorem popTail_run (xs back : List α) : ∀ (n : Nat) (tail : List α) (s : Receiver E),
    s.elements = xs ++ back → back.length ≤ n →
      popTail xs.length n tail s = .ok (back ++ tail) { s with elements := xs } := by
  induction back using List.reverseRecOn with
  | nil =>
    intro n tail s hs _
    rw [List.append_nil] at hs
    have hdone : ¬ ((s.elements.length : Int) > xs.length) := by
      rw [hs]
      omega
    cases n with
    | zero => rw [← hs]; rfl
    | succ n =>
      refine (get_run _ s).trans ?_
      rw [if_neg hdone, ← hs]
      rfl
  | append_singleton back y ih =>
    intro n tail s hs hn
    rw [List.length_append, List.length_singleton] at hn
    obtain ⟨n, rfl⟩ : ∃ m, n = m + 1 := ⟨n - 1, by omega⟩
    have hmore : (s.elements.length : Int) > xs.length := by
      rw [hs]
      simp only [List.length_append, List.length_singleton]
      omega
    rw [← List.append_assoc] at hs
    refine (get_run _ s).trans ?_
    rw [if_pos hmore]
    refine (bind_of_ok (removeLast_run hs)).trans ?_
    rw [ih n (y :: tail) { s with elements := xs ++ back } rfl (by omega), List.append_assoc,
      List.singleton_append]

theorem popFirst_run (front back : List α) : ∀ s : Receiver E, s.elements = front ++ back →
    popFirst front.length s = .ok front { s with elements := back } := by
  induction front with
  | nil =>
    intro s hs
    rw [← show s.elements = back from hs]
    rfl
  | cons x front ih =>
    intro s hs
    have hfirst : OrderedCollection.removeFirst s = .ok x { s with elements := front ++ back } := by
      rw [removeFirst_run, hs]
      rfl
    refine (bind_of_ok hfirst).trans ((bind_of_ok (ih _ rfl)).trans ?_)
    rfl

theorem popLast_run (xs back : List α) : ∀ (answer : List α) (s : Receiver E),
    s.elements = xs ++ back →
      popLast back.length answer s = .ok (back ++ answer) { s with elements := xs } := by
  induction back using List.reverseRecOn with
  | nil =>
    intro answer s hs
    rw [List.append_nil] at hs
    rw [← hs]
    rfl
  | append_singleton back y ih =>
    intro answer s hs
    rw [List.length_append, List.length_singleton]
    rw [← List.append_assoc] at hs
    refine (bind_of_ok (removeLast_run hs)).trans ?_
    rw [ih (y :: answer) { s with elements := xs ++ back } rfl, List.append_assoc,
      List.singleton_append]

theorem removeAt_out (index : Int) (h : ¬ (1 ≤ index ∧ index ≤ s.elements.length)) :
    ∃ e, removeAt index s = .error e s := by
  exact ⟨_, (get_run _ s).trans (congrFun (if_neg h) s)⟩

/-- The last element goes. -/
theorem removeAt_last {x : α} (hs : s.elements = xs ++ [x]) :
    removeAt s.elements.length s = .ok x { s with elements := xs } := by
  have hin : 1 ≤ (s.elements.length : Int) ∧ (s.elements.length : Int) ≤ s.elements.length := by
    rw [hs, List.length_append, List.length_singleton]
    omega
  refine (get_run _ s).trans ?_
  rw [if_pos hin]
  refine (bind_of_ok (popTail_run s.elements [] _ [] s (by simp) (Nat.zero_le _))).trans ?_
  exact (bind_of_ok (removeLast_run hs)).trans rfl

/-- Any other element goes with all that come after it. -/
theorem removeAt_inner {x y : α} {back : List α} (hs : s.elements = xs ++ x :: y :: back) :
    ∃ e, removeAt (xs.length + 1) s = .error e { s with elements := xs } := by
  have hin : 1 ≤ ((xs.length : Int) + 1) ∧ ((xs.length : Int) + 1) ≤ s.elements.length := by
    rw [hs]
    simp only [List.length_append, List.length_cons]
    omega
  have hsplit : s.elements = (xs ++ [x]) ++ (y :: back) := by
    rw [hs, List.append_assoc, List.singleton_append]
  have hpop := popTail_run (xs ++ [x]) (y :: back) s.elements.length [] s hsplit (by
    rw [hsplit, List.length_append]
    omega)
  have hlength : ((xs ++ [x]).length : Int) = xs.length + 1 := by simp
  rw [hlength] at hpop
  exact ⟨_, (get_run _ s).trans ((congrFun (if_pos hin) s).trans ((bind_of_ok hpop).trans
    ((bind_of_ok (removeLast_run rfl)).trans (bind_of_error (bind_of_error rfl)))))⟩

end Loops

/-! ## One operation -/

section One

variable {s s' : Receiver E} {op : Op E} {xs ys : List α}

theorem discard_ok {β : Type} {m : Method E β} {b : β} (h : m s = .ok b s') :
    (discard m : Method E Unit) s = .ok () s' := by
  change EStateM.map _ m s = _
  rw [EStateM.map, h]

theorem discard_error {β : Type} {m : Method E β} {e : Exit ε} (h : m s = .error e s') :
    (discard m : Method E Unit) s = .error e s' := by
  change EStateM.map _ m s = _
  rw [EStateM.map, h]

theorem keeps_of_ok (op : Op E) {u : Unit} (h : perform op s = .ok u s') :
    Keeps op s ↔ s'.Ordered ∧ s'.sortBlock = op.sortBlock s ∧
      ∃ added removed, op.Changes s added removed ∧
        (s'.elements ++ removed).Perm (s.elements ++ added) := by
  rw [Keeps, h]

theorem keeps_of_error (op : Op E) {e : Exit ε} (h : perform op s = .error e s') :
    Keeps op s ↔ s'.elements = s.elements ∧ s'.sortBlock = s.sortBlock := by
  rw [Keeps, h]

/-- Nothing happens. -/
theorem keeps_of_unchanged (rest : σ) {e : Exit ε}
    (h : perform op s = .error e { s with rest := rest }) : Keeps op s :=
  (keeps_of_error _ h).mpr ⟨rfl, rfl⟩

/-- Elements are removed. -/
theorem keeps_of_removed (rest : σ) (removed : List α) (hs : s.Ordered)
    (h : perform op s = .ok () { s with elements := ys, rest := rest })
    (hblock : op.sortBlock s = s.sortBlock) (hsub : ys.Sublist s.elements)
    (hchanges : op.Changes s [] removed) (hperm : (ys ++ removed).Perm s.elements) :
    Keeps op s := by
  refine (keeps_of_ok _ h).mpr ⟨hs.sublist hsub, hblock.symm, [], removed, hchanges, ?_⟩
  rw [List.append_nil]
  exact hperm

theorem SortOrder.pairwise_mergeSort (b : SortOrder E) (xs : List α) :
    (xs.mergeSort b.precedes).Pairwise fun x y => b.le x y = true :=
  b.order.pairwise_mergeSort xs

/-- The elements were stored before they are put in order. -/
theorem keeps_iff_of_sort (added : List α) (rest : σ)
    (hrun : perform op s =
      OrderedCollection.sort s.sortBlock.block
        { s with elements := s.elements ++ added, rest := rest })
    (hblock : op.sortBlock s = s.sortBlock) (hchanges : op.Changes s added [])
    (hadded : added ≠ []) :
    Keeps op s ↔ s.sortBlock.Completes (s.elements ++ added) rest := by
  rcases sort_cases s.sortBlock { s with elements := s.elements ++ added, rest := rest } with
    ⟨hcompletes, rest', hsort⟩ | ⟨hleft, e, rest', hsort⟩
  · refine iff_of_true ((keeps_of_ok _ (hrun.trans hsort)).mpr ⟨?_, hblock.symm, added, [],
      hchanges, ?_⟩) hcompletes
    · exact s.sortBlock.pairwise_mergeSort _
    · rw [List.append_nil]
      exact List.mergeSort_perm _ _
  · refine iff_of_false (fun hkeeps => ?_) hleft
    have hsame := ((keeps_of_error _ (hrun.trans hsort)).mp hkeeps).1
    exact hadded (List.append_right_eq_self.mp hsame)

theorem add_keeps (x : α) : Keeps (.add x) s ↔ Meets (.add x) s := by
  have hrun : perform (.add x) s =
      OrderedCollection.sort s.sortBlock.block { s with elements := s.elements ++ [x] } := by
    cases hsort : OrderedCollection.sort s.sortBlock.block
        { s with elements := s.elements ++ [x] } with
    | ok u s' =>
      have hadd : add x s = .ok x s' :=
        (bind_of_ok (add_run x s)).trans ((get_run _ _).trans (bind_of_ok hsort))
      exact discard_ok hadd
    | error e s' =>
      have hadd : add x s = .error e s' :=
        (bind_of_ok (add_run x s)).trans ((get_run _ _).trans (bind_of_error hsort))
      exact discard_error hadd
  exact keeps_iff_of_sort [x] s.rest hrun rfl ⟨rfl, rfl⟩
    (List.cons_ne_nil x [])

/-- Sorting what is in order. -/
theorem keeps_of_resort (rest : σ) (hrun : perform op s =
      OrderedCollection.sort s.sortBlock.block { s with rest := rest })
    (hblock : op.sortBlock s = s.sortBlock) (hchanges : op.Changes s [] []) : Keeps op s := by
  rcases sort_cases s.sortBlock { s with rest := rest } with
    ⟨-, rest', hsort⟩ | ⟨-, e, rest', hsort⟩
  · refine (keeps_of_ok _ (hrun.trans hsort)).mpr ⟨s.sortBlock.pairwise_mergeSort _, hblock.symm,
      [], [], hchanges, ?_⟩
    rw [List.append_nil, List.append_nil]
    exact List.mergeSort_perm _ _
  · exact (keeps_of_error _ (hrun.trans hsort)).mpr ⟨rfl, rfl⟩

theorem addAll_keeps (aCollection : Argument α ε σ) :
    Keeps (.addAll aCollection) s ↔ Meets (.addAll aCollection) s := by
  obtain ⟨rest, hiterate⟩ := iterate_add (s.visits aCollection).visited s
  have hvisits := visits_run_of_ok hiterate
  cases hexit : (s.visits aCollection).exit with
  | some e =>
    rw [hexit] at hvisits
    have hrun : perform (.addAll aCollection) s = _ :=
      (get_run _ s).trans (bind_of_error hvisits)
    rw [keeps_of_error _ hrun]
    simp [Meets, hexit]
  | none =>
    rw [hexit] at hvisits
    have hrun : perform (.addAll aCollection) s =
        OrderedCollection.sort s.sortBlock.block
          { s with
            elements := s.elements ++ (s.visits aCollection).visited.map Prod.fst
            rest := (s.visits aCollection).rest } :=
      (get_run _ s).trans ((bind_of_ok hvisits).trans (get_run _ _))
    by_cases hempty : (s.visits aCollection).visited = []
    · refine iff_of_true (keeps_of_resort (s.visits aCollection).rest ?_ rfl ?_)
        (.inl hempty)
      · rw [hrun, hempty, List.map_nil, List.append_nil]
      · exact ⟨by rw [hempty, List.map_nil], rfl⟩
    · have hadded : (s.visits aCollection).visited.map Prod.fst ≠ [] := by
        rwa [ne_eq, List.map_eq_nil_iff]
      rw [keeps_iff_of_sort _ _ hrun rfl ⟨rfl, rfl⟩ hadded]
      simp [Meets, hexit, hempty]

/-- A method that stores nothing, for each element. -/
theorem keeps_of_forbidden {v : Visits α ε σ} {block : α → Method E Unit}
    (hrun : perform op s = v.run block s) (hblock : op.sortBlock s = s.sortBlock)
    (hforbidden : ∀ x s', ∃ e, block x s' = .error e s') (hs : s.Ordered)
    (hchanges : v.visited = [] → op.Changes s [] []) : Keeps op s := by
  cases hvisited : v.visited with
  | nil =>
    have hiterate : iterate block v.visited s = .ok () s := by
      rw [hvisited]
      rfl
    have hvisits := visits_run_of_ok hiterate
    cases hexit : v.exit with
    | none =>
      rw [hexit] at hvisits
      exact keeps_of_removed _ _ hs (hrun.trans hvisits) hblock (.refl _) (hchanges hvisited)
        (by rw [List.append_nil])
    | some e =>
      rw [hexit] at hvisits
      exact keeps_of_unchanged _ (hrun.trans hvisits)
  | cons z zs =>
    obtain ⟨e, he⟩ := hforbidden z.1 { s with rest := z.2 }
    have hiterate : iterate block v.visited s = .error e { s with rest := z.2 } := by
      rw [hvisited]
      exact iterate_error he
    exact keeps_of_unchanged _ (hrun.trans (visits_run_of_error hiterate))

theorem addAllFirst_keeps (aCollection : Argument α ε σ) (hs : s.Ordered) :
    Keeps (.addAllFirst aCollection) s := by
  refine keeps_of_forbidden (v := s.reverseVisits aCollection) rfl rfl
    (fun x s' => ⟨_, bind_of_error rfl⟩) hs fun hempty => ⟨?_, rfl⟩
  rw [hempty, List.map_nil]

theorem addAllLast_keeps (aCollection : Argument α ε σ) (hs : s.Ordered) :
    Keeps (.addAllLast aCollection) s := by
  refine keeps_of_forbidden (v := s.visits aCollection) rfl rfl
    (fun x s' => ⟨_, bind_of_error rfl⟩) hs fun hempty => ⟨?_, rfl⟩
  rw [hempty, List.map_nil]

theorem remove_keeps (x : α) (hs : s.Ordered) : Keeps (.remove x) s := by
  have hremove := remove_run x s
  cases hidx : OrderedCollection.indexOfEqual E s.elements x with
  | none =>
    rw [hidx] at hremove
    exact keeps_of_unchanged s.rest (discard_error hremove)
  | some idx =>
    rw [hidx] at hremove
    obtain ⟨front, y, back, hxs, herase, hequal, -⟩ := indexOfEqual_eq_some hidx
    refine keeps_of_removed s.rest [y] hs (discard_ok hremove) rfl
      (List.eraseIdx_sublist _ _) ⟨rfl, y, hequal, rfl⟩ ?_
    rw [herase, hxs]
    exact (List.perm_append_singleton y _).trans List.perm_middle.symm

theorem removeIfAbsent_run (x : α) (aBlock : EStateM (Exit ε) σ α) (s : Receiver E) :
    OrderedCollection.removeIfAbsent x aBlock s =
      match OrderedCollection.indexOfEqual E s.elements x with
      | none => outside aBlock s
      | some idx => .ok x { s with elements := s.elements.eraseIdx idx } := by
  refine (get_run _ s).trans ?_
  cases OrderedCollection.indexOfEqual E s.elements x <;> rfl

theorem removeIfAbsent_keeps (x : α) (aBlock : EStateM (Exit ε) σ α) (hs : s.Ordered) :
    Keeps (.removeIfAbsent x aBlock) s := by
  have hremove := removeIfAbsent_run x aBlock s
  cases hidx : OrderedCollection.indexOfEqual E s.elements x with
  | none =>
    rw [hidx] at hremove
    simp only [outside] at hremove
    cases hblock : aBlock s.rest with
    | ok b rest =>
      rw [hblock] at hremove
      exact keeps_of_removed _ _ hs (discard_ok hremove) rfl (.refl _)
        ⟨rfl, .inr ⟨indexOfEqual_eq_none hidx, rfl⟩⟩ (by rw [List.append_nil])
    | error e rest =>
      rw [hblock] at hremove
      exact keeps_of_unchanged _ (discard_error hremove)
  | some idx =>
    rw [hidx] at hremove
    obtain ⟨front, y, back, hxs, herase, hequal, -⟩ := indexOfEqual_eq_some hidx
    refine keeps_of_removed s.rest [y] hs (discard_ok hremove) rfl
      (List.eraseIdx_sublist _ _) ⟨rfl, .inl ⟨y, hequal, rfl⟩⟩ ?_
    rw [herase, hxs]
    exact (List.perm_append_singleton y _).trans List.perm_middle.symm

theorem removeFirst_keeps (hs : s.Ordered) : Keeps .removeFirst s := by
  have hrun := removeFirst_run s
  cases hxs : s.elements with
  | nil =>
    rw [hxs] at hrun
    exact keeps_of_unchanged s.rest (discard_error hrun)
  | cons x xs =>
    rw [hxs] at hrun
    refine keeps_of_removed s.rest [x] hs (discard_ok hrun) rfl ?_ ?_ ?_
    · rw [hxs]
      exact List.sublist_cons_self x xs
    · exact ⟨rfl, by rw [hxs]; rfl⟩
    · rw [hxs]
      exact List.perm_append_singleton x xs

theorem removeLast_keeps (hs : s.Ordered) : Keeps .removeLast s := by
  rcases List.eq_nil_or_concat s.elements with hxs | ⟨xs, x, hxs⟩
  · have hrun : OrderedCollection.removeLast s =
        .error (.error "OrderedCollection>>removeLast: collection is empty") s := by
      refine (get_run _ s).trans ?_
      rw [hxs]
      rfl
    exact keeps_of_unchanged s.rest (discard_error hrun)
  · rw [List.concat_eq_append] at hxs
    refine keeps_of_removed s.rest [x] hs
      (discard_ok (removeLast_run hxs)) rfl ?_ ?_ ?_
    · rw [hxs]
      exact List.sublist_append_left xs [x]
    · exact ⟨rfl, by simp [hxs]⟩
    · rw [hxs]

theorem removeAt_keeps (index : Int) (hs : s.Ordered) :
    Keeps (.removeAt index) s ↔ Meets (.removeAt index) s := by
  by_cases hin : 1 ≤ index ∧ index ≤ s.elements.length
  · by_cases hlast : index = s.elements.length
    · -- the last element: nothing has to be put back
      subst hlast
      refine iff_of_true ?_ (fun h => Nat.lt_irrefl _ (Int.ofNat_lt.mp h.2))
      rcases List.eq_nil_or_concat s.elements with hxs | ⟨xs, x, hxs⟩
      · rw [hxs, List.length_nil] at hin
        omega
      · rw [List.concat_eq_append] at hxs
        refine keeps_of_removed s.rest [x] hs
          (discard_ok (removeAt_last hxs)) rfl ?_ ?_ ?_
        · rw [hxs]
          exact List.sublist_append_left xs [x]
        · exact ⟨rfl, by simp [hxs]⟩
        · rw [hxs]
    · refine iff_of_false ?_ (fun h => h ⟨hin.1, by omega⟩)
      obtain ⟨i, rfl⟩ : ∃ i : Nat, index = i + 1 := ⟨(index - 1).toNat, by omega⟩
      have hi : i + 1 < s.elements.length := by omega
      have hxs : s.elements =
          s.elements.take i ++ s.elements[i] :: s.elements[i + 1] :: s.elements.drop (i + 2) := by
        rw [← List.drop_eq_getElem_cons hi, ← List.drop_eq_getElem_cons (by omega),
          List.take_append_drop]
      have hlength : (s.elements.take i).length = i := List.length_take_of_le (by omega)
      obtain ⟨e, he⟩ := removeAt_inner hxs
      rw [hlength] at he
      have hrun : perform (.removeAt (i + 1)) s = _ := discard_error he
      rw [keeps_of_error _ hrun]
      rintro ⟨hsame, -⟩
      have hsize : (s.elements.take i).length = s.elements.length := congrArg List.length hsame
      omega
  · obtain ⟨e, he⟩ := removeAt_out index hin
    exact iff_of_true (keeps_of_unchanged s.rest (discard_error he))
      (fun h => hin ⟨h.1, by omega⟩)

/-- A number of elements that is too large or negative is refused. -/
theorem sized_run {n : Int} {m pop : Method E (List α)} {tooMany negative : Exit ε}
    (hm : m s = (if n > s.elements.length then throw tooMany
      else if n < 0 then throw negative else pop : Method E (List α)) s) :
    (∃ e, m s = .error e s) ∨ n.toNat ≤ s.elements.length ∧ m s = pop s := by
  rw [hm]
  by_cases hmany : n > s.elements.length
  · exact .inl ⟨tooMany, congrFun (if_pos hmany) s⟩
  rw [if_neg hmany]
  by_cases hneg : n < 0
  · exact .inl ⟨negative, congrFun (if_pos hneg) s⟩
  · exact .inr ⟨by omega, congrFun (if_neg hneg) s⟩

theorem removeFirstN_keeps (n : Int) (hs : s.Ordered) : Keeps (.removeFirstN n) s := by
  rcases sized_run (get_run _ s : removeFirstN n s = _) with ⟨e, he⟩ | ⟨hsize, hrun⟩
  · exact keeps_of_unchanged s.rest (discard_error he)
  · have hpop := popFirst_run (s.elements.take n.toNat) (s.elements.drop n.toNat) s
      (List.take_append_drop _ _).symm
    rw [List.length_take_of_le hsize] at hpop
    refine keeps_of_removed s.rest _ hs (discard_ok (hrun.trans hpop)) rfl
      (List.drop_sublist _ _) ⟨rfl, rfl⟩ ?_
    have hsplit := List.take_append_drop n.toNat s.elements
    exact List.perm_append_comm.trans (.of_eq hsplit)

theorem removeLastN_keeps (n : Int) (hs : s.Ordered) : Keeps (.removeLastN n) s := by
  rcases sized_run (get_run _ s : removeLastN n s = _) with ⟨e, he⟩ | ⟨hsize, hrun⟩
  · exact keeps_of_unchanged s.rest (discard_error he)
  · let k := s.elements.length - n.toNat
    have hlength : (s.elements.drop k).length = n.toNat := by
      rw [List.length_drop]
      omega
    have hpop := popLast_run (s.elements.take k) (s.elements.drop k) [] s
      (List.take_append_drop _ _).symm
    rw [hlength] at hpop
    exact keeps_of_removed s.rest _ hs (discard_ok (hrun.trans hpop)) rfl
      (List.take_sublist _ _) ⟨rfl, rfl⟩ (.of_eq (List.take_append_drop k s.elements))

/-- Elements are removed for each value of an iteration. -/
theorem removeEach_run (v : Visits α ε σ) (s : Receiver E) :
    (∃ ys, removeValues E s.elements (v.visited.map Prod.fst) = some ys ∧ v.run removeEach s =
      match v.exit with
      | some e => .error e { s with elements := ys, rest := v.rest }
      | none => .ok () { s with elements := ys, rest := v.rest }) ∨
    removeValues E s.elements (v.visited.map Prod.fst) = none ∧ ∃ e ys rest,
      v.run removeEach s = .error e { s with elements := ys, rest := rest } ∧
        (ys = s.elements ↔
          ∀ z ∈ v.visited.head?, OrderedCollection.indexOfEqual E s.elements z.1 = none) := by
  have hiterate := iterate_removeEach v.visited s
  cases hvalues : removeValues E s.elements (v.visited.map Prod.fst) with
  | some ys =>
    rw [hvalues] at hiterate
    obtain ⟨rest, hrun⟩ := hiterate
    exact .inl ⟨ys, rfl, visits_run_of_ok hrun⟩
  | none =>
    rw [hvalues] at hiterate
    obtain ⟨e, ys, rest, hrun, -, hhead⟩ := hiterate
    exact .inr ⟨rfl, e, ys, rest, visits_run_of_error hrun, hhead⟩

/-- Removing a value that is found makes the collection smaller. -/
theorem removeValues_eq_self {zs : List (α × σ)}
    (h : removeValues E xs (zs.map Prod.fst) = some ys) :
    ys = xs ↔ ∀ z ∈ zs.head?, OrderedCollection.indexOfEqual E xs z.1 = none := by
  obtain ⟨-, removed, hremoved, hperm, -⟩ := removeValues_spec h
  have hlength := hperm.length_eq
  rw [List.length_append] at hlength
  cases zs with
  | nil =>
    cases h
    exact iff_of_true rfl fun z hz => nomatch hz
  | cons z zs =>
    cases hremoved with
    | cons hequal _ =>
      rw [List.length_cons] at hlength
      refine iff_of_false ?_ fun hnone => ?_
      · rintro rfl
        omega
      · rw [List.map_cons, removeValues, hnone z rfl] at h
        cases h

theorem removeAll_keeps (aCollection : Argument α ε σ) (hs : s.Ordered) :
    Keeps (.removeAll aCollection) s ↔ Meets (.removeAll aCollection) s := by
  rcases removeEach_run (s.visits aCollection) s with
    ⟨ys, hvalues, hrun⟩ | ⟨hvalues, e, ys, rest, hrun, hhead⟩
  · obtain ⟨hsub, removed, hremoved, hperm, -⟩ := removeValues_spec hvalues
    cases hexit : (s.visits aCollection).exit with
    | none =>
      rw [hexit] at hrun
      refine iff_of_true (keeps_of_removed _ _ hs hrun rfl hsub ⟨rfl, hremoved⟩ hperm) ?_
      exact .inr ⟨hexit, Option.isSome_of_eq_some hvalues⟩
    | some e =>
      rw [hexit] at hrun
      have hself := removeValues_eq_self hvalues
      rw [keeps_of_error (.removeAll aCollection) hrun]
      simp only [Meets, hexit, reduceCtorEq, false_and, or_false, and_true]
      exact hself
  · rw [keeps_of_error (.removeAll aCollection) hrun]
    simp only [Meets, hvalues, Option.isSome_none, Bool.false_eq_true, and_false, or_false,
      and_true]
    exact hhead

theorem removeAllElements_keeps (hs : s.Ordered) : Keeps .removeAllElements s := by
  have hvisited : (Receiver.snapshot s.elements s.rest : Visits α ε σ).visited.map Prod.fst =
      s.elements := by
    simp [Receiver.snapshot, Function.comp_def]
  rcases removeEach_run (Receiver.snapshot s.elements s.rest) s with
    ⟨ys, hvalues, hrun⟩ | ⟨hvalues, -⟩
  · rw [hvisited, removeValues_self] at hvalues
    cases hvalues
    exact keeps_of_removed _ _ hs hrun rfl (List.nil_sublist _) ⟨rfl, rfl⟩ (.refl _)
  · rw [hvisited, removeValues_self] at hvalues
    cases hvalues

/-- What is selected is a part of the collection. -/
theorem select_sublist {aBlock : α → EStateM (Exit ε) σ Bool} (xs : List α) :
    ∀ {rest rest' : σ} {selected : List α}, select aBlock xs rest = .ok selected rest' →
      selected.Sublist xs := by
  induction xs with
  | nil =>
    intro rest rest' selected h
    cases h
    exact .refl _
  | cons x xs ih =>
    intro rest rest' selected h
    cases hkeep : aBlock x rest with
    | error e rest₁ =>
      have hrun : select aBlock (x :: xs) rest = _ := bind_of_error hkeep
      rw [hrun] at h
      cases h
    | ok keep rest₁ =>
      cases hselect : select aBlock xs rest₁ with
      | error e rest₂ =>
        have hrun : select aBlock (x :: xs) rest = _ :=
          (bind_of_ok hkeep).trans (bind_of_error hselect)
        rw [hrun] at h
        cases h
      | ok kept rest₂ =>
        have hrun : select aBlock (x :: xs) rest = _ :=
          (bind_of_ok hkeep).trans ((bind_of_ok hselect).trans rfl)
        rw [hrun] at h
        cases h
        cases keep with
        | true => exact (ih hselect).cons_cons x
        | false => exact (ih hselect).cons x

theorem removeAllSuchThat_keeps (aBlock : α → EStateM (Exit ε) σ Bool) (hs : s.Ordered) :
    Keeps (.removeAllSuchThat aBlock) s ↔ Meets (.removeAllSuchThat aBlock) s := by
  cases hselect : select aBlock s.elements s.rest with
  | error e rest =>
    have houtside : outside (select aBlock s.elements) s = .error e { s with rest := rest } := by
      rw [outside, hselect]
    refine iff_of_true (keeps_of_unchanged _ ((get_run _ s).trans (bind_of_error houtside))) ?_
    intro selected rest' hok
    rw [hselect] at hok
    cases hok
  | ok selected rest =>
    have houtside : outside (select aBlock s.elements) s =
        .ok selected { s with rest := rest } := by
      rw [outside, hselect]
    have hvisited : (Receiver.snapshot selected rest : Visits α ε σ).visited.map Prod.fst =
        selected := by
      simp [Receiver.snapshot, Function.comp_def]
    have hfound := removeValues_isSome (E := E) (select_sublist _ hselect)
    rcases removeEach_run (Receiver.snapshot selected rest) { s with rest := rest } with
      ⟨ys, hvalues, hrun⟩ | ⟨hvalues, -⟩
    · rw [hvisited] at hvalues
      obtain ⟨hsub, removed, hremoved, hperm, hgroups⟩ := removeValues_spec hvalues
      have hperform : perform (.removeAllSuchThat aBlock) s =
          .ok () { s with elements := ys, rest := rest } :=
        (get_run _ s).trans ((bind_of_ok houtside).trans ((get_run _ _).trans hrun))
      have hmeets : Meets (.removeAllSuchThat aBlock) s ↔ removed.Perm selected := by
        simp only [Meets, hselect, perm_iff_groups hremoved, hgroups]
        exact ⟨fun h => h selected rest rfl, fun h _ _ hsame => by cases hsame; exact h⟩
      rw [keeps_of_ok _ hperform, hmeets]
      constructor
      · rintro ⟨-, -, added, gone, ⟨rfl, rest', hgone⟩, hkept⟩
        rw [hselect] at hgone
        cases hgone
        rw [List.append_nil] at hkept
        exact (List.perm_append_left_iff ys).mp (hperm.trans hkept.symm)
      · intro hsame
        refine ⟨hs.sublist hsub, rfl, [], selected, ⟨rfl, rest, hselect⟩, ?_⟩
        rw [List.append_nil]
        exact (hsame.symm.append_left ys).trans hperm
    · rw [hvisited] at hvalues
      rw [hvalues] at hfound
      cases hfound

theorem sort_keeps (aBlock : SortOrder E) (hs : s.Ordered) :
    Keeps (.sort aBlock) s ↔ Meets (.sort aBlock) s := by
  rcases sort_cases aBlock s with ⟨hcompletes, rest, hsort⟩ | ⟨hleft, e, rest, hrun⟩
  · have hiff := aBlock.order.pairwise_mergeSort_iff (may_refl s.sortBlock.precedes) _ hs
    rw [keeps_of_ok (.sort aBlock) hsort]
    constructor
    · rintro ⟨hordered, -⟩
      exact .inr (hiff.mp hordered)
    · intro hmeets
      refine ⟨hiff.mpr (hmeets.resolve_left fun h => h hcompletes), rfl, [], [], ⟨rfl, rfl⟩, ?_⟩
      rw [List.append_nil, List.append_nil]
      exact List.mergeSort_perm _ _
  · exact iff_of_true (keeps_of_unchanged _ hrun) (.inl hleft)

theorem setSortBlock_keeps (aBlock : SortOrder E) :
    Keeps (.setSortBlock aBlock) s ↔ Meets (.setSortBlock aBlock) s := by
  rw [keeps_of_ok (.setSortBlock aBlock)
    (rfl : perform _ s = .ok () { s with sortBlock := aBlock })]
  exact ⟨fun h => h.1, fun h => ⟨h, rfl, [], [], ⟨rfl, rfl⟩, .refl _⟩⟩

/-- On a collection that is in order, an operation does what is asked of it exactly when
it meets its condition. -/
theorem keeps_iff (op : Op E) (hs : s.Ordered) : Keeps op s ↔ Meets op s := by
  cases op with
  | add x => exact add_keeps x
  | addAll aCollection => exact addAll_keeps aCollection
  | removeAt index => exact removeAt_keeps index hs
  | removeAll aCollection => exact removeAll_keeps aCollection hs
  | removeAllSuchThat aBlock => exact removeAllSuchThat_keeps aBlock hs
  | sort aBlock => exact sort_keeps aBlock hs
  | setSortBlock aBlock => exact setSortBlock_keeps aBlock
  | addFirst x | addLast x | atPut index x | addBeforeIndex x index | addAfterIndex x index =>
    exact iff_of_true (keeps_of_unchanged s.rest (discard_error rfl)) trivial
  | addAllFirst aCollection => exact iff_of_true (addAllFirst_keeps aCollection hs) trivial
  | addAllLast aCollection => exact iff_of_true (addAllLast_keeps aCollection hs) trivial
  | remove x => exact iff_of_true (remove_keeps x hs) trivial
  | removeIfAbsent x aBlock => exact iff_of_true (removeIfAbsent_keeps x aBlock hs) trivial
  | removeFirst => exact iff_of_true (removeFirst_keeps hs) trivial
  | removeLast => exact iff_of_true (removeLast_keeps hs) trivial
  | removeFirstN n => exact iff_of_true (removeFirstN_keeps n hs) trivial
  | removeLastN n => exact iff_of_true (removeLastN_keeps n hs) trivial
  | removeAllElements => exact iff_of_true (removeAllElements_keeps hs) trivial
  | copy =>
    exact iff_of_true (keeps_of_removed s.rest _ hs rfl rfl (.refl _) ⟨rfl, rfl⟩
      (by rw [List.append_nil])) trivial

end One

/-! ## Sequences of operations -/

/-- The collection after an operation, however it ended. -/
def after (op : Op E) (s : Receiver E) : Receiver E :=
  match perform op s with
  | .ok _ s' | .error _ s' => s'

/-- In each state of the sequence the elements are in order, and each operation does
what is asked of it. -/
def AllKeep : List (Op E) → Receiver E → Prop
  | [], s => s.Ordered
  | op :: ops, s => s.Ordered ∧ Keeps op s ∧ AllKeep ops (after op s)

/-- Each operation meets its condition in the state it comes in. -/
def AllMeet : List (Op E) → Receiver E → Prop
  | [], _ => True
  | op :: ops, s => Meets op s ∧ AllMeet ops (after op s)

/-- `SortedCollection sortBlock: aBlock`, and `new` with a block that sends `<=`. -/
def created (aBlock : SortOrder E) (rest : σ) : Receiver E := ⟨[], aBlock, rest⟩

theorem ordered_after {op : Op E} {s : Receiver E} (hs : s.Ordered) (h : Keeps op s) :
    (after op s).Ordered := by
  unfold Keeps at h
  unfold after
  split at h
  · exact h.1
  · obtain ⟨helements, hblock⟩ := h
    unfold Receiver.Ordered
    rw [helements, hblock]
    exact hs

theorem allKeep_iff_of_ordered (ops : List (Op E)) : ∀ {s : Receiver E}, s.Ordered →
    (AllKeep ops s ↔ AllMeet ops s) := by
  induction ops with
  | nil => exact fun hs => iff_of_true hs trivial
  | cons op ops ih =>
    intro s hs
    constructor
    · rintro ⟨-, hkeeps, hrest⟩
      exact ⟨(keeps_iff op hs).mp hkeeps, (ih (ordered_after hs hkeeps)).mp hrest⟩
    · rintro ⟨hmeets, hrest⟩
      have hkeeps := (keeps_iff op hs).mpr hmeets
      exact ⟨hs, hkeeps, (ih (ordered_after hs hkeeps)).mpr hrest⟩

/-- **Sorted collections.** For every sequence of operations on a new collection, with
any blocks and any other collections: the elements are in order in every state and each
operation does what is asked of it if and only if each meets its condition in the state
it comes in. -/
theorem allKeep_iff (ops : List (Op E)) (aBlock : SortOrder E) (rest : σ) :
    AllKeep ops (created aBlock rest) ↔ AllMeet ops (created aBlock rest) :=
  allKeep_iff_of_ordered ops .nil

/-! ## Removal at an index -/

/-- Numbers, and no code behind them. -/
def numbers : Elements Nat Empty Unit where
  lessOrEqual x y := pure (some (decide (x ≤ y)))
  equal x y := x == y
  equal_refl _ := beq_self_eq_true _
  equal_symm x y h := by
    rw [beq_iff_eq] at h ⊢
    exact h.symm
  equal_trans x y z hxy hyz := by
    rw [beq_iff_eq] at hxy hyz ⊢
    exact hxy.trans hyz

/-- `[:a :b | a <= b]`. -/
def increasing : SortOrder numbers where
  block := some fun x y => pure (decide (x ≤ y))
  precedes x y := decide (x ≤ y)
  answers _ _ := .pure rfl
  order := by
    refine .of_totalPreorder (fun x y z hxy hyz => ?_) fun x y => ?_
    · rw [decide_eq_true_eq] at *
      exact Nat.le_trans hxy hyz
    · simp only [decide_eq_true_eq]
      exact Nat.le_total x y

/-- `[:a :b | a > b]`. -/
def decreasing : SortOrder numbers where
  block := some fun x y => pure (decide (x > y))
  precedes x y := decide (x > y)
  answers _ _ := .pure rfl
  order := by
    refine .of_strict (fun x y z hxy hyz => ?_) fun x y z hxz => ?_
    · rw [decide_eq_true_eq] at *
      exact Nat.lt_trans hyz hxy
    · simp only [decide_eq_true_eq] at *
      omega

/-- Equal numbers are in either order, others are not. -/
example : (∀ x ∈ [2, 2], ∀ y ∈ [2, 2], decreasing.precedes y x = false → increasing.le x y) ∧
    ¬ ∀ x ∈ [1, 2], ∀ y ∈ [1, 2], decreasing.precedes y x = false → increasing.le x y := by
  decide

/-- `removeAt: 1` on the numbers from one to three fails, and leaves nothing. -/
theorem removeAt_empties :
    ∃ e, perform (.removeAt 1) (⟨[1, 2, 3], increasing, ()⟩ : Receiver numbers) =
        .error e ⟨[], increasing, ()⟩ ∧
      ¬ Keeps (.removeAt 1) (⟨[1, 2, 3], increasing, ()⟩ : Receiver numbers) := by
  have hrun : perform (.removeAt 1) (⟨[1, 2, 3], increasing, ()⟩ : Receiver numbers) =
      .error (.error "This message is not appropriate for this object") ⟨[], increasing, ()⟩ :=
    rfl
  refine ⟨_, hrun, fun hkeeps => ?_⟩
  cases ((keeps_of_error _ hrun).mp hkeeps).1

end ProtoST.Collections.SortedCollection

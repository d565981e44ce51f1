import Mathlib.Data.List.Basic
import ProtoST.Collections.OrderedCollections
import ProtoST.Lib.Transition
import ProtoST.Primitives.Strings

/-!
# Read streams

ReadStream of `lib/kernel/stream.st`, over a collection that answers its elements by index and
copies a range of them.  `=` and `isSeparator` of the elements may signal errors.

A session is a run of sends to one stream.  `do:` leaves the session to its block at each element,
so that the block's own sends to the stream, and every way to leave it, are steps of the run.

## Main results

* `step_reads` — what a step reads, and how far it moves.
* `session_reads` — in a session that keeps to its collection, the position stays within it and the
  elements are answered in order.
* `not_readsInOrder` — a session that leaves its collection.
-/

namespace ProtoST.Kernel.ReadStreams

open ProtoST.Collections
open ProtoST.Kernel.Sequences
open ProtoST.Lib (Machine bind_of_error bind_of_ok)
open ProtoST.Primitives
open ProtoST.Primitives.IntegerDivision (Signal)

/-! ## Collections -/

/-- A collection that a stream reads. -/
structure Readable (O : Type) where
  elements : List O
  /-- `at:` -/
  elementAt : Int → Except Signal O
  /-- `copyFrom:to:` -/
  copyFrom : Int → Int → Except Signal (List O)
  at_within : ∀ n (hn : n < elements.length), elementAt ((n : Nat) + 1) = .ok elements[n]
  copy_empty : ∀ first last : Int, last < first → copyFrom first last = .ok []
  copy_within : ∀ first last : Int, 1 ≤ first → first ≤ last → last ≤ elements.length →
    copyFrom first last = .ok (between elements first last)

/-- A signal of a String's primitives.  The bytes of a string decode, so `overrun` is none. -/
def stringSignal : Strings.Signal → Signal
  | .subscriptOutOfBounds text => .classed "SubscriptOutOfBounds" text
  | .error text => .error text
  | .overrun => .error ""

namespace Readable

/-- A String. -/
def string (core : Strings.Core) (s : Strings.Str) : Readable Nat where
  elements := s.codes
  elementAt index := (Strings.strAt s index).mapError stringSignal
  copyFrom first last :=
    ((Strings.strCopyFromTo core s first last).mapError stringSignal).map Strings.Str.codes
  at_within n hn := by
    rw [Strings.strAt, if_neg (by omega), Int.add_sub_cancel, Int.toNat_natCast,
      List.getD_eq_getElem?_getD, List.getElem?_eq_getElem hn]
    rfl
  copy_empty first last h := by
    have hNil : (s.slice first last).codes = [] :=
      List.drop_eq_nil_of_le (by rw [List.length_take]; omega)
    rw [Strings.strCopyFromTo_eq core s (.inl h), ← hNil]
    rfl
  copy_within first last hFirst hOrder hLast := by
    rw [Strings.strCopyFromTo_eq core s (.inr ⟨hFirst, hLast⟩)]
    rfl

/-- An OrderedCollection. -/
def ordered {O : Type} (core : OrderedCollections.Core O) (data : List O)
    (h : OrderedCollections.Short data) : Readable O where
  elements := data
  elementAt := OrderedCollections.elementAt core data
  copyFrom := OrderedCollections.copyFrom core data
  at_within _ hn := OrderedCollections.elementAt_eq h hn
  copy_empty _ _ hEmpty := copyLoop_empty _ hEmpty
  copy_within _ _ hFirst _ hLast := OrderedCollections.copyFrom_eq h hFirst hLast

def size {O : Type} (c : Readable O) : Int := c.elements.length

end Readable

/-! ## ReadStream -/

/-- The sends to the elements, and nil. -/
structure Elements (O : Type) where
  nil : O
  equals : O → O → Except Signal Bool
  isSeparator : O → Except Signal Bool

structure Stream where
  position : Int
  /-- The ranges of indices that the collection has been asked for. -/
  reads : List (Int × Int)

inductive Stop where
  | signal (s : Signal)
  | fuel

abbrev Reader := EStateM Stop Stream

def sent {α : Type} : Except Signal α → Reader α
  | .ok a => pure a
  | .error s => throw (.signal s)

section Methods

variable {O : Type} (e : Elements O) (c : Readable O)

/-- `collection at: index` -/
def readAt (index : Int) : Reader O := do
  modify fun s => { s with reads := (index, index) :: s.reads }
  sent (c.elementAt index)

/-- `collection copyFrom: first to: last` -/
def readRange (first last : Int) : Reader (List O) := do
  modify fun s => { s with reads := if first ≤ last then (first, last) :: s.reads else s.reads }
  sent (c.copyFrom first last)

def move (position : Int) : Reader Unit := modify fun s => { s with position := position }

def atEnd : Reader Bool := do return decide ((← get).position ≥ c.size)

/-- `next`: none for the nil past the end. -/
def next : Reader (Option O) := do
  if ← atEnd c then return none
  else
    move ((← get).position + 1)
    return some (← readAt c (← get).position)

/-- `next:` -/
def nextN (n : Int) : Reader (List O) := do
  let stop := min ((← get).position + n) c.size
  let result ← readRange c ((← get).position + 1) stop
  move stop
  return result

/-- `peek`: none for the nil past the end. -/
def peek : Reader (Option O) := do
  if ← atEnd c then return none else return some (← readAt c ((← get).position + 1))

/-- `peekFor:` -/
def peekFor (anObject : O) : Reader Bool := do
  if ← atEnd c then return false
  else if ← sent (e.equals ((← peek c).getD e.nil) anObject) then
    move ((← get).position + 1)
    return true
  else return false

def skip (n : Int) : Reader Unit := do
  move (max ((← get).position + n) 0)
  move (min (← get).position c.size)

def skipSeparators : Nat → Reader Unit
  | 0 => throw .fuel
  | fuel + 1 => do
      if ← atEnd c then return ()
      else if ← sent (e.isSeparator ((← peek c).getD e.nil)) then
        move ((← get).position + 1)
        skipSeparators fuel
      else return ()

/-- `skipTo:`, whose loop is that of `upTo:` too. -/
def skipTo (anObject : O) : Nat → Reader Bool
  | 0 => throw .fuel
  | fuel + 1 => do
      if ← atEnd c then return false
      else if ← sent (e.equals ((← next c).getD e.nil) anObject) then return true
      else skipTo anObject fuel

/-- `upTo:` -/
def upTo (fuel : Nat) (anObject : O) : Reader (List O) := do
  let start := (← get).position
  if ← skipTo e c anObject fuel then readRange c (start + 1) ((← get).position - 1)
  else readRange c (start + 1) (← get).position

def upToEnd : Reader (List O) := do nextN c (c.size - (← get).position)

/-- The test of `do:`, and the element for its block. -/
def doTurn : Reader (Option O) := do
  if ← atEnd c then return none else return some ((← next c).getD e.nil)

end Methods

/-! ## Sessions -/

/-- A step of a session.  The block of `do:` ends, or is left by a signal or by `^`. -/
inductive Step (O : Type) where
  | next
  | nextN (n : Int)
  | peek
  | peekFor (anObject : O)
  | skip (n : Int)
  | skipSeparators
  | skipTo (anObject : O)
  | upTo (anObject : O)
  | upToEnd
  | setPosition (anInteger : Int)
  | reset
  | doEach
  | blockEnds
  | blockLeaves

inductive Answer (O : Type) where
  | self
  | nil
  | element (x : O)
  | truth (b : Bool)
  | part (xs : List O)

namespace Answer

def ofElement {O : Type} : Option O → Answer O
  | some x => element x
  | none => nil

/-- The elements that are answered. -/
def elements {O : Type} : Answer O → List O
  | element x => [x]
  | part xs => xs
  | _ => []

end Answer

abbrev Outcome (O : Type) := Except Stop (Answer O)

/-- Steps that position the stream; the others consume what they pass. -/
def Step.positions {O : Type} : Step O → Bool
  | skip _ | setPosition _ | reset => true
  | _ => false

structure Session (O : Type) where
  stream : Stream
  /-- The loops of `do:` whose blocks run. -/
  loops : Nat
  /-- The position after the stream was last positioned. -/
  base : Int
  /-- The steps since then, the last one first. -/
  steps : List (Step O × Outcome O)

section Sessions

variable {O : Type} (e : Elements O) (c : Readable O)

/-- More turns than a loop has from the start of the collection. -/
def turns : Nat := c.elements.length + 1

/-- What a step sends to the stream. -/
def perform : Step O → Reader (Answer O)
  | .next => do return .ofElement (← next c)
  | .nextN n => do return .part (← nextN c n)
  | .peek => do return .ofElement (← peek c)
  | .peekFor x => do return .truth (← peekFor e c x)
  | .skip n => do
      skip c n
      return .self
  | .skipSeparators => do
      skipSeparators e c (turns c)
      return .self
  | .skipTo x => do return .truth (← skipTo e c x (turns c))
  | .upTo x => do return .part (← upTo e c (turns c) x)
  | .upToEnd => do return .part (← upToEnd c)
  | .setPosition p => do
      move p
      return .self
  | .reset => do
      move 0
      return .self
  | .doEach | .blockEnds => do
      match ← doTurn e c with
      | some x => return .element x
      | none => return .self
  | .blockLeaves => return .self

/-- The loops of `do:` that a step ends, and those that it runs on. -/
def loopsBefore (loops : Nat) : Step O → Option Nat
  | .blockEnds | .blockLeaves => if loops = 0 then none else some (loops - 1)
  | _ => some loops

def loopsAfter (loops : Nat) : Step O → Outcome O → Nat
  | .doEach, .ok (.element _) | .blockEnds, .ok (.element _) => loops + 1
  | _, _ => loops

/-- The session after a step with its outcome. -/
def Session.after (s : Session O) (step : Step O) (loops : Nat) (outcome : Outcome O)
    (stream : Stream) : Session O :=
  { stream := stream
    loops := loopsAfter loops step outcome
    base := if step.positions then stream.position else s.base
    steps := if step.positions then [] else (step, outcome) :: s.steps }

def settle : EStateM.Result Stop Stream (Answer O) → Outcome O × Stream
  | .ok a s => (.ok a, s)
  | .error stop s => (.error stop, s)

/-- A stream on a collection, and the sends to it. -/
def session : Machine (Session O) (Step O) where
  init s := s = ⟨⟨0, []⟩, 0, 0, []⟩
  step s step := (loopsBefore s.loops step).map fun loops =>
    let (outcome, stream) := settle (perform e c step s.stream)
    s.after step loops outcome stream

/-- What a consuming step passes without answering it: a delimiter, what `peekFor:` finds, or what
it skips. -/
def Passed : Step O → List O → Prop
  | .upTo x, xs | .peekFor x, xs => xs = [] ∨ ∃ y, xs = [y] ∧ e.equals y x = .ok true
  | .skipTo x, xs => ∀ y ∈ xs.dropLast, e.equals y x = .ok false
  | .skipSeparators, xs => ∀ y ∈ xs, e.isSeparator y = .ok true
  | _, xs => xs = []

/-- The elements that a step answers, `peek` aside, which consumes nothing. -/
def answered : Step O → Outcome O → List O
  | .peek, _ => []
  | _, .ok a => a.elements
  | _, .error _ => []

/-- Elements that steps answer one after the other, those that are passed aside. -/
inductive Delivers : List (Step O × Outcome O) → List O → Prop
  | nil : Delivers [] []
  | step {steps : List (Step O × Outcome O)} {xs passed : List O} (step : Step O)
      (outcome : Outcome O) : Delivers steps xs → Passed e step passed →
      Delivers ((step, outcome) :: steps) (xs ++ (answered step outcome ++ passed))

/-- The stream is within its collection, of which it has answered the elements in order. -/
structure ReadsInOrder (s : Session O) : Prop where
  within : 0 ≤ s.stream.position ∧ s.stream.position ≤ c.size
  reads : ∀ r ∈ s.stream.reads, 1 ≤ r.1 ∧ r.2 ≤ c.size
  ends : ∀ step ∈ s.steps, step.2 ≠ .error .fuel
  forward : 0 ≤ s.base ∧ s.base ≤ s.stream.position
  ordered : Delivers e s.steps (between c.elements (s.base + 1) s.stream.position)

/-- The elements of a list can be compared up to the first that equals. -/
def Comparable (anObject : O) : List O → Prop
  | [] => True
  | x :: xs => e.equals x anObject = .ok true ∨
      e.equals x anObject = .ok false ∧ Comparable anObject xs

/-- A step that keeps to the collection. -/
def Keeps (s : Session O) : Step O → Prop
  | .setPosition p => 0 ≤ p ∧ p ≤ c.size
  | .nextN n => 0 ≤ n
  | .upTo x => Comparable e x (c.elements.drop s.stream.position.toNat)
  | _ => True

end Sessions

/-! ## What the methods read -/

section Within

variable {O : Type} {e : Elements O} {c : Readable O} {s : Stream} {n : Nat}

/-- A stream that is within its collection. -/
structure At (c : Readable O) (s : Stream) (n : Nat) : Prop where
  position : s.position = n
  le : n ≤ c.elements.length
  reads : ∀ r ∈ s.reads, 1 ≤ r.1 ∧ r.2 ≤ c.size

/-- The elements between two positions. -/
def slice (c : Readable O) (n m : Nat) : List O := (c.elements.take m).drop n

theorem slice_self (n : Nat) : slice c n n = [] :=
  List.drop_eq_nil_of_le (by rw [List.length_take]; omega)

theorem slice_cons {n m : Nat} (hn : n < m) (hm : m ≤ c.elements.length) :
    slice c n m = c.elements[n] :: slice c (n + 1) m := by
  have hTake : n < (c.elements.take m).length := by
    rw [List.length_take]
    omega
  rw [slice, List.drop_eq_getElem_cons hTake, List.getElem_take]
  rfl

theorem slice_append {n m k : Nat} (hn : n ≤ m) (hm : m ≤ k) :
    slice c n k = slice c n m ++ slice c m k := by
  have hTake : c.elements.take m = (c.elements.take k).take m := by
    rw [List.take_take, min_eq_left hm]
  have hDrop := List.take_append_drop (m - n) ((c.elements.take k).drop n)
  rw [List.drop_drop, ← List.drop_take] at hDrop
  rw [slice, slice, slice, hTake, ← hDrop]
  congr 3
  omega

theorem between_eq_slice (n m : Nat) : between c.elements (n + 1) m = slice c n m := by
  rw [between, slice]
  congr 1
  omega

theorem atEnd_eq (h : At c s n) : atEnd c s = .ok (decide (n = c.elements.length)) s := by
  have hEnd : (s.position ≥ c.size) ↔ n = c.elements.length := by
    rw [h.position, Readable.size]
    have hLe := h.le
    omega
  show EStateM.Result.ok (decide (s.position ≥ c.size)) s = _
  rw [decide_eq_decide.mpr hEnd]

theorem readAt_eq {k : Nat} (h : At c s k) (hn : n < c.elements.length) :
    ∃ s', readAt c (n + 1) s = .ok c.elements[n] s' ∧ At c s' k := by
  have hAt := c.at_within n hn
  refine ⟨{ s with reads := ((n : Int) + 1, (n : Int) + 1) :: s.reads }, ?_, h.position, h.le, ?_⟩
  · show (sent (c.elementAt ((n : Int) + 1)) : Reader O) _ = _
    rw [hAt]
    rfl
  · intro r hr
    rcases List.mem_cons.mp hr with rfl | hr
    · rw [Readable.size]
      dsimp only
      omega
    · exact h.reads r hr

theorem readRange_eq (h : At c s n) {m k : Nat} (hm : m ≤ k) (hk : k ≤ c.elements.length) :
    ∃ s', readRange c (m + 1) k s = .ok (slice c m k) s' ∧ At c s' n := by
  by_cases hSome : (m : Int) + 1 ≤ k
  · refine ⟨{ s with reads := ((m : Int) + 1, (k : Int)) :: s.reads }, ?_, h.position, h.le, ?_⟩
    · show (sent (c.copyFrom ((m : Int) + 1) k) : Reader (List O))
        { s with reads := if (m : Int) + 1 ≤ k then _ else _ } = _
      rw [c.copy_within _ _ (by omega) hSome (by omega), between_eq_slice, if_pos hSome]
      rfl
    · intro r hr
      rcases List.mem_cons.mp hr with rfl | hr
      · rw [Readable.size]
        dsimp only
        omega
      · exact h.reads r hr
  · obtain rfl : m = k := by omega
    refine ⟨s, ?_, h⟩
    show (sent (c.copyFrom ((m : Int) + 1) m) : Reader (List O))
      { s with reads := if (m : Int) + 1 ≤ m then _ else _ } = _
    rw [c.copy_empty _ _ (by omega), slice_self, if_neg hSome]
    rfl

theorem At.move (h : At c s n) {m : Nat} (hm : m ≤ c.elements.length) :
    At c { s with position := (m : Int) } m := ⟨rfl, hm, h.reads⟩

theorem next_eq (h : At c s n) (hn : n < c.elements.length) :
    ∃ s', next c s = .ok (some c.elements[n]) s' ∧ At c s' (n + 1) := by
  have hMoved : At c { s with position := s.position + 1 } (n + 1) := by
    rw [h.position]
    exact h.move (m := n + 1) hn
  obtain ⟨s', hRead, hAt⟩ := readAt_eq hMoved hn
  refine ⟨s', ?_, hAt⟩
  unfold next
  rw [bind_of_ok (atEnd_eq h), decide_eq_false (by omega), if_neg Bool.false_ne_true]
  show (readAt c (s.position + 1) >>= fun x => pure (some x) : Reader (Option O))
    { s with position := s.position + 1 } = _
  rw [h.position] at hRead ⊢
  rw [bind_of_ok hRead]
  rfl

theorem next_end (h : At c s n) (hn : n = c.elements.length) : next c s = .ok none s := by
  unfold next
  rw [bind_of_ok (atEnd_eq h), decide_eq_true hn]
  rfl

theorem nextN_eq (h : At c s n) {k : Nat} (hk : n ≤ k) :
    ∃ s', nextN c ((k : Int) - n) s = .ok (slice c n (min k c.elements.length)) s' ∧
      At c s' (min k c.elements.length) := by
  have hStop : min (s.position + ((k : Int) - n)) c.size =
    ((min k c.elements.length : Nat) : Int) := by
    rw [h.position, Readable.size]
    omega
  have hLe := h.le
  obtain ⟨s', hRead, hAt⟩ := readRange_eq h (m := n) (k := min k c.elements.length)
    (by omega) (by omega)
  refine ⟨{ s' with position := (min k c.elements.length : Nat) }, ?_, hAt.move (by omega)⟩
  show (do
    let result ← readRange c (s.position + 1) (min (s.position + ((k : Int) - n)) c.size)
    move (min (s.position + ((k : Int) - n)) c.size)
    return result : Reader (List O)) s = _
  rw [hStop, h.position, bind_of_ok hRead]
  rfl

theorem peek_eq (h : At c s n) (hn : n < c.elements.length) :
    ∃ s', peek c s = .ok (some c.elements[n]) s' ∧ At c s' n := by
  obtain ⟨s', hRead, hAt⟩ := readAt_eq h hn
  refine ⟨s', ?_, hAt⟩
  unfold peek
  rw [bind_of_ok (atEnd_eq h), decide_eq_false (by omega), if_neg Bool.false_ne_true]
  show (readAt c (s.position + 1) >>= fun x => pure (some x) : Reader (Option O)) s = _
  rw [h.position, bind_of_ok hRead]
  rfl

theorem peek_end (h : At c s n) (hn : n = c.elements.length) : peek c s = .ok none s := by
  unfold peek
  rw [bind_of_ok (atEnd_eq h), decide_eq_true hn]
  rfl

/-! ## What the steps consume -/

variable (e c) in
/-- A step from position `n` that goes forward over what it answers and passes. -/
def Consumes (step : Step O) (s : Stream) (n : Nat) : Prop :=
  ∃ outcome s' m passed, settle (perform e c step s) = (outcome, s') ∧ outcome ≠ .error .fuel ∧
    At c s' m ∧ n ≤ m ∧ Passed e step passed ∧ slice c n m = answered step outcome ++ passed

theorem consumes_next (h : At c s n) : Consumes e c .next s n := by
  by_cases hMore : n < c.elements.length
  · obtain ⟨s', hNext, hAt⟩ := next_eq h hMore
    refine ⟨.ok (.element c.elements[n]), s', n + 1, [], ?_, nofun, hAt, by omega, rfl, ?_⟩
    · rw [perform, bind_of_ok hNext]
      rfl
    · rw [slice_cons (by omega) (by omega), slice_self]
      rfl
  · have hLe := h.le
    refine ⟨.ok .nil, s, n, [], ?_, nofun, h, le_rfl, rfl, slice_self n⟩
    rw [perform, bind_of_ok (next_end h (by omega))]
    rfl

theorem consumes_doTurn (h : At c s n) {step : Step O}
    (hStep : step = .doEach ∨ step = .blockEnds) :
    Consumes e c step s n := by
  have hPerform : perform e c step = (do
      match ← doTurn e c with
      | some x => return .element x
      | none => return .self) := by
    rcases hStep with rfl | rfl
    · rfl
    · rfl
  have hPassed : Passed e step [] := by
    rcases hStep with rfl | rfl
    · rfl
    · rfl
  have hAnswered (x : O) : answered step (.ok (.element x)) = [x] := by
    rcases hStep with rfl | rfl
    · rfl
    · rfl
  have hEnd : answered step (.ok (.self : Answer O)) = [] := by
    rcases hStep with rfl | rfl
    · rfl
    · rfl
  by_cases hMore : n < c.elements.length
  · obtain ⟨s', hNext, hAt⟩ := next_eq h hMore
    have hTurn : doTurn e c s = .ok (some c.elements[n]) s' := by
      unfold doTurn
      rw [bind_of_ok (atEnd_eq h), decide_eq_false (by omega), if_neg Bool.false_ne_true,
        bind_of_ok hNext]
      rfl
    refine ⟨.ok (.element c.elements[n]), s', n + 1, [], ?_, nofun, hAt, by omega, hPassed, ?_⟩
    · rw [hPerform, bind_of_ok hTurn]
      rfl
    · rw [slice_cons (by omega) (by omega), slice_self, hAnswered]
      rfl
  · have hLe := h.le
    have hTurn : doTurn e c s = .ok none s := by
      unfold doTurn
      rw [bind_of_ok (atEnd_eq h), decide_eq_true (by omega)]
      rfl
    refine ⟨.ok .self, s, n, [], ?_, nofun, h, le_rfl, hPassed, ?_⟩
    · rw [hPerform, bind_of_ok hTurn]
      rfl
    · rw [slice_self, hEnd]
      rfl

theorem consumes_nextN (h : At c s n) {k : Int} (hk : 0 ≤ k) : Consumes e c (.nextN k) s n := by
  have hLe := h.le
  obtain ⟨s', hNext, hAt⟩ := nextN_eq h (k := n + k.toNat) (by omega)
  have hCount : ((n + k.toNat : Nat) : Int) - n = k := by omega
  rw [hCount] at hNext
  refine ⟨.ok (.part (slice c n (min (n + k.toNat) c.elements.length))), s', _, [], ?_, nofun, hAt,
    by omega, rfl, ?_⟩
  · rw [perform, bind_of_ok hNext]
    rfl
  · rw [List.append_nil]
    rfl

theorem consumes_upToEnd (h : At c s n) : Consumes e c .upToEnd s n := by
  obtain ⟨s', hNext, hAt⟩ := nextN_eq h (k := c.elements.length) h.le
  have hLe := h.le
  refine ⟨.ok (.part (slice c n (min c.elements.length c.elements.length))), s', _, [], ?_, nofun,
    hAt, by omega, rfl, ?_⟩
  · have hAll : upToEnd c s = nextN c ((c.elements.length : Int) - n) s := by
      rw [← h.position]
      rfl
    rw [perform, bind_of_ok (hAll.trans hNext)]
    rfl
  · rw [List.append_nil]
    rfl

theorem consumes_peek (h : At c s n) : Consumes e c .peek s n := by
  by_cases hMore : n < c.elements.length
  · obtain ⟨s', hPeek, hAt⟩ := peek_eq h hMore
    refine ⟨.ok (.element c.elements[n]), s', n, [], ?_, nofun, hAt, le_rfl, rfl, slice_self n⟩
    rw [perform, bind_of_ok hPeek]
    rfl
  · have hLe := h.le
    refine ⟨.ok .nil, s, n, [], ?_, nofun, h, le_rfl, rfl, slice_self n⟩
    rw [perform, bind_of_ok (peek_end h (by omega))]
    rfl

theorem consumes_blockLeaves (h : At c s n) : Consumes e c .blockLeaves s n :=
  ⟨.ok .self, s, n, [], rfl, nofun, h, le_rfl, rfl, slice_self n⟩

/-- `peekFor:` compares the next element. -/
theorem peekFor_eq (h : At c s n) (hn : n < c.elements.length) (x : O) :
    ∃ s', At c s' n ∧ peekFor e c x s =
      match e.equals c.elements[n] x with
      | .ok true => .ok true { s' with position := (n + 1 : Nat) }
      | .ok false => .ok false s'
      | .error signal => .error (.signal signal) s' := by
  obtain ⟨s', hPeek, hAt⟩ := peek_eq h hn
  refine ⟨s', hAt, ?_⟩
  unfold peekFor
  rw [bind_of_ok (atEnd_eq h), decide_eq_false (by omega), if_neg Bool.false_ne_true,
    bind_of_ok hPeek, Option.getD_some]
  cases e.equals c.elements[n] x with
  | error signal => rfl
  | ok found =>
      cases found with
      | false => rfl
      | true =>
          show EStateM.Result.ok true { s' with position := s'.position + 1 } = _
          rw [hAt.position]
          rfl

theorem consumes_peekFor (h : At c s n) (x : O) : Consumes e c (.peekFor x) s n := by
  by_cases hMore : n < c.elements.length
  · obtain ⟨s', hAt, hPeek⟩ := peekFor_eq (e := e) h hMore x
    cases hEquals : e.equals c.elements[n] x with
    | error signal =>
        rw [hEquals] at hPeek
        refine ⟨.error (.signal signal), s', n, [], ?_, nofun, hAt, le_rfl, .inl rfl, slice_self n⟩
        rw [perform, bind_of_error hPeek]
        rfl
    | ok found =>
        rw [hEquals] at hPeek
        cases found with
        | false =>
            refine ⟨.ok (.truth false), s', n, [], ?_, nofun, hAt, le_rfl, .inl rfl, slice_self n⟩
            rw [perform, bind_of_ok hPeek]
            rfl
        | true =>
            refine ⟨.ok (.truth true), _, n + 1, [c.elements[n]], ?_, nofun, hAt.move hMore,
              by omega, .inr ⟨_, rfl, hEquals⟩, ?_⟩
            · rw [perform, bind_of_ok hPeek]
              rfl
            · rw [slice_cons (by omega) (by omega), slice_self]
              rfl
  · have hLe := h.le
    have hPeek : peekFor e c x s = .ok false s := by
      unfold peekFor
      rw [bind_of_ok (atEnd_eq h), decide_eq_true (by omega)]
      rfl
    refine ⟨.ok (.truth false), s, n, [], ?_, nofun, h, le_rfl, .inl rfl, slice_self n⟩
    rw [perform, bind_of_ok hPeek]
    rfl

/-! ## What the loops consume -/

variable (e) in
/-- How `skipTo:` ends after the elements it has passed. -/
def Searched (x : O) (passed : List O) : EStateM.Result Stop Stream Bool → Stream → Prop
  | .ok true s, s' => s = s' ∧ ∃ before y, passed = before ++ [y] ∧ e.equals y x = .ok true ∧
      ∀ z ∈ before, e.equals z x = .ok false
  | .ok false s, s' => s = s' ∧ ∀ z ∈ passed, e.equals z x = .ok false
  | .error stop s, s' => s = s' ∧ ∃ signal, stop = .signal signal ∧ ∃ before y,
      passed = before ++ [y] ∧ e.equals y x = .error signal ∧ ∀ z ∈ before, e.equals z x = .ok false

theorem Searched.cons {x y : O} {passed : List O} {r : EStateM.Result Stop Stream Bool}
    {s : Stream} (hy : e.equals y x = .ok false) (h : Searched e x passed r s) :
    Searched e x (y :: passed) r s := by
  have hAll {before : List O} (hBefore : ∀ z ∈ before, e.equals z x = .ok false) :
      ∀ z ∈ y :: before, e.equals z x = .ok false := by
    intro z hz
    rcases List.mem_cons.mp hz with rfl | hz
    · exact hy
    · exact hBefore z hz
  cases r with
  | ok found s' =>
      cases found with
      | true =>
          obtain ⟨hEq, before, z, rfl, hz, hBefore⟩ := h
          exact ⟨hEq, y :: before, z, rfl, hz, hAll hBefore⟩
      | false => exact ⟨h.1, hAll h.2⟩
  | error stop s' =>
      obtain ⟨hEq, signal, hStop, before, z, rfl, hz, hBefore⟩ := h
      exact ⟨hEq, signal, hStop, y :: before, z, rfl, hz, hAll hBefore⟩

theorem skipTo_spec (x : O) {fuel : Nat} (h : At c s n) (hFuel : c.elements.length - n < fuel) :
    ∃ s' m, At c s' m ∧ n ≤ m ∧ Searched e x (slice c n m) (skipTo e c x fuel s) s' := by
  induction fuel generalizing s n with
  | zero => omega
  | succ fuel ih =>
      by_cases hMore : n < c.elements.length
      · obtain ⟨s', hNext, hAt⟩ := next_eq h hMore
        have hOne : slice c n (n + 1) = [c.elements[n]] := by
          rw [slice_cons (by omega) (by omega), slice_self]
        have hTurn : skipTo e c x (fuel + 1) s = (do
            if ← sent (e.equals c.elements[n] x) then return true else skipTo e c x fuel :
              Reader Bool) s' := by
          rw [skipTo, bind_of_ok (atEnd_eq h), decide_eq_false (by omega),
            if_neg Bool.false_ne_true, bind_of_ok hNext, Option.getD_some]
        rw [hTurn]
        cases hEquals : e.equals c.elements[n] x with
        | error signal =>
            refine ⟨s', n + 1, hAt, by omega, rfl, signal, rfl, [], c.elements[n], hOne, hEquals,
              nofun⟩
        | ok found =>
            cases found with
            | true => exact ⟨s', n + 1, hAt, by omega, rfl, [], c.elements[n], hOne, hEquals, nofun⟩
            | false =>
                obtain ⟨s'', m, hEnd, hForward, hSearched⟩ := ih hAt (by omega)
                refine ⟨s'', m, hEnd, by omega, ?_⟩
                rw [slice_cons (by omega) hEnd.le]
                exact hSearched.cons hEquals
      · have hLe := h.le
        refine ⟨s, n, h, le_rfl, ?_⟩
        rw [skipTo, bind_of_ok (atEnd_eq h), decide_eq_true (by omega), slice_self]
        exact ⟨rfl, nofun⟩

theorem turns_enough (n : Nat) : c.elements.length - n < turns c := by
  unfold turns
  omega

theorem consumes_skipTo (h : At c s n) (x : O) : Consumes e c (.skipTo x) s n := by
  obtain ⟨s', m, hAt, hForward, hSearched⟩ := skipTo_spec (e := e) x h (turns_enough n)
  cases hRun : skipTo e c x (turns c) s with
  | ok found t =>
      rw [hRun] at hSearched
      cases found with
      | true =>
          obtain ⟨rfl, before, y, hPassed, -, hBefore⟩ := hSearched
          refine ⟨.ok (.truth true), t, m, slice c n m, ?_, nofun, hAt, hForward, ?_, rfl⟩
          · rw [perform, bind_of_ok hRun]
            rfl
          · rw [hPassed]
            intro z hz
            rw [List.dropLast_concat] at hz
            exact hBefore z hz
      | false =>
          obtain ⟨rfl, hPassed⟩ := hSearched
          refine ⟨.ok (.truth false), t, m, slice c n m, ?_, nofun, hAt, hForward, ?_, rfl⟩
          · rw [perform, bind_of_ok hRun]
            rfl
          · exact fun z hz => hPassed z (List.dropLast_subset _ hz)
  | error stop t =>
      rw [hRun] at hSearched
      obtain ⟨rfl, signal, rfl, before, y, hPassed, -, hBefore⟩ := hSearched
      refine ⟨.error (.signal signal), t, m, slice c n m, ?_, nofun, hAt, hForward, ?_, rfl⟩
      · rw [perform, bind_of_error hRun]
        rfl
      · rw [hPassed]
        intro z hz
        rw [List.dropLast_concat] at hz
        exact hBefore z hz

/-- Elements that can be compared do not signal. -/
theorem Comparable.not_error {x y : O} {before rest : List O} {signal : Signal}
    (h : Comparable e x (before ++ y :: rest)) (hBefore : ∀ z ∈ before, e.equals z x = .ok false) :
    e.equals y x ≠ .error signal := by
  induction before with
  | nil =>
      rcases h with h | ⟨h, -⟩
      · rw [h]
        nofun
      · rw [h]
        nofun
  | cons z before ih =>
      rcases h with h | ⟨-, h⟩
      · rw [hBefore z List.mem_cons_self] at h
        cases h
      · exact ih h fun w hw => hBefore w (List.mem_cons_of_mem z hw)

theorem consumes_upTo (h : At c s n) {x : O} (hx : Comparable e x (c.elements.drop n)) :
    Consumes e c (.upTo x) s n := by
  obtain ⟨s', m, hAt, hForward, hSearched⟩ := skipTo_spec (e := e) x h (turns_enough n)
  have hSplit : upTo e c (turns c) x s = (skipTo e c x (turns c) >>= fun found =>
      if found then do readRange c (s.position + 1) ((← get).position - 1)
      else do readRange c (s.position + 1) (← get).position : Reader (List O)) s := rfl
  have hLe := hAt.le
  cases hRun : skipTo e c x (turns c) s with
  | ok found t =>
      rw [hRun] at hSearched
      cases found with
      | true =>
          obtain ⟨rfl, before, y, hPassed, hy, -⟩ := hSearched
          have hLength : before.length + 1 = m - n := by
            have hCount := congrArg List.length hPassed
            rw [slice, List.length_drop, List.length_take, List.length_append,
              List.length_singleton]
              at hCount
            omega
          have hBefore : slice c n (m - 1) = before := by
            have hParts := slice_append (c := c) (n := n) (m := m - 1) (k := m) (by omega)
              (by omega)
            have hLast : (slice c (m - 1) m).length = 1 := by
              rw [slice, List.length_drop, List.length_take]
              omega
            rw [hPassed] at hParts
            exact (List.append_inj' hParts (by rw [hLast]; rfl)).1.symm
          obtain ⟨s'', hRead, hEnd⟩ := readRange_eq hAt (m := n) (k := m - 1) (by omega) (by omega)
          have hTo : (m : Int) - 1 = ((m - 1 : Nat) : Int) := by omega
          refine ⟨.ok (.part before), s'', m, [y], ?_, nofun, hEnd, hForward, .inr ⟨y, rfl, hy⟩,
            hPassed⟩
          have hUpTo : upTo e c (turns c) x s = .ok before s'' := by
            rw [hSplit, bind_of_ok hRun]
            show readRange c (s.position + 1) (t.position - 1) t = _
            rw [h.position, hAt.position, hTo, hRead, hBefore]
          rw [perform, bind_of_ok hUpTo]
          rfl
      | false =>
          obtain ⟨rfl, -⟩ := hSearched
          obtain ⟨s'', hRead, hEnd⟩ := readRange_eq hAt hForward hLe
          refine ⟨.ok (.part (slice c n m)), s'', m, [], ?_, nofun, hEnd, hForward, .inl rfl,
            (List.append_nil _).symm⟩
          have hUpTo : upTo e c (turns c) x s = .ok (slice c n m) s'' := by
            rw [hSplit, bind_of_ok hRun]
            show readRange c (s.position + 1) t.position t = _
            rw [h.position, hAt.position, hRead]
          rw [perform, bind_of_ok hUpTo]
          rfl
  | error stop t =>
      rw [hRun] at hSearched
      obtain ⟨rfl, signal, rfl, before, y, hPassed, hy, hBefore⟩ := hSearched
      have hDrop : c.elements.drop n = before ++ y :: c.elements.drop m := by
        have hParts := slice_append (c := c) hForward hLe
        rw [slice, List.take_length, hPassed, slice, List.take_length, List.append_assoc] at hParts
        exact hParts
      rw [hDrop] at hx
      exact absurd hy (hx.not_error hBefore)

theorem skipSeparators_spec {fuel : Nat} (h : At c s n) (hFuel : c.elements.length - n < fuel) :
    ∃ s' m, At c s' m ∧ n ≤ m ∧ (∀ y ∈ slice c n m, e.isSeparator y = .ok true) ∧
      (skipSeparators e c fuel s = .ok () s' ∨
        ∃ signal, skipSeparators e c fuel s = .error (.signal signal) s') := by
  induction fuel generalizing s n with
  | zero => omega
  | succ fuel ih =>
      have hNone : ∀ y ∈ slice c n n, e.isSeparator y = .ok true := by
        rw [slice_self]
        nofun
      by_cases hMore : n < c.elements.length
      · obtain ⟨s', hPeek, hAt⟩ := peek_eq h hMore
        have hTurn : skipSeparators e c (fuel + 1) s = (do
            if ← sent (e.isSeparator c.elements[n]) then
              move ((← get).position + 1)
              skipSeparators e c fuel
            else return () : Reader Unit) s' := by
          rw [skipSeparators, bind_of_ok (atEnd_eq h), decide_eq_false (by omega),
            if_neg Bool.false_ne_true, bind_of_ok hPeek, Option.getD_some]
        rw [hTurn]
        cases hSeparator : e.isSeparator c.elements[n] with
        | error signal => exact ⟨s', n, hAt, le_rfl, hNone, .inr ⟨signal, rfl⟩⟩
        | ok found =>
            cases found with
            | false => exact ⟨s', n, hAt, le_rfl, hNone, .inl rfl⟩
            | true =>
                have hMoved : At c { s' with position := s'.position + 1 } (n + 1) := by
                  rw [hAt.position]
                  exact hAt.move (m := n + 1) hMore
                obtain ⟨s'', m, hEnd, hForward, hAll, hRun⟩ := ih hMoved (by omega)
                refine ⟨s'', m, hEnd, by omega, ?_, hRun⟩
                intro y hy
                rw [slice_cons (by omega) hEnd.le] at hy
                rcases List.mem_cons.mp hy with rfl | hy
                · exact hSeparator
                · exact hAll y hy
      · have hLe := h.le
        refine ⟨s, n, h, le_rfl, hNone, .inl ?_⟩
        rw [skipSeparators, bind_of_ok (atEnd_eq h), decide_eq_true (by omega)]
        rfl

theorem consumes_skipSeparators (h : At c s n) : Consumes e c .skipSeparators s n := by
  obtain ⟨s', m, hAt, hForward, hAll, hRun | ⟨signal, hRun⟩⟩ :=
    skipSeparators_spec (e := e) h (turns_enough n)
  · refine ⟨.ok .self, s', m, slice c n m, ?_, nofun, hAt, hForward, hAll, rfl⟩
    rw [perform, bind_of_ok hRun]
    rfl
  · refine ⟨.error (.signal signal), s', m, slice c n m, ?_, nofun, hAt, hForward, hAll, rfl⟩
    rw [perform, bind_of_error hRun]
    rfl

/-! ## Runs -/

theorem skip_within (h : At c s n) (k : Int) : ∃ s' m, skip c k s = .ok () s' ∧ At c s' m := by
  let m : Nat := (min (max (s.position + k) 0) c.size).toNat
  have hSize : c.size = c.elements.length := rfl
  have hm : min (max (s.position + k) 0) c.size = (m : Int) := by omega
  have hLe : m ≤ c.elements.length := by omega
  refine ⟨{ s with position := (m : Int) }, m, ?_, h.move hLe⟩
  show EStateM.Result.ok () { s with position := min (max (s.position + k) 0) c.size } = _
  rw [hm]

/-- A step that keeps to the collection consumes elements or positions the stream within it. -/
theorem step_reads (h : At c s n) {step : Step O} {loops : Nat} {base : Int}
    {steps : List (Step O × Outcome O)} (hKeeps : Keeps e c ⟨s, loops, base, steps⟩ step) :
    (step.positions = true ∧ ∃ s' m, settle (perform e c step s) = (.ok .self, s') ∧ At c s' m) ∨
      step.positions = false ∧ Consumes e c step s n := by
  cases step with
  | next => exact .inr ⟨rfl, consumes_next h⟩
  | nextN k => exact .inr ⟨rfl, consumes_nextN h hKeeps⟩
  | peek => exact .inr ⟨rfl, consumes_peek h⟩
  | peekFor x => exact .inr ⟨rfl, consumes_peekFor h x⟩
  | skip k =>
      obtain ⟨s', m, hSkip, hAt⟩ := skip_within h k
      refine .inl ⟨rfl, s', m, ?_, hAt⟩
      rw [perform, bind_of_ok hSkip]
      rfl
  | skipSeparators => exact .inr ⟨rfl, consumes_skipSeparators h⟩
  | skipTo x => exact .inr ⟨rfl, consumes_skipTo h x⟩
  | upTo x =>
      refine .inr ⟨rfl, consumes_upTo h ?_⟩
      have hx : Comparable e x (c.elements.drop s.position.toNat) := hKeeps
      rwa [h.position, Int.toNat_natCast] at hx
  | upToEnd => exact .inr ⟨rfl, consumes_upToEnd h⟩
  | setPosition p =>
      obtain ⟨hLow, hHigh⟩ : 0 ≤ p ∧ p ≤ c.size := hKeeps
      unfold Readable.size at hHigh
      refine .inl ⟨rfl, { s with position := p }, p.toNat, rfl, ?_, by omega, h.reads⟩
      exact (Int.toNat_of_nonneg hLow).symm
  | reset => exact .inl ⟨rfl, { s with position := 0 }, 0, rfl, h.move (m := 0) (by omega)⟩
  | doEach => exact .inr ⟨rfl, consumes_doTurn h (.inl rfl)⟩
  | blockEnds => exact .inr ⟨rfl, consumes_doTurn h (.inr rfl)⟩
  | blockLeaves => exact .inr ⟨rfl, consumes_blockLeaves h⟩

theorem ReadsInOrder.at {s : Session O} (h : ReadsInOrder e c s) :
    At c s.stream s.stream.position.toNat := by
  obtain ⟨hLow, hHigh⟩ := h.within
  unfold Readable.size at hHigh
  exact ⟨(Int.toNat_of_nonneg hLow).symm, by omega, h.reads⟩

theorem At.within (h : At c s n) : 0 ≤ s.position ∧ s.position ≤ c.size := by
  have hLe := h.le
  rw [h.position, Readable.size]
  omega

/-- What a step of a session preserves. -/
theorem ReadsInOrder.step {s t : Session O} (h : ReadsInOrder e c s) {step : Step O}
    (hKeeps : Keeps e c s step) (hStep : (session e c).step s step = some t) :
    ReadsInOrder e c t := by
  obtain ⟨loops, -, hAfter⟩ := Option.map_eq_some_iff.mp hStep
  rcases step_reads h.at hKeeps with ⟨hPositions, s', m, hSettle, hAt⟩ |
    ⟨hConsumes, outcome, s', m, passed, hSettle, hEnds, hAt, hForward, hPassed, hSlice⟩
  · have hSession : t = ⟨s', loopsAfter loops step (.ok .self), s'.position, []⟩ := by
      rw [← hAfter, hSettle]
      dsimp only [Session.after]
      rw [if_pos hPositions, if_pos hPositions]
    subst hSession
    have hNone : between c.elements (s'.position + 1) s'.position = [] := by
      rw [hAt.position, between_eq_slice, slice_self]
    refine ⟨hAt.within, hAt.reads, nofun, ⟨hAt.within.1, le_rfl⟩, ?_⟩
    rw [hNone]
    exact .nil
  · have hSession : t = ⟨s', loopsAfter loops step outcome, s.base,
      (step, outcome) :: s.steps⟩ := by
      rw [← hAfter, hSettle]
      dsimp only [Session.after]
      rw [hConsumes]
      rfl
    subst hSession
    obtain ⟨hBase, hBefore⟩ := h.forward
    have hHere := h.at.position
    refine ⟨hAt.within, hAt.reads, ?_, ⟨hBase, ?_⟩, ?_⟩
    · intro earlier hEarlier
      rcases List.mem_cons.mp hEarlier with rfl | hEarlier
      · exact hEnds
      · exact h.ends earlier hEarlier
    · show s.base ≤ s'.position
      rw [hAt.position]
      omega
    · have hStart : s.base = (s.base.toNat : Int) := (Int.toNat_of_nonneg hBase).symm
      have hOrdered := h.ordered
      rw [hStart, hHere, between_eq_slice] at hOrdered
      show Delivers e ((step, outcome) :: s.steps) (between c.elements (s.base + 1) s'.position)
      rw [hStart, hAt.position, between_eq_slice,
        slice_append (m := s.stream.position.toNat) (by omega) hForward, hSlice]
      exact .step step outcome hOrdered hPassed

/-- A session that keeps to its collection answers the elements in order. -/
theorem session_reads {s : Session O} (h : (session e c).Reach (Keeps e c) s) :
    ReadsInOrder e c s := by
  refine h.invariant (fun s hInit => ?_) fun _ _ _ _ hReads hKeeps hStep => hReads.step hKeeps hStep
  subst hInit
  refine ⟨⟨le_rfl, Int.natCast_nonneg _⟩, nofun, nofun, ⟨le_rfl, le_rfl⟩, ?_⟩
  have hNone : between c.elements (0 + 1) 0 = [] := between_eq_slice 0 0
  show Delivers e [] (between c.elements (0 + 1) 0)
  rw [hNone]
  exact .nil

end Within

/-! ## Sessions on strings -/

/-- Characters, whose comparisons do not signal. -/
def characters : Elements Nat where
  nil := 0
  equals x y := .ok (x == y)
  isSeparator x := .ok ([32, 9, 10, 13, 12].contains x)

/-- The string of some ASCII codes. -/
def ascii (codes : List Nat) (h : ∀ c ∈ codes, 0 < c ∧ c ≤ 0x10FFFF) : Readable Nat :=
  Readable.string Strings.decoding ⟨codes, h⟩

/-- A session that keeps to `'ab c'`, with a loop whose block is left. -/
theorem session_reads_string :
    ∃ s, (session characters (ascii [97, 98, 32, 99] (by decide))).exec ⟨⟨0, []⟩, 0, 0, []⟩
        [.next, .upTo 32, .doEach, .blockLeaves] = some s ∧
      ReadsInOrder characters (ascii [97, 98, 32, 99] (by decide)) s := by
  with_unfolding_all
    refine ⟨_, rfl, session_reads (.step .blockLeaves (.step .doEach (.step (.upTo 32) (.step .next
      (.init rfl) trivial rfl) ?_ rfl) trivial rfl) trivial rfl)⟩
  exact .inr ⟨rfl, .inl rfl⟩

/-- `position: -1` leaves the collection. -/
theorem not_readsInOrder :
    ∃ s, (session characters (ascii [97, 98] (by decide))).Reachable s ∧
      ¬ ReadsInOrder characters (ascii [97, 98] (by decide)) s := by
  refine ⟨_, .step (.setPosition (-1)) (.init rfl) trivial rfl, fun h => ?_⟩
  exact absurd h.within.1 (by decide)

end ProtoST.Kernel.ReadStreams

import ProtoST.Kernel.Rationals
import ProtoST.Lib.EffectfulSort
import ProtoST.Primitives.NativeIntervals

/-!
# Intervals and loops of Numbers

NumericInterval, the methods of Interval that are inherited by both, and the loops of Numbers
(`lib/kernel/collection.st`), over Integers and Fractions.  A block is a method over any state,
and leaves in any way.

## Main results

* `progressions_agree` — every way to run through a progression visits its terms in order; those
  that copy an interval that is not native into an Array do so while an `int` holds its indices.
* `toBy_not_copied` — an interval that is too long to be copied.
-/

namespace ProtoST.Kernel.Intervals

open ProtoST.Kernel.Fractions
open ProtoST.Lib (bind_of_error)
open ProtoST.Lib.Progression (count loop term terms)
open ProtoST.Primitives
open ProtoST.Primitives.IntegerDivision (Division Signal answer toInt)
open ProtoST.Primitives.NativeIntervals
  (Elements ListCore Method NativeInterval Stop isSmallInt sent)
open ProtoST.Primitives.WideBits (asLong)

/-- What a collection holds: `nil` or a number. -/
abbrev Object := Option Number

inductive Interval where
  | native (iv : NativeInterval)
  | numeric (start stop step : Number)

/-- A `long long`, as an object. -/
def fromLong (n : Int) : Object := some (.integer n)

def one : Number := .integer 1

section Methods

variable (core : Division)

/-! ## Making an interval -/

/-- `NumericInterval class >> from:to:by:` -/
def numericInterval (start stop step : Number) : Sent Interval := do
  if ← Number.eq step (.integer 0) then
    .error (.error "the step of an Interval must not be zero")
  else return .numeric start stop step

/-- `isNativeIntervalTo:by:` -/
def isNativeInterval (n : Int) (stop step : Number) : Sent Bool :=
  match stop, step with
  | .integer b, .integer d =>
      if isSmallInt n && isSmallInt b && isSmallInt d && d != 0 then do
        if (← answer (IntegerDivision.mod core (b - n) d)) ≠ 0 then return false
        else return decide ((← answer (IntegerDivision.intDiv core (b - n) d)) ≥ 1)
      else .ok false
  | _, _ => .ok false

/-- `Number >> to:by:`, of the primitive. -/
def nativeToBy (n b d : Int) : Sent Interval := do
  return .native ⟨← asLong n, ← asLong b, ← asLong d⟩

/-- `to:` -/
def Number.to : Number → Number → Sent Interval
  | .integer n, .integer b =>
      if isSmallInt n && isSmallInt b && decide (b > n) then nativeToBy n b 1
      else numericInterval (.integer n) (.integer b) one
  | start, stop => numericInterval start stop one

/-- `to:by:` -/
def Number.toBy : Number → Number → Number → Sent Interval
  | .integer n, stop, step => do
      match ← isNativeInterval core n stop step, stop, step with
      | true, .integer b, .integer d => nativeToBy n b d
      | _, _, _ => numericInterval (.integer n) stop step
  | .fraction f, stop, step => numericInterval (.fraction f) stop step

/-! ## Loops -/

section Loops

variable {E σ : Type} (fuel : Nat) (block : Number → Method E σ Unit)

/-- `Number >> numericTo:by:do:` -/
def numericToByDo (start stop step : Number) : Method E σ Unit := do
  if ← sent (Number.eq step (.integer 0)) then
    throw (.signal (.error "the step of a loop must not be zero"))
  else if ← sent (Number.gt core step (.integer 0)) then
    loop (throw .fuel) (fun value => sent (Number.le core value stop)) block
      (fun value => sent (Number.add core value step)) fuel start
  else
    loop (throw .fuel) (fun value => sent (Number.ge core value stop)) block
      (fun value => sent (Number.add core value step)) fuel start

/-- `to:by:do:` -/
def Number.toByDo (start stop step : Number) : Method E σ Unit :=
  match start, stop, step with
  | .integer n, .integer b, .integer d =>
      if isSmallInt n && isSmallInt b && isSmallInt d then
        NativeIntervals.toByDo fuel n b (fun i => block (.integer i)) d
      else numericToByDo core fuel block start stop step
  | _, _, _ => numericToByDo core fuel block start stop step

/-- `to:do:` -/
def Number.toDo (start stop : Number) : Method E σ Unit :=
  match start, stop with
  | .integer n, .integer b =>
      if isSmallInt n && isSmallInt b then
        NativeIntervals.toDo fuel n b (fun i => block (.integer i))
      else numericToByDo core fuel block start stop one
  | _, _ => numericToByDo core fuel block start stop one

/-- `to:do:` with a literal block, as the compiler inlines it. -/
def inlinedToDo (start stop : Number) : Method E σ Unit :=
  loop (throw .fuel) (fun i => sent (Number.le core i stop)) block
    (fun i => sent (Number.add core i one)) fuel start

end Loops

/-! ## NumericInterval -/

/-- `size` -/
def numericSize (start stop step : Number) : Sent Number := do
  let quotient ← Number.div core (← Number.sub core stop start) step
  Number.max core (← Number.add core (← Number.floor core quotient) one) (.integer 0)

/-- `start + ((i - 1) * step)` -/
def numericElement (start step i : Number) : Sent Number := do
  Number.add core start (← Number.mul core (← Number.sub core i one) step)

/-- `between:and:` -/
def Number.between (x min max : Number) : Sent Bool := do
  if ← Number.le core min x then Number.le core x max else return false

def printString : Number → String
  | .integer n => toString n
  | .fraction f => "(" ++ toString f.numerator ++ "/" ++ toString f.denominator ++ ")"

/-- `at:` -/
def numericAt (start stop step index : Number) : Sent Number := do
  let size ← numericSize core start stop step
  if ← Number.between core index one size then numericElement core start step index
  else .error (.error ("Interval>>at:: index " ++ printString index ++ " out of range 1.." ++
    printString size))

/-! ## Arrays -/

/-- What protoCore reads from a number; it has no integer for an object. -/
def longOf : Number → Sent Int
  | .integer n => asLong n
  | .fraction _ => .error (.error "not an integer")

/-- `Array new:` -/
def arrayNew (size : Number) : Sent (List Object) := do
  let n ← longOf size
  if n < 0 then .error (.error "Array new: negative size")
  else return List.replicate n.toNat none

variable (lists : ListCore Object)

/-- `at:put:` of an Array. -/
def atPut (array : List Object) (index : Number) (value : Object) : Sent (List Object) := do
  let idx1 ← longOf index
  if idx1 < 1 ∨ idx1 > array.length then
    .error (.classed "SubscriptOutOfBounds" ("Array>>at:put: index " ++ toString idx1 ++
      " out of range 1.." ++ toString array.length))
  else return lists.setAt array (toInt (idx1 - 1)) value

variable {E σ β : Type} (fuel : Nat)

/-- A turn of the loop of `asArray`. -/
def fill (start step i : Number) : Method E (List Object) Unit := do
  let value ← sent (numericElement core start step i)
  let array ← get
  set (← sent (atPut lists array i (some value)))

/-- `NumericInterval >> asArray` -/
def numericAsArray (start stop step : Number) : Method E σ (List Object) := do
  let array ← sent (do arrayNew (← numericSize core start stop step))
  let run : Method E (List Object) Unit :=
    inlinedToDo core fuel (fill core lists start step) one (.integer array.length)
  match run array with
  | .ok _ array => pure array
  | .error e _ => throw e

/-! ## The methods of both -/

namespace Interval

def size : Interval → Sent Number
  | native iv => .ok (.integer iv.size)
  | numeric start stop step => numericSize core start stop step

/-- `at:` -/
def elementAt (index : Int) : Interval → Sent Number
  | native iv => (iv.elementAt index).map .integer
  | numeric start stop step => numericAt core start stop step (.integer index)

def first : Interval → Sent Number
  | native iv => iv.first.map .integer
  | numeric start stop step => numericAt core start stop step one

def last : Interval → Sent Number
  | native iv => iv.last.map .integer
  | numeric start stop step => do
      numericAt core start stop step (← numericSize core start stop step)

/-- `do:` -/
def doEach (block : Object → Method E σ Unit) : Interval → Method E σ Unit
  | native iv => iv.doEach lists fromLong block
  | numeric start stop step => do
      let size ← sent (numericSize core start stop step)
      inlinedToDo core fuel (fun i => do block (some (← sent (numericElement core start step i))))
        one size

/-- `self at: i`, of an index that the loop of `reverseDo:` yields. -/
def elementAtNumber (iv : Interval) : Number → Sent Number
  | .integer i => iv.elementAt core i
  | .fraction _ => .error (.error "not an integer")

/-- `SequenceableCollection >> reverseDo:` -/
def reverseDo (block : Object → Method E σ Unit) (iv : Interval) : Method E σ Unit := do
  let size ← sent (iv.size core)
  Number.toByDo core fuel (fun i => do block (some (← sent (iv.elementAtNumber core i)))) size one
    (.integer (-1))

/-- What the derived protocol runs over. -/
def elements : Interval → Method E σ (Elements Object)
  | native iv => pure (.interval iv)
  | numeric start stop step => do
      return .array (← numericAsArray core lists fuel start stop step)

def asArray (iv : Interval) : Method E σ (List Object) :=
  match iv with
  | native iv => pure (NativeIntervals.asArray lists fromLong (.interval iv))
  | numeric start stop step => numericAsArray core lists fuel start stop step

def collect (block : Object → Method E σ β) (iv : Interval) : Method E σ (List β) := do
  NativeIntervals.collect lists fromLong (← iv.elements core lists fuel) block

def anySatisfy (block : Object → Method E σ Bool) (iv : Interval) : Method E σ Bool := do
  NativeIntervals.anySatisfy lists fromLong (← iv.elements core lists fuel) block

/-- `each = anObject` -/
def isEqual (x : Number) : Object → Sent Bool
  | some each => Number.eq each x
  | none => .ok false

/-- `Collection >> includes:` -/
def includes (x : Number) (iv : Interval) : Method E σ Bool :=
  iv.anySatisfy core lists fuel fun each => sent (isEqual x each)

end Interval

end Methods

/-! ## Numbers as rationals -/

theorem one_eq_ofRat : one = ofRat 1 := by
  rw [one, ← ofRat_intCast, Int.cast_one]

theorem zero_eq_ofRat : Number.integer 0 = ofRat 0 := by
  rw [← ofRat_intCast, Int.cast_zero]

/-! ## The elements of a NumericInterval -/

section Numeric

variable (core : Division) (a b : ℚ) {d : ℚ}

theorem numericSize_eq (hd : d ≠ 0) :
    numericSize core (ofRat a) (ofRat b) (ofRat d) = .ok (.integer (count a b d)) := by
  have hAdd : Number.add core (.integer ⌊(b - a) / d⌋) one =
      .ok (.integer (⌊(b - a) / d⌋ + 1)) := rfl
  have hMax (n : Int) : Number.max core (.integer n) (.integer 0) = .ok (.integer n.toNat) := by
    have h := answers_eq (Number.max_answers core (x := .integer n) (y := .integer 0) trivial
      trivial)
    rw [h]
    refine congrArg Except.ok ?_
    rw [show Max.max (Number.integer n).value (Number.integer 0).value = ((n.toNat : Int) : ℚ) by
      rw [Int.toNat_eq_max]
      push_cast
      rfl, ofRat_intCast]
  unfold numericSize
  rw [sub_ofRat]
  show (do
    let quotient ← Number.div core (ofRat (b - a)) (ofRat d)
    Number.max core (← Number.add core (← Number.floor core quotient) one) (.integer 0)) = _
  rw [div_ofRat core _ hd]
  show (do
    Number.max core (← Number.add core (← Number.floor core (ofRat ((b - a) / d))) one)
      (.integer 0)) = _
  rw [floor_ofRat]
  exact (congrArg (fun s => s >>= fun x => Number.max core x (.integer 0)) hAdd).trans (hMax _)

theorem numericElement_eq (a d : ℚ) (k : Nat) :
    numericElement core (ofRat a) (ofRat d) (.integer ((k : Int) + 1)) =
      .ok (ofRat (term a d k)) := by
  have hSub : Number.sub core (.integer ((k : Int) + 1)) one = .ok (ofRat k) := by
    have hCast : ((k : Int) : ℚ) = (k : ℚ) := Int.cast_natCast k
    rw [← hCast, ofRat_intCast]
    exact congrArg (fun n => Except.ok (Number.integer n)) (by omega)
  unfold numericElement
  rw [hSub]
  show (do Number.add core (ofRat a) (← Number.mul core (ofRat k) (ofRat d))) = _
  rw [mul_ofRat]
  exact add_ofRat core a _

end Numeric

/-! ## The loops of Numbers -/

section NumericLoops

variable (core : Division) {a b d : ℚ} {E σ : Type} {fuel : Nat} (block : Number → Method E σ Unit)

/-- Bodies that agree on a range. -/
theorem forM_congr_range {m : Type → Type} [Monad m] {f g : Nat → m Unit} {n : Nat}
    (h : ∀ k < n, f k = g k) : forM (List.range n) f = forM (List.range n) g := by
  have hAll (xs : List Nat) (hxs : ∀ k ∈ xs, f k = g k) : forM xs f = forM xs g := by
    induction xs with
    | nil => rfl
    | cons k xs ih =>
        rw [List.forM_cons, List.forM_cons, hxs k List.mem_cons_self,
          ih fun j hj => hxs j (List.mem_cons_of_mem k hj)]
  exact hAll _ fun k hk => h k (List.mem_range.mp hk)

/-- A body for the terms of a progression. -/
theorem forM_terms {m : Type → Type} [Monad m] [LawfulMonad m] (body : Number → m Unit) :
    (forM (List.range (count a b d)) fun k => body (ofRat (term a d k))) =
      forM ((terms a b d).map ofRat) body := by
  rw [terms, List.map_map, List.forM_map]
  rfl

theorem add_term (k : Nat) :
    sent (Number.add core (ofRat (term a d k)) (ofRat d)) =
      (pure (ofRat (term a d (k + 1))) : Method E σ Number) := by
  rw [add_ofRat, ← Lib.Progression.term_succ]
  rfl

/-- A loop whose test tells the terms from what follows them runs over the terms. -/
theorem loop_terms {test : Number → Method E σ Bool} {p : Rat → Prop} [DecidablePred p]
    (hTest : ∀ q, test (ofRat q) = pure (decide (p q)))
    (hp : ∀ k, p (term a d k) ↔ k < count a b d) (hFuel : count a b d < fuel) :
    loop (throw .fuel) test block (fun value => sent (Number.add core value (ofRat d))) fuel
      (ofRat a) = forM ((terms a b d).map ofRat) block := by
  have hStart : ofRat a = ofRat (term a d 0) := by rw [Lib.Progression.term_zero]
  rw [hStart, Lib.Progression.loop_eq (fun k => ofRat (term a d k))
    (fun k hk => by rw [hTest, decide_eq_true ((hp k).mpr hk)])
    (fun k _ => add_term core k)
    (by rw [hTest, decide_eq_false fun h => Nat.lt_irrefl _ ((hp _).mp h)]) hFuel]
  exact forM_terms block

theorem loop_le (hd : 0 < d) (hFuel : count a b d < fuel) :
    loop (throw .fuel) (fun value => sent (Number.le core value (ofRat b))) block
      (fun value => sent (Number.add core value (ofRat d))) fuel (ofRat a) =
      forM ((terms a b d).map ofRat) block :=
  loop_terms core block (fun q => by rw [le_ofRat]; rfl)
    (fun _ => Lib.Progression.term_le_iff hd) hFuel

theorem loop_ge (hd : d < 0) (hFuel : count a b d < fuel) :
    loop (throw .fuel) (fun value => sent (Number.ge core value (ofRat b))) block
      (fun value => sent (Number.add core value (ofRat d))) fuel (ofRat a) =
      forM ((terms a b d).map ofRat) block :=
  loop_terms core block (fun q => by rw [ge_ofRat]; rfl)
    (fun _ => Lib.Progression.le_term_iff hd) hFuel

/-- The loop by repeated addition. -/
theorem numericToByDo_eq (hd : d ≠ 0) (hFuel : count a b d < fuel) :
    numericToByDo core fuel block (ofRat a) (ofRat b) (ofRat d) =
      forM ((terms a b d).map ofRat) block := by
  unfold numericToByDo
  rw [eq_zero_ofRat, decide_eq_false hd, zero_eq_ofRat, gt_ofRat]
  by_cases hPos : 0 < d
  · rw [decide_eq_true hPos]
    exact loop_le core block hPos hFuel
  · rw [decide_eq_false hPos]
    exact loop_ge core block (lt_of_le_of_ne (not_lt.mp hPos) hd) hFuel

theorem numericToByDo_zero (start stop : Number) (s : σ) :
    numericToByDo core fuel block start stop (ofRat 0) s =
      .error (.signal (.error "the step of a loop must not be zero")) s := by
  unfold numericToByDo
  rw [eq_zero_ofRat, decide_eq_true rfl]
  rfl

/-- The inlined loop. -/
theorem inlinedToDo_eq (hFuel : count a b 1 < fuel) :
    inlinedToDo core fuel block (ofRat a) (ofRat b) = forM ((terms a b 1).map ofRat) block := by
  unfold inlinedToDo
  rw [one_eq_ofRat]
  exact loop_le core block one_pos hFuel

end NumericLoops

/-! ## SmallIntegers -/

section Small

variable {a b d : Int}

theorem count_int (hd : d ≠ 0) : count (a : ℚ) b d = ((b - a).fdiv d + 1).toNat := by
  rw [count, fdiv_eq_floor _ hd]
  push_cast
  rfl

theorem cast_term (k : Nat) : ((a + k * d : Int) : ℚ) = term (a : ℚ) d k := by
  rw [term]
  push_cast
  rfl

/-- The terms of SmallIntegers are between them. -/
theorem term_small (ha : isSmallInt a = true) (hb : isSmallInt b = true) (hd : d ≠ 0) {k : Nat}
    (hk : k < count (a : ℚ) b d) : isSmallInt (a + k * d) = true := by
  rw [NativeIntervals.isSmallInt_iff] at ha hb ⊢
  rcases lt_or_gt_of_ne hd with hNeg | hPos
  · have hTerm := (Lib.Progression.le_term_iff (Int.cast_lt_zero.mpr hNeg)).mpr hk
    rw [← cast_term, Int.cast_le] at hTerm
    have hSide : (k : Int) * d ≤ 0 :=
      Int.mul_nonpos_of_nonneg_of_nonpos (Int.natCast_nonneg k) hNeg.le
    omega
  · have hTerm := (Lib.Progression.term_le_iff (Int.cast_pos.mpr hPos)).mpr hk
    rw [← cast_term, Int.cast_le] at hTerm
    have hSide : 0 ≤ (k : Int) * d := Int.mul_nonneg (Int.natCast_nonneg k) hPos.le
    omega

theorem mul_step_small (ha : isSmallInt a = true) (hb : isSmallInt b = true) (hd : d ≠ 0) {k : Nat}
    (hk : k < count (a : ℚ) b d) : -0x40000000000000 < k * d ∧ k * d < 0x40000000000000 := by
  have hTerm := term_small ha hb hd hk
  rw [NativeIntervals.isSmallInt_iff] at ha hTerm
  omega

theorem count_small (ha : isSmallInt a = true) (hb : isSmallInt b = true) (hd : d ≠ 0) :
    count (a : ℚ) b d ≤ 0x40000000000000 := by
  by_contra hMany
  obtain ⟨hLow, hHigh⟩ := mul_step_small ha hb hd (k := 0x40000000000000) (by omega)
  push_cast at hLow hHigh
  omega

/-- The size of a stride of the side of its bound. -/
theorem stride_size {n d : Int} (hn : 0 ≤ n) (hHigh : n < 0x80000000000000) (hd : 0 < d) :
    NativeIntervals.wrap (NativeIntervals.wrap ((NativeIntervals.wrap n).tdiv d) + 1) =
      (n.fdiv d + 1).toNat := by
  have hLow : 0 ≤ n / d := Int.ediv_nonneg hn hd.le
  have hLe : n / d ≤ n := Int.ediv_le_self d hn
  rw [NativeIntervals.wrap_eq (n := n) (by omega) (by omega), Int.tdiv_eq_ediv_of_nonneg hn,
    NativeIntervals.wrap_eq (n := n / d) (by omega) (by omega),
    NativeIntervals.wrap_eq (by omega) (by omega), Int.fdiv_eq_ediv_of_nonneg n hd.le]
  omega

theorem stride_empty {n d : Int} (hn : n < 0) (hd : 0 < d) : (n.fdiv d + 1).toNat = 0 := by
  have hNeg : n / d < 0 := Int.ediv_neg_of_neg_of_pos hn hd
  rw [Int.fdiv_eq_ediv_of_nonneg n hd.le]
  omega

theorem intervalSize_eq (ha : isSmallInt a = true) (hb : isSmallInt b = true)
    (hs : isSmallInt d = true) (hd : d ≠ 0) :
    NativeIntervals.intervalSize a b d = count (a : ℚ) b d := by
  rw [NativeIntervals.isSmallInt_iff] at ha hb hs
  rw [count_int hd]
  unfold NativeIntervals.intervalSize
  rw [if_neg hd]
  by_cases hPos : d > 0
  · rw [if_pos hPos]
    split
    next hEmpty => rw [stride_empty (by omega) hPos, Int.natCast_zero]
    next hReach => exact stride_size (by omega) (by omega) hPos
  · have hNegStep : 0 < -d := by omega
    have hFlip : (b - a).fdiv d = (a - b).fdiv (-d) := by
      rw [← Int.neg_fdiv_neg, Int.neg_sub]
    rw [if_neg hPos, hFlip]
    split
    next hEmpty => rw [stride_empty (by omega) hNegStep, Int.natCast_zero]
    next hReach =>
      rw [NativeIntervals.wrap_eq (n := -d) (by omega) (by omega)]
      exact stride_size (by omega) (by omega) hNegStep

/-! ## The loops of SmallIntegers -/

section NativeLoops

variable {E σ : Type} {fuel : Nat} (block : Number → Method E σ Unit)

/-- A body for the terms of a progression of integers. -/
theorem forM_ints {m : Type → Type} [Monad m] [LawfulMonad m] (body : Number → m Unit) :
    (forM (List.range (count (a : ℚ) b d)) fun k : Nat => body (.integer (a + k * d))) =
      forM ((terms (a : ℚ) b d).map ofRat) body := by
  rw [← forM_terms]
  refine congrArg _ (funext fun k => ?_)
  rw [← cast_term, ofRat_intCast]

/-- The step of a loop, which does not overflow. -/
theorem wrap_step (ha : isSmallInt a = true) (hb : isSmallInt b = true) (hs : isSmallInt d = true)
    (hd : d ≠ 0) {k : Nat} (hk : k < count (a : ℚ) b d) :
    NativeIntervals.wrap (a + k * d + d) = a + (k + 1 : Nat) * d := by
  have hTerm := term_small ha hb hd hk
  rw [NativeIntervals.isSmallInt_iff] at hs hTerm
  rw [NativeIntervals.wrap_eq (by omega) (by omega)]
  push_cast
  ring

theorem native_toByDo_eq (ha : isSmallInt a = true) (hb : isSmallInt b = true)
    (hs : isSmallInt d = true) (hd : d ≠ 0) (hFuel : count (a : ℚ) b d < fuel) :
    NativeIntervals.toByDo fuel a b (fun i => block (.integer i)) d =
      forM ((terms (a : ℚ) b d).map ofRat) block := by
  have hStart : a = a + ((0 : Nat) : Int) * d := by simp
  have hNext (k : Nat) (hk : k < count (a : ℚ) b d) :
      (pure (NativeIntervals.wrap (a + k * d + d)) : Method E σ Int) =
        pure (a + (k + 1 : Nat) * d) := by
    rw [wrap_step ha hb hs hd hk]
  unfold NativeIntervals.toByDo
  rw [NativeIntervals.asLong_small ha, NativeIntervals.asLong_small hb,
    NativeIntervals.asLong_small hs]
  show (if d = 0 then _ else if d > 0 then _ else _) = _
  rw [if_neg hd, ← forM_ints]
  by_cases hPos : d > 0
  · have hTest (k : Nat) : a + k * d ≤ b ↔ k < count (a : ℚ) b d := by
      rw [← Lib.Progression.term_le_iff (Int.cast_pos.mpr hPos), ← cast_term, Int.cast_le]
    rw [if_pos hPos]
    conv_lhs => rw [hStart]
    exact Lib.Progression.loop_eq (fun k : Nat => a + k * d)
      (fun k hk => congrArg pure (decide_eq_true ((hTest k).mpr hk))) hNext
      (congrArg pure (decide_eq_false fun h => Nat.lt_irrefl _ ((hTest _).mp h))) hFuel
  · have hNeg : d < 0 := by omega
    have hTest (k : Nat) : a + k * d ≥ b ↔ k < count (a : ℚ) b d := by
      rw [← Lib.Progression.le_term_iff (Int.cast_lt_zero.mpr hNeg), ← cast_term, ge_iff_le,
        Int.cast_le]
    rw [if_neg hPos]
    conv_lhs => rw [hStart]
    exact Lib.Progression.loop_eq (fun k : Nat => a + k * d)
      (fun k hk => congrArg pure (decide_eq_true ((hTest k).mpr hk))) hNext
      (congrArg pure (decide_eq_false fun h => Nat.lt_irrefl _ ((hTest _).mp h))) hFuel

theorem native_toDo_eq (ha : isSmallInt a = true) (hb : isSmallInt b = true)
    (hFuel : count (a : ℚ) b 1 < fuel) :
    NativeIntervals.toDo fuel a b (fun i => block (.integer i)) =
      forM ((terms (a : ℚ) b 1).map ofRat) block := by
  have hSame : NativeIntervals.toDo fuel a b (fun i => block (.integer i)) =
      NativeIntervals.toByDo fuel a b (fun i => block (.integer i)) 1 := by
    unfold NativeIntervals.toDo NativeIntervals.toByDo
    rw [NativeIntervals.asLong_small ha, NativeIntervals.asLong_small hb]
    rfl
  have hOne : ((1 : Int) : ℚ) = 1 := Int.cast_one
  have h := native_toByDo_eq block ha hb (d := 1) (by decide) one_ne_zero (by rwa [hOne])
  rw [hSame, h, hOne]

end NativeLoops

end Small

/-! ## The loops -/

section AnyLoops

variable (core : Division) {E σ : Type} {fuel : Nat} (block : Number → Method E σ Unit)

theorem toByDo_eq {a b d : ℚ} (hd : d ≠ 0) (hFuel : count a b d < fuel) :
    Number.toByDo core fuel block (ofRat a) (ofRat b) (ofRat d) =
      forM ((terms a b d).map ofRat) block := by
  have hNumeric := numericToByDo_eq core block hd hFuel
  unfold Number.toByDo
  split
  next n m k hn hm hk =>
    split
    next hSmall =>
      simp only [Bool.and_eq_true] at hSmall
      have ha : a = (n : ℚ) := by rw [← value_ofRat a, hn]; rfl
      have hb : b = (m : ℚ) := by rw [← value_ofRat b, hm]; rfl
      have hdk : d = (k : ℚ) := by rw [← value_ofRat d, hk]; rfl
      rw [ha, hb, hdk] at hFuel ⊢
      exact native_toByDo_eq block hSmall.1.1 hSmall.1.2 hSmall.2
        (fun hZero => hd (by rw [hdk, hZero, Int.cast_zero])) hFuel
    next => exact hNumeric
  next => exact hNumeric

theorem toDo_eq {a b : ℚ} (hFuel : count a b 1 < fuel) :
    Number.toDo core fuel block (ofRat a) (ofRat b) = forM ((terms a b 1).map ofRat) block := by
  have hNumeric := numericToByDo_eq core block one_ne_zero hFuel
  rw [← one_eq_ofRat] at hNumeric
  unfold Number.toDo
  split
  next n m hn hm =>
    split
    next hSmall =>
      rw [Bool.and_eq_true] at hSmall
      have ha : a = (n : ℚ) := by rw [← value_ofRat a, hn]; rfl
      have hb : b = (m : ℚ) := by rw [← value_ofRat b, hm]; rfl
      rw [ha, hb] at hFuel ⊢
      exact native_toDo_eq block hSmall.1 hSmall.2 hFuel
    next => exact hNumeric
  next => exact hNumeric

theorem toByDo_zero (start stop : Number) (s : σ) :
    ∃ signal, Number.toByDo core fuel block start stop (.integer 0) s =
      .error (.signal signal) s := by
  have hNumeric (x y : Number) : numericToByDo core fuel block x y (.integer 0) s =
      .error (.signal (.error "the step of a loop must not be zero")) s := by
    rw [zero_eq_ofRat]
    exact numericToByDo_zero core block x y s
  cases start with
  | fraction f => exact ⟨_, hNumeric _ _⟩
  | integer n =>
      cases stop with
      | fraction g => exact ⟨_, hNumeric _ _⟩
      | integer m =>
          unfold Number.toByDo
          dsimp only
          split
          next hSmall =>
            simp only [Bool.and_eq_true] at hSmall
            refine ⟨.error "to:by:do: step must be non-zero", ?_⟩
            unfold NativeIntervals.toByDo
            rw [NativeIntervals.asLong_small hSmall.1.1, NativeIntervals.asLong_small hSmall.1.2]
            rfl
          next => exact ⟨_, hNumeric _ _⟩

/-- A loop over the indices from 1. -/
theorem indexLoop_eq {n : Nat} (hFuel : n < fuel) :
    inlinedToDo core fuel block one (.integer n) =
      forM (List.range n) fun k : Nat => block (.integer (k + 1)) := by
  have hCount : count (1 : ℚ) ((n : Int) : ℚ) 1 = n := by
    have h := count_int (a := 1) (b := n) (d := 1) one_ne_zero
    rw [Int.cast_one, Int.fdiv_one] at h
    omega
  have hTerm (k : Nat) : ofRat (term 1 1 k) = .integer (k + 1) := by
    have h := cast_term (a := 1) (d := 1) k
    rw [Int.cast_one] at h
    rw [← h, ofRat_intCast]
    congr 1
    omega
  rw [one_eq_ofRat, ← ofRat_intCast, inlinedToDo_eq core block (by rwa [hCount]), ← forM_terms,
    hCount]
  exact congrArg _ (funext fun k => by rw [hTerm])

end AnyLoops

/-! ## What an interval is -/

/-- The Numbers of a progression. -/
def values (start stop step : Number) : List Number :=
  (terms start.value stop.value step.value).map ofRat

section Lists

variable (core : Division) (lists : ListCore Object)

/-- The methods that read an interval, against a list. -/
structure Interval.Lists (iv : Interval) (xs : List Number) : Prop where
  size : iv.size core = .ok (.integer xs.length)
  elementAt : ∀ (k : Nat) (x : Number), xs[k]? = some x → iv.elementAt core (k + 1) = .ok x
  elementAt_out : ∀ i : Int, i < 1 ∨ xs.length < i → ∃ s, iv.elementAt core i = .error s
  first : ∀ x, xs.head? = some x → iv.first core = .ok x
  last : ∀ x, xs.getLast? = some x → iv.last core = .ok x
  empty : xs = [] → (∃ s, iv.first core = .error s) ∧ ∃ s, iv.last core = .error s
  doEach : ∀ {E σ : Type} (fuel : Nat) (block : Object → Method E σ Unit), xs.length < fuel →
    iv.doEach core lists fuel block = forM xs fun x => block (some x)
  reverseDo : ∀ {E σ : Type} (fuel : Nat) (block : Object → Method E σ Unit), xs.length < fuel →
    iv.reverseDo core fuel block = forM xs.reverse fun x => block (some x)

/-- The methods that may copy an interval into an Array, against a list. -/
structure Interval.Copies (iv : Interval) (xs : List Number) : Prop where
  asArray : ∀ {E σ : Type} (fuel : Nat), xs.length < fuel →
    (iv.asArray core lists fuel : Method E σ (List Object)) = pure (xs.map some)
  collect : ∀ {E σ β : Type} (fuel : Nat) (block : Object → Method E σ β), xs.length < fuel →
    iv.collect core lists fuel block = xs.mapM fun x => block (some x)
  includes : ∀ {E σ : Type} (fuel : Nat) (x : Number), x.Canonical → xs.length < fuel →
    (iv.includes core lists fuel x : Method E σ Bool) = pure (decide (x ∈ xs))

variable {core lists}

/-- `reverseDo:`, from `size` and `at:`. -/
theorem reverseDo_eq {iv : Interval} {xs : List Number} {E σ : Type} {fuel : Nat}
    (hSize : iv.size core = .ok (.integer xs.length))
    (hAt : ∀ (k : Nat) (x : Number), xs[k]? = some x → iv.elementAt core (k + 1) = .ok x)
    (block : Object → Method E σ Unit) (hFuel : xs.length < fuel) :
    iv.reverseDo core fuel block = forM xs.reverse fun x => block (some x) := by
  have hCount : count ((xs.length : Int) : ℚ) 1 (-1) = xs.length := by
    have h := count_int (a := xs.length) (b := 1) (d := -1) (by decide)
    rw [Int.cast_one, Int.cast_neg, Int.cast_one] at h
    rw [h, ← Int.neg_fdiv_neg, Int.neg_neg, Int.fdiv_one]
    omega
  have hMinus : (Number.integer (-1)) = ofRat (-1) := by
    rw [← ofRat_intCast, Int.cast_neg, Int.cast_one]
  have hTerm (k : Nat) : ofRat (term ((xs.length : Int) : ℚ) (-1) k) =
    .integer (xs.length - k) := by
    have h := cast_term (a := xs.length) (d := -1) k
    rw [Int.cast_neg, Int.cast_one] at h
    rw [← h, ofRat_intCast]
    congr 1
    omega
  have hReverse : xs.reverse = (List.range xs.length).map fun k =>
    xs[xs.length - 1 - k]?.getD one := by
    refine List.ext_getElem (by simp) fun i hi _ => ?_
    rw [List.length_reverse] at hi
    rw [List.getElem_reverse, List.getElem_map, List.getElem_range,
      List.getElem?_eq_getElem (by omega), Option.getD_some]
  let body : Number → Method E σ Unit := fun i => do
    block (some (← sent (iv.elementAtNumber core i)))
  have hBody (k : Nat) (hk : k < xs.length) :
      body (.integer (xs.length - k)) = block (some (xs[xs.length - 1 - k]?.getD one)) := by
    have hIndex : ((xs.length : Int) - k) = ((xs.length - 1 - k : Nat) : Int) + 1 := by omega
    have hElement := hAt (xs.length - 1 - k) _ (List.getElem?_eq_getElem (by omega))
    show (do block (some (← sent (iv.elementAt core (xs.length - k))))) = _
    rw [hIndex, hElement, List.getElem?_eq_getElem (by omega)]
    rfl
  have hLoop : Number.toByDo core fuel body (.integer xs.length) one (.integer (-1)) =
      forM (List.range xs.length) fun k : Nat => body (.integer (xs.length - k)) := by
    have hFuel' : count ((xs.length : Int) : ℚ) 1 (-1) < fuel := by rwa [hCount]
    have h := toByDo_eq core body (by norm_num) hFuel'
    rw [← forM_terms, hCount] at h
    have hArgs : Number.toByDo core fuel body (.integer xs.length) one (.integer (-1)) =
        Number.toByDo core fuel body (ofRat ((xs.length : Int) : ℚ)) (ofRat 1) (ofRat (-1)) := by
      rw [ofRat_intCast, ← one_eq_ofRat, ← hMinus]
    exact (hArgs.trans h).trans (congrArg _ (funext fun k => by rw [hTerm]))
  have hStart : iv.reverseDo core fuel block =
      Number.toByDo core fuel body (.integer xs.length) one (.integer (-1)) := by
    unfold Interval.reverseDo
    rw [hSize, sent, pure_bind]
  rw [hStart, hLoop, hReverse, List.forM_map]
  exact forM_congr_range hBody

/-! ## NumericInterval -/

variable (core) in
theorem between_eq (i n : Int) :
    Number.between core (.integer i) one (.integer n) = .ok (decide (1 ≤ i ∧ i ≤ n)) := by
  have hLe (x y : Int) : Number.le core (.integer x) (.integer y) = .ok (decide (x ≤ y)) := rfl
  unfold Number.between
  rw [one, hLe]
  show (if decide (1 ≤ i) = true then Number.le core (.integer i) (.integer n) else .ok false) = _
  rw [hLe]
  by_cases hOne : 1 ≤ i
  · rw [decide_eq_true hOne, if_pos rfl]
    exact congrArg Except.ok (decide_eq_decide.mpr ⟨fun h => ⟨hOne, h⟩, fun h => h.2⟩)
  · rw [decide_eq_false hOne, if_neg Bool.false_ne_true, decide_eq_false fun h => hOne h.1]

section Numeric

variable {a b d : ℚ}

theorem numericAt_eq (hd : d ≠ 0) {k : Nat} (hk : k < count a b d) :
    numericAt core (ofRat a) (ofRat b) (ofRat d) (.integer ((k : Int) + 1)) =
      .ok (ofRat (term a d k)) := by
  unfold numericAt
  rw [numericSize_eq core a b hd]
  show (do
    if ← Number.between core (.integer ((k : Int) + 1)) one (.integer (count a b d)) then
      numericElement core (ofRat a) (ofRat d) (.integer ((k : Int) + 1))
    else _) = _
  rw [between_eq, decide_eq_true (by omega)]
  exact numericElement_eq core a d k

theorem numericAt_out (hd : d ≠ 0) {i : Int} (hi : i < 1 ∨ (count a b d : Int) < i) :
    ∃ s, numericAt core (ofRat a) (ofRat b) (ofRat d) (.integer i) = .error s := by
  refine ⟨.error ("Interval>>at:: index " ++ printString (.integer i) ++ " out of range 1.." ++
    printString (.integer (count a b d))), ?_⟩
  unfold numericAt
  rw [numericSize_eq core a b hd]
  show (do
    if ← Number.between core (.integer i) one (.integer (count a b d)) then
      numericElement core (ofRat a) (ofRat d) (.integer i)
    else _) = _
  rw [between_eq, decide_eq_false (by omega)]
  rfl

theorem getElem?_values {k : Nat} {x : Number} (h : ((terms a b d).map ofRat)[k]? = some x) :
    k < count a b d ∧ ofRat (term a d k) = x := by
  have hk : k < count a b d := by
    have hLt := (List.getElem?_eq_some_iff.mp h).1
    rwa [List.length_map, Lib.Progression.length_terms] at hLt
  rw [List.getElem?_map, Lib.Progression.getElem?_terms hk] at h
  exact ⟨hk, Option.some.inj h⟩

theorem length_values : ((terms a b d).map ofRat).length = count a b d := by
  rw [List.length_map, Lib.Progression.length_terms]

variable {E σ : Type}

theorem numeric_doEach (hd : d ≠ 0) {fuel : Nat} (block : Object → Method E σ Unit)
    (hFuel : count a b d < fuel) :
    (Interval.numeric (ofRat a) (ofRat b) (ofRat d)).doEach core lists fuel block =
      forM ((terms a b d).map ofRat) fun x => block (some x) := by
  unfold Interval.doEach
  dsimp only
  rw [numericSize_eq core a b hd, sent, pure_bind, indexLoop_eq core _ hFuel, ← forM_terms]
  refine congrArg _ (funext fun k => ?_)
  rw [numericElement_eq, sent, pure_bind]

/-- A NumericInterval is its progression. -/
theorem numeric_lists (hd : d ≠ 0) :
    (Interval.numeric (ofRat a) (ofRat b) (ofRat d)).Lists core lists
      ((terms a b d).map ofRat) := by
  have hSize : (Interval.numeric (ofRat a) (ofRat b) (ofRat d)).size core =
      .ok (.integer ((terms a b d).map ofRat).length) := by
    rw [length_values]
    exact numericSize_eq core a b hd
  have hAt (k : Nat) (x : Number) (h : ((terms a b d).map ofRat)[k]? = some x) :
      (Interval.numeric (ofRat a) (ofRat b) (ofRat d)).elementAt core (k + 1) = .ok x := by
    obtain ⟨hk, rfl⟩ := getElem?_values h
    exact numericAt_eq hd hk
  have hOut (i : Int) (hi : i < 1 ∨ (((terms a b d).map ofRat).length : Int) < i) :
      ∃ s, (Interval.numeric (ofRat a) (ofRat b) (ofRat d)).elementAt core i = .error s := by
    rw [length_values] at hi
    exact numericAt_out hd hi
  have hLastAt : (Interval.numeric (ofRat a) (ofRat b) (ofRat d)).last core =
      (Interval.numeric (ofRat a) (ofRat b) (ofRat d)).elementAt core (count a b d) := by
    unfold Interval.last
    dsimp only
    rw [numericSize_eq core a b hd]
    rfl
  refine ⟨hSize, hAt, hOut, fun x h => ?_, fun x h => ?_, fun h => ⟨?_, ?_⟩,
    fun fuel block hFuel => numeric_doEach hd block (by rwa [length_values] at hFuel),
    fun fuel block hFuel => reverseDo_eq hSize hAt block hFuel⟩
  · exact hAt 0 x (by rwa [List.head?_eq_getElem?] at h)
  · rw [hLastAt]
    rw [List.getLast?_eq_getElem?, length_values] at h
    obtain ⟨hk, rfl⟩ := getElem?_values h
    have hIndex : (count a b d : Int) = ((count a b d - 1 : Nat) : Int) + 1 := by omega
    rw [hIndex]
    exact numericAt_eq hd hk
  · exact hOut 1 (.inr (by rw [h]; decide))
  · rw [hLastAt]
    refine hOut _ (.inl ?_)
    rw [← length_values, h]
    decide

/-! ## Copying into an Array -/

theorem fill_eq {E : Type} (a d : ℚ) {array : List Object} {k : Nat} (hk : k < array.length)
    (hLength : array.length ≤ 0x80000000) :
    (fill core lists (ofRat a) (ofRat d) (.integer (k + 1)) : Method E (List Object) Unit) array =
      .ok () (array.set k (some (ofRat (term a d k)))) := by
  have hLong : longOf (.integer ((k : Int) + 1)) = .ok ((k : Int) + 1) := if_neg (by omega)
  have hPut (value : Object) :
      atPut lists array (.integer ((k : Int) + 1)) value = .ok (array.set k value) := by
    unfold atPut
    rw [hLong]
    show (if (k : Int) + 1 < 1 ∨ (k : Int) + 1 > array.length then _ else _) = _
    have hIndex : toInt ((k : Int) + 1 - 1) = (k : Int) := by
      rw [IntegerDivision.toInt_eq (by omega) (by omega)]
      omega
    rw [if_neg (by omega), hIndex, lists.setAt_eq array k value hk]
    rfl
  unfold fill
  rw [numericElement_eq]
  show (do
    let array ← get
    set (← sent (atPut lists array (.integer ((k : Int) + 1)) (some (ofRat (term a d k))))) :
      Method E (List Object) Unit) array = _
  show (sent (atPut lists array (.integer ((k : Int) + 1)) (some (ofRat (term a d k)))) >>= set :
    Method E (List Object) Unit) array = _
  rw [hPut]
  rfl

/-- The Array after the first turns of the loop. -/
theorem fill_loop {E : Type} (a d : ℚ) {n m : Nat} (hm : m ≤ n) (hLength : n ≤ 0x80000000) :
    (forM (List.range m) fun k : Nat => fill core lists (ofRat a) (ofRat d) (.integer (k + 1)) :
      Method E (List Object) Unit) (List.replicate n none) =
      .ok () (((List.range m).map fun k => some (ofRat (term a d k))) ++
        List.replicate (n - m) none) := by
  induction m with
  | zero =>
      rw [List.range_zero, List.map_nil, List.nil_append, Nat.sub_zero]
      rfl
  | succ m ih =>
      let filled : List Object := (List.range m).map fun k => some (ofRat (term a d k))
      have hFilled : filled.length = m := by rw [List.length_map, List.length_range]
      have hArray : (filled ++ List.replicate (n - m) none).length = n := by
        rw [List.length_append, hFilled, List.length_replicate]
        omega
      have hTurn : (fill core lists (ofRat a) (ofRat d) (.integer (m + 1)) :
          Method E (List Object) Unit) (filled ++ List.replicate (n - m) none) = _ :=
        fill_eq a d (by omega) (by omega)
      have hSplit : List.replicate (n - m) (none : Object) =
          none :: List.replicate (n - (m + 1)) none := by
        rw [← List.replicate_succ]
        congr 1
        omega
      have hSet : (filled ++ List.replicate (n - m) none).set m (some (ofRat (term a d m))) =
          filled ++ some (ofRat (term a d m)) :: List.replicate (n - (m + 1)) none := by
        rw [List.set_append_right _ _ (by omega), hFilled, Nat.sub_self, hSplit, List.set_cons_zero]
      rw [List.range_succ, List.forM_append, List.forM_cons, List.forM_nil]
      show EStateM.bind _ _ _ = _
      unfold EStateM.bind
      rw [ih (by omega)]
      show EStateM.bind _ _ (filled ++ List.replicate (n - m) none) = _
      unfold EStateM.bind
      rw [hTurn, hSet, List.map_append, List.append_assoc]
      rfl

variable (core lists)

theorem numericAsArray_eq (hd : d ≠ 0) {fuel : Nat} (hFuel : count a b d < fuel)
    (hLength : count a b d ≤ 0x80000000) :
    (numericAsArray core lists fuel (ofRat a) (ofRat b) (ofRat d) : Method E σ (List Object)) =
      pure (((terms a b d).map ofRat).map some) := by
  have hNew : arrayNew (.integer (count a b d)) = .ok (List.replicate (count a b d) none) := by
    have hLong : longOf (.integer (count a b d)) = .ok (count a b d : Int) := if_neg (by omega)
    unfold arrayNew
    rw [hLong]
    show (if (count a b d : Int) < 0 then (.error (.error "Array new: negative size") : Sent _)
      else .ok (List.replicate (count a b d : Int).toNat none)) = _
    rw [if_neg (by omega), Int.toNat_natCast]
  have hRun : inlinedToDo core fuel (fill core lists (ofRat a) (ofRat d)) one
      (.integer (List.replicate (count a b d) (none : Object)).length)
      (List.replicate (count a b d) none) =
      (.ok () (((terms a b d).map ofRat).map some) :
        EStateM.Result (Stop E) (List Object) Unit) := by
    rw [List.length_replicate, indexLoop_eq core _ hFuel,
      fill_loop a d (Nat.le_refl _) hLength, Nat.sub_self, List.replicate_zero, List.append_nil,
      List.map_map, terms, List.map_map]
    rfl
  unfold numericAsArray
  rw [numericSize_eq core a b hd]
  show (do
    let array ← sent (arrayNew (.integer (count a b d)))
    match (inlinedToDo core fuel (fill core lists (ofRat a) (ofRat d)) one
      (.integer array.length) : Method E (List Object) Unit) array with
    | .ok _ array => pure array
    | .error e _ => throw e) = _
  rw [hNew, sent, pure_bind, hRun]

/-- An interval that is not native and too long for an Array. -/
theorem numericAsArray_error (hd : d ≠ 0) (fuel : Nat)
    (hLength : 0x8000000000000000 ≤ count a b d) (s : σ) :
    ∃ signal, (numericAsArray core lists fuel (ofRat a) (ofRat b) (ofRat d) :
      Method E σ (List Object)) s = .error (.signal signal) s := by
  have hNew : arrayNew (.integer (count a b d)) = .error (.error "exceeds long long range") := by
    have hLong : longOf (.integer (count a b d)) = .error (.error "exceeds long long range") :=
      if_pos (by omega)
    unfold arrayNew
    rw [hLong]
    rfl
  refine ⟨.error "exceeds long long range", ?_⟩
  unfold numericAsArray
  rw [numericSize_eq core a b hd]
  show (do
    let array ← sent (arrayNew (.integer (count a b d)))
    match (inlinedToDo core fuel (fill core lists (ofRat a) (ofRat d)) one
      (.integer array.length) : Method E (List Object) Unit) array with
    | .ok _ array => pure array
    | .error e _ => throw e : Method E σ (List Object)) s = _
  rw [hNew]
  rfl

theorem includes_eq (x : Number) (hx : x.Canonical) (xs : List Number) :
    ((xs.map some).anyM fun each => sent (Interval.isEqual x each) : Method E σ Bool) =
      pure (decide (x ∈ xs)) := by
  induction xs with
  | nil => rfl
  | cons y xs ih =>
      have hEqual : Interval.isEqual x (some y) = .ok (decide (y = x)) := Number.eq_decide hx
      rw [List.map_cons, List.anyM_cons, hEqual, sent, pure_bind, ih]
      by_cases hHere : y = x
      · rw [decide_eq_true hHere, if_pos rfl,
          decide_eq_true (List.mem_cons.mpr (.inl hHere.symm))]
      · have hThere : x ∈ y :: xs ↔ x ∈ xs :=
          ⟨fun h => (List.mem_cons.mp h).resolve_left fun h => hHere h.symm, List.mem_cons_of_mem y⟩
        have hDecide : decide (x ∈ y :: xs) = decide (x ∈ xs) := decide_eq_decide.mpr hThere
        rw [decide_eq_false hHere, if_neg Bool.false_ne_true, hDecide]

/-- The derived protocol, over what it runs over. -/
theorem copies_of_yields {iv : Interval} {xs : List Number} {c : Elements Object}
    (hElements : ∀ {E σ : Type} (fuel : Nat), xs.length < fuel →
      (iv.elements core lists fuel : Method E σ (Elements Object)) = pure c)
    (hYields : NativeIntervals.Yields lists fromLong c (xs.map some))
    (hArray : ∀ {E σ : Type} (fuel : Nat), xs.length < fuel →
      (iv.asArray core lists fuel : Method E σ (List Object)) = pure (xs.map some)) :
    iv.Copies core lists xs := by
  refine ⟨hArray, fun fuel block hFuel => ?_, fun fuel x hx hFuel => ?_⟩
  · unfold Interval.collect
    rw [hElements fuel hFuel, pure_bind, NativeIntervals.collect_eq hYields, List.mapM_map]
    rfl
  · unfold Interval.includes Interval.anySatisfy
    rw [hElements fuel hFuel, pure_bind, NativeIntervals.anySatisfy_eq hYields]
    exact includes_eq x hx xs

/-- A NumericInterval whose indices an `int` holds. -/
theorem numeric_copies (hd : d ≠ 0) (hLength : count a b d ≤ 0x80000000) :
    (Interval.numeric (ofRat a) (ofRat b) (ofRat d)).Copies core lists
      ((terms a b d).map ofRat) := by
  have hArray {E σ : Type} (fuel : Nat) (hFuel : ((terms a b d).map ofRat).length < fuel) :
      (numericAsArray core lists fuel (ofRat a) (ofRat b) (ofRat d) : Method E σ (List Object)) =
        pure (((terms a b d).map ofRat).map some) := by
    rw [length_values] at hFuel
    exact numericAsArray_eq core lists hd hFuel hLength
  refine copies_of_yields core lists (c := .array (((terms a b d).map ofRat).map some))
    (fun fuel hFuel => ?_) ?_ hArray
  · unfold Interval.elements
    dsimp only
    rw [hArray fuel hFuel, pure_bind]
  · exact NativeIntervals.yields_array (by rwa [List.length_map, length_values])

end Numeric

/-! ## The native Interval -/

section Native

variable {a b d : Int}

theorem native_element (ha : isSmallInt a = true) (hb : isSmallInt b = true) (hd : d ≠ 0) {k : Nat}
    (hk : k < count (a : ℚ) b d) :
    NativeInterval.element ⟨a, b, d⟩ k = a + k * d := by
  have hTerm := NativeIntervals.isSmallInt_iff.mp (term_small ha hb hd hk)
  obtain ⟨hLow, hHigh⟩ := mul_step_small ha hb hd hk
  show NativeIntervals.wrap (a + NativeIntervals.wrap (k * d)) = _
  rw [NativeIntervals.wrap_eq (n := k * d) (by omega) (by omega),
    NativeIntervals.wrap_eq (by omega) (by omega)]

variable (core : Division) (lists : ListCore Object)

/-- What `forEachElement` visits of an Interval. -/
theorem native_yields (ha : isSmallInt a = true) (hb : isSmallInt b = true)
    (hs : isSmallInt d = true) (hd : d ≠ 0) :
    NativeIntervals.Yields lists fromLong (.interval ⟨a, b, d⟩)
      (((terms (a : ℚ) b d).map ofRat).map some) := by
  intro m _ _ fn
  have hWrap (k : Nat) (hk : k < count (a : ℚ) b d) :
      NativeIntervals.wrap (a + k * d) = a + k * d := by
    have hTerm := NativeIntervals.isSmallInt_iff.mp (term_small ha hb hd hk)
    exact NativeIntervals.wrap_eq (by omega) (by omega)
  have hObjects : ((terms (a : ℚ) b d).map ofRat).map some =
      ((List.range (count (a : ℚ) b d)).map fun k : Nat => a + k * d).map fromLong := by
    rw [terms, List.map_map, List.map_map, List.map_map]
    refine List.map_congr_left fun k _ => ?_
    show some (ofRat (term (a : ℚ) d k)) = fromLong (a + k * d)
    rw [← cast_term, ofRat_intCast]
    rfl
  have hSize : (NativeInterval.size ⟨a, b, d⟩).toNat = count (a : ℚ) b d := by
    rw [NativeInterval.size, intervalSize_eq ha hb hs hd, Int.toNat_natCast]
  show NativeIntervals.strideLoop (fun e => fn (fromLong e)) d
    (NativeInterval.size ⟨a, b, d⟩).toNat a = _
  rw [hSize, NativeIntervals.strideLoop_eq _ hWrap, hObjects, NativeIntervals.allM_map fromLong]

theorem native_elementAt (ha : isSmallInt a = true) (hb : isSmallInt b = true)
    (hs : isSmallInt d = true) (hd : d ≠ 0) {k : Nat} (hk : k < count (a : ℚ) b d) :
    NativeInterval.elementAt ⟨a, b, d⟩ (k + 1) = .ok (a + k * d) := by
  have hMany := count_small ha hb hd
  have hLong : WideBits.asLong ((k : Int) + 1) = .ok ((k : Int) + 1) := if_neg (by omega)
  unfold NativeInterval.elementAt
  rw [hLong, NativeInterval.size, intervalSize_eq ha hb hs hd]
  show (if (k : Int) + 1 < 1 ∨ (k : Int) + 1 > count (a : ℚ) b d then _ else
    Except.ok (NativeInterval.element ⟨a, b, d⟩ (NativeIntervals.wrap ((k : Int) + 1 - 1)))) = _
  rw [if_neg (by omega), NativeIntervals.wrap_eq (by omega) (by omega), Int.add_sub_cancel,
    native_element ha hb hd hk]

theorem native_elementAt_out (ha : isSmallInt a = true) (hb : isSmallInt b = true)
    (hs : isSmallInt d = true) (hd : d ≠ 0) {i : Int}
    (hi : i < 1 ∨ (count (a : ℚ) b d : Int) < i) :
    ∃ s, NativeInterval.elementAt ⟨a, b, d⟩ i = .error s := by
  unfold NativeInterval.elementAt
  rw [NativeInterval.size, intervalSize_eq ha hb hs hd]
  cases hLong : WideBits.asLong i with
  | error s => exact ⟨s, rfl⟩
  | ok n =>
      have hSame : n = i := by
        unfold WideBits.asLong at hLong
        split at hLong
        · cases hLong
        · exact (Except.ok.inj hLong).symm
      subst hSame
      refine ⟨.classed "SubscriptOutOfBounds" ("Interval>>at: index " ++ toString n ++
        " out of range 1.." ++ toString (count (a : ℚ) b d : Int)), ?_⟩
      exact if_pos (by omega)

/-- A native Interval is its progression. -/
theorem native_lists (ha : isSmallInt a = true) (hb : isSmallInt b = true)
    (hs : isSmallInt d = true) (hd : d ≠ 0) :
    (Interval.native ⟨a, b, d⟩).Lists core lists ((terms (a : ℚ) b d).map ofRat) := by
  have hLength := length_values (a := a) (b := b) (d := d)
  have hTerm (k : Nat) : Number.integer (a + k * d) = ofRat (term (a : ℚ) d k) := by
    rw [← cast_term, ofRat_intCast]
  have hCount : NativeInterval.size ⟨a, b, d⟩ = count (a : ℚ) b d := intervalSize_eq ha hb hs hd
  have hSize : (Interval.native ⟨a, b, d⟩).size core =
      .ok (.integer ((terms (a : ℚ) b d).map ofRat).length) := by
    rw [hLength, ← hCount]
    rfl
  have hAt (k : Nat) (x : Number) (h : ((terms (a : ℚ) b d).map ofRat)[k]? = some x) :
      (Interval.native ⟨a, b, d⟩).elementAt core (k + 1) = .ok x := by
    obtain ⟨hk, rfl⟩ := getElem?_values h
    show (NativeInterval.elementAt ⟨a, b, d⟩ (k + 1)).map Number.integer = _
    rw [native_elementAt ha hb hs hd hk, ← hTerm]
    rfl
  have hOut (i : Int) (hi : i < 1 ∨ (((terms (a : ℚ) b d).map ofRat).length : Int) < i) :
      ∃ s, (Interval.native ⟨a, b, d⟩).elementAt core i = .error s := by
    rw [hLength] at hi
    obtain ⟨s, hs'⟩ := native_elementAt_out ha hb hs hd hi
    refine ⟨s, ?_⟩
    show (NativeInterval.elementAt ⟨a, b, d⟩ i).map Number.integer = _
    rw [hs']
    rfl
  refine ⟨hSize, hAt, hOut, fun x h => ?_, fun x h => ?_, fun h => ?_,
    fun fuel block _ => ?_, fun fuel block hFuel => reverseDo_eq hSize hAt block hFuel⟩
  · rw [List.head?_eq_getElem?] at h
    obtain ⟨hk, rfl⟩ := getElem?_values h
    have hSome : NativeInterval.first ⟨a, b, d⟩ = .ok a := by
      unfold NativeInterval.first
      rw [hCount, if_neg (by omega)]
    show (NativeInterval.first ⟨a, b, d⟩).map Number.integer = _
    rw [hSome, ← hTerm, Nat.cast_zero, Int.zero_mul, Int.add_zero]
    rfl
  · rw [List.getLast?_eq_getElem?, hLength] at h
    obtain ⟨hk, rfl⟩ := getElem?_values h
    have hMany := count_small ha hb hd
    have hIndex : NativeIntervals.wrap ((count (a : ℚ) b d : Int) - 1) =
        ((count (a : ℚ) b d - 1 : Nat) : Int) := by
      rw [NativeIntervals.wrap_eq (by omega) (by omega)]
      omega
    have hSome : NativeInterval.last ⟨a, b, d⟩ = .ok (a + (count (a : ℚ) b d - 1 : Nat) * d) := by
      unfold NativeInterval.last
      rw [hCount, if_neg (by omega), hIndex, native_element ha hb hd hk]
    show (NativeInterval.last ⟨a, b, d⟩).map Number.integer = _
    rw [hSome, ← hTerm]
    rfl
  · have hZero : NativeInterval.size ⟨a, b, d⟩ = 0 := by
      rw [hCount, ← hLength, h]
      rfl
    refine ⟨⟨.error "Interval>>first: interval is empty", ?_⟩,
      ⟨.error "Interval>>last: interval is empty", ?_⟩⟩
    · show (NativeInterval.first ⟨a, b, d⟩).map Number.integer = _
      unfold NativeInterval.first
      rw [if_pos hZero]
      rfl
    · show (NativeInterval.last ⟨a, b, d⟩).map Number.integer = _
      unfold NativeInterval.last
      rw [if_pos hZero]
      rfl
  · show NativeInterval.doEach lists fromLong ⟨a, b, d⟩ block = _
    rw [NativeIntervals.doEach_eq (native_yields lists ha hb hs hd), List.forM_map]

theorem native_copies (ha : isSmallInt a = true) (hb : isSmallInt b = true)
    (hs : isSmallInt d = true) (hd : d ≠ 0) :
    (Interval.native ⟨a, b, d⟩).Copies core lists ((terms (a : ℚ) b d).map ofRat) := by
  have hYields := native_yields lists ha hb hs hd
  refine copies_of_yields core lists (fun _ _ => rfl) hYields fun fuel _ => ?_
  exact congrArg pure (NativeIntervals.asArray_eq hYields)

end Native

/-! ## Intervals that are made -/

variable (core lists)

/-- An interval that is not native answers signals where it would be copied. -/
structure Interval.TooLong (iv : Interval) : Prop where
  asArray : ∀ {E σ : Type} (fuel : Nat) (s : σ), ∃ signal,
    (iv.asArray core lists fuel : Method E σ (List Object)) s = .error (.signal signal) s
  collect : ∀ {E σ β : Type} (fuel : Nat) (block : Object → Method E σ β) (s : σ), ∃ signal,
    iv.collect core lists fuel block s = .error (.signal signal) s
  includes : ∀ {E σ : Type} (fuel : Nat) (x : Number) (s : σ), ∃ signal,
    (iv.includes core lists fuel x : Method E σ Bool) s = .error (.signal signal) s

def Interval.isNative : Interval → Bool
  | native _ => true
  | numeric _ _ _ => false

/-- An interval that runs through a list. -/
structure Interval.Runs (iv : Interval) (xs : List Number) : Prop where
  reads : iv.Lists core lists xs
  copies : iv.isNative = true ∨ xs.length ≤ 0x80000000 → iv.Copies core lists xs
  tooLong : iv.isNative = false → 0x8000000000000000 ≤ xs.length → iv.TooLong core lists

theorem numeric_tooLong {a b d : ℚ} (hd : d ≠ 0) (hLength : 0x8000000000000000 ≤ count a b d) :
    (Interval.numeric (ofRat a) (ofRat b) (ofRat d)).TooLong core lists := by
  have hElements {E σ : Type} (fuel : Nat) (s : σ) : ∃ signal,
      ((Interval.numeric (ofRat a) (ofRat b) (ofRat d)).elements core lists fuel :
        Method E σ (Elements Object)) s = .error (.signal signal) s := by
    obtain ⟨signal, hSignal⟩ := numericAsArray_error core lists hd (E := E) fuel hLength s
    exact ⟨signal, bind_of_error hSignal⟩
  refine ⟨fun fuel s => numericAsArray_error core lists hd fuel hLength s,
    fun fuel block s => ?_, fun fuel x s => ?_⟩
  · obtain ⟨signal, hSignal⟩ := hElements fuel s
    exact ⟨signal, bind_of_error hSignal⟩
  · obtain ⟨signal, hSignal⟩ := hElements fuel s
    exact ⟨signal, bind_of_error hSignal⟩

theorem Interval.TooLong.not_copies {iv : Interval} (h : iv.TooLong core lists)
    (xs : List Number) : ¬ iv.Copies core lists xs := by
  intro hCopies
  obtain ⟨signal, hError⟩ := h.asArray (E := Empty) (xs.length + 1) ()
  have hArray := hCopies.asArray (E := Empty) (σ := Unit) _ (Nat.lt_succ_self xs.length)
  cases (congrFun hArray ()).symm.trans hError

theorem numeric_runs {a b d : ℚ} (hd : d ≠ 0) :
    (Interval.numeric (ofRat a) (ofRat b) (ofRat d)).Runs core lists ((terms a b d).map ofRat) := by
  refine ⟨numeric_lists hd, fun h => ?_, fun _ hLength => ?_⟩
  · refine numeric_copies core lists hd ?_
    rw [← length_values]
    exact h.resolve_left Bool.false_ne_true
  · rw [length_values] at hLength
    exact numeric_tooLong core lists hd hLength

theorem native_runs {a b d : Int} (ha : isSmallInt a = true) (hb : isSmallInt b = true)
    (hs : isSmallInt d = true) (hd : d ≠ 0) :
    (Interval.native ⟨a, b, d⟩).Runs core lists ((terms (a : ℚ) b d).map ofRat) :=
  ⟨native_lists core lists ha hb hs hd, fun _ => native_copies core lists ha hb hs hd,
    fun h => absurd h.symm Bool.false_ne_true⟩

theorem numericInterval_eq {step : ℚ} (hd : step ≠ 0) (start stop : Number) :
    numericInterval start stop (ofRat step) = .ok (.numeric start stop (ofRat step)) := by
  unfold numericInterval
  rw [eq_zero_ofRat, decide_eq_false hd]
  rfl

theorem numericInterval_zero (start stop : Number) :
    numericInterval start stop (.integer 0) =
      .error (.error "the step of an Interval must not be zero") := rfl

theorem nativeToBy_eq {a b d : Int} (ha : isSmallInt a = true) (hb : isSmallInt b = true)
    (hs : isSmallInt d = true) : nativeToBy a b d = .ok (.native ⟨a, b, d⟩) := by
  unfold nativeToBy
  rw [NativeIntervals.asLong_small ha, NativeIntervals.asLong_small hb,
    NativeIntervals.asLong_small hs]
  rfl

/-- An interval is native only between SmallIntegers, with a step. -/
theorem isNativeInterval_cases (n : Int) (stop step : Number) :
    isNativeInterval core n stop step = .ok false ∨
      isNativeInterval core n stop step = .ok true ∧ ∃ b d : Int, stop = .integer b ∧
        step = .integer d ∧ isSmallInt n = true ∧ isSmallInt b = true ∧ isSmallInt d = true ∧
        d ≠ 0 := by
  cases stop with
  | fraction f => exact .inl rfl
  | integer b =>
    cases step with
    | fraction f => exact .inl rfl
    | integer d =>
      unfold isNativeInterval
      dsimp only
      split
      next hSmall =>
        simp only [Bool.and_eq_true, bne_iff_ne] at hSmall
        obtain ⟨⟨⟨hn, hb⟩, hs⟩, hd⟩ := hSmall
        rw [IntegerDivision.mod_eq core _ hd, IntegerDivision.intDiv_eq core _ hd]
        show (if (b - n).fmod d ≠ 0 then .ok false
          else .ok (decide ((b - n).fdiv d ≥ 1)) : Sent Bool) = .ok false ∨ _
        by_cases hMod : (b - n).fmod d ≠ 0
        · exact .inl (if_pos hMod)
        · by_cases hReach : (b - n).fdiv d ≥ 1
          · right
            refine ⟨?_, b, d, rfl, rfl, hn, hb, hs, hd⟩
            show (if (b - n).fmod d ≠ 0 then .ok false
              else .ok (decide ((b - n).fdiv d ≥ 1)) : Sent Bool) = .ok true
            rw [if_neg hMod, decide_eq_true hReach]
          · left
            rw [if_neg hMod, decide_eq_false hReach]
      next => exact .inl rfl

theorem toBy_runs {a b d : ℚ} (hd : d ≠ 0) :
    ∃ iv, Number.toBy core (ofRat a) (ofRat b) (ofRat d) = .ok iv ∧
      iv.Runs core lists ((terms a b d).map ofRat) := by
  have hNumeric := numeric_runs core lists (a := a) (b := b) hd
  cases hStart : ofRat a with
  | fraction f =>
      rw [hStart] at hNumeric
      exact ⟨_, numericInterval_eq hd _ _, hNumeric⟩
  | integer n =>
      have ha : a = (n : ℚ) := by rw [← value_ofRat a, hStart]; rfl
      rcases isNativeInterval_cases core n (ofRat b) (ofRat d) with
        hNot | ⟨hYes, m, k, hStop, hStep, hn, hm, hk, hNe⟩
      · rw [hStart] at hNumeric
        refine ⟨_, ?_, hNumeric⟩
        unfold Number.toBy
        dsimp only
        rw [hNot]
        exact numericInterval_eq hd _ _
      · have hb : b = (m : ℚ) := by rw [← value_ofRat b, hStop]; rfl
        have hd' : d = (k : ℚ) := by rw [← value_ofRat d, hStep]; rfl
        refine ⟨.native ⟨n, m, k⟩, ?_, ?_⟩
        · unfold Number.toBy
          dsimp only
          rw [hYes, hStop, hStep]
          exact nativeToBy_eq hn hm hk
        · rw [ha, hb, hd']
          exact native_runs core lists hn hm hk hNe

theorem to_runs {a b : ℚ} :
    ∃ iv, Number.to (ofRat a) (ofRat b) = .ok iv ∧
      iv.Runs core lists ((terms a b 1).map ofRat) := by
  have hNumeric := numeric_runs core lists (a := a) (b := b) one_ne_zero
  have hAnswer : numericInterval (ofRat a) (ofRat b) one =
    .ok (.numeric (ofRat a) (ofRat b) (ofRat 1)) := by
    rw [one_eq_ofRat]
    exact numericInterval_eq one_ne_zero _ _
  unfold Number.to
  split
  next n m hn hm =>
    split
    next hSmall =>
      simp only [Bool.and_eq_true] at hSmall
      have ha : a = (n : ℚ) := by rw [← value_ofRat a, hn]; rfl
      have hb : b = (m : ℚ) := by rw [← value_ofRat b, hm]; rfl
      have hRuns := native_runs core lists hSmall.1.1 hSmall.1.2 (d := 1) (by decide) one_ne_zero
      rw [Int.cast_one] at hRuns
      rw [ha, hb]
      exact ⟨_, nativeToBy_eq hSmall.1.1 hSmall.1.2 (by decide), hRuns⟩
    next =>
      rw [hn, hm] at hAnswer hNumeric
      exact ⟨_, hAnswer, hNumeric⟩
  next => exact ⟨_, hAnswer, hNumeric⟩

theorem toBy_zero (start stop : Number) :
    Number.toBy core start stop (.integer 0) =
      .error (.error "the step of an Interval must not be zero") := by
  cases start with
  | fraction f => rfl
  | integer n =>
      rcases isNativeInterval_cases core n stop (.integer 0) with
        hNot | ⟨-, -, k, -, hStep, -, -, -, hNe⟩
      · unfold Number.toBy
        dsimp only
        rw [hNot]
        rfl
      · exact absurd (Number.integer.inj hStep).symm hNe

/-! ## Progressions -/

/-- Every way to run through a progression with a step. -/
structure Progresses (start stop step : Number) : Prop where
  toBy : ∃ iv, Number.toBy core start stop step = .ok iv ∧
    iv.Runs core lists (values start stop step)
  fromToBy : ∃ iv, numericInterval start stop step = .ok iv ∧
    iv.Runs core lists (values start stop step)
  toByDo : ∀ {E σ : Type} (fuel : Nat) (block : Number → Method E σ Unit),
    (values start stop step).length < fuel →
      Number.toByDo core fuel block start stop step = forM (values start stop step) block
  numericToByDo : ∀ {E σ : Type} (fuel : Nat) (block : Number → Method E σ Unit),
    (values start stop step).length < fuel →
      numericToByDo core fuel block start stop step = forM (values start stop step) block

/-- Every way to run through a progression without a step. -/
structure ProgressesByOne (start stop : Number) : Prop where
  toStop : ∃ iv, Number.to start stop = .ok iv ∧ iv.Runs core lists (values start stop one)
  toDo : ∀ {E σ : Type} (fuel : Nat) (block : Number → Method E σ Unit),
    (values start stop one).length < fuel →
      Number.toDo core fuel block start stop = forM (values start stop one) block
  inlinedToDo : ∀ {E σ : Type} (fuel : Nat) (block : Number → Method E σ Unit),
    (values start stop one).length < fuel →
      inlinedToDo core fuel block start stop = forM (values start stop one) block

/-- A step of zero, which signals before anything is visited. -/
structure RefusesZero (start stop : Number) : Prop where
  toBy : ∃ s, Number.toBy core start stop (.integer 0) = .error s
  fromToBy : ∃ s, numericInterval start stop (.integer 0) = .error s
  toByDo : ∀ {E σ : Type} (fuel : Nat) (block : Number → Method E σ Unit) (s : σ),
    ∃ signal, Number.toByDo core fuel block start stop (.integer 0) s = .error (.signal signal) s
  numericToByDo : ∀ {E σ : Type} (fuel : Nat) (block : Number → Method E σ Unit) (s : σ),
    ∃ signal, numericToByDo core fuel block start stop (.integer 0) s = .error (.signal signal) s

/-- Every way to run through a progression visits its values, in order. -/
theorem progressions_agree (start stop step : Number) (hStart : start.Canonical)
    (hStop : stop.Canonical) (hStep : step.Canonical) :
    (step ≠ .integer 0 → Progresses core lists start stop step) ∧
      ProgressesByOne core lists start stop ∧ RefusesZero core start stop := by
  obtain ⟨a, rfl⟩ : ∃ a, start = ofRat a := ⟨_, eq_ofRat hStart⟩
  obtain ⟨b, rfl⟩ : ∃ b, stop = ofRat b := ⟨_, eq_ofRat hStop⟩
  obtain ⟨d, rfl⟩ : ∃ d, step = ofRat d := ⟨_, eq_ofRat hStep⟩
  have hValues (q : ℚ) : values (ofRat a) (ofRat b) (ofRat q) = (terms a b q).map ofRat := by
    rw [values, value_ofRat, value_ofRat, value_ofRat]
  refine ⟨fun hZero => ?_, ?_, ?_⟩
  · have hd : d ≠ 0 := by
      rintro rfl
      exact hZero zero_eq_ofRat.symm
    refine ⟨?_, ?_, fun fuel block hFuel => ?_, fun fuel block hFuel => ?_⟩
    · rw [hValues]
      exact toBy_runs core lists hd
    · rw [hValues]
      exact ⟨_, numericInterval_eq hd _ _, numeric_runs core lists hd⟩
    · rw [hValues] at hFuel ⊢
      exact toByDo_eq core block hd (by rwa [length_values] at hFuel)
    · rw [hValues] at hFuel ⊢
      exact numericToByDo_eq core block hd (by rwa [length_values] at hFuel)
  · have hOne := hValues 1
    rw [← one_eq_ofRat] at hOne
    refine ⟨?_, fun fuel block hFuel => ?_, fun fuel block hFuel => ?_⟩
    · rw [hOne]
      exact to_runs core lists
    · rw [hOne] at hFuel ⊢
      exact toDo_eq core block (by rwa [length_values] at hFuel)
    · rw [hOne] at hFuel ⊢
      exact inlinedToDo_eq core block (by rwa [length_values] at hFuel)
  · refine ⟨⟨_, toBy_zero core _ _⟩, ⟨_, numericInterval_zero _ _⟩,
      fun fuel block s => toByDo_zero core block _ _ s, fun fuel block s => ?_⟩
    rw [zero_eq_ofRat]
    exact ⟨_, numericToByDo_zero core block _ _ s⟩

/-- protoCore's lists, where an index beyond the end answers nil. -/
def nilBeyond : ListCore Object where
  getAt xs i := (xs[i.toNat]?).getD none
  setAt xs i x := xs.set i.toNat x
  getAt_eq xs i h := by
    rw [Int.toNat_natCast, List.getElem?_eq_getElem h]
    rfl
  setAt_eq xs i x _ := by rw [Int.toNat_natCast]

/-- From one half to ten, down by thirds, in a division that truncates. -/
theorem progressions_agree_thirds :
    ((Number.fraction ⟨-1, 3⟩) ≠ .integer 0 →
        Progresses IntegerDivision.truncating nilBeyond (.integer 10) (.fraction ⟨1, 2⟩)
          (.fraction ⟨-1, 3⟩)) ∧
      ProgressesByOne IntegerDivision.truncating nilBeyond (.integer 10) (.fraction ⟨1, 2⟩) ∧
      RefusesZero IntegerDivision.truncating (.integer 10) (.fraction ⟨1, 2⟩) :=
  progressions_agree IntegerDivision.truncating nilBeyond (.integer 10) (.fraction ⟨1, 2⟩)
    (.fraction ⟨-1, 3⟩) trivial ⟨by decide, by decide⟩ ⟨by decide, by decide⟩

/-- `1 to: 2^63` is not copied into an Array. -/
theorem toBy_not_copied :
    Number.toBy IntegerDivision.truncating (.integer 1) (.integer 0x8000000000000000) one =
        .ok (.numeric (.integer 1) (.integer 0x8000000000000000) one) ∧
      ¬ (Interval.numeric (.integer 1) (.integer 0x8000000000000000) one).Copies
        IntegerDivision.truncating nilBeyond
          (values (.integer 1) (.integer 0x8000000000000000) one) := by
  have hCount : count (((1 : Int) : ℚ)) ((0x8000000000000000 : Int) : ℚ) ((1 : Int) : ℚ) =
      0x8000000000000000 := by
    rw [count_int one_ne_zero, Int.fdiv_one]
    omega
  have hStep : ((1 : Int) : ℚ) ≠ 0 := Int.cast_ne_zero.mpr one_ne_zero
  have hTooLong := numeric_tooLong IntegerDivision.truncating nilBeyond hStep hCount.ge
  rw [ofRat_intCast, ofRat_intCast] at hTooLong
  exact ⟨rfl, hTooLong.not_copies IntegerDivision.truncating nilBeyond _⟩

end Lists

end ProtoST.Kernel.Intervals

import ProtoST.Lib.Progression
import ProtoST.Primitives.WideBits

/-!
# Native intervals and loops

The Interval of `primitives/collection_prims.cpp`, `forEachElement` over it and over an Array,
and the loops `to:do:` and `to:by:do:` of SmallIntegers.  A `long long` wraps around; an `int`
index is what is left of a `long long`.

protoCore's lists are a parameter (`ListCore`), with what they promise of an index within them.

## Main results

* `intervalSize_eq` — the size of an Interval, when nothing overflows.
* `strideLoop_eq` — the elements that `forEachElement` computes.
-/

namespace ProtoST.Primitives.NativeIntervals

open ProtoST.Lib.Progression (loop)
open ProtoST.Primitives.IntegerDivision (Signal toInt toInt_eq)
open ProtoST.Primitives.WideBits (asLong)

/-- Why a method does not answer: a signal, no more fuel, or what else leaves a block. -/
inductive Stop (E : Type) where
  | signal (s : Signal)
  | fuel
  | leave (e : E)

/-- A method over the state of a program. -/
abbrev Method (E σ α : Type) := EStateM (Stop E) σ α

def sent {E σ α : Type} : Except Signal α → Method E σ α
  | .ok a => pure a
  | .error s => throw (.signal s)

/-! ## Machine integers -/

/-- A `long long`. -/
def wrap (n : Int) : Int :=
  (n + 0x8000000000000000) % 0x10000000000000000 - 0x8000000000000000

/-- `isSmallInt`: 54 bits with a sign. -/
def isSmallInt (n : Int) : Bool := -0x20000000000000 ≤ n && n < 0x20000000000000

theorem wrap_eq {n : Int} (hLow : -0x8000000000000000 ≤ n) (hHigh : n < 0x8000000000000000) :
    wrap n = n := by
  unfold wrap
  omega

theorem isSmallInt_iff {n : Int} :
    isSmallInt n = true ↔ -0x20000000000000 ≤ n ∧ n < 0x20000000000000 := by
  rw [isSmallInt, Bool.and_eq_true, decide_eq_true_eq, decide_eq_true_eq]

theorem asLong_small {n : Int} (h : isSmallInt n = true) : asLong n = .ok n := by
  rw [isSmallInt_iff] at h
  exact if_neg (by omega)

/-! ## Intervals -/

/-- The three attributes of a native Interval. -/
structure NativeInterval where
  start : Int
  stop : Int
  step : Int

/-- `intervalSize`. -/
def intervalSize (start stop step : Int) : Int :=
  if step = 0 then 0
  else if step > 0 then
    if stop < start then 0 else wrap (wrap ((wrap (stop - start)).tdiv step) + 1)
  else if stop > start then 0
  else wrap (wrap ((wrap (start - stop)).tdiv (wrap (-step))) + 1)

namespace NativeInterval

def size (iv : NativeInterval) : Int := intervalSize iv.start iv.stop iv.step

/-- `start + k * step`. -/
def element (iv : NativeInterval) (k : Int) : Int := wrap (iv.start + wrap (k * iv.step))

/-- `at:` -/
def elementAt (iv : NativeInterval) (index : Int) : Except Signal Int := do
  let idx1 ← asLong index
  if idx1 < 1 ∨ idx1 > iv.size then
    .error (.classed "SubscriptOutOfBounds" ("Interval>>at: index " ++ toString idx1 ++
      " out of range 1.." ++ toString iv.size))
  else .ok (iv.element (wrap (idx1 - 1)))

def first (iv : NativeInterval) : Except Signal Int :=
  if iv.size = 0 then .error (.error "Interval>>first: interval is empty") else .ok iv.start

def last (iv : NativeInterval) : Except Signal Int :=
  if iv.size = 0 then .error (.error "Interval>>last: interval is empty")
  else .ok (iv.element (wrap (iv.size - 1)))

end NativeInterval

/-! ## Iteration -/

/-- protoCore's lists. -/
structure ListCore (O : Type) where
  getAt : List O → Int → O
  setAt : List O → Int → O → List O
  getAt_eq : ∀ (xs : List O) (i : Nat) (h : i < xs.length), getAt xs i = xs[i]
  setAt_eq : ∀ (xs : List O) (i : Nat) (x : O), i < xs.length → setAt xs i x = xs.set i x

/-- What `forEachElement` meets: a native Interval or an Array. -/
inductive Elements (O : Type) where
  | interval (iv : NativeInterval)
  | array (data : List O)

section Iteration

variable {O : Type} (lists : ListCore O) (fromLong : Int → O) {m : Type → Type} [Monad m]

/-- The loop of `forEachElement` over an Interval. -/
def strideLoop (fn : Int → m Bool) (step : Int) : Nat → Int → m Bool
  | 0, _ => pure true
  | n + 1, cur => do
      if ← fn cur then strideLoop fn step n (wrap (cur + step)) else pure false

/-- `forEachElement`: `fn` answers whether to go on. -/
def forEachElement (fn : O → m Bool) : Elements O → m Bool
  | .interval iv => strideLoop (fun e => fn (fromLong e)) iv.step iv.size.toNat iv.start
  | .array data => (List.range data.length).allM fun i : Nat => fn (lists.getAt data (toInt i))

variable {E σ β : Type}

/-- A turn of `collect:`. -/
def collecting (block : O → Method E σ β) (e : O) : StateT (List β) (Method E σ) Bool := do
  let v ← block e
  modify fun out => out ++ [v]
  pure true

/-- `collect:` -/
def collect (c : Elements O) (block : O → Method E σ β) : Method E σ (List β) := do
  let (_, out) ← (forEachElement lists fromLong (collecting block) c).run []
  pure out

/-- A turn of `anySatisfy:`. -/
def searching (block : O → Method E σ Bool) (e : O) : StateT Bool (Method E σ) Bool := do
  if ← block e then
    set true
    pure false
  else pure true

/-- `anySatisfy:` -/
def anySatisfy (c : Elements O) (block : O → Method E σ Bool) : Method E σ Bool := do
  let (_, any) ← (forEachElement lists fromLong (searching block) c).run false
  pure any

/-- A turn of `asArray`. -/
def appending (e : O) : StateM (List O) Bool := do
  modify fun out => out ++ [e]
  pure true

/-- `asArray` -/
def asArray (c : Elements O) : List O :=
  ((forEachElement lists fromLong appending c).run []).2

/-- `do:` of an Interval. -/
def NativeInterval.doEach (iv : NativeInterval) (block : O → Method E σ Unit) :
    Method E σ Unit := do
  let _ ← forEachElement lists fromLong (fun e => do
    block e
    pure true) (.interval iv)

end Iteration

/-! ## Loops -/

section Loops

variable {E σ : Type} (fuel : Nat) (start stop : Int) (block : Int → Method E σ Unit)

/-- `to:do:` -/
def toDo : Method E σ Unit := do
  let start ← sent (asLong start)
  let stop ← sent (asLong stop)
  loop (throw .fuel) (fun i => pure (decide (i ≤ stop))) block (fun i => pure (wrap (i + 1)))
    fuel start

/-- `to:by:do:` -/
def toByDo (step : Int) : Method E σ Unit := do
  let start ← sent (asLong start)
  let stop ← sent (asLong stop)
  let step ← sent (asLong step)
  if step = 0 then throw (.signal (.error "to:by:do: step must be non-zero"))
  else if step > 0 then
    loop (throw .fuel) (fun i => pure (decide (i ≤ stop))) block
      (fun i => pure (wrap (i + step))) fuel start
  else
    loop (throw .fuel) (fun i => pure (decide (i ≥ stop))) block
      (fun i => pure (wrap (i + step))) fuel start

end Loops

/-! ## What is visited -/

section Visited

variable {O : Type} {lists : ListCore O} {fromLong : Int → O} {m : Type → Type}

/-- The elements that `forEachElement` computes. -/
theorem strideLoop_eq [Monad m] [LawfulMonad m] (fn : Int → m Bool) {d : Int}
    {n : Nat} {cur : Int} (h : ∀ k < n, wrap (cur + (k : Nat) * d) = cur + (k : Nat) * d) :
    strideLoop fn d n cur = ((List.range n).map fun k : Nat => cur + k * d).allM fn := by
  induction n generalizing cur with
  | zero => rfl
  | succ n ih =>
      have hRest : strideLoop fn d n (wrap (cur + d)) =
          ((List.range n).map fun k : Nat => cur + d + k * d).allM fn := by
        cases n with
        | zero => rfl
        | succ n =>
            have hOne := h 1 (by omega)
            rw [Nat.cast_one, Int.one_mul] at hOne
            rw [hOne]
            refine ih fun k hk => ?_
            have hNext := h (k + 1) (by omega)
            have hShift : cur + ((k + 1 : Nat) : Int) * d = cur + d + k * d := by
              push_cast
              ring
            rwa [hShift] at hNext
      have hFirst : cur + ((0 : Nat) : Int) * d = cur := by simp
      have hTail : ((List.range n).map Nat.succ).map (fun k : Nat => cur + k * d) =
          (List.range n).map fun k : Nat => cur + d + k * d := by
        rw [List.map_map]
        refine List.map_congr_left fun k _ => ?_
        simp only [Function.comp, Nat.cast_succ]
        ring
      rw [strideLoop, hRest, List.range_succ_eq_map, List.map_cons, List.allM_cons, hFirst, hTail]

/-- What an iteration visits, whatever it does with it. -/
def Yields (lists : ListCore O) (fromLong : Int → O) (c : Elements O) (xs : List O) : Prop :=
  ∀ (m : Type → Type) [Monad m] [LawfulMonad m] (fn : O → m Bool),
    forEachElement lists fromLong fn c = xs.allM fn

theorem allM_map [Monad m] [LawfulMonad m] {α : Type} (f : α → O)
    (fn : O → m Bool) (xs : List α) : (xs.map f).allM fn = xs.allM fun x => fn (f x) := by
  induction xs with
  | nil => rfl
  | cons x xs ih => rw [List.map_cons, List.allM_cons, List.allM_cons, ih]

/-- An Array whose indices an `int` holds. -/
theorem yields_array {data : List O} (h : data.length ≤ 0x80000000) :
    Yields lists fromLong (.array data) data := by
  intro m _ _ fn
  have hData : data = (List.range data.length).map fun i : Nat => lists.getAt data (toInt i) := by
    refine List.ext_getElem (by simp) fun i hi _ => ?_
    rw [List.getElem_map, List.getElem_range, toInt_eq (by omega) (by omega),
      lists.getAt_eq data i hi]
  conv_rhs => rw [hData]
  rw [allM_map]
  rfl

theorem allM_block [Monad m] [LawfulMonad m] (block : O → m Unit)
    (xs : List O) : (xs.allM fun e => do
      block e
      pure true) = (do
        forM xs block
        pure true) := by
  induction xs with
  | nil => simp
  | cons x xs ih =>
      simp only [List.allM_cons, List.forM_cons, bind_assoc, pure_bind, if_true, ih]

variable {E σ β : Type} {c : Elements O} {xs : List O}

theorem doEach_eq {iv : NativeInterval} (h : Yields lists fromLong (.interval iv) xs)
    (block : O → Method E σ Unit) : iv.doEach lists fromLong block = forM xs block := by
  unfold NativeInterval.doEach
  rw [h, allM_block]
  simp

theorem run_collecting (block : O → Method E σ β) (out : List β) (xs : List O) :
    (xs.allM (collecting block)).run out = (do
      let vs ← xs.mapM block
      pure (true, out ++ vs)) := by
  induction xs generalizing out with
  | nil => simp
  | cons x xs ih =>
      have hTurn : (collecting block x).run out = (do
          let v ← block x
          pure (true, out ++ [v])) := by
        simp [collecting]
      simp only [List.allM_cons, List.mapM_cons, StateT.run_bind, hTurn, bind_assoc, pure_bind,
        if_true, ih, List.append_assoc, List.singleton_append]

theorem collect_eq (h : Yields lists fromLong c xs) (block : O → Method E σ β) :
    collect lists fromLong c block = xs.mapM block := by
  unfold collect
  rw [h, run_collecting]
  simp

theorem run_searching (block : O → Method E σ Bool) (xs : List O) :
    (xs.allM (searching block)).run false = (do
      let found ← xs.anyM block
      pure (!found, found)) := by
  induction xs with
  | nil => simp
  | cons x xs ih =>
      have hTurn : (searching block x).run false = (do
          let found ← block x
          pure (!found, found)) := by
        unfold searching
        simp only [StateT.run_bind, StateT.run_monadLift, bind_assoc, pure_bind]
        refine congrArg _ (funext fun found => ?_)
        cases found with
        | true => simp
        | false => simp
      simp only [List.allM_cons, List.anyM_cons, StateT.run_bind, hTurn, bind_assoc, pure_bind]
      refine congrArg _ (funext fun found => ?_)
      cases found with
      | true => simp
      | false => simpa using ih

theorem anySatisfy_eq (h : Yields lists fromLong c xs) (block : O → Method E σ Bool) :
    anySatisfy lists fromLong c block = xs.anyM block := by
  unfold anySatisfy
  rw [h, run_searching]
  simp

theorem run_appending (out xs : List O) : (xs.allM appending).run out = (true, out ++ xs) := by
  induction xs generalizing out with
  | nil =>
      rw [List.append_nil]
      rfl
  | cons x xs ih =>
      rw [List.allM_cons]
      exact (ih (out ++ [x])).trans (by rw [List.append_assoc, List.singleton_append])

theorem asArray_eq (h : Yields lists fromLong c xs) : asArray lists fromLong c = xs := by
  unfold asArray
  rw [h, run_appending]
  rfl

end Visited

end ProtoST.Primitives.NativeIntervals

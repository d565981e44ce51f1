import Mathlib.Algebra.Group.Nat.Defs
import Mathlib.Algebra.Order.Group.Int
import Mathlib.Data.Int.GCD
import Mathlib.Tactic.Common
import Mathlib.Tactic.Linarith
import Mathlib.Tactic.Ring

/-!
# Division of integers

`primitives/IntegerDivision.h` and the division primitives of `primitives/int_prims.cpp` and
`primitives/math_prims.cpp`, on integers of any size.  protoCore's arithmetic is that of `Int`,
except for its division, which is a parameter that is the truncated division for a divisor
below 2^62 only, and for its shift to the right, whose count is an `int` (`ProtoCore`): the long
division casts its counter to one.  So it divides a dividend of at most 2^31 bits.

A primitive signals or answers, and keeps a record of the divisions it ran (`Run`).  The modules
over this one take their divisions from a `Division`, whose shifts are right at every count: it
answers what the code answers for such a dividend (`truncDivMod_agree`).

## Main results

* `longDivMod_eq` — the binary long division truncates, where it reads the dividend's own bits.
* `truncDivMod_eq`, `floorDivMod_eq` — so do, and floor, the divisions of all paths.
* `divisionLaws` — the laws of `//`, `\\`, `quo:`, `rem:`, `gcd:` and `lcm:`.
-/

namespace ProtoST.Primitives.IntegerDivision

/-! ## `IntegerDivision.h` -/

/-- `fitsDivisorWord`, with `kLimit` = 2^62. -/
def fitsDivisorWord (v : Int) : Bool := v < 0x4000000000000000 && v > -0x4000000000000000

/-- `static_cast<int>`. -/
def toInt (n : Int) : Int := (n + 0x80000000) % 0x100000000 - 0x80000000

theorem toInt_eq {n : Int} (hLow : 0 ≤ n) (hHigh : n < 0x80000000) : toInt n = n := by
  unfold toInt
  omega

/-- protoCore's `divide` and `modulo`, which truncate where the divisor fits, and the dividend
shifted by the counter of the long division. -/
structure DivisionCore where
  divide : Int → Int → Int
  modulo : Int → Int → Int
  shifted : Int → Nat → Int
  divide_eq : ∀ a b, b ≠ 0 → fitsDivisorWord b = true → divide a b = a.tdiv b
  modulo_eq : ∀ a b, b ≠ 0 → fitsDivisorWord b = true → modulo a b = a.tmod b

/-- The first count that is no `int`. -/
def shiftLimit : Nat := 0x80000000

/-- protoCore as the code uses it: `shiftRight` takes an `int`, and `static_cast<int>(i)` is what
the long division gives it. -/
structure ProtoCore extends DivisionCore where
  shiftRight : Int → Int → Int
  shiftRight_eq : ∀ (x : Int) (n : Nat), n < shiftLimit → shiftRight x n = Int.shiftRight x n
  shifted_eq : ∀ (x : Int) (i : Nat), shifted x i = shiftRight x (toInt i)

instance : CoeOut ProtoCore DivisionCore := ⟨ProtoCore.toDivisionCore⟩

/-- A protoCore whose shifts are right at every count. -/
structure Division extends DivisionCore where
  shifted_eq : ∀ (x : Int) (i : Nat), shifted x i = Int.shiftRight x i

instance : CoeOut Division DivisionCore := ⟨Division.toDivisionCore⟩

theorem shiftRight_eq (x : Int) (n : Nat) : Int.shiftRight x n = x / ((2 ^ n : Nat) : Int) :=
  Int.shiftRight_eq_div_pow x n

theorem shiftRight_lt {t : Int} (h : 0 < t) : (Int.shiftRight t 32).toNat < t.toNat := by
  have hLt : t / 4294967296 < t := Int.ediv_lt_self_of_pos_of_ne_one h (by decide)
  have hNonneg : 0 ≤ t / 4294967296 := Int.ediv_nonneg (Int.le_of_lt h) (by decide)
  rw [shiftRight_eq]
  norm_num
  omega

/-- The bit length of the dividend, rounded up to 32 bits. -/
def bitLength (t : Int) (bits : Nat) : Nat :=
  if 0 < t then bitLength (Int.shiftRight t 32) (bits + 32) else bits
termination_by t.toNat
decreasing_by exact shiftRight_lt ‹_›

/-- One turn of the long division: the next bit of the dividend comes into the remainder. -/
def longStep (core : DivisionCore) (x y : Int) (i : Nat) (q r : Int) : Int × Int :=
  let bit := core.shifted x i % 2
  let r := 2 * r + bit
  let q := 2 * q
  if r ≥ y then (q + 1, r - y) else (q, r)

/-- The turns from bit `i - 1` down to bit 0. -/
def longLoop (core : DivisionCore) (x y : Int) : Nat → Int → Int → Int × Int
  | 0, q, r => (q, r)
  | i + 1, q, r => longLoop core x y i (longStep core x y i q r).1 (longStep core x y i q r).2

/-- The binary long division on the magnitudes. -/
def longDivMod (core : DivisionCore) (a b : Int) : Int × Int :=
  let negA := decide (a < 0)
  let negB := decide (b < 0)
  let x := if negA then -a else a
  let y := if negB then -b else b
  let qr := longLoop core x y (bitLength x 0) 0 0
  (if negA ≠ negB then -qr.1 else qr.1, if negA then -qr.2 else qr.2)

/-- `truncDivMod`. -/
def truncDivMod (core : DivisionCore) (a b : Int) : Int × Int :=
  if fitsDivisorWord b then (core.divide a b, core.modulo a b) else longDivMod core a b

/-- `integerQuotient`. -/
def integerQuotient (core : DivisionCore) (a b : Int) : Int := (truncDivMod core a b).1

/-- `integerRemainder`. -/
def integerRemainder (core : DivisionCore) (a b : Int) : Int := (truncDivMod core a b).2

/-! ## The long division truncates -/

theorem bitLength_spec (t : Int) (bits : Nat) (h : 0 ≤ t) :
    ∃ k, bitLength t bits = bits + k ∧ Int.shiftRight t k = 0 := by
  induction t, bits using bitLength.induct with
  | case1 t bits hPos ih =>
      have hNonneg : 0 ≤ Int.shiftRight t 32 := by
        rw [shiftRight_eq]
        exact Int.ediv_nonneg h (by positivity)
      obtain ⟨k, hk, hZero⟩ := ih hNonneg
      refine ⟨32 + k, ?_, ?_⟩
      · rw [bitLength, if_pos hPos, hk, Nat.add_assoc]
      · exact (Int.shiftRight_add t 32 k).trans hZero
  | case2 t bits hPos =>
      obtain rfl : t = 0 := by omega
      exact ⟨0, by rw [bitLength, if_neg hPos, Nat.add_zero], rfl⟩

/-- The bits are counted 32 at a time. -/
theorem bitLength_le {t : Int} {m : Nat} (bits : Nat) (h : t < ((2 ^ (32 * m) : Nat) : Int)) :
    bitLength t bits ≤ bits + 32 * m := by
  induction m generalizing t bits with
  | zero =>
      have hLe : ¬ 0 < t := by
        rw [Nat.mul_zero, Nat.pow_zero] at h
        omega
      rw [bitLength, if_neg hLe]
      omega
  | succ m ih =>
      rw [bitLength]
      split
      next hPos =>
        have hShifted : Int.shiftRight t 32 < ((2 ^ (32 * m) : Nat) : Int) := by
          rw [shiftRight_eq]
          refine Int.ediv_lt_of_lt_mul (by positivity) ?_
          rwa [← Int.natCast_mul, ← Nat.pow_add, ← Nat.mul_succ]
        have := ih (bits + 32) hShifted
        omega
      next => omega

/-- Of a dividend's first `n` bits, the long division reads each. -/
def DivisionCore.Reads (core : DivisionCore) (x : Int) (n : Nat) : Prop :=
  ∀ i < n, core.shifted x i = Int.shiftRight x i

/-- What is read of the dividend is the quotient so far times the divisor, and a remainder. -/
def LongInv (x y : Int) (i : Nat) (q r : Int) : Prop :=
  Int.shiftRight x i = q * y + r ∧ 0 ≤ r ∧ r < y

variable {x y : Int} {i : Nat} {q r : Int}

/-- A turn keeps the remainder below the divisor, whatever it reads. -/
theorem longStep_bounds (core : DivisionCore) (hr : 0 ≤ r) (hy : r < y) :
    0 ≤ (longStep core x y i q r).2 ∧ (longStep core x y i q r).2 < y := by
  have hLow := Int.emod_nonneg (core.shifted x i) (by decide : (2 : Int) ≠ 0)
  have hHigh := Int.emod_lt_of_pos (core.shifted x i) (by decide : (0 : Int) < 2)
  unfold longStep
  generalize core.shifted x i % 2 = bit at hLow hHigh
  dsimp only
  split
  next hGe => exact ⟨by omega, by omega⟩
  next hLt => exact ⟨by omega, by omega⟩

theorem longLoop_bounds (core : DivisionCore) (hr : 0 ≤ r) (hy : r < y) :
    0 ≤ (longLoop core x y i q r).2 ∧ (longLoop core x y i q r).2 < y := by
  induction i generalizing q r with
  | zero => exact ⟨hr, hy⟩
  | succ i ih =>
      have hStep := longStep_bounds core (x := x) (i := i) (q := q) hr hy
      exact ih hStep.1 hStep.2

variable {core : DivisionCore}

theorem longStep_inv (hRead : core.shifted x i = Int.shiftRight x i) (h : LongInv x y (i + 1) q r) :
    LongInv x y i (longStep core x y i q r).1 (longStep core x y i q r).2 := by
  obtain ⟨hx, hr, hy⟩ := h
  have hBit : Int.shiftRight x i = 2 * Int.shiftRight x (i + 1) + Int.shiftRight x i % 2 := by
    have hHalf : Int.shiftRight x (i + 1) = Int.shiftRight x i / 2 := by
      rw [shiftRight_eq, shiftRight_eq, Int.ediv_ediv_of_nonneg (by positivity)]
      norm_num [pow_succ]
    rw [hHalf]
    omega
  refine ⟨?_, longStep_bounds core hr hy⟩
  unfold longStep
  rw [hRead]
  generalize Int.shiftRight x i % 2 = bit at hBit
  dsimp only
  split
  next hGe => rw [hBit, hx]; ring
  next hLt => rw [hBit, hx]; ring

theorem longLoop_inv (hReads : core.Reads x i) (h : LongInv x y i q r) :
    LongInv x y 0 (longLoop core x y i q r).1 (longLoop core x y i q r).2 := by
  induction i generalizing q r with
  | zero => exact h
  | succ i ih =>
      exact ih (fun j hj => hReads j (Nat.lt_succ_of_lt hj))
        (longStep_inv (hReads i (Nat.lt_succ_self i)) h)

/-- The loop divides the magnitudes. -/
theorem longLoop_eq (hReads : core.Reads x (bitLength x 0)) (hx : 0 ≤ x)
    (hy : 0 < y) : longLoop core x y (bitLength x 0) 0 0 = (x / y, x % y) := by
  obtain ⟨k, hk, hZero⟩ := bitLength_spec x 0 hx
  have hStart : LongInv x y (bitLength x 0) 0 0 := by
    rw [hk, Nat.zero_add]
    exact ⟨by rw [hZero]; ring, Int.le_refl 0, hy⟩
  obtain ⟨hDiv, hr, hlt⟩ := longLoop_inv hReads hStart
  have hSelf : Int.shiftRight x 0 = x := by
    rw [shiftRight_eq]
    simp
  rw [hSelf] at hDiv
  have hSum : (longLoop core x y (bitLength x 0) 0 0).2 +
      y * (longLoop core x y (bitLength x 0) 0 0).1 = x := by
    linarith [mul_comm y (longLoop core x y (bitLength x 0) 0 0).1]
  have hUnique := (Int.ediv_emod_unique hy).mpr ⟨hSum, hr, hlt⟩
  exact Prod.ext hUnique.1.symm hUnique.2.symm

variable {a b : Int}

/-- The binary long division truncates. -/
theorem longDivMod_eq (hReads : core.Reads a.natAbs (bitLength a.natAbs 0))
    (hb : b ≠ 0) : longDivMod core a b = (a.tdiv b, a.tmod b) := by
  have hTrunc : ∀ x y : Int, x = a.natAbs → 0 < y →
      longLoop core x y (bitLength x 0) 0 0 = (x.tdiv y, x.tmod y) := fun x y hx hy => by
    have hNonneg : 0 ≤ x := by omega
    rw [← hx] at hReads
    rw [longLoop_eq hReads hNonneg hy, Int.tdiv_eq_ediv_of_nonneg hNonneg,
      Int.tmod_eq_emod_of_nonneg hNonneg]
  unfold longDivMod
  by_cases ha : a < 0
  · by_cases hNeg : b < 0
    · simp only [ha, hNeg, decide_true, if_true, hTrunc (-a) (-b) (by omega) (by omega)]
      simp
    · simp only [ha, hNeg, decide_true, decide_false, if_true, Bool.false_eq_true, if_false,
        hTrunc (-a) b (by omega) (by omega)]
      simp
  · by_cases hNeg : b < 0
    · simp only [ha, hNeg, decide_true, decide_false, if_true, Bool.false_eq_true, if_false,
        hTrunc a (-b) (by omega) (by omega)]
      simp
    · simp only [ha, hNeg, decide_false, Bool.false_eq_true, if_false,
        hTrunc a b (by omega) (by omega)]
      simp

/-- A division that protoCore's own does, or whose dividend is read. -/
def DivisionCore.Divides (core : DivisionCore) (a b : Int) : Prop :=
  fitsDivisorWord b = true ∨ core.Reads a.natAbs (bitLength a.natAbs 0)

/-- Every path truncates. -/
theorem truncDivMod_eq (h : core.Divides a b) (hb : b ≠ 0) :
    truncDivMod core a b = (a.tdiv b, a.tmod b) := by
  unfold truncDivMod
  split
  next hFits => rw [core.divide_eq a b hb hFits, core.modulo_eq a b hb hFits]
  next hFits => exact longDivMod_eq (h.resolve_left hFits) hb

theorem Division.divides (core : Division) (a b : Int) : core.toDivisionCore.Divides a b :=
  Or.inr fun i _ => core.shifted_eq _ i

/-- A divisor that fits, or a dividend of at most 2^31 bits. -/
def Covered (a b : Int) : Prop := fitsDivisorWord b = true ∨ a.natAbs < 2 ^ shiftLimit

theorem ProtoCore.reads (core : ProtoCore) {x : Int} {n : Nat} (hn : n ≤ shiftLimit) :
    core.toDivisionCore.Reads x n := fun i hi => by
  have hLimit : i < shiftLimit := Nat.lt_of_lt_of_le hi hn
  have hCast : toInt i = i := toInt_eq (by omega) (by unfold shiftLimit at hLimit; omega)
  rw [core.shifted_eq, hCast, core.shiftRight_eq x i hLimit]

theorem ProtoCore.reads_bits (core : ProtoCore) {a : Int} (h : a.natAbs < 2 ^ shiftLimit) :
    core.toDivisionCore.Reads a.natAbs (bitLength a.natAbs 0) := by
  refine core.reads ?_
  have hWords : shiftLimit = 32 * 0x4000000 := rfl
  rw [hWords] at h
  have hLe := bitLength_le 0 (Int.ofNat_lt.mpr h)
  rwa [Nat.zero_add, ← hWords] at hLe

theorem ProtoCore.divides (core : ProtoCore) (h : Covered a b) :
    core.toDivisionCore.Divides a b :=
  h.imp_right core.reads_bits

/-- The code divides a dividend of at most 2^31 bits as a `Division` does. -/
theorem truncDivMod_agree (core : ProtoCore) (division : Division) (h : Covered a b)
    (hb : b ≠ 0) : truncDivMod core a b = truncDivMod division a b :=
  (truncDivMod_eq (core.divides h) hb).trans (truncDivMod_eq (division.divides a b) hb).symm

/-! ## The primitives -/

inductive Signal where
  | zeroDivide
  | error (text : String)
  /-- `ClassedErrorSignal`. -/
  | classed (className text : String)
  deriving DecidableEq, Repr

/-- A primitive, with the divisions it ran, the last one first. -/
abbrev Run := ExceptT Signal (StateM (List (Int × Int)))

/-- `checkDivisor`, of an integer. -/
def checkDivisor (d : Int) : Run Unit := if d = 0 then throw .zeroDivide else pure ()

/-- `floorDivMod`, of integers. -/
def floorDivMod (core : DivisionCore) (r d : Int) : Int × Int :=
  let qm := truncDivMod core r d
  if qm.2 ≠ 0 ∧ qm.2.sign ≠ d.sign then (qm.1 - 1, qm.2 + d) else qm

/-- A division that runs. -/
def divided (division : Int → Int → Int × Int) (a b : Int) : Run (Int × Int) := do
  modify fun ran => (a, b) :: ran
  return division a b

/-- `//`. -/
def intDiv (core : DivisionCore) (r a : Int) : Run Int := do
  checkDivisor a
  return (← divided (floorDivMod core) r a).1

/-- `\`. -/
def mod (core : DivisionCore) (r a : Int) : Run Int := do
  checkDivisor a
  return (← divided (floorDivMod core) r a).2

/-- `quo:`. -/
def quo (core : DivisionCore) (r a : Int) : Run Int := do
  checkDivisor a
  return (← divided (truncDivMod core) r a).1

/-- `rem:`. -/
def rem (core : DivisionCore) (r a : Int) : Run Int := do
  checkDivisor a
  return (← divided (truncDivMod core) r a).2

/-- Whatever the long division reads, a remainder is smaller than the divisor. -/
theorem integerRemainder_lt (core : DivisionCore) (a : Int) {b : Int} (hb : b ≠ 0) :
    (integerRemainder core a b).natAbs < b.natAbs := by
  unfold integerRemainder truncDivMod
  split
  next hFits =>
    dsimp only
    rw [core.modulo_eq a b hb hFits, Int.natAbs_tmod]
    exact Nat.mod_lt _ (Int.natAbs_pos.mpr hb)
  next =>
    have hBounds : ∀ x y : Int, 0 < y →
        0 ≤ (longLoop core x y (bitLength x 0) 0 0).2 ∧
          (longLoop core x y (bitLength x 0) 0 0).2 < y := fun x y hy =>
      longLoop_bounds core (Int.le_refl 0) hy
    have hNat := hBounds (if decide (a < 0) then -a else a) (if decide (b < 0) then -b else b)
    unfold longDivMod
    by_cases hNeg : b < 0 <;> by_cases ha : a < 0 <;>
      simp only [hNeg, ha, decide_true, decide_false, if_true, Bool.false_eq_true,
        if_false] at hNat ⊢ <;> omega

/-- The loop of `gcd:`. -/
def gcdLoop (core : DivisionCore) (x y : Int) : Int :=
  if y = 0 then x else gcdLoop core y (integerRemainder core x y)
termination_by y.natAbs
decreasing_by exact integerRemainder_lt core x ‹_›

/-- `gcd:`. -/
def gcd (core : DivisionCore) (r a : Int) : Except Signal Int :=
  let x : Int := r.natAbs
  let y : Int := a.natAbs
  if x.sign = 0 ∧ y.sign = 0 then .error (.error "gcd: of zero and zero is undefined")
  else .ok (gcdLoop core x y)

/-- `lcm:`. -/
def lcm (core : DivisionCore) (r a : Int) : Except Signal Int :=
  if r.sign = 0 ∨ a.sign = 0 then .ok 0
  else do
    let g ← gcd core r a
    return integerQuotient core (r * a).natAbs g

/-! ## What they answer -/

/-- A remainder has the sign of the dividend and is smaller than the divisor. -/
theorem tmod_bounds (a : Int) {b : Int} (hb : b ≠ 0) : (a.tmod b).natAbs < b.natAbs := by
  rw [Int.natAbs_tmod]
  exact Nat.mod_lt _ (Int.natAbs_pos.mpr hb)

/-- The correction of the truncated quotient and remainder floors them. -/
theorem floor_correction (a : Int) {b : Int} (hb : b ≠ 0) :
    (if a.tmod b ≠ 0 ∧ (a.tmod b).sign ≠ b.sign then (a.tdiv b - 1, a.tmod b + b)
      else (a.tdiv b, a.tmod b)) = (a.fdiv b, a.fmod b) := by
  have hEq := Int.mul_tdiv_add_tmod a b
  have hAbs := tmod_bounds a hb
  generalize a.tdiv b = q at hEq
  generalize a.tmod b = m at hEq hAbs
  rcases Int.lt_or_gt_of_ne hb with hNeg | hPos
  · have hSign : m ≠ 0 ∧ m.sign ≠ b.sign ↔ 0 < m := by
      rw [Int.sign_eq_neg_one_of_neg hNeg]
      constructor
      · rintro ⟨hne, hs⟩
        by_contra hle
        exact hs (Int.sign_eq_neg_one_of_neg (by omega))
      · intro h
        exact ⟨by omega, by rw [Int.sign_eq_one_of_pos h]; decide⟩
    by_cases hm : 0 < m
    · rw [if_pos (hSign.mpr hm)]
      have h := (Int.fdiv_fmod_unique' (a := a) (q := q - 1) (r := m + b) hNeg).mpr
        ⟨by rw [← hEq]; ring, by omega, by omega⟩
      exact Prod.ext h.1.symm h.2.symm
    · rw [if_neg (mt hSign.mp hm)]
      have h := (Int.fdiv_fmod_unique' (a := a) (q := q) (r := m) hNeg).mpr
        ⟨by rw [← hEq]; ring, by omega, by omega⟩
      exact Prod.ext h.1.symm h.2.symm
  · have hSign : m ≠ 0 ∧ m.sign ≠ b.sign ↔ m < 0 := by
      rw [Int.sign_eq_one_of_pos hPos]
      constructor
      · rintro ⟨hne, hs⟩
        by_contra hle
        exact hs (Int.sign_eq_one_of_pos (by omega))
      · intro h
        exact ⟨by omega, by rw [Int.sign_eq_neg_one_of_neg h]; decide⟩
    by_cases hm : m < 0
    · rw [if_pos (hSign.mpr hm)]
      have h := (Int.fdiv_fmod_unique (a := a) (q := q - 1) (r := m + b) hPos).mpr
        ⟨by rw [← hEq]; ring, by omega, by omega⟩
      exact Prod.ext h.1.symm h.2.symm
    · rw [if_neg (mt hSign.mp hm)]
      have h := (Int.fdiv_fmod_unique (a := a) (q := q) (r := m) hPos).mpr
        ⟨by rw [← hEq]; ring, by omega, by omega⟩
      exact Prod.ext h.1.symm h.2.symm

/-- What a run signals or answers. -/
def answer {α : Type} (run : Run α) : Except Signal α := (run.run []).1

/-- After its check, a primitive answers a part of what its division answers. -/
theorem answer_divided (r : Int) (division : Int → Int → Int × Int) (f : Int × Int → Int)
    {a : Int} (h : a ≠ 0) :
    answer (do checkDivisor a; return f (← divided division r a)) = .ok (f (division r a)) := by
  rw [checkDivisor, if_neg h]
  rfl

/-- A zero divisor is signalled, and no division runs. -/
theorem run_zero (core : DivisionCore) (r : Int) (ran : List (Int × Int)) :
    (intDiv core r 0).run ran = (.error .zeroDivide, ran) ∧
      (mod core r 0).run ran = (.error .zeroDivide, ran) ∧
      (quo core r 0).run ran = (.error .zeroDivide, ran) ∧
      (rem core r 0).run ran = (.error .zeroDivide, ran) :=
  ⟨rfl, rfl, rfl, rfl⟩

section Divides

variable {r a : Int} (hDivides : core.Divides r a) (h : a ≠ 0)

include hDivides h

theorem DivisionCore.Divides.floorDivMod_eq :
    floorDivMod core r a = (r.fdiv a, r.fmod a) := by
  rw [floorDivMod, truncDivMod_eq hDivides h]
  exact floor_correction r h

theorem DivisionCore.Divides.intDiv_eq : answer (intDiv core r a) = .ok (r.fdiv a) := by
  rw [intDiv, answer_divided r _ _ h, hDivides.floorDivMod_eq h]

theorem DivisionCore.Divides.mod_eq : answer (mod core r a) = .ok (r.fmod a) := by
  rw [mod, answer_divided r _ _ h, hDivides.floorDivMod_eq h]

theorem DivisionCore.Divides.quo_eq : answer (quo core r a) = .ok (r.tdiv a) := by
  rw [quo, answer_divided r _ _ h, truncDivMod_eq hDivides h]

theorem DivisionCore.Divides.rem_eq : answer (rem core r a) = .ok (r.tmod a) := by
  rw [rem, answer_divided r _ _ h, truncDivMod_eq hDivides h]

end Divides

/-- The loop of `gcd:` on magnitudes, where each of its divisions truncates. -/
theorem gcdLoop_eq {P : Nat → Nat → Prop}
    (hStep : ∀ x y, P x y → y ≠ 0 → core.Divides x y ∧ P y (x % y)) {x y : Nat} (h : P x y) :
    gcdLoop core x y = (Nat.gcd x y : Int) := by
  induction y using Nat.strong_induction_on generalizing x with
  | _ y ih =>
      rw [gcdLoop]
      by_cases hZero : y = 0
      · rw [if_pos (by rw [hZero]; rfl), hZero, Nat.gcd_zero_right]
      · obtain ⟨hDivides, hNext⟩ := hStep x y h hZero
        have hPos : 0 < y := Nat.pos_of_ne_zero hZero
        have hNe : (y : Int) ≠ 0 := Int.natCast_ne_zero.mpr hZero
        have hRem : integerRemainder core x y = ((x % y : Nat) : Int) := by
          rw [integerRemainder, truncDivMod_eq hDivides hNe, ← Int.ofNat_tmod]
        rw [if_neg hNe, hRem, ih (x % y) (Nat.mod_lt x hPos) hNext, Nat.gcd_comm x y,
          Nat.gcd_rec y x, Nat.gcd_comm y]

/-- The greatest common divisor of the magnitudes comes out of the loop. -/
def DivisionCore.Gcds (core : DivisionCore) (r a : Int) : Prop :=
  gcdLoop core r.natAbs a.natAbs = (Int.gcd r a : Int)

theorem DivisionCore.Gcds.gcd_eq {r a : Int} (hGcds : core.Gcds r a) (h : r ≠ 0 ∨ a ≠ 0) :
    gcd core r a = .ok (Int.gcd r a) := by
  have hMagnitudes : ¬ ((r.natAbs : Int).sign = 0 ∧ (a.natAbs : Int).sign = 0) := by
    rw [Int.sign_eq_zero_iff_zero, Int.sign_eq_zero_iff_zero]
    omega
  simp only [gcd]
  rw [if_neg hMagnitudes, hGcds]

theorem DivisionCore.Gcds.lcm_eq {r a : Int} (hGcds : core.Gcds r a)
    (hDivides : core.Divides (r * a) (Int.gcd r a)) : lcm core r a = .ok (Int.lcm r a) := by
  unfold lcm
  by_cases h : r.sign = 0 ∨ a.sign = 0
  · rw [if_pos h]
    rw [Int.sign_eq_zero_iff_zero, Int.sign_eq_zero_iff_zero] at h
    rw [Int.lcm_eq_zero_iff.mpr h]
    rfl
  · rw [if_neg h]
    rw [Int.sign_eq_zero_iff_zero, Int.sign_eq_zero_iff_zero, not_or] at h
    have hGcd : ((Int.gcd r a : Nat) : Int) ≠ 0 := by
      rw [Int.natCast_ne_zero, ne_eq, Int.gcd_eq_zero_iff]
      exact fun hZero => h.1 hZero.1
    have hProduct : core.Divides (r * a).natAbs (Int.gcd r a) := hDivides
    have hQuotient : integerQuotient core (r * a).natAbs (Int.gcd r a) = Int.lcm r a := by
      rw [integerQuotient, truncDivMod_eq hProduct hGcd, ← Int.ofNat_tdiv, Int.natAbs_mul,
        Int.lcm, Nat.lcm_eq_mul_div, Int.gcd]
    rw [hGcds.gcd_eq (Or.inl h.1), ← hQuotient]
    rfl

/-! ## With shifts that are right at every count -/

section Primitives

variable (core : Division) (r : Int) {a : Int}

theorem floorDivMod_eq (h : a ≠ 0) : floorDivMod core r a = (r.fdiv a, r.fmod a) :=
  (core.divides r a).floorDivMod_eq h

theorem intDiv_eq (h : a ≠ 0) : answer (intDiv core r a) = .ok (r.fdiv a) :=
  (core.divides r a).intDiv_eq h

theorem mod_eq (h : a ≠ 0) : answer (mod core r a) = .ok (r.fmod a) :=
  (core.divides r a).mod_eq h

theorem quo_eq (h : a ≠ 0) : answer (quo core r a) = .ok (r.tdiv a) :=
  (core.divides r a).quo_eq h

theorem rem_eq (h : a ≠ 0) : answer (rem core r a) = .ok (r.tmod a) :=
  (core.divides r a).rem_eq h

theorem gcd_eq (h : r ≠ 0 ∨ a ≠ 0) : gcd core r a = .ok (Int.gcd r a) :=
  DivisionCore.Gcds.gcd_eq
    (gcdLoop_eq (P := fun _ _ => True) (fun x y _ _ => ⟨core.divides x y, trivial⟩) trivial) h

end Primitives

/-! ## With the shifts of protoCore -/

/-- The pairs of the loop of `gcd:` stay covered, both ways. -/
theorem covered_step {x y : Nat} (h : Covered x y ∧ Covered y x) :
    Covered y (x % y : Nat) ∧ Covered (x % y : Nat) y := by
  have hLe : x % y ≤ x := Nat.mod_le x y
  have hFits : fitsDivisorWord x = true → fitsDivisorWord (x % y : Nat) = true := by
    simp only [fitsDivisorWord, Bool.and_eq_true, decide_eq_true_eq]
    omega
  unfold Covered at *
  rw [Int.natAbs_natCast] at *
  exact ⟨h.2.imp_left hFits, h.1.imp_right fun hx => Nat.lt_of_le_of_lt hLe hx⟩

theorem covered_natAbs (h : Covered a b) : Covered a.natAbs b.natAbs := by
  refine h.imp_left ?_
  simp only [fitsDivisorWord, Bool.and_eq_true, decide_eq_true_eq]
  omega

theorem ProtoCore.gcds (core : ProtoCore) {r a : Int} (h : Covered r a) (h' : Covered a r) :
    core.toDivisionCore.Gcds r a :=
  gcdLoop_eq (P := fun x y => Covered x y ∧ Covered y x)
    (fun _ _ hPair _ => ⟨core.divides hPair.1, covered_step hPair⟩)
    ⟨covered_natAbs h, covered_natAbs h'⟩

/-- A remainder is zero or of the sign of `s`, and smaller in magnitude than the divisor `b`. -/
def RemainderFor (s b m : Int) : Prop := (m = 0 ∨ m.sign = s.sign) ∧ m.natAbs < b.natAbs

theorem fmod_remainder (a : Int) {b : Int} (hb : b ≠ 0) : RemainderFor b b (a.fmod b) := by
  rcases Int.lt_or_gt_of_ne hb with hNeg | hPos
  · obtain ⟨-, hLow, hHigh⟩ := (Int.fdiv_fmod_unique' (a := a) hNeg).mp ⟨rfl, rfl⟩
    refine ⟨?_, by omega⟩
    rcases Int.lt_or_eq_of_le hHigh with h | h
    · exact Or.inr (by rw [Int.sign_eq_neg_one_of_neg h, Int.sign_eq_neg_one_of_neg hNeg])
    · exact Or.inl h
  · obtain ⟨-, hLow, hHigh⟩ := (Int.fdiv_fmod_unique (a := a) hPos).mp ⟨rfl, rfl⟩
    refine ⟨?_, by omega⟩
    rcases Int.lt_or_eq_of_le hLow with h | h
    · exact Or.inr (by rw [Int.sign_eq_one_of_pos h, Int.sign_eq_one_of_pos hPos])
    · exact Or.inl h.symm

theorem tmod_remainder (a : Int) {b : Int} (hb : b ≠ 0) : RemainderFor a b (a.tmod b) := by
  refine ⟨?_, tmod_bounds a hb⟩
  by_cases h : a.tmod b = 0
  · exact Or.inl h
  · have hAbs : (a.tmod b).natAbs ≠ 0 := Int.natAbs_ne_zero.mpr h
    refine Or.inr ?_
    rcases lt_or_ge a 0 with hNeg | hPos
    · have hLe : a.tmod b ≤ 0 := by
        have := Int.tmod_nonneg b (a := -a) (by omega)
        rw [Int.neg_tmod] at this
        omega
      rw [Int.sign_eq_neg_one_of_neg hNeg, Int.sign_eq_neg_one_of_neg (by omega)]
    · have hGe : 0 ≤ a.tmod b := Int.tmod_nonneg b hPos
      have hNe : a ≠ 0 := fun hZero => h (by rw [hZero, Int.zero_tmod])
      rw [Int.sign_eq_one_of_pos (by omega), Int.sign_eq_one_of_pos (by omega)]

/-- A division that truncates everywhere. -/
def truncating : Division where
  divide := Int.tdiv
  modulo := Int.tmod
  shifted := fun x i => Int.shiftRight x i
  divide_eq _ _ _ _ := rfl
  modulo_eq _ _ _ _ := rfl
  shifted_eq _ _ := rfl

/-- The laws of the divisions by a divisor that is not zero, of `gcd:` and `lcm:`, and of the
zero divisor, where the divisors fit or the dividends have at most 2^31 bits. -/
theorem divisionLaws (core : ProtoCore) (a b : Int) :
    (b ≠ 0 → Covered a b →
      (∃ q m, answer (intDiv core a b) = .ok q ∧ answer (mod core a b) = .ok m ∧
        a = q * b + m ∧ RemainderFor b b m) ∧
      (∃ q m, answer (quo core a b) = .ok q ∧ answer (rem core a b) = .ok m ∧
        a = q * b + m ∧ RemainderFor a b m ∧
        (a.natAbs < 2 ^ shiftLimit → longDivMod core a b = (q, m)))) ∧
    (a ≠ 0 ∨ b ≠ 0 → Covered a b → Covered b a →
      ∃ g, gcd core a b = .ok g ∧ 0 < g ∧ g ∣ a ∧ g ∣ b ∧ (∀ d, d ∣ a → d ∣ b → d ∣ g) ∧
        (Covered (a * b) g → ∃ l, lcm core a b = .ok l ∧ g * l = |a * b|)) ∧
    ∀ ran, (intDiv core a 0).run ran = (.error .zeroDivide, ran) ∧
      (mod core a 0).run ran = (.error .zeroDivide, ran) ∧
      (quo core a 0).run ran = (.error .zeroDivide, ran) ∧
      (rem core a 0).run ran = (.error .zeroDivide, ran) := by
  refine ⟨fun hb hCovered => ⟨?_, ?_⟩, fun h hab hba => ?_, run_zero core a⟩
  · have hDivides := core.divides hCovered
    refine ⟨a.fdiv b, a.fmod b, hDivides.intDiv_eq hb, hDivides.mod_eq hb, ?_,
      fmod_remainder a hb⟩
    rw [mul_comm, Int.mul_fdiv_add_fmod]
  · have hDivides := core.divides hCovered
    refine ⟨a.tdiv b, a.tmod b, hDivides.quo_eq hb, hDivides.rem_eq hb, ?_,
      tmod_remainder a hb, fun hBits => ?_⟩
    · rw [mul_comm, Int.mul_tdiv_add_tmod]
    · exact longDivMod_eq (core.reads_bits hBits) hb
  · have hGcds := core.gcds hab hba
    refine ⟨Int.gcd a b, hGcds.gcd_eq h, ?_, Int.gcd_dvd_left a b, Int.gcd_dvd_right a b,
      fun d => Int.dvd_coe_gcd, fun hProduct => ?_⟩
    · exact_mod_cast Int.gcd_pos_iff.mpr h
    · refine ⟨Int.lcm a b, hGcds.lcm_eq (core.divides hProduct), ?_⟩
      rw [← Int.natCast_mul, Int.gcd_mul_lcm, ← Int.natAbs_mul, Int.natCast_natAbs]

/-- A shift to the right that shifts to the left by a negative count. -/
def shiftBack (x n : Int) : Int :=
  if n < 0 then x * 2 ^ (-n).toNat else Int.shiftRight x n.toNat

def shiftingBack : ProtoCore where
  divide := Int.tdiv
  modulo := Int.tmod
  shiftRight := shiftBack
  shifted := fun x i => shiftBack x (toInt i)
  divide_eq _ _ _ _ := rfl
  modulo_eq _ _ _ _ := rfl
  shiftRight_eq _ n _ := if_neg (Int.not_lt.mpr (Int.natCast_nonneg n))
  shifted_eq _ _ := rfl

theorem shiftingBack_shiftRight : shiftingBack.shiftRight = shiftBack := rfl

/-- A dividend of 141 bits by a divisor of 71, on the long division. -/
theorem divisionLaws_large :
    (∃ q m, answer (quo shiftingBack (-(2 ^ 140 + 1)) (2 ^ 70)) = .ok q ∧
        answer (rem shiftingBack (-(2 ^ 140 + 1)) (2 ^ 70)) = .ok m ∧
        -(2 ^ 140 + 1) = q * 2 ^ 70 + m ∧ RemainderFor (-(2 ^ 140 + 1)) (2 ^ 70) m ∧
        longDivMod shiftingBack (-(2 ^ 140 + 1)) (2 ^ 70) = (q, m)) ∧
      ∃ g l, gcd shiftingBack (-(2 ^ 140 + 1)) (2 ^ 70) = .ok g ∧
        lcm shiftingBack (-(2 ^ 140 + 1)) (2 ^ 70) = .ok l ∧ 0 < g ∧
        g * l = |-(2 ^ 140 + 1) * 2 ^ 70| := by
  have hBits : ∀ x : Int, x.natAbs < 2 ^ 256 → x.natAbs < 2 ^ shiftLimit := fun x h =>
    Nat.lt_trans h (Nat.pow_lt_pow_right (by decide) (by decide))
  have hDividend := hBits (-(2 ^ 140 + 1)) (by decide)
  have hDivisor := hBits (2 ^ 70) (by decide)
  obtain ⟨hDivision, hGcd, -⟩ := divisionLaws shiftingBack (-(2 ^ 140 + 1)) (2 ^ 70)
  obtain ⟨q, m, hQuo, hRem, hEq, hRemainder, hLong⟩ :=
    (hDivision (by decide) (Or.inr hDividend)).2
  obtain ⟨g, hg, hPos, -, -, -, hLcm⟩ :=
    hGcd (Or.inl (by decide)) (Or.inr hDividend) (Or.inr hDivisor)
  obtain ⟨l, hl, hMul⟩ := hLcm (Or.inr (hBits (-(2 ^ 140 + 1) * 2 ^ 70) (by decide)))
  exact ⟨⟨q, m, hQuo, hRem, hEq, hRemainder, hLong hDividend⟩, g, l, hg, hl, hPos, hMul⟩

/-- Where every bit that is read is zero, so are the quotient and the remainder. -/
theorem longLoop_zeros {n : Nat} (hBits : ∀ i < n, core.shifted x i % 2 = 0)
    (hy : 0 < y) : longLoop core x y n 0 0 = (0, 0) := by
  induction n with
  | zero => rfl
  | succ n ih =>
      have hStep : longStep core x y n 0 0 = (0, 0) := by
        have hLt : ¬ (0 : Int) ≥ y := Int.not_le.mpr hy
        simp only [longStep, hBits n (Nat.lt_succ_self n), Int.mul_zero, Int.add_zero, if_neg hLt]
      rw [longLoop, hStep]
      exact ih fun i hi => hBits i (Nat.lt_succ_of_lt hi)

/-- Of the first integer of more than 2^31 bits, it reads none that is set. -/
theorem shiftingBack_reads (h : i < shiftLimit + 32) :
    shiftingBack.shifted (2 ^ shiftLimit) i % 2 = 0 := by
  have hEven : ∀ (x : Int) {n : Nat}, 0 < n → x * 2 ^ n % 2 = 0 := fun x n hn => by
    rw [← Nat.sub_add_cancel hn, pow_succ, ← mul_assoc, Int.mul_emod_left]
  have hLimit : shiftLimit = 0x80000000 := rfl
  by_cases hi : i < shiftLimit
  · have hCast : toInt i = i := toInt_eq (by omega) (by omega)
    have hSplit : (2 : Int) ^ shiftLimit = 2 ^ (shiftLimit - i) * ((2 ^ i : Nat) : Int) := by
      rw [Int.natCast_pow, Nat.cast_ofNat, ← pow_add, Nat.sub_add_cancel hi.le]
    have hNat : ¬ (i : Int) < 0 := by omega
    have hShift : shiftingBack.shifted (2 ^ shiftLimit) i = 1 * 2 ^ (shiftLimit - i) := by
      rw [shiftingBack.shifted_eq, shiftingBack_shiftRight, hCast, shiftBack, if_neg hNat,
        Int.toNat_natCast, shiftRight_eq, hSplit,
        Int.mul_ediv_cancel _ (by positivity), one_mul]
    rw [hShift]
    exact hEven 1 (Nat.sub_pos_of_lt hi)
  · have hNegative : toInt i < 0 := by
      unfold toInt
      omega
    rw [shiftingBack.shifted_eq, shiftingBack_shiftRight, shiftBack, if_pos hNegative]
    exact hEven _ (by omega)

/-- The first integer of more than 2^31 bits divided into zero and a zero remainder. -/
theorem divisionLaws_longDividend :
    answer (intDiv shiftingBack (2 ^ shiftLimit) 0x4000000000000000) = .ok 0 ∧
      answer (mod shiftingBack (2 ^ shiftLimit) 0x4000000000000000) = .ok 0 ∧
      (2 ^ shiftLimit : Int) ≠ 0 * 0x4000000000000000 + 0 := by
  have hPos : (0 : Int) < 2 ^ shiftLimit := by positivity
  have hBits : bitLength (2 ^ shiftLimit) 0 ≤ shiftLimit + 32 := by
    have hLt : (2 : Int) ^ shiftLimit < ((2 ^ (32 * 0x4000001) : Nat) : Int) := by
      rw [Int.natCast_pow]
      exact pow_lt_pow_right₀ (by decide) (by decide)
    have hLe := bitLength_le 0 hLt
    rwa [Nat.zero_add] at hLe
  have hLoop := longLoop_zeros (y := 0x4000000000000000)
    (fun i hi => shiftingBack_reads (Nat.lt_of_lt_of_le hi hBits)) (by decide)
  have hDivision : truncDivMod shiftingBack (2 ^ shiftLimit) 0x4000000000000000 = (0, 0) := by
    have hFits : fitsDivisorWord 0x4000000000000000 = false := by decide
    have hNat : ¬ (2 : Int) ^ shiftLimit < 0 := by omega
    have hWord : ¬ (0x4000000000000000 : Int) < 0 := by decide
    simp only [truncDivMod, hFits, Bool.false_eq_true, if_false, longDivMod, hNat, hWord,
      decide_false, hLoop]
    rfl
  have hFloor : floorDivMod shiftingBack (2 ^ shiftLimit) 0x4000000000000000 = (0, 0) := by
    rw [floorDivMod, hDivision]
    rfl
  refine ⟨?_, ?_, by omega⟩
  · rw [intDiv, answer_divided _ _ _ (by decide), hFloor]
  · rw [mod, answer_divided _ _ _ (by decide), hFloor]

end ProtoST.Primitives.IntegerDivision

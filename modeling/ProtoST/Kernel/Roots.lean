import Mathlib.Tactic.NormNum
import ProtoST.Kernel.Rationals
import ProtoST.Lib.WhileLoop

/-!
# Integer roots and powers

`highBit` and `sqrtFloor` of `lib/kernel/number.st`, over the primitive `bitShift:`, and the laws of
`raisedTo:` with a non-negative exponent.

`bitShift:` shifts by a million bits at most, and `raisedTo:` reads an exponent of 64 bits.

## Main results

* `sqrtFloor_spec` — the abacus answers the root of an integer that the shifts reach.
* `rootAndPower_iff` — roots and powers are exact for such integers and exponents, and only for
  them.
-/

namespace ProtoST.Kernel.Roots

open ProtoST.Kernel.Fractions
open ProtoST.Lib.WhileLoop (whileTrue whileTrue_spec)
open ProtoST.Primitives
open ProtoST.Primitives.IntegerDivision (Division Signal answer)
open ProtoST.Primitives.WideBits (bitShift)

/-- A method with loops: nothing when their fuel is spent. -/
abbrev Method := ExceptT Signal Option

def sent {α : Type} (s : Except Signal α) : Method α := ExceptT.mk (some s)

/-! ## `highBit` and `sqrtFloor` -/

/-- The variables of `highBit`. -/
structure Bits where
  n : Int
  bits : Int

def highBitLoop (fuel : Nat) (v : Bits) : Method Bits :=
  whileTrue (ExceptT.mk none) (fun v => pure (decide (v.n > 0)))
    (fun v => do return ⟨← sent (bitShift v.n (-1)), v.bits + 1⟩) fuel v

def highBit (fuel : Nat) (self : Int) : Method Int :=
  if self < 0 then throw (.error "highBit is not defined for negative integers")
  else do return (← highBitLoop fuel ⟨self, 0⟩).bits

/-- The variables of `sqrtFloor`. -/
structure Abacus where
  n : Int
  root : Int
  bit : Int

/-- A turn of the loop of `sqrtFloor`. -/
def turn (v : Abacus) : Method Abacus := do
  if v.n ≥ v.root + v.bit then
    return ⟨v.n - (v.root + v.bit), (← sent (bitShift v.root (-1))) + v.bit,
      ← sent (bitShift v.bit (-2))⟩
  else return ⟨v.n, ← sent (bitShift v.root (-1)), ← sent (bitShift v.bit (-2))⟩

def sqrtFloor (core : Division) (fuel : Nat) (self : Int) : Method Int :=
  if self < 0 then throw (.error "sqrtFloor is not defined for negative integers")
  else do
    let half ← sent (answer (IntegerDivision.intDiv core ((← highBit fuel self) - 1) 2))
    let bit ← sent (bitShift 1 (half * 2))
    let v ← whileTrue (ExceptT.mk none)
      (fun v => pure (decide (v.bit > 0))) turn fuel ⟨self, 0, bit⟩
    return v.root

/-! ## `highBit` -/

theorem shift_one (n : Int) : bitShift n (-1) = .ok (n / 2) :=
  WideBits.bitShift_eq n (n := -1) (by decide)

theorem shift_two (n : Int) : bitShift n (-2) = .ok (n / 4) :=
  WideBits.bitShift_eq n (n := -2) (by decide)

/-- `bits` bits have been shifted out of `number`, the last of them set. -/
structure Shifted (number : Int) (v : Bits) : Prop where
  nonneg : 0 ≤ v.bits
  left : v.n = number / 2 ^ v.bits.toNat
  reached : v.bits = 0 ∨ 2 ^ (v.bits.toNat - 1) ≤ number

variable {fuel : Nat}

theorem highBitLoop_spec (self : Int) (hFuel : self.toNat < fuel) :
    ∃ v, highBitLoop fuel ⟨self, 0⟩ = pure v ∧ Shifted self v ∧ ¬ v.n > 0 := by
  refine whileTrue_spec _ (fun v : Bits => v.n.toNat) (fun v _ => rfl)
    (fun v hv hMore => ?_) ?_ hFuel
  · obtain ⟨hNonneg, hLeft, -⟩ := hv
    have hNext : (v.bits + 1).toNat = v.bits.toNat + 1 := by omega
    refine ⟨⟨v.n / 2, v.bits + 1⟩, ?_, ⟨Int.add_nonneg hNonneg (by decide), ?_, .inr ?_⟩, ?_⟩
    · rw [shift_one]
      rfl
    · rw [hNext, pow_succ, hLeft]
      exact Int.ediv_ediv_of_nonneg (by positivity)
    · rw [hNext, Nat.add_sub_cancel]
      have hPos : 0 < self / 2 ^ v.bits.toNat := hLeft ▸ hMore
      exact Int.one_mul (2 ^ v.bits.toNat) ▸ (Int.le_ediv_iff_mul_le (by positivity)).mp hPos
    · show (v.n / 2).toNat < v.n.toNat
      omega
  · refine ⟨le_refl 0, ?_, .inl rfl⟩
    show self = self / 2 ^ 0
    rw [pow_zero, Int.ediv_one]

/-- The number of the bits of an integer. -/
structure HighBit (number bits : Int) : Prop where
  nonneg : 0 ≤ bits
  below : number < 2 ^ bits.toNat
  reached : bits = 0 ∨ 2 ^ (bits.toNat - 1) ≤ number

theorem highBit_spec {self : Int} (h : 0 ≤ self) (hFuel : self.toNat < fuel) :
    ∃ bits, highBit fuel self = pure bits ∧ HighBit self bits := by
  obtain ⟨v, hLoop, ⟨hNonneg, hLeft, hReached⟩, hEnd⟩ := highBitLoop_spec self hFuel
  refine ⟨v.bits, ?_, hNonneg, ?_, hReached⟩
  · rw [highBit, if_neg (not_lt.mpr h), hLoop, pure_bind]
  · by_contra hMore
    have hPos : 1 ≤ self / 2 ^ v.bits.toNat :=
      (Int.le_ediv_iff_mul_le (by positivity)).mpr (by rw [Int.one_mul]; exact not_lt.mp hMore)
    omega

variable {number bits : Int}

theorem HighBit.le_of_lt (h : HighBit number bits) {m : Nat}
    (hLess : number < 2 ^ m) : bits ≤ m := by
  have hNonneg := h.nonneg
  rcases h.reached with hZero | hReached
  · omega
  · have hExp : bits.toNat - 1 < m := (pow_lt_pow_iff_right₀ (by decide : (1 : Int) < 2)).mp
      (lt_of_le_of_lt hReached hLess)
    omega

theorem HighBit.lt_of_le (h : HighBit number bits) {m : Nat}
    (hReached : 2 ^ m ≤ number) : (m : Int) < bits := by
  have hExp : m < bits.toNat := (pow_lt_pow_iff_right₀ (by decide : (1 : Int) < 2)).mp
    (lt_of_le_of_lt hReached h.below)
  omega

theorem HighBit.unique {number p q : Int} (hp : HighBit number p) (hq : HighBit number q) :
    p = q := by
  have hLe := hp.le_of_lt hq.below
  have hGe := hq.le_of_lt hp.below
  have hpNonneg := hp.nonneg
  have hqNonneg := hq.nonneg
  omega

/-! ## The abacus -/

/-- The root so far is `s`, and `k` of its bits are to be tried. -/
structure Tried (number s : Int) (k : Nat) (v : Abacus) : Prop where
  n : v.n = number - s * s
  root : v.root = s * 2 ^ k
  bit : v.bit = 4 ^ k / 4
  reached : s * s ≤ number
  below : number < (s + 2 ^ k) * (s + 2 ^ k)

theorem four_pow (k : Nat) : (4 : Int) ^ k = 2 ^ k * 2 ^ k := by
  rw [← mul_pow]
  norm_num

/-- A turn tries a bit. -/
theorem turn_tried {self s : Int} {k : Nat} {v : Abacus} (h : Tried self s (k + 1) v) :
    ∃ w s', turn v = pure w ∧ Tried self s' k w ∧ v.bit = 4 ^ k := by
  have hBit : v.bit = 4 ^ k := by
    rw [h.bit, pow_succ]
    exact Int.mul_ediv_cancel _ (by decide)
  have hHalf : v.root / 2 = s * 2 ^ k := by
    rw [h.root, pow_succ, ← mul_assoc]
    exact Int.mul_ediv_cancel _ (by decide)
  have hTurn : turn v = pure (if v.n ≥ v.root + v.bit
      then ⟨v.n - (v.root + v.bit), v.root / 2 + v.bit, v.bit / 4⟩
      else ⟨v.n, v.root / 2, v.bit / 4⟩) := by
    unfold turn
    rw [shift_one, shift_two]
    split
    next => rfl
    next => rfl
  have hSquare : (s + 2 ^ k) * (s + 2 ^ k) = s * s + (v.root + v.bit) := by
    rw [h.root, hBit, four_pow, pow_succ]
    ring
  by_cases hFits : v.n ≥ v.root + v.bit
  · rw [if_pos hFits] at hTurn
    refine ⟨_, s + 2 ^ k, hTurn, ⟨?_, ?_, by rw [hBit], ?_, ?_⟩, hBit⟩
    · rw [hSquare, h.n]
      ring
    · rw [hHalf, hBit, four_pow]
      ring
    · rw [hSquare]
      have hN := h.n
      omega
    · have hDouble : s + 2 ^ k + 2 ^ k = s + 2 ^ (k + 1) := by
        rw [pow_succ]
        ring
      rw [hDouble]
      exact h.below
  · rw [if_neg hFits] at hTurn
    refine ⟨_, s, hTurn, ⟨h.n, hHalf, by rw [hBit], h.reached, ?_⟩, hBit⟩
    rw [hSquare]
    have hN := h.n
    omega

/-- The integer square root. -/
def IsRoot (self r : Int) : Prop := r * r ≤ self ∧ self < (r + 1) * (r + 1)

theorem abacus_spec {self : Int} {k : Nat} (h : 0 ≤ self) (hBelow : self < 4 ^ k)
    (hFuel : 4 ^ k < fuel) :
    ∃ v, whileTrue (ExceptT.mk none) (fun v => pure (decide (v.bit > 0))) turn fuel
      ⟨self, 0, 4 ^ k / 4⟩ = (pure v : Method Abacus) ∧ IsRoot self v.root := by
  have hStart : Tried self 0 k ⟨self, 0, 4 ^ k / 4⟩ := by
    refine ⟨?_, (zero_mul _).symm, rfl, h, ?_⟩
    · rw [mul_zero, sub_zero]
    · rw [zero_add, ← four_pow]
      exact hBelow
  have hBody (v : Abacus) (hv : ∃ s j, Tried self s j v) (hMore : v.bit > 0) :
      ∃ w, turn v = pure w ∧ (∃ s j, Tried self s j w) ∧ w.bit.toNat < v.bit.toNat := by
    obtain ⟨s, j, hTried⟩ := hv
    cases j with
    | zero =>
        have hBit := hTried.bit
        rw [pow_zero] at hBit
        omega
    | succ j =>
        obtain ⟨w, s', hTurn, hNext, hBit⟩ := turn_tried hTried
        have hPos : (0 : Int) < 4 ^ j := by positivity
        have hLess := hNext.bit
        exact ⟨w, hTurn, ⟨s', j, hNext⟩, by omega⟩
  have hEnough : ((4 : Int) ^ k / 4).toNat < fuel := by
    have hCast : (4 : Int) ^ k = ((4 ^ k : Nat) : Int) := by
      push_cast
      rfl
    omega
  obtain ⟨v, hLoop, ⟨s, j, hTried⟩, hEnd⟩ := whileTrue_spec (ExceptT.mk none)
    (fun v : Abacus => v.bit.toNat) (fun _ _ => rfl) hBody ⟨0, k, hStart⟩ hEnough
  refine ⟨v, hLoop, ?_⟩
  cases j with
  | zero =>
      have hRoot : v.root = s := by rw [hTried.root, pow_zero, mul_one]
      have hBelow := hTried.below
      rw [pow_zero] at hBelow
      rw [hRoot]
      exact ⟨hTried.reached, hBelow⟩
  | succ j =>
      have hPos : (0 : Int) < 4 ^ j := by positivity
      obtain ⟨-, -, -, -, hBit⟩ := turn_tried hTried
      omega

/-! ## `sqrtFloor` -/

/-- The bits that `bitShift:` shifts by, at most. -/
def shiftLimit : Nat := 1000000

theorem bitShift_limit {m : Int} (h : (shiftLimit : Int) < m) (n : Int) :
    ∃ s, bitShift n m = .error s := by
  unfold bitShift
  cases hLong : WideBits.asLong m with
  | error s => exact ⟨s, rfl⟩
  | ok k =>
      have hSame : k = m := by
        unfold WideBits.asLong at hLong
        split at hLong
        · cases hLong
        · exact (Except.ok.inj hLong).symm
      subst hSame
      have hMany : (1000000 : Int) < k := h
      exact ⟨_, if_pos (.inl hMany)⟩

/-- The shift to the first bit that is tried. -/
theorem highBit_half (h : HighBit number bits) :
    ∃ k : Nat, (bits - 1).fdiv 2 = (k : Int) - 1 ∧ bits ≤ 2 * k ∧ 2 * k ≤ bits + 1 ∧
      number < 4 ^ k := by
  have hNonneg := h.nonneg
  have hHalf : (bits - 1).fdiv 2 = (bits - 1) / 2 := Int.fdiv_eq_ediv_of_nonneg _ (by decide)
  refine ⟨((bits - 1) / 2 + 1).toNat, by omega, by omega, by omega, ?_⟩
  calc number < 2 ^ bits.toNat := h.below
    _ ≤ 2 ^ (2 * ((bits - 1) / 2 + 1).toNat) := pow_le_pow_right₀ (by decide) (by omega)
    _ = 4 ^ ((bits - 1) / 2 + 1).toNat := by
        rw [pow_mul]
        norm_num

theorem firstBit {k : Nat} (h : 2 * k ≤ shiftLimit + 2) :
    bitShift 1 (((k : Int) - 1) * 2) = .ok (4 ^ k / 4) := by
  have hLimit : 2 * k ≤ 1000000 + 2 := h
  rw [WideBits.bitShift_eq 1 (by omega)]
  cases k with
  | zero => rfl
  | succ k =>
      have hExp : (((k + 1 : Nat) : Int) - 1) * 2 = ((2 * k : Nat) : Int) := by
        push_cast
        ring
      have hFour : (4 : Int) ^ (k + 1) / 4 = 4 ^ k := by
        rw [pow_succ]
        exact Int.mul_ediv_cancel _ (by decide)
      rw [hExp, if_pos (Int.natCast_nonneg _), Int.toNat_natCast, hFour, one_mul, pow_mul]
      push_cast
      rfl

variable (core : Division)

/-- A method that ends, with an answer or a signal. -/
def Ends {α : Type} (run : Nat → Method α) (outcome : Except Signal α) : Prop :=
  ∃ enough, ∀ fuel, enough ≤ fuel → run fuel = sent outcome

theorem Ends.unique {α : Type} {run : Nat → Method α} {p q : Except Signal α} (hp : Ends run p)
    (hq : Ends run q) : p = q := by
  obtain ⟨n, hn⟩ := hp
  obtain ⟨m, hm⟩ := hq
  exact Option.some.inj ((hn (max n m) (le_max_left n m)).symm.trans (hm _ (le_max_right n m)))

theorem isRoot_unique {number r s : Int} (hr : IsRoot number r) (hs : IsRoot number s)
    (hrNonneg : 0 ≤ r) (hsNonneg : 0 ≤ s) : r = s := by
  have hLe {p q : Int} (hp : IsRoot number p) (hq : IsRoot number q) (hpos : 0 ≤ q) : p ≤ q := by
    by_contra hMore
    have hSquare : (q + 1) * (q + 1) ≤ p * p :=
      mul_self_le_mul_self (by omega) (by omega)
    exact absurd (hSquare.trans hp.1) (not_le.mpr hq.2)
  exact le_antisymm (hLe hr hs hsNonneg) (hLe hs hr hrNonneg)

theorem IsRoot.nonneg {number r : Int} (h : IsRoot number r) : 0 ≤ r := by
  obtain ⟨hLow, hHigh⟩ := h
  nlinarith

/-- What `sqrtFloor` does after `highBit`. -/
theorem sqrtFloor_eq {n : Int} (h : 0 ≤ n) {bits : Int}
    (hBits : highBit fuel n = pure bits) {k : Nat} (hHalf : (bits - 1).fdiv 2 = (k : Int) - 1) :
    sqrtFloor core fuel n = do
      let bit ← sent (bitShift 1 (((k : Int) - 1) * 2))
      let v ← whileTrue (ExceptT.mk none) (fun v => pure (decide (v.bit > 0))) turn fuel ⟨n, 0, bit⟩
      return v.root := by
  unfold sqrtFloor
  rw [if_neg (not_lt.mpr h), hBits, pure_bind, IntegerDivision.intDiv_eq core _ (by decide), hHalf]
  rfl

/-- The root of an integer that the shifts reach. -/
theorem sqrtFloor_spec {n : Int} (h : 0 ≤ n) (hLimit : n < 2 ^ (shiftLimit + 2)) :
    ∃ r, IsRoot n r ∧ Ends (fun fuel => sqrtFloor core fuel n) (.ok r) := by
  have hRun (fuel : Nat) (hFuel : n.toNat + 4 ^ (shiftLimit + 2) + 1 ≤ fuel) :
      ∃ r, IsRoot n r ∧ sqrtFloor core fuel n = pure r := by
    have hSelf : n.toNat < fuel :=
      Nat.lt_of_lt_of_le (Nat.lt_succ_of_le (Nat.le_add_right _ _)) hFuel
    have hTurns : 4 ^ (shiftLimit + 2) < fuel :=
      Nat.lt_of_lt_of_le (Nat.lt_succ_of_le (Nat.le_add_left _ _)) hFuel
    obtain ⟨bits, hBits, hHigh⟩ := highBit_spec h hSelf
    obtain ⟨k, hHalf, -, hUpper, hBelow⟩ := highBit_half hHigh
    have hMost := hHigh.le_of_lt hLimit
    have hLimit' : shiftLimit = 1000000 := rfl
    have hShift : 2 * k ≤ shiftLimit + 2 := by omega
    have hPower : 4 ^ k ≤ 4 ^ (shiftLimit + 2) := Nat.pow_le_pow_right (by decide) (by omega)
    obtain ⟨v, hLoop, hRoot⟩ := abacus_spec h hBelow (lt_of_le_of_lt hPower hTurns)
    refine ⟨v.root, hRoot, ?_⟩
    rw [sqrtFloor_eq core h hBits hHalf, firstBit hShift]
    exact congrArg (fun run : Method Abacus => run >>= fun v => pure v.root) hLoop
  obtain ⟨r, hRoot, -⟩ := hRun _ le_rfl
  refine ⟨r, hRoot, n.toNat + 4 ^ (shiftLimit + 2) + 1, fun fuel hFuel => ?_⟩
  obtain ⟨s, hOther, hAnswer⟩ := hRun fuel hFuel
  have hSame : s = r := isRoot_unique hOther hRoot hOther.nonneg hRoot.nonneg
  rw [← hSame]
  exact hAnswer

/-- An integer whose first bit is out of reach of the shifts. -/
theorem sqrtFloor_error {n : Int} (hLimit : 2 ^ (shiftLimit + 2) ≤ n) :
    ∃ s, Ends (fun fuel => sqrtFloor core fuel n) (.error s) := by
  have h : 0 ≤ n := le_trans (by positivity) hLimit
  have hRun (fuel : Nat) (hFuel : n.toNat + 1 ≤ fuel) :
      ∃ bits, HighBit n bits ∧ highBit fuel n = pure bits := by
    obtain ⟨bits, hBits, hHigh⟩ := highBit_spec h (show n.toNat < fuel by omega)
    exact ⟨bits, hHigh, hBits⟩
  obtain ⟨bits, hHigh, -⟩ := hRun _ le_rfl
  obtain ⟨k, hHalf, hLower, -, -⟩ := highBit_half hHigh
  have hMany := hHigh.lt_of_le hLimit
  have hShift : (shiftLimit : Int) < ((k : Int) - 1) * 2 := by
    have hEven : shiftLimit = 1000000 := rfl
    omega
  obtain ⟨s, hs⟩ := bitShift_limit hShift 1
  refine ⟨s, n.toNat + 1, fun fuel hFuel => ?_⟩
  obtain ⟨bits', hHigh', hBits⟩ := hRun fuel hFuel
  have hSame : bits' = bits := hHigh'.unique hHigh
  subst hSame
  show sqrtFloor core fuel n = _
  rw [sqrtFloor_eq core h hBits hHalf, hs]
  rfl

/-! ## Powers -/

/-- The exponents that `raisedTo:` reads. -/
def ShortExponent (e : Nat) : Prop := e < 0x8000000000000000

theorem exponentFits_iff (b : Number) (e : Nat) : ExponentFits b e ↔ ShortExponent e := by
  unfold ShortExponent
  cases b with
  | integer n =>
      unfold ExponentFits FitsLong
      omega
  | fraction f =>
      unfold ExponentFits FitsLong
      omega

theorem raisedTo_short {b : Number} (hb : b.Canonical) {e : Nat} (h : ShortExponent e) :
    b.raisedTo core e = .ok (ofRat (b.value ^ e)) := by
  have hPower := Number.raisedTo_answers core hb ((exponentFits_iff b e).mpr h)
  have hAnswer := hPower.1 fun hNeg => absurd hNeg.2 (by omega)
  rw [zpow_natCast] at hAnswer
  exact answers_eq hAnswer

theorem raisedTo_long (b : Number) {e : Nat} (h : ¬ ShortExponent e) :
    b.raisedTo core e = .error (.error "exceeds long long range") :=
  Number.raisedTo_not_fits core fun hFits => h ((exponentFits_iff b e).mp hFits)

/-- The root of `n`, and the powers of `b`. -/
structure RootAndPower (n : Int) (b : Number) (d e : Nat) : Prop where
  sqrtFloor : ∃ r, IsRoot n r ∧ Ends (fun fuel => sqrtFloor core fuel n) (.ok r)
  raisedTo : Answers (b.raisedTo core e) (b.value ^ e)
  raisedTo_add : ∃ p q, b.raisedTo core d = .ok p ∧ b.raisedTo core e = .ok q ∧
    b.raisedTo core (d + e : Nat) = Number.mul core p q

/-- Roots and powers are exact within the shifts and the exponents that the primitives take. -/
theorem rootAndPower_iff (n : Int) (hn : 0 ≤ n) (b : Number) (hb : b.Canonical) (d e : Nat) :
    RootAndPower core n b d e ↔ n < 2 ^ (shiftLimit + 2) ∧ d + e < 0x8000000000000000 := by
  constructor
  · intro h
    constructor
    · by_contra hLarge
      obtain ⟨r, -, hAnswer⟩ := h.sqrtFloor
      obtain ⟨s, hError⟩ := sqrtFloor_error core (not_lt.mp hLarge)
      cases hAnswer.unique hError
    · by_contra hLong
      obtain ⟨p, q, hp, hq, hMul⟩ := h.raisedTo_add
      rw [raisedTo_long core b hLong] at hMul
      by_cases hShort : ShortExponent d ∧ ShortExponent e
      · rw [raisedTo_short core hb hShort.1] at hp
        rw [raisedTo_short core hb hShort.2] at hq
        cases hp
        cases hq
        rw [mul_ofRat] at hMul
        cases hMul
      · rcases not_and_or.mp hShort with hd | he
        · rw [raisedTo_long core b hd] at hp
          cases hp
        · rw [raisedTo_long core b he] at hq
          cases hq
  · rintro ⟨hLimit, hShort⟩
    have hd : ShortExponent d := by
      unfold ShortExponent
      omega
    have he : ShortExponent e := by
      unfold ShortExponent
      omega
    refine ⟨sqrtFloor_spec core hn hLimit, ?_, ofRat (b.value ^ d), ofRat (b.value ^ e),
      raisedTo_short core hb hd, raisedTo_short core hb he, ?_⟩
    · exact ⟨_, raisedTo_short core hb he, canonical_ofRat _, value_ofRat _⟩
    · rw [raisedTo_short core hb hShort, mul_ofRat, pow_add]

/-- The root of ten, and powers of minus one half. -/
theorem rootAndPower_ten :
    RootAndPower IntegerDivision.truncating 10 (.fraction ⟨-1, 2⟩) 2 3 := by
  refine (rootAndPower_iff IntegerDivision.truncating 10 (by decide) (.fraction ⟨-1, 2⟩)
    ⟨by decide, by decide⟩ 2 3).mpr ⟨?_, by decide⟩
  calc (10 : Int) < 2 ^ 4 := by decide
    _ ≤ 2 ^ (shiftLimit + 2) := pow_le_pow_right₀ (by decide) (by decide)

/-- `sqrtFloor` of `2^1000002` signals an error. -/
theorem not_rootAndPower_large :
    ¬ RootAndPower IntegerDivision.truncating (2 ^ (shiftLimit + 2)) (.integer 2) 0 0 := by
  intro h
  obtain ⟨r, -, hAnswer⟩ := h.sqrtFloor
  obtain ⟨s, hError⟩ := sqrtFloor_error IntegerDivision.truncating
    (n := 2 ^ (shiftLimit + 2)) le_rfl
  cases hAnswer.unique hError

end ProtoST.Kernel.Roots

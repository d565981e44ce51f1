import Mathlib.Data.Int.Bitwise
import Mathlib.Data.Int.NatAbs
import Mathlib.Tactic.Common
import Mathlib.Tactic.Linarith
import Mathlib.Tactic.Ring

/-!
# Two's complement of unbounded width

An integer stands for its bits `Int.testBit`, which are those of its sign from some place on.  A
bitwise operation may be computed from the right, some bits at a time, until the operands are
their signs.

## Main results

* `eq_of_testBit_eq` — an integer is its bits.
* `halving_induction` — induction from the signs, on the halves of two integers.
* `bitwise_chunk` — an operation acts on the low bits and on the rest apart.
* `land_add_lor` — what two integers share, and what they cover, sum to both.
-/

namespace ProtoST.TwosComplement

/-- An integer all of whose bits are its sign. -/
def IsSign (x : Int) : Prop := x = 0 ∨ x = -1

instance (x : Int) : Decidable (IsSign x) := inferInstanceAs (Decidable (x = 0 ∨ x = -1))

/-- A floored quotient is nearer to the signs. -/
theorem natAbs_ediv_le (x : Int) {b : Int} (hb : 1 < b) : (x / b).natAbs ≤ x.natAbs := by
  rcases le_or_gt 0 x with hPos | hNeg
  · have hNonneg := Int.ediv_nonneg hPos (by omega : 0 ≤ b)
    have hLe := Int.ediv_le_self b hPos
    omega
  · have hLow : x ≤ x / b := by
      rw [Int.le_ediv_iff_mul_le (by omega)]
      nlinarith
    have hHigh : x / b < 0 := Int.ediv_neg_of_neg_of_pos hNeg (by omega)
    omega

theorem natAbs_ediv_lt {x b : Int} (hb : 1 < b) (h : ¬ IsSign x) :
    (x / b).natAbs < x.natAbs := by
  unfold IsSign at h
  rcases lt_trichotomy x 0 with hNeg | hZero | hPos
  · have hTwice : (x + 1) * b ≤ (x + 1) * 2 :=
      Int.mul_le_mul_of_nonpos_left (by omega) (by omega)
    have hLow : x < x / b := by
      rw [← Int.add_one_le_iff, Int.le_ediv_iff_mul_le (by omega)]
      omega
    have hHigh : x / b < 0 := Int.ediv_neg_of_neg_of_pos hNeg (by omega)
    omega
  · exact absurd (Or.inl hZero) h
  · have hNonneg := Int.ediv_nonneg (Int.le_of_lt hPos) (by omega : 0 ≤ b)
    have hLt := Int.ediv_lt_self_of_pos_of_ne_one hPos (by omega : b ≠ 1)
    omega

/-- The quotients of two integers are nearer to the signs, unless both integers are. -/
theorem chunk_lt {x y b : Int} (hb : 1 < b) (h : ¬ (IsSign x ∧ IsSign y)) :
    (x / b).natAbs + (y / b).natAbs < x.natAbs + y.natAbs := by
  have hx := natAbs_ediv_le x hb
  have hy := natAbs_ediv_le y hb
  rcases not_and_or.mp h with hSign | hSign
  · have := natAbs_ediv_lt hb hSign
    omega
  · have := natAbs_ediv_lt hb hSign
    omega

/-- Induction from the signs, on the halves of two integers. -/
theorem halving_induction {P : Int → Int → Prop} (sign : ∀ x y, IsSign x → IsSign y → P x y)
    (half : ∀ x y, P (x / 2) (y / 2) → P x y) (x y : Int) : P x y := by
  induction hSize : x.natAbs + y.natAbs using Nat.strong_induction_on generalizing x y with
  | _ size ih =>
      by_cases h : IsSign x ∧ IsSign y
      · exact sign x y h.1 h.2
      · exact half x y (ih _ (hSize ▸ chunk_lt (by decide) h) _ _ rfl)

/-! ## Bits -/

theorem bit_half (x : Int) : Int.bit (Int.bodd x) (x / 2) = x := by
  rw [← Int.div2_val, Int.bit_decomp]

theorem testBit_succ (x : Int) (i : Nat) : x.testBit (i + 1) = (x / 2).testBit i := by
  conv_lhs => rw [← bit_half x]
  exact Int.testBit_bit_succ i _ _

theorem testBit_zero (x : Int) : x.testBit 0 = Int.bodd x := by
  conv_lhs => rw [← bit_half x]
  exact Int.testBit_bit_zero _ _

theorem bodd_eq (x : Int) : Int.bodd x = decide (x % 2 = 1) := by
  have h := Int.bodd_add_div2 x
  rw [Int.div2_val] at h
  cases hOdd : Int.bodd x with
  | false =>
      rw [hOdd, cond_false] at h
      exact (decide_eq_false (by omega)).symm
  | true =>
      rw [hOdd, cond_true] at h
      exact (decide_eq_true (by omega)).symm

/-- The bit at a place is what a division reads there. -/
theorem testBit_eq (x : Int) (i : Nat) :
    x.testBit i = decide (x / ((2 ^ i : Nat) : Int) % 2 = 1) := by
  induction i generalizing x with
  | zero => rw [testBit_zero, bodd_eq, pow_zero, Nat.cast_one, Int.ediv_one]
  | succ i ih =>
      rw [testBit_succ, ih, Int.ediv_ediv_of_nonneg (by decide), pow_succ, Nat.mul_comm]
      rfl

/-- An integer is its bits. -/
theorem eq_of_testBit_eq {x y : Int} (h : ∀ i, x.testBit i = y.testBit i) : x = y := by
  induction x, y using halving_induction with
  | sign x y hx hy =>
      have hLow := h 0
      rcases hx with rfl | rfl <;> rcases hy with rfl | rfl
      · rfl
      · exact absurd hLow (by decide)
      · exact absurd hLow (by decide)
      · rfl
  | half x y ih =>
      have hHalf : x / 2 = y / 2 := ih fun i => by
        rw [← testBit_succ, ← testBit_succ, h]
      rw [← bit_half x, ← bit_half y, hHalf, ← testBit_zero x, ← testBit_zero y, h]

/-! ## Signs -/

/-- The integer all of whose bits are `b`. -/
def signOf (b : Bool) : Int := if b then -1 else 0

theorem testBit_signOf (b : Bool) (i : Nat) : (signOf b).testBit i = b := by
  cases b with
  | false => exact Nat.zero_testBit i
  | true => exact congrArg not (Nat.zero_testBit i)

theorem signOf_eq {x : Int} (h : IsSign x) : signOf (decide (x = -1)) = x := by
  rcases h with rfl | rfl <;> rfl

/-- An operation on signs is the operation on their bits. -/
theorem bitwise_signOf (f : Bool → Bool → Bool) (a b : Bool) :
    Int.bitwise f (signOf a) (signOf b) = signOf (f a b) :=
  eq_of_testBit_eq fun i => by
    rw [Int.testBit_bitwise, testBit_signOf, testBit_signOf, testBit_signOf]

/-! ## Operations, some bits at a time -/

section Bitwise

variable (f : Bool → Bool → Bool)

theorem bitwise_half (x y : Int) : Int.bitwise f x y / 2 = Int.bitwise f (x / 2) (y / 2) := by
  refine eq_of_testBit_eq fun i => ?_
  rw [← testBit_succ, Int.testBit_bitwise, Int.testBit_bitwise, testBit_succ, testBit_succ]

/-- An operation acts on the high bits by itself. -/
theorem bitwise_ediv (x y : Int) (k : Nat) :
    Int.bitwise f x y / ((2 ^ k : Nat) : Int) =
      Int.bitwise f (x / ((2 ^ k : Nat) : Int)) (y / ((2 ^ k : Nat) : Int)) := by
  induction k generalizing x y with
  | zero => simp
  | succ k ih =>
      have hSplit : ∀ z : Int, z / ((2 ^ (k + 1) : Nat) : Int) = z / 2 / ((2 ^ k : Nat) : Int) :=
        fun z => by
          rw [Int.ediv_ediv_of_nonneg (by decide), pow_succ, Nat.mul_comm]
          rfl
      rw [hSplit, hSplit, hSplit, bitwise_half, ih]

theorem testBit_emod (x : Int) (k i : Nat) :
    (x % ((2 ^ k : Nat) : Int)).testBit i = (decide (i < k) && x.testBit i) := by
  induction k generalizing x i with
  | zero => simp [show (0 : Int).testBit i = false from testBit_signOf false i]
  | succ k ih =>
      have hPow : ((2 ^ (k + 1) : Nat) : Int) = 2 * ((2 ^ k : Nat) : Int) := by
        rw [pow_succ, Nat.mul_comm]
        rfl
      cases i with
      | zero =>
          rw [testBit_zero, testBit_zero, bodd_eq, bodd_eq, hPow,
            Int.emod_emod_of_dvd x (Int.dvd_mul_right 2 _)]
          simp
      | succ i =>
          have hHalf : x % ((2 ^ (k + 1) : Nat) : Int) / 2 = x / 2 % ((2 ^ k : Nat) : Int) := by
            rw [hPow, Int.emod_def, Int.emod_def, Int.mul_assoc,
              Int.sub_mul_ediv_left x _ (by decide),
              Int.ediv_ediv_of_nonneg (by decide)]
          rw [testBit_succ, testBit_succ, hHalf, ih]
          simp

/-- An operation acts on the low bits by itself. -/
theorem bitwise_emod (x y : Int) (k : Nat) :
    Int.bitwise f x y % ((2 ^ k : Nat) : Int) =
      Int.bitwise f (x % ((2 ^ k : Nat) : Int)) (y % ((2 ^ k : Nat) : Int)) %
        ((2 ^ k : Nat) : Int) := by
  refine eq_of_testBit_eq fun i => ?_
  rw [testBit_emod, testBit_emod, Int.testBit_bitwise, Int.testBit_bitwise, testBit_emod,
    testBit_emod]
  by_cases h : i < k
  · simp [h]
  · simp [h]

/-- An operation acts on the low bits and on the rest apart. -/
theorem bitwise_chunk (x y : Int) (k : Nat) :
    Int.bitwise f x y =
      Int.bitwise f (x % ((2 ^ k : Nat) : Int)) (y % ((2 ^ k : Nat) : Int)) %
          ((2 ^ k : Nat) : Int) +
        ((2 ^ k : Nat) : Int) *
          Int.bitwise f (x / ((2 ^ k : Nat) : Int)) (y / ((2 ^ k : Nat) : Int)) := by
  rw [← bitwise_emod, ← bitwise_ediv, Int.emod_add_mul_ediv]

end Bitwise

/-- A mask of ones keeps the low bits. -/
theorem land_mask (x : Int) (k : Nat) :
    Int.land x ((2 ^ k - 1 : Nat) : Int) = x % ((2 ^ k : Nat) : Int) := by
  refine eq_of_testBit_eq fun i => ?_
  have hMask : Int.testBit ((2 ^ k - 1 : Nat) : Int) i = decide (i < k) :=
    Nat.testBit_two_pow_sub_one k i
  rw [Int.testBit_land, hMask, testBit_emod, Bool.and_comm]

theorem land_half (x y : Int) : Int.land x y = Int.bit (Int.bodd x && Int.bodd y)
    (Int.land (x / 2) (y / 2)) := by
  rw [← Int.land_bit, bit_half, bit_half]

theorem lor_half (x y : Int) : Int.lor x y = Int.bit (Int.bodd x || Int.bodd y)
    (Int.lor (x / 2) (y / 2)) := by
  rw [← Int.lor_bit, bit_half, bit_half]

/-- What two integers share, and what they cover, sum to both. -/
theorem land_add_lor (x y : Int) : Int.land x y + Int.lor x y = x + y := by
  induction x, y using halving_induction with
  | sign x y hx hy =>
      rw [← Int.bitwise_and, ← Int.bitwise_or, ← signOf_eq hx, ← signOf_eq hy, bitwise_signOf,
        bitwise_signOf]
      cases decide (x = -1) <;> cases decide (y = -1) <;> rfl
  | half x y ih =>
      have hx := Int.bit_val (Int.bodd x) (x / 2)
      have hy := Int.bit_val (Int.bodd y) (y / 2)
      rw [bit_half] at hx hy
      rw [land_half, lor_half, Int.bit_val, Int.bit_val]
      cases hBitX : Int.bodd x <;> cases hBitY : Int.bodd y <;>
        simp only [hBitX, hBitY, cond_true, cond_false, Bool.and_true, Bool.and_false,
          Bool.or_true, Bool.or_false] at hx hy ⊢ <;> omega

theorem land_comm (x y : Int) : Int.land x y = Int.land y x :=
  eq_of_testBit_eq fun i => by rw [Int.testBit_land, Int.testBit_land, Bool.and_comm]

theorem xor_cancel (x y : Int) : Int.xor (Int.xor x y) y = x :=
  eq_of_testBit_eq fun i => by
    rw [Int.testBit_lxor, Int.testBit_lxor, Bool.xor_assoc, Bool.xor_self, Bool.xor_false]

end ProtoST.TwosComplement

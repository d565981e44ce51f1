import Mathlib.Algebra.Order.Floor.Semifield
import Mathlib.Data.Rat.Floor
import Mathlib.Tactic.FieldSimp
import Mathlib.Tactic.Linarith
import Mathlib.Tactic.Positivity
import Mathlib.Tactic.Ring
import ProtoST.Primitives.IntegerDivision
import ProtoST.Primitives.WideBits

/-!
# Integers and Fractions

`lib/kernel/fraction.st`, the magnitudes of `lib/kernel/number.st`, and the primitives of
`primitives/int_prims.cpp` and `primitives/math_prims.cpp` that run when both numbers are
integers.  A primitive that meets a Fraction asks it to adapt its receiver `n`, which becomes the
Fraction `n/1` and is sent the selector again.

## Main results

* `reduced_answers` — a new Fraction is the canonical form of its quotient.
* `send_spec` — what holds of a primitive and of a kernel method holds of the send.
* `rationalTower_iff` — the numbers are the rationals, for exponents of 64 bits.
-/

namespace ProtoST.Kernel.Fractions

open ProtoST.Primitives
open ProtoST.Primitives.IntegerDivision (Division DivisionCore Run Signal answer gcd)
open ProtoST.Primitives.WideBits (asLong)

structure Fraction where
  numerator : Int
  denominator : Int
  deriving DecidableEq, Repr

inductive Number where
  | integer (n : Int)
  | fraction (f : Fraction)
  deriving DecidableEq, Repr

/-- What a send answers or signals. -/
abbrev Sent := Except Signal

section Methods

variable (core : Division)

/-- `Fraction class >> numerator:denominator:`. -/
def reduced (n d : Int) : Sent Number :=
  if d = 0 then .error .zeroDivide
  else do
    let g ← gcd core n d
    let num ← answer (IntegerDivision.intDiv core n g)
    let den ← answer (IntegerDivision.intDiv core d g)
    let (num, den) := if den < 0 then (-num, -den) else (num, den)
    return if den = 1 then .integer num else .fraction ⟨num, den⟩

/-- A send to a number.  A primitive that meets a fraction asks it to adapt the receiver
(`adaptToNumber:andSend:`). -/
def send {α : Type} (primitive : Int → Int → Sent α) (method : Fraction → Number → Sent α) :
    Number → Number → Sent α
  | .integer n, .integer a => primitive n a
  | .integer n, .fraction g => method ⟨n, 1⟩ (.fraction g)
  | .fraction f, a => method f a

/-! ## Arithmetic -/

/-- `negated`. -/
def Number.negated : Number → Sent Number
  | .integer n => .ok (.integer (-n))
  | .fraction f => reduced core (-f.numerator) f.denominator

/-- `Fraction >> +`. -/
def Fraction.add (f : Fraction) : Number → Sent Number
  | .integer a => reduced core (f.numerator + a * f.denominator) f.denominator
  | .fraction g =>
      reduced core (f.numerator * g.denominator + g.numerator * f.denominator)
        (f.denominator * g.denominator)

/-- `Fraction >> -`. -/
def Fraction.sub (f : Fraction) (a : Number) : Sent Number := do
  Fraction.add core f (← Number.negated core a)

/-- `Fraction >> *`. -/
def Fraction.mul (f : Fraction) : Number → Sent Number
  | .integer a => reduced core (f.numerator * a) f.denominator
  | .fraction g => reduced core (f.numerator * g.numerator) (f.denominator * g.denominator)

/-- `Fraction >> /`. -/
def Fraction.div (f : Fraction) : Number → Sent Number
  | .integer a => reduced core f.numerator (f.denominator * a)
  | .fraction g => reduced core (f.numerator * g.denominator) (f.denominator * g.numerator)

/-- `+`. -/
def Number.add : Number → Number → Sent Number :=
  send (fun n a => .ok (.integer (n + a))) (Fraction.add core)

/-- `-`. -/
def Number.sub : Number → Number → Sent Number :=
  send (fun n a => .ok (.integer (n - a))) (Fraction.sub core)

/-- `*`. -/
def Number.mul : Number → Number → Sent Number :=
  send (fun n a => .ok (.integer (n * a))) (Fraction.mul core)

/-- `/`, with `Integer >> /`. -/
def Number.div : Number → Number → Sent Number := send (reduced core) (Fraction.div core)

/-- `reciprocal`. -/
def Number.reciprocal : Number → Sent Number
  | .integer n => Number.div core (.integer 1) (.integer n)
  | .fraction f => reduced core f.denominator f.numerator

/-- `abs`. -/
def Number.abs : Number → Sent Number
  | .integer n => .ok (.integer |n|)
  | .fraction f => if f.numerator < 0 then Number.negated core (.fraction f) else .ok (.fraction f)

/-! ## Rounding and division -/

/-- `truncated`. -/
def Number.truncated : Number → Sent Number
  | .integer n => .ok (.integer n)
  | .fraction f => (answer (IntegerDivision.quo core f.numerator f.denominator)).map .integer

/-- `floor`. -/
def Number.floor : Number → Sent Number
  | .integer n => .ok (.integer n)
  | .fraction f => (answer (IntegerDivision.intDiv core f.numerator f.denominator)).map .integer

/-- `ceiling`. -/
def Number.ceiling : Number → Sent Number
  | .integer n => .ok (.integer n)
  | .fraction f =>
      (answer (IntegerDivision.intDiv core (f.numerator + f.denominator - 1) f.denominator)).map
        .integer

/-- `rounded`. -/
def Number.rounded : Number → Sent Number
  | .integer n => .ok (.integer n)
  | .fraction f => do
      Number.truncated core (← Fraction.add core f
        (← Number.div core (.integer f.numerator.sign) (.integer 2)))

/-- `Fraction >> //`. -/
def Fraction.intDiv (f : Fraction) (a : Number) : Sent Number := do
  Number.floor core (← Fraction.div core f a)

/-- `Fraction >> \\`. -/
def Fraction.mod (f : Fraction) (a : Number) : Sent Number := do
  Fraction.sub core f (← Number.mul core (← Fraction.intDiv core f a) a)

/-- `Fraction >> quo:`. -/
def Fraction.quo (f : Fraction) (a : Number) : Sent Number := do
  Number.truncated core (← Fraction.div core f a)

/-- `Fraction >> rem:`. -/
def Fraction.rem (f : Fraction) (a : Number) : Sent Number := do
  Fraction.sub core f (← Number.mul core (← Fraction.quo core f a) a)

/-- A primitive that divides two integers. -/
def dividing (primitive : DivisionCore → Int → Int → Run Int) (n a : Int) : Sent Number :=
  (answer (primitive core n a)).map .integer

/-- `//`. -/
def Number.intDiv : Number → Number → Sent Number :=
  send (dividing core IntegerDivision.intDiv) (Fraction.intDiv core)

/-- `\\`. -/
def Number.mod : Number → Number → Sent Number :=
  send (dividing core IntegerDivision.mod) (Fraction.mod core)

/-- `quo:`. -/
def Number.quo : Number → Number → Sent Number :=
  send (dividing core IntegerDivision.quo) (Fraction.quo core)

/-- `rem:`. -/
def Number.rem : Number → Number → Sent Number :=
  send (dividing core IntegerDivision.rem) (Fraction.rem core)

/-! ## Comparison -/

/-- `numerator`. -/
def Number.numerator : Number → Int
  | .integer n => n
  | .fraction f => f.numerator

/-- `Fraction >> <`. -/
def Fraction.lt (f : Fraction) (a : Number) : Sent Bool := do
  return decide ((← Fraction.sub core f a).numerator < 0)

/-- `<`. -/
def Number.lt : Number → Number → Sent Bool :=
  send (fun n a => .ok (decide (n < a))) (Fraction.lt core)

/-- `Fraction >> >`. -/
def Fraction.gt (f : Fraction) (a : Number) : Sent Bool := Number.lt core a (.fraction f)

/-- `Fraction >> <=`. -/
def Fraction.le (f : Fraction) (a : Number) : Sent Bool := do return !(← Fraction.gt core f a)

/-- `Fraction >> >=`. -/
def Fraction.ge (f : Fraction) (a : Number) : Sent Bool := do return !(← Fraction.lt core f a)

/-- `Fraction >> =`. -/
def Fraction.eq (f : Fraction) : Number → Sent Bool
  | .integer _ => .ok false
  | .fraction g => .ok (f.numerator == g.numerator && f.denominator == g.denominator)

/-- `Fraction >> ~=`. -/
def Fraction.ne (f : Fraction) (a : Number) : Sent Bool := do return !(← Fraction.eq f a)

/-- `>`. -/
def Number.gt : Number → Number → Sent Bool :=
  send (fun n a => .ok (decide (n > a))) (Fraction.gt core)

/-- `<=`. -/
def Number.le : Number → Number → Sent Bool :=
  send (fun n a => .ok (decide (n ≤ a))) (Fraction.le core)

/-- `>=`. -/
def Number.ge : Number → Number → Sent Bool :=
  send (fun n a => .ok (decide (n ≥ a))) (Fraction.ge core)

/-- `=`. -/
def Number.eq : Number → Number → Sent Bool := send (fun n a => .ok (decide (n = a))) Fraction.eq

/-- `~=`.  The primitive asks a fraction for `=` and negates its answer. -/
def Number.ne : Number → Number → Sent Bool := send (fun n a => .ok (decide (n ≠ a))) Fraction.ne

/-- `Number >> min:`. -/
def Number.min (x y : Number) : Sent Number := do return if ← Number.lt core x y then x else y

/-- `Number >> max:`. -/
def Number.max (x y : Number) : Sent Number := do return if ← gt core x y then x else y

/-! ## Powers -/

/-- The loop of `raisedTo:`, by squaring. -/
def powerLoop (k : Nat) (acc base : Int) : Int :=
  if k = 0 then acc
  else powerLoop (k / 2) (if k % 2 = 1 then acc * base else acc)
    (if k > 1 then base * base else base)

/-- The primitive `raisedTo:`, of integers.  The magnitude of the exponent is unsigned. -/
def power (r exp : Int) : Sent Number := do
  let e ← asLong exp
  let acc := powerLoop e.natAbs 1 r
  if e ≥ 0 then .ok (.integer acc) else Number.div core (.integer 1) (.integer acc)

/-- `Fraction >> raisedTo:`. -/
def Fraction.raisedTo (f : Fraction) (exponent : Int) : Sent Number :=
  if exponent < 0 then do
    Number.reciprocal core (← Fraction.raisedTo f (-exponent))
  else do
    Number.div core (← power core f.numerator exponent) (← power core f.denominator exponent)
termination_by (-exponent).toNat
decreasing_by omega

/-- `raisedTo:`, of an integer exponent. -/
def Number.raisedTo : Number → Int → Sent Number
  | .integer n, e => power core n e
  | .fraction f, e => Fraction.raisedTo core f e

end Methods

/-! ## What numbers stand for -/

/-- The quotient that a fraction spells. -/
def Fraction.value (f : Fraction) : ℚ := f.numerator / f.denominator

/-- The rational number that a number stands for. -/
def Number.value : Number → ℚ
  | .integer n => n
  | .fraction f => f.value

/-- An integer, or a fraction over a positive denominator, as an adapted integer is. -/
def Number.Proper : Number → Prop
  | .integer _ => True
  | .fraction f => 0 < f.denominator

/-- An integer, or a fraction in lowest terms that stands for none. -/
def Number.Canonical : Number → Prop
  | .integer _ => True
  | .fraction f => 1 < f.denominator ∧ Int.gcd f.numerator f.denominator = 1

theorem Number.Canonical.proper {x : Number} (h : x.Canonical) : x.Proper := by
  cases x with
  | integer n => trivial
  | fraction f => exact Int.lt_trans Int.one_pos h.1

/-- A send answers a rational number, in canonical form. -/
def Answers (sent : Sent Number) (q : ℚ) : Prop :=
  ∃ x, sent = .ok x ∧ x.Canonical ∧ x.value = q

theorem answers_integer (n : Int) : Answers (.ok (.integer n)) n := ⟨.integer n, rfl, trivial, rfl⟩

theorem Answers.of_eq {sent : Sent Number} {p q : ℚ} (h : Answers sent p) (hEq : p = q) :
    Answers sent q := hEq ▸ h

/-- A send whose argument is the answer of a send. -/
theorem Answers.bind {sent : Sent Number} {p q : ℚ} {f : Number → Sent Number}
    (h : Answers sent p) (hf : ∀ x, x.Canonical → x.value = p → Answers (f x) q) :
    Answers (sent >>= f) q := by
  obtain ⟨x, rfl, hCanonical, hValue⟩ := h
  exact hf x hCanonical hValue

/-- What holds of a primitive and of a kernel method holds of the send. -/
theorem send_spec {α : Type} {P : ℚ → ℚ → Sent α → Prop} {primitive : Int → Int → Sent α}
    {method : Fraction → Number → Sent α} (hPrimitive : ∀ n a : Int, P n a (primitive n a))
    (hMethod : ∀ f y, 0 < f.denominator → y.Proper → P f.value y.value (method f y))
    {x y : Number} (hx : x.Proper) (hy : y.Proper) :
    P x.value y.value (send primitive method x y) := by
  cases x with
  | integer n =>
      cases y with
      | integer a => exact hPrimitive n a
      | fraction g =>
          have h := hMethod ⟨n, 1⟩ (.fraction g) Int.one_pos hy
          have hValue : (⟨n, 1⟩ : Fraction).value = n := by simp [Fraction.value]
          rw [hValue] at h
          exact h
  | fraction f => exact hMethod f y hx hy

section Values

variable (core : Division)

/-! ## A new fraction -/

/-- The canonical form of a quotient of coprime integers. -/
def lowest (num den : Int) : Number :=
  let (num, den) := if den < 0 then (-num, -den) else (num, den)
  if den = 1 then .integer num else .fraction ⟨num, den⟩

theorem lowest_spec {num den : Int} (hNe : den ≠ 0) (hCoprime : Int.gcd num den = 1) :
    (lowest num den).Canonical ∧ (lowest num den).value = num / den := by
  have hPositive : ∀ num den : Int, 0 < den → Int.gcd num den = 1 →
      (if den = 1 then Number.integer num else .fraction ⟨num, den⟩).Canonical ∧
        (if den = 1 then Number.integer num else .fraction ⟨num, den⟩).value = num / den :=
    fun num den hPos hGcd => by
      split
      next hOne => exact ⟨trivial, by rw [hOne]; simp [Number.value]⟩
      next hOne => exact ⟨⟨show 1 < den by omega, hGcd⟩, rfl⟩
  unfold lowest
  by_cases hNeg : den < 0
  · rw [if_pos hNeg]
    have h := hPositive (-num) (-den) (by omega) (by rw [Int.neg_gcd, Int.gcd_neg, hCoprime])
    refine ⟨h.1, h.2.trans ?_⟩
    push_cast
    exact neg_div_neg_eq _ _
  · rw [if_neg hNeg]
    exact hPositive num den (by omega) hCoprime

variable {d : Int}

theorem reduced_eq (n : Int) (hd : d ≠ 0) :
    reduced core n d = .ok (lowest (n / (Int.gcd n d : Int)) (d / (Int.gcd n d : Int))) := by
  have hGcd : (Int.gcd n d : Int) ≠ 0 := by
    rw [Int.natCast_ne_zero, ne_eq, Int.gcd_eq_zero_iff]
    exact fun hZero => hd hZero.2
  have hNonneg : (0 : Int) ≤ (Int.gcd n d : Int) := Int.natCast_nonneg _
  rw [reduced, if_neg hd, IntegerDivision.gcd_eq core n (Or.inr hd)]
  change (do
    let num ← answer (IntegerDivision.intDiv core n (Int.gcd n d))
    let den ← answer (IntegerDivision.intDiv core d (Int.gcd n d))
    let (num, den) := if den < 0 then (-num, -den) else (num, den)
    return if den = 1 then Number.integer num else .fraction ⟨num, den⟩) = _
  rw [IntegerDivision.intDiv_eq core n hGcd, IntegerDivision.intDiv_eq core d hGcd,
    Int.fdiv_eq_ediv_of_nonneg n hNonneg, Int.fdiv_eq_ediv_of_nonneg d hNonneg]
  rfl

/-- A new fraction is the canonical form of its quotient. -/
theorem reduced_answers (n : Int) (hd : d ≠ 0) : Answers (reduced core n d) (n / d) := by
  have hPos : 0 < Int.gcd n d := Int.gcd_pos_iff.mpr (Or.inr hd)
  have hn : n / (Int.gcd n d : Int) * (Int.gcd n d : Int) = n :=
    Int.ediv_mul_cancel (Int.gcd_dvd_left n d)
  have hDen : d / (Int.gcd n d : Int) * (Int.gcd n d : Int) = d :=
    Int.ediv_mul_cancel (Int.gcd_dvd_right n d)
  have hNe : d / (Int.gcd n d : Int) ≠ 0 := fun hZero => hd (by rw [← hDen, hZero, zero_mul])
  obtain ⟨hCanonical, hValue⟩ := lowest_spec hNe (Int.gcd_div_gcd_div_gcd hPos)
  have hScale : ((n / (Int.gcd n d : Int) : Int) : ℚ) / ((d / (Int.gcd n d : Int) : Int) : ℚ) =
      ((n / (Int.gcd n d : Int) * (Int.gcd n d : Int) : Int) : ℚ) /
        ((d / (Int.gcd n d : Int) * (Int.gcd n d : Int) : Int) : ℚ) := by
    rw [Int.cast_mul, Int.cast_mul]
    exact (mul_div_mul_right _ _ (by exact_mod_cast hPos.ne')).symm
  rw [hn, hDen] at hScale
  exact ⟨_, reduced_eq core n hd, hCanonical, hValue.trans hScale⟩

theorem reduced_zero (n : Int) (hd : d = 0) : reduced core n d = .error .zeroDivide :=
  if_pos hd

/-! ## Arithmetic of values -/

variable {f : Fraction}

theorem cast_denominator_ne (hf : 0 < f.denominator) : (f.denominator : ℚ) ≠ 0 :=
  Int.cast_ne_zero.mpr hf.ne'

variable {y : Number}

theorem Number.negated_answers (hy : y.Proper) :
    Answers (Number.negated core y) (-y.value) := by
  cases y with
  | integer n => exact (answers_integer (-n)).of_eq (Int.cast_neg n)
  | fraction g =>
      refine (reduced_answers core (-g.numerator) hy.ne').of_eq ?_
      rw [Int.cast_neg, neg_div]
      rfl

theorem Fraction.add_answers (hf : 0 < f.denominator)
    (hy : y.Proper) : Answers (Fraction.add core f y) (f.value + y.value) := by
  have hDen := cast_denominator_ne hf
  cases y with
  | integer a =>
      refine (reduced_answers core _ hf.ne').of_eq ?_
      simp only [Fraction.value, Number.value]
      push_cast
      field_simp
  | fraction g =>
      have hArg := cast_denominator_ne (f := g) hy
      refine (reduced_answers core _ (mul_ne_zero hf.ne' (ne_of_gt hy))).of_eq ?_
      simp only [Fraction.value, Number.value]
      push_cast
      field_simp

theorem Fraction.sub_answers (hf : 0 < f.denominator)
    (hy : y.Proper) : Answers (Fraction.sub core f y) (f.value - y.value) :=
  (Number.negated_answers core hy).bind fun a ha hValue =>
    (Fraction.add_answers core hf ha.proper).of_eq (by rw [hValue, sub_eq_add_neg])

theorem Fraction.mul_answers (hf : 0 < f.denominator)
    (hy : y.Proper) : Answers (Fraction.mul core f y) (f.value * y.value) := by
  cases y with
  | integer a =>
      refine (reduced_answers core _ hf.ne').of_eq ?_
      simp only [Fraction.value, Number.value]
      push_cast
      ring
  | fraction g =>
      refine (reduced_answers core _ (mul_ne_zero hf.ne' (ne_of_gt hy))).of_eq ?_
      simp only [Fraction.value, Number.value]
      push_cast
      ring

/-- A divisor that is not zero does not have a zero numerator. -/
theorem numerator_ne (h : y.value ≠ 0) : y.numerator ≠ 0 := by
  cases y with
  | integer a => exact fun hZero => h (by rw [Number.value, show a = 0 from hZero, Int.cast_zero])
  | fraction g =>
      exact fun hZero => h (by
        rw [Number.value, Fraction.value, show g.numerator = 0 from hZero, Int.cast_zero, zero_div])

theorem numerator_eq_zero (hy : y.Proper) (h : y.value = 0) : y.numerator = 0 := by
  cases y with
  | integer a => exact Int.cast_eq_zero.mp h
  | fraction g =>
      rcases div_eq_zero_iff.mp h with hZero | hZero
      · exact Int.cast_eq_zero.mp hZero
      · exact absurd hZero (cast_denominator_ne hy)

theorem Fraction.div_answers (hf : 0 < f.denominator)
    (hNe : y.value ≠ 0) : Answers (Fraction.div core f y) (f.value / y.value) := by
  have hNumerator := numerator_ne hNe
  cases y with
  | integer a =>
      refine (reduced_answers core _ (mul_ne_zero hf.ne' hNumerator)).of_eq ?_
      simp only [Fraction.value, Number.value]
      push_cast
      rw [div_div]
      rfl
  | fraction g =>
      refine (reduced_answers core _ (mul_ne_zero hf.ne' hNumerator)).of_eq ?_
      simp only [Fraction.value, Number.value]
      push_cast
      rw [div_div_div_eq]
      rfl

theorem Fraction.div_zero (hy : y.Proper) (hZero : y.value = 0) :
    Fraction.div core f y = .error .zeroDivide := by
  have hNumerator := numerator_eq_zero hy hZero
  cases y with
  | integer a => exact reduced_zero core _ (by rw [show a = 0 from hNumerator, mul_zero])
  | fraction g =>
      exact reduced_zero core _ (by rw [show g.numerator = 0 from hNumerator, mul_zero])

variable {x y : Number}

theorem Number.add_answers (hx : x.Proper) (hy : y.Proper) :
    Answers (Number.add core x y) (x.value + y.value) :=
  send_spec (P := fun p q sent => Answers sent (p + q))
    (fun n a => (answers_integer (n + a)).of_eq (Int.cast_add n a))
    (fun _ _ hf ha => Fraction.add_answers core hf ha) hx hy

theorem Number.sub_answers (hx : x.Proper) (hy : y.Proper) :
    Answers (Number.sub core x y) (x.value - y.value) :=
  send_spec (P := fun p q sent => Answers sent (p - q))
    (fun n a => (answers_integer (n - a)).of_eq (Int.cast_sub n a))
    (fun _ _ hf ha => Fraction.sub_answers core hf ha) hx hy

theorem Number.mul_answers (hx : x.Proper) (hy : y.Proper) :
    Answers (Number.mul core x y) (x.value * y.value) :=
  send_spec (P := fun p q sent => Answers sent (p * q))
    (fun n a => (answers_integer (n * a)).of_eq (Int.cast_mul n a))
    (fun _ _ hf ha => Fraction.mul_answers core hf ha) hx hy

/-- What a division does with a divisor that is not zero, and with zero. -/
def Divides (f : ℚ → ℚ → ℚ) (p q : ℚ) (sent : Sent Number) : Prop :=
  (q ≠ 0 → Answers sent (f p q)) ∧ (q = 0 → sent = .error .zeroDivide)

theorem Number.div_divides (hx : x.Proper) (hy : y.Proper) :
    Divides (fun p q => p / q) x.value y.value (Number.div core x y) :=
  send_spec (P := Divides fun p q => p / q)
    (fun n _ => ⟨fun hNe => reduced_answers core n (Int.cast_ne_zero.mp hNe),
      fun hZero => reduced_zero core n (Int.cast_eq_zero.mp hZero)⟩)
    (fun _ _ hf hArg => ⟨Fraction.div_answers core hf, Fraction.div_zero core hArg⟩) hx hy

/-! ## Rounding of values -/

/-- The integer next to a rational number on the side of zero. -/
def truncate (q : ℚ) : Int := if 0 ≤ q then ⌊q⌋ else ⌈q⌉

/-- The nearest integer to a rational number, away from zero from a half. -/
def roundAway (q : ℚ) : Int := if 0 ≤ q then ⌊q + 1 / 2⌋ else ⌈q - 1 / 2⌉

theorem floor_div (n : Int) (hd : 0 < d) : ⌊(n / d : ℚ)⌋ = n / d := by
  have h := Rat.floor_intCast_div_natCast n d.toNat
  have hCast : ((d.toNat : Int) : ℚ) = (d : ℚ) := by rw [Int.toNat_of_nonneg hd.le]
  rw [← hCast, Int.cast_natCast, h, Int.toNat_of_nonneg hd.le]

theorem ceil_div (n : Int) (hd : 0 < d) : ⌈(n / d : ℚ)⌉ = -(-n / d) := by
  rw [← neg_neg ((n : ℚ) / d), Int.ceil_neg, ← neg_div, ← Int.cast_neg, floor_div _ hd]

theorem truncate_div (n : Int) (hd : 0 < d) : truncate (n / d) = n.tdiv d := by
  have hSign : (0 : ℚ) ≤ n / d ↔ 0 ≤ n := by
    rw [le_div_iff₀ (by exact_mod_cast hd), zero_mul, Int.cast_nonneg_iff]
  unfold truncate
  by_cases hNonneg : 0 ≤ n
  · rw [if_pos (hSign.mpr hNonneg), Int.tdiv_eq_ediv_of_nonneg hNonneg, floor_div n hd]
  · rw [if_neg (mt hSign.mp hNonneg), ceil_div n hd, ← Int.tdiv_eq_ediv_of_nonneg (by omega),
      Int.neg_tdiv, neg_neg]

/-- The floored quotient of integers of any sign. -/
theorem fdiv_eq_floor (n : Int) (hd : d ≠ 0) : n.fdiv d = ⌊(n / d : ℚ)⌋ := by
  rcases lt_or_gt_of_ne hd with hNeg | hPos
  · have h := floor_div (-n) (Int.neg_pos_of_neg hNeg)
    rw [Int.cast_neg, Int.cast_neg, neg_div_neg_eq] at h
    rw [h, ← Int.fdiv_eq_ediv_of_nonneg _ (by omega), Int.neg_fdiv_neg]
  · rw [floor_div n hPos, Int.fdiv_eq_ediv_of_nonneg n hPos.le]

/-- The truncated quotient of integers of any sign. -/
theorem tdiv_eq_truncate (n : Int) (hd : d ≠ 0) : n.tdiv d = truncate (n / d) := by
  rcases lt_or_gt_of_ne hd with hNeg | hPos
  · have h := truncate_div (-n) (Int.neg_pos_of_neg hNeg)
    rw [Int.cast_neg, Int.cast_neg, neg_div_neg_eq] at h
    rw [h, Int.neg_tdiv, Int.tdiv_neg, neg_neg]
  · exact (truncate_div n hPos).symm

/-- Half of a sign, added to a value of that sign, rounds what is truncated then. -/
theorem truncate_half (n : Int) (hd : 0 < d) :
    truncate ((n / d : ℚ) + (n.sign : ℚ) / ((2 : Int) : ℚ)) = roundAway (n / d) := by
  have hDen : (0 : ℚ) < d := by exact_mod_cast hd
  have hTwo : ((2 : Int) : ℚ) = 2 := Int.cast_ofNat 2
  rw [hTwo]
  rcases lt_trichotomy n 0 with hNeg | hZero | hPos
  · have hValue : (n : ℚ) / d < 0 := div_neg_of_neg_of_pos (by exact_mod_cast hNeg) hDen
    have hSum : (n / d : ℚ) + ((n.sign : Int) : ℚ) / 2 = n / d - 1 / 2 := by
      rw [Int.sign_eq_neg_one_of_neg hNeg]
      push_cast
      ring
    rw [hSum, truncate, roundAway, if_neg (by linarith), if_neg (by linarith)]
  · have hValue : (n : ℚ) / d = 0 := by rw [hZero, Int.cast_zero, zero_div]
    have hHalf : ⌊(0 : ℚ) + 1 / 2⌋ = 0 := Int.floor_eq_zero_iff.mpr ⟨by norm_num, by norm_num⟩
    rw [hValue, hZero, Int.sign_zero, Int.cast_zero, zero_div, add_zero, truncate, roundAway,
      if_pos le_rfl, if_pos le_rfl, hHalf, Int.floor_zero]
  · have hValue : 0 < (n : ℚ) / d := div_pos (by exact_mod_cast hPos) hDen
    rw [Int.sign_eq_one_of_pos hPos, Int.cast_one, truncate, roundAway, if_pos (by linarith),
      if_pos hValue.le]

variable {z : Number}

theorem Number.floor_answers (hz : z.Proper) :
    Answers (Number.floor core z) ⌊z.value⌋ := by
  cases z with
  | integer n => exact (answers_integer n).of_eq (by rw [Number.value, Int.floor_intCast])
  | fraction f =>
      have hFloor : ⌊(Number.fraction f).value⌋ = f.numerator / f.denominator :=
        floor_div f.numerator hz
      rw [Number.floor, IntegerDivision.intDiv_eq core f.numerator hz.ne', hFloor,
        Int.fdiv_eq_ediv_of_nonneg _ hz.le]
      exact answers_integer _

theorem Number.ceiling_answers (hz : z.Proper) :
    Answers (Number.ceiling core z) ⌈z.value⌉ := by
  cases z with
  | integer n => exact (answers_integer n).of_eq (by rw [Number.value, Int.ceil_intCast])
  | fraction f =>
      have hPos : 0 < f.denominator := hz
      have hCeil : ⌈(Number.fraction f).value⌉ =
        (f.numerator + f.denominator - 1) / f.denominator := by
        refine (ceil_div f.numerator hPos).trans ?_
        have hLow := Int.mul_ediv_self_le (x := -f.numerator) hPos.ne'
        have hHigh := Int.lt_mul_ediv_self_add (x := -f.numerator) hPos
        refine (Int.ediv_emod_unique hPos (r := f.numerator + f.denominator - 1 +
          f.denominator * (-f.numerator / f.denominator))).mpr ⟨by ring, ?_, ?_⟩ |>.1.symm
        · linarith
        · linarith
      rw [Number.ceiling, IntegerDivision.intDiv_eq core _ hPos.ne', hCeil,
        Int.fdiv_eq_ediv_of_nonneg _ hPos.le]
      exact answers_integer _

theorem Number.truncated_answers (hz : z.Proper) :
    Answers (Number.truncated core z) (truncate z.value) := by
  cases z with
  | integer n =>
      refine (answers_integer n).of_eq ?_
      rw [truncate, Number.value, Int.floor_intCast, Int.ceil_intCast, ite_self]
  | fraction f =>
      have hPos : 0 < f.denominator := hz
      have hTrunc : truncate (Number.fraction f).value = f.numerator.tdiv f.denominator :=
        truncate_div f.numerator hPos
      rw [Number.truncated, IntegerDivision.quo_eq core _ hPos.ne', hTrunc]
      exact answers_integer _

theorem Number.rounded_answers (hz : z.Proper) :
    Answers (Number.rounded core z) (roundAway z.value) := by
  cases z with
  | integer n =>
      refine (answers_integer n).of_eq ?_
      have hUp : ⌊(n : ℚ) + 1 / 2⌋ = n := by
        rw [Int.floor_intCast_add, Int.floor_eq_zero_iff.mpr ⟨by norm_num, by norm_num⟩, add_zero]
      have hDown : ⌈(n : ℚ) - 1 / 2⌉ = n := by
        rw [sub_eq_add_neg, Int.ceil_intCast_add,
          Int.ceil_eq_zero_iff.mpr ⟨by norm_num, by norm_num⟩,
          add_zero]
      rw [roundAway, Number.value, hUp, hDown, ite_self]
  | fraction f =>
      have hPos : 0 < f.denominator := hz
      have hHalf := (Number.div_divides (x := .integer f.numerator.sign)
        (y := .integer 2) core trivial
        trivial).1 (by norm_num [Number.value])
      refine hHalf.bind fun half hCanonical hValue => ?_
      refine (Fraction.add_answers core hPos hCanonical.proper).bind fun sum hSum hSumValue => ?_
      refine (Number.truncated_answers core hSum.proper).of_eq (congrArg _ ?_)
      rw [hSumValue, hValue]
      exact truncate_half f.numerator hPos

/-! ## Division of values -/

/-- A division followed by what is done with its quotient. -/
theorem Divides.bind {f g : ℚ → ℚ → ℚ} {p q : ℚ} {sent : Sent Number} {k : Number → Sent Number}
    (h : Divides f p q sent)
    (hk : q ≠ 0 → ∀ z, z.Canonical → z.value = f p q → Answers (k z) (g p q)) :
    Divides g p q (sent >>= k) :=
  ⟨fun hNe => (h.1 hNe).bind (hk hNe), fun hZero => by rw [h.2 hZero]; rfl⟩

theorem Fraction.div_divides (hf : 0 < f.denominator) (hy : y.Proper) :
    Divides (fun p q => p / q) f.value y.value (Fraction.div core f y) :=
  ⟨Fraction.div_answers core hf, Fraction.div_zero core hy⟩

/-- A remainder is what a quotient leaves. -/
theorem Fraction.remainder {quotient : ℚ → ℚ → ℚ} {sent : Sent Number}
    (hf : 0 < f.denominator) (hy : y.Proper) (h : Divides quotient f.value y.value sent) :
    Divides (fun p q => p - quotient p q * q) f.value y.value (do
      Fraction.sub core f (← Number.mul core (← sent) y)) :=
  h.bind fun _ z hz hValue => (Number.mul_answers core hz.proper hy).bind fun w hw hProduct =>
    (Fraction.sub_answers core hf hw.proper).of_eq (by rw [hProduct, hValue])

theorem Fraction.intDiv_divides (hf : 0 < f.denominator) (hy : y.Proper) :
    Divides (fun p q => ⌊p / q⌋) f.value y.value (Fraction.intDiv core f y) :=
  (Fraction.div_divides core hf hy).bind fun _ _ hz hValue =>
    (Number.floor_answers core hz.proper).of_eq (by rw [hValue])

theorem Fraction.quo_divides (hf : 0 < f.denominator) (hy : y.Proper) :
    Divides (fun p q => truncate (p / q)) f.value y.value (Fraction.quo core f y) :=
  (Fraction.div_divides core hf hy).bind fun _ _ hz hValue =>
    (Number.truncated_answers core hz.proper).of_eq (by rw [hValue])

/-- A primitive that divides integers. -/
theorem dividing_divides {primitive : DivisionCore → Int → Int → Run Int} {f : ℚ → ℚ → ℚ}
    {n a : Int}
    {q : Int} (hZero : answer (primitive core n 0) = .error .zeroDivide)
    (hAnswer : a ≠ 0 → answer (primitive core n a) = .ok q) (hValue : a ≠ 0 → (q : ℚ) = f n a) :
    Divides f n a (dividing core primitive n a) := by
  refine ⟨fun hNe => ?_, fun hEq => ?_⟩
  · have ha : a ≠ 0 := Int.cast_ne_zero.mp hNe
    rw [dividing, hAnswer ha]
    exact (answers_integer q).of_eq (hValue ha)
  · rw [dividing, Int.cast_eq_zero.mp hEq, hZero]
    rfl

theorem Number.intDiv_divides (hx : x.Proper) (hy : y.Proper) :
    Divides (fun p q => ⌊p / q⌋) x.value y.value (Number.intDiv core x y) :=
  send_spec (P := Divides fun p q => ⌊p / q⌋)
    (fun n a => dividing_divides core rfl (IntegerDivision.intDiv_eq core n) fun ha => by
      rw [fdiv_eq_floor n ha])
    (fun _ _ hf hArg => Fraction.intDiv_divides core hf hArg) hx hy

theorem Number.mod_divides (hx : x.Proper) (hy : y.Proper) :
    Divides (fun p q => p - ⌊p / q⌋ * q) x.value y.value (Number.mod core x y) :=
  send_spec (P := Divides fun p q => p - ⌊p / q⌋ * q)
    (fun n a => dividing_divides core rfl (IntegerDivision.mod_eq core n) fun ha => by
      rw [Int.fmod_def, fdiv_eq_floor n ha]
      push_cast
      ring)
    (fun _ _ hf hArg => Fraction.remainder core hf hArg
      (Fraction.intDiv_divides core hf hArg)) hx hy

theorem Number.quo_divides (hx : x.Proper) (hy : y.Proper) :
    Divides (fun p q => truncate (p / q)) x.value y.value (Number.quo core x y) :=
  send_spec (P := Divides fun p q => truncate (p / q))
    (fun n a => dividing_divides core rfl (IntegerDivision.quo_eq core n) fun ha => by
      rw [tdiv_eq_truncate n ha])
    (fun _ _ hf hArg => Fraction.quo_divides core hf hArg) hx hy

theorem Number.rem_divides (hx : x.Proper) (hy : y.Proper) :
    Divides (fun p q => p - truncate (p / q) * q) x.value y.value (Number.rem core x y) :=
  send_spec (P := Divides fun p q => p - truncate (p / q) * q)
    (fun n a => dividing_divides core rfl (IntegerDivision.rem_eq core n) fun ha => by
      rw [Int.tmod_def, tdiv_eq_truncate n ha]
      push_cast
      ring)
    (fun _ _ hf hArg => Fraction.remainder core hf hArg (Fraction.quo_divides core hf hArg)) hx hy

theorem Number.reciprocal_divides (hx : x.Canonical) :
    Divides (fun p q => p / q) 1 x.value (Number.reciprocal core x) := by
  cases x with
  | integer n =>
      have h := Number.div_divides (x := .integer 1) (y := .integer n) core trivial trivial
      rw [show (Number.integer 1).value = 1 from Int.cast_one] at h
      exact h
  | fraction f =>
      refine ⟨fun hNe => ?_, fun hZero => ?_⟩
      · exact (reduced_answers core _ (numerator_ne hNe)).of_eq (one_div_div _ _).symm
      · exact reduced_zero core _ (numerator_eq_zero hx.proper hZero)

theorem Number.abs_answers (hx : x.Canonical) : Answers (Number.abs core x) |x.value| := by
  cases x with
  | integer n => exact (answers_integer |n|).of_eq (Int.cast_abs)
  | fraction f =>
      have hDen : (0 : ℚ) < f.denominator := by exact_mod_cast hx.proper
      by_cases hNeg : f.numerator < 0
      · rw [Number.abs, if_pos hNeg]
        refine (Number.negated_answers core hx.proper).of_eq (abs_of_neg ?_).symm
        exact div_neg_of_neg_of_pos (by exact_mod_cast hNeg) hDen
      · rw [Number.abs, if_neg hNeg]
        refine ⟨.fraction f, rfl, hx, (abs_of_nonneg ?_).symm⟩
        exact div_nonneg (by exact_mod_cast not_lt.mp hNeg) hDen.le

/-! ## Comparison of values -/

theorem Number.numerator_neg_iff (hz : z.Proper) : z.numerator < 0 ↔ z.value < 0 := by
  cases z with
  | integer n => exact Int.cast_lt_zero.symm
  | fraction f =>
      have hDen : (0 : ℚ) < f.denominator := by exact_mod_cast (show 0 < f.denominator from hz)
      rw [Number.value, Fraction.value, div_lt_iff₀ hDen, zero_mul, Int.cast_lt_zero]
      rfl

theorem Fraction.lt_eq (hf : 0 < f.denominator) (hy : y.Proper) :
    Fraction.lt core f y = .ok (decide (f.value < y.value)) := by
  obtain ⟨z, hz, hCanonical, hValue⟩ := Fraction.sub_answers core hf hy
  rw [Fraction.lt, hz]
  refine congrArg Except.ok (decide_eq_decide.mpr ?_)
  rw [Number.numerator_neg_iff hCanonical.proper, hValue, sub_neg]

theorem Number.lt_eq (hx : x.Proper) (hy : y.Proper) :
    Number.lt core x y = .ok (decide (x.value < y.value)) :=
  send_spec (P := fun p q sent => sent = .ok (decide (p < q)))
    (fun _ _ => congrArg Except.ok (decide_eq_decide.mpr Int.cast_lt.symm))
    (fun _ _ hf hArg => Fraction.lt_eq core hf hArg) hx hy

theorem Fraction.gt_eq (hf : 0 < f.denominator) (hy : y.Proper) :
    Fraction.gt core f y = .ok (decide (f.value > y.value)) :=
  Number.lt_eq core hy (y := .fraction f) hf

theorem Number.gt_eq (hx : x.Proper) (hy : y.Proper) :
    Number.gt core x y = .ok (decide (x.value > y.value)) :=
  send_spec (P := fun p q sent => sent = .ok (decide (p > q)))
    (fun _ _ => congrArg Except.ok (decide_eq_decide.mpr Int.cast_lt.symm))
    (fun _ _ hf hArg => Fraction.gt_eq core hf hArg) hx hy

theorem Number.le_eq (hx : x.Proper) (hy : y.Proper) :
    Number.le core x y = .ok (decide (x.value ≤ y.value)) :=
  send_spec (P := fun p q sent => sent = .ok (decide (p ≤ q)))
    (fun _ _ => congrArg Except.ok (decide_eq_decide.mpr Int.cast_le.symm))
    (fun f a hf hArg => by
      rw [Fraction.le, Fraction.gt_eq core hf hArg]
      refine congrArg Except.ok ?_
      rw [← decide_not]
      exact decide_eq_decide.mpr not_lt) hx hy

theorem Number.ge_eq (hx : x.Proper) (hy : y.Proper) :
    Number.ge core x y = .ok (decide (x.value ≥ y.value)) :=
  send_spec (P := fun p q sent => sent = .ok (decide (p ≥ q)))
    (fun _ _ => congrArg Except.ok (decide_eq_decide.mpr Int.cast_le.symm))
    (fun f a hf hArg => by
      rw [Fraction.ge, Fraction.lt_eq core hf hArg]
      refine congrArg Except.ok ?_
      rw [← decide_not]
      exact decide_eq_decide.mpr not_lt) hx hy

/-- A fraction in lowest terms is the numerator and the denominator of its value. -/
theorem Fraction.value_num_den (hf : 0 < f.denominator)
    (hGcd : Int.gcd f.numerator f.denominator = 1) :
    f.value.num = f.numerator ∧ (f.value.den : Int) = f.denominator := by
  exact ⟨Rat.num_div_eq_of_coprime hf hGcd, Rat.den_div_eq_of_coprime hf hGcd⟩

/-- Canonical forms are unique. -/
theorem Number.Canonical.eq_of_value (hx : x.Canonical) (hy : y.Canonical)
    (h : x.value = y.value) : x = y := by
  cases x with
  | integer n =>
      cases y with
      | integer a => exact congrArg Number.integer (Int.cast_injective h)
      | fraction g =>
          have hDen := (Fraction.value_num_den (Int.lt_trans Int.one_pos hy.1) hy.2).2
          rw [← show (n : ℚ) = g.value from h, Rat.den_intCast] at hDen
          exact absurd hy.1 (by omega)
  | fraction f =>
      obtain ⟨hNum, hDen⟩ := Fraction.value_num_den (Int.lt_trans Int.one_pos hx.1) hx.2
      cases y with
      | integer a =>
          rw [show f.value = (a : ℚ) from h, Rat.den_intCast] at hDen
          exact absurd hx.1 (by omega)
      | fraction g =>
          obtain ⟨hNum', hDen'⟩ := Fraction.value_num_den (Int.lt_trans Int.one_pos hy.1) hy.2
          rw [show f.value = g.value from h] at hNum hDen
          cases f
          cases g
          simp_all

/-- `=` compares canonical forms. -/
theorem Number.eq_decide (hy : y.Canonical) : Number.eq x y = .ok (decide (x = y)) := by
  cases x with
  | integer n =>
      cases y with
      | integer a =>
          exact congrArg Except.ok (decide_eq_decide.mpr
            (Iff.of_eq (Number.integer.injEq n a).symm))
      | fraction g =>
          have hDen : ((1 : Int) == g.denominator) = false := by
            rw [beq_eq_false_iff_ne]
            exact ne_of_lt hy.1
          refine congrArg Except.ok ?_
          rw [hDen, Bool.and_false]
          exact (decide_eq_false Number.noConfusion).symm
  | fraction f =>
      cases y with
      | integer a => exact congrArg Except.ok (decide_eq_false Number.noConfusion).symm
      | fraction g =>
          refine congrArg Except.ok ?_
          rw [Bool.eq_iff_iff]
          cases f
          cases g
          simp

theorem Number.eq_eq (hx : x.Canonical) (hy : y.Canonical) :
    Number.eq x y = .ok (decide (x.value = y.value)) := by
  rw [Number.eq_decide hy]
  exact congrArg Except.ok (decide_eq_decide.mpr ⟨congrArg Number.value, hx.eq_of_value hy⟩)

theorem Number.ne_eq (hx : x.Canonical) (hy : y.Canonical) :
    Number.ne x y = .ok (decide (x.value ≠ y.value)) := by
  have h := Number.eq_eq hx hy
  -- the primitive and the method both negate what `=` answers
  have hNot : Number.ne x y = (Number.eq x y).map not := by
    cases x with
    | integer n =>
        cases y with
        | integer a => exact congrArg Except.ok decide_not
        | fraction g => rfl
    | fraction f => cases y <;> rfl
  rw [hNot, h]
  exact congrArg Except.ok decide_not.symm

theorem Number.min_answers (hx : x.Canonical) (hy : y.Canonical) :
    Answers (Number.min core x y) (Min.min x.value y.value) := by
  rw [Number.min, Number.lt_eq core hx.proper hy.proper]
  by_cases h : x.value < y.value
  · rw [decide_eq_true h]
    exact ⟨x, rfl, hx, (min_eq_left h.le).symm⟩
  · rw [decide_eq_false h]
    exact ⟨y, rfl, hy, (min_eq_right (not_lt.mp h)).symm⟩

theorem Number.max_answers (hx : x.Canonical) (hy : y.Canonical) :
    Answers (Number.max core x y) (Max.max x.value y.value) := by
  rw [Number.max, Number.gt_eq core hx.proper hy.proper]
  by_cases h : x.value > y.value
  · rw [decide_eq_true h]
    exact ⟨x, rfl, hx, (max_eq_left h.le).symm⟩
  · rw [decide_eq_false h]
    exact ⟨y, rfl, hy, (max_eq_right (not_lt.mp h)).symm⟩

/-! ## Powers of values -/

theorem powerLoop_eq (k : Nat) (acc base : Int) : powerLoop k acc base = acc * base ^ k := by
  induction k using Nat.strong_induction_on generalizing acc base with
  | _ k ih =>
      rw [powerLoop]
      by_cases hk : k = 0
      · rw [if_pos hk, hk, pow_zero, mul_one]
      · have hSquare : (if k > 1 then base * base else base) ^ (k / 2) = base ^ (2 * (k / 2)) := by
          split
          next => rw [← pow_two, pow_mul]
          next hOne => rw [show k / 2 = 0 by omega, pow_zero]
        rw [if_neg hk, ih (k / 2) (by omega), hSquare]
        have hHalf := Nat.div_add_mod k 2
        by_cases hOdd : k % 2 = 1
        · rw [if_pos hOdd, mul_assoc, ← pow_succ', ← hOdd, hHalf]
        · rw [if_neg hOdd, show 2 * (k / 2) = k by omega]

/-- The exponents that `asLong` reads. -/
def FitsLong (e : Int) : Prop := -0x8000000000000000 ≤ e ∧ e < 0x8000000000000000

variable {e : Int}

theorem asLong_fits (h : FitsLong e) : asLong e = .ok e :=
  if_neg (by unfold FitsLong at h; omega)

theorem asLong_not_fits (h : ¬ FitsLong e) :
    asLong e = .error (.error "exceeds long long range") :=
  if_pos (by unfold FitsLong at h; omega)

/-- A power, of which zero has none that is negative. -/
def PowerOf (e : Int) (q : ℚ) (sent : Sent Number) : Prop :=
  (¬ (q = 0 ∧ e < 0) → Answers sent (q ^ e)) ∧ (q = 0 ∧ e < 0 → sent = .error .zeroDivide)

theorem power_answers (n : Int) (h : FitsLong e) : PowerOf e n (power core n e) := by
  have hRun : power core n e = if e ≥ 0 then .ok (.integer (n ^ e.natAbs))
      else Number.div core (.integer 1) (.integer (n ^ e.natAbs)) := by
    rw [power, asLong_fits h, ← one_mul (n ^ e.natAbs), ← powerLoop_eq]
    rfl
  rw [hRun]
  by_cases hSign : e ≥ 0
  · rw [if_pos hSign]
    refine ⟨fun _ => (answers_integer _).of_eq ?_, fun hNeg => absurd hNeg.2 (not_lt.mpr hSign)⟩
    rw [Int.cast_pow, ← zpow_natCast, Int.natAbs_of_nonneg hSign]
  · rw [if_neg hSign]
    have hExp : ((e.natAbs : Nat) : Int) = -e := by omega
    obtain ⟨hAnswer, hZero⟩ := Number.div_divides (x := .integer 1)
      (y := .integer (n ^ e.natAbs)) core trivial trivial
    have hValue : (Number.integer (n ^ e.natAbs)).value = ((n : ℚ) ^ e)⁻¹ := by
      rw [Number.value, Int.cast_pow, ← zpow_natCast, hExp, zpow_neg]
    refine ⟨fun hNe => (hAnswer ?_).of_eq ?_, fun hEq => hZero ?_⟩
    · rw [hValue]
      exact inv_ne_zero (zpow_ne_zero e fun hq => hNe ⟨hq, not_le.mp hSign⟩)
    · rw [hValue]
      simp [Number.value]
    · rw [hValue, hEq.1, zero_zpow e (by omega), inv_zero]

theorem power_not_fits (n : Int) (h : ¬ FitsLong e) :
    power core n e = .error (.error "exceeds long long range") := by
  rw [power, asLong_not_fits h]
  rfl

/-- The exponents that `raisedTo:` reads: a fraction negates a negative one first. -/
def ExponentFits : Number → Int → Prop
  | .integer _, e => FitsLong e
  | .fraction _, e => FitsLong e ∧ FitsLong (-e)

theorem Fraction.value_ne_zero (h : (Number.fraction f).Canonical) :
    f.value ≠ 0 := by
  intro hZero
  have hNumerator : f.numerator = 0 := numerator_eq_zero h.proper hZero
  have hGcd := h.2
  rw [hNumerator, Int.gcd_zero_left] at hGcd
  have := h.1
  omega

theorem Fraction.raisedTo_nonneg (hf : (Number.fraction f).Canonical)
    (hSign : 0 ≤ e) (h : FitsLong e) : Answers (Fraction.raisedTo core f e) (f.value ^ e) := by
  have hDen : (f.denominator : ℚ) ≠ 0 := cast_denominator_ne hf.proper
  rw [Fraction.raisedTo, if_neg (not_lt.mpr hSign)]
  refine ((power_answers core f.numerator h).1 fun hNeg => absurd hNeg.2 (not_lt.mpr hSign)).bind
    fun p hp hNum => ?_
  refine ((power_answers core f.denominator h).1 fun hNeg => absurd hNeg.1 hDen).bind
    fun q hq hDenominator => ?_
  refine ((Number.div_divides core hp.proper hq.proper).1 ?_).of_eq ?_
  · rw [hDenominator]
    exact zpow_ne_zero e hDen
  · rw [hNum, hDenominator, Fraction.value, div_zpow]

theorem Fraction.raisedTo_answers (hf : (Number.fraction f).Canonical)
    (h : FitsLong e ∧ FitsLong (-e)) : Answers (Fraction.raisedTo core f e) (f.value ^ e) := by
  by_cases hSign : e < 0
  · rw [Fraction.raisedTo, if_pos hSign]
    refine (Fraction.raisedTo_nonneg core hf (by omega) h.2).bind fun z hz hValue => ?_
    refine ((Number.reciprocal_divides core hz).1 ?_).of_eq ?_
    · rw [hValue]
      exact zpow_ne_zero _ (Fraction.value_ne_zero hf)
    · rw [hValue, zpow_neg]
      exact (one_div _).trans (inv_inv _)
  · exact Fraction.raisedTo_nonneg core hf (not_lt.mp hSign) h.1

theorem Fraction.raisedTo_not_fits (f : Fraction) (h : ¬ (FitsLong e ∧ FitsLong (-e))) :
    Fraction.raisedTo core f e = .error (.error "exceeds long long range") := by
  have hNonneg : ∀ k, 0 ≤ k → ¬ FitsLong k →
      Fraction.raisedTo core f k = .error (.error "exceeds long long range") := fun k hSign hk => by
    rw [Fraction.raisedTo, if_neg (not_lt.mpr hSign), power_not_fits core f.numerator hk]
    rfl
  unfold FitsLong at h hNonneg
  by_cases hSign : e < 0
  · rw [Fraction.raisedTo, if_pos hSign, hNonneg (-e) (by omega) (by omega)]
    rfl
  · exact hNonneg e (by omega) (by omega)

end Values

/-! ## The rationals -/

/-- The sends to `x`, of `y` or of the exponent `e`, are rational arithmetic on the values, and
signal `ZeroDivide` where it divides by zero. -/
structure RationalTower (core : Division) (x y : Number) (e : Int) : Prop where
  add : Answers (x.add core y) (x.value + y.value)
  sub : Answers (x.sub core y) (x.value - y.value)
  mul : Answers (x.mul core y) (x.value * y.value)
  div : Divides (fun p q => p / q) x.value y.value (x.div core y)
  intDiv : Divides (fun p q => ⌊p / q⌋) x.value y.value (x.intDiv core y)
  mod : Divides (fun p q => p - ⌊p / q⌋ * q) x.value y.value (x.mod core y)
  quo : Divides (fun p q => truncate (p / q)) x.value y.value (x.quo core y)
  rem : Divides (fun p q => p - truncate (p / q) * q) x.value y.value (x.rem core y)
  negated : Answers (x.negated core) (-x.value)
  reciprocal : Divides (fun p q => p / q) 1 x.value (x.reciprocal core)
  abs : Answers (x.abs core) |x.value|
  floor : Answers (x.floor core) ⌊x.value⌋
  ceiling : Answers (x.ceiling core) ⌈x.value⌉
  truncated : Answers (x.truncated core) (truncate x.value)
  rounded : Answers (x.rounded core) (roundAway x.value)
  lt : x.lt core y = .ok (decide (x.value < y.value))
  le : x.le core y = .ok (decide (x.value ≤ y.value))
  gt : x.gt core y = .ok (decide (x.value > y.value))
  ge : x.ge core y = .ok (decide (x.value ≥ y.value))
  eq : x.eq y = .ok (decide (x.value = y.value))
  ne : x.ne y = .ok (decide (x.value ≠ y.value))
  min : Answers (x.min core y) (Min.min x.value y.value)
  max : Answers (x.max core y) (Max.max x.value y.value)
  raisedTo : PowerOf e x.value (x.raisedTo core e)

theorem Number.raisedTo_answers (core : Division) {x : Number} (hx : x.Canonical) {e : Int}
    (h : ExponentFits x e) : PowerOf e x.value (x.raisedTo core e) := by
  cases x with
  | integer n => exact power_answers core n h
  | fraction f =>
      exact ⟨fun _ => Fraction.raisedTo_answers core hx h,
        fun hZero => absurd hZero.1 (Fraction.value_ne_zero hx)⟩

theorem Number.raisedTo_not_fits (core : Division) {x : Number} {e : Int}
    (h : ¬ ExponentFits x e) :
    x.raisedTo core e = .error (.error "exceeds long long range") := by
  cases x with
  | integer n => exact power_not_fits core n h
  | fraction f => exact Fraction.raisedTo_not_fits core f h

/-- The canonical numbers are the rationals, for exponents of 64 bits and for no others. -/
theorem rationalTower_iff (core : Division) (x y : Number) (hx : x.Canonical) (hy : y.Canonical)
    (e : Int) : RationalTower core x y e ↔ ExponentFits x e := by
  constructor
  · intro h
    by_contra hFits
    have hError := Number.raisedTo_not_fits core hFits
    have hPower := h.raisedTo
    rw [hError] at hPower
    by_cases hZero : x.value = 0 ∧ e < 0
    · exact absurd (hPower.2 hZero) (by decide)
    · obtain ⟨z, hAnswer, -⟩ := hPower.1 hZero
      exact absurd hAnswer (by simp)
  · intro hFits
    exact {
      add := Number.add_answers core hx.proper hy.proper
      sub := Number.sub_answers core hx.proper hy.proper
      mul := Number.mul_answers core hx.proper hy.proper
      div := Number.div_divides core hx.proper hy.proper
      intDiv := Number.intDiv_divides core hx.proper hy.proper
      mod := Number.mod_divides core hx.proper hy.proper
      quo := Number.quo_divides core hx.proper hy.proper
      rem := Number.rem_divides core hx.proper hy.proper
      negated := Number.negated_answers core hx.proper
      reciprocal := Number.reciprocal_divides core hx
      abs := Number.abs_answers core hx
      floor := Number.floor_answers core hx.proper
      ceiling := Number.ceiling_answers core hx.proper
      truncated := Number.truncated_answers core hx.proper
      rounded := Number.rounded_answers core hx.proper
      lt := Number.lt_eq core hx.proper hy.proper
      le := Number.le_eq core hx.proper hy.proper
      gt := Number.gt_eq core hx.proper hy.proper
      ge := Number.ge_eq core hx.proper hy.proper
      eq := Number.eq_eq hx hy
      ne := Number.ne_eq hx hy
      min := Number.min_answers core hx hy
      max := Number.max_answers core hx hy
      raisedTo := Number.raisedTo_answers core hx hFits }

/-- An integer and a fraction, and a negative power. -/
theorem rationalTower_half :
    RationalTower IntegerDivision.truncating (.integer 3) (.fraction ⟨-1, 2⟩) (-4) :=
  (rationalTower_iff IntegerDivision.truncating (.integer 3) (.fraction ⟨-1, 2⟩) trivial
    ⟨by decide, by decide⟩ (-4)).mpr ⟨by decide, by decide⟩

/-- One is not raised to 2^64. -/
theorem raisedTo_large :
    (Number.integer 1).raisedTo IntegerDivision.truncating 0x10000000000000000 =
        .error (.error "exceeds long long range") ∧
      ¬ RationalTower IntegerDivision.truncating (.integer 1) (.integer 1)
        0x10000000000000000 := by
  have hError : (Number.integer 1).raisedTo IntegerDivision.truncating 0x10000000000000000 =
      .error (.error "exceeds long long range") := rfl
  refine ⟨hError, fun h => ?_⟩
  obtain ⟨z, hz, -⟩ := h.raisedTo.1 fun hNeg => absurd hNeg.2 (by decide)
  rw [hError] at hz
  exact absurd hz (by simp)

end ProtoST.Kernel.Fractions

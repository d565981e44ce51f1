import ProtoST.Lib.TwosComplement
import ProtoST.Primitives.IntegerDivision

/-!
# Bitwise operations on integers

`wideBitOp` and the bitwise primitives of `primitives/int_prims.cpp`.  protoCore's own operations
are a parameter that is right on small integers only (`Native`).

## Main results

* `wideLoop_eq` — the loop adds the operation on what is left of the operands, at its weight.
* `bits_eq` — a primitive operates on the bits, on either path.
* `bitwiseLaws` — the laws of `bitAnd:`, `bitOr:`, `bitXor:` and `bitShift:`.
-/

namespace ProtoST.Primitives.WideBits

open IntegerDivision TwosComplement

/-- `'&'`, `'|'` and `'^'`. -/
inductive BitOp where
  | and
  | or
  | xor
  deriving DecidableEq, Repr

/-- What an operation does to two bits. -/
def BitOp.onBits : BitOp → Bool → Bool → Bool
  | .and, p, q => p && q
  | .or, p, q => p || q
  | .xor, p, q => p ^^ q

/-- `apply`. -/
def apply : BitOp → Int → Int → Int
  | .and, p, q => Int.land p q
  | .or, p, q => Int.lor p q
  | .xor, p, q => Int.xor p q

theorem apply_eq (op : BitOp) (p q : Int) : apply op p q = Int.bitwise op.onBits p q := by
  cases op with
  | and => exact (congrFun₂ Int.bitwise_and p q).symm
  | or => exact (congrFun₂ Int.bitwise_or p q).symm
  | xor => exact (congrFun₂ Int.bitwise_xor p q).symm

theorem floorDivMod_base (core : Division) (x : Int) :
    floorDivMod core x 65536 = (x / 65536, x % 65536) := by
  rw [floorDivMod_eq core x (by decide), Int.fdiv_eq_ediv_of_nonneg x (by decide),
    Int.fmod_eq_emod_of_nonneg x (by decide)]

/-- The loop of `wideBitOp`: 16 bits a turn, until both operands are their sign. -/
def wideLoop (core : Division) (op : BitOp) (x y result weight : Int) : Int :=
  if IsSign x ∧ IsSign y then
    let sign := apply op x y
    if sign = -1 then result - weight else result
  else
    let digit := Int.land (apply op (floorDivMod core x 65536).2 (floorDivMod core y 65536).2)
      0xFFFF
    wideLoop core op (floorDivMod core x 65536).1 (floorDivMod core y 65536).1
      (result + digit * weight) (weight * 65536)
termination_by x.natAbs + y.natAbs
decreasing_by
  rw [floorDivMod_base, floorDivMod_base]
  exact chunk_lt (by decide) ‹_›

/-- `wideBitOp`. -/
def wideBitOp (core : Division) (x y : Int) (op : BitOp) : Int := wideLoop core op x y 0 1

/-- protoCore's bitwise operations, and the integers they are right on. -/
structure Native where
  isSmallInt : Int → Bool
  bitwise : BitOp → Int → Int → Int
  testBit_bitwise : ∀ op x y, isSmallInt x = true → isSmallInt y = true →
    ∀ i, (bitwise op x y).testBit i = op.onBits (x.testBit i) (y.testBit i)

section Primitives

variable (native : Native) (core : Division)

/-- A bitwise primitive, of integers. -/
def bits (op : BitOp) (r a : Int) : Int :=
  if native.isSmallInt r && native.isSmallInt a then native.bitwise op r a
  else wideBitOp core r a op

/-- `bitAnd:`. -/
def bitAnd (r a : Int) : Int := bits native core .and r a

/-- `bitOr:`. -/
def bitOr (r a : Int) : Int := bits native core .or r a

/-- `bitXor:`. -/
def bitXor (r a : Int) : Int := bits native core .xor r a

end Primitives

/-- `asLong`. -/
def asLong (n : Int) : Except Signal Int :=
  if n < -0x8000000000000000 ∨ n ≥ 0x8000000000000000 then
    .error (.error "exceeds long long range")
  else .ok n

/-- `bitShift:`. -/
def bitShift (r a : Int) : Except Signal Int := do
  let n ← asLong a
  if n > 1000000 ∨ n < -1000000 then .error (.error "bitShift: shift amount out of range")
  else .ok (if n ≥ 0 then Int.shiftLeft r n.toNat else Int.shiftRight r (-n).toNat)

/-! ## The loop -/

/-- The loop adds the operation on what is left of the operands, at its weight. -/
theorem wideLoop_eq (core : Division) (op : BitOp) (x y result weight : Int) :
    wideLoop core op x y result weight = result + weight * Int.bitwise op.onBits x y := by
  induction x, y, result, weight using wideLoop.induct core op with
  | case1 x y result weight hSign sign hNeg =>
      rw [wideLoop, if_pos hSign, if_pos hNeg, ← apply_eq, show apply op x y = -1 from hNeg]
      ring
  | case2 x y result weight hSign sign hNeg =>
      have hZero : apply op x y = 0 := by
        have hEq : apply op x y = signOf (op.onBits (decide (x = -1)) (decide (y = -1))) := by
          rw [← bitwise_signOf, signOf_eq hSign.1, signOf_eq hSign.2, apply_eq]
        have hNe : apply op x y ≠ -1 := hNeg
        cases hBit : op.onBits (decide (x = -1)) (decide (y = -1)) with
        | false => rw [hEq, hBit]; rfl
        | true => exact absurd (by rw [hEq, hBit]; rfl) hNe
      rw [wideLoop, if_pos hSign, if_neg hNeg, ← apply_eq, hZero]
      ring
  | case3 x y result weight hSign digit ih =>
      have hDigit : digit = Int.bitwise op.onBits (x % 65536) (y % 65536) % 65536 := by
        have hMask : digit = apply op (floorDivMod core x 65536).2
            (floorDivMod core y 65536).2 % 65536 := land_mask _ 16
        rw [hMask, floorDivMod_base, floorDivMod_base, apply_eq]
      have hChunk := bitwise_chunk op.onBits x y 16
      rw [wideLoop, if_neg hSign, ih, congrArg Prod.fst (floorDivMod_base core x),
        congrArg Prod.fst (floorDivMod_base core y), hDigit, hChunk]
      norm_num
      ring

/-- The chunked routine operates on the bits. -/
theorem wideBitOp_eq (core : Division) (x y : Int) (op : BitOp) :
    wideBitOp core x y op = Int.bitwise op.onBits x y := by
  rw [wideBitOp, wideLoop_eq]
  ring

/-! ## The primitives -/

section Laws

variable (native : Native) (core : Division) (a b : Int)

/-- A primitive operates on the bits, on either path. -/
theorem bits_eq (op : BitOp) : bits native core op a b = Int.bitwise op.onBits a b := by
  unfold bits
  split
  next hSmall =>
    rw [Bool.and_eq_true] at hSmall
    refine eq_of_testBit_eq fun i => ?_
    rw [native.testBit_bitwise op a b hSmall.1 hSmall.2, Int.testBit_bitwise]
  next => exact wideBitOp_eq core a b op

theorem bitAnd_eq : bitAnd native core a b = Int.land a b :=
  (bits_eq native core a b .and).trans (congrFun₂ Int.bitwise_and a b)

theorem bitOr_eq : bitOr native core a b = Int.lor a b :=
  (bits_eq native core a b .or).trans (congrFun₂ Int.bitwise_or a b)

theorem bitXor_eq : bitXor native core a b = Int.xor a b :=
  (bits_eq native core a b .xor).trans (congrFun₂ Int.bitwise_xor a b)

end Laws

theorem shiftLeft_eq (x : Int) (n : Nat) : Int.shiftLeft x n = x * ((2 ^ n : Nat) : Int) :=
  Int.shiftLeft_eq' x n

/-- `bitShift:` multiplies by a power of two, or divides by one and floors. -/
theorem bitShift_eq (a : Int) {n : Int} (h : -1000000 ≤ n ∧ n ≤ 1000000) :
    bitShift a n = .ok (if n ≥ 0 then a * ((2 ^ n.toNat : Nat) : Int)
      else a / ((2 ^ (-n).toNat : Nat) : Int)) := by
  have hLong : asLong n = .ok n := if_neg (by omega)
  have hRange : ¬ (n > 1000000 ∨ n < -1000000) := by omega
  rw [bitShift, hLong, ← shiftRight_eq, ← shiftLeft_eq]
  exact if_neg hRange

/-- `bitShift:` brings a bit to the place where `bitAnd:` 1 reads it. -/
theorem bitShift_bitAnd (native : Native) (core : Division) (a : Int) {i : Nat}
    (h : i ≤ 1000000) :
    (bitShift a (-i)).map (fun s => bitAnd native core s 1) =
      .ok (if a.testBit i then 1 else 0) := by
  have hShift : bitShift a (-i) = .ok (a / ((2 ^ i : Nat) : Int)) := by
    rw [bitShift_eq a (by omega), neg_neg, Int.toNat_natCast]
    split
    next hZero =>
      obtain rfl : i = 0 := by omega
      simp
    next => rfl
  have hLow : Int.land (a / ((2 ^ i : Nat) : Int)) 1 = a / ((2 ^ i : Nat) : Int) % 2 :=
    land_mask _ 1
  rw [hShift, testBit_eq]
  change Except.ok (bitAnd native core _ 1) = _
  rw [bitAnd_eq, hLow]
  rcases Int.emod_two_eq (a / ((2 ^ i : Nat) : Int)) with h | h
  · rw [h]
    rfl
  · rw [h]
    rfl

/-- The bitwise primitives operate on the bits of the operands, which `bitShift:` shows, and so
keep the laws of their operations. -/
theorem bitwiseLaws (native : Native) (core : Division) (a b : Int) :
    (∀ op i, (wideBitOp core a b op).testBit i = op.onBits (a.testBit i) (b.testBit i)) ∧
    (∀ op, native.isSmallInt a = true → native.isSmallInt b = true →
      wideBitOp core a b op = native.bitwise op a b) ∧
    (∀ op, bits native core op a b = wideBitOp core a b op) ∧
    (∀ i : Nat, i ≤ 1000000 → (bitShift a (-i)).map (fun s => bitAnd native core s 1) =
      .ok (if a.testBit i then 1 else 0)) ∧
    bitAnd native core a b = bitAnd native core b a ∧
    bitXor native core (bitXor native core a b) b = a ∧
    bitAnd native core a b + bitOr native core a b = a + b := by
  refine ⟨fun op i => ?_, fun op ha hb => ?_, fun op => ?_,
    fun i => bitShift_bitAnd native core a, ?_, ?_, ?_⟩
  · rw [wideBitOp_eq, Int.testBit_bitwise]
  · refine eq_of_testBit_eq fun i => ?_
    rw [wideBitOp_eq, Int.testBit_bitwise, native.testBit_bitwise op a b ha hb]
  · rw [bits_eq, wideBitOp_eq]
  · rw [bitAnd_eq, bitAnd_eq, land_comm]
  · rw [bitXor_eq, bitXor_eq, xor_cancel]
  · rw [bitAnd_eq, bitOr_eq, land_add_lor]

/-- Operations that are right on all integers, for integers of 54 bits. -/
def embedded : Native where
  isSmallInt n := -0x20000000000000 ≤ n && n < 0x20000000000000
  bitwise op := Int.bitwise op.onBits
  testBit_bitwise op x y _ _ i := Int.testBit_bitwise op.onBits x y i

/-- On small integers both routines agree, and `bitShift:` shows a bit of a negative one. -/
theorem bitwiseLaws_small :
    wideBitOp truncating (-6) 12 .xor = embedded.bitwise .xor (-6) 12 ∧
      (bitShift (-6) (-1)).map (fun s => bitAnd embedded truncating s 1) = .ok 1 := by
  obtain ⟨-, hNative, -, hShift, -⟩ := bitwiseLaws embedded truncating (-6) 12
  exact ⟨hNative .xor (by decide) (by decide), hShift 1 (by decide)⟩

end ProtoST.Primitives.WideBits

import ProtoST.Frontend.Numerals

/-!
# How numbers print

`formatFloat` and `formatBigInteger` of `runtime/ValueFormat.cpp`.  A text is a list of
bytes, each the `Char` of its code.

A double is its 64 bits.  The C library is a parameter: `snprintf` with `"%.*e"`, a precision
and a double, and `strtod`.

## Main results

* `formatBigInteger_eq` — the digits of an integer, with its sign.
* `layout_denotes` — both layouts of a float are literals of the decimal that they lay out.
-/

namespace ProtoST.Runtime.ValueFormat

open ProtoST.Frontend.Lexer (Digits Numeral digitValue exponentText exponentValue isDigitIn natOf
  natOf_append natOf_zeros signText signed)

/-! ## Doubles -/

/-- A double, by its bits. -/
abbrev Double := BitVec 64

def Double.exponentBits (d : Double) : Nat := d.toNat / 2 ^ 52 % 2 ^ 11

def Double.fractionBits (d : Double) : Nat := d.toNat % 2 ^ 52

/-- `std::isnan`. -/
def Double.isNaN (d : Double) : Bool := d.exponentBits = 2047 && d.fractionBits ≠ 0

/-- `std::isinf`. -/
def Double.isInf (d : Double) : Bool := d.exponentBits = 2047 && d.fractionBits = 0

def Double.isFinite (d : Double) : Bool := d.exponentBits ≠ 2047

def Double.isZero (d : Double) : Bool := d.exponentBits = 0 && d.fractionBits = 0

/-- Below the smallest normal double, and not zero. -/
def Double.isSubnormal (d : Double) : Bool := d.exponentBits = 0 && d.fractionBits ≠ 0

/-- `==`. -/
def Double.equals (a b : Double) : Bool :=
  !a.isNaN && !b.isNaN && (a = b || (a.isZero && b.isZero))

/-! ## Floats -/

section Floats

variable (snprintf : Nat → Double → List Char) (strtod : List Char → Double)

/-- The loop over the precisions, from `prec` on, with `more` of them after it. -/
def shortest (d : Double) : Nat → Nat → List Char
  | 0, prec => snprintf prec d
  | more + 1, prec =>
      if (strtod (snprintf prec d)).equals d then snprintf prec d else shortest d more (prec + 1)

/-- `std::atoi`. -/
def atoi : List Char → Int
  | '-' :: text => -natOf 10 (text.takeWhile Char.isDigit)
  | '+' :: text => natOf 10 (text.takeWhile Char.isDigit)
  | text => natOf 10 (text.takeWhile Char.isDigit)

/-- `std::to_string`. -/
def toText (n : Int) : List Char := signText (decide (n < 0)) ++ Nat.toDigits 10 n.natAbs

/-- The loop that pops the zeros at the end, from the end. -/
def popZeros : List Char → List Char
  | '0' :: d :: ds => popZeros (d :: ds)
  | ds => ds

/-- The digits in positional form, or as a mantissa and an exponent. -/
def layout (digits : List Char) (exp10 : Int) : List Char :=
  if -4 ≤ exp10 ∧ exp10 < 16 then
    if exp10 < 0 then "0.".toList ++ List.replicate (-exp10 - 1).toNat '0' ++ digits
    else
      let intLen := exp10.toNat + 1
      if digits.length ≤ intLen then
        digits ++ List.replicate (intLen - digits.length) '0' ++ ".0".toList
      else digits.take intLen ++ '.' :: digits.drop intLen
  else
    digits.take 1 ++ '.' :: (if digits.length > 1 then digits.drop 1 else ['0']) ++
      'e' :: toText exp10

/-- `formatFloat`. -/
def formatFloat (d : Double) : List Char :=
  if d.isNaN then "Float nan".toList
  else if d.isInf then
    if d.msb then "Float infinity negated".toList else "Float infinity".toList
  else
    let e := shortest snprintf strtod d 16 0
    let negative : Bool := e.head? = some '-'
    let e := if negative then e.tail else e
    let mantissa := e.takeWhile (· ≠ 'e')
    let exp10 := atoi (e.drop (mantissa.length + 1))
    let digits := (popZeros (mantissa.filter (· ≠ '.')).reverse).reverse
    signText negative ++ layout digits exp10

end Floats

/-! ## Integers -/

/-- The character `'0' + d`. -/
def decimalChar (d : Nat) : Char := Char.ofNat ('0'.toNat + d)

/-- The loop of `formatBigInteger`; the digits come out from the last one on. -/
def digitsLoop (n : Nat) (digits : List Char) : List Char :=
  if n > 0 then digitsLoop (n / 10) (digits ++ [decimalChar (n % 10)]) else digits

/-- `formatBigInteger`. -/
def formatBigInteger (v : Int) : List Char :=
  let n := if v < 0 then (-v).toNat else v.toNat
  let digits := if n = 0 then ['0'] else (digitsLoop n []).reverse
  if v < 0 then '-' :: digits else digits

/-! ## The digits of an integer -/

theorem digitValue_decimalChar {d : Nat} (hd : d < 10) : digitValue (decimalChar d) = d := by
  have hAll : ∀ d : Fin 10, digitValue (decimalChar d) = d := by decide
  exact hAll ⟨d, hd⟩

theorem digitValue_digitChar {d : Nat} (hd : d < 10) : digitValue d.digitChar = d := by
  have hAll : ∀ d : Fin 10, digitValue (d : Nat).digitChar = d := by decide
  exact hAll ⟨d, hd⟩

theorem natOf_singleton (base : Nat) (c : Char) : natOf base [c] = digitValue c := by
  simp [natOf]

theorem digitsLoop_eq (n : Nat) (digits : List Char)
    (hDigits : ∀ c ∈ digits, isDigitIn 10 c = true) :
    (∀ c ∈ digitsLoop n digits, isDigitIn 10 c = true) ∧
      natOf 10 (digitsLoop n digits).reverse = n * 10 ^ digits.length + natOf 10 digits.reverse ∧
      (digitsLoop n digits = [] → n = 0 ∧ digits = []) := by
  fun_induction digitsLoop n digits with
  | case1 n digits hPos ih =>
    have hMod : n % 10 < 10 := Nat.mod_lt n (by decide)
    have hChar : isDigitIn 10 (decimalChar (n % 10)) = true := by
      rw [isDigitIn, digitValue_decimalChar hMod, decide_eq_true_eq]
      exact hMod
    have hMore : ∀ c ∈ digits ++ [decimalChar (n % 10)], isDigitIn 10 c = true := by
      intro c hc
      rw [List.mem_append, List.mem_singleton] at hc
      cases hc with
      | inl hOld => exact hDigits c hOld
      | inr hNew => rw [hNew, hChar]
    obtain ⟨hAll, hValue, hNil⟩ := ih hMore
    refine ⟨hAll, hValue.trans ?_, fun h => absurd (hNil h).2 (by simp)⟩
    rw [List.reverse_append, List.reverse_singleton, natOf_append, natOf_singleton,
      digitValue_decimalChar hMod, List.length_append, List.length_singleton,
      List.length_reverse, pow_succ]
    calc n / 10 * (10 ^ digits.length * 10) +
      (n % 10 * 10 ^ digits.length + natOf 10 digits.reverse)
        = (10 * (n / 10) + n % 10) * 10 ^ digits.length + natOf 10 digits.reverse := by ring
      _ = n * 10 ^ digits.length + natOf 10 digits.reverse := by rw [Nat.div_add_mod]
  | case2 n digits hZero =>
    have hn : n = 0 := Nat.eq_zero_of_not_pos hZero
    refine ⟨hDigits, ?_, fun h => ⟨hn, h⟩⟩
    rw [hn, Nat.zero_mul, Nat.zero_add]

/-- The digits of an integer, with its sign. -/
theorem formatBigInteger_eq (v : Int) : ∃ digits : Digits 10,
    formatBigInteger v = signText (decide (v < 0)) ++ digits.chars ∧ digits.value = v.natAbs := by
  have hAbs : (if v < 0 then (-v).toNat else v.toNat) = v.natAbs := by
    split <;> omega
  obtain ⟨hAll, hValue, hNil⟩ := digitsLoop_eq v.natAbs [] (by simp)
  have hDigits : ∃ digits : Digits 10,
      (if v.natAbs = 0 then ['0'] else (digitsLoop v.natAbs []).reverse) = digits.chars ∧
        digits.value = v.natAbs := by
    by_cases hZero : v.natAbs = 0
    · rw [if_pos hZero, hZero]
      exact ⟨⟨['0'], by decide, List.all_eq_true.mp (by decide)⟩, rfl, rfl⟩
    · rw [if_neg hZero]
      refine ⟨⟨(digitsLoop v.natAbs []).reverse, ?_, ?_⟩, rfl, ?_⟩
      · intro h
        exact hZero (hNil (List.reverse_eq_nil_iff.mp h)).1
      · exact fun c hc => hAll c (List.mem_reverse.mp hc)
      · rw [Digits.value, hValue]
        simp [natOf]
  obtain ⟨digits, hChars, hDigitsValue⟩ := hDigits
  refine ⟨digits, ?_, hDigitsValue⟩
  unfold formatBigInteger
  rw [hAbs]
  dsimp only
  rw [hChars]
  by_cases hNeg : v < 0
  · rw [if_pos hNeg, decide_eq_true hNeg]
    rfl
  · rw [if_neg hNeg, decide_eq_false hNeg]
    rfl

theorem toDigits_eq (n : Nat) :
    (∀ c ∈ Nat.toDigits 10 n, isDigitIn 10 c = true) ∧ natOf 10 (Nat.toDigits 10 n) = n := by
  induction n using Nat.strong_induction_on with
  | _ n ih =>
    have hMod : n % 10 < 10 := Nat.mod_lt n (by decide)
    have hChar (d : Nat) (hd : d < 10) : isDigitIn 10 d.digitChar = true := by
      rw [isDigitIn, digitValue_digitChar hd, decide_eq_true_eq]
      exact hd
    rcases Nat.lt_or_ge n 10 with hLt | hGe
    · rw [Nat.toDigits_of_lt_base hLt, natOf_singleton, digitValue_digitChar hLt]
      refine ⟨fun c hc => ?_, rfl⟩
      rw [List.mem_singleton] at hc
      rw [hc, hChar n hLt]
    · obtain ⟨hAll, hValue⟩ := ih (n / 10) (by omega)
      rw [Nat.toDigits_of_base_le (by decide) hGe, natOf_append, natOf_singleton, hValue,
        digitValue_digitChar hMod, List.length_singleton]
      refine ⟨fun c hc => ?_, by omega⟩
      rw [List.mem_append, List.mem_singleton] at hc
      cases hc with
      | inl hOld => exact hAll c hOld
      | inr hNew => rw [hNew, hChar _ hMod]

/-- The digits of a natural number. -/
def digitsOf (n : Nat) : Digits 10 where
  chars := Nat.toDigits 10 n
  nonempty := Nat.toDigits_ne_nil
  digit := (toDigits_eq n).1

theorem value_digitsOf (n : Nat) : (digitsOf n).value = n := (toDigits_eq n).2

/-! ## The layouts of a float -/

/-- The exponent of a mantissa, with its sign. -/
def exponentOf (exp10 : Int) : Bool × Digits 10 :=
  (decide (exp10 < 0), digitsOf exp10.natAbs)

theorem exponentText_exponentOf (exp10 : Int) :
    exponentText (some (exponentOf exp10)) = 'e' :: toText exp10 := rfl

theorem exponentValue_exponentOf (exp10 : Int) :
    exponentValue (some (exponentOf exp10)) = exp10 := by
  unfold exponentValue exponentOf
  dsimp only
  rw [value_digitsOf]
  by_cases hNeg : exp10 < 0
  · rw [decide_eq_true hNeg, signed, if_pos rfl]
    omega
  · rw [decide_eq_false hNeg, signed, if_neg Bool.false_ne_true]
    omega

/-- The decimal that digits with one of them before the point stand for. -/
def decimalValue (digits : List Char) (exp10 : Int) : ℚ :=
  natOf 10 digits * 10 ^ (exp10 + 1 - digits.length)

/-- A text is a literal with a fraction, of a value. -/
def Denotes (text : List Char) (q : ℚ) : Prop :=
  ∃ int frac exponent, text = (Numeral.decimal int (some frac) exponent).text ∧
    (Numeral.decimal int (some frac) exponent).value = q

theorem denotes_intro (int frac : List Char) (exponent : Option (Bool × Digits 10))
    {text : List Char} {q : ℚ}
    (hInt : int ≠ [] ∧ ∀ c ∈ int, isDigitIn 10 c = true)
    (hFrac : frac ≠ [] ∧ ∀ c ∈ frac, isDigitIn 10 c = true)
    (hText : text = int ++ ('.' :: frac ++ exponentText exponent))
    (hValue : (natOf 10 (int ++ frac) : ℚ) * 10 ^ (exponentValue exponent - frac.length) = q) :
    Denotes text q :=
  ⟨⟨int, hInt.1, hInt.2⟩, ⟨frac, hFrac.1, hFrac.2⟩, exponent, hText, hValue⟩

theorem zeros_digits (n : Nat) : ∀ c ∈ List.replicate n '0', isDigitIn 10 c = true := by
  intro c hc
  rw [List.eq_of_mem_replicate hc]
  rfl

theorem append_digits {xs ys : List Char} (hx : ∀ c ∈ xs, isDigitIn 10 c = true)
    (hy : ∀ c ∈ ys, isDigitIn 10 c = true) : ∀ c ∈ xs ++ ys, isDigitIn 10 c = true := by
  intro c hc
  rcases List.mem_append.mp hc with h | h
  · exact hx c h
  · exact hy c h

section Layout

variable {ds : List Char} {exp10 : Int} (hNonempty : ds ≠ [])
  (hDigits : ∀ c ∈ ds, isDigitIn 10 c = true)
include hNonempty hDigits

/-- `0.000ddd` -/
theorem denotes_below_one (hNeg : exp10 < 0) :
    Denotes ("0.".toList ++ List.replicate (-exp10 - 1).toNat '0' ++ ds)
      (decimalValue ds exp10) := by
  refine denotes_intro ['0'] (List.replicate (-exp10 - 1).toNat '0' ++ ds) none
    ⟨by decide, zeros_digits 1⟩ ⟨by simp [hNonempty], append_digits (zeros_digits _) hDigits⟩
    (by simp [exponentText]) ?_
  have hExponent : exponentValue none -
      ((List.replicate (-exp10 - 1).toNat '0' ++ ds).length : Int) = exp10 + 1 - ds.length := by
    rw [List.length_append, List.length_replicate, exponentValue]
    omega
  have hMantissa : natOf 10 (['0'] ++ (List.replicate (-exp10 - 1).toNat '0' ++ ds)) =
      natOf 10 ds := by
    have hZero : natOf 10 ['0'] = 0 := by decide
    rw [natOf_append, natOf_append, natOf_zeros, hZero]
    omega
  rw [hExponent, hMantissa, decimalValue]

/-- `ddd000.0` -/
theorem denotes_whole (hNonneg : 0 ≤ exp10) (hLe : ds.length ≤ exp10.toNat + 1) :
    Denotes (ds ++ List.replicate (exp10.toNat + 1 - ds.length) '0' ++ ".0".toList)
      (decimalValue ds exp10) := by
  refine denotes_intro (ds ++ List.replicate (exp10.toNat + 1 - ds.length) '0') ['0'] none
    ⟨by simp [hNonempty], append_digits hDigits (zeros_digits _)⟩ ⟨by decide, zeros_digits 1⟩
    (by simp [exponentText]) ?_
  have hMantissa : natOf 10 (ds ++ List.replicate (exp10.toNat + 1 - ds.length) '0' ++ ['0']) =
      natOf 10 ds * 10 ^ (exp10.toNat + 1 - ds.length + 1) := by
    have hZero : natOf 10 ['0'] = 0 := by decide
    rw [natOf_append, natOf_append, natOf_zeros, hZero, List.length_replicate,
      List.length_singleton, pow_succ]
    ring
  have hExponent : exp10 + 1 - (ds.length : Int) =
      ((exp10.toNat + 1 - ds.length + 1 : Nat) : Int) +
        (exponentValue none - ((['0'].length : Nat) : Int)) := by
    rw [exponentValue, List.length_singleton]
    omega
  rw [hMantissa, decimalValue, hExponent, zpow_add₀ (by norm_num), zpow_natCast]
  push_cast
  ring

/-- `dd.dd` -/
theorem denotes_split (hNonneg : 0 ≤ exp10) (hLt : exp10.toNat + 1 < ds.length) :
    Denotes (ds.take (exp10.toNat + 1) ++ '.' :: ds.drop (exp10.toNat + 1))
      (decimalValue ds exp10) := by
  refine denotes_intro (ds.take (exp10.toNat + 1)) (ds.drop (exp10.toNat + 1)) none
    ⟨?_, fun c hc => hDigits c (List.mem_of_mem_take hc)⟩
    ⟨?_, fun c hc => hDigits c (List.mem_of_mem_drop hc)⟩ (by simp [exponentText]) ?_
  · simp [hNonempty]
  · rw [ne_eq, List.drop_eq_nil_iff]
    omega
  · have hExponent : exponentValue none - ((ds.drop (exp10.toNat + 1)).length : Int) =
        exp10 + 1 - ds.length := by
      rw [List.length_drop, exponentValue]
      omega
    rw [hExponent, List.take_append_drop, decimalValue]

/-- `d.ddde16` -/
theorem denotes_scientific :
    Denotes (ds.take 1 ++ '.' :: (if ds.length > 1 then ds.drop 1 else ['0']) ++
      'e' :: toText exp10) (decimalValue ds exp10) := by
  have hLength : 0 < ds.length := List.length_pos_iff.mpr hNonempty
  have hTake : ds.take 1 ≠ [] := by simp [hNonempty]
  by_cases hOne : ds.length > 1
  · rw [if_pos hOne]
    refine denotes_intro (ds.take 1) (ds.drop 1) (some (exponentOf exp10))
      ⟨hTake, fun c hc => hDigits c (List.mem_of_mem_take hc)⟩
      ⟨?_, fun c hc => hDigits c (List.mem_of_mem_drop hc)⟩
      (by rw [exponentText_exponentOf]; simp) ?_
    · rw [ne_eq, List.drop_eq_nil_iff]
      omega
    · have hExponent : exp10 - ((ds.drop 1).length : Int) = exp10 + 1 - ds.length := by
        rw [List.length_drop]
        omega
      rw [exponentValue_exponentOf, hExponent, List.take_append_drop, decimalValue]
  · rw [if_neg hOne]
    have hTakeAll : ds.take 1 = ds := List.take_of_length_le (by omega)
    rw [hTakeAll]
    refine denotes_intro ds ['0'] (some (exponentOf exp10)) ⟨hNonempty, hDigits⟩
      ⟨by decide, zeros_digits 1⟩ (by rw [exponentText_exponentOf]; simp) ?_
    have hZero : natOf 10 ['0'] = 0 := by decide
    have hExponent : exp10 + 1 - (ds.length : Int) =
      (exp10 - ((['0'].length : Nat) : Int)) + 1 := by
      rw [List.length_singleton]
      omega
    rw [exponentValue_exponentOf, natOf_append, hZero, decimalValue, hExponent,
      zpow_add₀ (by norm_num), List.length_singleton]
    push_cast
    ring

/-- Both layouts of a float are literals of the decimal that they lay out. -/
theorem layout_denotes : Denotes (layout ds exp10) (decimalValue ds exp10) := by
  unfold layout
  by_cases hPositional : -4 ≤ exp10 ∧ exp10 < 16
  · rw [if_pos hPositional]
    by_cases hNeg : exp10 < 0
    · rw [if_pos hNeg]
      exact denotes_below_one hNonempty hDigits hNeg
    · rw [if_neg hNeg]
      dsimp only
      by_cases hLe : ds.length ≤ exp10.toNat + 1
      · rw [if_pos hLe]
        exact denotes_whole hNonempty hDigits (by omega) hLe
      · rw [if_neg hLe]
        exact denotes_split hNonempty hDigits (by omega) (by omega)
  · rw [if_neg hPositional]
    exact denotes_scientific hNonempty hDigits

end Layout

/-! ## The zeros at the end -/

theorem popZeros_spec (ds : List Char) (exp10 : Int) (hNonempty : ds ≠ [])
    (hDigits : ∀ c ∈ ds, isDigitIn 10 c = true) :
    popZeros ds ≠ [] ∧ (∀ c ∈ popZeros ds, isDigitIn 10 c = true) ∧
      decimalValue (popZeros ds).reverse exp10 = decimalValue ds.reverse exp10 := by
  fun_induction popZeros ds with
  | case1 d ds ih =>
    obtain ⟨hOne, hTwo, hThree⟩ := ih (by simp) fun c hc => hDigits c (List.mem_cons_of_mem _ hc)
    refine ⟨hOne, hTwo, hThree.trans ?_⟩
    have hZero : natOf 10 ['0'] = 0 := by decide
    have hExponent : exp10 + 1 - ((d :: ds).reverse.length : Int) =
        (exp10 + 1 - (('0' :: d :: ds).reverse.length : Int)) + 1 := by
      simp
      omega
    have hMantissa : natOf 10 ('0' :: d :: ds).reverse = natOf 10 (d :: ds).reverse * 10 := by
      rw [List.reverse_cons, natOf_append, hZero, List.length_singleton, pow_one, Nat.add_zero]
    rw [decimalValue, decimalValue, hExponent, hMantissa, zpow_add₀ (by norm_num)]
    push_cast
    ring
  | case2 ds hOther => exact ⟨hNonempty, hDigits, rfl⟩

/-! ## The text of a mantissa and an exponent -/

/-- What `"%.*e"` prints of a finite double: a digit, the digits of the precision, and an
exponent with a sign and at least two digits. -/
structure Scientific where
  negative : Bool
  lead : Char
  fraction : List Char
  exponent : Int
  digit : ∀ c ∈ lead :: fraction, isDigitIn 10 c = true

namespace Scientific

/-- The digits of the exponent. -/
def exponentDigits (n : Nat) : List Char :=
  if n < 10 then '0' :: Nat.toDigits 10 n else Nat.toDigits 10 n

def text (e : Scientific) : List Char :=
  signText e.negative ++ e.lead :: ((if e.fraction = [] then [] else '.' :: e.fraction) ++
    'e' :: (if e.exponent < 0 then '-' else '+') :: exponentDigits e.exponent.natAbs)

def value (e : Scientific) : ℚ := decimalValue (e.lead :: e.fraction) e.exponent

theorem exponentDigits_eq (n : Nat) :
    (∀ c ∈ exponentDigits n, isDigitIn 10 c = true) ∧ natOf 10 (exponentDigits n) = n := by
  obtain ⟨hAll, hValue⟩ := toDigits_eq n
  unfold exponentDigits
  split
  · have hZero : natOf 10 ['0'] = 0 := by decide
    have hPadding : ∀ c ∈ ['0'], isDigitIn 10 c = true := zeros_digits 1
    refine ⟨append_digits hPadding hAll, ?_⟩
    refine (natOf_append 10 ['0'] (Nat.toDigits 10 n)).trans ?_
    rw [hZero, hValue, Nat.zero_mul, Nat.zero_add]
  · exact ⟨hAll, hValue⟩

/-- A digit is none of the other characters of a number. -/
theorem ne_of_digit {c d : Char} (hc : isDigitIn 10 c = true) (hd : isDigitIn 10 d = false) :
    c ≠ d := by
  rintro rfl
  rw [hc] at hd
  cases hd

variable (e : Scientific)

/-- The text without the sign. -/
def unsignedText : List Char :=
  (e.lead :: (if e.fraction = [] then [] else '.' :: e.fraction)) ++
    'e' :: (if e.exponent < 0 then '-' else '+') :: exponentDigits e.exponent.natAbs

theorem text_eq : e.text = signText e.negative ++ e.unsignedText := rfl

theorem head_text : decide (e.text.head? = some '-') = e.negative := by
  have hLead : e.lead ≠ '-' := ne_of_digit (e.digit _ List.mem_cons_self) (by decide)
  rw [text_eq, unsignedText]
  cases e.negative with
  | false => simp [signText, hLead]
  | true => simp [signText]

theorem tail_text : (if e.negative then e.text.tail else e.text) = e.unsignedText := by
  rw [text_eq]
  cases e.negative with
  | false => rfl
  | true => rfl

theorem mantissa_unsignedText : e.unsignedText.takeWhile (· ≠ 'e') =
    e.lead :: (if e.fraction = [] then [] else '.' :: e.fraction) := by
  refine Frontend.Lexer.takeWhile_run (fun c hc => ?_) (Frontend.Lexer.stops_cons (by decide))
  rw [decide_eq_true_eq]
  have hDigit : ∀ c ∈ e.lead :: e.fraction, c ≠ 'e' :=
    fun c hc => ne_of_digit (e.digit c hc) (by decide)
  by_cases hNil : e.fraction = []
  · rw [if_pos hNil, List.mem_singleton] at hc
    exact hDigit c (by rw [hc]; exact List.mem_cons_self)
  · rw [if_neg hNil, List.mem_cons, List.mem_cons] at hc
    rcases hc with rfl | rfl | hc
    · exact hDigit _ List.mem_cons_self
    · decide
    · exact hDigit c (List.mem_cons_of_mem _ hc)

/-- The exponent behind the `e`. -/
def signedExponent (e : Scientific) : List Char :=
  (if e.exponent < 0 then '-' else '+') :: exponentDigits e.exponent.natAbs

theorem atoi_signedExponent : atoi e.signedExponent = e.exponent := by
  obtain ⟨hAll, hValue⟩ := exponentDigits_eq e.exponent.natAbs
  have hDigits : ∀ c ∈ exponentDigits e.exponent.natAbs, c.isDigit = true := by
    intro c hc
    rw [← Frontend.Lexer.isDigitIn_ten]
    exact hAll c hc
  unfold signedExponent
  by_cases hNeg : e.exponent < 0
  · rw [if_pos hNeg, atoi, List.takeWhile_eq_self_iff.mpr hDigits, hValue]
    omega
  · rw [if_neg hNeg, atoi, List.takeWhile_eq_self_iff.mpr hDigits, hValue]
    omega

theorem exponent_unsignedText :
    atoi (e.unsignedText.drop ((e.unsignedText.takeWhile (· ≠ 'e')).length + 1)) = e.exponent := by
  have hDrop : e.unsignedText.drop ((e.unsignedText.takeWhile (· ≠ 'e')).length + 1) =
      e.signedExponent := by
    rw [mantissa_unsignedText, unsignedText, ← List.drop_drop, List.drop_left]
    rfl
  rw [hDrop, atoi_signedExponent]

theorem digits_unsignedText :
    (e.unsignedText.takeWhile (· ≠ 'e')).filter (· ≠ '.') = e.lead :: e.fraction := by
  have hAll : (e.lead :: e.fraction).filter (· ≠ '.') = e.lead :: e.fraction := by
    refine List.filter_eq_self.mpr fun c hc => ?_
    rw [decide_eq_true_eq]
    exact ne_of_digit (e.digit c hc) (by decide)
  rw [mantissa_unsignedText]
  by_cases hNil : e.fraction = []
  · rw [if_pos hNil, ← hNil]
    exact hAll
  · rw [if_neg hNil]
    rw [List.filter_cons] at hAll ⊢
    rw [List.filter_cons_of_neg (by simp)]
    exact hAll

end Scientific

/-! ## Decimals -/

/-- The sign and the decimal of a text, as `strtod` reads it. -/
def decimalOf (text : List Char) : Option (Bool × ℚ) :=
  let negative : Bool := text.head? = some '-'
  let body := if negative then text.tail else text
  let int := body.takeWhile Char.isDigit
  let (frac, rest) := match body.dropWhile Char.isDigit with
    | '.' :: rest => (rest.takeWhile Char.isDigit, rest.dropWhile Char.isDigit)
    | rest => ([], rest)
  let exponent : Option Int := match rest with
    | [] => some 0
    | 'e' :: rest => some (atoi rest)
    | _ => none
  if int = [] then none
  else exponent.map fun e =>
    (negative, (natOf 10 (int ++ frac) : ℚ) * 10 ^ (e - (frac.length : Int)))

section Decimals

variable {int frac : List Char} (hInt : ∀ c ∈ int, c.isDigit = true) (hNonempty : int ≠ [])
  (hFrac : ∀ c ∈ frac, c.isDigit = true)
include hInt hNonempty

theorem head_signed (negative : Bool) (rest : List Char) :
    decide ((signText negative ++ (int ++ rest)).head? = some '-') = negative ∧
      (if negative then (signText negative ++ (int ++ rest)).tail
        else signText negative ++ (int ++ rest)) = int ++ rest := by
  obtain ⟨c, cs, rfl⟩ := List.exists_cons_of_ne_nil hNonempty
  have hMinus : c ≠ '-' := by
    rintro rfl
    exact absurd (hInt '-' List.mem_cons_self) (by decide)
  cases negative with
  | true => exact ⟨rfl, rfl⟩
  | false => exact ⟨decide_eq_false fun h => hMinus (Option.some.inj h), rfl⟩

include hFrac

/-- The text of digits, a fraction or none, and an exponent or none. -/
theorem decimalOf_eq (negative : Bool) {point exponent : List Char} {e : Int}
    (hPoint : (point = [] ∧ frac = []) ∨ point = '.' :: frac)
    (hExponent : (exponent = [] ∧ e = 0) ∨ ∃ rest, exponent = 'e' :: rest ∧ atoi rest = e) :
    decimalOf (signText negative ++ (int ++ (point ++ exponent))) =
      some (negative, (natOf 10 (int ++ frac) : ℚ) * 10 ^ (e - frac.length)) := by
  obtain ⟨hHead, hTail⟩ := head_signed hInt hNonempty negative (point ++ exponent)
  have hStops : Frontend.Lexer.Stops Char.isDigit exponent := by
    rcases hExponent with ⟨rfl, -⟩ | ⟨rest, rfl, -⟩
    · intro c hc
      cases hc
    · exact Frontend.Lexer.stops_cons (by decide)
  have hStopsPoint : Frontend.Lexer.Stops Char.isDigit (point ++ exponent) := by
    rcases hPoint with ⟨rfl, -⟩ | rfl
    · exact hStops
    · exact Frontend.Lexer.stops_cons (by decide)
  have hMatch : (match point ++ exponent with
      | '.' :: rest => (rest.takeWhile Char.isDigit, rest.dropWhile Char.isDigit)
      | rest => ([], rest)) = (frac, exponent) := by
    rcases hPoint with ⟨rfl, rfl⟩ | rfl
    · rcases hExponent with ⟨rfl, -⟩ | ⟨rest, rfl, -⟩
      · rfl
      · rfl
    · change ((frac ++ exponent).takeWhile Char.isDigit,
        (frac ++ exponent).dropWhile Char.isDigit) = _
      rw [Frontend.Lexer.takeWhile_run hFrac hStops, Frontend.Lexer.dropWhile_run hFrac hStops]
  unfold decimalOf
  dsimp only
  rw [hHead, hTail, Frontend.Lexer.takeWhile_run hInt hStopsPoint,
    Frontend.Lexer.dropWhile_run hInt hStopsPoint, if_neg hNonempty, hMatch]
  rcases hExponent with ⟨rfl, rfl⟩ | ⟨rest, rfl, rfl⟩
  · rfl
  · rfl

end Decimals

theorem decimalOf_scientific (e : Scientific) : decimalOf e.text = some (e.negative, e.value) := by
  have hDigit : ∀ c ∈ e.lead :: e.fraction, c.isDigit = true := fun c hc => by
    rw [← Frontend.Lexer.isDigitIn_ten]
    exact e.digit c hc
  have hLead : ∀ c ∈ [e.lead], c.isDigit = true := fun c hc =>
    hDigit c (by rw [List.mem_singleton.mp hc]; exact List.mem_cons_self)
  have hPoint : ((if e.fraction = [] then [] else '.' :: e.fraction) = [] ∧ e.fraction = []) ∨
      (if e.fraction = [] then [] else '.' :: e.fraction) = '.' :: e.fraction := by
    by_cases hNil : e.fraction = []
    · exact .inl ⟨if_pos hNil, hNil⟩
    · exact .inr (if_neg hNil)
  have hText : e.text = signText e.negative ++ ([e.lead] ++
      ((if e.fraction = [] then [] else '.' :: e.fraction) ++ 'e' :: e.signedExponent)) := rfl
  rw [hText, decimalOf_eq hLead (by simp) (fun c hc => hDigit c (List.mem_cons_of_mem _ hc))
    e.negative hPoint (.inr ⟨_, rfl, e.atoi_signedExponent⟩)]
  have hExponent : e.exponent + 1 - ((e.lead :: e.fraction).length : Int) =
      e.exponent - e.fraction.length := by
    rw [List.length_cons]
    omega
  rw [Scientific.value, decimalValue, hExponent]
  rfl

theorem atoi_digits (negative : Bool) (digits : Digits 10) :
    atoi (signText negative ++ digits.chars) = signed negative (digits.value : Int) := by
  have hTake := List.takeWhile_eq_self_iff.mpr digits.isDigit
  cases negative with
  | true => exact congrArg (fun ds => -(natOf 10 ds : Int)) hTake
  | false =>
      obtain ⟨c, cs, hChars⟩ := List.exists_cons_of_ne_nil digits.nonempty
      have hDigit : c.isDigit = true :=
        digits.isDigit c (by rw [hChars]; exact List.mem_cons_self)
      change atoi digits.chars = (natOf 10 digits.chars : Int)
      rw [hChars] at hTake ⊢
      unfold atoi
      split
      · rename_i h
        cases h
        exact absurd hDigit (by decide)
      · rename_i h
        cases h
        exact absurd hDigit (by decide)
      · rw [hTake]

/-- The decimal of a literal with a fraction. -/
theorem decimalOf_literal (negative : Bool) (int frac : Digits 10)
    (exponent : Option (Bool × Digits 10)) :
    decimalOf (signText negative ++ (Numeral.decimal int (some frac) exponent).text) =
      some (negative, (Numeral.decimal int (some frac) exponent).value) := by
  refine decimalOf_eq int.isDigit int.nonempty frac.isDigit negative (.inr rfl) ?_
  cases exponent with
  | none => exact .inl ⟨rfl, rfl⟩
  | some e => exact .inr ⟨_, rfl, atoi_digits e.1 e.2⟩

/-- The digits that are laid out. -/
def Scientific.digits (e : Scientific) : List Char :=
  (popZeros (e.lead :: e.fraction).reverse).reverse

theorem formatFloat_finite {snprintf : Nat → Double → List Char} {strtod : List Char → Double}
    {d : Double} (hFinite : d.isFinite = true) {e : Scientific}
    (hText : shortest snprintf strtod d 16 0 = e.text) :
    formatFloat snprintf strtod d = signText e.negative ++ layout e.digits e.exponent := by
  have hExponent : d.exponentBits ≠ 2047 := of_decide_eq_true hFinite
  have hNaN : d.isNaN = false := by simp [Double.isNaN, hExponent]
  have hInf : d.isInf = false := by simp [Double.isInf, hExponent]
  unfold formatFloat
  rw [if_neg (by simp [hNaN]), if_neg (by simp [hInf]), hText]
  dsimp only
  rw [e.head_text, e.tail_text, e.exponent_unsignedText, e.digits_unsignedText]
  rfl

/-- A finite double prints as a literal with a fraction, of the decimal of its shortest
mantissa. -/
theorem formatFloat_denotes {snprintf : Nat → Double → List Char} {strtod : List Char → Double}
    {d : Double} (hFinite : d.isFinite = true) {e : Scientific}
    (hText : shortest snprintf strtod d 16 0 = e.text) :
    ∃ text, formatFloat snprintf strtod d = signText e.negative ++ text ∧
      Denotes text e.value := by
  obtain ⟨hNonempty, hDigits, hValue⟩ := popZeros_spec (e.lead :: e.fraction).reverse e.exponent
    (by simp) fun c hc => e.digit c (List.mem_reverse.mp hc)
  rw [List.reverse_reverse] at hValue
  refine ⟨layout e.digits e.exponent, formatFloat_finite hFinite hText, ?_⟩
  rw [Scientific.value, ← hValue]
  exact layout_denotes (fun h => hNonempty (List.reverse_eq_nil_iff.mp h))
    fun c hc => hDigits c (List.mem_reverse.mp hc)

end ProtoST.Runtime.ValueFormat

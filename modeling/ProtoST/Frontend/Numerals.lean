import Mathlib.Algebra.Order.Field.Rat
import Mathlib.Data.List.Infix
import Mathlib.Tactic.Common
import Mathlib.Tactic.FieldSimp
import Mathlib.Tactic.Linarith
import Mathlib.Tactic.NormNum
import Mathlib.Tactic.Ring
import ProtoST.Frontend.Lexer

/-!
# Numeric literals

What `lexNumber` makes of a number, and what the parser, the compiler and `materialize`
make of its token.  The syntax of a number is that of the language reference and of the
comments of `lexNumber`: digits, with a fraction and an exponent if there are any, or
`<base>r<digits>` with a base from 2 to 36.

`ProtoContext::fromString` is a parameter (`ReadsDigits`); `fromLong` is the identity.

## Main results

* `numerals_iff` — the longest number is read, and means its text unless it is an integer
  whose exponent is beyond the range of an `int`.
* `means_exponent_wraps` — a literal that is read as another number.
-/

namespace ProtoST.Frontend.Lexer

/-! ## The syntax -/

/-- Digits of a base. -/
structure Digits (base : Nat) where
  chars : List Char
  nonempty : chars ≠ []
  digit : ∀ c ∈ chars, isDigitIn base c = true

/-- The number that digits denote. -/
def Digits.value {base : Nat} (digits : Digits base) : Nat := natOf base digits.chars

inductive Numeral where
  /-- `<base>r<digits>` -/
  | radix (base : Digits 10) (two_le : 2 ≤ base.value) (le : base.value ≤ 36)
      (digits : Digits base.value)
  /-- The digits, the fraction, and the exponent with whether it has a minus sign. -/
  | decimal (digits : Digits 10) (fraction : Option (Digits 10))
      (exponent : Option (Bool × Digits 10))

/-- The sign of a literal. -/
def signText (negative : Bool) : List Char := if negative then ['-'] else []

def fractionText : Option (Digits 10) → List Char
  | none => []
  | some fraction => '.' :: fraction.chars

def exponentText : Option (Bool × Digits 10) → List Char
  | none => []
  | some (negative, digits) => 'e' :: (signText negative ++ digits.chars)

def Numeral.text : Numeral → List Char
  | .radix base _ _ digits => base.chars ++ 'r' :: digits.chars
  | .decimal digits fraction exponent =>
      digits.chars ++ (fractionText fraction ++ exponentText exponent)

/-- A number with a sign. -/
def signed {α : Type} [Neg α] (negative : Bool) (x : α) : α := if negative then -x else x

/-- What the exponent stands for. -/
def exponentValue : Option (Bool × Digits 10) → Int
  | none => 0
  | some (negative, digits) => signed negative (digits.value : Int)

/-- The mantissa without its point, and the number of its decimal places. -/
def mantissa (digits : Digits 10) : Option (Digits 10) → Nat × Nat
  | none => (digits.value, 0)
  | some fraction => (natOf 10 (digits.chars ++ fraction.chars), fraction.chars.length)

def Numeral.value : Numeral → ℚ
  | .radix _ _ _ digits => digits.value
  | .decimal digits fraction exponent =>
      (mantissa digits fraction).1 *
        10 ^ (exponentValue exponent - (mantissa digits fraction).2)

/-- Neither a fraction nor a negative exponent. -/
def Numeral.IsInteger : Numeral → Prop
  | .radix .. => True
  | .decimal _ fraction exponent => fraction = none ∧ ∀ e, exponent = some e → e.1 = false

/-- The exponent of an integer mantissa, or 0. -/
def Numeral.exponent : Numeral → Nat
  | .decimal _ none (some (false, e)) => e.value
  | _ => 0

/-- The longest number that a text starts with. -/
structure Numeral.Longest (lit : Numeral) (rest : List Char) : Prop where
  starts : lit.text <+: rest
  longest : ∀ other : Numeral, other.text <+: rest → other.text.length ≤ lit.text.length

/-- Whether a number starts here, and with which sign: a minus sign directly before a digit
is one where an operand can stand. -/
def numberSign (prev : TokenKind) (spaceBefore : Bool) : List Char → Option Bool
  | [] => none
  | c :: cs =>
      if c.isDigit then some false
      else if c = '-' ∧ (cs.headD '\x00').isDigit ∧
          (endsOperand prev = false ∨ spaceBefore = true) then some true
      else none

/-- The text without the sign. -/
def unsigned (negative : Bool) (rest : List Char) : List Char :=
  if negative then rest.tail else rest

/-! ## From the token to the constant -/

/-- The node of an integer literal.  `boolFlag` marks one whose digits are in `text` and
their base in `intValue`. -/
structure IntegerLit where
  text : List Char
  intValue : Int
  boolFlag : Bool

/-- The `Integer` case of `parsePrimary` and of `parseLiteralArrayElement`. -/
def integerLit (t : Token) : IntegerLit where
  text := t.text
  intValue := if t.large then t.radix else t.intValue
  boolFlag := t.large

/-- `Const`, of the kinds `Integer` and `LargeInteger`. -/
inductive Const where
  | integer (v : Int)
  | largeInteger (digits : List Char) (radix : Int)

/-- The `IntegerLit` case of `emitExpr`. -/
def IntegerLit.constant (n : IntegerLit) : Const :=
  if n.boolFlag then .largeInteger n.text n.intValue else .integer n.intValue

/-- `materialize`, of an integer. -/
def materialize (fromString : List Char → Int → Int) : Const → Int
  | .integer v => v
  | .largeInteger digits radix => fromString digits radix

/-- `ProtoContext::fromString` reads digits with a sign. -/
def ReadsDigits (fromString : List Char → Int → Int) : Prop :=
  ∀ (negative : Bool) (base : Nat) (digits : Digits base), 2 ≤ base → base ≤ 36 →
    fromString (signText negative ++ digits.chars) base = signed negative (digits.value : Int)

/-- The integer that a token stands for. -/
def Token.integer (fromString : List Char → Int → Int) (t : Token) : Int :=
  materialize fromString (integerLit t).constant

/-- What an accepted literal is: a token of the kind of the number, with its value. -/
structure Means (fromString : List Char → Int → Int) (stod : List Char → Option (BitVec 64))
    (negative : Bool) (lit : Numeral) (t : Token) : Prop where
  kinds : t.kind = .integer ∨ t.kind = .float ∨ t.kind = .error
  integer : t.kind = .integer →
    lit.IsInteger ∧ (t.integer fromString : ℚ) = signed negative lit.value
  float : t.kind = .float → ¬ lit.IsInteger ∧ t.text = signText negative ++ lit.text ∧
    stod t.text = some t.floatValue
  accepted : lit.IsInteger → lit.exponent ≤ 400 → t.kind = .integer

/-- A number is read to the end of the longest number that starts there, and as that
number. -/
def MeansItsText (fromString : List Char → Int → Int) (stod : List Char → Option (BitVec 64))
    (negative : Bool) (rest : List Char) (read : Token × Cursor) : Prop :=
  (∃ lit : Numeral, lit.Longest rest) ∧ ∀ lit : Numeral, lit.Longest rest →
    rest = lit.text ++ read.2.rest ∧ Means fromString stod negative lit read.1

/-- The exponent of an integer is one that `std::stoi` reads, or the integer is 0. -/
def Numeral.Fits (lit : Numeral) : Prop := lit.exponent < 2 ^ 31 ∨ lit.value = 0

/-! ## Runs of digits -/

/-- The text does not go on with a character of the class. -/
def Stops (p : Char → Bool) (rest : List Char) : Prop :=
  ∀ c, rest.head? = some c → p c = false

variable {p : Char → Bool}

theorem takeWhile_run {run rest : List Char}
    (hRun : ∀ c ∈ run, p c = true) (hStops : Stops p rest) :
    (run ++ rest).takeWhile p = run := by
  rw [List.takeWhile_append_of_pos hRun]
  cases rest with
  | nil => simp
  | cons c rest => rw [List.takeWhile_cons_of_neg (by simp [hStops c rfl]), List.append_nil]

theorem dropWhile_run {run rest : List Char}
    (hRun : ∀ c ∈ run, p c = true) (hStops : Stops p rest) :
    (run ++ rest).dropWhile p = rest := by
  rw [List.dropWhile_append_of_pos hRun]
  cases rest with
  | nil => rfl
  | cons c rest => rw [List.dropWhile_cons_of_neg (by simp [hStops c rfl])]

theorem stops_cons {c : Char} {rest : List Char} (h : p c = false) :
    Stops p (c :: rest) := by
  intro d hd
  rw [List.head?_cons, Option.some.injEq] at hd
  rw [← hd, h]

theorem isDigitIn_ten (c : Char) : isDigitIn 10 c = c.isDigit := by
  unfold isDigitIn digitValue
  by_cases hDigit : c.isDigit = true
  · have hLe : c.toNat ≤ 57 := by
      rw [Char.isDigit, Bool.and_eq_true, decide_eq_true_eq, decide_eq_true_eq] at hDigit
      exact hDigit.2
    have hZero : '0'.toNat = 48 := rfl
    rw [if_pos hDigit, hDigit, decide_eq_true_eq, hZero]
    omega
  · rw [if_neg hDigit, Bool.eq_false_iff.mpr hDigit, decide_eq_false_iff_not]
    split <;> omega

theorem Digits.isDigit (digits : Digits 10) : ∀ c ∈ digits.chars, c.isDigit = true := by
  intro c hc
  rw [← isDigitIn_ten]
  exact digits.digit c hc

/-- One more digit. -/
def Digits.push {base : Nat} (digits : Digits base) (c : Char) (hc : isDigitIn base c = true) :
    Digits base where
  chars := digits.chars ++ [c]
  nonempty := by simp
  digit := by
    intro d hd
    rw [List.mem_append, List.mem_singleton] at hd
    cases hd with
    | inl hOld => exact digits.digit d hOld
    | inr hNew => rw [hNew, hc]

/-- A single digit. -/
def Digits.single {base : Nat} (c : Char) (hc : isDigitIn base c = true) : Digits base where
  chars := [c]
  nonempty := by simp
  digit := by
    intro d hd
    rw [List.mem_singleton] at hd
    rw [hd, hc]

/-! ## The longest number -/

/-- No number goes on beyond the longest one. -/
theorem Numeral.Longest.not_prefix {lit : Numeral} {rest after : List Char}
    (h : lit.Longest rest) (hRest : rest = lit.text ++ after) (other : Numeral) (more : List Char)
    (hOther : other.text = lit.text ++ more) (hMore : more ≠ []) : ¬ more <+: after := by
  intro hPrefix
  have hLength := h.longest other (by
    rw [hOther, hRest]
    exact (List.prefix_append_right_inj _).mpr hPrefix)
  rw [hOther, List.length_append] at hLength
  have := List.length_pos_iff.mpr hMore
  omega

/-- Where a digit stands, a longest number starts. -/
theorem exists_longest {c : Char} {cs : List Char} (hc : c.isDigit = true) :
    ∃ lit : Numeral, lit.Longest (c :: cs) := by
  have hDigit : isDigitIn 10 c = true := by rw [isDigitIn_ten, hc]
  let Reaches (n : Nat) : Prop := ∃ lit : Numeral, lit.text <+: c :: cs ∧ lit.text.length = n
  have hOne : Reaches 1 := ⟨.decimal (.single c hDigit) none none, ⟨cs, rfl⟩, rfl⟩
  have hBound (n : Nat) (h : Reaches n) : n ≤ (c :: cs).length := by
    obtain ⟨lit, hPrefix, rfl⟩ := h
    exact hPrefix.length_le
  classical
  obtain ⟨lit, hPrefix, hLength⟩ := Nat.findGreatest_spec (P := Reaches) (hBound 1 hOne) hOne
  refine ⟨lit, hPrefix, fun other hOther => ?_⟩
  rw [hLength]
  exact Nat.le_findGreatest hOther.length_le ⟨other, hOther, rfl⟩

/-! ## What is read -/

variable {stod : List Char → Option (BitVec 64)}

/-- The exponent as `lexExponent` answers it. -/
def exponentChars : Option (Bool × Digits 10) → List Char
  | none => []
  | some (negative, digits) => signText negative ++ digits.chars

section Read

variable {rest after : List Char} {digits : Digits 10} {fraction : Option (Digits 10)}
  {exponent : Option (Bool × Digits 10)} {cur : Cursor}

/-- The digits are one run, up to what no digit begins. -/
theorem Digits.run (digits : Digits 10) (hStops : Stops Char.isDigit after) :
    ∃ d ds, digits.chars = d :: ds ∧ d.isDigit = true ∧
      (d :: (ds ++ after)).takeWhile Char.isDigit = d :: ds ∧
      (d :: (ds ++ after)).dropWhile Char.isDigit = after := by
  obtain ⟨chars, nonempty, digit⟩ := digits
  have hRun : ∀ c ∈ chars, c.isDigit = true := fun c hc => by
    rw [← isDigitIn_ten]
    exact digit c hc
  obtain ⟨d, ds, rfl⟩ := List.exists_cons_of_ne_nil nonempty
  exact ⟨d, ds, rfl, hRun d List.mem_cons_self, takeWhile_run hRun hStops,
    dropWhile_run hRun hStops⟩

theorem lexExponent_some {negative : Bool}
    (hcur : cur.rest = exponentText (some (negative, digits)) ++ after)
    (hStops : Stops Char.isDigit after) :
    (lexExponent cur).1 = signText negative ++ digits.chars ∧
      (lexExponent cur).2.rest = after := by
  obtain ⟨d, ds, hChars, hd, hTake, hDrop⟩ := digits.run hStops
  obtain ⟨_, line, column⟩ := cur
  cases hcur
  cases negative with
  | false =>
      have hMinus : d ≠ '-' := fun h => absurd hd (by rw [h]; decide)
      simp [hChars, signText, lexExponent, hMinus, hd, hTake, hDrop]
  | true => simp [hChars, signText, lexExponent, hd, hTake, hDrop]

theorem lexFraction_some (hcur : cur.rest = fractionText (some digits) ++ after)
    (hStops : Stops Char.isDigit after) :
    (lexFraction cur).1 = some digits.chars ∧ (lexFraction cur).2.rest = after := by
  obtain ⟨d, ds, hChars, hd, hTake, hDrop⟩ := digits.run hStops
  obtain ⟨_, line, column⟩ := cur
  cases hcur
  simp [hChars, lexFraction, hd, hTake, hDrop]

/-- A longest number without an exponent has none behind it. -/
theorem lexExponent_none (h : (Numeral.decimal digits fraction none).Longest rest)
    (hRest : rest = (Numeral.decimal digits fraction none).text ++ after)
    (hcur : cur.rest = after) : lexExponent cur = ([], cur) := by
  have hNot (negative : Bool) (d : Char) (hd : d.isDigit = true) :
      ¬ 'e' :: (signText negative ++ [d]) <+: after := by
    have hDigit : isDigitIn 10 d = true := by rw [isDigitIn_ten, hd]
    refine h.not_prefix hRest (.decimal digits fraction (some (negative, .single d hDigit))) _
      ?_ (by simp)
    simp [Numeral.text, exponentText, Digits.single]
  unfold lexExponent
  split
  · rename_i d ds hMatch
    rw [if_neg fun hd => hNot true d hd ⟨ds, hMatch.symm.trans hcur⟩]
  · rename_i d ds _ hMatch
    rw [if_neg fun hd => hNot false d hd ⟨ds, hMatch.symm.trans hcur⟩]
  · rfl

/-- A longest number without a fraction has none behind its digits. -/
theorem lexFraction_none (h : (Numeral.decimal digits none exponent).Longest rest)
    (hRest : rest = (Numeral.decimal digits none exponent).text ++ after)
    (hcur : cur.rest = exponentText exponent ++ after) : lexFraction cur = (none, cur) := by
  unfold lexFraction
  split
  · rename_i d ds hMatch
    cases exponent with
    | some e => exact absurd (hMatch.symm.trans hcur) (by simp [exponentText])
    | none =>
        refine if_neg fun hd => ?_
        have hDigit : isDigitIn 10 d = true := by rw [isDigitIn_ten, hd]
        refine h.not_prefix hRest (.decimal digits (some (.single d hDigit)) none) ['.', d] ?_
          (by simp) ⟨ds, hMatch.symm.trans hcur⟩
        simp [Numeral.text, fractionText, exponentText, Digits.single]
  · rfl

/-- No digit stands behind a longest number. -/
theorem Numeral.Longest.stops (h : (Numeral.decimal digits fraction exponent).Longest rest)
    (hRest : rest = (Numeral.decimal digits fraction exponent).text ++ after) :
    Stops Char.isDigit after := by
  intro c hc
  by_contra hDigit
  rw [Bool.not_eq_false] at hDigit
  have hIn : isDigitIn 10 c = true := by rw [isDigitIn_ten, hDigit]
  obtain ⟨cs, rfl⟩ : ∃ cs, after = c :: cs := by
    cases after with
    | nil => cases hc
    | cons d cs =>
      cases hc
      exact ⟨cs, rfl⟩
  have hPrefix : [c] <+: c :: cs := ⟨cs, rfl⟩
  revert hPrefix
  cases exponent with
  | some e =>
      refine h.not_prefix hRest (.decimal digits fraction (some (e.1, e.2.push c hIn))) _ ?_
        (by simp)
      simp [Numeral.text, exponentText, Digits.push]
  | none =>
      cases fraction with
      | some f =>
          refine h.not_prefix hRest (.decimal digits (some (f.push c hIn)) none) _ ?_ (by simp)
          simp [Numeral.text, fractionText, exponentText, Digits.push]
      | none =>
          refine h.not_prefix hRest (.decimal (digits.push c hIn) none none) _ ?_ (by simp)
          simp [Numeral.text, fractionText, exponentText, Digits.push]

/-- What follows the first digits of a longest number is no digit. -/
theorem stops_digits (h : (Numeral.decimal digits fraction exponent).Longest rest)
    (hRest : rest = (Numeral.decimal digits fraction exponent).text ++ after) :
    Stops Char.isDigit (fractionText fraction ++ (exponentText exponent ++ after)) := by
  cases fraction with
  | some f => exact stops_cons (by decide)
  | none =>
      cases exponent with
      | some e => exact stops_cons (by decide)
      | none => exact h.stops hRest

/-- What follows the fraction of a longest number is no digit. -/
theorem stops_fraction (h : (Numeral.decimal digits fraction exponent).Longest rest)
    (hRest : rest = (Numeral.decimal digits fraction exponent).text ++ after) :
    Stops Char.isDigit (exponentText exponent ++ after) := by
  cases exponent with
  | some e => exact stops_cons (by decide)
  | none => exact h.stops hRest

theorem stoi_eq {ds : List Char} (h : natOf 10 ds < 2 ^ 31) : stoi ds = some (natOf 10 ds) := by
  rw [stoi, if_pos h]

theorem natOf_of_stoi {ds : List Char} {n : Nat} (h : stoi ds = some n) : natOf 10 ds = n := by
  unfold stoi at h
  split at h
  · exact Option.some.inj h
  · cases h

/-- A longest number that is decimal is no base of a radix literal. -/
theorem not_radix (h : (Numeral.decimal digits fraction exponent).Longest rest)
    (hRest : rest = (Numeral.decimal digits fraction exponent).text ++ after) {d : Char}
    {ds : List Char}
    (hTail : fractionText fraction ++ (exponentText exponent ++ after) = 'r' :: d :: ds) :
    ¬ (2 ≤ (stoi digits.chars).getD 0 ∧ (stoi digits.chars).getD 0 ≤ 36 ∧
      isDigitIn ((stoi digits.chars).getD 0) d = true) := by
  rintro ⟨hTwo, hLe, hd⟩
  have hBase : (stoi digits.chars).getD 0 = digits.value := by
    cases hStoi : stoi digits.chars with
    | none =>
        rw [hStoi] at hTwo
        exact absurd hTwo (by decide)
    | some n => exact (natOf_of_stoi hStoi).symm
  rw [hBase] at hTwo hLe hd
  cases fraction with
  | some f => exact absurd hTail (by simp [fractionText])
  | none =>
      cases exponent with
      | some e => exact absurd hTail (by simp [fractionText, exponentText])
      | none =>
          refine h.not_prefix hRest (.radix digits hTwo hLe (.single d hd)) ['r', d] ?_ (by simp)
            ⟨ds, hTail.symm⟩
          simp [Numeral.text, fractionText, exponentText, Digits.single]

/-- The column of a literal. -/
def literalColumn (negative : Bool) (cur : Cursor) : Nat :=
  if negative then cur.column - 1 else cur.column

theorem lexNumber_decimal (negative : Bool)
    (h : (Numeral.decimal digits fraction exponent).Longest cur.rest)
    (hRest : cur.rest = (Numeral.decimal digits fraction exponent).text ++ after) :
    (lexNumber stod negative cur).1 = decimalToken stod negative digits.chars
        (fraction.map Digits.chars) (exponentChars exponent) cur.line (literalColumn negative cur) ∧
      (lexNumber stod negative cur).2.rest = after := by
  have hText : cur.rest =
      digits.chars ++ (fractionText fraction ++ (exponentText exponent ++ after)) := by
    rw [hRest, Numeral.text, List.append_assoc, List.append_assoc]
  have hDigits : (cur.scan Char.isDigit).1 = digits.chars := by
    rw [Cursor.scan_fst, hText]
    exact takeWhile_run digits.isDigit (stops_digits h hRest)
  have hTail : (cur.scan Char.isDigit).2.rest =
      fractionText fraction ++ (exponentText exponent ++ after) := by
    rw [Cursor.rest_scan, hText]
    exact dropWhile_run digits.isDigit (stops_digits h hRest)
  have hFraction : (lexFraction (cur.scan Char.isDigit).2).1 = fraction.map Digits.chars ∧
      (lexFraction (cur.scan Char.isDigit).2).2.rest = exponentText exponent ++ after := by
    cases fraction with
    | some f => exact lexFraction_some hTail (stops_fraction h hRest)
    | none =>
        rw [lexFraction_none h hRest hTail]
        exact ⟨rfl, hTail⟩
  have hExponent : (lexExponent (lexFraction (cur.scan Char.isDigit).2).2).1 =
        exponentChars exponent ∧
      (lexExponent (lexFraction (cur.scan Char.isDigit).2).2).2.rest = after := by
    cases exponent with
    | some e => exact lexExponent_some hFraction.2 (h.stops hRest)
    | none =>
        rw [lexExponent_none h hRest hFraction.2]
        exact ⟨rfl, hFraction.2⟩
  unfold lexNumber
  dsimp only
  rw [hDigits]
  split
  · rename_i d ds hMatch
    rw [if_neg (not_radix h hRest (hTail.symm.trans hMatch)), hFraction.1, hExponent.1]
    exact ⟨rfl, hExponent.2⟩
  · rw [hFraction.1, hExponent.1]
    exact ⟨rfl, hExponent.2⟩

theorem lexNumber_radix (negative : Bool) {base : Digits 10} {hTwo : 2 ≤ base.value}
    {hLe : base.value ≤ 36} {digits : Digits base.value}
    (h : (Numeral.radix base hTwo hLe digits).Longest cur.rest)
    (hRest : cur.rest = (Numeral.radix base hTwo hLe digits).text ++ after) :
    (lexNumber stod negative cur).1 = radixToken negative base.chars (digits.chars.map Char.toUpper)
        base.value cur.line (literalColumn negative cur) ∧
      (lexNumber stod negative cur).2.rest = after := by
  have hText : cur.rest = base.chars ++ 'r' :: (digits.chars ++ after) := by
    rw [hRest, Numeral.text, List.append_assoc, List.cons_append]
  have hStopsBase : Stops Char.isDigit ('r' :: (digits.chars ++ after)) := stops_cons (by decide)
  have hBase : (cur.scan Char.isDigit).1 = base.chars := by
    rw [Cursor.scan_fst, hText]
    exact takeWhile_run base.isDigit hStopsBase
  have hTail : (cur.scan Char.isDigit).2.rest = 'r' :: (digits.chars ++ after) := by
    rw [Cursor.rest_scan, hText]
    exact dropWhile_run base.isDigit hStopsBase
  have hStops : Stops (isDigitIn base.value) after := by
    intro c hc
    by_contra hDigit
    rw [Bool.not_eq_false] at hDigit
    refine h.not_prefix hRest (.radix base hTwo hLe (digits.push c hDigit)) [c]
      (by simp [Numeral.text, Digits.push]) (by simp) ?_
    cases after with
    | nil => cases hc
    | cons d ds =>
      cases hc
      exact ⟨ds, rfl⟩
  have hValue : (stoi base.chars).getD 0 = base.value := by
    have hSmall : natOf 10 base.chars < 2 ^ 31 := Nat.lt_of_le_of_lt hLe (by decide)
    rw [stoi_eq hSmall]
    rfl
  obtain ⟨d, ds, hChars⟩ := List.exists_cons_of_ne_nil digits.nonempty
  have hd : isDigitIn base.value d = true :=
    digits.digit d (by rw [hChars]; exact List.mem_cons_self)
  have hScan : (cur.scan Char.isDigit).2.advance.rest = digits.chars ++ after := by
    rw [Cursor.rest_advance, hTail, List.tail_cons]
  have hRadix : lexRadix negative base.chars base.value cur.line (literalColumn negative cur)
      (cur.scan Char.isDigit).2 = (radixToken negative base.chars (digits.chars.map Char.toUpper)
        base.value cur.line (literalColumn negative cur),
      ((cur.scan Char.isDigit).2.advance.scan (isDigitIn base.value)).2) := by
    unfold lexRadix
    dsimp only [Cursor.scan_fst]
    rw [hScan, takeWhile_run digits.digit hStops]
  have hNumber : lexNumber stod negative cur = lexRadix negative base.chars base.value cur.line
      (literalColumn negative cur) (cur.scan Char.isDigit).2 := by
    unfold lexNumber
    dsimp only
    rw [hBase, hTail, hChars, hValue]
    exact if_pos ⟨hTwo, hLe, hd⟩
  rw [hNumber, hRadix]
  refine ⟨rfl, ?_⟩
  rw [Cursor.rest_scan, hScan, dropWhile_run digits.digit hStops]

end Read

/-! ## What digits denote -/

theorem natOf_append (base : Nat) (ds es : List Char) :
    natOf base (ds ++ es) = natOf base ds * base ^ es.length + natOf base es := by
  have hFoldl (n : Nat) (es : List Char) :
      es.foldl (fun n c => n * base + digitValue c) n = n * base ^ es.length + natOf base es := by
    induction es generalizing n with
    | nil => simp [natOf]
    | cons c es ih =>
      rw [natOf, List.foldl_cons, List.foldl_cons, ih, ih, List.length_cons]
      ring
  rw [natOf, List.foldl_append, hFoldl]
  rfl

theorem natOf_zeros (base n : Nat) : natOf base (List.replicate n '0') = 0 := by
  induction n with
  | zero => rfl
  | succ n ih =>
    rw [List.replicate_succ', natOf_append, ih, Nat.zero_mul, Nat.zero_add]
    simp [natOf, show digitValue '0' = 0 by decide]

theorem digitValue_toUpper (c : Char) : digitValue c.toUpper = digitValue c := by
  by_cases hLower : 97 ≤ c.toNat ∧ c.toNat ≤ 122
  · obtain ⟨k, rfl⟩ : ∃ k : Fin 26, c = Char.ofNat (97 + k) := by
      refine ⟨⟨c.toNat - 97, by omega⟩, ?_⟩
      rw [show 97 + (c.toNat - 97) = c.toNat by omega, Char.ofNat_toNat]
    clear hLower
    revert k
    decide
  · have hSame : c.toUpper = c := dif_neg hLower
    rw [hSame]

theorem natOf_map_toUpper (base : Nat) (ds : List Char) :
    natOf base (ds.map Char.toUpper) = natOf base ds := by
  rw [natOf, List.foldl_map]
  simp only [digitValue_toUpper]
  rfl

/-- The digits in upper case. -/
def Digits.toUpper {base : Nat} (digits : Digits base) : Digits base where
  chars := digits.chars.map Char.toUpper
  nonempty := by simp [digits.nonempty]
  digit := by
    intro c hc
    obtain ⟨d, hd, rfl⟩ := List.mem_map.mp hc
    rw [isDigitIn, digitValue_toUpper]
    exact digits.digit d hd

/-- The digits and as many zeros as the exponent says. -/
def Digits.scaled (digits : Digits 10) (e : Nat) : Digits 10 where
  chars := digits.chars ++ List.replicate e '0'
  nonempty := by simp [digits.nonempty]
  digit := by
    intro c hc
    rcases List.mem_append.mp hc with hOld | hZero
    · exact digits.digit c hOld
    · rw [List.eq_of_mem_replicate hZero]
      rfl

theorem Digits.value_scaled (digits : Digits 10) (e : Nat) :
    (digits.scaled e).value = digits.value * 10 ^ e := by
  rw [Digits.value, Digits.scaled, natOf_append, natOf_zeros, List.length_replicate, Nat.add_zero]
  rfl

theorem signed_intCast (negative : Bool) (n : Int) :
    ((signed negative n : Int) : ℚ) = signed negative (n : ℚ) := by
  cases negative with
  | false => rfl
  | true => exact Int.cast_neg n

theorem stoll_eq {negative : Bool} {base : Nat} {ds : List Char} {v : Int}
    (h : stoll negative base ds = some v) : v = signed negative (natOf base ds : Int) := by
  unfold stoll at h
  cases negative with
  | false =>
      rw [if_neg Bool.false_ne_true] at h
      split at h
      · exact (Option.some.inj h).symm
      · cases h
  | true =>
      rw [if_pos rfl] at h
      split at h
      · exact (Option.some.inj h).symm
      · cases h

/-! ## What a token means -/

section Means

variable {fromString : List Char → Int → Int} {negative : Bool} {t : Token} {lit : Numeral}

theorem integer_integerToken (hFrom : ReadsDigits fromString) (digits : Digits 10)
    (line column : Nat) : (integerToken negative digits.chars line column).integer fromString =
      signed negative (digits.value : Int) := by
  unfold integerToken
  dsimp only
  split
  · rename_i v hv
    exact stoll_eq hv
  · exact hFrom negative 10 digits (by decide) (by decide)

theorem integer_radixToken (hFrom : ReadsDigits fromString) {base : Nat} (hTwo : 2 ≤ base)
    (hLe : base ≤ 36) (text : List Char) (digits : Digits base) (line column : Nat) :
    (radixToken negative text digits.chars base line column).integer fromString =
      signed negative (digits.value : Int) := by
  unfold radixToken
  dsimp only
  split
  · rename_i v hv
    have hValue : v = digits.value := stoll_eq hv
    cases negative with
    | false => exact hValue
    | true => exact congrArg Neg.neg hValue
  · exact hFrom negative base digits hTwo hLe

theorem means_integer (hKind : t.kind = .integer) (hInteger : lit.IsInteger)
    (hValue : (t.integer fromString : ℚ) = signed negative lit.value) :
    Means fromString stod negative lit t where
  kinds := .inl hKind
  integer _ := ⟨hInteger, hValue⟩
  float h := by
    rw [hKind] at h
    cases h
  accepted _ _ := hKind

theorem means_error (hKind : t.kind = .error)
    (hRefused : lit.IsInteger → 400 < lit.exponent) : Means fromString stod negative lit t where
  kinds := .inr (.inr hKind)
  integer h := by
    rw [hKind] at h
    cases h
  float h := by
    rw [hKind] at h
    cases h
  accepted hInteger hLe := absurd (hRefused hInteger) (Nat.not_lt.mpr hLe)

theorem means_floatToken {text : List Char} (hText : text = signText negative ++ lit.text)
    (hNot : ¬ lit.IsInteger) (line column : Nat) :
    Means fromString stod negative lit (floatToken stod text line column) := by
  unfold floatToken
  split
  · rename_i v hv
    exact {
      kinds := .inr (.inl rfl)
      integer := nofun
      float := fun _ => ⟨hNot, hText, hv⟩
      accepted := fun hInteger => absurd hInteger hNot }
  · exact means_error rfl fun hInteger => absurd hInteger hNot

theorem means_integerToken (hFrom : ReadsDigits fromString) (digits : Digits 10)
    (hInteger : lit.IsInteger) (line column : Nat) :
    Means fromString stod negative lit (integerToken negative digits.chars line column) ↔
      (digits.value : ℚ) = lit.value := by
  have hKind := kind_integerToken negative digits.chars line column
  have hValue : ((integerToken negative digits.chars line column).integer fromString : ℚ) =
      signed negative (digits.value : ℚ) := by
    rw [integer_integerToken hFrom, signed_intCast, Int.cast_natCast]
  constructor
  · intro h
    have hSigned := hValue.symm.trans (h.integer hKind).2
    cases negative with
    | false => exact hSigned
    | true => exact neg_injective hSigned
  · intro h
    exact means_integer hKind hInteger (by rw [hValue, h])

end Means

/-! ## The exponent of an integer -/

section Exponent

variable {fromString : List Char → Int → Int} {negative : Bool}

theorem isInteger_exponent (digits e : Digits 10) :
    (Numeral.decimal digits none (some (false, e))).IsInteger := by
  refine ⟨rfl, fun sign h => ?_⟩
  rw [← Option.some.inj h]

theorem fits_of_exponent {lit : Numeral} (h : lit.exponent = 0) : lit.Fits := by
  left
  rw [h]
  decide

theorem value_scaled (digits e : Digits 10) :
    (Numeral.decimal digits none (some (false, e))).value = digits.value * 10 ^ e.value := by
  simp [Numeral.value, mantissa, exponentValue, signed]

theorem decimalToken_exponent (digits e : Digits 10) (line column : Nat) :
    decimalToken stod negative digits.chars none e.chars line column =
      if 400 < (stoi e.chars).getD 400 then
        makeError "integer literal exponent too large" line column
      else integerToken negative (digits.scaled ((stoi e.chars).getD 400)).chars line column := by
  have hSign : e.chars.head? ≠ some '-' := by
    obtain ⟨chars, nonempty, digit⟩ := e
    cases chars with
    | nil => exact absurd rfl nonempty
    | cons c cs =>
      intro h
      rw [List.head?_cons, Option.some.injEq] at h
      exact absurd (digit c List.mem_cons_self) (by rw [h]; decide)
  exact (if_neg e.nonempty).trans (if_neg hSign)

/-- An exponent that `std::stoi` reads: up to 400 it is obeyed, beyond that refused. -/
theorem means_of_stoi (hFrom : ReadsDigits fromString) (digits e : Digits 10)
    (hSmall : e.value < 2 ^ 31) (line column : Nat) :
    Means fromString stod negative (.decimal digits none (some (false, e)))
      (decimalToken stod negative digits.chars none e.chars line column) := by
  have hStoi : (stoi e.chars).getD 400 = e.value := by
    rw [stoi_eq hSmall]
    rfl
  rw [decimalToken_exponent, hStoi]
  by_cases hLe : 400 < e.value
  · rw [if_pos hLe]
    exact means_error rfl fun _ => hLe
  · rw [if_neg hLe, means_integerToken hFrom _ (isInteger_exponent digits e), value_scaled,
      Digits.value_scaled]
    push_cast
    rfl

/-- An exponent that `std::stoi` does not read is taken for 400. -/
theorem means_of_not_stoi (hFrom : ReadsDigits fromString) (digits e : Digits 10)
    (hLarge : 2 ^ 31 ≤ e.value) (line column : Nat) :
    Means fromString stod negative (.decimal digits none (some (false, e)))
        (decimalToken stod negative digits.chars none e.chars line column) ↔
      digits.value = 0 := by
  have hStoi : (stoi e.chars).getD 400 = 400 := by
    have hNone : stoi e.chars = none := if_neg (Nat.not_lt.mpr hLarge)
    rw [hNone]
    rfl
  rw [decimalToken_exponent, hStoi, if_neg (lt_irrefl 400),
    means_integerToken hFrom _ (isInteger_exponent digits e), value_scaled, Digits.value_scaled]
  have hPowers : (10 : ℚ) ^ 400 < 10 ^ e.value :=
    pow_lt_pow_right₀ (by norm_num) (lt_of_lt_of_le (by norm_num) hLarge)
  constructor
  · intro h
    by_contra hZero
    rw [Nat.cast_mul, Nat.cast_pow, Nat.cast_ofNat] at h
    have hNe : (digits.value : ℚ) ≠ 0 := Nat.cast_ne_zero.mpr hZero
    exact hPowers.ne (mul_left_cancel₀ hNe h)
  · intro h
    rw [h, Nat.zero_mul, Nat.cast_zero, zero_mul]

end Exponent

/-! ## The literals -/

section Literals

variable {fromString : List Char → Int → Int} {negative : Bool} {cur : Cursor}

theorem exponentText_eq (exponent : Option (Bool × Digits 10)) :
    (if exponentChars exponent = [] then [] else 'e' :: exponentChars exponent) =
      exponentText exponent := by
  cases exponent with
  | none => rfl
  | some e => exact if_neg (by simp [exponentChars, e.2.nonempty])

theorem decimalToken_fraction (digits f : Digits 10) (exponent : Option (Bool × Digits 10))
    (line column : Nat) :
    decimalToken stod negative digits.chars (some f.chars) (exponentChars exponent) line column =
      floatToken stod (signText negative ++ (Numeral.decimal digits (some f) exponent).text)
        line column := by
  refine congrArg (floatToken stod · line column) ?_
  rw [if_neg f.nonempty, exponentText_eq, List.append_assoc, List.append_assoc]
  rfl

theorem means_fraction (digits f : Digits 10) (exponent : Option (Bool × Digits 10))
    (line column : Nat) : Means fromString stod negative (.decimal digits (some f) exponent)
      (decimalToken stod negative digits.chars (some f.chars) (exponentChars exponent)
        line column) := by
  have hNot : ¬ (Numeral.decimal digits (some f) exponent).IsInteger := by
    rintro ⟨hNone, -⟩
    cases hNone
  rw [decimalToken_fraction]
  exact means_floatToken rfl hNot _ _

theorem means_negative_exponent (digits e : Digits 10) (line column : Nat) :
    Means fromString stod negative (.decimal digits none (some (true, e)))
      (decimalToken stod negative digits.chars none ('-' :: e.chars) line column) := by
  have hNot : ¬ (Numeral.decimal digits none (some (true, e))).IsInteger :=
    fun hInteger => Bool.noConfusion (hInteger.2 _ rfl)
  refine means_floatToken ?_ hNot _ _
  rw [List.append_assoc]
  rfl

/-- A longest decimal number means its text if and only if its exponent fits. -/
theorem means_decimal_iff (hFrom : ReadsDigits fromString) (digits : Digits 10)
    (fraction : Option (Digits 10)) (exponent : Option (Bool × Digits 10)) (line column : Nat) :
    Means fromString stod negative (.decimal digits fraction exponent)
        (decimalToken stod negative digits.chars (fraction.map Digits.chars)
          (exponentChars exponent) line column) ↔
      (Numeral.decimal digits fraction exponent).Fits := by
  cases fraction with
  | some f => exact iff_of_true (means_fraction digits f exponent _ _) (fits_of_exponent rfl)
  | none =>
      cases exponent with
      | none =>
          refine iff_of_true ?_ (fits_of_exponent rfl)
          have hInteger : (Numeral.decimal digits none none).IsInteger := ⟨rfl, nofun⟩
          refine (means_integerToken hFrom digits hInteger _ _).mpr ?_
          simp [Numeral.value, mantissa, exponentValue]
      | some e =>
          obtain ⟨sign, e⟩ := e
          cases sign with
          | true =>
              exact iff_of_true (means_negative_exponent digits e _ _) (fits_of_exponent rfl)
          | false =>
              by_cases hSmall : e.value < 2 ^ 31
              · exact iff_of_true (means_of_stoi hFrom digits e hSmall _ _) (.inl hSmall)
              · refine (means_of_not_stoi hFrom digits e (Nat.not_lt.mp hSmall) _ _).trans ?_
                have hValue : (Numeral.decimal digits none (some (false, e))).value = 0 ↔
                    digits.value = 0 := by
                  rw [value_scaled, mul_eq_zero, Nat.cast_eq_zero]
                  exact or_iff_left (pow_ne_zero _ (by norm_num))
                exact hValue.symm.trans (or_iff_right hSmall).symm

/-- A longest number means its text if and only if its exponent fits. -/
theorem means_iff_fits (hFrom : ReadsDigits fromString) {lit : Numeral}
    (h : lit.Longest cur.rest) :
    cur.rest = lit.text ++ (lexNumber stod negative cur).2.rest ∧
      (Means fromString stod negative lit (lexNumber stod negative cur).1 ↔ lit.Fits) := by
  obtain ⟨after, hAfter⟩ := h.starts
  cases lit with
  | radix base hTwo hLe digits =>
      obtain ⟨hToken, hRest⟩ : (lexNumber stod negative cur).1 = _ ∧ _ :=
        lexNumber_radix negative h hAfter.symm
      refine ⟨by rw [hRest, hAfter], ?_⟩
      rw [hToken]
      refine iff_of_true (means_integer (kind_radixToken ..) trivial ?_) (fits_of_exponent rfl)
      have hUpper : digits.toUpper.value = digits.value := natOf_map_toUpper _ _
      refine (congrArg Int.cast
        (integer_radixToken hFrom hTwo hLe base.chars digits.toUpper _ _)).trans ?_
      rw [hUpper, signed_intCast, Int.cast_natCast]
      rfl
  | decimal digits fraction exponent =>
      obtain ⟨hToken, hRest⟩ : (lexNumber stod negative cur).1 = _ ∧ _ :=
        lexNumber_decimal negative h hAfter.symm
      refine ⟨by rw [hRest, hAfter], ?_⟩
      rw [hToken]
      exact means_decimal_iff hFrom digits fraction exponent _ _

variable {spaceBefore : Bool} {prev : TokenKind}

theorem numberSign_eq_some {c : Char} {cs : List Char}
    (h : numberSign prev spaceBefore (c :: cs) = some negative) :
    (negative = false ∧ c.isDigit = true) ∨
      (negative = true ∧ c = '-' ∧ (cs.headD '\x00').isDigit = true ∧
        (endsOperand prev = false ∨ spaceBefore = true)) := by
  unfold numberSign at h
  dsimp only at h
  by_cases hDigit : c.isDigit = true
  · rw [if_pos hDigit] at h
    exact .inl ⟨(Option.some.inj h).symm, hDigit⟩
  · rw [if_neg hDigit] at h
    by_cases hMinus : c = '-' ∧ (cs.headD '\x00').isDigit = true ∧
        (endsOperand prev = false ∨ spaceBefore = true)
    · rw [if_pos hMinus] at h
      exact .inr ⟨(Option.some.inj h).symm, hMinus⟩
    · rw [if_neg hMinus] at h
      cases h

theorem startsName_of_isDigit {c : Char} (h : c.isDigit = true) : startsName c = false := by
  rw [Char.isDigit, Bool.and_eq_true, decide_eq_true_eq, decide_eq_true_eq] at h
  have hBounds : 48 ≤ c.toNat ∧ c.toNat ≤ 57 := h
  rw [Bool.eq_false_iff]
  intro hName
  rw [startsName, Bool.or_eq_true, decide_eq_true_eq] at hName
  rcases hName with hAlpha | rfl
  · have hLetter : (65 ≤ c.toNat ∧ c.toNat ≤ 90) ∨ (97 ≤ c.toNat ∧ c.toNat ≤ 122) := by
      rcases (Bool.or_eq_true c.isUpper c.isLower).mp hAlpha with hUpper | hLower
      · exact .inl (of_decide_eq_true hUpper)
      · obtain ⟨hGe, hLe⟩ := (Bool.and_eq_true _ _).mp hLower
        exact .inr ⟨of_decide_eq_true hGe, of_decide_eq_true hLe⟩
    omega
  · exact absurd hBounds (by decide)

/-- Where a number starts, `lexToken` calls `lexNumber` behind the sign. -/
theorem lexToken_number {c : Char} {cs : List Char}
    (hcur : cur.rest = c :: cs) (hSign : numberSign prev spaceBefore (c :: cs) = some negative) :
    lexToken stod prev spaceBefore c cur =
      lexNumber stod negative (if negative then cur.advance else cur) := by
  rcases numberSign_eq_some hSign with ⟨rfl, hDigit⟩ | ⟨rfl, rfl, hDigit, hOperand⟩
  · have hName : ¬ startsName c = true := by simp [startsName_of_isDigit hDigit]
    unfold lexToken
    rw [if_neg hName, if_pos hDigit]
    rfl
  · have hNext : cur.lookahead = cs.headD '\x00' := by
      rw [Cursor.lookahead, hcur, List.tail_cons]
    have hArrow : ¬ cur.lookahead = '>' := by
      intro h
      rw [← hNext, h] at hDigit
      exact absurd hDigit (by decide)
    unfold lexToken
    -- a minus sign is none of the characters that are tested before it
    iterate 15 rw [if_neg (by decide)]
    rw [if_pos rfl, if_neg hArrow, if_pos ⟨hNext ▸ hDigit, hOperand⟩]
    rfl

theorem exists_longest_unsigned {c : Char}
    {cs : List Char} (hSign : numberSign prev spaceBefore (c :: cs) = some negative) :
    ∃ lit : Numeral, lit.Longest (unsigned negative (c :: cs)) := by
  rcases numberSign_eq_some hSign with ⟨rfl, hDigit⟩ | ⟨rfl, rfl, hDigit, -⟩
  · exact exists_longest hDigit
  · cases cs with
    | nil => exact absurd hDigit (by decide)
    | cons d ds => exact exists_longest hDigit

theorem rest_unsigned :
    (if negative then cur.advance else cur).rest = unsigned negative cur.rest := by
  cases negative with
  | false => rfl
  | true => exact Cursor.rest_advance cur

end Literals

/-- **Numeric literals mean their text**, except for a non-zero integer with an exponent from
2³¹ on, which is read with the exponent 400. -/
theorem numerals_iff {fromString : List Char → Int → Int} (hFrom : ReadsDigits fromString)
    {prev : TokenKind} {spaceBefore negative : Bool} {c : Char} {cs : List Char} {cur : Cursor}
    (hcur : cur.rest = c :: cs) (hSign : numberSign prev spaceBefore (c :: cs) = some negative) :
    MeansItsText fromString stod negative (unsigned negative (c :: cs))
        (lexToken stod prev spaceBefore c cur) ↔
      ∀ lit : Numeral, lit.Longest (unsigned negative (c :: cs)) → lit.Fits := by
  rw [lexToken_number hcur hSign, ← hcur, ← rest_unsigned]
  constructor
  · intro h lit hLongest
    exact (means_iff_fits hFrom hLongest).2.mp (h.2 lit hLongest).2
  · intro h
    refine ⟨?_, fun lit hLongest => ?_⟩
    · rw [rest_unsigned, hcur]
      exact exists_longest_unsigned hSign
    · refine ⟨?_, (means_iff_fits hFrom hLongest).2.mpr (h lit hLongest)⟩
      exact (means_iff_fits hFrom hLongest).1

/-- A `fromString` for digits with a sign. -/
def readDigits (text : List Char) (radix : Int) : Int :=
  match text with
  | '-' :: digits => -natOf radix.toNat digits
  | digits => natOf radix.toNat digits

theorem readsDigits_readDigits : ReadsDigits readDigits := by
  intro negative base digits _ hLe
  obtain ⟨chars, nonempty, digit⟩ := digits
  cases negative with
  | true => rfl
  | false =>
      cases chars with
      | nil => exact absurd rfl nonempty
      | cons c cs =>
        have hMinus : c ≠ '-' := by
          rintro rfl
          have hValue : digitValue '-' < base :=
            of_decide_eq_true (digit '-' List.mem_cons_self)
          have hInvalid : digitValue '-' = 99 := rfl
          omega
        change readDigits (c :: cs) base = _
        unfold readDigits
        split
        · rename_i ds h
          cases h
          exact absurd rfl hMinus
        · rfl

theorem numerals_iff_negative :
    MeansItsText readDigits (fun _ => none) true (unsigned true ('-' :: "16rFF".toList))
        (lexToken (fun _ => none) .endOfFile false '-' ⟨"-16rFF".toList, 1, 1⟩) ↔
      ∀ lit : Numeral, lit.Longest (unsigned true ('-' :: "16rFF".toList)) → lit.Fits :=
  numerals_iff readsDigits_readDigits rfl (by decide)

/-- `1e2147483648` -/
def largeExponent : Numeral :=
  .decimal ⟨['1'], by decide, List.all_eq_true.mp (by decide)⟩ none
    (some (false, ⟨"2147483648".toList, by decide,
      List.all_eq_true.mp (by decide)⟩))

/-- The literal `1e2147483648` is read as the integer 10⁴⁰⁰. -/
theorem means_exponent_wraps :
    ¬ MeansItsText readDigits (fun _ => none) false "1e2147483648".toList
      (lexToken (fun _ => none) .endOfFile false '1' ⟨"1e2147483648".toList, 1, 1⟩) := by
  have hLongest : largeExponent.Longest "1e2147483648".toList :=
    ⟨List.prefix_refl _, fun other h => h.length_le⟩
  have hNumber : lexToken (fun _ => none) .endOfFile false '1' ⟨"1e2147483648".toList, 1, 1⟩ =
      lexNumber (fun _ => none) false ⟨"1e2147483648".toList, 1, 1⟩ :=
    lexToken_number rfl (by decide)
  rw [hNumber]
  intro h
  have hFits : largeExponent.Fits :=
    (means_iff_fits readsDigits_readDigits hLongest).2.mp (h.2 _ hLongest).2
  rcases hFits with hSmall | hZero
  · exact absurd hSmall (by decide)
  · rw [largeExponent, value_scaled] at hZero
    exact mul_ne_zero (by decide) (pow_ne_zero _ (by norm_num)) hZero

end ProtoST.Frontend.Lexer

import ProtoST.Frontend.Numerals
import ProtoST.Kernel.Fractions

/-!
# Numbers in strings

`parseNumber` of `primitives/string_prims.cpp`, that is `asNumber` and `asInteger`.  A text is a
list of bytes, each the `Char` of its code.

`ProtoContext::fromString` and `std::strtod` are parameters; `strtod` reads to its end every text
it is given.

## Main results

* `parseNumber_digits` — digits with a sign are an integer.
-/

namespace ProtoST.Primitives.NumberParsing

open ProtoST.Frontend.Lexer (Digits ReadsDigits isDigitIn_ten isSpace natOf signText signed stoll
  stoll_eq)
open ProtoST.Kernel.Fractions (Number)

/-- A number: exact, or a double. -/
inductive Parsed (F : Type) where
  | exact (x : Number)
  | double (d : F)
  deriving DecidableEq, Repr

/-- The text without the blanks at both ends. -/
def trimmed (raw : List Char) : List Char :=
  ((raw.dropWhile isSpace).reverse.dropWhile isSpace).reverse

/-- The sign, if there is one, and the rest. -/
def takeSign : List Char → List Char × List Char
  | '-' :: text => (['-'], text)
  | '+' :: text => (['+'], text)
  | text => ([], text)

/-- An exponent or nothing, up to the end. -/
def endsInExponent : List Char → Bool
  | [] => true
  | c :: text =>
      (c = 'e' || c = 'E') && (takeSign text).2 ≠ [] && (takeSign text).2.all Char.isDigit

section Parse

variable {F : Type} (fromString : List Char → Int → Int) (strtod : List Char → F)

/-- The integer of a text of digits, which a `LargeInteger` reads without a plus sign. -/
def integerOf (sign digits : List Char) : Int :=
  match stoll (sign = ['-']) 10 digits with
  | some v => v
  | none => fromString ((if sign = ['+'] then [] else sign) ++ digits) 10

/-- `parseNumber`. -/
def parseNumber (integerOnly : Bool) (raw : List Char) : Option (Parsed F) :=
  let t := trimmed raw
  let (sign, body) := takeSign t
  let digits := body.takeWhile Char.isDigit
  let integer : Option (Parsed F) := some (.exact (.integer (integerOf fromString sign digits)))
  if digits = [] then none
  else
    match body.dropWhile Char.isDigit with
    | [] => integer
    | '.' :: text =>
        if integerOnly then integer
        else if text.takeWhile Char.isDigit = [] then if text = [] then integer else none
        else if endsInExponent (text.dropWhile Char.isDigit) then some (.double (strtod t))
        else none
    | text =>
        if integerOnly then integer
        else if endsInExponent text then some (.double (strtod t))
        else none

/-- `String >> asInteger`. -/
def asInteger (text : List Char) : Option (Parsed F) := parseNumber fromString strtod true text

/-- `String >> asNumber`. -/
def asNumber (text : List Char) : Option (Parsed F) := parseNumber fromString strtod false text

end Parse

/-! ## Digits with a sign -/

theorem dropWhile_of_head {p : Char → Bool} {text : List Char}
    (h : ∀ c, text.head? = some c → p c = false) : text.dropWhile p = text := by
  cases text with
  | nil => rfl
  | cons c text => exact List.dropWhile_cons_of_neg (by simp [h c rfl])

theorem isSpace_of_isDigit {c : Char} (h : c.isDigit = true) : isSpace c = false := by
  rw [Bool.eq_false_iff]
  intro hSpace
  simp only [isSpace, Bool.or_eq_true, decide_eq_true_eq] at hSpace
  rcases hSpace with ((((rfl | rfl) | rfl) | rfl) | rfl) | rfl <;> exact absurd h (by decide)

theorem trimmed_digits (negative : Bool) (digits : Digits 10) :
    trimmed (signText negative ++ digits.chars) = signText negative ++ digits.chars := by
  have hHead : ∀ c, (signText negative ++ digits.chars).head? = some c → isSpace c = false := by
    cases negative with
    | true =>
        intro c hc
        cases hc
        decide
    | false => exact fun c hc => isSpace_of_isDigit (digits.isDigit c (List.mem_of_mem_head? hc))
  have hLast : ∀ c, (signText negative ++ digits.chars).reverse.head? = some c →
      isSpace c = false := by
    intro c hc
    rw [List.reverse_append, List.head?_append_of_ne_nil _ (by simp [digits.nonempty])] at hc
    exact isSpace_of_isDigit (digits.isDigit c (List.mem_reverse.mp (List.mem_of_mem_head? hc)))
  rw [trimmed, dropWhile_of_head hHead, dropWhile_of_head hLast, List.reverse_reverse]

variable {F : Type} {fromString : List Char → Int → Int} {strtod : List Char → F}

theorem integerOf_eq (hFrom : ReadsDigits fromString) (negative : Bool) (digits : Digits 10) :
    integerOf fromString (signText negative) digits.chars =
      signed negative (digits.value : Int) := by
  have hMinus : decide (signText negative = ['-']) = negative := by
    cases negative <;> decide
  have hPlus : signText negative ≠ ['+'] := by
    cases negative <;> decide
  unfold integerOf
  rw [hMinus, if_neg hPlus]
  split
  · rename_i v hv
    exact stoll_eq hv
  · exact hFrom negative 10 digits (by decide) (by decide)

/-- Digits with a sign are an integer. -/
theorem parseNumber_digits (hFrom : ReadsDigits fromString) (integerOnly negative : Bool)
    (digits : Digits 10) :
    parseNumber fromString strtod integerOnly (signText negative ++ digits.chars) =
      some (.exact (.integer (signed negative (digits.value : Int)))) := by
  have hSign : takeSign (signText negative ++ digits.chars) =
    (signText negative, digits.chars) := by
    cases negative with
    | true => rfl
    | false =>
        obtain ⟨c, cs, hChars⟩ := List.exists_cons_of_ne_nil digits.nonempty
        have hDigit : c.isDigit = true :=
          digits.isDigit c (by rw [hChars]; exact List.mem_cons_self)
        change takeSign digits.chars = ([], digits.chars)
        rw [hChars]
        unfold takeSign
        split
        · rename_i text h
          cases h
          exact absurd hDigit (by decide)
        · rename_i text h
          cases h
          exact absurd hDigit (by decide)
        · rfl
  have hTake : digits.chars.takeWhile Char.isDigit = digits.chars :=
    List.takeWhile_eq_self_iff.mpr digits.isDigit
  have hDrop : digits.chars.dropWhile Char.isDigit = [] :=
    List.dropWhile_eq_nil_iff.mpr digits.isDigit
  unfold parseNumber
  rw [trimmed_digits]
  dsimp only
  rw [hSign]
  dsimp only
  rw [hTake, hDrop, if_neg digits.nonempty, integerOf_eq hFrom]

end ProtoST.Primitives.NumberParsing

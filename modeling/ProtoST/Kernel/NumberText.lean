import ProtoST.Kernel.ReadStreams
import ProtoST.Primitives.NumberParsing
import ProtoST.Runtime.ValueFormat

/-!
# The texts of numbers

`printString:`, `printStringRadix:` and `readFrom:` of `lib/kernel/number.st`, with the
`ReadStream` of `lib/kernel/stream.st` that `readFrom:` reads.  A text is a list of characters,
all of one byte here.

## Main results

* `readBack_iff` — an integer reads back from each of its texts if it is not negative, and a
  finite float if it is not subnormal.
* `negative_radix` — a text of `printStringRadix:` that is two tokens.
-/

namespace ProtoST.Kernel.NumberText

open ProtoST.Frontend.Lexer
open ProtoST.Kernel.Fractions (Number)
open ProtoST.Lib (bind_of_ok)
open ProtoST.Primitives (IntegerDivision.Division IntegerDivision.Signal
  IntegerDivision.truncating)
open ProtoST.Primitives.NumberParsing (Parsed asInteger asNumber parseNumber_digits)
open ProtoST.Runtime.ValueFormat

/-! ## Printing -/

/-- The characters of the digits, in `printString:`. -/
def radixDigits : List Char := "0123456789ABCDEFGHIJKLMNOPQRSTUVWXYZ".toList

/-- The loop of `printString:`. -/
def radixLoop (base : Nat) (hBase : 2 ≤ base) (n : Nat) (digits : List Char) : List Char :=
  if n > 0 then radixLoop base hBase (n / base) (radixDigits.getD (n % base) '0' :: digits)
  else digits
termination_by n
decreasing_by exact Nat.div_lt_self ‹_› hBase

/-- `Integer >> printString:`. -/
def printStringIn (n base : Int) : Except IntegerDivision.Signal (List Char) :=
  if hBase : base < 2 ∨ base > 36 then .error (.error "base must be between 2 and 36")
  else if n = 0 then .ok ['0']
  else
    let digits := radixLoop base.toNat (by omega) n.natAbs []
    .ok (if n < 0 then '-' :: digits else digits)

/-- `Integer >> printStringRadix:`. -/
def printStringRadix (n base : Int) : Except IntegerDivision.Signal (List Char) := do
  let digits ← printStringIn n base
  return formatBigInteger base ++ ['r'] ++ digits

/-! ## Streams -/

structure ReadStream where
  collection : List Char
  position : Nat

namespace ReadStream

/-- `on:`. -/
def on (text : List Char) : ReadStream := ⟨text, 0⟩

def atEnd (s : ReadStream) : Bool := s.position ≥ s.collection.length

def peek (s : ReadStream) : Option Char := if s.atEnd then none else s.collection[s.position]?

def next (s : ReadStream) : Option Char × ReadStream :=
  if s.atEnd then (none, s) else (s.collection[s.position]?, { s with position := s.position + 1 })

/-- `Character >> isSeparator`. -/
def isSeparator (c : Char) : Bool := [32, 9, 10, 13, 12].contains c.toNat

/-- `Character >> isDigit`. -/
def isDigit (c : Char) : Bool := 48 ≤ c.toNat && c.toNat ≤ 57

/-- `skipSeparators`. -/
def skipSeparators (s : ReadStream) : ReadStream :=
  if s.atEnd = false ∧ s.peek.any isSeparator then
    skipSeparators { s with position := s.position + 1 }
  else s
termination_by s.collection.length - s.position
decreasing_by
  rename_i h
  have hLt : s.position < s.collection.length := by
    have hEnd := h.1
    rw [atEnd, decide_eq_false_iff_not, ge_iff_le, Nat.not_le] at hEnd
    exact hEnd
  omega

/-- `readDigitsFrom:on:`, with the text so far and the count. -/
def readDigits (s : ReadStream) (token : List Char) (count : Nat) :
    ReadStream × List Char × Nat :=
  if s.atEnd = false ∧ s.peek.any isDigit then
    readDigits s.next.2 (token ++ s.next.1.toList) (count + 1)
  else (s, token, count)
termination_by s.collection.length - s.position
decreasing_by
  rename_i h
  have hLt : s.position < s.collection.length := by
    have hEnd := h.1
    rw [atEnd, decide_eq_false_iff_not, ge_iff_le, Nat.not_le] at hEnd
    exact hEnd
  rw [next, if_neg (by rw [h.1]; exact Bool.false_ne_true)]
  dsimp only
  omega

/-- The stream between two parts of its text. -/
def between (before after : List Char) : ReadStream := ⟨before ++ after, before.length⟩

@[simp] theorem atEnd_between (before after : List Char) :
    (between before after).atEnd = decide (after = []) := by
  cases after with
  | nil => simp [atEnd, between]
  | cons c after => simp [atEnd, between]

@[simp] theorem peek_between (before after : List Char) :
    (between before after).peek = after.head? := by
  cases after with
  | nil => simp [peek]
  | cons c after => simp [peek, atEnd, between]

@[simp] theorem next_between (before : List Char) (c : Char) (after : List Char) :
    (between before (c :: after)).next = (some c, between (before ++ [c]) after) := by
  simp [next, between, atEnd]

theorem isDigit_eq (c : Char) : isDigit c = c.isDigit := by
  rw [isDigit, Char.isDigit, Bool.eq_iff_iff, Bool.and_eq_true, Bool.and_eq_true,
    decide_eq_true_eq, decide_eq_true_eq, decide_eq_true_eq, decide_eq_true_eq]
  exact Iff.rfl

/-- Digits up to the end are all read. -/
theorem readDigits_between (before digits token : List Char) (count : Nat)
    (hDigits : ∀ c ∈ digits, c.isDigit = true) :
    (between before digits).readDigits token count =
      (between (before ++ digits) [], token ++ digits, count + digits.length) := by
  induction digits generalizing before token count with
  | nil =>
    rw [readDigits, if_neg (by simp)]
    simp
  | cons c digits ih =>
    have hDigit : isDigit c = true := by
      rw [isDigit_eq]
      exact hDigits c List.mem_cons_self
    rw [readDigits, if_pos (by simp [hDigit]), next_between]
    dsimp only [Option.toList]
    rw [ih _ _ _ fun d hd => hDigits d (List.mem_cons_of_mem _ hd)]
    simp [Nat.add_assoc, Nat.add_comm 1]

theorem skipSeparators_between (c : Char) (after : List Char) (h : isSeparator c = false) :
    (between [] (c :: after)).skipSeparators = between [] (c :: after) := by
  rw [skipSeparators, if_neg (by simp [h])]

/-! The streams of `Kernel/ReadStreams.lean`, on the characters of a text. -/

section Same

variable {c : ReadStreams.Readable Nat} {s : ReadStream} {t : ReadStreams.Stream}

structure Same (c : ReadStreams.Readable Nat) (s : ReadStream) (t : ReadStreams.Stream) : Prop where
  text : c.elements = s.collection.map Char.toNat
  place : ReadStreams.At c t s.position

theorem same_on (core : Primitives.Strings.Core) {text : Primitives.Strings.Str}
    {chars : List Char} (h : text.codes = chars.map Char.toNat) :
    Same (ReadStreams.Readable.string core text) (on chars) ⟨0, []⟩ :=
  ⟨h, rfl, Nat.zero_le _, fun _ hr => absurd hr List.not_mem_nil⟩

theorem Same.length (h : Same c s t) : c.elements.length = s.collection.length := by
  rw [h.text, List.length_map]

theorem atEnd_same (h : Same c s t) : ReadStreams.atEnd c t = .ok s.atEnd t := by
  have hLe := h.place.le
  rw [ReadStreams.atEnd_eq h.place, atEnd, h.length]
  congr 1
  rw [decide_eq_decide, ← h.length]
  omega

theorem Same.element (h : Same c s t) (hMore : s.atEnd = false) :
    ∃ hn : s.position < c.elements.length,
      s.collection[s.position]?.map Char.toNat = some c.elements[s.position] := by
  rw [atEnd, decide_eq_false_iff_not, Nat.not_le, ← h.length] at hMore
  refine ⟨hMore, ?_⟩
  rw [← List.getElem?_map, ← h.text, List.getElem?_eq_getElem hMore]

theorem Same.ended (h : Same c s t) (hEnd : s.atEnd = true) :
    s.position = c.elements.length := by
  rw [atEnd, decide_eq_true_eq, ge_iff_le, ← h.length] at hEnd
  exact Nat.le_antisymm h.place.le hEnd

theorem peek_same (h : Same c s t) :
    ∃ t', ReadStreams.peek c t = .ok (s.peek.map Char.toNat) t' ∧ Same c s t' := by
  cases hEnd : s.atEnd with
  | true =>
    refine ⟨t, ?_, h⟩
    rw [ReadStreams.peek_end h.place (h.ended hEnd), peek, if_pos hEnd]
    rfl
  | false =>
    obtain ⟨hn, hElement⟩ := h.element hEnd
    obtain ⟨t', hPeek, hAt⟩ := ReadStreams.peek_eq h.place hn
    refine ⟨t', ?_, h.text, hAt⟩
    rw [hPeek, peek, if_neg (by rw [hEnd]; exact Bool.false_ne_true), hElement]

theorem next_same (h : Same c s t) :
    ∃ t', ReadStreams.next c t = .ok (s.next.1.map Char.toNat) t' ∧ Same c s.next.2 t' := by
  cases hEnd : s.atEnd with
  | true =>
    rw [next, if_pos hEnd]
    exact ⟨t, ReadStreams.next_end h.place (h.ended hEnd), h⟩
  | false =>
    obtain ⟨hn, hElement⟩ := h.element hEnd
    obtain ⟨t', hNext, hAt⟩ := ReadStreams.next_eq h.place hn
    rw [next, if_neg (by rw [hEnd]; exact Bool.false_ne_true)]
    refine ⟨t', ?_, h.text, hAt⟩
    rw [hNext, hElement]

theorem skipSeparators_same {fuel : Nat} (h : Same c s t)
    (hFuel : c.elements.length - s.position < fuel) :
    ∃ t', ReadStreams.skipSeparators ReadStreams.characters c fuel t = .ok () t' ∧
      Same c s.skipSeparators t' := by
  induction fuel generalizing s t with
  | zero => omega
  | succ fuel ih =>
    rw [ReadStreams.skipSeparators, bind_of_ok (atEnd_same h), skipSeparators]
    cases hEnd : s.atEnd with
    | true => exact ⟨t, rfl, h⟩
    | false =>
      obtain ⟨hn, hElement⟩ := h.element hEnd
      obtain ⟨d, hd, -⟩ := Option.map_eq_some_iff.mp hElement
      have hChar : s.peek = some d := by
        rw [peek, if_neg (by rw [hEnd]; exact Bool.false_ne_true), hd]
      obtain ⟨t', hPeek, hSame⟩ := peek_same h
      rw [hChar, Option.map_some] at hPeek
      rw [if_neg Bool.false_ne_true, bind_of_ok hPeek, Option.getD_some, hChar, Option.any_some]
      show ∃ t'', (if isSeparator d = true then (do
          ReadStreams.move ((← get).position + 1)
          ReadStreams.skipSeparators ReadStreams.characters c fuel)
        else return () : ReadStreams.Reader Unit) t' = .ok () t'' ∧ _
      by_cases hSeparator : isSeparator d = true
      · rw [if_pos hSeparator, if_pos ⟨rfl, hSeparator⟩]
        refine ih ⟨h.text, ?_⟩ (by dsimp only; omega)
        rw [hSame.place.position]
        exact hSame.place.move hn
      · rw [if_neg hSeparator, if_neg fun hBoth => hSeparator hBoth.2]
        exact ⟨t', rfl, hSame⟩

end Same

end ReadStream

section Reading

variable {F : Type} (core : IntegerDivision.Division) (fromString : List Char → Int → Int)
  (strtod : List Char → F)

/-- The fraction of `readFrom:`: the stream and the text behind it, and `hasPoint`. -/
def readFraction (s : ReadStream) (token : List Char) : ReadStream × List Char × Bool :=
  if s.peek = some '.' then
    let after := s.next.2
    if after.atEnd = false ∧ after.peek.any ReadStream.isDigit then
      let (last, token, _) := after.readDigits (token ++ ['.']) 0
      (last, token, true)
    else (s, token, false)
  else (s, token, false)

/-- The exponent of `readFrom:`, if there is one. -/
def readExponent (s : ReadStream) : ReadStream × Option (List Char) :=
  if s.peek = some 'e' then
    let after := s.next.2
    let (after, exponent) := if after.peek = some '-' then (after.next.2, ['-']) else (after, [])
    let (last, exponent, count) := after.readDigits exponent 0
    if count = 0 then (s, none) else (last, some exponent)
  else (s, none)

/-- `Number class >> readFrom:`, of a stream.  The texts it collects are digits with a sign, which
`asNumber` reads as an integer, so what an answer of `nil` would be sent is left out. -/
def readFrom (s : ReadStream) :
    Except IntegerDivision.Signal (Option (Parsed F) × ReadStream) :=
  let s := s.skipSeparators
  let (s, token) := if s.peek = some '-' then (s.next.2, ['-']) else (s, [])
  let (s, token, count) := s.readDigits token 0
  if count = 0 then .error (.error "Reading a number failed: a digit was expected")
  else
    let (s, token, hasPoint) := readFraction s token
    let (s, exponent) := readExponent s
    match exponent with
    | none => .ok (asNumber fromString strtod token, s)
    | some exponent =>
        match asNumber fromString strtod exponent, asNumber fromString strtod token with
        | some (.exact (.integer e)), mantissa =>
            if hasPoint = false ∧ e ≥ 0 then
              match mantissa with
              | some (.exact m) => do
                  let power ← Fractions.power core 10 e
                  let product ← Fractions.Number.mul core m power
                  return (some (.exact product), s)
              | _ => .ok (none, s)
            else .ok (asNumber fromString strtod (token ++ 'e' :: formatBigInteger e), s)
        | _, _ => .ok (none, s)

end Reading

/-! ## Reading back -/

/-- The lexer reads a text as one literal token, of an integer. -/
def ReadsAs (fromString : List Char → Int → Int) (stod : List Char → Option Double)
    (text : List Char) (n : Int) : Prop :=
  (lexOne stod (State.start text)).2.cursor.rest = [] ∧
    (lexOne stod (State.start text)).1.kind = .integer ∧
    (lexOne stod (State.start text)).1.integer fromString = n

/-- What the standard says of the C library, where it prints and reads a double. -/
structure Documented (snprintf : Nat → Double → List Char) (strtod : List Char → Double)
    (stod : List Char → Option Double) (x : Double) : Prop where
  /-- `"%.*e"` prints as many digits behind the point as the precision says; only zero is
  printed with zeros alone. -/
  prints : ∀ prec, ∃ e : Scientific, snprintf prec x = e.text ∧ e.fraction.length = prec ∧
    (e.value = 0 ↔ x.isZero = true)
  /-- Seventeen digits tell a double from all others. -/
  seventeen : (strtod (snprintf 16 x)).equals x = true
  /-- `strtod` reads a text as the double of its decimal. -/
  nearest : ∃ nearest : Bool × ℚ → Double, ∀ text decimal, decimalOf text = some decimal →
    strtod text = nearest decimal
  /-- `std::stod` is `strtod`, and raises `out_of_range` on overflow and on results below the
  smallest normal double, unless the text is of zero. -/
  range : ∀ text decimal, decimalOf text = some decimal →
    stod text = if (strtod text).isInf = true ∨
      ((strtod text).exponentBits = 0 ∧ decimal.2 ≠ 0) then none else some (strtod text)

/-- An integer reads back from the texts it prints. -/
structure IntegerReadsBack (core : IntegerDivision.Division)
    (fromString : List Char → Int → Int) (strtod : List Char → Double)
    (stod : List Char → Option Double) (n base : Int) : Prop where
  printString : ReadsAs fromString stod (formatBigInteger n) n
  printStringRadix : ∃ text, printStringRadix n base = .ok text ∧ ReadsAs fromString stod text n
  asNumber : asNumber fromString strtod (formatBigInteger n) = some (.exact (.integer n))
  asInteger : asInteger fromString strtod (formatBigInteger n) = some (.exact (.integer n))
  readFrom : (readFrom core fromString strtod (.on (formatBigInteger n))).map Prod.fst =
    .ok (some (.exact (.integer n)))

/-- A float prints as one literal token that denotes the decimal of its shortest mantissa. -/
structure FloatReadsBack (snprintf : Nat → Double → List Char) (strtod : List Char → Double)
    (stod : List Char → Option Double) (x : Double) : Prop where
  single : (lexOne stod (State.start (formatFloat snprintf strtod x))).2.cursor.rest = []
  kind : (lexOne stod (State.start (formatFloat snprintf strtod x))).1.kind = .float
  denotes : ∀ e : Scientific, shortest snprintf strtod x 16 0 = e.text → ∃ lit : Numeral,
    (lexOne stod (State.start (formatFloat snprintf strtod x))).1.text =
      signText e.negative ++ lit.text ∧ lit.value = e.value
  value : Double.equals
    (lexOne stod (State.start (formatFloat snprintf strtod x))).1.floatValue x = true

/-! ## One literal token -/

section Lexing

variable {fromString : List Char → Int → Int} {stod : List Char → Option Double}

theorem text_cons (lit : Numeral) : ∃ c cs, lit.text = c :: cs ∧ c.isDigit = true := by
  have hHead (digits : Digits 10) (more : List Char) :
      ∃ c cs, digits.chars ++ more = c :: cs ∧ c.isDigit = true := by
    obtain ⟨c, cs, hChars⟩ := List.exists_cons_of_ne_nil digits.nonempty
    exact ⟨c, cs ++ more, by rw [hChars, List.cons_append],
      digits.isDigit c (by rw [hChars]; exact List.mem_cons_self)⟩
  cases lit with
  | radix base _ _ digits => exact hHead base _
  | decimal digits fraction exponent => exact hHead digits _

/-- At the start of a source a number is lexed, with its sign. -/
theorem lexOne_number (stod : List Char → Option Double) (negative : Bool) (lit : Numeral)
    (more : List Char) :
    ∃ cur : Cursor, cur.rest = lit.text ++ more ∧
      (lexOne stod (State.start (signText negative ++ lit.text ++ more))).2.cursor =
        (lexNumber stod negative cur).2 ∧
      ∃ blank, (lexOne stod (State.start (signText negative ++ lit.text ++ more))).1 =
        { (lexNumber stod negative cur).1 with blankLineBefore := blank } := by
  obtain ⟨d, ds, hText, hd⟩ := text_cons lit
  obtain ⟨c, cs, hSource, hSpace, hQuote, hHash, hSign⟩ : ∃ c cs,
      signText negative ++ lit.text ++ more = c :: cs ∧ isSpace c = false ∧ c ≠ '"' ∧ c ≠ '#' ∧
        numberSign .endOfFile false (c :: cs) = some negative := by
    rw [hText]
    cases negative with
    | true =>
        refine ⟨'-', d :: ds ++ more, rfl, by decide, by decide, by decide, ?_⟩
        simp [numberSign, hd, endsOperand, show Char.isDigit '-' = false by decide]
    | false =>
        refine ⟨d, ds ++ more, rfl, Primitives.NumberParsing.isSpace_of_isDigit hd, ?_, ?_, ?_⟩
        · rintro rfl
          exact absurd hd (by decide)
        · rintro rfl
          exact absurd hd (by decide)
        · simp [numberSign, hd]
  have hStart : State.start (c :: cs) = ⟨⟨c :: cs, 1, 1⟩, .endOfFile⟩ := by
    unfold State.start
    rw [if_neg]
    intro h
    exact hHash (List.cons.inj h).1
  have hSkip : skipWhitespace none 1 1 (c :: cs) = (none, ⟨c :: cs, 1, 1⟩) := by
    rw [skipWhitespace, if_neg (by rw [hSpace]; exact Bool.false_ne_true), if_neg hQuote]
  have hToken : lexToken stod .endOfFile false c ⟨c :: cs, 1, 1⟩ = _ :=
    lexToken_number rfl hSign
  have hOne : lexOne stod ⟨⟨c :: cs, 1, 1⟩, .endOfFile⟩ =
      ({ (lexToken stod .endOfFile false c ⟨c :: cs, 1, 1⟩).1 with
          blankLineBefore := containsBlankLine false true false [] },
        ⟨(lexToken stod .endOfFile false c ⟨c :: cs, 1, 1⟩).2,
          (lexToken stod .endOfFile false c ⟨c :: cs, 1, 1⟩).1.kind⟩) := by
    unfold lexOne nextImpl
    dsimp only
    rw [hSkip]
    simp only [Nat.sub_self, List.take_zero, ne_eq, not_true_eq_false, decide_false]
  rw [hSource, hStart, hOne, hToken]
  refine ⟨_, ?_, rfl, _, rfl⟩
  rw [rest_unsigned, ← hSource, List.append_assoc]
  cases negative with
  | false => rfl
  | true => rfl

theorem longest_self (lit : Numeral) : lit.Longest lit.text :=
  ⟨List.prefix_refl _, fun _ h => h.length_le⟩

/-- The text of an integer with a sign is one literal token. -/
theorem readsAs_numeral (hFrom : ReadsDigits fromString) (negative : Bool) (lit : Numeral) {n : Int}
    (hInteger : lit.IsInteger) (hExponent : lit.exponent = 0)
    (hValue : (n : ℚ) = signed negative lit.value) :
    ReadsAs fromString stod (signText negative ++ lit.text) n := by
  obtain ⟨cur, hRest, hCursor, blank, hToken⟩ := lexOne_number stod negative lit []
  rw [List.append_nil] at hRest hCursor hToken
  have hLongest : lit.Longest cur.rest := by
    rw [hRest]
    exact longest_self lit
  have hRead : cur.rest = lit.text ++ (lexNumber stod negative cur).2.rest ∧ _ :=
    means_iff_fits hFrom hLongest
  have hMeans := hRead.2.mpr (fits_of_exponent hExponent)
  have hKind := hMeans.accepted hInteger (by omega)
  refine ⟨?_, ?_, ?_⟩
  · rw [hCursor]
    exact List.self_eq_append_right.mp (hRest.symm.trans hRead.1)
  · rw [hToken]
    exact hKind
  · rw [hToken]
    have hSame := (hMeans.integer hKind).2
    rw [← hValue] at hSame
    exact_mod_cast hSame

end Lexing

/-! ## Integers -/

section Integers

variable {fromString : List Char → Int → Int} {strtod : List Char → Double}
  {stod : List Char → Option Double}

theorem signed_natAbs (n : Int) : signed (decide (n < 0)) (n.natAbs : Int) = n := by
  by_cases hNeg : n < 0
  · rw [decide_eq_true hNeg, signed, if_pos rfl]
    omega
  · rw [decide_eq_false hNeg, signed, if_neg Bool.false_ne_true]
    omega

/-- `printString` is one literal token. -/
theorem printString_readsAs (hFrom : ReadsDigits fromString) (n : Int) :
    ReadsAs fromString stod (formatBigInteger n) n := by
  obtain ⟨digits, hText, hValue⟩ := formatBigInteger_eq n
  have hNumeral : (Numeral.decimal digits none none).text = digits.chars := by
    simp [Numeral.text, fractionText, exponentText]
  rw [hText, ← hNumeral]
  refine readsAs_numeral hFrom _ _ ⟨rfl, fun digits h => by cases h⟩ rfl ?_
  have hDigits : (Numeral.decimal digits none none).value = ((n.natAbs : Int) : ℚ) := by
    rw [← hValue]
    simp [Numeral.value, mantissa, exponentValue]
  rw [hDigits, ← signed_intCast, signed_natAbs]

theorem parseNumber_printString (hFrom : ReadsDigits fromString) (integerOnly : Bool) (n : Int) :
    Primitives.NumberParsing.parseNumber fromString strtod integerOnly (formatBigInteger n) =
      some (.exact (.integer n)) := by
  obtain ⟨digits, hText, hValue⟩ := formatBigInteger_eq n
  rw [hText, parseNumber_digits hFrom, hValue, signed_natAbs]

theorem isSeparator_of_isDigit {c : Char} (h : c.isDigit = true) :
    ReadStream.isSeparator c = false := by
  rw [← ReadStream.isDigit_eq, ReadStream.isDigit, Bool.and_eq_true, decide_eq_true_eq,
    decide_eq_true_eq] at h
  rw [Bool.eq_false_iff]
  intro hSeparator
  have hMem : c.toNat ∈ [32, 9, 10, 13, 12] := List.contains_iff_mem.mp hSeparator
  simp only [List.mem_cons, List.not_mem_nil, or_false] at hMem
  omega

theorem readFraction_end (before token : List Char) :
    readFraction (.between before []) token = (.between before [], token, false) := by
  rw [readFraction, if_neg (by simp)]

theorem readExponent_end (before : List Char) :
    readExponent (.between before []) = (.between before [], none) := by
  rw [readExponent, if_neg (by simp)]

/-- `readFrom:` reads digits with a sign. -/
theorem readFrom_digits (core : IntegerDivision.Division) (hFrom : ReadsDigits fromString)
    (negative : Bool) (digits : Digits 10) :
    (readFrom core fromString strtod (.on (signText negative ++ digits.chars))).map Prod.fst =
      .ok (some (.exact (.integer (signed negative (digits.value : Int))))) := by
  have hNumber : asNumber fromString strtod (signText negative ++ digits.chars) = _ :=
    parseNumber_digits hFrom false negative digits
  have hCount : ¬ 0 + digits.chars.length = 0 := by
    have := List.length_pos_iff.mpr digits.nonempty
    omega
  obtain ⟨c, cs, hChars⟩ := List.exists_cons_of_ne_nil digits.nonempty
  have hDigit : c.isDigit = true := digits.isDigit c (by rw [hChars]; exact List.mem_cons_self)
  have hMinus : c ≠ '-' := by
    rintro rfl
    exact absurd hDigit (by decide)
  have hSkip : (ReadStream.on (signText negative ++ digits.chars)).skipSeparators =
      .between [] (signText negative ++ digits.chars) := by
    cases negative with
    | true => exact ReadStream.skipSeparators_between '-' digits.chars (by decide)
    | false =>
        rw [hChars]
        exact ReadStream.skipSeparators_between c cs (isSeparator_of_isDigit hDigit)
  have hSign : (if (ReadStream.between [] (signText negative ++ digits.chars)).peek = some '-' then
        ((ReadStream.between [] (signText negative ++ digits.chars)).next.2, ['-'])
      else (ReadStream.between [] (signText negative ++ digits.chars), [])) =
      (.between (signText negative) digits.chars, signText negative) := by
    cases negative with
    | true =>
        change (if (ReadStream.between [] ('-' :: digits.chars)).peek = some '-' then
          ((ReadStream.between [] ('-' :: digits.chars)).next.2, ['-']) else _) = _
        rw [ReadStream.peek_between, ReadStream.next_between]
        rfl
    | false =>
        rw [ReadStream.peek_between, hChars]
        exact if_neg fun h => hMinus (Option.some.inj h)
  unfold readFrom
  rw [hSkip]
  dsimp only
  rw [hSign]
  dsimp only
  rw [ReadStream.readDigits_between _ _ _ _ digits.isDigit]
  dsimp only
  rw [if_neg hCount, readFraction_end, readExponent_end]
  dsimp only
  rw [hNumber]
  rfl

theorem digitValue_radixDigits {d : Nat} (hd : d < 36) :
    digitValue (radixDigits.getD d '0') = d := by
  have hAll : ∀ d : Fin 36, digitValue (radixDigits.getD d '0') = d := by decide
  exact hAll ⟨d, hd⟩

variable {base : Nat}

theorem radixLoop_eq (hBase : 2 ≤ base) (hLe : base ≤ 36) (n : Nat)
    (digits : List Char) (hDigits : ∀ c ∈ digits, isDigitIn base c = true) :
    (∀ c ∈ radixLoop base hBase n digits, isDigitIn base c = true) ∧
      natOf base (radixLoop base hBase n digits) =
        n * base ^ digits.length + natOf base digits ∧
      (radixLoop base hBase n digits = [] → n = 0 ∧ digits = []) := by
  fun_induction radixLoop base hBase n digits with
  | case1 n digits hPos ih =>
    have hMod : n % base < base := Nat.mod_lt n (by omega)
    have hValue : digitValue (radixDigits.getD (n % base) '0') = n % base :=
      digitValue_radixDigits (by omega)
    have hMore : ∀ c ∈ radixDigits.getD (n % base) '0' :: digits, isDigitIn base c = true := by
      intro c hc
      rcases List.mem_cons.mp hc with rfl | hOld
      · rw [isDigitIn, hValue, decide_eq_true_eq]
        exact hMod
      · exact hDigits c hOld
    obtain ⟨hAll, hNumber, hNil⟩ := ih hMore
    refine ⟨hAll, hNumber.trans ?_, fun h => absurd (hNil h).2 (by simp)⟩
    have hCons : natOf base (radixDigits.getD (n % base) '0' :: digits) =
        n % base * base ^ digits.length + natOf base digits := by
      refine (natOf_append base [radixDigits.getD (n % base) '0'] digits).trans ?_
      rw [natOf_singleton, hValue]
    rw [hCons, List.length_cons, pow_succ]
    calc n / base * (base ^ digits.length * base) +
          (n % base * base ^ digits.length + natOf base digits)
        = (base * (n / base) + n % base) * base ^ digits.length + natOf base digits := by ring
      _ = n * base ^ digits.length + natOf base digits := by rw [Nat.div_add_mod]
  | case2 n digits hZero =>
    refine ⟨hDigits, ?_, fun h => ⟨Nat.eq_zero_of_not_pos hZero, h⟩⟩
    rw [Nat.eq_zero_of_not_pos hZero, Nat.zero_mul, Nat.zero_add]

/-- `printString:` is the digits of the base, with the sign. -/
theorem printStringIn_eq (n : Int) (hBase : 2 ≤ base) (hLe : base ≤ 36) :
    ∃ digits : Digits base, printStringIn n base =
        .ok (signText (decide (n < 0)) ++ digits.chars) ∧ digits.value = n.natAbs := by
  unfold printStringIn
  rw [dif_neg (by omega)]
  by_cases hZero : n = 0
  · rw [if_pos hZero, hZero]
    refine ⟨⟨['0'], by decide, fun c hc => ?_⟩, rfl, natOf_zeros base 1⟩
    rw [List.mem_singleton] at hc
    rw [hc, isDigitIn, decide_eq_true_eq]
    exact Nat.lt_of_lt_of_le (by decide) hBase
  · rw [if_neg hZero]
    obtain ⟨hAll, hValue, hNil⟩ := radixLoop_eq hBase hLe n.natAbs [] (by simp)
    refine ⟨⟨radixLoop base hBase n.natAbs [], fun h => ?_, hAll⟩, ?_, ?_⟩
    · exact hZero (Int.natAbs_eq_zero.mp (hNil h).1)
    · change Except.ok (if n < 0 then '-' :: radixLoop base hBase n.natAbs []
        else radixLoop base hBase n.natAbs []) = _
      by_cases hNeg : n < 0
      · rw [if_pos hNeg, decide_eq_true hNeg]
        rfl
      · rw [if_neg hNeg, decide_eq_false hNeg]
        rfl
    · rw [Digits.value, hValue]
      simp [natOf]

/-- Digits and what follows them, apart. -/
theorem run_inj {xs ys s t : List Char} (hx : ∀ c ∈ xs, c.isDigit = true)
    (hy : ∀ c ∈ ys, c.isDigit = true) (hs : Stops Char.isDigit s) (ht : Stops Char.isDigit t)
    (h : xs ++ s = ys ++ t) : xs = ys ∧ s = t := by
  have hTake := congrArg (List.takeWhile Char.isDigit) h
  have hDrop := congrArg (List.dropWhile Char.isDigit) h
  rw [takeWhile_run hx hs, takeWhile_run hy ht] at hTake
  rw [dropWhile_run hx hs, dropWhile_run hy ht] at hDrop
  exact ⟨hTake, hDrop⟩

/-- No number has a minus sign behind its base. -/
theorem text_ne_signed_radix (lit : Numeral) (base : Digits 10) (more : List Char) :
    lit.text ≠ base.chars ++ 'r' :: '-' :: more := by
  intro h
  have hStops : Stops Char.isDigit ('r' :: '-' :: more) := stops_cons (by decide)
  cases lit with
  | radix b hTwo hLe digits =>
      have hTail := (run_inj b.isDigit base.isDigit (stops_cons (by decide)) hStops h).2
      have hMinus : isDigitIn b.value '-' = true :=
        digits.digit '-' (by rw [(List.cons.inj hTail).2]; exact List.mem_cons_self)
      rw [isDigitIn, decide_eq_true_eq] at hMinus
      have hInvalid : digitValue '-' = 99 := rfl
      omega
  | decimal digits fraction exponent =>
      cases fraction with
      | some f =>
          have hTail := (run_inj digits.isDigit base.isDigit (stops_cons (by decide)) hStops h).2
          exact absurd (List.cons.inj hTail).1 (by decide)
      | none =>
          cases exponent with
          | some e =>
              have hTail :=
                (run_inj digits.isDigit base.isDigit (stops_cons (by decide)) hStops h).2
              exact absurd (List.cons.inj hTail).1 (by decide)
          | none =>
              have hNone : Stops Char.isDigit (fractionText none ++ exponentText none) := by
                intro c hc
                cases hc
              cases (run_inj digits.isDigit base.isDigit hNone hStops h).2

/-- The lexer stops in front of an `r` with a minus sign behind it. -/
theorem not_readsAs_signed_radix (hFrom : ReadsDigits fromString) (base : Digits 10)
    (more : List Char) (n : Int) :
    ¬ ReadsAs fromString stod (base.chars ++ 'r' :: '-' :: more) n := by
  rintro ⟨hRest, -, -⟩
  have hNumeral : (Numeral.decimal base none none).text = base.chars := by
    simp [Numeral.text, fractionText, exponentText]
  obtain ⟨cur, hcur, hCursor, -⟩ := lexOne_number stod false
    (.decimal base none none) ('r' :: '-' :: more)
  rw [hNumeral] at hcur hCursor
  obtain ⟨c, cs, hChars⟩ := List.exists_cons_of_ne_nil base.nonempty
  have hDigit : c.isDigit = true := base.isDigit c (by rw [hChars]; exact List.mem_cons_self)
  obtain ⟨lit, hLongest⟩ : ∃ lit : Numeral, lit.Longest cur.rest := by
    rw [hcur, hChars]
    exact exists_longest hDigit
  have hRead : cur.rest = lit.text ++ (lexNumber stod false cur).2.rest ∧ _ :=
    means_iff_fits hFrom hLongest
  rw [← hCursor, show signText false = [] from rfl, List.nil_append, hRest, List.append_nil,
    hcur] at hRead
  exact text_ne_signed_radix lit base more hRead.1.symm

/-- A base and digits of it are one literal token. -/
theorem readsAs_radix (hFrom : ReadsDigits fromString) (hBase : 2 ≤ base)
    (hLe : base ≤ 36) {baseDigits : Digits 10} (hValue : baseDigits.value = base)
    (digits : Digits base) :
    ReadsAs fromString stod (baseDigits.chars ++ 'r' :: digits.chars) digits.value := by
  subst hValue
  refine readsAs_numeral hFrom false (.radix baseDigits hBase hLe digits) trivial rfl ?_
  exact Int.cast_natCast _

/-- `printStringRadix:` is one literal token of an integer that is not negative, and of no
other. -/
theorem printStringRadix_readsAs_iff (hFrom : ReadsDigits fromString) (n : Int)
    (hBase : 2 ≤ base) (hLe : base ≤ 36) :
    (∃ text, printStringRadix n base = .ok text ∧ ReadsAs fromString stod text n) ↔ 0 ≤ n := by
  obtain ⟨digits, hPrinted, hValue⟩ := printStringIn_eq n hBase hLe
  obtain ⟨baseDigits, hBaseText, hBaseValue⟩ := formatBigInteger_eq base
  have hBaseSign : decide ((base : Int) < 0) = false := decide_eq_false (by omega)
  rw [hBaseSign] at hBaseText
  have hText : printStringRadix n base =
      .ok (baseDigits.chars ++ 'r' :: (signText (decide (n < 0)) ++ digits.chars)) := by
    unfold printStringRadix
    rw [hPrinted, hBaseText]
    simp [signText]
  rw [hText]
  constructor
  · rintro ⟨text, hOk, hReads⟩
    by_contra hNeg
    rw [decide_eq_true (not_le.mp hNeg)] at hOk
    cases hOk
    exact not_readsAs_signed_radix hFrom baseDigits digits.chars n hReads
  · intro hNonneg
    refine ⟨_, rfl, ?_⟩
    have hInt : n = ((digits.value : Nat) : Int) := by omega
    rw [decide_eq_false (not_lt.mpr hNonneg), hInt]
    exact readsAs_radix hFrom hBase hLe (hBaseValue.trans (Int.natAbs_natCast base)) digits

end Integers

/-! ## Floats -/

section Floats

variable {snprintf : Nat → Double → List Char} {strtod : List Char → Double}
  {stod : List Char → Option Double} {x : Double}

theorem equals_cases {a b : Double} (h : a.equals b = true) :
    a = b ∨ (a.isZero = true ∧ b.isZero = true) := by
  simp only [Double.equals, Bool.and_eq_true, Bool.or_eq_true, decide_eq_true_eq] at h
  exact h.2

/-- What reads back as a double is out of range exactly if the double is subnormal. -/
theorem outOfRange_iff {y : Double} {q : ℚ} (hFinite : x.isFinite = true)
    (hEquals : y.equals x = true) (hZero : q = 0 ↔ x.isZero = true) :
    (y.isInf = true ∨ (y.exponentBits = 0 ∧ q ≠ 0)) ↔ x.isSubnormal = true := by
  have hExponent : x.exponentBits ≠ 2047 := of_decide_eq_true hFinite
  simp only [Double.isInf, Double.isSubnormal, Double.isZero, Bool.and_eq_true,
    decide_eq_true_eq, ne_eq] at hZero ⊢
  rcases equals_cases hEquals with rfl | ⟨hy, hx⟩
  · rw [hZero]
    tauto
  · simp only [Double.isZero, Bool.and_eq_true, decide_eq_true_eq] at hy hx
    have hq : q = 0 := hZero.mpr hx
    rw [hy.1, hx.2]
    simp [hq]

/-- The loop ends with a text that `snprintf` prints, and that reads back if the last one
does. -/
theorem shortest_spec (d : Double) (more prec : Nat)
    (hLast : (strtod (snprintf (prec + more) d)).equals d = true) :
    ∃ p, shortest snprintf strtod d more prec = snprintf p d ∧
      (strtod (snprintf p d)).equals d = true := by
  induction more generalizing prec with
  | zero => exact ⟨prec, rfl, hLast⟩
  | succ more ih =>
    by_cases hReads : (strtod (snprintf prec d)).equals d = true
    · exact ⟨prec, if_pos hReads, hReads⟩
    · obtain ⟨p, hText, hEquals⟩ := ih (prec + 1) (by rwa [Nat.add_right_comm])
      exact ⟨p, (if_neg hReads).trans hText, hEquals⟩

/-- A float prints as a literal with a fraction, which `strtod` reads back. -/
theorem formatFloat_literal (hLib : Documented snprintf strtod stod x)
    (hFinite : x.isFinite = true) :
    ∃ negative int frac exponent, formatFloat snprintf strtod x =
        signText negative ++ (Numeral.decimal int (some frac) exponent).text ∧
      (strtod (formatFloat snprintf strtod x)).equals x = true ∧
      ((Numeral.decimal int (some frac) exponent).value = 0 ↔ x.isZero = true) := by
  obtain ⟨prec, hShortest, hEquals⟩ := shortest_spec x 16 0 hLib.seventeen
  obtain ⟨e, hText, -, hZero⟩ := hLib.prints prec
  obtain ⟨nearest, hNearest⟩ := hLib.nearest
  obtain ⟨text, hFormat, int, frac, exponent, hLit, hValue⟩ :=
    formatFloat_denotes hFinite (hShortest.trans hText)
  refine ⟨e.negative, int, frac, exponent, by rw [hFormat, hLit], ?_, by rw [hValue, hZero]⟩
  rw [hFormat, hLit, hNearest _ _ (decimalOf_literal e.negative int frac exponent), hValue,
    ← hNearest _ _ (decimalOf_scientific e), ← hText]
  exact hEquals

/-- A literal with a fraction is one token. -/
theorem lexOne_fraction (stod : List Char → Option Double) (negative : Bool) (int frac : Digits 10)
    (exponent : Option (Bool × Digits 10)) :
    ∃ line column blank,
      (lexOne stod (State.start
        (signText negative ++ (Numeral.decimal int (some frac) exponent).text))).1 =
        { floatToken stod (signText negative ++ (Numeral.decimal int (some frac) exponent).text)
            line column with blankLineBefore := blank } ∧
      (lexOne stod (State.start
        (signText negative ++ (Numeral.decimal int (some frac) exponent).text))).2.cursor.rest =
        [] := by
  obtain ⟨cur, hRest, hCursor, blank, hToken⟩ :=
    lexOne_number stod negative (.decimal int (some frac) exponent) []
  rw [List.append_nil] at hRest hCursor hToken
  have hLongest : (Numeral.decimal int (some frac) exponent).Longest cur.rest := by
    rw [hRest]
    exact longest_self _
  obtain ⟨hNumber, hAfter⟩ : (lexNumber stod negative cur).1 = _ ∧ _ :=
    lexNumber_decimal negative hLongest (hRest.trans (List.append_nil _).symm)
  refine ⟨cur.line, literalColumn negative cur, blank, ?_, by rw [hCursor, hAfter]⟩
  rw [hToken, hNumber]
  exact congrArg (fun t : Token => { t with blankLineBefore := blank })
    (decimalToken_fraction int frac exponent _ _)

/-- A finite float reads back if and only if it is not subnormal. -/
theorem floatReadsBack_iff (hLib : Documented snprintf strtod stod x)
    (hFinite : x.isFinite = true) :
    FloatReadsBack snprintf strtod stod x ↔ x.isSubnormal = false := by
  obtain ⟨negative, int, frac, exponent, hText, hEquals, hZero⟩ := formatFloat_literal hLib hFinite
  obtain ⟨line, column, blank, hToken, hRest⟩ :=
    lexOne_fraction stod negative int frac exponent
  have hRange := hLib.range _ _ (decimalOf_literal negative int frac exponent)
  rw [← hText] at hToken hRest hRange
  by_cases hSubnormal : x.isSubnormal = true
  · rw [if_pos ((outOfRange_iff hFinite hEquals hZero).mpr hSubnormal)] at hRange
    refine iff_of_false (fun h => ?_) (by rw [hSubnormal]; exact Bool.noConfusion)
    have hKind := h.kind
    rw [hToken, floatToken, hRange] at hKind
    cases hKind
  · rw [if_neg fun h => hSubnormal ((outOfRange_iff hFinite hEquals hZero).mp h)] at hRange
    rw [Bool.not_eq_true] at hSubnormal
    refine iff_of_true ⟨hRest, ?_, ?_, ?_⟩ hSubnormal
    all_goals rw [hToken, floatToken, hRange]
    · rfl
    · intro e hShortest
      obtain ⟨text, hFormat, int, frac, exponent, hLit, hValue⟩ :=
        formatFloat_denotes hFinite hShortest
      exact ⟨.decimal int (some frac) exponent, by rw [← hLit]; exact hFormat, hValue⟩
    · exact hEquals

end Floats

/-- **Printed numbers read back**: an integer that is not negative from all its texts, and a
finite float that is not subnormal. -/
theorem readBack_iff (core : IntegerDivision.Division) {fromString : List Char → Int → Int}
    (hFrom : ReadsDigits fromString) {snprintf : Nat → Double → List Char}
    {strtod : List Char → Double} {stod : List Char → Option Double} (n : Int) {base : Nat}
    (hBase : 2 ≤ base) (hLe : base ≤ 36) {x : Double} (hFinite : x.isFinite = true)
    (hLib : Documented snprintf strtod stod x) :
    IntegerReadsBack core fromString strtod stod n base ∧
        FloatReadsBack snprintf strtod stod x ↔
      0 ≤ n ∧ x.isSubnormal = false := by
  have hRadix : (∃ text, printStringRadix n base = .ok text ∧ ReadsAs fromString stod text n) ↔
      0 ≤ n := printStringRadix_readsAs_iff hFrom n hBase hLe
  rw [floatReadsBack_iff hLib hFinite, ← hRadix]
  refine and_congr_left fun _ => ⟨fun h => h.printStringRadix, fun h => ?_⟩
  refine ⟨printString_readsAs hFrom n, h, parseNumber_printString hFrom false n,
    parseNumber_printString hFrom true n, ?_⟩
  obtain ⟨digits, hText, hValue⟩ := formatBigInteger_eq n
  rw [hText, readFrom_digits core hFrom, hValue, signed_natAbs]

/-! ## The number 1 -/

/-- `1.0` -/
def one : Double := 0x3FF0000000000000

/-- `1.0` with as many digits behind the point. -/
def scientificOne (prec : Nat) : Scientific where
  negative := false
  lead := '1'
  fraction := List.replicate prec '0'
  exponent := 0
  digit := by
    intro c hc
    rcases List.mem_cons.mp hc with rfl | hZero
    · decide
    · exact zeros_digits prec c hZero

/-- `"%.*e"` of `1.0`. -/
def printOne (prec : Nat) (_ : Double) : List Char := (scientificOne prec).text

/-- A `strtod` that knows 1. -/
def strtodOne (text : List Char) : Double := if decimalOf text = some (false, 1) then one else 0

/-- `std::stod` over it. -/
def stodOne (text : List Char) : Option Double :=
  match decimalOf text with
  | some decimal =>
      if (strtodOne text).isInf = true ∨ ((strtodOne text).exponentBits = 0 ∧ decimal.2 ≠ 0)
      then none else some (strtodOne text)
  | none => none

theorem value_scientificOne (prec : Nat) : (scientificOne prec).value = 1 := by
  have hOne : natOf 10 ['1'] = 1 := by decide
  have hMantissa : natOf 10 ('1' :: List.replicate prec '0') = 10 ^ prec := by
    refine (natOf_append 10 ['1'] _).trans ?_
    rw [natOf_zeros, hOne, List.length_replicate, Nat.one_mul, Nat.add_zero]
  have hExponent : (0 : Int) + 1 - (('1' :: List.replicate prec '0').length : Int) = -prec := by
    rw [List.length_cons, List.length_replicate]
    omega
  unfold Scientific.value decimalValue scientificOne
  dsimp only
  rw [hMantissa, hExponent, zpow_neg, zpow_natCast]
  push_cast
  exact mul_inv_cancel₀ (pow_ne_zero _ (by norm_num))

theorem documented_one : Documented printOne strtodOne stodOne one where
  prints prec := by
    refine ⟨scientificOne prec, rfl, List.length_replicate, ?_⟩
    rw [value_scientificOne]
    exact iff_of_false one_ne_zero (by decide)
  seventeen := by
    have hDecimal : decimalOf (printOne 16 one) = some (false, (scientificOne 16).value) :=
      decimalOf_scientific (scientificOne 16)
    rw [strtodOne, hDecimal, value_scientificOne, if_pos rfl]
    decide
  nearest := by
    refine ⟨fun decimal => if decimal = (false, 1) then one else 0, fun text decimal h => ?_⟩
    rw [strtodOne, h]
    simp only [Option.some.injEq]
  range text decimal h := by
    rw [stodOne, h]

theorem readBack_one :
    IntegerReadsBack IntegerDivision.truncating readDigits strtodOne stodOne 255 16 ∧
        FloatReadsBack printOne strtodOne stodOne one ↔
      (0 : Int) ≤ 255 ∧ one.isSubnormal = false :=
  readBack_iff IntegerDivision.truncating readsDigits_readDigits 255 (by decide) (by decide)
    (by decide) documented_one

/-- `-255 printStringRadix: 16` is `'16r-FF'`, which is no literal. -/
theorem negative_radix :
    printStringRadix (-255) 16 = .ok "16r-FF".toList ∧
      ¬ IntegerReadsBack IntegerDivision.truncating readDigits strtodOne stodOne (-255) 16 := by
  refine ⟨?_, fun h => ?_⟩
  · have hDigits : radixLoop 16 (by decide) 255 [] = "FF".toList := by
      rw [radixLoop, if_pos (by decide), radixLoop, if_pos (by decide), radixLoop,
        if_neg (by decide)]
      decide
    have hBase : digitsLoop 16 [] = "61".toList := by
      rw [digitsLoop, if_pos (by decide), digitsLoop, if_pos (by decide), digitsLoop,
        if_neg (by decide)]
      decide
    have hPrinted : printStringIn (-255) 16 = .ok ('-' :: radixLoop 16 (by decide) 255 []) := rfl
    have hText : formatBigInteger 16 = (digitsLoop 16 []).reverse := rfl
    rw [printStringRadix, hPrinted, hText, hDigits, hBase]
    rfl
  · have hBase : 2 ≤ 16 := by decide
    have hNonneg : (0 : Int) ≤ -255 :=
      (printStringRadix_readsAs_iff readsDigits_readDigits (-255) hBase (by decide)).mp
        h.printStringRadix
    exact absurd hNonneg (by decide)

end ProtoST.Kernel.NumberText

import ProtoST.Frontend.Numerals
import ProtoST.Frontend.Tokens

/-!
# Literals

The literals that `parsePrimary` and `parseLiteralArrayElement` of `Parser.cpp` accept.  The
parser holds one token and the lexer behind it; `none` stands for a reported error.

## Main results

* `lexOne_at` — a token behind whitespace.
* `lexOne_string`, `lexOne_char`, `lexOne_word` — the tokens of texts that are literals.
-/

namespace ProtoST.Frontend.Literals

open ProtoST.Frontend.Lexer

/-! ## The parser -/

section Parsing

variable (stod : List Char → Option (BitVec 64))

/-- `current_`, and the lexer behind it. -/
structure Parser where
  current : Token
  lexer : State

/-- The parser whose current token begins here. -/
def Parser.at (st : State) : Parser := ⟨(lexOne stod st).1, (lexOne stod st).2⟩

/-- `Parser::advance`. -/
def Parser.advance (p : Parser) : Parser := Parser.at stod p.lexer

/-- The node of a literal. -/
inductive Literal where
  | integer (n : IntegerLit)
  | float (value : BitVec 64)
  | string (text : List Char)
  | char (text : List Char)
  | symbol (text : List Char)
  | true | false | nil
  | array (elements : List Literal)

/-- The loop that joins keyword tokens written without spaces. -/
def joinKeywords : Nat → Nat → Nat → List Char → Parser → List Char × Parser
  | 0, _, _, text, p => (text, p)
  | fuel + 1, line, endColumn, text, p =>
    if p.current.kind = .keyword ∧ p.current.line = line ∧ p.current.column = endColumn then
      joinKeywords fuel line (endColumn + p.current.text.length) (text ++ p.current.text)
        (p.advance stod)
    else (text, p)

mutual

/-- `parseLiteralArrayElement`. -/
@[grind =] def parseElement : Nat → Parser → Option (Literal × Parser)
  | 0, _ => none
  | fuel + 1, p =>
    match p.current.kind with
    | .integer => some (.integer (integerLit p.current), p.advance stod)
    | .float => some (.float p.current.floatValue, p.advance stod)
    | .string => some (.string p.current.text, p.advance stod)
    | .char => some (.char p.current.text, p.advance stod)
    | .symbol => some (.symbol p.current.text, p.advance stod)
    | .true => some (.true, p.advance stod)
    | .false => some (.false, p.advance stod)
    | .nil => some (.nil, p.advance stod)
    | .identifier => some (.symbol p.current.text, p.advance stod)
    | .keyword =>
      let (text, last) := joinKeywords stod fuel p.current.line
        (p.current.column + p.current.text.length) p.current.text (p.advance stod)
      some (.symbol text, last)
    | .hashLParen | .lParen =>
      (parseElements fuel (p.advance stod)).map fun (elements, last) => (.array elements, last)
    | _ => none

/-- The loop of `parseLiteralArray`, with the closing parenthesis. -/
def parseElements : Nat → Parser → Option (List Literal × Parser)
  | 0, _ => none
  | fuel + 1, p =>
    match p.current.kind with
    | .rParen => some ([], p.advance stod)
    | .endOfFile => none
    | _ =>
      (parseElement fuel p).bind fun (element, next) =>
        (parseElements fuel next).map fun (elements, last) => (element :: elements, last)

end

/-- The tokens that begin a literal in `parsePrimary`. -/
def beginsLiteral : TokenKind → Bool
  | .integer | .float | .string | .char | .symbol | .true | .false | .nil | .hashLParen => true
  | _ => false

/-- `parsePrimary`, of a literal: the cases are those of an element. -/
def parsePrimary (fuel : Nat) (p : Parser) : Option (Literal × Parser) :=
  if beginsLiteral p.current.kind then parseElement stod fuel p else none

end Parsing

/-! ## Tokens behind whitespace -/

section Tokens

variable (stod : List Char → Option (BitVec 64)) {st : State} {before after : List Char} {c : Char}

/-- A token behind whitespace. -/
theorem lexOne_at (hbefore : ∀ c ∈ before, isSpace c = true) {cs : List Char}
    (hspace : isSpace c = false) (hquote : c ≠ '"') (hst : st.cursor.rest = before ++ c :: cs) :
    ∃ cur : Cursor, cur.rest = c :: cs ∧ ∃ blank, lexOne stod st =
      ({ (lexToken stod st.prevReturnedKind (decide (before ≠ [])) c cur).1 with
          blankLineBefore := blank },
        ⟨(lexToken stod st.prevReturnedKind (decide (before ≠ [])) c cur).2,
          (lexToken stod st.prevReturnedKind (decide (before ≠ [])) c cur).1.kind⟩) := by
  obtain ⟨line, column, hskip⟩ := skipWhitespace_of_isSpace hbefore hspace hquote cs
    st.cursor.line st.cursor.column
  rw [← hst] at hskip
  have hskipped : st.cursor.rest.take (st.cursor.rest.length - (c :: cs).length) = before := by
    rw [hst, List.length_append, Nat.add_sub_cancel, List.take_left]
  refine ⟨⟨c :: cs, line, column⟩, rfl, containsBlankLine false true false before, ?_⟩
  unfold lexOne nextImpl
  rw [hskip]
  dsimp only
  rw [hskipped]

theorem blanks_nil : ∀ c ∈ ([] : List Char), isSpace c = true := by
  intro c hc
  cases hc

/-- The text in a string literal. -/
def doubled (text : List Char) : List Char :=
  text.flatMap fun c => if c = '\'' then ['\'', '\''] else [c]

theorem stringBody_doubled (text : List Char) (hafter : after.head? ≠ some '\'') :
    stringBody (doubled text ++ '\'' :: after) = some (text, (doubled text).length + 1) := by
  induction text with
  | nil =>
    cases after with
    | nil => rfl
    | cons d ds =>
      have hd : d ≠ '\'' := fun h => hafter (congrArg some h)
      simp [doubled, stringBody, hd]
  | cons c text ih =>
    by_cases hc : c = '\''
    · subst hc
      have htext : doubled ('\'' :: text) = '\'' :: '\'' :: doubled text := by simp [doubled]
      rw [htext, List.cons_append, List.cons_append, stringBody, ih]
      rfl
    · have htext : doubled (c :: text) = c :: doubled text := by simp [doubled, hc]
      rw [htext, List.cons_append, stringBody, ih]
      · rfl
      · exact fun _ h => absurd h hc
      · exact fun h => absurd h hc

/-- A quoted text is one token. -/
theorem lexOne_string (hbefore : ∀ c ∈ before, isSpace c = true) (hafter : after.head? ≠ some '\'')
    {text : List Char} (hst : st.cursor.rest = before ++ '\'' :: (doubled text ++ '\'' :: after)) :
    (lexOne stod st).1.kind = .string ∧ (lexOne stod st).1.text = text ∧
      (lexOne stod st).2.cursor.rest = after := by
  obtain ⟨cur, hcur, blank, hone⟩ := lexOne_at stod hbefore (c := '\'') (by decide)
    (by decide) hst
  have hadvance : cur.advance.rest = doubled text ++ '\'' :: after := by
    rw [Cursor.rest_advance, hcur, List.tail_cons]
  have htoken : lexToken stod st.prevReturnedKind (decide (before ≠ [])) '\'' cur
      = lexString cur := by
    have hname : startsName '\'' = false := by decide
    have hdigit : Char.isDigit '\'' = false := by decide
    simp [lexToken, hname, hdigit]
  have hstring : lexString cur = (token .string text cur.line cur.column,
      cur.advance.advanceBy ((doubled text).length + 1)) := by
    unfold lexString
    dsimp only
    rw [hadvance, stringBody_doubled text hafter]
  rw [hone, htoken, hstring]
  refine ⟨rfl, rfl, ?_⟩
  show (cur.advance.advanceBy ((doubled text).length + 1)).rest = after
  rw [Cursor.rest_advanceBy, hadvance]
  simp [List.drop_append]

/-- Behind a `$` the token is `lexChar`'s. -/
theorem lexToken_dollar (prev : TokenKind) (spaceBefore : Bool) (cur : Cursor) :
    lexToken stod prev spaceBefore '$' cur = lexChar cur := by
  have hname : startsName '$' = false := by decide
  have hdigit : Char.isDigit '$' = false := by decide
  simp [lexToken, hname, hdigit]

/-- A `$` takes the byte behind it. -/
theorem lexOne_char (hbefore : ∀ c ∈ before, isSpace c = true)
    (hst : st.cursor.rest = before ++ '$' :: c :: after) :
    (lexOne stod st).1.kind = .char ∧ (lexOne stod st).1.text = [c] ∧
      (lexOne stod st).2.cursor.rest = after := by
  obtain ⟨cur, hcur, blank, hone⟩ := lexOne_at stod hbefore (c := '$') (by decide)
    (by decide) hst
  have hadvance : cur.advance.rest = c :: after := by
    rw [Cursor.rest_advance, hcur, List.tail_cons]
  have htoken := lexToken_dollar stod st.prevReturnedKind (decide (before ≠ [])) cur
  have hchar : lexChar cur = (token .char [c] cur.line cur.column, cur.advance.advance) := by
    unfold lexChar
    dsimp only
    rw [hadvance]
  rw [hone, htoken, hchar]
  refine ⟨rfl, rfl, ?_⟩
  show cur.advance.advance.rest = after
  rw [Cursor.rest_advance, hadvance, List.tail_cons]

/-- A `$` at the end of the text. -/
theorem lexOne_char_end (hbefore : ∀ c ∈ before, isSpace c = true)
    (hst : st.cursor.rest = before ++ ['$']) : (lexOne stod st).1.kind = .error := by
  obtain ⟨cur, hcur, blank, hone⟩ := lexOne_at stod hbefore (c := '$') (by decide)
    (by decide) hst
  have hadvance : cur.advance.rest = [] := by
    rw [Cursor.rest_advance, hcur, List.tail_cons]
  have htoken := lexToken_dollar stod st.prevReturnedKind (decide (before ≠ [])) cur
  have hchar : (lexChar cur).1.kind = .error := by
    unfold lexChar
    dsimp only
    rw [hadvance]
    rfl
  rw [hone, htoken]
  exact hchar

/-! ### Words, numbers and parentheses -/

/-- The text that follows a literal: a blank, a closing parenthesis or nothing. -/
def EndsLiteral (after : List Char) : Prop :=
  ∀ c, after.head? = some c → c = ' ' ∨ c = ')'

theorem EndsLiteral.endsSymbol (h : EndsLiteral after) : EndsSymbol after := by
  intro c hc
  rcases h c hc with rfl | rfl
  · exact ⟨by decide, by decide, by decide⟩
  · exact ⟨by decide, by decide, by decide⟩

theorem EndsLiteral.head_ne (h : EndsLiteral after) (hspace : c ≠ ' ')
    (hparen : c ≠ ')') : after.head? ≠ some c := by
  intro hc
  exact (h c hc).elim hspace hparen

/-- A name by itself is one token. -/
theorem lexOne_word (hbefore : ∀ c ∈ before, isSpace c = true) (hafter : EndsLiteral after)
    {name : List Char} (hname : IsName name) (hst : st.cursor.rest = before ++ (name ++ after)) :
    (lexOne stod st).1.kind =
        (if name = "true".toList then .true else if name = "false".toList then .false
          else if name = "nil".toList then .nil else .identifier) ∧
      (lexOne stod st).2.cursor.rest = after := by
  have hscan := takeWhile_inName name after hname.inName fun c hc => (hafter.endsSymbol c hc).1
  obtain ⟨c, cs, rfl, hc, -⟩ := hname
  have hspace : isSpace c = false := by
    rw [Bool.eq_false_iff]
    intro hspace
    have hnot := not_inName_of_isSpace hspace
    simp only [startsName, inName, Char.isAlphanum, Bool.or_eq_true,
      Bool.or_eq_false_iff] at hc hnot
    rcases hc with hc | hc
    · rw [hnot.1.1] at hc
      cases hc
    · rw [hnot.2] at hc
      cases hc
  have hquote : c ≠ '"' := by
    rintro rfl
    exact absurd hc (by decide)
  obtain ⟨cur, hcur, blank, hone⟩ := lexOne_at stod hbefore hspace hquote hst
  have htoken : lexToken stod st.prevReturnedKind (decide (before ≠ [])) c cur
      = lexIdentifier cur := by
    simp [lexToken, hc]
  have hrest : (cur.scan inName).2.rest = after := by
    rw [Cursor.rest_scan, hcur]
    exact hscan.2
  have hcolon : ¬ ((cur.scan inName).2.rest.head? = some ':' ∧
      (cur.scan inName).2.rest.tail.head? ≠ some '=') := by
    rw [hrest]
    exact fun h => hafter.head_ne (by decide) (by decide) h.1
  have hword : lexIdentifier cur = (token (if c :: cs = "true".toList then .true
      else if c :: cs = "false".toList then .false
      else if c :: cs = "nil".toList then .nil else .identifier) (c :: cs) cur.line cur.column,
      (cur.scan inName).2) := by
    have htext : (cur.scan inName).1 = c :: cs := by
      rw [Cursor.scan_fst, hcur]
      exact hscan.1
    unfold lexIdentifier
    dsimp only
    rw [if_neg hcolon, htext]
  rw [hone, htoken, hword]
  exact ⟨rfl, hrest⟩

/-- The characters of a numeral end no literal. -/
theorem mem_numeral {lit : Numeral} (hc : c ∈ lit.text) : c ≠ ' ' ∧ c ≠ ')' := by
  have hdigits : ∀ {base : Nat} (digits : Digits base), base ≤ 36 → c ∈ digits.chars →
      c ≠ ' ' ∧ c ≠ ')' := by
    intro base digits hbase hmem
    have hvalue : digitValue c < base := of_decide_eq_true (digits.digit c hmem)
    constructor
    · rintro rfl
      have hblank : digitValue ' ' = 99 := by decide
      omega
    · rintro rfl
      have hparen : digitValue ')' = 99 := by decide
      omega
  cases lit with
  | radix base two_le le digits =>
    rcases List.mem_append.mp hc with hc | hc
    · exact hdigits base (by decide) hc
    · rcases List.mem_cons.mp hc with rfl | hc
      · decide
      · exact hdigits digits le hc
  | decimal digits fraction exponent =>
    rcases List.mem_append.mp hc with hc | hc
    · exact hdigits digits (by decide) hc
    rcases List.mem_append.mp hc with hc | hc
    · cases fraction with
      | none => cases hc
      | some fraction =>
        rcases List.mem_cons.mp hc with rfl | hc
        · decide
        · exact hdigits fraction (by decide) hc
    · cases exponent with
      | none => cases hc
      | some exponent =>
        obtain ⟨negative, exponent⟩ := exponent
        rcases List.mem_cons.mp hc with rfl | hc
        · decide
        rcases List.mem_append.mp hc with hc | hc
        · cases negative with
          | false => cases hc
          | true =>
            rw [List.mem_singleton.mp hc]
            decide
        · exact hdigits exponent (by decide) hc

theorem longest_digits (digits : Digits 10) (hafter : EndsLiteral after) :
    (Numeral.decimal digits none none).Longest (digits.chars ++ after) := by
  have htext : (Numeral.decimal digits none none).text = digits.chars := by
    simp [Numeral.text, fractionText, exponentText]
  refine ⟨htext ▸ List.prefix_append _ _, fun other hother => ?_⟩
  rw [htext]
  by_contra hlong
  cases after with
  | nil =>
    have hle := hother.length_le
    rw [List.append_nil] at hle
    exact hlong hle
  | cons c cs =>
    have hprefix : digits.chars ++ [c] <+: digits.chars ++ c :: cs := ⟨cs, by simp⟩
    have hgoes := List.prefix_of_prefix_length_le hprefix hother (by simp; omega)
    have hmem : c ∈ other.text := hgoes.subset (by simp)
    exact (hafter c rfl).elim (mem_numeral hmem).1 (mem_numeral hmem).2

/-- Digits with a sign are one token; behind an operand a minus sign needs a blank. -/
theorem lexOne_integer {fromString : List Char → Int → Int} (hFrom : ReadsDigits fromString)
    (hbefore : ∀ c ∈ before, isSpace c = true) (hafter : EndsLiteral after) (negative : Bool)
    (digits : Digits 10)
    (hsign : endsOperand st.prevReturnedKind = false ∨ before ≠ [])
    (hst : st.cursor.rest = before ++ (signText negative ++ digits.chars ++ after)) :
    (lexOne stod st).1.kind = .integer ∧
      (lexOne stod st).1.integer fromString = signed negative (digits.value : Int) ∧
      (lexOne stod st).2.cursor.rest = after := by
  obtain ⟨d, ds, hdigits⟩ := List.exists_cons_of_ne_nil digits.nonempty
  have hd : d.isDigit = true := digits.isDigit d (by rw [hdigits]; exact List.mem_cons_self)
  obtain ⟨c, cs, hsource, hspace, hquote, hnumber⟩ : ∃ c cs,
      signText negative ++ digits.chars ++ after = c :: cs ∧ isSpace c = false ∧ c ≠ '"' ∧
        numberSign st.prevReturnedKind (decide (before ≠ [])) (c :: cs) = some negative := by
    rw [hdigits]
    cases negative with
    | true =>
      refine ⟨'-', d :: ds ++ after, rfl, by decide, by decide, ?_⟩
      simp [numberSign, hd, hsign, show Char.isDigit '-' = false by decide]
    | false =>
      refine ⟨d, ds ++ after, rfl, ?_, ?_, ?_⟩
      · rw [Bool.eq_false_iff]
        intro hspace
        have hnot := not_inName_of_isSpace hspace
        simp [inName, Char.isAlphanum, hd] at hnot
      · rintro rfl
        exact absurd hd (by decide)
      · simp [numberSign, hd]
  rw [hsource] at hst
  obtain ⟨cur, hcur, blank, hone⟩ := lexOne_at stod hbefore hspace hquote hst
  have htoken : lexToken stod st.prevReturnedKind (decide (before ≠ [])) c cur = _ :=
    lexToken_number hcur hnumber
  have hrest : (if negative then cur.advance else cur).rest = digits.chars ++ after := by
    rw [rest_unsigned, hcur, ← hsource]
    cases negative <;> rfl
  have hlongest := longest_digits digits hafter
  rw [← hrest] at hlongest
  obtain ⟨hstarts, hmeans⟩ : _ ∧ (Means _ stod negative _ _ ↔ _) :=
    means_iff_fits hFrom hlongest
  have hMeans := hmeans.mpr (fits_of_exponent rfl)
  have hkind := hMeans.accepted ⟨rfl, fun e h => by cases h⟩ (Nat.zero_le _)
  have htext : (Numeral.decimal digits none none).text = digits.chars := by
    simp [Numeral.text, fractionText, exponentText]
  rw [hone, htoken]
  refine ⟨hkind, ?_, ?_⟩
  · have hsame := (hMeans.integer hkind).2
    have hvalue : (Numeral.decimal digits none none).value = ((digits.value : Int) : ℚ) := by
      simp [Numeral.value, mantissa, exponentValue]
    rw [hvalue, ← signed_intCast] at hsame
    exact_mod_cast hsame
  · rw [htext, hrest] at hstarts
    exact (List.append_cancel_left hstarts).symm

/-- `#(` is one token. -/
theorem lexOne_open (hbefore : ∀ c ∈ before, isSpace c = true)
    (hst : st.cursor.rest = before ++ '#' :: '(' :: after) :
    (lexOne stod st).1.kind = .hashLParen ∧ (lexOne stod st).2.prevReturnedKind = .hashLParen ∧
      (lexOne stod st).2.cursor.rest = after := by
  obtain ⟨cur, hcur, blank, hone⟩ := lexOne_at stod hbefore (c := '#') (by decide)
    (by decide) hst
  have htoken : lexToken stod st.prevReturnedKind (decide (before ≠ [])) '#' cur
      = (token .hashLParen "#(".toList cur.line cur.column, cur.advance.advance) := by
    have hname : startsName '#' = false := by decide
    have hdigit : Char.isDigit '#' = false := by decide
    simp [lexToken, hname, hdigit, Cursor.lookahead, hcur]
  rw [hone, htoken]
  refine ⟨rfl, rfl, ?_⟩
  show cur.advance.advance.rest = after
  rw [Cursor.rest_advance, Cursor.rest_advance, hcur]
  rfl

theorem lexOne_close (hst : st.cursor.rest = ')' :: after) :
    (lexOne stod st).1.kind = .rParen ∧ (lexOne stod st).2.cursor.rest = after := by
  obtain ⟨cur, hcur, blank, hone⟩ := lexOne_at stod blanks_nil (by decide) (by decide) hst
  have htoken : lexToken stod st.prevReturnedKind (decide (([] : List Char) ≠ [])) ')' cur
      = (token .rParen [')'] cur.line cur.column, cur.advance) := by
    have hname : startsName ')' = false := by decide
    have hdigit : Char.isDigit ')' = false := by decide
    simp [lexToken, hname, hdigit]
  rw [hone, htoken]
  refine ⟨rfl, ?_⟩
  show cur.advance.rest = after
  rw [Cursor.rest_advance, hcur]
  rfl

/-- Bytes from 128 on begin no token. -/
theorem lexOne_highByte (hc : 128 ≤ c.toNat) (hst : st.cursor.rest = c :: after) :
    (lexOne stod st).1.kind = .error := by
  have hne : ∀ d : Char, d.toNat < 128 → c ≠ d := by
    rintro d hd rfl
    omega
  have hletter : c.isAlpha = false ∧ c.isDigit = false := by
    constructor
    · rw [Bool.eq_false_iff]
      intro halpha
      rcases (Bool.or_eq_true c.isUpper c.isLower).mp halpha with hupper | hlower
      · have hbounds : 65 ≤ c.toNat ∧ c.toNat ≤ 90 := of_decide_eq_true hupper
        omega
      · obtain ⟨-, hle⟩ := (Bool.and_eq_true _ _).mp hlower
        have hbound : c.toNat ≤ 122 := of_decide_eq_true hle
        omega
    · rw [Bool.eq_false_iff]
      intro hdigit
      rw [Char.isDigit, Bool.and_eq_true, decide_eq_true_eq, decide_eq_true_eq] at hdigit
      have hbounds : 48 ≤ c.toNat ∧ c.toNat ≤ 57 := hdigit
      omega
  have hspace : isSpace c = false := by
    simp [isSpace, hne]
  obtain ⟨cur, hcur, blank, hone⟩ := lexOne_at stod blanks_nil hspace (hne _ (by decide)) hst
  have hoperator : isOperatorChar c = false := by
    rw [Bool.eq_false_iff]
    intro hop
    have hmem : c ∈ "+*/\\&,@=~<>%?!-".toList := by
      simpa only [isOperatorChar, List.contains_iff_mem] using hop
    have hall : ("+*/\\&,@=~<>%?!-".toList.all fun d => d.toNat < 128) = true := by decide
    have hlt : c.toNat < 128 := of_decide_eq_true (List.all_eq_true.mp hall c hmem)
    omega
  have hkind : (lexToken stod st.prevReturnedKind (decide (([] : List Char) ≠ [])) c cur).1.kind
      = .error := by
    have hname : startsName c = false := by simp [startsName, hletter.1, hne]
    simp [lexToken, hname, hletter.2, hoperator, hne, makeError, token]
  rw [hone]
  exact hkind

end Tokens

end ProtoST.Frontend.Literals

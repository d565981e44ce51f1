import ProtoST.Lib.Lookahead
import Mathlib.Algebra.Group.Nat.Defs
import Mathlib.Data.List.TakeWhile
import Mathlib.Order.Basic
import Mathlib.Tactic.Common

/-!
# The lexer

`frontend/Lexer.cpp`.  A source is a list of bytes, each the `Char` of its code; the
classes of `<cctype>` are those of the C locale, which has no letters or blanks beyond
ASCII.  `std::stod` is a parameter: the double a decimal text denotes, and `none` when it
is out of range.

The members of `Lexer` that `nextImpl_` sets for the token it lexes (`blankBefore_`,
`unterminatedComment_` and its position) are answered by the functions that compute them.

## Main results

* `lexOne_progress` — a token other than the end of file takes a byte of the source.
* `lexOne_endOfFile` — once the end of file is answered, it is answered again.
-/

namespace ProtoST.Frontend.Lexer

open ProtoST.Lib

/-! ## Tokens -/

inductive TokenKind where
  | integer | float | string | char | symbol | true | false | nil
  | identifier | keyword | binaryOp
  | lParen | rParen | lBracket | rBracket | lBrace | rBrace | hashLParen
  | pipe | period | semicolon | caret | assign | colon | gtGt
  | endOfFile | error
  deriving DecidableEq, Repr

structure Token where
  kind : TokenKind
  text : List Char
  intValue : Int
  floatValue : BitVec 64
  line : Nat
  column : Nat
  blankLineBefore : Bool
  large : Bool
  radix : Nat
  deriving DecidableEq

/-- A token with the defaults of `Token.h`. -/
def token (kind : TokenKind) (text : List Char) (line column : Nat) : Token where
  kind := kind
  text := text
  intValue := 0
  floatValue := 0
  line := line
  column := column
  blankLineBefore := false
  large := false
  radix := 10

/-- `makeError`. -/
def makeError (message : String) (line column : Nat) : Token :=
  token .error message.toList line column

/-! ## The position in the source -/

/-- The source from `pos_` on, with `line_` and `col_`. -/
structure Cursor where
  rest : List Char
  line : Nat
  column : Nat
  deriving DecidableEq

namespace Cursor

/-- `Lexer::advance`. -/
def advance (cur : Cursor) : Cursor :=
  match cur.rest with
  | [] => cur
  | c :: cs => if c = '\n' then ⟨cs, cur.line + 1, 1⟩ else ⟨cs, cur.line, cur.column + 1⟩

def advanceBy : Nat → Cursor → Cursor
  | 0, cur => cur
  | n + 1, cur => advanceBy n cur.advance

/-- `Lexer::lookahead`. -/
def lookahead (cur : Cursor) : Char := cur.rest.tail.headD '\x00'

/-- The loop that takes the characters of a class. -/
def scan (p : Char → Bool) (cur : Cursor) : List Char × Cursor :=
  (cur.rest.takeWhile p, cur.advanceBy (cur.rest.takeWhile p).length)

@[simp] theorem rest_advance (cur : Cursor) : cur.advance.rest = cur.rest.tail := by
  obtain ⟨rest, line, column⟩ := cur
  cases rest with
  | nil => rfl
  | cons c cs =>
    unfold advance
    dsimp only
    split <;> rfl

@[simp] theorem rest_advanceBy (n : Nat) (cur : Cursor) :
    (cur.advanceBy n).rest = cur.rest.drop n := by
  induction n generalizing cur with
  | zero => rfl
  | succ n ih => rw [advanceBy, ih, rest_advance, List.drop_tail]

theorem length_advance_le (cur : Cursor) : cur.advance.rest.length ≤ cur.rest.length := by
  simp

theorem length_advanceBy_le (n : Nat) (cur : Cursor) :
    (cur.advanceBy n).rest.length ≤ cur.rest.length := by
  simp

@[simp] theorem rest_scan (p : Char → Bool) (cur : Cursor) :
    (cur.scan p).2.rest = cur.rest.dropWhile p := by
  rw [scan, rest_advanceBy]
  have hsplit := List.takeWhile_append_dropWhile (p := p) (l := cur.rest)
  calc cur.rest.drop (cur.rest.takeWhile p).length
      = (cur.rest.takeWhile p ++ cur.rest.dropWhile p).drop (cur.rest.takeWhile p).length := by
        rw [hsplit]
    _ = cur.rest.dropWhile p := List.drop_left

@[simp] theorem scan_fst (p : Char → Bool) (cur : Cursor) :
    (cur.scan p).1 = cur.rest.takeWhile p := rfl

end Cursor

/-! ## Character classes -/

/-- `std::isspace`. -/
def isSpace (c : Char) : Bool :=
  c = ' ' || c = '\t' || c = '\n' || c = '\x0b' || c = '\x0c' || c = '\r'

/-- `std::isalpha`, or an underscore. -/
def startsName (c : Char) : Bool := c.isAlpha || c = '_'

/-- `std::isalnum`, or an underscore. -/
def inName (c : Char) : Bool := c.isAlphanum || c = '_'

/-- `isOperatorChar`. -/
def isOperatorChar (c : Char) : Bool :=
  "+*/\\&,@=~<>%?!-".toList.contains c

/-- `binChars` of `lexSymbol`. -/
def isBinChar (c : Char) : Bool := "+-*/=~<>&|@,".toList.contains c

/-- The value of a digit, as `isDigitIn` reads it. -/
def digitValue (c : Char) : Nat :=
  if c.isDigit then c.toNat - '0'.toNat
  else if c.isAlpha then c.toUpper.toNat - 'A'.toNat + 10
  else 99

def isDigitIn (base : Nat) (c : Char) : Bool := digitValue c < base

/-- The number that digits denote. -/
def natOf (base : Nat) (digits : List Char) : Nat :=
  digits.foldl (fun n c => n * base + digitValue c) 0

/-- `std::stoi` of decimal digits. -/
def stoi (digits : List Char) : Option Nat :=
  if natOf 10 digits < 2 ^ 31 then some (natOf 10 digits) else none

/-- `std::stoll` of digits with a sign. -/
def stoll (negative : Bool) (base : Nat) (digits : List Char) : Option Int :=
  if negative then
    if natOf base digits ≤ 2 ^ 63 then some (-natOf base digits) else none
  else if natOf base digits ≤ 2 ^ 63 - 1 then some (natOf base digits) else none

/-! ## Whitespace and comments -/

/-- `skipWhitespace`, with the position of the comment it is in.  It answers the position
of a comment that is not closed. -/
def skipWhitespace : Option (Nat × Nat) → Nat → Nat → List Char → Option (Nat × Nat) × Cursor
  | open?, line, column, [] => (open?, ⟨[], line, column⟩)
  | none, line, column, c :: cs =>
      if isSpace c then
        if c = '\n' then skipWhitespace none (line + 1) 1 cs
        else skipWhitespace none line (column + 1) cs
      else if c = '"' then skipWhitespace (some (line, column)) line (column + 1) cs
      else (none, ⟨c :: cs, line, column⟩)
  | some start, line, column, c :: cs =>
      if c = '"' then skipWhitespace none line (column + 1) cs
      else if c = '\n' then skipWhitespace (some start) (line + 1) 1 cs
      else skipWhitespace (some start) line (column + 1) cs

/-- `containsBlankLine`: the loop with its three flags. -/
def containsBlankLine (sawNewline lineHasContent inComment : Bool) : List Char → Bool
  | [] => false
  | c :: cs =>
      if c = '"' then containsBlankLine sawNewline true (!inComment) cs
      else if c = '\n' then
        if sawNewline && !lineHasContent then true
        else containsBlankLine true inComment inComment cs
      else containsBlankLine sawNewline (lineHasContent || inComment || !isSpace c) inComment cs

/-! ## The tokens of a name, a string, a character and a symbol -/

/-- `lexIdentifier`. -/
def lexIdentifier (cur : Cursor) : Token × Cursor :=
  let (name, after) := cur.scan inName
  if after.rest.head? = some ':' ∧ after.rest.tail.head? ≠ some '=' then
    (token .keyword (name ++ [':']) cur.line cur.column, after.advance)
  else
    let kind :=
      if name = "true".toList then .true
      else if name = "false".toList then .false
      else if name = "nil".toList then .nil
      else .identifier
    (token kind name cur.line cur.column, after)

/-- The loop of `lexString`: the text, and the bytes up to the closing quote. -/
def stringBody : List Char → Option (List Char × Nat)
  | [] => none
  | '\'' :: '\'' :: cs => (stringBody cs).map fun (out, n) => ('\'' :: out, n + 2)
  | '\'' :: _ => some ([], 1)
  | c :: cs => (stringBody cs).map fun (out, n) => (c :: out, n + 1)

/-- `lexString`. -/
def lexString (cur : Cursor) : Token × Cursor :=
  let body := cur.advance
  match stringBody body.rest with
  | some (out, n) => (token .string out cur.line cur.column, body.advanceBy n)
  | none => (makeError "unterminated string literal" cur.line cur.column,
      body.advanceBy body.rest.length)

/-- `lexChar`. -/
def lexChar (cur : Cursor) : Token × Cursor :=
  let after := cur.advance
  match after.rest with
  | [] => (makeError "unterminated char literal" cur.line cur.column, after)
  | c :: _ => (token .char [c] cur.line cur.column, after.advance)

/-- The segments `name:` of `lexSymbol` after its first name; `fuel` bounds their
number. -/
def symbolSegments : Nat → Cursor → List Char × Cursor
  | 0, cur => ([], cur)
  | fuel + 1, cur =>
      if cur.rest.head? = some ':' ∧ cur.rest.tail.head? ≠ some '=' then
        let (name, after) := cur.advance.scan inName
        let (more, last) := symbolSegments fuel after
        (':' :: (name ++ more), last)
      else ([], cur)

/-- `lexSymbol`. -/
def lexSymbol (cur : Cursor) : Token × Cursor :=
  let after := cur.advance
  match after.rest with
  | [] => (makeError "incomplete symbol" cur.line cur.column, after)
  | c :: cs =>
      if startsName c then
        let (name, named) := after.scan inName
        let (more, last) := symbolSegments named.rest.length named
        (token .symbol (name ++ more) cur.line cur.column, last)
      else if isBinChar c then
        match cs with
        | d :: _ =>
            if isBinChar d then
              (token .symbol [c, d] cur.line cur.column, after.advance.advance)
            else (token .symbol [c] cur.line cur.column, after.advance)
        | [] => (token .symbol [c] cur.line cur.column, after.advance)
      else (makeError "malformed symbol literal" cur.line cur.column, after)

/-! ## Numbers -/

section Numbers

variable (stod : List Char → Option (BitVec 64))

/-- The token of a radix literal. -/
def radixToken (negative : Bool) (digits rd : List Char) (base line column : Nat) : Token :=
  let sign := if negative then ['-'] else []
  match stoll false base rd with
  | some v =>
      { token .integer (sign ++ digits ++ 'r' :: rd) line column with
          intValue := if negative then -v else v }
  | none => { token .integer (sign ++ rd) line column with large := true, radix := base }

/-- A radix literal, after its base. -/
def lexRadix (negative : Bool) (digits : List Char) (base : Nat) (line column : Nat)
    (cur : Cursor) : Token × Cursor :=
  let (rd, after) := cur.advance.scan (isDigitIn base)
  (radixToken negative digits (rd.map Char.toUpper) base line column, after)

/-- The digits after a point, when a digit follows it. -/
def lexFraction (cur : Cursor) : Option (List Char) × Cursor :=
  match cur.rest with
  | '.' :: d :: _ =>
      if d.isDigit then
        let (frac, after) := cur.advance.scan Char.isDigit
        (some frac, after)
      else (none, cur)
  | _ => (none, cur)

/-- The exponent with its sign, when a digit follows. -/
def lexExponent (cur : Cursor) : List Char × Cursor :=
  match cur.rest with
  | 'e' :: '-' :: d :: _ =>
      if d.isDigit then
        let (exponent, after) := cur.advance.advance.scan Char.isDigit
        ('-' :: exponent, after)
      else ([], cur)
  | 'e' :: d :: _ =>
      if d.isDigit then
        let (exponent, after) := cur.advance.scan Char.isDigit
        (exponent, after)
      else ([], cur)
  | _ => ([], cur)

/-- A literal with a fraction or an exponent left: a Float. -/
def floatToken (text : List Char) (line column : Nat) : Token :=
  match stod text with
  | some v => { token .float text line column with floatValue := v }
  | none => makeError "float literal out of range" line column

/-- An integer literal. -/
def integerToken (negative : Bool) (digits : List Char) (line column : Nat) : Token :=
  let text := (if negative then ['-'] else []) ++ digits
  match stoll negative 10 digits with
  | some v => { token .integer text line column with intValue := v }
  | none => { token .integer text line column with large := true, radix := 10 }

/-- The literal of the digits, the fraction and the exponent. -/
def decimalToken (negative : Bool) (digits : List Char) (frac : Option (List Char))
    (exponent : List Char) (line column : Nat) : Token :=
  let sign := if negative then ['-'] else []
  match frac with
  | some frac =>
      floatToken stod (sign ++ digits ++ (if frac = [] then [] else '.' :: frac) ++
        (if exponent = [] then [] else 'e' :: exponent)) line column
  | none =>
      if exponent = [] then integerToken negative digits line column
      else if exponent.head? = some '-' then
        floatToken stod (sign ++ digits ++ 'e' :: exponent) line column
      else
        let e := (stoi exponent).getD 400
        if e > 400 then makeError "integer literal exponent too large" line column
        else integerToken negative (digits ++ List.replicate e '0') line column

/-- `lexNumber`. -/
def lexNumber (negative : Bool) (cur : Cursor) : Token × Cursor :=
  let line := cur.line
  let column := if negative then cur.column - 1 else cur.column
  let (digits, after) := cur.scan Char.isDigit
  let base := (stoi digits).getD 0
  let plain : Token × Cursor :=
    let (frac, fracEnd) := lexFraction after
    let (exponent, last) := lexExponent fracEnd
    (decimalToken stod negative digits frac exponent line column, last)
  match after.rest with
  | 'r' :: d :: _ =>
      if 2 ≤ base ∧ base ≤ 36 ∧ isDigitIn base d then
        lexRadix negative digits base line column after
      else plain
  | _ => plain

/-! ## One token -/

/-- `prevEndsOperand`. -/
def endsOperand : TokenKind → Bool
  | .integer | .float | .string | .char | .symbol | .true | .false | .nil | .identifier
  | .rParen | .rBracket | .rBrace => true
  | _ => false

/-- The operator runs at the end of `nextImpl_`. -/
def lexOperator (cur : Cursor) : Token × Cursor :=
  let (op, after) := cur.scan fun c => isOperatorChar c && c ≠ '-'
  if op = ">>".toList then (token .gtGt op cur.line cur.column, after)
  else if op = "\\".toList ∨ op = "~".toList then
    ({ makeError "" cur.line cur.column with
        text := "unexpected '".toList ++ op ++ "'".toList }, after)
  else (token .binaryOp op cur.line cur.column, after)

/-- The token at a character that is neither white nor of a comment. -/
def lexToken (prev : TokenKind) (spaceBefore : Bool) (c : Char) (cur : Cursor) :
    Token × Cursor :=
  let single (kind : TokenKind) : Token × Cursor :=
    (token kind [c] cur.line cur.column, cur.advance)
  let double (kind : TokenKind) (text : String) : Token × Cursor :=
    (token kind text.toList cur.line cur.column, cur.advance.advance)
  if startsName c then lexIdentifier cur
  else if c.isDigit then lexNumber stod false cur
  else if c = '#' then
    if cur.lookahead = '(' then double .hashLParen "#(" else lexSymbol cur
  else if c = '\'' then lexString cur
  else if c = '$' then lexChar cur
  else if c = '(' then single .lParen
  else if c = ')' then single .rParen
  else if c = '[' then single .lBracket
  else if c = ']' then single .rBracket
  else if c = '\x7b' then single .lBrace
  else if c = '\x7d' then single .rBrace
  else if c = '.' then single .period
  else if c = ';' then single .semicolon
  else if c = '^' then single .caret
  else if c = '|' then single .pipe
  else if c = '-' then
    if cur.lookahead = '>' then double .binaryOp "->"
    else if cur.lookahead.isDigit ∧ (endsOperand prev = false ∨ spaceBefore) then
      lexNumber stod true cur.advance
    else single .binaryOp
  else if c = ':' then
    if cur.lookahead = '=' then double .assign ":=" else single .colon
  else if isOperatorChar c then lexOperator cur
  else
    ({ makeError "" cur.line cur.column with
        text := "unexpected character '".toList ++ c :: "'".toList }, cur.advance)

/-- `nextImpl_`, with `blankBefore_`. -/
def nextImpl (prev : TokenKind) (cur : Cursor) : Token × Bool × Cursor :=
  let (open?, after) := skipWhitespace none cur.line cur.column cur.rest
  let skipped := cur.rest.take (cur.rest.length - after.rest.length)
  let blank := containsBlankLine false true false skipped
  match open? with
  | some (line, column) =>
      (makeError "unterminated comment (opened here)" line column, blank, after)
  | none =>
      match after.rest with
      | [] => (token .endOfFile [] after.line after.column, blank, after)
      | c :: _ =>
          let (t, last) := lexToken stod prev (skipped ≠ []) c after
          (t, blank, last)

/-! ## The lexer -/

/-- What `lexOne` goes on from: the position, and `prevReturnedKind_`. -/
structure State where
  cursor : Cursor
  prevReturnedKind : TokenKind
  deriving DecidableEq

/-- `Lexer::lexOne`. -/
def lexOne (s : State) : Token × State :=
  let (t, blank, cur) := nextImpl stod s.prevReturnedKind s.cursor
  ({ t with blankLineBefore := blank }, ⟨cur, t.kind⟩)

/-- The constructor: an interpreter line is skipped. -/
def State.start (source : List Char) : State where
  cursor :=
    ⟨if source.take 2 = "#!".toList then source.dropWhile (· ≠ '\n') else source, 1, 1⟩
  prevReturnedKind := .endOfFile

end Numbers

/-! ## Progress -/

section Progress

variable {stod : List Char → Option (BitVec 64)} {cur : Cursor} {c : Char} {cs : List Char}

theorem length_tail_lt {l : List Char} {d : Char} {ds : List Char} (h : l = d :: ds) :
    l.tail.length < l.length := by
  rw [h]
  simp

theorem length_rest_scan_le (p : Char → Bool) (cur : Cursor) :
    (cur.scan p).2.rest.length ≤ cur.rest.length := by
  rw [Cursor.rest_scan]
  exact List.length_dropWhile_le ..

/-- The scan of a class that the first character is in. -/
theorem length_rest_scan_lt {p : Char → Bool} (hcur : cur.rest = c :: cs) (hc : p c = true) :
    (cur.scan p).2.rest.length < cur.rest.length := by
  rw [Cursor.rest_scan, hcur, List.dropWhile_cons_of_pos hc]
  have := List.length_dropWhile_le p cs
  rw [List.length_cons]
  omega

theorem length_rest_advance_lt (hcur : cur.rest = c :: cs) :
    cur.advance.rest.length < cur.rest.length := by
  rw [Cursor.rest_advance]
  exact length_tail_lt hcur

theorem length_rest_advance_advance_lt (hcur : cur.rest = c :: cs) :
    cur.advance.advance.rest.length < cur.rest.length :=
  lt_of_le_of_lt (Cursor.length_advance_le _) (length_rest_advance_lt hcur)

theorem lexIdentifier_lt (hcur : cur.rest = c :: cs) (hc : startsName c = true) :
    (lexIdentifier cur).2.rest.length < cur.rest.length := by
  have hname : inName c = true := by
    simp only [startsName, inName, Char.isAlphanum, Bool.or_eq_true] at hc ⊢
    tauto
  have hscan := length_rest_scan_lt hcur hname
  unfold lexIdentifier
  dsimp only
  split
  · exact lt_of_le_of_lt (Cursor.length_advance_le _) hscan
  · exact hscan

theorem lexString_lt (hcur : cur.rest = c :: cs) :
    (lexString cur).2.rest.length < cur.rest.length := by
  unfold lexString
  dsimp only
  split
  · exact lt_of_le_of_lt (Cursor.length_advanceBy_le _ _) (length_rest_advance_lt hcur)
  · exact lt_of_le_of_lt (Cursor.length_advanceBy_le _ _) (length_rest_advance_lt hcur)

theorem lexChar_lt (hcur : cur.rest = c :: cs) :
    (lexChar cur).2.rest.length < cur.rest.length := by
  unfold lexChar
  dsimp only
  split
  · exact length_rest_advance_lt hcur
  · exact length_rest_advance_advance_lt hcur

theorem symbolSegments_le (fuel : Nat) (cur : Cursor) :
    (symbolSegments fuel cur).2.rest.length ≤ cur.rest.length := by
  induction fuel generalizing cur with
  | zero => exact le_rfl
  | succ fuel ih =>
    unfold symbolSegments
    split
    · have hscan := length_rest_scan_le inName cur.advance
      have hadvance := Cursor.length_advance_le cur
      exact (ih _).trans (hscan.trans hadvance)
    · exact le_rfl

theorem lexSymbol_lt (hcur : cur.rest = c :: cs) :
    (lexSymbol cur).2.rest.length < cur.rest.length := by
  have hadvance := length_rest_advance_lt hcur
  unfold lexSymbol
  dsimp only
  split
  · exact hadvance
  · split
    · exact lt_of_le_of_lt (symbolSegments_le _ _)
        (lt_of_le_of_lt (length_rest_scan_le _ _) hadvance)
    · split
      · split
        · split
          · exact lt_of_le_of_lt (Cursor.length_advance_le _) (length_rest_advance_advance_lt hcur)
          · exact length_rest_advance_advance_lt hcur
        · exact length_rest_advance_advance_lt hcur
      · exact hadvance

theorem lexRadix_le (negative : Bool) (digits : List Char) (base line column : Nat)
    (cur : Cursor) :
    (lexRadix negative digits base line column cur).2.rest.length ≤ cur.rest.length := by
  have hscan := length_rest_scan_le (isDigitIn base) cur.advance
  have hadvance := Cursor.length_advance_le cur
  exact hscan.trans hadvance

theorem lexFraction_le (cur : Cursor) : (lexFraction cur).2.rest.length ≤ cur.rest.length := by
  unfold lexFraction
  split
  · split
    · exact (length_rest_scan_le _ _).trans (Cursor.length_advance_le _)
    · exact le_rfl
  · exact le_rfl

theorem lexExponent_le (cur : Cursor) : (lexExponent cur).2.rest.length ≤ cur.rest.length := by
  have hadvance := Cursor.length_advance_le cur
  unfold lexExponent
  split
  · split
    · exact (length_rest_scan_le _ _).trans ((Cursor.length_advance_le _).trans hadvance)
    · exact le_rfl
  · split
    · exact (length_rest_scan_le _ _).trans hadvance
    · exact le_rfl
  · exact le_rfl

/-- A number takes its digits. -/
theorem lexNumber_le (negative : Bool) (cur : Cursor) :
    (lexNumber stod negative cur).2.rest.length ≤ (cur.scan Char.isDigit).2.rest.length := by
  have hplain : (lexExponent (lexFraction (cur.scan Char.isDigit).2).2).2.rest.length ≤
      (cur.scan Char.isDigit).2.rest.length :=
    (lexExponent_le _).trans (lexFraction_le _)
  unfold lexNumber
  dsimp only
  split
  · split
    · exact lexRadix_le ..
    · exact hplain
  · exact hplain

theorem lexOperator_lt (hcur : cur.rest = c :: cs) (hc : isOperatorChar c = true)
    (hminus : c ≠ '-') : (lexOperator cur).2.rest.length < cur.rest.length := by
  have hscan : (cur.scan fun c => isOperatorChar c && c ≠ '-').2.rest.length <
      cur.rest.length := length_rest_scan_lt hcur (by simp [hc, hminus])
  unfold lexOperator
  dsimp only
  split
  · exact hscan
  · split
    · exact hscan
    · exact hscan

/-- Both branches of a conditional have the property. -/
theorem ite_rule {α : Type} {P : α → Prop} {p : Prop} [Decidable p] {a b : α}
    (ha : p → P a) (hb : ¬ p → P b) : P (if p then a else b) := by
  by_cases h : p
  · rw [if_pos h]
    exact ha h
  · rw [if_neg h]
    exact hb h

/-- A property of what `lexToken` answers, from its routines and the tokens it makes
itself. -/
theorem lexToken_rule {P : Token × Cursor → Prop} {prev : TokenKind} {spaceBefore : Bool}
    (hname : startsName c = true → P (lexIdentifier cur))
    (hdigit : c.isDigit = true → P (lexNumber stod false cur))
    (hnegative : P (lexNumber stod true cur.advance))
    (hsymbol : P (lexSymbol cur)) (hstring : P (lexString cur)) (hchar : P (lexChar cur))
    (hoperator : isOperatorChar c = true → c ≠ '-' → P (lexOperator cur))
    (hsingle : ∀ kind text, kind ≠ .endOfFile → (kind = .binaryOp → text = ['-']) →
      P (token kind text cur.line cur.column, cur.advance))
    (hdouble : ∀ kind text, kind ≠ .endOfFile → (kind = .binaryOp → text = "->".toList) →
      P (token kind text cur.line cur.column, cur.advance.advance)) :
    P (lexToken stod prev spaceBefore c cur) := by
  have hone : ∀ kind, kind ≠ .endOfFile → kind ≠ .binaryOp →
      P (token kind [c] cur.line cur.column, cur.advance) :=
    fun kind heof hop => hsingle kind [c] heof fun h => absurd h hop
  have htwo : ∀ kind text, kind ≠ .endOfFile → kind ≠ .binaryOp →
      P (token kind text cur.line cur.column, cur.advance.advance) :=
    fun kind text heof hop => hdouble kind text heof fun h => absurd h hop
  unfold lexToken
  refine ite_rule hname fun _ => ?_
  refine ite_rule hdigit fun _ => ?_
  refine ite_rule (fun _ => ite_rule (fun _ => htwo _ _ (by decide) (by decide)) fun _ => hsymbol)
    fun _ => ?_
  refine ite_rule (fun _ => hstring) fun _ => ?_
  refine ite_rule (fun _ => hchar) fun _ => ?_
  -- the punctuation
  iterate 10 refine ite_rule (fun _ => hone _ (by decide) (by decide)) fun _ => ?_
  refine ite_rule (fun hminus => ?_) fun hminus => ?_
  · refine ite_rule (fun _ => hdouble _ _ (by decide) fun _ => rfl) fun _ => ?_
    refine ite_rule (fun _ => hnegative) fun _ => hsingle _ _ (by decide) fun _ => ?_
    rw [hminus]
  refine ite_rule (fun _ => ?_) fun _ => ?_
  · exact ite_rule (fun _ => htwo _ _ (by decide) (by decide))
      fun _ => hone _ (by decide) (by decide)
  exact ite_rule (fun hop => hoperator hop hminus)
    fun _ => hsingle _ _ TokenKind.noConfusion TokenKind.noConfusion

/-- A token takes a byte of the source. -/
theorem lexToken_lt (prev : TokenKind) (spaceBefore : Bool) (hcur : cur.rest = c :: cs) :
    (lexToken stod prev spaceBefore c cur).2.rest.length < cur.rest.length := by
  have hone := length_rest_advance_lt hcur
  refine lexToken_rule (P := fun r => r.2.rest.length < cur.rest.length)
    (lexIdentifier_lt hcur) ?_ ?_ (lexSymbol_lt hcur) (lexString_lt hcur) (lexChar_lt hcur)
    (lexOperator_lt hcur) (fun _ _ _ _ => hone)
    (fun _ _ _ _ => length_rest_advance_advance_lt hcur)
  · intro hdigit
    exact lt_of_le_of_lt (lexNumber_le _ _) (length_rest_scan_lt hcur hdigit)
  · exact lt_of_le_of_lt ((lexNumber_le _ _).trans (length_rest_scan_le _ _)) hone

/-! ## The end of the file -/

theorem kind_integerToken (negative : Bool) (digits : List Char) (line column : Nat) :
    (integerToken negative digits line column).kind = .integer := by
  unfold integerToken
  dsimp only
  split <;> rfl

/-- A kind that the routines of the literals and names give. -/
def OfRoutine (kind : TokenKind) : Prop := kind ≠ .endOfFile ∧ kind ≠ .binaryOp

theorem kind_floatToken (text : List Char) (line column : Nat) :
    OfRoutine (floatToken stod text line column).kind := by
  unfold floatToken
  split
  · exact ⟨TokenKind.noConfusion, TokenKind.noConfusion⟩
  · exact ⟨TokenKind.noConfusion, TokenKind.noConfusion⟩

theorem kind_decimalToken (negative : Bool) (digits : List Char) (frac : Option (List Char))
    (exponent : List Char) (line column : Nat) :
    OfRoutine (decimalToken stod negative digits frac exponent line column).kind := by
  have hinteger : ∀ ds, OfRoutine (integerToken negative ds line column).kind := by
    intro ds
    rw [kind_integerToken]
    exact ⟨TokenKind.noConfusion, TokenKind.noConfusion⟩
  have herror : ∀ message, OfRoutine (makeError message line column).kind :=
    fun _ => ⟨TokenKind.noConfusion, TokenKind.noConfusion⟩
  unfold decimalToken
  dsimp only
  split
  · exact kind_floatToken _ _ _
  · by_cases hexponent : exponent = []
    · rw [if_pos hexponent]
      exact hinteger digits
    · rw [if_neg hexponent]
      by_cases hsign : exponent.head? = some '-'
      · rw [if_pos hsign]
        exact kind_floatToken _ _ _
      · rw [if_neg hsign]
        generalize (stoi exponent).getD 400 = e
        by_cases he : e > 400
        · rw [if_pos he]
          exact herror _
        · rw [if_neg he]
          exact hinteger _

theorem kind_radixToken (negative : Bool) (digits rd : List Char) (base line column : Nat) :
    (radixToken negative digits rd base line column).kind = .integer := by
  unfold radixToken
  generalize stoll false base rd = v
  cases v <;> rfl

theorem kind_lexNumber (negative : Bool) (cur : Cursor) :
    OfRoutine (lexNumber stod negative cur).1.kind := by
  have hplain : ∀ frac exponent line column, OfRoutine (decimalToken stod negative
      (cur.rest.takeWhile Char.isDigit) frac exponent line column).kind :=
    kind_decimalToken negative (cur.rest.takeWhile Char.isDigit)
  have hradix : ∀ rd base line column, OfRoutine (radixToken negative
      (cur.rest.takeWhile Char.isDigit) rd base line column).kind := by
    intro rd base line column
    rw [kind_radixToken]
    exact ⟨TokenKind.noConfusion, TokenKind.noConfusion⟩
  unfold lexNumber
  dsimp only [Cursor.scan_fst]
  split
  · exact ite_rule (P := fun r : Token × Cursor => OfRoutine r.1.kind)
      (fun _ => hradix _ _ _ _) fun _ => hplain _ _ _ _
  · exact hplain _ _ _ _

theorem kind_lexIdentifier (cur : Cursor) : OfRoutine (lexIdentifier cur).1.kind := by
  unfold lexIdentifier
  dsimp only
  split
  · exact ⟨TokenKind.noConfusion, TokenKind.noConfusion⟩
  · unfold token
    dsimp only
    split_ifs <;> exact ⟨TokenKind.noConfusion, TokenKind.noConfusion⟩

theorem kind_lexString (cur : Cursor) : OfRoutine (lexString cur).1.kind := by
  unfold lexString
  dsimp only
  split <;> exact ⟨TokenKind.noConfusion, TokenKind.noConfusion⟩

theorem kind_lexChar (cur : Cursor) : OfRoutine (lexChar cur).1.kind := by
  unfold lexChar
  dsimp only
  split <;> exact ⟨TokenKind.noConfusion, TokenKind.noConfusion⟩

theorem kind_lexSymbol (cur : Cursor) : OfRoutine (lexSymbol cur).1.kind := by
  unfold lexSymbol
  dsimp only
  split
  · exact ⟨TokenKind.noConfusion, TokenKind.noConfusion⟩
  · split
    · exact ⟨TokenKind.noConfusion, TokenKind.noConfusion⟩
    · split
      · split
        · split <;> exact ⟨TokenKind.noConfusion, TokenKind.noConfusion⟩
        · exact ⟨TokenKind.noConfusion, TokenKind.noConfusion⟩
      · exact ⟨TokenKind.noConfusion, TokenKind.noConfusion⟩

/-- A token that is no end of file, and a run of operator characters if it is an
operator. -/
def RunIfOperator (t : Token) : Prop :=
  t.kind ≠ .endOfFile ∧ (t.kind = .binaryOp → t.text ≠ [] ∧
    ∀ d ∈ t.text, isOperatorChar d = true)

theorem OfRoutine.runIfOperator {t : Token} (h : OfRoutine t.kind) : RunIfOperator t :=
  ⟨h.1, fun hop => absurd hop h.2⟩

theorem runIfOperator_lexOperator (hcur : cur.rest = c :: cs) (hc : isOperatorChar c = true)
    (hminus : c ≠ '-') : RunIfOperator (lexOperator cur).1 := by
  have hrun : cur.rest.takeWhile (fun c => isOperatorChar c && c ≠ '-') =
      c :: cs.takeWhile (fun c => isOperatorChar c && c ≠ '-') := by
    rw [hcur, List.takeWhile_cons_of_pos (by simp [hc, hminus])]
  unfold lexOperator
  refine ite_rule (P := fun r : Token × Cursor => RunIfOperator r.1)
    (fun _ => OfRoutine.runIfOperator ⟨TokenKind.noConfusion, TokenKind.noConfusion⟩)
    fun _ => ite_rule (P := fun r : Token × Cursor => RunIfOperator r.1)
      (fun _ => OfRoutine.runIfOperator ⟨TokenKind.noConfusion, TokenKind.noConfusion⟩)
      fun _ => ⟨TokenKind.noConfusion, fun _ => ⟨?_, fun d hd => ?_⟩⟩
  · intro hnil
    exact List.cons_ne_nil _ _ (hrun.symm.trans hnil)
  · have := List.mem_takeWhile_imp hd
    simp only [Bool.and_eq_true] at this
    exact this.1

theorem runIfOperator_lexToken (prev : TokenKind) (spaceBefore : Bool) (hcur : cur.rest = c :: cs) :
    RunIfOperator (lexToken stod prev spaceBefore c cur).1 := by
  refine lexToken_rule (P := fun r => RunIfOperator r.1)
    (fun _ => (kind_lexIdentifier cur).runIfOperator)
    (fun _ => (kind_lexNumber _ _).runIfOperator) (kind_lexNumber _ _).runIfOperator
    (kind_lexSymbol cur).runIfOperator (kind_lexString cur).runIfOperator
    (kind_lexChar cur).runIfOperator (runIfOperator_lexOperator hcur) ?_ ?_
  · intro kind text heof htext
    refine ⟨heof, fun hop => ?_⟩
    rw [show (token kind text cur.line cur.column).text = ['-'] from htext hop]
    exact ⟨by decide, List.all_eq_true.mp (by decide)⟩
  · intro kind text heof htext
    refine ⟨heof, fun hop => ?_⟩
    rw [show (token kind text cur.line cur.column).text = "->".toList from htext hop]
    exact ⟨by decide, List.all_eq_true.mp (by decide)⟩

theorem skipWhitespace_le (open? : Option (Nat × Nat)) (line column : Nat) (cs : List Char) :
    (skipWhitespace open? line column cs).2.rest.length ≤ cs.length := by
  fun_induction skipWhitespace open? line column cs <;> grind

/-- A comment that is not closed goes on to the end. -/
theorem rest_of_open {line column : Nat} {cs : List Char} {open? : Option (Nat × Nat)}
    {start : Nat × Nat} (h : (skipWhitespace open? line column cs).1 = some start) :
    (skipWhitespace open? line column cs).2.rest = [] ∧ (open? = none → cs ≠ []) := by
  fun_induction skipWhitespace open? line column cs <;> grind

theorem lexOne_cases (s : State) :
    ((lexOne stod s).1.kind = .endOfFile ∧ (lexOne stod s).2.cursor.rest = []) ∨
      ((lexOne stod s).1.kind ≠ .endOfFile ∧
        (lexOne stod s).2.cursor.rest.length < s.cursor.rest.length ∧
        RunIfOperator (lexOne stod s).1) := by
  have hle := skipWhitespace_le none s.cursor.line s.cursor.column s.cursor.rest
  unfold lexOne nextImpl
  dsimp only
  split
  · rename_i start hopen
    obtain ⟨hrest, hne⟩ := rest_of_open hopen
    right
    refine ⟨TokenKind.noConfusion, ?_, TokenKind.noConfusion, TokenKind.noConfusion⟩
    rw [hrest]
    exact List.length_pos_iff.mpr (hne rfl)
  · split
    · rename_i hrest
      left
      exact ⟨rfl, hrest⟩
    · rename_i c cs hrest
      right
      have hrun (spaceBefore : Bool) :
          RunIfOperator (lexToken stod s.prevReturnedKind spaceBefore c _).1 :=
        runIfOperator_lexToken _ _ hrest
      exact ⟨(hrun _).1, lt_of_lt_of_le (lexToken_lt _ _ hrest) hle, hrun _⟩

variable {s : State}

/-- **Progress.** A token other than the end of file takes a byte of the source. -/
theorem lexOne_progress (h : (lexOne stod s).1.kind ≠ .endOfFile) :
    (lexOne stod s).2.cursor.rest.length < s.cursor.rest.length := by
  rcases lexOne_cases s with ⟨heof, -⟩ | ⟨-, hlt, -⟩
  · exact absurd heof h
  · exact hlt

theorem rest_of_endOfFile (h : (lexOne stod s).1.kind = .endOfFile) :
    (lexOne stod s).2.cursor.rest = [] := by
  rcases lexOne_cases s with ⟨-, hrest⟩ | ⟨hne, -, -⟩
  · exact hrest
  · exact absurd h hne

/-- The text of an operator token is a run of operator characters. -/
theorem run_of_binaryOp (h : (lexOne stod s).1.kind = .binaryOp) :
    (lexOne stod s).1.text ≠ [] ∧ ∀ d ∈ (lexOne stod s).1.text, isOperatorChar d = true := by
  rcases lexOne_cases s with ⟨heof, -⟩ | ⟨-, -, hrun⟩
  · rw [heof] at h
    cases h
  · exact hrun.2 h

/-- At the end of the source there is nothing but the end of file. -/
theorem lexOne_of_rest_nil (h : s.cursor.rest = []) :
    (lexOne stod s).1.kind = .endOfFile := by
  by_contra hne
  have := lexOne_progress hne
  rw [h] at this
  exact absurd this (Nat.not_lt_zero _)

/-- Once the end of file is answered, it is answered again. -/
theorem lexOne_endOfFile (h : (lexOne stod s).1.kind = .endOfFile) :
    (lexOne stod (lexOne stod s).2).1.kind = .endOfFile :=
  lexOne_of_rest_nil (rest_of_endOfFile h)

end Progress

end ProtoST.Frontend.Lexer

namespace ProtoST.Frontend

/-- A lexer, with `lookahead_`. -/
abbrev Lexer := Lib.Ahead Lexer.State Lexer.Token

/-- `Lexer::Lexer`. -/
def Lexer.new (source : List Char) : Lexer := ⟨.start source, []⟩

end ProtoST.Frontend

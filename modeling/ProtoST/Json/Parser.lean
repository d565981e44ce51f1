import Mathlib

/-!
# The JSON module

`lib/json.st`: the scanner, the recursive-descent parser (`JSON parse:`) and the
renderer (`JSON stringify:`).  A String is its list of code points; the scanner keeps
the text from its cursor on and the cursor's position, which only the messages of the
errors read.  The loops and the nested calls of the parser carry a fuel.

Floats and their arithmetic are a parameter (`FloatOps`), and so is the depth of the
stack: a call always finds room.
-/

namespace ProtoST.Json

/-- A code point. -/
abbrev Code := Fin 0x110000

instance neZero_code : NeZero 0x110000 := ⟨by decide⟩

/-- A String. -/
abbrev Str := List Code

def ofChar (c : Char) : Code :=
  ⟨c.toNat, by
    rcases c.valid with h | h
    · exact Nat.lt_trans h (by decide)
    · exact h.2⟩

def ofString (s : String) : Str := s.toList.map ofChar

/-- What the parser answers. -/
inductive Value (F : Type) where
  | nil
  | boolean (b : Bool)
  | integer (n : Int)
  | float (x : F)
  | string (s : Str)
  | array (items : List (Value F))
  /-- The entries in the order in which the dictionary visits them. -/
  | dictionary (entries : List (Str × Value F))
  deriving Repr

/-- Floats. -/
class FloatOps (F : Type) where
  /-- `Integer>>asFloat` -/
  asFloat : Nat → F
  add : F → F → F
  div : F → F → F
  mul : F → F → F
  negated : F → F
  printString : F → Str
  equals : F → F → Bool
  equalsInteger : F → Int → Bool

instance : FloatOps Float where
  asFloat := Float.ofNat
  add := (· + ·)
  div := (· / ·)
  mul := (· * ·)
  negated := (- ·)
  printString x := ofString x.toString
  equals := (· == ·)
  equalsInteger x n := x == Float.ofInt n

/-- What the parser and the renderer signal. -/
inductive Signal where
  | error (messageText : Str)
  | messageNotUnderstood (selector : String)
  deriving DecidableEq, Repr

/-- Why a call does not answer. -/
inductive Stop where
  | signal (s : Signal)
  | fuel
  deriving DecidableEq, Repr

/-! ## The scanner -/

/-- `_JSONScanner` -/
structure Scanner where
  /-- `text` from the cursor on. -/
  rest : Str
  position : Nat
  deriving DecidableEq, Repr

/-- What a method of the parser answers, with the scanner it leaves. -/
abbrev Parse (α : Type) := Except Stop (α × Scanner)

/-- `_isWhitespace:` -/
def isWhitespace (c : Code) : Bool := c = 32 || c = 9 || c = 10 || c = 13

/-- `isDigitCode:` -/
def isDigitCode (c : Code) : Bool := 48 ≤ c.val && c.val ≤ 57

/-- `Character>>asString`.  The primitive hands a C string over, which ends at the first
zero. -/
def asString (c : Code) : Str := if c = 0 then [] else [c]

namespace Scanner

/-- `on:` -/
def on (aString : Str) : Scanner := ⟨aString, 1⟩

def atEnd (s : Scanner) : Bool := s.rest.isEmpty

def peek (s : Scanner) : Option Code := s.rest.head?

/-- `next` of a scanner that is not at its end. -/
def advance (s : Scanner) : Scanner := ⟨s.rest.tail, s.position + 1⟩

variable {α : Type}

def signalError (s : Scanner) (aMessage : Str) : Except Stop α :=
  .error (.signal (.error
    (ofString ("JSON parse error at position " ++ toString s.position ++ ": ") ++ aMessage)))

/-- The loop of `skipWhitespace`. -/
def skipFrom : Str → Nat → Scanner
  | [], p => ⟨[], p⟩
  | c :: rest, p => if isWhitespace c then skipFrom rest (p + 1) else ⟨c :: rest, p⟩

def skipWhitespace (s : Scanner) : Scanner := skipFrom s.rest s.position

/-- The loop of `expectLiteral: aString`, at what is left of it. -/
def expectLoop (aString : Str) : Str → Scanner → Except Stop Scanner
  | [], s => .ok s
  | x :: more, s =>
      match s.rest with
      | [] => s.signalError (ofString "expected " ++ aString)
      | c :: _ =>
          if c = x then expectLoop aString more s.advance
          else s.advance.signalError (ofString "expected " ++ aString)

def expectLiteral (s : Scanner) (aString : Str) : Except Stop Scanner :=
  expectLoop aString aString s

end Scanner

/-! ## Numbers -/

section Numbers

variable {F : Type} [FloatOps F] {σ : Type}

/-- A loop over the digits at the cursor. -/
def digitLoop (turn : σ → Nat → σ) : σ → Str → Nat → σ × Scanner
  | acc, [], p => (acc, ⟨[], p⟩)
  | acc, c :: rest, p =>
      if isDigitCode c then digitLoop turn (turn acc (c.val - 48)) rest (p + 1)
      else (acc, ⟨c :: rest, p⟩)

/-- `readDigits:requireOne:`.  The state of the loop is `value` and `count`. -/
def readDigits (s : Scanner) (requireOne : Bool) : Parse Nat :=
  let ((value, count), s) :=
    digitLoop (fun (value, count) d => (value * 10 + d, count + 1)) (0, 0) s.rest s.position
  if requireOne && count == 0 then s.signalError (ofString "expected a digit")
  else .ok (value, s)

/-- The optional fraction of `parseNumber:`, as `fracValue` and `fracScale`. -/
def readFraction (s : Scanner) : Parse (Option (Nat × Nat)) :=
  if s.peek = some (ofChar '.') then
    let s := s.advance
    let ((fracValue, fracScale), s) :=
      digitLoop (fun (value, scale) d => (value * 10 + d, scale * 10)) (0, 1) s.rest s.position
    if fracScale = 1 then s.signalError (ofString "expected digit after '.'")
    else .ok (some (fracValue, fracScale), s)
  else .ok (none, s)

/-- The optional exponent of `parseNumber:`, as `expNeg` and `expPart`. -/
def readExponent (s : Scanner) : Parse (Option (Bool × Nat)) :=
  if s.peek = some (ofChar 'e') ∨ s.peek = some (ofChar 'E') then
    let s := s.advance
    let s := if s.peek = some (ofChar '+') then s.advance else s
    let expNeg := s.peek = some (ofChar '-')
    let s := if expNeg then s.advance else s
    match readDigits s true with
    | .ok (expPart, s) => .ok (some (expNeg, expPart), s)
    | .error e => .error e
  else .ok (none, s)

/-- The `Float assembly` of `parseNumber:`. -/
def assemble (negative : Bool) (intPart fracValue fracScale : Nat) (expNeg : Bool)
    (expPart : Nat) : F :=
  let result := FloatOps.add (FloatOps.asFloat intPart)
    (FloatOps.div (FloatOps.asFloat fracValue) (FloatOps.asFloat fracScale))
  let factor := (fun factor => FloatOps.mul factor (FloatOps.asFloat 10))^[expPart]
    (FloatOps.asFloat 1)
  let result :=
    if 0 < expPart then
      if expNeg then FloatOps.div result factor else FloatOps.mul result factor
    else result
  if negative then FloatOps.negated result else result

/-- What `parseNumber:` answers for the parts it read. -/
def numberOf (negative : Bool) (intPart : Nat) (fraction : Option (Nat × Nat))
    (exponent : Option (Bool × Nat)) : Value F :=
  match fraction, exponent with
  | none, none => .integer (if negative then -intPart else intPart)
  | fraction, exponent =>
      let (fracValue, fracScale) := fraction.getD (0, 1)
      let (expNeg, expPart) := exponent.getD (false, 0)
      .float (assemble negative intPart fracValue fracScale expNeg expPart)

def parseNumber (s : Scanner) : Parse (Value F) :=
  let negative : Bool := s.peek = some (ofChar '-')
  let s := if negative then s.advance else s
  match readDigits s true with
  | .error e => .error e
  | .ok (intPart, s) =>
      match readFraction s with
      | .error e => .error e
      | .ok (fraction, s) =>
          match readExponent s with
          | .error e => .error e
          | .ok (exponent, s) => .ok (numberOf negative intPart fraction exponent, s)

end Numbers

/-! ## Strings -/

/-- `hexValue:forScanner:`.  Its statements read
`(code >= 48) and: [ code <= 57 ] ifTrue: [ ^ code - 48 ]`, and so each is one message
`and:ifTrue:` to a Boolean, which has no such method. -/
def hexValue (_aChar : Code) (_scanner : Scanner) : Except Stop Nat :=
  .error (.signal (.messageNotUnderstood "and:ifTrue:"))

/-- The loop of `parseUnicodeEscape:`, at the number of digits still to read. -/
def unicodeLoop : Nat → Nat → Scanner → Parse Nat
  | 0, code, s => .ok (code, s)
  | n + 1, code, s =>
      match s.rest with
      | [] => s.signalError (ofString "truncated \\\\u escape")
      | c :: _ =>
          match hexValue c s.advance with
          | .error e => .error e
          | .ok digit => unicodeLoop n (code * 16 + digit) s.advance

def parseUnicodeEscape (s : Scanner) : Parse Str :=
  match unicodeLoop 4 0 s with
  | .error e => .error e
  | .ok (code, s) =>
      if h : code < 0x110000 then .ok (asString ⟨code, h⟩, s)
      else .error (.signal (.error
        (ofString ("asCharacter: " ++ toString code ++ " is not a Unicode code point"))))

def parseEscape (s : Scanner) : Parse Str :=
  match s.rest with
  | [] => s.signalError (ofString "unterminated escape")
  | e :: _ =>
      if e = ofChar '"' then .ok ([ofChar '"'], s.advance)
      else if e = ofChar '\\' then .ok ([ofChar '\\'], s.advance)
      else if e = ofChar '/' then .ok ([ofChar '/'], s.advance)
      else if e = ofChar 'n' then .ok (asString 10, s.advance)
      else if e = ofChar 't' then .ok (asString 9, s.advance)
      else if e = ofChar 'r' then .ok (asString 13, s.advance)
      else if e = ofChar 'b' then .ok (asString 8, s.advance)
      else if e = ofChar 'f' then .ok (asString 12, s.advance)
      else if e = ofChar 'u' then parseUnicodeEscape s.advance
      else s.advance.signalError (ofString "invalid escape \\" ++ asString e)

/-- The loop of `parseString:`. -/
def stringLoop : Nat → Str → Scanner → Parse Str
  | 0, _, _ => .error .fuel
  | fuel + 1, result, s =>
      match s.rest with
      | [] => s.signalError (ofString "unterminated string")
      | c :: _ =>
          if c = ofChar '"' then .ok (result, s.advance)
          else if c = ofChar '\\' then
            match parseEscape s.advance with
            | .error e => .error e
            | .ok (e, s) => stringLoop fuel (result ++ e) s
          else if c.val < 32 then
            s.advance.signalError (ofString "control character in string")
          else stringLoop fuel (result ++ asString c) s.advance

/-- Every turn of the loop takes a character. -/
def parseString (s : Scanner) : Parse Str :=
  let s := s.advance
  stringLoop (s.rest.length + 1) [] s

/-! ## Values -/

section Values

variable {F : Type} [FloatOps F]

/-- `Dictionary>>at:put:`.  A key that is there keeps its place. -/
def put (dict : List (Str × Value F)) (key : Str) (value : Value F) : List (Str × Value F) :=
  match dict with
  | [] => [(key, value)]
  | (k, v) :: rest => if k = key then (k, value) :: rest else (k, v) :: put rest key value

mutual

def parseValue : Nat → Scanner → Parse (Value F)
  | 0, _ => .error .fuel
  | fuel + 1, s =>
      match s.peek with
      | none => s.signalError (ofString "expected a value")
      | some c =>
          if c = ofChar '\x7b' then parseObject fuel s
          else if c = ofChar '[' then parseArray fuel s
          else if c = ofChar '"' then (parseString s).map fun (t, s) => (.string t, s)
          else if c = ofChar 't' then
            (s.expectLiteral (ofString "true")).map fun s => (.boolean true, s)
          else if c = ofChar 'f' then
            (s.expectLiteral (ofString "false")).map fun s => (.boolean false, s)
          else if c = ofChar 'n' then
            (s.expectLiteral (ofString "null")).map fun s => (.nil, s)
          else if c = ofChar '-' ∨ isDigitCode c then parseNumber s
          else s.signalError (ofString "unexpected character " ++ [c])

def parseObject : Nat → Scanner → Parse (Value F)
  | 0, _ => .error .fuel
  | fuel + 1, s =>
      let s := s.advance.skipWhitespace
      if s.peek = some (ofChar '\x7d') then .ok (.dictionary [], s.advance)
      else objectLoop fuel [] s

/-- The loop of `parseObject:`. -/
def objectLoop : Nat → List (Str × Value F) → Scanner → Parse (Value F)
  | 0, _, _ => .error .fuel
  | fuel + 1, dict, s =>
      let s := s.skipWhitespace
      if s.peek = some (ofChar '"') then
        match parseString s with
        | .error e => .error e
        | .ok (key, s) =>
            let s := s.skipWhitespace
            if s.peek = some (ofChar ':') then
              match parseValue fuel s.advance.skipWhitespace with
              | .error e => .error e
              | .ok (value, s) =>
                  let dict := put dict key value
                  let s := s.skipWhitespace
                  if s.peek = some (ofChar ',') then objectLoop fuel dict s.advance
                  else if s.peek = some (ofChar '\x7d') then .ok (.dictionary dict, s.advance)
                  else s.signalError (ofString "expected ',' or '\x7d'")
            else s.signalError (ofString "expected ':' after key")
      else s.signalError (ofString "expected a string key")

def parseArray : Nat → Scanner → Parse (Value F)
  | 0, _ => .error .fuel
  | fuel + 1, s =>
      let s := s.advance.skipWhitespace
      if s.peek = some (ofChar ']') then .ok (.array [], s.advance)
      else arrayLoop fuel [] s

/-- The loop of `parseArray:`. -/
def arrayLoop : Nat → List (Value F) → Scanner → Parse (Value F)
  | 0, _, _ => .error .fuel
  | fuel + 1, items, s =>
      match parseValue fuel s.skipWhitespace with
      | .error e => .error e
      | .ok (item, s) =>
          let items := items ++ [item]
          let s := s.skipWhitespace
          if s.peek = some (ofChar ',') then arrayLoop fuel items s.advance
          else if s.peek = some (ofChar ']') then .ok (.array items, s.advance)
          else s.signalError (ofString "expected ',' or ']'")

end

/-- `JSON class >> parse:` -/
def parse (fuel : Nat) (aString : Str) : Except Stop (Value F) :=
  match parseValue fuel (Scanner.on aString).skipWhitespace with
  | .error e => .error e
  | .ok (value, s) =>
      let s := s.skipWhitespace
      if s.atEnd then .ok value
      else s.signalError (ofString "unexpected trailing characters")

/-! ## Rendering -/

/-- `Integer>>printString`. -/
def printNat (n : Nat) : Str :=
  if n = 0 then [ofChar '0'] else (Nat.digits 10 n).reverse.map fun d => ofChar (Nat.digitChar d)

def printInteger (n : Int) : Str :=
  if n < 0 then ofChar '-' :: printNat n.natAbs else printNat n.natAbs

/-- `,` sent to a Character, which does not understand it. -/
def concatenated (_c : Code) (_aString : Str) : Except Signal Str :=
  .error (.messageNotUnderstood ",")

/-- The loop of `unicodeEscape:`, at the number of digits still to write: `digits at: d + 1` is a
Character. -/
def hexLoop : Nat → Str → Nat → Except Signal Str
  | 0, hex, _ => .ok hex
  | n + 1, hex, rest =>
      (concatenated (ofChar (Nat.digitChar (rest % 16))) hex).bind fun hex =>
        hexLoop n hex (rest / 16)

def unicodeEscape (code : Nat) : Except Signal Str :=
  (hexLoop 4 [] code).map fun hex => ofString "\\u" ++ hex

/-- A turn of the loop of `stringifyString:`. -/
def stringifyChar (c : Code) : Except Signal Str :=
  if c = 34 then .ok (ofString "\\\"")
  else if c = 92 then .ok (ofString "\\\\")
  else if c = 10 then .ok (ofString "\\n")
  else if c = 9 then .ok (ofString "\\t")
  else if c = 13 then .ok (ofString "\\r")
  else if c = 8 then .ok (ofString "\\b")
  else if c = 12 then .ok (ofString "\\f")
  else if c.val < 32 then unicodeEscape c.val
  else .ok (asString c)

/-- The loop of `stringifyString:`. -/
def stringifyChars : Str → Except Signal Str
  | [] => .ok []
  | c :: rest => (stringifyChar c).bind fun piece =>
      (stringifyChars rest).map fun text => piece ++ text

def stringifyString (aString : Str) : Except Signal Str :=
  (stringifyChars aString).map fun text => ofChar '"' :: (text ++ [ofChar '"'])

/-- The loops of `stringifyArray:` and `stringifyDictionary:` over the parts. -/
def joinParts : List Str → Str
  | [] => []
  | [p] => p
  | p :: q :: rest => p ++ ofChar ',' :: joinParts (q :: rest)

mutual

/-- `stringifyValue:`, with the `jsonStringOn:` of the classes. -/
def stringify : Value F → Except Signal Str
  | .nil => .ok (ofString "null")
  | .boolean true => .ok (ofString "true")
  | .boolean false => .ok (ofString "false")
  | .integer n => .ok (printInteger n)
  | .float x => .ok (FloatOps.printString x)
  | .string s => stringifyString s
  | .array items => (stringifyItems items).map fun parts =>
      ofChar '[' :: (joinParts parts ++ [ofChar ']'])
  | .dictionary entries => (stringifyEntries entries).map fun parts =>
      ofChar '\x7b' :: (joinParts parts ++ [ofChar '\x7d'])

def stringifyItems : List (Value F) → Except Signal (List Str)
  | [] => .ok []
  | item :: rest => (stringify item).bind fun part =>
      (stringifyItems rest).map fun parts => part :: parts

def stringifyEntries : List (Str × Value F) → Except Signal (List Str)
  | [] => .ok []
  | (k, v) :: rest => (stringifyString k).bind fun key => (stringify v).bind fun part =>
      (stringifyEntries rest).map fun parts => (key ++ ofChar ':' :: part) :: parts

end

/-! ## Equality -/

/-- `Dictionary>>at:` -/
def lookup (dict : List (Str × Value F)) (key : Str) : Option (Value F) :=
  match dict with
  | [] => none
  | (k, v) :: rest => if k = key then some v else lookup rest key

omit [FloatOps F] in
theorem sizeOf_lookup {dict : List (Str × Value F)} {key : Str} {v : Value F}
    (h : lookup dict key = some v) : sizeOf v < sizeOf dict := by
  induction dict with
  | nil => cases h
  | cons entry rest ih =>
      obtain ⟨k, w⟩ := entry
      unfold lookup at h
      split at h
      · cases h
        simp
        omega
      · have := ih h
        simp
        omega

mutual

/-- `=` of the classes of these values (`lib/kernel/collection.st` for the Array and the
Dictionary). -/
def equals : Value F → Value F → Bool
  | .nil, .nil => true
  | .boolean a, .boolean b => a == b
  | .integer m, .integer n => m == n
  | .integer m, .float y => FloatOps.equalsInteger y m
  | .float x, .integer n => FloatOps.equalsInteger x n
  | .float x, .float y => FloatOps.equals x y
  | .string s, .string t => s == t
  | .array xs, .array ys => xs.length == ys.length && equalsItems xs ys
  | .dictionary xs, .dictionary ys => xs.length == ys.length && equalsEntries xs ys
  | _, _ => false
termination_by v w => sizeOf v + sizeOf w

/-- Equal elements at every index. -/
def equalsItems : List (Value F) → List (Value F) → Bool
  | x :: xs, y :: ys => equals x y && equalsItems xs ys
  | _, _ => true
termination_by xs ys => sizeOf xs + sizeOf ys

/-- The other dictionary has every key, with an equal value. -/
def equalsEntries : List (Str × Value F) → List (Str × Value F) → Bool
  | [], _ => true
  | (k, v) :: rest, other =>
      match h : lookup other k with
      | none => false
      | some w =>
          have := sizeOf_lookup h
          equals w v && equalsEntries rest other
termination_by xs ys => sizeOf xs + sizeOf ys

end

end Values

end ProtoST.Json

import ProtoST.Json.Parser

/-!
# The grammar of JSON texts

The productions of RFC 8259 as syntax trees with their text: whitespace, the forms of an
escape and the digits are kept, so that a tree has one text.  The trees are those of a
wider grammar, whose numbers may begin with zeros and whose exponents may have both
signs; `lax` tells the trees that are not of the RFC, and `escaped` those with a
`\u` escape.

## Main definitions

* `Text` — a JSON text, with its characters (`Text.text`) and what it denotes
  (`Text.value`).
* `IsText` — a String is a JSON text that denotes a value.
-/

namespace ProtoST.Json

/-! ## Whitespace and digits -/

/-- `ws` -/
abbrev Ws := {w : Str // ∀ c ∈ w, isWhitespace c = true}

/-- `1*DIGIT` -/
abbrev Digits := {ds : List (Fin 10) // ds ≠ []}

instance neZero_ten : NeZero 10 := ⟨by decide⟩

def digitCode (d : Fin 10) : Code := ⟨48 + d.val, by omega⟩

def digitText (ds : List (Fin 10)) : Str := ds.map digitCode

def digitsValue (ds : List (Fin 10)) : Nat := ds.foldl (fun v d => v * 10 + d.val) 0

/-! ## Strings -/

/-- The escapes of one letter. -/
inductive Escape where
  | quote | backslash | slash | lineFeed | tab | carriageReturn | backspace | formFeed
  deriving DecidableEq, Repr

def Escape.letter : Escape → Code
  | .quote => 34
  | .backslash => 92
  | .slash => 47
  | .lineFeed => 110
  | .tab => 116
  | .carriageReturn => 114
  | .backspace => 98
  | .formFeed => 102

def Escape.code : Escape → Code
  | .quote => 34
  | .backslash => 92
  | .slash => 47
  | .lineFeed => 10
  | .tab => 9
  | .carriageReturn => 13
  | .backspace => 8
  | .formFeed => 12

/-- `HEXDIG` -/
def hexValue? (c : Code) : Option (Fin 16) :=
  if h : 48 ≤ c.val ∧ c.val ≤ 57 then some ⟨c.val - 48, by omega⟩
  else if h : 65 ≤ c.val ∧ c.val ≤ 70 then some ⟨c.val - 55, by omega⟩
  else if h : 97 ≤ c.val ∧ c.val ≤ 102 then some ⟨c.val - 87, by omega⟩
  else none

abbrev HexDigit := {c : Code // (hexValue? c).isSome}

def HexDigit.value (d : HexDigit) : Nat := ((hexValue? d.1).get d.2).val

/-- `unescaped` -/
def isUnescaped (c : Code) : Bool := 32 ≤ c.val && c != 34 && c != 92

/-- `char` -/
inductive Piece where
  | plain (c : Code) (h : isUnescaped c = true)
  | escape (e : Escape)
  | unicode (a b c d : HexDigit)

namespace Piece

def text : Piece → Str
  | plain c _ => [c]
  | escape e => [92, e.letter]
  | unicode a b c d => [92, 117, a.1, b.1, c.1, d.1]

def escaped : Piece → Bool
  | unicode .. => true
  | _ => false

/-- The code unit of a piece. -/
def unit : Piece → Code
  | plain c _ => c
  | escape e => e.code
  | unicode a b c d =>
      Fin.ofNat 0x110000 (((a.value * 16 + b.value) * 16 + c.value) * 16 + d.value)

end Piece

/-- A pair of surrogates, the two units of a code point past 16 bits. -/
def surrogates (p q : Piece) : Bool :=
  p.escaped && q.escaped && (0xD800 ≤ p.unit.val && p.unit.val < 0xDC00)
    && (0xDC00 ≤ q.unit.val && q.unit.val < 0xE000)

/-- What a string denotes. -/
def decode : List Piece → Str
  | [] => []
  | [p] => [p.unit]
  | p :: q :: rest =>
      if surrogates p q then
        Fin.ofNat 0x110000
          (0x10000 + (p.unit.val - 0xD800) * 0x400 + (q.unit.val - 0xDC00)) :: decode rest
      else p.unit :: decode (q :: rest)

def piecesText (ps : List Piece) : Str := ps.flatMap Piece.text

def piecesEscaped (ps : List Piece) : Bool := ps.any Piece.escaped

/-! ## Numbers -/

inductive ExpSign where
  | none | plus | minus | plusMinus
  deriving DecidableEq, Repr

def ExpSign.text : ExpSign → Str
  | .none => []
  | .plus => [43]
  | .minus => [45]
  | .plusMinus => [43, 45]

def ExpSign.negative : ExpSign → Bool
  | .none | .plus => false
  | .minus | .plusMinus => true

/-- `exp` -/
structure Exponent where
  upper : Bool
  sign : ExpSign
  digits : Digits

/-- `number` -/
structure Number where
  negative : Bool
  int : Digits
  frac : Option Digits
  exp : Option Exponent

namespace Number

def fracText : Option Digits → Str
  | none => []
  | some ds => 46 :: digitText ds.1

def expText : Option Exponent → Str
  | none => []
  | some e => (if e.upper then 69 else 101) :: (e.sign.text ++ digitText e.digits.1)

def text (n : Number) : Str :=
  (if n.negative then [45] else []) ++
    (digitText n.int.1 ++ (fracText n.frac ++ expText n.exp))

/-- The number is not one of the RFC. -/
def lax (n : Number) : Bool :=
  (n.int.1.head? == some 0 && n.int.1.length != 1) ||
    (n.exp.map Exponent.sign == some .plusMinus)

variable {F : Type} [FloatOps F]

def value (n : Number) : Value F :=
  numberOf n.negative (digitsValue n.int.1)
    (n.frac.map fun ds => (digitsValue ds.1, 10 ^ ds.1.length))
    (n.exp.map fun e => (e.sign.negative, digitsValue e.digits.1))

end Number

/-! ## Values -/

mutual

/-- `value` -/
inductive Doc where
  | null
  | boolean (b : Bool)
  | number (n : Number)
  | string (ps : List Piece)
  | emptyArray (w : Ws)
  | array (es : Elements)
  | emptyObject (w : Ws)
  | object (ms : Members)

/-- The values of an array to its bracket. -/
inductive Elements where
  | last (w : Ws) (d : Doc) (w' : Ws)
  | more (w : Ws) (d : Doc) (w' : Ws) (rest : Elements)

/-- The members of an object to its brace. -/
inductive Members where
  | last (w : Ws) (key : List Piece) (w₁ w₂ : Ws) (d : Doc) (w' : Ws)
  | more (w : Ws) (key : List Piece) (w₁ w₂ : Ws) (d : Doc) (w' : Ws) (rest : Members)

end

mutual

def Doc.text : Doc → Str
  | .null => ofString "null"
  | .boolean b => if b then ofString "true" else ofString "false"
  | .number n => n.text
  | .string ps => 34 :: (piecesText ps ++ [34])
  | .emptyArray w => 91 :: (w.1 ++ [93])
  | .array es => 91 :: es.text
  | .emptyObject w => 123 :: (w.1 ++ [125])
  | .object ms => 123 :: ms.text

def Elements.text : Elements → Str
  | .last w d w' => w.1 ++ (d.text ++ (w'.1 ++ [93]))
  | .more w d w' rest => w.1 ++ (d.text ++ (w'.1 ++ 44 :: rest.text))

def Members.text : Members → Str
  | .last w key w₁ w₂ d w' =>
      w.1 ++ 34 :: (piecesText key ++ 34 :: (w₁.1 ++ 58 :: (w₂.1 ++ (d.text ++ (w'.1 ++ [125])))))
  | .more w key w₁ w₂ d w' rest =>
      w.1 ++ 34 :: (piecesText key ++
        34 :: (w₁.1 ++ 58 :: (w₂.1 ++ (d.text ++ (w'.1 ++ 44 :: rest.text)))))

end

mutual

/-- A number in the tree is not one of the RFC. -/
def Doc.lax : Doc → Bool
  | .number n => n.lax
  | .array es => es.lax
  | .object ms => ms.lax
  | _ => false

def Elements.lax : Elements → Bool
  | .last _ d _ => d.lax
  | .more _ d _ rest => d.lax || rest.lax

def Members.lax : Members → Bool
  | .last _ _ _ _ d _ => d.lax
  | .more _ _ _ _ d _ rest => d.lax || rest.lax

end

mutual

/-- A string in the tree has a `\u` escape. -/
def Doc.escaped : Doc → Bool
  | .string ps => piecesEscaped ps
  | .array es => es.escaped
  | .object ms => ms.escaped
  | _ => false

def Elements.escaped : Elements → Bool
  | .last _ d _ => d.escaped
  | .more _ d _ rest => d.escaped || rest.escaped

def Members.escaped : Members → Bool
  | .last _ key _ _ d _ => piecesEscaped key || d.escaped
  | .more _ key _ _ d _ rest => piecesEscaped key || d.escaped || rest.escaped

end

section Values

variable {F : Type} [FloatOps F]

mutual

/-- What a tree denotes: arrays in order, the last of duplicate keys. -/
def Doc.value : Doc → Value F
  | .null => .nil
  | .boolean b => .boolean b
  | .number n => n.value
  | .string ps => .string (decode ps)
  | .emptyArray _ => .array []
  | .array es => .array es.values
  | .emptyObject _ => .dictionary []
  | .object ms => .dictionary (ms.entries.foldl (fun dict e => put dict e.1 e.2) [])

def Elements.values : Elements → List (Value F)
  | .last _ d _ => [d.value]
  | .more _ d _ rest => d.value :: rest.values

def Members.entries : Members → List (Str × Value F)
  | .last _ key _ _ d _ => [(decode key, d.value)]
  | .more _ key _ _ d _ rest => (decode key, d.value) :: rest.entries

end

end Values

/-- `JSON-text` -/
structure Text where
  before : Ws
  doc : Doc
  after : Ws

namespace Text

def text (t : Text) : Str := t.before.1 ++ (t.doc.text ++ t.after.1)

def lax (t : Text) : Bool := t.doc.lax

def escaped (t : Text) : Bool := t.doc.escaped

def value {F : Type} [FloatOps F] (t : Text) : Value F := t.doc.value

end Text

/-- The String is a JSON text, and denotes the value. -/
def IsText {F : Type} [FloatOps F] (s : Str) (v : Value F) : Prop :=
  ∃ t : Text, t.lax = false ∧ t.text = s ∧ t.value = v

end ProtoST.Json

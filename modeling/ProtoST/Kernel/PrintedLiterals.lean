import ProtoST.Frontend.Literals
import ProtoST.Primitives.Strings
import ProtoST.Runtime.ValueFormat

/-!
# Printed literals

`printOn:` of the literals and of Arrays in `lib/kernel/printing.st`, and the values that the
parser and `STRuntime::materialize` make of the texts it prints.  A String holds code points; its
text is lexed as UTF-8, a byte as the `Char` of its code.

## Main results

* `outcome` — what the parser makes of a printed element of an array.
* `readsBack_iff` — which values read back.
-/

namespace ProtoST.Kernel.PrintedLiterals

open ProtoST.Frontend.Lexer ProtoST.Frontend.Literals ProtoST.Primitives
open ProtoST.Runtime.ValueFormat

/-! ## Text -/

/-- The code points of Unicode, the surrogates among them. -/
abbrev CodePoint := Fin 0x110000

instance neZero_codePoints : NeZero 0x110000 := ⟨by decide⟩

/-- `static_cast<char>`. -/
def byte (n : Nat) : Char := Char.ofNat (n % 256)

/-- `encodeCodepoint`. -/
def encodeCodepoint (cp : Nat) : List Char :=
  if cp < 0x80 then [byte cp]
  else if cp < 0x800 then [byte (0xC0 ||| (cp >>> 6)), byte (0x80 ||| (cp &&& 0x3F))]
  else if cp < 0x10000 then
    [byte (0xE0 ||| (cp >>> 12)), byte (0x80 ||| ((cp >>> 6) &&& 0x3F)),
      byte (0x80 ||| (cp &&& 0x3F))]
  else
    [byte (0xF0 ||| (cp >>> 18)), byte (0x80 ||| ((cp >>> 12) &&& 0x3F)),
      byte (0x80 ||| ((cp >>> 6) &&& 0x3F)), byte (0x80 ||| (cp &&& 0x3F))]

/-- The UTF-8 text of code points. -/
def utf8 (text : List CodePoint) : List Char := text.flatMap fun cp => encodeCodepoint cp.val

/-- The code points of characters. -/
def codePoints (text : List Char) : List CodePoint := text.map fun c => Fin.ofNat 0x110000 c.toNat

/-- A symbol of up to 6 bytes is represented like the equal String. -/
def embedded (text : List CodePoint) : Bool := (utf8 text).length ≤ 6

/-! ## Values and how they print -/

/-- The values of literals. -/
inductive Value where
  | integer (n : Int)
  | string (text : List CodePoint)
  | character (c : CodePoint)
  | symbol (text : List CodePoint)
  | true | false | nil
  | array (elements : List Value)

/-- `asString` of a Character: `fromUTF8String` takes its text as a C string, which is empty for
the code point 0. -/
def asString (c : CodePoint) : List CodePoint := if c = 0 then [] else [c]

/-- `String >> printOn:` of a String: `nextPut:` appends a Character `asString`. -/
def quoted (text : List CodePoint) : List CodePoint :=
  39 :: ((text.flatMap fun c => if c = 39 then 39 :: asString c else asString c) ++ [39])

mutual

/-- `printOn:`, in the printing of as many collections as `__printEnter` has counted. -/
@[grind =] def printOn (depth : Nat) : Value → List CodePoint
  | .integer n => codePoints (formatBigInteger n)
  | .string text => quoted text
  | .character c => 36 :: asString c
  | .symbol text => if embedded text then quoted text else 35 :: text
  | .true => codePoints "true".toList
  | .false => codePoints "false".toList
  | .nil => codePoints "nil".toList
  | .array elements =>
    if depth + 1 > 16 then codePoints "...".toList
    else 35 :: 40 :: (printElementsOn (depth + 1) [] elements ++ [41])

/-- The elements between the parentheses, `separatedBy:` a blank: `lead` is what stands in front of
the first. -/
def printElementsOn (depth : Nat) (lead : List CodePoint) : List Value → List CodePoint
  | [] => []
  | v :: rest => lead ++ (printOn depth v ++ printElementsOn depth [32] rest)

end

def printString (v : Value) : List CodePoint := printOn 0 v

/-! ## Reading -/

/-- What `c_str()` hands on of a text. -/
def cStr (text : List Char) : List Char := text.takeWhile (· ≠ '\x00')

/-- `decodeFirstCodepoint`. -/
def decodeFirstCodepoint (s : List Char) : Nat :=
  match s with
  | [] => 0
  | c :: cs =>
    let b0 := c.toNat
    let cont (i : Nat) : Nat := (cs[i - 1]?.map fun b => b.toNat &&& 0x3F).getD 0
    if b0 < 0x80 then b0
    else if b0 &&& 0xE0 = 0xC0 then ((b0 &&& 0x1F) <<< 6) ||| cont 1
    else if b0 &&& 0xF0 = 0xE0 then ((b0 &&& 0x0F) <<< 12) ||| (cont 1 <<< 6) ||| cont 2
    else ((b0 &&& 0x07) <<< 18) ||| (cont 1 <<< 12) ||| (cont 2 <<< 6) ||| cont 3

/-- The value of a literal: `materialize`, where `fromUTF8String` and `createSymbol` answer the
String and the symbol with the UTF-8 text they are given, which for a short text are the same
object. -/
inductive Materializes (fromString : List Char → Int → Int) : Literal → Value → Prop
  | integer {n : IntegerLit} {v : Int} : materialize fromString n.constant = v →
      Materializes fromString (.integer n) (.integer v)
  | string {b : List Char} {text : List CodePoint} : cStr b = utf8 text →
      Materializes fromString (.string b) (.string text)
  | stringSymbol {b : List Char} {text : List CodePoint} : embedded text = true →
      cStr b = utf8 text → Materializes fromString (.string b) (.symbol text)
  | symbol {b : List Char} {text : List CodePoint} : cStr b = utf8 text →
      Materializes fromString (.symbol b) (.symbol text)
  | symbolString {b : List Char} {text : List CodePoint} : embedded text = true →
      cStr b = utf8 text → Materializes fromString (.symbol b) (.string text)
  | char {b : List Char} {c : CodePoint} : decodeFirstCodepoint b = c.val →
      Materializes fromString (.char b) (.character c)
  | true : Materializes fromString .true .true
  | false : Materializes fromString .false .false
  | nil : Materializes fromString .nil .nil
  | array {es : List Literal} {vs : List Value} : List.Forall₂ (Materializes fromString) es vs →
      Materializes fromString (.array es) (.array vs)

/-- The printed text is one primary expression without errors, and its value is the value that was
printed. -/
def ReadsBack (stod : List Char → Option (BitVec 64)) (fromString : List Char → Int → Int)
    (v : Value) : Prop :=
  let text := utf8 (printString v)
  ∃ node last, parsePrimary stod (text.length + 1) (.at stod (State.start text)) =
    some (node, last) ∧
    last.current.kind = .endOfFile ∧ Materializes fromString node v

/-- The value is built by so many levels of Arrays, from symbols that are short or selectors. -/
def Built (stod : List Char → Option (BitVec 64)) : Nat → Value → Prop
  | _, .symbol text => embedded text = true ∨ IsSelector stod (utf8 text)
  | 0, .array _ => False
  | levels + 1, .array elements => ∀ v ∈ elements, Built stod levels v
  | _, _ => True

/-- Every Character is one byte and not NUL, no String has the code point 0, and no symbol that is
longer than 6 bytes is an operator. -/
inductive Readable : Value → Prop
  | integer (n : Int) : Readable (.integer n)
  | string {text : List CodePoint} : 0 ∉ text → Readable (.string text)
  | character {c : CodePoint} : 0 < c.val → c.val < 128 → Readable (.character c)
  | short {text : List CodePoint} : embedded text = true → 0 ∉ text → Readable (.symbol text)
  | name {text : List CodePoint} : embedded text = false →
      (utf8 text).head?.any startsName = true → Readable (.symbol text)
  | true : Readable .true
  | false : Readable .false
  | nil : Readable .nil
  | array {elements : List Value} : (∀ v ∈ elements, Readable v) → Readable (.array elements)

/-! ## UTF-8 -/

theorem toNat_byte (n : Nat) : (byte n).toNat = n % 256 := by
  have hlt : n % 256 < 256 := Nat.mod_lt _ (by decide)
  have hvalid : (n % 256).isValidChar := Or.inl (by omega)
  rw [byte, Char.ofNat, dif_pos hvalid]
  rfl

theorem high_byte {a x : Nat} (ha : 128 ≤ a) (ha' : a < 256) (hx : x < 256) :
    128 ≤ (byte (a ||| x)).toNat := by
  have hlt : a ||| x < 256 := Nat.or_lt_two_pow (n := 8) ha' hx
  have hle : a ≤ a ||| x := Nat.left_le_or
  rw [toNat_byte, Nat.mod_eq_of_lt hlt]
  omega

theorem encodeCodepoint_ascii {cp : Nat} (h : cp < 128) : encodeCodepoint cp = [byte cp] := by
  rw [encodeCodepoint, if_pos h]

/-- The bytes are those of `Primitives/Strings.lean`. -/
theorem encodeCodepoint_eq (cp : Nat) :
    encodeCodepoint cp = (Strings.encodeCodepoint cp).map fun b => byte b.toNat := by
  have hbyte : ∀ n, byte (UInt8.ofNat n).toNat = byte n := fun n => by
    rw [UInt8.toNat_ofNat', byte, byte, Nat.mod_mod]
  unfold encodeCodepoint Strings.encodeCodepoint
  simp only [apply_ite (List.map _), List.map_cons, List.map_nil, hbyte]

/-- `asString` is the string of these bytes. -/
theorem fromBytes_encodeCodepoint (core : Strings.Core) (cp : CodePoint) :
    (Strings.fromBytes core (Strings.encodeCodepoint cp.val)).codes =
      (asString cp).map Fin.val := by
  by_cases hnul : cp = 0
  · subst hnul
    exact @Strings.fromBytes_stored core [] (by simp)
  · have hpos : 0 < cp.val := Nat.pos_of_ne_zero fun h => hnul (Fin.ext h)
    have hstored := @Strings.fromBytes_stored core [cp.val] (by simp; omega)
    rw [asString, if_neg hnul]
    simpa [Strings.utf8] using hstored

/-- Beyond ASCII a code point has two bytes or more, and none of them is ASCII. -/
theorem encodeCodepoint_high {cp : CodePoint} (h : 128 ≤ cp.val) : ∃ b c bs,
    encodeCodepoint cp.val = b :: c :: bs ∧ ∀ d ∈ b :: c :: bs, 128 ≤ d.toNat := by
  have hcp := cp.isLt
  have hlast : ∀ n : Nat, 128 ≤ (byte (0x80 ||| (n &&& 0x3F))).toNat := fun n =>
    high_byte (by decide) (by decide) (Nat.lt_of_le_of_lt Nat.and_le_right (by decide))
  have hshift : ∀ k : Nat, cp.val < 256 * 2 ^ k → cp.val >>> k < 256 := by
    intro k hk
    rw [Nat.shiftRight_eq_div_pow]
    exact Nat.div_lt_of_lt_mul (by rw [Nat.mul_comm]; exact hk)
  unfold encodeCodepoint
  rw [if_neg (Nat.not_lt.mpr h)]
  split
  · refine ⟨_, _, _, rfl, ?_⟩
    simp only [List.forall_mem_cons, List.not_mem_nil, false_imp_iff, implies_true, and_true]
    exact ⟨high_byte (by decide) (by decide) (hshift 6 (by omega)), hlast _⟩
  split
  · refine ⟨_, _, _, rfl, ?_⟩
    simp only [List.forall_mem_cons, List.not_mem_nil, false_imp_iff, implies_true, and_true]
    exact ⟨high_byte (by decide) (by decide) (hshift 12 (by omega)), hlast _, hlast _⟩
  · refine ⟨_, _, _, rfl, ?_⟩
    simp only [List.forall_mem_cons, List.not_mem_nil, false_imp_iff, implies_true, and_true]
    exact ⟨high_byte (by decide) (by decide) (hshift 18 (by omega)), hlast _, hlast _, hlast _⟩

/-- An ASCII byte occurs in a UTF-8 text as its code point only. -/
theorem mem_encodeCodepoint {cp : CodePoint} {n : Nat} (hn : n < 128) :
    byte n ∈ encodeCodepoint cp.val ↔ cp.val = n := by
  by_cases h : cp.val < 128
  · rw [encodeCodepoint_ascii h, List.mem_singleton]
    constructor
    · intro heq
      have hnat := congrArg Char.toNat heq
      rw [toNat_byte, toNat_byte] at hnat
      omega
    · intro heq
      rw [heq]
  · obtain ⟨b, c, bs, hbytes, hhigh⟩ := encodeCodepoint_high (Nat.not_lt.mp h)
    rw [hbytes]
    constructor
    · intro hmem
      have hle := hhigh _ hmem
      rw [toNat_byte] at hle
      omega
    · intro heq
      omega

theorem utf8_cons (cp : CodePoint) (text : List CodePoint) :
    utf8 (cp :: text) = encodeCodepoint cp.val ++ utf8 text := by
  simp [utf8]

theorem utf8_append (text text' : List CodePoint) : utf8 (text ++ text') =
    utf8 text ++ utf8 text' := by
  simp [utf8]

theorem mem_utf8 {text : List CodePoint} {cp : CodePoint} (hn : cp.val < 128) :
    byte cp.val ∈ utf8 text ↔ cp ∈ text := by
  rw [utf8, List.mem_flatMap]
  constructor
  · rintro ⟨cp', hcp, hmem⟩
    rwa [← Fin.ext ((mem_encodeCodepoint hn).mp hmem)]
  · exact fun hcp => ⟨cp, hcp, (mem_encodeCodepoint hn).mpr rfl⟩

theorem utf8_codePoints {text : List Char} (h : ∀ c ∈ text, c.toNat < 128) :
    utf8 (codePoints text) = text := by
  induction text with
  | nil => rfl
  | cons c text ih =>
    have hc := h c List.mem_cons_self
    have hval : (Fin.ofNat 0x110000 c.toNat).val = c.toNat := Nat.mod_eq_of_lt (by omega)
    have hbyte : byte c.toNat = c := by
      apply Char.ext
      apply UInt32.toNat_inj.mp
      show (byte c.toNat).toNat = c.toNat
      rw [toNat_byte, Nat.mod_eq_of_lt (by omega)]
    show utf8 (Fin.ofNat 0x110000 c.toNat :: codePoints text) = c :: text
    rw [utf8_cons, hval, encodeCodepoint_ascii hc, hbyte,
      ih fun d hd => h d (List.mem_cons_of_mem c hd)]
    rfl

/-- `c_str()` keeps a text without NUL, and no other one. -/
theorem cStr_eq_iff (text : List CodePoint) : cStr (utf8 text) = utf8 text ↔ 0 ∉ text := by
  rw [cStr, List.takeWhile_eq_self_iff]
  have hmem : '\x00' ∈ utf8 text ↔ (0 : CodePoint) ∈ text := @mem_utf8 text 0 (by decide)
  rw [← hmem]
  constructor
  · intro h hnul
    have hne := h _ hnul
    revert hne
    decide
  · intro h b hb
    simp only [ne_eq, decide_not, Bool.not_eq_true', decide_eq_false_iff_not]
    rintro rfl
    exact h hb

/-- What is left of a text that is written Character by Character. -/
def written (text : List CodePoint) : List CodePoint := text.filter (· ≠ 0)

theorem written_eq_flatMap (text : List CodePoint) : written text = text.flatMap asString := by
  induction text with
  | nil => rfl
  | cons c text ih =>
    by_cases hc : c = 0
    · simp [written, asString, hc] at ih ⊢
      exact ih
    · simp [written, asString, hc] at ih ⊢
      exact ih

/-- A quoted String in UTF-8. -/
theorem utf8_quoted (text : List CodePoint) :
    utf8 (quoted text) = '\'' :: (doubled (utf8 (written text)) ++ ['\'']) := by
  have hinner : utf8 (text.flatMap fun c => if c = 39 then 39 :: asString c else asString c)
      = doubled (utf8 (written text)) := by
    rw [written_eq_flatMap]
    induction text with
    | nil => rfl
    | cons c text ih =>
      rw [List.flatMap_cons, List.flatMap_cons, utf8_append, ih, utf8_append, doubled, doubled,
        List.flatMap_append]
      congr 1
      by_cases hc : c = 39
      · subst hc
        rfl
      rw [if_neg hc]
      by_cases hzero : c = 0
      · subst hzero
        rfl
      have hnot : '\'' ∉ encodeCodepoint c.val := fun hmem =>
        hc (Fin.ext ((mem_encodeCodepoint (n := 39) (by decide)).mp hmem))
      have hsame : ∀ bytes : List Char, '\'' ∉ bytes →
          (bytes.flatMap fun b => if b = '\'' then ['\'', '\''] else [b]) = bytes := by
        intro bytes
        induction bytes with
        | nil => exact fun _ => rfl
        | cons b bytes ihb =>
          intro hmem
          obtain ⟨hb, hrest⟩ := not_or.mp fun h => hmem (List.mem_cons.mpr h)
          rw [List.flatMap_cons, if_neg fun h => hb h.symm, ihb hrest]
          rfl
      have hbytes : utf8 (asString c) = encodeCodepoint c.val := by
        rw [asString, if_neg hzero, utf8_cons]
        exact List.append_nil _
      rw [hbytes, hsame _ hnot]
  rw [quoted, utf8_cons, utf8_append, hinner]
  rfl

/-- The text comes back from what was written of it if and only if it has no NUL. -/
theorem cStr_written_iff (text : List CodePoint) :
    cStr (utf8 (written text)) = utf8 text ↔ 0 ∉ text := by
  have hmem : '\x00' ∈ utf8 text ↔ (0 : CodePoint) ∈ text := @mem_utf8 text 0 (by decide)
  constructor
  · intro h hzero
    have hnul := hmem.mpr hzero
    rw [← h] at hnul
    have hne := List.mem_takeWhile_imp hnul
    revert hne
    decide
  · intro h
    have hwritten : written text = text := List.filter_eq_self.mpr fun c hc =>
      decide_eq_true fun hzero => h (hzero ▸ hc)
    rw [hwritten, cStr_eq_iff]
    exact h

/-! ## One element -/

section Elements

variable {stod : List Char → Option (BitVec 64)} {fromString : List Char → Int → Int}
variable {st : State} {before after : List Char} {fuel : Nat}

/-- What the parser makes of a printed value: of a readable one its literal, and behind it the
parser stands at what follows; of another one no literal of the value, or one with an error
behind it. -/
def Outcome (stod : List Char → Option (BitVec 64)) (fromString : List Char → Int → Int)
    (fuel : Nat) (st : State) (after : List Char) (v : Value) : Prop :=
  (Readable v ∧ beginsLiteral (lexOne stod st).1.kind = true ∧
    ∃ node st', parseElement stod fuel (.at stod st) = some (node, .at stod st') ∧
      st'.cursor.rest = after ∧ Materializes fromString node v) ∨
  (¬ Readable v ∧ ∀ node last, parseElement stod fuel (.at stod st) = some (node, last) →
    Materializes fromString node v → last.current.kind = .error)

/-- The token of a literal by itself. -/
inductive IsLeaf : Token → Literal → Prop
  | integer {t : Token} : t.kind = .integer → IsLeaf t (.integer (integerLit t))
  | string {t : Token} : t.kind = .string → IsLeaf t (.string t.text)
  | char {t : Token} : t.kind = .char → IsLeaf t (.char t.text)
  | symbol {t : Token} : t.kind = .symbol → IsLeaf t (.symbol t.text)
  | trueWord {t : Token} : t.kind = .true → IsLeaf t .true
  | falseWord {t : Token} : t.kind = .false → IsLeaf t .false
  | nilWord {t : Token} : t.kind = .nil → IsLeaf t .nil

variable {node : Literal}

theorem IsLeaf.parse (h : IsLeaf (lexOne stod st).1 node) (fuel : Nat) :
    parseElement stod (fuel + 1) (.at stod st) = some (node, .at stod (lexOne stod st).2) ∧
      beginsLiteral (lexOne stod st).1.kind = true := by
  rw [parseElement]
  cases h with
  | integer hkind | string hkind | char hkind | symbol hkind | trueWord hkind | falseWord hkind
  | nilWord hkind =>
    simp only [Parser.at, hkind]
    exact ⟨rfl, rfl⟩

variable {v : Value}

/-- A literal of one token that materializes to the value. -/
theorem IsLeaf.outcome (h : IsLeaf (lexOne stod st).1 node)
    (hfuel : fuel ≠ 0) (hafter : (lexOne stod st).2.cursor.rest = after) (hreadable : Readable v)
    (hvalue : Materializes fromString node v) : Outcome stod fromString fuel st after v := by
  obtain ⟨fuel, rfl⟩ := Nat.exists_eq_succ_of_ne_zero hfuel
  obtain ⟨hparse, hbegins⟩ := h.parse fuel
  exact .inl ⟨hreadable, hbegins, node, _, hparse, hafter, hvalue⟩

/-- A literal of one token that materializes to another value. -/
theorem IsLeaf.outcome_other (h : IsLeaf (lexOne stod st).1 node)
    (hreadable : ¬ Readable v)
    (hvalue : Materializes fromString node v →
      (lexOne stod (lexOne stod st).2).1.kind = .error) :
    Outcome stod fromString fuel st after v := by
  refine .inr ⟨hreadable, fun node' last hparse hnode => ?_⟩
  cases fuel with
  | zero => cases hparse
  | succ fuel =>
    rw [(h.parse fuel).1] at hparse
    cases hparse
    exact hvalue hnode

theorem outcome_integer (hFrom : ReadsDigits fromString) (n : Int)
    (hbefore : ∀ c ∈ before, isSpace c = true) (hafter : EndsLiteral after)
    (hsign : endsOperand st.prevReturnedKind = false ∨ before ≠ []) (hfuel : fuel ≠ 0)
    (hst : st.cursor.rest = before ++ (formatBigInteger n ++ after)) :
    Outcome stod fromString fuel st after (.integer n) := by
  obtain ⟨digits, htext, hvalue⟩ := formatBigInteger_eq n
  rw [htext] at hst
  obtain ⟨hkind, hinteger, hrest⟩ := lexOne_integer stod hFrom hbefore hafter _ digits
    hsign hst
  have hn : signed (decide (n < 0)) (digits.value : Int) = n := by
    rw [hvalue]
    by_cases hneg : n < 0
    · rw [decide_eq_true hneg, signed, if_pos rfl]
      omega
    · rw [decide_eq_false hneg, signed, if_neg Bool.false_ne_true]
      omega
  exact (IsLeaf.integer hkind).outcome hfuel hrest (.integer n) (.integer (hinteger.trans hn))

variable {text : List CodePoint}

theorem outcome_quoted
    (hreadable : Readable v ↔ 0 ∉ text)
    (hvalue : Materializes fromString (.string (utf8 (written text))) v ↔
      cStr (utf8 (written text)) = utf8 text)
    (hbefore : ∀ c ∈ before, isSpace c = true) (hafter : EndsLiteral after) (hfuel : fuel ≠ 0)
    (hst : st.cursor.rest = before ++ (utf8 (quoted text) ++ after)) :
    Outcome stod fromString fuel st after v := by
  rw [utf8_quoted, List.cons_append, List.append_assoc] at hst
  obtain ⟨hkind, htext, hrest⟩ := lexOne_string stod hbefore
    (hafter.head_ne (by decide) (by decide)) hst
  have hleaf := IsLeaf.string hkind
  rw [htext] at hleaf
  rw [cStr_written_iff, ← hreadable] at hvalue
  by_cases h : Readable v
  · exact hleaf.outcome hfuel hrest h (hvalue.mpr h)
  · exact hleaf.outcome_other h fun hmat => absurd (hvalue.mp hmat) h

/-- The Character of the code point 0 prints as a `$` alone, which takes the byte that follows or
ends the text. -/
theorem outcome_nul (hbefore : ∀ c ∈ before, isSpace c = true) (hafter : EndsLiteral after)
    (hst : st.cursor.rest = before ++ '$' :: after) :
    Outcome stod fromString fuel st after (.character 0) := by
  have hreadable : ¬ Readable (.character 0) := by
    intro h
    cases h with
    | character h _ => exact absurd h (by decide)
  cases after with
  | nil =>
    refine .inr ⟨hreadable, fun node last hparse _ => ?_⟩
    have hkind := lexOne_char_end stod hbefore hst
    cases fuel with
    | zero => cases hparse
    | succ fuel =>
      rw [parseElement] at hparse
      simp only [Parser.at, hkind] at hparse
      cases hparse
  | cons c cs =>
    obtain ⟨hkind, htext, -⟩ := lexOne_char stod hbefore hst
    have hleaf := IsLeaf.char hkind
    rw [htext] at hleaf
    refine hleaf.outcome_other hreadable fun hmat => ?_
    cases hmat with
    | char hzero =>
      rcases hafter c rfl with rfl | rfl
      · exact absurd hzero (by decide)
      · exact absurd hzero (by decide)

theorem outcome_character (c : CodePoint) (hbefore : ∀ c ∈ before, isSpace c = true)
    (hafter : EndsLiteral after) (hfuel : fuel ≠ 0)
    (hst : st.cursor.rest = before ++ (utf8 (36 :: asString c) ++ after)) :
    Outcome stod fromString fuel st after (.character c) := by
  by_cases hzero : c = 0
  · subst hzero
    exact outcome_nul hbefore hafter hst
  have hpos : 0 < c.val := Nat.pos_of_ne_zero fun h => hzero (Fin.ext h)
  have htext : utf8 (36 :: asString c) = '$' :: encodeCodepoint c.val := by
    rw [asString, if_neg hzero, utf8_cons, utf8_cons]
    exact congrArg ('$' :: ·) (List.append_nil _)
  rw [htext, List.cons_append] at hst
  by_cases hc : c.val < 128
  · rw [encodeCodepoint_ascii hc] at hst
    obtain ⟨hkind, hbyte, hrest⟩ := lexOne_char stod hbefore hst
    have hleaf := IsLeaf.char hkind
    rw [hbyte] at hleaf
    refine hleaf.outcome hfuel hrest (.character hpos hc) (.char ?_)
    have hnat : (byte c.val).toNat = c.val := by
      rw [toNat_byte, Nat.mod_eq_of_lt (by omega)]
    simp [decodeFirstCodepoint, hnat, hc]
  · obtain ⟨b, d, bs, hbytes, hhigh⟩ := encodeCodepoint_high (Nat.not_lt.mp hc)
    rw [hbytes] at hst
    obtain ⟨hkind, -, hrest⟩ := lexOne_char stod hbefore hst
    have hreadable : ¬ Readable (.character c) := by
      intro h
      cases h with
      | character _ h => exact hc h
    exact (IsLeaf.char hkind).outcome_other hreadable fun _ =>
      lexOne_highByte stod (hhigh d (List.mem_cons_of_mem b List.mem_cons_self)) hrest

/-- The words `true`, `false` and `nil`. -/
theorem outcome_word {word : List Char} (hname : IsName word)
    (hleaf : ∀ t : Token, t.kind = (if word = "true".toList then .true
      else if word = "false".toList then .false
      else if word = "nil".toList then .nil else .identifier) → IsLeaf t node)
    (hreadable : Readable v) (hvalue : Materializes fromString node v)
    (hbefore : ∀ c ∈ before, isSpace c = true) (hafter : EndsLiteral after) (hfuel : fuel ≠ 0)
    (hst : st.cursor.rest = before ++ (word ++ after)) :
    Outcome stod fromString fuel st after v := by
  obtain ⟨hkind, hrest⟩ := lexOne_word stod hbefore hafter hname hst
  exact (hleaf _ hkind).outcome hfuel hrest hreadable hvalue

/-- A symbol that the lexer takes whole. -/
theorem outcome_name (hembedded : embedded text = false)
    (htakes : TakesSymbol stod (utf8 text)) (hname : (utf8 text).head?.any startsName = true)
    (hnul : '\x00' ∉ utf8 text) (hbefore : ∀ c ∈ before, isSpace c = true)
    (hafter : EndsLiteral after) (hfuel : fuel ≠ 0)
    (hst : st.cursor.rest = before ++ (utf8 (35 :: text) ++ after)) :
    Outcome stod fromString fuel st after (.symbol text) := by
  obtain ⟨hkind, htext, hrest⟩ := htakes st before after hbefore hafter.endsSymbol hst
  have hleaf := IsLeaf.symbol hkind
  rw [htext] at hleaf
  have hnone : (0 : CodePoint) ∉ text := fun hmem =>
    hnul ((@mem_utf8 text 0 (by decide)).mpr hmem)
  exact hleaf.outcome hfuel hrest (.name hembedded hname) (.symbol ((cStr_eq_iff text).mpr hnone))

theorem not_readable_operator (hembedded : embedded text = false)
    (hrun : ∀ c ∈ utf8 text, isOperatorChar c = true) : ¬ Readable (.symbol text) := by
  intro h
  cases h with
  | short hshort _ =>
    rw [hembedded] at hshort
    cases hshort
  | name _ hhead =>
    cases hbytes : utf8 text with
    | nil =>
      rw [hbytes] at hhead
      cases hhead
    | cons c cs =>
      rw [hbytes] at hhead hrun
      have hname := not_startsName_of_isOperatorChar (isOperatorChar_head hrun)
      exact Bool.false_ne_true (hname.symm.trans hhead)

/-- A selector that begins with no name is an operator. -/
theorem run_of_head {s cs : List Char} {c : Char} (h : IsSelector stod s) (hs : s = c :: cs)
    (hc : startsName c = false) : ∀ d ∈ s, isOperatorChar d = true := by
  cases h with
  | name hname => exact absurd (congrArg List.head? hs) (by simpa using hname.head_ne [] hc)
  | @keywords parts hne hparts =>
    obtain ⟨p, parts, rfl⟩ := List.exists_cons_of_ne_nil hne
    have hp := hparts p List.mem_cons_self
    have hchain : keywordChain (p :: parts) = p ++ (':' :: keywordChain parts) := by
      simp [keywordChain]
    rw [hchain] at hs
    exact absurd (congrArg List.head? hs) (hp.head_ne _ hc)
  | operator hop => exact (run_of_binaryOp hop).2

/-- An operator of more than 6 bytes is cut to two characters, or no symbol at all. -/
theorem outcome_operator (hembedded : embedded text = false)
    (hrun : ∀ c ∈ utf8 text, isOperatorChar c = true) (hbefore : ∀ c ∈ before, isSpace c = true)
    (hst : st.cursor.rest = before ++ (utf8 (35 :: text) ++ after)) :
    Outcome stod fromString fuel st after (.symbol text) := by
  have hlong : 6 < (utf8 text).length := Nat.not_le.mp (of_decide_eq_false hembedded)
  have hpos : 0 < (utf8 text).length := Nat.zero_lt_of_lt hlong
  obtain ⟨c, cs, hbytes⟩ := List.exists_cons_of_ne_nil (List.ne_nil_of_length_pos hpos)
  have hop : isOperatorChar c = true := hrun c (by rw [hbytes]; exact List.mem_cons_self)
  have hname := not_startsName_of_isOperatorChar hop
  have hreadable := not_readable_operator hembedded hrun
  have htext : utf8 (35 :: text) ++ after = '#' :: c :: (cs ++ after) := by
    rw [utf8_cons, hbytes]
    rfl
  rw [htext] at hst
  obtain ⟨cur, hcur, hkind, hsame, -⟩ := lexOne_hash hbefore hst fun hparen => by
    cases hparen
    exact absurd hop (by decide)
  by_cases hsymbol : (lexSymbol cur).1.kind = .symbol
  · obtain ⟨hlen, -⟩ := lexSymbol_operator hcur hname hsymbol
    refine (IsLeaf.symbol (hkind.trans hsymbol)).outcome_other hreadable fun hmat => ?_
    rw [hsame] at hmat
    cases hmat with
    | symbol hcut =>
      have hle : (cStr (lexSymbol cur).1.text).length ≤ (lexSymbol cur).1.text.length :=
        (List.takeWhile_prefix _).length_le
      rw [hcut] at hle
      omega
  · refine .inr ⟨hreadable, fun node last hparse => ?_⟩
    have herror := hkind.trans (lexSymbol_error hcur hname hsymbol)
    cases fuel with
    | zero => cases hparse
    | succ fuel =>
      rw [parseElement] at hparse
      simp only [Parser.at, herror] at hparse
      cases hparse

theorem isName_true : IsName "true".toList :=
  ⟨'t', "rue".toList, rfl, by decide, List.all_eq_true.mp (by decide)⟩

theorem isName_false : IsName "false".toList :=
  ⟨'f', "alse".toList, rfl, by decide, List.all_eq_true.mp (by decide)⟩

theorem isName_nil : IsName "nil".toList :=
  ⟨'n', "il".toList, rfl, by decide, List.all_eq_true.mp (by decide)⟩

theorem nul_not_mem {name : List Char} (hname : IsName name) : '\x00' ∉ name := by
  intro hmem
  exact absurd (hname.inName _ hmem) (by decide)

theorem outcome_selector (hembedded : embedded text = false)
    (hselector : IsSelector stod (utf8 text)) (hbefore : ∀ c ∈ before, isSpace c = true)
    (hafter : EndsLiteral after) (hfuel : fuel ≠ 0)
    (hst : st.cursor.rest = before ++ (utf8 (35 :: text) ++ after)) :
    Outcome stod fromString fuel st after (.symbol text) := by
  generalize hbytes : utf8 text = bytes at hselector
  cases hselector with
  | name hname =>
    have hhead : bytes.head?.any startsName = true := by
      obtain ⟨c, cs, rfl, hc, -⟩ := hname
      exact hc
    subst hbytes
    exact outcome_name hembedded (takesSymbol_of_name hname) hhead (nul_not_mem hname) hbefore
      hafter hfuel hst
  | @keywords parts hne hparts =>
    obtain ⟨p, parts, rfl⟩ := List.exists_cons_of_ne_nil hne
    have hp := hparts p List.mem_cons_self
    have hhead : (keywordChain (p :: parts)).head?.any startsName = true := by
      obtain ⟨c, cs, rfl, hc, -⟩ := hp
      exact hc
    have hnul : '\x00' ∉ keywordChain (p :: parts) := by
      intro hmem
      obtain ⟨q, hq, hmem⟩ := List.mem_flatMap.mp hmem
      rcases List.mem_append.mp hmem with hmem | hmem
      · exact nul_not_mem (hparts q hq) hmem
      · exact absurd (List.mem_singleton.mp hmem) (by decide)
    have htakes : TakesSymbol stod (keywordChain (p :: parts)) := takesSymbol_of_keywords hp
      fun q hq => hparts q (List.mem_cons_of_mem p hq)
    rw [← hbytes] at htakes hhead hnul
    exact outcome_name hembedded htakes hhead hnul hbefore hafter hfuel hst
  | operator hop =>
    obtain ⟨-, hrun⟩ := run_of_binaryOp hop
    rw [← hbytes] at hrun
    exact outcome_operator hembedded hrun hbefore hst

/-! ## All values -/

/-- What the parser makes of the printed elements of an array and the parenthesis behind them. -/
def Outcomes (stod : List Char → Option (BitVec 64)) (fromString : List Char → Int → Int)
    (fuel : Nat) (st : State) (after : List Char) (vs : List Value) : Prop :=
  ((∀ v ∈ vs, Readable v) ∧ ∃ nodes st',
    parseElements stod fuel (.at stod st) = some (nodes, .at stod st') ∧
      st'.cursor.rest = after ∧ List.Forall₂ (Materializes fromString) nodes vs) ∨
  ((¬ ∀ v ∈ vs, Readable v) ∧ ∀ nodes last,
    parseElements stod fuel (.at stod st) = some (nodes, last) →
      ¬ List.Forall₂ (Materializes fromString) nodes vs)

theorem parseElements_error {p : Parser} (h : p.current.kind = .error) (fuel : Nat) :
    parseElements stod fuel p = none := by
  match fuel with
  | 0 => rfl
  | 1 => simp [parseElements, parseElement, h]
  | fuel + 2 => simp [parseElements, parseElement, h]

theorem parseElements_begins {p : Parser} (h : beginsLiteral p.current.kind = true) (fuel : Nat) :
    parseElements stod (fuel + 1) p = (parseElement stod fuel p).bind fun (element, next) =>
      (parseElements stod fuel next).map fun (elements, last) => (element :: elements, last) := by
  rw [parseElements]
  cases hkind : p.current.kind <;> first | rfl | (rw [hkind] at h; cases h)

theorem outcomes_nil (hfuel : fuel ≠ 0) (hst : st.cursor.rest = ')' :: after) :
    Outcomes stod fromString fuel st after [] := by
  obtain ⟨fuel, rfl⟩ := Nat.exists_eq_succ_of_ne_zero hfuel
  obtain ⟨hkind, hrest⟩ := lexOne_close stod hst
  have hparse : parseElements stod (fuel + 1) (.at stod st)
      = some ([], .at stod (lexOne stod st).2) := by
    rw [parseElements]
    simp only [Parser.at, hkind]
    rfl
  exact .inl ⟨fun v hv => (List.not_mem_nil hv).elim, [], _, hparse, hrest, .nil⟩

variable {vs : List Value}

/-- An element in front of others. -/
theorem outcomes_cons {middle : List Char} (hfirst : Outcome stod fromString fuel st middle v)
    (hrest : ∀ st' : State, st'.cursor.rest = middle → Outcomes stod fromString fuel st' after vs) :
    Outcomes stod fromString (fuel + 1) st after (v :: vs) := by
  rcases hfirst with ⟨hv, hbegins, node, st', hparse, hmiddle, hvalue⟩ | ⟨hv, hother⟩
  · have hcons := @parseElements_begins stod (.at stod st) hbegins fuel
    rw [hparse, Option.bind_some] at hcons
    dsimp only at hcons
    rcases hrest st' hmiddle with ⟨hvs, nodes, st'', hnodes, hafter, hvalues⟩ | ⟨hvs, hothers⟩
    · rw [hnodes] at hcons
      exact .inl ⟨List.forall_mem_cons.mpr ⟨hv, hvs⟩, node :: nodes, st'', hcons, hafter,
        .cons hvalue hvalues⟩
    · refine .inr ⟨fun h => hvs (List.forall_mem_cons.mp h).2, fun nodes last hsome hall => ?_⟩
      rw [hcons] at hsome
      obtain ⟨⟨rest, last'⟩, hnodes, heq⟩ := Option.map_eq_some_iff.mp hsome
      cases heq
      cases hall with
      | cons _ hall => exact hothers _ _ hnodes hall
  · refine .inr ⟨fun h => hv (List.forall_mem_cons.mp h).1, fun nodes last hsome hall => ?_⟩
    cases hall with
    | cons hvalue hall =>
      rw [parseElements] at hsome
      split at hsome
      · cases hsome
      · cases hsome
      obtain ⟨⟨node, next⟩, hparse, hmap⟩ := Option.bind_eq_some_iff.mp hsome
      obtain ⟨⟨nodes, last'⟩, hnodes, heq⟩ := Option.map_eq_some_iff.mp hmap
      cases heq
      rw [parseElements_error (hother _ _ hparse hvalue)] at hnodes
      cases hnodes

/-- An array of the elements between `#(` and the parenthesis. -/
theorem outcome_array {inner : List Char} (hbefore : ∀ c ∈ before, isSpace c = true)
    (hst : st.cursor.rest = before ++ '#' :: '(' :: inner)
    (helements : ∀ st' : State, st'.cursor.rest = inner → endsOperand st'.prevReturnedKind = false →
      Outcomes stod fromString fuel st' after vs) :
    Outcome stod fromString (fuel + 1) st after (.array vs) := by
  obtain ⟨hkind, hprev, hrest⟩ := lexOne_open stod hbefore hst
  have hparse : parseElement stod (fuel + 1) (.at stod st)
      = (parseElements stod fuel (.at stod (lexOne stod st).2)).map
        fun (elements, last) => (.array elements, last) := by
    rw [parseElement]
    simp only [Parser.at, hkind]
    rfl
  have hbegins : beginsLiteral (lexOne stod st).1.kind = true := by
    rw [hkind]
    rfl
  rcases helements _ hrest (by rw [hprev]; rfl) with ⟨hvs, nodes, st', hnodes, hafter, hvalues⟩ |
    ⟨hvs, hothers⟩
  · rw [hnodes] at hparse
    exact .inl ⟨.array hvs, hbegins, .array nodes, st', hparse, hafter, .array hvalues⟩
  · have hreadable : ¬ Readable (.array vs) := by
      intro h
      cases h with
      | array h => exact hvs h
    refine .inr ⟨hreadable, fun node last hsome hvalue => ?_⟩
    rw [hparse] at hsome
    obtain ⟨⟨nodes, last'⟩, hnodes, heq⟩ := Option.map_eq_some_iff.mp hsome
    cases heq
    cases hvalue with
    | array hvalues => exact absurd hvalues (hothers _ _ hnodes)

theorem utf8_ne_nil (h : text ≠ []) : utf8 text ≠ [] := by
  obtain ⟨cp, text, rfl⟩ := List.exists_cons_of_ne_nil h
  rw [utf8_cons]
  refine List.append_ne_nil_of_left_ne_nil ?_ _
  by_cases hcp : cp.val < 128
  · rw [encodeCodepoint_ascii hcp]
    exact List.cons_ne_nil _ _
  · obtain ⟨b, c, bs, hbytes, -⟩ := encodeCodepoint_high (Nat.not_lt.mp hcp)
    rw [hbytes]
    exact List.cons_ne_nil _ _

theorem formatBigInteger_chars {n : Int} {c : Char} (hc : c ∈ formatBigInteger n) :
    c = '-' ∨ c.isDigit = true := by
  obtain ⟨digits, htext, -⟩ := formatBigInteger_eq n
  rw [htext] at hc
  rcases List.mem_append.mp hc with hc | hc
  · cases hneg : decide (n < 0) with
    | false =>
      rw [hneg] at hc
      cases hc
    | true =>
      rw [hneg] at hc
      exact .inl (List.mem_singleton.mp hc)
  · exact .inr (digits.isDigit c hc)

theorem formatBigInteger_ascii (n : Int) : ∀ c ∈ formatBigInteger n, c.toNat < 128 := by
  intro c hc
  rcases formatBigInteger_chars hc with rfl | hdigit
  · decide
  · rw [Char.isDigit, Bool.and_eq_true, decide_eq_true_eq, decide_eq_true_eq] at hdigit
    have hbounds : 48 ≤ c.toNat ∧ c.toNat ≤ 57 := hdigit
    omega

theorem formatBigInteger_ne_nil (n : Int) : formatBigInteger n ≠ [] := by
  obtain ⟨digits, htext, -⟩ := formatBigInteger_eq n
  rw [htext]
  exact List.append_ne_nil_of_right_ne_nil _ digits.nonempty

theorem printOn_ne_nil (depth : Nat) (v : Value) : printOn depth v ≠ [] := by
  cases v with
  | integer n => simpa [printOn, codePoints] using formatBigInteger_ne_nil n
  | symbol text =>
    rw [printOn]
    split <;> exact List.cons_ne_nil _ _
  | array elements =>
    rw [printOn]
    split <;> exact List.cons_ne_nil _ _
  | string | character | true | false | nil => exact List.cons_ne_nil _ _

theorem fuel_ne_zero {depth : Nat} (hfuel : (utf8 (printOn depth v)).length ≤ fuel) :
    fuel ≠ 0 := by
  have hpos := List.length_pos_of_ne_nil (utf8_ne_nil (printOn_ne_nil depth v))
  omega

/-- Wherever the printed value stands, the parser makes of it what it is. -/
def Reads (stod : List Char → Option (BitVec 64)) (fromString : List Char → Int → Int)
    (depth : Nat) (v : Value) : Prop :=
  ∀ (st : State) (before after : List Char) (fuel : Nat), (∀ c ∈ before, isSpace c = true) →
    EndsLiteral after → (endsOperand st.prevReturnedKind = false ∨ before ≠ []) →
    (utf8 (printOn depth v)).length ≤ fuel →
    st.cursor.rest = before ++ (utf8 (printOn depth v) ++ after) →
    Outcome stod fromString fuel st after v

/-- Likewise of the elements of an array, with `lead` in front of the first. -/
def ReadsElements (stod : List Char → Option (BitVec 64)) (fromString : List Char → Int → Int)
    (depth : Nat) (vs : List Value) : Prop :=
  ∀ (lead : List CodePoint) (st : State) (after : List Char) (fuel : Nat),
    (lead = [] ∨ lead = [32]) → (endsOperand st.prevReturnedKind = false ∨ lead ≠ []) →
    (utf8 (printElementsOn depth lead vs)).length + 2 ≤ fuel + lead.length →
    st.cursor.rest = utf8 (printElementsOn depth lead vs) ++ ')' :: after →
    Outcomes stod fromString fuel st after vs

variable {depth : Nat}

theorem reads_integer (hFrom : ReadsDigits fromString) (n : Int) :
    Reads stod fromString depth (.integer n) := by
  intro st before after fuel hbefore hafter hsign hfuel hst
  have hpos := fuel_ne_zero hfuel
  rw [printOn, utf8_codePoints (formatBigInteger_ascii n)] at hst
  exact outcome_integer hFrom n hbefore hafter hsign hpos hst

theorem reads_string (text : List CodePoint) : Reads stod fromString depth (.string text) := by
  intro st before after fuel hbefore hafter _ hfuel hst
  have hpos := fuel_ne_zero hfuel
  rw [printOn] at hst
  refine outcome_quoted ?_ ?_ hbefore hafter hpos hst
  · constructor
    · intro h
      cases h with
      | string h => exact h
    · exact .string
  · constructor
    · intro h
      cases h with
      | string h => exact h
    · exact .string

theorem reads_character (c : CodePoint) : Reads stod fromString depth (.character c) := by
  intro st before after fuel hbefore hafter _ hfuel hst
  have hpos := fuel_ne_zero hfuel
  rw [printOn] at hst
  exact outcome_character c hbefore hafter hpos hst

theorem reads_symbol
    (hselector : embedded text = true ∨ IsSelector stod (utf8 text)) :
    Reads stod fromString depth (.symbol text) := by
  intro st before after fuel hbefore hafter _ hfuel hst
  have hpos := fuel_ne_zero hfuel
  rw [printOn] at hst
  cases hembedded : embedded text with
  | false =>
    rw [hembedded] at hselector
    rw [hembedded, if_neg Bool.false_ne_true] at hst
    exact outcome_selector hembedded (hselector.resolve_left Bool.false_ne_true) hbefore hafter
      hpos hst
  | true =>
    rw [hembedded, if_pos rfl] at hst
    refine outcome_quoted ?_ ?_ hbefore hafter hpos hst
    · constructor
      · intro h
        cases h with
        | short _ h => exact h
        | name hlong _ =>
          rw [hembedded] at hlong
          cases hlong
      · exact .short hembedded
    · constructor
      · intro h
        cases h with
        | stringSymbol _ h => exact h
      · exact .stringSymbol hembedded

theorem reads_true : Reads stod fromString depth .true := by
  intro st before after fuel hbefore hafter _ hfuel hst
  exact outcome_word isName_true (fun t ht => .trueWord (ht.trans (by decide))) .true .true
    hbefore hafter (fuel_ne_zero hfuel) hst

theorem reads_false : Reads stod fromString depth .false := by
  intro st before after fuel hbefore hafter _ hfuel hst
  exact outcome_word isName_false (fun t ht => .falseWord (ht.trans (by decide))) .false .false
    hbefore hafter (fuel_ne_zero hfuel) hst

theorem reads_nil : Reads stod fromString depth .nil := by
  intro st before after fuel hbefore hafter _ hfuel hst
  exact outcome_word isName_nil (fun t ht => .nilWord (ht.trans (by decide))) .nil .nil
    hbefore hafter (fuel_ne_zero hfuel) hst

theorem readsElements_nil : ReadsElements stod fromString depth [] := by
  intro lead st after fuel hlead _ hfuel hst
  have hpos : fuel ≠ 0 := by
    rcases hlead with rfl | rfl
    · simp at hfuel
      omega
    · simp at hfuel
      omega
  exact outcomes_nil hpos hst

/-- Behind an element there is a blank or the parenthesis. -/
theorem readsElements_cons (hv : Reads stod fromString depth v)
    (hvs : ReadsElements stod fromString depth vs) :
    ReadsElements stod fromString depth (v :: vs) := by
  intro lead st after fuel hlead hsign hfuel hst
  rw [printElementsOn, utf8_append, utf8_append] at hst hfuel
  have hlength : (utf8 lead).length = lead.length := by
    rcases hlead with rfl | rfl <;> rfl
  rw [List.length_append, List.length_append, hlength] at hfuel
  obtain ⟨fuel, rfl⟩ : ∃ n, fuel = n + 1 := ⟨fuel - 1, by omega⟩
  have hblank : ∀ c ∈ utf8 lead, isSpace c = true := by
    rcases hlead with rfl | rfl
    · intro c hc
      cases hc
    · intro c hc
      rw [List.mem_singleton.mp hc]
      decide
  have hends : EndsLiteral (utf8 (printElementsOn depth [32] vs) ++ ')' :: after) := by
    intro c hc
    cases vs with
    | nil =>
      cases hc
      exact .inr rfl
    | cons w ws =>
      cases hc
      exact .inl rfl
  have hsign' : endsOperand st.prevReturnedKind = false ∨ utf8 lead ≠ [] :=
    hsign.imp_right utf8_ne_nil
  rw [List.append_assoc, List.append_assoc] at hst
  refine outcomes_cons (hv st _ _ fuel hblank hends hsign' (by omega) hst) ?_
  intro st' hst'
  refine hvs [32] st' after fuel (.inr rfl) (.inr (List.cons_ne_nil _ _)) ?_ hst'
  rw [List.length_singleton]
  omega

theorem reads_array (hdepth : depth < 16) (hvs : ReadsElements stod fromString (depth + 1) vs) :
    Reads stod fromString depth (.array vs) := by
  intro st before after fuel hbefore hafter _ hfuel hst
  have htext : utf8 (printOn depth (.array vs))
      = '#' :: '(' :: (utf8 (printElementsOn (depth + 1) [] vs) ++ [')']) := by
    rw [printOn, if_neg (by omega), utf8_cons, utf8_cons, utf8_append]
    rfl
  rw [htext] at hst hfuel
  simp only [List.length_cons, List.length_append, List.length_nil] at hfuel
  obtain ⟨fuel, rfl⟩ : ∃ n, fuel = n + 1 := ⟨fuel - 1, by omega⟩
  rw [List.cons_append, List.cons_append, List.append_assoc] at hst
  refine outcome_array hbefore hst fun st' hst' hprev => ?_
  refine hvs [] st' after fuel (.inl rfl) (.inl hprev) ?_ hst'
  rw [List.length_nil]
  omega

mutual

/-- The parser reads a printed value, by what it is made of. -/
theorem outcome (hFrom : ReadsDigits fromString) : ∀ (v : Value) {depth levels : Nat},
    depth + levels ≤ 16 → Built stod levels v → Reads stod fromString depth v
  | .integer n, _, _, _, _ => reads_integer hFrom n
  | .string text, _, _, _, _ => reads_string text
  | .character c, _, _, _, _ => reads_character c
  | .symbol text, _, levels, _, hbuilt => by
    have hselector : embedded text = true ∨ IsSelector stod (utf8 text) := by
      cases levels <;> exact hbuilt
    exact reads_symbol hselector
  | .true, _, _, _, _ => reads_true
  | .false, _, _, _, _ => reads_false
  | .nil, _, _, _, _ => reads_nil
  | .array _, _, 0, _, hbuilt => hbuilt.elim
  | .array elements, depth, levels + 1, hlevels, hbuilt => by
    have hdepth : depth + 1 + levels ≤ 16 := by omega
    have hinner := outcomes hFrom elements hdepth hbuilt
    exact reads_array (by omega) hinner

theorem outcomes (hFrom : ReadsDigits fromString) : ∀ (vs : List Value) {depth levels : Nat},
    depth + levels ≤ 16 → (∀ v ∈ vs, Built stod levels v) → ReadsElements stod fromString depth vs
  | [], _, _, _, _ => readsElements_nil
  | v :: vs, _, _, hlevels, hbuilt => by
    obtain ⟨hv, hvs⟩ := List.forall_mem_cons.mp hbuilt
    exact readsElements_cons (outcome hFrom v hlevels hv) (outcomes hFrom vs hlevels hvs)

end

/-! ## The whole text -/

/-- The lexer takes a text that begins with `#!` for an interpreter line: the symbol of an operator,
of which it leaves nothing. -/
theorem interpreter_line (hbuilt : Built stod 16 v)
    (hline : (utf8 (printString v)).take 2 = "#!".toList) :
    ¬ Readable v ∧ '\n' ∉ utf8 (printString v) := by
  obtain ⟨rest, htext⟩ : ∃ rest, utf8 (printString v) = '#' :: '!' :: rest := by
    refine ⟨(utf8 (printString v)).drop 2, ?_⟩
    have happend := List.take_append_drop 2 (utf8 (printString v))
    rw [hline] at happend
    exact happend.symm
  cases v with
  | integer n =>
    rw [printString, printOn, utf8_codePoints (formatBigInteger_ascii n)] at htext
    have hmem : '#' ∈ formatBigInteger n := by
      rw [htext]
      exact List.mem_cons_self
    exact absurd (formatBigInteger_chars hmem) (by decide)
  | symbol text =>
    rw [printString, printOn] at htext ⊢
    cases hembedded : embedded text with
    | true =>
      rw [hembedded, if_pos rfl, utf8_quoted] at htext
      cases htext
    | false =>
      rw [hembedded, if_neg Bool.false_ne_true, utf8_cons] at htext
      rw [if_neg Bool.false_ne_true, utf8_cons]
      have hbytes : utf8 text = '!' :: rest := (List.cons.inj htext).2
      have hselector : IsSelector stod (utf8 text) :=
        Or.resolve_left hbuilt (by rw [hembedded]; exact Bool.false_ne_true)
      have hrun := run_of_head hselector hbytes (by decide)
      refine ⟨not_readable_operator hembedded hrun, fun hmem => ?_⟩
      rcases List.mem_append.mp hmem with hmem | hmem
      · exact absurd hmem (by decide)
      · exact absurd (hrun _ hmem) (by decide)
  | array elements =>
    rw [printString, printOn, if_neg (by decide)] at htext
    cases htext
  | string | character | true | false | nil => cases htext

theorem start_of_not_line {text : List Char} (h : text.take 2 ≠ "#!".toList) :
    State.start text = ⟨⟨text, 1, 1⟩, .endOfFile⟩ := by
  rw [State.start, if_neg h]

/-- **Printed literals read back** if and only if every Character is one byte and not NUL, no String
has the code point 0, and no symbol of more than 6 bytes is an operator. -/
theorem readsBack_iff (hFrom : ReadsDigits fromString) {v : Value} (hbuilt : Built stod 16 v) :
    ReadsBack stod fromString v ↔ Readable v := by
  by_cases hline : (utf8 (printString v)).take 2 = "#!".toList
  · obtain ⟨hreadable, hnewline⟩ := interpreter_line hbuilt hline
    refine iff_of_false ?_ hreadable
    rintro ⟨node, last, hparse, -, -⟩
    have hrest : (State.start (utf8 (printString v))).cursor.rest = [] := by
      rw [State.start, if_pos hline]
      refine List.dropWhile_eq_nil_iff.mpr fun c hc => ?_
      simp only [ne_eq, decide_not, Bool.not_eq_true', decide_eq_false_iff_not]
      rintro rfl
      exact hnewline hc
    have hkind : (lexOne stod _).1.kind = .endOfFile := lexOne_of_rest_nil hrest
    have hbegins : beginsLiteral (Parser.at stod
        (State.start (utf8 (printString v)))).current.kind = false := by
      rw [Parser.at, hkind]
      rfl
    rw [parsePrimary, hbegins, if_neg Bool.false_ne_true] at hparse
    cases hparse
  · have hstart := start_of_not_line hline
    have houtcome := outcome hFrom v (Nat.le_refl (0 + 16)) hbuilt
      (State.start (utf8 (printString v))) [] [] ((utf8 (printString v)).length + 1)
      blanks_nil (fun c hc => by cases hc) (.inl (by rw [hstart]; rfl))
      (Nat.le_succ _) (by rw [hstart, List.append_nil]; rfl)
    rcases houtcome with ⟨hreadable, hbegins, node, st', hparse, hrest, hvalue⟩ |
      ⟨hreadable, hother⟩
    · have hend : (Parser.at stod st').current.kind = .endOfFile := lexOne_of_rest_nil hrest
      refine iff_of_true ⟨node, _, ?_, hend, hvalue⟩ hreadable
      exact (if_pos hbegins).trans hparse
    · refine iff_of_false ?_ hreadable
      rintro ⟨node, last, hparse, hend, hvalue⟩
      rw [parsePrimary] at hparse
      split at hparse
      · rw [hother node last hparse hvalue] at hend
        cases hend
      · cases hparse

/-- An Array of a negative integer, a quote, a parenthesis, a keyword selector and an empty
Array. -/
def nested : Value :=
  .array [.integer (-3), .string [39, 233], .character 41,
    .symbol (codePoints "at:put:".toList), .array []]

theorem isSelector_atPut : IsSelector stod (utf8 (codePoints "at:put:".toList)) := by
  have htext : utf8 (codePoints "at:put:".toList) = keywordChain ["at".toList, "put".toList] := by
    decide
  rw [htext]
  refine .keywords (by decide) fun p hp => ?_
  rcases List.mem_cons.mp hp with rfl | hp
  · exact ⟨'a', ['t'], rfl, by decide, List.all_eq_true.mp (by decide)⟩
  · rw [List.mem_singleton.mp hp]
    exact ⟨'p', ['u', 't'], rfl, by decide, List.all_eq_true.mp (by decide)⟩

theorem readsBack_iff_nested : ReadsBack (fun _ => none) readDigits nested := by
  have hbuilt : Built (fun _ => none) 16 nested := by
    simp only [nested, Built, List.forall_mem_cons, List.not_mem_nil, false_imp_iff, implies_true,
      and_true, true_and]
    exact .inr isSelector_atPut
  refine (readsBack_iff readsDigits_readDigits hbuilt).mpr (.array ?_)
  simp only [List.forall_mem_cons, List.not_mem_nil, false_imp_iff, implies_true, and_true]
  exact ⟨.integer _, .string (by decide), .character (by decide) (by decide),
    .name (by decide) (by decide), .array fun v hv => (List.not_mem_nil hv).elim⟩

/-- The Character of two bytes: the second one is left behind the literal. -/
theorem character_not_read : Built (fun _ => none) 16 (.character 233) ∧
    ¬ ReadsBack (fun _ => none) readDigits (.character 233) := by
  refine ⟨trivial, ?_⟩
  rintro ⟨node, last, hparse, hend, -⟩
  have hkind : (parsePrimary (fun _ => none) 4 (.at (fun _ => none)
      (State.start (utf8 [36, 233])))).map (fun result => result.2.current.kind) = some .error := by
    decide
  have hsome : parsePrimary (fun _ => none) 4 (.at (fun _ => none)
      (State.start (utf8 [36, 233]))) = some (node, last) := hparse
  rw [hsome, Option.map_some, hend] at hkind
  cases hkind

end Elements

end ProtoST.Kernel.PrintedLiterals

import ProtoST.Json.Acceptance
import Mathlib.Data.Nat.Digits.Lemmas

/-!
# Parsing what was rendered

`JSON stringify:` writes the text of a tree, which denotes the value it was given, or it signals;
and `JSON parse:` answers that value from what was written.

## Main results

* `parse_stringify_iff` — the round trip succeeds if and only if no string has a control
  character without an escape of one letter.
* `parse_stringify_signals` — the string of the character 1 is not rendered.
-/

namespace ProtoST.Json

open ProtoST.Lib

/-! ## Strings -/

/-- The piece that `stringifyString:` writes for a character, if it writes one. -/
def pieceOf (c : Code) : Option Piece :=
  if c = 34 then some (.escape .quote)
  else if c = 92 then some (.escape .backslash)
  else if c = 10 then some (.escape .lineFeed)
  else if c = 9 then some (.escape .tab)
  else if c = 13 then some (.escape .carriageReturn)
  else if c = 8 then some (.escape .backspace)
  else if c = 12 then some (.escape .formFeed)
  else if h : isUnescaped c = true then some (.plain c h)
  else none

/-- The pieces of a text. -/
def pieces (s : Str) : List Piece := s.filterMap pieceOf

/-- A character that is not rendered by its code. -/
def isPrintable (c : Code) : Bool :=
  32 ≤ c.val || c == 8 || c == 9 || c == 10 || c == 12 || c == 13

theorem isUnescaped_iff {c : Code} (hquote : c ≠ 34) (hbackslash : c ≠ 92) :
    isUnescaped c = true ↔ 32 ≤ c.val := by
  simp [isUnescaped, hquote, hbackslash]

/-- A character that is no piece is rendered by its code, and that signals. -/
theorem stringifyChar_eq (c : Code) : stringifyChar c =
    (pieceOf c).elim (.error (.messageNotUnderstood ",")) fun p => .ok p.text := by
  unfold pieceOf stringifyChar
  split
  · rfl
  rename_i hquote
  split
  · rfl
  rename_i hbackslash
  split
  · rfl
  split
  · rfl
  split
  · rfl
  split
  · rfl
  split
  · rfl
  by_cases hplain : isUnescaped c = true
  · have hle := (isUnescaped_iff hquote hbackslash).mp hplain
    rw [if_neg (by omega), dif_pos hplain, asString_of_le hle]
    rfl
  · have hlt := mt (isUnescaped_iff hquote hbackslash).mpr hplain
    rw [if_pos (by omega), dif_neg hplain]
    rfl

/-- The characters that are printable have a piece, and the others none. -/
theorem isSome_pieceOf (c : Code) : (pieceOf c).isSome = isPrintable c := by
  unfold pieceOf
  split
  · rename_i h
    rw [h]
    rfl
  rename_i hquote
  split
  · rename_i h
    rw [h]
    rfl
  rename_i hbackslash
  split
  · rename_i h
    rw [h]
    rfl
  rename_i h10
  split
  · rename_i h
    rw [h]
    rfl
  rename_i h9
  split
  · rename_i h
    rw [h]
    rfl
  rename_i h13
  split
  · rename_i h
    rw [h]
    rfl
  rename_i h8
  split
  · rename_i h
    rw [h]
    rfl
  rename_i h12
  split
  · rename_i hplain
    simp [isPrintable, (isUnescaped_iff hquote hbackslash).mp hplain]
  · rename_i hplain
    rw [isUnescaped_iff hquote hbackslash] at hplain
    simp [isPrintable, h8, h9, h10, h12, h13]
    omega

/-- A piece is no escape by code, and it denotes its character. -/
theorem pieceOf_spec {c : Code} {p : Piece} (h : pieceOf c = some p) :
    p.escaped = false ∧ p.unit = c := by
  unfold pieceOf at h
  repeat' split at h
  all_goals first
    | exact ⟨by rw [← Option.some.inj h]; rfl, by rw [← Option.some.inj h]; exact Eq.symm ‹_›⟩
    | exact ⟨by rw [← Option.some.inj h]; rfl, by rw [← Option.some.inj h]; rfl⟩
    | cases h

theorem pieces_cons {c : Code} {p : Piece} (h : pieceOf c = some p) (s : Str) :
    pieces (c :: s) = p :: pieces s := List.filterMap_cons_some h

theorem exists_pieceOf {c : Code} (h : isPrintable c = true) : ∃ p, pieceOf c = some p := by
  rwa [← isSome_pieceOf, Option.isSome_iff_exists] at h

theorem piecesEscaped_pieces (s : Str) : piecesEscaped (pieces s) = false := by
  simp only [piecesEscaped, List.any_eq_false, pieces, List.mem_filterMap]
  rintro p ⟨c, -, hp⟩
  rw [(pieceOf_spec hp).1]
  exact Bool.false_ne_true

variable {s : Str}

theorem decode_pieces (h : s.all isPrintable = true) : decode (pieces s) = s := by
  rw [decode_of_not_escaped (piecesEscaped_pieces s)]
  induction s with
  | nil => rfl
  | cons c s ih =>
      rw [List.all_cons, Bool.and_eq_true] at h
      obtain ⟨p, hp⟩ := exists_pieceOf h.1
      rw [pieces_cons hp, List.map_cons, ih h.2, (pieceOf_spec hp).2]

/-- The text of a String that is rendered. -/
def quotedText (s : Str) : Str := 34 :: (piecesText (pieces s) ++ [34])

theorem stringifyChars_ok (h : s.all isPrintable = true) :
    stringifyChars s = .ok (piecesText (pieces s)) := by
  induction s with
  | nil => rfl
  | cons c s ih =>
      rw [List.all_cons, Bool.and_eq_true] at h
      obtain ⟨p, hp⟩ := exists_pieceOf h.1
      rw [stringifyChars, stringifyChar_eq, hp, ih h.2, pieces_cons hp]
      rfl

theorem stringifyChars_error (h : s.all isPrintable = false) :
    stringifyChars s = .error (.messageNotUnderstood ",") := by
  induction s with
  | nil => cases h
  | cons c s ih =>
      rw [stringifyChars, stringifyChar_eq]
      cases hp : pieceOf c with
      | none => rfl
      | some p =>
          have hc : isPrintable c = true := by
            rw [← isSome_pieceOf, hp]
            rfl
          rw [List.all_cons, hc, Bool.true_and] at h
          rw [ih h]
          rfl

theorem stringifyString_ok (h : s.all isPrintable = true) :
    stringifyString s = .ok (quotedText s) := by
  rw [stringifyString, stringifyChars_ok h]
  rfl

theorem stringifyString_error (h : s.all isPrintable = false) :
    stringifyString s = .error (.messageNotUnderstood ",") := by
  rw [stringifyString, stringifyChars_error h]
  rfl

/-! ## Integers -/

def digitsOf (n : Nat) : Digits :=
  if h : n = 0 then ⟨[0], by simp⟩
  else ⟨(Nat.digits 10 n).reverse.map (Fin.ofNat 10), by
    simpa [Nat.digits_ne_nil_iff_ne_zero] using h⟩

theorem digitCode_ofNat {d : Nat} (h : d < 10) :
    digitCode (Fin.ofNat 10 d) = ofChar (Nat.digitChar d) := by
  revert d
  decide

theorem text_digitsOf (n : Nat) : digitText (digitsOf n).1 = printNat n := by
  unfold digitsOf printNat
  split
  · rfl
  · unfold digitText
    rw [List.map_map]
    exact List.map_congr_left fun d hd =>
      digitCode_ofNat (Nat.digits_lt_base (by decide) (List.mem_reverse.mp hd))

theorem digitsValue_reverse {l : List Nat} (h : ∀ d ∈ l, d < 10) :
    digitsValue (l.reverse.map (Fin.ofNat 10)) = Nat.ofDigits 10 l := by
  unfold digitsValue
  rw [List.foldl_map, List.foldl_reverse]
  induction l with
  | nil => rfl
  | cons d l ih =>
      have hd : d % 10 = d := Nat.mod_eq_of_lt (h d List.mem_cons_self)
      rw [List.foldr_cons, ih fun x hx => h x (List.mem_cons_of_mem d hx), Nat.ofDigits_cons]
      show Nat.ofDigits 10 l * 10 + d % 10 = d + 10 * Nat.ofDigits 10 l
      omega

theorem value_digitsOf (n : Nat) : digitsValue (digitsOf n).1 = n := by
  unfold digitsOf
  split
  · rename_i h
    rw [h]
    rfl
  · show digitsValue ((Nat.digits 10 n).reverse.map (Fin.ofNat 10)) = n
    rw [digitsValue_reverse fun d hd => Nat.digits_lt_base (by decide) hd, Nat.ofDigits_digits]

/-- A number is rendered without zeros before it. -/
theorem head?_digitsOf (n : Nat) :
    (digitsOf n).1.head? = some 0 → (digitsOf n).1.length = 1 := by
  unfold digitsOf
  split
  · exact fun _ => rfl
  · rename_i hn
    intro hhead
    have hne := Nat.digits_ne_nil_iff_ne_zero (b := 10) |>.mpr hn
    have hlast := Nat.getLast_digit_ne_zero 10 hn
    have hlt := Nat.digits_lt_base (b := 10) (by decide) (List.getLast_mem hne)
    have hzero : Fin.ofNat 10 ((Nat.digits 10 n).getLast hne) = 0 := by
      simpa [List.head?_reverse, List.getLast?_eq_some_getLast hne] using hhead
    have hval := congrArg Fin.val hzero
    rw [Fin.val_ofNat, Nat.mod_eq_of_lt hlt] at hval
    exact absurd hval hlast

/-- The number that is written for an Integer. -/
def integerDoc (n : Int) : Number where
  negative := n < 0
  int := digitsOf n.natAbs
  frac := none
  exp := none

theorem text_integerDoc (n : Int) : (integerDoc n).text = printInteger n := by
  unfold integerDoc Number.text printInteger
  simp only [Number.fracText, Number.expText, List.append_nil, text_digitsOf, decide_eq_true_eq]
  split <;> rfl

theorem lax_integerDoc (n : Int) : (integerDoc n).lax = false := by
  have hhead := head?_digitsOf n.natAbs
  unfold integerDoc Number.lax
  rw [Bool.or_eq_false_iff, Bool.and_eq_false_iff]
  refine ⟨?_, rfl⟩
  by_cases hzero : (digitsOf n.natAbs).1.head? = some 0
  · exact .inr (by simp [hhead hzero])
  · exact .inl (by simpa using hzero)

theorem value_integerDoc {F : Type} [FloatOps F] (n : Int) :
    (integerDoc n).value = (.integer n : Value F) := by
  unfold integerDoc Number.value numberOf
  simp only [Option.map_none, value_digitsOf, decide_eq_true_eq]
  congr 1
  split <;> omega

/-! ## Values -/

section Values

variable {F : Type}

mutual

/-- A value without Floats, and with distinct keys in every Dictionary. -/
def Value.isPlain : Value F → Bool
  | .float _ => false
  | .array items => itemsPlain items
  | .dictionary entries => (entries.map Prod.fst).Nodup && entriesPlain entries
  | _ => true

def itemsPlain : List (Value F) → Bool
  | [] => true
  | v :: vs => v.isPlain && itemsPlain vs

def entriesPlain : List (Str × Value F) → Bool
  | [] => true
  | (_, v) :: rest => v.isPlain && entriesPlain rest

end

mutual

/-- No string, and no key, has a character that is rendered by its code. -/
def Value.isPrintable : Value F → Bool
  | .string s => s.all Json.isPrintable
  | .array items => itemsPrintable items
  | .dictionary entries => entriesPrintable entries
  | _ => true

def itemsPrintable : List (Value F) → Bool
  | [] => true
  | v :: vs => v.isPrintable && itemsPrintable vs

def entriesPrintable : List (Str × Value F) → Bool
  | [] => true
  | (k, v) :: rest => k.all Json.isPrintable && v.isPrintable && entriesPrintable rest

end

def noWs : Ws := ⟨[], fun _ h => by cases h⟩

mutual

/-- The tree that `stringifyValue:` writes. -/
def docOf : Value F → Doc
  | .nil => .null
  | .boolean b => .boolean b
  | .integer n => .number (integerDoc n)
  | .float _ => .null
  | .string s => .string (pieces s)
  | .array [] => .emptyArray noWs
  | .array (v :: vs) => .array (elementsOf (v :: vs))
  | .dictionary [] => .emptyObject noWs
  | .dictionary (e :: es) => .object (membersOf (e :: es))

def elementsOf : List (Value F) → Elements
  | [] => .last noWs .null noWs
  | [v] => .last noWs (docOf v) noWs
  | v :: w :: vs => .more noWs (docOf v) noWs (elementsOf (w :: vs))

def membersOf : List (Str × Value F) → Members
  | [] => .last noWs [] noWs noWs .null noWs
  | [(k, v)] => .last noWs (pieces k) noWs noWs (docOf v) noWs
  | (k, v) :: e :: es => .more noWs (pieces k) noWs noWs (docOf v) noWs (membersOf (e :: es))

end

mutual

theorem lax_docOf : ∀ v : Value F, (docOf v).lax = false
  | .nil => rfl
  | .boolean _ => rfl
  | .integer n => lax_integerDoc n
  | .float _ => rfl
  | .string _ => rfl
  | .array [] => rfl
  | .array (v :: vs) => lax_elementsOf (v :: vs)
  | .dictionary [] => rfl
  | .dictionary (e :: es) => lax_membersOf (e :: es)

theorem lax_elementsOf : ∀ vs : List (Value F), (elementsOf vs).lax = false
  | [] => rfl
  | [v] => lax_docOf v
  | v :: w :: vs => by
      rw [elementsOf, Elements.lax, lax_docOf v, lax_elementsOf (w :: vs)]
      rfl

theorem lax_membersOf : ∀ es : List (Str × Value F), (membersOf es).lax = false
  | [] => rfl
  | [(_, v)] => lax_docOf v
  | (_, v) :: e :: es => by
      rw [membersOf, Members.lax, lax_docOf v, lax_membersOf (e :: es)]
      rfl

end

mutual

theorem escaped_docOf : ∀ v : Value F, (docOf v).escaped = false
  | .nil => rfl
  | .boolean _ => rfl
  | .integer _ => rfl
  | .float _ => rfl
  | .string s => piecesEscaped_pieces s
  | .array [] => rfl
  | .array (v :: vs) => escaped_elementsOf (v :: vs)
  | .dictionary [] => rfl
  | .dictionary (e :: es) => escaped_membersOf (e :: es)

theorem escaped_elementsOf : ∀ vs : List (Value F), (elementsOf vs).escaped = false
  | [] => rfl
  | [v] => escaped_docOf v
  | v :: w :: vs => by
      rw [elementsOf, Elements.escaped, escaped_docOf v, escaped_elementsOf (w :: vs)]
      rfl

theorem escaped_membersOf : ∀ es : List (Str × Value F), (membersOf es).escaped = false
  | [] => rfl
  | [(k, v)] => by
      rw [membersOf, Members.escaped, escaped_docOf v, piecesEscaped_pieces]
      rfl
  | (k, v) :: e :: es => by
      rw [membersOf, Members.escaped, escaped_docOf v, piecesEscaped_pieces,
        escaped_membersOf (e :: es)]
      rfl

end

/-! ## Dictionaries -/

theorem put_of_notMem {dict : List (Str × Value F)} {k : Str} {v : Value F}
    (h : k ∉ dict.map Prod.fst) : put dict k v = dict ++ [(k, v)] := by
  induction dict with
  | nil => rfl
  | cons e dict ih =>
      simp only [List.map_cons, List.mem_cons, not_or] at h
      rw [put, if_neg (Ne.symm h.1), ih h.2]
      rfl

theorem foldl_put {es dict : List (Str × Value F)}
    (h : ((dict ++ es).map Prod.fst).Nodup) :
    es.foldl (fun dict e => put dict e.1 e.2) dict = dict ++ es := by
  induction es generalizing dict with
  | nil => simp
  | cons e es ih =>
      have hnotMem : e.1 ∉ dict.map Prod.fst := by
        rw [List.map_append, List.map_cons] at h
        intro hmem
        exact List.disjoint_of_nodup_append h hmem List.mem_cons_self
      rw [List.foldl_cons, put_of_notMem hnotMem, ih (by simpa using h), List.append_assoc]
      rfl

theorem lookup_of_mem {dict : List (Str × Value F)} {k : Str} {v : Value F}
    (h : (dict.map Prod.fst).Nodup) (hmem : (k, v) ∈ dict) : lookup dict k = some v := by
  induction dict with
  | nil => cases hmem
  | cons e dict ih =>
      obtain ⟨k', v'⟩ := e
      rw [List.map_cons, List.nodup_cons] at h
      unfold lookup
      rcases List.mem_cons.mp hmem with heq | hmem
      · cases heq
        rw [if_pos rfl]
      · have hne : k' ≠ k := by
          rintro rfl
          exact h.1 (List.mem_map.mpr ⟨_, hmem, rfl⟩)
        rw [if_neg hne, ih h.2 hmem]

variable [FloatOps F]

/-! ## Parts -/

theorem joinParts_cons {part : Str} {rest : List Str} (h : rest ≠ []) :
    joinParts (part :: rest) = part ++ 44 :: joinParts rest := by
  obtain ⟨p, ps, rfl⟩ := List.exists_cons_of_ne_nil h
  rfl

theorem map_eq_ok {ε α β : Type} {x : Except ε α} {f : α → β} {b : β} (h : x.map f = .ok b) :
    ∃ a, x = .ok a ∧ f a = b := by
  cases x with
  | error e => cases h
  | ok a => exact ⟨a, rfl, Except.ok.inj h⟩

theorem bind_eq_ok {ε α β : Type} {x : Except ε α} {f : α → Except ε β} {b : β}
    (h : x.bind f = .ok b) : ∃ a, x = .ok a ∧ f a = .ok b := by
  cases x with
  | error e => cases h
  | ok a => exact ⟨a, rfl, h⟩

theorem stringifyItems_ne_nil {v : Value F} {vs : List (Value F)} {parts : List Str}
    (h : stringifyItems (v :: vs) = .ok parts) : parts ≠ [] := by
  rw [stringifyItems] at h
  obtain ⟨part, -, h⟩ := bind_eq_ok h
  obtain ⟨rest, -, rfl⟩ := map_eq_ok h
  exact List.cons_ne_nil part rest

theorem stringifyEntries_ne_nil {e : Str × Value F} {es : List (Str × Value F)}
    {parts : List Str} (h : stringifyEntries (e :: es) = .ok parts) : parts ≠ [] := by
  rw [stringifyEntries] at h
  obtain ⟨key, -, h⟩ := bind_eq_ok h
  obtain ⟨part, -, h⟩ := bind_eq_ok h
  obtain ⟨rest, -, rfl⟩ := map_eq_ok h
  exact List.cons_ne_nil _ rest

/-! ## The text and what it denotes -/

mutual

/-- Where every string is printable, what is written is the text of the tree. -/
theorem text_docOf : ∀ v : Value F, v.isPlain = true → v.isPrintable = true →
    stringify v = .ok (docOf v).text
  | .nil, _, _ => rfl
  | .boolean true, _, _ => rfl
  | .boolean false, _, _ => rfl
  | .integer n, _, _ => congrArg Except.ok (text_integerDoc n).symm
  | .float _, h, _ => by cases h
  | .string _, _, hp => stringifyString_ok hp
  | .array [], _, _ => rfl
  | .array (v :: vs), h, hp => by
      obtain ⟨parts, hparts, htext⟩ := text_elementsOf (v :: vs) (by simp) h hp
      rw [stringify, hparts, docOf, Doc.text, htext]
      rfl
  | .dictionary [], _, _ => rfl
  | .dictionary (e :: es), h, hp => by
      rw [Value.isPlain, Bool.and_eq_true] at h
      obtain ⟨parts, hparts, htext⟩ := text_membersOf (e :: es) (by simp) h.2 hp
      rw [stringify, hparts, docOf, Doc.text, htext]
      rfl

theorem text_elementsOf : ∀ vs : List (Value F), vs ≠ [] → itemsPlain vs = true →
    itemsPrintable vs = true → ∃ parts, stringifyItems vs = .ok parts ∧
      (elementsOf vs).text = joinParts parts ++ [93]
  | [], h, _, _ => absurd rfl h
  | [v], _, h, hp => by
      rw [itemsPlain, Bool.and_eq_true] at h
      rw [itemsPrintable, Bool.and_eq_true] at hp
      refine ⟨[(docOf v).text], ?_, rfl⟩
      rw [stringifyItems, text_docOf v h.1 hp.1]
      rfl
  | v :: w :: vs, _, h, hp => by
      rw [itemsPlain, Bool.and_eq_true] at h
      rw [itemsPrintable, Bool.and_eq_true] at hp
      obtain ⟨parts, hparts, htext⟩ := text_elementsOf (w :: vs) (by simp) h.2 hp.2
      refine ⟨(docOf v).text :: parts, ?_, ?_⟩
      · rw [stringifyItems, text_docOf v h.1 hp.1, hparts]
        rfl
      · have hne := stringifyItems_ne_nil hparts
        rw [joinParts_cons hne, elementsOf, Elements.text, htext, List.append_assoc]
        rfl

theorem text_membersOf : ∀ es : List (Str × Value F), es ≠ [] → entriesPlain es = true →
    entriesPrintable es = true → ∃ parts, stringifyEntries es = .ok parts ∧
      (membersOf es).text = joinParts parts ++ [125]
  | [], h, _, _ => absurd rfl h
  | [(k, v)], _, h, hp => by
      rw [entriesPlain, Bool.and_eq_true] at h
      rw [entriesPrintable, Bool.and_eq_true, Bool.and_eq_true] at hp
      refine ⟨[quotedText k ++ 58 :: (docOf v).text], ?_, ?_⟩
      · rw [stringifyEntries, stringifyString_ok hp.1.1, text_docOf v h.1 hp.1.2]
        rfl
      · simp [membersOf, Members.text, joinParts, quotedText, noWs]
  | (k, v) :: e :: es, _, h, hp => by
      rw [entriesPlain, Bool.and_eq_true] at h
      rw [entriesPrintable, Bool.and_eq_true, Bool.and_eq_true] at hp
      obtain ⟨parts, hparts, htext⟩ := text_membersOf (e :: es) (by simp) h.2 hp.2
      refine ⟨(quotedText k ++ 58 :: (docOf v).text) :: parts, ?_, ?_⟩
      · rw [stringifyEntries, stringifyString_ok hp.1.1, text_docOf v h.1 hp.1.2, hparts]
        rfl
      · have hne := stringifyEntries_ne_nil hparts
        rw [joinParts_cons hne, membersOf, Members.text, htext]
        simp [quotedText, noWs]

end

mutual

/-- Elsewhere the rendering signals. -/
theorem stringify_error : ∀ v : Value F, v.isPrintable = false → ∃ e, stringify v = .error e
  | .nil, hp => by cases hp
  | .boolean _, hp => by cases hp
  | .integer _, hp => by cases hp
  | .float _, hp => by cases hp
  | .string _, hp => ⟨_, stringifyString_error hp⟩
  | .array vs, hp => by
      obtain ⟨e, he⟩ := stringifyItems_error vs hp
      exact ⟨e, by rw [stringify, he]; rfl⟩
  | .dictionary es, hp => by
      obtain ⟨e, he⟩ := stringifyEntries_error es hp
      exact ⟨e, by rw [stringify, he]; rfl⟩

theorem stringifyItems_error : ∀ vs : List (Value F), itemsPrintable vs = false →
    ∃ e, stringifyItems vs = .error e
  | [], hp => by cases hp
  | v :: vs, hp => by
      rw [itemsPrintable, Bool.and_eq_false_iff] at hp
      cases hv : stringify v with
      | error e => exact ⟨e, by rw [stringifyItems, hv]; rfl⟩
      | ok part =>
          rcases hp with hp | hp
          · obtain ⟨e, he⟩ := stringify_error v hp
            rw [hv] at he
            cases he
          · obtain ⟨e, he⟩ := stringifyItems_error vs hp
            exact ⟨e, by rw [stringifyItems, hv, he]; rfl⟩

theorem stringifyEntries_error : ∀ es : List (Str × Value F), entriesPrintable es = false →
    ∃ e, stringifyEntries es = .error e
  | [], hp => by cases hp
  | (k, v) :: es, hp => by
      rw [entriesPrintable, Bool.and_assoc, Bool.and_eq_false_iff, Bool.and_eq_false_iff] at hp
      cases hk : k.all Json.isPrintable with
      | false => exact ⟨_, by rw [stringifyEntries, stringifyString_error hk]; rfl⟩
      | true =>
          rw [hk] at hp
          cases hv : stringify v with
          | error e => exact ⟨e, by rw [stringifyEntries, stringifyString_ok hk, hv]; rfl⟩
          | ok part =>
              rcases hp with hp | hp | hp
              · cases hp
              · obtain ⟨e, he⟩ := stringify_error v hp
                rw [hv] at he
                cases he
              · obtain ⟨e, he⟩ := stringifyEntries_error es hp
                exact ⟨e, by rw [stringifyEntries, stringifyString_ok hk, hv, he]; rfl⟩

end

mutual

theorem value_docOf : ∀ v : Value F, v.isPlain = true → v.isPrintable = true →
    (docOf v).value = v
  | .nil, _, _ => rfl
  | .boolean _, _, _ => rfl
  | .integer n, _, _ => value_integerDoc n
  | .float _, h, _ => by cases h
  | .string s, _, h => congrArg Value.string (decode_pieces h)
  | .array [], _, _ => rfl
  | .array (v :: vs), h, hp => congrArg Value.array (values_elementsOf (v :: vs) (by simp) h hp)
  | .dictionary [], _, _ => rfl
  | .dictionary (e :: es), h, hp => by
      rw [Value.isPlain, Bool.and_eq_true, decide_eq_true_eq] at h
      rw [docOf, Doc.value, entries_membersOf (e :: es) (by simp) h.2 hp,
        foldl_put (by simpa using h.1)]
      rfl

theorem values_elementsOf : ∀ vs : List (Value F), vs ≠ [] → itemsPlain vs = true →
    itemsPrintable vs = true → (elementsOf vs).values = vs
  | [], h, _, _ => absurd rfl h
  | [v], _, h, hp => by
      rw [itemsPlain, Bool.and_eq_true] at h
      rw [itemsPrintable, Bool.and_eq_true] at hp
      rw [elementsOf, Elements.values, value_docOf v h.1 hp.1]
  | v :: w :: vs, _, h, hp => by
      rw [itemsPlain, Bool.and_eq_true] at h
      rw [itemsPrintable, Bool.and_eq_true] at hp
      rw [elementsOf, Elements.values, value_docOf v h.1 hp.1,
        values_elementsOf (w :: vs) (by simp) h.2 hp.2]

theorem entries_membersOf : ∀ es : List (Str × Value F), es ≠ [] → entriesPlain es = true →
    entriesPrintable es = true → (membersOf es).entries = es
  | [], h, _, _ => absurd rfl h
  | [(k, v)], _, h, hp => by
      rw [entriesPlain, Bool.and_eq_true] at h
      rw [entriesPrintable, Bool.and_eq_true, Bool.and_eq_true] at hp
      rw [membersOf, Members.entries, value_docOf v h.1 hp.1.2, decode_pieces hp.1.1]
  | (k, v) :: e :: es, _, h, hp => by
      rw [entriesPlain, Bool.and_eq_true] at h
      rw [entriesPrintable, Bool.and_eq_true, Bool.and_eq_true] at hp
      rw [membersOf, Members.entries, value_docOf v h.1 hp.1.2, decode_pieces hp.1.1,
        entries_membersOf (e :: es) (by simp) h.2 hp.2]

end

/-! ## Equality -/

mutual

theorem equals_self : ∀ v : Value F, v.isPlain = true → equals v v = true
  | .nil, _ => by simp [equals]
  | .boolean b, _ => by simp [equals]
  | .integer n, _ => by simp [equals]
  | .float _, h => by cases h
  | .string s, _ => by simp [equals]
  | .array vs, h => by
      rw [equals, equalsItems_self vs h]
      simp
  | .dictionary es, h => by
      rw [Value.isPlain, Bool.and_eq_true, decide_eq_true_eq] at h
      rw [equals, equalsEntries_self es es h.2 fun k v hmem => lookup_of_mem h.1 hmem]
      simp

theorem equalsItems_self : ∀ vs : List (Value F), itemsPlain vs = true →
    equalsItems vs vs = true
  | [], _ => by simp [equalsItems]
  | v :: vs, h => by
      rw [itemsPlain, Bool.and_eq_true] at h
      rw [equalsItems, equals_self v h.1, equalsItems_self vs h.2]
      rfl

theorem equalsEntries_self : ∀ es other : List (Str × Value F), entriesPlain es = true →
    (∀ k v, (k, v) ∈ es → lookup other k = some v) → equalsEntries es other = true
  | [], _, _, _ => by simp [equalsEntries]
  | (k, v) :: es, other, h, hmem => by
      rw [entriesPlain, Bool.and_eq_true] at h
      have hk := hmem k v List.mem_cons_self
      have hrest := equalsEntries_self es other h.2
        fun k v hkv => hmem k v (List.mem_cons_of_mem _ hkv)
      have hv := equals_self v h.1
      unfold equalsEntries
      split
      · rename_i hnone
        rw [hk] at hnone
        cases hnone
      · rename_i w hsome
        rw [hk] at hsome
        cases hsome
        rw [hv, hrest]
        rfl

end

/-! ## The round trip -/

/-- **The round trip.**  A value is rendered, and parsing what was written answers an equal value,
if and only if no string has a control character without an escape of one letter. -/
theorem parse_stringify_iff (v : Value F) (hplain : v.isPlain = true) :
    (∃ s, stringify v = .ok s ∧
      ∃ n, ∀ fuel, n ≤ fuel → ∃ w, parse fuel s = .ok w ∧ equals w v = true) ↔
      v.isPrintable = true := by
  constructor
  · rintro ⟨s, hs, -⟩
    cases hp : v.isPrintable with
    | true => rfl
    | false =>
        obtain ⟨e, he⟩ := stringify_error v hp
        rw [hs] at he
        cases he
  · intro hp
    refine ⟨_, text_docOf v hplain hp, 3 * (docOf v).text.length + 1, fun fuel hfuel => ?_⟩
    have htext : Text.text ⟨noWs, docOf v, noWs⟩ = (docOf v).text := List.append_nil _
    have hescaped : Text.escaped ⟨noWs, docOf v, noWs⟩ = false := escaped_docOf v
    have hvalue : Text.value ⟨noWs, docOf v, noWs⟩ = v := value_docOf v hplain hp
    have hlength : 3 * (Text.text ⟨noWs, docOf v, noWs⟩).length + 1 ≤ fuel := by rwa [htext]
    have hparse := parse_text (F := F) _ hlength
    rw [htext, hescaped, hvalue, if_neg Bool.false_ne_true] at hparse
    exact ⟨v, hparse, equals_self v hplain⟩

end Values

/-- A dictionary with an array. -/
def nested : Value Float := .dictionary [([97], .array [.integer (-12), .nil])]

theorem parse_stringify_nested : ∃ s, stringify nested = .ok s ∧
    ∃ n, ∀ fuel, n ≤ fuel → ∃ w, parse fuel s = .ok w ∧ equals w nested = true :=
  (parse_stringify_iff nested rfl).mpr rfl

/-- The string of the character 1, which has no escape of one letter, is not rendered. -/
theorem parse_stringify_signals : ¬ ∀ v : Value Float, v.isPlain = true →
    ∃ s, stringify v = .ok s ∧
      ∃ n, ∀ fuel, n ≤ fuel → ∃ w : Value Float, parse fuel s = .ok w ∧ equals w v = true := by
  intro h
  obtain ⟨s, hs, -⟩ := h (.string [1]) rfl
  have hsignals : stringify (.string [1] : Value Float) = .error (.messageNotUnderstood ",") := rfl
  rw [hsignals] at hs
  cases hs

end ProtoST.Json

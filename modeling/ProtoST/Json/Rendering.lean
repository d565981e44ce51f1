import ProtoST.Json.PrintedNumbers

/-!
# What `JSON stringify:` writes for every value

`stringifyValue:` of `lib/json.st` over all the values it can be sent, with the `jsonStringOn:`
and the `jsonKeyString` that their classes inherit.  `printOn:` of the Characters, of the
collections and of the objects without a JSON form is a parameter: only a key and the text of
an error use it.

## Main results

* `writesValid_iff` — an error or a JSON text whose members are as distinct as the keys, if and
  only if a value or a text is refused, or there is no Fraction, no Float but the finite ones, and
  no two keys of a dictionary with the same text.
* `not_writesValid_half` — the text of `1 / 2`.
-/

namespace ProtoST.Json.Rendering

open ProtoST.Lib
open ProtoST.Runtime.ValueFormat (Double formatBigInteger formatFloat)

/-! ## Values -/

/-- A value.  `O` are the objects without a JSON form, which have `jsonStringOn:` from Object. -/
inductive Object (O : Type) where
  | nil
  | boolean (b : Bool)
  | integer (n : Int)
  | fraction (numerator denominator : Int)
  | float (x : Double)
  | character (c : Code)
  | string (s : Str)
  | symbol (s : Str)
  | array (items : List (Object O))
  | orderedCollection (items : List (Object O))
  /-- The entries in the order in which `keysAndValuesDo:` visits them. -/
  | dictionary (entries : List (Object O × Object O))
  | other (o : O)

section Rendering

variable {O : Type} (snprintf : Nat → Double → List Char) (strtod : List Char → Double)
  (printOn : Object O → Str)

def printString : Object O → Str
  | .nil => ofString "nil"
  | .boolean true => ofString "true"
  | .boolean false => ofString "false"
  | .integer n => ofChars (formatBigInteger n)
  | .fraction numerator denominator =>
      ofChar '(' :: (ofChars (formatBigInteger numerator) ++
        ofChar '/' :: (ofChars (formatBigInteger denominator) ++ [ofChar ')']))
  | .float x => ofChars (formatFloat snprintf strtod x)
  | v => printOn v

def jsonKeyString : Object O → Str
  | .string s | .symbol s => s
  | k => printString snprintf strtod printOn k

/-- `jsonStringOn:` of an Object: the text of the Error. -/
def cannotEncode (v : Object O) : Str :=
  ofString "JSON stringify: cannot encode " ++ printString snprintf strtod printOn v

mutual

/-- `stringifyValue:`, with the `jsonStringOn:` of the classes. -/
def stringifyValue : Object O → Except Signal Str
  | .nil => .ok (ofString "null")
  | .boolean true => .ok (ofString "true")
  | .boolean false => .ok (ofString "false")
  | .integer n => .ok (printString snprintf strtod printOn (.integer n))
  | .fraction n d => .ok (printString snprintf strtod printOn (.fraction n d))
  | .float x => .ok (printString snprintf strtod printOn (.float x))
  | .character c => .error (.error (cannotEncode snprintf strtod printOn (.character c)))
  | .string s => stringifyString s
  | .symbol s => stringifyString s
  | .array items => (stringifyParts items).map fun parts =>
      ofChar '[' :: (joinParts parts ++ [ofChar ']'])
  | .orderedCollection items => (stringifyParts items).map fun parts =>
      ofChar '[' :: (joinParts parts ++ [ofChar ']'])
  | .dictionary entries => (stringifyMembers entries).map fun parts =>
      ofChar '\x7b' :: (joinParts parts ++ [ofChar '\x7d'])
  | .other o => .error (.error (cannotEncode snprintf strtod printOn (.other o)))

/-- The first loop of `stringifyArray:`. -/
def stringifyParts : List (Object O) → Except Signal (List Str)
  | [] => .ok []
  | v :: vs => (stringifyValue v).bind fun part =>
      (stringifyParts vs).map fun parts => part :: parts

/-- The loop of `stringifyDictionary:`. -/
def stringifyMembers : List (Object O × Object O) → Except Signal (List Str)
  | [] => .ok []
  | (k, v) :: rest =>
      (stringifyString (jsonKeyString snprintf strtod printOn k)).bind fun key =>
        (stringifyValue v).bind fun part =>
          (stringifyMembers rest).map fun parts => (key ++ ofChar ':' :: part) :: parts

end

/-! ## Kinds of values -/

mutual

/-- Every value that is reached through elements and values, not through keys. -/
def Object.all (p : Object O → Bool) : Object O → Bool
  | .array items => p (.array items) && itemsAll p items
  | .orderedCollection items => p (.orderedCollection items) && itemsAll p items
  | .dictionary entries => p (.dictionary entries) && entriesAll p entries
  | v => p v

def itemsAll (p : Object O → Bool) : List (Object O) → Bool
  | [] => true
  | v :: vs => v.all p && itemsAll p vs

def entriesAll (p : Object O → Bool) : List (Object O × Object O) → Bool
  | [] => true
  | (_, v) :: rest => v.all p && entriesAll p rest

end

/-- No error comes of the value itself: its class does not inherit `jsonStringOn:` from Object, and
neither a String nor the text of a key has a character that is written by its code. -/
def Object.isWritten : Object O → Bool
  | .character _ | .other _ => false
  | .string s | .symbol s => s.all isPrintable
  | .dictionary entries =>
      entries.all fun e => (jsonKeyString snprintf strtod printOn e.1).all isPrintable
  | _ => true

/-- Neither a Fraction nor a Float that is not finite. -/
def Object.hasNumeral : Object O → Bool
  | .fraction .. => false
  | .float x => x.isFinite
  | _ => true

/-- No two keys of a dictionary have the same text. -/
def Object.hasDistinctKeys : Object O → Bool
  | .dictionary entries =>
      decide (entries.map fun e => jsonKeyString snprintf strtod printOn e.1).Nodup
  | _ => true

end Rendering

/-! ## Trees -/

def elementDocs : Elements → List Doc
  | .last _ d _ => [d]
  | .more _ d _ rest => d :: elementDocs rest

def items : Doc → Option (List Doc)
  | .emptyArray _ => some []
  | .array es => some (elementDocs es)
  | _ => none

/-- The members with their names. -/
def namedDocs : Members → List (Str × Doc)
  | .last _ key _ _ d _ => [(decode key, d)]
  | .more _ key _ _ d _ rest => (decode key, d) :: namedDocs rest

def members : Doc → Option (List (Str × Doc))
  | .emptyObject _ => some []
  | .object ms => some (namedDocs ms)
  | _ => none

section Mirrors

variable {O : Type}

mutual

/-- The tree has an element for each element of the value and a member for each of its entries,
and no two members of an object have the same name. -/
def Mirrors : Object O → Doc → Prop
  | .array vs, d => ∃ ds, items d = some ds ∧ MirrorsItems vs ds
  | .orderedCollection vs, d => ∃ ds, items d = some ds ∧ MirrorsItems vs ds
  | .dictionary entries, d => ∃ ms, members d = some ms ∧ (ms.map Prod.fst).Nodup ∧
      MirrorsEntries entries ms
  | _, _ => True

def MirrorsItems : List (Object O) → List Doc → Prop
  | [], [] => True
  | v :: vs, d :: ds => Mirrors v d ∧ MirrorsItems vs ds
  | _, _ => False

def MirrorsEntries : List (Object O × Object O) → List (Str × Doc) → Prop
  | [], [] => True
  | (_, v) :: entries, (_, d) :: ms => Mirrors v d ∧ MirrorsEntries entries ms
  | _, _ => False

end

/-- The String is a JSON text, in which the entries of a dictionary stay distinct members. -/
def IsTextFor (v : Object O) (s : Str) : Prop :=
  ∃ t : Text, t.lax = false ∧ t.text = s ∧ Mirrors v t.doc

/-- An error, or a JSON text. -/
def WritesValid (snprintf : Nat → Double → List Char) (strtod : List Char → Double)
    (printOn : Object O → Str) (v : Object O) : Prop :=
  (∃ e, stringifyValue snprintf strtod printOn v = .error e) ∨
    ∃ s, stringifyValue snprintf strtod printOn v = .ok s ∧ IsTextFor v s

end Mirrors

section Rendered

variable {O : Type} {snprintf : Nat → Double → List Char} {strtod : List Char → Double}
  {printOn : Object O → Str}

/-! ## Errors -/

theorem exists_map_ok {ε α β : Type} {x : Except ε α} {f : α → β} :
    (∃ b, x.map f = .ok b) ↔ ∃ a, x = .ok a := by
  cases x with
  | error e =>
      constructor
      · rintro ⟨b, h⟩
        cases h
      · rintro ⟨a, h⟩
        cases h
  | ok a => exact ⟨fun _ => ⟨a, rfl⟩, fun _ => ⟨f a, rfl⟩⟩

/-- The parts of the first value and of the rest. -/
theorem exists_bind_ok {ε α β γ : Type} {x : Except ε α} {y : Except ε β} {f : α → β → γ} :
    (∃ c, (x.bind fun a => y.map (f a)) = .ok c) ↔ (∃ a, x = .ok a) ∧ ∃ b, y = .ok b := by
  cases x with
  | error e =>
      constructor
      · rintro ⟨c, h⟩
        cases h
      · rintro ⟨⟨a, h⟩, -⟩
        cases h
  | ok a =>
      have hmap : (∃ c, y.map (f a) = .ok c) ↔ ∃ b, y = .ok b := exists_map_ok
      exact hmap.trans ⟨fun h => ⟨⟨a, rfl⟩, h⟩, fun h => h.2⟩

theorem stringifyString_ok_iff (s : Str) :
    (∃ t, stringifyString s = .ok t) ↔ s.all isPrintable = true := by
  cases h : s.all isPrintable with
  | false =>
      rw [stringifyString_error h]
      exact ⟨fun ⟨_, ht⟩ => (by cases ht), fun hfalse => (by cases hfalse)⟩
  | true => exact ⟨fun _ => rfl, fun _ => ⟨_, stringifyString_ok h⟩⟩

/-- A String that is written, and its text. -/
theorem stringifyString_eq_ok {s t : Str} (h : stringifyString s = .ok t) :
    s.all isPrintable = true ∧ quotedText s = t := by
  have hprintable := (stringifyString_ok_iff s).mp ⟨t, h⟩
  rw [stringifyString_ok hprintable] at h
  exact ⟨hprintable, Except.ok.inj h⟩

mutual

/-- The errors are those of the values and texts that are refused. -/
theorem stringifyValue_ok_iff : ∀ v : Object O,
    (∃ s, stringifyValue snprintf strtod printOn v = .ok s) ↔
      v.all (Object.isWritten snprintf strtod printOn) = true
  | .nil => ⟨fun _ => rfl, fun _ => ⟨_, rfl⟩⟩
  | .boolean true => ⟨fun _ => rfl, fun _ => ⟨_, rfl⟩⟩
  | .boolean false => ⟨fun _ => rfl, fun _ => ⟨_, rfl⟩⟩
  | .integer _ => ⟨fun _ => rfl, fun _ => ⟨_, rfl⟩⟩
  | .fraction _ _ => ⟨fun _ => rfl, fun _ => ⟨_, rfl⟩⟩
  | .float _ => ⟨fun _ => rfl, fun _ => ⟨_, rfl⟩⟩
  | .character _ => ⟨fun ⟨_, h⟩ => (by cases h), fun h => (by cases h)⟩
  | .string s => stringifyString_ok_iff s
  | .symbol s => stringifyString_ok_iff s
  | .array vs => exists_map_ok.trans (stringifyParts_ok_iff vs)
  | .orderedCollection vs => exists_map_ok.trans (stringifyParts_ok_iff vs)
  | .dictionary entries => by
      rw [stringifyValue, exists_map_ok, stringifyMembers_ok_iff entries, Object.all,
        Object.isWritten, Bool.and_eq_true]
  | .other _ => ⟨fun ⟨_, h⟩ => (by cases h), fun h => (by cases h)⟩

theorem stringifyParts_ok_iff : ∀ vs : List (Object O),
    (∃ parts, stringifyParts snprintf strtod printOn vs = .ok parts) ↔
      itemsAll (Object.isWritten snprintf strtod printOn) vs = true
  | [] => ⟨fun _ => rfl, fun _ => ⟨_, rfl⟩⟩
  | v :: vs => by
      rw [stringifyParts, exists_bind_ok, stringifyValue_ok_iff v, stringifyParts_ok_iff vs,
        itemsAll, Bool.and_eq_true]

theorem stringifyMembers_ok_iff : ∀ entries : List (Object O × Object O),
    (∃ parts, stringifyMembers snprintf strtod printOn entries = .ok parts) ↔
      (entries.all fun e => (jsonKeyString snprintf strtod printOn e.1).all isPrintable) = true ∧
        entriesAll (Object.isWritten snprintf strtod printOn) entries = true
  | [] => ⟨fun _ => ⟨rfl, rfl⟩, fun _ => ⟨_, rfl⟩⟩
  | (k, v) :: rest => by
      rw [stringifyMembers, List.all_cons, Bool.and_eq_true, entriesAll, Bool.and_eq_true]
      cases hk : (jsonKeyString snprintf strtod printOn k).all isPrintable with
      | false =>
          rw [stringifyString_error hk]
          exact ⟨fun ⟨_, h⟩ => (by cases h), fun h => absurd h.1.1 Bool.false_ne_true⟩
      | true =>
          rw [stringifyString_ok hk, Except.bind, exists_bind_ok, stringifyValue_ok_iff v,
            stringifyMembers_ok_iff rest]
          exact ⟨fun h => ⟨⟨rfl, h.2.1⟩, h.1, h.2.2⟩, fun h => ⟨h.2.1, h.1.2, h.2.2⟩⟩

end

/-! ## The tree of a text -/

variable {parts : List Str} {vs : List (Object O)} {v : Object O}

theorem stringifyParts_cons (h : stringifyParts snprintf strtod printOn (v :: vs) = .ok parts) :
    ∃ part rest, stringifyValue snprintf strtod printOn v = .ok part ∧
      stringifyParts snprintf strtod printOn vs = .ok rest ∧ parts = part :: rest := by
  rw [stringifyParts] at h
  obtain ⟨part, hpart, h⟩ := bind_eq_ok h
  obtain ⟨rest, hrest, rfl⟩ := map_eq_ok h
  exact ⟨part, rest, hpart, hrest, rfl⟩

variable {entries : List (Object O × Object O)}

theorem stringifyMembers_cons {k v : Object O}
    (h : stringifyMembers snprintf strtod printOn ((k, v) :: entries) = .ok parts) :
    (jsonKeyString snprintf strtod printOn k).all isPrintable = true ∧
      ∃ part rest, stringifyValue snprintf strtod printOn v = .ok part ∧
        stringifyMembers snprintf strtod printOn entries = .ok rest ∧
        parts = (quotedText (jsonKeyString snprintf strtod printOn k) ++ 58 :: part) :: rest := by
  rw [stringifyMembers] at h
  obtain ⟨key, hkey, h⟩ := bind_eq_ok h
  obtain ⟨part, hpart, h⟩ := bind_eq_ok h
  obtain ⟨rest, hrest, rfl⟩ := map_eq_ok h
  obtain ⟨hprintable, rfl⟩ := stringifyString_eq_ok hkey
  exact ⟨hprintable, part, rest, hpart, hrest, rfl⟩

theorem stringifyParts_ne_nil
    (h : stringifyParts snprintf strtod printOn (v :: vs) = .ok parts) : parts ≠ [] := by
  obtain ⟨part, rest, -, -, rfl⟩ := stringifyParts_cons h
  exact List.cons_ne_nil part rest

theorem stringifyMembers_ne_nil {e : Object O × Object O}
    (h : stringifyMembers snprintf strtod printOn (e :: entries) = .ok parts) : parts ≠ [] := by
  obtain ⟨-, part, rest, -, -, rfl⟩ := stringifyMembers_cons h
  exact List.cons_ne_nil _ rest

/-- A tree that is not lax, with its text and when it mirrors the value. -/
def Renders (d : Doc) (s : Str) (mirrors : Prop) (distinct : Bool) : Prop :=
  d.lax = false ∧ d.text = s ∧ (mirrors ↔ distinct = true)

/-- The brackets of an array. -/
theorem array_doc {distinct : Bool} (hparts : stringifyParts snprintf strtod printOn vs = .ok parts)
    (hnil : vs = [] → distinct = true)
    (helements : vs ≠ [] → ∃ es : Elements, es.lax = false ∧ es.text = joinParts parts ++ [93] ∧
      (MirrorsItems vs (elementDocs es) ↔ distinct = true)) :
    ∃ d, Renders d (91 :: (joinParts parts ++ [93]))
      (∃ ds, items d = some ds ∧ MirrorsItems vs ds) distinct := by
  cases vs with
  | nil =>
      cases hparts
      exact ⟨.emptyArray noWs, rfl, rfl, fun _ => hnil rfl, fun _ => ⟨[], rfl, trivial⟩⟩
  | cons v vs =>
      obtain ⟨es, hlax, htext, hmirrors⟩ := helements (List.cons_ne_nil v vs)
      refine ⟨.array es, hlax, congrArg (List.cons 91) htext, ?_⟩
      rw [← hmirrors]
      constructor
      · rintro ⟨ds, hds, h⟩
        cases hds
        exact h
      · exact fun h => ⟨_, rfl, h⟩

/-- The braces of an object. -/
theorem dictionary_doc
    {distinct : Bool}
    (hparts : stringifyMembers snprintf strtod printOn entries = .ok parts)
    (hmembers : entries ≠ [] → ∃ ms : Members, ms.lax = false ∧
      ms.text = joinParts parts ++ [125] ∧
      (namedDocs ms).map Prod.fst =
        entries.map (fun e => jsonKeyString snprintf strtod printOn e.1) ∧
      (MirrorsEntries entries (namedDocs ms) ↔ distinct = true))
    (hnil : entries = [] → distinct = true) :
    ∃ d, Renders d (123 :: (joinParts parts ++ [125]))
      (∃ ms, members d = some ms ∧ (ms.map Prod.fst).Nodup ∧ MirrorsEntries entries ms)
      ((Object.dictionary entries).hasDistinctKeys snprintf strtod printOn && distinct) := by
  cases entries with
  | nil =>
      cases hparts
      exact ⟨.emptyObject noWs, rfl, rfl, fun _ => hnil rfl, fun _ => ⟨[], rfl, .nil, trivial⟩⟩
  | cons e entries =>
      obtain ⟨ms, hlax, htext, hnames, hmirrors⟩ := hmembers (List.cons_ne_nil e entries)
      refine ⟨.object ms, hlax, congrArg (List.cons 123) htext, ?_⟩
      rw [Bool.and_eq_true, Object.hasDistinctKeys, decide_eq_true_eq, ← hmirrors, ← hnames]
      constructor
      · rintro ⟨ms', hms, hnodup, h⟩
        cases hms
        exact ⟨hnodup, h⟩
      · exact fun ⟨hnodup, h⟩ => ⟨_, rfl, hnodup, h⟩

theorem renders_integer (n : Int) : ∃ d, Renders d (ofChars (formatBigInteger n)) True true := by
  refine ⟨.number (integerDoc n), lax_integerDoc n, ?_, fun _ => rfl, fun _ => trivial⟩
  rw [formatBigInteger_eq_printInteger]
  exact text_integerDoc n

theorem renders_float (strtod : List Char → Double) (hprints : PrintsScientific snprintf)
    {x : Double} (hfinite : x.isFinite = true) :
    ∃ d, Renders d (ofChars (formatFloat snprintf strtod x)) True true := by
  obtain ⟨n, hlax, htext⟩ := formatFloat_number strtod hprints hfinite
  exact ⟨.number n, hlax, htext, fun _ => rfl, fun _ => trivial⟩

theorem renders_string {s t : Str} (h : stringifyString s = .ok t) :
    ∃ d, Renders d t True true := by
  obtain ⟨-, rfl⟩ := stringifyString_eq_ok h
  exact ⟨.string (pieces s), rfl, rfl, fun _ => rfl, fun _ => trivial⟩

mutual

/-- What `stringifyValue:` writes is a tree, and when the tree mirrors the value. -/
theorem renders_value (hprints : PrintsScientific snprintf) : ∀ (v : Object O) {s : Str},
    v.all Object.hasNumeral = true →
    stringifyValue snprintf strtod printOn v = .ok s →
    ∃ d, Renders d s (Mirrors v d) (v.all (Object.hasDistinctKeys snprintf strtod printOn))
  | .nil, _, _, h => by
      cases h
      exact ⟨.null, rfl, rfl, fun _ => rfl, fun _ => trivial⟩
  | .boolean true, _, _, h => by
      cases h
      exact ⟨.boolean true, rfl, rfl, fun _ => rfl, fun _ => trivial⟩
  | .boolean false, _, _, h => by
      cases h
      exact ⟨.boolean false, rfl, rfl, fun _ => rfl, fun _ => trivial⟩
  | .integer n, _, _, h => by
      cases h
      exact renders_integer n
  | .fraction _ _, _, hnumeral, _ => by cases hnumeral
  | .float _, _, hnumeral, h => by
      cases h
      exact renders_float strtod hprints hnumeral
  | .character _, _, _, h => by cases h
  | .string _, _, _, h => renders_string h
  | .symbol _, _, _, h => renders_string h
  | .array vs, _, hnumeral, h => by
      obtain ⟨parts, hparts, rfl⟩ := map_eq_ok h
      exact array_doc hparts (fun hnil => by rw [hnil]; rfl)
        fun hne => elements_items hprints vs hne hnumeral hparts
  | .orderedCollection vs, _, hnumeral, h => by
      obtain ⟨parts, hparts, rfl⟩ := map_eq_ok h
      exact array_doc hparts (fun hnil => by rw [hnil]; rfl)
        fun hne => elements_items hprints vs hne hnumeral hparts
  | .dictionary entries, _, hnumeral, h => by
      obtain ⟨parts, hparts, rfl⟩ := map_eq_ok h
      exact dictionary_doc hparts (fun hne => members_entries hprints entries hne hnumeral hparts)
        fun hnil => by rw [hnil]; rfl
  | .other _, _, _, h => by cases h

theorem elements_items (hprints : PrintsScientific snprintf) : ∀ (vs : List (Object O))
    {parts : List Str}, vs ≠ [] → itemsAll Object.hasNumeral vs = true →
    stringifyParts snprintf strtod printOn vs = .ok parts →
    ∃ es : Elements, es.lax = false ∧ es.text = joinParts parts ++ [93] ∧
      (MirrorsItems vs (elementDocs es) ↔
        itemsAll (Object.hasDistinctKeys snprintf strtod printOn) vs = true)
  | [], _, hne, _, _ => absurd rfl hne
  | [v], _, _, hnumeral, h => by
      rw [itemsAll, Bool.and_eq_true] at hnumeral
      obtain ⟨part, rest, hpart, hrest, rfl⟩ := stringifyParts_cons h
      obtain ⟨d, hlax, htext, hmirrors⟩ := renders_value hprints v hnumeral.1 hpart
      cases hrest
      refine ⟨.last noWs d noWs, hlax, congrArg (fun t => t ++ [93]) htext, ?_⟩
      rw [elementDocs, MirrorsItems, MirrorsItems, itemsAll, itemsAll, and_true, Bool.and_true]
      exact hmirrors
  | v :: w :: vs, _, _, hnumeral, h => by
      rw [itemsAll, Bool.and_eq_true] at hnumeral
      obtain ⟨part, rest, hpart, hrest, rfl⟩ := stringifyParts_cons h
      obtain ⟨d, hlax, htext, hmirrors⟩ := renders_value hprints v hnumeral.1 hpart
      obtain ⟨es, hlaxes, htextes, hmirrorses⟩ :=
        elements_items hprints (w :: vs) (List.cons_ne_nil w vs) hnumeral.2 hrest
      refine ⟨.more noWs d noWs es, ?_, ?_, ?_⟩
      · rw [Elements.lax, hlax, hlaxes]
        rfl
      · rw [joinParts_cons (stringifyParts_ne_nil hrest), Elements.text, htext, htextes,
          List.append_assoc]
        rfl
      · rw [elementDocs, MirrorsItems, itemsAll, Bool.and_eq_true, hmirrors, hmirrorses]

theorem members_entries (hprints : PrintsScientific snprintf) :
    ∀ (entries : List (Object O × Object O)) {parts : List Str}, entries ≠ [] →
    entriesAll Object.hasNumeral entries = true →
    stringifyMembers snprintf strtod printOn entries = .ok parts →
    ∃ ms : Members, ms.lax = false ∧ ms.text = joinParts parts ++ [125] ∧
      (namedDocs ms).map Prod.fst =
        entries.map (fun e => jsonKeyString snprintf strtod printOn e.1) ∧
      (MirrorsEntries entries (namedDocs ms) ↔
        entriesAll (Object.hasDistinctKeys snprintf strtod printOn) entries = true)
  | [], _, hne, _, _ => absurd rfl hne
  | [(k, v)], _, _, hnumeral, h => by
      rw [entriesAll, Bool.and_eq_true] at hnumeral
      obtain ⟨hkey, part, rest, hpart, hrest, rfl⟩ := stringifyMembers_cons h
      obtain ⟨d, hlax, htext, hmirrors⟩ := renders_value hprints v hnumeral.1 hpart
      cases hrest
      refine ⟨.last noWs (pieces (jsonKeyString snprintf strtod printOn k)) noWs noWs d noWs,
        hlax, ?_, ?_, ?_⟩
      · rw [Members.text, htext]
        simp [joinParts, quotedText, noWs]
      · rw [namedDocs, decode_pieces hkey]
        rfl
      · rw [namedDocs, MirrorsEntries, MirrorsEntries, entriesAll, entriesAll, and_true,
          Bool.and_true]
        exact hmirrors
  | (k, v) :: e :: entries, _, _, hnumeral, h => by
      rw [entriesAll, Bool.and_eq_true] at hnumeral
      obtain ⟨hkey, part, rest, hpart, hrest, rfl⟩ := stringifyMembers_cons h
      obtain ⟨d, hlax, htext, hmirrors⟩ := renders_value hprints v hnumeral.1 hpart
      obtain ⟨ms, hlaxms, htextms, hnames, hmirrorsms⟩ :=
        members_entries hprints (e :: entries) (List.cons_ne_nil e entries) hnumeral.2 hrest
      refine ⟨.more noWs (pieces (jsonKeyString snprintf strtod printOn k)) noWs noWs d noWs
        ms, ?_, ?_, ?_, ?_⟩
      · rw [Members.lax, hlax, hlaxms]
        rfl
      · rw [joinParts_cons (stringifyMembers_ne_nil hrest), Members.text, htext, htextms]
        simp [quotedText, noWs]
      · rw [namedDocs, decode_pieces hkey, List.map_cons, hnames]
        rfl
      · rw [namedDocs, MirrorsEntries, entriesAll, Bool.and_eq_true, hmirrors, hmirrorsms]

end

/-! ## The texts that are not read -/

variable {s : Str}

theorem isWhitespace_of_doc {d : Doc} (h : d.text = s) :
    ∃ c t, s = c :: t ∧ isWhitespace c = false ∧ c ≠ 93 := by
  obtain ⟨c, t, htext, hc⟩ := d.text_eq_cons
  refine ⟨c, t, h.symm.trans htext, isWhitespace_of_isValueStart hc, ?_⟩
  rintro rfl
  exact absurd hc (by decide)

/-- Every text begins with a character that is neither whitespace nor a closing bracket. -/
theorem stringifyValue_eq_cons (hprints : PrintsScientific snprintf)
    (h : stringifyValue snprintf strtod printOn v = .ok s) :
    ∃ c t, s = c :: t ∧ isWhitespace c = false ∧ c ≠ 93 := by
  cases v with
  | nil =>
      cases h
      exact ⟨_, _, rfl, by decide, by decide⟩
  | boolean b =>
      cases b with
      | true =>
          cases h
          exact ⟨_, _, rfl, by decide, by decide⟩
      | false =>
          cases h
          exact ⟨_, _, rfl, by decide, by decide⟩
  | integer n =>
      cases h
      obtain ⟨d, -, htext, -⟩ := renders_integer n
      exact isWhitespace_of_doc htext
  | fraction n d =>
      cases h
      exact ⟨_, _, rfl, by decide, by decide⟩
  | float x =>
      cases h
      cases hfinite : x.isFinite with
      | true =>
          obtain ⟨d, -, htext, -⟩ := renders_float strtod hprints hfinite
          exact isWhitespace_of_doc htext
      | false =>
          obtain ⟨t, ht⟩ := formatFloat_notFinite snprintf strtod hfinite
          exact ⟨ofChar 'F', ofChars t, congrArg ofChars ht, by decide, by decide⟩
  | string s =>
      obtain ⟨-, rfl⟩ := stringifyString_eq_ok h
      exact ⟨_, _, rfl, by decide, by decide⟩
  | symbol s =>
      obtain ⟨-, rfl⟩ := stringifyString_eq_ok h
      exact ⟨_, _, rfl, by decide, by decide⟩
  | array vs =>
      obtain ⟨parts, -, rfl⟩ := map_eq_ok h
      exact ⟨_, _, rfl, by decide, by decide⟩
  | orderedCollection vs =>
      obtain ⟨parts, -, rfl⟩ := map_eq_ok h
      exact ⟨_, _, rfl, by decide, by decide⟩
  | dictionary entries =>
      obtain ⟨parts, -, rfl⟩ := map_eq_ok h
      exact ⟨_, _, rfl, by decide, by decide⟩
  | character c => cases h
  | other o => cases h

variable {c : Code}

theorem takeWs_of_cons (h : isWhitespace c = false) :
    takeWs (c :: s) = (noWs, c :: s) :=
  takeWs_append (w := noWs) (.cons h)

theorem readDoc_paren (fuel : Nat) (s : Str) : readDoc fuel (ofChar '(' :: s) = none := by
  cases fuel with
  | zero => rfl
  | succ fuel => rfl

theorem readDoc_capital (fuel : Nat) (s : Str) : readDoc fuel (ofChar 'F' :: s) = none := by
  cases fuel with
  | zero => rfl
  | succ fuel => rfl

variable {fuel : Nat}

/-- The element at the cursor is not read. -/
theorem readElements_none (hc : isWhitespace c = false)
    (h : readDoc fuel (c :: s) = none) : readElements (fuel + 1) (c :: s) = none := by
  rw [readElements, takeWs_of_cons hc]
  dsimp only
  rw [h]

/-- The elements after the one at the cursor are not read. -/
theorem readElements_none_tail {d : Doc} (hfuel : 3 * d.text.length ≤ fuel)
    (h : readElements fuel s = none) : readElements (fuel + 1) (d.text ++ 44 :: s) = none := by
  have hws : takeWs (d.text ++ 44 :: s) = (noWs, d.text ++ 44 :: s) :=
    takeWs_doc (w := noWs)
  have hcomma : takeWs (44 :: s) = (noWs, 44 :: s) := takeWs_of_cons (by decide)
  have hcomma' : some (44 : Code) = some (ofChar ',') := by decide
  unfold readElements
  simp only [hws, readDoc_text d hfuel (Stops.cons (c := 44) (by decide)), hcomma,
    List.head?_cons, List.tail_cons]
  rw [if_pos hcomma', h]
  rfl

/-- The reader after the name of a member. -/
theorem readMembers_key (key : Str) {result : Option (Members × Str)}
    (h : ∀ w₁, (match readDoc fuel (takeWs s).2 with
      | none => none
      | some (d, r) =>
          if (takeWs r).2.head? = some (ofChar ',') then
            (readMembers fuel (takeWs r).2.tail).map fun (ms, r') =>
              (Members.more noWs (pieces key) w₁ (takeWs s).1 d (takeWs r).1 ms, r')
          else if (takeWs r).2.head? = some (ofChar '\x7d') then
            some (.last noWs (pieces key) w₁ (takeWs s).1 d (takeWs r).1, (takeWs r).2.tail)
          else none) = result) :
    readMembers (fuel + 1) (quotedText key ++ 58 :: s) = result := by
  have hquote : isWhitespace 34 = false := by decide
  have hquote' : some (34 : Code) = some (ofChar '"') := by decide
  have hcolon : takeWs (58 :: s) = (noWs, 58 :: s) := takeWs_of_cons (by decide)
  have hcolon' : some (58 : Code) = some (ofChar ':') := by decide
  rw [quotedText, List.cons_append, List.append_assoc, List.singleton_append]
  unfold readMembers
  simp only [takeWs_of_cons hquote, List.head?_cons, List.tail_cons]
  rw [if_pos hquote', readString_append]
  simp only [hcolon, List.head?_cons, List.tail_cons]
  rw [if_pos hcolon']
  exact h noWs

/-- A member whose value is not read. -/
theorem readMembers_none {key : Str}
    (hc : isWhitespace c = false) (h : readDoc fuel (c :: s) = none) :
    readMembers (fuel + 1) (quotedText key ++ 58 :: c :: s) = none :=
  readMembers_key key fun w₁ => by rw [takeWs_of_cons hc, h]

/-- A member before others that are not read. -/
theorem readMembers_none_tail {key : Str} {d : Doc}
    (hfuel : 3 * d.text.length ≤ fuel) (h : readMembers fuel s = none) :
    readMembers (fuel + 1) (quotedText key ++ 58 :: (d.text ++ 44 :: s)) = none := by
  have hws : takeWs (d.text ++ 44 :: s) = (noWs, d.text ++ 44 :: s) :=
    takeWs_doc (w := noWs)
  have hcomma : takeWs (44 :: s) = (noWs, 44 :: s) := takeWs_of_cons (by decide)
  have hcomma' : some (44 : Code) = some (ofChar ',') := by decide
  refine readMembers_key key fun w₁ => ?_
  simp only [hws, readDoc_text d hfuel (Stops.cons (c := 44) (by decide)), hcomma,
    List.head?_cons, List.tail_cons]
  rw [if_pos hcomma', h]
  rfl

/-- The text of a value begins an array or an object that is not read. -/
theorem readDoc_array (hc : isWhitespace c = false)
    (hne : c ≠ 93) (h : readElements fuel (c :: s) = none) :
    readDoc (fuel + 2) (91 :: c :: s) = none := by
  show readArray (fuel + 1) (c :: s) = none
  have hclose : some c ≠ some (ofChar ']') := fun heq => hne (Option.some.inj heq)
  unfold readArray
  simp only [takeWs_of_cons hc, List.head?_cons]
  rw [if_neg hclose, h]
  rfl

theorem readDoc_object (hc : isWhitespace c = false)
    (hne : c ≠ 125) (h : readMembers fuel (c :: s) = none) :
    readDoc (fuel + 2) (123 :: c :: s) = none := by
  show readObject (fuel + 1) (c :: s) = none
  have hclose : some c ≠ some (ofChar '\x7d') := fun heq => hne (Option.some.inj heq)
  unfold readObject
  simp only [takeWs_of_cons hc, List.head?_cons]
  rw [if_neg hclose, h]
  rfl

/-- What follows the first part. -/
theorem joinParts_eq_append (part : Str) (rest : List Str) :
    ∃ tail, joinParts (part :: rest) = part ++ tail := by
  cases rest with
  | nil => exact ⟨[], (List.append_nil part).symm⟩
  | cons p ps => exact ⟨_, joinParts_cons (List.cons_ne_nil p ps)⟩

/-- The brackets around elements that are not read. -/
theorem readDoc_array_none (hprints : PrintsScientific snprintf)
    (hnumeral : itemsAll Object.hasNumeral vs = false)
    (hparts : stringifyParts snprintf strtod printOn vs = .ok parts)
    (h : ∀ (fuel : Nat) (r : Str), 3 * (joinParts parts).length + 1 ≤ fuel →
      readElements fuel (joinParts parts ++ 93 :: r) = none)
    (r : Str) (hfuel : 3 * (91 :: (joinParts parts ++ [93])).length ≤ fuel) :
    readDoc fuel (91 :: (joinParts parts ++ [93]) ++ r) = none := by
  cases vs with
  | nil => cases hnumeral
  | cons v vs =>
      rw [List.length_cons, List.length_append, List.length_singleton] at hfuel
      obtain ⟨fuel, rfl⟩ : ∃ n, fuel = n + 2 := ⟨fuel - 2, by omega⟩
      have helements := h fuel r (by omega)
      obtain ⟨part, rest, hpart, -, rfl⟩ := stringifyParts_cons hparts
      obtain ⟨c, t, rfl, hc, hne⟩ := stringifyValue_eq_cons hprints hpart
      obtain ⟨tail, htail⟩ := joinParts_eq_append (c :: t) rest
      rw [htail] at helements ⊢
      rw [List.cons_append, List.append_assoc]
      exact readDoc_array hc hne helements

/-- The braces around members that are not read. -/
theorem readDoc_object_none
    (hnumeral : entriesAll Object.hasNumeral entries = false)
    (hparts : stringifyMembers snprintf strtod printOn entries = .ok parts)
    (h : ∀ (fuel : Nat) (r : Str), 3 * (joinParts parts).length + 1 ≤ fuel →
      readMembers fuel (joinParts parts ++ 125 :: r) = none)
    (r : Str) (hfuel : 3 * (123 :: (joinParts parts ++ [125])).length ≤ fuel) :
    readDoc fuel (123 :: (joinParts parts ++ [125]) ++ r) = none := by
  cases entries with
  | nil => cases hnumeral
  | cons e entries =>
      rw [List.length_cons, List.length_append, List.length_singleton] at hfuel
      obtain ⟨fuel, rfl⟩ : ∃ n, fuel = n + 2 := ⟨fuel - 2, by omega⟩
      have hmembers := h fuel r (by omega)
      obtain ⟨-, part, rest, hpart, -, rfl⟩ := stringifyMembers_cons hparts
      obtain ⟨tail, htail⟩ := joinParts_eq_append
        (quotedText (jsonKeyString snprintf strtod printOn e.1) ++ 58 :: part) rest
      rw [htail] at hmembers ⊢
      rw [List.cons_append, List.append_assoc]
      exact readDoc_object (by decide) (by decide) hmembers

mutual

/-- A text with a Fraction, or with a Float that is not finite, is not read. -/
theorem readDoc_none (hprints : PrintsScientific snprintf) : ∀ (v : Object O) {s : Str},
    v.all Object.hasNumeral = false → stringifyValue snprintf strtod printOn v = .ok s →
    ∀ (fuel : Nat) (r : Str), 3 * s.length ≤ fuel → readDoc fuel (s ++ r) = none
  | .nil, _, hnumeral, _, _, _, _ => by cases hnumeral
  | .boolean _, _, hnumeral, _, _, _, _ => by cases hnumeral
  | .integer _, _, hnumeral, _, _, _, _ => by cases hnumeral
  | .fraction _ _, _, _, h, fuel, r, _ => by
      cases h
      exact readDoc_paren fuel _
  | .float x, _, hnumeral, h, fuel, r, _ => by
      cases h
      obtain ⟨t, ht⟩ := formatFloat_notFinite snprintf strtod hnumeral
      rw [printString, ht]
      exact readDoc_capital fuel _
  | .character _, _, _, h, _, _, _ => by cases h
  | .string _, _, hnumeral, _, _, _, _ => by cases hnumeral
  | .symbol _, _, hnumeral, _, _, _, _ => by cases hnumeral
  | .array vs, _, hnumeral, h, _, r, hfuel => by
      obtain ⟨parts, hparts, rfl⟩ := map_eq_ok h
      exact readDoc_array_none hprints hnumeral hparts
        (readElements_items_none hprints vs hnumeral hparts) r hfuel
  | .orderedCollection vs, _, hnumeral, h, _, r, hfuel => by
      obtain ⟨parts, hparts, rfl⟩ := map_eq_ok h
      exact readDoc_array_none hprints hnumeral hparts
        (readElements_items_none hprints vs hnumeral hparts) r hfuel
  | .dictionary entries, _, hnumeral, h, _, r, hfuel => by
      obtain ⟨parts, hparts, rfl⟩ := map_eq_ok h
      exact readDoc_object_none hnumeral hparts
        (readMembers_entries_none hprints entries hnumeral hparts) r hfuel
  | .other _, _, _, h, _, _, _ => by cases h

theorem readElements_items_none (hprints : PrintsScientific snprintf) :
    ∀ (vs : List (Object O)) {parts : List Str}, itemsAll Object.hasNumeral vs = false →
    stringifyParts snprintf strtod printOn vs = .ok parts →
    ∀ (fuel : Nat) (r : Str), 3 * (joinParts parts).length + 1 ≤ fuel →
      readElements fuel (joinParts parts ++ 93 :: r) = none
  | [], _, hnumeral, _, _, _, _ => by cases hnumeral
  | v :: vs, _, hnumeral, h, fuel, r, hfuel => by
      obtain ⟨fuel, rfl⟩ : ∃ n, fuel = n + 1 := ⟨fuel - 1, by omega⟩
      obtain ⟨part, rest, hpart, hrest, rfl⟩ := stringifyParts_cons h
      cases hv : v.all Object.hasNumeral with
      | false =>
          obtain ⟨tail, htail⟩ := joinParts_eq_append part rest
          rw [htail, List.length_append] at hfuel
          have hdoc := readDoc_none hprints v hv hpart fuel (tail ++ 93 :: r) (by omega)
          obtain ⟨c, t, rfl, hc, -⟩ := stringifyValue_eq_cons hprints hpart
          rw [htail, List.append_assoc]
          exact readElements_none hc hdoc
      | true =>
          have hvs : itemsAll Object.hasNumeral vs = false := by
            rwa [itemsAll, hv, Bool.true_and] at hnumeral
          have hne : rest ≠ [] := by
            cases vs with
            | nil => cases hvs
            | cons w vs => exact stringifyParts_ne_nil hrest
          obtain ⟨d, -, rfl, -⟩ := renders_value hprints v hv hpart
          rw [joinParts_cons hne, List.length_append, List.length_cons] at hfuel
          rw [joinParts_cons hne, List.append_assoc, List.cons_append]
          exact readElements_none_tail (by omega)
            (readElements_items_none hprints vs hvs hrest fuel r (by omega))

theorem readMembers_entries_none (hprints : PrintsScientific snprintf) :
    ∀ (entries : List (Object O × Object O)) {parts : List Str},
    entriesAll Object.hasNumeral entries = false →
    stringifyMembers snprintf strtod printOn entries = .ok parts →
    ∀ (fuel : Nat) (r : Str), 3 * (joinParts parts).length + 1 ≤ fuel →
      readMembers fuel (joinParts parts ++ 125 :: r) = none
  | [], _, hnumeral, _, _, _, _ => by cases hnumeral
  | (k, v) :: entries, _, hnumeral, h, fuel, r, hfuel => by
      obtain ⟨fuel, rfl⟩ : ∃ n, fuel = n + 1 := ⟨fuel - 1, by omega⟩
      obtain ⟨hkey, part, rest, hpart, hrest, rfl⟩ := stringifyMembers_cons h
      cases hv : v.all Object.hasNumeral with
      | false =>
          obtain ⟨tail, htail⟩ := joinParts_eq_append
            (quotedText (jsonKeyString snprintf strtod printOn k) ++ 58 :: part) rest
          rw [htail, List.length_append, List.length_append, List.length_cons] at hfuel
          have hdoc := readDoc_none hprints v hv hpart fuel (tail ++ 125 :: r) (by omega)
          obtain ⟨c, t, rfl, hc, -⟩ := stringifyValue_eq_cons hprints hpart
          rw [htail, List.append_assoc, List.append_assoc]
          exact readMembers_none hc hdoc
      | true =>
          have hentries : entriesAll Object.hasNumeral entries = false := by
            rwa [entriesAll, hv, Bool.true_and] at hnumeral
          have hne : rest ≠ [] := by
            cases entries with
            | nil => cases hentries
            | cons e entries => exact stringifyMembers_ne_nil hrest
          obtain ⟨d, -, rfl, -⟩ := renders_value hprints v hv hpart
          rw [joinParts_cons hne, List.length_append, List.length_append, List.length_cons,
            List.length_cons] at hfuel
          rw [joinParts_cons hne, List.append_assoc, List.append_assoc, List.cons_append,
            List.cons_append]
          exact readMembers_none_tail (by omega)
            (readMembers_entries_none hprints entries hentries hrest fuel r (by omega))

end

/-! ## The whole text -/

theorem readText_none (hprints : PrintsScientific snprintf)
    (hnumeral : v.all Object.hasNumeral = false)
    (h : stringifyValue snprintf strtod printOn v = .ok s)
    (hfuel : 3 * s.length ≤ fuel) : readText fuel s = none := by
  have hdoc := readDoc_none hprints v hnumeral h fuel [] hfuel
  rw [List.append_nil] at hdoc
  obtain ⟨c, t, rfl, hc, -⟩ := stringifyValue_eq_cons hprints h
  unfold readText
  rw [takeWs_of_cons hc]
  dsimp only
  rw [hdoc]

theorem isTextFor_iff (hprints : PrintsScientific snprintf)
    (h : stringifyValue snprintf strtod printOn v = .ok s) :
    IsTextFor v s ↔ v.all Object.hasNumeral = true ∧
      v.all (Object.hasDistinctKeys snprintf strtod printOn) = true := by
  cases hnumeral : v.all Object.hasNumeral with
  | false =>
      refine ⟨fun ⟨t, _, htext, _⟩ => ?_, fun h => absurd h.1 Bool.false_ne_true⟩
      have hread := readText_text t (Nat.le_refl _)
      rw [htext, readText_none hprints hnumeral h (Nat.le_refl _)] at hread
      cases hread
  | true =>
      obtain ⟨d, hlax, htext, hmirrors⟩ := renders_value hprints v hnumeral h
      have hwhole : (Text.mk noWs d noWs).text = s := by
        rw [← htext]
        exact List.append_nil d.text
      constructor
      · rintro ⟨t, -, ht, hmirror⟩
        obtain rfl := Text.text_injective (ht.trans hwhole.symm)
        exact ⟨rfl, hmirrors.mp hmirror⟩
      · exact fun hdistinct => ⟨⟨noWs, d, noWs⟩, hlax, hwhole, hmirrors.mpr hdistinct.2⟩

/-- An error or a JSON text, with as many members as entries, if and only if a value without a
JSON form, or a text with a character that is written by its code, stops the rendering, or every
number has a numeral and the keys of every dictionary have distinct texts. -/
theorem writesValid_iff (hprints : PrintsScientific snprintf) (v : Object O) :
    WritesValid snprintf strtod printOn v ↔
      v.all (Object.isWritten snprintf strtod printOn) = false ∨
      v.all Object.hasNumeral = true ∧
        v.all (Object.hasDistinctKeys snprintf strtod printOn) = true := by
  have hok : (∃ s, stringifyValue snprintf strtod printOn v = .ok s) ↔ _ :=
    stringifyValue_ok_iff v
  unfold WritesValid
  cases h : stringifyValue snprintf strtod printOn v with
  | error e =>
      have hform : v.all (Object.isWritten snprintf strtod printOn) = false := by
        cases hform : v.all (Object.isWritten snprintf strtod printOn) with
        | false => rfl
        | true =>
            obtain ⟨s, hs⟩ := hok.mpr hform
            rw [h] at hs
            cases hs
      exact ⟨fun _ => .inl hform, fun _ => .inl ⟨e, rfl⟩⟩
  | ok s =>
      have hform : v.all (Object.isWritten snprintf strtod printOn) = true := hok.mp ⟨s, h⟩
      rw [← isTextFor_iff hprints h, hform]
      constructor
      · rintro (⟨e, he⟩ | ⟨s', hs, htext⟩)
        · cases he
        · cases hs
          exact .inr htext
      · rintro (hfalse | htext)
        · cases hfalse
        · exact .inr ⟨s, rfl, htext⟩

end Rendered

/-! ## Two values -/

theorem isDigitIn_one : ∀ c ∈ ['1'], Frontend.Lexer.isDigitIn 10 c = true := by
  intro c hc
  rw [List.mem_singleton.mp hc]
  rfl

/-- `1e+00` -/
def oneScientific : Runtime.ValueFormat.Scientific where
  negative := false
  lead := '1'
  fraction := []
  exponent := 0
  digit := isDigitIn_one

/-- What `snprintf` prints of one. -/
def printOne (_prec : Nat) (_x : Double) : List Char := oneScientific.text

theorem printOne_scientific : PrintsScientific printOne :=
  fun _ _ _ => ⟨oneScientific, rfl, fun h => absurd h (by decide)⟩

/-- A dictionary with the keys `'a'` and `#b`, of an array with the Float one and of `nil`. -/
def sample : Object Empty :=
  .dictionary [(.string (ofString "a"), .array [.float 0x3FF0000000000000#64, .boolean true]),
    (.symbol (ofString "b"), .nil)]

theorem writesValid_sample :
    WritesValid printOne (fun _ => 0x3FF0000000000000#64) (fun _ => []) sample :=
  (writesValid_iff printOne_scientific sample).mpr (.inr ⟨by decide, by decide⟩)

/-- `(1/2)` -/
theorem not_writesValid_half :
    ¬ WritesValid printOne (fun _ => 0x3FF0000000000000#64) (fun _ => [])
      (.fraction 1 2 : Object Empty) := by
  rintro (⟨e, he⟩ | ⟨s, hs, htext⟩)
  · cases he
  · exact absurd ((isTextFor_iff printOne_scientific hs).mp htext).1 (by decide)

end ProtoST.Json.Rendering

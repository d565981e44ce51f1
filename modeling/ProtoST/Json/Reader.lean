import ProtoST.Json.Grammar
import ProtoST.Lib.Scan

/-!
# Reading the tree of a text

A reader for the trees of the wider grammar, its inverse `Text.text`, and so the
grammar is unambiguous: a String is the text of at most one tree.

## Main results

* `readText_text` — reading the text of a tree gives the tree.
* `Text.text_injective` — no two trees have the same text.
-/

namespace ProtoST.Json

open ProtoST.Lib

/-! ## Runs -/

def takeWs (s : Str) : Ws × Str :=
  (⟨s.takeWhile isWhitespace, fun _ hc => List.mem_takeWhile_imp hc⟩, s.dropWhile isWhitespace)

@[simp] theorem takeWs_append {w : Ws} {r : Str} (h : Stops isWhitespace r) :
    takeWs (w.1 ++ r) = (w, r) := by
  unfold takeWs
  exact Prod.ext (Subtype.ext (takeWhile_of_stops w.2 h)) (dropWhile_of_stops w.2 h)

theorem text_takeWs (s : Str) : (takeWs s).1.1 ++ (takeWs s).2 = s :=
  List.takeWhile_append_dropWhile

theorem stops_takeWs (s : Str) : Stops isWhitespace (takeWs s).2 := stops_dropWhile s

theorem length_takeWs_le (s : Str) : (takeWs s).2.length ≤ s.length :=
  List.length_dropWhile_le isWhitespace s

def takeDigits : Str → List (Fin 10) × Str
  | [] => ([], [])
  | c :: s =>
      if h : isDigitCode c = true then
        (⟨c.val - 48, by simp [isDigitCode] at h; omega⟩ :: (takeDigits s).1, (takeDigits s).2)
      else ([], c :: s)

theorem isDigitCode_digitCode (d : Fin 10) : isDigitCode (digitCode d) = true := by
  revert d
  decide

theorem digitCode_ne {d : Fin 10} {c : Code} (h : isDigitCode c = false) : digitCode d ≠ c := by
  rintro rfl
  rw [isDigitCode_digitCode] at h
  cases h

theorem takeDigits_of_stops {r : Str} (h : Stops isDigitCode r) : takeDigits r = ([], r) := by
  cases r with
  | nil => rfl
  | cons c r => simp [takeDigits, h.head]

theorem takeDigits_append {ds : List (Fin 10)} {r : Str} (h : Stops isDigitCode r) :
    takeDigits (digitText ds ++ r) = (ds, r) := by
  induction ds with
  | nil => exact takeDigits_of_stops h
  | cons d ds ih =>
      have hd := isDigitCode_digitCode d
      simp only [digitText, List.map_cons, List.cons_append, takeDigits, hd, dif_pos]
      rw [show ds.map digitCode ++ r = digitText ds ++ r from rfl, ih]
      simp [digitCode]

theorem takeDigits_spec (s : Str) : digitText (takeDigits s).1 ++ (takeDigits s).2 = s ∧
    Stops isDigitCode (takeDigits s).2 := by
  induction s with
  | nil => exact ⟨rfl, .nil⟩
  | cons c s ih =>
      unfold takeDigits
      split
      · rename_i hc
        have hcode : digitCode ⟨c.val - 48, by simp [isDigitCode] at hc; omega⟩ = c := by
          simp only [isDigitCode, Bool.and_eq_true, decide_eq_true_eq] at hc
          apply Fin.ext
          show 48 + (c.val - 48) = c.val
          omega
        refine ⟨?_, ih.2⟩
        show digitCode _ :: (digitText (takeDigits s).1 ++ (takeDigits s).2) = c :: s
        rw [hcode, ih.1]
      · rename_i hc
        exact ⟨rfl, .cons (by simpa using hc)⟩

def takeDigits1 (s : Str) : Option (Digits × Str) :=
  if h : (takeDigits s).1 ≠ [] then some (⟨(takeDigits s).1, h⟩, (takeDigits s).2) else none

theorem takeDigits1_append {ds : Digits} {r : Str} (h : Stops isDigitCode r) :
    takeDigits1 (digitText ds.1 ++ r) = some (ds, r) := by
  simp [takeDigits1, takeDigits_append h, ds.2]

theorem text_takeDigits1 {s r : Str} {ds : Digits} (h : takeDigits1 s = some (ds, r)) :
    digitText ds.1 ++ r = s := by
  unfold takeDigits1 at h
  split at h
  · cases h
    exact (takeDigits_spec s).1
  · cases h

/-! ## Numbers -/

/-- What a fraction may not be followed by. -/
def isFracTail (c : Code) : Bool := isDigitCode c || c == 46

/-- What a number may not be followed by. -/
def isNumberTail (c : Code) : Bool := isFracTail c || c == 101 || c == 69

def takeFrac (s : Str) : Option (Option Digits × Str) :=
  if s.head? = some 46 then (takeDigits1 s.tail).map fun (ds, s) => (some ds, s)
  else some (none, s)

def ExpSign.ofSigns : Bool → Bool → ExpSign
  | false, false => .none
  | true, false => .plus
  | false, true => .minus
  | true, true => .plusMinus

/-- A sign and a second one. -/
def takeSign (s : Str) : ExpSign × Str :=
  let plus : Bool := s.head? = some 43
  let s := if plus then s.tail else s
  let minus : Bool := s.head? = some 45
  (.ofSigns plus minus, if minus then s.tail else s)

def takeExp (s : Str) : Option (Option Exponent × Str) :=
  if s.head? = some 101 ∨ s.head? = some 69 then
    (takeDigits1 (takeSign s.tail).2).map fun (ds, t) =>
      (some ⟨s.head? = some 69, (takeSign s.tail).1, ds⟩, t)
  else some (none, s)

def readNumber (s : Str) : Option (Number × Str) :=
  let negative : Bool := s.head? = some 45
  (takeDigits1 (if negative then s.tail else s)).bind fun (int, s) =>
    (takeFrac s).bind fun (frac, s) =>
      (takeExp s).map fun (exp, s) => (⟨negative, int, frac, exp⟩, s)

theorem takeFrac_append {f : Option Digits} {r : Str} (h : Stops isFracTail r) :
    takeFrac (Number.fracText f ++ r) = some (f, r) := by
  have hdigit : Stops isDigitCode r := h.imp fun c hc => by simp [isFracTail, hc]
  cases f with
  | none =>
      have hne : r.head? ≠ some 46 := fun he => by
        have := h 46 he
        revert this
        decide
      simp [takeFrac, Number.fracText, hne]
  | some ds =>
      simp [takeFrac, Number.fracText, takeDigits1_append hdigit]

theorem takeSign_append {sign : ExpSign} {ds : Digits} {r : Str} :
    takeSign (sign.text ++ (digitText ds.1 ++ r)) = (sign, digitText ds.1 ++ r) := by
  obtain ⟨ds, hds⟩ := ds
  cases ds with
  | nil => exact absurd rfl hds
  | cons d ds =>
      have hplus : digitCode d ≠ 43 := digitCode_ne (by decide)
      have hminus : digitCode d ≠ 45 := digitCode_ne (by decide)
      cases sign <;> simp [takeSign, ExpSign.text, digitText, ExpSign.ofSigns, hplus, hminus]

theorem takeExp_append {e : Option Exponent} {r : Str} (h : Stops isNumberTail r) :
    takeExp (Number.expText e ++ r) = some (e, r) := by
  have hdigit : Stops isDigitCode r := h.imp fun c hc => by simp [isNumberTail, isFracTail, hc]
  cases e with
  | none =>
      have hlower : r.head? ≠ some 101 := fun he => by
        have := h 101 he
        revert this
        decide
      have hupper : r.head? ≠ some 69 := fun he => by
        have := h 69 he
        revert this
        decide
      simp [takeExp, Number.expText, hlower, hupper]
  | some e =>
      obtain ⟨upper, sign, ds⟩ := e
      cases upper <;>
        simp [takeExp, Number.expText, takeSign_append, takeDigits1_append hdigit]

theorem stops_expText {e : Option Exponent} {r : Str} (h : Stops isNumberTail r) :
    Stops isFracTail (Number.expText e ++ r) := by
  cases e with
  | none => exact h.imp fun c hc => by simp [isNumberTail, hc]
  | some e =>
      refine .cons ?_
      cases e.upper <;> decide

theorem stops_fracText {f : Option Digits} {r : Str} (h : Stops isFracTail r) :
    Stops isDigitCode (Number.fracText f ++ r) := by
  cases f with
  | none => exact h.imp fun c hc => by simp [isFracTail, hc]
  | some ds => exact .cons (by decide)

theorem head?_digitText {ds : Digits} {r : Str} {c : Code} (h : isDigitCode c = false) :
    (digitText ds.1 ++ r).head? ≠ some c := by
  obtain ⟨ds, hds⟩ := ds
  cases ds with
  | nil => exact absurd rfl hds
  | cons d ds => exact fun he => digitCode_ne h (Option.some.inj he)

theorem readNumber_append {n : Number} {r : Str} (h : Stops isNumberTail r) :
    readNumber (n.text ++ r) = some (n, r) := by
  obtain ⟨negative, int, frac, exp⟩ := n
  have hint : takeDigits1 (digitText int.1 ++ (Number.fracText frac ++ (Number.expText exp ++ r))) =
      some (int, Number.fracText frac ++ (Number.expText exp ++ r)) :=
    takeDigits1_append (stops_fracText (f := frac) (stops_expText (e := exp) h))
  have hfrac := takeFrac_append (f := frac) (stops_expText (e := exp) h)
  have hexp := takeExp_append (e := exp) h
  have hhead : (digitText int.1 ++ (Number.fracText frac ++ (Number.expText exp ++ r))).head? ≠
      some 45 :=
    head?_digitText (by decide)
  generalize htext : digitText int.1 ++ (Number.fracText frac ++ (Number.expText exp ++ r)) = t
    at hint hhead
  cases negative with
  | false => simp only [readNumber, Number.text, Bool.false_eq_true, if_false, List.nil_append,
      List.append_assoc, htext, hhead, decide_false, hint, hfrac, hexp, Option.bind_some,
      Option.map_some]
  | true => simp [readNumber, Number.text, htext, hint, hfrac, hexp]

theorem cons_tail {s : Str} {c : Code} (h : s.head? = some c) : c :: s.tail = s := by
  cases s with
  | nil => cases h
  | cons d s => cases h; rfl

theorem text_takeFrac {s r : Str} {f : Option Digits} (h : takeFrac s = some (f, r)) :
    Number.fracText f ++ r = s := by
  unfold takeFrac at h
  split at h
  · rename_i hhead
    obtain ⟨⟨ds, t⟩, hds, heq⟩ := Option.map_eq_some_iff.mp h
    cases heq
    rw [Number.fracText, List.cons_append, text_takeDigits1 hds, cons_tail hhead]
  · cases h
    rfl

theorem text_takeSign (s : Str) : (takeSign s).1.text ++ (takeSign s).2 = s := by
  cases s with
  | nil => rfl
  | cons c s =>
      by_cases hplus : c = 43
      · cases s with
        | nil => simp [takeSign, hplus, ExpSign.ofSigns, ExpSign.text]
        | cons d s =>
            by_cases hminus : d = 45
            · simp [takeSign, hplus, hminus, ExpSign.ofSigns, ExpSign.text]
            · simp [takeSign, hplus, hminus, ExpSign.ofSigns, ExpSign.text]
      · by_cases hminus : c = 45
        · simp [takeSign, hminus, ExpSign.ofSigns, ExpSign.text]
        · simp [takeSign, hplus, hminus, ExpSign.ofSigns, ExpSign.text]

theorem text_takeExp {s r : Str} {e : Option Exponent} (h : takeExp s = some (e, r)) :
    Number.expText e ++ r = s := by
  unfold takeExp at h
  split at h
  · rename_i hhead
    obtain ⟨⟨ds, t⟩, hds, heq⟩ := Option.map_eq_some_iff.mp h
    cases heq
    have hmark : (if s.head? = some 69 then (69 : Code) else 101) :: s.tail = s := by
      split
      · rename_i hupper
        exact cons_tail hupper
      · rename_i hupper
        exact cons_tail (hhead.resolve_right hupper)
    simp only [Number.expText, List.cons_append, List.append_assoc, text_takeDigits1 hds,
      text_takeSign, decide_eq_true_eq, hmark]
  · cases h
    rfl

theorem text_readNumber {s r : Str} {n : Number} (h : readNumber s = some (n, r)) :
    n.text ++ r = s := by
  obtain ⟨⟨int, s₁⟩, hint, h⟩ := Option.bind_eq_some_iff.mp h
  obtain ⟨⟨frac, s₂⟩, hfrac, h⟩ := Option.bind_eq_some_iff.mp h
  obtain ⟨⟨exp, s₃⟩, hexp, heq⟩ := Option.map_eq_some_iff.mp h
  cases heq
  simp only [Number.text, List.append_assoc, text_takeExp hexp, text_takeFrac hfrac,
    text_takeDigits1 hint]
  split
  · rename_i hneg
    simp only [decide_eq_true_eq] at hneg
    simp [hneg, cons_tail]
  · rename_i hneg
    simp only [decide_eq_true_eq] at hneg
    simp only [List.nil_append]

/-! ## Strings -/

def Escape.ofLetter? (c : Code) : Option Escape :=
  if c = 34 then some .quote
  else if c = 92 then some .backslash
  else if c = 47 then some .slash
  else if c = 110 then some .lineFeed
  else if c = 116 then some .tab
  else if c = 114 then some .carriageReturn
  else if c = 98 then some .backspace
  else if c = 102 then some .formFeed
  else none

theorem Escape.ofLetter?_letter (e : Escape) : Escape.ofLetter? e.letter = some e := by
  cases e <;> rfl

theorem Escape.letter_of_ofLetter? {c : Code} {e : Escape} (h : Escape.ofLetter? c = some e) :
    e.letter = c := by
  unfold Escape.ofLetter? at h
  repeat' split at h
  all_goals cases h
  all_goals exact Eq.symm ‹_›

def hexDigit? (c : Code) : Option HexDigit :=
  if h : (hexValue? c).isSome then some ⟨c, h⟩ else none

/-- The four digits of a `\u` escape. -/
def takeUnicode : Str → Option (Piece × Str)
  | a :: b :: c :: d :: s =>
      (hexDigit? a).bind fun a => (hexDigit? b).bind fun b => (hexDigit? c).bind fun c =>
        (hexDigit? d).map fun d => (.unicode a b c d, s)
  | _ => none

/-- A piece after its backslash. -/
def takeEscape : Str → Option (Piece × Str)
  | [] => none
  | e :: s =>
      match Escape.ofLetter? e with
      | some e => some (.escape e, s)
      | none => if e = 117 then takeUnicode s else none

/-- The pieces to the closing quote, which is taken too. -/
def readPieces : Nat → Str → Option (List Piece × Str)
  | 0, _ => none
  | _ + 1, [] => none
  | fuel + 1, c :: s =>
      if c = 34 then some ([], s)
      else if c = 92 then
        (takeEscape s).bind fun (p, s) => (readPieces fuel s).map fun (ps, s) => (p :: ps, s)
      else if h : isUnescaped c = true then
        (readPieces fuel s).map fun (ps, s) => (.plain c h :: ps, s)
      else none

theorem takeUnicode_append {a b c d : HexDigit} {r : Str} :
    takeUnicode ([a.1, b.1, c.1, d.1] ++ r) = some (.unicode a b c d, r) := by
  simp [takeUnicode, hexDigit?, a.2, b.2, c.2, d.2]

theorem readPieces_append {ps : List Piece} {r : Str} {fuel : Nat}
    (hfuel : (piecesText ps).length < fuel) :
    readPieces fuel (piecesText ps ++ 34 :: r) = some (ps, r) := by
  induction ps generalizing fuel with
  | nil =>
      cases fuel with
      | zero => cases hfuel
      | succ fuel => rfl
  | cons p ps ih =>
      cases fuel with
      | zero => cases hfuel
      | succ fuel =>
          have hrest : (piecesText ps).length < fuel := by
            cases p <;> simp [piecesText, Piece.text] at hfuel ⊢ <;> omega
          have hps := ih hrest
          unfold piecesText at hps ⊢
          rw [List.flatMap_cons, List.append_assoc]
          cases p with
          | plain c h =>
              have hquote : c ≠ 34 := by
                rintro rfl
                exact absurd h (by decide)
              have hbackslash : c ≠ 92 := by
                rintro rfl
                exact absurd h (by decide)
              simp [Piece.text, readPieces, hquote, hbackslash, h, hps]
          | escape e => simp [Piece.text, readPieces, takeEscape, Escape.ofLetter?_letter, hps]
          | unicode a b c d =>
              have hu : Escape.ofLetter? 117 = none := by decide
              have hunicode := takeUnicode_append (a := a) (b := b) (c := c) (d := d)
                (r := List.flatMap Piece.text ps ++ 34 :: r)
              simp only [List.cons_append, List.nil_append] at hunicode
              simp [Piece.text, readPieces, takeEscape, hu, hunicode, hps]

theorem text_hexDigit? {c : Code} {d : HexDigit} (h : hexDigit? c = some d) : d.1 = c := by
  unfold hexDigit? at h
  split at h
  · cases h
    rfl
  · cases h

theorem text_takeUnicode {s r : Str} {p : Piece} (h : takeUnicode s = some (p, r)) :
    p.text ++ r = 92 :: 117 :: s := by
  unfold takeUnicode at h
  split at h
  · obtain ⟨a', ha, h⟩ := Option.bind_eq_some_iff.mp h
    obtain ⟨b', hb, h⟩ := Option.bind_eq_some_iff.mp h
    obtain ⟨c', hc, h⟩ := Option.bind_eq_some_iff.mp h
    obtain ⟨d', hd, heq⟩ := Option.map_eq_some_iff.mp h
    cases heq
    simp [Piece.text, text_hexDigit? ha, text_hexDigit? hb, text_hexDigit? hc, text_hexDigit? hd]
  · cases h

theorem text_takeEscape {s r : Str} {p : Piece} (h : takeEscape s = some (p, r)) :
    p.text ++ r = 92 :: s := by
  cases s with
  | nil => cases h
  | cons e s =>
      simp only [takeEscape] at h
      cases hletter : Escape.ofLetter? e with
      | some x =>
          rw [hletter] at h
          cases h
          simp [Piece.text, Escape.letter_of_ofLetter? hletter]
      | none =>
          rw [hletter] at h
          dsimp only at h
          split at h
          · rename_i hu
            rw [hu]
            exact text_takeUnicode h
          · cases h

theorem text_readPieces {fuel : Nat} {s r : Str} {ps : List Piece}
    (h : readPieces fuel s = some (ps, r)) : piecesText ps ++ 34 :: r = s := by
  induction fuel generalizing s r ps with
  | zero => cases h
  | succ fuel ih =>
      cases s with
      | nil => cases h
      | cons c s =>
          unfold readPieces at h
          split at h
          · rename_i hquote
            cases h
            rw [hquote]
            rfl
          · split at h
            · rename_i hbackslash
              obtain ⟨⟨p, s₁⟩, hp, h⟩ := Option.bind_eq_some_iff.mp h
              obtain ⟨⟨ps', s₂⟩, hps, heq⟩ := Option.map_eq_some_iff.mp h
              cases heq
              rw [hbackslash, ← text_takeEscape hp, ← ih hps]
              simp [piecesText]
            · split at h
              · obtain ⟨⟨ps', s₂⟩, hps, heq⟩ := Option.map_eq_some_iff.mp h
                cases heq
                rw [← ih hps]
                rfl
              · cases h

/-! ## Trees -/

/-- What is left after a word. -/
def expect : Str → Str → Option Str
  | [], s => some s
  | _ :: _, [] => none
  | x :: word, c :: s => if c = x then expect word s else none

theorem expect_append (word r : Str) : expect word (word ++ r) = some r := by
  induction word with
  | nil => rfl
  | cons x word ih => simp [expect, ih]

theorem text_expect {word s r : Str} (h : expect word s = some r) : word ++ r = s := by
  induction word generalizing s with
  | nil => exact (Option.some.inj h).symm
  | cons x word ih =>
      cases s with
      | nil => cases h
      | cons c s =>
          unfold expect at h
          split at h
          · rename_i hc
            rw [List.cons_append, ih h, hc]
          · cases h

/-- The pieces of a string after its opening quote. -/
def readString (s : Str) : Option (List Piece × Str) := readPieces (s.length + 1) s

theorem readString_append {ps : List Piece} {r : Str} :
    readString (piecesText ps ++ 34 :: r) = some (ps, r) :=
  readPieces_append (by rw [List.length_append, List.length_cons]; omega)

mutual

def readDoc : Nat → Str → Option (Doc × Str)
  | 0, _ => none
  | fuel + 1, s =>
      match s.head? with
      | none => none
      | some c =>
          if c = ofChar '\x7b' then readObject fuel s.tail
          else if c = ofChar '[' then readArray fuel s.tail
          else if c = ofChar '"' then (readString s.tail).map fun (ps, s) => (.string ps, s)
          else if c = ofChar 't' then (expect (ofString "true") s).map fun s => (.boolean true, s)
          else if c = ofChar 'f' then (expect (ofString "false") s).map fun s => (.boolean false, s)
          else if c = ofChar 'n' then (expect (ofString "null") s).map fun s => (.null, s)
          else if c = ofChar '-' ∨ isDigitCode c then
            (readNumber s).map fun (n, s) => (.number n, s)
          else none

/-- An array after its bracket. -/
def readArray : Nat → Str → Option (Doc × Str)
  | 0, _ => none
  | fuel + 1, s =>
      if (takeWs s).2.head? = some (ofChar ']') then
        some (.emptyArray (takeWs s).1, (takeWs s).2.tail)
      else (readElements fuel s).map fun (es, s) => (.array es, s)

def readElements : Nat → Str → Option (Elements × Str)
  | 0, _ => none
  | fuel + 1, s =>
      let (w, s) := takeWs s
      match readDoc fuel s with
      | none => none
      | some (d, s) =>
          let (w', s) := takeWs s
          if s.head? = some (ofChar ',') then
            (readElements fuel s.tail).map fun (es, s) => (.more w d w' es, s)
          else if s.head? = some (ofChar ']') then some (.last w d w', s.tail)
          else none

/-- An object after its brace. -/
def readObject : Nat → Str → Option (Doc × Str)
  | 0, _ => none
  | fuel + 1, s =>
      if (takeWs s).2.head? = some (ofChar '\x7d') then
        some (.emptyObject (takeWs s).1, (takeWs s).2.tail)
      else (readMembers fuel s).map fun (ms, s) => (.object ms, s)

def readMembers : Nat → Str → Option (Members × Str)
  | 0, _ => none
  | fuel + 1, s =>
      let (w, s) := takeWs s
      if s.head? = some (ofChar '"') then
        match readString s.tail with
        | none => none
        | some (key, s) =>
            let (w₁, s) := takeWs s
            if s.head? = some (ofChar ':') then
              let (w₂, s) := takeWs s.tail
              match readDoc fuel s with
              | none => none
              | some (d, s) =>
                  let (w', s) := takeWs s
                  if s.head? = some (ofChar ',') then
                    (readMembers fuel s.tail).map fun (ms, s) => (.more w key w₁ w₂ d w' ms, s)
                  else if s.head? = some (ofChar '\x7d') then
                    some (.last w key w₁ w₂ d w', s.tail)
                  else none
            else none
      else none

end

/-- A whole text. -/
def readText (fuel : Nat) (s : Str) : Option Text :=
  match readDoc fuel (takeWs s).2 with
  | none => none
  | some (d, r) => if (takeWs r).2.isEmpty then some ⟨(takeWs s).1, d, (takeWs r).1⟩ else none

/-! ## What is read is the text -/

/-- Whitespace and the character after it. -/
theorem text_takeWs_cons {s r : Str} {c : Code} (h : (takeWs s).2.head? = some c)
    (hr : r = (takeWs s).2.tail) : (takeWs s).1.1 ++ c :: r = s := by
  rw [hr, cons_tail h, text_takeWs]

theorem text_readDoc_all (fuel : Nat) :
    (∀ s r d, readDoc fuel s = some (d, r) → d.text ++ r = s) ∧
    (∀ s r d, readArray fuel s = some (d, r) → d.text ++ r = 91 :: s) ∧
    (∀ s r es, readElements fuel s = some (es, r) → es.text ++ r = s) ∧
    (∀ s r d, readObject fuel s = some (d, r) → d.text ++ r = 123 :: s) ∧
    ∀ s r ms, readMembers fuel s = some (ms, r) → ms.text ++ r = s := by
  induction fuel with
  | zero =>
      refine ⟨?_, ?_, ?_, ?_, ?_⟩ <;> (intro s r d h; cases h)
  | succ fuel ih =>
      obtain ⟨hdoc, harray, helements, hobject, hmembers⟩ := ih
      refine ⟨?_, ?_, ?_, ?_, ?_⟩
      · intro s r d h
        unfold readDoc at h
        split at h
        · cases h
        rename_i c hc
        split at h
        · rename_i hbrace
          rw [hobject _ _ _ h, ← cons_tail hc, hbrace]
          rfl
        split at h
        · rename_i hbracket
          rw [harray _ _ _ h, ← cons_tail hc, hbracket]
          rfl
        split at h
        · rename_i hquote
          obtain ⟨⟨ps, t⟩, hps, heq⟩ := Option.map_eq_some_iff.mp h
          cases heq
          simp only [Doc.text, List.cons_append, List.append_assoc, List.nil_append,
            text_readPieces hps]
          rw [← cons_tail hc, hquote]
          rfl
        split at h
        · obtain ⟨t, hword, heq⟩ := Option.map_eq_some_iff.mp h
          cases heq
          exact text_expect hword
        split at h
        · obtain ⟨t, hword, heq⟩ := Option.map_eq_some_iff.mp h
          cases heq
          exact text_expect hword
        split at h
        · obtain ⟨t, hword, heq⟩ := Option.map_eq_some_iff.mp h
          cases heq
          exact text_expect hword
        split at h
        · obtain ⟨⟨n, t⟩, hn, heq⟩ := Option.map_eq_some_iff.mp h
          cases heq
          exact text_readNumber hn
        · cases h
      · intro s r d h
        unfold readArray at h
        split at h
        · rename_i hclose
          cases h
          have hws : (takeWs s).1.1 ++ 93 :: (takeWs s).2.tail = s := text_takeWs_cons hclose rfl
          simp only [Doc.text, List.cons_append, List.append_assoc, List.nil_append, hws]
        · obtain ⟨⟨es, t⟩, hes, heq⟩ := Option.map_eq_some_iff.mp h
          cases heq
          rw [Doc.text, List.cons_append, helements _ _ _ hes]
      · intro s r es h
        unfold readElements at h
        dsimp only at h
        split at h
        · cases h
        rename_i d t hd
        split at h
        · rename_i hcomma
          obtain ⟨⟨es', u⟩, hes, heq⟩ := Option.map_eq_some_iff.mp h
          cases heq
          have hws : (takeWs t).1.1 ++ 44 :: (es'.text ++ u) = t :=
            text_takeWs_cons hcomma (helements _ _ _ hes)
          simp only [Elements.text, List.cons_append, List.append_assoc, hws, hdoc _ _ _ hd,
            text_takeWs]
        split at h
        · rename_i hclose
          cases h
          have hws : (takeWs t).1.1 ++ 93 :: (takeWs t).2.tail = t := text_takeWs_cons hclose rfl
          simp only [Elements.text, List.cons_append, List.append_assoc, List.nil_append, hws,
            hdoc _ _ _ hd, text_takeWs]
        · cases h
      · intro s r d h
        unfold readObject at h
        split at h
        · rename_i hclose
          cases h
          have hws : (takeWs s).1.1 ++ 125 :: (takeWs s).2.tail = s := text_takeWs_cons hclose rfl
          simp only [Doc.text, List.cons_append, List.append_assoc, List.nil_append, hws]
        · obtain ⟨⟨ms, t⟩, hms, heq⟩ := Option.map_eq_some_iff.mp h
          cases heq
          rw [Doc.text, List.cons_append, hmembers _ _ _ hms]
      · intro s r ms h
        unfold readMembers at h
        dsimp only at h
        split at h
        case isFalse => cases h
        rename_i hquote
        split at h
        · cases h
        rename_i key t hkey
        split at h
        case isFalse => cases h
        rename_i hcolon
        split at h
        · cases h
        rename_i d u hd
        have hkey' := text_readPieces hkey
        have hquote' : (takeWs s).1.1 ++ 34 :: (takeWs s).2.tail = s := text_takeWs_cons hquote rfl
        have hcolon' : (takeWs t).1.1 ++ 58 :: (takeWs t).2.tail = t := text_takeWs_cons hcolon rfl
        split at h
        · rename_i hcomma
          obtain ⟨⟨ms', v⟩, hms, heq⟩ := Option.map_eq_some_iff.mp h
          cases heq
          have hws : (takeWs u).1.1 ++ 44 :: (ms'.text ++ v) = u :=
            text_takeWs_cons hcomma (hmembers _ _ _ hms)
          simp only [Members.text, List.cons_append, List.append_assoc, hws, hdoc _ _ _ hd,
            text_takeWs, hcolon', hkey', hquote']
        split at h
        · rename_i hclose
          cases h
          have hws : (takeWs u).1.1 ++ 125 :: (takeWs u).2.tail = u := text_takeWs_cons hclose rfl
          simp only [Members.text, List.cons_append, List.append_assoc, List.nil_append, hws,
            hdoc _ _ _ hd, text_takeWs, hcolon', hkey', hquote']
        · cases h

theorem text_readDoc {fuel : Nat} {s r : Str} {d : Doc} (h : readDoc fuel s = some (d, r)) :
    d.text ++ r = s := (text_readDoc_all fuel).1 _ _ _ h

theorem text_readText {fuel : Nat} {s : Str} {t : Text} (h : readText fuel s = some t) :
    t.text = s := by
  unfold readText at h
  split at h
  · cases h
  · rename_i d r hd
    split at h
    · rename_i hend
      cases h
      have hafter := text_takeWs r
      rw [List.isEmpty_iff.mp hend, List.append_nil] at hafter
      show (takeWs s).1.1 ++ (d.text ++ (takeWs r).1.1) = s
      rw [hafter, text_readDoc hd, text_takeWs]
    · cases h

/-! ## The text of a tree is read -/

/-- What a value begins with. -/
def isValueStart (c : Code) : Bool :=
  c == 123 || c == 91 || c == 34 || c == 116 || c == 102 || c == 110 || c == 45 || isDigitCode c

theorem isWhitespace_of_isValueStart {c : Code} (h : isValueStart c = true) :
    isWhitespace c = false := by
  cases hc : isWhitespace c with
  | false => rfl
  | true =>
      simp only [isWhitespace, Bool.or_eq_true, decide_eq_true_eq] at hc
      rcases hc with ((rfl | rfl) | rfl) | rfl <;> exact absurd h (by decide)

theorem isNumberTail_of_isWhitespace {c : Code} (h : isWhitespace c = true) :
    isNumberTail c = false := by
  simp only [isWhitespace, Bool.or_eq_true, decide_eq_true_eq] at h
  rcases h with ((rfl | rfl) | rfl) | rfl <;> decide

/-- The end of a value: whitespace and a delimiter. -/
theorem stops_ws_cons {w : Ws} {c : Code} {r : Str} (hc : isNumberTail c = false) :
    Stops isNumberTail (w.1 ++ c :: r) :=
  (Stops.cons hc).append fun c hc => isNumberTail_of_isWhitespace (w.2 c hc)

theorem Number.text_eq_cons (n : Number) : ∃ c t, n.text = c :: t ∧ (c = 45 ∨ isDigitCode c) := by
  obtain ⟨negative, ⟨int, hint⟩, frac, exp⟩ := n
  cases negative with
  | true => exact ⟨45, _, rfl, .inl rfl⟩
  | false =>
      cases int with
      | nil => exact absurd rfl hint
      | cons d ds => exact ⟨digitCode d, _, rfl, .inr (isDigitCode_digitCode d)⟩

theorem Doc.text_eq_cons (d : Doc) : ∃ c t, d.text = c :: t ∧ isValueStart c = true := by
  cases d with
  | number n =>
      obtain ⟨c, t, htext, hc⟩ := n.text_eq_cons
      refine ⟨c, t, htext, ?_⟩
      rcases hc with rfl | hc
      · decide
      · simp [isValueStart, hc]
  | null => exact ⟨110, _, rfl, by decide⟩
  | boolean b =>
      cases b with
      | true => exact ⟨116, _, rfl, by decide⟩
      | false => exact ⟨102, _, rfl, by decide⟩
  | string ps => exact ⟨34, _, rfl, by decide⟩
  | emptyArray w => exact ⟨91, _, rfl, by decide⟩
  | array es => exact ⟨91, _, rfl, by decide⟩
  | emptyObject w => exact ⟨123, _, rfl, by decide⟩
  | object ms => exact ⟨123, _, rfl, by decide⟩

theorem Doc.stops_text (d : Doc) (r : Str) : Stops isWhitespace (d.text ++ r) := by
  obtain ⟨c, t, htext, hc⟩ := d.text_eq_cons
  rw [htext]
  exact .cons (isWhitespace_of_isValueStart hc)

theorem Doc.text_pos (d : Doc) : 0 < d.text.length := by
  obtain ⟨c, t, htext, -⟩ := d.text_eq_cons
  rw [htext]
  exact Nat.succ_pos _

theorem takeWs_doc {w : Ws} {d : Doc} {r : Str} :
    takeWs (w.1 ++ (d.text ++ r)) = (w, d.text ++ r) :=
  takeWs_append (d.stops_text r)

theorem takeWs_cons {w : Ws} {c : Code} {r : Str} (hc : isWhitespace c = false) :
    takeWs (w.1 ++ c :: r) = (w, c :: r) :=
  takeWs_append (.cons hc)

theorem head?_doc {d : Doc} {r : Str} {c : Code} (hc : isValueStart c = false) :
    (d.text ++ r).head? ≠ some c := by
  obtain ⟨x, t, htext, hx⟩ := d.text_eq_cons
  rw [htext]
  intro h
  cases h
  rw [hc] at hx
  cases hx

theorem head?_elements (es : Elements) (r : Str) :
    (takeWs (es.text ++ r)).2.head? ≠ some (ofChar ']') := by
  cases es with
  | last w d w' =>
      simp only [Elements.text, List.append_assoc, takeWs_doc]
      exact head?_doc (by decide)
  | more w d w' rest =>
      simp only [Elements.text, List.append_assoc, takeWs_doc]
      exact head?_doc (by decide)

theorem head?_members (ms : Members) (r : Str) :
    (takeWs (ms.text ++ r)).2.head? ≠ some (ofChar '\x7d') := by
  have hquote : isWhitespace 34 = false := by decide
  cases ms with
  | last w key w₁ w₂ d w' =>
      simp only [Members.text, List.append_assoc, List.cons_append, takeWs_cons hquote]
      exact fun h => absurd (Option.some.inj h) (by decide)
  | more w key w₁ w₂ d w' rest =>
      simp only [Members.text, List.append_assoc, List.cons_append, takeWs_cons hquote]
      exact fun h => absurd (Option.some.inj h) (by decide)

theorem readDoc_number {fuel : Nat} {n : Number} {r : Str} (h : Stops isNumberTail r) :
    readDoc (fuel + 1) (n.text ++ r) = some (.number n, r) := by
  obtain ⟨c, t, htext, hc⟩ := n.text_eq_cons
  have hne : ∀ x : Code, x ≠ 45 → isDigitCode x = false → c ≠ x := by
    rintro x h45 hx rfl
    rcases hc with rfl | hc
    · exact h45 rfl
    · rw [hx] at hc
      cases hc
  have hhead : (n.text ++ r).head? = some c := by
    rw [htext]
    rfl
  unfold readDoc
  rw [hhead]
  dsimp only
  rw [if_neg (hne _ (by decide) (by decide)), if_neg (hne _ (by decide) (by decide)),
    if_neg (hne _ (by decide) (by decide)), if_neg (hne _ (by decide) (by decide)),
    if_neg (hne _ (by decide) (by decide)), if_neg (hne _ (by decide) (by decide)),
    if_pos (by exact hc), readNumber_append h]
  rfl

mutual

theorem readDoc_text (d : Doc) {fuel : Nat} {r : Str} (hfuel : 3 * d.text.length ≤ fuel)
    (hr : Stops isNumberTail r) : readDoc fuel (d.text ++ r) = some (d, r) := by
  have hpos := d.text_pos
  obtain ⟨fuel, rfl⟩ : ∃ n, fuel = n + 1 := ⟨fuel - 1, by omega⟩
  cases d with
  | null => exact (congrArg (Option.map _) (expect_append (ofString "null") r) :)
  | boolean b =>
      cases b with
      | true => exact (congrArg (Option.map _) (expect_append (ofString "true") r) :)
      | false => exact (congrArg (Option.map _) (expect_append (ofString "false") r) :)
  | number n => exact readDoc_number hr
  | string ps =>
      have hps : readString (piecesText ps ++ 34 :: r) = some (ps, r) := readString_append
      simp only [Doc.text, List.cons_append, List.append_assoc, List.nil_append]
      exact (congrArg (Option.map _) hps :)
  | emptyArray w =>
      simp only [Doc.text, List.cons_append, List.append_assoc, List.nil_append,
        List.length_cons, List.length_append] at hfuel ⊢
      show readArray fuel (w.1 ++ 93 :: r) = _
      obtain ⟨fuel, rfl⟩ : ∃ n, fuel = n + 1 := ⟨fuel - 1, by omega⟩
      unfold readArray
      rw [takeWs_cons (by decide)]
      rfl
  | array es =>
      simp only [Doc.text, List.cons_append, List.length_cons] at hfuel ⊢
      show readArray fuel (es.text ++ r) = _
      obtain ⟨fuel, rfl⟩ : ∃ n, fuel = n + 1 := ⟨fuel - 1, by omega⟩
      unfold readArray
      rw [if_neg (head?_elements es r), readElements_text es (by omega)]
      rfl
  | emptyObject w =>
      simp only [Doc.text, List.cons_append, List.append_assoc, List.nil_append,
        List.length_cons, List.length_append] at hfuel ⊢
      show readObject fuel (w.1 ++ 125 :: r) = _
      obtain ⟨fuel, rfl⟩ : ∃ n, fuel = n + 1 := ⟨fuel - 1, by omega⟩
      unfold readObject
      rw [takeWs_cons (by decide)]
      rfl
  | object ms =>
      simp only [Doc.text, List.cons_append, List.length_cons] at hfuel ⊢
      show readObject fuel (ms.text ++ r) = _
      obtain ⟨fuel, rfl⟩ : ∃ n, fuel = n + 1 := ⟨fuel - 1, by omega⟩
      unfold readObject
      rw [if_neg (head?_members ms r), readMembers_text ms (by omega)]
      rfl

theorem readElements_text (es : Elements) {fuel : Nat} {r : Str}
    (hfuel : 3 * es.text.length + 1 ≤ fuel) :
    readElements fuel (es.text ++ r) = some (es, r) := by
  obtain ⟨fuel, rfl⟩ : ∃ n, fuel = n + 1 := ⟨fuel - 1, by omega⟩
  have hcomma : isWhitespace 44 = false := by decide
  have hcomma' : some (44 : Code) = some (ofChar ',') := by decide
  unfold readElements
  cases es with
  | last w d w' =>
      simp only [Elements.text, List.length_append, List.length_cons] at hfuel
      simp only [Elements.text, List.append_assoc, List.cons_append, List.nil_append, takeWs_doc]
      rw [readDoc_text d (by omega) (stops_ws_cons (by decide))]
      dsimp only
      rw [takeWs_cons (by decide)]
      rfl
  | more w d w' rest =>
      simp only [Elements.text, List.length_append, List.length_cons] at hfuel
      simp only [Elements.text, List.append_assoc, List.cons_append, takeWs_doc]
      rw [readDoc_text d (by omega) (stops_ws_cons (by decide))]
      simp only [takeWs_cons hcomma, List.head?_cons, List.tail_cons]
      rw [if_pos hcomma', readElements_text rest (by omega)]
      rfl

theorem readMembers_text (ms : Members) {fuel : Nat} {r : Str}
    (hfuel : 3 * ms.text.length + 1 ≤ fuel) :
    readMembers fuel (ms.text ++ r) = some (ms, r) := by
  obtain ⟨fuel, rfl⟩ : ∃ n, fuel = n + 1 := ⟨fuel - 1, by omega⟩
  have hquote : isWhitespace 34 = false := by decide
  have hcolon : isWhitespace 58 = false := by decide
  have hquote' : some (34 : Code) = some (ofChar '"') := by decide
  have hcolon' : some (58 : Code) = some (ofChar ':') := by decide
  have hcomma : isWhitespace 44 = false := by decide
  have hcomma' : some (44 : Code) = some (ofChar ',') := by decide
  unfold readMembers
  cases ms with
  | last w key w₁ w₂ d w' =>
      simp only [Members.text, List.length_append, List.length_cons] at hfuel
      simp only [Members.text, List.append_assoc, List.cons_append, List.nil_append,
        takeWs_cons hquote, List.head?_cons, List.tail_cons]
      rw [if_pos hquote', readString_append]
      simp only [takeWs_cons hcolon, takeWs_doc, List.head?_cons, List.tail_cons]
      rw [if_pos hcolon', readDoc_text d (by omega) (stops_ws_cons (by decide))]
      dsimp only
      rw [takeWs_cons (by decide)]
      rfl
  | more w key w₁ w₂ d w' rest =>
      simp only [Members.text, List.length_append, List.length_cons] at hfuel
      simp only [Members.text, List.append_assoc, List.cons_append,
        takeWs_cons hquote, List.head?_cons, List.tail_cons]
      rw [if_pos hquote', readString_append]
      simp only [takeWs_cons hcolon, takeWs_doc, List.head?_cons, List.tail_cons]
      rw [if_pos hcolon', readDoc_text d (by omega) (stops_ws_cons (by decide))]
      simp only [takeWs_cons hcomma, List.head?_cons, List.tail_cons]
      rw [if_pos hcomma', readMembers_text rest (by omega)]
      rfl

end

theorem stops_ws (w : Ws) : Stops isNumberTail w.1 := by
  have h := (Stops.nil (p := isNumberTail)).append
    fun c hc => isNumberTail_of_isWhitespace (w.2 c hc)
  rwa [List.append_nil] at h

theorem takeWs_ws (w : Ws) : takeWs w.1 = (w, []) := by
  have h := takeWs_append (w := w) .nil
  rwa [List.append_nil] at h

theorem readText_text (t : Text) {fuel : Nat} (hfuel : 3 * t.text.length ≤ fuel) :
    readText fuel t.text = some t := by
  obtain ⟨before, d, after⟩ := t
  simp only [Text.text, List.length_append] at hfuel
  simp only [readText, Text.text, takeWs_doc]
  rw [readDoc_text d (by omega) (stops_ws after)]
  dsimp only
  rw [takeWs_ws]
  rfl

/-- The grammar is unambiguous. -/
theorem Text.text_injective {t t' : Text} (h : t.text = t'.text) : t = t' := by
  have ht := readText_text t (Nat.le_refl _)
  have ht' := readText_text t' (Nat.le_refl _)
  rw [h] at ht
  rw [ht] at ht'
  exact Option.some.inj ht'

end ProtoST.Json

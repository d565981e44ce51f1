import ProtoST.Json.Reader

/-!
# What the parser accepts

The parser against the reader of the grammar: it answers what a tree denotes when the
reader finds a tree without `\u` escapes, and signals an error otherwise.  The fuel of a
call is bounded by the length of the text.

## Main results

* `parse_agrees` — the outcome of `parse:` from the tree that the reader finds.
* `parse_conforms_iff` — when the outcome is the one of the RFC.
-/

namespace ProtoST.Json

open ProtoST.Lib

/-- A signal stops the call. -/
def Signals {α : Type} (result : Except Stop α) : Prop := ∃ e, result = .error (.signal e)

/-- A call of the parser against the reader. -/
def Agrees {δ α : Type} (escaped : δ → Bool) (value : δ → α) (result : Parse α)
    (read : Option (δ × Str)) : Prop :=
  match read with
  | none => Signals result
  | some (d, r) =>
      if escaped d = true then Signals result else ∃ p, result = .ok (value d, ⟨r, p⟩)

theorem signals_signalError {α : Type} (s : Scanner) (m : Str) :
    Signals (s.signalError m : Except Stop α) := ⟨_, rfl⟩

section Leaves

variable {δ α : Type} {escaped : δ → Bool} {value : δ → α} {result : Parse α}

theorem Agrees.of_ok (value : δ → α) (d : δ) {r : Str} {p : Nat} (hd : escaped d = false) :
    Agrees escaped value (.ok (value d, ⟨r, p⟩)) (some (d, r)) := by
  simp only [Agrees, hd, Bool.false_eq_true, if_false]
  exact ⟨p, rfl⟩

theorem Agrees.of_escaped {d : δ} {r : Str} (hd : escaped d = true) (h : Signals result) :
    Agrees escaped value result (some (d, r)) := by
  simp only [Agrees, hd, if_true]
  exact h

theorem Agrees.ok {d : δ} {r : Str} (h : Agrees escaped value result (some (d, r)))
    (hd : escaped d = false) : ∃ p, result = .ok (value d, ⟨r, p⟩) := by
  simpa only [Agrees, hd, Bool.false_eq_true, if_false] using h

theorem Agrees.signals {d : δ} {r : Str} (h : Agrees escaped value result (some (d, r)))
    (hd : escaped d = true) : Signals result := by
  simpa only [Agrees, hd, if_true] using h

variable {read : Option (δ × Str)}

theorem Agrees.of_signals (h : Signals result)
    (hescaped : ∀ d r, read = some (d, r) → escaped d = true) :
    Agrees escaped value result read := by
  cases read with
  | none => exact h
  | some dr => exact .of_escaped (hescaped dr.1 dr.2 rfl) h

/-- The reader goes on to a larger tree. -/
theorem Agrees.map {δ' : Type} {escaped' : δ' → Bool} {value' : δ' → α}
    (h : Agrees escaped value result read) (f : δ → δ')
    (hescaped : ∀ d, escaped' (f d) = escaped d) (hvalue : ∀ d, value' (f d) = value d) :
    Agrees escaped' value' result (read.map fun dr => (f dr.1, dr.2)) := by
  cases read with
  | none => exact h
  | some dr =>
      simp only [Agrees, Option.map_some, hescaped, hvalue] at h ⊢
      exact h

theorem Agrees.congr {value' : δ → α}
    (h : Agrees escaped value result read)
    (hvalue : ∀ d, escaped d = false → value' d = value d) :
    Agrees escaped value' result read := by
  cases read with
  | none => exact h
  | some dr =>
      cases hd : escaped dr.1 with
      | true => exact .of_escaped hd (h.signals hd)
      | false =>
          obtain ⟨p, hp⟩ := h.ok hd
          rw [hp, ← hvalue dr.1 hd]
          exact .of_ok _ _ hd

/-- The parser goes on with what it was answered. -/
theorem Agrees.map_value {β : Type} {value' : δ → β}
    (h : Agrees escaped value result read) (f : α → β) (hvalue : ∀ d, value' d = f (value d)) :
    Agrees escaped value' (result.map fun vs => (f vs.1, vs.2)) read := by
  cases read with
  | none =>
      obtain ⟨e, he⟩ := h
      rw [he]
      exact ⟨e, rfl⟩
  | some dr =>
      cases hd : escaped dr.1 with
      | true =>
          obtain ⟨e, he⟩ := h.signals hd
          rw [he]
          exact .of_escaped hd ⟨e, rfl⟩
      | false =>
          obtain ⟨p, hp⟩ := h.ok hd
          rw [hp]
          have hok := Agrees.of_ok value' dr.1 (r := dr.2) (p := p) hd
          rwa [hvalue] at hok

/-- Nothing that is escaped. -/
def never : δ → Bool := fun _ => false

/-! ## Whitespace and digits -/

theorem skipFrom_rest (s : Str) (p : Nat) :
    (Scanner.skipFrom s p).rest = s.dropWhile isWhitespace := by
  induction s generalizing p with
  | nil => rfl
  | cons c s ih =>
      unfold Scanner.skipFrom
      split
      · rename_i hc
        rw [ih, List.dropWhile_cons_of_pos hc]
      · rename_i hc
        rw [List.dropWhile_cons_of_neg hc]

@[simp] theorem skipWhitespace_rest (s : Scanner) : s.skipWhitespace.rest = (takeWs s.rest).2 :=
  skipFrom_rest s.rest s.position

theorem skipFrom_of_stops {s : Str} {p : Nat} (h : Stops isWhitespace s) :
    Scanner.skipFrom s p = ⟨s, p⟩ := by
  cases s with
  | nil => rfl
  | cons c s => simp [Scanner.skipFrom, h.head]

theorem skipWhitespace_skipWhitespace (s : Scanner) :
    s.skipWhitespace.skipWhitespace = s.skipWhitespace := by
  refine skipFrom_of_stops ?_
  rw [skipWhitespace_rest]
  exact stops_takeWs s.rest

@[simp] theorem advance_rest (s : Scanner) : s.advance.rest = s.rest.tail := rfl

theorem advance_eq (s : Scanner) : s.advance = ⟨s.rest.tail, s.position + 1⟩ := rfl

theorem peek_eq (s : Scanner) : s.peek = s.rest.head? := rfl

theorem digitLoop_eq {σ : Type} (turn : σ → Nat → σ) (acc : σ) (s : Str) (p : Nat) :
    digitLoop turn acc s p =
      ((takeDigits s).1.foldl (fun acc d => turn acc d.val) acc,
        ⟨(takeDigits s).2, p + (takeDigits s).1.length⟩) := by
  induction s generalizing acc p with
  | nil => rfl
  | cons c s ih =>
      unfold digitLoop takeDigits
      split
      · rename_i hc
        rw [ih]
        simp only [List.foldl_cons, List.length_cons]
        rw [Nat.add_assoc, Nat.add_comm 1]
      · rfl

theorem foldl_count (ds : List (Fin 10)) (v n : Nat) :
    ds.foldl (fun (acc : Nat × Nat) d => (acc.1 * 10 + d.val, acc.2 + 1)) (v, n) =
      (ds.foldl (fun v d => v * 10 + d.val) v, n + ds.length) := by
  induction ds generalizing v n with
  | nil => rfl
  | cons d ds ih =>
      rw [List.foldl_cons, List.foldl_cons, ih, List.length_cons, Nat.add_assoc, Nat.add_comm 1]

theorem foldl_scale (ds : List (Fin 10)) (v n : Nat) :
    ds.foldl (fun (acc : Nat × Nat) d => (acc.1 * 10 + d.val, acc.2 * 10)) (v, n) =
      (ds.foldl (fun v d => v * 10 + d.val) v, n * 10 ^ ds.length) := by
  induction ds generalizing v n with
  | nil => simp
  | cons d ds ih =>
      rw [List.foldl_cons, List.foldl_cons, ih, List.length_cons, Nat.pow_succ, Nat.mul_assoc,
        Nat.mul_comm 10]

theorem readDigits_agrees (s : Scanner) :
    Agrees never (fun ds : Digits => digitsValue ds.1) (readDigits s true)
      (takeDigits1 s.rest) := by
  unfold readDigits takeDigits1
  simp only [digitLoop_eq]
  rw [foldl_count]
  by_cases hds : (takeDigits s.rest).1 = []
  · rw [dif_neg (not_not.mpr hds), hds]
    exact signals_signalError _ _
  · have hlen : ((takeDigits s.rest).1.length == 0) = false := by simpa using hds
    rw [dif_pos hds]
    simp only [Nat.zero_add, hlen, Bool.and_false, Bool.false_eq_true, if_false]
    exact Agrees.of_ok (fun ds : Digits => digitsValue ds.1) ⟨(takeDigits s.rest).1, hds⟩ rfl

end Leaves

/-! ## Numbers -/

theorem readFraction_agrees (s : Scanner) :
    Agrees never (Option.map fun ds : Digits => (digitsValue ds.1, 10 ^ ds.1.length))
      (readFraction s) (takeFrac s.rest) := by
  unfold readFraction takeFrac
  by_cases hpoint : s.rest.head? = some 46
  · have hpeek : s.peek = some (ofChar '.') := hpoint
    rw [if_pos hpeek, if_pos hpoint]
    simp only [digitLoop_eq]
    rw [foldl_scale]
    unfold takeDigits1
    by_cases hds : (takeDigits s.rest.tail).1 = []
    · rw [dif_neg (not_not.mpr hds), advance_rest, hds]
      exact signals_signalError _ _
    · have hlen : ¬ 10 ^ (takeDigits s.rest.tail).1.length = 1 := by
        simpa using hds
      rw [dif_pos hds, advance_rest]
      simp only [Nat.one_mul, hlen, if_false]
      exact Agrees.of_ok
        (Option.map fun ds : Digits => (digitsValue ds.1, 10 ^ ds.1.length))
        (some ⟨(takeDigits s.rest.tail).1, hds⟩) rfl
  · have hpeek : s.peek ≠ some (ofChar '.') := hpoint
    rw [if_neg hpeek, if_neg hpoint]
    exact Agrees.of_ok _ none rfl

/-- The scanner after the signs of an exponent, and whether it is negative. -/
theorem sign_eq (s : Scanner) :
    let t := if s.peek = some (ofChar '+') then s.advance else s
    let u := if t.peek = some (ofChar '-') then t.advance else t
    u.rest = (takeSign s.rest).2 ∧
      decide (t.peek = some (ofChar '-')) = (takeSign s.rest).1.negative := by
  have hplus : (s.peek = some (ofChar '+')) = (s.rest.head? = some 43) := rfl
  have hminus : ∀ t : Scanner, (t.peek = some (ofChar '-')) = (t.rest.head? = some 45) :=
    fun _ => rfl
  simp only [hplus, hminus]
  unfold takeSign
  by_cases h43 : s.rest.head? = some 43
  · by_cases h45 : s.rest.tail.head? = some 45
    · simp only [h43, if_true, advance_rest, h45, decide_true]
      exact ⟨trivial, rfl⟩
    · simp only [h43, if_true, advance_rest, h45, decide_true, if_false, decide_false,
        Bool.false_eq_true]
      exact ⟨trivial, rfl⟩
  · have hne : ¬ some (45 : Code) = some 43 := by decide
    by_cases h45 : s.rest.head? = some 45
    · simp only [h45, hne, if_false, if_true, decide_true, decide_false, Bool.false_eq_true,
        advance_rest]
      exact ⟨trivial, rfl⟩
    · simp only [h43, if_false, h45, decide_false, Bool.false_eq_true]
      exact ⟨trivial, rfl⟩

theorem readExponent_agrees (s : Scanner) :
    Agrees never (Option.map fun e : Exponent => (e.sign.negative, digitsValue e.digits.1))
      (readExponent s) (takeExp s.rest) := by
  unfold readExponent takeExp
  by_cases hmark : s.rest.head? = some 101 ∨ s.rest.head? = some 69
  · have hpeek : s.peek = some (ofChar 'e') ∨ s.peek = some (ofChar 'E') := hmark
    rw [if_pos hpeek, if_pos hmark]
    obtain ⟨hrest, hneg⟩ := sign_eq s.advance
    rw [advance_rest] at hrest hneg
    dsimp only
    generalize hu : (if (if s.advance.peek = some (ofChar '+') then s.advance.advance
      else s.advance).peek = some (ofChar '-') then _ else _) = u at hrest ⊢
    have hdigits := readDigits_agrees u
    rw [hrest] at hdigits
    rw [hneg]
    cases hread : takeDigits1 (takeSign s.rest.tail).2 with
    | none =>
        rw [hread] at hdigits
        obtain ⟨e, he⟩ := hdigits
        rw [he]
        exact ⟨e, rfl⟩
    | some dr =>
        obtain ⟨ds, r⟩ := dr
        rw [hread] at hdigits
        obtain ⟨p, hp⟩ := hdigits.ok rfl
        rw [hp]
        exact Agrees.of_ok
          (Option.map fun e : Exponent => (e.sign.negative, digitsValue e.digits.1))
          (some ⟨_, (takeSign s.rest.tail).1, ds⟩) rfl
  · have hpeek : ¬ (s.peek = some (ofChar 'e') ∨ s.peek = some (ofChar 'E')) := hmark
    rw [if_neg hpeek, if_neg hmark]
    exact Agrees.of_ok _ none rfl

theorem parseNumber_agrees {F : Type} [FloatOps F] (s : Scanner) :
    Agrees never (Number.value (F := F)) (parseNumber s) (readNumber s.rest) := by
  have hminus : (s.peek = some (ofChar '-')) = (s.rest.head? = some 45) := rfl
  unfold parseNumber readNumber
  simp only [hminus]
  generalize hneg : decide (s.rest.head? = some 45) = negative
  generalize ht : (if negative = true then s.advance else s) = t
  have hrest : (if negative = true then s.rest.tail else s.rest) = t.rest := by
    rw [← ht]
    split <;> rfl
  rw [hrest]
  have hint := readDigits_agrees t
  cases hint' : takeDigits1 t.rest with
  | none =>
      rw [hint'] at hint
      obtain ⟨e, he⟩ := hint
      rw [he]
      exact ⟨e, rfl⟩
  | some ir =>
      obtain ⟨int, r⟩ := ir
      rw [hint'] at hint
      obtain ⟨p, hp⟩ := hint.ok rfl
      rw [hp]
      dsimp only [Option.bind_some]
      have hfrac := readFraction_agrees ⟨r, p⟩
      dsimp only at hfrac
      cases hfrac' : takeFrac r with
      | none =>
          rw [hfrac'] at hfrac
          obtain ⟨e, he⟩ := hfrac
          rw [he]
          exact ⟨e, rfl⟩
      | some fr =>
          obtain ⟨frac, r⟩ := fr
          rw [hfrac'] at hfrac
          obtain ⟨p, hp⟩ := hfrac.ok rfl
          rw [hp]
          dsimp only [Option.bind_some]
          have hexp := readExponent_agrees ⟨r, p⟩
          dsimp only at hexp
          cases hexp' : takeExp r with
          | none =>
              rw [hexp'] at hexp
              obtain ⟨e, he⟩ := hexp
              rw [he]
              exact ⟨e, rfl⟩
          | some er =>
              obtain ⟨exp, r⟩ := er
              rw [hexp'] at hexp
              obtain ⟨p, hp⟩ := hexp.ok rfl
              rw [hp]
              exact Agrees.of_ok Number.value ⟨negative, int, frac, exp⟩ rfl

/-! ## Strings -/

theorem signals_unicodeLoop (n code : Nat) (s : Scanner) :
    Signals (unicodeLoop (n + 1) code s) := by
  unfold unicodeLoop
  split
  · exact signals_signalError _ _
  · exact ⟨_, rfl⟩

/-- The digits of a `\u` escape are never read. -/
theorem signals_parseUnicodeEscape (s : Scanner) : Signals (parseUnicodeEscape s) := by
  obtain ⟨e, he⟩ := signals_unicodeLoop 3 0 s
  unfold parseUnicodeEscape
  rw [he]
  exact ⟨e, rfl⟩

theorem escaped_of_takeUnicode {s r : Str} {p : Piece} (h : takeUnicode s = some (p, r)) :
    p.escaped = true := by
  unfold takeUnicode at h
  split at h
  · obtain ⟨a', -, h⟩ := Option.bind_eq_some_iff.mp h
    obtain ⟨b', -, h⟩ := Option.bind_eq_some_iff.mp h
    obtain ⟨c', -, h⟩ := Option.bind_eq_some_iff.mp h
    obtain ⟨d', -, heq⟩ := Option.map_eq_some_iff.mp h
    cases heq
    rfl
  · cases h

theorem signals_parseEscape {e : Code} {rest : Str} {position : Nat}
    (h : Escape.ofLetter? e = none) : Signals (parseEscape ⟨e :: rest, position⟩) := by
  have hne : ∀ x : Escape, ¬ e = x.letter := by
    rintro x rfl
    rw [Escape.ofLetter?_letter] at h
    cases h
  unfold parseEscape
  dsimp only
  rw [if_neg (show ¬ e = ofChar '"' from hne .quote),
    if_neg (show ¬ e = ofChar '\\' from hne .backslash),
    if_neg (show ¬ e = ofChar '/' from hne .slash),
    if_neg (show ¬ e = ofChar 'n' from hne .lineFeed),
    if_neg (show ¬ e = ofChar 't' from hne .tab),
    if_neg (show ¬ e = ofChar 'r' from hne .carriageReturn),
    if_neg (show ¬ e = ofChar 'b' from hne .backspace),
    if_neg (show ¬ e = ofChar 'f' from hne .formFeed)]
  split
  · exact signals_parseUnicodeEscape _
  · exact signals_signalError _ _

theorem parseEscape_agrees (s : Scanner) :
    Agrees Piece.escaped (fun p => [p.unit]) (parseEscape s) (takeEscape s.rest) := by
  obtain ⟨rest, position⟩ := s
  cases rest with
  | nil => exact signals_signalError _ _
  | cons e rest =>
      simp only [takeEscape]
      cases hletter : Escape.ofLetter? e with
      | some x =>
          have he := Escape.letter_of_ofLetter? hletter
          subst he
          cases x <;> exact ⟨_, rfl⟩
      | none =>
          have hsignals : Signals (parseEscape ⟨e :: rest, position⟩) :=
            signals_parseEscape hletter
          dsimp only
          split
          · cases hunicode : takeUnicode rest with
            | none => exact hsignals
            | some pr => exact .of_escaped (escaped_of_takeUnicode hunicode) hsignals
          · exact hsignals

theorem decode_of_not_escaped {ps : List Piece} (h : piecesEscaped ps = false) :
    decode ps = ps.map Piece.unit := by
  induction ps with
  | nil => rfl
  | cons p ps ih =>
      simp only [piecesEscaped, List.any_cons, Bool.or_eq_false_iff] at h
      cases ps with
      | nil => rfl
      | cons q rest =>
          have hpair : surrogates p q = false := by simp [surrogates, h.1]
          simp only [decode, hpair, Bool.false_eq_true, if_false, List.map_cons]
          rw [ih h.2]
          rfl

theorem asString_of_le {c : Code} (h : 32 ≤ c.val) : asString c = [c] := by
  have hne : c ≠ 0 := by
    rintro rfl
    revert h
    decide
  rw [asString, if_neg hne]

theorem stringLoop_agrees {fuel : Nat} {result : Str} {s : Scanner}
    (hfuel : s.rest.length < fuel) :
    Agrees piecesEscaped (fun ps => result ++ ps.map Piece.unit) (stringLoop fuel result s)
      (readPieces fuel s.rest) := by
  induction fuel generalizing result s with
  | zero => cases hfuel
  | succ fuel ih =>
      obtain ⟨rest, position⟩ := s
      cases rest with
      | nil => exact signals_signalError _ _
      | cons c rest =>
          unfold stringLoop readPieces
          dsimp only
          by_cases hquote : c = 34
          · rw [if_pos (show c = ofChar '"' from hquote), if_pos hquote]
            have hok : Agrees piecesEscaped (fun ps => result ++ ps.map Piece.unit)
                (.ok (result ++ List.map Piece.unit [], ⟨rest, position + 1⟩))
                (some ([], rest)) :=
              .of_ok _ _ rfl
            rwa [List.map_nil, List.append_nil] at hok
          rw [if_neg (show ¬ c = ofChar '"' from hquote), if_neg hquote]
          by_cases hbackslash : c = 92
          · rw [if_pos (show c = ofChar '\\' from hbackslash), if_pos hbackslash]
            have hescape := parseEscape_agrees (Scanner.advance ⟨c :: rest, position⟩)
            rw [show (Scanner.advance ⟨c :: rest, position⟩).rest = rest from rfl] at hescape
            cases htake : takeEscape rest with
            | none =>
                rw [htake] at hescape
                obtain ⟨e, he⟩ := hescape
                rw [he]
                exact ⟨e, rfl⟩
            | some pr =>
                obtain ⟨p, r⟩ := pr
                rw [htake] at hescape
                rw [Option.bind_some]
                cases hp : p.escaped with
                | true =>
                    obtain ⟨e, he⟩ := hescape.signals hp
                    rw [he]
                    refine .of_signals ⟨e, rfl⟩ fun ps t h => ?_
                    obtain ⟨qs, -, heq⟩ := Option.map_eq_some_iff.mp h
                    cases heq
                    simp [piecesEscaped, hp]
                | false =>
                    obtain ⟨q, hq⟩ := hescape.ok hp
                    rw [hq]
                    have hlen := congrArg List.length (text_takeEscape htake)
                    have hpos : 0 < p.text.length := by cases p <;> exact Nat.succ_pos _
                    simp only [List.length_append, List.length_cons] at hlen hfuel
                    refine (ih (s := ⟨r, q⟩) (by show r.length < fuel; omega)).map (p :: ·)
                      (fun ps => by simp [piecesEscaped, hp]) (fun ps => by simp)
          rw [if_neg (show ¬ c = ofChar '\\' from hbackslash), if_neg hbackslash]
          by_cases hcontrol : c.val < 32
          · have hplain : ¬ isUnescaped c = true := by simp [isUnescaped, hcontrol]
            rw [if_pos hcontrol, dif_neg hplain]
            exact signals_signalError _ _
          · have hplain : isUnescaped c = true := by
              simp only [isUnescaped, Bool.and_eq_true, decide_eq_true_eq, bne_iff_ne]
              exact ⟨⟨by omega, hquote⟩, hbackslash⟩
            rw [if_neg hcontrol, dif_pos hplain, asString_of_le (by omega)]
            simp only [List.length_cons] at hfuel
            exact (ih (s := ⟨rest, position + 1⟩) (by show rest.length < fuel; omega)).map
              (Piece.plain c hplain :: ·) (fun ps => by simp [piecesEscaped, Piece.escaped])
              (fun ps => by simp [Piece.unit])

theorem parseString_agrees (s : Scanner) :
    Agrees piecesEscaped decode (parseString s) (readString s.rest.tail) := by
  have h : Agrees piecesEscaped (fun ps => [] ++ ps.map Piece.unit)
      (stringLoop (s.advance.rest.length + 1) [] s.advance)
      (readPieces (s.advance.rest.length + 1) s.advance.rest) :=
    stringLoop_agrees (Nat.lt_succ_self _)
  exact h.congr fun ps hps => by rw [decode_of_not_escaped hps, List.nil_append]

/-! ## Values -/

section Values

variable (F : Type) [FloatOps F]

/-- With enough fuel `parseValue:` agrees with the reader. -/
def ValueAgrees (fuel : Nat) : Prop :=
  ∀ s : Scanner, 3 * s.rest.length + 1 ≤ fuel →
    Agrees Doc.escaped (Doc.value (F := F)) (parseValue fuel s) (readDoc fuel s.rest)

def ArrayAgrees (fuel : Nat) : Prop :=
  ∀ s : Scanner, 3 * s.rest.tail.length + 3 ≤ fuel →
    Agrees Doc.escaped (Doc.value (F := F)) (parseArray fuel s) (readArray fuel s.rest.tail)

def ElementsAgree (fuel : Nat) : Prop :=
  ∀ (items : List (Value F)) (s : Scanner), 3 * s.rest.length + 2 ≤ fuel →
    Agrees Elements.escaped (fun es => .array (items ++ es.values)) (arrayLoop fuel items s)
      (readElements fuel s.rest)

def ObjectAgrees (fuel : Nat) : Prop :=
  ∀ s : Scanner, 3 * s.rest.tail.length + 3 ≤ fuel →
    Agrees Doc.escaped (Doc.value (F := F)) (parseObject fuel s) (readObject fuel s.rest.tail)

def MembersAgree (fuel : Nat) : Prop :=
  ∀ (dict : List (Str × Value F)) (s : Scanner), 3 * s.rest.length + 2 ≤ fuel →
    Agrees Members.escaped
      (fun ms => .dictionary (ms.entries.foldl (fun dict e => put dict e.1 e.2) dict))
      (objectLoop fuel dict s) (readMembers fuel s.rest)

variable {F}

theorem arrayLoop_skipWhitespace (fuel : Nat) (items : List (Value F)) (s : Scanner) :
    arrayLoop fuel items s.skipWhitespace = arrayLoop fuel items s := by
  cases fuel with
  | zero => rfl
  | succ fuel =>
      unfold arrayLoop
      rw [skipWhitespace_skipWhitespace]

theorem objectLoop_skipWhitespace (fuel : Nat) (dict : List (Str × Value F)) (s : Scanner) :
    objectLoop fuel dict s.skipWhitespace = objectLoop fuel dict s := by
  cases fuel with
  | zero => rfl
  | succ fuel =>
      unfold objectLoop
      rw [skipWhitespace_skipWhitespace]

variable {fuel : Nat}

theorem peek_rest (s : Scanner) (c : Char) :
    (s.advance.skipWhitespace.peek = some (ofChar c)) =
      ((takeWs s.rest.tail).2.head? = some (ofChar c)) := by
  rw [peek_eq, skipWhitespace_rest, advance_rest]

theorem ArrayAgrees.step (h : ElementsAgree F fuel) : ArrayAgrees F (fuel + 1) := by
  intro s hfuel
  unfold parseArray readArray
  dsimp only
  simp only [peek_rest]
  split
  · rw [advance_eq s.advance.skipWhitespace, skipWhitespace_rest, advance_rest]
    exact Agrees.of_ok Doc.value (.emptyArray (takeWs s.rest.tail).1) rfl
  · rw [arrayLoop_skipWhitespace]
    exact (h [] s.advance (by show 3 * s.rest.tail.length + 2 ≤ fuel; omega)).map Doc.array
      (fun _ => rfl) (fun _ => rfl)

theorem ObjectAgrees.step (h : MembersAgree F fuel) : ObjectAgrees F (fuel + 1) := by
  intro s hfuel
  unfold parseObject readObject
  dsimp only
  simp only [peek_rest]
  split
  · rw [advance_eq s.advance.skipWhitespace, skipWhitespace_rest, advance_rest]
    exact Agrees.of_ok Doc.value (.emptyObject (takeWs s.rest.tail).1) rfl
  · rw [objectLoop_skipWhitespace]
    exact (h [] s.advance (by show 3 * s.rest.tail.length + 2 ≤ fuel; omega)).map Doc.object
      (fun _ => rfl) (fun _ => rfl)

theorem expectLoop_agrees (lit word : Str) (s : Scanner) :
    match expect word s.rest with
    | none => Signals (Scanner.expectLoop lit word s)
    | some r => ∃ p, Scanner.expectLoop lit word s = .ok ⟨r, p⟩ := by
  induction word generalizing s with
  | nil => exact ⟨s.position, rfl⟩
  | cons x word ih =>
      obtain ⟨rest, position⟩ := s
      cases rest with
      | nil => exact signals_signalError _ _
      | cons c rest =>
          unfold expect Scanner.expectLoop
          dsimp only
          by_cases hc : c = x
          · rw [if_pos hc, if_pos hc]
            exact ih ⟨rest, position + 1⟩
          · rw [if_neg hc, if_neg hc]
            exact signals_signalError _ _

theorem literal_agrees (lit : Str) (v : Value F) (d : Doc) (hd : d.escaped = false)
    (hv : d.value = v) (s : Scanner) :
    Agrees Doc.escaped Doc.value ((s.expectLiteral lit).map fun s => (v, s))
      ((expect lit s.rest).map fun r => (d, r)) := by
  have h := expectLoop_agrees lit lit s
  unfold Scanner.expectLiteral
  cases hread : expect lit s.rest with
  | none =>
      rw [hread] at h
      obtain ⟨e, he⟩ := h
      rw [he]
      exact ⟨e, rfl⟩
  | some r =>
      rw [hread] at h
      obtain ⟨p, hp⟩ := h
      rw [hp, ← hv]
      exact .of_ok _ _ hd

theorem ValueAgrees.step (harray : ArrayAgrees F fuel)
    (hobject : ObjectAgrees F fuel) :
    ValueAgrees F (fuel + 1) := by
  intro s hfuel
  unfold parseValue readDoc
  rw [peek_eq]
  cases hhead : s.rest.head? with
  | none => exact signals_signalError _ _
  | some c =>
      have hlen := congrArg List.length (cons_tail hhead)
      rw [List.length_cons] at hlen
      dsimp only
      split
      · exact hobject s (by omega)
      split
      · exact harray s (by omega)
      split
      · exact ((parseString_agrees s).map_value Value.string fun _ => rfl).map Doc.string
          (fun _ => rfl) (fun _ => rfl)
      split
      · exact literal_agrees _ _ (.boolean true) rfl rfl s
      split
      · exact literal_agrees _ _ (.boolean false) rfl rfl s
      split
      · exact literal_agrees _ _ .null rfl rfl s
      split
      · exact (parseNumber_agrees s).map Doc.number (fun _ => rfl) (fun _ => rfl)
      · exact signals_signalError _ _

theorem length_readDoc {s r : Str} {d : Doc} (h : readDoc fuel s = some (d, r)) :
    r.length < s.length := by
  have hlen := congrArg List.length (text_readDoc h)
  have hpos := d.text_pos
  rw [List.length_append] at hlen
  omega

theorem ElementsAgree.step (hvalue : ValueAgrees F fuel)
    (h : ElementsAgree F fuel) : ElementsAgree F (fuel + 1) := by
  intro items s hfuel
  unfold arrayLoop readElements
  have hle := length_takeWs_le s.rest
  have hdoc := hvalue s.skipWhitespace (by rw [skipWhitespace_rest]; omega)
  rw [skipWhitespace_rest] at hdoc
  dsimp only
  cases hread : readDoc fuel (takeWs s.rest).2 with
  | none =>
      rw [hread] at hdoc
      obtain ⟨e, he⟩ := hdoc
      rw [he]
      exact ⟨e, rfl⟩
  | some dr =>
      obtain ⟨d, r⟩ := dr
      rw [hread] at hdoc
      have hlt := length_readDoc hread
      have hle' := length_takeWs_le r
      dsimp only
      cases hd : d.escaped with
      | true =>
          obtain ⟨e, he⟩ := hdoc.signals hd
          rw [he]
          refine .of_signals ⟨e, rfl⟩ fun es t ht => ?_
          split at ht
          · obtain ⟨es', -, heq⟩ := Option.map_eq_some_iff.mp ht
            cases heq
            simp [Elements.escaped, hd]
          split at ht
          · cases ht
            exact hd
          · cases ht
      | false =>
          obtain ⟨p, hp⟩ := hdoc.ok hd
          rw [hp]
          dsimp only
          generalize hu : Scanner.skipWhitespace ⟨r, p⟩ = u
          have hrest : u.rest = (takeWs r).2 := by rw [← hu, skipWhitespace_rest]
          rw [peek_eq, hrest]
          split
          · rename_i hcomma
            have hlen := congrArg List.length (cons_tail hcomma)
            rw [List.length_cons] at hlen
            have hrec := h (items ++ [d.value]) u.advance (by rw [advance_rest, hrest]; omega)
            rw [advance_rest, hrest] at hrec
            exact hrec.map (Elements.more (takeWs s.rest).1 d (takeWs r).1)
              (fun es => by simp [Elements.escaped, hd]) (fun es => by simp [Elements.values])
          split
          · rw [advance_eq, hrest]
            exact Agrees.of_ok (fun es : Elements => Value.array (items ++ es.values))
              (.last (takeWs s.rest).1 d (takeWs r).1) hd
          · exact signals_signalError _ _

theorem escaped_of_readMembers {s t r : Str} {key : List Piece} {ms : Members}
    (hkey : readString (takeWs s).2.tail = some (key, t))
    (h : readMembers (fuel + 1) s = some (ms, r))
    (hescaped : piecesEscaped key = true ∨
      ∀ d u, readDoc fuel (takeWs (takeWs t).2.tail).2 = some (d, u) → d.escaped = true) :
    ms.escaped = true := by
  have hor : ∀ d u, readDoc fuel (takeWs (takeWs t).2.tail).2 = some (d, u) →
      (piecesEscaped key || d.escaped) = true := by
    intro d u hd
    rw [Bool.or_eq_true]
    exact hescaped.imp_right fun h => h d u hd
  unfold readMembers at h
  simp only [hkey] at h
  split at h
  case isFalse => cases h
  split at h
  case isFalse => cases h
  split at h
  · cases h
  rename_i d u hd
  have hmember := hor d u hd
  split at h
  · obtain ⟨ms', -, heq⟩ := Option.map_eq_some_iff.mp h
    cases heq
    simp only [Members.escaped, hmember, Bool.true_or]
  split at h
  · cases h
    exact hmember
  · cases h

theorem MembersAgree.step (hvalue : ValueAgrees F fuel)
    (h : MembersAgree F fuel) : MembersAgree F (fuel + 1) := by
  intro dict s hfuel
  have hle := length_takeWs_le s.rest
  unfold objectLoop
  generalize hs' : s.skipWhitespace = s'
  have hrest' : s'.rest = (takeWs s.rest).2 := by rw [← hs', skipWhitespace_rest]
  dsimp only
  rw [peek_eq, hrest']
  by_cases hquote : (takeWs s.rest).2.head? = some (ofChar '"')
  · rw [if_pos hquote]
    have hqlen := congrArg List.length (cons_tail hquote)
    rw [List.length_cons] at hqlen
    have hkey := parseString_agrees s'
    rw [hrest'] at hkey
    cases hkread : readString (takeWs s.rest).2.tail with
    | none =>
        rw [hkread] at hkey
        obtain ⟨e, he⟩ := hkey
        unfold readMembers
        simp only [he, if_pos hquote, hkread]
        exact ⟨e, rfl⟩
    | some kr =>
        obtain ⟨key, t⟩ := kr
        rw [hkread] at hkey
        cases hk : piecesEscaped key with
        | true =>
            obtain ⟨e, he⟩ := hkey.signals hk
            rw [he]
            exact .of_signals ⟨e, rfl⟩ fun ms r hms =>
              escaped_of_readMembers hkread hms (.inl hk)
        | false =>
            obtain ⟨p, hp⟩ := hkey.ok hk
            rw [hp]
            have hklen := congrArg List.length (text_readPieces hkread)
            simp only [List.length_append, List.length_cons] at hklen
            have htle := length_takeWs_le t
            dsimp only
            generalize ht' : Scanner.skipWhitespace ⟨t, p⟩ = t'
            have htrest : t'.rest = (takeWs t).2 := by rw [← ht', skipWhitespace_rest]
            rw [peek_eq, htrest]
            by_cases hcolon : (takeWs t).2.head? = some (ofChar ':')
            · rw [if_pos hcolon]
              have hclen := congrArg List.length (cons_tail hcolon)
              rw [List.length_cons] at hclen
              have hvle := length_takeWs_le (takeWs t).2.tail
              have hdoc := hvalue t'.advance.skipWhitespace
                (by rw [skipWhitespace_rest, advance_rest, htrest]; omega)
              rw [skipWhitespace_rest, advance_rest, htrest] at hdoc
              cases hread : readDoc fuel (takeWs (takeWs t).2.tail).2 with
              | none =>
                  rw [hread] at hdoc
                  obtain ⟨e, he⟩ := hdoc
                  rw [he]
                  exact .of_signals ⟨e, rfl⟩ fun ms r hms =>
                    escaped_of_readMembers hkread hms (.inr fun d u hd => by
                      rw [hread] at hd
                      cases hd)
              | some dr =>
                  obtain ⟨d, r⟩ := dr
                  rw [hread] at hdoc
                  cases hd : d.escaped with
                  | true =>
                      obtain ⟨e, he⟩ := hdoc.signals hd
                      rw [he]
                      exact .of_signals ⟨e, rfl⟩ fun ms r hms =>
                        escaped_of_readMembers hkread hms (.inr fun d' u hd' => by
                          rw [hread] at hd'
                          cases hd'
                          exact hd)
                  | false =>
                      obtain ⟨q, hq⟩ := hdoc.ok hd
                      rw [hq]
                      have hlt := length_readDoc hread
                      have hrle := length_takeWs_le r
                      dsimp only
                      generalize hu : Scanner.skipWhitespace ⟨r, q⟩ = u
                      have hurest : u.rest = (takeWs r).2 := by rw [← hu, skipWhitespace_rest]
                      unfold readMembers
                      simp only [if_pos hquote, hkread, if_pos hcolon, hread]
                      rw [peek_eq, hurest]
                      split
                      · rename_i hcomma
                        have hlen := congrArg List.length (cons_tail hcomma)
                        rw [List.length_cons] at hlen
                        have hrec := h (put dict (decode key) d.value) u.advance
                          (by rw [advance_rest, hurest]; omega)
                        rw [advance_rest, hurest] at hrec
                        exact hrec.map (Members.more (takeWs s.rest).1 key (takeWs t).1
                          (takeWs (takeWs t).2.tail).1 d (takeWs r).1)
                          (fun ms => by simp [Members.escaped, hk, hd])
                          (fun ms => by simp [Members.entries])
                      split
                      · rw [advance_eq, hurest]
                        have hlast : Members.escaped (.last (takeWs s.rest).1 key (takeWs t).1
                            (takeWs (takeWs t).2.tail).1 d (takeWs r).1) = false := by
                          simp [Members.escaped, hk, hd]
                        exact Agrees.of_ok
                          (fun ms : Members => Value.dictionary
                            (ms.entries.foldl (fun dict e => put dict e.1 e.2) dict)) _ hlast
                      · exact signals_signalError _ _
            · rw [if_neg hcolon]
              unfold readMembers
              simp only [if_pos hquote, hkread, if_neg hcolon]
              exact signals_signalError _ _
  · rw [if_neg hquote]
    unfold readMembers
    simp only [if_neg hquote]
    exact signals_signalError _ _

theorem agrees_all (fuel : Nat) : ValueAgrees F fuel ∧ ArrayAgrees F fuel ∧
    ElementsAgree F fuel ∧ ObjectAgrees F fuel ∧ MembersAgree F fuel := by
  induction fuel with
  | zero =>
      exact ⟨fun s h => by omega, fun s h => by omega, fun _ s h => by omega,
        fun s h => by omega, fun _ s h => by omega⟩
  | succ fuel ih =>
      obtain ⟨hvalue, harray, helements, hobject, hmembers⟩ := ih
      exact ⟨.step harray hobject, .step helements, .step hvalue helements, .step hmembers,
        .step hvalue hmembers⟩

/-! ## Texts -/

/-- The outcome of `parse:` from the tree that the reader finds. -/
theorem parse_agrees {s : Str} (hfuel : 3 * s.length + 1 ≤ fuel) :
    match readText fuel s with
    | none => Signals (parse (F := F) fuel s)
    | some t => if t.escaped = true then Signals (parse (F := F) fuel s)
        else parse (F := F) fuel s = .ok t.value := by
  have hle := length_takeWs_le s
  have hrest : (Scanner.on s).skipWhitespace.rest = (takeWs s).2 := skipWhitespace_rest _
  have hdoc := (agrees_all (F := F) fuel).1 (Scanner.on s).skipWhitespace
    (by rw [hrest]; omega)
  rw [hrest] at hdoc
  unfold parse readText
  cases hread : readDoc fuel (takeWs s).2 with
  | none =>
      rw [hread] at hdoc
      obtain ⟨e, he⟩ := hdoc
      rw [he]
      exact ⟨e, rfl⟩
  | some dr =>
      obtain ⟨d, r⟩ := dr
      rw [hread] at hdoc
      dsimp only
      cases hd : d.escaped with
      | true =>
          obtain ⟨e, he⟩ := hdoc.signals hd
          rw [he]
          cases hend : (takeWs r).2.isEmpty with
          | true =>
              show if d.escaped = true then _ else _
              rw [if_pos hd]
              exact ⟨e, rfl⟩
          | false => exact ⟨e, rfl⟩
      | false =>
          obtain ⟨p, hp⟩ := hdoc.ok hd
          rw [hp]
          have hend' : (Scanner.skipWhitespace ⟨r, p⟩).atEnd = (takeWs r).2.isEmpty := by
            rw [Scanner.atEnd, skipWhitespace_rest]
          dsimp only
          rw [hend']
          cases hend : (takeWs r).2.isEmpty with
          | true =>
              show if d.escaped = true then _ else _
              rw [hd]
              rfl
          | false => exact signals_signalError _ _

theorem parse_text (t : Text) (hfuel : 3 * t.text.length + 1 ≤ fuel) :
    if t.escaped = true then Signals (parse (F := F) fuel t.text)
    else parse (F := F) fuel t.text = .ok t.value := by
  have h := parse_agrees (F := F) hfuel
  rwa [readText_text t (Nat.le_of_succ_le hfuel)] at h

theorem signals_parse {s : Str} (hfuel : 3 * s.length + 1 ≤ fuel)
    (hs : ∀ t : Text, t.text ≠ s) : Signals (parse (F := F) fuel s) := by
  have h := parse_agrees (F := F) hfuel
  cases hread : readText fuel s with
  | none => rwa [hread] at h
  | some t => exact absurd (text_readText hread) (hs t)

/-- The outcome that the RFC asks for. -/
def Conforms (s : Str) (result : Except Stop (Value F)) : Prop :=
  (∀ v, result = .ok v ↔ IsText s v) ∧ ((∃ v, result = .ok v) ∨ Signals result)

theorem not_ok_of_signals {α : Type} {result : Except Stop α} (h : Signals result) (v : α) :
    result ≠ .ok v := by
  obtain ⟨e, he⟩ := h
  rw [he]
  simp

/-- A tree is the only one of its text. -/
theorem isText_text {t : Text} {v : Value F} :
    IsText t.text v ↔ t.lax = false ∧ t.value = v := by
  constructor
  · rintro ⟨t', hlax, htext, hvalue⟩
    rw [Text.text_injective htext] at hlax hvalue
    exact ⟨hlax, hvalue⟩
  · exact fun h => ⟨t, h.1, rfl, h.2⟩

theorem conforms_text (t : Text) (hfuel : 3 * t.text.length + 1 ≤ fuel) :
    Conforms t.text (parse (F := F) fuel t.text) ↔ t.escaped = t.lax := by
  have h := parse_text (F := F) t hfuel
  cases hescaped : t.escaped with
  | true =>
      rw [if_pos hescaped] at h
      constructor
      · intro hconforms
        cases hlax : t.lax with
        | true => rfl
        | false =>
            have hok := (hconforms.1 t.value).mpr (isText_text.mpr ⟨hlax, rfl⟩)
            exact absurd hok (not_ok_of_signals h _)
      · intro hlax
        refine ⟨fun v => ⟨fun hok => absurd hok (not_ok_of_signals h v), fun htext => ?_⟩, .inr h⟩
        rw [isText_text, ← hlax] at htext
        cases htext.1
  | false =>
      rw [if_neg (by rw [hescaped]; exact Bool.false_ne_true)] at h
      constructor
      · intro hconforms
        exact (isText_text.mp ((hconforms.1 t.value).mp h)).1.symm
      · intro hlax
        refine ⟨fun v => ?_, .inl ⟨_, h⟩⟩
        rw [h, isText_text]
        constructor
        · intro hok
          cases hok
          exact ⟨hlax.symm, rfl⟩
        · rintro ⟨-, rfl⟩
          rfl

/-- **The parser accepts the JSON texts but for three slips.**  The outcome is the one of
the RFC if and only if the String is no document of the wider grammar, or has a `\u`
escape exactly when it has a number that is not one of the RFC. -/
theorem parse_conforms_iff (s : Str) :
    (∃ n, ∀ fuel, n ≤ fuel → Conforms s (parse (F := F) fuel s)) ↔
      ∀ t : Text, t.text = s → t.escaped = t.lax := by
  constructor
  · rintro ⟨n, hconforms⟩ t rfl
    have hle := Nat.le_max_right n (3 * t.text.length + 1)
    exact (conforms_text t hle).mp (hconforms _ (Nat.le_max_left ..))
  · intro h
    refine ⟨3 * s.length + 1, fun fuel hfuel => ?_⟩
    by_cases hs : ∃ t : Text, t.text = s
    · obtain ⟨t, rfl⟩ := hs
      exact (conforms_text t hfuel).mpr (h t rfl)
    · have hsignals := signals_parse (F := F) hfuel fun t ht => hs ⟨t, ht⟩
      refine ⟨fun v => ⟨fun hok => absurd hok (not_ok_of_signals hsignals v), ?_⟩, .inr hsignals⟩
      rintro ⟨t, -, htext, -⟩
      exact absurd ⟨t, htext⟩ hs

end Values

/-! ## A text that is rejected -/

/-- `"\u0041"` -/
def escapedA : Text where
  before := ⟨[], by simp⟩
  doc := .string [.unicode ⟨48, rfl⟩ ⟨48, rfl⟩ ⟨52, rfl⟩ ⟨49, rfl⟩]
  after := ⟨[], by simp⟩

/-- The text of the string `A` by its code is rejected. -/
theorem parse_rejects_text : ¬ ∀ s : Str, ∃ n, ∀ fuel, n ≤ fuel →
    Conforms s (parse (F := Float) fuel s) := by
  intro h
  obtain ⟨n, hconforms⟩ := h escapedA.text
  have hle := Nat.le_max_right n (3 * escapedA.text.length + 1)
  have heq := (conforms_text escapedA hle).mp (hconforms _ (Nat.le_max_left ..))
  cases heq

end ProtoST.Json

import ProtoST.Frontend.Lexer

/-!
# What the lexer answers

The tokens that `next` answers, with `peek` and `peekSecond` called in between, and the
symbol literals of the selectors.

## Main results

* `next_transparent` — looking ahead changes no token, and the tokens end.
* `coversSymbol_iff` — the selectors whose symbol literal is one token with their text.
* `malformed_symbol` — an operator that has no symbol literal.
-/

namespace ProtoST.Frontend.Lexer

open ProtoST.Lib

variable (stod : List Char → Option (BitVec 64))

/-! ## The calls -/

/-- `Lexer::next`. -/
def next (lexer : Lexer) : Token × Lexer := Ahead.next (lexOne stod) lexer

/-- `Lexer::peek`: the front of `lookahead_`. -/
def peek (lexer : Lexer) : Option Token × Lexer :=
  let lexer := if lexer.buffer = [] then Ahead.push (lexOne stod) lexer else lexer
  (lexer.buffer.head?, lexer)

/-- `Lexer::peekSecond`: the second of `lookahead_`. -/
def peekSecond (lexer : Lexer) : Option Token × Lexer :=
  let lexer := Ahead.pushes (lexOne stod) (2 - lexer.buffer.length) lexer
  (lexer.buffer[1]?, lexer)

inductive Call where
  | next | peek | peekSecond
  deriving DecidableEq, Repr

/-- The tokens that the calls of `next` answer. -/
def tokens : List Call → Lexer → List Token
  | [], _ => []
  | .next :: calls, lexer => (next stod lexer).1 :: tokens calls (next stod lexer).2
  | .peek :: calls, lexer => tokens calls (peek stod lexer).2
  | .peekSecond :: calls, lexer => tokens calls (peekSecond stod lexer).2

/-- A call as one of a producer with a buffer. -/
def Call.ahead : Call → Ahead.Call
  | .next => .next
  | .peek => .peek 0
  | .peekSecond => .peek 1

variable {stod}

theorem peek_eq_fill (lexer : Lexer) : (peek stod lexer).2 = lexer.fill (lexOne stod) 0 := by
  obtain ⟨state, buffer⟩ := lexer
  cases buffer with
  | nil => rfl
  | cons t ts =>
    have hlen : 0 + 1 - (t :: ts).length = 0 := by simp
    unfold Ahead.fill
    rw [hlen]
    rfl

theorem tokens_eq_run (calls : List Call) (lexer : Lexer) :
    tokens stod calls lexer = lexer.run (lexOne stod) (calls.map Call.ahead) := by
  induction calls generalizing lexer with
  | nil => rfl
  | cons call calls ih =>
    cases call with
    | next => exact congrArg (List.cons _) (ih _)
    | peek =>
      rw [tokens, ih, peek_eq_fill]
      rfl
    | peekSecond => exact ih _

theorem count_ahead (calls : List Call) :
    (calls.map Call.ahead).count .next = calls.count .next := by
  induction calls with
  | nil => rfl
  | cons call calls ih =>
    cases call with
    | next => rw [List.map_cons, Call.ahead, List.count_cons_self, List.count_cons_self, ih]
    | peek =>
      rw [List.map_cons, List.count_cons_of_ne (by decide), List.count_cons_of_ne (by decide), ih]
    | peekSecond =>
      rw [List.map_cons, List.count_cons_of_ne (by decide), List.count_cons_of_ne (by decide), ih]

/-- The calls of `next` answer the tokens that `lexOne` lexes one after the other. -/
theorem tokens_eq_produce (calls : List Call) (source : List Char) :
    tokens stod calls (Lexer.new source) =
      produce (lexOne stod) (calls.count .next) (State.start source) := by
  rw [tokens_eq_run, Lexer.new, Ahead.run_eq, count_ahead]

/-! ## The tokens of a source -/

/-- From the end of file on there are only ends of file. -/
theorem produce_of_rest_nil {s : State} (h : s.cursor.rest = []) (n : Nat) :
    ∀ t ∈ produce (lexOne stod) n s, t.kind = .endOfFile := by
  induction n generalizing s with
  | zero =>
    intro t ht
    cases ht
  | succ n ih =>
    have heof : (lexOne stod s).1.kind = .endOfFile := lexOne_of_rest_nil h
    intro t ht
    rcases List.mem_cons.mp ht with rfl | ht
    · exact heof
    · exact ih (rest_of_endOfFile heof) t ht

/-- The tokens before the end of file, each of which takes a byte, and the ends of file. -/
theorem exists_endOfFile (s : State) :
    ∃ n, n ≤ s.cursor.rest.length ∧ ∀ m,
      (∀ t ∈ (produce (lexOne stod) m s).take n, t.kind ≠ .endOfFile) ∧
        ∀ t ∈ (produce (lexOne stod) m s).drop n, t.kind = .endOfFile := by
  induction hlen : s.cursor.rest.length using Nat.strong_induction_on generalizing s with
  | _ len ih =>
    by_cases heof : (lexOne stod s).1.kind = .endOfFile
    · refine ⟨0, Nat.zero_le _, fun m => ⟨by simp, ?_⟩⟩
      cases m with
      | zero => simp [produce]
      | succ m =>
        intro t ht
        rw [List.drop_zero, produce, List.mem_cons] at ht
        rcases ht with rfl | ht
        · exact heof
        · exact produce_of_rest_nil (rest_of_endOfFile heof) m t ht
    · have hlt := lexOne_progress heof
      obtain ⟨n, hn, htokens⟩ := ih _ (hlen ▸ hlt) (lexOne stod s).2 rfl
      refine ⟨n + 1, by omega, fun m => ?_⟩
      cases m with
      | zero => simp [produce]
      | succ m =>
        obtain ⟨hbefore, hafter⟩ := htokens m
        rw [produce, List.take_succ_cons, List.drop_succ_cons]
        refine ⟨fun t ht => ?_, hafter⟩
        rcases List.mem_cons.mp ht with rfl | ht
        · exact heof
        · exact hbefore t ht

/-- **Lookahead is transparent.** Whatever calls of `peek` and `peekSecond` stand in
between, the calls of `next` answer the tokens that as many calls of `next` alone answer;
and after at most one token for each byte of the source these are ends of file. -/
theorem next_transparent (source : List Char) :
    (∀ calls, tokens stod calls (Lexer.new source) =
      tokens stod (List.replicate (calls.count .next) .next) (Lexer.new source)) ∧
    ∃ n, n ≤ source.length ∧ ∀ m,
      (∀ t ∈ (tokens stod (List.replicate m .next) (Lexer.new source)).take n,
        t.kind ≠ .endOfFile) ∧
      ∀ t ∈ (tokens stod (List.replicate m .next) (Lexer.new source)).drop n,
        t.kind = .endOfFile := by
  constructor
  · intro calls
    rw [tokens_eq_produce, tokens_eq_produce, List.count_replicate_self]
  · obtain ⟨n, hn, htokens⟩ := exists_endOfFile (State.start source)
    have hstart : (State.start source).cursor.rest.length ≤ source.length := by
      unfold State.start
      dsimp only
      split
      · exact List.length_dropWhile_le ..
      · exact le_rfl
    refine ⟨n, hn.trans hstart, fun m => ?_⟩
    rw [tokens_eq_produce, List.count_replicate_self]
    exact htokens m

/-! ## Selectors and their symbol literals -/

/-- An identifier. -/
def IsName (s : List Char) : Prop :=
  ∃ c cs, s = c :: cs ∧ startsName c = true ∧ ∀ d ∈ cs, inName d = true

/-- The text of a chain of keyword parts. -/
def keywordChain (parts : List (List Char)) : List Char := parts.flatMap (· ++ [':'])

variable (stod) in
/-- A selector: an identifier, a chain of keyword parts, or the text of an operator
token. -/
inductive IsSelector : List Char → Prop
  | name {s : List Char} : IsName s → IsSelector s
  | keywords {parts : List (List Char)} : parts ≠ [] → (∀ p ∈ parts, IsName p) →
      IsSelector (keywordChain parts)
  | operator {st : State} : (lexOne stod st).1.kind = .binaryOp →
      IsSelector (lexOne stod st).1.text

/-- The text that follows is the end of the source or begins with whitespace. -/
def Delimited (after : List Char) : Prop :=
  after = [] ∨ ∃ c cs, after = c :: cs ∧ isSpace c = true

variable (stod) in
/-- A `#` with `s`, between whitespace, is one token: the symbol `s`. -/
def CoversSymbol (s : List Char) : Prop :=
  ∀ (st : State) (before after : List Char), (∀ c ∈ before, isSpace c = true) →
    Delimited after → st.cursor.rest = before ++ '#' :: (s ++ after) →
    (lexOne stod st).1.kind = .symbol ∧ (lexOne stod st).1.text = s ∧
      (lexOne stod st).2.cursor.rest = after

/-- Nothing that goes on with a symbol follows. -/
def EndsSymbol (after : List Char) : Prop :=
  ∀ c, after.head? = some c → inName c = false ∧ isBinChar c = false ∧ c ≠ ':'

variable (stod) in
/-- A `#` with `s` is one token wherever the symbol ends behind it. -/
def TakesSymbol (s : List Char) : Prop :=
  ∀ (st : State) (before after : List Char), (∀ c ∈ before, isSpace c = true) →
    EndsSymbol after → st.cursor.rest = before ++ '#' :: (s ++ after) →
    (lexOne stod st).1.kind = .symbol ∧ (lexOne stod st).1.text = s ∧
      (lexOne stod st).2.cursor.rest = after

variable {c : Char}

theorem not_inName_of_isSpace (h : isSpace c = true) : inName c = false := by
  unfold isSpace at h
  simp only [Bool.or_eq_true, decide_eq_true_eq] at h
  rcases h with ((((rfl | rfl) | rfl) | rfl) | rfl) | rfl <;> decide

theorem not_isBinChar_of_isSpace (h : isSpace c = true) : isBinChar c = false := by
  unfold isSpace at h
  simp only [Bool.or_eq_true, decide_eq_true_eq] at h
  rcases h with ((((rfl | rfl) | rfl) | rfl) | rfl) | rfl <;> decide

theorem skipWhitespace_of_isSpace {before : List Char} (h : ∀ c ∈ before, isSpace c = true)
    (hspace : isSpace c = false) (hquote : c ≠ '"') (cs : List Char)
    (line column : Nat) : ∃ line' column',
      skipWhitespace none line column (before ++ c :: cs) = (none, ⟨c :: cs, line', column'⟩) := by
  induction before generalizing line column with
  | nil =>
    refine ⟨line, column, ?_⟩
    simp [skipWhitespace, hspace, hquote]
  | cons b before ih =>
    have hb := h b List.mem_cons_self
    have hbefore : ∀ c ∈ before, isSpace c = true := fun c hc => h c (List.mem_cons_of_mem b hc)
    by_cases hnewline : b = '\n'
    · obtain ⟨line', column', hrun⟩ := ih hbefore (line + 1) 1
      refine ⟨line', column', ?_⟩
      rw [List.cons_append, skipWhitespace, if_pos hb, if_pos hnewline, hrun]
    · obtain ⟨line', column', hrun⟩ := ih hbefore line (column + 1)
      refine ⟨line', column', ?_⟩
      rw [List.cons_append, skipWhitespace, if_pos hb, if_neg hnewline, hrun]

/-- At a `#` that does not open a literal array the lexer lexes a symbol. -/
theorem lexOne_hash {st : State} {before rest : List Char}
    (hbefore : ∀ c ∈ before, isSpace c = true) (hst : st.cursor.rest = before ++ '#' :: rest)
    (hparen : rest.head? ≠ some '(') :
    ∃ cur : Cursor, cur.rest = '#' :: rest ∧ (lexOne stod st).1.kind = (lexSymbol cur).1.kind ∧
      (lexOne stod st).1.text = (lexSymbol cur).1.text ∧
      (lexOne stod st).2.cursor = (lexSymbol cur).2 := by
  obtain ⟨line, column, hskip⟩ := skipWhitespace_of_isSpace hbefore (c := '#') (by decide)
    (by decide) rest st.cursor.line st.cursor.column
  rw [← hst] at hskip
  have hlook : Cursor.lookahead ⟨'#' :: rest, line, column⟩ ≠ '(' := by
    cases rest with
    | nil => simp [Cursor.lookahead]
    | cons c cs =>
      intro hc
      exact hparen (congrArg some hc)
  refine ⟨⟨'#' :: rest, line, column⟩, rfl, ?_⟩
  have hname : startsName '#' = false := by decide
  have hdigit : Char.isDigit '#' = false := by decide
  unfold lexOne nextImpl
  rw [hskip]
  simp only [lexToken, hname, hdigit, if_neg hlook, if_true, Bool.false_eq_true, if_false,
    and_self]

/-! ### Names and keyword chains -/

theorem takeWhile_inName (p after : List Char) (hp : ∀ c ∈ p, inName c = true)
    (hafter : ∀ c, after.head? = some c → inName c = false) :
    (p ++ after).takeWhile inName = p ∧ (p ++ after).dropWhile inName = after := by
  rw [List.takeWhile_append_of_pos hp, List.dropWhile_append_of_pos hp]
  cases after with
  | nil => simp
  | cons c cs =>
    have hc : inName c = false := hafter c rfl
    simp [hc]

variable {p : List Char}

theorem IsName.inName (hp : IsName p) : ∀ c ∈ p, Lexer.inName c = true := by
  obtain ⟨c, cs, rfl, hc, hcs⟩ := hp
  intro d hd
  rcases List.mem_cons.mp hd with rfl | hd
  · simp only [startsName, Lexer.inName, Char.isAlphanum, Bool.or_eq_true] at hc ⊢
    tauto
  · exact hcs d hd

theorem IsName.head_ne (hp : IsName p) (rest : List Char)
    (hc : startsName c = false) : (p ++ rest).head? ≠ some c := by
  obtain ⟨d, ds, rfl, hd, -⟩ := hp
  intro h
  cases h
  rw [hd] at hc
  cases hc

variable {after : List Char}

theorem Delimited.endsSymbol (h : Delimited after) : EndsSymbol after := by
  rcases h with rfl | ⟨d, ds, rfl, hd⟩
  · intro c hc
    cases hc
  · intro c hc
    cases hc
    refine ⟨not_inName_of_isSpace hd, not_isBinChar_of_isSpace hd, ?_⟩
    rintro rfl
    exact absurd hd (by decide)

variable {s : List Char}

theorem TakesSymbol.covers (h : TakesSymbol stod s) : CoversSymbol stod s :=
  fun st before after hbefore hafter => h st before after hbefore hafter.endsSymbol

theorem EndsSymbol.head_ne_equals (h : EndsSymbol after) :
    after.head? ≠ some '=' := by
  intro heq
  have hbin := (h '=' heq).2.1
  revert hbin
  decide

variable {cur : Cursor}

/-- Where the symbol ends no segment follows. -/
theorem symbolSegments_end (hafter : EndsSymbol after) (fuel : Nat)
    (hcur : cur.rest = after) : symbolSegments fuel cur = ([], cur) := by
  have hstop : ¬ (cur.rest.head? = some ':' ∧ cur.rest.tail.head? ≠ some '=') := by
    rw [hcur]
    exact fun h => (hafter ':' h.1).2.2 rfl
  cases fuel with
  | zero => rfl
  | succ fuel => rw [symbolSegments, if_neg hstop]

/-- The segments of a chain, from the colon of its first part on. -/
theorem symbolSegments_chain {parts : List (List Char)} (hparts : ∀ p ∈ parts, IsName p)
    (hafter : EndsSymbol after) {fuel : Nat} (hfuel : parts.length < fuel)
    (hcur : cur.rest = ':' :: (keywordChain parts ++ after)) :
    (symbolSegments fuel cur).1 = ':' :: keywordChain parts ∧
      (symbolSegments fuel cur).2.rest = after := by
  induction parts generalizing fuel cur with
  | nil =>
    obtain ⟨fuel, rfl⟩ : ∃ k, fuel = k + 1 := ⟨fuel - 1, by simp at hfuel; omega⟩
    simp only [keywordChain, List.flatMap_nil, List.nil_append] at hcur ⊢
    have hscan := takeWhile_inName [] after (by simp)
      fun c hc => (hafter c hc).1
    simp only [List.nil_append] at hscan
    have hhead : cur.rest.head? = some ':' ∧ cur.rest.tail.head? ≠ some '=' := by
      rw [hcur]
      exact ⟨rfl, hafter.head_ne_equals⟩
    have hlast : (cur.advance.scan inName).2.rest = after := by
      rw [Cursor.rest_scan, Cursor.rest_advance, hcur, List.tail_cons, hscan.2]
    have hstop := symbolSegments_end hafter fuel hlast
    rw [symbolSegments, if_pos hhead]
    dsimp only
    rw [hstop]
    refine ⟨?_, hlast⟩
    rw [Cursor.scan_fst, Cursor.rest_advance, hcur, List.tail_cons, hscan.1]
    rfl
  | cons p parts ih =>
    obtain ⟨fuel, rfl⟩ : ∃ k, fuel = k + 1 := ⟨fuel - 1, by simp at hfuel; omega⟩
    have hp := hparts p List.mem_cons_self
    have hchain : keywordChain (p :: parts) ++ after =
        p ++ ':' :: (keywordChain parts ++ after) := by
      simp [keywordChain]
    rw [hchain] at hcur
    have hscan := takeWhile_inName p (':' :: (keywordChain parts ++ after)) hp.inName
      fun c hc => by cases hc; decide
    have hhead : cur.rest.head? = some ':' ∧ cur.rest.tail.head? ≠ some '=' := by
      rw [hcur]
      exact ⟨rfl, hp.head_ne _ (by decide)⟩
    have hrest : (cur.advance.scan inName).2.rest = ':' :: (keywordChain parts ++ after) := by
      rw [Cursor.rest_scan, Cursor.rest_advance, hcur, List.tail_cons, hscan.2]
    obtain ⟨htext, hlast⟩ := ih (fun q hq => hparts q (List.mem_cons_of_mem p hq))
      (by simp at hfuel; omega) hrest
    rw [symbolSegments, if_pos hhead]
    dsimp only
    refine ⟨?_, hlast⟩
    rw [htext, Cursor.scan_fst, Cursor.rest_advance, hcur, List.tail_cons, hscan.1]
    simp [keywordChain]

/-- The symbol of a name, or of a chain of keyword parts that begins with it. -/
theorem lexSymbol_of_name (hp : IsName p)
    {text rest after : List Char} (hcur : cur.rest = '#' :: (p ++ rest))
    (hrest : ∀ c, rest.head? = some c → inName c = false)
    (hsegments : ∀ named : Cursor, named.rest = rest →
      (symbolSegments rest.length named).1 = text ∧
        (symbolSegments rest.length named).2.rest = after) :
    (lexSymbol cur).1.kind = .symbol ∧ (lexSymbol cur).1.text = p ++ text ∧
      (lexSymbol cur).2.rest = after := by
  have hscan := takeWhile_inName _ _ hp.inName hrest
  have hadvance : cur.advance.rest = p ++ rest := by
    rw [Cursor.rest_advance, hcur, List.tail_cons]
  have hnamed : (cur.advance.scan inName).2.rest = rest := by
    rw [Cursor.rest_scan, hadvance, hscan.2]
  obtain ⟨htext, hlast⟩ := hsegments _ hnamed
  obtain ⟨c, cs, rfl, hc, -⟩ := hp
  unfold lexSymbol
  dsimp only
  rw [hadvance]
  simp only [List.cons_append, hc, if_true, hnamed]
  refine ⟨rfl, ?_, hlast⟩
  rw [htext, Cursor.scan_fst, hadvance, hscan.1]
  rfl

theorem takesSymbol_of_name (hs : IsName s) : TakesSymbol stod s := by
  intro st before after hbefore hafter hst
  obtain ⟨cur, hcur, hkind, htext, hcursor⟩ := lexOne_hash hbefore hst
    (hs.head_ne _ (by decide))
  rw [hkind, htext, hcursor]
  have hsymbol := lexSymbol_of_name hs hcur (fun c hc => (hafter c hc).1)
    fun named hnamed => by
      rw [symbolSegments_end hafter _ hnamed]
      exact ⟨rfl, hnamed⟩
  rwa [List.append_nil] at hsymbol

theorem length_le_keywordChain (parts : List (List Char)) :
    parts.length ≤ (keywordChain parts).length := by
  induction parts with
  | nil => exact Nat.zero_le _
  | cons p parts ih =>
    simp only [keywordChain, List.flatMap_cons, List.length_append, List.length_cons,
      List.length_nil] at ih ⊢
    omega

theorem takesSymbol_of_keywords {parts : List (List Char)} (hp : IsName p)
    (hparts : ∀ q ∈ parts, IsName q) : TakesSymbol stod (keywordChain (p :: parts)) := by
  intro st before after hbefore hafter hst
  have hchain : ∀ tail, keywordChain (p :: parts) ++ tail =
      p ++ ':' :: (keywordChain parts ++ tail) := by
    intro tail
    simp [keywordChain]
  rw [hchain] at hst
  obtain ⟨cur, hcur, hkind, htext, hcursor⟩ := lexOne_hash hbefore hst
    (hp.head_ne _ (by decide))
  rw [hkind, htext, hcursor]
  have hlong := length_le_keywordChain parts
  have hsymbol := lexSymbol_of_name hp hcur (fun c hc => by cases hc; decide)
    fun named hnamed => symbolSegments_chain hparts hafter
      (by rw [List.length_cons, List.length_append]; omega) hnamed
  have hsame := hchain []
  rw [List.append_nil, List.append_nil] at hsame
  rwa [hsame]

/-! ### Operators -/

theorem not_startsName_of_isOperatorChar (h : isOperatorChar c = true) :
    startsName c = false := by
  have hmem : c ∈ "+*/\\&,@=~<>%?!-".toList := by
    simpa only [isOperatorChar, List.contains_iff_mem] using h
  have hall : ("+*/\\&,@=~<>%?!-".toList.all fun d => startsName d == false) = true := by decide
  exact eq_of_beq (List.all_eq_true.mp hall c hmem)

theorem isOperatorChar_head {cs : List Char}
    (hrun : ∀ d ∈ c :: cs, isOperatorChar d = true) : isOperatorChar c = true :=
  hrun c List.mem_cons_self

/-- The symbol of one or two characters of `binChars`. -/
theorem takesSymbol_of_isBinChar (hne : s ≠ []) (hlen : s.length ≤ 2)
    (hs : ∀ c ∈ s, isBinChar c = true) (hrun : ∀ c ∈ s, isOperatorChar c = true) :
    TakesSymbol stod s := by
  obtain ⟨c, cs, rfl⟩ := List.exists_cons_of_ne_nil hne
  have hname := not_startsName_of_isOperatorChar (isOperatorChar_head hrun)
  have hc := hs c List.mem_cons_self
  intro st before after hbefore hafter hst
  have hparen : (c :: cs ++ after).head? ≠ some '(' := by
    intro h
    cases h
    revert hc
    decide
  obtain ⟨cur, hcur, hkind, htext, hcursor⟩ := lexOne_hash hbefore hst hparen
  rw [hkind, htext, hcursor]
  have hadvance : cur.advance.rest = c :: (cs ++ after) := by
    rw [Cursor.rest_advance, hcur, List.tail_cons, List.cons_append]
  unfold lexSymbol
  dsimp only
  rw [hadvance]
  simp only [hname, Bool.false_eq_true, if_false, hc, if_true]
  match cs with
  | [] =>
    cases after with
    | nil =>
      refine ⟨rfl, rfl, ?_⟩
      simp [hcur]
    | cons d ds =>
      simp only [List.nil_append, (hafter d rfl).2.1, Bool.false_eq_true, if_false]
      refine ⟨rfl, rfl, ?_⟩
      simp [hcur]
  | [d] =>
    have hd := hs d (List.mem_cons_of_mem c List.mem_cons_self)
    simp only [List.cons_append, List.nil_append, hd, if_true]
    refine ⟨rfl, rfl, ?_⟩
    simp [hcur]
  | _ :: _ :: _ => exact absurd hlen (by simp)

/-- The symbol token of a text that begins with no name has one or two characters of
`binChars`. -/
theorem lexSymbol_operator {cs : List Char}
    (hcur : cur.rest = '#' :: c :: cs) (hname : startsName c = false)
    (hkind : (lexSymbol cur).1.kind = .symbol) :
    (lexSymbol cur).1.text.length ≤ 2 ∧ ∀ d ∈ (lexSymbol cur).1.text, isBinChar d = true := by
  have hadvance : cur.advance.rest = c :: cs := by
    rw [Cursor.rest_advance, hcur, List.tail_cons]
  unfold lexSymbol at hkind ⊢
  dsimp only at hkind ⊢
  rw [hadvance] at hkind ⊢
  simp only [hname, Bool.false_eq_true, if_false] at hkind ⊢
  by_cases hc : isBinChar c = true
  · simp only [hc, if_true]
    match cs with
    | [] => exact ⟨by simp [token], by simpa [token] using hc⟩
    | d :: ds =>
      by_cases hd : isBinChar d = true
      · simp only [hd, if_true]
        exact ⟨by simp [token], by simpa [token] using ⟨hc, hd⟩⟩
      · simp only [hd]
        exact ⟨by simp [token], by simpa [token] using hc⟩
  · simp only [hc] at hkind
    cases hkind

/-- Another text makes no symbol. -/
theorem lexSymbol_error {cs : List Char}
    (hcur : cur.rest = '#' :: c :: cs) (hname : startsName c = false)
    (hkind : (lexSymbol cur).1.kind ≠ .symbol) : (lexSymbol cur).1.kind = .error := by
  have hadvance : cur.advance.rest = c :: cs := by
    rw [Cursor.rest_advance, hcur, List.tail_cons]
  unfold lexSymbol at hkind ⊢
  dsimp only at hkind ⊢
  rw [hadvance] at hkind ⊢
  simp only [hname, Bool.false_eq_true, if_false] at hkind ⊢
  by_cases hc : isBinChar c = true
  · refine absurd ?_ hkind
    simp only [hc, if_true]
    split
    · split <;> rfl
    · rfl
  · simp only [hc]
    rfl

/-- Only one or two characters of `binChars` make the symbol of an operator. -/
theorem isBinChar_of_coversSymbol (hne : s ≠ [])
    (hrun : ∀ c ∈ s, isOperatorChar c = true) (h : CoversSymbol stod s) :
    s.length ≤ 2 ∧ ∀ c ∈ s, isBinChar c = true := by
  obtain ⟨c, cs, rfl⟩ := List.exists_cons_of_ne_nil hne
  have hop := isOperatorChar_head hrun
  let st : State := ⟨⟨'#' :: c :: cs, 1, 1⟩, .endOfFile⟩
  have hst : st.cursor.rest = [] ++ '#' :: (c :: cs ++ []) := by
    rw [List.append_nil, List.nil_append]
  have hblank : ∀ d ∈ ([] : List Char), isSpace d = true := fun d hd => by cases hd
  have hparen : (c :: cs ++ []).head? ≠ some '(' := by
    intro heq
    cases heq
    revert hop
    decide
  obtain ⟨cur, hcur, hkind, htext, -⟩ := lexOne_hash hblank hst hparen
  obtain ⟨hsymbol, hsame, -⟩ := h st [] [] hblank (Or.inl rfl) hst
  rw [hkind] at hsymbol
  rw [htext] at hsame
  rw [← hsame]
  exact lexSymbol_operator hcur (not_startsName_of_isOperatorChar hop) hsymbol

/-- **Symbols of the selectors.** The symbol literal of a selector is one token with its
text if and only if the selector is a name, a chain of keyword parts, or an operator of at
most two characters, each of them in `binChars`. -/
theorem coversSymbol_iff {s : List Char} (h : IsSelector stod s) :
    CoversSymbol stod s ↔ (∃ c cs, s = c :: cs ∧ startsName c = true) ∨
      (s.length ≤ 2 ∧ ∀ c ∈ s, isBinChar c = true) := by
  cases h with
  | name hs =>
    obtain ⟨c, cs, hcs, hc, -⟩ := id hs
    exact iff_of_true (takesSymbol_of_name hs).covers (Or.inl ⟨c, cs, hcs, hc⟩)
  | @keywords parts hne hparts =>
    obtain ⟨p, parts, rfl⟩ := List.exists_cons_of_ne_nil hne
    have hp := hparts p List.mem_cons_self
    obtain ⟨c, cs, hcs, hc, -⟩ := id hp
    refine iff_of_true
      (takesSymbol_of_keywords hp fun q hq => hparts q (List.mem_cons_of_mem p hq)).covers
      (Or.inl ?_)
    exact ⟨c, cs ++ ':' :: keywordChain parts, by simp [keywordChain, hcs], hc⟩
  | @operator st hop =>
    obtain ⟨hne, hrun⟩ := run_of_binaryOp hop
    refine ⟨fun hcovers => Or.inr (isBinChar_of_coversSymbol hne hrun hcovers), ?_⟩
    rintro (⟨c, cs, hcs, hc⟩ | ⟨hlen, hbin⟩)
    · have hfalse := not_startsName_of_isOperatorChar
        (hrun c (by rw [hcs]; exact List.mem_cons_self))
      rw [hc] at hfalse
      cases hfalse
    · exact (takesSymbol_of_isBinChar hne hlen hbin hrun).covers

/-- The lexer at the start of a source. -/
def atStart (source : String) : State := ⟨⟨source.toList, 1, 1⟩, .endOfFile⟩

/-- The symbol of `==`. -/
theorem coversSymbol_twoEquals : CoversSymbol (fun _ => none) ['=', '='] :=
  (coversSymbol_iff (@IsSelector.operator _ (atStart "==") (by decide))).mpr
    (Or.inr ⟨by decide, List.all_eq_true.mp (by decide)⟩)

/-- `#\\` is no symbol, and `#==>` is one of `==` alone. -/
theorem malformed_symbol : IsSelector (fun _ => none) ['\\', '\\'] ∧
    ¬ CoversSymbol (fun _ => none) ['\\', '\\'] ∧
    IsSelector (fun _ => none) ['=', '=', '>'] ∧
    ¬ CoversSymbol (fun _ => none) ['=', '=', '>'] := by
  refine ⟨@IsSelector.operator _ (atStart "\\\\") (by decide), ?_,
    @IsSelector.operator _ (atStart "==>") (by decide), ?_⟩
  · intro h
    have := h (atStart "#\\\\") [] [] (fun _ hc => nomatch hc) (Or.inl rfl) rfl
    revert this
    decide
  · intro h
    have := h (atStart "#==>") [] [] (fun _ hc => nomatch hc) (Or.inl rfl) rfl
    revert this
    decide

end ProtoST.Frontend.Lexer

import ProtoST.Json.RoundTrip
import ProtoST.Runtime.ValueFormat

/-!
# The numbers that `stringifyNumber:` writes

`printString` of an Integer and of a finite Float is a number of RFC 8259.  The C library is
a parameter, with what it promises of `"%.*e"` (`PrintsScientific`).

## Main results

* `formatBigInteger_eq_printInteger` — the text of an Integer.
* `formatFloat_number` — the text of a finite double is that of a number.
* `formatFloat_notFinite` — the texts of the others.
-/

namespace ProtoST.Json

open ProtoST.Runtime.ValueFormat
open ProtoST.Frontend.Lexer (Numeral exponentText fractionText isDigitIn isDigitIn_ten signText)

def ofChars (text : List Char) : Str := text.map ofChar

theorem ofChars_append (s t : List Char) : ofChars (s ++ t) = ofChars s ++ ofChars t :=
  List.map_append

/-! ## Digits -/

def digitOfChar (c : Char) : Fin 10 := Fin.ofNat 10 (c.toNat - 48)

theorem digitCode_digitOfChar {c : Char} (h : isDigitIn 10 c = true) :
    digitCode (digitOfChar c) = ofChar c := by
  rw [isDigitIn_ten, Char.isDigit, Bool.and_eq_true, decide_eq_true_eq, decide_eq_true_eq] at h
  have hlo : 48 ≤ c.toNat := h.1
  have hhi : c.toNat ≤ 57 := h.2
  apply Fin.ext
  show 48 + (c.toNat - 48) % 10 = c.toNat
  omega

/-- The digits of a literal. -/
def digitsOfLiteral (ds : Frontend.Lexer.Digits 10) : Digits :=
  ⟨ds.chars.map digitOfChar, by simpa using ds.nonempty⟩

theorem text_digitsOfLiteral (ds : Frontend.Lexer.Digits 10) :
    digitText (digitsOfLiteral ds).1 = ofChars ds.chars := by
  unfold digitText digitsOfLiteral ofChars
  rw [List.map_map]
  exact List.map_congr_left fun c hc => digitCode_digitOfChar (ds.digit c hc)

/-! ## Integers -/

theorem decimalChar_eq {d : Nat} (h : d < 10) : decimalChar d = Nat.digitChar d := by
  revert d
  decide

theorem digitsLoop_eq_digits (n : Nat) (ds : List Char) :
    digitsLoop n ds = ds ++ (Nat.digits 10 n).map decimalChar := by
  fun_induction digitsLoop n ds with
  | case1 n ds hpos ih =>
      rw [ih, Nat.digits_def' (by decide) hpos, List.map_cons, List.append_assoc]
      rfl
  | case2 n ds hzero =>
      rw [Nat.eq_zero_of_not_pos hzero, Nat.digits_zero, List.map_nil, List.append_nil]

/-- The two renderings of an Integer. -/
theorem formatBigInteger_eq_printInteger (n : Int) :
    ofChars (formatBigInteger n) = printInteger n := by
  have habs : (if n < 0 then (-n).toNat else n.toNat) = n.natAbs := by
    split <;> omega
  have hdigits : ofChars (if n.natAbs = 0 then ['0'] else (digitsLoop n.natAbs []).reverse) =
      printNat n.natAbs := by
    unfold printNat ofChars
    split
    · rfl
    · rw [digitsLoop_eq_digits, List.nil_append, ← List.map_reverse, List.map_map]
      exact List.map_congr_left fun d hd => congrArg ofChar
        (decimalChar_eq (Nat.digits_lt_base (by decide) (List.mem_reverse.mp hd)))
  unfold formatBigInteger printInteger
  rw [habs]
  dsimp only
  split
  · rw [← hdigits]
    rfl
  · exact hdigits

/-! ## Literals -/

def exponentOfLiteral (e : Bool × Frontend.Lexer.Digits 10) : Exponent where
  upper := false
  sign := if e.1 then .minus else .none
  digits := digitsOfLiteral e.2

/-- The number of a literal with a fraction. -/
def numberOfLiteral (negative : Bool) (int frac : Frontend.Lexer.Digits 10)
    (exponent : Option (Bool × Frontend.Lexer.Digits 10)) : Number where
  negative := negative
  int := digitsOfLiteral int
  frac := some (digitsOfLiteral frac)
  exp := exponent.map exponentOfLiteral

theorem expText_exponentOfLiteral (exponent : Option (Bool × Frontend.Lexer.Digits 10)) :
    Number.expText (exponent.map exponentOfLiteral) = ofChars (exponentText exponent) := by
  cases exponent with
  | none => rfl
  | some e =>
      obtain ⟨negative, ds⟩ := e
      have hds := text_digitsOfLiteral ds
      cases negative with
      | true =>
          show 101 :: 45 :: digitText (digitsOfLiteral ds).1 = _
          rw [hds]
          rfl
      | false =>
          show 101 :: digitText (digitsOfLiteral ds).1 = _
          rw [hds]
          rfl

theorem text_numberOfLiteral (negative : Bool) (int frac : Frontend.Lexer.Digits 10)
    (exponent : Option (Bool × Frontend.Lexer.Digits 10)) :
    (numberOfLiteral negative int frac exponent).text =
      ofChars (signText negative ++ (Numeral.decimal int (some frac) exponent).text) := by
  have hsign : (if negative then [45] else []) = ofChars (signText negative) := by
    cases negative <;> rfl
  have hpoint : ofChar '.' = 46 := by decide
  unfold numberOfLiteral Number.text Numeral.text
  dsimp only
  rw [hsign, text_digitsOfLiteral, expText_exponentOfLiteral, ofChars_append, ofChars_append,
    ofChars_append, fractionText, Number.fracText, text_digitsOfLiteral]
  unfold ofChars
  rw [List.map_cons, hpoint]

/-! ## Zeros before a number -/

/-- The text begins with a zero and another digit. -/
def leadingZero : List Char → Bool
  | '0' :: c :: _ => c.isDigit
  | _ => false

theorem leadingZero_of_ne {c : Char} {text : List Char} (h : c ≠ '0') :
    leadingZero (c :: text) = false := by
  unfold leadingZero
  split
  · rename_i heq
    cases heq
    exact absurd rfl h
  · rfl

/-- A text without a zero before another digit is a number of the RFC. -/
theorem lax_numberOfLiteral (negative : Bool) {int frac : Frontend.Lexer.Digits 10}
    {exponent : Option (Bool × Frontend.Lexer.Digits 10)}
    (h : leadingZero (Numeral.decimal int (some frac) exponent).text = false) :
    (numberOfLiteral negative int frac exponent).lax = false := by
  obtain ⟨chars, hnonempty, hdigit⟩ := int
  unfold Number.lax
  rw [Bool.or_eq_false_iff, Bool.and_eq_false_iff]
  constructor
  · obtain ⟨c, cs, rfl⟩ := List.exists_cons_of_ne_nil hnonempty
    cases cs with
    | nil => exact .inr rfl
    | cons c' cs =>
        refine .inl ?_
        have hc' : c'.isDigit = true := by
          rw [← isDigitIn_ten]
          exact hdigit c' (by simp)
        have hne : c ≠ '0' := by
          rintro rfl
          have hzero : leadingZero ('0' :: c' :: (cs ++ (fractionText (some frac) ++
              exponentText exponent))) = c'.isDigit := rfl
          rw [hc'] at hzero
          exact absurd (h.symm.trans hzero) Bool.false_ne_true
        show (some (digitOfChar c) == some 0) = false
        rw [beq_eq_false_iff_ne]
        intro heq
        have hcode := digitCode_digitOfChar (hdigit c List.mem_cons_self)
        rw [Option.some.inj heq] at hcode
        exact hne (Char.toNat_inj.mp (congrArg Fin.val hcode).symm)
  · cases exponent with
    | none => rfl
    | some e =>
        obtain ⟨minus, ds⟩ := e
        cases minus <;> rfl

/-! ## The layouts of a float -/

/-- The digit before the point is zero for zero only, and the exponent of zero is zero. -/
def Normal (e : Scientific) : Prop :=
  e.lead = '0' → (∀ c ∈ e.fraction, c = '0') ∧ e.exponent = 0

/-- What `snprintf` promises of `"%.*e"` for the finite doubles. -/
def PrintsScientific (snprintf : Nat → Double → List Char) : Prop :=
  ∀ prec d, d.isFinite = true → ∃ e : Scientific, snprintf prec d = e.text ∧ Normal e

theorem popZeros_suffix (ds : List Char) : popZeros ds <:+ ds := by
  fun_induction popZeros ds with
  | case1 d ds ih => exact ih.trans (List.suffix_cons '0' (d :: ds))
  | case2 ds hOther => exact List.suffix_refl ds

theorem popZeros_zeros {ds : List Char} (hnonempty : ds ≠ []) (h : ∀ c ∈ ds, c = '0') :
    popZeros ds = ['0'] := by
  fun_induction popZeros ds with
  | case1 d ds ih => exact ih (by simp) fun c hc => h c (List.mem_cons_of_mem _ hc)
  | case2 ds hOther =>
      obtain ⟨c, cs, rfl⟩ := List.exists_cons_of_ne_nil hnonempty
      obtain rfl := h c List.mem_cons_self
      cases cs with
      | nil => rfl
      | cons d cs => exact absurd rfl (hOther d cs)

variable {e : Scientific}

theorem digits_eq_cons (e : Scientific) : ∃ ds, e.digits = e.lead :: ds := by
  have hne := (popZeros_spec (e.lead :: e.fraction).reverse e.exponent (by simp)
    fun c hc => e.digit c (List.mem_reverse.mp hc)).1
  have hprefix : e.digits <+: e.lead :: e.fraction := by
    have h := List.reverse_prefix.mpr (popZeros_suffix (e.lead :: e.fraction).reverse)
    rwa [List.reverse_reverse] at h
  have hdigits : e.digits ≠ [] := fun h => hne (List.reverse_eq_nil_iff.mp h)
  obtain ⟨c, ds, hcons⟩ := List.exists_cons_of_ne_nil hdigits
  rw [hcons, List.cons_prefix_cons] at hprefix
  exact ⟨ds, by rw [hcons, hprefix.1]⟩

theorem digits_of_lead_zero (hnormal : Normal e) (hlead : e.lead = '0') : e.digits = ['0'] := by
  have hall : ∀ c ∈ (e.lead :: e.fraction).reverse, c = '0' := by
    intro c hc
    cases List.mem_cons.mp (List.mem_reverse.mp hc) with
    | inl h => rw [h, hlead]
    | inr h => exact (hnormal hlead).1 c h
  rw [Scientific.digits, popZeros_zeros (by simp) hall]
  rfl

theorem leadingZero_layout (hnormal : Normal e) :
    leadingZero (layout e.digits e.exponent) = false := by
  by_cases hlead : e.lead = '0'
  · rw [digits_of_lead_zero hnormal hlead, (hnormal hlead).2]
    decide
  · obtain ⟨ds, hds⟩ := digits_eq_cons e
    have hcons (t : List Char) : leadingZero (e.lead :: t) = false := leadingZero_of_ne hlead
    rw [hds]
    unfold layout
    split
    · split
      · rfl
      · dsimp only
        split
        · exact hcons _
        · exact hcons _
    · exact hcons _

/-! ## Floats -/

variable (snprintf : Nat → Double → List Char) (strtod : List Char → Double)

theorem shortest_eq (d : Double) (more prec : Nat) :
    ∃ p, shortest snprintf strtod d more prec = snprintf p d := by
  induction more generalizing prec with
  | zero => exact ⟨prec, rfl⟩
  | succ more ih =>
      unfold shortest
      split
      · exact ⟨prec, rfl⟩
      · exact ih (prec + 1)

variable {snprintf}

/-- The text of a finite double is that of a number of the RFC. -/
theorem formatFloat_number (hprints : PrintsScientific snprintf) {x : Double}
    (hfinite : x.isFinite = true) :
    ∃ n : Number, n.lax = false ∧ n.text = ofChars (formatFloat snprintf strtod x) := by
  obtain ⟨prec, hshortest⟩ := shortest_eq snprintf strtod x 16 0
  obtain ⟨e, htext, hnormal⟩ := hprints prec x hfinite
  have hformat : formatFloat snprintf strtod x = _ :=
    formatFloat_finite hfinite (hshortest.trans htext)
  obtain ⟨ds, hds⟩ := digits_eq_cons e
  have hdigits : ∀ c ∈ e.digits, isDigitIn 10 c = true := fun c hc =>
    e.digit c (List.mem_reverse.mp
      ((popZeros_suffix _).subset (List.mem_reverse.mp hc)))
  have hdenotes : Denotes (layout e.digits e.exponent) _ :=
    layout_denotes (by rw [hds]; simp) hdigits
  obtain ⟨int, frac, exponent, hlayout, -⟩ := hdenotes
  have hzero := leadingZero_layout hnormal
  rw [hlayout] at hzero
  refine ⟨numberOfLiteral e.negative int frac exponent, lax_numberOfLiteral e.negative hzero, ?_⟩
  rw [text_numberOfLiteral, hformat, hlayout]

variable (snprintf)

/-- The others print as an expression. -/
theorem formatFloat_notFinite {x : Double} (hfinite : x.isFinite = false) :
    ∃ t, formatFloat snprintf strtod x = 'F' :: t := by
  have hexponent : x.exponentBits = 2047 := by
    simpa [Double.isFinite] using hfinite
  unfold formatFloat
  split
  · exact ⟨_, rfl⟩
  · rename_i hnan
    have hinf : x.isInf = true := by
      simpa [Double.isNaN, Double.isInf, hexponent] using hnan
    rw [if_pos hinf]
    split
    · exact ⟨_, rfl⟩
    · exact ⟨_, rfl⟩

end ProtoST.Json

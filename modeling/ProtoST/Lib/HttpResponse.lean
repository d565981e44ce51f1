import Mathlib.Data.List.Basic
import Mathlib.Data.List.TakeWhile
import Mathlib.Tactic.Common

/-!
# HTTP responses

A response as a text, and how a client reads one: line by line, then a body of the size that the
fields announce.  A client that reads a text takes it for one response only if nothing of it is
missing and nothing is left over.

## Main results

* `read_eq_some_iff` — a client reads a response from the text that spells it, if it is well formed,
  and from no other text.
-/

namespace ProtoST.Lib.Http

abbrev Text := List Char

/-! ## Lines -/

def crlf : Text := ['\r', '\n']

/-- No line break. -/
def inLine (c : Char) : Bool := c ≠ '\r' && c ≠ '\n'

/-- The first line, and what follows it. -/
def takeLine (t : Text) : Option (Text × Text) :=
  match t.dropWhile inLine with
  | '\r' :: '\n' :: rest => some (t.takeWhile inLine, rest)
  | _ => none

theorem takeLine_append {line : Text} (h : ∀ c ∈ line, inLine c = true) (rest : Text) :
    takeLine (line ++ (crlf ++ rest)) = some (line, rest) := by
  unfold takeLine
  rw [List.dropWhile_append_of_pos h, List.takeWhile_append_of_pos h]
  show some (line ++ [], rest) = _
  rw [List.append_nil]

theorem takeLine_sound {t line rest : Text} (h : takeLine t = some (line, rest)) :
    t = line ++ (crlf ++ rest) := by
  unfold takeLine at h
  split at h
  · rename_i hdrop
    cases h
    have hsplit := List.takeWhile_append_dropWhile (p := inLine) (l := t)
    rw [hdrop] at hsplit
    exact hsplit.symm
  · cases h

/-! ## Fields -/

/-- A name and a value. -/
abbrev Field := Text × Text

def Field.text (f : Field) : Text := f.1 ++ (':' :: ' ' :: f.2)

def takeField (line : Text) : Option Field :=
  match line.dropWhile (· ≠ ':') with
  | ':' :: ' ' :: value => some (line.takeWhile (· ≠ ':'), value)
  | _ => none

theorem takeField_text {f : Field} (h : ∀ c ∈ f.1, c ≠ ':') : takeField f.text = some f := by
  have hname : ∀ c ∈ f.1, decide (c ≠ ':') = true := fun c hc => decide_eq_true (h c hc)
  unfold takeField Field.text
  rw [List.dropWhile_append_of_pos hname, List.takeWhile_append_of_pos hname]
  show some (f.1 ++ [], f.2) = _
  rw [List.append_nil]

theorem takeField_sound {line : Text} {f : Field} (h : takeField line = some f) :
    line = f.text := by
  unfold takeField at h
  split at h
  · rename_i hdrop
    cases h
    have hsplit := List.takeWhile_append_dropWhile (p := fun c => decide (c ≠ ':')) (l := line)
    rw [hdrop] at hsplit
    exact hsplit.symm
  · cases h

/-- The lines of the fields, and the empty line behind them. -/
def block (fields : List Field) : Text := fields.flatMap (fun f => f.text ++ crlf) ++ crlf

/-- The fields up to the empty line, and what follows it. -/
def takeFields : Nat → Text → Option (List Field × Text)
  | 0, _ => none
  | n + 1, t => do
    let (line, rest) ← takeLine t
    if line = [] then some ([], rest)
    else
      let field ← takeField line
      let (fields, rest) ← takeFields n rest
      some (field :: fields, rest)

theorem block_cons (f : Field) (fields : List Field) (body : Text) :
    block (f :: fields) ++ body = f.text ++ (crlf ++ (block fields ++ body)) := by
  unfold block
  rw [List.flatMap_cons]
  simp only [List.append_assoc]

theorem Field.text_ne_nil (f : Field) : f.text ≠ [] := by
  intro h
  cases (List.append_eq_nil_iff.mp h).2

theorem takeFields_block {fields : List Field} (hname : ∀ f ∈ fields, ∀ c ∈ f.1, c ≠ ':')
    (hline : ∀ f ∈ fields, ∀ c ∈ f.text, inLine c = true) (body : Text) {n : Nat}
    (hn : fields.length < n) : takeFields n (block fields ++ body) = some (fields, body) := by
  induction fields generalizing n with
  | nil =>
    cases n with
    | zero => cases hn
    | succ n =>
      have hfirst : takeLine ([] ++ (crlf ++ body)) = some ([], body) :=
        takeLine_append (fun c hc => by cases hc) body
      change takeLine (block [] ++ body) = some ([], body) at hfirst
      rw [takeFields, hfirst]
      rfl
  | cons f fields ih =>
    cases n with
    | zero => cases hn
    | succ n =>
      have hrest := ih (fun g hg => hname g (List.mem_cons_of_mem _ hg))
        (fun g hg => hline g (List.mem_cons_of_mem _ hg)) (Nat.lt_of_succ_lt_succ hn)
      have hfirst := takeLine_append (hline f List.mem_cons_self) (block fields ++ body)
      rw [takeFields, block_cons, hfirst]
      show (if f.text = [] then some ([], block fields ++ body) else _) = _
      rw [if_neg f.text_ne_nil, takeField_text (hname f List.mem_cons_self)]
      show (do
        let (fields, rest) ← takeFields n (block fields ++ body)
        some (f :: fields, rest)) = _
      rw [hrest]
      rfl

theorem takeFields_sound {n : Nat} {t body : Text} {fields : List Field}
    (h : takeFields n t = some (fields, body)) : t = block fields ++ body := by
  induction n generalizing t fields with
  | zero => cases h
  | succ n ih =>
    rw [takeFields] at h
    obtain ⟨⟨line, rest⟩, hline, h⟩ := Option.bind_eq_some_iff.mp h
    have ht := takeLine_sound hline
    dsimp only at h
    split at h
    · rename_i hempty
      cases h
      rw [ht, hempty]
      rfl
    · obtain ⟨f, hf, h⟩ := Option.bind_eq_some_iff.mp h
      obtain ⟨⟨fields', rest'⟩, hfields, h⟩ := Option.bind_eq_some_iff.mp h
      cases h
      rw [ht, takeField_sound hf, ih hfields, block_cons]

/-! ## Responses -/

structure Response where
  status : Text
  reason : Text
  fields : List Field
  body : Text
  deriving DecidableEq, Repr

def version : Text := "HTTP/1.1 ".toList

namespace Response

def statusLine (m : Response) : Text := version ++ (m.status ++ (' ' :: m.reason))

def text (m : Response) : Text := m.statusLine ++ (crlf ++ (block m.fields ++ m.body))

end Response

/-- A character of a value: no control character but a tab. -/
def fieldChar (c : Char) : Bool := c = '\t' || (32 ≤ c.toNat && c.toNat ≠ 127)

def delimiters : List Char :=
  ['(', ')', '<', '>', '@', ',', ';', ':', '\\', '\"', '/', '[', ']', '?', '=', '{', '}']

/-- A character of a name. -/
def tokenChar (c : Char) : Bool := 32 < c.toNat && c.toNat ≠ 127 && !delimiters.contains c

def isDigit (c : Char) : Bool := '0' ≤ c && c ≤ '9'

/-- The size of a text in UTF-8. -/
def byteSize : Text → Nat
  | [] => 0
  | c :: t => c.utf8Size + byteSize t

/-- Does the field have the name, in any case? -/
def Field.named (name : String) (f : Field) : Bool := f.1.map Char.toLower = name.toList

namespace Response

/-- A response without a body: to `HEAD`, or by its status. -/
def bodiless (head : Bool) (m : Response) : Bool :=
  head || m.status.head? = some '1' || m.status = ['2', '0', '4'] || m.status = ['3', '0', '4']

/-- The body has the size that the fields announce. -/
def Framed (head : Bool) (m : Response) : Prop :=
  if m.bodiless head then m.body = []
  else (∃ f ∈ m.fields, f.named "content-length") ∧
    ∀ f ∈ m.fields, f.named "content-length" → f.2 = (toString (byteSize m.body)).toList

structure WellFormed (head : Bool) (m : Response) : Prop where
  status : m.status.length = 3 ∧ ∀ c ∈ m.status, isDigit c = true
  reason : ∀ c ∈ m.reason, fieldChar c = true
  names : ∀ f ∈ m.fields, f.1 ≠ [] ∧ ∀ c ∈ f.1, tokenChar c = true
  values : ∀ f ∈ m.fields, ∀ c ∈ f.2, fieldChar c = true
  coding : ∀ f ∈ m.fields, f.named "transfer-encoding" = false
  framed : m.Framed head

instance (head : Bool) (m : Response) : Decidable (m.Framed head) :=
  inferInstanceAs (Decidable (ite _ _ _))

theorem wellFormed_iff (head : Bool) (m : Response) :
    (decide (m.status.length = 3) && m.status.all isDigit) = true ∧
      m.reason.all fieldChar = true ∧
      (m.fields.all fun f => decide (f.1 ≠ []) && f.1.all tokenChar) = true ∧
      (m.fields.all fun f => f.2.all fieldChar) = true ∧
      (m.fields.all fun f => !f.named "transfer-encoding") = true ∧ m.Framed head ↔
    m.WellFormed head := by
  simp only [List.all_eq_true, Bool.and_eq_true, decide_eq_true_eq, Bool.not_eq_true']
  exact ⟨fun ⟨hs, hr, hn, hv, hc, hf⟩ => ⟨hs, hr, hn, hv, hc, hf⟩,
    fun h => ⟨h.status, h.reason, h.names, h.values, h.coding, h.framed⟩⟩

instance (head : Bool) (m : Response) : Decidable (m.WellFormed head) :=
  decidable_of_iff _ (wellFormed_iff head m)

end Response

/-! ## Reading a response -/

def takeStatus (line : Text) : Option (Text × Text) :=
  if version.isPrefixOf line then
    match line.drop version.length with
    | a :: b :: c :: ' ' :: reason => some ([a, b, c], reason)
    | _ => none
  else none

/-- A client reads the text as one response, to `HEAD` or not. -/
def read (head : Bool) (t : Text) : Option Response := do
  let (line, rest) ← takeLine t
  let (status, reason) ← takeStatus line
  let (fields, body) ← takeFields t.length rest
  let m : Response := ⟨status, reason, fields, body⟩
  if m.WellFormed head then some m else none

theorem takeStatus_sound {line status reason : Text}
    (h : takeStatus line = some (status, reason)) : line =
      version ++ (status ++ (' ' :: reason)) := by
  unfold takeStatus at h
  split at h
  · rename_i hversion
    obtain ⟨rest, hrest⟩ := List.isPrefixOf_iff_prefix.mp hversion
    subst hrest
    rw [List.drop_left] at h
    split at h
    · cases h
      rfl
    · cases h
  · cases h

theorem takeStatus_statusLine {m : Response} (h : m.status.length = 3) :
    takeStatus m.statusLine = some (m.status, m.reason) := by
  have hprefix : version.isPrefixOf m.statusLine = true :=
    List.isPrefixOf_iff_prefix.mpr (List.prefix_append _ _)
  obtain ⟨a, b, c, hstatus⟩ := List.length_eq_three.mp h
  unfold takeStatus
  rw [if_pos hprefix, Response.statusLine, List.drop_left, hstatus]
  rfl

theorem inLine_of_fieldChar {c : Char} (h : fieldChar c = true) : inLine c = true := by
  unfold inLine
  rw [Bool.and_eq_true, decide_eq_true_eq, decide_eq_true_eq]
  constructor
  · rintro rfl
    cases h
  · rintro rfl
    cases h

theorem fieldChar_of_tokenChar {c : Char} (h : tokenChar c = true) : fieldChar c = true := by
  unfold tokenChar at h
  unfold fieldChar
  simp only [Bool.and_eq_true, Bool.or_eq_true, decide_eq_true_eq] at h ⊢
  exact .inr ⟨Nat.le_of_lt h.1.1, h.1.2⟩

theorem fieldChar_of_isDigit {c : Char} (h : isDigit c = true) : fieldChar c = true := by
  unfold isDigit at h
  unfold fieldChar
  simp only [Bool.and_eq_true, Bool.or_eq_true, decide_eq_true_eq] at h ⊢
  have hlow : 48 ≤ c.toNat := h.1
  have hhigh : c.toNat ≤ 57 := h.2
  omega

theorem ne_colon_of_tokenChar {c : Char} (h : tokenChar c = true) : c ≠ ':' := by
  rintro rfl
  cases h

namespace Response

variable {head : Bool} {m : Response}

theorem WellFormed.inLine_statusLine (h : m.WellFormed head) :
    ∀ c ∈ m.statusLine, inLine c = true := by
  have hversion : ∀ c ∈ version, inLine c = true := List.all_eq_true.mp (by decide +kernel)
  intro c hc
  rcases List.mem_append.mp hc with hc | hc
  · exact hversion c hc
  · rcases List.mem_append.mp hc with hc | hc
    · exact inLine_of_fieldChar (fieldChar_of_isDigit (h.status.2 c hc))
    · rcases List.mem_cons.mp hc with rfl | hc
      · rfl
      · exact inLine_of_fieldChar (h.reason c hc)

theorem WellFormed.inLine_field (h : m.WellFormed head) {f : Field} (hf : f ∈ m.fields) :
    ∀ c ∈ f.text, inLine c = true := by
  intro c hc
  apply inLine_of_fieldChar
  rcases List.mem_append.mp hc with hc | hc
  · exact fieldChar_of_tokenChar ((h.names f hf).2 c hc)
  · rcases List.mem_cons.mp hc with rfl | hc
    · rfl
    · rcases List.mem_cons.mp hc with rfl | hc
      · rfl
      · exact h.values f hf c hc

theorem length_le_block (fields : List Field) : fields.length ≤ (block fields).length := by
  induction fields with
  | nil => exact Nat.zero_le _
  | cons f fields ih =>
    have hcons := congrArg List.length (block_cons f fields [])
    simp only [List.append_nil, List.length_append, List.length_cons] at hcons ⊢
    have hcrlf : crlf.length = 2 := rfl
    omega

theorem length_fields_lt (m : Response) : m.fields.length < m.text.length := by
  have hblock := length_le_block m.fields
  have hcrlf : crlf.length = 2 := rfl
  unfold text
  simp only [List.length_append]
  omega

theorem WellFormed.read_text (h : m.WellFormed head) : read head m.text = some m := by
  have hfields : takeFields m.text.length (block m.fields ++ m.body) = some (m.fields, m.body) :=
    takeFields_block (fun f hf c hc => ne_colon_of_tokenChar ((h.names f hf).2 c hc))
      (fun f hf => h.inLine_field hf) m.body m.length_fields_lt
  have hline : takeLine m.text = some (m.statusLine, block m.fields ++ m.body) :=
    takeLine_append h.inLine_statusLine _
  unfold read
  rw [hline]
  show (do
    let (status, reason) ← takeStatus m.statusLine
    let (fields, body) ← takeFields m.text.length (block m.fields ++ m.body)
    let m : Response := ⟨status, reason, fields, body⟩
    if m.WellFormed head then some m else none) = _
  rw [takeStatus_statusLine h.status.1]
  show (do
    let (fields, body) ← takeFields m.text.length (block m.fields ++ m.body)
    let m : Response := ⟨m.status, m.reason, fields, body⟩
    if m.WellFormed head then some m else none) = _
  rw [hfields]
  exact if_pos h

end Response

/-- **One response.**  A client reads `m` from a text if and only if the text spells `m` and `m` is
well formed. -/
theorem read_eq_some_iff {head : Bool} {t : Text} {m : Response} :
    read head t = some m ↔ t = m.text ∧ m.WellFormed head := by
  constructor
  · intro h
    unfold read at h
    obtain ⟨⟨line, rest⟩, hline, h⟩ := Option.bind_eq_some_iff.mp h
    obtain ⟨⟨status, reason⟩, hstatus, h⟩ := Option.bind_eq_some_iff.mp h
    obtain ⟨⟨fields, body⟩, hfields, h⟩ := Option.bind_eq_some_iff.mp h
    dsimp only at h
    split at h
    · rename_i hwell
      cases h
      refine ⟨?_, hwell⟩
      rw [takeLine_sound hline, takeStatus_sound hstatus, takeFields_sound hfields]
      rfl
    · cases h
  · rintro ⟨rfl, hwell⟩
    exact hwell.read_text

end ProtoST.Lib.Http

import ProtoST.Http.ConnectionRuns

/-!
# What a connection of the HTTP server answers

However a connection goes, the handler is evaluated with a request within the bounds, at most once
unless an error of its own retries it, and the socket is closed when the connection ends.  While the
socket does not fail, what the client sent and what the objects of the program answer decide whether
a whole request is answered by one whole response.

## Main definitions

* `Answered` — the connection ends, the handler has a request as its headers announce it, and the
  client one response.
* `Fit` — the parts of a response that can be sent.

## Main results

* `handle_answers_iff` — when a connection is answered so.
-/

namespace ProtoST.Http.Server

open ProtoST.Uri ProtoST.Lib
open ProtoST.Lib.Http (Response byteSize fieldChar read read_eq_some_iff tokenChar)

variable {W O : Type}

/-! ## The request -/

/-- The header lines, up to the empty one or to the end. -/
inductive HeaderBlock (io : ProtoIO) : Bytes → List Bytes → Bytes → Prop
  | ended {input : Bytes} (h : io.readLine maxLine input = .ended) : HeaderBlock io input [] input
  | blank {input line rest : Bytes} (h : io.readLine maxLine input = .line line rest)
      (hempty : io.string line = []) : HeaderBlock io input [] rest
  | more {input line rest : Bytes} {lines : List Bytes} {last : Bytes}
      (h : io.readLine maxLine input = .line line rest) (hline : io.string line ≠ [])
      (hrest : HeaderBlock io rest lines last) : HeaderBlock io input (line :: lines) last

variable {io : ProtoIO}

theorem HeaderBlock.unique {input last last' : Bytes} {lines lines' : List Bytes}
    (h : HeaderBlock io input lines last) (h' : HeaderBlock io input lines' last') :
    lines = lines' ∧ last = last' := by
  induction h generalizing lines' with
  | ended hread =>
    cases h' with
    | ended => exact ⟨rfl, rfl⟩
    | blank hread' => cases hread.symm.trans hread'
    | more hread' => cases hread.symm.trans hread'
  | blank hread hempty =>
    cases h' with
    | ended hread' => cases hread.symm.trans hread'
    | blank hread' =>
      cases hread.symm.trans hread'
      exact ⟨rfl, rfl⟩
    | more hread' hline =>
      cases hread.symm.trans hread'
      exact absurd hempty hline
  | more hread hline hrest ih =>
    cases h' with
    | ended hread' => cases hread.symm.trans hread'
    | blank hread' hempty =>
      cases hread.symm.trans hread'
      exact absurd hempty hline
    | more hread' hline' hrest' =>
      cases hread.symm.trans hread'
      obtain ⟨rfl, rfl⟩ := ih hrest'
      exact ⟨rfl, rfl⟩

def addLines (io : ProtoIO) (d : Dictionary) (lines : List Bytes) : Dictionary :=
  lines.foldl (fun d line => addHeader d (io.string line)) d

theorem headerBlock_eq_some {left : Nat} {d d' : Dictionary} {input rest : Bytes}
    (h : headerBlock io left d input = some (d', rest)) :
    ∃ lines, HeaderBlock io input lines rest ∧ (∀ l ∈ lines, l.length ≤ maxLine) ∧
      lines.length ≤ left ∧ d' = addLines io d lines := by
  have hended : ∀ {left : Nat} {d : Dictionary} {input rest : Bytes},
      HeaderBlock io input [] rest → ∃ lines, HeaderBlock io input lines rest ∧
        (∀ l ∈ lines, l.length ≤ maxLine) ∧ lines.length ≤ left ∧ d = addLines io d lines :=
    fun hblock => ⟨[], hblock, fun l hl => (by cases hl), Nat.zero_le _, rfl⟩
  induction left generalizing d input with
  | zero =>
    unfold headerBlock at h
    cases hread : io.readLine maxLine input with
    | tooLong =>
      rw [hread] at h
      cases h
    | ended =>
      rw [hread] at h
      cases h
      exact hended (.ended hread)
    | line line rest' =>
      rw [hread] at h
      dsimp only at h
      cases hstring : io.string line with
      | nil =>
        rw [hstring] at h
        cases h
        exact hended (.blank hread hstring)
      | cons c cs =>
        rw [hstring] at h
        cases h
  | succ left ih =>
    unfold headerBlock at h
    cases hread : io.readLine maxLine input with
    | tooLong =>
      rw [hread] at h
      cases h
    | ended =>
      rw [hread] at h
      cases h
      exact hended (.ended hread)
    | line line rest' =>
      rw [hread] at h
      dsimp only at h
      cases hstring : io.string line with
      | nil =>
        rw [hstring] at h
        cases h
        exact hended (.blank hread hstring)
      | cons c cs =>
        rw [hstring] at h
        obtain ⟨lines, hblock, hbound, hcount, rfl⟩ := ih h
        have hline : io.string line ≠ [] := by
          rw [hstring]
          exact List.cons_ne_nil c cs
        refine ⟨line :: lines, .more hread hline hblock, fun l hl => ?_,
          Nat.succ_le_succ hcount, ?_⟩
        · rcases List.mem_cons.mp hl with rfl | hl
          · exact io.readLine_le hread (by decide)
          · exact hbound l hl
        · unfold addLines
          rw [List.foldl_cons, hstring]

/-- The first line and the header lines of a request, within the bounds; `rest` follows them. -/
structure Head (io : ProtoIO) (input : Bytes) (headers : Dictionary) (rest : Bytes) : Prop where
  lines : ∃ first afterFirst lines, io.readLine maxLine input = .line first afterFirst ∧
    first.length ≤ maxLine ∧ HeaderBlock io afterFirst lines rest ∧
      (∀ l ∈ lines, l.length ≤ maxLine) ∧ lines.length ≤ maxHeaderLines ∧
        headers = addLines io [] lines

/-- The body that the headers announce, of what follows them. -/
def Announced (io : ProtoIO) (max : Nat) (headers : Dictionary) (input body : Bytes) : Prop :=
  if isChunked headers then ∃ rest, io.readChunked max input = .body body rest true
  else
    match contentLengthIn headers with
    | .error _ => False
    | .ok none => body = []
    | .ok (some len) => body <+: input ∧ body.length = len

/-- The parts of a request passed the bounds. -/
def Bounded (io : ProtoIO) (max : Nat) (input : Bytes) (r : HTTPRequest) : Prop :=
  ∃ rest body, Head io input r.headers rest ∧ (0 < max → body.length ≤ max) ∧
    r.body = io.string body

/-- They did, and the body is the one that the headers announce. -/
def Admitted (io : ProtoIO) (max : Nat) (input : Bytes) (r : HTTPRequest) : Prop :=
  ∃ rest body, Head io input r.headers rest ∧ (0 < max → body.length ≤ max) ∧
    Announced io max r.headers rest body ∧ r.body = io.fromUTF8 body

variable {max : Nat}

theorem bodyRead_ok {d : Dictionary} {input bytes : Bytes}
    {arrived : Bool} (h : bodyRead io max d input = .ok (bytes, arrived)) :
    (0 < max → bytes.length ≤ max) ∧
      ∀ body, Announced io max d input body ↔ arrived = true ∧ body = bytes := by
  unfold bodyRead at h
  unfold Announced
  by_cases hchunked : isChunked d = true
  · rw [if_pos hchunked] at h
    simp only [if_pos hchunked]
    unfold chunkedBody at h
    split at h
    · cases h
    · cases h
    · rename_i rest whole hread
      cases h
      refine ⟨io.readChunked_le hread, fun body => ⟨?_, ?_⟩⟩
      · rintro ⟨rest', hread'⟩
        cases hread.symm.trans hread'
        exact ⟨rfl, rfl⟩
      · rintro ⟨rfl, rfl⟩
        exact ⟨rest, hread⟩
  · rw [if_neg hchunked] at h
    simp only [if_neg hchunked]
    cases hlength : contentLengthIn d with
    | error text =>
      rw [hlength] at h
      cases h
    | ok announced =>
      rw [hlength] at h
      cases announced with
      | none =>
        cases h
        exact ⟨fun _ => Nat.zero_le _, fun body =>
          ⟨fun hbody => ⟨rfl, hbody⟩, fun hbody => hbody.2⟩⟩
      | some len =>
        dsimp only at h ⊢
        split at h
        · cases h
        · rename_i hbound
          cases h
          refine ⟨fun hmax => ?_, fun body => ⟨?_, ?_⟩⟩
          · have hlen : len ≤ max := Nat.le_of_not_lt fun hlt => hbound ⟨hmax, hlt⟩
            exact Nat.le_trans (List.length_take_le len input) hlen
          · rintro ⟨hstart, hlen⟩
            refine ⟨decide_eq_true (hlen ▸ hstart.length_le), ?_⟩
            rw [List.prefix_iff_eq_take.mp hstart, hlen]
          · rintro ⟨harrived, rfl⟩
            exact ⟨List.take_prefix len input, List.length_take_of_le (of_decide_eq_true harrived)⟩

variable {input : Bytes} {r : HTTPRequest} {whole : Bool}

/-- What a request was made of. -/
theorem received_request (h : received io max input = .request r whole) :
    ∃ rest bytes arrived, Head io input r.headers rest ∧
      bodyRead io max r.headers rest = .ok (bytes, arrived) ∧ r.body = io.string bytes ∧
        whole = (arrived && decide (io.string bytes = io.fromUTF8 bytes)) := by
  unfold received at h
  cases hread : io.readLine maxLine input with
  | tooLong =>
    rw [hread] at h
    cases h
  | ended =>
    rw [hread] at h
    cases h
  | line first afterFirst =>
    rw [hread] at h
    dsimp only at h
    split at h
    · cases h
    split at h
    · unfold receivedRequest at h
      split at h
      · cases h
      · rename_i headers rest hblock
        split at h
        · cases h
        · rename_i bytes arrived hbody
          cases h
          obtain ⟨lines, hlines, hbound, hcount, hheaders⟩ := headerBlock_eq_some hblock
          refine ⟨rest, bytes, arrived,
            ⟨first, afterFirst, lines, hread, ?_, hlines, hbound, hcount,
            hheaders⟩, hbody, rfl, rfl⟩
          exact io.readLine_le hread (by decide)
    · cases h

theorem bounded_of_received
    (h : received io max input = .request r whole) : Bounded io max input r := by
  obtain ⟨rest, bytes, arrived, hhead, hbody, hr, -⟩ := received_request h
  exact ⟨rest, bytes, hhead, (bodyRead_ok hbody).1, hr⟩

theorem Head.unique {input rest rest' : Bytes} {headers headers' : Dictionary}
    (h : Head io input headers rest) (h' : Head io input headers' rest') : rest = rest' := by
  obtain ⟨first, afterFirst, lines, hread, -, hlines, -⟩ := h.lines
  obtain ⟨first', afterFirst', lines', hread', -, hlines', -⟩ := h'.lines
  cases hread.symm.trans hread'
  exact (hlines.unique hlines').2

/-- A request is admitted if and only if it arrived whole. -/
theorem admitted_iff (h : received io max input = .request r whole) :
    Admitted io max input r ↔ whole = true := by
  obtain ⟨rest, bytes, arrived, hhead, hbody, hr, rfl⟩ := received_request h
  obtain ⟨hbound, hannounced⟩ := bodyRead_ok hbody
  rw [Bool.and_eq_true, decide_eq_true_eq]
  constructor
  · rintro ⟨rest', body, hhead', -, hbody', hr'⟩
    cases hhead.unique hhead'
    obtain ⟨harrived, rfl⟩ := (hannounced body).mp hbody'
    exact ⟨harrived, hr.symm.trans hr'⟩
  · rintro ⟨harrived, hstring⟩
    exact ⟨rest, bytes, hhead, hbound, (hannounced bytes).mpr ⟨harrived, rfl⟩, hr.trans hstring⟩

/-! ## The response -/

/-- The codes that refuse a request. -/
def refusalCodes : List Nat := [400, 413, 414, 431]

theorem received_refused {head : Bool} {aCode : Nat}
    (h : received io max input = .refused head aCode) : aCode ∈ refusalCodes := by
  unfold received at h
  split at h
  · cases h
    decide
  · cases h
  · split at h
    · cases h
    split at h
    · unfold receivedRequest at h
      split at h
      · cases h
        decide
      · split at h
        · cases h
          unfold bodyCode
          split <;> decide
        · cases h
    · cases h
      decide

/-- A refusal is a response, but not to `HEAD`. -/
theorem refusal_wellFormed : ∀ aCode ∈ refusalCodes, ∀ head : Bool,
    (refusal aCode).WellFormed head ↔ head = false := by
  decide +kernel

/-- The parts of a response, as the objects of the program answer them, can be sent. -/
structure Fit (head : Bool) (p : Response) : Prop where
  status : p.status.length = 3 ∧ ∀ c ∈ p.status, Http.isDigit c = true
  reason : ∀ c ∈ p.reason, fieldChar c = true
  names : ∀ f ∈ p.fields, f.1 ≠ [] ∧ ∀ c ∈ f.1, tokenChar c = true
  values : ∀ f ∈ p.fields, ∀ c ∈ f.2, fieldChar c = true
  coding : ∀ f ∈ p.fields, f.named "transfer-encoding" = false
  empty : p.bodiless head = true → p.body = []
  length : p.bodiless head = false → ∀ f ∈ p.fields, f.named "content-length" →
    f.2 = (toString (byteSize p.body)).toList

instance (head : Bool) (p : Response) : Decidable (Fit head p) :=
  decidable_of_iff ((p.status.length = 3 ∧ p.status.all Http.isDigit = true) ∧
      p.reason.all fieldChar = true ∧
      (∀ f ∈ p.fields, f.1 ≠ [] ∧ f.1.all tokenChar = true) ∧
      (∀ f ∈ p.fields, f.2.all fieldChar = true) ∧
      (∀ f ∈ p.fields, f.named "transfer-encoding" = false) ∧
      (p.bodiless head = true → p.body = []) ∧
      (p.bodiless head = false → ∀ f ∈ p.fields, f.named "content-length" →
        f.2 = (toString (byteSize p.body)).toList))
    ⟨fun ⟨hs, hr, hn, hv, hc, he, hl⟩ => ⟨⟨hs.1, List.all_eq_true.mp hs.2⟩,
        List.all_eq_true.mp hr, fun f hf => ⟨(hn f hf).1, List.all_eq_true.mp (hn f hf).2⟩,
        fun f hf => List.all_eq_true.mp (hv f hf), hc, he, hl⟩,
      fun h => ⟨⟨h.status.1, List.all_eq_true.mpr h.status.2⟩, List.all_eq_true.mpr h.reason,
        fun f hf => ⟨(h.names f hf).1, List.all_eq_true.mpr (h.names f hf).2⟩,
        fun f hf => List.all_eq_true.mpr (h.values f hf), h.coding, h.empty, h.length⟩⟩

theorem fieldChar_of_mem_toString {n : Nat} {c : Char} (h : c ∈ (toString n).toList) :
    fieldChar c = true := by
  have hdigits : (toString n).toList = Nat.toDigits 10 n := Nat.toList_repr
  rw [hdigits] at h
  have hdigit := Nat.isDigit_of_mem_toDigits (by decide) (by decide) h
  unfold Char.isDigit at hdigit
  rw [Bool.and_eq_true, decide_eq_true_eq, decide_eq_true_eq] at hdigit
  exact Http.fieldChar_of_isDigit (by
    unfold Lib.Http.isDigit
    rw [Bool.and_eq_true, decide_eq_true_eq, decide_eq_true_eq]
    exact hdigit)

/-- The lines that the server adds are well formed. -/
theorem framed_fields (p : Response) {P : Http.Field → Prop}
    (hlength : P ("content-length".toList, (toString (byteSize p.body)).toList))
    (hconnection : P ("connection".toList, "close".toList)) :
    (∀ f ∈ (framed p).fields, P f) ↔ ∀ f ∈ p.fields, P f := by
  unfold framed
  rw [List.forall_mem_append]
  refine and_iff_left fun f hf => ?_
  rcases List.mem_cons.mp hf with rfl | hf
  · exact hlength
  · rw [List.mem_singleton.mp hf]
    exact hconnection

/-- **A response is well formed** if and only if its parts are fit. -/
theorem framed_wellFormed_iff (head : Bool) (p : Response) :
    (framed p).WellFormed head ↔ Fit head p := by
  have htoken : ∀ name ∈ ["content-length".toList, "connection".toList],
      name ≠ [] ∧ name.all tokenChar = true := by
    decide
  have hnamed : ("content-length".toList.map Char.toLower = "content-length".toList ∧
      "content-length".toList.map Char.toLower ≠ "transfer-encoding".toList) ∧
        "connection".toList.map Char.toLower ≠ "content-length".toList := by
    decide
  have hnames := framed_fields p (P := fun f => f.1 ≠ [] ∧ ∀ c ∈ f.1, tokenChar c = true)
    ((htoken _ List.mem_cons_self).imp_right List.all_eq_true.mp)
    ((htoken _ (List.mem_cons_of_mem _ List.mem_cons_self)).imp_right List.all_eq_true.mp)
  have hvalues := framed_fields p (P := fun f => ∀ c ∈ f.2, fieldChar c = true)
    (fun c hc => fieldChar_of_mem_toString hc) (List.all_eq_true.mp (by decide))
  have hcoding := framed_fields p (P := fun f => f.named "transfer-encoding" = false)
    (decide_eq_false hnamed.1.2) (by decide)
  have hsizes := framed_fields p (P := fun f => f.named "content-length" →
    f.2 = (toString (byteSize p.body)).toList) (fun _ => rfl)
    (fun h => absurd (of_decide_eq_true h) hnamed.2)
  have hbodiless : (framed p).bodiless head = p.bodiless head := rfl
  have hbody : (framed p).body = p.body := rfl
  have hannounced : ∃ f ∈ (framed p).fields, f.named "content-length" = true :=
    ⟨_, List.mem_append_right _ List.mem_cons_self, decide_eq_true hnamed.1.1⟩
  constructor
  · intro h
    have hframed := h.framed
    unfold Response.Framed at hframed
    rw [hbodiless, hbody] at hframed
    refine ⟨h.status, h.reason, hnames.mp h.names, hvalues.mp h.values, hcoding.mp h.coding,
      fun hless => ?_, fun hfull => ?_⟩
    · rwa [if_pos hless] at hframed
    · rw [if_neg (by rw [hfull]; exact Bool.false_ne_true)] at hframed
      exact hsizes.mp hframed.2
  · intro h
    refine ⟨h.status, h.reason, hnames.mpr h.names, hvalues.mpr h.values, hcoding.mpr h.coding, ?_⟩
    unfold Response.Framed
    rw [hbodiless, hbody]
    split
    · rename_i hless
      exact h.empty hless
    · rename_i hfull
      exact ⟨hannounced, hsizes.mpr (h.length (Bool.eq_false_iff.mpr hfull))⟩

/-- A request line arrived. -/
def LineArrived (io : ProtoIO) (input : Bytes) : Prop :=
  io.readLine maxLine input = .tooLong ∨
    ∃ line rest, io.readLine maxLine input = .line line rest ∧ io.string line ≠ []

theorem received_eq_nothing_iff (io : ProtoIO) (max : Nat) (input : Bytes) :
    received io max input = .nothing ↔ ¬ LineArrived io input := by
  unfold received LineArrived
  cases hread : io.readLine maxLine input with
  | tooLong => exact ⟨fun h => (by cases h), fun h => absurd (Or.inl rfl) h⟩
  | ended =>
    refine ⟨fun _ h => ?_, fun _ => rfl⟩
    rcases h with h | ⟨line, rest, h, -⟩ <;> cases h
  | line line rest =>
    dsimp only
    cases hstring : io.string line with
    | nil =>
      refine ⟨fun _ h => ?_, fun _ => rfl⟩
      rcases h with h | ⟨line', rest', h, hline⟩
      · cases h
      · cases h
        exact hline hstring
    | cons c cs =>
      refine ⟨fun h => ?_, fun h => absurd (.inr ⟨line, rest, rfl, ?_⟩) h⟩
      · dsimp only at h
        split at h
        · unfold receivedRequest at h
          split at h
          · cases h
          · split at h <;> cases h
        · cases h
      · rw [hstring]
        exact List.cons_ne_nil c cs

/-- What holds of every connection, for so many evaluations.  The request is admitted if its body
arrives whole. -/
structure Guarded (C : Connection W O) (world : W) (input : Bytes)
    (e : Option (Outcome O Unit) × State W) : Prop where
  closed : e.1 ≠ none → e.2.closed = true
  bounded : ∀ r ∈ e.2.evaluated, Bounded C.io C.maxBody input r
  admitted : (∀ r whole, received C.io C.maxBody input = .request r whole → whole = true) →
    ∀ r ∈ e.2.evaluated, Admitted C.io C.maxBody input r
  once : (∀ r whole, received C.io C.maxBody input = .request r whole →
    ¬ Retries C.objects r world) → e.2.evaluated.length ≤ 1

/-- The response that what was received calls for. -/
inductive CalledFor (X : Objects W O) (world : W) : Received → Response → Prop
  | refusal {head : Bool} {aCode : Nat} : CalledFor X world (.refused head aCode) (refusal aCode)
  | reply {r : HTTPRequest} {whole : Bool} {p : Response} (h : Replies X r world p) :
      CalledFor X world (.request r whole) (framed p)

/-- The connection ends; the handler has the request as its headers announce it, if it is evaluated;
and the client, unless it sent no request line, reads the response that is called for, and nothing
after it. -/
structure Answered (C : Connection W O) (world : W) (input : Bytes)
    (e : Option (Outcome O Unit) × State W) : Prop where
  ended : e.1 ≠ none
  closed : e.2.closed = true
  once : e.2.evaluated.length ≤ 1
  admitted : ∀ r ∈ e.2.evaluated, Admitted C.io C.maxBody input r
  written : e.2.output = [] ∧ ¬ LineArrived C.io input ∨
    ∃ m, CalledFor C.objects world (received C.io C.maxBody input) m ∧
      read (received C.io C.maxBody input).head e.2.output = some m

/-- The condition: a refused request is not a `HEAD`; a request arrives whole, and the objects of
the program come to the parts of a response that can be sent. -/
def Answerable (C : Connection W O) (world : W) (input : Bytes) : Prop :=
  match received C.io C.maxBody input with
  | .nothing => True
  | .refused head _ => head = false
  | .request r whole => whole = true ∧
      ∃ p, Replies C.objects r world p ∧ Fit (isHead r.method) p

/-! ## A connection -/

variable {C : Connection W O}

theorem handle_eq (C : Connection W O) (n : Nat) (s : State W) :
    (handle C n s).2.evaluated = (serve C n s).2.evaluated ∧
      (handle C n s).2.output = (serve C n s).2.output ∧
      (handle C n s).2.operations = (serve C n s).2.operations ∧
      ((handle C n s).1 ≠ none → (handle C n s).2.closed = true) := by
  unfold handle
  rcases serve C n s with ⟨o | _ | _, t⟩
  · exact ⟨rfl, rfl, rfl, fun _ => rfl⟩
  · exact ⟨rfl, rfl, rfl, fun _ => rfl⟩
  · exact ⟨rfl, rfl, rfl, fun h => absurd rfl h⟩

theorem handle_ne_none {n : Nat} {s : State W} (h : (serve C n s).1 ≠ .running) :
    (handle C n s).1 ≠ none := by
  unfold handle
  rcases hserve : serve C n s with ⟨o | _ | _, t⟩
  · exact fun heq => by cases heq
  · exact fun heq => by cases heq
  · rw [hserve] at h
    exact absurd rfl h

theorem guarded_handle (C : Connection W O) (world : W) (input : Bytes) (n : Nat) :
    Guarded C world input (handle C n (accepted world input)) := by
  obtain ⟨heq, -, -, hclosed⟩ := handle_eq C n (accepted world input)
  rcases evaluated_serve (C := C) n (accepted world input) with
    hnone | ⟨r, whole, k, hreceived, hevaluated, honce⟩
  · have hempty : (handle C n (accepted world input)).2.evaluated = [] := heq.trans hnone
    refine ⟨hclosed, fun r hr => ?_, fun _ r hr => ?_, fun _ => ?_⟩
    · rw [hempty] at hr
      cases hr
    · rw [hempty] at hr
      cases hr
    · rw [hempty]
      exact Nat.zero_le 1
  · have hall : (handle C n (accepted world input)).2.evaluated = List.replicate k r :=
      heq.trans hevaluated
    refine ⟨hclosed, fun r' hr => ?_, fun hwhole r' hr => ?_, fun hno => ?_⟩
    · rw [hall] at hr
      cases (List.mem_replicate.mp hr).2
      exact bounded_of_received hreceived
    · rw [hall] at hr
      cases (List.mem_replicate.mp hr).2
      exact (admitted_iff hreceived).mpr (hwhole _ _ hreceived)
    · rw [hall, List.length_replicate]
      exact honce (hno _ _ hreceived)

/-- A connection without a request has ended, with its text, if the socket does not fail. -/
theorem handle_of_ended {world : W} {text : Text} (n : Nat)
    (hsocket : ¬ Failed C (handle C n (accepted world input)).2)
    (hends : Ends C (receive C) (accepted world input)
      (Ended text (accepted world input))) :
    (handle C n (accepted world input)).1 ≠ none ∧
      (handle C n (accepted world input)).2.output = text ∧
      (handle C n (accepted world input)).2.evaluated = [] := by
  obtain ⟨hevaluated, houtput, hoperations, -⟩ := handle_eq C n (accepted world input)
  have hserve : ¬ Failed C (serve C n (accepted world input)).2 := fun ⟨k, hk, hfault⟩ =>
    hsocket ⟨k, hoperations ▸ hk, hfault⟩
  obtain ⟨hexit, hwrites⟩ := hends.resolve_right fun hfails =>
    hserve (hfails.1.mono (operations_receive_le n _))
  have hstate := serve_of_unanswered (n := n) fun r hr => by rw [hexit] at hr; cases hr
  have hreturned : (serve C n (accepted world input)).1 = .returned := by
    have heq : receive C (accepted world input) = (.returned, _) := Prod.ext hexit rfl
    show (Act.andThen (receive C) _ _).1 = _
    unfold Act.andThen
    rw [heq]
  refine ⟨handle_ne_none (by rw [hreturned]; exact fun heq => by cases heq), ?_, ?_⟩
  · rw [houtput, hstate]
    exact hwrites.output
  · rw [hevaluated, hstate]
    exact (steady_receive (C := C) (accepted world input)).evaluated

/-- A connection with a request that the objects reply to ends with the response. -/
theorem handle_of_replies {world : W}
    {p : Response} (hsocket : ∀ n, ¬ Failed C (handle C n (accepted world input)).2)
    (hreceived : received C.io C.maxBody input = .request r whole)
    (h : Replies C.objects r world p) :
    ∃ n, (handle C n (accepted world input)).1 ≠ none ∧
      (handle C n (accepted world input)).2.output = (framed p).text ∧
      (handle C n (accepted world input)).2.evaluated = [r] := by
  have hserve : ∀ n, ¬ Failed C (serve C n (accepted world input)).2 := fun n ⟨k, hk, hfault⟩ =>
    hsocket n ⟨k, (handle_eq C n _).2.2.1 ▸ hk, hfault⟩
  have hends := (ends_receive (C := C) (accepted world input)).resolve_right fun hfails =>
    hserve 0 (hfails.1.mono (operations_receive_le 0 _))
  have hrequest : received C.io C.maxBody (accepted world input).input = .request r whole :=
    hreceived
  rw [hrequest] at hends
  obtain ⟨r', hanswered, rfl, hwrites⟩ := hends
  have hworld : (receive C (accepted world input)).2.world = world := hwrites.world
  rw [← hworld] at h
  obtain ⟨m, hm⟩ := ends_serveRequest h
  obtain ⟨hevaluated, w, hserves⟩ := hm (m + 1) (Nat.lt_succ_self m)
  have heq := serve_of_answered (n := m + 1) hanswered
  have hfailed := hserve (m + 1)
  rw [heq] at hfailed
  obtain ⟨a, ha, hwritten⟩ := hserves.resolve_right fun hfails => hfailed hfails.1
  obtain ⟨hevaluated', houtput', -, -⟩ := handle_eq C (m + 1) (accepted world input)
  refine ⟨m + 1, handle_ne_none ?_, ?_, ?_⟩
  · rw [heq, ha]
    exact fun hrunning => by cases hrunning
  · rw [houtput', heq, hwritten.output, hwrites.output]
    rfl
  · rw [hevaluated', heq, hevaluated, (steady_receive (C := C) (accepted world input)).evaluated]
    rfl

/-- **Every connection** is guarded, and while its socket does not fail it is answered if and only
if what was sent can be answered. -/
theorem handle_answers_iff (C : Connection W O) (world : W) (input : Bytes) :
    (∀ n, Guarded C world input (handle C n (accepted world input))) ∧
      ((∀ n, ¬ Failed C (handle C n (accepted world input)).2) →
        ((∃ n, Answered C world input (handle C n (accepted world input))) ↔
          Answerable C world input)) := by
  refine ⟨guarded_handle C world input, fun hsocket => ?_⟩
  have hends := ends_receive (C := C) (accepted world input)
  have hinput : (accepted world input).input = input := rfl
  have hline := received_eq_nothing_iff C.io C.maxBody input
  rw [hinput] at hends
  unfold Answerable
  cases hreceived : received C.io C.maxBody input with
  | nothing =>
    rw [hreceived] at hends
    obtain ⟨hended, houtput, hevaluated⟩ := handle_of_ended 0 (hsocket 0) hends
    refine iff_of_true ⟨0, hended, (guarded_handle C world input 0).closed hended, ?_,
      fun r hr => ?_, .inl ⟨houtput, hline.mp hreceived⟩⟩ trivial
    · rw [hevaluated]
      exact Nat.zero_le 1
    · rw [hevaluated] at hr
      cases hr
  | refused head aCode =>
    rw [hreceived] at hends
    have hwell := refusal_wellFormed aCode (received_refused hreceived) head
    have harrived : ¬ ¬ LineArrived C.io input := by
      rw [← hline, hreceived]
      exact fun h => by cases h
    constructor
    · rintro ⟨n, hanswered⟩
      rcases hanswered.written with ⟨-, hnone⟩ | ⟨m, hm, hread⟩
      · exact absurd hnone harrived
      · rw [hreceived] at hm hread
        cases hm
        exact hwell.mp (read_eq_some_iff.mp hread).2
    · intro hhead
      obtain ⟨hended, houtput, hevaluated⟩ := handle_of_ended 0 (hsocket 0) hends
      refine ⟨0, hended, (guarded_handle C world input 0).closed hended, ?_, fun r hr => ?_,
        .inr ⟨refusal aCode, ?_, ?_⟩⟩
      · rw [hevaluated]
        exact Nat.zero_le 1
      · rw [hevaluated] at hr
        cases hr
      · rw [hreceived]
        exact .refusal
      · rw [hreceived]
        exact read_eq_some_iff.mpr ⟨houtput, hwell.mpr hhead⟩
  | request r whole =>
    have hadmitted := admitted_iff hreceived
    have harrived : ¬ ¬ LineArrived C.io input := by
      rw [← hline, hreceived]
      exact fun h => by cases h
    constructor
    · rintro ⟨n, hanswered⟩
      rcases hanswered.written with ⟨-, hnone⟩ | ⟨m, hm, hread⟩
      · exact absurd hnone harrived
      · rw [hreceived] at hm hread
        cases hm with
        | reply hreplies =>
          obtain ⟨k, hended, -, hevaluated⟩ := handle_of_replies hsocket hreceived hreplies
          have hr : r ∈ (handle C n (accepted world input)).2.evaluated := by
            rw [handle_unique hanswered.ended hended, hevaluated]
            exact List.mem_singleton_self r
          refine ⟨hadmitted.mp (hanswered.admitted r hr), _, hreplies, ?_⟩
          exact (framed_wellFormed_iff _ _).mp (read_eq_some_iff.mp hread).2
    · rintro ⟨hwhole, p, hreplies, hfit⟩
      obtain ⟨n, hended, houtput, hevaluated⟩ := handle_of_replies hsocket hreceived hreplies
      refine ⟨n, hended, (guarded_handle C world input n).closed hended, ?_, fun r' hr' => ?_,
        .inr ⟨framed p, ?_, ?_⟩⟩
      · rw [hevaluated]
        exact Nat.le_refl 1
      · rw [hevaluated] at hr'
        cases List.mem_singleton.mp hr'
        exact hadmitted.mpr hwhole
      · rw [hreceived]
        exact .reply hreplies
      · rw [hreceived]
        exact read_eq_some_iff.mpr ⟨houtput, (framed_wellFormed_iff _ _).mpr hfit⟩

/-! ## Some connections -/

/-- The line without the CR at its end. -/
def stripCR (line : Bytes) : Bytes := if line.getLast? = some 13 then line.dropLast else line

/-- A line as far as LF. -/
def readLine (max : Nat) (input : Bytes) : LineRead :=
  if input = [] then .ended
  else if 0 < max ∧ max < (stripCR (input.takeWhile (· ≠ 10))).length then .tooLong
  else .line (stripCR (input.takeWhile (· ≠ 10))) (input.dropWhile (· ≠ 10)).tail

theorem readLine_le {input bytes rest : Bytes}
    (h : readLine max input = .line bytes rest) (hmax : 0 < max) : bytes.length ≤ max := by
  unfold readLine at h
  split at h
  · cases h
  split at h
  · cases h
  · rename_i hlong
    cases h
    exact Nat.le_of_not_lt fun hlt => hlong ⟨hmax, hlt⟩

def asciiIO : ProtoIO where
  fromUTF8 bytes := bytes.map fun b => Char.ofNat b.toNat
  readLine := readLine
  readChunked _ _ := .malformed
  percentDecode s := s.map fun c => UInt8.ofNat c.toNat
  what _ := []
  peerName := "127.0.0.1:9".toList
  fromUTF8_nil := rfl
  readLine_le := readLine_le
  readChunked_le h := by cases h

/-- A handler block, with an error that retries it; the response that is an object has the
body 42. -/
def handling {W : Type} (handler : Send W Nat (Result Nat)) : Connection W Nat where
  io := asciiIO
  objects :=
    { handler := fun _ => handler
      result := .other
      stringify := fun _ => pure "42".toList
      messageText := fun _ w => (.retry, w)
      status := fun _ => pure "200".toList
      reason := fun _ => pure "OK".toList
      headers := fun _ => pure []
      body := fun o => pure (.object o)
      displayString := fun _ => pure []
      checkName := fun _ => pure ()
      nameText := fun _ => pure []
      report := fun _ => pure () }
  maxBody := 67108864
  fault := fun _ => none
  written := fun _ => 0

/-- A handler that answers `result`. -/
def answering (result : Result Nat) : Connection Unit Nat := handling (pure result)

/-- A handler that signals an error, and answers nil when it is evaluated once more. -/
def failingOnce : Connection Nat Nat :=
  handling fun n => if n = 0 then (.raised .error (.object 7), 1) else (.answered .nil, n)

theorem not_failed_handling {W : Type} (handler : Send W Nat (Result Nat)) (t : State W) :
    ¬ Failed (handling handler) t := fun ⟨_, _, h⟩ => h rfl

def bytes (lines : List String) : Bytes :=
  lines.flatMap fun line => line.toList.map (fun c => UInt8.ofNat c.toNat) ++ [13, 10]

/-- The requests of the connections below. -/
def getRequest : Bytes := bytes ["GET / HTTP/1.1", "Host: x", ""]

theorem answers_get :
    ∃ n, Answered (answering (.string "hello".toList)) () getRequest
      (handle (answering (.string "hello".toList)) n (accepted () getRequest)) := by
  refine ((handle_answers_iff _ _ _).2 fun n => not_failed_handling _ _).mpr ?_
  refine ⟨by decide +kernel, _, ⟨_, _, _, _, _, _, _, .answers rfl, .string, .passes rfl, rfl⟩, ?_⟩
  decide +kernel

/-- It announces ten bytes, and the client closes after three. -/
def shortRequest : Bytes := bytes ["POST / HTTP/1.1", "Content-Length: 10", ""] ++ [97, 98, 99]

/-- What the handler is evaluated with then. -/
def shortened : HTTPRequest :=
  requestFor asciiIO "POST".toList ['/'] [("content-length".toList, "10".toList)] "abc".toList
    asciiIO.peerName

/-- **A response is truncated** when its body is no String, **the handler is evaluated with a
part of a body** when the client closes early, and **once more** when its error retries it. -/
theorem truncates_and_shortens :
    (handle (answering (.response (.object 42))) 1 (accepted () getRequest)).2.output =
        "HTTP/1.1 200 OK\r\n".toList ∧
      (¬ ∃ n, Answered (answering (.response (.object 42))) () getRequest
        (handle (answering (.response (.object 42))) n (accepted () getRequest))) ∧
      (handle (answering .nil) 1 (accepted () shortRequest)).2.evaluated.map HTTPRequest.body =
        ["abc".toList] ∧
      (¬ ∃ n, Answered (answering .nil) () shortRequest
        (handle (answering .nil) n (accepted () shortRequest))) ∧
      (handle failingOnce 2 (accepted 0 getRequest)).2.evaluated.length = 2 := by
  have hended : (handle (answering (.response (.object 42))) 1
      (accepted () getRequest)).1 ≠ none := by
    decide +kernel
  have houtput : (handle (answering (.response (.object 42))) 1
      (accepted () getRequest)).2.output = "HTTP/1.1 200 OK\r\n".toList := by
    decide +kernel
  have hunread : ∀ head, read head "HTTP/1.1 200 OK\r\n".toList = none := by
    decide +kernel
  have hshort : (handle (answering .nil) 1 (accepted () shortRequest)).1 ≠ none := by
    decide +kernel
  have hevaluated : (handle (answering .nil) 1 (accepted () shortRequest)).2.evaluated =
      [shortened] := by
    decide +kernel
  refine ⟨houtput, ?_, by decide +kernel, ?_, by decide +kernel⟩
  · rintro ⟨n, hanswered⟩
    rw [handle_unique hanswered.ended hended] at hanswered
    rcases hanswered.written with ⟨hnone, -⟩ | ⟨m, -, hread⟩
    · rw [houtput] at hnone
      cases hnone
    · rw [houtput, hunread] at hread
      cases hread
  · rintro ⟨n, hanswered⟩
    rw [handle_unique hanswered.ended hshort] at hanswered
    have hreceived : received asciiIO 67108864 shortRequest = .request shortened false := by rfl
    have hadmitted : Admitted asciiIO 67108864 shortRequest shortened :=
      hanswered.admitted shortened (by rw [hevaluated]; exact List.mem_singleton_self _)
    cases (admitted_iff hreceived).mp hadmitted

end ProtoST.Http.Server

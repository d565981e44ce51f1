import ProtoST.Http.Connection

/-!
# Runs of a connection of the HTTP server

What a client sent decides what the reading half of `serve` comes to, unless the socket fails: then
it has no request.  What the objects of the program answer decides what is written.

## Main definitions

* `received` — what the client sent.
* `Replies` — what the objects of the program make of a request.

## Main results

* `ends_receive` — reading a request.
* `ends_send` — writing a response.
* `ends_serveRequest` — a request that the objects reply to.
* `evaluated_serve` — the evaluations of the handler.
* `handle_unique` — how a connection ends does not depend on the number of evaluations that is
  waited for.
-/

namespace ProtoST.Http.Server

open ProtoST.Uri ProtoST.Lib
open ProtoST.Lib.Http (crlf version byteSize Field Response)

variable {W O α β : Type}

/-! ## What the client sent -/

/-- What a client sent, up to the evaluation of the handler. -/
inductive Received where
  /-- No request line. -/
  | nothing
  /-- A request that is refused; `head` is set for the method `HEAD`. -/
  | refused (head : Bool) (aCode : Nat)
  /-- A request; `whole` is set if its body is the one that its headers announce. -/
  | request (r : HTTPRequest) (whole : Bool)

def isHead (method : Text) : Bool := method = "HEAD".toList

def Received.head : Received → Bool
  | .nothing => false
  | .refused head _ => head
  | .request r _ => isHead r.method

section Input

variable (io : ProtoIO)

/-- The header lines up to the empty one, or to the end. -/
def headerBlock : Nat → Dictionary → Bytes → Option (Dictionary × Bytes)
  | left, d, input =>
    match io.readLine maxLine input with
    | .tooLong => none
    | .ended => some (d, input)
    | .line bytes rest =>
        match io.string bytes with
        | [] => some (d, rest)
        | line =>
            match left with
            | 0 => none
            | left + 1 => headerBlock left (addHeader d line) rest

/-- The bytes of a chunked body, and whether they are all of it. -/
def chunkedBody : ChunkedRead → Except ErrorClass (Bytes × Bool)
  | .tooLarge => .error .bodyTooLarge
  | .malformed => .error .networkError
  | .body bytes _ whole => .ok (bytes, whole)

/-- The bytes of the body, and whether they are all that the headers announce. -/
def bodyRead (max : Nat) (d : Dictionary) (input : Bytes) : Except ErrorClass (Bytes × Bool) :=
  if isChunked d then chunkedBody (io.readChunked max input)
  else
    match contentLengthIn d with
    | .error _ => .error .networkError
    | .ok none => .ok ([], true)
    | .ok (some len) =>
        if 0 < max ∧ max < len then .error .bodyTooLarge
        else .ok (input.take len, decide (len ≤ input.length))

/-- The code that refuses a body. -/
def bodyCode : ErrorClass → Nat
  | .bodyTooLarge => 413
  | _ => 400

/-- A request line with a method and a target, and what follows it. -/
def receivedRequest (max : Nat) (method target : Text) (input : Bytes) : Received :=
  match headerBlock io maxHeaderLines [] input with
  | none => .refused (isHead method) 431
  | some (headers, rest) =>
      match bodyRead io max headers rest with
      | .error cls => .refused (isHead method) (bodyCode cls)
      | .ok (bytes, whole) =>
          .request (requestFor io method target headers (io.string bytes) io.peerName)
            (whole && decide (io.string bytes = io.fromUTF8 bytes))

def received (max : Nat) (input : Bytes) : Received :=
  match io.readLine maxLine input with
  | .tooLong => .refused false 414
  | .ended => .nothing
  | .line bytes rest =>
      match io.string bytes with
      | [] => .nothing
      | line =>
          match substrings line ' ' with
          | method :: target :: _ => receivedRequest io max method target rest
          | words => .refused (words.head?.any isHead) 400

end Input

/-! ## What is called for -/

section Reply

variable (X : Objects W O)

def fieldsOf : List (Part O × Part O) → Send W O (List Field)
  | [] => pure []
  | header :: headers => do
      let field ← fieldOf X header
      let fields ← fieldsOf headers
      pure (field :: fields)

/-- The parts of a response, in the order in which they are asked for. -/
def present (r : HTTPResponse O) : Send W O Response := do
  let (status, reason) ← statusOf X r
  let body ← bodyOf X r
  let headers ← headersOf X r
  let fields ← fieldsOf X headers
  let text ← bodyText body
  pure ⟨status, reason, fields, text⟩

/-- The response as a client is to read it. -/
def framed (p : Response) : Response :=
  { p with
    fields := p.fields ++ [("content-length".toList, (toString (byteSize p.body)).toList),
      ("connection".toList, "close".toList)] }

/-- The text of a refusal. -/
def refusal (aCode : Nat) : Response :=
  framed ⟨(toString aCode).toList, reasonFor aCode, [("content-type".toList, textPlain)],
    reasonFor aCode⟩

/-- The text of an error answers, and its line is on standard error. -/
inductive Reported : Exception O → W → W → Prop
  | text {t : Text} {w w' : W} (hreport : X.report (errorLine t) w = (.answered (), w')) :
      Reported (.text t) w w'
  | object {o : O} {t : Text} {w w' w'' : W}
      (htext : X.messageText o w = (.ended (.answered t), w'))
      (hreport : X.report (errorLine t) w' = (.answered (), w'')) : Reported (.object o) w w''

/-- What one evaluation of the handler block comes to. -/
inductive Comes (r : HTTPRequest) (w : W) : Result O → W → Prop
  | answers {a : Result O} {w' : W} (h : X.handler r w = (.answered a, w')) : Comes r w a w'
  | fails {cls : ErrorClass} {e : Exception O} {w' w'' : W}
      (h : X.handler r w = (.raised cls e, w')) (hreported : Reported X e w' w'') :
      Comes r w (.response internalServerError) w''
  | returns {cls : ErrorClass} {o v : O} {w' w'' : W}
      (h : X.handler r w = (.raised cls (.object o), w'))
      (hreturns : X.messageText o w' = (.returns v, w'')) : Comes r w (X.result v) w''

/-- The handler block fails with an error that has it evaluated once more. -/
def Retries (r : HTTPRequest) (w : W) : Prop :=
  ∃ cls o w' w'', X.handler r w = (.raised cls (.object o), w') ∧
    X.messageText o w' = (.retry, w'')

/-- The response that a result stands for. -/
inductive Converts (w : W) : Result O → HTTPResponse O → W → Prop
  | response {r : HTTPResponse O} : Converts w (.response r) r w
  | nil : Converts w .nil (.plain 204 textPlain []) w
  | string {s : Text} : Converts w (.string s) (.plain 200 textPlain s) w
  | other {o : O} {json : Text} {w' : W} (h : X.stringify o w = (.answered json, w')) :
      Converts w (.other o) (.plain 200 "application/json".toList json) w'

/-- The response that is sent, after the check of the headers. -/
inductive Clears (response : HTTPResponse O) : W → HTTPResponse O → W → Prop
  | passes {w w' : W} {r : HTTPResponse O} (h : checked X response w = (.answered r, w')) :
      Clears response w r w'
  | fails {cls : ErrorClass} {e : Exception O} {w w' w'' : W}
      (h : checked X response w = (.raised cls e, w')) (hreported : Reported X e w' w'') :
      Clears response w internalServerError w''
  | returns {cls : ErrorClass} {o v : O} {w w' w'' : W}
      (h : checked X response w = (.raised cls (.object o), w'))
      (hreturns : X.messageText o w' = (.returns v, w'')) :
      Clears response w ((X.result v).asResponse v) w''
  | retries {cls : ErrorClass} {o : O} {w w' w'' w''' : W} {r : HTTPResponse O}
      (h : checked X response w = (.raised cls (.object o), w'))
      (hretry : X.messageText o w' = (.retry, w'')) (hrest : Clears response w'' r w''') :
      Clears response w r w'''

/-- The objects of the program come to a response with these parts. -/
def Replies (r : HTTPRequest) (w : W) (p : Response) : Prop :=
  ∃ result w₁ response w₂ final w₃ w₄, Comes X r w result w₁ ∧ Converts X w₁ result response w₂ ∧
    Clears X response w₂ final w₃ ∧ present X final w₃ = (.answered p, w₄)

end Reply

/-! ## Parts of `serve` -/

section Parts

variable {m : Act W O α} {f : α → Act W O β} {s : State W}

theorem bind_answered {a : α} {t : State W} (h : m s = (.done (.answered a), t)) :
    (m >>= f) s = f a t := by
  show Act.andThen m f s = _
  unfold Act.andThen
  rw [h]

/-- What follows a part without an answer does not run. -/
theorem bind_unanswered (h : ∀ a, (m s).1 ≠ .done (.answered a)) :
    (∀ b, ((m >>= f) s).1 ≠ .done (.answered b)) ∧ ((m >>= f) s).2 = (m s).2 := by
  show (∀ b, (Act.andThen m f s).1 ≠ _) ∧ (Act.andThen m f s).2 = _
  unfold Act.andThen
  rcases hm : m s with ⟨e, t⟩
  rw [hm] at h
  cases e with
  | returned => exact ⟨fun b heq => (by cases heq), rfl⟩
  | running => exact ⟨fun b heq => (by cases heq), rfl⟩
  | done o =>
    cases o with
    | answered a => exact absurd rfl (h a)
    | raised cls e => exact ⟨fun b heq => (by cases heq), rfl⟩
    | escaped => exact ⟨fun b heq => (by cases heq), rfl⟩

end Parts

/-- No handler is evaluated, and no operation on the socket is taken back. -/
structure Onward (s t : State W) : Prop where
  evaluated : t.evaluated = s.evaluated
  operations : s.operations ≤ t.operations

theorem Onward.refl (s : State W) : Onward s s := ⟨rfl, Nat.le_refl _⟩

theorem Onward.trans {s t u : State W} (h : Onward s t) (h' : Onward t u) : Onward s u :=
  ⟨h'.evaluated.trans h.evaluated, Nat.le_trans h.operations h'.operations⟩

/-- A part of `serve` other than the evaluation of the handler. -/
def Steady (m : Act W O α) : Prop := ∀ s, Onward s (m s).2

theorem steady_pure (a : α) : Steady (pure a : Act W O α) := Onward.refl

theorem steady_raise (cls : ErrorClass) (text : Text) : Steady (Act.raise cls text : Act W O α) :=
  Onward.refl

theorem steady_lift (k : Send W O α) : Steady (Act.lift k) := fun _ => ⟨rfl, Nat.le_refl _⟩

theorem steady_bind {m : Act W O α} {f : α → Act W O β} (hm : Steady m)
    (hf : ∀ a, Steady (f a)) : Steady (m >>= f) := by
  intro s
  by_cases h : ∃ a, (m s).1 = .done (.answered a)
  · obtain ⟨a, ha⟩ := h
    rw [bind_answered (Prod.ext ha rfl : m s = (.done (.answered a), (m s).2))]
    exact (hm s).trans (hf a _)
  · rw [(bind_unanswered fun a ha => h ⟨a, ha⟩).2]
    exact hm s

theorem steady_onDo {guard : ErrorClass} {m handler : Act W O α} (hm : Steady m)
    (hhandler : Steady handler) : Steady (Act.onDo guard m handler) := by
  intro s
  have hs := hm s
  unfold Act.onDo
  split
  · rename_i hmatch
    rw [hmatch] at hs
    split
    · exact hs.trans (hhandler _)
    · exact hs
  · exact hs

/-- What each evaluation of a guarded block keeps, and a change of the world, they keep all. -/
theorem onError_induct {R : State W → State W → Prop} (hrefl : ∀ s, R s s)
    (htrans : ∀ {s t u}, R s t → R t u → R s u) (hworld : ∀ s w, R s { s with world := w })
    {asValue : O → α} {handler : Exception O → Handle W O α} {m : Act W O α}
    (hm : ∀ s, R s (m s).2) (n : Nat) (s : State W) :
    R s (Act.onError asValue handler m n s).2 := by
  induction n generalizing s with
  | zero => exact hrefl s
  | succ n ih =>
    have hs := hm s
    unfold Act.onError
    split
    · rename_i e s' hmatch
      rw [hmatch] at hs
      split
      · exact htrans hs (hworld s' _)
      · exact htrans hs (hworld s' _)
      · exact htrans (htrans hs (hworld s' _)) (ih _)
    · exact hs

theorem steady_onError {asValue : O → α} {handler : Exception O → Handle W O α} {m : Act W O α}
    (hm : Steady m) (n : Nat) : Steady (Act.onError asValue handler m n) :=
  onError_induct Onward.refl Onward.trans (fun _ _ => ⟨rfl, Nat.le_refl _⟩) hm n

theorem steady_returning {k : Act W O Unit} (hk : Steady k) :
    Steady (Act.returning k : Act W O α) := steady_bind hk fun _ => Onward.refl

section Steady

variable {C : Connection W O}

theorem steady_socketDo {failing : Nat → State W → State W} {f : State W → Outcome O α × State W}
    (hfailing : ∀ n s, Onward s (failing n s)) (hf : ∀ s, Onward s (f s).2) :
    Steady (socketDo C failing f) := by
  intro s
  have hnext : Onward s { s with operations := s.operations + 1 } := ⟨rfl, Nat.le_succ _⟩
  unfold socketDo
  split
  · exact hnext.trans (hfailing _ _)
  · exact hnext.trans (hf _)

theorem steady_nextPutAll (text : Text) : Steady (nextPutAll C text) :=
  steady_socketDo (fun _ _ => ⟨rfl, Nat.le_refl _⟩) fun _ => ⟨rfl, Nat.le_refl _⟩

theorem steady_nextLineMax (max : Nat) : Steady (nextLineMax C max) := by
  refine steady_socketDo (fun _ => Onward.refl) fun s => ?_
  split <;> exact ⟨rfl, Nat.le_refl _⟩

theorem steady_readHeaders (left : Nat) (d : Dictionary) : Steady (readHeaders C left d) := by
  induction left generalizing d with
  | zero =>
    unfold readHeaders
    refine steady_bind (steady_nextLineMax maxLine) fun line => ?_
    split
    · exact steady_pure d
    · exact steady_pure d
    · exact steady_raise _ _
  | succ left ih =>
    unfold readHeaders
    refine steady_bind (steady_nextLineMax maxLine) fun line => ?_
    split
    · exact steady_pure d
    · exact steady_pure d
    · exact ih _

theorem steady_readBodyFrom (d : Dictionary) (max : Nat) : Steady (readBodyFrom C d max) := by
  unfold readBodyFrom
  split
  · refine steady_socketDo (fun _ => Onward.refl) fun s => ?_
    split <;> exact ⟨rfl, Nat.le_refl _⟩
  · split
    · exact steady_raise _ _
    · exact steady_pure _
    · split
      · exact steady_raise _ _
      split
      · exact steady_pure _
      · refine steady_bind (steady_socketDo (fun _ => Onward.refl) fun s => ?_) fun got =>
          steady_pure _
        split <;> exact ⟨rfl, Nat.le_refl _⟩

theorem steady_writeHeaders (headers : List (Part O × Part O)) :
    Steady (writeHeaders C headers) := by
  induction headers with
  | nil => exact steady_pure _
  | cons header headers ih =>
    refine steady_bind (steady_lift _) fun field => ?_
    refine steady_bind (steady_nextPutAll _) fun _ => ?_
    exact steady_bind (steady_nextPutAll _) fun _ => ih

theorem steady_send (r : HTTPResponse O) : Steady (send C r) := by
  refine steady_bind (steady_lift _) fun status => ?_
  refine steady_bind (steady_nextPutAll _) fun _ => ?_
  refine steady_bind (steady_nextPutAll _) fun _ => ?_
  refine steady_bind (steady_lift _) fun body => ?_
  refine steady_bind (steady_lift _) fun headers => ?_
  refine steady_bind (steady_writeHeaders headers) fun _ => ?_
  refine steady_bind (steady_lift _) fun text => ?_
  refine steady_bind (steady_nextPutAll _) fun _ => ?_
  refine steady_bind (steady_nextPutAll _) fun _ => ?_
  refine steady_bind (steady_nextPutAll _) fun _ => ?_
  refine steady_bind (steady_nextPutAll _) fun _ => ?_
  exact steady_bind (steady_nextPutAll _) fun _ => steady_nextPutAll _

theorem steady_receive : Steady (receive C) := by
  have hrefuse : ∀ aCode, Steady (refuse C aCode) := fun aCode => steady_send _
  refine steady_bind ?_ fun line => ?_
  · refine steady_bind (fun _ => ⟨rfl, Nat.le_refl _⟩) fun _ => ?_
    refine steady_bind (steady_onDo (steady_nextLineMax maxLine) (steady_returning (hrefuse 414)))
      fun line => ?_
    split
    · exact steady_returning (steady_pure _)
    · exact steady_returning (steady_pure _)
    · exact steady_pure _
  · split
    · refine steady_bind (steady_onDo (steady_readHeaders _ _) (steady_returning (hrefuse 431)))
        fun headers => ?_
      refine steady_bind (steady_onDo (steady_onDo (steady_readBodyFrom headers C.maxBody)
        (steady_returning (hrefuse 413))) (steady_returning (hrefuse 400))) fun body => ?_
      refine steady_bind (steady_socketDo (fun _ => Onward.refl) Onward.refl) fun peer => ?_
      exact steady_pure _
    · exact steady_returning (hrefuse 400)

end Steady

/-! ## How parts end -/

/-- An operation on the socket has failed. -/
def Failed (C : Connection W O) (t : State W) : Prop := ∃ n < t.operations, C.fault n ≠ none

theorem Failed.mono {C : Connection W O} {t u : State W} (h : Failed C t)
    (hle : t.operations ≤ u.operations) : Failed C u := by
  obtain ⟨n, hn, hfault⟩ := h
  exact ⟨n, Nat.lt_of_lt_of_le hn hle, hfault⟩

/-- The part ends as `P` says, or, on a socket that fails, without an answer. -/
def Ends (C : Connection W O) (m : Act W O α) (s : State W) (P : Exit O α → State W → Prop) :
    Prop :=
  P (m s).1 (m s).2 ∨ (Failed C (m s).2 ∧ ∀ a, (m s).1 ≠ .done (.answered a))

/-- It answers. -/
def Answers (R : α → State W → Prop) (e : Exit O α) (t : State W) : Prop :=
  ∃ a, e = .done (.answered a) ∧ R a t

section Rules

variable {C : Connection W O} {m : Act W O α} {f : α → Act W O β} {s : State W}
  {P P' : Exit O α → State W → Prop} {Q : Exit O β → State W → Prop}

theorem Ends.mono (h : Ends C m s P) (hP : ∀ e t, P e t → P' e t) : Ends C m s P' :=
  h.imp_left fun hp => hP _ _ hp

/-- A failure in a part is one in the whole. -/
theorem failed_bind (hfailed : Failed C (m s).2) (hno : ∀ a, (m s).1 ≠ .done (.answered a)) :
    Failed C ((m >>= f) s).2 ∧ ∀ b, ((m >>= f) s).1 ≠ .done (.answered b) := by
  obtain ⟨hunanswered, hstate⟩ := bind_unanswered (f := f) hno
  rw [hstate]
  exact ⟨hfailed, hunanswered⟩

variable {R : α → State W → Prop}

theorem Ends.bind (h : Ends C m s (Answers R))
    (hf : ∀ a t, R a t → Ends C (f a) t Q) : Ends C (m >>= f) s Q := by
  rcases h with ⟨a, ha, hR⟩ | ⟨hfailed, hno⟩
  · have heq : m s = (.done (.answered a), (m s).2) := Prod.ext ha rfl
    unfold Ends
    rw [bind_answered heq]
    exact hf a _ hR
  · exact .inr (failed_bind hfailed hno)

/-- A part that ends `serve` ends it. -/
theorem Ends.bind_returned {R : State W → Prop}
    (h : Ends C m s fun e t => e = .returned ∧ R t) :
    Ends C (m >>= f) s fun e t => e = .returned ∧ R t := by
  rcases h with ⟨he, hR⟩ | ⟨hfailed, hno⟩
  · have heq : m s = (.returned, (m s).2) := Prod.ext he rfl
    have hbind : (m >>= f) s = (.returned, (m s).2) := by
      show Act.andThen m f s = _
      unfold Act.andThen
      rw [heq]
    refine .inl ?_
    rw [hbind]
    exact ⟨rfl, hR⟩
  · exact .inr (failed_bind hfailed hno)

theorem ends_pure {a : α} (h : R a s) :
    Ends C (pure a : Act W O α) s (Answers R) := .inl ⟨a, rfl, h⟩

theorem ends_modify {g : State W → State W} {R : Unit → State W → Prop} (h : R () (g s)) :
    Ends C (Act.modify g : Act W O Unit) s (Answers R) := .inl ⟨(), rfl, h⟩

theorem ends_lift {k : Send W O α} {a : α} {w : W} (h : k s.world = (.answered a, w))
    (hR : R a { s with world := w }) :
    Ends C (Act.lift k) s (Answers R) := by
  refine .inl ⟨a, ?_, ?_⟩
  · show Exit.done (k s.world).1 = _
    rw [h]
  · show R a { s with world := (k s.world).2 }
    rw [h]
    exact hR

theorem returning_ne (k : Act W O Unit) (s : State W) (a : α) :
    ((Act.returning k : Act W O α) s).1 ≠ .done (.answered a) := by
  by_cases h : ∃ u, (k s).1 = .done (.answered u)
  · obtain ⟨u, hu⟩ := h
    have hk : k s = (.done (.answered u), (k s).2) := Prod.ext hu rfl
    have hreturned : (Act.returning k : Act W O α) s = (.returned, (k s).2) := bind_answered hk
    rw [hreturned]
    exact fun heq => by cases heq
  · exact (bind_unanswered fun u hu => h ⟨u, hu⟩).1 a

variable {k : Act W O Unit}

theorem ends_returning {R : State W → Prop}
    (h : Ends C k s (Answers fun _ t => R t)) :
    Ends C (Act.returning k : Act W O α) s fun e t => e = .returned ∧ R t := by
  rcases h with ⟨u, hu, hR⟩ | ⟨hfailed, hno⟩
  · have hk : k s = (.done (.answered u), (k s).2) := Prod.ext hu rfl
    have hreturned : (Act.returning k : Act W O α) s = (.returned, (k s).2) := bind_answered hk
    refine .inl ?_
    rw [hreturned]
    exact ⟨rfl, hR⟩
  · exact .inr (failed_bind hfailed hno)

/-- A handler that ends `serve` is no answer. -/
theorem onDo_ne {guard : ErrorClass}
    (h : ∀ a, (m s).1 ≠ .done (.answered a)) (a : α) :
    (Act.onDo guard m (Act.returning k) s).1 ≠ .done (.answered a) := by
  unfold Act.onDo
  split
  · split
    · exact returning_ne k _ a
    · exact fun heq => by cases heq
  · exact h a

theorem failed_onDo {guard : ErrorClass} (hk : Steady k)
    (hfailed : Failed C (m s).2) (hno : ∀ a, (m s).1 ≠ .done (.answered a)) :
    Failed C (Act.onDo guard m (Act.returning k) s).2 ∧
      ∀ a, (Act.onDo guard m (Act.returning k) s).1 ≠ .done (.answered a) := by
  refine ⟨hfailed.mono ?_, onDo_ne hno⟩
  unfold Act.onDo
  split
  · rename_i hm
    rw [hm]
    split
    · exact (steady_returning hk _).operations
    · exact Nat.le_refl _
  · exact Nat.le_refl _

theorem Ends.onDo_answers {guard : ErrorClass} (hk : Steady k)
    (h : Ends C m s (Answers R)) :
    Ends C (Act.onDo guard m (Act.returning k)) s (Answers R) := by
  rcases h with ⟨a, ha, hR⟩ | ⟨hfailed, hno⟩
  · have hm : m s = (.done (.answered a), (m s).2) := Prod.ext ha rfl
    have hdo : Act.onDo guard m (Act.returning k) s = (.done (.answered a), (m s).2) := by
      unfold Act.onDo
      rw [hm]
    refine .inl ?_
    rw [hdo]
    exact ⟨a, rfl, hR⟩
  · exact .inr (failed_onDo hk hfailed hno)

/-- It signals an error of a class. -/
def Raises (cls : ErrorClass) (R : State W → Prop) (e : Exit O α) (t : State W) : Prop :=
  (∃ x, e = .done (.raised cls x)) ∧ R t

theorem Ends.bind_raises {cls : ErrorClass} {R : State W → Prop} (h : Ends C m s (Raises cls R)) :
    Ends C (m >>= f) s (Raises cls R) := by
  rcases h with ⟨⟨x, hx⟩, hR⟩ | ⟨hfailed, hno⟩
  · have hm : m s = (.done (.raised cls x), (m s).2) := Prod.ext hx rfl
    have hbind : (m >>= f) s = (.done (.raised cls x), (m s).2) := by
      show Act.andThen m f s = _
      unfold Act.andThen
      rw [hm]
    refine .inl ?_
    rw [hbind]
    exact ⟨⟨x, rfl⟩, hR⟩
  · exact .inr (failed_bind hfailed hno)

theorem ends_raise {cls : ErrorClass} {text : Text} {R : State W → Prop} (h : R s) :
    Ends C (Act.raise cls text : Act W O α) s (Raises cls R) := .inl ⟨⟨_, rfl⟩, h⟩

theorem Ends.onDo_raises {guard cls : ErrorClass} (hk : Steady k)
    {R R' : State W → Prop} (h : Ends C m s (Raises cls R)) (hguard : cls.inheritsFrom guard = true)
    (hR' : ∀ t, R t → Ends C k t (Answers fun _ => R')) :
    Ends C (Act.onDo guard m (Act.returning k)) s fun e t => e = .returned ∧ R' t := by
  rcases h with ⟨⟨x, hx⟩, hR⟩ | ⟨hfailed, hno⟩
  · have hm : m s = (.done (.raised cls x), (m s).2) := Prod.ext hx rfl
    have hdo : Act.onDo guard m (Act.returning k) s = Act.returning k (m s).2 := by
      unfold Act.onDo
      rw [hm]
      exact if_pos hguard
    unfold Ends
    rw [hdo]
    exact ends_returning (hR' _ hR)
  · exact .inr (failed_onDo hk hfailed hno)

/-- An error of another class, or the end of `serve`, passes a handler. -/
theorem Ends.onDo_passes {guard : ErrorClass} (hk : Steady k)
    {P : Exit O α → State W → Prop} (h : Ends C m s P)
    (hP : ∀ e t, P e t → ∀ cls x, e = .done (.raised cls x) → cls.inheritsFrom guard = false) :
    Ends C (Act.onDo guard m (Act.returning k)) s P := by
  rcases h with hp | ⟨hfailed, hno⟩
  · have hdo : Act.onDo guard m (Act.returning k) s = m s := by
      unfold Act.onDo
      split
      · rename_i cls x t hm
        rw [hm] at hp
        rw [if_neg (by rw [hP _ _ hp cls x rfl]; exact Bool.false_ne_true), hm]
      · rfl
    unfold Ends
    rw [hdo]
    exact .inl hp
  · exact .inr (failed_onDo hk hfailed hno)

end Rules

/-! ## Reading -/

/-- Nothing is written, and no object of the program is sent anything; `rest` has yet to be read. -/
structure Reads (rest : Bytes) (s t : State W) : Prop where
  world : t.world = s.world
  output : t.output = s.output
  input : t.input = rest

theorem Reads.trans {rest rest' : Bytes} {s t u : State W} (h : Reads rest s t)
    (h' : Reads rest' t u) : Reads rest' s u :=
  ⟨h'.world.trans h.world, h'.output.trans h.output, h'.input⟩

section Reading

variable {C : Connection W O}

/-- An operation on a socket that does not fail. -/
theorem ends_socketDo {failing : Nat → State W → State W} {f : State W → Outcome O α × State W}
    {s : State W} {P : Exit O α → State W → Prop} (hfailing : ∀ n s, Onward s (failing n s))
    (h : P (.done (f { s with operations := s.operations + 1 }).1)
      (f { s with operations := s.operations + 1 }).2) : Ends C (socketDo C failing f) s P := by
  unfold Ends socketDo
  cases hfault : C.fault s.operations with
  | none => exact .inl h
  | some fault =>
    refine .inr ⟨⟨s.operations, ?_, ?_⟩, fun a heq => by cases heq⟩
    · exact Nat.lt_of_succ_le
        (hfailing s.operations { s with operations := s.operations + 1 }).operations
    · rw [hfault]
      exact fun heq => by cases heq

/-- How a line is read. -/
def LineReads (io : ProtoIO) (line : LineRead) (s : State W) :
    Exit O (Option Text) → State W → Prop :=
  match line with
  | .tooLong => Raises .lineTooLong (Reads s.input s)
  | .ended => Answers fun line t => line = none ∧ Reads s.input s t
  | .line bytes rest => Answers fun line t => line = some (io.string bytes) ∧ Reads rest s t

theorem LineReads.of_reads {io : ProtoIO} {line : LineRead} {s t : State W}
    (h : Reads s.input s t) (e : Exit O (Option Text)) (u : State W)
    (h' : LineReads io line t e u) : LineReads io line s e u := by
  cases line with
  | tooLong =>
    rw [LineReads, h.input] at h'
    exact ⟨h'.1, h.trans h'.2⟩
  | ended =>
    obtain ⟨a, ha, hnone, hreads⟩ := h'
    rw [h.input] at hreads
    exact ⟨a, ha, hnone, h.trans hreads⟩
  | line bytes rest =>
    obtain ⟨a, ha, hsome, hreads⟩ := h'
    exact ⟨a, ha, hsome, h.trans hreads⟩

theorem ends_nextLineMax (max : Nat) (s : State W) :
    Ends C (nextLineMax C max) s (LineReads C.io (C.io.readLine max s.input) s) := by
  refine ends_socketDo (fun _ => Onward.refl) ?_
  dsimp only
  cases C.io.readLine max s.input with
  | tooLong => exact ⟨⟨_, rfl⟩, rfl, rfl, rfl⟩
  | ended => exact ⟨none, rfl, rfl, rfl, rfl, rfl⟩
  | line bytes rest => exact ⟨_, rfl, rfl, rfl, rfl, rfl⟩

/-- The bytes of a header block, or too many of them. -/
def HeadersRead (block : Option (Dictionary × Bytes)) (s : State W) :
    Exit O Dictionary → State W → Prop :=
  match block with
  | none => Raises .lineTooLong fun t => ∃ rest, Reads rest s t
  | some (d, rest) => Answers fun headers t => headers = d ∧ Reads rest s t

theorem HeadersRead.of_reads {block : Option (Dictionary × Bytes)} {rest : Bytes}
    {s t : State W} (h : Reads rest s t) (e : Exit O Dictionary) (u : State W)
    (h' : HeadersRead block t e u) : HeadersRead block s e u := by
  cases block with
  | none =>
    obtain ⟨he, rest', hreads⟩ := h'
    exact ⟨he, rest', h.trans hreads⟩
  | some p =>
    obtain ⟨a, ha, hd, hreads⟩ := h'
    exact ⟨a, ha, hd, h.trans hreads⟩

theorem ends_readHeaders (left : Nat) (d : Dictionary) (s : State W) :
    Ends C (readHeaders C left d) s (HeadersRead (headerBlock C.io left d s.input) s) := by
  induction left using Nat.strong_induction_on generalizing d s with
  | _ left ih =>
    have hline := ends_nextLineMax (C := C) maxLine s
    unfold readHeaders headerBlock
    cases hread : C.io.readLine maxLine s.input with
    | tooLong =>
      rw [hread] at hline
      exact (hline.mono fun e t h => ⟨h.1, _, h.2⟩).bind_raises
    | ended =>
      rw [hread] at hline
      refine hline.bind fun line t h => ?_
      rw [h.1]
      exact ends_pure ⟨rfl, h.2⟩
    | line bytes rest =>
      rw [hread] at hline
      refine hline.bind fun line t h => ?_
      rw [h.1]
      dsimp only
      cases C.io.string bytes with
      | nil => exact ends_pure ⟨rfl, h.2⟩
      | cons c cs =>
        cases left with
        | zero => exact ends_raise ⟨_, h.2⟩
        | succ left =>
          have hrest := ih left (Nat.lt_succ_self left) (addHeader d (c :: cs)) t
          rw [h.2.input] at hrest
          exact hrest.mono (HeadersRead.of_reads h.2)

/-- The bytes of a body, or the error that refuses it. -/
def BodyRead (io : ProtoIO) (body : Except ErrorClass (Bytes × Bool)) (s : State W) :
    Exit O Text → State W → Prop :=
  match body with
  | .error cls => Raises cls fun t => ∃ rest, Reads rest s t
  | .ok (bytes, _) => Answers fun text t => text = io.string bytes ∧ ∃ rest, Reads rest s t

theorem string_nil (io : ProtoIO) : io.string [] = [] := io.fromUTF8_nil

theorem ends_httpReadChunked (max : Nat) (s : State W) :
    Ends C (httpReadChunked C max) s
      (BodyRead C.io (chunkedBody (C.io.readChunked max s.input)) s) := by
  refine ends_socketDo (fun _ => Onward.refl) ?_
  dsimp only
  cases C.io.readChunked max s.input with
  | tooLarge => exact ⟨⟨_, rfl⟩, _, rfl, rfl, rfl⟩
  | malformed => exact ⟨⟨_, rfl⟩, _, rfl, rfl, rfl⟩
  | body bytes rest whole => exact ⟨_, rfl, rfl, rest, rfl, rfl, rfl⟩

theorem ends_nextByteCount (len : Nat) (s : State W) :
    Ends C (nextByteCount C len) s (Answers fun got t =>
      got.getD [] = C.io.string (s.input.take len) ∧ ∃ rest, Reads rest s t) := by
  refine ends_socketDo (fun _ => Onward.refl) ?_
  dsimp only
  split
  · rename_i hempty
    refine ⟨none, rfl, ?_, s.input, rfl, rfl, rfl⟩
    rw [hempty, List.take_nil, string_nil]
    rfl
  · exact ⟨_, rfl, rfl, _, rfl, rfl, rfl⟩

theorem ends_readBodyFrom (d : Dictionary) (max : Nat) (s : State W) :
    Ends C (readBodyFrom C d max) s (BodyRead C.io (bodyRead C.io max d s.input) s) := by
  have hhere : ∃ rest, Reads rest s s := ⟨s.input, rfl, rfl, rfl⟩
  unfold readBodyFrom bodyRead
  split
  · exact ends_httpReadChunked max s
  · cases contentLengthIn d with
    | error text => exact ends_raise hhere
    | ok announced =>
      cases announced with
      | none => exact ends_pure ⟨(string_nil C.io).symm, hhere⟩
      | some len =>
        dsimp only
        split
        · exact ends_raise hhere
        split
        · rename_i hzero
          refine ends_pure ⟨?_, hhere⟩
          rw [hzero, List.take_zero, string_nil]
        · exact (ends_nextByteCount len s).bind fun got t h => ends_pure h

end Reading

/-! ## Sending a response -/

theorem bind_eq_answered {k : Send W O α} {f : α → Send W O β} {w w'' : W} {b : β}
    (h : (k >>= f) w = (.answered b, w'')) :
    ∃ a w', k w = (.answered a, w') ∧ f a w' = (.answered b, w'') := by
  have h : Send.andThen k f w = (.answered b, w'') := h
  unfold Send.andThen at h
  rcases hk : k w with ⟨o, w'⟩
  rw [hk] at h
  cases o with
  | answered a => exact ⟨a, w', rfl, h⟩
  | raised cls e => cases h
  | escaped => cases h

/-- The text is written, and the objects of the program are left in the world `w`. -/
structure Writes (text : Text) (w : W) (s t : State W) : Prop where
  world : t.world = w
  output : t.output = s.output ++ text

theorem Writes.trans {text text' : Text} {w w' : W} {s t u : State W} (h : Writes text w s t)
    (h' : Writes text' w' t u) : Writes (text ++ text') w' s u where
  world := h'.world
  output := by rw [h'.output, h.output, List.append_assoc]

section Sending

variable {C : Connection W O} {s : State W}

theorem ends_nextPutAll (text : Text) {w : W} (hw : s.world = w) :
    Ends C (nextPutAll C text) s (Answers fun _ t => Writes text w s t) :=
  ends_socketDo (fun _ _ => ⟨rfl, Nat.le_refl _⟩) ⟨(), rfl, hw, rfl⟩

/-- A part that writes, and then the rest. -/
theorem Ends.bind_writes {m : Act W O α} {f : α → Act W O β} {text text' : Text}
    {w w' : W} (h : Ends C m s (Answers fun _ t => Writes text w s t))
    (hf : ∀ a t, t.world = w → Ends C (f a) t (Answers fun _ u => Writes text' w' t u)) :
    Ends C (m >>= f) s (Answers fun _ u => Writes (text ++ text') w' s u) := by
  refine h.bind fun a t ht => (hf a t ht.world).mono fun e u hu => ?_
  obtain ⟨b, hb, hu⟩ := hu
  exact ⟨b, hb, ht.trans hu⟩

/-- A send to an object of the program, and then the rest. -/
theorem ends_lift_bind {k : Send W O α} {f : α → Act W O β} {a : α} {w w' : W}
    {text : Text} (h : k s.world = (.answered a, w))
    (hf : ∀ t, t.world = w → Ends C (f a) t (Answers fun _ u => Writes text w' t u)) :
    Ends C (Act.lift k >>= f) s (Answers fun _ u => Writes text w' s u) := by
  have hlift : Ends C (Act.lift k) s (Answers fun b t => b = a ∧ Writes [] w s t) :=
    ends_lift h ⟨rfl, rfl, (List.append_nil _).symm⟩
  refine hlift.bind fun b t ht => ?_
  rw [ht.1]
  refine (hf t ht.2.world).mono fun e u hu => ?_
  obtain ⟨c, hc, hu⟩ := hu
  exact ⟨c, hc, ht.2.trans hu⟩

theorem ends_writeHeaders {headers : List (Part O × Part O)} {fields : List Field} {w : W}
    (h : fieldsOf C.objects headers s.world = (.answered fields, w)) :
    Ends C (writeHeaders C headers) s
      (Answers fun _ t => Writes (fields.flatMap fun f => f.text ++ crlf) w s t) := by
  induction headers generalizing fields s with
  | nil =>
    cases h
    exact ends_pure ⟨rfl, (List.append_nil _).symm⟩
  | cons header headers ih =>
    obtain ⟨field, w₁, hfield, h⟩ := bind_eq_answered h
    obtain ⟨fields', w₂, hfields, h⟩ := bind_eq_answered h
    cases h
    refine ends_lift_bind hfield fun t ht => ?_
    rw [List.flatMap_cons, List.append_assoc]
    refine (ends_nextPutAll _ ht).bind_writes fun _ t ht => ?_
    refine (ends_nextPutAll _ ht).bind_writes fun _ t ht => ?_
    refine ih ?_
    rw [ht]
    exact hfields

theorem ends_write {body : Part O} {headers : List (Part O × Part O)} {fields : List Field}
    {text : Text} {w w' : W}
    (hfields : fieldsOf C.objects headers s.world = (.answered fields, w))
    (hbody : bodyText body w = (.answered text, w')) :
    Ends C (write C body headers) s (Answers fun _ t => Writes (Http.block (fields ++
      [("content-length".toList, (toString (byteSize text)).toList),
        ("connection".toList, "close".toList)]) ++ text) w' s t) := by
  have htext : Http.block (fields ++
      [("content-length".toList, (toString (byteSize text)).toList),
        ("connection".toList, "close".toList)]) ++ text =
      (fields.flatMap fun f => f.text ++ crlf) ++
        (("content-length: ".toList ++ (toString (byteSize text)).toList) ++ (crlf ++
          ("connection: close".toList ++ (crlf ++ (crlf ++ text))))) := by
    have hlength : "content-length: ".toList = "content-length".toList ++ [':', ' '] := rfl
    have hconnection : "connection: close".toList =
        "connection".toList ++ (':' :: ' ' :: "close".toList) := rfl
    unfold Http.block Http.Field.text
    rw [hlength, hconnection, List.flatMap_append]
    simp only [List.flatMap_cons, List.flatMap_nil, List.append_assoc, List.append_nil,
      List.cons_append, List.nil_append]
  rw [htext]
  refine (ends_writeHeaders hfields).bind_writes fun _ t ht => ?_
  refine ends_lift_bind (by rw [ht]; exact hbody) fun t ht => ?_
  refine (ends_nextPutAll _ ht).bind_writes fun _ t ht => ?_
  refine (ends_nextPutAll _ ht).bind_writes fun _ t ht => ?_
  refine (ends_nextPutAll _ ht).bind_writes fun _ t ht => ?_
  refine (ends_nextPutAll _ ht).bind_writes fun _ t ht => ?_
  refine (ends_nextPutAll _ ht).bind_writes fun _ t ht => ?_
  exact ends_nextPutAll _ ht

theorem ends_send {r : HTTPResponse O} {p : Response} {w : W}
    (h : present C.objects r s.world = (.answered p, w)) :
    Ends C (send C r) s (Answers fun _ t => Writes (framed p).text w s t) := by
  obtain ⟨status, w₁, hstatus, h⟩ := bind_eq_answered h
  obtain ⟨body, w₂, hbody, h⟩ := bind_eq_answered h
  obtain ⟨headers, w₃, hheaders, h⟩ := bind_eq_answered h
  obtain ⟨fields, w₄, hfields, h⟩ := bind_eq_answered h
  obtain ⟨text, w₅, htext, h⟩ := bind_eq_answered h
  cases h
  refine ends_lift_bind hstatus fun t ht => ?_
  refine (ends_nextPutAll _ ht).bind_writes fun _ t ht => ?_
  refine (ends_nextPutAll _ ht).bind_writes fun _ t ht => ?_
  refine ends_lift_bind (by rw [ht]; exact hbody) fun t ht => ?_
  refine ends_lift_bind (by rw [ht]; exact hheaders) fun t ht => ?_
  exact ends_write (by rw [ht]; exact hfields) htext

theorem ends_refuse (aCode : Nat) (s : State W) :
    Ends C (refuse C aCode) s (Answers fun _ t => Writes (refusal aCode).text s.world s t) :=
  ends_send rfl

end Sending

/-! ## Receiving a request -/

section Receiving

variable {C : Connection W O}

/-- `serve` has ended, with the text written. -/
def Ended (text : Text) (s : State W) (e : Exit O α) (t : State W) : Prop :=
  e = .returned ∧ Writes text s.world s t

theorem Reads.writes {rest : Bytes} {text : Text} {s t u : State W} (h : Reads rest s t)
    (h' : Writes text t.world t u) : Writes text s.world s u :=
  ⟨h'.world.trans h.world, by rw [h'.output, h.output]⟩

/-- A handler that refuses a request. -/
theorem Ends.refuses {m : Act W O α} {s s' : State W} {cls guard : ErrorClass} (aCode : Nat)
    (h : Ends C m s' (Raises cls fun t => ∃ rest, Reads rest s t))
    (hguard : cls.inheritsFrom guard = true) :
    Ends C (Act.onDo guard m (Act.returning (refuse C aCode))) s'
      (Ended (refusal aCode).text s) := by
  refine h.onDo_raises (steady_send _) hguard fun t ⟨rest, ht⟩ =>
    (ends_refuse aCode t).mono fun e u hu => ?_
  obtain ⟨a, ha, hu⟩ := hu
  exact ⟨a, ha, ht.writes hu⟩

theorem bodyRead_error {io : ProtoIO} {max : Nat} {d : Dictionary} {input : Bytes}
    {cls : ErrorClass} (h : bodyRead io max d input = .error cls) :
    cls = .bodyTooLarge ∨ cls = .networkError := by
  unfold bodyRead chunkedBody at h
  repeat' split at h
  all_goals cases h
  · exact .inl rfl
  · exact .inr rfl
  · exact .inr rfl
  · exact .inl rfl

/-- How the body of a request is received. -/
def BodyReceived (io : ProtoIO) (body : Except ErrorClass (Bytes × Bool)) (s : State W) :
    Exit O Text → State W → Prop :=
  match body with
  | .error cls => Ended (refusal (bodyCode cls)).text s
  | .ok (bytes, _) => Answers fun text t => text = io.string bytes ∧ ∃ rest, Reads rest s t

theorem ends_receiveBody (d : Dictionary) (s : State W) :
    Ends C (receiveBody C d) s (BodyReceived C.io (bodyRead C.io C.maxBody d s.input) s) := by
  have hbody := ends_readBodyFrom (C := C) d C.maxBody s
  unfold receiveBody
  cases hread : bodyRead C.io C.maxBody d s.input with
  | ok p =>
    rw [hread] at hbody
    exact (hbody.onDo_answers (steady_send _)).onDo_answers (steady_send _)
  | error cls =>
    rw [hread] at hbody
    rcases bodyRead_error hread with rfl | rfl
    · refine (hbody.refuses 413 rfl).onDo_passes (steady_send _) fun e t h cls x he => ?_
      rw [h.1] at he
      cases he
    · refine Ends.refuses 400 (hbody.onDo_passes (steady_send _) fun e t h cls x he => ?_) rfl
      obtain ⟨⟨y, hy⟩, -⟩ := h
      rw [hy] at he
      cases he
      rfl

/-- How the first line of a request is received. -/
def FirstLine (io : ProtoIO) (line : LineRead) (s : State W) : Exit O Text → State W → Prop :=
  match line with
  | .tooLong => Ended (refusal 414).text s
  | .ended => Ended [] s
  | .line bytes rest =>
      if io.string bytes = [] then Ended [] s
      else Answers fun line t => line = io.string bytes ∧ Reads rest s t

theorem ends_receiveLine (s : State W) :
    Ends C (receiveLine C) s (FirstLine C.io (C.io.readLine maxLine s.input) s) := by
  have hline : Ends C (nextLineMax C maxLine) { s with timeout := some 30000 }
      (LineReads C.io (C.io.readLine maxLine s.input) s) :=
    (ends_nextLineMax maxLine _).mono (LineReads.of_reads ⟨rfl, rfl, rfl⟩)
  have hnothing : ∀ {rest : Bytes} {t : State W}, Reads rest s t →
      Ends C (Act.returning (pure ()) : Act W O Text) t (Ended [] s) := fun ht =>
    ends_returning (ends_pure ⟨ht.world, ht.output.trans (List.append_nil _).symm⟩)
  refine Ends.bind (R := fun _ t => t = { s with timeout := some 30000 }) (ends_modify rfl)
    fun _ t ht => ?_
  subst ht
  cases hread : C.io.readLine maxLine s.input with
  | tooLong =>
    rw [hread] at hline
    exact ((hline.mono fun e t h => ⟨h.1, _, h.2⟩).refuses 414 rfl).bind_returned
  | ended =>
    rw [hread] at hline
    refine (hline.onDo_answers (steady_send _)).bind fun line t h => ?_
    rw [h.1]
    exact hnothing h.2
  | line bytes rest =>
    rw [hread] at hline
    refine (hline.onDo_answers (steady_send _)).bind fun line t h => ?_
    rw [h.1]
    dsimp only [FirstLine]
    cases C.io.string bytes with
    | nil => exact hnothing h.2
    | cons c cs => exact ends_pure ⟨rfl, h.2⟩

/-- How a request is received. -/
def RequestReceived (request : Received) (s : State W) : Exit O HTTPRequest → State W → Prop :=
  match request with
  | .nothing => Ended [] s
  | .refused _ aCode => Ended (refusal aCode).text s
  | .request r _ => Answers fun r' t => r' = r ∧ Writes [] s.world s t

theorem RequestReceived.of_reads {request : Received} {rest : Bytes} {s t : State W}
    (h : Reads rest s t) (e : Exit O HTTPRequest) (u : State W)
    (h' : RequestReceived request t e u) : RequestReceived request s e u := by
  cases request with
  | nothing => exact ⟨h'.1, h.writes h'.2⟩
  | refused head aCode => exact ⟨h'.1, h.writes h'.2⟩
  | request r whole =>
    obtain ⟨a, ha, hr, hwrites⟩ := h'
    exact ⟨a, ha, hr, h.writes hwrites⟩

/-- From the header lines on. -/
theorem ends_receiveRest (method target : Text) (s : State W) :
    Ends C (do
      let headers ← Act.onDo .lineTooLong (readHeadersFrom C) (Act.returning (refuse C 431))
      let body ← receiveBody C headers
      let peer ← peerName C
      pure (requestFor C.io method target headers body peer)) s
      (RequestReceived (receivedRequest C.io C.maxBody method target s.input) s) := by
  have hheaders := ends_readHeaders (C := C) maxHeaderLines [] s
  unfold receivedRequest
  cases hblock : headerBlock C.io maxHeaderLines [] s.input with
  | none =>
    rw [hblock] at hheaders
    exact (hheaders.refuses 431 rfl).bind_returned
  | some p =>
    obtain ⟨d, rest⟩ := p
    rw [hblock] at hheaders
    refine (hheaders.onDo_answers (steady_send _)).bind fun headers t ht => ?_
    obtain ⟨rfl, ht⟩ := ht
    have hbody := ends_receiveBody (C := C) headers t
    rw [ht.input] at hbody
    dsimp only
    cases hread : bodyRead C.io C.maxBody headers rest with
    | error cls =>
      rw [hread] at hbody
      refine Ends.bind_returned (hbody.mono fun e u hu => ⟨hu.1, ht.writes hu.2⟩)
    | ok q =>
      rw [hread] at hbody
      refine hbody.bind fun text u hu => ?_
      obtain ⟨rfl, rest', hu⟩ := hu
      have hpeer : Ends C (peerName C) u
          (Answers fun peer v => peer = C.io.peerName ∧ Reads rest' u v) :=
        ends_socketDo (fun _ => Onward.refl) ⟨_, rfl, rfl, rfl, rfl, hu.input⟩
      refine hpeer.bind fun peer v hv => ?_
      obtain ⟨rfl, hv⟩ := hv
      have hreads := (ht.trans hu).trans hv
      exact ends_pure ⟨rfl, hreads.world, hreads.output.trans (List.append_nil _).symm⟩

theorem ends_receive (s : State W) :
    Ends C (receive C) s (RequestReceived (received C.io C.maxBody s.input) s) := by
  have hline := ends_receiveLine (C := C) s
  unfold received
  cases hread : C.io.readLine maxLine s.input with
  | tooLong =>
    rw [hread] at hline
    exact hline.bind_returned
  | ended =>
    rw [hread] at hline
    exact hline.bind_returned
  | line bytes rest =>
    rw [hread] at hline
    dsimp only [FirstLine] at hline ⊢
    cases hstring : C.io.string bytes with
    | nil =>
      rw [hstring, if_pos rfl] at hline
      exact hline.bind_returned
    | cons c cs =>
      rw [hstring, if_neg (fun h => by cases h)] at hline
      refine hline.bind fun line t ht => ?_
      obtain ⟨rfl, ht⟩ := ht
      have hrefuse : Ends C (Act.returning (refuse C 400) : Act W O HTTPRequest) t
          (Ended (refusal 400).text s) := by
        refine ends_returning ((ends_refuse 400 t).mono fun e u hu => ?_)
        obtain ⟨a, ha, hu⟩ := hu
        exact ⟨a, ha, ht.writes hu⟩
      dsimp only
      cases substrings (c :: cs) ' ' with
      | nil => exact hrefuse
      | cons method words =>
        cases words with
        | nil => exact hrefuse
        | cons target others =>
          have hrest := ends_receiveRest (C := C) method target t
          rw [ht.input] at hrest
          exact hrest.mono (RequestReceived.of_reads ht)

end Receiving

/-! ## Handling an error -/

namespace Handle

variable {m : Handle W O α} {f : α → Handle W O β} {a : α} {v : O} {w w' : W}

theorem bind_answered (h : m w = (.ended (.answered a), w')) : (m >>= f) w = f a w' := by
  show andThen m f w = _
  unfold andThen
  rw [h]

theorem bind_returns (h : m w = (.returns v, w')) : (m >>= f) w = (.returns v, w') := by
  show andThen m f w = _
  unfold andThen
  rw [h]

theorem bind_retry (h : m w = (.retry, w')) : (m >>= f) w = (.retry, w') := by
  show andThen m f w = _
  unfold andThen
  rw [h]

/-- Who retries. -/
theorem bind_eq_retry (h : (m >>= f) w = (.retry, w')) :
    m w = (.retry, w') ∨ ∃ a w₁, f a w₁ = (.retry, w') := by
  change andThen m f w = _ at h
  unfold andThen at h
  rcases hm : m w with ⟨⟨a | _ | _⟩ | _ | v, w₁⟩ <;> rw [hm] at h
  · exact .inr ⟨a, w₁, h⟩
  · cases h
  · cases h
  · cases h
    exact .inl rfl
  · cases h

theorem lift_ne_retry (k : Send W O α) : lift k w ≠ (.retry, w') := fun h => by cases h

end Handle

section Errors

variable {X : Objects W O} {e : Exception O} {o v : O} {w w' : W}

theorem reportError_eq {t : Text} (h : X.report (errorLine t) w = (.answered (), w')) :
    (Handle.lift (X.report (errorLine t)) >>= fun _ => pure internalServerError :
      Handle W O (HTTPResponse O)) w = (.ended (.answered internalServerError), w') := by
  have hlift : (Handle.lift (X.report (errorLine t)) : Handle W O Unit) w =
      (.ended (.answered ()), w') := by
    unfold Handle.lift
    rw [h]
  exact Handle.bind_answered hlift

theorem internalError_of_reported (h : Reported X e w w') :
    internalError X e w = (.ended (.answered internalServerError), w') := by
  cases h with
  | text hreport => exact reportError_eq hreport
  | object htext hreport => exact (Handle.bind_answered htext).trans (reportError_eq hreport)

/-- An action on the error ends `internalError:`. -/
theorem internalError_of_returns (h : X.messageText o w = (.returns v, w')) :
    internalError X (.object o) w = (.returns v, w') := Handle.bind_returns h

theorem internalError_of_retry (h : X.messageText o w = (.retry, w')) :
    internalError X (.object o) w = (.retry, w') := Handle.bind_retry h

/-- `internalError:` retries only if the error does. -/
theorem retry_of_internalError (h : internalError X e w = (.retry, w')) :
    ∃ o, e = .object o ∧ X.messageText o w = (.retry, w') := by
  have hreport : ∀ (t : Text) (w : W),
      (Handle.lift (X.report (errorLine t)) >>= fun _ => pure internalServerError :
        Handle W O (HTTPResponse O)) w ≠ (.retry, w') := by
    intro t w hretry
    rcases Handle.bind_eq_retry hretry with hlift | ⟨a, w₁, hpure⟩
    · exact Handle.lift_ne_retry _ hlift
    · cases hpure
  cases e with
  | text t => exact absurd h (hreport t w)
  | object o =>
    rcases Handle.bind_eq_retry h with htext | ⟨t, w₁, hretry⟩
    · exact ⟨o, rfl, htext⟩
    · exact absurd hretry (hreport t w₁)

theorem retry_of_errorResult (h : errorResult X e w = (.retry, w')) :
    ∃ o, e = .object o ∧ X.messageText o w = (.retry, w') := by
  rcases Handle.bind_eq_retry h with herror | ⟨r, w₁, hpure⟩
  · exact retry_of_internalError herror
  · cases hpure

end Errors

/-! ## Guarded blocks -/

section Guard

variable {asValue : O → α} {handler : Exception O → Handle W O α} {m : Act W O α} {n : Nat}
  {s t : State W} {cls : ErrorClass} {e : Exception O} {w : W}

theorem onError_answered {a : α} (h : m s = (.done (.answered a), t)) :
    Act.onError asValue handler m (n + 1) s = (.done (.answered a), t) := by
  unfold Act.onError
  rw [h]

theorem onError_ended {o : Outcome O α} (h : m s = (.done (.raised cls e), t))
    (hhandler : handler e t.world = (.ended o, w)) :
    Act.onError asValue handler m (n + 1) s = (.done o, { t with world := w }) := by
  unfold Act.onError
  rw [h]
  dsimp only
  rw [hhandler]

theorem onError_returns {v : O} (h : m s = (.done (.raised cls e), t))
    (hhandler : handler e t.world = (.returns v, w)) :
    Act.onError asValue handler m (n + 1) s =
      (.done (.answered (asValue v)), { t with world := w }) := by
  unfold Act.onError
  rw [h]
  dsimp only
  rw [hhandler]

theorem onError_retry (h : m s = (.done (.raised cls e), t))
    (hhandler : handler e t.world = (.retry, w)) :
    Act.onError asValue handler m (n + 1) s =
      Act.onError asValue handler m n { t with world := w } := by
  generalize hrest : Act.onError asValue handler m n { t with world := w } = x
  unfold Act.onError
  rw [h]
  dsimp only
  rw [hhandler]
  exact hrest

/-- An end of a guarded block is one for more evaluations too. -/
theorem onError_succ (h : (Act.onError asValue handler m n s).1 ≠ .running) :
    Act.onError asValue handler m (n + 1) s = Act.onError asValue handler m n s := by
  induction n generalizing s with
  | zero => exact absurd rfl h
  | succ n ih =>
    rcases hm : m s with ⟨x, t⟩
    have hother : (∀ cls e, x ≠ .done (.raised cls e)) →
        ∀ k, Act.onError asValue handler m (k + 1) s = (x, t) := by
      intro hne k
      unfold Act.onError
      rw [hm]
      split
      · rename_i cls e s' heq
        cases heq
        exact absurd rfl (hne cls e)
      · rfl
    by_cases hraised : ∃ cls e, x = .done (.raised cls e)
    · obtain ⟨cls, e, rfl⟩ := hraised
      rcases hhandler : handler e t.world with ⟨o | _ | v, w⟩
      · rw [onError_ended hm hhandler, onError_ended hm hhandler]
      · rw [onError_retry hm hhandler] at h ⊢
        rw [onError_retry hm hhandler]
        exact ih h
      · rw [onError_returns hm hhandler, onError_returns hm hhandler]
    · have hne : ∀ cls e, x ≠ .done (.raised cls e) := fun cls e heq => hraised ⟨cls, e, heq⟩
      rw [hother hne, hother hne]

end Guard

/-! ## A request -/

section Requests

variable {C : Connection W O} {r : HTTPRequest} {s : State W}

theorem evaluate_eq (C : Connection W O) (r : HTTPRequest) (s : State W) :
    evaluate C r s = (.done (C.objects.handler r s.world).1,
      { s with
        evaluated := s.evaluated ++ [r]
        world := (C.objects.handler r s.world).2 }) := rfl

theorem evaluate_of {o : Outcome O (Result O)} {w : W}
    (h : C.objects.handler r s.world = (o, w)) :
    evaluate C r s = (.done o, { s with evaluated := s.evaluated ++ [r], world := w }) := by
  rw [evaluate_eq, h]

theorem guardedHandler_of_comes {result : Result O} {w : W} (n : Nat)
    (h : Comes C.objects r s.world result w) :
    guardedHandler C r (n + 1) s = (.done (.answered result),
      { s with evaluated := s.evaluated ++ [r], world := w }) := by
  cases h with
  | answers h => exact onError_answered (evaluate_of h)
  | fails h hreported =>
    exact onError_ended (evaluate_of h)
      (Handle.bind_answered (internalError_of_reported hreported))
  | returns h hreturns =>
    exact onError_returns (evaluate_of h) (Handle.bind_returns (internalError_of_returns hreturns))

theorem lift_of {k : Send W O α} {o : Outcome O α} {w : W} (h : k s.world = (o, w)) :
    (Act.lift k : Act W O α) s = (.done o, { s with world := w }) := by
  unfold Act.lift
  rw [h]

/-- A check that is retried ends after so many evaluations. -/
theorem guardedCheck_of_clears {response final : HTTPResponse O} {w w' : W}
    (h : Clears C.objects response w final w') :
    ∃ m, ∀ n, m < n → ∀ s : State W, s.world = w →
      guardedCheck C response n s = (.done (.answered final), { s with world := w' }) := by
  have hcheck : ∀ {s : State W} {w w₁ : W} {o : Outcome O (HTTPResponse O)}, s.world = w →
      checked C.objects response w = (o, w₁) →
      (Act.lift (checked C.objects response) : Act W O (HTTPResponse O)) s =
        (.done o, { s with world := w₁ }) := by
    rintro s _ w₁ o rfl h
    exact lift_of h
  induction h with
  | passes h =>
    refine ⟨0, fun n hn s hs => ?_⟩
    obtain ⟨k, rfl⟩ := Nat.exists_eq_succ_of_ne_zero (Nat.ne_of_gt hn)
    exact onError_answered (hcheck hs h)
  | fails h hreported =>
    refine ⟨0, fun n hn s hs => ?_⟩
    obtain ⟨k, rfl⟩ := Nat.exists_eq_succ_of_ne_zero (Nat.ne_of_gt hn)
    have hraised := hcheck hs h
    exact (onError_ended hraised (internalError_of_reported hreported)).trans rfl
  | returns h hreturns =>
    refine ⟨0, fun n hn s hs => ?_⟩
    obtain ⟨k, rfl⟩ := Nat.exists_eq_succ_of_ne_zero (Nat.ne_of_gt hn)
    have hraised := hcheck hs h
    exact (onError_returns hraised (internalError_of_returns hreturns)).trans rfl
  | retries h hretry hrest ih =>
    obtain ⟨m, hm⟩ := ih
    refine ⟨m + 1, fun n hn s hs => ?_⟩
    obtain ⟨k, rfl⟩ := Nat.exists_eq_succ_of_ne_zero (Nat.ne_of_gt (Nat.zero_lt_of_lt hn))
    have hraised := hcheck hs h
    refine (onError_retry hraised (internalError_of_retry hretry)).trans ?_
    exact hm k (Nat.lt_of_succ_lt_succ hn) _ rfl

theorem convert_of_converts {X : Objects W O} {result : Result O} {response : HTTPResponse O}
    {w w' : W} (h : Converts X w result response w') :
    convert X result w = (.answered response, w') := by
  cases h with
  | response | nil | string => rfl
  | other h =>
    show Send.andThen (X.stringify _) _ w = _
    unfold Send.andThen
    rw [h]
    rfl

/-- **A request that the objects reply to** is answered after so many evaluations, unless the
socket fails. -/
theorem ends_serveRequest {p : Response} (h : Replies C.objects r s.world p) :
    ∃ m, ∀ n, m < n → (serveRequest C n r s).2.evaluated = s.evaluated ++ [r] ∧
      ∃ w, Ends C (serveRequest C n r) s (Answers fun _ t => Writes (framed p).text w s t) := by
  obtain ⟨result, w₁, response, w₂, final, w₃, w₄, hcomes, hconverts, hclears, hpresent⟩ := h
  obtain ⟨m, hm⟩ := guardedCheck_of_clears hclears
  refine ⟨m, fun n hn => ?_⟩
  obtain ⟨k, rfl⟩ := Nat.exists_eq_succ_of_ne_zero (Nat.ne_of_gt (Nat.zero_lt_of_lt hn))
  have hserve : serveRequest C (k + 1) r s =
      send C final { s with evaluated := s.evaluated ++ [r], world := w₃ } := by
    refine (bind_answered (guardedHandler_of_comes k hcomes)).trans ?_
    refine (bind_answered (lift_of (convert_of_converts hconverts))).trans ?_
    exact bind_answered (hm (k + 1) hn _ rfl)
  have hsend := steady_send (C := C) final { s with evaluated := s.evaluated ++ [r], world := w₃ }
  rw [hserve]
  refine ⟨hsend.evaluated, w₄, ?_⟩
  have hends : Ends C (send C final) { s with evaluated := s.evaluated ++ [r], world := w₃ }
      (Answers fun _ t => Writes (framed p).text w₄ s t) :=
    (ends_send hpresent).mono fun e t ⟨a, ha, hwrites⟩ => ⟨a, ha, hwrites.world, hwrites.output⟩
  unfold Ends at hends ⊢
  rw [hserve]
  exact hends

/-! ## The evaluations of the handler -/

/-- The handler is evaluated with the request so many times, and no operation on the socket is
taken back. -/
structure Evaluates (r : HTTPRequest) (k : Nat) (s t : State W) : Prop where
  evaluated : t.evaluated = s.evaluated ++ List.replicate k r
  operations : s.operations ≤ t.operations

theorem Evaluates.onward {k : Nat} {t u : State W} (h : Evaluates r k s t) (h' : Onward t u) :
    Evaluates r k s u :=
  ⟨h'.evaluated.trans h.evaluated, Nat.le_trans h.operations h'.operations⟩

/-- The handler is evaluated at most once, unless an error of its own has it evaluated again. -/
theorem evaluates_guardedHandler (n : Nat) (s : State W) :
    ∃ k, Evaluates r k s (guardedHandler C r n s).2 ∧
      (¬ Retries C.objects r s.world → k ≤ 1) := by
  induction n generalizing s with
  | zero => exact ⟨0, ⟨(List.append_nil _).symm, Nat.le_refl _⟩, fun _ => Nat.zero_le 1⟩
  | succ n ih =>
    have honce : Evaluates r 1 s (evaluate C r s).2 := ⟨rfl, Nat.le_refl _⟩
    rcases hhandler : C.objects.handler r s.world with ⟨a | ⟨cls, e⟩ | _, w⟩
    · rw [guardedHandler, onError_answered (evaluate_of hhandler), ← evaluate_of hhandler]
      exact ⟨1, honce, fun _ => Nat.le_refl 1⟩
    · rcases herror : errorResult C.objects e w with ⟨o | _ | v, w'⟩
      · rw [guardedHandler, onError_ended (evaluate_of hhandler) herror]
        exact ⟨1, ⟨rfl, Nat.le_refl _⟩, fun _ => Nat.le_refl 1⟩
      · obtain ⟨o, rfl, hretry⟩ := retry_of_errorResult herror
        obtain ⟨k, hk, -⟩ := ih { s with evaluated := s.evaluated ++ [r], world := w' }
        rw [guardedHandler, onError_retry (evaluate_of hhandler) herror]
        refine ⟨k + 1, ⟨?_, hk.operations⟩, fun hno => absurd ⟨cls, o, w, w', hhandler, hretry⟩ hno⟩
        refine hk.evaluated.trans ?_
        rw [List.replicate_succ, List.append_assoc, List.singleton_append]
      · rw [guardedHandler, onError_returns (evaluate_of hhandler) herror]
        exact ⟨1, ⟨rfl, Nat.le_refl _⟩, fun _ => Nat.le_refl 1⟩
    · have hescaped : guardedHandler C r (n + 1) s = (.done .escaped,
          { s with evaluated := s.evaluated ++ [r], world := w }) := by
        unfold guardedHandler Act.onError
        rw [evaluate_of hhandler]
      rw [hescaped]
      exact ⟨1, ⟨rfl, Nat.le_refl _⟩, fun _ => Nat.le_refl 1⟩

theorem evaluates_serveRequest (n : Nat) (s : State W) :
    ∃ k, Evaluates r k s (serveRequest C n r s).2 ∧
      (¬ Retries C.objects r s.world → k ≤ 1) := by
  obtain ⟨k, hk, honce⟩ := evaluates_guardedHandler (C := C) (r := r) n s
  refine ⟨k, ?_, honce⟩
  have hcheck : ∀ response, Steady (guardedCheck C response n) := fun response =>
    steady_onError (steady_lift _) n
  have hrest : ∀ result, Steady (do
      let response ← Act.lift (convert C.objects result)
      let response ← guardedCheck C response n
      send C response) := fun result =>
    steady_bind (steady_lift _) fun response => steady_bind (hcheck response) steady_send
  by_cases hanswered : ∃ a, (guardedHandler C r n s).1 = .done (.answered a)
  · obtain ⟨a, ha⟩ := hanswered
    have heq : serveRequest C n r s = _ := bind_answered (Prod.ext ha rfl :
      guardedHandler C r n s = (.done (.answered a), (guardedHandler C r n s).2))
    rw [heq]
    exact hk.onward (hrest a _)
  · have heq : (serveRequest C n r s).2 = _ :=
      (bind_unanswered fun a ha => hanswered ⟨a, ha⟩).2
    rw [heq]
    exact hk

/-- `serve` after `receive`. -/
theorem serve_of_answered {n : Nat} (h : (receive C s).1 = .done (.answered r)) :
    serve C n s = serveRequest C n r (receive C s).2 := by
  have heq : receive C s = (.done (.answered r), (receive C s).2) := Prod.ext h rfl
  exact bind_answered heq

theorem serve_of_unanswered {n : Nat} (h : ∀ r, (receive C s).1 ≠ .done (.answered r)) :
    (serve C n s).2 = (receive C s).2 := (bind_unanswered h).2

theorem operations_receive_le (n : Nat) (s : State W) :
    (receive C s).2.operations ≤ (serve C n s).2.operations := by
  by_cases h : ∃ r, (receive C s).1 = .done (.answered r)
  · obtain ⟨r, hr⟩ := h
    obtain ⟨k, hk, -⟩ := evaluates_serveRequest (C := C) (r := r) n (receive C s).2
    rw [serve_of_answered hr]
    exact hk.operations
  · rw [serve_of_unanswered fun r hr => h ⟨r, hr⟩]

/-- `serve` evaluates the handler with the request that was received, or not at all. -/
theorem evaluated_serve (n : Nat) (s : State W) :
    (serve C n s).2.evaluated = s.evaluated ∨
      ∃ r whole k, received C.io C.maxBody s.input = .request r whole ∧
        (serve C n s).2.evaluated = s.evaluated ++ List.replicate k r ∧
          (¬ Retries C.objects r s.world → k ≤ 1) := by
  have hsteady := (steady_receive (C := C) s).evaluated
  by_cases h : ∃ r, (receive C s).1 = .done (.answered r)
  · obtain ⟨r, hr⟩ := h
    obtain ⟨k, hk, honce⟩ := evaluates_serveRequest (C := C) (r := r) n (receive C s).2
    rcases ends_receive (C := C) s with hreceived | ⟨-, hno⟩
    · rw [serve_of_answered hr, hk.evaluated, hsteady]
      cases hrequest : received C.io C.maxBody s.input with
      | nothing =>
        rw [hrequest, hr] at hreceived
        cases hreceived.1
      | refused head aCode =>
        rw [hrequest, hr] at hreceived
        cases hreceived.1
      | request r' whole =>
        rw [hrequest, hr] at hreceived
        obtain ⟨a, ha, rfl, hwrites⟩ := hreceived
        cases ha
        rw [hwrites.world] at honce
        exact .inr ⟨_, whole, k, rfl, rfl, honce⟩
    · exact absurd hr (hno r)
  · rw [serve_of_unanswered fun r hr => h ⟨r, hr⟩]
    exact .inl hsteady

end Requests

/-! ## More evaluations -/

section More

variable {C : Connection W O} {s : State W}

/-- Parts that end alike do so one after the other. -/
theorem bind_ended {m m' : Act W O α} {f f' : α → Act W O β}
    (hm : (m s).1 ≠ .running → m' s = m s)
    (hf : ∀ a t, (f a t).1 ≠ .running → f' a t = f a t) (h : ((m >>= f) s).1 ≠ .running) :
    (m' >>= f') s = (m >>= f) s := by
  change (Act.andThen m f s).1 ≠ _ at h
  show Act.andThen m' f' s = Act.andThen m f s
  unfold Act.andThen at h ⊢
  rcases hx : m s with ⟨⟨a | _ | _⟩ | _ | _, t⟩ <;> rw [hx] at h hm
  · rw [hm fun heq => by cases heq]
    exact hf a t h
  · rw [hm fun heq => by cases heq]
  · rw [hm fun heq => by cases heq]
  · rw [hm fun heq => by cases heq]
  · exact absurd rfl h

theorem serve_succ {n : Nat} (h : (serve C n s).1 ≠ .running) :
    serve C (n + 1) s = serve C n s := by
  refine bind_ended (fun _ => rfl) (fun r t hr => ?_) h
  refine bind_ended (fun hguard => onError_succ hguard) (fun result t hresult => ?_) hr
  refine bind_ended (fun _ => rfl) (fun response t hresponse => ?_) hresult
  exact bind_ended (fun hguard => onError_succ hguard) (fun _ _ _ => rfl) hresponse

/-- **How a connection ends** does not depend on the number of evaluations that is waited for. -/
theorem handle_ended {n m : Nat} (h : (handle C n s).1 ≠ none) (hle : n ≤ m) :
    handle C m s = handle C n s := by
  induction hle with
  | refl => rfl
  | step _ ih =>
    rename_i k _
    have hk : (serve C k s).1 ≠ .running := by
      intro hrunning
      rw [← ih] at h
      unfold handle at h
      rcases hserve : serve C k s with ⟨x, t⟩
      rw [hserve] at h hrunning
      cases hrunning
      exact h rfl
    rw [← ih]
    unfold handle
    rw [serve_succ hk]

theorem handle_unique {n m : Nat} (h : (handle C n s).1 ≠ none) (h' : (handle C m s).1 ≠ none) :
    handle C n s = handle C m s := by
  rcases Nat.le_total n m with hle | hle
  · exact (handle_ended h hle).symm
  · exact handle_ended h' hle

end More

end ProtoST.Http.Server

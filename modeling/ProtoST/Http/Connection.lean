import ProtoST.Http.Urls
import ProtoST.Lib.HttpResponse
import ProtoST.Lib.KeyedEntries

/-!
# A connection of the HTTP server

`HTTPConnection >> handle` in `lib/http.st`, with the `HTTP class` methods that read a request and
write a response.

The routines of protoIO are a parameter, and so are the objects of the program: the handler block,
what it answers, and what the parts of an answer answer to the sends of the server.  Every operation
on the socket may fail.

`serve` guards the handler block and the header check with `on: Error do:`, whose block asks the
error for its `messageText`.  The error is one of the program, and its method may act on it:
`retry` evaluates the guarded block once more, `return:` answers for it.  A guarded block that is
retried for ever does not end, so the evaluations of each are numbered: `handle n` is what comes of
a connection within `n` of them.

## Main definitions

* `receive`, `evaluate`, `convert`, `checked`, `send` — the parts of `HTTPConnection >> serve`.
* `handle` — `HTTPConnection >> handle`.
-/

namespace ProtoST.Http.Server

open ProtoST.Uri ProtoST.Lib
open ProtoST.Lib.Http (crlf version byteSize Field)

/-! ## Exits -/

/-- The classes of errors that the code tells apart. -/
inductive ErrorClass where
  | error | lineTooLong | networkError | bodyTooLarge
  deriving DecidableEq, Repr

def ErrorClass.inheritsFrom : ErrorClass → ErrorClass → Bool
  | _, .error => true
  | .bodyTooLarge, .networkError => true
  | c, guard => c = guard

/-- An error: one of the library, with its text, or an object of the program. -/
inductive Exception (O : Type) where
  | text (messageText : Text)
  | object (o : O)
  deriving DecidableEq, Repr

inductive Outcome (O α : Type) where
  | answered (a : α)
  | raised (cls : ErrorClass) (e : Exception O)
  /-- Another exit, which no handler for `Error` takes. -/
  | escaped
  deriving DecidableEq, Repr

/-- Sends to objects of the program, in a world of their own. -/
def Send (W O α : Type) : Type := W → Outcome O α × W

namespace Send

variable {W O α β : Type}

def andThen (m : Send W O α) (f : α → Send W O β) : Send W O β := fun w =>
  match m w with
  | (.answered a, w') => f a w'
  | (.raised cls e, w') => (.raised cls e, w')
  | (.escaped, w') => (.escaped, w')

instance : Monad (Send W O) where
  pure a := fun w => (.answered a, w)
  bind := andThen

def raise (cls : ErrorClass) (messageText : Text) : Send W O α := fun w =>
  (.raised cls (.text messageText), w)

end Send

/-- How a block ends that handles an error: as any send, or by an action on that error.  An error
that is resumed is no exit of the block that signalled it, and one that is passed on leaves both. -/
inductive Handling (O α : Type) where
  | ended (o : Outcome O α)
  | retry
  /-- `return: v`. -/
  | returns (v : O)
  deriving DecidableEq, Repr

/-- Sends that may act on the error that is handled. -/
def Handle (W O α : Type) : Type := W → Handling O α × W

namespace Handle

variable {W O α β : Type}

def andThen (m : Handle W O α) (f : α → Handle W O β) : Handle W O β := fun w =>
  match m w with
  | (.ended (.answered a), w') => f a w'
  | (.ended (.raised cls e), w') => (.ended (.raised cls e), w')
  | (.ended .escaped, w') => (.ended .escaped, w')
  | (.retry, w') => (.retry, w')
  | (.returns v, w') => (.returns v, w')

instance : Monad (Handle W O) where
  pure a := fun w => (.ended (.answered a), w)
  bind := andThen

def lift (m : Send W O α) : Handle W O α := fun w => (.ended (m w).1, (m w).2)

end Handle

/-! ## What the server is given -/

abbrev Bytes := List UInt8

inductive LineRead where
  | tooLong
  | ended
  | line (bytes rest : Bytes)
  deriving DecidableEq, Repr

inductive ChunkedRead where
  | tooLarge
  | malformed
  /-- A body; `whole` is set if its last chunk arrived. -/
  | body (bytes rest : Bytes) (whole : Bool)
  deriving DecidableEq, Repr

/-- The routines of protoIO and of protoCore's strings, on the bytes that have yet to be read. -/
structure ProtoIO where
  fromUTF8 : Bytes → Text
  readLine : Nat → Bytes → LineRead
  readChunked : Nat → Bytes → ChunkedRead
  percentDecode : Text → Bytes
  /-- The text of an error. -/
  what : ErrorClass → Text
  peerName : Text
  fromUTF8_nil : fromUTF8 [] = []
  readLine_le : ∀ {max : Nat} {input bytes rest : Bytes},
    readLine max input = .line bytes rest → 0 < max → bytes.length ≤ max
  readChunked_le : ∀ {max : Nat} {input bytes rest : Bytes} {whole : Bool},
    readChunked max input = .body bytes rest whole → 0 < max → bytes.length ≤ max

/-- `string`: what follows a NUL is cut off. -/
def ProtoIO.string (io : ProtoIO) (bytes : Bytes) : Text := io.fromUTF8 (bytes.takeWhile (· ≠ 0))

/-- A `Dictionary` of the library. -/
abbrev Dictionary := List (Text × Text)

def Dictionary.at? (d : Dictionary) (key : Text) : Option Text :=
  Keyed.lookup (fun k l => decide (k = l)) key d

def Dictionary.atPut (d : Dictionary) (key value : Text) : Dictionary :=
  Keyed.store (fun k l => decide (k = l)) key value d

structure HTTPRequest where
  method : Text
  path : Text
  query : Dictionary
  headers : Dictionary
  body : Text
  peer : Text
  deriving DecidableEq, Repr

/-- A String, or another object. -/
inductive Part (O : Type) where
  | text (s : Text)
  | object (o : O)
  deriving DecidableEq, Repr

/-- An `HTTPResponse`: one that the server makes, or one of the program. -/
inductive HTTPResponse (O : Type) where
  | plain (status : Nat) (contentType body : Text)
  | object (o : O)
  deriving DecidableEq, Repr

/-- What a handler answers, by the tests that `serve` makes of it. -/
inductive Result (O : Type) where
  | response (r : HTTPResponse O)
  | nil
  | string (s : Text)
  | other (o : O)
  deriving DecidableEq, Repr

/-- The objects of the program. -/
structure Objects (W O : Type) where
  /-- The handler block, up to an error that is not resumed. -/
  handler : HTTPRequest → Send W O (Result O)
  /-- An object by the tests that `serve` makes of it. -/
  result : O → Result O
  /-- `JSON stringify:`. -/
  stringify : O → Send W O Text
  /-- `messageText displayString`, of an error that is handled. -/
  messageText : O → Handle W O Text
  /-- `status printString`, of a response. -/
  status : O → Send W O Text
  reason : O → Send W O Text
  /-- The pairs that `headers keysAndValuesDo:` visits. -/
  headers : O → Send W O (List (Part O × Part O))
  body : O → Send W O (Part O)
  displayString : O → Send W O Text
  /-- `check:as:token:` of a header name that is no String. -/
  checkName : O → Send W O Unit
  /-- The text of such a name in its line. -/
  nameText : O → Send W O Text
  /-- A line for standard error. -/
  report : Text → Send W O Unit

/-- A failure of the socket. -/
structure Fault where
  /-- A `NetworkError`; another `Error` if it is not set. -/
  network : Bool
  messageText : Text

structure Connection (W O : Type) where
  io : ProtoIO
  objects : Objects W O
  /-- 0 for no limit. -/
  maxBody : Nat
  /-- Does the operation on the socket with this number fail? -/
  fault : Nat → Option Fault
  /-- What a failing operation has written. -/
  written : Nat → Nat

structure State (W : Type) where
  world : W
  /-- What the socket has yet to be read. -/
  input : Bytes
  output : Text
  timeout : Option Nat
  closed : Bool
  /-- The operations on the socket so far. -/
  operations : Nat
  /-- The requests that the handler has been evaluated with. -/
  evaluated : List HTTPRequest

/-! ## Code -/

variable {W O α β : Type}

/-- How a part of `serve` ends. -/
inductive Exit (O α : Type) where
  | done (o : Outcome O α)
  /-- By a `^` of `serve`. -/
  | returned
  /-- Not within the evaluations that are counted. -/
  | running
  deriving DecidableEq, Repr

def Act (W O α : Type) : Type := State W → Exit O α × State W

namespace Act

def andThen (m : Act W O α) (f : α → Act W O β) : Act W O β := fun s =>
  match m s with
  | (.done (.answered a), s') => f a s'
  | (.done (.raised cls e), s') => (.done (.raised cls e), s')
  | (.done .escaped, s') => (.done .escaped, s')
  | (.returned, s') => (.returned, s')
  | (.running, s') => (.running, s')

instance : Monad (Act W O) where
  pure a := fun s => (.done (.answered a), s)
  bind := andThen

def modify (g : State W → State W) : Act W O Unit := fun s => (.done (.answered ()), g s)

def raise (cls : ErrorClass) (messageText : Text) : Act W O α := fun s =>
  (.done (.raised cls (.text messageText)), s)

def lift (m : Send W O α) : Act W O α := fun s =>
  (.done (m s.world).1, { s with world := (m s.world).2 })

/-- `[m] on: guard do: [:e | handler]`. -/
def onDo (guard : ErrorClass) (m handler : Act W O α) : Act W O α := fun s =>
  match m s with
  | (.done (.raised cls e), s') =>
      if cls.inheritsFrom guard then handler s' else (.done (.raised cls e), s')
  | r => r

/-- `[m] on: Error do: [:e | handler]`, within a number of evaluations of `m`. -/
def onError (asValue : O → α) (handler : Exception O → Handle W O α) (m : Act W O α) :
    Nat → Act W O α
  | 0 => fun s => (.running, s)
  | n + 1 => fun s =>
    match m s with
    | (.done (.raised _ e), s') =>
        match handler e s'.world with
        | (.ended o, w) => (.done o, { s' with world := w })
        | (.returns v, w) => (.done (.answered (asValue v)), { s' with world := w })
        | (.retry, w) => onError asValue handler m n { s' with world := w }
    | r => r

/-- `^ m`, in `serve`. -/
def returning (m : Act W O Unit) : Act W O α := do
  m
  fun s => (.returned, s)

end Act

/-! ## The socket -/

section Socket

variable (C : Connection W O)

/-- An operation on the socket: it fails, or does `f`. -/
def socketDo (failing : Nat → State W → State W) (f : State W → Outcome O α × State W) :
    Act W O α := fun s =>
  match C.fault s.operations with
  | some fault =>
      (.done (.raised (if fault.network then .networkError else .error) (.text fault.messageText)),
        failing s.operations { s with operations := s.operations + 1 })
  | none =>
      (.done (f { s with operations := s.operations + 1 }).1,
        (f { s with operations := s.operations + 1 }).2)

def socketRead (f : State W → Outcome O α × State W) : Act W O α := socketDo C (fun _ s => s) f

def nextLineMax (max : Nat) : Act W O (Option Text) :=
  socketRead C fun s =>
    match C.io.readLine max s.input with
    | .tooLong => (.raised .lineTooLong (.text (C.io.what .lineTooLong)), s)
    | .ended => (.answered none, s)
    | .line bytes rest => (.answered (some (C.io.string bytes)), { s with input := rest })

/-- Up to `n` bytes, nil at the end. -/
def nextByteCount (n : Nat) : Act W O (Option Text) :=
  socketRead C fun s =>
    if s.input = [] then (.answered none, s)
    else (.answered (some (C.io.string (s.input.take n))), { s with input := s.input.drop n })

/-- `__httpReadChunked:max:`. -/
def httpReadChunked (max : Nat) : Act W O Text :=
  socketRead C fun s =>
    match C.io.readChunked max s.input with
    | .tooLarge => (.raised .bodyTooLarge (.text (C.io.what .bodyTooLarge)), s)
    | .malformed => (.raised .networkError (.text (C.io.what .networkError)), s)
    | .body bytes rest _ => (.answered (C.io.string bytes), { s with input := rest })

def peerName : Act W O Text := socketRead C fun s => (.answered C.io.peerName, s)

def nextPutAll (text : Text) : Act W O Unit :=
  socketDo C (fun n s => { s with output := s.output ++ text.take (C.written n) })
    fun s => (.answered (), { s with output := s.output ++ text })

end Socket

/-! ## Reading a request -/

def maxLine : Nat := 8192

def maxHeaderLines : Nat := 100

/-- A header line in the dictionary; one without a colon is passed over. -/
def addHeader (d : Dictionary) (line : Text) : Dictionary :=
  let i := indexOf ':' line
  if 0 < i then
    d.atPut (asLowercase (trimBoth (copyFromTo line 1 (i - 1))))
      (trimBoth (copyFromTo line (i + 1) line.length))
  else d

section Reading

variable (C : Connection W O)

/-- The loop of `readHeadersFrom:`, when `left` more lines are within the bound. -/
def readHeaders : Nat → Dictionary → Act W O Dictionary
  | left, d => do
    match ← nextLineMax C maxLine with
    | none => pure d
    | some [] => pure d
    | some line =>
        match left with
        | 0 =>
            Act.raise .lineTooLong
              ("more than ".toList ++ (toString maxHeaderLines).toList ++ " header lines".toList)
        | left + 1 => readHeaders left (addHeader d line)

def readHeadersFrom : Act W O Dictionary := readHeaders C maxHeaderLines []

/-- `printString` of a String. -/
def printString (s : Text) : Text :=
  '\'' :: s.flatMap (fun c => if c = '\'' then ['\'', '\''] else [c]) ++ ['\'']

/-- `contentLengthIn:`, or the text of its error. -/
def contentLengthIn (d : Dictionary) : Except Text (Option Nat) :=
  match d.at? "content-length".toList with
  | none => .ok none
  | some v =>
      if v ≠ [] ∧ v.length ≤ 18 ∧ v.all isDigit then .ok (some (decimal v))
      else .error ("invalid content-length: ".toList ++ printString v)

def isChunked (d : Dictionary) : Bool :=
  includesSubstring (asLowercase ((d.at? "transfer-encoding".toList).getD [])) "chunked".toList

/-- `readBodyFrom:headers:max:`. -/
def readBodyFrom (d : Dictionary) (max : Nat) : Act W O Text :=
  if isChunked d then httpReadChunked C max
  else
    match contentLengthIn d with
    | .error text => Act.raise .networkError text
    | .ok none => pure []
    | .ok (some len) =>
        if 0 < max ∧ max < len then
          Act.raise .bodyTooLarge
            ("a body of ".toList ++ (toString len).toList ++ " bytes".toList)
        else if len = 0 then pure []
        else do
          let got ← nextByteCount C len
          pure (got.getD [])

end Reading

def percentDecode (io : ProtoIO) (s : Text) : Text := io.string (io.percentDecode s)

/-- `parseQuery:`. -/
def parseQuery (io : ProtoIO) (query : Text) : Dictionary :=
  (substrings query '&').foldl (fun d pair =>
    let p := pair.map fun c => if c = '+' then ' ' else c
    let i := indexOf '=' p
    if i = 0 then d.atPut (percentDecode io p) []
    else d.atPut (percentDecode io (copyFromTo p 1 (i - 1)))
      (percentDecode io (copyFromTo p (i + 1) p.length))) []

/-- The request with a target, by `?`. -/
def requestFor (io : ProtoIO) (method target : Text) (headers : Dictionary) (body peer : Text) :
    HTTPRequest :=
  let i := indexOf '?' target
  { method := method
    path := percentDecode io (if i = 0 then target else copyFromTo target 1 (i - 1))
    query := parseQuery io (if i = 0 then [] else copyFromTo target (i + 1) target.length)
    headers := headers
    body := body
    peer := peer }

/-! ## Responses -/

def reasonFor : Nat → Text
  | 200 => "OK".toList
  | 201 => "Created".toList
  | 204 => "No Content".toList
  | 301 => "Moved Permanently".toList
  | 302 => "Found".toList
  | 304 => "Not Modified".toList
  | 400 => "Bad Request".toList
  | 401 => "Unauthorized".toList
  | 403 => "Forbidden".toList
  | 404 => "Not Found".toList
  | 405 => "Method Not Allowed".toList
  | 500 => "Internal Server Error".toList
  | 503 => "Service Unavailable".toList
  | _ => "Status".toList

def textPlain : Text := "text/plain; charset=utf-8".toList

section Responses

variable (X : Objects W O)

/-- `status printString` and `reason`. -/
def statusOf : HTTPResponse O → Send W O (Text × Text)
  | .plain status _ _ => pure ((toString status).toList, reasonFor status)
  | .object o => do
      let status ← X.status o
      let reason ← X.reason o
      pure (status, reason)

def headersOf : HTTPResponse O → Send W O (List (Part O × Part O))
  | .plain _ contentType _ => pure [(.text "content-type".toList, .text contentType)]
  | .object o => X.headers o

def bodyOf : HTTPResponse O → Send W O (Part O)
  | .plain _ _ body => pure (.text body)
  | .object o => X.body o

def displayString : Part O → Send W O Text
  | .text s => pure s
  | .object o => X.displayString o

def nameText : Part O → Send W O Text
  | .text s => pure s
  | .object o => X.nameText o

/-- A header as it is written. -/
def fieldOf (header : Part O × Part O) : Send W O Field := do
  let name ← nameText X header.1
  let value ← displayString X header.2
  pure (name, value)

/-- The body as a String, for `__byteSize:`. -/
def bodyText : Part O → Send W O Text
  | .text s => pure s
  | .object _ => Send.raise .error "byteSize: a String was expected".toList

/-- A character that `check:as:token:` refuses. -/
def refuses (isToken : Bool) (c : Char) : Bool :=
  (c.toNat < 32 && (isToken || c.toNat ≠ 9)) || c.toNat = 127 ||
    (isToken && (c.toNat = 32 || Http.delimiters.contains c))

/-- `check:as:token:`. -/
def check (s what : Text) (isToken : Bool) : Send W O Unit :=
  if s = [] ∧ isToken then Send.raise .error ("invalid ".toList ++ what ++ ": empty".toList)
  else if s.any (refuses isToken) then
    Send.raise .error ("invalid ".toList ++ what ++ ": ".toList ++ printString s)
  else pure ()

def checkName : Part O → Send W O Unit
  | .text s => check s "header name".toList true
  | .object o => X.checkName o

/-- The loop of `checkHeaders:`. -/
def checkHeaders : List (Part O × Part O) → Send W O Unit
  | [] => pure ()
  | header :: headers => do
      checkName X header.1
      let value ← displayString X header.2
      check value "header value".toList false
      checkHeaders headers

/-- The line of an error. -/
def errorLine (messageText : Text) : Text :=
  "HTTPServer: error in handler: ".toList ++ messageText ++ ['\n']

def internalServerError : HTTPResponse O := .plain 500 textPlain "Internal Server Error".toList

/-- `internalError:`. -/
def internalError (e : Exception O) : Handle W O (HTTPResponse O) := do
  let text ← match e with
    | .text messageText => pure messageText
    | .object o => X.messageText o
  Handle.lift (X.report (errorLine text))
  pure internalServerError

/-- The response to an error as a result. -/
def errorResult (e : Exception O) : Handle W O (Result O) := do
  let r ← internalError X e
  pure (.response r)

/-- The response that a result stands for. -/
def convert : Result O → Send W O (HTTPResponse O)
  | .response r => pure r
  | .nil => pure (.plain 204 textPlain [])
  | .string s => pure (.plain 200 textPlain s)
  | .other o => do
      let json ← X.stringify o
      pure (.plain 200 "application/json".toList json)

/-- An object in the place of a response, by the tests of `serve`. -/
def Result.asResponse : Result O → O → HTTPResponse O
  | .response r, _ => r
  | _, o => .object o

/-- `[HTTP checkHeaders: response headers. response]`. -/
def checked (response : HTTPResponse O) : Send W O (HTTPResponse O) := do
  let headers ← headersOf X response
  checkHeaders X headers
  pure response

end Responses

/-! ## The connection -/

section Connection

variable (C : Connection W O)

/-- The header lines of `write:headers:to:length:`. -/
def writeHeaders : List (Part O × Part O) → Act W O Unit
  | [] => pure ()
  | header :: headers => do
      let field ← Act.lift (fieldOf C.objects header)
      nextPutAll C (Http.Field.text field)
      nextPutAll C crlf
      writeHeaders headers

/-- `write:headers:to:`. -/
def write (body : Part O) (headers : List (Part O × Part O)) : Act W O Unit := do
  writeHeaders C headers
  let text ← Act.lift (bodyText body)
  nextPutAll C ("content-length: ".toList ++ (toString (byteSize text)).toList)
  nextPutAll C crlf
  nextPutAll C "connection: close".toList
  nextPutAll C crlf
  nextPutAll C crlf
  nextPutAll C text

/-- `HTTPConnection >> send:`. -/
def send (response : HTTPResponse O) : Act W O Unit := do
  let (status, reason) ← Act.lift (statusOf C.objects response)
  nextPutAll C (version ++ (status ++ (' ' :: reason)))
  nextPutAll C crlf
  let body ← Act.lift (bodyOf C.objects response)
  let headers ← Act.lift (headersOf C.objects response)
  write C body headers

/-- `HTTPConnection >> refuse:`. -/
def refuse (aCode : Nat) : Act W O Unit := send C (.plain aCode textPlain (reasonFor aCode))

/-- The body of a request, or the end of `serve`. -/
def receiveBody (headers : Dictionary) : Act W O Text :=
  Act.onDo .networkError
    (Act.onDo .bodyTooLarge (readBodyFrom C headers C.maxBody) (Act.returning (refuse C 413)))
    (Act.returning (refuse C 400))

/-- The first line of a request, or the end of `serve`. -/
def receiveLine : Act W O Text := do
  Act.modify fun s => { s with timeout := some 30000 }
  match ← Act.onDo .lineTooLong (nextLineMax C maxLine) (Act.returning (refuse C 414)) with
  | none => Act.returning (pure ())
  | some [] => Act.returning (pure ())
  | some line => pure line

/-- `serve` up to the request. -/
def receive : Act W O HTTPRequest := do
  let line ← receiveLine C
  match substrings line ' ' with
  | method :: target :: _ => do
      let headers ← Act.onDo .lineTooLong (readHeadersFrom C) (Act.returning (refuse C 431))
      let body ← receiveBody C headers
      let peer ← peerName C
      pure (requestFor C.io method target headers body peer)
  | _ => Act.returning (refuse C 400)

/-- `[handler value: request]`. -/
def evaluate (request : HTTPRequest) : Act W O (Result O) := do
  Act.modify fun s => { s with evaluated := s.evaluated ++ [request] }
  Act.lift (C.objects.handler request)

/-- `[handler value: request] on: Error do: [:e | self internalError: e]`. -/
def guardedHandler (request : HTTPRequest) (n : Nat) : Act W O (Result O) :=
  Act.onError C.objects.result (errorResult C.objects) (evaluate C request) n

/-- `[HTTP checkHeaders: response headers. response] on: Error do: [:e | self internalError: e]`. -/
def guardedCheck (response : HTTPResponse O) (n : Nat) : Act W O (HTTPResponse O) :=
  Act.onError (fun o => (C.objects.result o).asResponse o) (internalError C.objects)
    (Act.lift (checked C.objects response)) n

/-- What `serve` does with a request. -/
def serveRequest (n : Nat) (request : HTTPRequest) : Act W O Unit := do
  let result ← guardedHandler C request n
  let response ← Act.lift (convert C.objects result)
  let response ← guardedCheck C response n
  send C response

/-- `HTTPConnection >> serve`. -/
def serve (n : Nat) : Act W O Unit := do
  let request ← receive C
  serveRequest C n request

/-- `HTTPConnection >> handle`: how it ends, if it does within `n` evaluations of each guarded
block, and the state it leaves. -/
def handle (n : Nat) (s : State W) : Option (Outcome O Unit) × State W :=
  match serve C n s with
  | (.done o, s') => (some o, { s' with closed := true })
  | (.returned, s') => (some (.answered ()), { s' with closed := true })
  | (.running, s') => (none, s')

end Connection

/-- The state of a connection that a client has sent `input` on. -/
def accepted (world : W) (input : Bytes) : State W where
  world := world
  input := input
  output := []
  timeout := none
  closed := false
  operations := 0
  evaluated := []

end ProtoST.Http.Server

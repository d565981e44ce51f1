import Mathlib.Data.List.Infix
import ProtoST.Lib.Uri

/-!
# The URLs of the HTTP client

The class methods of `HTTPClient` in `lib/http.st` that take a URL apart and that resolve the
`Location` of a redirect, and the `String` methods they send.  A string is a list of
characters.

`asNumber` reads a port with a fraction or an exponent as a `Float`.  What the number
system does with it is a parameter: a double is the text it was read from, with its
`printString` and its comparison with an integer.

The ranges that these methods copy lie within the string, so `copyFrom:to:` does not fail.

## Main results

* `parseUrl_of_spelling`, `spelling_of_parseUrl` — the parts of a URL that `parseUrl:` accepts,
  from its spelling.
* `removeDotSegments_slash` — `removeDotSegments:` walks over the segments with a stack and
  passes over the empty ones.
-/

namespace ProtoST.Http

open ProtoST.Uri

/-! ## Strings -/

/-- `indexOf:`, from 1, and 0 when there is none. -/
def indexOf (c : Char) : Text → Nat
  | [] => 0
  | x :: xs => if x = c then 1 else if indexOf c xs = 0 then 0 else indexOf c xs + 1

/-- `copyFrom:to:`. -/
def copyFromTo (s : Text) (first last : Nat) : Text := (s.take last).drop (first - 1)

/-- `beginsWith:`. -/
def beginsWith (s part : Text) : Bool := part.isPrefixOf s

/-- `endsWith:`. -/
def endsWith (s part : Text) : Bool := part.isSuffixOf s

/-- `includesSubstring:`. -/
def includesSubstring (s part : Text) : Bool := decide (part <:+: s)

/-- `substrings:` with one separator; empty pieces are dropped. -/
def substrings (s : Text) (c : Char) : List Text := (s.splitOn c).filter (· ≠ [])

/-- `caseMap`, to lower case: ASCII and the letters of Latin-1. -/
def caseMap (c : Char) : Char :=
  if c.toNat < 0x80 then
    if 'A' ≤ c ∧ c ≤ 'Z' then Char.ofNat (c.toNat + 0x20) else c
  else if 0xC0 ≤ c.toNat ∧ c.toNat ≤ 0xDE ∧ c.toNat ≠ 0xD7 then Char.ofNat (c.toNat + 0x20)
  else c

def asLowercase (s : Text) : Text := s.map caseMap

/-! ## Numbers -/

/-- What `asNumber` answers: an integer, or the double that the text denotes. -/
inductive Number where
  | integer (n : Int)
  | double (text : Text)
  deriving DecidableEq, Repr

/-- The doubles: how one prints, and whether it is equal to an integer. -/
structure Doubles where
  printString : Text → Text
  equals : Text → Int → Bool

def isSpace (c : Char) : Bool := c = ' ' || ('\t' ≤ c && c ≤ '\r')

def isDigit (c : Char) : Bool := '0' ≤ c && c ≤ '9'

/-- The number that a run of digits spells. -/
def decimal (digits : Text) : Nat := digits.foldl (fun n c => 10 * n + (c.toNat - 48)) 0

/-- The sign of a number, if it has one, and the rest. -/
def takeSign : Text → Text × Text
  | '-' :: s => (['-'], s)
  | '+' :: s => (['+'], s)
  | s => ([], s)

def trimBoth (s : Text) : Text :=
  ((s.dropWhile isSpace).reverse.dropWhile isSpace).reverse

/-- An exponent, or nothing, up to the end of the text. -/
def endsInExponent : Text → Bool
  | [] => true
  | c :: s =>
    (c = 'e' || c = 'E') && (takeSign s).2 ≠ [] && (takeSign s).2.all isDigit

/-- `asNumber`, that is `parseNumber` of a text that need not be an integer. -/
def asNumber (raw : Text) : Option Number :=
  let t := trimBoth raw
  let sign := (takeSign t).1
  let digits := (takeSign t).2.takeWhile isDigit
  let rest := (takeSign t).2.dropWhile isDigit
  let integer : Int := if sign = ['-'] then -decimal digits else decimal digits
  if digits = [] then none
  else match rest with
  | [] => some (.integer integer)
  | '.' :: s =>
    if s.takeWhile isDigit = [] then if s = [] then some (.integer integer) else none
    else if endsInExponent (s.dropWhile isDigit) then some (.double t) else none
  | s => if endsInExponent s then some (.double t) else none

/-- `printString` of a port. -/
def Number.printString (d : Doubles) : Number → Text
  | .integer n => (toString n).toList
  | .double text => d.printString text

/-- `=` of a port and an integer. -/
def Number.equals (d : Doubles) : Number → Int → Bool
  | .integer m, n => m = n
  | .double text, n => d.equals text n

/-! ## The parts of a URL -/

/-- The error a method signals. -/
inductive Failure where
  | error (text : Text)
  | networkError (text : Text)
  deriving DecidableEq, Repr

/-- `#(scheme host port pathAndQuery)`. -/
structure Parts where
  scheme : Text
  host : Text
  port : Number
  pathAndQuery : Text
  deriving DecidableEq, Repr

def http : Text := ['h', 't', 't', 'p']

def https : Text := ['h', 't', 't', 'p', 's']

/-- `parseUrl:`. -/
def parseUrl (aUrl : Text) : Except Failure Parts :=
  let i := indexOf ':' aUrl
  if i > 0 ∧ copyFromTo aUrl i (min (i + 2) aUrl.length) = [':', '/', '/'] then
    let scheme := asLowercase (copyFromTo aUrl 1 (i - 1))
    let rest := copyFromTo aUrl (i + 3) aUrl.length
    let i := indexOf '/' rest
    let hostPort := if i = 0 then rest else copyFromTo rest 1 (i - 1)
    let path := if i = 0 then ['/'] else copyFromTo rest i rest.length
    let path := if path.head? = some '?' then '/' :: path else path
    let i := indexOf ':' hostPort
    let host := if i = 0 then hostPort else copyFromTo hostPort 1 (i - 1)
    let port :=
      if i = 0 then some (.integer (if scheme = https then 443 else 80))
      else asNumber (copyFromTo hostPort (i + 1) hostPort.length)
    match port with
    | none => .error (.error ("invalid port in URL: ".toList ++ aUrl))
    | some port => .ok ⟨scheme, host, port, path⟩
  else .error (.error ("not an absolute URL: ".toList ++ aUrl))

/-- `authorityOf:`, the host, and the port when it is not the scheme's default. -/
def authorityOf (d : Doubles) (parts : Parts) : Text :=
  if (parts.scheme = http ∧ parts.port.equals d 80) ∨
      (parts.scheme = https ∧ parts.port.equals d 443) then parts.host
  else parts.host ++ ':' :: parts.port.printString d

/-! ## Redirects -/

/-- The segments that `removeDotSegments:` keeps, from those of `substrings:`. -/
def keepSegments (segs : List Text) : List Text :=
  segs.foldl (fun out seg =>
    if seg = ['.', '.'] then out.dropLast
    else if seg = ['.'] then out
    else out ++ [seg]) []

/-- `removeDotSegments:`. -/
def removeDotSegments (aPath : Text) : Text :=
  let q := indexOf '?' aPath
  let path := if q = 0 then aPath else copyFromTo aPath 1 (q - 1)
  let query := if q = 0 then [] else copyFromTo aPath q aPath.length
  let out := keepSegments (substrings path '/')
  let result := out.flatMap fun seg => '/' :: seg
  let slash := out = [] ∨ endsWith path ['/'] ∨ endsWith path ['/', '.'] ∨
    endsWith path ['/', '.', '.']
  (if slash then result ++ ['/'] else result) ++ query

/-- The loop of `lastSlashIn:`, from the index `i` down. -/
def lastSlashFrom (aPath : Text) : Nat → Nat
  | 0 => 0
  | i + 1 => if aPath[i]? = some '/' then i + 1 else lastSlashFrom aPath i

/-- `lastSlashIn:`. -/
def lastSlashIn (aPath : Text) : Nat := lastSlashFrom aPath aPath.length

/-- The path and query of `redirectUrl:from:` before the dot segments are removed, for a
location without `://` that does not begin with `//`. -/
def mergedPath (pathAndQuery aLocation : Text) : Text :=
  let q := indexOf '?' pathAndQuery
  let basePath := if q > 0 then copyFromTo pathAndQuery 1 (q - 1) else pathAndQuery
  if beginsWith aLocation ['/'] then aLocation
  else if beginsWith aLocation ['?'] then basePath ++ aLocation
  else copyFromTo basePath 1 (lastSlashIn basePath) ++ aLocation

/-- The target of `redirectUrl:from:`, from the parts of the base. -/
def redirectTarget (d : Doubles) (base : Parts) (aLocation : Text) : Text :=
  if includesSubstring aLocation [':', '/', '/'] then aLocation
  else if beginsWith aLocation ['/', '/'] then base.scheme ++ ':' :: aLocation
  else base.scheme ++ ':' :: '/' :: '/' ::
    (authorityOf d base ++ removeDotSegments (mergedPath base.pathAndQuery aLocation))

/-- The error of a redirect from https to http. -/
def refusal (target : Text) : Failure :=
  .networkError ("refusing a redirect from https to http: ".toList ++ target)

/-- `redirectUrl:from:`. -/
def redirectUrl (d : Doubles) (aLocation aUrl : Text) : Except Failure Text := do
  let base ← parseUrl aUrl
  let target := redirectTarget d base aLocation
  if base.scheme = https then
    let parts ← parseUrl target
    if parts.scheme = http then
      throw (refusal target)
  return target

/-! ## Copies around an index -/

/-- The index of a character is that of its first occurrence. -/
theorem indexOf_cases (c : Char) (s : Text) :
    (c ∉ s ∧ indexOf c s = 0) ∨
    ∃ left right, s = left ++ c :: right ∧ c ∉ left ∧ indexOf c s = left.length + 1 := by
  induction s with
  | nil => exact .inl ⟨List.not_mem_nil, rfl⟩
  | cons x xs ih =>
      by_cases hx : x = c
      · exact .inr ⟨[], xs, by simp [hx], by simp, by simp [indexOf, hx]⟩
      rcases ih with ⟨hn, hi⟩ | ⟨left, right, hs, hn, hi⟩
      · exact .inl ⟨by simp [Ne.symm hx, hn], by simp [indexOf, hx, hi]⟩
      · refine .inr ⟨x :: left, right, by simp [hs], by simp [Ne.symm hx, hn], ?_⟩
        simp [indexOf, hx, hi]

theorem indexOf_append_cons {c : Char} {left : Text} (h : c ∉ left) (right : Text) :
    indexOf c (left ++ c :: right) = left.length + 1 := by
  induction left with
  | nil => simp [indexOf]
  | cons x left ih =>
      simp only [List.mem_cons, not_or] at h
      simp [indexOf, Ne.symm h.1, ih h.2]

theorem indexOf_of_notMem {c : Char} {s : Text} (h : c ∉ s) : indexOf c s = 0 := by
  rcases indexOf_cases c s with ⟨-, hi⟩ | ⟨left, right, hs, -, -⟩
  · exact hi
  · exact absurd (hs ▸ List.mem_append_right left List.mem_cons_self) h

/-- A copy of the text between two others. -/
theorem copyFromTo_between {s left part right : Text} (h : s = left ++ (part ++ right)) :
    copyFromTo s (left.length + 1) (left.length + part.length) = part := by
  subst h
  rw [copyFromTo, List.take_length_add_append]
  simp

theorem copyFromTo_prefix {s left right : Text} (h : s = left ++ right) :
    copyFromTo s 1 left.length = left := by
  subst h
  simp [copyFromTo]

theorem copyFromTo_suffix {s left right : Text} (h : s = left ++ right) :
    copyFromTo s (left.length + 1) s.length = right := by
  subst h
  rw [copyFromTo, List.take_length]
  simp

/-! ## `parseUrl:` -/

/-- The port after the colon of the authority, or the default without one. -/
def portOf (scheme : Text) : Option Text → Option Number
  | none => some (.integer (if scheme = https then 443 else 80))
  | some text => asNumber text

/-- A URL that `parseUrl:` takes apart: a scheme, `://`, the text up to the next slash and
the rest. -/
structure Spelling (aUrl scheme hostPort tail : Text) : Prop where
  url_eq : aUrl = scheme ++ ':' :: '/' :: '/' :: (hostPort ++ tail)
  scheme_clean : ':' ∉ scheme
  hostPort_clean : '/' ∉ hostPort
  tail_rooted : tail = [] ∨ tail.head? = some '/'

theorem parseUrl_of_spelling {aUrl scheme hostPort tail : Text}
    (h : Spelling aUrl scheme hostPort tail) :
    parseUrl aUrl =
      match portOf (asLowercase scheme) (cut ':' hostPort).2 with
      | none => .error (.error ("invalid port in URL: ".toList ++ aUrl))
      | some port => .ok ⟨asLowercase scheme, (cut ':' hostPort).1, port,
          if tail = [] then ['/'] else tail⟩ := by
  have hColon : indexOf ':' aUrl = scheme.length + 1 := by
    rw [h.url_eq, indexOf_append_cons h.scheme_clean]
  have hMark : copyFromTo aUrl (scheme.length + 1) (min (scheme.length + 1 + 2) aUrl.length) =
      [':', '/', '/'] := by
    have hMin : min (scheme.length + 1 + 2) aUrl.length =
        scheme.length + [':', '/', '/'].length := by
      rw [h.url_eq]
      simp
      omega
    rw [hMin]
    exact @copyFromTo_between aUrl _ _ (hostPort ++ tail) h.url_eq
  have hScheme : copyFromTo aUrl 1 (scheme.length + 1 - 1) = scheme := by
    rw [Nat.add_sub_cancel, copyFromTo_prefix h.url_eq]
  have hRest : copyFromTo aUrl (scheme.length + 1 + 3) aUrl.length = hostPort ++ tail := by
    have hLen : scheme.length + 1 + 3 = (scheme ++ [':', '/', '/']).length + 1 := by simp
    rw [hLen]
    exact copyFromTo_suffix (by simp [h.url_eq])
  have hHostPort : (if indexOf '/' (hostPort ++ tail) = 0 then hostPort ++ tail
      else copyFromTo (hostPort ++ tail) 1 (indexOf '/' (hostPort ++ tail) - 1)) = hostPort ∧
      (if indexOf '/' (hostPort ++ tail) = 0 then ['/']
      else copyFromTo (hostPort ++ tail) (indexOf '/' (hostPort ++ tail))
        (hostPort ++ tail).length) = if tail = [] then ['/'] else tail := by
    cases tail with
    | nil => simp [indexOf_of_notMem h.hostPort_clean]
    | cons c t =>
        obtain rfl : c = '/' := by simpa using h.tail_rooted
        rw [indexOf_append_cons h.hostPort_clean, copyFromTo_suffix rfl, Nat.add_sub_cancel,
          copyFromTo_prefix rfl]
        simp
  have hPath : (if tail = [] then ['/'] else tail).head? = some '/' := by
    rcases h.tail_rooted with rfl | ht
    · rfl
    · rw [if_neg (by rintro rfl; simp at ht), ht]
  have hHost : (if indexOf ':' hostPort = 0 then hostPort
      else copyFromTo hostPort 1 (indexOf ':' hostPort - 1)) = (cut ':' hostPort).1 ∧
      (if indexOf ':' hostPort = 0 then
        some (.integer (if asLowercase scheme = https then 443 else 80))
      else asNumber (copyFromTo hostPort (indexOf ':' hostPort + 1) hostPort.length)) =
        portOf (asLowercase scheme) (cut ':' hostPort).2 := by
    rcases indexOf_cases ':' hostPort with ⟨hn, hi⟩ | ⟨left, right, hs, hn, hi⟩
    · simp [hi, cut_of_notMem hn, portOf]
    · have hRight : copyFromTo hostPort (left.length + 1 + 1) hostPort.length = right := by
        have hLen : left.length + 1 + 1 = (left ++ [':']).length + 1 := by simp
        rw [hLen]
        exact copyFromTo_suffix (by simp [hs])
      rw [hi, hRight, Nat.add_sub_cancel, copyFromTo_prefix hs]
      subst hs
      simp [cut_append_cons hn, portOf]
  simp only [parseUrl, hColon, hMark, hScheme, hRest, hHostPort.1, hHostPort.2, hPath,
    hHost.1, hHost.2]
  simp

theorem spelling_of_parseUrl {aUrl : Text} {parts : Parts} (h : parseUrl aUrl = .ok parts) :
    ∃ scheme hostPort tail, Spelling aUrl scheme hostPort tail := by
  rcases indexOf_cases ':' aUrl with ⟨-, hi⟩ | ⟨scheme, right, hs, hn, hi⟩
  · simp [parseUrl, hi] at h
  by_cases hMark : copyFromTo aUrl (indexOf ':' aUrl) (min (indexOf ':' aUrl + 2) aUrl.length) =
      [':', '/', '/']
  · have hRight : ∃ rest, right = '/' :: '/' :: rest := by
      rw [hi] at hMark
      have hCopy : copyFromTo aUrl (scheme.length + 1)
          (scheme.length + (':' :: right.take 2).length) = ':' :: right.take 2 :=
        @copyFromTo_between aUrl _ _ (right.drop 2) (by simp [hs])
      have hLast : scheme.length + (':' :: right.take 2).length =
          min (scheme.length + 1 + 2) aUrl.length := by
        rw [hs]
        simp
        omega
      rw [hLast, hMark] at hCopy
      refine ⟨right.drop 2, ?_⟩
      have hTwo : right.take 2 = ['/', '/'] := by simpa using hCopy.symm
      conv_lhs => rw [← List.take_append_drop 2 right, hTwo]
      rfl
    obtain ⟨rest, rfl⟩ := hRight
    refine ⟨scheme, rest.takeWhile (· ≠ '/'), rest.dropWhile (· ≠ '/'), ?_, hn, ?_, ?_⟩
    · rw [List.takeWhile_append_dropWhile, hs]
    · exact fun h => by simpa using List.mem_takeWhile_imp h
    · have hHead := List.head?_dropWhile_not (fun x => decide (x ≠ '/')) rest
      cases hd : rest.dropWhile (· ≠ '/') with
      | nil => exact .inl rfl
      | cons c t =>
          rw [hd] at hHead
          exact .inr (by simpa using hHead)
  · simp [parseUrl, hMark] at h

/-! ## The directory of a path -/

theorem directory_concat (path : Text) (c : Char) :
    directory (path ++ [c]) = if c = '/' then path ++ [c] else directory path := by
  by_cases hc : c = '/'
  · simp [directory, hc]
  · simp [directory, hc]

/-- What precedes the index of the last slash is the directory of the path. -/
theorem copyFromTo_lastSlashIn (aPath : Text) :
    copyFromTo aPath 1 (lastSlashIn aPath) = directory aPath := by
  have hFrom : ∀ i ≤ aPath.length,
      copyFromTo aPath 1 (lastSlashFrom aPath i) = directory (aPath.take i) := by
    intro i
    induction i with
    | zero => intro _; simp [copyFromTo, lastSlashFrom, directory]
    | succ i ih =>
        intro hi
        rw [List.take_succ_eq_append_getElem hi, directory_concat, lastSlashFrom,
          List.getElem?_eq_getElem hi]
        by_cases hc : aPath[i] = '/'
        · simp [hc, copyFromTo, List.take_succ_eq_append_getElem hi]
        · simpa [hc] using ih (Nat.le_of_succ_le hi)
  rw [lastSlashIn, hFrom _ (Nat.le_refl _), List.take_length]

/-! ## `removeDotSegments:` -/

/-- An empty segment, which `substrings:` drops. -/
def emptySegment (seg : Text) : Bool := decide (seg = [])

theorem walk_filter (stack segs : List Text) :
    walk (fun _ => false) stack (segs.filter (· ≠ [])) = walk emptySegment stack segs := by
  induction segs generalizing stack with
  | nil => rfl
  | cons seg segs ih =>
      by_cases hSeg : seg = []
      · simpa [hSeg, walk, push, emptySegment] using ih stack
      · have hPush : push (fun _ => false) stack seg = push emptySegment stack seg := by
          simp [push, emptySegment, hSeg]
        simp only [walk] at ih ⊢
        rw [List.filter_cons_of_pos (by simpa using hSeg), List.foldl_cons, List.foldl_cons,
          hPush, ih]

/-- The segments kept are the stack of a walk, read from its bottom. -/
theorem keepSegments_eq (segs : List Text) :
    keepSegments segs = (walk (fun _ => false) [] segs).reverse := by
  have hStack : ∀ stack : List Text,
      segs.foldl (fun out seg =>
        if seg = ['.', '.'] then out.dropLast
        else if seg = ['.'] then out
        else out ++ [seg]) stack.reverse = (walk (fun _ => false) stack segs).reverse := by
    induction segs with
    | nil => intro stack; rfl
    | cons seg segs ih =>
        intro stack
        rw [List.foldl_cons, walk, List.foldl_cons, ← walk, ← ih]
        congr 1
        unfold push
        by_cases hDotDot : seg = ['.', '.']
        · simp [hDotDot]
        · by_cases hDot : seg = ['.'] <;> simp [hDotDot, hDot]
  simpa [keepSegments] using hStack []

theorem flatMap_slash (segs : List Text) :
    (segs.flatMap fun seg => '/' :: seg) = slashed segs := by
  induction segs with
  | nil => rfl
  | cons seg segs ih => simp [slashed, ih]

/-- What follows the last slash of a text is what it ends with. -/
theorem endsWith_slash {pre last part : Text} (hLast : '/' ∉ last) (hPart : '/' ∉ part) :
    endsWith (pre ++ '/' :: last) ('/' :: part) = true ↔ last = part := by
  rw [endsWith, List.isSuffixOf_iff_suffix]
  constructor
  · rintro ⟨before, hb⟩
    have hRev := congrArg List.reverse hb
    simp only [List.reverse_append, List.reverse_cons, List.append_assoc,
      List.cons_append, List.nil_append] at hRev
    have hCut := @cut_append_cons '/' part.reverse (by simpa using hPart) before.reverse
    rw [hRev, cut_append_cons (by simpa using hLast)] at hCut
    simpa using (Prod.ext_iff.mp hCut).1
  · rintro rfl
    exact List.suffix_append _ _

theorem walk_body (stack segs : List Text) :
    walk emptySegment stack (body segs) = walk emptySegment stack segs := by
  unfold body
  split
  next h =>
    obtain ⟨init, rfl⟩ := List.getLast?_eq_some_iff.mp h
    simp [walk, push, emptySegment]
  next => rfl

/-- When the last slash is kept, it is because of how the path ends. -/
theorem slash_iff_ending {r : Text} :
    (keepSegments (substrings ('/' :: r) '/') = [] ∨ endsWith ('/' :: r) ['/'] ∨
      endsWith ('/' :: r) ['/', '.'] ∨ endsWith ('/' :: r) ['/', '.', '.']) ↔
    ending (segments r) = [[]] := by
  obtain ⟨last, hLast⟩ : ∃ last, (segments r).getLast? = some last :=
    ⟨_, List.getLast?_eq_some_getLast (segments_ne_nil r)⟩
  obtain ⟨init, hSegs⟩ := List.getLast?_eq_some_iff.mp hLast
  have hNoSlash : '/' ∉ last := notMem_of_mem_segments (by rw [hSegs]; simp)
  have hPath : '/' :: r = slashed init ++ '/' :: last := by
    rw [← slashed_segments, hSegs]
    simp [slashed]
  have hEnds : ∀ part : Text, '/' ∉ part →
      (endsWith ('/' :: r) ('/' :: part) = true ↔ last = part) := fun part hp => by
    rw [hPath, endsWith_slash hNoSlash hp]
  rw [hEnds [] (by simp), hEnds ['.'] (by decide), hEnds ['.', '.'] (by decide)]
  have hEnding : ending (segments r) = [[]] ↔ last = [] ∨ DotSegment last := by
    by_cases hd : last = [] ∨ DotSegment last <;> simp [ending, hLast, hd]
  rw [hEnding]
  refine ⟨?_, fun h => .inr h⟩
  rintro (hNone | h)
  · -- a last segment that is neither empty nor a dot segment is kept
    by_contra hPlain
    simp only [DotSegment, not_or] at hPlain
    have hFilter : substrings ('/' :: r) '/' = (init.filter (· ≠ [])) ++ [last] := by
      have : ('/' :: r).splitOn '/' = [] :: segments r := segments_slash r
      rw [substrings, this, hSegs]
      simp [hPlain.1]
    rw [hFilter, keepSegments] at hNone
    simp [hPlain.2.1, hPlain.2.2] at hNone
  · exact h

/-- The path part of `removeDotSegments:` is one walk over the segments that passes over the
empty ones. -/
theorem removeDotSegments_slash {r query : Text} (hr : '?' ∉ r)
    (hq : query = [] ∨ query.head? = some '?') :
    removeDotSegments ('/' :: r ++ query) =
      slashed ((walk emptySegment [] (body (segments r))).reverse ++ ending (segments r)) ++
        query := by
  have hPathQuery :
      (if indexOf '?' ('/' :: r ++ query) = 0 then '/' :: r ++ query
        else copyFromTo ('/' :: r ++ query) 1 (indexOf '?' ('/' :: r ++ query) - 1)) =
          '/' :: r ∧
      (if indexOf '?' ('/' :: r ++ query) = 0 then []
        else copyFromTo ('/' :: r ++ query) (indexOf '?' ('/' :: r ++ query))
          ('/' :: r ++ query).length) = query := by
    have hPath : '?' ∉ '/' :: r := by simpa using hr
    cases query with
    | nil => rw [List.append_nil, indexOf_of_notMem hPath]; simp
    | cons c q =>
        obtain rfl : c = '?' := by simpa using hq
        rw [indexOf_append_cons hPath, copyFromTo_suffix rfl, Nat.add_sub_cancel,
          copyFromTo_prefix rfl]
        simp
  have hKeep : keepSegments (substrings ('/' :: r) '/') =
      (walk emptySegment [] (body (segments r))).reverse := by
    have hSplit : ('/' :: r).splitOn '/' = [] :: segments r := segments_slash r
    rw [keepSegments_eq, substrings, walk_filter, hSplit, walk_body]
    simp [walk, push, emptySegment]
  have hSlash := slash_iff_ending (r := r)
  rw [hKeep] at hSlash
  simp only [removeDotSegments, hPathQuery.1, hPathQuery.2, flatMap_slash, hKeep, hSlash]
  split
  next h => simp [h, slashed]
  next h =>
    have hEnding : ending (segments r) = [] := by
      unfold ending at h ⊢
      split <;> simp_all
    simp [hEnding]

end ProtoST.Http

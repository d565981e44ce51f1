import Mathlib.Algebra.Group.Nat.Defs
import Mathlib.Data.List.DropRight
import Mathlib.Tactic.Common
import ProtoST.Lib.Occurrences

/-!
# Strings

The UTF-8 decoder and encoder of `primitives/string_prims.cpp` and the primitives that go through
them.  A string of protoCore is a sequence of code points; it is made of a C string, which ends
at its first zero byte, so it holds no U+0000 (`Str`).  protoCore's conversions are a parameter
(`Core`).

A read past the end of the bytes is `Signal.overrun`.  A string has at most `2 ^ 31` characters, so
`asLong` and `static_cast<int>` keep the indices within it; any other integer, also one that
`asLong` does not read, is an index out of its bounds.

## Main results

* `decodeCodepoints_eq` — the decoder reads no byte past the end.
* `decodeCodepoints_utf8` — decoding is inverse to encoding.
* `decodeCodepoints_around` — ill-formed bytes do not touch what is well formed around them.
* `synchronizing` — a text is found in the bytes where it is found in the code points.
-/

namespace ProtoST.Primitives.Strings

inductive Signal where
  | subscriptOutOfBounds (text : String)
  | error (text : String)
  | overrun
  deriving DecidableEq, Repr

/-! ## The decoder and the encoder -/

/-- The bits of the code point in a first byte, and the number of bytes after it. -/
def leadByte (c : UInt8) : Option (Nat × Nat) :=
  let c := c.toNat
  if c < 0x80 then some (c, 0)
  else if c >>> 5 = 0x6 then some (c &&& 0x1F, 1)
  else if c >>> 4 = 0xE then some (c &&& 0x0F, 2)
  else if c >>> 3 = 0x1E then some (c &&& 0x07, 3)
  else none

/-- A byte that is not the first of a character. -/
def isContinuation (c : UInt8) : Bool := c.toNat >>> 6 = 0x2

/-- A byte of the text. -/
def byteAt (s : List UInt8) (i : Nat) : Except Signal UInt8 :=
  match s[i]? with
  | some c => .ok c
  | none => .error .overrun

/-- The loop over the bytes after a first one, from `i` on. -/
def continuations (s : List UInt8) : Nat → Nat → Nat → Except Signal (Option Nat)
  | _, 0, cp => .ok (some cp)
  | i, k + 1, cp => do
      let cc ← byteAt s i
      if isContinuation cc then continuations s (i + 1) k ((cp <<< 6) ||| (cc.toNat &&& 0x3F))
      else .ok none

/-- The loop of `decodeCodepoints`. -/
def decodeLoop (s : List UInt8) (i : Nat) (out : List Nat) : Except Signal (List Nat) :=
  if i < s.length then do
    let c ← byteAt s i
    match leadByte c with
    | none => decodeLoop s (i + 1) (out ++ [c.toNat])
    | some (cp, extra) =>
        if i + extra ≥ s.length then decodeLoop s (i + 1) (out ++ [c.toNat])
        else do
          match ← continuations s (i + 1) extra cp with
          | none => decodeLoop s (i + 1) (out ++ [c.toNat])
          | some cp => decodeLoop s (i + extra + 1) (out ++ [cp])
  else .ok out
termination_by s.length - i

/-- `decodeCodepoints`. -/
def decodeCodepoints (s : List UInt8) : Except Signal (List Nat) := decodeLoop s 0 []

/-- `encodeCodepoint`. -/
def encodeCodepoint (cp : Nat) : List UInt8 :=
  if cp < 0x80 then [.ofNat cp]
  else if cp < 0x800 then [.ofNat (0xC0 ||| (cp >>> 6)), .ofNat (0x80 ||| (cp &&& 0x3F))]
  else if cp < 0x10000 then
    [.ofNat (0xE0 ||| (cp >>> 12)), .ofNat (0x80 ||| ((cp >>> 6) &&& 0x3F)),
      .ofNat (0x80 ||| (cp &&& 0x3F))]
  else
    [.ofNat (0xF0 ||| (cp >>> 18)), .ofNat (0x80 ||| ((cp >>> 12) &&& 0x3F)),
      .ofNat (0x80 ||| ((cp >>> 6) &&& 0x3F)), .ofNat (0x80 ||| (cp &&& 0x3F))]

/-- The UTF-8 text of some code points. -/
def utf8 (cps : List Nat) : List UInt8 := cps.flatMap encodeCodepoint

/-- `encodeAll`. -/
def encodeAll (cps : List Nat) (start stop : Nat) : List UInt8 := utf8 ((cps.take stop).drop start)

/-! ## Characters by their bytes -/

theorem mask_six (n : Nat) : n &&& 0x3F = n % 64 := Nat.and_two_pow_sub_one_eq_mod n 6

theorem continuation_spec {y : Nat} (hy : y < 64) :
    isContinuation (.ofNat (0x80 ||| y)) = true ∧
      (UInt8.ofNat (0x80 ||| y)).toNat &&& 0x3F = y := by
  have h : ∀ y < 64, isContinuation (.ofNat (0x80 ||| y)) = true ∧
      (UInt8.ofNat (0x80 ||| y)).toNat &&& 0x3F = y := by decide
  exact h y hy

theorem lead_two {x : Nat} (hx : x < 32) :
    leadByte (.ofNat (0xC0 ||| x)) = some (x, 1) ∧
      isContinuation (.ofNat (0xC0 ||| x)) = false := by
  have h : ∀ x < 32, leadByte (.ofNat (0xC0 ||| x)) = some (x, 1) ∧
      isContinuation (.ofNat (0xC0 ||| x)) = false := by decide
  exact h x hx

theorem lead_three {x : Nat} (hx : x < 16) :
    leadByte (.ofNat (0xE0 ||| x)) = some (x, 2) ∧
      isContinuation (.ofNat (0xE0 ||| x)) = false := by
  have h : ∀ x < 16, leadByte (.ofNat (0xE0 ||| x)) = some (x, 2) ∧
      isContinuation (.ofNat (0xE0 ||| x)) = false := by decide
  exact h x hx

theorem lead_four {x : Nat} (hx : x < 8) :
    leadByte (.ofNat (0xF0 ||| x)) = some (x, 3) ∧
      isContinuation (.ofNat (0xF0 ||| x)) = false := by
  have h : ∀ x < 8, leadByte (.ofNat (0xF0 ||| x)) = some (x, 3) ∧
      isContinuation (.ofNat (0xF0 ||| x)) = false := by decide
  exact h x hx

theorem lead_one {x : Nat} (hx : x < 128) :
    leadByte (.ofNat x) = some (x, 0) ∧ isContinuation (.ofNat x) = false := by
  have h : ∀ x < 128, leadByte (.ofNat x) = some (x, 0) ∧
      isContinuation (.ofNat x) = false := by decide
  exact h x hx

/-- The code point that bytes after a first one complete, if they do. -/
def joined : List UInt8 → Nat → Option Nat
  | [], cp => some cp
  | cc :: rest, cp =>
      if isContinuation cc then joined rest ((cp <<< 6) ||| (cc.toNat &&& 0x3F)) else none

theorem joined_continuation {x y : Nat} (hy : y < 64) (rest : List UInt8) :
    joined (.ofNat (0x80 ||| y) :: rest) x = joined rest (x * 64 + y) := by
  obtain ⟨hCont, hBits⟩ := continuation_spec hy
  rw [joined, if_pos hCont, hBits, ← Nat.shiftLeft_add_eq_or_of_lt (i := 6) hy, Nat.shiftLeft_eq]

/-- A character is a first byte, and the bytes that complete its code point. -/
theorem encodeCodepoint_word {cp : Nat} (h : cp ≤ 0x10FFFF) :
    ∃ b t x, encodeCodepoint cp = b :: t ∧ leadByte b = some (x, t.length) ∧
      joined t x = some cp ∧ isContinuation b = false ∧ ∀ c ∈ t, isContinuation c = true := by
  have hMod : ∀ n, n % 64 < 64 := fun n => Nat.mod_lt n (by decide)
  have hCont : ∀ n, isContinuation (.ofNat (0x80 ||| n % 64)) = true := fun n =>
    (continuation_spec (hMod n)).1
  unfold encodeCodepoint
  simp only [mask_six, Nat.shiftRight_eq_div_pow]
  split
  next h1 =>
    obtain ⟨hLead, hFirst⟩ := lead_one h1
    exact ⟨_, _, _, rfl, hLead, rfl, hFirst, by simp⟩
  next h1 =>
    split
    next h2 =>
      obtain ⟨hLead, hFirst⟩ := lead_two (x := cp / 2 ^ 6) (by omega)
      refine ⟨_, _, _, rfl, hLead, ?_, hFirst, ?_⟩
      · rw [joined_continuation (hMod cp), joined]
        exact congrArg some (by omega)
      · exact List.forall_mem_cons.mpr ⟨hCont _, List.forall_mem_nil _⟩
    next h2 =>
      split
      next h3 =>
        obtain ⟨hLead, hFirst⟩ := lead_three (x := cp / 2 ^ 12) (by omega)
        refine ⟨_, _, _, rfl, hLead, ?_, hFirst, ?_⟩
        · rw [joined_continuation (hMod _), joined_continuation (hMod cp), joined]
          exact congrArg some (by omega)
        · exact List.forall_mem_cons.mpr ⟨hCont _,
            List.forall_mem_cons.mpr ⟨hCont _, List.forall_mem_nil _⟩⟩
      next h3 =>
        obtain ⟨hLead, hFirst⟩ := lead_four (x := cp / 2 ^ 18) (by omega)
        refine ⟨_, _, _, rfl, hLead, ?_, hFirst, ?_⟩
        · rw [joined_continuation (hMod _), joined_continuation (hMod _),
            joined_continuation (hMod cp), joined]
          exact congrArg some (by omega)
        · exact List.forall_mem_cons.mpr ⟨hCont _, List.forall_mem_cons.mpr ⟨hCont _,
            List.forall_mem_cons.mpr ⟨hCont _, List.forall_mem_nil _⟩⟩⟩

/-! ## The decoder on lists -/

/-- The decoder, on what is left of the bytes. -/
def decoded : List UInt8 → List Nat
  | [] => []
  | c :: rest =>
      match leadByte c with
      | none => c.toNat :: decoded rest
      | some (cp, extra) =>
          if rest.length < extra then c.toNat :: decoded rest
          else
            match joined (rest.take extra) cp with
            | none => c.toNat :: decoded rest
            | some cp => cp :: decoded (rest.drop extra)
termination_by s => s.length
decreasing_by
  all_goals
    simp only [List.length_cons, List.length_drop]
    omega

theorem continuations_eq (s : List UInt8) (i k cp : Nat) (h : i + k ≤ s.length) :
    continuations s i k cp = .ok (joined ((s.drop i).take k) cp) := by
  induction k generalizing i cp with
  | zero => rfl
  | succ k ih =>
      have hLt : i < s.length := by omega
      have hByte : byteAt s i = .ok s[i] := by rw [byteAt, List.getElem?_eq_getElem hLt]
      rw [continuations, hByte, List.drop_eq_getElem_cons hLt, List.take_succ_cons, joined]
      change (if _ then _ else _) = _
      split
      next => exact ih (i + 1) _ (by omega)
      next => rfl

theorem decodeLoop_eq (s : List UInt8) (i : Nat) (out : List Nat) :
    decodeLoop s i out = .ok (out ++ decoded (s.drop i)) := by
  induction hSize : s.length - i using Nat.strong_induction_on generalizing i out with
  | _ size ih =>
      rw [decodeLoop]
      split
      next hLt =>
        have hByte : byteAt s i = .ok s[i] := by rw [byteAt, List.getElem?_eq_getElem hLt]
        have hNext : ∀ cp, decodeLoop s (i + 1) (out ++ [cp]) =
            .ok (out ++ cp :: decoded (s.drop (i + 1))) := fun cp => by
          rw [ih (s.length - (i + 1)) (by omega) (i + 1) _ rfl, List.append_assoc]
          rfl
        rw [hByte, List.drop_eq_getElem_cons hLt, decoded]
        change (match leadByte s[i] with
          | none => decodeLoop s (i + 1) (out ++ [s[i].toNat])
          | some (cp, extra) => _) = _
        cases hLead : leadByte s[i] with
        | none => exact hNext _
        | some lead =>
            obtain ⟨cp, extra⟩ := lead
            dsimp only
            rw [List.length_drop]
            by_cases hShort : i + extra ≥ s.length
            · rw [if_pos hShort, if_pos (by omega)]
              exact hNext _
            · rw [if_neg hShort, if_neg (by omega), continuations_eq s (i + 1) extra cp (by omega)]
              change (match joined ((s.drop (i + 1)).take extra) cp with
                | none => decodeLoop s (i + 1) (out ++ [s[i].toNat])
                | some cp => decodeLoop s (i + extra + 1) (out ++ [cp])) = _
              cases joined ((s.drop (i + 1)).take extra) cp with
              | none => exact hNext _
              | some cp =>
                  dsimp only
                  rw [ih (s.length - (i + extra + 1)) (by omega) (i + extra + 1) _ rfl,
                    List.append_assoc, List.drop_drop,
                    show i + extra + 1 = i + 1 + extra by omega]
                  rfl
      next hGe =>
        rw [List.drop_eq_nil_of_le (Nat.not_lt.mp hGe), decoded, List.append_nil]

/-- The decoder reads no byte past the end. -/
theorem decodeCodepoints_eq (s : List UInt8) : decodeCodepoints s = .ok (decoded s) :=
  decodeLoop_eq s 0 []

theorem decoded_encodeCodepoint {cp : Nat} (h : cp ≤ 0x10FFFF) (rest : List UInt8) :
    decoded (encodeCodepoint cp ++ rest) = cp :: decoded rest := by
  obtain ⟨b, t, x, hWord, hLead, hJoined, -⟩ := encodeCodepoint_word h
  rw [hWord, List.cons_append, decoded, hLead]
  dsimp only
  rw [if_neg (by rw [List.length_append]; omega), List.take_left, hJoined, List.drop_left]

variable {cps : List Nat}

theorem decoded_utf8_append (h : ∀ c ∈ cps, c ≤ 0x10FFFF) (rest : List UInt8) :
    decoded (utf8 cps ++ rest) = cps ++ decoded rest := by
  induction cps with
  | nil => rfl
  | cons c cps ih =>
      rw [utf8, List.flatMap_cons, List.append_assoc,
        decoded_encodeCodepoint (h c List.mem_cons_self)]
      exact congrArg (c :: ·) (ih fun d hd => h d (List.mem_cons_of_mem c hd))

theorem decoded_utf8 (h : ∀ c ∈ cps, c ≤ 0x10FFFF) : decoded (utf8 cps) = cps := by
  have hAppend := decoded_utf8_append h []
  rwa [List.append_nil, decoded, List.append_nil] at hAppend

/-- Decoding is inverse to encoding. -/
theorem decodeCodepoints_utf8 (h : ∀ c ∈ cps, c ≤ 0x10FFFF) :
    decodeCodepoints (utf8 cps) = .ok cps := by
  rw [decodeCodepoints_eq, decoded_utf8 h]

/-- Bytes that the decoder may meet anywhere: they are empty or begin with a first byte. -/
def Starts (s : List UInt8) : Prop := ∀ c ∈ s.head?, isContinuation c = false

theorem starts_utf8 (h : ∀ c ∈ cps, c ≤ 0x10FFFF) : Starts (utf8 cps) := by
  cases cps with
  | nil => simp [Starts, utf8]
  | cons c cps =>
      obtain ⟨b, t, x, hWord, -, -, hFirst, -⟩ := encodeCodepoint_word (h c List.mem_cons_self)
      simp [Starts, utf8, hWord, hFirst]

theorem joined_short {bad post : List UInt8} (hPost : Starts post) {extra : Nat}
    (hShort : bad.length < extra) (hLong : extra ≤ (bad ++ post).length) (cp : Nat) :
    joined ((bad ++ post).take extra) cp = none := by
  induction bad generalizing extra cp with
  | nil =>
      cases post with
      | nil => simp at hLong; omega
      | cons c post =>
          obtain ⟨k, rfl⟩ : ∃ k, extra = k + 1 := ⟨extra - 1, by simp at hShort; omega⟩
          rw [List.nil_append, List.take_succ_cons, joined, if_neg]
          rw [hPost c rfl]
          exact Bool.false_ne_true
  | cons b bad ih =>
      obtain ⟨k, rfl⟩ : ∃ k, extra = k + 1 := ⟨extra - 1, by simp at hShort; omega⟩
      rw [List.cons_append, List.take_succ_cons, joined]
      split
      next =>
        simp only [List.length_cons, List.cons_append] at hShort hLong
        exact ih (by omega) (by omega) _
      next => rfl

/-- The decoder finds the first byte after any bytes. -/
theorem decoded_append (bad : List UInt8) {post : List UInt8} (hPost : Starts post) :
    decoded (bad ++ post) = decoded bad ++ decoded post := by
  induction hSize : bad.length using Nat.strong_induction_on generalizing bad with
  | _ size ih =>
      cases bad with
      | nil => rw [decoded]; rfl
      | cons c rest =>
          have hRest := ih rest.length (by rw [← hSize]; exact Nat.lt_succ_self _) rest rfl
          rw [List.cons_append, decoded, decoded]
          cases hLead : leadByte c with
          | none => exact congrArg (c.toNat :: ·) hRest
          | some lead =>
              obtain ⟨cp, extra⟩ := lead
              dsimp only
              by_cases hShort : rest.length < extra
              · have hNone : (if (rest ++ post).length < extra then c.toNat :: decoded
                  (rest ++ post)
                    else match joined ((rest ++ post).take extra) cp with
                      | none => c.toNat :: decoded (rest ++ post)
                      | some cp => cp :: decoded ((rest ++ post).drop extra)) =
                    c.toNat :: decoded (rest ++ post) := by
                  split
                  next => rfl
                  next hLong => rw [joined_short hPost hShort (Nat.not_lt.mp hLong)]
                rw [hNone, if_pos hShort, hRest]
                rfl
              · have hLe : extra ≤ rest.length := Nat.not_lt.mp hShort
                rw [if_neg hShort, if_neg (by rw [List.length_append]; omega),
                  List.take_append_of_le_length hLe, List.drop_append_of_le_length hLe]
                cases joined (rest.take extra) cp with
                | none => exact congrArg (c.toNat :: ·) hRest
                | some cp =>
                    refine congrArg (cp :: ·) (ih (rest.drop extra).length ?_ _ rfl)
                    rw [← hSize, List.length_drop, List.length_cons]
                    omega

/-- Ill-formed bytes do not touch what is well formed around them. -/
theorem decodeCodepoints_around {before after : List Nat} (hBefore : ∀ c ∈ before, c ≤ 0x10FFFF)
    (hAfter : ∀ c ∈ after, c ≤ 0x10FFFF) (bad : List UInt8) :
    decodeCodepoints (utf8 before ++ (bad ++ utf8 after)) =
      .ok (before ++ (decoded bad ++ after)) := by
  rw [decodeCodepoints_eq, decoded_utf8_append hBefore, decoded_append bad (starts_utf8 hAfter),
    decoded_utf8 hAfter]

/-- A text is found in the bytes where it is found in the code points. -/
theorem synchronizing : Occurrences.Synchronizing encodeCodepoint (· ≤ 0x10FFFF)
    (fun b => isContinuation b = false) where
  word cp h := by
    obtain ⟨b, t, x, hWord, -, -, hFirst, hRest⟩ := encodeCodepoint_word h
    exact ⟨b, t, hWord, hFirst, fun c hc hNot => absurd (hRest c hc) (by rw [hNot]; decide)⟩
  prefix_free a b ha hb h := by
    obtain ⟨rest, hRest⟩ := h
    have hLeft := decoded_encodeCodepoint ha rest
    have hRight := decoded_encodeCodepoint hb []
    rw [List.append_nil, ← hRest, hLeft] at hRight
    exact (List.cons.inj hRight).1

/-! ## Strings -/

/-- A string: it is made of a C string, so it holds no U+0000. -/
structure Str where
  codes : List Nat
  stored : ∀ c ∈ codes, 0 < c ∧ c ≤ 0x10FFFF

theorem Str.ext_codes {s t : Str} (h : s.codes = t.codes) : s = t := by
  cases s
  cases t
  cases h
  rfl

theorem Str.code_le (s : Str) : ∀ c ∈ s.codes, c ≤ 0x10FFFF := fun c hc => (s.stored c hc).2

/-- protoCore's `fromUTF8String`, on a C string.  It decodes UTF-8. -/
structure Core where
  fromUTF8String : List UInt8 → Str
  fromUTF8String_utf8 : ∀ s : Str, fromUTF8String (utf8 s.codes) = s

/-- The part of the bytes that their `c_str` holds. -/
def cStr (bytes : List UInt8) : List UInt8 := bytes.takeWhile (· ≠ 0)

/-- `toUtf8`. -/
def toUtf8 (s : Str) : List UInt8 := utf8 s.codes

section Primitives

variable (core : Core)

/-- A string of some bytes. -/
def fromBytes (bytes : List UInt8) : Str := core.fromUTF8String (cStr bytes)

/-- An index that is out of the bounds of a string. -/
def atError (idx size : Int) : Signal :=
  .subscriptOutOfBounds s!"String>>at: index {idx} out of bounds (size {size})"

/-- A range that is. -/
def copyRangeError (start stop : Int) (size : Nat) : Signal :=
  .subscriptOutOfBounds s!"copyFrom:to: range {start} to {stop} out of bounds (size {size})"

/-- `at:`. -/
def strAt (s : Str) (idx : Int) : Except Signal Nat :=
  let size : Int := s.codes.length
  if idx < 1 ∨ idx > size then .error (atError idx size)
  else .ok (s.codes.getD (idx - 1).toNat 0)

/-- `,`, of two strings. -/
def strConcat (s t : Str) : Str where
  codes := s.codes ++ t.codes
  stored c hc := by
    rw [List.mem_append] at hc
    exact hc.elim (s.stored c) (t.stored c)

/-- `size`. -/
def strSize (s : Str) : Except Signal Int := do return (← decodeCodepoints (toUtf8 s)).length

/-- `=`. -/
def strEq (s t : Str) : Bool := toUtf8 s == toUtf8 t

/-- `Character >> asString`. -/
def charAsString (c : Nat) : Str := fromBytes core (encodeCodepoint c)

/-- `copyFrom:to:`. -/
def strCopyFromTo (s : Str) (start stop : Int) : Except Signal Str := do
  let cps ← decodeCodepoints (toUtf8 s)
  let size := cps.length
  if stop < start then .ok (fromBytes core [])
  else if start < 1 ∨ stop > size then
    .error (copyRangeError start stop size)
  else .ok (fromBytes core (encodeAll cps (start - 1).toNat stop.toNat))

/-- `caseMap`. -/
def caseMap (cp : Nat) (upper : Bool) : Nat :=
  if cp < 0x80 then
    if upper then (if 0x61 ≤ cp ∧ cp ≤ 0x7A then cp - 0x20 else cp)
    else (if 0x41 ≤ cp ∧ cp ≤ 0x5A then cp + 0x20 else cp)
  else if upper ∧ cp ≥ 0xE0 ∧ cp ≤ 0xFE ∧ cp ≠ 0xF7 then cp - 0x20
  else if ¬ upper ∧ cp ≥ 0xC0 ∧ cp ≤ 0xDE ∧ cp ≠ 0xD7 then cp + 0x20
  else cp

/-- `mapCase`. -/
def mapCase (s : Str) (upper : Bool) : Except Signal Str := do
  let cps := (← decodeCodepoints (toUtf8 s)).map (caseMap · upper)
  return fromBytes core (encodeAll cps 0 cps.length)

/-- `reversed`. -/
def strReversed (s : Str) : Except Signal Str := do
  let cps := (← decodeCodepoints (toUtf8 s)).reverse
  return fromBytes core (encodeAll cps 0 cps.length)

/-- `std::string::find`, from a position on. -/
def findFrom (s p : List UInt8) (pos : Nat) : Option Nat :=
  (Occurrences.find p (s.drop pos)).map (pos + ·)

theorem findFrom_bounds {s p : List UInt8} {pos hit : Nat} (h : findFrom s p pos = some hit)
    (hp : p ≠ []) : pos ≤ hit ∧ hit < s.length := by
  obtain ⟨i, hi, rfl⟩ := Option.map_eq_some_iff.mp h
  have hLess := Occurrences.length_drop_find hp hi
  have hHere := (Occurrences.find_eq_some_iff.mp hi).2.1.length_le
  have hPos := List.length_pos_iff.mpr hp
  simp only [List.length_drop] at hLess hHere
  omega

/-- `includesSubstring:`. -/
def strIncludesSubstring (s p : Str) : Bool := (findFrom (toUtf8 s) (toUtf8 p) 0).isSome

/-- The loop of `copyReplaceAll:with:`. -/
def replaceLoop (s p q : List UInt8) (pos : Nat) (out : List UInt8) : List UInt8 :=
  if _hp : p = [] then out
  else
    match _h : findFrom s p pos with
    | some hit => replaceLoop s p q (hit + p.length) (out ++ (s.drop pos).take (hit - pos) ++ q)
    | none => out ++ s.drop pos
termination_by s.length - pos
decreasing_by
  have hBounds := findFrom_bounds _h _hp
  have hPos := List.length_pos_iff.mpr _hp
  omega

/-- `copyReplaceAll:with:`. -/
def strCopyReplaceAll (s p q : Str) : Str :=
  let text := toUtf8 s
  if toUtf8 p = [] then fromBytes core text
  else fromBytes core (replaceLoop text (toUtf8 p) (toUtf8 q) 0 [])

/-- `std::isspace`. -/
def isSpace (c : UInt8) : Bool := c = 0x20 || (0x09 ≤ c && c ≤ 0x0D)

/-- `trimBoth`. -/
def strTrimBoth (s : Str) : Str :=
  fromBytes core (((toUtf8 s).dropWhile isSpace).rdropWhile isSpace)

/-! ## What they answer -/

theorem zero_mem_encodeCodepoint {cp : Nat} (h : cp ≤ 0x10FFFF) (hNe : cp ≠ 0) :
    ∀ b ∈ encodeCodepoint cp, b ≠ 0 := by
  obtain ⟨b, t, x, hWord, hLead, hJoined, -, hRest⟩ := encodeCodepoint_word h
  rw [hWord]
  intro c hc hZero
  rcases List.mem_cons.mp hc with rfl | hMem
  · rw [hZero] at hLead
    obtain ⟨hx, hLength⟩ := Prod.mk.inj (Option.some.inj hLead)
    rw [List.length_eq_zero_iff.mp hLength.symm, ← hx] at hJoined
    exact hNe (Option.some.inj hJoined).symm
  · have hCont := hRest c hMem
    rw [hZero] at hCont
    exact absurd hCont (by decide)

variable {cps : List Nat}

/-- A C string ends at the first U+0000 of its text. -/
theorem cStr_utf8 (h : ∀ c ∈ cps, c ≤ 0x10FFFF) :
    cStr (utf8 cps) = utf8 (cps.takeWhile (· ≠ 0)) := by
  induction cps with
  | nil => rfl
  | cons c cps ih =>
      have hRest := ih fun d hd => h d (List.mem_cons_of_mem c hd)
      by_cases hZero : c = 0
      · rw [hZero]
        rfl
      · have hWord := zero_mem_encodeCodepoint (h c List.mem_cons_self) hZero
        rw [List.takeWhile_cons_of_pos (by simp [hZero]), cStr, utf8, List.flatMap_cons,
          List.takeWhile_append_of_pos (by simpa using hWord)]
        exact congrArg (encodeCodepoint c ++ ·) hRest

/-- The string of a text that may hold a U+0000 ends there. -/
def upToNul (cps : List Nat) (h : ∀ c ∈ cps, c ≤ 0x10FFFF) : Str where
  codes := cps.takeWhile (· ≠ 0)
  stored c hc := by
    have hNe := List.mem_takeWhile_imp hc
    simp only [ne_eq, decide_not, Bool.not_eq_true', decide_eq_false_iff_not] at hNe
    exact ⟨Nat.pos_of_ne_zero hNe, h c ((List.takeWhile_prefix _).subset hc)⟩

theorem fromBytes_utf8 (h : ∀ c ∈ cps, c ≤ 0x10FFFF) :
    fromBytes core (utf8 cps) = upToNul cps h := by
  rw [fromBytes, cStr_utf8 h]
  exact core.fromUTF8String_utf8 (upToNul cps h)

/-- A text without U+0000 is kept. -/
theorem fromBytes_stored (h : ∀ c ∈ cps, 0 < c ∧ c ≤ 0x10FFFF) :
    (fromBytes core (utf8 cps)).codes = cps := by
  rw [fromBytes_utf8 core fun c hc => (h c hc).2]
  refine List.takeWhile_eq_self_iff.mpr fun c hc => ?_
  simp only [ne_eq, decide_not, Bool.not_eq_true', decide_eq_false_iff_not]
  exact Nat.ne_of_gt (h c hc).1

variable (s p q : Str)

theorem decode_toUtf8 : decodeCodepoints (toUtf8 s) = .ok s.codes :=
  decodeCodepoints_utf8 s.code_le

theorem strSize_eq : strSize s = .ok s.codes.length := by
  rw [strSize, decode_toUtf8]
  rfl

theorem strEq_iff : strEq s p = true ↔ s.codes = p.codes := by
  rw [strEq, beq_iff_eq]
  refine ⟨fun h => ?_, fun h => congrArg utf8 h⟩
  rw [← decoded_utf8 s.code_le, ← decoded_utf8 p.code_le]
  exact congrArg decoded h

/-- The characters from `start` to `stop`. -/
def Str.slice (s : Str) (start stop : Int) : Str where
  codes := (s.codes.take stop.toNat).drop (start - 1).toNat
  stored c hc := s.stored c (List.mem_of_mem_take (List.mem_of_mem_drop hc))

theorem strCopyFromTo_eq {start stop : Int}
    (h : stop < start ∨ 1 ≤ start ∧ stop ≤ s.codes.length) :
    strCopyFromTo core s start stop = .ok (s.slice start stop) := by
  rw [strCopyFromTo, decode_toUtf8]
  change (if _ then _ else _) = _
  split
  next hEmpty =>
    refine congrArg Except.ok (Str.ext_codes ?_)
    have hNil : (s.slice start stop).codes = [] :=
      List.drop_eq_nil_of_le (by rw [List.length_take]; omega)
    rw [hNil]
    exact @fromBytes_stored core [] (by simp)
  next hEmpty =>
    rw [if_neg (by omega)]
    exact congrArg Except.ok (Str.ext_codes (fromBytes_stored core (s.slice start stop).stored))

theorem strCopyFromTo_error {start stop : Int} (hLe : start ≤ stop)
    (h : start < 1 ∨ stop > s.codes.length) :
    strCopyFromTo core s start stop = .error (copyRangeError start stop s.codes.length) := by
  rw [strCopyFromTo, decode_toUtf8]
  change (if _ then _ else if _ then _ else _) = _
  rw [if_neg (Int.not_lt.mpr hLe), if_pos h]

theorem encodeAll_self (cps : List Nat) : encodeAll cps 0 cps.length = utf8 cps := by
  rw [encodeAll, List.take_length, List.drop_zero]

theorem strReversed_eq : ∃ t, strReversed core s = .ok t ∧ t.codes = s.codes.reverse := by
  rw [strReversed, decode_toUtf8]
  refine ⟨_, rfl, ?_⟩
  rw [encodeAll_self]
  exact fromBytes_stored core fun c hc => s.stored c (List.mem_reverse.mp hc)

theorem caseMap_stored {c : Nat} (h : 0 < c ∧ c ≤ 0x10FFFF) (upper : Bool) :
    0 < caseMap c upper ∧ caseMap c upper ≤ 0x10FFFF := by
  unfold caseMap
  split
  next => cases upper <;> simp only [Bool.false_eq_true, if_false, if_true] <;> split <;> omega
  next =>
    split
    next => omega
    next => split <;> omega

theorem mapCase_eq (upper : Bool) :
    ∃ t, mapCase core s upper = .ok t ∧ t.codes = s.codes.map (caseMap · upper) := by
  rw [mapCase, decode_toUtf8]
  refine ⟨_, rfl, ?_⟩
  rw [encodeAll_self]
  refine fromBytes_stored core fun c hc => ?_
  obtain ⟨d, hd, rfl⟩ := List.mem_map.mp hc
  exact caseMap_stored (s.stored d hd) upper

theorem strIncludesSubstring_iff (hp : p.codes ≠ []) :
    strIncludesSubstring s p = true ↔ p.codes <:+: s.codes := by
  have hFind := synchronizing.find_flatMap p.code_le hp s.code_le
  have hSome : strIncludesSubstring s p = (Occurrences.find p.codes s.codes).isSome := by
    rw [strIncludesSubstring, findFrom, List.drop_zero, Option.isSome_map]
    exact (congrArg Option.isSome hFind).trans Option.isSome_map
  rw [hSome, Option.isSome_iff_ne_none, ne_eq, Occurrences.find_eq_none_iff, not_not]

theorem replaceLoop_eq {s p : List UInt8} (q : List UInt8) (hp : p ≠ []) (pos : Nat)
    (out : List UInt8) :
    replaceLoop s p q pos out = out ++ Occurrences.replace p q (s.drop pos) := by
  induction hSize : s.length - pos using Nat.strong_induction_on generalizing pos out with
  | _ size ih =>
      rw [replaceLoop, dif_neg hp]
      split
      next hit hHit =>
        obtain ⟨hLe, hLt⟩ := findFrom_bounds hHit hp
        have hPos := List.length_pos_iff.mpr hp
        obtain ⟨i, hi, rfl⟩ := Option.map_eq_some_iff.mp hHit
        rw [ih _ (by omega) _ _ rfl, Occurrences.replace_of_some hp hi, List.drop_drop,
          Nat.add_sub_cancel_left, List.append_assoc, List.append_assoc, ← Nat.add_assoc]
      next hNone =>
        rw [Occurrences.replace_of_none (Option.map_eq_none_iff.mp hNone)]

/-- What is replaced in the bytes is replaced in the code points. -/
theorem strCopyReplaceAll_eq :
    (strCopyReplaceAll core s p q).codes = Occurrences.replace p.codes q.codes s.codes := by
  unfold strCopyReplaceAll
  by_cases hp : p.codes = []
  · have hEmpty : toUtf8 p = [] := by rw [toUtf8, hp]; rfl
    rw [if_pos hEmpty, hp, Occurrences.replace, dif_pos rfl]
    exact fromBytes_stored core s.stored
  · obtain ⟨b, t, hHead, -⟩ := synchronizing.head_lead p.code_le hp
    have hNe : toUtf8 p ≠ [] := by
      rw [toUtf8, utf8, hHead]
      exact List.cons_ne_nil b t
    rw [if_neg hNe, replaceLoop_eq _ hNe, List.nil_append, List.drop_zero]
    have hCode := synchronizing.replace_flatMap (q := q.codes) p.code_le hp s.code_le
    exact (congrArg (fun bytes => (fromBytes core bytes).codes) hCode).trans
      (fromBytes_stored core fun c hc =>
        (Occurrences.mem_replace hc).elim (q.stored c) (s.stored c))

/-- `std::isspace`, on a code point. -/
def isSpaceCode (c : Nat) : Bool := c = 0x20 || (0x09 ≤ c && c ≤ 0x0D)

theorem isSpace_lt {b : UInt8} (h : isSpace b = true) : b.toNat < 0x80 := by
  unfold isSpace at h
  simp only [Bool.or_eq_true, decide_eq_true_eq, Bool.and_eq_true] at h
  rcases h with rfl | ⟨-, hLe⟩
  · decide
  · have hNat : b.toNat ≤ 0x0D := hLe
    omega

theorem isSpace_ofNat {c : Nat} (h : c < 0x80) : isSpace (.ofNat c) = isSpaceCode c := by
  have hAll : ∀ c < 0x80, isSpace (.ofNat c) = isSpaceCode c := by decide
  exact hAll c h

theorem encodeCodepoint_space {c : Nat} (h : isSpaceCode c = true) :
    encodeCodepoint c = [.ofNat c] ∧ isSpace (.ofNat c) = true := by
  have hLt : c < 0x80 := by
    unfold isSpaceCode at h
    simp only [Bool.or_eq_true, decide_eq_true_eq, Bool.and_eq_true] at h
    omega
  exact ⟨by rw [encodeCodepoint, if_pos hLt], by rw [isSpace_ofNat hLt, h]⟩

/-- Only a space has a byte that is one. -/
theorem encodeCodepoint_not_space {c : Nat} (hLe : c ≤ 0x10FFFF) (h : isSpaceCode c = false) :
    ∀ b ∈ encodeCodepoint c, isSpace b = false := by
  obtain ⟨b, t, x, hWord, hLead, hJoined, -, hRest⟩ := encodeCodepoint_word hLe
  rw [hWord]
  intro d hd
  by_contra hSpace
  rw [Bool.not_eq_false] at hSpace
  have hLt := isSpace_lt hSpace
  rcases List.mem_cons.mp hd with rfl | hMem
  · have hOne : leadByte d = some (d.toNat, 0) := by rw [leadByte, if_pos hLt]
    rw [hOne] at hLead
    obtain ⟨hx, hLength⟩ := Prod.mk.inj (Option.some.inj hLead)
    rw [List.length_eq_zero_iff.mp hLength.symm, ← hx] at hJoined
    have hCode : d.toNat = c := Option.some.inj hJoined
    have hSame := isSpace_ofNat hLt
    rw [UInt8.ofNat_toNat, hCode, h, hSpace] at hSame
    exact absurd hSame (by decide)
  · have hCont := hRest d hMem
    unfold isContinuation at hCont
    rw [decide_eq_true_eq, Nat.shiftRight_eq_div_pow] at hCont
    omega

theorem dropWhile_utf8 (h : ∀ c ∈ cps, c ≤ 0x10FFFF) :
    (utf8 cps).dropWhile isSpace = utf8 (cps.dropWhile isSpaceCode) := by
  induction cps with
  | nil => rfl
  | cons c cps ih =>
      by_cases hSpace : isSpaceCode c = true
      · obtain ⟨hWord, hByte⟩ := encodeCodepoint_space hSpace
        rw [utf8, List.flatMap_cons, hWord, List.singleton_append,
          List.dropWhile_cons_of_pos hByte, List.dropWhile_cons_of_pos hSpace]
        exact ih fun d hd => h d (List.mem_cons_of_mem c hd)
      · rw [Bool.not_eq_true] at hSpace
        have hByte := encodeCodepoint_not_space (h c List.mem_cons_self) hSpace
        obtain ⟨b, t, x, hWord, -⟩ := encodeCodepoint_word (h c List.mem_cons_self)
        rw [hWord] at hByte
        rw [List.dropWhile_cons_of_neg (by rw [hSpace]; exact Bool.false_ne_true), utf8,
          List.flatMap_cons, hWord, List.cons_append, List.dropWhile_cons_of_neg]
        rw [hByte b List.mem_cons_self]
        exact Bool.false_ne_true

theorem rdropWhile_utf8 (h : ∀ c ∈ cps, c ≤ 0x10FFFF) :
    (utf8 cps).rdropWhile isSpace = utf8 (cps.rdropWhile isSpaceCode) := by
  induction cps using List.reverseRecOn with
  | nil => rfl
  | append_singleton cps c ih =>
      have hc : c ≤ 0x10FFFF := h c (by simp)
      have hAppend : utf8 (cps ++ [c]) = utf8 cps ++ encodeCodepoint c := by
        rw [utf8, List.flatMap_append, List.flatMap_singleton]
        rfl
      rw [hAppend]
      by_cases hSpace : isSpaceCode c = true
      · obtain ⟨hWord, hByte⟩ := encodeCodepoint_space hSpace
        rw [hWord, List.rdropWhile_concat_pos _ _ _ hByte, List.rdropWhile_concat_pos _ _ _ hSpace]
        exact ih fun d hd => h d (List.mem_append_left _ hd)
      · rw [Bool.not_eq_true] at hSpace
        have hByte := encodeCodepoint_not_space hc hSpace
        have hNe : encodeCodepoint c ≠ [] := by
          obtain ⟨b, t, x, hWord, -⟩ := encodeCodepoint_word hc
          rw [hWord]
          exact List.cons_ne_nil b t
        have hLast := hByte _ (List.getLast_mem hNe)
        rw [List.rdropWhile_concat_neg _ _ _ (by rw [hSpace]; exact Bool.false_ne_true), hAppend,
          ← List.dropLast_append_getLast hNe, ← List.append_assoc, List.rdropWhile_concat_neg]
        rw [hLast]
        exact Bool.false_ne_true

/-- What is trimmed in the bytes is trimmed in the code points. -/
theorem strTrimBoth_eq :
    (strTrimBoth core s).codes = (s.codes.dropWhile isSpaceCode).rdropWhile isSpaceCode := by
  have hDrop : ∀ c ∈ s.codes.dropWhile isSpaceCode, c ≤ 0x10FFFF := fun c hc =>
    s.code_le c ((List.dropWhile_suffix _).subset hc)
  rw [strTrimBoth, toUtf8, dropWhile_utf8 s.code_le, rdropWhile_utf8 hDrop]
  exact fromBytes_stored core fun c hc => s.stored c
    ((List.dropWhile_suffix _).subset ((List.rdropWhile_prefix _ _).subset hc))

end Primitives

/-- A `fromUTF8String` that decodes and leaves out what no string holds. -/
def decoding : Core where
  fromUTF8String bytes :=
    { codes := (decoded bytes).filter fun c => 0 < c ∧ c ≤ 0x10FFFF
      stored := fun c hc => by simpa using (List.mem_filter.mp hc).2 }
  fromUTF8String_utf8 s := Str.ext_codes (by
    rw [decoded_utf8 s.code_le]
    exact List.filter_eq_self.mpr fun c hc => by simpa using s.stored c hc)

end ProtoST.Primitives.Strings

import ProtoST.Primitives.Strings

/-!
# Searching, splitting and joining strings

`findString:startingAt:`, `splitOn:`, `join:` and `lines` of `lib/kernel/string.st`, and the
building and reading of strings character by character.

## Main results

* `findLoop_eq` — the search answers the first place from its start on.
* `splitLoop_eq`, `splitOn_block`, `join_codes` — splitting and joining, on the code points.
* `textLaws_iff` — splitting, joining, replacing, searching and lines agree, for a start that is
  an index or a text that does not occur.
* `sequenceLaws_iff` — strings are sequences of code points, but for U+0000.
-/

namespace ProtoST.Kernel.Strings

open ProtoST.Primitives.Strings

/-- `''`. -/
def empty : Str := ⟨[], by simp⟩

section Methods

variable (core : Core)

/-! ## Searching -/

/-- The loop of `findString:startingAt:`. -/
def findLoop (s p : Str) (n last i : Int) : Except Signal Int :=
  if i ≤ last then do
    let part ← strCopyFromTo core s i (i + n - 1)
    if strEq part p then .ok i else findLoop s p n last (i + 1)
  else .ok 0
termination_by (last + 1 - i).toNat

/-- `findString:startingAt:`. -/
def findString (s p : Str) (start : Int) : Except Signal Int := do
  let n ← strSize p
  if n = 0 then return 0
  if ¬ strIncludesSubstring s p then return 0
  let size ← strSize s
  findLoop core s p n (size - n + 1) start

/-- The part of a string from an index on. -/
def rest (s : Str) (i : Int) : List Nat := s.codes.drop (i - 1).toNat

variable {s : Str} {i : Int}

theorem rest_cons (hLow : 1 ≤ i) (hHigh : i ≤ s.codes.length) :
    ∃ c, rest s i = c :: rest s (i + 1) ∧ strAt s i = .ok c := by
  have hLt : (i - 1).toNat < s.codes.length := by omega
  refine ⟨s.codes[(i - 1).toNat], ?_, ?_⟩
  · rw [rest, rest, List.drop_eq_getElem_cons hLt,
      show (i + 1 - 1).toNat = (i - 1).toNat + 1 by omega]
  · rw [strAt, if_neg (by omega), List.getD_eq_getElem?_getD, List.getElem?_eq_getElem hLt]
    rfl

theorem slice_codes (n : Nat) (hLow : 1 ≤ i) :
    (s.slice i (i + n - 1)).codes = (rest s i).take n := by
  change (s.codes.take (i + n - 1).toNat).drop (i - 1).toNat = _
  rw [rest, List.drop_take, show (i + n - 1).toNat - (i - 1).toNat = n by omega]

theorem length_rest (hLow : 1 ≤ i) (hHigh : i ≤ s.codes.length + 1) :
    ((rest s i).length : Int) = s.codes.length + 1 - i := by
  rw [rest, List.length_drop]
  omega

/-- The search answers the first place from its start on. -/
theorem findLoop_eq (s p : Str) (hp : p.codes ≠ []) (hLow : 1 ≤ i) :
    findLoop core s p p.codes.length (s.codes.length - p.codes.length + 1) i =
      .ok (match Occurrences.find p.codes (rest s i) with
        | some k => i + k
        | none => 0) := by
  have hPos := List.length_pos_iff.mpr hp
  induction hSize : (s.codes.length - p.codes.length + 1 + 1 - i).toNat
      using Nat.strong_induction_on generalizing i with
  | _ size ih =>
      rw [findLoop]
      split
      next hLe =>
        obtain ⟨c, hCons, -⟩ := rest_cons (s := s) hLow (by omega)
        rw [strCopyFromTo_eq core s (Or.inr ⟨hLow, by omega⟩)]
        change (if strEq _ p = true then _ else _) = _
        have hHere : strEq (s.slice i (i + p.codes.length - 1)) p = true ↔
            p.codes <+: rest s i := by
          rw [strEq_iff, slice_codes p.codes.length hLow, List.prefix_iff_eq_take, eq_comm]
        by_cases h : p.codes <+: rest s i
        · rw [if_pos (hHere.mpr h), hCons, Occurrences.find, if_pos (hCons ▸ h)]
          exact congrArg Except.ok (Int.add_zero i).symm
        · rw [if_neg (mt hHere.mp h), ih _ (by omega) (by omega) rfl, hCons, Occurrences.find,
            if_neg (hCons ▸ h)]
          cases Occurrences.find p.codes (rest s (i + 1)) with
          | none => rfl
          | some k => exact congrArg Except.ok (by simp only [Option.map_some]; omega)
      next hGt =>
        have hShort : (rest s i).length < p.codes.length := by
          rw [rest, List.length_drop]
          omega
        rw [Occurrences.find_of_length_lt hShort]

/-- Where a text occurs. -/
def OccursAt (s p : Str) (i : Int) : Prop := 1 ≤ i ∧ p.codes <+: rest s i

/-- The least index at or after the start where a text occurs, or 0. -/
def LeastIndex (s p : Str) (start index : Int) : Prop :=
  (index = 0 ∧ ∀ i, start ≤ i → ¬ OccursAt s p i) ∨
    (start ≤ index ∧ OccursAt s p index ∧ ∀ i, start ≤ i → OccursAt s p i → index ≤ i)

theorem rest_add (hLow : 1 ≤ i) (k : Nat) :
    rest s (i + k) = (rest s i).drop k := by
  rw [rest, rest, List.drop_drop, show (i + k - 1).toNat = (i - 1).toNat + k by omega]

variable {s p : Str}

/-- What is found in the rest of a string is the least index. -/
theorem leastIndex_find {start : Int} (hLow : 1 ≤ start) :
    LeastIndex s p start (match Occurrences.find p.codes (rest s start) with
      | some k => start + k
      | none => 0) := by
  have hOffset : ∀ i, start ≤ i → rest s i = (rest s start).drop (i - start).toNat := fun i hi => by
    rw [← rest_add hLow, show start + ((i - start).toNat : Int) = i by omega]
  cases h : Occurrences.find p.codes (rest s start) with
  | none =>
      refine Or.inl ⟨rfl, fun i hi hOccurs => ?_⟩
      have hInfix := hOccurs.2
      rw [hOffset i hi] at hInfix
      exact Occurrences.find_eq_none_iff.mp h
        (hInfix.isInfix.trans (List.drop_suffix _ _).isInfix)
  | some k =>
      obtain ⟨-, hHere, hLeast⟩ := Occurrences.find_eq_some_iff.mp h
      refine Or.inr ⟨by simp only; omega, ⟨by simp only; omega, ?_⟩, fun i hi hOccurs => ?_⟩
      · simp only
        rw [rest_add hLow]
        exact hHere
      · by_contra hNot
        have hOccurs := hOccurs.2
        rw [hOffset i hi] at hOccurs
        exact hLeast _ (by simp only at hNot; omega) hOccurs

theorem findString_of_absent (hp : p.codes ≠ []) (h : ¬ p.codes <:+: s.codes)
    (start : Int) : findString core s p start = .ok 0 := by
  have hIncludes := mt (strIncludesSubstring_iff s p hp).mp h
  rw [findString, strSize_eq]
  change (if _ then _ else if _ then _ else _) = _
  rw [if_pos hIncludes, ite_self]
  rfl

theorem findString_eq (hp : p.codes ≠ []) (h : p.codes <:+: s.codes) (start : Int) :
    findString core s p start =
      findLoop core s p p.codes.length (s.codes.length - p.codes.length + 1) start := by
  have hIncludes := (strIncludesSubstring_iff s p hp).mpr h
  have hPos := List.length_pos_iff.mpr hp
  rw [findString, strSize_eq, strSize_eq]
  change (if _ then _ else if _ then _ else _) = _
  rw [if_neg (by omega), if_neg (not_not_intro hIncludes)]
  rfl

/-- The search answers the least index, from an index on. -/
theorem findString_least (hp : p.codes ≠ []) {start : Int} (hLow : 1 ≤ start) :
    ∃ index, findString core s p start = .ok index ∧ LeastIndex s p start index ∧
      index = (match Occurrences.find p.codes (rest s start) with
        | some k => start + k
        | none => 0) := by
  refine ⟨_, ?_, leastIndex_find hLow, rfl⟩
  by_cases h : p.codes <:+: s.codes
  · rw [findString_eq core hp h, findLoop_eq core s p hp hLow]
  · rw [findString_of_absent core hp h, Occurrences.find_eq_none_iff.mpr]
    exact fun hRest => h (hRest.trans (List.drop_suffix _ _).isInfix)

/-- The search for a text that occurs, from before the first index, is out of bounds. -/
theorem findString_before (hp : p.codes ≠ []) (h : p.codes <:+: s.codes) {start : Int}
    (hStart : start < 1) :
    findString core s p start =
      .error (copyRangeError start (start + p.codes.length - 1) s.codes.length) := by
  have hPos := List.length_pos_iff.mpr hp
  have hLe := h.length_le
  rw [findString_eq core hp h, findLoop, if_pos (by omega),
    strCopyFromTo_error core s (by omega) (Or.inl hStart)]
  rfl

/-! ## Splitting -/

inductive Separator where
  | string (p : Str)
  | character (c : Nat)
  | block (f : Nat → Bool)

/-- What `findString:startingAt:` finds lies after its start and within the string. -/
theorem findLoop_bounds {n last i index : Int}
    (h : findLoop core s p n last i = .ok index)
    (hIndex : index > 0) : i ≤ index ∧ index ≤ last := by
  induction hSize : (last + 1 - i).toNat using Nat.strong_induction_on generalizing i with
  | _ size ih =>
      rw [findLoop] at h
      split at h
      next hLe =>
        cases hPart : strCopyFromTo core s i (i + n - 1) with
        | error e =>
            rw [hPart] at h
            exact absurd h (by simp [bind, Except.bind])
        | ok part =>
            rw [hPart] at h
            change (if _ then _ else _) = _ at h
            split at h
            next =>
              obtain rfl : i = index := Except.ok.inj h
              exact ⟨Int.le_refl i, hLe⟩
            next =>
              obtain ⟨hLow, hHigh⟩ := ih _ (by omega) h rfl
              exact ⟨by omega, hHigh⟩
      next =>
        obtain rfl : 0 = index := Except.ok.inj h
        exact absurd hIndex (Int.lt_irrefl 0)

theorem findString_bounds {start index : Int}
    (h : findString core s p start = .ok index) (hIndex : index > 0) :
    0 < p.codes.length ∧ start ≤ index ∧ index + p.codes.length ≤ s.codes.length + 1 := by
  rw [findString, strSize_eq, strSize_eq] at h
  change (if _ then _ else if _ then _ else _) = _ at h
  split at h
  next => exact absurd hIndex (by rw [← Except.ok.inj h]; exact Int.lt_irrefl 0)
  next hNe =>
    split at h
    next => exact absurd hIndex (by rw [← Except.ok.inj h]; exact Int.lt_irrefl 0)
    next =>
      obtain ⟨hLow, hHigh⟩ := findLoop_bounds core h hIndex
      exact ⟨by omega, hLow, by omega⟩

/-- The loop of `splitOn:` over the occurrences of a string. -/
def splitLoop (s p : Str) (start : Int) (pieces : List Str) : Except Signal (List Str) :=
  match _h : findString core s p start with
  | .error e => .error e
  | .ok index =>
      if _hIndex : index > 0 then do
        let piece ← strCopyFromTo core s start (index - 1)
        match _hSize : strSize p with
        | .error e => .error e
        | .ok size => splitLoop s p (index + size) (pieces ++ [piece])
      else do
        let piece ← strCopyFromTo core s start (← strSize s)
        return pieces ++ [piece]
termination_by (s.codes.length + 1 - start).toNat
decreasing_by
  obtain ⟨hPos, hLow, hHigh⟩ := findString_bounds core _h _hIndex
  rw [strSize_eq] at _hSize
  obtain rfl : (p.codes.length : Int) = size := Except.ok.inj _hSize
  omega

/-- The loop of `splitOn:` over the characters that a block selects. -/
def blockLoop (s : Str) (f : Nat → Bool) (size i start : Int) (pieces : List Str) :
    Except Signal (List Str × Int) :=
  if i ≤ size then do
    let c ← strAt s i
    if f c then do
      let piece ← strCopyFromTo core s start (i - 1)
      blockLoop s f size (i + 1) (i + 1) (pieces ++ [piece])
    else blockLoop s f size (i + 1) start pieces
  else .ok (pieces, start)
termination_by (size + 1 - i).toNat

/-- `splitOn:`, of a block. -/
def splitOnBlock (s : Str) (f : Nat → Bool) : Except Signal (List Str) := do
  let size ← strSize s
  let (pieces, start) ← blockLoop core s f size 1 1 []
  let piece ← strCopyFromTo core s start size
  return pieces ++ [piece]

/-- `splitOn:`. -/
def splitOn (s : Str) : Separator → Except Signal (List Str)
  | .block f => splitOnBlock core s f
  | .character c => splitOnBlock core s (fun d => d == c)
  | .string p => do
      if (← strSize p) = 0 then return [s]
      splitLoop core s p 1 []

theorem copy_to {a : Int} (hLow : 1 ≤ a) (k : Nat) (hHigh : a + k ≤ s.codes.length + 1) :
    ∃ t, strCopyFromTo core s a (a + k - 1) = .ok t ∧ t.codes = (rest s a).take k := by
  refine ⟨s.slice a (a + k - 1), strCopyFromTo_eq core s ?_, slice_codes k hLow⟩
  omega

theorem copy_to_end {a : Int} (hLow : 1 ≤ a) (hHigh : a ≤ s.codes.length + 1) :
    ∃ t, strCopyFromTo core s a s.codes.length = .ok t ∧ t.codes = rest s a := by
  have hLength := length_rest hLow hHigh
  obtain ⟨t, hCopy, hCodes⟩ := copy_to core (s := s) hLow (rest s a).length (by omega)
  rw [List.take_length] at hCodes
  rw [show a + ((rest s a).length : Int) - 1 = s.codes.length by omega] at hCopy
  exact ⟨t, hCopy, hCodes⟩

/-- The loop answers the pieces between the occurrences. -/
theorem splitLoop_eq (s p : Str) (hp : p.codes ≠ []) {a : Int} (hLow : 1 ≤ a)
    (hHigh : a ≤ s.codes.length + 1) (pieces : List Str) :
    ∃ parts, splitLoop core s p a pieces = .ok (pieces ++ parts) ∧
      parts.map Str.codes = Occurrences.split p.codes (rest s a) := by
  have hPos := List.length_pos_iff.mpr hp
  induction hSize : (s.codes.length + 1 - a).toNat using Nat.strong_induction_on
      generalizing a pieces with
  | _ size ih =>
      obtain ⟨index, hFind, -, hIndex⟩ := findString_least core hp hLow (s := s)
      rw [splitLoop]
      split
      next e hError =>
        rw [hFind] at hError
        exact absurd hError (by simp)
      next found hFound =>
        obtain rfl : index = found := Except.ok.inj (hFind.symm.trans hFound)
        cases hRest : Occurrences.find p.codes (rest s a) with
        | none =>
            rw [hRest] at hIndex
            obtain ⟨t, hCopy, hCodes⟩ := copy_to_end core hLow hHigh
            rw [dif_neg (by rw [hIndex]; exact Int.lt_irrefl 0), strSize_eq]
            refine ⟨[t], ?_, ?_⟩
            · change (do let piece ← strCopyFromTo core s a s.codes.length
                         return pieces ++ [piece]) = _
              rw [hCopy]
              rfl
            · rw [Occurrences.split_of_none hRest, ← hCodes]
              rfl
        | some k =>
            have hEq : index = a + k := by rw [hRest] at hIndex; exact hIndex
            have hBounds := findString_bounds core hFind (by omega)
            obtain ⟨t, hCopy, hCodes⟩ := copy_to core (s := s) hLow k (by omega)
            obtain ⟨parts, hLoop, hParts⟩ := ih _ (by omega) (a := index + p.codes.length)
              (by omega) (by omega) (pieces ++ [t]) rfl
            rw [dif_pos (by omega), hEq, hCopy]
            refine ⟨t :: parts, ?_, ?_⟩
            · change (match _hSize : strSize p with
                | Except.error e => Except.error e
                | Except.ok size => splitLoop core s p (a + k + size) (pieces ++ [t])) = _
              split
              next e hError => rw [strSize_eq] at hError; exact absurd hError (by simp)
              next size hSizeOf =>
                rw [strSize_eq] at hSizeOf
                rw [← Except.ok.inj hSizeOf, ← hEq, hLoop, List.append_assoc]
                rfl
            · rw [Occurrences.split_of_some hp hRest, List.map_cons, hCodes, hParts, hEq,
                Int.add_assoc, ← Int.natCast_add, rest_add hLow]

theorem take_snoc {i a : Int} {c : Nat} (hStart : 1 ≤ a) (hLow : a ≤ i)
    (hCons : rest s i = c :: rest s (i + 1)) :
    (rest s a).take (i + 1 - a).toNat =
      (rest s a).take (i - a).toNat ++ [c] := by
  have hHead : (rest s a)[(i - a).toNat]? = some c := by
    have hDrop := rest_add (s := s) hStart (i - a).toNat
    rw [show a + ((i - a).toNat : Int) = i by omega, hCons] at hDrop
    rw [← List.head?_drop, ← hDrop, List.head?_cons]
  rw [show (i + 1 - a).toNat = (i - a).toNat + 1 by omega, List.take_add_one, hHead,
    Option.toList_some]

theorem rest_split {i a : Int} (hStart : 1 ≤ a) (hLow : a ≤ i) :
    (rest s a).take (i - a).toNat ++ rest s i = rest s a := by
  have hDrop := rest_add (s := s) hStart (i - a).toNat
  rw [show a + ((i - a).toNat : Int) = i by omega] at hDrop
  rw [hDrop, List.take_append_drop]

/-- The loop answers the pieces between the selected characters. -/
theorem blockLoop_eq (s : Str) (f : Nat → Bool) {i a : Int} (hStart : 1 ≤ a)
    (hLow : a ≤ i) (hHigh : i ≤ s.codes.length + 1) (pieces : List Str) :
    ∃ parts last next, blockLoop core s f s.codes.length i a pieces =
        .ok (pieces ++ parts, next) ∧ 1 ≤ next ∧ next ≤ s.codes.length + 1 ∧
      rest s next = last ∧
      parts.map Str.codes ++ [last] =
        Occurrences.splitWhere f ((rest s a).take (i - a).toNat) (rest s i) := by
  induction hSize : (s.codes.length + 1 - i).toNat using Nat.strong_induction_on
      generalizing i a pieces with
  | _ size ih =>
      rw [blockLoop]
      split
      next hLe =>
        obtain ⟨c, hCons, hAt⟩ := rest_cons (s := s) (by omega) hLe
        have hSelf : a + ((i - a).toNat : Int) = i := by omega
        rw [hAt, hCons, Occurrences.splitWhere]
        change ∃ parts last next, (if f c = true then _ else _) = _ ∧ _
        by_cases hf : f c = true
        · obtain ⟨t, hCopy, hCodes⟩ := copy_to core (s := s) hStart (i - a).toNat (by omega)
          rw [hSelf] at hCopy
          obtain ⟨parts, last, next, hLoop, hNextLow, hNextHigh, hLast, hParts⟩ :=
            ih _ (by omega) (i := i + 1) (a := i + 1) (by omega) (by omega) (by omega)
              (pieces ++ [t]) rfl
          rw [if_pos hf, if_pos hf, hCopy]
          refine ⟨t :: parts, last, next, ?_, hNextLow, hNextHigh, hLast, ?_⟩
          · change blockLoop core s f s.codes.length (i + 1) (i + 1) (pieces ++ [t]) = _
            rw [hLoop, List.append_assoc]
            rfl
          · rw [List.map_cons, List.cons_append, hParts, hCodes, Int.sub_self]
            rfl
        · obtain ⟨parts, last, next, hLoop, hNextLow, hNextHigh, hLast, hParts⟩ :=
            ih _ (by omega) (i := i + 1) (a := a) hStart (by omega) (by omega) pieces rfl
          rw [if_neg hf, if_neg hf]
          refine ⟨parts, last, next, hLoop, hNextLow, hNextHigh, hLast, ?_⟩
          rw [hParts, take_snoc hStart hLow hCons]
      next hGt =>
        have hEnd : rest s i = [] := List.drop_eq_nil_of_le (by omega)
        refine ⟨[], rest s a, a, by rw [List.append_nil], hStart, by omega, rfl, ?_⟩
        have hAll : (rest s a).take (i - a).toNat = rest s a :=
          List.take_of_length_le (by rw [rest, List.length_drop]; omega)
        rw [hEnd, Occurrences.splitWhere, hAll]
        rfl

theorem splitOn_block (s : Str) (f : Nat → Bool) :
    ∃ pieces, splitOn core s (.block f) = .ok pieces ∧
      pieces.map Str.codes = Occurrences.splitWhere f [] s.codes := by
  obtain ⟨parts, last, next, hLoop, hLow, hHigh, hLast, hParts⟩ :=
    blockLoop_eq core s f (i := 1) (a := 1) (by omega) (by omega) (by omega) []
  obtain ⟨t, hCopy, hCodes⟩ := copy_to_end core hLow hHigh
  refine ⟨parts ++ [t], ?_, ?_⟩
  · rw [splitOn, splitOnBlock, strSize_eq]
    change (do
      let (pieces, start) ← blockLoop core s f s.codes.length 1 1 []
      let piece ← strCopyFromTo core s start s.codes.length
      return pieces ++ [piece]) = _
    rw [hLoop]
    change (do
      let piece ← strCopyFromTo core s next s.codes.length
      return [] ++ parts ++ [piece]) = _
    rw [hCopy]
    rfl
  · rw [List.map_append, List.map_singleton, hCodes, hLast, hParts]
    rfl

theorem splitOn_string (s p : Str) (hp : p.codes ≠ []) :
    ∃ pieces, splitOn core s (.string p) = .ok pieces ∧
      pieces.map Str.codes = Occurrences.split p.codes s.codes := by
  obtain ⟨parts, hLoop, hParts⟩ := splitLoop_eq core s p hp (a := 1) (by omega) (by omega) []
  refine ⟨parts, ?_, hParts⟩
  have hPos := List.length_pos_iff.mpr hp
  rw [splitOn, strSize_eq]
  change (if _ then _ else _) = _
  rw [if_neg (by omega)]
  exact hLoop

theorem map_codes_injective {xs ys : List Str} (h : xs.map Str.codes = ys.map Str.codes) :
    xs = ys := List.map_injective_iff.mpr (fun _ _ => Str.ext_codes) h

/-- A separator of one character is the same as a string, as a character and as a block. -/
theorem splitOn_character (s p : Str) {c : Nat} (hp : p.codes = [c]) :
    splitOn core s (.block fun d => d == c) = splitOn core s (.string p) ∧
      splitOn core s (.character c) = splitOn core s (.string p) := by
  obtain ⟨pieces, hString, hPieces⟩ :=
    splitOn_string core s p (by rw [hp]; exact List.cons_ne_nil c [])
  obtain ⟨parts, hBlock, hParts⟩ := splitOn_block core s (fun d => d == c)
  have hSame : parts = pieces := by
    refine map_codes_injective ?_
    rw [hParts, hPieces, hp]
    exact (Occurrences.split_singleton (List.not_mem_nil) s.codes).symm
  have hBlockString : splitOn core s (.block fun d => d == c) = splitOn core s (.string p) := by
    rw [hBlock, hString, hSame]
  exact ⟨hBlockString, hBlockString⟩

/-! ## Joining -/

/-- A turn of the loop of `join:`. -/
def joinStep (sep : Str) (state : Str × Bool) (each : Str) : Str × Bool :=
  let out := if state.2 then state.1 else strConcat state.1 sep
  (strConcat out each, false)

/-- `join:`, of strings. -/
def join (sep : Str) (pieces : List Str) : Str := (pieces.foldl (joinStep sep) (empty, true)).1

theorem foldl_joinStep (sep : Str) (out : Str) (pieces : List Str) :
    ((pieces.foldl (joinStep sep) (out, false)).1).codes =
      out.codes ++ (pieces.map Str.codes).flatMap (fun t => sep.codes ++ t) := by
  induction pieces generalizing out with
  | nil => simp
  | cons t pieces ih =>
      rw [List.foldl_cons, List.map_cons, List.flatMap_cons]
      refine (ih _).trans ?_
      simp [strConcat]

theorem join_codes (sep : Str) (pieces : List Str) :
    (join sep pieces).codes = List.intercalate sep.codes (pieces.map Str.codes) := by
  cases pieces with
  | nil => rfl
  | cons t pieces =>
      have hFold := foldl_joinStep sep (strConcat empty t) pieces
      rw [List.map_cons, Occurrences.intercalate_cons]
      exact hFold

/-! ## Lines -/

/-- `Character cr`. -/
def cr : Nat := 13

/-- `Character lf`. -/
def lf : Nat := 10

/-- The loop of `lines`. -/
def linesLoop (s : Str) (size i start : Int) (out : List Str) : Except Signal (List Str × Int) :=
  if i ≤ size then do
    let c ← strAt s i
    if c = cr ∨ c = lf then do
      let line ← strCopyFromTo core s start (i - 1)
      if c = cr ∧ i < size then do
        let d ← strAt s (i + 1)
        if d = lf then linesLoop s size (i + 1 + 1) (i + 1 + 1) (out ++ [line])
        else linesLoop s size (i + 1) (i + 1) (out ++ [line])
      else linesLoop s size (i + 1) (i + 1) (out ++ [line])
    else linesLoop s size (i + 1) start out
  else .ok (out, start)
termination_by (size + 1 - i).toNat
decreasing_by all_goals omega

/-- `lines`. -/
def lines (s : Str) : Except Signal (List Str) := do
  let size ← strSize s
  let (out, start) ← linesLoop core s size 1 1 []
  if start ≤ size then do
    let line ← strCopyFromTo core s start size
    return out ++ [line]
  else return out

/-- The lines of a text: CR, LF and CRLF each end one, and the last may have no end. -/
inductive IsLines : List Nat → List (List Nat) → Prop where
  | nil : IsLines [] []
  | last {line : List Nat} (hNe : line ≠ []) (h : ∀ c ∈ line, c ≠ cr ∧ c ≠ lf) :
      IsLines line [line]
  | crlf {line text : List Nat} {ls : List (List Nat)} (h : ∀ c ∈ line, c ≠ cr ∧ c ≠ lf)
      (hRest : IsLines text ls) : IsLines (line ++ cr :: lf :: text) (line :: ls)
  | cr {line text : List Nat} {ls : List (List Nat)} (h : ∀ c ∈ line, c ≠ cr ∧ c ≠ lf)
      (hNext : text.head? ≠ some lf) (hRest : IsLines text ls) :
      IsLines (line ++ cr :: text) (line :: ls)
  | lf {line text : List Nat} {ls : List (List Nat)} (h : ∀ c ∈ line, c ≠ cr ∧ c ≠ lf)
      (hRest : IsLines text ls) : IsLines (line ++ lf :: text) (line :: ls)

/-- The loop answers the lines that have an end; what is left has none. -/
theorem linesLoop_eq (s : Str) {i a : Int} (hStart : 1 ≤ a) (hLow : a ≤ i)
    (hHigh : i ≤ s.codes.length + 1)
    (hLine : ∀ c ∈ (rest s a).take (i - a).toNat, c ≠ cr ∧ c ≠ lf) (out : List Str) :
    ∃ parts next, linesLoop core s s.codes.length i a out = .ok (out ++ parts, next) ∧
      1 ≤ next ∧ next ≤ s.codes.length + 1 ∧
      IsLines (rest s a) (parts.map Str.codes ++
        (if next ≤ s.codes.length then [rest s next] else [])) := by
  induction hSize : (s.codes.length + 1 - i).toNat using Nat.strong_induction_on
      generalizing i a out with
  | _ size ih =>
      have hSplit := rest_split (s := s) hStart hLow
      rw [linesLoop]
      split
      next hLe =>
        obtain ⟨c, hCons, hAt⟩ := rest_cons (s := s) (by omega) hLe
        rw [hCons] at hSplit
        rw [hAt]
        change ∃ parts next, (if c = cr ∨ c = lf then _ else _) = _ ∧ _
        by_cases hEnd : c = cr ∨ c = lf
        · obtain ⟨t, hCopy, hCodes⟩ := copy_to core (s := s) hStart (i - a).toNat (by omega)
          rw [show a + ((i - a).toNat : Int) = i by omega] at hCopy
          -- a line that ends before `k`
          have hNext : ∀ k, i < k → k ≤ s.codes.length + 1 → (∀ ls, IsLines (rest s k) ls →
              IsLines (rest s a) (t.codes :: ls)) →
              ∃ parts next, linesLoop core s s.codes.length k k (out ++ [t]) =
                  .ok (out ++ parts, next) ∧ 1 ≤ next ∧ next ≤ s.codes.length + 1 ∧
                IsLines (rest s a) (parts.map Str.codes ++
                  (if next ≤ s.codes.length then [rest s next] else [])) :=
            fun k hik hk hLines => by
              obtain ⟨parts, next, hLoop, hNextLow, hNextHigh, hParts⟩ :=
                ih _ (by omega) (i := k) (a := k) (by omega) (by omega) hk
                  (by rw [Int.sub_self]; simp) (out ++ [t]) rfl
              refine ⟨t :: parts, next, ?_, hNextLow, hNextHigh, ?_⟩
              · rw [hLoop, List.append_assoc]
                rfl
              · rw [List.map_cons, List.cons_append]
                exact hLines _ hParts
          rw [if_pos hEnd, hCopy]
          change ∃ parts next, (if c = cr ∧ i < (s.codes.length : Int) then _ else _) = _ ∧ _
          by_cases hCr : c = cr ∧ i < s.codes.length
          · obtain ⟨d, hConsNext, hAtNext⟩ := rest_cons (s := s) (i := i + 1) (by omega) (by omega)
            rw [if_pos hCr, hAtNext]
            change ∃ parts next, (if d = lf then _ else _) = _ ∧ _
            rw [hConsNext, hCr.1] at hSplit
            by_cases hLf : d = lf
            · rw [if_pos hLf]
              refine hNext (i + 1 + 1) (by omega) (by omega) fun ls hLs => ?_
              rw [← hSplit, hLf, hCodes]
              exact IsLines.crlf hLine hLs
            · rw [if_neg hLf]
              refine hNext (i + 1) (by omega) (by omega) fun ls hLs => ?_
              rw [← hSplit, ← hConsNext, hCodes]
              refine IsLines.cr hLine ?_ hLs
              rw [hConsNext, List.head?_cons]
              exact fun hEq => hLf (Option.some.inj hEq)
          · rw [if_neg hCr]
            refine hNext (i + 1) (by omega) (by omega) fun ls hLs => ?_
            rw [← hSplit, hCodes]
            rcases hEnd with hEnd | hEnd
            · have hNil : rest s (i + 1) = [] :=
                List.drop_eq_nil_of_le (by have := not_and.mp hCr hEnd; omega)
              rw [hEnd]
              exact IsLines.cr hLine (by rw [hNil]; simp) hLs
            · rw [hEnd]
              exact IsLines.lf hLine hLs
        · obtain ⟨parts, next, hLoop, hNextLow, hNextHigh, hParts⟩ :=
            ih _ (by omega) (i := i + 1) (a := a) hStart (by omega) (by omega) (by
              rw [take_snoc hStart hLow hCons]
              intro d hd
              rcases List.mem_append.mp hd with hd | hd
              · exact hLine d hd
              · rw [List.mem_singleton.mp hd]
                exact not_or.mp hEnd) out rfl
          rw [if_neg hEnd]
          exact ⟨parts, next, hLoop, hNextLow, hNextHigh, hParts⟩
      next hGt =>
        have hAll : (rest s a).take (i - a).toNat = rest s a :=
          List.take_of_length_le (by rw [rest, List.length_drop]; omega)
        rw [hAll] at hLine
        refine ⟨[], a, by rw [List.append_nil], hStart, by omega, ?_⟩
        split
        next hSome =>
          refine IsLines.last (fun hNil => ?_) hLine
          have := length_rest (s := s) hStart (by omega)
          rw [hNil, List.length_nil] at this
          omega
        next hNone =>
          have hNil : rest s a = [] := List.drop_eq_nil_of_le (by omega)
          rw [hNil]
          exact IsLines.nil

theorem lines_spec (s : Str) : ∃ ls, lines core s = .ok ls ∧
    IsLines s.codes (ls.map Str.codes) := by
  obtain ⟨parts, next, hLoop, hLow, hHigh, hParts⟩ :=
    linesLoop_eq core s (i := 1) (a := 1) (by omega) (by omega) (by omega) (by simp) []
  rw [lines, strSize_eq]
  change ∃ ls, (do
    let (out, start) ← linesLoop core s s.codes.length 1 1 []
    if start ≤ s.codes.length then do
      let line ← strCopyFromTo core s start s.codes.length
      return out ++ [line]
    else return out) = _ ∧ _
  rw [hLoop]
  change ∃ ls, (if next ≤ s.codes.length then _ else _) = _ ∧ _
  split at hParts
  next hSome =>
    obtain ⟨t, hCopy, hCodes⟩ := copy_to_end core hLow hHigh
    rw [if_pos hSome, hCopy]
    refine ⟨parts ++ [t], rfl, ?_⟩
    rw [List.map_append, List.map_singleton, hCodes]
    exact hParts
  next hNone =>
    rw [if_neg hNone]
    rw [List.append_nil] at hParts
    exact ⟨parts, rfl, hParts⟩

/-! ## The laws of a text -/

/-- Splitting, joining, replacing, searching and lines of `s`, with `p`, `q` and a start. -/
structure TextLaws (s p q : Str) (start : Int) : Prop where
  split : ∃ pieces, splitOn core s (.string p) = .ok pieces ∧ join p pieces = s ∧
    (∀ t ∈ pieces, ¬ p.codes <:+: t.codes) ∧ join q pieces = strCopyReplaceAll core s p q
  character : ∀ c, p.codes = [c] →
    splitOn core s (.block fun d => d == c) = splitOn core s (.string p) ∧
      splitOn core s (.character c) = splitOn core s (.string p)
  find : ∃ index, findString core s p start = .ok index ∧ LeastIndex s p start index
  lines : ∃ ls, lines core s = .ok ls ∧ IsLines s.codes (ls.map Str.codes)

theorem splitOn_join (s p q : Str) (hp : p.codes ≠ []) :
    ∃ pieces, splitOn core s (.string p) = .ok pieces ∧ join p pieces = s ∧
      (∀ t ∈ pieces, ¬ p.codes <:+: t.codes) ∧ join q pieces = strCopyReplaceAll core s p q := by
  obtain ⟨pieces, hSplit, hPieces⟩ := splitOn_string core s p hp
  refine ⟨pieces, hSplit, Str.ext_codes ?_, fun t ht => ?_, Str.ext_codes ?_⟩
  · rw [join_codes, hPieces, Occurrences.intercalate_split hp, Occurrences.replace_self hp]
  · exact Occurrences.not_infix_of_mem_split hp s.codes _ (hPieces ▸ List.mem_map_of_mem ht)
  · rw [join_codes, hPieces, Occurrences.intercalate_split hp, strCopyReplaceAll_eq]

/-- The laws hold exactly where the search starts at an index, or for what does not occur. -/
theorem textLaws_iff (s p q : Str) (hp : p.codes ≠ []) (start : Int) :
    TextLaws core s p q start ↔ 1 ≤ start ∨ ¬ p.codes <:+: s.codes := by
  constructor
  · intro h
    by_contra hNot
    rw [not_or, not_not] at hNot
    obtain ⟨index, hFind, -⟩ := h.find
    rw [findString_before core hp hNot.2 (by omega)] at hFind
    exact absurd hFind (by simp)
  · intro h
    refine ⟨splitOn_join core s p q hp, fun c => splitOn_character core s p, ?_, lines_spec core s⟩
    rcases h with hStart | hNone
    · obtain ⟨index, hFind, hLeast, -⟩ := findString_least core hp hStart (s := s)
      exact ⟨index, hFind, hLeast⟩
    · refine ⟨0, findString_of_absent core hp hNone start, Or.inl ⟨rfl, fun i _ hOccurs => ?_⟩⟩
      exact hNone (hOccurs.2.isInfix.trans (List.drop_suffix _ _).isInfix)

/-! ## Building and reading -/

/-- `String class >> withAll:`, of the characters of `cps`: each is appended as a string. -/
def withAll (cps : List Nat) : Str :=
  cps.foldl (fun buffer c => strConcat buffer (charAsString core c)) empty

/-- The loop of `do:`, and what it hands on. -/
def doLoop (s : Str) (size i : Int) (seen : List Nat) : Except Signal (List Nat) :=
  if i ≤ size then do
    let c ← strAt s i
    doLoop s size (i + 1) (seen ++ [c])
  else .ok seen
termination_by (size + 1 - i).toNat

/-- `asArray`. -/
def asArray (s : Str) : Except Signal (List Nat) := do doLoop s (← strSize s) 1 []

theorem charAsString_codes {c : Nat} (h : c ≤ 0x10FFFF) :
    (charAsString core c).codes = if c = 0 then [] else [c] := by
  have hOne : encodeCodepoint c = utf8 [c] := (List.flatMap_singleton encodeCodepoint c).symm
  have hAll : ∀ d ∈ [c], d ≤ 0x10FFFF := fun d hd => List.mem_singleton.mp hd ▸ h
  rw [charAsString, hOne, fromBytes_utf8 core hAll]
  change [c].takeWhile (· ≠ 0) = _
  by_cases hZero : c = 0
  · rw [if_pos hZero, hZero]
    rfl
  · rw [if_neg hZero, List.takeWhile_cons_of_pos (by simpa using hZero)]
    rfl

/-- A string is built of the characters that are not U+0000. -/
theorem withAll_codes {cps : List Nat} (h : ∀ c ∈ cps, c ≤ 0x10FFFF) :
    (withAll core cps).codes = cps.filter (· ≠ 0) := by
  have hFold : ∀ (cps : List Nat) (buffer : Str), (∀ c ∈ cps, c ≤ 0x10FFFF) →
      (cps.foldl (fun buffer c => strConcat buffer (charAsString core c)) buffer).codes =
        buffer.codes ++ cps.filter (· ≠ 0) := by
    intro cps
    induction cps with
    | nil =>
        intro buffer _
        exact (List.append_nil _).symm
    | cons c cps ih =>
        intro buffer hAll
        rw [List.foldl_cons, ih _ fun d hd => hAll d (List.mem_cons_of_mem c hd)]
        change buffer.codes ++ (charAsString core c).codes ++ _ = _
        rw [charAsString_codes core (hAll c List.mem_cons_self), List.append_assoc]
        by_cases hZero : c = 0
        · rw [if_pos hZero, List.filter_cons_of_neg (by simpa using hZero), List.nil_append]
        · rw [if_neg hZero, List.filter_cons_of_pos (by simpa using hZero), List.singleton_append]
  exact hFold cps empty h

theorem doLoop_eq (s : Str) (hLow : 1 ≤ i) (seen : List Nat) :
    doLoop s s.codes.length i seen = .ok (seen ++ rest s i) := by
  induction hSize : (s.codes.length + 1 - i).toNat using Nat.strong_induction_on
      generalizing i seen with
  | _ size ih =>
      rw [doLoop]
      split
      next hLe =>
        obtain ⟨c, hCons, hAt⟩ := rest_cons hLow hLe
        rw [hAt]
        change doLoop s s.codes.length (i + 1) (seen ++ [c]) = _
        rw [ih _ (by omega) (by omega) (seen ++ [c]) rfl, hCons, List.append_assoc]
        rfl
      next hGt =>
        have hEnd : rest s i = [] := List.drop_eq_nil_of_le (by omega)
        rw [hEnd, List.append_nil]

theorem asArray_eq (s : Str) : asArray s = .ok s.codes := by
  rw [asArray, strSize_eq]
  exact doLoop_eq s (by omega) []

theorem strAt_eq (s : Str) {i : Nat} (h : i < s.codes.length) :
    strAt s (i + 1) = .ok s.codes[i] := by
  rw [strAt, if_neg (by omega), show ((i : Int) + 1 - 1).toNat = i by omega,
    List.getD_eq_getElem?_getD, List.getElem?_eq_getElem h]
  rfl

/-! ## Trimming -/

/-- `Character >> isSeparator`. -/
def isSeparator (c : Nat) : Bool := [32, 9, 10, 13, 12].contains c

/-- The loop of `trimLeft`. -/
def trimLeftLoop (s : Str) (size i : Int) : Except Signal Int :=
  if i ≤ size then do
    let c ← strAt s i
    if isSeparator c then trimLeftLoop s size (i + 1) else .ok i
  else .ok i
termination_by (size + 1 - i).toNat

/-- `trimLeft`. -/
def trimLeft (s : Str) : Except Signal Str := do
  let size ← strSize s
  let i ← trimLeftLoop s size 1
  strCopyFromTo core s i size

/-- The loop of `trimRight`. -/
def trimRightLoop (s : Str) (i : Int) : Except Signal Int :=
  if i ≥ 1 then do
    let c ← strAt s i
    if isSeparator c then trimRightLoop s (i - 1) else .ok i
  else .ok i
termination_by i.toNat

/-- `trimRight`. -/
def trimRight (s : Str) : Except Signal Str := do
  let i ← trimRightLoop s (← strSize s)
  strCopyFromTo core s 1 i

/-- `trimSeparators`, which is `trimmed` too. -/
def trimSeparators (s : Str) : Except Signal Str := do trimRight core (← trimLeft core s)

theorem trimLeftLoop_eq (s : Str) (hLow : 1 ≤ i) (hHigh : i ≤ s.codes.length + 1) :
    ∃ k, trimLeftLoop s s.codes.length i = .ok k ∧ 1 ≤ k ∧ k ≤ s.codes.length + 1 ∧
      rest s k = (rest s i).dropWhile isSeparator := by
  induction hSize : (s.codes.length + 1 - i).toNat using Nat.strong_induction_on
      generalizing i with
  | _ size ih =>
      rw [trimLeftLoop]
      split
      next hLe =>
        obtain ⟨c, hCons, hAt⟩ := rest_cons hLow hLe
        rw [hAt]
        change ∃ k, (if isSeparator c = true then _ else _) = _ ∧ _
        by_cases hc : isSeparator c = true
        · obtain ⟨k, hLoop, hkLow, hkHigh, hRest⟩ := ih _ (by omega) (i := i + 1) (by omega)
            (by omega) rfl
          rw [if_pos hc]
          exact ⟨k, hLoop, hkLow, hkHigh, by rw [hRest, hCons, List.dropWhile_cons_of_pos hc]⟩
        · rw [if_neg hc]
          exact ⟨i, rfl, hLow, hHigh, by rw [hCons, List.dropWhile_cons_of_neg hc]⟩
      next hGt =>
        have hEnd : rest s i = [] := List.drop_eq_nil_of_le (by omega)
        exact ⟨i, rfl, hLow, hHigh, by rw [hEnd]; rfl⟩

theorem trimLeft_eq (s : Str) :
    ∃ t, trimLeft core s = .ok t ∧ t.codes = s.codes.dropWhile isSeparator := by
  obtain ⟨k, hLoop, hLow, hHigh, hRest⟩ := trimLeftLoop_eq s (i := 1) (by omega) (by omega)
  obtain ⟨t, hCopy, hCodes⟩ := copy_to_end core hLow hHigh
  refine ⟨t, ?_, hCodes.trans hRest⟩
  rw [trimLeft, strSize_eq]
  change (do
    let i ← trimLeftLoop s s.codes.length 1
    strCopyFromTo core s i s.codes.length) = _
  rw [hLoop]
  exact hCopy

theorem trimRightLoop_eq (s : Str) (n : Nat) (hHigh : n ≤ s.codes.length) :
    ∃ k ≤ n, trimRightLoop s n = .ok (k : Int) ∧
      s.codes.take k = (s.codes.take n).rdropWhile isSeparator := by
  induction n with
  | zero =>
      rw [trimRightLoop, if_neg (by omega)]
      exact ⟨0, Nat.le_refl 0, rfl, by rw [List.take_zero, List.rdropWhile_nil]⟩
  | succ n ih =>
      have hLt : n < s.codes.length := hHigh
      have hTake : s.codes.take (n + 1) = s.codes.take n ++ [s.codes[n]] := by
        rw [List.take_add_one, List.getElem?_eq_getElem hLt, Option.toList_some]
      have hAt : strAt s ((n + 1 : Nat) : Int) = .ok s.codes[n] := strAt_eq s hLt
      rw [trimRightLoop, if_pos (by omega), hAt, hTake]
      change ∃ k, k ≤ n + 1 ∧ (if isSeparator s.codes[n] = true then _ else _) = _ ∧ _
      by_cases hc : isSeparator s.codes[n] = true
      · obtain ⟨k, hk, hLoop, hRest⟩ := ih (Nat.le_of_lt hLt)
        rw [if_pos hc, List.rdropWhile_concat_pos _ _ _ hc]
        refine ⟨k, by omega, ?_, hRest⟩
        rw [show ((n + 1 : Nat) : Int) - 1 = n by omega]
        exact hLoop
      · rw [if_neg hc, List.rdropWhile_concat_neg _ _ _ hc]
        exact ⟨n + 1, Nat.le_refl _, rfl, hTake⟩

theorem trimRight_eq (s : Str) :
    ∃ t, trimRight core s = .ok t ∧ t.codes = s.codes.rdropWhile isSeparator := by
  obtain ⟨k, hk, hLoop, hTake⟩ := trimRightLoop_eq s s.codes.length (Nat.le_refl _)
  obtain ⟨t, hCopy, hCodes⟩ := copy_to core (s := s) (a := 1) (by omega) k (by omega)
  rw [List.take_length] at hTake
  refine ⟨t, ?_, hCodes.trans hTake⟩
  rw [trimRight, strSize_eq]
  change (do
    let i ← trimRightLoop s s.codes.length
    strCopyFromTo core s 1 i) = _
  rw [hLoop]
  rw [show 1 + (k : Int) - 1 = k by omega] at hCopy
  exact hCopy

theorem trimSeparators_eq (s : Str) :
    ∃ t, trimSeparators core s = .ok t ∧
      t.codes = (s.codes.dropWhile isSeparator).rdropWhile isSeparator := by
  obtain ⟨left, hLeft, hLeftCodes⟩ := trimLeft_eq core s
  obtain ⟨t, hRight, hCodes⟩ := trimRight_eq core left
  refine ⟨t, ?_, by rw [hCodes, hLeftCodes]⟩
  rw [trimSeparators, hLeft]
  exact hRight

/-- The string built of `cps` is read back as `cps`, and its operations are those of lists; so are
those of the UTF-8 decoder. -/
structure SequenceLaws (cps : List Nat) : Prop where
  size : strSize (withAll core cps) = .ok cps.length
  index : ∀ (i : Nat) (h : i < cps.length), strAt (withAll core cps) (i + 1) = .ok cps[i]
  array : asArray (withAll core cps) = .ok cps
  copyFromTo : ∀ start stop : Int, stop < start ∨ 1 ≤ start ∧ stop ≤ cps.length →
    ∃ t, strCopyFromTo core (withAll core cps) start stop = .ok t ∧
      t.codes = (cps.take stop.toNat).drop (start - 1).toNat
  concat : ∀ t, (strConcat (withAll core cps) t).codes = cps ++ t.codes
  reversed : ∃ t, strReversed core (withAll core cps) = .ok t ∧ t.codes = cps.reverse
  replaced : ∀ p q : Str, (strCopyReplaceAll core (withAll core cps) p q).codes =
    Occurrences.replace p.codes q.codes cps
  trimmed : (strTrimBoth core (withAll core cps)).codes =
    (cps.dropWhile isSpaceCode).rdropWhile isSpaceCode
  trimmedSeparators : ∃ t, trimSeparators core (withAll core cps) = .ok t ∧
    t.codes = (cps.dropWhile isSeparator).rdropWhile isSeparator
  mapped : ∀ upper, ∃ t, mapCase core (withAll core cps) upper = .ok t ∧
    t.codes = cps.map (caseMap · upper)
  decoded : decodeCodepoints (utf8 cps) = .ok cps
  around : ∀ (bad : List UInt8) (after : List Nat), (∀ c ∈ after, c ≤ 0x10FFFF) →
    ∃ middle, decodeCodepoints bad = .ok middle ∧
      decodeCodepoints (utf8 cps ++ (bad ++ utf8 after)) = .ok (cps ++ (middle ++ after))

/-- Strings are sequences of code points, for the sequences without U+0000 and no others. -/
theorem sequenceLaws_iff (cps : List Nat) (h : ∀ c ∈ cps, c ≤ 0x10FFFF) :
    SequenceLaws core cps ↔ 0 ∉ cps := by
  have hCodes := withAll_codes core h
  constructor
  · intro hLaws hZero
    have hSize := hLaws.size
    rw [strSize_eq, hCodes] at hSize
    have hLength : (cps.filter (· ≠ 0)).length = cps.length := by
      exact_mod_cast Except.ok.inj hSize
    have hAll := List.length_filter_eq_length_iff.mp hLength 0 hZero
    simp at hAll
  · intro hZero
    have hKept : cps.filter (· ≠ 0) = cps := List.filter_eq_self.mpr fun c hc => by
      have hNe : c ≠ 0 := fun hEq => hZero (hEq ▸ hc)
      simpa using hNe
    rw [hKept] at hCodes
    refine {
      size := ?_
      index := fun i hi => ?_
      array := ?_
      copyFromTo := fun start stop hRange => ?_
      concat := fun t => ?_
      reversed := ?_
      replaced := fun p q => ?_
      trimmed := ?_
      trimmedSeparators := ?_
      mapped := fun upper => ?_
      decoded := decodeCodepoints_utf8 h
      around := fun bad after hAfter => ?_ }
    · rw [strSize_eq, hCodes]
    · rw [strAt_eq _ (by rw [hCodes]; exact hi)]
      simp only [hCodes]
    · rw [asArray_eq, hCodes]
    · refine ⟨_, strCopyFromTo_eq core _ (by rw [hCodes]; exact hRange), ?_⟩
      simp only [Str.slice, hCodes]
    · simp only [strConcat, hCodes]
    · obtain ⟨t, hRun, ht⟩ := strReversed_eq core (withAll core cps)
      exact ⟨t, hRun, by rw [ht, hCodes]⟩
    · rw [strCopyReplaceAll_eq, hCodes]
    · rw [strTrimBoth_eq, hCodes]
    · obtain ⟨t, hRun, ht⟩ := trimSeparators_eq core (withAll core cps)
      exact ⟨t, hRun, by rw [ht, hCodes]⟩
    · obtain ⟨t, hRun, ht⟩ := mapCase_eq core (withAll core cps) upper
      exact ⟨t, hRun, by rw [ht, hCodes]⟩
    · exact ⟨_, decodeCodepoints_eq bad, decodeCodepoints_around h hAfter bad⟩

end Methods

/-- `'abc'`. -/
def abc : Str := ⟨[97, 98, 99], by decide⟩

/-- `'b'`. -/
def letterB : Str := ⟨[98], by decide⟩

/-- Splitting `'abc'` at `'b'`, joining with `'abc'`, and searching from the second character. -/
theorem textLaws_abc : TextLaws decoding abc letterB abc 2 :=
  (textLaws_iff decoding abc letterB abc (by decide) 2).mpr (Or.inl (by decide))

/-- The search for `'b'` in `'abc'` from 0 is out of bounds, though `'b'` occurs after 0. -/
theorem textLaws_before :
    findString decoding abc letterB 0 = .error (copyRangeError 0 0 3) ∧
      LeastIndex abc letterB 0 2 ∧ ¬ TextLaws decoding abc letterB abc 0 := by
  have hOccurs : letterB.codes <:+: abc.codes := ⟨[97], [99], rfl⟩
  have hError : findString decoding abc letterB 0 = .error (copyRangeError 0 0 3) :=
    findString_before decoding (by decide) hOccurs (by decide)
  refine ⟨hError, Or.inr ⟨by decide, ⟨by decide, [99], rfl⟩, fun i _ hi => ?_⟩, fun h => ?_⟩
  · by_contra hNot
    obtain rfl : i = 1 := by have := hi.1; omega
    exact absurd hi.2 (by decide)
  · obtain ⟨index, hFind, -⟩ := h.find
    rw [hError] at hFind
    exact absurd hFind (by simp)

/-- A sequence of one, two, three and four bytes a character. -/
theorem sequenceLaws_wide : SequenceLaws decoding [0x61, 0xE9, 0x20AC, 0x1F600] :=
  (sequenceLaws_iff decoding [0x61, 0xE9, 0x20AC, 0x1F600] (by decide)).mpr (by decide)

/-- A string of three characters, the second of them U+0000, has two. -/
theorem sequenceLaws_nul :
    (withAll decoding [97, 0, 98]).codes = [97, 98] ∧ ¬ SequenceLaws decoding [97, 0, 98] := by
  have hCodes : (withAll decoding [97, 0, 98]).codes = [97, 98] :=
    withAll_codes decoding (by decide)
  refine ⟨hCodes, fun h => ?_⟩
  have hSize := h.size
  rw [strSize_eq, hCodes] at hSize
  exact absurd hSize (by decide)

end ProtoST.Kernel.Strings

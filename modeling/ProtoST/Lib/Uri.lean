import Mathlib.Data.List.Basic
import Mathlib.Data.List.TakeWhile
import Mathlib.Tactic.Common

/-!
# Resolving references

The resolution algorithm of RFC 3986, section 5.2, over texts of characters: the five
components of a reference, the removal of dot segments, the merge of a relative path with
the base's, and the components of the target.

## Main results

* `recompose_parse` — a text is what its components spell.
* `removeDotSegments_eq_self_iff` — the removal leaves a path alone exactly when none of its
  segments is a dot segment.
* `removeDotSegments_slash` — on a path that begins with a slash it is one walk over the
  segments with a stack.
* `walk_eq_walk_iff` — a walk that passes over some segments ends with the stack of the walk
  that keeps them exactly when it ends at the same depth.
-/

namespace ProtoST.Uri

abbrev Text := List Char

/-! ## Cutting at a character -/

/-- The text before the first `c`, and what follows it. -/
@[grind =] def cut (c : Char) : Text → Text × Option Text
  | [] => ([], none)
  | x :: xs => if x = c then ([], some xs) else (x :: (cut c xs).1, (cut c xs).2)

/-- The text that `cut` took apart. -/
def glue (c : Char) (left : Text) : Option Text → Text
  | none => left
  | some right => left ++ c :: right

theorem glue_cut (c : Char) (s : Text) : glue c (cut c s).1 (cut c s).2 = s := by
  induction s with
  | nil => rfl
  | cons x xs ih =>
      by_cases hx : x = c
      · subst hx
        simp [cut, glue]
      · simp only [cut, if_neg hx]
        cases hr : (cut c xs).2 with
        | none =>
            rw [hr] at ih
            simpa [glue] using ih
        | some r =>
            rw [hr] at ih
            simpa [glue] using ih

theorem notMem_cut (c : Char) (s : Text) : c ∉ (cut c s).1 := by
  induction s with
  | nil => simp [cut]
  | cons x xs ih =>
      by_cases hx : x = c
      · simp [cut, hx]
      · simp only [cut, if_neg hx, List.mem_cons, not_or]
        exact ⟨fun h => hx h.symm, ih⟩

theorem cut_of_notMem {c : Char} {s : Text} (h : c ∉ s) : cut c s = (s, none) := by
  induction s with
  | nil => rfl
  | cons x xs ih =>
      simp only [List.mem_cons, not_or] at h
      simp [cut, Ne.symm h.1, ih h.2]

theorem cut_glue {c : Char} {left : Text} (h : c ∉ left) (right : Option Text) :
    cut c (glue c left right) = (left, right) := by
  cases right with
  | none => exact cut_of_notMem h
  | some r =>
      induction left with
      | nil => simp [glue, cut]
      | cons x xs ih =>
          simp only [List.mem_cons, not_or] at h
          have hxs : cut c (xs ++ c :: r) = (xs, some r) := ih h.2
          simp [glue, cut, Ne.symm h.1, hxs]

theorem cut_append_cons {c : Char} {left : Text} (h : c ∉ left) (right : Text) :
    cut c (left ++ c :: right) = (left, some right) := cut_glue h (some right)

/-- A text before a cut begins the text. -/
theorem cut_fst_subset (c : Char) (s : Text) : (cut c s).1 ⊆ s := by
  intro x hx
  rw [← glue_cut c s]
  cases (cut c s).2 with
  | none => exact hx
  | some r => exact List.mem_append_left _ hx

/-! ## The components of a reference -/

/-- The components of section 3; an empty component is not a missing one. -/
structure Reference where
  scheme : Option Text
  authority : Option Text
  path : Text
  query : Option Text
  fragment : Option Text
  deriving DecidableEq, Repr

/-- The path and what precedes it after the scheme: `//authority` when there is one. -/
def parseAuthority : Text → Option Text × Text
  | '/' :: '/' :: r => (some (r.takeWhile (· ≠ '/')), r.dropWhile (· ≠ '/'))
  | s => (none, s)

/-- The scheme, a text before a colon that is not empty and holds no slash. -/
def parseScheme (s : Text) : Option Text × Text :=
  match cut ':' s with
  | (scheme, some r) => if scheme = [] ∨ '/' ∈ scheme then (none, s) else (some scheme, r)
  | (_, none) => (none, s)

/-- The components of a text, as the regular expression of appendix B splits it. -/
def parse (s : Text) : Reference :=
  let beforeFragment := (cut '#' s).1
  let hierarchy := (cut '?' beforeFragment).1
  { scheme := (parseScheme hierarchy).1
    authority := (parseAuthority (parseScheme hierarchy).2).1
    path := (parseAuthority (parseScheme hierarchy).2).2
    query := (cut '?' beforeFragment).2
    fragment := (cut '#' s).2 }

/-- The path, the query and the fragment. -/
def recomposeTail (r : Reference) : Text := glue '#' (glue '?' r.path r.query) r.fragment

def spellScheme : Option Text → Text
  | none => []
  | some scheme => scheme ++ [':']

def spellAuthority : Option Text → Text
  | none => []
  | some authority => '/' :: '/' :: authority

/-- The recomposition of section 5.3. -/
def recompose (r : Reference) : Text :=
  spellScheme r.scheme ++ (spellAuthority r.authority ++ recomposeTail r)

theorem glue_append (c : Char) (pre left : Text) (right : Option Text) :
    glue c (pre ++ left) right = pre ++ glue c left right := by
  cases right <;> simp [glue]

theorem spell_parseAuthority (s : Text) :
    spellAuthority (parseAuthority s).1 ++ (parseAuthority s).2 = s := by
  fun_cases parseAuthority s with
  | case1 r => simp [spellAuthority, List.takeWhile_append_dropWhile]
  | case2 s h => rfl

theorem spell_parseScheme (s : Text) :
    spellScheme (parseScheme s).1 ++ (parseScheme s).2 = s := by
  have hcut := glue_cut ':' s
  fun_cases parseScheme s with
  | case1 scheme r hs h => rfl
  | case2 scheme r hs h => simpa [spellScheme, glue, hs] using hcut
  | case3 scheme hs => rfl

/-- A text is what its components spell. -/
theorem recompose_parse (s : Text) : recompose (parse s) = s := by
  have hFragment := glue_cut '#' s
  have hQuery := glue_cut '?' (cut '#' s).1
  have hScheme := spell_parseScheme (cut '?' (cut '#' s).1).1
  have hAuthority := spell_parseAuthority (parseScheme (cut '?' (cut '#' s).1).1).2
  calc recompose (parse s)
      = glue '#' (glue '?' (cut '?' (cut '#' s).1).1 (cut '?' (cut '#' s).1).2)
          (cut '#' s).2 := by
        simp only [recompose, recomposeTail, parse, ← glue_append, hAuthority, hScheme]
    _ = s := by rw [hQuery, hFragment]

/-- A reference with a scheme and an authority that its spelling does not run together. -/
structure Reference.Absolute (r : Reference) (scheme authority : Text) : Prop where
  scheme_eq : r.scheme = some scheme
  scheme_ne : scheme ≠ []
  scheme_clean : ∀ c ∈ scheme, c ≠ ':' ∧ c ≠ '/' ∧ c ≠ '?' ∧ c ≠ '#'
  authority_eq : r.authority = some authority
  authority_clean : ∀ c ∈ authority, c ≠ '/' ∧ c ≠ '?' ∧ c ≠ '#'
  path_rooted : r.path = [] ∨ r.path.head? = some '/'
  path_clean : ∀ c ∈ r.path, c ≠ '?' ∧ c ≠ '#'
  query_clean : ∀ q ∈ r.query, '#' ∉ q

theorem parseAuthority_slashes {authority path : Text} (h : '/' ∉ authority)
    (hp : path = [] ∨ path.head? = some '/') :
    parseAuthority ('/' :: '/' :: (authority ++ path)) = (some authority, path) := by
  have hNoSlash : ∀ c ∈ authority, decide (c ≠ '/') = true :=
    fun c hc => decide_eq_true fun e => h (e ▸ hc)
  have hPath : path.takeWhile (· ≠ '/') = [] ∧ path.dropWhile (· ≠ '/') = path := by
    rcases hp with rfl | hp
    · simp
    · cases path with
      | nil => simp
      | cons x xs => simp_all
  have hTake : (authority ++ path).takeWhile (· ≠ '/') = authority := by
    rw [List.takeWhile_append_of_pos hNoSlash, hPath.1, List.append_nil]
  have hDrop : (authority ++ path).dropWhile (· ≠ '/') = path := by
    rw [List.dropWhile_append_of_pos hNoSlash, hPath.2]
  simp only [parseAuthority, hTake, hDrop]

/-- What such a reference spells has these components. -/
theorem parse_recompose {r : Reference} {scheme authority : Text}
    (h : r.Absolute scheme authority) : parse (recompose r) = r := by
  have hHierarchy : recompose r =
      glue '#' (glue '?' (scheme ++ ':' :: '/' :: '/' :: (authority ++ r.path)) r.query)
        r.fragment := by
    simp only [recompose, recomposeTail, h.scheme_eq, h.authority_eq, spellScheme,
      spellAuthority, ← glue_append]
    simp
  have hNoQuery : '?' ∉ scheme ++ ':' :: '/' :: '/' :: (authority ++ r.path) := by
    simp only [List.mem_append, List.mem_cons, not_or]
    exact ⟨fun hc => (h.scheme_clean _ hc).2.2.1 rfl, by decide, by decide, by decide,
      fun hc => (h.authority_clean _ hc).2.1 rfl, fun hc => (h.path_clean _ hc).1 rfl⟩
  have hNoHash : '#' ∉ glue '?' (scheme ++ ':' :: '/' :: '/' :: (authority ++ r.path))
      r.query := by
    have hLeft : '#' ∉ scheme ++ ':' :: '/' :: '/' :: (authority ++ r.path) := by
      simp only [List.mem_append, List.mem_cons, not_or]
      exact ⟨fun hc => (h.scheme_clean _ hc).2.2.2 rfl, by decide, by decide, by decide,
        fun hc => (h.authority_clean _ hc).2.2 rfl, fun hc => (h.path_clean _ hc).2 rfl⟩
    cases hq : r.query with
    | none => exact hLeft
    | some q =>
        simp only [glue, List.mem_append (t := '?' :: q), List.mem_cons, not_or]
        exact ⟨hLeft, by decide, h.query_clean q hq⟩
  have hScheme : parseScheme (scheme ++ ':' :: '/' :: '/' :: (authority ++ r.path)) =
      (some scheme, '/' :: '/' :: (authority ++ r.path)) := by
    have hc : cut ':' (scheme ++ ':' :: '/' :: '/' :: (authority ++ r.path)) =
        (scheme, some ('/' :: '/' :: (authority ++ r.path))) :=
      cut_append_cons (fun hc => (h.scheme_clean _ hc).1 rfl) _
    have hn : ¬(scheme = [] ∨ '/' ∈ scheme) := by
      rintro (he | hm)
      · exact h.scheme_ne he
      · exact (h.scheme_clean _ hm).2.1 rfl
    simp only [parseScheme, hc, if_neg hn]
  have hAuthority := parseAuthority_slashes (fun hc => (h.authority_clean _ hc).1 rfl)
    h.path_rooted
  obtain ⟨s, a, p, q, f⟩ := r
  obtain rfl := h.scheme_eq
  obtain rfl := h.authority_eq
  simp only [parse, hHierarchy, cut_glue hNoHash, cut_glue hNoQuery, hScheme, hAuthority]

theorem parseAuthority_clean (s : Text) :
    (∀ authority ∈ (parseAuthority s).1, '/' ∉ authority) ∧
    ((parseAuthority s).1 ≠ none →
      (parseAuthority s).2 = [] ∨ (parseAuthority s).2.head? = some '/') := by
  fun_cases parseAuthority s with
  | case1 r =>
      constructor
      · rintro authority ⟨⟩ h
        simpa using List.mem_takeWhile_imp h
      · intro _
        have hHead := List.head?_dropWhile_not (fun x => decide (x ≠ '/')) r
        cases hd : r.dropWhile (· ≠ '/') with
        | nil => exact .inl rfl
        | cons c t =>
            rw [hd] at hHead
            exact .inr (by simpa using hHead)
  | case2 s h => simp

theorem parseScheme_clean (s : Text) :
    ∀ scheme ∈ (parseScheme s).1, scheme ≠ [] ∧ ':' ∉ scheme ∧ '/' ∉ scheme ∧ scheme ⊆ s := by
  have hColon := notMem_cut ':' s
  have hSub := cut_fst_subset ':' s
  fun_cases parseScheme s with
  | case1 scheme r hs h => simp
  | case2 scheme r hs h =>
      rw [hs] at hColon hSub
      simp only [not_or] at h
      rintro _ ⟨⟩
      exact ⟨h.1, hColon, h.2, hSub⟩
  | case3 scheme hs => simp

theorem parseScheme_snd_subset (s : Text) : (parseScheme s).2 ⊆ s := fun c hc => by
  rw [← spell_parseScheme s]
  exact List.mem_append_right _ hc

theorem parseAuthority_subset (s : Text) :
    (∀ authority ∈ (parseAuthority s).1, authority ⊆ s) ∧ (parseAuthority s).2 ⊆ s := by
  constructor
  · intro authority ha c hc
    rw [← spell_parseAuthority s, Option.mem_def.mp ha]
    simp [spellAuthority, hc]
  · intro c hc
    rw [← spell_parseAuthority s]
    exact List.mem_append_right _ hc

/-- What `parse` answers is spelled by its components one after the other. -/
theorem parse_clean (s : Text) :
    (∀ scheme ∈ (parse s).scheme, scheme ≠ [] ∧
      ∀ c ∈ scheme, c ≠ ':' ∧ c ≠ '/' ∧ c ≠ '?' ∧ c ≠ '#') ∧
    (∀ authority ∈ (parse s).authority, ∀ c ∈ authority, c ≠ '/' ∧ c ≠ '?' ∧ c ≠ '#') ∧
    ((parse s).authority ≠ none → (parse s).path = [] ∨ (parse s).path.head? = some '/') ∧
    (∀ c ∈ (parse s).path, c ≠ '?' ∧ c ≠ '#') ∧ ∀ q ∈ (parse s).query, '#' ∉ q := by
  have hNoHash := notMem_cut '#' s
  have hNoMark := notMem_cut '?' (cut '#' s).1
  have hSub := cut_fst_subset '?' (cut '#' s).1
  generalize hh : (cut '?' (cut '#' s).1).1 = hierarchy at hNoMark hSub
  have hClean : ∀ c ∈ hierarchy, c ≠ '?' ∧ c ≠ '#' := fun c hc =>
    ⟨fun e => hNoMark (e ▸ hc), fun e => hNoHash (hSub (e ▸ hc))⟩
  have hScheme := parseScheme_clean hierarchy
  have hAuthority := parseAuthority_clean (parseScheme hierarchy).2
  have hRest := parseScheme_snd_subset hierarchy
  have hParts := parseAuthority_subset (parseScheme hierarchy).2
  simp only [parse, hh]
  refine ⟨fun scheme hs => ?_, fun authority ha c hc => ?_, hAuthority.2,
    fun c hc => hClean c (hRest (hParts.2 hc)), fun q hq hc => ?_⟩
  · obtain ⟨hne, hColon, hSlash, hIn⟩ := hScheme scheme hs
    exact ⟨hne, fun c hc => ⟨fun e => hColon (e ▸ hc), fun e => hSlash (e ▸ hc),
      hClean c (hIn hc)⟩⟩
  · exact ⟨fun e => hAuthority.1 authority ha (e ▸ hc), hClean c (hRest (hParts.1 _ ha hc))⟩
  · apply hNoHash
    rw [← glue_cut '?' (cut '#' s).1, Option.mem_def.mp hq]
    simp [glue, hc]

theorem parse_absolute {s scheme authority : Text} (hs : (parse s).scheme = some scheme)
    (ha : (parse s).authority = some authority) : (parse s).Absolute scheme authority := by
  obtain ⟨hScheme, hAuthority, hRooted, hPath, hQuery⟩ := parse_clean s
  exact
    { scheme_eq := hs
      scheme_ne := (hScheme scheme hs).1
      scheme_clean := (hScheme scheme hs).2
      authority_eq := ha
      authority_clean := hAuthority authority ha
      path_rooted := hRooted (by simp [ha])
      path_clean := hPath
      query_clean := hQuery }

/-! ## Dot segments -/

/-- The output buffer without its last segment and the slash before it. -/
def dropLastSegment (output : Text) : Text :=
  ((output.reverse.dropWhile (· ≠ '/')).drop 1).reverse

/-- One round of the loop of section 5.2.4, of the input buffer and the output buffer. -/
def dotStep (input output : Text) : Text × Text :=
  match input with
  | '/' :: body =>
    let seg := body.takeWhile (· ≠ '/')
    let rest := body.dropWhile (· ≠ '/')
    if seg = ['.'] then (if rest = [] then ['/'] else rest, output)
    else if seg = ['.', '.'] then (if rest = [] then ['/'] else rest, dropLastSegment output)
    else (rest, output ++ '/' :: seg)
  | body =>
    let seg := body.takeWhile (· ≠ '/')
    let rest := body.dropWhile (· ≠ '/')
    if seg = ['.'] ∨ seg = ['.', '.'] then (rest.drop 1, output)
    else (rest, output ++ seg)

/-- The loop, in at most `n` rounds. -/
def dotLoop : Nat → Text → Text → Text
  | 0, _, output => output
  | n + 1, input, output =>
    if input = [] then output
    else dotLoop n (dotStep input output).1 (dotStep input output).2

/-- `remove_dot_segments`: every round takes a character of the input. -/
def removeDotSegments (path : Text) : Text := dotLoop path.length path []

theorem dotStep_lt {input : Text} (h : input ≠ []) (output : Text) :
    (dotStep input output).1.length < input.length := by
  have hRest : ∀ body : Text, (body.dropWhile (· ≠ '/')).length ≤ body.length :=
    fun body => (List.dropWhile_sublist _).length_le
  fun_cases dotStep input output with
  | case1 body seg rest hs =>
      have hSplit : (seg ++ rest).length = body.length := by
        rw [List.takeWhile_append_dropWhile]
      rw [hs] at hSplit
      split <;> simp_all <;> omega
  | case2 body seg rest hs hss =>
      have hSplit : (seg ++ rest).length = body.length := by
        rw [List.takeWhile_append_dropWhile]
      rw [hss] at hSplit
      split <;> simp_all <;> omega
  | case3 body seg rest hs hss => exact Nat.lt_succ_of_le (hRest body)
  | case4 _ hb seg rest hs =>
      have hSplit : (seg ++ rest).length = input.length := by
        rw [List.takeWhile_append_dropWhile]
      rcases hs with hs | hs <;> rw [hs] at hSplit <;> simp at hSplit ⊢ <;> omega
  | case5 _ hb seg rest hs =>
      cases input with
      | nil => exact absurd rfl h
      | cons x xs =>
          have hx : x ≠ '/' := fun e => hb xs (by rw [e])
          have : rest = xs.dropWhile (· ≠ '/') := by simp [rest, hx]
          rw [this]
          exact Nat.lt_succ_of_le (hRest xs)

def segments (path : Text) : List Text := path.splitOn '/'

/-- `.` and `..` are the dot segments. -/
def DotSegment (seg : Text) : Prop := seg = ['.'] ∨ seg = ['.', '.']

instance (seg : Text) : Decidable (DotSegment seg) := inferInstanceAs (Decidable (_ ∨ _))

/-- No segment of the path is a dot segment. -/
def NoDots (path : Text) : Prop := ∀ seg ∈ segments path, ¬DotSegment seg

instance (path : Text) : Decidable (NoDots path) := inferInstanceAs (Decidable (∀ _ ∈ _, _))

@[simp] theorem segments_nil : segments [] = [[]] := rfl

@[simp] theorem segments_slash (r : Text) : segments ('/' :: r) = [] :: segments r :=
  List.splitOn_append_cons_self_of_not_mem (List.not_mem_nil : '/' ∉ []) r

theorem segments_ne_nil (path : Text) : segments path ≠ [] := List.splitOn_ne_nil _ _

/-- A path is its first segment and what follows the slash after it. -/
theorem segments_span (path : Text) :
    (path.dropWhile (· ≠ '/') = [] ∧ segments path = [path.takeWhile (· ≠ '/')]) ∨
    ∃ r, path.dropWhile (· ≠ '/') = '/' :: r ∧
      segments path = path.takeWhile (· ≠ '/') :: segments r := by
  have hNot : '/' ∉ path.takeWhile (· ≠ '/') := fun h => by
    simpa using List.mem_takeWhile_imp h
  have hSplit := List.takeWhile_append_dropWhile (p := (· ≠ '/')) (l := path)
  cases hd : path.dropWhile (· ≠ '/') with
  | nil =>
      refine .inl ⟨rfl, ?_⟩
      rw [hd, List.append_nil] at hSplit
      rw [hSplit] at hNot ⊢
      exact List.splitOn_eq_singleton hNot
  | cons c r =>
      obtain rfl : c = '/' := by
        have hHead := List.head?_dropWhile_not (fun x => decide (x ≠ '/')) path
        rw [hd] at hHead
        simpa using hHead
      refine .inr ⟨r, rfl, ?_⟩
      rw [hd] at hSplit
      conv_lhs => rw [← hSplit]
      exact List.splitOn_append_cons_self_of_not_mem hNot r

theorem length_dropLastSegment_le (output : Text) :
    (dropLastSegment output).length ≤ output.length := by
  have := (List.dropWhile_sublist (l := output.reverse) (· ≠ '/')).length_le
  simp only [dropLastSegment, List.length_reverse, List.length_drop] at this ⊢
  omega

theorem not_noDots_of_span {path : Text} (h : DotSegment (path.takeWhile (· ≠ '/'))) :
    ¬NoDots path := fun hn => by
  refine hn _ ?_ h
  rcases segments_span path with ⟨-, hs⟩ | ⟨r, -, hs⟩ <;> simp [hs]

theorem noDots_slash (r : Text) : NoDots ('/' :: r) ↔ NoDots r := by
  simp [NoDots, DotSegment]

theorem noDots_span {path : Text} (h : ¬DotSegment (path.takeWhile (· ≠ '/'))) :
    NoDots path ↔ NoDots (path.dropWhile (· ≠ '/')) := by
  rcases segments_span path with ⟨hd, hs⟩ | ⟨r, hd, hs⟩
  · rw [hd]
    simp only [NoDots, hs, segments_nil, List.mem_singleton, forall_eq, h]
    simp [DotSegment]
  · rw [hd, noDots_slash]
    simp only [NoDots, hs, List.forall_mem_cons, h]
    simp

/-- A round either moves a segment that is no dot segment, or loses characters. -/
theorem dotStep_cases {input : Text} (h : input ≠ []) (output : Text) :
    (∃ moved rest, input = moved ++ rest ∧ dotStep input output = (rest, output ++ moved) ∧
      (NoDots input ↔ NoDots rest)) ∨
    (¬NoDots input ∧
      (dotStep input output).1.length + (dotStep input output).2.length <
        input.length + output.length) := by
  have hLast := length_dropLastSegment_le output
  have hLen : ∀ body : Text, (body.takeWhile (· ≠ '/')).length +
      (body.dropWhile (· ≠ '/')).length = body.length := fun body => by
    rw [← List.length_append, List.takeWhile_append_dropWhile]
  fun_cases dotStep input output with
  | case1 body seg rest hs =>
      have hBody := hLen body
      refine .inr ⟨fun hn => not_noDots_of_span (.inl hs) ((noDots_slash body).mp hn), ?_⟩
      change seg.length + rest.length = body.length at hBody
      rw [hs] at hBody
      split <;> simp_all <;> omega
  | case2 body seg rest hs hss =>
      have hBody := hLen body
      refine .inr ⟨fun hn => not_noDots_of_span (.inr hss) ((noDots_slash body).mp hn), ?_⟩
      change seg.length + rest.length = body.length at hBody
      rw [hss] at hBody
      split <;> simp_all <;> omega
  | case3 body seg rest hs hss =>
      refine .inl ⟨'/' :: seg, rest, ?_, rfl, ?_⟩
      · simp [seg, rest, List.takeWhile_append_dropWhile]
      · exact (noDots_slash body).trans (noDots_span fun hd => hd.elim hs hss)
  | case4 _ hb seg rest hs =>
      have hBody := hLen input
      refine .inr ⟨not_noDots_of_span hs, ?_⟩
      change seg.length + rest.length = input.length at hBody
      rcases hs with hs | hs <;> rw [hs] at hBody <;> simp at hBody ⊢ <;> omega
  | case5 _ hb seg rest hs =>
      exact .inl ⟨seg, rest, List.takeWhile_append_dropWhile.symm, rfl, noDots_span hs⟩

/-- In as many rounds as the input has characters the loop loses none exactly when the input
has no dot segment, and it then moves the input to the output. -/
theorem dotLoop_length {n : Nat} {input : Text} (hn : input.length ≤ n) (output : Text) :
    (NoDots input → dotLoop n input output = output ++ input) ∧
    (¬NoDots input → (dotLoop n input output).length < input.length + output.length) ∧
    (dotLoop n input output).length ≤ input.length + output.length := by
  induction n generalizing input output with
  | zero =>
      obtain rfl : input = [] := List.eq_nil_of_length_eq_zero (by omega)
      simp [dotLoop, NoDots, DotSegment]
  | succ n ih =>
      by_cases hi : input = []
      · subst hi
        simp [dotLoop, NoDots, DotSegment]
      have hShorter := dotStep_lt hi output
      simp only [dotLoop, if_neg hi]
      obtain ⟨hId, hLess, hLe⟩ := @ih (dotStep input output).1 (by omega)
        (dotStep input output).2
      rcases dotStep_cases hi output with ⟨moved, rest, rfl, hStep, hDots⟩ | ⟨hDots, hLoses⟩
      · rw [hStep] at hId hLess hLe ⊢
        simp only [List.length_append] at hLess hLe ⊢
        refine ⟨fun hd => ?_, fun hd => ?_, by omega⟩
        · rw [hId (hDots.mp hd), List.append_assoc]
        · have := hLess fun hr => hd (hDots.mpr hr)
          omega
      · exact ⟨fun hd => absurd hd hDots, fun _ => by omega, by omega⟩

/-- The removal leaves a path alone exactly when no segment of it is a dot segment. -/
theorem removeDotSegments_eq_self_iff (path : Text) :
    removeDotSegments path = path ↔ NoDots path := by
  obtain ⟨hId, hLess, -⟩ := dotLoop_length (Nat.le_refl path.length) []
  refine ⟨fun h => ?_, fun h => (hId h).trans (List.nil_append path)⟩
  by_contra hn
  have hLt := hLess hn
  have hSame : dotLoop path.length path [] = path := h
  rw [hSame] at hLt
  simp at hLt

/-- The removal brings in no character but the slash. -/
theorem mem_removeDotSegments {path : Text} {c : Char} (h : c ∈ removeDotSegments path) :
    c = '/' ∨ c ∈ path := by
  have hLast : ∀ output : Text, ∀ x ∈ dropLastSegment output, x ∈ output := by
    intro output x hx
    rw [dropLastSegment, List.mem_reverse] at hx
    exact List.mem_reverse.mp ((List.dropWhile_sublist _).subset (List.mem_of_mem_drop hx))
  have hStep : ∀ input output : Text, ∀ x,
      x ∈ (dotStep input output).1 ∨ x ∈ (dotStep input output).2 →
        x = '/' ∨ x ∈ input ∨ x ∈ output := by
    intro input output x
    have hTake : ∀ body : Text, x ∈ body.takeWhile (· ≠ '/') → x ∈ body :=
      fun body hx => (List.takeWhile_sublist _).subset hx
    have hDrop : ∀ body : Text, x ∈ body.dropWhile (· ≠ '/') → x ∈ body :=
      fun body hx => (List.dropWhile_sublist _).subset hx
    fun_cases dotStep input output with
    | case1 body seg rest hs =>
        rintro (hx | hx)
        · split at hx
          · exact .inl (by simpa using hx)
          · exact .inr (.inl (List.mem_cons_of_mem _ (hDrop _ hx)))
        · exact .inr (.inr hx)
    | case2 body seg rest hs hss =>
        rintro (hx | hx)
        · split at hx
          · exact .inl (by simpa using hx)
          · exact .inr (.inl (List.mem_cons_of_mem _ (hDrop _ hx)))
        · exact .inr (.inr (hLast _ _ hx))
    | case3 body seg rest hs hss =>
        rintro (hx | hx)
        · exact .inr (.inl (List.mem_cons_of_mem _ (hDrop _ hx)))
        · rcases List.mem_append.mp hx with hx | hx
          · exact .inr (.inr hx)
          · rcases List.mem_cons.mp hx with rfl | hx
            · exact .inl rfl
            · exact .inr (.inl (List.mem_cons_of_mem _ (hTake _ hx)))
    | case4 _ hb seg rest hs =>
        rintro (hx | hx)
        · exact .inr (.inl (hDrop _ (List.mem_of_mem_drop hx)))
        · exact .inr (.inr hx)
    | case5 _ hb seg rest hs =>
        rintro (hx | hx)
        · exact .inr (.inl (hDrop _ hx))
        · rcases List.mem_append.mp hx with hx | hx
          · exact .inr (.inr hx)
          · exact .inr (.inl (hTake _ hx))
  have hLoop : ∀ (n : Nat) (input output : Text),
      c ∈ dotLoop n input output → c = '/' ∨ c ∈ input ∨ c ∈ output := by
    intro n
    induction n with
    | zero => exact fun _ _ hc => .inr (.inr hc)
    | succ n ih =>
        intro input output hc
        rw [dotLoop] at hc
        split at hc
        · exact .inr (.inr hc)
        · rcases ih _ _ hc with hc | hc
          · exact .inl hc
          · exact hStep input output c hc
  simpa using hLoop _ _ _ h

/-! ## The removal as a walk over the segments -/

/-- A slash before every segment. -/
def slashed : List Text → Text
  | [] => []
  | seg :: segs => '/' :: (seg ++ slashed segs)

@[simp] theorem slashed_append (as bs : List Text) :
    slashed (as ++ bs) = slashed as ++ slashed bs := by
  induction as with
  | nil => rfl
  | cons seg as ih => simp [slashed, ih]

variable {segs : List Text}

theorem slashed_eq_intercalate (h : segs ≠ []) :
    slashed segs = '/' :: ['/'].intercalate segs := by
  induction segs with
  | nil => exact absurd rfl h
  | cons seg segs ih =>
      cases segs with
      | nil => simp [slashed]
      | cons seg' segs => rw [slashed, ih (by simp)]; simp

theorem slashed_segments (r : Text) : slashed (segments r) = '/' :: r := by
  rw [slashed_eq_intercalate (segments_ne_nil r), segments, List.intercalate_splitOn]

theorem segments_of_slashed (h : ∀ seg ∈ segs, '/' ∉ seg)
    (hne : segs ≠ []) {r : Text} (hr : slashed segs = '/' :: r) : segments r = segs := by
  rw [slashed_eq_intercalate hne, List.cons.injEq] at hr
  rw [← hr.2, segments, List.splitOn_intercalate _ h hne]

theorem slashed_injective {as bs : List Text} (ha : ∀ seg ∈ as, '/' ∉ seg)
    (hb : ∀ seg ∈ bs, '/' ∉ seg) (h : slashed as = slashed bs) : as = bs := by
  cases as with
  | nil =>
      cases bs with
      | nil => rfl
      | cons b bs => simp [slashed] at h
  | cons a as =>
      cases bs with
      | nil => simp [slashed] at h
      | cons b bs =>
          have hA : segments (a ++ slashed as) = a :: as :=
            segments_of_slashed ha (List.cons_ne_nil a as) rfl
          have hB : segments (a ++ slashed as) = b :: bs :=
            segments_of_slashed hb (List.cons_ne_nil b bs) h.symm
          exact hA.symm.trans hB

theorem notMem_of_mem_segments {r seg : Text} (h : seg ∈ segments r) : '/' ∉ seg := by
  induction r generalizing seg with
  | nil => simp_all
  | cons c r ih =>
      rw [segments, List.splitOn_cons_eq_if_modifyHead] at h
      split at h
      · rcases List.mem_cons.mp h with rfl | h
        · simp
        · exact ih h
      next hc =>
        have hc : '/' ≠ c := fun e => hc (by simp [← e])
        cases hs : segments r with
        | nil => exact absurd hs (segments_ne_nil r)
        | cons first rest =>
            rw [show r.splitOn '/' = first :: rest from hs, List.modifyHead_cons] at h
            rcases List.mem_cons.mp h with rfl | h
            · have := ih (hs ▸ List.mem_cons_self)
              simp [hc, this]
            · exact ih (hs ▸ List.mem_cons_of_mem _ h)

section Walk

variable (skip : Text → Bool)

/-- The stack of segments, the last one first, after one more segment: `..` takes the last
one back, `.` and the segments to skip leave it. -/
def push (stack : List Text) (seg : Text) : List Text :=
  if seg = ['.', '.'] then stack.tail
  else if seg = ['.'] ∨ skip seg then stack
  else seg :: stack

def walk (stack : List Text) (segs : List Text) : List Text := segs.foldl (push skip) stack

/-- How many segments a walk keeps, from how many there were before it. -/
def depth (n : Nat) (segs : List Text) : Nat :=
  segs.foldl (fun n seg =>
    if seg = ['.', '.'] then n - 1 else if seg = ['.'] ∨ skip seg then n else n + 1) n

theorem length_walk (stack segs : List Text) :
    (walk skip stack segs).length = depth skip stack.length segs := by
  induction segs generalizing stack with
  | nil => rfl
  | cons seg segs ih =>
      have hPush : (push skip stack seg).length =
          if seg = ['.', '.'] then stack.length - 1
          else if seg = ['.'] ∨ skip seg then stack.length else stack.length + 1 := by
        unfold push
        split
        · simp
        · split <;> simp
      simp only [walk, depth, List.foldl_cons] at ih ⊢
      rw [ih, hPush]

/-- A walk that skips segments keeps a part of what the walk that skips none keeps. -/
theorem walk_sublist {stack stack' : List Text} (h : stack.Sublist stack')
    (segs : List Text) : (walk skip stack segs).Sublist (walk (fun _ => false) stack' segs) := by
  induction segs generalizing stack stack' with
  | nil => exact h
  | cons seg segs ih =>
      refine ih ?_
      unfold push
      by_cases hDotDot : seg = ['.', '.']
      · simpa only [if_pos hDotDot] using h.tail
      by_cases hDot : seg = ['.']
      · simpa [hDotDot, hDot] using h
      by_cases hSkip : skip seg = true
      · simpa [hDotDot, hDot, hSkip] using h.cons seg
      · simpa [hDotDot, hDot, hSkip] using h.cons_cons seg

/-- It keeps all of it exactly when it ends at the same depth. -/
theorem walk_eq_walk_iff (segs : List Text) :
    walk skip [] segs = walk (fun _ => false) [] segs ↔
      depth skip 0 segs = depth (fun _ => false) 0 segs := by
  have hSub := walk_sublist skip (List.Sublist.refl []) segs
  have hLen := length_walk skip [] segs
  have hLen' := length_walk (fun _ => false) [] segs
  rw [List.length_nil] at hLen hLen'
  rw [← hLen, ← hLen']
  exact ⟨fun h => by rw [h], fun h => hSub.eq_of_length h⟩

end Walk

/-- The segments without a last one that is empty. -/
def body (segs : List Text) : List Text :=
  if segs.getLast? = some [] then segs.dropLast else segs

/-- The slash that ends a path whose last segment is empty or a dot segment. -/
def ending (segs : List Text) : List Text :=
  match segs.getLast? with
  | none => []
  | some seg => if seg = [] ∨ DotSegment seg then [[]] else []

theorem body_cons_cons (a b : Text) (segs : List Text) :
    body (a :: b :: segs) = a :: body (b :: segs) := by
  simp only [body, List.getLast?_cons_cons]
  split <;> rfl

theorem ending_cons_cons (a b : Text) (segs : List Text) :
    ending (a :: b :: segs) = ending (b :: segs) := by
  simp only [ending, List.getLast?_cons_cons]

theorem dropLastSegment_slashed {stack : List Text} (h : ∀ seg ∈ stack, '/' ∉ seg) :
    dropLastSegment (slashed stack.reverse) = slashed stack.tail.reverse := by
  cases stack with
  | nil => rfl
  | cons seg stack =>
      have hSeg : ∀ c ∈ seg.reverse, decide (c ≠ '/') = true := fun c hc =>
        decide_eq_true fun e => h seg List.mem_cons_self (e ▸ List.mem_reverse.mp hc)
      have hRev : (slashed (seg :: stack).reverse).reverse =
          seg.reverse ++ '/' :: (slashed stack.reverse).reverse := by
        simp [slashed]
      rw [dropLastSegment, hRev, List.dropWhile_append_of_pos hSeg]
      simp

theorem slashed_eq_nil : slashed segs = [] ↔ segs = [] := by
  cases segs <;> simp [slashed]

/-- A round on a path that begins with a slash deals with its first segment. -/
theorem dotStep_slashed {seg : Text} (h : '/' ∉ seg) (segs : List Text) (output : Text) :
    dotStep (slashed (seg :: segs)) output =
      if seg = ['.'] then (if segs = [] then ['/'] else slashed segs, output)
      else if seg = ['.', '.'] then
        (if segs = [] then ['/'] else slashed segs, dropLastSegment output)
      else (slashed segs, output ++ '/' :: seg) := by
  have hSeg : ∀ c ∈ seg, decide (c ≠ '/') = true :=
    fun c hc => decide_eq_true fun e => h (e ▸ hc)
  have hTake : (seg ++ slashed segs).takeWhile (· ≠ '/') = seg := by
    rw [List.takeWhile_append_of_pos hSeg]
    cases segs <;> simp [slashed]
  have hDrop : (seg ++ slashed segs).dropWhile (· ≠ '/') = slashed segs := by
    rw [List.dropWhile_append_of_pos hSeg]
    cases segs <;> simp [slashed]
  simp only [slashed, dotStep, hTake, hDrop, slashed_eq_nil]

@[simp] theorem dotLoop_nil (n : Nat) (output : Text) : dotLoop n [] output = output := by
  cases n <;> simp [dotLoop]

/-- The loop over a path that begins with a slash walks over its segments. -/
theorem dotLoop_slashed {n : Nat} (hn : (slashed segs).length ≤ n)
    (hSegs : ∀ seg ∈ segs, '/' ∉ seg) (hne : segs ≠ []) (stack : List Text)
    (hStack : ∀ seg ∈ stack, '/' ∉ seg) :
    dotLoop n (slashed segs) (slashed stack.reverse) =
      slashed ((walk (fun _ => false) stack (body segs)).reverse ++ ending segs) := by
  induction n generalizing segs stack with
  | zero =>
      rw [Nat.le_zero, List.length_eq_zero_iff, slashed_eq_nil] at hn
      exact absurd hn hne
  | succ n ih =>
      cases segs with
      | nil => exact absurd rfl hne
      | cons seg segs =>
          have hSeg := hSegs seg List.mem_cons_self
          have hRest : ∀ seg ∈ segs, '/' ∉ seg := fun s hs =>
            hSegs s (List.mem_cons_of_mem _ hs)
          have hTail : ∀ seg ∈ stack.tail, '/' ∉ seg := fun s hs =>
            hStack s (List.mem_of_mem_tail hs)
          have hShort : (slashed segs).length ≤ n := by
            simp only [slashed, List.length_cons, List.length_append] at hn
            omega
          have hMoved : slashed stack.reverse ++ '/' :: seg =
              slashed (seg :: stack).reverse := by
            simp [slashed]
          rw [dotLoop, if_neg (by simp [slashed]), dotStep_slashed hSeg]
          cases segs with
          | nil =>
              -- after a last dot segment a round on a lone slash is left
              have hLone : seg = ['.'] ∨ seg = ['.', '.'] → ∀ output,
                  dotLoop n ['/'] output = output ++ ['/'] := by
                intro hDot output
                obtain ⟨m, rfl⟩ : ∃ m, n = m + 1 := by
                  refine ⟨n - 1, ?_⟩
                  rcases hDot with rfl | rfl <;> simp [slashed] at hn <;> omega
                simp [dotLoop, dotStep]
              by_cases hDot : seg = ['.']
              · simp [hDot, hLone (.inl hDot), body, ending, DotSegment, walk, push, slashed]
              by_cases hDotDot : seg = ['.', '.']
              · simp [hDotDot, hLone (.inr hDotDot), body, ending, DotSegment, walk, push,
                  slashed, dropLastSegment_slashed hStack]
              rw [if_neg hDot, if_neg hDotDot, hMoved]
              by_cases hEmpty : seg = []
              · simp [hEmpty, body, ending, walk, slashed]
              · simp [body, ending, walk, push, DotSegment, hEmpty, hDot, hDotDot, slashed]
          | cons next segs =>
              rw [body_cons_cons, ending_cons_cons, walk, List.foldl_cons, ← walk]
              by_cases hDot : seg = ['.']
              · rw [if_pos hDot, if_neg (List.cons_ne_nil _ _),
                  ih hShort hRest (List.cons_ne_nil _ _) stack hStack]
                simp [push, hDot]
              by_cases hDotDot : seg = ['.', '.']
              · rw [if_neg hDot, if_pos hDotDot, if_neg (List.cons_ne_nil _ _),
                  dropLastSegment_slashed hStack,
                  ih hShort hRest (List.cons_ne_nil _ _) stack.tail hTail]
                simp [push, hDotDot]
              · rw [if_neg hDot, if_neg hDotDot, hMoved,
                  ih hShort hRest (List.cons_ne_nil _ _) (seg :: stack)
                    (List.forall_mem_cons.mpr ⟨hSeg, hStack⟩)]
                simp [push, hDot, hDotDot]

/-- On a path that begins with a slash the removal is one walk over the segments. -/
theorem removeDotSegments_slash (r : Text) :
    removeDotSegments ('/' :: r) =
      slashed ((walk (fun _ => false) [] (body (segments r))).reverse ++
        ending (segments r)) := by
  have h := dotLoop_slashed (Nat.le_refl _) (fun seg hs => notMem_of_mem_segments (r := r) hs)
    (segments_ne_nil r) [] (by simp)
  rwa [slashed_segments] at h

/-! ## Resolution -/

/-- The path up to its last slash, that one included. -/
def directory (path : Text) : Text := (path.reverse.dropWhile (· ≠ '/')).reverse

/-- The merge of section 5.2.3. -/
def merge (base ref : Reference) : Text :=
  if base.authority ≠ none ∧ base.path = [] then '/' :: ref.path
  else directory base.path ++ ref.path

/-- The target of section 5.2.2, of a strict resolution. -/
def resolve (base ref : Reference) : Reference :=
  if ref.scheme ≠ none then { ref with path := removeDotSegments ref.path }
  else if ref.authority ≠ none then
    { ref with scheme := base.scheme, path := removeDotSegments ref.path }
  else
    { scheme := base.scheme
      authority := base.authority
      path :=
        if ref.path = [] then base.path
        else if ref.path.head? = some '/' then removeDotSegments ref.path
        else removeDotSegments (merge base ref)
      query := if ref.path = [] ∧ ref.query = none then base.query else ref.query
      fragment := ref.fragment }

/-- The path and the query of the target spell no other component. -/
theorem resolve_clean {base ref : Reference}
    (hBase : ∀ c ∈ base.path, c ≠ '?' ∧ c ≠ '#') (hBaseQuery : ∀ q ∈ base.query, '#' ∉ q)
    (hRef : ∀ c ∈ ref.path, c ≠ '?' ∧ c ≠ '#') (hRefQuery : ∀ q ∈ ref.query, '#' ∉ q) :
    (∀ c ∈ (resolve base ref).path, c ≠ '?' ∧ c ≠ '#') ∧
      ∀ q ∈ (resolve base ref).query, '#' ∉ q := by
  have hDots : ∀ path : Text, (∀ c ∈ path, c ≠ '?' ∧ c ≠ '#') →
      ∀ c ∈ removeDotSegments path, c ≠ '?' ∧ c ≠ '#' := by
    intro path hp c hc
    rcases mem_removeDotSegments hc with rfl | hc
    · decide
    · exact hp c hc
  have hMerge : ∀ c ∈ merge base ref, c ≠ '?' ∧ c ≠ '#' := by
    intro c hc
    unfold merge at hc
    split at hc
    · rcases List.mem_cons.mp hc with rfl | hc
      · decide
      · exact hRef c hc
    · rcases List.mem_append.mp hc with hc | hc
      · rw [directory, List.mem_reverse] at hc
        exact hBase c (List.mem_reverse.mp ((List.dropWhile_sublist _).subset hc))
      · exact hRef c hc
  unfold resolve
  split
  · exact ⟨hDots _ hRef, hRefQuery⟩
  split
  · exact ⟨hDots _ hRef, hRefQuery⟩
  constructor
  · dsimp only
    split
    · exact hBase
    split
    · exact hDots _ hRef
    · exact hDots _ hMerge
  · dsimp only
    split
    · exact hBaseQuery
    · exact hRefQuery

end ProtoST.Uri

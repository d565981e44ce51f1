import ProtoST.Http.Urls

/-!
# Redirect targets and RFC 3986

The target that `redirectUrl:from:` answers, beside the one that the resolution algorithm of
RFC 3986 gives for the same base and location.

## Main results

* `redirectUrl_follows_iff` — when the method answers the target of the RFC, or refuses a
  target that is to be refused.
* `removeDotSegments_eq_iff` — when the method's paths come out as the RFC's do: empty
  segments change no depth, and a fragment holds nothing that the walk takes out.
-/

namespace ProtoST.Http

open ProtoST.Uri

/-! ## The same URL -/

def defaultPort (scheme : Text) : Option Nat :=
  if scheme = http then some 80 else if scheme = https then some 443 else none

/-- Nothing, or a colon and digits that spell the scheme's default port. -/
def DefaultSpelling (scheme port : Text) : Prop :=
  port = [] ∨ ∃ digits, port = ':' :: digits ∧ digits ≠ [] ∧ digits.all isDigit ∧
    defaultPort scheme = some (decimal digits)

/-- The same authority, up to the spelling of the default port. -/
def SameAuthority (scheme a b : Text) : Prop :=
  a = b ∨ ∃ host p q, a = host ++ p ∧ b = host ++ q ∧
    DefaultSpelling scheme p ∧ DefaultSpelling scheme q

/-- The same components, up to the spelling of the default port. -/
structure SameUrl (u v : Reference) : Prop where
  scheme_eq : u.scheme = v.scheme
  authority_same : Option.Rel (SameAuthority (v.scheme.getD [])) u.authority v.authority
  path_eq : u.path = v.path
  query_eq : u.query = v.query
  fragment_eq : u.fragment = v.fragment

/-- The target of the RFC. -/
def rfcTarget (aLocation aUrl : Text) : Reference := resolve (parse aUrl) (parse aLocation)

/-- `parseUrl:` signals an error. -/
def Rejected (target : Reference) : Prop := ∀ parts, parseUrl (recompose target) ≠ .ok parts

/-- A redirect from https to http. -/
def Downgrade (aUrl : Text) (target : Reference) : Prop :=
  (parse aUrl).scheme.map asLowercase = some https ∧
    target.scheme.map asLowercase = some http

/-- `redirectUrl:from:` answers the target of the RFC, or refuses one that is to be refused. -/
def Follows (d : Doubles) (aLocation aUrl : Text) : Prop :=
  match redirectUrl d aLocation aUrl with
  | .ok target =>
    SameUrl (parse target) (rfcTarget aLocation aUrl) ∧
      ¬Downgrade aUrl (rfcTarget aLocation aUrl)
  | .error _ =>
    Rejected (rfcTarget aLocation aUrl) ∨ Downgrade aUrl (rfcTarget aLocation aUrl)

/-! ## When they agree -/

/-- A segment that is neither empty nor a dot segment. -/
def Plain (seg : Text) : Prop := seg ≠ [] ∧ ¬DotSegment seg

/-- A path of plain segments; the last one may be empty. -/
def Tidy (path : Text) : Prop :=
  path.head? = some '/' ∧ ∀ seg ∈ body (segments path.tail), Plain seg

/-- The empty segments of the path change no depth: as many segments are kept when they count
as when they do not. -/
def SameDepth (path : Text) : Prop :=
  depth emptySegment 0 (body (segments path.tail)) =
    depth (fun _ => false) 0 (body (segments path.tail))

/-- The fragment comes through although it is taken for a part of the path up to a question
mark: the path does not end in a dot segment, and after its first slash the fragment has plain
segments. -/
def FragmentKept (path fragment : Text) : Prop :=
  (∀ last ∈ (segments path.tail).getLast?, ¬DotSegment last) ∧
    ∀ seg ∈ body (segments (cut '?' fragment).1).tail, Plain seg

/-- The base's fragment, which is taken for a part of its path up to a question mark, holds
no slash there. -/
def FragmentClear (base : Reference) : Prop :=
  base.query ≠ none ∨ ∀ fragment ∈ base.fragment, '/' ∉ (cut '?' fragment).1

/-- The path of the target before its dot segments are removed. -/
def rawPath (base ref : Reference) : Text :=
  if ref.path.head? = some '/' then ref.path else merge base ref

/-- A reference without a scheme and an authority keeps its path. -/
def PathKept (base ref : Reference) : Prop :=
  if ref.path ≠ [] then
    (ref.path.head? = some '/' ∨ FragmentClear base) ∧ SameDepth (rawPath base ref) ∧
      (ref.query = none → ∀ fragment ∈ ref.fragment,
        FragmentKept (rawPath base ref) fragment)
  else if ref.query ≠ none then
    (base.query ≠ none ∨ base.fragment = none) ∧ Tidy base.path
  else
    FragmentClear base ∧ base.query = none ∧ base.path.getLast? = some '/' ∧
      Tidy base.path ∧ ∀ fragment ∈ ref.fragment, FragmentKept base.path fragment

/-- The port of the base is the default and written in digits or left out, or it prints the
way it is written. -/
def PortKept (d : Doubles) (scheme authority : Text) : Prop :=
  match (cut ':' authority).2 with
  | none => defaultPort scheme ≠ none
  | some text =>
    ∃ port, asNumber text = some port ∧
      if (scheme = http ∧ port.equals d 80) ∨ (scheme = https ∧ port.equals d 443) then
        text.all isDigit ∧ defaultPort scheme = some (decimal text)
      else port.printString d = text

/-- The base's scheme and authority come through: the scheme is in lower case, a slash or
nothing follows the authority, and the port is kept. -/
def BaseKept (d : Doubles) (base : Reference) : Prop :=
  ∃ scheme authority, base.scheme = some scheme ∧ base.authority = some authority ∧
    asLowercase scheme = scheme ∧
    (base.path ≠ [] ∨ (base.query = none ∧ base.fragment = none)) ∧
    PortKept d scheme authority

/-- A text that a redirect from an https URL refuses. -/
def Refused (aUrl target : Text) : Prop :=
  (parse aUrl).scheme.map asLowercase = some https ∧
    ∀ parts, parseUrl target = .ok parts → parts.scheme = http

/-- The text is refused, and the target of the RFC is to be refused. -/
def BothRefused (aLocation aUrl target : Text) : Prop :=
  Refused aUrl target ∧
    (Rejected (rfcTarget aLocation aUrl) ∨ Downgrade aUrl (rfcTarget aLocation aUrl))

/-- By the kind of the location: one with `://` is taken as it stands, one with `//` in front
gets the base's scheme, and any other is relative to the base. -/
def Kept (d : Doubles) (aLocation aUrl : Text) : Prop :=
  if includesSubstring aLocation [':', '/', '/'] then
    ((parse aLocation).scheme ≠ none ∧ NoDots (parse aLocation).path) ∨
      BothRefused aLocation aUrl aLocation
  else if beginsWith aLocation ['/', '/'] then
    ((parse aUrl).scheme.map asLowercase = (parse aUrl).scheme ∧
        NoDots (parse aLocation).path) ∨
      ∃ scheme ∈ (parse aUrl).scheme,
        BothRefused aLocation aUrl (asLowercase scheme ++ ':' :: aLocation)
  else
    (parse aLocation).scheme = none ∧ BaseKept d (parse aUrl) ∧
      PathKept (parse aUrl) (parse aLocation)

/-! ## What is kept of a path -/

/-- The segments after the removal, of a walk that may pass over some. -/
def keptSegments (skip : Text → Bool) (segs : List Text) : List Text :=
  (walk skip [] (body segs)).reverse ++ ending segs

theorem plain_of_mem_walk {stack segs : List Text} (h : ∀ seg ∈ stack, Plain seg) :
    ∀ seg ∈ walk emptySegment stack segs, Plain seg := by
  induction segs generalizing stack with
  | nil => exact h
  | cons seg segs ih =>
      refine ih ?_
      unfold push
      split
      · exact fun s hs => h s (List.mem_of_mem_tail hs)
      next hDotDot =>
        split
        · exact h
        next hSkip =>
          simp only [emptySegment, decide_eq_true_eq, not_or] at hSkip
          refine List.forall_mem_cons.mpr ⟨⟨hSkip.2, ?_⟩, h⟩
          rintro (hd | hd)
          · exact hSkip.1 hd
          · exact hDotDot hd

theorem mem_of_mem_walk (skip : Text → Bool) {stack segs : List Text} {seg : Text}
    (h : seg ∈ walk skip stack segs) : seg ∈ stack ∨ seg ∈ segs := by
  induction segs generalizing stack with
  | nil => exact .inl h
  | cons s segs ih =>
      have hPush : ∀ x ∈ push skip stack s, x ∈ stack ∨ x = s := by
        intro x hx
        unfold push at hx
        split at hx
        · exact .inl (List.mem_of_mem_tail hx)
        · split at hx
          · exact .inl hx
          · exact (List.mem_cons.mp hx).symm
      rcases ih h with hs | hs
      · rcases hPush seg hs with hp | rfl
        · exact .inl hp
        · exact .inr List.mem_cons_self
      · exact .inr (List.mem_cons_of_mem _ hs)

variable {segs : List Text}

theorem mem_of_mem_body {seg : Text} (h : seg ∈ body segs) : seg ∈ segs := by
  unfold body at h
  split at h
  · exact List.dropLast_subset _ h
  · exact h

theorem body_append (init : List Text) (h : segs ≠ []) :
    body (init ++ segs) = init ++ body segs := by
  simp only [body, List.getLast?_append_of_ne_nil _ h, List.dropLast_append_of_ne_nil h]
  split <;> rfl

theorem body_concat (init : List Text) (last : Text) :
    body (init ++ [last]) = if last = [] then init else init ++ [last] := by
  by_cases h : last = [] <;> simp [body, h]

theorem ending_concat (init : List Text) (last : Text) :
    ending (init ++ [last]) = if last = [] ∨ DotSegment last then [[]] else [] := by
  simp [ending]

theorem mem_keptSegments (skip : Text → Bool) {seg : Text}
    (h : seg ∈ keptSegments skip segs) : seg ∈ segs ∨ seg = [] := by
  rcases List.mem_append.mp h with h | h
  · rcases mem_of_mem_walk skip (List.mem_reverse.mp h) with h | h
    · simp at h
    · exact .inl (mem_of_mem_body h)
  · refine .inr ?_
    unfold ending at h
    split at h
    · simp at h
    · split at h <;> simp_all

theorem notMem_keptSegments (skip : Text → Bool) (r : Text) :
    ∀ seg ∈ keptSegments skip (segments r), '/' ∉ seg := by
  intro seg hs
  rcases mem_keptSegments skip hs with h | rfl
  · exact notMem_of_mem_segments h
  · simp

theorem mem_slashed {c : Char} (h : c ∈ slashed segs) :
    c = '/' ∨ ∃ seg ∈ segs, c ∈ seg := by
  induction segs with
  | nil => simp [slashed] at h
  | cons seg segs ih =>
      rw [slashed, List.mem_cons, List.mem_append] at h
      rcases h with h | h | h
      · exact .inl h
      · exact .inr ⟨seg, List.mem_cons_self, h⟩
      · rcases ih h with h | ⟨s, hs, h⟩
        · exact .inl h
        · exact .inr ⟨s, List.mem_cons_of_mem _ hs, h⟩

theorem mem_of_mem_segments {r seg : Text} (hs : seg ∈ segments r) : seg ⊆ r := by
  intro c hc
  have hPath : c ∈ slashed (segments r) := by
    obtain ⟨as, bs, hSplit⟩ := List.append_of_mem hs
    rw [hSplit, slashed_append, slashed]
    simp [hc]
  rw [slashed_segments, List.mem_cons] at hPath
  rcases hPath with rfl | h
  · exact absurd hc (notMem_of_mem_segments hs)
  · exact h

/-- What is kept of a path has no other characters. -/
theorem notMem_slashed_keptSegments (skip : Text → Bool) {c : Char} (hc : c ≠ '/') {r : Text}
    (h : c ∉ r) : c ∉ slashed (keptSegments skip (segments r)) := fun hm => by
  rcases mem_slashed hm with rfl | ⟨seg, hs, hcs⟩
  · exact hc rfl
  rcases mem_keptSegments skip hs with hs | rfl
  · exact h (mem_of_mem_segments hs hcs)
  · simp at hcs

/-- A walk over plain segments keeps them all. -/
theorem walk_plain (skip : Text → Bool) (hSkip : ∀ seg, skip seg = true → seg = [])
    (h : ∀ seg ∈ segs, Plain seg) (stack : List Text) :
    walk skip stack segs = segs.reverse ++ stack := by
  induction segs generalizing stack with
  | nil => rfl
  | cons seg segs ih =>
      obtain ⟨⟨hne, hDot⟩, hRest⟩ := List.forall_mem_cons.mp h
      simp only [DotSegment, not_or] at hDot
      have hPush : push skip stack seg = seg :: stack := by
        have hs : ¬skip seg = true := fun hs => hne (hSkip seg hs)
        simp [push, hDot.1, hDot.2, hs]
      rw [walk, List.foldl_cons, hPush, ← walk, ih hRest]
      simp

/-- Something is kept of every path. -/
theorem keptSegments_ne_nil (skip : Text → Bool) (hSkip : ∀ seg, skip seg = true → seg = [])
    (hne : segs ≠ []) : keptSegments skip segs ≠ [] := by
  obtain ⟨init, last, rfl⟩ : ∃ init last, segs = init ++ [last] :=
    ⟨_, _, (List.dropLast_append_getLast hne).symm⟩
  rw [keptSegments, body_concat, ending_concat]
  by_cases h : last = [] ∨ DotSegment last
  · simp [h]
  · have hPlain : Plain last := not_or.mp h
    have hLast : walk skip (walk skip [] init) [last] = last :: walk skip [] init := by
      rw [walk_plain skip hSkip (by simpa using hPlain)]
      rfl
    rw [if_neg hPlain.1, walk, List.foldl_append, ← walk, ← walk, hLast]
    simp

theorem eq_nil_of_emptySegment (seg : Text) (h : emptySegment seg = true) : seg = [] := by
  simpa [emptySegment] using h

theorem walk_append (skip : Text → Bool) (stack as bs : List Text) :
    walk skip stack (as ++ bs) = walk skip (walk skip stack as) bs := List.foldl_append

theorem depth_concat (skip : Text → Bool) (init : List Text) {last : Text}
    (h : Plain last) (hSkip : ∀ seg, skip seg = true → seg = []) :
    depth skip 0 (init ++ [last]) = depth skip 0 init + 1 := by
  obtain ⟨hne, hDot⟩ := h
  simp only [DotSegment, not_or] at hDot
  have hs : ¬skip last = true := fun hs => hne (hSkip last hs)
  simp [depth, hDot.1, hDot.2, hs]

/-- The method and the RFC keep the same segments exactly when the empty ones change no
depth. -/
theorem keptSegments_eq_iff (r : Text) :
    keptSegments emptySegment (segments r) = keptSegments (fun _ => false) (segments r) ↔
      SameDepth ('/' :: r) := by
  rw [keptSegments, keptSegments, List.append_left_inj, List.reverse_inj, SameDepth,
    List.tail_cons]
  exact walk_eq_walk_iff _ _

/-- A kept path is made of plain segments; the last one may be empty. -/
theorem plain_of_keptSegments_eq {segs kept : List Text}
    (h : keptSegments emptySegment segs = kept) : ∀ seg ∈ body kept, Plain seg := by
  have hWalk := @plain_of_mem_walk [] (body segs) (by simp)
  subst h
  have hEnding : ending segs = [] ∨ ending segs = [[]] := by
    unfold ending
    split
    · exact .inl rfl
    · split
      · exact .inr rfl
      · exact .inl rfl
  rw [keptSegments]
  rcases hEnding with hE | hE
  · rw [hE, List.append_nil]
    exact fun seg hs => hWalk seg (List.mem_reverse.mp (mem_of_mem_body hs))
  · rw [hE, body_concat, if_pos rfl]
    exact fun seg hs => hWalk seg (List.mem_reverse.mp hs)

theorem exists_concat_segments (r : Text) : ∃ init last, segments r = init ++ [last] :=
  ⟨_, _, (List.dropLast_append_getLast (segments_ne_nil r)).symm⟩

/-- A walk over segments that are plain but for a last empty one keeps them all. -/
theorem keptSegments_append (init : List Text)
    (h : ∀ seg ∈ body segs, Plain seg) (hne : segs ≠ []) :
    keptSegments emptySegment (init ++ segs) = (walk emptySegment [] init).reverse ++ segs := by
  obtain ⟨ys, y, rfl⟩ : ∃ ys y, segs = ys ++ [y] :=
    ⟨_, _, (List.dropLast_append_getLast hne).symm⟩
  rw [body_concat] at h
  rw [keptSegments, ← List.append_assoc, body_concat, ending_concat]
  by_cases hy : y = []
  · rw [if_pos hy] at h
    rw [if_pos hy, if_pos (.inl hy), walk_append, walk_plain _ eq_nil_of_emptySegment h]
    simp [hy]
  · rw [if_neg hy] at h
    have hLast : Plain y := h y (by simp)
    rw [if_neg hy, if_neg (not_or.mpr hLast), List.append_assoc, walk_append,
      walk_plain _ eq_nil_of_emptySegment h]
    simp

/-- The method keeps every segment exactly when they are plain but for a last empty one. -/
theorem keptSegments_eq_self_iff (r : Text) :
    keptSegments emptySegment (segments r) = segments r ↔ Tidy ('/' :: r) := by
  constructor
  · exact fun h => ⟨rfl, plain_of_keptSegments_eq h⟩
  · intro h
    have := keptSegments_append [] h.2 (segments_ne_nil r)
    simpa [walk] using this

/-! ## A fragment in the path -/

theorem segments_append {p y first last : Text} {init rest : List Text}
    (hp : segments p = init ++ [last]) (hy : segments y = first :: rest) :
    segments (p ++ y) = init ++ (last ++ first) :: rest := by
  have hP : '/' :: p = slashed init ++ '/' :: last := by
    rw [← slashed_segments, hp]
    simp [slashed]
  have hY : y = first ++ slashed rest := by
    have := slashed_segments y
    rw [hy] at this
    exact (List.cons.inj this).2.symm
  have hNoP : ∀ seg ∈ init ++ [last], '/' ∉ seg := fun seg hs =>
    notMem_of_mem_segments (hp ▸ hs)
  have hNoY : ∀ seg ∈ first :: rest, '/' ∉ seg := fun seg hs =>
    notMem_of_mem_segments (hy ▸ hs)
  refine segments_of_slashed ?_ (by simp) ?_
  · intro seg hs
    rcases List.mem_append.mp hs with hs | hs
    · exact hNoP seg (List.mem_append_left _ hs)
    rcases List.mem_cons.mp hs with rfl | hs
    · have hLast := hNoP last (by simp)
      have hFirst := hNoY first List.mem_cons_self
      simp [hLast, hFirst]
    · exact hNoY seg (List.mem_cons_of_mem _ hs)
  · rw [← List.cons_append, hP]
    simp [slashed, hY]

theorem segments_hash {x first : Text} {rest : List Text} (h : segments x = first :: rest) :
    segments ('#' :: x) = ('#' :: first) :: rest := by
  have hx : x.splitOn '/' = first :: rest := h
  rw [segments, List.splitOn_cons_eq_if_modifyHead, if_neg (by decide), hx]
  rfl

/-- With a fragment in the path the method comes to a path and this fragment exactly when the
fragment is plain after its first slash, and the last segment before it is not looked at. -/
theorem keptSegments_hash_iff {p g x l x0 : Text} {init xs : List Text}
    (hp : segments p = init ++ [l]) (hx : segments x = x0 :: xs) :
    slashed (keptSegments emptySegment (segments (p ++ '#' :: x))) = '/' :: (g ++ '#' :: x) ↔
      (∀ seg ∈ body xs, Plain seg) ∧
        (walk emptySegment [] init).reverse ++ [l] = segments g := by
  obtain ⟨ginit, gl, hg⟩ := exists_concat_segments g
  have hP := segments_append hp (segments_hash hx)
  have hG := segments_append hg (segments_hash hx)
  have hSlashed : slashed (keptSegments emptySegment (segments (p ++ '#' :: x))) =
      '/' :: (g ++ '#' :: x) ↔
      keptSegments emptySegment (segments (p ++ '#' :: x)) = segments (g ++ '#' :: x) := by
    rw [← slashed_segments]
    exact ⟨slashed_injective (notMem_keptSegments _ _) fun _ => notMem_of_mem_segments,
      fun h => by rw [h]⟩
  have hMarked : Plain (l ++ '#' :: x0) := by
    refine ⟨by simp, ?_⟩
    rintro (h | h) <;>
      exact absurd (h ▸ List.mem_append_right l List.mem_cons_self : '#' ∈ _) (by decide)
  rw [hSlashed, hP, hG]
  have hWalk : (∀ seg ∈ body xs, Plain seg) →
      keptSegments emptySegment (init ++ (l ++ '#' :: x0) :: xs) =
        (walk emptySegment [] init).reverse ++ (l ++ '#' :: x0) :: xs := fun h => by
    refine keptSegments_append init ?_ (List.cons_ne_nil _ _)
    cases xs with
    | nil => simpa [body] using hMarked
    | cons y ys =>
        rw [body_cons_cons]
        exact List.forall_mem_cons.mpr ⟨hMarked, h⟩
  have hEqual : ((walk emptySegment [] init).reverse ++ (l ++ '#' :: x0) :: xs =
      ginit ++ (gl ++ '#' :: x0) :: xs) ↔
      (walk emptySegment [] init).reverse ++ [l] = segments g := by
    have hSplit : ∀ (as : List Text) (a : Text), as ++ a :: xs = (as ++ [a]) ++ xs := by simp
    rw [hg, hSplit _ (l ++ '#' :: x0), hSplit _ (gl ++ '#' :: x0), List.append_left_inj]
    simp only [← List.concat_eq_append, List.concat_inj]
    rw [List.append_left_inj]
  constructor
  · intro h
    have hPlain : ∀ seg ∈ body xs, Plain seg := by
      have hBody := plain_of_keptSegments_eq h
      cases xs with
      | nil => simp [body]
      | cons y ys =>
          rw [body_append _ (List.cons_ne_nil _ _), body_cons_cons] at hBody
          intro seg hs
          exact hBody seg (List.mem_append_right _ (List.mem_cons_of_mem _ hs))
    exact ⟨hPlain, hEqual.mp ((hWalk hPlain).symm.trans h)⟩
  · rintro ⟨hPlain, h⟩
    exact (hWalk hPlain).trans (hEqual.mpr h)

variable {init : List Text}

/-- The last segment before a fragment is not looked at; that makes no difference when it is
no dot segment. -/
theorem walk_concat_eq_iff {p l : Text} (hp : segments p = init ++ [l]) :
    (walk emptySegment [] init).reverse ++ [l] = keptSegments (fun _ => false) (segments p) ↔
      ¬DotSegment l ∧ SameDepth ('/' :: p) := by
  have hNone : ∀ seg : Text, (fun _ : Text => false) seg = true → seg = [] := fun _ h => by
    cases h
  have hInit : (walk emptySegment [] init).reverse ++ [l] =
      (walk (fun _ => false) [] init).reverse ++ [l] ↔
        depth emptySegment 0 init = depth (fun _ => false) 0 init := by
    rw [List.append_left_inj, List.reverse_inj, walk_eq_walk_iff]
  rw [SameDepth, List.tail_cons, hp, keptSegments, body_concat, ending_concat]
  by_cases hEmpty : l = []
  · have hDot : ¬DotSegment l := by simp [hEmpty, DotSegment]
    rw [if_pos hEmpty, if_pos (.inl hEmpty), ← hEmpty, hInit]
    exact ⟨fun h => ⟨hDot, h⟩, fun h => h.2⟩
  by_cases hDot : DotSegment l
  · rw [if_neg hEmpty, if_pos (.inr hDot)]
    refine iff_of_false (fun h => hEmpty ?_) fun h => h.1 hDot
    simpa using congrArg List.getLast? h
  · have hPlain : Plain l := ⟨hEmpty, hDot⟩
    have hLast : walk (fun _ => false) (walk (fun _ => false) [] init) [l] =
        l :: walk (fun _ => false) [] init := by
      rw [walk_plain _ hNone (by simpa using hPlain)]
      rfl
    rw [if_neg hEmpty, if_neg (not_or.mpr hPlain), List.append_nil, walk_append, hLast,
      List.reverse_cons, hInit, depth_concat _ _ hPlain eq_nil_of_emptySegment,
      depth_concat _ _ hPlain hNone, Nat.add_right_cancel_iff]
    exact ⟨fun h => ⟨hDot, h⟩, fun h => h.2⟩

/-! ## The path, the query and the fragment -/

/-- A path with a query and a fragment after it. -/
def spellTail (path : Text) (query fragment : Option Text) : Text :=
  glue '#' (glue '?' path query) fragment

theorem spellTail_append (path : Text) (query fragment : Option Text) :
    spellTail path query fragment = path ++ spellTail [] query fragment := by
  have hPath := glue_append '?' path [] query
  rw [List.append_nil] at hPath
  rw [spellTail, spellTail, hPath, glue_append]

variable {p : Text}

theorem removeDotSegments_spellTail (hp : '?' ∉ p) {query fragment : Option Text}
    (h : query ≠ none ∨ fragment = none) :
    removeDotSegments (spellTail ('/' :: p) query fragment) =
      spellTail (slashed (keptSegments emptySegment (segments p))) query fragment := by
  rw [spellTail_append, spellTail_append (slashed _)]
  refine removeDotSegments_slash hp ?_
  cases query with
  | none =>
      cases fragment with
      | none => exact .inl rfl
      | some f => simp at h
  | some q => cases fragment <;> exact .inr rfl

theorem removeDotSegments_fragment (hp : '?' ∉ p) (fragment : Text) :
    removeDotSegments (spellTail ('/' :: p) none (some fragment)) =
      slashed (keptSegments emptySegment (segments (p ++ '#' :: (cut '?' fragment).1))) ++
        spellTail [] (cut '?' fragment).2 none := by
  have hFragment : spellTail (cut '?' fragment).1 (cut '?' fragment).2 none = fragment :=
    glue_cut '?' fragment
  have hText : spellTail ('/' :: p) none (some fragment) =
      '/' :: (p ++ '#' :: (cut '?' fragment).1) ++ spellTail [] (cut '?' fragment).2 none := by
    conv_lhs => rw [← hFragment, spellTail_append (cut '?' fragment).1]
    simp [spellTail, glue]
  rw [hText]
  refine removeDotSegments_slash ?_ ?_
  · have := notMem_cut '?' fragment
    simp [hp, this]
  · cases (cut '?' fragment).2 with
    | none => exact .inl rfl
    | some q => exact .inr rfl

theorem spellTail_left_inj (a b : Text) (query fragment : Option Text) :
    spellTail a query fragment = spellTail b query fragment ↔ a = b := by
  rw [spellTail_append a, spellTail_append b, List.append_left_inj]

/-- With a fragment in the path, and another path in front of the same fragment. -/
theorem removeDotSegments_fragment_iff {p g l : Text} (hp : '?' ∉ p)
    (hl : segments p = init ++ [l]) (fragment : Text) :
    removeDotSegments (spellTail ('/' :: p) none (some fragment)) =
        spellTail ('/' :: g) none (some fragment) ↔
      (∀ seg ∈ body (segments (cut '?' fragment).1).tail, Plain seg) ∧
        (walk emptySegment [] init).reverse ++ [l] = segments g := by
  have hFragment : spellTail (cut '?' fragment).1 (cut '?' fragment).2 none = fragment :=
    glue_cut '?' fragment
  have hText : spellTail ('/' :: g) none (some fragment) =
      '/' :: (g ++ '#' :: (cut '?' fragment).1) ++ spellTail [] (cut '?' fragment).2 none := by
    conv_lhs => rw [← hFragment, spellTail_append (cut '?' fragment).1]
    simp [spellTail, glue]
  obtain ⟨x0, xs, hx⟩ := List.exists_cons_of_ne_nil (segments_ne_nil (cut '?' fragment).1)
  rw [removeDotSegments_fragment hp, hText, List.append_left_inj, keptSegments_hash_iff hl hx,
    hx, List.tail_cons]

/-- The method's path comes out as the RFC's does, with the query and the fragment after it,
exactly when the empty segments change no depth and the fragment comes through. -/
theorem removeDotSegments_eq_iff (hp : '?' ∉ p) (query fragment : Option Text) :
    removeDotSegments (spellTail ('/' :: p) query fragment) =
        spellTail (Uri.removeDotSegments ('/' :: p)) query fragment ↔
      SameDepth ('/' :: p) ∧
        (query = none → ∀ f ∈ fragment, FragmentKept ('/' :: p) f) := by
  have hRfc : Uri.removeDotSegments ('/' :: p) =
      slashed (keptSegments (fun _ => false) (segments p)) := Uri.removeDotSegments_slash p
  by_cases h : query ≠ none ∨ fragment = none
  · have hVacuous : query = none → ∀ f ∈ fragment, FragmentKept ('/' :: p) f := by
      rintro rfl f hf
      rcases h with h | rfl
      · exact absurd rfl h
      · cases hf
    have hInj : slashed (keptSegments emptySegment (segments p)) =
        slashed (keptSegments (fun _ => false) (segments p)) ↔ SameDepth ('/' :: p) := by
      rw [← keptSegments_eq_iff]
      exact ⟨slashed_injective (notMem_keptSegments _ p) (notMem_keptSegments _ p),
        fun h => by rw [h]⟩
    rw [removeDotSegments_spellTail hp h, hRfc, spellTail_left_inj, hInj]
    exact ⟨fun h => ⟨h, hVacuous⟩, fun h => h.1⟩
  · simp only [not_or, not_not] at h
    obtain ⟨rfl, hf⟩ := h
    obtain ⟨f, rfl⟩ := Option.ne_none_iff_exists'.mp hf
    obtain ⟨init, l, hl⟩ := exists_concat_segments p
    have hSome : keptSegments (fun _ => false) (segments p) ≠ [] :=
      keptSegments_ne_nil _ (fun _ h => by cases h) (segments_ne_nil p)
    obtain ⟨g, hg⟩ : ∃ g, Uri.removeDotSegments ('/' :: p) = '/' :: g := by
      obtain ⟨seg, segs, hs⟩ := List.exists_cons_of_ne_nil hSome
      exact ⟨seg ++ slashed segs, by rw [hRfc, hs, slashed]⟩
    have hKept : segments g = keptSegments (fun _ => false) (segments p) :=
      segments_of_slashed (notMem_keptSegments _ p) hSome (hRfc.symm.trans hg)
    rw [hg, removeDotSegments_fragment_iff hp hl, hKept, walk_concat_eq_iff hl]
    have hLast : (segments p).getLast? = some l := by simp [hl]
    simp only [FragmentKept, List.tail_cons, hLast, Option.mem_def, Option.some.injEq,
      forall_eq', forall_const]
    tauto

/-- Before a query the method leaves a path alone exactly when it is tidy. -/
theorem removeDotSegments_query_iff (hp : '?' ∉ p) (q : Text) (fragment : Option Text) :
    removeDotSegments (spellTail ('/' :: p) (some q) fragment) =
        spellTail ('/' :: p) (some q) fragment ↔ Tidy ('/' :: p) := by
  rw [removeDotSegments_spellTail hp (.inl (Option.some_ne_none q)), spellTail_left_inj,
    ← keptSegments_eq_self_iff]
  constructor
  · intro h
    rw [← slashed_segments] at h
    exact slashed_injective (notMem_keptSegments _ p) (fun _ => notMem_of_mem_segments) h
  · intro h
    rw [h, slashed_segments]

/-! ## The directory of the base -/

theorem directory_append (x : Text) {y : Text} (h : '/' ∉ y) :
    directory (x ++ y) = directory x := by
  have hSlash : ∀ c ∈ y.reverse, decide (c ≠ '/') = true := fun c hc =>
    decide_eq_true fun e => h (e ▸ List.mem_reverse.mp hc)
  simp only [directory, List.reverse_append, List.dropWhile_append_of_pos hSlash]

/-- The directory of a path and its last segment. -/
theorem directory_spells {b y : Text} (h : segments b = init ++ [y]) :
    ∃ p, directory ('/' :: b) = '/' :: p ∧ segments p = init ++ [[]] ∧ b = p ++ y ∧
      '/' ∉ y := by
  have hNo : ∀ seg ∈ init ++ [y], '/' ∉ seg := fun seg hs => notMem_of_mem_segments (h ▸ hs)
  have hSplit : '/' :: b = slashed (init ++ [[]]) ++ y := by
    rw [← slashed_segments, h]
    simp [slashed]
  obtain ⟨p, hp⟩ : ∃ p, slashed (init ++ [[]]) = '/' :: p := by
    cases init with
    | nil => exact ⟨_, rfl⟩
    | cons seg init => exact ⟨_, rfl⟩
  have hy : '/' ∉ y := hNo y (by simp)
  refine ⟨p, ?_, segments_of_slashed ?_ (by simp) hp, ?_, hy⟩
  · rw [hSplit, directory_append _ hy, ← hp]
    simp [slashed, directory]
  · intro seg hs
    rcases List.mem_append.mp hs with hs | hs
    · exact hNo seg (List.mem_append_left _ hs)
    · simp_all
  · rw [hp, List.cons_append, List.cons.injEq] at hSplit
    exact hSplit.2

theorem tidy_directory_iff {b y : Text} (h : segments b = init ++ [y]) :
    (walk emptySegment [] init).reverse ++ [[]] = segments b ↔
      ('/' :: b).getLast? = some '/' ∧ Tidy ('/' :: b) := by
  obtain ⟨p, -, hp, rfl, hy⟩ := directory_spells h
  have hWalk : keptSegments emptySegment (init ++ [[]]) =
      (walk emptySegment [] init).reverse ++ [[]] :=
    keptSegments_append init (by simp [body]) (by simp)
  have hLast : ('/' :: (p ++ y)).getLast? = some '/' ↔ y = [] := by
    constructor
    · intro hSlash
      by_contra hne
      rw [← List.cons_append, List.getLast?_append_of_ne_nil _ hne] at hSlash
      exact hy (List.mem_of_getLast? hSlash)
    · rintro rfl
      have hPath := slashed_segments p
      rw [hp] at hPath
      rw [List.append_nil, ← hPath]
      simp [slashed]
  rw [hLast]
  constructor
  · intro hSame
    obtain rfl : y = [] := by
      rw [h] at hSame
      simpa using congrArg List.getLast? hSame.symm
    rw [h, ← hWalk, ← h] at hSame
    exact ⟨rfl, (keptSegments_eq_self_iff _).mp hSame⟩
  · rintro ⟨rfl, hTidy⟩
    rw [← hWalk, ← h]
    exact (keptSegments_eq_self_iff _).mpr hTidy

/-- An empty location, or one that is only a fragment, is resolved to the directory of the
base; that is the base without its fragment exactly when its path is a tidy directory and it
has no query. -/
theorem removeDotSegments_directory_iff {b : Text} (hb : '?' ∉ b)
    (query fragment : Option Text) :
    removeDotSegments (spellTail (directory ('/' :: b)) none fragment) =
        spellTail ('/' :: b) query fragment ↔
      query = none ∧ ('/' :: b).getLast? = some '/' ∧ Tidy ('/' :: b) ∧
        ∀ f ∈ fragment, FragmentKept ('/' :: b) f := by
  obtain ⟨init, y, hInit⟩ := exists_concat_segments b
  obtain ⟨p, hDir, hp, hby, hy⟩ := directory_spells hInit
  have hPath : '?' ∉ p := fun h => hb (hby ▸ List.mem_append_left y h)
  have hWalk : keptSegments emptySegment (segments p) =
      (walk emptySegment [] init).reverse ++ [[]] := by
    rw [hp]
    exact keptSegments_append init (by simp [body]) (by simp)
  rw [hDir]
  cases query with
  | some q =>
      -- the query of the base is lost: it would have to be in the fragment, after itself
      refine iff_of_false (fun h => ?_) (by simp)
      have hBase : '?' ∉ '/' :: b := by simpa using hb
      cases fragment with
      | none =>
          rw [removeDotSegments_spellTail hPath (.inr rfl)] at h
          refine notMem_slashed_keptSegments emptySegment (by decide) hPath ?_
          change slashed (keptSegments emptySegment (segments p)) = '/' :: b ++ '?' :: q at h
          rw [h]
          simp
      | some f =>
          have hNo : '?' ∉ slashed (keptSegments emptySegment
              (segments (p ++ '#' :: (cut '?' f).1))) := by
            refine notMem_slashed_keptSegments emptySegment (by decide) ?_
            have := notMem_cut '?' f
            simp [hPath, this]
          rw [removeDotSegments_fragment hPath, ← spellTail_append] at h
          have hCut := congrArg (cut '?') h
          have hRight : spellTail ('/' :: b) (some q) (some f) =
              '/' :: b ++ '?' :: (q ++ '#' :: f) := by
            simp [spellTail, glue]
          rw [show spellTail (slashed _) (cut '?' f).2 none = glue '?' _ _ from rfl,
            cut_glue hNo, hRight, cut_append_cons hBase] at hCut
          have hLater := glue_cut '?' f
          rw [(Prod.ext_iff.mp hCut).2] at hLater
          have hLength := congrArg List.length hLater
          simp only [glue, List.length_append, List.length_cons] at hLength
          omega
  | none =>
      cases fragment with
      | none =>
          have hSlashed : slashed (keptSegments emptySegment (segments p)) = '/' :: b ↔
              keptSegments emptySegment (segments p) = segments b := by
            rw [← slashed_segments b]
            exact ⟨slashed_injective (notMem_keptSegments _ p)
              fun _ => notMem_of_mem_segments, fun h => by rw [h]⟩
          rw [removeDotSegments_spellTail hPath (.inr rfl), spellTail_left_inj, hSlashed, hWalk,
            tidy_directory_iff hInit]
          simp
      | some f =>
          rw [removeDotSegments_fragment_iff hPath hp, tidy_directory_iff hInit]
          constructor
          · rintro ⟨hPlain, hLast, hTidy⟩
            refine ⟨rfl, hLast, hTidy, ?_⟩
            rintro _ ⟨⟩
            refine ⟨?_, hPlain⟩
            have hEmpty := (tidy_directory_iff hInit).mpr ⟨hLast, hTidy⟩
            rw [List.tail_cons, ← hEmpty]
            simp [DotSegment]
          · rintro ⟨-, hLast, hTidy, hKept⟩
            exact ⟨(hKept f rfl).2, hLast, hTidy⟩

/-! ## The path of a relative reference -/

theorem mergedPath_eq (pathAndQuery aLocation : Text) :
    mergedPath pathAndQuery aLocation =
      if beginsWith aLocation ['/'] then aLocation
      else if beginsWith aLocation ['?'] then (cut '?' pathAndQuery).1 ++ aLocation
      else directory (cut '?' pathAndQuery).1 ++ aLocation := by
  have hBase : (if indexOf '?' pathAndQuery > 0 then
      copyFromTo pathAndQuery 1 (indexOf '?' pathAndQuery - 1) else pathAndQuery) =
        (cut '?' pathAndQuery).1 := by
    rcases indexOf_cases '?' pathAndQuery with ⟨hn, hi⟩ | ⟨left, right, hs, hn, hi⟩
    · simp [hi, cut_of_notMem hn]
    · rw [hi, Nat.add_sub_cancel, copyFromTo_prefix hs, hs, cut_append_cons hn]
      simp
  simp only [mergedPath, hBase, copyFromTo_lastSlashIn]

/-- The path of the base as the merge takes it. -/
def rootedPath (base : Reference) : Text := if base.path = [] then ['/'] else base.path

theorem recomposeTail_eq (r : Reference) :
    recomposeTail r = spellTail r.path r.query r.fragment := rfl

/-- The path and query of the base, up to a question mark: its path, and a part of the
fragment when it has no query. -/
theorem cut_pathAndQuery {base : Reference} (hPath : '?' ∉ base.path)
    (h : base.path ≠ [] ∨ (base.query = none ∧ base.fragment = none)) :
    ∃ hash, (cut '?' (if recomposeTail base = [] then ['/'] else recomposeTail base)).1 =
        rootedPath base ++ hash ∧
      (base.query ≠ none ∨ base.fragment = none → hash = []) ∧
      (FragmentClear base → '/' ∉ hash) := by
  have hEmpty : recomposeTail base = [] ↔ base.path = [] := by
    rw [recomposeTail_eq]
    constructor
    · intro ht
      rw [spellTail_append] at ht
      exact (List.append_eq_nil_iff.mp ht).1
    · intro hp
      obtain ⟨hq, hf⟩ := h.resolve_left (absurd hp)
      simp [hp, hq, hf, spellTail, glue]
  by_cases hp : base.path = []
  · rw [if_pos (hEmpty.mpr hp)]
    exact ⟨[], by simp [rootedPath, hp, cut], fun _ => rfl, by simp⟩
  rw [if_neg (fun ht => hp (hEmpty.mp ht)), recomposeTail_eq, rootedPath, if_neg hp]
  cases hq : base.query with
  | some q =>
      have hText : spellTail base.path (some q) base.fragment =
          base.path ++ '?' :: spellTail q none base.fragment := by
        cases base.fragment <;> simp [spellTail, glue]
      rw [hText, cut_append_cons hPath]
      exact ⟨[], by simp, fun _ => rfl, by simp⟩
  | none =>
      cases hf : base.fragment with
      | none =>
          rw [show spellTail base.path none none = base.path from rfl, cut_of_notMem hPath]
          exact ⟨[], by simp, fun _ => rfl, by simp⟩
      | some f =>
          have hMark : '?' ∉ base.path ++ '#' :: (cut '?' f).1 := by
            have := notMem_cut '?' f
            simp [hPath, this]
          have hText : spellTail base.path none (some f) =
              glue '?' (base.path ++ '#' :: (cut '?' f).1) (cut '?' f).2 := by
            have hCut := glue_cut '?' f
            conv_lhs => rw [← hCut]
            rw [spellTail]
            cases (cut '?' f).2 <;> simp [glue]
          rw [hText, cut_glue hMark]
          refine ⟨'#' :: (cut '?' f).1, rfl, by simp, ?_⟩
          rintro (hc | hc)
          · exact absurd hq hc
          · have := hc f hf
            simp [this]

variable {base ref : Reference}

/-- The target that keeps the scheme and the authority of the base. -/
theorem resolve_relative (hs : ref.scheme = none) (ha : ref.authority = none) :
    recomposeTail (resolve base ref) =
      if ref.path = [] then
        spellTail base.path (if ref.query = none then base.query else ref.query) ref.fragment
      else spellTail (Uri.removeDotSegments (rawPath base ref)) ref.query ref.fragment := by
  by_cases hp : ref.path = []
  · by_cases hq : ref.query = none <;> simp [recomposeTail_eq, resolve, hs, ha, hp, hq]
  · by_cases hr : ref.path.head? = some '/' <;>
      simp [recomposeTail_eq, resolve, rawPath, hs, ha, hp, hr]

/-- What the kinds of relative references need of the base's fragment. -/
def Clear (base ref : Reference) : Prop :=
  if ref.path ≠ [] then ref.path.head? = some '/' ∨ FragmentClear base
  else if ref.query ≠ none then base.query ≠ none ∨ base.fragment = none
  else FragmentClear base

theorem clear_of_pathKept (h : PathKept base ref) : Clear base ref := by
  unfold PathKept at h
  unfold Clear
  split at h
  next hp => rw [if_pos hp]; exact h.1
  next hp =>
    rw [if_neg hp]
    split at h
    next hq => rw [if_pos hq]; exact h.1
    next hq => rw [if_neg hq]; exact h.1

theorem clear_of_fragment {base : Reference} (h : base.fragment = none) (ref : Reference) :
    Clear base ref := by
  have hClear : FragmentClear base := .inr (by simp [h])
  unfold Clear
  split
  · exact .inr hClear
  · split
    · exact .inr h
    · exact hClear

/-- What the method makes of a path begins with a slash. -/
theorem head_removeDotSegments (hp : '?' ∉ p) (query fragment : Option Text) :
    (removeDotSegments (spellTail ('/' :: p) query fragment)).head? = some '/' := by
  have hKept : ∀ (r : Text) (tail : Text),
      (slashed (keptSegments emptySegment (segments r)) ++ tail).head? = some '/' := by
    intro r tail
    obtain ⟨seg, segs, hs⟩ := List.exists_cons_of_ne_nil
      (keptSegments_ne_nil emptySegment eq_nil_of_emptySegment (segments_ne_nil r))
    rw [hs]
    rfl
  by_cases h : query ≠ none ∨ fragment = none
  · rw [removeDotSegments_spellTail hp h, spellTail_append]
    exact hKept p _
  · simp only [not_or, not_not] at h
    obtain ⟨f, rfl⟩ := Option.ne_none_iff_exists'.mp h.2
    rw [h.1, removeDotSegments_fragment hp]
    exact hKept _ _

theorem beginsWith_cons (c x : Char) (xs : Text) : beginsWith (x :: xs) [c] = (c == x) := by
  simp [beginsWith, List.isPrefixOf]

/-- Where the base's fragment is out of the way, the method comes to the path, the query and
the fragment of the RFC's target exactly when the path is kept. -/
theorem removeDotSegments_mergedPath_iff (hs : ref.scheme = none)
    (ha : ref.authority = none) (hBase : base.authority ≠ none)
    (hRooted : base.path = [] ∨ base.path.head? = some '/')
    (hBaseClean : ∀ c ∈ base.path, c ≠ '?' ∧ c ≠ '#')
    (hRefClean : ∀ c ∈ ref.path, c ≠ '?' ∧ c ≠ '#')
    (h : base.path ≠ [] ∨ (base.query = none ∧ base.fragment = none))
    (hClear : Clear base ref) :
    removeDotSegments (mergedPath
        (if recomposeTail base = [] then ['/'] else recomposeTail base)
        (spellTail ref.path ref.query ref.fragment)) =
      recomposeTail (resolve base ref) ↔ PathKept base ref := by
  have hNoMark : '?' ∉ base.path := fun hc => (hBaseClean _ hc).1 rfl
  obtain ⟨b, hb, hbMark⟩ : ∃ b, rootedPath base = '/' :: b ∧ '?' ∉ b := by
    unfold rootedPath
    split
    · exact ⟨[], rfl, by simp⟩
    next hp =>
      obtain ⟨c, cs, hcs⟩ := List.exists_cons_of_ne_nil hp
      obtain rfl : c = '/' := by simpa [hcs] using hRooted
      exact ⟨cs, hcs, fun hm => hNoMark (hcs ▸ List.mem_cons_of_mem _ hm)⟩
  obtain ⟨hash, hCut, hNoHash, hNoSlash⟩ := cut_pathAndQuery hNoMark h
  have hDirectory : FragmentClear base →
      directory (rootedPath base ++ hash) = directory ('/' :: b) := fun hc => by
    rw [directory_append _ (hNoSlash hc), hb]
  rw [mergedPath_eq, hCut, resolve_relative hs ha]
  unfold Clear at hClear
  by_cases hPath : ref.path = []
  · rw [if_neg (not_not.mpr hPath)] at hClear
    rw [if_pos hPath, PathKept, if_neg (not_not.mpr hPath), hPath]
    cases hq : ref.query with
    | some q =>
        rw [hq, if_pos (Option.some_ne_none q)] at hClear
        have hText : spellTail [] (some q) ref.fragment =
            '?' :: spellTail q none ref.fragment := by
          cases ref.fragment <;> simp [spellTail, glue]
        rw [hText, beginsWith_cons, beginsWith_cons, if_neg (by decide), if_pos (by decide),
          ← hText, hNoHash hClear, List.append_nil, ← spellTail_append, hb,
          if_neg (Option.some_ne_none q), if_pos (Option.some_ne_none q)]
        by_cases hEmpty : base.path = []
        · refine iff_of_false (fun he => ?_) fun ht => by simp [hEmpty, Tidy] at ht
          have hHead := head_removeDotSegments hbMark (some q) ref.fragment
          rw [he, hEmpty, hText] at hHead
          simp at hHead
        · rw [rootedPath, if_neg hEmpty] at hb
          rw [hb, removeDotSegments_query_iff hbMark]
          exact ⟨fun ht => ⟨hClear, ht⟩, fun ht => ht.2⟩
    | none =>
        rw [hq, if_neg (by simp)] at hClear
        have hBegins : beginsWith (spellTail [] none ref.fragment) ['/'] = false ∧
            beginsWith (spellTail [] none ref.fragment) ['?'] = false := by
          cases ref.fragment with
          | none => decide
          | some f => exact ⟨beginsWith_cons _ _ _, beginsWith_cons _ _ _⟩
        rw [hBegins.1, hBegins.2, if_neg (by decide), if_neg (by decide), hDirectory hClear,
          ← spellTail_append, if_pos rfl, if_neg (by simp)]
        by_cases hEmpty : base.path = []
        · refine iff_of_false (fun he => ?_) fun ht => by simp [hEmpty] at ht
          obtain ⟨init, y, hInit⟩ := exists_concat_segments b
          obtain ⟨p, hDir, -, hby, -⟩ := directory_spells hInit
          have hHead := head_removeDotSegments (p := p)
            (fun hm => hbMark (hby ▸ List.mem_append_left _ hm)) none ref.fragment
          rw [← hDir, he, hEmpty, (h.resolve_left (absurd hEmpty)).1] at hHead
          cases hf : ref.fragment <;> rw [hf] at hHead <;> simp [spellTail, glue] at hHead
        · rw [rootedPath, if_neg hEmpty] at hb
          rw [hb, removeDotSegments_directory_iff hbMark]
          exact ⟨fun ht => ⟨hClear, ht⟩, fun ht => ht.2⟩
  · rw [if_pos hPath] at hClear
    rw [if_neg hPath, PathKept, if_pos hPath]
    obtain ⟨c, cs, hcs⟩ := List.exists_cons_of_ne_nil hPath
    have hMerged : ∃ p, rawPath base ref = '/' :: p ∧ '?' ∉ p ∧
        (if beginsWith (spellTail ref.path ref.query ref.fragment) ['/'] = true then
          spellTail ref.path ref.query ref.fragment
        else if beginsWith (spellTail ref.path ref.query ref.fragment) ['?'] = true then
          rootedPath base ++ hash ++ spellTail ref.path ref.query ref.fragment
        else directory (rootedPath base ++ hash) ++
          spellTail ref.path ref.query ref.fragment) =
          spellTail (rawPath base ref) ref.query ref.fragment := by
      have hRefMark : '?' ∉ ref.path := fun hc => (hRefClean _ hc).1 rfl
      have hText : spellTail ref.path ref.query ref.fragment =
          c :: (cs ++ spellTail [] ref.query ref.fragment) := by
        rw [spellTail_append, hcs]
        rfl
      by_cases hc : c = '/'
      · subst hc
        refine ⟨cs, by simp [rawPath, hcs], fun hm => hRefMark (hcs ▸ by simp [hm]), ?_⟩
        rw [hText, beginsWith_cons, if_pos (by decide), ← hText]
        simp [rawPath, hcs]
      · have hMark : c ≠ '?' := fun e => hRefMark (hcs ▸ by simp [e])
        have hNotRooted : ref.path.head? ≠ some '/' := by simpa [hcs] using hc
        have hFragment := hClear.resolve_left hNotRooted
        obtain ⟨init, y, hInit⟩ := exists_concat_segments b
        obtain ⟨p, hDir, -, hby, -⟩ := directory_spells hInit
        have hRaw : rawPath base ref = directory ('/' :: b) ++ ref.path := by
          rw [rawPath, if_neg hNotRooted, merge, ← hb, rootedPath]
          by_cases hEmpty : base.path = []
          · simp [hEmpty, hBase, directory]
          · simp [hEmpty]
        refine ⟨p ++ ref.path, by rw [hRaw, hDir]; rfl, ?_, ?_⟩
        · rw [List.mem_append, not_or]
          exact ⟨fun hm => hbMark (hby ▸ List.mem_append_left _ hm), hRefMark⟩
        · rw [hText, beginsWith_cons, beginsWith_cons, if_neg (by simpa using Ne.symm hc),
            if_neg (by simpa using Ne.symm hMark), ← hText, hDirectory hFragment, hRaw,
            spellTail_append (_ ++ _), spellTail_append ref.path, List.append_assoc]
    obtain ⟨p, hRaw, hMark, hEq⟩ := hMerged
    rw [hEq, hRaw, removeDotSegments_eq_iff hMark]
    exact ⟨fun ht => ⟨hClear, ht⟩, fun ht => ht.2⟩

/-! ## The target and its parts -/

variable {base : Parts}

/-- The method refuses its target, or answers it. -/
theorem redirectUrl_cases (d : Doubles) {aLocation aUrl scheme : Text}
    (hb : parseUrl aUrl = .ok base) (hs : (parse aUrl).scheme = some scheme)
    (hScheme : base.scheme = asLowercase scheme) :
    (Refused aUrl (redirectTarget d base aLocation) ∧
      ∃ e, redirectUrl d aLocation aUrl = .error e) ∨
    (¬Refused aUrl (redirectTarget d base aLocation) ∧
      redirectUrl d aLocation aUrl = .ok (redirectTarget d base aLocation)) := by
  have hLower : (parse aUrl).scheme.map asLowercase = some https ↔ base.scheme = https := by
    rw [hs, hScheme]
    simp
  rw [Refused, hLower]
  have hRun : redirectUrl d aLocation aUrl =
      if base.scheme = https then
        match parseUrl (redirectTarget d base aLocation) with
        | .error e => .error e
        | .ok parts =>
          if parts.scheme = http then .error (refusal (redirectTarget d base aLocation))
          else .ok (redirectTarget d base aLocation)
      else .ok (redirectTarget d base aLocation) := by
    simp only [redirectUrl, hb, bind, Except.bind, throw, throwThe, MonadExceptOf.throw, pure,
      Except.pure]
    cases parseUrl (redirectTarget d base aLocation) <;> rfl
  rw [hRun]
  by_cases hHttps : base.scheme = https
  · rw [if_pos hHttps]
    cases ht : parseUrl (redirectTarget d base aLocation) with
    | error e => exact .inl ⟨⟨hHttps, fun parts h => by cases h⟩, e, rfl⟩
    | ok parts =>
        by_cases hHttp : parts.scheme = http
        · refine .inl ⟨⟨hHttps, ?_⟩, _, if_pos hHttp⟩
          rintro _ ⟨⟩
          exact hHttp
        · exact .inr ⟨fun h => hHttp (h.2 parts rfl), if_neg hHttp⟩
  · rw [if_neg hHttps]
    exact .inr ⟨fun h => hHttps h.1, rfl⟩

/-- The scheme of a URL is the one that the RFC finds, in lower case. -/
theorem scheme_of_parseUrl {aUrl scheme : Text} {parts : Parts}
    (h : parseUrl aUrl = .ok parts) (hs : (parse aUrl).scheme = some scheme) :
    parts.scheme = asLowercase scheme := by
  obtain ⟨s, hostPort, tail, hSpelling⟩ := spelling_of_parseUrl h
  have hClean := ((parse_clean aUrl).1 scheme hs).2
  have hCut : cut ':' aUrl = (scheme, some (spellAuthority (parse aUrl).authority ++
      recomposeTail (parse aUrl))) := by
    conv_lhs => rw [← recompose_parse aUrl, recompose, hs, spellScheme]
    rw [List.append_assoc]
    exact cut_append_cons (fun hc => (hClean _ hc).1 rfl) _
  have hCut' : cut ':' aUrl = (s, some ('/' :: '/' :: (hostPort ++ tail))) := by
    rw [hSpelling.url_eq, cut_append_cons hSpelling.scheme_clean]
  obtain rfl : s = scheme := (Prod.ext_iff.mp (hCut'.symm.trans hCut)).1
  rw [parseUrl_of_spelling hSpelling] at h
  split at h
  · cases h
  · cases h
    rfl

/-- Whether the method follows the RFC, from the target it computes. -/
theorem follows_iff (d : Doubles) {aLocation aUrl scheme : Text}
    (hb : parseUrl aUrl = .ok base) (hs : (parse aUrl).scheme = some scheme) :
    Follows d aLocation aUrl ↔
      BothRefused aLocation aUrl (redirectTarget d base aLocation) ∨
      (¬Refused aUrl (redirectTarget d base aLocation) ∧
        SameUrl (parse (redirectTarget d base aLocation)) (rfcTarget aLocation aUrl) ∧
        ¬Downgrade aUrl (rfcTarget aLocation aUrl)) := by
  unfold Follows BothRefused
  rcases redirectUrl_cases d hb hs (scheme_of_parseUrl hb hs) with ⟨hr, e, hRun⟩ | ⟨hr, hRun⟩
  · rw [hRun]
    exact ⟨fun h => .inl ⟨hr, h⟩, fun h => h.elim (fun h => h.2) fun h => absurd hr h.1⟩
  · rw [hRun]
    exact ⟨fun h => .inr ⟨hr, h⟩, fun h => h.elim (fun h => absurd h.1 hr) fun h => h.2⟩

/-- A target that is spelled as the RFC's is refused exactly when that one is to be. -/
theorem refused_of_spelled {aLocation aUrl target scheme : Text}
    (ht : recompose (rfcTarget aLocation aUrl) = target)
    (hParse : parse target = rfcTarget aLocation aUrl)
    (hs : (rfcTarget aLocation aUrl).scheme = some scheme) :
    (Refused aUrl target → Rejected (rfcTarget aLocation aUrl) ∨
      Downgrade aUrl (rfcTarget aLocation aUrl)) ∧
    (¬Refused aUrl target → ¬Downgrade aUrl (rfcTarget aLocation aUrl)) := by
  have hScheme : ∀ parts, parseUrl target = .ok parts → parts.scheme = asLowercase scheme :=
    fun parts hp => scheme_of_parseUrl hp (by rw [hParse, hs])
  constructor
  · rintro ⟨hHttps, hr⟩
    by_cases hOk : ∃ parts, parseUrl target = .ok parts
    · obtain ⟨parts, hp⟩ := hOk
      refine .inr ⟨hHttps, ?_⟩
      rw [hs, Option.map_some, ← hScheme parts hp, hr parts hp]
    · exact .inl fun parts hp => hOk ⟨parts, ht ▸ hp⟩
  · rintro hr ⟨hHttps, hHttp⟩
    rw [hs, Option.map_some, Option.some.injEq] at hHttp
    exact hr ⟨hHttps, fun parts hp => (hScheme parts hp).trans hHttp⟩

theorem SameUrl.refl (u : Reference) : SameUrl u u where
  scheme_eq := rfl
  authority_same := by
    cases u.authority with
    | none => exact .none
    | some a => exact .some (.inl rfl)
  path_eq := rfl
  query_eq := rfl
  fragment_eq := rfl

/-- A location with its own scheme is the RFC's target exactly when it has no dot segment. -/
theorem rfcTarget_eq_iff (aLocation aUrl : Text) (h : (parse aUrl).scheme ≠ none) :
    SameUrl (parse aLocation) (rfcTarget aLocation aUrl) ↔
      (parse aLocation).scheme ≠ none ∧ NoDots (parse aLocation).path := by
  by_cases hs : (parse aLocation).scheme = none
  · refine iff_of_false (fun hSame => h ?_) fun hk => hk.1 hs
    have hScheme := hSame.scheme_eq
    rw [hs, rfcTarget, resolve, if_neg (by simpa using hs)] at hScheme
    split at hScheme <;> exact hScheme.symm
  · have hTarget : rfcTarget aLocation aUrl =
        { parse aLocation with path := Uri.removeDotSegments (parse aLocation).path } := by
      rw [rfcTarget, resolve, if_pos hs]
    rw [hTarget, ← removeDotSegments_eq_self_iff]
    constructor
    · exact fun hSame => ⟨hs, hSame.path_eq.symm⟩
    · rintro ⟨-, hp⟩
      rw [hp]
      exact .refl _

variable {aLocation aUrl : Text}

/-- A location with `://` is taken as it stands. -/
theorem follows_absolute_iff (d : Doubles)
    (hb : parseUrl aUrl = .ok base) (ha : (parse aUrl).scheme ≠ none)
    (hMark : includesSubstring aLocation [':', '/', '/'] = true) :
    Follows d aLocation aUrl ↔ Kept d aLocation aUrl := by
  obtain ⟨scheme, hs⟩ := Option.ne_none_iff_exists'.mp ha
  have hTarget : redirectTarget d base aLocation = aLocation := by
    rw [redirectTarget, if_pos hMark]
  rw [follows_iff d hb hs, hTarget, Kept, if_pos hMark, rfcTarget_eq_iff aLocation aUrl ha]
  constructor
  · rintro (h | ⟨-, h, -⟩)
    · exact .inr h
    · exact .inl h
  · rintro (h | h)
    · obtain ⟨sc, hsc⟩ := Option.ne_none_iff_exists'.mp h.1
      have hSelf : rfcTarget aLocation aUrl = parse aLocation := by
        rw [rfcTarget, resolve, if_pos h.1, (removeDotSegments_eq_self_iff _).mpr h.2]
      have hSpelled := @refused_of_spelled aLocation aUrl _ _
        (by rw [hSelf, recompose_parse]) hSelf.symm (hSelf ▸ hsc)
      by_cases hr : Refused aUrl aLocation
      · exact .inl ⟨hr, hSpelled.1 hr⟩
      · exact .inr ⟨hr, h, hSpelled.2 hr⟩
    · exact .inl h

theorem toNat_ofNat {n : Nat} (h : n < 0x100) : (Char.ofNat n).toNat = n := by
  have hValid : n.isValidChar := .inl (by omega)
  rw [Char.ofNat, dif_pos hValid]
  rfl

/-- Below the lower-case letters the case map changes nothing and leads to nothing. -/
theorem caseMap_of_lt {c : Char} (h : (caseMap c).toNat < 0x61) : caseMap c = c := by
  unfold caseMap at h ⊢
  split at h
  next hAscii =>
    rw [if_pos hAscii]
    split at h
    next hLetter =>
      have hCode : 65 ≤ c.toNat ∧ c.toNat ≤ 90 := ⟨hLetter.1, hLetter.2⟩
      rw [toNat_ofNat (by omega)] at h
      omega
    next hLetter => rw [if_neg hLetter]
  next hAscii =>
    rw [if_neg hAscii]
    split at h
    next hLatin =>
      rw [toNat_ofNat (by omega)] at h
      omega
    next hLatin => rw [if_neg hLatin]

theorem asLowercase_clean {scheme : Text}
    (h : ∀ c ∈ scheme, c ≠ ':' ∧ c ≠ '/' ∧ c ≠ '?' ∧ c ≠ '#') :
    ∀ c ∈ asLowercase scheme, c ≠ ':' ∧ c ≠ '/' ∧ c ≠ '?' ∧ c ≠ '#' := by
  intro c hc
  obtain ⟨x, hx, rfl⟩ := List.mem_map.mp hc
  have hSame : ∀ y : Char, y.toNat < 0x61 → caseMap x = y → x = y := fun y hy he =>
    (caseMap_of_lt (he ▸ hy)).symm.trans he
  obtain ⟨h1, h2, h3, h4⟩ := h x hx
  exact ⟨fun e => h1 (hSame _ (by decide) e), fun e => h2 (hSame _ (by decide) e),
    fun e => h3 (hSame _ (by decide) e), fun e => h4 (hSame _ (by decide) e)⟩

theorem parse_network {aLocation : Text} (h : beginsWith aLocation ['/', '/'] = true) :
    (parse aLocation).scheme = none ∧ (parse aLocation).authority ≠ none := by
  obtain ⟨r, rfl⟩ : ∃ r, aLocation = '/' :: '/' :: r := by
    obtain ⟨r, hr⟩ := List.isPrefixOf_iff_prefix.mp h
    exact ⟨r, hr.symm⟩
  have hColon : ∀ x : Text, parseScheme ('/' :: '/' :: x) = (none, '/' :: '/' :: x) := by
    intro x
    simp only [parseScheme, cut]
    cases (cut ':' x).2 <;> simp
  simp [parse, cut, hColon, parseAuthority]

/-- A location with `//` in front gets the base's scheme. -/
theorem follows_network_iff (d : Doubles)
    (hb : parseUrl aUrl = .ok base) (ha : (parse aUrl).scheme ≠ none)
    (hMark : ¬includesSubstring aLocation [':', '/', '/'] = true)
    (hSlashes : beginsWith aLocation ['/', '/'] = true) :
    Follows d aLocation aUrl ↔ Kept d aLocation aUrl := by
  obtain ⟨scheme, hs⟩ := Option.ne_none_iff_exists'.mp ha
  obtain ⟨hNoScheme, hAuthority⟩ := parse_network hSlashes
  obtain ⟨authority, hAuth⟩ := Option.ne_none_iff_exists'.mp hAuthority
  have hTarget : redirectTarget d base aLocation = asLowercase scheme ++ ':' :: aLocation := by
    rw [redirectTarget, if_neg hMark, if_pos hSlashes, scheme_of_parseUrl hb hs]
  obtain ⟨-, hAuthClean, hRooted, hPath, hQuery⟩ := parse_clean aLocation
  have hAbsolute : ({ parse aLocation with scheme := some (asLowercase scheme) } :
      Reference).Absolute (asLowercase scheme) authority :=
    { scheme_eq := rfl
      scheme_ne := by simpa [asLowercase] using ((parse_clean aUrl).1 scheme hs).1
      scheme_clean := asLowercase_clean ((parse_clean aUrl).1 scheme hs).2
      authority_eq := hAuth
      authority_clean := hAuthClean authority hAuth
      path_rooted := hRooted hAuthority
      path_clean := hPath
      query_clean := hQuery }
  have hSpell : recompose { parse aLocation with scheme := some (asLowercase scheme) } =
      asLowercase scheme ++ ':' :: aLocation := by
    conv_rhs => rw [← recompose_parse aLocation]
    simp [recompose, hNoScheme, spellScheme, recomposeTail]
  have hParse := parse_recompose hAbsolute
  rw [hSpell] at hParse
  have hRfc : rfcTarget aLocation aUrl = { parse aLocation with
      scheme := some scheme
      path := Uri.removeDotSegments (parse aLocation).path } := by
    rw [rfcTarget, resolve, if_neg (not_not.mpr hNoScheme), if_pos hAuthority, hs]
  have hSame : SameUrl (parse (asLowercase scheme ++ ':' :: aLocation))
      (rfcTarget aLocation aUrl) ↔
      asLowercase scheme = scheme ∧ NoDots (parse aLocation).path := by
    rw [hParse, hRfc, ← removeDotSegments_eq_self_iff]
    constructor
    · exact fun h => ⟨Option.some.inj h.scheme_eq, h.path_eq.symm⟩
    · rintro ⟨hl, hp⟩
      rw [hl, hp]
      exact .refl _
  rw [follows_iff d hb hs, hTarget, Kept, if_neg hMark, if_pos hSlashes, hSame]
  simp only [hs, Option.map_some, Option.some.injEq, Option.mem_def, exists_eq_left']
  constructor
  · rintro (h | ⟨-, h, -⟩)
    · exact .inr h
    · exact .inl h
  · rintro (h | h)
    · have hSelf : rfcTarget aLocation aUrl =
          { parse aLocation with scheme := some (asLowercase scheme) } := by
        rw [hRfc, (removeDotSegments_eq_self_iff _).mpr h.2, h.1]
      have hSpelled := @refused_of_spelled aLocation aUrl _ _
        (by rw [hSelf, hSpell]) (hParse.trans hSelf.symm) (by rw [hSelf])
      by_cases hr : Refused aUrl (asLowercase scheme ++ ':' :: aLocation)
      · exact .inl ⟨hr, hSpelled.1 hr⟩
      · exact .inr ⟨hr, h, hSpelled.2 hr⟩
    · exact .inl h

/-! ## The authority of a relative reference -/

theorem asNumber_nil : asNumber [] = none := rfl

/-- Where the port is kept, `authorityOf:` prints the authority or only its host. -/
theorem authorityOf_kept {d : Doubles} {scheme authority path : Text} {port : Number}
    (hKept : PortKept d scheme authority)
    (hp : portOf scheme (cut ':' authority).2 = some port) :
    SameAuthority scheme (authorityOf d ⟨scheme, (cut ':' authority).1, port, path⟩)
        authority ∧
      (authorityOf d ⟨scheme, (cut ':' authority).1, port, path⟩ = authority ∨
        authorityOf d ⟨scheme, (cut ':' authority).1, port, path⟩ = (cut ':' authority).1) := by
  have hGlue := glue_cut ':' authority
  unfold PortKept at hKept
  split at hKept
  next hNone =>
    have hHost : (cut ':' authority).1 = authority := by
      rw [hNone] at hGlue
      exact hGlue
    rw [hNone, portOf, Option.some.injEq] at hp
    have hDefault : (scheme = http ∧ port.equals d 80) ∨ (scheme = https ∧ port.equals d 443) := by
      unfold defaultPort at hKept
      split at hKept
      next hh => exact .inl ⟨hh, by rw [← hp, hh]; rfl⟩
      next hh =>
        split at hKept
        next hs => exact .inr ⟨hs, by rw [← hp, if_pos hs]; rfl⟩
        next => exact absurd rfl hKept
    rw [authorityOf, if_pos hDefault, hHost]
    exact ⟨.inl rfl, .inl rfl⟩
  next text hText =>
    obtain ⟨port', hPort', hKept⟩ := hKept
    rw [hText, portOf] at hp
    obtain rfl : port' = port := Option.some.inj (hPort'.symm.trans hp)
    rw [hText, glue] at hGlue
    rw [authorityOf]
    split at hKept
    next hDefault =>
      rw [if_pos hDefault]
      refine ⟨.inr ⟨(cut ':' authority).1, [], ':' :: text, by simp, hGlue.symm, .inl rfl,
        .inr ⟨text, rfl, ?_, hKept.1, hKept.2⟩⟩, .inr rfl⟩
      rintro rfl
      rw [asNumber_nil] at hp
      cases hp
    next hDefault =>
      rw [if_neg hDefault]
      dsimp only
      rw [hKept, hGlue]
      exact ⟨.inl rfl, .inl rfl⟩

/-- The base whose scheme and authority come through, as `parseUrl:` takes it apart. -/
theorem parseUrl_base {aUrl scheme authority : Text}
    (hb : parseUrl aUrl = .ok base) (hs : (parse aUrl).scheme = some scheme)
    (ha : (parse aUrl).authority = some authority) (hLower : asLowercase scheme = scheme)
    (h : (parse aUrl).path ≠ [] ∨ ((parse aUrl).query = none ∧ (parse aUrl).fragment = none)) :
    ∃ port, portOf scheme (cut ':' authority).2 = some port ∧
      base = ⟨scheme, (cut ':' authority).1, port,
        if recomposeTail (parse aUrl) = [] then ['/'] else recomposeTail (parse aUrl)⟩ := by
  have hAbsolute := parse_absolute hs ha
  have hSpelling : Spelling aUrl scheme authority (recomposeTail (parse aUrl)) :=
    { url_eq := by
        conv_lhs => rw [← recompose_parse aUrl, recompose, hs, ha]
        simp [spellScheme, spellAuthority]
      scheme_clean := fun hc => (hAbsolute.scheme_clean _ hc).1 rfl
      hostPort_clean := fun hc => (hAbsolute.authority_clean _ hc).1 rfl
      tail_rooted := by
        rw [recomposeTail_eq, spellTail_append]
        rcases hAbsolute.path_rooted with hp | hp
        · obtain ⟨hq, hf⟩ := h.resolve_left (absurd hp)
          exact .inl (by simp [hp, hq, hf, spellTail, glue])
        · refine .inr ?_
          rw [List.head?_append_of_ne_nil _ (by rintro he; simp [he] at hp), hp] }
  rw [parseUrl_of_spelling hSpelling, hLower] at hb
  split at hb
  · cases hb
  next port hPort => exact ⟨port, hPort, (Except.ok.inj hb).symm⟩

/-- The components of a URL that is spelled from a scheme, an authority and a text that begins
with a slash. -/
theorem parse_spelled {scheme authority tail : Text} (hne : scheme ≠ [])
    (hScheme : ∀ c ∈ scheme, c ≠ ':' ∧ c ≠ '/' ∧ c ≠ '?' ∧ c ≠ '#')
    (hAuthority : ∀ c ∈ authority, c ≠ '/' ∧ c ≠ '?' ∧ c ≠ '#')
    (hTail : tail.head? = some '/') :
    ∃ r : Reference, parse (scheme ++ ':' :: '/' :: '/' :: (authority ++ tail)) = r ∧
      r.scheme = some scheme ∧ r.authority = some authority ∧ recomposeTail r = tail ∧
      (∀ c ∈ r.path, c ≠ '?' ∧ c ≠ '#') ∧ ∀ q ∈ r.query, '#' ∉ q := by
  have hTailEq : spellTail (cut '?' (cut '#' tail).1).1 (cut '?' (cut '#' tail).1).2
      (cut '#' tail).2 = tail := by
    rw [spellTail, glue_cut, glue_cut]
  have hPath : ∀ c ∈ (cut '?' (cut '#' tail).1).1, c ≠ '?' ∧ c ≠ '#' := fun c hc =>
    ⟨fun e => notMem_cut '?' _ (e ▸ hc),
      fun e => notMem_cut '#' tail (cut_fst_subset '?' _ (e ▸ hc))⟩
  have hQuery : ∀ q ∈ (cut '?' (cut '#' tail).1).2, '#' ∉ q := fun q hq hc => by
    apply notMem_cut '#' tail
    rw [← glue_cut '?' (cut '#' tail).1, Option.mem_def.mp hq]
    simp [glue, hc]
  have hAbsolute : (⟨some scheme, some authority, (cut '?' (cut '#' tail).1).1,
      (cut '?' (cut '#' tail).1).2, (cut '#' tail).2⟩ : Reference).Absolute scheme authority :=
    { scheme_eq := rfl
      scheme_ne := hne
      scheme_clean := hScheme
      authority_eq := rfl
      authority_clean := hAuthority
      path_rooted := by
        cases tail with
        | nil => simp at hTail
        | cons c t =>
            obtain rfl : c = '/' := by simpa using hTail
            exact .inr (by simp [cut])
      path_clean := hPath
      query_clean := hQuery }
  refine ⟨⟨some scheme, some authority, (cut '?' (cut '#' tail).1).1,
    (cut '?' (cut '#' tail).1).2, (cut '#' tail).2⟩, ?_, rfl, rfl, hTailEq, hPath, hQuery⟩
  rw [← parse_recompose hAbsolute]
  congr 1
  rw [recompose, recomposeTail_eq, hTailEq]
  simp [spellScheme, spellAuthority]

/-- What spells the path, the query and the fragment determines them. -/
theorem recomposeTail_inj {u v : Reference} (hu : ∀ c ∈ u.path, c ≠ '?' ∧ c ≠ '#')
    (huq : ∀ q ∈ u.query, '#' ∉ q) (hv : ∀ c ∈ v.path, c ≠ '?' ∧ c ≠ '#')
    (hvq : ∀ q ∈ v.query, '#' ∉ q) (h : recomposeTail u = recomposeTail v) :
    u.path = v.path ∧ u.query = v.query ∧ u.fragment = v.fragment := by
  have hNoHash : ∀ r : Reference, (∀ c ∈ r.path, c ≠ '?' ∧ c ≠ '#') → (∀ q ∈ r.query, '#' ∉ q) →
      '#' ∉ glue '?' r.path r.query := by
    intro r hp hq hm
    cases hr : r.query with
    | none =>
        rw [hr] at hm
        exact (hp _ hm).2 rfl
    | some q =>
        rw [hr, glue] at hm
        rcases List.mem_append.mp hm with hm | hm
        · exact (hp _ hm).2 rfl
        · rcases List.mem_cons.mp hm with hm | hm
          · exact absurd hm (by decide)
          · exact hq q hr hm
  have hFragment := congrArg (cut '#') h
  rw [recomposeTail, recomposeTail, cut_glue (hNoHash u hu huq), cut_glue (hNoHash v hv hvq),
    Prod.mk.injEq] at hFragment
  have hQuery := congrArg (cut '?') hFragment.1
  rw [cut_glue fun hm => (hu _ hm).1 rfl, cut_glue fun hm => (hv _ hm).1 rfl,
    Prod.mk.injEq] at hQuery
  exact ⟨hQuery.1, hQuery.2, hFragment.2⟩

/-! ## The theorem -/

/-- A location without `://` names no authority after a scheme of its own. -/
theorem authority_of_scheme {aLocation scheme : Text}
    (hMark : ¬includesSubstring aLocation [':', '/', '/'] = true)
    (hs : (parse aLocation).scheme = some scheme) : (parse aLocation).authority = none := by
  by_contra ha
  obtain ⟨authority, ha⟩ := Option.ne_none_iff_exists'.mp ha
  refine hMark (decide_eq_true ?_)
  rw [← recompose_parse aLocation, recompose, hs, ha]
  exact ⟨scheme, authority ++ recomposeTail (parse aLocation),
    by simp [spellScheme, spellAuthority]⟩

theorem authority_of_relative {aLocation : Text}
    (hSlashes : ¬beginsWith aLocation ['/', '/'] = true)
    (hs : (parse aLocation).scheme = none) : (parse aLocation).authority = none := by
  by_contra ha
  obtain ⟨authority, ha⟩ := Option.ne_none_iff_exists'.mp ha
  refine hSlashes (List.isPrefixOf_iff_prefix.mpr ?_)
  rw [← recompose_parse aLocation, recompose, hs, ha]
  exact ⟨authority ++ recomposeTail (parse aLocation), by simp [spellScheme, spellAuthority]⟩

/-- The path that a relative target is made from begins with a slash. -/
theorem mergedPath_rooted {pathAndQuery : Text} (h : pathAndQuery.head? = some '/')
    (aLocation : Text) : ∃ x, mergedPath pathAndQuery aLocation = '/' :: x := by
  obtain ⟨y, rfl⟩ : ∃ y, pathAndQuery = '/' :: y := by
    cases pathAndQuery with
    | nil => simp at h
    | cons c y => exact ⟨y, by simpa using h⟩
  have hCut : (cut '?' ('/' :: y)).1 = '/' :: (cut '?' y).1 := by simp [cut]
  rw [mergedPath_eq, hCut]
  split
  next hSlash =>
    obtain ⟨x, hx⟩ := List.isPrefixOf_iff_prefix.mp hSlash
    exact ⟨x, hx.symm⟩
  next =>
    split
    · exact ⟨_, rfl⟩
    · obtain ⟨init, last, hInit⟩ := exists_concat_segments (cut '?' y).1
      obtain ⟨p, hDir, -⟩ := directory_spells hInit
      exact ⟨p ++ aLocation, by rw [hDir]; rfl⟩

theorem removeDotSegments_rooted (x : Text) :
    (removeDotSegments ('/' :: x)).head? = some '/' := by
  have hText : '/' :: x = spellTail ('/' :: (cut '?' x).1) (cut '?' x).2 none := by
    have hGlue := glue_append '?' ['/'] (cut '?' x).1 (cut '?' x).2
    rw [glue_cut] at hGlue
    exact hGlue.symm
  rw [hText]
  exact head_removeDotSegments (notMem_cut '?' x) _ _

/-- Whether a relative target follows the RFC, where the scheme and the authority of the base
come through. -/
theorem follows_relative {d : Doubles}
    (hb : parseUrl aUrl = .ok base) (hKept : BaseKept d (parse aUrl))
    (hMark : ¬includesSubstring aLocation [':', '/', '/'] = true)
    (hSlashes : ¬beginsWith aLocation ['/', '/'] = true) :
    Follows d aLocation aUrl ↔
      (parse aLocation).scheme = none ∧
        removeDotSegments (mergedPath
          (if recomposeTail (parse aUrl) = [] then ['/'] else recomposeTail (parse aUrl))
          aLocation) = recomposeTail (rfcTarget aLocation aUrl) := by
  obtain ⟨scheme, authority, hs, ha, hLower, hPath, hPort⟩ := hKept
  have hAbsolute := parse_absolute hs ha
  obtain ⟨port, hPortOf, hParts⟩ := parseUrl_base hb hs ha hLower hPath
  generalize hpq : (if recomposeTail (parse aUrl) = [] then ['/']
    else recomposeTail (parse aUrl)) = pathAndQuery at hParts ⊢
  obtain ⟨hSameAuthority, hPrinted⟩ := @authorityOf_kept _ _ _ pathAndQuery _ hPort hPortOf
  rw [← hParts] at hSameAuthority hPrinted
  have hHost : (cut ':' authority).1 ⊆ authority := cut_fst_subset ':' authority
  have hPrintedClean : ∀ c ∈ authorityOf d base, c ≠ '/' ∧ c ≠ '?' ∧ c ≠ '#' := by
    intro c hc
    rcases hPrinted with hp | hp
    · exact hAbsolute.authority_clean c (hp ▸ hc)
    · exact hAbsolute.authority_clean c (hHost (hp ▸ hc))
  have hTail : (removeDotSegments (mergedPath pathAndQuery aLocation)).head? = some '/' := by
    have hRooted : pathAndQuery.head? = some '/' := by
      rw [← hpq]
      split
      · rfl
      next hne =>
        rw [recomposeTail_eq, spellTail_append] at hne ⊢
        rcases hAbsolute.path_rooted with hp | hp
        · obtain ⟨hq, hf⟩ := hPath.resolve_left (absurd hp)
          exact absurd (by simp [hp, hq, hf, spellTail, glue]) hne
        · rw [List.head?_append_of_ne_nil _ (by rintro he; simp [he] at hp), hp]
    obtain ⟨x, hx⟩ := mergedPath_rooted hRooted aLocation
    rw [hx]
    exact removeDotSegments_rooted x
  have hTarget : redirectTarget d base aLocation = scheme ++ ':' :: '/' :: '/' ::
      (authorityOf d base ++ removeDotSegments (mergedPath pathAndQuery aLocation)) := by
    rw [redirectTarget, if_neg hMark, if_neg hSlashes, hParts]
  obtain ⟨r, hr, hrScheme, hrAuthority, hrTail, hrPath, hrQuery⟩ :=
    parse_spelled hAbsolute.scheme_ne hAbsolute.scheme_clean hPrintedClean hTail
  have hNotRefused : ¬Refused aUrl (redirectTarget d base aLocation) := by
    rintro ⟨hHttps, hr⟩
    rw [hs, Option.map_some, Option.some.injEq, hLower] at hHttps
    have hSpelling : Spelling (redirectTarget d base aLocation) scheme (authorityOf d base)
        (removeDotSegments (mergedPath pathAndQuery aLocation)) :=
      { url_eq := hTarget
        scheme_clean := fun hc => (hAbsolute.scheme_clean _ hc).1 rfl
        hostPort_clean := fun hc => (hPrintedClean _ hc).1 rfl
        tail_rooted := .inr hTail }
    have hSome : ∃ port', portOf scheme (cut ':' (authorityOf d base)).2 = some port' := by
      rcases hPrinted with hp | hp
      · exact ⟨port, by rw [hp, hPortOf]⟩
      · rw [hp, cut_of_notMem (notMem_cut ':' authority)]
        exact ⟨_, rfl⟩
    obtain ⟨port', hPort'⟩ := hSome
    have hOk := parseUrl_of_spelling hSpelling
    rw [hLower, hPort'] at hOk
    have hHttp := hr _ hOk
    dsimp only at hHttp
    rw [hHttps] at hHttp
    exact absurd hHttp (by decide)
  rw [follows_iff d hb hs, hTarget, hr, ← hTarget]
  have hOnly : ∀ P : Prop, BothRefused aLocation aUrl (redirectTarget d base aLocation) ∨
      (¬Refused aUrl (redirectTarget d base aLocation) ∧ P) ↔ P := fun P =>
    ⟨fun h => h.elim (fun h => absurd h.1 hNotRefused) fun h => h.2,
      fun h => .inr ⟨hNotRefused, h⟩⟩
  rw [hOnly]
  cases hLocation : (parse aLocation).scheme with
  | some own =>
      -- the RFC's target has no authority then
      refine iff_of_false (fun h => ?_) (by simp)
      have hNone := authority_of_scheme hMark hLocation
      have hRel := h.1.authority_same
      rw [hrAuthority, rfcTarget, resolve, if_pos (by simp [hLocation])] at hRel
      simp only [hNone] at hRel
      cases hRel
  | none =>
      have hNone := authority_of_relative hSlashes hLocation
      have hScheme : (rfcTarget aLocation aUrl).scheme = some scheme := by
        simp [rfcTarget, resolve, hLocation, hNone, hs]
      have hAuthority : (rfcTarget aLocation aUrl).authority = some authority := by
        simp [rfcTarget, resolve, hLocation, hNone, ha]
      have hNotDowngrade : ¬Downgrade aUrl (rfcTarget aLocation aUrl) := by
        rintro ⟨h1, h2⟩
        rw [hs] at h1
        rw [hScheme, h1] at h2
        exact absurd h2 (by decide)
      obtain ⟨-, -, -, hRefPath, hRefQuery⟩ := parse_clean aLocation
      obtain ⟨hPathClean, hQueryClean⟩ := resolve_clean hAbsolute.path_clean
        hAbsolute.query_clean hRefPath hRefQuery
      rw [← hrTail]
      constructor
      · rintro ⟨h, -⟩
        refine ⟨rfl, ?_⟩
        rw [recomposeTail, recomposeTail, h.path_eq, h.query_eq, h.fragment_eq]
      · rintro ⟨-, h⟩
        obtain ⟨hp, hq, hf⟩ := recomposeTail_inj hrPath hrQuery hPathClean hQueryClean h
        refine ⟨⟨hrScheme.trans hScheme.symm, ?_, hp, hq, hf⟩, hNotDowngrade⟩
        rw [hrAuthority, hAuthority, hScheme]
        exact .some hSameAuthority

/-- The method answers the target of the RFC, or refuses one that is to be refused, when the
reference is kept; and only then, if it is not relative to a base with a scheme or an
authority that changes, or with a fragment. -/
theorem redirectUrl_follows_iff (d : Doubles) {aLocation aUrl : Text} {base : Parts}
    (hb : parseUrl aUrl = .ok base) (ha : (parse aUrl).scheme ≠ none) :
    (Kept d aLocation aUrl → Follows d aLocation aUrl) ∧
      ((includesSubstring aLocation [':', '/', '/'] = true ∨
          beginsWith aLocation ['/', '/'] = true ∨
          (BaseKept d (parse aUrl) ∧ (parse aUrl).fragment = none)) →
        (Follows d aLocation aUrl ↔ Kept d aLocation aUrl)) := by
  by_cases hMark : includesSubstring aLocation [':', '/', '/'] = true
  · have h := follows_absolute_iff d hb ha hMark
    exact ⟨h.mpr, fun _ => h⟩
  by_cases hSlashes : beginsWith aLocation ['/', '/'] = true
  · have h := follows_network_iff d hb ha hMark hSlashes
    exact ⟨h.mpr, fun _ => h⟩
  have hRelative : BaseKept d (parse aUrl) →
      Clear (parse aUrl) (parse aLocation) →
        (Follows d aLocation aUrl ↔
          (parse aLocation).scheme = none ∧ PathKept (parse aUrl) (parse aLocation)) := by
    intro hKept hClear
    rw [follows_relative hb hKept hMark hSlashes]
    refine and_congr_right fun hs => ?_
    have hAuthority := authority_of_relative hSlashes hs
    obtain ⟨scheme, authority, hScheme, hAuth, -, hPath, -⟩ := hKept
    have hAbsolute := parse_absolute hScheme hAuth
    have hLocation : aLocation = spellTail (parse aLocation).path (parse aLocation).query
        (parse aLocation).fragment := by
      conv_lhs => rw [← recompose_parse aLocation, recompose, hs, hAuthority]
      rfl
    have hMerged := removeDotSegments_mergedPath_iff hs hAuthority (by simp [hAuth])
      hAbsolute.path_rooted hAbsolute.path_clean (parse_clean aLocation).2.2.2.1 hPath hClear
    rw [← hLocation] at hMerged
    exact hMerged
  constructor
  · intro h
    rw [Kept, if_neg hMark, if_neg hSlashes] at h
    exact (hRelative h.2.1 (clear_of_pathKept h.2.2)).mpr ⟨h.1, h.2.2⟩
  · rintro (h | h | ⟨hKept, hFragment⟩)
    · exact absurd h hMark
    · exact absurd h hSlashes
    · rw [Kept, if_neg hMark, if_neg hSlashes,
        hRelative hKept (clear_of_fragment hFragment _)]
      exact ⟨fun h => ⟨h.1, hKept, h.2⟩, fun h => ⟨h.1, h.2.2⟩⟩

/-- Doubles that print as they are written and are equal to no integer. -/
def verbatim : Doubles where
  printString := id
  equals := fun _ _ => false

/-- `http://h/a/b` and `../c?d/..`. -/
theorem redirectUrl_follows_parent :
    Follows verbatim ['.', '.', '/', 'c', '?', 'd', '/', '.', '.']
      ['h', 't', 't', 'p', ':', '/', '/', 'h', '/', 'a', '/', 'b'] := by
  have hParse : parse ['.', '.', '/', 'c', '?', 'd', '/', '.', '.'] =
      ⟨none, none, ['.', '.', '/', 'c'], some ['d', '/', '.', '.'], none⟩ := by decide
  have hBase : parse ['h', 't', 't', 'p', ':', '/', '/', 'h', '/', 'a', '/', 'b'] =
      ⟨some http, some ['h'], ['/', 'a', '/', 'b'], none, none⟩ := by decide
  have hb : parseUrl ['h', 't', 't', 'p', ':', '/', '/', 'h', '/', 'a', '/', 'b'] =
      .ok ⟨http, ['h'], .integer 80, ['/', 'a', '/', 'b']⟩ := by rfl
  refine (redirectUrl_follows_iff verbatim hb (by simp [hBase])).1 ?_
  rw [Kept, if_neg (by decide), if_neg (by decide), hParse, hBase]
  refine ⟨rfl, ⟨http, ['h'], rfl, rfl, by decide, .inl (by simp), ?_⟩, ?_⟩
  · simp [PortKept, cut, defaultPort]
  · rw [PathKept, if_pos (by simp)]
    refine ⟨.inr (.inr (by simp)), ?_, by simp⟩
    rw [SameDepth]
    decide

/-- A `://` in the query of `/x?u=http://e` makes the reference absolute, and `/a//b` loses its
empty segment. -/
theorem redirectUrl_departs :
    (parseUrl ['h', 't', 't', 'p', ':', '/', '/', 'h', '/', 'a'] =
        .ok ⟨http, ['h'], .integer 80, ['/', 'a']⟩ ∧
      (parse ['h', 't', 't', 'p', ':', '/', '/', 'h', '/', 'a']).scheme = some http) ∧
    (redirectUrl verbatim ['/', 'x', '?', 'u', '=', 'h', 't', 't', 'p', ':', '/', '/', 'e']
        ['h', 't', 't', 'p', ':', '/', '/', 'h', '/', 'a'] =
          .ok ['/', 'x', '?', 'u', '=', 'h', 't', 't', 'p', ':', '/', '/', 'e'] ∧
      ¬Follows verbatim ['/', 'x', '?', 'u', '=', 'h', 't', 't', 'p', ':', '/', '/', 'e']
        ['h', 't', 't', 'p', ':', '/', '/', 'h', '/', 'a']) ∧
    redirectUrl verbatim ['/', 'a', '/', '/', 'b']
        ['h', 't', 't', 'p', ':', '/', '/', 'h', '/', 'a'] =
          .ok ['h', 't', 't', 'p', ':', '/', '/', 'h', '/', 'a', '/', 'b'] ∧
      ¬Follows verbatim ['/', 'a', '/', '/', 'b']
        ['h', 't', 't', 'p', ':', '/', '/', 'h', '/', 'a'] := by
  have hMarked : redirectUrl verbatim
      ['/', 'x', '?', 'u', '=', 'h', 't', 't', 'p', ':', '/', '/', 'e']
      ['h', 't', 't', 'p', ':', '/', '/', 'h', '/', 'a'] =
        .ok ['/', 'x', '?', 'u', '=', 'h', 't', 't', 'p', ':', '/', '/', 'e'] := by rfl
  have hEmpty : redirectUrl verbatim ['/', 'a', '/', '/', 'b']
      ['h', 't', 't', 'p', ':', '/', '/', 'h', '/', 'a'] =
        .ok ['h', 't', 't', 'p', ':', '/', '/', 'h', '/', 'a', '/', 'b'] := by rfl
  refine ⟨⟨by rfl, by decide⟩, ⟨hMarked, fun h => ?_⟩, hEmpty, fun h => ?_⟩
  · rw [Follows, hMarked] at h
    exact absurd h.1.scheme_eq (by decide)
  · rw [Follows, hEmpty] at h
    exact absurd h.1.path_eq (by decide)

end ProtoST.Http

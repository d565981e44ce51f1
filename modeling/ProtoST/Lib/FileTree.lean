import ProtoST.Lib.Uri

/-!
# Paths in a tree of files

A tree of directories and files without links, and the paths that lead through it: `.` and
an empty segment stay where they are, `..` goes to the parent.

## Main results

* `resolve_eq_walk` — where a path leads depends on its text only.
* `Plain.unique` — one path without such segments leads to an object.
* `plain_absolute_join` — a path joined of texts without such segments has none.
-/

namespace ProtoST.Lib.FileTree

open ProtoST.Uri (Text DotSegment segments slashed push walk)

inductive Kind where
  | directory
  | file
  deriving DecidableEq, Repr

/-- An object is named by the names on the way to it, the last one first. -/
structure Tree where
  kind : List Text → Option Kind
  root : kind [] = some .directory
  parent : ∀ name names, kind (name :: names) ≠ none → kind names = some .directory

/-! ## Texts of paths -/

def isAbsolute (p : Text) : Bool := p.head? = some '/'

/-- `p / q` -/
def join (p q : Text) : Text :=
  if isAbsolute q then q
  else if p = [] ∨ p.getLast? = some '/' then p ++ q
  else p ++ '/' :: q

def absolute (cwd p : Text) : Text := if isAbsolute p then p else join cwd p

/-! ## Resolution -/

namespace Tree

/-- One segment further. -/
def descend (t : Tree) (place : List Text) (seg : Text) : Option (List Text) :=
  if t.kind place = some .directory ∧ t.kind (push List.isEmpty place seg) ≠ none then
    some (push List.isEmpty place seg)
  else none

/-- The object that an absolute path leads to. -/
def resolve (t : Tree) (path : Text) : Option (List Text) :=
  (segments path).foldlM t.descend []

theorem foldlM_descend (t : Tree) {segs : List Text} {place object : List Text}
    (h : segs.foldlM t.descend place = some object) :
    object = walk List.isEmpty place segs := by
  induction segs generalizing place with
  | nil => exact (Option.some.inj h).symm
  | cons seg segs ih =>
      rw [List.foldlM_cons] at h
      obtain ⟨next, hNext, hRest⟩ := Option.bind_eq_some_iff.mp h
      have hPush : push List.isEmpty place seg = next := by
        unfold descend at hNext
        split at hNext
        · exact Option.some.inj hNext
        · cases hNext
      rw [← hPush] at hRest
      exact ih hRest

theorem resolve_eq_walk {t : Tree} {path : Text} {object : List Text}
    (h : t.resolve path = some object) : object = walk List.isEmpty [] (segments path) :=
  t.foldlM_descend h

end Tree

/-! ## Plain paths -/

/-- A relative path of names only. -/
def Names (path : Text) : Prop := ∀ seg ∈ segments path, seg ≠ [] ∧ ¬ DotSegment seg

instance (path : Text) : Decidable (Names path) := inferInstanceAs (Decidable (∀ _ ∈ _, _))

/-- An absolute path of names only. -/
def Plain : Text → Prop
  | '/' :: path => Names path
  | _ => False

instance : (path : Text) → Decidable (Plain path)
  | [] => .isFalse id
  | c :: path =>
      if h : c = '/' then decidable_of_iff (Names path) (by rw [h]; exact Iff.rfl)
      else .isFalse (by simp [Plain, h])

theorem Plain.cases {path : Text} (h : Plain path) : ∃ r, path = '/' :: r ∧ Names r := by
  unfold Plain at h
  split at h
  · exact ⟨_, rfl, h⟩
  · exact h.elim

theorem walk_names {names : List Text} (h : ∀ seg ∈ names, seg ≠ [] ∧ ¬ DotSegment seg)
    (place : List Text) : walk List.isEmpty place names = names.reverse ++ place := by
  induction names generalizing place with
  | nil => rfl
  | cons name names ih =>
      obtain ⟨hNonempty, hNoDots⟩ := h name List.mem_cons_self
      have hPush : push List.isEmpty place name = name :: place := by
        have hUp : name ≠ ['.', '.'] := fun hUp => hNoDots (.inr hUp)
        have hStay : ¬ (name = ['.'] ∨ name.isEmpty = true) := by
          rintro (hDot | hEmpty)
          · exact hNoDots (.inl hDot)
          · exact hNonempty (List.isEmpty_iff.mp hEmpty)
        rw [push, if_neg hUp, if_neg hStay]
      show walk List.isEmpty (push List.isEmpty place name) names = _
      rw [hPush, ih fun seg hSeg => h seg (List.mem_cons_of_mem _ hSeg), List.reverse_cons,
        List.append_assoc]
      rfl

/-- A plain path is spelled by the names of the object it leads to. -/
theorem Plain.eq_slashed {path : Text} (h : Plain path) :
    path = slashed (walk List.isEmpty [] (segments path)).reverse := by
  obtain ⟨r, rfl, hNames⟩ := h.cases
  have hWalk : walk List.isEmpty [] (segments ('/' :: r)) = (segments r).reverse := by
    rw [Uri.segments_slash]
    show walk List.isEmpty [] (segments r) = _
    rw [walk_names hNames, List.append_nil]
  rw [hWalk, List.reverse_reverse, Uri.slashed_segments]

variable {p q : Text}

theorem Plain.unique {t u : Tree} {object : List Text} (hp : Plain p)
    (hq : Plain q) (h : t.resolve p = some object) (h' : u.resolve q = some object) : p = q := by
  rw [hp.eq_slashed, hq.eq_slashed, ← Tree.resolve_eq_walk h, ← Tree.resolve_eq_walk h']

/-! ## Joined paths -/

/-- The absolute path of a directory, of names only. -/
def Directory (path : Text) : Prop := path = ['/'] ∨ Plain path

instance (path : Text) : Decidable (Directory path) := inferInstanceAs (Decidable (_ ∨ _))

theorem segments_slash_between (p q : Text) :
    segments (p ++ '/' :: q) = segments p ++ segments q := by
  refine Uri.segments_of_slashed (fun seg hSeg => ?_)
    (List.append_ne_nil_of_left_ne_nil (Uri.segments_ne_nil p) _) ?_
  · rcases List.mem_append.mp hSeg with hSeg | hSeg
    · exact Uri.notMem_of_mem_segments hSeg
    · exact Uri.notMem_of_mem_segments hSeg
  · rw [Uri.slashed_append, Uri.slashed_segments, Uri.slashed_segments, List.cons_append]

theorem Names.ne_nil {p : Text} (h : Names p) : p ≠ [] := by
  rintro rfl
  exact (h [] (by simp)).1 rfl

theorem Names.not_absolute {p : Text} (h : Names p) : isAbsolute p = false := by
  cases p with
  | nil => rfl
  | cons c p =>
      by_cases hc : c = '/'
      · subst hc
        exact absurd rfl (h [] (by simp)).1
      · simp [isAbsolute, hc]

theorem Names.slash_between (hp : Names p) (hq : Names q) :
    Names (p ++ '/' :: q) := by
  intro seg hSeg
  rw [segments_slash_between] at hSeg
  rcases List.mem_append.mp hSeg with hSeg | hSeg
  · exact hp seg hSeg
  · exact hq seg hSeg

theorem Names.getLast?_ne {p : Text} (h : Names p) : p.getLast? ≠ some '/' := by
  intro hLast
  obtain ⟨r, rfl⟩ := List.getLast?_eq_some_iff.mp hLast
  have hSegs : segments (r ++ ['/']) = segments r ++ [[]] := segments_slash_between r []
  exact (h [] (by simp [hSegs])).1 rfl

theorem Plain.isAbsolute {p : Text} (h : Plain p) : isAbsolute p = true := by
  obtain ⟨r, rfl, -⟩ := h.cases
  rfl

theorem Names.join (hp : Names p) (hq : Names q) : Names (join p q) := by
  unfold FileTree.join
  rw [hq.not_absolute, if_neg Bool.false_ne_true, if_neg (by simp [hp.ne_nil, hp.getLast?_ne])]
  exact hp.slash_between hq

theorem Directory.join (hp : Directory p) (hq : Names q) : Plain (join p q) := by
  unfold FileTree.join
  rw [hq.not_absolute, if_neg Bool.false_ne_true]
  rcases hp with rfl | hp
  · exact hq
  · obtain ⟨r, rfl, hNames⟩ := hp.cases
    have hLast : ('/' :: r).getLast? = r.getLast? := List.getLast?_cons_of_ne_nil hNames.ne_nil
    rw [if_neg (by simp [hLast, hNames.getLast?_ne])]
    exact hNames.slash_between hq

/-- A name in a directory, both written without `.`, `..` and repeated separators. -/
theorem plain_absolute_join {cwd dir name : Text} (hCwd : Directory cwd)
    (hDir : Directory dir ∨ Names dir) (hName : Plain name ∨ Names name) :
    Plain (absolute cwd (join dir name)) := by
  unfold absolute
  rcases hName with hName | hName
  · have hJoin : join dir name = name := if_pos hName.isAbsolute
    rw [hJoin, if_pos hName.isAbsolute]
    exact hName
  · rcases hDir with hDir | hDir
    · have hPlain := hDir.join hName
      rw [if_pos hPlain.isAbsolute]
      exact hPlain
    · have hNames := hDir.join hName
      rw [if_neg (by rw [hNames.not_absolute]; exact Bool.false_ne_true)]
      exact hCwd.join hNames

end ProtoST.Lib.FileTree

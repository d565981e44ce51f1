import Mathlib.Data.List.Sort

/-!
# Sorting with a comparison that runs code

A stable merge sort whose comparison is a computation: it may change a state, and it may
be left by an exception.  What such a sort answers is a matter of what the comparison
answers, so the sort is compared with `List.mergeSort`, and that one is described for an
order that is one on the elements of the list only.

## Main results

* `stableSort_answers`, `stableSort_completes` — the sort answers `List.mergeSort` of
  what the comparison answers, and it completes when the comparisons do.
* `pairwise_mergeSort_of_mem`, `filter_mergeSort_of_mem` — the list is in order, and the
  elements the order does not distinguish stand as they stood.
-/

namespace ProtoST.Lib

variable {ε σ α β γ : Type}

/-- Every value that `c` answers satisfies `P`. -/
def Answers (c : EStateM ε σ β) (P : β → Prop) : Prop :=
  ∀ s b s', c s = .ok b s' → P b

/-- `c` is never left by an exception. -/
def Completes (c : EStateM ε σ β) : Prop := ∀ s, ∃ b s', c s = .ok b s'

variable {P : β → Prop}

theorem Answers.pure {b : β} (h : P b) :
    Answers (Pure.pure b : EStateM ε σ β) P := by
  intro s b' s' hrun
  cases hrun
  exact h

variable {f : β → EStateM ε σ γ} {c : EStateM ε σ β}

theorem Answers.bind {Q : γ → Prop} (hc : Answers c P) (hf : ∀ b, P b → Answers (f b) Q) :
    Answers (c >>= f) Q := by
  intro s b' s'' hrun
  change EStateM.bind c f s = _ at hrun
  unfold EStateM.bind at hrun
  cases hstep : c s with
  | ok b s' =>
    rw [hstep] at hrun
    exact hf b (hc s b s' hstep) s' b' s'' hrun
  | error e s' =>
    rw [hstep] at hrun
    cases hrun

theorem Completes.pure (b : β) : Completes (Pure.pure b : EStateM ε σ β) :=
  fun s => ⟨b, s, rfl⟩

theorem Completes.bind (hc : Completes c) (hP : Answers c P) (hf : ∀ b, P b → Completes (f b)) :
    Completes (c >>= f) := by
  intro s
  obtain ⟨b, s', hstep⟩ := hc s
  obtain ⟨b', s'', hrun⟩ := hf b (hP s b s' hstep) s'
  refine ⟨b', s'', ?_⟩
  change EStateM.bind c f s = _
  rw [EStateM.bind, hstep]
  exact hrun

theorem bind_of_ok {s s' : σ} {b : β} (h : c s = .ok b s') : (c >>= f) s = f b s' := by
  change EStateM.bind c f s = _
  rw [EStateM.bind, h]

theorem bind_of_error {s s' : σ} {e : ε} (h : c s = .error e s') : (c >>= f) s = .error e s' := by
  change EStateM.bind c f s = _
  rw [EStateM.bind, h]

/-! ## The sort -/

/-- Merges two lists: an element of the second goes first only when `comp` answers true
for it and the element of the first. -/
def stableMerge (comp : α → α → EStateM ε σ Bool) :
    List α → List α → EStateM ε σ (List α)
  | [], ys => pure ys
  | x :: xs, [] => pure (x :: xs)
  | x :: xs, y :: ys => do
      if ← comp y x then
        let rest ← stableMerge comp (x :: xs) ys
        return y :: rest
      else
        let rest ← stableMerge comp xs (y :: ys)
        return x :: rest
termination_by xs ys => xs.length + ys.length

/-- Sorts the halves and merges them. -/
def stableSort (comp : α → α → EStateM ε σ Bool) (xs : List α) : EStateM ε σ (List α) :=
  if 2 ≤ xs.length then do
    let left ← stableSort comp (xs.take ((xs.length + 1) / 2))
    let right ← stableSort comp (xs.drop ((xs.length + 1) / 2))
    stableMerge comp left right
  else pure xs
termination_by xs.length
decreasing_by
  · rw [List.length_take]; omega
  · rw [List.length_drop]; omega

theorem stableSort_of_short (comp : α → α → EStateM ε σ Bool) {xs : List α}
    (h : xs.length < 2) : stableSort comp xs = pure xs := by
  rw [stableSort, if_neg (Nat.not_le.mpr h)]

theorem stableSort_pair (comp : α → α → EStateM ε σ Bool) (x y : α) :
    stableSort comp [x, y] = do if ← comp y x then return [y, x] else return [x, y] := by
  rw [stableSort, if_pos (by simp)]
  have hleft : [x, y].take (([x, y].length + 1) / 2) = [x] := by simp
  have hright : [x, y].drop (([x, y].length + 1) / 2) = [y] := by simp
  rw [hleft, hright, stableSort_of_short comp (by simp), stableSort_of_short comp (by simp)]
  simp only [pure_bind, stableMerge]

section Comparison

variable {comp : α → α → EStateM ε σ Bool} {c : α → α → Bool}

theorem stableMerge_answers {xs ys : List α}
    (h : ∀ x ∈ xs, ∀ y ∈ ys, Answers (comp y x) (· = c y x)) :
    Answers (stableMerge comp xs ys) (· = List.merge xs ys fun x y => !c y x) := by
  fun_induction stableMerge comp xs ys with
  | case1 ys => exact .pure (List.nil_merge ys).symm
  | case2 x xs => exact .pure (List.merge_right (x :: xs)).symm
  | case3 x xs y ys ihy ihx =>
    have hxy := h x List.mem_cons_self y List.mem_cons_self
    refine hxy.bind fun b hb => ?_
    subst hb
    cases hc : c y x with
    | true =>
      have hrest := ihy fun a ha b hb => h a ha b (List.mem_cons_of_mem y hb)
      refine hrest.bind fun rest hrest => .pure ?_
      rw [hrest, List.cons_merge_cons_neg _ _ _ (by simp [hc])]
    | false =>
      have hrest := ihx fun a ha b hb => h a (List.mem_cons_of_mem x ha) b hb
      refine hrest.bind fun rest hrest => .pure ?_
      rw [hrest, List.cons_merge_cons_pos _ _ _ (by simp [hc])]

theorem stableMerge_completes {xs ys : List α}
    (h : ∀ x ∈ xs, ∀ y ∈ ys, Completes (comp y x)) : Completes (stableMerge comp xs ys) := by
  fun_induction stableMerge comp xs ys with
  | case1 ys => exact .pure ys
  | case2 x xs => exact .pure (x :: xs)
  | case3 x xs y ys ihy ihx =>
    have hxy := h x List.mem_cons_self y List.mem_cons_self
    have hany {γ : Type} (d : EStateM ε σ γ) : Answers d fun _ => True := fun _ _ _ _ => trivial
    refine hxy.bind (hany _) fun b _ => ?_
    cases b with
    | true =>
      have hrest := ihy fun a ha b hb => h a ha b (List.mem_cons_of_mem y hb)
      exact hrest.bind (hany _) fun rest _ => .pure (y :: rest)
    | false =>
      have hrest := ihx fun a ha b hb => h a (List.mem_cons_of_mem x ha) b hb
      exact hrest.bind (hany _) fun rest _ => .pure (x :: rest)

/-- One turn of `List.mergeSort`. -/
theorem mergeSort_eq_merge (le : α → α → Bool) {xs : List α} (h : 2 ≤ xs.length) :
    xs.mergeSort le = List.merge ((xs.take ((xs.length + 1) / 2)).mergeSort le)
      ((xs.drop ((xs.length + 1) / 2)).mergeSort le) le := by
  match xs, h with
  | x :: y :: xs, _ =>
    rw [List.mergeSort]
    simp only [List.MergeSort.Internal.splitInTwo_fst, List.MergeSort.Internal.splitInTwo_snd]

/-- The sort answers what `List.mergeSort` answers. -/
theorem stableSort_answers {xs : List α}
    (h : ∀ x ∈ xs, ∀ y ∈ xs, Answers (comp x y) (· = c x y)) :
    Answers (stableSort comp xs) (· = xs.mergeSort fun x y => !c y x) := by
  fun_induction stableSort comp xs with
  | case1 xs hlen ihl ihr =>
    have hl := ihl fun x hx y hy => h x (List.mem_of_mem_take hx) y (List.mem_of_mem_take hy)
    have hr := ihr fun x hx y hy => h x (List.mem_of_mem_drop hx) y (List.mem_of_mem_drop hy)
    refine hl.bind fun left hleft => hr.bind fun right hright => ?_
    rw [mergeSort_eq_merge _ hlen]
    subst hleft hright
    refine stableMerge_answers fun x hx y hy => ?_
    rw [List.mem_mergeSort] at hx hy
    exact h y (List.mem_of_mem_drop hy) x (List.mem_of_mem_take hx)
  | case2 xs hlen =>
    refine .pure ?_
    match xs, hlen with
    | [], _ => simp
    | [x], _ => simp
    | x :: y :: xs, hlen => simp at hlen

theorem stableSort_completes {xs : List α}
    (h : ∀ x ∈ xs, ∀ y ∈ xs, Answers (comp x y) (· = c x y))
    (hc : ∀ x ∈ xs, ∀ y ∈ xs, Completes (comp x y)) : Completes (stableSort comp xs) := by
  fun_induction stableSort comp xs with
  | case1 xs hlen ihl ihr =>
    have hl := ihl (fun x hx y hy => h x (List.mem_of_mem_take hx) y (List.mem_of_mem_take hy))
      fun x hx y hy => hc x (List.mem_of_mem_take hx) y (List.mem_of_mem_take hy)
    have hr := ihr (fun x hx y hy => h x (List.mem_of_mem_drop hx) y (List.mem_of_mem_drop hy))
      fun x hx y hy => hc x (List.mem_of_mem_drop hx) y (List.mem_of_mem_drop hy)
    have hleft : Answers (stableSort comp (xs.take ((xs.length + 1) / 2))) _ :=
      stableSort_answers fun x hx y hy =>
        h x (List.mem_of_mem_take hx) y (List.mem_of_mem_take hy)
    have hright : Answers (stableSort comp (xs.drop ((xs.length + 1) / 2))) _ :=
      stableSort_answers fun x hx y hy =>
        h x (List.mem_of_mem_drop hx) y (List.mem_of_mem_drop hy)
    refine hl.bind hleft fun left hleft => hr.bind hright fun right hright => ?_
    subst hleft hright
    refine stableMerge_completes fun x hx y hy => ?_
    rw [List.mem_mergeSort] at hx hy
    exact hc y (List.mem_of_mem_drop hy) x (List.mem_of_mem_take hx)
  | case2 xs hlen => exact .pure xs

end Comparison

/-! ## Orders on the elements of a list -/

section Order

variable {xs : List α} {le : α → α → Bool}

/-- `le` is transitive and total on the elements of `xs`. -/
structure TotalPreorderOn (xs : List α) (le : α → α → Bool) : Prop where
  trans : ∀ x ∈ xs, ∀ y ∈ xs, ∀ z ∈ xs, le x y → le y z → le x z
  total : ∀ x ∈ xs, ∀ y ∈ xs, le x y ∨ le y x

/-- `lt` is a strict weak ordering of the elements of `xs`. -/
structure StrictWeakOn (xs : List α) (lt : α → α → Bool) : Prop where
  irrefl : ∀ x ∈ xs, lt x x = false
  trans : ∀ x ∈ xs, ∀ y ∈ xs, ∀ z ∈ xs, lt x y → lt y z → lt x z
  incomparable_trans : ∀ x ∈ xs, ∀ y ∈ xs, ∀ z ∈ xs, lt x y = lt y x → lt y z = lt z y →
    lt x z = lt z x

theorem TotalPreorderOn.refl (h : TotalPreorderOn xs le) : ∀ x ∈ xs, le x x = true := by
  intro x hx
  rcases h.total x hx x hx with hle | hle
  · exact hle
  · exact hle

/-- `y` before `x` fails to be allowed: `x` comes strictly first. -/
theorem TotalPreorderOn.strictWeakOn (h : TotalPreorderOn xs le) :
    StrictWeakOn xs fun x y => !le y x := by
  have hboth : ∀ x ∈ xs, ∀ y ∈ xs, (!le y x) = (!le x y) → le x y = true ∧ le y x = true := by
    intro x hx y hy heq
    have hsame : le y x = le x y := by simpa using heq
    rcases h.total x hx y hy with hle | hle
    · exact ⟨hle, hsame.trans hle⟩
    · exact ⟨hsame.symm.trans hle, hle⟩
  constructor
  · intro x hx
    simp [h.refl x hx]
  · intro x hx y hy z hz hxy hyz
    simp only [Bool.not_eq_true'] at hxy hyz ⊢
    by_contra hzx
    have hle : le x y = true := (h.total x hx y hy).resolve_right (by simp [hxy])
    have := h.trans z hz x hx y hy (by simpa using hzx) hle
    rw [hyz] at this
    cases this
  · intro x hx y hy z hz hxy hyz
    obtain ⟨hxy, hyx⟩ := hboth x hx y hy hxy
    obtain ⟨hyz, hzy⟩ := hboth y hy z hz hyz
    rw [h.trans z hz y hy x hx hzy hyx, h.trans x hx y hy z hz hxy hyz]

/-- `mergeSort` of the elements taken with the proof that they are elements. -/
theorem mergeSort_eq_map_attach (xs : List α) (le : α → α → Bool) :
    xs.mergeSort le = (xs.attach.mergeSort fun x y => le x.1 y.1).map Subtype.val := by
  rw [List.map_mergeSort (s := le) (fun a _ b _ => rfl), List.attach_map_subtype_val]

theorem pairwise_mergeSort_of_mem (h : TotalPreorderOn xs le) :
    (xs.mergeSort le).Pairwise fun x y => le x y = true := by
  rw [mergeSort_eq_map_attach, List.pairwise_map]
  refine @List.pairwise_mergeSort {x // x ∈ xs} (fun x y => le x.1 y.1)
    (fun x y z => h.trans x.1 x.2 y.1 y.2 z.1 z.2) (fun x y => ?_) _
  rw [Bool.or_eq_true]
  exact h.total x.1 x.2 y.1 y.2

/-- A list of elements that is in order already keeps its order. -/
theorem sublist_mergeSort_of_mem (h : TotalPreorderOn xs le) {ys : List α}
    (hsorted : ys.Pairwise fun x y => le x y = true) (hsub : ys.Sublist xs) :
    ys.Sublist (xs.mergeSort le) := by
  rw [← List.attach_map_subtype_val xs, List.sublist_map_iff] at hsub
  obtain ⟨ys, hsub, rfl⟩ := hsub
  rw [mergeSort_eq_map_attach]
  rw [List.pairwise_map] at hsorted
  refine (List.sublist_mergeSort (fun x y z => h.trans x.1 x.2 y.1 y.2 z.1 z.2)
    (fun x y => ?_) hsorted hsub).map _
  rw [Bool.or_eq_true]
  exact h.total x.1 x.2 y.1 y.2

/-- **Stability.** The elements the order does not distinguish from `x` stand as they
stood. -/
theorem filter_mergeSort_of_mem (h : TotalPreorderOn xs le) {x : α} (hx : x ∈ xs) :
    (xs.mergeSort le).filter (fun y => le x y == le y x) =
      xs.filter fun y => le x y == le y x := by
  have hsame : ∀ y ∈ xs.filter (fun y => le x y == le y x),
      y ∈ xs ∧ le x y = true ∧ le y x = true := by
    intro y hy
    rw [List.mem_filter, beq_iff_eq] at hy
    rcases h.total x hx y hy.1 with hle | hle
    · exact ⟨hy.1, hle, hy.2.symm.trans hle⟩
    · exact ⟨hy.1, hy.2.trans hle, hle⟩
  have hsorted : (xs.filter fun y => le x y == le y x).Pairwise fun y z => le y z = true := by
    rw [List.pairwise_iff_forall_sublist]
    intro y z hsub
    obtain ⟨hy, -, hyx⟩ := hsame y (hsub.subset (by simp))
    obtain ⟨hz, hxz, -⟩ := hsame z (hsub.subset (by simp))
    exact h.trans y hy x hx z hz hyx hxz
  have hsub := sublist_mergeSort_of_mem h hsorted List.filter_sublist
  have hfilter := hsub.filter fun y => le x y == le y x
  rw [List.filter_filter] at hfilter
  simp only [Bool.and_self] at hfilter
  refine (hfilter.eq_of_length ?_).symm
  exact ((List.mergeSort_perm xs le).filter _).length_eq.symm

end Order

end ProtoST.Lib

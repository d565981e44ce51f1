import ProtoST.Lib.EffectfulSort

/-!
# `sort:`

`prim_Seq_sort` of `collection_prims.cpp`: the elements are copied out of the receiver,
`std::stable_sort` orders the copy with a comparator made of the sort block, and the
sorted list replaces the receiver's.  A sort block runs code of the program: it has the
rest of the state to change, and an error, a non-local return or an unwind may leave it.

A sort block answers true when its first argument may precede its second.  It may be
written with `<=`, and be a total preorder, or with `<`, and be a strict weak order.

## Main results

* `sort_spec` — what `sort:` does to the receiver.
* `sortsBy_iff` — it orders the elements, stably and by a strict weak ordering, exactly
  when the block lets every element precede itself.
* `strictBlock_swaps` — a block written with `<` exchanges two equal elements.
-/

namespace ProtoST.Collections.Sorting

open ProtoST.Lib

variable {α ε σ : Type}

/-- How a method is left: by an error of a primitive, or by what left a block. -/
inductive Exit (ε : Type) where
  | error (text : String)
  | block (e : ε)
  deriving DecidableEq, Repr

/-- The receiver's `__data__`, where it holds a list, and the rest of the state. -/
structure World (α σ : Type) where
  data : Option (List α)
  rest : σ

/-- Whether a block answers `true` for two arguments. -/
abbrev SortBlock (α ε σ : Type) := α → α → EStateM (Exit ε) σ Bool

/-- Code that does not touch the receiver. -/
def elsewhere {β : Type} (m : EStateM (Exit ε) σ β) : EStateM (Exit ε) (World α σ) β :=
  fun w =>
    match m w.rest with
    | .ok b s => .ok b { w with rest := s }
    | .error e s => .error e { w with rest := s }

section Primitive

-- The send of `<=`: what the element answers, and `none` when it does not understand.
variable (lessOrEqual : α → α → EStateM (Exit ε) σ (Option Bool))

/-- `mayPrecede` of `prim_Seq_sort`, with `sendDynamicForSort`. -/
def mayPrecede (block : Option (SortBlock α ε σ)) : SortBlock α ε σ := fun x y =>
  match block with
  | some b => b x y
  | none => do
      match ← lessOrEqual x y with
      | some answer => return answer
      | none => throw (.error "sort: elements do not understand <=")

/-- The comparator handed to `std::stable_sort`. -/
def comparator (block : Option (SortBlock α ε σ)) : SortBlock α ε σ := fun x y => do
  let answer ← mayPrecede lessOrEqual block y x
  return !answer

/-- `prim_Seq_sort`: `sort: aBlock`, and `sort` with no block. -/
def sort (block : Option (SortBlock α ε σ)) : EStateM (Exit ε) (World α σ) Unit := do
  let w ← get
  match w.data with
  | none => throw (.error "sort: needs an Array or an OrderedCollection (use sorted)")
  | some data =>
      let elems ← elsewhere (stableSort (comparator lessOrEqual block) data)
      modify fun w => { w with data := some elems }

end Primitive

/-! ## What the comparator and the sort answer -/

section Spec

variable {lessOrEqual : α → α → EStateM (Exit ε) σ (Option Bool)}
  {block : Option (SortBlock α ε σ)} {r : α → α → Bool} {xs : List α}

theorem comparator_answers {x y : α}
    (h : Answers (mayPrecede lessOrEqual block y x) (· = r y x)) :
    Answers (comparator lessOrEqual block x y) (· = !r y x) :=
  h.bind fun _ hb => .pure (congrArg not hb)

theorem comparator_completes {x y : α} (h : Completes (mayPrecede lessOrEqual block y x)) :
    Completes (comparator lessOrEqual block x y) := by
  have hany : Answers (mayPrecede lessOrEqual block y x) fun _ => True :=
    fun _ _ _ _ => trivial
  exact h.bind hany fun b _ => .pure !b

/-- The receiver of a `sort:` that answers holds the elements in the order of
`mergeSort`. -/
theorem sort_spec (hblock : ∀ x ∈ xs, ∀ y ∈ xs,
    Answers (mayPrecede lessOrEqual block x y) (· = r x y))
    {w w' : World α σ} (hw : w.data = some xs) (hrun : sort lessOrEqual block w = .ok () w') :
    w'.data = some (xs.mergeSort r) := by
  have hanswers : Answers (stableSort (comparator lessOrEqual block) xs)
      (· = xs.mergeSort fun x y => !!r x y) :=
    stableSort_answers (c := fun x y => !r y x) fun x hx y hy =>
      comparator_answers (hblock y hy x hx)
  simp only [Bool.not_not] at hanswers
  obtain ⟨data, s⟩ := w
  subst hw
  change EStateM.bind (elsewhere _) _ _ = _ at hrun
  simp only [EStateM.bind, elsewhere] at hrun
  cases hstep : stableSort (comparator lessOrEqual block) xs s with
  | ok ys s' =>
    rw [hstep] at hrun
    cases hrun
    exact congrArg some (hanswers s ys s' hstep)
  | error e s' =>
    rw [hstep] at hrun
    cases hrun

/-- A `sort:` that a comparison leaves has not touched the receiver. -/
theorem sort_error {w w' : World α σ} {e : Exit ε}
    (hrun : sort lessOrEqual block w = .error e w') : w'.data = w.data := by
  obtain ⟨data, s⟩ := w
  cases data with
  | none =>
    cases hrun
    rfl
  | some xs =>
    change EStateM.bind (elsewhere _) _ _ = _ at hrun
    simp only [EStateM.bind, elsewhere] at hrun
    cases hstep : stableSort (comparator lessOrEqual block) xs s with
    | ok ys s' =>
      rw [hstep] at hrun
      cases hrun
    | error e' s' =>
      rw [hstep] at hrun
      cases hrun
      rfl

theorem sort_completes
    (hblock : ∀ x ∈ xs, ∀ y ∈ xs, Answers (mayPrecede lessOrEqual block x y) (· = r x y))
    (hc : ∀ x ∈ xs, ∀ y ∈ xs, Completes (mayPrecede lessOrEqual block x y))
    {w : World α σ} (hw : w.data = some xs) :
    ∃ w', sort lessOrEqual block w = .ok () w' := by
  have hsort : Completes (stableSort (comparator lessOrEqual block) xs) :=
    stableSort_completes (c := fun x y => !r y x)
      (fun x hx y hy => comparator_answers (hblock y hy x hx))
      fun x hx y hy => comparator_completes (hc y hy x hx)
  obtain ⟨data, s⟩ := w
  subst hw
  obtain ⟨ys, s', hstep⟩ := hsort s
  refine ⟨⟨some ys, s'⟩, ?_⟩
  change EStateM.bind (elsewhere _) _ _ = _
  simp only [EStateM.bind, elsewhere, hstep]
  rfl

end Spec

/-! ## Sorting -/

/-- What is asked of `sort:` with a block that answers by `r`, on a receiver with the
elements `xs`. -/
structure SortsBy (lessOrEqual : α → α → EStateM (Exit ε) σ (Option Bool))
    (block : Option (SortBlock α ε σ)) (r : α → α → Bool) (xs : List α) : Prop where
  /-- What the comparator answers for two elements is a strict weak ordering of them. -/
  comparator : StrictWeakOn xs fun x y => !r y x
  /-- The elements are the same; none must precede an earlier one; and those the block
  does not distinguish stand as they stood. -/
  sorted : ∀ w w' : World α σ, w.data = some xs → sort lessOrEqual block w = .ok () w' →
    ∃ ys, w'.data = some ys ∧ ys.Perm xs ∧
      (ys.Pairwise fun earlier later => ¬ (r later earlier ∧ ¬ r earlier later)) ∧
      ∀ x ∈ xs, (ys.filter fun y => r x y == r y x) = xs.filter fun y => r x y == r y x
  /-- It answers unless a comparison is left. -/
  answers : (∀ x ∈ xs, ∀ y ∈ xs, Completes (mayPrecede lessOrEqual block x y)) →
    ∀ w : World α σ, w.data = some xs → ∃ w', sort lessOrEqual block w = .ok () w'
  /-- A comparison that is left leaves the receiver as it was. -/
  unchanged : ∀ (w w' : World α σ) (e : Exit ε), w.data = some xs →
    sort lessOrEqual block w = .error e w' → w'.data = some xs

section Main

variable {lessOrEqual : α → α → EStateM (Exit ε) σ (Option Bool)}
  {block : Option (SortBlock α ε σ)} {r : α → α → Bool} {xs : List α}

/-- With a total preorder, `sort:` does all that is asked of it. -/
theorem sortsBy_of_totalPreorder
    (hblock : ∀ x ∈ xs, ∀ y ∈ xs, Answers (mayPrecede lessOrEqual block x y) (· = r x y))
    (hr : TotalPreorderOn xs r) : SortsBy lessOrEqual block r xs where
  comparator := hr.strictWeakOn
  sorted w w' hw hrun := by
    refine ⟨xs.mergeSort r, sort_spec hblock hw hrun, List.mergeSort_perm xs r, ?_,
      fun x hx => filter_mergeSort_of_mem hr hx⟩
    refine (pairwise_mergeSort_of_mem hr).imp fun hle hmust => ?_
    exact hmust.2 hle
  answers hc w hw := sort_completes hblock hc hw
  unchanged w w' e hw hrun := by
    rw [sort_error hrun, hw]

/-- A strict weak order under which every element may precede itself has no elements. -/
theorem totalPreorderOn_of_strictWeak (hr : StrictWeakOn xs r) (hrefl : ∀ x ∈ xs, r x x = true) :
    TotalPreorderOn xs r := by
  have hempty : ∀ x ∈ xs, False := by
    intro x hx
    have hirrefl := hr.irrefl x hx
    rw [hrefl x hx] at hirrefl
    cases hirrefl
  constructor
  · intro x hx
    exact (hempty x hx).elim
  · intro x hx
    exact (hempty x hx).elim

/-- **Sorting.** `sort:` with a block of either convention sorts as it should if and only
if the block lets each element of the receiver precede itself. -/
theorem sortsBy_iff
    (hblock : ∀ x ∈ xs, ∀ y ∈ xs, Answers (mayPrecede lessOrEqual block x y) (· = r x y))
    (hr : TotalPreorderOn xs r ∨ StrictWeakOn xs r) :
    SortsBy lessOrEqual block r xs ↔ ∀ x ∈ xs, r x x = true := by
  constructor
  · intro h x hx
    have hirrefl := h.comparator.irrefl x hx
    simpa using hirrefl
  · intro hrefl
    rcases hr with hr | hr
    · exact sortsBy_of_totalPreorder hblock hr
    · exact sortsBy_of_totalPreorder hblock (totalPreorderOn_of_strictWeak hr hrefl)

end Main

/-! ## The two conventions -/

/-- A block that compares the first components, by `le`. -/
def byFirst (le : Nat → Nat → Bool) : SortBlock (Nat × String) Empty Unit :=
  fun x y => pure (le x.1 y.1)

/-- Elements that are never sent `<=`. -/
def noLessOrEqual : Nat × String → Nat × String → EStateM (Exit Empty) Unit (Option Bool) :=
  fun _ _ => pure none

/-- Two elements with one first component. -/
def twoEqual : List (Nat × String) := [(1, "a"), (1, "b")]

theorem totalPreorderOn_byFirst (xs : List (Nat × String)) :
    TotalPreorderOn xs fun x y => decide (x.1 ≤ y.1) where
  trans x _ y _ z _ hxy hyz := by
    simp only [decide_eq_true_eq] at *
    omega
  total x _ y _ := by
    simp only [decide_eq_true_eq]
    omega

/-- `#((1 a) (1 b)) sort: [:x :y | x first <= y first]`. -/
theorem sortsBy_twoEqual :
    SortsBy noLessOrEqual (some (byFirst fun m n => decide (m ≤ n)))
        (fun x y => decide (x.1 ≤ y.1)) twoEqual ↔
      ∀ x ∈ twoEqual, decide (x.1 ≤ x.1) = true :=
  sortsBy_iff (fun _ _ _ _ _ _ _ hrun => by cases hrun; rfl)
    (.inl (totalPreorderOn_byFirst twoEqual))

theorem strictWeakOn_byFirst (xs : List (Nat × String)) :
    StrictWeakOn xs fun x y => decide (x.1 < y.1) where
  irrefl x _ := by simp
  trans x _ y _ z _ hxy hyz := by
    simp only [decide_eq_true_eq] at *
    omega
  incomparable_trans x _ y _ z _ hxy hyz := by
    simp only [decide_eq_decide] at *
    omega

/-- `#((1 a) (1 b)) sort: [:x :y | x first < y first]`: the block is a strict weak order
and leaves no comparison, and the two elements change places. -/
theorem strictBlock_swaps :
    StrictWeakOn twoEqual (fun x y => decide (x.1 < y.1)) ∧
      (sort noLessOrEqual (some (byFirst fun m n => decide (m < n)))
        ⟨some twoEqual, ()⟩ = .ok () ⟨some [(1, "b"), (1, "a")], ()⟩) ∧
      ¬ SortsBy noLessOrEqual (some (byFirst fun m n => decide (m < n)))
        (fun x y => decide (x.1 < y.1)) twoEqual := by
  refine ⟨strictWeakOn_byFirst twoEqual, ?_, ?_⟩
  · have hsort : stableSort (comparator noLessOrEqual (some (byFirst fun m n => decide (m < n))))
        twoEqual () = .ok [(1, "b"), (1, "a")] () := by
      rw [twoEqual, stableSort_pair]
      rfl
    change EStateM.bind (elsewhere _) _ _ = _
    simp only [EStateM.bind, elsewhere, hsort]
    rfl
  · intro h
    have hirrefl := h.comparator.irrefl (1, "a") (by simp [twoEqual])
    simp at hirrefl

end ProtoST.Collections.Sorting

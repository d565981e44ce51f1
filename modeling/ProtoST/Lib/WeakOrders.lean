import ProtoST.Lib.EffectfulSort

/-!
# Sorting by a comparison of either convention

A comparison may be a total preorder, which holds of an element and itself, or a strict weak
order, which does not.  `WeakOrder` is what both have in common, and `may` the order in which
elements may stand by either.

## Main results

* `WeakOrder.pairwise_mergeSort` — a sorted list is in order.
* `WeakOrder.pairwise_mergeSort_iff` — when sorting keeps a list in another order.
-/

namespace ProtoST.Lib.WeakOrders

variable {α : Type} {r : α → α → Bool}

/-- An element may stand before another one that need not come before it. -/
def may (r : α → α → Bool) (x y : α) : Bool := r x y || !r y x

theorem may_of {x y : α} (h : r x y = true) : may r x y = true := by
  rw [may, h, Bool.true_or]

theorem may_of_not {x y : α} (h : r x y = false) : may r y x = true := by
  rw [may, h, Bool.not_false, Bool.or_true]

theorem may_refl (r : α → α → Bool) (x : α) : may r x x = true := by
  cases h : r x x with
  | true => exact may_of h
  | false => exact may_of_not h

theorem may_cases {x y : α} (h : may r x y = true) : r x y = true ∨ r y x = false := by
  simpa [may] using h

/-- Elements that are not told apart are exchangeable. -/
structure WeakOrder (r : α → α → Bool) : Prop where
  trans_may : ∀ x y z, r x y = true → may r y z = true → r x z = true
  may_trans : ∀ x y z, may r x y = true → r y z = true → r x z = true

theorem WeakOrder.of_totalPreorder (htrans : ∀ x y z, r x y = true → r y z = true → r x z = true)
    (htotal : ∀ x y, r x y = true ∨ r y x = true) : WeakOrder r := by
  have hmay : ∀ x y, may r x y = true → r x y = true := fun x y h =>
    (may_cases h).elim id fun hnot => (htotal x y).resolve_right (by simp [hnot])
  exact ⟨fun x y z hxy hyz => htrans x y z hxy (hmay y z hyz),
    fun x y z hxy hyz => htrans x y z (hmay x y hxy) hyz⟩

theorem WeakOrder.of_strict (htrans : ∀ x y z, r x y = true → r y z = true → r x z = true)
    (hincomparable : ∀ x y z, r x z = true → r x y = true ∨ r y z = true) : WeakOrder r where
  trans_may x y z hxy hyz := by
    rcases may_cases hyz with hyz | hzy
    · exact htrans x y z hxy hyz
    · refine (hincomparable x z y hxy).resolve_right ?_
      rw [hzy]
      exact Bool.false_ne_true
  may_trans x y z hxy hyz := by
    rcases may_cases hxy with hxy | hyx
    · exact htrans x y z hxy hyz
    · refine (hincomparable y x z hyz).resolve_left ?_
      rw [hyx]
      exact Bool.false_ne_true

/-! ## Merging -/

section Merge

variable {xs ys : List α} {Q : α → α → Prop}

/-- What holds of short lists, and of two halves when they are merged. -/
theorem mergeSort_induction (r : α → α → Bool) {P : List α → List α → Prop}
    (hshort : ∀ xs : List α, xs.length < 2 → P xs xs)
    (hmerge : ∀ xs ys : List α, P xs (xs.mergeSort r) → P ys (ys.mergeSort r) →
      P (xs ++ ys) (List.merge (xs.mergeSort r) (ys.mergeSort r) r)) (xs : List α) :
    P xs (xs.mergeSort r) := by
  induction hn : xs.length using Nat.strong_induction_on generalizing xs with
  | _ n ih =>
    by_cases hlen : 2 ≤ xs.length
    · have hsplit := List.take_append_drop ((xs.length + 1) / 2) xs
      have hleft := ih (xs.take ((xs.length + 1) / 2)).length
        (by rw [List.length_take]; omega) _ rfl
      have hright := ih (xs.drop ((xs.length + 1) / 2)).length
        (by rw [List.length_drop]; omega) _ rfl
      have hboth := hmerge _ _ hleft hright
      rwa [hsplit, ← mergeSort_eq_merge r hlen] at hboth
    · have hself : xs.mergeSort r = xs := by
        match xs, hlen with
        | [], _ => exact List.mergeSort_nil
        | [x], _ => exact List.mergeSort_singleton x
        | x :: y :: xs, hlen =>
          simp only [List.length_cons] at hlen
          omega
      rw [hself]
      exact hshort xs (Nat.not_le.mp hlen)

theorem sublist_merge (r : α → α → Bool) (xs ys : List α) :
    xs.Sublist (List.merge xs ys r) ∧ ys.Sublist (List.merge xs ys r) := by
  induction xs generalizing ys with
  | nil =>
    rw [List.nil_merge]
    exact ⟨List.nil_sublist ys, .refl ys⟩
  | cons x xs ihx =>
    induction ys with
    | nil =>
      rw [List.merge_right]
      exact ⟨.refl _, List.nil_sublist _⟩
    | cons y ys ihy =>
      rw [List.cons_merge_cons]
      split
      · obtain ⟨hleft, hright⟩ := ihx (y :: ys)
        exact ⟨hleft.cons_cons x, hright.cons x⟩
      · obtain ⟨hleft, hright⟩ := ihy
        exact ⟨hleft.cons y, hright.cons_cons y⟩

/-- Merging lists that are in order, and in another order as they stand: it must let the
elements of one list stand before those of the other the way the merge puts them. -/
theorem WeakOrder.pairwise_merge (h : WeakOrder r)
    (hxs : xs.Pairwise fun x y => may r x y = true) (hys : ys.Pairwise fun x y => may r x y = true)
    (hleft : xs.Pairwise Q) (hright : ys.Pairwise Q)
    (hacross : ∀ x ∈ xs, ∀ y ∈ ys, r x y = true → Q x y)
    (hback : ∀ x ∈ xs, ∀ y ∈ ys, r x y = false → Q y x) :
    (List.merge xs ys r).Pairwise Q := by
  induction xs generalizing ys with
  | nil => rwa [List.nil_merge]
  | cons x xs ihx =>
    induction ys with
    | nil => rwa [List.merge_right]
    | cons y ys ihy =>
      rw [List.cons_merge_cons]
      rw [List.pairwise_cons] at hxs hys
      cases hxy : r x y with
      | true =>
        rw [if_pos rfl, List.pairwise_cons]
        rw [List.pairwise_cons] at hleft
        refine ⟨fun z hz => ?_, ihx hxs.2 (List.pairwise_cons.mpr hys) hleft.2 hright
          (fun a ha => hacross a (List.mem_cons_of_mem x ha))
          fun a ha => hback a (List.mem_cons_of_mem x ha)⟩
        rcases List.mem_merge.mp hz with hz | hz
        · exact hleft.1 z hz
        · -- `x` is before `y`, and so before what comes after it
          refine hacross x List.mem_cons_self z hz ?_
          rcases List.mem_cons.mp hz with rfl | hmem
          · exact hxy
          · exact h.trans_may x y z hxy (hys.1 z hmem)
      | false =>
        rw [if_neg Bool.false_ne_true, List.pairwise_cons]
        rw [List.pairwise_cons] at hright
        refine ⟨fun z hz => ?_, ihy hys.2 hright.2
          (fun a ha b hb => hacross a ha b (List.mem_cons_of_mem y hb))
          fun a ha b hb => hback a ha b (List.mem_cons_of_mem y hb)⟩
        rcases List.mem_merge.mp hz with hz | hz
        · -- what comes after `x` is no more before `y` than `x` is
          refine hback z hz y List.mem_cons_self (Bool.eq_false_iff.mpr fun hzy => ?_)
          rcases List.mem_cons.mp hz with rfl | hmem
          · rw [hxy] at hzy
            cases hzy
          · have hboth := h.may_trans x z y (hxs.1 z hmem) hzy
            rw [hxy] at hboth
            cases hboth
        · exact hright.1 z hz

/-- An element of the second list comes before those of the first that are not before it. -/
theorem WeakOrder.merge_before (h : WeakOrder r)
    (hys : ys.Pairwise fun x y => may r x y = true) (hmerged : (List.merge xs ys r).Pairwise Q)
    {x y : α} (hx : x ∈ xs) (hy : y ∈ ys) (hxy : r x y = false) : Q y x := by
  induction xs generalizing ys with
  | nil => cases hx
  | cons a xs ihx =>
    induction ys with
    | nil => cases hy
    | cons b ys ihy =>
      rw [List.cons_merge_cons] at hmerged
      rw [List.pairwise_cons] at hys
      cases hab : r a b with
      | true =>
        rw [hab, if_pos rfl, List.pairwise_cons] at hmerged
        rcases List.mem_cons.mp hx with rfl | hx
        · rcases List.mem_cons.mp hy with rfl | hy
          · rw [hab] at hxy
            cases hxy
          · have hbefore := h.trans_may x b y hab (hys.1 y hy)
            rw [hxy] at hbefore
            cases hbefore
        · exact ihx (List.pairwise_cons.mpr hys) hmerged.2 hx hy
      | false =>
        rw [hab, if_neg Bool.false_ne_true, List.pairwise_cons] at hmerged
        rcases List.mem_cons.mp hy with rfl | hy
        · exact hmerged.1 x (List.mem_merge_left r hx)
        · exact ihy hys.2 hmerged.2 hy

end Merge

/-! ## Sorting -/

section Sorting

variable {Q : α → α → Prop}

theorem pairwise_of_short {xs : List α} (hlen : xs.length < 2) : xs.Pairwise Q := by
  cases xs with
  | nil => exact .nil
  | cons x xs =>
    rw [List.length_cons] at hlen
    rw [List.length_eq_zero_iff.mp (by omega : xs.length = 0)]
    exact List.pairwise_singleton Q x

theorem WeakOrder.pairwise_mergeSort (h : WeakOrder r) (xs : List α) :
    (xs.mergeSort r).Pairwise fun x y => may r x y = true := by
  refine mergeSort_induction r (P := fun _ zs => zs.Pairwise fun x y => may r x y = true)
    (fun _ hlen => pairwise_of_short hlen) (fun xs ys hxs hys => ?_) xs
  exact h.pairwise_merge hxs hys hxs hys (fun _ _ _ _ hxy => may_of hxy)
    fun _ _ _ _ hxy => may_of_not hxy

/-- Sorting a list that is in order by `Q`: it stays so where `Q` lets the elements stand that
the sort exchanges, those that are not before the ones they stand after. -/
theorem WeakOrder.pairwise_mergeSort_iff (h : WeakOrder r) (hrefl : ∀ x, Q x x) (xs : List α) :
    xs.Pairwise Q →
      ((xs.mergeSort r).Pairwise Q ↔ ∀ x ∈ xs, ∀ y ∈ xs, r y x = false → Q x y) := by
  refine mergeSort_induction r (P := fun xs zs => xs.Pairwise Q →
      (zs.Pairwise Q ↔ ∀ x ∈ xs, ∀ y ∈ xs, r y x = false → Q x y))
    (fun xs hlen hxs => ?_) (fun xs ys ihx ihy hboth => ?_) xs
  · refine iff_of_true hxs fun x hx y hy _ => ?_
    obtain ⟨i, hi, rfl⟩ := List.mem_iff_getElem.mp hx
    obtain ⟨j, hj, rfl⟩ := List.mem_iff_getElem.mp hy
    obtain rfl : i = j := by omega
    exact hrefl _
  · obtain ⟨hxs, hys, hacross⟩ := List.pairwise_append.mp hboth
    have hleft := h.pairwise_mergeSort xs
    have hright := h.pairwise_mergeSort ys
    constructor
    · intro hmerged
      have hsubs := sublist_merge r (xs.mergeSort r) (ys.mergeSort r)
      have hx := (ihx hxs).mp (hmerged.sublist hsubs.1)
      have hy := (ihy hys).mp (hmerged.sublist hsubs.2)
      intro a ha b hb hba
      rcases List.mem_append.mp ha with hax | hay <;> rcases List.mem_append.mp hb with hbx | hby
      · exact hx a hax b hbx hba
      · exact hacross a hax b hby
      · exact h.merge_before hright hmerged (List.mem_mergeSort.mpr hbx)
          (List.mem_mergeSort.mpr hay) hba
      · exact hy a hay b hby hba
    · intro hexchanged
      have hx := (ihx hxs).mpr fun a ha b hb =>
        hexchanged a (List.mem_append_left ys ha) b (List.mem_append_left ys hb)
      have hy := (ihy hys).mpr fun a ha b hb =>
        hexchanged a (List.mem_append_right xs ha) b (List.mem_append_right xs hb)
      refine h.pairwise_merge hleft hright hx hy (fun a ha b hb _ => ?_) fun a ha b hb hab => ?_
      · exact hacross a (List.mem_mergeSort.mp ha) b (List.mem_mergeSort.mp hb)
      · exact hexchanged b (List.mem_append_right xs (List.mem_mergeSort.mp hb)) a
          (List.mem_append_left ys (List.mem_mergeSort.mp ha)) hab

end Sorting

end ProtoST.Lib.WeakOrders

import ProtoST.Collections.HashedContent
import ProtoST.Collections.UserEquality

/-!
# Membership

How the operations of the collections decide whether a value is present: `includes:`,
`indexOf:` and `occurrencesOf:` of the sequences send `=`, the hashed collections look up
keys, and `remove:` of an OrderedCollection, a Bag and the values of a Dictionary compare
natively.  `Decides` says that they all decide by one relation, the equality of keys.

## Main results

* `oneMembership_iff` — they do for the elements on which the three comparisons agree, and for
  no others.
* `not_oneMembership_record` — they do not for an object that equals an element by its class's
  own `=`.
-/

namespace ProtoST.Collections

open Lib

variable {O M : Type} [DecidableEq O] [Protocol O]

/-! ## The sequences -/

/-- `Collection>>includes:`, `anySatisfy: [:each | each = anObject]`. -/
def seqIncludes (x : Value O) : List (Value O) → Option Bool
  | [] => some false
  | e :: es => do
      if ← sendEquals e x then pure true else seqIncludes x es

/-- `SequenceableCollection>>indexOf:`, from the index `i` on. -/
def indexOfFrom (x : Value O) : Nat → List (Value O) → Option Nat
  | _, [] => some 0
  | i, e :: es => do
      if ← sendEquals e x then pure i else indexOfFrom x (i + 1) es

/-- `SequenceableCollection>>indexOf:`. -/
def indexOf (x : Value O) (es : List (Value O)) : Option Nat := indexOfFrom x 1 es

/-- `prim_OC_removeIfAbsent`: what is left, or `none` when the block is run. -/
def orderedRemove (x : Value O) (es : List (Value O)) : Option (List (Value O)) :=
  if es.any fun e => nativeEquals e x then some (es.eraseP fun e => nativeEquals e x) else none

/-- `ys` is `xs` without one element equal to `x`. -/
def TakesOutOne (x : Value O) (xs ys : List (Value O)) : Prop :=
  ∃ e, stKeyEquals e x = true ∧ xs.Perm (e :: ys)

/-- Whether `x` equals one of the elements, as keys. -/
def present (x : Value O) (xs : List (Value O)) : Bool := xs.any fun e => stKeyEquals e x

/-- How many of the elements `x` equals. -/
def occurrences (x : Value O) (xs : List (Value O)) : Nat := xs.countP fun e => stKeyEquals e x

variable [HashedMap (Value O) M]

/-- Every operation of every collection that holds the elements `xs` decides by the
equality of keys whether `x` is present, and a removal takes out one element equal to it. -/
structure Decides (Valid : M → Prop) (xs : List (Value O)) (x : Value O) : Prop where
  /-- An Array or an OrderedCollection. -/
  includes : seqIncludes x xs = some (present x xs)
  indexOf : ∃ i, indexOf x xs = some i ∧ (0 < i ↔ present x xs = true)
  occurrencesOf : Obj.countEquals x xs = some (occurrences x xs)
  remove : (orderedRemove x xs).isSome = present x xs ∧
    ∀ ys ∈ orderedRemove x xs, TakesOutOne x xs ys
  /-- A Bag. -/
  bag : ∀ r : Obj O M, r.cls = .bag → r.listData = xs →
    (r.bagIncludes x).1 = present x xs ∧ (r.bagOccurrencesOf x).1 = occurrences x xs ∧
      (r.bagRemove x).1.isSome = present x xs ∧
        (present x xs = true → TakesOutOne x xs (r.bagRemove x).2.listData)
  /-- The values of a Dictionary. -/
  values : ∀ r : Obj O M, r.cls = .dictionary → r.forEachElement = xs →
    (r.dictIncludes x).1 = present x xs ∧ (r.occurrencesOf x).1 = some (occurrences x xs)
  /-- The Set of the elements. -/
  set : ∀ r : Obj O M, r = Obj.ofSpecies .set xs →
    (r.setIncludes x).1 = present x xs ∧
      (r.occurrencesOf x).1 = some (if present x xs then 1 else 0) ∧
        (r.setRemove x).1.isSome = present x xs ∧
          (present x xs = true → TakesOutOne x r.forEachElement (r.setRemove x).2.forEachElement)
  /-- A Dictionary with these keys. -/
  keys : ∀ r : Obj O M, r.WF Valid → r.cls = .dictionary → r.hashedEntries.map (·.1) = xs →
    (r.dictLookup x).1.isSome = present x xs

/-- One relation decides before and after `x` is added, and then `x` is present. -/
def OneMembership (Valid : M → Prop) (xs : List (Value O)) (x : Value O) : Prop :=
  Decides Valid xs x ∧ Decides Valid (xs ++ [x]) x ∧ present x (xs ++ [x]) = true

/-- The send of `=` and the native comparison answer for `e` and `x` as the equality of
keys does. -/
def Agree (e x : Value O) : Prop :=
  sendEquals e x = some (stKeyEquals e x) ∧ nativeEquals e x = stKeyEquals e x

instance (e x : Value O) : Decidable (Agree e x) := inferInstanceAs (Decidable (_ ∧ _))

/-! ## Where the comparisons agree -/

section Agree

omit [HashedMap (Value O) M]

variable {x : Value O} {xs : List (Value O)}

theorem seqIncludes_of_agree (h : ∀ e ∈ xs, sendEquals e x = some (stKeyEquals e x)) :
    seqIncludes x xs = some (present x xs) := by
  induction xs with
  | nil => rfl
  | cons e es ih =>
      rw [List.forall_mem_cons] at h
      rw [seqIncludes, h.1, ih h.2, present, present, List.any_cons]
      cases stKeyEquals e x <;> rfl

theorem indexOfFrom_of_agree (h : ∀ e ∈ xs, sendEquals e x = some (stKeyEquals e x)) (i : Nat) :
    ∃ j, indexOfFrom x (i + 1) xs = some j ∧ (0 < j ↔ present x xs = true) := by
  induction xs generalizing i with
  | nil => exact ⟨0, rfl, by simp [present]⟩
  | cons e es ih =>
      rw [List.forall_mem_cons] at h
      rw [indexOfFrom, h.1, present, List.any_cons]
      cases stKeyEquals e x with
      | true => exact ⟨i + 1, rfl, by simp⟩
      | false => exact ih h.2 (i + 1)

/-- Counting sends `=` to every element, and each must answer. -/
theorem agree_of_countEquals (hO : Lawful O) {n : Nat} (h : Obj.countEquals x xs = some n) :
    n ≤ occurrences x xs ∧
      (n = occurrences x xs → ∀ e ∈ xs, sendEquals e x = some (stKeyEquals e x)) := by
  induction xs generalizing n with
  | nil =>
      obtain rfl := Option.some.inj h
      exact ⟨le_rfl, by simp⟩
  | cons e es ih =>
      rw [Obj.countEquals] at h
      obtain ⟨found, hfound, h⟩ := Option.bind_eq_some_iff.mp h
      obtain ⟨m, hm, h⟩ := Option.bind_eq_some_iff.mp h
      obtain rfl := Option.some.inj h
      have hrest := ih hm
      rw [occurrences, List.countP_cons, ← occurrences]
      cases hkey : stKeyEquals e x with
      | true =>
          cases found with
          | true =>
              refine ⟨by simpa using hrest.1, fun heq => ?_⟩
              rw [List.forall_mem_cons, hfound, hkey]
              exact ⟨rfl, hrest.2 (by simpa using heq)⟩
          | false =>
              have hle := hrest.1
              refine ⟨by simp; omega, fun heq => ?_⟩
              simp at heq
              omega
      | false =>
          cases found with
          | true =>
              rw [sendEquals_le hO hfound] at hkey
              cases hkey
          | false =>
              refine ⟨by simpa using hrest.1, fun heq => ?_⟩
              rw [List.forall_mem_cons, hfound, hkey]
              exact ⟨rfl, hrest.2 (by simpa using heq)⟩

/-- A search that takes out what it finds. -/
theorem takesOutOne_eraseP (h : ∀ e ∈ xs, nativeEquals e x = stKeyEquals e x)
    (hx : present x xs = true) : TakesOutOne x xs (xs.eraseP fun e => nativeEquals e x) := by
  obtain ⟨e, he, hex⟩ := List.any_eq_true.mp hx
  rw [Keyed.eraseP_congr h]
  obtain ⟨a, l, r, -, hax, hxs, herase⟩ :=
    List.exists_of_eraseP (p := fun e => stKeyEquals e x) he hex
  refine ⟨a, hax, ?_⟩
  rw [herase]
  nth_rewrite 1 [hxs]
  exact List.perm_middle

end Agree

/-! ## Bags, Sets and Dictionaries -/

section Lawful
variable {x : Value O} {xs : List (Value O)} {r : Obj O M} {Valid : M → Prop}

omit [HashedMap (Value O) M] in
theorem bag_of_agree (h : ∀ e ∈ xs, nativeEquals e x = stKeyEquals e x) (hr : r.listData = xs) :
    (r.bagIncludes x).1 = present x xs ∧ (r.bagOccurrencesOf x).1 = occurrences x xs ∧
      (r.bagRemove x).1.isSome = present x xs ∧
        (present x xs = true → TakesOutOne x xs (r.bagRemove x).2.listData) := by
  have hany : (r.listData.any fun e => nativeEquals e x) = present x xs := by
    rw [hr]
    exact Keyed.any_congr_on h
  refine ⟨hany, ?_, ?_, fun hx => ?_⟩
  · rw [Obj.bagOccurrencesOf, hr]
    exact List.countP_congr fun e he => by rw [h e he]
  · rw [Obj.bagRemove, hany]
    cases present x xs <;> rfl
  · rw [Obj.bagRemove, hany, if_pos hx, Obj.setData_listData, hr]
    exact takesOutOne_eraseP h hx

theorem orderedRemove_of_agree (h : ∀ e ∈ xs, nativeEquals e x = stKeyEquals e x) :
    (orderedRemove x xs).isSome = present x xs ∧
      ∀ ys ∈ orderedRemove x xs, TakesOutOne x xs ys := by
  have hany : (xs.any fun e => nativeEquals e x) = present x xs := Keyed.any_congr_on h
  unfold orderedRemove
  rw [hany]
  cases hx : present x xs with
  | false => exact ⟨rfl, by simp⟩
  | true =>
      refine ⟨rfl, fun ys hys => ?_⟩
      obtain rfl := Option.some.inj hys
      exact takesOutOne_eraseP h hx

/-- The elements that a Set stores are among those added to it. -/
theorem setAdd_stored (hM : HashedMap.Lawful (M := M) (stKeySemantics (O := O)) Valid)
    (hr : r.WF Valid) (hcls : r.cls = .set) (e : Value O) {v : Value O}
    (hv : v ∈ (r.setAdd e).2.hashedEntries.map (·.1)) :
    v = e ∨ v ∈ r.hashedEntries.map (·.1) := by
  unfold Obj.setAdd at hv
  split at hv
  · obtain ⟨entry, hentry, rfl⟩ := List.mem_map.mp hv
    have hperm := (hM.put (hr.valid (by simp [hcls])) e e).2
    rcases Keyed.store_keys (hperm.mem_iff.mp hentry) with ⟨hkey, -⟩ | ⟨f, hf, hkey⟩
    · exact .inl hkey
    · exact .inr (List.mem_map.mpr ⟨f, hf, hkey⟩)
  · exact .inr hv

theorem foldl_setAdd_stored (hO : Lawful O)
    (hM : HashedMap.Lawful (M := M) (stKeySemantics (O := O)) Valid)
    (hr : r.WF Valid) (hcls : r.cls = .set) {v : Value O}
    (hv : v ∈ (xs.foldl (fun s e => (s.setAdd e).2) r).hashedEntries.map (·.1)) :
    v ∈ xs ∨ v ∈ r.hashedEntries.map (·.1) := by
  induction xs generalizing r with
  | nil => exact .inr hv
  | cons e es ih =>
      have hadd := Obj.setAdd_matches hO hM hr hcls e
      have hnext : (r.setAdd e).2.cls = .set := by
        rw [← Obj.content_cls, hadd.content, Obj.content_set hcls]
        rfl
      rcases ih hadd.wf hnext hv with hmem | hold
      · exact .inl (List.mem_cons_of_mem e hmem)
      · rcases setAdd_stored hM hr hcls e hold with rfl | hold
        · exact .inl (by simp)
        · exact .inr hold

variable (hO : Lawful O) (hM : HashedMap.Lawful (M := M) (stKeySemantics (O := O)) Valid)
include hM

/-- A Set finds an element by the equality of keys. -/
theorem setIncludes_eq (hr : r.WF Valid) (hcls : r.cls = .set) {S : Value O → Bool}
    (hS : r.content = .set S) : (r.setIncludes x).1 = S x := by
  have hmatch := Obj.setIncludes_matches hM hr hcls x
  rw [hmatch.answer, hS]
  rfl

include hO

omit hO in
theorem setRemove_takesOut (hr : r.WF Valid) (hcls : r.cls = .set) {S : Value O → Bool}
    (hS : r.content = .set S) :
    (r.setRemove x).1.isSome = S x ∧
      (S x = true → TakesOutOne x r.forEachElement (r.setRemove x).2.forEachElement) := by
  have hne : r.cls ≠ .bag := by simp [hcls]
  have hlookup : S x = (Keyed.lookup stKeyEquals x r.hashedEntries).isSome := by
    rw [Obj.content_set hcls] at hS
    rw [← Content.set.inj hS]
  unfold Obj.setRemove
  rw [hr.get hM hne, hlookup]
  cases hfound : Keyed.lookup stKeyEquals x r.hashedEntries with
  | none => simp
  | some v =>
      refine ⟨rfl, fun _ => ?_⟩
      obtain ⟨e, he, -, hex⟩ := Keyed.mem_of_lookup hfound
      have hperm : (HashedMap.hashedForEach
          (HashedMap.hashedRemove r.mapData stKeySemantics x)).Perm
            (Keyed.delete stKeyEquals x r.hashedEntries) := (hM.remove (hr.valid hne) x).2
      obtain ⟨a, l, t, -, hax, hes, herase⟩ :=
        List.exists_of_eraseP (p := fun e : Value O × Value O => stKeyEquals e.1 x) he hex
      refine ⟨a.1, hax, ?_⟩
      simp only [reduceCtorEq, if_false, Obj.forEachElement, hcls, Obj.setHashedData_cls,
        Obj.setHashedData_hashedEntries]
      refine List.Perm.trans ?_ ((hperm.symm.map (·.1)).cons a.1)
      rw [Keyed.delete, herase]
      nth_rewrite 1 [hes]
      rw [List.map_append, List.map_cons, List.map_append]
      exact List.perm_middle

/-- The operations decide for elements on which the comparisons agree. -/
theorem decides_of_agree (h : ∀ e ∈ xs, Agree e x) : Decides Valid xs x where
  includes := seqIncludes_of_agree fun e he => (h e he).1
  indexOf := indexOfFrom_of_agree (fun e he => (h e he).1) 0
  occurrencesOf := countEquals_of_agrees fun e he => (h e he).1
  remove := orderedRemove_of_agree fun e he => (h e he).2
  bag r hcls hr := bag_of_agree (fun e he => (h e he).2) hr
  values r hcls hr := by
    subst hr
    exact ⟨Keyed.any_congr_on fun e he => (h e he).2,
      countEquals_of_agrees fun e he => (h e he).1⟩
  set r hr := by
    have hspecies : Class.set ≠ .dictionary := by simp
    obtain ⟨hwf, hcontent⟩ := Obj.ofSpecies_matches hO hM hspecies xs
    have hcls : r.cls = .set := by
      rw [hr, ← Obj.content_cls, hcontent]
      rfl
    rw [← hr] at hwf hcontent
    have hremove := setRemove_takesOut (x := x) hM hwf hcls hcontent
    refine ⟨setIncludes_eq hM hwf hcls hcontent, ?_, hremove.1, hremove.2⟩
    have hempty : (Obj.new .set : Obj O M).hashedEntries = [] := hM.new.2
    have helements : r.forEachElement = r.hashedEntries.map (·.1) := by
      simp [Obj.forEachElement, hcls]
    have hstored : ∀ e ∈ r.forEachElement, sendEquals e x = some (stKeyEquals e x) := by
      intro e he
      rw [helements, hr] at he
      have hnew := Obj.new_matches (O := O) hM .set
      rcases foldl_setAdd_stored hO hM hnew.1 rfl he with hmem | hmem
      · exact (h e hmem).1
      · simp [hempty] at hmem
    have hpresent : (Keyed.lookup stKeyEquals x r.hashedEntries).isSome = present x xs := by
      rw [Obj.content_set hcls] at hcontent
      exact congrFun (Content.set.inj hcontent) x
    rw [Obj.occurrencesOf, countEquals_of_agrees hstored, helements, List.countP_map, ← hpresent]
    exact congrArg some (Keyed.countP_of_distinct hO.equivalence (hwf.distinct hM (by simp [hcls])))
  keys r hwf hcls hkeys := by
    rw [Obj.dictLookup, hwf.get hM (by simp [hcls]), Keyed.lookup_isSome_iff, ← hkeys, present,
      List.any_map]
    rfl

/-- The operations decide by one relation exactly for the elements, and the value itself,
on which the three comparisons agree. -/
theorem oneMembership_iff (xs : List (Value O)) (x : Value O) :
    OneMembership Valid xs x ↔ ∀ e ∈ x :: xs, Agree e x := by
  have hmem : ∀ e, e ∈ xs ++ [x] ↔ e ∈ x :: xs := by
    intro e
    rw [List.mem_append, List.mem_singleton, List.mem_cons, or_comm]
  constructor
  · rintro ⟨-, hdecides, -⟩ e he
    have hsend := (agree_of_countEquals hO hdecides.occurrencesOf).2 rfl
    obtain ⟨-, hcount, -⟩ :=
      hdecides.bag { cls := .bag, data := some (.list (xs ++ [x])), size := none } rfl rfl
    have hnative := Keyed.eq_on_of_countP_eq (fun e => nativeEquals_le hO (a := e) (b := x)) hcount
    exact ⟨hsend e ((hmem e).mpr he), hnative e ((hmem e).mpr he)⟩
  · intro h
    refine ⟨decides_of_agree hO hM fun e he => h e (List.mem_cons_of_mem x he),
      decides_of_agree hO hM fun e he => h e ((hmem e).mp he), ?_⟩
    exact List.any_eq_true.mpr ⟨x, by simp, hO.refl x⟩

end Lawful

/-- Integers: `1` among `1` and `2`. -/
theorem oneMembership_iff_integers :
    OneMembership (O := Record) (M := List (Value Record × Value Record))
      (Keyed.Distinct stKeyEquals) [integer 1, integer 2] (integer 1) :=
  (oneMembership_iff record_lawful entries_lawful [integer 1, integer 2] (integer 1)).mpr
    (by decide)

/-- An object that equals an element by its class's own `=`: `includes:` of an
OrderedCollection finds it and `remove:` does not, nor does a Bag. -/
theorem not_oneMembership_record :
    ¬ ∀ (xs : List (Value Record)) (x : Value Record),
      OneMembership (M := List (Value Record × Value Record))
        (Keyed.Distinct stKeyEquals) xs x := by
  intro h
  have hremove := (h [.object ⟨1, 0⟩] (.object ⟨1, 1⟩)).1.remove.1
  exact absurd hremove (by decide)

end ProtoST.Collections

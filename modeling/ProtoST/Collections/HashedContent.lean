import ProtoST.Collections.FiniteMaps
import Mathlib.Data.List.Count

/-!
# What the hashed collections stand for

A Set stands for a finite set, a Bag for a multiset and a Dictionary for a finite map, all
keyed by the equality of keys (`Obj.content`).  A well-formed collection lists its entries
once each and reports their number (`Obj.WF`).

## Main results

* `Obj.WF.enumerates`, `Obj.WF.elementCount_eq` — an iteration lists the content, and the
  count is that of the entries it visits.
* `Obj.setAdd_matches`, `Obj.dictStore_matches` and their like — each method does to the
  content what the operation of the finite set, multiset or map does.
-/

namespace ProtoST.Collections

open Lib

variable {O M : Type}

namespace Obj

@[simp] theorem setHashedData_cls (r : Obj O M) (m : M) (n : Int) :
    (r.setHashedData m n).cls = r.cls := rfl

@[simp] theorem setHashedData_hashedSize (r : Obj O M) (m : M) (n : Int) :
    (r.setHashedData m n).hashedSize = n := rfl

@[simp] theorem setData_cls (r : Obj O M) (xs : List (Value O)) : (r.setData xs).cls = r.cls := rfl

@[simp] theorem setData_listData (r : Obj O M) (xs : List (Value O)) :
    (r.setData xs).listData = xs := rfl

variable [HashedMap (Value O) M]

@[simp] theorem setHashedData_mapData (r : Obj O M) (m : M) (n : Int) :
    (r.setHashedData m n).mapData = m := rfl

@[simp] theorem setHashedData_hashedEntries (r : Obj O M) (m : M) (n : Int) :
    (r.setHashedData m n).hashedEntries = HashedMap.hashedForEach m := rfl

/-- The keys are pairwise unequal, the count is the number of entries, and a Set holds each
element under itself. -/
structure WF (Valid : M → Prop) (r : Obj O M) : Prop where
  valid : r.cls ≠ .bag → Valid r.mapData
  size : r.cls ≠ .bag → r.hashedSize = r.hashedEntries.length
  self : r.cls = .set → ∀ e ∈ r.hashedEntries, e.2 = e.1

variable {Valid : M → Prop}

/-- A Bag is always well formed. -/
theorem WF.of_bag {r : Obj O M} (h : r.cls = .bag) : r.WF Valid where
  valid hne := absurd h hne
  size hne := absurd h hne
  self hset := by
    rw [h] at hset
    cases hset

/-- The entries of a collection, an element being listed with itself. -/
def listed (r : Obj O M) : List (Value O × Value O) :=
  match r.cls with
  | .bag => r.listData.map fun x => (x, x)
  | _ => r.hashedEntries

/-- An iteration visits the values listed. -/
theorem WF.forEachElement_eq {r : Obj O M} (hr : r.WF Valid) :
    r.forEachElement = r.listed.map (·.2) := by
  cases hcls : r.cls with
  | set =>
      simp only [forEachElement, listed, hcls]
      refine List.map_congr_left fun e he => ?_
      rw [hr.self hcls e he]
  | bag =>
      simp only [forEachElement, listed, hcls, List.map_map, Function.comp_def, List.map_id']
  | dictionary => simp only [forEachElement, listed, hcls]

/-- The count that a collection reports is the number of entries. -/
theorem WF.elementCount_eq {r : Obj O M} (hr : r.WF Valid) :
    (r.elementCount).1 = r.listed.length := by
  cases hcls : r.cls with
  | set => simp [elementCount, listed, hcls, hr.size (by simp [hcls])]
  | bag => simp [elementCount, listed, hcls]
  | dictionary => simp [elementCount, listed, hcls, hr.size (by simp [hcls])]

end Obj

variable [DecidableEq O] [Protocol O] [HashedMap (Value O) M]

/-! ## What a collection means -/

namespace Obj

/-- The finite set, multiset or map that a collection stands for. -/
def content (r : Obj O M) : Content O :=
  match r.cls with
  | .set => .set fun v => (Keyed.lookup stKeyEquals v r.hashedEntries).isSome
  | .bag => .bag fun v => r.listData.countP fun x => stKeyEquals x v
  | .dictionary => .dictionary fun k => Keyed.lookup stKeyEquals k r.hashedEntries

@[simp] theorem content_cls (r : Obj O M) : r.content.cls = r.cls := by
  unfold content
  cases r.cls <;> rfl

theorem content_set {r : Obj O M} (h : r.cls = .set) :
    r.content = .set fun v => (Keyed.lookup stKeyEquals v r.hashedEntries).isSome := by
  simp [content, h]

theorem content_bag {r : Obj O M} (h : r.cls = .bag) :
    r.content = .bag fun v => r.listData.countP fun x => stKeyEquals x v := by
  simp [content, h]

theorem content_dictionary {r : Obj O M} (h : r.cls = .dictionary) :
    r.content = .dictionary fun k => Keyed.lookup stKeyEquals k r.hashedEntries := by
  simp [content, h]

end Obj

omit [HashedMap (Value O) M] in
/-- Counting succeeds when every comparison does. -/
theorem countEquals_of_agrees {x : Value O} {es : List (Value O)}
    (h : ∀ e ∈ es, sendEquals e x = some (stKeyEquals e x)) :
    Obj.countEquals x es = some (es.countP fun e => stKeyEquals e x) := by
  induction es with
  | nil => rfl
  | cons e es ih =>
      rw [List.forall_mem_cons] at h
      rw [Obj.countEquals, h.1, ih h.2, List.countP_cons]
      rfl

section Lawful
variable (hO : Lawful O) {Valid : M → Prop}
  (hM : HashedMap.Lawful (M := M) (stKeySemantics (O := O)) Valid)
include hO hM

/-! ## The methods -/

namespace Obj

variable {r : Obj O M}

omit hO in
theorem WF.get (hr : r.WF Valid) (hcls : r.cls ≠ .bag) (k : Value O) :
    HashedMap.hashedGet r.mapData stKeySemantics k =
      Keyed.lookup stKeyEquals k r.hashedEntries := hM.get (hr.valid hcls) k

omit hO in
theorem WF.distinct (hr : r.WF Valid) (hcls : r.cls ≠ .bag) :
    Keyed.Distinct stKeyEquals r.hashedEntries := hM.distinct (hr.valid hcls)

omit hO in
/-- The content is listed by the entries, each once. -/
theorem WF.enumerates (hr : r.WF Valid) : r.content.Enumerates r.listed := by
  cases hcls : r.cls with
  | set =>
      rw [content_set hcls]
      simp only [listed, hcls]
      exact ⟨hr.distinct hM (by simp [hcls]), hr.self hcls, fun v => rfl⟩
  | bag =>
      rw [content_bag hcls]
      simp only [listed, hcls]
      refine ⟨?_, fun v => ?_⟩
      · intro e he
        obtain ⟨x, -, rfl⟩ := List.mem_map.mp he
        rfl
      · rw [List.map_map, Function.comp_def, List.map_id']
  | dictionary =>
      rw [content_dictionary hcls]
      simp only [listed, hcls]
      exact ⟨hr.distinct hM (by simp [hcls]), fun v => rfl⟩

omit hO in
/-- Putting an entry keeps a collection well formed. -/
theorem WF.put (hr : r.WF Valid) (hcls : r.cls ≠ .bag) (k v : Value O)
    (hself : r.cls = .set → v = k ∧ Keyed.lookup stKeyEquals k r.hashedEntries = none) :
    (r.setHashedData (HashedMap.hashedPut r.mapData stKeySemantics k v)
      (r.hashedSize +
        if (Keyed.lookup stKeyEquals k r.hashedEntries).isSome then 0 else 1)).WF Valid := by
  obtain ⟨hvalid, hperm⟩ := hM.put (hr.valid hcls) k v
  refine ⟨fun _ => hvalid, fun _ => ?_, fun hset => ?_⟩
  · have hlength : (HashedMap.hashedForEach
        (HashedMap.hashedPut r.mapData stKeySemantics k v)).length = r.hashedEntries.length +
          if (Keyed.lookup stKeyEquals k r.hashedEntries).isSome then 0 else 1 :=
      hperm.length_eq.trans Keyed.length_store
    rw [setHashedData_hashedSize, setHashedData_hashedEntries, hlength, hr.size hcls]
    split <;> simp
  · intro e he
    have hmem : e ∈ Keyed.store stKeyEquals k v r.hashedEntries := hperm.mem_iff.mp he
    obtain ⟨rfl, hnone⟩ := hself hset
    rw [Keyed.store_of_lookup_eq_none hnone] at hmem
    rcases List.mem_append.mp hmem with hold | hnew
    · exact hr.self hset e hold
    · rw [List.mem_singleton.mp hnew]

omit hO in
/-- Removing an entry that is there keeps a collection well formed. -/
theorem WF.remove (hr : r.WF Valid) (hcls : r.cls ≠ .bag) {k v : Value O}
    (hfound : Keyed.lookup stKeyEquals k r.hashedEntries = some v) :
    (r.setHashedData (HashedMap.hashedRemove r.mapData stKeySemantics k)
      (r.hashedSize - 1)).WF Valid := by
  obtain ⟨hvalid, hperm⟩ := hM.remove (hr.valid hcls) k
  refine ⟨fun _ => hvalid, fun _ => ?_, fun hset => ?_⟩
  · have hlength := Keyed.length_delete hfound
    rw [setHashedData_hashedSize, setHashedData_hashedEntries, hperm.length_eq, hr.size hcls]
    change _ = ((Keyed.delete stKeyEquals k r.hashedEntries).length : Int)
    omega
  · intro e he
    exact hr.self hset e (List.mem_of_mem_eraseP (hperm.mem_iff.mp he))

/-- What is found after an entry is put. -/
theorem WF.lookup_put (hr : r.WF Valid) (hcls : r.cls ≠ .bag) (k v l : Value O) :
    Keyed.lookup stKeyEquals l
        (HashedMap.hashedForEach (HashedMap.hashedPut r.mapData stKeySemantics k v)) =
      if stKeyEquals k l then some v else Keyed.lookup stKeyEquals l r.hashedEntries := by
  obtain ⟨hvalid, hperm⟩ := hM.put (hr.valid hcls) k v
  rw [Keyed.lookup_perm hO.equivalence (hM.distinct hvalid) hperm]
  exact Keyed.lookup_store hO.equivalence

/-- What is found after an entry is removed. -/
theorem WF.lookup_remove (hr : r.WF Valid) (hcls : r.cls ≠ .bag) (k l : Value O) :
    Keyed.lookup stKeyEquals l
        (HashedMap.hashedForEach (HashedMap.hashedRemove r.mapData stKeySemantics k)) =
      if stKeyEquals k l then none else Keyed.lookup stKeyEquals l r.hashedEntries := by
  obtain ⟨hvalid, hperm⟩ := hM.remove (hr.valid hcls) k
  rw [Keyed.lookup_perm hO.equivalence (hM.distinct hvalid) hperm]
  exact Keyed.lookup_delete hO.equivalence (hM.distinct (hr.valid hcls))

end Obj

/-- What an operation does to a collection and to its content. -/
structure Obj.Matches {α : Type} (Valid : M → Prop) (r : Obj O M) (run : α × Obj O M)
    (operation : α × Content O) : Prop where
  answer : run.1 = operation.1
  content : run.2.content = operation.2
  wf : run.2.WF Valid

namespace Obj

variable {r : Obj O M}

theorem setAdd_matches (hr : r.WF Valid) (hcls : r.cls = .set) (e : Value O) :
    r.Matches Valid (r.setAdd e) (r.content.insert e) := by
  have hne : r.cls ≠ .bag := by simp [hcls]
  unfold setAdd
  rw [content_set hcls, hr.get hM hne]
  split
  · rename_i hnone
    have hwf := hr.put hM hne e e fun _ => ⟨rfl, hnone⟩
    rw [hnone] at hwf
    refine ⟨rfl, ?_, hwf⟩
    rw [content_set (by simpa using hcls), setHashedData_hashedEntries]
    refine congrArg Content.set (funext fun v => ?_)
    rw [hr.lookup_put hO hM hne, Bool.or_comm]
    cases stKeyEquals e v <;> rfl
  · rename_i hfound
    refine ⟨rfl, ?_, hr⟩
    rw [content_set hcls]
    refine congrArg Content.set (funext fun v => ?_)
    cases hev : stKeyEquals e v
    · rw [Bool.or_false]
    · rw [← Keyed.lookup_congr hO.equivalence hev, Bool.or_true]
      exact Option.isSome_iff_ne_none.mpr hfound

theorem setRemove_matches (hr : r.WF Valid) (hcls : r.cls = .set) (e : Value O) :
    r.Matches Valid (r.setRemove e) (r.content.erase e) := by
  have hne : r.cls ≠ .bag := by simp [hcls]
  unfold setRemove
  rw [content_set hcls, hr.get hM hne, Content.erase]
  split
  · rename_i hnone
    rw [hnone, if_neg (by simp)]
    exact ⟨rfl, content_set hcls, hr⟩
  · rename_i hfound
    obtain ⟨v, hv⟩ := Option.ne_none_iff_exists'.mp hfound
    rw [if_pos (Option.isSome_iff_ne_none.mpr hfound)]
    refine ⟨rfl, ?_, hr.remove hM hne hv⟩
    rw [content_set (by simpa using hcls), setHashedData_hashedEntries]
    refine congrArg Content.set (funext fun v => ?_)
    rw [hr.lookup_remove hO hM hne]
    cases stKeyEquals e v <;> simp

omit hO in
theorem setIncludes_matches (hr : r.WF Valid) (hcls : r.cls = .set) (e : Value O) :
    r.Matches Valid (r.setIncludes e) (r.content.mem e) := by
  unfold setIncludes
  rw [content_set hcls, hr.get hM (by simp [hcls])]
  exact ⟨rfl, content_set hcls, hr⟩

omit hO hM in
theorem bagAdd_matches (hcls : r.cls = .bag) (e : Value O) :
    r.Matches Valid (r.bagAdd e) (r.content.insert e) := by
  rw [content_bag hcls]
  refine ⟨rfl, ?_, WF.of_bag hcls⟩
  rw [bagAdd, content_bag (by simpa using hcls), setData_listData]
  refine congrArg Content.bag (funext fun v => ?_)
  rw [List.countP_append, List.countP_singleton]

omit hO hM in
/-- The occurrences equal to `e` are those that the search of a Bag takes for it. -/
theorem native_search (hcls : r.cls = .bag) {e : Value O}
    (hagree : ∀ x ∈ r.forEachElement, Comparison.native.ask x e = some (stKeyEquals x e)) :
    ∀ x ∈ r.listData, nativeEquals x e = stKeyEquals x e := by
  intro x hx
  simp only [forEachElement, hcls] at hagree
  exact Option.some.inj (hagree x hx)

omit hM in
theorem bagRemove_matches (hcls : r.cls = .bag) (e : Value O)
    (hagree : ∀ x ∈ r.forEachElement, Comparison.native.ask x e = some (stKeyEquals x e)) :
    r.Matches Valid (r.bagRemove e) (r.content.erase e) := by
  have hnative := native_search hcls hagree
  have hany : (r.listData.any fun x => nativeEquals x e) =
      decide (0 < r.listData.countP fun x => stKeyEquals x e) :=
    (Keyed.any_congr_on hnative).trans Keyed.any_eq_decide_countP
  unfold bagRemove
  rw [content_bag hcls, Content.erase, hany]
  by_cases hpos : 0 < r.listData.countP fun x => stKeyEquals x e
  · rw [if_pos hpos, if_pos (decide_eq_true hpos)]
    refine ⟨rfl, ?_, WF.of_bag hcls⟩
    rw [content_bag (by simpa using hcls), setData_listData]
    refine congrArg Content.bag (funext fun v => ?_)
    rw [Keyed.eraseP_congr hnative]
    exact Keyed.countP_eraseP hO.equivalence (List.countP_pos_iff.mp hpos)
  · rw [if_neg hpos, if_neg (by simpa using hpos)]
    exact ⟨rfl, content_bag hcls, WF.of_bag hcls⟩

omit hO hM in
theorem bagIncludes_matches (hcls : r.cls = .bag) (e : Value O)
    (hagree : ∀ x ∈ r.forEachElement, Comparison.native.ask x e = some (stKeyEquals x e)) :
    r.Matches Valid (r.bagIncludes e) (r.content.mem e) := by
  rw [content_bag hcls]
  refine ⟨?_, content_bag hcls, WF.of_bag hcls⟩
  exact (Keyed.any_congr_on (native_search hcls hagree)).trans Keyed.any_eq_decide_countP

omit hO hM in
theorem bagOccurrencesOf_matches (hcls : r.cls = .bag) (e : Value O)
    (hagree : ∀ x ∈ r.forEachElement, Comparison.native.ask x e = some (stKeyEquals x e)) :
    r.Matches Valid (r.bagOccurrencesOf e) (r.content.count e) := by
  rw [content_bag hcls]
  refine ⟨?_, content_bag hcls, WF.of_bag hcls⟩
  refine List.countP_congr fun x hx => ?_
  rw [native_search hcls hagree x hx]

omit hO in
theorem dictLookup_matches (hr : r.WF Valid) (hcls : r.cls = .dictionary) (k : Value O) :
    r.Matches Valid (r.dictLookup k) (r.content.get k) := by
  unfold dictLookup
  rw [content_dictionary hcls, hr.get hM (by simp [hcls])]
  exact ⟨rfl, content_dictionary hcls, hr⟩

theorem dictStore_matches (hr : r.WF Valid) (hcls : r.cls = .dictionary) (k v : Value O) :
    r.Matches Valid (r.dictStore k v) (r.content.put k v) := by
  have hne : r.cls ≠ .bag := by simp [hcls]
  have hwf := hr.put hM hne k v (by simp [hcls])
  have hfresh : (if (Keyed.lookup stKeyEquals k r.hashedEntries).isNone then (1 : Int) else 0) =
      if (Keyed.lookup stKeyEquals k r.hashedEntries).isSome then 0 else 1 := by
    cases Keyed.lookup stKeyEquals k r.hashedEntries <;> rfl
  unfold dictStore
  rw [content_dictionary hcls, hr.get hM hne]
  refine ⟨rfl, ?_, ?_⟩
  · rw [content_dictionary (by simpa using hcls), setHashedData_hashedEntries]
    exact congrArg Content.dictionary (funext fun l => hr.lookup_put hO hM hne k v l)
  · dsimp only
    rw [hfresh]
    exact hwf

theorem dictRemove_matches (hr : r.WF Valid) (hcls : r.cls = .dictionary) (k : Value O) :
    r.Matches Valid (r.dictRemove k) (r.content.eraseKey k) := by
  have hne : r.cls ≠ .bag := by simp [hcls]
  unfold dictRemove
  rw [content_dictionary hcls, hr.get hM hne, Content.eraseKey]
  cases hfound : Keyed.lookup stKeyEquals k r.hashedEntries with
  | none =>
      refine ⟨rfl, ?_, hr⟩
      rw [content_dictionary hcls]
      refine congrArg Content.dictionary (funext fun l => ?_)
      cases hkl : stKeyEquals k l
      · rfl
      · rw [← Keyed.lookup_congr hO.equivalence hkl, hfound]
        rfl
  | some v =>
      refine ⟨rfl, ?_, hr.remove hM hne hfound⟩
      rw [content_dictionary (by simpa using hcls), setHashedData_hashedEntries]
      exact congrArg Content.dictionary (funext fun l => hr.lookup_remove hO hM hne k l)

omit hO in
/-- A new collection is empty. -/
theorem new_matches (cls : Class) : (new cls : Obj O M).WF Valid ∧
    (new cls : Obj O M).content = Content.empty cls := by
  have hempty : HashedMap.hashedForEach (HashedMap.newMap (Value O) : M) =
      ([] : List (Value O × Value O)) := hM.new.2
  cases cls with
  | bag => exact ⟨WF.of_bag rfl, rfl⟩
  | set =>
      refine ⟨⟨fun _ => hM.new.1, fun _ => ?_, fun _ e he => ?_⟩, ?_⟩
      · exact (congrArg (fun es => (es.length : Int)) hempty).symm
      · change e ∈ HashedMap.hashedForEach (HashedMap.newMap (Value O) : M) at he
        rw [hempty] at he
        cases he
      · rw [content_set rfl]
        change Content.set (fun v => (Keyed.lookup stKeyEquals v
          (HashedMap.hashedForEach (HashedMap.newMap (Value O) : M))).isSome) = _
        rw [hempty]
        rfl
  | dictionary =>
      refine ⟨⟨fun _ => hM.new.1, fun _ => ?_, fun h => nomatch h⟩, ?_⟩
      · exact (congrArg (fun es => (es.length : Int)) hempty).symm
      · rw [content_dictionary rfl]
        change Content.dictionary (fun v => Keyed.lookup stKeyEquals v
          (HashedMap.hashedForEach (HashedMap.newMap (Value O) : M))) = _
        rw [hempty]
        rfl

/-- Adding a list to a Set adds its values. -/
theorem foldl_setAdd (xs : List (Value O)) {r : Obj O M} (hr : r.WF Valid) (hcls : r.cls = .set)
    {S : Value O → Bool} (hS : r.content = .set S) :
    (xs.foldl (fun s e => (s.setAdd e).2) r).WF Valid ∧
      (xs.foldl (fun s e => (s.setAdd e).2) r).content =
        .set fun v => S v || xs.any fun x => stKeyEquals x v := by
  induction xs generalizing r S with
  | nil => simp [hr, hS]
  | cons x xs ih =>
      have hadd := setAdd_matches hO hM hr hcls x
      have hcontent := hadd.content
      rw [hS] at hcontent
      have hnext : (r.setAdd x).2.cls = .set := by
        rw [← content_cls, hcontent]
        rfl
      have hrest := ih hadd.wf hnext hcontent
      rw [List.foldl_cons]
      refine ⟨hrest.1, hrest.2.trans (congrArg Content.set (funext fun v => ?_))⟩
      rw [List.any_cons, Bool.or_assoc]

/-- A collection of the species of a Set or a Bag holds the elements gathered. -/
theorem ofSpecies_matches {cls : Class} (hcls : cls ≠ .dictionary) (xs : List (Value O)) :
    (ofSpecies cls xs : Obj O M).WF Valid ∧
      (ofSpecies cls xs : Obj O M).content = Content.ofElements cls xs := by
  cases cls with
  | set =>
      have hnew := new_matches (O := O) hM .set
      have hfold := foldl_setAdd hO hM xs hnew.1 rfl hnew.2
      exact ⟨hfold.1, hfold.2⟩
  | bag => exact ⟨WF.of_bag rfl, rfl⟩
  | dictionary => exact absurd rfl hcls

end Obj

end Lawful

end ProtoST.Collections

import Mathlib.Data.List.Perm.Basic
import Mathlib.Data.List.Pairwise

/-!
# Entries keyed by an equivalence

A map whose keys are compared by an equivalence `eq`, as the list of its entries: no two
keys are equal, and a key that is stored again keeps its first form.

## Main results

* `lookup_store`, `lookup_delete` — the map after a store and after a delete.
* `Distinct.store`, `Distinct.delete` — both keep the keys pairwise unequal.
* `length_store`, `length_delete` — how the number of entries changes.
* `lookup_perm` — the order of the entries does not matter.
* `countP_eraseP` — the occurrences that are left when one is taken out.
-/

namespace ProtoST.Lib.Keyed

variable {K V : Type} {eq : K → K → Bool} {k l : K} {v : V} {es fs : List (K × V)}

variable (eq) in
/-- The value of the entry whose key equals `k`. -/
def lookup (k : K) (es : List (K × V)) : Option V :=
  (es.find? fun e => eq e.1 k).map (·.2)

variable (eq) in
/-- Store `v` under `k`: the entry of an equal key keeps its key. -/
def store (k : K) (v : V) : List (K × V) → List (K × V)
  | [] => [(k, v)]
  | e :: es => if eq e.1 k then (e.1, v) :: es else e :: store k v es

variable (eq) in
/-- Take out the entry whose key equals `k`. -/
def delete (k : K) (es : List (K × V)) : List (K × V) := es.eraseP fun e => eq e.1 k

variable (eq) in
/-- No two keys are equal. -/
def Distinct (es : List (K × V)) : Prop := es.Pairwise fun a b => eq a.1 b.1 = false

@[simp] theorem lookup_nil : lookup eq k ([] : List (K × V)) = none := rfl

theorem lookup_cons (e : K × V) :
    lookup eq k (e :: es) = if eq e.1 k then some e.2 else lookup eq k es := by
  unfold lookup
  rw [List.find?_cons]
  cases eq e.1 k <;> rfl

/-- A key that is not found equals none of the keys. -/
theorem lookup_eq_none_iff : lookup eq k es = none ↔ ∀ e ∈ es, eq e.1 k = false := by
  simp [lookup]

theorem lookup_isSome_iff : (lookup eq k es).isSome = es.any fun e => eq e.1 k := by
  simp [lookup, List.isSome_find?]

/-- What is found is the value of an entry. -/
theorem mem_of_lookup (h : lookup eq k es = some v) : ∃ e ∈ es, e.2 = v ∧ eq e.1 k = true := by
  obtain ⟨e, hfind, hv⟩ := Option.map_eq_some_iff.mp h
  exact ⟨e, List.mem_of_find?_eq_some hfind, hv, by simpa using List.find?_some hfind⟩

/-- A key that is not there is stored at the end. -/
theorem store_of_lookup_eq_none (h : lookup eq k es = none) :
    store eq k v es = es ++ [(k, v)] := by
  induction es with
  | nil => rfl
  | cons e es ih =>
      rw [lookup_eq_none_iff, List.forall_mem_cons] at h
      rw [store, if_neg (by simp [h.1]), ih (lookup_eq_none_iff.mpr h.2), List.cons_append]

theorem length_store :
    (store eq k v es).length = es.length + if (lookup eq k es).isSome then 0 else 1 := by
  induction es with
  | nil => rfl
  | cons e es ih =>
      rw [store, lookup_cons]
      split
      · simp
      · rw [List.length_cons, List.length_cons, ih]
        omega

theorem length_delete (h : lookup eq k es = some v) :
    (delete eq k es).length + 1 = es.length := by
  obtain ⟨e, he, -, hk⟩ := mem_of_lookup h
  have hpos := List.length_pos_of_mem he
  rw [delete, List.length_eraseP_of_mem he hk]
  omega

theorem Distinct.delete (h : Distinct eq es) : Distinct eq (delete eq k es) :=
  h.sublist List.eraseP_sublist

/-- The keys of a store are the old ones and the key stored. -/
theorem store_keys {e : K × V} (he : e ∈ store eq k v es) :
    e.1 = k ∧ (∀ f ∈ es, eq f.1 k = false) ∨ ∃ f ∈ es, f.1 = e.1 := by
  induction es with
  | nil =>
      rw [store, List.mem_singleton] at he
      exact .inl ⟨congrArg Prod.fst he, by simp⟩
  | cons f fs ih =>
      rw [store] at he
      split at he
      · rcases List.mem_cons.mp he with rfl | he
        · exact .inr ⟨f, by simp, rfl⟩
        · exact .inr ⟨e, by simp [he], rfl⟩
      · rename_i hf
        rcases List.mem_cons.mp he with rfl | he
        · exact .inr ⟨e, by simp, rfl⟩
        · rcases ih he with ⟨hk, hnone⟩ | ⟨g, hg, hkey⟩
          · exact .inl ⟨hk, List.forall_mem_cons.mpr ⟨by simpa using hf, hnone⟩⟩
          · exact .inr ⟨g, by simp [hg], hkey⟩

theorem Distinct.store (h : Distinct eq es) : Distinct eq (store eq k v es) := by
  induction es with
  | nil => simp [Distinct, Keyed.store]
  | cons e es ih =>
      rw [Distinct, List.pairwise_cons] at h
      rw [Keyed.store]
      split
      · exact List.pairwise_cons.mpr h
      · rename_i he
        refine List.pairwise_cons.mpr ⟨?_, ih h.2⟩
        intro f hf
        rcases store_keys hf with ⟨hk, -⟩ | ⟨g, hg, hkey⟩
        · rw [hk]
          simpa using he
        · rw [← hkey, h.1 g hg]

variable {xs : List K} {p q : K → Bool}

/-- The same element is taken out for predicates that agree on the list. -/
theorem eraseP_congr (h : ∀ x ∈ xs, p x = q x) :
    xs.eraseP p = xs.eraseP q := by
  induction xs with
  | nil => rfl
  | cons x xs ih =>
      rw [List.forall_mem_cons] at h
      rw [List.eraseP_cons, List.eraseP_cons, h.1, ih h.2]

theorem any_congr_on (h : ∀ x ∈ xs, p x = q x) :
    xs.any p = xs.any q := by
  rw [Bool.eq_iff_iff, List.any_eq_true, List.any_eq_true]
  exact exists_congr fun x => and_congr_right fun hx => by rw [h x hx]

theorem any_eq_decide_countP {p : K → Bool} :
    xs.any p = decide (0 < xs.countP p) := by
  rw [Bool.eq_iff_iff, decide_eq_true_iff, List.countP_pos_iff, List.any_eq_true]

/-- Of two predicates, one of which implies the other, that hold equally often. -/
theorem eq_on_of_countP_eq (himp : ∀ x, p x = true → q x = true)
    (hcount : xs.countP p = xs.countP q) : ∀ x ∈ xs, p x = q x := by
  induction xs with
  | nil => simp
  | cons x xs ih =>
      have hle : xs.countP p ≤ xs.countP q := List.countP_mono_left fun y _ => himp y
      rw [List.countP_cons, List.countP_cons] at hcount
      rw [List.forall_mem_cons]
      cases hp : p x
      · cases hq : q x
        · exact ⟨rfl, ih (by simpa [hp, hq] using hcount)⟩
        · simp [hp, hq] at hcount
          omega
      · have hq := himp x hp
        exact ⟨hq.symm, ih (by simpa [hp, hq] using hcount)⟩

section Equivalence
variable (heq : Equivalence fun a b => eq a b = true)
include heq

theorem eq_congr_left (h : eq k l = true) (m : K) : eq k m = eq l m :=
  Bool.eq_iff_iff.mpr ⟨heq.trans (heq.symm h), heq.trans h⟩

theorem eq_congr_right (h : eq k l = true) (m : K) : eq m k = eq m l :=
  Bool.eq_iff_iff.mpr ⟨fun hm => heq.trans hm h, fun hm => heq.trans hm (heq.symm h)⟩

theorem eq_comm (k l : K) : eq k l = eq l k :=
  Bool.eq_iff_iff.mpr ⟨heq.symm, heq.symm⟩

/-- Equal keys find the same value. -/
theorem lookup_congr (h : eq k l = true) : lookup eq k es = lookup eq l es := by
  unfold lookup
  simp only [eq_congr_right heq h]

theorem lookup_store :
    lookup eq l (store eq k v es) = if eq k l then some v else lookup eq l es := by
  induction es with
  | nil => rw [store, lookup_cons]
  | cons e es ih =>
      rw [store]
      split
      · rename_i he
        rw [lookup_cons, lookup_cons, eq_congr_left heq he]
        cases eq k l <;> rfl
      · rename_i he
        rw [lookup_cons, lookup_cons, ih]
        cases hl : eq e.1 l
        · rfl
        · have hkl : eq k l = false := by
            by_contra hkl
            exact he (heq.trans hl (heq.symm (by simpa using hkl)))
          rw [hkl]
          rfl

theorem lookup_delete (h : Distinct eq es) :
    lookup eq l (delete eq k es) = if eq k l then none else lookup eq l es := by
  induction es with
  | nil => simp [delete]
  | cons e es ih =>
      rw [Distinct, List.pairwise_cons] at h
      rw [delete, List.eraseP_cons, lookup_cons]
      cases he : eq e.1 k
      · rw [cond_false, lookup_cons, ← delete, ih h.2]
        cases hl : eq e.1 l
        · rfl
        · have hkl : eq k l = false := by
            rw [eq_comm heq, ← eq_congr_left heq hl, he]
          rw [hkl]
          rfl
      · rw [cond_true, eq_congr_left heq he]
        cases hl : eq k l
        · rfl
        · rw [if_pos rfl, lookup_eq_none_iff]
          intro f hf
          rw [eq_comm heq, ← eq_congr_left heq (heq.trans he hl), h.1 f hf]

theorem Distinct.perm (h : Distinct eq es) (hperm : es.Perm fs) : Distinct eq fs :=
  (hperm.pairwise_iff fun {a b} hab => by rw [eq_comm heq, hab]).mp h

/-- The order of the entries does not matter. -/
theorem lookup_perm (h : Distinct eq es) (hperm : es.Perm fs) :
    lookup eq k es = lookup eq k fs := by
  induction hperm with
  | nil => rfl
  | cons e _ ih => rw [lookup_cons, lookup_cons, ih (List.pairwise_cons.mp h).2]
  | swap e f es =>
      have hef := (List.pairwise_cons.mp h).1 e (by simp)
      rw [lookup_cons, lookup_cons, lookup_cons, lookup_cons]
      cases he : eq e.1 k
      · rfl
      · rw [eq_congr_right heq he] at hef
        rw [hef]
        rfl
  | trans hperm _ ih₁ ih₂ => rw [ih₁ h, ih₂ (h.perm heq hperm)]

/-- At most one key equals `k`. -/
theorem countP_of_distinct (h : Distinct eq es) :
    es.countP (fun e => eq e.1 k) = if (lookup eq k es).isSome then 1 else 0 := by
  induction es with
  | nil => rfl
  | cons e es ih =>
      rw [Distinct, List.pairwise_cons] at h
      rw [List.countP_cons, ih h.2, lookup_cons]
      cases he : eq e.1 k
      · rfl
      · have hnone : lookup eq k es = none := by
          rw [lookup_eq_none_iff]
          intro f hf
          rw [eq_comm heq, ← eq_congr_left heq he, h.1 f hf]
        rw [hnone]
        rfl

/-- One occurrence of `k` is taken out: it is missing from the count of its equals. -/
theorem countP_eraseP {xs : List K} (hk : ∃ x ∈ xs, eq x k = true) :
    (xs.eraseP fun x => eq x k).countP (fun x => eq x l) =
      xs.countP (fun x => eq x l) - if eq k l then 1 else 0 := by
  induction xs with
  | nil => simp at hk
  | cons x xs ih =>
      rw [List.eraseP_cons, List.countP_cons]
      cases hx : eq x k
      · have hrest : ∃ y ∈ xs, eq y k = true := by
          obtain ⟨y, hy, hyk⟩ := hk
          rcases List.mem_cons.mp hy with rfl | hy
          · rw [hx] at hyk
            cases hyk
          · exact ⟨y, hy, hyk⟩
        rw [cond_false, List.countP_cons, ih hrest]
        cases hkl : eq k l
        · simp
        · have hxl : eq x l = false := by rw [← eq_congr_right heq hkl, hx]
          simp [hxl]
      · rw [cond_true, eq_congr_left heq hx]
        cases eq k l <;> simp

end Equivalence

end ProtoST.Lib.Keyed

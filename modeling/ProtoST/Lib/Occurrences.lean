import Mathlib.Data.List.Basic
import Mathlib.Data.List.Infix
import Mathlib.Tactic.Common

/-!
# Occurrences

The places where one list occurs in another, and the texts that are split, joined and replaced
there, from the left and without overlaps.

A code that can be resynchronised, such as a byte encoding of characters, keeps all of it: what
is found, split and replaced in the code of a text is the code of what is in the text.

## Main results

* `find_eq_some_iff`, `find_eq_none_iff` — the first place, and that there is none.
* `intercalate_split`, `replace_self` — splitting and joining is replacing.
* `not_infix_of_mem_split` — no piece contains the separator.
* `Synchronizing.find_flatMap`, `Synchronizing.replace_flatMap` — finding and replacing in codes.
-/

namespace ProtoST.Occurrences

universe u v

/-! ## Codes -/

section Codes

variable {α : Type u} {p s : List α}

/-- A code whose words are known by their first letters, among the letters of other words, and of
which no word continues another. -/
structure Synchronizing {β : Type v} (code : α → List β) (Valid : α → Prop) (Lead : β → Prop) :
    Prop where
  word : ∀ a, Valid a → ∃ b t, code a = b :: t ∧ Lead b ∧ ∀ c ∈ t, ¬ Lead c
  prefix_free : ∀ a b, Valid a → Valid b → code a <+: code b → a = b

namespace Synchronizing

variable {β : Type v} {code : α → List β} {Valid : α → Prop} {Lead : β → Prop}

theorem length_pos (hCode : Synchronizing code Valid Lead) {a : α} (ha : Valid a) :
    0 < (code a).length := by
  obtain ⟨b, t, hWord, -⟩ := hCode.word a ha
  rw [hWord]
  exact Nat.succ_pos _

/-- The code of a text that is not empty begins with a first letter. -/
theorem head_lead (hCode : Synchronizing code Valid Lead) (hp : ∀ a ∈ p, Valid a) (hNe : p ≠ []) :
    ∃ b t, p.flatMap code = b :: t ∧ Lead b := by
  obtain ⟨a, rest, rfl⟩ := List.exists_cons_of_ne_nil hNe
  obtain ⟨b, t, hWord, hLead, -⟩ := hCode.word a (hp a List.mem_cons_self)
  exact ⟨b, t ++ rest.flatMap code, by rw [List.flatMap_cons, hWord, List.cons_append], hLead⟩

theorem prefix_flatMap_iff (hCode : Synchronizing code Valid Lead) (hp : ∀ a ∈ p, Valid a)
    (hs : ∀ a ∈ s, Valid a) : p.flatMap code <+: s.flatMap code ↔ p <+: s := by
  constructor
  · intro h
    induction p generalizing s with
    | nil => exact List.nil_prefix
    | cons a p ih =>
        have ha : Valid a := hp a List.mem_cons_self
        cases s with
        | nil =>
            have hEmpty := List.prefix_nil.mp h
            rw [List.flatMap_cons] at hEmpty
            have hLength := congrArg List.length (List.append_eq_nil_iff.mp hEmpty).1
            exact absurd (hCode.length_pos ha) (by rw [hLength]; exact Nat.lt_irrefl 0)
        | cons b s =>
            have hb : Valid b := hs b List.mem_cons_self
            rw [List.flatMap_cons, List.flatMap_cons] at h
            have hSame : a = b := by
              have hLeft : code a <+: code b ++ s.flatMap code :=
                (List.prefix_append _ _).trans h
              rcases List.prefix_or_prefix_of_prefix hLeft (List.prefix_append _ _) with hab | hba
              · exact hCode.prefix_free a b ha hb hab
              · exact (hCode.prefix_free b a hb ha hba).symm
            subst hSame
            rw [List.prefix_append_right_inj] at h
            rw [List.cons_prefix_cons]
            exact ⟨rfl, ih (fun c hc => hp c (List.mem_cons_of_mem a hc))
              (fun c hc => hs c (List.mem_cons_of_mem a hc)) h⟩
  · rintro ⟨t, rfl⟩
    rw [List.flatMap_append]
    exact List.prefix_append _ _

/-- The code of a text occurs at the ends of words only. -/
theorem boundary (hCode : Synchronizing code Valid Lead) (hp : ∀ a ∈ p, Valid a) (hNe : p ≠ [])
    (hs : ∀ a ∈ s, Valid a) {k : Nat} (h : p.flatMap code <+: (s.flatMap code).drop k) :
    ∃ i ≤ s.length, k = ((s.take i).flatMap code).length := by
  obtain ⟨lead, tail, hHead, hLead⟩ := hCode.head_lead hp hNe
  rw [hHead] at h
  induction s generalizing k with
  | nil =>
      rw [List.flatMap_nil, List.drop_nil, List.prefix_nil] at h
      exact absurd h (by simp)
  | cons a s ih =>
      obtain ⟨b, t, hWord, -, hRest⟩ := hCode.word a (hs a List.mem_cons_self)
      rw [List.flatMap_cons] at h
      rcases Nat.eq_zero_or_pos k with rfl | hPos
      · exact ⟨0, Nat.zero_le _, rfl⟩
      · rcases Nat.lt_or_ge k (code a).length with hLt | hGe
        · -- inside a word there is no first letter
          rw [List.drop_append_of_le_length (Nat.le_of_lt hLt), List.drop_eq_getElem_cons hLt,
            List.cons_append, List.cons_prefix_cons] at h
          have hMem : lead ∈ t := by
            have hInTail : k - 1 < t.length := by
              rw [hWord, List.length_cons] at hLt
              omega
            have hIndex : (code a)[k] = t[k - 1] := by
              simp only [hWord]
              rw [List.getElem_cons]
              rw [dif_neg (by omega)]
            rw [h.1, hIndex]
            exact List.getElem_mem _
          exact absurd hLead (hRest lead hMem)
        · rw [List.drop_append, List.drop_eq_nil_of_le hGe, List.nil_append] at h
          obtain ⟨i, hi, hk⟩ := ih (fun c hc => hs c (List.mem_cons_of_mem a hc)) h
          refine ⟨i + 1, Nat.succ_le_succ hi, ?_⟩
          rw [List.take_succ_cons, List.flatMap_cons, List.length_append, ← hk]
          omega

theorem drop_flatMap (i : Nat) (s : List α) :
    (s.flatMap code).drop ((s.take i).flatMap code).length = (s.drop i).flatMap code := by
  conv_lhs => rw [← List.take_append_drop i s, List.flatMap_append]
  rw [List.take_append_drop, List.drop_left]

theorem length_flatMap_take_lt (hCode : Synchronizing code Valid Lead) (hs : ∀ a ∈ s, Valid a)
    {i j : Nat} (hij : i < j) (hj : j ≤ s.length) :
    ((s.take i).flatMap code).length < ((s.take j).flatMap code).length := by
  have hSplit : s.take j = s.take i ++ (s.drop i).take (j - i) := by
    rw [← List.take_add, Nat.add_sub_cancel' (Nat.le_of_lt hij)]
  have hNe : (s.drop i).take (j - i) ≠ [] := by
    rw [← List.length_pos_iff, List.length_take, List.length_drop]
    omega
  have hValid : ∀ a ∈ (s.drop i).take (j - i), Valid a := fun a ha =>
    hs a (List.mem_of_mem_drop (List.mem_of_mem_take ha))
  obtain ⟨b, t, hHead, -⟩ := hCode.head_lead hValid hNe
  rw [hSplit, List.flatMap_append, List.length_append, hHead, List.length_cons]
  omega

end Synchronizing

end Codes

variable {α : Type u} [DecidableEq α] {p q s : List α}

/-! ## Finding -/

/-- The first place where `p` occurs. -/
@[grind =] def find (p : List α) : List α → Option Nat
  | [] => if p <+: [] then some 0 else none
  | x :: xs => if p <+: x :: xs then some 0 else (find p xs).map (· + 1)

variable {i : Nat}

theorem find_eq_some_iff :
    find p s = some i ↔ i ≤ s.length ∧ p <+: s.drop i ∧ ∀ j < i, ¬ p <+: s.drop j := by
  induction s generalizing i with
  | nil =>
      unfold find
      split
      next h =>
        constructor
        · intro hi
          obtain rfl : 0 = i := Option.some.inj hi
          exact ⟨Nat.le_refl 0, h, by simp⟩
        · rintro ⟨hi, -⟩
          exact congrArg some (Nat.le_zero.mp hi).symm
      next h =>
        simp only [reduceCtorEq, false_iff]
        rintro ⟨-, hi, -⟩
        rw [List.drop_nil] at hi
        exact h hi
  | cons x xs ih =>
      unfold find
      split
      next h =>
        constructor
        · intro hi
          obtain rfl : 0 = i := Option.some.inj hi
          exact ⟨Nat.zero_le _, h, by simp⟩
        · rintro ⟨-, -, hLeast⟩
          have hZero : ¬ 0 < i := fun hi => hLeast 0 hi h
          exact congrArg some (by omega)
      next h =>
        cases i with
        | zero => simp [h]
        | succ i =>
            rw [Option.map_eq_some_iff]
            constructor
            · rintro ⟨k, hk, hEq⟩
              obtain rfl : k = i := by omega
              obtain ⟨hLe, hHere, hLeast⟩ := ih.mp hk
              refine ⟨Nat.succ_le_succ hLe, hHere, fun j hj => ?_⟩
              cases j with
              | zero => exact h
              | succ j => exact hLeast j (by omega)
            · rintro ⟨hLe, hHere, hLeast⟩
              exact ⟨i, ih.mpr ⟨Nat.le_of_succ_le_succ hLe, hHere,
                fun j hj => hLeast (j + 1) (by omega)⟩, rfl⟩

theorem find_eq_none_iff : find p s = none ↔ ¬ p <:+: s := by
  induction s with
  | nil =>
      unfold find
      split
      next h => simp [List.prefix_nil.mp h]
      next h =>
        simp only [true_iff]
        exact fun hInfix => h (List.infix_nil.mp hInfix ▸ List.nil_prefix)
  | cons x xs ih =>
      unfold find
      rw [List.infix_cons_iff]
      split
      next h => simp [h]
      next h => rw [Option.map_eq_none_iff, ih]; simp [h]

theorem find_of_length_lt (h : s.length < p.length) : find p s = none := by
  rw [find_eq_none_iff]
  intro hInfix
  exact Nat.not_lt.mpr hInfix.length_le h

/-- A text is what precedes the first occurrence, the occurrence, and what follows it. -/
theorem take_append_drop_find (h : find p s = some i) :
    s.take i ++ (p ++ s.drop (i + p.length)) = s := by
  obtain ⟨-, ⟨t, ht⟩, -⟩ := find_eq_some_iff.mp h
  have hDrop : s.drop (i + p.length) = t := by
    rw [← List.drop_drop, ← ht, List.drop_left]
  rw [hDrop, ht, List.take_append_drop]

/-- Nothing occurs before the first place. -/
theorem find_take_eq_none (hp : p ≠ []) (h : find p s = some i) :
    find p (s.take i) = none := by
  obtain ⟨hLe, -, hLeast⟩ := find_eq_some_iff.mp h
  rw [find_eq_none_iff]
  rintro ⟨before, after, hEq⟩
  have hLength := congrArg List.length hEq
  have hPos := List.length_pos_iff.mpr hp
  simp only [List.length_append, List.length_take] at hLength
  refine hLeast before.length (by omega) ?_
  rw [← List.take_append_drop i s, ← hEq, List.append_assoc, List.append_assoc, List.drop_left]
  exact List.prefix_append _ _

theorem length_drop_find (hp : p ≠ []) (h : find p s = some i) :
    (s.drop (i + p.length)).length < s.length := by
  have hPos := List.length_pos_iff.mpr hp
  have hEq := congrArg List.length (take_append_drop_find h)
  simp only [List.length_append, List.length_take, List.length_drop] at hEq ⊢
  omega

/-! ## Splitting, joining and replacing -/

/-- The pieces between the occurrences of `p`. -/
def split (p s : List α) : List (List α) :=
  if _hp : p = [] then [s]
  else
    match _h : find p s with
    | none => [s]
    | some i => s.take i :: split p (s.drop (i + p.length))
termination_by s.length
decreasing_by exact length_drop_find _hp _h

/-- The text in which `q` stands for each occurrence of `p`. -/
def replace (p q s : List α) : List α :=
  if _hp : p = [] then s
  else
    match _h : find p s with
    | none => s
    | some i => s.take i ++ (q ++ replace p q (s.drop (i + p.length)))
termination_by s.length
decreasing_by exact length_drop_find _hp _h

theorem split_of_none (h : find p s = none) : split p s = [s] := by
  rw [split]
  split
  next => rfl
  next =>
    split
    next => rfl
    next i hi => rw [h] at hi; exact absurd hi (by simp)

theorem split_of_some (hp : p ≠ []) (h : find p s = some i) :
    split p s = s.take i :: split p (s.drop (i + p.length)) := by
  rw [split, dif_neg hp]
  split
  next hi => rw [h] at hi; exact absurd hi (by simp)
  next k hk =>
    rw [h] at hk
    rw [Option.some.inj hk]

theorem replace_of_none (h : find p s = none) : replace p q s = s := by
  rw [replace]
  split
  next => rfl
  next =>
    split
    next => rfl
    next i hi => rw [h] at hi; exact absurd hi (by simp)

theorem replace_of_some (hp : p ≠ []) (h : find p s = some i) :
    replace p q s = s.take i ++ (q ++ replace p q (s.drop (i + p.length))) := by
  rw [replace, dif_neg hp]
  split
  next hi => rw [h] at hi; exact absurd hi (by simp)
  next k hk =>
    rw [h] at hk
    rw [Option.some.inj hk]

/-- Induction from the last piece of a text to the first. -/
theorem split_induction {P : List α → Prop} (hp : p ≠ []) (last : ∀ s, find p s = none → P s)
    (piece : ∀ s i, find p s = some i → P (s.drop (i + p.length)) → P s) (s : List α) : P s := by
  induction hSize : s.length using Nat.strong_induction_on generalizing s with
  | _ size ih =>
      cases h : find p s with
      | none => exact last s h
      | some i => exact piece s i h (ih _ (hSize ▸ length_drop_find hp h) _ rfl)

theorem split_ne_nil (p s : List α) : split p s ≠ [] := by
  rw [split]
  split
  next => simp
  next => split <;> simp

omit [DecidableEq α] in
theorem intercalate_cons (sep t : List α) (ts : List (List α)) :
    List.intercalate sep (t :: ts) = t ++ ts.flatMap (fun u => sep ++ u) := by
  induction ts generalizing t with
  | nil => rw [List.intercalate_singleton, List.flatMap_nil, List.append_nil]
  | cons u ts ih =>
      rw [List.intercalate_cons_cons, ih, List.flatMap_cons, List.append_assoc, List.append_assoc]

/-- What is split at one text and joined with another is replaced. -/
theorem intercalate_split (hp : p ≠ []) (q s : List α) :
    List.intercalate q (split p s) = replace p q s := by
  induction s using split_induction hp with
  | last s h => rw [split_of_none h, replace_of_none h, List.intercalate_singleton]
  | piece s i h ih =>
      obtain ⟨next, rest, hRest⟩ :=
        List.exists_cons_of_ne_nil (split_ne_nil p (s.drop (i + p.length)))
      rw [split_of_some hp h, replace_of_some hp h, ← ih, hRest, List.intercalate_cons_cons,
        List.append_assoc]

theorem replace_self (hp : p ≠ []) (s : List α) : replace p p s = s := by
  induction s using split_induction hp with
  | last s h => exact replace_of_none h
  | piece s i h ih => rw [replace_of_some hp h, ih, take_append_drop_find h]

theorem mem_replace {c : α} (h : c ∈ replace p q s) : c ∈ q ∨ c ∈ s := by
  by_cases hp : p = []
  · rw [replace, dif_pos hp] at h
    exact Or.inr h
  · induction s using split_induction hp with
    | last s hNone =>
        rw [replace_of_none hNone] at h
        exact Or.inr h
    | piece s i hSome ih =>
        rw [replace_of_some hp hSome, List.mem_append, List.mem_append] at h
        rcases h with hBefore | hHere | hAfter
        · exact Or.inr (List.mem_of_mem_take hBefore)
        · exact Or.inl hHere
        · exact (ih hAfter).imp_right List.mem_of_mem_drop

/-- No piece contains the separator. -/
theorem not_infix_of_mem_split (hp : p ≠ []) (s : List α) : ∀ t ∈ split p s, ¬ p <:+: t := by
  induction s using split_induction hp with
  | last s h =>
      intro t ht
      rw [split_of_none h, List.mem_singleton] at ht
      exact ht ▸ find_eq_none_iff.mp h
  | piece s i h ih =>
      intro t ht
      rw [split_of_some hp h, List.mem_cons] at ht
      rcases ht with rfl | ht
      · exact find_eq_none_iff.mp (find_take_eq_none hp h)
      · exact ih t ht

/-- The pieces of a text between the letters that `f` selects, the first of them after `seg`. -/
def splitWhere (f : α → Bool) : List α → List α → List (List α)
  | seg, [] => [seg]
  | seg, x :: xs =>
      if f x then seg :: splitWhere f [] xs else splitWhere f (seg ++ [x]) xs

theorem find_singleton_append {c : α} {seg : List α} (h : c ∉ seg) (s : List α) :
    find [c] (seg ++ c :: s) = some seg.length := by
  induction seg with
  | nil => exact if_pos (List.prefix_append [c] s)
  | cons x seg ih =>
      rw [List.mem_cons, not_or] at h
      rw [List.cons_append, find, if_neg, ih h.2]
      · rfl
      · rw [List.cons_prefix_cons]
        exact fun hEq => h.1 hEq.1

/-- Splitting at one letter. -/
theorem split_singleton {c : α} {seg : List α} (h : c ∉ seg) (s : List α) :
    split [c] (seg ++ s) = splitWhere (fun x => x == c) seg s := by
  induction s generalizing seg with
  | nil =>
      have hNone : find [c] seg = none := by
        rw [find_eq_none_iff]
        exact fun hInfix => h (hInfix.subset (List.mem_singleton_self c))
      rw [List.append_nil, split_of_none hNone, splitWhere]
  | cons x s ih =>
      rw [splitWhere]
      by_cases hx : x = c
      · have hFind := find_singleton_append h s
        rw [hx, if_pos (beq_self_eq_true c), split_of_some (List.cons_ne_nil c []) hFind,
          List.take_left, ← List.drop_drop, List.drop_left]
        exact congrArg (seg :: ·) (@ih [] (by simp))
      · rw [if_neg (by simpa using hx), ← ih, List.append_assoc]
        · rfl
        · rw [List.mem_append, List.mem_singleton, not_or]
          exact ⟨h, Ne.symm hx⟩

/-! ## Finding and replacing in codes -/

namespace Synchronizing

variable {β : Type v} [DecidableEq β] {code : α → List β} {Valid : α → Prop} {Lead : β → Prop}

/-- What is found in the code of a text is found in the text. -/
theorem find_flatMap (hCode : Synchronizing code Valid Lead) (hp : ∀ a ∈ p, Valid a)
    (hNe : p ≠ []) (hs : ∀ a ∈ s, Valid a) :
    find (p.flatMap code) (s.flatMap code) =
      (find p s).map (fun i => ((s.take i).flatMap code).length) := by
  have hAt : ∀ i, p.flatMap code <+: (s.flatMap code).drop ((s.take i).flatMap code).length ↔
      p <+: s.drop i := fun i => by
    rw [drop_flatMap]
    exact hCode.prefix_flatMap_iff hp fun a ha => hs a (List.mem_of_mem_drop ha)
  cases h : find p s with
  | none =>
      rw [Option.map_none, Option.eq_none_iff_forall_ne_some]
      intro k hk
      obtain ⟨-, hHere, -⟩ := find_eq_some_iff.mp hk
      obtain ⟨i, -, rfl⟩ := hCode.boundary hp hNe hs hHere
      exact find_eq_none_iff.mp h (((hAt i).mp hHere).isInfix.trans (List.drop_suffix i s).isInfix)
  | some i =>
      obtain ⟨hLe, hHere, hLeast⟩ := find_eq_some_iff.mp h
      rw [Option.map_some, find_eq_some_iff]
      refine ⟨?_, (hAt i).mpr hHere, fun k hk hEarlier => ?_⟩
      · conv_rhs => rw [← List.take_append_drop i s, List.flatMap_append, List.length_append]
        exact Nat.le_add_right _ _
      · obtain ⟨j, hj, rfl⟩ := hCode.boundary hp hNe hs hEarlier
        have hji : j < i := by
          by_contra hNot
          rcases Nat.eq_or_lt_of_le (Nat.not_lt.mp hNot) with rfl | hLt
          · exact Nat.lt_irrefl _ hk
          · exact Nat.lt_asymm hk (hCode.length_flatMap_take_lt hs hLt hj)
        exact hLeast j hji ((hAt j).mp hEarlier)

/-- What is replaced in the code of a text is replaced in the text. -/
theorem replace_flatMap (hCode : Synchronizing code Valid Lead) (hp : ∀ a ∈ p, Valid a)
    (hNe : p ≠ []) (hs : ∀ a ∈ s, Valid a) :
    replace (p.flatMap code) (q.flatMap code) (s.flatMap code) = (replace p q s).flatMap code := by
  obtain ⟨b, t, hHead, -⟩ := hCode.head_lead hp hNe
  have hNeCode : p.flatMap code ≠ [] := by
    rw [hHead]
    exact List.cons_ne_nil b t
  induction s using split_induction hNe with
  | last s h =>
      have hFind := hCode.find_flatMap hp hNe hs
      rw [h, Option.map_none] at hFind
      rw [replace_of_none h, replace_of_none hFind]
  | piece s i h ih =>
      have hFind := hCode.find_flatMap hp hNe hs
      rw [h, Option.map_some] at hFind
      have hTake : (s.flatMap code).take ((s.take i).flatMap code).length =
          (s.take i).flatMap code := by
        conv_lhs => rw [← List.take_append_drop i s, List.flatMap_append]
        rw [List.take_append_drop, List.take_left]
      have hDrop : (s.flatMap code).drop (((s.take i).flatMap code).length +
          (p.flatMap code).length) = (s.drop (i + p.length)).flatMap code := by
        rw [← List.drop_drop, drop_flatMap]
        obtain ⟨-, ⟨rest, hRest⟩, -⟩ := find_eq_some_iff.mp h
        have hSkip : s.drop (i + p.length) = rest := by
          rw [← List.drop_drop, ← hRest, List.drop_left]
        rw [hSkip, ← hRest, List.flatMap_append, List.drop_left]
      rw [replace_of_some hNeCode hFind, replace_of_some hNe h, hTake, hDrop,
        ih fun a ha => hs a (List.mem_of_mem_drop ha), List.flatMap_append, List.flatMap_append]

end Synchronizing

end ProtoST.Occurrences

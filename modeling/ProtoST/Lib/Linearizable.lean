import Mathlib.Data.List.Sublists
import Mathlib.Data.List.Nodup

/-!
# Linearizable histories

A concurrent history is a list of events: the *call* of an operation and the
*return* of its result, each naming the operation by a number.  It is
linearizable for a sequential object when some sequence of completed operations

* is a legal run of the object,
* contains every operation that returned, with the result it returned, and
  otherwise only operations that were called, and
* keeps the real-time order: an operation that returned before another was
  called stands before it.

`Linearizes O H S s` is the invariant form, with the sequence `S` and the
object's state `s` after it.  A program that marks one atomic step of each
operation as its linearization point extends `H` and `S` event by event;
`Linearizes.call`, `Linearizes.point` and `Linearizes.answer` are the three
extension rules.
-/

namespace ProtoST.Lib

universe u v w

/-- A sequential object: `apply s op r s'` says that `op` may answer `r` in `s`
and leave `s'`. -/
structure SeqObject (Op : Type u) (Res : Type v) where
  /-- The object's states. -/
  State : Type w
  /-- The initial state. -/
  init : State
  /-- The legal operations. -/
  apply : State → Op → Res → State → Prop

/-- One event of a concurrent history. -/
inductive Event (Op : Type u) (Res : Type v) where
  | call (i : Nat) (op : Op)
  | ret (i : Nat) (res : Res)

variable {Op : Type u} {Res : Type v}

/-- `Legal O S s`: the operations `S`, run one after the other, lead to `s`. -/
inductive Legal (O : SeqObject.{u, v, w} Op Res) :
    List (Nat × Op × Res) → O.State → Prop
  | nil : Legal O [] O.init
  | snoc {S : List (Nat × Op × Res)} {s s' : O.State} {i : Nat} {op : Op}
      {r : Res} : Legal O S s → O.apply s op r s' →
      Legal O (S ++ [(i, op, r)]) s'

/-- `S` linearizes the history `H` and leaves the object in `s`. -/
structure Linearizes (O : SeqObject.{u, v, w} Op Res) (H : List (Event Op Res))
    (S : List (Nat × Op × Res)) (s : O.State) : Prop where
  /-- `S` is a sequential run of the object. -/
  legal : Legal O S s
  /-- No operation takes effect twice. -/
  nodup : (S.map Prod.fst).Nodup
  /-- Only operations that were called take effect. -/
  called : ∀ i op r, (i, op, r) ∈ S → Event.call i op ∈ H
  /-- What returned took effect with the result it returned. -/
  answered : ∀ i r, Event.ret i r ∈ H → ∃ op, (i, op, r) ∈ S
  /-- Real-time order is kept. -/
  ordered : ∀ i r j op, [Event.ret i r, Event.call j op].Sublist H →
    j ∈ S.map Prod.fst → [i, j].Sublist (S.map Prod.fst)

/-- Some sequential run explains the history. -/
def Linearizable (O : SeqObject.{u, v, w} Op Res) (H : List (Event Op Res)) :
    Prop :=
  ∃ S s, Linearizes O H S s

/-- A two-element sublist of `xs ++ [x]` either lies in `xs` or ends in `x`. -/
theorem pair_sublist_snoc {α : Type u} {a b x : α} {xs : List α}
    (h : [a, b].Sublist (xs ++ [x])) :
    [a, b].Sublist xs ∨ (b = x ∧ a ∈ xs) := by
  obtain ⟨l₁, l₂, heq, h₁, h₂⟩ := List.sublist_append_iff.mp h
  cases l₂ with
  | nil =>
      rw [List.append_nil] at heq
      exact Or.inl (heq ▸ h₁)
  | cons y l₂ =>
      have hlen : (y :: l₂).length ≤ [x].length := h₂.length_le
      obtain rfl : l₂ = [] := by simpa using hlen
      have hyx : y = x := by simpa using h₂
      have hpair : [a] ++ [b] = l₁ ++ [y] := heq
      obtain ⟨hl, hb⟩ := List.append_inj' hpair rfl
      obtain rfl : b = y := by simpa using hb
      subst hl
      exact Or.inr ⟨hyx, by simpa using h₁⟩

namespace Linearizes

variable {O : SeqObject.{u, v, w} Op Res} {H : List (Event Op Res)}
  {S : List (Nat × Op × Res)} {s s' : O.State} {i : Nat} {op : Op} {r : Res}

/-- The empty history. -/
theorem empty : Linearizes O [] [] O.init where
  legal := .nil
  nodup := by simp
  called := by simp
  answered := by simp
  ordered := by simp

/-- An operation that has taken effect was called. -/
theorem mem_called (h : Linearizes O H S s) (hi : i ∈ S.map Prod.fst) :
    ∃ op, Event.call i op ∈ H := by
  obtain ⟨⟨j, op, r⟩, hmem, rfl⟩ := List.mem_map.mp hi
  exact ⟨op, h.called j op r hmem⟩

/-- **Call.** A new operation starts; it has taken no effect yet. -/
theorem call (h : Linearizes O H S s)
    (hnew : ∀ op', Event.call i op' ∉ H) :
    Linearizes O (H ++ [.call i op]) S s where
  legal := h.legal
  nodup := h.nodup
  called := fun j op' r' hmem =>
    List.mem_append_left _ (h.called j op' r' hmem)
  answered := by
    intro j r' hmem
    rcases List.mem_append.mp hmem with hmem | hmem
    · exact h.answered j r' hmem
    · simp at hmem
  ordered := by
    intro j r' k op' hsub hk
    rcases pair_sublist_snoc hsub with hsub | ⟨heq, -⟩
    · exact h.ordered j r' k op' hsub hk
    · -- the new call has not taken effect, so it is not in `S`
      simp only [Event.call.injEq] at heq
      obtain ⟨op'', hcall⟩ := h.mem_called hk
      exact absurd hcall (heq.1 ▸ hnew op'')

/-- **Linearization point.** A called operation takes effect now. -/
theorem point (h : Linearizes O H S s) (hcall : Event.call i op ∈ H)
    (hnew : i ∉ S.map Prod.fst) (happly : O.apply s op r s') :
    Linearizes O H (S ++ [(i, op, r)]) s' where
  legal := h.legal.snoc happly
  nodup := by
    rw [List.map_append, List.nodup_append]
    refine ⟨h.nodup, by simp, ?_⟩
    rintro a ha b hb rfl
    simp only [List.map_cons, List.map_nil, List.mem_singleton] at hb
    exact hnew (hb ▸ ha)
  called := by
    intro j op' r' hmem
    rcases List.mem_append.mp hmem with hmem | hmem
    · exact h.called j op' r' hmem
    · simp only [List.mem_singleton, Prod.mk.injEq] at hmem
      obtain ⟨rfl, rfl, rfl⟩ := hmem
      exact hcall
  answered := by
    intro j r' hmem
    obtain ⟨op', hmem⟩ := h.answered j r' hmem
    exact ⟨op', List.mem_append_left _ hmem⟩
  ordered := by
    intro j r' k op' hsub hk
    rw [List.map_append] at hk ⊢
    rcases List.mem_append.mp hk with hk | hk
    · exact (h.ordered j r' k op' hsub hk).trans (List.sublist_append_left _ _)
    · -- whatever returned before is already in `S`, before the new entry
      simp only [List.map_cons, List.map_nil, List.mem_singleton] at hk
      subst hk
      obtain ⟨op'', hmem⟩ := h.answered j r' (hsub.subset (by simp))
      have hj : [j].Sublist (S.map Prod.fst) :=
        List.singleton_sublist.mpr (List.mem_map_of_mem (f := Prod.fst) hmem)
      exact hj.append (List.Sublist.refl [k])

/-- **Answer.** An operation that took effect returns its result. -/
theorem answer (h : Linearizes O H S s) (hmem : (i, op, r) ∈ S) :
    Linearizes O (H ++ [.ret i r]) S s where
  legal := h.legal
  nodup := h.nodup
  called := fun j op' r' hm => List.mem_append_left _ (h.called j op' r' hm)
  answered := by
    intro j r' hm
    rcases List.mem_append.mp hm with hm | hm
    · exact h.answered j r' hm
    · simp only [List.mem_singleton, Event.ret.injEq] at hm
      obtain ⟨rfl, rfl⟩ := hm
      exact ⟨op, hmem⟩
  ordered := by
    intro j r' k op' hsub hk
    rcases pair_sublist_snoc hsub with hsub | ⟨heq, -⟩
    · exact h.ordered j r' k op' hsub hk
    · simp at heq

/-- What a linearized history certifies. -/
theorem linearizable (h : Linearizes O H S s) : Linearizable O H :=
  ⟨S, s, h⟩

end Linearizes

end ProtoST.Lib

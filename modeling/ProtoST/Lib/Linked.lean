import Mathlib.Logic.Function.Basic
import Mathlib.Data.List.Nodup

/-!
# Singly linked lists in an array of links

`Linked next nil a xs` says that following `next` from `a` visits exactly the
nodes `xs`, in order, and then reaches the terminator `nil`.  Since `xs` is a
`List` the walk is finite; together with `xs.Nodup` it is acyclic.

`Linked.congr` is the frame rule of every pointer algorithm: writing the links
of nodes that are not on the list leaves the list alone.
-/

namespace ProtoST.Lib

universe u

variable {α : Type u}

/-- Following `next` from `a` visits `xs` and ends at `nil`. -/
def Linked (next : α → α) (nil : α) : α → List α → Prop
  | a, [] => a = nil
  | a, x :: xs => a = x ∧ x ≠ nil ∧ Linked next nil (next x) xs

variable {next : α → α} {nil a : α} {xs ys : List α}

@[simp] theorem linked_nil : Linked next nil a [] ↔ a = nil := Iff.rfl

theorem linked_cons {x : α} :
    Linked next nil a (x :: xs) ↔
      a = x ∧ x ≠ nil ∧ Linked next nil (next x) xs := Iff.rfl

/-- A walk that starts at the terminator is empty. -/
theorem Linked.eq_nil (h : Linked next nil nil xs) : xs = [] := by
  cases xs with
  | nil => rfl
  | cons x xs => exact absurd h.1.symm h.2.1

/-- A walk that starts elsewhere has its start as its first node. -/
theorem Linked.exists_cons (h : Linked next nil a xs) (ha : a ≠ nil) :
    ∃ tl, xs = a :: tl ∧ Linked next nil (next a) tl := by
  cases xs with
  | nil => exact absurd h ha
  | cons x xs =>
      obtain ⟨rfl, -, hrest⟩ := h
      exact ⟨xs, rfl, hrest⟩

/-- **Frame rule.** A list only depends on the links of its own nodes. -/
theorem Linked.congr {next' : α → α} (hsame : ∀ x ∈ xs, next' x = next x)
    (h : Linked next nil a xs) : Linked next' nil a xs := by
  induction xs generalizing a with
  | nil => exact h
  | cons x xs ih =>
      obtain ⟨hax, hx, hrest⟩ := h
      refine ⟨hax, hx, ?_⟩
      rw [hsame x (by simp)]
      exact ih (fun y hy => hsame y (List.mem_cons_of_mem _ hy)) hrest

end ProtoST.Lib

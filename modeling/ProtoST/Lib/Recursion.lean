import Mathlib.Data.Finset.Card
import Mathlib.Data.Fintype.EquivFin
import Mathlib.Data.Set.Finite.Basic
import Mathlib.Logic.Relation
import Mathlib.Order.WellFounded
import Mathlib.Order.RelClasses

/-!
# Recursions that need not return

A recursive procedure as a step that is given the procedure itself, run to a depth of
calls.  Where the calls of an argument can be told from the argument alone, the procedure
returns for exactly the arguments from which there is no endless chain of calls, and over
finitely many arguments such a chain runs in a circle.

## Main results

* `Calls.returns_iff_acc` — returning is accessibility in the call graph.
* `acc_iff_not_circular` — in a finite call graph that is the absence of a circle.
* `Calls.fueled_eq` — what a call returns satisfies the equation of the recursion.
-/

namespace ProtoST.Lib.Recursion

variable {α β : Type}

/-- The procedure `step` with calls to a depth of `n`. -/
def fueled (step : (α → Option β) → α → Option β) : Nat → α → Option β
  | 0, _ => none
  | n + 1, a => step (fueled step n) a

/-- The call of `a` returns. -/
def Returns (step : (α → Option β) → α → Option β) (a : α) : Prop :=
  ∃ n b, fueled step n a = some b

/-- The step makes the calls of `calls`, and returns when they all do. -/
structure Calls (step : (α → Option β) → α → Option β) (calls : α → List α) : Prop where
  congr : ∀ {r r' : α → Option β} {a : α}, (∀ b ∈ calls a, r b = r' b) →
    step r a = step r' a
  returns : ∀ {r : α → Option β} {a : α},
    (step r a).isSome ↔ ∀ b ∈ calls a, (r b).isSome

namespace Calls

variable {step : (α → Option β) → α → Option β} {calls : α → List α}

/-- More depth does not change an answer. -/
theorem fueled_mono (h : Calls step calls) {n m : Nat} (hle : n ≤ m) {a : α} {b : β}
    (hb : fueled step n a = some b) : fueled step m a = some b := by
  induction n generalizing m a b with
  | zero => cases hb
  | succ n ih =>
      obtain ⟨m, rfl⟩ : ∃ k, m = k + 1 := ⟨m - 1, by omega⟩
      have hsome : (step (fueled step n) a).isSome := Option.isSome_of_eq_some hb
      have hcalls := h.returns.mp hsome
      rw [fueled] at hb ⊢
      rw [← hb]
      refine h.congr fun c hc => ?_
      obtain ⟨d, hd⟩ := Option.isSome_iff_exists.mp (hcalls c hc)
      rw [hd]
      exact ih (by omega) hd

/-- What calls of a common depth return. -/
theorem fueled_eq (h : Calls step calls) {n : Nat} {a : α} {b : β}
    (hb : fueled step n a = some b) : step (fueled step n) a = some b :=
  h.fueled_mono (Nat.le_succ n) hb

theorem returns_of_forall (h : Calls step calls) {a : α}
    (hcalls : ∀ b ∈ calls a, Returns step b) : Returns step a := by
  -- a depth that is enough for all calls
  have hdepth : ∀ bs : List α, (∀ b ∈ bs, Returns step b) →
      ∃ n, ∀ b ∈ bs, (fueled step n b).isSome := by
    intro bs
    induction bs with
    | nil => exact fun _ => ⟨0, by simp⟩
    | cons b bs ih =>
        intro hbs
        obtain ⟨n, hn⟩ := ih fun c hc => hbs c (List.mem_cons_of_mem _ hc)
        obtain ⟨m, d, hd⟩ := hbs b List.mem_cons_self
        refine ⟨max n m, fun c hc => ?_⟩
        rcases List.mem_cons.mp hc with rfl | hc
        · exact Option.isSome_of_eq_some (h.fueled_mono (Nat.le_max_right n m) hd)
        · obtain ⟨e, he⟩ := Option.isSome_iff_exists.mp (hn c hc)
          exact Option.isSome_of_eq_some (h.fueled_mono (Nat.le_max_left n m) he)
  obtain ⟨n, hn⟩ := hdepth (calls a) hcalls
  obtain ⟨b, hb⟩ := Option.isSome_iff_exists.mp (h.returns.mpr hn)
  exact ⟨n + 1, b, hb⟩

/-- A call returns where no chain of calls from it is endless. -/
theorem returns_iff_acc (h : Calls step calls) {a : α} :
    Returns step a ↔ Acc (fun b a => b ∈ calls a) a := by
  constructor
  · rintro ⟨n, b, hb⟩
    induction n generalizing a b with
    | zero => cases hb
    | succ n ih =>
        have hsome : (step (fueled step n) a).isSome := Option.isSome_of_eq_some hb
        refine .intro a fun c hc => ?_
        obtain ⟨d, hd⟩ := Option.isSome_iff_exists.mp (h.returns.mp hsome c hc)
        exact ih d hd
  · intro hacc
    induction hacc with
    | intro a _ ih => exact h.returns_of_forall ih

end Calls

/-! ## Circles -/

section Circles

variable {calls : α → α → Prop} {a : α}

/-- A chain of calls from `a` comes to a call that it repeats. -/
def Circular (calls : α → α → Prop) (a : α) : Prop :=
  ∃ b, Relation.ReflTransGen calls a b ∧ Relation.TransGen calls b b

theorem not_circular_of_acc (h : Acc (fun b a => calls a b) a) : ¬ Circular calls a := by
  induction h with
  | intro a _ ih =>
      rintro ⟨b, hab, hbb⟩
      -- the circle is also reached from the first call
      rcases Relation.ReflTransGen.cases_head hab with rfl | ⟨c, hac, hcb⟩
      · obtain ⟨c, hac, hca⟩ := Relation.TransGen.head'_iff.mp hbb
        exact ih c hac ⟨a, hca, hbb⟩
      · exact ih c hac ⟨b, hcb, hbb⟩

/-- Where only finitely many arguments make calls, an endless chain runs in a circle. -/
theorem acc_of_not_circular (support : Finset α)
    (hsupport : ∀ {a b}, calls a b → a ∈ support) (h : ¬ Circular calls a) :
    Acc (fun b a => calls a b) a := by
  let Node := {b // b ∈ support ∧ Relation.ReflTransGen calls a b}
  have hfinite : Finite Node :=
    Set.Finite.to_subtype (support.finite_toSet.subset fun b hb => hb.1)
  let Below : Node → Node → Prop := fun x y => Relation.TransGen calls y.1 x.1
  have hirrefl : Std.Irrefl Below := ⟨fun x hx => h ⟨x.1, x.2.2, hx⟩⟩
  have htrans : IsTrans Node Below := ⟨fun _ _ _ hxy hyz => hyz.trans hxy⟩
  have hwf : WellFounded Below := Finite.wellFounded_of_trans_of_irrefl _
  have hacc : ∀ x : Node, Acc (fun b a => calls a b) x.1 := by
    intro x
    induction x using hwf.induction with
    | _ x ih =>
        refine .intro x.1 fun b hb => ?_
        by_cases hbs : b ∈ support
        · exact ih ⟨b, hbs, x.2.2.tail hb⟩ (.single hb)
        · exact .intro b fun c hc => absurd (hsupport hc) hbs
  by_cases ha : a ∈ support
  · exact hacc ⟨a, ha, .refl⟩
  · exact .intro a fun b hb => absurd (hsupport hb) ha

theorem acc_iff_not_circular (support : Finset α)
    (hsupport : ∀ {a b}, calls a b → a ∈ support) :
    Acc (fun b a => calls a b) a ↔ ¬ Circular calls a :=
  ⟨not_circular_of_acc, acc_of_not_circular support hsupport⟩

end Circles

end ProtoST.Lib.Recursion

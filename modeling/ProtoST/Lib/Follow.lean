import Mathlib.Data.Finset.Card
import Mathlib.Logic.Relation

/-!
# Following pointers

A partial function `next` is a graph in which every node has at most one edge out:
the owner chain of a lock table, a union-find forest, a linked structure.  A walk
follows the edges from a node until it is at a goal or at a node without an edge.

## Main results

* `walk_eq_true`, `walk_eq_false` — a walk that ends tells whether the goal can
  be reached.
* `walk_ne_none` — in an acyclic graph with finitely many edges a walk ends.
* `Acyclic.link` — an edge keeps a graph acyclic unless its end leads back.
* `Acyclic.mono`, `Acyclic.sink` — as do fewer edges, and edges to a node that
  has none itself.
-/

namespace ProtoST.Lib.Follow

universe u

variable {α : Type u} {next next' : α → Option α} {a b c : α}

/-- There is an edge from `a` to `b`. -/
def Edge (next : α → Option α) (a b : α) : Prop := next a = some b

/-- A path of any length from `a` to `b`. -/
abbrev Leads (next : α → Option α) : α → α → Prop :=
  Relation.ReflTransGen (Edge next)

/-- A path of at least one edge. -/
abbrev Leads1 (next : α → Option α) : α → α → Prop :=
  Relation.TransGen (Edge next)

/-- No node leads to itself. -/
def Acyclic (next : α → Option α) : Prop :=
  ∀ a, ¬ Leads1 next a a

/-- Follow the edges from a node for up to the given number of nodes. -/
def walk [DecidableEq α] (next : α → Option α) (goal : α) : Nat → α → Option Bool
  | 0, _ => none
  | n + 1, a =>
      if a = goal then some true
      else
        match next a with
        | none => some false
        | some b => walk next goal n b

section Walk

variable [DecidableEq α] {goal : α}

theorem walk_eq_true {n : Nat} :
    ∀ {a : α}, walk next goal n a = some true → Leads next a goal := by
  induction n with
  | zero =>
      intro a h
      cases h
  | succ n ih =>
      intro a h
      unfold walk at h
      split at h
      · rename_i hgoal
        rw [hgoal]
      · split at h
        · cases h
        · rename_i b hb
          exact .head hb (ih h)

theorem walk_eq_false {n : Nat} :
    ∀ {a : α}, walk next goal n a = some false → ¬ Leads next a goal := by
  induction n with
  | zero =>
      intro a h
      cases h
  | succ n ih =>
      intro a h hleads
      unfold walk at h
      split at h
      · cases h
      · rename_i hne
        rcases Relation.ReflTransGen.cases_head hleads with heq | ⟨b, hb, hrest⟩
        · exact hne heq
        · have hb' : next a = some b := hb
          rw [hb'] at h
          exact ih h hrest

/-- A walk that meets only new nodes with an edge ends: `seen` are the nodes it
has left. -/
theorem walk_ne_none_of_card (hacyclic : Acyclic next)
    (support : Finset α) (hsupport : ∀ a b, next a = some b → a ∈ support)
    {n : Nat} : ∀ {a : α} {seen : Finset α}, seen ⊆ support →
      (∀ x ∈ seen, Leads1 next x a) → support.card < n + seen.card →
      walk next goal n a ≠ none := by
  induction n with
  | zero =>
      intro a seen hsub _ hcard
      have hle := Finset.card_le_card hsub
      omega
  | succ n ih =>
      intro a seen hsub hseen hcard
      unfold walk
      split
      · simp
      · cases hb : next a with
        | none => simp
        | some b =>
            have hnew : a ∉ seen := fun ha => hacyclic a (hseen a ha)
            refine @ih b (insert a seen) ?_ ?_ ?_
            · intro x hx
              rcases Finset.mem_insert.mp hx with rfl | hx
              · exact hsupport _ _ hb
              · exact hsub hx
            · intro x hx
              rcases Finset.mem_insert.mp hx with rfl | hx
              · exact .single hb
              · exact (hseen x hx).tail hb
            · rw [Finset.card_insert_of_notMem hnew]
              omega

/-- In an acyclic graph whose edges start in `support` a walk ends. -/
theorem walk_ne_none (hacyclic : Acyclic next) (support : Finset α)
    (hsupport : ∀ a b, next a = some b → a ∈ support) :
    walk next goal (support.card + 1) a ≠ none :=
  walk_ne_none_of_card hacyclic support hsupport (Finset.empty_subset support)
    (by simp) (by simp)

end Walk

/-! ## Changes of the graph -/

/-- Fewer edges. -/
theorem Acyclic.mono (h : Acyclic next)
    (hle : ∀ a b, next' a = some b → next a = some b) : Acyclic next' :=
  fun a ha => h a (Relation.TransGen.mono hle _ _ ha)

/-- A path of a larger graph uses a new edge or is a path already. -/
theorem Leads.old_or_new (hle : ∀ x y, next' x = some y →
      next x = some y ∨ (x = a ∧ y = b)) {x y : α} (h : Leads next' x y) :
    Leads next x y ∨ (Leads next x a ∧ Leads next b y) := by
  induction h with
  | refl => exact .inl .refl
  | tail _ hedge ih =>
      rcases hle _ _ hedge with hold | ⟨rfl, rfl⟩
      · rcases ih with hxy | ⟨hxa, hby⟩
        · exact .inl (hxy.tail hold)
        · exact .inr ⟨hxa, hby.tail hold⟩
      · rcases ih with hxy | ⟨hxa, _⟩
        · exact .inr ⟨hxy, .refl⟩
        · exact .inr ⟨hxa, .refl⟩

/-- One more edge, whose end does not lead back. -/
theorem Acyclic.link (h : Acyclic next)
    (hle : ∀ x y, next' x = some y → next x = some y ∨ (x = a ∧ y = b))
    (hback : ¬ Leads next b a) : Acyclic next' := by
  intro x hx
  obtain ⟨y, hedge, hrest⟩ := Relation.TransGen.head'_iff.mp hx
  rcases hle _ _ hedge with hold | ⟨rfl, rfl⟩
  · rcases Leads.old_or_new hle hrest with hyx | ⟨hya, hbx⟩
    · exact h x (.head' hold hyx)
    · exact hback (hbx.trans (.head hold hya))
  · rcases Leads.old_or_new hle hrest with hyx | ⟨hya, _⟩
    · exact hback hyx
    · exact hback hya

/-- More edges to a node that has none. -/
theorem Acyclic.sink (h : Acyclic next) (hnone : next' b = none)
    (hle : ∀ x y, next' x = some y → next x = some y ∨ y = b) :
    Acyclic next' := by
  -- a path that does not end at the sink never touches it
  have hold : ∀ x y, Leads1 next' x y → y ≠ b → Leads1 next x y := by
    intro x y hpath
    induction hpath with
    | single hedge =>
        intro hne
        rcases hle _ _ hedge with hold | heq
        · exact .single hold
        · exact absurd heq hne
    | tail hinit hedge ih =>
        rename_i y z
        intro hne
        rcases hle _ _ hedge with hold | heq
        · have hy : y ≠ b := by
            rintro rfl
            have hz : next' y = some z := hedge
            rw [hnone] at hz
            cases hz
          exact (ih hy).tail hold
        · exact absurd heq hne
  intro x hx
  have hne : x ≠ b := by
    rintro rfl
    obtain ⟨y, hedge, -⟩ := Relation.TransGen.head'_iff.mp hx
    have hy : next' x = some y := hedge
    rw [hnone] at hy
    cases hy
  exact h x (hold x x hx hne)

end ProtoST.Lib.Follow

import Mathlib
import ProtoST.Lib.Recursion
import ProtoST.Frontend.ClassTable

/-!
# Inherited variables

`instVarsThroughChain` walks the superclass chain of a class and calls itself for the mixins
of every class on it, so it is a recursion whose depth the declarations decide: it is given
the depth of calls there is room for.

## Main results

* `ClassMap.returns_iff` — collecting the instance variables of a class ends unless its
  mixins lead back to a class met before.
* `ClassMap.mem_instVars`, `ClassMap.nodup_instVars` — what is collected.
* `instVars_once_iff` — every visible variable is answered once exactly when the
  declarations are not circular.
-/

namespace ProtoST.Frontend

open ProtoST.Lib

/-- The instance variables a class declares for a side of it. -/
def ClassInfo.vars (info : ClassInfo) (classSide : Bool) : List String :=
  if classSide then info.classInstVarNames else info.instVarNames

namespace ClassMap

variable {classes : ClassMap} {cur : String} {e : Entry}

/-- The names that are not in the chain yet, behind it. -/
def addNew (chain names : List String) : List String :=
  names.foldl (fun chain iv => if iv ∈ chain then chain else chain ++ [iv]) chain

/-- One class of the chain: its own variables and those of its mixins. -/
def addClass (classSide : Bool) (className : String)
    (instVarsThroughChain : String → Option (List String)) (chain : List String) (e : Entry) :
    Option (List String) :=
  e.2.mixinNames.foldlM
    (fun chain mixin =>
      if mixin = className then some chain
      else (instVarsThroughChain mixin).map (addNew chain))
    (addNew chain (e.2.vars classSide))

variable (classes) in
/-- The body of `instVarsThroughChain`. -/
def instVarsStep (classSide : Bool) (instVarsThroughChain : String → Option (List String))
    (className : String) : Option (List String) :=
  (classes.superclasses className).reverse.foldlM
    (addClass classSide className instVarsThroughChain) []

variable (classes) in
/-- `instVarsThroughChain`, with room for `depth` calls. -/
def instVarsThroughChain (classSide : Bool) (depth : Nat) (className : String) :
    Option (List String) :=
  Recursion.fueled (classes.instVarsStep classSide) depth className

variable (classes) in
/-- The mixins it calls itself for. -/
def mixinCalls (className : String) : List String :=
  ((classes.superclasses className).flatMap fun e => e.2.mixinNames).filter (· ≠ className)

variable (classes) in
/-- A class other than `c` is a mixin of `c` or of a superclass of it. -/
def MixesIn (c mixin : String) : Prop :=
  mixin ≠ c ∧ ∃ e, classes.Ancestor c e ∧ mixin ∈ e.2.mixinNames

/-- The variables a method of a class sees: those its superclasses declare, and those of
their mixins. -/
inductive Visible (classes : ClassMap) (classSide : Bool) : String → String → Prop
  | declared {className iv : String} {e : Entry} :
      classes.Ancestor className e → iv ∈ e.2.vars classSide →
        Visible classes classSide className iv
  | mixedIn {className mixin iv : String} {e : Entry} :
      classes.Ancestor className e → mixin ∈ e.2.mixinNames →
      Visible classes classSide mixin iv → Visible classes classSide className iv

theorem mem_mixinCalls {c mixin : String} :
    mixin ∈ classes.mixinCalls c ↔ classes.MixesIn c mixin := by
  simp only [mixinCalls, List.mem_filter, List.mem_flatMap, mem_superclasses, MixesIn,
    decide_eq_true_eq]
  exact and_comm

section AddNew

variable {chain names : List String} {iv : String}

theorem mem_addNew : iv ∈ addNew chain names ↔ iv ∈ chain ∨ iv ∈ names := by
  induction names generalizing chain with
  | nil => simp [addNew]
  | cons x names ih =>
      have hstep : addNew chain (x :: names)
          = addNew (if x ∈ chain then chain else chain ++ [x]) names := rfl
      rw [hstep, ih]
      split
      · rename_i hx
        constructor
        · exact Or.imp_right (List.mem_cons_of_mem _)
        · rintro (hchain | hnames)
          · exact .inl hchain
          · rcases List.mem_cons.mp hnames with rfl | hnames
            · exact .inl hx
            · exact .inr hnames
      · simp [or_assoc]

theorem nodup_addNew (h : chain.Nodup) : (addNew chain names).Nodup := by
  induction names generalizing chain with
  | nil => exact h
  | cons x names ih =>
      have hstep : addNew chain (x :: names)
          = addNew (if x ∈ chain then chain else chain ++ [x]) names := rfl
      rw [hstep]
      refine ih ?_
      split
      · exact h
      · rename_i hx
        exact List.nodup_append.mpr ⟨h, List.nodup_singleton x, by
          intro a ha b hb
          rw [List.mem_singleton.mp hb]
          exact fun heq => hx (heq ▸ ha)⟩

end AddNew

/-- A fold whose steps fail or not whatever has been gathered. -/
theorem isSome_foldlM {γ δ : Type} {f : δ → γ → Option δ} {P : γ → Prop} {xs : List γ}
    (hf : ∀ x ∈ xs, ∀ acc, (f acc x).isSome ↔ P x) (acc : δ) :
    (xs.foldlM f acc).isSome ↔ ∀ x ∈ xs, P x := by
  induction xs generalizing acc with
  | nil => simp
  | cons x xs ih =>
      have hx := hf x List.mem_cons_self acc
      rw [List.foldlM_cons, List.forall_mem_cons, ← hx]
      cases hstep : f acc x with
      | none => simp
      | some acc' =>
          simpa using ih (fun y hy => hf y (List.mem_cons_of_mem _ hy)) acc'

theorem foldlM_congr {γ δ : Type} {f g : δ → γ → Option δ} {xs : List γ}
    (h : ∀ x ∈ xs, ∀ acc, f acc x = g acc x) (acc : δ) : xs.foldlM f acc = xs.foldlM g acc := by
  induction xs generalizing acc with
  | nil => rfl
  | cons x xs ih =>
      rw [List.foldlM_cons, List.foldlM_cons, h x List.mem_cons_self acc]
      congr 1
      funext acc'
      exact ih (fun y hy => h y (List.mem_cons_of_mem _ hy)) acc'

/-- What a fold keeps of what it has gathered. -/
theorem foldlM_invariant {γ δ : Type} {f : δ → γ → Option δ} {P : List γ → δ → Prop}
    (hf : ∀ before acc x acc', P before acc → f acc x = some acc' → P (before ++ [x]) acc')
    {xs : List γ} {acc acc' : δ} (before : List γ) (h : P before acc)
    (hfold : xs.foldlM f acc = some acc') : P (before ++ xs) acc' := by
  induction xs generalizing acc before with
  | nil =>
      cases hfold
      rwa [List.append_nil]
  | cons x xs ih =>
      rw [List.foldlM_cons] at hfold
      obtain ⟨mid, hmid, hrest⟩ := Option.bind_eq_some_iff.mp hfold
      have hnext := ih (before ++ [x]) (hf before acc x mid h hmid) hrest
      rwa [List.append_assoc] at hnext

section Step

variable {classSide : Bool} {className : String} {recur : String → Option (List String)}

theorem isSome_addClass {chain : List String} :
    (addClass classSide className recur chain e).isSome ↔
      ∀ mixin ∈ e.2.mixinNames, mixin ≠ className → (recur mixin).isSome := by
  refine isSome_foldlM (fun mixin _ chain => ?_) _
  split
  · simp_all
  · rename_i hne
    simp [hne]

/-- The mixins called for are those that are not the class itself. -/
theorem calls_instVarsStep :
    Recursion.Calls (classes.instVarsStep classSide) classes.mixinCalls where
  congr := by
    intro r r' a hagree
    have hmixin : ∀ e ∈ classes.superclasses a, ∀ mixin ∈ e.2.mixinNames, mixin ≠ a →
        r mixin = r' mixin := by
      intro e he mixin hmixin hne
      refine hagree mixin (List.mem_filter.mpr ⟨List.mem_flatMap.mpr ⟨e, he, hmixin⟩, ?_⟩)
      simpa using hne
    have hclass : ∀ e ∈ classes.superclasses a, ∀ chain,
        addClass classSide a r chain e = addClass classSide a r' chain e := by
      intro e he chain
      refine foldlM_congr (fun mixin hmem chain => ?_) _
      split
      · rfl
      · rename_i hne
        rw [hmixin e he mixin hmem hne]
    exact foldlM_congr (fun e he => hclass e (List.mem_reverse.mp he)) _
  returns := by
    intro r a
    have hclass : ∀ e ∈ (classes.superclasses a).reverse, ∀ chain,
        (addClass classSide a r chain e).isSome ↔
          ∀ mixin ∈ e.2.mixinNames, mixin ≠ a → (r mixin).isSome :=
      fun _ _ _ => isSome_addClass
    have hfold := isSome_foldlM hclass []
    rw [instVarsStep, hfold]
    simp only [List.mem_reverse, mixinCalls, List.mem_filter, List.mem_flatMap,
      decide_eq_true_eq]
    exact ⟨fun h b ⟨⟨e, he, hb⟩, hne⟩ => h e he b hb hne,
      fun h e he b hb hne => h b ⟨⟨e, he, hb⟩, hne⟩⟩

/-- What one class adds. -/
def Adds (classSide : Bool) (className : String) (recur : String → Option (List String))
    (e : Entry) (iv : String) : Prop :=
  iv ∈ e.2.vars classSide ∨
    ∃ mixin ∈ e.2.mixinNames, mixin ≠ className ∧ ∃ vars, recur mixin = some vars ∧ iv ∈ vars

theorem addClass_spec {chain chain' : List String}
    (h : addClass classSide className recur chain e = some chain') (hchain : chain.Nodup) :
    chain'.Nodup ∧ ∀ iv, iv ∈ chain' ↔ iv ∈ chain ∨ Adds classSide className recur e iv := by
  have hinv := foldlM_invariant
    (P := fun before acc => acc.Nodup ∧ ∀ iv, iv ∈ acc ↔ iv ∈ chain ∨ iv ∈ e.2.vars classSide ∨
      ∃ mixin ∈ before, mixin ≠ className ∧ ∃ vars, recur mixin = some vars ∧ iv ∈ vars)
    ?_ [] ⟨nodup_addNew hchain, fun iv => by simp [mem_addNew]⟩ h
  · exact hinv
  · rintro before acc mixin acc' ⟨hnodup, hmem⟩ hstep
    split at hstep
    · rename_i heq
      cases hstep
      refine ⟨hnodup, fun iv => ?_⟩
      rw [hmem]
      simp [heq, or_and_right, exists_or]
    · rename_i hne
      obtain ⟨vars, hvars, rfl⟩ := Option.map_eq_some_iff.mp hstep
      refine ⟨nodup_addNew hnodup, fun iv => ?_⟩
      rw [mem_addNew, hmem]
      simp [hne, hvars, or_and_right, exists_or, or_assoc]

/-- The variables of the whole chain, each once. -/
theorem instVarsStep_spec {vars : List String}
    (h : classes.instVarsStep classSide recur className = some vars) :
    vars.Nodup ∧ ∀ iv, iv ∈ vars ↔
      ∃ e, classes.Ancestor className e ∧ Adds classSide className recur e iv := by
  have hinv := foldlM_invariant
    (P := fun before acc => acc.Nodup ∧
      ∀ iv, iv ∈ acc ↔ ∃ e ∈ before, Adds classSide className recur e iv)
    ?_ [] ⟨List.nodup_nil, by simp⟩ h
  · refine hinv.imp_right fun hmem iv => ?_
    rw [hmem]
    simp [mem_superclasses]
  · rintro before acc e acc' ⟨hnodup, hmem⟩ hstep
    obtain ⟨hnodup', hmem'⟩ := addClass_spec hstep hnodup
    refine ⟨hnodup', fun iv => ?_⟩
    rw [hmem', hmem]
    simp [or_and_right, exists_or]

end Step

section InstVars

variable {classSide : Bool} {depth : Nat} {className iv : String} {vars : List String}

theorem nodup_instVars (h : classes.instVarsThroughChain classSide depth className = some vars) :
    vars.Nodup :=
  (instVarsStep_spec (calls_instVarsStep.fueled_eq h)).1

theorem visible_of_mem (h : classes.instVarsThroughChain classSide depth className = some vars)
    (hiv : iv ∈ vars) : Visible classes classSide className iv := by
  induction depth generalizing className vars with
  | zero => cases h
  | succ depth ih =>
      obtain ⟨e, he, hadds⟩ := ((instVarsStep_spec h).2 iv).mp hiv
      rcases hadds with hdeclared | ⟨mixin, hmixin, -, vars', hvars', hiv'⟩
      · exact .declared he hdeclared
      · exact .mixedIn he hmixin (ih hvars' hiv')

theorem mem_of_visible (h : classes.instVarsThroughChain classSide depth className = some vars)
    (hiv : Visible classes classSide className iv) : iv ∈ vars := by
  induction hiv generalizing depth vars with
  | declared he hdeclared =>
      exact ((instVarsStep_spec (calls_instVarsStep.fueled_eq h)).2 _).mpr
        ⟨_, he, .inl hdeclared⟩
  | @mixedIn className mixin iv e he hmixin hvisible ih =>
      -- a class that is its own mixin is not visited again
      by_cases heq : mixin = className
      · subst heq
        exact ih h
      · have hstep := calls_instVarsStep.fueled_eq h
        have hcall := calls_instVarsStep.returns.mp (Option.isSome_of_eq_some hstep) mixin
          (mem_mixinCalls.mpr ⟨heq, e, he, hmixin⟩)
        obtain ⟨vars', hvars'⟩ := Option.isSome_iff_exists.mp hcall
        exact ((instVarsStep_spec hstep).2 iv).mpr
          ⟨e, he, .inr ⟨mixin, hmixin, heq, vars', hvars', ih hvars'⟩⟩

/-- What is collected is what the methods of the class see. -/
theorem mem_instVars (h : classes.instVarsThroughChain classSide depth className = some vars) :
    iv ∈ vars ↔ Visible classes classSide className iv :=
  ⟨visible_of_mem h, mem_of_visible h⟩

/-- Only classes of the table, and what leads to them, make calls. -/
theorem mem_support_of_mixesIn {c mixin : String} (h : classes.MixesIn c mixin) :
    c ∈ classes.keys.toFinset := by
  obtain ⟨-, e, ⟨name, hleads, hentry⟩, -⟩ := h
  have hfirst : (classes.lookup c).isSome := by
    rcases Relation.ReflTransGen.cases_head hleads with rfl | ⟨d, hedge, -⟩
    · exact Option.isSome_of_eq_some (entry_eq_some.mp hentry).2.2
    · obtain ⟨e', he', -⟩ := Option.map_eq_some_iff.mp hedge
      exact Option.isSome_of_eq_some (entry_eq_some.mp he').2.2
  rw [List.mem_toFinset]
  exact AList.mem_keys.mp (AList.lookup_isSome.mp hfirst)

/-- Collecting ends unless the mixins lead back to a class met before. -/
theorem returns_iff :
    Recursion.Returns (classes.instVarsStep classSide) className ↔
      ¬ Recursion.Circular classes.MixesIn className := by
  rw [calls_instVarsStep.returns_iff_acc,
    ← Recursion.acc_iff_not_circular classes.keys.toFinset mem_support_of_mixesIn]
  simp only [mem_mixinCalls]

end InstVars

end ClassMap

/-- `instVarsThroughChain` answers every visible variable exactly once if and only if no
class it comes to is, over superclasses and mixins, a mixin of itself by way of another. -/
theorem instVars_once_iff (classes : ClassMap) (classSide : Bool) (className : String) :
    (∃ depth vars, classes.instVarsThroughChain classSide depth className = some vars ∧
        vars.Nodup ∧ ∀ iv, iv ∈ vars ↔ ClassMap.Visible classes classSide className iv) ↔
      ¬ Recursion.Circular classes.MixesIn className := by
  rw [← @ClassMap.returns_iff classes classSide className]
  constructor
  · rintro ⟨depth, vars, h, -⟩
    exact ⟨depth, vars, h⟩
  · rintro ⟨depth, vars, h⟩
    exact ⟨depth, vars, h, ClassMap.nodup_instVars h, fun iv => ClassMap.mem_instVars h⟩

/-- Two classes that mix in each other. -/
def mutualMixins : List Top :=
  [.classDecl ⟨"A", "Object", ["x"], [], some (.arrayLit [.identifier "B"])⟩,
    .classDecl ⟨"B", "Object", ["y"], [], some (.arrayLit [.identifier "A"])⟩]

/-- No depth of calls is enough for them. -/
theorem mutualMixins_diverge :
    ¬ ∃ depth vars, (ClassMap.collected ∅ ∅ mutualMixins).instVarsThroughChain false depth "A"
      = some vars := by
  rintro ⟨depth, vars, hvars⟩
  have hA : ClassMap.MixesIn (ClassMap.collected ∅ ∅ mutualMixins) "A" "B" :=
    ⟨by decide, ("A", ⟨"A", "Object", ["x"], [], [], ["B"]⟩), ⟨"A", .refl, by decide⟩, by simp⟩
  have hB : ClassMap.MixesIn (ClassMap.collected ∅ ∅ mutualMixins) "B" "A" :=
    ⟨by decide, ("B", ⟨"B", "Object", ["y"], [], [], ["A"]⟩), ⟨"B", .refl, by decide⟩, by simp⟩
  have hcircle : Recursion.Circular (ClassMap.collected ∅ ∅ mutualMixins).MixesIn "A" :=
    ⟨"A", .refl, .head hA (.single hB)⟩
  exact ClassMap.returns_iff.mp ⟨depth, vars, hvars⟩ hcircle

end ProtoST.Frontend

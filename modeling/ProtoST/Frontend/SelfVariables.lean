import Mathlib
import ProtoST.Frontend.SeparateCompilation
import ProtoST.Frontend.SiteWalks

/-!
# Variables of `self`

The instance, class-instance and class variables that a method sees belong to `self`: they
are accessed through instructions of their own and have no place in closure dictionaries.
The closure analysis leaves them out by a set that it computes by itself, from the same
tables as the emission for a method, but for a call-form method without the class variables
of superclasses.

## Main results

* `ClassMap.scope_spec` — the variables emission knows are the visible ones.
* `self_variables_iff` — when a variable of `self` is compiled to an access of `self`
  wherever a method names it.
-/

namespace ProtoST.Frontend

open ProtoST.Lib ProtoST.Runtime.Bytecode

/-! ## The variables of a class -/

namespace ClassMap

variable {classes : ClassMap} {className v : String}

/-- A superclass of the class declares the class variable. -/
def ClassVariable (classes : ClassMap) (className v : String) : Prop :=
  ∃ e, classes.Ancestor className e ∧ v ∈ e.2.classVarNames

/-- The class or a superclass declares the variable, or a mixin of one of them. -/
def VariableOf (classes : ClassMap) (classSide : Bool) (className v : String) : Prop :=
  Visible classes classSide className v ∨ classes.ClassVariable className v

theorem mem_foldl_addNew (es : List Entry) (out : List String) :
    v ∈ es.foldl (fun out e => addNew out e.2.classVarNames) out ↔
      v ∈ out ∨ ∃ e ∈ es, v ∈ e.2.classVarNames := by
  induction es generalizing out with
  | nil => simp
  | cons e es ih =>
      rw [List.foldl_cons, ih, mem_addNew]
      simp [or_assoc]

theorem mem_resolveClassVarsFor :
    v ∈ classes.resolveClassVarsFor className ↔ classes.ClassVariable className v := by
  rw [resolveClassVarsFor, mem_foldl_addNew]
  simp [ClassVariable, mem_superclasses]

/-- What emission knows of a class. -/
structure Knows (classes : ClassMap) (className : String) (cls : ClassScope) : Prop where
  instVars : ∀ v, v ∈ cls.instVars ↔ Visible classes false className v
  classInstVars : ∀ v, v ∈ cls.classInstVars ↔ Visible classes true className v
  classVars : ∀ v, v ∈ cls.classVars ↔ classes.ClassVariable className v
  ownClassVars : cls.ownClassVars
    = ((classes.lookup className).map ClassInfo.classVarNames).getD []

theorem scope_spec {depth : Nat} {cls : ClassScope} (h : classes.scope depth className = some cls) :
    Knows classes className cls := by
  obtain ⟨instVars, hinst, hrest⟩ := Option.bind_eq_some_iff.mp h
  obtain ⟨classInstVars, hclass, rfl⟩ := Option.map_eq_some_iff.mp hrest
  exact ⟨fun _ => mem_instVars hinst, fun _ => mem_instVars hclass,
    fun _ => mem_resolveClassVarsFor, rfl⟩

end ClassMap

/-! ## Rejected identifiers -/

namespace Site

variable {s : Site} {err : CompileError}

/-- An undeclared name is reported by its name. -/
theorem Rejects.name (h : s.Rejects err) {x : String} (herr : err.undeclaredName = some x) :
    s.name = x := by
  rcases h with ⟨-, htarget⟩ | ⟨-, htarget⟩
  · unfold loadTarget at htarget
    split at htarget
    · cases htarget
    split at htarget
    · cases htarget
    split at htarget
    · cases htarget
    split at htarget
    · cases htarget
    split at htarget
    · split at htarget
      · cases htarget
        exact Option.some.inj herr
      · cases htarget
    · cases htarget
  · have hundeclared : ∀ e, undeclaredInMethod s.ctx s.scope s.name = some e →
        e.undeclaredName = some s.name := by
      intro e he
      unfold undeclaredInMethod at he
      split at he
      · cases he
      · split at he
        · cases he
        · cases he
          rfl
    unfold storeTarget at htarget
    split at htarget
    · cases htarget
      cases herr
    split at htarget
    · split at htarget
      · rename_i e he
        cases htarget
        exact Option.some.inj ((hundeclared _ he).symm.trans herr)
      · cases htarget
    split at htarget
    · cases htarget
    split at htarget
    · cases htarget
    split at htarget
    · cases htarget
    split at htarget
    · cases htarget
    split at htarget
    · rename_i e he
      cases htarget
      exact Option.some.inj ((hundeclared _ he).symm.trans herr)
    · cases htarget

/-- A name the program declares is not reported. -/
theorem not_rejects_of_bound {ctx : Context} {captured : List String} (hfits : s.Fits ctx captured)
    (hbound : s.name ∈ s.place.bound) (herr : err.undeclaredName ≠ none) : ¬ s.Rejects err := by
  obtain ⟨slot, hslot⟩ := Option.isSome_iff_exists.mp (hfits.opens.resolved _ hbound)
  rw [← resolveLocal] at hslot
  rintro (⟨-, htarget⟩ | ⟨-, htarget⟩)
  · unfold loadTarget at htarget
    rw [hslot] at htarget
    split at htarget <;> cases htarget
  · have hdeclared : undeclaredInMethod s.ctx s.scope s.name = none := by
      unfold undeclaredInMethod
      rw [hslot]
      split <;> rfl
    unfold storeTarget at htarget
    rw [hslot, hdeclared] at htarget
    split at htarget
    · cases htarget
      exact herr rfl
    · split at htarget <;> cases htarget

/-- A variable of `self` without a slot that is not captured is not reported. -/
theorem not_rejects_of_free (hresolve : resolveLocal s.ctx s.scope s.name = none)
    (hcaptured : isCaptured s.ctx s.scope s.name = false)
    (hself : s.name ∈ selfVariables s.ctx) : ¬ s.Rejects err := by
  have htarget : selfTarget s.ctx s.name ≠ .rejected err := by
    unfold selfTarget
    split <;> simp
  rintro (⟨-, hload⟩ | ⟨-, hstore⟩)
  · exact htarget ((loadTarget_of_free hcaptured hresolve hself).symm.trans hload)
  · exact htarget ((storeTarget_of_free hcaptured hresolve hself).symm.trans hstore)

/-- A temporary of the compiler that has a slot in an open scope has the name. -/
def Hidden (s : Site) : Prop :=
  Temporary s.name ∧ (resolveLocal s.ctx s.scope s.name).isSome

end Site

/-! ## Methods -/

/-- A call-form method takes the name for a variable of its own and puts it in its closure
dictionary: a class variable that only superclasses of the class declare, assigned outside
every block and used in a block that is not inlined. -/
structure Boxes (classes : ClassMap) (cls : ClassScope) (m : MethodParts) (sites : List Site)
    (v : String) : Prop where
  callForm : m.callForm ≠ none
  notVisible : ¬ ClassMap.Visible classes m.classSide m.className v
  notOwn : v ∉ cls.ownClassVars
  assigned : ∃ site ∈ sites, site.name = v ∧ site.use ≠ .read ∧ site.place.inBlock = false
  needed : ∃ site ∈ sites, site.Free v ∧ 0 < site.place.level

/-- A method is compiled to its module, which is installed on its class. -/
theorem emitTop_method {ctx : Context} {table : String → Option ClassScope} {top : Top}
    {cls : ClassScope} {m : MethodParts} (hm : top.method cls = some m)
    (hcls : table m.className = some cls) :
    emitTop ctx table top = emitInstall m.className m.selector m.classSide (m.emit cls ctx) := by
  cases top with
  | classDecl d => cases hm
  | statement n => cases hm
  | methodDecl d =>
      cases hm
      simp only [emitTop, hcls, Option.getD_some]
      rfl
  | callMethodDecl d =>
      cases hm
      have hpositional : (d.positional ++ d.named.map Prod.fst).length - d.named.length
          = d.positional.length := by
        rw [List.length_append, List.length_map, Nat.add_sub_cancel]
      simp only [emitTop, hcls, Option.getD_some]
      congr 1
      funext st
      simp only [MethodParts.emit, hpositional]
      rfl

section Method

variable {classes : ClassMap} {cls : ClassScope} {top : Top} {m : MethodParts} {v : String}

/-- What the analysis leaves out of the variables emission knows. -/
theorem mem_analysed (hm : top.method cls = some m) :
    v ∈ m.analysed ↔ v ∈ m.instVars cls ∨
      (v ∈ if m.callForm = none then cls.classVars else cls.ownClassVars) := by
  cases top with
  | classDecl d => cases hm
  | statement n => cases hm
  | methodDecl d =>
      cases hm
      simp [MethodParts.instVars]
  | callMethodDecl d =>
      cases hm
      simp [MethodParts.instVars]

theorem mem_instVars_iff (hknows : classes.Knows m.className cls) :
    v ∈ m.instVars cls ↔ ClassMap.Visible classes m.classSide m.className v := by
  unfold MethodParts.instVars
  cases m.classSide with
  | true => exact hknows.classInstVars v
  | false => exact hknows.instVars v

/-- Which variables of `self` a method captures. -/
theorem mem_captured_iff (hm : top.method cls = some m) (hknows : classes.Knows m.className cls)
    (ctx : Context) (st : Emitter) (hv : classes.VariableOf m.classSide m.className v)
    (hbound : v ∉ m.place.bound) :
    v ∈ m.captured ↔ Boxes classes cls m (m.sites cls ctx st) v := by
  have hnames : v ∉ m.names := fun h => hbound (List.mem_cons_of_mem _ h)
  have hfollows := m.follows cls ctx st
  have hivars : v ∈ without m.analysed m.names ↔ v ∈ m.analysed := by
    rw [mem_without]
    exact ⟨And.left, fun h => ⟨h, hnames⟩⟩
  rw [m.mem_captured hnames]
  constructor
  · rintro ⟨hdeclared, hinner⟩
    have hanalysed : v ∉ m.analysed :=
      fun h => hfollows.excluded v (hivars.mpr h) hinner
    obtain ⟨hvisible, hclass⟩ := not_or.mp fun h => hanalysed ((mem_analysed hm).mpr h)
    rw [mem_instVars_iff hknows] at hvisible
    have hform : m.callForm ≠ none := by
      intro hform
      rw [if_pos hform, hknows.classVars] at hclass
      exact hv.elim hvisible hclass
    rw [if_neg hform] at hclass
    exact ⟨hform, hvisible, hclass, (hfollows.declares (m.start cls st) v).mp hdeclared,
      (hfollows.inner (m.start cls st) v hbound fun h => hanalysed (hivars.mp h)).mp hinner⟩
  · rintro ⟨hform, hvisible, hown, hassigned, hneeded⟩
    have hanalysed : v ∉ m.analysed := by
      rw [mem_analysed hm, if_neg hform, mem_instVars_iff hknows]
      exact fun h => h.elim hvisible hown
    exact ⟨(hfollows.declares (m.start cls st) v).mpr hassigned,
      (hfollows.inner (m.start cls st) v hbound fun h => hanalysed (hivars.mp h)).mpr hneeded⟩

end Method

/-- Wherever a method names a variable of `self` that it does not declare, the variable is
compiled to an access of `self`, is in no closure dictionary and is not reported as
undeclared, if and only if the method does not take it for a variable of its own and no
temporary of the compiler hides it. -/
theorem self_variables_iff {classes : ClassMap} {depth : Nat} {cls : ClassScope} {top : Top}
    {m : MethodParts} (hm : top.method cls = some m)
    (hcls : classes.scope depth m.className = some cls) (ctx : Context) (st : Emitter) {v : String}
    (hv : classes.VariableOf m.classSide m.className v) :
    ((∀ site ∈ m.sites cls ctx st, site.Free v →
        site.OfSelf ∧ isCaptured site.ctx site.scope v = false) ∧
      ∀ err ∈ (m.emit cls ctx st).2, err.undeclaredName = some v → err ∈ st.errors) ↔
    ¬ Boxes classes cls m (m.sites cls ctx st) v ∧
      ∀ site ∈ m.sites cls ctx st, site.Free v → ¬ site.Hidden := by
  have hknows := ClassMap.scope_spec hcls
  have hfollows := m.follows cls ctx st
  have hwithin : ∀ site ∈ m.sites cls ctx st, site.place.Within m.place :=
    hfollows.within (m.start cls st)
  have hfits : ∀ site ∈ m.sites cls ctx st, site.Fits (m.context cls ctx st.scope) m.captured :=
    hfollows.fits (m.start cls st) trivial (m.opens cls ctx st)
  have hself : ∀ site ∈ m.sites cls ctx st, v ∈ selfVariables site.ctx := by
    intro site hsite
    have hmethod : selfVariables site.ctx = m.instVars cls ++ cls.classVars := by
      rw [selfVariables, instVarNames, classVarNames, (hfits site hsite).method]
      rfl
    rw [hmethod, List.mem_append, mem_instVars_iff hknows, hknows.classVars]
    exact hv
  -- what decides at one identifier
  have hsite : ∀ site ∈ m.sites cls ctx st, site.Free v →
      (site.OfSelf ↔ ¬ site.Hidden ∧ v ∉ m.captured) := by
    rintro site hmem ⟨rfl, hfree⟩
    have hfit := hfits site hmem
    rw [Site.ofSelf_iff hfit.opens hfit.group hfree (hself site hmem)]
    refine and_congr_left fun _ => ?_
    have htemporary : (resolveLocal site.ctx site.scope site.name).isSome → Temporary site.name :=
      fun h => (hfit.opens.named _ h).resolve_left hfree
    rw [Site.Hidden, not_and, ← Option.not_isSome_iff_eq_none]
    exact ⟨fun h _ => h, fun h hsome => h (htemporary hsome) hsome⟩
  have hbound : ∀ site ∈ m.sites cls ctx st, site.Free v → v ∉ m.place.bound :=
    fun site hmem hfree h => hfree.2 ((hwithin site hmem).bound v h)
  constructor
  · rintro ⟨hall, -⟩
    refine ⟨fun hboxes => ?_, fun site hmem hfree =>
      ((hsite site hmem hfree).mp (hall site hmem hfree).1).1⟩
    obtain ⟨site, hmem, hfree, -⟩ := hboxes.needed
    exact ((hsite site hmem hfree).mp (hall site hmem hfree).1).2
      ((mem_captured_iff hm hknows ctx st hv (hbound site hmem hfree)).mpr hboxes)
  · rintro ⟨hboxes, hhidden⟩
    have hnot : ∀ site ∈ m.sites cls ctx st, site.Free v → v ∉ m.captured :=
      fun site hmem hfree h =>
        hboxes ((mem_captured_iff hm hknows ctx st hv (hbound site hmem hfree)).mp h)
    have hall : ∀ site ∈ m.sites cls ctx st, site.Free v → site.OfSelf :=
      fun site hmem hfree =>
        (hsite site hmem hfree).mpr ⟨hhidden site hmem hfree, hnot site hmem hfree⟩
    have hplace : ∀ site ∈ m.sites cls ctx st, site.Free v →
        resolveLocal site.ctx site.scope v = none ∧ isCaptured site.ctx site.scope v = false := by
      rintro site hmem ⟨rfl, hfree⟩
      have hfit := hfits site hmem
      have hresolve := ((Site.ofSelf_iff hfit.opens hfit.group hfree (hself site hmem)).mp
        (hall site hmem ⟨rfl, hfree⟩)).1
      refine ⟨hresolve, ?_⟩
      rw [Bool.eq_false_iff]
      exact fun h => hnot site hmem ⟨rfl, hfree⟩
        ((hfit.opens.captured_iff _ hfree hresolve).mp h)
    refine ⟨fun site hmem hfree => ⟨hall site hmem hfree, (hplace site hmem hfree).2⟩,
      fun err herr hname => ?_⟩
    -- an error of the code is one of an identifier of that name
    have hne : err.undeclaredName ≠ none := by
      rw [hname]
      exact Option.some_ne_none v
    rcases hfollows.errors (m.start cls st) err herr hne with hstart | ⟨site, hmem, hrejects⟩
    · rcases List.mem_append.mp hstart with hstart | hshadow
      · rcases List.mem_append.mp hstart with hstart | htwice
        · exact hstart
        · obtain ⟨x, -, rfl⟩ := List.mem_map.mp htwice
          cases hname
      · obtain ⟨x, -, rfl⟩ := List.mem_map.mp hshadow
        cases hname
    · exfalso
      have hsitename := hrejects.name hname
      by_cases hfree : v ∈ site.place.bound
      · exact Site.not_rejects_of_bound (hfits site hmem) (hsitename ▸ hfree) hne hrejects
      · obtain ⟨hresolve, hcaptured⟩ := hplace site hmem ⟨hsitename, hfree⟩
        rw [← hsitename] at hresolve hcaptured
        exact Site.not_rejects_of_free hresolve hcaptured (hsitename ▸ hself site hmem) hrejects

/-! ### An inherited class variable -/

/-- `A` declares the class variable `Total`, and `B` inherits it. -/
def totalClasses : ClassMap := ClassMap.collected ∅ ∅
  [.classDecl ⟨"A", "Object", [], ["Total"], none⟩, .classDecl ⟨"B", "A", [], [], none⟩]

/-- What emission knows of `B`. -/
def totalScope : ClassScope := ⟨[], [], ["Total"], []⟩

/-- `Total := 1. ^ [Total]`. -/
def totalBody : List Node :=
  [.assignment "Total" (.literal (.integer 1)), .ret (.block [] [] [.identifier "Total"])]

/-- `B >> run() …`. -/
def totalCallForm : MethodParts :=
  ⟨"B", false, "run", [], [], [], some ⟨0, []⟩, [], totalBody⟩

/-- `B >> run …`. -/
def totalMethod : MethodParts :=
  ⟨"B", false, "run", ["Total"], [], [], none, [], totalBody⟩

/-- The top level of a module. -/
def topContext : Context := ⟨false, true, none, [], []⟩

def topStart : Emitter := ⟨openScope [] [] [] false, [], [], []⟩

theorem total_variableOf : totalClasses.VariableOf false "B" "Total" := by
  refine .inr ⟨("A", ⟨"A", "Object", [], ["Total"], [], []⟩), ⟨"A", .single ?_, by rfl⟩, by simp⟩
  show _ = _
  rfl

/-- The call-form method captures the variable and does not compile. -/
theorem inherited_variable_undeclared :
    (Top.callMethodDecl ⟨"B", false, "run", [], [], [], totalBody⟩).method totalScope
        = some totalCallForm ∧
      totalClasses.scope 1 "B" = some totalScope ∧
      totalClasses.VariableOf false "B" "Total" ∧
      (∃ site ∈ totalCallForm.sites totalScope topContext topStart, site.Free "Total" ∧
        isCaptured site.ctx site.scope "Total" = true) ∧
      (totalCallForm.emit totalScope topContext topStart).2
        = [.undeclaredAssignment "Total" "B"] := by
  refine ⟨rfl, by rfl, total_variableOf, ?_, by rfl⟩
  exact ⟨_, List.mem_cons_self, ⟨rfl, by decide⟩, by rfl⟩

/-- The same method in its other form compiles. -/
theorem self_variables_totalMethod :
    ((∀ site ∈ totalMethod.sites totalScope topContext topStart, site.Free "Total" →
        site.OfSelf ∧ isCaptured site.ctx site.scope "Total" = false) ∧
      ∀ err ∈ (totalMethod.emit totalScope topContext topStart).2,
        err.undeclaredName = some "Total" → err ∈ topStart.errors) ↔
    ¬ Boxes totalClasses totalScope totalMethod (totalMethod.sites totalScope topContext topStart)
        "Total" ∧
      ∀ site ∈ totalMethod.sites totalScope topContext topStart, site.Free "Total" →
        ¬ site.Hidden := by
  have hm : (Top.methodDecl ⟨"B", false, "run", [], [], totalBody⟩).method totalScope
      = some totalMethod := rfl
  have hcls : totalClasses.scope 1 totalMethod.className = some totalScope := by rfl
  exact self_variables_iff hm hcls topContext topStart total_variableOf

end ProtoST.Frontend

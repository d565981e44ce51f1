import Mathlib
import ProtoST.Frontend.InheritedVars

/-!
# Separate compilation

The compilations of one process share the registry of classes, and the inputs of a REPL the
classes of its session.  A compilation reads both tables, so what it reports and emits may
depend on the modules before it.

What a module emits depends on the classes its own classes and its method targets lead to,
over superclasses and mixins.  What it reports depends on the whole table: the check for
redefined instance variables runs over every class that is known.

## Main results

* `ClassMap.Agree.scope` — tables that agree where a class leads give it the same variables.
* `Process.knows_of_untouched` — compilations change what is known of the classes they
  declare or give class-instance variables to, and of no others.
* `compile_after_iff` — when a compilation behind others does what it does right behind the
  kernel.
-/

namespace ProtoST.Frontend

open ProtoST.Lib

/-! ## What a compilation reads of the tables -/

namespace ClassMap

variable (classes : ClassMap)

/-- `resolveClassVarsFor`. -/
def resolveClassVarsFor (className : String) : List String :=
  (classes.superclasses className).foldl (fun out e => addNew out e.2.classVarNames) []

/-- The variables of a class. -/
def scope (depth : Nat) (className : String) : Option ClassScope :=
  (classes.instVarsThroughChain false depth className).bind fun instVars =>
    (classes.instVarsThroughChain true depth className).map fun classInstVars =>
      ⟨instVars, classInstVars, classes.resolveClassVarsFor className,
        ((classes.lookup className).map ClassInfo.classVarNames).getD []⟩

/-- The variables of the classes that get methods. -/
def scopes (depth : Nat) (names : List String) : Option (List (String × ClassScope)) :=
  names.mapM fun name => (classes.scope depth name).map (name, ·)

/-- The superclass and the mixins of a class. -/
def Refers (a b : String) : Prop :=
  ∃ info, classes.lookup a = some info ∧ (b = info.superclassName ∨ b ∈ info.mixinNames)

/-- Two tables have the same of every class that `c` leads to. -/
def Agree (classes classes' : ClassMap) (c : String) : Prop :=
  ∀ name, Relation.ReflTransGen classes.Refers c name →
    classes'.lookup name = classes.lookup name

variable {classes} {classes' : ClassMap} {c d : String} {e : Entry}

theorem refers_of_edge
    (h : Follow.Edge (Follow.pointer classes.entry fun e => e.2.superclassName) c d) :
    classes.Refers c d := by
  obtain ⟨e, he, rfl⟩ := Option.map_eq_some_iff.mp h
  exact ⟨e.2, (entry_eq_some.mp he).2.2, .inl rfl⟩

theorem leads_of_ancestor (h : classes.Ancestor c e) :
    Relation.ReflTransGen classes.Refers c e.1 ∧ classes.lookup e.1 = some e.2 := by
  obtain ⟨name, hleads, hentry⟩ := h
  obtain ⟨-, rfl, hlookup⟩ := entry_eq_some.mp hentry
  exact ⟨Relation.ReflTransGen.mono (fun _ _ => refers_of_edge) _ _ hleads, hlookup⟩

namespace Agree

theorem next (h : Agree classes classes' c) (hleads : Relation.ReflTransGen classes.Refers c d) :
    Agree classes classes' d :=
  fun name hname => h name (hleads.trans hname)

/-- The loops over the superclasses take the same way. -/
theorem superclasses (h : Agree classes classes' c) :
    classes'.superclasses c = classes.superclasses c := by
  let rounds := max (classes.keys.length + 1) (classes'.keys.length + 1)
  have hsame : classes'.superLoop rounds c = classes.superLoop rounds c := by
    refine Follow.trail_congr fun name hname => ?_
    rw [entry, entry, h name (Relation.ReflTransGen.mono (fun _ _ => refers_of_edge) _ _ hname)]
  obtain ⟨es, hes⟩ : ∃ es, classes.superLoop (classes.keys.length + 1) c = some es :=
    superLoop_eq (Nat.lt_succ_self _) c
  obtain ⟨es', hes'⟩ : ∃ es, classes'.superLoop (classes'.keys.length + 1) c = some es :=
    superLoop_eq (Nat.lt_succ_self _) c
  have hround : classes.superLoop rounds c = some es :=
    Follow.trail_mono (Nat.le_max_left _ _) hes
  have hround' : classes'.superLoop rounds c = some es' :=
    Follow.trail_mono (Nat.le_max_right _ _) hes'
  have heq : es' = es := Option.some.inj (hround'.symm.trans (hsame.trans hround))
  rw [ClassMap.superclasses, ClassMap.superclasses, hes, hes', heq]

theorem instVarsThroughChain {classSide : Bool} {depth : Nat} (h : Agree classes classes' c) :
    classes'.instVarsThroughChain classSide depth c
      = classes.instVarsThroughChain classSide depth c := by
  induction depth generalizing c with
  | zero => rfl
  | succ depth ih =>
      show classes'.instVarsStep classSide (classes'.instVarsThroughChain classSide depth) c
        = classes.instVarsStep classSide (classes.instVarsThroughChain classSide depth) c
      rw [instVarsStep, instVarsStep, h.superclasses]
      refine foldlM_congr (fun e he chain => foldlM_congr (fun mixin hmixin chain => ?_) _) _
      have hancestor := mem_superclasses.mp (List.mem_reverse.mp he)
      obtain ⟨hleads, hlookup⟩ := leads_of_ancestor hancestor
      rw [ih (h.next (hleads.tail ⟨e.2, hlookup, .inr hmixin⟩))]

theorem scope {depth : Nat} (h : Agree classes classes' c) :
    classes'.scope depth c = classes.scope depth c := by
  rw [ClassMap.scope, ClassMap.scope, h.instVarsThroughChain, h.instVarsThroughChain,
    resolveClassVarsFor, resolveClassVarsFor, h.superclasses, h c .refl]

theorem scopes {depth : Nat} {names : List String} (h : ∀ c ∈ names, Agree classes classes' c) :
    classes'.scopes depth names = classes.scopes depth names := by
  induction names with
  | nil => rfl
  | cons c names ih =>
      rw [ClassMap.scopes, ClassMap.scopes, List.mapM_cons, List.mapM_cons,
        (h c List.mem_cons_self).scope]
      have hrest := ih fun d hd => h d (List.mem_cons_of_mem _ hd)
      rw [ClassMap.scopes, ClassMap.scopes] at hrest
      rw [hrest]

/-- The conflicts of a class are decided where it leads. -/
theorem conflict {iv sup : String} (h : Agree classes classes' c) :
    classes'.Conflict c iv sup ↔ classes.Conflict c iv sup := by
  unfold Conflict
  rw [h c .refl]
  refine exists_congr fun info => exists_congr fun supInfo => and_congr_right fun hinfo => ?_
  have hsup : Agree classes classes' info.superclassName :=
    h.next (.single ⟨info, hinfo, .inl rfl⟩)
  rw [← mem_superclasses, ← mem_superclasses, hsup.superclasses]

end Agree

end ClassMap

/-! ## Processes -/

/-- What a compilation answers: its errors, and the module with the errors of its emission,
unless the variables of a class are not found in the depth of calls there is room for. -/
structure Compiled where
  classErrors : List ClassError
  emitted : Option (Runtime.Bytecode.Module × List CompileError)

/-- The same errors, in any order, and the same bytecode. -/
def Compiled.Same (out out' : Compiled) : Prop :=
  out.emitted = out'.emitted ∧ ∀ err, err ∈ out.classErrors ↔ err ∈ out'.classErrors

/-- What a module is compiled for: to be run as a script or imported, to tell whether a REPL
input is complete, or to be evaluated as one. -/
inductive Mode where
  | load | classify | evaluate
  deriving DecidableEq, Repr

def Mode.repl : Mode → Bool
  | .load => false
  | .classify | .evaluate => true

/-- A compilation, with the depth of calls there is room for. -/
structure Compilation where
  mode : Mode
  groups : Bool
  depth : Nat
  tops : List Top

/-- The class registry of a process and `replClasses`. -/
structure Process where
  registry : ClassMap
  session : ClassMap

namespace Process

/-- Behind the kernel. -/
def booted (kernel : ClassMap) : Process := ⟨kernel, ∅⟩

variable (p : Process)

/-- `knownClasses_` of a compilation. -/
def known (c : Compilation) : ClassMap := if c.mode.repl then p.session else ∅

/-- What is known of a name before a compilation. -/
def knows (c : Compilation) (name : String) : Option ClassInfo :=
  ((p.known c).lookup name).or (p.registry.lookup name)

def classesOf (c : Compilation) : ClassMap :=
  ClassMap.collected p.registry (p.known c) c.tops

def compile (c : Compilation) : Compiled :=
  ⟨classErrors (p.classesOf c) c.tops,
    ((p.classesOf c).scopes c.depth (targets c.tops)).map fun scopes =>
      compileModule c.mode.repl c.groups (fun name => scopes.lookup name) c.tops⟩

/-- `evaluate` keeps the classes of an input that compiles. -/
def keepsClasses (c : Compilation) (errors : List CompileError) : Bool :=
  c.mode = .evaluate && (p.compile c).classErrors.isEmpty && errors.isEmpty

end Process

/-- What happens to the class tables of a process. -/
inductive Event where
  | compile (c : Compilation)
  /-- `:reset`, before it loads the kernel again. -/
  | reset

namespace Process

/-- The process after an event. -/
def step (p : Process) : Event → Option Process
  | .compile c =>
      (p.compile c).emitted.map fun emitted =>
        ⟨(p.classesOf c).publish p.registry c.tops,
          if p.keepsClasses c emitted.2 then p.classesOf c else p.session⟩
  | .reset => some { p with session := ∅ }

def after (p : Process) (events : List Event) : Option Process := events.foldlM step p

end Process

/-- The names a module declares or gives class-instance variables to. -/
def touched (tops : List Top) : List String :=
  declared tops ++ (tops.filterMap Top.classInstVars).map Prod.fst

def Event.touched : Event → List String
  | .compile c => Frontend.touched c.tops
  | .reset => []

namespace Process

variable {p p' : Process} {kernel : ClassMap} {events : List Event} {name : String}

/-- The tables have of a name what the kernel said of it. -/
structure Untouched (p : Process) (kernel : ClassMap) (name : String) : Prop where
  registry : p.registry.lookup name = kernel.lookup name
  session : p.session.lookup name = none ∨ p.session.lookup name = kernel.lookup name

namespace Untouched

theorem knows (h : Untouched p kernel name) (c : Compilation) :
    p.knows c name = kernel.lookup name := by
  unfold Process.knows known
  rw [h.registry]
  split
  · rcases h.session with hsession | hsession
    · rw [hsession, Option.none_or]
    · rw [hsession, Option.or_self]
  · rw [AList.lookup_empty, Option.none_or]

theorem classesOf {c : Compilation} (h : Untouched p kernel name) (hname : name ∉ touched c.tops) :
    (p.classesOf c).lookup name = kernel.lookup name := by
  obtain ⟨hdecl, hvars⟩ := not_or.mp fun hmem => hname (List.mem_append.mpr hmem)
  have hlast : ClassMap.lastDecl (c.tops.filterMap Top.decl) name = none :=
    ClassMap.lastDecl_eq_none.mpr hdecl
  have hadded : ClassMap.added c.tops name = [] := by
    rw [ClassMap.added, ClassMap.addedVars, List.flatMap_eq_nil_iff]
    intro v hv
    obtain ⟨hv, heq⟩ := List.mem_filter.mp hv
    exact absurd (List.mem_map.mpr ⟨v, hv, of_decide_eq_true heq⟩) hvars
  have hknows := h.knows c
  rw [Process.knows] at hknows
  rw [Process.classesOf, ClassMap.lookup_collected, hlast, hadded, Option.map_none, Option.none_or,
    hknows]
  simp [ClassInfo.extend]

/-- An event that does not touch a name. -/
theorem step {event : Event} (h : Untouched p kernel name) (hname : name ∉ event.touched)
    (hstep : p.step event = some p') : Untouched p' kernel name := by
  cases event with
  | reset =>
      cases hstep
      exact ⟨h.registry, .inl rfl⟩
  | compile c =>
      obtain ⟨emitted, -, rfl⟩ := Option.map_eq_some_iff.mp hstep
      refine ⟨?_, ?_⟩
      · have hdecl : name ∉ declared c.tops := fun hmem => hname (List.mem_append_left _ hmem)
        rw [ClassMap.lookup_publish, if_neg hdecl, h.registry]
      · show (if p.keepsClasses c emitted.2 then p.classesOf c else p.session).lookup name =
          none ∨ _
        split
        · exact .inr (h.classesOf hname)
        · exact h.session

end Untouched

/-- Events change what is known of the names they touch, and of no others. -/
theorem knows_of_untouched (hrun : (booted kernel).after events = some p)
    (hname : ∀ event ∈ events, name ∉ event.touched) (c : Compilation) :
    p.knows c name = kernel.lookup name := by
  suffices h : ∀ {p₀ : Process}, Untouched p₀ kernel name → p₀.after events = some p →
      Untouched p kernel name from
    (h ⟨rfl, .inl rfl⟩ hrun).knows c
  clear hrun
  induction events with
  | nil =>
      intro p₀ h₀ hrun
      cases hrun
      exact h₀
  | cons event events ih =>
      intro p₀ h₀ hrun
      rw [after, List.foldlM_cons] at hrun
      obtain ⟨p₁, hstep, hrest⟩ := Option.bind_eq_some_iff.mp hrun
      exact ih (fun event' hmem => hname event' (List.mem_cons_of_mem _ hmem))
        (h₀.step (hname event List.mem_cons_self) hstep) hrest

end Process

/-! ## Separate compilation -/

/-- The classes that the classes and the methods of a module lead to. -/
def Leads (classes : ClassMap) (tops : List Top) (name : String) : Prop :=
  ∃ c ∈ declared tops ++ targets tops, Relation.ReflTransGen classes.Refers c name

/-- What is reported of a table. -/
theorem mem_classErrors {classes : ClassMap} {tops : List Top} {err : ClassError} :
    err ∈ classErrors classes tops ↔
      err ∈ (tops.filterMap Top.decl).flatMap ClassDecl.errors ∨
        ∃ name iv sup, err = .alreadyDefined iv name sup ∧ classes.Conflict name iv sup := by
  rw [classErrors, List.mem_append, ClassMap.mem_redefinitions]

theorem alreadyDefined_mem_classErrors {classes : ClassMap} {tops : List Top}
    {name iv sup : String} :
    .alreadyDefined iv name sup ∈ classErrors classes tops ↔ classes.Conflict name iv sup := by
  rw [mem_classErrors]
  constructor
  · rintro (htwice | ⟨name', iv', sup', heq, hconflict⟩)
    · obtain ⟨d, -, herr⟩ := List.mem_flatMap.mp htwice
      obtain ⟨_, -, heq⟩ := List.mem_map.mp herr
      cases heq
    · cases heq
      exact hconflict
  · exact fun hconflict => .inr ⟨name, iv, sup, rfl, hconflict⟩

/-- The tables of a module agree where it leads, if what it does not declare is known as
before. -/
theorem agree_after {kernel : ClassMap} {events : List Event} {p : Process}
    (hrun : (Process.booted kernel).after events = some p) (c : Compilation)
    (hkept : ∀ name, Leads ((Process.booted kernel).classesOf c) c.tops name →
      name ∉ declared c.tops → (∃ event ∈ events, name ∈ event.touched) →
        p.knows c name = kernel.lookup name) :
    ∀ start ∈ declared c.tops ++ targets c.tops,
      ClassMap.Agree ((Process.booted kernel).classesOf c) (p.classesOf c) start := by
  intro start hstart name hname
  by_cases hdecl : name ∈ declared c.tops
  · exact ClassMap.lookup_collected_declared hdecl _ _
  · have hbooted : (Process.booted kernel).knows c name = kernel.lookup name :=
      @Process.knows_of_untouched _ _ [] _ rfl (by simp) c
    have hknows : p.knows c name = kernel.lookup name := by
      by_cases htouched : ∃ event ∈ events, name ∈ event.touched
      · exact hkept name ⟨start, hstart, hname⟩ hdecl htouched
      · exact Process.knows_of_untouched hrun
          (fun event hmem hin => htouched ⟨event, hmem, hin⟩) c
    rw [Process.knows] at hbooted hknows
    rw [Process.classesOf, Process.classesOf, ClassMap.lookup_collected, ClassMap.lookup_collected,
      hbooted, hknows]

theorem emitted_after {p q : Process} {c : Compilation}
    (hagree : ∀ start ∈ declared c.tops ++ targets c.tops,
      ClassMap.Agree (q.classesOf c) (p.classesOf c) start) :
    (p.compile c).emitted = (q.compile c).emitted := by
  have hscopes : (p.classesOf c).scopes c.depth (targets c.tops)
      = (q.classesOf c).scopes c.depth (targets c.tops) :=
    ClassMap.Agree.scopes fun start hstart => hagree start (List.mem_append_right _ hstart)
  rw [Process.compile, Process.compile, hscopes]

/-- Behind any events, where the classes that a module leads to and does not declare have
kept what the kernel said of them, the module compiles to the same bytecode and errors as
right behind the kernel if and only if the redefined variables of the classes that it does
not declare are the same. -/
theorem compile_after_iff {kernel : ClassMap} {events : List Event} {p : Process}
    (hrun : (Process.booted kernel).after events = some p) (c : Compilation)
    (hkept : ∀ name, Leads ((Process.booted kernel).classesOf c) c.tops name →
      name ∉ declared c.tops → (∃ event ∈ events, name ∈ event.touched) →
        p.knows c name = kernel.lookup name) :
    (p.compile c).Same ((Process.booted kernel).compile c) ↔
      ∀ name, name ∉ declared c.tops → ∀ iv sup,
        (p.classesOf c).Conflict name iv sup
          ↔ ((Process.booted kernel).classesOf c).Conflict name iv sup := by
  have hagree := agree_after hrun c hkept
  have hemitted := emitted_after hagree
  constructor
  · rintro ⟨-, hsame⟩ name hname iv sup
    have herr := hsame (.alreadyDefined iv name sup)
    simpa only [Process.compile, alreadyDefined_mem_classErrors] using herr
  · intro hconflict
    refine ⟨hemitted, fun err => ?_⟩
    simp only [Process.compile, mem_classErrors]
    refine or_congr_right (exists_congr fun name => exists_congr fun iv => exists_congr fun sup =>
      and_congr_right fun _ => ?_)
    by_cases hname : name ∈ declared c.tops
    · exact (hagree name (List.mem_append_left _ hname)).conflict
    · exact hconflict name hname iv sup

/-! ### Two runs -/

/-- The names a module takes as superclasses or mixins or adds methods to. -/
def named (tops : List Top) : List String :=
  (tops.filterMap Top.decl).flatMap (fun d => d.superName :: mixinNamesOf d.mixins) ++ targets tops

/-- A module that declares one class. -/
def oneClass (name superName : String) (instVars : List String) : Compilation :=
  ⟨.load, true, 1, [.classDecl ⟨name, superName, instVars, [], none⟩]⟩

/-- A module that does not compile: `B` declares a variable that it inherits. -/
def redefining : Compilation :=
  ⟨.load, true, 1, [.classDecl ⟨"A", "Object", ["x"], [], none⟩,
    .classDecl ⟨"B", "A", ["x"], [], none⟩]⟩

/-- A process with another module behind the kernel. -/
def behind (c : Compilation) : Process :=
  ⟨((Process.booted kernelClasses).classesOf c).publish kernelClasses c.tops, ∅⟩

/-- A module that compiles behind the kernel does not compile behind a failed one that has
nothing to do with it. -/
theorem unrelated_module_fails :
    (Process.booted kernelClasses).after [.compile redefining] = some (behind redefining) ∧
      (∀ name ∈ named (oneClass "C" "Object" []).tops, name ∉ declared redefining.tops) ∧
      ¬ ((behind redefining).compile (oneClass "C" "Object" [])).Same
        ((Process.booted kernelClasses).compile (oneClass "C" "Object" [])) := by
  refine ⟨rfl, by decide, ?_⟩
  rintro ⟨-, hsame⟩
  have hconflict : ((behind redefining).classesOf (oneClass "C" "Object" [])).Conflict
      "B" "x" "A" :=
    ⟨⟨"B", "A", ["x"], [], [], []⟩, ⟨"A", "Object", ["x"], [], [], []⟩, by rfl,
      ⟨"A", .refl, by rfl⟩, by simp, by simp⟩
  have herr := (hsame (.alreadyDefined "x" "B" "A")).mp
    (alreadyDefined_mem_classErrors.mpr hconflict)
  obtain ⟨info, -, hlookup, -⟩ := alreadyDefined_mem_classErrors.mp herr
  have hnone : ((Process.booted kernelClasses).classesOf (oneClass "C" "Object" [])).lookup "B"
      = none := by rfl
  rw [hnone] at hlookup
  cases hlookup

/-- Behind a module with a class of its own, another one compiles as behind the kernel. -/
theorem compile_after_oneClass :
    ((behind (oneClass "D" "Object" ["y"])).compile (oneClass "C" "Object" [])).Same
        ((Process.booted kernelClasses).compile (oneClass "C" "Object" [])) ↔
      ∀ name, name ∉ declared (oneClass "C" "Object" []).tops → ∀ iv sup,
        ((behind (oneClass "D" "Object" ["y"])).classesOf (oneClass "C" "Object" [])).Conflict
            name iv sup
          ↔ ((Process.booted kernelClasses).classesOf (oneClass "C" "Object" [])).Conflict
            name iv sup := by
  have hrun : (Process.booted kernelClasses).after [.compile (oneClass "D" "Object" ["y"])]
      = some (behind (oneClass "D" "Object" ["y"])) := rfl
  refine compile_after_iff hrun _ ?_
  rintro name ⟨start, hstart, hleads⟩ - ⟨event, hevent, htouched⟩
  obtain rfl : start = "C" := by simpa [oneClass, declared, targets, Top.decl, Top.target] using
    hstart
  obtain rfl : name = "D" := by
    rw [List.mem_singleton.mp hevent] at htouched
    simpa [Event.touched, touched, declared, oneClass, Top.decl, Top.classInstVars] using htouched
  -- `C` leads to `Object`, which the table does not have
  exfalso
  have hC : ((Process.booted kernelClasses).classesOf (oneClass "C" "Object" [])).lookup "C"
      = some ⟨"C", "Object", [], [], [], []⟩ := by rfl
  have hObject : ((Process.booted kernelClasses).classesOf (oneClass "C" "Object" [])).lookup
      "Object" = none := by rfl
  rcases Relation.ReflTransGen.cases_head hleads with heq | ⟨next, ⟨info, hinfo, hnext⟩, hrest⟩
  · exact absurd heq (by decide)
  · cases hC.symm.trans hinfo
    obtain rfl : next = "Object" := by simpa using hnext
    rcases Relation.ReflTransGen.cases_head hrest with heq | ⟨next, ⟨info, hinfo, -⟩, -⟩
    · exact absurd heq (by decide)
    · rw [hObject] at hinfo
      cases hinfo

end ProtoST.Frontend

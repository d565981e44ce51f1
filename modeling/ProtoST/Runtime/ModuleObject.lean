import Mathlib
import ProtoST.Lib.Transition
import ProtoST.Frontend.ClassTable

/-!
# The classes of a module object

`loadModuleFromFile` (`runtime/STRuntime.cpp`) compiles a file, runs its top level and
exports classes: of every name in the compiler's class table that does not begin with `_`
it reads the global, and what is bound becomes an attribute of the module object.  The
class table is seeded from the registry of the process, and the globals are shared.

Any number of loads is in progress, by as many threads as there are or nested in one
another; here their steps come in any order.  Each access to the registry and to the
globals is a step.  What other code does, the other forms of a top level among it, is
`store`, `alloc`, `touch` and `register`.  `origin` records which declaration of which load
created an object; no step reads it.

## Main results

* `does_of_step` — the ways to take a step.
* `exact_iff_right` — the module object is exact when every name was read right.
* `reach_reads_iff` — and so when every read of the load was.
* `reads_of_orderly` — reads are right in a run whose steps are orderly.
* `exact_iff` — when the module object has its own classes and no others.
-/

namespace ProtoST.Runtime.ModuleObject

open ProtoST.Lib ProtoST.Frontend

/-- What `__subclassNamed:` asks an object: whether it owns a true `__user_class__`, and
its first parent. -/
structure Cell (Obj : Type) where
  userClass : Bool
  firstParent : Option Obj
  deriving DecidableEq, Repr

/-- Where the load of a file is. -/
inductive Phase (Obj : Type) where
  /-- The class table is collected, and not published. -/
  | compiled
  /-- Between two forms of the top level. -/
  | top
  /-- The superclass of the next declaration is on the operand stack. -/
  | superclass (r : Obj)
  /-- The class of the next declaration is on the operand stack. -/
  | made (o : Obj)
  /-- The loop over the class table, with the names it has not come to. -/
  | exporting (left : List String)
  | answered
  | failed
  deriving DecidableEq, Repr

/-- The load of a file. -/
structure Load (Obj : Type) where
  tops : List Top
  classes : ClassMap
  /-- How many of its class declarations are executed. -/
  next : Nat
  phase : Phase Obj
  /-- The own attributes of the module object. -/
  moduleObj : AList fun _ : String => Obj

namespace Load

variable {Obj : Type}

def decls (load : Load Obj) : List ClassDecl := load.tops.filterMap Top.decl

/-- The declaration the top level comes to next. -/
def decl? (load : Load Obj) : Option ClassDecl := load.decls[load.next]?

abbrev goto (load : Load Obj) (phase : Phase Obj) : Load Obj := { load with phase := phase }

end Load

/-- Whether the loop exports a name of the class table. -/
def exported (name : String) : Bool :=
  match name.toList with
  | [] => false
  | c :: _ => c != '_'

/-- The loop over the class table reads the global of a name. -/
def Load.read {Obj : Type} (load : Load Obj) (globals : String → Option Obj) (left : List String)
    (name : String) : Load Obj :=
  { load with
    phase := .exporting (left.erase name)
    moduleObj :=
      if exported name then
        match globals name with
        | some classObj => load.moduleObj.insert name classObj
        | none => load.moduleObj
      else load.moduleObj }

/-- The process. -/
structure State (L Obj : Type) where
  registry : ClassMap
  /-- What `getAttribute` of the globals answers. -/
  globals : String → Option Obj
  heap : Obj → Option (Cell Obj)
  loads : L → Option (Load Obj)
  origin : Obj → Option (L × Nat)

/-- What can happen. -/
inductive Action (L Obj : Type) where
  /-- A load collects the class table of its file. -/
  | snapshot (l : L) (tops : List Top)
  /-- It publishes the classes of the file; a file with errors is not run. -/
  | publish (l : L) (errors : Bool)
  /-- `PUSH_GLOBAL` of the superclass. -/
  | pushSuper (l : L)
  /-- `__subclassNamed:`, with the object it creates if it does. -/
  | subclassNamed (l : L) (o : Obj)
  /-- `subclass:uses:` -/
  | subclassUses (l : L) (o : Obj)
  /-- `STORE_GLOBAL` of the class. -/
  | storeGlobal (l : L)
  /-- The top level ends, at its end or by a `^`. -/
  | leave (l : L)
  /-- The loop over the class table comes to a name. -/
  | exportClass (l : L) (name : String)
  | answer (l : L)
  /-- Something is raised out of the top level. -/
  | fail (l : L)
  /-- Other code stores in a global. -/
  | store (name : String) (v : Option Obj)
  /-- Other code creates an object. -/
  | alloc (o : Obj) (cell : Cell Obj)
  /-- Other code changes an object. -/
  | touch (o : Obj) (cell : Cell Obj)
  /-- Another module is compiled. -/
  | register (classes : ClassMap) (tops : List Top)

namespace State

variable {L Obj : Type} [DecidableEq L] [DecidableEq Obj]

abbrev setLoad (s : State L Obj) (l : L) (load : Load Obj) : State L Obj :=
  { s with loads := Function.update s.loads l (some load) }

abbrev bind (s : State L Obj) (name : String) (v : Option Obj) : State L Obj :=
  { s with globals := Function.update s.globals name v }

/-- A new object, which the next declaration of a load creates. -/
abbrev create (s : State L Obj) (o : Obj) (cell : Cell Obj) (l : L) (k : Nat) : State L Obj :=
  { s with
    heap := Function.update s.heap o (some cell)
    origin := Function.update s.origin o (some (l, k)) }

/-- The class `__subclassNamed:` answers again. -/
def existing (s : State L Obj) (r : Obj) (name : String) : Option Obj :=
  match s.globals name with
  | none => none
  | some e =>
      match s.heap e with
      | some cell => if cell.userClass && cell.firstParent = some r then some e else none
      | none => none

/-- One action; `protoTrue` under `__kernel_loaded__` says that the kernel is loaded. -/
def step (protoTrue : Obj) (s : State L Obj) : Action L Obj → Option (State L Obj)
  | .snapshot l tops =>
      match s.loads l with
      | none => some (s.setLoad l ⟨tops, ClassMap.collected s.registry ∅ tops, 0, .compiled, ∅⟩)
      | some _ => none
  | .publish l errors =>
      match s.loads l with
      | some load =>
          match load.phase with
          | .compiled =>
              some { s.setLoad l (load.goto (if errors then .failed else .top)) with
                registry := load.classes.publish s.registry load.tops }
          | _ => none
      | none => none
  | .pushSuper l =>
      match s.loads l with
      | some load =>
          match load.phase, load.decl? with
          | .top, some d =>
              (s.globals d.superName).map fun r => s.setLoad l (load.goto (.superclass r))
          | _, _ => none
      | none => none
  | .subclassNamed l o =>
      match s.loads l with
      | some load =>
          match load.phase, load.decl? with
          | .superclass r, some d =>
              if d.mixins.isSome then none
              else
                match s.existing r d.name with
                | some e => some (s.setLoad l (load.goto (.made e)))
                | none =>
                    if (s.heap o).isSome then none
                    else some ((s.create o ⟨s.globals "__kernel_loaded__" = some protoTrue, some r⟩
                      l load.next).setLoad l (load.goto (.made o)))
          | _, _ => none
      | none => none
  | .subclassUses l o =>
      match s.loads l with
      | some load =>
          match load.phase, load.decl? with
          | .superclass _, some d =>
              -- its first parent is an object of its own
              if d.mixins.isNone || (s.heap o).isSome then none
              else some (((s.create o ⟨false, none⟩ l load.next).bind d.name (some o)).setLoad l
                (load.goto (.made o)))
          | _, _ => none
      | none => none
  | .storeGlobal l =>
      match s.loads l with
      | some load =>
          match load.phase, load.decl? with
          | .made o, some d =>
              some ((s.bind d.name (some o)).setLoad l
                { load with next := load.next + 1, phase := .top })
          | _, _ => none
      | none => none
  | .leave l =>
      match s.loads l with
      | some load =>
          match load.phase with
          | .top => some (s.setLoad l (load.goto (.exporting load.classes.keys)))
          | _ => none
      | none => none
  | .exportClass l name =>
      match s.loads l with
      | some load =>
          match load.phase with
          | .exporting left =>
              if name ∉ left then none
              else some (s.setLoad l (load.read s.globals left name))
          | _ => none
      | none => none
  | .answer l =>
      match s.loads l with
      | some load =>
          match load.phase with
          | .exporting [] => some (s.setLoad l (load.goto .answered))
          | _ => none
      | none => none
  | .fail l =>
      match s.loads l with
      | some load =>
          match load.phase with
          | .top | .superclass _ | .made _ => some (s.setLoad l (load.goto .failed))
          | _ => none
      | none => none
  | .store name v => if v.all fun o => (s.heap o).isSome then some (s.bind name v) else none
  | .alloc o cell =>
      if (s.heap o).isSome then none
      else some { s with heap := Function.update s.heap o (some cell) }
  | .touch o cell =>
      if (s.heap o).isSome then some { s with heap := Function.update s.heap o (some cell) }
      else none
  | .register classes tops => some { s with registry := classes.publish s.registry tops }

/-- A process without loads: its kernel may be loaded, and other code may have run. -/
structure Fresh (s : State L Obj) : Prop where
  loads : ∀ l, s.loads l = none
  origin : ∀ o, s.origin o = none
  globals : ∀ name o, s.globals name = some o → (s.heap o).isSome

end State

variable {L Obj : Type}

/-- The loads of a process. -/
def machine (L : Type) {Obj : Type} [DecidableEq L] [DecidableEq Obj] (protoTrue : Obj) :
    Machine (State L Obj) (Action L Obj) where
  init := State.Fresh
  step := State.step protoTrue

/-! ## The cases of a step -/

section Cases

variable [DecidableEq L] [DecidableEq Obj] {protoTrue : Obj} {s t : State L Obj}

/-- `step` as a relation, one constructor for each way to take a step. -/
inductive Does (protoTrue : Obj) (s : State L Obj) : Action L Obj → State L Obj → Prop
  | snapshot {l : L} {tops : List Top} : s.loads l = none →
      Does protoTrue s (.snapshot l tops)
        (s.setLoad l ⟨tops, ClassMap.collected s.registry ∅ tops, 0, .compiled, ∅⟩)
  | publish {l : L} {load : Load Obj} {errors : Bool} : s.loads l = some load →
      load.phase = .compiled →
      Does protoTrue s (.publish l errors)
        { s.setLoad l (load.goto (if errors then .failed else .top)) with
          registry := load.classes.publish s.registry load.tops }
  | pushSuper {l : L} {load : Load Obj} {d : ClassDecl} {r : Obj} : s.loads l = some load →
      load.phase = .top → load.decl? = some d → s.globals d.superName = some r →
      Does protoTrue s (.pushSuper l) (s.setLoad l (load.goto (.superclass r)))
  | reuse {l : L} {load : Load Obj} {d : ClassDecl} {r e o : Obj} : s.loads l = some load →
      load.phase = .superclass r → load.decl? = some d → s.existing r d.name = some e →
      Does protoTrue s (.subclassNamed l o) (s.setLoad l (load.goto (.made e)))
  | subclassNamed {l : L} {load : Load Obj} {d : ClassDecl} {r o : Obj} :
      s.loads l = some load → load.phase = .superclass r → load.decl? = some d →
      s.existing r d.name = none → s.heap o = none →
      Does protoTrue s (.subclassNamed l o)
        ((s.create o ⟨s.globals "__kernel_loaded__" = some protoTrue, some r⟩ l load.next).setLoad l
          (load.goto (.made o)))
  | subclassUses {l : L} {load : Load Obj} {d : ClassDecl} {r o : Obj} :
      s.loads l = some load → load.phase = .superclass r → load.decl? = some d →
      s.heap o = none →
      Does protoTrue s (.subclassUses l o)
        (((s.create o ⟨false, none⟩ l load.next).bind d.name (some o)).setLoad l
          (load.goto (.made o)))
  | storeGlobal {l : L} {load : Load Obj} {d : ClassDecl} {o : Obj} : s.loads l = some load →
      load.phase = .made o → load.decl? = some d →
      Does protoTrue s (.storeGlobal l)
        ((s.bind d.name (some o)).setLoad l { load with next := load.next + 1, phase := .top })
  | leave {l : L} {load : Load Obj} : s.loads l = some load → load.phase = .top →
      Does protoTrue s (.leave l) (s.setLoad l (load.goto (.exporting load.classes.keys)))
  | exportClass {l : L} {load : Load Obj} {left : List String} {name : String} :
      s.loads l = some load → load.phase = .exporting left → name ∈ left →
      Does protoTrue s (.exportClass l name) (s.setLoad l (load.read s.globals left name))
  | answer {l : L} {load : Load Obj} : s.loads l = some load → load.phase = .exporting [] →
      Does protoTrue s (.answer l) (s.setLoad l (load.goto .answered))
  | fail {l : L} {load : Load Obj} : s.loads l = some load →
      (load.phase = .top ∨ (∃ r, load.phase = .superclass r) ∨ ∃ o, load.phase = .made o) →
      Does protoTrue s (.fail l) (s.setLoad l (load.goto .failed))
  | store {name : String} {v : Option Obj} : (∀ o, v = some o → (s.heap o).isSome) →
      Does protoTrue s (.store name v) (s.bind name v)
  | alloc {o : Obj} {cell : Cell Obj} : s.heap o = none →
      Does protoTrue s (.alloc o cell) { s with heap := Function.update s.heap o (some cell) }
  | touch {o : Obj} {cell : Cell Obj} : (s.heap o).isSome →
      Does protoTrue s (.touch o cell) { s with heap := Function.update s.heap o (some cell) }
  | register {classes : ClassMap} {tops : List Top} :
      Does protoTrue s (.register classes tops)
        { s with registry := classes.publish s.registry tops }

/-- **Inversion of a step.** -/
theorem does_of_step {act : Action L Obj} (h : s.step protoTrue act = some t) :
    Does protoTrue s act t := by
  cases act with
  | snapshot l tops =>
      simp only [State.step] at h
      split at h
      · cases h
        exact .snapshot ‹_›
      · cases h
  | publish l errors =>
      simp only [State.step] at h
      split at h
      · split at h
        · cases h
          exact .publish ‹_› ‹_›
        · cases h
      · cases h
  | pushSuper l =>
      simp only [State.step] at h
      split at h
      · split at h
        · obtain ⟨r, hr, rfl⟩ := Option.map_eq_some_iff.mp h
          exact .pushSuper ‹_› ‹_› ‹_› hr
        · cases h
      · cases h
  | subclassNamed l o =>
      simp only [State.step] at h
      split at h
      · split at h
        · split at h
          · cases h
          · split at h
            · cases h
              exact .reuse ‹_› ‹_› ‹_› ‹_›
            · split at h
              · cases h
              · cases h
                exact .subclassNamed ‹_› ‹_› ‹_› ‹_› (Option.not_isSome_iff_eq_none.mp ‹_›)
        · cases h
      · cases h
  | subclassUses l o =>
      simp only [State.step] at h
      split at h
      · split at h
        · split at h
          · cases h
          · rename_i hnew
            cases h
            rw [Bool.or_eq_true, not_or] at hnew
            exact .subclassUses ‹_› ‹_› ‹_› (by simpa using hnew.2)
        · cases h
      · cases h
  | storeGlobal l =>
      simp only [State.step] at h
      split at h
      · split at h
        · cases h
          exact .storeGlobal ‹_› ‹_› ‹_›
        · cases h
      · cases h
  | leave l =>
      simp only [State.step] at h
      split at h
      · split at h
        · cases h
          exact .leave ‹_› ‹_›
        · cases h
      · cases h
  | exportClass l name =>
      simp only [State.step] at h
      split at h
      · split at h
        · split at h
          · cases h
          · cases h
            exact .exportClass ‹_› ‹_› (not_not.mp ‹_›)
        · cases h
      · cases h
  | answer l =>
      simp only [State.step] at h
      split at h
      · split at h
        · cases h
          exact .answer ‹_› ‹_›
        · cases h
      · cases h
  | fail l =>
      simp only [State.step] at h
      split at h
      · split at h
        · cases h
          exact .fail ‹_› (.inl ‹_›)
        · cases h
          exact .fail ‹_› (.inr (.inl ⟨_, ‹_›⟩))
        · cases h
          exact .fail ‹_› (.inr (.inr ⟨_, ‹_›⟩))
        · cases h
      · cases h
  | store name v =>
      simp only [State.step] at h
      split at h
      · rename_i hv
        cases h
        refine .store ?_
        rintro o rfl
        simpa using hv
      · cases h
  | alloc o cell =>
      simp only [State.step] at h
      split at h
      · cases h
      · cases h
        exact .alloc (Option.not_isSome_iff_eq_none.mp ‹_›)
  | touch o cell =>
      simp only [State.step] at h
      split at h
      · cases h
        exact .touch ‹_›
      · cases h
  | register classes tops =>
      cases h
      exact .register

end Cases

/-! ## Loads that go on -/

section Loads

variable {load load' : Load Obj}

/-- The loop over the class table has come to an exported name. -/
def Load.Read (load : Load Obj) (name : String) : Prop :=
  name ∈ load.classes ∧ exported name = true ∧
    (load.phase = .answered ∨ ∃ left, load.phase = .exporting left ∧ name ∉ left)

/-- What holds of a load at any time. -/
structure Load.Kept (load : Load Obj) : Prop where
  declared : ∀ name ∈ Frontend.declared load.tops, name ∈ load.classes
  attributes : ∀ name o, load.moduleObj.lookup name = some o → load.Read name
  left : ∀ left, load.phase = .exporting left → left.Nodup ∧ ∀ name ∈ left, name ∈ load.classes

/-- A step that reads no exported name. -/
structure Load.Quiet (load load' : Load Obj) : Prop where
  tops : load'.tops = load.tops
  read_iff : ∀ name, load'.Read name ↔ load.Read name
  moduleObj : load'.moduleObj = load.moduleObj

/-- A step that reads one. -/
structure Load.ReadsNow (globals : String → Option Obj) (name : String)
    (load load' : Load Obj) : Prop where
  tops : load'.tops = load.tops
  exported : exported name = true
  new : ¬ load.Read name
  read_iff : ∀ n, load'.Read n ↔ load.Read n ∨ n = name
  lookup : ∀ n, load'.moduleObj.lookup n =
    if n = name then globals name else load.moduleObj.lookup n

theorem Load.Quiet.refl (load : Load Obj) : load.Quiet load := ⟨rfl, fun _ => Iff.rfl, rfl⟩

/-- Before the loop nothing is read. -/
theorem Load.not_read (hanswered : load.phase ≠ .answered)
    (hexporting : ∀ left, load.phase ≠ .exporting left) (name : String) : ¬ load.Read name := by
  rintro ⟨-, -, h | ⟨left, h, -⟩⟩
  · exact hanswered h
  · exact hexporting left h

theorem Load.Quiet.goto {phase : Phase Obj} (hread : ∀ name, ¬ load.Read name)
    (hanswered : phase ≠ .answered) (hexporting : ∀ left, phase ≠ .exporting left) :
    load.Quiet (load.goto phase) :=
  ⟨rfl, fun name => iff_of_false (Load.not_read hanswered hexporting name) (hread name), rfl⟩

variable {left : List String} {name : String}

theorem Load.lookup_read (h : load.Kept)
    (hphase : load.phase = .exporting left) (hmem : name ∈ left)
    (hexported : exported name = true) (globals : String → Option Obj) (n : String) :
    (load.read globals left name).moduleObj.lookup n
      = if n = name then globals name else load.moduleObj.lookup n := by
  have hnew : load.moduleObj.lookup name = none := by
    by_contra hsome
    obtain ⟨o, ho⟩ := Option.ne_none_iff_exists'.mp hsome
    obtain ⟨-, -, hanswered | ⟨left', hleft, hnot⟩⟩ := h.attributes name o ho
    · rw [hphase] at hanswered
      cases hanswered
    · rw [hphase] at hleft
      cases hleft
      exact hnot hmem
  show AList.lookup n (if exported name = true then _ else load.moduleObj) = _
  rw [if_pos hexported]
  by_cases hn : n = name
  · subst hn
    rw [if_pos rfl]
    cases globals n with
    | none => exact hnew
    | some o => exact AList.lookup_insert _
  · rw [if_neg hn]
    cases globals name with
    | none => rfl
    | some o => exact AList.lookup_insert_ne hn

/-- The names that are read when the loop has come to another name. -/
theorem Load.read_read_iff (h : load.Kept)
    (hphase : load.phase = .exporting left) (hmem : name ∈ left)
    (globals : String → Option Obj) (n : String) :
    (load.read globals left name).Read n ↔ load.Read n ∨ n = name ∧ exported name = true := by
  obtain ⟨hnodup, hleft⟩ := h.left left hphase
  have hreadNow : (load.read globals left name).Read n ↔
      n ∈ load.classes ∧ exported n = true ∧ n ∉ left.erase name := by
    simp [Load.Read, Load.read]
  have hreadBefore : load.Read n ↔ n ∈ load.classes ∧ exported n = true ∧ n ∉ left := by
    simp [Load.Read, hphase]
  rw [hreadNow, hreadBefore, hnodup.mem_erase_iff]
  by_cases hn : n = name
  · subst hn
    simp [hmem, hleft n hmem]
  · simp [hn]

/-- A name that is not exported. -/
theorem Load.quiet_read (h : load.Kept) (hphase : load.phase = .exporting left) (hmem : name ∈ left)
    (hexported : ¬ exported name = true) (globals : String → Option Obj) :
    load.Quiet (load.read globals left name) :=
  ⟨rfl, fun n => by simp [Load.read_read_iff h hphase hmem, hexported], if_neg hexported⟩

/-- An exported name. -/
theorem Load.readsNow_read (h : load.Kept)
    (hphase : load.phase = .exporting left) (hmem : name ∈ left)
    (hexported : exported name = true) (globals : String → Option Obj) :
    load.ReadsNow globals name (load.read globals left name) where
  tops := rfl
  exported := hexported
  new := by
    rintro ⟨-, -, hanswered | ⟨left', hleft', hnot⟩⟩
    · rw [hphase] at hanswered
      cases hanswered
    · rw [hphase] at hleft'
      cases hleft'
      exact hnot hmem
  read_iff n := by rw [Load.read_read_iff h hphase hmem, and_iff_left hexported]
  lookup := Load.lookup_read h hphase hmem hexported globals

theorem Load.Kept.of_quiet (h : load.Kept) (hquiet : load.Quiet load')
    (hclasses : load'.classes = load.classes)
    (hleft : ∀ left, load'.phase = .exporting left →
      left.Nodup ∧ ∀ name ∈ left, name ∈ load'.classes) : load'.Kept where
  declared name hname := by
    rw [hquiet.tops] at hname
    rw [hclasses]
    exact h.declared name hname
  attributes name o ho := by
    rw [hquiet.moduleObj] at ho
    exact (hquiet.read_iff name).mpr (h.attributes name o ho)
  left := hleft

theorem Load.Kept.read (h : load.Kept) (hphase : load.phase = .exporting left) (hmem : name ∈ left)
    (globals : String → Option Obj) : (load.read globals left name).Kept where
  declared n hn := h.declared n hn
  attributes n o ho := by
    by_cases hexported : exported name = true
    case neg =>
      have hquiet := Load.quiet_read h hphase hmem hexported globals
      rw [hquiet.moduleObj] at ho
      exact (hquiet.read_iff n).mpr (h.attributes n o ho)
    case pos =>
      have hreads := Load.readsNow_read h hphase hmem hexported globals
      rw [hreads.read_iff]
      rw [hreads.lookup] at ho
      by_cases hn : n = name
      · exact .inr hn
      · rw [if_neg hn] at ho
        exact .inl (h.attributes n o ho)
  left := by
    intro left' hleft'
    cases hleft'
    obtain ⟨hnodup, hsub⟩ := h.left left hphase
    exact ⟨hnodup.erase name, fun n hn => hsub n (List.mem_of_mem_erase hn)⟩

theorem Load.Kept.collected {registry : ClassMap} {tops : List Top} :
    (⟨tops, ClassMap.collected registry ∅ tops, 0, .compiled, ∅⟩ : Load Obj).Kept where
  declared name hname := by
    rw [← AList.lookup_isSome, ClassMap.lookup_collected]
    cases hlast : ClassMap.lastDecl (tops.filterMap Top.decl) name with
    | none => exact absurd hname (ClassMap.lastDecl_eq_none.mp hlast)
    | some d => rfl
  attributes name o ho := by cases ho
  left := by
    intro left hleft
    cases hleft

end Loads

/-! ## What a step does to a load -/

section Steps

variable [DecidableEq L] [DecidableEq Obj] {protoTrue : Obj} {s t : State L Obj}
  {act : Action L Obj} {l : L} {load load' : Load Obj}

/-- The loads of a state. -/
def State.Kept (s : State L Obj) : Prop := ∀ l load, s.loads l = some load → load.Kept

/-- Where a load after a step comes from: it is new, goes on without a read, or reads a
name. -/
inductive From (s : State L Obj) (act : Action L Obj) (l : L) (load' : Load Obj) : Prop
  | new (hs : s.loads l = none) (hkept : load'.Kept) (hread : ∀ name, ¬ load'.Read name)
  | quiet (load : Load Obj) (hs : s.loads l = some load) (hquiet : load.Quiet load')
  | reads (load : Load Obj) (name : String) (hs : s.loads l = some load)
      (hact : act = .exportClass l name) (hreads : load.ReadsNow s.globals name load')

omit [DecidableEq L] [DecidableEq Obj] in
theorem From.unmoved (hkept : s.Kept) (h : s.loads l = some load') :
    load'.Kept ∧ From s act l load' :=
  ⟨hkept l load' h, .quiet load' h (.refl load')⟩

omit [DecidableEq Obj] in
/-- A step that moves the load `l₀`. -/
theorem From.moved {l₀ : L} {load₁ : Load Obj} (hkept : s.Kept)
    (ht : t.loads = Function.update s.loads l₀ (some load₁))
    (hnew : load₁.Kept ∧ From s act l₀ load₁) (h : t.loads l = some load') :
    load'.Kept ∧ From s act l load' := by
  rw [ht] at h
  by_cases hl : l = l₀
  · subst hl
    rw [Function.update_self] at h
    cases h
    exact hnew
  · rw [Function.update_of_ne hl] at h
    exact From.unmoved hkept h

omit [DecidableEq L] [DecidableEq Obj] in
/-- A step before the loop, or behind it. -/
theorem From.goto {phase : Phase Obj} (hkept : s.Kept) (hs : s.loads l = some load)
    (hquiet : load.Quiet (load.goto phase))
    (hleft : ∀ left, phase = .exporting left → left.Nodup ∧ ∀ name ∈ left, name ∈ load.classes) :
    (load.goto phase).Kept ∧ From s act l (load.goto phase) :=
  ⟨(hkept l load hs).of_quiet hquiet rfl hleft, .quiet load hs hquiet⟩

omit [DecidableEq L] [DecidableEq Obj] in
/-- A step of the top level to another of its phases. -/
theorem From.top {phase : Phase Obj} (hkept : s.Kept) (hs : s.loads l = some load)
    (hread : ∀ name, ¬ load.Read name) (hanswered : phase ≠ .answered)
    (hexporting : ∀ left, phase ≠ .exporting left) :
    (load.goto phase).Kept ∧ From s act l (load.goto phase) :=
  From.goto hkept hs (.goto hread hanswered hexporting) fun left h => absurd h (hexporting left)

/-- **What a step does to the loads.** -/
theorem does_load (hkept : s.Kept) (hdoes : Does protoTrue s act t) (h : t.loads l = some load') :
    load'.Kept ∧ From s act l load' := by
  -- before the loop nothing is read
  have hbefore : ∀ {load : Load Obj} {phase : Phase Obj}, load.phase = phase →
      phase ≠ .answered → (∀ left, phase ≠ .exporting left) → ∀ name, ¬ load.Read name := by
    rintro load _ rfl hanswered hexporting
    exact Load.not_read hanswered hexporting
  cases hdoes with
  | snapshot hnone =>
      exact From.moved hkept rfl ⟨.collected, .new hnone .collected
        (Load.not_read (by simp) (by simp))⟩ h
  | @publish l₀ load errors hs hphase =>
      refine From.moved hkept rfl (From.top hkept hs (hbefore hphase (by simp) (by simp)) ?_ ?_) h
      · cases errors <;> simp
      · cases errors <;> simp
  | pushSuper hs hphase =>
      exact From.moved hkept rfl (From.top hkept hs (hbefore hphase (by simp) (by simp)) (by simp)
        (by simp)) h
  | reuse hs hphase =>
      exact From.moved hkept rfl (From.top hkept hs (hbefore hphase (by simp) (by simp)) (by simp)
        (by simp)) h
  | subclassNamed hs hphase =>
      exact From.moved hkept rfl (From.top hkept hs (hbefore hphase (by simp) (by simp)) (by simp)
        (by simp)) h
  | subclassUses hs hphase =>
      exact From.moved hkept rfl (From.top hkept hs (hbefore hphase (by simp) (by simp)) (by simp)
        (by simp)) h
  | @storeGlobal l₀ load d o hs hphase =>
      have hread := hbefore hphase (by simp) (by simp)
      have hquiet : load.Quiet { load with next := load.next + 1, phase := .top } :=
        ⟨rfl, fun name => iff_of_false (Load.not_read (by simp) (by simp) name) (hread name), rfl⟩
      exact From.moved hkept rfl ⟨(hkept l₀ load hs).of_quiet hquiet rfl (by simp),
        .quiet load hs hquiet⟩ h
  | @leave l₀ load hs hphase =>
      have hread := hbefore hphase (by simp) (by simp)
      have hnotRead : ∀ name, ¬ (load.goto (.exporting load.classes.keys)).Read name := by
        rintro name ⟨hmem, -, hanswered | ⟨left, hleft, hnot⟩⟩
        · cases hanswered
        · cases hleft
          exact hnot (AList.mem_keys.mp hmem)
      have hquiet : load.Quiet (load.goto (.exporting load.classes.keys)) :=
        ⟨rfl, fun name => iff_of_false (hnotRead name) (hread name), rfl⟩
      refine From.moved hkept rfl (From.goto hkept hs hquiet ?_) h
      intro left hleft
      cases hleft
      exact ⟨load.classes.nodupKeys, fun name hname => AList.mem_keys.mpr hname⟩
  | @exportClass l₀ load left name hs hphase hmem =>
      refine From.moved hkept rfl ⟨(hkept l₀ load hs).read hphase hmem s.globals, ?_⟩ h
      by_cases hexported : exported name = true
      · exact .reads load name hs rfl
          (Load.readsNow_read (hkept l₀ load hs) hphase hmem hexported s.globals)
      · exact .quiet load hs (Load.quiet_read (hkept l₀ load hs) hphase hmem hexported s.globals)
  | @answer l₀ load hs hphase =>
      have hquiet : load.Quiet (load.goto .answered) :=
        ⟨rfl, fun name => by simp [Load.Read, hphase], rfl⟩
      exact From.moved hkept rfl (From.goto hkept hs hquiet (by simp)) h
  | @fail l₀ load hs hphase =>
      have hread : ∀ name, ¬ load.Read name := by
        rcases hphase with hphase | ⟨r, hphase⟩ | ⟨o, hphase⟩
        all_goals exact hbefore hphase (by simp) (by simp)
      exact From.moved hkept rfl (From.top hkept hs hread (by simp) (by simp)) h
  | store => exact From.unmoved hkept h
  | alloc => exact From.unmoved hkept h
  | touch => exact From.unmoved hkept h
  | register => exact From.unmoved hkept h

theorem kept (h : (machine L protoTrue).Reachable s) : s.Kept := by
  refine Machine.Reach.invariant (P := State.Kept) ?_ ?_ h
  · intro s hfresh l load hs
    rw [hfresh.loads l] at hs
    cases hs
  · intro s act t _ hkept _ hstep l load hload
    exact (does_load hkept (does_of_step hstep) hload).1

omit [DecidableEq L] [DecidableEq Obj] in
/-- Loads are not forgotten. -/
theorem isSome_update [DecidableEq L] {loads : L → Option (Load Obj)} {l₀ : L} {v : Load Obj}
    (h : (loads l).isSome) : (Function.update loads l₀ (some v) l).isSome := by
  rw [Function.update_apply]
  split
  · rfl
  · exact h

theorem loads_persist (hdoes : Does protoTrue s act t) (h : s.loads l = some load) :
    ∃ load', t.loads l = some load' := by
  have hsome : (s.loads l).isSome := Option.isSome_of_eq_some h
  rw [← Option.isSome_iff_exists]
  cases hdoes with
  | store | alloc | touch | register => exact hsome
  | _ => exact isSome_update hsome

/-! ### Objects -/

/-- What is bound or recorded exists. -/
structure State.Known (s : State L Obj) : Prop where
  globals : ∀ name o, s.globals name = some o → (s.heap o).isSome
  origin : ∀ o, (s.origin o).isSome → (s.heap o).isSome
  made : ∀ l load o, s.loads l = some load → load.phase = .made o → (s.heap o).isSome
  attributes : ∀ l load name o, s.loads l = some load → load.moduleObj.lookup name = some o →
    (s.heap o).isSome

theorem heap_mono (hdoes : Does protoTrue s act t) {o : Obj} (h : (s.heap o).isSome) :
    (t.heap o).isSome := by
  have hupdate : ∀ {o' : Obj} {cell : Cell Obj},
      (Function.update s.heap o' (some cell) o).isSome := by
    intro o' cell
    rw [Function.update_apply]
    split
    · rfl
    · exact h
  cases hdoes with
  | subclassNamed | subclassUses | alloc | touch => exact hupdate
  | _ => exact h

/-- A step gives an origin to a new object only. -/
theorem origin_eq (hdoes : Does protoTrue s act t) {o : Obj} (h : (s.heap o).isSome) :
    t.origin o = s.origin o := by
  have hupdate : ∀ {o' : Obj} {v : Option (L × Nat)}, s.heap o' = none →
      Function.update s.origin o' v o = s.origin o := by
    intro o' v hnew
    refine Function.update_of_ne ?_ _ _
    rintro rfl
    rw [hnew] at h
    cases h
  cases hdoes with
  | subclassNamed _ _ _ _ hnew => exact hupdate hnew
  | subclassUses _ _ _ hnew => exact hupdate hnew
  | _ => rfl

omit [DecidableEq L] in
theorem existing_known {r e : Obj} {name : String} (h : s.existing r name = some e) :
    (s.heap e).isSome := by
  unfold State.existing at h
  split at h
  · cases h
  · split at h
    · rename_i hcell
      split at h
      · cases h
        rw [hcell]
        rfl
      · cases h
    · cases h

/-- A class on the operand stack was there, or is put there by the step. -/
theorem made_step (hdoes : Does protoTrue s act t) {o : Obj} (h : t.loads l = some load')
    (hphase : load'.phase = .made o) :
    (t.heap o).isSome ∨ ∃ load, s.loads l = some load ∧ load.phase = .made o := by
  have hmoved : ∀ {l₀ : L} {load₁ : Load Obj}, (load₁.phase = .made o → (t.heap o).isSome) →
      t.loads = Function.update s.loads l₀ (some load₁) →
      (t.heap o).isSome ∨ ∃ load, s.loads l = some load ∧ load.phase = .made o := by
    intro l₀ load₁ hnew ht
    rw [ht, Function.update_apply] at h
    split at h
    · cases h
      exact .inl (hnew hphase)
    · exact .inr ⟨load', h, hphase⟩
  cases hdoes with
  | reuse hs hphase' hd he =>
      refine hmoved (fun hmade => ?_) rfl
      cases hmade
      exact existing_known he
  | subclassNamed =>
      refine hmoved (fun hmade => ?_) rfl
      cases hmade
      simp
  | subclassUses =>
      refine hmoved (fun hmade => ?_) rfl
      cases hmade
      simp
  | @publish l₀ load errors hs hphase' =>
      refine hmoved (fun hmade => ?_) rfl
      cases errors <;> cases hmade
  | snapshot | pushSuper | storeGlobal | leave | exportClass | answer | fail =>
      exact hmoved (fun hmade => by cases hmade) rfl
  | store | alloc | touch | register => exact .inr ⟨load', h, hphase⟩

theorem known_step (hkept : s.Kept) (h : s.Known) (hdoes : Does protoTrue s act t) : t.Known := by
  have hmono : ∀ {o}, (s.heap o).isSome → (t.heap o).isSome := heap_mono hdoes
  refine ⟨fun name o ho => ?_, fun o ho => ?_, fun l load o hs hphase => ?_,
    fun l load name o hs ho => ?_⟩
  · have hbind : ∀ {n : String} {v : Option Obj}, (∀ o, v = some o → (t.heap o).isSome) →
        Function.update s.globals n v name = some o → (t.heap o).isSome := by
      intro n v hv ho
      rw [Function.update_apply] at ho
      split at ho
      · exact hv o ho
      · exact hmono (h.globals name o ho)
    cases hdoes with
    | subclassUses =>
        refine hbind ?_ ho
        rintro _ ⟨⟩
        simp
    | storeGlobal hs hphase =>
        refine hbind ?_ ho
        rintro _ ⟨⟩
        exact h.made _ _ _ hs hphase
    | store hv => exact hbind hv ho
    | _ => exact hmono (h.globals name o ho)
  · by_cases hold : (s.heap o).isSome
    · exact hmono hold
    · have hnone : s.origin o = none := by
        by_contra hsome
        exact hold (h.origin o (Option.ne_none_iff_isSome.mp hsome))
      have hcreated : ∀ {o' : Obj} {cell : Cell Obj} {v : Option (L × Nat)},
          (Function.update s.origin o' v o).isSome →
            (Function.update s.heap o' (some cell) o).isSome := by
        intro o' cell v ho
        by_cases heq : o = o'
        · subst heq
          simp
        · rw [Function.update_of_ne heq, hnone] at ho
          cases ho
      cases hdoes with
      | subclassNamed | subclassUses => exact hcreated ho
      | _ => exact absurd (hnone ▸ ho : (none : Option (L × Nat)).isSome) (by simp)
  · rcases made_step hdoes hs hphase with hknown | ⟨load₀, hs₀, hphase₀⟩
    · exact hknown
    · exact hmono (h.made l load₀ o hs₀ hphase₀)
  · rcases (does_load hkept hdoes hs).2 with ⟨-, hkept', hread⟩ | ⟨load₀, hs₀, hquiet⟩ |
      ⟨load₀, n, hs₀, -, hreads⟩
    · exact absurd (hkept'.attributes name o ho) (hread name)
    · rw [hquiet.moduleObj] at ho
      exact hmono (h.attributes l load₀ name o hs₀ ho)
    · rw [hreads.lookup] at ho
      split at ho
      · exact hmono (h.globals n o ho)
      · exact hmono (h.attributes l load₀ name o hs₀ ho)

theorem known (h : (machine L protoTrue).Reachable s) : s.Known := by
  refine Machine.Reach.invariant (P := State.Known) ?_ ?_ h
  · intro s hfresh
    have hnone : ∀ {l : L} {load : Load Obj}, s.loads l ≠ some load := by
      intro l load hs
      rw [hfresh.loads l] at hs
      cases hs
    exact ⟨hfresh.globals, fun o ho => by simp [hfresh.origin o] at ho,
      fun l load o hs => absurd hs hnone, fun l load name o hs => absurd hs hnone⟩
  · intro s act t hreach hknown _ hstep
    exact known_step (kept hreach) hknown (does_of_step hstep)

end Steps

/-! ## The module object -/

/-- What a load should find under a name: the class that its declaration created, and
nothing under a name that its file does not declare. -/
structure Holds (origin : Obj → Option (L × Nat)) (l : L) (load : Load Obj) (name : String)
    (v : Option Obj) : Prop where
  declared : name ∈ Frontend.declared load.tops → ∃ o, v = some o ∧
    ∀ (k : Nat) (d : ClassDecl), load.decls[k]? = some d → d.name = name →
      origin o = some (l, k)
  foreign : name ∉ Frontend.declared load.tops → v = none

/-- The module object has one attribute for each class declaration whose name is exported,
the class the declaration created, and no others. -/
structure Exact (s : State L Obj) (l : L) (load : Load Obj) : Prop where
  own : ∀ (k : Nat) (d : ClassDecl), load.decls[k]? = some d → exported d.name = true →
    ∃ o, load.moduleObj.lookup d.name = some o ∧ s.origin o = some (l, k)
  only : ∀ name ∈ load.moduleObj, exported name = true ∧
    ∃ (k : Nat) (d : ClassDecl), load.decls[k]? = some d ∧ d.name = name

/-- When the load comes to an exported name, the global is as it should be. -/
def Reads (l : L) (s : State L Obj) (act : Action L Obj) : Prop :=
  ∀ name load, act = .exportClass l name → s.loads l = some load → exported name = true →
    Holds s.origin l load name (s.globals name)

section Exactness

variable {l : L} {load load' : Load Obj} {name : String}

theorem mem_declared : name ∈ Frontend.declared load.tops ↔
    ∃ (k : Nat) (d : ClassDecl), load.decls[k]? = some d ∧ d.name = name := by
  rw [Frontend.declared, List.mem_map]
  constructor
  · rintro ⟨d, hd, rfl⟩
    obtain ⟨k, hk⟩ := List.mem_iff_getElem?.mp hd
    exact ⟨k, d, hk, rfl⟩
  · rintro ⟨k, d, hk, rfl⟩
    exact ⟨d, List.mem_of_getElem? hk, rfl⟩

/-- The module object is exact when every exported name of the class table was read
right. -/
theorem exact_iff_right {s : State L Obj} (hkept : load.Kept) (hanswered : load.phase = .answered) :
    Exact s l load ↔ ∀ name, load.Read name →
      Holds s.origin l load name (load.moduleObj.lookup name) := by
  constructor
  · intro h name hread
    refine ⟨fun hdeclared => ?_, fun hforeign => ?_⟩
    · obtain ⟨k, d, hd, rfl⟩ := mem_declared.mp hdeclared
      obtain ⟨o, ho, -⟩ := h.own k d hd hread.2.1
      refine ⟨o, ho, fun k' d' hd' hname => ?_⟩
      obtain ⟨o', ho', horigin⟩ := h.own k' d' hd' (hname ▸ hread.2.1)
      rw [hname, ho] at ho'
      cases ho'
      exact horigin
    · by_contra hsome
      obtain ⟨o, ho⟩ := Option.ne_none_iff_exists'.mp hsome
      have hmem := AList.lookup_isSome.mp (Option.isSome_of_eq_some ho)
      exact hforeign (mem_declared.mpr (h.only name hmem).2)
  · intro h
    refine ⟨fun k d hd hexported => ?_, fun name hmem => ?_⟩
    · have hdeclared : d.name ∈ Frontend.declared load.tops := mem_declared.mpr ⟨k, d, hd, rfl⟩
      obtain ⟨o, ho, horigin⟩ := (h d.name ⟨hkept.declared _ hdeclared, hexported,
        .inl hanswered⟩).declared hdeclared
      exact ⟨o, ho, horigin k d hd rfl⟩
    · obtain ⟨o, ho⟩ := Option.isSome_iff_exists.mp (AList.lookup_isSome.mpr hmem)
      have hread := hkept.attributes name o ho
      refine ⟨hread.2.1, mem_declared.mp ?_⟩
      by_contra hforeign
      rw [(h name hread).foreign hforeign] at ho
      cases ho

variable [DecidableEq L] [DecidableEq Obj] {protoTrue : Obj} {s t : State L Obj}
  {act : Action L Obj}

/-- What is right stays right. -/
theorem holds_step (hdoes : Does protoTrue s act t) (htops : load'.tops = load.tops)
    {v : Option Obj} (hv : ∀ o, v = some o → (s.heap o).isSome) :
    Holds t.origin l load' name v ↔ Holds s.origin l load name v := by
  have hdecls : load'.decls = load.decls := by rw [Load.decls, Load.decls, htops]
  have horigin : ∀ o k, v = some o → (t.origin o = some (l, k) ↔ s.origin o = some (l, k)) := by
    intro o k ho
    rw [origin_eq hdoes (hv o ho)]
  constructor
  · intro h
    refine ⟨fun hdeclared => ?_, fun hforeign => h.foreign (by rwa [htops])⟩
    obtain ⟨o, ho, hall⟩ := h.declared (by rwa [htops])
    exact ⟨o, ho, fun k d hd hname => (horigin o k ho).mp (hall k d (hdecls ▸ hd) hname)⟩
  · intro h
    refine ⟨fun hdeclared => ?_, fun hforeign => h.foreign (by rwa [← htops])⟩
    obtain ⟨o, ho, hall⟩ := h.declared (by rwa [← htops])
    exact ⟨o, ho, fun k d hd hname => (horigin o k ho).mpr (hall k d (hdecls ▸ hd) hname)⟩

/-- Every exported name that a load has read was right. -/
def State.Right (s : State L Obj) (l : L) : Prop :=
  ∀ load, s.loads l = some load → ∀ name, load.Read name →
    Holds s.origin l load name (load.moduleObj.lookup name)

/-- A step keeps what is read right exactly when it reads right. -/
theorem right_step (hkept : s.Kept) (hknown : s.Known) (hdoes : Does protoTrue s act t) :
    t.Right l ↔ s.Right l ∧ Reads l s act := by
  constructor
  · intro hright
    refine ⟨fun load hs name hread => ?_, ?_⟩
    · obtain ⟨load', hload'⟩ := loads_persist hdoes hs
      have hattributes : ∀ o, load.moduleObj.lookup name = some o → (s.heap o).isSome :=
        fun o => hknown.attributes l load name o hs
      rcases (does_load hkept hdoes hload').2 with ⟨hnone, -, -⟩ | ⟨load₀, hs₀, hquiet⟩ |
        ⟨load₀, n, hs₀, -, hreads⟩
      · rw [hs] at hnone
        cases hnone
      · obtain rfl : load = load₀ := Option.some.inj (hs.symm.trans hs₀)
        have hholds := hright load' hload' name ((hquiet.read_iff name).mpr hread)
        rw [hquiet.moduleObj] at hholds
        exact (holds_step hdoes hquiet.tops hattributes).mp hholds
      · obtain rfl : load = load₀ := Option.some.inj (hs.symm.trans hs₀)
        have hholds := hright load' hload' name ((hreads.read_iff name).mpr (.inl hread))
        have hne : name ≠ n := by
          rintro rfl
          exact hreads.new hread
        rw [hreads.lookup, if_neg hne] at hholds
        exact (holds_step hdoes hreads.tops hattributes).mp hholds
    · rintro name load rfl hs hexported
      have hstep := hdoes
      cases hdoes with
      | exportClass hs' hphase hmem =>
          obtain rfl := Option.some.inj (hs.symm.trans hs')
          have hreads := Load.readsNow_read (hkept l load hs) hphase hmem hexported s.globals
          have hholds := hright _ (Function.update_self _ _ _) name
            ((hreads.read_iff name).mpr (.inr rfl))
          rw [hreads.lookup, if_pos rfl] at hholds
          exact (holds_step hstep hreads.tops (hknown.globals name)).mp hholds
  · rintro ⟨hright, hread⟩ load' hload' name hname
    rcases (does_load hkept hdoes hload').2 with ⟨-, -, hnone⟩ | ⟨load, hs, hquiet⟩ |
      ⟨load, n, hs, hact, hreads⟩
    · exact absurd hname (hnone name)
    · rw [hquiet.moduleObj, holds_step hdoes hquiet.tops
        (fun o => hknown.attributes l load name o hs)]
      exact hright load hs name ((hquiet.read_iff name).mp hname)
    · rw [hreads.lookup]
      by_cases heq : name = n
      · subst heq
        rw [if_pos rfl, holds_step hdoes hreads.tops (hknown.globals name)]
        exact hread name load hact hs hreads.exported
      · rw [if_neg heq, holds_step hdoes hreads.tops
          (fun o => hknown.attributes l load name o hs)]
        exact hright load hs name (((hreads.read_iff name).mp hname).resolve_right heq)

/-- The names a load has read were right when all reads of the run were. -/
theorem reach_reads_iff (h : (machine L protoTrue).Reachable s) :
    s.Right l ↔ (machine L protoTrue).Reach (Reads l) s := by
  constructor
  · intro hright
    induction h with
    | init hfresh => exact .init hfresh
    | step act hreach _ hstep ih =>
        obtain ⟨hright', hreads⟩ :=
          (right_step (kept hreach) (known hreach) (does_of_step hstep)).mp hright
        exact .step act (ih hright') hreads hstep
  · intro hreach
    refine Machine.Reach.invariant (P := fun s => s.Right l) ?_ ?_ hreach
    · intro s hfresh load hs
      rw [hfresh.loads l] at hs
      cases hs
    · intro s act t hreach hright hreads hstep
      exact (right_step (kept hreach.reachable) (known hreach.reachable)
        (does_of_step hstep)).mpr ⟨hright, hreads⟩

end Exactness

/-! ## Orderly runs -/

/-- The loop over the class table is still to come to a name. -/
def Load.Unread (load : Load Obj) (name : String) : Prop :=
  match load.phase with
  | .exporting left => name ∈ left
  | .answered | .failed => False
  | _ => True

/-- A load has bound its `k`-th declaration, which is exported, and has not read it. -/
structure Pending (load : Load Obj) (k : Nat) (d : ClassDecl) : Prop where
  decl : load.decls[k]? = some d
  exported : exported d.name = true
  bound : k < load.next
  unread : load.Unread d.name

/-- A store in a global takes a class from a load that has not read it. -/
def State.Takes (s : State L Obj) (name : String) (v : Option Obj) : Prop :=
  ∃ l load k d, s.loads l = some load ∧ Pending load k d ∧ d.name = name ∧
    ¬ ∃ o, v = some o ∧ s.origin o = some (l, k)

section Orderly

variable [DecidableEq L] [DecidableEq Obj] {protoTrue : Obj} {s t : State L Obj}
  {act : Action L Obj} {l : L} {load load' : Load Obj} {name : String}

/-- The steps of an orderly run: an exported declaration creates its class, no store takes it
from the load before the load reads it, the top level gets to all exported declarations, and
no global is bound under an exported name of the class table that the file does not
declare. -/
def Orderly (s : State L Obj) : Action L Obj → Prop
  | .subclassNamed l _ => ∀ load r d, s.loads l = some load → load.phase = .superclass r →
      load.decl? = some d → exported d.name = true → s.existing r d.name = none
  | .subclassUses l o => ∀ load d, s.loads l = some load → load.decl? = some d →
      ¬ s.Takes d.name (some o)
  | .storeGlobal l => ∀ load d o, s.loads l = some load → load.phase = .made o →
      load.decl? = some d → ¬ s.Takes d.name (some o)
  | .store name v => ¬ s.Takes name v
  | .leave l => ∀ load (k : Nat) d, s.loads l = some load → load.decls[k]? = some d →
      exported d.name = true → k < load.next
  | .exportClass l name => ∀ load, s.loads l = some load → exported name = true →
      name ∉ Frontend.declared load.tops → s.globals name = none
  | _ => True

/-- What holds of a load in an orderly run. -/
structure Load.Bound (s : State L Obj) (l : L) (load : Load Obj) : Prop where
  made : ∀ o d, load.phase = .made o → load.decl? = some d → exported d.name = true →
    s.origin o = some (l, load.next)
  bound : ∀ k d, Pending load k d →
    ∃ o, s.globals d.name = some o ∧ s.origin o = some (l, k)
  done : ∀ left (k : Nat) d, load.phase = .exporting left → load.decls[k]? = some d →
    exported d.name = true → k < load.next

def State.Bound (s : State L Obj) : Prop := ∀ l load, s.loads l = some load → load.Bound s l

/-- No store takes the class of a pending declaration. -/
theorem bound_step (hknown : s.Known) (hok : Orderly s act) (hdoes : Does protoTrue s act t)
    (hs : s.loads l = some load) (hbound : load.Bound s l) {k : Nat} {d : ClassDecl}
    (hpending : Pending load k d) : ∃ o, t.globals d.name = some o ∧ t.origin o = some (l, k) := by
  have horigin : ∀ {o}, s.origin o = some (l, k) → t.origin o = some (l, k) := by
    intro o ho
    rw [origin_eq hdoes (hknown.origin o (Option.isSome_of_eq_some ho))]
    exact ho
  obtain ⟨o, ho, hcreated⟩ := hbound.bound k d hpending
  have hkeep : s.globals d.name = some o ∧ t.origin o = some (l, k) := ⟨ho, horigin hcreated⟩
  have hbind : ∀ {n : String} {v : Option Obj}, ¬ s.Takes n v →
      ∃ o, Function.update s.globals n v d.name = some o ∧ t.origin o = some (l, k) := by
    intro n v hnot
    by_cases hn : d.name = n
    · have hvalue : ∃ o, v = some o ∧ s.origin o = some (l, k) := by
        by_contra hother
        exact hnot ⟨l, load, k, d, hs, hpending, hn, hother⟩
      obtain ⟨o', rfl, ho'⟩ := hvalue
      exact ⟨o', by rw [hn, Function.update_self], horigin ho'⟩
    · exact ⟨o, by rw [Function.update_of_ne hn, ho], horigin hcreated⟩
  cases hdoes with
  | subclassUses hs' _ hd => exact hbind (hok _ _ hs' hd)
  | storeGlobal hs' hphase hd => exact hbind (hok _ _ _ hs' hphase hd)
  | store => exact hbind hok
  | _ => exact ⟨o, hkeep⟩

/-- A load that goes on with what it has bound. -/
theorem Load.Bound.keep (hknown : s.Known) (hok : Orderly s act) (hdoes : Does protoTrue s act t)
    (hs : s.loads l = some load) (hbound : load.Bound s l) (htops : load'.tops = load.tops)
    (hnext : load'.next = load.next)
    (hunread : ∀ name, load'.Unread name → load.Unread name)
    (hmade : ∀ o d, load'.phase = .made o → load.decl? = some d → exported d.name = true →
      t.origin o = some (l, load.next))
    (hdone : ∀ left (k : Nat) d, load'.phase = .exporting left → load.decls[k]? = some d →
      exported d.name = true → k < load.next) : load'.Bound t l := by
  have hdecls : load'.decls = load.decls := by rw [Load.decls, Load.decls, htops]
  refine ⟨fun o d hphase hd hexported => ?_, fun k d hpending => ?_,
    fun left k d hphase hd hexported => ?_⟩
  · rw [Load.decl?, hdecls, hnext] at hd
    rw [hnext]
    exact hmade o d hphase hd hexported
  · exact bound_step hknown hok hdoes hs hbound
      ⟨hdecls ▸ hpending.decl, hpending.exported, hnext ▸ hpending.bound,
        hunread _ hpending.unread⟩
  · rw [hdecls] at hd
    rw [hnext]
    exact hdone left k d hphase hd hexported

theorem bound_state_step (hknown : s.Known) (hbound : s.Bound) (hok : Orderly s act)
    (hdoes : Does protoTrue s act t) : t.Bound := by
  -- a load that the step does not move
  have hkeep : ∀ {l load}, s.loads l = some load → load.Bound t l := by
    intro l load hs
    refine (hbound l load hs).keep hknown hok hdoes hs rfl rfl (fun _ h => h) ?_
      (hbound l load hs).done
    intro o d hphase hd hexported
    rw [origin_eq hdoes (hknown.made l load o hs hphase)]
    exact (hbound l load hs).made o d hphase hd hexported
  have hmoved : ∀ {l₀ : L} {load₁ : Load Obj}, load₁.Bound t l₀ →
      t.loads = Function.update s.loads l₀ (some load₁) → t.Bound := by
    intro l₀ load₁ hnew ht l load' hl
    rw [ht, Function.update_apply] at hl
    split at hl
    · rename_i heq
      cases hl
      exact heq ▸ hnew
    · exact hkeep hl
  -- a load that goes on with what it has bound
  have hmove : ∀ {l₀ : L} {load : Load Obj} (load₁ : Load Obj), s.loads l₀ = some load →
      t.loads = Function.update s.loads l₀ (some load₁) → load₁.tops = load.tops →
      load₁.next = load.next → (∀ name, load₁.Unread name → load.Unread name) →
      (∀ o d, load₁.phase = .made o → load.decl? = some d → exported d.name = true →
        t.origin o = some (l₀, load.next)) →
      (∀ left (k : Nat) d, load₁.phase = .exporting left → load.decls[k]? = some d →
        exported d.name = true → k < load.next) → t.Bound :=
    fun _ hs ht htops hnext hunread hmade hdone =>
      hmoved ((hbound _ _ hs).keep hknown hok hdoes hs htops hnext hunread hmade hdone) ht
  have hpendings : ∀ {l load k d}, s.loads l = some load → Pending load k d →
      ∃ o, t.globals d.name = some o ∧ t.origin o = some (l, k) :=
    fun hs => bound_step hknown hok hdoes hs (hbound _ _ hs)
  -- before the loop every name is unread
  have hunread : ∀ {load : Load Obj} {phase : Phase Obj}, load.phase = phase →
      (∀ name, Load.Unread (load.goto phase) name) → ∀ name, load.Unread name := by
    rintro load _ rfl h
    exact h
  cases hdoes with
  | snapshot hnone =>
      refine hmoved ⟨fun _ _ h => (by cases h), fun k d hpending => ?_,
        fun _ _ _ h => (by cases h)⟩ rfl
      exact absurd hpending.bound (Nat.not_lt_zero k)
  | @publish _ _ errors hs hphase =>
      refine hmove _ hs rfl rfl rfl (fun name _ => hunread hphase (fun _ => trivial) name) ?_ ?_
      all_goals cases errors <;> simp
  | pushSuper hs hphase =>
      exact hmove _ hs rfl rfl rfl (fun name _ => hunread hphase (fun _ => trivial) name)
        (fun _ _ h => (by cases h)) (fun _ _ _ h => (by cases h))
  | @reuse l₀ load d r e o hs hphase hd he =>
      refine hmove _ hs rfl rfl rfl (fun name _ => hunread hphase (fun _ => trivial) name) ?_
        (fun _ _ _ h => (by cases h))
      intro o' d' _ hd' hexported
      obtain rfl := Option.some.inj (hd.symm.trans hd')
      rw [hok load r d hs hphase hd hexported] at he
      cases he
  | subclassNamed hs hphase =>
      refine hmove _ hs rfl rfl rfl (fun name _ => hunread hphase (fun _ => trivial) name) ?_
        (fun _ _ _ h => (by cases h))
      rintro o' d' hmade - -
      cases hmade
      exact Function.update_self _ _ _
  | subclassUses hs hphase =>
      refine hmove _ hs rfl rfl rfl (fun name _ => hunread hphase (fun _ => trivial) name) ?_
        (fun _ _ _ h => (by cases h))
      rintro o' d' hmade - -
      cases hmade
      exact Function.update_self _ _ _
  | @storeGlobal l₀ load d o hs hphase hd =>
      refine hmoved ⟨fun _ _ h => (by cases h), fun k d' hpending => ?_,
        fun _ _ _ h => (by cases h)⟩ rfl
      rcases Nat.lt_succ_iff_lt_or_eq.mp hpending.bound with hlt | rfl
      · exact hpendings hs
          ⟨hpending.decl, hpending.exported, hlt, hunread hphase (fun _ => trivial) _⟩
      · obtain rfl := Option.some.inj (hd.symm.trans hpending.decl)
        exact ⟨o, Function.update_self _ _ _,
          (hbound l₀ load hs).made o d hphase hd hpending.exported⟩
  | @leave l₀ load hs hphase =>
      refine hmove _ hs rfl rfl rfl (fun name _ => hunread hphase (fun _ => trivial) name)
        (fun _ _ h => (by cases h)) ?_
      intro left k d _ hd hexported
      exact hok load k d hs hd hexported
  | @exportClass l₀ load left name hs hphase hmem =>
      refine hmove _ hs rfl rfl rfl ?_ (fun _ _ h => (by cases h)) ?_
      · intro n hn
        simp only [Load.Unread, hphase]
        exact List.mem_of_mem_erase hn
      · intro left' k d _ hd hexported
        exact (hbound l₀ load hs).done left k d hphase hd hexported
  | answer hs | fail hs =>
      exact hmove _ hs rfl rfl rfl (fun _ h => False.elim h) (fun _ _ h => (by cases h))
        (fun _ _ _ h => (by cases h))
  | store | alloc | touch | register => exact fun l load hs => hkeep hs

/-- In an orderly run a load reads its own classes. -/
theorem reads_of_orderly (hbound : s.Bound) (hok : Orderly s act) (hdoes : Does protoTrue s act t) :
    Reads l s act := by
  rintro name load rfl hs hexported
  cases hdoes with
  | @exportClass _ load' left _ hs' hphase hmem =>
      obtain rfl := Option.some.inj (hs.symm.trans hs')
      refine ⟨fun hdeclared => ?_, fun hforeign => hok load hs hexported hforeign⟩
      have hown : ∀ (k : Nat) (d : ClassDecl), load.decls[k]? = some d → d.name = name →
          ∃ o, s.globals name = some o ∧ s.origin o = some (l, k) := by
        rintro k d hd rfl
        refine (hbound l load hs).bound k d ⟨hd, hexported, ?_, ?_⟩
        · exact (hbound l load hs).done left k d hphase hd hexported
        · simp only [Load.Unread, hphase]
          exact hmem
      obtain ⟨k, d, hd, hname⟩ := mem_declared.mp hdeclared
      obtain ⟨o, ho, -⟩ := hown k d hd hname
      refine ⟨o, ho, fun k' d' hd' hname' => ?_⟩
      obtain ⟨o', ho', horigin⟩ := hown k' d' hd' hname'
      rw [ho] at ho'
      cases ho'
      exact horigin

/-- Orderly runs read right. -/
theorem reach_reads_of_orderly (h : (machine L protoTrue).Reach Orderly s) :
    (machine L protoTrue).Reach (Reads l) s := by
  suffices hboth : s.Bound ∧ (machine L protoTrue).Reach (Reads l) s from hboth.2
  refine Machine.Reach.invariant
    (P := fun s => s.Bound ∧ (machine L protoTrue).Reach (Reads l) s) ?_ ?_ h
  · intro s hfresh
    refine ⟨fun l load hs => ?_, .init hfresh⟩
    rw [hfresh.loads l] at hs
    cases hs
  · rintro s act t hreach ⟨hbound, hreads⟩ hok hstep
    have hdoes := does_of_step hstep
    exact ⟨bound_state_step (known hreach.reachable) hbound hok hdoes,
      .step act hreads (reads_of_orderly hbound hok hdoes) hstep⟩

/-- **The module object** of a load has its own classes and no others exactly when every
read of the loop over the class table was right, and so in every orderly run. -/
theorem exact_iff (h : (machine L protoTrue).Reachable s) (hs : s.loads l = some load)
    (hanswered : load.phase = .answered) :
    (Exact s l load ↔ (machine L protoTrue).Reach (Reads l) s) ∧
      ((machine L protoTrue).Reach Orderly s → Exact s l load) := by
  have hiff : Exact s l load ↔ (machine L protoTrue).Reach (Reads l) s := by
    rw [exact_iff_right (kept h l load hs) hanswered, ← reach_reads_iff h]
    constructor
    · intro hright load' hs'
      obtain rfl := Option.some.inj (hs.symm.trans hs')
      exact hright
    · intro hright
      exact hright load hs
  exact ⟨hiff, fun horderly => hiff.mpr (reach_reads_of_orderly horderly)⟩

end Orderly

/-! ## A process with its kernel -/

/-- 0 is `true`, 1 is `Object`, 2 stands for the classes of the kernel. -/
def process (registry : ClassMap) : State Nat Nat where
  registry := registry
  globals name :=
    if name = "__kernel_loaded__" then some 0
    else if name = "Object" then some 1
    else if name ∈ registry then some 2
    else none
  heap o := if o < 3 then some ⟨false, none⟩ else none
  loads _ := none
  origin _ := none

theorem fresh_process (registry : ClassMap) : (process registry).Fresh where
  loads _ := rfl
  origin _ := rfl
  globals name o h := by
    simp only [process] at h ⊢
    split at h
    · cases h
      rfl
    · split at h
      · cases h
        rfl
      · split at h
        · cases h
          rfl
        · cases h

/-- A file with `Object subclass: #Alpha`. -/
def alpha : List Top := [.classDecl (kernelDecl "Object" "Alpha" [])]

/-- Its load, which comes to these names of the class table. -/
def alphaLoad (names : List String) : List (Action Nat Nat) :=
  [.snapshot 0 alpha, .publish 0 false, .pushSuper 0, .subclassNamed 0 3, .storeGlobal 0,
    .leave 0] ++ names.map (.exportClass 0) ++ [.answer 0]

/-- The state behind these actions. -/
def behind (registry : ClassMap) (acts : List (Action Nat Nat)) : Option (State Nat Nat) :=
  (machine Nat (0 : Nat)).exec (process registry) acts

/-- What there is to see of the load `0`. -/
def seen (name : String) (s : State Nat Nat) : Option (Phase Nat × Option Nat × List String) :=
  (s.loads 0).map fun load =>
    (load.phase, load.moduleObj.lookup name, load.decls.map ClassDecl.name)

theorem load_of_seen {name : String} {s : State Nat Nat} {phase : Phase Nat} {v : Option Nat}
    {names : List String} (h : seen name s = some (phase, v, names)) :
    ∃ load, s.loads 0 = some load ∧ load.phase = phase ∧ load.moduleObj.lookup name = v ∧
      load.decls.map ClassDecl.name = names := by
  obtain ⟨load, hs, heq⟩ := Option.map_eq_some_iff.mp h
  cases heq
  exact ⟨load, hs, rfl, rfl, rfl⟩

/-- **A module with the classes of the kernel**: the module object of the file answers
`Point`. -/
theorem alpha_exports_point : ∃ s load, (machine Nat (0 : Nat)).Reachable s ∧
    s.loads 0 = some load ∧ load.phase = .answered ∧
      load.moduleObj.lookup "Point" = some 2 ∧ ¬ Exact s 0 load := by
  have hrun : (behind kernelClasses (alphaLoad ("Alpha" :: kernelClasses.keys))).bind
      (seen "Point") = some (.answered, some 2, ["Alpha"]) := by rfl
  obtain ⟨s, hexec, hseen⟩ := Option.bind_eq_some_iff.mp hrun
  obtain ⟨load, hs, hphase, hpoint, hdecls⟩ := load_of_seen hseen
  refine ⟨s, load, Machine.reach_of_exec (.init (fresh_process _)) hexec, hs, hphase, hpoint, ?_⟩
  intro hexact
  obtain ⟨-, k, d, hd, hname⟩ := hexact.only "Point"
    (AList.lookup_isSome.mp (Option.isSome_of_eq_some hpoint))
  have hmem : d.name ∈ load.decls.map ClassDecl.name :=
    List.mem_map_of_mem (List.mem_of_getElem? hd)
  rw [hdecls, hname] at hmem
  exact absurd hmem (by decide)

/-- A read of `Alpha`, which is the class that its declaration created. -/
def readsAlpha (s : State Nat Nat) : Action Nat Nat → Bool
  | .exportClass _ name =>
      name = "Alpha" && (s.loads 0).all fun load =>
        load.decls.map ClassDecl.name = ["Alpha"] && s.globals "Alpha" = some 3 &&
          s.origin 3 = some (0, 0)
  | _ => true

theorem reads_of_readsAlpha {s : State Nat Nat} {act : Action Nat Nat}
    (h : readsAlpha s act = true) : Reads 0 s act := by
  rintro name load rfl hs -
  simp only [readsAlpha, hs, Option.all_some, Bool.and_eq_true, decide_eq_true_eq] at h
  obtain ⟨rfl, ⟨hnames, hglobal⟩, horigin⟩ := h
  refine ⟨fun _ => ⟨3, hglobal, fun k d hd _ => ?_⟩, fun hforeign => absurd ?_ hforeign⟩
  · have hlength : load.decls.length = 1 := by
      rw [← List.length_map ClassDecl.name, hnames]
      rfl
    obtain ⟨hk, -⟩ := List.getElem?_eq_some_iff.mp hd
    obtain rfl : k = 0 := by omega
    exact horigin
  · rw [Frontend.declared]
    exact hnames ▸ List.mem_singleton_self _

/-- The same file in a process without a kernel. -/
theorem exact_alpha : ∃ s load, s.loads 0 = some load ∧ load.phase = .answered ∧
    load.moduleObj.lookup "Alpha" = some 3 ∧ Exact s 0 load := by
  have hrun : ((machine Nat (0 : Nat)).execOk readsAlpha (process ∅)
      (alphaLoad ["Alpha"])).bind (seen "Alpha") = some (.answered, some 3, ["Alpha"]) := by rfl
  obtain ⟨s, hexec, hseen⟩ := Option.bind_eq_some_iff.mp hrun
  obtain ⟨load, hs, hphase, halpha, -⟩ := load_of_seen hseen
  have hreads := Machine.reach_of_execOk readsAlpha (fun s act => reads_of_readsAlpha)
    (.init (fresh_process ∅) : (machine Nat (0 : Nat)).Reach (Reads 0) (process ∅)) hexec
  exact ⟨s, load, hs, hphase, halpha, (exact_iff hreads.reachable hs hphase).1.mpr hreads⟩

end ProtoST.Runtime.ModuleObject

import ProtoST.Lib.FileTree
import ProtoST.Runtime.ModuleImportSafety

/-!
# The files of modules

`findModuleFile` and the key of `importModuleFile` (`runtime/STRuntime.cpp`).  The file of a
module is searched in the current directory, along `STPATH`, in the active venv and in the
library; the text of the path it is found by, made absolute, is the key under which
`modulesLoading` and the cache know the module (`Runtime/ModuleImport.lean`).
`fs::absolute` puts the current directory before a relative path and changes nothing else.

`Import from:` does not call it at once: protoCore's `getImportModule` looks for the logical
path in a cache of its own, and what the provider answers goes into that cache.  protoCore is
not part of the repository; of this cache only that is taken.  So an import goes through two
caches, one by the name that is imported and one by the text of the path, and the directory
that a name is looked for in may have changed between two imports.

The files are a tree without links.  What `venvDiscover` and `discoverStdlibDir` answer is
part of the environment of an import.

## Main results

* `one_module` — in every run in which a logical path always stands for one file, and the
  directories and names that files are found by have no `.`, `..` and empty component, imports
  of one file answer one object, its top level runs once and an import of itself is a cycle.
* `not_oneModule_dotted`, `not_oneModule_moved` — otherwise `m` and `./m` are two modules, and
  so are `m` and `m.st` after a change of directory.
-/

namespace ProtoST.Runtime.ModuleFiles

open ProtoST.Lib ProtoST.Lib.FileTree ProtoST.Runtime.ModuleImport
open ProtoST.Uri (Text)

/-! ## `findModuleFile` -/

/-- What an import finds around it. -/
structure Environment where
  tree : Tree
  /-- `current_path` -/
  cwd : Text
  cwd_directory : Directory cwd
  stpath : Option Text
  /-- The active venv, or nothing. -/
  venv : Text
  /-- `discoverStdlibDir` -/
  libDir : Text

def suffix : Text := ['.', 's', 't']

/-- The name with the suffix. -/
def fileName (logicalPath : Text) : Text :=
  if logicalPath.length < 3 ∨ logicalPath.drop (logicalPath.length - 3) ≠ suffix then
    logicalPath ++ suffix
  else logicalPath

namespace Environment

/-- The cache key of a path. -/
def canonical (env : Environment) (filePath : Text) : Text := absolute env.cwd filePath

/-- `fs::exists` -/
def fileExists (env : Environment) (p : Text) : Bool :=
  (env.tree.resolve (env.canonical p)).isSome

/-- Where a module is looked for. -/
def directories (env : Environment) : List Text :=
  [env.cwd] ++ ((env.stpath.getD []).splitOn ':').filter (!·.isEmpty) ++
    (if env.venv = [] then []
      else [join (join (join env.venv "lib".toList) "protoST".toList) "modules".toList]) ++
    if env.libDir = [] then [] else [env.libDir]

def findModuleFile (env : Environment) (logicalPath : Text) : Option Text :=
  (env.directories.map (join · (fileName logicalPath))).find? env.fileExists

/-- The directory in which the file is found. -/
def foundIn (env : Environment) (logicalPath : Text) : Option Text :=
  env.directories.find? fun dir => env.fileExists (join dir (fileName logicalPath))

theorem findModuleFile_eq (env : Environment) (logicalPath : Text) :
    env.findModuleFile logicalPath =
      (env.foundIn logicalPath).map (join · (fileName logicalPath)) := by
  unfold findModuleFile foundIn
  rw [List.find?_map]
  rfl

end Environment

/-- An import whose module is found. -/
structure Import where
  env : Environment
  logicalPath : Text
  filePath : Text
  found : env.findModuleFile logicalPath = some filePath

namespace Import

def key (i : Import) : Text := i.env.canonical i.filePath

/-- The file itself. -/
def file (i : Import) : Option (List Text) := i.env.tree.resolve i.key

theorem exists_file (i : Import) : ∃ object, i.file = some object := by
  have hExists : i.env.fileExists i.filePath = true := List.find?_some i.found
  exact Option.isSome_iff_exists.mp hExists

/-- The directory in which the file is found and the name have no `.`, `..` and empty
component. -/
def Clean (i : Import) : Prop :=
  (∀ dir ∈ i.env.foundIn i.logicalPath, Directory dir ∨ Names dir) ∧
    (Plain (fileName i.logicalPath) ∨ Names (fileName i.logicalPath))

instance (i : Import) : Decidable i.Clean := inferInstanceAs (Decidable (_ ∧ _))

theorem Clean.plain {i : Import} (h : i.Clean) : Plain i.key := by
  have hFound := i.found
  rw [i.env.findModuleFile_eq] at hFound
  obtain ⟨dir, hDir, hPath⟩ := Option.map_eq_some_iff.mp hFound
  unfold key Environment.canonical
  rw [← hPath]
  exact plain_absolute_join i.env.cwd_directory (h.1 dir hDir) h.2

/-- One file has one key. -/
theorem Clean.key_eq {i j : Import} (hi : i.Clean) (hj : j.Clean) (h : i.file = j.file) :
    i.key = j.key := by
  obtain ⟨object, hObject⟩ := i.exists_file
  exact hi.plain.unique hj.plain hObject (h.symm.trans hObject)

end Import

/-! ## `Import from:` -/

/-- protoCore's module cache: what is found under a logical path was stored for it. -/
structure SharedModuleCache (O : Type) where
  Entries : Type
  empty : Entries
  lookup : Entries → Text → Option O
  store : Entries → Text → O → Entries
  lookup_empty : ∀ path, lookup empty path = none
  lookup_store : ∀ entries path o path' o', lookup (store entries path o) path' = some o' →
    path' = path ∧ o' = o ∨ lookup entries path' = some o'

/-- The threads that import, with both caches. -/
structure Importers (T : Type) {O : Type} (C : SharedModuleCache O) where
  modules : State T Text O
  entries : C.Entries
  /-- The imports of a thread that the provider has not answered, the innermost first. -/
  calls : T → List Import
  /-- What the provider has answered a thread and protoCore has not stored yet. -/
  storing : T → Option (Import × O)
  imports : List Import
  answers : List (T × Import × O)

inductive Act (T O : Type) where
  | importFrom (t : T) (i : Import)
  /-- A step of `importModuleFile`. -/
  | provider (a : Action T Text O)
  /-- protoCore stores what the provider answered. -/
  | store (t : T)

/-- The thread that takes a step. -/
def thread {T K O : Type} : Action T K O → T
  | .importModule t _ | .enter t | .check t | .succeed t _ | .fail t | .notify t | .spurious t => t

/-- The call of `importModuleFile` that a step ends, with the module object or an error. -/
def returned {T K O : Type} [DecidableEq T] [DecidableEq K] (s : State T K O) :
    Action T K O → Option (Option O)
  | .enter t =>
      match s.pc t with
      | .enter key =>
          match s.entry t key with
          | some (.cached o) => some (some o)
          | some .cyclic => some none
          | _ => none
      | _ => none
  | .notify t =>
      match s.pc t with
      | .notify _ result => some result
      | _ => none
  | _ => none

namespace Importers

variable {T O : Type} [DecidableEq T] {C : SharedModuleCache O}

def initial (T : Type) {O : Type} (C : SharedModuleCache O) : Importers T C :=
  ⟨ModuleImport.initial, C.empty, fun _ => [], fun _ => none, [], []⟩

/-- `prim_Import_from`, up to the call of `importModuleFile` where there is one. -/
def importFrom (s : Importers T C) (t : T) (i : Import) : Option (Importers T C) :=
  match s.storing t, s.modules.pc t with
  | none, .idle =>
      match C.lookup s.entries i.logicalPath with
      | some o => some { s with imports := i :: s.imports, answers := (t, i, o) :: s.answers }
      | none =>
          (s.modules.step (.importModule t i.key)).map fun modules =>
            { s with
              modules := modules
              calls := Function.update s.calls t (i :: s.calls t)
              imports := i :: s.imports }
  | _, _ => none

/-- `STModuleProvider` has what it called for. -/
def settle (s : Importers T C) (t : T) : Option (Option O) → Importers T C
  | none => s
  | some result =>
      match s.calls t with
      | [] => s
      | i :: rest =>
          { s with
            calls := Function.update s.calls t rest
            storing := Function.update s.storing t (result.map (i, ·)) }

def store (s : Importers T C) (t : T) (i : Import) (o : O) : Importers T C :=
  { s with
    entries := C.store s.entries i.logicalPath o
    storing := Function.update s.storing t none
    answers := (t, i, o) :: s.answers }

def step (s : Importers T C) : Act T O → Option (Importers T C)
  | .importFrom t i => s.importFrom t i
  | .provider (.importModule _ _) => none
  | .provider a =>
      match s.storing (thread a) with
      | some _ => none
      | none =>
          (s.modules.step a).map fun modules =>
            { s with modules := modules }.settle (thread a) (returned s.modules a)
  | .store t => (s.storing t).map fun p => s.store t p.1 p.2

end Importers

/-- The imports of any number of threads, in any environments. -/
def importing (T : Type) {O : Type} [DecidableEq T] (C : SharedModuleCache O) :
    Machine (Importers T C) (Act T O) where
  init s := s = .initial T C
  step := Importers.step

/-! ## One module -/

/-- **The claim, of a state.** -/
structure OneModule {T O : Type} [DecidableEq T] {C : SharedModuleCache O} (s : Importers T C) :
    Prop where
  /-- Imports of one file answer one object. -/
  oneObject : ∀ t u i j o o', (t, i, o) ∈ s.answers → (u, j, o') ∈ s.answers →
    i.file = j.file → o = o'
  /-- Its top level was run to its end, and is not run again. -/
  loaded : ∀ t i o, (t, i, o) ∈ s.answers → ∃ j ∈ s.imports, j.file = i.file ∧
    (j.key, o) ∈ s.modules.succeeded
  once : ∀ i ∈ s.imports, ∀ j ∈ s.imports, i.file = j.file → ∀ o,
    (i.key, o) ∈ s.modules.succeeded → ∀ t, j.key ∉ s.modules.loads t
  /-- Nor is it run twice at a time, by two threads or within itself. -/
  alone : ∀ i ∈ s.imports, ∀ j ∈ s.imports, i.file = j.file → ∀ t u,
    i.key ∈ s.modules.loads t → j.key ∈ s.modules.loads u →
      t = u ∧ i.key = j.key ∧ (s.modules.loads t).Nodup
  /-- A module that imports itself is a cycle. -/
  cyclic : ∀ i ∈ s.imports, ∀ j ∈ s.imports, i.file = j.file → ∀ t,
    i.key ∈ s.modules.loads t → s.modules.pc t = .enter j.key →
      s.modules.entry t j.key = some .cyclic

/-- **The condition**, on a step: a file is found without `.`, `..` and empty components, and
under a name that has not stood for another file. -/
def Meets {T O : Type} {C : SharedModuleCache O} (s : Importers T C) : Act T O → Prop
  | .importFrom _ i =>
      i.Clean ∧ ∀ j ∈ s.imports, j.logicalPath = i.logicalPath → j.file = i.file
  | _ => True

instance {T O : Type} {C : SharedModuleCache O} (s : Importers T C) :
    (a : Act T O) → Decidable (Meets s a)
  | .importFrom _ i => inferInstanceAs (Decidable (i.Clean ∧ ∀ j ∈ s.imports,
      j.logicalPath = i.logicalPath → j.file = i.file))
  | .provider _ | .store _ => inferInstanceAs (Decidable True)

/-! ## The calls of a thread -/

section Calls

variable {T K O : Type} {s s' : State T K O}

/-- The key of the innermost import, unless a top level runs. -/
def pending : Pc K O → List K
  | .idle => []
  | .enter key | .waiting key | .asleep key | .notify key _ => [key]

@[simp] theorem pending_wake (pc : Pc K O) : pending pc.wake = pending pc := by
  cases pc <;> rfl

/-- The imports of a thread that are not over. -/
def current (s : State T K O) (t : T) : List K := pending (s.pc t) ++ s.loads t

variable [DecidableEq T] [DecidableEq K]

/-- An import that begins. -/
theorem current_import {t : T} {key : K} (hStep : s.step (.importModule t key) = some s') (u : T) :
    current s' u = if u = t then key :: current s u else current s u := by
  cases does_of_step hStep with
  | importModule hPc =>
      unfold current State.goto
      by_cases hu : u = t
      · simp [hu, hPc, pending]
      · simp [hu]

/-- The critical section ends the import or leaves it where it is. -/
theorem current_enter {t : T} (hStep : s.step (.enter t) = some s') (u : T) :
    current s' u = if u = t ∧ (returned s (.enter t)).isSome then (current s u).tail
      else current s u := by
  simp only [State.step] at hStep
  split at hStep
  · rename_i key hPc
    obtain ⟨found, hFound, rfl⟩ := Option.map_eq_some_iff.mp hStep
    unfold current returned
    by_cases hu : u = t
    · cases found <;> simp [hu, hPc, hFound, pending, State.enter]
    · cases found <;> simp [hu, State.enter]
  · cases hStep

theorem current_notify {t : T} (hStep : s.step (.notify t) = some s') (u : T) :
    current s' u = if u = t ∧ (returned s (.notify t)).isSome then (current s u).tail
      else current s u := by
  unfold current returned
  cases does_of_step hStep with
  | answer hPc | raise hPc =>
      by_cases hu : u = t
      · simp [hu, hPc, pending]
      · simp [hu]

variable {a : Action T K O}

/-- The other steps leave the imports of the threads where they are. -/
theorem current_other (hStep : s.step a = some s') (hReturned : returned s a = none)
    (hImport : ∀ t key, a ≠ .importModule t key) (u : T) : current s' u = current s u := by
  cases a with
  | importModule t key => exact absurd rfl (hImport t key)
  | enter t =>
      rw [current_enter hStep, hReturned]
      simp
  | notify t =>
      rw [current_notify hStep, hReturned]
      simp
  | check t | spurious t | succeed t o | fail t =>
      unfold current
      cases does_of_step hStep <;>
        · by_cases hu : u = t
          · simp_all [pending]
          · simp [hu]

/-- The last step of a call ends the innermost import of its thread. -/
theorem current_returned (hStep : s.step a = some s') {result : Option O}
    (hReturned : returned s a = some result) (u : T) :
    current s' u = if u = thread a then (current s u).tail else current s u := by
  cases a with
  | enter t =>
      rw [current_enter hStep, hReturned]
      by_cases hu : u = t <;> simp [thread, hu]
  | notify t =>
      rw [current_notify hStep, hReturned]
      by_cases hu : u = t <;> simp [thread, hu]
  | importModule | check | succeed | fail | spurious => cases hReturned

/-- What a call of `importModuleFile` answers is in its cache. -/
theorem returned_cached (hs : machine.Reachable s) (hStep : s.step a = some s')
    {result : Option O} (hReturned : returned s a = some result) :
    ∃ key rest, current s (thread a) = key :: rest ∧
      ∀ o ∈ result, s'.moduleCache.lookup key = some o := by
  unfold returned at hReturned
  split at hReturned
  · rename_i t
    split at hReturned
    · rename_i key hPc
      refine ⟨key, s.loads t, by simp [current, thread, hPc, pending], fun o ho => ?_⟩
      simp only [State.step, hPc] at hStep
      obtain ⟨found, hFound, rfl⟩ := Option.map_eq_some_iff.mp hStep
      rw [hFound] at hReturned
      cases found with
      | cached o' =>
          cases hReturned
          cases ho
          unfold State.entry at hFound
          split at hFound
          · rename_i hCached
            cases hFound
            exact hCached
          · split at hFound
            · cases hFound
            · obtain ⟨found, -, hCase⟩ := Option.map_eq_some_iff.mp hFound
              split at hCase <;> cases hCase
      | cyclic =>
          cases hReturned
          cases ho
      | load | wait => cases hReturned
    · cases hReturned
  · rename_i t
    split at hReturned
    · rename_i key r hPc
      refine ⟨key, s.loads t, by simp [current, thread, hPc, pending], fun o ho => ?_⟩
      cases hReturned
      cases ho
      exact cache_step (does_of_step hStep) ((consistent hs).modules.notified t key o hPc)
    · cases hReturned
  · cases hReturned

end Calls

/-! ## The invariant -/

section Invariant

variable {T O : Type} [DecidableEq T] {C : SharedModuleCache O} {s s' : Importers T C}

structure Inv (s : Importers T C) : Prop where
  reachable : machine.Reachable s.modules
  clean : ∀ i ∈ s.imports, i.Clean
  oneFile : ∀ i ∈ s.imports, ∀ j ∈ s.imports, i.logicalPath = j.logicalPath → i.file = j.file
  called : ∀ t, ∀ i ∈ s.calls t, i ∈ s.imports
  calls_keys : ∀ t, (s.calls t).map Import.key = current s.modules t
  stored : ∀ t i o, s.storing t = some (i, o) →
    i ∈ s.imports ∧ s.modules.moduleCache.lookup i.key = some o
  cached : ∀ path o, C.lookup s.entries path = some o →
    ∃ i ∈ s.imports, i.logicalPath = path ∧ s.modules.moduleCache.lookup i.key = some o
  answered : ∀ t i o, (t, i, o) ∈ s.answers →
    i ∈ s.imports ∧ s.modules.moduleCache.lookup i.key = some o

theorem inv_initial : Inv (.initial T C) where
  reachable := .init rfl
  clean i hi := by cases hi
  oneFile i hi := by cases hi
  called t i hi := by cases hi
  calls_keys t := rfl
  stored t i o h := by cases h
  cached path o h := by
    rw [Importers.initial, C.lookup_empty] at h
    cases h
  answered t i o h := by cases h

/-- One file has one key. -/
theorem Inv.key_eq (h : Inv s) {i j : Import} (hi : i ∈ s.imports) (hj : j ∈ s.imports)
    (hFile : i.file = j.file) : i.key = j.key :=
  (h.clean i hi).key_eq (h.clean j hj) hFile

/-- An import more. -/
theorem Inv.imports (h : Inv s) {t : T} {i : Import} (hMeets : Meets s (.importFrom t i)) :
    Inv { s with imports := i :: s.imports } where
  reachable := h.reachable
  clean j hj := by
    rcases List.mem_cons.mp hj with rfl | hj
    · exact hMeets.1
    · exact h.clean j hj
  oneFile j hj k hk hPath := by
    rcases List.mem_cons.mp hj with hjNew | hj <;> rcases List.mem_cons.mp hk with hkNew | hk
    · rw [hjNew, hkNew]
    · rw [hjNew] at hPath ⊢
      exact (hMeets.2 k hk hPath.symm).symm
    · rw [hkNew] at hPath ⊢
      exact hMeets.2 j hj hPath
    · exact h.oneFile j hj k hk hPath
  called u j hj := List.mem_cons_of_mem i (h.called u j hj)
  calls_keys := h.calls_keys
  stored u j o hj := (h.stored u j o hj).imp (List.mem_cons_of_mem i) id
  cached path o ho := by
    obtain ⟨j, hj, hBoth⟩ := h.cached path o ho
    exact ⟨j, List.mem_cons_of_mem i hj, hBoth⟩
  answered u j o hj := (h.answered u j o hj).imp (List.mem_cons_of_mem i) id

/-- `Import from:` -/
theorem Inv.importFrom (h : Inv s) {t : T} {i : Import} (hMeets : Meets s (.importFrom t i))
    (hStep : s.importFrom t i = some s') : Inv s' := by
  have hImports := h.imports hMeets
  unfold Importers.importFrom at hStep
  split at hStep
  · split at hStep
    · -- protoCore has a module under the name: it was found in the same file
      rename_i o hLookup
      cases hStep
      refine { hImports with answered := fun u j o' hj => ?_ }
      rcases List.mem_cons.mp hj with hNew | hj
      · cases hNew
        obtain ⟨j, hj, hPath, hCached⟩ := h.cached _ o hLookup
        refine ⟨List.mem_cons_self, ?_⟩
        rwa [← hImports.key_eq (List.mem_cons_of_mem i hj) List.mem_cons_self
          (hMeets.2 j hj hPath)]
      · exact hImports.answered u j o' hj
    · obtain ⟨modules, hModules, hNew⟩ := Option.map_eq_some_iff.mp hStep
      cases hNew
      have hCached : ∀ {key o}, s.modules.moduleCache.lookup key = some o →
          modules.moduleCache.lookup key = some o := cache_step (does_of_step hModules)
      have hReach : machine.Reachable modules :=
        .step (.importModule t i.key) h.reachable trivial hModules
      refine ⟨hReach, hImports.clean, hImports.oneFile,
        fun u j hj => ?_, fun u => ?_, fun u j o hj => ?_, fun path o ho => ?_, fun u j o hj => ?_⟩
      · simp only [Function.update_apply] at hj
        split at hj
        · rename_i hu
          rcases List.mem_cons.mp hj with rfl | hj
          · exact List.mem_cons_self
          · exact hImports.called t j hj
        · exact hImports.called u j hj
      · simp only [Function.update_apply]
        rw [current_import hModules]
        split
        · rename_i hu
          rw [List.map_cons, h.calls_keys, hu]
        · exact h.calls_keys u
      · exact (hImports.stored u j o hj).imp id hCached
      · obtain ⟨j, hj, hPath, hLookup⟩ := hImports.cached path o ho
        exact ⟨j, hj, hPath, hCached hLookup⟩
      · exact (hImports.answered u j o hj).imp id hCached
  · cases hStep

theorem step_provider {a : Action T Text O} (hStep : s.step (.provider a) = some s') :
    (∀ t key, a ≠ .importModule t key) ∧ ∃ modules, s.modules.step a = some modules ∧
      ({ s with modules := modules }.settle (thread a) (returned s.modules a)) = s' := by
  unfold Importers.step at hStep
  split at hStep
  · rename_i hAct
    cases hAct
  · cases hStep
  · rename_i b hImport hAct
    cases hAct
    split at hStep
    · cases hStep
    · exact ⟨fun t key ha => hImport t key ha, Option.map_eq_some_iff.mp hStep⟩
  · rename_i hAct
    cases hAct

/-- A step of `importModuleFile`, which may be the last one of a call. -/
theorem Inv.provider (h : Inv s) {a : Action T Text O} (hImport : ∀ t key, a ≠ .importModule t key)
    {modules : State T Text O} (hModules : s.modules.step a = some modules) :
    Inv ({ s with modules := modules }.settle (thread a) (returned s.modules a)) := by
  have hReach : machine.Reachable modules := .step a h.reachable trivial hModules
  have hCached : ∀ {key o}, s.modules.moduleCache.lookup key = some o →
      modules.moduleCache.lookup key = some o := cache_step (does_of_step hModules)
  cases hReturned : returned s.modules a with
  | none =>
      refine ⟨hReach, h.clean, h.oneFile, h.called, fun u => ?_, fun u i o hi => ?_,
        fun path o ho => ?_, fun u i o hi => ?_⟩
      · exact (h.calls_keys u).trans (current_other hModules hReturned hImport u).symm
      · exact (h.stored u i o hi).imp id hCached
      · obtain ⟨i, hi, hPath, hLookup⟩ := h.cached path o ho
        exact ⟨i, hi, hPath, hCached hLookup⟩
      · exact (h.answered u i o hi).imp id hCached
  | some result =>
      obtain ⟨key, rest, hCurrent, hResult⟩ := returned_cached h.reachable hModules hReturned
      obtain ⟨i, calls, hCalls, rfl, hRest⟩ := List.map_eq_cons_iff.mp
        ((h.calls_keys (thread a)).trans hCurrent)
      have hMem : i ∈ s.imports := h.called (thread a) i (hCalls ▸ List.mem_cons_self)
      simp only [Importers.settle, hCalls]
      refine ⟨hReach, h.clean, h.oneFile, fun u j hj => ?_, fun u => ?_, fun u j o hj => ?_,
        fun path o ho => ?_, fun u j o hj => ?_⟩
      · simp only [Function.update_apply] at hj
        split at hj
        · exact h.called (thread a) j (hCalls ▸ List.mem_cons_of_mem i hj)
        · exact h.called u j hj
      · simp only [Function.update_apply]
        rw [current_returned hModules hReturned]
        split
        · rename_i hu
          rw [hu, hCurrent, List.tail_cons, hRest]
        · exact h.calls_keys u
      · simp only [Function.update_apply] at hj
        split at hj
        · obtain ⟨o', ho', hPair⟩ := Option.map_eq_some_iff.mp hj
          cases hPair
          exact ⟨hMem, hResult o ho'⟩
        · exact (h.stored u j o hj).imp id hCached
      · obtain ⟨j, hj, hPath, hLookup⟩ := h.cached path o ho
        exact ⟨j, hj, hPath, hCached hLookup⟩
      · exact (h.answered u j o hj).imp id hCached

/-- protoCore's store. -/
theorem Inv.store (h : Inv s) {t : T} {i : Import} {o : O} (hStoring : s.storing t = some (i, o)) :
    Inv (s.store t i o) := by
  obtain ⟨hMem, hLookup⟩ := h.stored t i o hStoring
  refine { h with
    stored := fun u j o' hj => ?_
    cached := fun path o' ho => ?_
    answered := fun u j o' hj => ?_ }
  · simp only [Importers.store, Function.update_apply] at hj
    split at hj
    · cases hj
    · exact h.stored u j o' hj
  · rcases C.lookup_store _ _ _ _ _ ho with ⟨rfl, rfl⟩ | ho
    · exact ⟨i, hMem, rfl, hLookup⟩
    · exact h.cached path o' ho
  · rcases List.mem_cons.mp hj with hNew | hj
    · cases hNew
      exact ⟨hMem, hLookup⟩
    · exact h.answered u j o' hj

/-- One step that meets the condition. -/
theorem Inv.step (h : Inv s) {a : Act T O} (hMeets : Meets s a) (hStep : s.step a = some s') :
    Inv s' := by
  cases a with
  | importFrom t i => exact h.importFrom hMeets hStep
  | store t =>
      obtain ⟨p, hStoring, rfl⟩ := Option.map_eq_some_iff.mp hStep
      exact h.store hStoring
  | provider a =>
      obtain ⟨hImport, modules, hModules, rfl⟩ := step_provider hStep
      exact h.provider hImport hModules

/-! ## The theorem -/

/-- An import of a module that the thread itself loads. -/
theorem entry_own {s : State T Text O} (hs : machine.Reachable s) {t : T} {key : Text}
    (hLoads : key ∈ s.loads t) : s.entry t key = some .cyclic := by
  have hConsistent := consistent hs
  have hLoading := (hConsistent.tables.owned t key).mp hLoads
  have hCache := hConsistent.modules.loading key t hLoading
  unfold State.entry
  rw [hCache]
  dsimp only
  rw [hLoading]
  dsimp only
  rw [Follow.walk, if_pos rfl]
  rfl

theorem Inv.oneModule (h : Inv s) : OneModule s where
  oneObject t u i j o o' hi hj hFile := by
    obtain ⟨hMem, hLookup⟩ := h.answered t i o hi
    obtain ⟨hMem', hLookup'⟩ := h.answered u j o' hj
    rw [h.key_eq hMem hMem' hFile] at hLookup
    exact Option.some.inj (hLookup.symm.trans hLookup')
  loaded t i o hi := by
    obtain ⟨hMem, hLookup⟩ := h.answered t i o hi
    exact ⟨i, hMem, rfl, (loaded_once_no_deadlock h.reachable).cached_succeeded i.key o hLookup⟩
  once i hi j hj hFile o hSucceeded := by
    rw [h.key_eq hi hj hFile] at hSucceeded
    exact (loaded_once_no_deadlock h.reachable).never_again s.modules j.key o .refl hSucceeded
  alone i hi j hj hFile t u ht hu := by
    have hKey := h.key_eq hi hj hFile
    have hSafe := loaded_once_no_deadlock h.reachable
    exact ⟨hSafe.one_loader t u j.key (hKey ▸ ht) hu, hKey, hSafe.once t⟩
  cyclic i hi j hj hFile t hLoads _ :=
    entry_own h.reachable (h.key_eq hi hj hFile ▸ hLoads)

end Invariant

/-- **One file, one module**, in every run of imports that meet the condition. -/
theorem one_module {T O : Type} [DecidableEq T] (C : SharedModuleCache O) (s : Importers T C)
    (h : (importing T C).Reach Meets s) : OneModule s := by
  have hInv : Inv s := by
    apply Machine.Reach.invariant _ _ h
    · rintro _ rfl
      exact inv_initial
    · exact fun _ _ _ _ hs hMeets hStep => hs.step hMeets hStep
  exact hInv.oneModule

/-! ## Sample runs -/

/-- `/v/m.st` and `/w/m.st` -/
def twoFiles : Tree where
  kind place :=
    if place ∈ [[], [['v']], [['w']]] then some .directory
    else if place ∈ [[['m', '.', 's', 't'], ['v']], [['m', '.', 's', 't'], ['w']]] then some .file
    else none
  root := rfl
  parent name names h := by
    by_cases hDirectory : name :: names ∈ [[], [['v']], [['w']]]
    · simp only [List.mem_cons, List.cons.injEq, reduceCtorEq, List.not_mem_nil, or_false,
        false_or] at hDirectory
      rcases hDirectory with ⟨-, rfl⟩ | ⟨-, rfl⟩ <;> rfl
    · by_cases hFile : name :: names ∈
          [[['m', '.', 's', 't'], ['v']], [['m', '.', 's', 't'], ['w']]]
      · simp only [List.mem_cons, List.cons.injEq, List.not_mem_nil, or_false] at hFile
        rcases hFile with ⟨-, rfl⟩ | ⟨-, rfl⟩ <;> rfl
      · exact absurd (by rw [if_neg hDirectory, if_neg hFile]) h

/-- `m`, in `/w`. -/
def plainImport : Import where
  env := ⟨twoFiles, "/w".toList, by decide, none, [], []⟩
  logicalPath := "m".toList
  filePath := "/w/m.st".toList
  found := by decide

/-- `m.st`, in the root directory, along the relative entry `w`. -/
def pathImport : Import where
  env := ⟨twoFiles, "/".toList, by decide, some "lib:w".toList, [], []⟩
  logicalPath := "m.st".toList
  filePath := "w/m.st".toList
  found := by decide

/-- `m.st`, in `/w`. -/
def suffixImport : Import where
  env := ⟨twoFiles, "/w".toList, by decide, none, [], []⟩
  logicalPath := "m.st".toList
  filePath := "/w/m.st".toList
  found := by decide

/-- `./m`, in `/w`. -/
def dottedImport : Import where
  env := ⟨twoFiles, "/w".toList, by decide, none, [], []⟩
  logicalPath := "./m".toList
  filePath := "/w/./m.st".toList
  found := by decide

/-- `m`, in `/v`. -/
def movedImport : Import where
  env := ⟨twoFiles, "/v".toList, by decide, none, [], []⟩
  logicalPath := "m".toList
  filePath := "/v/m.st".toList
  found := by decide

/-- A table by logical path. -/
def table : SharedModuleCache Nat where
  Entries := Text → Option Nat
  empty := fun _ => none
  lookup entries path := entries path
  store entries path o := Function.update entries path (some o)
  lookup_empty _ := rfl
  lookup_store entries path o path' o' h := by
    rw [Function.update_apply] at h
    split at h
    · rename_i hPath
      exact .inl ⟨hPath, (Option.some.inj h).symm⟩
    · exact .inr h

/-- An import that runs the top level, which ends with the module object. -/
def loading (t : Nat) (i : Import) (o : Nat) : List (Act Nat Nat) :=
  [.importFrom t i, .provider (.enter t), .provider (.succeed t o), .provider (.notify t),
    .store t]

/-- A second thread imports the file by another name along another directory. -/
theorem one_module_path : plainImport.file = pathImport.file ∧
    ∃ s : Importers Nat table, (importing Nat table).Reach Meets s ∧
      s.answers = [(1, pathImport, 7), (0, plainImport, 7)] ∧ OneModule s := by
  have hReach : ∀ s, (importing Nat table).execOk (fun s a => decide (Meets s a))
    (.initial Nat table)
      (loading 0 plainImport 7 ++ [.importFrom 1 pathImport, .provider (.enter 1), .store 1]) =
        some s → (importing Nat table).Reach Meets s := fun s h =>
    Machine.reach_of_execOk _ (fun _ _ => of_decide_eq_true) (.init rfl) h
  exact ⟨by decide, _, hReach _ rfl, rfl, one_module table _ (hReach _ rfl)⟩

/-- The file is loaded twice when a name has a dot. -/
theorem not_oneModule_dotted : plainImport.file = dottedImport.file ∧
    ∃ s : Importers Nat table, (importing Nat table).Reachable s ∧ ¬ OneModule s := by
  have hReach : ∀ s, (importing Nat table).exec (.initial Nat table)
      (loading 0 plainImport 7 ++ loading 0 dottedImport 8) = some s →
        (importing Nat table).Reachable s := fun s h => Machine.reach_of_exec (.init rfl) h
  have hFile : plainImport.file = dottedImport.file := by decide
  refine ⟨hFile, _, hReach _ rfl, fun hOne => ?_⟩
  have hSame := hOne.oneObject 0 0 plainImport dottedImport 7 8
    (List.mem_cons_of_mem _ List.mem_cons_self) List.mem_cons_self hFile
  cases hSame

/-- `m` still stands for the file of the directory that it was imported in first. -/
theorem not_oneModule_moved : plainImport.file = suffixImport.file ∧
    ∃ s : Importers Nat table, (importing Nat table).Reachable s ∧ ¬ OneModule s := by
  have hReach : ∀ s, (importing Nat table).exec (.initial Nat table)
      (loading 0 movedImport 5 ++ .importFrom 0 plainImport :: loading 0 suffixImport 7) = some s →
        (importing Nat table).Reachable s := fun s h => Machine.reach_of_exec (.init rfl) h
  have hFile : plainImport.file = suffixImport.file := by decide
  refine ⟨hFile, _, hReach _ rfl, fun hOne => ?_⟩
  have hSame := hOne.oneObject 0 0 plainImport suffixImport 5 7
    (List.mem_cons_of_mem _ List.mem_cons_self) List.mem_cons_self hFile
  cases hSame

end ProtoST.Runtime.ModuleFiles

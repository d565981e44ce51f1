import Mathlib.Data.Finmap
import ProtoST.Lib.Follow
import ProtoST.Lib.Transition

/-!
# Importing modules

The model of `importModuleFile` (`runtime/STRuntime.cpp`) with any number of
threads.  Under `modulesMu` an import finds the module cached, or records itself in
`modulesLoading` and runs the module's top level, or follows the owners of the
loads (owner, module it waits for, that module's owner) and reports a cycle or
waits.  The top level runs with no lock held and may import further modules on the
same thread, so loads nest.  A load ends with the module object cached and its
entry removed, or, by whatever leaves the top level, with only the entry removed;
both then notify all waiters.

Each critical section is a step, as are the check of a woken waiter and
`notify_all`.  The components `succeeded` and `answered` record the loads that
succeeded and what imports answered; no step reads them.
-/

namespace ProtoST.Runtime.ModuleImport

open ProtoST.Lib

/-- Where the innermost import of a thread is, unless it runs a top level.
`notify` is between the last critical section and the return, with the module
object or without. -/
inductive Pc (K O : Type) where
  | idle
  | enter (key : K)
  | waiting (key : K)
  | asleep (key : K)
  | notify (key : K) (result : Option O)
  deriving DecidableEq, Repr

/-- The tables and the threads. -/
structure State (T K O : Type) where
  moduleCache : Finmap fun _ : K => O
  modulesLoading : Finmap fun _ : K => T
  modulesWaiting : Finmap fun _ : T => K
  pc : T → Pc K O
  /-- The modules whose top levels run on the thread, innermost first. -/
  loads : T → List K
  succeeded : List (K × O)
  answered : List (T × K × O)

def initial {T K O : Type} : State T K O where
  moduleCache := ∅
  modulesLoading := ∅
  modulesWaiting := ∅
  pc := fun _ => .idle
  loads := fun _ => []
  succeeded := []
  answered := []

/-- What the first critical section finds. -/
inductive Entry (O : Type) where
  | cached (o : O)
  | load
  | cyclic
  | wait
  deriving DecidableEq, Repr

/-- What can happen. -/
inductive Action (T K O : Type) where
  /-- The code on the thread, or a top level it runs, imports a module. -/
  | importModule (t : T) (key : K)
  /-- The first critical section. -/
  | enter (t : T)
  /-- A waiter holds the lock: it finds the load gone, or goes to sleep. -/
  | check (t : T)
  /-- The top level is through, with the module object. -/
  | succeed (t : T) (o : O)
  /-- Something leaves the top level. -/
  | fail (t : T)
  /-- `notify_all`, and the return to the importer. -/
  | notify (t : T)
  /-- A sleeper wakes without having been notified. -/
  | spurious (t : T)
  deriving DecidableEq, Repr

/-- A waiter that was notified. -/
def Pc.wake {K O : Type} : Pc K O → Pc K O
  | .asleep key => .waiting key
  | pc => pc

namespace State

variable {T K O : Type} [DecidableEq T] [DecidableEq K]

/-- The thread that loads what a thread waits for. -/
def owner (s : State T K O) (t : T) : Option T :=
  (s.modulesWaiting.lookup t).bind fun key => s.modulesLoading.lookup key

/-- The first critical section, up to what it writes. -/
def entry (s : State T K O) (t : T) (key : K) : Option (Entry O) :=
  match s.moduleCache.lookup key with
  | some o => some (.cached o)
  | none =>
      match s.modulesLoading.lookup key with
      | none => some .load
      | some u =>
          (Follow.walk s.owner t (s.modulesWaiting.keys.card + 1) u).map
            fun found => if found then .cyclic else .wait

abbrev goto (s : State T K O) (t : T) (pc : Pc K O) : State T K O :=
  { s with pc := Function.update s.pc t pc }

abbrev setLoads (s : State T K O) (t : T) (keys : List K) : State T K O :=
  { s with loads := Function.update s.loads t keys }

/-- An import answers a module object. -/
abbrev answer (s : State T K O) (t : T) (key : K) (o : O) : State T K O :=
  { s.goto t .idle with answered := s.answered ++ [(t, key, o)] }

/-- `notify_all` on the one condition variable. -/
abbrev wakeAll (s : State T K O) : State T K O :=
  { s with pc := fun t => (s.pc t).wake }

/-- What the first critical section writes. -/
def enter (s : State T K O) (t : T) (key : K) : Entry O → State T K O
  | .cached o => s.answer t key o
  | .load =>
      { (s.goto t .idle).setLoads t (key :: s.loads t) with
        modulesLoading := s.modulesLoading.insert key t }
  | .cyclic => s.goto t .idle
  | .wait =>
      { s.goto t (.waiting key) with
        modulesWaiting := s.modulesWaiting.insert t key }

/-- One action. -/
def step (s : State T K O) : Action T K O → Option (State T K O)
  | .importModule t key =>
      match s.pc t with
      | .idle => some (s.goto t (.enter key))
      | _ => none
  | .enter t =>
      match s.pc t with
      | .enter key => (s.entry t key).map (s.enter t key)
      | _ => none
  | .check t =>
      match s.pc t with
      | .waiting key =>
          some <|
            match s.modulesLoading.lookup key with
            | none =>
                { s.goto t (.enter key) with
                  modulesWaiting := s.modulesWaiting.erase t }
            | some _ => s.goto t (.asleep key)
      | _ => none
  | .succeed t o =>
      match s.pc t, s.loads t with
      | .idle, key :: rest =>
          some { (s.goto t (.notify key (some o))).setLoads t rest with
            -- `emplace` keeps what is there
            moduleCache :=
              match s.moduleCache.lookup key with
              | none => s.moduleCache.insert key o
              | some _ => s.moduleCache
            modulesLoading := s.modulesLoading.erase key
            succeeded := s.succeeded ++ [(key, o)] }
      | _, _ => none
  | .fail t =>
      match s.pc t, s.loads t with
      | .idle, key :: rest =>
          some { (s.goto t (.notify key none)).setLoads t rest with
            modulesLoading := s.modulesLoading.erase key }
      | _, _ => none
  | .notify t =>
      match s.pc t with
      | .notify key (some o) => some (s.wakeAll.answer t key o)
      | .notify _ none => some (s.wakeAll.goto t .idle)
      | _ => none
  | .spurious t =>
      match s.pc t with
      | .asleep key => some (s.goto t (.waiting key))
      | _ => none

end State

/-- The imports of any number of threads. -/
def machine {T K O : Type} [DecidableEq T] [DecidableEq K] :
    Machine (State T K O) (Action T K O) where
  init s := s = initial
  step := State.step

/-! ## The cases of a step -/

section Cases

variable {T K O : Type} [DecidableEq T] [DecidableEq K] {s s' : State T K O}

/-- `step` as a relation, one constructor for each way to take a step. -/
inductive Does (s : State T K O) : Action T K O → State T K O → Prop
  | importModule {t : T} {key : K} : s.pc t = .idle →
      Does s (.importModule t key) (s.goto t (.enter key))
  | cached {t : T} {key : K} {o : O} : s.pc t = .enter key →
      s.moduleCache.lookup key = some o →
      Does s (.enter t) (s.answer t key o)
  | load {t : T} {key : K} : s.pc t = .enter key →
      s.moduleCache.lookup key = none → s.modulesLoading.lookup key = none →
      Does s (.enter t)
        { (s.goto t .idle).setLoads t (key :: s.loads t) with
          modulesLoading := s.modulesLoading.insert key t }
  | cyclic {t u : T} {key : K} : s.pc t = .enter key →
      s.modulesLoading.lookup key = some u → Follow.Leads s.owner u t →
      Does s (.enter t) (s.goto t .idle)
  | wait {t u : T} {key : K} : s.pc t = .enter key →
      s.modulesLoading.lookup key = some u → ¬ Follow.Leads s.owner u t →
      Does s (.enter t)
        { s.goto t (.waiting key) with
          modulesWaiting := s.modulesWaiting.insert t key }
  | retry {t : T} {key : K} : s.pc t = .waiting key →
      s.modulesLoading.lookup key = none →
      Does s (.check t)
        { s.goto t (.enter key) with
          modulesWaiting := s.modulesWaiting.erase t }
  | sleep {t u : T} {key : K} : s.pc t = .waiting key →
      s.modulesLoading.lookup key = some u →
      Does s (.check t) (s.goto t (.asleep key))
  | succeed {t : T} {o : O} {key : K} {rest : List K} : s.pc t = .idle →
      s.loads t = key :: rest →
      Does s (.succeed t o)
        { (s.goto t (.notify key (some o))).setLoads t rest with
          moduleCache :=
            match s.moduleCache.lookup key with
            | none => s.moduleCache.insert key o
            | some _ => s.moduleCache
          modulesLoading := s.modulesLoading.erase key
          succeeded := s.succeeded ++ [(key, o)] }
  | fail {t : T} {key : K} {rest : List K} : s.pc t = .idle →
      s.loads t = key :: rest →
      Does s (.fail t)
        { (s.goto t (.notify key none)).setLoads t rest with
          modulesLoading := s.modulesLoading.erase key }
  | answer {t : T} {key : K} {o : O} : s.pc t = .notify key (some o) →
      Does s (.notify t) (s.wakeAll.answer t key o)
  | raise {t : T} {key : K} : s.pc t = .notify key none →
      Does s (.notify t) (s.wakeAll.goto t .idle)
  | spurious {t : T} {key : K} : s.pc t = .asleep key →
      Does s (.spurious t) (s.goto t (.waiting key))

/-- A cycle is reported when the owners lead back to the thread. -/
theorem entry_eq_cyclic {t : T} {key : K} (h : s.entry t key = some .cyclic) :
    ∃ u, s.modulesLoading.lookup key = some u ∧ Follow.Leads s.owner u t := by
  unfold State.entry at h
  split at h
  · simp at h
  · split at h
    · simp at h
    · rename_i u hu
      obtain ⟨found, hwalk, hfound⟩ := Option.map_eq_some_iff.mp h
      cases found with
      | true => exact ⟨u, hu, Follow.walk_eq_true hwalk⟩
      | false => simp at hfound

/-- The first critical section. -/
theorem does_enter {t : T} {key : K} {found : Entry O} (hpc : s.pc t = .enter key)
    (h : s.entry t key = some found) :
    Does s (.enter t) (s.enter t key found) := by
  unfold State.entry at h
  cases hcache : s.moduleCache.lookup key with
  | some o =>
      simp only [hcache, Option.some.injEq] at h
      subst h
      exact .cached hpc hcache
  | none =>
      cases hloading : s.modulesLoading.lookup key with
      | none =>
          simp only [hcache, hloading, Option.some.injEq] at h
          subst h
          exact .load hpc hcache hloading
      | some u =>
          simp only [hcache, hloading] at h
          obtain ⟨found, hwalk, rfl⟩ := Option.map_eq_some_iff.mp h
          cases found with
          | true => exact .cyclic hpc hloading (Follow.walk_eq_true hwalk)
          | false => exact .wait hpc hloading (Follow.walk_eq_false hwalk)

/-- **The cases of a step.** -/
theorem does_of_step {act : Action T K O} (h : s.step act = some s') :
    Does s act s' := by
  cases act with
  | importModule t key =>
      simp only [State.step] at h
      split at h
      · rename_i hpc
        obtain rfl := Option.some.inj h
        exact .importModule hpc
      · cases h
  | enter t =>
      simp only [State.step] at h
      split at h
      · rename_i key hpc
        obtain ⟨found, hfound, rfl⟩ := Option.map_eq_some_iff.mp h
        exact does_enter hpc hfound
      · cases h
  | check t =>
      simp only [State.step] at h
      split at h
      · rename_i key hpc
        obtain rfl := Option.some.inj h
        split
        · rename_i hnone
          exact .retry hpc hnone
        · rename_i u hsome
          exact .sleep hpc hsome
      · cases h
  | succeed t o =>
      simp only [State.step] at h
      split at h
      · rename_i key rest hpc hloads
        obtain rfl := Option.some.inj h
        exact .succeed hpc hloads
      · cases h
  | fail t =>
      simp only [State.step] at h
      split at h
      · rename_i key rest hpc hloads
        obtain rfl := Option.some.inj h
        exact .fail hpc hloads
      · cases h
  | notify t =>
      simp only [State.step] at h
      split at h
      · rename_i key o hpc
        obtain rfl := Option.some.inj h
        exact .answer hpc
      · rename_i key hpc
        obtain rfl := Option.some.inj h
        exact .raise hpc
      · cases h
  | spurious t =>
      simp only [State.step] at h
      split at h
      · rename_i key hpc
        obtain rfl := Option.some.inj h
        exact .spurious hpc
      · cases h

end Cases

end ProtoST.Runtime.ModuleImport

import ProtoST.Runtime.ModuleImportTables

/-!
# Importing modules: exactly once, and no deadlock

What the tables of `ModuleImportTables` say about the threads themselves, in terms
of the top levels they run and the loads they wait for.

## Main results

* `loaded_once_no_deadlock` — a module's top level runs on one thread at a time and
  never again once it succeeded, imports answer the one cached object, a failed
  load leaves no trace, and no threads wait for each other in a circle.
-/

namespace ProtoST.Runtime.ModuleImport

open ProtoST.Lib

variable {T K O : Type} [DecidableEq T] [DecidableEq K] {s s' : State T K O}

/-! ## The cache over a run -/

variable {key : K}

/-- A step keeps what is cached. -/
theorem cache_step {act : Action T K O} {o : O}
    (hdoes : Does s act s') (hcached : s.moduleCache.lookup key = some o) :
    s'.moduleCache.lookup key = some o := by
  cases hdoes with
  | succeed hpc hloads =>
      rename_i t o' key' rest
      dsimp only
      split
      · rename_i hnone
        rw [lookup_insert_ite]
        split
        · rename_i heq
          rw [heq, hnone] at hcached
          cases hcached
        · exact hcached
      · exact hcached
  | importModule | cached | load | cyclic | wait | retry | sleep | fail | answer
  | raise | spurious => exact hcached

/-- What is cached stays cached. -/
theorem cache_steps {o : O} (hs : machine.Reachable s)
    (hsteps : machine.Steps s s') (hcached : s.moduleCache.lookup key = some o) :
    machine.Reachable s' ∧ s'.moduleCache.lookup key = some o := by
  apply hsteps.preserves (P := fun s => s.moduleCache.lookup key = some o) _ hs hcached
  intro s act t _ hs hstep
  exact cache_step (does_of_step hstep) hs

/-! ## Who waits for whom -/

/-- The owners are the threads waited for. -/
theorem State.Tables.owner_iff (h : s.Tables) {t u : T} :
    Follow.Edge s.owner t u ↔ s.WaitsOn t u := by
  constructor
  · intro hedge
    obtain ⟨key, hkey, hu⟩ := Option.bind_eq_some_iff.mp hedge
    exact ⟨key, (h.waits t key).mp hkey, (h.owned u key).mpr hu⟩
  · rintro ⟨key, hkey, hu⟩
    exact Option.bind_eq_some_iff.mpr
      ⟨key, (h.waits t key).mpr hkey, (h.owned u key).mp hu⟩

/-- No threads wait for each other in a circle. -/
theorem State.Consistent.no_circle (h : s.Consistent) (t : T) :
    ¬ Relation.TransGen s.WaitsOn t t := by
  intro hcircle
  apply h.acyclic t
  exact Relation.TransGen.mono (fun _ _ => h.tables.owner_iff.mpr) _ _ hcircle

/-- The walk of the first critical section ends. -/
theorem State.Consistent.entry_ne_none (h : s.Consistent) (t : T) (key : K) :
    s.entry t key ≠ none := by
  unfold State.entry
  split
  · simp
  · split
    · simp
    · rename_i u _
      have hkeys : ∀ a b, s.owner a = some b → a ∈ s.modulesWaiting.keys := by
        intro a b hedge
        obtain ⟨k, hk, -⟩ := Option.bind_eq_some_iff.mp hedge
        exact Finmap.mem_keys.mpr (Finmap.mem_of_lookup_eq_some hk)
      have hwalk : Follow.walk s.owner t (s.modulesWaiting.keys.card + 1) u ≠ none :=
        Follow.walk_ne_none h.acyclic s.modulesWaiting.keys hkeys
      simpa using hwalk

/-- Waiting takes nothing away: only the thread itself waits for more. -/
theorem waitsOn_enter_wait {t a b : T} {key key' : K} (hpc : s.pc t = .enter key')
    (h : s.WaitsOn a b) : (s.enter t key .wait).WaitsOn a b := by
  obtain ⟨k, hk, hb⟩ := h
  have hne : a ≠ t := by
    rintro rfl
    rw [hpc] at hk
    exact hk
  refine ⟨k, ?_, hb⟩
  simpa [State.enter, Function.update_of_ne hne] using hk

/-- A reported cycle: had the thread waited, it would be in a circle. -/
theorem State.Consistent.cyclic_would_close (h : s.Consistent) {t : T}
    (hpc : s.pc t = .enter key) (hentry : s.entry t key = some .cyclic) :
    Relation.TransGen (s.enter t key .wait).WaitsOn t t := by
  obtain ⟨u, hu, hleads⟩ := entry_eq_cyclic hentry
  have hfirst : (s.enter t key .wait).WaitsOn t u := by
    refine ⟨key, ?_, (h.tables.owned u key).mpr hu⟩
    simp [State.enter, Pc.Waits]
  refine .head' hfirst ?_
  refine Relation.ReflTransGen.mono (fun a b hab => ?_) _ _ hleads
  exact waitsOn_enter_wait hpc (h.tables.owner_iff.mp hab)

/-! ## The guarantees -/

/-- What holds of the imports in a state. -/
structure State.Safe (s : State T K O) : Prop where
  /-- One thread at a time runs the top level of a module, and once. -/
  one_loader : ∀ t u key, key ∈ s.loads t → key ∈ s.loads u → t = u
  once : ∀ t, (s.loads t).Nodup
  /-- A module that was loaded is not loaded again. -/
  never_again : ∀ s' key o, machine.Steps s s' → (key, o) ∈ s.succeeded →
    ∀ t, key ∉ s'.loads t
  /-- Imports answer the object of the one load that succeeded, now and later. -/
  one_object : ∀ t key o, (t, key, o) ∈ s.answered →
    s.moduleCache.lookup key = some o ∧ (key, o) ∈ s.succeeded
  cache_final : ∀ s' key o, machine.Steps s s' →
    s.moduleCache.lookup key = some o → s'.moduleCache.lookup key = some o
  /-- A load that failed is not cached, and its key is free again. -/
  cached_succeeded : ∀ key o, s.moduleCache.lookup key = some o →
    (key, o) ∈ s.succeeded
  failed : ∀ s' t key rest, s.loads t = key :: rest → s.step (.fail t) = some s' →
    s'.moduleCache.lookup key = none ∧ ∀ u, key ∉ s'.loads u
  /-- An import of a module nobody has or loads runs its top level. -/
  runs : ∀ t key, s.pc t = .enter key → s.moduleCache.lookup key = none →
    (∀ u, key ∉ s.loads u) →
    ∃ s', s.step (.enter t) = some s' ∧ key ∈ s'.loads t
  /-- No circle of threads that wait for each other's loads, and nobody sleeps
  unless a load runs or its end is about to be announced. -/
  no_circle : ∀ t, ¬ Relation.TransGen s.WaitsOn t t
  awaited : ∀ t key, s.pc t = .asleep key →
    (∃ u, key ∈ s.loads u) ∨ ∃ u r, s.pc u = .notify key r
  /-- The first critical section comes to an end, and an error only where waiting
  would have closed a circle. -/
  decides : ∀ t key, s.entry t key ≠ none
  cyclic : ∀ t key, s.pc t = .enter key → s.entry t key = some .cyclic →
    Relation.TransGen (s.enter t key .wait).WaitsOn t t
  /-- The entries of the tables are those of the loaders and waiters there are. -/
  loading_iff : ∀ t key, s.modulesLoading.lookup key = some t ↔ key ∈ s.loads t
  waiting_iff : ∀ t key, s.modulesWaiting.lookup t = some key ↔ (s.pc t).Waits key

/-- The entry of a load that nobody runs is gone. -/
theorem State.Tables.loading_none (h : s.Tables)
    (hnone : ∀ u, key ∉ s.loads u) : s.modulesLoading.lookup key = none := by
  by_contra hsome
  obtain ⟨u, hu⟩ := Option.ne_none_iff_exists'.mp hsome
  exact hnone u ((h.owned u key).mpr hu)

/-- After success nobody runs the top level. -/
theorem State.Consistent.not_loading (h : s.Consistent) {o : O}
    (hcached : s.moduleCache.lookup key = some o) (t : T) : key ∉ s.loads t := by
  intro hmem
  have hnone := h.modules.loading key t ((h.tables.owned t key).mp hmem)
  rw [hnone] at hcached
  cases hcached

/-- What a failure leaves. -/
theorem State.Consistent.fail (h : s.Consistent) {t : T} {rest : List K}
    (hloads : s.loads t = key :: rest) (hstep : s.step (.fail t) = some s') :
    s'.moduleCache.lookup key = none ∧ ∀ u, key ∉ s'.loads u := by
  have h' := h.step hstep
  have hmine : s.modulesLoading.lookup key = some t :=
    (h.tables.owned t key).mp (by simp [hloads])
  cases does_of_step hstep with
  | fail hpc hloads' =>
      rename_i key' rest'
      obtain ⟨rfl, rfl⟩ := List.cons.inj (hloads.symm.trans hloads')
      refine ⟨h.modules.loading key t hmine, fun u hu => ?_⟩
      have hsome := (h'.tables.owned u key).mp hu
      simp at hsome

/-- A free module is loaded by whoever imports it. -/
theorem State.Consistent.load (h : s.Consistent) {t : T}
    (hpc : s.pc t = .enter key) (hcache : s.moduleCache.lookup key = none)
    (hfree : ∀ u, key ∉ s.loads u) :
    ∃ s', s.step (.enter t) = some s' ∧ key ∈ s'.loads t := by
  have hentry : s.entry t key = some .load := by
    simp [State.entry, hcache, h.tables.loading_none hfree]
  refine ⟨s.enter t key .load, ?_, ?_⟩
  · simp [State.step, hpc, hentry]
  · simp [State.enter]

/-- **Loaded exactly once, without deadlock.** -/
theorem loaded_once_no_deadlock (hs : machine.Reachable s) : s.Safe := by
  have h := consistent hs
  constructor
  case one_loader =>
    intro t u key ht hu
    have hmine := (h.tables.owned t key).mp ht
    rw [(h.tables.owned u key).mp hu] at hmine
    exact (Option.some.inj hmine).symm
  case once => exact h.tables.nodup
  case never_again =>
    intro s' key o hsteps hsucceeded
    obtain ⟨hs', hcached⟩ :=
      cache_steps hs hsteps ((h.modules.cached key o).mpr hsucceeded)
    exact (consistent hs').not_loading hcached
  case one_object =>
    intro t key o hanswered
    have hcached := h.modules.answered t key o hanswered
    exact ⟨hcached, (h.modules.cached key o).mp hcached⟩
  case cache_final =>
    intro s' key o hsteps hcached
    exact (cache_steps hs hsteps hcached).2
  case cached_succeeded => exact fun key o => (h.modules.cached key o).mp
  case failed => exact fun s' t key rest hloads hstep => h.fail hloads hstep
  case runs => exact fun t key hpc hcache hfree => h.load hpc hcache hfree
  case no_circle => exact h.no_circle
  case awaited =>
    intro t key hpc
    rcases h.awaited t key hpc with hl | hnotify
    · obtain ⟨u, hu⟩ := Option.ne_none_iff_exists'.mp hl
      exact .inl ⟨u, (h.tables.owned u key).mpr hu⟩
    · exact .inr hnotify
  case decides => exact h.entry_ne_none
  case cyclic => exact fun t key hpc hentry => h.cyclic_would_close hpc hentry
  case loading_iff => exact fun t key => (h.tables.owned t key).symm
  case waiting_iff => exact h.tables.waits

/-- Two threads import a module that imports another one: the second thread waits,
and the inner module fails once and is loaded again. -/
def nestedImport : List (Action Nat String Nat) :=
  [.importModule 0 "outer", .enter 0, .importModule 1 "outer", .enter 1,
    .importModule 0 "inner", .enter 0, .check 1, .fail 0, .notify 0,
    .importModule 0 "inner", .enter 0, .check 1, .succeed 0 5, .notify 0,
    .succeed 0 7, .notify 0, .check 1, .enter 1]

theorem loaded_once_no_deadlock_nested :
    ∃ s, machine.exec initial nestedImport = some s ∧
      s.answered = [(0, "inner", 5), (0, "outer", 7), (1, "outer", 7)] ∧ s.Safe := by
  have hreach : ∀ s, machine.exec initial nestedImport = some s →
      machine.Reachable s := fun s h => Machine.reach_of_exec (.init rfl) h
  exact ⟨_, rfl, rfl, loaded_once_no_deadlock (hreach _ rfl)⟩

end ProtoST.Runtime.ModuleImport

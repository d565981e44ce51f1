import ProtoST.Runtime.ModuleImport

/-!
# The tables of the module loader

`modulesLoading` names the thread whose top levels include a module,
`modulesWaiting` the module a thread waits for, and the cache the module object of
the one load that succeeded.  The owners that follow from the two tables form no
circle: a load makes a thread an owner that waits for nothing, and a wait is
entered only after the walk found that the owner does not lead back.

## Main results

* `consistent` — in every reachable state the two tables tell what the threads do,
  the cache holds what the loads and the imports answered, a sleeper has a load to
  wait for or a waker on the way, and no owners form a circle.
-/

namespace ProtoST.Runtime.ModuleImport

open ProtoST.Lib

/-! ## Lookups -/

section Lookup

universe u v

variable {α : Type u} {β : Type v} [DecidableEq α] {m : Finmap fun _ : α => β}
  {a x : α} {b : β}

@[grind =] theorem lookup_insert_ite :
    (m.insert a b).lookup x = if x = a then some b else m.lookup x := by
  split
  · rename_i heq
    rw [heq, Finmap.lookup_insert]
  · rename_i hne
    exact Finmap.lookup_insert_of_ne m hne

@[grind =] theorem lookup_erase_ite :
    (m.erase a).lookup x = if x = a then none else m.lookup x := by
  split
  · rename_i heq
    rw [heq, Finmap.lookup_erase]
  · rename_i hne
    exact Finmap.lookup_erase_ne hne

end Lookup

/-! ## What the threads do -/

section Threads

variable {T K O : Type}

/-- A thread waits for the load of a module. -/
@[grind] def Pc.Waits : Pc K O → K → Prop
  | .waiting key', key | .asleep key', key => key' = key
  | .idle, _ | .enter _, _ | .notify _ _, _ => False

@[simp, grind =] theorem Pc.waits_wake {pc : Pc K O} {key : K} :
    pc.wake.Waits key ↔ pc.Waits key := by
  cases pc <;> rfl

@[grind =] theorem Pc.wake_eq_notify {pc : Pc K O} {key : K} {r : Option O} :
    pc.wake = .notify key r ↔ pc = .notify key r := by
  cases pc <;> simp [Pc.wake]

@[grind =] theorem Pc.wake_ne_asleep {pc : Pc K O} {key : K} :
    pc.wake = .asleep key ↔ False := by
  cases pc <;> simp [Pc.wake]

/-- A thread waits for a module whose top level another one runs. -/
def State.WaitsOn (s : State T K O) (t u : T) : Prop :=
  ∃ key, (s.pc t).Waits key ∧ key ∈ s.loads u

end Threads

section Invariants

variable {T K O : Type} [DecidableEq T] [DecidableEq K] {s s' : State T K O}

/-- The two tables tell what the threads do. -/
structure State.Tables (s : State T K O) : Prop where
  owned : ∀ t key, key ∈ s.loads t ↔ s.modulesLoading.lookup key = some t
  nodup : ∀ t, (s.loads t).Nodup
  waits : ∀ t key, s.modulesWaiting.lookup t = some key ↔ (s.pc t).Waits key
  left : ∀ t key r, s.pc t = .notify key r → key ∉ s.loads t

theorem tables_initial : (initial : State T K O).Tables where
  owned := by simp [initial]
  nodup := by simp [initial]
  waits := by simp [initial, Pc.Waits]
  left := by simp [initial]

variable {act : Action T K O}

theorem State.Tables.step (h : s.Tables)
    (hdoes : Does s act s') : s'.Tables := by
  obtain ⟨howned, hnodup, hwaits, hleft⟩ := h
  cases hdoes with
  | importModule hpc => constructor <;> first | assumption | grind -linarith
  | cached hpc => constructor <;> first | assumption | grind -linarith
  | load hpc hcache hloading => constructor <;> first | assumption | grind -linarith
  | cyclic hpc => constructor <;> first | assumption | grind -linarith
  | wait hpc => constructor <;> first | assumption | grind -linarith
  | retry hpc => constructor <;> first | assumption | grind -linarith
  | sleep hpc => constructor <;> first | assumption | grind -linarith
  | succeed hpc hloads =>
      rename_i t o key rest
      have hrest := List.nodup_cons.mp (hloads ▸ hnodup t)
      have hmem := howned t
      simp only [hloads, List.mem_cons] at hmem
      constructor <;> first | assumption | grind -linarith
  | fail hpc hloads =>
      rename_i t key rest
      have hrest := List.nodup_cons.mp (hloads ▸ hnodup t)
      have hmem := howned t
      simp only [hloads, List.mem_cons] at hmem
      constructor <;> first | assumption | grind -linarith
  | answer hpc => constructor <;> first | assumption | grind -linarith
  | raise hpc => constructor <;> first | assumption | grind -linarith
  | spurious hpc => constructor <;> first | assumption | grind -linarith

/-- The cache holds what the loads and the imports answered. -/
structure State.Modules (s : State T K O) : Prop where
  loading : ∀ key u, s.modulesLoading.lookup key = some u →
    s.moduleCache.lookup key = none
  cached : ∀ key o, s.moduleCache.lookup key = some o ↔ (key, o) ∈ s.succeeded
  notified : ∀ t key o, s.pc t = .notify key (some o) →
    s.moduleCache.lookup key = some o
  answered : ∀ t key o, (t, key, o) ∈ s.answered →
    s.moduleCache.lookup key = some o

omit [DecidableEq T] in
theorem modules_initial : (initial : State T K O).Modules where
  loading := by simp [initial]
  cached := by simp [initial]
  notified := by simp [initial]
  answered := by simp [initial]

theorem State.Modules.step (htables : s.Tables)
    (h : s.Modules) (hdoes : Does s act s') : s'.Modules := by
  obtain ⟨hloading, hcached, hnotified, hanswered⟩ := h
  cases hdoes with
  | importModule hpc => constructor <;> first | assumption | grind -linarith
  | cached hpc => constructor <;> first | assumption | grind -linarith
  | load hpc hcache => constructor <;> first | assumption | grind -linarith
  | cyclic hpc => constructor <;> first | assumption | grind -linarith
  | wait hpc => constructor <;> first | assumption | grind -linarith
  | retry hpc => constructor <;> first | assumption | grind -linarith
  | sleep hpc => constructor <;> first | assumption | grind -linarith
  | succeed hpc hloads =>
      rename_i t o key rest
      have hmine : s.modulesLoading.lookup key = some t :=
        (htables.owned t key).mp (by simp [hloads])
      have hnone := hloading key t hmine
      simp only [hnone]
      constructor <;> first | assumption | grind -linarith
  | fail hpc hloads => constructor <;> first | assumption | grind -linarith
  | answer hpc => constructor <;> first | assumption | grind -linarith
  | raise hpc => constructor <;> first | assumption | grind -linarith
  | spurious hpc => constructor <;> first | assumption | grind -linarith

/-- A sleeper has a load to wait for, or its waker is on the way. -/
def State.Awaited (s : State T K O) : Prop :=
  ∀ t key, s.pc t = .asleep key →
    s.modulesLoading.lookup key ≠ none ∨ ∃ u r, s.pc u = .notify key r

omit [DecidableEq T] in
theorem awaited_initial : (initial : State T K O).Awaited := by
  simp [State.Awaited, initial]

/-- A step that ends no load and passes no `notify_all`. -/
theorem State.Awaited.keep {t : T} {pc : Pc K O} (h : s.Awaited)
    (ht : s.pc t = pc) (hnotify : ∀ key r, pc ≠ .notify key r)
    (hasleep : ∀ key, s'.pc t = .asleep key →
      s'.modulesLoading.lookup key ≠ none)
    (hpc : ∀ u, u ≠ t → s'.pc u = s.pc u)
    (hloading : ∀ key, s.modulesLoading.lookup key ≠ none →
      s'.modulesLoading.lookup key ≠ none) : s'.Awaited := by
  intro u key hu
  by_cases hut : u = t
  · subst hut
    exact .inl (hasleep key hu)
  · rw [hpc u hut] at hu
    rcases h u key hu with hl | ⟨w, r, hw⟩
    · exact .inl (hloading key hl)
    · refine .inr ⟨w, r, ?_⟩
      rw [hpc w]
      · exact hw
      · rintro rfl
        exact hnotify key r (ht ▸ hw)

omit [DecidableEq T] in
/-- The end of a load. -/
theorem State.Awaited.finish {t : T} {key : K} {r : Option O} (h : s.Awaited)
    (ht : s.pc t = .idle) (ht' : s'.pc t = .notify key r)
    (hpc : ∀ u, u ≠ t → s'.pc u = s.pc u)
    (hloading : ∀ k, k ≠ key →
      s'.modulesLoading.lookup k = s.modulesLoading.lookup k) : s'.Awaited := by
  intro u k hu
  by_cases hk : k = key
  · subst hk
    exact .inr ⟨t, r, ht'⟩
  · have hut : u ≠ t := by
      rintro rfl
      rw [ht'] at hu
      cases hu
    rw [hpc u hut] at hu
    rcases h u k hu with hl | ⟨w, r', hw⟩
    · exact .inl (by rwa [hloading k hk])
    · refine .inr ⟨w, r', ?_⟩
      rw [hpc w]
      · exact hw
      · rintro rfl
        rw [ht] at hw
        cases hw

/-- `notify_all` leaves nobody asleep. -/
theorem State.Awaited.wakeAll {t : T} (ht : ∀ key, s'.pc t ≠ .asleep key)
    (hpc : ∀ u, u ≠ t → s'.pc u = (s.pc u).wake) : s'.Awaited := by
  intro u key hu
  by_cases hut : u = t
  · subst hut
    exact absurd hu (ht key)
  · rw [hpc u hut] at hu
    exact absurd hu (by simp [Pc.wake_ne_asleep])

theorem State.Awaited.step (h : s.Awaited)
    (hdoes : Does s act s') : s'.Awaited := by
  cases hdoes with
  | importModule hpc => apply h.keep hpc <;> grind -linarith
  | cached hpc => apply h.keep hpc <;> grind -linarith
  | load hpc => apply h.keep hpc <;> grind -linarith
  | cyclic hpc => apply h.keep hpc <;> grind -linarith
  | wait hpc => apply h.keep hpc <;> grind -linarith
  | retry hpc => apply h.keep hpc <;> grind -linarith
  | sleep hpc => apply h.keep hpc <;> grind -linarith
  | succeed hpc => apply h.finish hpc (Function.update_self ..) <;> grind -linarith
  | fail hpc => apply h.finish hpc (Function.update_self ..) <;> grind -linarith
  | answer hpc =>
      rename_i t key o
      apply State.Awaited.wakeAll (s := s) (t := t) <;> grind -linarith
  | raise hpc =>
      rename_i t key
      apply State.Awaited.wakeAll (s := s) (t := t) <;> grind -linarith
  | spurious hpc => apply h.keep hpc <;> grind -linarith

/-! ## No circle -/

/-- A step that adds no owner. -/
theorem acyclic_of_sub (h : Follow.Acyclic s.owner)
    (hwaiting : ∀ t key, s'.modulesWaiting.lookup t = some key →
      s.modulesWaiting.lookup t = some key)
    (hloading : ∀ key u, s'.modulesLoading.lookup key = some u →
      s.modulesLoading.lookup key = some u) : Follow.Acyclic s'.owner := by
  apply h.mono
  intro t u hedge
  obtain ⟨key, hkey, hu⟩ := Option.bind_eq_some_iff.mp hedge
  exact Option.bind_eq_some_iff.mpr ⟨key, hwaiting t key hkey, hloading key u hu⟩

/-- A load: the new owner waits for nothing. -/
theorem acyclic_load {t : T} {key : K} (h : Follow.Acyclic s.owner)
    (ht : s.modulesWaiting.lookup t = none)
    (hwaiting : s'.modulesWaiting = s.modulesWaiting)
    (hloading : s'.modulesLoading = s.modulesLoading.insert key t) :
    Follow.Acyclic s'.owner := by
  apply h.sink (b := t)
  · simp [State.owner, hwaiting, ht]
  · intro x y hedge
    simp only [State.owner, hwaiting, hloading] at hedge ⊢
    obtain ⟨k, hk, hy⟩ := Option.bind_eq_some_iff.mp hedge
    rw [lookup_insert_ite] at hy
    split at hy
    · exact .inr (Option.some.inj hy).symm
    · exact .inl (Option.bind_eq_some_iff.mpr ⟨k, hk, hy⟩)

/-- A wait: the walk found that the owner does not lead back. -/
theorem acyclic_wait {t u : T} {key : K} (h : Follow.Acyclic s.owner)
    (hu : s.modulesLoading.lookup key = some u)
    (hback : ¬ Follow.Leads s.owner u t)
    (hwaiting : s'.modulesWaiting = s.modulesWaiting.insert t key)
    (hloading : s'.modulesLoading = s.modulesLoading) :
    Follow.Acyclic s'.owner := by
  apply h.link (a := t) (b := u) _ hback
  intro x y hedge
  simp only [State.owner, hwaiting, hloading] at hedge ⊢
  obtain ⟨k, hk, hy⟩ := Option.bind_eq_some_iff.mp hedge
  rw [lookup_insert_ite] at hk
  split at hk
  · rename_i hx
    obtain rfl := Option.some.inj hk
    rw [hu] at hy
    exact .inr ⟨hx, (Option.some.inj hy).symm⟩
  · exact .inl (Option.bind_eq_some_iff.mpr ⟨k, hk, hy⟩)

theorem acyclic_initial : Follow.Acyclic (initial : State T K O).owner := by
  intro t ht
  obtain ⟨u, hedge, -⟩ := Relation.TransGen.head'_iff.mp ht
  simp [Follow.Edge, State.owner, initial] at hedge

theorem acyclic_step (htables : s.Tables)
    (h : Follow.Acyclic s.owner) (hdoes : Does s act s') :
    Follow.Acyclic s'.owner := by
  cases hdoes with
  | load hpc =>
      rename_i t key _ _
      have hnone : s.modulesWaiting.lookup t = none := by
        by_contra hsome
        obtain ⟨k, hk⟩ := Option.ne_none_iff_exists'.mp hsome
        have hwaits := (htables.waits t k).mp hk
        rw [hpc] at hwaits
        exact hwaits
      exact acyclic_load h hnone rfl rfl
  | wait hpc hu hback => exact acyclic_wait h hu hback rfl rfl
  | importModule | cached | cyclic | retry | sleep | succeed | fail | answer
  | raise | spurious => apply acyclic_of_sub h <;> grind -linarith

/-! ## Every reachable state -/

/-- What the two tables, the cache and the owners are like in every state. -/
structure State.Consistent (s : State T K O) : Prop where
  tables : s.Tables
  modules : s.Modules
  awaited : s.Awaited
  acyclic : Follow.Acyclic s.owner

theorem State.Consistent.step (h : s.Consistent)
    (hstep : s.step act = some s') : s'.Consistent where
  tables := h.tables.step (does_of_step hstep)
  modules := h.modules.step h.tables (does_of_step hstep)
  awaited := h.awaited.step (does_of_step hstep)
  acyclic := acyclic_step h.tables h.acyclic (does_of_step hstep)

/-- **The tables in every reachable state.** -/
theorem consistent (h : machine.Reachable s) : s.Consistent := by
  apply h.invariant (P := State.Consistent)
  · rintro s rfl
    exact ⟨tables_initial, modules_initial, awaited_initial, acyclic_initial⟩
  · intro s act t _ hs _ hstep
    exact hs.step hstep

end Invariants

end ProtoST.Runtime.ModuleImport

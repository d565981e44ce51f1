import Mathlib.Algebra.Group.Nat.Defs
import Mathlib.Data.List.Basic
import Mathlib.Tactic.Common
import ProtoST.Lib.Census
import ProtoST.Lib.Transition

/-!
# Workers that block in I/O

`enterBlockingIO`, `leaveBlockingIO` and `spawnWorker` of `runtime/STRuntime.cpp`, called
by any number of workers at once.  Every access to a shared variable is one step; what is
done under `workersMutex` is one step too.  A thread that is no worker of the runtime
changes nothing in `enterBlockingIO`, and is left out.  Of the end of the runtime only
the flag `shutdown` is here: the destructor unregisters the workers when all of them have
returned.

## Main results

* `pool_keeps_size` — in every run in which no call declines on a count that misses calls
  which have decided before it, and no two calls are after the last slot, the workers that
  are not in I/O are at least `baseWorkers`, and the workers at most 256.
* `pool_shrinks` — two calls at once leave the pool one worker short, and at 255 workers
  they make it larger than 256.
-/

namespace ProtoST.Runtime.BlockingIO

open ProtoST.Lib

/-- Where a worker is. -/
inductive Call where
  /-- In no call, and not in blocking I/O. -/
  | outside
  /-- `enterBlockingIO`, with the count that its `fetch_add` answered. -/
  | entered (blocked : Nat)
  /-- About to call `spawnWorker`. -/
  | choosing
  /-- `spawnWorker`, with its slot reserved. -/
  | creating
  /-- `newThread` has answered a thread, or none. -/
  | created (started : Bool)
  /-- `enterBlockingIO` has returned. -/
  | inside
  deriving DecidableEq, Repr

structure Pool where
  baseWorkers : Nat
  /-- `workers.size()`. -/
  registered : Nat
  spawning : Nat
  blockedInIO : Nat
  shutdown : Bool
  /-- Whether a `newThread` has answered none. -/
  failed : Bool
  /-- The workers' threads; one runs before it is registered. -/
  calls : List Call
  deriving DecidableEq, Repr

inductive Action where
  | fetchAdd
  | readTotal
  | reserve
  | newThread (started : Bool)
  | register
  | leaveBlockingIO
  /-- `~STRuntime` sets the flag. -/
  | shutdown
  deriving DecidableEq, Repr

/-- `kMaxWorkers`. -/
def kMaxWorkers : Nat := 256

namespace Pool

def total (s : Pool) : Nat := s.registered + s.spawning

/-- The condition for `spawnWorker`; the difference is one of `size_t`. -/
def wants (s : Pool) (blocked : Nat) : Bool :=
  s.total < kMaxWorkers ∧ (s.total + 2 ^ 64 - blocked) % 2 ^ 64 < s.baseWorkers

def setCall (s : Pool) (t : Nat) (c : Call) : Pool := { s with calls := s.calls.set t c }

/-- One step of the worker `t`. -/
def step (s : Pool) (a : Nat × Action) : Option Pool :=
  let t := a.1
  match a.2, s.calls[t]? with
  | .fetchAdd, some .outside =>
      some ({ s with blockedInIO := s.blockedInIO + 1 }.setCall t (.entered (s.blockedInIO + 1)))
  | .readTotal, some (.entered blocked) =>
      some (s.setCall t (if s.wants blocked then .choosing else .inside))
  | .reserve, some .choosing =>
      if s.shutdown then some (s.setCall t .inside)
      else some ({ s with spawning := s.spawning + 1 }.setCall t .creating)
  | .newThread true, some .creating =>
      some ({ s with calls := s.calls ++ [Call.outside] }.setCall t (.created true))
  | .newThread false, some .creating => some (s.setCall t (.created false))
  | .register, some (.created true) =>
      some ({ s with
        registered := s.registered + 1, spawning := s.spawning - 1 }.setCall t .inside)
  | .register, some (.created false) =>
      some ({ s with spawning := s.spawning - 1, failed := true }.setCall t .inside)
  | Action.leaveBlockingIO, some .inside =>
      some ({ s with blockedInIO := s.blockedInIO - 1 }.setCall t .outside)
  | .shutdown, _ => some { s with shutdown := true }
  | _, _ => none

end Pool

/-- The constructor has called `spawnWorker` for each of the `baseWorkers`, of which there
are at most 8. -/
def machine : Machine Pool (Nat × Action) where
  init s := 1 ≤ s.baseWorkers ∧ s.baseWorkers ≤ 8 ∧ s.registered ≤ s.baseWorkers ∧
    (s.failed = false → s.registered = s.baseWorkers) ∧ s.spawning = 0 ∧ s.blockedInIO = 0 ∧
    s.shutdown = false ∧ s.calls = List.replicate s.registered Call.outside
  step := Pool.step

/-! ## The calls in progress -/

/-- A call that has not yet reserved a slot or declined. -/
def Call.undecided : Call → Bool
  | .entered _ | .choosing => true
  | _ => false

/-- A call that has decided to start a worker and has reserved no slot. -/
def Call.chooses : Call → Bool
  | .choosing => true
  | _ => false

/-- A `spawnWorker` with a slot reserved. -/
def Call.reserved : Call → Bool
  | .creating | .created _ => true
  | _ => false

/-- A `spawnWorker` whose thread runs and is not registered. -/
def Call.started : Call → Bool
  | .created started => started
  | _ => false

/-- `enterBlockingIO` or `spawnWorker` is in progress. -/
def Call.inProgress : Call → Bool
  | .entered _ | .choosing | .creating | .created _ => true
  | _ => false

/-- Counted in `blockedInIO`. -/
def Call.blocked : Call → Bool
  | .outside => false
  | _ => true

/-- The count a call has until it decides. -/
def Call.ownCount : Call → Nat
  | .entered blocked => blocked
  | _ => 0

namespace Pool

def undecided (s : Pool) : Nat := s.calls.countP Call.undecided

/-- A call with the count `blocked` declines where the count of the moment asks for a
worker, and not every call that its count misses has still to decide. -/
def overtaken (s : Pool) (blocked : Nat) : Bool :=
  !s.wants blocked && s.wants s.blockedInIO && s.blockedInIO ≥ blocked + s.undecided

/-- One slot below `kMaxWorkers` is left, and two calls are about to reserve one. -/
def contended (s : Pool) : Bool :=
  s.total + 1 = kMaxWorkers && 1 < s.calls.countP Call.chooses

/-- **The condition** on a step. -/
def timely (s : Pool) (a : Nat × Action) : Bool :=
  match a.2, s.calls[a.1]? with
  | .readTotal, some (.entered blocked) => s.failed || s.shutdown || !s.overtaken blocked
  | .reserve, some .choosing => s.shutdown || !s.contended
  | _, _ => true

end Pool

def Timely (s : Pool) (a : Nat × Action) : Prop := s.timely a = true

/-! ## The cases of a step -/

/-- `step` as a relation, one constructor for each way to take a step. -/
inductive Does (s : Pool) (t : Nat) : Action → Pool → Prop
  | fetchAdd : s.calls[t]? = some .outside →
      Does s t .fetchAdd ({ s with blockedInIO := s.blockedInIO + 1 }.setCall t
        (.entered (s.blockedInIO + 1)))
  | chooses {blocked : Nat} : s.calls[t]? = some (.entered blocked) →
      s.wants blocked = true → Does s t .readTotal (s.setCall t .choosing)
  | declines {blocked : Nat} : s.calls[t]? = some (.entered blocked) →
      s.wants blocked = false → Does s t .readTotal (s.setCall t .inside)
  | refused : s.calls[t]? = some .choosing → s.shutdown = true →
      Does s t .reserve (s.setCall t .inside)
  | reserve : s.calls[t]? = some .choosing → s.shutdown = false →
      Does s t .reserve ({ s with spawning := s.spawning + 1 }.setCall t .creating)
  | started : s.calls[t]? = some .creating →
      Does s t (.newThread true)
        ({ s with calls := s.calls ++ [Call.outside] }.setCall t (.created true))
  | notStarted : s.calls[t]? = some .creating →
      Does s t (.newThread false) (s.setCall t (.created false))
  | register : s.calls[t]? = some (.created true) →
      Does s t .register ({ s with
        registered := s.registered + 1, spawning := s.spawning - 1 }.setCall t .inside)
  | giveUp : s.calls[t]? = some (.created false) →
      Does s t .register
        ({ s with spawning := s.spawning - 1, failed := true }.setCall t .inside)
  | leave : s.calls[t]? = some .inside →
      Does s t Action.leaveBlockingIO
        ({ s with blockedInIO := s.blockedInIO - 1 }.setCall t .outside)
  | shutdown : Does s t .shutdown { s with shutdown := true }

/-- **The cases of a step.** -/
theorem does_of_step {s s' : Pool} {t : Nat} {a : Action} (h : s.step (t, a) = some s') :
    Does s t a s' := by
  unfold Pool.step at h
  dsimp only at h
  split at h
  · rename_i hc
    cases h
    exact .fetchAdd hc
  · rename_i blocked hc
    cases h
    cases hwants : s.wants blocked with
    | true => exact .chooses hc hwants
    | false => exact .declines hc hwants
  · rename_i hc
    split at h
    · rename_i hdown
      cases h
      exact .refused hc hdown
    · rename_i hup
      cases h
      exact .reserve hc (by simpa using hup)
  · rename_i hc
    cases h
    exact .started hc
  · rename_i hc
    cases h
    exact .notStarted hc
  · rename_i hc
    cases h
    exact .register hc
  · rename_i hc
    cases h
    exact .giveUp hc
  · rename_i hc
    cases h
    exact .leave hc
  · cases h
    exact .shutdown
  · cases h

/-! ## What the counters count -/

/-- The counters count the calls, and no call has a count above the number of threads. -/
structure Counted (s : Pool) : Prop where
  blocked_eq : s.blockedInIO = s.calls.countP Call.blocked
  spawning_eq : s.spawning = s.calls.countP Call.reserved
  threads_eq : s.calls.length = s.registered + s.calls.countP Call.started
  own_le : ∀ c ∈ s.calls, c.ownCount ≤ s.calls.length

section Steps

variable {s s' : Pool} {t : Nat} {a : Action} {c d : Call}

/-- Every thread is registered or has a slot. -/
theorem Counted.length_le (h : Counted s) : s.calls.length ≤ s.total := by
  have hle : s.calls.countP Call.started ≤ s.calls.countP Call.reserved :=
    List.countP_mono_left fun c _ hc => by cases c <;> first | rfl | cases hc
  have hthreads := h.threads_eq
  have hspawning := h.spawning_eq
  unfold Pool.total
  omega

theorem Counted.blocked_le (h : Counted s) : s.blockedInIO ≤ s.total := by
  have hcount := List.countP_le_length (p := Call.blocked) (l := s.calls)
  have hlength := h.length_le
  have hblocked := h.blocked_eq
  omega

/-- The counters after a step of a worker, changed before its call. -/
theorem Counted.setCall (hc : s.calls[t]? = some c)
    (hblocked : s.blockedInIO + c.blocked.toNat =
      s.calls.countP Call.blocked + d.blocked.toNat)
    (hspawning : s.spawning + c.reserved.toNat =
      s.calls.countP Call.reserved + d.reserved.toNat)
    (hthreads : s.calls.length + c.started.toNat =
      s.registered + s.calls.countP Call.started + d.started.toNat)
    (hown : ∀ c ∈ s.calls, c.ownCount ≤ s.calls.length)
    (hnew : d.ownCount ≤ s.calls.length) :
    Counted (s.setCall t d) where
  blocked_eq := by
    have hset := countP_set_add (b := d) Call.blocked hc
    show s.blockedInIO = (s.calls.set t d).countP Call.blocked
    omega
  spawning_eq := by
    have hset := countP_set_add (b := d) Call.reserved hc
    show s.spawning = (s.calls.set t d).countP Call.reserved
    omega
  threads_eq := by
    have hset := countP_set_add (b := d) Call.started hc
    show (s.calls.set t d).length = s.registered + (s.calls.set t d).countP Call.started
    rw [List.length_set]
    omega
  own_le c' hmem := by
    show c'.ownCount ≤ (s.calls.set t d).length
    rw [List.length_set]
    rcases mem_set_cases hmem with rfl | hmem
    · exact hnew
    · exact hown c' hmem

/-- A thread that has just started counts nowhere. -/
theorem countP_start {p : Call → Bool} (hp : p .outside = false) (calls : List Call) :
    (calls ++ [Call.outside]).countP p = calls.countP p := by
  rw [List.countP_append, List.countP_singleton, hp]
  rfl

/-- Every step keeps the counts. -/
theorem Counted.step (h : Counted s) (hdoes : Does s t a s') : Counted s' := by
  have hblocked := h.blocked_eq
  have hspawning := h.spawning_eq
  have hthreads := h.threads_eq
  cases hdoes with
  | fetchAdd hc =>
      refine .setCall (s := { s with blockedInIO := _ }) hc (congrArg (· + 1) hblocked)
        hspawning hthreads h.own_le ?_
      -- the call itself was not counted before
      have hset := countP_set_add (b := Call.inside) Call.blocked hc
      have hle := List.countP_le_length (p := Call.blocked) (l := s.calls.set t .inside)
      rw [List.length_set] at hle
      have hset' : (s.calls.set t .inside).countP Call.blocked + 0 =
          s.calls.countP Call.blocked + 1 := hset
      show s.blockedInIO + 1 ≤ s.calls.length
      omega
  | chooses hc _ | declines hc _ =>
      exact .setCall hc (congrArg (· + 1) hblocked) hspawning hthreads h.own_le (Nat.zero_le _)
  | refused hc _ =>
      exact .setCall hc (congrArg (· + 1) hblocked) hspawning hthreads h.own_le (Nat.zero_le _)
  | reserve hc _ =>
      exact .setCall (s := { s with spawning := _ }) hc (congrArg (· + 1) hblocked)
        (congrArg (· + 1) hspawning) hthreads h.own_le (Nat.zero_le _)
  | started hc =>
      obtain ⟨ht, -⟩ := List.getElem?_eq_some_iff.mp hc
      have hlength : (s.calls ++ [Call.outside]).length = s.calls.length + 1 := by simp
      refine .setCall (s := { s with calls := _ }) (c := .creating) ?_ ?_ ?_ ?_ ?_
        (Nat.zero_le _)
      · show (s.calls ++ [Call.outside])[t]? = _
        rw [List.getElem?_append_left ht]
        exact hc
      · show _ = (s.calls ++ [Call.outside]).countP Call.blocked + 1
        rw [countP_start rfl]
        exact congrArg (· + 1) hblocked
      · show _ = (s.calls ++ [Call.outside]).countP Call.reserved + 1
        rw [countP_start rfl]
        exact congrArg (· + 1) hspawning
      · show (s.calls ++ [Call.outside]).length + 0 =
          s.registered + (s.calls ++ [Call.outside]).countP Call.started + 1
        rw [countP_start rfl, hlength, hthreads]
      · intro c hmem
        show c.ownCount ≤ (s.calls ++ [Call.outside]).length
        rcases List.mem_append.mp hmem with hmem | hmem
        · have hle := h.own_le c hmem
          omega
        · rw [List.mem_singleton.mp hmem]
          exact Nat.zero_le _
  | notStarted hc =>
      exact .setCall hc (congrArg (· + 1) hblocked) (congrArg (· + 1) hspawning) hthreads
        h.own_le (Nat.zero_le _)
  | register hc =>
      have hpos := countP_pos_of_getElem? (p := Call.reserved) hc rfl
      refine .setCall (s := { s with registered := _, spawning := _ }) hc
        (congrArg (· + 1) hblocked) ?_ ?_ h.own_le (Nat.zero_le _)
      · show s.spawning - 1 + 1 = s.calls.countP Call.reserved + 0
        omega
      · show s.calls.length + 1 = s.registered + 1 + s.calls.countP Call.started + 0
        omega
  | giveUp hc =>
      have hpos := countP_pos_of_getElem? (p := Call.reserved) hc rfl
      refine .setCall (s := { s with spawning := _, failed := true }) hc
        (congrArg (· + 1) hblocked) ?_ hthreads h.own_le (Nat.zero_le _)
      show s.spawning - 1 + 1 = s.calls.countP Call.reserved + 0
      omega
  | leave hc =>
      have hpos := countP_pos_of_getElem? (p := Call.blocked) hc rfl
      refine .setCall (s := { s with blockedInIO := _ }) hc ?_ hspawning hthreads
        h.own_le (Nat.zero_le _)
      show s.blockedInIO - 1 + 1 = s.calls.countP Call.blocked + 0
      omega
  | shutdown => exact ⟨hblocked, hspawning, hthreads, h.own_le⟩

/-- The `size_t` difference of a call that declines does not wrap. -/
theorem Counted.of_not_wants {blocked : Nat} (hle : blocked ≤ s.total)
    (hwants : s.wants blocked = false) :
    kMaxWorkers ≤ s.total ∨ s.baseWorkers + blocked ≤ s.total := by
  unfold Pool.wants at hwants
  by_contra hnot
  rw [not_or] at hnot
  have hmax : s.total < 256 := Nat.lt_of_not_le hnot.1
  have hdiff : (s.total + 2 ^ 64 - blocked) % 2 ^ 64 = s.total - blocked := by omega
  rw [hdiff] at hwants
  have hshort : s.total - blocked < s.baseWorkers := by omega
  exact absurd ⟨hmax, hshort⟩ (of_decide_eq_false hwants)

/-! ## The size of the pool, with calls in progress -/

/-- There are at most `kMaxWorkers` workers, fewer as long as a call has decided to start
one; and the calls that have still to decide cover what `baseWorkers` asks for. -/
structure Sized (s : Pool) : Prop where
  total_le : s.total ≤ kMaxWorkers
  last : 0 < s.calls.countP Call.chooses → s.total < kMaxWorkers
  covered : s.failed = false → s.shutdown = false →
    kMaxWorkers ≤ s.total ∨ s.baseWorkers + s.blockedInIO ≤ s.total + s.undecided

theorem Sized.setCall (hc : s.calls[t]? = some c) (htotal : s.total ≤ kMaxWorkers)
    (hlast : c.chooses.toNat < s.calls.countP Call.chooses + d.chooses.toNat →
      s.total < kMaxWorkers)
    (hcovered : s.failed = false → s.shutdown = false → kMaxWorkers ≤ s.total ∨
      s.baseWorkers + s.blockedInIO + c.undecided.toNat ≤
        s.total + s.undecided + d.undecided.toNat) :
    Sized (s.setCall t d) where
  total_le := htotal
  last hpos := by
    have hset := countP_set_add (b := d) Call.chooses hc
    have hpos' : 0 < (s.calls.set t d).countP Call.chooses := hpos
    exact hlast (by omega)
  covered hfailed hshutdown := by
    have hset := countP_set_add (b := d) Call.undecided hc
    have hstill := hcovered hfailed hshutdown
    show kMaxWorkers ≤ s.total ∨ s.baseWorkers + s.blockedInIO ≤ s.total +
      (s.calls.set t d).countP Call.undecided
    unfold Pool.undecided at hstill
    omega

/-- A call declines: what its count misses has still to decide. -/
theorem Sized.declines {blocked : Nat} (h : Sized s) (hcounted : Counted s)
    (hc : s.calls[t]? = some (.entered blocked)) (hwants : s.wants blocked = false)
    (hok : Timely s (t, .readTotal)) : Sized (s.setCall t .inside) := by
  have hlast := h.last
  refine .setCall hc h.total_le hlast fun hfailed hshutdown => ?_
  show _ ∨ s.baseWorkers + s.blockedInIO + 1 ≤ s.total + s.undecided + 0
  have hself : 0 < s.undecided := countP_pos_of_getElem? hc rfl
  have hentered : blocked ≤ s.total :=
    Nat.le_trans (hcounted.own_le _ (List.mem_of_getElem? hc)) hcounted.length_le
  cases hnow : s.wants s.blockedInIO with
  | false =>
      have hbig := Counted.of_not_wants hcounted.blocked_le hnow
      omega
  | true =>
      have hmissed : s.blockedInIO < blocked + s.undecided := by
        unfold Timely Pool.timely at hok
        rw [hc] at hok
        simpa [Pool.overtaken, hfailed, hshutdown, hwants, hnow] using hok
      have hbig := Counted.of_not_wants hentered hwants
      omega

/-- A slot is reserved, the last one by the only call that is about to. -/
theorem Sized.reserve (h : Sized s) (hc : s.calls[t]? = some .choosing)
    (hup : s.shutdown = false) (hok : Timely s (t, .reserve)) :
    Sized ({ s with spawning := s.spawning + 1 }.setCall t .creating) := by
  have hpos := countP_pos_of_getElem? (p := Call.chooses) hc rfl
  have hless : s.total < kMaxWorkers := h.last hpos
  have htotal : Pool.total { s with spawning := s.spawning + 1 } = s.total + 1 := rfl
  have hfree : s.total + 1 = kMaxWorkers → s.calls.countP Call.chooses ≤ 1 := by
    unfold Timely Pool.timely at hok
    rw [hc] at hok
    simpa [Pool.contended, hup, imp_iff_not_or] using hok
  refine .setCall (s := { s with spawning := _ }) hc ?_ ?_ fun hfailed hshutdown => ?_
  · rw [htotal]
    omega
  · rw [htotal]
    show 1 < s.calls.countP Call.chooses + 0 → _
    omega
  · have hstill := h.covered hfailed hshutdown
    rw [htotal]
    show _ ∨ s.baseWorkers + s.blockedInIO + 1 ≤ s.total + 1 + s.undecided + 0
    omega

/-- **A timely step keeps the size.** -/
theorem Sized.step (h : Sized s) (hcounted : Counted s) (hok : Timely s (t, a))
    (hdoes : Does s t a s') : Sized s' := by
  have hlast := h.last
  have hcovered := h.covered
  cases hdoes with
  | fetchAdd hc =>
      -- one more in I/O, and one more to decide
      refine .setCall (s := { s with blockedInIO := _ }) hc h.total_le hlast
        fun hfailed hshutdown => ?_
      have hstill := hcovered hfailed hshutdown
      show _ ≤ s.total ∨ s.baseWorkers + (s.blockedInIO + 1) + 0 ≤ s.total + s.undecided + 1
      omega
  | chooses hc hwants =>
      have hless : s.total < kMaxWorkers := by
        unfold Pool.wants at hwants
        exact (of_decide_eq_true hwants).1
      refine .setCall hc h.total_le (fun _ => hless) fun hfailed hshutdown => ?_
      have hstill := hcovered hfailed hshutdown
      show _ ∨ s.baseWorkers + s.blockedInIO + 1 ≤ s.total + s.undecided + 1
      omega
  | declines hc hwants => exact h.declines hcounted hc hwants hok
  | refused hc hdown =>
      refine .setCall hc h.total_le (fun _ => hlast ?_) fun _ hshutdown => ?_
      · exact countP_pos_of_getElem? hc rfl
      · rw [hdown] at hshutdown
        cases hshutdown
  | reserve hc hup => exact h.reserve hc hup hok
  | started hc =>
      obtain ⟨ht, -⟩ := List.getElem?_eq_some_iff.mp hc
      refine .setCall (s := { s with calls := _ }) (c := .creating) ?_ h.total_le ?_
        fun hfailed hshutdown => ?_
      · show (s.calls ++ [Call.outside])[t]? = _
        rw [List.getElem?_append_left ht]
        exact hc
      · show 0 < (s.calls ++ [Call.outside]).countP Call.chooses + 0 → _
        rw [countP_start rfl]
        exact hlast
      · have hstill := hcovered hfailed hshutdown
        show _ ≤ s.total ∨ s.baseWorkers + s.blockedInIO + 0 ≤
          s.total + (s.calls ++ [Call.outside]).countP Call.undecided + 0
        rw [countP_start rfl]
        exact hstill
  | notStarted hc => exact .setCall hc h.total_le hlast hcovered
  | register hc =>
      have hpos := countP_pos_of_getElem? (p := Call.reserved) hc rfl
      have hspawning := hcounted.spawning_eq
      have htotal : Pool.total { s with
          registered := s.registered + 1, spawning := s.spawning - 1 } = s.total := by
        show s.registered + 1 + (s.spawning - 1) = s.registered + s.spawning
        omega
      refine .setCall (s := { s with registered := _, spawning := _ }) hc ?_ ?_ ?_
      · rw [htotal]
        exact h.total_le
      · rw [htotal]
        exact hlast
      · rw [htotal]
        exact hcovered
  | giveUp hc =>
      have htotal : Pool.total { s with spawning := s.spawning - 1, failed := true } ≤
          s.total := Nat.add_le_add_left (Nat.sub_le _ _) _
      refine .setCall (s := { s with spawning := _, failed := true }) hc
        (Nat.le_trans htotal h.total_le) (fun hpos => ?_) fun hfailed _ => by cases hfailed
      exact Nat.lt_of_le_of_lt htotal (hlast hpos)
  | leave hc =>
      refine .setCall (s := { s with blockedInIO := _ }) hc h.total_le hlast
        fun hfailed hshutdown => ?_
      have hstill := hcovered hfailed hshutdown
      show _ ≤ s.total ∨ s.baseWorkers + (s.blockedInIO - 1) + 0 ≤ s.total + s.undecided + 0
      omega
  | shutdown => exact ⟨h.total_le, hlast, fun _ hshutdown => by cases hshutdown⟩

end Steps

section Start

variable {s : Pool}

/-- No thread is in a call yet. -/
theorem countP_of_init (h : machine.init s) {p : Call → Bool} (hp : p .outside = false) :
    s.calls.countP p = 0 := by
  obtain ⟨-, -, -, -, -, -, -, hcalls⟩ := h
  rw [hcalls, List.countP_replicate, hp]
  rfl

theorem Counted.of_init (h : machine.init s) : Counted s := by
  obtain ⟨-, -, -, -, hspawning, hblocked, -, hcalls⟩ := id h
  refine ⟨?_, ?_, ?_, ?_⟩
  · rw [hblocked, countP_of_init h rfl]
  · rw [hspawning, countP_of_init h rfl]
  · rw [countP_of_init h rfl, hcalls, List.length_replicate, Nat.add_zero]
  · intro c hmem
    rw [hcalls] at hmem
    rw [(List.mem_replicate.mp hmem).2]
    exact Nat.zero_le _

theorem Sized.of_init (h : machine.init s) : Sized s := by
  obtain ⟨-, hbase, hle, hall, hspawning, hblocked, -, -⟩ := id h
  have htotal : s.total = s.registered := by rw [Pool.total, hspawning, Nat.add_zero]
  refine ⟨?_, ?_, fun hfailed _ => .inr ?_⟩
  · rw [htotal]
    exact Nat.le_trans hle (Nat.le_trans hbase (by decide))
  · rw [countP_of_init h rfl]
    exact fun hpos => absurd hpos (Nat.lt_irrefl 0)
  · rw [hblocked, htotal, hall hfailed]
    omega

end Start

/-! ## The size of the pool -/

/-- No `enterBlockingIO` and no `spawnWorker` is in progress. -/
def Pool.Quiet (s : Pool) : Prop := ∀ c ∈ s.calls, c.inProgress = false

instance (s : Pool) : Decidable s.Quiet :=
  inferInstanceAs (Decidable (∀ c ∈ s.calls, c.inProgress = false))

/-- The workers in blocking I/O. -/
def Pool.inIO (s : Pool) : Nat := s.calls.count .inside

def Pool.callsInProgress (s : Pool) : Nat := s.calls.countP Call.inProgress

/-- A state that keeps the size of the pool. -/
def KeepsSize (s : Pool) : Prop :=
  (s.Quiet → s.failed = false → s.registered < kMaxWorkers → s.shutdown = false →
    s.baseWorkers + s.inIO ≤ s.registered) ∧
  s.registered ≤ max kMaxWorkers s.baseWorkers + s.callsInProgress

theorem Pool.Quiet.countP_eq {s : Pool} (h : s.Quiet) {p : Call → Bool}
    (hp : ∀ c, p c = true → c.inProgress = true) : s.calls.countP p = 0 := by
  refine List.countP_eq_zero.mpr fun c hc hpc => ?_
  have := hp c hpc
  rw [h c hc] at this
  cases this

/-- **The pool keeps its size.** -/
theorem pool_keeps_size (s : Pool) (h : machine.Reach Timely s) : KeepsSize s := by
  obtain ⟨hcounted, hsized⟩ : Counted s ∧ Sized s := by
    refine h.invariant (P := fun s => Counted s ∧ Sized s)
      (fun _ hinit => ⟨.of_init hinit, .of_init hinit⟩) ?_
    rintro s ⟨t, a⟩ s' _ ⟨hcounted, hsized⟩ hok hstep
    have hdoes := does_of_step hstep
    exact ⟨hcounted.step hdoes, hsized.step hcounted hok hdoes⟩
  constructor
  · intro hquiet hfailed hmax hshutdown
    have hreserved : s.calls.countP Call.reserved = 0 :=
      hquiet.countP_eq fun c hc => by cases c <;> first | rfl | cases hc
    have hundecided : s.undecided = 0 :=
      hquiet.countP_eq fun c hc => by cases c <;> first | rfl | cases hc
    have hinside : s.inIO = s.blockedInIO := by
      rw [hcounted.blocked_eq]
      refine List.countP_congr fun c hc => ?_
      have := hquiet c hc
      cases c <;> simp_all [Call.inProgress, Call.blocked]
    have hcovered := hsized.covered hfailed hshutdown
    have hspawning := hcounted.spawning_eq
    unfold Pool.total at hcovered
    omega
  · have htotal := hsized.total_le
    have hmax := Nat.le_max_left kMaxWorkers s.baseWorkers
    unfold Pool.total at htotal
    omega

/-! ## Pools of a few workers, all outside of calls -/

/-- `n` workers in I/O, and the others in `calls`. -/
def crowd (n registered spawning blocked : Nat) (calls : List Call) : Pool where
  baseWorkers := 2
  registered := registered
  spawning := spawning
  blockedInIO := blocked
  shutdown := false
  failed := false
  calls := List.replicate n .inside ++ calls

/-- Two workers that do nothing. -/
def twoWorkers : Pool := crowd 0 2 0 0 [.outside, .outside]

theorem init_twoWorkers : machine.init twoWorkers := by
  refine ⟨?_, ?_, ?_, ?_, ?_, ?_, ?_, ?_⟩ <;> decide

/-- Both workers start another one.  The worker 1 comes back from its I/O, and enters a
call again after the worker 2: that one declines on a count that misses the worker 1, and
the worker 1 starts the fifth. -/
def busyRun : List (Nat × Action) :=
  [(0, .fetchAdd), (1, .fetchAdd), (1, .readTotal), (0, .readTotal), (0, .reserve),
    (1, .reserve), (0, .newThread true), (1, .newThread true), (1, .register),
    (0, .register), (1, Action.leaveBlockingIO), (2, .fetchAdd), (1, .fetchAdd), (2, .readTotal),
    (1, .readTotal), (1, .reserve), (1, .newThread true), (1, .register)]

theorem twoWorkers_keeps_size :
    KeepsSize (crowd 0 5 0 3 [.inside, .inside, .inside, .outside, .outside]) :=
  pool_keeps_size _ <| Machine.reach_of_execOk (M := machine) Pool.timely (fun _ _ h => h)
    (.init init_twoWorkers)
    (show machine.execOk Pool.timely twoWorkers busyRun = some _ by decide)

/-! ## A stale count -/

/-- The worker 1 counts itself after the worker 0 and starts a third worker; the worker 0
then finds it, with the count of 1 that it has from before. -/
def staleRun : List (Nat × Action) :=
  [(0, .fetchAdd), (1, .fetchAdd), (1, .readTotal), (1, .reserve), (1, .newThread true),
    (1, .register), (0, .readTotal)]

theorem exec_staleRun :
    machine.exec twoWorkers staleRun = some (crowd 0 3 0 2 [.inside, .inside, .outside]) := by
  decide

/-! ## More than 256 workers -/

section Crowds

variable {n r p b : Nat} {calls : List Call}

theorem crowd_call (k : Nat) : (crowd n r p b calls).calls[n + k]? = calls[k]? := by
  have hlen : (List.replicate n Call.inside).length ≤ n + k := by simp
  show (List.replicate n Call.inside ++ calls)[n + k]? = _
  rw [List.getElem?_append_right hlen, List.length_replicate, Nat.add_sub_cancel_left]

theorem crowd_setCall (k : Nat) (d : Call) :
    (crowd n r p b calls).setCall (n + k) d = crowd n r p b (calls.set k d) := by
  have hlen : (List.replicate n Call.inside).length ≤ n + k := by simp
  unfold Pool.setCall crowd
  dsimp only
  rw [List.set_append_right _ _ hlen, List.length_replicate, Nat.add_sub_cancel_left]

theorem crowd_succ : crowd n r p b (.inside :: calls) = crowd (n + 1) r p b calls := by
  unfold crowd
  rw [List.replicate_succ', List.append_assoc]
  rfl

theorem step_fetchAdd {k : Nat} (hc : calls[k]? = some .outside) :
    machine.step (crowd n r p b calls) (n + k, .fetchAdd) =
      some (crowd n r p (b + 1) (calls.set k (.entered (b + 1)))) := by
  rw [← crowd_setCall]
  show Pool.step _ _ = _
  unfold Pool.step
  dsimp only
  rw [crowd_call, hc]
  rfl

theorem callsInProgress_crowd :
    (crowd n r p b calls).callsInProgress = calls.countP Call.inProgress := by
  unfold Pool.callsInProgress crowd
  rw [List.countP_append, List.countP_replicate, if_neg (by decide), Nat.zero_add]

theorem wants_of_lt {blocked : Nat} (hmax : r + p < 256) (hle : blocked ≤ r + p)
    (hshort : r + p < blocked + 2) : (crowd n r p b calls).wants blocked = true := by
  have hdiff : (r + p + 2 ^ 64 - blocked) % 2 ^ 64 < 2 := by omega
  exact decide_eq_true ⟨hmax, hdiff⟩

theorem step_readTotal {k blocked : Nat} (hc : calls[k]? = some (.entered blocked))
    (hwants : (crowd n r p b calls).wants blocked = true) :
    machine.step (crowd n r p b calls) (n + k, .readTotal) =
      some (crowd n r p b (calls.set k .choosing)) := by
  rw [← crowd_setCall]
  show Pool.step _ _ = _
  unfold Pool.step
  dsimp only
  rw [crowd_call, hc]
  dsimp only
  rw [if_pos hwants]

/-- A worker that has decided to start another one. -/
theorem exec_spawnWorker {k : Nat} (hc : calls[k]? = some .choosing) :
    machine.exec (crowd n r p b calls)
      [(n + k, .reserve), (n + k, .newThread true), (n + k, .register)] =
      some (crowd n (r + 1) p b ((calls ++ [Call.outside]).set k .inside)) := by
  obtain ⟨hk, -⟩ := List.getElem?_eq_some_iff.mp hc
  have hreserve : machine.step (crowd n r p b calls) (n + k, .reserve) =
      some (crowd n r (p + 1) b (calls.set k .creating)) := by
    rw [← crowd_setCall]
    show Pool.step _ _ = _
    unfold Pool.step
    dsimp only
    rw [crowd_call, hc]
    rfl
  have hnew : machine.step (crowd n r (p + 1) b (calls.set k .creating))
      (n + k, .newThread true) =
      some (crowd n r (p + 1) b ((calls ++ [Call.outside]).set k (.created true))) := by
    have hcreating : (calls.set k .creating)[k]? = some .creating :=
      List.getElem?_set_self hk
    show Pool.step _ _ = _
    unfold Pool.step
    dsimp only
    rw [crowd_call, hcreating]
    dsimp only
    have happend : { crowd n r (p + 1) b (calls.set k .creating) with
        calls := (crowd n r (p + 1) b (calls.set k .creating)).calls ++ [Call.outside] } =
        crowd n r (p + 1) b (calls.set k .creating ++ [Call.outside]) := by
      unfold crowd
      rw [List.append_assoc]
    rw [happend, crowd_setCall, List.set_append_left _ _ (by simpa using hk), List.set_set,
      List.set_append_left _ _ hk]
  have hregister : machine.step
      (crowd n r (p + 1) b ((calls ++ [Call.outside]).set k (.created true))) (n + k, .register) =
      some (crowd n (r + 1) p b ((calls ++ [Call.outside]).set k .inside)) := by
    have hk' : k < (calls ++ [Call.outside]).length := by simp; omega
    have hcreated : ((calls ++ [Call.outside]).set k (.created true))[k]? =
        some (.created true) := List.getElem?_set_self hk'
    show Pool.step _ _ = _
    unfold Pool.step
    dsimp only
    rw [crowd_call, hcreated]
    dsimp only
    have hcounts : { crowd n r (p + 1) b ((calls ++ [Call.outside]).set k (.created true)) with
        registered := r + 1, spawning := p + 1 - 1 } =
        crowd n (r + 1) p b ((calls ++ [Call.outside]).set k (.created true)) := rfl
    have hinside : (crowd n (r + 1) p b ((calls ++ [Call.outside]).set k
        (.created true))).setCall (n + k) .inside = _ := crowd_setCall k .inside
    rw [List.set_set, ← hcounts] at hinside
    exact congrArg some hinside
  simp only [Machine.exec, hreserve, hnew, hregister, Option.bind_some]

end Crowds

theorem reachable_crowd {n : Nat} (hn : n ≤ 253) :
    machine.Reachable (crowd n (n + 2) 0 n [.outside, .outside]) := by
  induction n with
  | zero => exact .init init_twoWorkers
  | succ n ih =>
    have hwants : (crowd n (n + 2) 0 (n + 1) [.entered (n + 1), .outside]).wants (n + 1) =
        true := wants_of_lt (by omega) (by omega) (by omega)
    have hentered : machine.Reachable (crowd n (n + 2) 0 (n + 1) [.entered (n + 1), .outside]) :=
      .step (n + 0, .fetchAdd) (ih (by omega)) trivial (step_fetchAdd (k := 0) rfl)
    have hchoosing : machine.Reachable (crowd n (n + 2) 0 (n + 1) [.choosing, .outside]) :=
      .step (n + 0, .readTotal) hentered trivial (step_readTotal (k := 0) rfl hwants)
    have hgrown := Machine.reach_of_exec hchoosing (exec_spawnWorker (k := 0) rfl)
    rwa [List.cons_append, List.set_cons_zero, crowd_succ] at hgrown

/-- At 255 workers both of the last two decide to start a worker. -/
theorem reachable_full :
    machine.Reachable (crowd 253 257 0 255 [.inside, .inside, .outside, .outside]) := by
  have hentered : machine.Reachable (crowd 253 255 0 255 [.entered 254, .entered 255]) :=
    .step (253 + 1, .fetchAdd)
      (.step (253 + 0, .fetchAdd) (reachable_crowd (Nat.le_refl 253)) trivial
        (step_fetchAdd (k := 0) rfl))
      trivial (step_fetchAdd (k := 1) rfl)
  have hchoosing : machine.Reachable (crowd 253 255 0 255 [.choosing, .choosing]) :=
    .step (253 + 1, .readTotal)
      (.step (253 + 0, .readTotal) hentered trivial
        (step_readTotal (k := 0) rfl (wants_of_lt (by decide) (by decide) (by decide))))
      trivial (step_readTotal (k := 1) rfl (wants_of_lt (by decide) (by decide) (by decide)))
  have hfirst := Machine.reach_of_exec hchoosing (exec_spawnWorker (k := 0) rfl)
  exact Machine.reach_of_exec hfirst (exec_spawnWorker (k := 1) rfl)

/-- A pool one worker short, and one with 257 workers; no call is in progress. -/
theorem pool_shrinks :
    (¬ ∀ s, machine.Reachable s → s.Quiet → s.failed = false → s.registered < kMaxWorkers →
      s.shutdown = false → s.baseWorkers + s.inIO ≤ s.registered) ∧
    ¬ ∀ s, machine.Reachable s →
      s.registered ≤ max kMaxWorkers s.baseWorkers + s.callsInProgress := by
  constructor
  · intro h
    have hshort := h _ (Machine.reach_of_exec (.init init_twoWorkers) exec_staleRun)
      (by decide) rfl (by decide) rfl
    revert hshort
    decide
  · intro h
    have hmany := h _ reachable_full
    rw [callsInProgress_crowd] at hmany
    revert hmany
    decide

end ProtoST.Runtime.BlockingIO

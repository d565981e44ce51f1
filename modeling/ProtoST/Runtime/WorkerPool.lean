import Mathlib.Algebra.Group.Int.Defs
import Mathlib.Algebra.Group.Nat.Defs
import Mathlib.Logic.Function.Basic
import Mathlib.Data.Fin.Basic
import Mathlib.Tactic.Common
import ProtoST.Lib.Transition

/-!
# The pool of workers

The scheduler of `runtime/STRuntime.cpp`: threads that make an actor ready
(`enqueueReady`), workers that take ready actors and wait on a semaphore when there are
none (`workerLoop`), threads that take an actor themselves while they wait, and
`stopProcessing` and `startProcessing`.  Every access to a shared variable is one step,
a push and a pop of a ready stack too.  The thread of a worker makes its own calls in
the turn of an actor.  The counter of the semaphore is a 32-bit integer
(`runtime/Semaphore.h`).

The end of the runtime is left out.

## Main results

* `no_stranded_actor` — in every run whose releases never find the counter full, an
  actor that is ready is seen by a worker, or there is a permit.
* `stranded_actor` — a run in which the counter overflows.
-/

namespace ProtoST.Runtime.WorkerPool

open ProtoST.Lib

/-- A thread in one of the calls. -/
inductive Call where
  | idle
  /-- `enqueueReady`, before the push. -/
  | enqueuing (band : Fin 3) (actor : Nat)
  /-- After the push, before `processingPaused` is read. -/
  | pushed
  | releasing
  /-- `startProcessing`, at a turn of its loop. -/
  | starting (i : Nat)
  /-- `dequeueReady` of a thread that helps. -/
  | helping (band : Fin 3)
  /-- `spawnWorker`, before the new worker is registered. -/
  | spawning
  deriving DecidableEq, Repr

/-- A worker in `workerLoop`. -/
inductive WorkerPc where
  /-- At the top of the loop. -/
  | top
  /-- Waiting on `pauseCV`. -/
  | gate
  /-- `dequeueReady`: in the drain loop (round 0) or in one of the 8 spinning
  rounds. -/
  | scan (round : Nat) (band : Fin 3)
  /-- In the turn of an actor. -/
  | turn (spinning : Bool)
  /-- In `workerSem.acquire()`. -/
  | acquire
  deriving DecidableEq, Repr

structure Pool where
  /-- `readyStack`. -/
  ready : Fin 3 → List Nat
  /-- The counter of `workerSem`. -/
  count : Int
  /-- `processingPaused`. -/
  paused : Bool
  /-- `workers.size()`. -/
  registered : Nat
  call : Nat → Call
  worker : Nat → Option WorkerPc

/-- What `fetch_add` leaves in a 32-bit counter. -/
def wrap (n : Int) : Int := n.bmod (2 ^ 32)

inductive Action where
  | enqueue (band : Fin 3) (actor : Nat)
  | push
  | loadPaused
  | release
  /-- `enqueueTask` releases a permit. -/
  | enqueueTask
  | stopProcessing
  | startProcessing
  | startLoop
  | help
  | helpPop
  | spawnWorker (new : Nat)
  | register
  | top
  | gate
  | scan
  | endTurn
  | acquire
  deriving DecidableEq, Repr

namespace Pool

/-- A thread that may call: one of the program's, or a worker in a turn. -/
def Free (s : Pool) (t : Nat) : Prop :=
  s.call t = .idle ∧ (s.worker t = none ∨ ∃ spinning, s.worker t = some (.turn spinning))

instance (s : Pool) (t : Nat) : Decidable (s.Free t) :=
  match hcall : s.call t, hworker : s.worker t with
  | .idle, none => isTrue ⟨hcall, .inl hworker⟩
  | .idle, some (.turn spinning) => isTrue ⟨hcall, .inr ⟨spinning, hworker⟩⟩
  | .idle, some .top | .idle, some .gate | .idle, some (.scan _ _)
  | .idle, some .acquire => isFalse fun h => by simp [Free, hworker] at h
  | .enqueuing _ _, _ | .pushed, _ | .releasing, _ | .starting _, _ | .helping _, _
  | .spawning, _ => isFalse fun h => by simp [Free, hcall] at h

def setCall (s : Pool) (t : Nat) (c : Call) : Pool :=
  { s with call := Function.update s.call t c }

def setWorker (s : Pool) (t : Nat) (pc : WorkerPc) : Pool :=
  { s with worker := Function.update s.worker t (some pc) }

def setReady (s : Pool) (band : Fin 3) (actors : List Nat) : Pool :=
  { s with ready := Function.update s.ready band actors }

def releasePermit (s : Pool) : Pool := { s with count := wrap (s.count + 1) }

/-- After a band that is empty. -/
def nextScan (round : Nat) (band : Fin 3) : WorkerPc :=
  if band ≠ 2 then .scan round (band + 1)
  else if round < 8 then .scan (round + 1) 0
  else .acquire

def nextHelp (band : Fin 3) : Call :=
  if band ≠ 2 then .helping (band + 1) else .idle

/-- One step of a thread. -/
def step (s : Pool) (a : Nat × Action) : Option Pool :=
  let t := a.1
  match a.2, s.call t, s.worker t with
  | .enqueue band actor, _, _ =>
      if s.Free t then some (s.setCall t (.enqueuing band actor)) else none
  | .push, .enqueuing band actor, _ =>
      some ((s.setReady band (actor :: s.ready band)).setCall t .pushed)
  | .loadPaused, .pushed, _ =>
      some (s.setCall t (if s.paused then .idle else .releasing))
  | .release, .releasing, _ => some (s.releasePermit.setCall t .idle)
  | .enqueueTask, _, _ => if s.Free t then some s.releasePermit else none
  | .stopProcessing, _, _ => if s.Free t then some { s with paused := true } else none
  | .startProcessing, _, _ =>
      if s.Free t then some ({ s with paused := false }.setCall t (.starting 0)) else none
  | .startLoop, .starting i, _ =>
      if i < s.registered then some (s.releasePermit.setCall t (.starting (i + 1)))
      else some (s.setCall t .idle)
  | .help, _, _ => if s.Free t then some (s.setCall t (.helping 0)) else none
  | .helpPop, .helping band, _ =>
      match s.ready band with
      | _ :: rest => some ((s.setReady band rest).setCall t .idle)
      | [] => some (s.setCall t (nextHelp band))
  | .spawnWorker new, .idle, some (.turn _) =>
      if s.call new = .idle ∧ s.worker new = none then
        some ((s.setWorker new .top).setCall t .spawning)
      else none
  | .register, .spawning, _ =>
      some ({ s with registered := s.registered + 1 }.setCall t .idle)
  | .top, _, some .top =>
      some (s.setWorker t (if s.paused then .gate else .scan 0 0))
  | .gate, _, some .gate =>
      if s.paused then none else some (s.setWorker t (.scan 0 0))
  | .scan, _, some (.scan round band) =>
      match s.ready band with
      | _ :: rest => some ((s.setReady band rest).setWorker t (.turn (round ≠ 0)))
      | [] => some (s.setWorker t (nextScan round band))
  | .endTurn, .idle, some (.turn spinning) =>
      some (s.setWorker t (if spinning then .top else .scan 0 0))
  | .acquire, _, some .acquire =>
      if 0 < s.count then some ({ s with count := s.count - 1 }.setWorker t .top) else none
  | _, _, _ => none

end Pool

/-- The constructor has registered its workers, if it could start any, before anything
else runs. -/
def machine : Machine Pool (Nat × Action) where
  init s := s.ready = (fun _ => []) ∧ s.count = 0 ∧ s.paused = false ∧
    (∀ t, s.call t = .idle) ∧
    ∀ t, s.worker t = if t < s.registered then some .top else none
  step := Pool.step

/-! ## Who sees to a band -/

/-- A call that is about to release a permit, or to find the pool paused. -/
def Call.pending : Call → Bool
  | .pushed | .releasing | .starting 0 => true
  | _ => false

/-- A worker that looks at a band before it blocks. -/
def WorkerPc.willCheck (band : Fin 3) : WorkerPc → Bool
  | .top | .gate | .turn _ => true
  | .scan round b => round < 8 ∨ b ≤ band
  | .acquire => false

/-- Somebody sees to a band that is not empty. -/
def Served (s : Pool) (band : Fin 3) : Prop :=
  s.paused = true ∨ (∃ t, (s.call t).pending = true) ∨ 0 < s.count ∨
    ∃ t pc, s.worker t = some pc ∧ pc.willCheck band = true

structure Inv (s : Pool) : Prop where
  count_nonneg : 0 ≤ s.count
  count_lt : s.count < 2 ^ 31
  no_workers : s.registered = 0 → ∀ t, s.worker t = none ∧ s.call t ≠ .spawning
  served : s.registered ≠ 0 → ∀ band, s.ready band ≠ [] → Served s band

/-- **The condition.**  No release finds the counter at its maximum. -/
def NotFull (s : Pool) (a : Nat × Action) : Prop :=
  match a.2 with
  | .release | .enqueueTask | .startLoop => s.count ≠ 2 ^ 31 - 1
  | _ => True

instance (s : Pool) : (a : Nat × Action) → Decidable (NotFull s a)
  | (_, .release) | (_, .enqueueTask) | (_, .startLoop) =>
      inferInstanceAs (Decidable (s.count ≠ 2 ^ 31 - 1))
  | (_, .enqueue _ _) | (_, .push) | (_, .loadPaused) | (_, .stopProcessing)
  | (_, .startProcessing) | (_, .help) | (_, .helpPop) | (_, .spawnWorker _)
  | (_, .register) | (_, .top) | (_, .gate) | (_, .scan) | (_, .endTurn)
  | (_, .acquire) => isTrue trivial

section Steps

variable {s s' : Pool} {t : Nat} {band : Fin 3} {c : Call} {pc : WorkerPc}

theorem wrap_of_lt {n : Int} (hpos : 0 ≤ n) (hlt : n < 2 ^ 31 - 1) : wrap (n + 1) = n + 1 := by
  unfold wrap
  rw [Int.bmod_eq_of_le (by omega) (by omega)]

/-- A step hands over what serves a band. -/
theorem Served.step (h : Served s band)
    (hpaused : s.paused = true → Served s' band)
    (hcall : ∀ t, (s.call t).pending = true → Served s' band)
    (hcount : 0 < s.count → Served s' band)
    (hworker : ∀ t pc, s.worker t = some pc → pc.willCheck band = true → Served s' band) :
    Served s' band := by
  rcases h with h | ⟨t, h⟩ | h | ⟨t, pc, hpc, h⟩
  · exact hpaused h
  · exact hcall t h
  · exact hcount h
  · exact hworker t pc hpc h

/-- A call that was not pending. -/
theorem Served.setCall (h : Served s band) (hpending : (s.call t).pending = false) :
    Served (s.setCall t c) band := by
  refine h.step .inl ?_ (fun h => .inr (.inr (.inl h)))
    (fun w pc hpc h => .inr (.inr (.inr ⟨w, pc, hpc, h⟩)))
  intro w hw
  refine .inr (.inl ⟨w, ?_⟩)
  have hne : w ≠ t := by
    rintro rfl
    rw [hpending] at hw
    cases hw
  show (Function.update s.call t c w).pending = true
  rwa [Function.update_of_ne hne]

theorem Served.of_call (h : c.pending = true) : Served (s.setCall t c) band := by
  refine .inr (.inl ⟨t, ?_⟩)
  show (Function.update s.call t c t).pending = true
  rwa [Function.update_self]

theorem Served.of_worker (h : pc.willCheck band = true) : Served (s.setWorker t pc) band :=
  .inr (.inr (.inr ⟨t, pc, Function.update_self .., h⟩))

/-- A worker that goes on with the same bands before it. -/
theorem Served.setWorker (h : Served s band)
    (hkeeps : ∀ old, s.worker t = some old → old.willCheck band = true →
      pc.willCheck band = true) : Served (s.setWorker t pc) band := by
  refine h.step .inl (fun w hw => .inr (.inl ⟨w, hw⟩)) (fun h => .inr (.inr (.inl h))) ?_
  intro w old hold hcheck
  by_cases hw : w = t
  · rw [hw] at hold
    exact .of_worker (hkeeps old hold hcheck)
  · exact .inr (.inr (.inr ⟨w, old, (Function.update_of_ne hw ..).trans hold, hcheck⟩))

/-- Only a worker starts another worker. -/
theorem no_workers_setCall
    (h : s.registered = 0 → ∀ w, s.worker w = none ∧ s.call w ≠ .spawning)
    (hspawn : c = .spawning → s.registered ≠ 0) (hzero : s.registered = 0) (w : Nat) :
    (s.setCall t c).worker w = none ∧ (s.setCall t c).call w ≠ .spawning := by
  refine ⟨(h hzero w).1, ?_⟩
  show Function.update s.call t c w ≠ .spawning
  by_cases hw : w = t
  · rw [hw, Function.update_self]
    exact fun hc => hspawn hc hzero
  · rw [Function.update_of_ne hw]
    exact (h hzero w).2

theorem Inv.of_pending (hnonneg : 0 ≤ s.count) (hlt : s.count < 2 ^ 31)
    (hnone : s.registered = 0 → ∀ w, s.worker w = none ∧ s.call w ≠ .spawning)
    (hc : c.pending = true) : Inv (s.setCall t c) where
  count_nonneg := hnonneg
  count_lt := hlt
  no_workers := no_workers_setCall hnone fun heq => by rw [heq] at hc; cases hc
  served _ _ _ := .of_call hc

theorem Inv.setCall (h : Inv s) (hspawn : c = .spawning → s.registered ≠ 0)
    (hserved : ∀ band, s.registered ≠ 0 → Served s band → Served (s.setCall t c) band) :
    Inv (s.setCall t c) where
  count_nonneg := h.count_nonneg
  count_lt := h.count_lt
  no_workers := no_workers_setCall h.no_workers hspawn
  served hsome band hband := hserved band hsome (h.served hsome band hband)

theorem Inv.releasePermit (h : Inv s) (hfull : s.count ≠ 2 ^ 31 - 1) :
    Inv s.releasePermit ∧ 0 < s.releasePermit.count := by
  have hnonneg := h.count_nonneg
  have hlt := h.count_lt
  have hcount : s.releasePermit.count = s.count + 1 := wrap_of_lt hnonneg (by omega)
  have hpos : 0 < s.releasePermit.count := by omega
  exact ⟨⟨by omega, by omega, h.no_workers, fun _ _ _ => .inr (.inr (.inl hpos))⟩, hpos⟩

theorem Inv.setWorker (h : Inv s) (hsome : s.registered ≠ 0)
    (hkeeps : ∀ band, s.ready band ≠ [] → Served s band → Served (s.setWorker t pc) band) :
    Inv (s.setWorker t pc) where
  count_nonneg := h.count_nonneg
  count_lt := h.count_lt
  no_workers hzero := absurd hzero hsome
  served _ band hband := hkeeps band hband (h.served hsome band hband)

/-- An actor is taken. -/
theorem Inv.setReady (h : Inv s) {actor : Nat} {rest : List Nat}
    (hband : s.ready band = actor :: rest) : Inv (s.setReady band rest) where
  count_nonneg := h.count_nonneg
  count_lt := h.count_lt
  no_workers := h.no_workers
  served hsome b hb := by
    refine h.served hsome b fun hempty => hb ?_
    show Function.update s.ready band rest b = []
    by_cases hbb : b = band
    · rw [hbb, hband] at hempty
      cases hempty
    · rw [Function.update_of_ne hbb]
      exact hempty

/-- The bands that are not empty stay before a worker that found a band empty. -/
theorem nextScan_willCheck {round : Nat} {b : Fin 3} (hne : band ≠ b)
    (h : (WorkerPc.scan round b).willCheck band = true) :
    (Pool.nextScan round b).willCheck band = true := by
  simp only [WorkerPc.willCheck, decide_eq_true_eq] at h
  unfold Pool.nextScan
  split
  · simp only [WorkerPc.willCheck, decide_eq_true_eq]
    omega
  · split
    · simp [WorkerPc.willCheck]
    · omega

/-- Only a worker is asked for its `pc`. -/
theorem Inv.registered_ne_zero (h : Inv s) (hpc : s.worker t = some pc) : s.registered ≠ 0 := by
  intro hzero
  rw [(h.no_workers hzero t).1] at hpc
  cases hpc

/-- A call that sees to no band goes on. -/
theorem Inv.goOn (h : Inv s) (hpending : (s.call t).pending = false) (hc : c ≠ .spawning) :
    Inv (s.setCall t c) :=
  h.setCall (fun heq => absurd heq hc) fun _ _ hserved => hserved.setCall hpending

theorem Inv.push (h : Inv s) (band : Fin 3) (ready : List Nat) :
    Inv ((s.setReady band ready).setCall t .pushed) :=
  .of_pending h.count_nonneg h.count_lt h.no_workers rfl

theorem Inv.loadPaused (h : Inv s) :
    Inv (s.setCall t (if s.paused then .idle else .releasing)) := by
  refine h.setCall (fun heq => by split at heq <;> cases heq) fun band _ _ => ?_
  cases hpaused : s.paused with
  | true => exact .inl hpaused
  | false => exact .of_call rfl

/-- A call that is left with a permit released. -/
theorem Inv.releases (h : Inv s) (hfull : s.count ≠ 2 ^ 31 - 1) (hc : c ≠ .spawning) :
    Inv (s.releasePermit.setCall t c) := by
  obtain ⟨hrelease, hpos⟩ := h.releasePermit hfull
  exact hrelease.setCall (fun heq => absurd heq hc) fun _ _ _ => .inr (.inr (.inl hpos))

/-- The loop of `startProcessing` ends: it has released a permit when there are workers. -/
theorem Inv.endStart {i : Nat} (h : Inv s) (hcall : s.call t = .starting i)
    (hdone : ¬ i < s.registered) : Inv (s.setCall t .idle) := by
  refine h.setCall (by simp) fun band hreg hserved => hserved.setCall ?_
  cases i with
  | zero => exact absurd (Nat.eq_zero_of_not_pos hdone) hreg
  | succ i =>
      rw [hcall]
      rfl

theorem Inv.nextHelp (h : Inv s) (hcall : s.call t = .helping band) :
    Inv (s.setCall t (Pool.nextHelp band)) := by
  refine h.goOn (by rw [hcall]; rfl) ?_
  unfold Pool.nextHelp
  split <;> simp

/-- A worker starts another one. -/
theorem Inv.spawnWorker {new : Nat} (h : Inv s) (hcall : s.call t = .idle)
    (hworker : s.worker t = some pc) : Inv ((s.setWorker new .top).setCall t .spawning) := by
  have hsome := h.registered_ne_zero hworker
  refine Inv.setCall (h.setWorker hsome fun _ _ _ => .of_worker rfl) (fun _ => hsome) ?_
  refine fun _ _ hserved => hserved.setCall ?_
  show (s.call t).pending = false
  rw [hcall]
  rfl

theorem Inv.register (h : Inv s) (hcall : s.call t = .spawning) :
    Inv ({ s with registered := s.registered + 1 }.setCall t .idle) := by
  have hreg : s.registered ≠ 0 := fun hzero => (h.no_workers hzero t).2 hcall
  have hinv : Inv { s with registered := s.registered + 1 } :=
    ⟨h.count_nonneg, h.count_lt, fun hzero => absurd hzero (Nat.succ_ne_zero _),
      fun _ => h.served hreg⟩
  refine hinv.setCall (by simp) fun _ _ hserved => hserved.setCall ?_
  show (s.call t).pending = false
  rw [hcall]
  rfl

/-- A worker that looks at every band before it blocks. -/
theorem Inv.lookAgain {old : WorkerPc} (h : Inv s) (hworker : s.worker t = some old)
    (hcheck : ∀ band, pc.willCheck band = true) : Inv (s.setWorker t pc) :=
  h.setWorker (h.registered_ne_zero hworker) fun band _ _ => .of_worker (hcheck band)

/-- A worker finds a band empty. -/
theorem Inv.scanEmpty {round : Nat} {b : Fin 3} (h : Inv s)
    (hworker : s.worker t = some (.scan round b)) (hempty : s.ready b = []) :
    Inv (s.setWorker t (Pool.nextScan round b)) := by
  refine h.setWorker (h.registered_ne_zero hworker) fun band hband hserved =>
    hserved.setWorker ?_
  intro old hold hcheck
  rw [hworker] at hold
  cases hold
  refine nextScan_willCheck ?_ hcheck
  rintro rfl
  exact hband hempty

theorem Inv.acquire (h : Inv s) (hworker : s.worker t = some pc) (hpos : 0 < s.count) :
    Inv ({ s with count := s.count - 1 }.setWorker t .top) := by
  have hlt := h.count_lt
  refine ⟨?_, ?_, fun hzero => absurd hzero (h.registered_ne_zero hworker),
    fun _ _ _ => .of_worker rfl⟩
  · show 0 ≤ s.count - 1
    omega
  · show s.count - 1 < 2 ^ 31
    omega

/-- **Every step whose release does not find the counter full keeps the bands
served.** -/
theorem Inv.step {a : Action} (h : Inv s) (hok : NotFull s (t, a))
    (hstep : s.step (t, a) = some s') : Inv s' := by
  unfold Pool.step at hstep
  dsimp only at hstep
  split at hstep
  · -- enqueue
    split at hstep
    · rename_i hfree
      cases hstep
      exact h.goOn (by rw [hfree.1]; rfl) (by simp)
    · cases hstep
  · -- push
    cases hstep
    exact h.push _ _
  · -- loadPaused
    cases hstep
    exact h.loadPaused
  · -- release
    cases hstep
    exact h.releases hok (by simp)
  · -- enqueueTask
    split at hstep
    · cases hstep
      exact (h.releasePermit hok).1
    · cases hstep
  · -- stopProcessing
    split at hstep
    · cases hstep
      exact ⟨h.count_nonneg, h.count_lt, h.no_workers, fun _ _ _ => .inl rfl⟩
    · cases hstep
  · -- startProcessing
    split at hstep
    · cases hstep
      exact .of_pending h.count_nonneg h.count_lt h.no_workers rfl
    · cases hstep
  · -- startLoop
    rename_i hcall
    split at hstep
    · cases hstep
      exact h.releases hok (by simp)
    · rename_i hdone
      cases hstep
      exact h.endStart hcall hdone
  · -- help
    split at hstep
    · rename_i hfree
      cases hstep
      exact h.goOn (by rw [hfree.1]; rfl) (by simp)
    · cases hstep
  · -- helpPop
    rename_i hcall
    split at hstep
    · rename_i hband
      cases hstep
      exact (h.setReady hband).goOn (show (s.call t).pending = false by rw [hcall]; rfl) (by simp)
    · cases hstep
      exact h.nextHelp hcall
  · -- spawnWorker
    rename_i hcall hworker
    split at hstep
    · cases hstep
      exact h.spawnWorker hcall hworker
    · cases hstep
  · -- register
    rename_i hcall
    cases hstep
    exact h.register hcall
  · -- top
    rename_i hworker
    cases hstep
    exact h.lookAgain hworker fun _ => by split <;> rfl
  · -- gate
    rename_i hworker
    split at hstep
    · cases hstep
    · cases hstep
      exact h.lookAgain hworker fun _ => rfl
  · -- scan
    rename_i hworker
    split at hstep
    · rename_i hband
      cases hstep
      exact (h.setReady hband).lookAgain hworker fun _ => rfl
    · rename_i hempty
      cases hstep
      exact h.scanEmpty hworker hempty
  · -- endTurn
    rename_i hworker
    cases hstep
    exact h.lookAgain hworker fun _ => by split <;> rfl
  · -- acquire
    rename_i hworker
    split at hstep
    · rename_i hpos
      cases hstep
      exact h.acquire hworker hpos
    · cases hstep
  · cases hstep

end Steps

theorem Inv.of_init {s : Pool} (h : machine.init s) : Inv s := by
  obtain ⟨hready, hcount, -, hcall, hworker⟩ := h
  refine ⟨Int.le_of_eq hcount.symm, by rw [hcount]; decide, fun hzero w => ⟨?_, ?_⟩, ?_⟩
  · rw [hworker, hzero]
    rfl
  · rw [hcall]
    simp
  · intro _ band hband
    rw [hready] at hband
    exact absurd rfl hband

/-! ## Pools with one worker -/

/-- Nobody calls and nothing is ready; 0 is the only worker. -/
def idlePool (pc : WorkerPc) (count : Int) : Pool where
  ready _ := []
  count := count
  paused := false
  registered := 1
  call _ := .idle
  worker t := if t = 0 then some pc else none

/-- The thread 1 makes the actor 7 ready. -/
def send : List (Nat × Action) :=
  [(1, .enqueue 1 7), (1, .push), (1, .loadPaused), (1, .release)]

theorem init_idlePool : machine.init (idlePool .top 0) := by
  refine ⟨rfl, rfl, rfl, fun _ => rfl, fun t => ?_⟩
  by_cases ht : t = 0
  · rw [ht]
    rfl
  · have hlt : ¬ t < 1 := by omega
    show (if t = 0 then _ else _) = if t < 1 then _ else _
    rw [if_neg ht, if_neg hlt]

/-- **No ready actor is stranded.** -/
theorem no_stranded_actor (s : Pool) (hreach : machine.Reach NotFull s)
    (hrunning : s.paused = false)
    (hcalls : ∀ t, (∀ band actor, s.call t ≠ .enqueuing band actor) ∧ s.call t ≠ .pushed ∧
      s.call t ≠ .releasing ∧ ∀ i, s.call t ≠ .starting i)
    (hworkers : ∃ t, s.worker t ≠ none) (hready : ∃ band, s.ready band ≠ []) :
    (∃ t pc, s.worker t = some pc ∧ pc ≠ .acquire) ∨ 0 < s.count := by
  have hinv : Inv s := hreach.invariant (fun _ => .of_init)
    fun s a s' _ h hok hstep => h.step (t := a.1) (a := a.2) hok hstep
  obtain ⟨w, hw⟩ := hworkers
  obtain ⟨band, hband⟩ := hready
  have hreg : s.registered ≠ 0 := fun hzero => hw (hinv.no_workers hzero w).1
  rcases hinv.served hreg band hband with hpaused | ⟨t, hpending⟩ | hpos | ⟨t, pc, hpc, hcheck⟩
  · rw [hrunning] at hpaused
    cases hpaused
  · obtain ⟨-, hpushed, hreleasing, hstarting⟩ := hcalls t
    cases hcall : s.call t with
    | pushed => exact absurd hcall hpushed
    | releasing => exact absurd hcall hreleasing
    | starting i => exact absurd hcall (hstarting i)
    | idle | enqueuing | helping | spawning =>
        rw [hcall] at hpending
        cases hpending
  · exact .inr hpos
  · refine .inl ⟨t, pc, hpc, ?_⟩
    rintro rfl
    cases hcheck

theorem no_stranded_actor_sent :
    (∃ t pc, ((idlePool .top 1).setReady 1 [7]).worker t = some pc ∧ pc ≠ .acquire) ∨
      (0 : Int) < 1 := by
  have hexec : machine.execOk (fun s a => decide (NotFull s a)) (idlePool .top 0) send =
      some ((((((idlePool .top 0).setCall 1 (.enqueuing 1 7)).setReady 1 [7]).setCall 1
        .pushed).setCall 1 .releasing).releasePermit.setCall 1 .idle) := rfl
  have hsent : machine.execOk (fun s a => decide (NotFull s a)) (idlePool .top 0) send =
      some ((idlePool .top 1).setReady 1 [7]) := by
    have hwrap : wrap 1 = 1 := by decide
    rw [hexec]
    simp [Pool.setCall, Pool.setReady, Pool.releasePermit, idlePool, Function.update_idem, hwrap]
  have hcalls : ∀ t, ((idlePool .top 1).setReady 1 [7]).call t = .idle := fun _ => rfl
  exact no_stranded_actor ((idlePool .top 1).setReady 1 [7])
    (Machine.reach_of_execOk _ (fun _ _ => of_decide_eq_true) (.init init_idlePool) hsent) rfl
    (fun t => by simp [hcalls]) ⟨0, by decide⟩ ⟨1, by decide⟩

/-! ## A counter that overflows -/

/-- It takes the actor while it waits. -/
def help : List (Nat × Action) := [(1, .help), (1, .helpPop), (1, .helpPop)]

/-- The worker looks at the bands. -/
def round : List (Nat × Action) := [(0, .scan), (0, .scan), (0, .scan)]

/-- It ends its turn, finds nothing in nine rounds and parks. -/
def park : List (Nat × Action) := (0, .endTurn) :: (List.replicate 9 round).flatten

section Runs

variable {pc : WorkerPc} {count : Int}

theorem exec_send : machine.exec (idlePool pc count) send =
    some ((idlePool pc (wrap (count + 1))).setReady 1 [7]) := by
  have hexec : machine.exec (idlePool pc count) send =
      some ((((((idlePool pc count).setCall 1 (.enqueuing 1 7)).setReady 1 [7]).setCall 1
        .pushed).setCall 1 .releasing).releasePermit.setCall 1 .idle) := rfl
  rw [hexec]
  simp [Pool.setCall, Pool.setReady, Pool.releasePermit, idlePool, Function.update_idem]

theorem exec_help : machine.exec ((idlePool pc count).setReady 1 [7]) help =
    some (idlePool pc count) := by
  have hexec : machine.exec ((idlePool pc count).setReady 1 [7]) help =
      some ((((((idlePool pc count).setReady 1 [7]).setCall 1 (.helping 0)).setCall 1
        (.helping 1)).setReady 1 []).setCall 1 .idle) := rfl
  rw [hexec]
  simp [Pool.setCall, Pool.setReady, idlePool, Function.update_idem]

theorem setWorker_idlePool {pc' : WorkerPc} :
    (idlePool pc count).setWorker 0 pc' = idlePool pc' count := by
  unfold Pool.setWorker idlePool
  congr 1
  funext t
  by_cases ht : t = 0
  · simp [ht]
  · simp [ht]

theorem step_scan {round : Nat} {band : Fin 3} :
    machine.step (idlePool (.scan round band) count) (0, .scan) =
      some (idlePool (Pool.nextScan round band) count) :=
  congrArg some setWorker_idlePool

theorem step_endTurn :
    machine.step (idlePool (.turn false) count) (0, .endTurn) =
      some (idlePool (.scan 0 0) count) :=
  congrArg some setWorker_idlePool

theorem exec_scan {r : Nat} {band : Fin 3} {rest : List (Nat × Action)} :
    machine.exec (idlePool (.scan r band) count) ((0, .scan) :: rest) =
      machine.exec (idlePool (Pool.nextScan r band) count) rest := by
  rw [Machine.exec, step_scan, Option.bind_some]

theorem exec_round {r : Nat} {rest : List (Nat × Action)} :
    machine.exec (idlePool (.scan r 0) count) (round ++ rest) =
      machine.exec (idlePool (if r < 8 then .scan (r + 1) 0 else .acquire) count) rest := by
  have h0 : Pool.nextScan r 0 = .scan r 1 := rfl
  have h1 : Pool.nextScan r 1 = .scan r 2 := rfl
  have hround : round ++ rest = (0, .scan) :: (0, .scan) :: (0, .scan) :: rest := rfl
  rw [hround, exec_scan, h0, exec_scan, h1, exec_scan]
  rfl

theorem exec_rounds {n r : Nat} (hr : r + n = 8) :
    machine.exec (idlePool (.scan r 0) count) (List.replicate (n + 1) round).flatten =
      some (idlePool .acquire count) := by
  induction n generalizing r with
  | zero =>
      have hr' : ¬ r < 8 := by omega
      rw [List.replicate_one, List.flatten_cons, exec_round, if_neg hr']
      rfl
  | succ n ih =>
      have hr' : r < 8 := by omega
      rw [List.replicate_succ, List.flatten_cons, exec_round, if_pos hr']
      exact ih (by omega)

theorem exec_park : machine.exec (idlePool (.turn false) count) park =
    some (idlePool .acquire count) := by
  rw [park, Machine.exec, step_endTurn, Option.bind_some]
  exact exec_rounds (n := 8) rfl

/-- The worker takes the actor. -/
theorem exec_take : machine.exec ((idlePool (.scan 0 0) count).setReady 1 [7])
    [(0, .scan), (0, .scan)] = some (idlePool (.turn false) count) := by
  have hexec : machine.exec ((idlePool (.scan 0 0) count).setReady 1 [7])
      [(0, .scan), (0, .scan)] =
      some (((((idlePool (.scan 0 0) count).setReady 1 [7]).setWorker 0
        (.scan 0 1)).setReady 1 []).setWorker 0 (.turn false)) := rfl
  have hworker : Function.update (idlePool (.scan 0 0) count).worker 0 (some (.turn false)) =
      (idlePool (.turn false) count).worker := congrArg Pool.worker setWorker_idlePool
  rw [hexec]
  simp only [Pool.setReady, Pool.setWorker, Function.update_idem, hworker]
  simp [idlePool]

end Runs

theorem wrap_wrap {n : Int} : wrap (wrap n + 1) = wrap (n + 1) := by
  unfold wrap
  exact Int.bmod_add_bmod

/-- The worker is in a turn while the counter goes up. -/
theorem reachable_turn (n : Nat) : machine.Reachable (idlePool (.turn false) (wrap (n + 1))) := by
  induction n with
  | zero =>
      have htop : machine.Reachable (idlePool (.scan 0 0) 0) :=
        .step (0, .top) (.init init_idlePool) trivial (congrArg some setWorker_idlePool)
      exact Machine.reach_of_exec (Machine.reach_of_exec htop exec_send) exec_take
  | succ n ih =>
      have hnext := Machine.reach_of_exec (Machine.reach_of_exec ih exec_send) exec_help
      rwa [wrap_wrap] at hnext

/-- The state of the worker that parks with the counter at its minimum, and then an actor
is made ready. -/
def overflowed : Pool := (idlePool .acquire (1 - 2 ^ 31)).setReady 1 [7]

theorem reachable_overflowed : machine.Reachable overflowed := by
  have hfull := reachable_turn (2 ^ 31 - 1)
  have hmin : wrap ((2 ^ 31 - 1 : Nat) + 1) = - 2 ^ 31 := by decide
  have hnext : wrap (- 2 ^ 31 + 1) = 1 - 2 ^ 31 := by decide
  rw [hmin] at hfull
  have hsent := Machine.reach_of_exec (Machine.reach_of_exec hfull exec_park) exec_send
  rwa [hnext] at hsent

/-- The actor is ready, the worker is blocked, and there is no permit. -/
theorem stranded_actor : ¬ ∀ s : Pool, machine.Reachable s → s.paused = false →
    (∀ t, (∀ band actor, s.call t ≠ .enqueuing band actor) ∧ s.call t ≠ .pushed ∧
      s.call t ≠ .releasing ∧ ∀ i, s.call t ≠ .starting i) →
    (∃ t, s.worker t ≠ none) → (∃ band, s.ready band ≠ []) →
    (∃ t pc, s.worker t = some pc ∧ pc ≠ .acquire) ∨ 0 < s.count := by
  intro h
  have hidle : ∀ t, overflowed.call t = .idle := fun _ => rfl
  have hcalls : ∀ t, (∀ band actor, overflowed.call t ≠ .enqueuing band actor) ∧
      overflowed.call t ≠ .pushed ∧ overflowed.call t ≠ .releasing ∧
      ∀ i, overflowed.call t ≠ .starting i := fun t => by simp [hidle]
  rcases h overflowed reachable_overflowed rfl hcalls ⟨0, by decide⟩ ⟨1, by decide⟩ with
    ⟨t, pc, hpc, hne⟩ | hpos
  · by_cases ht : t = 0
    · rw [ht] at hpc
      exact hne (Option.some.inj hpc).symm
    · have hnone : overflowed.worker t = none := if_neg ht
      rw [hnone] at hpc
      cases hpc
  · exact absurd hpos (by decide)

end ProtoST.Runtime.WorkerPool

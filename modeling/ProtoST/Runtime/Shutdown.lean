import ProtoST.Lib.Census
import ProtoST.Runtime.WorkerPool

/-!
# The end of the runtime

`~STRuntime` of `runtime/STRuntime.cpp` with the workers of `workerLoop`, their two
sleeping places (`workerSem` and `pauseCV`), `stopProcessing` and `startProcessing`, and
the workers that `enterBlockingIO` starts.  Every access to a shared variable is one
step; between taking and giving back `pauseMutex` a worker makes three.  What a drain of
the ready stacks finds is left open, and so is what an actor calls in its turn, blocking
I/O included.  `Semaphore::acquire` is one step, taken when there is a permit.

## Main results

* `shutdown_reaches` — in every run in which `shutdown` is set while no worker sleeps on
  `pauseCV` or is about to, and no release finds the counter full, each worker that waits
  for a permit has one, and a worker asleep on `pauseCV` has a notification to come.
* `asleep_at_the_gate` — a runtime that ends while its pool is paused.
-/

namespace ProtoST.Runtime.Shutdown

open ProtoST.Lib
open ProtoST.Runtime.WorkerPool (wrap wrap_of_lt)

/-- What a thread calls, in an actor's turn or from the program. -/
inductive Call where
  | idle
  /-- `spawnWorker`, with a slot reserved. -/
  | creating
  /-- `newThread` has answered a thread, or none. -/
  | created (started : Bool)
  /-- `startProcessing`, before it takes `pauseMutex`. -/
  | starting
  /-- Before `notify_all`. -/
  | notifying
  /-- At a turn of its loop. -/
  | releasing (i : Nat)
  deriving DecidableEq, Repr

/-- The loops of `workerLoop` that drain. -/
inductive Drain where
  | first
  /-- One of the 8 spinning rounds. -/
  | spin (round : Nat)
  /-- After `shutdown` was read. -/
  | final
  deriving DecidableEq, Repr

/-- Where a thread is in `workerLoop`. -/
inductive Pc where
  /-- A thread that is no worker. -/
  | program
  /-- At the top of the loop. -/
  | top
  /-- It has found the pool paused. -/
  | paused
  /-- About to lock `pauseMutex`, at first or when it wakes. -/
  | locking
  /-- It holds `pauseMutex`, before the first half of the predicate. -/
  | testPaused
  | testShutdown
  /-- The predicate is false. -/
  | dozing
  /-- In `pauseCV.wait`, the mutex given back. -/
  | asleep
  | drain (d : Drain)
  /-- In the turn of an actor. -/
  | turn (d : Drain)
  /-- After the first drain, before `shutdown` is read. -/
  | check
  /-- In `workerSem.acquire()`. -/
  | acquire
  | exited
  deriving DecidableEq, Repr

structure Thread where
  pc : Pc
  call : Call
  deriving DecidableEq, Repr

/-- A thread that may call: one of the program's, or a worker in a turn. -/
def Thread.Free (th : Thread) : Prop :=
  th.call = .idle ∧ (th.pc = .program ∨ ∃ d, th.pc = .turn d)

instance (th : Thread) : Decidable th.Free :=
  match hpc : th.pc with
  | .program => decidable_of_iff (th.call = .idle) (by simp [Thread.Free, hpc])
  | .turn d => decidable_of_iff (th.call = .idle) (by simp [Thread.Free, hpc])
  | .top | .paused | .locking | .testPaused | .testShutdown | .dozing | .asleep | .drain _
  | .check | .acquire | .exited => isFalse (by simp [Thread.Free, hpc])

def Thread.worker (th : Thread) : Bool := th.pc ≠ .program

/-- The thread of a new worker. -/
def Thread.new : Thread := ⟨.top, .idle⟩

/-- A thread after `notify_all`. -/
def Thread.awake (th : Thread) : Thread :=
  if th.pc = .asleep then { th with pc := .locking } else th

/-- How far `~STRuntime` is. -/
inductive Destructor where
  | notBegun
  /-- It has found workers being created. -/
  | waiting
  /-- It has copied `workers`. -/
  | taken (pool : Nat)
  /-- It has released the permits, and joins. -/
  | released
  deriving DecidableEq, Repr

structure State where
  threads : List Thread
  /-- `processingPaused`. -/
  processingPaused : Bool
  shutdown : Bool
  /-- The counter of `workerSem`. -/
  count : Int
  /-- Who holds `pauseMutex`. -/
  pauseMutex : Option Nat
  /-- `workers.size()`. -/
  registered : Nat
  spawning : Nat
  destructor : Destructor
  deriving DecidableEq

inductive Action where
  /-- The next step in `workerLoop`; `found` is what a drain answers. -/
  | loop (found : Bool)
  /-- `pauseCV.wait` ends without a notification. -/
  | wake
  | endTurn
  /-- `enqueueReady` and `enqueueTask` release a permit. -/
  | release
  | stopProcessing
  | startProcessing
  | store
  | notifyAll
  | releaseLoop
  | spawnWorker
  | newThread (started : Bool)
  | register
  /-- The destructor sets `shutdown`, and takes the pool when nothing is being created. -/
  | shutdown
  /-- It releases a permit for each worker. -/
  | releaseAll
  deriving DecidableEq, Repr

/-! ## Steps -/

/-- After a drain that found an actor, or none. -/
def Drain.next (d : Drain) (found : Bool) : Pc :=
  if found then .turn d
  else match d with
    | .first => .check
    | .spin round => if round < 7 then .drain (.spin (round + 1)) else .acquire
    | .final => .exited

/-- After the turn of an actor. -/
def Drain.again : Drain → Pc
  | .spin _ => .top
  | d => .drain d

namespace State

/-- `release(permits)`. -/
def permits (s : State) (n : Nat) : State := { s with count := wrap (s.count + n) }

def setThread (s : State) (t : Nat) (th : Thread) : State :=
  { s with threads := s.threads.set t th }

/-- The steps of `workerLoop` that read shared variables. -/
def read (s : State) (found : Bool) : Pc → Option Pc
  | .top => some (if s.processingPaused then .paused else .drain .first)
  | .paused => some (if s.shutdown then .drain .first else .locking)
  | .testPaused => if s.processingPaused then some .testShutdown else none
  | .testShutdown => if s.shutdown then none else some .dozing
  | .drain d => some (d.next found)
  | .check => some (.drain (if s.shutdown then .final else .spin 0))
  | _ => none

/-- The steps of `workerLoop` that give back `pauseMutex`: the predicate is true, or the
wait begins. -/
def unlock (s : State) : Pc → Option Pc
  | .testPaused => if s.processingPaused then none else some (.drain .first)
  | .testShutdown => if s.shutdown then some (.drain .first) else none
  | .dozing => some .asleep
  | _ => none

/-- A step in `workerLoop`. -/
def loop (s : State) (t : Nat) (th : Thread) (found : Bool) : Option State :=
  match s.read found th.pc with
  | some pc => some (s.setThread t { th with pc := pc })
  | none =>
    match s.unlock th.pc with
    | some pc => some ({ s with pauseMutex := none }.setThread t { th with pc := pc })
    | none =>
      match th.pc with
      | .locking =>
          if s.pauseMutex = none then
            some ({ s with pauseMutex := some t }.setThread t { th with pc := .testPaused })
          else none
      | .acquire =>
          if 0 < s.count then
            some ({ s with count := s.count - 1 }.setThread t { th with pc := .top })
          else none
      | _ => none

/-- `notify_all`. -/
def notifyAll (s : State) : State := { s with threads := s.threads.map Thread.awake }

/-- A step of the thread `t` other than in `workerLoop`. -/
def callStep (s : State) (t : Nat) (th : Thread) : Action → Option State
  | .wake =>
      if th.pc = .asleep then some (s.setThread t { th with pc := .locking }) else none
  | .endTurn =>
      match th.pc, th.call with
      | .turn d, .idle => some (s.setThread t { th with pc := d.again })
      | _, _ => none
  | .release => if th.Free then some (s.permits 1) else none
  | .stopProcessing => if th.Free then some { s with processingPaused := true } else none
  | .startProcessing =>
      if th.Free then some (s.setThread t { th with call := .starting }) else none
  | .store =>
      if th.call = .starting ∧ s.pauseMutex = none then
        some ({ s with processingPaused := false }.setThread t { th with call := .notifying })
      else none
  | .notifyAll =>
      if th.call = .notifying then
        some (s.setThread t { th with call := .releasing 0 }).notifyAll
      else none
  | .releaseLoop =>
      match th.call with
      | .releasing i =>
          if i < s.registered then
            some ((s.permits 1).setThread t { th with call := .releasing (i + 1) })
          else some (s.setThread t { th with call := .idle })
      | _ => none
  | .spawnWorker =>
      match th.pc, th.call with
      | .turn _, .idle =>
          if s.shutdown then some s
          else some ({ s with spawning := s.spawning + 1 }.setThread t
            { th with call := .creating })
      | _, _ => none
  | .newThread started =>
      if th.call = .creating then
        let threads := if started then s.threads ++ [Thread.new] else s.threads
        some ({ s with threads := threads }.setThread t { th with call := .created started })
      else none
  | .register =>
      match th.call with
      | .created started =>
          let registered := if started then s.registered + 1 else s.registered
          some ({ s with registered := registered, spawning := s.spawning - 1 }.setThread t
            { th with call := .idle })
      | _ => none
  | _ => none

/-- One step, of the thread `a.1` or of the destructor. -/
def step (s : State) (a : Nat × Action) : Option State :=
  match a.2 with
  | .shutdown =>
      match s.destructor with
      | .notBegun | .waiting =>
          some { s with
            shutdown := true
            destructor := if s.spawning = 0 then .taken s.registered else .waiting }
      | _ => none
  | .releaseAll =>
      match s.destructor with
      | .taken 0 => some { s with destructor := .released }
      | .taken n => some { s.permits n with destructor := .released }
      | _ => none
  | .loop found =>
      match s.threads[a.1]? with
      | some th => if th.call = .idle then s.loop a.1 th found else none
      | none => none
  | action =>
      match s.threads[a.1]? with
      | some th => s.callStep a.1 th action
      | none => none

end State

/-- The constructor has started and registered its workers. -/
def machine : Machine State (Nat × Action) where
  init s := (∀ th ∈ s.threads, th.pc = .top ∨ th.pc = .program) ∧
    (∀ th ∈ s.threads, th.call = .idle) ∧
    s.processingPaused = false ∧ s.shutdown = false ∧ s.count = 0 ∧ s.pauseMutex = none ∧
    s.registered = s.threads.countP Thread.worker ∧ s.spawning = 0 ∧
    s.destructor = .notBegun
  step := State.step

/-! ## What the claim is about -/

/-- A `startProcessing` that has still to take `pauseMutex`. -/
def Call.willStore : Call → Bool
  | .starting => true
  | _ => false

/-- A `startProcessing` that has still to notify. -/
def Call.willNotify : Call → Bool
  | .starting | .notifying => true
  | _ => false

/-- Some thread is in such a call. -/
def State.Due (s : State) (p : Call → Bool) : Prop := ∃ th ∈ s.threads, p th.call = true

instance (s : State) (p : Call → Bool) : Decidable (s.Due p) :=
  inferInstanceAs (Decidable (∃ th ∈ s.threads, p th.call = true))

/-- Each worker that waits for a permit has one, and a worker asleep on `pauseCV` with its
predicate true has a notification to come. -/
def State.NoneLeft (s : State) : Prop :=
  (s.threads.countP fun th => th.pc = .acquire : Nat) ≤ s.count ∧
  ∀ th ∈ s.threads, th.pc = .asleep →
    s.processingPaused = false ∨ s.shutdown = true → s.Due Call.willNotify

/-- **The condition.**  When `shutdown` is set, a worker asleep on `pauseCV` has a
notification to come, and one that is about to sleep has one that comes after; and no
release finds the counter full. -/
def Timely (s : State) (a : Nat × Action) : Prop :=
  match a.2, s.threads[a.1]? with
  | .shutdown, _ => s.shutdown = false → ∀ th ∈ s.threads,
      (th.pc = .asleep → s.Due Call.willNotify) ∧ (th.pc = .dozing → s.Due Call.willStore)
  | .release, _ => s.count + 1 < 2 ^ 31
  | .releaseLoop, some ⟨_, .releasing i⟩ => i < s.registered → s.count + 1 < 2 ^ 31
  | .releaseAll, _ => s.count + s.registered < 2 ^ 31
  | _, _ => True

/-! ## The invariant -/

/-- A `spawnWorker` with a slot reserved. -/
def Call.reserved : Call → Bool
  | .creating | .created _ => true
  | _ => false

/-- Its new worker runs and is not yet registered. -/
def Call.started : Call → Bool
  | .created started => started
  | _ => false

def Thread.reserved (th : Thread) : Bool := th.call.reserved

def Thread.started (th : Thread) : Bool := th.call.started

/-- A worker that may take a permit though `shutdown` is set. -/
def Pc.late : Pc → Bool
  | .drain (.spin _) | .turn (.spin _) | .acquire => true
  | _ => false

/-- A worker that holds `pauseMutex`. -/
def Pc.holds : Pc → Bool
  | .testPaused | .testShutdown | .dozing => true
  | _ => false

def Thread.late (th : Thread) : Bool := th.pc.late

structure Counts (s : State) : Prop where
  spawning_eq : s.spawning = s.threads.countP Thread.reserved
  workers_eq : s.threads.countP Thread.worker =
    s.registered + s.threads.countP Thread.started

def Excl (s : State) : Prop :=
  ∀ (t : Nat) th, s.threads[t]? = some th → th.pc.holds = true → s.pauseMutex = some t

structure Permits (s : State) : Prop where
  count_nonneg : 0 ≤ s.count
  count_lt : s.count < 2 ^ 31
  begun : s.destructor ≠ .notBegun → s.shutdown = true
  taken : ∀ n, s.destructor = .taken n → s.spawning = 0 ∧ n = s.registered
  released : s.destructor = .released →
    s.spawning = 0 ∧ (s.threads.countP Thread.late : Nat) ≤ s.count

def Gate (s : State) : Prop :=
  s.shutdown = true → ∀ th ∈ s.threads,
    (th.pc = .asleep → s.Due Call.willNotify) ∧ (th.pc = .dozing → s.Due Call.willStore)

structure Inv (s : State) : Prop where
  counts : Counts s
  excl : Excl s
  permits : Permits s
  gate : Gate s

section Steps

variable {s s' : State} {t : Nat} {th : Thread} {pc : Pc} {call : Call}

/-! ### A thread changes -/

variable {new : Thread}

theorem Counts.setThread (h : Counts s) (hth : s.threads[t]? = some th)
    (hreserved : new.reserved = th.reserved) (hstarted : new.started = th.started)
    (hworker : new.worker = th.worker) : Counts (s.setThread t new) := by
  have h₁ := countP_set_add (b := new) Thread.reserved hth
  have h₂ := countP_set_add (b := new) Thread.started hth
  have h₃ := countP_set_add (b := new) Thread.worker hth
  have hspawning := h.spawning_eq
  have hworkers := h.workers_eq
  rw [hreserved] at h₁
  rw [hstarted] at h₂
  rw [hworker] at h₃
  constructor
  · show s.spawning = (s.threads.set t new).countP Thread.reserved
    omega
  · show (s.threads.set t new).countP Thread.worker =
      s.registered + (s.threads.set t new).countP Thread.started
    omega

theorem Excl.setThread (h : Excl s) (hth : s.threads[t]? = some th)
    (hholds : new.pc.holds = true → th.pc.holds = true) : Excl (s.setThread t new) := by
  intro u other hu hother
  have hset : (s.threads.set t new)[u]? = some other := hu
  by_cases hut : u = t
  · obtain ⟨ht, -⟩ := List.getElem?_eq_some_iff.mp hth
    rw [hut, List.getElem?_set_self ht] at hset
    obtain rfl := Option.some.inj hset
    rw [hut]
    exact h t th hth (hholds hother)
  · rw [List.getElem?_set_ne (fun h => hut h.symm)] at hset
    exact h u other hset hother

theorem Permits.setThread (h : Permits s) (hth : s.threads[t]? = some th)
    (hlate : s.shutdown = true → new.late = true → th.late = true) :
    Permits (s.setThread t new) where
  count_nonneg := h.count_nonneg
  count_lt := h.count_lt
  begun := h.begun
  taken := h.taken
  released hreleased := by
    obtain ⟨hspawning, hcount⟩ := h.released hreleased
    have hshutdown : s.shutdown = true := h.begun (hreleased ▸ Destructor.noConfusion)
    have hset := countP_set_add (b := new) Thread.late hth
    have hle : new.late.toNat ≤ th.late.toNat := by
      cases hnew : new.late with
      | false => exact Nat.zero_le _
      | true => rw [hlate hshutdown hnew]
    refine ⟨hspawning, ?_⟩
    show ((s.threads.set t new).countP Thread.late : Int) ≤ s.count
    omega

theorem Due.setThread {p : Call → Bool} (h : s.Due p) (hth : s.threads[t]? = some th)
    (hcall : p th.call = true → p new.call = true) :
    (s.setThread t new).Due p := by
  obtain ⟨other, hmem, hp⟩ := h
  obtain ⟨u, hu⟩ := List.getElem?_of_mem hmem
  by_cases hut : u = t
  · rw [hut, hth] at hu
    obtain rfl := Option.some.inj hu
    obtain ⟨ht, -⟩ := List.getElem?_eq_some_iff.mp hth
    exact ⟨new, List.mem_of_getElem? (List.getElem?_set_self ht), hcall hp⟩
  · refine ⟨other, ?_, hp⟩
    have hset : (s.threads.set t new)[u]? = some other := by
      rw [List.getElem?_set_ne (fun h => hut h.symm), hu]
    exact List.mem_of_getElem? hset

theorem Due.willNotify (h : s.Due Call.willStore) : s.Due Call.willNotify := by
  obtain ⟨th, hmem, hp⟩ := h
  refine ⟨th, hmem, ?_⟩
  cases hcall : th.call with
  | starting => rfl
  | idle | creating | created | notifying | releasing =>
    rw [hcall] at hp
    cases hp

theorem Gate.setThread (h : Gate s) (hth : s.threads[t]? = some th)
    (hasleep : s.shutdown = true → new.pc = .asleep → th.pc = .asleep ∨ th.pc = .dozing)
    (hdozing : s.shutdown = true → new.pc = .dozing → th.pc = .dozing)
    (hnotify : th.call.willNotify = true → new.call.willNotify = true)
    (hstore : (th.call.willStore = true → new.call.willStore = true) ∨
      ∀ th ∈ s.threads, th.pc ≠ .dozing) : Gate (s.setThread t new) := by
  intro hshutdown other hother
  have hgate := h hshutdown
  have hold : ∀ th ∈ s.threads, (th.pc = .asleep → (s.setThread t new).Due Call.willNotify) ∧
      (th.pc = .dozing → (s.setThread t new).Due Call.willStore) := by
    intro old hmem
    obtain ⟨hdue, hstarting⟩ := hgate old hmem
    refine ⟨fun hpc => Due.setThread (hdue hpc) hth hnotify, fun hpc => ?_⟩
    rcases hstore with hstore | hnone
    · exact Due.setThread (hstarting hpc) hth hstore
    · exact absurd hpc (hnone old hmem)
  have hmem := List.mem_of_getElem? hth
  rcases mem_set_cases hother with rfl | hother
  · refine ⟨fun hpc => ?_, fun hpc => (hold th hmem).2 (hdozing hshutdown hpc)⟩
    rcases hasleep hshutdown hpc with hpc | hpc
    · exact (hold th hmem).1 hpc
    · exact Due.setThread (Due.willNotify ((hgate th hmem).2 hpc)) hth hnotify
  · exact hold other hother

/-! ### In `workerLoop` -/

theorem next_spec (d : Drain) (found : Bool) :
    d.next found ≠ .program ∧ (d.next found).holds = false ∧ d.next found ≠ .asleep ∧
      d.next found ≠ .dozing ∧ ((d.next found).late = true → (Pc.drain d).late = true) := by
  unfold Drain.next
  cases found with
  | true => cases d <;> simp [Pc.holds, Pc.late]
  | false =>
    cases d with
    | spin round => by_cases hround : round < 7 <;> simp [hround, Pc.holds, Pc.late]
    | first | final => simp [Pc.holds, Pc.late]

/-- What a reading step of `workerLoop` does. -/
theorem read_spec {old : Pc} {found : Bool} (h : s.read found old = some pc) :
    old ≠ .program ∧ pc ≠ .program ∧ (pc.holds = true → old.holds = true) ∧ pc ≠ .asleep ∧
      (s.shutdown = true → (pc.late = true → old.late = true) ∧ pc ≠ .dozing) := by
  unfold State.read at h
  cases old with
  | top | paused | check =>
    cases h
    split <;> simp_all [Pc.holds, Pc.late]
  | testPaused | testShutdown =>
    dsimp only at h
    split at h <;> cases h
    simp_all [Pc.holds, Pc.late]
  | drain d =>
    cases h
    obtain ⟨hprogram, hholds, hasleep, hdozing, hlate⟩ := next_spec d found
    refine ⟨Pc.noConfusion, hprogram, fun hh => ?_, hasleep, fun _ => ⟨hlate, hdozing⟩⟩
    rw [hholds] at hh
    cases hh
  | program | locking | dozing | asleep | turn | acquire | exited => cases h

/-- What a step of `workerLoop` that gives back `pauseMutex` does. -/
theorem unlock_spec {old : Pc} (h : s.unlock old = some pc) :
    old.holds = true ∧ old ≠ .program ∧ pc ≠ .program ∧ pc.holds = false ∧ pc.late = false ∧
      pc ≠ .dozing ∧ (pc = .asleep → old = .dozing) := by
  unfold State.unlock at h
  cases old with
  | testPaused | testShutdown =>
    dsimp only at h
    split at h <;> cases h
    simp [Pc.holds, Pc.late]
  | dozing =>
    cases h
    simp [Pc.holds, Pc.late]
  | program | top | paused | locking | asleep | drain | turn | check | acquire | exited => cases h

/-- Nobody else holds the mutex that a thread gives back. -/
theorem Excl.unlock (h : Excl s) (hth : s.threads[t]? = some th) (hholds : th.pc.holds = true)
    (hpc : pc.holds = false) :
    Excl ({ s with pauseMutex := none }.setThread t { th with pc := pc }) := by
  intro u other hu hother
  have howner := h t th hth hholds
  have hset : (s.threads.set t { th with pc := pc })[u]? = some other := hu
  obtain ⟨ht, -⟩ := List.getElem?_eq_some_iff.mp hth
  by_cases hut : u = t
  · rw [hut, List.getElem?_set_self ht] at hset
    obtain rfl := Option.some.inj hset
    rw [hpc] at hother
    cases hother
  · rw [List.getElem?_set_ne (fun h => hut h.symm)] at hset
    have := h u other hset hother
    rw [howner] at this
    exact absurd (Option.some.inj this).symm hut

theorem Excl.lock (h : Excl s) (hfree : s.pauseMutex = none) :
    Excl ({ s with pauseMutex := some t }.setThread t { th with pc := pc }) := by
  intro u other hu hother
  have hset : (s.threads.set t { th with pc := pc })[u]? = some other := hu
  by_cases hut : u = t
  · rw [hut]
    rfl
  · rw [List.getElem?_set_ne (fun h => hut h.symm)] at hset
    have := h u other hset hother
    rw [hfree] at this
    cases this

/-- A worker takes a permit. -/
theorem Permits.acquire (h : Permits s) (hth : s.threads[t]? = some th)
    (hpc : th.pc = .acquire) (hpos : 0 < s.count) :
    Permits ({ s with count := s.count - 1 }.setThread t { th with pc := .top }) where
  count_nonneg := by
    show 0 ≤ s.count - 1
    omega
  count_lt := by
    have := h.count_lt
    show s.count - 1 < 2 ^ 31
    omega
  begun := h.begun
  taken := h.taken
  released hreleased := by
    obtain ⟨hspawning, hcount⟩ := h.released hreleased
    have hset := countP_set_add (b := { th with pc := .top }) Thread.late hth
    have hlate : th.late = true := by rw [Thread.late, hpc]; rfl
    have htop : Thread.late { th with pc := .top } = false := rfl
    rw [hlate, htop] at hset
    refine ⟨hspawning, ?_⟩
    show ((s.threads.set t { th with pc := .top }).countP Thread.late : Int) ≤ s.count - 1
    simp only [Bool.toNat_true, Bool.toNat_false] at hset
    omega

/-- A worker moves in `workerLoop`. -/
theorem Inv.loop {found : Bool} (h : Inv s) (hth : s.threads[t]? = some th)
    (hstep : s.loop t th found = some s') : Inv s' := by
  have hcounts : ∀ pc, th.pc ≠ .program → pc ≠ .program →
      Counts (s.setThread t { th with pc := pc }) := by
    intro pc hold hnew
    exact h.counts.setThread hth rfl rfl (by simp [Thread.worker, hold, hnew])
  unfold State.loop at hstep
  split at hstep
  · rename_i pc hread
    cases hstep
    obtain ⟨hold, hnew, hholds, hasleep, hdown⟩ := read_spec hread
    exact ⟨hcounts _ hold hnew, h.excl.setThread hth hholds,
      h.permits.setThread hth fun hshutdown => (hdown hshutdown).1,
      h.gate.setThread hth (fun _ hpc => absurd hpc hasleep)
        (fun hshutdown hpc => absurd hpc (hdown hshutdown).2) id (.inl id)⟩
  split at hstep
  · rename_i pc hunlock
    cases hstep
    obtain ⟨hholds, hold, hnew, hpc, hlate, hdozing, hasleep⟩ := unlock_spec hunlock
    have hpermits : Permits (s.setThread t { th with pc := pc }) := by
      refine h.permits.setThread hth fun _ hl => ?_
      rw [Thread.late, hlate] at hl
      cases hl
    have hgate : Gate (s.setThread t { th with pc := pc }) :=
      h.gate.setThread hth (fun _ hpc => .inr (hasleep hpc)) (fun _ hpc => absurd hpc hdozing)
        id (.inl id)
    exact ⟨⟨(hcounts _ hold hnew).1, (hcounts _ hold hnew).2⟩, h.excl.unlock hth hholds hpc,
      ⟨hpermits.1, hpermits.2, hpermits.3, hpermits.4, hpermits.5⟩, hgate⟩
  split at hstep
  · rename_i hpc
    split at hstep
    · rename_i hfree
      cases hstep
      have hcounts := hcounts .testPaused (by rw [hpc]; exact Pc.noConfusion) Pc.noConfusion
      have hpermits : Permits (s.setThread t { th with pc := .testPaused }) :=
        h.permits.setThread hth fun _ hl => by cases hl
      have hgate : Gate (s.setThread t { th with pc := .testPaused }) :=
        h.gate.setThread hth (fun _ hpc => by cases hpc) (fun _ hpc => by cases hpc) id (.inl id)
      exact ⟨⟨hcounts.1, hcounts.2⟩, h.excl.lock hfree,
        ⟨hpermits.1, hpermits.2, hpermits.3, hpermits.4, hpermits.5⟩, hgate⟩
    · cases hstep
  · rename_i hpc
    split at hstep
    · rename_i hpos
      cases hstep
      have hcounts := hcounts .top (by rw [hpc]; exact Pc.noConfusion) Pc.noConfusion
      have hexcl : Excl (s.setThread t { th with pc := .top }) :=
        h.excl.setThread hth fun hh => by cases hh
      have hgate : Gate (s.setThread t { th with pc := .top }) :=
        h.gate.setThread hth (fun _ hpc => by cases hpc) (fun _ hpc => by cases hpc) id (.inl id)
      exact ⟨⟨hcounts.1, hcounts.2⟩, hexcl, h.permits.acquire hth hpc hpos, hgate⟩
    · cases hstep
  · cases hstep

/-! ### In calls -/

/-- A permit is released. -/
theorem Inv.permits_one (h : Inv s) (hroom : s.count + 1 < 2 ^ 31) : Inv (s.permits 1) := by
  have hnonneg := h.permits.count_nonneg
  have hcount : (s.permits 1).count = s.count + 1 := wrap_of_lt hnonneg (by omega)
  refine ⟨⟨h.counts.1, h.counts.2⟩, h.excl, ⟨?_, ?_, h.permits.begun, h.permits.taken, ?_⟩,
    h.gate⟩
  · rw [hcount]
    omega
  · rw [hcount]
    exact hroom
  · intro hreleased
    obtain ⟨hspawning, hle⟩ := h.permits.released hreleased
    rw [hcount]
    exact ⟨hspawning, by show (s.threads.countP Thread.late : Int) ≤ _; omega⟩

/-- A thread goes from one call to another; it starts no worker and forgets no
notification. -/
theorem Inv.setCall (h : Inv s) (hth : s.threads[t]? = some th)
    (hreserved : call.reserved = th.call.reserved) (hstarted : call.started = th.call.started)
    (hnotify : th.call.willNotify = true → call.willNotify = true)
    (hstore : th.call.willStore = true → call.willStore = true) :
    Inv (s.setThread t { th with call := call }) :=
  ⟨h.counts.setThread hth hreserved hstarted rfl, h.excl.setThread hth id,
    h.permits.setThread hth fun _ hl => hl,
    h.gate.setThread hth (fun _ hpc => .inl hpc) (fun _ hpc => hpc) hnotify (.inl hstore)⟩

/-- A worker that leaves a turn, or wakes. -/
theorem Inv.setPc (h : Inv s) (hth : s.threads[t]? = some th) (hold : th.pc ≠ .program)
    (hnew : pc ≠ .program ∧ pc.holds = false ∧ pc ≠ .asleep ∧ pc ≠ .dozing)
    (hlate : pc.late = true → th.pc.late = true) : Inv (s.setThread t { th with pc := pc }) := by
  obtain ⟨hprogram, hholds, hasleep, hdozing⟩ := hnew
  refine ⟨h.counts.setThread hth rfl rfl (by simp [Thread.worker, hold, hprogram]),
    h.excl.setThread hth fun hh => ?_, h.permits.setThread hth fun _ hl => hlate hl,
    h.gate.setThread hth (fun _ hpc => absurd hpc hasleep) (fun _ hpc => absurd hpc hdozing) id
      (.inl id)⟩
  rw [hholds] at hh
  cases hh

/-- `startProcessing` has the mutex: nobody is about to sleep. -/
theorem Inv.store (h : Inv s) (hth : s.threads[t]? = some th) (hcall : th.call = .starting)
    (hfree : s.pauseMutex = none) :
    Inv ({ s with processingPaused := false }.setThread t { th with call := .notifying }) := by
  have hcounts : Counts (s.setThread t { th with call := .notifying }) :=
    h.counts.setThread hth (congrArg Call.reserved hcall).symm
      (congrArg Call.started hcall).symm rfl
  have hexcl : Excl (s.setThread t { th with call := .notifying }) := h.excl.setThread hth id
  have hpermits : Permits (s.setThread t { th with call := .notifying }) :=
    h.permits.setThread hth fun _ hl => hl
  have hnone : ∀ th ∈ s.threads, th.pc ≠ .dozing := by
    intro other hmem hpc
    obtain ⟨u, hu⟩ := List.getElem?_of_mem hmem
    have := h.excl u other hu (by rw [hpc]; rfl)
    rw [hfree] at this
    cases this
  have hgate : Gate (s.setThread t { th with call := .notifying }) :=
    h.gate.setThread hth (fun _ hpc => .inl hpc) (fun _ hpc => hpc) (fun _ => rfl) (.inr hnone)
  exact ⟨⟨hcounts.1, hcounts.2⟩, hexcl,
    ⟨hpermits.1, hpermits.2, hpermits.3, hpermits.4, hpermits.5⟩, hgate⟩

theorem awake_cases (th : Thread) :
    th.awake = th ∧ th.pc ≠ .asleep ∨
      th.awake = { th with pc := .locking } ∧ th.pc = .asleep := by
  unfold Thread.awake
  by_cases hpc : th.pc = .asleep
  · rw [if_pos hpc]
    exact .inr ⟨rfl, hpc⟩
  · rw [if_neg hpc]
    exact .inl ⟨rfl, hpc⟩

theorem awake_call (th : Thread) : th.awake.call = th.call := by
  rcases awake_cases th with ⟨heq, -⟩ | ⟨heq, -⟩
  · rw [heq]
  · rw [heq]

/-- A property that `notify_all` does not change is had by as many threads. -/
theorem countP_notifyAll {p : Thread → Bool} (hp : ∀ th : Thread, p th.awake = p th) :
    s.notifyAll.threads.countP p = s.threads.countP p := by
  show (s.threads.map Thread.awake).countP p = _
  rw [List.countP_map]
  exact List.countP_congr fun th _ => by rw [Function.comp_apply, hp]

/-- The workers are notified after the mutex was given back. -/
theorem Inv.notifyAll (h : Counts s) (hexcl : Excl s) (hpermits : Permits s)
    (hdozing : s.shutdown = true → ∀ th ∈ s.threads, th.pc = .dozing →
      s.Due Call.willStore) : Inv s.notifyAll := by
  have hreserved : s.notifyAll.threads.countP Thread.reserved = _ := countP_notifyAll fun th =>
    congrArg Call.reserved (awake_call th)
  have hstarted : s.notifyAll.threads.countP Thread.started = _ := countP_notifyAll fun th =>
    congrArg Call.started (awake_call th)
  have hworker : s.notifyAll.threads.countP Thread.worker = _ := countP_notifyAll fun th => by
    rcases awake_cases th with ⟨heq, -⟩ | ⟨heq, hpc⟩
    · rw [heq]
    rw [heq]
    simp [Thread.worker, hpc]
  have hlate : s.notifyAll.threads.countP Thread.late = _ := countP_notifyAll fun th => by
    rcases awake_cases th with ⟨heq, -⟩ | ⟨heq, hpc⟩
    · rw [heq]
    rw [heq]
    simp [Thread.late, hpc, Pc.late]
  refine ⟨⟨?_, ?_⟩, ?_, ⟨hpermits.1, hpermits.2, hpermits.3, hpermits.4, ?_⟩, ?_⟩
  · rw [hreserved]
    exact h.spawning_eq
  · rw [hworker, hstarted]
    exact h.workers_eq
  · intro u other hu hother
    have hmap : (s.threads.map Thread.awake)[u]? = some other := hu
    rw [List.getElem?_map] at hmap
    obtain ⟨th, hth, rfl⟩ := Option.map_eq_some_iff.mp hmap
    refine hexcl u th hth ?_
    rcases awake_cases th with ⟨heq, -⟩ | ⟨heq, -⟩ <;> rw [heq] at hother
    · exact hother
    · cases hother
  · rw [hlate]
    exact hpermits.released
  · intro hshutdown other hother
    obtain ⟨th, hmem, rfl⟩ := List.mem_map.mp hother
    rcases awake_cases th with ⟨heq, hpc⟩ | ⟨heq, -⟩
    · rw [heq]
      refine ⟨fun hasleep => absurd hasleep hpc, fun hd => ?_⟩
      obtain ⟨due, hdue, hp⟩ := hdozing hshutdown th hmem hd
      exact ⟨due.awake, List.mem_map_of_mem hdue, by rw [awake_call]; exact hp⟩
    · rw [heq]
      exact ⟨Pc.noConfusion, Pc.noConfusion⟩

/-! ### `spawnWorker` -/

/-- The counts after a thread has gone to the call `call`. -/
theorem countP_setCall (hth : s.threads[t]? = some th) (call : Call) :
    (s.threads.set t { th with call := call }).countP Thread.worker =
      s.threads.countP Thread.worker ∧
    (s.threads.set t { th with call := call }).countP Thread.reserved +
      th.call.reserved.toNat = s.threads.countP Thread.reserved + call.reserved.toNat ∧
    (s.threads.set t { th with call := call }).countP Thread.started +
      th.call.started.toNat = s.threads.countP Thread.started + call.started.toNat := by
  have hworker : _ + th.worker.toNat = _ + th.worker.toNat :=
    countP_set_add (b := { th with call := call }) Thread.worker hth
  exact ⟨Nat.add_right_cancel hworker,
    countP_set_add (b := { th with call := call }) Thread.reserved hth,
    countP_set_add (b := { th with call := call }) Thread.started hth⟩

/-- While a worker is being created the pool is not taken. -/
theorem Inv.not_taken (h : Inv s) (hth : s.threads[t]? = some th)
    (hreserved : th.call.reserved = true) :
    (∀ n, s.destructor ≠ .taken n) ∧ s.destructor ≠ .released := by
  have hpos : 0 < s.spawning := by
    rw [h.counts.spawning_eq]
    exact countP_pos_of_getElem? hth hreserved
  refine ⟨fun n htaken => ?_, fun hreleased => ?_⟩
  · have := (h.permits.taken n htaken).1
    omega
  · have := (h.permits.released hreleased).1
    omega

/-- `spawnWorker` reserves a slot. -/
theorem Inv.reserve (h : Inv s) (hth : s.threads[t]? = some th) (hcall : th.call = .idle)
    (hup : s.shutdown = false) :
    Inv ({ s with spawning := s.spawning + 1 }.setThread t { th with call := .creating }) := by
  have hbegun : s.destructor = .notBegun := by
    by_contra hne
    rw [h.permits.begun hne] at hup
    cases hup
  have hexcl : Excl (s.setThread t { th with call := .creating }) := h.excl.setThread hth id
  have hgate : Gate (s.setThread t { th with call := .creating }) := by
    intro hshutdown
    rw [show s.shutdown = true from hshutdown] at hup
    cases hup
  obtain ⟨hworker, hreserved, hstarted⟩ := countP_setCall hth .creating
  have hspawning := h.counts.spawning_eq
  have hworkers := h.counts.workers_eq
  rw [hcall] at hreserved hstarted
  refine ⟨⟨?_, ?_⟩, hexcl, ⟨h.permits.1, h.permits.2, h.permits.3, fun n htaken => ?_,
    fun hreleased => ?_⟩, hgate⟩
  · rw [hspawning]
    exact hreserved.symm
  · exact hworker.trans (hworkers.trans (congrArg (s.registered + ·) hstarted.symm))
  · rw [show s.destructor = .taken n from htaken] at hbegun
    cases hbegun
  · rw [show s.destructor = .released from hreleased] at hbegun
    cases hbegun

/-- A thread has been started for the slot. -/
theorem Inv.start (h : Inv s) (hth : s.threads[t]? = some th) (hcall : th.call = .creating) :
    Inv ({ s with threads := s.threads ++ [Thread.new] }.setThread t
      { th with call := .created true }) := by
  obtain ⟨htaken, hreleased⟩ := h.not_taken hth (by rw [hcall]; rfl)
  let grown : State := { s with threads := s.threads ++ [Thread.new] }
  obtain ⟨ht, -⟩ := List.getElem?_eq_some_iff.mp hth
  have hgrown : grown.threads[t]? = some th := by
    show (s.threads ++ [Thread.new])[t]? = _
    rw [List.getElem?_append_left ht]
    exact hth
  have hexcl : Excl grown := by
    intro u other hu hother
    have happend : (s.threads ++ [Thread.new])[u]? = some other := hu
    rcases Nat.lt_or_ge u s.threads.length with hlt | hge
    · rw [List.getElem?_append_left hlt] at happend
      exact h.excl u other happend hother
    · rw [List.getElem?_append_right hge] at happend
      have hmem := List.mem_of_getElem? happend
      rw [List.mem_singleton] at hmem
      rw [hmem] at hother
      cases hother
  have hgate : Gate grown := by
    intro hshutdown other hother
    have hdue : ∀ p, s.Due p → grown.Due p := by
      rintro p ⟨due, hmem, hp⟩
      exact ⟨due, List.mem_append_left _ hmem, hp⟩
    rcases List.mem_append.mp hother with hmem | hmem
    · obtain ⟨hasleep, hdozing⟩ := h.gate hshutdown other hmem
      exact ⟨fun hpc => hdue _ (hasleep hpc), fun hpc => hdue _ (hdozing hpc)⟩
    · rw [List.mem_singleton] at hmem
      rw [hmem]
      exact ⟨Pc.noConfusion, Pc.noConfusion⟩
  obtain ⟨hworker, hreserved, hstarted⟩ := countP_setCall hgrown (.created true)
  have hcount : ∀ p : Thread → Bool, grown.threads.countP p =
      s.threads.countP p + [Thread.new].countP p := fun _ => List.countP_append
  have hspawning := h.counts.spawning_eq
  have hworkers := h.counts.workers_eq
  rw [hcount, hcall] at hreserved hstarted
  rw [hcount] at hworker
  refine ⟨⟨?_, ?_⟩, hexcl.setThread hgrown id, ⟨h.permits.1, h.permits.2, h.permits.3,
    fun n hn => absurd hn (htaken n), fun hr => absurd hr hreleased⟩,
    hgate.setThread hgrown (fun _ hpc => .inl hpc) (fun _ hpc => hpc)
      (fun hn => by rw [hcall] at hn; cases hn) (.inl fun hs => by rw [hcall] at hs; cases hs)⟩
  · exact hspawning.trans (Nat.add_right_cancel hreserved).symm
  · refine hworker.trans ?_
    rw [hworkers, Nat.add_assoc]
    exact congrArg (s.registered + ·) hstarted.symm

/-- The slot of a worker that was created, or not, is given back. -/
theorem Inv.register (h : Inv s) {started : Bool} (hth : s.threads[t]? = some th)
    (hcall : th.call = .created started) :
    Inv ({ s with
      registered := if started then s.registered + 1 else s.registered
      spawning := s.spawning - 1 }.setThread t { th with call := .idle }) := by
  have hres : th.call.reserved = true := by rw [hcall]; rfl
  have hpos := countP_pos_of_getElem? (p := Thread.reserved) hth hres
  obtain ⟨htaken, hreleased⟩ := h.not_taken hth hres
  have hexcl : Excl (s.setThread t { th with call := .idle }) := h.excl.setThread hth id
  have hgate : Gate (s.setThread t { th with call := .idle }) :=
    h.gate.setThread hth (fun _ hpc => .inl hpc) (fun _ hpc => hpc)
      (fun hn => by rw [hcall] at hn; cases hn) (.inl fun hs => by rw [hcall] at hs; cases hs)
  obtain ⟨hworker, hreserved, hstarted⟩ := countP_setCall hth .idle
  have hspawning := h.counts.spawning_eq
  have hworkers := h.counts.workers_eq
  rw [hcall] at hreserved hstarted
  refine ⟨⟨?_, ?_⟩, hexcl, ⟨h.permits.1, h.permits.2, h.permits.3,
    fun n hn => absurd hn (htaken n), fun hr => absurd hr hreleased⟩, hgate⟩
  · show s.spawning - 1 = (s.threads.set t { th with call := .idle }).countP Thread.reserved
    have hless : _ + 1 = s.threads.countP Thread.reserved := hreserved
    omega
  · show (s.threads.set t { th with call := .idle }).countP Thread.worker =
      (if started then s.registered + 1 else s.registered) +
        (s.threads.set t { th with call := .idle }).countP Thread.started
    cases started with
    | false =>
      have hsame : (s.threads.set t { th with call := .idle }).countP Thread.started =
          s.threads.countP Thread.started := hstarted
      rw [hworker, hworkers, hsame]
      rfl
    | true =>
      have hless : _ + 1 = s.threads.countP Thread.started := hstarted
      rw [if_pos rfl]
      omega

/-- A step of a thread keeps the invariant. -/
theorem Inv.callStep {a : Action} (h : Inv s) (hth : s.threads[t]? = some th)
    (hok : Timely s (t, a)) (hstep : s.callStep t th a = some s') : Inv s' := by
  cases a with
  | wake =>
    obtain ⟨hpc, rfl⟩ := guarded hstep
    exact h.setPc hth (by rw [hpc]; exact Pc.noConfusion)
      ⟨Pc.noConfusion, rfl, Pc.noConfusion, Pc.noConfusion⟩ fun hl => by cases hl
  | endTurn =>
    simp only [State.callStep] at hstep
    split at hstep
    · rename_i d hpc hcall
      cases hstep
      refine h.setPc hth (by rw [hpc]; exact Pc.noConfusion) ?_ ?_
      · cases d <;> simp [Drain.again, Pc.holds]
      · cases d <;> simp [Drain.again, Pc.late]
    · cases hstep
  | release =>
    obtain ⟨-, rfl⟩ := guarded hstep
    exact h.permits_one hok
  | stopProcessing =>
    obtain ⟨-, rfl⟩ := guarded hstep
    exact ⟨⟨h.counts.1, h.counts.2⟩, h.excl,
      ⟨h.permits.1, h.permits.2, h.permits.3, h.permits.4, h.permits.5⟩, h.gate⟩
  | startProcessing =>
    obtain ⟨hfree, rfl⟩ := guarded hstep
    exact h.setCall hth (by rw [hfree.1]; rfl) (by rw [hfree.1]; rfl) (fun _ => rfl) fun _ => rfl
  | store =>
    obtain ⟨⟨hcall, hfree⟩, rfl⟩ := guarded hstep
    exact h.store hth hcall hfree
  | notifyAll =>
    obtain ⟨hcall, rfl⟩ := guarded hstep
    refine .notifyAll (h.counts.setThread hth (by rw [Thread.reserved, Thread.reserved, hcall]; rfl)
      (by rw [Thread.started, Thread.started, hcall]; rfl) rfl) (h.excl.setThread hth id)
      (h.permits.setThread hth fun _ hl => hl) fun hshutdown other hother hpc => ?_
    refine Due.setThread ?_ hth fun hs => by rw [hcall] at hs; cases hs
    rcases mem_set_cases hother with rfl | hother
    · exact (h.gate hshutdown th (List.mem_of_getElem? hth)).2 hpc
    · exact (h.gate hshutdown other hother).2 hpc
  | releaseLoop =>
    simp only [State.callStep] at hstep
    split at hstep
    · rename_i i hcall
      split at hstep
      · rename_i hi
        cases hstep
        have hroom : s.count + 1 < 2 ^ 31 := by
          obtain ⟨pc, call⟩ := th
          obtain rfl : call = .releasing i := hcall
          unfold Timely at hok
          dsimp only at hok
          rw [hth] at hok
          exact hok hi
        exact (h.permits_one hroom).setCall hth (by rw [hcall]; rfl) (by rw [hcall]; rfl)
          (fun hn => by rw [hcall] at hn; cases hn) fun hs => by rw [hcall] at hs; cases hs
      · cases hstep
        exact h.setCall hth (by rw [hcall]; rfl) (by rw [hcall]; rfl)
          (fun hn => by rw [hcall] at hn; cases hn) fun hs => by rw [hcall] at hs; cases hs
    · cases hstep
  | spawnWorker =>
    simp only [State.callStep] at hstep
    split at hstep
    · rename_i d hpc hcall
      split at hstep
      · cases hstep
        exact h
      · rename_i hup
        cases hstep
        exact h.reserve hth hcall (by simpa using hup)
    · cases hstep
  | newThread started =>
    obtain ⟨hcall, rfl⟩ := guarded hstep
    cases started with
    | false =>
      exact h.setCall hth (by rw [hcall]; rfl) (by rw [hcall]; rfl)
        (fun hn => by rw [hcall] at hn; cases hn) fun hs => by rw [hcall] at hs; cases hs
    | true => exact h.start hth hcall
  | register =>
    simp only [State.callStep] at hstep
    split at hstep
    · rename_i started hcall
      cases hstep
      exact h.register hth hcall
    · cases hstep
  | loop | shutdown | releaseAll => cases hstep

/-! ### The destructor -/

/-- `shutdown` is set, and the pool is taken if no worker is being created. -/
theorem Inv.setShutdown (h : Inv s) (hok : Timely s (t, .shutdown)) :
    Inv { s with
      shutdown := true
      destructor := if s.spawning = 0 then .taken s.registered else .waiting } := by
  refine ⟨⟨h.counts.1, h.counts.2⟩, h.excl, ⟨h.permits.1, h.permits.2, fun _ => rfl, fun n hn => ?_,
    fun hr => ?_⟩, fun _ th hmem => ?_⟩
  · have htaken : (if s.spawning = 0 then Destructor.taken s.registered else .waiting) =
        .taken n := hn
    split at htaken
    · rename_i hzero
      cases htaken
      exact ⟨hzero, rfl⟩
    · cases htaken
  · have hreleased : (if s.spawning = 0 then Destructor.taken s.registered else .waiting) =
        .released := hr
    split at hreleased
    · cases hreleased
    · cases hreleased
  · cases hdown : s.shutdown with
    | false => exact hok hdown th hmem
    | true => exact h.gate hdown th hmem

/-- The workers that may still take a permit are registered. -/
theorem Inv.late_le (h : Inv s) (hspawning : s.spawning = 0) :
    s.threads.countP Thread.late ≤ s.registered := by
  have hlate : s.threads.countP Thread.late ≤ s.threads.countP Thread.worker :=
    List.countP_mono_left fun th _ hl => by
      cases hpc : th.pc with
      | program =>
        rw [Thread.late, hpc] at hl
        cases hl
      | _ => simp [Thread.worker, hpc]
  have hstarted : s.threads.countP Thread.started ≤ s.threads.countP Thread.reserved :=
    List.countP_mono_left fun th _ hs => by
      cases hcall : th.call with
      | created started => simp [Thread.reserved, hcall, Call.reserved]
      | _ =>
        rw [Thread.started, hcall] at hs
        cases hs
  have := h.counts.workers_eq
  have := h.counts.spawning_eq
  omega

/-- The destructor joins, with a permit for each worker. -/
theorem Inv.join (h : Inv s) {n : Nat} (hd : s.destructor = .taken n) {count : Int}
    (hcount : count = s.count + n) (hlt : count < 2 ^ 31) :
    Inv { s with count := count, destructor := .released } := by
  obtain ⟨hspawning, hn⟩ := h.permits.taken n hd
  have hnonneg := h.permits.count_nonneg
  have hlate := h.late_le hspawning
  refine ⟨⟨h.counts.1, h.counts.2⟩, h.excl, ⟨?_, hlt, fun _ => ?_, fun n hn => ?_,
    fun _ => ⟨hspawning, ?_⟩⟩, h.gate⟩
  · show 0 ≤ count
    omega
  · exact h.permits.begun (hd ▸ Destructor.noConfusion)
  · cases hn
  · show (s.threads.countP Thread.late : Int) ≤ count
    omega

/-- A step keeps the invariant. -/
theorem Inv.step {a : Action} (h : Inv s) (hok : Timely s (t, a))
    (hstep : s.step (t, a) = some s') : Inv s' := by
  unfold State.step at hstep
  dsimp only at hstep
  split at hstep
  · -- `shutdown`
    split at hstep
    · cases hstep
      exact h.setShutdown hok
    · cases hstep
      exact h.setShutdown hok
    · cases hstep
  · -- `releaseAll`
    split at hstep
    · rename_i hd
      cases hstep
      have hlt := h.permits.count_lt
      exact h.join hd (by simp) hlt
    · rename_i n _ hd
      cases hstep
      obtain ⟨-, hn⟩ := h.permits.taken n hd
      have hroom : s.count + s.registered < 2 ^ 31 := hok
      have hnonneg := h.permits.count_nonneg
      have hcount : wrap (s.count + n) = s.count + n := by
        unfold wrap
        rw [Int.bmod_eq_of_le (by omega) (by omega)]
      have hlt : wrap (s.count + n) < 2 ^ 31 := by omega
      exact h.join hd hcount hlt
    · cases hstep
  · split at hstep
    · rename_i th hth
      split at hstep
      · exact h.loop hth hstep
      · cases hstep
    · cases hstep
  · split at hstep
    · rename_i th hth
      exact h.callStep hth hok hstep
    · cases hstep

end Steps

theorem Inv.of_init {s : State} (h : machine.init s) : Inv s := by
  obtain ⟨hpc, hcall, -, hup, hcount, -, hregistered, hspawning, hd⟩ := h
  have hzero : ∀ p : Call → Bool, p .idle = false → s.threads.countP (fun th => p th.call) = 0 := by
    intro p hp
    refine List.countP_eq_zero.mpr fun th hmem => ?_
    rw [hcall th hmem, hp]
    exact Bool.false_ne_true
  refine ⟨⟨?_, ?_⟩, ?_, ⟨?_, ?_, ?_, ?_, ?_⟩, ?_⟩
  · rw [hspawning]
    exact (hzero Call.reserved rfl).symm
  · rw [hregistered]
    exact (congrArg (s.threads.countP Thread.worker + ·) (hzero Call.started rfl)).symm
  · intro t th hth hholds
    rcases hpc th (List.mem_of_getElem? hth) with h | h
    · rw [h] at hholds
      cases hholds
    · rw [h] at hholds
      cases hholds
  · exact Int.le_of_eq hcount.symm
  · rw [hcount]
    decide
  · exact fun hne => absurd hd hne
  · intro n hn
    rw [hd] at hn
    cases hn
  · intro hr
    rw [hd] at hr
    cases hr
  · intro hdown
    rw [hup] at hdown
    cases hdown

/-! ## Nobody is left -/

/-- **Shutdown reaches every worker.** -/
theorem shutdown_reaches (s : State) (h : machine.Reach Timely s)
    (hreleased : s.destructor = .released) : s.NoneLeft := by
  have hinv : Inv s := h.invariant (fun _ => .of_init)
    fun s a s' _ h hok hstep => h.step (t := a.1) (a := a.2) hok hstep
  obtain ⟨-, hcount⟩ := hinv.permits.released hreleased
  have hshutdown := hinv.permits.begun (hreleased ▸ Destructor.noConfusion)
  refine ⟨?_, fun th hmem hpc _ => (hinv.gate hshutdown th hmem).1 hpc⟩
  have hle : (s.threads.countP fun th => th.pc = .acquire) ≤ s.threads.countP Thread.late :=
    List.countP_mono_left fun th _ hl => by
      rw [Thread.late, of_decide_eq_true hl]
      rfl
  omega

/-! ## A pool that is paused at the end -/

/-- The program's thread 0, and the worker 1. -/
def oneWorker (pc : Pc) : State where
  threads := [⟨.program, .idle⟩, ⟨pc, .idle⟩]
  processingPaused := false
  shutdown := false
  count := 0
  pauseMutex := none
  registered := 1
  spawning := 0
  destructor := .notBegun

theorem init_oneWorker : machine.init (oneWorker .top) := by
  refine ⟨?_, ?_, ?_, ?_, ?_, ?_, ?_, ?_, ?_⟩ <;> decide

/-- What the runtime does at its end. -/
def endRun : List (Nat × Action) := [(0, .shutdown), (0, .releaseAll)]

/-- The program's thread 0, and two workers. -/
def twoWorkers : State :=
  { oneWorker .top with threads := [⟨.program, .idle⟩, Thread.new, Thread.new], registered := 2 }

theorem init_twoWorkers : machine.init twoWorkers := by
  refine ⟨?_, ?_, ?_, ?_, ?_, ?_, ?_, ?_, ?_⟩ <;> decide

/-- `Timely`, of a step that is no release by the program or by a worker. -/
def State.timely (s : State) : Nat × Action → Bool
  | (_, .shutdown) => s.threads.all fun th =>
      (th.pc != .asleep || decide (s.Due Call.willNotify)) &&
        (th.pc != .dozing || decide (s.Due Call.willStore))
  | (_, .releaseAll) => decide (s.count + s.registered < 2 ^ 31)
  | (_, .release) | (_, .releaseLoop) => false
  | _ => true

theorem State.timely_sound {s : State} {a : Nat × Action} (h : s.timely a = true) :
    Timely s a := by
  obtain ⟨t, a⟩ := a
  cases a with
  | shutdown =>
    intro _ th hmem
    have hth := List.all_eq_true.mp h th hmem
    simpa [State.timely, or_iff_not_imp_left] using hth
  | releaseAll =>
    have hroom : s.count + s.registered < 2 ^ 31 := of_decide_eq_true h
    exact hroom
  | release => cases h
  | releaseLoop => cases h
  | _ => trivial

/-- The worker 2 finds nothing to do and blocks.  The program pauses the pool, the worker 1 goes to
sleep at the gate, and the runtime ends while a `startProcessing` has still to notify. -/
def startingRun : List (Nat × Action) :=
  List.replicate 11 (2, .loop false) ++ (0, .stopProcessing) :: List.replicate 6 (1, .loop false) ++
    (0, .startProcessing) :: endRun

theorem ended_noneLeft : ∃ s : State, s.threads.map Thread.pc = [.program, .asleep, .acquire] ∧
    s.destructor = .released ∧ s.NoneLeft := by
  have h := Machine.reach_of_execOk (M := machine) State.timely (fun _ _ => State.timely_sound)
    (.init init_twoWorkers)
    (show machine.execOk State.timely twoWorkers startingRun = some _ from rfl)
  exact ⟨_, rfl, rfl, shutdown_reaches _ h rfl⟩

/-- The program pauses the pool, the worker goes to sleep at the gate, and the runtime
ends. -/
def pausedRun : List (Nat × Action) :=
  (0, .stopProcessing) :: List.replicate 6 (1, .loop false) ++ endRun

/-- The worker sleeps with its predicate true, and nobody notifies it. -/
theorem asleep_at_the_gate :
    ¬ ∀ s, machine.Reachable s → s.destructor = .released → s.NoneLeft := by
  intro h
  have hexec : machine.exec (oneWorker .top) pausedRun = some { oneWorker .asleep with
      processingPaused := true, shutdown := true, count := 1, destructor := .released } := by
    decide
  obtain ⟨-, hgate⟩ := h _ (Machine.reach_of_exec (.init init_oneWorker) hexec) rfl
  have hdue := hgate ⟨.asleep, .idle⟩ (by decide) rfl (.inr rfl)
  revert hdue
  decide

end ProtoST.Runtime.Shutdown

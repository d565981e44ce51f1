import Mathlib
import ProtoST.Lib.Transition

/-!
# Actors that wait for each other

The model of `detectWaitCycle` and of the waits around it
(`primitives/future_prims.cpp`, `runtime/STRuntime.cpp`,
`runtime/ExecutionEngine.cpp`): any number of actors that handle messages, wait
for the futures of others, and are resumed.

An actor that waits for a pending future first records it in `__waiting_on__`
and then walks: it reads the future's state, the actor that will settle it
(`__target_actor__`, fixed when the message is sent) and the record of that
actor, which is the next future, for up to 256 hops.  Every read is a step of its
own.  A walk that comes back to its own actor, or to one buried under it on the
same thread, reports a deadlock; any other walk ends and the actor suspends, or
helps other actors on its thread until its future is settled.

`below` is `t_buriedActors` of the thread an actor's turn runs on, and `guest`
the actor whose turn a helping actor runs.  The components `trail`, `stamp` and
`clock` record what a walk has passed and when records were made; no step reads
them.
-/

namespace ProtoST.Primitives.WaitCycle

open ProtoST.Lib

/-- What an actor is doing.  `msg` is the future of the message it handles
(`none` when its turn has no message), `g` the future it waits for. -/
inductive Pc (A F : Type) where
  | idle
  | running (msg : Option F)
  -- `detectWaitCycle`
  | recording (msg : Option F) (g : F)
  | loop (msg : Option F) (g : F) (hop : Nat) (fut : Option F)
  | readTarget (msg : Option F) (g : F) (hop : Nat) (fut : F)
  | readRecord (msg : Option F) (g : F) (hop : Nat) (fut : F) (target : A)
  | report (msg : Option F) (g : F) (fut : F)
  | walked (msg : Option F) (g : F)
  -- the snapshot of a yield; `waitHelping`
  | parked (msg : Option F) (g : F)
  | helping (msg : Option F) (g : F)
  deriving DecidableEq, Repr

/-- The actors, the futures' states and the records. -/
structure State (A F : Type) where
  pc : A → Pc A F
  settled : F → Bool
  /-- `__waiting_on__`. -/
  record : A → Option F
  below : A → List A
  guest : A → Option A
  trail : A → List (F × A)
  stamp : A → Nat
  clock : Nat

def initial {A F : Type} : State A F where
  pc := fun _ => .idle
  settled := fun _ => false
  record := fun _ => none
  below := fun _ => []
  guest := fun _ => none
  trail := fun _ => []
  stamp := fun _ => 0
  clock := 0

/-- What can happen. -/
inductive Action (A F : Type) where
  /-- `drainOne` takes an actor with a message, on a thread of its own or on the
  thread of the helping actor `host`. -/
  | start (a : A) (msg : Option F) (host : Option A)
  /-- `drainOne` resumes an actor whose future is settled. -/
  | resume (a : A) (host : Option A)
  /-- The actor's code evaluates `Future>>wait` on a pending future. -/
  | wait (a : A) (g : F)
  /-- The actor's message is over and its future settled. -/
  | reply (a : A)
  /-- The turn takes the next message. -/
  | next (a : A) (f : F)
  /-- The turn ends. -/
  | endTurn (a : A)
  /-- Someone sends `resolve:` or `rejectWith:`. -/
  | resolve (f : F)
  /-- The next operation of `detectWaitCycle`. -/
  | run (a : A)
  /-- `FutureYield` reaches `drainOne`. -/
  | yield (a : A)
  /-- `FutureYield` is swallowed by `invokeCallback`, or by a primitive between the
  engine and `drainOne`. -/
  | swallow (a : A)
  /-- `FutureYield` reaches `drainOne` from a `wait` that `drainOne` ran itself, the
  message to an actor that wraps a future: no engine saves a stack, and the actor is
  free for its next message. -/
  | bareYield (a : A)
  /-- `waitHelping` begins. -/
  | help (a : A)
  /-- `waitHelping` finds its future settled. -/
  | wake (a : A)
  /-- An exception leaves `waitHelping`. -/
  | abort (a : A)
  deriving DecidableEq, Repr

namespace State

variable {A F : Type} [DecidableEq A] [DecidableEq F]

def goto (s : State A F) (a : A) (pc : Pc A F) : State A F :=
  { s with pc := Function.update s.pc a pc }

def setRecord (s : State A F) (a : A) (r : Option F) : State A F :=
  { s with record := Function.update s.record a r }

def settle (s : State A F) (f : F) : State A F :=
  { s with settled := Function.update s.settled f true }

/-- Whether a turn can run on the thread of `host`. -/
def hosts (s : State A F) : Option A → Bool
  | none => true
  | some c =>
      match s.pc c with
      | .helping _ _ => s.guest c = none
      | _ => false

/-- The turn of `a` begins on the thread of `host`. -/
def sit (s : State A F) (a : A) : Option A → State A F
  | none => { s with below := Function.update s.below a [] }
  | some c =>
      { s with
        below := Function.update s.below a (c :: s.below c)
        guest := Function.update s.guest c (some a) }

/-- The turn of `a` ends. -/
def leave (s : State A F) (a : A) : State A F :=
  match s.below a with
  | [] => s
  | c :: _ =>
      { s with
        below := Function.update s.below a []
        guest := Function.update s.guest c none }

/-- The next operation of `detectWaitCycle`. -/
def walk (target : F → Option A) (s : State A F) (a : A) : Option (State A F) :=
  match s.pc a with
  | .recording msg g =>
      some { (s.setRecord a (some g)).goto a (.loop msg g 0 (some g)) with
        trail := Function.update s.trail a []
        stamp := Function.update s.stamp a s.clock
        clock := s.clock + 1 }
  | .loop msg g hop fut =>
      some <| s.goto a <|
        match fut with
        | some f =>
            if 256 ≤ hop then .walked msg g
            else if s.settled f then .walked msg g
            else .readTarget msg g hop f
        | none => .walked msg g
  | .readTarget msg g hop f =>
      some <| s.goto a <|
        match target f with
        | none => .walked msg g
        | some b =>
            if b = a ∨ b ∈ s.below a then .report msg g f
            else .readRecord msg g hop f b
  | .readRecord msg g hop f b =>
      some { s.goto a (.loop msg g (hop + 1) (s.record b)) with
        trail := Function.update s.trail a ((f, b) :: s.trail a) }
  | .report msg _ _ => some ((s.setRecord a none).goto a (.running msg))
  | _ => none

/-- One action. -/
def step (target : F → Option A) (s : State A F) :
    Action A F → Option (State A F)
  | .start a msg host =>
      if s.pc a = .idle ∧ s.hosts host ∧ ∀ f, msg = some f → target f = some a
      then some ((s.sit a host).goto a (.running msg)) else none
  | .resume a host =>
      match s.pc a with
      | .parked msg g =>
          if s.settled g ∧ s.hosts host then
            some (((s.sit a host).setRecord a none).goto a (.running msg))
          else none
      | _ => none
  | .wait a g =>
      match s.pc a with
      | .running msg =>
          if s.settled g then none else some (s.goto a (.recording msg g))
      | _ => none
  | .reply a =>
      match s.pc a with
      | .running (some f) => some ((s.settle f).goto a (.running none))
      | _ => none
  | .next a f =>
      if s.pc a = .running none ∧ target f = some a
      then some (s.goto a (.running (some f))) else none
  | .endTurn a =>
      if s.pc a = .running none then some ((s.leave a).goto a .idle) else none
  | .resolve f => some (s.settle f)
  | .run a => s.walk target a
  | .yield a =>
      match s.pc a with
      | .walked msg g =>
          some (((s.leave a).setRecord a (some g)).goto a (.parked msg g))
      | _ => none
  | .swallow a =>
      match s.pc a with
      | .walked msg g => some ((s.setRecord a (some g)).goto a (.running msg))
      | _ => none
  | .bareYield a =>
      match s.pc a with
      | .walked _ _ => some ((s.leave a).goto a .idle)
      | _ => none
  | .help a =>
      match s.pc a with
      | .walked msg g => some (s.goto a (.helping msg g))
      | _ => none
  | .wake a =>
      match s.pc a with
      | .helping msg g =>
          if s.settled g ∧ s.guest a = none then
            some ((s.setRecord a none).goto a (.running msg))
          else none
      | _ => none
  | .abort a =>
      match s.pc a with
      | .helping msg _ =>
          if s.guest a = none then
            some ((s.setRecord a none).goto a (.running msg))
          else none
      | _ => none

end State

/-- The actors, with `target f` the actor whose message has the future `f`. -/
def machine {A F : Type} [DecidableEq A] [DecidableEq F]
    (target : F → Option A) : Machine (State A F) (Action A F) where
  init s := s = initial
  step := State.step target

/-- The actor that acts. -/
def Action.actor {A F : Type} : Action A F → Option A
  | .start a _ _ | .resume a _ | .wait a _ | .reply a | .next a _ | .endTurn a
  | .run a | .yield a | .swallow a | .bareYield a | .help a | .wake a | .abort a =>
      some a
  | .resolve _ => none

/-! ## The cases of a step -/

section Cases

variable {A F : Type} [DecidableEq A] [DecidableEq F]
  {target : F → Option A} {s s' : State A F}

/-- `step` as a relation, one constructor for each way to take a step. -/
inductive Does (target : F → Option A) (s : State A F) :
    Action A F → State A F → Prop
  | start {a : A} {msg : Option F} {host : Option A} :
      s.pc a = .idle → s.hosts host → (∀ f, msg = some f → target f = some a) →
      Does target s (.start a msg host) ((s.sit a host).goto a (.running msg))
  | resume {a : A} {msg : Option F} {g : F} {host : Option A} :
      s.pc a = .parked msg g → s.settled g = true → s.hosts host →
      Does target s (.resume a host)
        (((s.sit a host).setRecord a none).goto a (.running msg))
  | wait {a : A} {msg : Option F} {g : F} :
      s.pc a = .running msg → s.settled g = false →
      Does target s (.wait a g) (s.goto a (.recording msg g))
  | reply {a : A} {f : F} :
      s.pc a = .running (some f) →
      Does target s (.reply a) ((s.settle f).goto a (.running none))
  | next {a : A} {f : F} :
      s.pc a = .running none → target f = some a →
      Does target s (.next a f) (s.goto a (.running (some f)))
  | endTurn {a : A} :
      s.pc a = .running none →
      Does target s (.endTurn a) ((s.leave a).goto a .idle)
  | resolve {f : F} : Does target s (.resolve f) (s.settle f)
  | record {a : A} {msg : Option F} {g : F} :
      s.pc a = .recording msg g →
      Does target s (.run a)
        { (s.setRecord a (some g)).goto a (.loop msg g 0 (some g)) with
          trail := Function.update s.trail a []
          stamp := Function.update s.stamp a s.clock
          clock := s.clock + 1 }
  | stop {a : A} {msg : Option F} {g : F} {hop : Nat} {fut : Option F} :
      s.pc a = .loop msg g hop fut →
      (fut = none ∨ 256 ≤ hop ∨ ∃ f, fut = some f ∧ s.settled f = true) →
      Does target s (.run a) (s.goto a (.walked msg g))
  | probe {a : A} {msg : Option F} {g f : F} {hop : Nat} :
      s.pc a = .loop msg g hop (some f) → hop < 256 → s.settled f = false →
      Does target s (.run a) (s.goto a (.readTarget msg g hop f))
  | foreign {a : A} {msg : Option F} {g f : F} {hop : Nat} :
      s.pc a = .readTarget msg g hop f → target f = none →
      Does target s (.run a) (s.goto a (.walked msg g))
  | close {a b : A} {msg : Option F} {g f : F} {hop : Nat} :
      s.pc a = .readTarget msg g hop f → target f = some b →
      (b = a ∨ b ∈ s.below a) →
      Does target s (.run a) (s.goto a (.report msg g f))
  | pass {a b : A} {msg : Option F} {g f : F} {hop : Nat} :
      s.pc a = .readTarget msg g hop f → target f = some b →
      ¬(b = a ∨ b ∈ s.below a) →
      Does target s (.run a) (s.goto a (.readRecord msg g hop f b))
  | follow {a b : A} {msg : Option F} {g f : F} {hop : Nat} :
      s.pc a = .readRecord msg g hop f b →
      Does target s (.run a)
        { s.goto a (.loop msg g (hop + 1) (s.record b)) with
          trail := Function.update s.trail a ((f, b) :: s.trail a) }
  | throw {a : A} {msg : Option F} {g f : F} :
      s.pc a = .report msg g f →
      Does target s (.run a) ((s.setRecord a none).goto a (.running msg))
  | yield {a : A} {msg : Option F} {g : F} :
      s.pc a = .walked msg g →
      Does target s (.yield a)
        (((s.leave a).setRecord a (some g)).goto a (.parked msg g))
  | swallow {a : A} {msg : Option F} {g : F} :
      s.pc a = .walked msg g →
      Does target s (.swallow a)
        ((s.setRecord a (some g)).goto a (.running msg))
  | bareYield {a : A} {msg : Option F} {g : F} :
      s.pc a = .walked msg g →
      Does target s (.bareYield a) ((s.leave a).goto a .idle)
  | help {a : A} {msg : Option F} {g : F} :
      s.pc a = .walked msg g →
      Does target s (.help a) (s.goto a (.helping msg g))
  | wake {a : A} {msg : Option F} {g : F} :
      s.pc a = .helping msg g → s.settled g = true → s.guest a = none →
      Does target s (.wake a) ((s.setRecord a none).goto a (.running msg))
  | abort {a : A} {msg : Option F} {g : F} :
      s.pc a = .helping msg g → s.guest a = none →
      Does target s (.abort a) ((s.setRecord a none).goto a (.running msg))

/-- The operation of `detectWaitCycle` that the program point asks for. -/
theorem does_of_walk {a : A} (h : s.walk target a = some s') :
    Does target s (.run a) s' := by
  cases hpc : s.pc a with
  | recording msg g =>
      simp only [State.walk, hpc, Option.some.injEq] at h
      subst h
      exact .record hpc
  | loop msg g hop fut =>
      simp only [State.walk, hpc, Option.some.injEq] at h
      subst h
      cases fut with
      | none => exact .stop hpc (.inl rfl)
      | some f =>
          by_cases hhop : 256 ≤ hop
          · simp only [if_pos hhop]
            exact .stop hpc (.inr (.inl hhop))
          · simp only [if_neg hhop]
            cases hset : s.settled f with
            | true => exact .stop hpc (.inr (.inr ⟨f, rfl, hset⟩))
            | false => exact .probe hpc (by omega) hset
  | readTarget msg g hop f =>
      simp only [State.walk, hpc, Option.some.injEq] at h
      subst h
      cases htarget : target f with
      | none => exact .foreign hpc htarget
      | some b =>
          by_cases hclose : b = a ∨ b ∈ s.below a
          · simp only [if_pos hclose]
            exact .close hpc htarget hclose
          · simp only [if_neg hclose]
            exact .pass hpc htarget hclose
  | readRecord msg g hop f b =>
      simp only [State.walk, hpc, Option.some.injEq] at h
      subst h
      exact .follow hpc
  | report msg g f =>
      simp only [State.walk, hpc, Option.some.injEq] at h
      subst h
      exact .throw hpc
  | _ => simp [State.walk, hpc] at h

/-- **The cases of a step.** -/
theorem does_of_step {act : Action A F} (h : s.step target act = some s') :
    Does target s act s' := by
  cases act with
  | run a => exact does_of_walk h
  | resolve f =>
      obtain rfl := Option.some.inj h
      exact .resolve
  | start a msg host =>
      obtain ⟨hif, rfl⟩ := guarded h
      exact .start hif.1 hif.2.1 hif.2.2
  | next a f =>
      obtain ⟨hif, rfl⟩ := guarded h
      exact .next hif.1 hif.2
  | endTurn a =>
      obtain ⟨hif, rfl⟩ := guarded h
      exact .endTurn hif
  | resume a host =>
      simp only [State.step] at h
      split at h
      · rename_i hpc
        obtain ⟨hif, rfl⟩ := guarded h
        exact .resume hpc hif.1 hif.2
      · cases h
  | wait a g =>
      simp only [State.step] at h
      split at h
      · rename_i hpc
        split at h
        · cases h
        · rename_i hif
          obtain rfl := Option.some.inj h
          exact .wait hpc (Bool.eq_false_iff.mpr hif)
      · cases h
  | reply a =>
      simp only [State.step] at h
      split at h
      · rename_i hpc
        obtain rfl := Option.some.inj h
        exact .reply hpc
      · cases h
  | yield a =>
      simp only [State.step] at h
      split at h
      · rename_i hpc
        obtain rfl := Option.some.inj h
        exact .yield hpc
      · cases h
  | swallow a =>
      simp only [State.step] at h
      split at h
      · rename_i hpc
        obtain rfl := Option.some.inj h
        exact .swallow hpc
      · cases h
  | bareYield a =>
      simp only [State.step] at h
      split at h
      · rename_i hpc
        obtain rfl := Option.some.inj h
        exact .bareYield hpc
      · cases h
  | help a =>
      simp only [State.step] at h
      split at h
      · rename_i hpc
        obtain rfl := Option.some.inj h
        exact .help hpc
      · cases h
  | wake a =>
      simp only [State.step] at h
      split at h
      · rename_i hpc
        obtain ⟨hif, rfl⟩ := guarded h
        exact .wake hpc hif.1 hif.2
      · cases h
  | abort a =>
      simp only [State.step] at h
      split at h
      · rename_i hpc
        obtain ⟨hif, rfl⟩ := guarded h
        exact .abort hpc hif
      · cases h

end Cases

/-! ## What one step changes -/

section Frame

variable {A F : Type} [DecidableEq A] {a w : A}

theorem State.goto_pc (s : State A F) (pc : Pc A F) :
    (s.goto a pc).pc w = if w = a then pc else s.pc w := by
  simp [State.goto, Function.update_apply]

@[simp] theorem State.sit_pc (s : State A F) (host : Option A) :
    (s.sit a host).pc = s.pc := by
  cases host <;> rfl

@[simp] theorem State.sit_settled (s : State A F) (host : Option A) :
    (s.sit a host).settled = s.settled := by
  cases host <;> rfl

@[simp] theorem State.sit_record (s : State A F) (host : Option A) :
    (s.sit a host).record = s.record := by
  cases host <;> rfl

@[simp] theorem State.sit_trail (s : State A F) (host : Option A) :
    (s.sit a host).trail = s.trail := by
  cases host <;> rfl

theorem State.sit_below (s : State A F) (host : Option A) (h : w ≠ a) :
    (s.sit a host).below w = s.below w := by
  cases host <;> simp [State.sit, h]

@[simp] theorem State.leave_pc (s : State A F) : (s.leave a).pc = s.pc := by
  unfold State.leave
  split <;> rfl

@[simp] theorem State.leave_settled (s : State A F) :
    (s.leave a).settled = s.settled := by
  unfold State.leave
  split <;> rfl

@[simp] theorem State.leave_record (s : State A F) :
    (s.leave a).record = s.record := by
  unfold State.leave
  split <;> rfl

@[simp] theorem State.sit_stamp (s : State A F) (host : Option A) :
    (s.sit a host).stamp = s.stamp := by
  cases host <;> rfl

@[simp] theorem State.sit_clock (s : State A F) (host : Option A) :
    (s.sit a host).clock = s.clock := by
  cases host <;> rfl

@[simp] theorem State.leave_stamp (s : State A F) :
    (s.leave a).stamp = s.stamp := by
  unfold State.leave
  split <;> rfl

@[simp] theorem State.leave_clock (s : State A F) :
    (s.leave a).clock = s.clock := by
  unfold State.leave
  split <;> rfl

@[simp] theorem State.leave_trail (s : State A F) :
    (s.leave a).trail = s.trail := by
  unfold State.leave
  split <;> rfl

theorem State.leave_below (s : State A F) (h : w ≠ a) :
    (s.leave a).below w = s.below w := by
  unfold State.leave
  split <;> simp [h]

end Frame

section Changes

variable {A F : Type} [DecidableEq A] [DecidableEq F]
  {target : F → Option A} {s s' : State A F} {act : Action A F}

/-- What a step leaves alone of an actor that does not act. -/
theorem other_step (hdoes : Does target s act s') {w : A}
    (hw : act.actor ≠ some w) :
    s'.pc w = s.pc w ∧ s'.trail w = s.trail w ∧ s'.below w = s.below w ∧
      s'.record w = s.record w ∧ s'.stamp w = s.stamp w := by
  have hne : ∀ {a : A}, some a ≠ some w → w ≠ a := by
    rintro a hsome rfl
    exact hsome rfl
  cases hdoes with
  | resolve => exact ⟨rfl, rfl, rfl, rfl, rfl⟩
  | start _ _ _ | resume _ _ _ =>
      have hwa := hne hw
      simp [State.goto, State.setRecord, hwa, State.sit_below s _ hwa]
  | endTurn _ | yield _ | bareYield _ =>
      have hwa := hne hw
      simp [State.goto, State.setRecord, hwa, State.leave_below s hwa]
  | _ =>
      have hwa := hne hw
      simp [State.goto, State.setRecord, State.settle, hwa]

/-- A future that is settled now was before, or this step settles it. -/
theorem settled_step (hdoes : Does target s act s') {f : F}
    (hpending : s.settled f = false) (hset : s'.settled f = true) :
    act = .resolve f ∨ ∃ a, act = .reply a ∧ s.pc a = .running (some f) := by
  cases hdoes with
  | @resolve φ =>
      by_cases hf : f = φ
      · exact .inl (by rw [hf])
      · rw [show (s.settle φ).settled f = s.settled f by
          simp [State.settle, hf], hpending] at hset
        cases hset
  | @reply a φ hpc =>
      by_cases hf : f = φ
      · exact .inr ⟨a, rfl, by rw [hf, hpc]⟩
      · rw [show ((s.settle φ).goto a (.running none)).settled f = s.settled f by
          simp [State.settle, State.goto, hf], hpending] at hset
        cases hset
  | start _ _ _ | resume _ _ _ | endTurn _ | yield _ | bareYield _ =>
      simp [State.goto, State.setRecord, hpending] at hset
  | _ =>
      exact absurd hset (by
        simp only [State.goto, State.setRecord, hpending]
        decide)

/-- A settled future stays settled. -/
theorem settled_mono (hdoes : Does target s act s') {f : F}
    (hset : s.settled f = true) : s'.settled f = true := by
  cases hdoes with
  | start _ _ _ | resume _ _ _ | endTurn _ | yield _ | bareYield _ =>
      simpa [State.goto, State.setRecord] using hset
  | reply _ | resolve =>
      simp [State.settle, State.goto, Function.update_apply, hset]
  | _ => exact hset

end Changes

/-! ## Waiting and the cycles of it -/

namespace Pc

variable {A F : Type}

/-- The future an actor awaits, from its record on. -/
def awaits : Pc A F → Option F
  | loop _ g _ _ | readTarget _ g _ _ | readRecord _ g _ _ _ | report _ g _
  | walked _ g | parked _ g | helping _ g => some g
  | _ => none

/-- The future of the message an actor handles. -/
def msg : Pc A F → Option F
  | idle => none
  | running m | recording m _ | loop m _ _ _ | readTarget m _ _ _
  | readRecord m _ _ _ _ | report m _ _ | walked m _ | parked m _
  | helping m _ => m

/-- The actor is in `waitHelping`. -/
def helps : Pc A F → Bool
  | helping .. => true
  | _ => false

/-- The walk is in progress. -/
def walking : Pc A F → Bool
  | loop .. | readTarget .. | readRecord .. | report .. => true
  | _ => false

/-- The future the walk has read as pending and not yet followed. -/
def probing : Pc A F → Option F
  | readTarget _ _ _ f | readRecord _ _ _ f _ => some f
  | _ => none

/-- The future on which a deadlock is reported. -/
def reports : Pc A F → Option F
  | report _ _ f => some f
  | _ => none

end Pc

section Cycles

variable {A F : Type} (target : F → Option A) (s : State A F)

/-- The pending future `f` is to be settled by an actor of `ends`, or by an actor
that awaits a pending future that leads there. -/
inductive Leads (ends : A → Prop) : F → Prop
  | close {f : F} {b : A} : s.settled f = false → target f = some b →
      ends b → Leads ends f
  | link {f f' : F} {b : A} : s.settled f = false → target f = some b →
      (s.pc b).awaits = some f' → Leads ends f' → Leads ends f

/-- `a` awaits a pending future that only `a`, or an actor buried under it, can
settle in the end. -/
def RealCycle (a : A) : Prop :=
  ∃ g, (s.pc a).awaits = some g ∧
    Leads target s (fun b => b = a ∨ b ∈ s.below a) g

end Cycles

end ProtoST.Primitives.WaitCycle

import ProtoST.Primitives.CallbacksAwake
import ProtoST.Primitives.CallbacksSuspensions

/-!
# Evaluation in the debugger

The debugger evaluates the condition of a breakpoint, an expression of a logpoint or a watch on the
stopped thread itself (`DebuggerRuntime.cpp`): above its engines, with its handlers disabled, and
with every exception caught.

## Main results

* `leaves_iff` — when an evaluation leaves the thread where it was.
* `undisturbed_iff_of_live` — what it leaves when the thread has stopped inside an engine.
* `suspends_stopped_actor` — a condition that waits, in the message of an actor without an engine.
-/

namespace ProtoST.Debugger

open ProtoST.Lib ProtoST.Primitives.Callbacks

variable {V F M K : Type}

structure FrameVariable (V : Type) where
  name : String
  value : V

/-- `isIdentifier`. -/
def isIdentifier (s : String) : Bool :=
  match s.toList with
  | [] => false
  | c :: cs =>
      (c.isAlpha || c == '_') && (c :: cs).all (fun c => c.isAlphanum || c == '_') &&
        !(["self", "super", "nil", "true", "false", "thisContext"].contains s)

def taken (bound : List (FrameVariable V)) (v : FrameVariable V) : Bool :=
  (bound.map FrameVariable.name).contains v.name

/-- Binds one of `extra`. -/
def bindExtra (bound : List (FrameVariable V)) (v : FrameVariable V) : List (FrameVariable V) :=
  if !isIdentifier v.name || taken bound v then bound else bound ++ [v]

/-- Binds a variable of the frame. -/
def bindVariable (bound : List (FrameVariable V)) (v : FrameVariable V) :
    List (FrameVariable V) :=
  if !isIdentifier v.name || decide (64 ≤ bound.length) || taken bound v then bound
  else bound ++ [v]

/-- What the expression may name: `extra`, and what `frameVariables` answers for a frame. -/
def bindings (extra : List (FrameVariable V)) (frame : Option (List (FrameVariable V))) :
    List (FrameVariable V) :=
  (frame.getD []).foldl bindVariable (extra.foldl bindExtra [])

/-- The expression as the body of a block. -/
def blockSource (names : List String) (expr : String) : String :=
  "[" ++ String.join (names.map fun n => " :" ++ n) ++ " | " ++ expr ++ "\n]."

/-- The exit of `runTopLevel`. -/
def topLevelExit : Exit V → Exit V
  | .unhandled exc _ _ true => .protoException exc
  | .nonLocalReturn .. => .stdException ("non-local return: the block's home method is not " ++
      "active on this thread (it has returned, or the block runs in another actor or thread)")
  | .unwindToHandler .. =>
      .stdException "exception unwind: no matching on:do: handler activation"
  | .retrySignal _ => .stdException "exception retry: no matching on:do: handler activation"
  | .nestingLimitUnwind _ =>
      .stdException "nesting limit unwind: no matching on:do: handler activation"
  | .resumeSignal .. => .stdException "exception resume: no active signal to resume"
  | .passSignal _ => .stdException "exception pass: no active signal to pass"
  | x => x

/-- The first line, without `error: `. -/
def messageAlone (text : String) : String :=
  let line := (text.takeWhile (· ≠ '\n')).toString
  if "error: ".isPrefixOf line then (line.drop 7).toString else line

section Evaluate

variable (P : Program V F M K)

/-- What `evaluateValue` answers for an exit: the value, or the text of an error. -/
def answer (shared : M) : Exit V → Except String V
  | .normal v => .ok v
  | .stdException what => .error what
  | .unhandled exc message trace original =>
      .error (messageAlone
        ((callbackReport P shared (.unhandled exc message trace original)).getD ""))
  | .protoException v =>
      .error (messageAlone ((callbackReport P shared (.protoException v)).getD ""))
  | _ => .error "the expression returned non-locally"

variable (runner : Task V F K → Evaluation V F M (Exit V))

/-- `runTopLevel`, of a module that `load` makes the first frame of. -/
def runTopLevel (load : M → Code F K × M) : Evaluation V F M (Exit V) := do
  let code ← Traced.read fun th => (load th.shared).1
  Traced.modify fun th => { th with shared := (load th.shared).2 }
  let x ← runner (.code code)
  pure (topLevelExit x)

/-- A block that the module answers is evaluated. -/
def applyBlock (values : List V) : Exit V → Evaluation V F M (Exit V)
  | .normal block => invokeBlock P runner block values
  | x => pure x

def answering (m : Evaluation V F M (Exit V)) : Evaluation V F M (Except String V) := do
  let x ← m
  Traced.read fun th => answer P th.shared x

variable (compileSource : String → Except String (M → Code F K × M))

/-- The expression on its own. -/
def evaluateAlone (expr : String) : Evaluation V F M (Except String V) :=
  match compileSource (expr ++ ".") with
  | .error err => pure (.error err)
  | .ok load => answering P (runTopLevel runner load)

/-- The expression with the variables bound. -/
def evaluateBound (expr : String) (bound : List (FrameVariable V)) :
    Evaluation V F M (Except String V) :=
  if bound.isEmpty then evaluateAlone P runner compileSource expr
  else
    match compileSource (blockSource (bound.map FrameVariable.name) expr) with
    | .ok load => answering P do
        let x ← runTopLevel runner load
        applyBlock P runner (bound.map FrameVariable.value) x
    | .error _ => evaluateAlone P runner compileSource expr

/-- `DebuggerRuntime::evaluateValue`. -/
def evaluateValue (expr : String) (frame : Option (List (FrameVariable V)))
    (extra : List (FrameVariable V)) : Evaluation V F M (Except String V) :=
  hidingHandlers (evaluateBound P runner compileSource expr (bindings extra frame))

end Evaluate

/-! ## What an evaluation leaves as it was -/

/-- The thread is where it was. -/
structure Undisturbed (th th' : Thread V F M) : Prop extends Restored th th' where
  currentActor : th'.currentActor = th.currentActor
  buriedActors : th'.buriedActors = th.buriedActors
  suspension : ∀ a, th.currentActor = some a → th'.suspensions a = th.suspensions a

/-- No object of the program has changed: no future and no other actor. -/
structure SameObjects (th th' : Thread V F M) : Prop where
  shared : th'.shared = th.shared
  futures : th'.futures = th.futures
  scheduled : th'.scheduled = th.scheduled
  others : ∀ a, th.currentActor ≠ some a → th'.suspensions a = th.suspensions a

/-- The program goes on from the thread as it was; a handler entry may get a later number. -/
theorem Undisturbed.resumes {th th' : Thread V F M} (h : Undisturbed th th')
    (hobjects : SameObjects th th') : { th' with handlers := th.handlers } = th := by
  have hsuspensions : th'.suspensions = th.suspensions := by
    funext a
    by_cases hcurrent : th.currentActor = some a
    · exact h.suspension a hcurrent
    · exact hobjects.others a hcurrent
  cases th
  cases th'
  cases hobjects.shared
  cases hobjects.futures
  cases hobjects.scheduled
  cases hsuspensions
  cases h.activeSignals
  cases h.engines
  cases h.slotCursor
  cases h.currentActor
  cases h.buriedActors
  rfl

section Parts

variable {ok : Exit V → Prop} {X : Evaluation V F M (Exit V) → Prop}
variable {L : {α : Type} → Evaluation V F M α → Prop} (hL : Rules ok X L)
variable {P : Program V F M K} {runner : Task V F K → Evaluation V F M (Exit V)}
variable (hrunner : ∀ t, X (runner t)) (compileSource : String → Except String (M → Code F K × M))
include hL hrunner

theorem runTopLevel_rules (load : M → Code F K × M) : X (runTopLevel runner load) := by
  refine hL.bindExit (hL.read fun _ _ => rfl) fun code => ?_
  refine hL.bindExit (hL.modify (fun _ => rfl) fun _ _ => rfl) fun _ => ?_
  refine hL.exitBind (hrunner _) fun x hx => ?_
  cases x with
  | futureYield f => exact hL.exit hx
  | unhandled exc message trace original => cases original <;> exact hL.ends rfl
  | _ => exact hL.ends rfl

omit hrunner in
theorem answering_rules {m : Evaluation V F M (Exit V)} (hm : X m) : L (answering P m) :=
  hL.bind (hL.forget hm) fun _ => hL.read fun _ _ => rfl

theorem evaluateAlone_rules (expr : String) : L (evaluateAlone P runner compileSource expr) := by
  unfold evaluateAlone
  split
  · exact hL.pure _
  · exact answering_rules hL (runTopLevel_rules hL hrunner _)

/-- What the parts of an evaluation have, it has. -/
theorem evaluateBound_rules (expr : String) (bound : List (FrameVariable V)) :
    L (evaluateBound P runner compileSource expr bound) := by
  unfold evaluateBound
  split
  · exact evaluateAlone_rules hL hrunner compileSource expr
  split
  · refine answering_rules hL ?_
    refine hL.exitBind (runTopLevel_rules hL hrunner _) fun x hx => ?_
    cases x with
    | normal block => exact hL.invokeBlock hrunner block _
    | _ => exact hL.exit hx
  · exact evaluateAlone_rules hL hrunner compileSource expr

variable {a : V}

omit hL hrunner in
/-- Hidden handlers make no difference to the records. -/
theorem accounted_hidingHandlers {α : Type} {m : Evaluation V F M α} (hm : Accounted a m) :
    Accounted a (hidingHandlers m) := by
  intro th x th' h
  obtain ⟨r, hr, hpair⟩ := Option.map_eq_some_iff.mp h
  cases hpair
  have hinner := hm _ _ _ hr
  exact ⟨⟨hinner.currentActor, hinner.buriedActors, hinner.aside, hinner.kept, hinner.grown⟩,
    hinner.untouched, hinner.waited⟩

end Parts

/-- No engine suspends the current actor, and if it waits on a pending future it waited on none
before. -/
def Unrecorded (th : Thread V F M) (events : List (Primitives.Callbacks.Event V M)) : Prop :=
  ∀ a, th.currentActor = some a →
    .suspends a ∉ events ∧ (.waits a ∈ events → (th.suspensions a).waitingOn = none)

theorem suspension_eq_iff {a : V} {th th' : Thread V F M}
    {l : List (Primitives.Callbacks.Event V M)}
    (h : Accounts a th l th') (hcurrent : th.currentActor = some a) :
    th'.suspensions a = th.suspensions a ↔
      .suspends a ∉ l ∧ (.waits a ∈ l → (th.suspensions a).waitingOn = none) := by
  constructor
  · intro hsame
    have hsuspends : .suspends a ∉ l := by
      intro hmem
      have hgrown := h.grown hcurrent hmem
      unfold Thread.held at hgrown
      rw [hsame] at hgrown
      exact Nat.lt_irrefl _ hgrown
    refine ⟨hsuspends, fun hwaits => ?_⟩
    rw [← hsame]
    exact h.waited hcurrent hsuspends hwaits
  · rintro ⟨hsuspends, hwaits⟩
    have hkept := h.kept hcurrent hsuspends
    have hwaitingOn : (th'.suspensions a).waitingOn = (th.suspensions a).waitingOn := by
      by_cases hmem : .waits a ∈ l
      · exact (h.waited hcurrent hsuspends hmem).trans (hwaits hmem).symm
      · exact h.untouched hcurrent hsuspends hmem
    cases hthen : th'.suspensions a
    cases hnow : th.suspensions a
    rw [hthen, hnow] at hkept hwaitingOn
    exact Suspension.mk.injEq .. ▸ ⟨hkept.1, hwaitingOn, hkept.2⟩

section Leaves

variable [DecidableEq V] (P : Program V F M K)
  (compileSource : String → Except String (M → Code F K × M)) (n : Nat) (expr : String)
  (frame : Option (List (FrameVariable V))) (extra : List (FrameVariable V))
  {th th' : Thread V F M} {result : Except String V}

theorem undisturbed_iff
    (h : (evaluateValue P (run P n) compileSource expr frame extra th).outcome =
      some (result, th')) :
    Undisturbed th th' ↔
      Unrecorded th (evaluateValue P (run P n) compileSource expr frame extra th).events := by
  have hrestored : Keeps Restored (evaluateValue P (run P n) compileSource expr frame extra) :=
    restored_hidingHandlers
      (evaluateBound_rules restored_rules.toRules (restored_run P n) compileSource expr _)
  have haccounted : ∀ a : V, Accounted a
      (evaluateValue P (run P n) compileSource expr frame extra) := fun a =>
    accounted_hidingHandlers (evaluateBound_rules (accounted_rules a).toRules (accounted_run P n a)
      compileSource expr _)
  constructor
  · intro hleft a hcurrent
    exact (suspension_eq_iff (haccounted a th result th' h) hcurrent).mp
      (hleft.suspension a hcurrent)
  · intro hunrecorded
    have hnil := haccounted P.nil th result th' h
    exact { hrestored th result th' h with
      currentActor := hnil.currentActor
      buriedActors := hnil.buriedActors
      suspension := fun a hcurrent =>
        (suspension_eq_iff (haccounted a th result th' h) hcurrent).mpr (hunrecorded a hcurrent) }

/-- **A stop inside a live engine suspends no actor**: the evaluation leaves the thread where it was
if and only if the current actor has no wait of its own under way if it waits. -/
theorem undisturbed_iff_of_live (hP : P.Unyielding) (hlive : th.engines ≠ [])
    (h : (evaluateValue P (run P n) compileSource expr frame extra th).outcome =
      some (result, th')) :
    (∀ a, .suspends a ∉ (evaluateValue P (run P n) compileSource expr frame extra th).events) ∧
      (Undisturbed th th' ↔ ∀ a, th.currentActor = some a →
        .waits a ∈ (evaluateValue P (run P n) compileSource expr frame extra th).events →
          (th.suspensions a).waitingOn = none) := by
  have hawake : Awake 1 (fun _ => True)
      (evaluateValue P (run P n) compileSource expr frame extra) :=
    awake_hidingHandlers (evaluateBound_rules (awake_rules 1) (awake_run hP n) compileSource expr _)
  have hsuspends := (hawake th result th' h (List.length_pos_iff.mpr hlive)).1
  refine ⟨hsuspends, (undisturbed_iff P compileSource n expr frame extra h).trans ?_⟩
  exact forall_congr' fun a => imp_congr_right fun _ => and_iff_right (hsuspends a)

end Leaves

/-- **An evaluation leaves the thread where it was**, and what the program goes on from as it was
when it has changed no object, if and only if the current actor does not suspend in it, and has no
wait of its own under way if it waits. -/
theorem leaves_iff [DecidableEq V] (P : Program V F M K)
    (compileSource : String → Except String (M → Code F K × M)) (n : Nat) (expr : String)
    (frame : Option (List (FrameVariable V))) (extra : List (FrameVariable V))
    {th th' : Thread V F M} {result : Except String V}
    (h : (evaluateValue P (run P n) compileSource expr frame extra th).outcome =
      some (result, th')) :
    (Undisturbed th th' ∧ (SameObjects th th' → { th' with handlers := th.handlers } = th)) ↔
      Unrecorded th (evaluateValue P (run P n) compileSource expr frame extra th).events := by
  rw [← undisturbed_iff P compileSource n expr frame extra h]
  exact and_iff_left_of_imp fun hleft => hleft.resumes

/-! ## A condition that waits -/

/-- The objects of the condition `Future new wait` of an exception filter, on `ex`. -/
inductive Thing where
  | nil | actor | ex | block | fut | value
  deriving DecidableEq, Repr

/-- Where the module, or its block, is. -/
inductive Place where
  | making | waiting
  | ended (x : Exit Thing)

def waitingProgram : Program Thing Unit Unit Place where
  nil := .nil
  exceptionProto := .nil
  evaluable _ v :=
    match v with
    | .block => .closure 1 fun _ => ⟨1, (), .waiting⟩
    | _ => .object fun _ => none
  next place _ view :=
    match place with
    | .making => (.finish (.normal .block), view)
    | .waiting => (.wait .fut [] (some (false, .value)) .ended, view)
    | .ended x => (.finish x, view)
  guard _ v := .one v
  hasParent _ _ _ := false
  isExceptionInstance _ _ := false
  resumableMarker _ _ := none
  unhandledIsError _ _ := false
  className _ _ := ""
  messageTextOf _ _ := ""
  messageText _ _ := none
  asString _ _ := none
  describeForeignValue _ _ := ""
  describeProtoException _ _ := ""
  describeActiveStack _ _ := ""
  newNestingLimitError m := (.nil, m)
  rejectionFor _ _ := .nil
  shallowCopy _ _ := none
  isForeignError _ _ := false
  describeRejection _ _ := ""

def makingModule (_ : String) : Except String (Unit → Code Unit Place × Unit) :=
  .ok fun m => (⟨0, (), .making⟩, m)

theorem no_handler (e : Scope (Handler Thing)) (he : e ∈ ([] : List (Scope (Handler Thing)))) :
    e.id < 1 := absurd he List.not_mem_nil

theorem in_order : (([] : List (Scope (Handler Thing))).map Scope.id).Pairwise (· > ·) :=
  List.Pairwise.nil

/-- A worker in the message of an actor, with the engines that run it. -/
def drainingThread (engines : List (Engine Unit)) : Thread Thing Unit Unit where
  shared := ()
  futures _ :=
    { settling := false, state := .pending, value := .nil, error := .nil,
      thenCbs := some [], catchCbs := some [], waiters := some [], targetActor := none }
  scheduled := []
  handlers := ⟨[], 1, in_order, no_handler⟩
  activeSignals := []
  engines := engines
  slotCursor := 0
  suspensions _ := ⟨none, none, none⟩
  currentActor := some .actor
  buriedActors := []

/-- `Future new wait`, as the condition of an exception filter. -/
def condition (engines : List (Engine Unit)) :
    Course (Primitives.Callbacks.Event Thing Unit) (Thread Thing Unit Unit) (Except String Thing) :=
  evaluateValue waitingProgram (run waitingProgram 9) makingModule "Future new wait" none
    [⟨"ex", .ex⟩] (drainingThread engines)

/-- In an engine the condition helps until the future is settled. -/
theorem leaves_engine :
    ∃ th', (condition [⟨(), [], 0⟩]).outcome = some (.ok .value, th') ∧
      Undisturbed (drainingThread [⟨(), [], 0⟩]) th' := by
  have hevents : (condition [⟨(), [], 0⟩]).events = [.waits .actor] := rfl
  have hleaves := leaves_iff waitingProgram makingModule 9 "Future new wait" none [⟨"ex", .ex⟩]
    (rfl : (condition [⟨(), [], 0⟩]).outcome = _)
  refine ⟨_, rfl, (hleaves.mpr ?_).1⟩
  intro a hcurrent
  cases hcurrent
  refine ⟨fun hsuspends => ?_, fun _ => rfl⟩
  have hmem : .suspends .actor ∈ (condition [⟨(), [], 0⟩]).events := hsuspends
  rw [hevents] at hmem
  cases List.mem_singleton.mp hmem

/-- **A condition that waits suspends the actor**, when the method of its message is a primitive:
the record then holds the frame of the condition's block. -/
theorem suspends_stopped_actor :
    ∃ th', (condition []).outcome = some (.error "the expression returned non-locally", th') ∧
      (th'.suspensions .actor).suspendedFrame = some [()] ∧
      (th'.suspensions .actor).waitingOn = some .fut ∧
      (th'.futures .fut).waiters = some [.actor] ∧ ¬ Undisturbed (drainingThread []) th' := by
  refine ⟨_, rfl, rfl, rfl, rfl, fun hleft => ?_⟩
  have hrecord := congrArg Suspension.suspendedFrame (hleft.suspension .actor rfl)
  cases hrecord

end ProtoST.Debugger

import ProtoST.Runtime.Dispatch

/-!
# Class-side methods and instances

A class-side method is installed on the class itself, where the lookup for an
instance finds it too.  The `SEND` handler hides it from an instance; `SEND_CALL`,
`sendDynamic` and the turn of an actor do not, and neither does the lookup of
`doesNotUnderstand:`.

## Main results

* `class_side_isolated_iff` — a dispatch keeps a class-side method from an instance
  exactly when it does not take one of these ways to it.
* `class_side_reached` — `perform:`, a message to an actor, a call-form send and the
  fallback of a send, each with a class-side method that runs on an instance.
-/

namespace ProtoST.Runtime.Dispatch

variable {Obj : Type}

/-- The method that runs. -/
def Outcome.ran : Outcome Obj → Option Obj
  | .method attr _ _ _ _ => some attr
  | .enqueued _ _ | .block _ _ _ _ _ | .primitive _ _ _ | .protoMethod _ _ _ _
  | .value _ | .error _ | .messageNotUnderstood _ _ _ | .runtimeError _ => none

/-- The failures of `sendDynamicFrom` and of what it runs. -/
def Failure.ofDynamic : Failure → Prop
  | .dynamicArity _ | .notUnderstood _ | .blockArity _ _ => True
  | .superOutside | .superUnresolved _ | .superNoSuperclass _ | .arity _ _ _
  | .valueAttribute _ | .tooManyArgs _ | .callToActor _ | .notCallForm _ _
  | .positional _ _ _ | .namedArg _ _ | .argCountMismatch _ | .primitiveNamed _
  | .notUnderstoodBy _ _ | .methodShape => False

/-- The error of an outcome. -/
def Outcome.failure : Outcome Obj → Option Failure
  | .error e | .runtimeError e => some e
  | .enqueued _ _ | .block _ _ _ _ _ | .method _ _ _ _ _ | .primitive _ _ _
  | .protoMethod _ _ _ _ | .value _ | .messageNotUnderstood _ _ _ => none

/-- The ways a message gets to a receiver. -/
inductive Path (Obj : Type) where
  | send (c : Send Obj)
  | sendCall (c : CallSend Obj)
  | perform (selector : String) (args : List Obj)
  /-- The receiver is wrapped by an actor. -/
  | actor (message : Message Obj)

namespace Space

variable (sp : Space Obj)

/-- What comes of a message. -/
def dispatch (recv : Obj) : Path Obj → Outcome Obj
  | .send c => sp.send c recv
  | .sendCall c => sp.sendCall c recv
  | .perform selector args => sp.performWithArguments recv selector args
  | .actor message => sp.drainMessage recv message

/-- What comes of a message the receiver does not understand. -/
def notUnderstood (recv : Obj) : Path Obj → Outcome Obj
  | .send c => sp.doesNotUnderstand recv c.selector c.args
  | .sendCall c => sp.doesNotUnderstand recv c.mangled []
  | .perform selector _ => .error (.notUnderstood selector)
  | .actor message =>
      .runtimeError (.notUnderstoodBy message.selector
        ((sp.getAttribute recv "__class_name__").bind sp.asString))

/-- The send is a lookup: its receiver is neither an actor nor a block that is
evaluated. -/
def LooksUp (c : Send Obj) (recv : Obj) : Prop :=
  (sp.isActor recv = false ∨ isActorLocalSelector c.selector = true) ∧
    (c.isValueFamily = false ∨ sp.bcPtr recv = none)

/-- The method a message finds. -/
def Finds (recv : Obj) : Path Obj → Obj → Prop
  | .send c, attr => sp.LooksUp c recv ∧ sp.lookup c recv = .ok (some attr)
  | .sendCall c, attr =>
      c.pos.length + c.named.length ≤ 16 ∧ sp.isActor recv = false ∧
        sp.getAttribute (sp.methodHolder recv) c.name = some attr
  | .perform selector _, attr =>
      sp.getAttribute (sp.methodHolder recv) selector = some attr
  | .actor message, attr => sp.getAttribute recv message.selector = some attr

/-- A user method that `__installClassMethod:as:` installed. -/
def ClassSideMethod (attr : Obj) : Prop :=
  sp.isClassSide attr = true ∧ (sp.bcPtr attr).isSome

/-- A class-side method runs. -/
def RunsClassSide (outcome : Outcome Obj) : Prop :=
  ∃ attr, outcome.ran = some attr ∧ sp.ClassSideMethod attr

/-- No class-side method runs, and one that is found is as good as none. -/
def Isolated (recv : Obj) (p : Path Obj) : Prop :=
  ¬ sp.RunsClassSide (sp.dispatch recv p) ∧
    ∀ attr, sp.Finds recv p attr → sp.ClassSideMethod attr →
      sp.dispatch recv p = sp.notUnderstood recv p

/-! ## When a dispatch is isolated -/

/-- The method a root has for a selector is class-side and takes the arguments. -/
def ClassSideAt (root : Obj) (selector : String) (argc : Nat) : Prop :=
  ∃ attr module, sp.getAttribute root selector = some attr ∧
    sp.bcPtr attr = some module ∧ module.argCount = argc + 1 ∧
    sp.isClassSide attr = true

/-- What is run for a message that is not understood is class-side. -/
def FallbackClassSide (recv : Obj) (selector : String) (argc : Nat) : Prop :=
  if sp.canSendToForeignException recv selector then
    sp.ClassSideAt sp.errorProto selector argc
  else sp.ClassSideAt (sp.methodHolder recv) "doesNotUnderstand:" 1

/-- The call-form send has nothing to call. -/
def CallMisses (c : CallSend Obj) (recv : Obj) : Prop :=
  c.pos.length + c.named.length ≤ 16 ∧ sp.isActor recv = false ∧
    ∀ attr, sp.getAttribute (sp.methodHolder recv) c.name = some attr →
      sp.bcPtr attr = none ∧ sp.isMethod attr = false ∧
        c.pos.length + c.named.length ≠ 0 ∧ sp.primIdx attr = none

/-- A send with nothing to run: no method, or one that is hidden. -/
def SendMisses (c : Send Obj) (recv : Obj) : Prop :=
  sp.LooksUp c recv ∧ ∃ found, sp.lookup c recv = .ok found ∧
    ∀ attr, found = some attr → sp.hidden recv attr = true

/-- **The condition.**  A send is on the safe side unless it falls back on a
class-side `doesNotUnderstand:`; the others look a class-side method up like any
other. -/
def Guarded (recv : Obj) : Path Obj → Prop
  | .send c =>
      sp.SendMisses c recv → ¬ sp.FallbackClassSide recv c.selector c.args.length
  | .sendCall c =>
      (∀ attr, sp.Finds recv (.sendCall c) attr → ¬ sp.ClassSideMethod attr) ∧
        (sp.CallMisses c recv → ¬ sp.FallbackClassSide recv c.mangled 0)
  | .perform selector args =>
      ∀ attr, sp.Finds recv (.perform selector args) attr → ¬ sp.ClassSideMethod attr
  | .actor message =>
      ∀ attr, sp.Finds recv (.actor message) attr → ¬ sp.ClassSideMethod attr

/-! ## What runs -/

variable {sp} {recv attr : Obj} {selector : String} {args : List Obj}

theorem not_runs_of_ran {outcome : Outcome Obj} (h : outcome.ran = none) :
    ¬ sp.RunsClassSide outcome := by
  rintro ⟨attr, hran, -⟩
  rw [h] at hran
  cases hran

variable {e : Failure}

/-- What fails runs nothing. -/
theorem ran_of_failure {outcome : Outcome Obj}
    (h : outcome.failure = some e) : outcome.ran = none := by
  cases outcome with
  | error | runtimeError => rfl
  | enqueued | block | method | primitive | protoMethod | value
  | messageNotUnderstood => cases h

variable {module : BytecodeModule}

theorem ran_runBlock :
    (sp.runBlock module recv args).ran = none := by
  unfold runBlock
  split <;> rfl

theorem ran_callPrimitive {index : Nat} :
    (sp.callPrimitive index recv args).ran = none := by
  unfold callPrimitive
  split
  · split
    · exact ran_runBlock
    · rfl
  · rfl

theorem runs_runMethod :
    sp.RunsClassSide (sp.runMethod attr module recv args) ↔ sp.ClassSideMethod attr := by
  simp [RunsClassSide, runMethod, Outcome.ran]

/-- What a dynamic send runs, however its failures are reported. -/
theorem runs_dynamic {root : Obj} {onThrow : Failure → Outcome Obj} {absent : Outcome Obj}
    (hthrow : ∀ e, (onThrow e).ran = none) (habsent : absent.ran = none) :
    sp.RunsClassSide
        (match sp.sendDynamicFrom recv root selector args with
        | some (.ok outcome) => outcome
        | some (.error e) => onThrow e
        | none => absent) ↔
      sp.ClassSideAt root selector args.length := by
  unfold sendDynamicFrom ClassSideAt
  cases hattr : sp.getAttribute root selector with
  | none => simpa using not_runs_of_ran habsent
  | some attr =>
      cases hbc : sp.bcPtr attr with
      | some module =>
          by_cases harity : module.argCount = args.length + 1
          · simp [harity, hbc, runs_runMethod, ClassSideMethod]
          · have hnot : ¬ sp.RunsClassSide _ :=
              not_runs_of_ran (hthrow (.dynamicArity selector))
            simpa [harity, hbc] using hnot
      | none =>
          cases hindex : sp.primIdx attr with
          | none => simpa [hbc, hindex] using not_runs_of_ran habsent
          | some index =>
              have hnot : ¬ sp.RunsClassSide (sp.callPrimitive index recv args) :=
                not_runs_of_ran ran_callPrimitive
              simpa [hbc, hindex] using hnot

/-- What runs for a message that is not understood. -/
theorem runs_doesNotUnderstand :
    sp.RunsClassSide (sp.doesNotUnderstand recv selector args) ↔
      sp.FallbackClassSide recv selector args.length := by
  unfold doesNotUnderstand FallbackClassSide
  split
  · exact runs_dynamic (fun _ => rfl) rfl
  · cases hbc : (sp.getAttribute (sp.methodHolder recv) "doesNotUnderstand:").bind
        sp.bcPtr with
    | some module => exact runs_dynamic (fun _ => rfl) rfl
    | none =>
        have hnone : ¬ sp.ClassSideAt (sp.methodHolder recv) "doesNotUnderstand:" 1 := by
          rintro ⟨attr, module, hattr, hmodule, -⟩
          simp [hattr, hmodule] at hbc
        simp only [hnone, iff_false]
        exact not_runs_of_ran rfl

theorem failure_callPrimitive {index : Nat}
    (h : (sp.callPrimitive index recv args).failure = some e) : e.ofDynamic := by
  unfold callPrimitive runBlock at h
  split at h
  · split at h
    · split at h
      · simp only [Outcome.failure, Option.some.injEq] at h
        subst h
        trivial
      · cases h
    · cases h
  · cases h

theorem failure_dynamic {root : Obj} {onThrow : Failure → Outcome Obj}
    {absent : Outcome Obj} (hthrow : ∀ e, (onThrow e).failure = some e)
    (habsent : ∀ e, absent.failure = some e → e.ofDynamic)
    (h : (match sp.sendDynamicFrom recv root selector args with
        | some (.ok outcome) => outcome
        | some (.error e) => onThrow e
        | none => absent).failure = some e) : e.ofDynamic := by
  unfold sendDynamicFrom at h
  cases hattr : sp.getAttribute root selector with
  | none =>
      simp only [hattr] at h
      exact habsent e h
  | some attr =>
      cases hbc : sp.bcPtr attr with
      | some module =>
          by_cases harity : module.argCount = args.length + 1
          · simp [hattr, hbc, harity, runMethod, Outcome.failure] at h
          · simp [hattr, hbc, harity, hthrow] at h
            subst h
            trivial
      | none =>
          cases hindex : sp.primIdx attr with
          | none =>
              simp only [hattr, hbc, hindex, Option.map_none] at h
              exact habsent e h
          | some index =>
              simp only [hattr, hbc, hindex, Option.map_some] at h
              exact failure_callPrimitive h

/-- The errors of a message that is not understood. -/
theorem failure_doesNotUnderstand (h : (sp.doesNotUnderstand recv selector args).failure = some e) :
    e.ofDynamic := by
  unfold doesNotUnderstand at h
  split at h
  · refine failure_dynamic (fun _ => rfl) ?_ h
    rintro _ ⟨⟩
    trivial
  · dsimp only at h
    cases hbc : (sp.getAttribute (sp.methodHolder recv) "doesNotUnderstand:").bind
        sp.bcPtr with
    | some module =>
        simp only [hbc] at h
        refine failure_dynamic (fun _ => rfl) ?_ h
        rintro _ ⟨⟩
    | none =>
        simp only [hbc] at h
        cases h

/-! ## The four ways -/

variable {c : Send Obj}

/-- A send that misses. -/
theorem send_of_misses (h : sp.SendMisses c recv) :
    sp.send c recv = sp.doesNotUnderstand recv c.selector c.args := by
  obtain ⟨⟨hactor, hblock⟩, found, hfound, hhidden⟩ := h
  have hblock' : (if c.isValueFamily then sp.bcPtr recv else none) = none := by
    rcases hblock with hvalue | hbc
    · simp [hvalue]
    · simp [hbc]
  have hactor' : (sp.isActor recv && !isActorLocalSelector c.selector) = false := by
    rcases hactor with hactor | hlocal
    · simp [hactor]
    · simp [hlocal]
  cases found with
  | none => simp [send, hactor', hblock', hfound]
  | some attr => simp [send, hactor', hblock', hfound, hhidden attr rfl]

/-- A method that the `SEND` handler runs on an instance is not class-side. -/
theorem not_runs_activate (hinst : sp.isClass recv = false)
    (hvisible : sp.hidden recv attr = false) :
    ¬ sp.RunsClassSide (sp.activate c recv attr) := by
  have hside : sp.isClassSide attr = false := by
    simpa [hidden, hinst] using hvisible
  unfold activate
  cases hbc : sp.bcPtr attr with
  | some module =>
      dsimp only
      split
      · exact not_runs_of_ran rfl
      · simp [runs_runMethod, ClassSideMethod, hside]
  | none =>
      cases hindex : sp.primIdx attr with
      | some index => exact not_runs_of_ran ran_callPrimitive
      | none =>
          dsimp only
          split
          · exact not_runs_of_ran rfl
          · exact not_runs_of_ran rfl

/-- A send that does not miss runs no class-side method on an instance. -/
theorem not_runs_send (hinst : sp.isClass recv = false)
    (hhits : ¬ sp.SendMisses c recv) : ¬ sp.RunsClassSide (sp.send c recv) := by
  unfold send
  split
  · exact not_runs_of_ran rfl
  · rename_i hactor
    split
    · exact not_runs_of_ran ran_runBlock
    · rename_i hblock
      have hlooks : sp.LooksUp c recv := by
        constructor
        · by_contra hnot
          simp at hnot hactor
          exact absurd (hactor hnot.1) (by simp [hnot.2])
        · by_contra hnot
          simp at hnot hblock
          exact hnot.2 (hblock hnot.1)
      split
      · exact not_runs_of_ran rfl
      · rename_i hfound
        exact absurd ⟨hlooks, none, hfound, by simp⟩ hhits
      · rename_i attr hfound
        split
        · rename_i hhidden
          refine absurd ⟨hlooks, some attr, hfound, ?_⟩ hhits
          rintro _ ⟨⟩
          exact hhidden
        · rename_i hvisible
          exact not_runs_activate hinst (by simpa using hvisible)

/-- A class-side method that a send finds on an instance makes it miss. -/
theorem misses_of_finds (hinst : sp.isClass recv = false)
    (hfinds : sp.Finds recv (.send c) attr) (hside : sp.ClassSideMethod attr) :
    sp.SendMisses c recv := by
  refine ⟨hfinds.1, some attr, hfinds.2, ?_⟩
  rintro _ ⟨⟩
  simp [hidden, hside.1, hinst]

theorem isolated_send (hinst : sp.isClass recv = false) :
    sp.Isolated recv (.send c) ↔ sp.Guarded recv (.send c) := by
  constructor
  · rintro ⟨hnot, -⟩ hmisses hfallback
    rw [dispatch, send_of_misses hmisses] at hnot
    exact hnot (runs_doesNotUnderstand.mpr hfallback)
  · intro hguard
    constructor
    · by_cases hmisses : sp.SendMisses c recv
      · rw [dispatch, send_of_misses hmisses]
        intro hruns
        exact hguard hmisses (runs_doesNotUnderstand.mp hruns)
      · exact not_runs_send hinst hmisses
    · intro attr hfinds hside
      exact send_of_misses (misses_of_finds hinst hfinds hside)

/-- A class-side method found by `perform:` is run or reported for its arity. -/
theorem isolated_perform :
    sp.Isolated recv (.perform selector args) ↔
      sp.Guarded recv (.perform selector args) := by
  constructor
  · rintro ⟨hnot, heq⟩ attr hfinds hside
    have hundone := heq attr hfinds hside
    obtain ⟨module, hmodule⟩ := Option.isSome_iff_exists.mp hside.2
    have hattr : sp.getAttribute (sp.methodHolder recv) selector = some attr := hfinds
    by_cases harity : module.argCount = args.length + 1
    · apply hnot
      simp [dispatch, performWithArguments, sendDynamic, sendDynamicFrom, hattr, hmodule,
        harity, runs_runMethod, hside]
    · simp [dispatch, notUnderstood, performWithArguments, sendDynamic, sendDynamicFrom,
        hattr, hmodule, harity] at hundone
  · intro hguard
    constructor
    · intro hruns
      obtain ⟨attr, module, hattr, hmodule, -, hside⟩ :=
        (runs_dynamic (fun _ => rfl) rfl).mp hruns
      exact hguard attr hattr ⟨hside, by simp [hmodule]⟩
    · intro attr hfinds hside
      exact absurd hside (hguard attr hfinds)

/-- A class-side method found in the turn of an actor is run. -/
theorem isolated_actor {message : Message Obj} :
    sp.Isolated recv (.actor message) ↔ sp.Guarded recv (.actor message) := by
  constructor
  · rintro ⟨hnot, -⟩ attr hfinds hside
    obtain ⟨module, hmodule⟩ := Option.isSome_iff_exists.mp hside.2
    have hattr : sp.getAttribute recv message.selector = some attr := hfinds
    apply hnot
    simp [dispatch, drainMessage, hattr, hmodule, runs_runMethod, hside]
  · intro hguard
    constructor
    · intro hruns
      simp only [dispatch, drainMessage] at hruns
      split at hruns
      · exact not_runs_of_ran rfl hruns
      · rename_i attr hattr
        split at hruns
        · exact hguard attr hattr (runs_runMethod.mp hruns)
        · split at hruns
          · split at hruns
            · exact not_runs_of_ran ran_callPrimitive hruns
            · exact not_runs_of_ran rfl hruns
          · exact not_runs_of_ran rfl hruns
    · intro attr hfinds hside
      exact absurd hside (hguard attr hfinds)

/-- A call-form send that finds a user method runs it or says why it cannot. -/
theorem callMethod_cases (sp : Space Obj) (c : CallSend Obj) (recv attr : Obj)
    (module : BytecodeModule) :
    (∃ values, sp.callMethod c recv attr module = sp.runMethod attr module recv values) ∨
      ∃ e, (sp.callMethod c recv attr module).failure = some e ∧ ¬ e.ofDynamic := by
  unfold callMethod
  split
  · exact .inr ⟨_, rfl, id⟩
  · split
    · exact .inr ⟨_, rfl, id⟩
    · split
      · exact .inr ⟨_, rfl, id⟩
      · split
        · exact .inr ⟨_, rfl, id⟩
        · exact .inl ⟨_, rfl⟩

theorem sendCall_of_finds {c : CallSend Obj}
    (h : sp.Finds recv (.sendCall c) attr) (hmodule : sp.bcPtr attr = some module) :
    sp.sendCall c recv = sp.callMethod c recv attr module := by
  obtain ⟨hargs, hactor, hattr⟩ := h
  simp [sendCall, Nat.not_lt.mpr hargs, hactor, hattr, hmodule]

/-- A call-form send that misses. -/
theorem sendCall_of_misses {c : CallSend Obj} (h : sp.CallMisses c recv) :
    sp.sendCall c recv = sp.doesNotUnderstand recv c.mangled [] := by
  obtain ⟨hargs, hactor, hfound⟩ := h
  cases hattr : sp.getAttribute (sp.methodHolder recv) c.name with
  | none => simp [sendCall, Nat.not_lt.mpr hargs, hactor, hattr]
  | some attr =>
      obtain ⟨hbc, hmethod, hsome, hindex⟩ := hfound attr hattr
      simp only [sendCall, Nat.not_lt.mpr hargs, hactor, hattr, hbc, callAttribute,
        hmethod, hsome, hindex, if_false, Bool.false_eq_true]

/-- What else a call-form send runs is not class-side. -/
theorem not_runs_sendCall {c : CallSend Obj}
    (hfinds : ∀ attr, sp.Finds recv (.sendCall c) attr → ¬ sp.ClassSideMethod attr)
    (hhits : ¬ sp.CallMisses c recv) : ¬ sp.RunsClassSide (sp.sendCall c recv) := by
  unfold sendCall
  split
  · exact not_runs_of_ran rfl
  · rename_i hargs
    split
    · exact not_runs_of_ran rfl
    · rename_i hactor
      have hargs' := Nat.not_lt.mp hargs
      have hactor' : sp.isActor recv = false := by simpa using hactor
      cases hattr : sp.getAttribute (sp.methodHolder recv) c.name with
      | none =>
          refine absurd ⟨hargs', hactor', fun attr hsome => ?_⟩ hhits
          rw [hattr] at hsome
          cases hsome
      | some attr =>
          dsimp only
          cases hbc : sp.bcPtr attr with
          | some module =>
              rcases callMethod_cases sp c recv attr module with ⟨values, hrun⟩ | ⟨e, hfail, -⟩
              · dsimp only
                rw [hrun, runs_runMethod]
                exact hfinds attr ⟨hargs', hactor', hattr⟩
              · exact not_runs_of_ran (ran_of_failure hfail)
          | none =>
              dsimp only
              unfold callAttribute
              split
              · exact not_runs_of_ran rfl
              · rename_i hmethod
                split
                · exact not_runs_of_ran rfl
                · rename_i hsome
                  split
                  · split
                    · exact not_runs_of_ran rfl
                    · exact not_runs_of_ran ran_callPrimitive
                  · rename_i hindex
                    refine absurd ⟨hargs', hactor', fun found hfound => ?_⟩ hhits
                    rw [hattr] at hfound
                    obtain rfl := Option.some.inj hfound
                    exact ⟨hbc, by simpa using hmethod, hsome, hindex⟩

theorem isolated_sendCall {c : CallSend Obj} :
    sp.Isolated recv (.sendCall c) ↔ sp.Guarded recv (.sendCall c) := by
  constructor
  · rintro ⟨hnot, heq⟩
    constructor
    · intro attr hfinds hside
      obtain ⟨module, hmodule⟩ := Option.isSome_iff_exists.mp hside.2
      have hcall := sendCall_of_finds hfinds hmodule
      rcases callMethod_cases sp c recv attr module with ⟨values, hrun⟩ | ⟨e, hfail, hnotDynamic⟩
      · apply hnot
        rw [dispatch, hcall, hrun, runs_runMethod]
        exact hside
      · have hundone := heq attr hfinds hside
        rw [dispatch, hcall] at hundone
        rw [hundone] at hfail
        exact hnotDynamic (failure_doesNotUnderstand hfail)
    · intro hmisses hfallback
      rw [dispatch, sendCall_of_misses hmisses] at hnot
      exact hnot (runs_doesNotUnderstand.mpr hfallback)
  · rintro ⟨hfinds, hfallback⟩
    constructor
    · by_cases hmisses : sp.CallMisses c recv
      · rw [dispatch, sendCall_of_misses hmisses]
        intro hruns
        exact hfallback hmisses (runs_doesNotUnderstand.mp hruns)
      · exact not_runs_sendCall hfinds hmisses
    · intro attr hfound hside
      exact absurd hside (hfinds attr hfound)

/-- **Isolation, exactly.** -/
theorem class_side_isolated_iff (hinst : sp.isClass recv = false) (p : Path Obj) :
    sp.Isolated recv p ↔ sp.Guarded recv p := by
  cases p with
  | send c => exact isolated_send hinst
  | sendCall c => exact isolated_sendCall
  | perform selector args => exact isolated_perform
  | actor message => exact isolated_actor

end Space

/-! ## A class-side method on an instance -/

/-- Objects without attributes, numbered. -/
def bareSpace : Space Nat where
  kind _ := .object
  getAttribute _ _ := none
  getOwnAttributeDirect _ _ := none
  getParents _ := []
  asLong _ := none
  asString _ := none
  isMethod _ := false
  bcPtr _ := none
  protoNone := 0
  isProtoTrue v := v = 1
  nilProto := 0
  booleanProto := 0
  smallIntegerProto := 0
  largeIntegerProto := 0
  floatProto := 0
  stringProto := 0
  characterProto := 0
  errorProto := 0
  globals := 0
  unsetMarker := 0
  blockValue := 0
  foreignSignal _ := false
  makeMessage _ args := sizeOf args
  message_new _ args hmem := by
    have hlt := List.sizeOf_lt_of_mem hmem
    exact absurd hlt (by simp)

/-- A class 2 with the class-side methods `make` and `build()` and its instance 3,
and a class 6 with a class-side `doesNotUnderstand:` and its instance 7. -/
def classSideSpace : Space Nat :=
  { bareSpace with
    getParents := fun
      | 3 => [2]
      | 7 => [6]
      | _ => []
    getAttribute := fun recv selector =>
      match recv, selector with
      | 2, "make" | 3, "make" => some 4
      | 2, "build" | 3, "build" => some 5
      | 6, "doesNotUnderstand:" | 7, "doesNotUnderstand:" => some 8
      | _, _ => none
    getOwnAttributeDirect := fun recv key =>
      match recv, key with
      | 2, "__class_name__" | 6, "__class_name__" => some 9
      | 4, "__class_side__" | 5, "__class_side__" | 8, "__class_side__" => some 1
      | _, _ => none
    bcPtr := fun
      | 4 => some ⟨0, 1, false, 0, []⟩
      | 5 => some ⟨1, 1, true, 0, []⟩
      | 8 => some ⟨2, 2, false, 0, []⟩
      | _ => none }

theorem class_side_reached :
    classSideSpace.isClass 3 = false ∧ classSideSpace.isClass 7 = false ∧
      ¬ classSideSpace.Isolated 3 (.perform "make" []) ∧
      ¬ classSideSpace.Isolated 3 (.actor ⟨"make", []⟩) ∧
      ¬ classSideSpace.Isolated 3 (.sendCall ⟨"build", "build#0", [], []⟩) ∧
      ¬ classSideSpace.Isolated 7 (.send ⟨.unary, "make", [], rfl⟩) := by
  refine ⟨rfl, rfl, fun h => h.1 ?_, fun h => h.1 ?_, fun h => h.1 ?_, fun h => h.1 ?_⟩
  · exact ⟨4, rfl, rfl, rfl⟩
  · exact ⟨4, rfl, rfl, rfl⟩
  · exact ⟨5, rfl, rfl, rfl⟩
  · exact ⟨8, rfl, rfl, rfl⟩

theorem class_side_isolated_iff_instance :
    classSideSpace.isClass 3 = false ∧
      (classSideSpace.Isolated 3 (.perform "make" []) ↔
        classSideSpace.Guarded 3 (.perform "make" [])) :=
  ⟨rfl, Space.class_side_isolated_iff rfl _⟩

end ProtoST.Runtime.Dispatch

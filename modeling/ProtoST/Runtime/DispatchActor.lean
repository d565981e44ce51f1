import ProtoST.Runtime.DispatchClassSide

/-!
# A message to an actor and the send to its object

The turn of an actor looks its message up on the wrapped object and runs a user
method or a primitive.  The `SEND` handler does more: it counts the arguments, hides
class-side methods, reads a value attribute, and runs `doesNotUnderstand:`.

## Main results

* `actor_send_iff` — the message and the send come to the same exactly when both find
  the same method, visible and with the right number of arguments, or the same
  primitive.
* `actor_send_differs` — an object whose value attribute, `doesNotUnderstand:`,
  class-side method and two-argument method an actor does not treat as a send does.
-/

namespace ProtoST.Runtime.Dispatch

variable {Obj : Type}

/-- The method or primitive an attribute stands for. -/
inductive Target (Obj : Type) where
  | method (attr : Obj) (module : BytecodeModule)
  | primitive (index : Nat)
  deriving DecidableEq, Repr

/-- A method takes the arguments after the receiver. -/
def Target.takes (argc : Nat) : Target Obj → Bool
  | .method _ module => module.argCount = argc + 1
  | .primitive _ => true

def SendOp.isSuper : SendOp → Bool
  | .super _ _ => true
  | .unary | .binary | .keyword => false

namespace Space

variable (sp : Space Obj)

/-- What is run for an attribute. -/
def target (attr : Obj) : Option (Target Obj) :=
  match sp.bcPtr attr with
  | some module => some (.method attr module)
  | none => (sp.primIdx attr).map .primitive

/-- The attribute a send runs: the one it finds if it is not hidden, else, for a
foreign exception that is being handled, the one of `Error`. -/
def sendAttribute (c : Send Obj) (recv : Obj) : Option Obj :=
  match (sp.getAttribute (sp.methodHolder recv) c.selector).filter
      fun attr => !sp.hidden recv attr with
  | some attr => some attr
  | none =>
      if sp.canSendToForeignException recv c.selector then
        sp.getAttribute sp.errorProto c.selector
      else none

/-- **The condition.** -/
def ActorAgrees (c : Send Obj) (recv : Obj) : Prop :=
  sp.isActor recv = false ∧
    ∃ t, (sp.getAttribute recv c.selector).bind sp.target = some t ∧
      if c.isValueFamily ∧ (sp.bcPtr recv).isSome then t = .primitive sp.blockValue
      else (sp.sendAttribute c recv).bind sp.target = some t ∧ t.takes c.args.length

/-! ## What is run -/

/-- Run a method or a primitive, whatever the number of arguments. -/
def runTarget (recv : Obj) (args : List Obj) : Target Obj → Outcome Obj
  | .method attr module => sp.runMethod attr module recv args
  | .primitive index => sp.callPrimitive index recv args

variable {sp} {recv attr : Obj} {selector : String} {args : List Obj}
  {t t' : Target Obj}

/-- Such a run in the open. -/
theorem runTarget_cases (sp : Space Obj) (recv : Obj) (args : List Obj)
    (t : Target Obj) :
    (∃ attr module captured,
        sp.runTarget recv args t = .method attr module recv captured args) ∨
      (∃ module self captured home,
        sp.runTarget recv args t = .block module self captured home args) ∨
      (∃ index, sp.runTarget recv args t = .primitive index recv args) ∨
      ∃ expected got, sp.runTarget recv args t = .error (.blockArity expected got) := by
  cases t with
  | method attr module => exact .inl ⟨attr, module, _, rfl⟩
  | primitive index =>
      unfold runTarget callPrimitive
      dsimp only
      split
      · split
        · unfold runBlock
          split
          · exact .inr (.inr (.inr ⟨_, _, rfl⟩))
          · exact .inr (.inl ⟨_, _, _, _, rfl⟩)
        · exact .inr (.inr (.inl ⟨_, rfl⟩))
      · exact .inr (.inr (.inl ⟨_, rfl⟩))

/-- A method is run on the arguments. -/
theorem runTarget_method_args {module : BytecodeModule} {self : Obj}
    {captured : Option Obj} {values : List Obj}
    (h : sp.runTarget recv args t = .method attr module self captured values) :
    values = args := by
  rcases runTarget_cases sp recv args t with ⟨_, _, _, hrun⟩ | ⟨_, _, _, _, hrun⟩ |
    ⟨_, hrun⟩ | ⟨_, _, hrun⟩
  · rw [hrun, Outcome.method.injEq] at h
    exact h.2.2.2.2.symm
  all_goals
    rw [hrun] at h
    cases h

/-- Different primitives make different runs. -/
theorem callPrimitive_inj {i j : Nat}
    (h : sp.callPrimitive i recv args = sp.callPrimitive j recv args) : i = j := by
  unfold callPrimitive at h
  split at h
  · rename_i module _
    have hblock : ∀ k, sp.runBlock module recv args ≠ .primitive k recv args := by
      intro k
      unfold runBlock
      split <;> simp
    split at h
    · rename_i hi
      split at h
      · rename_i hj
        rw [hi, hj]
      · exact absurd h (hblock _)
    · split at h
      · exact absurd h.symm (hblock _)
      · simpa using h
  · simpa using h

/-- Different methods and primitives make different runs. -/
theorem runTarget_inj (h : sp.runTarget recv args t = sp.runTarget recv args t') :
    t = t' := by
  cases t with
  | method attr module =>
      cases t' with
      | method attr' module' =>
          simp only [runTarget, runMethod, Outcome.method.injEq] at h
          rw [h.1, h.2.1]
      | primitive j =>
          have hran : some attr = (sp.callPrimitive j recv args).ran :=
            congrArg Outcome.ran h
          rw [ran_callPrimitive] at hran
          cases hran
  | primitive i =>
      cases t' with
      | method attr' module' =>
          have hran : (sp.callPrimitive i recv args).ran = some attr' :=
            congrArg Outcome.ran h
          rw [ran_callPrimitive] at hran
          cases hran
      | primitive j => rw [callPrimitive_inj h]

/-! ## The two sides -/

/-- The turn of an actor that finds something to run. -/
theorem drain_of_target
    (h : (sp.getAttribute recv selector).bind sp.target = some t) :
    sp.drainMessage recv ⟨selector, args⟩ = sp.runTarget recv args t := by
  obtain ⟨attr, hattr, htarget⟩ := Option.bind_eq_some_iff.mp h
  unfold target at htarget
  cases hbc : sp.bcPtr attr with
  | some module =>
      simp only [hbc, Option.some.injEq] at htarget
      subst htarget
      simp [drainMessage, hattr, hbc, runTarget]
  | none =>
      simp only [hbc, primIdx] at htarget
      obtain ⟨index, hindex, rfl⟩ := Option.map_eq_some_iff.mp htarget
      obtain ⟨marker, hmarker, hprim⟩ := Option.bind_eq_some_iff.mp hindex
      simp [drainMessage, hattr, hbc, hmarker, hprim, runTarget]

/-- The turn of an actor that finds nothing to run. -/
theorem drain_of_none (args : List Obj)
    (h : (sp.getAttribute recv selector).bind sp.target = none) :
    ∃ e, sp.drainMessage recv ⟨selector, args⟩ = .runtimeError e ∧ ¬ e.ofDynamic := by
  unfold drainMessage
  cases hattr : sp.getAttribute recv selector with
  | none => exact ⟨_, rfl, id⟩
  | some attr =>
      simp only [hattr, Option.bind_some, target] at h
      cases hbc : sp.bcPtr attr with
      | some module => simp [hbc] at h
      | none =>
          simp only [hbc, Option.map_eq_none_iff, primIdx] at h
          cases hmarker : sp.asLong attr with
          | none =>
              simp only [hbc, hmarker]
              exact ⟨_, rfl, id⟩
          | some marker =>
              simp only [hmarker, Option.bind_some] at h
              simp only [hbc, hmarker, h]
              exact ⟨_, rfl, id⟩

/-- A dynamic send. -/
theorem sendDynamicFrom_eq {root : Obj} :
    sp.sendDynamicFrom recv root selector args =
      ((sp.getAttribute root selector).bind sp.target).map fun t =>
        if t.takes args.length then .ok (sp.runTarget recv args t)
        else .error (.dynamicArity selector) := by
  unfold sendDynamicFrom
  cases hattr : sp.getAttribute root selector with
  | none => rfl
  | some attr =>
      cases hbc : sp.bcPtr attr with
      | some module =>
          by_cases harity : module.argCount = args.length + 1
          · simp [target, hbc, Target.takes, harity, runTarget]
          · simp [target, hbc, Target.takes, harity]
      | none =>
          cases hindex : sp.primIdx attr with
          | none => simp [target, hbc, hindex]
          | some index => simp [target, hbc, hindex, Target.takes, runTarget]

/-- The errors that no run of a method or primitive comes to. -/
theorem runTarget_ne_error {e : Failure}
    (he : ∀ expected got, e ≠ .blockArity expected got) :
    sp.runTarget recv args t ≠ .error e := by
  intro h
  rcases runTarget_cases sp recv args t with ⟨_, _, _, hrun⟩ | ⟨_, _, _, _, hrun⟩ |
    ⟨_, hrun⟩ | ⟨expected, got, hrun⟩
  · simp [hrun] at h
  · simp [hrun] at h
  · simp [hrun] at h
  · rw [hrun] at h
    exact he expected got (Outcome.error.inj h).symm

theorem runTarget_ne_runtimeError {e : Failure} :
    sp.runTarget recv args t ≠ .runtimeError e := by
  intro h
  rcases runTarget_cases sp recv args t with ⟨_, _, _, hrun⟩ | ⟨_, _, _, _, hrun⟩ |
    ⟨_, hrun⟩ | ⟨_, _, hrun⟩ <;> simp [hrun] at h

/-- `Error` answering for a foreign exception. -/
theorem sendToForeignException_eq_run :
    sp.sendToForeignException recv selector args = sp.runTarget recv args t ↔
      (sp.getAttribute sp.errorProto selector).bind sp.target = some t ∧
        t.takes args.length = true := by
  unfold sendToForeignException
  rw [sendDynamicFrom_eq]
  cases hfound : (sp.getAttribute sp.errorProto selector).bind sp.target with
  | none => simpa using (runTarget_ne_error (by simp)).symm
  | some t' =>
      by_cases htakes : t'.takes args.length = true
      · constructor
        · intro h
          simp only [Option.map_some, htakes, if_true] at h
          obtain rfl := runTarget_inj h
          exact ⟨rfl, htakes⟩
        · rintro ⟨heq, -⟩
          obtain rfl := Option.some.inj heq
          simp [htakes]
      · constructor
        · intro h
          simp only [Option.map_some, htakes] at h
          exact absurd h.symm (runTarget_ne_error (by simp))
        · rintro ⟨heq, ht⟩
          obtain rfl := Option.some.inj heq
          exact absurd ht htakes

/-- The `doesNotUnderstand:` of the receiver is run on the Message, not on the
arguments. -/
theorem notUnderstood_ne_run (hforeign : sp.canSendToForeignException recv selector = false) :
    sp.doesNotUnderstand recv selector args ≠ sp.runTarget recv args t := by
  simp only [doesNotUnderstand, sendDynamic, sendDynamicFrom_eq, hforeign,
    Bool.false_eq_true, if_false]
  cases hattr : sp.getAttribute (sp.methodHolder recv) "doesNotUnderstand:" with
  | none =>
      simp only [Option.bind_none]
      intro h
      rcases runTarget_cases sp recv args t with ⟨_, _, _, hrun⟩ | ⟨_, _, _, _, hrun⟩ |
        ⟨_, hrun⟩ | ⟨_, _, hrun⟩ <;> simp [hrun] at h
  | some attr =>
      cases hbc : sp.bcPtr attr with
      | none =>
          simp only [Option.bind_some, hbc]
          intro h
          rcases runTarget_cases sp recv args t with ⟨_, _, _, hrun⟩ |
            ⟨_, _, _, _, hrun⟩ | ⟨_, hrun⟩ | ⟨_, _, hrun⟩ <;> simp [hrun] at h
      | some module =>
          simp only [Option.bind_some, hbc, target, Option.map_some]
          split
          · rename_i outcome houtcome
            split at houtcome
            · simp only [Option.some.injEq, Except.ok.injEq] at houtcome
              subst houtcome
              intro h
              have heq : [sp.makeMessage selector args] = args :=
                runTarget_method_args h.symm
              have hmem : sp.makeMessage selector args ∈ [sp.makeMessage selector args] :=
                List.mem_singleton.mpr rfl
              rw [heq] at hmem
              exact sp.message_new selector args hmem
            · cases houtcome
          · intro h
            exact runTarget_ne_runtimeError h.symm
          · rename_i hnone
            split at hnone <;> cases hnone

/-- A message that is not understood runs what `Error` has for a foreign exception,
and nothing else that the selector stands for. -/
theorem doesNotUnderstand_eq_run :
    sp.doesNotUnderstand recv selector args = sp.runTarget recv args t ↔
      sp.canSendToForeignException recv selector = true ∧
        (sp.getAttribute sp.errorProto selector).bind sp.target = some t ∧
          t.takes args.length = true := by
  by_cases hforeign : sp.canSendToForeignException recv selector = true
  · have heq : sp.doesNotUnderstand recv selector args =
        sp.sendToForeignException recv selector args := by
      simp [doesNotUnderstand, hforeign]
    rw [heq, sendToForeignException_eq_run]
    simp [hforeign]
  · simpa [hforeign] using notUnderstood_ne_run (by simpa using hforeign)

/-- The attribute a send finds, run or reported. -/
theorem activate_eq_run {c : Send Obj} :
    sp.activate c recv attr = sp.runTarget recv c.args t ↔
      sp.target attr = some t ∧ t.takes c.args.length = true := by
  unfold activate target
  cases hbc : sp.bcPtr attr with
  | some module =>
      by_cases harity : module.argCount = c.args.length + 1
      · constructor
        · intro h
          simp only [harity, ne_eq, not_true, if_false] at h
          have heq : Target.method attr module = t := runTarget_inj h
          subst heq
          simp [Target.takes, harity]
        · rintro ⟨heq, -⟩
          obtain rfl := Option.some.inj heq
          simp [harity, runTarget]
      · constructor
        · intro h
          simp only [ne_eq, harity, not_false_eq_true, if_true] at h
          exact absurd h.symm (runTarget_ne_error (by simp))
        · rintro ⟨heq, htakes⟩
          obtain rfl := Option.some.inj heq
          simp [Target.takes, harity] at htakes
  | none =>
      cases hindex : sp.primIdx attr with
      | some index =>
          constructor
          · intro h
            have heq : Target.primitive index = t := runTarget_inj h
            subst heq
            simp [Target.takes]
          · rintro ⟨heq, -⟩
            simp only [Option.map_some, Option.some.injEq] at heq
            subst heq
            rfl
      | none =>
          simp only [Option.map_none, reduceCtorEq, false_and, iff_false]
          split
          · intro h
            rcases runTarget_cases sp recv c.args t with ⟨_, _, _, hrun⟩ |
              ⟨_, _, _, _, hrun⟩ | ⟨_, hrun⟩ | ⟨_, _, hrun⟩ <;> simp [hrun] at h
          · exact fun h => runTarget_ne_error (by simp) h.symm

/-- What a send to an object that is no actor runs. -/
theorem send_eq_run {c : Send Obj} (hop : c.op.isSuper = false)
    (hactor : sp.isActor recv = false) :
    sp.send c recv = sp.runTarget recv c.args t ↔
      if c.isValueFamily ∧ (sp.bcPtr recv).isSome then t = .primitive sp.blockValue
      else (sp.sendAttribute c recv).bind sp.target = some t ∧
        t.takes c.args.length = true := by
  have hlookup : sp.lookup c recv =
      .ok (sp.getAttribute (sp.methodHolder recv) c.selector) := by
    unfold lookup
    cases hc : c.op with
    | super => simp [hc, SendOp.isSuper] at hop
    | unary | binary | keyword => rfl
  unfold send
  simp only [hactor, Bool.false_and, Bool.false_eq_true, if_false, hlookup]
  by_cases hblock : c.isValueFamily ∧ (sp.bcPtr recv).isSome
  · obtain ⟨hvalue, hsome⟩ := hblock
    obtain ⟨module, hbc⟩ := Option.isSome_iff_exists.mp hsome
    have hrun : sp.runBlock module recv c.args =
        sp.runTarget recv c.args (.primitive sp.blockValue) := by
      simp [runTarget, callPrimitive, hbc]
    simp only [hvalue, hbc, hrun, Option.isSome_some, and_self, if_true]
    exact ⟨fun h => (runTarget_inj h).symm, fun h => by rw [h]⟩
  · have hnone : (if c.isValueFamily = true then sp.bcPtr recv else none) = none := by
      by_cases hvalue : c.isValueFamily = true
      · have hbc : ¬ (sp.bcPtr recv).isSome := fun hsome => hblock ⟨hvalue, hsome⟩
        simpa [hvalue] using hbc
      · simp [hvalue]
    simp only [hnone, hblock, if_false]
    unfold sendAttribute
    cases hattr : sp.getAttribute (sp.methodHolder recv) c.selector with
    | none =>
        simp only [Option.filter_none]
        rw [doesNotUnderstand_eq_run]
        split <;> simp_all
    | some attr =>
        cases hhidden : sp.hidden recv attr with
        | true =>
            simp only [Option.filter_some, hhidden, Bool.not_true, Bool.false_eq_true,
              if_true, if_false]
            rw [doesNotUnderstand_eq_run]
            split <;> simp_all
        | false =>
            simp only [Option.filter_some, hhidden, Bool.not_false, Bool.false_eq_true,
              if_true, if_false, Option.bind_some]
            exact activate_eq_run

/-- The exceptions that leave the engine in a send. -/
theorem send_runtimeError {c : Send Obj} {e : Failure}
    (h : sp.send c recv = .runtimeError e) : e.ofDynamic := by
  have hdnu : sp.doesNotUnderstand recv c.selector c.args = .runtimeError e →
      e.ofDynamic := fun h => failure_doesNotUnderstand (by rw [h]; rfl)
  have hblock : ∀ module, sp.runBlock module recv c.args ≠ .runtimeError e := by
    intro module
    unfold runBlock
    split <;> simp
  unfold send at h
  split at h
  · cases h
  · split at h
    · exact absurd h (hblock _)
    · split at h
      · cases h
      · exact hdnu h
      · split at h
        · exact hdnu h
        · unfold activate at h
          split at h
          · split at h <;> cases h
          · split at h
            · exact absurd h (runTarget_ne_runtimeError (t := .primitive _))
            · split at h <;> cases h

/-- **The message to an actor and the send to its object.** -/
theorem actor_send_iff (sp : Space Obj) (actor recv : Obj) (c : Send Obj)
    (hwrapped : sp.getOwnAttributeDirect actor "__wrapped__" = some recv)
    (hop : c.op.isSuper = false) (hlocal : isActorLocalSelector c.selector = false) :
    sp.send c actor = .enqueued actor ⟨c.selector, c.args⟩ ∧
      (sp.drainOne actor ⟨c.selector, c.args⟩ = sp.send c recv ↔
        sp.ActorAgrees c recv) := by
  constructor
  · simp [send, isActor, hwrapped, hlocal]
  · have hdrain : sp.drainOne actor ⟨c.selector, c.args⟩ =
        sp.drainMessage recv ⟨c.selector, c.args⟩ := by
      simp [drainOne, hwrapped]
    rw [hdrain]
    unfold ActorAgrees
    cases hactor : sp.isActor recv with
    | true =>
        have hsend : sp.send c recv = .enqueued recv ⟨c.selector, c.args⟩ := by
          simp [send, hactor, hlocal]
        simp only [hsend, Bool.true_eq_false, false_and, iff_false]
        cases htarget : (sp.getAttribute recv c.selector).bind sp.target with
        | none =>
            obtain ⟨e, hfail, -⟩ := drain_of_none c.args htarget
            simp [hfail]
        | some t =>
            rw [drain_of_target htarget]
            rcases runTarget_cases sp recv c.args t with ⟨_, _, _, hrun⟩ |
              ⟨_, _, _, _, hrun⟩ | ⟨_, hrun⟩ | ⟨_, _, hrun⟩ <;> simp [hrun]
    | false =>
        cases htarget : (sp.getAttribute recv c.selector).bind sp.target with
        | none =>
            obtain ⟨e, hfail, hnot⟩ := drain_of_none c.args htarget
            simp only [hfail, true_and, reduceCtorEq, false_and, exists_false, iff_false]
            exact fun h => hnot (send_runtimeError h.symm)
        | some t =>
            rw [drain_of_target htarget, eq_comm, send_eq_run hop hactor]
            simp

end Space

/-! ## An object and its actor -/

/-- An object 3 and its actor 4.  Its class 2 has a method `foo`, a call-form method
`tally(n)`, a `doesNotUnderstand:` and the value `count`. -/
def actorSpace : Space Nat :=
  { bareSpace with
    getParents := fun
      | 3 => [2]
      | _ => []
    getAttribute := fun recv selector =>
      match recv, selector with
      | 2, "count" | 3, "count" => some 5
      | 2, "foo" | 3, "foo" => some 6
      | 2, "tally" | 3, "tally" => some 7
      | 2, "doesNotUnderstand:" | 3, "doesNotUnderstand:" => some 8
      | _, _ => none
    getOwnAttributeDirect := fun recv key =>
      match recv, key with
      | 2, "__class_name__" => some 9
      | 4, "__wrapped__" => some 3
      | _, _ => none
    asLong := fun
      | 5 => some 12
      | _ => none
    bcPtr := fun
      | 6 => some ⟨0, 1, false, 0, []⟩
      | 7 => some ⟨1, 2, true, 1, []⟩
      | 8 => some ⟨2, 2, false, 0, []⟩
      | _ => none }

theorem actor_send_differs :
    actorSpace.send ⟨.unary, "count", [], rfl⟩ 3 = .value 5 ∧
      actorSpace.drainOne 4 ⟨"count", []⟩ = .runtimeError .methodShape ∧
      actorSpace.send ⟨.unary, "missing", [], rfl⟩ 3 =
        .method 8 ⟨2, 2, false, 0, []⟩ 3 none [actorSpace.makeMessage "missing" []] ∧
      actorSpace.drainOne 4 ⟨"missing", []⟩ =
        .runtimeError (.notUnderstoodBy "missing" none) ∧
      actorSpace.send ⟨.unary, "tally", [], rfl⟩ 3 = .error (.arity "tally" 1 0) ∧
      actorSpace.drainOne 4 ⟨"tally", []⟩ = .method 7 ⟨1, 2, true, 1, []⟩ 3 none [] ∧
      ¬ ∀ (sp : Space Nat) (actor recv : Nat) (c : Send Nat),
        sp.getOwnAttributeDirect actor "__wrapped__" = some recv →
        c.op.isSuper = false → isActorLocalSelector c.selector = false →
        sp.drainOne actor ⟨c.selector, c.args⟩ = sp.send c recv := by
  refine ⟨rfl, rfl, rfl, rfl, rfl, rfl, fun h => ?_⟩
  have hcount := h actorSpace 4 3 ⟨.unary, "count", [], rfl⟩ rfl rfl rfl
  cases hcount

theorem actor_send_iff_foo :
    actorSpace.send ⟨.unary, "foo", [], rfl⟩ 4 = .enqueued 4 ⟨"foo", []⟩ ∧
      (actorSpace.drainOne 4 ⟨"foo", []⟩ =
          actorSpace.send ⟨.unary, "foo", [], rfl⟩ 3 ↔
        actorSpace.ActorAgrees ⟨.unary, "foo", [], rfl⟩ 3) :=
  Space.actor_send_iff actorSpace 4 3 ⟨.unary, "foo", [], rfl⟩ rfl rfl rfl

end ProtoST.Runtime.Dispatch

import Mathlib.Logic.Equiv.List
import ProtoST.Runtime.DispatchActor

/-!
# `perform:` and the send it names

`perform:`, `perform:with:` and so on (`lib/kernel/object.st`) collect their
arguments and send `perform:withArguments:`, whose primitive finds the method itself
with `sendDynamic`.  It does less than the `SEND` handler: class-side methods are not
hidden, a value attribute is not read, and a selector that is not found is a plain
Error.

## Main results

* `perform_send_iff` — a `perform:` answers what the send answers exactly when both
  find the same method, visible and with the right number of arguments, or the same
  primitive.
* `perform_send_differs` — a value attribute, a class-side method, a method that takes
  another number of arguments, a `doesNotUnderstand:` and an actor.
-/

namespace ProtoST.Runtime.Dispatch

/-- What `perform:` asks besides. -/
structure PerformSpace (Obj : Type) extends Space Obj where
  /-- The elements of the list under `__data__`. -/
  data : Obj → Option (List Obj)
  /-- The index under which `prim_Object_performWithArguments` is registered. -/
  performIndex : Nat
  performIndex_ne : performIndex ≠ blockValue
  /-- The compiled `Object >> perform:`, `perform:with:` and so on, by the number of
  arguments after the selector. -/
  performModule : Nat → Option BytecodeModule
  /-- `#()`, `Array with:` and so on. -/
  array : List Obj → Obj
  data_array : ∀ args, data (array args) = some args
  kind_array : ∀ args, kind (array args) ≠ .nil

/-- The ways to write a `perform:`: with the arguments, or with an Array of them. -/
inductive PerformForm (Obj : Type) where
  | with
  | withArguments (array : Obj)
  deriving DecidableEq, Repr

/-- `perform:`, `perform:with:`, `perform:with:with:` and so on. -/
def performSelector (argc : Nat) : String :=
  String.ofList ("perform:".toList ++ (List.replicate argc "with:".toList).flatten)

/-- What a message comes to for its sender: at once, or for the Future of an actor.
The arguments a primitive does not take are a text. -/
structure Answer (Obj : Type) where
  future : Option Obj
  outcome : Except String (Outcome Obj)
  deriving DecidableEq, Repr

/-- Each `with:` has a colon. -/
theorem count_with (argc : Nat) :
    (List.replicate argc "with:".toList).flatten.count ':' = argc := by
  have hone : "with:".toList.count ':' = 1 := by decide
  induction argc with
  | zero => simp
  | succ n ih =>
      simp only [List.replicate_succ, List.flatten_cons, List.count_append, ih, hone]
      omega

theorem performSelector_toList (argc : Nat) :
    (performSelector argc).toList =
      "perform:".toList ++ (List.replicate argc "with:".toList).flatten :=
  String.toList_ofList

/-- The colons of a selector are its arguments. -/
theorem performSelector_arity (argc : Nat) :
    (performSelector argc).toList.count ':' = argc + 1 := by
  have hone : "perform:".toList.count ':' = 1 := by decide
  rw [performSelector_toList, List.count_append, count_with, hone, Nat.add_comm]

namespace PerformSpace

variable {Obj : Type} (sp : PerformSpace Obj)

/-- `prim_Object_performWithArguments`. -/
def performPrimitive (recv : Obj) : List Obj → Except String (Outcome Obj)
  | [sel, array] =>
      match sp.asString sel with
      | none => .error "a selector (Symbol) was expected"
      | some selector =>
          if sp.kind array = .nil then .ok (sp.performWithArguments recv selector [])
          else
            match sp.data array with
            | none =>
                .error "perform:withArguments: expects an Array of arguments"
            | some args => .ok (sp.performWithArguments recv selector args)
  | _ => .error "perform:withArguments: expects 2 args"

/-- A dispatch that comes to the primitive goes on with it. -/
def runPrimitive : Outcome Obj → Except String (Outcome Obj)
  | .primitive index recv args =>
      if index = sp.performIndex then sp.performPrimitive recv args
      else .ok (.primitive index recv args)
  | outcome => .ok outcome

/-- `self perform: aSelector withArguments: anArray`. -/
def withArgumentsSend (sel array : Obj) : Send Obj where
  op := .keyword
  selector := "perform:withArguments:"
  args := [sel, array]
  arity := show 2 = _ by decide

/-- A dispatch that comes to a method of `Object` goes on with its body. -/
def runForm : Outcome Obj → Except String (Outcome Obj)
  | .method attr module self captured (sel :: args) =>
      if sp.performModule args.length = some module then
        sp.runPrimitive (sp.send (withArgumentsSend sel (sp.array args)) self)
      else .ok (.method attr module self captured (sel :: args))
  | outcome => .ok outcome

/-- The send of a `perform:`. -/
def performSend (form : PerformForm Obj) (sel : Obj) (args : List Obj) : Send Obj :=
  match form with
  | .with =>
      ⟨.keyword, performSelector args.length, sel :: args,
        (performSelector_arity args.length).symm⟩
  | .withArguments array => withArgumentsSend sel array

/-- What such a send goes on with. -/
def run (form : PerformForm Obj) (outcome : Outcome Obj) :
    Except String (Outcome Obj) :=
  match form with
  | .with => sp.runForm outcome
  | .withArguments _ => sp.runPrimitive outcome

/-- The answer to a send that goes on with `next`. -/
def answer (next : Outcome Obj → Except String (Outcome Obj)) :
    Outcome Obj → Answer Obj
  | .enqueued actor message => ⟨some actor, next (sp.drainOne actor message)⟩
  | outcome => ⟨none, next outcome⟩

def sendAnswer (c : Send Obj) (recv : Obj) : Answer Obj :=
  sp.answer .ok (sp.send c recv)

def performAnswer (form : PerformForm Obj) (sel : Obj) (args : List Obj) (recv : Obj) :
    Answer Obj :=
  sp.answer (sp.run form) (sp.send (performSend form sel args) recv)

/-- The arguments a `perform:` is given. -/
def Given (args : List Obj) : PerformForm Obj → Prop
  | .with => True
  | .withArguments array =>
      if sp.kind array = .nil then args = [] else sp.data array = some args

/-- The lookup from `root` finds `Object >> perform:withArguments:`. -/
def FindsPrimitive (root recv : Obj) : Prop :=
  ∃ attr, sp.getAttribute root "perform:withArguments:" = some attr ∧
    sp.hidden recv attr = false ∧ sp.target attr = some (.primitive sp.performIndex)

/-- The lookup from `root` finds the method of `Object`. -/
def FindsForm (argc : Nat) (root recv : Obj) : Prop :=
  ∃ attr module, sp.getAttribute root (performSelector argc) = some attr ∧
    sp.hidden recv attr = false ∧ sp.target attr = some (.method attr module) ∧
    module.argCount = argc + 2 ∧ sp.performModule argc = some module

/-- The class of a receiver leaves the methods of `Object` as they are. -/
def Inherits (argc : Nat) : PerformForm Obj → Obj → Obj → Prop
  | .with, root, recv => sp.FindsForm argc root recv ∧
      sp.FindsPrimitive (sp.methodHolder recv) recv
  | .withArguments _, root, recv => sp.FindsPrimitive root recv

/-- The receiver of a `perform:`, or the object an actor wraps, has the methods of
`Object`. -/
def Performs (form : PerformForm Obj) (argc : Nat) (recv : Obj) : Prop :=
  match sp.getOwnAttributeDirect recv "__wrapped__" with
  | none => sp.Inherits argc form (sp.methodHolder recv) recv
  | some wrapped => sp.Inherits argc form wrapped wrapped

/-! ## The condition -/

/-- What `sendDynamic` runs. -/
def performTarget (recv : Obj) (selector : String) : Option (Target Obj) :=
  (sp.getAttribute (sp.methodHolder recv) selector).bind sp.target

/-- The send evaluates a block. -/
def EvaluatesBlock (c : Send Obj) (recv : Obj) : Prop :=
  c.isValueFamily ∧ (sp.bcPtr recv).isSome

instance (c : Send Obj) (recv : Obj) : Decidable (sp.EvaluatesBlock c recv) :=
  inferInstanceAs (Decidable (_ ∧ _))

/-- The send finds nothing, or only what is hidden. -/
def Misses (c : Send Obj) (recv : Obj) : Prop :=
  ((sp.getAttribute (sp.methodHolder recv) c.selector).filter
    fun attr => !sp.hidden recv attr) = none

/-- A foreign exception that is being handled answers neither: both ways find
nothing to run, or both a method with another number of arguments. -/
def FailAlike (c : Send Obj) (recv : Obj) : Prop :=
  ¬ sp.EvaluatesBlock c recv ∧ sp.Misses c recv ∧
    sp.canSendToForeignException recv c.selector = true ∧
    (sp.performTarget recv c.selector).map (Target.takes c.args.length) =
      ((sp.getAttribute sp.errorProto c.selector).bind sp.target).map
        (Target.takes c.args.length) ∧
    (sp.performTarget recv c.selector).all fun t => !t.takes c.args.length

/-- What `perform:` finds is what the send runs. -/
def FindAlike (c : Send Obj) (recv : Obj) : Prop :=
  ∃ t, sp.performTarget recv c.selector = some t ∧ t.takes c.args.length = true ∧
    if sp.EvaluatesBlock c recv then t = .primitive sp.blockValue
    else (sp.sendAttribute c recv).bind sp.target = some t

/-- What `perform:` finds is what the turn of the actor runs. -/
def TurnFindsAlike (form : PerformForm Obj) (c : Send Obj) (wrapped : Obj) : Prop :=
  isActorLocalSelector c.selector = false ∧
    (form = .with → sp.isActor wrapped = false) ∧
    ∃ t, sp.performTarget wrapped c.selector = some t ∧
      t.takes c.args.length = true ∧
      (sp.getAttribute wrapped c.selector).bind sp.target = some t

/-- **The condition.** -/
def PerformAgrees (form : PerformForm Obj) (c : Send Obj) (recv : Obj) : Prop :=
  match sp.getOwnAttributeDirect recv "__wrapped__" with
  | none => sp.FindAlike c recv ∨ sp.FailAlike c recv
  | some wrapped => sp.TurnFindsAlike form c wrapped

/-- What a dynamic send comes to, by what it finds. -/
def dynamicOutcome (recv : Obj) (selector : String) (args : List Obj) :
    Option (Target Obj) → Outcome Obj
  | none => .error (.notUnderstood selector)
  | some t =>
      if t.takes args.length then sp.runTarget recv args t
      else .error (.dynamicArity selector)

/-! ## Sends that fail -/

section Failing

variable {sp} {recv attr : Obj} {selector : String} {args : List Obj} {c : Send Obj}
  {e : Failure}

theorem dynamicOutcome_eq {root : Obj} :
    (match sp.sendDynamicFrom recv root selector args with
      | some (.ok outcome) => outcome
      | some (.error e) => .error e
      | none => .error (.notUnderstood selector)) =
    sp.dynamicOutcome recv selector args
      ((sp.getAttribute root selector).bind sp.target) := by
  rw [Space.sendDynamicFrom_eq]
  cases (sp.getAttribute root selector).bind sp.target with
  | none => rfl
  | some t =>
      cases htakes : t.takes args.length with
      | true => simp [htakes, dynamicOutcome]
      | false => simp [htakes, dynamicOutcome]

theorem performWithArguments_eq :
    sp.performWithArguments recv selector args =
      sp.dynamicOutcome recv selector args (sp.performTarget recv selector) :=
  dynamicOutcome_eq

/-- `Error` answers for a foreign exception as a `perform:` would. -/
theorem sendToForeignException_eq :
    sp.sendToForeignException recv selector args =
      sp.dynamicOutcome recv selector args
        ((sp.getAttribute sp.errorProto selector).bind sp.target) :=
  dynamicOutcome_eq

/-- A dynamic send that runs nothing fails in one of two ways. -/
theorem dynamicOutcome_of_fails {found : Option (Target Obj)}
    (hfails : found.all fun t => !t.takes args.length) :
    sp.dynamicOutcome recv selector args found = .error (.notUnderstood selector) ∧
        found.map (Target.takes args.length) = none ∨
      sp.dynamicOutcome recv selector args found = .error (.dynamicArity selector) ∧
        found.map (Target.takes args.length) = some false := by
  cases found with
  | none => exact .inl ⟨rfl, rfl⟩
  | some t =>
      have htakes : t.takes args.length = false := by simpa using hfails
      exact .inr ⟨by simp [dynamicOutcome, htakes], by simp [htakes]⟩

/-- Two dynamic sends, one of which runs nothing. -/
theorem dynamicOutcome_eq_iff {found found' : Option (Target Obj)}
    (hfails : found.all fun t => !t.takes args.length) :
    sp.dynamicOutcome recv selector args found =
        sp.dynamicOutcome recv selector args found' ↔
      found.map (Target.takes args.length) = found'.map (Target.takes args.length) := by
  cases hfails' : found'.all fun t => !t.takes args.length with
  | true =>
      have houtcome := @dynamicOutcome_of_fails _ sp recv selector args
      rcases houtcome hfails with ⟨heq, hfound⟩ | ⟨heq, hfound⟩ <;>
      rcases houtcome hfails' with ⟨heq', hfound'⟩ | ⟨heq', hfound'⟩ <;>
      simp [heq, heq', hfound, hfound']
  | false =>
      cases found' with
      | none => cases hfails'
      | some t =>
          have htakes : t.takes args.length = true := by simpa using hfails'
          have hrun : sp.dynamicOutcome recv selector args (some t) =
              sp.runTarget recv args t := by simp [dynamicOutcome, htakes]
          rw [hrun]
          rcases dynamicOutcome_of_fails hfails with ⟨heq, hfound⟩ | ⟨heq, hfound⟩
          · rw [heq, hfound]
            simpa using (Space.runTarget_ne_error (by simp)).symm
          · rw [heq, hfound]
            simpa [htakes] using (Space.runTarget_ne_error (by simp)).symm

/-- A selector that is not found does not signal a plain Error. -/
theorem doesNotUnderstand_ne_error
    (hforeign : sp.canSendToForeignException recv selector = false) :
    sp.doesNotUnderstand recv selector args ≠ .error e := by
  simp only [Space.doesNotUnderstand, hforeign, Bool.false_eq_true, if_false]
  cases hattr : sp.getAttribute (sp.methodHolder recv) "doesNotUnderstand:" with
  | none => simp
  | some attr =>
      cases hbc : sp.bcPtr attr with
      | none => simp [hbc]
      | some module =>
          simp only [Option.bind_some, hbc, Space.sendDynamic, Space.sendDynamicFrom,
            hattr]
          split
          · rename_i outcome houtcome
            split at houtcome
            · cases houtcome
            · cases houtcome
              simp [Space.runMethod]
          · simp
          · simp

theorem activate_ne_error (harity : ∀ expected got, e ≠ .arity c.selector expected got)
    (hvalue : e ≠ .valueAttribute c.selector)
    (hblock : ∀ expected got, e ≠ .blockArity expected got) :
    sp.activate c recv attr ≠ .error e := by
  unfold Space.activate
  split
  · split
    · exact fun h => harity _ _ (Outcome.error.inj h).symm
    · simp [Space.runMethod]
  · split
    · exact Space.runTarget_ne_error (t := .primitive _) hblock
    · split
      · simp
      · exact fun h => hvalue (Outcome.error.inj h).symm

theorem lookup_eq (hop : c.op.isSuper = false) :
    sp.lookup c recv = .ok (sp.getAttribute (sp.methodHolder recv) c.selector) := by
  unfold Space.lookup
  cases hc : c.op with
  | super => simp [hc, SendOp.isSuper] at hop
  | unary | binary | keyword => rfl

theorem blockModule_eq_none (hblock : ¬ sp.EvaluatesBlock c recv) :
    (if c.isValueFamily = true then sp.bcPtr recv else none) = none := by
  by_cases hvalue : c.isValueFamily = true
  · have hbc : ¬ (sp.bcPtr recv).isSome := fun hsome => hblock ⟨hvalue, hsome⟩
    simpa [hvalue] using hbc
  · simp [hvalue]

/-- A send that fails as a dynamic send does goes to `Error` for a foreign
exception. -/
theorem send_eq_error (hop : c.op.isSuper = false) (hactor : sp.isActor recv = false)
    (he : e = .notUnderstood c.selector ∨ e = .dynamicArity c.selector) :
    sp.send c recv = .error e ↔
      ¬ sp.EvaluatesBlock c recv ∧ sp.Misses c recv ∧
        sp.canSendToForeignException recv c.selector = true ∧
        sp.sendToForeignException recv c.selector c.args = .error e := by
  have hblockArity : ∀ expected got, e ≠ .blockArity expected got := by
    rcases he with rfl | rfl <;> simp
  have hactivate : ∀ attr, sp.activate c recv attr ≠ .error e := by
    intro attr
    rcases he with rfl | rfl <;> exact activate_ne_error (by simp) (by simp) (by simp)
  have hdnu : sp.doesNotUnderstand recv c.selector c.args = .error e ↔
      sp.canSendToForeignException recv c.selector = true ∧
        sp.sendToForeignException recv c.selector c.args = .error e := by
    cases hforeign : sp.canSendToForeignException recv c.selector with
    | true => simp [Space.doesNotUnderstand, hforeign]
    | false => simpa using doesNotUnderstand_ne_error hforeign
  have hlookup : sp.lookup c recv = _ := lookup_eq hop
  unfold Space.send Misses
  simp only [hactor, Bool.false_and, Bool.false_eq_true, if_false, hlookup]
  by_cases hblock : sp.EvaluatesBlock c recv
  · obtain ⟨hvalue, hsome⟩ := id hblock
    obtain ⟨module, hbc⟩ := Option.isSome_iff_exists.mp hsome
    have hrun : sp.runBlock module recv c.args =
        sp.runTarget recv c.args (.primitive sp.blockValue) := by
      simp [Space.runTarget, Space.callPrimitive, hbc]
    simp only [hvalue, hbc, if_true, hrun, hblock, not_true, false_and, iff_false]
    exact Space.runTarget_ne_error hblockArity
  · rw [blockModule_eq_none hblock]
    simp only [hblock, not_false_eq_true, true_and]
    cases hattr : sp.getAttribute (sp.methodHolder recv) c.selector with
    | none => simpa using hdnu
    | some attr =>
        cases hhidden : sp.hidden recv attr with
        | true => simpa [hhidden] using hdnu
        | false => simpa [hhidden] using hactivate attr

end Failing

/-! ## The sends of `perform:` -/

section Performing

variable {sp} {form : PerformForm Obj} {recv wrapped sel attr : Obj} {args : List Obj}
  {c : Send Obj} {t : Target Obj}

theorem performSelector_ne (argc n : Nat) :
    performSelector argc ≠ String.join (List.replicate (n + 1) "value:") := by
  intro heq
  have hlist := congrArg (fun s => s.toList.head?) heq
  simp only [performSelector_toList, List.replicate_succ, String.join_cons,
    String.toList_append] at hlist
  have hleft : "perform:".toList = 'p' :: "erform:".toList := rfl
  have hright : "value:".toList = 'v' :: "alue:".toList := rfl
  rw [hleft, hright] at hlist
  simp at hlist

theorem isActorLocalSelector_take {selector : String}
    (h : isActorLocalSelector selector = true) :
    selector.toList.take 8 ≠ "perform:".toList := by
  unfold isActorLocalSelector at h
  rw [decide_eq_true_eq] at h
  revert selector
  decide

theorem performSend_notLocal :
    isActorLocalSelector (performSend form sel args).selector = false := by
  cases form with
  | withArguments array =>
      show isActorLocalSelector "perform:withArguments:" = false
      decide
  | «with» =>
      rw [Bool.eq_false_iff]
      intro hlocal
      refine isActorLocalSelector_take hlocal ?_
      show (performSelector args.length).toList.take 8 = _
      rw [performSelector_toList, List.take_append_of_le_length (by decide)]
      decide

theorem performSend_notValue : (performSend form sel args).isValueFamily = false := by
  cases form with
  | withArguments array =>
      have hne : "perform:withArguments:" ≠ String.join (List.replicate 2 "value:") := by
        decide
      exact decide_eq_false hne
  | «with» => exact decide_eq_false (performSelector_ne args.length args.length)

theorem performSend_isSuper : (performSend form sel args).op.isSuper = false := by
  cases form <;> rfl

/-- A send that finds a method or a primitive. -/
theorem send_of_target (hop : c.op.isSuper = false) (hactor : sp.isActor recv = false)
    (hvalue : c.isValueFamily = false)
    (hattr : sp.getAttribute (sp.methodHolder recv) c.selector = some attr)
    (hvisible : sp.hidden recv attr = false) (htarget : sp.target attr = some t)
    (htakes : t.takes c.args.length = true) :
    sp.send c recv = sp.runTarget recv c.args t := by
  rw [Space.send_eq_run hop hactor]
  have hfound : sp.sendAttribute c recv = some attr := by
    unfold Space.sendAttribute
    rw [hattr, Option.filter_some]
    simp [hvisible]
  simp [hvalue, hfound, htarget, htakes]

theorem callPrimitive_perform :
    sp.callPrimitive sp.performIndex recv args =
      .primitive sp.performIndex recv args := by
  unfold Space.callPrimitive
  split
  · rw [if_neg sp.performIndex_ne]
  · rfl

/-- The primitive sends the selector. -/
theorem performPrimitive_eq {array : Obj} {selector : String}
    (hsel : sp.asString sel = some selector) (hgiven : sp.Given args (.withArguments array)) :
    sp.performPrimitive recv [sel, array] =
      .ok (sp.performWithArguments recv selector args) := by
  unfold performPrimitive
  by_cases hnil : sp.kind array = .nil
  · have hargs : args = [] := by simpa [Given, hnil] using hgiven
    simp [hsel, hnil, hargs]
  · have hdata : sp.data array = some args := by simpa [Given, hnil] using hgiven
    simp [hsel, hnil, hdata]

end Performing

/-! ## Receivers that are no actors -/

section Receivers

variable {sp} {recv wrapped : Obj} {selector : String} {args : List Obj} {c : Send Obj}

theorem perform_eq_send_iff (hop : c.op.isSuper = false)
    (hactor : sp.isActor recv = false) :
    sp.performWithArguments recv c.selector c.args = sp.send c recv ↔
      sp.FindAlike c recv ∨ sp.FailAlike c recv := by
  rw [performWithArguments_eq]
  unfold FindAlike FailAlike
  cases hfails : (sp.performTarget recv c.selector).all
      fun t => !t.takes c.args.length with
  | false =>
      cases hfound : sp.performTarget recv c.selector with
      | none => simp [hfound] at hfails
      | some t =>
          have htakes : t.takes c.args.length = true := by
            simpa [hfound] using hfails
          have hrun : sp.dynamicOutcome recv c.selector c.args (some t) =
              sp.runTarget recv c.args t := by simp [dynamicOutcome, htakes]
          rw [hrun, eq_comm, Space.send_eq_run hop hactor]
          simp only [Option.some.injEq, exists_eq_left', htakes, and_true, true_and,
            Bool.false_eq_true, and_false, or_false]
          exact Iff.rfl
  | true =>
      have hnot : ¬ ∃ t, sp.performTarget recv c.selector = some t ∧
          t.takes c.args.length = true ∧
          (if sp.EvaluatesBlock c recv then t = .primitive sp.blockValue
            else (sp.sendAttribute c recv).bind sp.target = some t) := by
        rintro ⟨t, hfound, htakes, -⟩
        simp [hfound, htakes] at hfails
      rw [← dynamicOutcome_eq_iff hfails]
      simp only [hnot, false_or, and_true]
      rcases dynamicOutcome_of_fails hfails with ⟨heq, -⟩ | ⟨heq, -⟩
      · rw [heq, eq_comm, send_eq_error hop hactor (.inl rfl), sendToForeignException_eq,
          eq_comm]
        simp only [eq_comm]
      · rw [heq, eq_comm, send_eq_error hop hactor (.inr rfl), sendToForeignException_eq]
        simp only [eq_comm]

/-- The turn of an actor. -/
theorem perform_eq_drain_iff :
    sp.performWithArguments wrapped selector args =
        sp.drainMessage wrapped ⟨selector, args⟩ ↔
      ∃ t, sp.performTarget wrapped selector = some t ∧ t.takes args.length = true ∧
        (sp.getAttribute wrapped selector).bind sp.target = some t := by
  rw [performWithArguments_eq]
  cases hturn : (sp.getAttribute wrapped selector).bind sp.target with
  | none =>
      obtain ⟨e, hfail, -⟩ := Space.drain_of_none args hturn
      rw [hfail]
      simp only [reduceCtorEq, and_false, exists_false, iff_false]
      unfold dynamicOutcome
      split
      · simp
      · split
        · exact Space.runTarget_ne_runtimeError
        · simp
  | some t =>
      rw [Space.drain_of_target hturn]
      cases hfound : sp.performTarget wrapped selector with
      | none =>
          simpa [dynamicOutcome] using (Space.runTarget_ne_error (by simp)).symm
      | some t' =>
          cases htakes : t'.takes args.length with
          | false =>
              simpa [dynamicOutcome, htakes] using
                (Space.runTarget_ne_error (by simp)).symm
          | true =>
              simp only [dynamicOutcome, htakes, if_true, Option.some.injEq]
              constructor
              · intro h
                exact ⟨t', rfl, htakes, (Space.runTarget_inj h).symm⟩
              · rintro ⟨_, rfl, -, rfl⟩
                rfl

end Receivers

/-! ## The dispatch of a `perform:` -/

section Answers

variable {sp} {form : PerformForm Obj} {recv wrapped root sel array : Obj}
  {args : List Obj} {c : Send Obj}

/-- The send of `perform:withArguments:` to an object. -/
theorem send_withArguments (hactor : sp.isActor recv = false)
    (hfinds : sp.FindsPrimitive (sp.methodHolder recv) recv) :
    sp.send (withArgumentsSend sel array) recv =
      .primitive sp.performIndex recv [sel, array] := by
  obtain ⟨attr, hattr, hvisible, htarget⟩ := hfinds
  have hvalue : (withArgumentsSend sel array).isValueFamily = false :=
    (performSend_notValue : (performSend (.withArguments array) sel []).isValueFamily = false)
  rw [send_of_target rfl hactor hvalue hattr hvisible htarget rfl]
  exact callPrimitive_perform

/-- `Object >> perform:` and the others go on with the primitive. -/
theorem runForm_eq {attr : Obj} {module : BytecodeModule} {captured : Option Obj}
    (hmodule : sp.performModule args.length = some module)
    (hactor : sp.isActor recv = false)
    (hfinds : sp.FindsPrimitive (sp.methodHolder recv) recv)
    (hsel : sp.asString sel = some c.selector) :
    sp.runForm (.method attr module recv captured (sel :: args)) =
      .ok (sp.performWithArguments recv c.selector args) := by
  rw [runForm, if_pos hmodule, send_withArguments hactor hfinds, runPrimitive, if_pos rfl]
  exact performPrimitive_eq hsel (by simp [Given, sp.kind_array, sp.data_array])

/-- What the target of a `perform:` goes on with. -/
theorem run_target (hsel : sp.asString sel = some c.selector)
    (hgiven : sp.Given args form)
    (hactor : form = .with → sp.isActor recv = false)
    (hinherits : sp.Inherits args.length form root recv) :
    ∃ attr t, sp.getAttribute root (performSend form sel args).selector = some attr ∧
      sp.hidden recv attr = false ∧ sp.target attr = some t ∧
      t.takes (performSend form sel args).args.length = true ∧
      sp.run form (sp.runTarget recv (performSend form sel args).args t) =
        .ok (sp.performWithArguments recv c.selector args) := by
  cases form with
  | withArguments array =>
      obtain ⟨attr, hattr, hvisible, htarget⟩ := hinherits
      refine ⟨attr, _, hattr, hvisible, htarget, rfl, ?_⟩
      show sp.runPrimitive (sp.callPrimitive sp.performIndex recv [sel, array]) = _
      rw [callPrimitive_perform, runPrimitive, if_pos rfl]
      exact performPrimitive_eq hsel hgiven
  | «with» =>
      obtain ⟨⟨attr, module, hattr, hvisible, htarget, hcount, hmodule⟩, hfinds⟩ :=
        hinherits
      refine ⟨attr, _, hattr, hvisible, htarget, ?_, ?_⟩
      · have hlength : module.argCount = (sel :: args).length + 1 := hcount
        exact decide_eq_true hlength
      · exact runForm_eq hmodule (hactor rfl) hfinds hsel

/-- The outcome is in the mailbox of an actor. -/
def Enqueued (outcome : Outcome Obj) : Prop :=
  ∃ actor message, outcome = .enqueued actor message

theorem answer_eq {next : Outcome Obj → Except String (Outcome Obj)}
    {outcome : Outcome Obj} (h : ¬ Enqueued outcome) :
    sp.answer next outcome = ⟨none, next outcome⟩ := by
  unfold answer
  split
  · exact absurd ⟨_, _, rfl⟩ h
  · rfl

theorem runTarget_not_enqueued {t : Target Obj} :
    ¬ Enqueued (sp.runTarget recv args t) := by
  rintro ⟨actor, message, heq⟩
  rcases Space.runTarget_cases sp.toSpace recv args t with ⟨_, _, _, hrun⟩ |
    ⟨_, _, _, _, hrun⟩ | ⟨_, hrun⟩ | ⟨_, _, hrun⟩ <;>
  rw [hrun] at heq <;> cases heq

theorem dynamicOutcome_not_enqueued {selector : String}
    {found : Option (Target Obj)} :
    ¬ Enqueued (sp.dynamicOutcome recv selector args found) := by
  unfold dynamicOutcome
  split
  · rintro ⟨_, _, heq⟩
    cases heq
  · split
    · exact runTarget_not_enqueued
    · rintro ⟨_, _, heq⟩
      cases heq

theorem doesNotUnderstand_not_enqueued {selector : String} :
    ¬ Enqueued (sp.doesNotUnderstand recv selector args) := by
  unfold Space.doesNotUnderstand
  split
  · rw [sendToForeignException_eq]
    exact dynamicOutcome_not_enqueued
  · dsimp only
    split
    · simp only [Space.sendDynamic, Space.sendDynamicFrom_eq]
      rintro ⟨actor, message, heq⟩
      split at heq
      · rename_i outcome houtcome
        obtain ⟨t, -, hrun⟩ := Option.map_eq_some_iff.mp houtcome
        split at hrun
        · cases hrun
          exact runTarget_not_enqueued ⟨_, _, heq⟩
        · cases hrun
      · cases heq
      · cases heq
    · rintro ⟨_, _, heq⟩
      cases heq

/-- Only a message to an actor is put into a mailbox. -/
theorem send_not_enqueued
    (hlocal : (sp.isActor recv && !isActorLocalSelector c.selector) = false) :
    ¬ Enqueued (sp.send c recv) := by
  have hblock : ∀ module, ¬ Enqueued (sp.runBlock module recv c.args) := by
    rintro module ⟨_, _, heq⟩
    unfold Space.runBlock at heq
    split at heq <;> cases heq
  have hactivate : ∀ attr, ¬ Enqueued (sp.activate c recv attr) := by
    rintro attr ⟨_, _, heq⟩
    unfold Space.activate at heq
    split at heq
    · split at heq <;> cases heq
    · split at heq
      · exact runTarget_not_enqueued (t := .primitive _) ⟨_, _, heq⟩
      · split at heq <;> cases heq
  unfold Space.send
  rw [hlocal]
  simp only [Bool.false_eq_true, if_false]
  split
  · exact hblock _
  · split
    · rintro ⟨_, _, heq⟩
      cases heq
    · exact doesNotUnderstand_not_enqueued
    · split
      · exact doesNotUnderstand_not_enqueued
      · exact hactivate _

theorem drainMessage_not_enqueued {message : Message Obj} :
    ¬ Enqueued (sp.drainMessage wrapped message) := by
  cases hturn : (sp.getAttribute wrapped message.selector).bind sp.target with
  | none =>
      obtain ⟨e, hfail, -⟩ := Space.drain_of_none message.args hturn
      rintro ⟨_, _, heq⟩
      rw [hfail] at heq
      cases heq
  | some t =>
      rw [Space.drain_of_target hturn]
      exact runTarget_not_enqueued

/-- The turn of an actor with a `perform:`. -/
theorem run_turn (hsel : sp.asString sel = some c.selector) (hgiven : sp.Given args form)
    (hactor : form = .with → sp.isActor wrapped = false)
    (hinherits : sp.Inherits args.length form wrapped wrapped) :
    sp.run form (sp.drainMessage wrapped
        ⟨(performSend form sel args).selector, (performSend form sel args).args⟩) =
      .ok (sp.performWithArguments wrapped c.selector args) := by
  obtain ⟨attr, t, hattr, -, htarget, -, hrun⟩ :=
    run_target hsel hgiven hactor hinherits
  rw [Space.drain_of_target (t := t) (by simp [hattr, htarget])]
  exact hrun

/-- The methods of `Object` send to an actor that an actor wraps. -/
theorem run_turn_actor (hactor : sp.isActor wrapped = true)
    (hinherits : sp.Inherits args.length .with wrapped wrapped) :
    ∃ message, sp.run .with (sp.drainMessage wrapped
        ⟨(performSend .with sel args).selector, (performSend .with sel args).args⟩) =
      .ok (.enqueued wrapped message) := by
  obtain ⟨⟨attr, module, hattr, -, htarget, -, hmodule⟩, -⟩ := hinherits
  have hsend : sp.send (withArgumentsSend sel (sp.array args)) wrapped =
      .enqueued wrapped ⟨"perform:withArguments:", [sel, sp.array args]⟩ := by
    have hlocal : isActorLocalSelector
        (performSend (.withArguments (sp.array args)) sel args).selector = false :=
      performSend_notLocal
    unfold Space.send
    rw [hactor]
    exact if_pos (by simpa [performSend] using hlocal)
  have hturn : (sp.getAttribute wrapped
      (performSend (.with : PerformForm Obj) sel args).selector).bind sp.target =
        some (.method attr module) := by
    show (sp.getAttribute wrapped (performSelector args.length)).bind sp.target = _
    simp [hattr, htarget]
  refine ⟨⟨"perform:withArguments:", [sel, sp.array args]⟩, ?_⟩
  rw [Space.drain_of_target hturn]
  show sp.runForm (.method attr module wrapped _ (sel :: args)) = _
  rw [runForm, if_pos hmodule, hsend]
  rfl

end Answers

/-- **A `perform:` and the send it names.** -/
theorem perform_send_iff (sp : PerformSpace Obj) (form : PerformForm Obj) (c : Send Obj)
    (recv sel : Obj) (hop : c.op.isSuper = false)
    (hsel : sp.asString sel = some c.selector) (hgiven : sp.Given c.args form)
    (hperforms : sp.Performs form c.args.length recv) :
    sp.performAnswer form sel c.args recv = sp.sendAnswer c recv ↔
      sp.PerformAgrees form c recv := by
  unfold performAnswer sendAnswer PerformAgrees
  unfold Performs at hperforms
  cases hwrapped : sp.getOwnAttributeDirect recv "__wrapped__" with
  | none =>
      rw [hwrapped] at hperforms
      have hactor : sp.isActor recv = false := by simp [Space.isActor, hwrapped]
      obtain ⟨attr, t, hattr, hvisible, htarget, htakes, hrun⟩ :=
        run_target hsel hgiven (fun _ => hactor) hperforms
      have hsend := send_of_target performSend_isSuper hactor performSend_notValue hattr
        hvisible htarget htakes
      rw [hsend, answer_eq runTarget_not_enqueued, hrun,
        answer_eq (send_not_enqueued (by simp [hactor]))]
      simpa using perform_eq_send_iff hop hactor
  | some wrapped =>
      rw [hwrapped] at hperforms
      have hactor : sp.isActor recv = true := by simp [Space.isActor, hwrapped]
      have henqueued : sp.send (performSend form sel c.args) recv =
          .enqueued recv ⟨(performSend form sel c.args).selector,
            (performSend form sel c.args).args⟩ := by
        simp [Space.send, hactor, performSend_notLocal]
      have hturn : ∀ message, sp.drainOne recv message =
          sp.drainMessage wrapped message := fun message => by
        simp [Space.drainOne, hwrapped]
      rw [henqueued]
      unfold TurnFindsAlike
      cases hlocal : isActorLocalSelector c.selector with
      | true =>
          rw [answer_eq (send_not_enqueued (by simp [hlocal]))]
          simp [answer]
      | false =>
          have hsend : sp.send c recv = .enqueued recv ⟨c.selector, c.args⟩ := by
            simp [Space.send, hactor, hlocal]
          rw [hsend]
          simp only [answer, hturn, Answer.mk.injEq, true_and]
          by_cases hnested : form = .with → sp.isActor wrapped = false
          · rw [run_turn hsel hgiven hnested hperforms]
            rw [Except.ok.injEq, perform_eq_drain_iff, and_iff_right hnested]
          · obtain ⟨rfl, hinner⟩ := Classical.not_imp.mp hnested
            obtain ⟨message, hrun⟩ :=
              run_turn_actor (by simpa using hinner) hperforms
            rw [hrun]
            constructor
            · intro heq
              exact absurd ⟨_, _, (Except.ok.inj heq).symm⟩ drainMessage_not_enqueued
            · intro hagrees
              exact absurd hagrees.1 hnested

end PerformSpace

/-! ## An object that is sent `perform:` -/

/-- The object 3 and its actor 20.  Its class 2 has a method `foo`, a call-form method
`tally(n)`, a class-side method `make`, a `doesNotUnderstand:` and the value `count`.
The symbols are 30 to 35, and 0 is `nil`. -/
def performSpace : PerformSpace Nat :=
  { bareSpace with
    kind := fun
      | 0 => .nil
      | _ => .object
    getParents := fun
      | 3 => [2]
      | _ => []
    getAttribute := fun recv selector =>
      match recv, selector with
      | 2, "count" | 3, "count" => some 5
      | 2, "foo" | 3, "foo" => some 6
      | 2, "tally" | 3, "tally" => some 7
      | 2, "make" | 3, "make" => some 4
      | 2, "doesNotUnderstand:" | 3, "doesNotUnderstand:" => some 8
      | 2, "perform:withArguments:" | 3, "perform:withArguments:" => some 10
      | _, _ => none
    getOwnAttributeDirect := fun recv key =>
      match recv, key with
      | 2, "__class_name__" => some 9
      | 4, "__class_side__" => some 1
      | 20, "__wrapped__" => some 3
      | _, _ => none
    asLong := fun
      | 5 => some 12
      | 10 => some (2 ^ 62 + 7)
      | _ => none
    asString := fun
      | 30 => some "count"
      | 31 => some "missing"
      | 32 => some "make"
      | 33 => some "tally"
      | 34 => some "foo"
      | 35 => some "isNil"
      | _ => none
    bcPtr := fun
      | 4 => some ⟨0, 1, false, 0, []⟩
      | 6 => some ⟨1, 1, false, 0, []⟩
      | 7 => some ⟨2, 2, true, 1, []⟩
      | 8 => some ⟨3, 2, false, 0, []⟩
      | _ => none
    performIndex := 7
    performIndex_ne := by decide
    performModule := fun _ => none
    array := fun args => 100 + Encodable.encode args
    data := fun v => if v < 100 then none else Encodable.decode (v - 100)
    data_array := fun args => by simp
    kind_array := fun args => by
      have hne : 100 + Encodable.encode args ≠ 0 := by omega
      split
      · omega
      · simp }

theorem perform_send_differs :
    performSpace.sendAnswer ⟨.unary, "count", [], rfl⟩ 3 = ⟨none, .ok (.value 5)⟩ ∧
      performSpace.performAnswer (.withArguments 0) 30 [] 3 =
        ⟨none, .ok (.error (.notUnderstood "count"))⟩ ∧
      performSpace.sendAnswer ⟨.unary, "missing", [], rfl⟩ 3 =
        ⟨none, .ok (.method 8 ⟨3, 2, false, 0, []⟩ 3 none
          [performSpace.makeMessage "missing" []])⟩ ∧
      performSpace.performAnswer (.withArguments 0) 31 [] 3 =
        ⟨none, .ok (.error (.notUnderstood "missing"))⟩ ∧
      performSpace.sendAnswer ⟨.unary, "make", [], rfl⟩ 3 =
        ⟨none, .ok (.method 8 ⟨3, 2, false, 0, []⟩ 3 none
          [performSpace.makeMessage "make" []])⟩ ∧
      performSpace.performAnswer (.withArguments 0) 32 [] 3 =
        ⟨none, .ok (.method 4 ⟨0, 1, false, 0, []⟩ 3 none [])⟩ ∧
      performSpace.sendAnswer ⟨.unary, "tally", [], rfl⟩ 3 =
        ⟨none, .ok (.error (.arity "tally" 1 0))⟩ ∧
      performSpace.performAnswer (.withArguments 0) 33 [] 3 =
        ⟨none, .ok (.error (.dynamicArity "tally"))⟩ ∧
      (performSpace.sendAnswer ⟨.unary, "isNil", [], rfl⟩ 20).future = none ∧
      (performSpace.performAnswer (.withArguments 0) 35 [] 20).future = some 20 ∧
      ¬ ∀ (sp : PerformSpace Nat) (form : PerformForm Nat) (c : Send Nat) (recv sel : Nat),
        c.op.isSuper = false → sp.asString sel = some c.selector →
        sp.Given c.args form → sp.Performs form c.args.length recv →
        sp.performAnswer form sel c.args recv = sp.sendAnswer c recv := by
  refine ⟨by decide, by decide, by decide, by decide, by decide, by decide, by decide,
    by decide, by decide, by decide, fun h => ?_⟩
  have hcount := h performSpace (.withArguments 0) ⟨.unary, "count", [], rfl⟩ 3 30 rfl
    rfl rfl ⟨10, rfl, rfl, by decide⟩
  exact absurd hcount (by decide)

theorem perform_send_iff_foo :
    performSpace.performAnswer (.withArguments 0) 34 [] 3 =
        performSpace.sendAnswer ⟨.unary, "foo", [], rfl⟩ 3 ↔
      performSpace.PerformAgrees (.withArguments 0) ⟨.unary, "foo", [], rfl⟩ 3 :=
  PerformSpace.perform_send_iff performSpace (.withArguments 0)
    ⟨.unary, "foo", [], rfl⟩ 3 34 rfl rfl rfl ⟨10, rfl, rfl, by decide⟩

end ProtoST.Runtime.Dispatch

import ProtoST.Lib.Journal

/-!
# Cleanup blocks

`b ensure: c` and `b ifCurtailed: c` (`exception_prims.cpp`) evaluate `b` and `c` in
nested engines, with a `try` statement around them, and `b on: guard do: handler` is
where the exits that cross them end.  Everything else a thread runs is a `Program`:
code that may do anything between two of these evaluations, exits included.

A journal records what happens to each evaluation, in order.  It is not read by
anything, and says when a cleanup block ran.

## Main definitions

* `Exit` — how an evaluation ends.
* `prim_Block_ensure`, `prim_Block_ifCurtailed`, `runProtectedSingle`.
* `run` — the evaluation of code.
* `CleansOnce`, `CleanupEnds`.

## Main results

* `run_grows` — what a computation adds to the journal.
* `cleansOnce_iff` — when the cleanup block is evaluated as it should be.
-/

namespace ProtoST.Primitives.Cleanup

open ProtoST.Lib

/-! ## The thread -/

/-- How an evaluation ends: with a value, or by a C++ exception. -/
inductive Exit (V X : Type) where
  | normal (v : V)
  /-- `UnwindToHandler`: `return:`, or the end of a handler. -/
  | unwindToHandler (handlerId : Nat) (v : V)
  /-- `RetrySignal`. -/
  | retrySignal (handlerId : Nat)
  | nestingLimitUnwind (handlerId : Nat)
  | nonLocalReturn (home : Nat) (v : V)
  | futureYield
  | runtimeError (text : String)
  /-- Any other exception, `UnhandledSTException` among them. -/
  | thrown (e : X)
  deriving DecidableEq, Repr

/-- Did the evaluation end normally? -/
def Exit.isNormal {V X : Type} : Exit V X → Bool
  | .normal _ => true
  | _ => false

/-- Is it an exit that the `catch (...)` clauses take? -/
def Exit.isCaught {V X : Type} : Exit V X → Bool
  | .normal _ | .futureYield => false
  | _ => true

/-- What was thrown last is what leaves: `y` if the cleanup ended by an exception,
`x` if it ended normally. -/
def Exit.unless {V X : Type} (x y : Exit V X) : Exit V X :=
  match y with
  | .normal _ => x
  | _ => y

/-- The constructs with a cleanup block. -/
inductive Kind where
  | ensure
  | ifCurtailed
  deriving DecidableEq, Repr

/-- What happens to the evaluation with the number `call`. -/
inductive Event (V X : Type) where
  | began (call : Nat)
  /-- The protected block ended. -/
  | ended (call : Nat) (x : Exit V X)
  /-- The code of the cleanup block starts. -/
  | cleanup (call : Nat)
  | cleaned (call : Nat) (y : Exit V X)
  /-- An `on:do:` is the target of the exit. -/
  | landed (call : Nat) (x : Exit V X)
  | left (call : Nat) (z : Exit V X)
  deriving DecidableEq, Repr

/-- The evaluation an event is about. -/
def Event.call {V X : Type} : Event V X → Nat
  | .began i | .ended i _ | .cleanup i | .cleaned i _ | .landed i _ | .left i _ => i

/-- An entry of the handler stack. -/
structure HandlerEntry (V : Type) where
  guardClass : V
  handlerBlock : V
  handlerId : Nat
  enabled : Bool
  deriving DecidableEq, Repr

/-- What code reads and writes. -/
structure Machine (V M : Type) where
  memory : M
  /-- The handler stack, innermost first. -/
  handlers : List (HandlerEntry V)
  nextHandlerId : Nat
  deriving DecidableEq, Repr

structure State (V X M : Type) where
  machine : Machine V M
  journal : Journal (Event V X)
  deriving DecidableEq, Repr

/-- Where on the native stack something runs: `g_liveEngines.size()` and
`g_slotCursor`, which are what they were once it is left. -/
structure Level where
  engines : Nat
  slotCursor : Nat
  deriving DecidableEq, Repr

def kMaxNestedEngines : Nat := 1000

def kFrameRegionLimit : Nat := 1 <<< 20

def kNestingLimitMessage : String := "stack depth exceeded (nested block evaluation)"

/-- What a value is for `invokeBlock`. -/
inductive Evaluable (V K : Type) where
  | closure (argCount regionSize : Nat) (code : List V → K)
  /-- Not a block: what a send of `value`, `value:` or `value:value:` runs, if it is
  understood. -/
  | object (value : List V → Option K)

/-- A primitive that evaluates blocks. -/
inductive Primitive (V : Type) where
  | value (b : V) (args : List V)
  | ensure (b c : V)
  | ifCurtailed (b c : V)
  | onDo (b guardClass handlerBlock : V)

/-- What code does next: it ends, or it calls a primitive with the slot cursor where
the frames of its engine end, and goes on with the exit of the primitive. -/
inductive Move (V X K : Type) where
  | finish (x : Exit V X)
  | call (p : Primitive V) (slotCursor : Nat) (resume : Exit V X → K)

structure Program (V X K M : Type) where
  evaluable : V → Evaluable V K
  next : K → Level → Machine V M → Move V X K × Machine V M
  /-- `signalNestingLimitAt`, for the handler with an id. -/
  signalNestingLimitAt : Nat → K

variable {V X K M : Type}

namespace State

/-- An event. -/
def record (s : State V X M) (e : Event V X) : State V X M :=
  { s with journal := s.journal.add e }

/-- An evaluation begins. -/
def begin (s : State V X M) : State V X M :=
  { s with journal := s.journal.call .began }

/-- `handlerStackPush`. -/
def handlerStackPush (s : State V X M) (guardClass handlerBlock : V) : State V X M :=
  let id := s.machine.nextHandlerId
  { s with machine := { s.machine with
      handlers := ⟨guardClass, handlerBlock, id, true⟩ :: s.machine.handlers
      nextHandlerId := id + 1 } }

/-- `handlerStackPop`. -/
def handlerStackPop (s : State V X M) (id : Nat) : State V X M :=
  { s with machine := { s.machine with
      handlers := s.machine.handlers.filter fun h => h.handlerId ≠ id } }

@[simp] theorem record_machine (s : State V X M) (e : Event V X) :
    (s.record e).machine = s.machine := rfl

@[simp] theorem record_journal (s : State V X M) (e : Event V X) :
    (s.record e).journal = s.journal.add e := rfl

@[simp] theorem begin_machine (s : State V X M) : s.begin.machine = s.machine := rfl

@[simp] theorem begin_journal (s : State V X M) :
    s.begin.journal = s.journal.call .began := rfl

@[simp] theorem handlerStackPush_journal (s : State V X M) (guardClass handlerBlock : V) :
    (s.handlerStackPush guardClass handlerBlock).journal = s.journal := rfl

@[simp] theorem handlerStackPop_journal (s : State V X M) (id : Nat) :
    (s.handlerStackPop id).journal = s.journal := rfl

end State

/-! ## The primitives -/

/-- What evaluates code on a level of the native stack; `none` when it has not ended
yet. -/
abbrev Runner (V X K M : Type) : Type :=
  Level → K → State V X M → Option (Exit V X × State V X M)

/-- Where and with what code `invokeBlock` evaluates `b`, or the text of the exception
it throws instead. -/
def startBlock (P : Program V X K M) (l : Level) (b : V) (args : List V) :
    Except String (Level × K) :=
  match P.evaluable b with
  | .object value =>
      match (if args.length ≤ 2 then value args else none) with
      | some code => .ok (l, code)
      | none => .error "a block was expected here, but the argument is not a block"
  | .closure argCount regionSize code =>
      let argc := args.length
      if argCount ≠ argc then
        .error s!"block arg count mismatch (expected {argCount}, got {argc})"
      -- the new engine is live when `runWithArgs` counts
      else if l.engines + 1 > kMaxNestedEngines then .error kNestingLimitMessage
      else if l.slotCursor + regionSize > kFrameRegionLimit then
        .error "engine slot region exhausted"
      else .ok (⟨l.engines + 1, l.slotCursor + regionSize⟩, code args)

section Primitives

variable (P : Program V X K M) (runner : Runner V X K M)

/-- `invokeBlock`. -/
def invokeBlock (l : Level) (b : V) (args : List V) (s : State V X M) :
    Option (Exit V X × State V X M) :=
  match startBlock P l b args with
  | .error text => some (.runtimeError text, s)
  | .ok at_ => runner at_.1 at_.2 s

/-- `invokeBlock` of the cleanup block of call `i`, on record. -/
def invokeCleanup (i : Nat) (l : Level) (c : V) (s : State V X M) :
    Option (Exit V X × State V X M) :=
  match startBlock P l c [] with
  | .error text => some (.runtimeError text, s)
  | .ok at_ =>
      (runner at_.1 at_.2 (s.record (.cleanup i))).map fun r =>
        (r.1, r.2.record (.cleaned i r.1))

/-- The protected block of call `i`, on record. -/
def invokeProtected (i : Nat) (l : Level) (b : V) (s : State V X M) :
    Option (Exit V X × State V X M) :=
  (invokeBlock P runner l b [] s).map fun r => (r.1, r.2.record (.ended i r.1))

/-- After the `catch` clauses: `exit` is what they caught, if anything. -/
def afterCatch (i : Nat) (l : Level) (c : V) (exit : Exit V X) (s : State V X M) :
    Option (Exit V X × State V X M) :=
  match exit with
  | .normal v => some (.normal v, s.record (.left i (.normal v)))
  | .futureYield => some (.futureYield, s.record (.left i .futureYield))
  | exit =>
      (invokeCleanup P runner i l c s).map fun r =>
        (exit.unless r.1, r.2.record (.left i (exit.unless r.1)))

/-- `protectedBlock ensure: cleanupBlock`. -/
def prim_Block_ensure (l : Level) (b c : V) (s : State V X M) :
    Option (Exit V X × State V X M) :=
  let i := s.journal.next
  (invokeProtected P runner i l b s.begin).bind fun r =>
    match r.1 with
    | .normal v =>
        -- still inside the `try`
        (invokeCleanup P runner i l c r.2).bind fun q =>
          afterCatch P runner i l c ((Exit.normal v).unless q.1) q.2
    | x => afterCatch P runner i l c x r.2

/-- `protectedBlock ifCurtailed: cleanupBlock`. -/
def prim_Block_ifCurtailed (l : Level) (b c : V) (s : State V X M) :
    Option (Exit V X × State V X M) :=
  let i := s.journal.next
  (invokeProtected P runner i l b s.begin).bind fun r => afterCatch P runner i l c r.1 r.2

/-- The loop of `runProtectedSingle`, for call `i`.  `pending` is the id whose handler
runs on the nesting limit's `Error` instead of the protected block. -/
def attempts (i : Nat) (l : Level) (b guardClass handlerBlock : V) :
    Nat → Option Nat → State V X M → Option (Exit V X × State V X M)
  | 0, _, _ => none
  | turns + 1, pending, s =>
      let id := pending.getD s.machine.nextHandlerId
      let tried :=
        match pending with
        | some id => runner l (P.signalNestingLimitAt id) s
        | none => invokeBlock P runner l b [] (s.handlerStackPush guardClass handlerBlock)
      tried.bind fun r =>
        let popped := r.2.handlerStackPop id
        let landed := r.2.record (.landed i r.1)
        match r.1 with
        | .unwindToHandler h v =>
            if h = id then some (.normal v, landed.handlerStackPop id)
            else some (r.1, popped)
        | .retrySignal h =>
            if h = id then
              attempts i l b guardClass handlerBlock turns none (landed.handlerStackPop id)
            else some (r.1, popped)
        | .nestingLimitUnwind h =>
            if h = id ∧ pending.isNone then
              attempts i l b guardClass handlerBlock turns (some id) landed
            else some (r.1, popped)
        | _ => some (r.1, popped)

/-- `runProtectedSingle`: `protectedBlock on: guardClass do: handlerBlock`. -/
def runProtectedSingle (turns : Nat) (l : Level) (b guardClass handlerBlock : V)
    (s : State V X M) : Option (Exit V X × State V X M) :=
  let i := s.journal.next
  (attempts P runner i l b guardClass handlerBlock turns none s.begin).map fun r =>
    (r.1, r.2.record (.left i r.1))

/-- The primitive `p`. -/
def perform (turns : Nat) (l : Level) : Primitive V → State V X M →
    Option (Exit V X × State V X M)
  | .value b args, s => invokeBlock P runner l b args s
  | .ensure b c, s => prim_Block_ensure P runner l b c s
  | .ifCurtailed b c, s => prim_Block_ifCurtailed P runner l b c s
  | .onDo b guardClass handlerBlock, s =>
      runProtectedSingle P runner turns l b guardClass handlerBlock s

end Primitives

/-- The evaluation of code, to a depth of `n` calls. -/
def run (P : Program V X K M) : Nat → Runner V X K M
  | 0, _, _, _ => none
  | n + 1, l, k, s =>
      let moved := P.next k l s.machine
      let s := { s with machine := moved.2 }
      match moved.1 with
      | .finish x => some (x, s)
      | .call p slotCursor resume =>
          (perform P (run P n) n { l with slotCursor := slotCursor } p s).bind fun r =>
            run P n l (resume r.1) r.2

/-! ## More depth -/

section Depth

variable {P : Program V X K M} {r r' : Runner V X K M} {i : Nat} {l : Level} {b c : V}
  {s s' : State V X M} {x z : Exit V X}

/-- What `r` has ended, `r'` ends with the same result. -/
def Runner.Below (r r' : Runner V X K M) : Prop :=
  ∀ (l : Level) (k : K) (s : State V X M) (q : Exit V X × State V X M),
    r l k s = some q → r' l k s = some q

theorem invokeBlock_mono (h : r.Below r') {args : List V} {q : Exit V X × State V X M}
    (hq : invokeBlock P r l b args s = some q) : invokeBlock P r' l b args s = some q := by
  unfold invokeBlock at hq ⊢
  cases hstart : startBlock P l b args with
  | error text =>
    rw [hstart] at hq
    exact hq
  | ok at_ =>
    rw [hstart] at hq
    exact h _ _ _ _ hq

theorem invokeCleanup_mono (h : r.Below r') {q : Exit V X × State V X M}
    (hq : invokeCleanup P r i l c s = some q) : invokeCleanup P r' i l c s = some q := by
  unfold invokeCleanup at hq ⊢
  cases hstart : startBlock P l c [] with
  | error text =>
    rw [hstart] at hq
    exact hq
  | ok at_ =>
    rw [hstart] at hq
    obtain ⟨q', hq', rfl⟩ := Option.map_eq_some_iff.mp hq
    exact Option.map_eq_some_iff.mpr ⟨q', h _ _ _ _ hq', rfl⟩

theorem invokeProtected_mono (h : r.Below r') {q : Exit V X × State V X M}
    (hq : invokeProtected P r i l b s = some q) : invokeProtected P r' i l b s = some q := by
  obtain ⟨q', hq', rfl⟩ := Option.map_eq_some_iff.mp hq
  exact Option.map_eq_some_iff.mpr ⟨q', invokeBlock_mono h hq', rfl⟩

theorem afterCatch_mono (h : r.Below r') {q : Exit V X × State V X M}
    (hq : afterCatch P r i l c x s = some q) : afterCatch P r' i l c x s = some q := by
  unfold afterCatch at hq ⊢
  split at hq
  · exact hq
  · exact hq
  · obtain ⟨q', hq', rfl⟩ := Option.map_eq_some_iff.mp hq
    exact Option.map_eq_some_iff.mpr ⟨q', invokeCleanup_mono h hq', rfl⟩

theorem prim_Block_ensure_mono (h : r.Below r') {q : Exit V X × State V X M}
    (hq : prim_Block_ensure P r l b c s = some q) :
    prim_Block_ensure P r' l b c s = some q := by
  obtain ⟨p, hp, hq⟩ := Option.bind_eq_some_iff.mp hq
  refine Option.bind_eq_some_iff.mpr ⟨p, invokeProtected_mono h hp, ?_⟩
  split at hq
  · obtain ⟨c, hc, hq⟩ := Option.bind_eq_some_iff.mp hq
    exact Option.bind_eq_some_iff.mpr ⟨c, invokeCleanup_mono h hc, afterCatch_mono h hq⟩
  · exact afterCatch_mono h hq

theorem prim_Block_ifCurtailed_mono (h : r.Below r') {q : Exit V X × State V X M}
    (hq : prim_Block_ifCurtailed P r l b c s = some q) :
    prim_Block_ifCurtailed P r' l b c s = some q := by
  obtain ⟨p, hp, hq⟩ := Option.bind_eq_some_iff.mp hq
  exact Option.bind_eq_some_iff.mpr ⟨p, invokeProtected_mono h hp, afterCatch_mono h hq⟩

theorem attempts_mono (h : r.Below r') {guardClass handlerBlock : V} {turns turns' : Nat}
    (hle : turns ≤ turns') : ∀ {pending : Option Nat} {s : State V X M}
      {q : Exit V X × State V X M},
      attempts P r i l b guardClass handlerBlock turns pending s = some q →
      attempts P r' i l b guardClass handlerBlock turns' pending s = some q := by
  induction turns generalizing turns' with
  | zero =>
    intro pending s q hq
    cases hq
  | succ turns ih =>
    intro pending s q hq
    obtain ⟨turns', rfl⟩ : ∃ m, turns' = m + 1 := ⟨turns' - 1, by omega⟩
    obtain ⟨p, hp, hq⟩ := Option.bind_eq_some_iff.mp hq
    refine Option.bind_eq_some_iff.mpr ⟨p, ?_, ?_⟩
    · cases pending with
      | none => exact invokeBlock_mono h hp
      | some id => exact h _ _ _ _ hp
    · have hrec := @ih turns' (by omega)
      dsimp only at hq ⊢
      split at hq
      · exact hq
      · split at hq
        · rename_i hid
          rw [if_pos hid]
          exact hrec hq
        · rename_i hid
          rw [if_neg hid]
          exact hq
      · split at hq
        · rename_i hid
          rw [if_pos hid]
          exact hrec hq
        · rename_i hid
          rw [if_neg hid]
          exact hq
      · exact hq

theorem perform_mono (h : r.Below r') {turns turns' : Nat} (hle : turns ≤ turns')
    {p : Primitive V} {q : Exit V X × State V X M} (hq : perform P r turns l p s = some q) :
    perform P r' turns' l p s = some q := by
  cases p with
  | value b args => exact invokeBlock_mono h hq
  | ensure b c => exact prim_Block_ensure_mono h hq
  | ifCurtailed b c => exact prim_Block_ifCurtailed_mono h hq
  | onDo b guardClass handlerBlock =>
    obtain ⟨q', hq', rfl⟩ := Option.map_eq_some_iff.mp hq
    exact Option.map_eq_some_iff.mpr ⟨q', attempts_mono h hle hq', rfl⟩

/-- More depth does not change what an evaluation ended with. -/
theorem run_mono {n m : Nat} (hle : n ≤ m) : (run P n).Below (run P m) := by
  induction n generalizing m with
  | zero =>
    intro l k s q hq
    cases hq
  | succ n ih =>
    intro l k s q hq
    obtain ⟨m, rfl⟩ : ∃ k, m = k + 1 := ⟨m - 1, by omega⟩
    have hbelow : (run P n).Below (run P m) := ih (by omega)
    unfold run at hq ⊢
    dsimp only at hq ⊢
    split at hq
    · exact hq
    · obtain ⟨q', hq', hq⟩ := Option.bind_eq_some_iff.mp hq
      exact Option.bind_eq_some_iff.mpr ⟨q', perform_mono hbelow (by omega) hq', hbelow _ _ _ _ hq⟩

end Depth

/-! ## The course of a call -/

/-- Does the cleanup block have to run when the protected block ended with `x`?  A
yield suspends the evaluation, it does not end it. -/
def Kind.needs : Kind → Exit V X → Bool
  | .ensure, x => x.isNormal || x.isCaught
  | .ifCurtailed, x => x.isCaught

/-- The primitive of a construct. -/
def protect (P : Program V X K M) (r : Runner V X K M) : Kind → Level → V → V →
    State V X M → Option (Exit V X × State V X M)
  | .ensure => prim_Block_ensure P r
  | .ifCurtailed => prim_Block_ifCurtailed P r

/-- How call `i` goes on when its protected block has ended with `x`, in state `t`: the
exit and the state it leaves. -/
inductive Course (P : Program V X K M) (r : Runner V X K M) (kind : Kind) (i : Nat)
    (l : Level) (c : V) (x : Exit V X) (t : State V X M) : Exit V X → State V X M → Prop
  | skipped (hneeds : kind.needs x = false) : Course P r kind i l c x t x (t.record (.left i x))
  | unstarted {text : String} {z : Exit V X} (hneeds : kind.needs x = true)
      (hstart : startBlock P l c [] = .error text) :
      Course P r kind i l c x t z (t.record (.left i z))
  | once {at_ : Level × K} {y z : Exit V X} {s : State V X M} (hneeds : kind.needs x = true)
      (hstart : startBlock P l c [] = .ok at_)
      (hrun : invokeBlock P r l c [] (t.record (.cleanup i)) = some (y, s))
      (hkeeps : y.isNormal → z = x) (hends : x.isNormal → y.isCaught = false) :
      Course P r kind i l c x t z ((s.record (.cleaned i y)).record (.left i z))
  /-- The cleanup block failed inside the `try`. -/
  | twice {at_ : Level × K} {y y' z : Exit V X} {s s' : State V X M}
      (hneeds : kind.needs x = true) (hx : x.isNormal) (hy : y.isCaught)
      (hstart : startBlock P l c [] = .ok at_)
      (hrun : invokeBlock P r l c [] (t.record (.cleanup i)) = some (y, s))
      (hagain : invokeBlock P r l c [] ((s.record (.cleaned i y)).record (.cleanup i)) =
        some (y', s')) :
      Course P r kind i l c x t z ((s'.record (.cleaned i y')).record (.left i z))

section Course

variable {P : Program V X K M} {r : Runner V X K M} {kind : Kind} {i : Nat} {l : Level}
  {b c : V} {s s' t : State V X M} {x z : Exit V X}

theorem invokeCleanup_cases {q : Exit V X × State V X M}
    (hq : invokeCleanup P r i l c t = some q) :
    (∃ text, startBlock P l c [] = .error text ∧ q = (.runtimeError text, t)) ∨
      ∃ at_ s, startBlock P l c [] = .ok at_ ∧
        invokeBlock P r l c [] (t.record (.cleanup i)) = some (q.1, s) ∧
        q.2 = s.record (.cleaned i q.1) := by
  unfold invokeCleanup at hq
  unfold invokeBlock
  cases hstart : startBlock P l c [] with
  | error text =>
    rw [hstart] at hq
    exact .inl ⟨text, rfl, (Option.some.inj hq).symm⟩
  | ok at_ =>
    rw [hstart] at hq
    obtain ⟨q', hq', rfl⟩ := Option.map_eq_some_iff.mp hq
    exact .inr ⟨at_, q'.2, rfl, hq', rfl⟩

theorem afterCatch_caught (h : x.isCaught) :
    afterCatch P r i l c x t = (invokeCleanup P r i l c t).map fun q =>
      (x.unless q.1, q.2.record (.left i (x.unless q.1))) := by
  cases x <;> first | rfl | cases h

theorem unless_of_isNormal {y : Exit V X} (h : y.isNormal) : x.unless y = x := by
  cases y <;> first | rfl | cases h

theorem unless_of_caught {y : Exit V X} (h : y.isCaught) : x.unless y = y := by
  cases y <;> first | rfl | cases h

/-- The protected block was left by an exception. -/
theorem course_of_caught (hx : x.isCaught)
    (hq : afterCatch P r i l c x t = some (z, s')) : Course P r kind i l c x t z s' := by
  have hneeds : kind.needs x = true := by
    cases kind
    · exact Bool.or_eq_true_iff.mpr (.inr hx)
    · exact hx
  have hnormal : ¬ x.isNormal := by cases x <;> simp [Exit.isNormal, Exit.isCaught] at hx ⊢
  rw [afterCatch_caught hx] at hq
  obtain ⟨q, hcleanup, heq⟩ := Option.map_eq_some_iff.mp hq
  obtain ⟨rfl, rfl⟩ := Prod.mk.inj heq
  rcases invokeCleanup_cases hcleanup with ⟨text, hstart, rfl⟩ | ⟨at_, s, hstart, hrun, hs⟩
  · exact .unstarted hneeds hstart
  · rw [hs]
    exact .once hneeds hstart hrun unless_of_isNormal fun h => absurd h hnormal

/-- The protected block of `ensure:` ended normally. -/
theorem course_of_normal {v : V}
    (hq : ((invokeCleanup P r i l c t).bind fun q =>
      afterCatch P r i l c ((Exit.normal v).unless q.1) q.2) = some (z, s')) :
    Course P r .ensure i l c (.normal v) t z s' := by
  obtain ⟨q, hcleanup, hrest⟩ := Option.bind_eq_some_iff.mp hq
  rcases invokeCleanup_cases hcleanup with ⟨text, hstart, rfl⟩ | ⟨at_, s, hstart, hrun, hs⟩
  · -- the `catch` clause tries again, with the same result
    have hcaught : ((Exit.normal v : Exit V X).unless (.runtimeError text)).isCaught := rfl
    rw [afterCatch_caught hcaught] at hrest
    obtain ⟨q, hagain, heq⟩ := Option.map_eq_some_iff.mp hrest
    obtain ⟨rfl, rfl⟩ := Prod.mk.inj heq
    rcases invokeCleanup_cases hagain with ⟨text', -, rfl⟩ | ⟨at_, s, hstart', -, -⟩
    · exact .unstarted rfl hstart
    · rw [hstart] at hstart'
      cases hstart'
  · rw [hs] at hrest
    by_cases hy : q.1.isCaught
    · rw [unless_of_caught hy, afterCatch_caught hy] at hrest
      obtain ⟨q', hsecond, heq⟩ := Option.map_eq_some_iff.mp hrest
      obtain ⟨rfl, rfl⟩ := Prod.mk.inj heq
      rcases invokeCleanup_cases hsecond with ⟨text, hstart', -⟩ | ⟨at', s', -, hagain, hs'⟩
      · rw [hstart] at hstart'
        cases hstart'
      · rw [hs']
        exact .twice rfl rfl hy hstart hrun hagain
    · -- a value, or a yield, which the first `catch` clause takes
      have hends : (Exit.normal v : Exit V X).isNormal → q.1.isCaught = false :=
        fun _ => Bool.eq_false_iff.mpr hy
      obtain ⟨y, s₂⟩ := q
      cases y with
      | normal w =>
        obtain ⟨rfl, rfl⟩ := Prod.mk.inj (Option.some.inj hrest)
        exact .once rfl hstart hrun (fun _ => rfl) hends
      | futureYield =>
        obtain ⟨rfl, rfl⟩ := Prod.mk.inj (Option.some.inj hrest)
        exact .once rfl hstart hrun (fun h => nomatch h) hends
      | unwindToHandler | retrySignal | nestingLimitUnwind | nonLocalReturn
      | runtimeError | thrown => exact absurd rfl hy

/-- What a call does. -/
theorem protect_course (hq : protect P r kind l b c s = some (z, s')) :
    ∃ x s₁, invokeBlock P r l b [] s.begin = some (x, s₁) ∧
      Course P r kind s.journal.next l c x (s₁.record (.ended s.journal.next x)) z s' := by
  cases kind with
  | ensure =>
    obtain ⟨p, hp, hq⟩ := Option.bind_eq_some_iff.mp hq
    obtain ⟨⟨x, s₁⟩, hx, rfl⟩ := Option.map_eq_some_iff.mp hp
    refine ⟨x, s₁, hx, ?_⟩
    cases x with
    | normal v => exact course_of_normal hq
    | futureYield =>
      obtain ⟨rfl, rfl⟩ := Prod.mk.inj (Option.some.inj hq)
      exact .skipped rfl
    | unwindToHandler | retrySignal | nestingLimitUnwind | nonLocalReturn
    | runtimeError | thrown => exact course_of_caught rfl hq
  | ifCurtailed =>
    obtain ⟨p, hp, hq⟩ := Option.bind_eq_some_iff.mp hq
    obtain ⟨⟨x, s₁⟩, hx, rfl⟩ := Option.map_eq_some_iff.mp hp
    refine ⟨x, s₁, hx, ?_⟩
    cases x with
    | normal | futureYield =>
      obtain ⟨rfl, rfl⟩ := Prod.mk.inj (Option.some.inj hq)
      exact .skipped rfl
    | unwindToHandler | retrySignal | nestingLimitUnwind | nonLocalReturn
    | runtimeError | thrown => exact course_of_caught rfl hq

end Course

/-! ## What the journal gets -/

section Growth

open Journal (Grows Within)

variable {P : Program V X K M} {r : Runner V X K M} {kind : Kind} {i : Nat} {l : Level}
  {b c : V} {s s' t : State V X M} {x y z : Exit V X} {j : Journal (Event V X)}
  {es : List (Event V X)}

/-- What a runner adds to the journal is about evaluations that it began. -/
def Runner.Logs (r : Runner V X K M) : Prop :=
  ∀ (l : Level) (k : K) (s : State V X M) (q : Exit V X × State V X M),
    r l k s = some q → ∃ es, Grows Event.call s.journal es q.2.journal

theorem begin_grows (s : State V X M) :
    Grows Event.call s.journal [.began s.journal.next] s.begin.journal :=
  Grows.call rfl

theorem invokeBlock_grows (h : r.Logs) {args : List V} {q : Exit V X × State V X M}
    (hq : invokeBlock P r l b args s = some q) :
    ∃ es, Grows Event.call s.journal es q.2.journal := by
  unfold invokeBlock at hq
  split at hq
  · cases hq
    exact ⟨[], .refl⟩
  · exact h _ _ _ _ hq

/-- One evaluation of the cleanup block of call `i`. -/
theorem round_grows (h : r.Logs) (hj : Grows Event.call j es t.journal) (hle : j.next ≤ i)
    (hlt : i < t.journal.next)
    (hrun : invokeBlock P r l c [] (t.record (.cleanup i)) = some (y, s)) :
    ∃ tc, t.journal.next ≤ s.journal.next ∧
      Within Event.call t.journal.next s.journal.next tc ∧
      Grows Event.call j (es ++ [.cleanup i] ++ tc ++ [.cleaned i y])
        (s.record (.cleaned i y)).journal := by
  obtain ⟨tc, htc⟩ := invokeBlock_grows h hrun
  have hstart := hj.add (.cleanup i) hle hlt
  have hlt' : i < s.journal.next := Nat.lt_of_lt_of_le hlt htc.le
  exact ⟨tc, htc.le, htc.within, (hstart.trans htc).add (.cleaned i y) hle hlt'⟩

/-- The call up to the end of its protected block. -/
theorem ended_grows (h : r.Logs) (hrun : invokeBlock P r l b [] s.begin = some (x, t)) :
    ∃ tb, s.journal.next < t.journal.next ∧
      Within Event.call (s.journal.next + 1) t.journal.next tb ∧
      Grows Event.call s.journal
        ([.began s.journal.next] ++ tb ++ [.ended s.journal.next x])
        (t.record (.ended s.journal.next x)).journal := by
  obtain ⟨tb, htb⟩ := invokeBlock_grows h hrun
  have hlt : s.journal.next < t.journal.next := Nat.lt_of_lt_of_le (Nat.lt_succ_self _) htb.le
  exact ⟨tb, hlt, htb.within,
    ((begin_grows s).trans htb).add (.ended _ x) (Nat.le_refl _) hlt⟩

theorem course_grows (h : r.Logs) (hj : Grows Event.call j es t.journal) (hle : j.next ≤ i)
    (hlt : i < t.journal.next) (hcourse : Course P r kind i l c x t z s') :
    ∃ es, Grows Event.call j es s'.journal := by
  cases hcourse with
  | skipped _ => exact ⟨_, hj.add (.left i x) hle hlt⟩
  | unstarted _ _ => exact ⟨_, hj.add (.left i z) hle hlt⟩
  | once _ _ hrun _ _ =>
    obtain ⟨tc, hn, -, hgrows⟩ := round_grows h hj hle hlt hrun
    exact ⟨_, hgrows.add (.left i z) hle (Nat.lt_of_lt_of_le hlt hn)⟩
  | twice _ _ _ _ hrun hagain =>
    obtain ⟨tc, hn, -, hgrows⟩ := round_grows h hj hle hlt hrun
    have hlt' := Nat.lt_of_lt_of_le hlt hn
    obtain ⟨tc', hn', -, hgrows'⟩ := round_grows h hgrows hle hlt' hagain
    exact ⟨_, hgrows'.add (.left i z) hle (Nat.lt_of_lt_of_le hlt' hn')⟩

theorem protect_grows (kind : Kind) (h : r.Logs) (hq : protect P r kind l b c s = some (z, s')) :
    ∃ es, Grows Event.call s.journal es s'.journal := by
  obtain ⟨x, t, hrun, hcourse⟩ := protect_course hq
  obtain ⟨tb, hlt, -, hgrows⟩ := ended_grows h hrun
  exact course_grows h hgrows (Nat.le_refl _) hlt hcourse

/-- The turns of an `on:do:` record landings of call `i` only. -/
theorem attempts_grows (h : r.Logs) {guardClass handlerBlock : V} (hle : j.next ≤ i)
    {turns : Nat} : ∀ {pending : Option Nat} {s : State V X M} {es : List (Event V X)}
      {q : Exit V X × State V X M}, Grows Event.call j es s.journal → i < s.journal.next →
      attempts P r i l b guardClass handlerBlock turns pending s = some q →
      i < q.2.journal.next ∧ ∃ es, Grows Event.call j es q.2.journal := by
  induction turns with
  | zero =>
    intro pending s es q _ _ hq
    cases hq
  | succ turns ih =>
    intro pending s es q hj hlt hq
    obtain ⟨p, hp, hq⟩ := Option.bind_eq_some_iff.mp hq
    obtain ⟨ts, hts⟩ : ∃ ts, Grows Event.call s.journal ts p.2.journal := by
      cases pending with
      | none =>
        obtain ⟨ts, hts⟩ := invokeBlock_grows h
          (s := s.handlerStackPush guardClass handlerBlock) hp
        exact ⟨ts, hts⟩
      | some id => exact h _ _ _ _ hp
    have hj' := hj.trans hts
    have hlt' : i < p.2.journal.next := Nat.lt_of_lt_of_le hlt hts.le
    have hlanded := hj'.add (.landed i p.1) hle hlt'
    dsimp only at hq
    split at hq
    · split at hq
      · cases hq
        exact ⟨hlt', _, hlanded⟩
      · cases hq
        exact ⟨hlt', _, hj'⟩
    · split at hq
      · exact ih (s := (p.2.record (.landed i p.1)).handlerStackPop _) hlanded hlt' hq
      · cases hq
        exact ⟨hlt', _, hj'⟩
    · split at hq
      · exact ih (s := p.2.record (.landed i p.1)) hlanded hlt' hq
      · cases hq
        exact ⟨hlt', _, hj'⟩
    · cases hq
      exact ⟨hlt', _, hj'⟩

theorem perform_grows (h : r.Logs) {turns : Nat} {p : Primitive V}
    {q : Exit V X × State V X M} (hq : perform P r turns l p s = some q) :
    ∃ es, Grows Event.call s.journal es q.2.journal := by
  cases p with
  | value b args => exact invokeBlock_grows h hq
  | ensure b c => exact protect_grows .ensure h hq
  | ifCurtailed b c => exact protect_grows .ifCurtailed h hq
  | onDo b guardClass handlerBlock =>
    obtain ⟨q', hq', rfl⟩ := Option.map_eq_some_iff.mp hq
    obtain ⟨hlt, es, hgrows⟩ := attempts_grows h (Nat.le_refl _) (begin_grows s)
      (Nat.lt_succ_self _) hq'
    exact ⟨_, hgrows.add (.left _ q'.1) (Nat.le_refl _) hlt⟩

/-- What the evaluation of code adds is about evaluations that it began. -/
theorem run_grows {n : Nat} : (run P n).Logs := by
  induction n with
  | zero =>
    intro l k s q hq
    cases hq
  | succ n ih =>
    intro l k s q hq
    unfold run at hq
    dsimp only at hq
    split at hq
    · cases hq
      exact ⟨[], .refl⟩
    · obtain ⟨q', hq', hq⟩ := Option.bind_eq_some_iff.mp hq
      obtain ⟨es, hes⟩ := perform_grows ih hq'
      obtain ⟨es', hes'⟩ := ih _ _ _ _ hq
      exact ⟨_, hes.trans hes'⟩

end Growth

/-! ## Once, at the right time -/

open Journal (Within)

/-- The block `b`, evaluated without arguments on level `l`, ends with `x`. -/
def Evaluates (P : Program V X K M) (l : Level) (b : V) (s : State V X M) (x : Exit V X)
    (s' : State V X M) : Prop :=
  ∃ n, invokeBlock P (run P n) l b [] s = some (x, s')

/-- The events of a call `i` whose cleanup block is evaluated as it should be, with `z`
what leaves the call, and `m` the next number then.  An entry of an evaluation around
the call has a number below `i`, so nothing outside the call comes in between, and what
was evaluated in the protected block is over when the cleanup block starts. -/
inductive CleansOnce (kind : Kind) (i m : Nat) : List (Event V X) → Exit V X → Prop
  | skipped {tb : List (Event V X)} {x : Exit V X} (hneeds : kind.needs x = false)
      (hbody : Within Event.call (i + 1) m tb) :
      CleansOnce kind i m ([.began i] ++ tb ++ [.ended i x] ++ [.left i x]) x
  | cleaned {tb tc : List (Event V X)} {x y z : Exit V X} {n : Nat}
      (hneeds : kind.needs x = true) (hn : i < n) (hbody : Within Event.call (i + 1) n tb)
      (hcleanup : Within Event.call n m tc) (hkeeps : y.isNormal → z = x) :
      CleansOnce kind i m
        ([.began i] ++ tb ++ [.ended i x] ++ [.cleanup i] ++ tc ++ [.cleaned i y] ++ [.left i z])
        z

/-- A call of a construct on `b` and `c` in state `s`: where the cleanup block has to
run after `b`, it can start on the level of the call, and if `b` ended normally it is
not left by an exception. -/
def CleanupEnds (P : Program V X K M) (kind : Kind) (l : Level) (b c : V)
    (s : State V X M) : Prop :=
  ∀ x s₁, Evaluates P l b s.begin x s₁ → kind.needs x →
    (∃ at_, startBlock P l c [] = .ok at_) ∧
      (x.isNormal → ∀ y s₂,
        Evaluates P l c
          ((s₁.record (.ended s.journal.next x)).record (.cleanup s.journal.next)) y s₂ →
        y.isCaught = false)

section Once

variable {P : Program V X K M} {kind : Kind} {i m n : Nat} {l : Level} {b c : V}
  {s s' s₁ : State V X M} {x x' z : Exit V X} {es : List (Event V X)}

theorem Evaluates.unique {s₁' : State V X M} (h : Evaluates P l b s x s₁)
    (h' : Evaluates P l b s x' s₁') : x = x' ∧ s₁ = s₁' := by
  obtain ⟨n, hn⟩ := h
  obtain ⟨n', hn'⟩ := h'
  have hmax := invokeBlock_mono (run_mono (Nat.le_max_left n n')) hn
  have hmax' := invokeBlock_mono (run_mono (Nat.le_max_right n n')) hn'
  exact Prod.mk.inj (Option.some.inj (hmax.symm.trans hmax'))

/-- The cleanup block of call `i` starts. -/
def Event.isCleanup (i : Nat) : Event V X → Bool
  | .cleanup j => j == i
  | _ => false

/-- How the protected block of call `i` ends. -/
def Event.ending (i : Nat) : Event V X → Option (Exit V X)
  | .ended j x => if j = i then some x else none
  | _ => none

theorem countP_isCleanup_of_within (h : Within Event.call n m es) (hi : i < n) :
    es.countP (Event.isCleanup i) = 0 := by
  refine List.countP_eq_zero.mpr fun e he => ?_
  have hle := (h e he).1
  cases e with
  | cleanup j =>
    have hne : j ≠ i := by
      change n ≤ j at hle
      omega
    simpa [Event.isCleanup] using hne
  | began | ended | cleaned | landed | left => simp [Event.isCleanup]

theorem filterMap_ending_of_within (h : Within Event.call n m es) (hi : i < n) :
    es.filterMap (Event.ending i) = [] := by
  refine List.filterMap_eq_nil_iff.mpr fun e he => ?_
  have hle := (h e he).1
  cases e with
  | ended j x =>
    have hne : j ≠ i := by
      change n ≤ j at hle
      omega
    simp [Event.ending, hne]
  | began | cleanup | cleaned | landed | left => rfl

/-- Such events hold one end of the protected block, and a start of the cleanup block
only after an end that needs it. -/
theorem CleansOnce.counts (h : CleansOnce kind i m es z) :
    ∃ x, es.filterMap (Event.ending i) = [x] ∧
      es.countP (Event.isCleanup i) = if kind.needs x then 1 else 0 := by
  cases h with
  | skipped hneeds hbody =>
    refine ⟨z, ?_, ?_⟩
    · simp [List.filterMap_cons, Event.ending, filterMap_ending_of_within hbody]
    · simp [Event.isCleanup, countP_isCleanup_of_within hbody, hneeds]
  | @cleaned tb tc x y z n hneeds hn hbody hcleanup hkeeps =>
    refine ⟨x, ?_, ?_⟩
    · simp [List.filterMap_cons, Event.ending, filterMap_ending_of_within hbody,
        filterMap_ending_of_within hcleanup hn]
    · simp [Event.isCleanup, countP_isCleanup_of_within hbody,
        countP_isCleanup_of_within hcleanup hn, hneeds]

/-- A cleanup block that ends as it should is evaluated as it should be. -/
theorem CleansOnce.of_course (hcourse : Course P (run P n) kind s.journal.next l c x
      (s₁.record (.ended s.journal.next x)) z s')
    (hrun : invokeBlock P (run P n) l b [] s.begin = some (x, s₁))
    (hends : CleanupEnds P kind l b c s) :
    ∃ es, s'.journal.entries = s.journal.entries ++ es ∧
      CleansOnce kind s.journal.next s'.journal.next es z := by
  obtain ⟨tb, hlt, hbody, hgrows⟩ := ended_grows run_grows hrun
  have hcan := hends x s₁ ⟨n, hrun⟩
  cases hcourse with
  | skipped hneeds =>
    refine ⟨_, ?_, .skipped hneeds hbody⟩
    rw [State.record_journal, Journal.add_entries, hgrows.entries, List.append_assoc]
  | unstarted hneeds hstart =>
    obtain ⟨at_, hat⟩ := (hcan hneeds).1
    rw [hstart] at hat
    cases hat
  | @once at_ y z s₂ hneeds hstart hcleanup hkeeps _ =>
    obtain ⟨tc, hle, htc, hgrows'⟩ :=
      round_grows run_grows hgrows (Nat.le_refl _) hlt hcleanup
    refine ⟨_, ?_, .cleaned hneeds hlt hbody htc hkeeps⟩
    rw [State.record_journal, Journal.add_entries, hgrows'.entries, List.append_assoc]
  | twice hneeds hx hy _ hcleanup _ =>
    have hnot := (hcan hneeds).2 hx _ _ ⟨n, hcleanup⟩
    rw [hy] at hnot
    cases hnot

/-- The journal tells a call whose cleanup block did not start, or started twice. -/
theorem CleanupEnds.of_course (hcourse : Course P (run P n) kind s.journal.next l c x
      (s₁.record (.ended s.journal.next x)) z s')
    (hrun : invokeBlock P (run P n) l b [] s.begin = some (x, s₁))
    (hentries : s'.journal.entries = s.journal.entries ++ es)
    (h : CleansOnce kind s.journal.next m es z) : CleanupEnds P kind l b c s := by
  intro x' s₁' hx' hneeds'
  obtain ⟨rfl, rfl⟩ := Evaluates.unique ⟨n, hrun⟩ hx'
  obtain ⟨tb, hlt, hbody, hgrows⟩ := ended_grows run_grows hrun
  obtain ⟨x', hending, hcount⟩ := h.counts
  cases hcourse with
  | skipped hneeds =>
    rw [hneeds] at hneeds'
    cases hneeds'
  | unstarted hneeds hstart =>
    rw [State.record_journal, Journal.add_entries, hgrows.entries, List.append_assoc] at hentries
    obtain rfl := List.append_cancel_left hentries
    simp [List.filterMap_cons, Event.ending, filterMap_ending_of_within hbody] at hending
    simp [Event.isCleanup, countP_isCleanup_of_within hbody, ← hending, hneeds] at hcount
  | once hneeds hstart hcleanup hkeeps hends =>
    refine ⟨⟨_, hstart⟩, fun hx y s₂ hy => ?_⟩
    obtain ⟨rfl, -⟩ := Evaluates.unique ⟨n, hcleanup⟩ hy
    exact hends hx
  | twice hneeds hx hy hstart hcleanup hagain =>
    obtain ⟨tc, hle, htc, hgrows'⟩ :=
      round_grows run_grows hgrows (Nat.le_refl _) hlt hcleanup
    obtain ⟨tc', hle', htc', hgrows''⟩ :=
      round_grows run_grows hgrows' (Nat.le_refl _) (Nat.lt_of_lt_of_le hlt hle) hagain
    rw [State.record_journal, Journal.add_entries, hgrows''.entries, List.append_assoc]
      at hentries
    obtain rfl := List.append_cancel_left hentries
    have hlt' := Nat.lt_of_lt_of_le hlt hle
    simp only [List.append_assoc, List.countP_append, countP_isCleanup_of_within htc hlt,
      countP_isCleanup_of_within htc' hlt'] at hcount
    simp [Event.isCleanup] at hcount
    split at hcount <;> omega

/-- A call returns when its blocks end as they should. -/
theorem protect_returns (hbody : Evaluates P l b s.begin x s₁)
    (hends : CleanupEnds P kind l b c s)
    (hcleanup : kind.needs x → ∃ y s₂, Evaluates P l c
      ((s₁.record (.ended s.journal.next x)).record (.cleanup s.journal.next)) y s₂) :
    ∃ n z s', protect P (run P n) kind l b c s = some (z, s') := by
  by_cases hneeds : kind.needs x
  · obtain ⟨⟨at_, hstart⟩, hcaught⟩ := hends x s₁ hbody hneeds
    obtain ⟨y, s₂, hy⟩ := hcleanup hneeds
    obtain ⟨n₁, hn₁⟩ := hbody
    obtain ⟨n₂, hn₂⟩ := id hy
    have hrun := invokeBlock_mono (run_mono (Nat.le_max_left n₁ n₂)) hn₁
    have hagain := invokeBlock_mono (run_mono (Nat.le_max_right n₁ n₂)) hn₂
    have hclean : invokeCleanup P (run P (max n₁ n₂)) s.journal.next l c
        (s₁.record (.ended s.journal.next x)) =
          some (y, s₂.record (.cleaned s.journal.next y)) := by
      unfold invokeBlock at hagain
      unfold invokeCleanup
      rw [hstart] at hagain ⊢
      exact Option.map_eq_some_iff.mpr ⟨_, hagain, rfl⟩
    refine ⟨max n₁ n₂, ?_⟩
    cases kind with
    | ensure =>
      simp only [protect, prim_Block_ensure, invokeProtected, hrun, Option.map_some,
        Option.bind_some]
      cases x with
      | normal v =>
        have hy := hcaught rfl y s₂ hy
        simp only [hclean, Option.bind_some]
        cases y with
        | normal | futureYield => exact ⟨_, _, rfl⟩
        | unwindToHandler | retrySignal | nestingLimitUnwind | nonLocalReturn
        | runtimeError | thrown => cases hy
      | futureYield => exact ⟨_, _, rfl⟩
      | unwindToHandler | retrySignal | nestingLimitUnwind | nonLocalReturn
      | runtimeError | thrown =>
        simp only [afterCatch, hclean, Option.map_some]
        exact ⟨_, _, rfl⟩
    | ifCurtailed =>
      simp only [protect, prim_Block_ifCurtailed, invokeProtected, hrun, Option.map_some,
        Option.bind_some]
      rw [afterCatch_caught hneeds, hclean]
      exact ⟨_, _, rfl⟩
  · obtain ⟨n, hn⟩ := hbody
    refine ⟨n, ?_⟩
    cases kind <;> cases x <;>
      simp_all [Kind.needs, Exit.isNormal, Exit.isCaught, protect, prim_Block_ensure,
        prim_Block_ifCurtailed, invokeProtected, afterCatch]

end Once

/-- In every program, for every two blocks on every level of the native stack, in every
state: a call of `ensure:` or `ifCurtailed:` that ends evaluates its cleanup block as it
should exactly if that can start and, after a normal end of the protected block, is not
left by an exception. -/
theorem cleansOnce_iff {P : Program V X K M} {kind : Kind} {n : Nat} {l : Level} {b c : V}
    {s s' : State V X M} {z : Exit V X}
    (hq : protect P (run P n) kind l b c s = some (z, s')) :
    (∃ es, s'.journal.entries = s.journal.entries ++ es ∧
      CleansOnce kind s.journal.next s'.journal.next es z) ↔ CleanupEnds P kind l b c s := by
  obtain ⟨x, s₁, hrun, hcourse⟩ := protect_course hq
  constructor
  · rintro ⟨es, hentries, h⟩
    exact .of_course hcourse hrun hentries h
  · exact fun hends => CleansOnce.of_course hcourse hrun hends

/-! ## A counter as cleanup -/

/-- Blocks that count their evaluations, and then answer or fail. -/
inductive Counting
  | answers
  | fails
  deriving DecidableEq, Repr

/-- `[counter := counter + 1. 7]` and `[counter := counter + 1. Error signal]`, as
closures without arguments, without a handler around them. -/
def counting : Program Counting Unit Counting Nat where
  evaluable b := .closure 0 4 fun _ => b
  next k _ m :=
    match k with
    | .answers => (.finish (.normal .answers), { m with memory := m.memory + 1 })
    | .fails => (.finish (.thrown ()), { m with memory := m.memory + 1 })
  signalNestingLimitAt _ := .fails

/-- Before any evaluation. -/
def started : State Counting Unit Nat := ⟨⟨0, [], 1⟩, ⟨0, []⟩⟩

/-- An engine runs the program. -/
def programLevel : Level := ⟨1, 270⟩

theorem cleansOnce_answers :
    ∃ z s', protect counting (run counting 1) .ensure programLevel .answers .answers started =
        some (z, s') ∧
      ((∃ es, s'.journal.entries = started.journal.entries ++ es ∧
        CleansOnce .ensure started.journal.next s'.journal.next es z) ↔
          CleanupEnds counting .ensure programLevel .answers .answers started) :=
  ⟨_, _, rfl, cleansOnce_iff (n := 1) rfl⟩

/-- `[counter := counter + 1. 7] ensure: [counter := counter + 1. Error signal]` counts
to three. -/
theorem failing_cleanup_runs_twice :
    ∃ z s', protect counting (run counting 1) .ensure programLevel .answers .fails started =
        some (z, s') ∧
      s'.machine.memory = 3 ∧
      ¬ ∃ es, s'.journal.entries = started.journal.entries ++ es ∧
        CleansOnce .ensure started.journal.next s'.journal.next es z := by
  refine ⟨_, _, rfl, rfl, ?_⟩
  rintro ⟨es, hentries, h⟩
  obtain rfl : _ = es := hentries
  obtain ⟨x, hending, hcount⟩ := h.counts
  cases hending
  cases hcount

end ProtoST.Primitives.Cleanup

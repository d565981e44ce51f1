import Mathlib.Algebra.Order.Group.Multiset
import ProtoST.Runtime.ReadyStackSafety

/-!
# ReadyStack is a linearizable LIFO stack

Every operation takes effect at one atomic instruction: a `push` at the
compare-and-swap that publishes its node (or at the `fetch_add` that finds the
pool exhausted), a `pop` at the one that unlinks a node, or at the load that
finds the list empty.  `Trace` says that the operations that have taken effect
form a legal run of a sequential stack whose contents are the values along the
stack list, and that each thread in an operation is either still before that
point (`Awaits`) or holds the result decided there (`Answered`).

## Main results

* `trace_runThread` — every instruction extends the linearization.
* `legal_balance` — a legal run neither loses nor duplicates a value.
* `readyStack_correct` — the two lists, the ownership of nodes, the balance of
  values and linearizability, in every state of every bounded run.
-/

namespace ProtoST.Runtime.ReadyStack

open ProtoST.Lib

variable {V : Type}

/-! ## The sequential stack -/

/-- What a LIFO stack may answer.  A `push` that throws `std::bad_alloc` has no
effect. -/
def lifoApply (st : List V) : Op V → Res V → List V → Prop
  | .push v, .done, st' => st' = v :: st
  | .push _, .badAlloc, st' => st' = st
  | .pop, .empty, st' => st = [] ∧ st' = []
  | .pop, .value v, st' => st = v :: st'
  | _, _, _ => False

/-- The sequential stack as an object. -/
abbrev lifo (V : Type) : SeqObject (Op V) (Res V) where
  State := List V
  init := []
  apply := lifoApply

/-- The values of the pushes that took effect. -/
def pushedValues (S : List (Nat × Op V × Res V)) : Multiset V :=
  (S.filterMap fun e =>
    match e.2.1, e.2.2 with
    | .push v, .done => some v
    | _, _ => none : List V)

/-- The values the pops took. -/
def poppedValues (S : List (Nat × Op V × Res V)) : Multiset V :=
  (S.filterMap fun e =>
    match e.2.2 with
    | .value v => some v
    | _ => none : List V)

theorem pushedValues_snoc (S : List (Nat × Op V × Res V))
    (e : Nat × Op V × Res V) :
    pushedValues (S ++ [e]) = pushedValues S + pushedValues [e] := by
  simp only [pushedValues, List.filterMap_append, ← Multiset.coe_add]

theorem poppedValues_snoc (S : List (Nat × Op V × Res V))
    (e : Nat × Op V × Res V) :
    poppedValues (S ++ [e]) = poppedValues S + poppedValues [e] := by
  simp only [poppedValues, List.filterMap_append, ← Multiset.coe_add]

variable {op : Op V}

/-- One operation moves at most one value. -/
theorem lifoApply_balance {st st' : List V} {i : Nat} {r : Res V} (h : lifoApply st op r st') :
    (st : Multiset V) + pushedValues [(i, op, r)] =
      (st' : Multiset V) + poppedValues [(i, op, r)] := by
  cases op with
  | push v =>
      cases r with
      | done =>
          obtain rfl : st' = v :: st := h
          show (st : Multiset V) + {v} = ↑(v :: st) + 0
          rw [add_zero, ← Multiset.cons_coe, ← Multiset.singleton_add, add_comm]
      | badAlloc =>
          obtain rfl : st' = st := h
          rfl
      | empty => exact h.elim
      | value w => exact h.elim
  | pop =>
      cases r with
      | done => exact h.elim
      | badAlloc => exact h.elim
      | empty =>
          obtain ⟨rfl, rfl⟩ := h
          rfl
      | value w =>
          obtain rfl : st = w :: st' := h
          show ((w :: st' : List V) : Multiset V) + 0 = ↑st' + {w}
          rw [add_zero, ← Multiset.cons_coe, ← Multiset.singleton_add, add_comm]

/-- What was pushed is on the stack or was popped, with multiplicity. -/
theorem legal_balance {S : List (Nat × Op V × Res V)} {st : (lifo V).State}
    (h : Legal (lifo V) S st) :
    pushedValues S = @Multiset.ofList V st + poppedValues S := by
  induction h with
  | nil => rfl
  | @snoc S st st' i op r _ happly ih =>
      have hstep := lifoApply_balance (i := i) happly
      calc pushedValues (S ++ [(i, op, r)])
          = @Multiset.ofList V st + pushedValues [(i, op, r)] + poppedValues S := by
            rw [pushedValues_snoc, ih, add_right_comm]
        _ = @Multiset.ofList V st' + poppedValues (S ++ [(i, op, r)]) := by
            rw [hstep, poppedValues_snoc, add_assoc, add_comm (poppedValues S)]

/-! ## The history invariant -/

/-- The operation of thread `t` has been called and has taken no effect. -/
def Awaits (s : State V) (t : Nat) (op : Op V) : Prop :=
  Event.call (s.opId t) op ∈ s.history ∧ s.opId t ∉ s.lins.map Prod.fst

/-- The operation of thread `t` has taken effect with result `r`. -/
def Answered (s : State V) (t : Nat) (r : Res V) : Prop :=
  ∃ op, (s.opId t, op, r) ∈ s.lins

/-- Either half of `linkFront`: a push has yet to take effect, a pop has its
value. -/
def JobOK (s : State V) (t : Nat) : Job V → Prop
  | .publish v => Awaits s t (.push v)
  | .recycle v => Answered s t (.value v)

/-- Where each program point stands relative to the linearization point. -/
def PhaseOK (s : State V) (t : Nat) : Pc V → Prop
  | .idle | .fault => True
  | .unlinkLoad op | .unlinkNode op _ _ | .unlinkNext op _ _
  | .unlinkCas op _ _ _ => Awaits s t op
  | .fresh v | .chunkLoad v _ | .chunkCas v _ | .valueNode v _
  | .valueStore v _ => Awaits s t (.push v)
  | .readNode idx | .readValue idx => Answered s t (.value (s.value idx))
  | .linkNode job _ | .linkLoad job _ | .linkStore job _ _
  | .linkCas job _ _ => JobOK s t job
  | .sizeUpdate job => Answered s t job.result
  | .ret r => Answered s t r

/-- The values along the stack list. -/
abbrev State.contents (s : State V) (xs : Side → List UInt32) : List V :=
  (xs .stack).map s.value

/-- The history invariant. -/
structure Trace (s : State V) (xs : Side → List UInt32) : Prop where
  lin : Linearizes (lifo V) s.history s.lins (s.contents xs)
  called : ∀ i op, Event.call i op ∈ s.history → i < s.nextId
  busy : ∀ t, s.pc t ≠ .idle → s.opId t < s.nextId
  apart : ∀ t t', s.pc t ≠ .idle → s.pc t' ≠ .idle → s.opId t = s.opId t' → t = t'
  phase : ∀ t, PhaseOK s t (s.pc t)

variable {s s' : State V} {t : Nat} {p : Pc V}

/-- A thread's phase survives a step of another thread. -/
theorem PhaseOK.frame (hhist : ∀ e, e ∈ s.history → e ∈ s'.history) (hid : s'.opId t = s.opId t)
    (hgrow : ∀ e, e ∈ s.lins → e ∈ s'.lins)
    (hothers : ∀ e, e ∈ s'.lins → e.1 = s.opId t → e ∈ s.lins)
    (hval : ∀ i, p.owns = some i → s'.value i = s.value i)
    (h : PhaseOK s t p) : PhaseOK s' t p := by
  have hawait : ∀ op, Awaits s t op → Awaits s' t op := by
    intro op ⟨hcall, hnot⟩
    refine ⟨by rw [hid]; exact hhist _ hcall, ?_⟩
    rw [hid]
    intro hmem
    obtain ⟨e, he, hfst⟩ := List.mem_map.mp hmem
    exact hnot (hfst ▸ List.mem_map_of_mem (f := Prod.fst) (hothers e he hfst))
  have hanswer : ∀ r, Answered s t r → Answered s' t r := by
    intro r ⟨op, hmem⟩
    exact ⟨op, by rw [hid]; exact hgrow _ hmem⟩
  have hjob : ∀ job : Job V, JobOK s t job → JobOK s' t job := by
    intro job hj
    cases job with
    | publish v => exact hawait _ hj
    | recycle v => exact hanswer _ hj
  cases p with
  | idle | fault => trivial
  | unlinkLoad | unlinkNode | unlinkNext | unlinkCas => exact hawait _ h
  | fresh | chunkLoad | chunkCas | valueNode | valueStore => exact hawait _ h
  | readNode idx | readValue idx =>
      show Answered s' t (.value (s'.value idx))
      rw [hval idx rfl]
      exact hanswer _ h
  | linkNode | linkLoad | linkStore | linkCas => exact hjob _ h
  | sizeUpdate | ret => exact hanswer _ h

variable {xs xs' : Side → List UInt32}

/-- A step of a busy thread `t` that calls and returns nothing: it may give its
own operation its effect, and nobody else's. -/
theorem Trace.move (h : Trace s xs) (hbusy : s.pc t ≠ .idle)
    (hpc : s'.pc = Function.update s.pc t p) (hhist : s'.history = s.history)
    (hid : s'.opId = s.opId) (hnext : s'.nextId = s.nextId)
    (hlin : Linearizes (lifo V) s.history s'.lins (s'.contents xs'))
    (hgrow : ∀ e, e ∈ s.lins → e ∈ s'.lins)
    (hmine : ∀ e, e ∈ s'.lins → e ∈ s.lins ∨ e.1 = s.opId t)
    (hval : ∀ t' i, t' ≠ t → (s.pc t').owns = some i → s'.value i = s.value i)
    (hok : PhaseOK s' t p) : Trace s' xs' := by
  have hbusy' : ∀ t', s'.pc t' ≠ .idle → s.pc t' ≠ .idle := by
    intro t' ht'
    by_cases ht : t' = t
    · rw [ht]
      exact hbusy
    · rw [hpc, Function.update_of_ne ht] at ht'
      exact ht'
  refine
    { lin := hhist ▸ hlin
      called := by rw [hhist, hnext]; exact h.called
      busy := by
        intro t' ht'
        rw [hid, hnext]
        exact h.busy t' (hbusy' t' ht')
      apart := by
        intro t₁ t₂ h₁ h₂ heq
        rw [hid] at heq
        exact h.apart t₁ t₂ (hbusy' t₁ h₁) (hbusy' t₂ h₂) heq
      phase := ?_ }
  intro t'
  rw [hpc]
  by_cases ht : t' = t
  · subst ht
    rw [Function.update_self]
    exact hok
  · rw [Function.update_of_ne ht]
    by_cases hidle : s.pc t' = .idle
    · rw [hidle]
      trivial
    refine (h.phase t').frame (by rw [hhist]; exact fun e he => he)
      (by rw [hid]) hgrow ?_ (fun i hi => hval t' i ht hi)
    intro e he heq
    rcases hmine e he with hold | hnew
    · exact hold
    · exact absurd (h.apart t' t hidle hbusy (heq.symm.trans hnew)) ht

/-- A step that is not a linearization point. -/
theorem Trace.silent (h : Trace s xs) (hbusy : s.pc t ≠ .idle)
    (hpc : s'.pc = Function.update s.pc t p) (hhist : s'.history = s.history)
    (hlins : s'.lins = s.lins) (hid : s'.opId = s.opId)
    (hnext : s'.nextId = s.nextId) (hcont : s'.contents xs' = s.contents xs)
    (hval : ∀ t' i, t' ≠ t → (s.pc t').owns = some i → s'.value i = s.value i)
    (hok : PhaseOK s' t p) : Trace s' xs' :=
  h.move hbusy hpc hhist hid hnext (by rw [hlins, hcont]; exact h.lin)
    (fun e he => hlins ▸ he) (fun e he => Or.inl (hlins ▸ he)) hval hok

/-- A step at which the operation of thread `t` takes effect. -/
theorem Trace.effect {r : Res V} (h : Trace s xs) (op : Op V) (hbusy : s.pc t ≠ .idle)
    (hwait : Awaits s t op) (hpc : s'.pc = Function.update s.pc t p)
    (hhist : s'.history = s.history)
    (hlins : s'.lins = s.lins ++ [(s.opId t, op, r)]) (hid : s'.opId = s.opId)
    (hnext : s'.nextId = s.nextId) (hvalue : s'.value = s.value)
    (happly : (lifo V).apply (s.contents xs) op r (s'.contents xs'))
    (hok : PhaseOK s' t p) : Trace s' xs' := by
  refine h.move hbusy hpc hhist hid hnext ?_ ?_ ?_
    (fun _ i _ _ => by rw [hvalue]) hok
  · rw [hlins]
    exact h.lin.point hwait.1 hwait.2 happly
  · intro e he
    rw [hlins]
    exact List.mem_append_left _ he
  · intro e he
    rw [hlins] at he
    rcases List.mem_append.mp he with he | he
    · exact Or.inl he
    · rw [List.mem_singleton] at he
      exact Or.inr (by rw [he])

/-! ## Every step extends the linearization -/

variable {xs : Side → List UInt32}

/-- An empty stack list is read off a head that names no node. -/
theorem Inv.contents_nil (h : Inv s xs)
    (hnil : indexOf (s.heads .stack) = kNil) : s.contents xs = [] := by
  have hl := h.linked .stack
  rw [hnil] at hl
  rw [State.contents, hl.eq_nil, List.map_nil]

/-- (Re)loading the head: an empty stack is where `pop` takes effect. -/
theorem trace_afterLoad (hinv : Inv s xs) (h : Trace s xs) (hbusy : s.pc t ≠ .idle)
    (hwait : Awaits s t op) : Trace (s.afterLoad t op) xs := by
  unfold State.afterLoad
  dsimp only
  split
  · rename_i hnil
    cases op with
    | push v =>
        exact h.silent hbusy rfl rfl rfl rfl rfl rfl (fun _ _ _ _ => rfl) hwait
    | pop =>
        have hempty := hinv.contents_nil hnil
        exact h.effect _ hbusy hwait rfl rfl rfl rfl rfl rfl ⟨hempty, hempty⟩
          ⟨.pop, List.mem_append_right _ (List.mem_singleton_self _)⟩
  · exact h.silent hbusy rfl rfl rfl rfl rfl rfl (fun _ _ _ _ => rfl) hwait

/-- Finding a node changes nothing. -/
theorem trace_derefNode {idx : UInt32} (h : Trace s xs) (hbusy : s.pc t ≠ .idle)
    (hok : PhaseOK (s.goto t p) t p) : Trace (s.derefNode t idx p) xs := by
  unfold State.derefNode
  split
  · exact h.silent hbusy rfl rfl rfl rfl rfl rfl (fun _ _ _ _ => rfl) hok
  · exact h.silent hbusy rfl rfl rfl rfl rfl rfl (fun _ _ _ _ => rfl) trivial

/-- The two lists are independent. -/
theorem setList_free {l : List UInt32} :
    setList xs .free l .stack = xs .stack :=
  Function.update_of_ne (by decide) _ _

/-- `unlinkFront` on the stack is where `pop` takes effect. -/
theorem trace_unlinkCas {old : UInt64} {word : UInt64} (h : Trace s xs)
    (hbusy : s.pc t ≠ .idle) (hwait : Awaits s t op)
    (hxs : xs op.unlinkSide = indexOf old :: (xs op.unlinkSide).tail) :
    Trace ((s.setHead op.unlinkSide word).unlinked t op (indexOf old))
      (setList xs op.unlinkSide (xs op.unlinkSide).tail) := by
  cases op with
  | push v =>
      refine h.silent hbusy rfl rfl rfl rfl rfl ?_ (fun _ _ _ _ => rfl) hwait
      show ((setList xs .free (xs .free).tail) .stack).map s.value = _
      rw [setList_free]
  | pop =>
      refine h.effect .pop hbusy hwait rfl rfl rfl rfl rfl rfl ?_
        ⟨.pop, List.mem_append_right _ (List.mem_singleton_self _)⟩
      show (xs .stack).map s.value =
        s.value (indexOf old) :: ((setList xs .stack (xs .stack).tail) .stack).map s.value
      rw [setList, Function.update_self, ← List.map_cons]
      exact congrArg _ hxs

/-- `linkFront` on the stack is where `push` takes effect. -/
theorem trace_linkCas
    {job : Job V} {idx : UInt32} {word : UInt64} (h : Trace s xs)
    (hbusy : s.pc t ≠ .idle) (hjob : JobOK s t job) (hholds : Holds s idx job) :
    Trace ((s.setHead job.side word).linked t job)
      (setList xs job.side (idx :: xs job.side)) := by
  cases job with
  | publish v =>
      refine h.effect _ hbusy hjob rfl rfl rfl rfl rfl rfl ?_
        ⟨.push v, List.mem_append_right _ (List.mem_singleton_self _)⟩
      show ((setList xs .stack (idx :: xs .stack)) .stack).map s.value =
        v :: (xs .stack).map s.value
      rw [setList, Function.update_self, List.map_cons, hholds]
  | recycle v =>
      refine h.silent hbusy rfl rfl rfl rfl rfl ?_ (fun _ _ _ _ => rfl) hjob
      show ((setList xs .free (idx :: xs .free)) .stack).map s.value = _
      rw [setList_free]

/-- Returning. -/
theorem trace_ret {r : Res V}
    (h : Trace s xs) (hpc : s.pc t = .ret r) :
    Trace ({ s with history := s.history ++ [Event.ret (s.opId t) r] }.goto t
      .idle) xs := by
  have hphase := h.phase t
  rw [hpc] at hphase
  obtain ⟨op, hmem⟩ := hphase
  have hbusy : ∀ t', Function.update s.pc t .idle t' ≠ .idle →
      t' ≠ t ∧ s.pc t' ≠ .idle := by
    intro t' ht'
    by_cases ht : t' = t
    · rw [ht, Function.update_self] at ht'
      exact absurd rfl ht'
    · rw [Function.update_of_ne ht] at ht'
      exact ⟨ht, ht'⟩
  refine
    { lin := h.lin.answer hmem
      called := ?_
      busy := fun t' ht' => h.busy t' (hbusy t' ht').2
      apart := fun t₁ t₂ h₁ h₂ heq =>
        h.apart t₁ t₂ (hbusy t₁ h₁).2 (hbusy t₂ h₂).2 heq
      phase := ?_ }
  · intro i op' hcall
    rcases List.mem_append.mp hcall with hcall | hcall
    · exact h.called i op' hcall
    · simp at hcall
  · intro t'
    show PhaseOK _ t' (Function.update s.pc t .idle t')
    by_cases ht : t' = t
    · rw [ht, Function.update_self]
      trivial
    · rw [Function.update_of_ne ht]
      exact (h.phase t').frame (fun e he => List.mem_append_left _ he) rfl
        (fun e he => he) (fun e he _ => he) (fun _ _ => rfl)

/-- Calling. -/
theorem trace_callOp (h : Trace s xs) (hs' : s.callOp t op = some s') :
    Trace s' xs := by
  simp only [State.callOp] at hs'
  split at hs'
  · rename_i hpc
    obtain rfl := Option.some.inj hs'
    have hnew : ∀ op', Event.call s.nextId op' ∉ s.history :=
      fun op' hmem => absurd (h.called _ _ hmem) (lt_irrefl _)
    have hid : ∀ t', t' ≠ t →
        Function.update s.opId t s.nextId t' = s.opId t' :=
      fun t' ht => Function.update_of_ne ht _ _
    have hbusy : ∀ t', t' ≠ t →
        Function.update s.pc t (.unlinkLoad op) t' ≠ .idle →
        s.opId t' < s.nextId := by
      intro t' ht ht'
      rw [Function.update_of_ne ht] at ht'
      exact h.busy t' ht'
    refine
      { lin := h.lin.call hnew, called := ?_, busy := ?_, apart := ?_,
        phase := ?_ }
    · intro i op' hcall
      rcases List.mem_append.mp hcall with hcall | hcall
      · exact Nat.lt_succ_of_lt (h.called i op' hcall)
      · simp only [List.mem_singleton, Event.call.injEq] at hcall
        exact hcall.1 ▸ Nat.lt_succ_self _
    · intro t' ht'
      show Function.update s.opId t s.nextId t' < s.nextId + 1
      by_cases ht : t' = t
      · rw [ht, Function.update_self]
        exact Nat.lt_succ_self _
      · rw [hid t' ht]
        exact Nat.lt_succ_of_lt (hbusy t' ht ht')
    · intro t₁ t₂ h₁ h₂ heq
      replace heq : Function.update s.opId t s.nextId t₁ =
        Function.update s.opId t s.nextId t₂ := heq
      by_cases ht₁ : t₁ = t <;> by_cases ht₂ : t₂ = t
      · rw [ht₁, ht₂]
      · rw [ht₁, Function.update_self, hid t₂ ht₂] at heq
        exact absurd (hbusy t₂ ht₂ h₂) (heq ▸ lt_irrefl _)
      · rw [ht₂, Function.update_self, hid t₁ ht₁] at heq
        exact absurd (hbusy t₁ ht₁ h₁) (heq ▸ lt_irrefl _)
      · rw [hid t₁ ht₁, hid t₂ ht₂] at heq
        refine h.apart t₁ t₂ ?_ ?_ heq
        · exact fun hc => h₁ ((Function.update_of_ne ht₁ _ _).trans hc)
        · exact fun hc => h₂ ((Function.update_of_ne ht₂ _ _).trans hc)
    · intro t'
      show PhaseOK _ t' (Function.update s.pc t (.unlinkLoad op) t')
      by_cases ht : t' = t
      · subst ht
        rw [Function.update_self]
        refine ⟨?_, ?_⟩
        · show Event.call (Function.update s.opId t' s.nextId t') op ∈ _
          rw [Function.update_self]
          exact List.mem_append_right _ (List.mem_singleton_self _)
        · show Function.update s.opId t' s.nextId t' ∉ _
          rw [Function.update_self]
          intro hmem
          obtain ⟨op', hcall⟩ := h.lin.mem_called hmem
          exact hnew op' hcall
      · rw [Function.update_of_ne ht]
        exact (h.phase t').frame (fun e he => List.mem_append_left _ he)
          (hid t' ht) (fun e he => he) (fun e he _ => he) (fun _ _ => rfl)
  · cases hs'

/-- **Step lemma.** Every instruction of a thread extends the linearization. -/
theorem trace_runThread
    {b : Bool} (hinv : Inv s xs) (h : Trace s xs)
    (hbound : Bounded s (.run t b)) (hs' : s.runThread t b = some s') :
    Trace s' (s.nextLists t b xs) := by
  have hphase := h.phase t
  have hmem := hinv.threads t
  cases hpc : s.pc t <;> rw [hpc] at hphase hmem
  case idle => simp [State.runThread, hpc] at hs'
  case fault => simp [State.runThread, hpc] at hs'
  all_goals have hbusy : s.pc t ≠ .idle := by rw [hpc]; simp
  case unlinkLoad op =>
    simp only [State.runThread, hpc, Option.some.injEq] at hs'
    simp only [State.nextLists, hpc]
    exact hs' ▸ trace_afterLoad hinv h hbusy hphase
  case unlinkNode op old n =>
    simp only [State.runThread, hpc, Option.some.injEq] at hs'
    simp only [State.nextLists, hpc]
    exact hs' ▸ trace_derefNode h hbusy hphase
  case unlinkNext op old n =>
    simp only [State.runThread, hpc, Option.some.injEq] at hs'
    simp only [State.nextLists, hpc]
    exact hs' ▸ h.silent hbusy rfl rfl rfl rfl rfl rfl (fun _ _ _ _ => rfl) hphase
  case unlinkCas op old n nxt =>
    simp only [State.runThread, hpc] at hs'
    split at hs' <;> rename_i hcas <;> obtain rfl := Option.some.inj hs'
    · simp only [State.nextLists, hpc, hcas, if_true]
      simp only [Bool.and_eq_true, Bool.not_eq_true', beq_iff_eq] at hcas
      simp only [Bounded, bounded, hpc, decide_eq_true_eq] at hbound
      exact trace_unlinkCas h hbusy hphase
        (inv_unlinkCas hinv hpc hbound hcas.2).1
    · simp only [State.nextLists, hpc, hcas, if_false, Bool.false_eq_true]
      exact trace_afterLoad hinv h hbusy hphase
  case fresh v =>
    simp only [State.runThread, hpc] at hs'
    simp only [State.nextLists, hpc]
    split at hs' <;> obtain rfl := Option.some.inj hs'
    · exact h.effect _ hbusy hphase rfl rfl rfl rfl rfl rfl rfl
        ⟨.push v, List.mem_append_right _ (List.mem_singleton_self _)⟩
    · exact h.silent hbusy rfl rfl rfl rfl rfl rfl (fun _ _ _ _ => rfl) hphase
  case chunkLoad v idx =>
    simp only [State.runThread, hpc] at hs'
    simp only [State.nextLists, hpc]
    split at hs' <;> obtain rfl := Option.some.inj hs' <;>
      exact h.silent hbusy rfl rfl rfl rfl rfl rfl (fun _ _ _ _ => rfl) hphase
  case chunkCas v idx =>
    simp only [State.runThread, hpc, Option.some.injEq] at hs'
    simp only [State.nextLists, hpc]
    exact hs' ▸ h.silent hbusy rfl rfl rfl rfl rfl rfl (fun _ _ _ _ => rfl) hphase
  case valueNode v idx =>
    simp only [State.runThread, hpc, Option.some.injEq] at hs'
    simp only [State.nextLists, hpc]
    exact hs' ▸ trace_derefNode h hbusy hphase
  case valueStore v idx =>
    simp only [State.runThread, hpc, Option.some.injEq] at hs'
    simp only [State.nextLists, hpc]
    subst hs'
    have howns : (s.pc t).owns = some idx := by rw [hpc]; rfl
    have hoff : ∀ i, i ≠ idx → Function.update s.value idx v i = s.value i :=
      fun i hi => Function.update_of_ne hi _ _
    refine h.silent hbusy rfl rfl rfl rfl rfl ?_ ?_ hphase
    · -- the node is on no list, so the contents stay
      refine List.map_congr_left fun i hi => hoff i ?_
      rintro rfl
      exact hinv.owner t i howns .stack hi
    · intro t' i ht hi
      refine hoff i ?_
      rintro rfl
      exact ht (hinv.unique t' t i hi howns)
  case readNode idx =>
    simp only [State.runThread, hpc, Option.some.injEq] at hs'
    simp only [State.nextLists, hpc]
    exact hs' ▸ trace_derefNode h hbusy hphase
  case readValue idx =>
    simp only [State.runThread, hpc, Option.some.injEq] at hs'
    simp only [State.nextLists, hpc]
    exact hs' ▸ h.silent hbusy rfl rfl rfl rfl rfl rfl (fun _ _ _ _ => rfl) hphase
  case linkNode job idx =>
    simp only [State.runThread, hpc, Option.some.injEq] at hs'
    simp only [State.nextLists, hpc]
    refine hs' ▸ trace_derefNode h hbusy ?_
    cases job <;> exact hphase
  case linkLoad job idx =>
    simp only [State.runThread, hpc, Option.some.injEq] at hs'
    simp only [State.nextLists, hpc]
    refine hs' ▸ h.silent hbusy rfl rfl rfl rfl rfl rfl (fun _ _ _ _ => rfl) ?_
    cases job <;> exact hphase
  case linkStore job idx old =>
    simp only [State.runThread, hpc, Option.some.injEq] at hs'
    simp only [State.nextLists, hpc]
    refine hs' ▸ h.silent hbusy rfl rfl rfl rfl rfl rfl (fun _ _ _ _ => rfl) ?_
    cases job <;> exact hphase
  case linkCas job idx old =>
    simp only [State.runThread, hpc] at hs'
    split at hs' <;> rename_i hcas <;> obtain rfl := Option.some.inj hs'
    · simp only [State.nextLists, hpc, hcas, if_true]
      exact trace_linkCas h hbusy hphase hmem.2.1
    · simp only [State.nextLists, hpc, hcas, if_false, Bool.false_eq_true]
      refine h.silent hbusy rfl rfl rfl rfl rfl rfl (fun _ _ _ _ => rfl) ?_
      cases job <;> exact hphase
  case sizeUpdate job =>
    simp only [State.runThread, hpc, Option.some.injEq] at hs'
    simp only [State.nextLists, hpc]
    exact hs' ▸ h.silent hbusy rfl rfl rfl rfl rfl rfl (fun _ _ _ _ => rfl) hphase
  case ret r =>
    simp only [State.runThread, hpc, Option.some.injEq] at hs'
    simp only [State.nextLists, hpc]
    exact hs' ▸ trace_ret h hpc

/-- The empty history. -/
theorem trace_initial [Inhabited V] :
    Trace (initial : State V) fun _ => [] where
  lin := .empty
  called := fun i op hcall => by cases hcall
  busy := fun t ht => absurd rfl ht
  apart := fun t t' ht => absurd rfl ht
  phase := fun _ => trivial

/-- **Run lemma.** Both invariants hold at the end of every bounded run. -/
theorem inv_trace_reach [Inhabited V]
    (h : (machine V).Reach Bounded s) : ∃ xs, Inv s xs ∧ Trace s xs := by
  refine h.invariant (P := fun s => ∃ xs, Inv s xs ∧ Trace s xs) ?_ ?_
  · rintro s rfl
    exact ⟨_, inv_initial, trace_initial⟩
  · intro s a s' _ ⟨xs, hinv, htrace⟩ hbound hstep
    cases a with
    | call t op => exact ⟨xs, inv_callOp hinv hstep, trace_callOp htrace hstep⟩
    | run t b =>
        exact ⟨s.nextLists t b xs, inv_runThread hinv hbound hstep,
          trace_runThread hinv htrace hbound hstep⟩

/-! ## Nothing is lost, nothing is duplicated -/

/-- The state of the stack accounted for by the nodes `stack` of the stack list
and `free` of the free list. -/
structure Accounted (s : State V) (stack free : List UInt32) : Prop where
  /-- Following the links from each head visits these nodes and ends. -/
  stackLinked : Linked s.next kNil (indexOf (s.heads .stack)) stack
  freeLinked : Linked s.next kNil (indexOf (s.heads .free)) free
  /-- The lists are acyclic and disjoint. -/
  nodup : (stack ++ free).Nodup
  /-- The nodes carved from the pool are those on the lists and those owned. -/
  carved : ∀ i, s.Carved i ↔
    i ∈ stack ∨ i ∈ free ∨ ∃ t, (s.pc t).owns = some i
  /-- An owned node is on neither list and has one owner. -/
  owned : ∀ t i, (s.pc t).owns = some i →
    i ∉ stack ∧ i ∉ free ∧ ∀ t', (s.pc t').owns = some i → t' = t
  /-- The values pushed are the values on the stack and the values popped. -/
  balance : pushedValues s.lins =
    ((stack.map s.value : List V) : Multiset V) + poppedValues s.lins
  /-- The operations that took effect linearize the history; the sequential
  stack then holds the values along the stack list. -/
  linearizes : Linearizes (lifo V) s.history s.lins (stack.map s.value)
  /-- No missing chunk was ever dereferenced. -/
  noFault : ∀ t, s.pc t ≠ .fault

/-- **ReadyStack neither loses nor duplicates entries.** -/
theorem readyStack_correct [Inhabited V] {s : State V}
    (h : (machine V).Reach Bounded s) :
    ∃ stack free, Accounted s stack free := by
  obtain ⟨xs, hinv, htrace⟩ := inv_trace_reach h
  refine ⟨xs .stack, xs .free, ?_⟩
  exact
    { stackLinked := hinv.linked .stack
      freeLinked := hinv.linked .free
      nodup := by
        refine List.nodup_append.mpr
          ⟨hinv.nodup .stack, hinv.nodup .free, ?_⟩
        rintro i hi j hj rfl
        exact hinv.disjoint i hi hj
      carved := by
        intro i
        constructor
        · intro hi
          rcases hinv.accounted i hi with ⟨side, hmem⟩ | howned
          · cases side
            · exact Or.inl hmem
            · exact Or.inr (Or.inl hmem)
          · exact Or.inr (Or.inr howned)
        · rintro (hmem | hmem | ⟨t, ht⟩)
          · exact (hinv.pool .stack i hmem).carved
          · exact (hinv.pool .free i hmem).carved
          · exact (hinv.threads t).carved ht
      owned := fun t i hi =>
        ⟨hinv.owner t i hi .stack, hinv.owner t i hi .free,
          fun t' ht' => hinv.unique t' t i ht' hi⟩
      balance := legal_balance htrace.lin.legal
      linearizes := htrace.lin
      noFault := by
        intro t ht
        have hok := hinv.threads t
        rw [ht] at hok
        exact hok }

/-- The thread 0 pushes 7 on the empty stack: it carves node 0 and installs chunk 0.  The thread 1
pops; when it compares the head, the thread 0 has pushed 8, and so it goes on with the node of 8. -/
def overtakenRun : List (Action Nat) :=
  .call 0 (.push 7) :: List.replicate 12 (.run 0 false) ++
    .call 1 .pop :: List.replicate 3 (.run 1 false) ++
    .call 0 (.push 8) :: List.replicate 11 (.run 0 false) ++ List.replicate 12 (.run 1 false)

theorem readyStack_correct_push : ∃ s : State Nat,
    s.history = [.call 0 (.push 7), .ret 0 .done, .call 1 .pop, .call 2 (.push 8), .ret 2 .done,
      .ret 1 (.value 8)] ∧
      ∃ stack free, Accounted s stack free := by
  have h := Machine.reach_of_execOk (M := machine Nat) bounded
    (fun _ _ => id) (.init rfl : (machine Nat).Reach Bounded initial)
    (show (machine Nat).execOk bounded initial overtakenRun = some _ from rfl)
  exact ⟨_, rfl, readyStack_correct h⟩

end ProtoST.Runtime.ReadyStack

import Mathlib.Data.List.Count
import ProtoST.Primitives.FutureSettle

/-!
# A future is settled exactly once

The winner of the claim is the only call that writes the future's state, and
how far it is (`State.phase`) determines every attribute except the contents of
the lists: that is `Control`.  `Registry` says which call each program point and
each list entry belongs to, and what a registrant may conclude from what it
read.  `Tally` counts: the places that name a callback (`callbackIds`) or a
waiter (`waiterIds`) name each registration exactly as often as its call placed
it, so nothing is lost between a list and the settlement that drained it, and
nothing is handed out twice.

## Main results

* `inv_step` — every step preserves the three invariants.
* `future_settled_once` — what a future promises its settlers, its registrants
  and its waiters, in every reachable state and between any two of them.
-/

namespace ProtoST.Primitives.FutureSettle

open ProtoST.Lib

variable {V : Type}

/-! ## What the settlement's progress determines -/

/-- `__state__` when the settlement `w` is at phase `d`. -/
def stateAt (w : Option (Winner V)) (d : Nat) : Nat :=
  match w with
  | none => 0
  | some w => if 5 ≤ d then w.outcome.code else 0

/-- `__value__` and `__error__` when the settlement `w` is at phase `d`. -/
def resultAt (w : Option (Winner V)) (d : Nat) (o : Outcome) :
    Option (Option V) :=
  match w with
  | none => none
  | some w => if o = w.outcome ∧ 2 ≤ d then some w.payload else none

/-- The lists drained when the settlement `w` is at phase `d`. -/
def DrainedAt (w : Option (Winner V)) (d : Nat) (k : Key) : Prop :=
  match w with
  | none => False
  | some w => (k = w.outcome.cbsKey ∧ 3 ≤ d) ∨ (k = .waiters ∧ 7 ≤ d)

/-- One call holds the claim, and its progress determines the attributes. -/
structure Control (s : State V) : Prop where
  claim : ∀ i o p, (s.pc i).settles = some (o, p) ↔ s.winner = some ⟨i, o, p⟩
  settling : s.settling = s.winner.isSome
  state : s.state = stateAt s.winner s.phase
  result : ∀ o, s.result o = resultAt s.winner s.phase o
  drained : ∀ k, s.list k = .drained ↔ DrainedAt s.winner s.phase k

@[simp] theorem Outcome.cbsKey_ne_waiters (o : Outcome) :
    o.cbsKey ≠ .waiters := by
  cases o <;> decide

@[simp] theorem Outcome.waiters_ne_cbsKey (o : Outcome) :
    Key.waiters ≠ o.cbsKey := by
  cases o <;> decide

theorem Outcome.cbsKey_inj {o o' : Outcome} :
    o.cbsKey = o'.cbsKey ↔ o = o' := by
  cases o <;> cases o' <;> decide

@[simp] theorem Outcome.code_ne_zero (o : Outcome) : o.code ≠ 0 := by
  cases o <;> decide

theorem Outcome.code_inj {o o' : Outcome} : o.code = o'.code ↔ o = o' := by
  cases o <;> cases o' <;> decide

theorem Outcome.other_ne (o : Outcome) : o.other ≠ o := by
  cases o <;> decide

variable {o : Outcome}

/-- A program point past the claim places, parks and runs nothing itself. -/
theorem Pc.settles_zero {pc : Pc V} {p : Option V}
    (h : pc.settles = some (o, p)) :
    pc.placed = 0 ∧ pc.parked = 0 ∧ pc.self = 0 := by
  cases pc with
  | ret r => cases r <;> simp_all [Pc.settles, Pc.placed, Pc.parked, Pc.self]
  | _ => simp_all [Pc.settles, Pc.placed, Pc.parked, Pc.self]

namespace Control

variable {s s' : State V} {i : Nat} {pc' : Pc V}

/-- A call that holds no claim is not the winner. -/
theorem id_ne (h : Control s) (hi : (s.pc i).settles = none)
    {w : Winner V} (hw : s.winner = some w) : w.id ≠ i := by
  rintro rfl
  have hclaim := (h.claim w.id w.outcome w.payload).mpr hw
  rw [hi] at hclaim
  cases hclaim

/-- **Bystander rule.** A step of a call without a claim keeps what the winning
settlement holds. -/
theorem held_bystander (h : Control s) (hi : (s.pc i).settles = none)
    (hpc : s'.pc = Function.update s.pc i pc') (hw : s'.winner = s.winner)
    (f : Pc V → List (Entry V)) : s'.held f = s.held f := by
  simp only [State.held, hw, hpc]
  cases hwin : s.winner with
  | none => rfl
  | some w => simp only [Function.update_of_ne (h.id_ne hi hwin)]

theorem phase_bystander (h : Control s) (hi : (s.pc i).settles = none)
    (hpc : s'.pc = Function.update s.pc i pc') (hw : s'.winner = s.winner) :
    s'.phase = s.phase := by
  simp only [State.phase, hw, hpc]
  cases hwin : s.winner with
  | none => rfl
  | some w => simp only [Function.update_of_ne (h.id_ne hi hwin)]

/-- **Bystander rule.** A step of a call without a claim keeps `Control`, if it
writes no attribute but the contents of a list that is not drained. -/
theorem bystander (h : Control s) (hi : (s.pc i).settles = none)
    (hi' : pc'.settles = none) (hpc : s'.pc = Function.update s.pc i pc')
    (hw : s'.winner = s.winner) (hsettling : s'.settling = s.settling)
    (hstate : s'.state = s.state) (hresult : s'.result = s.result)
    (hlist : ∀ k, s'.list k = .drained ↔ s.list k = .drained) :
    Control s' := by
  have hphase := h.phase_bystander hi hpc hw
  constructor
  · intro j o p
    rw [hw, ← h.claim j o p, hpc]
    by_cases hj : j = i
    · subst hj
      simp [hi, hi']
    · simp [hj]
  · rw [hsettling, hw, h.settling]
  · rw [hstate, hw, hphase, h.state]
  · intro o
    rw [hresult, hw, hphase, h.result]
  · intro k
    rw [hlist, hw, hphase, h.drained]

/-- **Settler rule.** A step of the winning call keeps `Control`, if the
attributes are the ones of its new phase. -/
theorem settler (h : Control s) {w : Winner V} (hwin : s.winner = some w)
    (hs : pc'.settles = some (w.outcome, w.payload))
    (hpc : s'.pc = Function.update s.pc w.id pc')
    (hw : s'.winner = s.winner) (hsettling : s'.settling = s.settling)
    (hstate : s'.state = stateAt (some w) pc'.phase)
    (hresult : ∀ o, s'.result o = resultAt (some w) pc'.phase o)
    (hlist : ∀ k, s'.list k = .drained ↔ DrainedAt (some w) pc'.phase k) :
    Control s' := by
  have hphase : s'.phase = pc'.phase := by
    simp [State.phase, hw, hwin, hpc]
  constructor
  · intro j o p
    rw [hw]
    by_cases hj : j = w.id
    · subst hj
      simp [hwin, hpc, hs, Winner.ext_iff, eq_comm]
    · rw [← h.claim j o p, hpc, Function.update_of_ne hj]
  · rw [hsettling, hw, h.settling]
  · rw [hstate, hw, hphase, hwin]
  · intro o
    rw [hresult, hw, hphase, hwin]
  · intro k
    rw [hlist, hw, hphase, hwin]

end Control

/-! ## What belongs to which call -/

/-- The calls a program point can be in. -/
def Pc.Of : Pc V → Option (Op V) → Prop
  | .idle, op => op = none
  | .claim o p, op | .writeResult o p, op | .drainRead o p _, op
  | .drainCas o p _ _, op | .fire o p _, op | .firing o p _ _, op
  | .publish o p, op | .notify o p, op | .schedule o p _, op
  | .ret (.settled o p), op => op = some (.settle o p)
  | .readState job, op | .appendRead job, op | .appendCas job _, op =>
      op = some (.register job)
  | .readResult o b, op | .call o b _, op | .calling o b, op =>
      op = some (.register (.callback o b))
  | .ret .lost, op => ∃ o p, op = some (.settle o p)
  | .ret .appended, op | .ret .fired, op | .ret .skipped, op =>
      ∃ o b, op = some (.register (.callback o b))
  | .ret (.parked _), op => ∃ a, op = some (.register (.waiter a))

/-- Two points past the claim, with the same claim, are of the same calls. -/
theorem Pc.Of.settles {pc pc' : Pc V} {op : Option (Op V)}
    {p : Option V} (hs : pc.settles = some (o, p))
    (hs' : pc'.settles = some (o, p)) (h : pc.Of op) : pc'.Of op := by
  have hop : ∀ {q : Pc V}, q.settles = some (o, p) →
      (q.Of op ↔ op = some (.settle o p)) := by
    intro q hq
    cases q with
    | ret r => cases r <;> simp_all [Pc.settles, Pc.Of]
    | _ => simp_all [Pc.settles, Pc.Of]
  exact (hop hs').mpr ((hop hs).mp h)

/-- The winning settlement has outcome `o` and is at phase `d` or later. -/
def State.Won (s : State V) (o : Outcome) (d : Nat) : Prop :=
  ∃ w, s.winner = some w ∧ w.outcome = o ∧ d ≤ s.phase

/-- What a call may conclude from what it read. -/
def PcOK (s : State V) (i : Nat) : Pc V → Prop
  | .drainCas _ _ _ cur | .appendCas _ cur => cur ≠ .drained
  | .readResult o _ => s.Won o 3
  | .call o _ arg => s.Won o 3 ∧ s.result o = some arg
  | .ret .skipped =>
      ∃ o b, s.calls i = some (.register (.callback o b)) ∧ s.Won o.other 5
  | .ret (.parked false) => s.winner ≠ none
  | _ => True

/-- An entry stands for a registration at the key `k`. -/
def EntryOK (s : State V) (k : Key) (e : Entry V) : Prop :=
  ∃ job, s.calls e.id = some (.register job) ∧ job.key = k ∧ e.item = job.item

/-- An invocation is one of a registered block, with the settled result. -/
def InvocationOK (s : State V) (c : Invocation V) : Prop :=
  (∃ b, s.calls c.id = some (.register (.callback c.outcome b))) ∧
    s.Won c.outcome 3 ∧ s.result c.outcome = some c.arg

/-- Program points, list entries and invocations belong to the calls that made
them. -/
structure Registry (s : State V) : Prop where
  calls : ∀ i, (s.pc i).Of (s.calls i)
  pcs : ∀ i, PcOK s i (s.pc i)
  lists : ∀ k, ∀ e ∈ (s.list k).entries, EntryOK s k e
  toFire : ∀ w, s.winner = some w →
    ∀ e ∈ s.held Pc.toFire, EntryOK s w.outcome.cbsKey e
  invocations : ∀ c ∈ s.invocations, InvocationOK s c

/-- `s'` comes after `s`: the claim, the calls and the results of `s` stand. -/
structure Later (s s' : State V) : Prop where
  winner : ∀ w, s.winner = some w → s'.winner = some w
  phase : s.winner ≠ none → s.phase ≤ s'.phase
  calls : ∀ i op, s.calls i = some op → s'.calls i = some op
  result : ∀ o v, s.result o = some v → s'.result o = some v

namespace Later

variable {s s' : State V}

theorem won (h : Later s s') {o : Outcome} {d : Nat} (hwon : s.Won o d) :
    s'.Won o d := by
  obtain ⟨w, hw, ho, hd⟩ := hwon
  have hle := h.phase (by simp [hw])
  exact ⟨w, h.winner w hw, ho, by omega⟩

theorem pcOK (h : Later s s') {i : Nat} {pc : Pc V} (hpc : PcOK s i pc) :
    PcOK s' i pc := by
  have hwinner : s.winner ≠ none → s'.winner ≠ none := by
    intro hne
    obtain ⟨w, hw⟩ := Option.ne_none_iff_exists'.mp hne
    simp [h.winner w hw]
  match pc, hpc with
  | .drainCas .., hcur => exact hcur
  | .appendCas .., hcur => exact hcur
  | .readResult .., hwon => exact h.won hwon
  | .call .., ⟨hwon, hres⟩ => exact ⟨h.won hwon, h.result _ _ hres⟩
  | .ret .skipped, ⟨o, b, hcall, hwon⟩ =>
      exact ⟨o, b, h.calls _ _ hcall, h.won hwon⟩
  | .ret (.parked false), hne => exact hwinner hne
  | .idle, _ | .claim .., _ | .writeResult .., _ | .drainRead .., _
  | .fire .., _ | .firing .., _ | .publish .., _ | .notify .., _
  | .schedule .., _ | .readState .., _ | .appendRead .., _ | .calling .., _
  | .ret (.settled ..), _ | .ret .lost, _ | .ret .appended, _
  | .ret .fired, _ | .ret (.parked true), _ => trivial

theorem entryOK (h : Later s s') {k : Key} {e : Entry V}
    (he : EntryOK s k e) : EntryOK s' k e := by
  obtain ⟨job, hcall, hkey, hitem⟩ := he
  exact ⟨job, h.calls _ _ hcall, hkey, hitem⟩

theorem invocationOK (h : Later s s') {c : Invocation V}
    (hc : InvocationOK s c) : InvocationOK s' c := by
  obtain ⟨⟨b, hcall⟩, hwon, hres⟩ := hc
  exact ⟨⟨b, h.calls _ _ hcall⟩, h.won hwon, h.result _ _ hres⟩

end Later

/-- **Registry rule.** A step of call `i` keeps the registry, if what is new in
it is justified. -/
theorem Registry.step {s s' : State V} (h : Registry s) (hl : Later s s')
    {i : Nat} {pc' : Pc V} (hpc : s'.pc = Function.update s.pc i pc')
    (hcalls : ∀ j, j ≠ i → s'.calls j = s.calls j)
    (hof : pc'.Of (s'.calls i)) (hok : PcOK s' i pc')
    (hlists : ∀ k, ∀ e ∈ (s'.list k).entries,
      e ∈ (s.list k).entries ∨ EntryOK s' k e)
    (hfire : ∀ w, s'.winner = some w → ∀ e ∈ s'.held Pc.toFire,
      EntryOK s' w.outcome.cbsKey e)
    (hinv : ∀ c ∈ s'.invocations, c ∈ s.invocations ∨ InvocationOK s' c) :
    Registry s' := by
  constructor
  · intro j
    by_cases hj : j = i
    · subst hj
      simpa [hpc] using hof
    · rw [hpc, Function.update_of_ne hj, hcalls j hj]
      exact h.calls j
  · intro j
    by_cases hj : j = i
    · subst hj
      simpa [hpc] using hok
    · rw [hpc, Function.update_of_ne hj]
      exact hl.pcOK (h.pcs j)
  · intro k e he
    rcases hlists k e he with hold | hnew
    · exact hl.entryOK (h.lists k e hold)
    · exact hnew
  · exact hfire
  · intro c hc
    rcases hinv c hc with hold | hnew
    · exact hl.invocationOK (h.invocations c hold)
    · exact hnew

/-! ## What an attribute read tells -/

namespace Control

variable {s : State V} {o : Outcome} {d : Nat}

theorem won_of_state (h : Control s) (hst : s.state = o.code) :
    s.Won o 5 := by
  rw [h.state] at hst
  cases hw : s.winner with
  | none => exact absurd (by rw [← hst, hw]; rfl) o.code_ne_zero
  | some w =>
      simp only [hw, stateAt] at hst
      split at hst
      · exact ⟨w, hw, Outcome.code_inj.mp hst, ‹_›⟩
      · exact absurd hst.symm o.code_ne_zero

theorem won_of_drained (h : Control s) (hdr : s.list o.cbsKey = .drained) :
    s.Won o 3 := by
  rw [h.drained] at hdr
  cases hw : s.winner with
  | none => simp [hw, DrainedAt] at hdr
  | some w =>
      simp only [hw, DrainedAt, Outcome.cbsKey_ne_waiters, false_and, or_false,
        Outcome.cbsKey_inj] at hdr
      exact ⟨w, hw, hdr.1.symm, hdr.2⟩

theorem winner_of_waiters (h : Control s) (hdr : s.list .waiters = .drained) :
    s.winner ≠ none := by
  rw [h.drained] at hdr
  intro hw
  simp [hw, DrainedAt] at hdr

theorem winner_of_state (h : Control s) (hst : s.state ≠ 0) :
    s.winner ≠ none := by
  intro hw
  rw [h.state, hw] at hst
  exact hst rfl

/-- From the phase at which it is written, the result is there. -/
theorem result_of_won (h : Control s) (hwon : s.Won o d) (hd : 2 ≤ d) :
    ∃ v, s.result o = some v := by
  obtain ⟨w, hw, rfl, hle⟩ := hwon
  refine ⟨w.payload, ?_⟩
  rw [h.result, hw, resultAt, if_pos ⟨rfl, by omega⟩]

end Control

theorem State.Won.mono {s : State V} {d d' : Nat}
    (h : s.Won o d) (hd : d' ≤ d) : s.Won o d' := by
  obtain ⟨w, hw, ho, hle⟩ := h
  exact ⟨w, hw, ho, by omega⟩

/-! ## How often each registration is named -/

/-- Each registration is named as often as its call placed it. -/
structure Tally (s : State V) : Prop where
  callbacks : ∀ i, s.invoked i + s.listed .thenCbs i + s.listed .catchCbs i +
    s.holds Pc.toFire i = (s.pc i).placed
  waiters : ∀ i, s.scheduled.count i + s.listed .waiters i +
    s.holds Pc.toWake i = (s.pc i).parked
  returned : ∀ i, s.returned.count i + s.holds Pc.running i + (s.pc i).self =
    s.invoked i

/-- **Tally rule.** A step of call `i` keeps the tally, if the places named
change as the program point does. -/
theorem Tally.step {s s' : State V} (h : Tally s) {i : Nat} {pc' : Pc V}
    (hpc : s'.pc = Function.update s.pc i pc')
    (hcallbacks : ∀ j, s'.invoked j + s'.listed .thenCbs j +
      s'.listed .catchCbs j + s'.holds Pc.toFire j +
        (if j = i then (s.pc i).placed else 0) =
      s.invoked j + s.listed .thenCbs j + s.listed .catchCbs j +
        s.holds Pc.toFire j + if j = i then pc'.placed else 0)
    (hwaiters : ∀ j, s'.scheduled.count j + s'.listed .waiters j +
      s'.holds Pc.toWake j + (if j = i then (s.pc i).parked else 0) =
      s.scheduled.count j + s.listed .waiters j + s.holds Pc.toWake j +
        if j = i then pc'.parked else 0)
    (hreturned : ∀ j, s'.returned.count j + s'.holds Pc.running j +
      s.invoked j + (if j = i then pc'.self else 0) =
      s.returned.count j + s.holds Pc.running j + s'.invoked j +
        if j = i then (s.pc i).self else 0) :
    Tally s' := by
  have hpoint : ∀ j, s'.pc j = if j = i then pc' else s.pc j := by
    intro j
    rw [hpc, Function.update_apply]
  constructor
  · intro j
    have hold := h.callbacks j
    have hnew := hcallbacks j
    rw [hpoint]
    split at hnew <;> simp_all only [if_true, if_false] <;> omega
  · intro j
    have hold := h.waiters j
    have hnew := hwaiters j
    rw [hpoint]
    split at hnew <;> simp_all only [if_true, if_false] <;> omega
  · intro j
    have hold := h.returned j
    have hnew := hreturned j
    rw [hpoint]
    split at hnew <;> simp_all only [if_true, if_false] <;> omega

/-- The three invariants together. -/
structure Inv (s : State V) : Prop where
  control : Control s
  registry : Registry s
  tally : Tally s

/-! ## Steps of a call without a claim -/

namespace Inv

variable {s s' : State V} {i : Nat} {pc' : Pc V}

/-- A step of a call without a claim is later, if the claim, the calls and the
results are kept. -/
theorem later_bystander (h : Inv s) (hi : (s.pc i).settles = none)
    (hpc : s'.pc = Function.update s.pc i pc') (hw : s'.winner = s.winner)
    (hcalls : ∀ j op, s.calls j = some op → s'.calls j = some op)
    (hresult : s'.result = s.result) : Later s s' where
  winner := fun w hwin => by rw [hw, hwin]
  phase := fun _ => Nat.le_of_eq (h.control.phase_bystander hi hpc hw).symm
  calls := hcalls
  result := fun o v hv => by rw [hresult, hv]

/-- **Bystander rule.** A step of a call without a claim: it writes no attribute
but the contents of a list that is not drained, and names what its program point
places. -/
theorem bystander (h : Inv s) (hi : (s.pc i).settles = none)
    (hi' : pc'.settles = none) (hpc : s'.pc = Function.update s.pc i pc')
    (hw : s'.winner = s.winner) (hsettling : s'.settling = s.settling)
    (hstate : s'.state = s.state) (hresult : s'.result = s.result)
    (hcalls : ∀ j, j ≠ i → s'.calls j = s.calls j)
    (hcall : ∀ op, s.calls i = some op → s'.calls i = some op)
    (hlist : ∀ k, s'.list k = .drained ↔ s.list k = .drained)
    (hof : pc'.Of (s'.calls i)) (hok : PcOK s i pc')
    (hlists : ∀ k, ∀ e ∈ (s'.list k).entries,
      e ∈ (s.list k).entries ∨ EntryOK s' k e)
    (hinv : ∀ c ∈ s'.invocations, c ∈ s.invocations ∨ InvocationOK s c)
    (hcallbacks : ∀ j, s'.invoked j + s'.listed .thenCbs j +
      s'.listed .catchCbs j + (if j = i then (s.pc i).placed else 0) =
      s.invoked j + s.listed .thenCbs j + s.listed .catchCbs j +
        if j = i then pc'.placed else 0)
    (hwaiters : ∀ j, s'.scheduled.count j + s'.listed .waiters j +
      (if j = i then (s.pc i).parked else 0) =
      s.scheduled.count j + s.listed .waiters j +
        if j = i then pc'.parked else 0)
    (hreturned : ∀ j, s'.returned.count j + s.invoked j +
      (if j = i then pc'.self else 0) =
      s.returned.count j + s'.invoked j +
        if j = i then (s.pc i).self else 0) : Inv s' := by
  have hl : Later s s' := by
    refine h.later_bystander hi hpc hw (fun j op hop => ?_) hresult
    by_cases hj : j = i
    · subst hj
      exact hcall op hop
    · rw [hcalls j hj, hop]
  have hheld := h.control.held_bystander hi hpc hw
  have hholds : ∀ f j, s'.holds f j = s.holds f j := by
    intro f j
    rw [State.holds, hheld, State.holds]
  constructor
  · exact h.control.bystander hi hi' hpc hw hsettling hstate hresult hlist
  · refine h.registry.step hl hpc hcalls hof (hl.pcOK hok) hlists ?_
      fun c hc => (hinv c hc).imp id hl.invocationOK
    intro w hwin e he
    rw [hheld] at he
    exact hl.entryOK (h.registry.toFire w (by rw [← hw, hwin]) e he)
  · refine h.tally.step hpc ?_ ?_ ?_ <;> intro j <;> rw [hholds]
    · have := hcallbacks j
      omega
    · have := hwaiters j
      omega
    · have := hreturned j
      omega

/-- **Silent rule.** A call without a claim moves to another point and touches
nothing. -/
theorem silent (h : Inv s) {pc : Pc V} (hpc : s.pc i = pc) (hi : pc.settles = none)
    (hi' : pc'.settles = none) (hplaced : pc'.placed = pc.placed)
    (hparked : pc'.parked = pc.parked) (hself : pc'.self = pc.self)
    (hof : pc'.Of (s.calls i)) (hok : PcOK s i pc') :
    Inv (s.goto i pc') := by
  subst hpc
  refine h.bystander hi hi' rfl rfl rfl rfl rfl (fun _ _ => rfl) (fun _ hc => hc)
    (fun _ => Iff.rfl) hof hok (fun _ _ he => .inl he) (fun _ hc => .inl hc) ?_ ?_ ?_
  · intro j
    rw [hplaced]
    rfl
  · intro j
    rw [hparked]
    rfl
  · intro j
    rw [hself]
    rfl

/-- A call begins. -/
theorem begin (h : Inv s) (op : Op V) (hidle : s.pc i = .idle) :
    Inv { s.goto i op.entry with
      calls := Function.update s.calls i (some op) } := by
  have hnone : s.calls i = none := by
    have hof := h.registry.calls i
    rwa [hidle] at hof
  refine h.bystander (by rw [hidle]; rfl) (by cases op <;> rfl) rfl rfl rfl rfl rfl
    (fun j hj => by simp [hj]) (fun op' hop => ?_) (fun _ => Iff.rfl) ?_ ?_
    (fun _ _ he => .inl he) (fun _ hc => .inl hc) ?_ ?_ ?_
  · rw [hnone] at hop
    cases hop
  · cases op <;> simp [Op.entry, Pc.Of]
  · cases op <;> trivial
  all_goals
    rw [hidle]
    cases op <;> exact fun _ => rfl

/-- `appendOrDrained` won its swap. -/
theorem append (h : Inv s) (job : Job V) {cur : Slot V}
    (hpc : s.pc i = .appendCas job cur) (hcur : s.list job.key = cur) :
    Inv ((s.setList job.key
      (.list (cur.entries ++ [⟨i, job.item⟩]))).goto i job.onAppended) := by
  have hopen : s.list job.key ≠ .drained := by
    have hok := h.registry.pcs i
    rw [hpc] at hok
    rw [hcur]
    exact hok
  have hcall : s.calls i = some (.register job) := by
    have hof := h.registry.calls i
    rwa [hpc] at hof
  generalize hs' : (s.setList job.key
    (.list (cur.entries ++ [⟨i, job.item⟩]))).goto i job.onAppended = s'
  have hcalls : s'.calls = s.calls := by rw [← hs']; rfl
  have hself : (s'.list job.key).entries =
      (s.list job.key).entries ++ [⟨i, job.item⟩] := by
    rw [← hs', hcur]
    simp [State.goto, State.setList, Slot.entries]
  have hother : ∀ k, k ≠ job.key → s'.list k = s.list k := by
    intro k hk
    rw [← hs']
    simp [State.goto, State.setList, hk]
  have hlisted : ∀ k j, s'.listed k j =
      s.listed k j + if k = job.key ∧ j = i then 1 else 0 := by
    intro k j
    by_cases hk : k = job.key
    · subst hk
      by_cases hj : j = i
      · subst hj
        simp [State.listed, hself]
      · have hij : i ≠ j := Ne.symm hj
        simp [State.listed, hself, hj, hij]
    · simp [State.listed, hother k hk, hk]
  have hinvoked : s'.invoked = s.invoked := by rw [← hs']; rfl
  have hreturned : s'.returned = s.returned := by rw [← hs']; rfl
  have hscheduled : s'.scheduled = s.scheduled := by rw [← hs']; rfl
  have hi' : job.onAppended.settles = none := by cases job <;> rfl
  refine h.bystander (by rw [hpc]; rfl) hi' (by rw [← hs']; rfl)
    (by rw [← hs']; rfl) (by rw [← hs']; rfl) (by rw [← hs']; rfl) (by rw [← hs']; rfl)
    (fun _ _ => by rw [hcalls]) (fun _ hop => by rw [hcalls, hop]) ?_ ?_ ?_ ?_
    (fun c hc => .inl (by rw [← hs'] at hc; exact hc)) ?_ ?_ ?_
  · intro k
    by_cases hk : k = job.key
    · subst hk
      constructor
      · rw [← hs']
        simp [State.goto, State.setList]
      · exact fun hdr => absurd hdr hopen
    · rw [hother k hk]
  · rw [hcalls, hcall]
    cases job <;> simp [Job.onAppended, Pc.Of]
  · cases job <;> trivial
  · intro k e he
    by_cases hk : k = job.key
    · subst hk
      rw [hself, List.mem_append, List.mem_singleton] at he
      rcases he with hold | rfl
      · exact .inl hold
      · exact .inr ⟨job, by rw [hcalls, hcall], rfl, rfl⟩
    · rw [hother k hk] at he
      exact .inl he
  · intro j
    rw [hpc, hinvoked, hlisted, hlisted]
    rcases job with ⟨_ | _, _⟩ | _ <;>
      simp [Job.key, Job.onAppended, Outcome.cbsKey, Pc.placed] <;> omega
  · intro j
    rw [hpc, hscheduled, hlisted]
    rcases job with ⟨_ | _, _⟩ | _ <;>
      simp [Job.key, Job.onAppended, Outcome.cbsKey, Pc.parked]
    omega
  · intro j
    rw [hpc, hreturned, hinvoked]
    cases job <;> simp [Job.onAppended, Pc.self]

variable {o : Outcome}

/-- A registrant runs its own block. -/
theorem call (h : Inv s) {block : V} {arg : Option V}
    (hpc : s.pc i = .call o block arg) :
    Inv { s.goto i (.calling o block) with
      invocations := s.invocations ++ [⟨i, o, arg⟩] } := by
  have hcall : s.calls i = some (.register (.callback o block)) := by
    have hof := h.registry.calls i
    rwa [hpc] at hof
  have hok : s.Won o 3 ∧ s.result o = some arg := by
    have hok := h.registry.pcs i
    rwa [hpc] at hok
  generalize hs' : ({ s.goto i (.calling o block) with
    invocations := s.invocations ++ [⟨i, o, arg⟩] } : State V) = s'
  have hcalls : s'.calls = s.calls := by rw [← hs']; rfl
  have hlist : s'.list = s.list := by rw [← hs']; rfl
  have hinv : s'.invocations = s.invocations ++ [⟨i, o, arg⟩] := by rw [← hs']
  have hinvoked : ∀ j, s'.invoked j = s.invoked j + if j = i then 1 else 0 := by
    intro j
    by_cases hj : j = i
    · subst hj
      simp [State.invoked, hinv]
    · have hij : i ≠ j := Ne.symm hj
      simp [State.invoked, hinv, hj, hij]
  have hlisted : s'.listed = s.listed := by rw [← hs']; rfl
  have hreturned : s'.returned = s.returned := by rw [← hs']; rfl
  have hscheduled : s'.scheduled = s.scheduled := by rw [← hs']; rfl
  have hpc' : s'.pc = Function.update s.pc i (.calling o block) := by rw [← hs']; rfl
  refine h.bystander (by rw [hpc]; rfl) rfl hpc' (by rw [← hs']; rfl)
    (by rw [← hs']; rfl) (by rw [← hs']; rfl) (by rw [← hs']; rfl)
    (fun _ _ => by rw [hcalls]) (fun _ hop => by rw [hcalls, hop])
    (fun _ => by rw [hlist]) (by rw [hcalls]; exact hcall) trivial
    (fun _ _ he => .inl (by rwa [← hlist])) ?_ ?_ ?_ ?_
  · intro c hc
    rw [hinv, List.mem_append, List.mem_singleton] at hc
    rcases hc with hold | rfl
    · exact .inl hold
    · exact .inr ⟨⟨block, hcall⟩, hok⟩
  all_goals intro j
  · simp only [hpc, hinvoked, hlisted, Pc.placed]
    split <;> omega
  · simp only [hpc, hscheduled, hlisted, Pc.parked]
  · simp only [hpc, hreturned, hinvoked, Pc.self]
    split <;> omega

/-- A block that a registrant ran returned. -/
theorem calling (h : Inv s) {block : V}
    (hpc : s.pc i = .calling o block) :
    Inv { s.goto i (.ret .fired) with returned := s.returned ++ [i] } := by
  have hcall : s.calls i = some (.register (.callback o block)) := by
    have hof := h.registry.calls i
    rwa [hpc] at hof
  refine h.bystander (by rw [hpc]; rfl) rfl rfl rfl rfl rfl rfl (fun _ _ => rfl)
    (fun _ hop => hop) (fun _ => Iff.rfl) ⟨o, block, hcall⟩ trivial
    (fun _ _ he => .inl he) (fun _ hc => .inl hc) ?_ ?_ ?_ <;> intro j
  · simp only [hpc, Pc.placed]
    rfl
  · simp only [hpc, Pc.parked]
    rfl
  · have hcount : (s.returned ++ [i]).count j =
        s.returned.count j + if j = i then 1 else 0 := by
      rw [List.count_append, List.count_singleton]
      simp only [beq_iff_eq, @eq_comm _ i]
    have hinvoked : ({ s.goto i (.ret .fired) with
      returned := s.returned ++ [i] } : State V).invoked j = s.invoked j := rfl
    simp only [hpc, hcount, hinvoked, Pc.self]
    split <;> omega

/-! ## Steps of the winning settlement -/

variable {w : Winner V}

/-- The phase of the future is the one of its winner's program point. -/
theorem phase_winner (hwin : s.winner = some w) :
    s.phase = (s.pc w.id).phase := by
  simp [State.phase, hwin]

theorem held_winner (hwin : s.winner = some w)
    (f : Pc V → List (Entry V)) : s.held f = f (s.pc w.id) := by
  simp [State.held, hwin]

/-- **Settler rule.** A step of the winning call: the attributes follow its
phase, and what it took from a list it still holds or has handed on. -/
theorem settler (h : Inv s) (hwin : s.winner = some w)
    (hs : pc'.settles = some (w.outcome, w.payload))
    (hphase : (s.pc w.id).phase ≤ pc'.phase)
    (hpc' : s'.pc = Function.update s.pc w.id pc')
    (hw : s'.winner = s.winner) (hsettling : s'.settling = s.settling)
    (hcalls : s'.calls = s.calls)
    (hstate : s'.state = stateAt (some w) pc'.phase)
    (hresult : ∀ o, s'.result o = resultAt (some w) pc'.phase o)
    (hdrained : ∀ k, s'.list k = .drained ↔ DrainedAt (some w) pc'.phase k)
    (hok : PcOK s' w.id pc')
    (hlists : ∀ k, ∀ e ∈ (s'.list k).entries, e ∈ (s.list k).entries)
    (hfire : ∀ e ∈ pc'.toFire, EntryOK s w.outcome.cbsKey e)
    (hinv : ∀ c ∈ s'.invocations, c ∈ s.invocations ∨
      3 ≤ pc'.phase ∧ c.outcome = w.outcome ∧ c.arg = w.payload ∧
        ∃ b, s.calls c.id = some (.register (.callback c.outcome b)))
    (hcallbacks : ∀ j, s'.invoked j + s'.listed .thenCbs j +
      s'.listed .catchCbs j + (pc'.toFire.map (·.id)).count j =
      s.invoked j + s.listed .thenCbs j + s.listed .catchCbs j +
        ((s.pc w.id).toFire.map (·.id)).count j)
    (hwaiters : ∀ j, s'.scheduled.count j + s'.listed .waiters j +
      (pc'.toWake.map (·.id)).count j =
      s.scheduled.count j + s.listed .waiters j +
        ((s.pc w.id).toWake.map (·.id)).count j)
    (hreturned : ∀ j, s'.returned.count j +
      (pc'.running.map (·.id)).count j + s.invoked j =
      s.returned.count j + ((s.pc w.id).running.map (·.id)).count j +
        s'.invoked j) :
    Inv s' := by
  have hwin' : s'.winner = some w := by rw [hw, hwin]
  have hat : s'.pc w.id = pc' := by rw [hpc']; simp
  have hphase' : s'.phase = pc'.phase := by rw [phase_winner hwin', hat]
  have hl : Later s s' := by
    constructor
    · intro w' hw'
      rw [hw, hw']
    · intro _
      rw [phase_winner hwin, hphase']
      exact hphase
    · intro j op hj
      rw [hcalls, hj]
    · intro o v hv
      rw [h.control.result, hwin, phase_winner hwin] at hv
      rw [hresult]
      simp only [resultAt] at hv ⊢
      split at hv
      · rename_i hcond
        rw [if_pos ⟨hcond.1, by omega⟩]
        exact hv
      · cases hv
  have hclaim := (h.control.claim w.id w.outcome w.payload).mpr hwin
  constructor
  · exact h.control.settler hwin hs hpc' hw hsettling hstate hresult hdrained
  · refine h.registry.step hl hpc' (fun _ _ => by rw [hcalls]) ?_ hok
      (fun k e he => .inl (hlists k e he)) ?_ ?_
    · have hof := h.registry.calls w.id
      rw [hcalls]
      exact Pc.Of.settles hclaim hs hof
    · intro w' hw' e he
      obtain rfl : w = w' := by
        rw [hwin'] at hw'
        exact Option.some.inj hw'
      rw [held_winner hwin', hat] at he
      exact hl.entryOK (hfire e he)
    · intro c hc
      rcases hinv c hc with hold | ⟨hd, ho, harg, b, hb⟩
      · exact .inl hold
      · refine .inr ⟨⟨b, by rw [hcalls, hb]⟩, ⟨w, hwin', ho.symm, by omega⟩, ?_⟩
        rw [hresult, resultAt, if_pos ⟨ho, by omega⟩, harg]
  · have hzero := Pc.settles_zero hclaim
    have hzero' := Pc.settles_zero hs
    have hholds : ∀ f j, s'.holds f j = ((f pc').map (·.id)).count j := by
      intro f j
      rw [State.holds, held_winner hwin', hat]
    have hholdsOld : ∀ f j,
        s.holds f j = ((f (s.pc w.id)).map (·.id)).count j := by
      intro f j
      rw [State.holds, held_winner hwin]
    refine h.tally.step hpc' ?_ ?_ ?_ <;> intro j
    · have := hcallbacks j
      simp only [hholds, hholdsOld, hzero.1, hzero'.1]
      omega
    · have := hwaiters j
      simp only [hholds, hholdsOld, hzero.2.1, hzero'.2.1]
      omega
    · have := hreturned j
      simp only [hholds, hholdsOld, hzero.2.2, hzero'.2.2]
      omega

/-- **Silent settler rule.** The winning call moves to a point that no
attribute depends on. -/
theorem settlerSilent (h : Inv s) (hwin : s.winner = some w)
    (hs : pc'.settles = some (w.outcome, w.payload))
    (hphase : (s.pc w.id).phase ≤ pc'.phase)
    (hsame : ∀ d ∈ [2, 3, 5, 7], d ≤ pc'.phase → d ≤ (s.pc w.id).phase)
    (hok : ∀ t, PcOK t w.id pc') (hfire : pc'.toFire = (s.pc w.id).toFire)
    (hwake : pc'.toWake = (s.pc w.id).toWake)
    (hrun : pc'.running = (s.pc w.id).running) :
    Inv (s.goto w.id pc') := by
  have hc := h.control
  have hd := phase_winner hwin
  have hiff : ∀ d ∈ [2, 3, 5, 7], (d ≤ s.phase ↔ d ≤ pc'.phase) := by
    intro d hmem
    have := hsame d hmem
    omega
  have h2 := hiff 2 (by simp)
  have h3 := hiff 3 (by simp)
  have h5 := hiff 5 (by simp)
  have h7 := hiff 7 (by simp)
  refine h.settler hwin hs hphase rfl rfl rfl rfl ?_ ?_ ?_ ?_
    (fun _ _ he => he) ?_ (fun _ hc => .inl hc) ?_ ?_ ?_
  · have := hc.state
    simp only [hwin, stateAt, h5] at this
    exact this
  · intro o
    have := hc.result o
    simp only [hwin, resultAt, h2] at this
    exact this
  · intro k
    have := hc.drained k
    simp only [hwin, DrainedAt, h3, h7] at this
    exact this
  · exact hok _
  · rw [hfire, ← held_winner hwin Pc.toFire]
    exact h.registry.toFire w hwin
  · intro j; rw [hfire]; rfl
  · intro j; rw [hwake]; rfl
  · intro j; rw [hrun]; rfl

/-- A settlement wins the claim. -/
theorem claim (h : Inv s) {p : Option V}
    (hpc : s.pc i = .claim o p) (hfree : s.settling = false) :
    Inv { s.goto i (.writeResult o p) with
      settling := true, winner := some ⟨i, o, p⟩ } := by
  have hi : (s.pc i).settles = none := by rw [hpc]; rfl
  have hnone : s.winner = none := by
    have hset := h.control.settling
    rw [hfree] at hset
    simpa using hset.symm
  have hcall : s.calls i = some (.settle o p) := by
    have hof := h.registry.calls i
    rwa [hpc] at hof
  have hzero : ∀ f j, s.holds f j = 0 := by
    intro f j
    simp [State.holds, State.held, hnone]
  generalize hs' : ({ s.goto i (.writeResult o p) with
    settling := true, winner := some ⟨i, o, p⟩ } : State V) = s'
  have hpc' : s'.pc = Function.update s.pc i (.writeResult o p) := by
    rw [← hs']; rfl
  have hwin : s'.winner = some ⟨i, o, p⟩ := by rw [← hs']
  have hcalls : s'.calls = s.calls := by rw [← hs']; rfl
  have hres : s'.result = s.result := by rw [← hs']; rfl
  have hlist : s'.list = s.list := by rw [← hs']; rfl
  have hphase : s'.phase = 1 := by
    simp [State.phase, hwin, hpc', Pc.phase]
  have hzero' : ∀ f j, f (.writeResult o p) = [] → s'.holds f j = 0 := by
    intro f j hf
    simp [State.holds, State.held, hwin, hpc', hf]
  have hl : Later s s' := by
    constructor
    · intro w hw
      rw [hnone] at hw
      cases hw
    · exact fun hne => absurd hnone hne
    · intro j op hj
      rw [hcalls, hj]
    · intro o' v hv
      rw [hres, hv]
  constructor
  · constructor
    · intro j o' p'
      rw [hwin, hpc']
      by_cases hj : j = i
      · subst hj
        simp [Pc.settles]
      · have hno := h.control.claim j o' p'
        have hij : i ≠ j := Ne.symm hj
        rw [hnone] at hno
        simpa [hj, hij] using hno
    · rw [hwin, ← hs']
      rfl
    · rw [hwin, hphase, ← hs']
      have hstate := h.control.state
      rw [hnone] at hstate
      exact hstate
    · intro o'
      rw [hwin, hphase, hres, h.control.result, hnone]
      simp [resultAt]
    · intro k
      rw [hwin, hphase, hlist, h.control.drained, hnone]
      simp [DrainedAt]
  · refine h.registry.step hl hpc' (fun _ _ => by rw [hcalls])
      (by rw [hcalls]; exact hcall) trivial
      (fun _ _ he => .inl (by rwa [← hlist])) ?_ ?_
    · intro w _ e he
      simp [State.held, hwin, hpc', Pc.toFire] at he
    · intro c hc
      rw [← hs'] at hc
      exact .inl hc
  · have hinvoked : s'.invoked = s.invoked := by rw [← hs']; rfl
    have hlisted : s'.listed = s.listed := by rw [← hs']; rfl
    have hreturned : s'.returned = s.returned := by rw [← hs']; rfl
    have hscheduled : s'.scheduled = s.scheduled := by rw [← hs']; rfl
    refine h.tally.step hpc' ?_ ?_ ?_ <;> intro j
    · simp only [hpc, hinvoked, hlisted, hzero, hzero' Pc.toFire j rfl, Pc.placed]
    · simp only [hpc, hscheduled, hlisted, hzero, hzero' Pc.toWake j rfl,
        Pc.parked]
    · simp only [hpc, hreturned, hinvoked, hzero, hzero' Pc.running j rfl, Pc.self]

end Inv

/-! ## Every step -/

section Steps

variable [DecidableEq V] {s s' : State V} {i : Nat}

omit [DecidableEq V] in
/-- What the settlement has done so far. -/
theorem Inv.settling (h : Inv s) {o : Outcome} {p : Option V} {pc : Pc V} (hpc : s.pc i = pc)
    (hsettles : pc.settles = some (o, p)) :
    s.winner = some ⟨i, o, p⟩ ∧ s.state = stateAt (some ⟨i, o, p⟩) pc.phase ∧
      (∀ o', s.result o' = resultAt (some ⟨i, o, p⟩) pc.phase o') ∧
      ∀ k, s.list k = .drained ↔ DrainedAt (some ⟨i, o, p⟩) pc.phase k := by
  have hwin := (h.control.claim i o p).mp (by rw [hpc, hsettles])
  have hphase : s.phase = pc.phase := by rw [Inv.phase_winner hwin, hpc]
  rw [← hwin, ← hphase]
  exact ⟨rfl, h.control.state, h.control.result, h.control.drained⟩

omit [DecidableEq V] in
/-- `drainList` won its swap. -/
theorem inv_drain (h : Inv s) {o : Outcome} {p : Option V} {stage : Stage}
    {cur : Slot V} (hpc : s.pc i = .drainCas o p stage cur)
    (hcur : s.list (stage.key o) = cur) :
    Inv ((s.setList (stage.key o) .drained).goto i
      (stage.use o p cur.entries)) := by
  obtain ⟨hwin, hstate, hresult, hdrained⟩ := h.settling hpc rfl
  have hempty : (Slot.drained : Slot V).entries = [] := rfl
  subst hcur
  cases stage with
  | callbacks =>
      simp only [Pc.phase] at hstate hresult hdrained
      refine h.settler hwin rfl (by simp [hpc, Pc.phase, Stage.use]) rfl rfl rfl
        rfl hstate (by simpa [resultAt, Pc.phase, Stage.use, State.goto,
          State.setList] using hresult) ?_
        trivial ?_ ?_ (fun _ hc => .inl hc) ?_ ?_ ?_
      · intro k
        by_cases hk : k = o.cbsKey
        · simp [hk, State.goto, State.setList, Stage.key, DrainedAt, Stage.use,
            Pc.phase]
        · simpa [hk, State.goto, State.setList, Stage.key, DrainedAt, Stage.use,
            Pc.phase] using hdrained k
      · intro k e he
        by_cases hk : k = o.cbsKey
        · simp [hk, State.goto, State.setList, Stage.key, hempty] at he
        · simpa [hk, State.goto, State.setList, Stage.key] using he
      · exact h.registry.lists o.cbsKey
      · intro j
        cases o <;>
          simp [hpc, State.goto, State.setList, State.invoked, State.listed,
            Stage.key, Stage.use, Outcome.cbsKey, Pc.toFire, hempty]
        omega
      · intro j
        simp [hpc, State.goto, State.setList, State.listed, Stage.key,
          Stage.use, Pc.toWake]
      · intro j
        simp [hpc, State.goto, State.setList, State.invoked, Stage.use,
          Pc.running]
  | waiters =>
      simp only [Pc.phase] at hstate hresult hdrained
      refine h.settler hwin rfl (by simp [hpc, Pc.phase, Stage.use]) rfl rfl rfl
        rfl hstate (by simpa [resultAt, Pc.phase, Stage.use, State.goto,
          State.setList] using hresult) ?_
        trivial ?_ (by simp [Stage.use, Pc.toFire])
        (fun _ hc => .inl hc) ?_ ?_ ?_
      · intro k
        by_cases hk : k = .waiters
        · simp [hk, State.goto, State.setList, Stage.key, DrainedAt, Stage.use,
            Pc.phase]
        · simpa [hk, State.goto, State.setList, Stage.key, DrainedAt, Stage.use,
            Pc.phase] using hdrained k
      · intro k e he
        by_cases hk : k = .waiters
        · simp [hk, State.goto, State.setList, Stage.key, hempty] at he
        · simpa [hk, State.goto, State.setList, Stage.key] using he
      · intro j
        simp [hpc, State.goto, State.setList, State.invoked, State.listed,
          Stage.key, Stage.use, Pc.toFire]
      · intro j
        simp [hpc, State.goto, State.setList, State.listed, Stage.key,
          Stage.use, Pc.toWake, hempty]
      · intro j
        simp [hpc, State.goto, State.setList, State.invoked, Stage.use,
          Pc.running]

section Settling

variable {o : Outcome} {p : Option V}

/-- It writes the result. -/
theorem inv_writeResult (h : Inv s) (hpc : s.pc i = .writeResult o p)
    (hstep : s.runThread i = some s') : Inv s' := by
  obtain ⟨hwin, hstate, hresult, hdrained⟩ := h.settling hpc rfl
  simp only [State.runThread, hpc, Option.some.injEq] at hstep
  subst hstep
  simp only [Pc.phase] at hstate hresult hdrained
  refine h.settler hwin rfl (by simp [hpc, Pc.phase]) rfl rfl rfl rfl
    hstate ?_ (by simpa [DrainedAt, Pc.phase, State.goto] using hdrained) trivial
    (fun _ _ he => he) (by simp [Pc.toFire]) (fun _ hc => .inl hc) ?_ ?_ ?_
  · intro o'
    by_cases ho : o' = o
    · subst ho
      simp [resultAt, Pc.phase]
    · simp [resultAt, ho, hresult]
  · intro j
    simp [hpc, Pc.toFire, State.goto, State.invoked, State.listed]
  · intro j
    simp [hpc, Pc.toWake, State.goto, State.listed]
  · intro j
    simp [hpc, Pc.running, State.goto, State.invoked]

/-- It reads a list, to drain it. -/
theorem inv_drainRead (h : Inv s) {stage : Stage} (hpc : s.pc i = .drainRead o p stage)
    (hstep : s.runThread i = some s') : Inv s' := by
  have hwin := (h.control.claim i o p).mp (by simp [hpc, Pc.settles])
  have hphase := Inv.phase_winner hwin
  have hdrained := h.control.drained
  have hopen : s.list (stage.key o) ≠ .drained := by
    rw [Ne, hdrained, hwin, hphase, hpc]
    cases stage <;> simp [DrainedAt, Pc.phase, Stage.key]
  simp only [State.runThread, hpc, if_neg hopen, Option.some.injEq] at hstep
  subst hstep
  refine h.settlerSilent hwin rfl ?_ ?_ (fun _ => hopen) ?_ ?_ ?_ <;>
    cases stage <;>
    simp [hpc, Pc.phase, Pc.toFire, Pc.toWake, Pc.running]

/-- It drains the list if nobody has changed it. -/
theorem inv_drainCas (h : Inv s) {stage : Stage} {cur : Slot V}
    (hpc : s.pc i = .drainCas o p stage cur)
    (hstep : s.runThread i = some s') : Inv s' := by
  have hwin := (h.control.claim i o p).mp (by simp [hpc, Pc.settles])
  simp only [State.runThread, hpc, Option.some.injEq] at hstep
  by_cases hcur : s.list (stage.key o) = cur
  · rw [if_pos hcur] at hstep
    subst hstep
    exact inv_drain h hpc hcur
  · rw [if_neg hcur] at hstep
    subst hstep
    refine h.settlerSilent hwin rfl ?_ ?_ (fun _ => trivial) ?_ ?_ ?_ <;>
      cases stage <;>
      simp [hpc, Pc.phase, Pc.toFire, Pc.toWake, Pc.running]

variable {todo : List (Entry V)}

/-- It invokes a callback, or it has invoked them all. -/
theorem inv_fire (h : Inv s) (hpc : s.pc i = .fire o p todo)
    (hstep : s.runThread i = some s') : Inv s' := by
  obtain ⟨hwin, hstate, hresult, hdrained⟩ := h.settling hpc rfl
  have hfire := h.registry.toFire _ hwin
  rw [Inv.held_winner hwin] at hfire
  cases todo with
  | nil =>
      simp only [State.runThread, hpc, Option.some.injEq] at hstep
      subst hstep
      refine h.settlerSilent hwin rfl ?_ ?_ (fun _ => trivial) ?_ ?_ ?_ <;>
        simp [hpc, Pc.phase, Pc.toFire, Pc.toWake, Pc.running]
  | cons e todo =>
      simp only [State.runThread, hpc, Option.some.injEq] at hstep
      subst hstep
      simp only [Pc.phase] at hstate hresult hdrained
      simp only [hpc, Pc.toFire, List.mem_cons] at hfire
      refine h.settler hwin rfl (by simp [hpc, Pc.phase]) rfl rfl rfl rfl
        hstate hresult hdrained trivial (fun _ _ he => he)
        (fun e' he' => hfire e' (.inr he')) ?_ ?_ ?_ ?_
      · intro c hc
        rw [List.mem_append, List.mem_singleton] at hc
        rcases hc with hold | rfl
        · exact .inl hold
        · obtain ⟨job, hcall, hkey, -⟩ := hfire e (.inl rfl)
          cases job with
          | callback o' b =>
              obtain rfl := Outcome.cbsKey_inj.mp hkey
              exact .inr ⟨Nat.le_refl 3, rfl, rfl, b, hcall⟩
          | waiter a => exact absurd hkey (Outcome.waiters_ne_cbsKey _)
      · intro j
        simp [hpc, Pc.toFire, State.goto, State.invoked, State.listed,
          List.count_cons]
        omega
      · intro j
        simp [hpc, Pc.toWake, State.goto, State.listed]
      · intro j
        simp [hpc, Pc.running, State.goto, State.invoked, List.count_cons]
        omega

/-- A callback returns. -/
theorem inv_firing (h : Inv s) {e : Entry V} (hpc : s.pc i = .firing o p e todo)
    (hstep : s.runThread i = some s') : Inv s' := by
  obtain ⟨hwin, hstate, hresult, hdrained⟩ := h.settling hpc rfl
  have hfire := h.registry.toFire _ hwin
  rw [Inv.held_winner hwin] at hfire
  simp only [State.runThread, hpc, Option.some.injEq] at hstep
  subst hstep
  simp only [Pc.phase] at hstate hresult hdrained
  simp only [hpc, Pc.toFire] at hfire
  refine h.settler hwin rfl (by simp [hpc, Pc.phase]) rfl rfl rfl rfl
    hstate hresult hdrained trivial (fun _ _ he => he) hfire
    (fun _ hc => .inl hc) ?_ ?_ ?_
  · intro j
    simp [hpc, Pc.toFire, State.goto, State.invoked, State.listed]
  · intro j
    simp [hpc, Pc.toWake, State.goto, State.listed]
  · intro j
    simp [hpc, Pc.running, State.goto, State.invoked, List.count_cons]

/-- It publishes the state. -/
theorem inv_publish (h : Inv s) (hpc : s.pc i = .publish o p)
    (hstep : s.runThread i = some s') : Inv s' := by
  obtain ⟨hwin, hstate, hresult, hdrained⟩ := h.settling hpc rfl
  simp only [State.runThread, hpc, Option.some.injEq] at hstep
  subst hstep
  simp only [Pc.phase] at hstate hresult hdrained
  refine h.settler hwin rfl (by simp [hpc, Pc.phase]) rfl rfl rfl rfl
    (by simp [stateAt, Pc.phase])
    (by simpa [resultAt, Pc.phase, State.goto] using hresult)
    (by simpa [DrainedAt, Pc.phase, State.goto] using hdrained) trivial
    (fun _ _ he => he) (by simp [Pc.toFire]) (fun _ hc => .inl hc) ?_ ?_ ?_
  · intro j
    simp [hpc, Pc.toFire, State.goto, State.invoked, State.listed]
  · intro j
    simp [hpc, Pc.toWake, State.goto, State.listed]
  · intro j
    simp [hpc, Pc.running, State.goto, State.invoked]

/-- It notifies the threads that wait. -/
theorem inv_notify (h : Inv s) (hpc : s.pc i = .notify o p)
    (hstep : s.runThread i = some s') : Inv s' := by
  have hwin := (h.control.claim i o p).mp (by simp [hpc, Pc.settles])
  simp only [State.runThread, hpc, Option.some.injEq] at hstep
  subst hstep
  refine h.settlerSilent hwin rfl ?_ ?_ (fun _ => trivial) ?_ ?_ ?_ <;>
    simp [hpc, Pc.phase, Pc.toFire, Pc.toWake, Pc.running]

/-- It schedules an actor, or it has scheduled them all. -/
theorem inv_schedule (h : Inv s) (hpc : s.pc i = .schedule o p todo)
    (hstep : s.runThread i = some s') : Inv s' := by
  obtain ⟨hwin, hstate, hresult, hdrained⟩ := h.settling hpc rfl
  cases todo with
  | nil =>
      simp only [State.runThread, hpc, Option.some.injEq] at hstep
      subst hstep
      refine h.settlerSilent hwin rfl ?_ ?_ (fun _ => trivial) ?_ ?_ ?_ <;>
        simp [hpc, Pc.phase, Pc.toFire, Pc.toWake, Pc.running]
  | cons e todo =>
      simp only [State.runThread, hpc, Option.some.injEq] at hstep
      subst hstep
      simp only [Pc.phase] at hstate hresult hdrained
      refine h.settler hwin rfl (by simp [hpc, Pc.phase]) rfl rfl rfl rfl
        hstate hresult hdrained trivial (fun _ _ he => he)
        (by simp [Pc.toFire]) (fun _ hc => .inl hc) ?_ ?_ ?_
      · intro j
        simp [hpc, Pc.toFire, State.goto, State.invoked, State.listed]
      · intro j
        simp [hpc, Pc.toWake, State.goto, State.listed, List.count_cons]
        omega
      · intro j
        simp [hpc, Pc.running, State.goto, State.invoked]

end Settling

/-- A step of the winning settlement. -/
theorem inv_settle (h : Inv s) {o : Outcome} {p : Option V}
    (hs : (s.pc i).settles = some (o, p)) (hstep : s.runThread i = some s') :
    Inv s' := by
  cases hpc : s.pc i with
  | writeResult o p => exact inv_writeResult h hpc hstep
  | drainRead o p stage => exact inv_drainRead h hpc hstep
  | drainCas o p stage cur => exact inv_drainCas h hpc hstep
  | fire o p todo => exact inv_fire h hpc hstep
  | firing o p e todo => exact inv_firing h hpc hstep
  | publish o p => exact inv_publish h hpc hstep
  | notify o p => exact inv_notify h hpc hstep
  | schedule o p todo => exact inv_schedule h hpc hstep
  | ret r => simp [State.runThread, hpc] at hstep
  | _ => simp [hpc, Pc.settles] at hs

/-- A step of a call without a claim. -/
theorem inv_register (h : Inv s) (hs : (s.pc i).settles = none)
    (hstep : s.runThread i = some s') : Inv s' := by
  have hof := h.registry.calls i
  have hok := h.registry.pcs i
  cases hpc : s.pc i with
  | idle => simp [State.runThread, hpc] at hstep
  | ret r => simp [State.runThread, hpc] at hstep
  | claim o p =>
      simp only [State.runThread, hpc, Option.some.injEq] at hstep
      rw [hpc] at hof
      cases hfree : s.settling with
      | false =>
          rw [hfree] at hstep
          subst hstep
          exact h.claim hpc hfree
      | true =>
          rw [hfree] at hstep
          subst hstep
          exact h.silent hpc rfl rfl rfl rfl rfl ⟨o, p, hof⟩ trivial
  | readState job =>
      simp only [State.runThread, hpc, Option.some.injEq] at hstep
      subst hstep
      rw [hpc] at hof
      cases job with
      | callback o b =>
          simp only [Job.onState]
          split
          · rename_i hother
            exact h.silent hpc rfl rfl rfl rfl rfl ⟨o, b, hof⟩
              ⟨o, b, hof, h.control.won_of_state hother⟩
          · split
            · rename_i hown
              exact h.silent hpc rfl rfl rfl rfl rfl hof
                ((h.control.won_of_state hown).mono (by omega))
            · exact h.silent hpc rfl rfl rfl rfl rfl hof trivial
      | waiter a =>
          simp only [Job.onState]
          split
          · rename_i hset
            exact h.silent hpc rfl rfl rfl rfl rfl ⟨a, hof⟩ (h.control.winner_of_state hset)
          · exact h.silent hpc rfl rfl rfl rfl rfl hof trivial
  | appendRead job =>
      simp only [State.runThread, hpc, Option.some.injEq] at hstep
      rw [hpc] at hof
      by_cases hdr : s.list job.key = .drained
      · rw [if_pos hdr] at hstep
        subst hstep
        cases job with
        | callback o b =>
            exact h.silent hpc rfl rfl rfl rfl rfl hof (h.control.won_of_drained hdr)
        | waiter a =>
            exact h.silent hpc rfl rfl rfl rfl rfl ⟨a, hof⟩ (h.control.winner_of_waiters hdr)
      · rw [if_neg hdr] at hstep
        subst hstep
        exact h.silent hpc rfl rfl rfl rfl rfl hof hdr
  | appendCas job cur =>
      simp only [State.runThread, hpc, Option.some.injEq] at hstep
      rw [hpc] at hof
      by_cases hcur : s.list job.key = cur
      · rw [if_pos hcur] at hstep
        subst hstep
        exact h.append job hpc hcur
      · rw [if_neg hcur] at hstep
        subst hstep
        exact h.silent hpc rfl rfl rfl rfl rfl hof trivial
  | readResult o block =>
      simp only [State.runThread, hpc, Option.some.injEq] at hstep
      subst hstep
      rw [hpc] at hof hok
      have hwon : s.Won o 3 := hok
      obtain ⟨v, hv⟩ := h.control.result_of_won hwon (by omega)
      exact h.silent hpc rfl rfl rfl rfl rfl hof ⟨hwon, by rw [hv]; rfl⟩
  | call o block arg =>
      simp only [State.runThread, hpc, Option.some.injEq] at hstep
      subst hstep
      exact h.call hpc
  | calling o block =>
      simp only [State.runThread, hpc, Option.some.injEq] at hstep
      subst hstep
      exact h.calling hpc
  | _ => simp [hpc, Pc.settles] at hs

/-- **Every step preserves the invariants.** -/
theorem inv_step (h : Inv s) {a : Action V} (hstep : s.step a = some s') :
    Inv s' := by
  cases a with
  | begin i op =>
      simp only [State.step] at hstep
      split at hstep
      · rename_i hidle
        obtain rfl := Option.some.inj hstep
        exact h.begin op hidle
      · cases hstep
  | run i =>
      cases hs : (s.pc i).settles with
      | none => exact inv_register h hs hstep
      | some op => exact inv_settle h (o := op.1) (p := op.2) hs hstep

omit [DecidableEq V] in
theorem inv_initial : Inv (initial : State V) := by
  constructor
  · constructor <;>
      simp [initial, Pc.settles, stateAt, resultAt, DrainedAt]
  · constructor <;>
      simp [initial, Pc.Of, PcOK, Slot.entries]
  · constructor <;>
      simp [initial, State.invoked, State.listed, State.holds, State.held,
        Slot.entries, Pc.placed, Pc.parked, Pc.self]

/-- The invariants hold in every reachable state. -/
theorem inv_reachable (h : (machine V).Reachable s) : Inv s := by
  refine Machine.Reach.invariant (P := fun s => Inv s) ?_ ?_ h
  · rintro _ rfl
    exact inv_initial
  · intro s a t _ hinv _ hstep
    exact inv_step hinv hstep

end Steps

/-! ## What a future promises -/

/-- A registration that is over. -/
def Pc.completed : Pc V → Bool
  | ret _ => true
  | _ => false

/-- What holds of a future and its calls in every reachable state. -/
structure SettledOnce (s : State V) : Prop where
  /-- The state is pending, resolved or rejected. -/
  state_range : s.state = 0 ∨ ∃ o : Outcome, s.state = o.code
  /-- A published future has its result, and not the other one. -/
  result_first : ∀ o, s.state = o.code →
    (∃ v, s.result o = some v) ∧ s.result o.other = none
  /-- No registration is invoked twice. -/
  invoked_le : ∀ i, s.invoked i ≤ 1
  /-- What is invoked is a block registered for that outcome, with the result. -/
  invoked_result : ∀ c ∈ s.invocations,
    (∃ b, s.calls c.id = some (.register (.callback c.outcome b))) ∧
      s.result c.outcome = some c.arg
  /-- All invocations are for one outcome, the one the state shows. -/
  one_outcome : ∀ c ∈ s.invocations, ∀ c' ∈ s.invocations,
    c.outcome = c'.outcome
  state_outcome : ∀ o, s.state = o.code → ∀ c ∈ s.invocations, c.outcome = o
  /-- Once the outcome is published, every completed registration for it has been
  invoked, once. -/
  completed_invoked : ∀ o i b, s.state = o.code →
    s.calls i = some (.register (.callback o b)) → (s.pc i).completed →
      s.invoked i = 1
  /-- And those in the drained list have returned before. -/
  appended_first : ∀ o i b, s.state = o.code →
    s.calls i = some (.register (.callback o b)) → s.pc i = .ret .appended →
      s.invoked i = 1 ∧ s.returned.count i = 1
  /-- Only parked actors are scheduled, and no registration twice. -/
  scheduled_le : ∀ i, s.scheduled.count i ≤ 1
  scheduled_parked : ∀ i ∈ s.scheduled, s.pc i = .ret (.parked true)
  /-- When the settlement is over, every parked actor has been scheduled. -/
  parked_scheduled : ∀ i j o p, s.pc i = .ret (.parked true) →
    s.pc j = .ret (.settled o p) → s.scheduled.count i = 1
  /-- An actor that was not parked finds the future claimed. -/
  refused_claimed : ∀ i, s.pc i = .ret (.parked false) → s.settling = true

namespace Pc

variable {pc : Pc V}

theorem placed_le (pc : Pc V) : pc.placed ≤ 1 := by
  cases pc with
  | ret r => cases r <;> simp [Pc.placed]
  | _ => simp [Pc.placed]

theorem parked_le (pc : Pc V) : pc.parked ≤ 1 := by
  cases pc with
  | ret r =>
      cases r with
      | parked b => cases b <;> simp [Pc.parked]
      | _ => simp [Pc.parked]
  | _ => simp [Pc.parked]

theorem eq_of_parked_pos (h : 0 < pc.parked) : pc = .ret (.parked true) := by
  cases pc with
  | ret r =>
      cases r with
      | parked b => cases b <;> simp_all [Pc.parked]
      | _ => simp [Pc.parked] at h
  | _ => simp [Pc.parked] at h

/-- Only the phases 3 and 7 hold entries. -/
theorem toFire_eq_nil (h : pc.phase ≠ 3) : pc.toFire = [] := by
  cases pc <;> simp_all [Pc.phase, Pc.toFire]

theorem running_eq_nil (h : pc.phase ≠ 3) : pc.running = [] := by
  cases pc <;> simp_all [Pc.phase, Pc.running]

end Pc

namespace Inv

variable {s : State V} {o : Outcome} {i : Nat}

/-- Once the outcome is published, its list and the settlement's hands are
empty. -/
theorem published_empty (h : Inv s) (hst : s.state = o.code) :
    s.list o.cbsKey = .drained ∧ s.holds Pc.toFire i = 0 ∧
      s.holds Pc.running i = 0 := by
  obtain ⟨w, hw, rfl, hd⟩ := h.control.won_of_state hst
  have hphase := phase_winner hw
  refine ⟨?_, ?_, ?_⟩
  · rw [h.control.drained, hw]
    exact .inl ⟨rfl, by omega⟩
  · rw [State.holds, held_winner hw, Pc.toFire_eq_nil (by omega)]
    rfl
  · rw [State.holds, held_winner hw, Pc.running_eq_nil (by omega)]
    rfl

/-- An entry of the other list does not stand for this registration. -/
theorem listed_other (h : Inv s) {b : V} {k : Key}
    (hcall : s.calls i = some (.register (.callback o b)))
    (hk : k ≠ o.cbsKey) : s.listed k i = 0 := by
  rw [State.listed, List.count_eq_zero]
  intro hmem
  obtain ⟨e, he, rfl⟩ := List.mem_map.mp hmem
  obtain ⟨job, hjob, hkey, -⟩ := h.registry.lists k e he
  rw [hcall] at hjob
  obtain rfl : Job.callback o b = job := Op.register.inj (Option.some.inj hjob)
  exact hk hkey.symm

/-- Once the outcome is published, a registration for it has been invoked as
often as its call placed it. -/
theorem published_invoked (h : Inv s) (hst : s.state = o.code) {b : V}
    (hcall : s.calls i = some (.register (.callback o b))) :
    s.invoked i = (s.pc i).placed := by
  obtain ⟨hdr, hfire, -⟩ := h.published_empty (i := i) hst
  have hown : s.listed o.cbsKey i = 0 := by
    rw [State.listed, hdr]
    rfl
  have hother := h.listed_other hcall (k := o.other.cbsKey)
    (by rw [Ne, Outcome.cbsKey_inj]; exact o.other_ne)
  have htally := h.tally.callbacks i
  cases o <;> simp only [Outcome.cbsKey, Outcome.other] at hown hother <;> omega

/-- A completed registration was placed, unless the future had the other
outcome. -/
theorem completed_placed (h : Inv s) (hst : s.state = o.code) {b : V}
    (hcall : s.calls i = some (.register (.callback o b)))
    (hdone : (s.pc i).completed) : (s.pc i).placed = 1 := by
  have hof := h.registry.calls i
  have hok := h.registry.pcs i
  rw [hcall] at hof
  cases hpc : s.pc i with
  | ret r =>
      rw [hpc] at hof hok
      cases r with
      | appended => rfl
      | fired => rfl
      | skipped =>
          obtain ⟨o', b', hcall', w, hw, ho, -⟩ := hok
          obtain ⟨w', hw', ho', -⟩ := h.control.won_of_state hst
          rw [hcall] at hcall'
          obtain ⟨rfl, rfl⟩ : o = o' ∧ b = b' := by simpa using hcall'
          obtain rfl : w = w' := Option.some.inj (hw.symm.trans hw')
          exact absurd (ho.symm.trans ho') o.other_ne
      | settled o' p' => simp [Pc.Of] at hof
      | lost => simp [Pc.Of] at hof
      | parked b' => simp [Pc.Of] at hof
  | _ => simp [hpc, Pc.completed] at hdone

/-- The invariants give every promise. -/
theorem settledOnce (h : Inv s) : SettledOnce s where
  state_range := by
    rw [h.control.state]
    cases hw : s.winner with
    | none => exact .inl rfl
    | some w =>
        simp only [stateAt]
        split
        · exact .inr ⟨w.outcome, rfl⟩
        · exact .inl rfl
  result_first := by
    intro o hst
    have hwon := h.control.won_of_state hst
    refine ⟨h.control.result_of_won hwon (by omega), ?_⟩
    obtain ⟨w, hw, rfl, -⟩ := hwon
    rw [h.control.result, hw, resultAt, if_neg]
    exact fun hc => w.outcome.other_ne hc.1
  invoked_le := by
    intro i
    have := h.tally.callbacks i
    have := (s.pc i).placed_le
    omega
  invoked_result := fun c hc =>
    ⟨(h.registry.invocations c hc).1, (h.registry.invocations c hc).2.2⟩
  one_outcome := by
    intro c hc c' hc'
    obtain ⟨-, ⟨w, hw, ho, -⟩, -⟩ := h.registry.invocations c hc
    obtain ⟨-, ⟨w', hw', ho', -⟩, -⟩ := h.registry.invocations c' hc'
    obtain rfl : w = w' := Option.some.inj (hw.symm.trans hw')
    exact ho.symm.trans ho'
  state_outcome := by
    intro o hst c hc
    obtain ⟨-, ⟨w, hw, ho, -⟩, -⟩ := h.registry.invocations c hc
    obtain ⟨w', hw', ho', -⟩ := h.control.won_of_state hst
    obtain rfl : w = w' := Option.some.inj (hw.symm.trans hw')
    exact ho.symm.trans ho'
  completed_invoked := by
    intro o i b hst hcall hdone
    rw [h.published_invoked hst hcall, h.completed_placed hst hcall hdone]
  appended_first := by
    intro o i b hst hcall hpc
    have hinv : s.invoked i = 1 := by
      rw [h.published_invoked hst hcall, hpc]
      rfl
    obtain ⟨-, -, hrun⟩ := h.published_empty (i := i) hst
    have hret := h.tally.returned i
    rw [hpc] at hret
    simp only [Pc.self] at hret
    exact ⟨hinv, by omega⟩
  scheduled_le := by
    intro i
    have := h.tally.waiters i
    have := (s.pc i).parked_le
    omega
  scheduled_parked := by
    intro i hi
    have hpos : 0 < s.scheduled.count i := List.count_pos_iff.mpr hi
    have := h.tally.waiters i
    exact Pc.eq_of_parked_pos (by omega)
  parked_scheduled := by
    intro i j o p hi hj
    have hw : s.winner = some ⟨j, o, p⟩ :=
      (h.control.claim j o p).mp (by rw [hj]; rfl)
    have hphase : s.phase = 8 := by rw [phase_winner hw, hj]; rfl
    have hdr : s.list .waiters = .drained := by
      rw [h.control.drained, hw]
      exact .inr ⟨rfl, by omega⟩
    have hlisted : s.listed .waiters i = 0 := by rw [State.listed, hdr]; rfl
    have hwake : s.holds Pc.toWake i = 0 := by
      rw [State.holds, held_winner hw, hj]
      rfl
    have htally := h.tally.waiters i
    rw [hi] at htally
    simp only [Pc.parked] at htally
    omega
  refused_claimed := by
    intro i hi
    have hok := h.registry.pcs i
    rw [hi] at hok
    rw [h.control.settling]
    exact Option.isSome_iff_ne_none.mpr hok

end Inv

section Runs

variable [DecidableEq V] {s s' : State V}

/-- Only a settlement that has not published yet writes the state, and only one
that has not written its result writes a result. -/
theorem fixed_run (h : Inv s) {i : Nat} (hstep : s.runThread i = some s') :
    (s.state ≠ 0 → s'.state = s.state) ∧
      ∀ o v, s.result o = some v → s'.result o = some v := by
  have hsame : ∀ {t : State V}, t.state = s.state → t.result = s.result →
      (s.state ≠ 0 → t.state = s.state) ∧
        ∀ o v, s.result o = some v → t.result o = some v :=
    fun hst hres => ⟨fun _ => hst, fun o v hv => by rw [hres, hv]⟩
  cases hpc : s.pc i with
  | publish o p =>
      have hw := (h.control.claim i o p).mp (by rw [hpc]; rfl)
      simp only [State.runThread, hpc, Option.some.injEq] at hstep
      subst hstep
      refine ⟨fun hst => absurd ?_ hst, fun _ _ hv => hv⟩
      rw [h.control.state, hw, Inv.phase_winner hw, hpc]
      rfl
  | writeResult o p =>
      have hw := (h.control.claim i o p).mp (by rw [hpc]; rfl)
      simp only [State.runThread, hpc, Option.some.injEq] at hstep
      subst hstep
      refine ⟨fun _ => rfl, fun o' v hv => ?_⟩
      rw [h.control.result, hw, Inv.phase_winner hw, hpc] at hv
      simp [resultAt, Pc.phase] at hv
  | fire o p todo =>
      cases todo <;>
        (simp only [State.runThread, hpc, Option.some.injEq] at hstep
         subst hstep
         exact hsame rfl rfl)
  | schedule o p todo =>
      cases todo <;>
        (simp only [State.runThread, hpc, Option.some.injEq] at hstep
         subst hstep
         exact hsame rfl rfl)
  | claim o p =>
      simp only [State.runThread, hpc, Option.some.injEq] at hstep
      split at hstep <;> subst hstep <;> exact hsame rfl rfl
  | drainCas o p stage cur =>
      simp only [State.runThread, hpc, Option.some.injEq] at hstep
      split at hstep <;> subst hstep <;> exact hsame rfl rfl
  | appendCas job cur =>
      simp only [State.runThread, hpc, Option.some.injEq] at hstep
      split at hstep <;> subst hstep <;> exact hsame rfl rfl
  | idle | ret => simp [State.runThread, hpc] at hstep
  | _ =>
      simp only [State.runThread, hpc, Option.some.injEq] at hstep
      subst hstep
      exact hsame rfl rfl

/-- A step keeps a published state and a written result. -/
theorem fixed_step (h : Inv s) {a : Action V} (hstep : s.step a = some s') :
    (s.state ≠ 0 → s'.state = s.state) ∧
      ∀ o v, s.result o = some v → s'.result o = some v := by
  cases a with
  | begin i op =>
      simp only [State.step] at hstep
      split at hstep
      · obtain rfl := Option.some.inj hstep
        exact ⟨fun _ => rfl, fun _ _ hv => hv⟩
      · cases hstep
  | run i => exact fixed_run h hstep

/-- **A future is settled exactly once.**  In every reachable state the promises
of `SettledOnce` hold, and whatever follows keeps a published state and a
written result. -/
theorem future_settled_once (h : (machine V).Reachable s) :
    SettledOnce s ∧ ∀ t, (machine V).Steps s t →
      SettledOnce t ∧ (s.state ≠ 0 → t.state = s.state) ∧
        ∀ o v, s.result o = some v → t.result o = some v := by
  refine ⟨(inv_reachable h).settledOnce, fun t hsteps => ?_⟩
  have hrun := Machine.Steps.preserves (M := machine V)
    (P := fun t => (s.state ≠ 0 → t.state = s.state) ∧
      ∀ o v, s.result o = some v → t.result o = some v)
    (fun t a u ht hfix hstep => ?_) h hsteps ⟨fun _ => rfl, fun _ _ hv => hv⟩
  · exact ⟨(inv_reachable hrun.1).settledOnce, hrun.2⟩
  · obtain ⟨hst, hres⟩ := fixed_step (inv_reachable ht) hstep
    refine ⟨fun hne => ?_, fun o v hv => hres o v (hfix.2 o v hv)⟩
    have heq := hfix.1 hne
    rw [← heq, hst (by rw [heq]; exact hne)]

end Runs

/-- A block registered before the future is resolved with 5, and one registered
after. -/
theorem future_settled_once_resolve :
    ∃ s : State Nat, s.state = 1 ∧ s.invocations =
        [⟨0, .resolved, some 5⟩, ⟨2, .resolved, some 5⟩] ∧
      SettledOnce s ∧ ∀ t, (machine Nat).Steps s t →
        SettledOnce t ∧ (s.state ≠ 0 → t.state = s.state) ∧
          ∀ o v, s.result o = some v → t.result o = some v := by
  have h := Machine.reach_of_exec (M := machine Nat)
    (.init rfl : (machine Nat).Reachable initial)
    (show (machine Nat).exec initial
      ([.begin 0 (.thenDo 7), .begin 1 (.resolve (some 5))] ++
        List.replicate 3 (.run 0) ++ List.replicate 9 (.run 1) ++
        (.begin 2 (.thenDo 8) :: List.replicate 4 (.run 2))) = some _ from rfl)
  exact ⟨_, rfl, rfl, future_settled_once h⟩

end ProtoST.Primitives.FutureSettle

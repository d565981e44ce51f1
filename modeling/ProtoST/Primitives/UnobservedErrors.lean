import Mathlib.Logic.Function.Basic
import ProtoST.Lib.Census
import ProtoST.Lib.Transition

/-!
# The report of unobserved actor errors

`rejectFutureFromDrain`, `markFutureObserved` and `reportUnobservedActorErrors` of
`primitives/future_prims.cpp`.  The records of `g_unobservedRejections` are kept by the
address of a future, and an address is used again for a new future once the old one is
collected.  Every access to an attribute and every section under `g_rejectionsMu` is one
step; of `settleFuture` only the claim is here.

A future is a number of its own, which the code does not have.  The future of a record,
who has settled a future and whether an observation of it has completed are there for
the claim only.

## Main results

* `report_exact` — in every run in which a rejection is recorded before any observation
  completes and settles the future if it is recorded, a record meets no other future's
  at its address, and no call is half-way at the report, the report names each future
  whose rejection took effect unobserved, once, and no other.
* `resolved_is_reported` — a future that was resolved before its actor failed.
-/

namespace ProtoST.Primitives.UnobservedErrors

open ProtoST.Lib

/-- Whose settlement took effect: `rejectFutureFromDrain`, or any other. -/
inductive Settler where
  | drain
  | other
  deriving DecidableEq, Repr

/-- An entry of `g_unobservedRejections`. -/
structure Record where
  future : Nat
  /-- `describeRejection`. -/
  text : String
  deriving DecidableEq, Repr

/-- A thread in a call. -/
inductive Call where
  | idle
  /-- `rejectFutureFromDrain`, before it reads `__observed__`. -/
  | checking (future : Nat) (text : String)
  | recording (future : Nat) (text : String)
  /-- In `settleFuture`, before the claim. -/
  | settling (future : Nat)
  /-- `markFutureObserved`, before it sets `__observed__`. -/
  | marking (future : Nat)
  | erasing (future : Nat)
  deriving DecidableEq, Repr

/-- The future that a call is about. -/
def Call.future : Call → Option Nat
  | .idle => none
  | .checking f _ | .recording f _ | .settling f | .marking f | .erasing f => some f

/-- What is printed, with what was so at that moment. -/
structure Report where
  printed : Nat → Option Record
  settled : Nat → Option Settler
  observed : Nat → Bool

structure State where
  born : Nat → Bool
  address : Nat → Nat
  /-- The future that lives at an address. -/
  heap : Nat → Option Nat
  /-- `__observed__`. -/
  mark : Nat → Bool
  /-- `__settling__`. -/
  settled : Nat → Option Settler
  /-- `g_unobservedRejections`. -/
  records : Nat → Option Record
  /-- A `markFutureObserved` has returned. -/
  observed : Nat → Bool
  calls : List Call
  report : Option Report

inductive Action where
  | create (future address : Nat)
  | collect (future : Nat)
  | reject (future : Nat) (text : String)
  | check
  | record
  | claim
  /-- Another settlement of a future. -/
  | settle (future : Nat)
  /-- `wait`, `thenDo:` or `catch:`. -/
  | observe (future : Nat)
  | mark
  | erase
  | report
  deriving DecidableEq, Repr

namespace State

def setCall (s : State) (t : Nat) (c : Call) : State := { s with calls := s.calls.set t c }

def Live (s : State) (f : Nat) : Prop := s.born f = true ∧ s.heap (s.address f) = some f

instance (s : State) (f : Nat) : Decidable (s.Live f) :=
  inferInstanceAs (Decidable (_ ∧ _))

/-- The claim of `settleFuture`. -/
def claim (s : State) (f : Nat) (who : Settler) : State :=
  if s.settled f = none then { s with settled := Function.update s.settled f (some who) } else s

/-- One step of the thread `a.1`. -/
def step (s : State) (a : Nat × Action) : Option State :=
  match a.2, s.calls[a.1]? with
  | .create f address, some .idle =>
      if s.born f = false ∧ s.heap address = none then
        some { s with
          born := Function.update s.born f true
          address := Function.update s.address f address
          heap := Function.update s.heap address (some f) }
      else none
  | .collect f, _ =>
      if s.Live f ∧ ∀ c ∈ s.calls, c.future ≠ some f then
        some { s with heap := Function.update s.heap (s.address f) none }
      else none
  | .reject f text, some .idle =>
      if s.Live f then some (s.setCall a.1 (.checking f text)) else none
  | .check, some (.checking f text) =>
      some (s.setCall a.1 (if s.mark f then .settling f else .recording f text))
  | .record, some (.recording f text) =>
      some ({ s with
        records := Function.update s.records (s.address f) (some ⟨f, text⟩) }.setCall a.1
          (.settling f))
  | .claim, some (.settling f) => some ((s.claim f .drain).setCall a.1 .idle)
  | .settle f, some .idle => if s.Live f then some (s.claim f .other) else none
  | .observe f, some .idle => if s.Live f then some (s.setCall a.1 (.marking f)) else none
  | .mark, some (.marking f) =>
      some ({ s with mark := Function.update s.mark f true }.setCall a.1 (.erasing f))
  | .erase, some (.erasing f) =>
      some ({ s with
        records := Function.update s.records (s.address f) none
        observed := Function.update s.observed f true }.setCall a.1 .idle)
  | .report, some .idle =>
      if s.report.isNone then
        some { s with
          report := some ⟨s.records, s.settled, s.observed⟩
          records := fun _ => none }
      else none
  | _, _ => none

/-- The record at the address of a future is its own. -/
def Recorded (s : State) (f : Nat) : Prop := (s.records (s.address f)).map Record.future = some f

instance (s : State) (f : Nat) : Decidable (s.Recorded f) :=
  inferInstanceAs (Decidable (_ = _))

/-- No other future has a record at the address of `f`. -/
def Alone (s : State) (f : Nat) : Prop :=
  ∀ r, s.records (s.address f) = some r → r.future = f

end State

def machine : Machine State (Nat × Action) where
  init s := (∀ f, s.born f = false) ∧ (∀ a, s.heap a = none) ∧ (∀ f, s.mark f = false) ∧
    (∀ f, s.settled f = none) ∧ (∀ a, s.records a = none) ∧ (∀ f, s.observed f = false) ∧
    (∀ c ∈ s.calls, c = .idle) ∧ s.report = none
  step := State.step

/-! ## The claim -/

/-- What a report names. -/
def Report.Names (r : Report) (f : Nat) : Prop :=
  ∃ a record, r.printed a = some record ∧ record.future = f

/-- A report is exact. -/
structure Report.Exact (r : Report) : Prop where
  names_iff : ∀ f, r.Names f ↔ r.settled f = some .drain ∧ r.observed f = false
  once : ∀ a b x y, r.printed a = some x → r.printed b = some y → x.future = y.future → a = b

/-- No call is half-way: a recorded rejection has settled its future, and no future whose
rejection took effect is marked but not yet observed. -/
def State.Quiet (s : State) : Prop :=
  (∀ f, .settling f ∈ s.calls → s.Recorded f → s.settled f = some .drain) ∧
  ∀ f, .erasing f ∈ s.calls → s.settled f = some .drain → s.Recorded f ∨ s.observed f = true

/-- **The condition.**  A rejection is recorded before an observation of its future
completes; a recorded one settles its future; no other future has a record at the address
where one is set or erased; and the report finds no call half-way. -/
def Timely (s : State) (a : Nat × Action) : Prop :=
  match a.2, s.calls[a.1]? with
  | .record, some (.recording f _) => s.observed f = false ∧ s.Alone f
  | .claim, some (.settling f) => s.Recorded f → s.settled f ≠ some .other
  | .erase, some (.erasing f) => s.Alone f
  | .report, _ => s.Quiet
  | _, _ => True

/-! ## The invariant -/

structure Inv (s : State) : Prop where
  placed : ∀ a r, s.records a = some r → s.address r.future = a ∧ s.born r.future = true
  marked : ∀ f, s.mark f = true → s.observed f = true ∨ .erasing f ∈ s.calls
  unobserved : ∀ f, s.Recorded f → s.observed f = false
  pending : ∀ f, s.Recorded f → s.settled f = some .drain ∨ .settling f ∈ s.calls
  known : s.report = none → ∀ f, s.settled f = some .drain ∨ .settling f ∈ s.calls →
    s.Recorded f ∨ s.observed f = true ∨ .erasing f ∈ s.calls
  called : ∀ c ∈ s.calls, ∀ f, c.future = some f → s.born f = true
  exact_report : ∀ r, s.report = some r → r.Exact

section Steps

variable {s s' : State} {t f g : Nat} {c d : Call}

theorem recorded_iff (h : Inv s) :
    s.Recorded f ↔ ∃ a r, s.records a = some r ∧ r.future = f := by
  constructor
  · intro hrec
    obtain ⟨r, hr, hf⟩ := Option.map_eq_some_iff.mp hrec
    exact ⟨_, r, hr, hf⟩
  · rintro ⟨a, r, hr, rfl⟩
    obtain ⟨haddress, -⟩ := h.placed a r hr
    unfold State.Recorded
    rw [haddress, hr]
    rfl

theorem born_of_recorded (h : Inv s) (hf : s.Recorded f) : s.born f = true := by
  obtain ⟨a, r, hr, rfl⟩ := (recorded_iff h).mp hf
  exact (h.placed a r hr).2

/-- The futures of calls are born. -/
theorem called_set (h : Inv s) (hborn : ∀ f, d.future = some f → s.born f = true) :
    ∀ c ∈ s.calls.set t d, ∀ f, c.future = some f → s.born f = true := by
  intro c hc f hf
  rcases mem_set_cases hc with rfl | hc
  · exact hborn f hf
  · exact h.called c hc f hf

/-- A call that is neither before a claim nor before an erasure goes on. -/
theorem Inv.setCall (h : Inv s) (hc : s.calls[t]? = some c)
    (hold : ∀ f, c ≠ .settling f ∧ c ≠ .erasing f)
    (hnew : ∀ f, d = .settling f →
      s.Recorded f ∨ s.observed f = true ∨ .erasing f ∈ s.calls)
    (hborn : ∀ f, d.future = some f → s.born f = true) : Inv (s.setCall t d) where
  placed := h.placed
  marked f hf := (h.marked f hf).imp_right fun hmem => mem_set_of_ne hmem hc (hold f).2.symm
  unobserved := h.unobserved
  pending f hf := (h.pending f hf).imp_right fun hmem => mem_set_of_ne hmem hc (hold f).1.symm
  known hreport f hf := by
    have hknown : s.Recorded f ∨ s.observed f = true ∨ .erasing f ∈ s.calls := by
      rcases hf with hf | hf
      · exact h.known hreport f (.inl hf)
      · rcases mem_set_cases hf with hf | hf
        · exact hnew f hf.symm
        · exact h.known hreport f (.inr hf)
    exact hknown.imp_right fun hf => hf.imp_right fun hmem => mem_set_of_ne hmem hc (hold f).2.symm
  called := called_set h hborn
  exact_report := h.exact_report

/-! ### Recording and erasing -/

/-- What is recorded after the record at the address of `f` is set. -/
theorem recorded_set (s : State) (f g : Nat) (record : Option Record) (calls : List Call)
    (observed : Nat → Bool) : State.Recorded { s with
      records := Function.update s.records (s.address f) record
      observed := observed
      calls := calls } g ↔
    if s.address g = s.address f then record.map Record.future = some g else s.Recorded g := by
  unfold State.Recorded
  by_cases hg : s.address g = s.address f
  · rw [if_pos hg]
    dsimp only
    rw [hg, Function.update_self]
  · rw [if_neg hg]
    dsimp only
    rw [Function.update_of_ne hg]

/-- A future whose record is at the address of one that is alone there. -/
theorem eq_of_alone (halone : s.Alone f) (hg : s.Recorded g)
    (haddress : s.address g = s.address f) :
    g = f := by
  obtain ⟨r, hr, rfl⟩ := Option.map_eq_some_iff.mp hg
  rw [haddress] at hr
  exact halone r hr

theorem Inv.record (h : Inv s) {text : String} (hc : s.calls[t]? = some (.recording f text))
    (hobserved : s.observed f = false) (halone : s.Alone f) :
    Inv ({ s with
      records := Function.update s.records (s.address f) (some ⟨f, text⟩) }.setCall t
        (.settling f)) := by
  have hborn : s.born f = true := h.called _ (List.mem_of_getElem? hc) f rfl
  have hrec : ∀ {g}, State.Recorded ({ s with
      records := Function.update s.records (s.address f) (some ⟨f, text⟩) }.setCall t
        (.settling f)) g ↔ if s.address g = s.address f then f = g else s.Recorded g := by
    intro g
    have hset := recorded_set s f g (some ⟨f, text⟩) (s.calls.set t (.settling f)) s.observed
    simp only [Option.map_some, Option.some.injEq] at hset
    exact hset
  have hkeep : ∀ {g}, g ≠ f → s.Recorded g → ¬ s.address g = s.address f :=
    fun hne hg haddress => hne (eq_of_alone halone hg haddress)
  refine ⟨fun a r hr => ?_, fun g hg => ?_, fun g hg => ?_, fun g hg => ?_, fun hreport g hg => ?_,
    called_set (s := s) h ?_, h.exact_report⟩
  · have hr' : Function.update s.records (s.address f) (some ⟨f, text⟩) a = some r := hr
    by_cases ha : a = s.address f
    · rw [ha, Function.update_self] at hr'
      obtain rfl := Option.some.inj hr'
      exact ⟨ha.symm, hborn⟩
    · rw [Function.update_of_ne ha] at hr'
      exact h.placed a r hr'
  · exact (h.marked g hg).imp_right fun hmem => mem_set_of_ne hmem hc Call.noConfusion
  · rw [hrec] at hg
    split at hg
    · rw [← hg]
      exact hobserved
    · exact h.unobserved g hg
  · rw [hrec] at hg
    split at hg
    · rw [← hg]
      exact .inr (mem_set_self hc)
    · exact (h.pending g hg).imp_right fun hmem => mem_set_of_ne hmem hc Call.noConfusion
  · by_cases hgf : g = f
    · exact .inl (hrec.mpr (by rw [hgf, if_pos rfl]))
    · have hold : s.settled g = some .drain ∨ .settling g ∈ s.calls := by
        refine hg.imp_right fun hmem => ?_
        rcases mem_set_cases hmem with heq | hmem
        · exact absurd (Call.settling.inj heq) hgf
        · exact hmem
      rcases h.known hreport g hold with hrecorded | hdone | hmem
      · exact .inl (hrec.mpr (by rwa [if_neg (hkeep hgf hrecorded)]))
      · exact .inr (.inl hdone)
      · exact .inr (.inr (mem_set_of_ne hmem hc Call.noConfusion))
  · intro g hg
    rw [← Option.some.inj hg]
    exact hborn

theorem Inv.erase (h : Inv s) (hc : s.calls[t]? = some (.erasing f)) (halone : s.Alone f) :
    Inv ({ s with
      records := Function.update s.records (s.address f) none
      observed := Function.update s.observed f true }.setCall t .idle) := by
  have hrec : ∀ {g}, State.Recorded ({ s with
      records := Function.update s.records (s.address f) none
      observed := Function.update s.observed f true }.setCall t .idle) g ↔
      s.address g ≠ s.address f ∧ s.Recorded g := by
    intro g
    refine (recorded_set s f g none (s.calls.set t .idle)
      (Function.update s.observed f true)).trans ?_
    by_cases hg : s.address g = s.address f
    · simp [hg]
    · simp [hg]
  have hne : ∀ {g}, g ≠ f → Call.erasing g ≠ .erasing f := fun hg heq => hg (Call.erasing.inj heq)
  refine ⟨fun a r hr => ?_, fun g hg => ?_, fun g hg => ?_, fun g hg => ?_, fun hreport g hg => ?_,
    called_set (s := s) h ?_, h.exact_report⟩
  · have hr' : Function.update s.records (s.address f) none a = some r := hr
    by_cases ha : a = s.address f
    · rw [ha, Function.update_self] at hr'
      cases hr'
    · rw [Function.update_of_ne ha] at hr'
      exact h.placed a r hr'
  · show Function.update s.observed f true g = true ∨ _
    by_cases hgf : g = f
    · rw [hgf, Function.update_self]
      exact .inl rfl
    · rw [Function.update_of_ne hgf]
      exact (h.marked g hg).imp_right fun hmem => mem_set_of_ne hmem hc (hne hgf)
  · obtain ⟨haddress, hrecorded⟩ := hrec.mp hg
    show Function.update s.observed f true g = false
    rw [Function.update_of_ne fun hgf => haddress (by rw [hgf])]
    exact h.unobserved g hrecorded
  · obtain ⟨-, hrecorded⟩ := hrec.mp hg
    exact (h.pending g hrecorded).imp_right fun hmem => mem_set_of_ne hmem hc Call.noConfusion
  · show _ ∨ Function.update s.observed f true g = true ∨ _
    by_cases hgf : g = f
    · rw [hgf, Function.update_self]
      exact .inr (.inl rfl)
    · rw [Function.update_of_ne hgf]
      have hold : s.settled g = some .drain ∨ .settling g ∈ s.calls := by
        refine hg.imp_right fun hmem => ?_
        rcases mem_set_cases hmem with heq | hmem
        · cases heq
        · exact hmem
      rcases h.known hreport g hold with hrecorded | hdone | hmem
      · exact .inl (hrec.mpr ⟨fun haddress => hgf (eq_of_alone halone hrecorded haddress),
          hrecorded⟩)
      · exact .inr (.inl hdone)
      · exact .inr (.inr (mem_set_of_ne hmem hc (hne hgf)))
  · intro g hg
    cases hg

/-! ### Claims -/

theorem settled_claim (s : State) (f g : Nat) (who : Settler) : (s.claim f who).settled g =
    some .drain ↔
    s.settled g = some .drain ∨ (g = f ∧ s.settled f = none ∧ who = .drain) := by
  unfold State.claim
  by_cases hnone : s.settled f = none
  · rw [if_pos hnone]
    dsimp only
    by_cases hg : g = f
    · rw [hg, Function.update_self, hnone]
      simp
    · rw [Function.update_of_ne hg]
      simp [hg]
  · rw [if_neg hnone]
    simp [hnone]

/-- A claim changes only `__settling__`. -/
theorem claim_frame (s : State) (f : Nat) (who : Settler) :
    ∃ settled, s.claim f who = { s with settled := settled } := by
  unfold State.claim
  split
  · exact ⟨_, rfl⟩
  · exact ⟨s.settled, rfl⟩

/-- A claim by the drain, which takes effect if the future is recorded. -/
theorem Inv.claim (h : Inv s) (hc : s.calls[t]? = some (.settling f))
    (hwins : s.Recorded f → s.settled f ≠ some .other) :
    Inv ((s.claim f .drain).setCall t .idle) := by
  have hclaim := fun g => settled_claim s f g .drain
  obtain ⟨settled, hsettled⟩ := claim_frame s f .drain
  rw [hsettled] at hclaim ⊢
  have hne : ∀ {g}, g ≠ f → Call.settling g ≠ .settling f :=
    fun hg heq => hg (Call.settling.inj heq)
  refine ⟨h.placed, fun g hg => ?_, h.unobserved, fun g hg => ?_, fun hreport g hg => ?_,
    called_set (s := s) h ?_, h.exact_report⟩
  · exact (h.marked g hg).imp_right fun hmem => mem_set_of_ne hmem hc Call.noConfusion
  · by_cases hgf : g = f
    · refine .inl ((hclaim g).mpr ?_)
      rw [hgf] at hg ⊢
      cases hs : s.settled f with
      | none => exact .inr ⟨rfl, rfl, rfl⟩
      | some who =>
        cases who with
        | drain => exact .inl rfl
        | other => exact absurd hs (hwins hg)
    · rcases h.pending g hg with hdrain | hmem
      · exact .inl ((hclaim g).mpr (.inl hdrain))
      · exact .inr (mem_set_of_ne hmem hc (hne hgf))
  · have hold : s.settled g = some .drain ∨ .settling g ∈ s.calls := by
      rcases hg with hdrain | hmem
      · rcases (hclaim g).mp hdrain with hdrain | ⟨rfl, -, -⟩
        · exact .inl hdrain
        · exact .inr (List.mem_of_getElem? hc)
      · rcases mem_set_cases hmem with heq | hmem
        · cases heq
        · exact .inr hmem
    rcases h.known hreport g hold with hrecorded | hdone | hmem
    · exact .inl hrecorded
    · exact .inr (.inl hdone)
    · exact .inr (.inr (mem_set_of_ne hmem hc Call.noConfusion))
  · intro g hg
    cases hg

/-- Another settlement. -/
theorem Inv.settle (h : Inv s) : Inv (s.claim f .other) := by
  have hclaim := fun g => settled_claim s f g .other
  obtain ⟨settled, hsettled⟩ := claim_frame s f .other
  rw [hsettled] at hclaim ⊢
  have hsame : ∀ g, settled g = some .drain ↔ s.settled g = some .drain := fun g =>
    (hclaim g).trans ⟨fun hg => hg.elim id fun hg => by simp at hg, .inl⟩
  refine ⟨h.placed, h.marked, h.unobserved, fun g hg => ?_, fun hreport g hg => ?_, h.called,
    h.exact_report⟩
  · exact (h.pending g hg).imp_left (hsame g).mpr
  · exact h.known hreport g (hg.imp_left (hsame g).mp)

/-! ### Marks, and the life of a future -/

theorem Inv.mark (h : Inv s) (hc : s.calls[t]? = some (.marking f)) :
    Inv ({ s with mark := Function.update s.mark f true }.setCall t (.erasing f)) := by
  have hkeep : ∀ {c}, c ∈ s.calls → c ≠ .marking f → c ∈ s.calls.set t (.erasing f) :=
    fun hmem hne => mem_set_of_ne hmem hc hne
  refine ⟨h.placed, fun g hg => ?_, h.unobserved, fun g hg => ?_, fun hreport g hg => ?_,
    called_set (s := s) h ?_, h.exact_report⟩
  · by_cases hgf : g = f
    · rw [hgf]
      exact .inr (mem_set_self hc)
    · have hg' : Function.update s.mark f true g = true := hg
      rw [Function.update_of_ne hgf] at hg'
      exact (h.marked g hg').imp_right fun hmem => hkeep hmem Call.noConfusion
  · exact (h.pending g hg).imp_right fun hmem => hkeep hmem Call.noConfusion
  · have hold : s.settled g = some .drain ∨ .settling g ∈ s.calls := by
      refine hg.imp_right fun hmem => ?_
      rcases mem_set_cases hmem with heq | hmem
      · cases heq
      · exact hmem
    rcases h.known hreport g hold with hrecorded | hdone | hmem
    · exact .inl hrecorded
    · exact .inr (.inl hdone)
    · exact .inr (.inr (hkeep hmem Call.noConfusion))
  · intro g hg
    rw [← Option.some.inj hg]
    exact h.called _ (List.mem_of_getElem? hc) f rfl

theorem Inv.create (h : Inv s) {address : Nat} (hborn : s.born f = false)
    {heap : Nat → Option Nat} :
    Inv { s with
      born := Function.update s.born f true
      address := Function.update s.address f address
      heap := heap } := by
  have hborn' : ∀ {g}, s.born g = true → Function.update s.born f true g = true := by
    intro g hg
    by_cases hgf : g = f
    · rw [hgf, Function.update_self]
    · rwa [Function.update_of_ne hgf]
  have hold : ∀ {g}, s.born g = true → g ≠ f := by
    rintro g hg rfl
    rw [hborn] at hg
    cases hg
  have hrec : ∀ g, State.Recorded { s with
      born := Function.update s.born f true
      address := Function.update s.address f address
      heap := heap } g ↔ s.Recorded g := by
    intro g
    by_cases hgf : g = f
    · refine iff_of_false (fun hg => ?_) fun hg => hold (born_of_recorded h hg) hgf
      obtain ⟨r, hr, hrg⟩ := Option.map_eq_some_iff.mp hg
      exact hold (h.placed _ r hr).2 (hrg.trans hgf)
    · unfold State.Recorded
      dsimp only
      rw [Function.update_of_ne hgf]
  refine ⟨fun a r hr => ?_, h.marked, fun g hg => h.unobserved g ((hrec g).mp hg),
    fun g hg => h.pending g ((hrec g).mp hg),
    fun hreport g hg => (h.known hreport g hg).imp_left (hrec g).mpr,
    fun c hc g hg => hborn' (h.called c hc g hg), h.exact_report⟩
  obtain ⟨haddress, hb⟩ := h.placed a r hr
  refine ⟨?_, hborn' hb⟩
  dsimp only
  rwa [Function.update_of_ne (hold hb)]

/-! ### The report -/

/-- With no call half-way the report is exact. -/
theorem Inv.exact (h : Inv s) (hreport : s.report = none) (hquiet : s.Quiet) :
    Report.Exact ⟨s.records, s.settled, s.observed⟩ where
  names_iff f := by
    have hnames : Report.Names ⟨s.records, s.settled, s.observed⟩ f ↔ s.Recorded f :=
      (recorded_iff h).symm
    rw [hnames]
    constructor
    · intro hf
      refine ⟨?_, h.unobserved f hf⟩
      rcases h.pending f hf with hdrain | hmem
      · exact hdrain
      · exact hquiet.1 f hmem hf
    · rintro ⟨hdrain, hnot⟩
      have hnot' : s.observed f = false := hnot
      rcases h.known hreport f (.inl hdrain) with hf | hdone | hmem
      · exact hf
      · rw [hnot'] at hdone
        cases hdone
      · rcases hquiet.2 f hmem hdrain with hf | hdone
        · exact hf
        · rw [hnot'] at hdone
          cases hdone
  once a b x y hx hy heq := by
    obtain ⟨hxa, -⟩ := h.placed a x hx
    obtain ⟨hyb, -⟩ := h.placed b y hy
    rw [← hxa, ← hyb, heq]

theorem Inv.report (h : Inv s) (hreport : s.report = none) (hquiet : s.Quiet) :
    Inv { s with
      report := some ⟨s.records, s.settled, s.observed⟩
      records := fun _ => none } where
  placed _ _ hr := by cases hr
  marked := h.marked
  unobserved _ hf := by cases hf
  pending _ hf := by cases hf
  known hnone := by cases hnone
  called := h.called
  exact_report r hr := by
    obtain rfl := Option.some.inj hr
    exact h.exact hreport hquiet

/-- A step keeps the invariant. -/
theorem Inv.step {a : Action} (h : Inv s) (hok : Timely s (t, a))
    (hstep : s.step (t, a) = some s') : Inv s' := by
  unfold State.step at hstep
  unfold Timely at hok
  dsimp only at hstep hok
  split at hstep
  · -- `create`
    split at hstep
    · rename_i hfree
      cases hstep
      exact h.create hfree.1
    · cases hstep
  · -- `collect`
    split at hstep
    · cases hstep
      exact ⟨h.placed, h.marked, h.unobserved, h.pending, h.known, h.called, h.exact_report⟩
    · cases hstep
  · -- `reject`
    split at hstep
    · rename_i f text hc hlive
      cases hstep
      exact h.setCall hc (fun g => ⟨Call.noConfusion, Call.noConfusion⟩)
        (fun g hg => by cases hg) fun g hg => by rw [← Option.some.inj hg]; exact hlive.1
    · cases hstep
  · -- `check`
    rename_i f text hc
    cases hstep
    have hborn : s.born f = true := h.called _ (List.mem_of_getElem? hc) f rfl
    refine h.setCall hc (fun g => ⟨Call.noConfusion, Call.noConfusion⟩) (fun g hg => ?_)
      fun g hg => ?_
    · split at hg
      · rename_i hmark
        rw [← Call.settling.inj hg]
        exact .inr (h.marked f hmark)
      · cases hg
    · split at hg
      · rwa [← Option.some.inj hg]
      · rwa [← Option.some.inj hg]
  · -- `record`
    rename_i f text hc
    cases hstep
    rw [hc] at hok
    exact h.record hc hok.1 hok.2
  · -- `claim`
    rename_i f hc
    cases hstep
    rw [hc] at hok
    exact h.claim hc hok
  · -- `settle`
    split at hstep
    · cases hstep
      exact h.settle
    · cases hstep
  · -- `observe`
    split at hstep
    · rename_i f hc hlive
      cases hstep
      exact h.setCall hc (fun g => ⟨Call.noConfusion, Call.noConfusion⟩)
        (fun g hg => by cases hg) fun g hg => by rw [← Option.some.inj hg]; exact hlive.1
    · cases hstep
  · -- `mark`
    rename_i f hc
    cases hstep
    exact h.mark hc
  · -- `erase`
    rename_i f hc
    cases hstep
    rw [hc] at hok
    exact h.erase hc hok
  · -- `report`
    split at hstep
    · rename_i hnone
      cases hstep
      exact h.report (Option.isNone_iff_eq_none.mp hnone) hok
    · cases hstep
  · cases hstep

end Steps

theorem Inv.of_init {s : State} (h : machine.init s) : Inv s := by
  obtain ⟨-, -, hmark, hsettled, hrecords, -, hcalls, hreport⟩ := h
  have hrec : ∀ f, ¬ s.Recorded f := by
    intro f hf
    unfold State.Recorded at hf
    rw [hrecords] at hf
    cases hf
  refine ⟨fun a r hr => ?_, fun f hf => ?_, fun f hf => absurd hf (hrec f),
    fun f hf => absurd hf (hrec f), fun _ f hf => ?_, fun c hc f hf => ?_, fun r hr => ?_⟩
  · rw [hrecords] at hr
    cases hr
  · rw [hmark] at hf
    cases hf
  · rcases hf with hf | hf
    · rw [hsettled] at hf
      cases hf
    · cases hcalls _ hf
  · rw [hcalls c hc] at hf
    cases hf
  · rw [hreport] at hr
    cases hr

/-! ## Exactness -/

/-- **The report is exact.** -/
theorem report_exact (s : State) (h : machine.Reach Timely s) (r : Report)
    (hreport : s.report = some r) : r.Exact := by
  have hinv : Inv s := h.invariant (fun _ => .of_init)
    fun s a s' _ h hok hstep => h.step (t := a.1) (a := a.2) hok hstep
  exact hinv.exact_report r hreport

/-- Two threads that do nothing, and no future. -/
def idle : State where
  born _ := false
  address _ := 0
  heap _ := none
  mark _ := false
  settled _ := none
  records _ := none
  observed _ := false
  calls := [.idle, .idle]
  report := none

theorem init_idle : machine.init idle :=
  ⟨fun _ => rfl, fun _ => rfl, fun _ => rfl, fun _ => rfl, fun _ => rfl, fun _ => rfl,
    by decide, rfl⟩

/-- The actors of the futures 0 and 1 fail, the program waits for 1, and the runtime ends. -/
def reportedRun : List (Nat × Action) :=
  [(0, .create 0 64), (0, .create 1 80), (0, .reject 0 "boom"), (1, .reject 1 "bang"),
    (0, .check), (1, .check), (0, .record), (1, .record), (0, .claim), (1, .claim),
    (0, .observe 1), (0, .mark), (0, .erase), (1, .report)]

/-- `Timely`, where no call is under way at the report. -/
def timely (s : State) (a : Nat × Action) : Bool :=
  let alone (f : Nat) := (s.records (s.address f)).all fun r => r.future = f
  match a.2, s.calls[a.1]? with
  | .record, some (.recording f _) => !s.observed f && alone f
  | .claim, some (.settling f) => s.settled f ≠ some .other
  | .erase, some (.erasing f) => alone f
  | .report, _ => s.calls.all (· = .idle)
  | _, _ => true

theorem alone_of_all {s : State} {f : Nat}
    (h : ((s.records (s.address f)).all fun r => decide (r.future = f)) = true) : s.Alone f := by
  intro r hr
  rw [hr] at h
  exact of_decide_eq_true h

theorem timely_sound (s : State) (a : Nat × Action) (h : timely s a = true) : Timely s a := by
  unfold timely at h
  unfold Timely
  dsimp only at h
  split at h
  · rw [Bool.and_eq_true, Bool.not_eq_true'] at h
    exact ⟨h.1, alone_of_all h.2⟩
  · exact fun _ => of_decide_eq_true h
  · exact alone_of_all h
  · have hidle : ∀ c ∈ s.calls, c = .idle := fun c hc =>
      of_decide_eq_true (List.all_eq_true.mp h c hc)
    exact ⟨fun f hf => (Call.noConfusion (hidle _ hf)), fun f hf => (Call.noConfusion (hidle _ hf))⟩
  · trivial

/-- Both rejections took effect, and the report names the one that was not observed. -/
theorem report_exact_unobserved : ∃ s r, machine.Reach Timely s ∧ s.report = some r ∧
    r.settled 0 = some .drain ∧ r.settled 1 = some .drain ∧ r.printed 64 = some ⟨0, "boom"⟩ ∧
    r.printed 80 = none ∧ r.Exact := by
  have hexec : (machine.execOk timely idle reportedRun).bind (fun s => s.report.map fun r =>
      (r.settled 0, r.settled 1, r.printed 64, r.printed 80))
      = some (some .drain, some .drain, some ⟨0, "boom"⟩, none) := by decide
  obtain ⟨s, hs, hmap⟩ := Option.bind_eq_some_iff.mp hexec
  obtain ⟨r, hreport, hseen⟩ := Option.map_eq_some_iff.mp hmap
  simp only [Prod.mk.injEq] at hseen
  obtain ⟨hzero, hone, hnamed, hnot⟩ := hseen
  have hreach := Machine.reach_of_execOk timely timely_sound (.init init_idle) hs
  exact ⟨s, r, hreach, hreport, hzero, hone, hnamed, hnot, report_exact s hreach r hreport⟩

/-- The future 0 is resolved, then its actor's method fails, and the runtime ends. -/
def resolvedRun : List (Nat × Action) :=
  [(0, .create 0 64), (0, .settle 0), (1, .reject 0 "boom"), (1, .check), (1, .record),
    (1, .claim), (0, .report)]

/-- The error of a future that was resolved is reported. -/
theorem resolved_is_reported :
    ¬ ∀ s r, machine.Reachable s → s.report = some r → r.Exact := by
  intro h
  have hexec : (machine.exec idle resolvedRun).bind (fun s => s.report.map fun r =>
      (r.printed 64, r.settled 0)) = some (some ⟨0, "boom"⟩, some .other) := by decide
  obtain ⟨s, hs, hmap⟩ := Option.bind_eq_some_iff.mp hexec
  obtain ⟨r, hreport, hpair⟩ := Option.map_eq_some_iff.mp hmap
  obtain ⟨hprinted, hsettled⟩ := Prod.mk.inj hpair
  have hexact := (h s r (Machine.reach_of_exec (.init init_idle) hs) hreport).names_iff 0
  have hdrain := (hexact.mp ⟨64, _, hprinted, rfl⟩).1
  rw [hsettled] at hdrain
  cases hdrain

end ProtoST.Primitives.UnobservedErrors

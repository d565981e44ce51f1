import Mathlib.Algebra.Group.Int.Defs
import Mathlib.Algebra.Group.Nat.Defs
import Mathlib.Data.Finset.Card
import Mathlib.Logic.Function.Basic
import Mathlib.Tactic.Common
import ProtoST.Lib.Transition
import ProtoST.Runtime.WorkerPool

/-!
# The semaphore

`runtime/Semaphore.h`, one atomic operation to a step.  `std::atomic::wait` puts a thread to sleep
only when it finds the value 0, and a thread that is woken looks again.  The kernel may wake a
thread for no reason.  `released` and `acquired` are ghosts: they count the permits.

## Main results

* `never_sleeps_beside` — while no release finds too many permits, there are as many threads
  awake as there are permits, or no thread sleeps.
* `sleeps_beside_permits` — a run in which the counter wraps.
-/

namespace ProtoST.Runtime.Semaphore

open ProtoST.Lib
open ProtoST.Runtime.WorkerPool (wrap)

/-- Where a thread is. -/
inductive Pc where
  | idle
  /-- In `release(permits)`, before `fetch_add`. -/
  | adding (permits : Nat)
  /-- Before `notify_one` or `notify_all`. -/
  | notifying (permits : Nat)
  /-- In `acquire`, before the load. -/
  | loading
  /-- Before the compare-and-swap from `c`. -/
  | swapping (c : Int)
  /-- Before the look at the value in `wait(0)`. -/
  | waiting
  | asleep
  deriving DecidableEq, Repr

variable {T : Type}

structure State (T : Type) where
  /-- `count_`. -/
  count : Int
  pc : T → Pc
  /-- The threads that the kernel has asleep on `count_`. -/
  sleepers : List T
  released : Nat
  acquired : Nat

inductive Action (T : Type) where
  | release (permits : Nat)
  | add
  /-- `notify_one` wakes a thread, when there is one. -/
  | notifyOne (woken : Option T)
  | notifyAll
  | acquire
  | load
  /-- A weak compare-and-swap may fail on the value it expects. -/
  | swap (fails : Bool)
  | look
  | spuriousWake
  deriving DecidableEq, Repr

namespace State

variable [DecidableEq T]

def setPc (s : State T) (t : T) (p : Pc) : State T :=
  { s with pc := Function.update s.pc t p }

/-- The loop of `acquire` at a value of `count_`. -/
def atValue (c : Int) : Pc := if 0 < c then .swapping c else .waiting

/-- The kernel wakes a thread. -/
def wake (s : State T) (t : T) : State T :=
  { s with pc := Function.update s.pc t .waiting, sleepers := s.sleepers.erase t }

/-- One step of a thread. -/
def step (s : State T) (a : T × Action T) : Option (State T) :=
  let t := a.1
  match a.2, s.pc t with
  | .release permits, .idle =>
      if permits < 2 ^ 31 then some (s.setPc t (.adding permits)) else none
  | .add, .adding permits =>
      some { s.setPc t (.notifying permits) with
        count := wrap (s.count + permits)
        released := s.released + permits }
  | .notifyOne woken, .notifying 1 =>
      match woken with
      | some u => if u ∈ s.sleepers then some ((s.setPc t .idle).wake u) else none
      | none => if s.sleepers = [] then some (s.setPc t .idle) else none
  | .notifyAll, .notifying permits =>
      if permits ≠ 1 then
        some { s with
          pc := Function.update (fun u => if u ∈ s.sleepers then .waiting else s.pc u) t .idle
          sleepers := [] }
      else none
  | .acquire, .idle => some (s.setPc t .loading)
  | .load, .loading => some (s.setPc t (atValue s.count))
  | .swap fails, .swapping c =>
      if s.count = c ∧ fails = false then
        some { s.setPc t .idle with count := s.count - 1, acquired := s.acquired + 1 }
      else some (s.setPc t (atValue s.count))
  | .look, .waiting =>
      if s.count = 0 then
        some { s.setPc t .asleep with sleepers := s.sleepers ++ [t] }
      else some (s.setPc t .loading)
  | .spuriousWake, .asleep => some (s.wake t)
  | _, _ => none

end State

variable [DecidableEq T]

/-- No permit is there and no thread is in a call. -/
def machine : Machine (State T) (T × Action T) where
  init s := s.count = 0 ∧ (∀ t, s.pc t = .idle) ∧ s.sleepers = [] ∧ s.released = 0 ∧ s.acquired = 0
  step := State.step

/-- A thread that wants a permit and can go on by itself. -/
def Pc.Runnable : Pc → Prop
  | .loading | .swapping _ | .waiting => True
  | .idle | .adding _ | .notifying _ | .asleep => False

/-- **The condition.**  No release takes the counter past its maximum. -/
def NotFull (s : State T) (a : T × Action T) : Prop :=
  ∀ permits : Nat, a.2 = .add → s.pc a.1 = .adding permits → s.count + permits < 2 ^ 31

/-! ## What always holds -/

/-- A thread that takes a permit, or wakes one that does. -/
def Pc.Serves : Pc → Prop
  | .loading | .swapping _ | .waiting | .notifying _ => True
  | .idle | .adding _ | .asleep => False

/-- The permits are seen to. -/
def Served (s : State T) : Prop :=
  s.sleepers = [] ∨ (∃ t permits, s.pc t = .notifying permits ∧ permits ≠ 1) ∨
    ∃ l : Finset T, s.count ≤ l.card ∧ ∀ t ∈ l, (s.pc t).Serves

structure Inv (s : State T) : Prop where
  count_nonneg : 0 ≤ s.count
  count_lt : s.count < 2 ^ 31
  books : s.count + s.acquired = s.released
  sleepers : ∀ t, t ∈ s.sleepers ↔ s.pc t = .asleep
  nodup : s.sleepers.Nodup
  expects : ∀ t c, s.pc t = .swapping c → 0 < c
  served : Served s

section Steps

variable {s s' : State T} {t u : T} {p p' : Pc}

theorem pc_setPc_self : (s.setPc t p).pc t = p := Function.update_self ..

theorem pc_setPc_of_ne (h : u ≠ t) : (s.setPc t p).pc u = s.pc u := Function.update_of_ne h ..

omit [DecidableEq T] in
theorem served_of_count (h : s.count ≤ 0) : Served s :=
  .inr (.inr ⟨∅, by simpa using h, fun t ht => absurd ht (Finset.notMem_empty t)⟩)

/-- A thread goes on in its call. -/
theorem Served.setPc (h : Served s) (hserves : (s.pc t).Serves → p.Serves)
    (hall : ∀ permits, s.pc t = .notifying permits → permits = 1) : Served (s.setPc t p) := by
  rcases h with hnone | ⟨u, permits, hu, hne⟩ | ⟨l, hcount, hl⟩
  · exact .inl hnone
  · have hut : u ≠ t := by
      rintro rfl
      exact hne (hall permits hu)
    exact .inr (.inl ⟨u, permits, (pc_setPc_of_ne hut).trans hu, hne⟩)
  · refine .inr (.inr ⟨l, hcount, fun u hu => ?_⟩)
    by_cases hut : u = t
    · subst hut
      rw [pc_setPc_self]
      exact hserves (hl u hu)
    · rw [pc_setPc_of_ne hut]
      exact hl u hu

/-- A thread takes a permit. -/
theorem Served.take (h : Served s) {c : Int} (hpc : s.pc t = .swapping c) (p : Pc) (n : Nat) :
    Served { s.setPc t p with count := s.count - 1, acquired := n } := by
  rcases h with hnone | ⟨u, permits, hu, hne⟩ | ⟨l, hcount, hl⟩
  · exact .inl hnone
  · have hut : u ≠ t := by
      rintro rfl
      rw [hpc] at hu
      cases hu
    exact .inr (.inl ⟨u, permits, (pc_setPc_of_ne hut).trans hu, hne⟩)
  · refine .inr (.inr ⟨l.erase t, ?_, fun u hu => ?_⟩)
    · have hcard := Finset.pred_card_le_card_erase (s := l) (a := t)
      show s.count - 1 ≤ ((l.erase t).card : Int)
      omega
    · obtain ⟨hut, hmem⟩ := Finset.mem_erase.mp hu
      show ((s.setPc t p).pc u).Serves
      rw [pc_setPc_of_ne hut]
      exact hl u hmem

/-- A thread that sleeps is woken. -/
theorem Served.wake (h : Served s) (hsleeps : s.pc u = .asleep) : Served (s.wake u) := by
  have hpc : (s.wake u).pc = (s.setPc u .waiting).pc := rfl
  have hkept : Served (s.setPc u .waiting) := h.setPc (fun _ => trivial) fun permits hp => by
    rw [hsleeps] at hp
    cases hp
  rcases hkept with hnone | hrest
  · left
    show s.sleepers.erase u = []
    rw [show s.sleepers = [] from hnone]
    rfl
  · exact .inr hrest

/-! ### One step -/

theorem mem_sleepers_setPc (h : ∀ u, u ∈ s.sleepers ↔ s.pc u = .asleep) (hold : s.pc t ≠ .asleep)
    (hnew : p ≠ .asleep) (u : T) : u ∈ s.sleepers ↔ (s.setPc t p).pc u = .asleep := by
  by_cases hut : u = t
  · subst hut
    rw [pc_setPc_self]
    exact iff_of_false (fun hmem => hold ((h u).mp hmem)) hnew
  · rw [pc_setPc_of_ne hut]
    exact h u

theorem expects_setPc (h : ∀ u c, s.pc u = .swapping c → 0 < c)
    (hnew : ∀ c, p = .swapping c → 0 < c) (u : T) (c : Int)
    (hpc : (s.setPc t p).pc u = .swapping c) : 0 < c := by
  by_cases hut : u = t
  · rw [hut, pc_setPc_self] at hpc
    exact hnew c hpc
  · rw [pc_setPc_of_ne hut] at hpc
    exact h u c hpc

omit [DecidableEq T] in
theorem ne_asleep (hpc : s.pc t = p) (hp : p ≠ .asleep) : s.pc t ≠ .asleep := by
  rw [hpc]
  exact hp

theorem atValue_ne_asleep {c : Int} : State.atValue c ≠ .asleep := by
  unfold State.atValue
  split <;> exact fun h => by cases h

theorem pos_of_atValue {c d : Int} (h : State.atValue c = .swapping d) : 0 < d := by
  unfold State.atValue at h
  split at h
  · rename_i hpos
    cases h
    exact hpos
  · cases h

theorem serves_atValue {c : Int} : (State.atValue c).Serves := by
  unfold State.atValue
  split <;> trivial

/-- A thread goes on in its call, awake. -/
theorem Inv.setPc (h : Inv s) (hold : s.pc t ≠ .asleep) (hnew : p ≠ .asleep)
    (hexpects : ∀ c, p = .swapping c → 0 < c) (hserves : (s.pc t).Serves → p.Serves)
    (hall : ∀ permits, s.pc t = .notifying permits → permits = 1) : Inv (s.setPc t p) where
  count_nonneg := h.count_nonneg
  count_lt := h.count_lt
  books := h.books
  sleepers := mem_sleepers_setPc h.sleepers hold hnew
  nodup := h.nodup
  expects := expects_setPc h.expects hexpects
  served := h.served.setPc hserves hall

theorem Inv.wake (h : Inv s) (hsleeps : s.pc u = .asleep) : Inv (s.wake u) where
  count_nonneg := h.count_nonneg
  count_lt := h.count_lt
  books := h.books
  sleepers := by
    intro v
    show v ∈ s.sleepers.erase u ↔ (s.setPc u .waiting).pc v = .asleep
    rw [h.nodup.mem_erase_iff]
    by_cases hvu : v = u
    · subst hvu
      rw [pc_setPc_self]
      exact iff_of_false (fun hmem => hmem.1 rfl) (fun hpc => by cases hpc)
    · rw [pc_setPc_of_ne hvu, ← h.sleepers v]
      exact and_iff_right hvu
  nodup := h.nodup.erase u
  expects := expects_setPc h.expects fun c hc => by cases hc
  served := h.served.wake hsleeps

/-- `fetch_add`. -/
theorem Inv.add (h : Inv s) {permits : Nat} (hpc : s.pc t = .adding permits)
    (hfull : s.count + permits < 2 ^ 31) :
    Inv { s.setPc t (.notifying permits) with
      count := wrap (s.count + permits)
      released := s.released + permits } := by
  have hnonneg := h.count_nonneg
  have hbooks := h.books
  have hwrap : wrap (s.count + permits) = s.count + permits := by
    unfold wrap
    rw [Int.bmod_eq_of_le (by omega) (by omega)]
  have hawake : s.pc t ≠ .asleep := ne_asleep hpc fun h => by cases h
  rw [hwrap]
  refine ⟨?_, hfull, ?_, mem_sleepers_setPc h.sleepers hawake (fun hpc => by cases hpc), h.nodup,
    expects_setPc h.expects (fun c hc => by cases hc), ?_⟩
  · show 0 ≤ s.count + permits
    omega
  · show s.count + permits + s.acquired = ((s.released + permits : Nat) : Int)
    omega
  · by_cases hone : permits = 1
    · subst hone
      rcases h.served with hnone | ⟨u, permits, hu, hne⟩ | ⟨l, hcount, hl⟩
      · exact .inl hnone
      · have hut : u ≠ t := by
          rintro rfl
          rw [hpc] at hu
          cases hu
        exact .inr (.inl ⟨u, permits, (pc_setPc_of_ne hut).trans hu, hne⟩)
      · -- the thread itself is one more that serves
        have hnew : t ∉ l := by
          intro hmem
          have hserves := hl t hmem
          rw [hpc] at hserves
          exact hserves
        refine .inr (.inr ⟨insert t l, ?_, fun u hu => ?_⟩)
        · rw [Finset.card_insert_of_notMem hnew]
          show s.count + (1 : Nat) ≤ ((l.card + 1 : Nat) : Int)
          omega
        · show ((s.setPc t (.notifying 1)).pc u).Serves
          rcases Finset.mem_insert.mp hu with rfl | hmem
          · rw [pc_setPc_self]
            trivial
          · have hut : u ≠ t := by
              rintro rfl
              exact hnew hmem
            rw [pc_setPc_of_ne hut]
            exact hl u hmem
    · exact .inr (.inl ⟨t, permits, pc_setPc_self, hone⟩)

/-- `notify_one` wakes a thread, which serves in its place. -/
theorem Inv.notifyOne (h : Inv s) (hpc : s.pc t = .notifying 1) (hsleeps : s.pc u = .asleep) :
    Inv ((s.setPc t .idle).wake u) := by
  have hut : u ≠ t := by
    rintro rfl
    rw [hpc] at hsleeps
    cases hsleeps
  have hawake : s.pc t ≠ .asleep := ne_asleep hpc fun h => by cases h
  have hasleep : (s.setPc t .idle).pc u = .asleep := (pc_setPc_of_ne hut).trans hsleeps
  have hpcs : ∀ v, v ≠ t → v ≠ u → ((s.setPc t .idle).wake u).pc v = s.pc v := by
    intro v hvt hvu
    exact (Function.update_of_ne hvu ..).trans (pc_setPc_of_ne hvt)
  have hpcu : ((s.setPc t .idle).wake u).pc u = .waiting := Function.update_self ..
  have hexpects : ∀ v c, (s.setPc t .idle).pc v = .swapping c → 0 < c :=
    expects_setPc h.expects fun c hc => by cases hc
  refine ⟨h.count_nonneg, h.count_lt, h.books, ?_, h.nodup.erase u,
    expects_setPc hexpects (fun c hc => by cases hc), ?_⟩
  · intro v
    show v ∈ s.sleepers.erase u ↔ _
    rw [h.nodup.mem_erase_iff, h.sleepers v]
    by_cases hvu : v = u
    · subst hvu
      rw [hpcu]
      exact iff_of_false (fun hmem => hmem.1 rfl) (fun hpc => by cases hpc)
    · by_cases hvt : v = t
      · subst hvt
        have hidle : ((s.setPc v .idle).wake u).pc v = .idle :=
          (Function.update_of_ne hvu ..).trans pc_setPc_self
        rw [hidle, hpc]
        exact iff_of_false (fun hmem => by cases hmem.2) (fun hpc => by cases hpc)
      · rw [hpcs v hvt hvu]
        exact and_iff_right hvu
  · rcases h.served with hnone | ⟨v, permits, hv, hne⟩ | ⟨l, hcount, hl⟩
    · have hmem := (h.sleepers u).mpr hsleeps
      rw [hnone] at hmem
      cases hmem
    · have hvt : v ≠ t := by
        rintro rfl
        rw [hpc] at hv
        cases hv
        exact hne rfl
      have hvu : v ≠ u := by
        rintro rfl
        rw [hsleeps] at hv
        cases hv
      exact .inr (.inl ⟨v, permits, (hpcs v hvt hvu).trans hv, hne⟩)
    · have hnew : u ∉ l.erase t := by
        intro hmem
        have hserves := hl u (Finset.mem_of_mem_erase hmem)
        rw [hsleeps] at hserves
        exact hserves
      refine .inr (.inr ⟨insert u (l.erase t), ?_, fun v hv => ?_⟩)
      · have hcard := Finset.pred_card_le_card_erase (s := l) (a := t)
        rw [Finset.card_insert_of_notMem hnew]
        show s.count ≤ (((l.erase t).card + 1 : Nat) : Int)
        omega
      · rcases Finset.mem_insert.mp hv with rfl | hmem
        · rw [hpcu]
          trivial
        · obtain ⟨hvt, hmem⟩ := Finset.mem_erase.mp hmem
          have hvu : v ≠ u := by
            rintro rfl
            exact hnew (Finset.mem_erase.mpr ⟨hvt, hmem⟩)
          rw [hpcs v hvt hvu]
          exact hl v hmem

/-- After `notify_all` nobody sleeps. -/
theorem Inv.notifyAll (h : Inv s) :
    Inv { s with
      pc := Function.update (fun u => if u ∈ s.sleepers then .waiting else s.pc u) t .idle
      sleepers := [] } := by
  have hpcs : ∀ {u : T} {p : Pc}, p ≠ .idle → p ≠ .waiting →
      Function.update (fun u => if u ∈ s.sleepers then .waiting else s.pc u) t .idle u = p →
      u ∉ s.sleepers ∧ s.pc u = p := by
    intro u p hidle hwaiting hpc
    by_cases hut : u = t
    · rw [hut, Function.update_self] at hpc
      exact absurd hpc.symm hidle
    · rw [Function.update_of_ne hut] at hpc
      split at hpc
      · exact absurd hpc.symm hwaiting
      · rename_i hawake
        exact ⟨hawake, hpc⟩
  refine ⟨h.count_nonneg, h.count_lt, h.books, fun u => ?_, List.nodup_nil, fun u c hpc => ?_,
    .inl rfl⟩
  · refine iff_of_false List.not_mem_nil fun hpc => ?_
    obtain ⟨hawake, hasleep⟩ := hpcs (fun h => by cases h) (fun h => by cases h) hpc
    exact hawake ((h.sleepers u).mpr hasleep)
  · exact h.expects u c (hpcs (fun h => by cases h) (fun h => by cases h) hpc).2

/-- A thread takes a permit. -/
theorem Inv.take (h : Inv s) {c : Int} (hpc : s.pc t = .swapping c) (hcount : s.count = c) :
    Inv { s.setPc t .idle with count := s.count - 1, acquired := s.acquired + 1 } := by
  have hlt := h.count_lt
  have hbooks := h.books
  have hpos := h.expects t c hpc
  have hawake : s.pc t ≠ .asleep := ne_asleep hpc fun h => by cases h
  refine ⟨?_, ?_, ?_, mem_sleepers_setPc h.sleepers hawake (fun hpc => by cases hpc), h.nodup,
    expects_setPc h.expects (fun c hc => by cases hc), h.served.take hpc .idle _⟩
  · show 0 ≤ s.count - 1
    omega
  · show s.count - 1 < 2 ^ 31
    omega
  · show s.count - 1 + ((s.acquired + 1 : Nat) : Int) = s.released
    omega

/-- A thread goes to sleep on the value 0. -/
theorem Inv.sleep (h : Inv s) (hpc : s.pc t = .waiting) (hzero : s.count = 0) :
    Inv { s.setPc t .asleep with sleepers := s.sleepers ++ [t] } := by
  have hawake : t ∉ s.sleepers := by
    intro hmem
    have hasleep := (h.sleepers t).mp hmem
    rw [hpc] at hasleep
    cases hasleep
  refine ⟨h.count_nonneg, h.count_lt, h.books, fun u => ?_, ?_,
    expects_setPc h.expects (fun c hc => by cases hc), served_of_count (Int.le_of_eq hzero)⟩
  · show u ∈ s.sleepers ++ [t] ↔ (s.setPc t .asleep).pc u = .asleep
    rw [List.mem_append, List.mem_singleton]
    by_cases hut : u = t
    · subst hut
      exact iff_of_true (.inr rfl) pc_setPc_self
    · rw [pc_setPc_of_ne hut, ← h.sleepers u]
      exact or_iff_left hut
  · show (s.sleepers ++ [t]).Nodup
    refine List.nodup_append.mpr ⟨h.nodup, List.nodup_singleton t, fun u hu v hv => ?_⟩
    rw [List.mem_singleton.mp hv]
    rintro rfl
    exact hawake hu

/-- **The step.** -/
theorem Inv.step {a : Action T} (h : Inv s) (hok : NotFull s (t, a))
    (hstep : s.step (t, a) = some s') : Inv s' := by
  unfold State.step at hstep
  dsimp only at hstep
  split at hstep
  · rename_i permits hpc
    split at hstep
    · cases hstep
      exact h.setPc (ne_asleep hpc fun h => by cases h) (fun h => by cases h)
        (fun c hc => by cases hc) (fun hs => by rw [hpc] at hs; exact hs)
        (fun k hk => by rw [hpc] at hk; cases hk)
    · cases hstep
  · rename_i permits hpc
    cases hstep
    exact h.add hpc (hok permits rfl hpc)
  · rename_i woken hpc
    split at hstep
    · split at hstep
      · rename_i u hmem
        cases hstep
        exact h.notifyOne hpc ((h.sleepers u).mp hmem)
      · cases hstep
    · split at hstep
      · rename_i hnone
        cases hstep
        have hkept : Inv (s.setPc t .idle) := by
          refine ⟨h.count_nonneg, h.count_lt, h.books, ?_, h.nodup,
            expects_setPc h.expects (fun c hc => by cases hc), .inl hnone⟩
          exact mem_sleepers_setPc h.sleepers (ne_asleep hpc fun h => by cases h)
            (fun h => by cases h)
        exact hkept
      · cases hstep
  · split at hstep
    · cases hstep
      exact h.notifyAll
    · cases hstep
  · rename_i hpc
    cases hstep
    exact h.setPc (ne_asleep hpc fun h => by cases h) (fun h => by cases h)
      (fun c hc => by cases hc) (fun _ => trivial) (fun k hk => by rw [hpc] at hk; cases hk)
  · rename_i hpc
    cases hstep
    exact h.setPc (ne_asleep hpc fun h => by cases h) atValue_ne_asleep (fun _ => pos_of_atValue)
      (fun _ => serves_atValue) (fun k hk => by rw [hpc] at hk; cases hk)
  · rename_i fails c hpc
    split at hstep
    · rename_i hswap
      cases hstep
      exact h.take hpc hswap.1
    · cases hstep
      exact h.setPc (ne_asleep hpc fun h => by cases h) atValue_ne_asleep (fun _ => pos_of_atValue)
        (fun _ => serves_atValue) (fun k hk => by rw [hpc] at hk; cases hk)
  · rename_i hpc
    split at hstep
    · rename_i hzero
      cases hstep
      exact h.sleep hpc hzero
    · cases hstep
      exact h.setPc (ne_asleep hpc fun h => by cases h) (fun h => by cases h)
        (fun c hc => by cases hc) (fun _ => trivial) (fun k hk => by rw [hpc] at hk; cases hk)
  · rename_i hpc
    cases hstep
    exact h.wake hpc
  · cases hstep

end Steps

/-! ## Runs -/

variable {s : State T}

theorem Inv.of_init (h : (machine (T := T)).init s) : Inv s := by
  obtain ⟨hcount, hidle, hsleepers, hreleased, hacquired⟩ := h
  refine ⟨by omega, by omega, by omega, fun t => ?_, ?_, fun t c hpc => ?_, .inl hsleepers⟩
  · rw [hsleepers, hidle t]
    exact iff_of_false List.not_mem_nil fun hpc => by cases hpc
  · rw [hsleepers]
    exact List.nodup_nil
  · rw [hidle t] at hpc
    cases hpc

theorem inv_of_reach (h : machine.Reach NotFull s) : Inv s :=
  h.invariant (fun _ hinit => .of_init hinit) fun _ _ _ _ hinv hok hstep => hinv.step hok hstep

omit [DecidableEq T] in
theorem runnable_of_serves {t : T} (hserves : (s.pc t).Serves)
    (hquiet : ∀ permits, s.pc t ≠ .notifying permits) : (s.pc t).Runnable := by
  cases hpc : s.pc t with
  | notifying permits => exact absurd hpc (hquiet permits)
  | loading | swapping c | waiting => trivial
  | idle | adding permits | asleep =>
      rw [hpc] at hserves
      exact hserves.elim

omit [DecidableEq T] in
/-- As many threads are awake as there are permits. -/
theorem awake_of_served (hinv : Inv s) (hquiet : ∀ t permits, s.pc t ≠ .notifying permits) :
    (∀ t, s.pc t ≠ .asleep) ∨
      ∃ l : Finset T, l.card = s.count.toNat ∧ ∀ t ∈ l, (s.pc t).Runnable := by
  rcases hinv.served with hnone | ⟨t, permits, hpc, -⟩ | ⟨l, hcount, hl⟩
  · left
    intro t hasleep
    have hmem := (hinv.sleepers t).mpr hasleep
    rw [hnone] at hmem
    cases hmem
  · exact absurd hpc (hquiet t permits)
  · right
    have hle : s.count.toNat ≤ l.card := by omega
    obtain ⟨l', hsub, hcard⟩ := Finset.exists_subset_card_eq hle
    exact ⟨l', hcard, fun t ht => runnable_of_serves (hl t (hsub ht)) (hquiet t)⟩

/-- Permits are neither lost nor made, and while there are permits and no release has still to
notify, as many threads that want one are awake, or nobody sleeps. -/
def SeesPermits (s : State T) : Prop :=
  s.acquired ≤ s.released ∧ s.count = s.released - s.acquired ∧
    (0 < s.count → (∀ t permits, s.pc t ≠ .notifying permits) →
      (∀ t, s.pc t ≠ .asleep) ∨
        ∃ l : Finset T, l.card = s.count.toNat ∧ ∀ t ∈ l, (s.pc t).Runnable)

/-- **No thread sleeps beside a permit**, in every run in which no release takes the counter past
its maximum. -/
theorem never_sleeps_beside {s : State T} (hreach : machine.Reach NotFull s) : SeesPermits s := by
  have hinv := inv_of_reach hreach
  have hnonneg := hinv.count_nonneg
  have hbooks := hinv.books
  refine ⟨by omega, by omega, fun _ hquiet => awake_of_served hinv hquiet⟩

/-! ## Runs of three threads -/

/-- The threads. -/
inductive Caller where
  | first | second | third
  deriving DecidableEq, Repr

/-- Nobody has called yet. -/
def start : State Caller where
  count := 0
  pc _ := .idle
  sleepers := []
  released := 0
  acquired := 0

theorem start_init : machine.init start := ⟨rfl, fun _ => rfl, rfl, rfl, rfl⟩

/-- Whether the step is none that fills the counter. -/
def notFull (s : State Caller) (a : Caller × Action Caller) : Bool :=
  match s.pc a.1 with
  | .adding permits => decide (s.count + permits < 2 ^ 31)
  | _ => true

theorem notFull_sound (s : State Caller) (a : Caller × Action Caller) (h : notFull s a = true) :
    NotFull s a := by
  intro permits _ hpc
  unfold notFull at h
  rw [hpc] at h
  exact of_decide_eq_true h

/-- The first and the third thread sleep; the second releases a permit and wakes the first. -/
def wokenRun : List (Caller × Action Caller) :=
  [(.first, .acquire), (.first, .load), (.first, .look), (.third, .acquire), (.third, .load),
    (.third, .look), (.second, .release 1), (.second, .add), (.second, .notifyOne (some .first))]

theorem wokenRun_ends : ∃ s, machine.execOk notFull start wokenRun = some s ∧
    s.count = 1 ∧ s.pc .third = .asleep ∧
      ∀ t, s.pc t = .idle ∨ s.pc t = .waiting ∨ s.pc t = .asleep := by
  refine ⟨_, rfl, rfl, rfl, fun t => ?_⟩
  cases t <;> decide

/-- With one thread asleep and one permit, another thread is awake. -/
theorem never_sleeps_beside_woken : ∃ s : State Caller, s.count = 1 ∧ s.pc .third = .asleep ∧
    ∃ t, (s.pc t).Runnable := by
  obtain ⟨s, hexec, hcount, hasleep, hpcs⟩ := wokenRun_ends
  have hreach : machine.Reach NotFull s :=
    Machine.reach_of_execOk notFull notFull_sound (.init start_init) hexec
  refine ⟨s, hcount, hasleep, ?_⟩
  obtain ⟨-, -, hawake⟩ := never_sleeps_beside hreach
  have hquiet : ∀ t permits, s.pc t ≠ .notifying permits := by
    intro t permits hpc
    rcases hpcs t with h | h | h <;> rw [hpc] at h <;> cases h
  rcases hawake (by omega) hquiet with hnone | ⟨l, hcard, hl⟩
  · exact absurd hasleep (hnone .third)
  · rw [hcount] at hcard
    obtain ⟨t, ht⟩ := Finset.card_pos.mp (by rw [hcard]; decide)
    exact ⟨t, hl t ht⟩

/-- Three releases wrap the counter to 0; then the first thread asks for a permit. -/
def wrapRun : List (Caller × Action Caller) :=
  [(.second, .release (2 ^ 31 - 1)), (.second, .add), (.second, .notifyAll),
    (.second, .release (2 ^ 31 - 1)), (.second, .add), (.second, .notifyAll),
    (.second, .release 2), (.second, .add), (.second, .notifyAll),
    (.first, .acquire), (.first, .load), (.first, .look)]

/-- A thread sleeps, and of 2^32 permits nobody has taken one. -/
theorem sleeps_beside_permits : ∃ s : State Caller, machine.Reachable s ∧ ¬ SeesPermits s ∧
    s.pc .first = .asleep ∧ s.released = 2 ^ 32 ∧ s.acquired = 0 := by
  have hrun : ∃ s, machine.exec start wrapRun = some s ∧
      s.count = 0 ∧ s.pc .first = .asleep ∧ s.released = 2 ^ 32 ∧ s.acquired = 0 :=
    ⟨_, rfl, rfl, rfl, rfl, rfl⟩
  obtain ⟨s, hexec, hcount, hasleep, hreleased, hacquired⟩ := hrun
  refine ⟨s, Machine.reach_of_exec (.init start_init) hexec, fun hsees => ?_, hasleep, hreleased,
    hacquired⟩
  have hbooks := hsees.2.1
  rw [hcount, hreleased, hacquired] at hbooks
  cases hbooks

end ProtoST.Runtime.Semaphore

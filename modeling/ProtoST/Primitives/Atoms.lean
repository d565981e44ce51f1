import Mathlib
import ProtoST.Lib.Transition
import ProtoST.Lib.Linearizable

/-!
# Atoms

An Atom is a cell that any number of threads update.  `value` reads it,
`value:ifCurrent:` is one compare-and-swap of it, and `swap:` applies a block to what it
has read until a compare-and-swap puts the answer in place of it.  While the block runs,
other calls go on, those that it makes itself among them.

A value is compared by its pointer, so the cell may have been written since it was read
and hold the same pointer again; `writes` counts the updates.

## Main results

* `Inv.step` — what one atomic operation keeps.
* `atom_linearizable` — the calls take effect one at a time, and a lost race means that
  another call took effect.
-/

namespace ProtoST.Primitives.Atoms

open ProtoST.Lib

variable {V B : Type}

/-! ## The cell and its calls -/

/-- A call on the atom; a null pointer stands for `nil`. -/
inductive Op (V B : Type) where
  | value
  | cas (newValue expected : Option V)
  | swap (block : B)
  deriving DecidableEq

/-- What a call answers. -/
inductive Res (V : Type) where
  | value (v : V)
  | installed (ok : Bool)
  deriving DecidableEq

/-- Where a call is; `writes` is the number of updates when it read the cell. -/
inductive Pc (V B : Type) where
  | idle
  | entry (op : Op V B)
  | running (block : B) (old : V) (writes : Nat)
  | ready (block : B) (old neu : V) (writes : Nat)
  /-- An exception of the block left the call. -/
  | failed
  | done (op : Op V B) (r : Res V)
  | answered

/-- The cell, the calls, and the record of what happened. -/
structure State (V B : Type) where
  cell : V
  pcs : Nat → Pc V B
  writes : Nat
  history : List (Event (Op V B) (Res V))
  /-- The calls that took effect, in order. -/
  effects : List (Nat × Op V B × Res V)

/-- What can happen. -/
inductive Action (V B : Type) where
  | call (i : Nat) (op : Op V B)
  /-- The next operation of a call on the cell, or its answer. -/
  | next (i : Nat)
  /-- The block of a `swap:` answers. -/
  | blockAnswers (i : Nat) (v : Option V)
  | blockFails (i : Nat)

namespace State

def setPc (s : State V B) (i : Nat) (p : Pc V B) : State V B :=
  { s with pcs := Function.update s.pcs i p }

/-- A call takes effect. -/
def point (s : State V B) (i : Nat) (op : Op V B) (r : Res V) : State V B :=
  { s.setPc i (.done op r) with effects := s.effects ++ [(i, op, r)] }

/-- A call takes effect and writes the cell. -/
def write (s : State V B) (i : Nat) (op : Op V B) (r : Res V) (v : V) : State V B :=
  { s.point i op r with cell := v, writes := s.writes + 1 }

variable [DecidableEq V] (none : V)

/-- The next operation of a call: `prim_Atom_value`, `prim_Atom_cas`, `prim_Atom_swap`. -/
def next (s : State V B) (i : Nat) : Option (State V B) :=
  match s.pcs i with
  | .entry .value => some (s.point i .value (.value s.cell))
  | .entry (.cas newValue expected) =>
    if s.cell = expected.getD none then
      some (s.write i (.cas newValue expected) (.installed true) (newValue.getD none))
    else some (s.point i (.cas newValue expected) (.installed false))
  | .entry (.swap block) => some (s.setPc i (.running block s.cell s.writes))
  | .ready block old neu _ =>
    if s.cell = old then some (s.write i (.swap block) (.value neu) neu)
    else some (s.setPc i (.entry (.swap block)))
  | .done _ r => some { s.setPc i .answered with history := s.history ++ [.ret i r] }
  | .idle | .running _ _ _ | .failed | .answered => Option.none

/-- One action. -/
def step (s : State V B) : Action V B → Option (State V B)
  | .call i op =>
    match s.pcs i with
    | .idle => some { s.setPc i (.entry op) with history := s.history ++ [.call i op] }
    | _ => Option.none
  | .next i => s.next none i
  | .blockAnswers i v =>
    match s.pcs i with
    | .running block old n => some (s.setPc i (.ready block old (v.getD none) n))
    | _ => Option.none
  | .blockFails i =>
    match s.pcs i with
    | .running _ _ _ => some (s.setPc i .failed)
    | _ => Option.none

end State

/-- `Atom on: init`, and the calls on it. -/
def machine [DecidableEq V] (none init : V) : Machine (State V B) (Action V B) where
  init s := s = ⟨init, fun _ => .idle, 0, [], []⟩
  step s a := s.step none a

/-- The block of a `swap:` answers what it may answer to what the call has read. -/
def Allowed (answers : B → V → Option V → Prop) (s : State V B) : Action V B → Prop
  | .blockAnswers i v => ∀ block old n, s.pcs i = .running block old n → answers block old v
  | _ => True

/-! ## A cell that is updated by one call after the other -/

/-- What a call may answer and leave in the cell. -/
def applies (none : V) (answers : B → V → Option V → Prop) (v : V) :
    Op V B → Res V → V → Prop
  | .value, .value r, v' => r = v ∧ v' = v
  | .cas newValue expected, .installed true, v' =>
    v = expected.getD none ∧ v' = newValue.getD none
  | .cas _ expected, .installed false, v' => v ≠ expected.getD none ∧ v' = v
  | .swap block, .value r, v' => r = v' ∧ ∃ a, answers block v a ∧ v' = a.getD none
  | _, _, _ => False

/-- The atom as a sequential object. -/
abbrev atom (none init : V) (answers : B → V → Option V → Prop) :
    SeqObject (Op V B) (Res V) where
  State := V
  init := init
  apply := applies none answers

/-! ## What always holds -/

section Invariant

variable (none : V) (answers : B → V → Option V → Prop)

/-- What holds of the call `i`. -/
def Pc.Holds (s : State V B) (i : Nat) : Pc V B → Prop
  | .idle => ∀ op, Event.call i op ∉ s.history
  | .entry op => Event.call i op ∈ s.history ∧ i ∉ s.effects.map Prod.fst
  | .running block old n =>
    Event.call i (.swap block) ∈ s.history ∧ i ∉ s.effects.map Prod.fst ∧
      n ≤ s.writes ∧ (n = s.writes → s.cell = old)
  | .ready block old neu n =>
    Event.call i (.swap block) ∈ s.history ∧ i ∉ s.effects.map Prod.fst ∧
      n ≤ s.writes ∧ (n = s.writes → s.cell = old) ∧
      ∃ a, answers block old a ∧ neu = a.getD none
  | .done op r => (i, op, r) ∈ s.effects
  | .failed | .answered => True

structure Inv (init : V) (s : State V B) : Prop where
  linearizes : Linearizes (atom none init answers) s.history s.effects s.cell
  holds : ∀ i, (s.pcs i).Holds none answers s i

variable {none answers} {init : V} {s s' : State V B}

/-- What a step of another call leaves alone. -/
structure Others (j : Nat) (s s' : State V B) : Prop where
  pcs : ∀ i, i ≠ j → s'.pcs i = s.pcs i
  history : ∀ i op, Event.call i op ∈ s.history → Event.call i op ∈ s'.history
  calls : ∀ i op, i ≠ j → Event.call i op ∈ s'.history → Event.call i op ∈ s.history
  effects : ∀ e, e ∈ s.effects → e ∈ s'.effects
  taken : ∀ i, i ≠ j → i ∈ s'.effects.map Prod.fst → i ∈ s.effects.map Prod.fst
  cell : s'.writes = s.writes ∧ s'.cell = s.cell ∨ s.writes < s'.writes

theorem Pc.Holds.other {j i : Nat} (hij : i ≠ j) (h : Others j s s') {p : Pc V B}
    (hp : p.Holds none answers s i) : p.Holds none answers s' i := by
  have hread : ∀ n old, n ≤ s.writes ∧ (n = s.writes → s.cell = old) →
      n ≤ s'.writes ∧ (n = s'.writes → s'.cell = old) := by
    rintro n old ⟨hle, hsame⟩
    rcases h.cell with ⟨hwrites, hcell⟩ | hlt
    · rw [hwrites, hcell]
      exact ⟨hle, hsame⟩
    · exact ⟨by omega, fun heq => by omega⟩
  cases p with
  | idle => exact fun op hcall => hp op (h.calls i op hij hcall)
  | entry op => exact ⟨h.history i op hp.1, fun hmem => hp.2 (h.taken i hij hmem)⟩
  | running block old n =>
    obtain ⟨hcall, hnew, hrest⟩ := hp
    exact ⟨h.history i _ hcall, fun hmem => hnew (h.taken i hij hmem), hread n old hrest⟩
  | ready block old neu n =>
    obtain ⟨hcall, hnew, hle, hsame, hneu⟩ := hp
    obtain ⟨hle', hsame'⟩ := hread n old ⟨hle, hsame⟩
    exact ⟨h.history i _ hcall, fun hmem => hnew (h.taken i hij hmem), hle', hsame', hneu⟩
  | done op r => exact h.effects _ hp
  | failed | answered => trivial

/-- A step of the call `j` keeps the invariant if it keeps its own part of it. -/
theorem Inv.of_others (h : Inv none answers init s) {j : Nat} {p : Pc V B}
    (hothers : Others j s s') (hpc : s'.pcs j = p)
    (hlin : Linearizes (atom none init answers) s'.history s'.effects s'.cell)
    (hown : p.Holds none answers s' j) : Inv none answers init s' := by
  refine ⟨hlin, fun i => ?_⟩
  by_cases hij : i = j
  · rw [hij, hpc]
    exact hown
  · rw [hothers.pcs i hij]
    exact (h.holds i).other hij hothers

theorem others_setPc (j : Nat) (p : Pc V B) : Others j s (s.setPc j p) :=
  ⟨fun _ hij => Function.update_of_ne hij _ _, fun _ _ => id, fun _ _ _ => id, fun _ => id,
    fun _ _ => id, .inl ⟨rfl, rfl⟩⟩

theorem others_point (j : Nat) (op : Op V B) (r : Res V) : Others j s (s.point j op r) := by
  refine ⟨fun _ hij => Function.update_of_ne hij _ _, fun _ _ => id, fun _ _ _ => id,
    fun e he => List.mem_append_left _ he, fun i hij hmem => ?_, .inl ⟨rfl, rfl⟩⟩
  rw [State.point, List.map_append, List.mem_append] at hmem
  exact hmem.resolve_right fun hlast => hij (List.mem_singleton.mp hlast)

theorem others_write (j : Nat) (op : Op V B) (r : Res V) (v : V) :
    Others j s (s.write j op r v) := by
  have hpoint := others_point (s := s) j op r
  exact ⟨hpoint.pcs, hpoint.history, hpoint.calls, hpoint.effects, hpoint.taken,
    .inr (Nat.lt_succ_self _)⟩

theorem others_event (j : Nat) (p : Pc V B) {e : Event (Op V B) (Res V)}
    (he : ∀ i op, e = .call i op → i = j) :
    Others j s { s.setPc j p with history := s.history ++ [e] } := by
  refine ⟨fun _ hij => Function.update_of_ne hij _ _,
    fun _ _ hcall => List.mem_append_left _ hcall, fun i op hij hcall => ?_, fun _ => id,
    fun _ _ => id, .inl ⟨rfl, rfl⟩⟩
  rcases List.mem_append.mp hcall with hold | hlast
  · exact hold
  · exact absurd (he i op (List.mem_singleton.mp hlast).symm) hij

/-- A call takes effect, and leaves the cell alone. -/
theorem Inv.point (h : Inv none answers init s) {i : Nat} {op : Op V B} {r : Res V}
    (hcall : Event.call i op ∈ s.history) (hnew : i ∉ s.effects.map Prod.fst)
    (happly : applies none answers s.cell op r s.cell) :
    Inv none answers init (s.point i op r) := by
  have hpc : (s.point i op r).pcs i = .done op r := Function.update_self ..
  refine h.of_others (others_point i op r) hpc (h.linearizes.point hcall hnew happly) ?_
  exact List.mem_append_right _ (List.mem_singleton.mpr rfl)

/-- A call takes effect, and writes the cell. -/
theorem Inv.write (h : Inv none answers init s) {i : Nat} {op : Op V B} {r : Res V} {v : V}
    (hcall : Event.call i op ∈ s.history) (hnew : i ∉ s.effects.map Prod.fst)
    (happly : applies none answers s.cell op r v) :
    Inv none answers init (s.write i op r v) := by
  have hpc : (s.write i op r v).pcs i = .done op r := Function.update_self ..
  refine h.of_others (others_write i op r v) hpc (h.linearizes.point hcall hnew happly) ?_
  exact List.mem_append_right _ (List.mem_singleton.mpr rfl)

/-- A call goes on, and changes nothing else. -/
theorem Inv.setPc (h : Inv none answers init s) {i : Nat} {p : Pc V B}
    (hp : p.Holds none answers s i) : Inv none answers init (s.setPc i p) := by
  refine h.of_others (others_setPc i p) (Function.update_self ..) h.linearizes ?_
  cases p <;> exact hp

variable [DecidableEq V]

theorem Inv.next (h : Inv none answers init s) {i : Nat} (hstep : s.next none i = some s') :
    Inv none answers init s' := by
  have hholds := h.holds i
  unfold State.next at hstep
  split at hstep
  · rename_i hpc
    rw [hpc] at hholds
    cases hstep
    exact h.point hholds.1 hholds.2 ⟨rfl, rfl⟩
  · rename_i newValue expected hpc
    rw [hpc] at hholds
    split at hstep
    · rename_i hequal
      cases hstep
      exact h.write hholds.1 hholds.2 ⟨hequal, rfl⟩
    · rename_i hdiffer
      cases hstep
      exact h.point hholds.1 hholds.2 ⟨hdiffer, rfl⟩
  · rename_i block hpc
    rw [hpc] at hholds
    cases hstep
    refine h.setPc ?_
    exact ⟨hholds.1, hholds.2, Nat.le_refl _, fun _ => rfl⟩
  · rename_i block old neu n hpc
    rw [hpc] at hholds
    obtain ⟨hcall, hnew, -, -, a, ha, hneu⟩ := hholds
    split at hstep
    · rename_i hequal
      cases hstep
      exact h.write hcall hnew ⟨rfl, a, hequal ▸ ha, hneu⟩
    · cases hstep
      exact h.setPc ⟨hcall, hnew⟩
  · rename_i op r hpc
    rw [hpc] at hholds
    cases hstep
    exact h.of_others (others_event i .answered fun j op' heq => by cases heq)
      (Function.update_self ..) (h.linearizes.answer hholds) trivial
  · cases hstep
  · cases hstep
  · cases hstep
  · cases hstep

/-- **One action keeps the invariant.** -/
theorem Inv.step (h : Inv none answers init s) {a : Action V B}
    (hallowed : Allowed answers s a) (hstep : s.step none a = some s') :
    Inv none answers init s' := by
  cases a with
  | call i op =>
    have hholds := h.holds i
    simp only [State.step] at hstep
    split at hstep
    · rename_i hpc
      rw [hpc] at hholds
      cases hstep
      refine h.of_others (others_event i (.entry op) fun j op' heq => by cases heq; rfl)
        (Function.update_self ..) (h.linearizes.call hholds) ?_
      refine ⟨List.mem_append_right _ (List.mem_singleton.mpr rfl), fun hmem => ?_⟩
      obtain ⟨op', hcall⟩ := h.linearizes.mem_called hmem
      exact hholds op' hcall
    · cases hstep
  | next i => exact h.next hstep
  | blockAnswers i v =>
    have hholds := h.holds i
    simp only [State.step] at hstep
    split at hstep
    · rename_i block old n hpc
      rw [hpc] at hholds
      cases hstep
      obtain ⟨hcall, hnew, hle, hsame⟩ := hholds
      exact h.setPc ⟨hcall, hnew, hle, hsame, v, hallowed block old n hpc, rfl⟩
    · cases hstep
  | blockFails i =>
    simp only [State.step] at hstep
    split at hstep
    · cases hstep
      exact h.setPc trivial
    · cases hstep

end Invariant

/-! ## Every run -/

variable [DecidableEq V] {none init : V} {answers : B → V → Option V → Prop}

theorem inv_of_reach {s : State V B}
    (h : (machine none init).Reach (Allowed answers) s) : Inv none answers init s := by
  refine h.invariant ?_ fun s a t _ hinv hallowed hstep => hinv.step hallowed hstep
  rintro s rfl
  exact ⟨.empty, fun i op hcall => by cases hcall⟩

/-- **The calls take effect one at a time**, on the cell as it is then; a `swap:` that
finds another value than it read has lost against a call that took effect since. -/
theorem atom_linearizable {s : State V B}
    (h : (machine none init).Reach (Allowed answers) s) :
    Linearizes (atom none init answers) s.history s.effects s.cell ∧
      ∀ i block old neu n, s.pcs i = .ready block old neu n → s.cell ≠ old →
        n < s.writes := by
  have hinv := inv_of_reach h
  refine ⟨hinv.linearizes, fun i block old neu n hpc hlost => ?_⟩
  have hholds := hinv.holds i
  rw [hpc] at hholds
  obtain ⟨-, -, hle, hsame, -⟩ := hholds
  exact Nat.lt_of_le_of_ne hle fun heq => hlost (hsame heq)

/-- Two `swap:`s add to the cell; the first to read is the second to write. -/
def lostRace : List (Action Nat Nat) :=
  [.call 0 (.swap 5), .call 1 (.swap 3), .next 0, .next 1, .blockAnswers 1 (some 3), .next 1,
    .blockAnswers 0 (some 5)]

theorem atom_linearizable_lost :
    ∃ s, (machine 9 0).exec ⟨0, fun _ => .idle, 0, [], []⟩ lostRace = some s ∧ s.cell = 3 ∧
      Linearizes (atom 9 0 fun b v a => a = some (v + b)) s.history s.effects s.cell ∧
      ∀ i block old neu n, s.pcs i = .ready block old neu n → s.cell ≠ old →
        n < s.writes := by
  let okb : State Nat Nat → Action Nat Nat → Bool := fun s a =>
    match a with
    | .blockAnswers i v =>
      match s.pcs i with
      | .running b old _ => v = some (old + b)
      | _ => true
    | _ => true
  have hok : ∀ s a, okb s a = true → Allowed (fun b v a => a = some (v + b)) s a := by
    intro s a hokb
    cases a with
    | blockAnswers i v =>
      intro b old n hpc
      simpa [okb, hpc] using hokb
    | _ => trivial
  have hreach : (machine 9 0).Reach (Allowed fun b v a => a = some (v + b)) _ :=
    Machine.reach_of_execOk okb hok (Machine.Reach.init rfl)
      (rfl : (machine 9 0).execOk okb _ lostRace = some _)
  exact ⟨_, rfl, rfl, atom_linearizable hreach⟩

end ProtoST.Primitives.Atoms

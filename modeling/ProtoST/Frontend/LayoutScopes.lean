import ProtoST.Frontend.Layout
import ProtoST.Frontend.OpenScopes
import ProtoST.Frontend.OperandBound

/-!
# The scope at each instruction

A compiler scope is the table of the names declared so far, with the variables of the inlined
loops around in front of it.  The table only grows, and the loops around an instruction are those
whose scoped locals cover it.

## Main definitions

* `View` — a scope as a table and the loops around.
* `Laid` — a layout of an emission, each instruction in such a scope.

## Main results

* `layNode_lays`, `layAll_lays` — expressions and statements, by induction on the tree.
* `EmittedUnit.recorded` — every code unit.
-/

namespace ProtoST.Frontend

open ProtoST.Lib.Structured ProtoST.Runtime.Bytecode
open Emit (code)

/-! ## Names -/

/-- `shown` of `DebuggerRuntime::frameVariables`. -/
def shown (n : String) : Bool := !n.toList.isEmpty && !(['_', '_'].isPrefixOf n.toList)

theorem shown_hidden {base : String} (h : ['_', '_'].isPrefixOf base.toList = true) (n : Nat) :
    shown (hidden base n) = false := by
  have hbase : ['_', '_'] <+: (hidden base n).toList := by
    unfold hidden
    rw [String.toList_append]
    exact (List.isPrefixOf_iff_prefix.mp h).trans (List.prefix_append _ _)
  unfold shown
  rw [List.isPrefixOf_iff_prefix.mpr hbase]
  exact Bool.and_false _

theorem mem_of_lookup {α β : Type} [BEq α] [LawfulBEq α] {l : List (α × β)} {a : α} {b : β}
    (h : l.lookup a = some b) : (a, b) ∈ l := by
  obtain ⟨l₁, l₂, rfl, -⟩ := List.lookup_eq_some_iff.mp h
  exact List.mem_append_right _ List.mem_cons_self

/-- The variable an instruction finds through the dictionary of the activation. -/
def capturedName : Flat Op → Option String
  | .op (.pushCaptured x) | .op (.storeCaptured x) | .op (.defineCaptured x) => some x
  | _ => none

/-! ## Scopes as tables -/

/-- The variables of the inlined loops around, innermost first, with their counters. -/
abbrev Loops := List (String × Nat)

/-- The slots of the names declared so far. -/
abbrev Table := String → Option Nat

/-- What does not change in the scope of a code unit. -/
structure Setting where
  enclosing : List Scope
  captured : List String
  isMethod : Bool

/-- The name lives in a dictionary, loops apart. -/
def Setting.Caught (S : Setting) (D : Table) (x : String) : Prop :=
  x ∈ S.captured ∨ D x = none ∧ S.isMethod = false ∧ capturedIn S.enclosing x = true

/-- The name of the `k`-th counter. -/
abbrev counter (k : Nat) : String := hidden "__td_i_" k

theorem shown_counter (k : Nat) : shown (counter k) = false := shown_hidden (by decide) k

/-- No variable of the program is named like a counter: each is in the slot of its number. -/
def Table.Own (D : Table) : Prop := ∀ k slot, D (counter k) = some slot → slot = k

/-- The loops around have counters of their own. -/
structure Counters (loops : Loops) (D : Table) : Prop where
  distinct : loops.Pairwise fun b c => b.2 ≠ c.2
  declared : ∀ b ∈ loops, D (counter b.2) = some b.2

/-- A scope is a table and the variables of the loops around. -/
structure View (S : Setting) (loops : Loops) (D : Table) (s : Scope) : Prop where
  slots : ∀ x, s.slots.lookup x = (loops.lookup x).or (D x)
  nodup : (s.slots.map Prod.fst).Nodup
  captured : ∀ x, x ∈ s.captured ↔ x ∈ S.captured ∧ loops.lookup x = none
  loopArgs : s.loopArgs = loops.map Prod.fst
  isMethod : s.isMethod = S.isMethod
  fresh : ∀ x slot, D x = some slot → slot < s.nextSlot
  injective : ∀ x y slot, D x = some slot → D y = some slot → x = y
  counters : (∀ b ∈ loops, shown b.1 = true) → D.Own → Counters loops D

/-- Names are added to a table, but none that a loop around binds, and none that is shown and
lives in a dictionary. -/
structure Extends (S : Setting) (loops : Loops) (D E : Table) : Prop where
  keeps : ∀ x slot, D x = some slot → E x = some slot
  added : ∀ x, D x = none → E x ≠ none →
    loops.lookup x = none ∧ (shown x = true → ¬ S.Caught D x)

theorem Table.Own.of_extends {S : Setting} {loops : Loops} {D E : Table} (hE : E.Own)
    (h : Extends S loops D E) : D.Own := fun k slot hD => hE k slot (h.keeps _ slot hD)

section Extends

variable {S : Setting} {loops : Loops} {D E F : Table} {x : String}

theorem Extends.refl (S : Setting) (loops : Loops) (D : Table) : Extends S loops D D :=
  ⟨fun _ _ h => h, fun _ h h' => absurd h h'⟩

theorem Extends.caught_iff (h : Extends S loops D E) (hx : shown x = true) :
    S.Caught E x ↔ S.Caught D x := by
  constructor
  · rintro (hcaptured | ⟨hnone, henclosing⟩)
    · exact .inl hcaptured
    · refine .inr ⟨?_, henclosing⟩
      cases hD : D x with
      | none => rfl
      | some slot => exact absurd hnone (by rw [h.keeps x slot hD]; exact Option.some_ne_none slot)
  · intro hcaught
    have hsame : D x = none → E x = none := fun hD =>
      Decidable.byContradiction fun hE => (h.added x hD hE).2 hx hcaught
    exact hcaught.imp_right fun ⟨hD, henclosing⟩ => ⟨hsame hD, henclosing⟩

theorem Extends.trans (h : Extends S loops D E) (h' : Extends S loops E F) :
    Extends S loops D F := by
  refine ⟨fun x slot hD => h'.keeps x slot (h.keeps x slot hD), fun x hD hF => ?_⟩
  cases hE : E x with
  | none =>
    obtain ⟨hloops, hcaught⟩ := h'.added x hE hF
    exact ⟨hloops, fun hx hD => hcaught hx ((h.caught_iff hx).mpr hD)⟩
  | some slot => exact h.added x hD (by rw [hE]; exact Option.some_ne_none slot)

/-- What grows inside a loop grows around it. -/
theorem Extends.outside {b : String × Nat} (h : Extends S (b :: loops) D E) :
    Extends S loops D E := by
  refine ⟨h.keeps, fun x hD hE => ?_⟩
  obtain ⟨hlookup, hcaught⟩ := h.added x hD hE
  refine ⟨?_, hcaught⟩
  rw [List.lookup_cons] at hlookup
  split at hlookup
  · cases hlookup
  · exact hlookup

end Extends

/-! ## Views -/

section View

variable {S : Setting} {loops : Loops} {D E : Table} {s before : Scope}

theorem View.capturedIn_iff (h : View S loops D s) (x : String) :
    capturedIn (s :: S.enclosing) x = true ↔ loops.lookup x = none ∧ S.Caught D x := by
  have hcaptured : s.captured.contains x = true ↔ x ∈ S.captured ∧ loops.lookup x = none := by
    rw [List.contains_iff_mem]
    exact h.captured x
  rw [capturedIn]
  by_cases hcontains : s.captured.contains x = true
  · rw [if_pos hcontains]
    obtain ⟨hmem, hloops⟩ := hcaptured.mp hcontains
    exact iff_of_true rfl ⟨hloops, .inl hmem⟩
  · rw [if_neg hcontains, h.isMethod]
    have hnot : ¬ (x ∈ S.captured ∧ loops.lookup x = none) := fun hc =>
      hcontains (hcaptured.mpr hc)
    cases hloops : loops.lookup x with
    | some slot =>
      rw [h.slots x, hloops]
      exact iff_of_false Bool.false_ne_true fun hc => by cases hc.1
    | none =>
      have hmem : x ∉ S.captured := fun hc => hnot ⟨hc, hloops⟩
      rw [h.slots x, hloops, Option.none_or]
      unfold Setting.Caught
      cases hD : D x with
      | some slot => simp [hmem]
      | none => cases hmethod : S.isMethod <;> simp [hmem]

theorem View.lookup_none (h : View S loops D s) {x : String} (hx : s.slots.lookup x = none) :
    loops.lookup x = none ∧ D x = none := by
  rw [h.slots x] at hx
  exact Option.or_eq_none_iff.mp hx

theorem nodup_setSlot {slots : List (String × Nat)} (h : (slots.map Prod.fst).Nodup)
    (name : String) (slot : Nat) : ((setSlot slots name slot).map Prod.fst).Nodup := by
  unfold setSlot
  rw [List.map_cons, List.nodup_cons]
  constructor
  · intro hmem
    obtain ⟨b, hb, hname⟩ := List.mem_map.mp hmem
    exact bne_iff_ne.mp (List.mem_filter.mp hb).2 hname
  · exact h.sublist (List.filter_sublist.map Prod.fst)

theorem nodup_eraseSlot {slots : List (String × Nat)} (h : (slots.map Prod.fst).Nodup)
    (name : String) : ((eraseSlot slots name).map Prod.fst).Nodup :=
  h.sublist (List.filter_sublist.map Prod.fst)

/-- A name is declared, if it has no slot. -/
theorem View.declare (h : View S loops D s) (name : String) :
    ∃ E, View S loops E (s.declare name).2 ∧ (∀ x slot, D x = some slot → E x = some slot) ∧
      (∀ x, D x = none → E x ≠ none → x = name ∧ s.slots.lookup name = none) ∧
      (loops.lookup name).or (E name) = some (s.declare name).1 := by
  unfold Scope.declare
  cases hslot : s.slots.lookup name with
  | some slot =>
    refine ⟨D, h, fun _ _ hx => hx, fun x hx hx' => absurd hx hx', ?_⟩
    rw [← h.slots name]
    exact hslot
  | none =>
    obtain ⟨hloops, hD⟩ := h.lookup_none hslot
    let E : Table := fun x => if x = name then some s.nextSlot else D x
    have hself : E name = some s.nextSlot := if_pos rfl
    have hother : ∀ x, x ≠ name → E x = D x := fun x hx => if_neg hx
    have hkeeps : ∀ x slot, D x = some slot → E x = some slot := by
      intro x slot hx
      rw [hother x fun heq => by rw [heq, hD] at hx; cases hx]
      exact hx
    refine ⟨E, ?_, hkeeps, fun x hx hE => ⟨?_, rfl⟩, ?_⟩
    · constructor
      · intro x
        show (setSlot s.slots name s.nextSlot).lookup x = _
        rw [lookup_setSlot]
        by_cases hx : x = name
        · rw [if_pos hx, hx, hloops, hself]
          rfl
        · rw [if_neg hx, hother x hx, h.slots x]
      · exact nodup_setSlot h.nodup name s.nextSlot
      · exact h.captured
      · exact h.loopArgs
      · exact h.isMethod
      · intro x slot hx
        by_cases heq : x = name
        · rw [heq, hself] at hx
          cases hx
          exact Nat.lt_succ_self _
        · rw [hother x heq] at hx
          exact Nat.lt_succ_of_lt (h.fresh x slot hx)
      · intro x y slot hx hy
        by_cases hxname : x = name
        · by_cases hyname : y = name
          · rw [hxname, hyname]
          · rw [hxname, hself] at hx
            rw [hother y hyname] at hy
            cases hx
            exact absurd (h.fresh y _ hy) (Nat.lt_irrefl _)
        · rw [hother x hxname] at hx
          by_cases hyname : y = name
          · rw [hyname, hself] at hy
            cases hy
            exact absurd (h.fresh x _ hx) (Nat.lt_irrefl _)
          · rw [hother y hyname] at hy
            exact h.injective x y slot hx hy
      · intro hshown hown
        have hcounters := h.counters hshown fun k slot hD => hown k slot (hkeeps _ slot hD)
        exact ⟨hcounters.distinct, fun b hb => hkeeps _ _ (hcounters.declared b hb)⟩
    · exact Decidable.byContradiction fun hne => hE (by rw [hother x hne, hx])
    · rw [hloops, hself]
      rfl

/-- A name that does not live in a dictionary, or is not shown, is declared. -/
theorem View.extend (h : View S loops D s) (name : String)
    (hname : s.slots.lookup name = none → shown name = true → ¬ S.Caught D name) :
    ∃ E, View S loops E (s.declare name).2 ∧ Extends S loops D E ∧
      (loops.lookup name).or (E name) = some (s.declare name).1 := by
  obtain ⟨E, hview, hkeeps, hadded, hslot⟩ := h.declare name
  refine ⟨E, hview, ⟨hkeeps, fun x hx hE => ?_⟩, hslot⟩
  obtain ⟨rfl, hnone⟩ := hadded x hx hE
  exact ⟨(h.lookup_none hnone).1, hname hnone⟩

/-- A loop binds its variable to a counter of its own. -/
theorem View.bindLoop (h : View S loops D s) (name : String) (slot : Nat)
    (hcounter : (∀ b ∈ loops, shown b.1 = true) → D.Own →
      (∀ b ∈ loops, slot ≠ b.2) ∧ D (counter slot) = some slot) :
    View S ((name, slot) :: loops) D (s.bindLoop name slot) := by
  have hlookup : ∀ x, ((name, slot) :: loops).lookup x =
      if x = name then some slot else loops.lookup x := by
    intro x
    rw [List.lookup_cons]
    by_cases hx : x = name
    · rw [if_pos hx, beq_iff_eq.mpr hx]
    · rw [if_neg hx, beq_eq_false_iff_ne.mpr hx]
  constructor
  · intro x
    show (setSlot s.slots name slot).lookup x = _
    rw [lookup_setSlot, hlookup, h.slots x]
    by_cases hx : x = name
    · rw [if_pos hx, if_pos hx]
      rfl
    · rw [if_neg hx, if_neg hx]
  · exact nodup_setSlot h.nodup name slot
  · intro x
    show x ∈ s.captured.filter (fun y => y != name) ↔ _
    rw [List.mem_filter, bne_iff_ne, h.captured x, hlookup]
    by_cases hx : x = name
    · rw [if_pos hx]
      exact iff_of_false (fun hc => hc.2 hx) fun hc => by cases hc.2
    · rw [if_neg hx]
      exact and_iff_left hx
  · show name :: s.loopArgs = _
    rw [h.loopArgs]
    rfl
  · exact h.isMethod
  · exact h.fresh
  · exact h.injective
  · intro hshown hown
    have hloops : ∀ b ∈ loops, shown b.1 = true := fun b hb => hshown b (List.mem_cons_of_mem _ hb)
    obtain ⟨hdistinct, hdeclared⟩ := h.counters hloops hown
    obtain ⟨hslot, hnew⟩ := hcounter hloops hown
    refine ⟨List.pairwise_cons.mpr ⟨hslot, hdistinct⟩, fun b hb => ?_⟩
    rcases List.mem_cons.mp hb with rfl | hb
    · exact hnew
    · exact hdeclared b hb

/-- Behind the loop its variable is what it was. -/
theorem View.unbindLoop {name : String} {slot : Nat} (hbefore : View S loops D before)
    (h : View S ((name, slot) :: loops) E s) (hextends : Extends S ((name, slot) :: loops) D E) :
    View S loops E (s.unbindLoop before name) := by
  have hself : ((name, slot) :: loops).lookup name = some slot := List.lookup_cons_self
  have hother : ∀ x, x ≠ name → ((name, slot) :: loops).lookup x = loops.lookup x := by
    intro x hx
    rw [List.lookup_cons, beq_eq_false_iff_ne.mpr hx]
  have hsame : E name = D name := by
    cases hD : D name with
    | some k => exact hextends.keeps name k hD
    | none =>
      refine Decidable.byContradiction fun hE => ?_
      rw [(hextends.added name hD hE).1] at hself
      cases hself
  have hslots : ∀ x, (s.unbindLoop before name).slots.lookup x =
      if x = name then before.slots.lookup name else s.slots.lookup x := by
    intro x
    simp only [Scope.unbindLoop]
    cases before.slots.lookup name with
    | some k => exact lookup_setSlot _ _ _ _
    | none => exact lookup_eraseSlot _ _ _
  have hcaptured : ∀ x, x ∈ (s.unbindLoop before name).captured ↔
      x = name ∧ name ∈ before.captured ∨ x ∈ s.captured := by
    intro x
    show x ∈ (if before.captured.contains name then name :: s.captured else s.captured) ↔ _
    by_cases hname : name ∈ before.captured
    · rw [if_pos (List.contains_iff_mem.mpr hname), List.mem_cons, and_iff_left hname]
    · rw [if_neg fun hc => hname (List.contains_iff_mem.mp hc)]
      exact ⟨.inr, fun hc => hc.resolve_left fun hx => hname hx.2⟩
  constructor
  · intro x
    rw [hslots]
    by_cases hx : x = name
    · rw [if_pos hx, hx, hbefore.slots name, hsame]
    · rw [if_neg hx, h.slots x, hother x hx]
  · simp only [Scope.unbindLoop]
    cases before.slots.lookup name with
    | some k => exact nodup_setSlot h.nodup name k
    | none => exact nodup_eraseSlot h.nodup name
  · intro x
    rw [hcaptured, h.captured x]
    by_cases hx : x = name
    · subst hx
      rw [hself, hbefore.captured x]
      simp
    · rw [hother x hx]
      exact ⟨fun hc => hc.resolve_left fun hname => hx hname.1, .inr⟩
  · show s.loopArgs.tail = _
    rw [h.loopArgs]
    rfl
  · exact h.isMethod
  · exact h.fresh
  · exact h.injective
  · intro hshown hown
    have hcounters := hbefore.counters hshown (hown.of_extends hextends)
    exact ⟨hcounters.distinct, fun b hb => hextends.keeps _ _ (hcounters.declared b hb)⟩

end View

/-! ## Laid out emissions -/

/-- The loops whose scoped locals cover `pc`, innermost first. -/
def Layout.loopsAt (l : Layout) (pc : Nat) : Loops :=
  (l.scopedLocals.filter fun r => r.covers pc).map fun r => (r.name, r.slot)

/-- Each instruction stands in a scope between two tables, with the loops around it, and finds in
a dictionary only what lives there. -/
structure Placed (S : Setting) (loops : Loops) (D E : Table) (l : Layout) : Prop where
  ranges : ∀ r ∈ l.scopedLocals, r.toPc ≤ l.size
  views : ∀ pc i s, l.instrs[pc]? = some (i, s) → ∃ T, Extends S loops D T ∧ Extends S loops T E ∧
    View S (l.loopsAt pc ++ loops) T s
  captured : ∀ i ∈ l.code, ∀ x, capturedName i = some x → shown x = true → S.Caught D x

section Placed

variable {S : Setting} {loops : Loops} {D D' E E' : Table} {s : Scope}

theorem Placed.mono {l : Layout} (h : Placed S loops D' E' l) (hD : Extends S loops D D')
    (hE : Extends S loops E' E) : Placed S loops D E l := by
  refine ⟨h.ranges, fun pc i s hpc => ?_, fun i hi x hx hshown => ?_⟩
  · obtain ⟨T, hDT, hTE, hview⟩ := h.views pc i s hpc
    exact ⟨T, hD.trans hDT, hTE.trans hE, hview⟩
  · exact (hD.caught_iff hshown).mp (h.captured i hi x hx hshown)

theorem Placed.emitted (hview : View S loops D s) {is : FlatCode}
    (hcaptured : ∀ i ∈ is, ∀ x, capturedName i = some x → shown x = true → S.Caught D x) :
    Placed S loops D D (.emitted s is) := by
  refine ⟨fun r hr => (by cases hr), fun pc i s' hpc => ?_, fun i hi => ?_⟩
  · have hmem : (i, s') ∈ is.map fun j => (j, s) := List.mem_of_getElem? hpc
    obtain ⟨j, -, heq⟩ := List.mem_map.mp hmem
    cases heq
    exact ⟨D, .refl S loops D, .refl S loops D, hview⟩
  · rw [Layout.code_emitted] at hi
    exact hcaptured i hi

theorem Layout.loopsAt_left {a : Layout} (b : Layout) {pc : Nat} (hpc : pc < a.size) :
    (a ++ b).loopsAt pc = a.loopsAt pc := by
  have hright : (b.scopedLocals.map (ScopedLocal.shift a.size)).filter (fun r => r.covers pc) =
      [] := by
    rw [List.filter_eq_nil_iff]
    intro r hr
    obtain ⟨r', -, rfl⟩ := List.mem_map.mp hr
    rw [ScopedLocal.covers_iff]
    exact fun hcovers => Nat.not_le_of_lt hpc (Nat.le_trans (Nat.le_add_right _ _) hcovers.1)
  unfold Layout.loopsAt
  rw [Layout.scopedLocals_append, List.filter_append, hright, List.append_nil]

theorem Layout.loopsAt_right {a : Layout} (h : ∀ r ∈ a.scopedLocals, r.toPc ≤ a.size) (b : Layout)
    (pc : Nat) : (a ++ b).loopsAt (a.size + pc) = b.loopsAt pc := by
  have hleft : a.scopedLocals.filter (fun r => r.covers (a.size + pc)) = [] := by
    rw [List.filter_eq_nil_iff]
    intro r hr
    rw [ScopedLocal.covers_iff]
    exact fun hcovers => Nat.not_lt_of_le (h r hr)
      (Nat.lt_of_le_of_lt (Nat.le_add_right _ _) hcovers.2)
  have hcovers : (fun r => ScopedLocal.covers r (a.size + pc)) ∘ ScopedLocal.shift a.size =
      fun r => r.covers pc :=
    funext fun r => r.covers_shift a.size pc
  unfold Layout.loopsAt
  rw [Layout.scopedLocals_append, List.filter_append, hleft, List.nil_append, List.filter_map,
    hcovers, List.map_map]
  rfl

theorem Placed.append {a b : Layout} (ha : Placed S loops D E a) (hb : Placed S loops D E b) :
    Placed S loops D E (a ++ b) := by
  refine ⟨fun r hr => ?_, fun pc i s hpc => ?_, fun i hi => ?_⟩
  · rw [Layout.size_append]
    rcases List.mem_append.mp hr with hr | hr
    · exact Nat.le_trans (ha.ranges r hr) (Nat.le_add_right _ _)
    · obtain ⟨r', hr', rfl⟩ := List.mem_map.mp hr
      exact Nat.add_le_add_left (hb.ranges r' hr') _
  · rw [Layout.instrs_append] at hpc
    by_cases hlt : pc < a.size
    · rw [List.getElem?_append_left hlt] at hpc
      rw [Layout.loopsAt_left b hlt]
      exact ha.views pc i s hpc
    · have hle : a.size ≤ pc := Nat.le_of_not_lt hlt
      rw [List.getElem?_append_right hle] at hpc
      have hpc' := hb.views (pc - a.size) i s hpc
      rw [← Layout.loopsAt_right ha.ranges b, Nat.add_sub_cancel' hle] at hpc'
      exact hpc'
  · rw [Layout.code_append] at hi
    exact (List.mem_append.mp hi).elim (ha.captured i) (hb.captured i)

/-- A loop over the whole piece. -/
theorem Placed.addScopedLocal {l : Layout} {name : String} {slot : Nat}
    (h : Placed S ((name, slot) :: loops) D E l) :
    Placed S loops D E (l.addScopedLocal slot name) := by
  refine ⟨fun r hr => ?_, fun pc i s hpc => ?_, h.captured⟩
  · rcases List.mem_append.mp hr with hr | hr
    · exact h.ranges r hr
    · cases List.mem_singleton.mp hr
      exact Nat.le_refl _
  · obtain ⟨T, hDT, hTE, hview⟩ := h.views pc i s hpc
    have hlt : pc < l.size := (List.getElem?_eq_some_iff.mp hpc).1
    have hcovers : ([⟨slot, name, 0, l.size⟩] : List ScopedLocal).filter (fun r => r.covers pc) =
        [⟨slot, name, 0, l.size⟩] := by
      rw [List.filter_cons_of_pos, List.filter_nil]
      rw [ScopedLocal.covers_iff]
      exact ⟨Nat.zero_le pc, hlt⟩
    have hloops : (l.addScopedLocal slot name).loopsAt pc = l.loopsAt pc ++ [(name, slot)] := by
      unfold Layout.loopsAt Layout.addScopedLocal
      rw [List.filter_append, hcovers, List.map_append]
      rfl
    refine ⟨T, hDT.outside, hTE.outside, ?_⟩
    rw [hloops, List.append_assoc]
    exact hview

end Placed

/-- A layout of what is emitted: the same code and the same compiler state, from one table to a
larger one. -/
structure Laid (S : Setting) (loops : Loops) (st : Emitter) (D : Table) (l : Layout × Emitter)
    (e : Code × Emitter) (E : Table) : Prop where
  code : l.1.code = flatten e.1
  state : l.2 = e.2
  view : View S loops E l.2.scope
  extend : Extends S loops D E
  placed : Placed S loops D E l.1

/-- `Laid` from every compiler state. -/
def Lays (S : Setting) (l : Lay) (e : Emit) : Prop :=
  ∀ loops D st, View S loops D st.scope → ∃ E, Laid S loops st D (l st) (e st) E

section Lays

variable {S : Setting} {loops : Loops} {D E F : Table} {st : Emitter}

theorem Laid.seq {a b : Lay} {a' b' : Emit} (ha : Laid S loops st D (a st) (a' st) E)
    (hb : Laid S loops (a st).2 E (b (a st).2) (b' (a st).2) F) :
    Laid S loops st D ((a ++ b) st) ((a' ++ b') st) F := by
  have hstate : (b' (a st).2) = b' (a' st).2 := by rw [ha.state]
  constructor
  · show ((a st).1 ++ (b (a st).2).1).code = flatten ((a' st).1 ++ (b' (a' st).2).1)
    rw [Layout.code_append, flatten_append, ha.code, hb.code, hstate]
  · show (b (a st).2).2 = (b' (a' st).2).2
    rw [← hstate]
    exact hb.state
  · exact hb.view
  · exact ha.extend.trans hb.extend
  · exact (ha.placed.mono (.refl S loops D) hb.extend).append
      (hb.placed.mono ha.extend (.refl S loops F))

theorem Lays.seq {a b : Lay} {a' b' : Emit} (ha : Lays S a a') (hb : Lays S b b') :
    Lays S (a ++ b) (a' ++ b') := by
  intro loops D st hview
  obtain ⟨E, ha⟩ := ha loops D st hview
  obtain ⟨F, hb⟩ := hb loops E (a st).2 ha.view
  exact ⟨F, ha.seq hb⟩

/-- Emission that leaves the scope. -/
theorem Laid.of {e : Emit} (hview : View S loops D st.scope) (hscope : (e st).2.scope = st.scope)
    (hcaptured : ∀ i ∈ flatten (e st).1, ∀ x, capturedName i = some x → shown x = true →
      S.Caught D x) : Laid S loops st D (Lay.of e st) (e st) D :=
  { code := Layout.code_emitted _ _
    state := rfl
    view := by
      show View S loops D (e st).2.scope
      rw [hscope]
      exact hview
    extend := .refl S loops D
    placed := .emitted hview hcaptured }

/-- Code without an access to a dictionary. -/
abbrev Plain (c : Code) : Prop := (flatten c).all (fun i => (capturedName i).isNone) = true

theorem Plain.captured {c : Code} (h : Plain c) : ∀ i ∈ flatten c, ∀ x, capturedName i = some x →
    shown x = true → S.Caught D x := by
  intro i hi x hx
  have hnone := List.all_eq_true.mp h i hi
  rw [hx] at hnone
  cases hnone

theorem Lays.of {e : Emit} (hscope : ∀ st, (e st).2.scope = st.scope)
    (hplain : ∀ st, Plain (e st).1) : Lays S (.of e) e := fun _ D st hview =>
  ⟨D, .of hview (hscope st) (hplain st).captured⟩

theorem Lays.code {c : Code} (h : Plain c) : Lays S (.of (code c)) (code c) :=
  .of (fun _ => rfl) fun _ => h

theorem Lays.fail {e : CompileError} {c : Code} (h : Plain c) :
    Lays S (.of (.fail e c)) (.fail e c) :=
  .of (fun _ => rfl) fun _ => h

theorem Lays.reading {k : Scope → Lay} {k' : Scope → Emit}
    (h : ∀ scope, Lays S (k scope) (k' scope)) :
    Lays S (.reading k) (.reading k') := fun loops D st hview => by
  obtain ⟨E, hlaid⟩ := h st.scope loops D st hview
  exact ⟨E, hlaid⟩

/-- Behind a declaration. -/
theorem Laid.declaring {ctx : Context} {name : String} {k : Slot → Lay} {k' : Slot → Emit}
    (hextend : Extends S loops D E)
    (h : Laid S loops (st.declareLocal ctx name).2 E
      (k (st.declareLocal ctx name).1 (st.declareLocal ctx name).2)
      (k' (st.declareLocal ctx name).1 (st.declareLocal ctx name).2) F) :
    Laid S loops st D (Lay.declaring ctx name k st) (Emit.declaring ctx name k' st) F :=
  { code := h.code
    state := h.state
    view := h.view
    extend := hextend.trans h.extend
    placed := h.placed.mono hextend (.refl S loops F) }

theorem not_shown_of_hidden {base : String} (h : ['_', '_'].isPrefixOf base.toList = true) (n : Nat)
    {P : Prop} (hshown : shown (hidden base n) = true) : P := by
  rw [shown_hidden h] at hshown
  cases hshown

theorem Lays.declaring {ctx : Context} {base : String} {n : Nat} {k : Slot → Lay}
    {k' : Slot → Emit} (hbase : ['_', '_'].isPrefixOf base.toList = true)
    (h : ∀ s, Lays S (k s) (k' s)) :
    Lays S (.declaring ctx (hidden base n) k) (.declaring ctx (hidden base n) k') := by
  intro loops D st hview
  obtain ⟨E, hdeclared, hextend, -⟩ :=
    hview.extend (hidden base n) fun _ => not_shown_of_hidden hbase n
  obtain ⟨F, hlaid⟩ := h (st.declareLocal ctx (hidden base n)).1 loops E
    (st.declareLocal ctx (hidden base n)).2 hdeclared
  exact ⟨F, .declaring hextend hlaid⟩

theorem Placed.jump (hview : View S loops D st.scope) (i : Flat Op)
    (hi : capturedName i = none) : Placed S loops D D (.emitted st.scope [i]) := by
  refine .emitted hview fun j hj x hx => ?_
  cases List.mem_singleton.mp hj
  rw [hi] at hx
  cases hx

theorem Lays.skipIf {a : Lay} {a' : Emit} (ha : Lays S a a') (sense : Bool) :
    Lays S (.skipIf sense a) (a'.wrap fun c => [.skipIf sense c]) := by
  intro loops D st hview
  obtain ⟨E, ha⟩ := ha loops D st hview
  refine ⟨E, ⟨Layout.code_skipIf ha.code sense _, ha.state, ha.view, ha.extend, ?_⟩⟩
  exact ((Placed.jump hview _ rfl).mono (.refl S loops D) ha.extend).append ha.placed

theorem Lays.branch {a b : Lay} {a' b' : Emit} (ha : Lays S a a') (hb : Lays S b b')
    (sense : Bool) :
    Lays S (.branch sense a b) (a'.wrap₂ b' fun f t => [.branch sense f t]) := by
  intro loops D st hview
  obtain ⟨E, ha⟩ := ha loops D st hview
  obtain ⟨F, hb⟩ := hb loops E (a st).2 ha.view
  have hstate : b' (a st).2 = b' (a' st).2 := by rw [ha.state]
  have htarget : (b (a st).2).1.code = flatten (b' (a' st).2).1 := by rw [hb.code, hstate]
  have hlast : (b (a st).2).2 = (b' (a' st).2).2 := by rw [hb.state, hstate]
  refine ⟨F, ⟨Layout.code_branch ha.code htarget sense _ _, hlast, hb.view,
    ha.extend.trans hb.extend, ?_⟩⟩
  have hrefl := Extends.refl S loops F
  have hfirst := (Placed.jump hview (.jumpIf sense ((a st).1.size + 1)) rfl).mono
    (.refl S loops D) (ha.extend.trans hb.extend)
  have hsecond := (Placed.jump ha.view (.jump (b (a st).2).1.size) rfl).mono ha.extend hb.extend
  exact hfirst.append ((ha.placed.mono (.refl S loops D) hb.extend).append
    (hsecond.append (hb.placed.mono ha.extend hrefl)))

theorem Lays.loop {a b : Lay} {a' b' : Emit} (ha : Lays S a a') (hb : Lays S b b')
    (sense : Bool) :
    Lays S (.loop a sense b) (a'.wrap₂ b' fun t c => [.loop t sense c]) := by
  intro loops D st hview
  obtain ⟨E, ha⟩ := ha loops D st hview
  obtain ⟨F, hb⟩ := hb loops E (a st).2 ha.view
  have hstate : b' (a st).2 = b' (a' st).2 := by rw [ha.state]
  have hbody : (b (a st).2).1.code = flatten (b' (a' st).2).1 := by rw [hb.code, hstate]
  have hlast : (b (a st).2).2 = (b' (a' st).2).2 := by rw [hb.state, hstate]
  refine ⟨F, ⟨Layout.code_loop ha.code hbody sense _ _, hlast, hb.view,
    ha.extend.trans hb.extend, ?_⟩⟩
  have hrefl := Extends.refl S loops F
  have hexit := (Placed.jump ha.view (.jumpIf sense ((b (a st).2).1.size + 1)) rfl).mono
    ha.extend hb.extend
  have hback := (Placed.jump hb.view
    (.jumpBack ((a st).1.size + (b (a st).2).1.size + 2)) rfl).mono
    (ha.extend.trans hb.extend) hrefl
  exact (ha.placed.mono (.refl S loops D) hb.extend).append
    (hexit.append ((hb.placed.mono ha.extend hrefl).append hback))

/-- A loop whose variable is bound to a counter of its own. -/
theorem Laid.bound {l : Lay} {e : Emit} {name : String} {slot : Nat}
    (hview : View S loops D st.scope)
    (h : Laid S ((name, slot) :: loops) (st.setScope (st.scope.bindLoop name slot)) D
      (l (st.setScope (st.scope.bindLoop name slot)))
      (e (st.setScope (st.scope.bindLoop name slot))) E) :
    Laid S loops st D (Lay.bound name slot l st) (emitBound name slot e st) E :=
  { code := h.code
    state := by
      show Emitter.setScope _ _ = Emitter.setScope _ _
      rw [h.state]
    view := hview.unbindLoop h.view h.extend
    extend := h.extend.outside
    placed := h.placed.addScopedLocal }

end Lays

/-! ## The pieces of a scope -/

section Pieces

variable {S : Setting} {ctx : Context}

theorem isCaptured_iff (hctx : ctx.enclosing = S.enclosing) {loops : Loops} {D : Table}
    {scope : Scope} (hview : View S loops D scope) (x : String) :
    isCaptured ctx scope x = true ↔ loops.lookup x = none ∧ S.Caught D x := by
  unfold isCaptured scopes
  rw [hctx]
  exact hview.capturedIn_iff x

theorem lays_load (hctx : ctx.enclosing = S.enclosing) (x : String) :
    Lays S (.of (emitLoad ctx x)) (emitLoad ctx x) := by
  intro loops D st hview
  have hscope : (emitLoad ctx x st).2.scope = st.scope := by
    unfold emitLoad Emit.reading
    dsimp only
    cases loadTarget ctx st.scope x with
    | instVar =>
      dsimp only
      split <;> rfl
    | _ => rfl
  refine ⟨D, .of hview hscope ?_⟩
  unfold emitLoad Emit.reading
  dsimp only
  cases htarget : loadTarget ctx st.scope x with
  | captured =>
    intro i hi y hy _
    cases List.mem_singleton.mp hi
    cases hy
    have hcaptured : isCaptured ctx st.scope x = true := by
      unfold loadTarget at htarget
      split at htarget
      · assumption
      · repeat' split at htarget
        all_goals cases htarget
    exact ((isCaptured_iff hctx hview x).mp hcaptured).2
  | instVar =>
    dsimp only
    split <;> exact Plain.captured rfl
  | rejected | slot | classVar | global | fresh => exact Plain.captured rfl

theorem storeTarget_captured {scope : Scope} {x : String}
    (h : storeTarget ctx scope x = .captured) : isCaptured ctx scope x = true := by
  unfold storeTarget at h
  split at h
  · cases h
  split at h
  · assumption
  · repeat' split at h
    all_goals cases h

theorem storeTarget_fresh {scope : Scope} {x : String} (h : storeTarget ctx scope x = .fresh) :
    isCaptured ctx scope x = false := by
  unfold storeTarget at h
  split at h
  · cases h
  split at h
  · split at h <;> cases h
  · rename_i hcaptured
    exact Bool.eq_false_iff.mpr hcaptured

/-- Behind code, an access to a name that lives in a dictionary. -/
theorem Laid.seq_code {loops : Loops} {D E : Table} {st : Emitter} {a : Lay} {a' : Emit} {c : Code}
    (ha : Laid S loops st D (a st) (a' st) E)
    (hc : ∀ i ∈ flatten c, ∀ x, capturedName i = some x → shown x = true → S.Caught D x) :
    Laid S loops st D ((a ++ Lay.of (Emit.code c)) st) ((a' ++ Emit.code c) st) E :=
  ha.seq (.of ha.view rfl fun i hi x hx hshown =>
    (ha.extend.caught_iff hshown).mpr (hc i hi x hx hshown))

theorem lays_store (hctx : ctx.enclosing = S.enclosing) (stmt : Bool) (x : String) {value : Lay}
    {value' : Emit} (hvalue : Lays S value value') :
    Lays S (layStore ctx stmt x value) (emitStore ctx stmt x value') := by
  intro loops D st hview
  unfold layStore emitStore Lay.reading Emit.reading
  dsimp only
  cases htarget : storeTarget ctx st.scope x with
  | rejected e =>
    refine (Lays.fail ?_) loops D st hview
    cases stmt <;> rfl
  | captured =>
    have hcaught := ((isCaptured_iff hctx hview x).mp (storeTarget_captured htarget)).2
    obtain ⟨E, hlaid⟩ := hvalue loops D st hview
    refine ⟨E, hlaid.seq_code fun i hi y hy _ => ?_⟩
    rcases List.mem_cons.mp hi with rfl | hi
    · cases hy
    · cases List.mem_singleton.mp hi
      cases hy
      exact hcaught
  | fresh =>
    have hcaptured := storeTarget_fresh htarget
    obtain ⟨E, hdeclared, hextend, -⟩ := hview.extend x fun hslot _ hcaught => by
      rw [(isCaptured_iff hctx hview x).mpr ⟨(hview.lookup_none hslot).1, hcaught⟩] at hcaptured
      cases hcaptured
    have hseq : Lays S (value ++ .of (code [.op .dup, .op (.storeLocal
        (st.declareLocal ctx x).1)])) (value' ++ code [.op .dup, .op (.storeLocal
        (st.declareLocal ctx x).1)]) := hvalue.seq (.code (by rfl))
    obtain ⟨F, hlaid⟩ := hseq loops E (st.declareLocal ctx x).2 hdeclared
    exact ⟨F, .declaring hextend hlaid⟩
  | slot | instVar | classVar | global => exact (hvalue.seq (.code (by rfl))) loops D st hview

theorem lays_if (selector : String) (invert : Bool) {cond body : Lay} {cond' body' : Emit}
    (hcond : Lays S cond cond') (hbody : Lays S body body') :
    Lays S (layIf selector invert cond body) (emitIf selector invert cond' body') :=
  (hcond.seq (.code (by rfl))).seq (hbody.branch (.code (by rfl)) invert)

theorem lays_ifElse (selector : String) {cond t f : Lay} {cond' t' f' : Emit}
    (hcond : Lays S cond cond') (ht : Lays S t t') (hf : Lays S f f') :
    Lays S (layIfElse selector cond t f) (emitIfElse selector cond' t' f') :=
  (hcond.seq (.code (by rfl))).seq (ht.branch hf false)

theorem lays_while (selector : String) (invert : Bool) {cond body : Lay} {cond' body' : Emit}
    (hcond : Lays S cond cond') (hbody : Lays S body body') :
    Lays S (layWhile selector invert cond body) (emitWhile selector invert cond' body') :=
  ((hcond.seq (.code (by rfl))).loop (hbody.seq (.code (by rfl))) invert).seq (.code (by rfl))

theorem lays_toDo (name : String) {start stop body : Lay} {start' stop' body' : Emit}
    (hstart : Lays S start start') (hstop : Lays S stop stop') (hbody : Lays S body body') :
    Lays S (layToDo ctx name start stop body) (emitToDo ctx name start' stop' body') := by
  intro loops D st hview
  obtain ⟨E₁, hview₁, hextend₁, hslot⟩ := hview.extend (counter st.scope.nextSlot)
    fun _ => not_shown_of_hidden (by decide) _
  let st₁ := (st.declareLocal ctx (counter st.scope.nextSlot)).2
  let slotI := (st.declareLocal ctx (counter st.scope.nextSlot)).1
  obtain ⟨E₂, hview₂, hextend₂, -⟩ := hview₁.extend
    (hidden "__td_end_" st.scope.nextSlot) fun _ => not_shown_of_hidden (by decide) _
  let st₂ := (st₁.declareLocal ctx (hidden "__td_end_" st.scope.nextSlot)).2
  let slotEnd := (st₁.declareLocal ctx (hidden "__td_end_" st.scope.nextSlot)).1
  have hbounds : Lays S
      (start ++ .of (code [.op .dup, .op (.storeLocal slotI)]) ++ stop
        ++ .of (code [.op (.storeLocal slotEnd)]))
      (start' ++ code [.op .dup, .op (.storeLocal slotI)] ++ stop'
        ++ code [.op (.storeLocal slotEnd)]) :=
    ((hstart.seq (.code (by rfl))).seq hstop).seq (.code (by rfl))
  obtain ⟨E₃, hlaid₃⟩ := hbounds loops E₂ st₂ hview₂
  have hextend := (hextend₁.trans hextend₂).trans hlaid₃.extend
  -- the counter is a new slot, and the loops around have theirs from before
  have hbind := hlaid₃.view.bindLoop name slotI.index fun hshown hown => by
    have hnone : loops.lookup (counter st.scope.nextSlot) = none := by
      cases hloop : loops.lookup (counter st.scope.nextSlot) with
      | none => rfl
      | some slot =>
        exact not_shown_of_hidden (by decide) _ (hshown _ (mem_of_lookup hloop))
    rw [hnone] at hslot
    have hcounter : E₃ (counter st.scope.nextSlot) = some slotI.index :=
      (hextend₂.trans hlaid₃.extend).keeps _ _ hslot
    have hindex : slotI.index = st.scope.nextSlot := hown _ _ hcounter
    have hcounters := hview.counters hshown (hown.of_extends hextend)
    refine ⟨fun b hb heq => ?_, by rw [hindex] at hcounter ⊢; exact hcounter⟩
    have hfresh := hview.fresh _ _ (hcounters.declared b hb)
    rw [← heq, hindex] at hfresh
    exact Nat.lt_irrefl _ hfresh
  have hloop : Lays S
      (.loop (.of (code [.op (.pushLocal slotI), .op (.pushLocal slotEnd), .op (.binInt .le)]))
        false
        (body ++ .of (code [.op .pop, .op (.pushLocal slotI), .op (.pushConst (.integer 1)),
          .op (.binInt .add), .op (.storeLocal slotI)])))
      ((code [.op (.pushLocal slotI), .op (.pushLocal slotEnd), .op (.binInt .le)]).wrap₂
        (body' ++ code [.op .pop, .op (.pushLocal slotI), .op (.pushConst (.integer 1)),
          .op (.binInt .add), .op (.storeLocal slotI)]) fun t c => [.loop t false c]) :=
    Lays.loop (.code (by rfl)) (hbody.seq (.code (by rfl))) false
  obtain ⟨E₄, hlaid₄⟩ := hloop _ E₃ (Emitter.setScope _ (Scope.bindLoop _ name slotI.index)) hbind
  refine ⟨E₄, ?_⟩
  unfold layToDo emitToDo Lay.reading Emit.reading
  exact .declaring hextend₁ (.declaring hextend₂ (hlaid₃.seq (.bound hlaid₃.view hlaid₄)))

theorem lays_doYielding {receiver block : Lay} {receiver' block' : Emit}
    (hreceiver : Lays S receiver receiver') (hblock : Lays S block block') :
    Lays S (layDoYielding ctx receiver block) (emitDoYielding ctx receiver' block') :=
  .reading fun _ => .declaring (by decide) fun _ => .declaring (by decide) fun _ =>
    .declaring (by decide) fun _ => .declaring (by decide) fun _ =>
      ((hreceiver.seq (.code (by rfl))).seq hblock).seq (.code (by rfl))

/-- An argument as an expression, and as the body of an inlined block. -/
structure LaysArg (S : Setting) (a : ArgLay) (a' : ArgEmit) : Prop where
  expr : Lays S a.expr a'.expr
  body : Lays S a.body a'.body

theorem lays_exprs {args : List ArgLay} {args' : List ArgEmit}
    (h : List.Forall₂ (LaysArg S) args args') : Lays S (layExprs args) (emitExprs args') := by
  induction h with
  | nil => exact .code (by rfl)
  | cons ha _ ih => exact ha.expr.seq ih

theorem plain_sendOp (isSuper : Bool) (kind : SendKind) (selector : String) :
    Plain [sendOp isSuper kind selector] := rfl

theorem plain_binaryOp (isSuper : Bool) (o : Operator) : Plain [binaryOp isSuper o] := by
  unfold binaryOp
  split
  · rfl
  · split <;> rfl

theorem lays_keyword {r : Node} {parts : List (Ident × Node)} {receiver : ArgLay}
    {receiver' : ArgEmit} {args : List ArgLay} {args' : List ArgEmit}
    (hreceiver : LaysArg S receiver receiver') (hargs : List.Forall₂ (LaysArg S) args args') :
    Lays S (layKeyword ctx r parts receiver args) (emitKeyword ctx r parts receiver' args') := by
  have hsend : Lays S (receiver.expr ++ layExprs args
      ++ .of (code [sendOp r.isSuper .keyword (keywordSelector (parts.map Prod.fst))]))
      (receiver'.expr ++ emitExprs args'
      ++ code [sendOp r.isSuper .keyword (keywordSelector (parts.map Prod.fst))]) :=
    (hreceiver.expr.seq (lays_exprs hargs)).seq (.code (plain_sendOp _ _ _))
  unfold layKeyword emitKeyword
  cases hargs with
  | nil =>
    rcases parts with - | ⟨⟨k, n⟩, - | ⟨⟨k', n'⟩, - | ⟨p, rest⟩⟩⟩ <;> exact hsend
  | cons ha htail =>
    cases htail with
    | nil =>
      rcases parts with - | ⟨⟨k, n⟩, - | ⟨⟨k', n'⟩, - | ⟨p, rest⟩⟩⟩
      · exact hsend
      · dsimp only
        split
        · exact lays_doYielding hreceiver.expr ha.expr
        · split
          · split
            · exact lays_if _ _ hreceiver.expr ha.body
            · exact lays_while _ _ hreceiver.body ha.body
          · exact hsend
      · exact hsend
      · exact hsend
    | cons hb hrest =>
      cases hrest with
      | nil =>
        rcases parts with - | ⟨⟨k, n⟩, - | ⟨⟨k', n'⟩, - | ⟨p, rest⟩⟩⟩
        · exact hsend
        · exact hsend
        · dsimp only
          split
          · split
            · exact lays_toDo _ hreceiver.expr ha.expr hb.body
            · split
              · exact lays_ifElse _ hreceiver.expr hb.body ha.body
              · exact lays_ifElse _ hreceiver.expr ha.body hb.body
          · exact hsend
        · exact hsend
      | cons _ _ =>
        rcases parts with - | ⟨⟨k, n⟩, - | ⟨⟨k', n'⟩, - | ⟨p, rest⟩⟩⟩ <;> exact hsend

theorem lays_popBetween (last : Bool) : Lays S (.of (popBetween last)) (popBetween last) := by
  cases last <;> exact .code (by rfl)

theorem lays_groupWrite (x : String) (position count : Nat) {value : Lay} {value' : Emit}
    (hvalue : Lays S value value') :
    Lays S (layGroupWrite x position count value) (emitGroupWrite x position count value') := by
  refine hvalue.seq (.of (e := emitGroupWrite x position count (code [])) (fun _ => rfl)
    fun st => ?_)
  show Plain [_]
  unfold Plain
  split <;> rfl

theorem lays_turn (group : Nat × Nat) (n : Node) (rest : List Node) {stmt value : Lay}
    {stmt' value' : Emit} {next : Nat × Nat → Lay} {next' : Nat × Nat → Emit}
    (hstmt : Lays S stmt stmt') (hvalue : Lays S value value')
    (hnext : ∀ g, Lays S (next g) (next' g)) :
    Lays S (layTurn ctx group n rest stmt value next)
      (emitTurn ctx group n rest stmt' value' next') := by
  refine .reading fun scope => ?_
  have hplain : Lays S (stmt ++ .of (popBetween rest.isEmpty) ++ next (0, 0))
      (stmt' ++ popBetween rest.isEmpty ++ next' (0, 0)) :=
    (hstmt.seq (lays_popBetween _)).seq (hnext _)
  generalize (if group.2 = 0 then (0, groupRun ctx scope (n :: rest)) else group) = g
  obtain ⟨position, count⟩ := g
  cases n with
  | assignment x v =>
    cases count with
    | zero => exact hplain
    | succ count =>
      dsimp only
      split
      · exact (lays_groupWrite x _ _ hvalue).seq (hnext _)
      · exact ((lays_groupWrite x _ _ hvalue).seq (lays_popBetween _)).seq (hnext _)
  | _ => exact hplain

end Pieces

/-! ## The syntax tree -/

mutual

/-- **Expressions and statements** are laid out in their scopes. -/
theorem layNode_lays {S : Setting} {ctx : Context} (hctx : ctx.enclosing = S.enclosing)
    (stmt : Bool) : ∀ n, Lays S (layNode ctx stmt n) (emitNode ctx stmt n)
  | .literal _ | .trueLit | .falseLit | .nilLit | .self | .super => .code (by rfl)
  | .thisContext => .fail (by rfl)
  | .identifier x => lays_load hctx x
  | .assignment x v => lays_store hctx stmt x (layNode_lays hctx false v)
  | .unarySend r _ => (layNode_lays hctx false r).seq (.code (plain_sendOp _ _ _))
  | .binarySend r o a =>
    ((layNode_lays hctx false r).seq (layNode_lays hctx false a)).seq (.code (plain_binaryOp _ o))
  | .keywordSend r parts =>
    lays_keyword ⟨layNode_lays hctx false r, layInlinedBlockBody_lays hctx r⟩
      (layParts_lays hctx parts)
  | .callSend r _ ps ns => by
    rw [layNode, emitNode]
    split
    · exact .fail (by rfl)
    · exact (((layNode_lays hctx false r).seq (layArgs_lays hctx ps)).seq
        (lays_exprs (layParts_lays hctx ns))).seq (.code (by rfl))
  | .cascade r ms =>
    (layNode_lays hctx false r).seq <| .reading fun _ => .declaring (by decide) fun tmp =>
      layPartials_lays hctx r.isSuper tmp ms
  | .arrayLit es => (layArgs_lays hctx es).seq (.code (by rfl))
  | .block _ _ _ => .of (fun _ => rfl) fun _ => rfl
  | .ret v => by
    cases stmt with
    | false => exact .fail (by rfl)
    | true => exact (layNode_lays hctx false v).seq (.code (by rfl))

theorem layArgs_lays {S : Setting} {ctx : Context} (hctx : ctx.enclosing = S.enclosing) :
    ∀ ns, Lays S (layArgs ctx ns) (emitArgs ctx ns)
  | [] => .code (by rfl)
  | n :: rest => (layNode_lays hctx false n).seq (layArgs_lays hctx rest)

theorem layParts_lays {S : Setting} {ctx : Context} (hctx : ctx.enclosing = S.enclosing) :
    ∀ parts, List.Forall₂ (LaysArg S) (layParts ctx parts) (emitParts ctx parts)
  | [] => .nil
  | (_, n) :: rest =>
    .cons ⟨layNode_lays hctx false n, layInlinedBlockBody_lays hctx n⟩ (layParts_lays hctx rest)

theorem layPartial_lays {S : Setting} {ctx : Context} (hctx : ctx.enclosing = S.enclosing)
    (isSuper : Bool) : ∀ m, Lays S (layPartial ctx isSuper m) (emitPartial ctx isSuper m)
  | .unary _ _ => .code (plain_sendOp _ _ _)
  | .binary _ a => (layNode_lays hctx false a).seq (.code (plain_sendOp _ _ _))
  | .keyword parts =>
    (lays_exprs (layParts_lays hctx parts)).seq (.code (plain_sendOp _ _ _))
  | .call _ _ _ => .fail (by rfl)

theorem layPartials_lays {S : Setting} {ctx : Context} (hctx : ctx.enclosing = S.enclosing)
    (isSuper : Bool) (tmp : Slot) :
    ∀ ms, Lays S (layPartials ctx isSuper tmp ms) (emitPartials ctx isSuper tmp ms)
  | [] => .code (by rfl)
  | m :: rest => by
    refine (((Lays.code (by rfl)).seq (layPartial_lays hctx isSuper m)).seq (.code ?_)).seq
      (layPartials_lays hctx isSuper tmp rest)
    cases rest <;> rfl

theorem layInlinedBlockBody_lays {S : Setting} {ctx : Context}
    (hctx : ctx.enclosing = S.enclosing) :
    ∀ n, Lays S (layInlinedBlockBody ctx n) (emitInlinedBlockBody ctx n)
  | .block args locals body => by
    rw [layInlinedBlockBody, emitInlinedBlockBody]
    split
    · exact .code (by rfl)
    · have hinner : { ctx with ivars := without ctx.ivars (args ++ locals) }.enclosing =
          S.enclosing := hctx
      exact layAll_lays hinner (0, 0) body
  | .literal _ | .trueLit | .falseLit | .nilLit | .self | .super | .thisContext | .identifier _
  | .assignment _ _ | .unarySend _ _ | .binarySend _ _ _ | .keywordSend _ _ | .callSend _ _ _ _
  | .cascade _ _ | .arrayLit _ | .ret _ => .code (by rfl)

theorem layValue_lays {S : Setting} {ctx : Context} (hctx : ctx.enclosing = S.enclosing) :
    ∀ n, Lays S (layValue ctx n) (emitValue ctx n)
  | .assignment _ v => layNode_lays hctx false v
  | .literal _ | .trueLit | .falseLit | .nilLit | .self | .super | .thisContext | .identifier _
  | .block _ _ _ | .unarySend _ _ | .binarySend _ _ _ | .keywordSend _ _ | .callSend _ _ _ _
  | .cascade _ _ | .arrayLit _ | .ret _ => .code (by rfl)

/-- **Statement lists** are laid out in their scopes. -/
theorem layAll_lays {S : Setting} {ctx : Context} (hctx : ctx.enclosing = S.enclosing) :
    ∀ group stmts, Lays S (layAll ctx group stmts) (emitAll ctx group stmts)
  | _, [] => .code (by rfl)
  | group, n :: rest =>
    lays_turn group n rest (layNode_lays hctx true n) (layValue_lays hctx n) fun g =>
      layAll_lays hctx g rest

end

/-! ## Top-level forms -/

section Tops

variable {S : Setting} {ctx : Context}

theorem layMethodBody_lays (hctx : ctx.enclosing = S.enclosing) (body : List Node) :
    Lays S (layMethodBody ctx body) (emitMethodBody ctx body) := by
  have hlast : Lays S (.of (if body.getLast?.any Node.isRet then code []
      else (if body.isEmpty then code [] else code [.op .pop])
        ++ code [.op (.pushLocal ⟨ctx.enclosing.length, 0⟩), .op .ret]))
      (if body.getLast?.any Node.isRet then code []
      else (if body.isEmpty then code [] else code [.op .pop])
        ++ code [.op (.pushLocal ⟨ctx.enclosing.length, 0⟩), .op .ret]) := by
    split
    · exact .code (by rfl)
    · split <;> exact .of (fun _ => rfl) fun _ => rfl
  refine Lays.seq ?_ hlast
  split
  · exact .code (by rfl)
  · exact layAll_lays hctx (0, 0) body

theorem layDefaults_lays (hctx : ctx.enclosing = S.enclosing) (named : List (String × Node)) :
    ∀ slot, Lays S (layDefaults ctx slot named) (emitDefaults ctx slot named) := by
  induction named with
  | nil => exact fun _ => .code (by rfl)
  | cons p rest ih =>
    obtain ⟨x, e⟩ := p
    intro slot
    have hdefault : Lays S
        (.skipIf false (layNode ctx false e ++
          .of (code [.op (.storeLocal ⟨ctx.enclosing.length, slot⟩)])))
        ((emitNode ctx false e).wrap fun c =>
          [.skipIf false (c ++ [.op (.storeLocal ⟨ctx.enclosing.length, slot⟩)])]) :=
      ((layNode_lays hctx false e).seq (.code (by rfl))).skipIf false
    exact ((Lays.code (by rfl)).seq hdefault).seq (ih (slot + 1))

theorem layClassDecl_lays (hctx : ctx.enclosing = S.enclosing) (d : ClassDecl) :
    Lays S (layClassDecl ctx d) (emitClassDecl ctx d) := by
  have htail : ∀ isEmpty : Bool, Plain (if isEmpty then [] else stringSend (packed d.instVars)
      "__setInstVarNames:") := fun isEmpty => by cases isEmpty <;> rfl
  have hclass : ∀ c : Code, Plain c → Plain (c ++ classTail d) := by
    intro c hc
    unfold Plain classTail
    rw [flatten_append, List.all_append, hc, flatten_append, flatten_append, List.all_append,
      List.all_append]
    cases d.instVars.isEmpty <;> cases d.classVars.isEmpty <;> rfl
  unfold layClassDecl
  cases hmixins : d.mixins with
  | none =>
    have hemit : emitClassDecl ctx d = code (.op (.pushGlobal d.superName) ::
        (stringSend d.name "__subclassNamed:" ++ stringSend d.name "__setClassName:"
          ++ classTail d)) := by
      unfold emitClassDecl
      rw [hmixins]
    rw [hemit]
    exact .code (hclass (.op (.pushGlobal d.superName) :: (stringSend d.name "__subclassNamed:"
      ++ stringSend d.name "__setClassName:")) rfl)
  | some mixins =>
    unfold emitClassDecl
    rw [hmixins]
    refine (((Lays.code (by rfl)).seq (.code ?_)).seq (layNode_lays hctx false mixins)).seq
      (.code (hclass [_] rfl))
    cases d.instVars.isEmpty <;> rfl

theorem layTop_lays (hctx : ctx.enclosing = S.enclosing) (classes : String → Option ClassScope) :
    ∀ t, Lays S (layTop ctx classes t) (emitTop ctx classes t)
  | .classDecl d => layClassDecl_lays hctx d
  | .methodDecl _ => .of (fun _ => rfl) fun _ => rfl
  | .callMethodDecl _ => .of (fun _ => rfl) fun _ => rfl
  | .statement n => layNode_lays hctx true n

theorem layTops_lays (hctx : ctx.enclosing = S.enclosing) (classes : String → Option ClassScope) :
    ∀ tops, Lays S (layTops ctx classes tops) (emitTops ctx classes tops)
  | [] => .code (by rfl)
  | t :: rest =>
    ((layTop_lays hctx classes t).seq (lays_popBetween _)).seq (layTops_lays hctx classes rest)

end Tops

/-! ## Code units -/

theorem lookup_of_mem {l : List (String × Nat)} (hl : (l.map Prod.fst).Nodup) {b : String × Nat}
    (hb : b ∈ l) : l.lookup b.1 = some b.2 := by
  induction l with
  | nil => cases hb
  | cons c l ih =>
    rw [List.map_cons, List.nodup_cons] at hl
    rcases List.mem_cons.mp hb with rfl | hb
    · exact List.lookup_cons_self
    · have hne : b.1 ≠ c.1 := fun heq => hl.1 (heq ▸ List.mem_map_of_mem hb)
      rw [List.lookup_cons, beq_eq_false_iff_ne.mpr hne]
      exact ih hl.2 hb

section FoldSet

variable {α β : Type} (slot : β → Nat) (name : β → α)

/-- A place that no write is to. -/
theorem foldl_set_untouched {l : List β} {i : Nat} (h : ∀ b ∈ l, slot b ≠ i) (names : List α) :
    (l.foldl (fun names b => names.set (slot b) (name b)) names)[i]? = names[i]? := by
  induction l generalizing names with
  | nil => rfl
  | cons b l ih =>
    rw [List.foldl_cons, ih fun c hc => h c (List.mem_cons_of_mem _ hc)]
    exact List.getElem?_set_ne (h b List.mem_cons_self)

/-- A place that one write is to. -/
theorem foldl_set_written {l : List β} (hl : l.Pairwise fun b c => slot b ≠ slot c) {b : β}
    (hb : b ∈ l) (names : List α) (hlt : slot b < names.length) :
    (l.foldl (fun names b => names.set (slot b) (name b)) names)[slot b]? = some (name b) := by
  induction l generalizing names with
  | nil => cases hb
  | cons c l ih =>
    obtain ⟨hc, hrest⟩ := List.pairwise_cons.mp hl
    rw [List.foldl_cons]
    rcases List.mem_cons.mp hb with rfl | hb
    · rw [foldl_set_untouched slot name fun d hd => (hc d hd).symm]
      exact List.getElem?_set_self hlt
    · exact ih hrest hb _ (by rw [List.length_set]; exact hlt)

end FoldSet

section LocalNames

variable {S : Setting} {D : Table} {s : Scope}

theorem View.slots_distinct (h : View S [] D s) : s.slots.Pairwise fun b c => b.2 ≠ c.2 := by
  have hkeys : s.slots.Pairwise fun b c => b.1 ≠ c.1 := List.pairwise_map.mp h.nodup
  have htable : ∀ b ∈ s.slots, D b.1 = some b.2 := by
    intro b hb
    have hlookup := lookup_of_mem h.nodup hb
    rw [h.slots] at hlookup
    exact hlookup
  exact hkeys.imp_of_mem fun hb hc hne heq =>
    hne (h.injective _ _ _ (htable _ hb) (heq ▸ htable _ hc))

/-- The name of a slot is the variable that is in it. -/
theorem View.localNames_iff (h : View S [] D s) {x : String} (hx : shown x = true) (i : Nat) :
    (localNames s)[i]? = some x ↔ D x = some i := by
  have hempty : x ≠ "" := fun heq => by
    rw [heq] at hx
    exact absurd hx (by decide)
  unfold localNames
  constructor
  · intro hname
    by_cases htouched : ∃ b ∈ s.slots, b.2 = i
    · obtain ⟨b, hb, rfl⟩ := htouched
      have hlookup := lookup_of_mem h.nodup hb
      rw [h.slots] at hlookup
      have hwritten := foldl_set_written Prod.snd Prod.fst h.slots_distinct hb
        (List.replicate s.nextSlot "") (by
          rw [List.length_replicate]
          exact h.fresh _ _ hlookup)
      rw [hname] at hwritten
      cases hwritten
      exact hlookup
    · rw [foldl_set_untouched Prod.snd Prod.fst fun b hb heq => htouched ⟨b, hb, heq⟩,
        List.getElem?_replicate] at hname
      split at hname
      · cases hname
        exact absurd rfl hempty
      · cases hname
  · intro hD
    have hlookup : s.slots.lookup x = some i := by
      rw [h.slots]
      exact hD
    refine foldl_set_written Prod.snd Prod.fst h.slots_distinct (mem_of_lookup hlookup)
      (List.replicate s.nextSlot "") ?_
    rw [List.length_replicate]
    exact h.fresh x i hD

end LocalNames

/-- What is known of a code unit: the names it declares are in the first table, the slot names are
those of the last one, and each instruction stands in between. -/
structure Recorded (u : CodeUnit) (S : Setting) (D E : Table) : Prop where
  enclosing : u.ctx.enclosing = S.enclosing
  declared : ∀ x, (D x).isSome ↔ x ∈ (if S.isMethod then ["self"] else []) ++ u.args ++ u.locals
  extend : Extends S [] D E
  last : View S [] E u.last
  placed : Placed S [] D E u.layout
  defined : ∀ x ∈ u.args ++ u.locals, x ∈ S.captured → ∃ i ∈ u.code, capturedName i = some x

section Units

/-- The table of a scope as it is opened. -/
def Scope.table (s : Scope) : Table := fun x => s.slots.lookup x

variable (captured args locals : List String) (isMethod : Bool)

theorem view_openScope (enclosing : List Scope) :
    View ⟨enclosing, captured, isMethod⟩ [] (openScope captured args locals isMethod).table
      (openScope captured args locals isMethod) := by
  have hfold : ∀ (names : List String) (s : Scope) (D : Table),
      View ⟨enclosing, captured, isMethod⟩ [] D s → ∃ E,
        View ⟨enclosing, captured, isMethod⟩ [] E
          (names.foldl (fun s x => (s.declare x).2) s) := by
    intro names
    induction names with
    | nil => exact fun s D h => ⟨D, h⟩
    | cons x names ih =>
      intro s D h
      obtain ⟨E, hE, -⟩ := h.declare x
      exact ih _ E hE
  have hstart : View ⟨enclosing, captured, isMethod⟩ [] (fun _ => none)
      ⟨[], 0, captured, args, [], isMethod⟩ :=
    { slots := fun _ => rfl
      nodup := List.nodup_nil
      captured := fun x => (and_iff_left rfl).symm
      loopArgs := rfl
      isMethod := rfl
      fresh := fun _ _ h => by cases h
      injective := fun _ _ _ h => by cases h
      counters := fun _ _ => ⟨List.Pairwise.nil, fun b hb => by cases hb⟩ }
  obtain ⟨E, hview⟩ := hfold ((if isMethod then ["self"] else []) ++ args ++ locals) _ _ hstart
  have htable : (openScope captured args locals isMethod).table = E := funext fun x => hview.slots x
  rw [htable]
  exact hview

theorem mem_flatten_flatMap {α : Type} (f : α → Code) (l : List α) (i : Flat Op) :
    i ∈ flatten (l.flatMap f) ↔ ∃ a ∈ l, i ∈ flatten (f a) := by
  induction l with
  | nil => simp
  | cons a l ih =>
    rw [List.flatMap_cons, flatten_append, List.mem_append, ih]
    simp only [List.mem_cons, exists_eq_or_imp]

/-- The prologue binds only what the dictionary of the activation holds. -/
theorem captured_captureProlog (ctx : Context) (scope : Scope) :
    ∀ i ∈ flatten (captureProlog ctx scope args locals), ∀ x, capturedName i = some x →
      x ∈ scope.captured := by
  intro i hi x hx
  unfold captureProlog at hi
  split at hi
  · cases hi
  dsimp only at hi
  rw [flatten_append, flatten_append, List.mem_append, List.mem_append, mem_flatten_flatMap,
    mem_flatten_flatMap] at hi
  rcases hi with (hmake | ⟨y, hy, harg⟩) | ⟨y, hy, hlocal⟩
  · split at hmake
    · cases List.mem_singleton.mp hmake
      cases hx
    split at hmake
    · cases hmake
    · cases List.mem_singleton.mp hmake
      cases hx
  · split at harg
    · rcases List.mem_cons.mp harg with rfl | hdefine
      · cases hx
      · cases List.mem_singleton.mp hdefine
        cases hx
        exact List.contains_iff_mem.mp (List.mem_filter.mp hy).2
    · cases harg
  · rcases List.mem_cons.mp hlocal with rfl | hdefine
    · cases hx
    · cases List.mem_singleton.mp hdefine
      cases hx
      exact List.contains_iff_mem.mp (List.mem_filter.mp hy).2

/-- It binds every name of the scope that the dictionary holds. -/
theorem mem_captureProlog (ctx : Context) {scope : Scope} {x : String} (hx : x ∈ args ++ locals)
    (hcaptured : x ∈ scope.captured) (hslot : (scope.slots.lookup x).isSome) :
    ∃ i ∈ flatten (captureProlog ctx scope args locals), capturedName i = some x := by
  have hcontains : scope.captured.contains x = true := List.contains_iff_mem.mpr hcaptured
  have hne : ¬ scope.captured.isEmpty = true := fun h => by
    rw [List.isEmpty_iff.mp h] at hcaptured
    cases hcaptured
  refine ⟨.op (.defineCaptured x), ?_, rfl⟩
  unfold captureProlog
  rw [if_neg hne]
  dsimp only
  rw [flatten_append, flatten_append, List.mem_append, List.mem_append, mem_flatten_flatMap,
    mem_flatten_flatMap]
  rcases List.mem_append.mp hx with harg | hlocal
  · refine .inl (.inr ⟨x, List.mem_filter.mpr ⟨harg, hcontains⟩, ?_⟩)
    obtain ⟨slot, hlookup⟩ := Option.isSome_iff_exists.mp hslot
    have hresolve : resolveLocal ctx scope x = some ⟨ctx.enclosing.length, slot⟩ := by
      unfold resolveLocal scopes
      rw [resolveIn, hlookup]
    rw [hresolve]
    exact List.mem_cons_of_mem _ List.mem_cons_self
  · exact .inr ⟨x, List.mem_filter.mpr ⟨hlocal, hcontains⟩,
      List.mem_cons_of_mem _ List.mem_cons_self⟩

theorem recorded_of_laid {ctx : Context} {errors : List CompileError} {l : Lay}
    {e : Code × Emitter} {E : Table}
    (h : Laid ⟨ctx.enclosing, captured, isMethod⟩ []
      ⟨openScope captured args locals isMethod, [], [], errors⟩
      (openScope captured args locals isMethod).table
      (l ⟨openScope captured args locals isMethod, [], [], errors⟩) e E)
    (hdefined : ∀ x ∈ args ++ locals, x ∈ captured →
      ∃ i ∈ flatten e.1, capturedName i = some x) :
    Recorded (codeUnit ctx args locals (openScope captured args locals isMethod) errors l)
      ⟨ctx.enclosing, captured, isMethod⟩ (openScope captured args locals isMethod).table E := by
  refine ⟨rfl, lookup_openScope captured args locals isMethod, h.extend, h.view, h.placed,
    fun x hx hmem => ?_⟩
  obtain ⟨i, hi, hname⟩ := hdefined x hx hmem
  rw [← h.code] at hi
  exact ⟨i, hi, hname⟩

/-- Behind the prologue. -/
theorem laid_prologue (ctx : Context) (errors : List CompileError) {l : Lay} {e : Emit}
    (hl : Lays ⟨ctx.enclosing, captured, isMethod⟩ l e) :
    ∃ E, Laid ⟨ctx.enclosing, captured, isMethod⟩ []
      ⟨openScope captured args locals isMethod, [], [], errors⟩
      (openScope captured args locals isMethod).table
      ((.of (code (captureProlog ctx (openScope captured args locals isMethod) args locals)) ++ l)
        ⟨openScope captured args locals isMethod, [], [], errors⟩)
      ((code (captureProlog ctx (openScope captured args locals isMethod) args locals) ++ e)
        ⟨openScope captured args locals isMethod, [], [], errors⟩) E := by
  have hview := view_openScope captured args locals isMethod ctx.enclosing
  have hcaptured := openScope_captured captured args locals isMethod
  have hprologue : Laid ⟨ctx.enclosing, captured, isMethod⟩ []
      ⟨openScope captured args locals isMethod, [], [], errors⟩ _ _ _ _ :=
    .of (e := code (captureProlog ctx (openScope captured args locals isMethod) args locals))
      hview rfl fun i hi x hx _ => .inl (by
        rw [← hcaptured]
        exact captured_captureProlog args locals ctx _ i hi x hx)
  obtain ⟨E, hrest⟩ := hl [] _ _ hprologue.view
  exact ⟨E, hprologue.seq hrest⟩

/-- What the prologue defines. -/
theorem defined_prologue (ctx : Context) (st : Emitter) (e : Emit) :
    ∀ x ∈ args ++ locals, x ∈ captured → ∃ i ∈ flatten
      ((code (captureProlog ctx (openScope captured args locals isMethod) args locals) ++ e) st).1,
      capturedName i = some x := by
  intro x hx hmem
  have hslot : ((openScope captured args locals isMethod).slots.lookup x).isSome := by
    rw [lookup_openScope, List.append_assoc]
    exact List.mem_append_right _ hx
  obtain ⟨i, hi, hname⟩ := mem_captureProlog args locals ctx hx
    (by rw [openScope_captured]; exact hmem) hslot
  refine ⟨i, ?_, hname⟩
  show i ∈ flatten (captureProlog ctx _ args locals ++ (e st).1)
  rw [flatten_append]
  exact List.mem_append_left _ hi

end Units

/-- The code units that the compiler emits. -/
inductive EmittedUnit : CodeUnit → Prop
  | block (ctx : Context) (args locals : List String) (stmts : List Node) (st : Emitter) :
      EmittedUnit (blockUnit ctx args locals stmts st)
  | method (ctx : Context) (className : String) (classSide : Bool) (cls : ClassScope)
      (analysed : List String) (selector : String) (args locals : List String)
      (walked body : List Node) (st : Emitter) :
      EmittedUnit (methodUnit ctx className classSide cls analysed selector args locals
        (fun _ => .of (code [])) walked body st)
  | callMethod (ctx : Context) (className : String) (classSide : Bool) (cls : ClassScope)
      (analysed : List String) (selector : String) (args locals : List String) (slot : Nat)
      (named : List (String × Node)) (walked body : List Node) (st : Emitter) :
      EmittedUnit (methodUnit ctx className classSide cls analysed selector args locals
        (fun inner => layDefaults inner slot named) walked body st)
  | module (repl groups : Bool) (classes : String → Option ClassScope) (tops : List Top) :
      EmittedUnit (moduleUnit repl groups classes tops)

theorem lays_blockBody {S : Setting} {ctx : Context} (hctx : ctx.enclosing = S.enclosing)
    (stmts : List Node) :
    Lays S ((if stmts.isEmpty then .of (code [.op .pushNil]) else layAll ctx (0, 0) stmts)
        ++ .of (code [.op .retTop]))
      ((if stmts.isEmpty then code [.op .pushNil] else emitAll ctx (0, 0) stmts)
        ++ code [.op .retTop]) := by
  refine Lays.seq ?_ (.code (by rfl))
  split
  · exact .code (by rfl)
  · exact layAll_lays hctx (0, 0) stmts

section Block

variable (ctx : Context) (args locals : List String) (stmts : List Node) (st : Emitter)

theorem laid_block :
    ∃ S D E, Recorded (blockUnit ctx args locals stmts st) S D E ∧
      (emitBlock ctx args locals stmts (fun inner => emitAll inner (0, 0) stmts) st).2.blocks.map
          Module.code =
        st.blocks.map Module.code ++ [(blockUnit ctx args locals stmts st).code] := by
  obtain ⟨E, hlaid⟩ := laid_prologue (blockCaptured ctx.ivars (args ++ locals) stmts) args locals
    false (ctx.inBlock st.scope (args ++ locals))
    (st.errors ++ duplicateErrors (args ++ locals) "a block") (lays_blockBody rfl stmts)
  refine ⟨_, _, E, recorded_of_laid _ args locals false hlaid
    (defined_prologue _ args locals false _ _ _), ?_⟩
  have hcode : (blockUnit ctx args locals stmts st).code = _ := hlaid.code
  rw [← emit_assoc] at hcode
  rw [hcode]
  exact List.map_append

end Block

section Method

variable (ctx : Context) (className : String) (classSide : Bool) (cls : ClassScope)
  (analysed : List String) (selector : String) (args locals : List String)
  (prologue : Context → Lay) (prologue' : Context → Emit) (walked body : List Node) (st : Emitter)

theorem laid_method
    (hprologue : ∀ (S : Setting) (inner : Context), inner.enclosing = S.enclosing →
      Lays S (prologue inner) (prologue' inner)) :
    ∃ S D E, Recorded (methodUnit ctx className classSide cls analysed selector args locals prologue
        walked body st) S D E ∧ ∀ callForm,
      (emitMethod ctx className classSide cls analysed selector args locals callForm prologue'
        walked
        body st).1.code = (methodUnit ctx className classSide cls analysed selector args locals
          prologue walked body st).code := by
  let inner : Context :=
    ⟨ctx.repl, ctx.groups, some ⟨className, if classSide then cls.classInstVars else cls.instVars,
      cls.classVars, classSide⟩, without analysed (args ++ locals), scopes ctx st.scope⟩
  have hbody : Lays ⟨inner.enclosing, scopeCaptured (without analysed (args ++ locals))
      (args ++ locals) false walked, true⟩ (prologue inner ++ layMethodBody inner body)
      (prologue' inner ++ emitMethodBody inner body) :=
    (hprologue _ inner rfl).seq (@layMethodBody_lays _ inner rfl body)
  obtain ⟨E, hlaid⟩ := laid_prologue _ args locals true inner
    (st.errors ++ duplicateErrors (args ++ locals) (className ++ ">>" ++ selector)
      ++ ((args ++ locals).filter fun x =>
        (if classSide then cls.classInstVars else cls.instVars).contains x).map
          fun x => .shadowsInstVar x className) hbody
  refine ⟨_, _, E, recorded_of_laid _ args locals true hlaid
    (defined_prologue _ args locals true _ _ _), fun callForm => ?_⟩
  have hcode : (methodUnit ctx className classSide cls analysed selector args locals prologue walked
    body st).code = _ := hlaid.code
  rw [← emit_assoc] at hcode
  rw [hcode]
  rfl

end Method

section Module

variable (repl groups : Bool) (classes : String → Option ClassScope) (tops : List Top)

theorem laid_module :
    ∃ S D E, Recorded (moduleUnit repl groups classes tops) S D E ∧
      (compileModule repl groups classes tops).1.code =
        (moduleUnit repl groups classes tops).code := by
  have hbody : Lays ⟨[], scopeCaptured [] [] repl (tops.flatMap Top.walked), false⟩
      ((if tops.isEmpty then .of (code [.op .pushNil])
        else layTops ⟨repl, groups, none, [], []⟩ classes tops) ++ .of (code [.op .retTop]))
      ((if tops.isEmpty then code [.op .pushNil]
        else emitTops ⟨repl, groups, none, [], []⟩ classes tops) ++ code [.op .retTop]) := by
    refine Lays.seq ?_ (.code (by rfl))
    split
    · exact .code (by rfl)
    · exact layTops_lays rfl classes tops
  obtain ⟨E, hlaid⟩ := hbody [] _ ⟨openScope (scopeCaptured [] [] repl
    (tops.flatMap Top.walked)) [] [] false, [], [], []⟩ (view_openScope _ [] [] false [])
  exact ⟨_, _, E, recorded_of_laid _ [] [] false hlaid fun x hx => (by cases hx), hlaid.code.symm⟩

end Module

/-- **Every code unit** is recorded. -/
theorem EmittedUnit.recorded {u : CodeUnit} (h : EmittedUnit u) : ∃ S D E, Recorded u S D E := by
  cases h with
  | block ctx args locals stmts st =>
    obtain ⟨S, D, E, hrecorded, -⟩ := laid_block ctx args locals stmts st
    exact ⟨S, D, E, hrecorded⟩
  | method ctx className classSide cls analysed selector args locals walked body st =>
    obtain ⟨S, D, E, hrecorded, -⟩ := laid_method ctx className classSide cls analysed selector args
      locals (fun _ => .of (code [])) (fun _ => code []) walked body st
      fun _ _ _ => .code (by rfl)
    exact ⟨S, D, E, hrecorded⟩
  | callMethod ctx className classSide cls analysed selector args locals slot named walked body
      st =>
    obtain ⟨S, D, E, hrecorded, -⟩ := laid_method ctx className classSide cls analysed selector args
      locals (fun inner => layDefaults inner slot named)
        (fun inner => emitDefaults inner slot named)
      walked body st fun _ _ hctx => layDefaults_lays hctx named slot
    exact ⟨S, D, E, hrecorded⟩
  | module repl groups classes tops =>
    obtain ⟨S, D, E, hrecorded, -⟩ := laid_module repl groups classes tops
    exact ⟨S, D, E, hrecorded⟩

end ProtoST.Frontend

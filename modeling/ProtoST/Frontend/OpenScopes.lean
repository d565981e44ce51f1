import Mathlib
import ProtoST.Frontend.Sites

/-!
# Lookups in the open scopes

In a method, emission adds slots for temporaries of its own to the innermost scope and takes
nothing back, but for the variable of an inlined loop, which gets back what it had.  So a
name the program declares around a place has a slot there, and another one that is not a
temporary is looked up past the blocks around the place: it is taken for captured exactly if
the method has it in its closure dictionary.

## Main results

* `Opens.grows`, `Opens.block`, `Opens.loop`, `Opens.method` — what is known of the open
  scopes of a place is known again behind emitted code, in a block, in a loop and at the
  start of a method.
* `Site.ofSelf_iff` — where a variable of `self` is compiled to an access of `self`.
-/

namespace ProtoST.Frontend

open ProtoST.Runtime.Bytecode

/-! ## Growth of a scope -/

/-- The temporaries that the compiler declares by itself. -/
def Temporary (x : String) : Prop :=
  ∃ base ∈ ["__td_i_", "__td_end_", "__dy_coll_", "__dy_blk_", "__dy_n_", "__dy_i_",
    "__cascade_tmp_"], ∃ slot, x = hidden base slot

theorem temporary_hidden {base : String} (slot : Nat)
    (h : base ∈ ["__td_i_", "__td_end_", "__dy_coll_", "__dy_blk_", "__dy_n_", "__dy_i_",
      "__cascade_tmp_"]) : Temporary (hidden base slot) :=
  ⟨base, h, slot, rfl⟩

/-- A scope that has gained slots for some names: no slot has gone, and the closure
dictionary is the same. -/
structure Scope.Grows (allowed : String → Prop) (s s' : Scope) : Prop where
  slots : ∀ x, (s.slots.lookup x).isSome → (s'.slots.lookup x).isSome
  fresh : ∀ x, (s'.slots.lookup x).isSome → (s.slots.lookup x).isSome ∨ allowed x
  captured : ∀ x, s'.captured.contains x = s.captured.contains x
  isMethod : s'.isMethod = s.isMethod

theorem lookup_eraseSlot (slots : List (String × Nat)) (name x : String) :
    (eraseSlot slots name).lookup x = if x = name then none else slots.lookup x := by
  induction slots with
  | nil => simp [eraseSlot]
  | cons b slots ih =>
      obtain ⟨y, slot⟩ := b
      have hstep : eraseSlot ((y, slot) :: slots) name
          = if y = name then eraseSlot slots name else (y, slot) :: eraseSlot slots name := by
        by_cases hy : y = name <;> simp [eraseSlot, hy]
      rw [hstep]
      by_cases hy : y = name
      · rw [if_pos hy, ih, List.lookup_cons]
        by_cases hname : x = name
        · rw [if_pos hname, if_pos hname]
        · rw [if_neg hname, if_neg hname, beq_false_of_ne fun heq => hname (heq.trans hy)]
      · rw [if_neg hy, List.lookup_cons, List.lookup_cons]
        cases hx : x == y with
        | true =>
            have hname : ¬ x = name := fun heq => hy ((eq_of_beq hx).symm.trans heq)
            rw [if_neg hname]
        | false => exact ih

theorem lookup_setSlot (slots : List (String × Nat)) (name x : String) (slot : Nat) :
    (setSlot slots name slot).lookup x = if x = name then some slot else slots.lookup x := by
  unfold setSlot
  by_cases hname : x = name
  · rw [if_pos hname, hname, List.lookup_cons_self]
  · rw [List.lookup_cons, if_neg hname, beq_false_of_ne hname]
    exact (lookup_eraseSlot slots name x).trans (if_neg hname)

namespace Scope.Grows

variable {allowed : String → Prop} {s s' s'' : Scope}

theorem refl (s : Scope) : s.Grows allowed s :=
  ⟨fun _ => id, fun _ => .inl, fun _ => rfl, rfl⟩

theorem trans (h : s.Grows allowed s') (h' : s'.Grows allowed s'') : s.Grows allowed s'' :=
  ⟨fun x hx => h'.slots x (h.slots x hx),
    fun x hx => (h'.fresh x hx).elim (h.fresh x) .inr,
    fun x => (h'.captured x).trans (h.captured x), h'.isMethod.trans h.isMethod⟩

theorem declare (s : Scope) {name : String} (hname : allowed name) :
    s.Grows allowed (s.declare name).2 := by
  have hslots : ∀ x, (setSlot s.slots name s.nextSlot).lookup x
      = if x = name then some s.nextSlot else s.slots.lookup x :=
    fun x => lookup_setSlot s.slots name x s.nextSlot
  unfold Scope.declare
  split
  · exact .refl s
  · refine ⟨fun x hx => ?_, fun x hx => ?_, fun _ => rfl, rfl⟩
    · show ((setSlot s.slots name s.nextSlot).lookup x).isSome
      rw [hslots]
      split
      · rfl
      · exact hx
    · change ((setSlot s.slots name s.nextSlot).lookup x).isSome at hx
      rw [hslots] at hx
      split at hx
      · rename_i heq
        exact .inr (heq ▸ hname)
      · exact .inl hx

/-- A loop gives its variable back what it had. -/
theorem unbindLoop {name : String} {slot : Nat} (h : (s.bindLoop name slot).Grows allowed s') :
    s.Grows allowed (s'.unbindLoop s name) := by
  have hslots : ∀ x, (s'.unbindLoop s name).slots.lookup x
      = if x = name then s.slots.lookup name else s'.slots.lookup x := by
    intro x
    simp only [Scope.unbindLoop]
    cases s.slots.lookup name with
    | some slot' => exact lookup_setSlot _ _ _ _
    | none => exact lookup_eraseSlot _ _ _
  have hbound : ∀ x, x ≠ name → (s.bindLoop name slot).slots.lookup x = s.slots.lookup x :=
    fun x hx => (lookup_setSlot s.slots name x slot).trans (if_neg hx)
  refine ⟨fun x hx => ?_, fun x hx => ?_, fun x => ?_, h.isMethod⟩
  · rw [hslots]
    by_cases hname : x = name
    · rwa [if_pos hname, ← hname]
    · rw [if_neg hname]
      exact h.slots x (by rwa [hbound x hname])
  · rw [hslots] at hx
    by_cases hname : x = name
    · rw [if_pos hname, ← hname] at hx
      exact .inl hx
    · rw [if_neg hname] at hx
      refine (h.fresh x hx).imp_left fun hx => ?_
      rwa [hbound x hname] at hx
  · have hbody := h.captured x
    simp only [Scope.bindLoop, List.contains_eq_mem, List.mem_filter, bne_iff_ne, ne_eq,
      decide_eq_decide] at hbody
    simp only [Scope.unbindLoop, List.contains_eq_mem, decide_eq_true_eq, decide_eq_decide]
    by_cases hname : x = name
    · subst hname
      split
      · rename_i hmem
        simp [hmem]
      · rename_i hmem
        simp [hbody, hmem]
    · split
      · simp [hbody, hname]
      · simp [hbody, hname]

end Scope.Grows

/-! ## Lookups -/

/-- What is known of the open scopes of a place, in a method with the closure dictionary
`captured`: the names declared around the place have slots, the other slots are those of
temporaries, and a name without a slot is captured exactly if the method has it captured. -/
structure Opens (captured bound : List String) (opened : List Scope) : Prop where
  resolved : ∀ x ∈ bound, (resolveIn opened x).isSome
  named : ∀ x, (resolveIn opened x).isSome → x ∈ bound ∨ Temporary x
  captured_iff : ∀ x, x ∉ bound → resolveIn opened x = none →
    (capturedIn opened x = true ↔ x ∈ captured)

section Lookup

variable {s s' : Scope} {outer : List Scope} {x : String}

theorem resolveIn_cons_isSome :
    (resolveIn (s :: outer) x).isSome ↔
      (s.slots.lookup x).isSome ∨ s.isMethod = false ∧ (resolveIn outer x).isSome := by
  rw [resolveIn]
  cases hslot : s.slots.lookup x with
  | some slot => simp
  | none => cases hmethod : s.isMethod <;> simp

theorem resolveIn_cons_eq_none :
    resolveIn (s :: outer) x = none ↔
      s.slots.lookup x = none ∧ (s.isMethod = false → resolveIn outer x = none) := by
  rw [← Option.not_isSome_iff_eq_none, resolveIn_cons_isSome, not_or, not_and,
    Option.not_isSome_iff_eq_none, Option.not_isSome_iff_eq_none]

/-- A name without a slot. -/
theorem capturedIn_cons (hslot : s.slots.lookup x = none) :
    capturedIn (s :: outer) x = true ↔
      s.captured.contains x = true ∨ s.isMethod = false ∧ capturedIn outer x = true := by
  rw [capturedIn, hslot]
  cases hcaptured : s.captured.contains x <;> cases hmethod : s.isMethod <;> simp

end Lookup

namespace Opens

variable {captured bound names : List String} {s s' : Scope} {outer : List Scope}

/-- Behind emitted code. -/
theorem grows (h : Opens captured bound (s :: outer)) (hgrows : s.Grows Temporary s') :
    Opens captured bound (s' :: outer) := by
  refine ⟨fun x hx => ?_, fun x hx => ?_, fun x hx hnone => ?_⟩
  · have hsome := h.resolved x hx
    rw [resolveIn_cons_isSome] at hsome ⊢
    rw [hgrows.isMethod]
    exact hsome.imp_left (hgrows.slots x)
  · rw [resolveIn_cons_isSome, hgrows.isMethod] at hx
    rcases hx with hx | hx
    · rcases hgrows.fresh x hx with hx | hx
      · exact h.named x (resolveIn_cons_isSome.mpr (.inl hx))
      · exact .inr hx
    · exact h.named x (resolveIn_cons_isSome.mpr (.inr hx))
  · rw [resolveIn_cons_eq_none, hgrows.isMethod] at hnone
    have hslot : s.slots.lookup x = none := by
      rw [← Option.not_isSome_iff_eq_none]
      intro hsome
      have hsome' := hgrows.slots x hsome
      rw [hnone.1] at hsome'
      cases hsome'
    have hbefore := h.captured_iff x hx (resolveIn_cons_eq_none.mpr ⟨hslot, hnone.2⟩)
    rw [capturedIn_cons hslot] at hbefore
    rw [capturedIn_cons hnone.1, hgrows.captured, hgrows.isMethod]
    exact hbefore

/-- In a block: its names have slots, and it captures none but its names. -/
theorem block (h : Opens captured bound outer) (hmethod : s.isMethod = false)
    (hnames : ∀ x, (s.slots.lookup x).isSome ↔ x ∈ names)
    (hcaptured : ∀ x ∈ s.captured, x ∈ names) :
    Opens captured (names ++ bound) (s :: outer) := by
  refine ⟨fun x hx => ?_, fun x hx => ?_, fun x hx hnone => ?_⟩
  · rw [resolveIn_cons_isSome]
    exact (List.mem_append.mp hx).imp (hnames x).mpr fun hx => ⟨hmethod, h.resolved x hx⟩
  · rw [resolveIn_cons_isSome, hnames] at hx
    rcases hx with hx | ⟨-, hx⟩
    · exact .inl (List.mem_append_left _ hx)
    · exact (h.named x hx).imp_left (List.mem_append_right _)
  · rw [resolveIn_cons_eq_none] at hnone
    obtain ⟨hnames', hbound⟩ := not_or.mp fun hmem => hx (List.mem_append.mpr hmem)
    rw [capturedIn_cons hnone.1, ← h.captured_iff x hbound (hnone.2 hmethod)]
    have hnot : x ∉ s.captured := fun hmem => hnames' (hcaptured x hmem)
    simp [hnot, hmethod]

/-- In the body of an inlined loop. -/
theorem loop (h : Opens captured bound (s :: outer)) (name : String) (slot : Nat) :
    Opens captured (name :: bound) (s.bindLoop name slot :: outer) := by
  have hslots : ∀ x, (s.bindLoop name slot).slots.lookup x
      = if x = name then some slot else s.slots.lookup x := fun x =>
    lookup_setSlot s.slots name x slot
  refine ⟨fun x hx => ?_, fun x hx => ?_, fun x hx hnone => ?_⟩
  · rw [resolveIn_cons_isSome, hslots]
    by_cases hname : x = name
    · exact .inl (by rw [if_pos hname, Option.isSome_some])
    · rw [if_neg hname]
      exact resolveIn_cons_isSome.mp (h.resolved x ((List.mem_cons.mp hx).resolve_left hname))
  · rw [resolveIn_cons_isSome, hslots] at hx
    by_cases hname : x = name
    · exact .inl (hname ▸ List.mem_cons_self)
    · rw [if_neg hname] at hx
      exact (h.named x (resolveIn_cons_isSome.mpr hx)).imp_left (List.mem_cons_of_mem _)
  · obtain ⟨hname, hbound⟩ := not_or.mp fun hmem => hx (List.mem_cons.mpr hmem)
    rw [resolveIn_cons_eq_none, hslots, if_neg hname] at hnone
    have hbefore := h.captured_iff x hbound (resolveIn_cons_eq_none.mpr hnone)
    rw [capturedIn_cons hnone.1] at hbefore
    rw [capturedIn_cons (by rw [hslots, if_neg hname, hnone.1])]
    have hcontains : (s.bindLoop name slot).captured.contains x = s.captured.contains x := by
      simp [Scope.bindLoop, hname]
    rw [hcontains]
    exact hbefore

/-- At the start of a method. -/
theorem method (hmethod : s.isMethod = true)
    (hnames : ∀ x, (s.slots.lookup x).isSome ↔ x ∈ names) :
    Opens s.captured names (s :: outer) := by
  refine ⟨fun x hx => resolveIn_cons_isSome.mpr (.inl ((hnames x).mpr hx)), fun x hx => ?_,
    fun x _ hnone => ?_⟩
  · rw [resolveIn_cons_isSome, hnames, hmethod] at hx
    exact .inl (hx.resolve_right fun h => (by cases h.1))
  · rw [resolveIn_cons_eq_none] at hnone
    rw [capturedIn_cons hnone.1]
    simp [hmethod]

end Opens

section OpenScope

variable (captured args locals : List String) (isMethod : Bool)

/-- The names declared, one after the other. -/
theorem grows_foldl_declare {names all : List String} (hall : ∀ x ∈ names, x ∈ all) (s : Scope) :
    s.Grows (· ∈ all) (names.foldl (fun s x => (s.declare x).2) s) := by
  induction names generalizing s with
  | nil => exact .refl s
  | cons x names ih =>
      exact (Scope.Grows.declare s (hall x List.mem_cons_self)).trans
        (ih (fun y hy => hall y (List.mem_cons_of_mem _ hy)) _)

theorem lookup_declare_self (s : Scope) (x : String) :
    ((s.declare x).2.slots.lookup x).isSome := by
  unfold Scope.declare
  split
  · rename_i slot hslot
    rw [hslot, Option.isSome_some]
  · show ((setSlot s.slots x s.nextSlot).lookup x).isSome
    rw [lookup_setSlot, if_pos rfl, Option.isSome_some]

theorem lookup_foldl_declare {names : List String} {x : String} (hx : x ∈ names) (s : Scope) :
    ((names.foldl (fun s x => (s.declare x).2) s).slots.lookup x).isSome := by
  induction names generalizing s with
  | nil => cases hx
  | cons y names ih =>
      rcases List.mem_cons.mp hx with rfl | hx
      · have hrest : (s.declare x).2.Grows (· ∈ names)
            (names.foldl (fun s x => (s.declare x).2) (s.declare x).2) :=
          grows_foldl_declare (fun _ => id) _
        exact hrest.slots x (lookup_declare_self s x)
      · exact ih hx _

/-- The scope of a block or a method has slots for its names. -/
theorem lookup_openScope (x : String) :
    ((openScope captured args locals isMethod).slots.lookup x).isSome ↔
      x ∈ (if isMethod then ["self"] else []) ++ args ++ locals := by
  refine ⟨fun hx => ?_, fun hx => lookup_foldl_declare hx _⟩
  refine ((grows_foldl_declare (fun _ => id) ⟨[], 0, captured, args, [], isMethod⟩).fresh x
    hx).resolve_left fun h => ?_
  cases h

theorem openScope_isMethod : (openScope captured args locals isMethod).isMethod = isMethod :=
  (grows_foldl_declare (fun _ => id) ⟨[], 0, captured, args, [], isMethod⟩).isMethod

theorem declare_captured (s : Scope) (x : String) : (s.declare x).2.captured = s.captured := by
  unfold Scope.declare
  split <;> rfl

theorem openScope_captured : (openScope captured args locals isMethod).captured = captured := by
  have hfold : ∀ (names : List String) (s : Scope),
      (names.foldl (fun s x => (s.declare x).2) s).captured = s.captured := by
    intro names
    induction names with
    | nil => exact fun s => rfl
    | cons x names ih => exact fun s => (ih _).trans (declare_captured s x)
  exact hfold _ _

end OpenScope

/-! ## Variables of `self` -/

/-- The variables of `self` that code in a method may name. -/
def selfVariables (ctx : Context) : List String := instVarNames ctx ++ classVarNames ctx

/-- Where a variable of `self` lives. -/
def selfTarget (ctx : Context) (x : String) : Target :=
  if (instVarNames ctx).contains x then .instVar else .classVar

/-- The instruction that reads a variable of `self`: on the class side, an instance variable
of the class itself. -/
def selfLoad (ctx : Context) (x : String) : Op :=
  if (instVarNames ctx).contains x && (ctx.method.map MethodContext.classSide).getD false then
    .pushOwnInstVar x
  else .pushInstVar x

/-- The instruction that writes one. -/
def selfStore (ctx : Context) (x : String) : Op :=
  if (instVarNames ctx).contains x then .storeInstVar x else .storeClassVar x

/-- The identifier is compiled to an access of `self`: the instruction that reads the
variable, the one that writes it, or a place in an instance-variable write group. -/
def Site.OfSelf (s : Site) : Prop :=
  match s.use with
  | .read => ∀ st : Emitter, st.scope = s.scope →
      emitLoad s.ctx s.name st = ([.op (selfLoad s.ctx s.name)], st)
  | .write => ∀ (stmt : Bool) (value : Emit) (st : Emitter), st.scope = s.scope →
      emitStore s.ctx stmt s.name value st
        = (value ++ Emit.code [.op .dup, .op (selfStore s.ctx s.name)]) st
  | .groupWrite => isInstVarTarget s.ctx s.scope s.name = true

section Targets

variable {ctx : Context} {scope : Scope} {x : String} {captured bound : List String}

theorem argumentIn_isSome {opened : List Scope} (h : argumentIn opened x = true) :
    (resolveIn opened x).isSome := by
  induction opened with
  | nil => cases h
  | cons s outer ih =>
      rw [resolveIn_cons_isSome]
      rw [argumentIn] at h
      split at h
      · rename_i hslot
        exact .inl hslot
      · split at h
        · cases h
        · rename_i hmethod
          exact .inr ⟨by simpa using hmethod, ih h⟩

theorem loadTarget_of_free (hcaptured : isCaptured ctx scope x = false)
    (hresolve : resolveLocal ctx scope x = none) (hx : x ∈ selfVariables ctx) :
    loadTarget ctx scope x = selfTarget ctx x := by
  unfold loadTarget selfTarget
  rw [hcaptured, hresolve]
  by_cases hinst : x ∈ instVarNames ctx
  · simp [hinst]
  · have hclass : x ∈ classVarNames ctx := (List.mem_append.mp hx).resolve_left hinst
    simp [hinst, hclass]

theorem storeTarget_of_free (hcaptured : isCaptured ctx scope x = false)
    (hresolve : resolveLocal ctx scope x = none) (hx : x ∈ selfVariables ctx) :
    storeTarget ctx scope x = selfTarget ctx x := by
  have hargument : argumentIn (scopes ctx scope) x = false := by
    rw [Bool.eq_false_iff]
    intro hargument
    have hsome := argumentIn_isSome hargument
    rw [resolveLocal] at hresolve
    rw [hresolve] at hsome
    cases hsome
  unfold storeTarget selfTarget
  rw [hargument, hcaptured, hresolve]
  by_cases hinst : x ∈ instVarNames ctx
  · simp [hinst]
  · have hclass : x ∈ classVarNames ctx := (List.mem_append.mp hx).resolve_left hinst
    simp [hinst, hclass]

/-- In a method an assignment declares nothing. -/
theorem storeTarget_ne_fresh (hmethod : ctx.method ≠ none) :
    storeTarget ctx scope x ≠ .fresh := by
  obtain ⟨m, hm⟩ := Option.ne_none_iff_exists'.mp hmethod
  unfold storeTarget undeclaredInMethod
  rw [hm]
  cases hresolve : resolveLocal ctx scope x with
  | some slot =>
      dsimp only [Option.isSome_some, if_true]
      repeat' split
      all_goals simp
  | none =>
      dsimp only [Option.isSome_none]
      repeat' split
      all_goals simp_all

variable {st : Emitter}

theorem emitLoad_of_free (hcaptured : isCaptured ctx scope x = false)
    (hresolve : resolveLocal ctx scope x = none) (hx : x ∈ selfVariables ctx)
    (hst : st.scope = scope) : emitLoad ctx x st = ([.op (selfLoad ctx x)], st) := by
  have htarget := loadTarget_of_free hcaptured hresolve hx
  rw [emitLoad, Emit.reading, hst, htarget, selfTarget, selfLoad]
  by_cases hinst : x ∈ instVarNames ctx
  · cases hside : (ctx.method.map MethodContext.classSide).getD false <;>
      simp [hinst, Emit.code]
  · simp [hinst, Emit.code]

theorem emitStore_of_free (hcaptured : isCaptured ctx scope x = false)
    (hresolve : resolveLocal ctx scope x = none) (hx : x ∈ selfVariables ctx)
    (hst : st.scope = scope) (stmt : Bool) (value : Emit) :
    emitStore ctx stmt x value st
      = (value ++ Emit.code [.op .dup, .op (selfStore ctx x)]) st := by
  have htarget := storeTarget_of_free hcaptured hresolve hx
  rw [emitStore, Emit.reading, hst, htarget, selfTarget, selfStore]
  by_cases hinst : x ∈ instVarNames ctx
  · simp [hinst]
  · simp [hinst]

/-- A name that is captured or has a slot is not read from `self`. -/
theorem emitLoad_ne (h : isCaptured ctx scope x = true ∨ (resolveLocal ctx scope x).isSome)
    (hst : st.scope = scope) :
    (emitLoad ctx x st).1 ≠ [.op (selfLoad ctx x)] := by
  have hself : selfLoad ctx x = .pushInstVar x ∨ selfLoad ctx x = .pushOwnInstVar x := by
    unfold selfLoad
    split
    · exact .inr rfl
    · exact .inl rfl
  rw [emitLoad, Emit.reading, hst, loadTarget]
  by_cases hcaptured : isCaptured ctx scope x = true
  · rw [if_pos hcaptured]
    rcases hself with hself | hself <;> simp [hself, Emit.code]
  · rw [if_neg hcaptured]
    obtain ⟨slot, hslot⟩ := Option.isSome_iff_exists.mp (h.resolve_left hcaptured)
    rw [hslot]
    rcases hself with hself | hself <;> simp [hself, Emit.code]

/-- Nor is it written to `self`. -/
theorem emitStore_ne (h : isCaptured ctx scope x = true ∨ (resolveLocal ctx scope x).isSome)
    (hst : st.scope = scope) :
    (emitStore ctx false x (Emit.code []) st).1
      ≠ [.op .dup, .op (selfStore ctx x)] := by
  have hself : selfStore ctx x = .storeInstVar x ∨ selfStore ctx x = .storeClassVar x := by
    unfold selfStore
    split
    · exact .inl rfl
    · exact .inr rfl
  rw [emitStore, Emit.reading, hst, storeTarget]
  by_cases hargument : argumentIn (scopes ctx scope) x = true
  · rw [if_pos hargument]
    rcases hself with hself | hself <;> simp [hself, Emit.fail]
  · rw [if_neg hargument]
    by_cases hcaptured : isCaptured ctx scope x = true
    · rw [if_pos hcaptured]
      cases undeclaredInMethod ctx scope x with
      | some e => rcases hself with hself | hself <;> simp [hself, Emit.fail]
      | none =>
          show ([] ++ [.op .dup, .op (.storeCaptured x)] : Code) ≠ _
          rcases hself with hself | hself <;> simp [hself]
    · rw [if_neg hcaptured]
      obtain ⟨slot, hslot⟩ := Option.isSome_iff_exists.mp (h.resolve_left hcaptured)
      rw [hslot]
      show ([] ++ [.op .dup, .op (.storeLocal slot)] : Code) ≠ _
      rcases hself with hself | hself <;> simp [hself]

end Targets

/-- An identifier that the program does not declare and that names a variable of `self` is
compiled to an access of `self` if and only if no slot has its name and the method has not
captured it. -/
theorem Site.ofSelf_iff {s : Site} {captured : List String}
    (hopens : Opens captured s.place.bound (scopes s.ctx s.scope))
    (hgroup : s.use = .groupWrite → isInstVarTarget s.ctx s.scope s.name = true)
    (hbound : s.name ∉ s.place.bound) (hself : s.name ∈ selfVariables s.ctx) :
    s.OfSelf ↔ resolveLocal s.ctx s.scope s.name = none ∧ s.name ∉ captured := by
  have hfree : ∀ _ : resolveLocal s.ctx s.scope s.name = none ∧ s.name ∉ captured,
      isCaptured s.ctx s.scope s.name = false := by
    rintro ⟨hresolve, hnot⟩
    rw [Bool.eq_false_iff]
    exact fun htrue => hnot ((hopens.captured_iff _ hbound hresolve).mp htrue)
  have hhidden : ¬ (resolveLocal s.ctx s.scope s.name = none ∧ s.name ∉ captured) →
      isCaptured s.ctx s.scope s.name = true ∨ (resolveLocal s.ctx s.scope s.name).isSome := by
    intro hnot
    cases hresolve : resolveLocal s.ctx s.scope s.name with
    | some slot => exact .inr rfl
    | none =>
        refine .inl ((hopens.captured_iff _ hbound hresolve).mpr ?_)
        by_contra hmem
        exact hnot ⟨hresolve, hmem⟩
  obtain ⟨name, use, ctx, scope, place⟩ := s
  cases use with
  | read =>
      constructor
      · intro hof
        by_contra hnot
        exact emitLoad_ne (hhidden hnot) rfl (congrArg Prod.fst (hof ⟨scope, [], [], []⟩ rfl))
      · exact fun h st hst => emitLoad_of_free (hfree h) h.1 hself hst
  | write =>
      constructor
      · intro hof
        by_contra hnot
        exact emitStore_ne (hhidden hnot) rfl
          (congrArg Prod.fst (hof false (Emit.code []) ⟨scope, [], [], []⟩ rfl))
      · exact fun h stmt value st hst => emitStore_of_free (hfree h) h.1 hself hst stmt value
  | groupWrite =>
      have htarget := hgroup rfl
      refine ⟨fun _ => ?_, fun _ => htarget⟩
      simp only [isInstVarTarget, Bool.and_eq_true, Bool.not_eq_true', Option.isNone_iff_eq_none]
        at htarget
      refine ⟨htarget.1.2, fun hmem => ?_⟩
      have htrue := (hopens.captured_iff _ hbound htarget.1.2).mpr hmem
      rw [← isCaptured, htarget.1.1] at htrue
      cases htrue

end ProtoST.Frontend

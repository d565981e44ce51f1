import ProtoST.Frontend.LayoutScopes
import ProtoST.Debugger.Evaluation

/-!
# The variables of a stopped frame

`DebuggerRuntime::frameVariables` shows the variables of a frame from the names of its slots, the
scoped locals and the dictionaries that it captures.  What the program reads under a name at the
same instruction is decided by the compiler, in the scope of the instruction.

## Main results

* `frameVariables_iff` — when the debugger shows what the program reads.
* `shows_outer_binding` — a temporary that holds nil, and one that no instruction uses.
-/

namespace ProtoST.Debugger

open ProtoST.Frontend ProtoST.Runtime.Bytecode ProtoST.Lib.Structured

variable {V : Type}

/-! ## Frames -/

/-- A dictionary of captured variables; `self` is a keyword. -/
structure Dictionary (V : Type) where
  own : String → Option V
  noSelf : own "self" = none

/-- What `makeDebugFrame` takes of a frame; the dictionaries innermost first. -/
structure DebugFrame (V : Type) where
  pc : Nat
  self : V
  captured : Option (List (Dictionary V))
  locals : List V

/-- The objects outside a frame that its names can stand for. -/
structure Outside (V : Type) where
  nil : V
  objectProto : String → Option V
  instVar : V → String → Option V
  ownInstVar : V → String → Option V
  global : String → Option V

/-- `capturedValue`: the innermost activation that binds the name. -/
def DebugFrame.capturedValue (f : DebugFrame V) (name : String) : Option V :=
  (f.captured.getD []).findSome? fun d => d.own name

theorem DebugFrame.capturedValue_self (f : DebugFrame V) : f.capturedValue "self" = none := by
  unfold capturedValue
  rw [List.findSome?_eq_none_iff]
  exact fun d _ => d.noSelf

section Show

variable [DecidableEq V] (u : CodeUnit) (W : Outside V) (f : DebugFrame V)

/-- `BytecodeModule::localName`. -/
def localName (slot : Nat) : String := u.localNames[slot]?.getD ""

/-- The scoped locals that name a slot of the frame at its `pc`. -/
def activeLocals : List ScopedLocal :=
  u.scopedLocals.filter fun sl => decide (sl.slot < f.locals.length) && sl.covers f.pc

def slotNames : List String :=
  (activeLocals u f).foldl (fun names sl => names.set sl.slot sl.name)
    ((List.range f.locals.length).map (localName u))

def slotOrder : List Nat :=
  (activeLocals u f).map ScopedLocal.slot ++ (List.range f.locals.length).filter fun i =>
    !((activeLocals u f).map ScopedLocal.slot).contains i

/-- What is shown for a slot that holds `v`: a temporary a block shares lives in a dictionary, its
slot stays nil. -/
def slotValue (name : String) (v : V) : V :=
  if v = W.nil then (f.capturedValue name).getD W.nil else v

def slotVariable (i : Nat) : FrameVariable V :=
  ⟨(slotNames u f)[i]?.getD "",
    slotValue W f ((slotNames u f)[i]?.getD "") (f.locals[i]?.getD W.nil)⟩

/-- The captured names that the code reads or writes. -/
def capturedVariables : List (FrameVariable V) :=
  u.code.filterMap fun i =>
    (capturedName i).bind fun name => (f.capturedValue name).map fun v => ⟨name, v⟩

/-- A variable that is shown, unless its name has been seen. -/
def addVariable (out : List (FrameVariable V)) (v : FrameVariable V) : List (FrameVariable V) :=
  if !shown v.name || taken out v then out else out ++ [v]

/-- `DebuggerRuntime::frameVariables`. -/
def frameVariables : List (FrameVariable V) :=
  let out := (capturedVariables u f).foldl addVariable
    (((slotOrder u f).map (slotVariable u W f)).foldl addVariable [])
  if !(out.map FrameVariable.name).contains "self" && decide (f.self ≠ W.nil) then
    ⟨"self", f.self⟩ :: out
  else out

end Show

/-! ## What the program reads -/

/-- The instruction that a read of a name is compiled to. -/
def loadOp (ctx : Context) (scope : Scope) (x : String) : Option Op :=
  match loadTarget ctx scope x with
  | .rejected _ => none
  | .captured => some (.pushCaptured x)
  | .slot s => some (.pushLocal s)
  | .instVar =>
    some (if (ctx.method.map MethodContext.classSide).getD false then .pushOwnInstVar x
      else .pushInstVar x)
  | .classVar => some (.pushInstVar x)
  | .global | .fresh => some (.pushGlobal x)

section Reads

variable (u : CodeUnit) (W : Outside V) (f : DebugFrame V)

/-- What `PUSH_CAPTURED` pushes: the lookup goes on in `objectProto`. -/
def capturedAttribute (name : String) : V :=
  match f.captured with
  | none => W.nil
  | some _ => ((f.capturedValue name).or (W.objectProto name)).getD W.nil

/-- What an instruction that reads a name pushes. -/
def pushed : Op → Option V
  | .pushLocal s => f.locals[s.index]?
  | .pushCaptured name => some (capturedAttribute W f name)
  | .pushInstVar name => W.instVar f.self name
  | .pushOwnInstVar name => W.ownInstVar f.self name
  | .pushGlobal name => W.global name
  | _ => none

/-- What the program reads under a name at the instruction of the frame. -/
def reads (x : String) : Option V :=
  if x = "self" then some f.self
  else (u.scopeAt f.pc).bind fun s => (loadOp u.ctx s x).bind (pushed W f)

end Reads

/-- A temporary of the compiler: a counter is in the slot of its number. -/
def Hidden (x : String) (slot : Nat) : Prop := Temporary x ∧ ∀ k, x = counter k → slot = k

/-- The variables in scope at `pc`: the arguments and temporaries, the variables of the inlined
loops around, and those that an assignment has declared. -/
def Declares (u : CodeUnit) (pc : Nat) (x : String) : Prop :=
  x ≠ "self" ∧ (x ∈ u.args ++ u.locals ∨ ∃ s, u.scopeAt pc = some s ∧
    (x ∈ s.loopArgs ∨ ∃ slot, s.slots.lookup x = some slot ∧ ¬ Hidden x slot))

/-- The debugger shows the variables that the program sees. -/
structure Shows [DecidableEq V] (u : CodeUnit) (W : Outside V) (f : DebugFrame V) : Prop where
  values : ∀ v ∈ frameVariables u W f, reads u W f v.name = some v.value
  once : ((frameVariables u W f).map FrameVariable.name).Nodup
  listed : ∀ x, Declares u f.pc x → x ∈ (frameVariables u W f).map FrameVariable.name

/-- The condition, in the scope `s` of the instruction of the frame. -/
structure Clear (u : CodeUnit) (W : Outside V) (f : DebugFrame V) (s : Scope) : Prop where
  /-- No variable is called `__…`, and each has a slot in the frame or a binding. -/
  visible : ∀ x, Declares u f.pc x → shown x = true ∧ ∃ slot, s.slots.lookup x = some slot ∧
    (slot < f.locals.length ∨ isCaptured u.ctx s x = true ∧ (f.capturedValue x).isSome)
  /-- A variable whose slot holds nil hides no binding of its name, or one that is nil. -/
  alone : ∀ (x : String) (slot : Nat), s.slots.lookup x = some slot → shown x = true → x ≠ "self" →
    isCaptured u.ctx s x = false → f.locals[slot]? = some W.nil →
    ∀ v, f.capturedValue x = some v → v = W.nil
  /-- The slot of a captured variable holds what its binding does, or nil if it is bound. -/
  bound : ∀ (x : String) (slot : Nat), s.slots.lookup x = some slot → shown x = true → x ≠ "self" →
    isCaptured u.ctx s x = true →
    (∀ v, f.locals[slot]? = some v → v ≠ W.nil → capturedAttribute W f x = v) ∧
      (f.locals[slot]? = some W.nil → f.capturedValue x = none → capturedAttribute W f x = W.nil)
  /-- A variable that an assignment further on declares: the name stands for the same now. -/
  early : ∀ (x : String) (slot : Nat), u.localNames[slot]? = some x → shown x = true → x ≠ "self" →
    s.slots.lookup x = none → ∀ v, f.locals[slot]? = some v → ∃ r, reads u W f x = some r ∧
      (v ≠ W.nil ∧ r = v ∨ v = W.nil ∧ r = (f.capturedValue x).getD W.nil)
  /-- The receiver is in the slot of `self`. -/
  receiver : ∀ (slot : Nat) v, u.localNames[slot]? = some "self" → f.locals[slot]? = some v →
    v = f.self

/-! ## The list of variables -/

section Collect

/-- What a pass over candidates adds: the first of each name that is shown and new. -/
theorem mem_foldl_addVariable {cs out : List (FrameVariable V)} {v : FrameVariable V} :
    v ∈ cs.foldl addVariable out ↔ v ∈ out ∨ shown v.name = true ∧
      v.name ∉ out.map FrameVariable.name ∧ cs.find? (fun c => c.name == v.name) = some v := by
  induction cs generalizing out with
  | nil => simp
  | cons c cs ih =>
    rw [List.foldl_cons, ih]
    unfold addVariable taken
    by_cases hname : c.name = v.name
    · rw [List.find?_cons_of_pos (by rw [beq_iff_eq]; exact hname), hname]
      cases hshown : shown v.name with
      | false => simp
      | true =>
        by_cases htaken : v.name ∈ out.map FrameVariable.name
        · simp [htaken]
        · rw [if_neg (by simpa using htaken)]
          simp only [List.mem_append, List.mem_singleton, List.map_append, List.map_cons,
            List.map_nil, hname, or_true, not_true_eq_false, false_and, and_false, or_false, htaken,
            not_false_eq_true, true_and, Option.some.injEq]
          exact or_congr_right eq_comm
    · rw [List.find?_cons_of_neg (by rw [beq_iff_eq]; exact hname)]
      split
      · rfl
      · have hne : v ≠ c := fun heq => hname (heq ▸ rfl)
        have hne' : ¬ v.name = c.name := fun heq => hname heq.symm
        simp [hne, hne']

theorem nodup_foldl_addVariable (cs : List (FrameVariable V)) {out : List (FrameVariable V)}
    (h : (out.map FrameVariable.name).Nodup) :
    ((cs.foldl addVariable out).map FrameVariable.name).Nodup := by
  induction cs generalizing out with
  | nil => exact h
  | cons c cs ih =>
    rw [List.foldl_cons]
    apply ih
    unfold addVariable taken
    split
    · exact h
    · rename_i hnew
      rw [List.map_append, List.nodup_append]
      refine ⟨h, List.nodup_singleton _, fun a ha b hb heq => hnew ?_⟩
      cases List.mem_singleton.mp hb
      rw [Bool.or_eq_true]
      exact .inr (List.contains_iff_mem.mpr (heq ▸ ha))

end Collect

section List

variable [DecidableEq V] {u : CodeUnit} {W : Outside V} {f : DebugFrame V}

/-- The variables that are shown, apart from a receiver put in front. -/
def shownVariables (u : CodeUnit) (W : Outside V) (f : DebugFrame V) : List (FrameVariable V) :=
  ((slotOrder u f).map (slotVariable u W f) ++ capturedVariables u f).foldl addVariable []

variable {v : FrameVariable V}

theorem mem_shownVariables :
    v ∈ shownVariables u W f ↔ shown v.name = true ∧
      (((slotOrder u f).map (slotVariable u W f)).find? fun c => c.name == v.name).or
        ((capturedVariables u f).find? fun c => c.name == v.name) = some v := by
  unfold shownVariables
  rw [mem_foldl_addVariable, List.find?_append]
  simp

theorem frameVariables_eq : frameVariables u W f =
    if !((shownVariables u W f).map FrameVariable.name).contains "self" && decide (f.self ≠ W.nil)
    then ⟨"self", f.self⟩ :: shownVariables u W f else shownVariables u W f := by
  unfold frameVariables shownVariables
  rw [List.foldl_append]

theorem mem_frameVariables (h : v ∈ frameVariables u W f) :
    v ∈ shownVariables u W f ∨ v = ⟨"self", f.self⟩ := by
  rw [frameVariables_eq] at h
  split at h
  · exact (List.mem_cons.mp h).symm
  · exact .inl h

theorem mem_frameVariables_of_shown (h : v ∈ shownVariables u W f) :
    v ∈ frameVariables u W f := by
  rw [frameVariables_eq]
  split
  · exact List.mem_cons_of_mem _ h
  · exact h

theorem nodup_frameVariables : ((frameVariables u W f).map FrameVariable.name).Nodup := by
  have hnodup : ((shownVariables u W f).map FrameVariable.name).Nodup :=
    nodup_foldl_addVariable _ List.nodup_nil
  rw [frameVariables_eq]
  split
  · rename_i hself
    rw [List.map_cons, List.nodup_cons]
    refine ⟨fun hmem => ?_, hnodup⟩
    rw [Bool.and_eq_true, Bool.not_eq_true'] at hself
    rw [List.contains_iff_mem.mpr hmem] at hself
    cases hself.1
  · exact hnodup

theorem shown_of_mem (h : v ∈ frameVariables u W f) :
    shown v.name = true := by
  rcases mem_frameVariables h with h | rfl
  · exact (mem_shownVariables.mp h).1
  · exact (by decide : shown "self" = true)

end List

/-- The dictionaries are asked for the names that the code captures. -/
theorem find?_capturedVariables {u : CodeUnit} {f : DebugFrame V} {x : String}
    {v : FrameVariable V} :
    (capturedVariables u f).find? (fun c => c.name == x) = some v ↔
      v.name = x ∧ f.capturedValue x = some v.value ∧ ∃ i ∈ u.code, capturedName i = some x := by
  have hmem : ∀ c ∈ capturedVariables u f, f.capturedValue c.name = some c.value ∧
      ∃ i ∈ u.code, capturedName i = some c.name := by
    intro c hc
    obtain ⟨i, hi, hsome⟩ := List.mem_filterMap.mp hc
    obtain ⟨name, hname, hvalue⟩ := Option.bind_eq_some_iff.mp hsome
    obtain ⟨w, hw, rfl⟩ := Option.map_eq_some_iff.mp hvalue
    exact ⟨hw, i, hi, hname⟩
  constructor
  · intro hfind
    have hname := List.find?_some hfind
    rw [beq_iff_eq] at hname
    subst hname
    obtain ⟨hvalue, hop⟩ := hmem v (List.mem_of_find?_eq_some hfind)
    exact ⟨rfl, hvalue, hop⟩
  · rintro ⟨rfl, hvalue, i, hi, hname⟩
    have hin : v ∈ capturedVariables u f := by
      refine List.mem_filterMap.mpr ⟨i, hi, ?_⟩
      rw [hname, Option.bind_some, hvalue]
      rfl
    cases hfind : (capturedVariables u f).find? (fun c => c.name == v.name) with
    | none =>
      have hnone := List.find?_eq_none.mp hfind v hin
      exact absurd (beq_iff_eq.mpr rfl) hnone
    | some c =>
      have hcname := List.find?_some hfind
      rw [beq_iff_eq] at hcname
      have hc := (hmem c (List.mem_of_find?_eq_some hfind)).1
      rw [hcname, hvalue] at hc
      obtain ⟨name, value⟩ := c
      cases hcname
      cases hc
      rfl


/-! ## The slots of a name -/

/-- An instruction with what is known of its scope. -/
structure Point (u : CodeUnit) (pc : Nat) (s : Scope) (S : Setting) (D T E : Table) : Prop where
  recorded : Recorded u S D E
  before : Extends S [] D T
  behind : Extends S [] T E
  view : View S (u.layout.loopsAt pc) T s

theorem exists_point {u : CodeUnit} (h : EmittedUnit u) {pc : Nat} {s : Scope}
    (hs : u.scopeAt pc = some s) : ∃ S D T E, Point u pc s S D T E := by
  obtain ⟨S, D, E, hrecorded⟩ := h.recorded
  obtain ⟨⟨i, s'⟩, hinstr, rfl⟩ := Option.map_eq_some_iff.mp hs
  obtain ⟨T, hbefore, hbehind, hview⟩ := hrecorded.placed.views pc i s' hinstr
  rw [List.append_nil] at hview
  exact ⟨S, D, T, E, hrecorded, hbefore, hbehind, hview⟩

section Slots

variable {u : CodeUnit} {W : Outside V} {f : DebugFrame V} {s : Scope} {S : Setting}
  {D T E : Table}

theorem find?_congr {α : Type} {p q : α → Bool} {l : List α} (h : ∀ a ∈ l, p a = q a) :
    l.find? p = l.find? q := by
  induction l with
  | nil => rfl
  | cons a l ih =>
    rw [List.find?_cons, List.find?_cons, h a List.mem_cons_self,
      ih fun b hb => h b (List.mem_cons_of_mem _ hb)]

theorem lookup_map_locals (l : List ScopedLocal) (x : String) :
    (l.map fun sl => (sl.name, sl.slot)).lookup x =
      (l.find? fun sl => sl.name == x).map ScopedLocal.slot := by
  induction l with
  | nil => rfl
  | cons sl l ih =>
    rw [List.map_cons, List.lookup_cons, List.find?_cons, BEq.comm]
    cases sl.name == x with
    | true => rfl
    | false => exact ih

theorem find?_unique {α : Type} {p : α → Bool} {l : List α} {a : α} (ha : a ∈ l)
    (hp : p a = true) (hunique : ∀ b ∈ l, p b = true → b = a) : l.find? p = some a := by
  cases hfind : l.find? p with
  | none => exact absurd hp (List.find?_eq_none.mp hfind a ha)
  | some b => rw [hunique b (List.mem_of_find?_eq_some hfind) (List.find?_some hfind)]

/-- The first of a list that a filter keeps is the first of what is kept. -/
theorem find?_filter_of_find? {α : Type} {p q : α → Bool} {l : List α} {a : α}
    (h : l.find? q = some a) (hp : p a = true) : (l.filter p).find? q = some a := by
  obtain ⟨hq, as, bs, rfl, has⟩ := List.find?_eq_some_iff_append.mp h
  rw [List.filter_append, List.filter_cons_of_pos hp, List.find?_append,
    List.find?_cons_of_pos hq]
  have hnone : (as.filter p).find? q = none := by
    rw [List.find?_eq_none]
    intro b hb hqb
    have hnot := has b (List.mem_filter.mp hb).1
    rw [hqb] at hnot
    cases hnot
  rw [hnone]
  rfl

/-- A frame whose loops have counters of their own. -/
structure Apart (u : CodeUnit) (f : DebugFrame V) (T : Table) : Prop where
  counters : Counters (u.layout.loopsAt f.pc) T
  visible : ∀ b ∈ u.layout.loopsAt f.pc, shown b.1 = true

theorem mem_activeLocals {sl : ScopedLocal} (h : sl ∈ activeLocals u f) :
    sl.slot < f.locals.length ∧ (sl.name, sl.slot) ∈ u.layout.loopsAt f.pc := by
  obtain ⟨hmem, hboth⟩ := List.mem_filter.mp h
  rw [Bool.and_eq_true, decide_eq_true_eq] at hboth
  exact ⟨hboth.1, List.mem_map.mpr ⟨sl, List.mem_filter.mpr ⟨hmem, hboth.2⟩, rfl⟩⟩

theorem activeLocals_eq : activeLocals u f =
    (u.scopedLocals.filter fun sl => sl.covers f.pc).filter fun sl =>
      decide (sl.slot < f.locals.length) := by
  unfold activeLocals
  rw [List.filter_filter]

theorem Apart.distinct (h : Apart u f T) :
    (activeLocals u f).Pairwise fun a b => a.slot ≠ b.slot := by
  have hloops := List.pairwise_map.mp h.counters.distinct
  rw [activeLocals_eq]
  exact hloops.sublist List.filter_sublist

theorem Apart.slotNames_counter (h : Apart u f T) {sl : ScopedLocal}
    (hsl : sl ∈ activeLocals u f) : (slotNames u f)[sl.slot]? = some sl.name := by
  apply foldl_set_written ScopedLocal.slot ScopedLocal.name h.distinct hsl
  rw [List.length_map, List.length_range]
  exact (mem_activeLocals hsl).1

theorem slotNames_other {i : Nat} (hi : i < f.locals.length)
    (hnone : i ∉ (activeLocals u f).map ScopedLocal.slot) :
    (slotNames u f)[i]? = some (localName u i) := by
  have huntouched : ∀ sl ∈ activeLocals u f, sl.slot ≠ i := fun sl hsl heq =>
    hnone (List.mem_map.mpr ⟨sl, hsl, heq⟩)
  unfold slotNames
  rw [foldl_set_untouched ScopedLocal.slot ScopedLocal.name huntouched, List.getElem?_map,
    List.getElem?_range hi]
  rfl

variable [DecidableEq V] {x : String}

theorem Apart.slotVariable_name (h : Apart u f T) : ∀ sl ∈ activeLocals u f,
    ((fun c => c.name == x) ∘ fun sl => slotVariable u W f sl.slot) sl = (sl.name == x) := by
  intro sl hsl
  rw [Function.comp_apply]
  unfold slotVariable
  rw [h.slotNames_counter hsl]
  rfl

/-- The variable of a loop is found in its counter. -/
theorem Apart.find?_loop (h : Apart u f T) {slot : Nat} {v : V}
    (hx : (u.layout.loopsAt f.pc).lookup x = some slot) (hv : f.locals[slot]? = some v) :
    ((slotOrder u f).map (slotVariable u W f)).find? (fun c => c.name == x) =
      some ⟨x, slotValue W f x v⟩ := by
  have hlt : slot < f.locals.length := (List.getElem?_eq_some_iff.mp hv).1
  have hx' : ((u.scopedLocals.filter fun sl => sl.covers f.pc).find?
      fun sl => sl.name == x).map ScopedLocal.slot = some slot := by
    rw [← lookup_map_locals]
    exact hx
  obtain ⟨sl, hfind, rfl⟩ := Option.map_eq_some_iff.mp hx'
  have hname := List.find?_some hfind
  rw [beq_iff_eq] at hname
  subst hname
  have hactive : (activeLocals u f).find? (fun c => c.name == sl.name) = some sl := by
    rw [activeLocals_eq]
    exact find?_filter_of_find? hfind (decide_eq_true hlt)
  have hvariable : slotVariable u W f sl.slot = ⟨sl.name, slotValue W f sl.name v⟩ := by
    unfold slotVariable
    rw [h.slotNames_counter (List.mem_of_find?_eq_some hactive), hv]
    rfl
  have hcounters : ((activeLocals u f).map fun c => slotVariable u W f c.slot).find?
      (fun c => c.name == sl.name) = some (slotVariable u W f sl.slot) := by
    rw [List.find?_map, find?_congr h.slotVariable_name, hactive]
    rfl
  unfold slotOrder
  rw [List.map_append, List.find?_append, List.map_map]
  show (((activeLocals u f).map fun c => slotVariable u W f c.slot).find? _).or _ = _
  rw [hcounters, hvariable]
  rfl

/-- Another variable is found in the slot that has its name. -/
theorem Apart.find?_slot (h : Apart u f T) (hview : View S [] E u.last)
    (hcounters : ∀ b ∈ u.layout.loopsAt f.pc, E (counter b.2) = some b.2)
    (hx : shown x = true) (hloop : (u.layout.loopsAt f.pc).lookup x = none) :
    ((slotOrder u f).map (slotVariable u W f)).find? (fun c => c.name == x) =
      (E x).bind fun slot => f.locals[slot]?.map fun v => ⟨x, slotValue W f x v⟩ := by
  have hactive : (activeLocals u f).find? (fun sl => sl.name == x) = none := by
    rw [List.find?_eq_none]
    intro sl hsl hname
    have hmem := (mem_activeLocals hsl).2
    rw [beq_iff_eq.mp hname] at hmem
    rw [List.lookup_eq_none_iff] at hloop
    have hne := hloop _ hmem
    simp at hne
  have hrest : ∀ i ∈ (List.range f.locals.length).filter (fun i =>
      !((activeLocals u f).map ScopedLocal.slot).contains i),
      ((fun c => c.name == x) ∘ slotVariable u W f) i = (localName u i == x) := by
    intro i hi
    obtain ⟨hrange, hnot⟩ := List.mem_filter.mp hi
    rw [Bool.not_eq_true', List.contains_eq_mem, decide_eq_false_iff_not] at hnot
    rw [Function.comp_apply]
    unfold slotVariable
    rw [slotNames_other (List.mem_range.mp hrange) hnot]
    rfl
  have hlocalName : ∀ i, (localName u i == x) = true ↔ E x = some i := by
    intro i
    rw [beq_iff_eq, ← hview.localNames_iff hx i]
    unfold localName CodeUnit.localNames
    cases hname : (localNames u.last)[i]? with
    | none =>
      have hempty : "" ≠ x := fun heq => by
        rw [← heq] at hx
        exact absurd hx (by decide)
      exact iff_of_false hempty fun hsome => by cases hsome
    | some name => exact Option.some_inj.symm
  unfold slotOrder
  rw [List.map_append, List.find?_append, List.map_map]
  have hnone : ((activeLocals u f).map fun c => slotVariable u W f c.slot).find?
      (fun c => c.name == x) = none := by
    rw [List.find?_map, find?_congr h.slotVariable_name, hactive]
    rfl
  show (((activeLocals u f).map fun c => slotVariable u W f c.slot).find? _).or _ = _
  rw [hnone, Option.none_or, List.find?_map, find?_congr hrest]
  cases hE : E x with
  | none =>
    have hfind : ((List.range f.locals.length).filter fun i =>
        !((activeLocals u f).map ScopedLocal.slot).contains i).find?
          (fun i => localName u i == x) = none := by
      rw [List.find?_eq_none]
      intro i _ hi
      rw [hlocalName, hE] at hi
      cases hi
    rw [hfind]
    rfl
  | some slot =>
    rw [Option.bind_some]
    cases hv : f.locals[slot]? with
    | none =>
      have hfind : ((List.range f.locals.length).filter fun i =>
          !((activeLocals u f).map ScopedLocal.slot).contains i).find?
            (fun i => localName u i == x) = none := by
        rw [List.find?_eq_none]
        intro i hi hname
        rw [hlocalName, hE] at hname
        cases hname
        have hlt := List.mem_range.mp (List.mem_filter.mp hi).1
        exact Nat.not_le_of_lt hlt (List.getElem?_eq_none_iff.mp hv)
      rw [hfind]
      rfl
    | some v =>
      have hlt : slot < f.locals.length := (List.getElem?_eq_some_iff.mp hv).1
      -- No counter is in the slot of a variable.
      have hnot : slot ∉ (activeLocals u f).map ScopedLocal.slot := by
        intro hmem
        obtain ⟨sl, hsl, rfl⟩ := List.mem_map.mp hmem
        have heq := hview.injective _ _ _ (hcounters _ (mem_activeLocals hsl).2) hE
        rw [← heq, shown_counter] at hx
        cases hx
      have hfind : ((List.range f.locals.length).filter fun i =>
          !((activeLocals u f).map ScopedLocal.slot).contains i).find?
            (fun i => localName u i == x) = some slot := by
        apply find?_unique
        · rw [List.mem_filter, Bool.not_eq_true', List.contains_eq_mem, decide_eq_false_iff_not]
          exact ⟨List.mem_range.mpr hlt, hnot⟩
        · exact (hlocalName slot).mpr hE
        · intro i _ hi
          rw [hlocalName, hE] at hi
          cases hi
          rfl
      have hname : localName u slot = x := beq_iff_eq.mp ((hlocalName slot).mpr hE)
      rw [hfind, Option.map_some, Option.map_some]
      unfold slotVariable
      rw [slotNames_other hlt hnot, hv, hname]
      rfl

/-- Where a shown name is found: in the counter of its loop, or the slot that has its name. -/
theorem Apart.find?_variable (h : Apart u f T) (hview : View S [] E u.last)
    (hcounters : ∀ b ∈ u.layout.loopsAt f.pc, E (counter b.2) = some b.2)
    (hx : shown x = true)
    (hin : ∀ slot, (u.layout.loopsAt f.pc).lookup x = some slot → slot < f.locals.length) :
    ((slotOrder u f).map (slotVariable u W f)).find? (fun c => c.name == x) =
      (((u.layout.loopsAt f.pc).lookup x).or (E x)).bind fun slot =>
        f.locals[slot]?.map fun v => ⟨x, slotValue W f x v⟩ := by
  cases hloop : (u.layout.loopsAt f.pc).lookup x with
  | none => exact h.find?_slot hview hcounters hx hloop
  | some slot =>
    have hv := List.getElem?_eq_getElem (hin slot hloop)
    rw [h.find?_loop hloop hv, Option.some_or, Option.bind_some, hv]
    rfl

end Slots

/-! ## The program and the debugger -/

section Points

variable {u : CodeUnit} {W : Outside V} {f : DebugFrame V} {s : Scope} {S : Setting}
  {D T E : Table} {x : String} {slot : Nat}

theorem lookup_self (hself : ∀ l ∈ u.scopedLocals, l.name ≠ "self") (pc : Nat) :
    (u.layout.loopsAt pc).lookup "self" = none := by
  rw [List.lookup_eq_none_iff]
  intro b hb
  obtain ⟨sl, hsl, rfl⟩ := List.mem_map.mp hb
  exact bne_iff_ne.mpr fun heq => hself sl (List.mem_filter.mp hsl).1 heq.symm

theorem reads_self : reads u W f "self" = some f.self := if_pos rfl

theorem reads_captured (hs : u.scopeAt f.pc = some s) (hx : x ≠ "self")
    (hcaptured : isCaptured u.ctx s x = true) :
    reads u W f x = some (capturedAttribute W f x) := by
  have hload : loadOp u.ctx s x = some (.pushCaptured x) := by
    unfold loadOp loadTarget
    rw [if_pos hcaptured]
  unfold reads
  rw [if_neg hx, hs, Option.bind_some, hload]
  rfl

theorem reads_slot (hs : u.scopeAt f.pc = some s) (hx : x ≠ "self")
    (hcaptured : isCaptured u.ctx s x = false) (hslot : s.slots.lookup x = some slot) :
    reads u W f x = f.locals[slot]? := by
  have hresolve : resolveLocal u.ctx s x = some ⟨u.ctx.enclosing.length, slot⟩ := by
    unfold resolveLocal scopes resolveIn
    rw [hslot]
  have hload : loadOp u.ctx s x = some (.pushLocal ⟨u.ctx.enclosing.length, slot⟩) := by
    unfold loadOp loadTarget
    rw [if_neg (Bool.eq_false_iff.mp hcaptured), hresolve]
  unfold reads
  rw [if_neg hx, hs, Option.bind_some, hload]
  rfl

namespace Point

variable (p : Point u f.pc s S D T E)
include p

theorem slot_eq (hslot : s.slots.lookup x = some slot) :
    ((u.layout.loopsAt f.pc).lookup x).or (E x) = some slot := by
  rw [p.view.slots] at hslot
  cases hloop : (u.layout.loopsAt f.pc).lookup x with
  | some k =>
    rw [hloop] at hslot
    exact hslot
  | none =>
    rw [hloop] at hslot
    exact p.behind.keeps x slot hslot

theorem captured_iff (x : String) : isCaptured u.ctx s x = true ↔
    (u.layout.loopsAt f.pc).lookup x = none ∧ S.Caught T x :=
  isCaptured_iff p.recorded.enclosing p.view x

/-- The variables that are declared have a slot in the scope. -/
theorem slot_of_declares (hs : u.scopeAt f.pc = some s) (h : Declares u f.pc x) :
    ∃ slot, s.slots.lookup x = some slot := by
  rw [← Option.isSome_iff_exists]
  obtain ⟨-, hnamed | ⟨s', hs', hloop | ⟨slot, hslot, -⟩⟩⟩ := h
  · have hD : (D x).isSome := (p.recorded.declared x).mpr (by
      rw [List.append_assoc]
      exact List.mem_append_right _ hnamed)
    obtain ⟨slot, hslot⟩ := Option.isSome_iff_exists.mp hD
    rw [p.view.slots, Option.isSome_or, p.before.keeps x slot hslot, Bool.or_eq_true]
    exact .inr rfl
  · rw [hs] at hs'
    cases hs'
    rw [p.view.loopArgs] at hloop
    obtain ⟨b, hb, rfl⟩ := List.mem_map.mp hloop
    rw [p.view.slots, Option.isSome_or, Bool.or_eq_true]
    refine .inl (Option.isSome_iff_ne_none.mpr fun hnone => ?_)
    have hne := List.lookup_eq_none_iff.mp hnone b hb
    exact bne_iff_ne.mp hne rfl
  · rw [hs] at hs'
    cases hs'
    rw [hslot]
    rfl

/-- If no variable that is declared is hidden, the loops have counters of their own. -/
theorem apart (hs : u.scopeAt f.pc = some s) (hself : ∀ l ∈ u.scopedLocals, l.name ≠ "self")
    (hvisible : ∀ x, Declares u f.pc x → shown x = true) : Apart u f T := by
  have hloops : ∀ b ∈ u.layout.loopsAt f.pc, shown b.1 = true := by
    intro b hb
    obtain ⟨sl, hsl, rfl⟩ := List.mem_map.mp hb
    refine hvisible _ ⟨hself sl (List.mem_filter.mp hsl).1, .inr ⟨s, hs, .inl ?_⟩⟩
    rw [p.view.loopArgs]
    exact List.mem_map_of_mem hb
  have hself' : ∀ k, counter k ≠ "self" := fun k heq => by
    have hhidden := shown_counter k
    rw [heq] at hhidden
    exact absurd hhidden (by decide)
  have hown : T.Own := by
    intro k slot hT
    refine Decidable.byContradiction fun hne => ?_
    have hshown : shown (counter k) = true := by
      apply hvisible
      refine ⟨hself' k, .inr ⟨s, hs, ?_⟩⟩
      cases hloop : (u.layout.loopsAt f.pc).lookup (counter k) with
      | some j =>
        refine .inl ?_
        rw [p.view.loopArgs]
        exact List.mem_map_of_mem (mem_of_lookup hloop)
      | none =>
        refine .inr ⟨slot, ?_, fun hhidden => hne (hhidden.2 k rfl)⟩
        rw [p.view.slots, hloop]
        exact hT
    rw [shown_counter] at hshown
    cases hshown
  exact ⟨p.view.counters hloops hown, hloops⟩

theorem counters (h : Apart u f T) :
    ∀ b ∈ u.layout.loopsAt f.pc, E (counter b.2) = some b.2 := fun b hb =>
  p.behind.keeps _ _ (h.counters.declared b hb)

/-- The instruction of a captured name is there if the name is not in a slot of the frame. -/
theorem defined (hs : u.scopeAt f.pc = some s) (hx : shown x = true) (hdeclares : Declares u f.pc x)
    (hcaptured : isCaptured u.ctx s x = true) : ∃ i ∈ u.code, capturedName i = some x := by
  obtain ⟨hloop, hcaught⟩ := (p.captured_iff x).mp hcaptured
  obtain ⟨slot, hslot⟩ := p.slot_of_declares hs hdeclares
  rw [p.view.slots, hloop, Option.none_or] at hslot
  have hmem : x ∈ S.captured := by
    refine hcaught.resolve_right fun hnone => ?_
    rw [hslot] at hnone
    cases hnone.1
  have hD : (D x).isSome := by
    refine Option.isSome_iff_ne_none.mpr fun hnone => ?_
    refine (p.before.added x hnone ?_).2 hx (.inl hmem)
    rw [hslot]
    exact Option.some_ne_none slot
  rw [p.recorded.declared, List.append_assoc, List.mem_append] at hD
  refine p.recorded.defined x (hD.resolve_left fun hmem => ?_) hmem
  split at hmem
  · exact hdeclares.1 (List.mem_singleton.mp hmem)
  · cases hmem

variable [DecidableEq V]

theorem shown_slot (h : Apart u f T) (hx : shown x = true) {v : V}
    (hslot : ((u.layout.loopsAt f.pc).lookup x).or (E x) = some slot)
    (hv : f.locals[slot]? = some v) :
    (⟨x, slotValue W f x v⟩ : FrameVariable V) ∈ shownVariables u W f := by
  rw [mem_shownVariables]
  refine ⟨hx, ?_⟩
  dsimp only
  rw [h.find?_variable p.recorded.last (p.counters h) hx, hslot, Option.bind_some, hv]
  · rfl
  · intro k hk
    rw [hk] at hslot
    cases hslot
    exact (List.getElem?_eq_some_iff.mp hv).1

end Point

theorem capturedAttribute_of_bound {v : V} (h : f.capturedValue x = some v) :
    capturedAttribute W f x = v := by
  unfold capturedAttribute
  cases hcaptured : f.captured with
  | none =>
    unfold DebugFrame.capturedValue at h
    rw [hcaptured] at h
    cases h
  | some ds =>
    rw [h]
    rfl

theorem Clear.loop_inside (h : Clear u W f s) (p : Point u f.pc s S D T E)
    (hs : u.scopeAt f.pc = some s) (hself : x ≠ "self")
    (hloop : (u.layout.loopsAt f.pc).lookup x = some slot) : slot < f.locals.length := by
  have hslot : s.slots.lookup x = some slot := by
    rw [p.view.slots, hloop]
    rfl
  have hargs : x ∈ s.loopArgs := by
    rw [p.view.loopArgs]
    exact List.mem_map_of_mem (mem_of_lookup hloop)
  obtain ⟨-, k, hk, hin | ⟨hcaptured, -⟩⟩ := h.visible x ⟨hself, .inr ⟨s, hs, .inl hargs⟩⟩
  · rw [hslot] at hk
    cases hk
    exact hin
  · rw [((p.captured_iff x).mp hcaptured).1] at hloop
    cases hloop

/-- A captured name that is in no slot is read from the same dictionaries. -/
theorem Point.captured_value (p : Point u f.pc s S D T E) (hs : u.scopeAt f.pc = some s)
    (hx : shown x = true) (hself : x ≠ "self") {v : FrameVariable V}
    (hloop : (u.layout.loopsAt f.pc).lookup x = none)
    (hfind : (capturedVariables u f).find? (fun c => c.name == x) = some v) :
    reads u W f x = some v.value := by
  obtain ⟨-, hvalue, i, hi, hname⟩ := find?_capturedVariables.mp hfind
  have hcaught := p.recorded.placed.captured i hi x hname hx
  have hcaptured := (p.captured_iff x).mpr ⟨hloop, (p.before.caught_iff hx).mpr hcaught⟩
  rw [reads_captured hs hself hcaptured, capturedAttribute_of_bound hvalue]

variable [DecidableEq V]

theorem slotValue_of_alone {v : V} (h : v = W.nil → ∀ w, f.capturedValue x = some w → w = W.nil) :
    slotValue W f x v = v := by
  unfold slotValue
  split
  · rename_i hnil
    cases hbound : f.capturedValue x with
    | none => exact hnil.symm
    | some w => exact (h hnil w hbound).trans hnil.symm
  · rfl

/-- What is shown for the slot of a variable is what the program reads. -/
theorem Clear.slot_value (h : Clear u W f s) (p : Point u f.pc s S D T E)
    (hs : u.scopeAt f.pc = some s) (hx : shown x = true) (hself : x ≠ "self") {v : V}
    (hslot : ((u.layout.loopsAt f.pc).lookup x).or (E x) = some slot)
    (hv : f.locals[slot]? = some v) : reads u W f x = some (slotValue W f x v) := by
  cases hscope : s.slots.lookup x with
  | some k =>
    have hk : k = slot := Option.some_inj.mp ((p.slot_eq hscope).symm.trans hslot)
    subst hk
    cases hcaptured : isCaptured u.ctx s x with
    | false =>
      rw [reads_slot hs hself hcaptured hscope, slotValue_of_alone, hv]
      rintro rfl
      exact h.alone x k hscope hx hself hcaptured hv
    | true =>
      obtain ⟨hvalue, hnil⟩ := h.bound x k hscope hx hself hcaptured
      rw [reads_captured hs hself hcaptured]
      unfold slotValue
      split
      · rename_i heq
        subst heq
        cases hbound : f.capturedValue x with
        | none => rw [hnil hv hbound, Option.getD_none]
        | some w => rw [capturedAttribute_of_bound hbound, Option.getD_some]
      · rename_i hne
        rw [hvalue v hv hne]
  | none =>
    obtain ⟨hloop, -⟩ := p.view.lookup_none hscope
    rw [hloop, Option.none_or] at hslot
    have hname := (p.recorded.last.localNames_iff hx slot).mpr hslot
    obtain ⟨r, hr, hvalue⟩ := h.early x slot hname hx hself hscope v hv
    rw [hr]
    unfold slotValue
    rcases hvalue with ⟨hne, rfl⟩ | ⟨heq, rfl⟩
    · rw [if_neg hne]
    · rw [if_pos heq]

/-- A clear frame shows what the program reads. -/
theorem Clear.shows (h : Clear u W f s) (p : Point u f.pc s S D T E)
    (hs : u.scopeAt f.pc = some s) (hself : ∀ l ∈ u.scopedLocals, l.name ≠ "self") :
    Shows u W f := by
  have hapart := p.apart hs hself fun x hx => (h.visible x hx).1
  have hloopSelf := lookup_self hself f.pc
  have hin : ∀ x slot, (u.layout.loopsAt f.pc).lookup x = some slot → slot < f.locals.length := by
    intro x slot hloop
    apply h.loop_inside p hs (fun heq => ?_) hloop
    rw [heq, hloopSelf] at hloop
    cases hloop
  constructor
  · intro v hv
    rcases mem_frameVariables hv with hv | rfl
    · obtain ⟨hx, hfind⟩ := mem_shownVariables.mp hv
      rw [hapart.find?_variable p.recorded.last (p.counters hapart) hx (hin v.name)] at hfind
      obtain ⟨x, value⟩ := v
      dsimp only at hx hfind ⊢
      rcases Option.or_eq_some_iff.mp hfind with hfound | ⟨hnone, hcaptured⟩
      · obtain ⟨slot, hslot, hvalue⟩ := Option.bind_eq_some_iff.mp hfound
        obtain ⟨w, hw, heq⟩ := Option.map_eq_some_iff.mp hvalue
        cases heq
        by_cases hxself : x = "self"
        · subst hxself
          rw [hloopSelf, Option.none_or] at hslot
          have hname := (p.recorded.last.localNames_iff hx slot).mpr hslot
          rw [slotValue_of_alone fun _ w hw => ?_, h.receiver slot w hname hw]
          · exact reads_self
          · rw [f.capturedValue_self] at hw
            cases hw
        · exact h.slot_value p hs hx hxself hslot hw
      · have hxself : x ≠ "self" := fun heq => by
          have hvalue := (find?_capturedVariables.mp hcaptured).2.1
          rw [heq, f.capturedValue_self] at hvalue
          cases hvalue
        refine p.captured_value hs hx hxself ?_ hcaptured
        cases hloop : (u.layout.loopsAt f.pc).lookup x with
        | none => rfl
        | some slot =>
          rw [hloop, Option.some_or, Option.bind_some,
            List.getElem?_eq_getElem (hin x slot hloop)] at hnone
          cases hnone
    · exact reads_self
  · exact nodup_frameVariables
  · intro x hdeclares
    obtain ⟨hx, slot, hslot, hbound⟩ := h.visible x hdeclares
    have hwhere := p.slot_eq hslot
    cases hv : f.locals[slot]? with
    | some v =>
      exact List.mem_map.mpr
        ⟨_, mem_frameVariables_of_shown (p.shown_slot hapart hx hwhere hv), rfl⟩
    | none =>
      obtain ⟨hcaptured, hsome⟩ := hbound.resolve_left
        (Nat.not_lt.mpr (List.getElem?_eq_none_iff.mp hv))
      obtain ⟨v, hvalue⟩ := Option.isSome_iff_exists.mp hsome
      obtain ⟨i, hi, hname⟩ := p.defined hs hx hdeclares hcaptured
      have hmem : (⟨x, v⟩ : FrameVariable V) ∈ shownVariables u W f := by
        rw [mem_shownVariables]
        refine ⟨hx, ?_⟩
        dsimp only
        rw [hapart.find?_variable p.recorded.last (p.counters hapart) hx (hin x), hwhere,
          Option.bind_some, hv]
        exact find?_capturedVariables.mpr ⟨rfl, hvalue, i, hi, hname⟩
      exact List.mem_map.mpr ⟨_, mem_frameVariables_of_shown hmem, rfl⟩

/-- The debugger shows what the program reads only in a clear frame. -/
theorem Shows.clear (h : Shows u W f) (p : Point u f.pc s S D T E)
    (hs : u.scopeAt f.pc = some s) (hself : ∀ l ∈ u.scopedLocals, l.name ≠ "self") :
    Clear u W f s := by
  have hvisible : ∀ x, Declares u f.pc x → shown x = true := by
    intro x hdeclares
    obtain ⟨v, hv, rfl⟩ := List.mem_map.mp (h.listed x hdeclares)
    exact shown_of_mem hv
  have hapart := p.apart hs hself hvisible
  have hslotShown : ∀ x slot v, shown x = true →
      ((u.layout.loopsAt f.pc).lookup x).or (E x) = some slot → f.locals[slot]? = some v →
      reads u W f x = some (slotValue W f x v) := fun x slot v hx hslot hv =>
    h.values _ (mem_frameVariables_of_shown (p.shown_slot hapart hx hslot hv))
  constructor
  · intro x hdeclares
    have hx := hvisible x hdeclares
    obtain ⟨slot, hslot⟩ := p.slot_of_declares hs hdeclares
    refine ⟨hx, slot, hslot, ?_⟩
    obtain ⟨v, hv, rfl⟩ := List.mem_map.mp (h.listed x hdeclares)
    have hreads := h.values v hv
    cases hcaptured : isCaptured u.ctx s v.name with
    | false =>
      rw [reads_slot hs hdeclares.1 hcaptured hslot] at hreads
      exact .inl (List.getElem?_eq_some_iff.mp hreads).1
    | true =>
      refine (Nat.lt_or_ge slot f.locals.length).imp_right fun hout => ⟨rfl, ?_⟩
      have hv' : v ∈ shownVariables u W f := by
        refine (mem_frameVariables hv).resolve_right fun heq => hdeclares.1 ?_
        rw [heq]
      have hloop := ((p.captured_iff v.name).mp hcaptured).1
      have hin : ∀ k, (u.layout.loopsAt f.pc).lookup v.name = some k → k < f.locals.length := by
        intro k hk
        rw [hloop] at hk
        cases hk
      have hfind := (mem_shownVariables.mp hv').2
      rw [hapart.find?_variable p.recorded.last (p.counters hapart) hx hin, p.slot_eq hslot,
        Option.bind_some, List.getElem?_eq_none hout, Option.map_none,
        Option.none_or] at hfind
      rw [(find?_capturedVariables.mp hfind).2.1]
      rfl
  · intro x slot hslot hx hxself hcaptured hnil v hvalue
    have hreads := hslotShown x slot W.nil hx (p.slot_eq hslot) hnil
    rw [reads_slot hs hxself hcaptured hslot, hnil] at hreads
    unfold slotValue at hreads
    rw [if_pos rfl, hvalue] at hreads
    exact (Option.some_inj.mp hreads).symm
  · intro x slot hslot hx hxself hcaptured
    have hvalue : ∀ v, f.locals[slot]? = some v → capturedAttribute W f x = slotValue W f x v := by
      intro v hv
      have hreads := hslotShown x slot v hx (p.slot_eq hslot) hv
      rw [reads_captured hs hxself hcaptured] at hreads
      exact Option.some_inj.mp hreads
    constructor
    · intro v hv hne
      rw [hvalue v hv]
      exact if_neg hne
    · intro hnil hunbound
      rw [hvalue _ hnil]
      unfold slotValue
      rw [if_pos rfl, hunbound]
      rfl
  · intro x slot hname hx hxself hscope v hv
    have hloop := (p.view.lookup_none hscope).1
    have hslot := (p.recorded.last.localNames_iff hx slot).mp hname
    refine ⟨_, hslotShown x slot v hx (by rw [hloop, hslot]; rfl) hv, ?_⟩
    unfold slotValue
    split
    · rename_i hnil
      exact .inr ⟨hnil, rfl⟩
    · rename_i hne
      exact .inl ⟨hne, rfl⟩
  · intro slot v hname hv
    have hloop := lookup_self hself f.pc
    have hslot := (p.recorded.last.localNames_iff (by decide) slot).mp hname
    have hreads := hslotShown "self" slot v (by decide) (by rw [hloop, hslot]; rfl) hv
    rw [reads_self, slotValue_of_alone fun _ w hw => ?_] at hreads
    · exact (Option.some_inj.mp hreads).symm
    · rw [f.capturedValue_self] at hw
      cases hw

end Points

/-- **The debugger shows the variables that the program sees** in every frame of a code unit, at an
instruction where each variable is what its slot or its binding says. -/
theorem frameVariables_iff [DecidableEq V] {u : CodeUnit} (h : EmittedUnit u)
    (hself : ∀ l ∈ u.scopedLocals, l.name ≠ "self") (W : Outside V) (f : DebugFrame V) {s : Scope}
    (hs : u.scopeAt f.pc = some s) : Shows u W f ↔ Clear u W f s := by
  obtain ⟨S, D, T, E, p⟩ := exists_point h hs
  exact ⟨fun hshows => hshows.clear p hs hself, fun hclear => hclear.shows p hs hself⟩

/-! ### A temporary that holds nil -/

/-- `run | t | t := 5. [t]. ^[:x | | t | t]`. -/
def shadowBody : List Node :=
  [.assignment "t" (.literal (.integer 5)), .block [] [] [.identifier "t"],
    .ret (.block ["x"] ["t"] [.identifier "t"])]

def shadowMethod : Module :=
  (emitMethod ⟨false, true, none, [], []⟩ "A" false ⟨[], [], [], []⟩ [] "run" [] ["t"] none
    (fun _ => Emit.code []) shadowBody shadowBody ⟨openScope [] [] [] false, [], [], []⟩).1

/-- Its last block. -/
def shadowUnit : CodeUnit :=
  blockUnit ⟨false, true, some ⟨"A", [], [], false⟩, [], [openScope [] [] [] false]⟩ ["x"] ["t"]
    [.identifier "t"] ⟨openScope ["t"] [] ["t"] true, [], [], []⟩

/-- `nil` is `none`. -/
def numbers : Outside (Option Nat) :=
  ⟨none, fun _ => none, fun _ _ => none, fun _ _ => none, fun _ => none⟩

/-- The block is called with 1. -/
def shadowFrame : DebugFrame (Option Nat) :=
  ⟨0, none, some [⟨fun x => if x = "t" then some (some 5) else none, by decide⟩],
    [some 1, none, none, none]⟩

/-- The block reads nil, and the debugger shows what the method holds. -/
theorem shows_outer_binding :
    (shadowMethod.blocks.map Module.code)[1]? = some shadowUnit.code ∧ EmittedUnit shadowUnit ∧
      (⟨"t", some 5⟩ : FrameVariable (Option Nat)) ∈ frameVariables shadowUnit numbers shadowFrame ∧
      reads shadowUnit numbers shadowFrame "t" = some none ∧
      ¬ Shows shadowUnit numbers shadowFrame := by
  have hmem : (⟨"t", some 5⟩ : FrameVariable (Option Nat)) ∈
      frameVariables shadowUnit numbers shadowFrame := by
    have hvariables : frameVariables shadowUnit numbers shadowFrame =
        [⟨"x", some 1⟩, ⟨"t", some 5⟩] := by rfl
    rw [hvariables]
    exact List.mem_cons_of_mem _ List.mem_cons_self
  have hreads : reads shadowUnit numbers shadowFrame "t" = some none := by rfl
  refine ⟨by rfl, .block _ _ _ _ _, hmem, hreads, fun hshows => ?_⟩
  have hvalue := hshows.values _ hmem
  rw [hreads] at hvalue
  cases hvalue

/-- The same block when its own `t` holds 3. -/
def boundFrame : DebugFrame (Option Nat) :=
  { shadowFrame with locals := [some 1, some 3, none, none] }

theorem clear_boundFrame :
    Clear shadowUnit numbers boundFrame (openScope [] ["x"] ["t"] false) := by
  have hslot : ∀ (x : String) (slot : Nat),
      (openScope [] ["x"] ["t"] false).slots.lookup x = some slot →
        x = "t" ∧ slot = 1 ∨ x = "x" ∧ slot = 0 := by
    intro x slot h
    have hmem : (x, slot) ∈ (openScope [] ["x"] ["t"] false).slots := mem_of_lookup h
    have hslots : (openScope [] ["x"] ["t"] false).slots = [("t", 1), ("x", 0)] := rfl
    rw [hslots] at hmem
    simpa using hmem
  have hlocals : shadowUnit.localNames = ["x", "t"] := rfl
  constructor
  · rintro x ⟨-, hmem | ⟨s, hs, hmem⟩⟩
    · have hnames : shadowUnit.args ++ shadowUnit.locals = ["x", "t"] := rfl
      rw [hnames] at hmem
      rcases List.mem_cons.mp hmem with rfl | hmem
      · exact ⟨by decide, 0, rfl, .inl (by decide)⟩
      · rw [List.mem_singleton.mp hmem]
        exact ⟨by decide, 1, rfl, .inl (by decide)⟩
    · cases (rfl : shadowUnit.scopeAt 0 = some (openScope [] ["x"] ["t"] false)).symm.trans hs
      rcases hmem with hmem | ⟨slot, hlookup, -⟩
      · cases hmem
      · rcases hslot x slot hlookup with ⟨rfl, rfl⟩ | ⟨rfl, rfl⟩ <;>
          exact ⟨by decide, _, hlookup, .inl (by decide)⟩
  · intro x slot hlookup _ _ _ hnil
    rcases hslot x slot hlookup with ⟨-, rfl⟩ | ⟨-, rfl⟩ <;> cases hnil
  · intro x slot hlookup _ _ hcaptured
    rcases hslot x slot hlookup with ⟨rfl, -⟩ | ⟨rfl, -⟩ <;> cases hcaptured
  · intro x slot hname _ _ hscope
    have hx := List.mem_of_getElem? hname
    rw [hlocals] at hx
    rcases List.mem_cons.mp hx with rfl | hx
    · cases hscope
    · cases List.mem_singleton.mp hx
      cases hscope
  · intro slot v hname
    have hself := List.mem_of_getElem? hname
    rw [hlocals] at hself
    exact absurd hself (by decide)

theorem frameVariables_shadowUnit : Shows shadowUnit numbers boundFrame :=
  (frameVariables_iff (.block _ _ _ _ _) (fun _ hl => by cases hl) _ _ (by rfl)).mpr
    clear_boundFrame

end ProtoST.Debugger

import Mathlib
import ProtoST.Frontend.ReplScopes
import ProtoST.Runtime.Handlers

/-!
# Variables of a REPL session

A session compiles one input after the other and keeps what it has compiled: a block of an
input may run in a later one.  An assignment in module-level code to a name that nothing
around it declares sets a global, and a read of it reads the global back.  `PUSH_GLOBAL`
signals an undefined global for the value `nil` also, so a variable that holds `nil` cannot
be read.

## Main results

* `Step.keeps`, `Run.holds` — what a step of the session keeps, and what a run keeps.
* `answers_assigned_iff` — a read answers the value last assigned if and only if that is not
  `nil`.
-/

namespace ProtoST.Runtime.ReplSession

open ProtoST.Frontend ProtoST.Runtime.Bytecode ProtoST.Runtime.Handlers

/-! ## Inputs -/

/-- What is compiled for one input. -/
structure Input where
  groups : Bool
  classes : String → Option ClassScope
  tops : List Top

namespace Input

/-- The compiler accepts the input. -/
def Accepted (i : Input) : Prop := (compileModule true i.groups i.classes i.tops).2 = []

/-- The identifiers of its module-level code and of the blocks in it. -/
def sites (i : Input) : List Site := moduleSites true i.groups i.classes i.tops

end Input

/-! ## Accesses -/

section Session

variable {V W M : Type} [DecidableEq V] (host : Host V W M)

/-- Runs the code of an access on the frame on top. -/
@[grind =] def runCode : Code → W → Activation V M → Except String (W × Activation V M)
  | [], w, f => .ok (w, f)
  | .op i :: rest, w, f =>
    match (handle host f.module [] w i).run f with
    | .ok (.goOn w, f) => runCode rest w f
    | .ok _ => .error "a send or a return in an access"
    | .error text => .error text
  | _ :: _, _, _ => .error "a jump in an access"

/-- The read answers the value. -/
def Answers (s : Site) (w : W) (f : Activation V M) (v : V) : Prop :=
  ∃ w' f', runCode host s.code w f = .ok (w', f') ∧ f'.operands = f.operands ++ [v]

/-- What the globals object does: it gives back what was stored under a name, but for `nil`,
and keeps the names apart. -/
structure Globals : Prop where
  getGlobal_setGlobal : ∀ w x v, v ≠ host.none → host.getGlobal (host.setGlobal w x v) x = v
  getGlobal_setGlobal_ne : ∀ w x v y, y ≠ x →
    host.getGlobal (host.setGlobal w x v) y = host.getGlobal w y

/-- A closure dictionary has its attributes to itself: none of them is a global. -/
def Dictionary (dict : V) : Prop := ∀ w name v x,
  host.getGlobal (host.setAttribute w (capturedOwner host w dict name) name v) x
    = host.getGlobal w x

/-! ## Sessions -/

/-- A session: the runtime, and the value last assigned to each name. -/
structure State (V W : Type) where
  world : W
  assigned : String → Option V

variable (inputs : List Input) (ok : Site → Prop)

/-- A step of the session: an access in module-level code of an input, in the frame of the
module or of a block, a class declaration or `Smalltalk at:put:`, or anything else, which
leaves the globals alone.  `ok` is asked of the assignments to names that nothing declares. -/
inductive Step : State V W → State V W → Prop
  | read {σ : State V W} {i : Input} {s : Site} {f f' : Activation V M} {w : W} : i ∈ inputs →
      s ∈ i.sites → s.use = .read → runCode host s.code σ.world f = .ok (w, f') →
      Step σ ⟨w, σ.assigned⟩
  | assign {σ : State V W} {i : Input} {s : Site} {f f' : Activation V M} {v : V} {w : W} :
      i ∈ inputs → s ∈ i.sites → s.use = .write → s.name ∉ s.place.bound → ok s →
      f.operands.getLast? = some v → runCode host s.code σ.world f = .ok (w, f') →
      Step σ ⟨w, Function.update σ.assigned s.name (some v)⟩
  | assignLocal {σ : State V W} {i : Input} {s : Site} {f f' : Activation V M} {w : W} :
      i ∈ inputs → s ∈ i.sites → s.use = .write → s.name ∈ s.place.bound →
      Dictionary host f.captured → runCode host s.code σ.world f = .ok (w, f') →
      Step σ ⟨w, σ.assigned⟩
  | store {σ : State V W} (x : String) (v : V) :
      Step σ ⟨host.setGlobal σ.world x v, Function.update σ.assigned x (some v)⟩
  | other {σ : State V W} {w : W} : (∀ x, host.getGlobal w x = host.getGlobal σ.world x) →
      Step σ ⟨w, σ.assigned⟩

/-- A run of a session from a runtime in which nothing is assigned yet. -/
def Run (w₀ : W) (σ : State V W) : Prop :=
  Relation.ReflTransGen (Step host inputs ok) ⟨w₀, fun _ => none⟩ σ

end Session

/-! ## What an access does -/

section Access

variable {V W M : Type} [DecidableEq V] {host : Host V W M} {x : String} {w w' : W}
variable {f f' : Activation V M} {v : V}

theorem runCode_pushGlobal :
    runCode host [.op (.pushGlobal x)] w f
      = if host.getGlobal w x = host.none then .error ("undefined global: " ++ x)
        else if f.operands.length < f.maxStack then
          .ok (w, { f with operands := f.operands ++ [host.getGlobal w x] })
        else .error "operand stack overflow" := by
  simp only [runCode, handle]
  by_cases hnone : host.getGlobal w x = host.none
  · simp [hnone, Script.run]
  · by_cases hroom : f.operands.length < f.maxStack
    · simp [hnone, hroom, Script.run]
    · simp [hnone, hroom, Script.run]

/-- A value is pushed again when there is one, and room for it. -/
theorem runCode_dup {rest : Code} (hrun : runCode host (.op .dup :: rest) w f = .ok (w', f')) :
    ∃ v, f.operands.getLast? = some v ∧
      runCode host rest w { f with operands := f.operands ++ [v] } = .ok (w', f') := by
  simp only [runCode, handle, Script.run] at hrun
  cases hv : f.operands.getLast? with
  | none =>
      rw [hv] at hrun
      cases hrun
  | some v =>
      simp only [hv] at hrun
      by_cases hroom : f.operands.length < f.maxStack
      · simp only [hroom, if_true] at hrun
        exact ⟨v, rfl, hrun⟩
      · simp only [hroom, if_false] at hrun
        cases hrun

/-- An assignment to a global stores the value on the stack. -/
theorem runCode_storeGlobal (hv : f.operands.getLast? = some v)
    (hrun : runCode host [.op .dup, .op (.storeGlobal x)] w f = .ok (w', f')) :
    w' = host.setGlobal w x v := by
  obtain ⟨_, hlast, hrun⟩ := runCode_dup hrun
  cases hv.symm.trans hlast
  simp only [runCode, handle, Script.run, List.getLast?_concat, Except.ok.injEq,
    Prod.mk.injEq] at hrun
  exact hrun.1.symm

theorem runCode_storeLocal {slot : Slot}
    (hrun : runCode host [.op .dup, .op (.storeLocal slot)] w f = .ok (w', f')) : w' = w := by
  obtain ⟨v, -, hrun⟩ := runCode_dup hrun
  simp only [runCode, handle, Script.run, List.getLast?_concat] at hrun
  by_cases hslot : slot.index < f.locals.length
  · simp only [hslot, if_true, Except.ok.injEq, Prod.mk.injEq] at hrun
    exact hrun.1.symm
  · simp only [hslot, if_false] at hrun
    cases hrun

theorem runCode_storeCaptured {y : String} (hdict : Dictionary host f.captured)
    (hrun : runCode host [.op .dup, .op (.storeCaptured y)] w f = .ok (w', f')) :
    host.getGlobal w' x = host.getGlobal w x := by
  obtain ⟨v, -, hrun⟩ := runCode_dup hrun
  simp only [runCode, handle, Script.run, List.getLast?_concat] at hrun
  by_cases hnone : f.captured = host.none
  · simp only [hnone, if_true, Script.run] at hrun
    cases hrun
  · simp only [hnone, if_false, Script.run, Except.ok.injEq, Prod.mk.injEq] at hrun
    rw [← hrun.1]
    exact hdict w y v x

/-- A read keeps the runtime. -/
theorem runCode_read {s : Site} (huse : s.use = .read)
    (hrun : runCode host s.code w f = .ok (w', f')) : w' = w := by
  obtain ⟨i, hcode, hi⟩ := Site.code_of_read huse
  rw [hcode] at hrun
  simp only [runCode] at hrun
  have hkeeps : ∀ next f'', (handle host f.module [] w i).run f = .ok (.goOn next, f'') →
      next = w := by
    intro next f'' hhandle
    rcases hi with rfl | ⟨slot, rfl⟩ | rfl | rfl | rfl | rfl
    all_goals
      simp only [handle, Script.run] at hhandle
    · split at hhandle
      · cases hhandle
        rfl
      · cases hhandle
    · split at hhandle
      · split at hhandle
        · cases hhandle
          rfl
        · cases hhandle
      · cases hhandle
    · split at hhandle
      · cases hhandle
        rfl
      · cases hhandle
    · split at hhandle
      · cases hhandle
        rfl
      · cases hhandle
    · split at hhandle
      · cases hhandle
        rfl
      · cases hhandle
    · split at hhandle
      · cases hhandle
      · simp only [Script.run] at hhandle
        split at hhandle
        · cases hhandle
          rfl
        · cases hhandle
  split at hrun
  · rename_i next f'' hhandle
    cases hrun
    exact hkeeps _ _ hhandle
  · cases hrun
  · cases hrun

end Access

/-! ## Runs -/

section Runs

variable {V W M : Type} [DecidableEq V] {host : Host V W M} {inputs : List Input}
variable {σ σ' : State V W}

/-- Every value last assigned is the global of its name, but for `nil`. -/
def State.Holds (host : Host V W M) (σ : State V W) : Prop :=
  ∀ x v, σ.assigned x = some v → v ≠ host.none → host.getGlobal σ.world x = v

omit [DecidableEq V] in
/-- A global is set to the value last assigned. -/
theorem State.Holds.set (hglobals : Globals host) (h : σ.Holds host) (x : String) (v : V) :
    State.Holds host ⟨host.setGlobal σ.world x v, Function.update σ.assigned x (some v)⟩ := by
  intro y u hu hne
  by_cases hy : y = x
  · subst hy
    simp only [Function.update_self, Option.some.injEq] at hu
    subst hu
    exact hglobals.getGlobal_setGlobal _ _ _ hne
  · simp only [Function.update_of_ne hy] at hu
    exact (hglobals.getGlobal_setGlobal_ne _ _ _ _ hy).trans (h y u hu hne)

omit [DecidableEq V] in
theorem State.Holds.keep {w : W} (h : σ.Holds host)
    (hw : ∀ x, host.getGlobal w x = host.getGlobal σ.world x) :
    State.Holds host ⟨w, σ.assigned⟩ :=
  fun x v hv hne => (hw x).trans (h x v hv hne)

/-- **Step.** -/
theorem Step.keeps (hglobals : Globals host)
    (hstep : Step host inputs (fun s => ¬ s.Hidden) σ σ') (h : σ.Holds host) : σ'.Holds host := by
  cases hstep with
  | read _ _ huse hrun =>
      have hw := runCode_read huse hrun
      exact h.keep fun x => by rw [hw]
  | @assign i s f f' v w hi hs huse hbound hclear hv hrun =>
      have hcode := ((moduleSites_atPrompt hs).code_eq_iff hbound).mpr hclear
      rw [hcode, huse] at hrun
      rw [runCode_storeGlobal hv hrun]
      exact h.set hglobals s.name v
  | @assignLocal i s f f' w hi hs huse hbound hdict hrun =>
      have hprompt := moduleSites_atPrompt hs
      obtain ⟨slot, hslot⟩ := Option.isSome_iff_exists.mp (hprompt.opens.resolved _ hbound)
      refine h.keep fun x => ?_
      rcases hprompt.code_of_slot huse hslot with hcode | hcode | hcode
      · rw [hcode] at hrun
        cases hrun
        rfl
      · rw [hcode] at hrun
        exact runCode_storeCaptured hdict hrun
      · rw [hcode] at hrun
        rw [runCode_storeLocal hrun]
  | store x v => exact h.set hglobals x v
  | other hw => exact h.keep hw

/-- **Run.** -/
theorem Run.holds (hglobals : Globals host) {w₀ : W}
    (hrun : Run host inputs (fun s => ¬ s.Hidden) w₀ σ) : σ.Holds host := by
  induction hrun with
  | refl => exact fun x v hv => by cases hv
  | tail _ hstep ih => exact hstep.keeps hglobals ih

/-- In a session whose assignments meet no temporary of the compiler of that name, a read that
meets none either answers the value last assigned if and only if that is not `nil`. -/
theorem answers_assigned_iff (hglobals : Globals host) {w₀ : W}
    (hrun : Run host inputs (fun s => ¬ s.Hidden) w₀ σ) {i : Input} {s : Site} (hs : s ∈ i.sites)
    (huse : s.use = .read) (hbound : s.name ∉ s.place.bound) (hclear : ¬ s.Hidden) {v : V}
    (hassigned : σ.assigned s.name = some v) {f : Activation V M}
    (hroom : f.operands.length < f.maxStack) :
    Answers host s σ.world f v ↔ v ≠ host.none := by
  have hcode := ((moduleSites_atPrompt hs).code_eq_iff hbound).mpr hclear
  rw [huse] at hcode
  rw [Answers, hcode, globalCode]
  simp only [runCode_pushGlobal, hroom, if_true]
  constructor
  · rintro ⟨w', f', hok, hoperands⟩
    by_cases hnone : host.getGlobal σ.world s.name = host.none
    · rw [if_pos hnone] at hok
      cases hok
    · rw [if_neg hnone] at hok
      cases hok
      have heq := List.append_cancel_left hoperands
      rw [← (List.cons.inj heq).1]
      exact hnone
  · intro hne
    have hglobal := hrun.holds hglobals s.name v hassigned hne
    rw [hglobal, if_neg hne]
    exact ⟨_, _, rfl, rfl⟩

end Runs

/-! ## Two sessions -/

/-- A runtime that has only globals: their values are integers and `nil`. -/
def plainHost : Host (Option Int) (List (String × Option Int)) Unit where
  none := none
  bool b := some (if b then 1 else 0)
  materialize w _ := (none, w)
  binInt _ _ _ := none
  objectProto := none
  newChild w _ := (none, w)
  getAttribute _ _ _ := none
  getOwnAttributeDirect _ _ _ := none
  hasOwnAttribute _ _ _ := false
  setAttribute w _ _ _ := w
  setAttributes w _ _ := w
  firstParents _ _ := []
  getGlobal w x := (w.lookup x).getD none
  setGlobal w x v := (x, v) :: w
  newBlock w _ _ _ _ _ := (none, w)
  makeArrayInstance w _ := (none, w)
  attached _ := false

theorem plainHost_globals : Globals plainHost where
  getGlobal_setGlobal w x v _ := by simp [plainHost]
  getGlobal_setGlobal_ne w x v y hy := by
    simp [plainHost, List.lookup_cons, beq_false_of_ne hy]

/-- A frame of a module with an operand on its stack and room for two more. -/
def plainFrame (operands : List (Option Int)) : Activation (Option Int) Unit :=
  ⟨(), 0, [], operands, 3, none, none, 0, 0, none⟩

/-- `x := n.` -/
def assignX (n : Node) : Input := ⟨false, fun _ => none, [.statement (.assignment "x" n)]⟩

/-- `x.` -/
def readX : Input := ⟨false, fun _ => none, [.statement (.identifier "x")]⟩

/-- Where both inputs name the variable. -/
def siteX (use : Use) : Site :=
  ⟨"x", use, ⟨true, false, none, [], []⟩, ⟨[], 0, [], [], [], false⟩, ⟨[], true, 0⟩⟩

/-- The session behind `x := n.`, with the value of `n`. -/
def behind (v : Option Int) : State (Option Int) (List (String × Option Int)) :=
  ⟨[("x", v)], Function.update (fun _ => none) "x" (some v)⟩

theorem run_assignX {ok : Site → Prop} (n : Node) (v : Option Int)
    (hsites : (assignX n).sites = [siteX .write]) (hok : ok (siteX .write)) :
    Run plainHost [assignX n, readX] ok [] (behind v) := by
  have hs : siteX .write ∈ (assignX n).sites := by
    rw [hsites]
    exact List.mem_singleton_self _
  have hv : (plainFrame [v]).operands.getLast? = some v := rfl
  have hrun : runCode plainHost (siteX .write).code [] (plainFrame [v])
      = .ok ([("x", v)], plainFrame [v]) := rfl
  exact .tail .refl (.assign List.mem_cons_self hs rfl (by simp [siteX]) hok hv hrun)

theorem siteX_not_hidden (use : Use) : ¬ (siteX use).Hidden := fun h => by cases h.2

theorem answers_assigned_iff_one :
    Answers plainHost (siteX .read) (behind (some 1)).world (plainFrame []) (some 1)
      ↔ some 1 ≠ plainHost.none := by
  have hs : siteX .read ∈ readX.sites := List.mem_singleton_self _
  exact answers_assigned_iff plainHost_globals
    (run_assignX (.literal (.integer 1)) (some 1) rfl (siteX_not_hidden .write)) hs rfl
    (by simp [siteX]) (siteX_not_hidden .read) rfl (by decide)

/-- Behind `x := nil.` the input `x.` signals an undefined global. -/
theorem nil_not_answered : (assignX .nilLit).Accepted ∧ readX.Accepted ∧
    siteX .read ∈ readX.sites ∧ "x" ∉ (siteX .read).place.bound ∧
    Run plainHost [assignX .nilLit, readX] (fun _ => True) [] (behind none) ∧
    (behind none).assigned "x" = some plainHost.none ∧
    ¬ ∃ v, Answers plainHost (siteX .read) (behind none).world (plainFrame []) v := by
  refine ⟨rfl, rfl, List.mem_singleton_self _, by simp [siteX],
    run_assignX .nilLit none rfl trivial, rfl, ?_⟩
  rintro ⟨v, w', f', hok, -⟩
  cases hok

end ProtoST.Runtime.ReplSession

import ProtoST.Lib.StackDepth
import ProtoST.Runtime.Bytecode

/-!
# The operand-stack depth of a module

`effect` is the operand-stack effect of the instruction handlers of the engine.
`computeMaxOperandDepth` is the single pass of `BytecodeModule.cpp` that sizes
the frames: it goes through the code once, in order, records the depth a forward
jump has at its target, ignores backward jumps, and keeps a stale depth behind
an instruction that leaves the code.

## Main results

* `pass_fits` — the pass computes a depth that structured code fits in.
* `Module.depth_sound` — on every path through a module whose items fit, every
  instruction finds what it pops and stays within `computeMaxOperandDepth`.
-/

namespace ProtoST.Runtime.Bytecode

open ProtoST.Lib.Structured ProtoST.Lib.StackDepth

/-! ## What the handlers pop and push -/

/-- The length of the write group an entry belongs to. -/
def groupCount (entries : List GroupEntry) (entry : Nat) : Nat :=
  match entries[entry]? with
  | some g => g.count
  | none => 0

/-- The values a handler reads off the operand stack. -/
def Op.reads (entries : List GroupEntry) : Op → Nat
  | .pushConst _ | .pushLocal _ | .pushSelf | .pushNil | .pushTrue | .pushFalse => 0
  | .pushBlock _ | .pushCaptured _ | .pushGlobal _ | .pushInstVar _ | .pushOwnInstVar _ => 0
  | .makeCaptured _ => 0
  | .dup | .pop | .storeLocal _ | .storeCaptured _ | .defineCaptured _ => 1
  | .storeGlobal _ | .storeInstVar _ | .storeClassVar _ => 1
  | .ret | .retTop | .assertBoolOrDnu _ | .ivarGroup _ => 1
  | .binInt _ => 2
  | .send kind selector => argCount kind selector + 1
  | .makeArray count => count
  | .ivarGroupEnd entry => groupCount entries entry

/-- The values a handler leaves there instead. -/
def Op.pushes : Op → Nat
  | .pushConst _ | .pushLocal _ | .pushSelf | .pushNil | .pushTrue | .pushFalse => 1
  | .pushBlock _ | .pushCaptured _ | .pushGlobal _ | .pushInstVar _ | .pushOwnInstVar _ => 1
  | .makeCaptured _ => 0
  | .dup => 2
  | .pop | .storeLocal _ | .storeCaptured _ | .defineCaptured _ => 0
  | .storeGlobal _ | .storeInstVar _ | .storeClassVar _ => 0
  | .ret | .retTop => 0
  | .assertBoolOrDnu _ | .ivarGroup _ => 1
  | .binInt _ | .send _ _ | .makeArray _ | .ivarGroupEnd _ => 1

/-- The two returns end the activation. -/
def Op.leaves : Op → Bool
  | .ret | .retTop => true
  | _ => false

/-- The operand of a send has one argument count, and a write group an entry. -/
def Op.Legal (entries : List GroupEntry) : Op → Prop
  | .send kind selector => sendArgCount kind selector = argCount kind selector
  | .ivarGroupEnd entry => 0 < groupCount entries entry
  | _ => True

/-- The effect of the instructions of a module with these write groups. -/
def effect (entries : List GroupEntry) : Effect Op where
  reads := Op.reads entries
  pushes := Op.pushes
  leaves := Op.leaves
  legal := Op.Legal entries

/-! ## The pass -/

/-- The variables of the pass. -/
structure DepthPass where
  atTarget : Nat → Option Nat
  depth : Nat
  maxDepth : Nat
  reachable : Bool

namespace DepthPass

/-- What the pass does at the start of an instruction a jump leads to. -/
def enter (p : DepthPass) (pc : Nat) : DepthPass :=
  match p.atTarget pc with
  | some t =>
    { p with depth := if p.reachable then max p.depth t else t, reachable := true }
  | none => p

/-- The lambda `pushes`, for a change of `add - sub`. -/
def change (p : DepthPass) (add sub : Nat) : DepthPass :=
  { p with depth := p.depth + add - sub
           maxDepth := max p.maxDepth (p.depth + add - sub) }

/-- The lambda `jumpTo`, at the current depth. -/
def jumpTo (p : DepthPass) (target : Nat) : DepthPass :=
  { p with atTarget := fun t =>
      if t = target then some (max ((p.atTarget target).getD 0) p.depth)
      else p.atTarget t }

/-- The instruction behind this one is not reached from it. -/
def cut (p : DepthPass) : DepthPass := { p with reachable := false }

/-- The case of an instruction other than a jump. -/
def op (entries : List GroupEntry) (p : DepthPass) : Op → DepthPass
  | .pushConst _ | .pushLocal _ | .dup | .pushSelf | .pushNil | .pushTrue | .pushFalse =>
    p.change 1 0
  | .pushBlock _ | .pushCaptured _ | .pushGlobal _ | .pushInstVar _ | .pushOwnInstVar _ =>
    p.change 1 0
  | .storeLocal _ | .pop | .storeCaptured _ | .storeGlobal _ | .storeInstVar _ =>
    p.change 0 1
  | .storeClassVar _ | .defineCaptured _ => p.change 0 1
  | .send kind selector => p.change 0 (sendArgCount kind selector)
  | .binInt _ => p.change 0 1
  | .makeArray count => p.change 1 count
  | .ivarGroupEnd entry =>
    let count := groupCount entries entry
    if 0 < count then p.change 1 count else p
  | .ret | .retTop => p.cut
  | .assertBoolOrDnu _ | .makeCaptured _ | .ivarGroup _ => p

/-- One turn of the loop. -/
def step (entries : List GroupEntry) (p : DepthPass) (pc : Nat) : Flat Op → DepthPass
  | .op i => (p.enter pc).op entries i
  | .jumpIf _ offset => ((p.enter pc).change 0 1).jumpTo (pc + 1 + offset)
  | .jump offset => ((p.enter pc).jumpTo (pc + 1 + offset)).cut
  | .jumpBack _ => (p.enter pc).cut

/-- The loop over the code from `pc` on. -/
def run (entries : List GroupEntry) : DepthPass → Nat → FlatCode → DepthPass
  | p, _, [] => p
  | p, pc, f :: fs => run entries (p.step entries pc f) (pc + 1) fs

/-- The variables at the start. -/
def init : DepthPass := ⟨fun _ => none, 0, 0, true⟩

theorem run_append (entries : List GroupEntry) (p : DepthPass) (pc : Nat)
    (a b : FlatCode) :
    run entries p pc (a ++ b) = run entries (run entries p pc a) (pc + a.length) b := by
  induction a generalizing p pc with
  | nil => rfl
  | cons f fs ih =>
    rw [List.cons_append, run, run, ih, List.length_cons]
    congr 1
    omega

end DepthPass

/-- `BytecodeModule::computeMaxOperandDepth`. -/
def Module.computeMaxOperandDepth (m : Module) : Nat :=
  (DepthPass.init.run m.groupEntries 0 m.code).maxDepth

/-- `BytecodeModule::operandStackCapacity`: at least `kMinOperandStack` slots. -/
def Module.operandStackCapacity (m : Module) : Nat :=
  max 48 m.computeMaxOperandDepth

/-! ## The pass follows structured code -/

namespace DepthPass

/-- The pass is about to take the instruction at `pc` at depth `d`. -/
structure Entered (p : DepthPass) (pc d : Nat) : Prop where
  depth : (p.enter pc).depth = d
  bound : d ≤ p.maxDepth

variable {p : DepthPass}

/-- A known depth in front of an instruction no jump leads to, or only jumps
with that depth. -/
theorem Entered.of_depth {pc d : Nat} (hdepth : p.depth = d)
    (hbound : d ≤ p.maxDepth)
    (htarget : p.atTarget pc = none ∨ p.atTarget pc = some d) : p.Entered pc d := by
  refine ⟨?_, hbound⟩
  rcases htarget with h | h <;> simp [enter, h, hdepth]

/-- The depth of a jump target that is reached only by jumps. -/
theorem Entered.of_target {pc d : Nat} (hcut : p.reachable = false)
    (hbound : d ≤ p.maxDepth) (htarget : p.atTarget pc = some d) : p.Entered pc d := by
  refine ⟨?_, hbound⟩
  simp [enter, htarget, hcut]

@[simp] theorem enter_atTarget (p : DepthPass) (pc : Nat) :
    (p.enter pc).atTarget = p.atTarget := by
  unfold enter
  split <;> rfl

@[simp] theorem enter_maxDepth (p : DepthPass) (pc : Nat) :
    (p.enter pc).maxDepth = p.maxDepth := by
  unfold enter
  split <;> rfl

@[simp] theorem op_atTarget (entries : List GroupEntry) (p : DepthPass) (i : Op) :
    (p.op entries i).atTarget = p.atTarget := by
  cases i <;> simp only [op, change, cut]
  split <;> rfl

/-- An instruction takes the pass to the depth it leaves on the stack. -/
theorem op_depth {entries : List GroupEntry} {i : Op}
    (hlegal : i.Legal entries) (hbound : p.depth ≤ p.maxDepth)
    (hreads : i.reads entries ≤ p.depth) :
    (i.leaves = false → (p.op entries i).depth = (effect entries).after i p.depth ∧
      (p.op entries i).depth ≤ (p.op entries i).maxDepth) ∧
    (i.leaves = true → (p.op entries i).depth = p.depth) ∧
    p.maxDepth ≤ (p.op entries i).maxDepth := by
  cases i
  case send kind selector =>
    simp only [Op.Legal] at hlegal
    simp only [Op.reads] at hreads
    simp only [op, change, Effect.after, effect, Op.reads, Op.pushes, Op.leaves, hlegal]
    refine ⟨fun _ => ⟨by omega, Nat.le_max_right _ _⟩, by simp, Nat.le_max_left _ _⟩
  case ivarGroupEnd entry =>
    have hpos : 0 < groupCount entries entry := hlegal
    simp only [Op.reads] at hreads
    simp only [op, hpos, if_true, change, Effect.after, effect, Op.reads, Op.pushes, Op.leaves]
    refine ⟨fun _ => ⟨by omega, Nat.le_max_right _ _⟩, by simp, Nat.le_max_left _ _⟩
  all_goals
    simp only [Op.reads] at hreads
    simp only [op, change, cut, Effect.after, effect, Op.reads, Op.pushes, Op.leaves]
    refine ⟨fun h => ?_, fun h => ?_, ?_⟩ <;> first | omega | simp at h

/-- The recorded depths the pass meets inside a fragment at `pc`: none before its
end, where jumps over the fragment have the depth it ends with. -/
structure Clear (p : DepthPass) (pc len e : Nat) : Prop where
  inner : ∀ t, pc < t → t < pc + len → p.atTarget t = none
  last : 0 < len → p.atTarget (pc + len) = none ∨ p.atTarget (pc + len) = some e

/-- What the pass has established behind a fragment. -/
structure Passed (entries : List GroupEntry) (p p' : DepthPass) (pc : Nat) (c : Code)
    (d e : Nat) : Prop where
  fits : Fits (effect entries) p'.maxDepth c d e
  entered : p'.Entered (pc + (flatten c).length) e
  frame : ∀ t, pc + (flatten c).length < t → p'.atTarget t = p.atTarget t
  grows : p.maxDepth ≤ p'.maxDepth

theorem flatten_pos (i : Item Op) : 0 < i.flatten.length := by
  cases i <;> simp only [Item.flatten, List.length_cons, List.length_append] <;> omega

theorem flatten_eq_nil {is : Code} (h : (flatten is).length = 0) : is = [] := by
  cases is with
  | nil => rfl
  | cons i is =>
    have hpos := flatten_pos i
    rw [flatten_cons, List.length_append] at h
    omega

variable {p : DepthPass}

/-- In front of an item the recorded depths are those in front of what follows. -/
theorem Clear.head {pc len n d e : Nat} (h : p.Clear pc (len + n) e)
    (hlast : n = 0 → d = e) : p.Clear pc len d := by
  refine ⟨fun t ht ht' => h.inner t ht (by omega), fun hpos => ?_⟩
  rcases Nat.eq_zero_or_pos n with rfl | hn
  · rw [hlast rfl]
    exact h.last (by omega)
  · exact .inl (h.inner _ (by omega) (by omega))

theorem Clear.tail {p p' : DepthPass} {pc len n e : Nat} (h : p.Clear pc (len + n) e)
    (hframe : ∀ t, pc + len < t → p'.atTarget t = p.atTarget t) :
    p'.Clear (pc + len) n e := by
  refine ⟨fun t ht ht' => ?_, fun hpos => ?_⟩
  · rw [hframe t ht]
    exact h.inner t (by omega) (by omega)
  · rw [hframe _ (by omega), Nat.add_assoc]
    exact h.last (by omega)

/-- The pass behind an item and behind the code after it. -/
theorem Passed.cons {entries : List GroupEntry} {p p' p'' : DepthPass} {pc : Nat}
    {i : Item Op} {is : Code} {d d' e : Nat} (hi : Passed entries p p' pc [i] d d')
    (his : Passed entries p' p'' (pc + i.flatten.length) is d' e) :
    Passed entries p p'' pc (i :: is) d e := by
  have hone : (flatten [i]).length = i.flatten.length := by simp
  refine ⟨(hi.fits.mono his.grows).append his.fits, ?_, fun t ht => ?_,
    Nat.le_trans hi.grows his.grows⟩
  · rw [flatten_cons, List.length_append, ← Nat.add_assoc]
    exact his.entered
  · rw [flatten_cons, List.length_append] at ht
    rw [his.frame t (by omega), hi.frame t (by omega)]

variable {entries : List GroupEntry} {M : Nat} {pc d : Nat}

theorem passed_op {i : Op} (hlegal : i.Legal entries)
    (hl : i.leaves = false) (hreads : i.reads entries ≤ d) (hat : p.Entered pc d)
    (hclear : p.Clear pc 1 ((effect entries).after i d)) :
    Passed entries p (p.run entries pc [.op i]) pc [.op i] d ((effect entries).after i d) := by
  obtain ⟨hdepth, hbound⟩ := hat
  have hop := op_depth (p := p.enter pc) hlegal (by rwa [hdepth, enter_maxDepth])
    (by rwa [hdepth])
  rw [hdepth, enter_maxDepth] at hop
  obtain ⟨hafter, hle⟩ := hop.1 hl
  rw [hafter] at hle
  refine ⟨.op hlegal hl hreads hle .nil, ?_, fun t _ => ?_, hop.2.2⟩
  · apply Entered.of_depth hafter hle
    simpa [run, step, Item.flatten] using hclear.last Nat.one_pos
  · simp [run, step]

theorem passed_leave {i : Op} (hlegal : i.Legal entries)
    (hl : i.leaves = true) (hreads : i.reads entries ≤ d) (hat : p.Entered pc d)
    (hclear : p.Clear pc 1 d) :
    Passed entries p (p.run entries pc [.op i]) pc [.op i] d d := by
  obtain ⟨hdepth, hbound⟩ := hat
  have hop := op_depth (p := p.enter pc) hlegal (by rwa [hdepth, enter_maxDepth])
    (by rwa [hdepth])
  rw [hdepth, enter_maxDepth] at hop
  refine ⟨.leave hlegal hl hreads .nil, ?_, fun t _ => ?_, hop.2.2⟩
  · apply Entered.of_depth (hop.2.1 hl) (Nat.le_trans hbound hop.2.2)
    simpa [run, step, Item.flatten] using hclear.last Nat.one_pos
  · simp [run, step]

/-- The pass behind a conditional jump to `target`. -/
theorem jumpIf_spec (entries : List GroupEntry) (sense : Bool)
    (offset : Nat) (hat : p.Entered pc (d + 1)) (htarget : p.atTarget (pc + 1 + offset) = none ∨
      p.atTarget (pc + 1 + offset) = some d) :
    let p' := p.step entries pc (.jumpIf sense offset)
    p'.depth = d ∧ d ≤ p'.maxDepth ∧ p.maxDepth ≤ p'.maxDepth ∧
      p'.atTarget (pc + 1 + offset) = some d ∧
      ∀ t, t ≠ pc + 1 + offset → p'.atTarget t = p.atTarget t := by
  obtain ⟨hdepth, hbound⟩ := hat
  refine ⟨?_, ?_, ?_, ?_, ?_⟩
  · simp [step, jumpTo, change, hdepth]
  · simp only [step, jumpTo, change, hdepth]
    exact Nat.le_max_right _ _
  · simp only [step, jumpTo, change, enter_maxDepth]
    exact Nat.le_max_left _ _
  · rcases htarget with h | h <;> simp [step, jumpTo, change, hdepth, h]
  · intro t ht
    simp [step, jumpTo, change, ht]

theorem passed_skipIf {sense : Bool} {body : Code}
    (hbody : ∀ p pc, p.Entered pc d → p.Clear pc (flatten body).length d →
      Passed entries p (p.run entries pc (flatten body)) pc body d d)
    (hat : p.Entered pc (d + 1))
    (hclear : p.Clear pc (Item.skipIf sense body).flatten.length d) :
    Passed entries p (p.run entries pc (flatten [.skipIf sense body])) pc
      [.skipIf sense body] (d + 1) d := by
  have hlen : (Item.skipIf sense body).flatten.length = (flatten body).length + 1 := rfl
  rw [hlen] at hclear
  have hend : pc + ((flatten body).length + 1) = pc + 1 + (flatten body).length := by omega
  have hlast := hclear.last (Nat.succ_pos _)
  rw [hend] at hlast
  obtain ⟨hdepth, hbound, hgrows, htarget, hother⟩ :=
    jumpIf_spec entries sense _ hat hlast
  have hrun : p.run entries pc (flatten [.skipIf sense body])
      = (p.step entries pc (.jumpIf sense (flatten body).length)).run entries (pc + 1)
          (flatten body) := by
    simp [Item.flatten, run]
  rw [hrun]
  have hbodyPass := hbody (p.step entries pc (.jumpIf sense (flatten body).length)) (pc + 1)
    (.of_depth hdepth hbound (by
      rcases Nat.eq_zero_or_pos (flatten body).length with h0 | hpos
      · rw [h0] at htarget ⊢
        exact .inr htarget
      · left
        rw [hother _ (by omega)]
        exact hclear.inner _ (by omega) (by omega)))
    ⟨fun t ht ht' => by
      rw [hother t (by omega)]
      exact hclear.inner t (by omega) (by omega), fun _ => .inr htarget⟩
  refine ⟨.skipIf hbodyPass.fits .nil, ?_, fun t ht => ?_,
    Nat.le_trans hgrows hbodyPass.grows⟩
  · have h := hbodyPass.entered
    simpa [Item.flatten, Nat.add_assoc, Nat.add_comm, Nat.add_left_comm] using h
  · simp only [flatten_cons, flatten_nil, List.append_nil, hlen] at ht
    rw [hbodyPass.frame t (by omega), hother t (by omega)]

theorem passed_branch {pc d e : Nat} {sense : Bool} {fall target : Code}
    (hempty : target = [] → d = e)
    (hfall : ∀ p pc, p.Entered pc d → p.Clear pc (flatten fall).length e →
      Passed entries p (p.run entries pc (flatten fall)) pc fall d e)
    (htarget : ∀ p pc, p.Entered pc d → p.Clear pc (flatten target).length e →
      Passed entries p (p.run entries pc (flatten target)) pc target d e)
    (hat : p.Entered pc (d + 1))
    (hclear : p.Clear pc (Item.branch sense fall target).flatten.length e) :
    Passed entries p (p.run entries pc (flatten [.branch sense fall target])) pc
      [.branch sense fall target] (d + 1) e := by
  have hlen : (Item.branch sense fall target).flatten.length
      = (flatten fall).length + (flatten target).length + 2 := by
    simp only [Item.flatten, List.length_cons, List.length_append]
    omega
  rw [hlen] at hclear
  -- where the two arms start and end
  obtain ⟨q, hq⟩ : ∃ q, q = pc + 1 + (flatten fall).length := ⟨_, rfl⟩
  obtain ⟨fin, hfin⟩ : ∃ fin, fin = q + 1 + (flatten target).length := ⟨_, rfl⟩
  have hend : pc + ((flatten fall).length + (flatten target).length + 2) = fin := by omega
  have hT : pc + 1 + ((flatten fall).length + 1) = q + 1 := by omega
  have hlast := hclear.last (by omega)
  rw [hend] at hlast
  have hempty' : (flatten target).length = 0 → d = e := fun h => hempty (flatten_eq_nil h)
  have hTtarget : p.atTarget (q + 1) = none ∨ p.atTarget (q + 1) = some d := by
    rcases Nat.eq_zero_or_pos (flatten target).length with h0 | hpos
    · rw [hempty' h0]
      have hsame : q + 1 = fin := by omega
      rwa [hsame]
    · exact .inl (hclear.inner _ (by omega) (by omega))
  obtain ⟨hdepth, hbound, hgrows, hjump, hother⟩ :=
    jumpIf_spec entries sense _ hat (by rwa [hT])
  rw [hT] at hjump hother
  have hfallPass := hfall
    (p.step entries pc (.jumpIf sense ((flatten fall).length + 1))) (pc + 1)
    (.of_depth hdepth hbound (.inl (by
      rw [hother _ (by omega)]
      exact hclear.inner _ (by omega) (by omega))))
    ⟨fun t ht ht' => by
      rw [hother t (by omega)]
      exact hclear.inner t (by omega) (by omega),
     fun _ => .inl (by
      rw [hother _ (by omega)]
      exact hclear.inner _ (by omega) (by omega))⟩
  obtain ⟨p₂, hp₂⟩ : ∃ p₂, p₂ = (p.step entries pc
    (.jumpIf sense ((flatten fall).length + 1))).run entries (pc + 1) (flatten fall) := ⟨_, rfl⟩
  rw [← hp₂] at hfallPass
  have hat₂ := hfallPass.entered
  rw [← hq] at hat₂
  have hframe₂ := hfallPass.frame
  rw [← hq] at hframe₂
  -- the jump over the second arm
  obtain ⟨p₃, hp₃⟩ : ∃ p₃, p₃ = p₂.step entries q (.jump (flatten target).length) := ⟨_, rfl⟩
  have hmax₃ : p₃.maxDepth = p₂.maxDepth := by simp [hp₃, step, jumpTo, cut]
  have hfin₃ : p₃.atTarget fin = some e := by
    have hold : p₂.atTarget fin = none ∨ p₂.atTarget fin = some e := by
      rw [hframe₂ fin (by omega)]
      rcases Nat.eq_zero_or_pos (flatten target).length with h0 | hpos
      · have hsame : fin = q + 1 := by omega
        rw [hsame, hjump, hempty' h0]
        exact .inr rfl
      · rw [hother fin (by omega)]
        exact hlast
    rcases hold with h | h <;> simp [hp₃, step, jumpTo, cut, ← hfin, h, hat₂.depth]
  have hother₃ : ∀ t, t ≠ fin → p₃.atTarget t = p₂.atTarget t := by
    intro t ht
    simp [hp₃, step, jumpTo, cut, ← hfin, ht]
  have hstart₃ : p₃.atTarget (q + 1) = some d := by
    rcases Nat.eq_zero_or_pos (flatten target).length with h0 | hpos
    · have hsame : q + 1 = fin := by omega
      rw [hsame, hfin₃, hempty' h0]
    · rw [hother₃ _ (by omega), hframe₂ _ (by omega), hjump]
  have htargetPass := htarget p₃ (q + 1)
    (.of_target (by simp [hp₃, step, cut])
      (by rw [hmax₃]; exact Nat.le_trans hbound hfallPass.grows) hstart₃)
    ⟨fun t ht ht' => by
      rw [hother₃ t (by omega), hframe₂ t (by omega), hother t (by omega)]
      exact hclear.inner t (by omega) (by omega),
     fun _ => .inr (by rw [← hfin]; exact hfin₃)⟩
  have hgrows₃ : p₂.maxDepth ≤ (p₃.run entries (q + 1) (flatten target)).maxDepth := by
    rw [← hmax₃]
    exact htargetPass.grows
  have hrun : p.run entries pc (flatten [.branch sense fall target])
      = p₃.run entries (q + 1) (flatten target) := by
    simp only [flatten_cons, flatten_nil, Item.flatten, List.append_nil, run, run_append]
    rw [← hp₂, ← hq, ← hp₃]
  rw [hrun]
  refine ⟨.branch (hfallPass.fits.mono hgrows₃) htargetPass.fits .nil, ?_, fun t ht => ?_, ?_⟩
  · have h := htargetPass.entered
    rw [← hfin, ← hend] at h
    simpa [hlen] using h
  · simp only [flatten_cons, flatten_nil, List.append_nil, hlen] at ht
    rw [htargetPass.frame t (by omega), hother₃ t (by omega), hframe₂ t (by omega),
      hother t (by omega)]
  · exact Nat.le_trans (Nat.le_trans hgrows hfallPass.grows) hgrows₃

theorem passed_loop {test : Code} {sense : Bool} {body : Code}
    (htest : ∀ p pc, p.Entered pc d → p.Clear pc (flatten test).length (d + 1) →
      Passed entries p (p.run entries pc (flatten test)) pc test d (d + 1))
    (hbody : ∀ p pc, p.Entered pc d → p.Clear pc (flatten body).length d →
      Passed entries p (p.run entries pc (flatten body)) pc body d d)
    (hat : p.Entered pc d)
    (hclear : p.Clear pc (Item.loop test sense body).flatten.length d) :
    Passed entries p (p.run entries pc (flatten [.loop test sense body])) pc
      [.loop test sense body] d d := by
  have hlen : (Item.loop test sense body).flatten.length
      = (flatten test).length + (flatten body).length + 2 := by
    simp only [Item.flatten, List.length_cons, List.length_append, List.length_nil]
    omega
  rw [hlen] at hclear
  obtain ⟨q, hq⟩ : ∃ q, q = pc + (flatten test).length := ⟨_, rfl⟩
  obtain ⟨fin, hfin⟩ : ∃ fin, fin = q + 1 + ((flatten body).length + 1) := ⟨_, rfl⟩
  have hend : pc + ((flatten test).length + (flatten body).length + 2) = fin := by omega
  have hlast := hclear.last (by omega)
  rw [hend] at hlast
  have htestPass := htest p pc hat
    ⟨fun t ht ht' => hclear.inner t ht (by omega),
     fun _ => .inl (hclear.inner _ (by omega) (by omega))⟩
  obtain ⟨p₁, hp₁⟩ : ∃ p₁, p₁ = p.run entries pc (flatten test) := ⟨_, rfl⟩
  rw [← hp₁] at htestPass
  have hat₁ := htestPass.entered
  rw [← hq] at hat₁
  have hframe₁ := htestPass.frame
  rw [← hq] at hframe₁
  obtain ⟨hdepth, hbound, hgrows, hjump, hother⟩ :=
    jumpIf_spec entries sense ((flatten body).length + 1) hat₁ (by
      rw [← hfin, hframe₁ fin (by omega)]
      exact hlast)
  rw [← hfin] at hjump hother
  obtain ⟨p₂, hp₂⟩ : ∃ p₂, p₂ = p₁.step entries q
    (.jumpIf sense ((flatten body).length + 1)) := ⟨_, rfl⟩
  rw [← hp₂] at hdepth hbound hgrows hjump hother
  have hbodyPass := hbody p₂ (q + 1)
    (.of_depth hdepth hbound (.inl (by
      rw [hother _ (by omega), hframe₁ _ (by omega)]
      exact hclear.inner _ (by omega) (by omega))))
    ⟨fun t ht ht' => by
      rw [hother t (by omega), hframe₁ t (by omega)]
      exact hclear.inner t (by omega) (by omega),
     fun _ => .inl (by
      rw [hother _ (by omega), hframe₁ _ (by omega)]
      exact hclear.inner _ (by omega) (by omega))⟩
  obtain ⟨p₃, hp₃⟩ : ∃ p₃, p₃ = p₂.run entries (q + 1) (flatten body) := ⟨_, rfl⟩
  rw [← hp₃] at hbodyPass
  have hat₃ := hbodyPass.entered
  have hrun : p.run entries pc (flatten [.loop test sense body])
      = (p₃.enter (q + 1 + (flatten body).length)).cut := by
    simp only [flatten_cons, flatten_nil, Item.flatten, List.append_nil, run, run_append]
    rw [← hp₁, ← hq, ← hp₂, ← hp₃]
    rfl
  rw [hrun]
  have hgrows₂ : p.maxDepth ≤ p₂.maxDepth := Nat.le_trans htestPass.grows hgrows
  refine ⟨?_, ?_, fun t ht => ?_, ?_⟩
  · have hmax : ((p₃.enter (q + 1 + (flatten body).length)).cut).maxDepth = p₃.maxDepth := by
      simp [cut]
    rw [hmax]
    exact .loop (htestPass.fits.mono (Nat.le_trans hgrows hbodyPass.grows)) hbodyPass.fits .nil
  · have hpos : pc + (flatten [Item.loop test sense body]).length = fin := by
      simpa [hlen] using hend
    rw [hpos]
    apply Entered.of_target rfl
    · simp only [cut, enter_maxDepth]
      exact hat₃.bound
    · simp only [cut, enter_atTarget]
      rw [hbodyPass.frame fin (by omega), hjump]
  · simp only [flatten_cons, flatten_nil, List.append_nil, hlen] at ht
    simp only [cut, enter_atTarget]
    rw [hbodyPass.frame t (by omega), hother t (by omega), hframe₁ t (by omega)]
  · simp only [cut, enter_maxDepth]
    exact Nat.le_trans hgrows₂ hbodyPass.grows

/-- The pass over an item and the code behind it. -/
theorem passed_cons {pc d d' e : Nat} {i : Item Op} {is : Code}
    (hempty : is = [] → d' = e)
    (hi : p.Entered pc d → p.Clear pc i.flatten.length d' →
      Passed entries p (p.run entries pc (flatten [i])) pc [i] d d')
    (his : ∀ p pc, p.Entered pc d' → p.Clear pc (flatten is).length e →
      Passed entries p (p.run entries pc (flatten is)) pc is d' e)
    (hat : p.Entered pc d) (hclear : p.Clear pc (flatten (i :: is)).length e) :
    Passed entries p (p.run entries pc (flatten (i :: is))) pc (i :: is) d e := by
  rw [flatten_cons, List.length_append] at hclear
  have hfirst := hi hat (hclear.head fun h => hempty (flatten_eq_nil h))
  have hone : flatten [i] = i.flatten := by simp
  rw [hone] at hfirst
  have hframe := hfirst.frame
  have hentered := hfirst.entered
  rw [hone] at hframe hentered
  have hrest := his _ _ hentered (hclear.tail hframe)
  rw [flatten_cons, run_append]
  exact hfirst.cons hrest

theorem fits_nil {d e : Nat} {c : Code} (h : Fits (effect entries) M c d e)
    (hc : c = []) : d = e := by
  subst hc
  cases h
  rfl

/-- **The pass over structured code.** -/
theorem pass_fits {c : Code} {d e : Nat} (h : Fits (effect entries) M c d e) :
    ∀ (p : DepthPass) (pc : Nat), p.Entered pc d → p.Clear pc (flatten c).length e →
      Passed entries p (p.run entries pc (flatten c)) pc c d e := by
  induction h with
  | nil =>
    intro p pc hat _
    exact ⟨.nil, hat, fun _ _ => rfl, Nat.le_refl _⟩
  | op hlegal hl hreads _ hrest ih =>
    intro p pc hat hclear
    refine passed_cons (fits_nil hrest) (fun hat hclear => ?_) ih hat hclear
    exact passed_op hlegal hl hreads hat hclear
  | leave hlegal hl hreads hrest ih =>
    intro p pc hat hclear
    refine passed_cons (fits_nil hrest) (fun hat hclear => ?_) ih hat hclear
    exact passed_leave hlegal hl hreads hat hclear
  | skipIf _ hrest ihb ih =>
    intro p pc hat hclear
    exact passed_cons (fits_nil hrest) (passed_skipIf ihb) ih hat hclear
  | branch _ ht hrest ihf iht ih =>
    intro p pc hat hclear
    exact passed_cons (fits_nil hrest) (passed_branch (fits_nil ht) ihf iht) ih hat hclear
  | loop _ _ hrest iht ihb ih =>
    intro p pc hat hclear
    exact passed_cons (fits_nil hrest) (passed_loop iht ihb) ih hat hclear

end DepthPass

/-- The instructions of a module whose items take some depth stay within the
depth the pass computes. -/
theorem Module.fits {m : Module} {e : Nat} (h : Takes (effect m.groupEntries) m.items 0 e) :
    Fits (effect m.groupEntries) m.computeMaxOperandDepth m.items 0 e := by
  obtain ⟨M, h⟩ := h
  have hpass := DepthPass.pass_fits h DepthPass.init 0
    (.of_depth rfl (Nat.le_refl 0) (.inl rfl)) ⟨fun _ _ _ => rfl, fun _ => .inl rfl⟩
  exact hpass.fits

/-- An execution path of one activation of a module: the depths its operand
stack takes, from the first instruction on. -/
abbrev Module.Path (m : Module) : Nat → Nat → Prop :=
  Lib.StackDepth.Path (effect m.groupEntries) m.code

/-- **The depth of the frames.** -/
theorem Module.depth_sound {m : Module} {e pc d : Nat}
    (h : Takes (effect m.groupEntries) m.items 0 e) (hpath : m.Path pc d) :
    d ≤ m.computeMaxOperandDepth ∧
      (∀ i, m.code[pc]? = some (.op i) → i.reads m.groupEntries ≤ d ∧
        (i.leaves = false →
          d - i.reads m.groupEntries + i.pushes ≤ m.computeMaxOperandDepth)) ∧
      (∀ sense offset, m.code[pc]? = some (.jumpIf sense offset) → 1 ≤ d) :=
  hpath.sound (Module.fits h)

end ProtoST.Runtime.Bytecode

import ProtoST.Frontend.Compiler
import ProtoST.Runtime.Assembler
import ProtoST.Runtime.OperandDepth

/-!
# The operand stack of compiled code

An expression leaves one value more on the operand stack than there was, a
statement list leaves the value of its last statement, and a write of a write
group one more pending value.  `Moves` says so of an emission at every depth;
it goes through the constructs of the compiler one by one.

## Main results

* `emitNode_moves` — expressions and statements, by induction on the tree.
* `operand_stack_bound` — on every execution path of every module of an accepted
  program, every instruction finds what it pops, and the operand stack stays
  within the depth its frame was sized for.
* `words_stack_bound` — and so on the words that the instructions are emitted as.
-/

namespace ProtoST.Frontend

open ProtoST.Lib.Structured ProtoST.Lib.StackDepth ProtoST.Runtime.Bytecode
open ProtoST.Runtime.Assembler (Instr Words Runs assembleAll exec_of_runs)

/-! ## Modules whose code fits -/

/-- Every method and block of a module has code of a fixed depth. -/
def Fine (m : Module) : Prop :=
  ∀ n, m.Within n → ∃ e, Takes (effect n.groupEntries) n.items 0 e

theorem Fine.of_blocks {m : Module} {e : Nat}
    (hitems : Takes (effect m.groupEntries) m.items 0 e)
    (hblocks : ∀ b ∈ m.blocks, Fine b) : Fine m := by
  have hwithin : ∀ n, m.Within n → n = m ∨ ∃ b ∈ m.blocks, b.Within n := by
    intro n hn
    induction hn with
    | self => exact .inl rfl
    | block _ hb ih =>
      rcases ih with rfl | ⟨b', hb', hwithin⟩
      · exact .inr ⟨_, hb, .self⟩
      · exact .inr ⟨b', hb', .block hwithin hb⟩
  intro n hn
  rcases hwithin n hn with rfl | ⟨b, hb, hbn⟩
  · exact ⟨e, hitems⟩
  · exact hblocks b hb n hbn

/-! ## Emissions that move the depth -/

/-- When the emission reports nothing, its code takes `d + i` values to `d + j`,
whatever write groups the module gets behind it, and its blocks are fine. -/
structure MovesFrom (a : Emit) (i j : Nat) (st : Emitter) : Prop where
  errors : st.errors = []
  entries : st.groupEntries <+: (a st).2.groupEntries
  takes : ∀ entries d, (a st).2.groupEntries <+: entries →
    Takes (effect entries) (a st).1 (d + i) (d + j)
  blocks : (∀ b ∈ st.blocks, Fine b) → ∀ b ∈ (a st).2.blocks, Fine b

/-- `MovesFrom` at every compiler state. -/
def Moves (a : Emit) (i j : Nat) : Prop :=
  ∀ st, (a st).2.errors = [] → MovesFrom a i j st

variable {i j : Nat}

theorem Moves.code {c : Code}
    (h : ∀ entries d, Takes (effect entries) c (d + i) (d + j)) : Moves (Emit.code c) i j := by
  intro st herr
  exact ⟨herr, List.prefix_refl _, fun entries d _ => h entries d, fun hb => hb⟩

theorem Moves.nil (i : Nat) : Moves (Emit.code []) i i :=
  .code fun _ _ => .nil

theorem Moves.seq {a b : Emit} {i j k : Nat} (ha : Moves a i j) (hb : Moves b j k) :
    Moves (a ++ b) i k := by
  intro st herr
  have hb' := hb (a st).2 herr
  have ha' := ha st hb'.errors
  refine ⟨ha'.errors, ha'.entries.trans hb'.entries, fun entries d hpre => ?_,
    fun hblocks => hb'.blocks (ha'.blocks hblocks)⟩
  exact (ha'.takes entries d (hb'.entries.trans hpre)).append (hb'.takes entries d hpre)

theorem Moves.wrap {a : Emit} {f : Code → Code} {i j i' j' : Nat} (ha : Moves a i j)
    (hf : ∀ entries c, (∀ d, Takes (effect entries) c (d + i) (d + j)) →
      ∀ d, Takes (effect entries) (f c) (d + i') (d + j')) :
    Moves (a.wrap f) i' j' := by
  intro st herr
  have ha' := ha st herr
  exact ⟨ha'.errors, ha'.entries,
    fun entries d hpre => hf entries _ (fun d => ha'.takes entries d hpre) d, ha'.blocks⟩

theorem Moves.wrap₂ {a b : Emit} {f : Code → Code → Code} {i j k l i' j' : Nat}
    (ha : Moves a i j) (hb : Moves b k l)
    (hf : ∀ entries c c', (∀ d, Takes (effect entries) c (d + i) (d + j)) →
      (∀ d, Takes (effect entries) c' (d + k) (d + l)) →
      ∀ d, Takes (effect entries) (f c c') (d + i') (d + j')) :
    Moves (a.wrap₂ b f) i' j' := by
  intro st herr
  have hb' := hb (a st).2 herr
  have ha' := ha st hb'.errors
  refine ⟨ha'.errors, ha'.entries.trans hb'.entries, fun entries d hpre => ?_,
    fun hblocks => hb'.blocks (ha'.blocks hblocks)⟩
  exact hf entries _ _ (fun d => ha'.takes entries d (hb'.entries.trans hpre))
    (fun d => hb'.takes entries d hpre) d

/-- A rejected form is not compiled. -/
theorem Moves.fail {e : CompileError} {c : Code} : Moves (Emit.fail e c) i j := by
  intro st herr
  simp [Emit.fail, Emitter.error] at herr

theorem Moves.reading {k : Scope → Emit} (h : ∀ scope, Moves (k scope) i j) :
    Moves (.reading k) i j := fun st herr =>
  have h' := h st.scope st herr
  ⟨h'.errors, h'.entries, h'.takes, h'.blocks⟩

variable {ctx : Context}

theorem Moves.declaring {name : String} {k : Slot → Emit}
    (h : ∀ s, Moves (k s) i j) : Moves (.declaring ctx name k) i j := fun st herr =>
  have h' := h (st.declareLocal ctx name).1 (st.declareLocal ctx name).2 herr
  ⟨h'.errors, h'.entries, h'.takes, h'.blocks⟩

/-! ## Straight-line pieces -/

section Pieces

variable (entries : List GroupEntry)

/-- An instruction whose operand needs no care. -/
theorem takes_op {i : Op} {d e : Nat} (hlegal : i.Legal entries) (hl : i.leaves = false)
    (hr : i.reads entries ≤ d) (he : d - i.reads entries + i.pushes = e) :
    Takes (effect entries) [.op i] d e := by
  subst he
  exact @Takes.op _ (effect entries) _ _ hlegal hl hr

theorem takes_cons {i : Item Op} {is : Code} {d e f : Nat}
    (hi : Takes (effect entries) [i] d e) (his : Takes (effect entries) is e f) :
    Takes (effect entries) (i :: is) d f :=
  Takes.append (a := [i]) hi his

/-- `DUP` and a store. -/
theorem takes_store {i : Op} {d : Nat} (hlegal : i.Legal entries) (hl : i.leaves = false)
    (hr : i.reads entries = 1) (hp : i.pushes = 0) :
    Takes (effect entries) [.op .dup, .op i] (d + 1) (d + 1) := by
  have hdup : Takes (effect entries) [.op .dup] (d + 1) (d + 2) :=
    takes_op entries trivial rfl (by simp [Op.reads]) (by simp [Op.reads, Op.pushes])
  have hstore : Takes (effect entries) [.op i] (d + 2) (d + 1) :=
    takes_op entries hlegal hl (by omega) (by omega)
  exact takes_cons entries hdup hstore

end Pieces

/-- A push of one value. -/
theorem moves_push {i : Op} {j : Nat} (hlegal : ∀ entries, i.Legal entries)
    (hl : i.leaves = false) (hr : ∀ entries, i.reads entries = 0) (hp : i.pushes = 1) :
    Moves (Emit.code [.op i]) j (j + 1) :=
  .code fun entries d => takes_op entries (hlegal entries) hl (by rw [hr]; omega)
    (by rw [hr, hp]; omega)

/-- A send of `n` arguments. -/
theorem takes_send (kind : SendKind) (selector : String) {n : Nat}
    (hcount : sendArgCount kind selector = n) (hargs : argCount kind selector = n)
    (entries : List GroupEntry) (d : Nat) :
    Takes (effect entries) [.op (.send kind selector)] (d + (n + 1)) (d + 1) := by
  apply takes_op entries
  · simp only [Op.Legal, hcount, hargs]
  · rfl
  · simp only [Op.reads, hargs]
    omega
  · simp only [Op.reads, Op.pushes, hargs]
    omega

variable {selector : String}

theorem moves_send {kind : SendKind} {n j : Nat}
    (hcount : sendArgCount kind selector = n) (hargs : argCount kind selector = n) :
    Moves (Emit.code [.op (.send kind selector)]) (j + (n + 1)) (j + 1) :=
  .code fun entries d => by
    have h := takes_send kind selector hcount hargs entries (d + j)
    rwa [Nat.add_assoc, Nat.add_assoc] at h

theorem moves_sendOp_unary (isSuper : Bool) (sel : Ident) {j : Nat} :
    Moves (Emit.code [sendOp isSuper .unary sel.text]) (j + 1) (j + 1) := by
  cases isSuper with
  | false => exact moves_send (n := 0) rfl rfl
  | true => exact moves_send (n := 0) sel.super_argCount sel.super_argCount

theorem moves_sendOp_binary (isSuper : Bool) (o : Operator) {j : Nat} :
    Moves (Emit.code [sendOp isSuper .binary o.text]) (j + 2) (j + 1) := by
  cases isSuper with
  | false => exact moves_send (n := 1) rfl rfl
  | true => exact moves_send (n := 1) o.super_argCount o.super_argCount

theorem moves_binaryOp (isSuper : Bool) (o : Operator) {j : Nat} :
    Moves (Emit.code [binaryOp isSuper o]) (j + 2) (j + 1) := by
  unfold binaryOp
  split
  · exact moves_send (n := 1) o.super_argCount o.super_argCount
  · split
    · exact .code fun entries d => takes_op entries trivial rfl
        (by simp only [Op.reads]; omega) (by simp only [Op.reads, Op.pushes]; omega)
    · exact moves_send (n := 1) rfl rfl

theorem moves_sendOp_keyword (isSuper : Bool) (parts : List (Ident × Node)) {j : Nat} :
    Moves (Emit.code [sendOp isSuper .keyword (keywordSelector (parts.map Prod.fst))])
      (j + (parts.length + 1)) (j + 1) := by
  have hcolons := keywordSelector_colons (parts.map Prod.fst)
  rw [List.length_map] at hcolons
  cases isSuper with
  | false => exact moves_send hcolons hcolons
  | true =>
    have hsuper := keywordSelector_super (parts.map Prod.fst)
    rw [List.length_map] at hsuper
    exact moves_send hsuper hsuper

/-! ## The constructs of the compiler -/

theorem moves_load (ctx : Context) (x : String) : Moves (emitLoad ctx x) 0 1 := by
  apply Moves.reading
  intro scope
  cases loadTarget ctx scope x with
  | rejected e => exact .fail
  | instVar =>
    show Moves (if _ then _ else _) 0 1
    split <;> exact moves_push (fun _ => trivial) rfl (fun _ => rfl) rfl
  | captured | slot s | classVar | global | fresh =>
    exact moves_push (fun _ => trivial) rfl (fun _ => rfl) rfl

theorem moves_store (ctx : Context) (stmt : Bool) (x : String) {value : Emit}
    (hvalue : Moves value 0 1) : Moves (emitStore ctx stmt x value) 0 1 := by
  apply Moves.reading
  intro scope
  cases storeTarget ctx scope x with
  | rejected e => exact .fail
  | fresh =>
    exact .declaring fun s => hvalue.seq <| .code fun entries d =>
      takes_store entries trivial rfl rfl rfl
  | captured | slot s | instVar | classVar | global =>
    exact hvalue.seq <| .code fun entries d => takes_store entries trivial rfl rfl rfl

/-- The Boolean guard. -/
theorem takes_assert (selector : String) (entries : List GroupEntry) (d : Nat) :
    Takes (effect entries) [.op (.assertBoolOrDnu selector)] (d + 1) (d + 1) :=
  takes_op entries trivial rfl (by simp only [Op.reads]; omega)
    (by simp only [Op.reads, Op.pushes]; omega)

theorem takes_pushNil (entries : List GroupEntry) (d : Nat) :
    Takes (effect entries) [.op .pushNil] d (d + 1) :=
  takes_op entries trivial rfl (by simp only [Op.reads]; omega)
    (by simp only [Op.reads, Op.pushes]; omega)

theorem takes_pop (entries : List GroupEntry) (d : Nat) :
    Takes (effect entries) [.op .pop] (d + 1) d :=
  takes_op entries trivial rfl (by simp only [Op.reads]; omega)
    (by simp only [Op.reads, Op.pushes]; omega)

theorem moves_if {invert : Bool} {cond body : Emit}
    (hcond : Moves cond 0 1) (hbody : Moves body 0 1) :
    Moves (emitIf selector invert cond body) 0 1 := by
  refine (hcond.seq (.code fun entries d => takes_assert selector entries d)).seq (j := 1) ?_
  refine Moves.wrap hbody fun entries c hc d => ?_
  exact .branch (hc d) (takes_pushNil entries d)

theorem moves_ifElse {cond t f : Emit} (hcond : Moves cond 0 1)
    (ht : Moves t 0 1) (hf : Moves f 0 1) : Moves (emitIfElse selector cond t f) 0 1 := by
  refine (hcond.seq (.code fun entries d => takes_assert selector entries d)).seq (j := 1) ?_
  refine ht.wrap₂ hf fun entries c c' hc hc' d => ?_
  exact .branch (hc d) (hc' d)

theorem moves_while {invert : Bool} {cond body : Emit}
    (hcond : Moves cond 0 1) (hbody : Moves body 0 1) :
    Moves (emitWhile selector invert cond body) 0 1 := by
  refine Moves.seq (j := 0) ?_ (.code fun entries d => takes_pushNil entries d)
  refine hcond.wrap₂ hbody fun entries c c' hc hc' d => ?_
  exact .loop ((hc d).append (takes_assert selector entries d))
    ((hc' d).append (takes_pop entries d))

theorem Moves.bound {body : Emit} (h : Moves body i j) (name : String)
    (slot : Nat) : Moves (emitBound name slot body) i j := fun st herr =>
  have h' := h (st.setScope (st.scope.bindLoop name slot)) herr
  ⟨h'.errors, h'.entries, h'.takes, h'.blocks⟩

/-- The store of one value. -/
theorem takes_storeLocal (s : Slot) (entries : List GroupEntry) (d : Nat) :
    Takes (effect entries) [.op (.storeLocal s)] (d + 1) d :=
  takes_op entries trivial rfl (by simp only [Op.reads]; omega)
    (by simp only [Op.reads, Op.pushes]; omega)

theorem takes_pushLocal (s : Slot) (entries : List GroupEntry) (d : Nat) :
    Takes (effect entries) [.op (.pushLocal s)] d (d + 1) :=
  takes_op entries trivial rfl (by simp only [Op.reads]; omega)
    (by simp only [Op.reads, Op.pushes]; omega)

theorem takes_pushConst (c : Constant) (entries : List GroupEntry) (d : Nat) :
    Takes (effect entries) [.op (.pushConst c)] d (d + 1) :=
  takes_op entries trivial rfl (by simp only [Op.reads]; omega)
    (by simp only [Op.reads, Op.pushes]; omega)

theorem takes_binInt (op : IntOp) (entries : List GroupEntry) (d : Nat) :
    Takes (effect entries) [.op (.binInt op)] (d + 2) (d + 1) :=
  takes_op entries trivial rfl (by simp only [Op.reads]; omega)
    (by simp only [Op.reads, Op.pushes]; omega)

theorem moves_toDo {name : String} {start stop body : Emit}
    (hstart : Moves start 0 1) (hstop : Moves stop 0 1) (hbody : Moves body 0 1) :
    Moves (emitToDo ctx name start stop body) 0 1 := by
  refine .reading fun scope => .declaring fun slotI => .declaring fun slotEnd => ?_
  have hstart' := hstart.seq (.code fun entries d =>
    takes_store entries (i := .storeLocal slotI) trivial rfl rfl rfl)
  have hstop' : Moves stop 1 2 := by
    intro st herr
    have h := hstop st herr
    exact ⟨h.errors, h.entries, fun entries d hpre => h.takes entries (d + 1) hpre, h.blocks⟩
  have hend : Moves (Emit.code [.op (.storeLocal slotEnd)]) 2 1 :=
    .code fun entries d => takes_storeLocal slotEnd entries (d + 1)
  refine ((hstart'.seq hstop').seq hend).seq ?_
  refine (hbody.bound name slotI.index).wrap fun entries c hc d => ?_
  refine .loop ?_ ?_
  · exact takes_cons _ (takes_pushLocal slotI entries _)
      (takes_cons _ (takes_pushLocal slotEnd entries _) (takes_binInt .le entries _))
  · refine (hc (d + 1)).append ?_
    exact takes_cons _ (takes_pop entries _) (takes_cons _ (takes_pushLocal slotI entries _)
      (takes_cons _ (takes_pushConst _ entries _) (takes_cons _ (takes_binInt .add entries _)
        (takes_storeLocal slotI entries _))))

theorem moves_doYielding {receiver block : Emit}
    (hreceiver : Moves receiver 0 1) (hblock : Moves block 0 1) :
    Moves (emitDoYielding ctx receiver block) 0 1 := by
  refine .reading fun scope => .declaring fun slotColl => .declaring fun slotBlk =>
    .declaring fun slotN => .declaring fun slotI => ?_
  have hcoll : Moves (Emit.code [.op (.storeLocal slotColl)]) 1 0 :=
    .code fun entries d => takes_storeLocal slotColl entries d
  refine ((hreceiver.seq hcoll).seq hblock).seq (.code fun entries d => ?_)
  have hsize := takes_send .unary "size" (n := 0) rfl rfl entries
  have hle := takes_send .binary "<=" (n := 1) rfl rfl entries
  have hplus := takes_send .binary "+" (n := 1) rfl rfl entries
  have hatk := takes_send .keyword "at:" (n := 1) rfl rfl entries
  have hvalue := takes_send .keyword "value:" (n := 1) rfl rfl entries
  refine takes_cons _ (takes_storeLocal slotBlk entries _)
    (takes_cons _ (takes_pushLocal slotColl entries _) (takes_cons _ (hsize _)
    (takes_cons _ (takes_storeLocal slotN entries _)
    (takes_cons _ (takes_pushConst _ entries _) (takes_cons _ (takes_storeLocal slotI entries _)
    (takes_cons _ (.loop ?_ ?_) (takes_pushLocal slotColl entries _)))))))
  · exact takes_cons _ (takes_pushLocal slotI entries _)
      (takes_cons _ (takes_pushLocal slotN entries _) (hle _))
  · exact takes_cons _ (takes_pushLocal slotBlk entries _)
      (takes_cons _ (takes_pushLocal slotColl entries _)
      (takes_cons _ (takes_pushLocal slotI entries _) (takes_cons _ (hatk (d + 1))
      (takes_cons _ (hvalue d) (takes_cons _ (takes_pop entries _)
      (takes_cons _ (takes_pushLocal slotI entries _)
      (takes_cons _ (takes_pushConst _ entries _) (takes_cons _ (hplus d)
      (takes_storeLocal slotI entries _)))))))))

/-! ## Arguments -/

/-- The emissions of an argument move the depth; the body of an inlined block is
emitted for block literals only. -/
structure ArgMoves (n : Node) (a : ArgEmit) : Prop where
  expr : Moves a.expr 0 1
  body : ∀ args locals stmts, n = .block args locals stmts → Moves a.body 0 1

/-- The emissions of the arguments of keywords. -/
abbrev PartsMove (parts : List (Ident × Node)) (args : List ArgEmit) : Prop :=
  List.Forall₂ (fun p a => ArgMoves p.2 a) parts args

/-- More values below. -/
theorem Moves.above {a : Emit} (h : Moves a i j) (k : Nat) :
    Moves a (k + i) (k + j) := by
  intro st herr
  have h' := h st herr
  refine ⟨h'.errors, h'.entries, fun entries d hpre => ?_, h'.blocks⟩
  have htakes := h'.takes entries (d + k) hpre
  rwa [Nat.add_assoc, Nat.add_assoc] at htakes

variable {parts : List (Ident × Node)} {args : List ArgEmit}

theorem moves_exprs
    (h : PartsMove parts args) : ∀ i, Moves (emitExprs args) i (i + parts.length) := by
  induction h with
  | nil => exact fun i => .nil i
  | cons ha _ ih =>
    intro i
    have hrest := ih (i + 1)
    rw [Nat.add_assoc, Nat.add_comm 1] at hrest
    exact (ha.expr.above i).seq hrest

theorem isInlineableBlock_block {n : Node} (h : n.isInlineableBlock = true) :
    ∃ args locals stmts, n = .block args locals stmts := by
  unfold Node.isInlineableBlock at h
  split at h
  · exact ⟨_, _, _, rfl⟩
  · cases h

theorem isLoopBlock_block {n : Node} (h : n.isLoopBlock = true) :
    ∃ args locals stmts, n = .block args locals stmts := by
  unfold Node.isLoopBlock at h
  split at h
  · exact ⟨_, _, _, rfl⟩
  · cases h

theorem ArgMoves.inlineable {n : Node} {a : ArgEmit} (h : ArgMoves n a)
    (hn : n.isInlineableBlock = true) : Moves a.body 0 1 := by
  obtain ⟨args, locals, stmts, hblock⟩ := isInlineableBlock_block hn
  exact h.body args locals stmts hblock

theorem ArgMoves.loop {n : Node} {a : ArgEmit} (h : ArgMoves n a)
    (hn : n.isLoopBlock = true) : Moves a.body 0 1 := by
  obtain ⟨args, locals, stmts, hblock⟩ := isLoopBlock_block hn
  exact h.body args locals stmts hblock

/-! ## Keyword messages -/

/-- The blocks of an inlined message with one argument. -/
theorem inlinedSend_one {ivars : List String} {r n : Node} {k : Ident}
    (h : inlinedSend ivars r [(k, n)] = true) :
    n.isInlineableBlock = true ∧
      (k.text = "ifTrue" ∨ k.text = "ifFalse" ∨ r.isInlineableBlock = true) := by
  simp only [inlinedSend, inlineShapeOf] at h
  by_cases hsuper : r.isSuper = true
  · simp [hsuper] at h
  by_cases hn : n.isInlineableBlock = true
  · refine ⟨hn, ?_⟩
    by_cases htrue : k.text = "ifTrue"
    · exact .inl htrue
    by_cases hfalse : k.text = "ifFalse"
    · exact .inr (.inl hfalse)
    by_cases hr : r.isInlineableBlock = true
    · exact .inr (.inr hr)
    · simp [hsuper, htrue, hfalse, hr] at h
  · simp [hsuper, hn] at h

/-- The blocks of an inlined message with two arguments. -/
theorem inlinedSend_two {ivars : List String} {r n n' : Node} {k k' : Ident}
    (h : inlinedSend ivars r [(k, n), (k', n')] = true) :
    if k.text = "to" then n'.isLoopBlock = true
    else n.isInlineableBlock = true ∧ n'.isInlineableBlock = true := by
  simp only [inlinedSend, inlineShapeOf] at h
  by_cases hsuper : r.isSuper = true
  · simp [hsuper] at h
  by_cases hto : k.text = "to"
  · rw [if_pos hto]
    by_cases hloop : n'.isLoopBlock = true
    · exact hloop
    · simp [hsuper, hto, hloop] at h
  · rw [if_neg hto]
    by_cases hn : n.isInlineableBlock = true ∧ n'.isInlineableBlock = true
    · exact hn
    · rw [← Bool.and_eq_true, Bool.not_eq_true] at hn
      simp [hsuper, hto, hn] at h

theorem moves_keywordSend {r : Node} {receiver : ArgEmit}
    (hr : Moves receiver.expr 0 1) (hargs : PartsMove parts args) :
    Moves (receiver.expr ++ emitExprs args ++
      Emit.code [sendOp r.isSuper .keyword (keywordSelector (parts.map Prod.fst))]) 0 1 := by
  have hexprs := moves_exprs hargs 1
  rw [Nat.add_comm 1] at hexprs
  refine (hr.seq hexprs).seq ?_
  have hsend := moves_sendOp_keyword r.isSuper parts (j := 0)
  rwa [Nat.zero_add, Nat.zero_add] at hsend

theorem moves_keyword (ctx : Context) {r : Node} {receiver : ArgEmit} (hr : ArgMoves r receiver)
    (hargs : PartsMove parts args) : Moves (emitKeyword ctx r parts receiver args) 0 1 := by
  have hsend := moves_keywordSend (r := r) hr.expr hargs
  cases hargs with
  | nil => exact hsend
  | @cons p a ps as ha hrest =>
    obtain ⟨k, n⟩ := p
    cases hrest with
    | nil =>
      show Moves (if _ then _ else if _ then if _ then _ else _ else _) 0 1
      split
      · exact moves_doYielding hr.expr ha.expr
      split
      · rename_i hinl
        obtain ⟨hn, hselector⟩ := inlinedSend_one hinl
        split
        · exact moves_if hr.expr (ha.inlineable hn)
        · rename_i hif
          simp only [Bool.or_eq_true, decide_eq_true_eq, not_or] at hif
          have hcond := (hselector.resolve_left hif.1).resolve_left hif.2
          exact moves_while (hr.inlineable hcond) (ha.inlineable hn)
      · exact hsend
    | @cons p' b ps as hb hrest =>
      obtain ⟨k', n'⟩ := p'
      cases hrest with
      | nil =>
        show Moves (if _ then if _ then _ else if _ then _ else _ else _) 0 1
        split
        · rename_i hinl
          have hblocks := inlinedSend_two hinl
          split at hblocks
          · rename_i hto
            rw [if_pos hto]
            exact moves_toDo hr.expr ha.expr (hb.loop hblocks)
          · rename_i hto
            rw [if_neg hto]
            have hna := ha.inlineable hblocks.1
            have hnb := hb.inlineable hblocks.2
            split
            · exact moves_ifElse hr.expr hnb hna
            · exact moves_ifElse hr.expr hna hnb
        · exact hsend
      | cons _ _ => exact hsend

/-! ## Scopes -/

/-- Pieces that keep the depth, in a row. -/
theorem takes_flatMap {α : Type} (entries : List GroupEntry) (d : Nat) (f : α → Code)
    (hf : ∀ x, Takes (effect entries) (f x) d d) (xs : List α) :
    Takes (effect entries) (xs.flatMap f) d d := by
  induction xs with
  | nil => exact .nil
  | cons x xs ih =>
    rw [List.flatMap_cons]
    exact (hf x).append ih

theorem takes_makeCaptured (inherit : Bool) (entries : List GroupEntry) (d : Nat) :
    Takes (effect entries) [.op (.makeCaptured inherit)] d d :=
  takes_op entries trivial rfl (by simp only [Op.reads]; omega)
    (by simp only [Op.reads, Op.pushes]; omega)

theorem takes_defineCaptured (x : String) (entries : List GroupEntry) (d : Nat) :
    Takes (effect entries) [.op (.defineCaptured x)] (d + 1) d :=
  takes_op entries trivial rfl (by simp only [Op.reads]; omega)
    (by simp only [Op.reads, Op.pushes]; omega)

theorem takes_captureProlog (ctx : Context) (scope : Scope) (args locals : List String)
    (entries : List GroupEntry) (d : Nat) :
    Takes (effect entries) (captureProlog ctx scope args locals) d d := by
  unfold captureProlog
  split
  · exact .nil
  · refine (Takes.append ?_ (takes_flatMap entries d _ (fun x => ?_) _)).append
      (takes_flatMap entries d _ (fun x => ?_) _)
    · split
      · exact takes_makeCaptured false entries d
      · split
        · exact .nil
        · exact takes_makeCaptured true entries d
    · split
      · exact takes_cons _ (takes_pushLocal _ entries d) (takes_defineCaptured x entries d)
      · exact .nil
    · exact takes_cons _ (takes_pushNil entries d) (takes_defineCaptured x entries d)

/-- A return, which leaves the code. -/
theorem takes_leave {i : Op} (hlegal : ∀ entries, i.Legal entries) (hl : i.leaves = true)
    (hr : ∀ entries, i.reads entries = 1) (entries : List GroupEntry) (d : Nat) :
    Takes (effect entries) [.op i] (d + 1) (d + 1) := by
  refine @Takes.leave _ (effect entries) _ _ (hlegal entries) hl ?_
  show i.reads entries ≤ d + 1
  rw [hr]
  omega

theorem moves_block (ctx : Context) (args locals : List String) (stmts : List Node)
    {body : Context → Emit} (hbody : ∀ inner, stmts ≠ [] → Moves (body inner) 0 1) :
    Moves (emitBlock ctx args locals stmts body) 0 1 := by
  intro st herr
  have hstatements : ∀ inner, Moves
      (if stmts.isEmpty then Emit.code [.op .pushNil] else body inner) 0 1 := by
    intro inner
    cases stmts with
    | nil => exact .code fun entries d => takes_pushNil entries d
    | cons n rest => exact hbody inner (by simp)
  have hwhole : ∀ inner scope, Moves
      (Emit.code (captureProlog inner scope args locals)
        ++ (if stmts.isEmpty then Emit.code [.op .pushNil] else body inner)
        ++ Emit.code [.op .retTop]) 0 1 := fun inner scope =>
    ((Moves.code fun entries d => takes_captureProlog inner scope args locals entries d).seq
      (hstatements inner)).seq (.code fun entries d =>
        takes_leave (i := .retTop) (fun _ => trivial) rfl (fun _ => rfl) entries d)
  have hsub := hwhole (ctx.inBlock st.scope (args ++ locals))
    (openScope (blockCaptured ctx.ivars (args ++ locals) stmts) args locals false) _ herr
  have herrors : st.errors = [] := (List.append_eq_nil_iff.mp hsub.errors).1
  refine ⟨herrors, List.prefix_refl _, fun entries d _ => ?_, fun hblocks b hb => ?_⟩
  · exact takes_op entries trivial rfl (by simp only [Op.reads]; omega)
      (by simp only [Op.reads, Op.pushes]; omega)
  · rcases List.mem_append.mp hb with hb | hb
    · exact hblocks b hb
    · rw [List.mem_singleton] at hb
      subst hb
      exact .of_blocks (hsub.takes _ 0 (List.prefix_refl _)) (hsub.blocks (by simp))

/-! ## Write groups -/

/-- The assignments in front of a statement list. -/
def leadingAssignments : List Node → Nat
  | .assignment _ _ :: rest => leadingAssignments rest + 1
  | _ => 0

theorem groupTail_le (ctx : Context) (scope : Scope) (stmts : List Node) :
    ∀ written taken, groupTail ctx scope written taken stmts ≤ leadingAssignments stmts := by
  induction stmts with
  | nil => exact fun _ _ => Nat.le_refl 0
  | cons n rest ih =>
    intro written taken
    cases n with
    | assignment x v =>
      simp only [groupTail, leadingAssignments]
      split
      · exact Nat.succ_le_succ (ih _ _)
      · exact Nat.zero_le _
    | _ => exact Nat.le_refl 0

theorem groupRun_le (ctx : Context) (scope : Scope) (stmts : List Node) :
    groupRun ctx scope stmts ≤ leadingAssignments stmts := by
  unfold groupRun
  split
  · split
    · rename_i x v rest
      have htail := groupTail_le ctx scope rest [x] 1
      simp only [leadingAssignments]
      split
      · split <;> omega
      · omega
    · exact Nat.zero_le _
  · exact Nat.zero_le _

/-- The write of a position of a group: the values of the earlier positions are
below, and the last position takes them all. -/
theorem moves_groupWrite (x : String) {position count : Nat} {value : Emit}
    (hposition : position < count) (hvalue : Moves value 0 1) :
    Moves (emitGroupWrite x position count value) position
      (if position + 1 < count then position + 1 else 1) := by
  refine (hvalue.above position).seq fun st herr => ?_
  refine ⟨herr, List.prefix_append _ _, fun entries d hpre => ?_, fun hblocks => hblocks⟩
  show Takes (effect entries) [.op (if _ then _ else _)] _ _
  split
  · exact takes_op entries trivial rfl (by simp only [Op.reads]; omega)
      (by simp only [Op.reads, Op.pushes]; omega)
  · have hentry : entries[st.groupEntries.length]? = some ⟨x, position, count⟩ := by
      have hpre' : st.groupEntries ++ [⟨x, position, count⟩] <+: entries := hpre
      obtain ⟨rest, rfl⟩ := hpre'
      simp
    have hcount : groupCount entries st.groupEntries.length = count := by
      simp [groupCount, hentry]
    refine takes_op entries ?_ rfl ?_ ?_
    · simp only [Op.Legal, hcount]
      omega
    · simp only [Op.reads, hcount]
      omega
    · simp only [Op.reads, Op.pushes, hcount]
      omega

/-- The position and the length of a group fit the statements left. -/
def GroupFits (group : Nat × Nat) (stmts : List Node) : Prop :=
  group = (0, 0) ∨ group.1 < group.2 ∧ group.2 - group.1 ≤ leadingAssignments stmts

/-- The `POP` behind a statement and the statements behind it. -/
theorem moves_rest {rest : List Node} {next : Emit}
    (hnext : rest ≠ [] → Moves next 0 1) (hnil : rest = [] → Moves next 1 1) :
    Moves (popBetween rest.isEmpty ++ next) 1 1 := by
  cases rest with
  | nil => exact (Moves.nil 1).seq (hnil rfl)
  | cons n rest =>
    exact (Moves.code (i := 1) (j := 0) fun entries d => takes_pop entries d).seq
      (hnext (by simp))

theorem emit_assoc (a b c : Emit) : a ++ b ++ c = a ++ (b ++ c) := by
  funext st
  exact Prod.ext (List.append_assoc _ _ _) rfl

section Turn

variable {n : Node} {rest : List Node} {next : Nat × Nat → Emit}

/-- A turn outside the write groups. -/
theorem moves_turn_plain {stmt : Emit} (hstmt : Moves stmt 0 1)
    (hnext : ∀ g, GroupFits g rest → rest ≠ [] → Moves (next g) g.1 1)
    (hnil : rest = [] → ∀ g, Moves (next g) 1 1) :
    Moves (stmt ++ popBetween rest.isEmpty ++ next (0, 0)) 0 1 := by
  rw [emit_assoc]
  exact hstmt.seq (moves_rest (hnext (0, 0) (.inl rfl)) fun h => hnil h (0, 0))

/-- A turn at a position of a write group. -/
theorem moves_turn_group {x : String} {v : Node} {value : Emit} {position count : Nat}
    (hposition : position < count)
    (hcount : count - position ≤ leadingAssignments (.assignment x v :: rest))
    (hvalue : Moves value 0 1)
    (hnext : ∀ g, GroupFits g rest → rest ≠ [] → Moves (next g) g.1 1)
    (hnil : rest = [] → ∀ g, Moves (next g) 1 1) :
    Moves (if position + 1 < count then
        emitGroupWrite x position count value ++ next (position + 1, count)
      else emitGroupWrite x position count value ++ popBetween rest.isEmpty ++ next (0, 0))
      position 1 := by
  have hwrite := moves_groupWrite x hposition hvalue
  simp only [leadingAssignments] at hcount
  split
  · rename_i hmore
    rw [if_pos hmore] at hwrite
    have hrest : rest ≠ [] := by
      rintro rfl
      simp only [leadingAssignments] at hcount
      omega
    exact hwrite.seq (hnext _ (.inr ⟨hmore, by omega⟩) hrest)
  · rename_i hlast
    rw [if_neg hlast] at hwrite
    rw [emit_assoc]
    exact hwrite.seq (moves_rest (hnext (0, 0) (.inl rfl)) fun h => hnil h (0, 0))

theorem moves_turn (ctx : Context) {group : Nat × Nat} {stmt value : Emit}
    (hgroup : GroupFits group (n :: rest)) (hstmt : Moves stmt 0 1)
    (hvalue : ∀ x v, n = .assignment x v → Moves value 0 1)
    (hnext : ∀ g, GroupFits g rest → rest ≠ [] → Moves (next g) g.1 1)
    (hnil : rest = [] → ∀ g, Moves (next g) 1 1) :
    Moves (emitTurn ctx group n rest stmt value next) group.1 1 := by
  refine .reading fun scope => ?_
  -- the group this statement stands in, decided here when it is the first one
  have hdecided : ∃ position count,
      (if group.2 = 0 then (0, groupRun ctx scope (n :: rest)) else group)
        = (position, count) ∧ position = group.1 ∧
      (count = 0 ∧ position = 0 ∨
        position < count ∧ count - position ≤ leadingAssignments (n :: rest)) := by
    rcases hgroup with rfl | ⟨hlt, hle⟩
    · refine ⟨0, groupRun ctx scope (n :: rest), rfl, rfl, ?_⟩
      have hrun := groupRun_le ctx scope (n :: rest)
      omega
    · refine ⟨group.1, group.2, ?_, rfl, .inr ⟨hlt, hle⟩⟩
      rw [if_neg (by omega)]
  obtain ⟨position, count, heq, rfl, hcase⟩ := hdecided
  simp only [heq]
  rcases hcase with ⟨rfl, hzero⟩ | ⟨hlt, hle⟩
  · rw [hzero]
    cases n <;> exact moves_turn_plain hstmt hnext hnil
  · cases n with
    | assignment x v =>
      cases count with
      | zero => omega
      | succ k => exact moves_turn_group hlt hle (hvalue x v rfl) hnext hnil
    | _ =>
      simp only [leadingAssignments] at hle
      omega

end Turn

/-! ## The syntax tree -/

theorem moves_callSend {name : Ident} {ps : List Node} {ns : List (Ident × Node)}
    {receiver positional : Emit} {named : List ArgEmit} (hr : Moves receiver 0 1)
    (hps : Moves positional 1 (1 + ps.length)) (hns : PartsMove ns named) :
    Moves (receiver ++ positional ++ emitExprs named ++ Emit.code [.op (.send .call
      (mangled name.text ps.length (ns.map fun p => p.1.text)))]) 0 1 := by
  have hkeys : ∀ k ∈ ns.map (fun p => p.1.text), CallKey k := by
    intro k hk
    obtain ⟨p, -, rfl⟩ := List.mem_map.mp hk
    exact p.1.callKey
  have hname : '#' ∉ name.text.toList := name.notMem (by decide)
  have hcount := sendArgCount_mangled hname ps.length hkeys
  have hargs := argCount_mangled hname ps.length hkeys
  rw [List.length_map] at hcount hargs
  have hsend := moves_send (j := 0) hcount hargs
  rw [Nat.zero_add, Nat.zero_add] at hsend
  have hexprs := moves_exprs hns (1 + ps.length)
  have hdepth : 1 + ps.length + ns.length = ps.length + ns.length + 1 := by omega
  rw [hdepth] at hexprs
  exact ((hr.seq hps).seq hexprs).seq hsend

/-- One message of a cascade and what is done with its result. -/
theorem moves_cascadeStep {last : Bool} {tmp : Slot} {message : Emit}
    (hmessage : Moves message 1 1) :
    Moves (Emit.code [.op .dup] ++ message ++ Emit.code
      (if last then [.op (.storeLocal tmp), .op .pop, .op (.pushLocal tmp)]
        else [.op .pop])) 1 1 := by
  have hdup : Moves (Emit.code [.op .dup]) 1 2 := .code fun entries d =>
    takes_op entries trivial rfl (by simp only [Op.reads]; omega)
      (by simp only [Op.reads, Op.pushes]; omega)
  refine (hdup.seq (hmessage.above 1)).seq (.code fun entries d => ?_)
  cases last with
  | false => exact takes_pop entries (d + 1)
  | true =>
    exact takes_cons _ (takes_storeLocal tmp entries (d + 1))
      (takes_cons _ (takes_pop entries d) (takes_pushLocal tmp entries d))

mutual

/-- **Expressions and statements** leave one value. -/
theorem emitNode_moves (ctx : Context) (stmt : Bool) : ∀ n, Moves (emitNode ctx stmt n) 0 1
  | .literal _ | .trueLit | .falseLit | .nilLit | .self | .super =>
    moves_push (fun _ => trivial) rfl (fun _ => rfl) rfl
  | .thisContext => .fail
  | .identifier x => moves_load ctx x
  | .assignment x v => moves_store ctx stmt x (emitNode_moves ctx false v)
  | .unarySend r sel =>
    (emitNode_moves ctx false r).seq (moves_sendOp_unary r.isSuper sel (j := 0))
  | .binarySend r o a =>
    ((emitNode_moves ctx false r).seq ((emitNode_moves ctx false a).above 1)).seq
      (moves_binaryOp r.isSuper o (j := 0))
  | .keywordSend r parts =>
    moves_keyword ctx ⟨emitNode_moves ctx false r, emitInlinedBlockBody_moves ctx r⟩
      (emitParts_move ctx parts)
  | .callSend r name ps ns => by
    rw [emitNode]
    split
    · exact .fail
    · exact moves_callSend (emitNode_moves ctx false r) (emitArgs_moves ctx ps 1)
        (emitParts_move ctx ns)
  | .cascade r ms =>
    (emitNode_moves ctx false r).seq <| .reading fun _ => .declaring fun tmp =>
      emitPartials_moves ctx r.isSuper tmp ms
  | .arrayLit es =>
    have hargs := emitArgs_moves ctx es 0
    hargs.seq <| .code fun entries d =>
      takes_op entries trivial rfl (by simp only [Op.reads]; omega)
        (by simp only [Op.reads, Op.pushes]; omega)
  | .block args locals body =>
    moves_block ctx args locals body fun inner hne =>
      emitAll_moves inner (0, 0) body (.inl rfl) hne
  | .ret v => by
    cases stmt with
    | false => exact .fail
    | true =>
      exact (emitNode_moves ctx false v).seq <| .code fun entries d =>
        takes_leave (i := .ret) (fun _ => trivial) rfl (fun _ => rfl) entries d

theorem emitArgs_moves (ctx : Context) : ∀ ns i, Moves (emitArgs ctx ns) i (i + ns.length)
  | [], i => .nil i
  | n :: rest, i => by
    have hrest := emitArgs_moves ctx rest (i + 1)
    rw [Nat.add_assoc, Nat.add_comm 1] at hrest
    exact ((emitNode_moves ctx false n).above i).seq hrest

theorem emitParts_move (ctx : Context) : ∀ parts, PartsMove parts (emitParts ctx parts)
  | [] => .nil
  | (_, n) :: rest =>
    .cons ⟨emitNode_moves ctx false n, emitInlinedBlockBody_moves ctx n⟩
      (emitParts_move ctx rest)

theorem emitPartial_moves (ctx : Context) (isSuper : Bool) :
    ∀ m, Moves (emitPartial ctx isSuper m) 1 1
  | .unary _ sel => moves_sendOp_unary isSuper sel (j := 0)
  | .binary o a =>
    ((emitNode_moves ctx false a).above 1).seq (moves_sendOp_binary isSuper o (j := 0))
  | .keyword parts => by
    have hexprs := moves_exprs (emitParts_move ctx parts) 1
    rw [Nat.add_comm 1] at hexprs
    have hsend := moves_sendOp_keyword isSuper parts (j := 0)
    rw [Nat.zero_add, Nat.zero_add] at hsend
    exact hexprs.seq hsend
  | .call _ _ _ => .fail

theorem emitPartials_moves (ctx : Context) (isSuper : Bool) (tmp : Slot) :
    ∀ ms, Moves (emitPartials ctx isSuper tmp ms) 1 1
  | [] => .nil 1
  | m :: rest =>
    (moves_cascadeStep (emitPartial_moves ctx isSuper m)).seq
      (emitPartials_moves ctx isSuper tmp rest)

theorem emitInlinedBlockBody_moves (ctx : Context) : ∀ n args locals stmts,
    n = .block args locals stmts → Moves (emitInlinedBlockBody ctx n) 0 1
  | .block args locals body, _, _, _, _ => by
    rw [emitInlinedBlockBody]
    split
    · exact .code fun entries d => takes_pushNil entries d
    · rename_i hne
      refine emitAll_moves _ (0, 0) body (.inl rfl) fun hnil => hne ?_
      rw [hnil]
      rfl

theorem emitValue_moves (ctx : Context) : ∀ n x v, n = .assignment x v →
    Moves (emitValue ctx n) 0 1
  | .assignment _ v, _, _, _ => emitNode_moves ctx false v

/-- **Statement lists** leave the value of the last statement. -/
theorem emitAll_moves (ctx : Context) : ∀ group stmts, GroupFits group stmts →
    stmts ≠ [] → Moves (emitAll ctx group stmts) group.1 1
  | group, n :: rest, hgroup, _ =>
    moves_turn ctx hgroup (emitNode_moves ctx true n) (emitValue_moves ctx n)
      (fun g hg hne => emitAll_moves ctx g rest hg hne)
      fun hnil g => by subst hnil; exact .nil 1

end

/-! ## Top-level forms -/

/-- The depth behind the body of a method, which is left by a return. -/
theorem moves_methodBody (ctx : Context) (body : List Node) :
    ∃ j, Moves (emitMethodBody ctx body) 0 j := by
  have hself : ∀ i, Moves (Emit.code [.op (.pushLocal ⟨ctx.enclosing.length, 0⟩), .op .ret])
      i (i + 1) := fun i => .code fun entries d =>
    takes_cons _ (takes_pushLocal _ entries _)
      (takes_leave (i := .ret) (fun _ => trivial) rfl (fun _ => rfl) entries (d + i))
  cases body with
  | nil =>
    have hnil : Moves (Emit.code [.op .pushNil]) 0 1 :=
      .code fun entries d => takes_pushNil entries d
    exact ⟨2, hnil.seq ((Moves.nil 1).seq (hself 1))⟩
  | cons n rest =>
    have hall := emitAll_moves ctx (0, 0) (n :: rest) (.inl rfl) (by simp)
    have hpop : Moves (Emit.code [.op .pop]) 1 0 :=
      .code fun entries d => takes_pop entries d
    refine ⟨1, hall.seq ?_⟩
    split
    · exact .nil 1
    · exact hpop.seq (hself 0)

theorem emitDefaults_moves (ctx : Context) (named : List (String × Node)) :
    ∀ slot, Moves (emitDefaults ctx slot named) 0 0 := by
  induction named with
  | nil => exact fun slot => .nil 0
  | cons p rest ih =>
    intro slot
    obtain ⟨x, e⟩ := p
    have htest : Moves (Emit.code [.op (.pushLocal ⟨ctx.enclosing.length, slot⟩),
        .op (.pushConst .unsetMarker), .op (.send .binary "==")]) 0 1 :=
      .code fun entries d =>
        takes_cons _ (takes_pushLocal _ entries d) (takes_cons _ (takes_pushConst _ entries _)
          (takes_send .binary "==" (n := 1) rfl rfl entries d))
    refine (htest.seq ?_).seq (ih (slot + 1))
    refine (emitNode_moves ctx false e).wrap fun entries c hc d => ?_
    exact .skipIf ((hc d).append (takes_storeLocal _ entries d))

/-- A method module is fine. -/
theorem emitMethod_fine {className : String} {classSide : Bool}
    {cls : ClassScope} {analysed : List String}
    {args locals : List String} {callForm : Option CallForm} {prologue : Context → Emit}
    {walked body : List Node} (hprologue : ∀ inner, Moves (prologue inner) 0 0)
    {st : Emitter} (herr : (emitMethod ctx className classSide cls analysed selector args locals
      callForm prologue walked body st).2 = []) :
    st.errors = [] ∧ Fine (emitMethod ctx className classSide cls analysed selector args
      locals callForm prologue walked body st).1 := by
  have hwhole : ∀ inner scope, ∃ j, Moves (Emit.code (captureProlog inner scope args locals)
      ++ prologue inner ++ emitMethodBody inner body) 0 j := by
    intro inner scope
    obtain ⟨j, hbody⟩ := moves_methodBody inner body
    exact ⟨j, ((Moves.code fun entries d =>
      takes_captureProlog inner scope args locals entries d).seq (hprologue inner)).seq hbody⟩
  obtain ⟨j, hmoves⟩ := hwhole
    ⟨ctx.repl, ctx.groups,
      some ⟨className, if classSide then cls.classInstVars else cls.instVars, cls.classVars,
        classSide⟩,
      without analysed (args ++ locals), scopes ctx st.scope⟩
    (openScope (scopeCaptured (without analysed (args ++ locals)) (args ++ locals) false walked)
      args locals true)
  have hsub := hmoves _ herr
  have herrors := (List.append_eq_nil_iff.mp hsub.errors).1
  refine ⟨(List.append_eq_nil_iff.mp herrors).1, ?_⟩
  exact .of_blocks (hsub.takes _ 0 (List.prefix_refl _)) (hsub.blocks (by simp))

theorem emitInstall_moves (className selector : String) (classSide : Bool)
    {method : Emitter → Module × List CompileError}
    (hmethod : ∀ st, (method st).2 = [] → st.errors = [] ∧ Fine (method st).1) :
    Moves (emitInstall className selector classSide method) 0 1 := by
  intro st herr
  obtain ⟨herrors, hfine⟩ := hmethod st herr
  refine ⟨herrors, List.prefix_refl _, fun entries d _ => ?_, fun hblocks b hb => ?_⟩
  · have hpush : ∀ (i : Op) (d : Nat), i.Legal entries → i.leaves = false →
        i.reads entries = 0 → i.pushes = 1 → Takes (effect entries) [.op i] d (d + 1) :=
      fun i d hlegal hl hr hp => takes_op entries hlegal hl (by omega) (by omega)
    refine takes_cons _ (hpush _ d trivial rfl rfl rfl)
      (takes_cons _ (hpush _ (d + 1) trivial rfl rfl rfl)
        (takes_cons _ (hpush _ (d + 2) trivial rfl rfl rfl) ?_))
    cases classSide <;> exact takes_send _ _ (n := 2) (by decide) (by decide) entries d
  · rcases List.mem_append.mp hb with hb | hb
    · exact hblocks b hb
    · rw [List.mem_singleton] at hb
      exact hb ▸ hfine

theorem takes_stringSend (text selector : String)
    (hcount : selector.toList.count ':' = 1) (entries : List GroupEntry) (d : Nat) :
    Takes (effect entries) (stringSend text selector) (d + 1) (d + 1) :=
  takes_cons _ (takes_pushConst _ entries (d + 1))
    (takes_send .keyword selector hcount hcount entries d)

theorem takes_classTail (d : ClassDecl) (entries : List GroupEntry) (k : Nat) :
    Takes (effect entries) (classTail d) (k + 1) (k + 1) := by
  have hinst := takes_stringSend (packed d.instVars) "__setInstVarNames:"
    (by decide) entries k
  have hclass := takes_stringSend (packed d.classVars) "__initClassVars:"
    (by decide) entries k
  have hstore := takes_store entries (i := .storeGlobal d.name) (d := k) trivial rfl rfl rfl
  refine Takes.append (Takes.append (e := k + 1) ?_ ?_) hstore
  · split
    · exact .nil
    · exact hinst
  · split
    · exact .nil
    · exact hclass

theorem takes_pushGlobal (x : String) (entries : List GroupEntry) (d : Nat) :
    Takes (effect entries) [.op (.pushGlobal x)] d (d + 1) :=
  takes_op entries trivial rfl (by simp only [Op.reads]; omega)
    (by simp only [Op.reads, Op.pushes]; omega)

theorem emitClassDecl_moves (ctx : Context) (d : ClassDecl) :
    Moves (emitClassDecl ctx d) 0 1 := by
  unfold emitClassDecl
  split
  · rename_i mixins _
    have hhead : Moves (Emit.code [.op (.pushGlobal d.superName),
        .op (.pushConst (.symbol d.name))]) 0 2 := .code fun entries k =>
      takes_cons _ (takes_pushGlobal _ entries k) (takes_pushConst _ entries (k + 1))
    cases hempty : d.instVars.isEmpty with
    | true =>
      refine ((hhead.seq (.nil 2)).seq ((emitNode_moves ctx false mixins).above 2)).seq
        (.code fun entries k => ?_)
      exact takes_cons _ (takes_send _ _ (n := 2) (by decide) (by decide) entries k)
        (takes_classTail d entries k)
    | false =>
      have hnames : Moves (Emit.code [.op (.pushConst (.string (packed d.instVars)))]) 2 3 :=
        .code fun entries k => takes_pushConst _ entries (k + 2)
      refine ((hhead.seq hnames).seq ((emitNode_moves ctx false mixins).above 3)).seq
        (.code fun entries k => ?_)
      exact takes_cons _ (takes_send _ _ (n := 3) (by decide) (by decide) entries k)
        (takes_classTail d entries k)
  · refine .code fun entries k => takes_cons _ (takes_pushGlobal _ entries k) ?_
    have hnamed := takes_stringSend d.name "__subclassNamed:" (by decide) entries k
    have hset := takes_stringSend d.name "__setClassName:" (by decide) entries k
    exact (hnamed.append hset).append (takes_classTail d entries k)

theorem emitTop_moves (ctx : Context) (classes : String → Option ClassScope) (t : Top) :
    Moves (emitTop ctx classes t) 0 1 := by
  cases t with
  | classDecl d => exact emitClassDecl_moves ctx d
  | methodDecl d =>
    exact emitInstall_moves _ _ _ fun st herr => emitMethod_fine (fun _ => .nil 0) herr
  | callMethodDecl d =>
    exact emitInstall_moves _ _ _ fun st herr =>
      emitMethod_fine (fun inner => emitDefaults_moves inner d.named _) herr
  | statement n => exact emitNode_moves ctx true n

theorem emitTops_moves (ctx : Context) (classes : String → Option ClassScope)
    (tops : List Top) (hne : tops ≠ []) : Moves (emitTops ctx classes tops) 0 1 := by
  induction tops with
  | nil => exact absurd rfl hne
  | cons t rest ih =>
    rw [emitTops, emit_assoc]
    refine (emitTop_moves ctx classes t).seq ?_
    cases rest with
    | nil => exact (Moves.nil 1).seq (.nil 1)
    | cons t' rest =>
      have hpop : Moves (popBetween false) 1 0 := .code fun entries d => takes_pop entries d
      exact hpop.seq (ih (by simp))

/-- An accepted program has fine modules only. -/
theorem compileModule_fine {repl groups : Bool} {classes : String → Option ClassScope}
    {tops : List Top} (herr : (compileModule repl groups classes tops).2 = []) :
    Fine (compileModule repl groups classes tops).1 := by
  have hbody : ∀ ctx, Moves
      (if tops.isEmpty then Emit.code [.op .pushNil] else emitTops ctx classes tops) 0 1 := by
    intro ctx
    cases tops with
    | nil => exact .code fun entries d => takes_pushNil entries d
    | cons t rest => exact emitTops_moves ctx classes (t :: rest) (by simp)
  have hret : Moves (Emit.code [.op .retTop]) 1 1 := .code fun entries d =>
    takes_leave (i := .retTop) (fun _ => trivial) rfl (fun _ => rfl) entries d
  have hwhole := ((hbody ⟨repl, groups, none, [], []⟩).seq hret) _ herr
  exact .of_blocks (hwhole.takes _ 0 (List.prefix_refl _)) (hwhole.blocks (by simp))

/-- **The operand stack is large enough.**  On every execution path of the top
level, a method or a block of an accepted program, the depth stays within
`computeMaxOperandDepth`, before and after every instruction, and every
instruction finds the values it pops. -/
theorem operand_stack_bound (repl groups : Bool) (classes : String → Option ClassScope)
    (tops : List Top) (herr : (compileModule repl groups classes tops).2 = [])
    (m : Module) (hm : (compileModule repl groups classes tops).1.Within m)
    (pc depth : Nat) (hpath : m.Path pc depth) :
    depth ≤ m.computeMaxOperandDepth ∧
      (∀ i, m.code[pc]? = some (.op i) → i.reads m.groupEntries ≤ depth ∧
        (i.leaves = false →
          depth - i.reads m.groupEntries + i.pushes ≤ m.computeMaxOperandDepth)) ∧
      (∀ sense offset, m.code[pc]? = some (.jumpIf sense offset) → 1 ≤ depth) := by
  obtain ⟨e, htakes⟩ := compileModule_fine herr m hm
  exact Module.depth_sound htakes hpath

/-- `1 + 2` on the operand stack. -/
theorem operand_stack_bound_sum :
    2 ≤ (compileModule false true (fun _ => none) [.statement (.binarySend
      (.literal (.integer 1)) ⟨"+", rfl, rfl⟩ (.literal (.integer 2)))]).1.computeMaxOperandDepth :=
  have hpath : (compileModule false true (fun _ => none) [.statement (.binarySend
      (.literal (.integer 1)) ⟨"+", rfl, rfl⟩ (.literal (.integer 2)))]).1.Path 2 2 :=
    .op (i := Op.pushConst (.integer 2)) (.op (i := Op.pushConst (.integer 1)) .start rfl rfl
      (Nat.le_refl 0)) rfl rfl (Nat.zero_le 1)
  (operand_stack_bound false true (fun _ => none) _ rfl _ .self 2 2 hpath).1

/-- **The words of an accepted program keep its operand stacks.**  `operation` is what an
instruction of the words is by its operand, an index into the tables of the module; the run may
stop anywhere. -/
theorem words_stack_bound {repl groups : Bool} {classes : String → Option ClassScope}
    {tops : List Top} (herr : (compileModule repl groups classes tops).2 = []) {m : Module}
    (hm : (compileModule repl groups classes tops).1.Within m) {operation : Instr → Op}
    {instrs : List (Item Instr)} (hitems : mapAll operation instrs = m.items) {words : Words}
    (hassemble : assembleAll instrs [] = .ok words) (hsize : words.length ≤ 0xFFFFFF)
    {depths : List Int} {r : Except Unit Int}
    (hrun : Runs ((heights (effect m.groupEntries)).comap operation) words 0 0 depths r) :
    ∀ depth ∈ depths, 0 ≤ depth ∧ depth ≤ m.computeMaxOperandDepth := by
  obtain ⟨e, htakes⟩ := compileModule_fine herr m hm
  have hexec : Exec (heights (effect m.groupEntries)) m.items 0 depths r := by
    rw [← hitems]
    exact (exec_of_runs hassemble hsize hrun).map
  exact Fits.heights hexec rfl (Nat.zero_le _) (Module.fits htakes)

end ProtoST.Frontend

import ProtoST.Frontend.SelfVariables

/-!
# Module-level code in the REPL

At the prompt the module scope declares nothing: an assignment to a name that no block around
it declares goes to the globals, in blocks too, and so does a read.  Emission still adds
temporaries of its own to the innermost scope, and the scopes of methods are never open around
module-level code.

## Main results

* `keeps_node`, `keeps_all` — every identifier of module-level code is looked up in the scopes
  of the blocks around it.
* `moduleSites_atPrompt` — the same of the identifiers of a whole input.
* `AtPrompt.code_eq_iff` — when an identifier nothing declares is compiled to an access of a
  global.
-/

namespace ProtoST.Frontend

open ProtoST.Runtime.Bytecode

/-! ## The identifiers of an input -/

/-- The place of the top-level statements: `moduleScope.isBlock` is `replMode_`. -/
def modulePlace (repl : Bool) : Place := ⟨[], repl, 0⟩

/-- The identifiers of a top-level form outside methods. -/
def sitesTop (ctx : Context) : Top → Sites
  | .statement n => sitesNode ctx (modulePlace ctx.repl) false n
  | .classDecl d =>
    match d.mixins with
    | some mixins => sitesNode ctx (modulePlace ctx.repl) false mixins
    | none => .none
  | .methodDecl _ | .callMethodDecl _ => .none

/-- The identifiers of top-level forms in order. -/
def sitesTops (ctx : Context) (classes : String → Option ClassScope) : List Top → Sites
  | [] => .none
  | t :: rest => (sitesTop ctx t).andThen (emitTop ctx classes t) (sitesTops ctx classes rest)

/-- The identifiers of module-level code: those that `compileModule` emits outside methods. -/
def moduleSites (repl groups : Bool) (classes : String → Option ClassScope) (tops : List Top) :
    List Site :=
  let captured := scopeCaptured [] [] repl (tops.flatMap Top.walked)
  sitesTops ⟨repl, groups, none, [], []⟩ classes tops
    ⟨openScope captured [] [] false, [], [], []⟩

/-! ## Scopes at the prompt -/

/-- The context of module-level code in the REPL. -/
structure Context.AtPrompt (ctx : Context) : Prop where
  repl : ctx.repl = true
  method : ctx.method = none
  enclosing : ∀ s ∈ ctx.enclosing, s.isMethod = false

/-- The identifier stands in module-level code in the REPL, and its scopes are known. -/
structure Site.AtPrompt (s : Site) : Prop where
  ctx : s.ctx.AtPrompt
  scope : s.scope.isMethod = false
  opens : Opens [] s.place.bound (scopes s.ctx s.scope)
  use : s.use ≠ .groupWrite

/-- The emission of a piece of module-level code and its identifiers. -/
structure Keeps (ctx : Context) (place : Place) (e : Emit) (s : Sites) : Prop where
  grows : ∀ st : Emitter, st.scope.isMethod = false → st.scope.Grows Temporary (e st).2.scope
  fits : ∀ st : Emitter, st.scope.isMethod = false → Opens [] place.bound (scopes ctx st.scope) →
    ∀ site ∈ s st, site.AtPrompt

/-! ## Names that no block declares -/

section Names

variable {ctx : Context} {scope : Scope} {x : String}

theorem Context.AtPrompt.instVarNames (h : ctx.AtPrompt) : instVarNames ctx = [] := by
  rw [Frontend.instVarNames, h.method]
  rfl

theorem Context.AtPrompt.classVarNames (h : ctx.AtPrompt) : classVarNames ctx = [] := by
  rw [Frontend.classVarNames, h.method]
  rfl

/-- A name without a slot goes to the globals, at the top level and in a block. -/
theorem Context.AtPrompt.stores_global (h : ctx.AtPrompt) (hscope : scope.isMethod = false)
    (hresolve : resolveLocal ctx scope x = none) :
    ((ctx.repl && ctx.enclosing.isEmpty) || assignsReplGlobalInBlock ctx scope x) = true := by
  have hmethods : (scopes ctx scope).any Scope.isMethod = false := by
    rw [List.any_eq_false]
    intro s hs
    rcases List.mem_cons.mp hs with rfl | hs
    · rw [hscope]
      exact Bool.false_ne_true
    · rw [h.enclosing s hs]
      exact Bool.false_ne_true
  rw [assignsReplGlobalInBlock, h.repl, hmethods, hresolve]
  cases ctx.enclosing <;> rfl

theorem Context.AtPrompt.storeTarget_ne_fresh (h : ctx.AtPrompt) (hscope : scope.isMethod = false) :
    storeTarget ctx scope x ≠ .fresh := by
  unfold storeTarget
  rw [h.instVarNames, h.classVarNames]
  cases hresolve : resolveLocal ctx scope x with
  | some slot =>
      repeat' split
      all_goals simp_all
  | none =>
      rw [h.stores_global hscope hresolve]
      repeat' split
      all_goals simp_all

end Names

namespace Keeps

variable {ctx : Context} {place : Place} {e e' E : Emit} {s s' : Sites}

/-- Emission that answers other code. -/
theorem of_state (h : Keeps ctx place e s) (hE : ∀ st, (E st).2.scope = (e st).2.scope) :
    Keeps ctx place E s :=
  ⟨fun st hst => hE st ▸ h.grows st hst, h.fits⟩

/-- Code without identifiers. -/
theorem code (hE : ∀ st, (E st).2.scope = st.scope) : Keeps ctx place E .none where
  grows st _ := by
    rw [hE]
    exact .refl _
  fits _ _ _ _ hsite := by cases hsite

/-- One piece behind another. -/
theorem andThen (h : Keeps ctx place e s) (h' : Keeps ctx place e' s')
    (hE : ∀ st, (E st).2.scope = (e' (e st).2).2.scope) : Keeps ctx place E (s.andThen e s') where
  grows st hst := by
    have hgrows := h.grows st hst
    rw [hE]
    exact hgrows.trans (h'.grows _ (hgrows.isMethod.trans hst))
  fits st hst hopens site hsite := by
    have hgrows := h.grows st hst
    rcases List.mem_append.mp hsite with hsite | hsite
    · exact h.fits st hst hopens site hsite
    · exact h'.fits _ (hgrows.isMethod.trans hst) (hopens.grows hgrows) site hsite

/-- A piece behind the declaration of a local. -/
theorem declaring {name : String} {k : Slot → Emit} {t : Slot → Sites} (hname : Temporary name)
    (h : ∀ slot, Keeps ctx place (k slot) (t slot)) :
    Keeps ctx place (Emit.declaring ctx name k) (Sites.declaring ctx name t) where
  grows st hst := by
    have hgrows := Scope.Grows.declare st.scope hname
    exact hgrows.trans ((h (st.declareLocal ctx name).1).grows (st.declareLocal ctx name).2
      (hgrows.isMethod.trans hst))
  fits st hst hopens site hsite := by
    have hgrows := Scope.Grows.declare st.scope hname
    exact (h (st.declareLocal ctx name).1).fits (st.declareLocal ctx name).2
      (hgrows.isMethod.trans hst) (hopens.grows hgrows) site hsite

/-- Emission that depends on the innermost scope. -/
theorem reading {k : Scope → Emit} {t : Scope → Sites}
    (h : ∀ scope, scope.isMethod = false → Keeps ctx place (k scope) (t scope)) :
    Keeps ctx place (Emit.reading k) (Sites.reading t) :=
  ⟨fun st hst => (h st.scope hst).grows st hst, fun st hst => (h st.scope hst).fits st hst⟩

end Keeps

/-! ## The constructs of the compiler -/

section Constructs

variable {ctx : Context} {place : Place}

theorem keeps_load (hctx : ctx.AtPrompt) (x : String) :
    Keeps ctx place (emitLoad ctx x) (sitesLoad ctx place x) where
  grows st _ := by
    have hscope : (emitLoad ctx x st).2.scope = st.scope := by
      unfold emitLoad Emit.reading
      dsimp only
      cases loadTarget ctx st.scope x with
      | instVar =>
          dsimp only
          split <;> rfl
      | rejected | captured | slot | classVar | global | fresh => rfl
    rw [hscope]
    exact .refl _
  fits st hst hopens site hsite := by
    rw [List.mem_singleton.mp hsite]
    exact ⟨hctx, hst, hopens, fun h => by cases h⟩

theorem keeps_store (hctx : ctx.AtPrompt) (stmt : Bool) (x : String) {value : Emit} {s : Sites}
    (hvalue : Keeps ctx place value s) :
    Keeps ctx place (emitStore ctx stmt x value) (sitesStore ctx place x s) where
  grows st hst := by
    have hne := hctx.storeTarget_ne_fresh (x := x) hst
    unfold emitStore Emit.reading
    dsimp only
    cases htarget : storeTarget ctx st.scope x with
    | rejected err => exact .refl _
    | fresh => exact absurd htarget hne
    | captured | slot | instVar | classVar | global => exact hvalue.grows st hst
  fits st hst hopens site hsite := by
    have hne := hctx.storeTarget_ne_fresh (x := x) hst
    rw [sitesStore, if_neg hne] at hsite
    rcases List.mem_cons.mp hsite with rfl | hsite
    · exact ⟨hctx, hst, hopens, fun h => by cases h⟩
    · exact hvalue.fits st hst hopens site hsite

/-- An argument as an expression and, when it is a block literal, as an inlined one. -/
structure ArgKeeps (ctx : Context) (place : Place) (n : Node) (a : ArgSites) : Prop where
  expr : Keeps ctx place a.emits.expr a.expr
  body : ∀ args locals stmts, n = .block args locals stmts →
    Keeps { ctx with ivars := without ctx.ivars (args ++ locals) }
      (place.inside (args ++ locals) true) a.emits.body a.body

abbrev PartsKeep (ctx : Context) (place : Place) (parts : List (Ident × Node))
    (args : List ArgSites) : Prop :=
  List.Forall₂ (fun p a => ArgKeeps ctx place p.2 a) parts args

theorem keeps_exprs {parts : List (Ident × Node)} {args : List ArgSites}
    (h : PartsKeep ctx place parts args) :
    Keeps ctx place (emitExprs (args.map ArgSites.emits)) (sitesExprs args) := by
  induction h with
  | nil => exact .code fun _ => rfl
  | cons ha _ ih => exact ha.expr.andThen ih fun _ => rfl

/-- A block literal without names that is inlined. -/
theorem ArgKeeps.inlineable {n : Node} {a : ArgSites} (h : ArgKeeps ctx place n a)
    (hn : n.isInlineableBlock = true) : Keeps ctx place a.emits.body a.body := by
  obtain ⟨stmts, rfl⟩ : ∃ stmts, n = .block [] [] stmts := by
    unfold Node.isInlineableBlock at hn
    split at hn
    · exact ⟨_, rfl⟩
    · cases hn
  have hbody := h.body [] [] stmts rfl
  exact ⟨hbody.grows, hbody.fits⟩

/-- The variable of a loop and its body. -/
theorem ArgKeeps.loop {n : Node} {a : ArgSites} (h : ArgKeeps ctx place n a)
    (hn : n.isLoopBlock = true) (slot : Nat) :
    Keeps ctx place (emitBound n.loopVariable slot a.emits.body)
      (sitesBound n.loopVariable slot a.body) := by
  obtain ⟨i, stmts, rfl⟩ : ∃ i stmts, n = .block [i] [] stmts := by
    unfold Node.isLoopBlock at hn
    split at hn
    · exact ⟨_, _, rfl⟩
    · cases hn
  have hbody := h.body [i] [] stmts rfl
  exact ⟨fun st hst => (hbody.grows (st.setScope (st.scope.bindLoop i slot)) hst).unbindLoop,
    fun st hst hopens => hbody.fits (st.setScope (st.scope.bindLoop i slot)) hst
      (hopens.loop i slot)⟩

theorem keeps_toDo {n : Node} {start stop body : ArgSites}
    (hstart : Keeps ctx place start.emits.expr start.expr)
    (hstop : Keeps ctx place stop.emits.expr stop.expr)
    (hbody : ArgKeeps ctx place n body) (hn : n.isLoopBlock = true) :
    Keeps ctx place (emitToDo ctx n.loopVariable start.emits.expr stop.emits.expr body.emits.body)
      (sitesToDo ctx n.loopVariable start stop body.body) :=
  .reading fun _ _ => .declaring (temporary_hidden _ (by simp)) fun slotI =>
    .declaring (temporary_hidden _ (by simp)) fun _ => hstart.andThen (hstop.andThen (E := fun st =>
        emitBound n.loopVariable slotI.index body.emits.body (stop.emits.expr st).2)
      (hbody.loop hn slotI.index) fun _ => rfl) fun _ => rfl

theorem keeps_doYielding {receiver block : ArgSites}
    (hreceiver : Keeps ctx place receiver.emits.expr receiver.expr)
    (hblock : Keeps ctx place block.emits.expr block.expr) :
    Keeps ctx place (emitDoYielding ctx receiver.emits.expr block.emits.expr)
      (sitesDoYielding ctx receiver block) :=
  .reading fun _ _ => .declaring (temporary_hidden _ (by simp)) fun _ =>
    .declaring (temporary_hidden _ (by simp)) fun _ =>
    .declaring (temporary_hidden _ (by simp)) fun _ =>
    .declaring (temporary_hidden _ (by simp)) fun _ => hreceiver.andThen hblock fun _ => rfl

/-- Keyword messages, in the cases of `emitKeyword`. -/
theorem keeps_keyword {r : Node} {parts : List (Ident × Node)} {receiver : ArgSites}
    {args : List ArgSites} (hr : ArgKeeps ctx place r receiver)
    (hargs : PartsKeep ctx place parts args) :
    Keeps ctx place (emitKeyword ctx r parts receiver.emits (args.map ArgSites.emits))
      (sitesKeyword ctx r parts receiver args) := by
  have hsend : Keeps ctx place
      (receiver.emits.expr ++ emitExprs (args.map ArgSites.emits) ++
        Emit.code [sendOp r.isSuper .keyword (keywordSelector (parts.map Prod.fst))])
      (receiver.expr.andThen receiver.emits.expr (sitesExprs args)) :=
    hr.expr.andThen (keeps_exprs hargs) fun _ => rfl
  cases hargs with
  | nil => exact hsend
  | @cons p a ps as ha hrest =>
    obtain ⟨k, n⟩ := p
    cases hrest with
    | nil =>
      show Keeps ctx place (if _ then _ else if _ then if _ then _ else _ else _)
        (if _ then _ else if _ then if _ then _ else _ else _)
      by_cases hyield : (k.text = "doYielding" && !r.isSuper && n.isDoYieldingBlock) = true
      · rw [if_pos hyield, if_pos hyield]
        exact keeps_doYielding hr.expr ha.expr
      rw [if_neg hyield, if_neg hyield]
      by_cases hinl : inlinedSend ctx.ivars r [(k, n)] = true
      · rw [if_pos hinl, if_pos hinl]
        obtain ⟨hn, hselector⟩ := inlinedSend_one hinl
        by_cases hif : (k.text = "ifTrue" || k.text = "ifFalse") = true
        · rw [if_pos hif, if_pos hif]
          exact hr.expr.andThen (ha.inlineable hn) fun _ => rfl
        · rw [if_neg hif, if_neg hif]
          simp only [Bool.or_eq_true, decide_eq_true_eq, not_or] at hif
          have hcond := (hselector.resolve_left hif.1).resolve_left hif.2
          exact (hr.inlineable hcond).andThen (ha.inlineable hn) fun _ => rfl
      · rw [if_neg hinl, if_neg hinl]
        exact hsend
    | @cons p' b ps as hb hrest =>
      obtain ⟨k', n'⟩ := p'
      cases hrest with
      | nil =>
        show Keeps ctx place (if _ then if _ then _ else if _ then _ else _ else _)
          (if _ then if _ then _ else if _ then _ else _ else _)
        by_cases hinl : inlinedSend ctx.ivars r [(k, n), (k', n')] = true
        · rw [if_pos hinl, if_pos hinl]
          have hblocks := inlinedSend_two hinl
          by_cases hto : k.text = "to"
          · rw [if_pos hto, if_pos hto]
            rw [if_pos hto] at hblocks
            exact keeps_toDo hr.expr ha.expr hb hblocks
          · rw [if_neg hto, if_neg hto]
            rw [if_neg hto] at hblocks
            have hna := ha.inlineable hblocks.1
            have hnb := hb.inlineable hblocks.2
            by_cases hfalse : k.text = "ifFalse"
            · rw [if_pos hfalse, if_pos hfalse]
              have hbranches := hnb.andThen (E := fun st => a.emits.body (b.emits.body st).2)
                hna fun _ => rfl
              exact hr.expr.andThen hbranches fun _ => rfl
            · rw [if_neg hfalse, if_neg hfalse]
              have hbranches := hna.andThen (E := fun st => b.emits.body (a.emits.body st).2)
                hnb fun _ => rfl
              exact hr.expr.andThen hbranches fun _ => rfl
        · rw [if_neg hinl, if_neg hinl]
          exact hsend
      | cons _ _ => exact hsend

/-- A block literal that is emitted as a block. -/
theorem keeps_block (hctx : ctx.AtPrompt) (inlined : Bool) {args locals : List String}
    {stmts : List Node} {body : Context → Emit} {sites : Context → Place → Sites}
    (hbody : ∀ inner : Context, inner.AtPrompt →
      Keeps inner (place.inside (args ++ locals) inlined) (body inner)
        (sites inner (place.inside (args ++ locals) inlined))) :
    Keeps ctx place (emitBlock ctx args locals stmts body)
      (sitesBlock ctx place inlined args locals stmts sites) where
  grows st _ := .refl st.scope
  fits st hst hopens := by
    have hinner : (ctx.inBlock st.scope (args ++ locals)).AtPrompt :=
      ⟨hctx.repl, hctx.method, List.forall_mem_cons.mpr ⟨hst, hctx.enclosing⟩⟩
    refine (hbody _ hinner).fits _ (openScope_isMethod _ _ _ _) ?_
    refine hopens.block (openScope_isMethod _ _ _ _) (fun x => ?_) (fun x hx => ?_)
    · rw [lookup_openScope]
      simp
    · rw [openScope_captured] at hx
      exact (mem_blockCaptured.mp hx).1

/-- One turn of `emitStatements`: there are no write groups outside methods. -/
theorem keeps_turn (hctx : ctx.AtPrompt) {start : Scope} {n : Node} {rest : List Node}
    {stmt value : Sites} {stmtEmit valueEmit : Emit} {next : Nat × Nat → Emit}
    {nextSites : Nat × Nat → Scope → Sites}
    (hstmt : Keeps ctx place stmtEmit stmt)
    (hnext : ∀ start, Keeps ctx place (next (0, 0)) (nextSites (0, 0) start)) :
    Keeps ctx place (emitTurn ctx (0, 0) n rest stmtEmit valueEmit next)
      (sitesTurn ctx place (0, 0) start n rest stmt value stmtEmit valueEmit nextSites) := by
  refine Keeps.reading fun scope _ => ?_
  have hrun : groupRun ctx scope (n :: rest) = 0 := by
    unfold groupRun
    rw [hctx.instVarNames]
    simp
  rw [if_pos rfl, hrun]
  have hplain : Keeps ctx place (stmtEmit ++ popBetween rest.isEmpty ++ next (0, 0))
      (stmt.andThen stmtEmit (nextSites (0, 0) scope)) :=
    hstmt.andThen (hnext scope) fun _ => rfl
  cases n <;> exact hplain

end Constructs

/-! ## The syntax tree -/

mutual

/-- **Expressions and statements.** -/
theorem keeps_node (ctx : Context) (place : Place) (hctx : ctx.AtPrompt) (inlined stmt : Bool) :
    ∀ n, Keeps ctx place (emitNode ctx stmt n) (sitesNode ctx place inlined n)
  | .literal _ | .trueLit | .falseLit | .nilLit | .self | .super | .thisContext => by
    rw [emitNode, sitesNode]
    exact .code fun _ => rfl
  | .identifier x => by
    rw [emitNode, sitesNode]
    exact keeps_load hctx x
  | .assignment x v => by
    rw [emitNode, sitesNode]
    exact keeps_store hctx stmt x (keeps_node ctx place hctx false false v)
  | .unarySend r _ => by
    rw [emitNode, sitesNode]
    exact (keeps_node ctx place hctx false false r).of_state fun _ => rfl
  | .binarySend r _ a => by
    rw [emitNode, sitesNode]
    exact (keeps_node ctx place hctx false false r).andThen
      (keeps_node ctx place hctx false false a)
      fun _ => rfl
  | .keywordSend r parts => by
    rw [emitNode, sitesNode, ← sitesParts_emits ctx place (inlinedSend ctx.ivars r parts) parts]
    have hr : ArgKeeps ctx place r ⟨⟨emitNode ctx false r, emitInlinedBlockBody ctx r⟩,
        sitesNode ctx place (inlinedSend ctx.ivars r parts) r, sitesInlinedBlockBody ctx place r⟩ :=
      ⟨keeps_node ctx place hctx _ false r, keeps_inlinedBlockBody ctx place hctx r⟩
    have hkeyword := keeps_keyword hr
      (keeps_parts ctx place hctx (inlinedSend ctx.ivars r parts) parts)
    exact hkeyword
  | .callSend r name ps ns => by
    have hparts := keeps_exprs (keeps_parts ctx place hctx false ns)
    rw [sitesParts_emits] at hparts
    have hargs := (keeps_args ctx place hctx ps).andThen (E := emitArgs ctx ps ++
      emitExprs (emitParts ctx ns)) hparts fun _ => rfl
    have hall := (keeps_node ctx place hctx false false r).andThen (E := emitNode ctx false r ++
      (emitArgs ctx ps ++ emitExprs (emitParts ctx ns))) hargs fun _ => rfl
    rw [emitNode, sitesNode]
    split
    · exact ⟨fun st _ => .refl st.scope, hall.fits⟩
    · exact hall.of_state fun _ => rfl
  | .cascade r ms => by
    rw [emitNode, sitesNode]
    exact (keeps_node ctx place hctx false false r).andThen
      (.reading fun _ _ => .declaring (temporary_hidden _ (by simp)) fun tmp =>
        keeps_partials ctx place hctx r.isSuper tmp ms)
      fun _ => rfl
  | .arrayLit es => by
    rw [emitNode, sitesNode]
    exact (keeps_args ctx place hctx es).of_state fun _ => rfl
  | .block args locals body => by
    rw [emitNode, sitesNode]
    refine keeps_block hctx inlined fun inner hinner => ?_
    have hbody : ∀ scope, Keeps inner (place.inside (args ++ locals) inlined)
        (emitAll inner (0, 0) body)
        (sitesAll inner (place.inside (args ++ locals) inlined) (0, 0) scope body) :=
      fun scope => keeps_all inner _ hinner scope body
    exact .reading fun scope _ => hbody scope
  | .ret v => by
    have hv := keeps_node ctx place hctx false false v
    rw [emitNode, sitesNode]
    cases stmt with
    | true => exact hv.of_state fun _ => rfl
    | false => exact ⟨fun st _ => .refl st.scope, hv.fits⟩

theorem keeps_args (ctx : Context) (place : Place) (hctx : ctx.AtPrompt) :
    ∀ ns, Keeps ctx place (emitArgs ctx ns) (sitesArgs ctx place ns)
  | [] => by
    rw [emitArgs, sitesArgs]
    exact .code fun _ => rfl
  | n :: rest => by
    rw [emitArgs, sitesArgs]
    exact (keeps_node ctx place hctx false false n).andThen (keeps_args ctx place hctx rest)
      fun _ => rfl

theorem keeps_parts (ctx : Context) (place : Place) (hctx : ctx.AtPrompt) (inlined : Bool) :
    ∀ parts, PartsKeep ctx place parts (sitesParts ctx place inlined parts)
  | [] => by
    rw [sitesParts]
    exact .nil
  | (_, n) :: rest => by
    rw [sitesParts]
    exact .cons ⟨keeps_node ctx place hctx inlined false n,
      keeps_inlinedBlockBody ctx place hctx n⟩ (keeps_parts ctx place hctx inlined rest)

theorem keeps_cascaded (ctx : Context) (place : Place) (hctx : ctx.AtPrompt) (isSuper : Bool) :
    ∀ m, Keeps ctx place (emitPartial ctx isSuper m) (sitesPartial ctx place m)
  | .unary _ _ => by
    rw [emitPartial, sitesPartial]
    exact .code fun _ => rfl
  | .binary _ a => by
    rw [emitPartial, sitesPartial]
    exact (keeps_node ctx place hctx false false a).of_state fun _ => rfl
  | .keyword parts => by
    have hparts := keeps_exprs (keeps_parts ctx place hctx false parts)
    rw [sitesParts_emits] at hparts
    rw [emitPartial, sitesPartial]
    exact hparts.of_state fun _ => rfl
  | .call _ ps ns => by
    have hparts := keeps_exprs (keeps_parts ctx place hctx false ns)
    rw [sitesParts_emits] at hparts
    have hargs := (keeps_args ctx place hctx ps).andThen (E := emitArgs ctx ps ++
      emitExprs (emitParts ctx ns)) hparts fun _ => rfl
    rw [emitPartial, sitesPartial]
    exact ⟨fun st _ => .refl st.scope, hargs.fits⟩

theorem keeps_partials (ctx : Context) (place : Place) (hctx : ctx.AtPrompt) (isSuper : Bool)
    (tmp : Slot) :
    ∀ ms, Keeps ctx place (emitPartials ctx isSuper tmp ms)
      (sitesPartials ctx place isSuper tmp ms)
  | [] => by
    rw [emitPartials, sitesPartials]
    exact .code fun _ => rfl
  | m :: rest => by
    rw [emitPartials, sitesPartials]
    exact (keeps_cascaded ctx place hctx isSuper m).andThen
      (keeps_partials ctx place hctx isSuper tmp rest) fun _ => rfl

theorem keeps_inlinedBlockBody (ctx : Context) (place : Place) (hctx : ctx.AtPrompt) :
    ∀ n args locals stmts, n = .block args locals stmts →
      Keeps { ctx with ivars := without ctx.ivars (args ++ locals) }
        (place.inside (args ++ locals) true) (emitInlinedBlockBody ctx n)
        (sitesInlinedBlockBody ctx place n)
  | .block args locals stmts, _, _, _, rfl => by
    have hinner : ({ ctx with ivars := without ctx.ivars (args ++ locals) } : Context).AtPrompt :=
      ⟨hctx.repl, hctx.method, hctx.enclosing⟩
    have hreading := Keeps.reading fun scope _ => keeps_all
      { ctx with ivars := without ctx.ivars (args ++ locals) }
      (place.inside (args ++ locals) true) hinner scope stmts
    rw [Emit.reading_const] at hreading
    rw [emitInlinedBlockBody, sitesInlinedBlockBody]
    cases stmts with
    | nil =>
      refine hreading.of_state fun st => ?_
      rw [emitAll]
      rfl
    | cons n rest =>
      simp only [List.isEmpty_cons, Bool.false_eq_true, if_false]
      exact hreading

/-- **Statement lists.** -/
theorem keeps_all (ctx : Context) (place : Place) (hctx : ctx.AtPrompt) (start : Scope) :
    ∀ stmts, Keeps ctx place (emitAll ctx (0, 0) stmts) (sitesAll ctx place (0, 0) start stmts)
  | [] => by
    rw [emitAll, sitesAll]
    exact .code fun _ => rfl
  | n :: rest => by
    rw [emitAll, sitesAll]
    exact keeps_turn hctx (keeps_node ctx place hctx false true n)
      fun start => keeps_all ctx place hctx start rest

end

/-! ## An input -/

theorem keeps_top (ctx : Context) (hctx : ctx.AtPrompt) (classes : String → Option ClassScope)
    (t : Top) : Keeps ctx (modulePlace ctx.repl) (emitTop ctx classes t) (sitesTop ctx t) := by
  cases t with
  | statement n =>
      rw [emitTop, sitesTop]
      exact keeps_node ctx _ hctx false true n
  | methodDecl d =>
      rw [emitTop, sitesTop]
      exact .code fun _ => rfl
  | callMethodDecl d =>
      rw [emitTop, sitesTop]
      exact .code fun _ => rfl
  | classDecl d =>
      rw [emitTop, emitClassDecl, sitesTop]
      cases d.mixins with
      | none => exact .code fun _ => rfl
      | some mixins => exact (keeps_node ctx _ hctx false false mixins).of_state fun _ => rfl

theorem keeps_tops (ctx : Context) (hctx : ctx.AtPrompt) (classes : String → Option ClassScope)
    (tops : List Top) :
    Keeps ctx (modulePlace ctx.repl) (emitTops ctx classes tops) (sitesTops ctx classes tops) := by
  induction tops with
  | nil => exact .code fun _ => rfl
  | cons t rest ih => exact (keeps_top ctx hctx classes t).andThen ih fun _ => rfl

/-- Nothing is declared by code that the analysis takes for the code of a block. -/
theorem walkAll_declared (ivars : List String) (ns : List Node) :
    (walkAll ivars true ns).declared = [] := by
  -- the walk is that of the same code in a block of a method
  have hfollows := follows_all [] ⟨true, false, some ⟨"", [], [], false⟩, ivars, []⟩
    ⟨[], true, 0⟩ (Option.some_ne_none _) (0, 0) ⟨[], 0, [], [], [], false⟩ ns (.inl rfl)
  rw [List.eq_nil_iff_forall_not_mem]
  intro x hx
  obtain ⟨site, hsite, -, -, hblock⟩ :=
    (hfollows.declares ⟨⟨[], 0, [], [], [], false⟩, [], [], []⟩ x).mp hx
  rw [(hfollows.within _ site hsite).inBlock rfl] at hblock
  cases hblock

/-- **Identifiers of an input.** -/
theorem moduleSites_atPrompt {groups : Bool} {classes : String → Option ClassScope}
    {tops : List Top} {s : Site} (hs : s ∈ moduleSites true groups classes tops) : s.AtPrompt := by
  have hcaptured : scopeCaptured [] [] true (tops.flatMap Top.walked) = [] := by
    simp [scopeCaptured, walkAll_declared]
  have hctx : (⟨true, groups, none, [], []⟩ : Context).AtPrompt :=
    ⟨rfl, rfl, fun s hs => by cases hs⟩
  rw [moduleSites, hcaptured] at hs
  refine (keeps_tops _ hctx classes tops).fits _ rfl ?_ s hs
  refine ⟨fun x hx => (by cases hx), fun x hx => ?_, fun x _ _ => ?_⟩
  · cases hx
  · exact ⟨fun h => (by cases h), fun h => (by cases h)⟩

/-! ## Accesses of globals -/

/-- The code of an access that has its value on the stack: of a read all of it, of an assignment
what stands behind the code of the value. -/
def Site.code (s : Site) : Code :=
  let st : Emitter := ⟨s.scope, [], [], []⟩
  match s.use with
  | .read => (emitLoad s.ctx s.name st).1
  | .write | .groupWrite => (emitStore s.ctx true s.name (Emit.code []) st).1

/-- What an access of a global is compiled to. -/
def globalCode (x : String) : Use → Code
  | .read => [.op (.pushGlobal x)]
  | .write | .groupWrite => [.op .dup, .op (.storeGlobal x)]

namespace Site

variable {s : Site}

theorem AtPrompt.load_global (h : s.AtPrompt) (hbound : s.name ∉ s.place.bound)
    (hresolve : resolveLocal s.ctx s.scope s.name = none) :
    loadTarget s.ctx s.scope s.name = .global := by
  have hcaptured : isCaptured s.ctx s.scope s.name = false := by
    rw [Bool.eq_false_iff]
    intro htrue
    have hmem := (h.opens.captured_iff _ hbound hresolve).mp htrue
    cases hmem
  unfold loadTarget
  rw [hcaptured, hresolve, h.ctx.instVarNames, h.ctx.classVarNames, h.ctx.method]
  rfl

theorem AtPrompt.store_global (h : s.AtPrompt) (hbound : s.name ∉ s.place.bound)
    (hresolve : resolveLocal s.ctx s.scope s.name = none) :
    storeTarget s.ctx s.scope s.name = .global := by
  have hcaptured : isCaptured s.ctx s.scope s.name = false := by
    rw [Bool.eq_false_iff]
    intro htrue
    have hmem := (h.opens.captured_iff _ hbound hresolve).mp htrue
    cases hmem
  have hargument : argumentIn (scopes s.ctx s.scope) s.name = false := by
    rw [Bool.eq_false_iff]
    intro hargument
    have hsome := argumentIn_isSome hargument
    rw [← resolveLocal, hresolve] at hsome
    cases hsome
  unfold storeTarget
  rw [hargument, hcaptured, hresolve, h.ctx.instVarNames, h.ctx.classVarNames,
    h.ctx.stores_global h.scope hresolve]
  rfl

/-- A name with a slot is not written to a global. -/
theorem AtPrompt.store_slot (h : s.AtPrompt) {slot : Slot}
    (hresolve : resolveLocal s.ctx s.scope s.name = some slot) :
    storeTarget s.ctx s.scope s.name = .rejected (.argumentAssignment s.name) ∨
      storeTarget s.ctx s.scope s.name = .captured ∨
      storeTarget s.ctx s.scope s.name = .slot slot := by
  have hdeclared : undeclaredInMethod s.ctx s.scope s.name = none := by
    rw [undeclaredInMethod, h.ctx.method]
  unfold storeTarget
  rw [hresolve, hdeclared]
  split
  · exact .inl rfl
  · split
    · exact .inr (.inl rfl)
    · exact .inr (.inr rfl)

/-- An identifier that the blocks around it do not declare is compiled to an access of a global if
and only if no temporary of the compiler has its name. -/
theorem AtPrompt.code_eq_iff (h : s.AtPrompt) (hbound : s.name ∉ s.place.bound) :
    s.code = globalCode s.name s.use ↔ ¬ s.Hidden := by
  obtain ⟨name, use, ctx, scope, place⟩ := s
  have hhidden : ¬ Hidden ⟨name, use, ctx, scope, place⟩ ↔ resolveLocal ctx scope name = none := by
    rw [← Option.not_isSome_iff_eq_none]
    exact not_congr ⟨And.right, fun hsome =>
      ⟨(h.opens.named name hsome).resolve_left hbound, hsome⟩⟩
  rw [hhidden]
  cases use with
  | groupWrite => exact absurd rfl h.use
  | read =>
      constructor
      · intro hcode
        by_contra hne
        obtain ⟨slot, hslot⟩ := Option.ne_none_iff_exists'.mp hne
        simp only [code, emitLoad, Emit.reading, loadTarget, hslot, globalCode] at hcode
        by_cases hcaptured : isCaptured ctx scope name = true
        · simp [hcaptured, Emit.code] at hcode
        · simp [hcaptured, Emit.code] at hcode
      · intro hresolve
        have htarget := h.load_global hbound hresolve
        simp only [code, emitLoad, Emit.reading, htarget, globalCode, Emit.code]
  | write =>
      constructor
      · intro hcode
        by_contra hne
        obtain ⟨slot, hslot⟩ := Option.ne_none_iff_exists'.mp hne
        simp only [code, emitStore, Emit.reading, globalCode] at hcode
        rcases h.store_slot hslot with htarget | htarget | htarget
        all_goals
          rw [htarget] at hcode
          cases hcode
      · intro hresolve
        have htarget := h.store_global hbound hresolve
        simp only [code, emitStore, Emit.reading, htarget, globalCode]
        rfl

/-- The code of an assignment to a name with a slot. -/
theorem AtPrompt.code_of_slot (h : s.AtPrompt) (huse : s.use = .write) {slot : Slot}
    (hresolve : resolveLocal s.ctx s.scope s.name = some slot) :
    s.code = [] ∨ s.code = [.op .dup, .op (.storeCaptured s.name)] ∨
      s.code = [.op .dup, .op (.storeLocal slot)] := by
  simp only [code, huse, emitStore, Emit.reading]
  rcases h.store_slot hresolve with htarget | htarget | htarget
  · rw [htarget]
    exact .inl rfl
  · rw [htarget]
    exact .inr (.inl rfl)
  · rw [htarget]
    exact .inr (.inr rfl)

/-- A read is one instruction that pushes a value. -/
theorem code_of_read (huse : s.use = .read) :
    ∃ i, s.code = [.op i] ∧ (i = .pushNil ∨ (∃ slot, i = .pushLocal slot) ∨
      i = .pushCaptured s.name ∨ i = .pushInstVar s.name ∨ i = .pushOwnInstVar s.name ∨
      i = .pushGlobal s.name) := by
  simp only [code, huse, emitLoad, Emit.reading]
  cases Frontend.loadTarget s.ctx s.scope s.name with
  | instVar =>
      dsimp only
      split
      · exact ⟨_, rfl, by simp⟩
      · exact ⟨_, rfl, by simp⟩
  | rejected | captured | slot | classVar | global | fresh => exact ⟨_, rfl, by simp⟩

end Site

end ProtoST.Frontend

import Mathlib
import ProtoST.Lib.Lockstep
import ProtoST.Runtime.FrameMachine

/-!
# Suspended frames

`snapshotFrames` writes down what the frames of an engine hold.  The turn that goes on
hands the records to `restoreFrames`, which makes frames of them at the slot cursor of
its own thread, and `resumeWith` answers the `wait` on the innermost one.

## Main results

* `Same.lockstep` — engines that show the same go on alike.
* `restoreFrames_spec` — the restored frames show the same, if they fit.
* `suspension_transparent` — a computation does not notice that it was suspended.
-/

namespace ProtoST.Runtime.FrameMachine

open ProtoST.Lib
open ProtoST.Runtime.Bytecode ProtoST.Runtime.Handlers ProtoST.Runtime.FrameSlots
open ProtoST.Runtime.EngineStack (Frame kHeaderSlots Packed popDownTo)
open Relation (ReflTransGen)

variable {V W α : Type}

/-! ## Records of frames -/

/-- What `snapshotFrames` keeps of a frame. -/
structure FrameRecord (V : Type) where
  module : Module
  pc : Nat
  opStack : List V
  locals : List V
  selfObj : V
  capturedDict : V
  frameId : Nat
  homeFrameId : Nat

/-- The record of one frame. -/
def frameRecord (slots : Nat → V) (f : SlotFrame Module) : FrameRecord V where
  module := f.module
  pc := f.pc
  opStack := f.operands slots
  locals := f.locals slots
  selfObj := slots (f.place.baseSlot + 1)
  capturedDict := slots f.place.baseSlot
  frameId := f.place.frameId
  homeFrameId := f.place.homeFrameId

/-- `snapshotFrames`: the outermost frame comes first. -/
def Engine.snapshotFrames (e : Engine V W) : List (FrameRecord V) :=
  e.frames.reverse.map (frameRecord e.slots)

/-- The frame `restoreFrames` makes of a record. -/
def FrameRecord.frame (r : FrameRecord V) (cursor : Nat) : SlotFrame Module where
  module := r.module
  pc := r.pc
  place :=
    { baseSlot := cursor
      localCount := max (computeLocalCount r.module 0) r.locals.length
      maxStack := max r.module.operandStackCapacity r.opStack.length
      sp := r.opStack.length
      frameId := r.frameId
      homeFrameId := if r.homeFrameId = 0 then r.frameId else r.homeFrameId }
  group := none

/-- The body of the loop of `restoreFrames`. -/
def restoreFrame (none : V) (e : Engine V W) (r : FrameRecord V) : Except String (Engine V W) :=
  let f := r.frame e.cursor
  if kFrameRegionLimit < f.place.regionEnd then .error "engine slot region exhausted"
  else
    .ok { e with
      frames := f :: e.frames
      slots := e.fill none f r.capturedDict r.selfObj r.locals r.opStack
      cursor := f.place.regionEnd }

/-- `restoreFrames`. -/
def Engine.restoreFrames (e : Engine V W) (none : V) (snapshot : List (FrameRecord V)) :
    Except String (Engine V W) :=
  snapshot.foldlM (restoreFrame none) { e with frames := [] }

/-! ## Engines that show the same -/

/-- What the frames of an engine hold, innermost first. -/
def Engine.shown (e : Engine V W) : List (Activation V Module) :=
  e.frames.map fun f => f.view e.slots

/-- The engines hold the same, wherever their regions are. -/
structure Same (e r : Engine V W) : Prop where
  shown : e.shown = r.shown
  world : e.world = r.world

theorem Same.symm {e r : Engine V W} (h : Same e r) : Same r e := ⟨h.shown.symm, h.world.symm⟩

section Views

variable {base : Nat}

/-- What is written above the frames does not show. -/
theorem views_below {frames : List (SlotFrame Module)} {cursor : Nat}
    (hpacked : Packed base (frames.map SlotFrame.place) cursor)
    (hsized : ∀ f ∈ frames, Sized f) {slots slots' : Nat → V}
    (hslots : ∀ i, i < cursor → slots' i = slots i) :
    frames.map (fun f => f.view slots') = frames.map fun f => f.view slots := by
  apply List.map_congr_left
  intro f hf
  have hle := Packed.below hpacked f hf
  exact view_of_below (fun i hi => hslots i (by omega)) (hsized f hf).room

/-- A fresh region shows what it was filled with. -/
theorem view_fill (e : Engine V W) (none : V) (f : SlotFrame Module) (captured self : V)
    (locals operands : List V) (hlocals : locals.length ≤ f.place.localCount)
    (hsp : f.place.sp = operands.length) (hroom : f.place.sp ≤ f.place.maxStack) :
    f.view (e.fill none f captured self locals operands) =
      { module := f.module
        pc := f.pc
        locals := locals ++ List.replicate (f.place.localCount - locals.length) none
        operands := operands
        maxStack := f.place.maxStack
        self := self
        captured := captured
        frameId := f.place.frameId
        homeFrameId := f.place.homeFrameId
        group := f.group } := by
  have hbase := localsBase_eq f
  have hops := opStackBase_eq f
  have hend : f.place.regionEnd = f.place.opStackBase + f.place.maxStack := by
    simp only [Frame.regionEnd, Frame.regionSize, Frame.opStackBase]
    omega
  have hlocal : f.locals (e.fill none f captured self locals operands)
      = locals ++ List.replicate (f.place.localCount - locals.length) none := by
    apply List.ext_getElem?
    intro i
    rw [getElem?_locals, List.getElem?_append, List.getElem?_replicate]
    split
    · rename_i hi
      rw [Engine.fill, if_neg (by omega), if_neg (by omega), if_neg (by omega),
        if_pos (by omega), Nat.add_sub_cancel_left]
      split
      · rename_i hlt
        rw [List.getElem?_eq_getElem hlt]
        rfl
      · rw [List.getElem?_eq_none (by omega), if_pos (by omega)]
        rfl
    · rw [if_neg (by omega), if_neg (by omega)]
  have hoperand : f.operands (e.fill none f captured self locals operands) = operands := by
    apply List.ext_getElem?
    intro i
    rw [getElem?_operands]
    split
    · rename_i hi
      rw [Engine.fill, if_neg (by omega), if_neg (by omega), if_neg (by omega),
        if_neg (by omega), Nat.add_sub_cancel_left, List.getElem?_eq_getElem (by omega)]
      rfl
    · rw [List.getElem?_eq_none (by omega)]
  have hself : e.fill none f captured self locals operands (f.place.baseSlot + 1) = self := by
    rw [Engine.fill, if_neg (by omega), if_neg (by omega), if_pos rfl]
  have hcaptured : e.fill none f captured self locals operands f.place.baseSlot = captured := by
    rw [Engine.fill, if_neg (by omega), if_pos rfl]
  simp only [SlotFrame.view, hlocal, hoperand, hself, hcaptured]

/-- A fresh region leaves the slots below it alone. -/
theorem fill_below (e : Engine V W) (none : V) (f : SlotFrame Module) (captured self : V)
    (locals operands : List V) {i : Nat} (hi : i < f.place.baseSlot) :
    e.fill none f captured self locals operands i = e.slots i := by
  rw [Engine.fill, if_pos (.inl hi)]

end Views

/-! ## One engine goes on as the other -/

section Steps

variable {base base' : Nat} {e r : Engine V W} {below : List (SlotFrame Module)}

variable {f : SlotFrame Module}

/-- The innermost frames show the same, and so do the ones below. -/
theorem Same.cons (h : Same e r)
    (hframes : e.frames = f :: below) : ∃ g below', r.frames = g :: below' ∧
      f.view e.slots = g.view r.slots ∧
      below.map (fun f => f.view e.slots) = below'.map fun f => f.view r.slots := by
  have hshown := h.shown
  rw [Engine.shown, Engine.shown, hframes, List.map_cons] at hshown
  obtain ⟨g, below', hr, hg, hbelow⟩ := List.map_eq_cons_iff.mp hshown.symm
  exact ⟨g, below', hr, hg.symm, hbelow.symm⟩

/-- What the frames show after a script on the innermost one. -/
theorem Sound.shown_runTop (h : Sound base e) {s : Script V α} {a : α}
    {f f' : SlotFrame Module} {slots' : Nat → V}
    (hframes : e.frames = f :: below) (hrun : runSlots s f e.slots = .ok (a, f', slots')) :
    Engine.shown { e with frames := f' :: below, slots := slots' }
      = f'.view slots' :: below.map fun f => f.view e.slots := by
  obtain ⟨-, hbelow, hsized, hrest⟩ := h.cons hframes
  obtain ⟨-, -, hout⟩ := runSlots_frame s f e.slots a f' slots' hsized.room hrun
  show f'.view slots' :: below.map (fun f => f.view slots') = _
  rw [views_below hbelow hrest fun i hi => hout i (.inl hi)]

variable {e' : Engine V W}

/-- A script does the same on both. -/
theorem Same.runTop (h : Same e r) (he : Sound base e) (hr : Sound base' r)
    {s : Script V α} {a : α} (hrun : e.runTop s = .ok (a, e')) :
    ∃ r', r.runTop s = .ok (a, r') ∧ Same e' r' := by
  obtain ⟨f, below, f', slots', hframes, hslots, rfl⟩ := Engine.runTop_eq hrun
  obtain ⟨g, below', hframes', hview, hbelow⟩ := h.cons hframes
  have hlists := run_of_runSlots hslots
  rw [hview] at hlists
  obtain ⟨g', slots'', hslots', hview'⟩ := runSlots_of_run hlists
  refine ⟨{ r with frames := g' :: below', slots := slots'' }, ?_, ?_, h.world⟩
  · rw [Engine.runTop, hframes']
    simp only [hslots', Except.map]
  · rw [he.shown_runTop hframes hslots, hr.shown_runTop hframes' hslots', hview', hbelow]

theorem Same.setPc (h : Same e r) (pc : Nat) : Same (e.setPc pc) (r.setPc pc) := by
  unfold Engine.setPc
  cases hframes : e.frames with
  | nil =>
    have hempty : r.frames = [] := by
      have hshown := h.shown
      rw [Engine.shown, Engine.shown, hframes] at hshown
      exact List.map_eq_nil_iff.mp hshown.symm
    rw [hempty]
    exact h
  | cons f below =>
    obtain ⟨g, below', hframes', hview, hbelow⟩ := h.cons hframes
    rw [hframes']
    refine ⟨?_, h.world⟩
    show { f.view e.slots with pc := pc } :: _ = { g.view r.slots with pc := pc } :: _
    rw [hview, hbelow]

theorem Same.push (h : Same e r) (he : Sound base e) (hr : Sound base' r) {v : V}
    (hpush : e.push v = .ok e') :
    ∃ r', r.push v = .ok r' ∧ Same e' r' := by
  unfold Engine.push at hpush ⊢
  cases hrun : e.runTop (.push v (.done ())) with
  | error text =>
    rw [hrun] at hpush
    cases hpush
  | ok x =>
    rw [hrun] at hpush
    cases hpush
    obtain ⟨r', hrun', hsame⟩ := h.runTop he hr hrun
    exact ⟨r', by rw [hrun']; rfl, hsame⟩

/-- What is done behind the frames, and above them in the slot array. -/
theorem Same.behind (h : Same e r) (he : Sound base e) (hr : Sound base' r) (w : W)
    {slots slots' : Nat → V} (hslots : ∀ i, i < e.cursor → slots i = e.slots i)
    (hslots' : ∀ i, i < r.cursor → slots' i = r.slots i) :
    Same { e with world := w, slots := slots } { r with world := w, slots := slots' } := by
  refine ⟨?_, rfl⟩
  show e.frames.map (fun f => f.view slots) = r.frames.map fun f => f.view slots'
  rw [views_below he.packed he.sized hslots, views_below hr.packed hr.sized hslots']
  exact h.shown

/-- What the frames show with a fresh region above them. -/
theorem Sound.shown_fill (h : Sound base e) (none : V)
    (hbase : f.place.baseSlot = e.cursor) (captured self : V) (locals operands : List V)
    (cursor : Nat) :
    Engine.shown
        { e with
          frames := f :: e.frames
          slots := e.fill none f captured self locals operands
          cursor := cursor }
      = f.view (e.fill none f captured self locals operands) :: e.shown := by
  have hbelow : e.frames.map (fun g => g.view (e.fill none f captured self locals operands))
      = e.shown :=
    views_below h.packed h.sized fun i hi =>
      fill_below e none f captured self locals operands (by omega)
  exact congrArg (f.view _ :: ·) hbelow

/-- What the frames show after a call. -/
theorem Sound.shown_pushFrame (h : Sound base e) (none : V) (c : Callee V) (frameId : Nat) :
    (e.pushFrame none c frameId).shown =
      { module := c.module
        pc := 0
        locals := c.args ++ List.replicate
          (computeLocalCount c.module c.args.length - c.args.length) none
        operands := []
        maxStack := c.module.operandStackCapacity
        self := c.self
        captured := c.captured
        frameId := frameId
        homeFrameId := if c.home = 0 then frameId else c.home
        group := Option.none } :: e.shown := by
  have hlocals : c.args.length ≤ (c.frame e.cursor frameId).place.localCount := by
    show c.args.length ≤ max (max (localsUsed c.module.code) c.args.length) kMinLocals
    omega
  have hfresh := view_fill e none (c.frame e.cursor frameId) c.captured c.self c.args []
    hlocals rfl (Nat.zero_le _)
  exact (h.shown_fill none rfl c.captured c.self c.args [] _).trans (congrArg (· :: e.shown) hfresh)

theorem Same.pushFrame (h : Same e r) (he : Sound base e) (hr : Sound base' r) (none : V)
    (c : Callee V) (frameId : Nat) :
    Same (e.pushFrame none c frameId) (r.pushFrame none c frameId) := by
  refine ⟨?_, h.world⟩
  rw [he.shown_pushFrame, hr.shown_pushFrame, h.shown]

/-- The frames with the home, and below it, are those that show it. -/
theorem popDownTo_shown {home : Nat} (hshown : e.shown = r.shown)
    (hpop : popDownTo (fun f => f.place.frameId) home e.frames = some (f, below)) :
    ∃ g below', popDownTo (fun f => f.place.frameId) home r.frames = some (g, below') ∧
      below.map (fun f => f.view e.slots) = below'.map fun f => f.view r.slots := by
  have hviews := @EngineStack.popDownTo_map (Activation V Module) _ Activation.frameId home
    (fun f => f.view e.slots) e.frames
  rw [show e.frames.map (fun f => f.view e.slots) = r.frames.map fun f => f.view r.slots
    from hshown, EngineStack.popDownTo_map] at hviews
  have hhere : popDownTo (fun f => (f.view e.slots).frameId) home e.frames = some (f, below) :=
    hpop
  rw [hhere] at hviews
  obtain ⟨⟨g, below'⟩, hpop', heq⟩ := Option.map_eq_some_iff.mp hviews
  exact ⟨g, below', hpop', (Prod.mk.inj heq).2.symm⟩

theorem Same.unwind (h : Same e r) {home : Option Nat}
    (hunwind : e.unwind home = some e') : ∃ r', r.unwind home = some r' ∧ Same e' r' := by
  unfold Engine.unwind at hunwind ⊢
  cases home with
  | none =>
    cases hframes : e.frames with
    | nil =>
      rw [hframes] at hunwind
      cases hunwind
    | cons f below =>
      rw [hframes] at hunwind
      cases hunwind
      obtain ⟨g, below', hframes', -, hbelow⟩ := h.cons hframes
      rw [hframes']
      exact ⟨_, rfl, hbelow, h.world⟩
  | some home =>
    obtain ⟨⟨f, below⟩, hpop, rfl⟩ := Option.map_eq_some_iff.mp hunwind
    obtain ⟨g, below', hpop', hbelow⟩ := popDownTo_shown h.shown hpop
    exact ⟨_, Option.map_eq_some_iff.mpr ⟨_, hpop', rfl⟩, hbelow, h.world⟩

variable [DecidableEq V] {host : Host V W Module} {d : Dispatcher V W}

theorem Same.execute (h : Same e r) (he : Sound base e) (hr : Sound base' r)
    {next : Next V W} (hexecute : e.execute host = .ok (next, e')) :
    ∃ r', r.execute host = .ok (next, r') ∧ Same e' r' ∧ e.module? = r.module? := by
  obtain ⟨f, below, pc, e'', hframes, hrun, rfl⟩ := Engine.execute_eq hexecute
  obtain ⟨g, below', hframes', hview, -⟩ := h.cons hframes
  have hmodule : f.module = g.module := congrArg Activation.module hview
  have hpc : f.pc = g.pc := congrArg Activation.pc hview
  rw [hmodule, hpc, h.world] at hrun
  obtain ⟨r'', hrun', hsame⟩ := h.runTop he hr hrun
  refine ⟨r''.setPc pc, ?_, hsame.setPc pc, ?_⟩
  · rw [Engine.execute, hframes']
    simp only [hrun', Except.map]
  · rw [Engine.module?, Engine.module?, hframes, hframes']
    exact congrArg some hmodule

/-- The engines part: the rest of the system responds to the one as it does not to the
other, elsewhere on the native stack and in the slots, or a call fits above the one cursor
only. -/
inductive Parts (host : Host V W Module) (d : Dispatcher V W) (e r : Engine V W) : Prop
  | responds {e' r' : Engine V W} {rq : Request V} {x : Dispatch V W} :
      Asks host d e rq e' → Asks host d r rq r' →
      (d.respond e'.position e'.world rq x ↔ ¬ d.respond r'.position r'.world rq x) →
      Parts host d e r
  | fits {e' r' : Engine V W} {rq : Request V} {c : Callee V} {frameId : Nat} {w : W} :
      Asks host d e rq e' → Asks host d r rq r' →
      d.respond e'.position e'.world rq (.activate c frameId w) →
      d.respond r'.position r'.world rq (.activate c frameId w) →
      (c.regionEnd e'.cursor ≤ kFrameRegionLimit - kOverflowReserve ↔
        kFrameRegionLimit - kOverflowReserve < c.regionEnd r'.cursor) →
      Parts host d e r

theorem Parts.symm (h : Parts host d e r) : Parts host d r e := by
  cases h with
  | responds hasks hasks' hx => exact .responds hasks' hasks (iff_not_comm.mp hx)
  | fits hasks hasks' hrespond hrespond' hfits =>
    exact .fits hasks' hasks hrespond' hrespond (by omega)

/-- What the one engine asks for, the other asks for. -/
theorem Same.asks (h : Same e r) (he : Sound base e) (hr : Sound base' r) {rq : Request V}
    (hasks : Asks host d e rq e') :
    (∃ r', Asks host d r rq r' ∧ Same e' r') ∨ Parts host d e r := by
  induction hasks with
  | send hexecute hmodule =>
    obtain ⟨r', hexecute', hsame', hmodules⟩ := h.execute he hr hexecute
    exact .inl ⟨_, .send hexecute' (hmodules ▸ hmodule), hsame'.shown, rfl⟩
  | @tooDeep e' m kind selector receiver args w c frameId hsend hrespond hdeep ih =>
    rcases ih with ⟨r', hsend', hsame'⟩ | hparts
    · by_cases hrespond' : d.respond r'.position r'.world (.send m kind selector receiver args)
        (.activate c frameId w)
      · by_cases hdeep' : kFrameRegionLimit - kOverflowReserve < c.regionEnd r'.cursor
        · have hlength : e'.frames.length = r'.frames.length := by
            simpa [Engine.shown] using congrArg List.length hsame'.shown
          have hasks' := Asks.tooDeep hsend' hrespond' hdeep'
          rw [← hlength] at hasks'
          exact .inl ⟨_, hasks', hsame'.shown, rfl⟩
        · exact .inr (.fits hsend hsend' hrespond hrespond' (by omega))
      · exact .inr (.responds hsend hsend' (iff_of_true hrespond hrespond'))
    · exact .inr hparts
  | doesNotUnderstand hexecute =>
    obtain ⟨r', hexecute', hsame', -⟩ := h.execute he hr hexecute
    exact .inl ⟨_, .doesNotUnderstand hexecute', hsame'.shown, rfl⟩
  | @cannotReturn e' home v w hexecute hnone =>
    obtain ⟨r', hexecute', hsame', -⟩ := h.execute he hr hexecute
    have hnone' : r'.unwind (some home) = none := by
      by_contra hsome
      obtain ⟨r'', hunwind⟩ := Option.ne_none_iff_exists'.mp hsome
      obtain ⟨e'', hunwind', -⟩ := hsame'.symm.unwind hunwind
      exact Option.some_ne_none e'' (hunwind'.symm.trans hnone)
    exact .inl ⟨_, .cannotReturn hexecute' hnone', hsame'.shown, rfl⟩

omit [DecidableEq V] in
/-- What comes of a request on the one engine comes of it on the other, unless the rest of
the system responds otherwise there. -/
theorem Same.settles (h : Same e r) (he : Sound base e) (hr : Sound base' r) {rq : Request V}
    (hsettles : Settles d e rq e') :
    (∃ r', Settles d r rq r' ∧ Same e' r') ∨
      ∃ x, d.respond e.position e.world rq x ↔ ¬ d.respond r.position r.world rq x := by
  cases hsettles with
  | @answer _ v w slots hrespond hslots hpush =>
    by_cases hrespond' : d.respond r.position r.world rq (.answer v w)
    · have hbehind := h.behind he hr w hslots fun _ _ => rfl
      obtain ⟨r', hpush', hsame⟩ := hbehind.push (he.world _ _) (hr.world _ _) hpush
      exact .inl ⟨r', .answer hrespond' (fun _ _ => rfl) hpush', hsame⟩
    · exact .inr ⟨_, iff_of_true hrespond hrespond'⟩
  | @unwind _ _ home v w slots hrespond hslots hunwind hpush =>
    by_cases hrespond' : d.respond r.position r.world rq (.unwind home v w)
    · have hbehind := h.behind he hr w hslots fun _ _ => rfl
      obtain ⟨r', hunwind', hsame⟩ := hbehind.unwind hunwind
      obtain ⟨r'', hpush', hlast⟩ := hsame.push ((he.world _ _).unwind hunwind)
        ((hr.world _ _).unwind hunwind') hpush
      exact .inl ⟨r'', .unwind hrespond' (fun _ _ => rfl) hunwind' hpush', hlast⟩
    · exact .inr ⟨_, iff_of_true hrespond hrespond'⟩

/-- Both engines are in order, and they show the same. -/
structure Alike (base base' : Nat) (e r : Engine V W) : Prop where
  same : Same e r
  sound : Sound base e
  sound' : Sound base' r

omit [DecidableEq V] in
theorem Alike.symm (h : Alike base base' e r) : Alike base' base r e :=
  ⟨h.same.symm, h.sound', h.sound⟩

/-- A step of one engine is a step of the other. -/
theorem Alike.step (hd : d.Numbered) (h : Alike base base' e r)
    (hstep : Step host d e e') :
    (∃ r', Step host d r r' ∧ Alike base base' e' r') ∨ Parts host d e r := by
  obtain ⟨hsame, he, hr⟩ := h
  suffices hgoal : (∃ r', Step host d r r' ∧ Same e' r') ∨ Parts host d e r by
    rcases hgoal with ⟨r', hstep', hsame'⟩ | hparts
    · exact .inl ⟨r', hstep', hsame', hstep.sound hd he, hstep'.sound hd hr⟩
    · exact .inr hparts
  cases hstep with
  | goOn hexecute =>
    obtain ⟨r', hexecute', hsame', -⟩ := hsame.execute he hr hexecute
    exact .inl ⟨_, .goOn hexecute', hsame'.shown, rfl⟩
  | @activate e' m kind selector receiver args w c frameId hasks hrespond hfits =>
    rcases hsame.asks he hr hasks with ⟨r', hasks', hsame'⟩ | hparts
    · by_cases hrespond' : d.respond r'.position r'.world (.send m kind selector receiver args)
        (.activate c frameId w)
      · by_cases hfits' : c.regionEnd r'.cursor ≤ kFrameRegionLimit - kOverflowReserve
        · have hbehind := hsame'.behind (hasks.sound he) (hasks'.sound hr) w
            (fun _ _ => rfl) fun _ _ => rfl
          have hcalled := hbehind.pushFrame ((hasks.sound he).world _ _)
            ((hasks'.sound hr).world _ _) host.none c frameId
          exact .inl ⟨_, .activate hasks' hrespond' hfits', hcalled⟩
        · exact .inr (.fits hasks hasks' hrespond hrespond' (by omega))
      · exact .inr (.responds hasks hasks' (iff_of_true hrespond hrespond'))
    · exact .inr hparts
  | settle hasks hsettles =>
    rcases hsame.asks he hr hasks with ⟨r', hasks', hsame'⟩ | hparts
    · rcases hsame'.settles (hasks.sound he) (hasks'.sound hr) hsettles with
        ⟨r'', hsettles', hsame''⟩ | ⟨x, hx⟩
      · exact .inl ⟨r'', .settle hasks' hsettles', hsame''⟩
      · exact .inr (.responds hasks hasks' hx)
    · exact .inr hparts
  | @leave e' e'' _ home v w hexecute hunwind hpush =>
    obtain ⟨r', hexecute', hsame', -⟩ := hsame.execute he hr hexecute
    obtain ⟨r'', hunwind', hsame''⟩ := hsame'.unwind hunwind
    have hworld : Same { e'' with world := w } { r'' with world := w } := ⟨hsame''.shown, rfl⟩
    obtain ⟨last, hpush', hlast⟩ := hworld.push
      (((he.execute hexecute).unwind hunwind).world _ _)
      (((hr.execute hexecute').unwind hunwind').world _ _) hpush
    exact .inl ⟨last, .leave hexecute' hunwind' hpush', hlast⟩
  | others hothers =>
    rw [hsame.world] at hothers
    exact .inl ⟨_, .others hothers, hsame.shown, rfl⟩

/-- **Engines that show the same go on alike.** -/
theorem Same.lockstep (hd : d.Numbered) :
    Lockstep (Step host d) (Step host d) (Alike base base') (Parts host d) := by
  refine ⟨fun h hstep => h.step hd hstep, fun h hstep => ?_⟩
  rcases h.symm.step hd hstep with ⟨e', hstep', halike⟩ | hparts
  · exact .inl ⟨e', hstep', halike.symm⟩
  · exact .inr hparts.symm

end Steps

/-! ## Restored frames -/

section Restore

variable {base base' : Nat} {e t : Engine V W}

/-- A record makes the frame it was taken of, somewhere else. -/
theorem frameRecord_frame {f : SlotFrame Module} (hsized : Sized f) (hgroup : f.group = none)
    (slots : Nat → V) (cursor : Nat) :
    (frameRecord slots f).frame cursor
      = { f with place := { f.place with baseSlot := cursor } } := by
  have hlocals : max (computeLocalCount f.module 0) (frameRecord slots f).locals.length
      = f.place.localCount := by
    rw [frameRecord, length_locals]
    exact Nat.max_eq_right hsized.localCount
  have hdepth : (frameRecord slots f).opStack.length = f.place.sp := length_operands f slots
  have hstack : max f.module.operandStackCapacity f.place.sp = f.place.maxStack := by
    rw [← hsized.maxStack]
    exact Nat.max_eq_left hsized.room
  have hhome : (if (frameRecord slots f).homeFrameId = 0 then (frameRecord slots f).frameId
      else (frameRecord slots f).homeFrameId) = f.place.homeFrameId :=
    if_neg (Nat.pos_iff_ne_zero.mp hsized.homeFrameId)
  unfold FrameRecord.frame
  rw [hhome, hdepth]
  show SlotFrame.mk f.module f.pc ⟨cursor, max (computeLocalCount f.module 0) _,
    max f.module.operandStackCapacity f.place.sp, _, _, _⟩ none = _
  rw [hlocals, hstack, ← hgroup]
  rfl

/-- The engine `t'` is `t` with more frames, which show `views`, in `size` slots. -/
structure Restored (base : Nat) (t : Engine V W) (views : List (Activation V Module))
    (size : Nat) (t' : Engine V W) : Prop where
  sound : Sound base t'
  shown : t'.shown = views ++ t.shown
  cursor : t'.cursor = t.cursor + size
  world : t'.world = t.world
  slots : ∀ i, i < t.cursor → t'.slots i = t.slots i

/-- One turn of the loop of `restoreFrames`. -/
theorem restoreFrame_spec (ht : Sound base' t) (none : V) {f : SlotFrame Module}
    (hsized : Sized f) (hgroup : f.group = Option.none) (slots : Nat → V) :
    if kFrameRegionLimit < t.cursor + f.place.regionSize then
      restoreFrame none t (frameRecord slots f) = .error "engine slot region exhausted"
    else
      ∃ t', restoreFrame none t (frameRecord slots f) = .ok t' ∧
        Restored base' t [f.view slots] f.place.regionSize t' := by
  have hframe := frameRecord_frame hsized hgroup slots t.cursor
  have hend : ((frameRecord slots f).frame t.cursor).place.regionEnd
      = t.cursor + f.place.regionSize := by
    rw [hframe]
    rfl
  rw [restoreFrame]
  split
  · exact if_pos (hend ▸ ‹_›)
  · rename_i hfits
    refine ⟨_, if_neg (hend ▸ hfits), ⟨⟨rfl, ht.packed⟩, ?_, fun g hg => ?_⟩, ?_, hend, rfl,
      fun i hi => fill_below _ _ _ _ _ _ _ hi⟩
    · show ((frameRecord slots f).frame t.cursor).place.regionEnd ≤ kFrameRegionLimit
      omega
    · rcases List.mem_cons.mp hg with rfl | hg
      · rw [hframe]
        exact ⟨hsized.1, hsized.2, hsized.3, hsized.4, hsized.5⟩
      · exact ht.sized g hg
    · have hfill := view_fill t none ((frameRecord slots f).frame t.cursor)
        (frameRecord slots f).capturedDict (frameRecord slots f).selfObj
        (frameRecord slots f).locals (frameRecord slots f).opStack (Nat.le_max_right ..) rfl
        (Nat.le_max_right ..)
      have hview : ((frameRecord slots f).frame t.cursor).view
          (t.fill none ((frameRecord slots f).frame t.cursor)
            (frameRecord slots f).capturedDict (frameRecord slots f).selfObj
            (frameRecord slots f).locals (frameRecord slots f).opStack) = f.view slots := by
        rw [hfill, hframe]
        simp only [frameRecord, SlotFrame.view, length_locals, Nat.sub_self,
          List.replicate_zero, List.append_nil]
      exact (ht.shown_fill none rfl _ _ _ _ _).trans (congrArg (· :: t.shown) hview)

theorem restoreFrames_from (ht : Sound base' t) (none : V) (slots : Nat → V) :
    ∀ {frames : List (SlotFrame Module)} {cursor : Nat},
      Packed base (frames.map SlotFrame.place) cursor → (∀ f ∈ frames, Sized f) →
      (∀ f ∈ frames, f.group = Option.none) →
      if kFrameRegionLimit < t.cursor + (cursor - base) then
        (frames.reverse.map (frameRecord slots)).foldlM (restoreFrame none) t
          = .error "engine slot region exhausted"
      else
        ∃ t', (frames.reverse.map (frameRecord slots)).foldlM (restoreFrame none) t = .ok t' ∧
          Restored base' t (frames.map fun f => f.view slots) (cursor - base) t' := by
  intro frames
  induction frames with
  | nil =>
    rintro cursor rfl _ _
    rw [Nat.sub_self, Nat.add_zero, if_neg (Nat.not_lt.mpr ht.limit)]
    exact ⟨t, rfl, ht, rfl, rfl, rfl, fun _ _ => rfl⟩
  | cons f below ih =>
    rintro cursor ⟨rfl, hpacked⟩ hsized hgroups
    have hbelow := ih hpacked (fun g hg => hsized g (by simp [hg]))
      fun g hg => hgroups g (by simp [hg])
    have hle := hpacked.base_le
    have hsize : f.place.regionEnd - base = f.place.baseSlot - base + f.place.regionSize := by
      simp only [Frame.regionEnd]
      omega
    rw [List.reverse_cons, List.map_append, List.foldlM_append, hsize]
    split at hbelow
    · rw [hbelow, if_pos (by omega)]
      rfl
    · obtain ⟨t', hfold, hrestored⟩ := hbelow
      have hlast := restoreFrame_spec hrestored.sound none (hsized f (by simp))
        (hgroups f (by simp)) slots
      rw [hrestored.cursor, Nat.add_assoc] at hlast
      split at hlast
      · rw [if_pos ‹_›, hfold]
        show ([frameRecord slots f].foldlM (restoreFrame none) t' : Except String _) = _
        rw [List.foldlM_cons, hlast]
        rfl
      · obtain ⟨t'', hframe, hrestored'⟩ := hlast
        rw [if_neg ‹_›, hfold]
        refine ⟨t'', ?_, hrestored'.sound, ?_, ?_, ?_, fun i hi => ?_⟩
        · show ([frameRecord slots f].foldlM (restoreFrame none) t' : Except String _) = _
          rw [List.foldlM_cons, hframe]
          rfl
        · rw [hrestored'.shown, hrestored.shown]
          rfl
        · rw [hrestored'.cursor, hrestored.cursor, Nat.add_assoc]
        · rw [hrestored'.world, hrestored.world]
        · have hcursor := hrestored.cursor
          rw [hrestored'.slots i (by omega), hrestored.slots i hi]

/-- **The restored frames show the same**, unless the slots do not suffice. -/
theorem restoreFrames_spec (he : Sound base e) (hgroups : ∀ f ∈ e.frames, f.group = none)
    (hlimit : t.cursor ≤ kFrameRegionLimit) (none : V) :
    if kFrameRegionLimit < t.cursor + (e.cursor - base) then
      t.restoreFrames none e.snapshotFrames = .error "engine slot region exhausted"
    else
      ∃ r, t.restoreFrames none e.snapshotFrames = .ok r ∧
        Restored t.cursor { t with frames := [] } e.shown (e.cursor - base) r := by
  have hempty : Sound t.cursor { t with frames := [] } :=
    ⟨rfl, hlimit, fun f hf => by cases hf⟩
  exact restoreFrames_from hempty none e.slots he.packed he.sized hgroups

variable [DecidableEq V] {host : Host V W Module} {d : Dispatcher V W}

/-- **A computation does not notice that it was suspended**, unless a call fits above the
one cursor only. -/
theorem suspension_transparent (hd : d.Numbered) (he : Sound base e)
    (hgroups : ∀ f ∈ e.frames, f.group = none) (hlimit : t.cursor ≤ kFrameRegionLimit) :
    (kFrameRegionLimit < t.cursor + (e.cursor - base) →
      t.restoreFrames host.none e.snapshotFrames = .error "engine slot region exhausted") ∧
    (t.cursor + (e.cursor - base) ≤ kFrameRegionLimit →
      ∃ r, t.restoreFrames host.none e.snapshotFrames = .ok r ∧
        (∀ i, i < t.cursor → r.slots i = t.slots i) ∧
        ∀ v x, Engine.push { e with world := t.world } v = .ok x →
          ∃ y, r.push v = .ok y ∧ Alike base t.cursor x y ∧
            (∀ x', Runs host d x x' → (∃ y', Runs host d y y' ∧ Alike base t.cursor x' y') ∨
              PartsFrom (Step host d) (Step host d) (Alike base t.cursor) (Parts host d) x y) ∧
            ∀ y', Runs host d y y' → (∃ x', Runs host d x x' ∧ Alike base t.cursor x' y') ∨
              PartsFrom (Step host d) (Step host d) (Alike base t.cursor) (Parts host d)
                x y) := by
  have hspec := restoreFrames_spec he hgroups hlimit host.none
  refine ⟨fun hdeep => by rwa [if_pos hdeep] at hspec, fun hfits => ?_⟩
  rw [if_neg (Nat.not_lt.mpr hfits)] at hspec
  obtain ⟨r, hok, hrestored⟩ := hspec
  refine ⟨r, hok, hrestored.slots, fun v x hpush => ?_⟩
  have hsame : Same { e with world := t.world } r :=
    ⟨by rw [hrestored.shown]; exact (List.append_nil _).symm, hrestored.world.symm⟩
  have he' : Sound base { e with world := t.world } := he.world _ _
  obtain ⟨y, hpush', hsame'⟩ := hsame.push he' hrestored.sound hpush
  have halike : Alike base t.cursor x y :=
    ⟨hsame', he'.push hpush, hrestored.sound.push hpush'⟩
  have hlock : Lockstep (Step host d) (Step host d) (Alike base t.cursor) (Parts host d) :=
    Same.lockstep hd
  refine ⟨y, hpush', halike, fun x' hrun => hlock.runs halike hrun, fun y' hrun => ?_⟩
  rcases hlock.symm.runs halike hrun with hruns | ⟨y'', x'', hy, hx, halike', hparts⟩
  · exact .inl hruns
  · exact .inr ⟨x'', y'', hx, hy, halike', hparts⟩

end Restore

/-- A block that waits, the method it is in and the top level are suspended, and restored 44
slots further up in a nested engine.  The block goes on with the answer, adds it to what it
has, and then a primitive's block returns from the method. -/
theorem suspension_transparent_moved :
    let m : Module :=
      .mk [.op (.pushLocal ⟨0, 0⟩), .op .pushSelf, .op (.send .unary "wait"),
        .op (.send .binary "+"), .op (.send .unary "return"), .op .ret] [] [] 0 none none
    let host : Host Nat Unit Module :=
      { none := 0, bool := fun b => if b then 2 else 1, materialize := fun w _ => (7, w)
        binInt := fun _ _ _ => none, objectProto := 3, newChild := fun w _ => (4, w)
        getAttribute := fun _ _ _ => 0, getOwnAttributeDirect := fun _ _ _ => 0
        hasOwnAttribute := fun _ _ _ => false, setAttribute := fun w _ _ _ => w
        setAttributes := fun w _ _ => w, firstParents := fun _ _ => []
        getGlobal := fun _ _ => 0, setGlobal := fun w _ _ => w
        newBlock := fun w _ _ _ _ _ => (5, w), makeArrayInstance := fun w _ => (6, w)
        attached := fun _ => false }
    let d : Dispatcher Nat Unit :=
      { respond := fun _ _ rq x => ∃ m kind selector receiver args,
          rq = .send m kind selector receiver args ∧
            x = if args = [] then .unwind 2 receiver () else .answer (receiver + args.sum) ()
        others := fun _ _ => False }
    let frame (pc base sp id home : Nat) : SlotFrame Module :=
      ⟨m, pc, ⟨base, 4, 48, sp, id, home⟩, none⟩
    let e : Engine Nat Unit :=
      ⟨[frame 3 364 1 3 2, frame 5 310 0 2 2, frame 5 256 1 1 1], id, 418, 1, ()⟩
    let t : Engine Nat Unit := ⟨[], fun _ => 0, 300, 2, ()⟩
    ∃ r x x' y y', t.restoreFrames host.none e.snapshotFrames = .ok r ∧ e.push 5 = .ok x ∧
      Runs host d x x' ∧ x'.shown.map Activation.operands = [[262, 375]] ∧ r.push 5 = .ok y ∧
      Runs host d y y' ∧ Alike 256 300 x' y' := by
  intro m host d frame e t
  have hcapacity : m.operandStackCapacity = 48 := by decide
  have hsound : Sound 256 e := by
    refine ⟨⟨rfl, rfl, rfl, rfl⟩, ?_, fun f hf => ?_⟩
    · norm_num [e, kFrameRegionLimit]
    · simp only [e, List.mem_cons, List.not_mem_nil, or_false] at hf
      rcases hf with rfl | rfl | rfl <;>
        exact ⟨by decide, hcapacity.symm, by decide, by decide, by decide⟩
  have hgroups : ∀ f ∈ e.frames, f.group = none := fun f hf => by
    simp only [e, List.mem_cons, List.not_mem_nil, or_false] at hf
    rcases hf with rfl | rfl | rfl <;> rfl
  have hlimit : t.cursor ≤ kFrameRegionLimit := by norm_num [t, kFrameRegionLimit]
  have hd : d.Numbered := by
    rintro _ _ _ _ _ _ ⟨_, _, _, _, args, _, hx⟩
    by_cases hargs : args = [] <;> simp [hargs] at hx
  have hfits : t.cursor + (e.cursor - 256) ≤ kFrameRegionLimit := by
    norm_num [t, e, kFrameRegionLimit]
  have htransparent := @suspension_transparent Nat Unit 256 e t _ host d hd hsound hgroups
    hlimit
  obtain ⟨r, hok, -, hresume⟩ := htransparent.2 hfits
  obtain ⟨x, hpush⟩ : ∃ x, e.push 5 = .ok x := ⟨_, rfl⟩
  obtain ⟨y, hpush', -, hruns, -⟩ := hresume 5 x hpush
  have hstep : ∃ x₁ x', Step host d x x₁ ∧ Step host d x₁ x' ∧
      x'.shown.map Activation.operands = [[262, 375]] := by
    cases hpush
    refine ⟨_, _, .settle (.send rfl rfl) (.answer ⟨_, _, _, _, _, rfl, rfl⟩
      (fun _ _ => rfl) rfl), .settle (.send rfl rfl) (.unwind ⟨_, _, _, _, _, rfl, rfl⟩
      (fun _ _ => rfl) rfl rfl), rfl⟩
  obtain ⟨x₁, x', hfirst, hsecond, hshown⟩ := hstep
  have hrun : Runs host d x x' := (ReflTransGen.single hfirst).tail hsecond
  rcases hruns x' hrun with ⟨y', hrun', halike⟩ | ⟨_, _, -, -, -, hparts⟩
  · exact ⟨r, x, x', y, y', hok, hpush, hrun, hshown, hpush', hrun', halike⟩
  · cases hparts with
    | responds _ _ hx => exact absurd hx iff_not_self
    | fits _ _ hrespond _ _ =>
      obtain ⟨_, _, _, _, args, _, hx⟩ := hrespond
      by_cases hargs : args = [] <;> simp [hargs] at hx

end ProtoST.Runtime.FrameMachine

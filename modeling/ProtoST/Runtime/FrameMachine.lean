import Mathlib
import ProtoST.Runtime.FrameSlots
import ProtoST.Runtime.OperandDepth

/-!
# An engine at work

One `ExecutionEngine` runs its frames in the slot array of a thread.  `execute` is
one turn of the dispatch loop; what a message leads to is up to a `Dispatcher`: an
activation of the engine's own, the answer of a primitive, which may have run engines
of its own above the slot cursor, or a `NonLocalReturn` out of one of these, which the
loop catches when the home is a frame of its own.

## Main results

* `Step.sound` — the regions stay packed, and every frame keeps its size.
-/

namespace ProtoST.Runtime.FrameMachine

open ProtoST.Runtime.Bytecode ProtoST.Runtime.Handlers ProtoST.Runtime.FrameSlots
open ProtoST.Runtime.EngineStack (Frame kHeaderSlots Packed popDownTo)

/-! ## Frame geometry -/

/-- Where the slots of frame regions end. -/
def kFrameRegionLimit : Nat := 2 ^ 20

/-- The slots a send leaves to the handler of a "stack depth exceeded" error. -/
def kOverflowReserve : Nat := 16384

def kMinLocals : Nat := 4

/-- The highest local an instruction uses, plus one. -/
def localsUsed (code : FlatCode) : Nat :=
  code.foldl
    (fun n i =>
      match i with
      | .op (.pushLocal s) | .op (.storeLocal s) => max n (s.index + 1)
      | _ => n) 0

/-- `BytecodeModule::cachedLocalCount`. -/
def cachedLocalCount (m : Module) (argc : Nat) : Nat := max (localsUsed m.code) argc

/-- `computeLocalCount`. -/
def computeLocalCount (m : Module) (argc : Nat) : Nat := max (cachedLocalCount m argc) kMinLocals

/-- What `pushFrame` is called with. -/
structure Callee (V : Type) where
  module : Module
  self : V
  captured : V
  args : List V
  /-- The home the block carries, 0 for a method. -/
  home : Nat

namespace Callee

variable {V : Type} (c : Callee V)

/-- The frame `pushFrame` makes. -/
def frame (cursor frameId : Nat) : SlotFrame Module where
  module := c.module
  pc := 0
  place :=
    { baseSlot := cursor
      localCount := computeLocalCount c.module c.args.length
      maxStack := c.module.operandStackCapacity
      sp := 0
      frameId := frameId
      homeFrameId := if c.home = 0 then frameId else c.home }
  group := none

/-- Where the region of the frame would end. -/
def regionEnd (cursor : Nat) : Nat := (c.frame cursor 0).place.regionEnd

end Callee

/-! ## The engine -/

variable {V W α : Type}

/-- How far a thread is: `liveEnginesOnThisThread` and the slot cursor.  A nested engine
finds the limit of either sooner or later. -/
structure Position where
  engines : Nat
  cursor : Nat

/-- An engine: its frames, innermost first, the slots and the slot cursor of its
thread, the engines that are live there, and what is behind the frames. -/
structure Engine (V W : Type) where
  frames : List (SlotFrame Module)
  slots : Nat → V
  cursor : Nat
  engines : Nat
  world : W

/-- What an engine asks for. -/
inductive Request (V : Type) where
  /-- A message sent by code of a module. -/
  | send (m : Module) (kind : SendKind) (selector : String) (receiver : V) (args : List V)
  | doesNotUnderstand (selector : String) (receiver : V)
  /-- "stack depth exceeded", with the number of frames. -/
  | tooDeep (frames : Nat)
  /-- A return whose home is no frame of the engine: `BlockCannotReturn`, if the home is
  on no other engine either. -/
  | cannotReturn (home : Nat)

/-- What a request leads to. -/
inductive Dispatch (V W : Type) where
  | activate (callee : Callee V) (frameId : Nat) (w : W)
  | answer (v : V) (w : W)
  /-- A `NonLocalReturn` to the activation `home`. -/
  | unwind (home : Nat) (v : V) (w : W)

/-- The rest of the system. -/
structure Dispatcher (V W : Type) where
  respond : Position → W → Request V → Dispatch V W → Prop
  /-- What the other threads do meanwhile. -/
  others : W → W → Prop

namespace Engine

def position (e : Engine V W) : Position := ⟨e.engines, e.cursor⟩

/-- Runs a script on the innermost frame. -/
def runTop (e : Engine V W) (s : Script V α) : Except String (α × Engine V W) :=
  match e.frames with
  | [] => .error "no frame"
  | f :: below =>
    (runSlots s f e.slots).map fun r =>
      (r.1, { e with frames := r.2.1 :: below, slots := r.2.2 })

/-- The innermost frame goes on at `pc`. -/
def setPc (e : Engine V W) (pc : Nat) : Engine V W :=
  match e.frames with
  | [] => e
  | f :: below => { e with frames := { f with pc := pc } :: below }

/-- Hands a value to the innermost frame. -/
def push (e : Engine V W) (v : V) : Except String (Engine V W) :=
  (e.runTop (.push v (.done ()))).map Prod.snd

/-- The slots of a fresh region. -/
def fill (e : Engine V W) (none : V) (f : SlotFrame Module) (captured self : V)
    (locals operands : List V) : Nat → V := fun i =>
  if i < f.place.baseSlot ∨ f.place.regionEnd ≤ i then e.slots i
  else if i = f.place.baseSlot then captured
  else if i = f.place.baseSlot + 1 then self
  else if i < f.localsBase + f.place.localCount then (locals[i - f.localsBase]?).getD none
  else (operands[i - f.place.opStackBase]?).getD none

/-- `pushFrame`. -/
def pushFrame (e : Engine V W) (none : V) (c : Callee V) (frameId : Nat) : Engine V W :=
  let f := c.frame e.cursor frameId
  { e with
    frames := f :: e.frames
    slots := e.fill none f c.captured c.self c.args []
    cursor := f.place.regionEnd }

/-- The frames a return leaves: `popFrame` as often as it takes. -/
def unwind (e : Engine V W) (home : Option Nat) : Option (Engine V W) :=
  match home, e.frames with
  | none, f :: below => some { e with frames := below, cursor := f.place.baseSlot }
  | some home, frames =>
    (popDownTo (fun f => f.place.frameId) home frames).map fun r =>
      { e with frames := r.2, cursor := r.1.place.baseSlot }
  | none, [] => none

end Engine

section Machine

variable [DecidableEq V] (host : Host V W Module)

/-- One instruction of a module, and where the code goes on. -/
def instruction (m : Module) (w : W) (pc : Nat) : Script V (Nat × Next V W) :=
  match m.code[pc]? with
  | some (.op i) => (handle host m m.groupEntries w i).map fun next => (pc + 1, next)
  | some (.jump offset) => .done (pc + 1 + offset, .goOn w)
  | some (.jumpBack offset) => .done (pc + 1 - offset, .goOn w)
  | some (.jumpIf sense offset) =>
    .pop fun v => .done (if v = host.bool sense then pc + 1 + offset else pc + 1, .goOn w)
  | none => (returnHandler host w none).map fun next => (pc, next)

/-- One turn of the dispatch loop. -/
def Engine.execute (e : Engine V W) : Except String (Next V W × Engine V W) :=
  match e.frames with
  | [] => .error "no frame"
  | f :: _ =>
    (e.runTop (instruction host f.module e.world f.pc)).map fun r =>
      (r.1.2, r.2.setPc r.1.1)

/-- The module of the innermost frame. -/
def Engine.module? (e : Engine V W) : Option Module := e.frames.head?.map SlotFrame.module

variable (d : Dispatcher V W)

/-- The engine asks for something. -/
inductive Asks (e : Engine V W) : Request V → Engine V W → Prop
  | send {e' : Engine V W} {m : Module} {kind : SendKind} {selector : String} {receiver : V}
      {args : List V} {w : W} :
      e.execute host = .ok (.send kind selector receiver args w, e') → e.module? = some m →
      Asks e (.send m kind selector receiver args) { e' with world := w }
  /-- `signalIfTooDeep`. -/
  | tooDeep {e' : Engine V W} {m : Module} {kind : SendKind} {selector : String} {receiver : V}
      {args : List V} {w : W} {c : Callee V} {frameId : Nat} :
      Asks e (.send m kind selector receiver args) e' →
      d.respond e'.position e'.world (.send m kind selector receiver args)
        (.activate c frameId w) →
      kFrameRegionLimit - kOverflowReserve < c.regionEnd e'.cursor →
      Asks e (.tooDeep e'.frames.length) { e' with world := w }
  | doesNotUnderstand {e' : Engine V W} {selector : String} {receiver : V} {w : W} :
      e.execute host = .ok (.doesNotUnderstand selector receiver w, e') →
      Asks e (.doesNotUnderstand selector receiver) { e' with world := w }
  | cannotReturn {e' : Engine V W} {home : Nat} {v : V} {w : W} :
      e.execute host = .ok (.leave (some home) v w, e') → e'.unwind (some home) = none →
      Asks e (.cannotReturn home) { e' with world := w }

/-- What comes of a request when no frame is made: a value for the innermost frame, or for
the caller of the home that the loop's `catch (const NonLocalReturn&)` finds.  The slots
above the cursor are anybody's. -/
inductive Settles (e : Engine V W) (rq : Request V) : Engine V W → Prop
  | answer {e' : Engine V W} {v : V} {w : W} {slots : Nat → V} :
      d.respond e.position e.world rq (.answer v w) →
      (∀ i, i < e.cursor → slots i = e.slots i) →
      ({ e with world := w, slots := slots }).push v = .ok e' → Settles e rq e'
  | unwind {e' e'' : Engine V W} {home : Nat} {v : V} {w : W} {slots : Nat → V} :
      d.respond e.position e.world rq (.unwind home v w) →
      (∀ i, i < e.cursor → slots i = e.slots i) →
      ({ e with world := w, slots := slots }).unwind (some home) = some e' →
      e'.push v = .ok e'' → Settles e rq e''

/-- The engine goes on. -/
inductive Step : Engine V W → Engine V W → Prop
  | goOn {e e' : Engine V W} {w : W} :
      e.execute host = .ok (.goOn w, e') → Step e { e' with world := w }
  | activate {e e' : Engine V W} {m : Module} {kind : SendKind} {selector : String}
      {receiver : V} {args : List V} {w : W} {c : Callee V} {frameId : Nat} :
      Asks host d e (.send m kind selector receiver args) e' →
      d.respond e'.position e'.world (.send m kind selector receiver args)
        (.activate c frameId w) →
      c.regionEnd e'.cursor ≤ kFrameRegionLimit - kOverflowReserve →
      Step e (({ e' with world := w }).pushFrame host.none c frameId)
  | settle {e e' e'' : Engine V W} {rq : Request V} :
      Asks host d e rq e' → Settles d e' rq e'' → Step e e''
  | leave {e e' e'' e''' : Engine V W} {home : Option Nat} {v : V} {w : W} :
      e.execute host = .ok (.leave home v w, e') → e'.unwind home = some e'' →
      ({ e'' with world := w }).push v = .ok e''' → Step e e'''
  | others {e : Engine V W} {w : W} : d.others e.world w → Step e { e with world := w }

/-- Any number of steps. -/
abbrev Runs : Engine V W → Engine V W → Prop := Relation.ReflTransGen (Step host d)

end Machine

/-! ## The regions stay packed -/

/-- The frame has its size: at least what `restoreFrames` derives from its module. -/
structure Sized (f : SlotFrame Module) : Prop where
  room : f.place.sp ≤ f.place.maxStack
  maxStack : f.place.maxStack = f.module.operandStackCapacity
  localCount : computeLocalCount f.module 0 ≤ f.place.localCount
  frameId : 0 < f.place.frameId
  homeFrameId : 0 < f.place.homeFrameId

/-- The regions of the frames tile the slots from `base` to the cursor. -/
structure Sound (base : Nat) (e : Engine V W) : Prop where
  packed : Packed base (e.frames.map SlotFrame.place) e.cursor
  limit : e.cursor ≤ kFrameRegionLimit
  sized : ∀ f ∈ e.frames, Sized f

section Regions

variable {base : Nat} {e : Engine V W}

/-- The regions below a frame end where it starts. -/
theorem Packed.below {frames : List (SlotFrame Module)} :
    ∀ {cursor : Nat}, Packed base (frames.map SlotFrame.place) cursor →
      ∀ f ∈ frames, f.place.regionEnd ≤ cursor := by
  induction frames with
  | nil => intro cursor _ f hf; cases hf
  | cons g below ih =>
    rintro cursor ⟨rfl, hbelow⟩ f hf
    rcases List.mem_cons.mp hf with rfl | hf
    · exact Nat.le_refl _
    · have hle := ih hbelow f hf
      have hlt := g.place.baseSlot_lt_regionEnd
      omega

theorem Sound.cons {f : SlotFrame Module} {below : List (SlotFrame Module)}
    (h : Sound base e) (hframes : e.frames = f :: below) :
    e.cursor = f.place.regionEnd ∧ Packed base (below.map SlotFrame.place) f.place.baseSlot ∧
      Sized f ∧ ∀ g ∈ below, Sized g := by
  have hpacked := h.packed
  have hsized := h.sized
  rw [hframes] at hpacked hsized
  exact ⟨hpacked.1, hpacked.2, hsized f (by simp), fun g hg => hsized g (by simp [hg])⟩

/-- The innermost frame may change within its region. -/
theorem Sound.replace {f f' : SlotFrame Module} {below : List (SlotFrame Module)}
    {slots : Nat → V} (h : Sound base e) (hframes : e.frames = f :: below)
    (hkept : Kept f f') (hroom : f'.place.sp ≤ f'.place.maxStack) :
    Sound base { e with frames := f' :: below, slots := slots } := by
  obtain ⟨hcursor, hbelow, hsized, hrest⟩ := h.cons hframes
  refine ⟨⟨?_, ?_⟩, h.limit, fun g hg => ?_⟩
  · show e.cursor = f'.place.regionEnd
    rw [hkept.regionEnd]
    exact hcursor
  · show Packed base (below.map SlotFrame.place) f'.place.baseSlot
    rw [hkept.baseSlot]
    exact hbelow
  · rcases List.mem_cons.mp hg with rfl | hg
    · refine ⟨hroom, ?_, ?_, ?_, ?_⟩
      · rw [hkept.maxStack, hkept.module]
        exact hsized.maxStack
      · rw [hkept.localCount, hkept.module]
        exact hsized.localCount
      · rw [hkept.frameId]
        exact hsized.frameId
      · rw [hkept.homeFrameId]
        exact hsized.homeFrameId
    · exact hrest g hg

variable {e e' : Engine V W}

theorem Engine.runTop_eq {s : Script V α} {a : α}
    (h : e.runTop s = .ok (a, e')) : ∃ f below f' slots', e.frames = f :: below ∧
      runSlots s f e.slots = .ok (a, f', slots') ∧
      e' = { e with frames := f' :: below, slots := slots' } := by
  unfold Engine.runTop at h
  split at h
  · cases h
  · rename_i f below hframes
    cases hrun : runSlots s f e.slots with
    | error text =>
      rw [hrun] at h
      cases h
    | ok r =>
      rw [hrun] at h
      cases h
      exact ⟨f, below, r.2.1, r.2.2, hframes, hrun, rfl⟩

theorem Sound.runTop {s : Script V α} {a : α} (h : Sound base e)
    (hrun : e.runTop s = .ok (a, e')) : Sound base e' := by
  obtain ⟨f, below, f', slots', hframes, hslots, rfl⟩ := Engine.runTop_eq hrun
  obtain ⟨-, -, hsized, -⟩ := h.cons hframes
  obtain ⟨hkept, hroom, -⟩ := runSlots_frame s f e.slots a f' slots' hsized.room hslots
  exact h.replace hframes hkept hroom

theorem Sound.setPc (h : Sound base e) (pc : Nat) : Sound base (e.setPc pc) := by
  unfold Engine.setPc
  split
  · exact h
  · rename_i f below hframes
    obtain ⟨hcursor, hbelow, hsized, hrest⟩ := h.cons hframes
    refine ⟨⟨hcursor, hbelow⟩, h.limit, fun g hg => ?_⟩
    rcases List.mem_cons.mp hg with rfl | hg
    · exact ⟨hsized.1, hsized.2, hsized.3, hsized.4, hsized.5⟩
    · exact hrest g hg

theorem Sound.world (h : Sound base e) (w : W) (slots : Nat → V) :
    Sound base { e with world := w, slots := slots } := ⟨h.packed, h.limit, h.sized⟩

theorem Sound.push {v : V} (h : Sound base e) (hpush : e.push v = .ok e') :
    Sound base e' := by
  unfold Engine.push at hpush
  cases hrun : e.runTop (.push v (.done ())) with
  | error text =>
    rw [hrun] at hpush
    cases hpush
  | ok r =>
    rw [hrun] at hpush
    cases hpush
    exact h.runTop hrun

theorem Sound.pushFrame (h : Sound base e) (none : V) (c : Callee V) {frameId : Nat}
    (hid : 0 < frameId) (hlimit : c.regionEnd e.cursor ≤ kFrameRegionLimit) :
    Sound base (e.pushFrame none c frameId) := by
  refine ⟨⟨rfl, h.packed⟩, hlimit, fun g hg => ?_⟩
  rcases List.mem_cons.mp hg with rfl | hg
  · refine ⟨Nat.zero_le _, rfl, ?_, hid, ?_⟩
    · show max (max (localsUsed c.module.code) 0) kMinLocals
        ≤ max (max (localsUsed c.module.code) c.args.length) kMinLocals
      omega
    · show 0 < if c.home = 0 then frameId else c.home
      split
      · exact hid
      · omega
  · exact h.sized g hg

/-- The frames a return leaves, and those it goes on with. -/
theorem Engine.unwind_eq {home : Option Nat}
    (h : e.unwind home = some e') : ∃ popped f below, e.frames = popped ++ f :: below ∧
      e' = { e with frames := below, cursor := f.place.baseSlot } := by
  unfold Engine.unwind at h
  split at h
  · rename_i f below hframes
    cases h
    exact ⟨[], f, below, hframes, rfl⟩
  · rename_i home
    obtain ⟨⟨f, below⟩, hpop, rfl⟩ := Option.map_eq_some_iff.mp h
    obtain ⟨-, popped, hsplit⟩ := EngineStack.popDownTo_eq_some hpop
    exact ⟨popped, f, below, hsplit, rfl⟩
  · cases h

theorem Sound.unwind {home : Option Nat} (h : Sound base e)
    (hunwind : e.unwind home = some e') : Sound base e' := by
  obtain ⟨popped, f, below, hframes, rfl⟩ := Engine.unwind_eq hunwind
  have hpacked := h.packed
  rw [hframes, List.map_append, List.map_cons] at hpacked
  obtain ⟨hbelow, hle⟩ := hpacked.drop
  have hlt := f.place.baseSlot_lt_regionEnd
  have hlimit := h.limit
  refine ⟨hbelow, ?_, fun g hg => h.sized g ?_⟩
  · show f.place.baseSlot ≤ kFrameRegionLimit
    omega
  · rw [hframes]
    simp [hg]

end Regions

/-- The ids of activations are not 0. -/
def Dispatcher.Numbered (d : Dispatcher V W) : Prop :=
  ∀ position w rq c frameId w', d.respond position w rq (.activate c frameId w') → 0 < frameId

section Steps

variable [DecidableEq V] {host : Host V W Module} {d : Dispatcher V W} {base : Nat}

variable {e e' : Engine V W}

theorem Engine.execute_eq {next : Next V W}
    (h : e.execute host = .ok (next, e')) : ∃ f below pc e'', e.frames = f :: below ∧
      e.runTop (instruction host f.module e.world f.pc) = .ok ((pc, next), e'') ∧
      e' = e''.setPc pc := by
  unfold Engine.execute at h
  split at h
  · cases h
  · rename_i f below hframes
    cases hrun : e.runTop (instruction host f.module e.world f.pc) with
    | error text =>
      rw [hrun] at h
      cases h
    | ok r =>
      rw [hrun] at h
      cases h
      exact ⟨f, below, r.1.1, r.2, hframes, hrun, rfl⟩

theorem Sound.execute {next : Next V W} (h : Sound base e)
    (hexecute : e.execute host = .ok (next, e')) : Sound base e' := by
  obtain ⟨f, below, pc, e'', -, hrun, rfl⟩ := Engine.execute_eq hexecute
  exact (h.runTop hrun).setPc pc

theorem Asks.sound {rq : Request V} (h : Sound base e)
    (hasks : Asks host d e rq e') : Sound base e' := by
  induction hasks with
  | send hexecute _ | doesNotUnderstand hexecute | cannotReturn hexecute _ =>
    exact (h.execute hexecute).world _ _
  | tooDeep _ _ _ ih => exact ih.world _ _

omit [DecidableEq V] in
theorem Settles.sound {rq : Request V} (h : Sound base e)
    (hsettles : Settles d e rq e') : Sound base e' := by
  cases hsettles with
  | answer _ _ hpush => exact (h.world _ _).push hpush
  | unwind _ _ hunwind hpush => exact ((h.world _ _).unwind hunwind).push hpush

/-- **A step keeps the regions packed.** -/
theorem Step.sound (hd : d.Numbered) (h : Sound base e)
    (hstep : Step host d e e') : Sound base e' := by
  cases hstep with
  | goOn hexecute => exact (h.execute hexecute).world _ _
  | activate hasks hrespond hfits =>
    refine Sound.pushFrame ((hasks.sound h).world _ _) host.none _ (hd _ _ _ _ _ _ hrespond) ?_
    exact Nat.le_trans hfits (Nat.sub_le _ _)
  | settle hasks hsettles => exact hsettles.sound (hasks.sound h)
  | leave hexecute hunwind hpush =>
    exact (((h.execute hexecute).unwind hunwind).world _ _).push hpush
  | others _ => exact h.world _ _

end Steps

end ProtoST.Runtime.FrameMachine

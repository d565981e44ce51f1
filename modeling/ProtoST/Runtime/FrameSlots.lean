import ProtoST.Runtime.EngineStackSound
import ProtoST.Runtime.Handlers

/-!
# Frames in the slot array

The engine keeps what a frame holds in a region of the slot array of its thread:
the captured dictionary and `self`, the locals, the operand stack.  A handler that
runs on such a frame does what it does on the frame kept as lists, wherever the
region is.

## Main results

* `runSlots_view` — a script does the same to a region as to the lists in it.
* `runSlots_frame` — it leaves the rest of the slot array alone.
-/

namespace ProtoST.Runtime.FrameSlots

open ProtoST.Runtime.EngineStack (Frame kHeaderSlots)
open ProtoST.Runtime.Handlers

variable {V M α : Type}

/-! ## Regions -/

/-- A frame of the engine: what it runs, where, and the region it has. -/
structure SlotFrame (M : Type) where
  module : M
  pc : Nat
  place : Frame
  group : Option WriteGroup

namespace SlotFrame

variable (f : SlotFrame M)

/-- `localsBase`. -/
def localsBase : Nat := f.place.baseSlot + kHeaderSlots

/-- The frame with another depth of its operand stack. -/
def setSp (sp : Nat) : SlotFrame M := { f with place := { f.place with sp := sp } }

/-- The frame with another write group. -/
def setGroup (g : Option WriteGroup) : SlotFrame M := { f with group := g }

/-- The locals in the region. -/
def locals (slots : Nat → V) : List V :=
  (List.range f.place.localCount).map fun i => slots (f.localsBase + i)

/-- The operand stack in the region, bottom first. -/
def operands (slots : Nat → V) : List V :=
  (List.range f.place.sp).map fun i => slots (f.place.opStackBase + i)

/-- What the region of the frame holds. -/
def view (slots : Nat → V) : Activation V M where
  module := f.module
  pc := f.pc
  locals := f.locals slots
  operands := f.operands slots
  maxStack := f.place.maxStack
  self := slots (f.place.baseSlot + 1)
  captured := slots f.place.baseSlot
  frameId := f.place.frameId
  homeFrameId := f.place.homeFrameId
  group := f.group

end SlotFrame

/-! ## Scripts on a region -/

/-- Runs a script on a frame in the slot array: the accessors of the engine. -/
def runSlots : Script V α → SlotFrame M → (Nat → V) →
    Except String (α × SlotFrame M × (Nat → V))
  | .done a, f, slots => .ok (a, f, slots)
  | .fault text, _, _ => .error text
  | .push v k, f, slots =>
    if f.place.sp < f.place.maxStack then
      runSlots k (f.setSp (f.place.sp + 1))
        (Function.update slots (f.place.opStackBase + f.place.sp) v)
    else .error "operand stack overflow"
  | .pop k, f, slots =>
    if f.place.sp = 0 then .error "engine operand stack underflow"
    else
      runSlots (k (slots (f.place.opStackBase + (f.place.sp - 1)))) (f.setSp (f.place.sp - 1))
        slots
  | .peek k, f, slots =>
    if f.place.sp = 0 then .error "engine operand stack peek on empty"
    else runSlots (k (slots (f.place.opStackBase + (f.place.sp - 1)))) f slots
  | .depth k, f, slots => runSlots (k f.place.sp) f slots
  | .operand i k, f, slots =>
    if i < f.place.sp then runSlots (k (slots (f.place.opStackBase + i))) f slots
    else .error "engine operand stack underflow"
  | .drop n k, f, slots => runSlots k (f.setSp (f.place.sp - n)) slots
  | .getLocal slot k, f, slots =>
    if slot < f.place.localCount then runSlots (k (slots (f.localsBase + slot))) f slots
    else .error "engine local slot out of range"
  | .setLocal slot v k, f, slots =>
    if slot < f.place.localCount then
      runSlots k f (Function.update slots (f.localsBase + slot) v)
    else .error "engine local slot out of range"
  | .getSelf k, f, slots => runSlots (k (slots (f.place.baseSlot + 1))) f slots
  | .getCaptured k, f, slots => runSlots (k (slots f.place.baseSlot)) f slots
  | .setCaptured v k, f, slots => runSlots k f (Function.update slots f.place.baseSlot v)
  | .homeFrameId k, f, slots => runSlots (k f.place.homeFrameId) f slots
  | .getGroup k, f, slots => runSlots (k f.group) f slots
  | .setGroup g k, f, slots => runSlots k (f.setGroup g) slots

section Views

variable (f : SlotFrame M) (slots : Nat → V)

theorem length_locals : (f.locals slots).length = f.place.localCount := by
  simp [SlotFrame.locals]

theorem length_operands : (f.operands slots).length = f.place.sp := by
  simp [SlotFrame.operands]

theorem getElem?_locals (i : Nat) : (f.locals slots)[i]? =
    if i < f.place.localCount then some (slots (f.localsBase + i)) else none := by
  simp only [SlotFrame.locals, List.getElem?_map]
  split
  · rename_i h
    simp [List.getElem?_range h]
  · rename_i h
    simp [Nat.le_of_not_lt h]

theorem getElem?_operands (i : Nat) : (f.operands slots)[i]? =
    if i < f.place.sp then some (slots (f.place.opStackBase + i)) else none := by
  simp only [SlotFrame.operands, List.getElem?_map]
  split
  · rename_i h
    simp [List.getElem?_range h]
  · rename_i h
    simp [Nat.le_of_not_lt h]

theorem getLast?_operands : (f.operands slots).getLast? =
    if f.place.sp = 0 then none else some (slots (f.place.opStackBase + (f.place.sp - 1))) := by
  rw [List.getLast?_eq_getElem?, length_operands, getElem?_operands]
  split
  · rename_i h
    rw [if_neg (by omega)]
  · rename_i h
    rw [if_pos (by omega)]

/-- A shorter operand stack. -/
theorem operands_setSp {n : Nat} (hn : n ≤ f.place.sp) :
    (f.setSp n).operands slots = (f.operands slots).take n := by
  show (List.range n).map (fun i => slots (f.place.opStackBase + i)) = _
  rw [SlotFrame.operands, ← List.map_take, List.take_range, Nat.min_eq_left hn]

end Views

/-! ### Writes to a region -/

section Writes

variable (f : SlotFrame M) (slots : Nat → V) (v : V)

/-- What the regions show depends on the slots they cover. -/
theorem view_congr {slots' : Nat → V} (hbase : slots' f.place.baseSlot = slots f.place.baseSlot)
    (hself : slots' (f.place.baseSlot + 1) = slots (f.place.baseSlot + 1))
    (hlocals : f.locals slots' = f.locals slots)
    (hoperands : f.operands slots' = f.operands slots) : f.view slots' = f.view slots := by
  simp only [SlotFrame.view, hbase, hself, hlocals, hoperands]

/-- A write outside the locals. -/
theorem locals_update {i : Nat} (h : i < f.localsBase ∨ f.localsBase + f.place.localCount ≤ i) :
    f.locals (Function.update slots i v) = f.locals slots := by
  apply List.map_congr_left
  intro j hj
  rw [List.mem_range] at hj
  rw [Function.update_of_ne]
  omega

/-- A write outside the live operand stack. -/
theorem operands_update {i : Nat}
    (h : i < f.place.opStackBase ∨ f.place.opStackBase + f.place.sp ≤ i) :
    f.operands (Function.update slots i v) = f.operands slots := by
  apply List.map_congr_left
  intro j hj
  rw [List.mem_range] at hj
  rw [Function.update_of_ne]
  omega

theorem opStackBase_eq : f.place.opStackBase = f.localsBase + f.place.localCount := rfl

theorem localsBase_eq : f.localsBase = f.place.baseSlot + 2 := rfl

theorem view_push :
    (f.setSp (f.place.sp + 1)).view
        (Function.update slots (f.place.opStackBase + f.place.sp) v)
      = { f.view slots with operands := f.operands slots ++ [v] } := by
  have hbase := localsBase_eq f
  have hops := opStackBase_eq f
  have hlocals : f.locals (Function.update slots (f.place.opStackBase + f.place.sp) v)
      = f.locals slots := locals_update f slots v (.inr (by omega))
  have hoperands : (f.setSp (f.place.sp + 1)).operands
      (Function.update slots (f.place.opStackBase + f.place.sp) v)
      = f.operands slots ++ [v] := by
    show (List.range (f.place.sp + 1)).map (fun i =>
      Function.update slots (f.place.opStackBase + f.place.sp) v (f.place.opStackBase + i)) = _
    rw [List.range_succ, List.map_append, List.map_singleton, Function.update_self]
    congr 1
    exact operands_update f slots v (.inr (Nat.le_refl _))
  have hself : Function.update slots (f.place.opStackBase + f.place.sp) v
      (f.place.baseSlot + 1) = slots (f.place.baseSlot + 1) :=
    Function.update_of_ne (by omega) _ _
  have hcaptured : Function.update slots (f.place.opStackBase + f.place.sp) v
      f.place.baseSlot = slots f.place.baseSlot := Function.update_of_ne (by omega) _ _
  simp only [SlotFrame.view, hoperands]
  simp only [SlotFrame.setSp, hself, hcaptured]
  congr 1

theorem view_setSp {n : Nat} (hn : n ≤ f.place.sp) :
    (f.setSp n).view slots = { f.view slots with operands := (f.operands slots).take n } := by
  simp only [SlotFrame.view, operands_setSp f slots hn]
  rfl

theorem view_setLocal {slot : Nat} (hslot : slot < f.place.localCount) :
    f.view (Function.update slots (f.localsBase + slot) v)
      = { f.view slots with locals := (f.locals slots).set slot v } := by
  have hbase := localsBase_eq f
  have hops := opStackBase_eq f
  have hlocals : f.locals (Function.update slots (f.localsBase + slot) v)
      = (f.locals slots).set slot v := by
    apply List.ext_getElem?
    intro i
    rw [List.getElem?_set, getElem?_locals, getElem?_locals, length_locals]
    by_cases hi : slot = i
    · subst hi
      simp [hslot]
    · have hne : f.localsBase + i ≠ f.localsBase + slot := by omega
      simp [hi, Function.update_of_ne hne]
  have hoperands := operands_update f slots v (i := f.localsBase + slot) (.inl (by omega))
  have hself : Function.update slots (f.localsBase + slot) v (f.place.baseSlot + 1)
      = slots (f.place.baseSlot + 1) := Function.update_of_ne (by omega) _ _
  have hcaptured : Function.update slots (f.localsBase + slot) v f.place.baseSlot
      = slots f.place.baseSlot := Function.update_of_ne (by omega) _ _
  simp only [SlotFrame.view, hlocals, hoperands, hself, hcaptured]

theorem view_setCaptured :
    f.view (Function.update slots f.place.baseSlot v)
      = { f.view slots with captured := v } := by
  have hbase := localsBase_eq f
  have hops := opStackBase_eq f
  have hlocals := locals_update f slots v (i := f.place.baseSlot) (.inl (by omega))
  have hoperands := operands_update f slots v (i := f.place.baseSlot) (.inl (by omega))
  have hself : Function.update slots f.place.baseSlot v (f.place.baseSlot + 1)
      = slots (f.place.baseSlot + 1) := Function.update_of_ne (by omega) _ _
  simp only [SlotFrame.view, hlocals, hoperands, hself, Function.update_self]

end Writes

/-! ## Scripts and views -/

/-- A script does to a region what it does to the lists in it. -/
theorem runSlots_view (s : Script V α) : ∀ (f : SlotFrame M) (slots : Nat → V),
    (runSlots s f slots).map (fun r => (r.1, r.2.1.view r.2.2)) = s.run (f.view slots) := by
  induction s with
  | done a => exact fun _ _ => rfl
  | fault text => exact fun _ _ => rfl
  | push v k ih =>
    intro f slots
    simp only [runSlots, Script.run]
    have hlength : (f.view slots).operands.length = f.place.sp := length_operands f slots
    rw [hlength]
    show _ = if f.place.sp < f.place.maxStack then _ else _
    split
    · rw [ih, view_push]
      rfl
    · rfl
  | pop k ih =>
    intro f slots
    simp only [runSlots, Script.run]
    have hlast : (f.view slots).operands.getLast? = _ := getLast?_operands f slots
    rw [hlast]
    by_cases h0 : f.place.sp = 0
    · simp only [if_pos h0]
      rfl
    · simp only [if_neg h0]
      rw [ih, view_setSp f slots (Nat.sub_le _ _)]
      congr 2
      rw [← length_operands f slots, ← List.dropLast_eq_take]
      rfl
  | peek k ih =>
    intro f slots
    simp only [runSlots, Script.run]
    have hlast : (f.view slots).operands.getLast? = _ := getLast?_operands f slots
    rw [hlast]
    by_cases h0 : f.place.sp = 0
    · simp only [if_pos h0]
      rfl
    · simp only [if_neg h0]
      exact ih _ f slots
  | depth k ih =>
    intro f slots
    simp only [runSlots, Script.run]
    have hlength : (f.view slots).operands.length = f.place.sp := length_operands f slots
    rw [hlength]
    exact ih _ f slots
  | operand i k ih =>
    intro f slots
    simp only [runSlots, Script.run]
    have hget : (f.view slots).operands[i]? = _ := getElem?_operands f slots i
    rw [hget]
    by_cases hi : i < f.place.sp
    · simp only [if_pos hi]
      exact ih _ f slots
    · simp only [if_neg hi]
      rfl
  | drop n k ih =>
    intro f slots
    simp only [runSlots, Script.run]
    rw [ih, view_setSp f slots (Nat.sub_le _ _)]
    have hlength : (f.view slots).operands.length = f.place.sp := length_operands f slots
    rw [hlength]
    rfl
  | getLocal slot k ih =>
    intro f slots
    simp only [runSlots, Script.run]
    have hget : (f.view slots).locals[slot]? = _ := getElem?_locals f slots slot
    rw [hget]
    by_cases hslot : slot < f.place.localCount
    · simp only [if_pos hslot]
      exact ih _ f slots
    · simp only [if_neg hslot]
      rfl
  | setLocal slot v k ih =>
    intro f slots
    simp only [runSlots, Script.run]
    have hlength : (f.view slots).locals.length = f.place.localCount := length_locals f slots
    rw [hlength]
    split
    · rename_i hslot
      rw [ih, view_setLocal f slots v hslot]
      rfl
    · rfl
  | getSelf k ih => exact fun f slots => ih _ f slots
  | getCaptured k ih => exact fun f slots => ih _ f slots
  | setCaptured v k ih =>
    intro f slots
    simp only [runSlots, Script.run]
    rw [ih, view_setCaptured]
  | homeFrameId k ih => exact fun f slots => ih _ f slots
  | getGroup k ih => exact fun f slots => ih _ f slots
  | setGroup g k ih => exact fun f slots => ih (f.setGroup g) slots

variable {slots slots' : Nat → V}

/-- A script that runs on a region runs on the lists in it. -/
theorem run_of_runSlots {s : Script V α} {f f' : SlotFrame M} {a : α}
    (h : runSlots s f slots = .ok (a, f', slots')) :
    s.run (f.view slots) = .ok (a, f'.view slots') := by
  rw [← runSlots_view, h]
  rfl

/-- A script that runs on the lists in a region runs on the region. -/
theorem runSlots_of_run {s : Script V α} {f : SlotFrame M} {slots : Nat → V} {a : α}
    {g : Activation V M} (h : s.run (f.view slots) = .ok (a, g)) :
    ∃ f' slots', runSlots s f slots = .ok (a, f', slots') ∧ f'.view slots' = g := by
  rw [← runSlots_view] at h
  cases hrun : runSlots s f slots with
  | error text =>
    rw [hrun] at h
    cases h
  | ok r =>
    rw [hrun] at h
    cases h
    exact ⟨r.2.1, r.2.2, rfl, rfl⟩

/-- The frame is the same but for what handlers change. -/
structure Kept (f f' : SlotFrame M) : Prop where
  module : f'.module = f.module
  pc : f'.pc = f.pc
  baseSlot : f'.place.baseSlot = f.place.baseSlot
  localCount : f'.place.localCount = f.place.localCount
  maxStack : f'.place.maxStack = f.place.maxStack
  frameId : f'.place.frameId = f.place.frameId
  homeFrameId : f'.place.homeFrameId = f.place.homeFrameId

theorem Kept.refl (f : SlotFrame M) : Kept f f := ⟨rfl, rfl, rfl, rfl, rfl, rfl, rfl⟩

theorem Kept.regionEnd {f f' : SlotFrame M} (h : Kept f f') :
    f'.place.regionEnd = f.place.regionEnd := by
  simp only [Frame.regionEnd, Frame.regionSize, h.baseSlot, h.localCount, h.maxStack]

/-- Slots outside the region of a frame. -/
def Outside (f : SlotFrame M) (slots slots' : Nat → V) : Prop :=
  ∀ i, i < f.place.baseSlot ∨ f.place.regionEnd ≤ i → slots' i = slots i

theorem outside_update {f : SlotFrame M} {i : Nat} {v : V}
    (hi : f.place.baseSlot ≤ i ∧ i < f.place.regionEnd)
    (h : Outside f (Function.update slots i v) slots') : Outside f slots slots' := by
  intro j hj
  rw [h j hj, Function.update_of_ne]
  omega

/-- **A script keeps to its region**, and to the room the frame has. -/
theorem runSlots_frame (s : Script V α) : ∀ (f : SlotFrame M) (slots : Nat → V) (a : α)
    (f' : SlotFrame M) (slots' : Nat → V), f.place.sp ≤ f.place.maxStack →
      runSlots s f slots = .ok (a, f', slots') →
      Kept f f' ∧ f'.place.sp ≤ f'.place.maxStack ∧ Outside f slots slots' := by
  have hregion : ∀ f : SlotFrame M, f.place.regionEnd
      = f.place.opStackBase + f.place.maxStack ∧ f.place.opStackBase
      = f.localsBase + f.place.localCount ∧ f.localsBase = f.place.baseSlot + 2 := by
    intro f
    refine ⟨?_, rfl, rfl⟩
    simp only [Frame.regionEnd, Frame.regionSize, Frame.opStackBase]
    omega
  induction s with
  | done a =>
    intro f slots b f' slots' hsp h
    cases h
    exact ⟨.refl f, hsp, fun _ _ => rfl⟩
  | fault text =>
    intro f slots a f' slots' _ h
    cases h
  | push v k ih =>
    intro f slots a f' slots' hsp h
    simp only [runSlots] at h
    split at h
    · rename_i hroom
      obtain ⟨hkept, hsp', hout⟩ :=
        ih (f.setSp (f.place.sp + 1)) _ a f' slots' hroom h
      obtain ⟨h1, h2, h3⟩ := hregion f
      exact ⟨⟨hkept.1, hkept.2, hkept.3, hkept.4, hkept.5, hkept.6, hkept.7⟩, hsp',
        outside_update (by omega) hout⟩
    · cases h
  | pop k ih =>
    intro f slots a f' slots' hsp h
    simp only [runSlots] at h
    split at h
    · cases h
    · have hle : f.place.sp - 1 ≤ f.place.maxStack := Nat.le_trans (Nat.sub_le _ _) hsp
      obtain ⟨hkept, hsp', hout⟩ :=
        ih _ (f.setSp (f.place.sp - 1)) slots a f' slots' hle h
      exact ⟨⟨hkept.1, hkept.2, hkept.3, hkept.4, hkept.5, hkept.6, hkept.7⟩, hsp', hout⟩
  | drop n k ih =>
    intro f slots a f' slots' hsp h
    have hle : f.place.sp - n ≤ f.place.maxStack := Nat.le_trans (Nat.sub_le _ _) hsp
    obtain ⟨hkept, hsp', hout⟩ := ih (f.setSp (f.place.sp - n)) slots a f' slots' hle h
    exact ⟨⟨hkept.1, hkept.2, hkept.3, hkept.4, hkept.5, hkept.6, hkept.7⟩, hsp', hout⟩
  | peek k ih =>
    intro f slots a f' slots' hsp h
    simp only [runSlots] at h
    split at h
    · cases h
    · exact ih _ f slots a f' slots' hsp h
  | operand i k ih | getLocal i k ih =>
    intro f slots a f' slots' hsp h
    simp only [runSlots] at h
    split at h
    · exact ih _ f slots a f' slots' hsp h
    · cases h
  | setLocal slot v k ih =>
    intro f slots a f' slots' hsp h
    simp only [runSlots] at h
    split at h
    · rename_i hslot
      obtain ⟨hkept, hsp', hout⟩ := ih f _ a f' slots' hsp h
      obtain ⟨h1, h2, h3⟩ := hregion f
      exact ⟨hkept, hsp', outside_update (by omega) hout⟩
    · cases h
  | setCaptured v k ih =>
    intro f slots a f' slots' hsp h
    obtain ⟨hkept, hsp', hout⟩ := ih f _ a f' slots' hsp h
    have hlt := f.place.baseSlot_lt_regionEnd
    exact ⟨hkept, hsp', outside_update (by omega) hout⟩
  | depth k ih | getSelf k ih | getCaptured k ih | homeFrameId k ih | getGroup k ih =>
    exact fun f slots a f' slots' hsp h => ih _ f slots a f' slots' hsp h
  | setGroup g k ih =>
    intro f slots a f' slots' hsp h
    obtain ⟨hkept, hsp', hout⟩ := ih (f.setGroup g) slots a f' slots' hsp h
    exact ⟨⟨hkept.1, hkept.2, hkept.3, hkept.4, hkept.5, hkept.6, hkept.7⟩, hsp', hout⟩

/-- What a region shows depends on its slots only. -/
theorem view_of_below {g : SlotFrame M} (hsame : ∀ i, i < g.place.regionEnd → slots' i = slots i)
    (hsp : g.place.sp ≤ g.place.maxStack) : g.view slots' = g.view slots := by
  have hregion : g.place.regionEnd = g.place.opStackBase + g.place.maxStack := by
    simp only [Frame.regionEnd, Frame.regionSize, Frame.opStackBase]
    omega
  have hops := opStackBase_eq g
  have hbase := localsBase_eq g
  apply view_congr
  · exact hsame _ (by omega)
  · exact hsame _ (by omega)
  · apply List.map_congr_left
    intro i hi
    rw [List.mem_range] at hi
    exact hsame _ (by omega)
  · apply List.map_congr_left
    intro i hi
    rw [List.mem_range] at hi
    exact hsame _ (by omega)

end ProtoST.Runtime.FrameSlots

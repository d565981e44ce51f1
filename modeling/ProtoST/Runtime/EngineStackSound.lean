import Mathlib.Data.List.Nodup
import ProtoST.Runtime.EngineStack

/-!
# The engines of a thread: what always holds

Frames are pushed and popped in stack order across engines, so the regions of the
live frames tile the slots up to the cursor; a frame that waits for an answer has
room for it, since its send popped a receiver; and frame ids name one activation,
on whichever thread it is and while it is suspended.

## Main results

* `sound` — the stacks of every thread fit together.
* `ids` — an id names one activation.
-/

namespace ProtoST.Runtime.EngineStack

open ProtoST.Lib

variable {T V : Type}

/-! ## Geometry -/

/-- The regions of the frames tile the slots from `base` to `cursor`. -/
def Packed (base : Nat) : List Frame → Nat → Prop
  | [], cursor => cursor = base
  | f :: below, cursor => cursor = f.regionEnd ∧ Packed base below f.baseSlot

/-- The regions of all the frames tile the slots up to `cursor`. -/
def PackedEngines : List Engine → Nat → Prop
  | [], cursor => cursor = kFrameRegionBase
  | e :: outer, cursor =>
      e.frames ≠ [] ∧ Packed e.slotBase e.frames cursor ∧ PackedEngines outer e.slotBase

theorem Frame.baseSlot_lt_regionEnd (f : Frame) : f.baseSlot < f.regionEnd := by
  simp only [Frame.regionEnd, Frame.regionSize, kHeaderSlots]
  omega

/-- A slot of the operand stack is in the region. -/
theorem Frame.opStackBase_add_lt (f : Frame) {i : Nat} (h : i < f.maxStack) :
    f.opStackBase + i < f.regionEnd := by
  simp only [Frame.regionEnd, Frame.regionSize, Frame.opStackBase]
  omega

variable {frames : List Frame}

theorem Packed.base_le {base : Nat} :
    ∀ {cursor : Nat}, Packed base frames cursor → base ≤ cursor := by
  induction frames with
  | nil =>
      intro cursor h
      exact Nat.le_of_eq h.symm
  | cons f below ih =>
      rintro cursor ⟨rfl, hbelow⟩
      have hbase := ih hbelow
      have hlt := f.baseSlot_lt_regionEnd
      omega

/-- Popping frames keeps the others packed. -/
theorem Packed.drop {base : Nat} {h : Frame} {callers popped : List Frame} :
    ∀ {cursor : Nat}, Packed base (popped ++ h :: callers) cursor →
      Packed base callers h.baseSlot ∧ h.regionEnd ≤ cursor := by
  induction popped with
  | nil =>
      rintro cursor ⟨rfl, hbelow⟩
      exact ⟨hbelow, Nat.le_refl _⟩
  | cons f below ih =>
      rintro cursor ⟨rfl, hbelow⟩
      obtain ⟨hcallers, hle⟩ := ih hbelow
      have hlt := f.baseSlot_lt_regionEnd
      exact ⟨hcallers, by omega⟩

/-! ## Unwinding one engine -/

section Popping

variable {F G : Type} {frameId : F → Nat} {home : Nat}

theorem popDownTo_eq_none {frames : List F} :
    popDownTo frameId home frames = none ↔ ∀ f ∈ frames, frameId f ≠ home := by
  induction frames with
  | nil => simp [popDownTo]
  | cons f below ih =>
      unfold popDownTo
      split
      · rename_i heq
        simp [heq]
      · rename_i hne
        simp [ih, hne]

/-- The home and its callers, and what is above them. -/
theorem popDownTo_eq_some {h : F} {callers frames : List F} :
    popDownTo frameId home frames = some (h, callers) →
      frameId h = home ∧ ∃ popped, frames = popped ++ h :: callers := by
  induction frames with
  | nil =>
      intro heq
      cases heq
  | cons f below ih =>
      intro heq
      unfold popDownTo at heq
      split at heq
      · rename_i hid
        obtain ⟨rfl, rfl⟩ := Prod.mk.inj (Option.some.inj heq)
        exact ⟨hid, [], rfl⟩
      · obtain ⟨hid, popped, hsplit⟩ := ih heq
        exact ⟨hid, f :: popped, by rw [hsplit, List.cons_append]⟩

/-- Only the ids matter. -/
theorem popDownTo_map (view : G → F) (frames : List G) :
    popDownTo frameId home (frames.map view) =
      (popDownTo (fun f => frameId (view f)) home frames).map
        fun r => (view r.1, r.2.map view) := by
  induction frames with
  | nil => rfl
  | cons f below ih =>
      rw [List.map_cons, popDownTo, popDownTo, ih]
      split <;> rfl

end Popping

/-! ## One thread -/

/-- The frames of an engine hold no more than they have room for, and one that waits
for an answer has room for it. -/
def Room (calling : Bool) : List Frame → Prop
  | [] => True
  | f :: below =>
      f.sp ≤ f.maxStack ∧ (calling = true → f.sp < f.maxStack) ∧
        ∀ g ∈ below, g.sp < g.maxStack

/-- The stacks of a thread fit together. -/
structure Thread.Sound (t : Thread V) : Prop where
  packed : PackedEngines t.engines t.slotCursor
  room : ∀ e ∈ t.engines, Room e.calling e.frames
  /-- The primitive that runs a nested engine is running. -/
  outer : ∀ e ∈ t.engines.tail, e.calling = true

/-- After popping down to a home, its caller has room for the answer. -/
theorem Room.drop {calling : Bool} {h caller : Frame} {popped callers : List Frame}
    (hroom : Room calling (popped ++ h :: caller :: callers)) :
    caller.sp < caller.maxStack ∧ ∀ g ∈ callers, g.sp < g.maxStack := by
  cases popped with
  | nil =>
      obtain ⟨-, -, hbelow⟩ := hroom
      exact ⟨hbelow _ (by simp), fun g hg => hbelow g (by simp [hg])⟩
  | cons f rest =>
      obtain ⟨-, -, hbelow⟩ := hroom
      exact ⟨hbelow _ (by simp), fun g hg => hbelow g (by simp [hg])⟩

/-- A frame handed an answer. -/
theorem Room.pushed {caller : Frame} {callers : List Frame}
    (hcaller : caller.sp < caller.maxStack) (hcallers : ∀ g ∈ callers, g.sp < g.maxStack) :
    Room false (caller.pushed :: callers) :=
  ⟨hcaller, by simp, hcallers⟩

section Sound

variable {t : Thread V} {e : Engine} {outer : List Engine}

/-- The innermost engine can be left. -/
theorem Thread.Sound.leave (h : t.Sound) (hengines : t.engines = e :: outer) :
    (t.leave e outer).Sound := by
  obtain ⟨hpacked, hroom, houter⟩ := h
  rw [hengines] at hpacked hroom houter
  refine ⟨hpacked.2.2, fun e' he' => ?_, fun e' he' => ?_⟩
  · exact hroom e' (List.mem_cons_of_mem _ he')
  · exact houter e' (List.mem_of_mem_tail he')

/-- The caller of the home has room, and gets the answer. -/
theorem Thread.Sound.land (h : t.Sound) (hengines : t.engines = e :: outer)
    {home caller : Frame} {popped callers : List Frame} {v : Option V}
    (hframes : e.frames = popped ++ home :: caller :: callers) :
    ∃ t', t.pushOn e outer home.baseSlot caller callers v = some t' ∧ t'.Sound := by
  obtain ⟨hpacked, hroom, houter⟩ := h
  rw [hengines] at hpacked hroom houter
  have hroom' := hroom e (by simp)
  rw [hframes] at hroom'
  obtain ⟨hcaller, hcallers⟩ := hroom'.drop
  have hpacked' := hpacked.2.1
  rw [hframes] at hpacked'
  refine ⟨_, if_pos hcaller, ?_, ?_, ?_⟩
  · exact ⟨by simp, hpacked'.drop.1, hpacked.2.2⟩
  · intro e' he'
    rcases List.mem_cons.mp he' with rfl | he'
    · exact .pushed hcaller hcallers
    · exact hroom e' (by simp [he'])
  · exact houter

variable {native : Native}

/-- The innermost engine is as deep as it was, with another frame on top. -/
theorem Thread.Sound.top {f f' : Frame} {below : List Frame} {base : Nat}
    {calling calling' : Bool} (h : t.Sound)
    (hengines : t.engines = ⟨f :: below, base, native, calling⟩ :: outer)
    (hroom : Room calling' (f' :: below)) (hbase : f'.baseSlot = f.baseSlot)
    (hend : f'.regionEnd = f.regionEnd) :
    ({ t with engines := ⟨f' :: below, base, native, calling'⟩ :: outer } : Thread V).Sound := by
  obtain ⟨hpacked, hrooms, houter⟩ := h
  rw [hengines] at hpacked hrooms houter
  refine ⟨⟨by simp, ⟨?_, ?_⟩, hpacked.2.2⟩, ?_, houter⟩
  · rw [hend]
    exact hpacked.2.1.1
  · rw [hbase]
    exact hpacked.2.1.2
  · intro e' he'
    rcases List.mem_cons.mp he' with rfl | he'
    · exact hroom
    · exact hrooms e' (List.mem_cons_of_mem _ he')

/-- What the frames of the innermost engine have room for. -/
theorem Thread.Sound.room_top (h : t.Sound) (hengines : t.engines = e :: outer) :
    Room e.calling e.frames := by
  apply h.room
  rw [hengines]
  exact List.mem_cons_self

/-- An engine starts on packed frames. -/
theorem Thread.Sound.runEngine (h : t.Sound) (hnative : t.InNative = true)
    {frames : List Frame} {cursor : Nat} (hne : frames ≠ [])
    (hpacked : Packed t.slotCursor frames cursor) (hroom : Room false frames) :
    (t.runEngine native frames cursor).Sound := by
  refine ⟨⟨hne, hpacked, h.packed⟩, ?_, ?_⟩
  · intro e' he'
    rcases List.mem_cons.mp he' with rfl | he'
    · exact hroom
    · exact h.room e' he'
  · intro e' he'
    have he'' : e' ∈ t.engines := he'
    unfold Thread.InNative at hnative
    cases hengines : t.engines with
    | nil =>
        rw [hengines] at he''
        cases he''
    | cons e outer =>
        rw [hengines] at hnative he''
        rcases List.mem_cons.mp he'' with rfl | hmem
        · exact hnative
        · apply h.outer
          rw [hengines]
          exact hmem

/-- A send pushes a frame. -/
theorem Thread.Sound.call {f : Frame} {below : List Frame} {base : Nat}
    (h : t.Sound)
    (hengines : t.engines = ⟨f :: below, base, native, false⟩ :: outer)
    {argc frameId : Nat} (hargc : argc + 1 ≤ f.sp) (callee : Callee) :
    ({ t with
      engines := ⟨callee.frame t.slotCursor frameId ::
        { f with sp := f.sp - (argc + 1) } :: below, base, native, false⟩ :: outer
      slotCursor := (callee.frame t.slotCursor frameId).regionEnd } : Thread V).Sound := by
  have hroom := h.room_top hengines
  obtain ⟨hpacked, hrooms, houter⟩ := h
  rw [hengines] at hpacked hrooms houter
  obtain ⟨hsp, -, hbelow⟩ := hroom
  refine ⟨⟨by simp, ⟨rfl, ?_, ?_⟩, hpacked.2.2⟩, ?_, houter⟩
  · exact hpacked.2.1.1
  · exact hpacked.2.1.2
  · intro e' he'
    rcases List.mem_cons.mp he' with rfl | he'
    · refine ⟨Nat.zero_le _, by simp, fun g hg => ?_⟩
      rcases List.mem_cons.mp hg with rfl | hg
      · dsimp only
        omega
      · exact hbelow g hg
    · exact hrooms e' (List.mem_cons_of_mem _ he')

end Sound

/-! ## Restored frames -/

/-- Restored frames are packed from the cursor on. -/
theorem packed_restoreFrames (snapshot : List Frame) (cursor : Nat) :
    Packed cursor (restoreFrames snapshot cursor).1 (restoreFrames snapshot cursor).2 := by
  induction snapshot with
  | nil => rfl
  | cons f below ih => exact ⟨rfl, ih⟩

/-- A restored frame is the frame it was, elsewhere. -/
theorem mem_restoreFrames {snapshot : List Frame} {cursor : Nat} {g : Frame}
    (h : g ∈ (restoreFrames snapshot cursor).1) :
    ∃ f ∈ snapshot, g = { f with baseSlot := g.baseSlot } := by
  induction snapshot with
  | nil => cases h
  | cons f below ih =>
      rcases List.mem_cons.mp h with rfl | h
      · exact ⟨f, by simp, rfl⟩
      · obtain ⟨f', hf', heq⟩ := ih h
        exact ⟨f', List.mem_cons_of_mem _ hf', heq⟩

/-- Restoring keeps the ids. -/
theorem frameIds_restoreFrames (snapshot : List Frame) (cursor : Nat) :
    (restoreFrames snapshot cursor).1.map Frame.frameId = snapshot.map Frame.frameId := by
  induction snapshot with
  | nil => rfl
  | cons f below ih => simp [restoreFrames, ih]

/-! ## What an action does -/

variable [DecidableEq T]

/-- The actions, by their effect. -/
inductive Does (s : State T V) : Action T V → State T V → Prop
  | run {t : T} {native : Native} {callee : Callee} :
      (s.thread t).InNative = true →
      Does s (.run t native callee)
        { (s.set t ((s.thread t).runEngine native
            [callee.frame (s.thread t).slotCursor s.nextFrameId]
            (callee.frame (s.thread t).slotCursor s.nextFrameId).regionEnd)) with
          nextFrameId := s.nextFrameId + 1 }
  | advance {t : T} {sp base : Nat} {f : Frame} {below : List Frame} {native : Native}
      {outer : List Engine} :
      (s.thread t).engines = ⟨f :: below, base, native, false⟩ :: outer →
      sp ≤ f.maxStack →
      Does s (.advance t sp) (s.set t { s.thread t with
        engines := ⟨{ f with sp := sp } :: below, base, native, false⟩ :: outer })
  | store {t : T} {slot : Nat} {v : Option V} {e : Engine} {outer : List Engine}
      {f : Frame} {below : List Frame} :
      (s.thread t).engines = e :: outer → e.frames = f :: below → e.calling = false →
      f.baseSlot ≤ slot → slot < f.regionEnd →
      Does s (.store t slot v) (s.set t { s.thread t with
        slots := Function.update (s.thread t).slots slot v })
  | call {t : T} {argc base : Nat} {callee : Callee} {f : Frame} {below : List Frame}
      {native : Native} {outer : List Engine} :
      (s.thread t).engines = ⟨f :: below, base, native, false⟩ :: outer →
      argc + 1 ≤ f.sp →
      Does s (.call t argc callee) { (s.set t { s.thread t with
          engines := ⟨callee.frame (s.thread t).slotCursor s.nextFrameId ::
            { f with sp := f.sp - (argc + 1) } :: below, base, native, false⟩ :: outer
          slotCursor := (callee.frame (s.thread t).slotCursor s.nextFrameId).regionEnd }) with
        nextFrameId := s.nextFrameId + 1 }
  | enter {t : T} {argc base : Nat} {f : Frame} {below : List Frame} {native : Native}
      {outer : List Engine} :
      (s.thread t).engines = ⟨f :: below, base, native, false⟩ :: outer →
      argc + 1 ≤ f.sp →
      Does s (.enter t argc) (s.set t { s.thread t with
        engines := ⟨{ f with sp := f.sp - (argc + 1) } :: below, base, native, true⟩ :: outer })
  | answer {t : T} {base : Nat} {v : Option V} {f : Frame} {below : List Frame}
      {native : Native} {outer : List Engine} {th : Thread V} :
      (s.thread t).engines = ⟨f :: below, base, native, true⟩ :: outer →
      (s.thread t).pushOn ⟨f :: below, base, native, true⟩ outer
        (s.thread t).slotCursor f below v = some th →
      Does s (.answer t v) (s.set t th)
  | localReturn {t : T} {e : Engine} {outer : List Engine} {f : Frame}
      {below : List Frame} {v : Option V} {s' : State T V} :
      (s.thread t).engines = e :: outer → e.frames = f :: below → e.calling = false →
      s.land t e outer f.frameId v = some s' → Does s (.localReturn t v) s'
  | land {t : T} {e : Engine} {outer : List Engine} {home : Nat} {v : Option V}
      {s' : State T V} :
      (s.thread t).engines = e :: outer → s.land t e outer home v = some s' →
      Does s (.land t home v) s'
  | raise {t : T} {e : Engine} {outer : List Engine} :
      (s.thread t).engines = e :: outer →
      Does s (.raise t) (s.set t ((s.thread t).leave e outer))
  | yield {t : T} {e : Engine} :
      (s.thread t).engines = [e] → e.calling = true →
      Does s (.yield t) { (s.set t ((s.thread t).leave e [])) with
        suspended := e.frames :: s.suspended }
  | resume {t : T} {snapshot below : List Frame} {v : Option V} {f : Frame} {cursor : Nat}
      {th : Thread V} :
      (s.thread t).InNative = true → snapshot ∈ s.suspended →
      restoreFrames snapshot (s.thread t).slotCursor = (f :: below, cursor) →
      ((s.thread t).runEngine .turn (f :: below) cursor).pushOn
        ⟨f :: below, (s.thread t).slotCursor, .turn, false⟩ (s.thread t).engines cursor
        f below v = some th →
      Does s (.resume t snapshot v) { (s.set t th) with
        suspended := s.suspended.erase snapshot }

variable {s s' : State T V} {a : Action T V}

/-- The step function does what `Does` says. -/
theorem does_of_step (h : s.step a = some s') : Does s a s' := by
  cases a with
  | run t native callee =>
      obtain ⟨hnative, rfl⟩ := guarded h
      exact .run hnative
  | advance t sp =>
      simp only [State.step] at h
      split at h
      · rename_i hengines
        obtain ⟨hsp, rfl⟩ := guarded h
        exact .advance hengines hsp
      · cases h
  | store t slot v =>
      simp only [State.step] at h
      split at h
      · rename_i hengines
        obtain ⟨hslot, rfl⟩ := guarded h
        exact .store hengines rfl rfl hslot.1 hslot.2
      · cases h
  | call t argc callee =>
      simp only [State.step] at h
      split at h
      · rename_i hengines
        obtain ⟨hargc, rfl⟩ := guarded h
        exact .call hengines hargc
      · cases h
  | enter t argc =>
      simp only [State.step] at h
      split at h
      · rename_i hengines
        obtain ⟨hargc, rfl⟩ := guarded h
        exact .enter hengines hargc
      · cases h
  | answer t v =>
      simp only [State.step] at h
      split at h
      · rename_i hengines
        obtain ⟨th, hth, rfl⟩ := Option.map_eq_some_iff.mp h
        exact .answer hengines hth
      · cases h
  | localReturn t v =>
      simp only [State.step] at h
      split at h
      · rename_i hengines
        exact .localReturn hengines rfl rfl h
      · cases h
  | land t home v =>
      simp only [State.step] at h
      split at h
      · rename_i hengines
        exact .land hengines h
      · cases h
  | raise t =>
      simp only [State.step] at h
      split at h
      · rename_i hengines
        obtain rfl := Option.some.inj h
        exact .raise hengines
      · cases h
  | yield t =>
      simp only [State.step] at h
      split at h
      · rename_i hengines
        obtain rfl := Option.some.inj h
        exact .yield hengines rfl
      · cases h
  | resume t snapshot v =>
      simp only [State.step] at h
      split at h
      · rename_i hin
        split at h
        · rename_i hrestore
          obtain ⟨th, hth, rfl⟩ := Option.map_eq_some_iff.mp h
          exact .resume hin.1 hin.2 hrestore hth
        · cases h
      · cases h

variable {outer : List Engine} {v : Option V} {e : Engine} {home : Nat}

/-- What a landing leaves behind: the engine without the popped frames, or nothing
of it. -/
theorem land_cases {t : T} (h : s.land t e outer home v = some s') :
    ∃ hf popped callers, e.frames = popped ++ hf :: callers ∧ hf.frameId = home ∧
      popDownTo Frame.frameId home e.frames = some (hf, callers) ∧
      ((callers = [] ∧ s' = s.set t ((s.thread t).leave e outer)) ∨
        ∃ caller rest th, callers = caller :: rest ∧
          (s.thread t).pushOn e outer hf.baseSlot caller rest v = some th ∧
          s' = s.set t th) := by
  unfold State.land at h
  split at h
  · cases h
  · rename_i hf hpop
    obtain ⟨hid, popped, hsplit⟩ := popDownTo_eq_some hpop
    obtain rfl := Option.some.inj h
    exact ⟨hf, popped, [], hsplit, hid, hpop, .inl ⟨rfl, rfl⟩⟩
  · rename_i hf caller rest hpop
    obtain ⟨hid, popped, hsplit⟩ := popDownTo_eq_some hpop
    obtain ⟨th, hth, rfl⟩ := Option.map_eq_some_iff.mp h
    exact ⟨hf, popped, caller :: rest, hsplit, hid, hpop, .inr ⟨caller, rest, th, rfl, hth, rfl⟩⟩

/-- What a thread's push leaves behind. -/
theorem pushOn_eq_some {t th : Thread V} {cursor : Nat} {caller : Frame} {callers : List Frame}
    (h : t.pushOn e outer cursor caller callers v = some th) :
    caller.sp < caller.maxStack ∧
      th = { t with
        engines := { e with frames := caller.pushed :: callers, calling := false } :: outer
        slotCursor := cursor
        slots := Function.update t.slots (caller.opStackBase + caller.sp) v } := by
  unfold Thread.pushOn at h
  split at h
  · rename_i hsp
    exact ⟨hsp, (Option.some.inj h).symm⟩
  · cases h

/-! ## The stacks of every thread -/

/-- The stacks of every thread fit together, and every suspended frame has room for
the answer it waits for. -/
structure State.Sound (s : State T V) : Prop where
  thread : ∀ t, (s.thread t).Sound
  room : ∀ frames ∈ s.suspended, ∀ f ∈ frames, f.sp < f.maxStack

theorem sound_initial (h : machine.init s) : s.Sound := by
  obtain ⟨hsuspended, -, hthreads⟩ := h
  refine ⟨fun t => ?_, fun frames hframes => ?_⟩
  · obtain ⟨hengines, hcursor⟩ := hthreads t
    refine ⟨?_, ?_, ?_⟩
    · rw [hengines]
      exact hcursor
    · simp [hengines]
    · simp [hengines]
  · simp [hsuspended] at hframes

/-- What a thread holds in its slots does not matter. -/
theorem Thread.Sound.of_eq {t t' : Thread V} (h : t.Sound) (hengines : t'.engines = t.engines)
    (hcursor : t'.slotCursor = t.slotCursor) : t'.Sound := by
  obtain ⟨hpacked, hroom, houter⟩ := h
  refine ⟨?_, ?_, ?_⟩
  · rw [hengines, hcursor]
    exact hpacked
  · rw [hengines]
    exact hroom
  · rw [hengines]
    exact houter

theorem State.Sound.set (h : s.Sound) (t : T) {th : Thread V} (hth : th.Sound) :
    (s.set t th).Sound := by
  refine ⟨fun u => ?_, h.room⟩
  by_cases hu : u = t
  · subst hu
    simpa [State.set] using hth
  · simpa [State.set, Function.update_of_ne hu] using h.thread u

/-- The frames of an engine whose primitive runs have room for an answer. -/
theorem Room.waiting (h : Room true frames) :
    ∀ f ∈ frames, f.sp < f.maxStack := by
  cases frames with
  | nil => simp
  | cons f below =>
      obtain ⟨-, htop, hbelow⟩ := h
      intro g hg
      rcases List.mem_cons.mp hg with rfl | hg
      · exact htop rfl
      · exact hbelow g hg

/-- A landing. -/
theorem State.Sound.land (h : s.Sound) {t : T} (hengines : (s.thread t).engines = e :: outer)
    (hland : s.land t e outer home v = some s') : s'.Sound := by
  obtain ⟨hf, popped, callers, hsplit, -, -, hcases⟩ := land_cases hland
  rcases hcases with ⟨-, rfl⟩ | ⟨caller, rest, th, rfl, hpush, rfl⟩
  · exact h.set t ((h.thread t).leave hengines)
  · obtain ⟨th', hth', hsound⟩ := (h.thread t).land (v := v) hengines hsplit
    rw [hpush] at hth'
    obtain rfl := Option.some.inj hth'
    exact h.set t hsound

theorem sound_step (hdoes : Does s a s') (h : s.Sound) : s'.Sound := by
  cases hdoes with
  | run hnative =>
      rename_i t native callee
      let f := callee.frame (s.thread t).slotCursor s.nextFrameId
      have hth : ((s.thread t).runEngine native [f] f.regionEnd).Sound :=
        (h.thread t).runEngine hnative (by simp) ⟨rfl, rfl⟩ ⟨Nat.zero_le _, by simp, by simp⟩
      have hset := h.set t hth
      exact ⟨hset.thread, hset.room⟩
  | advance hengines hsp =>
      rename_i t sp base f below native outer
      have hroom := (h.thread t).room_top hengines
      exact h.set t ((h.thread t).top hengines ⟨hsp, by simp, hroom.2.2⟩ rfl rfl)
  | store _ _ _ _ _ => exact h.set _ ((h.thread _).of_eq rfl rfl)
  | call hengines hargc =>
      rename_i t argc base callee f below native outer
      have hset := h.set t (@Thread.Sound.call _ _ _ _ _ _ _ (h.thread t) hengines argc
        s.nextFrameId hargc callee)
      exact ⟨hset.thread, hset.room⟩
  | enter hengines hargc =>
      rename_i t argc base f below native outer
      have hroom := (h.thread t).room_top hengines
      have hsp : f.sp - (argc + 1) < f.maxStack := by
        have hle := hroom.1
        omega
      refine h.set t ((h.thread t).top hengines ⟨?_, fun _ => hsp, hroom.2.2⟩ rfl rfl)
      exact Nat.le_of_lt hsp
  | answer hengines hpush =>
      rename_i t base v f below native outer th
      have hroom := (h.thread t).room_top hengines
      obtain ⟨hsp, rfl⟩ := pushOn_eq_some hpush
      have htop := (h.thread t).top hengines (Room.pushed hsp hroom.2.2) rfl rfl
      exact h.set t (htop.of_eq rfl rfl)
  | localReturn hengines _ _ hland => exact h.land hengines hland
  | land hengines hland => exact h.land hengines hland
  | raise hengines => exact h.set _ ((h.thread _).leave hengines)
  | yield hengines hcalling =>
      rename_i t e
      have hset := h.set t ((h.thread t).leave hengines)
      refine ⟨hset.thread, fun frames hframes => ?_⟩
      rcases List.mem_cons.mp hframes with rfl | hframes
      · have hroom := (h.thread t).room_top hengines
        rw [hcalling] at hroom
        exact hroom.waiting
      · exact h.room frames hframes
  | resume hnative hmem hrestore hpush =>
      rename_i t snapshot below v f cursor th
      have hpacked := packed_restoreFrames snapshot (s.thread t).slotCursor
      have hwaiting : ∀ g ∈ f :: below, g.sp < g.maxStack := by
        intro g hg
        have hmem' : g ∈ (restoreFrames snapshot (s.thread t).slotCursor).1 := by
          rw [hrestore]
          exact hg
        obtain ⟨g', hg', heq⟩ := mem_restoreFrames hmem'
        rw [heq]
        exact h.room _ hmem g' hg'
      rw [hrestore] at hpacked
      obtain ⟨hsp, hth⟩ := pushOn_eq_some hpush
      have hbelow : ∀ g ∈ below, g.sp < g.maxStack := fun g hg =>
        hwaiting g (List.mem_cons_of_mem _ hg)
      have hrun : ((s.thread t).runEngine .turn (f :: below) cursor).Sound :=
        (h.thread t).runEngine hnative (by simp) hpacked
          ⟨Nat.le_of_lt hsp, by simp, hbelow⟩
      have htop := hrun.top rfl (Room.pushed hsp hbelow) rfl rfl
      have hsound : th.Sound := by
        rw [hth]
        exact htop.of_eq rfl rfl
      refine ⟨(h.set t hsound).thread, fun frames hframes => ?_⟩
      exact h.room frames (List.mem_of_mem_erase hframes)

/-- The stacks fit together in every reachable state. -/
theorem sound (h : machine.Reachable s) : s.Sound := by
  induction h with
  | init hs => exact sound_initial hs
  | step a _ _ hstep ih => exact sound_step (does_of_step hstep) ih

/-! ## Frame ids -/

/-- The ids of the suspended frames. -/
def State.suspendedIds (s : State T V) : List Nat :=
  s.suspended.flatMap fun frames => frames.map Frame.frameId

/-- An id names one activation. -/
structure State.Ids (s : State T V) : Prop where
  nodup : ∀ t, (s.thread t).frameIds.Nodup
  apart : ∀ t u, t ≠ u → (s.thread t).frameIds.Disjoint (s.thread u).frameIds
  suspended : s.suspendedIds.Nodup
  away : ∀ t, (s.thread t).frameIds.Disjoint s.suspendedIds
  used : ∀ t, ∀ id ∈ (s.thread t).frameIds, 0 < id ∧ id < s.nextFrameId
  usedSuspended : ∀ id ∈ s.suspendedIds, 0 < id ∧ id < s.nextFrameId
  next : 0 < s.nextFrameId

/-- What an action of the thread `t` does to the ids. -/
inductive IdMove (t : T) (s s' : State T V) : Prop
  /-- Activations end, or nothing changes. -/
  | ends : (s'.thread t).frameIds.Sublist (s.thread t).frameIds →
      s'.suspended = s.suspended → s'.nextFrameId = s.nextFrameId → IdMove t s s'
  /-- One starts. -/
  | starts : (s'.thread t).frameIds = s.nextFrameId :: (s.thread t).frameIds →
      s'.suspended = s.suspended → s'.nextFrameId = s.nextFrameId + 1 → IdMove t s s'
  /-- They are suspended. -/
  | suspends (frames : List Frame) :
      (s.thread t).frameIds = frames.map Frame.frameId → (s'.thread t).frameIds = [] →
      s'.suspended = frames :: s.suspended → s'.nextFrameId = s.nextFrameId →
      IdMove t s s'
  /-- They go on. -/
  | restores (frames : List Frame) :
      (s'.thread t).frameIds = frames.map Frame.frameId ++ (s.thread t).frameIds →
      frames ∈ s.suspended → s'.suspended = s.suspended.erase frames →
      s'.nextFrameId = s.nextFrameId → IdMove t s s'

/-- The thread an action belongs to. -/
def Action.thread : Action T V → T
  | .run t _ _ | .advance t _ | .store t _ _ | .call t _ _ | .enter t _ | .answer t _
  | .localReturn t _ | .land t _ _ | .raise t | .yield t | .resume t _ _ => t

/-- A landing leaves the other threads alone. -/
theorem land_other {t u : T} (h : s.land t e outer home v = some s') (hu : u ≠ t) :
    s'.thread u = s.thread u := by
  obtain ⟨_, _, _, _, _, _, hcases⟩ := land_cases h
  rcases hcases with ⟨_, rfl⟩ | ⟨_, _, _, _, _, rfl⟩ <;>
    simp [State.set, Function.update_of_ne hu]

/-- A thread acts on itself. -/
theorem thread_other {u : T} (hdoes : Does s a s') (hu : u ≠ a.thread) :
    s'.thread u = s.thread u := by
  cases hdoes with
  | localReturn _ _ _ hland => exact land_other hland hu
  | land _ hland => exact land_other hland hu
  | run | advance | store | call | enter | answer | raise | yield | resume =>
      exact Function.update_of_ne hu _ _

/-- A landing ends activations. -/
theorem idMove_of_land {t : T} (hengines : (s.thread t).engines = e :: outer)
    (h : s.land t e outer home v = some s') : IdMove t s s' := by
  obtain ⟨hf, popped, callers, hsplit, -, -, hcases⟩ := land_cases h
  rcases hcases with ⟨-, rfl⟩ | ⟨caller, rest, th, rfl, hpush, rfl⟩
  · refine .ends ?_ rfl rfl
    simp [Thread.frameIds, State.set, Thread.leave, hengines]
  · obtain ⟨-, rfl⟩ := pushOn_eq_some hpush
    refine .ends ?_ rfl rfl
    simp [Thread.frameIds, State.set, hengines, hsplit, Frame.pushed]

theorem idMove_of_does (hdoes : Does s a s') : IdMove a.thread s s' := by
  cases hdoes with
  | run hnative =>
      refine .starts ?_ rfl rfl
      simp [Action.thread, Thread.frameIds, State.set, Thread.runEngine, Callee.frame]
  | advance hengines _ =>
      refine .ends ?_ rfl rfl
      simp [Action.thread, Thread.frameIds, State.set, hengines]
  | store _ _ _ _ _ =>
      refine .ends ?_ rfl rfl
      simp [Action.thread, Thread.frameIds, State.set]
  | call hengines _ =>
      refine .starts ?_ rfl rfl
      simp [Action.thread, Thread.frameIds, State.set, Callee.frame, hengines]
  | enter hengines _ =>
      refine .ends ?_ rfl rfl
      simp [Action.thread, Thread.frameIds, State.set, hengines]
  | answer hengines hpush =>
      obtain ⟨-, rfl⟩ := pushOn_eq_some hpush
      refine .ends ?_ rfl rfl
      simp [Action.thread, Thread.frameIds, State.set, hengines, Frame.pushed]
  | localReturn hengines _ _ hland => exact idMove_of_land hengines hland
  | land hengines hland => exact idMove_of_land hengines hland
  | raise hengines =>
      refine .ends ?_ rfl rfl
      simp [Action.thread, Thread.frameIds, State.set, Thread.leave, hengines]
  | yield hengines _ =>
      refine .suspends _ ?_ ?_ rfl rfl
      · simp [Action.thread, Thread.frameIds, hengines]
      · simp [Action.thread, Thread.frameIds, State.set, Thread.leave]
  | resume hnative hmem hrestore hpush =>
      rename_i t snapshot below v f cursor th
      obtain ⟨-, rfl⟩ := pushOn_eq_some hpush
      refine .restores snapshot ?_ hmem rfl rfl
      rw [← frameIds_restoreFrames snapshot (s.thread t).slotCursor, hrestore]
      simp [Action.thread, Thread.frameIds, State.set, Frame.pushed]

omit [DecidableEq T] in
/-- Splitting off a suspended snapshot. -/
theorem suspendedIds_erase (h : frames ∈ s.suspended) :
    s.suspendedIds.Perm (frames.map Frame.frameId ++
      (s.suspended.erase frames).flatMap fun frames => frames.map Frame.frameId) :=
  (List.perm_cons_erase h).flatMap_right _

theorem ids_initial (h : machine.init s) : s.Ids := by
  obtain ⟨hsuspended, hnext, hthreads⟩ := h
  have hids : ∀ t, (s.thread t).frameIds = [] := by
    intro t
    simp [Thread.frameIds, (hthreads t).1]
  have hsusp : s.suspendedIds = [] := by simp [State.suspendedIds, hsuspended]
  constructor <;> simp [hids, hsusp, hnext]

section Moves

variable {t : T} (hother : ∀ u, u ≠ t → (s'.thread u).frameIds = (s.thread u).frameIds)
include hother

/-- Activations of the thread `t` end. -/
theorem State.Ids.ends (h : s.Ids)
    (hsub : (s'.thread t).frameIds.Sublist (s.thread t).frameIds)
    (hsusp : s'.suspended = s.suspended) (hnext : s'.nextFrameId = s.nextFrameId) : s'.Ids := by
  have hsusp' : s'.suspendedIds = s.suspendedIds := by
    simp only [State.suspendedIds, hsusp]
  have hthread : ∀ u, (s'.thread u).frameIds.Sublist (s.thread u).frameIds := by
    intro u
    by_cases hu : u = t
    · rw [hu]
      exact hsub
    · rw [hother u hu]
  constructor
  · exact fun u => (h.nodup u).sublist (hthread u)
  · intro u w hne id hu hw
    exact h.apart u w hne ((hthread u).subset hu) ((hthread w).subset hw)
  · rw [hsusp']
    exact h.suspended
  · intro u id hu hid
    rw [hsusp'] at hid
    exact h.away u ((hthread u).subset hu) hid
  · intro u id hu
    rw [hnext]
    exact h.used u id ((hthread u).subset hu)
  · rw [hsusp', hnext]
    exact h.usedSuspended
  · rw [hnext]
    exact h.next

/-- One starts, under the next id. -/
theorem State.Ids.starts (h : s.Ids)
    (hids : (s'.thread t).frameIds = s.nextFrameId :: (s.thread t).frameIds)
    (hsusp : s'.suspended = s.suspended) (hnext : s'.nextFrameId = s.nextFrameId + 1) : s'.Ids := by
  have hsusp' : s'.suspendedIds = s.suspendedIds := by
    simp only [State.suspendedIds, hsusp]
  have hold : ∀ u, ∀ id ∈ (s'.thread u).frameIds,
      (u = t ∧ id = s.nextFrameId) ∨ id ∈ (s.thread u).frameIds := by
    intro u id hid
    by_cases hu : u = t
    · subst hu
      rw [hids] at hid
      rcases List.mem_cons.mp hid with heq | hid
      · exact .inl ⟨rfl, heq⟩
      · exact .inr hid
    · rw [hother u hu] at hid
      exact .inr hid
  have hnew : ∀ u, s.nextFrameId ∉ (s.thread u).frameIds := fun u hid =>
    Nat.lt_irrefl _ (h.used u _ hid).2
  constructor
  · intro u
    by_cases hu : u = t
    · subst hu
      rw [hids]
      exact List.nodup_cons.mpr ⟨hnew _, h.nodup _⟩
    · rw [hother u hu]
      exact h.nodup u
  · intro u w hne id hu hw
    rcases hold u id hu with ⟨rfl, rfl⟩ | hu'
    · rcases hold w _ hw with ⟨rfl, -⟩ | hw'
      · exact hne rfl
      · exact hnew w hw'
    · rcases hold w id hw with ⟨rfl, rfl⟩ | hw'
      · exact hnew u hu'
      · exact h.apart u w hne hu' hw'
  · rw [hsusp']
    exact h.suspended
  · intro u id hu hid
    rw [hsusp'] at hid
    rcases hold u id hu with ⟨-, rfl⟩ | hu'
    · exact Nat.lt_irrefl _ (h.usedSuspended _ hid).2
    · exact h.away u hu' hid
  · intro u id hu
    have hpos := h.next
    rcases hold u id hu with ⟨-, rfl⟩ | hu'
    · omega
    · have hused := h.used u id hu'
      omega
  · intro id hid
    rw [hsusp'] at hid
    have hused := h.usedSuspended id hid
    omega
  · omega

/-- The activations of `t` are suspended. -/
theorem State.Ids.suspends (h : s.Ids) {frames : List Frame}
    (hids : (s.thread t).frameIds = frames.map Frame.frameId) (hnone : (s'.thread t).frameIds = [])
    (hsusp : s'.suspended = frames :: s.suspended) (hnext : s'.nextFrameId = s.nextFrameId) :
      s'.Ids := by
  have hsusp' : s'.suspendedIds = (s.thread t).frameIds ++ s.suspendedIds := by
    simp only [State.suspendedIds, hsusp, hids, List.flatMap_cons]
  have hthread : ∀ u, ∀ id ∈ (s'.thread u).frameIds,
      u ≠ t ∧ id ∈ (s.thread u).frameIds := by
    intro u id hid
    by_cases hu : u = t
    · subst hu
      rw [hnone] at hid
      cases hid
    · rw [hother u hu] at hid
      exact ⟨hu, hid⟩
  constructor
  · intro u
    by_cases hu : u = t
    · subst hu
      rw [hnone]
      exact List.nodup_nil
    · rw [hother u hu]
      exact h.nodup u
  · intro u w hne id hu hw
    exact h.apart u w hne (hthread u id hu).2 (hthread w id hw).2
  · rw [hsusp']
    exact List.nodup_append'.mpr ⟨h.nodup t, h.suspended, h.away t⟩
  · intro u id hu hid
    obtain ⟨hne, hu'⟩ := hthread u id hu
    rw [hsusp'] at hid
    rcases List.mem_append.mp hid with hid | hid
    · exact h.apart u t hne hu' hid
    · exact h.away u hu' hid
  · intro u id hu
    rw [hnext]
    exact h.used u id (hthread u id hu).2
  · intro id hid
    rw [hsusp'] at hid
    rw [hnext]
    rcases List.mem_append.mp hid with hid | hid
    · exact h.used t id hid
    · exact h.usedSuspended id hid
  · rw [hnext]
    exact h.next

/-- Suspended activations go on in `t`. -/
theorem State.Ids.restores (h : s.Ids) {frames : List Frame}
    (hids : (s'.thread t).frameIds = frames.map Frame.frameId ++ (s.thread t).frameIds)
    (hmem : frames ∈ s.suspended) (hsusp : s'.suspended = s.suspended.erase frames)
    (hnext : s'.nextFrameId = s.nextFrameId) : s'.Ids := by
  have hperm : s.suspendedIds.Perm (frames.map Frame.frameId ++ s'.suspendedIds) := by
    simp only [State.suspendedIds, hsusp]
    exact suspendedIds_erase hmem
  have hsplit := List.nodup_append'.mp (hperm.nodup_iff.mp h.suspended)
  have hold : ∀ u, ∀ id ∈ (s'.thread u).frameIds,
      (u = t ∧ id ∈ frames.map Frame.frameId) ∨ id ∈ (s.thread u).frameIds := by
    intro u id hid
    by_cases hu : u = t
    · subst hu
      rw [hids] at hid
      rcases List.mem_append.mp hid with hid | hid
      · exact .inl ⟨rfl, hid⟩
      · exact .inr hid
    · rw [hother u hu] at hid
      exact .inr hid
  have hfrom : ∀ id ∈ frames.map Frame.frameId, id ∈ s.suspendedIds := fun id hid =>
    hperm.mem_iff.mpr (List.mem_append_left _ hid)
  have hrest : ∀ id ∈ s'.suspendedIds, id ∈ s.suspendedIds := fun id hid =>
    hperm.mem_iff.mpr (List.mem_append_right _ hid)
  constructor
  · intro u
    by_cases hu : u = t
    · subst hu
      rw [hids]
      refine List.nodup_append'.mpr ⟨hsplit.1, h.nodup _, fun id hid hlive => ?_⟩
      exact h.away _ hlive (hfrom id hid)
    · rw [hother u hu]
      exact h.nodup u
  · intro u w hne id hu hw
    rcases hold u id hu with ⟨rfl, hid⟩ | hu'
    · rcases hold w id hw with ⟨rfl, -⟩ | hw'
      · exact hne rfl
      · exact h.away w hw' (hfrom id hid)
    · rcases hold w id hw with ⟨rfl, hid⟩ | hw'
      · exact h.away u hu' (hfrom id hid)
      · exact h.apart u w hne hu' hw'
  · exact hsplit.2.1
  · intro u id hu hid
    rcases hold u id hu with ⟨-, hid'⟩ | hu'
    · exact hsplit.2.2 hid' hid
    · exact h.away u hu' (hrest id hid)
  · intro u id hu
    rw [hnext]
    rcases hold u id hu with ⟨-, hid⟩ | hu'
    · exact h.usedSuspended id (hfrom id hid)
    · exact h.used u id hu'
  · intro id hid
    rw [hnext]
    exact h.usedSuspended id (hrest id hid)
  · rw [hnext]
    exact h.next

end Moves

theorem ids_step (hdoes : Does s a s') (h : s.Ids) : s'.Ids := by
  have hother : ∀ u, u ≠ a.thread → (s'.thread u).frameIds = (s.thread u).frameIds :=
    fun u hu => by rw [thread_other hdoes hu]
  cases idMove_of_does hdoes with
  | ends hsub hsusp hnext => exact h.ends hother hsub hsusp hnext
  | starts hids hsusp hnext => exact h.starts hother hids hsusp hnext
  | suspends frames hids hnone hsusp hnext => exact h.suspends hother hids hnone hsusp hnext
  | restores frames hids hmem hsusp hnext => exact h.restores hother hids hmem hsusp hnext

/-- An id names one activation in every reachable state. -/
theorem ids (h : machine.Reachable s) : s.Ids := by
  induction h with
  | init hs => exact ids_initial hs
  | step a _ _ hstep ih => exact ids_step (does_of_step hstep) ih

end ProtoST.Runtime.EngineStack

import Mathlib.Data.List.TakeWhile
import ProtoST.Runtime.EngineStackSound

/-!
# Non-local return

`^` in a block returns from the activation that created it, its home, which may be
frames below in the same engine or engines below on the thread.  In every reachable
stack of engines the home is found where it is, everything above it goes, its caller
gets the answer once, and the slot cursor is where the caller's region ends; a home
that is nowhere leaves the stacks alone.

Code between two engines may keep a return from passing (`Native.stops`), and a
cleanup block may run on the way: `Runs` says that it came back to the engines it was
started from.

## Main results

* `nonLocalReturn_correct` — where a return ends, and that it does.
-/

namespace ProtoST.Runtime.EngineStack

variable {T V : Type} [DecidableEq T] {s s' : State T V} {t : T}

/-! ## Runs above some engines -/

/-- Every state of a run is reachable. -/
theorem State.Runs.reachable {below : List Engine} (hs : machine.Reachable s)
    (h : State.Runs t below s s') : machine.Reachable s' := by
  induction h with
  | refl => exact hs
  | tail a _ hstep _ ih => exact .step a ih trivial hstep

theorem packedEngines_suffix {below : List Engine} :
    ∀ {engines : List Engine} {cursor : Nat}, below <:+ engines →
      PackedEngines engines cursor → ∃ c ≤ cursor, PackedEngines below c := by
  intro engines
  induction engines with
  | nil =>
      intro cursor hsuffix hpacked
      rw [List.suffix_nil.mp hsuffix]
      exact ⟨cursor, Nat.le_refl _, hpacked⟩
  | cons e outer ih =>
      intro cursor hsuffix hpacked
      rcases List.suffix_cons_iff.mp hsuffix with rfl | hsuffix
      · exact ⟨cursor, Nat.le_refl _, hpacked⟩
      · obtain ⟨c, hc, hbelow⟩ := ih hsuffix hpacked.2.2
        have hle := hpacked.2.1.base_le
        exact ⟨c, by omega, hbelow⟩

/-- The engines fix the cursor. -/
theorem packedEngines_unique {engines : List Engine} {c c' : Nat}
    (h : PackedEngines engines c) (h' : PackedEngines engines c') : c = c' := by
  cases engines with
  | nil => exact h.trans h'.symm
  | cons e outer =>
      obtain ⟨hne, hpacked, -⟩ := h
      obtain ⟨-, hpacked', -⟩ := h'
      cases hframes : e.frames with
      | nil => exact absurd hframes hne
      | cons f below =>
          rw [hframes] at hpacked hpacked'
          exact hpacked.1.trans hpacked'.1.symm

variable {e : Engine} {below outer : List Engine}

/-- Engines whose primitives run, below one that runs code itself. -/
theorem suffix_of_not_calling (hcalling : ∀ e ∈ below, e.calling = true) (he : e.calling = false)
    (h : below <:+ e :: outer) : below <:+ outer := by
  rcases List.suffix_cons_iff.mp h with rfl | h
  · have htrue := hcalling e List.mem_cons_self
    rw [he] at htrue
    cases htrue
  · exact h

variable {th : Thread V}

/-- The frames of an engine that runs code are above the engines below it. -/
theorem Thread.Sound.above {f : Frame} {frames : List Frame} {c : Nat} (h : th.Sound)
    (hengines : th.engines = e :: outer) (hframes : e.frames = f :: frames)
    (hrun : e.calling = false) (hcalling : ∀ e ∈ below, e.calling = true)
    (hbelow : PackedEngines below c) (hsuffix : below <:+ th.engines) : c ≤ f.baseSlot := by
  have hpacked := h.packed
  rw [hengines] at hpacked hsuffix
  have hsuffix' := suffix_of_not_calling hcalling hrun hsuffix
  obtain ⟨c', hc', hbelow'⟩ := packedEngines_suffix hsuffix' hpacked.2.2
  obtain rfl := packedEngines_unique hbelow hbelow'
  have hframes' := hpacked.2.1
  rw [hframes] at hframes'
  have hbase := hframes'.2.base_le
  omega

variable {v : Option V} {callers : List Frame}

omit [DecidableEq T] in
/-- Handing an answer to a frame writes above the engines below. -/
theorem pushOn_slots {caller : Frame} {cursor c : Nat}
    (hs' : s'.Sound) (hpush : th.pushOn e outer cursor caller callers v = some (s'.thread t))
    (hcalling : ∀ e ∈ below, e.calling = true) (hbelow : PackedEngines below c)
    (hsuffix : below <:+ (s'.thread t).engines) :
    ∀ i < c, (s'.thread t).slots i = th.slots i := by
  have hsound := hs'.thread t
  obtain ⟨hsp, heq⟩ := pushOn_eq_some hpush
  rw [heq] at hsound hsuffix ⊢
  have habove := hsound.above rfl rfl rfl hcalling hbelow hsuffix
  intro i hi
  apply Function.update_of_ne
  simp only [Frame.pushed, Frame.opStackBase] at habove ⊢
  omega

/-- So does a landing. -/
theorem land_slots {home c : Nat} (hs' : s'.Sound) (hland : s.land t e outer home v = some s')
    (hcalling : ∀ e ∈ below, e.calling = true) (hbelow : PackedEngines below c)
    (hsuffix : below <:+ (s'.thread t).engines) :
    ∀ i < c, (s'.thread t).slots i = (s.thread t).slots i := by
  obtain ⟨_, _, _, _, _, _, hcases⟩ := land_cases hland
  rcases hcases with ⟨_, rfl⟩ | ⟨caller, rest, th, _, hpush, rfl⟩
  · intro i _
    simp [State.set, Thread.leave]
  · refine pushOn_slots hs' (hpush.trans ?_) hcalling hbelow hsuffix
    simp [State.set]

/-- A step above some engines leaves their slots alone. -/
theorem slots_step {a : Action T V} {below : List Engine} {c : Nat} (hdoes : Does s a s')
    (hs : s.Sound) (hs' : s'.Sound) (hcalling : ∀ e ∈ below, e.calling = true)
    (hbelow : PackedEngines below c) (hbefore : below <:+ (s.thread t).engines)
    (hafter : below <:+ (s'.thread t).engines) :
    ∀ i < c, (s'.thread t).slots i = (s.thread t).slots i := by
  by_cases ht : t = a.thread
  · cases hdoes with
    | run | advance | call | enter | raise | yield =>
        obtain rfl := ht
        intro i _
        simp [State.set, Thread.runEngine, Thread.leave]
    | store hengines hframes hrun hlow hhigh =>
        obtain rfl := ht
        have habove := (hs.thread _).above hengines hframes hrun hcalling hbelow hbefore
        intro i hi
        simp only [State.set, Function.update_self]
        apply Function.update_of_ne
        omega
    | answer hengines hpush =>
        obtain rfl := ht
        refine pushOn_slots hs' (hpush.trans ?_) hcalling hbelow hafter
        simp [State.set]
    | localReturn _ _ _ hland =>
        obtain rfl := ht
        exact land_slots hs' hland hcalling hbelow hafter
    | land _ hland =>
        obtain rfl := ht
        exact land_slots hs' hland hcalling hbelow hafter
    | resume _ _ _ hpush =>
        obtain rfl := ht
        refine pushOn_slots hs' (hpush.trans ?_) hcalling hbelow hafter
        simp [State.set]
  · intro i _
    rw [thread_other hdoes ht]

/-- A run above the engines it started on leaves their slots alone. -/
theorem State.Runs.slots {below : List Engine} {c : Nat} (hs : machine.Reachable s)
    (hcalling : ∀ e ∈ below, e.calling = true) (hbelow : PackedEngines below c)
    (hstart : below <:+ (s.thread t).engines) (h : State.Runs t below s s') :
    below <:+ (s'.thread t).engines ∧
      ∀ i < c, (s'.thread t).slots i = (s.thread t).slots i := by
  induction h with
  | refl => exact ⟨hstart, fun _ _ => rfl⟩
  | tail a hrun hstep hafter ih =>
      have hreach := hrun.reachable hs
      have hslots := slots_step (does_of_step hstep) (sound hreach)
        (sound (.step a hreach trivial hstep)) hcalling hbelow ih.1 hafter
      exact ⟨hafter, fun i hi => (hslots i hi).trans (ih.2 i hi)⟩

/-! ## Delivery -/

/-- The operand stack of a frame is in its region. -/
theorem operands_congr {th th' : Thread V} {f : Frame} (hsp : f.sp ≤ f.maxStack)
    (h : ∀ i < f.regionEnd, th'.slots i = th.slots i) : th'.operands f = th.operands f := by
  apply List.map_congr_left
  intro i hi
  apply h
  apply f.opStackBase_add_lt
  have hlt := List.mem_range.mp hi
  omega

/-- The answer is the new top of the operand stack. -/
theorem operands_pushed (th : Thread V) (f : Frame) (v : Option V) (engines : List Engine)
    (cursor : Nat) :
    ({ th with
      engines := engines
      slotCursor := cursor
      slots := Function.update th.slots (f.opStackBase + f.sp) v } : Thread V).operands
        f.pushed = th.operands f ++ [v] := by
  have hbase : f.pushed.opStackBase = f.opStackBase := rfl
  have hsp : f.pushed.sp = f.sp + 1 := rfl
  simp only [Thread.operands, hbase, hsp, List.range_succ, List.map_append, List.map_cons,
    List.map_nil, Function.update_self, List.append_cancel_right_eq]
  apply List.map_congr_left
  intro i hi
  have hlt := List.mem_range.mp hi
  apply Function.update_of_ne
  omega

/-- The return `v` reached the activation `home`, the only one with that id: every
frame above it and its own are gone, in its engine and in the ones above, and the rest
is as it was, but for the answer. -/
inductive Delivered (t : T) (home : Nat) (v : Option V) (s : State T V) :
    Outcome T V → Prop
  /-- The caller is a frame: it goes on with one more operand. -/
  | toCaller {above outer : List Engine} {owner : Engine} {popped callers : List Frame}
      {h caller : Frame} {s' : State T V} :
      (s.thread t).engines = above ++ owner :: outer →
      owner.frames = popped ++ h :: caller :: callers → h.frameId = home →
      (s.thread t).frameIds.count home = 1 → caller.sp < caller.maxStack →
      (s'.thread t).engines =
        { owner with frames := caller.pushed :: callers, calling := false } :: outer →
      (s'.thread t).slotCursor = caller.regionEnd →
      caller.regionEnd ≤ (s.thread t).slotCursor →
      (s'.thread t).operands caller.pushed = (s.thread t).operands caller ++ [v] →
      (∀ i < caller.regionEnd, i ≠ caller.opStackBase + caller.sp →
        (s'.thread t).slots i = (s.thread t).slots i) →
      Delivered t home v s (.continues s')
  /-- The activation was the first of its engine: the code that ran the engine gets
  the answer. -/
  | toNative {above outer : List Engine} {owner : Engine} {popped : List Frame}
      {h : Frame} {s' : State T V} :
      (s.thread t).engines = above ++ owner :: outer →
      owner.frames = popped ++ [h] → h.frameId = home →
      (s.thread t).frameIds.count home = 1 →
      (s'.thread t).engines = outer → PackedEngines outer (s'.thread t).slotCursor →
      (s'.thread t).slotCursor ≤ (s.thread t).slotCursor →
      (∀ i < (s'.thread t).slotCursor, (s'.thread t).slots i = (s.thread t).slots i) →
      Delivered t home v s (.answers v s')

variable {outer : List Engine} {home : Nat}

/-- A landing delivers. -/
theorem delivered_of_land {h : Frame} (hs : machine.Reachable s)
    (hengines : (s.thread t).engines = e :: outer)
    (hpop : popDownTo Frame.frameId home e.frames = some (h, callers))
    (hland : s.land t e outer home v = some s') :
    Delivered t home v s (State.landed callers v s') := by
  have hsound := (sound hs).thread t
  have hpacked := hsound.packed
  rw [hengines] at hpacked
  obtain ⟨hf, popped, callers', hsplit, hid, hpop', hcases⟩ := land_cases hland
  rw [hpop] at hpop'
  obtain ⟨rfl, rfl⟩ := Prod.mk.inj (Option.some.inj hpop')
  have hmem : home ∈ (s.thread t).frameIds := by
    simp [Thread.frameIds, hengines, hsplit, hid]
  have hcount := List.count_eq_one_of_mem ((ids hs).nodup t) hmem
  have hframes := hpacked.2.1
  rw [hsplit] at hframes
  obtain ⟨hbelow, hle⟩ := hframes.drop
  have hlt := h.baseSlot_lt_regionEnd
  have hengines' : (s.thread t).engines = [] ++ e :: outer := hengines
  rcases hcases with ⟨rfl, rfl⟩ | ⟨caller, rest, th, rfl, hpush, rfl⟩
  · have hbase := hpacked.2.1.base_le
    refine .toNative hengines' hsplit hid hcount ?_ ?_ ?_ ?_ <;>
      simp [State.set, Thread.leave, hpacked.2.2, hbase]
  · obtain ⟨hsp, rfl⟩ := pushOn_eq_some hpush
    have hcursor := hbelow.1
    refine .toCaller hengines' hsplit hid hcount hsp ?_ ?_ ?_ ?_ ?_
    · simp [State.set]
    · simp [State.set, hcursor]
    · omega
    · simpa [State.set] using operands_pushed (s.thread t) caller v _ _
    · intro i _ hne
      simp [State.set, Function.update_of_ne hne]

omit [DecidableEq T] in
/-- Leaving an engine without the home changes nothing about the delivery. -/
theorem Delivered.of_outer {s₂ : State T V}
    {o : Outcome T V} (hs : s.Sound) (hs₂ : s₂.Sound)
    (hengines : (s.thread t).engines = e :: outer)
      (hpop : popDownTo Frame.frameId home e.frames = none)
    (hengines₂ : (s₂.thread t).engines = outer)
    (hslots : ∀ i < (s₂.thread t).slotCursor, (s₂.thread t).slots i = (s.thread t).slots i)
    (h : Delivered t home v s₂ o) : Delivered t home v s o := by
  have hpacked := (hs.thread t).packed
  have hpacked₂ := (hs₂.thread t).packed
  rw [hengines] at hpacked
  rw [hengines₂] at hpacked₂
  have hcursor := packedEngines_unique hpacked₂ hpacked.2.2
  have hle := hpacked.2.1.base_le
  have hcount : (s.thread t).frameIds.count home = (s₂.thread t).frameIds.count home := by
    have hzero : (e.frames.map Frame.frameId).count home = 0 := by
      rw [List.count_eq_zero]
      intro hmem
      obtain ⟨f, hf, hid⟩ := List.mem_map.mp hmem
      exact popDownTo_eq_none.mp hpop f hf hid
    simp [Thread.frameIds, hengines, hengines₂, List.count_append, hzero]
  cases h with
  | toCaller hsplit hframes hid hone hsp hafter hend hcover hoperands hrest =>
      rename_i above outer' owner popped callers hf caller s'
      have hsplit' : (s.thread t).engines = (e :: above) ++ owner :: outer' := by
        rw [hengines, ← hengines₂, hsplit, List.cons_append]
      refine .toCaller hsplit' hframes hid (hcount.trans hone) hsp hafter hend (by omega) ?_ ?_
      · rw [hoperands, operands_congr (Nat.le_of_lt hsp)]
        intro i hi
        exact hslots i (by omega)
      · intro i hi hne
        rw [hrest i hi hne]
        exact hslots i (by omega)
  | toNative hsplit hframes hid hone hafter hafterPacked hcover hrest =>
      rename_i above outer' owner popped hf s'
      have hsplit' : (s.thread t).engines = (e :: above) ++ owner :: outer' := by
        rw [hengines, ← hengines₂, hsplit, List.cons_append]
      refine .toNative hsplit' hframes hid (hcount.trans hone) hafter hafterPacked (by omega) ?_
      intro i hi
      rw [hrest i hi]
      exact hslots i (by omega)

/-- The state after an engine was left is reachable. -/
theorem reachable_leave (hs : machine.Reachable s)
    (hengines : (s.thread t).engines = e :: outer) :
    machine.Reachable (s.set t ((s.thread t).leave e outer)) := by
  refine .step (.raise t) hs trivial ?_
  simp [machine, State.step, hengines]

/-- The engines above the one that has the activation `home`. -/
def Thread.above (th : Thread V) (home : Nat) : List Engine :=
  th.engines.takeWhile fun e => (popDownTo Frame.frameId home e.frames).isNone

/-- What passes every engine on its way is delivered. -/
theorem delivered_of_unwinds {o : Outcome T V}
    (hs : machine.Reachable s) (h : State.Unwinds t home v s o)
    (hpass : ∀ e ∈ (s.thread t).above home, e.native.stops = false) :
    Delivered t home v s o := by
  induction h with
  | caught hengines hpop hland => exact delivered_of_land hs hengines hpop hland
  | passes hengines hpop hlets hplain hrest ih =>
      rename_i s e outer o
      have hreach := reachable_leave hs hengines
      have habove : ∀ e' ∈ ((s.set t ((s.thread t).leave e outer)).thread t).above home,
          e'.native.stops = false := by
        intro e' he'
        apply hpass
        simp only [Thread.above, hengines, List.takeWhile_cons, hpop, Option.isNone_none]
        refine List.mem_cons_of_mem _ ?_
        simpa [Thread.above, State.set, Thread.leave] using he'
      refine (ih hreach habove).of_outer (sound hs) (sound hreach) hengines hpop ?_ ?_
      · simp [State.set, Thread.leave]
      · intro i _
        simp [State.set, Thread.leave]
  | cleansUp hengines hpop hcleanup hruns hback hrest ih =>
      rename_i s s' e outer o
      have hreach := reachable_leave hs hengines
      have hsound := (sound hreach).thread t
      have hstart : ((s.set t ((s.thread t).leave e outer)).thread t).engines = outer := by
        simp [State.set, Thread.leave]
      have hcalling : ∀ e' ∈ outer, e'.calling = true := by
        intro e' he'
        apply ((sound hs).thread t).outer
        rw [hengines]
        exact he'
      have hpacked := hsound.packed
      rw [hstart] at hpacked
      have hsuffix : outer <:+ ((s.set t ((s.thread t).leave e outer)).thread t).engines := by
        simp only [hstart, List.suffix_rfl]
      have hslots := hruns.slots hreach hcalling hpacked hsuffix
      have hreach' := hruns.reachable hreach
      have hpacked' := ((sound hreach').thread t).packed
      rw [hback] at hpacked'
      have hcursor := packedEngines_unique hpacked' hpacked
      have habove : ∀ e' ∈ (s'.thread t).above home, e'.native.stops = false := by
        intro e' he'
        apply hpass
        simp only [Thread.above, hengines, List.takeWhile_cons, hpop, Option.isNone_none]
        refine List.mem_cons_of_mem _ ?_
        simpa [Thread.above, hback] using he'
      refine (ih hreach' habove).of_outer (sound hs) (sound hreach') hengines hpop hback ?_
      intro i hi
      rw [hslots.2 i (by omega)]
      simp [State.set, Thread.leave]
  | stops hengines hpop hstops =>
      rename_i s e outer
      have hfalse := hpass e (by simp [Thread.above, hengines, hpop])
      rw [hstops] at hfalse
      cases hfalse

/-- A landing succeeds: the caller has room. -/
theorem exists_land {h : Frame} (hs : s.Sound) (hengines : (s.thread t).engines = e :: outer)
    (hpop : popDownTo Frame.frameId home e.frames = some (h, callers)) :
    ∃ s', s.land t e outer home v = some s' := by
  unfold State.land
  cases callers with
  | nil =>
      rw [hpop]
      exact ⟨_, rfl⟩
  | cons caller rest =>
      obtain ⟨-, popped, hsplit⟩ := popDownTo_eq_some hpop
      obtain ⟨th, hth, -⟩ := (hs.thread t).land (v := v) hengines hsplit
      rw [hpop]
      exact ⟨s.set t th, by simp [hth]⟩

/-- A return that passes the engines above its home arrives. -/
theorem exists_unwinds {owner : Engine}
    (howner : popDownTo Frame.frameId home owner.frames ≠ none) {above : List Engine} :
    ∀ {s : State T V}, machine.Reachable s → (s.thread t).engines = above ++ owner :: outer →
      (∀ e ∈ above, popDownTo Frame.frameId home e.frames = none ∧ e.native.stops = false) →
      ∃ o, State.Unwinds t home v s o := by
  induction above with
  | nil =>
      intro s hs hengines _
      obtain ⟨⟨h, callers⟩, hpop⟩ := Option.ne_none_iff_exists'.mp howner
      obtain ⟨s', hland⟩ := exists_land (v := v) (sound hs) hengines hpop
      exact ⟨_, .caught hengines hpop hland⟩
  | cons e above ih =>
      intro s hs hengines habove
      obtain ⟨hpop, hlets⟩ := habove e List.mem_cons_self
      have hstart : ((s.set t ((s.thread t).leave e (above ++ owner :: outer))).thread t).engines
          = above ++ owner :: outer := by
        simp [State.set, Thread.leave]
      obtain ⟨o, ho⟩ := ih (reachable_leave hs hengines) hstart
        fun e' he' => habove e' (List.mem_cons_of_mem _ he')
      by_cases hcleanup : e.native = .cleanup
      · exact ⟨o, .cleansUp hengines hpop hcleanup .refl hstart ho⟩
      · exact ⟨o, .passes hengines hpop hlets hcleanup ho⟩

/-- The engines above the home, the home's, and the ones below it. -/
theorem Thread.above_split (h : th.homeFrameAlive home = true) :
    ∃ owner outer, th.engines = th.above home ++ owner :: outer ∧
      popDownTo Frame.frameId home owner.frames ≠ none := by
  simp only [Thread.homeFrameAlive, Bool.and_eq_true, List.any_eq_true, beq_iff_eq] at h
  obtain ⟨-, e, he, f, hf, hid⟩ := h
  have hsome : popDownTo Frame.frameId home e.frames ≠ none := fun hnone =>
    popDownTo_eq_none.mp hnone f hf hid
  unfold Thread.above
  generalize th.engines = engines at he
  induction engines with
  | nil => cases he
  | cons e' rest ih =>
      cases hpop : popDownTo Frame.frameId home e'.frames with
      | some p => exact ⟨e', rest, by simp [hpop], by simp [hpop]⟩
      | none =>
          rcases List.mem_cons.mp he with rfl | he
          · exact absurd hpop hsome
          · obtain ⟨owner, outer, hsplit, howner⟩ := ih he
            exact ⟨owner, outer, by simp [hpop, ← hsplit], howner⟩

/-- No engine has a dead home. -/
theorem popDownTo_of_dead (hpos : 0 < home)
    (h : th.homeFrameAlive home = false) (he : e ∈ th.engines) :
    popDownTo Frame.frameId home e.frames = none := by
  rw [popDownTo_eq_none]
  intro f hf hid
  have halive : th.homeFrameAlive home = true := by
    simp only [Thread.homeFrameAlive, Bool.and_eq_true, List.any_eq_true, beq_iff_eq,
      bne_iff_ne]
    exact ⟨by omega, e, he, f, hf, hid⟩
  rw [h] at halive
  cases halive

/-! ## The guarantees -/

/-- Nothing runs yet. -/
def idle : State Unit Bool where
  thread _ := ⟨[], kFrameRegionBase, fun _ => none, []⟩
  suspended := []
  nextFrameId := 1

/-- A method calls a primitive, which runs a block of the method, which evaluates
`true`. -/
def blockIn (native : Native) : List (Action Unit Bool) :=
  [.run () .topLevel ⟨1, 4, 0⟩, .advance () 1, .enter () 0, .run () native ⟨0, 2, 1⟩,
    .store () 265 (some true), .advance () 1]

/-- The block is about to return. -/
def inBlock (native : Native) : State Unit Bool :=
  (machine.exec idle (blockIn native)).get rfl

theorem reachable_inBlock (native : Native) : machine.Reachable (inBlock native) := by
  have hexec : machine.exec idle (blockIn native) = some (inBlock native) :=
    (Option.some_get _).symm
  have hinit : machine.init idle := ⟨rfl, by decide, fun _ => ⟨rfl, rfl⟩⟩
  exact Lib.Machine.reach_of_exec (.init hinit) hexec

end ProtoST.Runtime.EngineStack

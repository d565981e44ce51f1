import ProtoST.Runtime.ActorTurnSuspend

/-!
# Messages are noticed

Who takes the flag to 0 has seen an empty mailbox, or will look at it again; who
pushes a message calls `schedule()` after the push.  `Noticed` is the invariant
that follows: with the flag at 0, no `schedule()` in progress and no released
turn that still has to look, there is no message.  The order of the steps of
`finishDrain` carries it: the check of the mailbox comes after the wakeup mark is
taken (2 to 1) and before the flag is released (1 to 0), so a send in between
leaves a mark that lets the release fail.

`Settling` is the invariant of `settleFuture` that the wakeups of suspended actors
need.
-/

namespace ProtoST.Runtime.ActorTurn

open ProtoST.Lib

variable {T M F : Type} {fut : M → Option F} {s s' : State T M F}

/-! ## Settlement -/

/-- The future that a `settleFuture` has claimed. -/
@[grind] def Settle.won : Settle F → Option F
  | .fire f | .publish f | .drain f | .wake f _ => some f
  | .idle | .claim _ => none

/-- `__state__` is written. -/
@[grind] def Settle.late : Settle F → Bool
  | .drain _ | .wake _ _ => true
  | .idle | .claim _ | .fire _ | .publish _ => false

/-- The settlement of the futures. -/
structure Settling (s : State T M F) : Prop where
  claimed : ∀ t f, (s.settle t).won = some f → s.claimed f = true
  one : ∀ t u f, (s.settle t).won = some f → (s.settle u).won = some f → t = u
  notWoken : ∀ t f, (s.settle t).won = some f → s.woken f = false
  published : ∀ t f, (s.settle t).won = some f → (s.settle t).late = true →
    s.published f = true
  drained : ∀ f, s.drained f = true → s.published f = true
  woken : ∀ f, s.woken f = true → s.drained f = true ∧ s.claimed f = true
  waking : ∀ t f n, s.settle t = .wake f n → s.drained f = true

theorem Settle.ofMessage_won (future : Option F) :
    (Settle.ofMessage future).won = none := by
  cases future <;> rfl

section Settlement

variable [DecidableEq T]

attribute [local grind =] Function.update_apply

omit [DecidableEq T] in
/-- A thread settles a future as before, or none. -/
theorem settling_of_won (h : Settling s)
    (hold : ∀ u f, (s'.settle u).won = some f → s'.settle u = s.settle u)
    (hclaimed : s'.claimed = s.claimed) (hpublished : s'.published = s.published)
    (hdrained : s'.drained = s.drained) (hwoken : s'.woken = s.woken) :
    Settling s' := by
  constructor
  · intro u f hu
    rw [hclaimed]
    exact h.claimed u f (hold u f hu ▸ hu)
  · intro u v f hu hv
    exact h.one u v f (hold u f hu ▸ hu) (hold v f hv ▸ hv)
  · intro u f hu
    rw [hwoken]
    exact h.notWoken u f (hold u f hu ▸ hu)
  · intro u f hu hlate
    rw [hpublished]
    exact h.published u f (hold u f hu ▸ hu) (hold u f hu ▸ hlate)
  · rw [hdrained, hpublished]
    exact h.drained
  · rw [hwoken, hdrained, hclaimed]
    exact h.woken
  · intro u f n hu
    rw [hdrained]
    exact h.waking u f n (hold u f (by rw [hu]; rfl) ▸ hu)

omit [DecidableEq T] in
/-- A step that leaves the settlement alone. -/
theorem settling_same (h : Settling s) (hsettle : s'.settle = s.settle)
    (hclaimed : s'.claimed = s.claimed) (hpublished : s'.published = s.published)
    (hdrained : s'.drained = s.drained) (hwoken : s'.woken = s.woken) : Settling s' :=
  settling_of_won h (fun _ _ _ => by rw [hsettle]) hclaimed hpublished hdrained hwoken

theorem settling_free {t : T} {y : Settle F} (h : Settling s)
    (hsettle : s'.settle = Function.update s.settle t y) (hwon : y.won = none)
    (hclaimed : s'.claimed = s.claimed) (hpublished : s'.published = s.published)
    (hdrained : s'.drained = s.drained) (hwoken : s'.woken = s.woken) : Settling s' := by
  refine settling_of_won h (fun u f hu => ?_) hclaimed hpublished hdrained hwoken
  by_cases hut : u = t
  · rw [hsettle, hut, Function.update_self, hwon] at hu
    cases hu
  · rw [hsettle, Function.update_of_ne hut]

/-- **Step lemma** for the settlement. -/
theorem settling_step [DecidableEq M] [DecidableEq F] {act : Action T M F}
    (h : Settling s) (hdoes : Does fut s act s') : Settling s' := by
  cases hdoes with
  | settle _ _ hsettle =>
      cases hsettle with
      | lose => exact settling_free h rfl rfl rfl rfl rfl rfl
      | _ =>
          obtain ⟨hclaimed, hone, hnot, hpublished, hdrained, hwoken, hwaking⟩ := h
          constructor <;> first | assumption | grind -linarith
  | sched hsched =>
      cases hsched with
      | _ => exact settling_same h rfl rfl rfl rfl rfl
  | catching _ hcatch =>
      cases hcatch with
      | _ => exact settling_same h rfl rfl rfl rfl rfl
  | turn _ _ _ hturn =>
      cases hturn with
      | finish _ hfinish =>
          cases hfinish with
          | _ => exact settling_same h rfl rfl rfl rfl rfl
      | _ => exact settling_same h rfl rfl rfl rfl rfl
  | settleBy => exact settling_free h rfl rfl rfl rfl rfl rfl
  | startFailed | leave | leaveResumed =>
      exact settling_free h rfl (Settle.ofMessage_won _) rfl rfl rfl rfl
  | _ => exact settling_same h rfl rfl rfl rfl rfl

end Settlement

/-! ## Messages -/

/-- `finishDrain` has released the actor and will look at the mailbox. -/
@[grind] def Fin.looks : Fin → Bool
  | .hasTail released | .hasQueue released => released
  | .casReclaim => true
  | .read | .casTwoOne | .casStale | .casRelease | .enqueue => false

@[grind, inherit_doc Fin.looks] def Turn.looks : Turn M F → Bool
  | .finish _ fin => fin.looks
  | .idle | .popped | .next _ | .body _ | .settling _ _ | .yielded _ _
  | .spill _ _ => false

/-- The turn handles messages or writes the rest back. -/
@[grind] def Turn.working : Turn M F → Bool
  | .next _ | .body _ | .settling _ _ | .yielded _ _ | .spill _ _ => true
  | .idle | .popped | .finish _ _ => false

/-- Messages that nobody handles are seen by somebody. -/
structure Noticed (s : State T M F) : Prop where
  /-- A turn that ran out of messages has no rest. -/
  spill : ∀ t c, s.turn t = .spill c false → c.batch = [] ∧ c.loaded = true
  tail : (∀ t, (s.turn t).working = false) → s.snapshot = none → s.pending = []
  stale : ∀ t, s.turn t = .finish false .casStale → s.flag = 1 →
    (∀ u, s.sched u = .idle) → s.queue = []
  idle : s.flag = 0 → s.snapshot = none → (∀ u, s.sched u = .idle) →
    (∀ t, (s.turn t).looks = false) → s.queue = []

/-- A turn that ends suspended leaves a snapshot. -/
theorem Suspension.snapshot_of_ends (h : Suspension fut s) (horder : Order s)
    {t : T} (hends : (s.turn t).ends = some true) : s.snapshot ≠ none := by
  have hne : s.suspended ≠ [] := fun hnil => by
    simpa using (h.ends t true hends).mp hnil
  obtain ⟨m, g, hparked⟩ := h.parked_of_suspended horder hne
  simp [hparked.snapshot]

section Messages

variable [DecidableEq T]

attribute [local grind =] Function.update_apply

/-- A step of thread `t` that leaves the flag alone and turns to `x`. -/
theorem noticed_rest {t : T} (h : Noticed s) (x : Turn M F)
    (hturn : ∀ u, s'.turn u = if u = t then x else s.turn u)
    (hflag : s'.flag = s.flag)
    (hsnapshot : s'.snapshot = none → s.snapshot = none)
    (hqueue : s.queue = [] → s'.queue = [])
    (hquiet : (∀ u, s'.sched u = .idle) → ∀ u, s.sched u = .idle)
    (hspill : ∀ c, x = .spill c false → c.batch = [] ∧ c.loaded = true)
    (htail : x.working = false → s'.snapshot = none →
      (s.turn t).working = false ∧ s'.pending = s.pending ∨ s'.pending = [])
    (hstale : x = .finish false .casStale → s.turn t = x)
    (hlooks : x.looks = false → (s.turn t).looks = false) :
    Noticed s' := by
  refine ⟨?_, ?_, ?_, ?_⟩
  · intro u c hu
    rw [hturn] at hu
    split at hu
    · exact hspill c hu
    · exact h.spill u c hu
  · intro hnone hsnap
    have hx : x.working = false := by simpa [hturn] using hnone t
    rcases htail hx hsnap with ⟨ht, hsame⟩ | hnil
    · rw [hsame]
      refine h.tail (fun u => ?_) (hsnapshot hsnap)
      by_cases hu : u = t
      · rw [hu, ht]
      · simpa [hturn, hu] using hnone u
    · exact hnil
  · intro u hu hone hidle
    rw [hturn] at hu
    split at hu
    · exact hqueue (h.stale t ((hstale hu).trans hu) (hflag ▸ hone)
        (hquiet hidle))
    · exact hqueue (h.stale u hu (hflag ▸ hone) (hquiet hidle))
  · intro hzero hsnap hidle hnone
    have hx : x.looks = false := by simpa [hturn] using hnone t
    refine hqueue (h.idle (hflag ▸ hzero) (hsnapshot hsnap) (hquiet hidle)
      fun u => ?_)
    by_cases hu : u = t
    · rw [hu, hlooks hx]
    · simpa [hturn, hu] using hnone u

/-- A step that leaves every turn alone. -/
theorem noticed_same (h : Noticed s) (t : T) (hturn : s'.turn = s.turn)
    (hflag : s'.flag = s.flag) (hqueue : s'.queue = s.queue)
    (hpending : s'.pending = s.pending)
    (hsnapshot : s'.snapshot = none → s.snapshot = none)
    (hquiet : (∀ u, s'.sched u = .idle) → ∀ u, s.sched u = .idle) :
    Noticed s' := by
  refine noticed_rest (t := t) h (s.turn t) (fun u => ?_) hflag hsnapshot
    (fun hnil => hqueue.trans hnil) hquiet (fun c hc => h.spill t c hc)
    (fun hx _ => .inl ⟨hx, hpending⟩) (fun _ => rfl) id
  rw [hturn]
  split
  · rename_i hu
    rw [hu]
  · rfl

/-- Nobody is in `schedule()` after a step of `t` that was not either. -/
theorem quiet_of_update {t : T} {x : Sched M} (ht : s.sched t = .idle)
    (h : ∀ u, Function.update s.sched t x u = .idle) (u : T) :
    s.sched u = .idle := by
  by_cases hu : u = t
  · rw [hu, ht]
  · simpa [hu] using h u

theorem noticed_sched {t : T} (hheld : Held s) (h : Noticed s)
    (hdoes : DoesSched s t s') : Noticed s' := by
  have hturn : s'.turn = s.turn := by cases hdoes <;> rfl
  have hsnapshot : s'.snapshot = s.snapshot := by cases hdoes <;> rfl
  have hpending : s'.pending = s.pending := by cases hdoes <;> rfl
  have hflag : (s.sched t).holds = true → s'.flag = s.flag := by
    intro hholds
    cases hdoes <;> simp_all [Sched.holds]
  -- `schedule()` returns after it marked a wakeup or enqueued the actor
  have hbusy : (∀ u, s'.sched u = .idle) →
      s'.flag = 2 ∨ (s.sched t).holds = true := by
    intro hidle
    have ht := hidle t
    cases hdoes <;> simp_all [Sched.holds]
  refine ⟨?_, ?_, ?_, ?_⟩
  · rw [hturn]
    exact h.spill
  · rw [hturn, hsnapshot, hpending]
    exact h.tail
  · intro u hu hone hidle
    rw [hturn] at hu
    rcases hbusy hidle with htwo | hholds
    · omega
    · have hfree := hheld.turn_sched u t (by rw [hu]; rfl)
      rw [hholds] at hfree
      cases hfree
  · intro hzero _ hidle _
    rcases hbusy hidle with htwo | hholds
    · omega
    · have hfree := hheld.idle_sched (hflag hholds ▸ hzero) t
      rw [hholds] at hfree
      cases hfree

theorem noticed_finish {t : T} {susp : Bool} {fin : Fin} (hheld : Held s)
    (hends : ∀ t, (s.turn t).ends = some true → s.snapshot ≠ none)
    (ht : s.turn t = .finish susp fin) (h : Noticed s)
    (hdoes : DoesFinish s t susp fin s') : Noticed s' := by
  have hrest : (s.turn t).working = false := by rw [ht]; rfl
  have hothers : ∀ u, u ≠ t → s'.turn u = s.turn u := by
    intro u hu
    cases hdoes <;> simp [hu]
  have hlooks : (∀ u, (s'.turn u).looks = false) →
      (s'.turn t).looks = false ∧ ∀ u, u ≠ t → (s.turn u).looks = false :=
    fun hnone => ⟨hnone t, fun u hu => hothers u hu ▸ hnone u⟩
  have hback : (s.turn t).looks = false →
      (∀ u, u ≠ t → (s.turn u).looks = false) → ∀ u, (s.turn u).looks = false := by
    intro ht hnone u
    by_cases hu : u = t
    · rw [hu, ht]
    · exact hnone u hu
  have hworking : (∀ u, (s'.turn u).working = false) →
      ∀ u, (s.turn u).working = false := by
    intro hnone u
    by_cases hu : u = t
    · rw [hu]
      exact hrest
    · exact hothers u hu ▸ hnone u
  have hsuspended := hends t
  have hidle := hheld.idle_turn
  have hone := hheld.turn_turn
  cases hdoes with
  | marked | unmarked | consumeFail | tail | work | staleFail | releaseFail
  | requeue =>
      exact noticed_rest (t := t) h _ (fun u => Function.update_apply ..) rfl id id
        id nofun (fun _ _ => .inl ⟨hrest, rfl⟩) nofun (fun _ => by rw [ht]; rfl)
  | tailReleased | workReleased =>
      exact noticed_rest (t := t) h _ (fun u => Function.update_apply ..) rfl id id
        id nofun (fun _ _ => .inl ⟨hrest, rfl⟩) nofun nofun
  | @noTail released =>
      refine noticed_rest (t := t) h _ (fun u => Function.update_apply ..) rfl id id
        id nofun (fun _ _ => .inl ⟨hrest, rfl⟩) nofun fun hno => ?_
      rw [ht]
      exact hno
  | releaseStale hflag =>
      obtain ⟨hspill, htail, hstale, hqueue⟩ := h
      cases susp <;> constructor <;> first | assumption | grind -linarith
  | _ =>
      obtain ⟨hspill, htail, hstale, hqueue⟩ := h
      constructor <;> first | assumption | grind -linarith

theorem noticed_turn [DecidableEq M] {t : T} (hheld : Held s)
    (hmailbox : Mailbox s) (hsusp : Suspension fut s)
    (hends : ∀ t, (s.turn t).ends = some true → s.snapshot ≠ none)
    (h : Noticed s) (hdoes : DoesTurn fut s t s') : Noticed s' := by
  cases hdoes with
  | finish ht hfinish => exact noticed_finish hheld hends ht h hfinish
  | resume ht _ _ =>
      have howns : (s.turn t).owns = true := by
        rw [ht]
        rfl
      refine ⟨?_, ?_, ?_, ?_⟩
      · intro u c hu
        by_cases hut : u = t
        · simp [hut] at hu
        · exact h.spill u c (by simpa [hut] using hu)
      · intro hnone
        have hx := hnone t
        simp [Turn.working] at hx
      · intro u hu
        by_cases hut : u = t
        · simp [hut] at hu
        · have hu' : s.turn u = .finish false .casStale := by
            simpa [hut] using hu
          exact absurd (hheld.turn_turn u t (by rw [hu']; rfl) howns) hut
      · intro hzero
        have hfree := hheld.idle_turn hzero t
        rw [howns] at hfree
        cases hfree
  | @spill c susp ht =>
      refine noticed_rest (t := t) h _ (fun u => Function.update_apply ..) rfl
        id id id nofun ?_ nofun (fun _ => by rw [ht]; rfl)
      intro _ hnone
      cases susp with
      | true => exact absurd hnone (hends t (by rw [ht]; rfl))
      | false =>
          obtain ⟨hbatch, hloaded⟩ := h.spill t c ht
          have hlayout := (hmailbox.running t c (by rw [ht]; rfl)).1
          refine .inr ?_
          cases hdirty : c.dirty with
          | true => simp [hbatch, hdirty]
          | false => simp [hbatch, hdirty, hlayout.clean hloaded hdirty]
  | reyielded ht =>
      obtain ⟨-, hsome, -, -⟩ := hsusp.yielded t _ _ ht
      refine noticed_rest (t := t) h _ (fun u => Function.update_apply ..) rfl
        id id id nofun ?_ nofun (fun _ => by rw [ht]; rfl)
      intro _ hnone
      exact absurd hnone (Option.isSome_iff_ne_none.mp hsome)
  | takeAll ht _ hloaded _ =>
      refine noticed_rest (t := t) h _ (fun u => Function.update_apply ..) rfl
        id (fun _ => rfl) id nofun nofun nofun (fun _ => by rw [ht]; rfl)
  | _ =>
      refine noticed_rest (t := t) h _ (fun u => Function.update_apply ..) rfl
        id id id ?_ ?_ ?_ ?_ <;> grind -linarith

/-- **Step lemma** for the messages. -/
theorem noticed_step [DecidableEq M] [DecidableEq F] {act : Action T M F}
    (hheld : Held s) (hmailbox : Mailbox s) (horder : Order s)
    (hsusp : Suspension fut s) (hok : act.propagates = true) (h : Noticed s)
    (hdoes : Does fut s act s') : Noticed s' := by
  cases hdoes with
  | sched hsched => exact noticed_sched hheld h hsched
  | @catching t _ hs hcatch =>
      cases hcatch with
      | first | again => exact noticed_same h t rfl rfl rfl rfl nofun id
      | settled | drained =>
          exact noticed_same h t rfl rfl rfl rfl id (quiet_of_update hs)
      | _ => exact noticed_same h t rfl rfl rfl rfl id id
  | @settle t _ hs _ hsettle =>
      cases hsettle with
      | wake => exact noticed_same h t rfl rfl rfl rfl id (quiet_of_update hs)
      | _ => exact noticed_same h t rfl rfl rfl rfl id id
  | turn _ _ _ hturn =>
      exact noticed_turn hheld hmailbox hsusp
        (fun t ht => hsusp.snapshot_of_ends horder ht) h hturn
  | bareYield => cases hok
  | @send t _ hs _ _ =>
      exact noticed_same h t rfl rfl rfl rfl id (quiet_of_update hs)
  | @settleBy t | @help t | @helped t | @wait t | @waitCallback t | @swallow t =>
      exact noticed_same h t rfl rfl rfl rfl id id
  | _ =>
      refine noticed_rest h _ (fun u => Function.update_apply ..) rfl id id id
        ?_ ?_ ?_ ?_ <;> grind -linarith

end Messages

section Runs

variable [DecidableEq T] [DecidableEq M] [DecidableEq F]
  {ok : State T M F → Action T M F → Prop}

/-- The settlement, in every reachable state. -/
theorem settling (hreach : (machine fut).Reach ok s) : Settling s := by
  refine Machine.Reach.invariant (P := Settling) ?_ ?_ hreach
  · rintro s rfl
    constructor <;> simp [initial, Settle.won]
  · intro s act s' _ h _ hstep
    exact settling_step h (does_of_step hstep)

/-- The messages, in every state of a run in which every yield reaches
`drainOne`. -/
theorem noticed (hok : ∀ s act, ok s act → act.propagates = true)
    (hreach : (machine fut).Reach ok s) : Noticed s := by
  refine Machine.Reach.invariant (P := Noticed) ?_ ?_ hreach
  · rintro s rfl
    constructor <;> simp [initial]
  · intro s act s' hreach h hallowed hstep
    have horder : Order s := order
      (fun s act h => Action.engineYields_of_propagates (hok s act h)) hreach
    exact noticed_step (held hreach) (mailbox hreach) horder
      (suspension hok hreach) (hok s act hallowed) h (does_of_step hstep)

end Runs

end ProtoST.Runtime.ActorTurn

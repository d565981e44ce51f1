import ProtoST.Runtime.ActorTurnNoticed

/-!
# No wakeup is lost

A suspended actor is among the waiters of the future it yielded on, or that future
is settled and the actor is about to be scheduled (`Wakes`).  This holds from the
moment the engine has registered the actor, or has found the future drained and
called `schedule()` itself, until the turn that resumes the message.

## Main results

* `turns_exclusive_no_lost_wakeup` — the actor has one place at a time; and at
  rest, with every yield delivered, a mailbox with messages or a settled future
  does not wait for nothing.
* `lost_message` — a run with a message `wait` that ends at rest with a message
  in `__pending__`.
-/

namespace ProtoST.Runtime.ActorTurn

open ProtoST.Lib

variable {T M F : Type} {fut : M → Option F} {s s' : State T M F}

/-! ## Wakeups of a suspended actor -/

/-- The phases in which the actor comes back whatever the flag says. -/
@[grind] def Fin.returns : Fin → Bool
  | .hasTail released | .hasQueue released => !released
  | .enqueue => true
  | .read | .casTwoOne | .casStale | .casRelease | .casReclaim => false

@[grind, inherit_doc Fin.returns] def Turn.returns : Turn M F → Bool
  | .popped => true
  | .finish _ fin => fin.returns
  | .idle | .next _ | .body _ | .settling _ _ | .yielded _ _ | .spill _ _ => false

/-- The actor that yields on `g` will be scheduled: it is among the waiters that
the settle of `g` schedules, or `g` is settled and somebody schedules it or will
look at the flag. -/
inductive Wakes (s : State T M F) (g : F) : Prop
  | registered : s.registered = some g → s.drained g = false →
      s.waiters g ≠ 0 → Wakes s g
  | taken (t : T) (n : Nat) : s.registered = some g →
      s.settle t = .wake g (n + 1) → Wakes s g
  | scheduling (t : T) : s.published g = true → s.sched t ≠ .idle → Wakes s g
  | marked : s.published g = true → s.flag = 2 → Wakes s g
  | ready : s.published g = true → s.ready ≠ 0 → Wakes s g
  | turning (t : T) : s.published g = true → (s.turn t).returns = true →
      Wakes s g

section Wakeups

variable [DecidableEq T] [DecidableEq M] [DecidableEq F]
  {act : Action T M F} {g : F} {t : T}

attribute [local grind =] Function.update_apply

/-- A settled future stays settled. -/
theorem published_step (hdoes : Does fut s act s')
    (h : s.published g = true) : s'.published g = true := by
  cases hdoes with
  | sched hd => cases hd <;> exact h
  | catching _ hd => cases hd <;> exact h
  | settle _ _ hd => cases hd <;> grind -linarith
  | turn _ _ _ hd =>
      cases hd with
      | finish _ hd => cases hd <;> exact h
      | _ => exact h
  | _ => exact h

/-- Only a resume and a new registration change the registration. -/
theorem registered_step (hdoes : Does fut s act s') :
    s'.registered = s.registered ∨ s'.snapshot = none ∨
      ∃ t h, s.catching t = .append h := by
  cases hdoes with
  | sched hd => cases hd <;> exact .inl rfl
  | catching _ hd =>
      cases hd with
      | parked hc => exact .inr (.inr ⟨_, _, hc⟩)
      | _ => exact .inl rfl
  | settle _ _ hd => cases hd <;> exact .inl rfl
  | turn _ _ _ hd =>
      cases hd with
      | finish _ hd => cases hd <;> exact .inl rfl
      | resume => exact .inr (.inl rfl)
      | _ => exact .inl rfl
  | _ => exact .inl rfl

/-- A waiter is not lost before the settle takes it. -/
theorem waiters_step (hdoes : Does fut s act s')
    (hdrained : s.drained g = false) (hwaiters : s.waiters g ≠ 0) :
    (s'.drained g = false ∧ s'.waiters g ≠ 0) ∨
      ∃ t n, s'.settle t = .wake g (n + 1) := by
  cases hdoes with
  | sched hd => cases hd <;> exact .inl ⟨hdrained, hwaiters⟩
  | catching _ hd => cases hd <;> grind -linarith
  | @settle t _ _ _ hd =>
      cases hd with
      | @drain f hs =>
          by_cases hf : f = g
          · subst hf
            obtain ⟨n, hn⟩ := Nat.exists_eq_succ_of_ne_zero hwaiters
            exact .inr ⟨t, n, by simp [hn]⟩
          · grind -linarith
      | _ => exact .inl ⟨hdrained, hwaiters⟩
  | turn _ _ _ hd =>
      cases hd with
      | finish _ hd => cases hd <;> exact .inl ⟨hdrained, hwaiters⟩
      | _ => exact .inl ⟨hdrained, hwaiters⟩
  | _ => exact .inl ⟨hdrained, hwaiters⟩

/-- A taken waiter is scheduled. -/
theorem taken_step (hdoes : Does fut s act s') {n : Nat}
    (h : s.settle t = .wake g (n + 1)) :
    s'.settle t = .wake g (n + 1) ∨ s'.sched t ≠ .idle := by
  cases hdoes with
  | sched hd => cases hd <;> exact .inl h
  | catching _ hd => cases hd <;> exact .inl h
  | settle _ _ hd => cases hd <;> grind -linarith
  | turn _ _ _ hd =>
      cases hd with
      | finish _ hd => cases hd <;> exact .inl h
      | _ => exact .inl h
  | _ => grind -linarith

/-- `schedule()` ends with a mark or with the actor in the ready stack. -/
theorem scheduling_step (hdoes : Does fut s act s') (h : s.sched t ≠ .idle) :
    s'.sched t ≠ .idle ∨ s'.flag = 2 ∨ s'.ready ≠ 0 := by
  cases hdoes with
  | sched hd => cases hd <;> grind -linarith
  | catching _ hd => cases hd <;> grind -linarith
  | settle _ _ hd => cases hd <;> grind -linarith
  | turn _ _ _ hd =>
      cases hd with
      | finish _ hd => cases hd <;> exact .inl h
      | _ => exact .inl h
  | _ => grind -linarith

/-- A mark is taken by a turn that goes on to look. -/
theorem marked_step (hdoes : Does fut s act s') (h : s.flag = 2) :
    s'.flag = 2 ∨ ∃ t, (s'.turn t).returns = true := by
  cases hdoes with
  | sched hd => cases hd <;> grind -linarith
  | catching _ hd => cases hd <;> exact .inl h
  | settle _ _ hd => cases hd <;> exact .inl h
  | @turn t _ _ _ _ hd =>
      cases hd with
      | finish _ hd =>
          cases hd with
          | consume => exact .inr ⟨t, by simp [Turn.returns, Fin.returns]⟩
          | _ => grind -linarith
      | _ => exact .inl h
  | _ => exact .inl h

/-- The actor leaves the ready stack by a pop. -/
theorem ready_step (hdoes : Does fut s act s') (h : s.ready ≠ 0) :
    s'.ready ≠ 0 ∨ ∃ t, (s'.turn t).returns = true := by
  cases hdoes with
  | sched hd => cases hd <;> grind -linarith
  | catching _ hd => cases hd <;> exact .inl h
  | settle _ _ hd => cases hd <;> exact .inl h
  | turn _ _ _ hd =>
      cases hd with
      | finish _ hd => cases hd <;> grind -linarith
      | _ => exact .inl h
  | @pop t => exact .inr ⟨t, by simp [Turn.returns]⟩
  | _ => exact .inl h

/-- A suspended turn that looks enqueues the actor, and one that popped it finds
the future settled. -/
theorem turning_step (hdoes : Does fut s act s')
    (h : (s.turn t).returns = true)
    (hends : ∀ t susp, (s.turn t).ends = some susp → susp = true)
    (hsnapshot : s'.snapshot ≠ none) (hwaiting : s.waitingOn = some g)
    (hpublished : s.published g = true) :
    (s'.turn t).returns = true ∨ s'.ready ≠ 0 := by
  cases hdoes with
  | sched hd => cases hd <;> exact .inl h
  | catching _ hd => cases hd <;> exact .inl h
  | settle _ _ hd => cases hd <;> exact .inl h
  | turn _ _ _ hd =>
      cases hd with
      | finish hturn hd =>
          cases hd with
          | @noTail released _ => cases released <;> grind -linarith
          | stale _ hsusp => cases hends _ false (by rw [hturn, hsusp]; rfl)
          | _ => grind -linarith
      | resume => exact absurd rfl hsnapshot
      | _ => grind -linarith
  | _ => grind -linarith

/-- **Step lemma** for a wakeup. -/
theorem wakes_step (hsettling : Settling s) (hdoes : Does fut s act s')
    (h : Wakes s g)
    (hends : ∀ t susp, (s.turn t).ends = some susp → susp = true)
    (hsnapshot : s'.snapshot ≠ none) (hwaiting : s.waitingOn = some g)
    (hregistered : s'.registered = s.registered) : Wakes s' g := by
  cases h with
  | registered hr hdrained hwaiters =>
      rcases waiters_step hdoes hdrained hwaiters with ⟨hd, hw⟩ | ⟨t, n, ht⟩
      · exact .registered (hregistered.trans hr) hd hw
      · exact .taken t n (hregistered.trans hr) ht
  | taken t n hr ht =>
      have hpublished := hsettling.published t g (by rw [ht]; rfl) (by rw [ht]; rfl)
      rcases taken_step hdoes ht with ht | ht
      · exact .taken t n (hregistered.trans hr) ht
      · exact .scheduling t (published_step hdoes hpublished) ht
  | scheduling t hpublished ht =>
      have hpublished' := published_step hdoes hpublished
      rcases scheduling_step hdoes ht with ht | ht | ht
      · exact .scheduling t hpublished' ht
      · exact .marked hpublished' ht
      · exact .ready hpublished' ht
  | marked hpublished hflag =>
      have hpublished' := published_step hdoes hpublished
      rcases marked_step hdoes hflag with hflag | ⟨t, ht⟩
      · exact .marked hpublished' hflag
      · exact .turning t hpublished' ht
  | ready hpublished hready =>
      have hpublished' := published_step hdoes hpublished
      rcases ready_step hdoes hready with hready | ⟨t, ht⟩
      · exact .ready hpublished' hready
      · exact .turning t hpublished' ht
  | turning t hpublished ht =>
      have hpublished' := published_step hdoes hpublished
      rcases turning_step hdoes ht hends hsnapshot hwaiting hpublished with
        ht | hready
      · exact .turning t hpublished' ht
      · exact .ready hpublished' hready

end Wakeups

/-! ## The actor awaits a future -/

/-- The yield on `g` is on its way to `drainOne`, or its message is suspended. -/
inductive Aims (s : State T M F) (g : F) : Prop
  | caught (t : T) : s.catching t = .rethrow g → Aims s g
  | yielded (t : T) (mode : Mode M F) : s.turn t = .yielded mode g → Aims s g
  | suspended : s.suspended ≠ [] → s.awaits = some g → Aims s g

section Aims

variable {g : F}

/-- The attributes of the suspension are written. -/
theorem Aims.attributes (h : Aims s g) (horder : Order s)
    (hsusp : Suspension fut s) : s.snapshot ≠ none ∧ s.waitingOn = some g := by
  cases h with
  | caught t ht =>
      obtain ⟨hsome, hwaiting⟩ := hsusp.caught t g (by rw [ht]; rfl)
      exact ⟨Option.isSome_iff_ne_none.mp hsome, hwaiting⟩
  | yielded t mode ht =>
      obtain ⟨-, hsome, -, hwaiting⟩ := hsusp.yielded t mode g ht
      exact ⟨Option.isSome_iff_ne_none.mp hsome, hwaiting⟩
  | suspended hne hawaits =>
      obtain ⟨m, h, hparked⟩ := hsusp.parked_of_suspended horder hne
      refine ⟨by simp [hparked.snapshot], ?_⟩
      rw [hparked.waitingOn, ← hparked.yielded.2, hawaits]

/-- An engine's clause runs in the turn of the owner. -/
theorem Order.owns_of_catching (horder : Order s) {t : T}
    (ht : s.catching t ≠ .idle) : (s.turn t).owns = true :=
  Turn.owns_of_active (Turn.active_of_runs (horder.catching t ht))

/-- A turn that ends meanwhile ends suspended. -/
theorem Aims.ends (h : Aims s g) (hheld : Held s) (horder : Order s)
    (hsusp : Suspension fut s) (t : T) (susp : Bool)
    (ht : (s.turn t).ends = some susp) : susp = true := by
  have howns := hsusp.owns_of_ends (t := t) (by simp [ht])
  cases h with
  | caught u hu =>
      have hruns := horder.catching u (by simp [hu])
      obtain rfl := hheld.turn_turn t u howns
        (horder.owns_of_catching (by simp [hu]))
      cases hx : s.turn t <;> simp_all [Turn.runs, Turn.ends]
  | yielded u mode hu =>
      obtain rfl := hheld.turn_turn t u howns (by rw [hu]; rfl)
      simp [hu, Turn.ends] at ht
  | suspended hne _ =>
      have hiff := hsusp.ends t susp ht
      cases susp with
      | true => rfl
      | false => exact absurd (hiff.mpr rfl) hne

/-- Nobody registers meanwhile. -/
theorem Aims.not_append (h : Aims s g) (hheld : Held s) (horder : Order s)
    (t : T) (k : F) : s.catching t ≠ .append k := by
  intro ht
  have hruns := horder.catching t (by simp [ht])
  have howns := horder.owns_of_catching (t := t) (by simp [ht])
  cases h with
  | caught u hu =>
      obtain rfl := hheld.turn_turn t u howns
        (horder.owns_of_catching (by simp [hu]))
      rw [ht] at hu
      cases hu
  | yielded u mode hu =>
      obtain rfl := hheld.turn_turn t u howns (by rw [hu]; rfl)
      simp [hu, Turn.runs] at hruns
  | suspended hne _ => exact hne (horder.active t (Turn.active_of_runs hruns))

/-- What the actor awaited before a step that leaves it alone. -/
theorem Aims.of_same (h : Aims s' g)
    (hcatching : ∀ t, s'.catching t = .rethrow g → Aims s g)
    (hturn : ∀ t mode, s'.turn t = .yielded mode g → Aims s g)
    (hsuspended : s'.suspended = s.suspended) (hawaits : s'.awaits = s.awaits) :
    Aims s g := by
  cases h with
  | caught t ht => exact hcatching t ht
  | yielded t mode ht => exact hturn t mode ht
  | suspended hne haw => exact .suspended (hsuspended ▸ hne) (hawaits ▸ haw)

variable [DecidableEq T] [DecidableEq M]

attribute [local grind =] Function.update_apply

theorem Aims.back_turn {t : T} (horder : Order s) (hdoes : DoesTurn fut s t s')
    (h : Aims s' g) : Aims s g := by
  cases hdoes with
  | finish _ hfinish =>
      cases hfinish with
      | _ => exact h.of_same (fun u hu => .caught u hu) (by grind -linarith [Aims]) rfl rfl
  | resume ht hsnapshot _ =>
      have hnil := (hsnapshot ▸ horder.parked).filter_eq_nil
      cases h with
      | caught u hu => exact .caught u hu
      | yielded u mode hu => exact .yielded u mode (by grind -linarith)
      | suspended hne => exact absurd hnil hne
  | @yielded mode k m c ht _ =>
      cases h with
      | caught u hu => exact .caught u hu
      | yielded u mode hu => exact .yielded u mode (by grind -linarith)
      | suspended _ hawaits =>
          obtain rfl := Option.some.inj hawaits
          exact .yielded t mode ht
  | reyielded ht =>
      cases h with
      | caught u hu => exact .caught u hu
      | yielded u mode hu => exact .yielded u mode (by grind -linarith)
      | suspended _ hawaits =>
          obtain rfl := Option.some.inj hawaits
          exact .yielded t _ ht
  | _ => exact h.of_same (fun u hu => .caught u hu) (by grind -linarith [Aims]) rfl rfl

/-- What the actor awaits it awaited before the step, or an engine has just
caught the yield. -/
theorem Aims.back [DecidableEq F] {act : Action T M F} (horder : Order s)
    (hok : act.propagates = true) (hdoes : Does fut s act s') (h : Aims s' g) :
    Aims s g ∨ ∃ t, DoesCatch s t s' ∧ s'.catching t = .rethrow g := by
  cases hdoes with
  | sched hd =>
      cases hd <;> exact .inl (h.of_same (fun u hu => .caught u hu)
        (fun u mode hu => .yielded u mode hu) rfl rfl)
  | settle _ _ hd =>
      cases hd <;> exact .inl (h.of_same (fun u hu => .caught u hu)
        (fun u mode hu => .yielded u mode hu) rfl rfl)
  | turn _ _ _ hd => exact .inl (h.back_turn horder hd)
  | bareYield => cases hok
  | @catching t _ _ hd =>
      have hturn : s'.turn = s.turn := by cases hd <;> rfl
      have hsuspended : s'.suspended = s.suspended := by cases hd <;> rfl
      have hawaits : s'.awaits = s.awaits := by cases hd <;> rfl
      have hothers : ∀ u, u ≠ t → s'.catching u = s.catching u := by
        intro u hu
        cases hd <;> simp [hu]
      by_cases ht : s'.catching t = .rethrow g
      · exact .inr ⟨t, hd, ht⟩
      · refine .inl (h.of_same (fun u hu => ?_)
          (fun u mode hu => .yielded u mode (hturn ▸ hu)) hsuspended hawaits)
        by_cases hut : u = t
        · exact absurd (hut ▸ hu) ht
        · exact .caught u (hothers u hut ▸ hu)
  | @deliver t k mode _ hc _ _ =>
      refine .inl (h.of_same (fun u hu => .caught u (by grind -linarith)) ?_ rfl rfl)
      intro u mode' hu
      by_cases hut : u = t
      · obtain rfl : k = g := by grind -linarith
        exact .caught t hc
      · exact .yielded u mode' (by grind -linarith)
  | _ => exact .inl (h.of_same (by grind -linarith [Aims]) (by grind [Aims]) rfl rfl)

end Aims

/-- Whatever future the actor awaits, it will be scheduled. -/
def AllWake (s : State T M F) : Prop :=
  ∀ g, Aims s g → Wakes s g

section Runs

variable [DecidableEq T] [DecidableEq M] [DecidableEq F]

/-- **Step lemma** for the wakeups. -/
theorem allWake_step {act : Action T M F} (hheld : Held s) (horder : Order s)
    (hsusp : Suspension fut s) (horder' : Order s') (hsusp' : Suspension fut s')
    (hsettling : Settling s) (hok : act.propagates = true) (h : AllWake s)
    (hdoes : Does fut s act s') : AllWake s' := by
  intro g haims
  rcases haims.back horder hok hdoes with hold | ⟨t, hcatch, ht⟩
  · obtain ⟨hsnapshot, -⟩ := haims.attributes horder' hsusp'
    obtain ⟨-, hwaiting⟩ := hold.attributes horder hsusp
    refine wakes_step hsettling hdoes (h g hold) (hold.ends hheld horder hsusp)
      hsnapshot hwaiting ?_
    rcases registered_step hdoes with hsame | hnone | ⟨t, k, hk⟩
    · exact hsame
    · exact absurd hnone hsnapshot
    · exact absurd hk (hold.not_append hheld horder t k)
  · cases hcatch with
    | first | pending => simp at ht
    | again hc hsome =>
        -- a body runs without a snapshot
        have hruns := horder.catching t (by simp [hc])
        have hnone := (hsusp.runs t hruns).2 (by rw [hc]; rfl)
        rw [hnone] at hsome
        cases hsome
    | @settled k _ hpublished =>
        obtain rfl : k = g := by simpa using ht
        exact .scheduling t hpublished (by simp)
    | @drained k _ hdrained =>
        obtain rfl : k = g := by simpa using ht
        exact .scheduling t (hsettling.drained k hdrained) (by simp)
    | @parked k _ hdrained =>
        obtain rfl : k = g := by simpa using ht
        exact .registered rfl hdrained (by simp)

/-- The wakeups, in every state of a run in which every yield reaches
`drainOne`. -/
theorem allWake
    (hreach : (machine fut).Reach (fun _ act => act.propagates = true) s) :
    AllWake s := by
  have horder : ∀ {s : State T M F},
      (machine fut).Reach (fun _ act => act.propagates = true) s → Order s :=
    fun h => order (fun _ _ hok => Action.engineYields_of_propagates hok) h
  refine Machine.Reach.invariant (P := AllWake) ?_ ?_ hreach
  · rintro s rfl g haims
    cases haims with
    | caught _ ht => cases ht
    | yielded _ _ ht => cases ht
    | suspended hne _ => exact absurd rfl hne
  · intro s act s' hreach h hok hstep
    have hreach' := hreach.step act hok hstep
    exact allWake_step (held hreach) (horder hreach)
      (suspension (fun _ _ hok => hok) hreach) (horder hreach')
      (suspension (fun _ _ hok => hok) hreach') (settling hreach) hok h
      (does_of_step hstep)

/-! ## The actor's places, and rest -/

/-- The actor has one place at a time. -/
structure Exclusive (s : State T M F) : Prop where
  stack : s.ready ≤ 1
  owner : ∀ t u, (s.turn t).owns = true → (s.turn u).owns = true → t = u
  stack_owner : s.ready = 1 → ∀ t, (s.turn t).owns = false
  idle : s.flag = 0 → s.ready = 0 ∧ ∀ t, (s.turn t).owns = false
  /-- With the flag up it is in the stack, with a turn, or on its way to the
  stack. -/
  somewhere : s.flag ≠ 0 → s.ready = 1 ∨
    ∃ t, (s.turn t).owns = true ∨ (s.sched t).holds = true

/-- The flag is 0 and neither `schedule()` nor `finishDrain` is in progress. -/
def Quiescent (s : State T M F) : Prop :=
  s.flag = 0 ∧ (∀ t, s.sched t = .idle) ∧
    ∀ t susp fin, s.turn t ≠ .finish susp fin

/-- Nobody waits for nothing. -/
structure NothingLost (s : State T M F) : Prop where
  /-- An actor that is not suspended has no message. -/
  messages : s.snapshot = none → s.queue = [] ∧ s.pending = []
  /-- A suspended actor is registered on a future whose waiters are not all
  scheduled. -/
  suspension : s.snapshot ≠ none →
    ∃ g, s.registered = some g ∧ s.woken g = false

omit [DecidableEq T] [DecidableEq M] [DecidableEq F] in
theorem Held.exclusive (h : Held s) : Exclusive s :=
  ⟨h.ready_le, h.turn_turn, h.ready_turn,
    fun hzero => ⟨h.idle_ready hzero, h.idle_turn hzero⟩, h.held⟩

omit [DecidableEq T] [DecidableEq M] [DecidableEq F] in
/-- At rest a wakeup is a registration. -/
theorem Wakes.registered_of_quiescent {g : F} (h : Wakes s g) (hheld : Held s)
    (hsettling : Settling s) (hquiet : Quiescent s) :
    s.registered = some g ∧ s.woken g = false := by
  obtain ⟨hzero, hsched, hturn⟩ := hquiet
  cases h with
  | registered hr hdrained _ =>
      refine ⟨hr, Bool.eq_false_iff.mpr fun hwoken => ?_⟩
      rw [(hsettling.woken g hwoken).1] at hdrained
      cases hdrained
  | taken t n hr ht => exact ⟨hr, hsettling.notWoken t g (by rw [ht]; rfl)⟩
  | scheduling t _ ht => exact absurd (hsched t) ht
  | marked _ htwo => omega
  | ready _ hready => exact absurd (hheld.idle_ready hzero) hready
  | turning t _ ht =>
      have hfree := hheld.idle_turn hzero t
      cases hx : s.turn t with
      | popped => simp [hx, Turn.owns] at hfree
      | finish susp fin => exact absurd hx (hturn t susp fin)
      | _ => simp [hx, Turn.returns] at ht

omit [DecidableEq T] [DecidableEq M] [DecidableEq F] in
/-- At rest nothing is lost. -/
theorem nothingLost_of_quiescent (hheld : Held s) (horder : Order s)
    (hsusp : Suspension fut s) (hsettling : Settling s) (hnoticed : Noticed s)
    (hwake : AllWake s) (hquiet : Quiescent s) : NothingLost s := by
  have hfree := hheld.idle_turn hquiet.1
  have hactive : ∀ t, (s.turn t).active = false := fun t =>
    Bool.eq_false_iff.mpr fun hact => by
      simpa [hfree t] using Turn.owns_of_active hact
  refine ⟨fun hnone => ⟨?_, ?_⟩, fun hsome => ?_⟩
  · refine hnoticed.idle hquiet.1 hnone hquiet.2.1 fun t => ?_
    cases hx : s.turn t with
    | finish susp fin => exact absurd hx (hquiet.2.2 t susp fin)
    | _ => rfl
  · refine hnoticed.tail (fun t => ?_) hnone
    have ht := hfree t
    cases hx : s.turn t with
    | idle | finish => rfl
    | _ => simp [hx, Turn.owns] at ht
  · have hne : s.suspended ≠ [] := fun hnil =>
      hsome (hsusp.resting hactive hnil).1
    obtain ⟨m, g, hparked⟩ := hsusp.parked_of_suspended horder hne
    have haims : Aims s g := .suspended hne hparked.yielded.2
    exact ⟨g, (hwake g haims).registered_of_quiescent hheld hsettling hquiet⟩

/-- **One place at a time, in every run; nothing lost at rest, in every run in
which every yield reaches `drainOne`.** -/
theorem turns_exclusive_no_lost_wakeup (fut : M → Option F) :
    (∀ s : State T M F, (machine fut).Reachable s → Exclusive s) ∧
      ∀ s : State T M F,
        (machine fut).Reach (fun _ act => act.propagates = true) s →
        Quiescent s → NothingLost s := by
  refine ⟨fun s hreach => (held hreach).exclusive, fun s hreach hquiet => ?_⟩
  have horder : Order s := order
    (fun _ _ hok => Action.engineYields_of_propagates hok) hreach
  exact nothingLost_of_quiescent (held hreach) horder
    (suspension (fun _ _ hok => hok) hreach) (settling hreach)
    (noticed (fun _ _ hok => hok) hreach) (allWake hreach) hquiet

end Runs

/-- A message that waits, at rest. -/
theorem turns_exclusive_no_lost_wakeup_wait :
    ∃ s : State Nat Nat Nat, s.snapshot = some [.message 1] ∧
      Exclusive s ∧ NothingLost s := by
  have hreach := Machine.reach_of_execOk (M := machine some)
    (fun _ act => act.propagates) (fun _ _ h => h)
    (.init rfl : (machine some).Reach
      (fun _ act => act.propagates = true) (initial : State Nat Nat Nat))
    (show (machine some).execOk (fun _ act => act.propagates) initial
      [.send 0 1, .run 0, .run 0, .run 0, .run 0, .pop 1, .run 1, .run 1,
        .run 1, .start 1 .method, .wait 1 7 0, .run 1, .run 1, .run 1,
        .deliver 1, .run 1, .run 1, .run 1, .run 1] = some _ from rfl)
  have hboth := turns_exclusive_no_lost_wakeup (T := Nat) (M := Nat) (F := Nat) some
  refine ⟨_, rfl, hboth.1 _ hreach.reachable,
    hboth.2 _ hreach ⟨rfl, fun t => ?_, fun t susp fin => ?_⟩⟩
  · match t with
    | 0 | 1 | _ + 2 => rfl
  · match t with
    | 0 | 1 | _ + 2 => nofun

/-- Two messages `wait` to an actor that wraps a pending future, with another
message behind them: the second turn ends suspended, without a snapshot and with
the flag at 1, and the last message stays in `__pending__`. -/
theorem lost_message :
    ¬ ∀ s : State Nat Nat Nat, (machine some).Reachable s →
      Exclusive s ∧ (Quiescent s → NothingLost s) := by
  intro hall
  have hreach := Machine.reach_of_exec (M := machine some) (.init rfl)
    (show (machine some).exec (initial : State Nat Nat Nat)
      [.send 0 1, .run 0, .run 0, .run 0, .run 0, .send 0 2, .run 0, .run 0,
        .run 0, .send 0 3, .run 0, .run 0, .pop 1, .run 1, .run 1, .run 1,
        .start 1 .primitive, .bareYield 1 7, .run 1, .run 1, .run 1, .run 1,
        .run 1, .run 1, .pop 1, .run 1, .run 1, .start 1 .primitive,
        .bareYield 1 7, .run 1, .run 1, .run 1, .run 1] = some _ from rfl)
  have hquiet := (hall _ hreach).2 ⟨rfl, fun t => ?_, fun t susp fin => ?_⟩
  · cases (hquiet.messages rfl).2
  · match t with
    | 0 | 1 | _ + 2 => rfl
  · match t with
    | 0 | 1 | _ + 2 => nofun

end ProtoST.Runtime.ActorTurn

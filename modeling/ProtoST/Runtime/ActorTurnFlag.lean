import ProtoST.Runtime.ActorTurn

/-!
# The three-state flag of an actor

Whoever takes `__sched__` from 0 to 1 holds the actor: first the `schedule()`
call or the `finishDrain` that claimed it, then the ready stack, then the turn
that popped it, until the flag goes back to 0.  `Held` says that there is one
holder when the flag is not 0 and none when it is.

## Main results

* `flagMove_of_does` — what a step does to the flag, the ready stack and the
  holder.
* `held` — the invariant, in every reachable state.
-/

namespace ProtoST.Runtime.ActorTurn

open ProtoST.Lib

/-- `finishDrain` has not given the actor away. -/
@[grind] def Fin.owns : Fin → Bool
  | .read | .casTwoOne | .casStale | .casRelease | .enqueue => true
  | .hasTail released | .hasQueue released => !released
  | .casReclaim => false

/-- The turn owns the actor. -/
@[grind] def Turn.owns {M F : Type} : Turn M F → Bool
  | .idle => false
  | .popped | .next _ | .body _ | .settling _ _ | .yielded _ _ | .spill _ _ => true
  | .finish _ fin => fin.owns

/-- A `schedule()` that claimed the actor and has not enqueued it. -/
@[grind] def Sched.holds {M : Type} : Sched M → Bool
  | .enqueue => true
  | .idle | .push _ | .read | .casOne | .casZero => false

variable {T M F : Type} {fut : M → Option F} {s s' : State T M F}

/-- One holder when the flag is not 0, none when it is. -/
structure Held (s : State T M F) : Prop where
  flag_le : s.flag ≤ 2
  ready_le : s.ready ≤ 1
  idle_ready : s.flag = 0 → s.ready = 0
  idle_turn : s.flag = 0 → ∀ t, (s.turn t).owns = false
  idle_sched : s.flag = 0 → ∀ t, (s.sched t).holds = false
  ready_turn : s.ready = 1 → ∀ t, (s.turn t).owns = false
  ready_sched : s.ready = 1 → ∀ t, (s.sched t).holds = false
  turn_turn : ∀ t u, (s.turn t).owns = true → (s.turn u).owns = true → t = u
  sched_sched : ∀ t u, (s.sched t).holds = true → (s.sched u).holds = true →
    t = u
  turn_sched : ∀ t u, (s.turn t).owns = true → (s.sched u).holds = false
  held : s.flag ≠ 0 → s.ready = 1 ∨
    ∃ t, (s.turn t).owns = true ∨ (s.sched t).holds = true

/-- No turn becomes or ceases to be the owner. -/
def SameTurns (s s' : State T M F) : Prop :=
  ∀ u, (s'.turn u).owns = (s.turn u).owns

/-- No `schedule()` becomes or ceases to be the holder. -/
def SameScheds (s s' : State T M F) : Prop :=
  ∀ u, (s'.sched u).holds = (s.sched u).holds

/-- Of all turns only the one of `t` changes its ownership, to `x`. -/
def TurnOwns [DecidableEq T] (s s' : State T M F) (t : T) (x : Bool) : Prop :=
  ∀ u, (s'.turn u).owns = if u = t then x else (s.turn u).owns

/-- Of all `schedule()` calls only the one of `t` changes its hold, to `x`. -/
def SchedHolds [DecidableEq T] (s s' : State T M F) (t : T) (x : Bool) : Prop :=
  ∀ u, (s'.sched u).holds = if u = t then x else (s.sched u).holds

section Moves

variable [DecidableEq T]

/-- What a step does to the flag, the ready stack and the holder. -/
inductive FlagMove (s s' : State T M F) : Prop
  | quiet : s'.flag = s.flag → s'.ready = s.ready →
      SameTurns s s' → SameScheds s s' → FlagMove s s'
  /-- `schedule()` marks a wakeup, or `finishDrain` takes the mark. -/
  | mark : s.flag ≠ 0 → s'.flag ≠ 0 → s'.flag ≤ 2 → s'.ready = s.ready →
      SameTurns s s' → SameScheds s s' → FlagMove s s'
  | claim (t : T) : s.flag = 0 → s'.flag = 1 → s'.ready = s.ready →
      SameTurns s s' → SchedHolds s s' t true → FlagMove s s'
  | reclaim (t : T) : s.flag = 0 → s'.flag = 1 → s'.ready = s.ready →
      TurnOwns s s' t true → SameScheds s s' → FlagMove s s'
  | enqueue (t : T) : (s.sched t).holds = true → s'.flag = s.flag →
      s'.ready = s.ready + 1 → SameTurns s s' → SchedHolds s s' t false →
      FlagMove s s'
  | requeue (t : T) : (s.turn t).owns = true → s'.flag = s.flag →
      s'.ready = s.ready + 1 → TurnOwns s s' t false → SameScheds s s' →
      FlagMove s s'
  | pop (t : T) : 0 < s.ready → s'.flag = s.flag → s'.ready = s.ready - 1 →
      TurnOwns s s' t true → SameScheds s s' → FlagMove s s'
  | release (t : T) : (s.turn t).owns = true → s.flag = 1 → s'.flag = 0 →
      s'.ready = s.ready → TurnOwns s s' t false → SameScheds s s' →
      FlagMove s s'

theorem flagMove_of_sched {t : T} (hdoes : DoesSched s t s') :
    FlagMove s s' := by
  cases hdoes with
  | mark hs hflag =>
      exact .mark (by simp [hflag]) (by simp) (by simp) rfl (fun _ => rfl)
        (by grind -linarith [SameScheds])
  | claim hs hflag =>
      exact .claim t hflag rfl rfl (fun _ => rfl) (by grind -linarith [SchedHolds])
  | enqueue hs =>
      exact .enqueue t (by simp [hs, Sched.holds]) rfl rfl (fun _ => rfl)
        (by grind -linarith [SchedHolds])
  | _ => exact .quiet rfl rfl (fun _ => rfl) (by grind -linarith [SameScheds])

theorem flagMove_of_catch [DecidableEq F] {t : T} (hs : s.sched t = .idle)
    (hdoes : DoesCatch s t s') : FlagMove s s' := by
  cases hdoes with
  | _ => exact .quiet rfl rfl (fun _ => rfl) (by grind -linarith [SameScheds])

theorem flagMove_of_settle [DecidableEq F] {t : T} (hs : s.sched t = .idle)
    (hdoes : DoesSettle s t s') : FlagMove s s' := by
  cases hdoes with
  | _ => exact .quiet rfl rfl (fun _ => rfl) (by grind -linarith [SameScheds])

theorem flagMove_of_finish {t : T} {susp : Bool} {fin : Fin}
    (ht : s.turn t = .finish susp fin) (hdoes : DoesFinish s t susp fin s') :
    FlagMove s s' := by
  cases hdoes with
  | consume hflag =>
      exact .mark (by simp [hflag]) (by simp) (by simp) rfl
        (by grind -linarith [SameTurns]) (fun _ => rfl)
  | releaseStale hflag | release hflag | releaseSuspended hflag =>
      exact .release t (by simp [ht, Turn.owns, Fin.owns]) hflag rfl rfl
        (by grind -linarith [TurnOwns]) (fun _ => rfl)
  | reclaim hflag =>
      exact .reclaim t hflag rfl rfl (by grind -linarith [TurnOwns]) (fun _ => rfl)
  | requeue =>
      exact .requeue t (by simp [ht, Turn.owns, Fin.owns]) rfl rfl
        (by grind -linarith [TurnOwns]) (fun _ => rfl)
  | @noTail released => 
      exact .quiet rfl rfl (by cases released <;> grind -linarith [SameTurns]) (fun _ => rfl)
  | _ => exact .quiet rfl rfl (by grind -linarith [SameTurns]) (fun _ => rfl)

theorem flagMove_of_turn [DecidableEq M] {t : T} (hdoes : DoesTurn fut s t s') :
    FlagMove s s' := by
  cases hdoes with
  | finish ht hfinish => exact flagMove_of_finish ht hfinish
  | _ => exact .quiet rfl rfl (by grind -linarith [SameTurns]) (fun _ => rfl)

/-- Every step makes one of these moves. -/
theorem flagMove_of_does [DecidableEq M] [DecidableEq F] {act : Action T M F}
    (hdoes : Does fut s act s') : FlagMove s s' := by
  cases hdoes with
  | sched hsched => exact flagMove_of_sched hsched
  | catching hs hcatch => exact flagMove_of_catch hs hcatch
  | settle hs _ hsettle => exact flagMove_of_settle hs hsettle
  | turn _ _ _ hturn => exact flagMove_of_turn hturn
  | @pop t _ _ _ ht hready =>
      exact .pop t hready rfl rfl (by grind -linarith [TurnOwns]) (fun _ => rfl)
  | _ => exact .quiet rfl rfl (by grind -linarith [SameTurns]) (by grind [SameScheds])

/-- A move keeps the single holder. -/
theorem held_move (h : Held s) (hmove : FlagMove s s') : Held s' := by
  obtain ⟨hflag, hready, hir, hit, his, hrt, hrs, htt, hss, hts, hheld⟩ := h
  cases hmove with
  | quiet hflag' hready' hturns hscheds =>
      simp only [SameTurns, SameScheds] at hturns hscheds
      constructor <;> simp only [hflag', hready', hturns, hscheds] <;> assumption
  | mark hne hne' hle hready' hturns hscheds =>
      simp only [SameTurns, SameScheds] at hturns hscheds
      refine ⟨hle, by omega, fun hzero => absurd hzero hne',
        fun hzero => absurd hzero hne', fun hzero => absurd hzero hne',
        ?_, ?_, ?_, ?_, ?_, fun _ => ?_⟩ <;>
        simp only [hready', hturns, hscheds] <;> first | assumption | exact hheld hne
  | claim t hzero hone hready' hturns hholds =>
      simp only [SameTurns, SchedHolds] at hturns hholds
      refine ⟨by omega, by omega, ?_, ?_, ?_, ?_, ?_, ?_, ?_, ?_,
        fun _ => .inr ⟨t, .inr (by simp [hholds])⟩⟩ <;> grind -linarith
  | reclaim t hzero hone hready' howns hscheds =>
      simp only [TurnOwns, SameScheds] at howns hscheds
      refine ⟨by omega, by omega, ?_, ?_, ?_, ?_, ?_, ?_, ?_, ?_,
        fun _ => .inr ⟨t, .inl (by simp [howns])⟩⟩ <;> grind -linarith
  | enqueue t hholds hflag' hready' hturns hscheds =>
      simp only [SameTurns, SchedHolds] at hturns hscheds
      have hzero : s.ready = 0 := by grind -linarith
      refine ⟨by omega, by omega, ?_, ?_, ?_, ?_, ?_, ?_, ?_, ?_,
        fun _ => .inl (by omega)⟩ <;> grind -linarith
  | requeue t howns hflag' hready' hturns hscheds =>
      simp only [TurnOwns, SameScheds] at hturns hscheds
      have hzero : s.ready = 0 := by grind -linarith
      refine ⟨by omega, by omega, ?_, ?_, ?_, ?_, ?_, ?_, ?_, ?_,
        fun _ => .inl (by omega)⟩ <;> grind -linarith
  | pop t hpos hflag' hready' hturns hscheds =>
      simp only [TurnOwns, SameScheds] at hturns hscheds
      refine ⟨by omega, by omega, ?_, ?_, ?_, ?_, ?_, ?_, ?_, ?_,
        fun _ => .inr ⟨t, .inl (by simp [hturns])⟩⟩ <;> grind -linarith
  | release t howns hone hzero hready' hturns hscheds =>
      simp only [TurnOwns, SameScheds] at hturns hscheds
      refine ⟨by omega, by omega, ?_, ?_, ?_, ?_, ?_, ?_, ?_, ?_,
        fun hne => absurd hzero hne⟩ <;> grind -linarith

end Moves

/-- An idle actor is held by nobody. -/
theorem held_initial : Held (initial : State T M F) := by
  constructor <;> simp [initial, Turn.owns, Sched.holds]

/-- **The flag and the holder, in every reachable state.** -/
theorem held [DecidableEq T] [DecidableEq M] [DecidableEq F]
    {ok : State T M F → Action T M F → Prop}
    (hreach : (machine fut).Reach ok s) : Held s := by
  refine Machine.Reach.invariant (P := Held) ?_ ?_ hreach
  · rintro s rfl
    exact held_initial
  · intro s act s' _ h _ hstep
    exact held_move h (flagMove_of_does (does_of_step hstep))

end ProtoST.Runtime.ActorTurn

import ProtoST.Runtime.ActorTurnOrder

/-!
# The suspension of an actor

The engine that catches a `FutureYield` writes the snapshot and `__waiting_on__`
before it is known who catches the exception next.  If that is `drainOne`, the
turn ends suspended, and the next turn resumes the snapshot before it takes a
message.  If it is `invokeCallback`, which drops what a `thenDo:` block throws,
the turn goes on with a snapshot that belongs to no suspended message.

The results are about the runs in which every `FutureYield` is thrown under an
engine and reaches `drainOne` (`Action.propagates`).

## Main results

* `suspension` — the invariant of these runs.
* `suspension_sound` — no message is started over a snapshot, and a suspended
  turn leaves the snapshot of its message.
* `start_over_snapshot` — a run whose callback waits, and whose next message is
  started over the snapshot of the callback.
-/

namespace ProtoST.Runtime.ActorTurn

open ProtoST.Lib

variable {T M F : Type} {fut : M → Option F} {s s' : State T M F}

/-- A `FutureYield` is thrown under an engine and not dropped on its way to
`drainOne`. -/
def Action.propagates : Action T M F → Bool
  | .bareYield _ _ | .swallow _ => false
  | _ => true

theorem Action.engineYields_of_propagates {act : Action T M F}
    (h : act.propagates = true) : act.engineYields = true := by
  cases act with
  | bareYield => cases h
  | _ => rfl

/-- The future of a yield whose snapshot is taken. -/
@[grind] def Catch.awaited : Catch M F → Option F
  | .readState g | .append g | .rethrow g => some g
  | .idle | .snap _ _ => none

/-- The body that a resume restores is that of one message. -/
@[grind] def Mode.Resumes (fut : M → Option F) : Mode M F → Prop
  | .resumed frames future who =>
      ∃ m, frames = [.message m] ∧ future = fut m ∧ who = [m]
  | .method _ _ | .primitive _ _ => True

/-- `finishDrain` has not released the actor, nor claimed it again. -/
@[grind] def Fin.first : Fin → Bool
  | .read | .casTwoOne | .casStale | .casRelease => true
  | .hasTail released | .hasQueue released => !released
  | .casReclaim | .enqueue => false

/-- The phases in which the turn has decided to end, suspended or not. -/
@[grind] def Turn.ends : Turn M F → Option Bool
  | .spill _ susp => some susp
  | .finish true _ => some true
  | .finish false fin => if fin.first then some false else none
  | .idle | .popped | .next _ | .body _ | .settling _ _ | .yielded _ _ => none

/-- The invariant of the runs in which every yield reaches `drainOne`. -/
structure Suspension (fut : M → Option F) (s : State T M F) : Prop where
  single : ∀ frames, s.snapshot = some frames → frames.length = 1
  frames : ∀ t g frames, s.catching t = .snap g frames → frames.length = 1
  body : ∀ t mode, s.turn t = .body mode → mode.Resumes fut
  yielded : ∀ t mode g, s.turn t = .yielded mode g → mode.Resumes fut ∧
    s.snapshot.isSome ∧ s.suspFut = none ∧ s.waitingOn = some g
  next : ∀ t c, s.turn t = .next c → s.snapshot = none ∧ s.suspFut = none
  runs : ∀ t, (s.turn t).runs = true → s.suspFut = none ∧
    ((s.catching t).awaited = none → s.snapshot = none)
  caught : ∀ t g, (s.catching t).awaited = some g →
    s.snapshot.isSome ∧ s.waitingOn = some g
  parked : ∀ m, s.suspended = [m] → s.suspFut = fut m ∧
    s.waitingOn = s.awaits ∧ s.awaits.isSome
  resting : (∀ t, (s.turn t).active = false) → s.suspended = [] →
    s.snapshot = none ∧ s.suspFut = none
  ends : ∀ t susp, (s.turn t).ends = some susp →
    (s.suspended = [] ↔ susp = false)
  owns : ∀ t fin, s.turn t = .finish true fin → fin.owns = true

theorem Turn.runs_of_inActor {x : Turn M F} {y : Settle F}
    (h : inActor y x = true) : x.runs = true := by
  cases x with
  | body | settling => rfl
  | _ => cases y <;> cases h

/-- One engine's frames are snapshotted. -/
theorem Mode.length_frames {mode : Mode M F} (keep : Nat)
    (h : mode.Resumes fut) : (mode.frames keep).length = 1 := by
  cases mode with
  | method m c => rfl
  | primitive m c => rfl
  | resumed frames future who =>
      obtain ⟨m, rfl, -, -⟩ := h
      simp [Mode.frames]

/-- A turn that decided to end, and has not released the actor, owns it. -/
theorem Suspension.owns_of_ends (h : Suspension fut s) {t : T}
    (hends : (s.turn t).ends ≠ none) : (s.turn t).owns = true := by
  cases ht : s.turn t with
  | spill c susp => rfl
  | finish susp fin =>
      cases susp with
      | true => exact h.owns t fin ht
      | false =>
          rw [ht] at hends
          cases fin with
          | casReclaim => exact absurd rfl hends
          | hasTail released | hasQueue released =>
              cases released with
              | false => rfl
              | true => exact absurd rfl hends
          | _ => rfl
  | _ => simp [ht, Turn.ends] at hends

section Steps

variable [DecidableEq T]

attribute [local grind =] Function.update_apply
attribute [local grind] Turn.bare

variable {t : T}

theorem suspension_sched (h : Suspension fut s) (hdoes : DoesSched s t s') : Suspension fut s' := by
  obtain ⟨hsingle, hframes, hbody, hyields, hnext, hruns', hcaught, hparks,
        hresting, hends', howns'⟩ := h
  cases hdoes with
  | _ => constructor <;> assumption

theorem suspension_settle [DecidableEq F] (h : Suspension fut s)
    (hdoes : DoesSettle s t s') : Suspension fut s' := by
  obtain ⟨hsingle, hframes, hbody, hyields, hnext, hruns', hcaught, hparks,
        hresting, hends', howns'⟩ := h
  cases hdoes with
  | _ => constructor <;> assumption

theorem suspension_catch [DecidableEq F] (h : Suspension fut s)
    (hnil : s.suspended = []) (hruns : (s.turn t).runs = true)
    (honly : ∀ u, (s.turn u).active = true → u = t)
    (hcatch : ∀ u, s.catching u ≠ .idle → u = t)
    (hdoes : DoesCatch s t s') : Suspension fut s' := by
  have hact := Turn.active_of_runs hruns
  have hsome : ¬ ∀ u, (s.turn u).active = false := fun hnone => by
    simp [hnone] at hact
  obtain ⟨hsingle, hframes, hbody, hyields, hnext, hruns', hcaught, hparks,
        hresting, hends', howns'⟩ := h
  cases hdoes with
  | _ => constructor <;> first | assumption | grind -linarith

/-- A step of a turn whose thread handles no yield, and that moves nothing else
of the suspension. -/
theorem suspension_same {x : Turn M F} (h : Suspension fut s)
    (hc : s.catching t = .idle) (hturn : s'.turn = Function.update s.turn t x)
    (hcatching : s'.catching = s.catching)
    (hsnapshot : s'.snapshot = s.snapshot) (hsuspFut : s'.suspFut = s.suspFut)
    (hwaiting : s'.waitingOn = s.waitingOn)
    (hsuspended : s'.suspended = s.suspended) (hawaits : s'.awaits = s.awaits)
    (hbody : ∀ mode, x = .body mode → mode.Resumes fut)
    (hyielded : ∀ mode g, x ≠ .yielded mode g)
    (hnext : ∀ c, x = .next c → s.snapshot = none ∧ s.suspFut = none)
    (hruns : x.runs = true → s.suspFut = none ∧ s.snapshot = none)
    (hresting : x.active = false → (s.turn t).active = false ∨
      s.snapshot = none ∧ s.suspFut = none)
    (hends : ∀ susp, x.ends = some susp → (s.suspended = [] ↔ susp = false))
    (howns : ∀ fin, x = .finish true fin → fin.owns = true) :
    Suspension fut s' := by
  have hcases : ∀ u, u = t ∧ s'.turn u = x ∨ u ≠ t ∧ s'.turn u = s.turn u := by
    intro u
    by_cases hu : u = t
    · subst hu
      exact .inl ⟨rfl, by rw [hturn, Function.update_self]⟩
    · exact .inr ⟨hu, by rw [hturn, Function.update_of_ne hu]⟩
  have hxt : s'.turn t = x := by rw [hturn, Function.update_self]
  constructor
  · rw [hsnapshot]
    exact h.single
  · rw [hcatching]
    exact h.frames
  · intro u mode hu
    rcases hcases u with ⟨rfl, hx⟩ | ⟨_, hsame⟩
    · exact hbody mode (hx ▸ hu)
    · exact h.body u mode (hsame ▸ hu)
  · intro u mode g hu
    rw [hsnapshot, hsuspFut, hwaiting]
    rcases hcases u with ⟨rfl, hx⟩ | ⟨_, hsame⟩
    · exact absurd (hx ▸ hu) (hyielded mode g)
    · exact h.yielded u mode g (hsame ▸ hu)
  · intro u c hu
    rw [hsnapshot, hsuspFut]
    rcases hcases u with ⟨rfl, hx⟩ | ⟨_, hsame⟩
    · exact hnext c (hx ▸ hu)
    · exact h.next u c (hsame ▸ hu)
  · intro u hu
    rw [hsnapshot, hsuspFut, hcatching]
    rcases hcases u with ⟨rfl, hx⟩ | ⟨_, hsame⟩
    · exact ⟨(hruns (hx ▸ hu)).1, fun _ => (hruns (hx ▸ hu)).2⟩
    · exact h.runs u (hsame ▸ hu)
  · rw [hsnapshot, hwaiting, hcatching]
    exact h.caught
  · rw [hsuspended, hsuspFut, hwaiting, hawaits]
    exact h.parked
  · intro hnone hempty
    rw [hsuspended] at hempty
    rw [hsnapshot, hsuspFut]
    rcases hresting (hxt ▸ hnone t) with ht | hclear
    · refine h.resting (fun u => ?_) hempty
      rcases hcases u with ⟨rfl, _⟩ | ⟨_, hsame⟩
      · exact ht
      · exact hsame ▸ hnone u
    · exact hclear
  · intro u susp hu
    rw [hsuspended]
    rcases hcases u with ⟨rfl, hx⟩ | ⟨_, hsame⟩
    · exact hends susp (hx ▸ hu)
    · exact h.ends u susp (hsame ▸ hu)
  · intro u fin hu
    rcases hcases u with ⟨rfl, hx⟩ | ⟨_, hsame⟩
    · exact howns fin (hx ▸ hu)
    · exact h.owns u fin (hsame ▸ hu)

/-- A step at the end of a turn. -/
theorem suspension_ended {x : Turn M F} (h : Suspension fut s)
    (hc : s.catching t = .idle) (hturn : s'.turn = Function.update s.turn t x)
    (hcatching : s'.catching = s.catching)
    (hsnapshot : s'.snapshot = s.snapshot) (hsuspFut : s'.suspFut = s.suspFut)
    (hwaiting : s'.waitingOn = s.waitingOn)
    (hsuspended : s'.suspended = s.suspended) (hawaits : s'.awaits = s.awaits)
    (hrest : (s.turn t).active = false) (hx : x = .idle ∨ ∃ susp fin, x = .finish susp fin)
    (hends : ∀ susp, x.ends = some susp → (s.suspended = [] ↔ susp = false))
    (howns : ∀ fin, x = .finish true fin → fin.owns = true) : Suspension fut s' := by
  have hbody : ∀ mode, x ≠ .body mode := by
    rcases hx with rfl | ⟨susp, fin, rfl⟩ <;> intro mode hmode <;> cases hmode
  have hyielded : ∀ mode g, x ≠ .yielded mode g := by
    rcases hx with rfl | ⟨susp, fin, rfl⟩ <;> intro mode g hmode <;> cases hmode
  have hnext : ∀ c, x ≠ .next c := by
    rcases hx with rfl | ⟨susp, fin, rfl⟩ <;> intro c hmode <;> cases hmode
  have hruns : x.runs ≠ true := by
    rcases hx with rfl | ⟨susp, fin, rfl⟩ <;> exact Bool.false_ne_true
  exact suspension_same h hc hturn hcatching hsnapshot hsuspFut hwaiting hsuspended hawaits
    (fun mode hmode => absurd hmode (hbody mode)) hyielded
    (fun c hnow => absurd hnow (hnext c)) (fun hnow => absurd hnow hruns)
    (fun _ => .inl hrest) hends howns

theorem suspension_finish {susp : Bool} {fin : Fin}
    (h : Suspension fut s) (hc : s.catching t = .idle)
    (ht : s.turn t = .finish susp fin) (hdoes : DoesFinish s t susp fin s') :
    Suspension fut s' := by
  have hends := h.ends t
  have howns := h.owns t fin
  have hrest : (s.turn t).active = false := by rw [ht]; rfl
  rw [ht] at hends howns
  cases hdoes with
  | @noTail released hpending =>
      refine suspension_ended (t := t) h hc rfl rfl rfl rfl rfl rfl rfl hrest
        (.inr ⟨_, _, rfl⟩) ?_ ?_
      · cases released <;> cases susp <;> simp_all [Turn.ends, Fin.first]
      · cases released <;> simp_all [Fin.owns]
  | _ =>
      refine suspension_ended (t := t) h hc rfl rfl rfl rfl rfl rfl rfl hrest ?_ ?_ ?_
      · first | exact .inl rfl | exact .inr ⟨_, _, rfl⟩
      · cases susp <;> simp_all [Turn.ends, Fin.first]
      · simp_all [Fin.owns]

theorem suspension_turn [DecidableEq M] (h : Suspension fut s) (horder : Order s)
    (honly : (s.turn t).owns = true → ∀ u, (s.turn u).active = true → u = t)
    (hends : (s.turn t).owns = true → ∀ u, (s.turn u).ends ≠ none → u = t)
    (hc : s.catching t = .idle)
    (hdoes : DoesTurn fut s t s') : Suspension fut s' := by
  have hparked := horder.parked
  have hyielded := horder.yielded t
  have hactive := horder.active
  have hcat := horder.catching
  have hnone : s.turn t = .popped → ∀ u, (s.turn u).active = false := by
    intro ht u
    by_contra hu
    have huv := honly (by rw [ht]; rfl) u (by simpa using hu)
    rw [huv, ht] at hu
    exact hu rfl
  cases hdoes with
  | finish ht hfinish => exact suspension_finish h hc ht hfinish
  | fresh ht hsnapshot =>
      have hempty : s.suspended = [] := by
        rcases hparked with hnil | ⟨m, rest, -, hframes⟩
        · exact hnil
        · rw [hsnapshot] at hframes
          cases hframes
      exact suspension_same h hc rfl rfl rfl rfl rfl rfl rfl nofun nofun
        (fun _ _ => h.resting (hnone ht) hempty) nofun nofun nofun nofun
  | defer ht hsnapshot _ _ =>
      refine suspension_same h hc rfl rfl rfl rfl rfl rfl rfl nofun nofun nofun nofun
        (fun _ => .inl (by rw [ht]; rfl)) ?_ ?_
      · rintro susp hsusp
        cases hsusp
        refine ⟨fun hempty => ?_, nofun⟩
        rw [(h.resting (hnone ht) hempty).1] at hsnapshot
        cases hsnapshot
      · rintro fin hfin
        cases hfin
        rfl
  | tail ht | noTail ht | takeAll ht =>
      exact suspension_same h hc rfl rfl rfl rfl rfl rfl rfl nofun nofun
        (fun _ _ => h.next t _ ht) nofun nofun nofun nofun
  | done ht =>
      refine suspension_same h hc rfl rfl rfl rfl rfl rfl rfl nofun nofun nofun nofun
        (fun _ => .inr (h.next t _ ht)) ?_ nofun
      rintro susp hsusp
      cases hsusp
      exact ⟨fun _ => rfl, fun _ => hactive t (by rw [ht]; rfl)⟩
  | settled ht =>
      have hruns := h.runs t (by rw [ht]; rfl)
      rw [hc] at hruns
      exact suspension_same h hc rfl rfl rfl rfl rfl rfl rfl nofun nofun
        (fun _ _ => ⟨hruns.2 rfl, hruns.1⟩) nofun nofun nofun nofun
  | @spill c susp ht =>
      have hsame : (Turn.finish susp .read : Turn M F).ends = (s.turn t).ends := by
        rw [ht]
        cases susp <;> rfl
      refine suspension_same h hc rfl rfl rfl rfl rfl rfl rfl nofun nofun nofun nofun
        (fun _ => .inl (by rw [ht]; rfl)) (fun susp' hsusp => ?_) ?_
      · exact h.ends t susp' (hsame ▸ hsusp)
      · rintro fin hfin
        cases hfin
        rfl
  | _ =>
     obtain ⟨hsingle, hframes, hbody, hyields, hnext, hruns', hcaught, hparks,
        hresting, hends', howns'⟩ := h
     constructor <;> first | assumption | grind -linarith

/-- **Step lemma** for the suspension. -/
theorem suspension_step [DecidableEq M] [DecidableEq F] {act : Action T M F}
    (hheld : Held s) (horder : Order s) (h : Suspension fut s)
    (hok : act.propagates = true) (hdoes : Does fut s act s') :
    Suspension fut s' := by
  have honly : ∀ t, (s.turn t).owns = true →
      ∀ u, (s.turn u).active = true → u = t := fun t ht u hu =>
    hheld.turn_turn u t (Turn.owns_of_active hu) ht
  have hparked := horder.parked
  have hactive := horder.active
  have hcat := horder.catching
  have hclear : ∀ t, s.catching t = .idle → (s.turn t).runs = true →
      s.snapshot = none ∧ s.suspFut = none := by
    intro t hc ht
    have hruns := h.runs t ht
    rw [hc] at hruns
    exact ⟨hruns.2 rfl, hruns.1⟩
  cases hdoes with
  | sched hsched => exact suspension_sched h hsched
  | @catching t _ _ hcatch =>
      have hruns : (s.turn t).runs = true := by
        refine hcat t fun hidle => ?_
        cases hcatch <;> simp_all
      have hact := Turn.active_of_runs hruns
      have howns := Turn.owns_of_active hact
      exact suspension_catch h (hactive t hact) hruns (honly t howns)
        (fun u hu => honly t howns u (Turn.active_of_runs (hcat u hu))) hcatch
  | settle _ _ hsettle => exact suspension_settle h hsettle
  | @turn t _ _ hc _ hturn =>
      exact suspension_turn h horder (honly t)
        (fun ht u hu => hheld.turn_turn u t (h.owns_of_ends hu) ht) hc hturn
  | bareYield | swallow => cases hok
  | @wait t g keep mode _ _ _ ht _ =>
      have hframes := Mode.length_frames keep (h.body t mode ht)
      have hact : (s.turn t).active = true := by
        rw [ht]
        rfl
      have hone := honly t (Turn.owns_of_active hact)
      clear honly
      obtain ⟨hsingle, hframes, hbody, hyields, hnext, hruns', hcaught, hparks,
        hresting, hends', howns'⟩ := h
      constructor <;> first | assumption | grind -linarith
  | @help t _ _ _ hin | @helped t _ _ hin =>
      have hruns := Turn.runs_of_inActor hin
      have hact := Turn.active_of_runs hruns
      have hone := honly t (Turn.owns_of_active hact)
      clear honly
      obtain ⟨hsingle, hframes, hbody, hyields, hnext, hruns', hcaught, hparks,
        hresting, hends', howns'⟩ := h
      constructor <;> first | assumption | grind -linarith
  | send =>
      exact ⟨h.single, h.frames, h.body, h.yielded, h.next, h.runs, h.caught, h.parked,
        h.resting, h.ends, h.owns⟩
  | settleBy =>
      exact ⟨h.single, h.frames, h.body, h.yielded, h.next, h.runs, h.caught, h.parked,
        h.resting, h.ends, h.owns⟩
  | pop _ hc _ ht _ =>
      exact suspension_same h hc rfl rfl rfl rfl rfl rfl rfl nofun nofun nofun nofun
        (fun _ => .inl (by rw [ht]; rfl)) nofun nofun
  | startFailed _ hc _ ht =>
      exact suspension_same h hc rfl rfl rfl rfl rfl rfl rfl nofun nofun nofun
        (fun _ => (h.next _ _ ht).symm) nofun nofun nofun
  | start _ hc _ ht hmode =>
      refine suspension_same h hc rfl rfl rfl rfl rfl rfl rfl ?_ nofun nofun
        (fun _ => (h.next _ _ ht).symm) nofun nofun nofun
      rintro mode heq
      cases heq
      rcases hmode with rfl | rfl <;> trivial
  | leave _ hc _ ht _ =>
      exact suspension_same h hc rfl rfl rfl rfl rfl rfl rfl nofun nofun nofun
        (fun _ => (hclear _ hc (by rw [ht]; rfl)).symm) nofun nofun nofun
  | leaveResumed _ hc _ ht =>
      exact suspension_same h hc rfl rfl rfl rfl rfl rfl rfl nofun nofun nofun
        (fun _ => (hclear _ hc (by rw [ht]; rfl)).symm) nofun nofun nofun
  | @deliver t g mode _ _ _ ht =>
      have hyields : (Function.update s.turn t (.yielded mode g) t).active =
          true := by
        rw [Function.update_self]
        rfl
      obtain ⟨hsingle, hframes, hbody, hyields, hnext, hruns', hcaught, hparks,
        hresting, hends', howns'⟩ := h
      constructor <;> first | assumption | grind -linarith
  | @waitCallback t _ _ _ _ _ _ hbare _ =>
      have hruns := Turn.runs_of_bare hbare
      have hact := Turn.active_of_runs hruns
      have hone := honly t (Turn.owns_of_active hact)
      clear honly
      obtain ⟨hsingle, hframes, hbody, hyields, hnext, hruns', hcaught, hparks,
        hresting, hends', howns'⟩ := h
      constructor <;> first | assumption | grind -linarith

end Steps

theorem suspension_initial : Suspension fut (initial : State T M F) := by
  constructor <;> simp [initial, Turn.runs, Turn.ends, Catch.awaited]

variable [DecidableEq T] [DecidableEq M] [DecidableEq F]

/-- The invariant, in every state of a run in which every yield reaches
`drainOne`. -/
theorem suspension {ok : State T M F → Action T M F → Prop}
    (hok : ∀ s act, ok s act → act.propagates = true)
    (hreach : (machine fut).Reach ok s) : Suspension fut s := by
  refine Machine.Reach.invariant (P := Suspension fut) ?_ ?_ hreach
  · rintro s rfl
    exact suspension_initial
  · intro s act s' hreach h hallowed hstep
    have horder : Order s := order
      (fun s act h => Action.engineYields_of_propagates (hok s act h)) hreach
    exact suspension_step (held hreach) horder h (hok s act hallowed)
      (does_of_step hstep)

/-! ## What a suspension leaves on the actor -/

/-- The attributes of a message `m` that is suspended and awaits `g`. -/
structure Parked (fut : M → Option F) (s : State T M F) (m : M) (g : F) :
    Prop where
  yielded : s.suspended = [m] ∧ s.awaits = some g
  snapshot : s.snapshot = some [.message m]
  suspFut : s.suspFut = fut m
  waitingOn : s.waitingOn = some g

omit [DecidableEq T] [DecidableEq M] [DecidableEq F] in
/-- A suspended message has its own attributes on the actor. -/
theorem Suspension.parked_of_suspended (h : Suspension fut s) (horder : Order s)
    (hsusp : s.suspended ≠ []) : ∃ m g, Parked fut s m g := by
  rcases horder.parked with hnil | ⟨m, rest, hm, hsnapshot⟩
  · exact absurd hnil hsusp
  · obtain ⟨hfuture, hwaiting, hawaits⟩ := h.parked m hm
    obtain ⟨g, hg⟩ := Option.isSome_iff_exists.mp hawaits
    have hlength := h.single _ hsnapshot
    obtain rfl : rest = [] := by simpa using hlength
    exact ⟨m, g, ⟨hm, hg⟩, hsnapshot, hfuture, hwaiting.trans hg⟩

/-- The suspension of an actor. -/
structure Suspended (fut : M → Option F) (s : State T M F) : Prop where
  /-- A message is taken only when there is no snapshot. -/
  fresh : ∀ t shape s', s.step fut (.start t shape) = some s' →
    s.snapshot = none
  /-- A turn that ends suspended leaves what belongs to the message that
  yielded. -/
  ends : ∀ t fin, s.turn t = .finish true fin → ∃ m g, Parked fut s m g

/-- **The suspension in every run in which every yield reaches `drainOne`.** -/
theorem suspension_sound
    (hreach : (machine fut).Reach (fun _ act => act.propagates = true) s) :
    Suspended fut s := by
  have h := suspension (fun _ _ hok => hok) hreach
  have horder : Order s := order
    (fun _ _ hok => Action.engineYields_of_propagates hok) hreach
  refine ⟨?_, ?_⟩
  · intro t shape s' hstep
    cases does_of_step hstep with
    | startFailed _ _ _ ht => exact (h.next t _ ht).1
    | start _ _ _ ht _ => exact (h.next t _ ht).1
  · intro t fin ht
    have hends := h.ends t true (by rw [ht]; rfl)
    exact h.parked_of_suspended horder fun hnil => by simpa using hends.mp hnil

/-- A message that waits and whose turn ends suspended. -/
theorem suspension_sound_wait :
    ∃ s : State Nat Nat Nat, s.turn 1 = .finish true .read ∧
      Suspended some s := by
  have hreach := Machine.reach_of_execOk (M := machine some)
    (fun _ act => act.propagates) (fun _ _ h => h)
    (.init rfl : (machine some).Reach
      (fun _ act => act.propagates = true) (initial : State Nat Nat Nat))
    (show (machine some).execOk (fun _ act => act.propagates) initial
      [.send 0 1, .run 0, .run 0, .run 0, .run 0, .pop 1, .run 1, .run 1,
        .run 1, .start 1 .method, .wait 1 7 0, .run 1, .run 1, .run 1,
        .deliver 1, .run 1, .run 1] = some _ from rfl)
  exact ⟨_, rfl, suspension_sound hreach⟩

/-- A `thenDo:` block of the first message's future waits; `invokeCallback` drops
the yield, and the second message is taken with the block's snapshot on the
actor. -/
theorem start_over_snapshot :
    ¬ ∀ s : State Nat Nat Nat, (machine some).Reachable s →
      Suspended some s := by
  intro hall
  have hreach := Machine.reach_of_exec (M := machine some) (.init rfl)
    (show (machine some).exec initial
      [.send 0 1, .run 0, .run 0, .run 0, .run 0, .send 0 2, .run 0, .run 0,
        .run 0, .pop 1, .run 1, .run 1, .run 1, .start 1 .method, .leave 1 false,
        .run 1, .wait 1 7 0, .run 1, .run 1, .run 1, .swallow 1, .run 1, .run 1,
        .run 1, .run 1, .run 1] = some _ from rfl)
  have hnone := (hall _ hreach).fresh 1 .method _ rfl
  cases hnone

end ProtoST.Runtime.ActorTurn

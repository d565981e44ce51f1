import ProtoST.Runtime.ActorTurnMailbox

/-!
# The order in which an actor handles its messages

The messages are started in the order of the pushes, whatever happens
(`Mailbox`).  That none is started while another is suspended is a matter of the
snapshot: a turn that finds one resumes it before it takes a message.  So a
suspended message must have its frames in the snapshot, and the snapshot begins
with them (`Leads`), for an outer engine, and a later yield, prepend theirs.

A message that is itself `wait` yields without an engine and leaves no snapshot.
The result is about the runs in which no such message yields (`Action.engineYields`).

## Main results

* `mailbox_delivery` — order and place of the messages, and no start while one
  is suspended.
* `start_while_suspended` — a run with a message `wait` that starts the next
  message while the first is suspended.
-/

namespace ProtoST.Runtime.ActorTurn

open ProtoST.Lib

variable {T M F : Type} {fut : M → Option F} {s s' : State T M F}

/-- A `FutureYield` is thrown under an engine, whose clause takes the
snapshot. -/
def Action.engineYields : Action T M F → Bool
  | .bareYield _ _ => false
  | _ => true

/-- Nobody is suspended, or the frames begin with those of the one message that
is. -/
@[grind] def Leads (who : List M) (frames : Option (List (Src M))) : Prop :=
  who = [] ∨ ∃ m rest, who = [m] ∧ frames = some (.message m :: rest)

/-- The messages that a body runs or resumes. -/
@[grind] def Mode.who : Mode M F → List M
  | .method m _ | .primitive m _ => [m]
  | .resumed _ _ who => who

/-- The restored frames begin with those of the resumed message. -/
@[grind] def Mode.Sound : Mode M F → Prop
  | .resumed frames _ who => Leads who (some frames)
  | .method _ _ | .primitive _ _ => True

/-- The phases of a turn that handles messages. -/
@[grind] def Turn.active : Turn M F → Bool
  | .next _ | .body _ | .settling _ _ | .yielded _ _ => true
  | .idle | .popped | .spill _ _ | .finish _ _ => false

/-- The phases of a turn that run code of the image. -/
@[grind] def Turn.runs : Turn M F → Bool
  | .body _ | .settling _ _ => true
  | .idle | .popped | .next _ | .yielded _ _ | .spill _ _ | .finish _ _ => false

/-- The snapshot of the yield is taken. -/
@[grind] def Catch.caught : Catch M F → Bool
  | .readState _ | .append _ | .rethrow _ => true
  | .idle | .snap _ _ => false

theorem Turn.owns_of_active {x : Turn M F} (h : x.active = true) :
    x.owns = true := by
  cases x with
  | idle | popped | spill | finish => cases h
  | _ => rfl

@[grind →] theorem Turn.active_of_runs {x : Turn M F} (h : x.runs = true) :
    x.active = true := by
  cases x with
  | body | settling => rfl
  | _ => cases h

theorem Turn.runs_of_bare {x : Turn M F} (h : x.bare = true) :
    x.runs = true := by
  cases x with
  | body | settling => rfl
  | _ => cases h

/-- The frames that are still there when a body waits. -/
theorem Mode.leads_frames {mode : Mode M F} (keep : Nat) (h : mode.Sound) :
    Leads mode.who (some (mode.frames keep)) := by
  cases mode with
  | method m c => exact .inr ⟨m, [], rfl, rfl⟩
  | primitive m c => exact .inr ⟨m, [], rfl, rfl⟩
  | resumed frames future who =>
      rcases h with rfl | ⟨m, rest, rfl, hframes⟩
      · exact .inl rfl
      · obtain rfl := Option.some.inj hframes
        exact .inr ⟨m, rest.take keep, rfl, by simp [Mode.frames]⟩

/-- Frames that an outer engine prepends lead as well. -/
theorem Leads.append {who : List M} {frames existing : List (Src M)}
    (h : Leads who (some frames)) : Leads who (some (frames ++ existing)) := by
  rcases h with rfl | ⟨m, rest, rfl, hframes⟩
  · exact .inl rfl
  · obtain rfl := Option.some.inj hframes
    exact .inr ⟨m, rest ++ existing, rfl, rfl⟩

/-- Nobody is suspended whose frames are not in the snapshot. -/
theorem Leads.filter_eq_nil [DecidableEq M] {who : List M}
    {frames : List (Src M)} (h : Leads who (some frames)) :
    (who.filter fun m => decide (.message m ∉ frames)) = [] := by
  rcases h with rfl | ⟨m, rest, rfl, hframes⟩
  · rfl
  · obtain rfl := Option.some.inj hframes
    simp

/-- All that are suspended are resumed. -/
theorem Leads.filter_mem [DecidableEq M] {who : List M} {frames : List (Src M)}
    (h : Leads who (some frames)) :
    (who.filter fun m => decide (.message m ∈ frames)) = who := by
  rcases h with rfl | ⟨m, rest, rfl, hframes⟩
  · rfl
  · obtain rfl := Option.some.inj hframes
    simp

/-- The invariant of the runs in which only engines yield. -/
structure Order (s : State T M F) : Prop where
  parked : Leads s.suspended s.snapshot
  active : ∀ t, (s.turn t).active = true → s.suspended = []
  body : ∀ t mode, s.turn t = .body mode → mode.Sound
  snap : ∀ t g frames mode, s.catching t = .snap g frames →
    s.settle t = .idle → s.turn t = .body mode → Leads mode.who (some frames)
  caught : ∀ t mode, (s.catching t).caught = true → s.settle t = .idle →
    s.turn t = .body mode → Leads mode.who s.snapshot
  yielded : ∀ t mode g, s.turn t = .yielded mode g → Leads mode.who s.snapshot
  catching : ∀ t, s.catching t ≠ .idle → (s.turn t).runs = true

section Steps

variable [DecidableEq T]

attribute [local grind =] Function.update_apply
attribute [local grind] Turn.bare

variable {t : T}

theorem order_sched (h : Order s) (hdoes : DoesSched s t s') :
    Order s' := by
  obtain ⟨hparked, hactive, hbody, hsnap, hcaught, hyielded, hcatching⟩ := h
  cases hdoes with
  | _ => constructor <;> assumption

theorem order_catch [DecidableEq F] (h : Order s)
    (hone : ∀ u, (s.turn u).active = true → (s.turn t).owns = true → u = t)
    (hdoes : DoesCatch s t s') : Order s' := by
  have hruns : (s.turn t).runs = true := by
    refine h.catching t fun hidle => ?_
    cases hdoes <;> simp_all
  have honly : ∀ u, (s.turn u).active = true → u = t := fun u hu =>
    hone u hu (Turn.owns_of_active (Turn.active_of_runs hruns))
  have hnil : s.suspended = [] := h.active t (Turn.active_of_runs hruns)
  have happend := @Leads.append M
  obtain ⟨hparked, hactive, hbody, hsnap, hcaught, hyielded, hcatching⟩ := h
  cases hdoes with
  | _ => constructor <;> first | assumption | grind -linarith

/-- A step of a turn whose thread handles no yield: the other turns handle no
message, or neither the snapshot nor who is suspended changes under them. -/
theorem order_moved {x : Turn M F} (h : Order s)
    (hc : s.catching t = .idle) (hturn : s'.turn = Function.update s.turn t x)
    (hcatching : s'.catching = s.catching)
    (hsettle : ∀ u, u ≠ t → s'.settle u = s.settle u)
    (hothers : ∀ u, u ≠ t → (s.turn u).active = true →
      s'.suspended = [] ∧ s'.snapshot = s.snapshot)
    (hparked : Leads s'.suspended s'.snapshot)
    (hactive : x.active = true → s'.suspended = [])
    (hbody : ∀ mode, x = .body mode → mode.Sound)
    (hyielded : ∀ mode g, x = .yielded mode g → Leads mode.who s'.snapshot) :
    Order s' := by
  have hcases : ∀ u, u = t ∧ s'.turn u = x ∨ u ≠ t ∧ s'.turn u = s.turn u := by
    intro u
    by_cases hu : u = t
    · subst hu
      exact .inl ⟨rfl, by rw [hturn, Function.update_self]⟩
    · exact .inr ⟨hu, by rw [hturn, Function.update_of_ne hu]⟩
  constructor
  · exact hparked
  · intro u hu
    rcases hcases u with ⟨rfl, hx⟩ | ⟨hne, hsame⟩
    · exact hactive (hx ▸ hu)
    · exact (hothers u hne (hsame ▸ hu)).1
  · intro u mode hu
    rcases hcases u with ⟨rfl, hx⟩ | ⟨_, hsame⟩
    · exact hbody mode (hx ▸ hu)
    · exact h.body u mode (hsame ▸ hu)
  · intro u g frames mode hsnap hidle hu
    rw [hcatching] at hsnap
    rcases hcases u with ⟨rfl, _⟩ | ⟨hne, hsame⟩
    · rw [hc] at hsnap
      cases hsnap
    · exact h.snap u g frames mode hsnap (hsettle u hne ▸ hidle) (hsame ▸ hu)
  · intro u mode hcaught hidle hu
    rw [hcatching] at hcaught
    rcases hcases u with ⟨rfl, _⟩ | ⟨hne, hsame⟩
    · rw [hc] at hcaught
      cases hcaught
    · rw [hsame] at hu
      rw [(hothers u hne (by rw [hu]; rfl)).2]
      exact h.caught u mode hcaught (hsettle u hne ▸ hidle) hu
  · intro u mode g hu
    rcases hcases u with ⟨rfl, hx⟩ | ⟨hne, hsame⟩
    · exact hyielded mode g (hx ▸ hu)
    · rw [hsame] at hu
      rw [(hothers u hne (by rw [hu]; rfl)).2]
      exact h.yielded u mode g hu
  · intro u hcatch
    rw [hcatching] at hcatch
    rcases hcases u with ⟨rfl, _⟩ | ⟨_, hsame⟩
    · exact absurd hc hcatch
    · rw [hsame]
      exact h.catching u hcatch

/-- The step leaves the snapshot, and who is suspended, as they are. -/
theorem order_same {x : Turn M F} (h : Order s)
    (hc : s.catching t = .idle) (hturn : s'.turn = Function.update s.turn t x)
    (hcatching : s'.catching = s.catching)
    (hsettle : ∀ u, u ≠ t → s'.settle u = s.settle u)
    (hsuspended : s'.suspended = s.suspended) (hsnapshot : s'.snapshot = s.snapshot)
    (hactive : x.active = true → s.suspended = [])
    (hbody : ∀ mode, x = .body mode → mode.Sound)
    (hyielded : ∀ mode g, x = .yielded mode g → Leads mode.who s.snapshot) :
    Order s' := by
  refine order_moved h hc hturn hcatching hsettle
    (fun u _ hu => ⟨?_, hsnapshot⟩) ?_ ?_ hbody ?_
  · rw [hsuspended]
    exact h.active u hu
  · rw [hsuspended, hsnapshot]
    exact h.parked
  · rw [hsuspended]
    exact hactive
  · rw [hsnapshot]
    exact hyielded

theorem order_settle [DecidableEq F] (h : Order s)
    (hc : s.catching t = .idle) (hdoes : DoesSettle s t s') : Order s' := by
  cases hdoes with
  | _ =>
      exact order_same h hc (Function.update_eq_self t s.turn).symm rfl
        (fun _ hne => Function.update_of_ne hne ..) rfl rfl (h.active t) (h.body t)
        (h.yielded t)

theorem order_finish {susp : Bool} {fin : Fin} (h : Order s)
    (hc : s.catching t = .idle) (hdoes : DoesFinish s t susp fin s') :
    Order s' := by
  cases hdoes with
  | _ => exact order_same h hc rfl rfl (fun _ _ => rfl) rfl rfl nofun nofun nofun

theorem order_turn [DecidableEq M] (h : Order s) (hc : s.catching t = .idle)
    (hone : ∀ u, (s.turn u).active = true → (s.turn t).owns = true → u = t)
    (hdoes : DoesTurn fut s t s') : Order s' := by
  have hnil : (s.turn t).active = true → s.suspended = [] := h.active t
  have hothers : (s.turn t).owns = true →
      ∀ u, u ≠ t → ¬ (s.turn u).active = true := fun howns u hne hu =>
    hne (hone u hu howns)
  cases hdoes with
  | finish ht hfinish => exact order_finish h hc hfinish
  | fresh ht hsnapshot =>
      refine order_same h hc rfl rfl (fun _ _ => rfl) rfl rfl (fun _ => ?_)
        nofun nofun
      rcases h.parked with hnone | ⟨m, rest, -, hframes⟩
      · exact hnone
      · rw [hsnapshot] at hframes
        cases hframes
  | defer | spill | done =>
      exact order_same h hc rfl rfl (fun _ _ => rfl) rfl rfl nofun nofun nofun
  | tail ht | noTail ht | takeAll ht | settled ht =>
      exact order_same h hc rfl rfl (fun _ _ => rfl) rfl rfl
        (fun _ => hnil (by rw [ht]; rfl)) nofun nofun
  | resume ht hsnapshot _ =>
      have hleads := hsnapshot ▸ h.parked
      have hfiltered := hleads.filter_eq_nil
      refine order_moved h hc rfl rfl (fun _ _ => rfl)
        (fun u hne hu => absurd hu (hothers (by rw [ht]; rfl) u hne))
        (.inl hfiltered) (fun _ => hfiltered) ?_ nofun
      rintro mode heq
      cases heq
      simp only [Mode.Sound, hleads.filter_mem]
      exact hleads
  | @yielded mode g m c ht hmode =>
      have hempty := hnil (by rw [ht]; rfl)
      have hleads := h.yielded t mode g ht
      have hwho : mode.who = [m] := by
        rcases hmode with rfl | rfl <;> rfl
      refine order_moved h hc rfl rfl (fun _ _ => rfl)
        (fun u hne hu => absurd hu (hothers (by rw [ht]; rfl) u hne))
        ?_ nofun nofun nofun
      rw [hwho] at hleads
      rw [hempty]
      exact hleads
  | @reyielded frames future who g ht =>
      have hempty := hnil (by rw [ht]; rfl)
      have hleads := h.yielded t _ g ht
      refine order_moved h hc rfl rfl (fun _ _ => rfl)
        (fun u hne hu => absurd hu (hothers (by rw [ht]; rfl) u hne))
        ?_ nofun nofun nofun
      rw [hempty]
      exact hleads

/-- **Step lemma** for the order. -/
theorem order_step [DecidableEq M] [DecidableEq F] {act : Action T M F}
    (hheld : Held s) (h : Order s) (hok : act.engineYields = true)
    (hdoes : Does fut s act s') : Order s' := by
  have hone : ∀ t u, (s.turn u).active = true → (s.turn t).owns = true →
      u = t := fun t u hu ht => hheld.turn_turn u t (Turn.owns_of_active hu) ht
  have hother : ∀ {t u : T} {x : Settle F}, u ≠ t →
      Function.update s.settle t x u = s.settle u := fun hne =>
    Function.update_of_ne hne ..
  cases hdoes with
  | sched hsched => exact order_sched h hsched
  | @catching t _ _ hcatch => exact order_catch h (hone t) hcatch
  | settle _ hc hsettle => exact order_settle h hc hsettle
  | @turn t _ _ hc _ hturn => exact order_turn h hc (hone t) hturn
  | bareYield => cases hok
  | send | help | helped =>
      exact ⟨h.parked, h.active, h.body, h.snap, h.caught, h.yielded, h.catching⟩
  | @settleBy t _ _ hc _ _ =>
      exact order_same h hc (Function.update_eq_self t s.turn).symm rfl
        (fun _ => hother) rfl rfl (h.active t) (h.body t) (h.yielded t)
  | pop _ hc _ _ _ =>
      exact order_same h hc rfl rfl (fun _ _ => rfl) rfl rfl nofun nofun nofun
  | startFailed _ hc _ ht =>
      exact order_same h hc rfl rfl (fun _ => hother) rfl rfl
        (fun _ => h.active _ (by rw [ht]; rfl)) nofun nofun
  | start _ hc _ ht hmode =>
      refine order_same h hc rfl rfl (fun _ _ => rfl) rfl rfl
        (fun _ => h.active _ (by rw [ht]; rfl)) ?_ nofun
      rintro mode heq
      cases heq
      rcases hmode with rfl | rfl <;> trivial
  | leave _ hc _ ht _ =>
      exact order_same h hc rfl rfl (fun _ => hother) rfl rfl
        (fun _ => h.active _ (by rw [ht]; rfl)) nofun nofun
  | leaveResumed _ hc _ ht =>
      exact order_same h hc rfl rfl (fun _ => hother) rfl rfl
        (fun _ => h.active _ (by rw [ht]; rfl)) nofun nofun
  | @wait t g keep mode _ _ _ ht _ =>
      have hframes := Mode.leads_frames keep (h.body t mode ht)
      obtain ⟨hparked, hactive, hbody, hsnap, hcaught, hyielded, hcatching⟩ := h
      constructor <;> first | assumption | grind -linarith
  | waitCallback _ _ _ hbare _ =>
      have hruns := Turn.runs_of_bare hbare
      obtain ⟨hparked, hactive, hbody, hsnap, hcaught, hyielded, hcatching⟩ := h
      constructor <;> first | assumption | grind -linarith
  | deliver | swallow =>
      obtain ⟨hparked, hactive, hbody, hsnap, hcaught, hyielded, hcatching⟩ := h
      constructor <;> first | assumption | grind -linarith

end Steps

theorem order_initial : Order (initial : State T M F) := by
  refine ⟨.inl rfl, ?_, ?_, ?_, ?_, ?_, ?_⟩ <;>
    simp [initial, Turn.active, Catch.caught]

variable [DecidableEq T] [DecidableEq M] [DecidableEq F]

/-- The invariant, in every state of a run in which only engines yield. -/
theorem order {ok : State T M F → Action T M F → Prop}
    (hok : ∀ s act, ok s act → act.engineYields = true)
    (hreach : (machine fut).Reach ok s) : Order s := by
  refine Machine.Reach.invariant (P := Order) ?_ ?_ hreach
  · rintro s rfl
    exact order_initial
  · intro s act s' hreach h hallowed hstep
    exact order_step (held hreach) h (hok s act hallowed) (does_of_step hstep)

/-! ## Delivery -/

/-- The delivery of the messages. -/
structure Delivery (fut : M → Option F) (s : State T M F) : Prop where
  /-- The `k`-th message that is started is the `k`-th that was pushed. -/
  inOrder : s.started <+: s.pushed
  /-- The others are in the batch of the running turn, in `__pending__` or in the
  queue. -/
  running : ∀ t c, (s.turn t).cursor = some c →
    s.pushed = s.started ++ (c.rest s.pending ++ s.queue)
  resting : (∀ t, (s.turn t).cursor = none) →
    s.pushed = s.started ++ (s.pending ++ s.queue)
  /-- No message is started while one is suspended. -/
  oneAtATime : ∀ t shape s', s.step fut (.start t shape) = some s' →
    s.suspended = []

/-- **Delivery in every run in which only engines yield.** -/
theorem mailbox_delivery
    (hreach : (machine fut).Reach (fun _ act => act.engineYields = true) s) :
    Delivery fut s := by
  have hmailbox := mailbox hreach
  have horder := order (fun _ _ hok => hok) hreach
  have hrunning : ∀ t c, (s.turn t).cursor = some c →
      s.pushed = s.started ++ (c.rest s.pending ++ s.queue) :=
    fun t c hc => (hmailbox.running t c hc).2
  refine ⟨?_, hrunning, hmailbox.resting, ?_⟩
  · by_cases hnone : ∀ t, (s.turn t).cursor = none
    · exact ⟨_, (hmailbox.resting hnone).symm⟩
    · obtain ⟨t, ht⟩ := not_forall.mp hnone
      obtain ⟨c, hc⟩ := Option.ne_none_iff_exists'.mp ht
      exact ⟨_, (hrunning t c hc).symm⟩
  · intro t shape s' hstep
    cases does_of_step hstep with
    | startFailed _ _ _ ht => exact horder.active t (by simp [ht, Turn.active])
    | start _ _ _ ht _ => exact horder.active t (by simp [ht, Turn.active])

/-- Two sends; the first message waits and is suspended, the second is parked in
`__pending__`. -/
theorem mailbox_delivery_two :
    ∃ s : State Nat Nat Nat, s.suspended = [1] ∧ s.pending = [2] ∧
      Delivery some s := by
  have hreach := Machine.reach_of_execOk (M := machine some)
    (fun _ act => act.engineYields) (fun _ _ h => h)
    (.init rfl : (machine some).Reach
      (fun _ act => act.engineYields = true) (initial : State Nat Nat Nat))
    (show (machine some).execOk (fun _ act => act.engineYields) initial
      [.send 0 1, .run 0, .run 0, .run 0, .run 0, .send 0 2, .run 0, .run 0,
        .run 0, .pop 1, .run 1, .run 1, .run 1, .start 1 .method, .wait 1 7 0,
        .run 1, .run 1, .run 1, .deliver 1, .run 1, .run 1] = some _ from rfl)
  exact ⟨_, rfl, rfl, mailbox_delivery hreach⟩

/-- A message `wait` to an actor that wraps a pending future: it is suspended
without a snapshot, and the next message is started. -/
theorem start_while_suspended :
    ¬ ∀ s : State Nat Nat Nat, (machine some).Reachable s → Delivery some s := by
  intro hall
  have hreach := Machine.reach_of_exec (M := machine some) (.init rfl)
    (show (machine some).exec initial
      [.send 0 1, .run 0, .run 0, .run 0, .run 0, .pop 1, .run 1, .run 1, .run 1,
        .start 1 .primitive, .bareYield 1 7, .run 1, .run 1, .run 1, .run 1,
        .send 0 2, .run 0, .run 0, .run 0, .run 0, .pop 1, .run 1, .run 1,
        .run 1] = some _ from rfl)
  have hnil := (hall _ hreach).oneAtATime 1 .method _ rfl
  cases hnil

end ProtoST.Runtime.ActorTurn

import ProtoST.Runtime.ActorTurnFlag

/-!
# The mailbox of an actor

A message that was pushed and is not started is in the queue, in `__pending__`
or in the batch of the turn's cursor, and these three follow each other in the
order of the pushes.  While a cursor has loaded `__pending__` the attribute is
stale, until `spill` writes it.  `Delivered` is this layout; each operation of
`MailboxCursor` has a lemma that keeps it.

## Main results

* `mailbox` — the layout, in every reachable state.
-/

namespace ProtoST.Runtime.ActorTurn

open ProtoST.Lib

/-! ## The cursor -/

section Cursor

variable {M : Type} {c : Cursor M}
  {pushed started pending queue : List M}

/-- What the cursor and the attribute `__pending__` hold, in order. -/
def Cursor.rest (c : Cursor M) (pending : List M) : List M :=
  if c.loaded then c.batch else c.batch ++ pending

/-- A cursor that has not loaded `__pending__` has nothing, and one that loaded
nothing found nothing. -/
structure Cursor.Layout (c : Cursor M) (pending : List M) : Prop where
  unloaded : c.loaded = false → c.batch = [] ∧ c.dirty = false
  clean : c.loaded = true → c.dirty = false → pending = []

/-- The pushed messages are the started ones and those still ahead, with or
without a cursor. -/
def Delivered (pushed started pending queue : List M) :
    Option (Cursor M) → Prop
  | none => pushed = started ++ (pending ++ queue)
  | some c => c.Layout pending ∧
      pushed = started ++ (c.rest pending ++ queue)

/-- A send. -/
theorem Delivered.push {o : Option (Cursor M)} (m : M)
    (h : Delivered pushed started pending queue o) :
    Delivered (pushed ++ [m]) started pending (queue ++ [m]) o := by
  cases o with
  | none =>
      simp only [Delivered] at h ⊢
      simp [h]
  | some c =>
      obtain ⟨hlayout, heq⟩ := h
      exact ⟨hlayout, by simp [heq]⟩

/-- The construction of a cursor. -/
theorem Delivered.fresh (h : Delivered pushed started pending queue none) :
    Delivered pushed started pending queue (some .fresh) := by
  refine ⟨⟨fun _ => ⟨rfl, rfl⟩, fun hloaded => ?_⟩, ?_⟩
  · simp [Cursor.fresh] at hloaded
  · simpa [Cursor.rest, Cursor.fresh, Delivered] using h

/-- `loadPending`, with a tail. -/
theorem Delivered.loadTail (hloaded : c.loaded = false)
    (h : Delivered pushed started pending queue (some c)) :
    Delivered pushed started pending queue (some ⟨pending, true, true⟩) := by
  obtain ⟨hlayout, heq⟩ := h
  obtain ⟨hbatch, -⟩ := hlayout.unloaded hloaded
  refine ⟨⟨fun hc => ?_, fun _ hdirty => ?_⟩, ?_⟩
  · cases hc
  · cases hdirty
  · simpa [Cursor.rest, hloaded, hbatch] using heq

/-- `loadPending`, without a tail. -/
theorem Delivered.loadNone (hloaded : c.loaded = false) (hpending : pending = [])
    (h : Delivered pushed started pending queue (some c)) :
    Delivered pushed started pending queue
      (some { c with loaded := true }) := by
  obtain ⟨hlayout, heq⟩ := h
  refine ⟨⟨fun hc => ?_, fun _ _ => hpending⟩, ?_⟩
  · cases hc
  · simpa [Cursor.rest, hloaded, hpending] using heq

/-- `loadQueueBatch`. -/
theorem Delivered.takeAll (hloaded : c.loaded = true) (hbatch : c.batch = [])
    (h : Delivered pushed started pending queue (some c)) :
    Delivered pushed started pending []
      (some { c with batch := queue }) := by
  obtain ⟨hlayout, heq⟩ := h
  refine ⟨⟨fun hc => ?_, fun _ hdirty => hlayout.clean hloaded hdirty⟩, ?_⟩
  · rw [hloaded] at hc
    cases hc
  · simpa [Cursor.rest, hloaded, hbatch] using heq

/-- The message that `next` answers. -/
theorem Delivered.start {m : M} {rest : List M} {loaded dirty : Bool}
    (h : Delivered pushed started pending queue
      (some ⟨m :: rest, loaded, dirty⟩)) :
    Delivered pushed (started ++ [m]) pending queue
      (some ⟨rest, loaded, dirty⟩) := by
  obtain ⟨hlayout, heq⟩ := h
  have hloaded : loaded = true := by
    by_contra hnot
    cases (hlayout.unloaded (by simpa using hnot)).1
  subst hloaded
  refine ⟨⟨fun hc => ?_, fun _ hdirty => hlayout.clean rfl hdirty⟩, ?_⟩
  · cases hc
  · simpa [Cursor.rest] using heq

/-- `spill`. -/
theorem Delivered.spill (h : Delivered pushed started pending queue (some c)) :
    Delivered pushed started
      (if c.batch ≠ [] then c.batch else if c.dirty then [] else pending)
      queue none := by
  obtain ⟨⟨hunloaded, hclean⟩, heq⟩ := h
  obtain ⟨batch, loaded, dirty⟩ := c
  cases loaded with
  | false =>
      obtain ⟨hbatch, hdirty⟩ := hunloaded rfl
      dsimp only at hbatch hdirty
      subst hbatch
      subst hdirty
      simpa [Delivered, Cursor.rest] using heq
  | true =>
      by_cases hbatch : batch = []
      · cases dirty with
        | true => simpa [Delivered, Cursor.rest, hbatch] using heq
        | false =>
            have hpending : pending = [] := hclean rfl rfl
            simpa [Delivered, Cursor.rest, hbatch, hpending] using heq
      · simpa [Delivered, Cursor.rest, hbatch] using heq

end Cursor

/-! ## The actor -/

/-- The cursor of a turn, while there is one. -/
@[grind] def Turn.cursor {M F : Type} : Turn M F → Option (Cursor M)
  | .next c | .settling _ c | .spill c _ => some c
  | .body (.method _ c) | .body (.primitive _ c) => some c
  | .yielded (.method _ c) _ | .yielded (.primitive _ c) _ => some c
  | .body (.resumed _ _ _) | .yielded (.resumed _ _ _) _ => none
  | .idle | .popped | .finish _ _ => none

variable {T M F : Type} {fut : M → Option F} {s s' : State T M F}

/-- The layout of the mailbox, with the cursor `o`. -/
def State.Layout (s : State T M F) (o : Option (Cursor M)) : Prop :=
  Delivered s.pushed s.started s.pending s.queue o

/-- The invariant. -/
structure Mailbox (s : State T M F) : Prop where
  running : ∀ t c, (s.turn t).cursor = some c → s.Layout (some c)
  resting : (∀ t, (s.turn t).cursor = none) → s.Layout none

/-- A turn with a cursor owns the actor. -/
theorem Turn.owns_of_cursor {x : Turn M F} {c : Cursor M}
    (h : x.cursor = some c) : x.owns = true := by
  cases x with
  | idle | popped | finish => cases h
  | _ => rfl

/-- The owner's cursor is the only one. -/
theorem mailbox_owner {t : T} (hothers : ∀ u, u ≠ t → (s.turn u).cursor = none) :
    Mailbox s ↔ s.Layout (s.turn t).cursor := by
  constructor
  · intro h
    cases hc : (s.turn t).cursor with
    | some c => exact h.running t c hc
    | none =>
        refine h.resting fun u => ?_
        by_cases hu : u = t
        · rw [hu, hc]
        · exact hothers u hu
  · intro h
    refine ⟨fun u c hc => ?_, fun hnone => by rwa [hnone t] at h⟩
    by_cases hu : u = t
    · subst hu
      rwa [hc] at h
    · rw [hothers u hu] at hc
      cases hc

/-- A step that moves no message and no cursor. -/
theorem mailbox_quiet (h : Mailbox s) (hpushed : s'.pushed = s.pushed)
    (hstarted : s'.started = s.started) (hpending : s'.pending = s.pending)
    (hqueue : s'.queue = s.queue)
    (hcursor : ∀ t, (s'.turn t).cursor = (s.turn t).cursor) : Mailbox s' := by
  constructor
  · intro t c hc
    have hlayout := h.running t c (by rw [← hcursor, hc])
    simpa only [State.Layout, hpushed, hstarted, hpending, hqueue] using hlayout
  · intro hnone
    have hlayout := h.resting fun t => by rw [← hcursor, hnone]
    simpa only [State.Layout, hpushed, hstarted, hpending, hqueue] using hlayout

section Steps

variable [DecidableEq T]

/-- A step of the owner's turn. -/
theorem mailbox_turn (hheld : Held s) (h : Mailbox s) {t : T} (x : Turn M F)
    (howns : (s.turn t).owns = true)
    (hturn : s'.turn = Function.update s.turn t x)
    (hlayout : s.Layout (s.turn t).cursor → s'.Layout x.cursor) :
    Mailbox s' := by
  have hothers : ∀ u, u ≠ t → (s.turn u).cursor = none := by
    intro u hu
    cases hc : (s.turn u).cursor with
    | none => rfl
    | some c =>
        exact absurd (hheld.turn_turn u t (Turn.owns_of_cursor hc) howns) hu
  have hothers' : ∀ u, u ≠ t → (s'.turn u).cursor = none := by
    intro u hu
    rw [hturn, Function.update_of_ne hu]
    exact hothers u hu
  rw [mailbox_owner hothers', hturn, Function.update_self]
  exact hlayout ((mailbox_owner hothers).mp h)

theorem mailbox_sched {t : T} (h : Mailbox s) (hdoes : DoesSched s t s') :
    Mailbox s' := by
  cases hdoes with
  | @push m hs =>
      exact ⟨fun u c hc => (h.running u c hc).push m,
        fun hnone => (h.resting hnone).push m⟩
  | _ => exact mailbox_quiet h rfl rfl rfl rfl fun _ => rfl

theorem mailbox_finish {t : T} {susp : Bool} {fin : Fin} (h : Mailbox s)
    (ht : s.turn t = .finish susp fin) (hdoes : DoesFinish s t susp fin s') :
    Mailbox s' := by
  cases hdoes with
  | _ => exact mailbox_quiet h rfl rfl rfl rfl (by grind -linarith)

theorem mailbox_drain [DecidableEq M] {t : T} (hheld : Held s) (h : Mailbox s)
    (hdoes : DoesTurn fut s t s') : Mailbox s' := by
  cases hdoes with
  | finish ht hfinish => exact mailbox_finish h ht hfinish
  | fresh ht hsnap =>
      refine mailbox_turn hheld h _ (by simp [ht, Turn.owns]) rfl fun hold => ?_
      rw [ht] at hold
      exact hold.fresh
  | tail ht hbatch hloaded hpending =>
      refine mailbox_turn hheld h _ (by simp [ht, Turn.owns]) rfl fun hold => ?_
      rw [ht] at hold
      exact hold.loadTail hloaded
  | noTail ht hbatch hloaded hpending =>
      refine mailbox_turn hheld h _ (by simp [ht, Turn.owns]) rfl fun hold => ?_
      rw [ht] at hold
      exact hold.loadNone hloaded hpending
  | takeAll ht hbatch hloaded hqueue =>
      refine mailbox_turn hheld h _ (by simp [ht, Turn.owns]) rfl fun hold => ?_
      rw [ht] at hold
      exact hold.takeAll hloaded hbatch
  | spill ht =>
      refine mailbox_turn hheld h _ (by simp [ht, Turn.owns]) rfl fun hold => ?_
      rw [ht] at hold
      exact hold.spill
  | yielded ht hmode =>
      refine mailbox_quiet h rfl rfl rfl rfl ?_
      rcases hmode with rfl | rfl <;> grind -linarith
  | _ => exact mailbox_quiet h rfl rfl rfl rfl (by grind -linarith)

/-- **Step lemma** for the mailbox. -/
theorem mailbox_step [DecidableEq M] [DecidableEq F] {act : Action T M F}
    (hheld : Held s) (h : Mailbox s) (hdoes : Does fut s act s') :
    Mailbox s' := by
  cases hdoes with
  | sched hsched => exact mailbox_sched h hsched
  | catching _ hcatch =>
      cases hcatch with
      | _ => exact mailbox_quiet h rfl rfl rfl rfl fun _ => rfl
  | settle _ _ hsettle =>
      cases hsettle with
      | _ => exact mailbox_quiet h rfl rfl rfl rfl fun _ => rfl
  | turn _ _ _ hturn => exact mailbox_drain hheld h hturn
  | startFailed _ _ _ ht =>
      refine mailbox_turn hheld h _ (by simp [ht, Turn.owns]) rfl fun hold => ?_
      rw [ht] at hold
      exact hold.start
  | start _ _ _ ht hmode =>
      rcases hmode with rfl | rfl
      all_goals
        refine mailbox_turn hheld h _ (by simp [ht, Turn.owns]) rfl fun hold => ?_
        rw [ht] at hold
        exact hold.start
  | leave _ _ _ ht hmode =>
      refine mailbox_quiet h rfl rfl rfl rfl ?_
      rcases hmode with rfl | rfl <;> grind -linarith
  | leaveResumed _ _ _ ht =>
      refine mailbox_turn hheld h _ (by simp [ht, Turn.owns]) rfl fun hold => ?_
      rw [ht] at hold
      exact hold.fresh
  | @deliver t g mode _ _ _ ht =>
      refine mailbox_quiet h rfl rfl rfl rfl ?_
      cases mode <;> grind -linarith
  | _ => exact mailbox_quiet h rfl rfl rfl rfl (by grind -linarith)

end Steps

/-- **The layout of the mailbox, in every reachable state.** -/
theorem mailbox [DecidableEq T] [DecidableEq M] [DecidableEq F]
    {ok : State T M F → Action T M F → Prop}
    (hreach : (machine fut).Reach ok s) : Mailbox s := by
  refine Machine.Reach.invariant (P := Mailbox) ?_ ?_ hreach
  · intro s hinit
    obtain rfl : s = initial := hinit
    refine ⟨fun t c hc => ?_, fun _ => rfl⟩
    cases hc
  · intro s act s' hreach h _ hstep
    exact mailbox_step (held hreach) h (does_of_step hstep)

end ProtoST.Runtime.ActorTurn

import ProtoST.Primitives.WaitCycle

/-!
# When a reported deadlock is one

A walk assembles its chain from reads at different moments.  What it has passed
stays as it was read for a reason: an actor whose record was read while its own
future was pending can settle nothing before the future it awaits is settled, so
the chain freezes from its end, and it ends at the walking actor.  `Trail` is
this: every link of the chain stands, or the future behind it is settled.

The reason fails in the gap between the read of a future's state and the read of
the next record: there the settling actor can answer, take another message and
wait again.  `Undisturbed` excludes that gap, and the ways in which something
else settles a future or takes back a wait.

## Main results

* `report_realCycle` — in every run whose steps are `Undisturbed`, a walk that
  reports is on a real cycle.
* `spurious_report` — without the condition it need not be.
-/

namespace ProtoST.Primitives.WaitCycle

open ProtoST.Lib

variable {A F : Type} {target : F → Option A} {s s' : State A F}

/-! ## The condition -/

/-- No step takes a future or a wait from under a walk that has read it. -/
def Undisturbed (s : State A F) : Action A F → Prop
  | .reply a => ∀ f, s.pc a = .running (some f) →
      ∀ w, (s.pc w).probing ≠ some f
  | .resolve f => ∀ w, (s.pc w).walking → (s.pc w).probing ≠ some f ∧
      (s.pc w).reports ≠ some f ∧ ∀ b, (f, b) ∉ s.trail w
  | .run a => (s.pc a).reports ≠ none →
      ∀ w, w ≠ a → (s.pc w).walking → ∀ f, (f, a) ∉ s.trail w
  | .abort a => ∀ w, w ≠ a → (s.pc w).walking → ∀ f, (f, a) ∉ s.trail w
  | .swallow _ | .bareYield _ => False
  | _ => True

/-! ## The threads -/

/-- A turn on a helping actor's thread: the helper is busy with it, and the
actors buried under the turn are the helper and those under the helper. -/
def Hosted (s : State A F) : Prop :=
  ∀ a c rest, s.below a = c :: rest →
    s.guest c = some a ∧ rest = s.below c ∧ (s.pc c).helps = true

/-- A buried actor is in `waitHelping`. -/
theorem Hosted.buried (h : Hosted s) {a b : A} (hb : b ∈ s.below a) :
    (s.pc b).helps = true := by
  generalize hl : s.below a = l at hb
  induction l generalizing a with
  | nil => cases hb
  | cons c rest ih =>
      obtain ⟨-, hrest, hhelps⟩ := h a c rest hl
      rcases List.mem_cons.mp hb with rfl | hmem
      · exact hhelps
      · exact ih hrest.symm hmem

section Hosts

variable [DecidableEq A]

/-- A step of an actor that is not helping keeps the threads. -/
theorem Hosted.goto (h : Hosted s) {a : A} (pc : Pc A F)
    (hpc : (s.pc a).helps = false ∨ s.guest a = none) : Hosted (s.goto a pc) := by
  intro a' c rest hbelow
  obtain ⟨hguest, hrest, hhelps⟩ := h a' c rest hbelow
  refine ⟨hguest, hrest, ?_⟩
  rw [State.goto_pc]
  have hne : c ≠ a := by
    rintro rfl
    rcases hpc with hno | hfree
    · rw [hhelps] at hno
      cases hno
    · have hguest' : s.guest c = some a' := hguest
      rw [hfree] at hguest'
      cases hguest'
  rwa [if_neg hne]

theorem Hosted.sit (h : Hosted s) {a : A} {host : Option A}
    (hhost : s.hosts host) (hpc : (s.pc a).helps = false) :
    Hosted (s.sit a host) := by
  have hno : ∀ a' c rest, s.below a' = c :: rest → c ≠ a := by
    rintro a' c rest hbelow rfl
    have hhelps := (h a' c rest hbelow).2.2
    rw [hpc] at hhelps
    cases hhelps
  cases host with
  | none =>
      intro a' c rest hbelow
      by_cases ha : a' = a
      · subst ha
        simp [State.sit] at hbelow
      · rw [State.sit_below s none ha] at hbelow
        obtain ⟨hguest, hrest, hhelps⟩ := h a' c rest hbelow
        refine ⟨hguest, ?_, hhelps⟩
        rw [State.sit_below s none (hno a' c rest hbelow), hrest]
  | some d =>
      have hd : s.guest d = none ∧ (s.pc d).helps = true := by
        simp only [State.hosts] at hhost
        split at hhost
        · rename_i hdpc
          exact ⟨by simpa using hhost, by rw [hdpc]; rfl⟩
        · cases hhost
      have hda : d ≠ a := by
        rintro rfl
        rw [hpc] at hd
        cases hd.2
      intro a' c rest hbelow
      by_cases ha : a' = a
      · subst ha
        obtain ⟨rfl, rfl⟩ : d = c ∧ s.below d = rest := by
          simpa [State.sit] using hbelow
        refine ⟨by simp [State.sit], ?_, hd.2⟩
        rw [State.sit_below s _ hda]
      · rw [State.sit_below s _ ha] at hbelow
        obtain ⟨hguest, hrest, hhelps⟩ := h a' c rest hbelow
        refine ⟨?_, ?_, hhelps⟩
        · have hcd : c ≠ d := by
            rintro rfl
            rw [hd.1] at hguest
            cases hguest
          simpa [State.sit, hcd] using hguest
        · rw [State.sit_below s _ (hno a' c rest hbelow), hrest]

theorem Hosted.leave (h : Hosted s) {a : A}
    (hpc : (s.pc a).helps = false) : Hosted (s.leave a) := by
  cases hl : s.below a with
  | nil =>
      have heq : s.leave a = s := by
        unfold State.leave
        rw [hl]
      rw [heq]
      exact h
  | cons d tail =>
      have heq : s.leave a = { s with
          below := Function.update s.below a []
          guest := Function.update s.guest d none } := by
        unfold State.leave
        rw [hl]
      intro a' c rest hbelow
      by_cases ha : a' = a
      · subst ha
        simp [heq] at hbelow
      · rw [State.leave_below s ha] at hbelow
        obtain ⟨hguest, hrest, hhelps⟩ := h a' c rest hbelow
        have hca : c ≠ a := by
          rintro rfl
          rw [hpc] at hhelps
          cases hhelps
        have hcd : c ≠ d := by
          rintro rfl
          have hguest' := (h a c tail hl).1
          rw [hguest] at hguest'
          exact ha (Option.some.inj hguest')
        refine ⟨by simp [heq, hcd, hguest], ?_, by rwa [State.leave_pc]⟩
        rw [State.leave_below s hca, hrest]

variable [DecidableEq F] {act : Action A F}

/-- Every step keeps the threads. -/
theorem hosted_step (h : Hosted s) (hdoes : Does target s act s') :
    Hosted s' := by
  cases hdoes with
  | start hpc hhost _ =>
      exact (h.sit hhost (by rw [hpc]; rfl)).goto _
        (.inl (by rw [State.sit_pc, hpc]; rfl))
  | resume hpc _ hhost =>
      exact (h.sit hhost (by rw [hpc]; rfl)).goto _
        (.inl (by rw [State.sit_pc, hpc]; rfl))
  | endTurn hpc =>
      exact (h.leave (by rw [hpc]; rfl)).goto _
        (.inl (by rw [State.leave_pc, hpc]; rfl))
  | yield hpc | bareYield hpc =>
      exact (h.leave (by rw [hpc]; rfl)).goto _
        (.inl (by rw [State.leave_pc, hpc]; rfl))
  | resolve => exact h
  | wait hpc _ | reply hpc | next hpc _ | record hpc | stop hpc _
  | probe hpc _ _ | foreign hpc _ | close hpc _ _ | pass hpc _ _ | follow hpc
  | throw hpc | swallow hpc | help hpc =>
      exact h.goto _ (.inl (by rw [hpc]; rfl))
  | wake _ _ hguest => exact h.goto _ (.inr hguest)
  | abort _ hguest => exact h.goto _ (.inr hguest)

end Hosts

/-! ## What a walk has passed -/

/-- From `g` a walk has passed the pairs of a list, the last first, and is at
`f`: each future passed is still pending and its actor still awaits the next one,
unless the next one is settled. -/
def Trail (target : F → Option A) (s : State A F) (g : F) :
    F → List (F × A) → Prop
  | f, [] => f = g
  | f, (f', b) :: rest =>
      target f' = some b ∧
        (s.settled f = true ∨
          s.settled f' = false ∧ (s.pc b).awaits = some f) ∧
        Trail target s g f' rest

/-- A trail stands if its links do. -/
theorem Trail.mono {g f : F} {l : List (F × A)}
    (hlink : ∀ f f' b, (f', b) ∈ l → target f' = some b →
      (s.settled f = true ∨ s.settled f' = false ∧ (s.pc b).awaits = some f) →
      (s'.settled f = true ∨
        s'.settled f' = false ∧ (s'.pc b).awaits = some f))
    (h : Trail target s g f l) : Trail target s' g f l := by
  induction l generalizing f with
  | nil => exact h
  | cons p rest ih =>
      obtain ⟨f', b⟩ := p
      obtain ⟨htarget, hstand, hrest⟩ := h
      refine ⟨htarget, hlink f f' b (by simp) htarget hstand, ?_⟩
      exact ih (fun f f' b hmem => hlink f f' b (by simp [hmem])) hrest

/-- A trail whose last future is pending and leads to the ends is a chain. -/
theorem Trail.leads {ends : A → Prop} {g f : F} {l : List (F × A)}
    (h : Trail target s g f l) (hf : Leads target s ends f)
    (hpending : s.settled f = false) : Leads target s ends g := by
  induction l generalizing f with
  | nil =>
      obtain rfl : f = g := h
      exact hf
  | cons p rest ih =>
      obtain ⟨f', b⟩ := p
      obtain ⟨htarget, hstand, hrest⟩ := h
      rcases hstand with hset | ⟨hpending', hawaits⟩
      · rw [hpending] at hset
        cases hset
      · exact ih hrest (.link hpending' htarget hawaits hf) hpending'

/-- What a walk has read so far. -/
def WalkOK (target : F → Option A) (s : State A F) (a : A) : Pc A F → Prop
  | .loop _ g _ (some f) => Trail target s g f (s.trail a)
  | .readTarget _ g _ f =>
      Trail target s g f (s.trail a) ∧ s.settled f = false
  | .readRecord _ g _ f b =>
      Trail target s g f (s.trail a) ∧ s.settled f = false ∧ target f = some b
  | .report _ g f =>
      Trail target s g f (s.trail a) ∧ s.settled f = false ∧
        ∃ b, target f = some b ∧ (b = a ∨ b ∈ s.below a)
  | _ => True

/-- The invariant of undisturbed runs. -/
structure Sound (target : F → Option A) (s : State A F) : Prop where
  msg : ∀ a f, (s.pc a).msg = some f → target f = some a
  record : ∀ a g, s.record a = some g → (s.pc a).awaits = some g
  hosted : Hosted s
  walks : ∀ a, WalkOK target s a (s.pc a)

section Steps

variable [DecidableEq A] [DecidableEq F] {act : Action A F}

/-- A link that an undisturbed step does not break. -/
theorem link_step (h : Sound target s) (hok : Undisturbed s act)
    (hdoes : Does target s act s') {w b : A} {f f' : F}
    (hwalk : (s'.pc w).walking) (hold : (s.pc w).walking)
    (hmem : (f', b) ∈ s.trail w)
    (htarget : target f' = some b) (hpending : s.settled f' = false)
    (hawaits : (s.pc b).awaits = some f) :
    s'.settled f = true ∨
      s'.settled f' = false ∧ (s'.pc b).awaits = some f := by
  -- a step of `a` keeps the link if it keeps what `a` awaits
  have keep : ∀ {t : State A F} {a : A} {pc' : Pc A F}, t.pc = s.pc →
      t.settled f' = false →
      ((s.pc a).awaits = some f → pc'.awaits = some f) →
      (t.goto a pc').settled f' = false ∧
        ((t.goto a pc').pc b).awaits = some f := by
    intro t a pc' hpc hset hsame
    refine ⟨hset, ?_⟩
    rw [State.goto_pc, hpc]
    split
    · rename_i hba
      exact hsame (hba ▸ hawaits)
    · exact hawaits
  -- a step of `a` keeps the link if `a` is not the actor of the link
  have others : ∀ {t : State A F} {a : A} {pc' : Pc A F}, t.pc = s.pc →
      t.settled f' = false → b ≠ a →
      (t.goto a pc').settled f' = false ∧
        ((t.goto a pc').pc b).awaits = some f := by
    intro t a pc' hpc hset hne
    refine ⟨hset, ?_⟩
    rw [State.goto_pc, if_neg hne, hpc]
    exact hawaits
  cases hdoes with
  | start hpc _ _ =>
      exact .inr (keep (by simp) (by simpa using hpending)
        (by rw [hpc]; intro hnone; cases hnone))
  | @resume a _ g host hpc hset _ =>
      by_cases hba : b = a
      · subst hba
        rw [hpc] at hawaits
        obtain rfl : g = f := Option.some.inj hawaits
        exact .inl (by simpa [State.goto, State.setRecord] using hset)
      · exact .inr (others (by simp [State.setRecord])
          (by simpa [State.setRecord] using hpending) hba)
  | wait hpc _ => exact .inr (keep rfl hpending (by rw [hpc]; intro hnone; cases hnone))
  | @reply a φ hpc =>
      have hba : b ≠ a := by
        rintro rfl
        rw [hpc] at hawaits
        cases hawaits
      have hne : f' ≠ φ := by
        rintro rfl
        have htarget' := h.msg a f' (by rw [hpc]; rfl)
        rw [htarget] at htarget'
        exact hba (Option.some.inj htarget')
      exact .inr (others rfl (by simpa [State.settle, hne] using hpending) hba)
  | next hpc _ => exact .inr (keep rfl hpending (by rw [hpc]; intro hnone; cases hnone))
  | endTurn hpc =>
      exact .inr (keep (by simp) (by simpa using hpending)
        (by rw [hpc]; intro hnone; cases hnone))
  | @resolve φ =>
      have hne : f' ≠ φ := by
        rintro rfl
        exact (hok w hold).2.2 b hmem
      exact .inr ⟨by simpa [State.settle, hne] using hpending, hawaits⟩
  | record hpc =>
      exact .inr (keep (t := s.setRecord _ _) rfl hpending
        (by rw [hpc]; intro hnone; cases hnone))
  | stop hpc _ => exact .inr (keep rfl hpending (by rw [hpc]; exact id))
  | probe hpc _ _ => exact .inr (keep rfl hpending (by rw [hpc]; exact id))
  | foreign hpc _ => exact .inr (keep rfl hpending (by rw [hpc]; exact id))
  | close hpc _ _ => exact .inr (keep rfl hpending (by rw [hpc]; exact id))
  | pass hpc _ _ => exact .inr (keep rfl hpending (by rw [hpc]; exact id))
  | follow hpc =>
      exact .inr (keep (t := s) rfl hpending (by rw [hpc]; exact id))
  | @throw a _ _ _ hpc =>
      have hwa : w ≠ a := by
        rintro rfl
        simp [State.goto_pc, Pc.walking] at hwalk
      refine .inr (others rfl hpending ?_)
      rintro rfl
      exact hok (by rw [hpc]; intro hnone; cases hnone) w hwa hold f' hmem
  | yield hpc =>
      exact .inr (keep (by simp [State.setRecord])
        (by simpa [State.setRecord] using hpending) (by rw [hpc]; exact id))
  | swallow _ | bareYield _ => exact absurd hok id
  | help hpc => exact .inr (keep rfl hpending (by rw [hpc]; exact id))
  | @wake a _ g hpc hset _ =>
      by_cases hba : b = a
      · subst hba
        rw [hpc] at hawaits
        obtain rfl : g = f := Option.some.inj hawaits
        exact .inl hset
      · exact .inr (others rfl hpending hba)
  | @abort a _ _ hpc _ =>
      have hwa : w ≠ a := by
        rintro rfl
        rw [hpc] at hold
        cases hold
      refine .inr (others rfl hpending ?_)
      rintro rfl
      exact hok w hwa hold f' hmem

/-- A future that a walk has read as pending is pending after an undisturbed
step. -/
theorem pending_step (h : Sound target s) (hok : Undisturbed s act)
    (hdoes : Does target s act s') {w : A} {f : F}
    (hwalk : (s.pc w).walking) (hpending : s.settled f = false)
    (hread : (s.pc w).probing = some f ∨ (s.pc w).reports = some f ∧
      ∃ b, target f = some b ∧ (b = w ∨ b ∈ s.below w)) :
    s'.settled f = false := by
  by_contra hset
  rcases settled_step hdoes hpending (by simpa using hset) with
    rfl | ⟨a, rfl, hpc⟩
  · obtain ⟨hprobe, hreport, -⟩ := hok w hwalk
    rcases hread with hread | ⟨hread, -⟩
    · exact hprobe hread
    · exact hreport hread
  · rcases hread with hread | ⟨-, b, htarget, hend⟩
    · exact hok f hpc w hread
    · -- the ends of the chain run nothing: the walking actor and the buried ones
      have htarget' := h.msg a f (by rw [hpc]; rfl)
      rw [htarget] at htarget'
      obtain rfl := Option.some.inj htarget'
      rcases hend with rfl | hburied
      · rw [hpc] at hwalk
        cases hwalk
      · have hhelps := h.hosted.buried hburied
        rw [hpc] at hhelps
        cases hhelps

/-- The trail of a walk stands after an undisturbed step. -/
theorem trail_step (h : Sound target s) (hok : Undisturbed s act)
    (hdoes : Does target s act s') {w : A} {g f : F}
    (hwalk : (s'.pc w).walking) (hold : (s.pc w).walking)
    (htrail : Trail target s g f (s.trail w)) :
    Trail target s' g f (s.trail w) := by
  refine htrail.mono fun f f' b hmem htarget hstand => ?_
  rcases hstand with hset | ⟨hpending, hawaits⟩
  · exact .inl (settled_mono hdoes hset)
  · exact link_step h hok hdoes hwalk hold hmem htarget hpending hawaits

/-- The walk of an actor that does not act stands. -/
theorem walk_other (h : Sound target s) (hok : Undisturbed s act)
    (hdoes : Does target s act s') {w : A} (hw : act.actor ≠ some w) :
    WalkOK target s' w (s'.pc w) := by
  obtain ⟨hpc, htrail, hbelow, -, -⟩ := other_step hdoes hw
  have hwalk := h.walks w
  rw [hpc]
  cases hat : s.pc w with
  | loop msg g hop fut =>
      rw [hat] at hwalk
      cases fut with
      | none => trivial
      | some f =>
          have hwalking : (s.pc w).walking := by rw [hat]; rfl
          show Trail target s' g f (s'.trail w)
          rw [htrail]
          exact trail_step h hok hdoes (by rw [hpc, hwalking]) hwalking hwalk
  | readTarget msg g hop f =>
      rw [hat] at hwalk
      obtain ⟨hstand, hpending⟩ := hwalk
      have hwalking : (s.pc w).walking := by rw [hat]; rfl
      have hprobe : (s.pc w).probing = some f := by rw [hat]; rfl
      refine ⟨?_, pending_step h hok hdoes hwalking hpending (.inl hprobe)⟩
      rw [htrail]
      exact trail_step h hok hdoes (by rw [hpc, hwalking]) hwalking hstand
  | readRecord msg g hop f b =>
      rw [hat] at hwalk
      obtain ⟨hstand, hpending, htarget⟩ := hwalk
      have hwalking : (s.pc w).walking := by rw [hat]; rfl
      have hprobe : (s.pc w).probing = some f := by rw [hat]; rfl
      refine ⟨?_, pending_step h hok hdoes hwalking hpending (.inl hprobe),
        htarget⟩
      rw [htrail]
      exact trail_step h hok hdoes (by rw [hpc, hwalking]) hwalking hstand
  | report msg g f =>
      rw [hat] at hwalk
      obtain ⟨hstand, hpending, hend⟩ := hwalk
      have hwalking : (s.pc w).walking := by rw [hat]; rfl
      have hreport : (s.pc w).reports = some f := by rw [hat]; rfl
      refine ⟨?_, pending_step h hok hdoes hwalking hpending
        (.inr ⟨hreport, hend⟩), by rwa [hbelow]⟩
      rw [htrail]
      exact trail_step h hok hdoes (by rw [hpc, hwalking]) hwalking hstand
  | _ => trivial

/-- The walk of the acting actor stands. -/
theorem walk_self (h : Sound target s) (hok : Undisturbed s act)
    (hdoes : Does target s act s') {a : A} (ha : act.actor = some a) :
    WalkOK target s' a (s'.pc a) := by
  have hwalk := h.walks a
  have hstep := hdoes
  cases hdoes with
  | resolve => cases ha
  | record hpc =>
      obtain rfl := Option.some.inj ha
      simp [State.goto, WalkOK, Trail]
  | probe hpc _ hpending =>
      obtain rfl := Option.some.inj ha
      rw [hpc] at hwalk
      have hstand := trail_step h hok hstep (by rw [State.goto_pc, if_pos rfl]; rfl)
        (by rw [hpc]; rfl) hwalk
      rw [State.goto_pc, if_pos rfl]
      exact ⟨hstand, hpending⟩
  | close hpc htarget hend =>
      obtain rfl := Option.some.inj ha
      rw [hpc] at hwalk
      have hstand := trail_step h hok hstep (by rw [State.goto_pc, if_pos rfl]; rfl)
        (by rw [hpc]; rfl) hwalk.1
      rw [State.goto_pc, if_pos rfl]
      exact ⟨hstand, hwalk.2, _, htarget, hend⟩
  | pass hpc htarget _ =>
      obtain rfl := Option.some.inj ha
      rw [hpc] at hwalk
      have hstand := trail_step h hok hstep (by rw [State.goto_pc, if_pos rfl]; rfl)
        (by rw [hpc]; rfl) hwalk.1
      rw [State.goto_pc, if_pos rfl]
      exact ⟨hstand, hwalk.2, htarget⟩
  | @follow c b msg g f hop hpc =>
      obtain rfl : c = a := Option.some.inj ha
      rw [hpc] at hwalk
      obtain ⟨htrail, hpending, htarget⟩ := hwalk
      have hstand := trail_step h hok hstep (by simp [State.goto, Pc.walking])
        (by rw [hpc]; rfl) htrail
      cases hrec : s.record b with
      | none => simp [State.goto, WalkOK]
      | some f' =>
          have hawaits := h.record b f' hrec
          rw [hrec] at hstand
          simp only [State.goto, Function.update_self, WalkOK]
          refine ⟨htarget, .inr ⟨hpending, ?_⟩, hstand⟩
          by_cases hb : b = c
          · subst hb
            rw [hpc] at hawaits
            simpa [Pc.awaits] using hawaits
          · simpa [hb] using hawaits
  | _ =>
      obtain rfl := Option.some.inj ha
      simp [State.goto, WalkOK]

/-- The message an actor handles is one of its own. -/
theorem msg_step (h : Sound target s) (hdoes : Does target s act s') {w : A}
    {f : F} (hmsg : (s'.pc w).msg = some f) : target f = some w := by
  by_cases hw : act.actor = some w
  · have hold := h.msg w f
    cases hdoes with
    | resolve => cases hw
    | start _ _ hguard =>
        obtain rfl := Option.some.inj hw
        exact hguard f (by simpa [State.goto, Pc.msg] using hmsg)
    | next _ htarget =>
        obtain rfl := Option.some.inj hw
        obtain rfl : _ = f := by simpa [State.goto, Pc.msg] using hmsg
        exact htarget
    | reply _ | endTurn _ | bareYield _ =>
        obtain rfl := Option.some.inj hw
        simp [State.goto, Pc.msg] at hmsg
    | resume hpc _ _ | wait hpc _ | record hpc | stop hpc _ | probe hpc _ _
    | foreign hpc _ | close hpc _ _ | pass hpc _ _ | follow hpc | throw hpc
    | yield hpc | swallow hpc | help hpc | wake hpc _ _ | abort hpc _ =>
        obtain rfl := Option.some.inj hw
        rw [hpc] at hold
        exact hold (by simpa [State.goto, Pc.msg] using hmsg)
  · rw [(other_step hdoes hw).1] at hmsg
    exact h.msg w f hmsg

/-- A record is one of an actor that awaits what it says. -/
theorem record_step (h : Sound target s) (hok : Undisturbed s act)
    (hdoes : Does target s act s') {w : A} {g : F}
    (hrec : s'.record w = some g) : (s'.pc w).awaits = some g := by
  by_cases hw : act.actor = some w
  · have hold := h.record w g
    cases hdoes with
    | resolve => cases hw
    | swallow _ | bareYield _ => exact absurd hok id
    | start hpc _ _ | wait hpc _ | reply hpc | next hpc _ | endTurn hpc =>
        obtain rfl := Option.some.inj hw
        rw [hpc] at hold
        have hawaits := hold (by simpa [State.goto, State.settle] using hrec)
        cases hawaits
    | resume _ _ _ | throw _ | wake _ _ _ | abort _ _ =>
        obtain rfl := Option.some.inj hw
        simp [State.goto, State.setRecord] at hrec
    | record _ | yield _ =>
        obtain rfl := Option.some.inj hw
        simpa [State.goto, State.setRecord, Pc.awaits] using hrec
    | stop hpc _ | probe hpc _ _ | foreign hpc _ | close hpc _ _
    | pass hpc _ _ | follow hpc | help hpc =>
        obtain rfl := Option.some.inj hw
        rw [hpc] at hold
        have hawaits := hold hrec
        simpa [State.goto, Pc.awaits] using hawaits
  · obtain ⟨hpc, -, -, hrecord, -⟩ := other_step hdoes hw
    rw [hpc]
    exact h.record w g (by rw [← hrecord, hrec])

/-- **Every undisturbed step keeps the invariant.** -/
theorem sound_step (h : Sound target s) (hok : Undisturbed s act)
    (hdoes : Does target s act s') : Sound target s' where
  msg := fun _ _ hmsg => msg_step h hdoes hmsg
  record := fun _ _ hrec => record_step h hok hdoes hrec
  hosted := hosted_step h.hosted hdoes
  walks := fun w => by
    by_cases hw : act.actor = some w
    · exact walk_self h hok hdoes hw
    · exact walk_other h hok hdoes hw

omit [DecidableEq A] [DecidableEq F] in
theorem sound_initial : Sound target (initial : State A F) := by
  constructor <;> simp [initial, Pc.msg, Hosted, WalkOK]

/-! ## A reported deadlock -/

/-- **No spurious report.**  In every run whose steps are undisturbed, an actor
that is about to raise the deadlock error is on a real cycle: it awaits a pending
future, and pending futures and waiting actors lead back to it or to an actor
buried under it. -/
theorem report_realCycle (h : (machine target).Reach Undisturbed s) {a : A}
    {msg : Option F} {g f : F} (hpc : s.pc a = .report msg g f) :
    RealCycle target s a := by
  have hsound : Sound target s := by
    refine Machine.Reach.invariant (P := fun s => Sound target s) ?_ ?_ h
    · rintro _ rfl
      exact sound_initial
    · intro s act t _ hsound hok hstep
      exact sound_step hsound hok (does_of_step hstep)
  have hwalk := hsound.walks a
  rw [hpc] at hwalk
  obtain ⟨htrail, hpending, b, htarget, hend⟩ := hwalk
  exact ⟨g, by rw [hpc]; rfl, htrail.leads (.close hpending htarget hend) hpending⟩

end Steps

/-- Even futures are to be settled by actor 0, odd ones by actor 1. -/
def evenOdd (f : Nat) : Option Nat := some (f % 2)

/-- Actor 0 suspends on a reply of actor 1, which waits for one of actor 0. -/
theorem report_realCycle_two : ∃ s : State Nat Nat,
    s.pc 1 = .report (some 1) 2 1 ∧ RealCycle evenOdd s 1 := by
  have h := Machine.reach_of_execOk (M := machine evenOdd)
    (fun s act => match act with
      | .run a => (s.pc a).reports.isNone
      | .start .. | .wait .. | .yield .. => true
      | _ => false)
    (by
      intro s act hok
      cases act with
      | run a =>
          intro hreport
          exact absurd (Option.isNone_iff_eq_none.mp hok) hreport
      | start _ _ _ | wait _ _ | yield _ => trivial
      | _ => cases hok)
    (.init rfl : (machine evenOdd).Reach Undisturbed initial)
    (show (machine evenOdd).execOk _ initial
      [.start 0 (some 0) none, .wait 0 1, .run 0, .run 0, .run 0, .run 0, .run 0,
        .yield 0, .start 1 (some 1) none, .wait 1 2, .run 1, .run 1, .run 1,
        .run 1, .run 1, .run 1] = some _ from rfl)
  exact ⟨_, rfl, report_realCycle h rfl⟩

/-- **A spurious report.**  Actor 0 reads future 1 as pending; actor 1 answers it,
takes its next message and waits for future 2 of actor 0; actor 0 reads that
record and reports, although the future it awaits is settled. -/
theorem spurious_report :
    ¬ ∀ (s : State Nat Nat) (a : Nat) (msg : Option Nat) (g f : Nat),
      (machine evenOdd).Reachable s → s.pc a = .report msg g f →
        RealCycle evenOdd s a := by
  intro hall
  have hrun := Machine.reach_of_exec (M := machine evenOdd)
    (.init rfl : (machine evenOdd).Reachable initial)
    (show (machine evenOdd).exec initial
      [.start 0 (some 0) none, .start 1 (some 1) none, .wait 0 1, .run 0, .run 0,
        .reply 1, .next 1 3, .wait 1 2, .run 1, .run 1, .run 1, .run 1, .run 1,
        .yield 1, .run 0, .run 0, .run 0, .run 0] = some _ from rfl)
  obtain ⟨g, hawaits, hleads⟩ := hall _ 0 (some 0) 1 2 hrun rfl
  obtain rfl : (1 : Nat) = g := Option.some.inj hawaits
  cases hleads with
  | close hpending _ _ => exact absurd hpending (by decide)
  | link hpending _ _ _ => exact absurd hpending (by decide)

end ProtoST.Primitives.WaitCycle

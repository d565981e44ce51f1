import ProtoST.Primitives.CallbacksRestored

/-!
# What a live engine never suspends

With two engines or more on the thread a wait helps.  What a primitive of a live engine evaluates
is code of another one: no actor suspends in it.

## Main results

* `awake_run` — an evaluation below a live engine suspends no actor.
-/

namespace ProtoST.Primitives.Callbacks

open ProtoST.Lib

variable {V F M K α β : Type} {n : Nat} {p : α → Prop} {q : β → Prop}

/-- Code throws a `FutureYield` where it waits, and nowhere else. -/
def Program.Unyielding (P : Program V F M K) : Prop :=
  ∀ k outer v f, (P.next k outer v).1 ≠ .finish (.futureYield f)

abbrev Exit.Stays (x : Exit V) : Prop := x.yields = false

/-- With `n` engines or more the evaluation suspends no actor, and answers what is `p`. -/
abbrev Awake (n : Nat) (p : α → Prop) (m : Evaluation V F M α) : Prop :=
  Does (fun th l x th' => n ≤ th.engines.length →
    (∀ a, .suspends a ∉ l) ∧ th'.engines.length = th.engines.length ∧ p x) m

variable {m : Evaluation V F M α}

theorem awake_bind {f : α → Evaluation V F M β} (hm : Awake n p m)
    (hf : ∀ x, p x → Awake n q (f x)) : Awake n q (m >>= f) := by
  intro th y u h hn
  obtain ⟨x, t, hx, hy⟩ := outcome_bind h
  obtain ⟨hevents, hengines, hp⟩ := hm th x t hx hn
  obtain ⟨hevents', hengines', hq⟩ := hf x hp t y u hy (by rw [hengines]; exact hn)
  rw [bind_some hx]
  refine ⟨fun a h => ?_, hengines'.trans hengines, hq⟩
  exact (List.mem_append.mp h).elim (hevents a) (hevents' a)

theorem Awake.mono {n' : Nat} {p' : α → Prop} (h : Awake n p m)
    (hle : n ≤ n') (hp : ∀ x, p x → p' x) : Awake n' p' m :=
  Does.mono h fun _ _ x _ hx hn =>
    have hawake := hx (Nat.le_trans hle hn)
    ⟨hawake.1, hawake.2.1, hp x hawake.2.2⟩

theorem awake_pure {x : α} (hp : p x) : Awake n p (pure x : Evaluation V F M α) :=
  does_pure fun _ _ => ⟨fun _ => List.not_mem_nil, rfl, hp⟩

theorem awake_read (g : Thread V F M → α) :
    Awake n (fun _ => True) (Traced.read g : Evaluation V F M α) :=
  does_read fun _ _ => ⟨fun _ => List.not_mem_nil, rfl, trivial⟩

theorem awake_record {e : Event V M} (he : ∀ a, e ≠ .suspends a) :
    Awake n (fun _ => True) (Traced.record e : Evaluation V F M PUnit) :=
  does_record fun _ _ =>
    ⟨fun a h => he a (List.mem_singleton.mp h).symm, rfl, trivial⟩

theorem awake_modify {g : Thread V F M → Thread V F M} (hg : ∀ th, (g th).engines = th.engines) :
    Awake n (fun _ => True) (Traced.modify g : Evaluation V F M PUnit) :=
  does_modify fun th _ => ⟨fun _ => List.not_mem_nil, by rw [hg th], trivial⟩

theorem awake_hidingHandlers (hm : Awake n p m) :
    Awake n p (hidingHandlers m) := by
  intro th x th' h
  obtain ⟨r, hr, hpair⟩ := Option.map_eq_some_iff.mp h
  cases hpair
  exact hm _ _ _ hr

/-! ## Primitives -/

theorem awake_rules (n : Nat) : Rules Exit.Stays
    (fun m : Evaluation V F M (Exit V) => Awake n Exit.Stays m)
    (fun m => Awake n (fun _ => True) m) where
  exits _ h := h
  forget h := h.mono (Nat.le_refl _) fun _ _ => trivial
  pure _ := awake_pure trivial
  bind hm hf := awake_bind hm fun x _ => hf x
  exit hx := awake_pure hx
  bindExit hm hf := awake_bind hm fun x _ => hf x
  exitBind := awake_bind
  unfinished := does_unfinished
  read _ := awake_read _
  stderr _ := awake_record fun _ h => by cases h
  modify hbeside _ := awake_modify fun th => by rw [hbeside th]

theorem awake_handlerRules (n : Nat) : HandlerRules Exit.Stays
    (fun m : Evaluation V F M (Exit V) => Awake n Exit.Stays m)
    (fun m => Awake n (fun _ => True) m) where
  toRules := awake_rules n
  look := awake_read
  record _ := awake_record
  handlers hg := awake_modify fun th => by rw [hg th]

theorem awake_waitRules (n : Nat) : WaitRules Exit.Stays
    (fun m : Evaluation V F M (Exit V) => Awake n Exit.Stays m)
    (fun m => Awake n (fun _ => True) m) where
  toRules := awake_rules n
  waits _ := awake_record fun _ h => by cases h
  write haround _ := awake_modify fun th => by rw [haround th]

/-! ## Engines -/

variable {P : Program V F M K} {runner : Task V F K → Evaluation V F M (Exit V)}

/-- An engine is there while its loop runs. -/
theorem awake_runWithArgs {loop : K → Evaluation V F M (Exit V)}
    (hloop : ∀ k, Awake (n + 1) Exit.Stays (loop k)) (c : Code F K) :
    Awake n Exit.Stays (runWithArgs loop c) := by
  refine awake_bind (awake_read _) fun engines _ => ?_
  refine awake_bind (awake_read _) fun slotCursor _ => ?_
  split
  · exact awake_pure rfl
  split
  · exact awake_pure rfl
  · intro th x th' h hn
    obtain ⟨_, t, ht, h⟩ := outcome_bind h
    cases ht
    obtain ⟨y, t, ht, h⟩ := outcome_bind h
    obtain ⟨_, u, hu, h⟩ := outcome_bind h
    cases hu
    cases h
    obtain ⟨hevents, hengines, hx⟩ := hloop c.entry (th.enter c) x t ht (Nat.succ_le_succ hn)
    rw [bind_some rfl, bind_some ht]
    refine ⟨fun a h => ?_, ?_, hx⟩
    · rcases List.mem_append.mp h with h | h
      · cases h
      · exact (List.mem_append.mp h).elim (hevents a) fun h => by cases h
    · cases hengines' : t.engines with
      | nil =>
        rw [hengines'] at hengines
        cases hengines
      | cons e outer =>
        rw [hengines'] at hengines
        unfold Thread.leave
        rw [hengines']
        exact Nat.succ.inj hengines

theorem awake_move (hP : P.Unyielding) (k : K) :
    Awake n (fun moved => ∀ f, moved ≠ .finish (.futureYield f)) (move P k) := by
  intro th moved th' h _
  have hengines := congrArg List.length (within_move k th moved th' h).slotBases
  rw [List.length_map, List.length_map] at hengines
  unfold move at h ⊢
  cases he : th.engines with
  | nil =>
    rw [he] at h
    cases h
  | cons e outer =>
    rw [he] at h hengines
    cases h
    exact ⟨fun _ => List.not_mem_nil, hengines, hP k outer _⟩

section Loop

variable [DecidableEq V] (hrunner : ∀ t, Awake 1 Exit.Stays (runner t))
variable (hrestored : ∀ t, Keeps Restored (runner t))
include hrestored

/-- What the messages do that a wait runs is theirs. -/
theorem awake_helpOthers (self : V) (helps : List (Message V F K)) :
    Awake n (fun _ => True) (helpOthers P runner self helps) := by
  induction helps with
  | nil => exact awake_pure trivial
  | cons m helps ih =>
    refine awake_bind (awake_read _) fun buried _ => ?_
    split
    · exact ih
    · refine @awake_bind _ _ _ _ _ _ (fun _ => True) _ _ _ ?_ fun _ _ => ?_
      · intro th x th' h _
        have hkept := (restored_hidingHandlers (restored_drainMessage hrestored m)).enclosed
          .helped th x th' h
        refine ⟨fun a h => ?_, by rw [hkept.engines], trivial⟩
        cases List.mem_singleton.mp h
      · exact awake_bind (awake_modify fun _ => rfl) fun _ _ => ih

include hrunner

theorem awake_prim_Future_wait (turns : Nat) (future : V) (helps : List (Message V F K))
    (outside : Option (Bool × V)) :
    Awake 2 Exit.Stays (prim_Future_wait P runner turns future helps outside) := by
  have hrunner' t : Awake 2 Exit.Stays (runner t) :=
    (hrunner t).mono (by decide) fun _ h => h
  have hsignal exc := (awake_handlerRules 2).signalInstance (P := P) hrunner' turns exc none
  refine (awake_waitRules 2).prim_Future_wait hrunner' turns hsignal future helps outside
    fun self => ?_
  have hhelping := (awake_waitRules 2).waitHelping hrunner' turns hsignal self future
    (awake_helpOthers hrestored self helps) outside
  -- the other branch is the one of a thread with an engine at most
  intro th x th' h hn
  obtain ⟨_, t, ht, hbranch⟩ := outcome_bind h
  cases ht
  have hlive : 1 < th.engines.length := hn
  dsimp only at hbranch
  rw [if_pos hlive] at hbranch
  rw [bind_some rfl]
  dsimp only
  rw [if_pos hlive]
  exact hhelping th x th' hbranch hn

theorem awake_runLoop (hP : P.Unyielding) (turns : Nat) :
    ∀ k, Awake 2 Exit.Stays (runLoop P runner turns k) := by
  induction turns with
  | zero => exact fun k => does_unfinished
  | succ turns ih =>
    intro k
    have hgoOn (resume : Exit V → K) (x : Exit V) (hx : x.yields = false) :
        Awake 2 Exit.Stays (goOn (runLoop P runner turns) resume x) := by
      cases x with
      | futureYield f => cases hx
      | _ => exact ih _
    refine awake_bind (awake_move hP k) fun moved hmoved => ?_
    cases moved with
    | finish x =>
      cases x with
      | futureYield f => exact absurd rfl (hmoved f)
      | _ => exact awake_pure rfl
    | call p resume =>
      exact awake_bind ((hrunner _).mono (by decide) fun _ h => h) (hgoOn resume)
    | wait future helps outside resume =>
      exact awake_bind (awake_prim_Future_wait hrunner hrestored turns future helps outside)
        (hgoOn resume)

end Loop

/-- **Below a live engine no actor suspends**, however the evaluation ends. -/
theorem awake_run [DecidableEq V] (hP : P.Unyielding) :
    ∀ (n : Nat) (t : Task V F K), Awake 1 Exit.Stays (run P n t) := by
  intro n
  induction n with
  | zero => exact fun t => does_unfinished
  | succ n ih =>
    intro t
    cases t with
    | code c => exact awake_runWithArgs (awake_runLoop ih (restored_run P n) hP n) c
    | primitive p => exact (awake_handlerRules 1).perform ih n p

end ProtoST.Primitives.Callbacks

/-!
# Courses

A computation on a state that may not have ended yet, with a record of the events on its
way.  Two courses agree when they are the same, or when both have an event that sets them
apart: up to the first such event a computation took the same way from both states.

## Main results

* `Keeps.bind`, `Does.bind` — what each part of a computation keeps or does, the whole does.
* `Agrees.bind` — computations whose parts agree, agree.
* `Blind.bind_of` — computations that cannot tell related states apart, one after the other.
-/

namespace ProtoST.Lib

universe u v w

/-- The events so far, and the answer and the state if the computation has ended. -/
structure Course (ε : Type u) (σ : Type v) (α : Type w) where
  events : List ε
  outcome : Option (α × σ)

/-- A computation on a state. -/
def Traced (ε : Type u) (σ : Type v) (α : Type w) : Type (max u v w) := σ → Course ε σ α

namespace Traced

variable {ε : Type u} {σ : Type v} {α β γ : Type w}

/-- It has not ended within what it was given to run. -/
def unfinished : Traced ε σ α := fun _ => ⟨[], none⟩

def ended (a : α) : Traced ε σ α := fun s => ⟨[], some (a, s)⟩

def andThen (m : Traced ε σ α) (f : α → Traced ε σ β) : Traced ε σ β := fun s =>
  match (m s).outcome with
  | none => ⟨(m s).events, none⟩
  | some (a, s') => ⟨(m s).events ++ (f a s').events, (f a s').outcome⟩

instance : Monad (Traced ε σ) where
  pure := ended
  bind := andThen

/-- Something of the state. -/
def read (g : σ → α) : Traced ε σ α := fun s => ⟨[], some (g s, s)⟩

/-- Changes the state. -/
def modify (g : σ → σ) : Traced ε σ PUnit := fun s => ⟨[], some (⟨⟩, g s)⟩

/-- An event happens. -/
def record (e : ε) : Traced ε σ PUnit := fun s => ⟨[e], some (⟨⟩, s)⟩

/-- The events of a computation as one event. -/
def enclosed (f : List ε → ε) (m : Traced ε σ α) : Traced ε σ α := fun s =>
  ⟨[f (m s).events], (m s).outcome⟩

end Traced

open Traced

section Rules

variable {ε : Type u} {σ : Type v} {α β : Type w} {m : Traced ε σ α}
  {f : α → Traced ε σ β} {s : σ}

theorem bind_none (h : (m s).outcome = none) :
    (m >>= f) s = ⟨(m s).events, none⟩ := by
  show (match (m s).outcome with
    | none => ⟨(m s).events, none⟩
    | some (a, s') => ⟨(m s).events ++ (f a s').events, (f a s').outcome⟩ : Course ε σ β) = _
  rw [h]

theorem bind_some {a : α} {s' : σ} (h : (m s).outcome = some (a, s')) :
    (m >>= f) s = ⟨(m s).events ++ (f a s').events, (f a s').outcome⟩ := by
  show (match (m s).outcome with
    | none => ⟨(m s).events, none⟩
    | some (a, s') => ⟨(m s).events ++ (f a s').events, (f a s').outcome⟩ : Course ε σ β) = _
  rw [h]

/-- A computation that ended, ended in its first part and then in the rest. -/
theorem outcome_bind {b : β} {t : σ} (h : ((m >>= f) s).outcome = some (b, t)) :
    ∃ a s', (m s).outcome = some (a, s') ∧ (f a s').outcome = some (b, t) := by
  cases hm : (m s).outcome with
  | none =>
    rw [bind_none hm] at h
    cases h
  | some p =>
    rw [bind_some hm] at h
    exact ⟨p.1, p.2, rfl, h⟩

/-! ## What a computation keeps -/

/-- Where the computation ends, the state is related to the one it began in. -/
def Keeps (R : σ → σ → Prop) (m : Traced ε σ α) : Prop :=
  ∀ s a s', (m s).outcome = some (a, s') → R s s'

variable {R R' R'' : σ → σ → Prop}

theorem Keeps.bind (htrans : ∀ s t u, R s t → R' t u → R'' s u) (hm : Keeps R m)
    (hf : ∀ a, Keeps R' (f a)) : Keeps R'' (m >>= f) := by
  intro s b u h
  obtain ⟨a, t, ha, hb⟩ := outcome_bind h
  exact htrans s t u (hm s a t ha) (hf a t b u hb)

theorem Keeps.mono (hm : Keeps R m) (h : ∀ s t, R s t → R' s t) : Keeps R' m :=
  fun s a t ha => h s t (hm s a t ha)

theorem keeps_unfinished : Keeps R (unfinished : Traced ε σ α) := by
  intro s a s' h
  cases h

theorem keeps_pure (hrefl : ∀ s, R s s) (a : α) : Keeps R (pure a : Traced ε σ α) := by
  intro s b s' h
  cases h
  exact hrefl s

theorem keeps_record (hrefl : ∀ s, R s s) (e : ε) : Keeps R (record e : Traced ε σ PUnit) := by
  intro s b s' h
  cases h
  exact hrefl s

theorem keeps_read (hrefl : ∀ s, R s s) (g : σ → α) :
    Keeps R (read g : Traced ε σ α) := by
  intro s b s' h
  cases h
  exact hrefl s

theorem keeps_modify {g : σ → σ} (h : ∀ s, R s (g s)) :
    Keeps R (modify g : Traced ε σ PUnit) := by
  intro s b s' heq
  cases heq
  exact h s

theorem Keeps.enclosed (hm : Keeps R m) (g : List ε → ε) : Keeps R (enclosed g m) :=
  fun s a s' h => hm s a s' h

/-- What is changed around a computation and changed back, from one state. -/
theorem outcome_bracket {g h : σ → σ} {b : α} {u : σ} (hu : ((do
      modify g
      let x ← m
      modify h
      Pure.pure x) s).outcome = some (b, u)) : ∃ t, (m (g s)).outcome = some (b, t) ∧ u = h t := by
  obtain ⟨_, s', hs', hu⟩ := outcome_bind hu
  cases hs'
  obtain ⟨a, t, ha, hu⟩ := outcome_bind hu
  obtain ⟨_, t', ht', hu⟩ := outcome_bind hu
  cases ht'
  cases hu
  exact ⟨t, ha, rfl⟩

/-- What is changed around a computation and changed back. -/
theorem Keeps.bracket {g h : σ → σ} (hm : Keeps R m) (hR : ∀ s t, R (g s) t → R' s (h t)) :
    Keeps R' (do
      modify g
      let x ← m
      modify h
      Pure.pure x) := by
  intro s b u hu
  obtain ⟨t, ht, rfl⟩ := outcome_bracket hu
  exact hR s t (hm _ _ t ht)

/-! ## What a computation does -/

/-- Where the computation ends, its events, its answer and the states before and after it are
related. -/
def Does (T : σ → List ε → α → σ → Prop) (m : Traced ε σ α) : Prop :=
  ∀ s a s', (m s).outcome = some (a, s') → T s (m s).events a s'

variable {T : σ → List ε → α → σ → Prop} {T' : α → σ → List ε → β → σ → Prop}
  {T'' : σ → List ε → β → σ → Prop}

theorem Does.bind
    (htrans : ∀ s l a t l' b u, T s l a t → T' a t l' b u → T'' s (l ++ l') b u)
    (hm : Does T m) (hf : ∀ a, Does (T' a) (f a)) : Does T'' (m >>= f) := by
  intro s b u h
  obtain ⟨a, t, ha, hb⟩ := outcome_bind h
  rw [bind_some ha]
  exact htrans s _ a t _ b u (hm s a t ha) (hf a t b u hb)

theorem Does.mono {U : σ → List ε → α → σ → Prop} (hm : Does T m)
    (h : ∀ s l a t, T s l a t → U s l a t) : Does U m :=
  fun s a t ha => h s _ a t (hm s a t ha)

theorem does_unfinished : Does T (unfinished : Traced ε σ α) := by
  intro s a s' h
  cases h

theorem does_pure {a : α} (h : ∀ s, T s [] a s) : Does T (pure a : Traced ε σ α) := by
  intro s b s' heq
  cases heq
  exact h s

theorem does_read {g : σ → α} (h : ∀ s, T s [] (g s) s) : Does T (read g : Traced ε σ α) := by
  intro s b s' heq
  cases heq
  exact h s

theorem does_modify {U : σ → List ε → PUnit → σ → Prop} {g : σ → σ}
    (h : ∀ s, U s [] ⟨⟩ (g s)) : Does U (modify g : Traced ε σ PUnit) := by
  intro s b s' heq
  cases heq
  exact h s

theorem does_record {U : σ → List ε → PUnit → σ → Prop} {e : ε} (h : ∀ s, U s [e] ⟨⟩ s) :
    Does U (record e : Traced ε σ PUnit) := by
  intro s b s' heq
  cases heq
  exact h s

/-! ## Computations that agree -/

variable {Bad Bad' : ε → Prop}

/-- Both have ended with the same answer in related states, or neither has ended. -/
def Matched (R : σ → σ → Prop) : Option (α × σ) → Option (α × σ) → Prop
  | none, none => True
  | some (a, s), some (a', s') => a = a' ∧ R s s'
  | _, _ => False

theorem Matched.mono (hR : ∀ s s', R s s' → R' s s') {o o' : Option (α × σ)}
    (h : Matched R o o') : Matched R' o o' := by
  cases o with
  | none =>
    cases o' with
    | none => trivial
    | some p' => exact h.elim
  | some p =>
    cases o' with
    | none => exact h.elim
    | some p' => exact ⟨h.1, hR _ _ h.2⟩

/-- Two courses are the same up to the state, without events that set them apart, or both have
such an event: one that is `Bad` in the first, one that is `Bad'` in the second. -/
inductive Agrees (Bad Bad' : ε → Prop) (R : σ → σ → Prop) (c c' : Course ε σ α) : Prop
  | same (events : c.events = c'.events) (good : ∀ e ∈ c.events, ¬ Bad e ∧ ¬ Bad' e)
      (outcome : Matched R c.outcome c'.outcome) : Agrees Bad Bad' R c c'
  | apart (bad : ∃ e ∈ c.events, Bad e) (bad' : ∃ e ∈ c'.events, Bad' e) : Agrees Bad Bad' R c c'

theorem Agrees.bind {s s' : σ} (hm : Agrees Bad Bad' R (m s) (m s'))
    (hf : ∀ a t t', (m s).outcome = some (a, t) → (m s').outcome = some (a, t') → R t t' →
      (∀ e ∈ (m s).events, ¬ Bad e) → Agrees Bad Bad' R' (f a t) (f a t')) :
    Agrees Bad Bad' R' ((m >>= f) s) ((m >>= f) s') := by
  have hleft : ∀ {c : σ} {P : ε → Prop}, (∃ e ∈ (m c).events, P e) →
      ∃ e ∈ ((m >>= f) c).events, P e := by
    rintro c P ⟨e, he, hbad⟩
    refine ⟨e, ?_, hbad⟩
    cases houtcome : (m c).outcome with
    | none =>
      rw [bind_none houtcome]
      exact he
    | some p =>
      rw [bind_some houtcome]
      exact List.mem_append_left _ he
  cases hm with
  | apart bad bad' => exact .apart (hleft bad) (hleft bad')
  | same events good outcome =>
    cases hs : (m s).outcome with
    | none =>
      cases hs' : (m s').outcome with
      | none =>
        rw [bind_none hs, bind_none hs']
        exact .same events good trivial
      | some p =>
        rw [hs, hs'] at outcome
        exact outcome.elim
    | some p =>
      cases hs' : (m s').outcome with
      | none =>
        rw [hs, hs'] at outcome
        exact outcome.elim
      | some p' =>
        rw [hs, hs'] at outcome
        obtain ⟨a, t⟩ := p
        obtain ⟨a', t'⟩ := p'
        obtain ⟨rfl, hR⟩ := outcome
        rw [bind_some hs, bind_some hs']
        cases hf a t t' hs hs' hR fun e he => (good e he).1 with
        | same events' good' outcome' =>
          refine .same (by rw [events, events']) ?_ outcome'
          intro e he
          rcases List.mem_append.mp he with he | he
          · exact good e he
          · exact good' e he
        | apart bad bad' =>
          obtain ⟨e, he, hbad⟩ := bad
          obtain ⟨e', he', hbad'⟩ := bad'
          exact .apart ⟨e, List.mem_append_right _ he, hbad⟩
            ⟨e', List.mem_append_right _ he', hbad'⟩

/-- The first has an event that sets it apart if and only if the second has one. -/
theorem Agrees.bad_iff {c c' : Course ε σ α} (h : Agrees Bad Bad' R c c') :
    (∀ e ∈ c.events, ¬ Bad e) ↔ ∀ e ∈ c'.events, ¬ Bad' e := by
  cases h with
  | same events good outcome =>
    exact iff_of_true (fun e he => (good e he).1) fun e he => (good e (events ▸ he)).2
  | apart bad bad' =>
    obtain ⟨e, he, hbad⟩ := bad
    obtain ⟨e', he', hbad'⟩ := bad'
    exact iff_of_false (fun h => h e he hbad) fun h => h e' he' hbad'

/-! ## Computations that cannot tell related states apart -/

/-- From related states the courses agree. -/
def Blind (Bad Bad' : ε → Prop) (R : σ → σ → Prop) (m : Traced ε σ α) : Prop :=
  ∀ s s', R s s' → Agrees Bad Bad' R (m s) (m s')

/-- The rest may rely on what is known of the answers of the first part. -/
theorem Blind.bind_of {Q : α → Prop} (hm : Blind Bad Bad' R m)
    (hQ : ∀ s s' a t, R s s' → (m s).outcome = some (a, t) → (∀ e ∈ (m s).events, ¬ Bad e) → Q a)
    (hf : ∀ a, Q a → Blind Bad Bad' R (f a)) : Blind Bad Bad' R (m >>= f) := by
  intro s s' h
  refine (hm s s' h).bind fun a t t' ha _ ht hgood => ?_
  exact hf a (hQ s s' a t h ha hgood) t t' ht

theorem Blind.bind (hm : Blind Bad Bad' R m) (hf : ∀ a, Blind Bad Bad' R (f a)) :
    Blind Bad Bad' R (m >>= f) :=
  hm.bind_of (Q := fun _ => True) (fun _ _ _ _ _ _ _ => trivial) fun a _ => hf a

theorem blind_pure (a : α) : Blind Bad Bad' R (pure a : Traced ε σ α) :=
  fun _ _ h => .same rfl (fun e he => by cases he) ⟨rfl, h⟩

theorem blind_unfinished : Blind Bad Bad' R (unfinished : Traced ε σ α) :=
  fun _ _ _ => .same rfl (fun e he => by cases he) trivial

theorem blind_read {g : σ → α} (hg : ∀ s s', R s s' → g s = g s') :
    Blind Bad Bad' R (read g : Traced ε σ α) :=
  fun s s' h => .same rfl (fun e he => by cases he) ⟨hg s s' h, h⟩

theorem blind_modify {g : σ → σ} (hg : ∀ s s', R s s' → R (g s) (g s')) :
    Blind Bad Bad' R (modify g : Traced ε σ PUnit) :=
  fun s s' h => .same rfl (fun e he => by cases he) ⟨rfl, hg s s' h⟩

theorem blind_record {e : ε} (hbad : ¬ Bad e) (hbad' : ¬ Bad' e) :
    Blind Bad Bad' R (record e : Traced ε σ PUnit) := by
  intro s s' h
  refine .same rfl (fun e' he => ?_) ⟨rfl, h⟩
  rw [List.mem_singleton.mp he]
  exact ⟨hbad, hbad'⟩

end Rules

end ProtoST.Lib

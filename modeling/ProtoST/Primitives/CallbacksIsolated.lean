import Mathlib.Data.List.TakeWhile
import ProtoST.Primitives.CallbacksRestored

/-!
# Callbacks of futures and the handlers of the code that triggers them

A callback is evaluated above the handler stack of the code that triggers it, and nothing disables
the entries there.  What it does is the same with these entries enabled and disabled, up to the
first search that takes one of them.

## Main results

* `unaware_run` — an evaluation takes notice of the entries below it in a search only.
* `isolated_iff` — when a send isolates the callbacks that it runs.
* `trigger_handles` — a callback whose error runs a handler block of the triggering code.
-/

namespace ProtoST.Primitives.Callbacks

open ProtoST.Lib

variable {V F M K : Type} [DecidableEq V]

/-! ## Events that tell -/

/-- A search answers one of the entries, or the block of one is evaluated. -/
def Meets (base : List (Scope (Handler V))) : Event V M → Prop
  | .answered id => id ∈ base.map Scope.id
  | .handling id => id ∈ base.map Scope.id
  | _ => False

/-- A search answers no entry, and one of these would take the exception. -/
def Misses (P : Program V F M K) (base : List (Scope (Handler V))) : Event V M → Prop
  | .unhandled exc catchAll shared => ∃ e ∈ base, takes P shared exc catchAll e = true
  | _ => False

/-- The second thread is the first one with the entries `base` disabled. -/
structure Hides (base : List (Scope (Handler V))) (th th' : Thread V F M) : Prop where
  handlers : Scopes.Hides base th.handlers th'.handlers
  rest : th' = th.withHandlers th'.handlers

variable {P : Program V F M K} {base : List (Scope (Handler V))}

/-- The evaluation cannot tell whether the entries `base` are enabled, except by a search. -/
abbrev Unaware (P : Program V F M K) (base : List (Scope (Handler V))) {α : Type}
    (m : Evaluation V F M α) : Prop :=
  Blind (Meets base) (Misses P base) (Hides base) m

theorem unaware_bind {α β : Type} {m : Evaluation V F M α} {f : α → Evaluation V F M β}
    (hm : Unaware P base m) (hf : ∀ a, Unaware P base (f a)) : Unaware P base (m >>= f) :=
  hm.bind hf

theorem unaware_pure {α : Type} (a : α) : Unaware P base (pure a) := blind_pure a

theorem unaware_read {α : Type} {g : Thread V F M → α}
    (hg : ∀ th hs, g (th.withHandlers hs) = g th) : Unaware P base (Traced.read g) := by
  refine blind_read fun th th' h => ?_
  rw [h.rest]
  exact (hg th th'.handlers).symm

theorem unaware_modify {g : Thread V F M → Thread V F M}
    (hg : ∀ th hs, g (th.withHandlers hs) = (g th).withHandlers hs)
    (hkept : ∀ th, (g th).handlers = th.handlers) : Unaware P base (Traced.modify g) := by
  refine blind_modify fun th th' h => ⟨?_, ?_⟩
  · rw [hkept, hkept]
    exact h.handlers
  · rw [hkept]
    exact (congrArg g h.rest).trans (hg th th'.handlers)

/-- A change of the handler stack. -/
theorem unaware_handlers {g : Scopes (Handler V) → Scopes (Handler V)}
    (hg : ∀ hs hs', Scopes.Hides base hs hs' → Scopes.Hides base (g hs) (g hs')) :
    Unaware P base (Traced.modify fun th : Thread V F M =>
      { th with handlers := g th.handlers }) := by
  refine blind_modify fun th th' h => ⟨hg _ _ h.handlers, ?_⟩
  have hrest := congrArg (fun t : Thread V F M => t.withHandlers (g th'.handlers)) h.rest
  exact hrest

theorem unaware_rules (P : Program V F M K) (base : List (Scope (Handler V))) :
    WaitRules (fun _ => True) (fun m : Evaluation V F M (Exit V) => Unaware P base m)
      (fun m => Unaware P base m) where
  exits _ _ := trivial
  forget h := h
  pure := unaware_pure
  bind := unaware_bind
  exit _ := unaware_pure _
  bindExit := unaware_bind
  exitBind hm hf := unaware_bind hm fun x => hf x trivial
  unfinished := blind_unfinished
  read := unaware_read
  stderr _ := blind_record (fun h => h) fun h => h
  modify hbeside hg := unaware_modify hg fun th => by rw [hbeside th]
  waits _ := blind_record (fun h => h) fun h => h
  write haround hg := unaware_modify hg fun th => by rw [haround th]

variable {runner : Task V F K → Evaluation V F M (Exit V)}

/-! ## Engines -/

theorem unaware_leave : Unaware P base (Traced.modify Thread.leave) := by
  refine unaware_modify (fun th hs => ?_) fun th => ?_
  · obtain ⟨shared, futures, scheduled, handlers, activeSignals, engines, slotCursor⟩ := th
    cases engines <;> rfl
  · obtain ⟨shared, futures, scheduled, handlers, activeSignals, engines, slotCursor⟩ := th
    cases engines <;> rfl

theorem unaware_runWithArgs {loop : K → Evaluation V F M (Exit V)}
    (hloop : ∀ k, Unaware P base (loop k)) (c : Code F K) :
    Unaware P base (runWithArgs loop c) := by
  refine unaware_bind (unaware_read fun _ _ => rfl) fun engines => ?_
  refine unaware_bind (unaware_read fun _ _ => rfl) fun slotCursor => ?_
  split
  · exact unaware_pure _
  split
  · exact unaware_pure _
  · refine unaware_bind (unaware_modify (fun _ _ => rfl) fun _ => rfl) fun _ => ?_
    refine unaware_bind (hloop c.entry) fun x => ?_
    exact unaware_bind unaware_leave fun _ => unaware_pure x

theorem unaware_move (k : K) : Unaware P base (move P k) := by
  intro th th' h
  have hengines : th'.engines = th.engines := by
    rw [h.rest]
    rfl
  unfold move
  rw [hengines]
  cases th.engines with
  | nil => exact .same rfl (fun e he => by cases he) trivial
  | cons e outer =>
    have hview : th'.view e = th.view e := by
      rw [h.rest]
      rfl
    have hrest := congrArg (fun t : Thread V F M =>
      (t.withView e outer (P.next k outer (th.view e)).2).withHandlers th'.handlers) h.rest
    dsimp only
    rw [hview]
    exact .same rfl (fun e he => by cases he) ⟨rfl, h.handlers, hrest⟩

/-! ## Searches -/

section Parts

variable (hrunner : ∀ t, Unaware P base (runner t))
include hrunner

variable {own : List (Scope (Handler V))} {below : Option Nat}

omit hrunner [DecidableEq V] in
theorem searchBelow_append (hbelow : ∀ id, below = some id → id ∉ base.map Scope.id) :
    searchBelow below (own ++ base) = searchBelow below own ++ base := by
  cases below with
  | none => rfl
  | some id =>
    have hiff := Scopes.mem_ids_append own (hbelow id rfl)
    unfold searchBelow
    dsimp only
    by_cases hmem : id ∈ own.map Scope.id
    · obtain ⟨e, he, hid⟩ := List.mem_map.mp hmem
      have hne : own.dropWhile (fun e => decide (e.id ≠ id)) ≠ [] := by
        intro hnil
        have hall := List.dropWhile_eq_nil_iff.mp hnil e he
        exact of_decide_eq_true hall hid
      rw [if_pos hmem, if_pos (hiff.mpr hmem), List.dropWhile_append,
        if_neg (by rw [List.isEmpty_iff]; exact hne), List.tail_append_of_ne_nil hne]
    · rw [if_neg hmem, if_neg fun h => hmem (hiff.mp h)]

omit hrunner in
/-- What a search answers, and the event. -/
theorem handlerStackFindMatch_eq (exc : V) (below : Option Nat) (catchAll : Bool)
    (th : Thread V F M) : handlerStackFindMatch P exc below catchAll th =
      ⟨[match (searchBelow below th.handlers.entries).find? (takes P th.shared exc catchAll) with
        | some e => .answered e.id
        | none => .unhandled exc catchAll th.shared],
      some ((searchBelow below th.handlers.entries).find? (takes P th.shared exc catchAll),
        th)⟩ := by
  show (match (searchBelow below th.handlers.entries).find? (takes P th.shared exc catchAll) with
    | some e => do
        Traced.record (.answered e.id)
        pure (some e)
    | none => do
        Traced.record (.unhandled exc catchAll th.shared)
        pure none : Evaluation V F M (Option (Scope (Handler V)))) th = _
  cases (searchBelow below th.handlers.entries).find? (takes P th.shared exc catchAll) <;> rfl

omit hrunner in
theorem find_off (shared : M) (exc : V) (catchAll : Bool) (base : List (Scope (Handler V))) :
    (base.map Scope.off).find? (takes P shared exc catchAll) = none := by
  refine List.find?_eq_none.mpr fun e he => ?_
  obtain ⟨b, -, rfl⟩ := List.mem_map.mp he
  exact Bool.false_ne_true

variable {e : Scope (Handler V)}

omit hrunner [DecidableEq V] in
theorem mem_of_mem_searchBelow (he : e ∈ searchBelow below own) : e ∈ own := by
  unfold searchBelow at he
  split at he
  · exact he
  · split at he
    · exact (List.dropWhile_sublist _).subset (List.mem_of_mem_tail he)
    · exact he

omit hrunner [DecidableEq V] in
/-- An entry of the evaluation is none of the triggering code. -/
theorem notMem_of_own {s : Scopes (Handler V)} (hown : s.entries = own ++ base) (he : e ∈ own) :
    e.id ∉ base.map Scope.id := by
  intro hmem
  have hordered := s.ordered
  rw [hown, List.map_append] at hordered
  exact Nat.lt_irrefl _ ((List.pairwise_append.mp hordered).2.2 e.id
    (List.mem_map_of_mem he) _ hmem)

omit hrunner in
theorem unaware_handlerStackFindMatch (exc : V) (catchAll : Bool)
    (hbelow : ∀ id, below = some id → id ∉ base.map Scope.id) :
    Unaware P base (handlerStackFindMatch P exc below catchAll) := by
  intro th th' h
  obtain ⟨own, hown, hown'⟩ := h.handlers.entries
  have hshared : th'.shared = th.shared := by
    rw [h.rest]
    rfl
  rw [handlerStackFindMatch_eq, handlerStackFindMatch_eq, hshared, hown, hown',
    searchBelow_append hbelow, searchBelow_append (by rw [Scopes.map_id_off]; exact hbelow),
    List.find?_append, List.find?_append, find_off]
  cases hfound : (searchBelow below own).find? (takes P th.shared exc catchAll) with
  | some e =>
    have hmem := mem_of_mem_searchBelow (List.mem_of_find?_eq_some hfound)
    refine .same rfl (fun event hevent => ?_) ⟨rfl, h⟩
    rw [List.mem_singleton.mp hevent]
    exact ⟨notMem_of_own hown hmem, fun h => h⟩
  | none =>
    cases hbase : base.find? (takes P th.shared exc catchAll) with
    | some e =>
      have hmem := List.mem_of_find?_eq_some hbase
      exact .apart ⟨_, List.mem_singleton_self _, List.mem_map_of_mem hmem⟩
        ⟨_, List.mem_singleton_self _, e, hmem, List.find?_some hbase⟩
    | none =>
      refine .same rfl (fun event hevent => ?_) ⟨rfl, h⟩
      rw [List.mem_singleton.mp hevent]
      refine ⟨fun h => h, fun hmisses => ?_⟩
      obtain ⟨e, he, htakes⟩ := hmisses
      exact List.find?_eq_none.mp hbase e he htakes

omit hrunner [DecidableEq V] in
theorem handlerStackFindById_eq (id : Nat) (th : Thread V F M) : handlerStackFindById id th =
    (⟨((th.handlers.entries.find? fun e => e.id = id).map fun e => .answered e.id).toList,
      some (th.handlers.entries.find? (fun e => e.id = id), th)⟩ :
        Course (Event V M) (Thread V F M) (Option (Scope (Handler V)))) := by
  show (match th.handlers.entries.find? fun e => e.id = id with
    | some e => do
        Traced.record (.answered e.id)
        pure (some e)
    | none => pure none : Evaluation V F M (Option (Scope (Handler V)))) th = _
  cases th.handlers.entries.find? fun e => e.id = id <;> rfl

omit hrunner in
theorem unaware_handlerStackFindById {id : Nat} (hid : id ∉ base.map Scope.id) :
    Unaware P base (handlerStackFindById id) := by
  have hbase : ∀ entries : List (Scope (Handler V)), entries.map Scope.id = base.map Scope.id →
      entries.find? (fun e => decide (e.id = id)) = none := by
    intro entries hentries
    refine List.find?_eq_none.mpr fun e he hsame => hid ?_
    rw [← hentries, ← of_decide_eq_true hsame]
    exact List.mem_map_of_mem he
  intro th th' h
  obtain ⟨own, hown, hown'⟩ := h.handlers.entries
  rw [handlerStackFindById_eq, handlerStackFindById_eq, hown, hown', List.find?_append,
    List.find?_append, hbase _ rfl, hbase _ (Scopes.map_id_off base)]
  refine .same rfl (fun event hevent => ?_) ⟨rfl, h⟩
  cases hfound : own.find? fun e => decide (e.id = id) with
  | none =>
    rw [hfound] at hevent
    cases hevent
  | some e =>
    rw [hfound] at hevent
    rw [List.mem_singleton.mp hevent]
    exact ⟨notMem_of_own hown (List.mem_of_find?_eq_some hfound), fun h => h⟩

/-! ## Signals -/

omit hrunner in
theorem unaware_disabledFrom {m : Evaluation V F M (Exit V)} (hm : Unaware P base m) {id : Nat}
    (hid : id ∉ base.map Scope.id) : Unaware P base (disabledFrom id m) := by
  have hread : Unaware P base (Traced.read fun th : Thread V F M =>
      Scopes.flippedFrom id th.handlers.entries) :=
    blind_read fun th th' h => (h.handlers.flippedFrom hid).1.symm
  refine hread.bind_of (Q := fun ids => ∀ e ∈ base, e.id ∉ ids) ?_ fun disabled hdisabled => ?_
  · intro th th' ids t h houtcome hgood
    cases houtcome
    exact (h.handlers.flippedFrom hid).2
  · refine unaware_bind (unaware_handlers fun _ _ h => h.switchOffFrom hid) fun _ => ?_
    refine unaware_bind hm fun x => ?_
    exact unaware_bind (unaware_handlers fun _ _ h => h.switchOn hdisabled) fun _ => unaware_pure x

theorem unaware_invokeHandler (exc : V) (foreign : Bool)
    (he : e.id ∉ base.map Scope.id) : Unaware P base (invokeHandler P runner exc foreign e) := by
  refine unaware_bind (blind_record (fun h => he h) fun h => h) fun _ => ?_
  refine unaware_bind (unaware_modify (fun _ _ => rfl) fun _ => rfl) fun _ => ?_
  refine unaware_bind ((unaware_rules P base).sendToHandler hrunner exc e) fun x => ?_
  exact unaware_bind (unaware_modify (fun _ _ => rfl) fun _ => rfl) fun _ => unaware_pure x

omit hrunner in
/-- The answer of a search that meets none of the entries. -/
theorem notMem_of_nextHandler {exc : V} {foreign : Bool} {first below : Option Nat}
    {th t : Thread V F M} {entry : Option (Scope (Handler V))}
    (h : (nextHandler P exc foreign first below th).outcome = some (entry, t))
    (hgood : ∀ event ∈ (nextHandler P exc foreign first below th).events, ¬ Meets base event) :
    ∀ e, entry = some e → e.id ∉ base.map Scope.id := by
  rintro e rfl hmem
  cases first with
  | none =>
    rw [show nextHandler P exc foreign none below = handlerStackFindMatch P exc below foreign
      from rfl, handlerStackFindMatch_eq] at h hgood
    obtain ⟨hfound, -⟩ := Prod.mk.inj (Option.some.inj h)
    dsimp only at hgood
    rw [hfound] at hgood
    exact hgood _ (List.mem_singleton_self _) hmem
  | some id =>
    rw [show nextHandler P exc foreign (some id) below = handlerStackFindById id from rfl,
      handlerStackFindById_eq] at h hgood
    obtain ⟨hfound, -⟩ := Prod.mk.inj (Option.some.inj h)
    dsimp only at hgood
    rw [hfound] at hgood
    exact hgood _ (List.mem_singleton_self _) hmem

theorem unaware_signalLoop (exc : V) (foreign : Bool) :
    ∀ (turns : Nat) (first below : Option Nat),
      (∀ id, first = some id → id ∉ base.map Scope.id) →
      (∀ id, below = some id → id ∉ base.map Scope.id) →
      Unaware P base (signalLoop P runner exc foreign turns first below) := by
  intro turns
  induction turns with
  | zero => exact fun first below _ _ => blind_unfinished
  | succ turns ih =>
    intro first below hfirst hbelow
    have hnext : Unaware P base (nextHandler P exc foreign first below) := by
      cases first with
      | none => exact unaware_handlerStackFindMatch exc foreign hbelow
      | some id => exact unaware_handlerStackFindById (hfirst id rfl)
    refine hnext.bind_of (Q := fun entry => ∀ e, entry = some e → e.id ∉ base.map Scope.id)
      (fun th th' entry t _ houtcome hgood => notMem_of_nextHandler houtcome hgood)
      fun entry hentry => ?_
    cases entry with
    | none =>
      dsimp only
      split
      · exact (unaware_rules P base).foreignDefaultAction exc
      · exact (unaware_rules P base).defaultAction hrunner exc
    | some e =>
      have he := hentry e rfl
      refine unaware_bind (unaware_read fun _ _ => rfl) fun engines => ?_
      split
      · exact (unaware_rules P base).raiseNestingLimitError hrunner fun exc =>
          unaware_handlerStackFindMatch exc false hbelow
      · refine unaware_bind (unaware_disabledFrom (unaware_invokeHandler hrunner exc foreign he) he)
          fun x => ?_
        cases x with
        | resumeSignal id v =>
          dsimp only
          split <;> exact unaware_pure _
        | passSignal id =>
          dsimp only
          split
          · refine ih none (some e.id) (fun id h => by cases h) fun id h => ?_
            cases h
            exact he
          · exact unaware_pure _
        | _ => exact unaware_pure _

theorem unaware_signalInstance (turns : Nat) (exc : V) {first : Option Nat}
    (hfirst : ∀ id, first = some id → id ∉ base.map Scope.id) :
    Unaware P base (signalInstance P runner turns exc first) := by
  refine unaware_bind (unaware_read fun _ _ => rfl) fun foreign => ?_
  exact unaware_signalLoop hrunner exc foreign turns first none hfirst fun id h => by cases h

theorem unaware_signalNestingLimitAt (turns : Nat) {id : Nat} (hid : id ∉ base.map Scope.id) :
    Unaware P base (signalNestingLimitAt P runner turns id) := by
  refine unaware_bind (unaware_read fun _ _ => rfl) fun limitError => ?_
  refine unaware_bind ((unaware_rules P base).newNestingLimitError P) fun _ => ?_
  refine unaware_signalInstance hrunner turns limitError fun i h => ?_
  cases h
  exact hid

/-! ## Protected blocks -/

omit hrunner in
theorem unaware_pushAll (guards : List (Handler V)) : Unaware P base (pushAll guards) := by
  intro th th' h
  obtain ⟨hids, hhides⟩ := h.handlers.pushList guards
  rw [pushAll_eq, pushAll_eq]
  refine .same rfl (fun e he => by cases he) ⟨hids.symm, hhides, ?_⟩
  have hrest := congrArg (fun t : Thread V F M =>
    t.withHandlers (Scopes.pushList guards th'.handlers).2) h.rest
  exact hrest

omit hrunner in
theorem unaware_popAll {ids : List Nat} (hids : ∀ id ∈ ids, id ∉ base.map Scope.id) :
    Unaware P base (popAll ids) := by
  intro th th' h
  rw [popAll_eq, popAll_eq]
  refine .same rfl (fun e he => by cases he) ⟨rfl, h.handlers.popList hids, ?_⟩
  have hrest := congrArg (fun t : Thread V F M =>
    t.withHandlers (Scopes.popList ids th'.handlers)) h.rest
  exact hrest

/-- The ids of an attempt, and the entry whose handler runs, are none of the triggering code. -/
def Own (base : List (Scope (Handler V))) (pending : Option (List Nat × Nat)) : Prop :=
  ∀ p, pending = some p → (∀ id ∈ p.1, id ∉ base.map Scope.id) ∧ p.2 ∈ p.1

omit hrunner in
theorem unaware_attemptIds (guards : List (Handler V)) (pending : Option (List Nat × Nat)) :
    Unaware P base (attemptIds guards pending) := by
  cases pending with
  | none => exact unaware_pushAll guards
  | some p => exact unaware_pure p.1

omit hrunner [DecidableEq V] in
theorem notMem_of_attemptIds {guards : List (Handler V)} {pending : Option (List Nat × Nat)}
    (hpending : Own base pending) {th th' t : Thread V F M} {ids : List Nat}
    (h : Hides base th th')
    (houtcome : (attemptIds guards pending th : Course (Event V M) _ _).outcome = some (ids, t)) :
    ∀ id ∈ ids, id ∉ base.map Scope.id := by
  cases pending with
  | some p =>
    cases houtcome
    exact (hpending p rfl).1
  | none =>
    rw [show attemptIds guards none = (pushAll guards : Evaluation V F M (List Nat)) from rfl,
      pushAll_eq] at houtcome
    cases houtcome
    intro id hid hmem
    have hnew := Scopes.next_le_pushList guards th.handlers id hid
    have hlt := h.handlers.lt_next hmem
    omega

theorem unaware_attempt (turns : Nat) (protectedBlock : V) {pending : Option (List Nat × Nat)}
    (hpending : Own base pending) :
      Unaware P base (attempt P runner turns protectedBlock pending) := by
  cases pending with
  | none => exact (unaware_rules P base).invokeBlock hrunner _ _
  | some p =>
    have hown := hpending p rfl
    exact unaware_signalNestingLimitAt hrunner turns (hown.1 p.2 hown.2)

omit hrunner in
theorem unaware_afterAttempt {again : Option (List Nat × Nat) → Evaluation V F M (Exit V)}
    (hagain : ∀ pending, Own base pending → Unaware P base (again pending)) (first : Bool)
    {ids : List Nat} (hids : ∀ id ∈ ids, id ∉ base.map Scope.id) (x : Exit V) :
    Unaware P base (afterAttempt again first ids x) := by
  have hpop : ∀ x : Exit V, Unaware P base (do
      popAll ids
      pure x : Evaluation V F M (Exit V)) := fun x =>
    unaware_bind (unaware_popAll hids) fun _ => unaware_pure x
  cases x with
  | unwindToHandler id v =>
    refine unaware_bind (unaware_popAll hids) fun _ => ?_
    split <;> exact unaware_pure _
  | retrySignal id =>
    refine unaware_bind (unaware_popAll hids) fun _ => ?_
    split
    · exact hagain none fun p h => by cases h
    · exact unaware_pure _
  | nestingLimitUnwind id =>
    rw [afterAttempt]
    split
    · rename_i hmine
      refine hagain (some (ids, id)) fun p h => ?_
      cases h
      exact ⟨hids, hmine.2⟩
    · exact hpop _
  | _ => exact hpop _

theorem unaware_attempts (protectedBlock : V) (guards : List (Handler V)) :
    ∀ (turns : Nat) (pending : Option (List Nat × Nat)), Own base pending →
      Unaware P base (attempts P runner protectedBlock guards turns pending) := by
  intro turns
  induction turns with
  | zero => exact fun pending _ => blind_unfinished
  | succ turns ih =>
    intro pending hpending
    refine (unaware_attemptIds guards pending).bind_of
      (Q := fun ids => ∀ id ∈ ids, id ∉ base.map Scope.id)
      (fun th th' ids t h houtcome _ => notMem_of_attemptIds hpending h houtcome) fun ids hids => ?_
    exact unaware_bind (unaware_attempt hrunner turns protectedBlock hpending) fun x =>
      unaware_afterAttempt ih pending.isNone hids x

end Parts

/-! ## Waiting -/

/-- With all handlers disabled there is nothing to tell apart. -/
theorem unaware_hidingHandlers {α : Type} {m : Evaluation V F M α} (hm : Keeps Restored m) :
    Unaware P base (Traced.enclosed .helped (hidingHandlers m)) := by
  intro th th' h
  have hsame : th'.withHandlers th'.handlers.switchOffAll =
      th.withHandlers th.handlers.switchOffAll := by
    rw [h.handlers.switchOffAll]
    exact (congrArg (fun t : Thread V F M => t.withHandlers th.handlers.switchOffAll) h.rest :)
  have hcourse : m { th' with handlers := th'.handlers.switchOffAll } =
      m { th with handlers := th.handlers.switchOffAll } := congrArg m hsame
  unfold Traced.enclosed hidingHandlers
  dsimp only
  rw [hcourse]
  refine .same rfl (fun event hevent => ?_) ?_
  · rw [List.mem_singleton.mp hevent]
    exact ⟨fun h => h, fun h => h⟩
  · cases hout : (m { th with handlers := th.handlers.switchOffAll }).outcome with
    | none => trivial
    | some r =>
      have hinner := hm _ r.1 r.2 hout
      refine ⟨rfl, ⟨rfl, ?_⟩, rfl⟩
      have hentries := Scopes.switchOn_switchOffAll (s := th.handlers) hinner.handlers
      have hentries' : (r.2.handlers.switchOn (Scopes.enabledIds th'.handlers.entries)).entries =
          th'.handlers.entries := by
        refine Scopes.switchOn_switchOffAll ?_
        rw [h.handlers.switchOffAll]
        exact hinner.handlers
      obtain ⟨own, hown, hown'⟩ := h.handlers.entries
      exact ⟨own, hentries.trans hown, hentries'.trans hown'⟩

section Waits

variable (hrunner : ∀ t, Unaware P base (runner t)) (hrestored : ∀ t, Keeps Restored (runner t))
include hrunner

omit hrunner in
theorem unaware_helpOthers (hrestored : ∀ t, Keeps Restored (runner t)) (self : V)
    (helps : List (Message V F K)) : Unaware P base (helpOthers P runner self helps) := by
  induction helps with
  | nil => exact unaware_pure _
  | cons m helps ih =>
    refine unaware_bind (unaware_read fun _ _ => rfl) fun buried => ?_
    split
    · exact ih
    · refine unaware_bind (unaware_hidingHandlers (restored_drainMessage hrestored m)) fun _ => ?_
      exact unaware_bind (unaware_modify (fun _ _ => rfl) fun _ => rfl) fun _ => ih

include hrestored in
theorem unaware_prim_Future_wait (turns : Nat) (future : V) (helps : List (Message V F K))
    (outside : Option (Bool × V)) :
    Unaware P base (prim_Future_wait P runner turns future helps outside) :=
  (unaware_rules P base).waits_or_yields hrunner (fun _ => trivial) turns
    (fun exc => unaware_signalInstance hrunner turns exc fun id h => by cases h)
    (unaware_helpOthers hrestored) future helps outside

/-! ## The loop of an engine -/

omit hrunner in
theorem unaware_suspend (f : V) : Unaware P base (suspend f) :=
  (unaware_rules P base).suspend (fun _ => trivial)
    (fun _ => blind_record (fun h => h) fun h => h) f

omit hrunner in
theorem unaware_goOn {loop : K → Evaluation V F M (Exit V)} (hloop : ∀ k, Unaware P base (loop k))
    (resume : Exit V → K) (x : Exit V) : Unaware P base (goOn loop resume x) := by
  cases x with
  | futureYield f => exact unaware_suspend f
  | _ => exact hloop _

include hrestored in
theorem unaware_runLoop (turns : Nat) : ∀ k : K, Unaware P base (runLoop P runner turns k) := by
  induction turns with
  | zero => exact fun k => blind_unfinished
  | succ turns ih =>
    intro k
    refine unaware_bind (unaware_move k) fun moved => ?_
    cases moved with
    | finish x =>
      cases x with
      | futureYield f => exact unaware_suspend f
      | _ => exact unaware_pure _
    | call p resume => exact unaware_bind (hrunner _) fun x => unaware_goOn ih resume x
    | wait future helps outside resume =>
      exact unaware_bind (unaware_prim_Future_wait hrunner hrestored turns future helps outside)
        fun x => unaware_goOn ih resume x

theorem unaware_perform (turns : Nat) (p : Primitive V F K) :
    Unaware P base (perform P runner turns p) :=
  (unaware_rules P base).perform hrunner turns
    (fun exc => unaware_signalInstance hrunner turns exc fun id h => by cases h)
    (fun protectedBlock guards =>
      unaware_attempts hrunner protectedBlock guards turns none fun p h => by cases h) p

end Waits

/-- **An evaluation takes notice of the entries below it in a search only.** -/
theorem unaware_run (P : Program V F M K) (base : List (Scope (Handler V))) :
    ∀ (n : Nat) (t : Task V F K), Unaware P base (run P n t) := by
  intro n
  induction n with
  | zero => exact fun t => blind_unfinished
  | succ n ih =>
    intro t
    cases t with
    | code c => exact unaware_runWithArgs (unaware_runLoop ih (restored_run P n) n) c
    | primitive p => exact unaware_perform ih n p

/-! ## The sends that run callbacks -/

/-- A registration, or a settlement: by `resolve:` or `rejectWith:`, or by an actor's turn. -/
inductive Trigger (V : Type) where
  | thenDo (future block : V)
  | catchDo (future block : V)
  | settle (future : V) (reject : Bool) (payload : V)

/-- The evaluation of the send, with callbacks evaluated to a depth of `n` calls. -/
def Trigger.evaluate (P : Program V F M K) (n : Nat) : Trigger V → Evaluation V F M PUnit
  | .thenDo future block => do
      let _ ← prim_Future_thenDo P (run P n) future block
      pure ⟨⟩
  | .catchDo future block => do
      let _ ← prim_Future_catch P (run P n) future block
      pure ⟨⟩
  | .settle future reject payload => settleFuture P (run P n) future reject payload

/-- The thread with all handlers of the triggering code disabled. -/
def Thread.alone (th : Thread V F M) : Thread V F M :=
  th.withHandlers th.handlers.switchOffAll

omit [DecidableEq V] in
theorem hides_alone (th : Thread V F M) : Hides th.handlers.entries th th.alone :=
  ⟨Scopes.Hides.switchOffAll_self th.handlers, rfl⟩

/-- The callbacks of a send are isolated from the code that triggers them. -/
structure Isolated (P : Program V F M K) (n : Nat) (t : Trigger V) (th : Thread V F M) : Prop where
  /-- No search answers a handler of the triggering code, and no block of one is evaluated. -/
  unmet : ∀ event ∈ (t.evaluate P n th).events, ¬ Meets th.handlers.entries event
  /-- The callbacks do and report what they do and report when there is no such handler. -/
  events : (t.evaluate P n th).events = (t.evaluate P n th.alone).events
  outcome : Matched (fun s s' => s' = s.withHandlers s'.handlers) (t.evaluate P n th).outcome
    (t.evaluate P n th.alone).outcome
  /-- The triggering code goes on in the thread that it left. -/
  restored : ∀ x th', (t.evaluate P n th).outcome = some (x, th') → Restored th th'

/-- The report of a callback that ends so. -/
def reports (P : Program V F M K) (shared : M) : Exit V → List (Event V M)
  | .normal _ => []
  | x => [.stderr (callbackError ((callbackReport P shared x).getD ""))]

/-- However a callback ends, one line reports it unless it answers a value, and the callbacks
after it are evaluated. -/
def GoesOn (P : Program V F M K) (n : Nat) : Prop :=
  ∀ (arg callback : V) (callbacks : List V) (th th' : Thread V F M) (x : Exit V),
    (invokeBlock P (run P n) callback [arg] th).outcome = some (x, th') →
    fireCallbackList P (run P n) arg (callback :: callbacks) th =
      ⟨(invokeBlock P (run P n) callback [arg] th).events ++
        reports P th'.shared x ++ (fireCallbackList P (run P n) arg callbacks th').events,
      (fireCallbackList P (run P n) arg callbacks th').outcome⟩

theorem goesOn (P : Program V F M K) (n : Nat) : GoesOn P n := by
  intro arg callback callbacks th th' x h
  have hreport : (invokeCallback P (run P n) callback [arg] th).outcome = some (⟨⟩, th') ∧
      (invokeCallback P (run P n) callback [arg] th).events =
        (invokeBlock P (run P n) callback [arg] th).events ++ reports P th'.shared x := by
    unfold invokeCallback
    rw [bind_some h]
    cases x <;> exact ⟨rfl, rfl⟩
  rw [fireCallbackList, bind_some hreport.1, hreport.2]

theorem unaware_evaluate (P : Program V F M K) (base : List (Scope (Handler V))) (n : Nat)
    (t : Trigger V) : Unaware P base (t.evaluate P n) := by
  have hrun := unaware_run P base n
  cases t with
  | thenDo future block =>
    exact unaware_bind ((unaware_rules P base).prim_Future_thenDo hrun future block) fun _ =>
      unaware_pure _
  | catchDo future block =>
    exact unaware_bind ((unaware_rules P base).prim_Future_catch hrun future block) fun _ =>
      unaware_pure _
  | settle future reject payload =>
      exact (unaware_rules P base).settleFuture hrun future reject payload

theorem restored_evaluate (P : Program V F M K) (n : Nat) (t : Trigger V) :
    Keeps Restored (t.evaluate P n) := by
  have hrun := restored_run P n
  cases t with
  | thenDo future block =>
    exact restored_bind (restored_rules.prim_Future_thenDo hrun future block) fun _ =>
      restored_pure _
  | catchDo future block =>
    exact restored_bind (restored_rules.prim_Future_catch hrun future block) fun _ =>
      restored_pure _
  | settle future reject payload => exact restored_rules.settleFuture hrun future reject payload

/-- **Isolation.**  A send isolates the callbacks that it runs if and only if, evaluated without
the handlers of the triggering code, they leave no exception unhandled that one of these would
take; and in every case each callback that does not answer a value is reported once, and the rest of
them are evaluated. -/
theorem isolated_iff (P : Program V F M K) (n : Nat) (t : Trigger V) (th : Thread V F M) :
    (Isolated P n t th ∧ GoesOn P n) ↔
      ∀ event ∈ (t.evaluate P n th.alone).events, ¬ Misses P th.handlers.entries event := by
  have hagrees := unaware_evaluate P th.handlers.entries n t th th.alone (hides_alone th)
  constructor
  · rintro ⟨hisolated, -⟩
    exact hagrees.bad_iff.mp hisolated.unmet
  · intro hmisses
    have hunmet := hagrees.bad_iff.mpr hmisses
    refine ⟨?_, goesOn P n⟩
    cases hagrees with
    | apart bad bad' =>
      obtain ⟨event, hevent, hbad⟩ := bad
      exact absurd hbad (hunmet event hevent)
    | same events good outcome =>
      exact ⟨hunmet, events, Matched.mono (fun _ _ h => h.rest) outcome, fun x th' h =>
        restored_evaluate P n t th x th' h⟩

/-! ## A callback that signals -/

/-- The objects of `[fut resolve: 9] on: Error do: [7]`, after `fut thenDo: [:v | boom signal]`. -/
inductive Thing where
  | nil | error | fut | callback | handlerBlock | boom | nine | seven
  deriving DecidableEq, Repr

/-- Where the callback, or the handler block, is. -/
inductive Place where
  | signalling | answering
  | ended (x : Exit Thing)

def signallingCallback : Program Thing Unit Unit Place where
  nil := .nil
  exceptionProto := .error
  evaluable _ v :=
    match v with
    | .callback => .closure 1 fun _ => ⟨1, (), .signalling⟩
    | .handlerBlock => .closure 0 fun _ => ⟨0, (), .answering⟩
    | _ => .object fun _ => none
  next place _ view :=
    match place with
    | .signalling => (.call (.signal .boom) .ended, view)
    | .answering => (.finish (.normal .seven), view)
    | .ended x => (.finish x, view)
  guard _ v := .one v
  hasParent _ v parent := v == .boom && parent == .error
  isExceptionInstance _ v := v == .boom
  resumableMarker _ _ := none
  unhandledIsError _ _ := true
  className _ _ := "Error"
  messageTextOf _ _ := "boom"
  messageText _ _ := none
  asString _ _ := none
  describeForeignValue _ _ := ""
  describeProtoException _ _ := ""
  describeActiveStack _ _ := ""
  newNestingLimitError m := (.error, m)
  rejectionFor _ _ := .error
  shallowCopy _ _ := none
  isForeignError _ _ := false
  describeRejection _ _ := ""

/-- The thread inside the protected block. -/
def protectedThread : Thread Thing Unit Unit where
  shared := ()
  futures _ :=
    { settling := false, state := .pending, value := .nil, error := .nil,
      thenCbs := some [.callback], catchCbs := some [], waiters := some [], targetActor := none }
  scheduled := []
  handlers := Scopes.push ⟨[], 1, List.Pairwise.nil, fun e he => by cases he⟩
    ⟨.error, .handlerBlock⟩
  activeSignals := []
  engines := [⟨(), [], 0⟩]
  slotCursor := 1
  suspensions _ := ⟨none, none, none⟩
  currentActor := none
  buriedActors := []

/-- **The callback's error runs the handler block of the code that resolves the future**, and it is
not the error that is reported. -/
theorem trigger_handles :
    ¬ Isolated signallingCallback 9 (.settle .fut false .nine) protectedThread ∧
      (Trigger.evaluate signallingCallback 9 (.settle .fut false .nine) protectedThread).events =
        [.answered 1, .handling 1,
          .stderr (callbackError "non-local exit from a callback")] ∧
      (Trigger.evaluate signallingCallback 9 (.settle .fut false .nine)
          protectedThread.alone).events =
        [.unhandled .boom false (), .stderr (callbackError "error: boom")] := by
  have hmet : (Trigger.evaluate signallingCallback 9 (.settle .fut false .nine)
      protectedThread).events = [.answered 1, .handling 1,
        .stderr (callbackError "non-local exit from a callback")] := rfl
  refine ⟨fun hisolated => ?_, hmet, rfl⟩
  have hunmet := hisolated.unmet (.handling 1)
  rw [hmet] at hunmet
  exact hunmet (List.mem_cons_of_mem _ List.mem_cons_self) (List.mem_singleton_self 1)

end ProtoST.Primitives.Callbacks

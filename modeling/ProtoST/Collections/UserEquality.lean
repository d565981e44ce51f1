import ProtoST.Collections.Hashed

/-!
# A class with its own equality

The assumptions on values and on the hashed storage can be met: by a class whose `=`
compares the Integer that each of its instances holds and whose `hash` answers it, and by
a map that is the list of its entries.

## Main results

* `record_lawful` — the class meets the contract of `=` and `hash`.
* `entries_lawful` — lists of entries are a hashed storage for every semantics.
-/

namespace ProtoST.Collections

open Lib

/-- An instance of the class: the Integer it holds, and which object it is. -/
structure Record where
  k : Int
  object : Nat
  deriving DecidableEq

namespace Record

/-- `= other`: `(other isKindOf: Record) and: [k = other k]`. -/
def equals (o : Record) : Value Record → Bool
  | .object other => decide (o.k = other.k)
  | _ => false

/-- `partialCompare`, for which an object is what it is. -/
def comparesTo (a b : Value Record) : Option Ordering :=
  match a.asString, b.asString with
  | some s, some t => if s = t then some .eq else none
  | _, _ => if a = b then some .eq else none

instance : Protocol Record where
  equals o v := some (o.equals v)
  adaptEquals _ _ := some false
  hash o := some o.k
  association _ := none
  partialCompare := comparesTo
  getHash _ := 0
  symbolAddress _ := 0
  hashDouble _ := 0
  hashString _ := 0

/-- What a value is as a key: an instance is the Integer that it holds, a symbol its text. -/
def key : Value Record → Value Record
  | .object o => .object ⟨o.k, 0⟩
  | .symbol s => .string s
  | v => v

theorem comparesEqual_iff {a b : Value Record} :
    comparesEqual a b = true ↔
      match a.asString, b.asString with
      | some s, some t => s = t
      | _, _ => a = b := by
  change (comparesTo a b == some .eq) = true ↔ _
  unfold comparesTo
  cases a.asString <;> cases b.asString <;> dsimp only <;> split <;> simp_all

theorem stKeyEquals_iff {a b : Value Record} : stKeyEquals a b = true ↔ key a = key b := by
  have hcompare := comparesEqual_iff (a := a) (b := b)
  cases a <;> cases b <;>
    simp_all [stKeyEquals, Value.userEquality, key, Protocol.equals, Record.equals,
      Value.asString]

end Record

/-- The class meets the contract of `=` and `hash`. -/
theorem record_lawful : Lawful Record where
  comparesEqual_text ha hb := by
    rw [Record.comparesEqual_iff, ha, hb]
  comparesEqual_object {a b} hab hobject := by
    rw [Record.comparesEqual_iff] at hab
    have hnot : ∀ {v : Value Record}, v.userEquality ≠ none → v.asString = none := by
      intro v hv
      cases v <;> simp_all [Value.userEquality, Value.asString]
    rcases hobject with ha | hb
    · rw [hnot ha] at hab
      exact hab
    · rw [hnot hb] at hab
      cases hs : a.asString <;> rw [hs] at hab <;> exact hab
  equals_isSome _ _ := rfl
  equals_self o := congrArg some (decide_eq_true rfl)
  adaptEquals _ _ h := by cases h
  equivalence := by
    simp only [Record.stKeyEquals_iff]
    exact ⟨fun _ => rfl, Eq.symm, Eq.trans⟩
  hash_eq {a b} hab := by
    rw [Record.stKeyEquals_iff] at hab
    cases a <;> cases b <;> simp_all [Record.key, stKeyHash, Protocol.hash, Protocol.symbolAddress,
      Protocol.getHash]

instance {K : Type} : HashedMap K (List (K × K)) where
  newMap := []
  hashedGet m sem k := Keyed.lookup sem.keyEquals k m
  hashedPut m sem k v := Keyed.store sem.keyEquals k v m
  hashedRemove m sem k := Keyed.delete sem.keyEquals k m
  hashedForEach m := m

/-- Lists of entries are a hashed storage for every semantics. -/
theorem entries_lawful {K : Type} {sem : KeySemantics K} :
    HashedMap.Lawful (M := List (K × K)) sem (Keyed.Distinct sem.keyEquals) where
  new := ⟨List.Pairwise.nil, rfl⟩
  distinct h := h
  get _ _ := rfl
  put h _ _ := ⟨h.store, .refl _⟩
  remove h _ := ⟨h.delete, .refl _⟩

end ProtoST.Collections

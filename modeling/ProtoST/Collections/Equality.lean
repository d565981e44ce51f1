import Mathlib

/-!
# Equality of values

The three relations by which the collections of `collection_prims.cpp` and
`lib/kernel/collection.st` compare: the send of `=`, the key equality of the hashed
collections (`stKeyEquals`), and the native comparison of the list-backed ones
(`indexOfEqual`, `countEqual`), with the hash of the keys (`stKeyHash`).

What the classes of the program answer and what protoCore computes is the class
`Protocol`.  Numbers and strings are their contents: every comparison below that looks
at the identity of two values goes on to compare contents, except for a NaN, which
keeps the object it is.

## Main results

* `stKeyEquals_object` — a key of a class with its own `=` is found by that `=`.
* `sendEquals_le`, `nativeEquals_le` — neither of the other two relations
  equates values that are different keys.
-/

namespace ProtoST.Collections

/-- A SmallInteger or LargeInteger, or a Float: its exact value, an infinity or a NaN. -/
inductive Number where
  | integer (n : Int)
  | float (q : Rat)
  | infinity (negative : Bool)
  | nan (object : Nat)
  deriving DecidableEq

/-- A value: the native ones, and the objects of `O`, whose classes may define `=`. -/
inductive Value (O : Type) where
  | nil
  | boolean (b : Bool)
  | number (n : Number)
  | character (codePoint : Nat)
  | string (text : String)
  | symbol (text : String)
  | object (o : O)
  deriving DecidableEq

/-- What the program's classes and protoCore supply. -/
class Protocol (O : Type) where
  /-- `o = v`: the answer of the method, or `none` when it raises an error. -/
  equals : O → Value O → Option Bool
  /-- `o adaptToNumber: n andSend: #=`. -/
  adaptEquals : O → Number → Option Bool
  /-- `o hash`, when it answers an Integer. -/
  hash : O → Option Int
  /-- `o key` and `o value`, when `o` is an Association. -/
  association : O → Option (Value O × Value O)
  /-- protoCore's `partialCompare`. -/
  partialCompare : Value O → Value O → Option Ordering
  /-- protoCore's `getHash`. -/
  getHash : Value O → Nat
  /-- The address of the symbol that a text is interned as. -/
  symbolAddress : String → Nat
  /-- `std::hash` of a finite Float, of an infinity or a NaN, and of a text. -/
  hashDouble : Number → Nat
  hashString : String → Nat

variable {O : Type}

namespace Value

/-- `ProtoObject::asString`. -/
def asString : Value O → Option String
  | string s => some s
  | symbol s => some s
  | _ => none

/-- `runtimeForUserEquality`: anything but a number, a string or symbol, a character, a
Boolean or nil. -/
def userEquality : Value O → Option O
  | object o => some o
  | _ => none

end Value

section Hash
variable [Protocol O]

variable (O) in
/-- `numericHashImpl`. -/
def numericHash : Number → Nat
  | .float q =>
      if q.den = 1 then
        if -2 ^ 53 < q ∧ q < 2 ^ 53 then (q.num % 2 ^ 53).toNat
        else Protocol.hashString O (toString q.num) % 2 ^ 53
      else Protocol.hashDouble O (.float q) % 2 ^ 53
  | .integer n =>
      if -2 ^ 53 < n ∧ n < 2 ^ 53 then (n % 2 ^ 53).toNat
      else Protocol.hashString O (toString n) % 2 ^ 53
  | n => Protocol.hashDouble O n % 2 ^ 53

/-- `numberKeyHash(0.5)`, the hash of a key whose `hash` is out of range. -/
def outOfRangeHash : Nat := 0x3FE0000000000000 ^^^ 0x3FE00000

/-- `stKeyHash`. -/
def stKeyHash : Value O → Nat
  | .nil => 0
  | .string s => Protocol.symbolAddress O s
  | .symbol s => Protocol.symbolAddress O s
  | .number n => numericHash O n
  | .object o =>
      match Protocol.hash o with
      | some h => if 0 ≤ h ∧ h < 2 ^ 53 then h.toNat else outOfRangeHash
      | none => Protocol.getHash (.object o)
  | v => Protocol.getHash v

end Hash

section Equality
variable [DecidableEq O] [Protocol O]

/-- `a->partialCompare(ctx, b) == 0`. -/
def comparesEqual (a b : Value O) : Bool :=
  Protocol.partialCompare a b == some .eq

/-- The send `a = b`: `prim_NumEq`, `prim_StrEq`, the identity of `Object>>=` and of
`Boolean>>=`, or the method of the object's class.  `prim_StrEq` reads its argument as a
string, and finds none in any other value. -/
def sendEquals : Value O → Value O → Option Bool
  | .object o, v => Protocol.equals o v
  | .number m, .number n => some (comparesEqual (O := O) (.number m) (.number n))
  | .number m, .object o => Protocol.adaptEquals o m
  | .number _, _ => some false
  | .string s, v => v.asString.map fun t => s == t
  | .symbol s, v => v.asString.map fun t => s == t
  | a, b => some (a == b)

/-- `stKeyEquals`: identity, then the `=` of whichever of the two has its own, then the
native comparison. -/
def stKeyEquals (a b : Value O) : Bool :=
  a == b ||
    match a.userEquality with
    | some o => Protocol.equals o b == some true
    | none =>
        match b.userEquality with
        | some o => Protocol.equals o a == some true
        | none => comparesEqual a b

/-- The comparison of `indexOfEqual`, of `countEqual` and of `prim_Dict_includes`:
identity, then the native comparison. -/
def nativeEquals (a b : Value O) : Bool := a == b || comparesEqual a b

variable (O) in
/-- What the collections may rely on.  The first two say how protoCore compares, the
others are the contract of a class that defines `=` and `hash`. -/
structure Lawful : Prop where
  /-- The texts of strings and symbols are compared. -/
  comparesEqual_text : ∀ {a b : Value O} {s t : String}, a.asString = some s →
    b.asString = some t → (comparesEqual a b = true ↔ s = t)
  /-- An object is compared by what it is. -/
  comparesEqual_object : ∀ {a b : Value O}, comparesEqual a b = true →
    a.userEquality ≠ none ∨ b.userEquality ≠ none → a = b
  /-- The `=` of a class answers, and answers true for the receiver itself. -/
  equals_isSome : ∀ (o : O) v, (Protocol.equals o v).isSome = true
  equals_self : ∀ o : O, Protocol.equals o (.object o) = some true
  /-- A number that asks the object gets the object's own answer. -/
  adaptEquals : ∀ (o : O) n, Protocol.adaptEquals o n = some true →
    Protocol.equals o (.number n) = some true
  equivalence : Equivalence fun a b : Value O => stKeyEquals a b = true
  hash_eq : ∀ {a b : Value O}, stKeyEquals a b = true → stKeyHash a = stKeyHash b

namespace Lawful

theorem refl (h : Lawful O) (a : Value O) : stKeyEquals a a = true := h.equivalence.refl a

theorem symm (h : Lawful O) {a b : Value O} (hab : stKeyEquals a b = true) :
    stKeyEquals b a = true := h.equivalence.symm hab

end Lawful

/-- A key of a class with its own `=` is found by that `=`. -/
theorem stKeyEquals_object (h : Lawful O) (o : O) (v : Value O) :
    Protocol.equals o v = some (stKeyEquals (.object o) v) := by
  obtain ⟨b, hb⟩ := Option.isSome_iff_exists.mp (h.equals_isSome o v)
  by_cases hv : (Value.object o) = v
  · subst hv
    rw [h.equals_self o, h.refl]
  · rw [hb]
    simp [stKeyEquals, Value.userEquality, hv, hb]

/-- `nativeEquals` is the key equality of two native values. -/
theorem stKeyEquals_native {a b : Value O} (ha : a.userEquality = none)
    (hb : b.userEquality = none) : stKeyEquals a b = nativeEquals a b := by
  simp [stKeyEquals, nativeEquals, ha, hb]

/-- The native comparison equates only equal keys. -/
theorem nativeEquals_le (h : Lawful O) {a b : Value O} (hab : nativeEquals a b = true) :
    stKeyEquals a b = true := by
  by_cases hnative : a.userEquality = none ∧ b.userEquality = none
  · rw [stKeyEquals_native hnative.1 hnative.2, hab]
  · have heq : a = b := by
      rcases Bool.or_eq_true _ _ ▸ hab with hid | hcompare
      · exact eq_of_beq hid
      · exact h.comparesEqual_object hcompare (not_and_or.mp hnative)
    rw [heq, h.refl]

/-- The native comparison finds a value itself. -/
@[simp] theorem nativeEquals_self (a : Value O) : nativeEquals a a = true := by
  simp [nativeEquals]

/-- The send of `=` equates only equal keys. -/
theorem sendEquals_le (h : Lawful O) {a b : Value O} (hab : sendEquals a b = some true) :
    stKeyEquals a b = true := by
  have text : ∀ {a b : Value O} {s : String}, a.asString = some s →
      (b.asString.map fun t => s == t) = some true → stKeyEquals a b = true := by
    intro a b s ha heq
    obtain ⟨t, ht, hst⟩ := Option.map_eq_some_iff.mp heq
    have hcompare := (h.comparesEqual_text ha ht).mpr (eq_of_beq hst)
    exact nativeEquals_le h (by simp [nativeEquals, hcompare])
  cases a with
  | object o =>
      rw [sendEquals, stKeyEquals_object h] at hab
      exact Option.some.inj hab
  | number m =>
      cases b with
      | number n =>
          have hcompare := Option.some.inj hab
          exact nativeEquals_le h (by simp [nativeEquals, hcompare])
      | object o =>
          have hanswer := h.adaptEquals o m hab
          rw [stKeyEquals_object h] at hanswer
          exact h.symm (Option.some.inj hanswer)
      | _ => simp [sendEquals] at hab
  | string s => exact text rfl hab
  | symbol s => exact text rfl hab
  | _ =>
      rw [eq_of_beq (Option.some.inj hab)]
      exact h.refl _

end Equality

end ProtoST.Collections

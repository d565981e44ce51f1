import ProtoST.Lib.Structured
import Mathlib.Data.List.Count

/-!
# Bytecode modules

The instruction set of `Opcodes.h` and the modules the compiler emits.  An
instruction carries the constant, selector, name or slot its operand stands for
instead of an index into the constant pool, and the `EXTEND` words in front of a
wide operand belong to the instruction they widen.

`sendArgCount` and `computeMaxOperandDepth` are the functions of
`BytecodeModule.cpp`; `argCount` is how many arguments the engine's send
handlers pop, which for a call-form send they read from their own parse of the
mangled selector.

## Main results

* `sendArgCount_mangled`, `argCount_mangled` — both parses of the selector of a
  call-form send find its positional and named arguments.
-/

namespace ProtoST.Runtime.Bytecode

open ProtoST.Lib.Structured

/-! ## Instructions -/

/-- An entry of the constant pool. -/
inductive Constant where
  | integer (value : Int)
  | largeInteger (digits : String) (radix : Int)
  | float (bits : BitVec 64)
  | string (text : String)
  | symbol (text : String)
  | char (text : String)
  /-- What a call-form send puts in the slot of an omitted named argument. -/
  | unsetMarker
  deriving DecidableEq, Repr

/-- The five send instructions. -/
inductive SendKind where
  | unary | binary | keyword | super | call
  deriving DecidableEq, Repr

/-- The SmallInteger fast-path operators. -/
inductive IntOp where
  | add | sub | le | lt | ge | gt | eq
  deriving DecidableEq, Repr

/-- The selector a fast-path operator sends when it misses. -/
def IntOp.selector : IntOp → String
  | .add => "+"
  | .sub => "-"
  | .le => "<="
  | .lt => "<"
  | .ge => ">="
  | .gt => ">"
  | .eq => "="

/-- A local slot.  The instruction holds `index` only; `owner` records the scope
whose `declareLocal` allocated it, as the number of scopes around that one. -/
structure Slot where
  owner : Nat
  index : Nat
  deriving DecidableEq, Repr

/-- A write of an instance-variable write group. -/
structure GroupEntry where
  name : String
  position : Nat
  count : Nat
  deriving DecidableEq, Repr

/-- The instructions other than jumps. -/
inductive Op where
  | pushConst (c : Constant)
  | pushLocal (slot : Slot)
  | storeLocal (slot : Slot)
  | dup
  | pop
  | pushSelf
  | pushNil
  | pushTrue
  | pushFalse
  | send (kind : SendKind) (selector : String)
  | binInt (op : IntOp)
  | ret
  | retTop
  | pushBlock (index : Nat)
  | pushCaptured (name : String)
  | storeCaptured (name : String)
  | defineCaptured (name : String)
  /-- `inherit` is the operand 1: a child of the dictionary of the block. -/
  | makeCaptured (inherit : Bool)
  | pushGlobal (name : String)
  | storeGlobal (name : String)
  | pushInstVar (name : String)
  | storeInstVar (name : String)
  | pushOwnInstVar (name : String)
  | storeClassVar (name : String)
  | makeArray (count : Nat)
  | assertBoolOrDnu (selector : String)
  | ivarGroup (entry : Nat)
  | ivarGroupEnd (entry : Nat)
  deriving DecidableEq, Repr

/-- Code as the emitter nests it. -/
abbrev Code := List (Item Op)

/-- Code as the engine runs it. -/
abbrev FlatCode := List (Flat Op)

/-- The signature of a call-form method. -/
structure CallForm where
  posArity : Nat
  namedKeys : List String
  deriving DecidableEq, Repr

/-- A compiled module: the top level, a method or a block. -/
inductive Module where
  | mk (items : Code) (blocks : List Module) (groupEntries : List GroupEntry)
    (argCount : Nat) (callForm : Option CallForm) (definingClass : Option String)

namespace Module

def items : Module → Code
  | .mk items _ _ _ _ _ => items

def blocks : Module → List Module
  | .mk _ blocks _ _ _ _ => blocks

def groupEntries : Module → List GroupEntry
  | .mk _ _ entries _ _ _ => entries

def argCount : Module → Nat
  | .mk _ _ _ n _ _ => n

def callForm : Module → Option CallForm
  | .mk _ _ _ _ c _ => c

def definingClass : Module → Option String
  | .mk _ _ _ _ _ c => c

/-- The instructions of a module. -/
def code (m : Module) : FlatCode := flatten m.items

/-- `Within m n`: the module `n` is `m` or a method or block of it, at any depth. -/
inductive Within (m : Module) : Module → Prop
  | self : Within m m
  | block {n b : Module} : Within m n → b ∈ n.blocks → Within m b

end Module

/-! ## The arguments of a send -/

/-- A mangled call selector: `name#nPos#key₁#…`. -/
def mangled (name : String) (nPos : Nat) (keys : List String) : String :=
  name ++ "#" ++ toString nPos ++ String.join (keys.map fun k => "#" ++ k)

/-- `strtoul` at base ten: the digits in front. -/
def strtoul (cs : List Char) : Nat :=
  Nat.ofDigitChars 10 (cs.takeWhile Char.isDigit) 0

/-- `BytecodeModule::sendArgCount`. -/
def sendArgCount (kind : SendKind) (selector : String) : Nat :=
  let sel := selector.toList
  let colons := sel.count ':'
  match kind with
  | .unary => 0
  | .binary => 1
  | .call =>
    match sel.dropWhile (· != '#') with
    | [] => 0
    | _ :: rest => strtoul rest + rest.count '#'
  | .keyword => colons
  | .super =>
    if colons = 0 && sel.head?.any (fun c => !c.isAlpha && c != '_') then 1 else colons

/-- The parse of a mangled call selector in the engine: its positional count
and its nonempty keys. -/
def callDescriptor (selector : String) : Option (Nat × List (List Char)) :=
  match selector.toList.splitOn '#' with
  | _ :: nPos :: keys => some (strtoul nPos, keys.filter fun k => !k.isEmpty)
  | _ => none

/-- How many arguments the handler of a send pops. -/
def argCount (kind : SendKind) (selector : String) : Nat :=
  match kind with
  | .unary => 0
  | .binary => 1
  | .keyword => selector.toList.count ':'
  | .super => sendArgCount .super selector
  | .call =>
    match callDescriptor selector with
    | some (nPos, keys) => nPos + keys.length
    | none => 0

section Mangled

theorem strtoul_toString (n : Nat) (rest : List Char)
    (hrest : rest.head?.all (fun c => !c.isDigit)) :
    strtoul ((toString n).toList ++ rest) = n := by
  have hdigits : ∀ c ∈ Nat.toDigits 10 n, c.isDigit = true := fun c hc =>
    Nat.isDigit_of_mem_toDigits (by decide) (by decide) hc
  have hnone : rest.takeWhile Char.isDigit = [] := by
    cases rest with
    | nil => rfl
    | cons c cs =>
      have hc : c.isDigit = false := by simpa using hrest
      simp [hc]
  have htake : (Nat.toDigits 10 n ++ rest).takeWhile Char.isDigit = Nat.toDigits 10 n := by
    rw [List.takeWhile_append_of_pos hdigits, hnone, List.append_nil]
  simp only [strtoul, Nat.toString_eq_repr, Nat.toList_repr, htake]
  exact Nat.ofDigitChars_ten_toDigits

theorem hash_notMem_toString (n : Nat) : '#' ∉ (toString n).toList := by
  intro h
  have hdigit : ('#').isDigit = true := by
    apply Nat.isDigit_of_mem_toDigits (b := 10) (by decide) (by decide)
    simpa [Nat.toString_eq_repr, Nat.toList_repr] using h
  exact absurd hdigit (by decide)

/-- The text of the keys, each behind a `#`. -/
theorem toList_keys (keys : List String) :
    (String.join (keys.map fun k => "#" ++ k)).toList
      = (keys.map fun k => '#' :: k.toList).flatten := by
  induction keys with
  | nil => rfl
  | cons k keys ih => simpa [String.toList_join, List.flatMap] using ih

/-- A keyword of a call: nonempty, and without the delimiter of the mangling. -/
def CallKey (key : String) : Prop := '#' ∉ key.toList ∧ key.toList ≠ []

variable {keys : List String}

theorem splitOn_keys (hkeys : ∀ k ∈ keys, CallKey k)
    {pre : List Char} (hpre : '#' ∉ pre) :
    (pre ++ (keys.map fun k => '#' :: k.toList).flatten).splitOn '#'
      = pre :: keys.map String.toList := by
  induction keys generalizing pre with
  | nil => simpa using List.splitOn_eq_singleton hpre
  | cons k keys ih =>
    have hk : '#' ∉ k.toList := (hkeys k List.mem_cons_self).1
    have hrest := ih (fun k' hk' => hkeys k' (List.mem_cons_of_mem k hk')) hk
    simp only [List.map_cons, List.flatten_cons, List.cons_append]
    rw [List.splitOn_append_cons_self_of_not_mem hpre, hrest]

theorem mangled_toList (name : String) (nPos : Nat) (keys : List String) :
    (mangled name nPos keys).toList = name.toList ++ '#' ::
      ((toString nPos).toList ++ (keys.map fun k => '#' :: k.toList).flatten) := by
  simp only [mangled, String.toList_append, toList_keys, List.append_assoc]
  rfl

theorem head_keys (keys : List String) :
    ((keys.map fun k => '#' :: k.toList).flatten.head?.all fun c => !c.isDigit) = true := by
  cases keys with
  | nil => rfl
  | cons k keys => rfl

theorem count_keys (hkeys : ∀ k ∈ keys, CallKey k) :
    ((keys.map fun k => '#' :: k.toList).flatten).count '#' = keys.length := by
  induction keys with
  | nil => rfl
  | cons k keys ih =>
    have hk : k.toList.count '#' = 0 :=
      List.count_eq_zero.mpr (hkeys k List.mem_cons_self).1
    have hrest := ih fun k' hk' => hkeys k' (List.mem_cons_of_mem k hk')
    simp only [List.map_cons, List.flatten_cons, List.count_append, List.count_cons_self,
      List.length_cons, hk, hrest]
    omega

/-- **The call descriptor** of a mangled selector is what was mangled. -/
theorem callDescriptor_mangled {name : String} (hname : '#' ∉ name.toList) (nPos : Nat)
    (hkeys : ∀ k ∈ keys, CallKey k) :
    callDescriptor (mangled name nPos keys) = some (nPos, keys.map String.toList) := by
  have hsplit : (mangled name nPos keys).toList.splitOn '#'
      = name.toList :: (toString nPos).toList :: keys.map String.toList := by
    rw [mangled_toList, List.splitOn_append_cons_self_of_not_mem hname,
      splitOn_keys hkeys (hash_notMem_toString nPos)]
  have hnumber : strtoul (toString nPos).toList = nPos := by
    simpa using strtoul_toString nPos [] rfl
  have hfilter : (keys.map String.toList).filter (fun k => !k.isEmpty)
      = keys.map String.toList := by
    apply List.filter_eq_self.mpr
    intro k hk
    obtain ⟨key, hkey, rfl⟩ := List.mem_map.mp hk
    simpa using (hkeys key hkey).2
  simp only [callDescriptor, hsplit, hnumber, hfilter]

/-- Both parses of the selector of a call-form send find its arguments. -/
theorem argCount_mangled {name : String} (hname : '#' ∉ name.toList) (nPos : Nat)
    (hkeys : ∀ k ∈ keys, CallKey k) :
    argCount .call (mangled name nPos keys) = nPos + keys.length := by
  simp only [argCount, callDescriptor_mangled hname nPos hkeys, List.length_map]

theorem sendArgCount_mangled {name : String} (hname : '#' ∉ name.toList) (nPos : Nat)
    (hkeys : ∀ k ∈ keys, CallKey k) :
    sendArgCount .call (mangled name nPos keys) = nPos + keys.length := by
  have hdrop : (mangled name nPos keys).toList.dropWhile (· != '#') = '#' ::
      ((toString nPos).toList ++ (keys.map fun k => '#' :: k.toList).flatten) := by
    rw [mangled_toList, List.dropWhile_append_of_pos]
    · rfl
    · intro c hc
      have hne : c ≠ '#' := fun h => hname (h ▸ hc)
      simpa using hne
  have hdigits : (toString nPos).toList.count '#' = 0 :=
    List.count_eq_zero.mpr (hash_notMem_toString nPos)
  simp only [sendArgCount, hdrop, strtoul_toString nPos _ (head_keys keys),
    List.count_append, hdigits, count_keys hkeys, Nat.zero_add]

end Mangled

end ProtoST.Runtime.Bytecode

import Mathlib
import ProtoST.Lib.FixedArray
import ProtoST.Runtime.Bytecode
import ProtoST.Runtime.DispatchClassSide

/-!
# The arguments of a call-form send

The `SEND_CALL` handler of the engine (`runtime/ExecutionEngine.cpp`) with its two arrays on
the stack: `callArgs`, which takes the arguments from the operand stack, and `methodArgs`,
from which the frame of a method is filled.  The limit of 16 arguments is a check on the
call, and `methodArgs` is indexed by the declaration.  `Dispatch.Space.sendCall` is the same
handler without the arrays.

## Main results

* `bindNamed_eq_ok_iff` — the merge of two sorted lists of keys: what it accepts, and the
  value of each declared key.
* `bindKeys_run` — what the loop over the declared keys does to `methodArgs`.
* `sendCall_run` — the handler writes behind `methodArgs`, or comes to what
  `Dispatch.Space.sendCall` says.
* `binds_iff` — when the handler binds the arguments as declared.
-/

namespace ProtoST.Runtime.CallBinding

open ProtoST.Lib
open ProtoST.Runtime.Dispatch

variable {Obj : Type}

/-- `BytecodeModule::CallDescriptor`. -/
structure CallDescriptor where
  mangled : String
  name : String
  nPos : Nat
  sortedKeys : List String
  sorted : sortedKeys.Pairwise (· < ·)

namespace CallDescriptor

def callNNamed (desc : CallDescriptor) : Nat := desc.sortedKeys.length

def callTotal (desc : CallDescriptor) : Nat := desc.nPos + desc.callNNamed

end CallDescriptor

/-- The arrays of the handler. -/
inductive ArgArray where
  | callArgs
  | methodArgs
  deriving DecidableEq, Repr

/-- How the handler ends without an outcome. -/
inductive Stop where
  /-- An access outside an array, or to a cell that is not set. -/
  | fault (array : ArgArray) (f : FixedArray.Fault)
  | insufficientStack (mangled : String)
  | underflow
  /-- `signalIfTooDeep`. -/
  | tooDeep
  /-- `signalCatchable`. -/
  | signal (e : Failure)
  deriving DecidableEq, Repr

/-- A part of the handler. -/
abbrev Run := Except Stop

/-- An access to an array. -/
def access {α : Type} (array : ArgArray) : Except FixedArray.Fault α → Run α
  | .ok a => .ok a
  | .error f => .error (.fault array f)

abbrev CallArgs (Obj : Type) := FixedArray Obj 16

abbrev MethodArgs (Obj : Type) := FixedArray Obj (1 + 16)

/-- `callArgs[i] = pop(f)` for `i` from `n - 1` down. -/
def popArgs : Nat → List Obj → CallArgs Obj → Run (CallArgs Obj × List Obj)
  | 0, stack, callArgs => .ok (callArgs, stack)
  | _ + 1, [], _ => .error .underflow
  | i + 1, v :: stack, callArgs => do
      let callArgs ← access .callArgs (callArgs.write i v)
      popArgs i stack callArgs

/-- `methodArgs[1 + i] = callArgs[i]` for the first `n` positional arguments. -/
def copyPositional (callArgs : CallArgs Obj) : Nat → MethodArgs Obj → Run (MethodArgs Obj)
  | 0, methodArgs => .ok methodArgs
  | i + 1, methodArgs => do
      let methodArgs ← copyPositional callArgs i methodArgs
      let v ← access .callArgs (callArgs.read i)
      access .methodArgs (methodArgs.write (1 + i) v)

/-- The loop over the declared keys, from the `i`-th on, and the check behind it that no key
of the call is left. -/
def bindKeys (unsetMarker : Obj) (desc : CallDescriptor) (callArgs : CallArgs Obj) :
    List String → Nat → Nat → MethodArgs Obj → Run (MethodArgs Obj)
  | [], _, callCursor, methodArgs =>
      match desc.sortedKeys[callCursor]? with
      | some foreign => .error (.signal (.namedArg desc.name foreign))
      | none => .ok methodArgs
  | declKey :: declKeys, i, callCursor, methodArgs =>
      match desc.sortedKeys[callCursor]? with
      | none => do
          let methodArgs ← access .methodArgs (methodArgs.write (1 + desc.nPos + i) unsetMarker)
          bindKeys unsetMarker desc callArgs declKeys (i + 1) callCursor methodArgs
      | some callKey =>
          if callKey < declKey then .error (.signal (.namedArg desc.name callKey))
          else if callKey = declKey then do
            let v ← access .callArgs (callArgs.read (desc.nPos + callCursor))
            let methodArgs ← access .methodArgs (methodArgs.write (1 + desc.nPos + i) v)
            bindKeys unsetMarker desc callArgs declKeys (i + 1) (callCursor + 1) methodArgs
          else do
            let methodArgs ←
              access .methodArgs (methodArgs.write (1 + desc.nPos + i) unsetMarker)
            bindKeys unsetMarker desc callArgs declKeys (i + 1) callCursor methodArgs

/-- A method with bytecode. -/
def callMethod (sp : Space Obj) (tooDeep : BytecodeModule → Bool) (desc : CallDescriptor)
    (callArgs : CallArgs Obj) (recv attr : Obj) (sub : BytecodeModule) : Run (Outcome Obj) :=
  if !sub.isCallForm then .error (.signal (.notCallForm desc.name desc.mangled))
  else if desc.nPos ≠ sub.callPosArity then
    .error (.signal (.positional desc.name sub.callPosArity desc.nPos))
  else do
    let methodArgs ← access .methodArgs (FixedArray.declare.write 0 recv)
    let methodArgs ← copyPositional callArgs desc.nPos methodArgs
    let methodArgs ← bindKeys sp.unsetMarker desc callArgs sub.callNamedKeys 0 0 methodArgs
    let totalArgs := 1 + sub.callPosArity + sub.callNamedKeys.length
    if sub.argCount ≠ totalArgs then return .runtimeError (.argCountMismatch desc.name)
    else if tooDeep sub then .error .tooDeep
    else do
      -- `pushFrame` fills the frame from the array, the receiver in its first slot
      let self ← access .methodArgs (methodArgs.read 0)
      let args ← access .methodArgs (methodArgs.reads 1 (totalArgs - 1))
      return sp.runMethod attr sub self args

/-- An attribute that is no method with bytecode. -/
def callAttribute (sp : Space Obj) (desc : CallDescriptor) (callArgs : CallArgs Obj)
    (recv attr : Obj) : Run (Outcome Obj) :=
  if sp.isMethod attr then do
    let named ← access .callArgs (callArgs.reads desc.nPos desc.callNNamed)
    let pos ← access .callArgs (callArgs.reads 0 desc.nPos)
    return .protoMethod desc.name recv pos (desc.sortedKeys.zip named)
  else if desc.callTotal = 0 then return .value attr
  else
    match sp.primIdx attr with
    | some index =>
        if desc.callNNamed ≠ 0 then .error (.signal (.primitiveNamed desc.name))
        else do
          let pos ← access .callArgs (callArgs.reads 0 desc.nPos)
          return sp.callPrimitive index recv pos
    | none => return sp.doesNotUnderstand recv desc.mangled []

/-- The `SEND_CALL` handler, on the operand stack of its frame. -/
def sendCall (sp : Space Obj) (tooDeep : BytecodeModule → Bool) (desc : CallDescriptor)
    (stack : List Obj) : Run (Outcome Obj) :=
  if 16 < desc.callTotal then .error (.signal (.tooManyArgs desc.mangled))
  else if stack.length < desc.callTotal + 1 then .error (.insufficientStack desc.mangled)
  else do
    let (callArgs, stack) ← popArgs desc.callTotal stack FixedArray.declare
    match stack with
    | [] => .error .underflow
    | recv :: _ =>
        if sp.isActor recv then .error (.signal (.callToActor desc.mangled))
        else
          match sp.getAttribute (sp.methodHolder recv) desc.name with
          | none => return sp.doesNotUnderstand recv desc.mangled []
          | some attr =>
              match sp.bcPtr attr with
              | some sub => callMethod sp tooDeep desc callArgs recv attr sub
              | none => callAttribute sp desc callArgs recv attr

/-! ## Calls and declarations -/

/-- A call-form send: what the compiled code puts on the operand stack, and the constant of
its instruction. -/
structure Call (Obj : Type) where
  name : String
  recv : Obj
  pos : List Obj
  named : List (String × Obj)
  sorted : (named.map Prod.fst).Pairwise (· < ·)

namespace Call

variable (c : Call Obj)

def keys : List String := c.named.map Prod.fst

def mangled : String := Bytecode.mangled c.name c.pos.length c.keys

def desc : CallDescriptor := ⟨c.mangled, c.name, c.pos.length, c.keys, c.sorted⟩

def values : List Obj := c.pos ++ c.named.map Prod.snd

/-- The operand stack, its top first. -/
def stack (below : List Obj) : List Obj := c.values.reverse ++ c.recv :: below

/-- The send of the dispatch. -/
def send : CallSend Obj := ⟨c.name, c.mangled, c.pos, c.named⟩

/-- The value of the call for a key. -/
def value? (key : String) : Option Obj := c.named.lookup key

end Call

/-- What the compiler makes of a call-form declaration. -/
structure Declared (module : BytecodeModule) : Prop where
  sorted : module.callNamedKeys.Pairwise (· < ·)
  argCount : module.argCount = 1 + (module.callPosArity + module.callNamedKeys.length)

/-- The order the parser leaves named parameters and named arguments in. -/
def sortNamed {β : Type} (named : List (String × β)) : List (String × β) :=
  named.mergeSort fun a b => a.1 ≤ b.1

/-- A key that is repeated is a parse error, so the keys come out strictly sorted. -/
theorem sorted_sortNamed {β : Type} {named : List (String × β)}
    (h : (named.map Prod.fst).Nodup) : ((sortNamed named).map Prod.fst).Pairwise (· < ·) := by
  have hsorted : (sortNamed named).Pairwise fun a b => a.1 ≤ b.1 := by
    have hpairs : (sortNamed named).Pairwise fun a b => decide (a.1 ≤ b.1) = true :=
      List.pairwise_mergeSort
        (fun a b c hab hbc => by simp only [decide_eq_true_eq] at *; exact hab.trans hbc)
        (fun a b => by simpa using le_total a.1 b.1) named
    exact hpairs.imp fun hab => by simpa using hab
  have hle : ((sortNamed named).map Prod.fst).Pairwise (· ≤ ·) := List.pairwise_map.mpr hsorted
  have hnodup : ((sortNamed named).map Prod.fst).Nodup :=
    ((named.mergeSort_perm _).map Prod.fst).nodup_iff.mpr h
  exact (hle.and hnodup).imp fun hab => lt_of_le_of_ne hab.1 hab.2

/-- The module of a declaration with `nPos` positional parameters and these named ones. -/
def compiled {β : Type} (id nPos : Nat) (named : List (String × β)) : BytecodeModule :=
  ⟨id, 1 + (nPos + named.length), true, nPos, (sortNamed named).map Prod.fst⟩

theorem declared_compiled {β : Type} {id nPos : Nat} {named : List (String × β)}
    (h : (named.map Prod.fst).Nodup) : Declared (compiled id nPos named) := by
  refine ⟨sorted_sortNamed h, ?_⟩
  simp only [compiled, List.length_map, sortNamed, List.length_mergeSort]

/-- The objects of a program: its call-form methods are compiled from declarations. -/
structure Image (Obj : Type) extends Space Obj where
  declared : ∀ attr module, bcPtr attr = some module → module.isCallForm = true →
    Declared module

/-! ## The merge -/

section Merge

variable (sp : Space Obj)

theorem lookup_eq_none {named : List (String × Obj)} {key : String}
    (h : key ∉ named.map Prod.fst) : named.lookup key = none := by
  rw [List.lookup_eq_none_iff]
  intro entry hentry
  have hne : key ≠ entry.1 := fun heq => h (heq ▸ List.mem_map_of_mem hentry)
  simpa using hne

theorem map_eq_ok_iff {ε α β : Type} {e : Except ε α} {f : α → β} {b : β} :
    e.map f = .ok b ↔ ∃ a, e = .ok a ∧ f a = b := by
  cases e <;> simp [Except.map]

/-- A key in front of all declared ones is not looked up. -/
theorem map_lookup_cons {decl : List String} {key : String} {v : Obj}
    {rest : List (String × Obj)} (hkey : key ∉ decl) :
    (decl.map fun k => (((key, v) :: rest).lookup k).getD sp.unsetMarker)
      = decl.map fun k => (rest.lookup k).getD sp.unsetMarker := by
  apply List.map_congr_left
  intro k hk
  have hne : k ≠ key := fun heq => hkey (heq ▸ hk)
  rw [List.lookup_cons, beq_false_of_ne hne]

/-- The merge of two sorted lists accepts the keys that are declared, and takes the values
by key. -/
theorem bindNamed_eq_ok_iff {decl : List String} {named : List (String × Obj)}
    (hdecl : decl.Pairwise (· < ·)) (hnamed : (named.map Prod.fst).Pairwise (· < ·))
    {values : List Obj} :
    sp.bindNamed decl named = .ok values ↔
      (∀ key ∈ named.map Prod.fst, key ∈ decl) ∧
        values = decl.map fun key => (named.lookup key).getD sp.unsetMarker := by
  fun_induction Space.bindNamed sp decl named generalizing values with
  | case1 => simp [eq_comm]
  | case2 key v rest =>
      refine iff_of_false (fun h => by cases h) ?_
      rintro ⟨hsub, -⟩
      exact absurd (hsub key (by simp)) (List.not_mem_nil)
  | case3 declKey decl ih =>
      simp only [map_eq_ok_iff, ih (List.pairwise_cons.mp hdecl).2 hnamed]
      simp [eq_comm]
  | case4 declKey decl key v rest hlt =>
      refine iff_of_false (fun h => by cases h) ?_
      rintro ⟨hsub, -⟩
      rcases List.mem_cons.mp (hsub key (by simp)) with heq | hmem
      · exact lt_irrefl _ (heq ▸ hlt)
      · exact lt_asymm hlt ((List.pairwise_cons.mp hdecl).1 key hmem)
  | case5 decl declKey v rest hlt ih =>
      obtain ⟨hfirst, hdecl'⟩ := List.pairwise_cons.mp hdecl
      obtain ⟨hbefore, hrest⟩ := List.pairwise_cons.mp hnamed
      have hnotMem : declKey ∉ decl := fun hmem => lt_irrefl _ (hfirst declKey hmem)
      have hsub : (∀ key ∈ ((declKey, v) :: rest).map Prod.fst, key ∈ declKey :: decl) ↔
          ∀ key ∈ rest.map Prod.fst, key ∈ decl := by
        constructor
        · intro h key hkey
          rcases List.mem_cons.mp (h key (List.mem_cons_of_mem _ hkey)) with heq | hmem
          · exact absurd (hbefore key hkey) (heq ▸ lt_irrefl _)
          · exact hmem
        · intro h key hkey
          rcases List.mem_cons.mp hkey with heq | hmem
          · exact heq ▸ List.mem_cons_self
          · exact List.mem_cons_of_mem _ (h key hmem)
      rw [hsub, map_eq_ok_iff, @List.map_cons _ _ _ declKey decl, map_lookup_cons sp hnotMem]
      simp only [ih hdecl' hrest, List.lookup_cons_self, Option.getD_some]
      constructor
      · rintro ⟨vs, ⟨h, rfl⟩, rfl⟩
        exact ⟨h, rfl⟩
      · rintro ⟨h, rfl⟩
        exact ⟨_, ⟨h, rfl⟩, rfl⟩
  | case6 declKey decl key v rest hlt hne ih =>
      obtain ⟨hfirst, hdecl'⟩ := List.pairwise_cons.mp hdecl
      have hafter : ∀ k ∈ ((key, v) :: rest).map Prod.fst, declKey < k := by
        have hkey : declKey < key := lt_of_le_of_ne (not_lt.mp hlt) (Ne.symm hne)
        intro k hk
        rcases List.mem_cons.mp hk with heq | hmem
        · exact heq ▸ hkey
        · exact hkey.trans ((List.pairwise_cons.mp hnamed).1 k hmem)
      have hnone : ((key, v) :: rest).lookup declKey = none :=
        lookup_eq_none fun hmem => lt_irrefl _ (hafter declKey hmem)
      have hsub : (∀ k ∈ ((key, v) :: rest).map Prod.fst, k ∈ declKey :: decl) ↔
          ∀ k ∈ ((key, v) :: rest).map Prod.fst, k ∈ decl := by
        constructor
        · intro h k hk
          rcases List.mem_cons.mp (h k hk) with heq | hmem
          · exact absurd (hafter k hk) (heq ▸ lt_irrefl _)
          · exact hmem
        · intro h k hk
          exact List.mem_cons_of_mem _ (h k hk)
      rw [hsub, map_eq_ok_iff, @List.map_cons _ _ _ declKey decl, hnone]
      simp only [ih hdecl' hnamed, Option.getD_none]
      constructor
      · rintro ⟨vs, ⟨h, rfl⟩, rfl⟩
        exact ⟨h, rfl⟩
      · rintro ⟨h, rfl⟩
        exact ⟨_, ⟨h, rfl⟩, rfl⟩

end Merge

/-! ## The declaration that is too long -/

/-- The loop gets to a declared key for which there is no cell, `room` the cells that are
left: no key of the call that is not declared stops it before. -/
def Overruns (decl keys : List String) (room : Nat) : Prop :=
  ∃ declKey, decl[room]? = some declKey ∧ ∀ key ∈ keys, key < declKey → key ∈ decl

namespace Overruns

variable {decl keys : List String} {declKey key : String} {room : Nat}

theorem not_nil : ¬ Overruns [] keys room := by
  rintro ⟨declKey, h, -⟩
  cases h

/-- A key that is not declared stops the loop. -/
theorem not_of_lt (hdecl : (declKey :: decl).Pairwise (· < ·)) (hlt : key < declKey) :
    ¬ Overruns (declKey :: decl) (key :: keys) room := by
  rintro ⟨d, hd, h⟩
  have hfirst := (List.pairwise_cons.mp hdecl).1
  have hle : declKey ≤ d := by
    rcases List.mem_cons.mp (List.mem_of_getElem? hd) with heq | hmem
    · exact heq.ge
    · exact (hfirst d hmem).le
  rcases List.mem_cons.mp (h key List.mem_cons_self (hlt.trans_le hle)) with heq | hmem
  · exact lt_irrefl _ (heq ▸ hlt)
  · exact lt_asymm hlt (hfirst key hmem)

/-- At a declared key that the call does not give. -/
theorem cons_iff (h : ∀ key ∈ keys, declKey < key) :
    Overruns (declKey :: decl) keys room ↔
      ∀ left, room = left + 1 → Overruns decl keys left := by
  cases room with
  | zero =>
      refine iff_of_true ⟨declKey, rfl, ?_⟩ (fun left hleft => by omega)
      exact fun key hkey hlt => absurd hlt (lt_asymm (h key hkey))
  | succ room =>
      have hmem : ∀ key ∈ keys, (key ∈ declKey :: decl ↔ key ∈ decl) := by
        intro key hkey
        rw [List.mem_cons, or_iff_right (h key hkey).ne']
      simp only [Nat.add_right_cancel_iff, forall_eq']
      unfold Overruns
      rw [List.getElem?_cons_succ]
      constructor
      · rintro ⟨d, hd, hall⟩
        exact ⟨d, hd, fun key hkey hlt => (hmem key hkey).mp (hall key hkey hlt)⟩
      · rintro ⟨d, hd, hall⟩
        exact ⟨d, hd, fun key hkey hlt => (hmem key hkey).mpr (hall key hkey hlt)⟩

/-- At a declared key that the call gives. -/
theorem cons_cons_iff (h : ∀ key ∈ keys, declKey < key) :
    Overruns (declKey :: decl) (declKey :: keys) room ↔
      ∀ left, room = left + 1 → Overruns decl keys left := by
  rw [← cons_iff h]
  unfold Overruns
  simp only [List.forall_mem_cons, List.mem_cons_self, implies_true, true_and]

end Overruns

/-! ## The loops -/

section Loops

variable {vs us : List Obj} {v : Obj}

@[simp] theorem access_ok {α : Type} {array : ArgArray} {a : α} :
    access array (.ok a) = .ok a := rfl

@[simp] theorem access_error {α : Type} {array : ArgArray} {f : FixedArray.Fault} :
    (access array (.error f) : Run α) = .error (.fault array f) := rfl

@[simp] theorem bind_ok {α β : Type} {a : α} {f : α → Run β} :
    ((Except.ok a : Run α) >>= f) = f a := rfl

@[simp] theorem bind_error {α β : Type} {e : Stop} {f : α → Run β} :
    ((Except.error e : Run α) >>= f) = .error e := rfl

variable {callArgs : CallArgs Obj}

/-- The arguments come off the operand stack into the array. -/
theorem popArgs_run (below : List Obj) (h : callArgs.Holds us.length vs) :
    ∃ filled, popArgs us.length (us.reverse ++ below) callArgs = .ok (filled, below) ∧
      filled.Holds 0 (us ++ vs) := by
  induction us using List.reverseRecOn generalizing vs callArgs with
  | nil => exact ⟨callArgs, rfl, h⟩
  | append_singleton us u ih =>
      rw [List.length_append, List.length_singleton] at h ⊢
      obtain ⟨written, hwrite, hholds⟩ := h.cons u
      obtain ⟨filled, hpop, hfilled⟩ := ih hholds
      refine ⟨filled, ?_, by rw [List.append_assoc]; exact hfilled⟩
      rw [List.reverse_append, List.reverse_singleton, List.append_assoc]
      show popArgs (us.length + 1) (u :: (us.reverse ++ below)) callArgs = _
      rw [popArgs, hwrite, access_ok, bind_ok, hpop]

variable {methodArgs : MethodArgs Obj}

/-- The positional arguments stand behind the receiver. -/
theorem copyPositional_run
    (hcall : callArgs.Holds 0 vs) (hmethod : methodArgs.Holds 0 [v]) {n : Nat}
    (hn : n ≤ vs.length) :
    ∃ copied, copyPositional callArgs n methodArgs = .ok copied ∧
      copied.Holds 0 (v :: vs.take n) := by
  induction n with
  | zero => exact ⟨methodArgs, rfl, hmethod⟩
  | succ n ih =>
      obtain ⟨copied, hcopied, hholds⟩ := ih (by omega)
      have hbound := hcall.1
      have hread : callArgs.read n = .ok vs[n] := by
        have hv := hcall.2 n hn
        rwa [Nat.zero_add] at hv
      have hlen : (v :: vs.take n).length = 1 + n := by
        rw [List.length_cons, List.length_take]
        omega
      obtain ⟨written, hwrite, hwritten⟩ := hholds.snoc (by omega) vs[n]
      rw [hlen, Nat.zero_add] at hwrite
      refine ⟨written, ?_, ?_⟩
      · rw [copyPositional, hcopied, bind_ok, hread, access_ok, bind_ok, hwrite, access_ok]
      · rwa [List.cons_append, ← List.take_succ_eq_append_getElem hn] at hwritten

/-- What the loop over the declared keys comes to behind the values `vs`, where the merge
comes to the first argument. -/
inductive Bound (name : String) (vs : List Obj) :
    Except String (List Obj) → Run (MethodArgs Obj) → Prop
  | ok {values : List Obj} {methodArgs : MethodArgs Obj}
      (h : methodArgs.Holds 0 (vs ++ values)) : Bound name vs (.ok values) (.ok methodArgs)
  | error {key : String} : Bound name vs (.error key) (.error (.signal (.namedArg name key)))

theorem Bound.cons {name : String} {merged : Except String (List Obj)}
    {run : Run (MethodArgs Obj)} (h : Bound name (vs ++ [v]) merged run) :
    Bound name vs (merged.map (v :: ·)) run := by
  cases h with
  | ok h => exact .ok (by rwa [List.append_assoc] at h)
  | error => exact .error

theorem Call.keys_getElem? (c : Call Obj) (cursor : Nat) :
    c.desc.sortedKeys[cursor]? = ((c.named.drop cursor).head?).map Prod.fst := by
  rw [List.head?_drop]
  exact List.getElem?_map

/-- What is right of a run that writes behind the array if `P` holds. -/
def Outcomes (name : String) (vs : List Obj) (P : Prop) (merged : Except String (List Obj))
    (run : Run (MethodArgs Obj)) : Prop :=
  (P → run = .error (.fault .methodArgs (.outOfBounds (1 + 16)))) ∧
    (¬ P → Bound name vs merged run)

/-- A value goes into the next cell, `room` the cells that are left. -/
theorem Outcomes.store {name : String} {merged : Except String (List Obj)} {room index : Nat}
    {next : MethodArgs Obj → Run (MethodArgs Obj)}
    {P : Nat → Prop} (hmethod : methodArgs.Holds 0 vs) (hindex : vs.length = index)
    (hroom : vs.length + room = 1 + 16)
    (h : ∀ left written, room = left + 1 → written.Holds 0 (vs ++ [v]) →
      Outcomes name (vs ++ [v]) (P left) merged (next written)) :
    Outcomes name vs (∀ left, room = left + 1 → P left) (merged.map (v :: ·))
      (access .methodArgs (methodArgs.write index v) >>= next) := by
  cases room with
  | zero =>
      refine ⟨fun _ => ?_, fun hnot => absurd (fun left hleft => by omega) hnot⟩
      rw [FixedArray.write_of_le (show 1 + 16 ≤ index by omega), access_error, bind_error,
        show index = 1 + 16 by omega]
  | succ room =>
      obtain ⟨written, hwrite, hwritten⟩ := hmethod.snoc (by omega) v
      rw [Nat.zero_add, hindex] at hwrite
      rw [hwrite, access_ok, bind_ok]
      simp only [Nat.add_right_cancel_iff, forall_eq']
      exact ⟨(h room written rfl hwritten).1, fun hP => ((h room written rfl hwritten).2 hP).cons⟩

/-- **The loop over the declared keys** writes behind the array, or comes to what the merge
says. -/
theorem bindKeys_run (sp : Space Obj) (c : Call Obj)
    (hcall : callArgs.Holds 0 c.values) {decl : List String} (hdecl : decl.Pairwise (· < ·))
    {i cursor room : Nat} (hmethod : methodArgs.Holds 0 vs)
    (hlen : vs.length = 1 + c.pos.length + i) (hroom : vs.length + room = 1 + 16) :
    Outcomes c.name vs (Overruns decl ((c.named.drop cursor).map Prod.fst) room)
      (sp.bindNamed decl (c.named.drop cursor))
      (bindKeys sp.unsetMarker c.desc callArgs decl i cursor methodArgs) := by
  induction decl generalizing i cursor room methodArgs vs with
  | nil =>
      refine ⟨fun h => absurd h Overruns.not_nil, fun _ => ?_⟩
      rw [bindKeys, c.keys_getElem?]
      cases c.named.drop cursor with
      | nil => exact .ok (by rwa [List.append_nil])
      | cons entry rest => exact .error
  | cons declKey decl ih =>
      have hdecl' := (List.pairwise_cons.mp hdecl).2
      have hnext : ∀ {v : Obj} {left : Nat}, room = left + 1 →
          (vs ++ [v]).length = 1 + c.pos.length + (i + 1) ∧
            (vs ++ [v]).length + left = 1 + 16 := by
        intro v left hleft
        rw [List.length_append, List.length_singleton]
        omega
      have hkeys : ((c.named.drop cursor).map Prod.fst).Pairwise (· < ·) := by
        rw [List.map_drop]
        exact c.sorted.drop
      rw [bindKeys, c.keys_getElem?]
      cases hdrop : c.named.drop cursor with
      | nil =>
          rw [List.head?_nil, Option.map_none, List.map_nil, Space.bindNamed,
            Overruns.cons_iff (fun key hkey => absurd hkey List.not_mem_nil)]
          refine Outcomes.store hmethod hlen hroom fun left written hleft hwritten => ?_
          have hrest : Outcomes c.name _ (Overruns decl ((c.named.drop cursor).map Prod.fst) left)
              _ _ := ih hdecl' hwritten (hnext hleft).1 (hnext hleft).2
          rwa [hdrop] at hrest
      | cons entry rest =>
          obtain ⟨callKey, v⟩ := entry
          rw [hdrop, List.map_cons] at hkeys
          have hafter := (List.pairwise_cons.mp hkeys).1
          rw [List.head?_cons, Option.map_some, Space.bindNamed, List.map_cons]
          simp only []
          split
          · exact ⟨fun h => absurd h (Overruns.not_of_lt hdecl ‹_›), fun _ => .error⟩
          · rename_i hnotLt
            split
            · -- the call gives this key
              rename_i heq
              subst heq
              have hdropNext : c.named.drop (cursor + 1) = rest := by
                rw [← List.tail_drop, hdrop, List.tail_cons]
              have hvalue : c.values[c.pos.length + cursor]? = some v := by
                have hentry : c.named[cursor]? = some (callKey, v) := by
                  rw [← List.head?_drop, hdrop, List.head?_cons]
                rw [Call.values, List.getElem?_append_right (by omega), List.getElem?_map]
                simp [hentry]
              have hread : callArgs.read (c.pos.length + cursor) = .ok v := by
                have hv := hcall.read hvalue
                rwa [Nat.zero_add] at hv
              rw [show c.desc.nPos = c.pos.length from rfl, hread, access_ok, bind_ok,
                Overruns.cons_cons_iff hafter]
              refine Outcomes.store hmethod hlen hroom fun left written hleft hwritten => ?_
              have hrest : Outcomes c.name _
                  (Overruns decl ((c.named.drop (cursor + 1)).map Prod.fst) left) _ _ :=
                ih hdecl' hwritten (hnext hleft).1 (hnext hleft).2
              rwa [hdropNext] at hrest
            · -- the call does not give it
              rename_i hne
              have hlt : ∀ key ∈ callKey :: rest.map Prod.fst, declKey < key := by
                have hfirst : declKey < callKey :=
                  lt_of_le_of_ne (not_lt.mp hnotLt) (Ne.symm hne)
                intro key hkey
                rcases List.mem_cons.mp hkey with heq | hmem
                · exact heq ▸ hfirst
                · exact hfirst.trans (hafter key hmem)
              rw [Overruns.cons_iff hlt]
              refine Outcomes.store hmethod hlen hroom fun left written hleft hwritten => ?_
              have hrest : Outcomes c.name _
                  (Overruns decl ((c.named.drop cursor).map Prod.fst) left) _ _ :=
                ih hdecl' hwritten (hnext hleft).1 (hnext hleft).2
              rwa [hdrop] at hrest

end Loops

/-! ## The handler -/

section Handler

variable {sp : Space Obj} {tooDeep : BytecodeModule → Bool} {c : Call Obj}

/-- What a run of the handler comes to for the program. -/
def outcome? : Run (Outcome Obj) → Option (Outcome Obj)
  | .ok o => some o
  | .error (.signal e) => some (.error e)
  | .error _ => none

variable {callArgs : CallArgs Obj}

/-- The receiver and the positional arguments are in `methodArgs` before the loop over the
declared keys. -/
theorem copy_run (hcall : callArgs.Holds 0 c.values) :
    ∃ first copied, (FixedArray.declare : MethodArgs Obj).write 0 c.recv = .ok first ∧
      copyPositional callArgs c.pos.length first = .ok copied ∧
        copied.Holds 0 (c.recv :: c.pos) := by
  obtain ⟨first, hfirst, hholds⟩ :=
    (FixedArray.Holds.nil (Nat.zero_le _) : (FixedArray.declare : MethodArgs Obj).Holds 0 []).snoc
      (by simp) c.recv
  obtain ⟨copied, hcopied, hheld⟩ := copyPositional_run (n := c.pos.length) hcall hholds
    (by rw [Call.values, List.length_append]; omega)
  refine ⟨first, copied, hfirst, hcopied, ?_⟩
  rwa [Call.values, List.take_left] at hheld

/-- A call-form method: the handler writes behind `methodArgs`, or comes to what the
dispatch says. -/
theorem callMethod_run (hcall : callArgs.Holds 0 c.values) {attr : Obj} {sub : BytecodeModule}
    (hsub : sub.isCallForm = true → Declared sub) :
    (sub.isCallForm = true → c.pos.length = sub.callPosArity →
      Overruns sub.callNamedKeys c.keys (16 - c.pos.length) →
      callMethod sp tooDeep c.desc callArgs c.recv attr sub
        = .error (.fault .methodArgs (.outOfBounds (1 + 16)))) ∧
    (¬ (sub.isCallForm = true ∧ c.pos.length = sub.callPosArity ∧
        Overruns sub.callNamedKeys c.keys (16 - c.pos.length)) →
      outcome? (callMethod sp tooDeep c.desc callArgs c.recv attr sub)
          = some (sp.callMethod c.send c.recv attr sub) ∨
        (sub.isCallForm = true ∧ tooDeep sub = true) ∧
          callMethod sp tooDeep c.desc callArgs c.recv attr sub = .error .tooDeep) := by
  have hpos : c.pos.length ≤ 16 := by
    have hbound := hcall.1
    rw [Call.values, List.length_append] at hbound
    omega
  unfold callMethod Space.callMethod
  by_cases hform : sub.isCallForm = true
  · have hnot : ¬ (!sub.isCallForm) = true := by simp [hform]
    rw [if_neg hnot, if_neg hnot]
    by_cases harity : c.pos.length = sub.callPosArity
    · have hdesc : ¬ c.desc.nPos ≠ sub.callPosArity := not_not.mpr harity
      have hsend : ¬ c.send.pos.length ≠ sub.callPosArity := not_not.mpr harity
      rw [if_neg hdesc, if_neg hsend]
      obtain ⟨first, copied, hfirst, hcopied, hheld⟩ := copy_run hcall
      have hkeys : Outcomes c.name (c.recv :: c.pos)
          (Overruns sub.callNamedKeys ((c.named.drop 0).map Prod.fst) (16 - c.pos.length)) _ _ :=
        bindKeys_run sp c hcall (hsub hform).sorted hheld
          (show (c.recv :: c.pos).length = 1 + c.pos.length + 0 by
            rw [List.length_cons, Nat.add_comm]; rfl)
          (by rw [List.length_cons]; omega)
      rw [List.drop_zero] at hkeys
      rw [hfirst, access_ok, bind_ok, show c.desc.nPos = c.pos.length from rfl, hcopied, bind_ok]
      refine ⟨fun _ _ hover => ?_, fun hnot => ?_⟩
      · rw [hkeys.1 hover, bind_error]
      · have hbound := hkeys.2 (fun hover => hnot ⟨hform, harity, hover⟩)
        rw [show c.send.named = c.named from rfl]
        cases hmerged : sp.bindNamed sub.callNamedKeys c.named with
        | error key =>
            rw [hmerged] at hbound
            generalize bindKeys sp.unsetMarker c.desc callArgs sub.callNamedKeys 0 0 copied = run
              at hbound ⊢
            cases hbound
            exact .inl rfl
        | ok values =>
            have hvalues : values.length = sub.callNamedKeys.length := by
              rw [((bindNamed_eq_ok_iff sp (hsub hform).sorted c.sorted).mp hmerged).2,
                List.length_map]
            have hcount : ¬ sub.argCount ≠ 1 + sub.callPosArity + sub.callNamedKeys.length := by
              rw [(hsub hform).argCount, Nat.add_assoc]
              exact not_not.mpr rfl
            rw [hmerged] at hbound
            generalize bindKeys sp.unsetMarker c.desc callArgs sub.callNamedKeys 0 0 copied = run
              at hbound ⊢
            cases hbound with
            | @ok _ filled hfilled =>
                have hlen : (c.pos ++ values).length
                    = 1 + sub.callPosArity + sub.callNamedKeys.length - 1 := by
                  rw [List.length_append, hvalues, harity]
                  omega
                have hself : filled.read 0 = .ok c.recv := hfilled.read (i := 0) rfl
                have hargs : filled.reads 1 (1 + sub.callPosArity + sub.callNamedKeys.length - 1)
                    = .ok (c.pos ++ values) := hlen ▸ hfilled.tail.reads
                rw [bind_ok, if_neg hcount]
                by_cases hdeep : tooDeep sub = true
                · exact .inr ⟨⟨hform, hdeep⟩, if_pos hdeep⟩
                · left
                  rw [if_neg hdeep, hself, access_ok, bind_ok, hargs]
                  exact (congrArg some (if_neg hcount)).symm
    · have hdesc : c.desc.nPos ≠ sub.callPosArity := harity
      have hsend : c.send.pos.length ≠ sub.callPosArity := harity
      rw [if_pos hdesc, if_pos hsend]
      exact ⟨fun _ h => absurd h harity, fun _ => .inl rfl⟩
  · have hnot : (!sub.isCallForm) = true := by simp [hform]
    rw [if_pos hnot, if_pos hnot]
    exact ⟨fun h => absurd h hform, fun _ => .inl rfl⟩

/-- An attribute that is no such method. -/
theorem callAttribute_run (hcall : callArgs.Holds 0 c.values) (attr : Obj) :
    callAttribute sp c.desc callArgs c.recv attr = .ok (sp.callAttribute c.send c.recv attr) ∨
      ∃ e, callAttribute sp c.desc callArgs c.recv attr = .error (.signal e) ∧
        sp.callAttribute c.send c.recv attr = .error e := by
  obtain ⟨hpos, hnamed⟩ := FixedArray.Holds.append hcall
  have hnNamed : c.desc.callNNamed = c.named.length := List.length_map _
  have hreadPos : callArgs.reads 0 c.desc.nPos = .ok c.pos := hpos.reads
  have hreadNamed : callArgs.reads c.desc.nPos c.desc.callNNamed = .ok (c.named.map Prod.snd) := by
    have h := hnamed.reads
    rw [List.length_map, Nat.zero_add] at h
    rw [hnNamed]
    exact h
  unfold callAttribute Space.callAttribute
  rw [show c.desc.callTotal = c.send.pos.length + c.send.named.length by
    rw [CallDescriptor.callTotal, hnNamed]; rfl, hreadPos, hreadNamed]
  by_cases hmethod : sp.isMethod attr = true
  · left
    rw [if_pos hmethod, if_pos hmethod]
    exact congrArg Except.ok (congrArg (Outcome.protoMethod c.name c.recv c.pos)
      (List.zip_of_prod rfl rfl).symm)
  · rw [if_neg hmethod, if_neg hmethod]
    by_cases hzero : c.send.pos.length + c.send.named.length = 0
    · left
      rw [if_pos hzero, if_pos hzero]
      rfl
    · rw [if_neg hzero, if_neg hzero]
      cases sp.primIdx attr with
      | none => exact .inl rfl
      | some index =>
          simp only []
          rw [show c.desc.callNNamed = c.send.named.length from hnNamed]
          by_cases hno : c.send.named.length ≠ 0
          · rw [if_pos hno, if_pos hno]
            exact .inr ⟨_, rfl, rfl⟩
          · rw [if_neg hno, if_neg hno]
            exact .inl rfl

/-- The call passes the checks of the handler on the call itself, and finds a call-form
method. -/
structure Finds (sp : Space Obj) (c : Call Obj) (attr : Obj) (module : BytecodeModule) :
    Prop where
  atMost : c.desc.callTotal ≤ 16
  notActor : sp.isActor c.recv = false
  found : sp.getAttribute (sp.methodHolder c.recv) c.name = some attr
  bytecode : sp.bcPtr attr = some module
  callForm : module.isCallForm = true

/-- The call finds a method with as many positional parameters, and its declared keys do not
fit behind them. -/
def TooLong (sp : Space Obj) (c : Call Obj) : Prop :=
  ∃ attr module, Finds sp c attr module ∧ c.pos.length = module.callPosArity ∧
    Overruns module.callNamedKeys c.keys (16 - c.pos.length)

/-- **The handler** writes behind `methodArgs` when the declaration is too long for the call,
and comes to what the dispatch says otherwise. -/
theorem sendCall_run (img : Image Obj) (tooDeep : BytecodeModule → Bool) (c : Call Obj)
    (below : List Obj) :
    (TooLong img.toSpace c → sendCall img.toSpace tooDeep c.desc (c.stack below)
      = .error (.fault .methodArgs (.outOfBounds (1 + 16)))) ∧
    (¬ TooLong img.toSpace c →
      outcome? (sendCall img.toSpace tooDeep c.desc (c.stack below))
          = some (img.toSpace.sendCall c.send c.recv) ∨
        (∃ attr module, Finds img.toSpace c attr module ∧ tooDeep module = true) ∧
          sendCall img.toSpace tooDeep c.desc (c.stack below) = .error .tooDeep) := by
  have htotal : c.desc.callTotal = c.values.length := by
    simp [CallDescriptor.callTotal, CallDescriptor.callNNamed, Call.desc, Call.values, Call.keys]
  have hsend : c.desc.callTotal = c.send.pos.length + c.send.named.length := by
    simp [CallDescriptor.callTotal, CallDescriptor.callNNamed, Call.desc, Call.send, Call.keys]
  unfold sendCall Space.sendCall
  rw [← hsend]
  by_cases hmost : 16 < c.desc.callTotal
  · rw [if_pos hmost, if_pos hmost]
    refine ⟨?_, fun _ => .inl rfl⟩
    rintro ⟨attr, module, hfinds, -⟩
    exact absurd hfinds.atMost (by omega)
  · have hstack : ¬ (c.stack below).length < c.desc.callTotal + 1 := by
      simp [Call.stack, htotal]
    have hempty : (FixedArray.declare : CallArgs Obj).Holds c.values.length [] :=
      .nil (by omega)
    obtain ⟨callArgs, hpop, hcall⟩ := popArgs_run (c.recv :: below) hempty
    rw [List.append_nil] at hcall
    rw [← htotal] at hpop
    rw [if_neg hmost, if_neg hmost, if_neg hstack, Call.stack, hpop, bind_ok]
    simp only []
    by_cases hactor : img.toSpace.isActor c.recv = true
    · rw [if_pos hactor, if_pos hactor]
      refine ⟨?_, fun _ => .inl rfl⟩
      rintro ⟨attr, module, hfinds, -⟩
      exact absurd hfinds.notActor (by simp [hactor])
    · rw [if_neg hactor, if_neg hactor, show c.desc.name = c.name from rfl,
        show c.send.name = c.name from rfl]
      cases hattr : img.getAttribute (img.toSpace.methodHolder c.recv) c.name with
      | none =>
          refine ⟨?_, fun _ => .inl rfl⟩
          rintro ⟨attr, module, hfinds, -⟩
          exact absurd (hfinds.found.symm.trans hattr) (by simp)
      | some attr =>
          simp only []
          cases hsub : img.bcPtr attr with
          | none =>
              simp only []
              refine ⟨?_, fun _ => .inl ?_⟩
              · rintro ⟨attr', module, hfinds, -⟩
                have heq := Option.some.inj (hfinds.found.symm.trans hattr)
                exact absurd (hfinds.bytecode.symm.trans (heq ▸ hsub)) (by simp)
              · rcases callAttribute_run hcall attr with h | ⟨e, h, he⟩
                · rw [h]
                  rfl
                · rw [h, he]
                  rfl
          | some sub =>
              simp only []
              have hfinds : sub.isCallForm = true → Finds img.toSpace c attr sub := fun hform =>
                ⟨Nat.not_lt.mp hmost, by simpa using hactor, hattr, hsub, hform⟩
              obtain ⟨hfault, hrun⟩ :=
                @callMethod_run Obj img.toSpace tooDeep c callArgs hcall attr sub
                  (img.declared attr sub hsub)
              refine ⟨?_, fun hnot => ?_⟩
              · rintro ⟨attr', module, hfound, harity, hover⟩
                have hattr' := Option.some.inj (hfound.found.symm.trans hattr)
                have hmodule : module = sub :=
                  Option.some.inj (hfound.bytecode.symm.trans (hattr' ▸ hsub))
                rw [hmodule] at harity hover
                exact hfault (hmodule ▸ hfound.callForm) harity hover
              · have hfits : ¬ (sub.isCallForm = true ∧ c.pos.length = sub.callPosArity ∧
                    Overruns sub.callNamedKeys c.keys (16 - c.pos.length)) := by
                  rintro ⟨hform, h⟩
                  exact hnot ⟨attr, sub, hfinds hform, h⟩
                rcases hrun hfits with h | ⟨hdeep, h⟩
                · exact .inl h
                · exact .inr ⟨⟨attr, sub, hfinds hdeep.1, hdeep.2⟩, h⟩

variable {module : BytecodeModule}

theorem outcome?_eq_runMethod {run : Run (Outcome Obj)} {attr recv : Obj} {args : List Obj} :
    outcome? run = some (sp.runMethod attr module recv args) ↔
      run = .ok (sp.runMethod attr module recv args) := by
  rcases run with stop | o
  · refine iff_of_false ?_ (fun h => by cases h)
    intro h
    cases stop <;> cases h
  · simp [outcome?]

theorem Finds.sendCall_eq {attr : Obj} (h : Finds sp c attr module) :
    sp.sendCall c.send c.recv = sp.callMethod c.send c.recv attr module := by
  have hmost : ¬ 16 < c.send.pos.length + c.send.named.length := by
    have hatMost := h.atMost
    rw [CallDescriptor.callTotal, CallDescriptor.callNNamed] at hatMost
    rw [show c.send.named.length = c.desc.sortedKeys.length from (List.length_map _).symm]
    exact Nat.not_lt.mpr hatMost
  rw [Space.sendCall, if_neg hmost, if_neg (by simp [h.notActor]),
    show c.send.name = c.name from rfl, h.found]
  simp only [h.bytecode]

/-- When the dispatch runs a call-form method, and on what. -/
theorem callMethod_eq_runMethod_iff {attr : Obj}
    (hform : module.isCallForm = true) (hdeclared : Declared module) {args : List Obj} :
    sp.callMethod c.send c.recv attr module = sp.runMethod attr module c.recv args ↔
      (c.pos.length = module.callPosArity ∧ ∀ key ∈ c.keys, key ∈ module.callNamedKeys) ∧
        args = c.pos ++ module.callNamedKeys.map fun key =>
          (c.value? key).getD sp.unsetMarker := by
  have hcount : ¬ module.argCount ≠ 1 + module.callPosArity + module.callNamedKeys.length := by
    rw [hdeclared.argCount, Nat.add_assoc]
    exact not_not.mpr rfl
  have hmerge := @bindNamed_eq_ok_iff Obj sp _ _ hdeclared.sorted c.sorted
  rw [Space.callMethod, if_neg (by simp [hform])]
  by_cases harity : c.pos.length = module.callPosArity
  · have hpos : ¬ c.send.pos.length ≠ module.callPosArity := not_not.mpr harity
    rw [if_neg hpos, show c.send.named = c.named from rfl]
    cases hbound : sp.bindNamed module.callNamedKeys c.named with
    | error key =>
        refine iff_of_false (fun h => by cases h) ?_
        rintro ⟨⟨-, hkeys⟩, -⟩
        exact absurd (hbound.symm.trans (hmerge.mpr ⟨hkeys, rfl⟩)) (by simp)
    | ok values =>
        obtain ⟨hkeys, hvalues⟩ := hmerge.mp hbound
        have hargs : ∀ vs, sp.runMethod attr module c.recv vs
            = sp.runMethod attr module c.recv args ↔ args = vs := by
          intro vs
          simp [Space.runMethod, eq_comm]
        simp only [if_neg hcount, hargs]
        rw [show c.send.pos = c.pos from rfl, hvalues]
        exact ⟨fun h => ⟨⟨harity, hkeys⟩, h⟩, fun h => h.2⟩
  · have hpos : c.send.pos.length ≠ module.callPosArity := harity
    rw [if_pos hpos]
    exact iff_of_false (fun h => by cases h) fun h => harity h.1.1

/-- What a call-form send has to do with its arguments, and with its arrays. -/
structure Binds (sp : Space Obj) (tooDeep : BytecodeModule → Bool) (c : Call Obj)
    (below : List Obj) : Prop where
  accepted_iff : ∀ attr module, Finds sp c attr module → tooDeep module = false →
    ((∃ args, sendCall sp tooDeep c.desc (c.stack below)
        = .ok (sp.runMethod attr module c.recv args)) ↔
      c.pos.length = module.callPosArity ∧ ∀ key ∈ c.keys, key ∈ module.callNamedKeys)
  args_eq : ∀ attr module args, Finds sp c attr module →
    sendCall sp tooDeep c.desc (c.stack below) = .ok (sp.runMethod attr module c.recv args) →
      args = c.pos ++ module.callNamedKeys.map fun key => (c.value? key).getD sp.unsetMarker
  in_bounds : ∀ array f,
    sendCall sp tooDeep c.desc (c.stack below) ≠ .error (.fault array f)

/-- **Call-form arguments**: the handler binds them as declared, within its arrays, exactly
when the declaration is not too long for the call. -/
theorem binds_iff (img : Image Obj) (tooDeep : BytecodeModule → Bool) (c : Call Obj)
    (below : List Obj) :
    Binds img.toSpace tooDeep c below ↔ ¬ TooLong img.toSpace c := by
  constructor
  · intro h htooLong
    exact h.in_bounds _ _ ((sendCall_run img tooDeep c below).1 htooLong)
  · intro hnot
    have hrun := (sendCall_run img tooDeep c below).2 hnot
    have haccepts : ∀ {attr module args}, Finds img.toSpace c attr module →
        (outcome? (sendCall img.toSpace tooDeep c.desc (c.stack below))
          = some (img.toSpace.sendCall c.send c.recv)) →
        (sendCall img.toSpace tooDeep c.desc (c.stack below)
            = .ok (img.toSpace.runMethod attr module c.recv args) ↔
          (c.pos.length = module.callPosArity ∧ ∀ key ∈ c.keys, key ∈ module.callNamedKeys) ∧
            args = c.pos ++ module.callNamedKeys.map fun key =>
              (c.value? key).getD img.unsetMarker) := by
      intro attr module args hfinds hout
      rw [← outcome?_eq_runMethod, hout, hfinds.sendCall_eq, Option.some_inj,
        callMethod_eq_runMethod_iff hfinds.callForm
          (img.declared attr module hfinds.bytecode hfinds.callForm)]
    refine ⟨fun attr module hfinds hdeep => ?_, fun attr module args hfinds haccepted => ?_,
      fun array f hfault => ?_⟩
    · rcases hrun with hout | ⟨⟨attr', module', hfinds', hdeep'⟩, -⟩
      · simp only [haccepts hfinds hout, exists_and_left, exists_eq, and_true]
      · have hattr := Option.some.inj (hfinds'.found.symm.trans hfinds.found)
        have hmodule := Option.some.inj
          (hfinds'.bytecode.symm.trans (hattr ▸ hfinds.bytecode))
        rw [hmodule, hdeep] at hdeep'
        cases hdeep'
    · rcases hrun with hout | ⟨-, hdeep⟩
      · exact ((haccepts hfinds hout).mp haccepted).2
      · rw [hdeep] at haccepted
        cases haccepted
    · rcases hrun with hout | ⟨-, hdeep⟩
      · rw [hfault] at hout
        cases hout
      · rw [hfault] at hdeep
        cases hdeep

end Handler

/-! ## Sixteen positional parameters and a named one -/

/-- Of an object 1 with the method `draw(p1, …, p16, scale = …)`, which is 2. -/
def drawSpace : Space Nat :=
  { bareSpace with
    getAttribute := fun recv selector =>
      match recv, selector with
      | 1, "draw" => some 2
      | _, _ => none
    bcPtr := fun
      | 2 => some ⟨0, 18, true, 16, ["scale"]⟩
      | _ => none }

theorem compiled_draw : compiled 0 16 [("scale", ())] = ⟨0, 18, true, 16, ["scale"]⟩ := by
  simp [compiled, sortNamed]

def drawImage : Image Nat where
  toSpace := drawSpace
  declared := by
    intro attr module hmodule _
    simp only [drawSpace] at hmodule
    split at hmodule
    · cases hmodule
      exact compiled_draw ▸ declared_compiled (by decide)
    · cases hmodule

/-- `1 draw(1, …, 16)`. -/
def drawCall : Call Nat := ⟨"draw", 1, List.range' 1 16, [], List.Pairwise.nil⟩

theorem drawCall_overruns :
    sendCall drawImage.toSpace (fun _ => false) drawCall.desc (drawCall.stack [])
        = .error (.fault .methodArgs (.outOfBounds 17)) ∧
      ¬ Binds drawImage.toSpace (fun _ => false) drawCall [] := by
  have hrun : sendCall drawImage.toSpace (fun _ => false) drawCall.desc (drawCall.stack [])
      = .error (.fault .methodArgs (.outOfBounds 17)) := by rfl
  exact ⟨hrun, fun h => h.in_bounds _ _ hrun⟩

end ProtoST.Runtime.CallBinding

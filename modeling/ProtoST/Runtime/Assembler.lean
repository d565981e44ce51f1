import Mathlib
import ProtoST.Lib.Structured
import ProtoST.Lib.WhileLoop

/-!
# The words of a module

A module holds two-byte words: an opcode and an operand byte.  An operand that does
not fit has its higher bytes in `EXTEND` words in front.  The compiler emits a
forward jump as one word before it knows how far it goes, and widens it in place
when its construct ends (`resolveForwardJumps`, `closeLoop`); each word that it
inserts moves everything behind.

Positions count words; in the source they count bytes, two a word.

## Main results

* `assembleAll_spec` — what is emitted, or that an operand has more than 24 bits.
* `assembled_runs` — the words run as the nested code they were emitted for.
* `decode_exact` — the disassembler lists each instruction once, and points each
  jump at the line of its target.
-/

namespace ProtoST.Runtime.Assembler

open ProtoST.Lib.Structured ProtoST.Lib.WhileLoop

/-! ## Words -/

/-- `Op`. -/
inductive Opcode where
  | pushConst | pushLocal | storeLocal | dup | pop | pushSelf | pushNil | pushTrue
  | pushFalse | sendUnary | sendBinary | sendKeyword | sendSuper | jump
  | jumpIfTrue | jumpIfFalse | ret | returnTop | pushBlock | pushCaptured
  | storeCaptured | pushGlobal | storeGlobal | pushInstvar | storeInstvar
  | makeCaptured | makeArray | jumpBack | binIntAdd | binIntSub | binIntLe
  | binIntLt | binIntGe | binIntGt | binIntEq | assertBoolOrDnu | sendCall
  | defineCaptured | storeClassvar | pushOwnInstvar | ivarGroup | ivarGroupEnd
  | extend
  deriving DecidableEq

/-- Neither a jump nor a prefix. -/
def Opcode.plain : Opcode → Bool
  | .jump | .jumpIfTrue | .jumpIfFalse | .jumpBack | .extend => false
  | _ => true

/-- The opcode of a conditional jump. -/
def jumpIf : Bool → Opcode
  | true => .jumpIfTrue
  | false => .jumpIfFalse

structure Word where
  op : Opcode
  arg : BitVec 8
  deriving DecidableEq

abbrev Words := List Word

/-- The low byte of an operand. -/
def byte (arg : Nat) : BitVec 8 := BitVec.ofNat 8 arg

/-- A straight-line instruction with an operand of up to 24 bits. -/
structure Instr where
  op : Opcode
  arg : Nat
  plain : op.plain = true
  fits : arg ≤ 0xFFFFFF

/-! ## Emission -/

/-- `emit`. -/
def emit (m : Words) (op : Opcode) (arg : BitVec 8) : Words := m ++ [⟨op, arg⟩]

/-- `emitWide`. -/
def emitWide (m : Words) (op : Opcode) (arg : Nat) : Except String Words :=
  if 0xFFFFFF < arg then .error "bytecode operand exceeds 24-bit limit"
  else if 0xFFFF < arg then
    .ok (emit (emit (emit m .extend (byte (arg >>> 16))) .extend (byte (arg >>> 8)))
      op (byte arg))
  else if 0xFF < arg then .ok (emit (emit m .extend (byte (arg >>> 8))) op (byte arg))
  else .ok (emit m op (byte arg))

/-- `extendPrefixesFor`. -/
def extendPrefixesFor (arg : Nat) : Nat :=
  if 0xFFFF < arg then 2 else if 0xFF < arg then 1 else 0

/-- `insertExtendPrefixes`. -/
def insertExtendPrefixes (m : Words) (pos count : Nat) : Except String Words :=
  if count = 0 then .ok m
  else if m.length ≤ pos then .error "insertExtendPrefixes: not an instruction start"
  else .ok (m.take pos ++ List.replicate count ⟨.extend, 0#8⟩ ++ m.drop pos)

/-- Rewrites the operand byte of the word at `pos`. -/
def setArg (m : Words) (pos : Nat) (arg : BitVec 8) : Words :=
  m.modify pos fun w => { w with arg := arg }

/-- `patchWideArg`. -/
def patchWideArg (m : Words) (pos count arg : Nat) : Except String Words :=
  if count < extendPrefixesFor arg then .error "patchWideArg: operand does not fit"
  else
    let high := (List.range count).foldl
      (fun m i => setArg m (pos + i) (byte (arg >>> (8 * (count - i))))) m
    .ok (setArg high (pos + count) (byte arg))

structure ForwardJump where
  pos : Nat
  target : Nat

/-- The loop of `resolveForwardJumps`, over the jumps from the last to the first;
`moved` is where the words inserted so far have moved a target. -/
def resolveSorted (m : Words) (moved : Nat → Nat) : List ForwardJump → Except String Words
  | [] => .ok m
  | j :: jumps => do
      let offset := moved j.target - (j.pos + 1)
      let count := extendPrefixesFor offset
      let m ← insertExtendPrefixes m j.pos count
      let m ← patchWideArg m j.pos count offset
      resolveSorted m
        (fun target => if j.pos < moved target then moved target + count else moved target)
        jumps

/-- `resolveForwardJumps`. -/
def resolveForwardJumps (m : Words) (jumps : List ForwardJump) : Except String Words :=
  resolveSorted m id (jumps.insertionSort fun a b => b.pos < a.pos)

/-- The operand of a `JUMP_BACK` behind `span` words: it counts its own words too. -/
def backOperand (span : Nat) : Except String Nat :=
  whileTrue (.error "out of fuel")
    (fun back => .ok (back != span + 1 + extendPrefixesFor back))
    (fun back => .ok (span + 1 + extendPrefixesFor back)) 4 (span + 1)

/-- `closeLoop`. -/
def closeLoop (m : Words) (loopStart exitPos : Nat) : Except String Words := do
  let bodyWords := m.length - (exitPos + 1)
  let count := extendPrefixesFor (bodyWords + 3)
  let m ← insertExtendPrefixes m exitPos count
  let back ← backOperand (m.length - loopStart)
  let m ← emitWide m .jumpBack back
  patchWideArg m exitPos count (m.length - (exitPos + count + 1))

mutual

/-- The emission of one piece of nested code. -/
def assemble : Item Instr → Words → Except String Words
  | .op i, m => emitWide m i.op i.arg
  | .skipIf sense body, m => do
      let jump := m.length
      let m ← assembleAll body (emit m (jumpIf sense) 0#8)
      resolveForwardJumps m [⟨jump, m.length⟩]
  | .branch sense fall target, m => do
      let jSkip := m.length
      let m ← assembleAll fall (emit m (jumpIf sense) 0#8)
      let jDone := m.length
      let skipTarget := jDone + 1
      let m ← assembleAll target (emit m .jump 0#8)
      resolveForwardJumps m [⟨jSkip, skipTarget⟩, ⟨jDone, m.length⟩]
  | .loop test sense body, m => do
      let loopStart := m.length
      let m ← assembleAll test m
      let jExit := m.length
      let m ← assembleAll body (emit m (jumpIf sense) 0#8)
      closeLoop m loopStart jExit

/-- The emission of a list of pieces. -/
def assembleAll : List (Item Instr) → Words → Except String Words
  | [], m => .ok m
  | i :: is, m => do assembleAll is (← assemble i m)

end

/-! ## The engine -/

/-- The instruction at the start of the words: its opcode, its operand and how many
words it takes. -/
def fetch : Words → Nat → Option (Opcode × Nat × Nat)
  | [], _ => none
  | w :: ws, high =>
      let arg := (high * 256 + w.arg.toNat) % 2 ^ 32
      if w.op = .extend then (fetch ws arg).map fun r => (r.1, r.2.1, r.2.2 + 1)
      else some (w.op, arg, 1)

/-- The instruction at `pc`. -/
def fetchAt (m : Words) (pc : Nat) : Option (Opcode × Nat × Nat) := fetch (m.drop pc) 0

section Runs

variable {S E O : Type} (sem : Sem Instr S E O)

/-- From `pc` the dispatch loop runs until it is off the words, or until an
instruction leaves them. -/
inductive Runs (m : Words) : Nat → S → List E → Except O S → Prop
  | off {pc : Nat} {s : S} : m.length ≤ pc → Runs m pc s [] (.ok s)
  | op {pc n : Nat} {i : Instr} {s s' : S} {es es' : List E} {r : Except O S} :
      fetchAt m pc = some (i.op, i.arg, n) → sem.exec i s es (.ok s') →
      Runs m (pc + n) s' es' r → Runs m pc s (es ++ es') r
  | leave {pc n : Nat} {i : Instr} {s : S} {es : List E} {o : O} :
      fetchAt m pc = some (i.op, i.arg, n) → sem.exec i s es (.error o) →
      Runs m pc s es (.error o)
  | jump {pc n arg : Nat} {s : S} {es : List E} {r : Except O S} :
      fetchAt m pc = some (.jump, arg, n) → Runs m (pc + n + arg) s es r →
      Runs m pc s es r
  | jumpBack {pc n arg : Nat} {s : S} {es : List E} {r : Except O S} :
      fetchAt m pc = some (.jumpBack, arg, n) → Runs m (pc + n - arg) s es r →
      Runs m pc s es r
  | taken {pc n arg : Nat} {sense : Bool} {s s' : S} {es : List E} {r : Except O S} :
      fetchAt m pc = some (jumpIf sense, arg, n) → sem.test sense s true s' →
      Runs m (pc + n + arg) s' es r → Runs m pc s es r
  | notTaken {pc n arg : Nat} {sense : Bool} {s s' : S} {es : List E}
      {r : Except O S} :
      fetchAt m pc = some (jumpIf sense, arg, n) → sem.test sense s false s' →
      Runs m (pc + n) s' es r → Runs m pc s es r

end Runs

/-! ## What is emitted -/

/-- The prefixes of an operand. -/
def prefixes : Nat → Nat → Words
  | 0, _ => []
  | n + 1, arg => ⟨.extend, byte (arg >>> (8 * (n + 1)))⟩ :: prefixes n arg

/-- An instruction with `n` prefixes. -/
def code (n : Nat) (op : Opcode) (arg : Nat) : Words := prefixes n arg ++ [⟨op, byte arg⟩]

/-- An instruction with the prefixes it needs. -/
def wide (op : Opcode) (arg : Nat) : Words := code (extendPrefixesFor arg) op arg

/-- The words of a list of instructions. -/
abbrev words (cs : List Words) : Words := cs.flatten

abbrev size (cs : List Words) : Nat := (words cs).length

/-- The least operand of a `JUMP_BACK` behind `span` words. -/
def leastBack (span : Nat) : Nat :=
  if span + 1 ≤ 0xFF then span + 1 else if span + 2 ≤ 0xFFFF then span + 2 else span + 3

/-- The words of a loop behind its test and its body, by the words of these. -/
structure LoopJumps where
  exit : Words
  back : Words

def loopJumps (test : Nat) (sense : Bool) (body : Nat) : LoopJumps :=
  let count := extendPrefixesFor (body + 3)
  let back := wide .jumpBack (leastBack (test + (count + 1 + body)))
  ⟨code count (jumpIf sense) (body + back.length), back⟩

mutual

/-- The instructions of one piece of nested code, each with its words. -/
def chunks : Item Instr → List Words
  | .op i => [wide i.op i.arg]
  | .skipIf sense body =>
      let body := chunksAll body
      wide (jumpIf sense) (size body) :: body
  | .branch sense fall target =>
      let fall := chunksAll fall
      let target := chunksAll target
      let done := wide .jump (size target)
      wide (jumpIf sense) (size fall + done.length) :: (fall ++ done :: target)
  | .loop test sense body =>
      let test := chunksAll test
      let body := chunksAll body
      let jumps := loopJumps (size test) sense (size body)
      test ++ jumps.exit :: (body ++ [jumps.back])

/-- The instructions of a list of pieces, each with its words. -/
def chunksAll : List (Item Instr) → List Words
  | [] => []
  | i :: is => chunks i ++ chunksAll is

end

/-! ## What is emitted is emitted -/

@[simp] theorem length_prefixes (n arg : Nat) : (prefixes n arg).length = n := by
  induction n with
  | zero => rfl
  | succ n ih => simp [prefixes, ih]

@[simp] theorem length_code (n : Nat) (op : Opcode) (arg : Nat) :
    (code n op arg).length = n + 1 := by
  simp [code]

theorem extendPrefixesFor_le (arg : Nat) : extendPrefixesFor arg ≤ 2 := by
  unfold extendPrefixesFor
  split <;> [skip; split] <;> omega

theorem extendPrefixesFor_mono {a b : Nat} (h : a ≤ b) :
    extendPrefixesFor a ≤ extendPrefixesFor b := by
  unfold extendPrefixesFor
  split <;> split <;> (try split) <;> (try split) <;> omega

theorem setArg_append (pre : Words) (w : Word) (post : Words) (arg : BitVec 8) :
    setArg (pre ++ w :: post) pre.length arg = pre ++ ⟨w.op, arg⟩ :: post := by
  unfold setArg
  induction pre with
  | nil => rfl
  | cons v pre ih => simpa [List.modify] using ih

variable {op : Opcode} {arg : Nat}

theorem emitWide_ok (h : arg ≤ 0xFFFFFF) (m : Words) :
    emitWide m op arg = .ok (m ++ wide op arg) := by
  have hfits : ¬ 0xFFFFFF < arg := by omega
  unfold emitWide wide extendPrefixesFor
  rw [if_neg hfits]
  by_cases htwo : 0xFFFF < arg
  · simp [htwo, emit, code, prefixes]
  · by_cases hone : 0xFF < arg
    · simp [htwo, hone, emit, code, prefixes]
    · simp [htwo, hone, emit, code, prefixes]

theorem insertExtendPrefixes_ok (pre : Words) (w : Word) (post : Words) (n : Nat) :
    insertExtendPrefixes (pre ++ w :: post) pre.length n
      = .ok (pre ++ (List.replicate n ⟨.extend, 0#8⟩ ++ w :: post)) := by
  unfold insertExtendPrefixes
  by_cases hzero : n = 0
  · simp [hzero]
  · have hlen : ¬ (pre ++ w :: post).length ≤ pre.length := by simp
    rw [if_neg hzero, if_neg hlen]
    simp

theorem patchWideArg_ok {n arg : Nat} (hn : n ≤ 2) (h : extendPrefixesFor arg ≤ n)
    (op : Opcode) (pre post : Words) :
    patchWideArg (pre ++ (List.replicate n ⟨.extend, 0#8⟩ ++ ⟨op, 0#8⟩ :: post)) pre.length
      n arg = .ok (pre ++ (code n op arg ++ post)) := by
  have hset := setArg_append
  unfold patchWideArg
  rw [if_neg (by omega)]
  obtain rfl | rfl | rfl : n = 0 ∨ n = 1 ∨ n = 2 := by omega
  · simpa [code, prefixes] using hset pre ⟨op, 0#8⟩ post (byte arg)
  · have hlast := hset (pre ++ [⟨.extend, byte (arg >>> 8)⟩]) ⟨op, 0#8⟩ post (byte arg)
    simp only [List.length_append, List.length_singleton, List.append_assoc,
      List.cons_append, List.nil_append] at hlast
    simp [List.range_succ, hset, hlast, code, prefixes]
  · have hmid := hset (pre ++ [⟨.extend, byte (arg >>> 16)⟩]) ⟨.extend, 0#8⟩
      (⟨op, 0#8⟩ :: post) (byte (arg >>> 8))
    have hlast := hset (pre ++ [⟨.extend, byte (arg >>> 16)⟩, ⟨.extend, byte (arg >>> 8)⟩])
      ⟨op, 0#8⟩ post (byte arg)
    simp only [List.length_append, List.length_cons, List.length_nil, Nat.zero_add,
      Nat.reduceAdd, List.append_assoc, List.cons_append, List.nil_append] at hmid hlast
    simp [List.range_succ, List.replicate_succ, hset, hmid, hlast, code, prefixes]

/-- One forward jump is resolved. -/
theorem resolveSorted_cons (pre : Words) (op : Opcode) (post : Words) {offset target : Nat}
    {moved : Nat → Nat} (htarget : moved target = pre.length + 1 + offset)
    (jumps : List ForwardJump) :
    resolveSorted (pre ++ ⟨op, 0#8⟩ :: post) moved (⟨pre.length, target⟩ :: jumps)
      = resolveSorted (pre ++ (wide op offset ++ post))
        (fun t => if pre.length < moved t then moved t + extendPrefixesFor offset
          else moved t) jumps := by
  have hpatch := patchWideArg_ok (extendPrefixesFor_le offset) (Nat.le_refl _) op pre post
  rw [resolveSorted]
  simp only [htarget, Nat.add_sub_cancel_left, insertExtendPrefixes_ok]
  show (patchWideArg _ _ _ _ >>= _) = _
  rw [hpatch]
  rfl

theorem resolveForwardJumps_one (m : Words) (op : Opcode) (body : Words) :
    resolveForwardJumps (m ++ ⟨op, 0#8⟩ :: body)
      [⟨m.length, (m ++ ⟨op, 0#8⟩ :: body).length⟩]
      = .ok (m ++ (wide op body.length ++ body)) := by
  have htarget : (m ++ (⟨op, 0#8⟩ : Word) :: body).length = m.length + 1 + body.length := by
    simp only [List.length_append, List.length_cons]
    omega
  rw [htarget]
  show resolveSorted _ id [_] = _
  rw [resolveSorted_cons m op body (id_eq _), resolveSorted]

/-- The two forward jumps of an if-else: widening the second one moves the target of
the first. -/
theorem resolveForwardJumps_two (m : Words) (op : Opcode) (fall target : Words) :
    resolveForwardJumps (emit (emit m op 0#8 ++ fall) .jump 0#8 ++ target)
      [⟨m.length, (emit m op 0#8 ++ fall).length + 1⟩,
        ⟨(emit m op 0#8 ++ fall).length,
          (emit (emit m op 0#8 ++ fall) .jump 0#8 ++ target).length⟩]
      = .ok (m ++ (wide op (fall.length + (wide .jump target.length).length)
          ++ (fall ++ (wide .jump target.length ++ target)))) := by
  have hskip : (emit m op 0#8 ++ fall).length = m.length + 1 + fall.length := by
    simp only [emit, List.length_append, List.length_singleton]
  have hdone : (emit (emit m op 0#8 ++ fall) .jump 0#8 ++ target).length
      = m.length + 1 + fall.length + 1 + target.length := by
    simp only [emit, List.length_append, List.length_singleton]
  have hsplit : emit (emit m op 0#8 ++ fall) .jump 0#8 ++ target
      = (m ++ ⟨op, 0#8⟩ :: fall) ++ ⟨.jump, 0#8⟩ :: target := by
    simp [emit]
  have hlen : m.length + 1 + fall.length = (m ++ (⟨op, 0#8⟩ : Word) :: fall).length := by
    simp only [List.length_append, List.length_cons]
    omega
  have horder : [(⟨m.length, m.length + 1 + fall.length + 1⟩ : ForwardJump),
      ⟨m.length + 1 + fall.length, m.length + 1 + fall.length + 1 + target.length⟩].insertionSort
        (fun a b => b.pos < a.pos)
      = [⟨m.length + 1 + fall.length, m.length + 1 + fall.length + 1 + target.length⟩,
        ⟨m.length, m.length + 1 + fall.length + 1⟩] := by
    have hlt : ¬ m.length + 1 + fall.length < m.length := by omega
    simp [hlt]
  have hmoved : m.length + 1 + fall.length < m.length + 1 + fall.length + 1 := by omega
  have hsum : m.length + 1 + fall.length + 1 + extendPrefixesFor target.length
      = m.length + 1 + (fall.length + (wide .jump target.length).length) := by
    simp only [wide, length_code]
    omega
  unfold resolveForwardJumps
  rw [hskip, hdone, hsplit, horder, hlen, resolveSorted_cons _ _ _ (id_eq _), ← hlen,
    List.append_assoc, List.cons_append, resolveSorted_cons m op _ ?_, resolveSorted]
  simp only [id, if_pos hmoved]
  exact hsum

/-- The loop of `closeLoop` finds an operand that counts its own words. -/
theorem backOperand_ok (span : Nat) : backOperand span = .ok (leastBack span) := by
  have hzero : ∀ arg, arg ≤ 0xFF → extendPrefixesFor arg = 0 := fun arg h => by
    rw [extendPrefixesFor, if_neg (by omega), if_neg (by omega)]
  have hone : ∀ arg, 0xFF < arg → arg ≤ 0xFFFF → extendPrefixesFor arg = 1 :=
    fun arg hlow hhigh => by
      rw [extendPrefixesFor, if_neg (by omega), if_pos hlow]
  have htwo : ∀ arg, 0xFFFF < arg → extendPrefixesFor arg = 2 := fun arg h => by
    rw [extendPrefixesFor, if_pos h]
  unfold backOperand leastBack
  by_cases hsmall : span + 1 ≤ 0xFF
  · simp [whileTrue, bind, Except.bind, pure, Except.pure, hzero _ hsmall, hsmall]
  · by_cases hmiddle : span + 2 ≤ 0xFFFF
    · have hfirst := hone (span + 1) (by omega) (by omega)
      have hsecond := hone (span + 1 + 1) (by omega) (by omega)
      simp [whileTrue, bind, Except.bind, pure, Except.pure, hfirst, hsecond, hsmall,
        hmiddle]
    · have hlast := htwo (span + 1 + 2) (by omega)
      by_cases hedge : span + 1 ≤ 0xFFFF
      · have hfirst := hone (span + 1) (by omega) hedge
        have hsecond := htwo (span + 1 + 1) (by omega)
        simp [whileTrue, bind, Except.bind, pure, Except.pure, hfirst, hsecond, hlast,
          hsmall, hmiddle]
      · have hfirst := htwo (span + 1) (by omega)
        simp [whileTrue, bind, Except.bind, pure, Except.pure, hfirst, hlast, hsmall,
          hmiddle]

theorem leastBack_eq (span : Nat) :
    leastBack span = span + (wide .jumpBack (leastBack span)).length := by
  simp only [wide, length_code, leastBack, extendPrefixesFor]
  split <;> [skip; split] <;> split <;> (try split) <;> omega

/-- `r` adds the words `w` to `m`, unless an operand has more than 24 bits. -/
def Emits (r : Except String Words) (m w : Words) : Prop :=
  r = .ok (m ++ w) ∨ (∃ text, r = .error text) ∧ 0xFFFFFF < w.length

theorem Emits.after {r : Except String Words} {m a b : Words} (h : Emits r (m ++ a) b) :
    Emits r m (a ++ b) := by
  rcases h with hok | ⟨herror, hlong⟩
  · exact .inl (by rw [← List.append_assoc]; exact hok)
  · exact .inr ⟨herror, by rw [List.length_append]; omega⟩

/-- Part of the words is there first. -/
theorem Emits.andThen {r : Except String Words} {m m' a w : Words}
    {f : Words → Except String Words} (ha : Emits r m' a) (hf : Emits (f (m' ++ a)) m w)
    (hle : a.length ≤ w.length) : Emits (r >>= f) m w := by
  rcases ha with rfl | ⟨⟨text, rfl⟩, hlong⟩
  · exact hf
  · exact .inr ⟨⟨text, rfl⟩, by omega⟩

/-- A loop is closed, or its `JUMP_BACK` has more than 24 bits to go. -/
theorem closeLoop_spec (m test body : Words) (sense : Bool) :
    Emits (closeLoop (m ++ (test ++ ⟨jumpIf sense, 0#8⟩ :: body)) m.length
        (m.length + test.length)) m
      (test ++ ((loopJumps test.length sense body.length).exit
          ++ (body ++ (loopJumps test.length sense body.length).back))) := by
  have hback : (loopJumps test.length sense body.length).back = wide .jumpBack
      (leastBack (test.length + (extendPrefixesFor (body.length + 3) + 1 + body.length))) :=
    rfl
  have hexit : (loopJumps test.length sense body.length).exit = code
      (extendPrefixesFor (body.length + 3)) (jumpIf sense)
      (body.length + (loopJumps test.length sense body.length).back.length) := rfl
  rw [hexit, hback]
  generalize hcount : extendPrefixesFor (body.length + 3) = count
  generalize hspan : test.length + (count + 1 + body.length) = span
  generalize hjump : wide .jumpBack (leastBack span) = jump
  have hpos : m.length + test.length = (m ++ test).length :=
    (List.length_append).symm
  have hsplit : m ++ (test ++ (⟨jumpIf sense, 0#8⟩ : Word) :: body)
      = (m ++ test) ++ ⟨jumpIf sense, 0#8⟩ :: body := by
    simp
  have hbody : ((m ++ test) ++ (⟨jumpIf sense, 0#8⟩ : Word) :: body).length
      - ((m ++ test).length + 1) = body.length := by
    simp only [List.length_append, List.length_cons]
    omega
  have hlong : ((m ++ test) ++ (List.replicate count (⟨.extend, 0#8⟩ : Word)
      ++ ⟨jumpIf sense, 0#8⟩ :: body)).length - m.length = span := by
    simp only [List.length_append, List.length_cons, List.length_replicate]
    omega
  unfold closeLoop
  rw [hsplit, hpos, hbody]
  simp only [hcount, insertExtendPrefixes_ok, bind, Except.bind, hlong, backOperand_ok]
  by_cases hwide : leastBack span ≤ 0xFFFFFF
  · have hlen : jump.length ≤ 3 := by
      rw [← hjump, wide, length_code]
      exact Nat.add_le_add_right (extendPrefixesFor_le _) 1
    have hfits : extendPrefixesFor (body.length + jump.length) ≤ count := by
      rw [← hcount]
      exact extendPrefixesFor_mono (by omega)
    have harg : ((m ++ test) ++ (List.replicate count (⟨.extend, 0#8⟩ : Word)
        ++ ⟨jumpIf sense, 0#8⟩ :: body) ++ jump).length
        - ((m ++ test).length + count + 1) = body.length + jump.length := by
      simp only [List.length_append, List.length_cons, List.length_replicate]
      omega
    have hjoin : (m ++ test) ++ (List.replicate count (⟨.extend, 0#8⟩ : Word)
        ++ ⟨jumpIf sense, 0#8⟩ :: body) ++ jump
        = (m ++ test) ++ (List.replicate count ⟨.extend, 0#8⟩
          ++ ⟨jumpIf sense, 0#8⟩ :: (body ++ jump)) := by
      simp
    have hpatch := patchWideArg_ok (hcount ▸ extendPrefixesFor_le _) hfits (jumpIf sense)
      (m ++ test) (body ++ jump)
    left
    rw [emitWide_ok hwide]
    simp only [hjump, harg]
    rw [hjoin, hpatch]
    simp
  · right
    have heq := leastBack_eq span
    rw [hjump] at heq
    refine ⟨⟨_, by rw [emitWide, if_pos (by omega)]⟩, ?_⟩
    simp only [List.length_append, length_code]
    omega

mutual

theorem assemble_spec : ∀ (i : Item Instr) (m : Words),
    Emits (assemble i m) m (words (chunks i))
  | .op i, m => by
      left
      rw [assemble, emitWide_ok i.fits]
      simp [chunks]
  | .skipIf sense body, m => by
      have hbody := assembleAll_spec body (emit m (jumpIf sense) 0#8)
      refine hbody.andThen (.inl ?_) ?_
      · rw [emit, List.append_assoc]
        exact resolveForwardJumps_one m (jumpIf sense) (words (chunksAll body))
      · simp only [chunks, words, List.flatten_cons, List.length_append]
        omega
  | .branch sense fall target, m => by
      have hfall := assembleAll_spec fall (emit m (jumpIf sense) 0#8)
      refine hfall.andThen ?_ ?_
      · have htarget := assembleAll_spec target
          (emit (emit m (jumpIf sense) 0#8 ++ words (chunksAll fall)) .jump 0#8)
        refine htarget.andThen (.inl ?_) ?_
        · simp only [chunks, words, List.flatten_cons, List.flatten_append]
          exact resolveForwardJumps_two m (jumpIf sense) (words (chunksAll fall))
            (words (chunksAll target))
        · simp only [chunks, words, List.flatten_cons, List.flatten_append,
            List.length_append]
          omega
      · simp only [chunks, words, List.flatten_cons, List.flatten_append,
          List.length_append]
        omega
  | .loop test sense body, m => by
      have htest := assembleAll_spec test m
      refine htest.andThen ?_ ?_
      · have hbody := assembleAll_spec body
          (emit (m ++ words (chunksAll test)) (jumpIf sense) 0#8)
        refine hbody.andThen ?_ ?_
        · have hclose := closeLoop_spec m (words (chunksAll test)) (words (chunksAll body))
            sense
          simp only [emit, chunks, words, List.flatten_cons, List.flatten_append,
            List.flatten_nil, List.append_nil, List.append_assoc, List.singleton_append,
            List.length_append] at hclose ⊢
          exact hclose
        · simp only [chunks, words, List.flatten_cons, List.flatten_append,
            List.length_append]
          omega
      · simp only [chunks, words, List.flatten_append, List.length_append]
        omega

/-- **What is emitted**, unless a `JUMP_BACK` has more than 24 bits to go. -/
theorem assembleAll_spec : ∀ (items : List (Item Instr)) (m : Words),
    Emits (assembleAll items m) m (words (chunksAll items))
  | [], m => by
      left
      simp [assembleAll, chunksAll]
  | i :: is, m => by
      rw [assembleAll, chunksAll, words, List.flatten_append]
      exact (assemble_spec i m).andThen (assembleAll_spec is _).after
        (by rw [List.length_append]; exact Nat.le_add_right ..)

end

/-! ## The words spell the flat code -/

/-- The words are an instruction with as many prefixes as it needs, or more. -/
def Coded (op : Opcode) (arg : Nat) (c : Words) : Prop :=
  ∃ n, extendPrefixesFor arg ≤ n ∧ n ≤ 2 ∧ c = code n op arg

theorem coded_wide (op : Opcode) (arg : Nat) : Coded op arg (wide op arg) :=
  ⟨_, Nat.le_refl _, extendPrefixesFor_le arg, rfl⟩

variable {c : Words}

theorem Coded.length_pos (h : Coded op arg c) :
    0 < c.length := by
  obtain ⟨n, -, -, rfl⟩ := h
  rw [length_code]
  exact Nat.succ_pos n

/-- Where the instruction with the number `k` starts. -/
def start (cs : List Words) (k : Nat) : Nat := size (cs.take k)

theorem start_append (a b : List Words) : start (a ++ b) a.length = size a := by
  rw [start, List.take_left]

theorem start_length (cs : List Words) : start cs cs.length = size cs := by
  rw [start, List.take_length]

variable {k : Nat} {cs : List Words}

theorem start_succ (h : cs[k]? = some c) :
    start cs (k + 1) = start cs k + c.length := by
  rw [start, List.take_add_one, h]
  simp [start]

theorem drop_start (cs : List Words) (k : Nat) :
    (words cs).drop (start cs k) = words (cs.drop k) := by
  have hsplit : words cs = words (cs.take k) ++ words (cs.drop k) := by
    rw [words, words, words, ← List.flatten_append, List.take_append_drop]
  rw [hsplit]
  exact List.drop_left

/-- The words of one instruction: a jump goes to the start of its target. -/
def Entry (cs : List Words) (k : Nat) : Flat Instr → Words → Prop
  | .op i, c => Coded i.op i.arg c
  | .jump offset, c => k + 1 + offset ≤ cs.length ∧
      Coded .jump (start cs (k + 1 + offset) - start cs (k + 1)) c
  | .jumpIf sense offset, c => k + 1 + offset ≤ cs.length ∧
      Coded (jumpIf sense) (start cs (k + 1 + offset) - start cs (k + 1)) c
  | .jumpBack offset, c => offset ≤ k + 1 ∧
      Coded .jumpBack (start cs (k + 1) - start cs (k + 1 - offset)) c

variable {f : Flat Instr}

theorem Entry.length_pos
    (h : Entry cs k f c) : 0 < c.length := by
  cases f with
  | op i => exact Coded.length_pos h
  | jump offset => exact h.2.length_pos
  | jumpIf sense offset => exact h.2.length_pos
  | jumpBack offset => exact h.2.length_pos

/-- From the `k`-th instruction the words spell the flat code. -/
inductive Spells (cs : List Words) : Nat → List (Flat Instr) → List Words → Prop
  | nil {k : Nat} : Spells cs k [] []
  | cons {k : Nat} {f : Flat Instr} {c : Words} {fs : List (Flat Instr)}
      {cs' : List Words} :
      Entry cs k f c → Spells cs (k + 1) fs cs' → Spells cs k (f :: fs) (c :: cs')

theorem Spells.append {a b : List (Flat Instr)}
    {ca cb : List Words} (ha : Spells cs k a ca) (hb : Spells cs (k + a.length) b cb) :
    Spells cs k (a ++ b) (ca ++ cb) := by
  induction ha with
  | nil => simpa using hb
  | cons hentry _ ih =>
    refine .cons hentry (ih ?_)
    rw [List.length_cons] at hb
    rwa [Nat.add_assoc, Nat.add_comm 1]

theorem Spells.entry {fs : List (Flat Instr)}
    {cs' : List Words} (h : Spells cs k fs cs') {j : Nat}
    (hf : fs[j]? = some f) : ∃ c, cs'[j]? = some c ∧ Entry cs (k + j) f c := by
  induction h generalizing j with
  | nil => simp at hf
  | @cons k g c fs cs' hentry _ ih =>
    cases j with
    | zero =>
      obtain rfl := Option.some.inj hf
      exact ⟨c, rfl, hentry⟩
    | succ j =>
      obtain ⟨c', hc, hentry'⟩ := ih hf
      exact ⟨c', hc, by rwa [Nat.add_assoc, Nat.add_comm 1] at hentry'⟩

/-- How far it is from behind the words `c` to behind `mid`. -/
theorem start_forward (pre : List Words) (c : Words) (mid post : List Words) :
    start (pre ++ c :: (mid ++ post)) (pre.length + 1 + mid.length)
      - start (pre ++ c :: (mid ++ post)) (pre.length + 1) = size mid := by
  have hfrom : start (pre ++ c :: (mid ++ post)) (pre.length + 1) = size (pre ++ [c]) := by
    rw [← start_append (pre ++ [c]) (mid ++ post)]
    simp
  have hto : start (pre ++ c :: (mid ++ post)) (pre.length + 1 + mid.length)
      = size (pre ++ c :: mid) := by
    rw [← start_append (pre ++ c :: mid) post]
    simp [Nat.add_assoc, Nat.add_comm 1]
  rw [hfrom, hto]
  simp only [size, words, List.flatten_append, List.flatten_cons, List.flatten_nil,
    List.length_append, List.length_nil]
  omega

/-- How far it is back from behind the words `c` to the start of `mid`. -/
theorem start_back (pre mid : List Words) (c : Words) (post : List Words) :
    start (pre ++ (mid ++ c :: post)) (pre.length + mid.length + 1)
      - start (pre ++ (mid ++ c :: post)) pre.length = size mid + c.length := by
  have hto : start (pre ++ (mid ++ c :: post)) (pre.length + mid.length + 1)
      = size (pre ++ (mid ++ [c])) := by
    rw [← start_append (pre ++ (mid ++ [c])) post]
    simp [Nat.add_assoc]
  rw [hto, start_append]
  simp only [size, words, List.flatten_append, List.flatten_cons, List.flatten_nil,
    List.length_append, List.length_nil]
  omega

mutual

theorem length_chunks : ∀ i : Item Instr, (chunks i).length = i.flatten.length
  | .op i => rfl
  | .skipIf sense body => by
      simp only [chunks, Item.flatten, List.length_cons, length_chunksAll body]
  | .branch sense fall target => by
      simp only [chunks, Item.flatten, List.length_cons, List.length_append,
        length_chunksAll fall, length_chunksAll target]
  | .loop test sense body => by
      simp only [chunks, Item.flatten, List.length_cons, List.length_append,
        List.length_nil, length_chunksAll test, length_chunksAll body]

theorem length_chunksAll : ∀ items : List (Item Instr),
    (chunksAll items).length = (flatten items).length
  | [] => rfl
  | i :: is => by
      rw [chunksAll, flatten_cons, List.length_append, List.length_append, length_chunks i,
        length_chunksAll is]

end

variable {mid : List Words}

theorem entry_jump (h : Coded .jump (size mid) c)
    (pre post : List Words) :
    Entry (pre ++ c :: (mid ++ post)) pre.length (.jump mid.length) c := by
  refine ⟨?_, ?_⟩
  · simp only [List.length_append, List.length_cons]
    omega
  · rwa [start_forward]

theorem entry_jumpIf {sense : Bool}
    (h : Coded (jumpIf sense) (size mid) c) (pre post : List Words) :
    Entry (pre ++ c :: (mid ++ post)) pre.length (.jumpIf sense mid.length) c := by
  refine ⟨?_, ?_⟩
  · simp only [List.length_append, List.length_cons]
    omega
  · rwa [start_forward]

theorem entry_jumpBack (h : Coded .jumpBack (size mid + c.length) c) (pre post : List Words) :
    Entry (pre ++ (mid ++ c :: post)) (pre.length + mid.length)
      (.jumpBack (mid.length + 1)) c := by
  have hstart : pre.length + mid.length + 1 - (mid.length + 1) = pre.length := by omega
  refine ⟨by omega, ?_⟩
  rwa [hstart, start_back]

/-- The exit jump of a loop is as wide as it needs to be, or wider. -/
theorem coded_exit (test : Nat) (sense : Bool) (body : Nat) :
    Coded (jumpIf sense) (body + (loopJumps test sense body).back.length)
      (loopJumps test sense body).exit := by
  refine ⟨extendPrefixesFor (body + 3), extendPrefixesFor_mono ?_,
    extendPrefixesFor_le _, rfl⟩
  have hback : (loopJumps test sense body).back.length ≤ 3 := by
    simp only [loopJumps, wide, length_code]
    exact Nat.add_le_add_right (extendPrefixesFor_le _) 1
  omega

/-- The `JUMP_BACK` of a loop goes back over its own words. -/
theorem coded_back (test : Nat) (sense : Bool) (body : Nat) :
    Coded .jumpBack (test + ((loopJumps test sense body).exit.length + body)
        + (loopJumps test sense body).back.length)
      (loopJumps test sense body).back := by
  have hexit : (loopJumps test sense body).exit.length
      = extendPrefixesFor (body + 3) + 1 := length_code ..
  have hleast := leastBack_eq (test + (extendPrefixesFor (body + 3) + 1 + body))
  rw [hexit]
  show Coded .jumpBack (_ + (wide .jumpBack (leastBack
    (test + (extendPrefixesFor (body + 3) + 1 + body)))).length) _
  rw [← hleast]
  exact coded_wide _ _

mutual

theorem spells_chunks : ∀ (i : Item Instr) (pre post : List Words),
    Spells (pre ++ (chunks i ++ post)) pre.length i.flatten (chunks i)
  | .op i, pre, post => .cons (coded_wide i.op i.arg) .nil
  | .skipIf sense body, pre, post => by
      have hjump := entry_jumpIf (coded_wide (jumpIf sense) (size (chunksAll body))) pre post
      have hbody := spells_chunksAll body
        (pre ++ [wide (jumpIf sense) (size (chunksAll body))]) post
      rw [length_chunksAll] at hjump
      simp only [List.append_assoc, List.singleton_append, List.length_append,
        List.length_singleton] at hbody
      exact .cons hjump hbody
  | .branch sense fall target, pre, post => by
      generalize hdone : wide .jump (size (chunksAll target)) = done
      generalize hskip : wide (jumpIf sense) (size (chunksAll fall) + done.length) = skip
      have hskipCoded : Coded (jumpIf sense) (size (chunksAll fall ++ [done])) skip := by
        rw [← hskip]
        simpa [size] using coded_wide (jumpIf sense) (size (chunksAll fall) + done.length)
      have hdoneCoded : Coded .jump (size (chunksAll target)) done := by
        rw [← hdone]
        exact coded_wide _ _
      have hjumpIf := entry_jumpIf hskipCoded pre (chunksAll target ++ post)
      have hjump := entry_jump hdoneCoded (pre ++ skip :: chunksAll fall) post
      have hfall := spells_chunksAll fall (pre ++ [skip])
        (done :: (chunksAll target ++ post))
      have htarget := spells_chunksAll target (pre ++ skip :: (chunksAll fall ++ [done])) post
      simp only [chunks, Item.flatten, hdone, hskip]
      simp only [List.append_assoc, List.cons_append, List.nil_append, List.length_append,
        List.length_cons, List.length_nil, length_chunksAll] at hjumpIf hjump hfall htarget ⊢
      refine .cons hjumpIf (hfall.append (.cons ?_ ?_))
      · convert hjump using 1
        omega
      · convert htarget using 1
        omega
  | .loop test sense body, pre, post => by
      have hexit := coded_exit (size (chunksAll test)) sense (size (chunksAll body))
      have hback := coded_back (size (chunksAll test)) sense (size (chunksAll body))
      generalize hjumps : loopJumps (size (chunksAll test)) sense (size (chunksAll body))
        = jumps at hexit hback
      have hexitCoded : Coded (jumpIf sense) (size (chunksAll body ++ [jumps.back]))
          jumps.exit := by
        simpa [size] using hexit
      have hbackCoded : Coded .jumpBack
          (size (chunksAll test ++ jumps.exit :: chunksAll body) + jumps.back.length)
          jumps.back := by
        simpa [size] using hback
      have hjumpIf := entry_jumpIf hexitCoded (pre ++ chunksAll test) post
      have hjumpBack := entry_jumpBack hbackCoded pre post
      have htest := spells_chunksAll test pre
        (jumps.exit :: (chunksAll body ++ jumps.back :: post))
      have hbody := spells_chunksAll body (pre ++ (chunksAll test ++ [jumps.exit]))
        (jumps.back :: post)
      simp only [chunks, Item.flatten, hjumps]
      simp only [List.append_assoc, List.cons_append, List.nil_append, List.length_append,
        List.length_cons, List.length_nil, length_chunksAll]
        at hjumpIf hjumpBack htest hbody ⊢
      refine htest.append (.cons hjumpIf (hbody.append (.cons ?_ .nil)))
      convert hjumpBack using 1
      · omega
      · congr 1

theorem spells_chunksAll : ∀ (items : List (Item Instr)) (pre post : List Words),
    Spells (pre ++ (chunksAll items ++ post)) pre.length (flatten items) (chunksAll items)
  | [], pre, post => .nil
  | i :: is, pre, post => by
      have hhead := spells_chunks i pre (chunksAll is ++ post)
      have htail := spells_chunksAll is (pre ++ chunks i) post
      rw [List.length_append, length_chunks i] at htail
      simp only [List.append_assoc] at htail
      rw [chunksAll, flatten_cons, List.append_assoc]
      exact hhead.append htail

end

/-- The words of a module spell its flat code. -/
theorem spells_words (items : List (Item Instr)) :
    Spells (chunksAll items) 0 (flatten items) (chunksAll items) := by
  simpa using spells_chunksAll items [] []

/-! ## The engine reads what is emitted -/

/-- A byte behind the higher ones. -/
theorem shift_byte (n arg : Nat) :
    (arg >>> (8 * (n + 1))) * 256 + (byte (arg >>> (8 * n))).toNat = arg >>> (8 * n) := by
  have hshift : arg >>> (8 * (n + 1)) = (arg >>> (8 * n)) / 256 := by
    rw [Nat.mul_succ, Nat.shiftRight_add, Nat.shiftRight_eq_div_pow _ 8]
  rw [hshift, byte, BitVec.toNat_ofNat]
  exact Nat.div_add_mod' _ 256

/-- The higher bytes of an operand fit into a register. -/
theorem shift_mod (hfits : arg ≤ 0xFFFFFF) (k : Nat) :
    (arg >>> k) % 2 ^ 32 = arg >>> k := by
  have hle : arg >>> k ≤ arg := Nat.shiftRight_le arg k
  exact Nat.mod_eq_of_lt (by omega)

/-- Reading an instruction whose higher bytes are read. -/
theorem fetch_prefixes (hop : op ≠ .extend)
    (hfits : arg ≤ 0xFFFFFF) (rest : Words) (n : Nat) :
    fetch (code n op arg ++ rest) (arg >>> (8 * (n + 1))) = some (op, arg, n + 1) := by
  have hsmall := shift_mod hfits
  induction n with
  | zero =>
    have hbyte := shift_byte 0 arg
    simp only [Nat.mul_zero, Nat.shiftRight_zero, Nat.zero_add] at hbyte
    simp only [code, prefixes, List.nil_append, List.singleton_append, fetch, hop,
      if_false, Nat.zero_add, hbyte]
    rw [Nat.mod_eq_of_lt (by omega)]
  | succ n ih =>
    have hread : fetch (code (n + 1) op arg ++ rest) (arg >>> (8 * (n + 1 + 1)))
        = (fetch (code n op arg ++ rest) (arg >>> (8 * (n + 1)))).map
            fun r => (r.1, r.2.1, r.2.2 + 1) := by
      simp only [code, prefixes, List.cons_append, fetch, if_true, shift_byte, hsmall]
    rw [hread, ih]
    rfl

/-- Nothing of an operand is left behind its prefixes. -/
theorem shift_eq_zero {n arg : Nat} (hneeds : extendPrefixesFor arg ≤ n) (hn : n ≤ 2)
    (hfits : arg ≤ 0xFFFFFF) : arg >>> (8 * (n + 1)) = 0 := by
  rw [Nat.shiftRight_eq_div_pow]
  apply Nat.div_eq_of_lt
  unfold extendPrefixesFor at hneeds
  obtain rfl | rfl | rfl : n = 0 ∨ n = 1 ∨ n = 2 := by omega
  all_goals split at hneeds <;> (try split at hneeds) <;> omega

theorem Coded.fetch (h : Coded op arg c)
    (hop : op ≠ .extend) (hfits : arg ≤ 0xFFFFFF) (rest : Words) :
    fetch (c ++ rest) 0 = some (op, arg, c.length) := by
  obtain ⟨n, hneeds, hn, rfl⟩ := h
  have hread := fetch_prefixes hop hfits rest n
  rw [shift_eq_zero hneeds hn hfits] at hread
  rwa [length_code]

theorem start_le (cs : List Words) (k : Nat) : start cs k ≤ size cs := by
  have hsplit : words cs = words (cs.take k) ++ words (cs.drop k) := by
    rw [words, words, words, ← List.flatten_append, List.take_append_drop]
  rw [size, hsplit, List.length_append]
  exact Nat.le_add_right ..

theorem start_mono (cs : List Words) {a b : Nat} (h : a ≤ b) : start cs a ≤ start cs b := by
  have hle := start_le (cs.take b) a
  rwa [start, List.take_take, Nat.min_eq_left h] at hle

/-- From behind a jump to its target. -/
theorem start_add (cs : List Words) (k offset : Nat) :
    start cs (k + 1) + (start cs (k + 1 + offset) - start cs (k + 1))
      = start cs (k + 1 + offset) :=
  Nat.add_sub_cancel' (start_mono cs (Nat.le_add_right ..))

theorem start_sub (cs : List Words) (k offset : Nat) :
    start cs (k + 1) - (start cs (k + 1) - start cs (k + 1 - offset))
      = start cs (k + 1 - offset) :=
  Nat.sub_sub_self (start_mono cs (Nat.sub_le ..))

/-- What the engine reads at the start of an instruction. -/
def reads (cs : List Words) (k : Nat) : Flat Instr → Opcode × Nat
  | .op i => (i.op, i.arg)
  | .jump offset => (.jump, start cs (k + 1 + offset) - start cs (k + 1))
  | .jumpIf sense offset => (jumpIf sense, start cs (k + 1 + offset) - start cs (k + 1))
  | .jumpBack offset => (.jumpBack, start cs (k + 1) - start cs (k + 1 - offset))

theorem jumpIf_ne_extend (sense : Bool) : jumpIf sense ≠ .extend := by
  cases sense <;> decide

theorem Instr.ne_extend (i : Instr) : i.op ≠ .extend := fun h => by
  have hplain := i.plain
  rw [h] at hplain
  cases hplain

theorem Entry.coded
    (h : Entry cs k f c) : Coded (reads cs k f).1 (reads cs k f).2 c ∧
      (reads cs k f).1 ≠ .extend ∧ (reads cs k f).2 ≤ max 0xFFFFFF (size cs) := by
  have hle := start_le cs
  cases f with
  | op i => exact ⟨h, i.ne_extend, Nat.le_trans i.fits (Nat.le_max_left ..)⟩
  | jump offset =>
    refine ⟨h.2, nofun, ?_⟩
    have hto := hle (k + 1 + offset)
    simp only [reads]
    omega
  | jumpIf sense offset =>
    refine ⟨h.2, jumpIf_ne_extend sense, ?_⟩
    have hto := hle (k + 1 + offset)
    simp only [reads]
    omega
  | jumpBack offset =>
    refine ⟨h.2, nofun, ?_⟩
    have hto := hle (k + 1)
    simp only [reads]
    omega

theorem Entry.fetchAt
    (h : Entry cs k f c) (hc : cs[k]? = some c) (hsize : size cs ≤ 0xFFFFFF) :
    fetchAt (words cs) (start cs k)
      = some ((reads cs k f).1, (reads cs k f).2, c.length) := by
  obtain ⟨hcoded, hop, hfits⟩ := h.coded
  obtain ⟨hk, rfl⟩ := List.getElem?_eq_some_iff.mp hc
  rw [Assembler.fetchAt, drop_start, List.drop_eq_getElem_cons hk, words, List.flatten_cons]
  exact hcoded.fetch hop (by omega) _

/-! ## The words run as the nested code -/

section Machine

variable {S E O : Type} {sem : Sem Instr S E O} {cs : List Words}
  {fs : List (Flat Instr)}

variable {f : Flat Instr} {k : Nat}

/-- The instruction with the number `k`, in the words. -/
theorem Spells.at (hspells : Spells cs 0 fs cs) (hsize : size cs ≤ 0xFFFFFF)
    (hf : fs[k]? = some f) :
    ∃ n, fetchAt (words cs) (start cs k) = some ((reads cs k f).1, (reads cs k f).2, n) ∧
      start cs (k + 1) = start cs k + n ∧ 0 < n ∧ ∃ c, Entry cs k f c := by
  obtain ⟨c, hc, hentry⟩ := hspells.entry hf
  rw [Nat.zero_add] at hentry
  exact ⟨c.length, hentry.fetchAt hc hsize, start_succ hc, hentry.length_pos, c, hentry⟩

variable {r : Except O S}

/-- A run of the flat code is a run of the words. -/
theorem runs_of_completes (hspells : Spells cs 0 fs cs) (hlen : cs.length = fs.length)
    (hsize : size cs ≤ 0xFFFFFF) {n k : Nat} {s : S} {es : List E}
    (hk : k ≤ fs.length) (h : Completes sem fs n k s es r) :
    Runs sem (words cs) (start cs k) s es r := by
  induction h with
  | off hoff =>
    obtain rfl := Nat.le_antisymm hk hoff
    refine .off ?_
    rw [← hlen, start_length]
  | op hf hexec _ ih =>
    obtain ⟨n, hfetch, hnext, -⟩ := hspells.at hsize hf
    have hlt := (List.getElem?_eq_some_iff.mp hf).1
    exact .op hfetch hexec (hnext ▸ ih hlt)
  | leave hf hexec =>
    obtain ⟨n, hfetch, -⟩ := hspells.at hsize hf
    exact .leave hfetch hexec
  | @jump n k offset s es r hf _ ih =>
    obtain ⟨n, hfetch, hnext, -, c, hto, -⟩ := hspells.at hsize hf
    refine .jump hfetch ?_
    rw [← hnext, reads, start_add]
    exact ih (hlen ▸ hto)
  | @jumpBack n k offset s es r hf _ ih =>
    obtain ⟨n, hfetch, hnext, -⟩ := hspells.at hsize hf
    have hlt := (List.getElem?_eq_some_iff.mp hf).1
    refine .jumpBack hfetch ?_
    rw [← hnext, reads, start_sub]
    exact ih (by omega)
  | @taken n k offset sense s s' es r hf htest _ ih =>
    obtain ⟨n, hfetch, hnext, -, c, hto, -⟩ := hspells.at hsize hf
    refine .taken hfetch htest ?_
    rw [← hnext, reads, start_add]
    exact ih (hlen ▸ hto)
  | notTaken hf htest _ ih =>
    obtain ⟨n, hfetch, hnext, -⟩ := hspells.at hsize hf
    have hlt := (List.getElem?_eq_some_iff.mp hf).1
    exact .notTaken hfetch htest (hnext ▸ ih hlt)

/-- What is read tells what instruction it is. -/
theorem reads_op {i : Instr} (hop : i.op = (reads cs k f).1)
    (harg : i.arg = (reads cs k f).2) : f = .op i := by
  have hplain := i.plain
  cases f with
  | op j =>
    cases i
    cases j
    cases hop
    cases harg
    rfl
  | jump offset | jumpBack offset =>
    rw [hop] at hplain
    cases hplain
  | jumpIf sense offset =>
    rw [hop] at hplain
    cases sense <;> cases hplain

/-- A jump is not read as a straight-line instruction. -/
theorem reads_ne_plain {op : Opcode} (hop : op.plain = false) (k : Nat) (i : Instr) :
    op ≠ (reads cs k (.op i)).1 := fun h => by
  have hplain := i.plain
  rw [← show op = i.op from h, hop] at hplain
  cases hplain

theorem reads_jump (h : .jump = (reads cs k f).1) :
    ∃ offset, f = .jump offset := by
  cases f with
  | op i => exact absurd h (reads_ne_plain rfl k i)
  | jump offset => exact ⟨offset, rfl⟩
  | jumpIf sense offset => cases sense <;> cases h
  | jumpBack offset => cases h

theorem reads_jumpBack (h : .jumpBack = (reads cs k f).1) :
    ∃ offset, f = .jumpBack offset := by
  cases f with
  | op i => exact absurd h (reads_ne_plain rfl k i)
  | jump offset => cases h
  | jumpIf sense offset => cases sense <;> cases h
  | jumpBack offset => exact ⟨offset, rfl⟩

theorem reads_jumpIf {sense : Bool}
    (h : jumpIf sense = (reads cs k f).1) : ∃ offset, f = .jumpIf sense offset := by
  cases f with
  | op i => exact absurd h (reads_ne_plain (by cases sense <;> rfl) k i)
  | jump offset => cases sense <;> cases h
  | jumpIf sense' offset =>
    refine ⟨offset, ?_⟩
    cases sense <;> cases sense' <;> first | rfl | cases h
  | jumpBack offset => cases sense <;> cases h

/-- A run of the words is a run of the flat code. -/
theorem completes_of_runs (hspells : Spells cs 0 fs cs) (hlen : cs.length = fs.length)
    (hsize : size cs ≤ 0xFFFFFF) {pc : Nat} {s : S} {es : List E}
    (h : Runs sem (words cs) pc s es r) (hk : k ≤ fs.length)
    (hpc : start cs k = pc) : ∃ n, Completes sem fs n k s es r := by
  have hat : ∀ {k pc op arg n}, k ≤ fs.length → start cs k = pc →
      fetchAt (words cs) pc = some (op, arg, n) →
      ∃ f, fs[k]? = some f ∧ op = (reads cs k f).1 ∧ arg = (reads cs k f).2 ∧
        start cs (k + 1) = pc + n ∧ (∃ c, Entry cs k f c) ∧ k < fs.length := by
    rintro k pc op arg n hk rfl hx
    rcases Nat.lt_or_eq_of_le hk with hlt | rfl
    · have hf := List.getElem?_eq_getElem hlt
      obtain ⟨m, hfetch, hnext, -, hentry⟩ := hspells.at hsize hf
      rw [hfetch] at hx
      cases hx
      exact ⟨_, hf, rfl, rfl, hnext, hentry, hlt⟩
    · rw [← hlen, start_length, fetchAt, List.drop_length] at hx
      cases hx
  induction h generalizing k with
  | off hoff =>
    rcases Nat.lt_or_eq_of_le hk with hlt | rfl
    · obtain ⟨n, -, hnext, hpos, -⟩ := hspells.at hsize (List.getElem?_eq_getElem hlt)
      have hle : start cs (k + 1) ≤ (words cs).length := start_le cs (k + 1)
      omega
    · exact ⟨0, .off (Nat.le_refl _)⟩
  | op hfetch hexec _ ih =>
    obtain ⟨f, hf, hop, harg, hnext, -, hlt⟩ := hat hk hpc hfetch
    obtain rfl := reads_op hop harg
    obtain ⟨m, hm⟩ := ih hlt hnext
    exact ⟨m + 1, .op hf hexec hm⟩
  | leave hfetch hexec =>
    obtain ⟨f, hf, hop, harg, -⟩ := hat hk hpc hfetch
    obtain rfl := reads_op hop harg
    exact ⟨1, .leave hf hexec⟩
  | jump hfetch _ ih =>
    obtain ⟨f, hf, hop, rfl, hnext, ⟨c, hentry⟩, -⟩ := hat hk hpc hfetch
    obtain ⟨offset, rfl⟩ := reads_jump hop
    obtain ⟨m, hm⟩ := ih (hlen ▸ hentry.1) (by rw [← hnext, reads, start_add])
    exact ⟨m + 1, .jump hf hm⟩
  | jumpBack hfetch _ ih =>
    obtain ⟨f, hf, hop, rfl, hnext, -, hlt⟩ := hat hk hpc hfetch
    obtain ⟨offset, rfl⟩ := reads_jumpBack hop
    have hle : k + 1 - offset ≤ fs.length := by omega
    obtain ⟨m, hm⟩ := ih hle (by rw [← hnext, reads, start_sub])
    exact ⟨m + 1, .jumpBack hf hm⟩
  | taken hfetch htest _ ih =>
    obtain ⟨f, hf, hop, rfl, hnext, ⟨c, hentry⟩, -⟩ := hat hk hpc hfetch
    obtain ⟨offset, rfl⟩ := reads_jumpIf hop
    obtain ⟨m, hm⟩ := ih (hlen ▸ hentry.1) (by rw [← hnext, reads, start_add])
    exact ⟨m + 1, .taken hf htest hm⟩
  | notTaken hfetch htest _ ih =>
    obtain ⟨f, hf, hop, -, hnext, -, hlt⟩ := hat hk hpc hfetch
    obtain ⟨offset, rfl⟩ := reads_jumpIf hop
    obtain ⟨m, hm⟩ := ih hlt hnext
    exact ⟨m + 1, .notTaken hf htest hm⟩

/-- The words of a module that is emitted without an error. -/
theorem words_of_ok {items : List (Item Instr)} {m : Words}
    (hassemble : assembleAll items [] = .ok m) : m = words (chunksAll items) := by
  rcases assembleAll_spec items [] with hok | ⟨⟨text, herror⟩, -⟩
  · rw [hassemble] at hok
    exact Except.ok.inj hok
  · rw [hassemble] at herror
    cases herror

/-- A run of the words is one of the code. -/
theorem exec_of_runs {items : List (Item Instr)} {m : Words}
    (hassemble : assembleAll items [] = .ok m) (hsize : m.length ≤ 0xFFFFFF) {s : S}
    {es : List E} (h : Runs sem m 0 s es r) : Exec sem items s es r := by
  obtain rfl := words_of_ok hassemble
  exact completes_iff.mp (completes_of_runs (spells_words items) (length_chunksAll items) hsize h
    (Nat.zero_le _) rfl)

/-- **The words run as the nested code they were emitted for**, up to 24 bits of words. -/
theorem assembled_runs {items : List (Item Instr)} {m : Words}
    (hassemble : assembleAll items [] = .ok m) (hsize : m.length ≤ 0xFFFFFF) {s : S}
    {es : List E} {r : Except O S} : Runs sem m 0 s es r ↔ Exec sem items s es r := by
  refine ⟨exec_of_runs hassemble hsize, fun hexec => ?_⟩
  obtain rfl := words_of_ok hassemble
  obtain ⟨n, h⟩ := completes_iff.mpr hexec
  exact runs_of_completes (spells_words items) (length_chunksAll items) hsize (Nat.zero_le _) h

/-- 300 instructions. -/
def longBody : List (Item Instr) := List.replicate 300 (.op ⟨.pushSelf, 0, rfl, by decide⟩)

/-- A conditional over `longBody`, whose jump is widened. -/
def longBranch : Words :=
  [⟨.extend, 1⟩, ⟨.jumpIfFalse, 45⟩] ++ List.replicate 300 ⟨.pushSelf, 0⟩ ++
    [⟨.jump, 1⟩, ⟨.pushNil, 0⟩]

/-- It counts the instructions, and takes every conditional jump. -/
def counting : Sem Instr Nat Nat Unit :=
  ⟨fun i s es r => es = [i.arg] ∧ r = .ok (s + 1), fun _ s taken s' => taken = true ∧ s' = s⟩

theorem assembled_runs_branch : Runs counting longBranch 0 0 [0] (.ok 1) := by
  have hassemble : assembleAll [.branch false longBody [.op ⟨.pushNil, 0, rfl, by decide⟩]] [] =
      .ok longBranch := by decide +kernel
  have hnil : Exec counting [.op ⟨.pushNil, 0, rfl, by decide⟩] 0 ([0] ++ []) (.ok 1) :=
    .op ⟨rfl, rfl⟩ .nil
  exact (assembled_runs hassemble (by decide +kernel)).mpr (.target ⟨rfl, rfl⟩ hnil)

end Machine

/-! ## The disassembler -/

/-- `Disassembler::Instr`. -/
structure Listed where
  word : Nat
  words : Nat
  op : Opcode
  arg : Nat

/-- `decode`, with an instruction of which `count` words are read. -/
def decodeFrom (word count : Nat) (op : Opcode) (arg : Nat) : Words → List Listed
  | [] => [⟨word, count, op, arg⟩]
  | w :: ws =>
      if op = .extend then
        decodeFrom word (count + 1) w.op ((arg * 256 + w.arg.toNat) % 2 ^ 32) ws
      else ⟨word, count, op, arg⟩ :: decodeFrom (word + count) 1 w.op w.arg.toNat ws

/-- `decode`. -/
def decode : Words → List Listed
  | [] => []
  | w :: ws => decodeFrom 0 1 w.op w.arg.toNat ws

/-- The word that the listing of a jump points at, as `listModule` writes it. -/
def Listed.target (l : Listed) : Option Nat :=
  match l.op with
  | .jump | .jumpIfTrue | .jumpIfFalse => some (l.word + l.words + l.arg)
  | .jumpBack => if l.arg ≤ l.word + l.words then some (l.word + l.words - l.arg) else none
  | _ => none

/-- `decode` from the word with the number `word`. -/
def decodeAt (word : Nat) : Words → List Listed
  | [] => []
  | w :: ws => decodeFrom word 1 w.op w.arg.toNat ws

theorem decodeFrom_eq (hop : op ≠ .extend) (word count arg : Nat)
    (ws : Words) : decodeFrom word count op arg ws
      = ⟨word, count, op, arg⟩ :: decodeAt (word + count) ws := by
  cases ws with
  | nil => rfl
  | cons w ws => rw [decodeFrom, if_neg hop, decodeAt]

theorem decodeFrom_prefixes (hfits : arg ≤ 0xFFFFFF)
    (word : Nat) (rest : Words) (n : Nat) : ∀ count,
    decodeFrom word count .extend (arg >>> (8 * (n + 1))) (code n op arg ++ rest)
      = decodeFrom word (count + (n + 1)) op arg rest := by
  have hsmall := shift_mod hfits
  induction n with
  | zero =>
    intro count
    have hbyte := shift_byte 0 arg
    simp only [Nat.mul_zero, Nat.shiftRight_zero, Nat.zero_add] at hbyte
    simp only [code, prefixes, List.nil_append, List.singleton_append, decodeFrom,
      if_true, Nat.zero_add, hbyte]
    rw [Nat.mod_eq_of_lt (by omega)]
  | succ n ih =>
    intro count
    have hnext := ih (count + 1)
    simp only [code, prefixes, List.cons_append, decodeFrom, if_true, shift_byte, hsmall]
      at hnext ⊢
    rw [hnext]
    congr 1
    omega

theorem Coded.decodeAt (h : Coded op arg c)
    (hop : op ≠ .extend) (hfits : arg ≤ 0xFFFFFF) (word : Nat) (rest : Words) :
    decodeAt word (c ++ rest)
      = ⟨word, c.length, op, arg⟩ :: decodeAt (word + c.length) rest := by
  have hstart : ∀ w ws, Assembler.decodeAt word (w :: ws)
      = decodeFrom word 0 .extend 0 (w :: ws) := fun w ws => by
    have hbyte := w.arg.isLt
    rw [Assembler.decodeAt, decodeFrom, if_pos rfl, Nat.zero_mul, Nat.mod_eq_of_lt (by omega),
      Nat.zero_add, Nat.zero_add]
  obtain ⟨n, hneeds, hn, rfl⟩ := h
  have hread : decodeFrom word 0 .extend (arg >>> (8 * (n + 1))) (code n op arg ++ rest)
      = decodeFrom word (0 + (n + 1)) op arg rest :=
    decodeFrom_prefixes hfits word rest n 0
  rw [shift_eq_zero hneeds hn hfits, Nat.zero_add, decodeFrom_eq hop] at hread
  rw [length_code, ← hread]
  cases n with
  | zero => exact hstart ..
  | succ n => exact hstart ..

/-- The line of the instruction with the number `k`. -/
def line (cs : List Words) (k : Nat) (f : Flat Instr) : Listed where
  word := start cs k
  words := start cs (k + 1) - start cs k
  op := (reads cs k f).1
  arg := (reads cs k f).2

/-- The lines of the instructions from the one with the number `k` on. -/
theorem Spells.listed (hsize : size cs ≤ 0xFFFFFF)
    {fs : List (Flat Instr)} {cs' : List Words} (h : Spells cs k fs cs')
    (hcs : cs.drop k = cs') :
    (decodeAt (start cs k) (words cs')).length = fs.length ∧
      ∀ (j : Nat) (f : Flat Instr), fs[j]? = some f →
        (decodeAt (start cs k) (words cs'))[j]? = some (line cs (k + j) f) := by
  induction h with
  | nil => exact ⟨rfl, fun j f hf => by simp at hf⟩
  | @cons k f c fs cs' hentry _ ih =>
    have hc : cs[k]? = some c := by
      rw [← List.head?_drop, hcs]
      rfl
    have hnext := start_succ hc
    obtain ⟨hcoded, hop, hfits⟩ := hentry.coded
    obtain ⟨hlen, hlines⟩ := ih (by rw [← List.tail_drop, hcs]; rfl)
    rw [words, List.flatten_cons, hcoded.decodeAt hop (by omega), ← hnext]
    refine ⟨by rw [List.length_cons, List.length_cons, hlen], fun j f' hf => ?_⟩
    cases j with
    | zero =>
      obtain rfl := Option.some.inj hf
      have hwords : start cs (k + 1) - start cs k = c.length := by omega
      show some _ = some (line cs k f)
      rw [line, hwords]
    | succ j =>
      have hline := hlines j f' hf
      rw [Nat.add_assoc k 1 j, Nat.add_comm 1 j, ← Nat.add_assoc] at hline
      exact hline

/-- The word at which the line with the number `k` starts, the end behind the last. -/
def lineStart (ls : List Listed) (total k : Nat) : Nat :=
  (ls[k]?).elim total Listed.word

/-- The line `l` shows the instruction `f`, which has the number `k`. -/
def Shows (ls : List Listed) (total k : Nat) (l : Listed) : Flat Instr → Prop
  | .op i => l.op = i.op ∧ l.arg = i.arg
  | .jump offset => l.op = .jump ∧ l.target = some (lineStart ls total (k + 1 + offset))
  | .jumpIf sense offset =>
      l.op = jumpIf sense ∧ l.target = some (lineStart ls total (k + 1 + offset))
  | .jumpBack offset =>
      l.op = .jumpBack ∧ l.target = some (lineStart ls total (k + 1 - offset))

/-- **The listing is exact**: a line for each instruction, the lines without gaps, and
each jump at the line of its target. -/
theorem decode_exact {items : List (Item Instr)} {m : Words}
    (hassemble : assembleAll items [] = .ok m) (hsize : m.length ≤ 0xFFFFFF) :
    (decode m).length = (flatten items).length ∧
      ∀ k f, (flatten items)[k]? = some f → ∃ l, (decode m)[k]? = some l ∧
        l.word + l.words = lineStart (decode m) m.length (k + 1) ∧
        Shows (decode m) m.length k l f := by
  obtain rfl := words_of_ok hassemble
  have hspells := spells_words items
  generalize hcs : chunksAll items = cs at hspells hsize
  have hlength : cs.length = (flatten items).length := by rw [← hcs, length_chunksAll]
  obtain ⟨hlen, hlines⟩ := hspells.listed hsize List.drop_zero
  have hdecode : decodeAt (start cs 0) (words cs) = decode (words cs) := by
    cases words cs <;> rfl
  have hstart : ∀ k, k ≤ (flatten items).length →
      lineStart (decode (words cs)) (words cs).length k = start cs k := by
    intro k hk
    rcases Nat.lt_or_eq_of_le hk with hlt | rfl
    · have hline := hlines k _ (List.getElem?_eq_getElem hlt)
      rw [hdecode, Nat.zero_add] at hline
      rw [lineStart, hline]
      rfl
    · rw [hdecode] at hlen
      rw [lineStart, ← hlen, List.getElem?_eq_none (Nat.le_refl _), hlen, ← hlength,
        start_length]
      rfl
  rw [hdecode] at hlen hlines
  refine ⟨hlen, fun k f hf => ?_⟩
  have hlt := (List.getElem?_eq_some_iff.mp hf).1
  have hline := hlines k f hf
  obtain ⟨c, -, hentry⟩ := hspells.entry hf
  rw [Nat.zero_add] at hline hentry
  have hmono := start_mono cs (Nat.le_add_right k 1)
  refine ⟨line cs k f, hline, ?_, ?_⟩
  · rw [hstart (k + 1) hlt]
    exact Nat.add_sub_cancel' hmono
  · have hnext : start cs k + (start cs (k + 1) - start cs k) = start cs (k + 1) :=
      Nat.add_sub_cancel' hmono
    cases f with
    | op i => exact ⟨rfl, rfl⟩
    | jump offset =>
      refine ⟨rfl, ?_⟩
      rw [hstart _ (hlength ▸ hentry.1), ← start_add cs k offset]
      simp only [Listed.target, line, reads, hnext]
    | jumpIf sense offset =>
      refine ⟨rfl, ?_⟩
      rw [hstart _ (hlength ▸ hentry.1), ← start_add cs k offset]
      cases sense <;> simp only [Listed.target, line, reads, jumpIf, hnext]
    | jumpBack offset =>
      refine ⟨rfl, ?_⟩
      have hsub := start_mono cs (Nat.sub_le (k + 1) offset)
      have hback := hentry.1
      rw [hstart _ (by omega), ← start_sub cs k offset]
      simp only [Listed.target, line, reads, hnext]
      rw [if_pos (Nat.sub_le ..)]

/-- A loop over `longBody`: both jumps are widened, and the `JUMP_BACK` points at the first
line. -/
theorem decode_exact_loop :
    let items : List (Item Instr) := [.loop [.op ⟨.pushLocal, 1, rfl, by decide⟩] false longBody]
    let m : Words := [⟨.pushLocal, 1⟩, ⟨.extend, 1⟩, ⟨.jumpIfFalse, 46⟩] ++
      List.replicate 300 ⟨.pushSelf, 0⟩ ++ [⟨.extend, 1⟩, ⟨.jumpBack, 49⟩]
    (decode m).length = (flatten items).length ∧
      ∀ k f, (flatten items)[k]? = some f → ∃ l, (decode m)[k]? = some l ∧
        l.word + l.words = lineStart (decode m) m.length (k + 1) ∧
        Shows (decode m) m.length k l f :=
  decode_exact (by decide +kernel) (by decide +kernel)

end ProtoST.Runtime.Assembler

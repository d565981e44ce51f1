import Mathlib
import ProtoST.Lib.Transition
import ProtoST.Lib.Linearizable

/-!
# ReadyStack: the scheduler's lock-free LIFO stack of ready actors

The model of `runtime/ReadyStack.h`, one atomic instruction to a step.  The
stack and its free list are two Treiber lists over one pool of nodes, named by
32-bit indices; each head is a 64-bit word `(generation << 32) | index`, and a
successful compare-and-swap installs the next generation.

Both lists run the same two loops (`linkFront`, `unlinkFront`), so the two heads
are one function of `Side`: `.stack` is the source's `head_`, `.free` is its
`free_`.  A `push` unlinks from the free list and links to the stack, a `pop`
the other way round.

A thread's program counter `Pc` holds the C++ locals alive at that point.  The
components `count`, `stamp`, `opId`, `history` and `lins` are ghosts: nothing
the program computes depends on them.  `count` numbers the successful updates
of a head and `stamp` remembers the number a thread saw when it loaded it,
which is what the assumption on 32-bit generations is about.
-/

namespace ProtoST.Runtime.ReadyStack

open ProtoST.Lib

/-! ## Head words and node indices -/

/-- `UINT32_MAX`: no node. -/
def kNil : UInt32 := 0xFFFFFFFF

/-- Chunk `k` holds `2 ^ (kFirstChunkBits + k)` nodes. -/
def kFirstChunkBits : Nat := 8

/-- The number of chunks. -/
def kMaxChunks : Nat := 32 - kFirstChunkBits

/-- The number of indices the chunks hold. -/
def kCapacity : Nat := 2 ^ 32 - 2 ^ kFirstChunkBits

def pack (generation : UInt64) (idx : UInt32) : UInt64 :=
  (generation <<< 32) ||| idx.toUInt64

def indexOf (word : UInt64) : UInt32 := word.toUInt32

def generationOf (word : UInt64) : UInt64 := word >>> 32

/-- The chunk of an index: `bit_width(v) - 1 - kFirstChunkBits` at
`v = idx + 2 ^ kFirstChunkBits`. -/
def chunkOf (idx : UInt32) : Nat :=
  Nat.log 2 (idx.toNat + 2 ^ kFirstChunkBits) - kFirstChunkBits

/-! ## Operations and program points -/

/-- The two heads: `head_` and `free_`. -/
inductive Side where
  | stack
  | free
  deriving DecidableEq, Repr

/-- A call. -/
inductive Op (V : Type) where
  | push (value : V)
  | pop
  deriving DecidableEq, Repr

/-- What a call answers: `push` returns or throws `std::bad_alloc`, `pop`
answers a value, or `V{}` when it found the stack empty. -/
inductive Res (V : Type) where
  | done
  | badAlloc
  | empty
  | value (v : V)
  deriving DecidableEq, Repr

/-- The head an operation unlinks a node from. -/
def Op.unlinkSide {V : Type} : Op V → Side
  | .push _ => .free
  | .pop => .stack

/-- The second half of an operation: `push` publishes its node, `pop` recycles
the one it emptied. -/
inductive Job (V : Type) where
  | publish (value : V)
  | recycle (value : V)
  deriving DecidableEq, Repr

namespace Job

variable {V : Type}

/-- The head the node is linked to. -/
def side : Job V → Side
  | .publish _ => .stack
  | .recycle _ => .free

/-- What the operation answers when it is over. -/
def result : Job V → Res V
  | .publish _ => .done
  | .recycle v => .value v

/-- The change of `size_`. -/
def delta : Job V → Int
  | .publish _ => 1
  | .recycle _ => -1

end Job

/-- Where a thread is, with the locals it holds there. -/
inductive Pc (V : Type) where
  | idle
  -- `unlinkFront`: load the head, find the node, read its link, swap
  | unlinkLoad (op : Op V)
  | unlinkNode (op : Op V) (old : UInt64) (stamp : Nat)
  | unlinkNext (op : Op V) (old : UInt64) (stamp : Nat)
  | unlinkCas (op : Op V) (old : UInt64) (stamp : Nat) (next : UInt32)
  -- `acquireNode` on an empty free list
  | fresh (value : V)
  | chunkLoad (value : V) (idx : UInt32)
  | chunkCas (value : V) (idx : UInt32)
  -- `push`: write the value; `pop`: read it
  | valueNode (value : V) (idx : UInt32)
  | valueStore (value : V) (idx : UInt32)
  | readNode (idx : UInt32)
  | readValue (idx : UInt32)
  -- `linkFront`: find the node, load the head, write the link, swap
  | linkNode (job : Job V) (idx : UInt32)
  | linkLoad (job : Job V) (idx : UInt32)
  | linkStore (job : Job V) (idx : UInt32) (old : UInt64)
  | linkCas (job : Job V) (idx : UInt32) (old : UInt64)
  | sizeUpdate (job : Job V)
  | ret (res : Res V)
  /-- A null chunk pointer was dereferenced. -/
  | fault
  deriving DecidableEq, Repr

/-- The stack's memory, the threads and the ghosts. -/
structure State (V : Type) where
  /-- `head_` and `free_`. -/
  heads : Side → UInt64
  nextFresh : UInt64
  size : Int
  /-- Which of `chunks_` are installed. -/
  chunks : Nat → Bool
  value : UInt32 → V
  next : UInt32 → UInt32
  pc : Nat → Pc V
  /-- Ghost: successful updates of each head. -/
  count : Side → Nat
  /-- Ghost: the operation each thread runs. -/
  opId : Nat → Nat
  nextId : Nat
  /-- Ghost: calls and returns so far. -/
  history : List (Event (Op V) (Res V))
  /-- Ghost: the operations that have taken effect, in that order. -/
  lins : List (Nat × Op V × Res V)

/-- What the environment may choose: start an operation, or let a thread take
its next step (a weak compare-and-swap may fail spuriously). -/
inductive Action (V : Type) where
  | call (t : Nat) (op : Op V)
  | run (t : Nat) (spurious : Bool)

variable {V : Type}

/-! ## The step function -/

namespace State

/-- Thread `t` goes to `p`. -/
def goto (s : State V) (t : Nat) (p : Pc V) : State V :=
  { s with pc := Function.update s.pc t p }

/-- Ghost: the operation of thread `t` takes effect. -/
def point (s : State V) (t : Nat) (op : Op V) (r : Res V) : State V :=
  { s with lins := s.lins ++ [(s.opId t, op, r)] }

/-- A successful compare-and-swap of a head. -/
def setHead (s : State V) (side : Side) (word : UInt64) : State V :=
  { s with
    heads := Function.update s.heads side word
    count := Function.update s.count side (s.count side + 1) }

/-- `unlinkFront` after it has (re)loaded the head into `old`: an empty list
makes `push` take a fresh node and `pop` answer `V{}`. -/
def afterLoad (s : State V) (t : Nat) (op : Op V) : State V :=
  let old := s.heads op.unlinkSide
  if indexOf old = kNil then
    match op with
    | .push v => s.goto t (.fresh v)
    | .pop => (s.point t .pop .empty).goto t (.ret .empty)
  else s.goto t (.unlinkNode op old (s.count op.unlinkSide))

/-- `node(idx)`: go on to `p` if the chunk is there. -/
def derefNode (s : State V) (t : Nat) (idx : UInt32) (p : Pc V) : State V :=
  if s.chunks (chunkOf idx) then s.goto t p else s.goto t .fault

/-- `unlinkFront` has taken node `idx`. -/
def unlinked (s : State V) (t : Nat) (op : Op V) (idx : UInt32) : State V :=
  match op with
  | .push v => s.goto t (.valueNode v idx)
  | .pop => (s.point t .pop (.value (s.value idx))).goto t (.readNode idx)

/-- `linkFront` has published node `idx`. -/
def linked (s : State V) (t : Nat) (job : Job V) : State V :=
  match job with
  | .publish v => (s.point t (.push v) .done).goto t (.sizeUpdate job)
  | .recycle _ => s.goto t (.sizeUpdate job)

/-- The next atomic instruction of thread `t`. -/
def runThread (s : State V) (t : Nat) (spurious : Bool) : Option (State V) :=
  match s.pc t with
  | .idle => none
  | .unlinkLoad op => some (s.afterLoad t op)
  | .unlinkNode op old n =>
      some (s.derefNode t (indexOf old) (.unlinkNext op old n))
  | .unlinkNext op old n =>
      some (s.goto t (.unlinkCas op old n (s.next (indexOf old))))
  | .unlinkCas op old _ nxt =>
      if !spurious && s.heads op.unlinkSide == old then
        some ((s.setHead op.unlinkSide (pack (generationOf old + 1) nxt)).unlinked
          t op (indexOf old))
      else some (s.afterLoad t op)
  | .fresh v =>
      let s' := { s with nextFresh := s.nextFresh + 1 }
      if kCapacity ≤ s.nextFresh.toNat then
        some ((s'.point t (.push v) .badAlloc).goto t (.ret .badAlloc))
      else some (s'.goto t (.chunkLoad v s.nextFresh.toUInt32))
  | .chunkLoad v idx =>
      if s.chunks (chunkOf idx) then some (s.goto t (.valueNode v idx))
      else some (s.goto t (.chunkCas v idx))
  | .chunkCas v idx =>
      -- whoever loses this race deletes its chunk: one is installed either way
      some ({ s with chunks := Function.update s.chunks (chunkOf idx) true }.goto
        t (.valueNode v idx))
  | .valueNode v idx => some (s.derefNode t idx (.valueStore v idx))
  | .valueStore v idx =>
      some ({ s with value := Function.update s.value idx v }.goto
        t (.linkNode (.publish v) idx))
  | .readNode idx => some (s.derefNode t idx (.readValue idx))
  | .readValue idx => some (s.goto t (.linkNode (.recycle (s.value idx)) idx))
  | .linkNode job idx => some (s.derefNode t idx (.linkLoad job idx))
  | .linkLoad job idx => some (s.goto t (.linkStore job idx (s.heads job.side)))
  | .linkStore job idx old =>
      some ({ s with next := Function.update s.next idx (indexOf old) }.goto
        t (.linkCas job idx old))
  | .linkCas job idx old =>
      if !spurious && s.heads job.side == old then
        some ((s.setHead job.side (pack (generationOf old + 1) idx)).linked t job)
      else some (s.goto t (.linkStore job idx (s.heads job.side)))
  | .sizeUpdate job =>
      some ({ s with size := s.size + job.delta }.goto t (.ret job.result))
  | .ret r =>
      some ({ s with history := s.history ++ [Event.ret (s.opId t) r] }.goto t .idle)
  | .fault => none

/-- An idle thread calls an operation. -/
def callOp (s : State V) (t : Nat) (op : Op V) : Option (State V) :=
  match s.pc t with
  | .idle =>
      some ({ s with
        opId := Function.update s.opId t s.nextId
        nextId := s.nextId + 1
        history := s.history ++ [Event.call s.nextId op] }.goto t (.unlinkLoad op))
  | _ => none

end State

/-- One step of the whole system. -/
def step (s : State V) : Action V → Option (State V)
  | .call t op => s.callOp t op
  | .run t spurious => s.runThread t spurious

/-- The empty stack: both heads are `UINT32_MAX` at generation 0, no chunk is
installed and every link is `kNil`. -/
def initial [Inhabited V] : State V where
  heads := fun _ => kNil.toUInt64
  nextFresh := 0
  size := 0
  chunks := fun _ => false
  value := fun _ => default
  next := fun _ => kNil
  pc := fun _ => .idle
  count := fun _ => 0
  opId := fun _ => 0
  nextId := 0
  history := []
  lins := []

/-- The stack and its threads as a machine. -/
def machine (V : Type) [Inhabited V] : Machine (State V) (Action V) where
  init := fun s => s = initial
  step := step

/-- The assumption on runs: when `unlinkFront` compares a head, fewer than
`2 ^ 32` updates of it have succeeded since the thread loaded it, and the
64-bit counter of fresh indices does not wrap. -/
def bounded (s : State V) : Action V → Bool
  | .call _ _ => true
  | .run t _ =>
      match s.pc t with
      | .unlinkCas op _ n _ => s.count op.unlinkSide < n + 2 ^ 32
      | .fresh _ => s.nextFresh.toNat + 1 < 2 ^ 64
      | _ => true

/-- `bounded` as a side condition on runs. -/
abbrev Bounded (s : State V) (a : Action V) : Prop := bounded s a = true

/-! ## Ownership -/

/-- The node an operation in progress owns: taken out of one list, or carved
from the pool, and not yet linked to a list. -/
def Pc.owns : Pc V → Option UInt32
  | .chunkLoad _ idx | .chunkCas _ idx | .valueNode _ idx | .valueStore _ idx
  | .readNode idx | .readValue idx | .linkNode _ idx | .linkLoad _ idx
  | .linkStore _ idx _ | .linkCas _ idx _ => some idx
  | _ => none

/-- The indices that have been carved from the pool. -/
def State.Carved (s : State V) (idx : UInt32) : Prop :=
  idx.toNat < s.nextFresh.toNat ∧ idx.toNat < kCapacity

/-! ## Word arithmetic -/

/-- A head word read as a number: the generation above, the index below. -/
theorem toNat_pack (generation : UInt64) (idx : UInt32) :
    (pack generation idx).toNat =
      generation.toNat % 2 ^ 32 * 2 ^ 32 + idx.toNat := by
  have hidx : idx.toNat < 2 ^ 32 := idx.toNat_lt
  have hshift : generation.toNat <<< 32 % 2 ^ 64 =
      (generation.toNat % 2 ^ 32) <<< 32 := by
    rw [Nat.shiftLeft_eq, Nat.shiftLeft_eq,
      show (2 : Nat) ^ 64 = 2 ^ 32 * 2 ^ 32 from Nat.pow_add 2 32 32,
      Nat.mul_mod_mul_right]
  rw [pack, UInt64.toNat_or, UInt64.toNat_shiftLeft, UInt32.toNat_toUInt64,
    show (32 : UInt64).toNat % 64 = 32 from rfl, hshift,
    ← Nat.shiftLeft_add_eq_or_of_lt hidx, Nat.shiftLeft_eq]

@[simp] theorem indexOf_pack (generation : UInt64) (idx : UInt32) :
    indexOf (pack generation idx) = idx := by
  have hidx : idx.toNat < 2 ^ 32 := idx.toNat_lt
  apply UInt32.toNat_inj.mp
  rw [indexOf, UInt64.toNat_toUInt32, toNat_pack, Nat.mul_comm,
    Nat.mul_add_mod, Nat.mod_eq_of_lt hidx]

theorem toNat_generationOf_pack (generation : UInt64) (idx : UInt32) :
    (generationOf (pack generation idx)).toNat = generation.toNat % 2 ^ 32 := by
  have hidx : idx.toNat < 2 ^ 32 := idx.toNat_lt
  rw [generationOf, UInt64.toNat_shiftRight, toNat_pack,
    show (32 : UInt64).toNat % 64 = 32 from rfl, Nat.shiftRight_eq_div_pow,
    Nat.mul_comm, Nat.mul_add_div (by decide), Nat.div_eq_of_lt hidx,
    Nat.add_zero]

end ProtoST.Runtime.ReadyStack

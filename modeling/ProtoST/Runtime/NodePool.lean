import ProtoST.Runtime.ReadyStack

/-!
# The node pool of a ready stack

`ReadyStack::node` and `ReadyStack::acquireNode` find the chunk of an index and the offset in it
with 64- and 32-bit arithmetic.  The chunk is the `chunkOf` of the stack's model.

## Main results

* `node_chunk` — the chunk of an index is `chunkOf`.
* `places` — the arithmetic is exact, and every index has a place of its own.
-/

namespace ProtoST.Runtime.NodePool

open ProtoST.Runtime.ReadyStack (kFirstChunkBits kMaxChunks kCapacity chunkOf)

/-! ## The code -/

/-- `std::bit_width`, as an `unsigned`. -/
def bitWidth (v : UInt64) : UInt32 := UInt32.ofNat v.toNat.size

/-- `idx + (uint64_t{1} << kFirstChunkBits)`. -/
def position (idx : UInt64) : UInt64 := idx + 1 <<< UInt64.ofNat kFirstChunkBits

/-- `bit_width(v) - 1 - kFirstChunkBits`. -/
def chunkAt (v : UInt64) : UInt32 := bitWidth v - 1 - UInt32.ofNat kFirstChunkBits

/-- `1 << (kFirstChunkBits + k)`. -/
def chunkSize (k : UInt32) : UInt64 := 1 <<< (UInt32.ofNat kFirstChunkBits + k).toUInt64

/-- Where a node is. -/
structure Place where
  chunk : UInt32
  offset : UInt64
  deriving DecidableEq, Repr

/-- `node`. -/
def node (idx : UInt32) : Place :=
  let v := position idx.toUInt64
  let k := chunkAt v
  ⟨k, v - chunkSize k⟩

/-- What `acquireNode` makes of a never-used index. -/
structure Acquired where
  idx : UInt32
  chunk : UInt32
  /-- The number of nodes that it allocates for the chunk. -/
  size : UInt64
  deriving DecidableEq, Repr

/-- `acquireNode`, when the free list is empty; `none` is `std::bad_alloc`. -/
def acquireNode (fresh : UInt64) : Option Acquired :=
  if fresh ≥ UInt64.ofNat kCapacity then none
  else
    let k := chunkAt (position fresh)
    some ⟨fresh.toUInt32, k, chunkSize k⟩

/-! ## What it computes -/

section Position

variable {v : UInt64} (hlow : 2 ^ kFirstChunkBits ≤ v.toNat) (hhigh : v.toNat < 2 ^ 32)
include hlow hhigh

/-- The bits of a position: more than those of the first chunk, and at most 32. -/
theorem size_bounds : kFirstChunkBits < v.toNat.size ∧ v.toNat.size ≤ 32 :=
  ⟨Nat.lt_size.mpr hlow, Nat.size_le.mpr hhigh⟩

theorem toNat_bitWidth : (bitWidth v).toNat = v.toNat.size := by
  have hle := (size_bounds hlow hhigh).2
  exact UInt32.toNat_ofNat_of_lt' (by simp only [UInt32.size]; omega)

/-- Neither subtraction borrows. -/
theorem toNat_chunkAt : (chunkAt v).toNat = v.toNat.size - 1 - kFirstChunkBits := by
  obtain ⟨hlt, hle⟩ := size_bounds hlow hhigh
  have hwidth := toNat_bitWidth hlow hhigh
  have hone : (1 : UInt32) ≤ bitWidth v := by
    rw [UInt32.le_iff_toNat_le, hwidth]
    exact Nat.one_le_of_lt hlt
  have hfirst : (bitWidth v - 1).toNat = v.toNat.size - 1 := by
    rw [UInt32.toNat_sub_of_le _ _ hone, hwidth]
    rfl
  have hbits : UInt32.ofNat kFirstChunkBits ≤ bitWidth v - 1 := by
    rw [UInt32.le_iff_toNat_le, hfirst]
    exact Nat.le_sub_one_of_lt hlt
  rw [chunkAt, UInt32.toNat_sub_of_le _ _ hbits, hfirst]
  rfl

/-- The addition of the exponent does not wrap. -/
theorem toNat_exponent :
    (UInt32.ofNat kFirstChunkBits + chunkAt v).toNat = v.toNat.size - 1 := by
  obtain ⟨hlt, hle⟩ := size_bounds hlow hhigh
  have hchunk := toNat_chunkAt hlow hhigh
  have hbits : (UInt32.ofNat kFirstChunkBits).toNat = kFirstChunkBits := rfl
  rw [UInt32.toNat_add, hbits, hchunk]
  omega

theorem toNat_chunkSize : (chunkSize (chunkAt v)).toNat = 2 ^ (v.toNat.size - 1) := by
  obtain ⟨-, hle⟩ := size_bounds hlow hhigh
  have hexp := toNat_exponent hlow hhigh
  rw [chunkSize, UInt64.toNat_shiftLeft, UInt32.toNat_toUInt64, hexp,
    Nat.mod_eq_of_lt (by omega : v.toNat.size - 1 < 64), UInt64.toNat_one, Nat.shiftLeft_eq,
    Nat.one_mul]
  have hsmall : 2 ^ (v.toNat.size - 1) < 2 ^ 64 :=
    Nat.pow_lt_pow_right Nat.one_lt_two (by omega)
  exact Nat.mod_eq_of_lt hsmall

/-- The size of the chunk is at most the position, and more than half of it. -/
theorem chunkSize_bounds : (chunkSize (chunkAt v)).toNat ≤ v.toNat ∧
    v.toNat < 2 * (chunkSize (chunkAt v)).toNat := by
  obtain ⟨hlt, hle⟩ := size_bounds hlow hhigh
  rw [toNat_chunkSize hlow hhigh]
  have hself : v.toNat.size - 1 < v.toNat.size := by omega
  refine ⟨Nat.lt_size.mp hself, ?_⟩
  rw [← Nat.pow_succ']
  have hsucc : (v.toNat.size - 1).succ = v.toNat.size := by omega
  rw [hsucc]
  exact Nat.lt_size_self _

end Position

/-- An index that `acquireNode` takes. -/
def fresh (i : Fin kCapacity) : UInt64 := UInt64.ofNat i.val

/-- The index as `node` gets it. -/
def index (i : Fin kCapacity) : UInt32 := UInt32.ofNat i.val

theorem val_lt (i : Fin kCapacity) : i.val + 2 ^ kFirstChunkBits < 2 ^ 32 := by
  have hi := i.isLt
  simp only [kCapacity] at hi
  omega

theorem val_lt_word (i : Fin kCapacity) : i.val < 2 ^ 32 :=
  Nat.lt_of_le_of_lt (Nat.le_add_right _ _) (val_lt i)

theorem toNat_fresh (i : Fin kCapacity) : (fresh i).toNat = i.val := by
  have hi := val_lt_word i
  exact UInt64.toNat_ofNat_of_lt' (by simp only [UInt64.size]; omega)

theorem toNat_index (i : Fin kCapacity) : (index i).toNat = i.val := by
  have hi := val_lt_word i
  exact UInt32.toNat_ofNat_of_lt' (by simp only [UInt32.size]; omega)

theorem toUInt32_fresh (i : Fin kCapacity) : (fresh i).toUInt32 = index i := by
  apply UInt32.toNat_inj.mp
  have hi := val_lt_word i
  rw [UInt64.toNat_toUInt32, toNat_fresh, toNat_index]
  omega

theorem toUInt64_index (i : Fin kCapacity) : (index i).toUInt64 = fresh i := by
  apply UInt64.toNat_inj.mp
  rw [UInt32.toNat_toUInt64, toNat_index, toNat_fresh]

theorem toNat_position (i : Fin kCapacity) :
    (position (fresh i)).toNat = i.val + 2 ^ kFirstChunkBits := by
  have hi := val_lt i
  have hone : ((1 : UInt64) <<< UInt64.ofNat kFirstChunkBits).toNat = 2 ^ kFirstChunkBits := rfl
  rw [position, UInt64.toNat_add, toNat_fresh, hone]
  omega

section Index

variable (i : Fin kCapacity)

theorem position_low : 2 ^ kFirstChunkBits ≤ (position (fresh i)).toNat := by
  rw [toNat_position]
  exact Nat.le_add_left _ _

theorem position_high : (position (fresh i)).toNat < 2 ^ 32 := by
  rw [toNat_position]
  exact val_lt i

theorem node_index : node (index i) = ⟨chunkAt (position (fresh i)),
    position (fresh i) - chunkSize (chunkAt (position (fresh i)))⟩ := by
  rw [← toUInt64_index]
  rfl

theorem acquireNode_fresh : acquireNode (fresh i) = some ⟨index i,
    chunkAt (position (fresh i)), chunkSize (chunkAt (position (fresh i)))⟩ := by
  have hsmall : ¬ fresh i ≥ UInt64.ofNat kCapacity := by
    have hcapacity : (UInt64.ofNat kCapacity).toNat = kCapacity := by decide
    rw [ge_iff_le, UInt64.le_iff_toNat_le, hcapacity, toNat_fresh]
    exact Nat.not_le.mpr i.isLt
  rw [acquireNode, if_neg hsmall, ← toUInt32_fresh]

/-- The chunk that the model of the stack has. -/
theorem node_chunk : (node (index i)).chunk.toNat = chunkOf (index i) := by
  have hlow := position_low i
  have hhigh := position_high i
  have hsize := size_bounds hlow hhigh
  have hlog : Nat.log 2 (position (fresh i)).toNat = (position (fresh i)).toNat.size - 1 := by
    refine Nat.log_eq_of_pow_le_of_lt_pow (Nat.lt_size.mp (by omega)) ?_
    have hsucc : (position (fresh i)).toNat.size - 1 + 1 = (position (fresh i)).toNat.size := by
      omega
    rw [hsucc]
    exact Nat.lt_size_self _
  rw [node_index, toNat_chunkAt hlow hhigh, chunkOf, toNat_index, ← toNat_position, hlog]

/-- The chunk and the offset together are the position. -/
theorem toNat_offset : (node (index i)).offset.toNat =
    (position (fresh i)).toNat - (chunkSize (node (index i)).chunk).toNat := by
  rw [node_index]
  refine UInt64.toNat_sub_of_le _ _ ?_
  rw [UInt64.le_iff_toNat_le]
  exact (chunkSize_bounds (position_low i) (position_high i)).1

/-- The position that a place stands for. -/
def placePosition (place : Place) : Nat := place.offset.toNat + (chunkSize place.chunk).toNat

theorem position_of_place : (position (fresh i)).toNat = placePosition (node (index i)) := by
  have hle := (chunkSize_bounds (position_low i) (position_high i)).1
  have hoffset := toNat_offset i
  have hchunk : (node (index i)).chunk = chunkAt (position (fresh i)) := by
    rw [node_index]
  rw [hchunk] at hoffset
  rw [placePosition, hchunk, hoffset]
  exact (Nat.sub_add_cancel hle).symm

theorem toNat_size : (chunkSize (node (index i)).chunk).toNat =
    2 ^ (kFirstChunkBits + (node (index i)).chunk.toNat) := by
  have hlow := position_low i
  have hhigh := position_high i
  have hsize := size_bounds hlow hhigh
  rw [node_index]
  dsimp only
  rw [toNat_chunkSize hlow hhigh, toNat_chunkAt hlow hhigh]
  congr 1
  omega

end Index

/-- Every step of the arithmetic has the value that it has on numbers without bounds. -/
structure Exact (i : Fin kCapacity) : Prop where
  /-- The cast of a fresh index to 32 bits. -/
  index : (fresh i).toUInt32.toNat = i.val
  /-- The addition of the size of the first chunk. -/
  position : (position (fresh i)).toNat = i.val + 2 ^ kFirstChunkBits
  /-- The subtractions from the width. -/
  width : 1 + kFirstChunkBits ≤ (bitWidth (NodePool.position (fresh i))).toNat
  /-- What they leave, as the model of the stack has it. -/
  chunk : (node (NodePool.index i)).chunk.toNat = chunkOf (NodePool.index i)
  /-- The addition to the chunk. -/
  exponent : (UInt32.ofNat kFirstChunkBits + (node (NodePool.index i)).chunk).toNat =
    kFirstChunkBits + (node (NodePool.index i)).chunk.toNat
  /-- The shift. -/
  shift : kFirstChunkBits + (node (NodePool.index i)).chunk.toNat < 64 ∧
    (chunkSize (node (NodePool.index i)).chunk).toNat =
      2 ^ (kFirstChunkBits + (node (NodePool.index i)).chunk.toNat)
  /-- The subtraction of the size of the chunk. -/
  offset : (chunkSize (node (NodePool.index i)).chunk).toNat ≤
    (NodePool.position (fresh i)).toNat

theorem exact_of_index (i : Fin kCapacity) : Exact i := by
  have hlow := position_low i
  have hhigh := position_high i
  have hsize := size_bounds hlow hhigh
  have hchunk := toNat_chunkAt hlow hhigh
  refine ⟨?_, toNat_position i, ?_, node_chunk i, ?_, ⟨?_, toNat_size i⟩, ?_⟩
  · rw [toUInt32_fresh, toNat_index]
  · rw [toNat_bitWidth hlow hhigh]
    omega
  · rw [node_index]
    dsimp only
    rw [toNat_exponent hlow hhigh, hchunk]
    omega
  · rw [node_index]
    dsimp only
    rw [hchunk]
    omega
  · rw [node_index]
    exact (chunkSize_bounds hlow hhigh).1

/-- **Places.** For every index below the capacity the steps of the arithmetic are exact,
`acquireNode` allocates the chunk that `node` looks in, the chunk is one of the `kMaxChunks`, and
the offset is below its size; and no two indices have the same place. -/
theorem places : (∀ i : Fin kCapacity, Exact i ∧
    acquireNode (fresh i) = some ⟨index i, (node (index i)).chunk,
      chunkSize (node (index i)).chunk⟩ ∧
    (node (index i)).chunk.toNat < kMaxChunks ∧
    (node (index i)).offset.toNat < 2 ^ (kFirstChunkBits + (node (index i)).chunk.toNat)) ∧
    Function.Injective fun i : Fin kCapacity => node (index i) := by
  constructor
  · intro i
    have hlow := position_low i
    have hhigh := position_high i
    have hsize := size_bounds hlow hhigh
    have hbounds := chunkSize_bounds hlow hhigh
    refine ⟨exact_of_index i, ?_, ?_, ?_⟩
    · rw [node_index]
      exact acquireNode_fresh i
    · rw [node_index]
      dsimp only
      rw [toNat_chunkAt hlow hhigh, kMaxChunks]
      omega
    · rw [← toNat_size, toNat_offset, node_index]
      dsimp only
      omega
  · intro i j hplace
    have hsame : (position (fresh i)).toNat = (position (fresh j)).toNat := by
      rw [position_of_place i, position_of_place j]
      exact congrArg placePosition hplace
    have hsum := (toNat_position i).symm.trans (hsame.trans (toNat_position j))
    have hval : i.val = j.val := Nat.add_right_cancel hsum
    exact Fin.ext hval

end ProtoST.Runtime.NodePool

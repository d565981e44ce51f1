import Mathlib.Data.Multiset.AddSub
import ProtoST.Lib.Linked
import ProtoST.Runtime.ReadyStack

/-!
# ReadyStack neither loses nor duplicates entries

The invariant `Inv s xs` ties the words and links in memory to two lists of
nodes, `xs .stack` and `xs .free`.  Stale reads are harmless for one reason
only, stated in `PcOK`: as long as a head has not been updated since a thread
loaded it, the head is what the thread loaded and the link it read is the link
of the top node.  A compare-and-swap that succeeds with the generation it
expects finds the head in exactly that case (`stamp_eq_count`).

Steps are classified by what they do to the lists: `Inv.local` (nothing),
`Inv.unlink` (take the top node) and `Inv.link` (add a top node).  `Trace`
carries the history: each operation has one step at which it takes effect.

## Main results

* `inv_initial`, `inv_runThread`, `inv_callOp` — both lists are linked, acyclic and
  disjoint, and every carved node is in one of them or owned by one operation in
  progress: at the start, and after each step.
-/

namespace ProtoST.Runtime.ReadyStack

open ProtoST.Lib

variable {V : Type}

/-! ## The memory invariant -/

/-- The chunk of a node is there to be dereferenced. -/
abbrev State.Installed (s : State V) (idx : UInt32) : Prop :=
  s.chunks (chunkOf idx) = true

/-- What is known of a head word `old` loaded when the head had been updated
`stamp` times. -/
structure Loaded (s : State V) (side : Side) (old : UInt64) (stamp : Nat) :
    Prop where
  notNil : indexOf old ≠ kNil
  installed : s.Installed (indexOf old)
  gen : (generationOf old).toNat = stamp % 2 ^ 32
  le : stamp ≤ s.count side
  current : stamp = s.count side → old = s.heads side

/-- A node that an operation owns. -/
structure Owned (s : State V) (idx : UInt32) : Prop where
  carved : s.Carved idx
  installed : s.Installed idx

/-- The value a job links is in its node. -/
def Holds (s : State V) (idx : UInt32) : Job V → Prop
  | .publish v => s.value idx = v
  | .recycle _ => True

/-- What holds of a thread at each program point. -/
def PcOK (s : State V) : Pc V → Prop
  | .unlinkNode op old n | .unlinkNext op old n => Loaded s op.unlinkSide old n
  | .unlinkCas op old n nxt => Loaded s op.unlinkSide old n ∧
      (n = s.count op.unlinkSide → nxt = s.next (indexOf old))
  | .chunkLoad _ idx | .chunkCas _ idx => s.Carved idx
  | .valueNode _ idx | .valueStore _ idx | .readNode idx | .readValue idx =>
      Owned s idx
  | .linkNode job idx | .linkLoad job idx | .linkStore job idx _ =>
      Owned s idx ∧ Holds s idx job
  | .linkCas job idx old =>
      Owned s idx ∧ Holds s idx job ∧ s.next idx = indexOf old
  | .fault => False
  | .idle | .unlinkLoad _ | .fresh _ | .sizeUpdate _ | .ret _ => True

/-- The memory invariant: `xs` are the nodes on the two lists. -/
structure Inv (s : State V) (xs : Side → List UInt32) : Prop where
  linked : ∀ side, Linked s.next kNil (indexOf (s.heads side)) (xs side)
  gen : ∀ side, (generationOf (s.heads side)).toNat = s.count side % 2 ^ 32
  nodup : ∀ side, (xs side).Nodup
  disjoint : ∀ i, i ∈ xs .stack → i ∉ xs .free
  pool : ∀ side i, i ∈ xs side → Owned s i
  owner : ∀ t i, (s.pc t).owns = some i → ∀ side, i ∉ xs side
  unique : ∀ t t' i, (s.pc t).owns = some i → (s.pc t').owns = some i → t = t'
  accounted : ∀ i, s.Carved i →
    (∃ side, i ∈ xs side) ∨ ∃ t, (s.pc t).owns = some i
  threads : ∀ t, PcOK s (s.pc t)

variable {s s' : State V} {p : Pc V} {i : UInt32}

/-- An owned node was carved from the pool. -/
theorem PcOK.carved (h : PcOK s p) (hi : p.owns = some i) : s.Carved i := by
  cases p <;> simp only [Pc.owns, Option.some.injEq, reduceCtorEq] at hi <;>
    subst hi <;> simp only [PcOK] at h
  case chunkLoad | chunkCas => exact h
  case valueNode | valueStore | readNode | readValue => exact h.carved
  all_goals exact h.1.carved

/-- `Frame s s' w`: from `s` to `s'` only the node `w` was written, chunks and
fresh indices only grew, and a head changed only together with its count. -/
structure Frame (s s' : State V) (w : Option UInt32) : Prop where
  heads : ∀ side, s.count side ≤ s'.count side ∧
    (s'.count side = s.count side → s'.heads side = s.heads side)
  next : ∀ i, w ≠ some i → s'.next i = s.next i
  value : ∀ i, w ≠ some i → s'.value i = s.value i
  chunks : ∀ k, s.chunks k = true → s'.chunks k = true
  carved : ∀ i, s.Carved i → s'.Carved i

variable {w : Option UInt32}

theorem Frame.owned (hf : Frame s s' w) (h : Owned s i) : Owned s' i :=
  ⟨hf.carved i h.carved, hf.chunks _ h.installed⟩

theorem Frame.holds (hf : Frame s s' w) {job : Job V} (hi : w ≠ some i) (h : Holds s i job) :
    Holds s' i job := by
  cases job with
  | publish v => simpa [Holds, hf.value i hi] using h
  | recycle v => trivial

variable {old : UInt64} {side : Side}

theorem Frame.loaded (hf : Frame s s' w) {n : Nat} (h : Loaded s side old n) :
    Loaded s' side old n where
  notNil := h.notNil
  installed := hf.chunks _ h.installed
  gen := h.gen
  le := h.le.trans (hf.heads side).1
  current := by
    intro hn
    have hle := (hf.heads side).1
    have hlen := h.le
    have hsame : s'.count side = s.count side := by omega
    rw [(hf.heads side).2 hsame]
    exact h.current (by omega)

variable {xs : Side → List UInt32}

/-- The head of a list is one of its nodes. -/
theorem Inv.head_mem (h : Inv s xs) {w : UInt64} (hw : w = s.heads side)
    (hnil : indexOf w ≠ kNil) : indexOf w ∈ xs side := by
  subst hw
  obtain ⟨tl, htl, -⟩ := (h.linked side).exists_cons hnil
  simp [htl]

/-- **Frame rule for threads.** What a step of another thread does, short of
writing a node this thread owns or a node on a list, keeps `PcOK`. -/
theorem PcOK.frame
    (hinv : Inv s xs) (hf : Frame s s' w)
    (hw : ∀ i, w = some i → ∀ side, i ∉ xs side)
    (hp : ∀ i, w = some i → p.owns ≠ some i) (h : PcOK s p) : PcOK s' p := by
  cases p with
  | idle | unlinkLoad | fresh | sizeUpdate | ret => trivial
  | fault => exact h
  | unlinkNode | unlinkNext => exact hf.loaded h
  | unlinkCas op old n nxt =>
      refine ⟨hf.loaded h.1, fun hn => ?_⟩
      have hle := (hf.heads op.unlinkSide).1
      have hn' : n = s.count op.unlinkSide := by have := h.1.le; omega
      have hmem := hinv.head_mem (h.1.current hn') h.1.notNil
      rw [hf.next _ fun hc => hw _ hc _ hmem]
      exact h.2 hn'
  | chunkLoad | chunkCas => exact hf.carved _ h
  | valueNode | valueStore | readNode | readValue => exact hf.owned h
  | linkNode | linkLoad | linkStore =>
      exact ⟨hf.owned h.1, hf.holds (fun hc => hp _ hc rfl) h.2⟩
  | linkCas job idx old =>
      refine ⟨hf.owned h.1, hf.holds (fun hc => hp _ hc rfl) h.2.1, ?_⟩
      rw [hf.next _ fun hc => hp _ hc rfl]
      exact h.2.2

/-! ## The three kinds of steps -/

variable {t : Nat}

/-- A step of thread `t` that leaves both lists as they are. -/
theorem Inv.local
    (h : Inv s xs) (hheads : s'.heads = s.heads)
    (hcount : s'.count = s.count) (hpc : s'.pc = Function.update s.pc t p)
    (hframe : Frame s s' (s.pc t).owns)
    (hkeep : ∀ i, (s.pc t).owns = some i → p.owns = some i)
    (hnew : ∀ i, p.owns = some i → (s.pc t).owns = some i ∨ ¬ s.Carved i)
    (hcarved : ∀ i, s'.Carved i → s.Carved i ∨ p.owns = some i)
    (hok : PcOK s' p) : Inv s' xs := by
  -- a node newly carved is on no list and owned by nobody else
  have hown : ∀ i, p.owns = some i → (∀ side, i ∉ xs side) ∧
      ∀ t', (s.pc t').owns = some i → t' = t := by
    intro i hi
    rcases hnew i hi with hold | hfresh
    · exact ⟨h.owner t i hold, fun t' ht' => h.unique t' t i ht' hold⟩
    · exact ⟨fun side hmem => hfresh (h.pool side i hmem).carved,
        fun t' ht' => absurd ((h.threads t').carved ht') hfresh⟩
  refine
    { linked := ?_, gen := ?_, nodup := h.nodup, disjoint := h.disjoint,
      pool := fun side i hi => hframe.owned (h.pool side i hi),
      owner := ?_, unique := ?_, accounted := ?_, threads := ?_ }
  · intro side
    rw [hheads]
    exact (h.linked side).congr fun i hi =>
      hframe.next i fun hc => h.owner t i hc side hi
  · intro side
    rw [hheads, hcount]
    exact h.gen side
  · intro t' i hi
    rw [hpc] at hi
    by_cases ht : t' = t
    · subst ht
      rw [Function.update_self] at hi
      exact (hown i hi).1
    · rw [Function.update_of_ne ht] at hi
      exact h.owner t' i hi
  · intro t₁ t₂ i h₁ h₂
    rw [hpc] at h₁ h₂
    by_cases ht₁ : t₁ = t <;> by_cases ht₂ : t₂ = t
    · rw [ht₁, ht₂]
    · subst ht₁
      rw [Function.update_self] at h₁
      rw [Function.update_of_ne ht₂] at h₂
      exact ((hown i h₁).2 t₂ h₂).symm
    · subst ht₂
      rw [Function.update_self] at h₂
      rw [Function.update_of_ne ht₁] at h₁
      exact (hown i h₂).2 t₁ h₁
    · rw [Function.update_of_ne ht₁] at h₁
      rw [Function.update_of_ne ht₂] at h₂
      exact h.unique t₁ t₂ i h₁ h₂
  · intro i hi
    rcases hcarved i hi with hold | hp
    · rcases h.accounted i hold with hl | ⟨t', ht'⟩
      · exact Or.inl hl
      · refine Or.inr ⟨t', ?_⟩
        rw [hpc]
        by_cases ht : t' = t
        · subst ht
          rw [Function.update_self]
          exact hkeep i ht'
        · rw [Function.update_of_ne ht]
          exact ht'
    · exact Or.inr ⟨t, by rw [hpc, Function.update_self]; exact hp⟩
  · intro t'
    rw [hpc]
    by_cases ht : t' = t
    · subst ht
      rw [Function.update_self]
      exact hok
    · rw [Function.update_of_ne ht]
      refine (h.threads t').frame h hframe (fun i hi => h.owner t i hi) ?_
      intro i hi hi'
      exact ht (h.unique t' t i hi' hi)

/-- Nothing at all is written. -/
theorem Frame.of_eq
    (hh : s'.heads = s.heads) (hc : s'.count = s.count)
    (hn : s'.next = s.next) (hv : s'.value = s.value)
    (hk : s'.chunks = s.chunks) (hf : s'.nextFresh = s.nextFresh) :
    Frame s s' w where
  heads := fun side => by rw [hc, hh]; exact ⟨le_rfl, fun _ => rfl⟩
  next := fun i _ => by rw [hn]
  value := fun i _ => by rw [hv]
  chunks := fun k hi => by rw [hk]; exact hi
  carved := fun i hi => by rw [State.Carved, hf]; exact hi

/-- A step that only moves thread `t` (ghosts aside) and keeps what it owns. -/
theorem Inv.goto
    (h : Inv s xs) (hpc : s'.pc = Function.update s.pc t p)
    (hh : s'.heads = s.heads) (hc : s'.count = s.count)
    (hn : s'.next = s.next) (hv : s'.value = s.value)
    (hk : s'.chunks = s.chunks) (hf : s'.nextFresh = s.nextFresh)
    (howns : p.owns = (s.pc t).owns) (hok : PcOK s' p) : Inv s' xs :=
  h.local hh hc hpc (.of_eq hh hc hn hv hk hf)
    (fun i hi => by rw [howns]; exact hi)
    (fun i hi => Or.inl (by rw [← howns]; exact hi))
    (fun i hi => Or.inl (by rw [State.Carved, hf] at hi; exact hi)) hok

/-- A generation seen with a bounded stamp is the current one. -/
theorem stamp_eq_count {n c : Nat} (hmod : n % 2 ^ 32 = c % 2 ^ 32)
    (hle : n ≤ c) (hlt : c < n + 2 ^ 32) : n = c := by
  omega

variable {idx : UInt32}

/-- `generationOf old + 1` is the generation after the one in `old`. -/
theorem gen_succ {c : Nat} (h : (generationOf old).toNat = c % 2 ^ 32) :
    (generationOf (pack (generationOf old + 1) idx)).toNat = (c + 1) % 2 ^ 32 := by
  rw [toNat_generationOf_pack, UInt64.toNat_add, h]
  have : c % 2 ^ 32 < 2 ^ 32 := Nat.mod_lt _ (by decide)
  have h1 : (1 : UInt64).toNat = 1 := rfl
  rw [h1]
  omega

/-- A head update is within the frame of every other thread. -/
theorem Frame.setHead (s : State V) (side : Side) (word : UInt64)
    (w : Option UInt32) : Frame s (s.setHead side word) w where
  heads := by
    intro side'
    by_cases hs : side' = side
    · subst hs
      simp [State.setHead]
    · simp [State.setHead, Function.update_of_ne hs]
  next := fun _ _ => rfl
  value := fun _ _ => rfl
  chunks := fun _ h => h
  carved := fun _ h => h

/-- What `Inv.unlink` and `Inv.link` say about the lists: those of `side` are
now `l`, the others are unchanged. -/
abbrev setList (xs : Side → List UInt32) (side : Side) (l : List UInt32) :
    Side → List UInt32 :=
  Function.update xs side l

/-- `disjoint`, whichever head comes first. -/
theorem Inv.disjoint' (h : Inv s xs) {a b : Side} (hab : a ≠ b) (ha : i ∈ xs a) : i ∉ xs b := by
  cases a <;> cases b
  · exact absurd rfl hab
  · exact h.disjoint i ha
  · exact fun hb => h.disjoint i hb ha
  · exact absurd rfl hab

/-- **Unlinking.** Thread `t` swaps the head of a list for the link of its top
node and owns that node from then on. -/
theorem Inv.unlink {nxt : UInt32} {tl : List UInt32} (h : Inv s xs) (hnone : (s.pc t).owns = none)
    (hold : s.heads side = old) (hxs : xs side = indexOf old :: tl)
    (hnxt : nxt = s.next (indexOf old)) {s' : State V}
    (hs' : s' = ((s.setHead side (pack (generationOf old + 1) nxt)).goto t p))
    (hp : p.owns = some (indexOf old)) (hok : PcOK s' p) :
    Inv s' (setList xs side tl) := by
  have hpc : s'.pc = Function.update s.pc t p := by rw [hs']; rfl
  have hframe : Frame s s' none := by
    have := Frame.setHead s side (pack (generationOf old + 1) nxt) none
    subst hs'
    exact ⟨this.heads, this.next, this.value, this.chunks, this.carved⟩
  have hmem : indexOf old ∈ xs side := by simp [hxs]
  have hnodup : (indexOf old :: tl).Nodup := hxs ▸ h.nodup side
  have hsub : ∀ b i, i ∈ setList xs side tl b → i ∈ xs b := by
    intro b i hi
    by_cases hb : b = side
    · subst hb
      rw [setList, Function.update_self] at hi
      rw [hxs]
      exact List.mem_cons_of_mem _ hi
    · rwa [setList, Function.update_of_ne hb] at hi
  have hgone : ∀ b, indexOf old ∉ setList xs side tl b := by
    intro b hi
    by_cases hb : b = side
    · subst hb
      rw [setList, Function.update_self] at hi
      exact (List.nodup_cons.mp hnodup).1 hi
    · rw [setList, Function.update_of_ne hb] at hi
      exact h.disjoint' (Ne.symm hb) hmem hi
  refine
    { linked := ?_, gen := ?_, nodup := ?_,
      disjoint := fun i hi hi' => h.disjoint i (hsub _ i hi) (hsub _ i hi'),
      pool := fun b i hi => hframe.owned (h.pool b i (hsub b i hi)),
      owner := ?_, unique := ?_, accounted := ?_, threads := ?_ }
  · intro b
    by_cases hb : b = side
    · subst hb
      have hl := h.linked b
      rw [hxs] at hl
      rw [hs', setList, Function.update_self]
      simpa [State.setHead, State.goto, hnxt] using hl.2.2
    · rw [hs', setList, Function.update_of_ne hb]
      simpa [State.setHead, State.goto, Function.update_of_ne hb] using h.linked b
  · intro b
    by_cases hb : b = side
    · subst hb
      have hg := h.gen b
      rw [hold] at hg
      rw [hs']
      simpa [State.setHead, State.goto] using gen_succ hg
    · rw [hs']
      simpa [State.setHead, State.goto, Function.update_of_ne hb] using h.gen b
  · intro b
    by_cases hb : b = side
    · subst hb
      rw [setList, Function.update_self]
      exact (List.nodup_cons.mp hnodup).2
    · rw [setList, Function.update_of_ne hb]
      exact h.nodup b
  · intro t' i hi b
    rw [hpc] at hi
    by_cases ht : t' = t
    · subst ht
      rw [Function.update_self, hp, Option.some.injEq] at hi
      subst hi
      exact hgone b
    · rw [Function.update_of_ne ht] at hi
      exact fun hmem' => h.owner t' i hi b (hsub b i hmem')
  · -- nobody owned a node of the list
    have hfree : ∀ t', (s.pc t').owns ≠ some (indexOf old) :=
      fun t' ht' => h.owner t' _ ht' side hmem
    intro t₁ t₂ i h₁ h₂
    rw [hpc] at h₁ h₂
    by_cases ht₁ : t₁ = t <;> by_cases ht₂ : t₂ = t
    · rw [ht₁, ht₂]
    · subst ht₁
      rw [Function.update_self, hp] at h₁
      rw [Function.update_of_ne ht₂, ← h₁] at h₂
      exact absurd h₂ (hfree t₂)
    · subst ht₂
      rw [Function.update_self, hp] at h₂
      rw [Function.update_of_ne ht₁, ← h₂] at h₁
      exact absurd h₁ (hfree t₁)
    · rw [Function.update_of_ne ht₁] at h₁
      rw [Function.update_of_ne ht₂] at h₂
      exact h.unique t₁ t₂ i h₁ h₂
  · intro i hi
    have hi' : s.Carved i := by rw [hs'] at hi; exact hi
    by_cases hio : i = indexOf old
    · exact Or.inr ⟨t, by rw [hpc, Function.update_self, hp, hio]⟩
    rcases h.accounted i hi' with ⟨b, hb⟩ | ⟨t', ht'⟩
    · refine Or.inl ⟨b, ?_⟩
      by_cases hbs : b = side
      · subst hbs
        rw [setList, Function.update_self]
        rw [hxs] at hb
        exact (List.mem_cons.mp hb).resolve_left hio
      · rw [setList, Function.update_of_ne hbs]
        exact hb
    · refine Or.inr ⟨t', ?_⟩
      have ht : t' ≠ t := by
        rintro rfl
        rw [hnone] at ht'
        cases ht'
      rw [hpc, Function.update_of_ne ht]
      exact ht'
  · intro t'
    rw [hpc]
    by_cases ht : t' = t
    · subst ht
      rw [Function.update_self]
      exact hok
    · rw [Function.update_of_ne ht]
      exact (h.threads t').frame h hframe (fun i hi => by cases hi)
        (fun i hi => by cases hi)

/-- **Linking.** Thread `t` swaps the head of a list for the node it owns, whose
link it has set to the old top node. -/
theorem Inv.link (h : Inv s xs) (howns : (s.pc t).owns = some idx) (hold : s.heads side = old)
    (hinst : s.Installed idx) (hnext : s.next idx = indexOf old) {s' : State V}
    (hs' : s' = ((s.setHead side (pack (generationOf old + 1) idx)).goto t p))
    (hp : p.owns = none) (hok : PcOK s' p) :
    Inv s' (setList xs side (idx :: xs side)) := by
  have hpc : s'.pc = Function.update s.pc t p := by rw [hs']; rfl
  have hframe : Frame s s' none := by
    have := Frame.setHead s side (pack (generationOf old + 1) idx) none
    subst hs'
    exact ⟨this.heads, this.next, this.value, this.chunks, this.carved⟩
  have hcarved : s.Carved idx := (h.threads t).carved howns
  have hnil : idx ≠ kNil := by
    rintro rfl
    have hcap := hcarved.2
    simp [kNil, kCapacity, kFirstChunkBits] at hcap
  have hmem : ∀ b i, i ∈ setList xs side (idx :: xs side) b →
      i = idx ∧ b = side ∨ i ∈ xs b := by
    intro b i hi
    by_cases hb : b = side
    · subst hb
      rw [setList, Function.update_self] at hi
      rcases List.mem_cons.mp hi with hi | hi
      · exact Or.inl ⟨hi, rfl⟩
      · exact Or.inr hi
    · rw [setList, Function.update_of_ne hb] at hi
      exact Or.inr hi
  refine
    { linked := ?_, gen := ?_, nodup := ?_, disjoint := ?_, pool := ?_,
      owner := ?_, unique := ?_, accounted := ?_, threads := ?_ }
  · intro b
    by_cases hb : b = side
    · subst hb
      rw [hs', setList, Function.update_self]
      have hl := h.linked b
      rw [hold, ← hnext] at hl
      refine ⟨?_, hnil, hl⟩
      simp [State.setHead, State.goto]
    · rw [hs', setList, Function.update_of_ne hb]
      simpa [State.setHead, State.goto, Function.update_of_ne hb] using h.linked b
  · intro b
    by_cases hb : b = side
    · subst hb
      have hg := h.gen b
      rw [hold] at hg
      rw [hs']
      simpa [State.setHead, State.goto] using gen_succ hg
    · rw [hs']
      simpa [State.setHead, State.goto, Function.update_of_ne hb] using h.gen b
  · intro b
    by_cases hb : b = side
    · subst hb
      rw [setList, Function.update_self]
      exact List.nodup_cons.mpr ⟨h.owner t idx howns b, h.nodup b⟩
    · rw [setList, Function.update_of_ne hb]
      exact h.nodup b
  · intro i hi hi'
    rcases hmem _ i hi with ⟨rfl, hs⟩ | hi <;>
      rcases hmem _ i hi' with ⟨hi', hs'⟩ | hi'
    · rw [← hs] at hs'
      cases hs'
    · exact h.owner t i howns _ hi'
    · exact h.owner t i (hi' ▸ howns) _ hi
    · exact h.disjoint i hi hi'
  · intro b i hi
    rcases hmem b i hi with ⟨rfl, -⟩ | hi
    · exact hframe.owned ⟨hcarved, hinst⟩
    · exact hframe.owned (h.pool b i hi)
  · intro t' i hi b hib
    rw [hpc] at hi
    by_cases ht : t' = t
    · subst ht
      rw [Function.update_self, hp] at hi
      cases hi
    · rw [Function.update_of_ne ht] at hi
      rcases hmem b i hib with ⟨rfl, -⟩ | hib
      · exact ht (h.unique t' t i hi howns)
      · exact h.owner t' i hi b hib
  · intro t₁ t₂ i h₁ h₂
    have hne : ∀ t', (s'.pc t').owns = some i →
        t' ≠ t ∧ (s.pc t').owns = some i := by
      intro t' ht'
      rw [hpc] at ht'
      by_cases ht : t' = t
      · subst ht
        rw [Function.update_self, hp] at ht'
        cases ht'
      · rw [Function.update_of_ne ht] at ht'
        exact ⟨ht, ht'⟩
    exact h.unique t₁ t₂ i (hne t₁ h₁).2 (hne t₂ h₂).2
  · intro i hi
    have hi' : s.Carved i := by rw [hs'] at hi; exact hi
    rcases h.accounted i hi' with ⟨b, hb⟩ | ⟨t', ht'⟩
    · refine Or.inl ⟨b, ?_⟩
      by_cases hbs : b = side
      · subst hbs
        rw [setList, Function.update_self]
        exact List.mem_cons_of_mem _ hb
      · rw [setList, Function.update_of_ne hbs]
        exact hb
    · by_cases ht : t' = t
      · subst ht
        rw [howns, Option.some.injEq] at ht'
        subst ht'
        exact Or.inl ⟨side, by simp [setList]⟩
      · exact Or.inr ⟨t', by rw [hpc, Function.update_of_ne ht]; exact ht'⟩
  · intro t'
    rw [hpc]
    by_cases ht : t' = t
    · subst ht
      rw [Function.update_self]
      exact hok
    · rw [Function.update_of_ne ht]
      exact (h.threads t').frame h hframe (fun i hi => by cases hi)
        (fun i hi => by cases hi)

/-- Ghosts do not matter to the memory invariant. -/
theorem Inv.ghost (h : Inv s xs)
    (hpc : s'.pc = s.pc) (hh : s'.heads = s.heads) (hc : s'.count = s.count)
    (hn : s'.next = s.next) (hv : s'.value = s.value)
    (hk : s'.chunks = s.chunks) (hf : s'.nextFresh = s.nextFresh) :
    Inv s' xs := by
  have hframe : Frame s s' none := .of_eq hh hc hn hv hk hf
  exact
    { linked := by rw [hn, hh]; exact h.linked
      gen := by rw [hh, hc]; exact h.gen
      nodup := h.nodup
      disjoint := h.disjoint
      pool := fun side i hi => hframe.owned (h.pool side i hi)
      owner := by rw [hpc]; exact h.owner
      unique := by rw [hpc]; exact h.unique
      accounted := by
        intro i hi
        rw [hpc]
        exact h.accounted i (by rw [State.Carved, hf] at hi; exact hi)
      threads := by
        intro t
        rw [hpc]
        exact (h.threads t).frame h hframe (fun i hi => by cases hi)
          (fun i hi => by cases hi) }

/-! ## Every step keeps the invariant -/

/-- A freshly loaded head, if it names a node. -/
theorem Inv.loaded (h : Inv s xs) (hnil : indexOf (s.heads side) ≠ kNil) :
    Loaded s side (s.heads side) (s.count side) where
  notNil := hnil
  installed := (h.pool side _ (h.head_mem rfl hnil)).installed
  gen := h.gen side
  le := le_rfl
  current := fun _ => rfl

/-- Reloading the head, at any point where the thread owns nothing. -/
theorem inv_afterLoad
    {op : Op V} (h : Inv s xs) (howns : (s.pc t).owns = none) :
    Inv (s.afterLoad t op) xs := by
  unfold State.afterLoad
  dsimp only
  split
  · cases op with
    | push v =>
        exact h.goto rfl rfl rfl rfl rfl rfl rfl (by rw [howns]; rfl) trivial
    | pop =>
        exact h.goto rfl rfl rfl rfl rfl rfl rfl (by rw [howns]; rfl) trivial
  · rename_i hnil
    refine h.goto rfl rfl rfl rfl rfl rfl rfl (by rw [howns]; rfl) ?_
    have hl := h.loaded hnil
    exact ⟨hl.notNil, hl.installed, hl.gen, hl.le, hl.current⟩

/-- A node whose chunk is installed can be dereferenced. -/
theorem inv_derefNode (h : Inv s xs) (hinst : s.Installed idx)
    (howns : p.owns = (s.pc t).owns) (hok : PcOK (s.goto t p) p) :
    Inv (s.derefNode t idx p) xs := by
  unfold State.derefNode
  rw [if_pos hinst]
  exact h.goto rfl rfl rfl rfl rfl rfl rfl howns hok

/-- `Owned` only looks at the chunks and the fresh counter. -/
theorem Owned.of_eq (h : Owned s i) (hk : s'.chunks = s.chunks) (hf : s'.nextFresh = s.nextFresh) :
    Owned s' i :=
  ⟨by rw [State.Carved, hf]; exact h.carved, by rw [State.Installed, hk]; exact h.installed⟩

/-- **Step lemma, a successful compare-and-swap in `unlinkFront`.** -/
theorem inv_unlinkCas
    {op : Op V} {n : Nat} {nxt : UInt32} (h : Inv s xs)
    (hpc : s.pc t = .unlinkCas op old n nxt)
    (hbound : s.count op.unlinkSide < n + 2 ^ 32)
    (hold : s.heads op.unlinkSide = old) :
    xs op.unlinkSide = indexOf old :: (xs op.unlinkSide).tail ∧
      Inv ((s.setHead op.unlinkSide (pack (generationOf old + 1) nxt)).unlinked
        t op (indexOf old)) (setList xs op.unlinkSide (xs op.unlinkSide).tail) := by
  have hok := h.threads t
  rw [hpc] at hok
  obtain ⟨hload, hlink⟩ := hok
  -- the generation matches, so nobody has updated the head since the load
  have hgen := h.gen op.unlinkSide
  rw [hold, hload.gen] at hgen
  have hcount := stamp_eq_count hgen hload.le hbound
  obtain ⟨tl, htl, -⟩ := (h.linked op.unlinkSide).exists_cons
    (by rw [hold]; exact hload.notNil)
  rw [hold] at htl
  have hmem : indexOf old ∈ xs op.unlinkSide := by simp [htl]
  have howned := h.pool _ _ hmem
  have htl' : xs op.unlinkSide = indexOf old :: (xs op.unlinkSide).tail := by
    simp [htl]
  refine ⟨htl', ?_⟩
  cases op with
  | push v =>
      exact h.unlink (by rw [hpc]; rfl) hold htl' (hlink hcount) rfl rfl
        (howned.of_eq rfl rfl)
  | pop =>
      have hinv := h.unlink (t := t) (p := .readNode (indexOf old))
        (by rw [hpc]; rfl) hold htl' (hlink hcount) rfl rfl
        (howned.of_eq rfl rfl)
      exact hinv.ghost rfl rfl rfl rfl rfl rfl rfl

/-- **Step lemma, a successful compare-and-swap in `linkFront`.** -/
theorem inv_linkCas {job : Job V} (h : Inv s xs)
    (hpc : s.pc t = .linkCas job idx old) (hold : s.heads job.side = old) :
    Inv ((s.setHead job.side (pack (generationOf old + 1) idx)).linked t job)
      (setList xs job.side (idx :: xs job.side)) := by
  have hok := h.threads t
  rw [hpc] at hok
  obtain ⟨howned, -, hnext⟩ := hok
  have hinv := h.link (t := t) (p := .sizeUpdate job) (by rw [hpc]; rfl) hold
    howned.installed hnext rfl rfl trivial
  cases job with
  | publish v => exact hinv.ghost rfl rfl rfl rfl rfl rfl rfl
  | recycle v => exact hinv

/-- **Step lemma, `nextFresh_.fetch_add`.** -/
theorem inv_fresh {v : V}
    (h : Inv s xs) (hpc : s.pc t = .fresh v)
    (hbound : s.nextFresh.toNat + 1 < 2 ^ 64) (s' : State V)
    (hs' : s.runThread t false = some s') : Inv s' xs := by
  have howns : (s.pc t).owns = none := by rw [hpc]; rfl
  have hsucc : (s.nextFresh + 1).toNat = s.nextFresh.toNat + 1 := by
    rw [UInt64.toNat_add, show (1 : UInt64).toNat = 1 from rfl]
    omega
  simp only [State.runThread, hpc] at hs'
  split at hs' <;> rename_i hcap <;> obtain rfl := Option.some.inj hs'
  · -- out of memory: the counter moved past the capacity, nothing is carved
    have hiff : ∀ i, i.toNat < (s.nextFresh + 1).toNat ∧ i.toNat < kCapacity →
        s.Carved i := by
      intro i hi
      refine ⟨?_, hi.2⟩
      have := hi.2
      omega
    refine h.local rfl rfl rfl ?_ ?_ ?_ ?_ trivial
    · refine ⟨fun side => ⟨le_rfl, fun _ => rfl⟩, fun _ _ => rfl, fun _ _ => rfl,
        fun _ hk => hk, fun i hi => ⟨?_, hi.2⟩⟩
      show i.toNat < (s.nextFresh + 1).toNat
      have := hi.1
      omega
    · intro i hi
      rw [howns] at hi
      cases hi
    · intro i hi
      cases hi
    · exact fun i hi => Or.inl (hiff i hi)
  · have hidx : s.nextFresh.toUInt32.toNat = s.nextFresh.toNat := by
      rw [UInt64.toNat_toUInt32]
      have : kCapacity < 2 ^ 32 := by decide
      omega
    refine h.local rfl rfl rfl ?_ ?_ ?_ ?_ ?_
    · refine ⟨fun side => ⟨le_rfl, fun _ => rfl⟩, fun _ _ => rfl, fun _ _ => rfl,
        fun _ hk => hk, fun i hi => ⟨?_, hi.2⟩⟩
      show i.toNat < (s.nextFresh + 1).toNat
      have := hi.1
      omega
    · intro i hi
      rw [howns] at hi
      cases hi
    · intro i hi
      simp only [Pc.owns, Option.some.injEq] at hi
      subst hi
      refine Or.inr fun hc => ?_
      have := hc.1
      omega
    · intro i hi
      by_cases heq : i = s.nextFresh.toUInt32
      · exact Or.inr (by rw [heq]; rfl)
      · refine Or.inl ⟨?_, hi.2⟩
        have hlt : i.toNat < (s.nextFresh + 1).toNat := hi.1
        have hne : i.toNat ≠ s.nextFresh.toNat := by
          intro hc
          exact heq (UInt32.toNat_inj.mp (by omega))
        omega
    · refine ⟨?_, ?_⟩
      · show s.nextFresh.toUInt32.toNat < (s.nextFresh + 1).toNat
        omega
      · show s.nextFresh.toUInt32.toNat < kCapacity
        omega

/-- A step of thread `t` that only writes the node `t` owns. -/
theorem inv_write
    (h : Inv s xs) (idx : UInt32) (howns : (s.pc t).owns = some idx)
    (hpc : s'.pc = Function.update s.pc t p) (hh : s'.heads = s.heads)
    (hc : s'.count = s.count) (hn : ∀ i, i ≠ idx → s'.next i = s.next i)
    (hv : ∀ i, i ≠ idx → s'.value i = s.value i) (hk : s'.chunks = s.chunks)
    (hf : s'.nextFresh = s.nextFresh) (hp : p.owns = some idx)
    (hok : PcOK s' p) : Inv s' xs := by
  refine h.local hh hc hpc ?_ (fun i hi => by rw [hp, ← howns]; exact hi)
    (fun i hi => Or.inl (by rw [howns, ← hp]; exact hi))
    (fun i hi => Or.inl (by rw [State.Carved, hf] at hi; exact hi)) hok
  refine ⟨fun side => by rw [hc, hh]; exact ⟨le_rfl, fun _ => rfl⟩, ?_, ?_,
    fun k hk' => by rw [hk]; exact hk',
    fun i hi => by rw [State.Carved, hf]; exact hi⟩
  · exact fun i hi => hn i fun hc => hi (by rw [howns, hc])
  · exact fun i hi => hv i fun hc => hi (by rw [howns, hc])

/-- **Step lemma, installing a chunk.** -/
theorem inv_chunkCas {v : V} (h : Inv s xs) (hpc : s.pc t = .chunkCas v idx) (hok : s.Carved idx) :
    Inv ({ s with chunks := Function.update s.chunks (chunkOf idx) true }.goto t
      (.valueNode v idx)) xs := by
  have howns : (s.pc t).owns = some idx := by rw [hpc]; rfl
  generalize hk : chunkOf idx = k
  have hgrow : ∀ k', s.chunks k' = true →
      Function.update s.chunks k true k' = true := by
    intro k' hk'
    by_cases heq : k' = k
    · rw [heq, Function.update_self]
    · rw [Function.update_of_ne heq]
      exact hk'
  refine h.local rfl rfl rfl ⟨fun side => ⟨le_rfl, fun _ => rfl⟩, fun _ _ => rfl,
    fun _ _ => rfl, hgrow, fun _ hi => hi⟩ ?_ ?_ (fun i hi => Or.inl hi)
    ⟨⟨hok.1, hok.2⟩, ?_⟩
  · exact fun i hi => howns.symm.trans hi
  · exact fun i hi => Or.inl (howns.trans hi)
  · simp only [State.Installed, State.goto, hk, Function.update_self]

/-- The lists after the next instruction of thread `t`. -/
def State.nextLists (s : State V) (t : Nat) (spurious : Bool)
    (xs : Side → List UInt32) : Side → List UInt32 :=
  match s.pc t with
  | .unlinkCas op old _ _ =>
      if !spurious && s.heads op.unlinkSide == old then
        setList xs op.unlinkSide (xs op.unlinkSide).tail
      else xs
  | .linkCas job idx old =>
      if !spurious && s.heads job.side == old then
        setList xs job.side (idx :: xs job.side)
      else xs
  | _ => xs

/-- **Step lemma.** Every instruction of a thread keeps the invariant. -/
theorem inv_runThread
    {b : Bool} (h : Inv s xs) (hbound : Bounded s (.run t b))
    (hs' : s.runThread t b = some s') : Inv s' (s.nextLists t b xs) := by
  have hok := h.threads t
  cases hpc : s.pc t with
  | idle => simp [State.runThread, hpc] at hs'
  | fault => simp [State.runThread, hpc] at hs'
  | unlinkLoad op =>
      simp only [State.runThread, hpc, Option.some.injEq] at hs'
      simp only [State.nextLists, hpc]
      exact hs' ▸ inv_afterLoad h (by rw [hpc]; rfl)
  | unlinkNode op old n =>
      simp only [State.runThread, hpc, Option.some.injEq] at hs'
      rw [hpc] at hok
      simp only [State.nextLists, hpc]
      refine hs' ▸ inv_derefNode h hok.installed (by rw [hpc]; rfl) ?_
      exact ⟨hok.notNil, hok.installed, hok.gen, hok.le, hok.current⟩
  | unlinkNext op old n =>
      simp only [State.runThread, hpc, Option.some.injEq] at hs'
      rw [hpc] at hok
      simp only [State.nextLists, hpc]
      refine hs' ▸ h.goto rfl rfl rfl rfl rfl rfl rfl (by rw [hpc]; rfl) ?_
      exact ⟨⟨hok.notNil, hok.installed, hok.gen, hok.le, hok.current⟩,
        fun _ => rfl⟩
  | unlinkCas op old n nxt =>
      simp only [State.runThread, hpc] at hs'
      split at hs' <;> rename_i hcas <;> obtain rfl := Option.some.inj hs'
      · simp only [State.nextLists, hpc, hcas, if_true]
        simp only [Bool.and_eq_true, Bool.not_eq_true', beq_iff_eq] at hcas
        simp only [Bounded, bounded, hpc, decide_eq_true_eq] at hbound
        exact (inv_unlinkCas h hpc hbound hcas.2).2
      · simp only [State.nextLists, hpc, hcas, if_false, Bool.false_eq_true]
        exact inv_afterLoad h (by rw [hpc]; rfl)
  | fresh v =>
      simp only [Bounded, bounded, hpc, decide_eq_true_eq] at hbound
      simp only [State.nextLists, hpc]
      refine inv_fresh h hpc hbound s' ?_
      simpa only [State.runThread, hpc] using hs'
  | chunkLoad v idx =>
      simp only [State.runThread, hpc] at hs'
      rw [hpc] at hok
      simp only [State.nextLists, hpc]
      split at hs' <;> rename_i hch <;> obtain rfl := Option.some.inj hs'
      · exact h.goto rfl rfl rfl rfl rfl rfl rfl (by rw [hpc]; rfl) ⟨hok, hch⟩
      · exact h.goto rfl rfl rfl rfl rfl rfl rfl (by rw [hpc]; rfl) hok
  | chunkCas v idx =>
      simp only [State.runThread, hpc, Option.some.injEq] at hs'
      rw [hpc] at hok
      simp only [State.nextLists, hpc]
      exact hs' ▸ inv_chunkCas h hpc hok
  | valueNode v idx =>
      simp only [State.runThread, hpc, Option.some.injEq] at hs'
      rw [hpc] at hok
      simp only [State.nextLists, hpc]
      exact hs' ▸ inv_derefNode h hok.installed (by rw [hpc]; rfl)
        (hok.of_eq rfl rfl)
  | valueStore v idx =>
      simp only [State.runThread, hpc, Option.some.injEq] at hs'
      rw [hpc] at hok
      subst hs'
      simp only [State.nextLists, hpc]
      exact inv_write h idx (by rw [hpc]; rfl) rfl rfl rfl
        (fun _ _ => rfl) (fun i hi => Function.update_of_ne hi _ _) rfl rfl rfl
        ⟨hok.of_eq rfl rfl, Function.update_self _ _ _⟩
  | readNode idx =>
      simp only [State.runThread, hpc, Option.some.injEq] at hs'
      rw [hpc] at hok
      simp only [State.nextLists, hpc]
      exact hs' ▸ inv_derefNode h hok.installed (by rw [hpc]; rfl)
        (hok.of_eq rfl rfl)
  | readValue idx =>
      simp only [State.runThread, hpc, Option.some.injEq] at hs'
      rw [hpc] at hok
      simp only [State.nextLists, hpc]
      exact hs' ▸ h.goto rfl rfl rfl rfl rfl rfl rfl (by rw [hpc]; rfl)
        ⟨hok.of_eq rfl rfl, trivial⟩
  | linkNode job idx =>
      simp only [State.runThread, hpc, Option.some.injEq] at hs'
      rw [hpc] at hok
      simp only [State.nextLists, hpc]
      refine hs' ▸ inv_derefNode h hok.1.installed (by rw [hpc]; rfl)
        ⟨hok.1.of_eq rfl rfl, ?_⟩
      cases job <;> exact hok.2
  | linkLoad job idx =>
      simp only [State.runThread, hpc, Option.some.injEq] at hs'
      rw [hpc] at hok
      simp only [State.nextLists, hpc]
      refine hs' ▸ h.goto rfl rfl rfl rfl rfl rfl rfl (by rw [hpc]; rfl)
        ⟨hok.1.of_eq rfl rfl, ?_⟩
      cases job <;> exact hok.2
  | linkStore job idx old =>
      simp only [State.runThread, hpc, Option.some.injEq] at hs'
      rw [hpc] at hok
      subst hs'
      simp only [State.nextLists, hpc]
      refine inv_write h idx (by rw [hpc]; rfl) rfl rfl rfl
        (fun i hi => Function.update_of_ne hi _ _) (fun _ _ => rfl) rfl rfl rfl
        ⟨hok.1.of_eq rfl rfl, ?_, Function.update_self _ _ _⟩
      cases job <;> exact hok.2
  | linkCas job idx old =>
      simp only [State.runThread, hpc] at hs'
      split at hs' <;> rename_i hcas <;> obtain rfl := Option.some.inj hs'
      · simp only [State.nextLists, hpc, hcas, if_true]
        simp only [Bool.and_eq_true, Bool.not_eq_true', beq_iff_eq] at hcas
        exact inv_linkCas h hpc hcas.2
      · simp only [State.nextLists, hpc, hcas, if_false, Bool.false_eq_true]
        rw [hpc] at hok
        refine h.goto rfl rfl rfl rfl rfl rfl rfl (by rw [hpc]; rfl)
          ⟨hok.1.of_eq rfl rfl, ?_⟩
        cases job <;> exact hok.2.1
  | sizeUpdate job =>
      simp only [State.runThread, hpc, Option.some.injEq] at hs'
      simp only [State.nextLists, hpc]
      exact hs' ▸ h.goto rfl rfl rfl rfl rfl rfl rfl (by rw [hpc]; rfl) trivial
  | ret r =>
      simp only [State.runThread, hpc, Option.some.injEq] at hs'
      simp only [State.nextLists, hpc]
      exact hs' ▸ h.goto rfl rfl rfl rfl rfl rfl rfl (by rw [hpc]; rfl) trivial

/-- **Step lemma, a call.** -/
theorem inv_callOp
    {op : Op V} (h : Inv s xs) (hs' : s.callOp t op = some s') : Inv s' xs := by
  simp only [State.callOp] at hs'
  split at hs'
  · rename_i hpc
    obtain rfl := Option.some.inj hs'
    exact h.goto rfl rfl rfl rfl rfl rfl rfl (by rw [hpc]; rfl) trivial
  · cases hs'

/-- The empty stack. -/
theorem inv_initial [Inhabited V] : Inv (initial : State V) fun _ => [] where
  linked := fun _ => rfl
  gen := by
    intro side
    show (generationOf kNil.toUInt64).toNat = 0 % 2 ^ 32
    decide
  nodup := fun _ => List.nodup_nil
  disjoint := fun i hi => by cases hi
  pool := fun side i hi => by cases hi
  owner := fun t i hi => by cases hi
  unique := fun t t' i hi => by cases hi
  accounted := fun i hi => absurd hi.1 (Nat.not_lt_zero _)
  threads := fun _ => trivial

end ProtoST.Runtime.ReadyStack

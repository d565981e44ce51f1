import Mathlib.Data.List.Basic

/-!
# Structured code over relative jumps

A compiler that emits jumps only through a few fixed patterns (a body a
condition may skip, an if-else, a loop with its exit test) produces code whose
control flow is nested.  `Item` is one such pattern, `flatten` lays a list of
them out as flat instructions with relative jumps, and the flat machine and the
nested reading of the code have the same runs.

The straight-line instructions are a type `I` of their own, and what they do is
a `Sem`: a relation between a state, the events of the instruction and either
the next state or an outcome that leaves the code.

## Main results

* `flat_of_exec`, `exec_of_flat` — a complete run of the flat code from the
  start of a fragment is a run of the fragment followed by a run of the rest.
* `completes_iff` — for a whole program: the flat code and the items have the
  same complete runs.
-/

namespace ProtoST.Lib.Structured

universe u v w x

/-! ## Code -/

/-- A flat instruction.  Offsets count instructions from the one after the
jump, forward for `jump` and `jumpIf`, backward for `jumpBack`. -/
inductive Flat (I : Type u) where
  | op (i : I)
  | jump (offset : Nat)
  | jumpIf (sense : Bool) (offset : Nat)
  | jumpBack (offset : Nat)
  deriving DecidableEq, Repr

/-- A piece of nested code. -/
inductive Item (I : Type u) where
  /-- A straight-line instruction. -/
  | op (i : I)
  /-- A body the condition `sense` skips. -/
  | skipIf (sense : Bool) (body : List (Item I))
  /-- `fall` when the condition fails, `target` when it holds. -/
  | branch (sense : Bool) (fall target : List (Item I))
  /-- Run `test`; leave when the condition `sense` holds, else `body` and again. -/
  | loop (test : List (Item I)) (sense : Bool) (body : List (Item I))

variable {I : Type u}

mutual

/-- The flat code of one item. -/
def Item.flatten : Item I → List (Flat I)
  | .op i => [.op i]
  | .skipIf sense body =>
    let b := flatten body
    .jumpIf sense b.length :: b
  | .branch sense fall target =>
    let f := flatten fall
    let t := flatten target
    .jumpIf sense (f.length + 1) :: (f ++ .jump t.length :: t)
  | .loop test sense body =>
    let t := flatten test
    let b := flatten body
    t ++ .jumpIf sense (b.length + 1) :: (b ++ [.jumpBack (t.length + b.length + 2)])

/-- The flat code of a list of items. -/
def flatten : List (Item I) → List (Flat I)
  | [] => []
  | i :: is => i.flatten ++ flatten is

end

@[simp] theorem flatten_nil : flatten ([] : List (Item I)) = [] := rfl

@[simp] theorem flatten_cons (i : Item I) (is : List (Item I)) :
    flatten (i :: is) = i.flatten ++ flatten is := rfl

@[simp] theorem flatten_append (a b : List (Item I)) :
    flatten (a ++ b) = flatten a ++ flatten b := by
  induction a with
  | nil => rfl
  | cons i is ih => simp [ih]

/-! ## Runs of items -/

/-- What the instructions do: `exec i s es r` runs one instruction with the
events `es`, and `test sense s taken s'` takes the operand of a conditional
jump and decides it. -/
structure Sem (I : Type u) (S : Type v) (E : Type w) (O : Type x) where
  exec : I → S → List E → Except O S → Prop
  test : Bool → S → Bool → S → Prop

variable {S : Type v} {E : Type w} {O : Type x} (sem : Sem I S E O)

/-- Complete runs of a list of items. -/
inductive Exec : List (Item I) → S → List E → Except O S → Prop
  | nil {s : S} : Exec [] s [] (.ok s)
  | op {i : I} {is : List (Item I)} {s s' : S} {es es' : List E} {r : Except O S} :
      sem.exec i s es (.ok s') → Exec is s' es' r →
      Exec (.op i :: is) s (es ++ es') r
  | leave {i : I} {is : List (Item I)} {s : S} {es : List E} {o : O} :
      sem.exec i s es (.error o) → Exec (.op i :: is) s es (.error o)
  | skip {sense : Bool} {body is : List (Item I)} {s s' : S} {es : List E}
      {r : Except O S} :
      sem.test sense s true s' → Exec is s' es r →
      Exec (.skipIf sense body :: is) s es r
  | noSkip {sense : Bool} {body is : List (Item I)} {s s' : S} {es : List E}
      {r : Except O S} :
      sem.test sense s false s' → Exec (body ++ is) s' es r →
      Exec (.skipIf sense body :: is) s es r
  | target {sense : Bool} {fall target is : List (Item I)} {s s' : S} {es : List E}
      {r : Except O S} :
      sem.test sense s true s' → Exec (target ++ is) s' es r →
      Exec (.branch sense fall target :: is) s es r
  | fall {sense : Bool} {fall target is : List (Item I)} {s s' : S} {es : List E}
      {r : Except O S} :
      sem.test sense s false s' → Exec (fall ++ is) s' es r →
      Exec (.branch sense fall target :: is) s es r
  | loop {test : List (Item I)} {sense : Bool} {body is : List (Item I)} {s : S}
      {es : List E} {r : Except O S} :
      Exec (test ++ .branch sense (body ++ [.loop test sense body]) [] :: is) s es r →
      Exec (.loop test sense body :: is) s es r

variable {sem}

/-! ## Renamed instructions -/

variable {J : Type u}

mutual

def Item.map (f : J → I) : Item J → Item I
  | .op i => .op (f i)
  | .skipIf sense body => .skipIf sense (mapAll f body)
  | .branch sense fall target => .branch sense (mapAll f fall) (mapAll f target)
  | .loop test sense body => .loop (mapAll f test) sense (mapAll f body)

/-- Code with each instruction `i` as `f i`. -/
def mapAll (f : J → I) : List (Item J) → List (Item I)
  | [] => []
  | i :: is => i.map f :: mapAll f is

end

theorem mapAll_append (f : J → I) (a b : List (Item J)) :
    mapAll f (a ++ b) = mapAll f a ++ mapAll f b := by
  induction a with
  | nil => rfl
  | cons i is ih => rw [List.cons_append, mapAll, mapAll, ih, List.cons_append]

/-- An instruction `i` that does what `f i` does. -/
def Sem.comap (sem : Sem I S E O) (f : J → I) : Sem J S E O := ⟨fun i => sem.exec (f i), sem.test⟩

theorem Exec.map {f : J → I} {c : List (Item J)} {s : S} {es : List E} {r : Except O S}
    (h : Exec (sem.comap f) c s es r) : Exec sem (mapAll f c) s es r := by
  induction h with
  | nil => exact .nil
  | op hi _ ih => exact .op hi ih
  | leave hi => exact .leave hi
  | skip ht _ ih => exact .skip ht ih
  | noSkip ht _ ih =>
    rw [mapAll_append] at ih
    exact .noSkip ht ih
  | target ht _ ih =>
    rw [mapAll_append] at ih
    exact .target ht ih
  | fall ht _ ih =>
    rw [mapAll_append] at ih
    exact .fall ht ih
  | @loop test sense body is s es r _ ih =>
    have hunfolded : mapAll f (test ++ .branch sense (body ++ [.loop test sense body]) [] :: is) =
        mapAll f test ++
          .branch sense (mapAll f body ++ [(Item.loop test sense body).map f]) [] ::
            mapAll f is := by
      rw [mapAll_append, mapAll, Item.map, mapAll_append]
      rfl
    rw [hunfolded] at ih
    exact .loop ih

/-! ## The flat machine -/

variable (sem)

/-- `Completes sem code n pc s es r`: from the program counter `pc` the flat
code runs for `n` instructions and then has ended, off its end or by an
instruction that leaves it. -/
inductive Completes (code : List (Flat I)) :
    Nat → Nat → S → List E → Except O S → Prop
  | off {pc : Nat} {s : S} : code.length ≤ pc → Completes code 0 pc s [] (.ok s)
  | op {n pc : Nat} {i : I} {s s' : S} {es es' : List E} {r : Except O S} :
      code[pc]? = some (.op i) → sem.exec i s es (.ok s') →
      Completes code n (pc + 1) s' es' r → Completes code (n + 1) pc s (es ++ es') r
  | leave {pc : Nat} {i : I} {s : S} {es : List E} {o : O} :
      code[pc]? = some (.op i) → sem.exec i s es (.error o) →
      Completes code 1 pc s es (.error o)
  | jump {n pc offset : Nat} {s : S} {es : List E} {r : Except O S} :
      code[pc]? = some (.jump offset) →
      Completes code n (pc + 1 + offset) s es r → Completes code (n + 1) pc s es r
  | jumpBack {n pc offset : Nat} {s : S} {es : List E} {r : Except O S} :
      code[pc]? = some (.jumpBack offset) →
      Completes code n (pc + 1 - offset) s es r → Completes code (n + 1) pc s es r
  | taken {n pc offset : Nat} {sense : Bool} {s s' : S} {es : List E}
      {r : Except O S} :
      code[pc]? = some (.jumpIf sense offset) → sem.test sense s true s' →
      Completes code n (pc + 1 + offset) s' es r → Completes code (n + 1) pc s es r
  | notTaken {n pc offset : Nat} {sense : Bool} {s s' : S} {es : List E}
      {r : Except O S} :
      code[pc]? = some (.jumpIf sense offset) → sem.test sense s false s' →
      Completes code n (pc + 1) s' es r → Completes code (n + 1) pc s es r

variable {sem}

/-- The fragment `c` stands in `code` at position `pc`. -/
def CodeAt (code : List (Flat I)) (pc : Nat) (c : List (Flat I)) : Prop :=
  ∃ pre post, code = pre ++ c ++ post ∧ pre.length = pc

theorem CodeAt.head {code c : List (Flat I)} {pc : Nat} {f : Flat I}
    (h : CodeAt code pc (f :: c)) : code[pc]? = some f := by
  obtain ⟨pre, post, rfl, rfl⟩ := h
  simp

theorem CodeAt.left {code a b : List (Flat I)} {pc : Nat}
    (h : CodeAt code pc (a ++ b)) : CodeAt code pc a := by
  obtain ⟨pre, post, rfl, rfl⟩ := h
  exact ⟨pre, b ++ post, by simp, rfl⟩

theorem CodeAt.right {code a b : List (Flat I)} {pc : Nat}
    (h : CodeAt code pc (a ++ b)) : CodeAt code (pc + a.length) b := by
  obtain ⟨pre, post, rfl, rfl⟩ := h
  exact ⟨pre ++ a, post, by simp, by simp⟩

theorem CodeAt.tail {code c : List (Flat I)} {pc : Nat} {f : Flat I}
    (h : CodeAt code pc (f :: c)) : CodeAt code (pc + 1) c := by
  have h' : CodeAt code pc ([f] ++ c) := h
  simpa using h'.right

theorem CodeAt.self (code : List (Flat I)) : CodeAt code 0 code :=
  ⟨[], [], by simp, rfl⟩

/-! ## Positions of the flat code -/

/-- At `pc` the flat code has the items `k` left to run. -/
inductive Located (code : List (Flat I)) : Nat → List (Item I) → Prop
  | off {pc : Nat} : code.length ≤ pc → Located code pc []
  | items {pc : Nat} {c k : List (Item I)} :
      CodeAt code pc (flatten c) → Located code (pc + (flatten c).length) k →
      Located code pc (c ++ k)
  | jump {pc offset : Nat} {k : List (Item I)} :
      code[pc]? = some (.jump offset) → Located code (pc + 1 + offset) k →
      Located code pc k
  /-- The exit test of a loop that starts at `start`. -/
  | retest {start : Nat} {test : List (Item I)} {sense : Bool} {body k : List (Item I)} :
      CodeAt code start (Item.loop test sense body).flatten →
      Located code (start + (Item.loop test sense body).flatten.length) k →
      Located code (start + (flatten test).length)
        (.branch sense (body ++ [.loop test sense body]) [] :: k)
  /-- The backward jump of a loop that starts at `start`. -/
  | back {start offset pc : Nat} {test : List (Item I)} {sense : Bool}
      {body k : List (Item I)} :
      code[pc]? = some (.jumpBack offset) → pc + 1 - offset = start →
      CodeAt code start (Item.loop test sense body).flatten →
      Located code (start + (Item.loop test sense body).flatten.length) k →
      Located code pc (.loop test sense body :: k)

/-- `Silent code m pc pc'`: `m` unconditional jumps lead from `pc` to `pc'`. -/
inductive Silent (code : List (Flat I)) : Nat → Nat → Nat → Prop
  | refl {pc : Nat} : Silent code 0 pc pc
  | jump {m pc offset pc' : Nat} :
      code[pc]? = some (.jump offset) → Silent code m (pc + 1 + offset) pc' →
      Silent code (m + 1) pc pc'
  | jumpBack {m pc offset pc' : Nat} :
      code[pc]? = some (.jumpBack offset) → Silent code m (pc + 1 - offset) pc' →
      Silent code (m + 1) pc pc'

theorem Silent.completes {code : List (Flat I)} {m n pc pc' : Nat} {s : S}
    {es : List E} {r : Except O S} (h : Silent code m pc pc')
    (hrun : Completes sem code n pc' s es r) : Completes sem code (n + m) pc s es r := by
  induction h with
  | refl => exact hrun
  | jump hj _ ih => exact .jump hj (ih hrun)
  | jumpBack hj _ ih => exact .jumpBack hj (ih hrun)

theorem Silent.of_completes {code : List (Flat I)} {m n pc pc' : Nat} {s : S}
    {es : List E} {r : Except O S} (h : Silent code m pc pc')
    (hrun : Completes sem code n pc s es r) :
    ∃ n', n' ≤ n ∧ Completes sem code n' pc' s es r := by
  induction h generalizing n with
  | refl => exact ⟨n, Nat.le_refl n, hrun⟩
  | jump hj _ ih =>
    have hlt := (List.getElem?_eq_some_iff.mp hj).1
    cases hrun with
    | off hoff => omega
    | jump hj' hrun =>
      rw [hj] at hj'
      cases hj'
      obtain ⟨n', hn', hrun⟩ := ih hrun
      exact ⟨n', by omega, hrun⟩
    | op h' | leave h' | jumpBack h' | taken h' | notTaken h' => simp [hj] at h'
  | jumpBack hj _ ih =>
    have hlt := (List.getElem?_eq_some_iff.mp hj).1
    cases hrun with
    | off hoff => omega
    | jumpBack hj' hrun =>
      rw [hj] at hj'
      cases hj'
      obtain ⟨n', hn', hrun⟩ := ih hrun
      exact ⟨n', by omega, hrun⟩
    | op h' | leave h' | jump h' | taken h' | notTaken h' => simp [hj] at h'

/-- What stands at `pc` when the items `k` are left: the first instruction of
`k`, and where its successors are. -/
def Head (code : List (Flat I)) (pc : Nat) : List (Item I) → Prop
  | [] => code.length ≤ pc
  | .op i :: k => code[pc]? = some (.op i) ∧ Located code (pc + 1) k
  | .skipIf sense body :: k =>
    ∃ offset, code[pc]? = some (.jumpIf sense offset) ∧
      Located code (pc + 1) (body ++ k) ∧ Located code (pc + 1 + offset) k
  | .branch sense fall target :: k =>
    ∃ offset, code[pc]? = some (.jumpIf sense offset) ∧
      Located code (pc + 1) (fall ++ k) ∧ Located code (pc + 1 + offset) (target ++ k)
  | .loop test sense body :: k =>
    Located code pc (test ++ .branch sense (body ++ [.loop test sense body]) [] :: k)

/-- A located item stands at `pc` itself. -/
theorem head_of_codeAt {code : List (Flat I)} {pc : Nat} {i : Item I}
    {k : List (Item I)} (hat : CodeAt code pc i.flatten)
    (hk : Located code (pc + i.flatten.length) k) : Head code pc (i :: k) := by
  cases i with
  | op i => exact ⟨hat.head, hk⟩
  | skipIf sense body =>
    have hlen : pc + (Item.skipIf sense body).flatten.length
        = pc + 1 + (flatten body).length := by
      simp only [Item.flatten, List.length_cons]
      omega
    rw [hlen] at hk
    exact ⟨_, hat.head, .items hat.tail hk, hk⟩
  | branch sense fall target =>
    have hlen : pc + (Item.branch sense fall target).flatten.length
        = pc + 1 + (flatten fall).length + 1 + (flatten target).length := by
      simp only [Item.flatten, List.length_cons, List.length_append]
      omega
    rw [hlen] at hk
    have htarget := hat.tail.right.tail
    have hjump := Located.jump hat.tail.right.head hk
    have hpos : pc + 1 + ((flatten fall).length + 1) = pc + 1 + (flatten fall).length + 1 := by
      omega
    refine ⟨_, hat.head, .items hat.tail.left hjump, ?_⟩
    rw [hpos]
    exact .items htarget hk
  | loop test sense body => exact .items hat.left (.retest hat hk)

/-- The exit test of a loop stands between its test and its body. -/
theorem head_retest {code : List (Flat I)} {start : Nat} {test : List (Item I)}
    {sense : Bool} {body k : List (Item I)}
    (hat : CodeAt code start (Item.loop test sense body).flatten)
    (hk : Located code (start + (Item.loop test sense body).flatten.length) k) :
    Head code (start + (flatten test).length)
      (.branch sense (body ++ [.loop test sense body]) [] :: k) := by
  have hexit : start + (Item.loop test sense body).flatten.length
      = start + (flatten test).length + 1 + ((flatten body).length + 1) := by
    simp only [Item.flatten, List.length_cons, List.length_append, List.length_nil]
    omega
  have hback := hat.right.tail.right.head
  have hstart : start + (flatten test).length + 1 + (flatten body).length + 1
      - ((flatten test).length + (flatten body).length + 2) = start := by
    omega
  refine ⟨_, hat.right.head, ?_, ?_⟩
  · rw [List.append_assoc]
    exact .items hat.right.tail.left (.back hback hstart hat hk)
  · rw [← hexit]
    exact hk

/-- **Positions.** Jumps lead from a position with `k` left to the first
instruction of `k`. -/
theorem Located.head {code : List (Flat I)} {pc : Nat} {k : List (Item I)}
    (h : Located code pc k) : ∃ m pc', Silent code m pc pc' ∧ Head code pc' k := by
  induction h with
  | @off pc hoff => exact ⟨0, pc, .refl, hoff⟩
  | @items pc c k hat hk ih =>
    cases c with
    | nil => simpa using ih
    | cons i c =>
      refine ⟨0, pc, .refl, ?_⟩
      rw [List.cons_append]
      apply head_of_codeAt hat.left
      apply Located.items hat.right
      rwa [Nat.add_assoc, ← List.length_append, ← flatten_cons]
  | jump hj _ ih =>
    obtain ⟨m, pc', hs, hh⟩ := ih
    exact ⟨m + 1, pc', .jump hj hs, hh⟩
  | retest hat hk _ => exact ⟨0, _, .refl, head_retest hat hk⟩
  | back hj hstart hat hk _ =>
    subst hstart
    exact ⟨1, _, .jumpBack hj .refl, head_of_codeAt hat hk⟩

/-! ## The flat code runs the items -/

/-- A run of the items left is a run of the flat code from there. -/
theorem flat_of_exec {code : List (Flat I)} {k : List (Item I)} {s : S}
    {es : List E} {r : Except O S} (h : Exec sem k s es r) {pc : Nat}
    (hat : Located code pc k) : ∃ n, Completes sem code n pc s es r := by
  induction h generalizing pc with
  | nil =>
    obtain ⟨m, pc', hs, hh⟩ := hat.head
    exact ⟨_, hs.completes (.off hh)⟩
  | op hi _ ih =>
    obtain ⟨m, pc', hs, hcode, hk⟩ := hat.head
    obtain ⟨n, hn⟩ := ih hk
    exact ⟨_, hs.completes (.op hcode hi hn)⟩
  | leave hi =>
    obtain ⟨m, pc', hs, hcode, hk⟩ := hat.head
    exact ⟨_, hs.completes (.leave hcode hi)⟩
  | skip ht _ ih =>
    obtain ⟨m, pc', hs, offset, hcode, hbody, hk⟩ := hat.head
    obtain ⟨n, hn⟩ := ih hk
    exact ⟨_, hs.completes (.taken hcode ht hn)⟩
  | noSkip ht _ ih =>
    obtain ⟨m, pc', hs, offset, hcode, hbody, hk⟩ := hat.head
    obtain ⟨n, hn⟩ := ih hbody
    exact ⟨_, hs.completes (.notTaken hcode ht hn)⟩
  | target ht _ ih =>
    obtain ⟨m, pc', hs, offset, hcode, hfall, htarget⟩ := hat.head
    obtain ⟨n, hn⟩ := ih htarget
    exact ⟨_, hs.completes (.taken hcode ht hn)⟩
  | fall ht _ ih =>
    obtain ⟨m, pc', hs, offset, hcode, hfall, htarget⟩ := hat.head
    obtain ⟨n, hn⟩ := ih hfall
    exact ⟨_, hs.completes (.notTaken hcode ht hn)⟩
  | loop _ ih =>
    obtain ⟨m, pc', hs, hh⟩ := hat.head
    obtain ⟨n, hn⟩ := ih hh
    exact ⟨_, hs.completes hn⟩

mutual

/-- How many loops start with the first instruction of an item. -/
def Item.heading : Item I → Nat
  | .op _ => 0
  | .skipIf _ _ => 0
  | .branch _ _ _ => 0
  | .loop test _ _ => heading test + 1

/-- How many loops start with the first instruction of a list of items. -/
def heading : List (Item I) → Nat
  | [] => 0
  | i :: _ => i.heading

end

/-- Opening a loop leaves fewer loops that start here. -/
theorem heading_unfold (test : List (Item I)) (sense : Bool)
    (body k : List (Item I)) :
    heading (test ++ .branch sense (body ++ [.loop test sense body]) [] :: k)
      < heading (.loop test sense body :: k) := by
  cases test with
  | nil => simp [heading, Item.heading]
  | cons i test => simp [heading, Item.heading]

/-- A complete run of the flat code is a run of the items left.  The induction
is on the instructions left to run, and on the loops to open before the next. -/
theorem exec_of_flat {code : List (Flat I)} {n pc : Nat} {k : List (Item I)}
    {s : S} {es : List E} {r : Except O S} (hat : Located code pc k)
    (h : Completes sem code n pc s es r) : Exec sem k s es r := by
  obtain ⟨m, pc', hs, hh⟩ := hat.head
  obtain ⟨n', hle, hrun⟩ := hs.of_completes h
  match k, hh with
  | [], hoff =>
    cases hrun with
    | off _ => exact .nil
    | op h' | leave h' | jump h' | jumpBack h' | taken h' | notTaken h' =>
      have hlt := (List.getElem?_eq_some_iff.mp h').1
      have hoff' : code.length ≤ pc' := hoff
      omega
  | .op i :: k, ⟨hcode, hk⟩ =>
    have hlt := (List.getElem?_eq_some_iff.mp hcode).1
    cases hrun with
    | off hoff => omega
    | op h' hi hrun =>
      rw [hcode] at h'
      cases h'
      exact .op hi (exec_of_flat hk hrun)
    | leave h' hi =>
      rw [hcode] at h'
      cases h'
      exact .leave hi
    | jump h' | jumpBack h' | taken h' | notTaken h' => simp [hcode] at h'
  | .skipIf sense body :: k, ⟨offset, hcode, hbody, hk⟩ =>
    have hlt := (List.getElem?_eq_some_iff.mp hcode).1
    cases hrun with
    | off hoff => omega
    | taken h' ht hrun =>
      rw [hcode] at h'
      cases h'
      exact .skip ht (exec_of_flat hk hrun)
    | notTaken h' ht hrun =>
      rw [hcode] at h'
      cases h'
      exact .noSkip ht (exec_of_flat hbody hrun)
    | op h' | leave h' | jump h' | jumpBack h' => simp [hcode] at h'
  | .branch sense fall target :: k, ⟨offset, hcode, hfall, htarget⟩ =>
    have hlt := (List.getElem?_eq_some_iff.mp hcode).1
    cases hrun with
    | off hoff => omega
    | taken h' ht hrun =>
      rw [hcode] at h'
      cases h'
      exact .target ht (exec_of_flat htarget hrun)
    | notTaken h' ht hrun =>
      rw [hcode] at h'
      cases h'
      exact .fall ht (exec_of_flat hfall hrun)
    | op h' | leave h' | jump h' | jumpBack h' => simp [hcode] at h'
  | .loop test sense body :: k, hh =>
    have hlt := heading_unfold test sense body k
    exact .loop (exec_of_flat hh hrun)
termination_by (n, heading k)
decreasing_by
  all_goals first
    | exact Prod.Lex.left _ _ (by omega)
    | rcases Nat.lt_or_eq_of_le hle with h | rfl
      · exact Prod.Lex.left _ _ h
      · exact Prod.Lex.right _ hlt

/-- At the start of a program all of it is left. -/
theorem located_start (c : List (Item I)) : Located (flatten c) 0 c := by
  have h := Located.items (CodeAt.self (flatten c)) (k := [])
    (.off (Nat.le_of_eq (Nat.zero_add _).symm))
  rwa [List.append_nil] at h

/-- **The flat code and the items have the same complete runs.** -/
theorem completes_iff {c : List (Item I)} {s : S} {es : List E} {r : Except O S} :
    (∃ n, Completes sem (flatten c) n 0 s es r) ↔ Exec sem c s es r := by
  constructor
  · rintro ⟨n, h⟩
    exact exec_of_flat (located_start c) h
  · intro h
    exact flat_of_exec h (located_start c)

end ProtoST.Lib.Structured

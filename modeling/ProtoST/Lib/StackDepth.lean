import ProtoST.Lib.Structured

/-!
# Operand depths of structured code

Each instruction of a stack machine reads some values off the operand stack and
leaves others.  `Fits eff M c d e` says that the code `c`, entered with `d`
values on the stack, ends with `e`, that every instruction of it finds the
values it reads, and that no instruction leaves more than `M` values.  Code
behind an instruction that leaves the code keeps the depth in front of it.

## Main results

* `Fits.append`, `Fits.mono` — code in sequence, and a larger bound.
* `Path.sound` — on every path through the flat code of a program that fits,
  every instruction finds the values it reads and keeps the bound.
-/

namespace ProtoST.Lib.StackDepth

open ProtoST.Lib.Structured

universe u

/-- The stack effect of the instructions: how many values an instruction reads
off the top, how many it puts there instead, whether it leaves the code, and
what is known of its operands. -/
structure Effect (I : Type u) where
  reads : I → Nat
  pushes : I → Nat
  leaves : I → Bool
  legal : I → Prop

variable {I : Type u} (eff : Effect I)

/-- The depth after an instruction that starts at depth `d`. -/
def Effect.after (i : I) (d : Nat) : Nat := d - eff.reads i + eff.pushes i

/-- `Fits eff M c d e`: the code `c` takes the depth `d` to `e` within `M`. -/
inductive Fits (M : Nat) : List (Item I) → Nat → Nat → Prop
  | nil {d : Nat} : Fits M [] d d
  | op {i : I} {is : List (Item I)} {d e : Nat} :
      eff.legal i → eff.leaves i = false → eff.reads i ≤ d → eff.after i d ≤ M →
      Fits M is (eff.after i d) e → Fits M (.op i :: is) d e
  | leave {i : I} {is : List (Item I)} {d e : Nat} :
      eff.legal i → eff.leaves i = true → eff.reads i ≤ d → Fits M is d e →
      Fits M (.op i :: is) d e
  | skipIf {sense : Bool} {body is : List (Item I)} {d e : Nat} :
      Fits M body d d → Fits M is d e → Fits M (.skipIf sense body :: is) (d + 1) e
  | branch {sense : Bool} {fall target is : List (Item I)} {d d' e : Nat} :
      Fits M fall d d' → Fits M target d d' → Fits M is d' e →
      Fits M (.branch sense fall target :: is) (d + 1) e
  | loop {test : List (Item I)} {sense : Bool} {body is : List (Item I)} {d e : Nat} :
      Fits M test d (d + 1) → Fits M body d d → Fits M is d e →
      Fits M (.loop test sense body :: is) d e

variable {eff} {M : Nat}

/-- Code in sequence. -/
theorem Fits.append {a b : List (Item I)} {d e f : Nat}
    (ha : Fits eff M a d e) (hb : Fits eff M b e f) : Fits eff M (a ++ b) d f := by
  induction ha with
  | nil => exact hb
  | op hi hl hr hM _ ih => exact .op hi hl hr hM (ih hb)
  | leave hi hl hr _ ih => exact .leave hi hl hr (ih hb)
  | skipIf hbody _ _ ih => exact .skipIf hbody (ih hb)
  | branch hf ht _ _ _ ih => exact .branch hf ht (ih hb)
  | loop ht hbody _ _ _ ih => exact .loop ht hbody (ih hb)

variable {c : List (Item I)}

/-- A larger bound. -/
theorem Fits.mono {M M' : Nat} (hle : M ≤ M') {d e : Nat}
    (h : Fits eff M c d e) : Fits eff M' c d e := by
  induction h with
  | nil => exact .nil
  | op hi hl hr hM _ ih => exact .op hi hl hr (Nat.le_trans hM hle) ih
  | leave hi hl hr _ ih => exact .leave hi hl hr ih
  | skipIf _ _ ihb ih => exact .skipIf ihb ih
  | branch _ _ _ ihf iht ih => exact .branch ihf iht ih
  | loop _ _ _ iht ihb ih => exact .loop iht ihb ih

/-- Code that takes `d` to `e` within some bound. -/
def Takes (eff : Effect I) (c : List (Item I)) (d e : Nat) : Prop :=
  ∃ M, Fits eff M c d e

variable {d : Nat}

theorem Takes.nil : Takes eff [] d d := ⟨0, .nil⟩

theorem Takes.append {a b : List (Item I)} {d e f : Nat} (ha : Takes eff a d e)
    (hb : Takes eff b e f) : Takes eff (a ++ b) d f := by
  obtain ⟨M, ha⟩ := ha
  obtain ⟨M', hb⟩ := hb
  exact ⟨max M M', (ha.mono (Nat.le_max_left M M')).append (hb.mono (Nat.le_max_right M M'))⟩

theorem Takes.op {i : I} (hi : eff.legal i) (hl : eff.leaves i = false)
    (hr : eff.reads i ≤ d) : Takes eff [.op i] d (eff.after i d) :=
  ⟨eff.after i d, .op hi hl hr (Nat.le_refl _) .nil⟩

theorem Takes.leave {i : I} (hi : eff.legal i) (hl : eff.leaves i = true)
    (hr : eff.reads i ≤ d) : Takes eff [.op i] d d :=
  ⟨0, .leave hi hl hr .nil⟩

variable {sense : Bool}

theorem Takes.skipIf {body : List (Item I)}
    (hbody : Takes eff body d d) : Takes eff [.skipIf sense body] (d + 1) d := by
  obtain ⟨M, hbody⟩ := hbody
  exact ⟨M, .skipIf hbody .nil⟩

theorem Takes.branch {fall target : List (Item I)} {d e : Nat}
    (hf : Takes eff fall d e) (ht : Takes eff target d e) :
    Takes eff [.branch sense fall target] (d + 1) e := by
  obtain ⟨M, hf⟩ := hf
  obtain ⟨M', ht⟩ := ht
  exact ⟨max M M', .branch (hf.mono (Nat.le_max_left M M'))
    (ht.mono (Nat.le_max_right M M')) .nil⟩

theorem Takes.loop {test : List (Item I)} {body : List (Item I)}
    (ht : Takes eff test d (d + 1)) (hb : Takes eff body d d) :
    Takes eff [.loop test sense body] d d := by
  obtain ⟨M, ht⟩ := ht
  obtain ⟨M', hb⟩ := hb
  exact ⟨max M M', .loop (ht.mono (Nat.le_max_left M M'))
    (hb.mono (Nat.le_max_right M M')) .nil⟩

/-! ## Paths through the flat code -/

variable (eff)

/-- `Path eff code pc d`: some execution reaches `pc` with `d` values on the
operand stack.  A conditional jump may go either way. -/
inductive Path (code : List (Flat I)) : Nat → Nat → Prop
  | start : Path code 0 0
  | op {pc d : Nat} {i : I} :
      Path code pc d → code[pc]? = some (.op i) → eff.leaves i = false →
      eff.reads i ≤ d → Path code (pc + 1) (eff.after i d)
  | jump {pc d offset : Nat} :
      Path code pc d → code[pc]? = some (.jump offset) → Path code (pc + 1 + offset) d
  | jumpBack {pc d offset : Nat} :
      Path code pc d → code[pc]? = some (.jumpBack offset) →
      Path code (pc + 1 - offset) d
  | taken {pc d offset : Nat} {sense : Bool} :
      Path code pc (d + 1) → code[pc]? = some (.jumpIf sense offset) →
      Path code (pc + 1 + offset) d
  | notTaken {pc d offset : Nat} {sense : Bool} :
      Path code pc (d + 1) → code[pc]? = some (.jumpIf sense offset) →
      Path code (pc + 1) d

variable {eff}

/-- The items left at a position fit at the depth there. -/
def FitsAt (eff : Effect I) (M : Nat) (code : List (Flat I)) (pc d : Nat) : Prop :=
  ∃ k m pc' e, Silent code m pc pc' ∧ Head code pc' k ∧ Fits eff M k d e

variable {code : List (Flat I)}

theorem FitsAt.of_located {k : List (Item I)} {pc d e : Nat} (hat : Located code pc k)
    (hfits : Fits eff M k d e) :
    FitsAt eff M code pc d := by
  obtain ⟨m, pc', hs, hh⟩ := hat.head
  exact ⟨k, m, pc', e, hs, hh, hfits⟩

/-- The turn of a loop that is about to start fits where the loop does. -/
theorem Fits.unfold_loop {test : List (Item I)} {body k : List (Item I)} {d e : Nat}
    (h : Fits eff M (.loop test sense body :: k) d e) :
    Fits eff M (test ++ .branch sense (body ++ [.loop test sense body]) [] :: k) d e := by
  cases h with
  | loop ht hb hk =>
    have hloop : Fits eff M [.loop test sense body] d d := .loop ht hb .nil
    exact ht.append (.branch (hb.append hloop) .nil hk)

/-- What one instruction at a position that fits finds, and where it goes on. -/
structure Goes (eff : Effect I) (M : Nat) (code : List (Flat I)) (pc d : Nat) : Prop where
  op : ∀ i, code[pc]? = some (.op i) → eff.reads i ≤ d ∧
    (eff.leaves i = false → eff.after i d ≤ M ∧ FitsAt eff M code (pc + 1) (eff.after i d))
  jump : ∀ offset, code[pc]? = some (.jump offset) → FitsAt eff M code (pc + 1 + offset) d
  jumpBack : ∀ offset, code[pc]? = some (.jumpBack offset) →
    FitsAt eff M code (pc + 1 - offset) d
  jumpIf : ∀ sense offset, code[pc]? = some (.jumpIf sense offset) → ∃ d', d = d' + 1 ∧
    FitsAt eff M code (pc + 1) d' ∧ FitsAt eff M code (pc + 1 + offset) d'

/-- A silent jump keeps the items left. -/
theorem goes_of_silent {k : List (Item I)} {m pc pc' d e : Nat}
    (hs : Silent code (m + 1) pc pc') (hh : Head code pc' k)
    (hfits : Fits eff M k d e) : Goes eff M code pc d := by
  cases hs with
  | jump hj hs =>
    refine ⟨?_, ?_, ?_, ?_⟩
    · intro i hi
      simp [hj] at hi
    · intro offset hoffset
      rw [hj] at hoffset
      cases hoffset
      exact ⟨k, m, pc', e, hs, hh, hfits⟩
    · intro offset hoffset
      simp [hj] at hoffset
    · intro sense offset hoffset
      simp [hj] at hoffset
  | jumpBack hj hs =>
    refine ⟨?_, ?_, ?_, ?_⟩
    · intro i hi
      simp [hj] at hi
    · intro offset hoffset
      simp [hj] at hoffset
    · intro offset hoffset
      rw [hj] at hoffset
      cases hoffset
      exact ⟨k, m, pc', e, hs, hh, hfits⟩
    · intro sense offset hoffset
      simp [hj] at hoffset

/-- The first instruction of the items left. -/
theorem goes_of_head {k : List (Item I)} {pc d e : Nat} (hh : Head code pc k)
    (hfits : Fits eff M k d e) :
    Goes eff M code pc d := by
  match k, hh, hfits with
  | [], hoff, _ =>
    have hnone : code[pc]? = none := List.getElem?_eq_none hoff
    refine ⟨?_, ?_, ?_, ?_⟩ <;> simp [hnone]
  | .op i :: k, ⟨hcode, hk⟩, hfits =>
    refine ⟨?_, ?_, ?_, ?_⟩
    · intro i' hi'
      rw [hcode] at hi'
      cases hi'
      cases hfits with
      | op _ hl hr hM hfits => exact ⟨hr, fun _ => ⟨hM, .of_located hk hfits⟩⟩
      | leave _ hl hr _ =>
        refine ⟨hr, fun hl' => ?_⟩
        rw [hl] at hl'
        cases hl'
    all_goals simp [hcode]
  | .skipIf sense body :: k, ⟨offset, hcode, hbody, hk⟩, .skipIf hb hfits =>
    refine ⟨?_, ?_, ?_, ?_⟩
    case refine_4 =>
      intro sense' offset' ho
      rw [hcode] at ho
      cases ho
      exact ⟨_, rfl, .of_located hbody (hb.append hfits), .of_located hk hfits⟩
    all_goals simp [hcode]
  | .branch sense fall target :: k, ⟨offset, hcode, hfall, htarget⟩, .branch hf ht hfits =>
    refine ⟨?_, ?_, ?_, ?_⟩
    case refine_4 =>
      intro sense' offset' ho
      rw [hcode] at ho
      cases ho
      exact ⟨_, rfl, .of_located hfall (hf.append hfits), .of_located htarget (ht.append hfits)⟩
    all_goals simp [hcode]
  | .loop test sense body :: k, hh, hfits =>
    have hat : Located code pc
        (test ++ .branch sense (body ++ [.loop test sense body]) [] :: k) := hh
    obtain ⟨m, pc', hs, hh'⟩ := hat.head
    have hlt := heading_unfold test sense body k
    cases m with
    | zero =>
      cases hs
      exact goes_of_head hh' hfits.unfold_loop
    | succ m => exact goes_of_silent hs hh' hfits.unfold_loop
termination_by heading k

theorem FitsAt.goes {pc d : Nat} (h : FitsAt eff M code pc d) : Goes eff M code pc d := by
  obtain ⟨k, m, pc', e, hs, hh, hfits⟩ := h
  cases m with
  | zero =>
    cases hs
    exact goes_of_head hh hfits
  | succ m => exact goes_of_silent hs hh hfits

/-- **Paths.** On every path through a program that fits, the items left fit at
the depth reached, which is within the bound. -/
theorem Path.fitsAt {e pc d : Nat} (hfits : Fits eff M c 0 e) (h : Path eff (flatten c) pc d) :
    FitsAt eff M (flatten c) pc d ∧ d ≤ M := by
  induction h with
  | start => exact ⟨.of_located (located_start c) hfits, Nat.zero_le M⟩
  | op _ hi hl _ ih =>
    have hstep := (ih.1.goes.op _ hi).2 hl
    exact ⟨hstep.2, hstep.1⟩
  | jump _ hj ih => exact ⟨ih.1.goes.jump _ hj, ih.2⟩
  | jumpBack _ hj ih => exact ⟨ih.1.goes.jumpBack _ hj, ih.2⟩
  | taken _ hj ih =>
    obtain ⟨d', hd', -, htarget⟩ := ih.1.goes.jumpIf _ _ hj
    cases hd'
    exact ⟨htarget, Nat.le_of_succ_le ih.2⟩
  | notTaken _ hj ih =>
    obtain ⟨d', hd', hnext, -⟩ := ih.1.goes.jumpIf _ _ hj
    cases hd'
    exact ⟨hnext, Nat.le_of_succ_le ih.2⟩

/-- **Soundness of the depths.** -/
theorem Path.sound {e pc d : Nat} (hfits : Fits eff M c 0 e) (h : Path eff (flatten c) pc d) :
    d ≤ M ∧
      (∀ i, (flatten c)[pc]? = some (.op i) →
        eff.reads i ≤ d ∧ (eff.leaves i = false → eff.after i d ≤ M)) ∧
      (∀ sense offset, (flatten c)[pc]? = some (.jumpIf sense offset) → 1 ≤ d) := by
  obtain ⟨hat, hd⟩ := h.fitsAt hfits
  refine ⟨hd, ?_, ?_⟩
  · intro i hi
    obtain ⟨hr, hstep⟩ := hat.goes.op i hi
    exact ⟨hr, fun hl => (hstep hl).1⟩
  · intro sense offset hj
    obtain ⟨d', rfl, -⟩ := hat.goes.jumpIf sense offset hj
    omega

/-! ## Runs -/

variable (eff) in
/-- A machine of which only the depth of the stack is known, and that may stop at any instruction.
An instruction reports what is left under the values it reads, and the depth it leaves. -/
def heights : Sem I Int Int Unit where
  exec i d es r :=
    if eff.leaves i then es = [d - eff.reads i] ∧ r = .error ()
    else
      let after := d - eff.reads i + eff.pushes i
      es = [d - eff.reads i, after] ∧ (r = .error () ∨ r = .ok after)
  test _ d _ d' := d' = d - 1

variable {r : Except Unit Int} {es : List Int}

theorem heights_leaves {i : I} {d : Int} (hleaves : eff.leaves i = true) :
    (heights eff).exec i d es r ↔ es = [d - eff.reads i] ∧ r = .error () := by
  show (if eff.leaves i = true then _ else _) ↔ _
  rw [if_pos hleaves]

theorem heights_stays {i : I} {d : Int} (hstays : eff.leaves i = false) :
    (heights eff).exec i d es r ↔ es = [d - eff.reads i, d - eff.reads i + eff.pushes i] ∧
      (r = .error () ∨ r = .ok (d - eff.reads i + eff.pushes i)) := by
  show (if eff.leaves i = true then _ else _) ↔ _
  rw [if_neg (by rw [hstays]; exact Bool.false_ne_true)]

/-- The first instruction of code that fits. -/
theorem Fits.heights_op {i : I} {is : List (Item I)} {d e : Nat} {s : Int}
    (hfits : Fits eff M (.op i :: is) d e) (hs : s = d) (hd : d ≤ M)
    (h : (heights eff).exec i s es r) : ∀ v ∈ es, 0 ≤ v ∧ v ≤ M := by
  intro v hv
  cases hfits with
  | leave _ hleaves hreads _ =>
    rw [heights_leaves hleaves] at h
    rw [h.1, List.mem_singleton] at hv
    omega
  | op _ hleaves hreads hafter _ =>
    rw [heights_stays hleaves] at h
    rw [h.1, List.mem_pair] at hv
    unfold Effect.after at hafter
    omega

/-- In a run of code that fits no instruction takes a value that is not there, and none leaves more
than the bound. -/
theorem Fits.heights {s : Int} (h : Exec (heights eff) c s es r) :
    ∀ {d e : Nat}, s = d → d ≤ M → Fits eff M c d e → ∀ v ∈ es, 0 ≤ v ∧ v ≤ M := by
  induction h with
  | nil => exact fun _ _ _ v hv => absurd hv List.not_mem_nil
  | op hexec _ ih =>
    intro d e hs hd hfits v hv
    rcases List.mem_append.mp hv with hv | hv
    · exact hfits.heights_op hs hd hexec v hv
    · cases hfits with
      | leave _ hleaves _ _ =>
        cases ((heights_leaves hleaves).mp hexec).2
      | op _ hleaves hreads hafter hrest =>
        rcases ((heights_stays hleaves).mp hexec).2 with hstop | hnext
        · cases hstop
        · cases hnext
          exact ih (by unfold Effect.after; omega) hafter hrest v hv
  | leave hexec => exact fun hs hd hfits => hfits.heights_op hs hd hexec
  | skip ht _ ih =>
    intro d e hs hd hfits
    cases hfits with
    | skipIf hbody hrest => exact ih (by rw [ht, hs]; omega) (Nat.le_of_succ_le hd) hrest
  | noSkip ht _ ih =>
    intro d e hs hd hfits
    cases hfits with
    | skipIf hbody hrest =>
      exact ih (by rw [ht, hs]; omega) (Nat.le_of_succ_le hd) (hbody.append hrest)
  | target ht _ ih =>
    intro d e hs hd hfits
    cases hfits with
    | branch hfall htarget hrest =>
      exact ih (by rw [ht, hs]; omega) (Nat.le_of_succ_le hd) (htarget.append hrest)
  | fall ht _ ih =>
    intro d e hs hd hfits
    cases hfits with
    | branch hfall htarget hrest =>
      exact ih (by rw [ht, hs]; omega) (Nat.le_of_succ_le hd) (hfall.append hrest)
  | loop _ ih =>
    intro d e hs hd hfits
    cases hfits with
    | loop htest hbody hrest =>
      exact ih hs hd (htest.append (.branch (hbody.append (.loop htest hbody .nil)) .nil hrest))

end ProtoST.Lib.StackDepth

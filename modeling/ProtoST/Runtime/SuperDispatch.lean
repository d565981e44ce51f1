import ProtoST.Runtime.ClassGraphSound

/-!
# `super`

A `super` send walks the receiver's parents for the class whose `__class_id__` is
stamped on the running method, at most 4096 objects far, and looks the selector up on
the parents of the class it finds.

## Main results

* `super_send_next` — in every graph built without a class over two copies of one,
  a `super` send that meets no class-side method first runs the first implementation
  after the class of the running method, and a chain of `super` sends ends.
* `super_send_loops` — a class with its own subclass as a behaviour.
-/

namespace ProtoST.Runtime

open ProtoST.Lib ProtoST.Runtime.Dispatch

/-! ## The walk -/

namespace Dispatch.Space

variable {Obj : Type} (sp : Space Obj)

/-- The objects the search for the defining class looks at, in order. -/
def superWalk : Nat → List Obj → List Obj
  | 0, _ | _ + 1, [] => []
  | hops + 1, node :: stack =>
      if sp.kind node = .nil then superWalk hops stack
      else node :: superWalk hops (sp.getParents node ++ stack)

variable {sp}

theorem findDefiningClass_eq (cls : String) (id : Int) (hops : Nat) (stack : List Obj) :
    sp.findDefiningClass cls id hops stack =
      (sp.superWalk hops stack).find? (sp.defines cls id) := by
  induction hops generalizing stack with
  | zero => rfl
  | succ hops ih =>
      cases stack with
      | nil => rfl
      | cons node stack =>
          unfold findDefiningClass superWalk
          split
          · exact ih stack
          · split
            · rename_i hdefines
              rw [List.find?_cons_of_pos hdefines]
            · rename_i hdefines
              rw [List.find?_cons_of_neg hdefines]
              exact ih _

/-- The lookup once the defining class is found. -/
theorem superLookup_of_found {cls selector : String} {id : Int} {recv found p : Obj}
    {parents : List Obj} (hname : cls ≠ "")
    (hfound : (sp.findDefiningClass cls id 4096 [recv]).or
      (sp.getAttribute sp.globals cls) = some found)
    (hparents : sp.getParents found = p :: parents) :
    sp.superLookup cls id recv selector =
      .ok ((sp.getParents found).findSome? fun parent => sp.getAttribute parent selector) := by
  unfold superLookup
  simp only [hname, if_false, hfound, hparents]

/-- The walk stays among objects that are closed under parents. -/
theorem superWalk_subset {S : Obj → Prop} (hclosed : ∀ v, S v → ∀ p ∈ sp.getParents v, S p)
    {hops : Nat} {stack : List Obj} (hstack : ∀ v ∈ stack, S v) :
    ∀ v ∈ sp.superWalk hops stack, S v := by
  induction hops generalizing stack with
  | zero =>
      intro v hv
      cases hv
  | succ hops ih =>
      cases stack with
      | nil =>
          intro v hv
          cases hv
      | cons node stack =>
          have hnode : S node := hstack node List.mem_cons_self
          have hrest : ∀ v ∈ stack, S v := fun v hv => hstack v (List.mem_cons_of_mem _ hv)
          unfold superWalk
          split
          · exact ih hrest
          · intro v hv
            rcases List.mem_cons.mp hv with rfl | hv
            · exact hnode
            · refine ih ?_ v hv
              intro w hw
              rcases List.mem_append.mp hw with hw | hw
              · exact hclosed node hnode w hw
              · exact hrest w hw

end Dispatch.Space

namespace ClassGraph.Graph

/-! ## The objects as the dispatch sees them -/

/-- The graph as the dispatch sees it; the values that are no objects of the graph are
those of `rest`. -/
def space (g : Graph) (rest : Space Value) : Space Value :=
  { rest with
    kind := fun
      | .ref _ | .method _ | .globals => .object
      | v => rest.kind v
    getAttribute := fun v key =>
      match v with
      | .ref a => g.getAttribute a key
      | .globals => g.globals key
      | v => rest.getAttribute v key
    getOwnAttributeDirect := fun v key =>
      match v with
      | .ref a => g.own a key
      | .method m =>
          if key = "__class_side__" ∧ m.classSide then some .protoTrue else none
      | v => rest.getOwnAttributeDirect v key
    getParents := fun v =>
      match v with
      | .ref a => (g.chain a).map .ref
      | v => rest.getParents v
    asLong := fun
      | .int v => some v
      | _ => none
    asString := fun
      | .string s => some s
      | _ => none
    bcPtr := fun
      | .method m => some m.module
      | _ => none
    isProtoTrue := fun v => v = .protoTrue
    globals := .globals }

/-- The instruction of a `super` send in a method, or in a block inside it, of the
class `cls`. -/
def superOp (g : Graph) (cls : String) (mid : Nat) : SendOp :=
  .super cls (g.definingClassId mid)

/-- The walk from the receiver gets to the class, or the globals have it under its
name. -/
def Reaches (g : Graph) (rest : Space Value) (recv : Nat) (cls : String) (k : Nat) :
    Prop :=
  Value.ref k ∈ (g.space rest).superWalk 4096 [.ref recv] ∨
    g.globals cls = some (.ref k)

variable {g : Graph} {rest : Space Value} {recv k : Nat} {cls selector : String}

/-- The classes after one class on its own chain. -/
theorem lookup_parents (hgood : Good g) {p : Nat} (hchain : g.chain k = p :: g.chain p) :
    (g.chain k).findSome? (fun a => g.getAttribute a selector) =
      g.lookup (g.chain k) selector := by
  have hfirst : g.getAttribute p selector = g.lookup (g.chain k) selector := by
    rw [hchain]
    rfl
  cases hfound : g.lookup (g.chain k) selector with
  | some v =>
      rw [hchain, List.findSome?_cons, hfirst, hfound]
  | none =>
      rw [List.findSome?_eq_none_iff]
      intro a ha
      unfold lookup at hfound
      rw [List.findSome?_eq_none_iff] at hfound
      unfold getAttribute lookup
      rw [List.findSome?_eq_none_iff]
      intro b hb
      rcases List.mem_cons.mp hb with rfl | hb
      · exact hfound b ha
      · exact hfound b (hgood.chain_closed k a ha hb)

/-- The own class id of an object. -/
theorem defines_ref {id : Int} (hid : id ≠ 0) (a : Nat) :
    (g.space rest).defines cls id (.ref a) = true ↔ g.classId a = some (.int id) := by
  unfold Space.defines
  rw [if_pos hid, decide_eq_true_eq]
  show (g.own a "__class_id__").bind (fun
    | .int v => some v
    | _ => none) = some id ↔ g.own a "__class_id__" = some (.int id)
  cases g.own a "__class_id__" with
  | none => simp
  | some v => cases v <;> simp

/-- The walk from a receiver stays on its chain. -/
theorem superWalk_chain (hgood : Good g) {hops : Nat} :
    ∀ v ∈ (g.space rest).superWalk hops [.ref recv],
      ∃ a ∈ recv :: g.chain recv, v = .ref a := by
  refine Space.superWalk_subset ?_ ?_
  · rintro _ ⟨a, ha, rfl⟩ v hv
    obtain ⟨b, hb, rfl⟩ := List.mem_map.mp (show v ∈ (g.chain a).map Value.ref from hv)
    refine ⟨b, List.mem_cons_of_mem _ ?_, rfl⟩
    rcases List.mem_cons.mp ha with rfl | ha
    · exact hb
    · exact hgood.chain_closed recv a ha hb
  · intro v hv
    exact ⟨recv, List.mem_cons_self, List.mem_singleton.mp hv⟩

/-- **The class of the running method is found.** -/
theorem findDefiningClass_eq_ref (hgood : Good g) (hsingle : Single g) {mid : Nat}
    (hk : k ∈ recv :: g.chain recv) (hdeclared : (k, mid) ∈ g.declared)
    (hreaches : g.Reaches rest recv cls k) :
    ((g.space rest).findDefiningClass cls (g.definingClassId mid) 4096 [.ref recv]).or
      (g.globals cls) = some (.ref k) := by
  have hid : g.classId k = some (.int (g.definingClassId mid)) :=
    hgood.declared_id (k, mid) hdeclared
  have hne : g.definingClassId mid ≠ 0 := by
    obtain ⟨id, heq, hpos, -⟩ := hgood.classId_int k _ hid
    cases heq
    omega
  rw [Space.findDefiningClass_eq]
  cases hfound : ((g.space rest).superWalk 4096 [.ref recv]).find?
      ((g.space rest).defines cls (g.definingClassId mid)) with
  | some v =>
      obtain ⟨a, ha, rfl⟩ := superWalk_chain hgood v (List.mem_of_find?_eq_some hfound)
      have hid' := (defines_ref hne a).mp (List.find?_some hfound)
      rw [hsingle recv a ha k hk _ hid' hid]
      rfl
  | none =>
      rcases hreaches with hwalk | hglobal
      · rw [List.find?_eq_none] at hfound
        exact absurd ((defines_ref hne k).mpr hid) (hfound _ hwalk)
      · exact hglobal

/-- The lookup goes on after the class of the running method. -/
theorem superLookup_eq (hgood : Good g) (hsingle : Single g) {mid : Nat}
    (hk : k ∈ recv :: g.chain recv) (hdeclared : (k, mid) ∈ g.declared)
    (hname : cls ≠ "") (hreaches : g.Reaches rest recv cls k) :
    (g.space rest).superLookup cls (g.definingClassId mid) (.ref recv) selector =
      .ok (g.lookup (g.chain k) selector) := by
  obtain ⟨p, hp⟩ := hgood.child k (hgood.declared_object _ hdeclared)
  have hfound := findDefiningClass_eq_ref hgood hsingle hk hdeclared hreaches
  have hparents : (g.chain k).map Value.ref = .ref p :: (g.chain p).map .ref := by
    rw [hp]
    rfl
  rw [Space.superLookup_of_found hname hfound hparents]
  show Except.ok (((g.chain k).map Value.ref).findSome? fun parent =>
    (g.space rest).getAttribute parent selector) = _
  rw [List.findSome?_map]
  exact congrArg Except.ok (lookup_parents hgood hp)

/-- The first implementation on a chain that is one for the receiver: a class-side
method is one for the class objects only. -/
def implementation (g : Graph) (rest : Space Value) (recv : Nat) (chain : List Nat)
    (selector : String) : Option Value :=
  chain.findSome? fun a =>
    (g.own a selector).filter fun attr => !(g.space rest).hidden (.ref recv) attr

/-- What a send comes to that runs the first implementation after the class `k`. -/
def sendAfter (g : Graph) (rest : Space Value) (c : Send Value) (recv k : Nat) :
    Outcome Value :=
  match g.implementation rest recv (g.chain k) c.selector with
  | none => (g.space rest).doesNotUnderstand (.ref recv) c.selector c.args
  | some attr => (g.space rest).activate c (.ref recv) attr

/-- No class-side method stands before the first implementation after the class `k`. -/
def Unmasked (g : Graph) (rest : Space Value) (recv k : Nat) (selector : String) : Prop :=
  ∀ attr, g.implementation rest recv (g.chain k) selector = some attr →
    g.lookup (g.chain k) selector = some attr

variable {chain : List Nat}

theorem implementation_of_lookup_none (hnone : g.lookup chain selector = none) :
    g.implementation rest recv chain selector = none := by
  unfold lookup at hnone
  unfold implementation
  rw [List.findSome?_eq_none_iff] at hnone ⊢
  intro a ha
  rw [hnone a ha]
  rfl

/-- What is found first and is not hidden is the implementation. -/
theorem implementation_of_lookup {attr : Value} (hfound : g.lookup chain selector = some attr)
    (hvisible : (g.space rest).hidden (.ref recv) attr = false) :
    g.implementation rest recv chain selector = some attr := by
  unfold lookup at hfound
  unfold implementation
  induction chain with
  | nil => cases hfound
  | cons a chain ih =>
      rw [List.findSome?_cons] at hfound ⊢
      cases hown : g.own a selector with
      | none =>
          rw [hown] at hfound
          exact ih hfound
      | some v =>
          rw [hown] at hfound
          cases hfound
          rw [Option.filter_some_pos (by rw [hvisible]; rfl)]

theorem not_hidden_of_implementation {attr : Value}
    (hfound : g.implementation rest recv chain selector = some attr) :
    (g.space rest).hidden (.ref recv) attr = false := by
  obtain ⟨a, -, hown⟩ := List.exists_of_findSome?_eq_some hfound
  simpa using (Option.filter_eq_some_iff.mp hown).2

theorem send_super (hactor : g.own recv "__wrapped__" = none) {mid : Nat} {c : Send Value}
    (hop : c.op = g.superOp cls mid)
    (hlookup : (g.space rest).superLookup cls (g.definingClassId mid) (.ref recv)
      c.selector = .ok (g.lookup (g.chain k) c.selector))
    (hunmasked : g.Unmasked rest recv k c.selector) :
    (g.space rest).send c (.ref recv) = g.sendAfter rest c recv k := by
  have hactor' : (g.space rest).isActor (.ref recv) = false := by
    show (g.own recv "__wrapped__").isSome = false
    rw [hactor]
    rfl
  have hvalue : c.isValueFamily = false := by
    unfold Send.isValueFamily
    rw [hop]
    rfl
  have hfound : (g.space rest).lookup c (.ref recv) =
      .ok (g.lookup (g.chain k) c.selector) := by
    unfold Space.lookup
    rw [hop]
    exact hlookup
  unfold Space.send sendAfter
  simp only [hactor', hvalue, hfound, Bool.false_and, Bool.false_eq_true, if_false]
  cases hattr : g.lookup (g.chain k) c.selector with
  | none => rw [implementation_of_lookup_none hattr]
  | some attr =>
      cases hhidden : (g.space rest).hidden (.ref recv) attr with
      | false =>
          rw [implementation_of_lookup hattr hhidden]
          simp only [hhidden, Bool.false_eq_true, if_false]
      | true =>
          -- what is hidden from the receiver is not its implementation
          have hnone : g.implementation rest recv (g.chain k) c.selector = none := by
            cases himpl : g.implementation rest recv (g.chain k) c.selector with
            | none => rfl
            | some v =>
                have heq := hattr.symm.trans (hunmasked v himpl)
                cases heq
                exact absurd hhidden (by simp [not_hidden_of_implementation himpl])
          rw [hnone]
          simp only [hhidden, if_true]

/-- A class is older than those whose chain it is on. -/
theorem lookup_chain (hgood : Good g) {m : MethodObj}
    (hfound : g.lookup (g.chain k) selector = some (.method m)) :
    ∃ k' ∈ g.chain k, k' < k ∧ (k', m.module.id) ∈ g.declared := by
  obtain ⟨k', hk', hown⟩ := List.exists_of_findSome?_eq_some hfound
  exact ⟨k', hk', hgood.chain_lt k k' hk', hgood.owns k' selector m hown⟩

/-- **`super` goes on after the class of the running method.** -/
theorem super_send_next (pc : AddParent) (g : Graph) (hreach : (machine pc).Reach Apart g)
    (rest : Space Value) (recv : Nat) (hactor : g.own recv "__wrapped__" = none) :
    (∀ (k mid : Nat) (cls : String) (c : Send Value), k ∈ recv :: g.chain recv →
        (k, mid) ∈ g.declared → cls ≠ "" → g.Reaches rest recv cls k →
        g.Unmasked rest recv k c.selector → c.op = g.superOp cls mid →
        (g.space rest).send c (.ref recv) = g.sendAfter rest c recv k) ∧
      ∀ (m : Nat → MethodObj) (cls : Nat → String) (selector : String),
        (∃ k ∈ recv :: g.chain recv, (k, (m 0).module.id) ∈ g.declared) →
        (∀ n, cls n ≠ "" ∧ ∀ k ∈ recv :: g.chain recv,
          (k, (m n).module.id) ∈ g.declared → g.Reaches rest recv (cls n) k) →
        ¬ ∀ n, (g.space rest).superLookup (cls n)
          (g.definingClassId (m n).module.id) (.ref recv) selector =
            .ok (some (.method (m (n + 1)))) := by
  have hgood := Reach.good hreach
  have hsingle := Reach.single hreach
  refine ⟨?_, ?_⟩
  · intro k mid cls c hk hdeclared hname hreaches hunmasked hop
    exact send_super hactor hop (superLookup_eq hgood hsingle hk hdeclared hname hreaches)
      hunmasked
  · rintro m cls selector ⟨k₀, hk₀, hdeclared₀⟩ hreaches hruns
    -- the classes the methods are found in are older and older
    have hdescends : ∀ n, ∃ k ∈ recv :: g.chain recv,
        (k, (m n).module.id) ∈ g.declared ∧ k + n ≤ k₀ := by
      intro n
      induction n with
      | zero => exact ⟨k₀, hk₀, hdeclared₀, Nat.le_refl _⟩
      | succ n ih =>
          obtain ⟨k, hk, hdeclared, hle⟩ := ih
          have hlookup := (hruns n).symm.trans (superLookup_eq hgood hsingle hk hdeclared
            (hreaches n).1 ((hreaches n).2 k hk hdeclared))
          obtain ⟨k', hk', hlt, hdeclared'⟩ :=
            lookup_chain hgood (Except.ok.inj hlookup).symm
          refine ⟨k', List.mem_cons_of_mem _ ?_, hdeclared', by omega⟩
          rcases List.mem_cons.mp hk with rfl | hk
          · exact hk'
          · exact hgood.chain_closed recv k hk hk'
    obtain ⟨k, -, -, hle⟩ := hdescends (k₀ + 1)
    omega

end Graph

/-! ## A class with its subclass as a behaviour -/

/-- `addParent` that puts what is new before the chain. -/
def prepend : AddParent where
  link chain p ancestors := (p :: ancestors).filter (· ∉ chain) ++ chain
  mem_link chain p ancestors x := by
    simp only [List.mem_append, List.mem_filter, List.mem_cons, decide_eq_true_eq]
    by_cases hx : x ∈ chain
    · simp [hx]
    · simp [hx]

def bootGraph : Graph where
  cells
    | 1 => ⟨[0], false, fun key => if key = "__class_name__" then some (.string "Object")
        else none⟩
    | _ => ⟨[], true, fun _ => none⟩
  size := 2
  globals _ := none
  kernelLoaded := true
  nextClassId := 1
  definingClassId _ := 0
  declared := []

/-- `C >> foo` and `D >> foo`, with `super foo` in both. -/
def fooOf (id : Nat) : MethodObj := ⟨⟨id, 1, false, 0, []⟩, false⟩

/-- `Object subclass: #C`, `C subclass: #D`, a `foo` in each, and an instance of `D`. -/
def plainOps : List ClassOp :=
  [.subclassNamed 1 "C", .installMethod 2 "foo" (fooOf 10), .subclassNamed 2 "D",
    .installMethod 3 "foo" (fooOf 11), .newChild 3]

/-- The same with `C addBehavior: D` and an instance of the rebuilt `C`. -/
def loopOps : List ClassOp :=
  plainOps ++ [.addBehavior 2 3, .newChild 6]

def graphOf (ops : List ClassOp) : Graph := ops.foldl (Graph.apply prepend) bootGraph

/-- An address that is not taken. -/
def Value.above : Value → Nat
  | .ref a => a + 1
  | _ => 0

theorem above_le_sum {v : Value} {args : List Value} (h : v ∈ args) :
    v.above ≤ (args.map Value.above).sum := by
  induction args with
  | nil => cases h
  | cons w args ih =>
      rw [List.map_cons, List.sum_cons]
      rcases List.mem_cons.mp h with rfl | h
      · omega
      · have hle := ih h
        omega

def noSpace : Space Value where
  kind _ := .other
  getAttribute _ _ := none
  getOwnAttributeDirect _ _ := none
  getParents _ := []
  asLong _ := none
  asString _ := none
  isMethod _ := false
  bcPtr _ := none
  protoNone := .globals
  isProtoTrue _ := false
  nilProto := .globals
  booleanProto := .globals
  smallIntegerProto := .globals
  largeIntegerProto := .globals
  floatProto := .globals
  stringProto := .globals
  characterProto := .globals
  errorProto := .globals
  globals := .globals
  unsetMarker := .globals
  blockValue := 0
  foreignSignal _ := false
  makeMessage _ args := .ref (args.map Value.above).sum
  message_new _ _ hmem := absurd (above_le_sum hmem) (Nat.not_succ_le_self _)

theorem bootGraph_initial : Graph.IsInitial bootGraph := by
  refine ⟨rfl, ?_, ?_, ?_, ?_, rfl, rfl⟩
  · rintro (_ | _ | a) <;> rfl
  · rintro (_ | _ | a) <;> rfl
  · rintro (_ | _ | a) <;> rfl
  · rintro (_ | _ | a) key v hown
    · cases hown
    · have hown' : (if key = "__class_name__" then some (Value.string "Object") else none) =
          some v := hown
      split at hown'
      · cases hown'
        exact ⟨rfl, by decide⟩
      · cases hown'
    · cases hown

/-- A list of operations that are enabled one after the other is a run. -/
theorem reach_foldl {pc : AddParent} {ok : Graph → ClassOp → Prop} {ops : List ClassOp}
    {g : Graph} (h : (Graph.machine pc).Reach ok g) (hok : ∀ op ∈ ops, ∀ g, ok g op)
    (hexec : ((Graph.machine pc).exec g ops).isSome = true) :
    (Graph.machine pc).Reach ok (ops.foldl (Graph.apply pc) g) := by
  induction ops generalizing g with
  | nil => exact h
  | cons op ops ih =>
      have hcons : (Graph.machine pc).exec g (op :: ops) =
          (if g.Enabled op then some (g.apply pc op) else none).bind
            fun g' => (Graph.machine pc).exec g' ops := rfl
      rw [hcons] at hexec
      split at hexec
      · rename_i henabled
        have hstep : (Graph.machine pc).step g op = some (g.apply pc op) :=
          if_pos henabled
        exact ih (h.step op (hok op List.mem_cons_self g) hstep)
          (fun op hop => hok op (List.mem_cons_of_mem _ hop)) hexec
      · cases hexec

theorem plain_reach : (Graph.machine prepend).Reach Graph.Apart (graphOf plainOps) := by
  refine reach_foldl (.init bootGraph_initial) ?_ (by decide)
  intro op hop g
  simp only [plainOps, List.mem_cons, List.not_mem_nil, or_false] at hop
  rcases hop with rfl | rfl | rfl | rfl | rfl <;> exact trivial

theorem loop_reachable : (Graph.machine prepend).Reachable (graphOf loopOps) :=
  reach_foldl (.init bootGraph_initial) (fun _ _ _ => trivial) (by decide)

theorem super_send_next_foo :
    ((graphOf plainOps).space noSpace).send ⟨.super "D" 2, "foo", [], by decide⟩ (.ref 4) =
      (graphOf plainOps).sendAfter noSpace ⟨.super "D" 2, "foo", [], by decide⟩ 4 3 :=
  (Graph.super_send_next prepend (graphOf plainOps) plain_reach noSpace 4 (by decide)).1
    3 11 "D" _ (by decide) (by decide) (by decide) (.inl (by decide))
    (fun _ himpl => himpl) rfl

/-- `A >> foo`, `B class >> foo` between, `C >> foo` with `super foo`, and an instance
of `C`: no implementation runs, `A >> foo` is the first. -/
example :
    let g := graphOf [.subclassNamed 1 "A", .installMethod 2 "foo" (fooOf 10),
      .subclassNamed 2 "B", .installMethod 3 "foo" ⟨(fooOf 11).module, true⟩,
      .subclassNamed 3 "C", .installMethod 4 "foo" (fooOf 12), .newChild 4]
    g.implementation noSpace 5 (g.chain 4) "foo" = some (.method (fooOf 10)) ∧
      g.lookup (g.chain 4) "foo" = some (.method ⟨(fooOf 11).module, true⟩) ∧
      (g.space noSpace).hidden (.ref 5) (.method ⟨(fooOf 11).module, true⟩) = true := by
  decide

theorem super_send_loops :
    let g := graphOf loopOps
    (Graph.machine prepend).Reachable g ∧
      (2, 10) ∈ g.declared ∧ (3, 11) ∈ g.declared ∧
      2 ∈ g.chain 7 ∧ 3 ∈ g.chain 7 ∧ g.own 7 "__wrapped__" = none ∧
      g.lookup (g.chain 2) "foo" = none ∧
      (g.space noSpace).superLookup "C" (g.definingClassId 10) (.ref 7) "foo" =
        .ok (some (.method (fooOf 11))) ∧
      (g.space noSpace).superLookup "D" (g.definingClassId 11) (.ref 7) "foo" =
        .ok (some (.method (fooOf 10))) ∧
      ¬ ∀ (g : Graph) (recv k mid : Nat) (cls : String) (c : Send Value),
        (Graph.machine prepend).Reachable g → g.own recv "__wrapped__" = none →
        k ∈ recv :: g.chain recv → (k, mid) ∈ g.declared → cls ≠ "" →
        c.op = g.superOp cls mid →
        (g.space noSpace).send c (.ref recv) = g.sendAfter noSpace c recv k := by
  refine ⟨loop_reachable, by decide, by decide, by decide, by decide, by decide, by decide,
    by decide, by decide, fun h => ?_⟩
  have hfoo := h (graphOf loopOps) 7 2 10 "C" ⟨.super "C" 1, "foo", [], by decide⟩
    loop_reachable (by decide) (by decide) (by decide) (by decide) rfl
  exact absurd hfoo (by decide)

end ClassGraph

end ProtoST.Runtime

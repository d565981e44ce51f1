import ProtoST.Runtime.ClassGraph

/-!
# What holds of every class graph

## Main results

* `Good.step` — chains are acyclic and closed, and each declared method carries the
  `__class_id__` of its class.
* `Single.step` — as long as no class is built over two copies of one class, no chain
  has two classes with one `__class_id__`.
-/

namespace ProtoST.Runtime.ClassGraph

open ProtoST.Lib ProtoST.Runtime.Dispatch

/-! ## What holds of every graph -/

namespace Graph

/-- Chains are acyclic and closed, an object comes right after its prototype, and a
declared method carries the id of its class. -/
structure Good (g : Graph) : Prop where
  objectProto_lt : objectProto < g.size
  chain_lt : ∀ a, ∀ x ∈ g.chain a, x < a
  chain_closed : ∀ a, ∀ x ∈ g.chain a, g.chain x ⊆ g.chain a
  child : ∀ a, g.IsObject a → ∃ p, g.chain a = p :: g.chain p
  fresh_chain : ∀ a, g.size ≤ a → g.chain a = []
  fresh : ∀ a key, g.size ≤ a → g.own a key = none
  nextClassId_pos : 1 ≤ g.nextClassId
  classId_int : ∀ a v, g.classId a = some v →
    ∃ id, v = .int id ∧ 1 ≤ id ∧ id < g.nextClassId
  declared_id : ∀ d ∈ g.declared,
    g.classId d.1 = some (.int (g.definingClassId d.2))
  declared_object : ∀ d ∈ g.declared, g.IsObject d.1
  owns : ∀ a key m, g.own a key = some (.method m) → (a, m.module.id) ∈ g.declared

section Frames

variable {g : Graph} {a b : Nat} {key key' : String} {v : Value} {methods : List Nat}

@[simp] theorem own_alloc {cell : Cell} :
    (g.alloc cell methods).own a key =
      if a = g.size then cell.attributes key else g.own a key := by
  unfold own alloc
  simp only [Function.update_apply]
  split <;> rfl

@[simp] theorem chain_alloc {cell : Cell} :
    (g.alloc cell methods).chain a = if a = g.size then cell.chain else g.chain a := by
  unfold chain alloc
  simp only [Function.update_apply]
  split <;> rfl

theorem isShape_alloc {cell : Cell} :
    ((g.alloc cell methods).cells a).isShape =
      if a = g.size then cell.isShape else (g.cells a).isShape := by
  unfold alloc
  simp only [Function.update_apply]
  split <;> rfl

@[simp] theorem own_setAttribute :
    (g.setAttribute a key v).own b key' =
      if b = a ∧ key' = key then some v else g.own b key' := by
  unfold own setAttribute
  simp only [Function.update_apply]
  by_cases hb : b = a
  · by_cases hkey : key' = key
    · simp [hb, hkey]
    · simp [hb, hkey]
  · simp [hb]

@[simp] theorem chain_setAttribute : (g.setAttribute a key v).chain b = g.chain b := by
  unfold chain setAttribute
  simp only [Function.update_apply]
  split
  · rename_i hb
    rw [hb]
  · rfl

theorem isShape_setAttribute :
    ((g.setAttribute a key v).cells b).isShape = (g.cells b).isShape := by
  unfold setAttribute
  simp only [Function.update_apply]
  split
  · rename_i hb
    rw [hb]
  · rfl

@[simp] theorem isObject_setAttribute :
    (g.setAttribute a key v).IsObject b ↔ g.IsObject b := by
  unfold IsObject
  rw [isShape_setAttribute]
  rfl

end Frames

section Preserved

variable {g : Graph} {a b : Nat} {key : String} {v : Value}

theorem Good.mem_lt (h : Good g) (hb : b ∈ g.chain a) : b < g.size := by
  by_cases ha : a < g.size
  · exact Nat.lt_trans (h.chain_lt a b hb) ha
  · rw [h.fresh_chain a (by omega)] at hb
    cases hb

/-- A new object: its chain is closed, and it carries the id of the methods that are
declared in it. -/
theorem Good.alloc (h : Good g) {cell : Cell} {methods : List Nat}
    (hlt : ∀ x ∈ cell.chain, x < g.size)
    (hclosed : ∀ x ∈ cell.chain, g.chain x ⊆ cell.chain)
    (hchild : cell.isShape = false → ∃ p, cell.chain = p :: g.chain p)
    (hid : ∀ v, cell.attributes "__class_id__" = some v →
      ∃ id, v = .int id ∧ 1 ≤ id ∧ id < g.nextClassId)
    (hmethods : ∀ mid ∈ methods, cell.isShape = false ∧
      cell.attributes "__class_id__" = some (.int (g.definingClassId mid)))
    (howns : ∀ key m, cell.attributes key = some (.method m) → m.module.id ∈ methods) :
    Good (g.alloc cell methods) where
  objectProto_lt := Nat.lt_succ_of_lt h.objectProto_lt
  chain_lt a x hx := by
    rw [chain_alloc] at hx
    split at hx
    · rename_i ha
      rw [ha]
      exact hlt x hx
    · exact h.chain_lt a x hx
  chain_closed a x hx := by
    rw [chain_alloc] at hx
    have hx' : x < g.size := by
      split at hx
      · exact hlt x hx
      · exact h.mem_lt hx
    simp only [chain_alloc]
    rw [if_neg (Nat.ne_of_lt hx')]
    split at hx
    · rename_i ha
      rw [if_pos ha]
      exact hclosed x hx
    · rename_i ha
      rw [if_neg ha]
      exact h.chain_closed a x hx
  child a hobject := by
    have hlast : ∀ p, p < g.size → (g.alloc cell methods).chain p = g.chain p := by
      intro p hp
      rw [chain_alloc, if_neg (Nat.ne_of_lt hp)]
    obtain ⟨hsize, hshape⟩ := hobject
    rw [isShape_alloc] at hshape
    rw [chain_alloc]
    split at hshape
    · rename_i ha
      obtain ⟨p, hp⟩ := hchild hshape
      rw [if_pos ha, hp]
      exact ⟨p, by rw [hlast p (hlt p (by simp [hp]))]⟩
    · rename_i ha
      have hsize' : a < g.size := Nat.lt_of_le_of_ne (Nat.le_of_lt_succ hsize) ha
      obtain ⟨p, hp⟩ := h.child a ⟨hsize', hshape⟩
      rw [if_neg ha, hp]
      exact ⟨p, by rw [hlast p (h.mem_lt (a := a) (by simp [hp]))]⟩
  fresh_chain a ha := by
    rw [chain_alloc, if_neg (Nat.ne_of_gt ha)]
    exact h.fresh_chain a (Nat.le_of_succ_le ha)
  fresh a key ha := by
    rw [own_alloc, if_neg (Nat.ne_of_gt ha)]
    exact h.fresh a key (Nat.le_of_succ_le ha)
  nextClassId_pos := h.nextClassId_pos
  classId_int a v hv := by
    unfold classId at hv
    rw [own_alloc] at hv
    split at hv
    · exact hid v hv
    · exact h.classId_int a v hv
  declared_id d hd := by
    unfold classId
    rw [own_alloc]
    rcases List.mem_append.mp hd with hnew | hold
    · obtain ⟨mid, hmid, rfl⟩ := List.mem_map.mp hnew
      rw [if_pos rfl]
      exact (hmethods mid hmid).2
    · rw [if_neg (Nat.ne_of_lt (h.declared_object d hold).1)]
      exact h.declared_id d hold
  declared_object d hd := by
    unfold IsObject
    rw [isShape_alloc]
    rcases List.mem_append.mp hd with hnew | hold
    · obtain ⟨mid, hmid, rfl⟩ := List.mem_map.mp hnew
      rw [if_pos rfl]
      exact ⟨Nat.lt_succ_self _, (hmethods mid hmid).1⟩
    · obtain ⟨hlt, hshape⟩ := h.declared_object d hold
      rw [if_neg (Nat.ne_of_lt hlt)]
      exact ⟨Nat.lt_succ_of_lt hlt, hshape⟩
  owns a key m hown := by
    rw [own_alloc] at hown
    split at hown
    · rename_i ha
      exact List.mem_append_left _ (List.mem_map.mpr ⟨_, howns key m hown, by rw [ha]⟩)
    · exact List.mem_append_right _ (h.owns a key m hown)

theorem Good.newChild (h : Good g) {p : Nat} (hp : p < g.size) : Good (g.newChild p) := by
  refine h.alloc ?_ ?_ (fun _ => ⟨p, rfl⟩) ?_ ?_ ?_
  · intro x hx
    rcases List.mem_cons.mp hx with rfl | hx
    · exact hp
    · exact h.mem_lt hx
  · intro x hx y hy
    refine List.mem_cons_of_mem p ?_
    rcases List.mem_cons.mp hx with rfl | hx
    · exact hy
    · exact h.chain_closed p x hx hy
  · rintro v ⟨⟩
  · intro mid hmid
    cases hmid
  · rintro key m ⟨⟩

/-- An attribute that is no id and no method. -/
theorem Good.setAttribute (h : Good g) (ha : a < g.size) (hkey : key ≠ "__class_id__")
    (hv : v.isMethod = false) : Good (g.setAttribute a key v) where
  objectProto_lt := h.objectProto_lt
  chain_lt b x hx := h.chain_lt b x (by simpa using hx)
  chain_closed b x hx := by
    rw [chain_setAttribute] at hx ⊢
    rw [chain_setAttribute]
    exact h.chain_closed b x hx
  child b hb := by
    obtain ⟨p, hp⟩ := h.child b (isObject_setAttribute.mp hb)
    exact ⟨p, by rw [chain_setAttribute, chain_setAttribute, hp]⟩
  fresh_chain b hb := by
    rw [chain_setAttribute]
    exact h.fresh_chain b hb
  fresh b key' hb := by
    rw [own_setAttribute, if_neg (by rintro ⟨rfl, -⟩; exact absurd ha (Nat.not_lt.mpr hb))]
    exact h.fresh b key' hb
  nextClassId_pos := h.nextClassId_pos
  classId_int b v' hv' := by
    unfold classId at hv'
    rw [own_setAttribute, if_neg (by rintro ⟨-, heq⟩; exact hkey heq.symm)] at hv'
    exact h.classId_int b v' hv'
  declared_id d hd := by
    unfold classId
    rw [own_setAttribute, if_neg (by rintro ⟨-, heq⟩; exact hkey heq.symm)]
    exact h.declared_id d hd
  declared_object d hd := isObject_setAttribute.mpr (h.declared_object d hd)
  owns b key' m hown := by
    rw [own_setAttribute] at hown
    split at hown
    · cases hown
      cases hv
    · exact h.owns b key' m hown

/-- What is no part of the objects. -/
theorem Good.bind (h : Good g) (name : String) (v : Value) : Good (g.bind name v) :=
  ⟨h.1, h.2, h.3, h.4, h.5, h.6, h.7, h.8, h.9, h.10, h.11⟩

theorem Good.named (h : Good g) {cls : Nat} (hcls : cls < g.size) (name : String) :
    Good (g.named cls name) :=
  (h.setAttribute hcls (by decide) rfl).bind name (.ref cls)

section Stamps

variable {cls : Nat} {m : MethodObj}

theorem own_stamp (hkey : key ≠ "__class_id__") :
    (g.stampDefiningClass cls m).own b key = g.own b key := by
  unfold stampDefiningClass
  split
  · rfl
  · show (g.setAttribute cls "__class_id__" _).own b key = _
    rw [own_setAttribute, if_neg (by rintro ⟨-, heq⟩; exact hkey heq)]

theorem classId_stamp :
    (g.stampDefiningClass cls m).classId b =
      if b = cls then some (.int (g.stampId cls)) else g.classId b := by
  unfold stampDefiningClass stampId
  split
  · rename_i id hid
    split
    · rename_i hb
      rw [hb]
      exact hid
    · rfl
  · show (g.setAttribute cls "__class_id__" _).own b "__class_id__" = _
    rw [own_setAttribute]
    by_cases hb : b = cls
    · rw [if_pos ⟨hb, rfl⟩, if_pos hb]
    · rw [if_neg (by rintro ⟨heq, -⟩; exact hb heq), if_neg hb]
      rfl

theorem chain_stamp : (g.stampDefiningClass cls m).chain b = g.chain b := by
  unfold stampDefiningClass
  split
  · rfl
  · exact chain_setAttribute

theorem isObject_stamp : (g.stampDefiningClass cls m).IsObject b ↔ g.IsObject b := by
  unfold stampDefiningClass
  split
  · rfl
  · exact (isObject_setAttribute (g := g) : _ ↔ _)

theorem definingClassId_stamp {mid : Nat} :
    (g.stampDefiningClass cls m).definingClassId mid =
      if mid = m.module.id then g.stampId cls else g.definingClassId mid := by
  unfold stampDefiningClass stampId
  split <;> simp only [Function.update_apply]

theorem nextClassId_stamp :
    g.nextClassId ≤ (g.stampDefiningClass cls m).nextClassId := by
  unfold stampDefiningClass
  split
  · exact Int.le_refl _
  · show g.nextClassId ≤ g.nextClassId + 1
    omega

theorem size_stamp : (g.stampDefiningClass cls m).size = g.size := by
  unfold stampDefiningClass
  split <;> rfl

theorem declared_stamp : (g.stampDefiningClass cls m).declared = g.declared := by
  unfold stampDefiningClass
  split <;> rfl

/-- The id is the one of the class, or a new one. -/
theorem Good.stampId_bounds (h : Good g) :
    1 ≤ g.stampId cls ∧ g.stampId cls < (g.stampDefiningClass cls m).nextClassId := by
  unfold stampId stampDefiningClass
  split
  · rename_i id hid
    obtain ⟨_, heq, hpos, hlt⟩ := h.classId_int cls _ hid
    cases heq
    exact ⟨hpos, hlt⟩
  · have hpos := h.nextClassId_pos
    refine ⟨hpos, ?_⟩
    show g.nextClassId < g.nextClassId + 1
    omega

theorem stampId_of_classId {id : Int} (hid : g.classId cls = some (.int id)) :
    g.stampId cls = id := by
  unfold stampId
  rw [hid]

variable {selector : String}

theorem own_installMethod :
    (g.installMethod cls selector m).own b key =
      if b = cls ∧ key = selector then some (.method m)
      else (g.stampDefiningClass cls m).own b key :=
  own_setAttribute

theorem chain_installMethod :
    (g.installMethod cls selector m).chain b = g.chain b :=
  chain_setAttribute.trans chain_stamp

theorem isObject_installMethod :
    (g.installMethod cls selector m).IsObject b ↔ g.IsObject b :=
  isObject_setAttribute.trans isObject_stamp

theorem classId_installMethod (hselector : selector ≠ "__class_id__") :
    (g.installMethod cls selector m).classId b =
      if b = cls then some (.int (g.stampId cls)) else g.classId b := by
  unfold classId
  rw [own_installMethod, if_neg (by rintro ⟨-, heq⟩; exact hselector heq.symm)]
  exact classId_stamp

/-- A method that is installed for the first time. -/
theorem Good.installMethod (h : Good g) (hcls : g.IsObject cls)
    (hselector : selector ≠ "__class_id__")
    (hfresh : ∀ d ∈ g.declared, d.2 ≠ m.module.id) :
    Good (g.installMethod cls selector m) where
  declared_object d hd := by
    refine isObject_installMethod.mpr ?_
    rcases List.mem_cons.mp hd with rfl | hold
    · exact hcls
    · refine h.declared_object d ?_
      rwa [← declared_stamp (m := m)]
  objectProto_lt := by
    show objectProto < (g.stampDefiningClass cls m).size
    rw [size_stamp]
    exact h.objectProto_lt
  chain_lt b x hx := by
    refine h.chain_lt b x ?_
    rwa [← chain_installMethod]
  chain_closed b x hx := by
    rw [chain_installMethod] at hx ⊢
    rw [chain_installMethod]
    exact h.chain_closed b x hx
  child b hb := by
    obtain ⟨p, hp⟩ := h.child b (isObject_installMethod.mp hb)
    exact ⟨p, by rw [chain_installMethod, chain_installMethod, hp]⟩
  fresh_chain b hb := by
    rw [chain_installMethod]
    refine h.fresh_chain b ?_
    rwa [← size_stamp]
  fresh b key hb := by
    have hb' : g.size ≤ b := by rwa [← size_stamp]
    have hne : b ≠ cls := by
      rintro rfl
      exact absurd hcls.1 (Nat.not_lt.mpr hb')
    rw [own_installMethod, if_neg (by rintro ⟨heq, -⟩; exact hne heq)]
    by_cases hkey : key = "__class_id__"
    · subst hkey
      have hstamp : (g.stampDefiningClass cls m).classId b = _ := classId_stamp
      rw [if_neg hne] at hstamp
      exact hstamp.trans (h.fresh b _ hb')
    · rw [own_stamp hkey]
      exact h.fresh b key hb'
  nextClassId_pos := Int.le_trans h.nextClassId_pos nextClassId_stamp
  classId_int b v hv := by
    rw [classId_installMethod hselector] at hv
    split at hv
    · cases hv
      exact ⟨_, rfl, h.stampId_bounds⟩
    · obtain ⟨id, heq, hpos, hlt⟩ := h.classId_int b v hv
      exact ⟨id, heq, hpos, Int.lt_of_lt_of_le hlt nextClassId_stamp⟩
  declared_id d hd := by
    rw [classId_installMethod hselector]
    show _ = some (Value.int ((g.stampDefiningClass cls m).definingClassId d.2))
    rw [definingClassId_stamp]
    have hd' : d = (cls, m.module.id) ∨ d ∈ g.declared := by
      rw [← declared_stamp (m := m)]
      exact List.mem_cons.mp hd
    rcases hd' with rfl | hold
    · rw [if_pos rfl, if_pos rfl]
    · rw [if_neg (hfresh d hold)]
      have hid := h.declared_id d hold
      split
      · rename_i hd1
        rw [hd1] at hid
        rw [stampId_of_classId hid]
      · exact hid
  owns b key m' hown := by
    rw [own_installMethod] at hown
    split at hown
    · rename_i heq
      cases hown
      rw [heq.1]
      exact List.mem_cons_self
    · refine List.mem_cons_of_mem _ ?_
      show _ ∈ (g.stampDefiningClass cls m).declared
      rw [declared_stamp]
      by_cases hkey : key = "__class_id__"
      · subst hkey
        have hid : (g.stampDefiningClass cls m).classId b = some (.method m') := hown
        rw [classId_stamp] at hid
        split at hid
        · cases hid
        · obtain ⟨_, heq, -⟩ := h.classId_int b _ hid
          cases heq
      · rw [own_stamp hkey] at hown
        exact h.owns b key m' hown

end Stamps

/-! ### Classes with several parents -/

variable {parents : List Nat}

theorem mem_ancestors :
    b ∈ g.ancestors parents ↔
      b = objectProto ∨ b ∈ g.chain objectProto ∨
        ∃ p ∈ parents, b = p ∨ b ∈ g.chain p := by
  unfold ancestors
  simp

theorem Good.ancestors_lt (h : Good g)
    (hparents : ∀ p ∈ parents, p < g.size) (hb : b ∈ g.ancestors parents) :
    b < g.size := by
  rcases mem_ancestors.mp hb with rfl | hb | ⟨p, hp, rfl | hb⟩
  · exact h.objectProto_lt
  · exact h.mem_lt hb
  · exact hparents b hp
  · exact h.mem_lt hb

theorem Good.ancestors_closed (h : Good g)
    (hb : b ∈ g.ancestors parents) : g.chain b ⊆ g.ancestors parents := by
  intro x hx
  refine mem_ancestors.mpr ?_
  rcases mem_ancestors.mp hb with rfl | hb | ⟨p, hp, rfl | hb⟩
  · exact .inr (.inl hx)
  · exact .inr (.inl (h.chain_closed _ b hb hx))
  · exact .inr (.inr ⟨b, hp, .inr hx⟩)
  · exact .inr (.inr ⟨p, hp, .inr (h.chain_closed p b hb hx)⟩)

section Shapes

variable {pc : AddParent} {parents : List Nat}

theorem mem_foldl_link {chain : List Nat} :
    b ∈ parents.foldl (fun chain p => pc.link chain p (g.chain p)) chain ↔
      b ∈ chain ∨ ∃ p ∈ parents, b = p ∨ b ∈ g.chain p := by
  induction parents generalizing chain with
  | nil => simp
  | cons p rest ih =>
      rw [List.foldl_cons, ih, pc.mem_link]
      rw [List.exists_mem_cons_iff, ← or_assoc, or_comm (b := b ∈ chain), or_assoc]

/-- However `addParent` orders them, a shape has the parents and what is above. -/
theorem mem_shapeChain : b ∈ g.shapeChain pc parents ↔ b ∈ g.ancestors parents := by
  unfold shapeChain
  rw [mem_foldl_link, mem_ancestors, List.mem_cons, or_assoc]

theorem Good.makeShape (h : Good g) (hparents : ∀ p ∈ parents, p < g.size) :
    Good (g.makeShape pc parents) := by
  refine h.alloc ?_ ?_ ?_ ?_ ?_ ?_
  · intro x hx
    exact h.ancestors_lt hparents (mem_shapeChain.mp hx)
  · intro x hx y hy
    exact mem_shapeChain.mpr (h.ancestors_closed (mem_shapeChain.mp hx) hy)
  · rintro ⟨⟩
  · rintro v ⟨⟩
  · intro mid hmid
    cases hmid
  · rintro key m ⟨⟩

theorem Good.addBehaviorToClass (h : Good g) {cls mixin : Nat}
    (hmixin : mixin < g.size) : Good (g.addBehaviorToClass pc cls mixin) := by
  have hparents : ∀ p ∈ g.behaviorParents cls mixin, p < g.size := by
    intro p hp
    rcases List.mem_cons.mp hp with rfl | hp
    · exact hmixin
    · exact h.mem_lt (List.mem_reverse.mp hp)
  have hshape : Good (g.makeShape pc (g.behaviorParents cls mixin)) :=
    h.makeShape hparents
  have hbuilt : Good ((g.makeShape pc (g.behaviorParents cls mixin)).alloc
      ⟨g.size :: (g.makeShape pc (g.behaviorParents cls mixin)).chain g.size, false,
        (g.cells cls).attributes⟩
      ((g.declared.filter (·.1 = cls)).map (·.2))) := by
    refine hshape.alloc ?_ ?_ (fun _ => ⟨g.size, rfl⟩) ?_ ?_ ?_
    · intro x hx
      rcases List.mem_cons.mp hx with rfl | hx
      · exact Nat.lt_succ_self _
      · exact hshape.mem_lt hx
    · intro x hx y hy
      refine List.mem_cons_of_mem _ ?_
      rcases List.mem_cons.mp hx with rfl | hx
      · exact hy
      · exact hshape.chain_closed _ x hx hy
    · exact fun v hv => h.classId_int cls v hv
    · intro mid hmid
      obtain ⟨d, hd, rfl⟩ := List.mem_map.mp hmid
      obtain ⟨hd, hcls⟩ := List.mem_filter.mp hd
      have hid := h.declared_id d hd
      rw [of_decide_eq_true hcls] at hid
      exact ⟨rfl, hid⟩
    · intro key m hown
      refine List.mem_map.mpr ⟨(cls, m.module.id), ?_, rfl⟩
      exact List.mem_filter.mpr ⟨h.owns cls key m hown, decide_eq_true rfl⟩
  unfold Graph.addBehaviorToClass
  dsimp only
  split
  · exact hbuilt.bind _ _
  · exact hbuilt

theorem Good.makeSubclassWithMixins (h : Good g) {superCls : Nat} {name : String}
    {mixins : List Nat} (hparents : ∀ p ∈ superCls :: mixins, p < g.size) :
    Good (g.makeSubclassWithMixins pc superCls name mixins) := by
  have hshape : Good (g.makeShape pc (mixins.reverse ++ [superCls])) :=
    h.makeShape fun p hp => hparents p (by simpa [or_comm] using hp)
  have hchild := hshape.newChild (p := g.size) (Nat.lt_succ_self _)
  exact hchild.named (Nat.lt_succ_self _) name

end Shapes

theorem Good.subclassNamed (h : Good g) {superCls : Nat} {name : String}
    (hsuper : superCls < g.size) : Good (g.subclassNamed superCls name) := by
  unfold Graph.subclassNamed
  split
  · rename_i existing hexisting
    refine h.named ?_ name
    -- an object without attributes is not answered again
    by_contra hlt
    unfold existingClass at hexisting
    split at hexisting
    · split at hexisting
      · rename_i hmark
        cases hexisting
        rw [h.fresh _ _ (by omega)] at hmark
        cases hmark.1
      · cases hexisting
    · cases hexisting
  · have hchild := h.newChild hsuper
    dsimp only
    split
    · have hmark : Good ((g.newChild superCls).setAttribute g.size "__user_class__" .protoTrue) :=
        hchild.setAttribute (Nat.lt_succ_self _) (by decide) rfl
      exact hmark.named (Nat.lt_succ_self _) name
    · exact hchild.named (Nat.lt_succ_self _) name

theorem IsInitial.good (h : IsInitial g) : Good g := by
  obtain ⟨hsize, hchain, hshape, hid, hown, hnext, hdeclared⟩ := h
  have hone : ∀ a, ∀ x ∈ g.chain a, a = objectProto ∧ x = 0 := by
    intro a x hx
    rw [hchain] at hx
    split at hx
    · rename_i ha
      exact ⟨ha, List.mem_singleton.mp hx⟩
    · cases hx
  have hobject : ∀ a, g.IsObject a → a = objectProto := by
    rintro a ⟨-, hflag⟩
    rw [hshape] at hflag
    simpa using hflag
  have hnone : ∀ d, d ∉ g.declared := by
    rw [hdeclared]
    exact fun d => List.not_mem_nil
  refine ⟨by rw [hsize]; decide, ?_, ?_, ?_, ?_, ?_, Int.le_of_eq hnext.symm, ?_,
    fun d hd => absurd hd (hnone d), fun d hd => absurd hd (hnone d), ?_⟩
  · intro a x hx
    obtain ⟨rfl, rfl⟩ := hone a x hx
    decide
  · intro a x hx y hy
    obtain ⟨rfl, rfl⟩ := hone a x hx
    rw [hchain, if_neg (by decide)] at hy
    cases hy
  · intro a ha
    obtain rfl := hobject a ha
    exact ⟨0, by rw [hchain, if_pos rfl, hchain, if_neg (by decide)]⟩
  · intro a ha
    rw [hchain, if_neg]
    rintro rfl
    exact absurd ha (by rw [hsize]; decide)
  · intro a key ha
    cases hown' : g.own a key with
    | none => rfl
    | some v => exact absurd (hown a key v hown').2 (by omega)
  · intro a v hv
    rw [hid] at hv
    cases hv
  · intro a key m hown'
    cases (hown a key _ hown').1

variable {pc : AddParent}

/-- **Every step keeps the graph good.** -/
theorem Good.step (h : Good g) {op : ClassOp} {g' : Graph}
    (hstep : (machine pc).step g op = some g') : Good g' := by
  obtain ⟨henabled, rfl⟩ := guarded hstep
  cases op with
  | subclassNamed superCls name => exact h.subclassNamed henabled.1
  | subclass superCls name =>
      exact (h.newChild henabled.1).named (Nat.lt_succ_self _) name
  | subclassUses superCls name mixins =>
      exact h.makeSubclassWithMixins fun p hp => (henabled p hp).1
  | addBehavior cls mixin => exact h.addBehaviorToClass henabled.2.1
  | installMethod cls selector m =>
      exact h.installMethod henabled.1 henabled.2.1 henabled.2.2
  | newChild cls => exact h.newChild henabled.1
  | setAttribute a key v => exact h.setAttribute henabled.1.1 henabled.2.1 henabled.2.2.1
  | bind name v => exact h.bind name v
  | kernelLoaded => exact ⟨h.1, h.2, h.3, h.4, h.5, h.6, h.7, h.8, h.9, h.10, h.11⟩

/-! ## One class for each id -/

/-- On no chain two classes have one id. -/
def Single (g : Graph) : Prop := ∀ a, g.OneEach (a :: g.chain a)

theorem OneEach.subset {l l' : List Nat} (h : g.OneEach l) (hsub : l' ⊆ l) :
    g.OneEach l' :=
  fun x hx y hy => h x (hsub hx) y (hsub hy)

/-- Ids and chains are all that counts. -/
theorem Single.congr {g' : Graph} (h : Single g) (hchain : ∀ a, g'.chain a = g.chain a)
    (hid : ∀ a, g'.classId a = g.classId a) : Single g' := by
  intro a x hx y hy v hxv hyv
  rw [hchain] at hx hy
  exact h a x hx y hy v ((hid x).symm.trans hxv) ((hid y).symm.trans hyv)

theorem Single.setAttribute (h : Single g) (hkey : key ≠ "__class_id__") :
    Single (g.setAttribute a key v) := by
  refine h.congr (fun b => chain_setAttribute) fun b => ?_
  unfold classId
  rw [own_setAttribute, if_neg (by rintro ⟨-, heq⟩; exact hkey heq.symm)]

theorem Single.named (h : Single g) {cls : Nat} {name : String} :
    Single (g.named cls name) :=
  (h.setAttribute (a := cls) (v := .string name) (by decide)).congr (fun _ => rfl)
    fun _ => rfl

/-- A new object whose chain has one class for each id, and none with its own. -/
theorem Single.alloc (h : Single g) (hgood : Good g) {cell : Cell} {methods : List Nat}
    (hlt : ∀ x ∈ cell.chain, x < g.size) (hchain : g.OneEach cell.chain)
    (hid : ∀ x ∈ cell.chain, ∀ v, g.classId x = some v →
      cell.attributes "__class_id__" ≠ some v) :
    Single (g.alloc cell methods) := by
  have hold : ∀ x, x < g.size → ∀ v, (g.alloc cell methods).own x "__class_id__" = some v →
      g.own x "__class_id__" = some v := by
    intro x hx v hv
    rwa [own_alloc, if_neg (Nat.ne_of_lt hx)] at hv
  intro a
  by_cases ha : a = g.size
  · subst ha
    have hnew : ∀ v, (g.alloc cell methods).own g.size "__class_id__" = some v →
        cell.attributes "__class_id__" = some v := by
      intro v hv
      rwa [own_alloc, if_pos rfl] at hv
    rw [chain_alloc, if_pos rfl]
    intro x hx y hy v hxv hyv
    rcases List.mem_cons.mp hx with rfl | hx <;> rcases List.mem_cons.mp hy with rfl | hy
    · rfl
    · exact absurd (hnew v hxv) (hid y hy v (hold y (hlt y hy) v hyv))
    · exact absurd (hnew v hyv) (hid x hx v (hold x (hlt x hx) v hxv))
    · exact hchain x hx y hy v (hold x (hlt x hx) v hxv) (hold y (hlt y hy) v hyv)
  · rw [chain_alloc, if_neg ha]
    have hmem : ∀ x ∈ a :: g.chain a, ∀ v,
        (g.alloc cell methods).own x "__class_id__" = some v →
          g.own x "__class_id__" = some v := by
      intro x hx v hv
      have hne : x ≠ g.size := by
        rcases List.mem_cons.mp hx with rfl | hx
        · exact ha
        · exact Nat.ne_of_lt (hgood.mem_lt hx)
      rwa [own_alloc, if_neg hne] at hv
    intro x hx y hy v hxv hyv
    exact h a x hx y hy v (hmem x hx v hxv) (hmem y hy v hyv)

theorem Single.newChild (h : Single g) (hgood : Good g) {p : Nat} (hp : p < g.size) :
    Single (g.newChild p) := by
  refine h.alloc hgood ?_ (h p) ?_
  · intro x hx
    rcases List.mem_cons.mp hx with rfl | hx
    · exact hp
    · exact hgood.mem_lt hx
  · rintro x - v - ⟨⟩

/-- A stamped id is the one the class has, or a new one. -/
theorem Single.installMethod (h : Single g) (hgood : Good g) {cls : Nat} {m : MethodObj}
    {selector : String} (hselector : selector ≠ "__class_id__") :
    Single (g.installMethod cls selector m) := by
  -- the id stamped on `cls` is on no other class of a chain with `cls`
  have hstamp : ∀ a, ∀ x ∈ a :: g.chain a, ∀ y ∈ a :: g.chain a, x = cls → y ≠ cls →
      g.classId y ≠ some (.int (g.stampId cls)) := by
    rintro a x hx y hy rfl hne hyv
    cases hid : g.classId x with
    | none =>
        have hnext : g.stampId x = g.nextClassId := by simp [stampId, hid]
        obtain ⟨id, heq, -, hlt⟩ := hgood.classId_int y _ hyv
        cases heq
        omega
    | some v =>
        obtain ⟨id, rfl, -⟩ := hgood.classId_int x v hid
        rw [stampId_of_classId hid] at hyv
        exact hne (h a x hx y hy _ hid hyv).symm
  intro a x hx y hy v hxv hyv
  rw [chain_installMethod] at hx hy
  have hxv' : (if x = cls then some (Value.int (g.stampId cls)) else g.classId x) = some v :=
    (classId_installMethod hselector).symm.trans hxv
  have hyv' : (if y = cls then some (Value.int (g.stampId cls)) else g.classId y) = some v :=
    (classId_installMethod hselector).symm.trans hyv
  split at hxv' <;> split at hyv'
  · rename_i hx' hy'
    rw [hx', hy']
  · rename_i hx' hy'
    exact absurd (hyv'.trans hxv'.symm) (hstamp a x hx y hy hx' hy')
  · rename_i hx' hy'
    exact absurd (hxv'.trans hyv'.symm) (hstamp a y hy x hx hy' hx')
  · exact h a x hx y hy v hxv' hyv'

section Shapes

variable {pc : AddParent} {parents : List Nat}

theorem Single.makeShape (h : Single g) (hgood : Good g)
    (hparents : ∀ p ∈ parents, p < g.size) (hone : g.OneEach (g.ancestors parents)) :
    Single (g.makeShape pc parents) := by
  refine h.alloc hgood ?_ (hone.subset fun x hx => mem_shapeChain.mp hx) ?_
  · exact fun x hx => hgood.ancestors_lt hparents (mem_shapeChain.mp hx)
  · rintro x - v - ⟨⟩

theorem chain_makeShape :
    (g.makeShape pc parents).chain g.size = g.shapeChain pc parents := by
  unfold Graph.makeShape
  rw [chain_alloc, if_pos rfl]

theorem Single.addBehaviorToClass (h : Single g) (hgood : Good g) {cls mixin : Nat}
    (hmixin : mixin < g.size) (hapart : g.Apart (.addBehavior cls mixin)) :
    Single (g.addBehaviorToClass pc cls mixin) := by
  obtain ⟨hone, hid⟩ := hapart
  have hparents : ∀ p ∈ g.behaviorParents cls mixin, p < g.size := by
    intro p hp
    rcases List.mem_cons.mp hp with rfl | hp
    · exact hmixin
    · exact hgood.mem_lt (List.mem_reverse.mp hp)
  have hshape : Good (g.makeShape pc (g.behaviorParents cls mixin)) := hgood.makeShape hparents
  have hbuilt : Single ((g.makeShape pc (g.behaviorParents cls mixin)).alloc
      ⟨g.size :: (g.makeShape pc (g.behaviorParents cls mixin)).chain g.size, false,
        (g.cells cls).attributes⟩
      ((g.declared.filter (·.1 = cls)).map (·.2))) := by
    have hsingle : Single (g.makeShape pc (g.behaviorParents cls mixin)) :=
      h.makeShape hgood hparents hone
    refine hsingle.alloc hshape ?_ (hsingle g.size) ?_
    · intro x hx
      rcases List.mem_cons.mp hx with rfl | hx
      · exact Nat.lt_succ_self _
      · exact hshape.mem_lt hx
    · intro x hx v hxv
      have hid' : (g.makeShape pc (g.behaviorParents cls mixin)).classId x =
          if x = g.size then none else g.own x "__class_id__" := own_alloc
      have hxv' := hid'.symm.trans hxv
      split at hxv'
      · cases hxv'
      · rename_i hne
        have hmem : x ∈ g.ancestors (g.behaviorParents cls mixin) := by
          rcases List.mem_cons.mp hx with heq | hx
          · exact absurd heq hne
          · rw [chain_makeShape] at hx
            exact mem_shapeChain.mp hx
        exact hid x hmem v hxv'
  unfold Graph.addBehaviorToClass
  dsimp only
  split
  · exact hbuilt.congr (fun _ => rfl) fun _ => rfl
  · exact hbuilt

theorem Single.makeSubclassWithMixins (h : Single g) (hgood : Good g) {superCls : Nat}
    {name : String} {mixins : List Nat} (hparents : ∀ p ∈ superCls :: mixins, p < g.size)
    (hone : g.OneEach (g.ancestors (superCls :: mixins))) :
    Single (g.makeSubclassWithMixins pc superCls name mixins) := by
  have hmem : ∀ p, p ∈ mixins.reverse ++ [superCls] ↔ p ∈ superCls :: mixins := by
    intro p
    simp [or_comm]
  have hparents' : ∀ p ∈ mixins.reverse ++ [superCls], p < g.size :=
    fun p hp => hparents p ((hmem p).mp hp)
  have hone' : g.OneEach (g.ancestors (mixins.reverse ++ [superCls])) := by
    refine hone.subset fun x hx => ?_
    rw [mem_ancestors] at hx ⊢
    rcases hx with hx | hx | ⟨p, hp, hx⟩
    · exact .inl hx
    · exact .inr (.inl hx)
    · exact .inr (.inr ⟨p, (hmem p).mp hp, hx⟩)
  have hshape : Good (g.makeShape pc _) := hgood.makeShape hparents'
  have hsingle : Single (g.makeShape pc _) := h.makeShape hgood hparents' hone'
  exact (hsingle.newChild hshape (p := g.size) (Nat.lt_succ_self _)).named

end Shapes

theorem Single.subclassNamed (h : Single g) (hgood : Good g) {superCls : Nat}
    {name : String} (hsuper : superCls < g.size) :
    Single (g.subclassNamed superCls name) := by
  unfold Graph.subclassNamed
  split
  · exact h.named
  · have hchild := h.newChild hgood hsuper
    dsimp only
    split
    · exact (hchild.setAttribute (by decide)).named
    · exact hchild.named

/-- **A step that is apart leaves one class for each id on every chain.** -/
theorem Single.step (h : Single g) (hgood : Good g) {op : ClassOp}
    {g' : Graph} (hapart : g.Apart op) (hstep : (machine pc).step g op = some g') :
    Single g' := by
  obtain ⟨henabled, rfl⟩ := guarded hstep
  cases op with
  | subclassNamed superCls name => exact h.subclassNamed hgood henabled.1
  | subclass superCls name => exact (h.newChild hgood henabled.1).named
  | subclassUses superCls name mixins =>
      exact h.makeSubclassWithMixins hgood (fun p hp => (henabled p hp).1) hapart
  | addBehavior cls mixin => exact h.addBehaviorToClass hgood henabled.2.1 hapart
  | installMethod cls selector m => exact h.installMethod hgood henabled.2.1
  | newChild cls => exact h.newChild hgood henabled.1
  | setAttribute a key v => exact h.setAttribute henabled.2.1
  | bind name v => exact h.congr (fun _ => rfl) fun _ => rfl
  | kernelLoaded => exact h.congr (fun _ => rfl) fun _ => rfl

/-- What every run reaches. -/
theorem Reach.good {ok : Graph → ClassOp → Prop} (h : (machine pc).Reach ok g) : Good g :=
  h.invariant (fun _ => IsInitial.good) fun _ _ _ _ hgood _ => hgood.step

/-- What a run reaches that builds no class over two copies of one. -/
theorem Reach.single (h : (machine pc).Reach Apart g) : Single g := by
  refine (h.invariant (P := fun g => Good g ∧ Single g) ?_ ?_).2
  · intro g hinit
    refine ⟨hinit.good, fun a x hx y hy v hxv => ?_⟩
    have hnone := hinit.2.2.2.1 x
    exact absurd (hnone.symm.trans hxv) (by simp)
  · exact fun g op g' _ hg hapart hstep => ⟨hg.1.step hstep, hg.2.step hg.1 hapart hstep⟩

end Preserved

end Graph

end ProtoST.Runtime.ClassGraph

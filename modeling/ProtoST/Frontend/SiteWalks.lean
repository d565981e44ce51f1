import Mathlib
import ProtoST.Frontend.OpenScopes
import ProtoST.Frontend.OperandBound

/-!
# Emission and analysis side by side

`Follows` relates the emission of a piece of code, its identifiers and its walk by the
closure analysis: the emission keeps what is known of the open scopes, every identifier is
looked up in scopes that are known, an undeclared variable is reported for an identifier of
the piece only, and the walk has the names that the identifiers show.

## Main results

* `follows_node`, `follows_all` — expressions and statements.
* `MethodParts.follows` — methods.
-/

namespace ProtoST.Frontend

open ProtoST.Runtime.Bytecode

/-- A place within another one. -/
structure Place.Within (inner outer : Place) : Prop where
  bound : ∀ x ∈ outer.bound, x ∈ inner.bound
  inBlock : outer.inBlock = true → inner.inBlock = true
  level : outer.level ≤ inner.level

/-- The errors for a name that nothing declares. -/
def CompileError.undeclaredName : CompileError → Option String
  | .undeclared name _ | .undeclaredAssignment name _ => some name
  | _ => none

/-- The error an identifier is rejected with. -/
def Site.Rejects (s : Site) (err : CompileError) : Prop :=
  s.use = .read ∧ loadTarget s.ctx s.scope s.name = .rejected err ∨
    s.use = .write ∧ storeTarget s.ctx s.scope s.name = .rejected err

/-- The scopes of an identifier are known. -/
structure Site.Fits (s : Site) (ctx : Context) (captured : List String) : Prop where
  opens : Opens captured s.place.bound (scopes s.ctx s.scope)
  method : s.ctx.method = ctx.method
  group : s.use = .groupWrite → isInstVarTarget s.ctx s.scope s.name = true

/-- The program does not declare the identifier around it. -/
def Site.Free (s : Site) (x : String) : Prop := s.name = x ∧ x ∉ s.place.bound

/-- The emission of a piece of code, its identifiers and its walk.  `pre` is what the
lookups of the piece may rely on beside the scope it starts in. -/
structure Follows (ctx : Context) (place : Place) (captured : List String) (pre : Prop)
    (e : Emit) (s : Sites) (w : Walk) : Prop where
  grows : ∀ st : Emitter, st.scope.Grows Temporary (e st).2.scope
  errors : ∀ (st : Emitter) (err : CompileError), err ∈ (e st).2.errors →
    err.undeclaredName ≠ none →
    err ∈ st.errors ∨ ∃ site ∈ s st, site.Rejects err
  within : ∀ st : Emitter, ∀ site ∈ s st, site.place.Within place
  fits : ∀ st : Emitter, pre → Opens captured place.bound (scopes ctx st.scope) →
    ∀ site ∈ s st, site.Fits ctx captured
  declares : ∀ (st : Emitter) (x : String), x ∈ w.declared ↔
    ∃ site ∈ s st, site.name = x ∧ site.use ≠ .read ∧ site.place.inBlock = false
  direct : ∀ (st : Emitter) (x : String), x ∉ place.bound → x ∉ ctx.ivars → (x ∈ w.directRefs ↔
    ∃ site ∈ s st, site.Free x ∧ site.place.level = place.level ∧
      (site.use = .read ∨ site.place.inBlock = true))
  inner : ∀ (st : Emitter) (x : String), x ∉ place.bound → x ∉ ctx.ivars → (x ∈ w.innerNeeds ↔
    ∃ site ∈ s st, site.Free x ∧ place.level < site.place.level)
  excluded : ∀ x ∈ ctx.ivars, x ∉ w.innerNeeds

/-- Emission that does not look at the scope. -/
theorem Emit.reading_const (e : Emit) : (Emit.reading fun _ => e) = e := rfl

namespace Follows

variable {ctx : Context} {place : Place} {captured : List String} {pre : Prop}
variable {e e' E : Emit} {s s' S : Sites} {w w' : Walk}

/-- Emission that answers other code. -/
theorem of_state (h : Follows ctx place captured pre e s w) (hE : ∀ st, (E st).2 = (e st).2) :
    Follows ctx place captured pre E s w :=
  ⟨fun st => hE st ▸ h.grows st, fun st err herr => h.errors st err (hE st ▸ herr), h.within,
    h.fits, h.declares, h.direct, h.inner, h.excluded⟩

/-- Code without identifiers. -/
theorem code (hE : ∀ st, (E st).2 = st) : Follows ctx place captured pre E .none .empty where
  grows st := by
    rw [hE]
    exact .refl _
  errors st err herr _ := .inl (hE st ▸ herr)
  within _ _ hsite := by cases hsite
  fits _ _ _ _ hsite := by cases hsite
  declares _ _ := ⟨fun hx => (by cases hx), fun ⟨_, hsite, _⟩ => (by cases hsite)⟩
  direct _ _ _ _ := ⟨fun hx => (by cases hx), fun ⟨_, hsite, _⟩ => (by cases hsite)⟩
  inner _ _ _ _ := ⟨fun hx => (by cases hx), fun ⟨_, hsite, _⟩ => (by cases hsite)⟩
  excluded _ _ hx := by cases hx

theorem exists_append {l l' : List Site} {p : Site → Prop} :
    (∃ site ∈ l ++ l', p site) ↔ (∃ site ∈ l, p site) ∨ ∃ site ∈ l', p site := by
  simp [or_and_right, exists_or]

/-- One piece behind another. -/
theorem andThen (h : Follows ctx place captured pre e s w)
    (h' : Follows ctx place captured pre e' s' w') (hE : ∀ st, (E st).2 = (e' (e st).2).2) :
    Follows ctx place captured pre E (s.andThen e s') (w.union w') where
  grows st := by
    rw [hE]
    exact (h.grows st).trans (h'.grows _)
  errors st err herr hname := by
    rw [hE] at herr
    rcases h'.errors _ err herr hname with herr | ⟨site, hsite, hrejects⟩
    · rcases h.errors st err herr hname with herr | ⟨site, hsite, hrejects⟩
      · exact .inl herr
      · exact .inr ⟨site, List.mem_append_left _ hsite, hrejects⟩
    · exact .inr ⟨site, List.mem_append_right _ hsite, hrejects⟩
  within st site hsite :=
    (List.mem_append.mp hsite).elim (h.within st site) (h'.within _ site)
  fits st hpre hopens site hsite :=
    (List.mem_append.mp hsite).elim (h.fits st hpre hopens site)
      (h'.fits _ hpre (hopens.grows (h.grows st)) site)
  declares st x := by
    rw [Walk.union_declared, List.mem_append, h.declares st, h'.declares (e st).2, ← exists_append]
    rfl
  direct st x hbound hivars := by
    rw [Walk.union_directRefs, List.mem_append, h.direct st x hbound hivars,
      h'.direct (e st).2 x hbound hivars, ← exists_append]
    rfl
  inner st x hbound hivars := by
    rw [Walk.union_innerNeeds, List.mem_append, h.inner st x hbound hivars,
      h'.inner (e st).2 x hbound hivars, ← exists_append]
    rfl
  excluded x hx hmem :=
    (List.mem_append.mp hmem).elim (h.excluded x hx) (h'.excluded x hx)

/-- A piece behind the declaration of a local. -/
theorem declaring {name : String} {k : Slot → Emit} {t : Slot → Sites} (hname : Temporary name)
    (h : ∀ slot, Follows ctx place captured pre (k slot) (t slot) w) :
    Follows ctx place captured pre (Emit.declaring ctx name k) (Sites.declaring ctx name t) w where
  grows st := (Scope.Grows.declare st.scope hname).trans
    ((h (st.declareLocal ctx name).1).grows (st.declareLocal ctx name).2)
  errors st err herr hname :=
    (h (st.declareLocal ctx name).1).errors (st.declareLocal ctx name).2 err herr hname
  within st site hsite :=
    (h (st.declareLocal ctx name).1).within (st.declareLocal ctx name).2 site hsite
  fits st hpre hopens site hsite :=
    (h (st.declareLocal ctx name).1).fits (st.declareLocal ctx name).2 hpre
      (hopens.grows (Scope.Grows.declare st.scope hname)) site hsite
  declares st x := (h (st.declareLocal ctx name).1).declares (st.declareLocal ctx name).2 x
  direct st x hbound hivars :=
    (h (st.declareLocal ctx name).1).direct (st.declareLocal ctx name).2 x hbound hivars
  inner st x hbound hivars :=
    (h (st.declareLocal ctx name).1).inner (st.declareLocal ctx name).2 x hbound hivars
  excluded := (h ⟨0, 0⟩).excluded

/-- Emission that depends on the innermost scope, with what is known of that scope. -/
theorem readingOpens {k : Scope → Emit} {t : Scope → Sites}
    (h : ∀ scope, Follows ctx place captured
      (pre ∧ Opens captured place.bound (scopes ctx scope)) (k scope) (t scope) w) :
    Follows ctx place captured pre (Emit.reading k) (Sites.reading t) w where
  grows st := (h st.scope).grows st
  errors st err herr hname := (h st.scope).errors st err herr hname
  within st site hsite := (h st.scope).within st site hsite
  fits st hpre hopens site hsite := (h st.scope).fits st ⟨hpre, hopens⟩ hopens site hsite
  declares st x := (h st.scope).declares st x
  direct st x hbound hivars := (h st.scope).direct st x hbound hivars
  inner st x hbound hivars := (h st.scope).inner st x hbound hivars
  excluded := (h ⟨[], 0, [], [], [], false⟩).excluded

theorem mono {pre' : Prop} (h : Follows ctx place captured pre e s w) (hpre : pre' → pre) :
    Follows ctx place captured pre' e s w :=
  ⟨h.grows, h.errors, h.within, fun st hpre' => h.fits st (hpre hpre'), h.declares, h.direct,
    h.inner, h.excluded⟩

theorem reading {k : Scope → Emit} {t : Scope → Sites}
    (h : ∀ scope, Follows ctx place captured pre (k scope) (t scope) w) :
    Follows ctx place captured pre (Emit.reading k) (Sites.reading t) w :=
  readingOpens fun scope => (h scope).mono And.left

/-- What is known of a piece without its emission, and the emission of another one. -/
theorem of_emit (h : Follows ctx place captured pre e s w)
    (hgrows : ∀ st : Emitter, st.scope.Grows Temporary (E st).2.scope)
    (herrors : ∀ (st : Emitter) (err : CompileError), err ∈ (E st).2.errors →
      err.undeclaredName ≠ none → err ∈ st.errors ∨ ∃ site ∈ s st, site.Rejects err) :
    Follows ctx place captured pre E s w :=
  ⟨hgrows, herrors, h.within, h.fits, h.declares, h.direct, h.inner, h.excluded⟩

/-- A walk with the same names. -/
theorem of_walk (h : Follows ctx place captured pre e s w)
    (hdeclared : ∀ x, x ∈ w'.declared ↔ x ∈ w.declared)
    (hdirect : ∀ x, x ∈ w'.directRefs ↔ x ∈ w.directRefs)
    (hinner : ∀ x, x ∈ w'.innerNeeds ↔ x ∈ w.innerNeeds) :
    Follows ctx place captured pre e s w' :=
  ⟨h.grows, h.errors, h.within, h.fits, fun st x => (hdeclared x).trans (h.declares st x),
    fun st x hb hi => (hdirect x).trans (h.direct st x hb hi),
    fun st x hb hi => (hinner x).trans (h.inner st x hb hi),
    fun x hx hmem => h.excluded x hx ((hinner x).mp hmem)⟩

theorem union_empty (h : Follows ctx place captured pre e s w) :
    Follows ctx place captured pre e s (w.union .empty) :=
  h.of_walk (by simp [Walk.empty]) (by simp [Walk.empty]) (by simp [Walk.empty])

/-- A piece that is the body of a block.  Its names are what the body declares. -/
theorem ofBlock {names : List String} {inlined : Bool} {c : Emitter → Context}
    {f : Emitter → Emitter} {b : Emitter → Emit} {t : Emitter → Sites}
    (hbody : ∀ st, Follows (c st) (place.inside names inlined) captured True (b st) (t st) w)
    (hivars : ∀ st, (c st).ivars = without ctx.ivars names)
    (hmethod : ∀ st, (c st).method = ctx.method)
    (hopens : ∀ st : Emitter, Opens captured place.bound (scopes ctx st.scope) →
      Opens captured (names ++ place.bound) (scopes (c st) (f st).scope))
    (hgrows : ∀ st : Emitter, st.scope.Grows Temporary (E st).2.scope)
    (herrors : ∀ (st : Emitter) (err : CompileError), err ∈ (E st).2.errors →
      err.undeclaredName ≠ none → err ∈ st.errors ∨ ∃ site ∈ t st (f st), site.Rejects err) :
    Follows ctx place captured pre E (fun st => t st (f st))
      (.ofBlock inlined ctx.ivars names w) := by
  have hwithin : ∀ st, ∀ site ∈ t st (f st), site.place.Within (place.inside names inlined) :=
    fun st site hsite => (hbody st).within (f st) site hsite
  have hnames : ∀ st x, x ∈ names → ∀ site ∈ t st (f st), ¬ site.Free x :=
    fun st x hx site hsite hfree =>
      hfree.2 ((hwithin st site hsite).bound x (List.mem_append_left _ hx))
  have hblock : ∀ st, ∀ site ∈ t st (f st), site.place.inBlock = true :=
    fun st site hsite => (hwithin st site hsite).inBlock rfl
  -- the names that the body does not declare
  have hdirect : ∀ st x, x ∉ place.bound → x ∉ ctx.ivars →
      (x ∈ freeIn ctx.ivars names w.directRefs ↔ ∃ site ∈ t st (f st), site.Free x ∧
        site.place.level = (place.inside names inlined).level) := by
    intro st x hbound hx
    rw [mem_freeIn]
    by_cases hmem : x ∈ names
    · exact ⟨fun h => absurd hmem h.2.1,
        fun ⟨site, hsite, hfree, _⟩ => absurd hfree (hnames st x hmem site hsite)⟩
    · have hbody' := (hbody st).direct (f st) x
        (fun h => (List.mem_append.mp h).elim hmem hbound)
        (by rw [hivars]; exact fun h => hx (mem_without.mp h).1)
      rw [hbody']
      constructor
      · rintro ⟨⟨site, hsite, hfree, hlevel, -⟩, -⟩
        exact ⟨site, hsite, hfree, hlevel⟩
      · rintro ⟨site, hsite, hfree, hlevel⟩
        exact ⟨⟨site, hsite, hfree, hlevel, .inr (hblock st site hsite)⟩, hmem, hx⟩
  have hinner : ∀ st x, x ∉ place.bound → x ∉ ctx.ivars →
      (x ∈ freeIn ctx.ivars names w.innerNeeds ↔ ∃ site ∈ t st (f st), site.Free x ∧
        (place.inside names inlined).level < site.place.level) := by
    intro st x hbound hx
    rw [mem_freeIn]
    by_cases hmem : x ∈ names
    · exact ⟨fun h => absurd hmem h.2.1,
        fun ⟨site, hsite, hfree, _⟩ => absurd hfree (hnames st x hmem site hsite)⟩
    · have hbody' := (hbody st).inner (f st) x
        (fun h => (List.mem_append.mp h).elim hmem hbound)
        (by rw [hivars]; exact fun h => hx (mem_without.mp h).1)
      rw [hbody']
      exact ⟨fun h => h.1, fun h => ⟨h, hmem, hx⟩⟩
  refine ⟨hgrows, herrors, fun st site hsite => ?_, fun st _ hst site hsite => ?_,
    fun st x => ?_, fun st x hbound hx => ?_, fun st x hbound hx => ?_, fun x hx => ?_⟩
  · have h := hwithin st site hsite
    refine ⟨fun x hx => h.bound x (List.mem_append_right _ hx), fun _ => h.inBlock rfl, ?_⟩
    refine Nat.le_trans ?_ h.level
    unfold Place.inside
    dsimp only
    split <;> omega
  · have h := (hbody st).fits (f st) trivial (hopens st hst) site hsite
    exact ⟨h.opens, h.method.trans (hmethod st), h.group⟩
  · have hnone : x ∉ (Walk.ofBlock inlined ctx.ivars names w).declared := by
      cases inlined <;> exact List.not_mem_nil
    refine ⟨fun h => absurd h hnone, ?_⟩
    rintro ⟨site, hsite, -, -, hblock'⟩
    rw [hblock st site hsite] at hblock'
    cases hblock'
  · cases inlined with
    | true =>
        show x ∈ freeIn ctx.ivars names w.directRefs ↔ _
        rw [hdirect st x hbound hx]
        exact exists_congr fun site => and_congr_right fun hsite => and_congr_right fun _ =>
          ⟨fun h => ⟨h, .inr (hblock st site hsite)⟩, And.left⟩
    | false =>
        refine ⟨fun h => (by cases h), ?_⟩
        rintro ⟨site, hsite, -, hlevel, -⟩
        have hle := (hwithin st site hsite).level
        rw [hlevel] at hle
        exact absurd hle (Nat.not_succ_le_self _)
  · cases inlined with
    | true => exact hinner st x hbound hx
    | false =>
        show x ∈ freeIn ctx.ivars names w.directRefs ++ freeIn ctx.ivars names w.innerNeeds ↔ _
        rw [List.mem_append, hdirect st x hbound hx, hinner st x hbound hx]
        constructor
        · rintro (⟨site, hsite, hfree, hlevel⟩ | ⟨site, hsite, hfree, hlevel⟩)
          · exact ⟨site, hsite, hfree, hlevel ▸ Nat.lt_succ_self _⟩
          · exact ⟨site, hsite, hfree, Nat.lt_of_succ_lt hlevel⟩
        · rintro ⟨site, hsite, hfree, -⟩
          rcases Nat.eq_or_lt_of_le (hwithin st site hsite).level with hlevel | hlevel
          · exact .inl ⟨site, hsite, hfree, hlevel.symm⟩
          · exact .inr ⟨site, hsite, hfree, hlevel⟩
  · have hfree : ∀ xs, x ∉ freeIn ctx.ivars names xs := fun xs h => (mem_freeIn.mp h).2.2 hx
    cases inlined with
    | true => exact hfree _
    | false => exact fun h => (List.mem_append.mp h).elim (hfree _) (hfree _)

end Follows

/-! ## The constructs of the compiler -/

section Constructs

variable {ctx : Context} {place : Place} {captured : List String} {pre : Prop}

/-- An identifier by itself. -/
theorem follows_site {x : String} {use : Use} {E : Emit} {scope : Emitter → Scope}
    (hfits : ∀ st : Emitter, pre → Opens captured place.bound (scopes ctx st.scope) →
      Site.Fits ⟨x, use, ctx, scope st, place⟩ ctx captured)
    (hgrows : ∀ st : Emitter, st.scope.Grows Temporary (E st).2.scope)
    (herrors : ∀ (st : Emitter) (err : CompileError), err ∈ (E st).2.errors →
      err ∈ st.errors ∨ Site.Rejects ⟨x, use, ctx, scope st, place⟩ err) :
    Follows ctx place captured pre E (fun st => [⟨x, use, ctx, scope st, place⟩])
      (if use = .read ∨ place.inBlock = true then .refs x else .declares x) where
  grows := hgrows
  errors st err herr _ :=
    (herrors st err herr).imp_right fun h => ⟨_, List.mem_singleton_self _, h⟩
  within st site hsite := by
    rw [List.mem_singleton.mp hsite]
    exact ⟨fun _ => id, id, Nat.le_refl _⟩
  fits st hpre hopens site hsite := by
    rw [List.mem_singleton.mp hsite]
    exact hfits st hpre hopens
  declares st y := by
    split
    · rename_i hread
      refine ⟨fun h => (by cases h), ?_⟩
      rintro ⟨site, hsite, -, hwrite, hblock⟩
      rw [List.mem_singleton.mp hsite] at hwrite hblock
      rcases hread with hread | hread
      · exact absurd hread hwrite
      · rw [hread] at hblock
        cases hblock
    · rename_i hwrite
      obtain ⟨hread, hblock⟩ := not_or.mp hwrite
      simp only [Walk.declares, List.mem_singleton, exists_eq_left]
      exact ⟨fun h => ⟨h.symm, hread, by simpa using hblock⟩, fun h => h.1.symm⟩
  direct st y hbound _ := by
    simp only [List.mem_singleton, exists_eq_left, Site.Free, true_and]
    split
    · rename_i hread
      simp only [Walk.refs, List.mem_singleton]
      exact ⟨fun h => ⟨⟨h.symm, hbound⟩, hread⟩, fun h => h.1.1.symm⟩
    · rename_i hwrite
      exact ⟨fun h => (by cases h), fun h => absurd h.2 hwrite⟩
  inner st y _ _ := by
    have hnone : y ∉ (if use = .read ∨ place.inBlock = true then Walk.refs x
        else Walk.declares x).innerNeeds := by
      split <;> exact List.not_mem_nil
    refine ⟨fun h => absurd h hnone, ?_⟩
    rintro ⟨site, hsite, -, hlevel⟩
    rw [List.mem_singleton.mp hsite] at hlevel
    exact absurd hlevel (Nat.lt_irrefl _)
  excluded y _ := by
    split <;> exact List.not_mem_nil

theorem follows_load (x : String) :
    Follows ctx place captured pre (emitLoad ctx x) (sitesLoad ctx place x) (.refs x) := by
  have hstate : ∀ st : Emitter, (emitLoad ctx x st).2 = st ∨
      ∃ err, loadTarget ctx st.scope x = .rejected err ∧ (emitLoad ctx x st).2 = st.error err := by
    intro st
    unfold emitLoad Emit.reading
    dsimp only
    cases htarget : loadTarget ctx st.scope x with
    | rejected err => exact .inr ⟨err, rfl, rfl⟩
    | instVar =>
        dsimp only
        split <;> exact .inl rfl
    | captured | slot s | classVar | global | fresh => exact .inl rfl
  have hsite := @follows_site ctx place captured pre x .read (emitLoad ctx x) Emitter.scope
    (fun st _ hopens => ⟨hopens, rfl, fun h => (by cases h)⟩) (fun st => ?_)
    (fun st err herr => ?_)
  · rwa [if_pos (.inl rfl)] at hsite
  · rcases hstate st with heq | ⟨err, -, heq⟩ <;> rw [heq] <;> exact .refl _
  · rcases hstate st with heq | ⟨err', htarget, heq⟩
    · exact .inl (heq ▸ herr)
    · rw [heq] at herr
      rcases List.mem_append.mp herr with herr | herr
      · exact .inl herr
      · rw [List.mem_singleton.mp herr]
        exact .inr (.inl ⟨rfl, htarget⟩)

theorem follows_store (hmethod : ctx.method ≠ none) (stmt : Bool)
    (x : String) {value : Emit} {s : Sites} {w : Walk}
    (hvalue : Follows ctx place captured pre value s w) :
    Follows ctx place captured pre (emitStore ctx stmt x value) (sitesStore ctx place x s)
      ((if place.inBlock = true then Walk.refs x else Walk.declares x).union w) := by
  have hsite := @follows_site ctx place captured pre x .write (fun st => ([], st)) Emitter.scope
    (fun st _ hopens => ⟨hopens, rfl, fun h => (by cases h)⟩) (fun _ => .refl _)
    fun st err herr => .inl herr
  have hboth := hsite.andThen hvalue (E := value) fun _ => rfl
  have hfresh : ∀ st : Emitter, storeTarget ctx st.scope x ≠ .fresh :=
    fun st => storeTarget_ne_fresh hmethod
  have hstate : ∀ st : Emitter, (emitStore ctx stmt x value st).2 = (value st).2 ∨
      ∃ err, storeTarget ctx st.scope x = .rejected err ∧
        (emitStore ctx stmt x value st).2 = st.error err := by
    intro st
    have hne := hfresh st
    unfold emitStore Emit.reading
    dsimp only
    cases htarget : storeTarget ctx st.scope x with
    | rejected err => exact .inr ⟨err, rfl, rfl⟩
    | fresh => exact absurd htarget hne
    | captured | slot s | instVar | classVar | global => exact .inl rfl
  have hsites : sitesStore ctx place x s
      = Sites.andThen (fun st => [⟨x, .write, ctx, st.scope, place⟩]) (fun st => ([], st)) s := by
    funext st
    unfold sitesStore Sites.andThen
    rw [if_neg (hfresh st)]
    rfl
  rw [hsites]
  have hwalk : (if place.inBlock = true then Walk.refs x else Walk.declares x)
      = if Use.write = .read ∨ place.inBlock = true then Walk.refs x else Walk.declares x := by
    simp
  rw [hwalk]
  refine hboth.of_emit (fun st => ?_) (fun st err herr hname => ?_)
  · rcases hstate st with heq | ⟨err, -, heq⟩
    · rw [heq]
      exact hboth.grows st
    · rw [heq]
      exact .refl _
  · rcases hstate st with heq | ⟨err', htarget, heq⟩
    · rw [heq] at herr
      exact hboth.errors st err herr hname
    · rw [heq] at herr
      rcases List.mem_append.mp herr with herr | herr
      · exact .inl herr
      · rw [List.mem_singleton.mp herr]
        exact .inr ⟨_, List.mem_append_left _ (List.mem_singleton_self _), .inr ⟨rfl, htarget⟩⟩

/-- An argument as an expression and, when it is a block literal, as an inlined one. -/
structure ArgFollows (ctx : Context) (place : Place) (captured : List String) (inlined : Bool)
    (n : Node) (a : ArgSites) : Prop where
  expr : Follows ctx place captured True a.emits.expr a.expr
    (walkNode ctx.ivars place.inBlock inlined n)
  body : ∀ args locals stmts, n = .block args locals stmts →
    Follows { ctx with ivars := without ctx.ivars (args ++ locals) }
      (place.inside (args ++ locals) true) captured True a.emits.body a.body
      (walkAll (without ctx.ivars (args ++ locals)) true stmts)

abbrev PartsFollow (ctx : Context) (place : Place) (captured : List String) (inlined : Bool)
    (parts : List (Ident × Node)) (args : List ArgSites) : Prop :=
  List.Forall₂ (fun p a => ArgFollows ctx place captured inlined p.2 a) parts args

variable {inlined : Bool}

theorem follows_exprs {parts : List (Ident × Node)} {args : List ArgSites}
    (h : PartsFollow ctx place captured inlined parts args) :
    Follows ctx place captured True (emitExprs (args.map ArgSites.emits)) (sitesExprs args)
      (walkParts ctx.ivars place.inBlock inlined parts) := by
  induction h with
  | nil => exact .code fun _ => rfl
  | cons ha _ ih => exact ha.expr.andThen ih fun _ => rfl

/-- A block literal without names that is inlined. -/
theorem ArgFollows.inlineable {n : Node} {a : ArgSites}
    (h : ArgFollows ctx place captured inlined n a) (hn : n.isInlineableBlock = true) :
    Follows ctx place captured True a.emits.body a.body
      (walkNode ctx.ivars place.inBlock true n) := by
  obtain ⟨stmts, rfl⟩ : ∃ stmts, n = .block [] [] stmts := by
    unfold Node.isInlineableBlock at hn
    split at hn
    · exact ⟨_, rfl⟩
    · cases hn
  have hbody := h.body [] [] stmts rfl
  rw [walkNode]
  exact Follows.ofBlock (c := fun _ => { ctx with ivars := without ctx.ivars [] })
    (f := id) (b := fun _ => a.emits.body) (t := fun _ => a.body) (fun _ => hbody) (fun _ => rfl)
    (fun _ => rfl) (fun _ => id) hbody.grows hbody.errors

/-- The variable of a loop and its body. -/
theorem ArgFollows.loop {n : Node} {a : ArgSites}
    (h : ArgFollows ctx place captured inlined n a) (hn : n.isLoopBlock = true) (slot : Nat) :
    Follows ctx place captured True (emitBound n.loopVariable slot a.emits.body)
      (sitesBound n.loopVariable slot a.body) (walkNode ctx.ivars place.inBlock true n) := by
  obtain ⟨i, stmts, rfl⟩ : ∃ i stmts, n = .block [i] [] stmts := by
    unfold Node.isLoopBlock at hn
    split at hn
    · exact ⟨_, _, rfl⟩
    · cases hn
  have hbody := h.body [i] [] stmts rfl
  rw [walkNode]
  exact Follows.ofBlock (c := fun _ => { ctx with ivars := without ctx.ivars [i] })
    (f := fun st => st.setScope (st.scope.bindLoop i slot)) (b := fun _ => a.emits.body)
    (t := fun _ => a.body) (fun _ => hbody) (fun _ => rfl) (fun _ => rfl)
    (fun st hopens => hopens.loop i slot)
    (fun st => (hbody.grows (st.setScope (st.scope.bindLoop i slot))).unbindLoop)
    (fun st err herr => hbody.errors (st.setScope (st.scope.bindLoop i slot)) err herr)

theorem follows_toDo {n : Node} {wstart wstop : Walk} {start stop body : ArgSites}
    (hstart : Follows ctx place captured True start.emits.expr start.expr wstart)
    (hstop : Follows ctx place captured True stop.emits.expr stop.expr wstop)
    (hbody : ArgFollows ctx place captured inlined n body) (hn : n.isLoopBlock = true) :
    Follows ctx place captured True
      (emitToDo ctx n.loopVariable start.emits.expr stop.emits.expr body.emits.body)
      (sitesToDo ctx n.loopVariable start stop body.body)
      (wstart.union (wstop.union (walkNode ctx.ivars place.inBlock true n))) :=
  .reading fun _ => .declaring (temporary_hidden _ (by simp)) fun slotI =>
    .declaring (temporary_hidden _ (by simp)) fun _ => hstart.andThen (hstop.andThen (E := fun st =>
        emitBound n.loopVariable slotI.index body.emits.body (stop.emits.expr st).2)
      (hbody.loop hn slotI.index) fun _ => rfl) fun _ => rfl

theorem follows_doYielding {wreceiver wblock : Walk} {receiver block : ArgSites}
    (hreceiver : Follows ctx place captured True receiver.emits.expr receiver.expr wreceiver)
    (hblock : Follows ctx place captured True block.emits.expr block.expr wblock) :
    Follows ctx place captured True
      (emitDoYielding ctx receiver.emits.expr block.emits.expr)
      (sitesDoYielding ctx receiver block) (wreceiver.union wblock) :=
  .reading fun _ => .declaring (temporary_hidden _ (by simp)) fun _ =>
    .declaring (temporary_hidden _ (by simp)) fun _ =>
    .declaring (temporary_hidden _ (by simp)) fun _ =>
    .declaring (temporary_hidden _ (by simp)) fun _ => hreceiver.andThen hblock fun _ => rfl

theorem walk_keywordSend (ivars : List String) (inBlock inlined : Bool) (r : Node)
    (parts : List (Ident × Node)) :
    walkNode ivars inBlock inlined (.keywordSend r parts)
      = (walkNode ivars inBlock (inlinedSend ivars r parts) r).union
        (walkParts ivars inBlock (inlinedSend ivars r parts) parts) := by
  rcases parts with _ | ⟨p, _ | ⟨⟨k', n'⟩, _ | ⟨q, rest⟩⟩⟩
  · rw [walkNode, inlinedSend] <;> simp
  · rw [walkNode, inlinedSend] <;> simp
  · cases n' with
    | block args locals body =>
        rw [walkNode, inlinedSend]
        rfl
    | _ => rw [walkNode, inlinedSend] <;> simp
  · rw [walkNode, inlinedSend] <;> simp

/-- Keyword messages, in the cases of `emitKeyword`. -/
theorem follows_keyword {r : Node} {parts : List (Ident × Node)} {receiver : ArgSites}
    {args : List ArgSites}
    (hr : ArgFollows ctx place captured (inlinedSend ctx.ivars r parts) r receiver)
    (hargs : PartsFollow ctx place captured (inlinedSend ctx.ivars r parts) parts args) :
    Follows ctx place captured True
      (emitKeyword ctx r parts receiver.emits (args.map ArgSites.emits))
      (sitesKeyword ctx r parts receiver args)
      ((walkNode ctx.ivars place.inBlock (inlinedSend ctx.ivars r parts) r).union
        (walkParts ctx.ivars place.inBlock (inlinedSend ctx.ivars r parts) parts)) := by
  have hsend : Follows ctx place captured True
      (receiver.emits.expr ++ emitExprs (args.map ArgSites.emits) ++
        Emit.code [sendOp r.isSuper .keyword (keywordSelector (parts.map Prod.fst))])
      (receiver.expr.andThen receiver.emits.expr (sitesExprs args)) _ :=
    hr.expr.andThen (follows_exprs hargs) fun _ => rfl
  cases hargs with
  | nil => exact hsend
  | @cons p a ps as ha hrest =>
    obtain ⟨k, n⟩ := p
    cases hrest with
    | nil =>
      show Follows ctx place captured True (if _ then _ else if _ then if _ then _ else _ else _)
        (if _ then _ else if _ then if _ then _ else _ else _) _
      by_cases hyield : (k.text = "doYielding" && !r.isSuper && n.isDoYieldingBlock) = true
      · rw [if_pos hyield, if_pos hyield]
        exact follows_doYielding hr.expr ha.expr.union_empty
      rw [if_neg hyield, if_neg hyield]
      by_cases hinl : inlinedSend ctx.ivars r [(k, n)] = true
      · rw [if_pos hinl, if_pos hinl]
        obtain ⟨hn, hselector⟩ := inlinedSend_one hinl
        rw [hinl] at hr ha ⊢
        by_cases hif : (k.text = "ifTrue" || k.text = "ifFalse") = true
        · rw [if_pos hif, if_pos hif]
          exact hr.expr.andThen (ha.inlineable hn).union_empty fun _ => rfl
        · rw [if_neg hif, if_neg hif]
          simp only [Bool.or_eq_true, decide_eq_true_eq, not_or] at hif
          have hcond := (hselector.resolve_left hif.1).resolve_left hif.2
          exact (hr.inlineable hcond).andThen (ha.inlineable hn).union_empty fun _ => rfl
      · rw [if_neg hinl, if_neg hinl]
        exact hsend
    | @cons p' b ps as hb hrest =>
      obtain ⟨k', n'⟩ := p'
      cases hrest with
      | nil =>
        show Follows ctx place captured True (if _ then if _ then _ else if _ then _ else _ else _)
          (if _ then if _ then _ else if _ then _ else _ else _) _
        by_cases hinl : inlinedSend ctx.ivars r [(k, n), (k', n')] = true
        · rw [if_pos hinl, if_pos hinl]
          have hblocks := inlinedSend_two hinl
          rw [hinl] at hr ha hb ⊢
          by_cases hto : k.text = "to"
          · rw [if_pos hto, if_pos hto]
            rw [if_pos hto] at hblocks
            refine (follows_toDo hr.expr ha.expr hb hblocks).of_walk ?_ ?_ ?_ <;>
              simp [walkParts, Walk.empty]
          · rw [if_neg hto, if_neg hto]
            rw [if_neg hto] at hblocks
            have hna := ha.inlineable hblocks.1
            have hnb := hb.inlineable hblocks.2
            by_cases hfalse : k.text = "ifFalse"
            · rw [if_pos hfalse, if_pos hfalse]
              have hbranches := hnb.andThen (E := fun st => a.emits.body (b.emits.body st).2)
                hna fun _ => rfl
              refine Follows.of_walk (hr.expr.andThen hbranches fun _ => rfl) ?_ ?_ ?_ <;>
                simp [walkParts, Walk.empty, or_comm]
            · rw [if_neg hfalse, if_neg hfalse]
              have hbranches := hna.andThen (E := fun st => b.emits.body (a.emits.body st).2)
                hnb fun _ => rfl
              refine Follows.of_walk (hr.expr.andThen hbranches fun _ => rfl) ?_ ?_ ?_ <;>
                simp [walkParts, Walk.empty]
        · rw [if_neg hinl, if_neg hinl]
          exact hsend
      | cons _ _ => exact hsend

/-- A block literal that is emitted as a block, whatever the analysis takes it for. -/
theorem follows_block (inlined : Bool) {args locals : List String} {stmts : List Node}
    {body : Context → Emit} {sites : Context → Place → Sites}
    (hbody : ∀ inner : Context, inner.ivars = without ctx.ivars (args ++ locals) →
      inner.method = ctx.method →
      Follows inner (place.inside (args ++ locals) inlined) captured True (body inner)
        (sites inner (place.inside (args ++ locals) inlined))
        (walkAll (without ctx.ivars (args ++ locals)) true stmts))
    (hempty : stmts = [] → ∀ inner st, (body inner st).2 = st) :
    Follows ctx place captured True (emitBlock ctx args locals stmts body)
      (sitesBlock ctx place inlined args locals stmts sites)
      (.ofBlock inlined ctx.ivars (args ++ locals)
        (walkAll (without ctx.ivars (args ++ locals)) true stmts)) := by
  refine Follows.ofBlock (c := fun st => ctx.inBlock st.scope (args ++ locals))
    (f := fun st => ⟨openScope (blockCaptured ctx.ivars (args ++ locals) stmts) args locals false,
      [], [], st.errors ++ duplicateErrors (args ++ locals) "a block"⟩)
    (b := fun st => body (ctx.inBlock st.scope (args ++ locals)))
    (t := fun st => sites (ctx.inBlock st.scope (args ++ locals))
      (place.inside (args ++ locals) inlined))
    (fun st => hbody _ rfl rfl) (fun _ => rfl) (fun _ => rfl) (fun st hopens => ?_)
    (fun st => .refl st.scope) (fun st err herr hname => ?_)
  · refine hopens.block (openScope_isMethod _ _ _ _) (fun x => ?_) (fun x hx => ?_)
    · rw [lookup_openScope]
      simp
    · rw [openScope_captured] at hx
      exact (mem_blockCaptured.mp hx).1
  · -- the errors of the block are those of its duplicate names and of its body
    have hstate : (emitBlock ctx args locals stmts body st).2.errors
        = (body (ctx.inBlock st.scope (args ++ locals)) ⟨openScope
          (blockCaptured ctx.ivars (args ++ locals) stmts) args locals false, [], [],
          st.errors ++ duplicateErrors (args ++ locals) "a block"⟩).2.errors := by
      by_cases hstmts : stmts = []
      · rw [hempty hstmts]
        subst hstmts
        rfl
      · have hne : stmts.isEmpty = false := by simpa using hstmts
        simp only [emitBlock, hne]
        rfl
    rw [hstate] at herr
    rcases (hbody (ctx.inBlock st.scope (args ++ locals)) rfl rfl).errors _ err herr hname with
      herr | hsite
    · rcases List.mem_append.mp herr with herr | herr
      · exact .inl herr
      · obtain ⟨x, -, rfl⟩ := List.mem_map.mp herr
        exact absurd rfl hname
    · exact .inr hsite

/-! ### Statements -/

/-- A write group that has been decided on covers assignments to instance variables. -/
def GroupOk (ctx : Context) (group : Nat × Nat) (start : Scope) (stmts : List Node) : Prop :=
  group.2 = 0 ∨ group.1 < group.2 ∧ ∃ written rest, stmts = written ++ rest ∧
    group.1 + written.length = group.2 ∧
    ∀ n ∈ written, ∃ x v, n = .assignment x v ∧ isInstVarTarget ctx start x = true

theorem groupTail_written (scope : Scope) (stmts : List Node) :
    ∀ names taken, ∃ written rest, stmts = written ++ rest ∧
      written.length = groupTail ctx scope names taken stmts ∧
      ∀ n ∈ written, ∃ x v, n = .assignment x v ∧ isInstVarTarget ctx scope x = true := by
  induction stmts with
  | nil => exact fun _ _ => ⟨[], [], rfl, rfl, by simp⟩
  | cons n stmts ih =>
      intro names taken
      cases n with
      | assignment x v =>
          simp only [groupTail]
          split
          · rename_i hjoins
            simp only [Bool.and_eq_true, decide_eq_true_eq] at hjoins
            obtain ⟨written, rest, hstmts, hlength, hall⟩ := ih (x :: names) (taken + 1)
            refine ⟨.assignment x v :: written, rest, by rw [hstmts]; rfl, by simp [hlength], ?_⟩
            intro n hn
            rcases List.mem_cons.mp hn with rfl | hn
            · exact ⟨x, v, rfl, hjoins.1.2⟩
            · exact hall n hn
          · exact ⟨[], _, rfl, rfl, by simp⟩
      | _ => exact ⟨[], _, rfl, rfl, by simp⟩

/-- What `tryEmitInstVarGroup` decides. -/
theorem groupRun_ok (scope : Scope) (stmts : List Node) :
    GroupOk ctx (0, groupRun ctx scope stmts) scope stmts := by
  by_cases hzero : groupRun ctx scope stmts = 0
  · exact .inl hzero
  · refine .inr ⟨Nat.pos_of_ne_zero hzero, ?_⟩
    have hrun := hzero
    unfold groupRun at hrun
    split at hrun
    · rename_i hgroups
      split at hrun
      · rename_i x v rest
        split at hrun
        · rename_i htarget
          obtain ⟨written, rest', hrest, hlength, hall⟩ :=
            @groupTail_written ctx scope rest [x] 1
          refine ⟨.assignment x v :: written, rest', by rw [hrest]; rfl, ?_, ?_⟩
          · have hvalue : groupRun ctx scope (.assignment x v :: rest)
                = groupTail ctx scope [x] 1 rest + 1 := by
              dsimp only at hrun
              split at hrun
              · exact absurd rfl hrun
              · rename_i hlt
                simp only [groupRun, hgroups, htarget, if_true, if_neg hlt]
            rw [hvalue, List.length_cons, hlength]
            exact Nat.zero_add _
          · intro n hn
            rcases List.mem_cons.mp hn with rfl | hn
            · exact ⟨x, v, rfl, htarget⟩
            · exact hall n hn
        · exact absurd rfl hrun
      · exact absurd rfl hrun
    · exact absurd rfl hrun

theorem walk_assignment (ivars : List String) (inBlock inlined : Bool) (x : String) (v : Node) :
    walkNode ivars inBlock inlined (.assignment x v)
      = (if inBlock = true then Walk.refs x else Walk.declares x).union
        (walkNode ivars inBlock false v) := by
  rw [walkNode]

/-- The next write of a group is an assignment to an instance variable. -/
theorem GroupOk.head {group : Nat × Nat} {start : Scope} {x : String} {v : Node}
    {rest : List Node} (h : GroupOk ctx group start (.assignment x v :: rest))
    (hgroup : group.2 ≠ 0) :
    isInstVarTarget ctx start x = true ∧
      GroupOk ctx (if group.1 + 1 < group.2 then (group.1 + 1, group.2) else (0, 0)) start
        rest := by
  obtain ⟨hlt, written, rest', hstmts, hlength, hall⟩ := h.resolve_left hgroup
  cases written with
  | nil =>
      rw [List.length_nil] at hlength
      omega
  | cons n written =>
      obtain ⟨rfl, rfl⟩ := List.cons.inj hstmts
      obtain ⟨y, v', heq, htarget⟩ := hall _ List.mem_cons_self
      cases heq
      refine ⟨htarget, ?_⟩
      split
      · rename_i hmore
        refine .inr ⟨hmore, written, rest', rfl, ?_, fun n hn => hall n (List.mem_cons_of_mem _ hn)⟩
        rw [List.length_cons] at hlength
        dsimp only
        omega
      · exact .inl rfl

/-- One write of a group. -/
theorem follows_groupWrite {x : String} {v : Node} {start : Scope} {position count : Nat}
    {value : Emit} {s : Sites} {next : Emit} {t : Sites} {w : Walk}
    (hpre : pre → Opens captured place.bound (scopes ctx start))
    (htarget : isInstVarTarget ctx start x = true)
    (hvalue : Follows ctx place captured True value s (walkNode ctx.ivars place.inBlock false v))
    (hnext : Follows ctx place captured pre next t w) {E : Emit}
    (hE : ∀ st, (E st).2 = (next (emitGroupWrite x position count value st).2).2) :
    Follows ctx place captured pre E
      (fun st => ⟨x, .groupWrite, ctx, start, place⟩ ::
        s.andThen (emitGroupWrite x position count value) t st)
      ((walkNode ctx.ivars place.inBlock false (.assignment x v)).union w) := by
  have hsite := @follows_site ctx place captured pre x .groupWrite (fun st => ([], st))
    (fun _ => start) (fun st hp _ => ⟨hpre hp, rfl, fun _ => htarget⟩) (fun st => .refl _)
    (fun st err herr => .inl herr)
  have hwrite : Follows ctx place captured pre (emitGroupWrite x position count value) s
      (walkNode ctx.ivars place.inBlock false v) :=
    (hvalue.mono fun _ => trivial).of_emit hvalue.grows hvalue.errors
  have hrest := hwrite.andThen (E := fun st => next (emitGroupWrite x position count value st).2)
    hnext fun _ => rfl
  refine (hsite.andThen hrest hE).of_walk ?_ ?_ ?_ <;>
    simp [walk_assignment]

/-- One turn of `emitStatements`. -/
theorem follows_turn {group : Nat × Nat} {start : Scope} {n : Node} {rest : List Node}
    {stmt value : Sites} {stmtEmit valueEmit : Emit} {next : Nat × Nat → Emit}
    {nextSites : Nat × Nat → Scope → Sites} {w : Walk}
    (hgroup : GroupOk ctx group start (n :: rest))
    (hstmt : Follows ctx place captured True stmtEmit stmt
      (walkNode ctx.ivars place.inBlock false n))
    (hvalue : ∀ x v, n = .assignment x v → Follows ctx place captured True valueEmit value
      (walkNode ctx.ivars place.inBlock false v))
    (hnext : ∀ group start, GroupOk ctx group start rest →
      Follows ctx place captured (group.2 ≠ 0 → Opens captured place.bound (scopes ctx start))
        (next group) (nextSites group start) w) :
    Follows ctx place captured (group.2 ≠ 0 → Opens captured place.bound (scopes ctx start))
      (emitTurn ctx group n rest stmtEmit valueEmit next)
      (sitesTurn ctx place group start n rest stmt value stmtEmit valueEmit nextSites)
      ((walkNode ctx.ivars place.inBlock false n).union w) := by
  refine Follows.readingOpens fun scope => ?_
  -- the group this statement stands in, decided here when it is the first one
  obtain ⟨start', hstart'⟩ : ∃ s, s = if group.2 = 0 then scope else start := ⟨_, rfl⟩
  obtain ⟨g, hg⟩ : ∃ g, g = if group.2 = 0 then (0, groupRun ctx scope (n :: rest)) else group :=
    ⟨_, rfl⟩
  have hok : GroupOk ctx g start' (n :: rest) := by
    rw [hg, hstart']
    split
    · exact groupRun_ok scope _
    · exact hgroup
  have hopens : (group.2 ≠ 0 → Opens captured place.bound (scopes ctx start)) ∧
      Opens captured place.bound (scopes ctx scope) →
      Opens captured place.bound (scopes ctx start') := by
    rintro ⟨hstart, hscope⟩
    rw [hstart']
    split
    · exact hscope
    · rename_i hne
      exact hstart hne
  rw [← hg, ← hstart']
  -- outside the groups
  have hplain : Follows ctx place captured
      ((group.2 ≠ 0 → Opens captured place.bound (scopes ctx start)) ∧
        Opens captured place.bound (scopes ctx scope))
      (stmtEmit ++ popBetween rest.isEmpty ++ next (0, 0))
      (stmt.andThen stmtEmit (nextSites (0, 0) start'))
      ((walkNode ctx.ivars place.inBlock false n).union w) :=
    (hstmt.mono fun _ => trivial).andThen
      ((hnext (0, 0) start' (.inl rfl)).mono fun _ h => absurd rfl h) fun _ => rfl
  obtain ⟨position, count⟩ := g
  cases n with
  | assignment x v =>
      cases count with
      | zero => exact hplain
      | succ count =>
          obtain ⟨htarget, hok'⟩ := hok.head (Nat.succ_ne_zero count)
          refine follows_groupWrite hopens htarget (hvalue x v rfl)
            ((hnext _ start' hok').mono fun h _ => hopens h) fun st => ?_
          dsimp only
          split <;> rfl
  | _ => exact hplain

/-- A construct that is rejected unread. -/
theorem Follows.rejected {e E : Emit} {s : Sites} {w : Walk} {err : CompileError}
    (h : Follows ctx place captured pre e s w) (herr : err.undeclaredName = none)
    (hE : ∀ st, (E st).2 = st.error err) : Follows ctx place captured pre E s w := by
  refine h.of_emit (fun st => ?_) (fun st err' herr' hname => ?_)
  · rw [hE]
    exact .refl st.scope
  · rw [hE] at herr'
    rcases List.mem_append.mp herr' with herr' | herr'
    · exact .inl herr'
    · rw [List.mem_singleton.mp herr'] at hname
      exact absurd herr hname

end Constructs

/-! ## The syntax tree -/

section Tree

variable (captured : List String)

theorem sitesParts_emits (ctx : Context) (place : Place) (inlined : Bool)
    (parts : List (Ident × Node)) :
    (sitesParts ctx place inlined parts).map ArgSites.emits = emitParts ctx parts := by
  induction parts with
  | nil => rw [sitesParts, emitParts, List.map_nil]
  | cons p parts ih => rw [sitesParts, emitParts, List.map_cons, ih]

mutual

/-- **Expressions and statements.** -/
theorem follows_node (ctx : Context) (place : Place) (hm : ctx.method ≠ none)
    (inlined stmt : Bool) :
    ∀ n, Follows ctx place captured True (emitNode ctx stmt n) (sitesNode ctx place inlined n)
      (walkNode ctx.ivars place.inBlock inlined n)
  | .literal _ | .trueLit | .falseLit | .nilLit | .self | .super => by
    rw [emitNode, sitesNode, walkNode]
    exact .code fun _ => rfl
  | .thisContext => by
    rw [emitNode, sitesNode, walkNode]
    exact Follows.rejected (.code (E := Emit.code []) fun _ => rfl) rfl fun _ => rfl
  | .identifier x => by
    rw [emitNode, sitesNode, walkNode]
    exact follows_load x
  | .assignment x v => by
    rw [walk_assignment, emitNode, sitesNode]
    exact follows_store hm stmt x (follows_node ctx place hm false false v)
  | .unarySend r _ => by
    rw [emitNode, sitesNode, walkNode]
    exact (follows_node ctx place hm false false r).of_state fun _ => rfl
  | .binarySend r _ a => by
    rw [emitNode, sitesNode, walkNode]
    exact (follows_node ctx place hm false false r).andThen
      (follows_node ctx place hm false false a)
      fun _ => rfl
  | .keywordSend r parts => by
    rw [walk_keywordSend, emitNode, sitesNode, ← sitesParts_emits ctx place
      (inlinedSend ctx.ivars r parts) parts]
    have hr : ArgFollows ctx place captured (inlinedSend ctx.ivars r parts) r
        ⟨⟨emitNode ctx false r, emitInlinedBlockBody ctx r⟩,
          sitesNode ctx place (inlinedSend ctx.ivars r parts) r,
          sitesInlinedBlockBody ctx place r⟩ :=
      ⟨follows_node ctx place hm _ false r, follows_inlinedBlockBody ctx place hm r⟩
    have hkeyword := follows_keyword hr
      (follows_parts ctx place hm (inlinedSend ctx.ivars r parts) parts)
    exact hkeyword
  | .callSend r name ps ns => by
    have hparts := follows_exprs (follows_parts ctx place hm false ns)
    rw [sitesParts_emits] at hparts
    have hargs := (follows_args ctx place hm ps).andThen (E := emitArgs ctx ps ++
      emitExprs (emitParts ctx ns)) hparts fun _ => rfl
    have hall := (follows_node ctx place hm false false r).andThen (E := emitNode ctx false r ++
      (emitArgs ctx ps ++ emitExprs (emitParts ctx ns))) hargs fun _ => rfl
    rw [emitNode, sitesNode, walkNode]
    split
    · exact hall.rejected rfl fun _ => rfl
    · exact hall.of_state fun _ => rfl
  | .cascade r ms => by
    rw [emitNode, sitesNode, walkNode]
    exact (follows_node ctx place hm false false r).andThen
      (.reading fun _ => .declaring (temporary_hidden _ (by simp)) fun tmp =>
        follows_partials ctx place hm r.isSuper tmp ms)
      fun _ => rfl
  | .arrayLit es => by
    rw [emitNode, sitesNode, walkNode]
    exact (follows_args ctx place hm es).of_state fun _ => rfl
  | .block args locals body => by
    rw [walkNode, emitNode, sitesNode]
    refine follows_block inlined (fun inner hivars hmethod => ?_) fun hempty inner st => ?_
    · have hbody : ∀ scope, Follows inner (place.inside (args ++ locals) inlined) captured True
          (emitAll inner (0, 0) body)
          (sitesAll inner (place.inside (args ++ locals) inlined) (0, 0) scope body)
          (walkAll inner.ivars true body) :=
        fun scope => (follows_all inner (place.inside (args ++ locals) inlined) (hmethod ▸ hm)
          (0, 0) scope body
          (.inl rfl)).mono fun _ h => absurd rfl h
      rw [← hivars]
      exact .reading hbody
    · rw [hempty, emitAll]
      rfl
  | .ret v => by
    have hv := follows_node ctx place hm false false v
    rw [emitNode, sitesNode, walkNode]
    cases stmt with
    | true => exact hv.of_state fun _ => rfl
    | false => exact hv.rejected (E := Emit.fail .unsupported [.op .pushNil]) rfl fun _ => rfl

theorem follows_args (ctx : Context) (place : Place) (hm : ctx.method ≠ none) :
    ∀ ns, Follows ctx place captured True (emitArgs ctx ns) (sitesArgs ctx place ns)
      (walkAll ctx.ivars place.inBlock ns)
  | [] => by
    rw [emitArgs, sitesArgs, walkAll]
    exact .code fun _ => rfl
  | n :: rest => by
    rw [emitArgs, sitesArgs, walkAll]
    exact (follows_node ctx place hm false false n).andThen (follows_args ctx place hm rest)
      fun _ => rfl

theorem follows_parts (ctx : Context) (place : Place) (hm : ctx.method ≠ none)
    (inlined : Bool) :
    ∀ parts, PartsFollow ctx place captured inlined parts (sitesParts ctx place inlined parts)
  | [] => by
    rw [sitesParts]
    exact .nil
  | (_, n) :: rest => by
    rw [sitesParts]
    exact .cons ⟨follows_node ctx place hm inlined false n, follows_inlinedBlockBody ctx place hm n⟩
      (follows_parts ctx place hm inlined rest)

theorem follows_cascaded (ctx : Context) (place : Place) (hm : ctx.method ≠ none)
    (isSuper : Bool) :
    ∀ m, Follows ctx place captured True (emitPartial ctx isSuper m) (sitesPartial ctx place m)
      (walkPartial ctx.ivars place.inBlock m)
  | .unary _ _ => by
    rw [emitPartial, sitesPartial, walkPartial]
    exact .code fun _ => rfl
  | .binary _ a => by
    rw [emitPartial, sitesPartial, walkPartial]
    exact (follows_node ctx place hm false false a).of_state fun _ => rfl
  | .keyword parts => by
    have hparts := follows_exprs (follows_parts ctx place hm false parts)
    rw [sitesParts_emits] at hparts
    rw [emitPartial, sitesPartial, walkPartial]
    exact hparts.of_state fun _ => rfl
  | .call _ ps ns => by
    have hparts := follows_exprs (follows_parts ctx place hm false ns)
    rw [sitesParts_emits] at hparts
    have hargs := (follows_args ctx place hm ps).andThen (E := emitArgs ctx ps ++
      emitExprs (emitParts ctx ns)) hparts fun _ => rfl
    rw [emitPartial, sitesPartial, walkPartial]
    exact hargs.rejected rfl fun _ => rfl

theorem follows_partials (ctx : Context) (place : Place) (hm : ctx.method ≠ none)
    (isSuper : Bool) (tmp : Slot) :
    ∀ ms, Follows ctx place captured True (emitPartials ctx isSuper tmp ms)
      (sitesPartials ctx place isSuper tmp ms) (walkPartials ctx.ivars place.inBlock ms)
  | [] => by
    rw [emitPartials, sitesPartials, walkPartials]
    exact .code fun _ => rfl
  | m :: rest => by
    rw [emitPartials, sitesPartials, walkPartials]
    exact (follows_cascaded ctx place hm isSuper m).andThen
      (follows_partials ctx place hm isSuper tmp rest) fun _ => rfl

theorem follows_inlinedBlockBody (ctx : Context) (place : Place) (hm : ctx.method ≠ none) :
    ∀ n args locals stmts,
    n = .block args locals stmts →
      Follows { ctx with ivars := without ctx.ivars (args ++ locals) }
        (place.inside (args ++ locals) true) captured True (emitInlinedBlockBody ctx n)
        (sitesInlinedBlockBody ctx place n)
          (walkAll (without ctx.ivars (args ++ locals)) true stmts)
  | .block args locals stmts, _, _, _, rfl => by
    have hbody : ∀ scope, Follows { ctx with ivars := without ctx.ivars (args ++ locals) }
        (place.inside (args ++ locals) true) captured True
        (emitAll { ctx with ivars := without ctx.ivars (args ++ locals) } (0, 0) stmts)
        (sitesAll { ctx with ivars := without ctx.ivars (args ++ locals) }
          (place.inside (args ++ locals) true) (0, 0) scope stmts)
        (walkAll (without ctx.ivars (args ++ locals)) true stmts) :=
      fun scope => (follows_all { ctx with ivars := without ctx.ivars (args ++ locals) }
        (place.inside (args ++ locals) true) hm (0, 0) scope stmts (.inl rfl)).mono fun _ h =>
          absurd rfl h
    have hreading := Follows.reading hbody
    rw [Emit.reading_const] at hreading
    rw [emitInlinedBlockBody, sitesInlinedBlockBody]
    cases stmts with
    | nil =>
      refine hreading.of_state fun st => ?_
      rw [emitAll]
      rfl
    | cons n rest =>
      simp only [List.isEmpty_cons, Bool.false_eq_true, if_false]
      exact hreading

theorem follows_value (ctx : Context) (place : Place) (hm : ctx.method ≠ none) :
    ∀ n x v, n = .assignment x v →
    Follows ctx place captured True (emitValue ctx n) (sitesValue ctx place n)
      (walkNode ctx.ivars place.inBlock false v)
  | .assignment _ v, _, _, rfl => by
    rw [emitValue, sitesValue]
    exact follows_node ctx place hm false false v

/-- **Statement lists.** -/
theorem follows_all (ctx : Context) (place : Place) (hm : ctx.method ≠ none)
    (group : Nat × Nat) (start : Scope) :
    ∀ stmts, GroupOk ctx group start stmts →
      Follows ctx place captured (group.2 ≠ 0 → Opens captured place.bound (scopes ctx start))
        (emitAll ctx group stmts) (sitesAll ctx place group start stmts)
        (walkAll ctx.ivars place.inBlock stmts)
  | [], _ => by
    rw [emitAll, sitesAll, walkAll]
    exact .code fun _ => rfl
  | n :: rest, hgroup => by
    rw [emitAll, sitesAll, walkAll]
    exact follows_turn hgroup (follows_node ctx place hm false true n)
      (follows_value ctx place hm n)
      fun group start hgroup' => follows_all ctx place hm group start rest hgroup'

end

end Tree

/-! ## Methods -/

theorem walkAll_append (ivars : List String) (inBlock : Bool) (ns ms : List Node) :
    walkAll ivars inBlock (ns ++ ms) =
      (walkAll ivars inBlock ns).union (walkAll ivars inBlock ms) := by
  induction ns with
  | nil => simp [walkAll, Walk.union, Walk.empty]
  | cons n ns ih => simp [walkAll, ih, Walk.union]

theorem follows_defaults (captured : List String) {ctx : Context} (place : Place)
    (hm : ctx.method ≠ none) (named : List (String × Node)) : ∀ slot,
    Follows ctx place captured True (emitDefaults ctx slot named) (sitesDefaults ctx place named)
      (walkAll ctx.ivars place.inBlock (named.map Prod.snd)) := by
  induction named with
  | nil => exact fun _ => .code fun _ => rfl
  | cons p named ih =>
      intro slot
      rw [List.map_cons, walkAll]
      exact (follows_node captured ctx place hm false false p.2).andThen (ih (slot + 1))
        fun _ => rfl

namespace MethodParts

variable (m : MethodParts) (cls : ClassScope) (ctx : Context) (st : Emitter)

/-- The code of the method behind its prologues. -/
def emitCode : Emit :=
  emitDefaults (m.context cls ctx st.scope) (1 + (m.args.length - m.defaults.length)) m.defaults
    ++ emitMethodBody (m.context cls ctx st.scope) m.body

/-- The identifiers of the method, as those of its code. -/
def sitesCode : Sites :=
  (sitesDefaults (m.context cls ctx st.scope) m.place m.defaults).andThen
    (emitDefaults (m.context cls ctx st.scope) (1 + (m.args.length - m.defaults.length)) m.defaults)
    (.reading fun scope => sitesAll (m.context cls ctx st.scope) m.place (0, 0) scope m.body)

theorem follows :
    Follows (m.context cls ctx st.scope) m.place m.captured True (m.emitCode cls ctx st)
      (m.sitesCode cls ctx st) (walkAll (without m.analysed m.names) false m.walked) := by
  have hm : (m.context cls ctx st.scope).method ≠ none := Option.some_ne_none _
  have hall : ∀ scope, Follows (m.context cls ctx st.scope) m.place m.captured True
      (emitAll (m.context cls ctx st.scope) (0, 0) m.body)
      (sitesAll (m.context cls ctx st.scope) m.place (0, 0) scope m.body)
      (walkAll (without m.analysed m.names) false m.body) :=
    fun scope => (follows_all m.captured (m.context cls ctx st.scope) m.place hm (0, 0) scope m.body
      (.inl rfl)).mono fun _ h => absurd rfl h
  have hbody := (Follows.reading hall).of_state (E := emitMethodBody (m.context cls ctx st.scope)
    m.body) fun st' => by
      unfold emitMethodBody
      cases m.body with
      | nil =>
          rw [emitAll]
          rfl
      | cons n rest =>
          simp only [List.isEmpty_cons, Bool.false_eq_true, if_false]
          split <;> rfl
  have hdefaults := follows_defaults m.captured m.place hm m.defaults
    (1 + (m.args.length - m.defaults.length))
  rw [walked, walkAll_append]
  exact hdefaults.andThen hbody fun _ => rfl

theorem sites_eq : m.sites cls ctx st = m.sitesCode cls ctx st (m.start cls st) := rfl

/-- The errors of a method are those of its code. -/
theorem emit_errors :
    (m.emit cls ctx st).2 = (m.emitCode cls ctx st (m.start cls st)).2.errors := rfl

/-- The scopes that are open where the code of the method starts. -/
theorem opens :
    Opens m.captured m.place.bound (scopes (m.context cls ctx st.scope)
      (m.start cls st).scope) := by
  have hmethod : m.scope.isMethod = true := openScope_isMethod _ _ _ _
  have hslots : ∀ x, (m.scope.slots.lookup x).isSome ↔ x ∈ m.place.bound := by
    intro x
    rw [scope, lookup_openScope]
    simp [place, names]
  have hopens : Opens m.scope.captured m.place.bound (m.scope :: scopes ctx st.scope) :=
    .method hmethod hslots
  rwa [scope, openScope_captured] at hopens

/-- A name that is not declared in the method is captured when it is assigned outside every
block and needed in a block. -/
theorem mem_captured {v : String} (hname : v ∉ m.names) :
    v ∈ m.captured ↔ v ∈ (walkAll (without m.analysed m.names) false m.walked).declared ∧
      v ∈ (walkAll (without m.analysed m.names) false m.walked).innerNeeds := by
  simp [captured, scopeCaptured, hname]

end MethodParts

end ProtoST.Frontend

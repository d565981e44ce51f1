import ProtoST.Lib.Follow

/-!
# Trails

A loop that follows the pointers of a graph and collects what it passes, until it comes to
a node without an entry or to one it has passed before.

## Main results

* `exists_trail` — with one round more than there are entries the loop ends.
* `mem_trail` — it collects the entries of the nodes the start leads to.
* `trail_mono`, `trail_congr` — more rounds change nothing, nor do entries elsewhere.
-/

namespace ProtoST.Lib.Follow

universe u v

variable {α : Type u} {ε : Type v} [DecidableEq α] (entry : α → Option ε) (next : ε → α)

/-- The entries passed from `a` on, in order. -/
def trail : Nat → List α → α → Option (List ε)
  | 0, _, _ => none
  | n + 1, seen, a =>
      if a ∈ seen then some []
      else
        match entry a with
        | none => some []
        | some e => (trail n (a :: seen) (next e)).map (e :: ·)

/-- The pointers of the entries. -/
def pointer (a : α) : Option α := (entry a).map next

variable {entry next} {n : Nat}

theorem exists_trail_of_card (support : Finset α)
    (hsupport : ∀ a, (entry a).isSome → a ∈ support) :
    ∀ {seen : List α} {a : α}, seen.Nodup → (∀ x ∈ seen, x ∈ support) →
      support.card < n + seen.length → ∃ es, trail entry next n seen a = some es := by
  induction n with
  | zero =>
      intro seen a hnodup hsub hcard
      have hle := (List.toFinset_card_of_nodup hnodup).symm.trans_le
        (Finset.card_le_card fun x hx => hsub x (List.mem_toFinset.mp hx))
      omega
  | succ n ih =>
      intro seen a hnodup hsub hcard
      unfold trail
      split
      · exact ⟨[], rfl⟩
      · rename_i hnew
        cases hentry : entry a with
        | none => exact ⟨[], rfl⟩
        | some e =>
            have ha : a ∈ support := hsupport a (Option.isSome_of_eq_some hentry)
            obtain ⟨es, hes⟩ := @ih (a :: seen) (next e) (List.nodup_cons.mpr ⟨hnew, hnodup⟩)
              (List.forall_mem_cons.mpr ⟨ha, hsub⟩) (by rw [List.length_cons]; omega)
            exact ⟨e :: es, by simp only [hes, Option.map_some]⟩

/-- The loop ends. -/
theorem exists_trail (support : Finset α) (hsupport : ∀ a, (entry a).isSome → a ∈ support)
    (hn : support.card < n) (a : α) : ∃ es, trail entry next n [] a = some es :=
  exists_trail_of_card support hsupport List.nodup_nil (by simp) (by simpa using hn)

/-- The nodes passed are closed under the pointers, up to the node the loop is at. -/
theorem mem_trail_of_closed : ∀ {seen : List α} {a : α} {es : List ε} {e : ε},
    (∀ x ∈ seen, ∀ y, pointer entry next x = some y → y ∈ seen ∨ y = a) →
    trail entry next n seen a = some es →
      (e ∈ es ↔ ∃ b, b ∉ seen ∧ Leads (pointer entry next) a b ∧ entry b = some e) := by
  induction n with
  | zero =>
      intro seen a es e _ h
      cases h
  | succ n ih =>
      intro seen a es e hclosed h
      unfold trail at h
      split at h
      · -- nothing leads out of the nodes that were passed
        rename_i ha
        cases h
        have hstay : ∀ b, Leads (pointer entry next) a b → b ∈ seen := by
          intro b hb
          induction hb with
          | refl => exact ha
          | tail _ hedge ih => exact (hclosed _ ih _ hedge).elim id (· ▸ ha)
        refine ⟨fun hmem => (by cases hmem), ?_⟩
        rintro ⟨b, hb, hleads, -⟩
        exact absurd (hstay b hleads) hb
      · rename_i hnew
        cases hentry : entry a with
        | none =>
            rw [hentry] at h
            cases h
            refine ⟨fun hmem => (by cases hmem), ?_⟩
            rintro ⟨b, -, hleads, hb⟩
            rcases Relation.ReflTransGen.cases_head hleads with rfl | ⟨c, hc, -⟩
            · rw [hentry] at hb
              cases hb
            · have hnone : pointer entry next a = none := by rw [pointer, hentry, Option.map_none]
              rw [Edge, hnone] at hc
              cases hc
        | some e₀ =>
            rw [hentry] at h
            obtain ⟨es', hes', rfl⟩ := Option.map_eq_some_iff.mp h
            have hpointer : pointer entry next a = some (next e₀) := by
              rw [pointer, hentry, Option.map_some]
            have hrest := @ih (a :: seen) (next e₀) es' e (by
              intro x hx y hy
              rcases List.mem_cons.mp hx with rfl | hx
              · exact .inr (Option.some.inj (hy.symm.trans hpointer))
              · rcases hclosed x hx y hy with hseen | rfl
                · exact .inl (List.mem_cons_of_mem _ hseen)
                · exact .inl List.mem_cons_self) hes'
            rw [List.mem_cons, hrest]
            constructor
            · rintro (rfl | ⟨b, hb, hleads, hbe⟩)
              · exact ⟨a, hnew, .refl, hentry⟩
              · exact ⟨b, fun hmem => hb (List.mem_cons_of_mem _ hmem), .head hpointer hleads, hbe⟩
            · rintro ⟨b, hb, hleads, hbe⟩
              by_cases hba : b = a
              · rw [hba, hentry] at hbe
                exact .inl (Option.some.inj hbe).symm
              · rcases Relation.ReflTransGen.cases_head hleads with heq | ⟨c, hc, hcb⟩
                · exact absurd heq.symm hba
                · obtain rfl : next e₀ = c := Option.some.inj (hpointer.symm.trans hc)
                  refine .inr ⟨b, fun hmem => ?_, hcb, hbe⟩
                  exact (List.mem_cons.mp hmem).elim hba hb

/-- The loop collects the entries of the nodes its start leads to. -/
theorem mem_trail {a : α} {es : List ε} {e : ε} (h : trail entry next n [] a = some es) :
    e ∈ es ↔ ∃ b, Leads (pointer entry next) a b ∧ entry b = some e := by
  rw [mem_trail_of_closed (by simp) h]
  simp

/-- More rounds than it needs change nothing. -/
theorem trail_mono {n m : Nat} (hle : n ≤ m) : ∀ {seen : List α} {a : α} {es : List ε},
    trail entry next n seen a = some es → trail entry next m seen a = some es := by
  induction n generalizing m with
  | zero =>
      intro seen a es h
      cases h
  | succ n ih =>
      intro seen a es h
      obtain ⟨m, rfl⟩ : ∃ k, m = k + 1 := ⟨m - 1, by omega⟩
      unfold trail at h ⊢
      split at h
      · rename_i ha
        rw [if_pos ha]
        exact h
      · rename_i ha
        rw [if_neg ha]
        cases hentry : entry a with
        | none =>
            rw [hentry] at h
            exact h
        | some e =>
            rw [hentry] at h
            obtain ⟨es', hes', rfl⟩ := Option.map_eq_some_iff.mp h
            exact Option.map_eq_some_iff.mpr ⟨es', ih (by omega) hes', rfl⟩

/-- The loop reads the entries of the nodes it is led to. -/
theorem trail_congr {entry' : α → Option ε} : ∀ {seen : List α} {a : α},
    (∀ b, Leads (pointer entry next) a b → entry' b = entry b) →
      trail entry' next n seen a = trail entry next n seen a := by
  induction n with
  | zero => exact fun _ => rfl
  | succ n ih =>
      intro seen a h
      unfold trail
      rw [h a .refl]
      split
      · rfl
      · cases hentry : entry a with
        | none => rfl
        | some e =>
            have hpointer : pointer entry next a = some (next e) := by
              rw [pointer, hentry, Option.map_some]
            have hrest := @ih (a :: seen) (next e) fun b hb => h b (.head hpointer hb)
            simp only [hrest]

end ProtoST.Lib.Follow

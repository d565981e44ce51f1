import ProtoST.Kernel.Fractions

/-!
# The number of a rational

A canonical number is the form of its value (`ofRat`), so that arithmetic on canonical numbers is
rewritten to arithmetic on rationals.

## Main results

* `eq_ofRat` — a canonical number is the form of its value.
* `add_ofRat`, `mul_ofRat`, `div_ofRat`, `floor_ofRat` — arithmetic on such forms.
-/

namespace ProtoST.Kernel.Fractions

open ProtoST.Primitives.IntegerDivision (Division)

/-- The canonical form of a rational number. -/
def ofRat (q : ℚ) : Number :=
  if q.den = 1 then .integer q.num else .fraction ⟨q.num, q.den⟩

theorem ofRat_spec (q : ℚ) : (ofRat q).Canonical ∧ (ofRat q).value = q := by
  unfold ofRat
  split
  next hOne => exact ⟨trivial, Rat.coe_int_num_of_den_eq_one hOne⟩
  next hOne =>
    have hPos := q.den_pos
    have hReduced : Int.gcd q.num q.den = 1 := q.reduced
    have hDen : (1 : Int) < q.den := by omega
    exact ⟨⟨hDen, hReduced⟩, Rat.num_div_den q⟩

theorem canonical_ofRat (q : ℚ) : (ofRat q).Canonical := (ofRat_spec q).1

theorem proper_ofRat (q : ℚ) : (ofRat q).Proper := (canonical_ofRat q).proper

@[simp] theorem value_ofRat (q : ℚ) : (ofRat q).value = q := (ofRat_spec q).2

theorem eq_ofRat {x : Number} (hx : x.Canonical) : x = ofRat x.value :=
  hx.eq_of_value (canonical_ofRat _) (value_ofRat _).symm

theorem answers_eq {s : Sent Number} {q : ℚ} (h : Answers s q) : s = .ok (ofRat q) := by
  obtain ⟨x, rfl, hCanonical, rfl⟩ := h
  exact congrArg Except.ok (eq_ofRat hCanonical)

theorem ofRat_intCast (n : Int) : ofRat n = .integer n :=
  (eq_ofRat (x := .integer n) trivial).symm

section Rationals

variable (core : Division) (p q : ℚ)

theorem add_ofRat : Number.add core (ofRat p) (ofRat q) = .ok (ofRat (p + q)) := by
  have h := answers_eq (Number.add_answers core (proper_ofRat p) (proper_ofRat q))
  rwa [value_ofRat, value_ofRat] at h

theorem sub_ofRat : Number.sub core (ofRat p) (ofRat q) = .ok (ofRat (p - q)) := by
  have h := answers_eq (Number.sub_answers core (proper_ofRat p) (proper_ofRat q))
  rwa [value_ofRat, value_ofRat] at h

theorem mul_ofRat : Number.mul core (ofRat p) (ofRat q) = .ok (ofRat (p * q)) := by
  have h := answers_eq (Number.mul_answers core (proper_ofRat p) (proper_ofRat q))
  rwa [value_ofRat, value_ofRat] at h

theorem div_ofRat {q : ℚ} (hq : q ≠ 0) :
    Number.div core (ofRat p) (ofRat q) = .ok (ofRat (p / q)) := by
  have h := (Number.div_divides core (proper_ofRat p) (proper_ofRat q)).1 (by rwa [value_ofRat])
  rw [value_ofRat, value_ofRat] at h
  exact answers_eq h

theorem floor_ofRat : Number.floor core (ofRat p) = .ok (.integer ⌊p⌋) := by
  have h := answers_eq (Number.floor_answers core (proper_ofRat p))
  rwa [value_ofRat, ofRat_intCast] at h

theorem le_ofRat : Number.le core (ofRat p) (ofRat q) = .ok (decide (p ≤ q)) := by
  have h := Number.le_eq core (proper_ofRat p) (proper_ofRat q)
  rwa [value_ofRat, value_ofRat] at h

theorem ge_ofRat : Number.ge core (ofRat p) (ofRat q) = .ok (decide (p ≥ q)) := by
  have h := Number.ge_eq core (proper_ofRat p) (proper_ofRat q)
  rwa [value_ofRat, value_ofRat] at h

theorem gt_ofRat : Number.gt core (ofRat p) (ofRat q) = .ok (decide (p > q)) := by
  have h := Number.gt_eq core (proper_ofRat p) (proper_ofRat q)
  rwa [value_ofRat, value_ofRat] at h

theorem eq_zero_ofRat : Number.eq (ofRat p) (.integer 0) = .ok (decide (p = 0)) := by
  have h := Number.eq_eq (canonical_ofRat p) (y := .integer 0) trivial
  rwa [value_ofRat, show (Number.integer 0).value = 0 from Int.cast_zero] at h

end Rationals

end ProtoST.Kernel.Fractions

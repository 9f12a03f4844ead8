import EraPrecompiles.Curve.Order
import Mathlib.GroupTheory.Perm.Cycle.Type

/-!
# The number of points

Over a finite field a curve has at most two points for each first coordinate.  Divisors of
the number of points come from points of known prime order; without a point of order two
the number is odd.  For the curves of the precompiles this is enough to determine it.

The last part is about a group of order `r * c` with `r` prime to `c`: the elements that are
killed by `r` are the multiples of one of them.
-/

namespace EraPrecompiles

namespace ShortWeierstrass

section Counting

variable {K : Type*} [Field K] {E : ShortWeierstrass K}

/-- The first coordinate, if there is one. -/
def abscissa : E.Point → Option K
  | .zero => none
  | .some x _ _ => some x

theorem abscissa_zero : abscissa (0 : E.Point) = none := rfl

theorem abscissa_of_coords {A : E.Point} {x y : K} (h : Coords A x y) :
    abscissa A = some x := by
  obtain ⟨_, rfl⟩ := h
  rfl

theorem eq_or_eq_neg_of_abscissa {A B : E.Point} (h : abscissa A = abscissa B) :
    A = B ∨ A = -B := by
  rcases eq_zero_or_coords A with rfl | ⟨x₁, y₁, hA⟩
  · rcases eq_zero_or_coords B with rfl | ⟨x₂, y₂, hB⟩
    · exact Or.inl rfl
    · rw [abscissa_zero, abscissa_of_coords hB] at h
      exact absurd h (Option.some_ne_none x₂).symm
  · rcases eq_zero_or_coords B with rfl | ⟨x₂, y₂, hB⟩
    · rw [abscissa_zero, abscissa_of_coords hA] at h
      exact absurd h (Option.some_ne_none x₁)
    · rw [abscissa_of_coords hA, abscissa_of_coords hB, Option.some.injEq] at h
      subst h
      rcases hA.eq_or_eq_neg hB with rfl | rfl
      · exact Or.inl (hA.point_unique hB)
      · exact Or.inr (hA.point_unique hB.neg)

theorem finite_point [Finite K] : Finite E.Point := by
  refine Finite.of_injective
    (fun A : E.Point => match A with
      | .zero => (none : Option (K × K))
      | .some x y _ => some (x, y)) ?_
  intro A B h
  rcases A with _ | ⟨x₁, y₁, hA⟩ <;> rcases B with _ | ⟨x₂, y₂, hB⟩
  · rfl
  · exact absurd h (by simp)
  · exact absurd h (by simp)
  · simpa using h

/-- At most two points for each first coordinate. -/
theorem card_point_le [Finite K] : Nat.card E.Point ≤ 2 * (Nat.card K + 1) := by
  classical
  have hfinite : Finite E.Point := finite_point
  have hK : Fintype K := Fintype.ofFinite K
  have hpoint : Fintype E.Point := Fintype.ofFinite E.Point
  have hfiber : ∀ a ∈ (Finset.univ : Finset E.Point).image abscissa,
      (Finset.univ.filter fun A : E.Point => abscissa A = a).card ≤ 2 := by
    intro a ha
    obtain ⟨B, -, rfl⟩ := Finset.mem_image.mp ha
    have hsub : (Finset.univ.filter fun A : E.Point => abscissa A = abscissa B) ⊆ {B, -B} := by
      intro A hA
      rw [Finset.mem_insert, Finset.mem_singleton]
      exact eq_or_eq_neg_of_abscissa (Finset.mem_filter.mp hA).2
    exact (Finset.card_le_card hsub).trans Finset.card_le_two
  have himage : ((Finset.univ : Finset E.Point).image abscissa).card ≤ Nat.card K + 1 := by
    refine (Finset.card_le_univ _).trans (le_of_eq ?_)
    rw [Fintype.card_option, Nat.card_eq_fintype_card]
  rw [Nat.card_eq_fintype_card (α := E.Point), ← Finset.card_univ]
  exact (Finset.card_le_mul_card_image _ 2 hfiber).trans (Nat.mul_le_mul_left 2 himage)

variable [DecidableEq K]

/-- A point of prime order. -/
theorem dvd_card_of_orderCheck (ha : E.a = 0) {q : ℕ} (hq : q.Prime) {x y : K}
    (h : E.OnCurve x y) (hcheck : orderCheck x y q = true) : q ∣ Nat.card E.Point := by
  have hprime : Fact q.Prime := ⟨hq⟩
  have hxy : Coords (E.point x y h) x y := coords_point h
  have horder : addOrderOf (E.point x y h) = q :=
    addOrderOf_eq_prime (nsmul_eq_zero_of_orderCheck ha hxy hq.one_lt hcheck) hxy.ne_zero
  rw [← horder]
  exact addOrderOf_dvd_natCard _

/-- Without a point of order two the number of points is odd. -/
theorem odd_card [Finite K] (hroot : ∀ x, ¬E.OnCurve x 0) : ¬2 ∣ Nat.card E.Point := by
  have hfinite : Finite E.Point := finite_point
  have hpoint : Fintype E.Point := Fintype.ofFinite E.Point
  intro h
  rw [Nat.card_eq_fintype_card] at h
  have htwo : Fact (Nat.Prime 2) := ⟨Nat.prime_two⟩
  obtain ⟨A, hA⟩ := exists_prime_addOrderOf_dvd_card 2 h
  have hA0 : A ≠ 0 := by
    rintro rfl
    rw [addOrderOf_zero] at hA
    omega
  refine double_ne_zero hroot hA0 ?_
  rw [← two_nsmul, ← hA]
  exact addOrderOf_nsmul_eq_zero A

end Counting

end ShortWeierstrass

section Torsion

variable {G : Type*} [AddCommGroup G] [Finite G] {A B : G} {r c : ℕ}

/-- In a group of order `r * c` with `r` prime to `c`, the elements killed by `r` are the
multiples of any element of order `r`. -/
theorem exists_nsmul_of_torsion (hcard : Nat.card G = r * c) (hcop : Nat.Coprime r c)
    (hr : 0 < r) (hA : addOrderOf A = r) (hB : r • B = 0) : ∃ k : ℕ, B = k • A := by
  have hquot : Nat.card (G ⧸ AddSubgroup.zmultiples A) = c := by
    have h := AddSubgroup.card_eq_card_quotient_mul_card_addSubgroup (AddSubgroup.zmultiples A)
    rw [hcard, Nat.card_zmultiples, hA, Nat.mul_comm r c] at h
    exact (Nat.eq_of_mul_eq_mul_right hr h).symm
  have hmem : B ∈ AddSubgroup.zmultiples A := by
    rw [← QuotientAddGroup.eq_zero_iff]
    have hrzero : r • (B : G ⧸ AddSubgroup.zmultiples A) = 0 := by
      rw [← QuotientAddGroup.mk_nsmul, hB, QuotientAddGroup.mk_zero]
    have hczero : c • (B : G ⧸ AddSubgroup.zmultiples A) = 0 := by
      rw [← hquot]
      exact card_nsmul_eq_zero'
    have hdvd := Nat.dvd_gcd (addOrderOf_dvd_of_nsmul_eq_zero hrzero)
      (addOrderOf_dvd_of_nsmul_eq_zero hczero)
    rw [hcop, Nat.dvd_one] at hdvd
    exact AddMonoid.addOrderOf_eq_one_iff.mp hdvd
  rw [← mem_multiples_iff_mem_zmultiples] at hmem
  obtain ⟨k, hk⟩ := hmem
  exact ⟨k, hk.symm⟩

end Torsion

end EraPrecompiles

import EraPrecompiles.Bn254.G1
import EraPrecompiles.Curve.PrimeOrder

/-!
# The order of G1

The curve has `r` points, so every point but infinity generates it.  The words of a point decode
to it again, and different points have different words.
-/

namespace EraPrecompiles.Bn254

open ShortWeierstrass

theorem generator_multipleIsInfinity : multipleIsInfinity g1.a 1 2 r = true := by
  decide +kernel

theorem generator_onCurve : g1.OnCurve 1 2 := by
  decide

theorem card_g1 : Nat.card g1.Point = r :=
  card_eq_prime prime_r.out (by decide) g1_y_ne_zero generator_onCurve
    generator_multipleIsInfinity

/-! ## Words of points -/

theorem decodePoint_pointWords (A : g1.Point) :
    ∃ x y, pointWords A = [x, y] ∧ decodePoint x y = some A := by
  rcases eq_zero_or_coords A with rfl | ⟨x, y, hA⟩
  · exact ⟨0, 0, pointWords_zero, decodePoint_zero⟩
  · have hx : ((toWord x).toNat : Fp) = x := cast_toWord x
    have hy : ((toWord y).toNat : Fp) = y := cast_toWord y
    have hcurve : g1.OnCurve (toWord x).toNat (toWord y).toNat := by
      rw [hx, hy]
      exact hA.onCurve
    obtain ⟨B, hB, hB'⟩ := decodePoint_of_onCurve (toNat_toWord_lt x) (toNat_toWord_lt y) hcurve
    refine ⟨toWord x, toWord y, pointWords_of_coords hA, ?_⟩
    rw [hB, (hB'.congr hx hy).point_unique hA]

/-- The words of a decoded point: both zero, or coordinates below `p`. -/
theorem decodePoint_eq_some {x y : Word} {A : g1.Point} (h : decodePoint x y = some A) :
    (x = 0 ∧ y = 0) ∧ A = 0 ∨
      ¬(x = 0 ∧ y = 0) ∧ (x.toNat < p ∧ y.toNat < p) ∧ Coords A (x.toNat : Fp) y.toNat := by
  by_cases h0 : x = 0 ∧ y = 0
  · obtain ⟨rfl, rfl⟩ := h0
    rw [decodePoint_zero] at h
    exact Or.inl ⟨⟨rfl, rfl⟩, (Option.some.inj h).symm⟩
  · right
    by_cases hvalid : (x.toNat < p ∧ y.toNat < p) ∧ g1.OnCurve x.toNat y.toNat
    · obtain ⟨B, hB, hcoords⟩ := decodePoint_of_onCurve hvalid.1.1 hvalid.1.2 hvalid.2
      obtain rfl : B = A := Option.some.inj (hB.symm.trans h)
      exact ⟨h0, hvalid.1, hcoords⟩
    · rw [decodePoint_eq_none h0 hvalid] at h
      cases h

theorem pointWords_generator : pointWords (g1.point 1 2 generator_onCurve) = [1, 2] := by
  rw [pointWords_of_coords (coords_point generator_onCurve)]
  decide

theorem decodePoint_generator : decodePoint 1 2 = some (g1.point 1 2 generator_onCurve) := by
  obtain ⟨x, y, hwords, hdecode⟩ := decodePoint_pointWords (g1.point 1 2 generator_onCurve)
  rw [pointWords_generator] at hwords
  obtain ⟨hx, hy⟩ : 1 = x ∧ 2 = y := by
    simpa using hwords
  rwa [hx, hy]

/-- The words of a decoded point are the words it was decoded from. -/
theorem pointWords_of_decode {x y : Word} {A : g1.Point} (h : decodePoint x y = some A) :
    pointWords A = [x, y] := by
  rcases decodePoint_eq_some h with ⟨⟨rfl, rfl⟩, rfl⟩ | ⟨-, hlt, hcoords⟩
  · exact pointWords_zero
  · rw [pointWords_of_coords hcoords, toWord_cast hlt.1, toWord_cast hlt.2]

theorem encodePoint_inj {A B : g1.Point} : encodePoint A = encodePoint B ↔ A = B := by
  constructor
  · intro h
    obtain ⟨x, y, hA, hdecode⟩ := decodePoint_pointWords A
    obtain ⟨x', y', hB, hdecode'⟩ := decodePoint_pointWords B
    rw [encodePoint, encodePoint, hA, hB] at h
    have hwords : [x, y] = [x', y'] := flatMap_wordBytes_inj rfl h
    obtain ⟨rfl, rfl⟩ : x = x' ∧ y = y' := by
      simpa using hwords
    exact Option.some.inj (hdecode.symm.trans hdecode')
  · exact congrArg encodePoint

theorem answer_some_inj {A B : g1.Point} : answer (some A) = answer (some B) ↔ A = B := by
  rw [answer, answer, Halt.returned.injEq, encodePoint_inj]

end EraPrecompiles.Bn254

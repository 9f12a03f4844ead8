import EraPrecompiles.Bn254.G1Order
import EraPrecompiles.Precompiles.EcAdd
import EraPrecompiles.Precompiles.EcMul
import EraPrecompiles.Yul.Call

/-!
# Calls with points

EcAdd and EcMul called with the words of points.  The answer is the words of the sum or of the
multiple, so that a caller can pass it on to the next call.
-/

namespace EraPrecompiles

open Bn254 ShortWeierstrass

variable {cd : Calldata} {A B : g1.Point}

/-- The words that a call with two points reads. -/
theorem carries_points (h : Carries cd (pointWords A ++ pointWords B)) :
    decodePoint (calldataload cd 0) (calldataload cd 32) = some A ∧
      decodePoint (calldataload cd 64) (calldataload cd 96) = some B := by
  obtain ⟨x1, y1, hA, hdecodeA⟩ := decodePoint_pointWords A
  obtain ⟨x2, y2, hB, hdecodeB⟩ := decodePoint_pointWords B
  rw [hA, hB] at h
  have h0 : calldataload cd 0 = x1 := h 0 x1 rfl
  have h1 : calldataload cd 32 = y1 := h 1 y1 rfl
  have h2 : calldataload cd 64 = x2 := h 2 x2 rfl
  have h3 : calldataload cd 96 = y2 := h 3 y2 rfl
  rw [h0, h1, h2, h3]
  exact ⟨hdecodeA, hdecodeB⟩

/-- The words that a call with a point and a scalar reads. -/
theorem carries_point_scalar {k : Word} (h : Carries cd (pointWords A ++ [k])) :
    decodePoint (calldataload cd 0) (calldataload cd 32) = some A ∧ calldataload cd 64 = k := by
  obtain ⟨x, y, hA, hdecode⟩ := decodePoint_pointWords A
  rw [hA] at h
  have h0 : calldataload cd 0 = x := h 0 x rfl
  have h1 : calldataload cd 32 = y := h 1 y rfl
  rw [h0, h1]
  exact ⟨hdecode, h 2 k rfl⟩

namespace EcAdd

theorem fallback_points (h : Carries cd (pointWords A ++ pointWords B)) :
    Yields (fun fuel => fallback fuel cd) (answer (some (A + B))) := by
  obtain ⟨hA, hB⟩ := carries_points h
  rw [← addPoints_of_decode hA hB]
  exact fallback_yields rfl rfl rfl rfl

/-- A second point out of range: all gas is burned. -/
theorem fallback_out_of_range {x1 y1 x2 y2 : Word} (hx1 : calldataload cd 0 = x1)
    (hy1 : calldataload cd 32 = y1) (hx2 : calldataload cd 64 = x2)
    (hy2 : calldataload cd 96 = y2) (h2 : ¬(x2 = 0 ∧ y2 = 0))
    (hout : ¬(x2.toNat < p ∧ y2.toNat < p)) :
    Yields (fun fuel => fallback fuel cd) .burned := by
  have hrun := fallback_yields hx1 hy1 hx2 hy2
  rw [addPoints_none_right (decodePoint_out_of_range h2 hout)] at hrun
  exact hrun

end EcAdd

namespace EcMul

theorem fallback_points {k : Word} (h : Carries cd (pointWords A ++ [k])) :
    Yields (fun fuel => fallback fuel cd) (answer (some (k.toNat • A))) := by
  obtain ⟨hA, hk⟩ := carries_point_scalar h
  have hmul : mulPoint (calldataload cd 0) (calldataload cd 32) k = some (k.toNat • A) := by
    rw [mulPoint, hA, Option.map_some]
  rw [← hmul]
  exact fallback_yields rfl rfl hk

/-- The calls on a point other than infinity: every point is the answer for exactly one scalar
below the order of the curve, and for the scalars congruent to it. -/
theorem ecMul_answers_iff (hA : A ≠ 0) (B : g1.Point) :
    ∃ k < r, ∀ (j : Word) (cd : Calldata), Carries cd (pointWords A ++ [j]) →
      ∃ halt, Yields (fun fuel => fallback fuel cd) halt ∧
        (halt = answer (some B) ↔ j.toNat % r = k) := by
  obtain ⟨k, hk, rfl⟩ := exists_nsmul_of_card card_g1 hA B
  refine ⟨k, hk, fun j cd h => ⟨_, fallback_points h, ?_⟩⟩
  rw [answer_some_inj, nsmul_eq_nsmul_iff_of_card card_g1 hA, ZMod.natCast_eq_natCast_iff',
    Nat.mod_eq_of_lt hk]

theorem ecMul_answers_iff_generator :
    ∃ k < r, ∀ (j : Word) (cd : Calldata),
      Carries cd (pointWords (g1.point 1 2 generator_onCurve) ++ [j]) →
        ∃ halt, Yields (fun fuel => fallback fuel cd) halt ∧
          (halt = answer (some 0) ↔ j.toNat % r = k) :=
  ecMul_answers_iff (coords_point generator_onCurve).ne_zero 0

end EcMul

end EraPrecompiles

import EraPrecompiles.Bn254.Montgomery
import EraPrecompiles.Curve.Homogeneous
import EraPrecompiles.Yul.Memory

/-!
# The group G1 of BN254

The curve `y^2 = x^3 + 3` over the base field, and the encoding of its points as
two words, with two zero words for the point at infinity.  A pair of words is
decoded to a point, or to nothing if it is not the encoding of one.

The curve has no point with `y = 0`, because `-3` is not a cube.
-/

namespace EraPrecompiles.Bn254

open ShortWeierstrass

abbrev Fp : Type := ZMod p

theorem natCast_ne_zero {k : ℕ} (hk : k % p ≠ 0) : (k : Fp) ≠ 0 := by
  rw [ne_eq, ZMod.natCast_eq_zero_iff]
  exact fun h => hk (Nat.mod_eq_zero_of_dvd h)

def g1 : ShortWeierstrass Fp where
  a := 0
  b := 3
  disc_ne_zero := by
    have h : (-16 * (4 * 0 ^ 3 + 27 * 3 ^ 2) : Fp) = -((3888 : ℕ) : Fp) := by
      norm_num
    rw [h, neg_ne_zero]
    exact natCast_ne_zero (by decide)

/-- No point of the curve has `y = 0`. -/
theorem g1_y_ne_zero (x : Fp) : ¬g1.OnCurve x 0 := by
  intro h
  have hcube : x ^ 3 = ((p - 3 : ℕ) : Fp) := by
    have hp : 3 ≤ p := by decide
    rw [Nat.cast_sub hp, ZMod.natCast_self]
    have h' : (0 : Fp) ^ 2 = x ^ 3 + 0 * x + 3 := h
    linear_combination -h'
  exact pow_ne_of_powMod (by decide) (by decide) (by decide +kernel) x hcube

theorem g1_double_ne_zero {A : g1.Point} (hA : A ≠ 0) : A + A ≠ 0 :=
  double_ne_zero g1_y_ne_zero hA

/-! ## Encoded points -/

/-- The point with the encoding `x`, `y`. -/
def decodePoint (x y : Word) : Option g1.Point :=
  if x = 0 ∧ y = 0 then
    some 0
  else if h : (x.toNat < p ∧ y.toNat < p) ∧ g1.OnCurve x.toNat y.toNat then
    some (g1.point x.toNat y.toNat h.2)
  else
    none

def pointWords : g1.Point → List Word
  | .zero => [0, 0]
  | .some x y _ => [toWord x, toWord y]

/-- The 64 bytes a point is returned as. -/
def encodePoint (A : g1.Point) : List Byte :=
  (pointWords A).flatMap wordBytes

/-- How a call ends: with the encoding of a point, or with all gas burned. -/
def answer : Option g1.Point → Halt
  | some A => .returned (encodePoint A)
  | none => .burned

/-- `mstore(0, x) mstore(32, y) return(0, 64)` -/
def returnPoint (x y : Word) : Halt :=
  let mem := mstore Memory.zero 0 x
  let mem := mstore mem 32 y
  returnMem mem 0 64

theorem pointWords_zero : pointWords 0 = [0, 0] := rfl

theorem pointWords_of_coords {A : g1.Point} {x y : Fp} (h : Coords A x y) :
    pointWords A = [toWord x, toWord y] := by
  obtain ⟨_, rfl⟩ := h
  rfl

theorem returnPoint_eq (x y : Word) :
    returnPoint x y = .returned ([x, y].flatMap wordBytes) :=
  returnMem_storeWords [x, y] Memory.zero (by simp)

theorem returnPoint_zero : returnPoint 0 0 = answer (some 0) := by
  rw [returnPoint_eq, answer, encodePoint, pointWords_zero]

theorem returnPoint_of_coords {A : g1.Point} {x y : Fp} (h : Coords A x y) :
    returnPoint (toWord x) (toWord y) = answer (some A) := by
  rw [returnPoint_eq, answer, encodePoint, pointWords_of_coords h]

/-- The result of a computation in Montgomery form, read back as words. -/
theorem returnPoint_outOfMontgomery {A : g1.Point} {x y : Fp} (h : Coords A x y) :
    returnPoint (outOfMontgomeryForm (enc x)) (outOfMontgomeryForm (enc y)) =
      answer (some A) := by
  rw [outOfMontgomeryForm_enc, outOfMontgomeryForm_enc]
  exact returnPoint_of_coords h

/-- A decoded point is returned by its own words. -/
theorem returnPoint_of_decode {A : g1.Point} {x y : Word} (hx : x.toNat < p)
    (hy : y.toNat < p) (h : Coords A (x.toNat : Fp) y.toNat) :
    returnPoint x y = answer (some A) := by
  have hret := returnPoint_of_coords h
  rw [toWord_cast hx, toWord_cast hy] at hret
  exact hret

theorem decodePoint_zero : decodePoint 0 0 = some 0 :=
  if_pos ⟨rfl, rfl⟩

theorem decodePoint_of_onCurve {x y : Word} (hx : x.toNat < p) (hy : y.toNat < p)
    (h : g1.OnCurve x.toNat y.toNat) :
    ∃ A, decodePoint x y = some A ∧ Coords A (x.toNat : Fp) y.toNat := by
  have h0 : ¬(x = 0 ∧ y = 0) := by
    rintro ⟨rfl, rfl⟩
    refine g1_y_ne_zero 0 ?_
    simpa using h
  exact ⟨_, (if_neg h0).trans (dif_pos ⟨⟨hx, hy⟩, h⟩), coords_point h⟩

theorem decodePoint_eq_none {x y : Word} (h0 : ¬(x = 0 ∧ y = 0))
    (h : ¬((x.toNat < p ∧ y.toNat < p) ∧ g1.OnCurve x.toNat y.toNat)) :
    decodePoint x y = none :=
  (if_neg h0).trans (dif_neg h)

/-- Out of range, a pair that is not zero is not the encoding of a point. -/
theorem decodePoint_out_of_range {x y : Word} (h0 : ¬(x = 0 ∧ y = 0))
    (hlt : ¬(x.toNat < p ∧ y.toNat < p)) : decodePoint x y = none :=
  decodePoint_eq_none h0 fun h => hlt h.1

end EraPrecompiles.Bn254

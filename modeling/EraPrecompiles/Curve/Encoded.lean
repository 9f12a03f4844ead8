import EraPrecompiles.Arith.Montgomery
import EraPrecompiles.Curve.Homogeneous

/-!
# Points as words

A point of a curve over a prime field is handled as three words, the Montgomery
forms of homogeneous coordinates.
-/

namespace EraPrecompiles

/-- Coordinates in Montgomery form. -/
def encTriple {n : ℕ} (T : ZMod n × ZMod n × ZMod n) : Word × Word × Word :=
  (enc T.1, enc T.2.1, enc T.2.2)

namespace ShortWeierstrass

variable {p : ℕ} [Fact p.Prime] [WordModulus p] {E : ShortWeierstrass (ZMod p)}

/-- The words stand for the point `A`. -/
def Represents (A : E.Point) (W : Word × Word × Word) : Prop :=
  ∃ T, W = encTriple T ∧ Homogeneous A T

omit [WordModulus p] in
theorem Represents.of_coords {A : E.Point} {x y : ZMod p} (h : Coords A x y) :
    Represents A (encTriple (x, y, 1)) :=
  ⟨_, rfl, Homogeneous.of_coords h⟩

omit [WordModulus p] in
/-- Affine coordinates as words. -/
theorem Represents.of_words {A : E.Point} {x y : ZMod p} (h : Coords A x y) {X Y one : Word}
    (hX : enc x = X) (hY : enc y = Y) (hone : enc (1 : ZMod p) = one) :
    Represents A (X, Y, one) := by
  subst hX hY hone
  exact Represents.of_coords h

theorem Represents.eq_zero_iff {A : E.Point} {W : Word × Word × Word}
    (h : Represents A W) : W.2.2 = 0 ↔ A = 0 := by
  obtain ⟨T, rfl, hT⟩ := h
  rw [encTriple, enc_eq_zero, hT.eq_zero_iff]

/-- The words are reduced homogeneous coordinates of the point, and the last of them is zero
at infinity only. -/
structure RepresentsExactly (A : E.Point) (W : Word × Word × Word) : Prop where
  represents : Represents A W
  eq_zero_iff : W.2.2 = 0 ↔ A = 0
  reduced : W.1.toNat < p ∧ W.2.1.toNat < p ∧ W.2.2.toNat < p

theorem Represents.exactly {A : E.Point} {W : Word × Word × Word} (h : Represents A W) :
    RepresentsExactly A W where
  represents := h
  eq_zero_iff := h.eq_zero_iff
  reduced := by
    obtain ⟨T, rfl, -⟩ := h
    exact ⟨toNat_enc_lt _, toNat_enc_lt _, toNat_enc_lt _⟩

end ShortWeierstrass

end EraPrecompiles

import EraPrecompiles.Curve.PrimeOrder
import EraPrecompiles.Ecdsa.Verify

/-!
# The signature scheme

What holds of signatures over a curve whose points are as many as the scalars, `n`, a prime.
The combination that a verification computes is a multiple of the generator
(`combination_nsmul`).  It is the nonce's multiple for a signature that was made with the
secret of the public key (`combination_signed`), and it changes its sign with `s`
(`combination_neg`).
-/

namespace EraPrecompiles.Ecdsa.SigningCurve

open ShortWeierstrass

variable {p n : ℕ} [Fact p.Prime] [hn : Fact n.Prime] {C : SigningCurve p n}

/-! ## The two multiples -/

variable (C) in
/-- `(hash / s) * G` -/
def hashMultiple (hash s : ℕ) : C.curve.Point :=
  ((hash : ZMod n) * (s : ZMod n)⁻¹).val • C.generator

variable (C) in
/-- `(r / s) * Q` -/
def keyMultiple (r s : ℕ) (Q : C.curve.Point) : C.curve.Point :=
  ((r : ZMod n) * (s : ZMod n)⁻¹).val • Q

theorem combination_eq (hash r s : ℕ) (Q : C.curve.Point) :
    C.combination hash r s Q = C.hashMultiple hash s + C.keyMultiple r s Q := rfl

section Scalars

variable (hcard : Nat.card C.curve.Point = n)
include hcard

theorem nsmul_congr {j k : ℕ} (h : (j : ZMod n) = k) (A : C.curve.Point) : j • A = k • A := by
  rw [← mod_nsmul_of_card hcard j, ← mod_nsmul_of_card hcard k,
    (ZMod.natCast_eq_natCast_iff' j k n).mp h]

theorem neg_val_nsmul (a : ZMod n) (A : C.curve.Point) : (-a).val • A = -(a.val • A) := by
  refine eq_neg_of_add_eq_zero_left ?_
  rw [← add_nsmul]
  have h : (((-a).val + a.val : ℕ) : ZMod n) = (0 : ℕ) := by
    rw [Nat.cast_add, ZMod.natCast_zmod_val, ZMod.natCast_zmod_val, neg_add_cancel,
      Nat.cast_zero]
  rw [nsmul_congr hcard h, zero_nsmul]

/-- In a group of odd order no other element than zero is its own opposite. -/
theorem add_self_ne_zero (h2 : 2 < n) {A : C.curve.Point} (hA : A ≠ 0) : A + A ≠ 0 := by
  rw [← two_nsmul, ne_eq, nsmul_eq_zero_iff_of_card hcard hA, ZMod.natCast_eq_zero_iff]
  exact fun hdvd => absurd (Nat.le_of_dvd (by norm_num) hdvd) (not_le.mpr h2)

/-- The second multiple of the combination is not zero. -/
theorem keyMultiple_ne_zero {r s x y : Word} (h : C.ValidInput r s x y) :
    C.keyMultiple r.toNat s.toNat (C.publicKey h) ≠ 0 := by
  rw [keyMultiple, ne_eq,
    nsmul_eq_zero_iff_of_card hcard (coords_publicKey h).ne_zero, ZMod.natCast_zmod_val]
  exact mul_ne_zero (natCast_ne_zero h.1) (inv_ne_zero (natCast_ne_zero h.2.1))

/-- For a public key with the secret `d`. -/
theorem combination_nsmul (hash r s d : ℕ) :
    C.combination hash r s (d • C.generator) =
      (((hash : ZMod n) + r * d) * (s : ZMod n)⁻¹).val • C.generator := by
  rw [combination, ← mul_nsmul', ← add_nsmul]
  refine nsmul_congr hcard ?_ _
  rw [Nat.cast_add, Nat.cast_mul, ZMod.natCast_zmod_val, ZMod.natCast_zmod_val,
    ZMod.natCast_zmod_val]
  ring

/-- A signature that was made with the nonce `k`. -/
theorem combination_signed {hash r s d k : ℕ} (hk : (k : ZMod n) ≠ 0)
    (hs : (s : ZMod n) = (k : ZMod n)⁻¹ * (hash + r * d)) (hs0 : (s : ZMod n) ≠ 0) :
    C.combination hash r s (d • C.generator) = k • C.generator := by
  rw [combination_nsmul hcard]
  refine nsmul_congr hcard ?_ _
  have hsum : (hash : ZMod n) + r * d = k * s := by
    rw [hs, mul_inv_cancel_left₀ hk]
  rw [ZMod.natCast_zmod_val, hsum, mul_inv_cancel_right₀ hs0]

/-- Signatures with opposite `s`. -/
theorem combination_neg {s s' : ℕ} (hs : (s' : ZMod n) = -s) (hash r : ℕ) (Q : C.curve.Point) :
    C.combination hash r s' Q = -C.combination hash r s Q := by
  rw [combination, combination, hs, inv_neg, mul_neg, mul_neg, neg_val_nsmul hcard,
    neg_val_nsmul hcard, neg_add]

end Scalars

/-- The combination depends on the hash modulo the order. -/
theorem combination_congr {hash hash' : ℕ} (h : (hash' : ZMod n) = hash) (r s : ℕ)
    (Q : C.curve.Point) : C.combination hash' r s Q = C.combination hash r s Q := by
  rw [combination, h, combination]

omit hn in
/-- Opposite points have the same first coordinate. -/
theorem accepts_neg (r : ℕ) (A : C.curve.Point) : C.accepts r (-A) = C.accepts r A := by
  rcases eq_zero_or_coords A with rfl | ⟨x, y, hA⟩
  · rw [neg_zero]
  · rw [Bool.eq_iff_iff, accepts_of_coords hA, accepts_of_coords hA.neg]

end EraPrecompiles.Ecdsa.SigningCurve

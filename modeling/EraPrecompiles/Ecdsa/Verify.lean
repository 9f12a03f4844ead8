import EraPrecompiles.Ecdsa.Montgomery
import EraPrecompiles.Ecdsa.Shamir
import EraPrecompiles.Yul.Memory

/-!
# The verification of a signature

What the signature precompiles are for.  A signature `(r, s)` of a hash under the
public key `Q` is accepted when the first coordinate of

  `(hash / s) * G + (r / s) * Q`

is `r` modulo the order `n`; the quotients are residues modulo `n`.  It is not
accepted when this combination is the point at infinity.  `verdict` puts this
together with the tests of the input to the answer of a call.
-/

namespace EraPrecompiles.Ecdsa

open ShortWeierstrass

/-- A curve with a generator, over the residues modulo `p`.  Scalars are residues
modulo `n`.  The pair `(0, 0)` is no point of the curve. -/
structure SigningCurve (p n : ℕ) [Fact p.Prime] where
  curve : ShortWeierstrass (ZMod p)
  generator : curve.Point
  b_ne_zero : curve.b ≠ 0

namespace SigningCurve

variable {p n : ℕ} [Fact p.Prime] (C : SigningCurve p n)

/-- `(hash / s) * G + (r / s) * Q` -/
def combination (hash r s : ℕ) (Q : C.curve.Point) : C.curve.Point :=
  ((hash : ZMod n) * (s : ZMod n)⁻¹).val • C.generator +
    ((r : ZMod n) * (s : ZMod n)⁻¹).val • Q

/-- The point is finite, and its first coordinate is `r` modulo `n`. -/
def accepts (r : ℕ) : C.curve.Point → Bool
  | .zero => false
  | .some x _ _ => decide (x.val % n = r)

/-- `r` and `s` lie in the range of scalars, and `x`, `y` are the coordinates of a
point. -/
def ValidInput (r s x y : Word) : Prop :=
  (r.toNat ≠ 0 ∧ r.toNat < n) ∧ (s.toNat ≠ 0 ∧ s.toNat < n) ∧
    (x.toNat < p ∧ y.toNat < p) ∧ C.curve.OnCurve x.toNat y.toNat

instance (r s x y : Word) : Decidable (C.ValidInput r s x y) :=
  inferInstanceAs (Decidable (_ ∧ _))

/-- The public key of a valid input. -/
def publicKey {r s x y : Word} (h : C.ValidInput r s x y) : C.curve.Point :=
  C.curve.point x.toNat y.toNat h.2.2.2

/-- The answer to the words of an input: all gas burned if they are not valid, and
otherwise the word that says whether the signature is accepted. -/
def verdict (hash r s x y : Word) : Halt :=
  if h : C.ValidInput r s x y then
    .returned (wordBytes (boolWord
      (C.accepts r.toNat
        (C.combination hash.toNat r.toNat s.toNat (C.publicKey h)) = true)))
  else
    .burned

theorem burned_eq_verdict_iff (hash r s x y : Word) :
    Halt.burned = C.verdict hash r s x y ↔ ¬C.ValidInput r s x y := by
  rw [verdict]
  by_cases h : C.ValidInput r s x y
  · rw [dif_pos h]
    exact iff_of_false Halt.noConfusion (not_not_intro h)
  · rw [dif_neg h]
    exact iff_of_true rfl h

theorem accepts_zero (r : ℕ) : C.accepts r 0 = false := rfl

variable {C}

theorem accepts_of_coords {A : C.curve.Point} {x y : ZMod p} (h : Coords A x y) (r : ℕ) :
    C.accepts r A = true ↔ x.val % n = r := by
  obtain ⟨_, rfl⟩ := h
  exact decide_eq_true_iff

theorem coords_publicKey {r s x y : Word} (h : C.ValidInput r s x y) :
    Coords (C.publicKey h) (x.toNat : ZMod p) (y.toNat : ZMod p) :=
  coords_point h.2.2.2

/-- The combination with `s = 1`. -/
theorem combination_one (hash r : ℕ) (Q : C.curve.Point) :
    C.combination hash r 1 Q = (hash % n) • C.generator + (r % n) • Q := by
  rw [combination, Nat.cast_one, ZMod.inv_one, mul_one, mul_one, ZMod.val_natCast,
    ZMod.val_natCast]

theorem not_both_zero {x y : Word} (h : C.curve.OnCurve x.toNat y.toNat) :
    ¬(x = 0 ∧ y = 0) := by
  rintro ⟨rfl, rfl⟩
  have hzero : ((0 : Word).toNat : ZMod p) = 0 := Nat.cast_zero
  rw [hzero, OnCurve] at h
  refine C.b_ne_zero ?_
  linear_combination -h

end SigningCurve

/-! ## The tests of the input and of the result -/

theorem scalarTest_iff {n : ℕ} {N : Word} (hN : N.toNat = n) (r s : Word) :
    or (or (iszero r) (iszero (lt r N))) (or (iszero s) (iszero (lt s N))) ≠ 0 ↔
      ¬((r.toNat ≠ 0 ∧ r.toNat < n) ∧ (s.toNat ≠ 0 ∧ s.toNat < n)) := by
  rw [lt, lt, iszero_boolWord, iszero_boolWord, iszero, iszero, or_boolWord, or_boolWord,
    or_boolWord, boolWord_ne_zero, hN, ← toNat_eq_zero, ← toNat_eq_zero]
  tauto

theorem coordinateTest_iff {p : ℕ} {P : Word} (hP : P.toNat = p) (x y : Word) :
    or (iszero (or x y)) (iszero (and (lt x P) (lt y P))) ≠ 0 ↔
      (x = 0 ∧ y = 0) ∨ ¬(x.toNat < p ∧ y.toNat < p) := by
  rw [lt, lt, and_boolWord, iszero_boolWord, iszero, or_boolWord, boolWord_ne_zero,
    or_eq_zero, hP]

section Input

variable {p n : ℕ} [Fact p.Prime] {C : SigningCurve p n} {N P r s x y curveTest : Word}
  (hN : N.toNat = n) (hP : P.toNat = p)
  (hcurve : curveTest ≠ 0 ↔ ¬C.curve.OnCurve x.toNat y.toNat)

include hN hP hcurve

/-- A valid input passes the three tests. -/
theorem tests_passed (h : C.ValidInput r s x y) (body : ℕ → Option Halt) (a : Halt) :
    Yields (fun fuel =>
      if or (or (iszero r) (iszero (lt r N))) (or (iszero s) (iszero (lt s N))) ≠ 0 then
        some .burned
      else if or (iszero (or x y)) (iszero (and (lt x P) (lt y P))) ≠ 0 then
        some .burned
      else if curveTest ≠ 0 then
        some .burned
      else
        body fuel) a ↔ Yields body a := by
  have hxy := SigningCurve.not_both_zero h.2.2.2
  have hcoord : ¬((x = 0 ∧ y = 0) ∨ ¬(x.toNat < p ∧ y.toNat < p)) := by
    have hlt := h.2.2.1
    tauto
  simp only [scalarTest_iff hN, coordinateTest_iff hP, hcurve,
    if_neg (not_not_intro (And.intro h.1 h.2.1)), if_neg hcoord,
    if_neg (not_not_intro h.2.2.2)]

/-- Any other input is stopped by one of them. -/
theorem tests_burned (h : ¬C.ValidInput r s x y) (body : ℕ → Option Halt) :
    Yields (fun fuel =>
      if or (or (iszero r) (iszero (lt r N))) (or (iszero s) (iszero (lt s N))) ≠ 0 then
        some .burned
      else if or (iszero (or x y)) (iszero (and (lt x P) (lt y P))) ≠ 0 then
        some .burned
      else if curveTest ≠ 0 then
        some .burned
      else
        body fuel) .burned := by
  simp only [scalarTest_iff hN, coordinateTest_iff hP, hcurve]
  by_cases hrs : (r.toNat ≠ 0 ∧ r.toNat < n) ∧ (s.toNat ≠ 0 ∧ s.toNat < n)
  · by_cases hxy : (x = 0 ∧ y = 0) ∨ ¬(x.toNat < p ∧ y.toNat < p)
    · simp only [if_neg (not_not_intro hrs), if_pos hxy]
      exact Yields.const _
    · have hcurve : ¬C.curve.OnCurve x.toNat y.toNat := by
        intro hcurve
        exact h ⟨hrs.1, hrs.2, by tauto, hcurve⟩
      simp only [if_neg (not_not_intro hrs), if_neg hxy, if_pos hcurve]
      exact Yields.const _
  · simp only [if_pos hrs]
    exact Yields.const _

end Input

/-- The test of the curve equation: the left side and a right side of any form. -/
theorem eq_enc_onCurve {p : ℕ} [Fact p.Prime] [WordModulus p] {E : ShortWeierstrass (ZMod p)}
    {x y v : ZMod p} (hv : v = x ^ 3 + E.a * x + E.b) :
    eq (enc (y * y)) (enc v) = boolWord (E.OnCurve x y) := by
  rw [eq_enc, hv]
  refine boolWord_congr ?_
  rw [OnCurve, pow_two]

/-- The comparison of the first coordinate with `r`. -/
theorem eq_mod_toWord {p n : ℕ} [WordModulus p] [WordModulus n] {N : Word}
    (hN : N.toNat = n) (x : ZMod p) (r : Word) :
    eq (mod (toWord x) N) r = boolWord (x.val % n = r.toNat) := by
  have hmod : (mod (toWord x) N).toNat = x.val % n := by
    rw [toNat_mod _ (modulus_ne_zero hN), toNat_toWord, hN]
  refine boolWord_congr ?_
  rw [← hmod]
  exact ⟨congrArg BitVec.toNat, word_ext⟩

theorem natCast_ne_zero {n k : ℕ} (hk : k ≠ 0 ∧ k < n) : (k : ZMod n) ≠ 0 := by
  rw [ne_eq, ZMod.natCast_eq_zero_iff]
  exact Nat.not_dvd_of_pos_of_lt (Nat.pos_of_ne_zero hk.1) hk.2

/-- The linear combination of the generator and a public key with the two quotients. -/
theorem combination_yields {p n : ℕ} [Fact p.Prime] [Fact n.Prime] [WordModulus p]
    [WordModulus n] {C : SigningCurve p n}
    {double : Word × Word × Word → Word × Word × Word}
    {addition : Word × Word × Word → Word × Word × Word → Word × Word × Word}
    (himp : Implements C.curve double addition) {g q : Word × Word × Word}
    (hG : Represents C.generator g) (hash : Word) {r s x y : Word}
    (h : C.ValidInput r s x y) (hQ : Represents (C.publicKey h) q) :
    ∃ T : ZMod p × ZMod p × ZMod p,
      Homogeneous (C.combination hash.toNat r.toNat s.toNat (C.publicKey h)) T ∧
      Yields (fun fuel => shamirLinearCombination double addition g fuel q
        (toWord ((hash.toNat : ZMod n) * (s.toNat : ZMod n)⁻¹))
        (toWord ((r.toNat : ZMod n) * (s.toNat : ZMod n)⁻¹)))
        (enc T.1, enc T.2.1, enc T.2.2) := by
  have ht : toWord ((hash.toNat : ZMod n) * (s.toNat : ZMod n)⁻¹) ≠ 0 ∨
      toWord ((r.toNat : ZMod n) * (s.toNat : ZMod n)⁻¹) ≠ 0 := by
    right
    rw [← toWord_zero (n := n), ne_eq, toWord_inj]
    exact mul_ne_zero (natCast_ne_zero h.1) (inv_ne_zero (natCast_ne_zero h.2.1))
  obtain ⟨W, hW, T, rfl, hT⟩ := shamirLinearCombination_yields himp hG hQ ht
  rw [toNat_toWord, toNat_toWord] at hT
  exact ⟨T, hT, hW⟩

/-- `mstore(0, ret) return(0, 32)` -/
def returnWord (ret : Word) : Halt :=
  returnMem (mstore Memory.zero 0 ret) 0 32

theorem returnWord_eq (ret : Word) : returnWord ret = .returned (wordBytes ret) := by
  have h := returnMem_storeWords [ret] Memory.zero (by simp)
  rw [List.flatMap_singleton] at h
  exact h

end EraPrecompiles.Ecdsa

import EraPrecompiles.Bn254.Twist
import EraPrecompiles.Curve.IncompleteLadder
import Mathlib.Data.Nat.Size

/-!
# Scalar multiplication on the twist

The double-and-add loop that two precompiles share.  Its addition has no branch
for equal points, so on points the loop is the ladder with an incomplete addition
(`representsTwist_ladderRun`).  The loop itself ends on all words, also on those
of points off the curve (`scalarLoop_yields`).
-/

namespace EraPrecompiles.Bn254

open ShortWeierstrass

/-! ## The program -/

def bitLen (fuel : ℕ) (x : Word) : Option Word :=
  iterate
    (fun (ret, x) =>
      if x ≠ 0 then some (.next (add ret 1, shr 1 x)) else some (.done ret))
    fuel ((0 : Word), x)

def checkBit (index n : Word) : Word :=
  and (shr index n) 1

def g2ProjectivePointIsInfinity (_x _y z : Word × Word) : Word :=
  iszero (or z.1 z.2)

def g2JacobianAdd (q r : (Word × Word) × (Word × Word) × (Word × Word)) :
    (Word × Word) × (Word × Word) × (Word × Word) :=
  let qIsInfinity := g2ProjectivePointIsInfinity q.1 q.2.1 q.2.2
  let rIsInfinity := g2ProjectivePointIsInfinity r.1 r.2.1 r.2.2
  if and rIsInfinity qIsInfinity ≠ 0 then
    ((0, 0), (0, 0), (0, 0))
  else if rIsInfinity ≠ 0 then
    q
  else if qIsInfinity ≠ 0 then
    r
  else
    g2JacobianChord q r

/-- The accumulator after one bit of the scalar. -/
def scalarStep (p : (Word × Word) × (Word × Word) × (Word × Word)) (scalar index : Word)
    (c : (Word × Word) × (Word × Word) × (Word × Word)) :
    (Word × Word) × (Word × Word) × (Word × Word) :=
  let c := g2JacobianDouble c
  let bitindex := checkBit index scalar
  if bitindex ≠ 0 then g2JacobianAdd p c else c

/-- `for {} scalarBitIndex {} { scalarBitIndex := sub(scalarBitIndex, 1) ... }` -/
def scalarLoop (fuel : ℕ) (p : (Word × Word) × (Word × Word) × (Word × Word))
    (scalar scalarBitIndex : Word)
    (c : (Word × Word) × (Word × Word) × (Word × Word)) :
    Option ((Word × Word) × (Word × Word) × (Word × Word)) :=
  iterate
    (fun (scalarBitIndex, c) =>
      if scalarBitIndex ≠ 0 then
        let scalarBitIndex := sub scalarBitIndex 1
        some (.next (scalarBitIndex, scalarStep p scalar scalarBitIndex c))
      else
        some (.done c))
    fuel (scalarBitIndex, c)

/-! ## The loops -/

/-- The bit length of a scalar. -/
theorem bitLen_yields (x : Word) :
    Yields (fun fuel => bitLen fuel x) (BitVec.ofNat 256 x.toNat.size) := by
  have hrule := iterate_yields
    (fun _ (s : Word × Word) =>
      if s.2 ≠ 0 then some (.next (add s.1 1, shr 1 s.2)) else some (.done s.1))
    (fun s => s.1.toNat + s.2.toNat.size = x.toNat.size)
    (fun ret => ret = BitVec.ofNat 256 x.toNat.size)
    (fun s => s.2.toNat) ?_ (0, x) (by simp)
  · obtain ⟨r, hr, rfl⟩ := hrule
    exact hr
  · rintro ⟨ret, y⟩ hs
    dsimp only at hs ⊢
    have hsize : x.toNat.size ≤ 256 := Nat.size_le.mpr (word_lt x)
    by_cases hy : y = 0
    · left
      refine ⟨ret, Yields.of_eq fun _ => if_neg (not_not_intro hy), ?_⟩
      rw [hy, toNat_eq_zero.mpr rfl, Nat.size_zero, Nat.add_zero] at hs
      rw [← hs]
      exact word_ext (toNat_ofNat_of_lt (word_lt ret)).symm
    · right
      have hpos : y.toNat ≠ 0 := fun h => hy (toNat_eq_zero.mp h)
      have hstep : y.toNat.size = (y.toNat / 2).size + 1 := by
        have hbit : y.toNat = Nat.bit (y.toNat.bodd) (y.toNat / 2) := by
          rw [← Nat.div2_val]
          exact (Nat.bit_bodd_div2 y.toNat).symm
        conv_lhs => rw [hbit]
        rw [Nat.size_bit (by rw [← hbit]; exact hpos)]
      have hadd : (add ret 1).toNat = ret.toNat + 1 := toNat_add_one (by omega)
      refine ⟨(add ret 1, shr 1 y), Yields.of_eq fun _ => if_pos hy, ?_, ?_⟩
      · rw [hadd, toNat_shr_one]
        omega
      · show (shr 1 y).toNat < y.toNat
        rw [toNat_shr_one]
        omega

theorem checkBit_ne_zero (index n : Word) (h : index.toNat < 256) :
    checkBit index n ≠ 0 ↔ n.toNat.testBit index.toNat := by
  rw [checkBit, ne_eq, and_one_eq_zero, toNat_shr n h, Nat.testBit_eq_decide_div_mod_eq,
    decide_eq_true_eq]
  omega

/-- The accumulator after the bits `i - 1, ..., 0`. -/
def ladderRun (p : (Word × Word) × (Word × Word) × (Word × Word)) (scalar : Word) :
    ℕ → (Word × Word) × (Word × Word) × (Word × Word) →
      (Word × Word) × (Word × Word) × (Word × Word)
  | 0, c => c
  | i + 1, c => ladderRun p scalar i (scalarStep p scalar (BitVec.ofNat 256 i) c)

theorem scalarLoop_yields (p : (Word × Word) × (Word × Word) × (Word × Word))
    (scalar : Word) {i : ℕ} (hi : i < 2 ^ 256)
    (c : (Word × Word) × (Word × Word) × (Word × Word)) :
    Yields (fun fuel => scalarLoop fuel p scalar (BitVec.ofNat 256 i) c)
      (ladderRun p scalar i c) := by
  have hrule := iterate_yields
    (fun _ (s : Word × ((Word × Word) × (Word × Word) × (Word × Word))) =>
      if s.1 ≠ 0 then
        some (.next (sub s.1 1, scalarStep p scalar (sub s.1 1) s.2))
      else
        some (.done s.2))
    (fun s => ladderRun p scalar s.1.toNat s.2 = ladderRun p scalar i c)
    (fun r => r = ladderRun p scalar i c)
    (fun s => s.1.toNat) ?_ (BitVec.ofNat 256 i, c) (by rw [toNat_ofNat_of_lt hi])
  · obtain ⟨r, hr, rfl⟩ := hrule
    exact hr
  · rintro ⟨index, d⟩ hs
    dsimp only at hs ⊢
    by_cases hindex : index = 0
    · left
      refine ⟨d, Yields.of_eq fun _ => if_neg (not_not_intro hindex), ?_⟩
      rw [hindex, toNat_eq_zero.mpr rfl] at hs
      exact hs
    · right
      have hpos : index.toNat ≠ 0 := fun h => hindex (toNat_eq_zero.mp h)
      have hsub : (sub index 1).toNat = index.toNat - 1 := toNat_sub_one (by omega)
      refine ⟨(sub index 1, scalarStep p scalar (sub index 1) d),
        Yields.of_eq fun _ => if_pos hindex, ?_, ?_⟩
      · obtain ⟨j, hj⟩ : ∃ j, index.toNat = j + 1 := ⟨index.toNat - 1, by omega⟩
        have hword : sub index 1 = BitVec.ofNat 256 j := by
          refine word_ext ?_
          have := word_lt index
          rw [hsub, toNat_ofNat_of_lt (by omega)]
          omega
        rw [hj, ladderRun] at hs
        rw [← hs, hsub, hj, hword, Nat.add_sub_cancel]
      · show (sub index 1).toNat < index.toNat
        omega

/-! ## The loop on points -/

theorem representsTwist_zero (x y : Fp2) :
    RepresentsTwist 0 (encFp2 x, encFp2 y, (0, 0)) :=
  ⟨(x, y, 0), by rw [encFp2_zero], Jacobian.zero⟩

theorem representsTwist_eq_zero_iff {A : g2.Point}
    {W : (Word × Word) × (Word × Word) × (Word × Word)} (h : RepresentsTwist A W) :
    W.2.2 = (0, 0) ↔ A = 0 := by
  obtain ⟨T, rfl, hT⟩ := h
  rw [hT.eq_zero_iff, ← encFp2_zero, encFp2_inj]

theorem isInfinity_iff {A : g2.Point} {W : (Word × Word) × (Word × Word) × (Word × Word)}
    (h : RepresentsTwist A W) :
    g2ProjectivePointIsInfinity W.1 W.2.1 W.2.2 ≠ 0 ↔ A = 0 := by
  rw [g2ProjectivePointIsInfinity, iszero, boolWord_ne_zero, or_eq_zero,
    ← representsTwist_eq_zero_iff h, Prod.ext_iff]

/-- The test of the addition for two operands at infinity. -/
theorem bothInfinity_iff {A B : g2.Point}
    {V W : (Word × Word) × (Word × Word) × (Word × Word)} (hV : RepresentsTwist A V)
    (hW : RepresentsTwist B W) :
    and (g2ProjectivePointIsInfinity W.1 W.2.1 W.2.2)
      (g2ProjectivePointIsInfinity V.1 V.2.1 V.2.2) ≠ 0 ↔ B = 0 ∧ A = 0 := by
  rw [← isInfinity_iff hV, ← isInfinity_iff hW, g2ProjectivePointIsInfinity,
    g2ProjectivePointIsInfinity, iszero, iszero, and_boolWord, boolWord_ne_zero,
    boolWord_ne_zero, boolWord_ne_zero]

/-- Words stand for one point only. -/
theorem representsTwist_unique {A B : g2.Point}
    {W : (Word × Word) × (Word × Word) × (Word × Word)} (hA : RepresentsTwist A W)
    (hB : RepresentsTwist B W) : A = B := by
  by_cases hz : W.2.2 = (0, 0)
  · rw [(representsTwist_eq_zero_iff hA).mp hz, (representsTwist_eq_zero_iff hB).mp hz]
  obtain ⟨S, rfl, hS⟩ := hA
  have hT := representsTwist_enc_iff.mp hB
  have hZ0 : S.2.2 ≠ 0 := by
    rw [← encFp2_zero, encFp2_inj] at hz
    exact hz
  exact (hS.coords hZ0).point_unique (hT.coords hZ0)

/-- With an operand at infinity the addition is right. -/
theorem representsTwist_add_of_zero {A B : g2.Point}
    {V W : (Word × Word) × (Word × Word) × (Word × Word)} (hV : RepresentsTwist A V)
    (hW : RepresentsTwist B W) (h : A = 0 ∨ B = 0) :
    RepresentsTwist (A + B) (g2JacobianAdd V W) := by
  have hq := isInfinity_iff hV
  have hr := isInfinity_iff hW
  have hboth := bothInfinity_iff hV hW
  by_cases hA : A = 0
  · by_cases hB : B = 0
    · have hzero := representsTwist_zero 0 0
      rw [encFp2_zero] at hzero
      simp only [g2JacobianAdd, if_pos (hboth.mpr ⟨hB, hA⟩)]
      rw [hA, hB, add_zero]
      exact hzero
    · have hand := mt hboth.mp fun h => hB h.1
      simp only [g2JacobianAdd, if_neg hand, if_neg (mt hr.mp hB), if_pos (hq.mpr hA)]
      rw [hA, zero_add]
      exact hW
  · have hB : B = 0 := h.resolve_left hA
    have hand := mt hboth.mp fun h => hA h.2
    simp only [g2JacobianAdd, if_neg hand, if_pos (hr.mpr hB)]
    rw [hB, add_zero]
    exact hV

/-- Off infinity the addition is the chord formula. -/
theorem g2JacobianAdd_of_ne_zero {A B : g2.Point}
    {V W : (Word × Word) × (Word × Word) × (Word × Word)} (hV : RepresentsTwist A V)
    (hW : RepresentsTwist B W) (hA : A ≠ 0) (hB : B ≠ 0) :
    g2JacobianAdd V W = g2JacobianChord V W := by
  have hq := mt (isInfinity_iff hV).mp hA
  have hr := mt (isInfinity_iff hW).mp hB
  have hand := mt (bothInfinity_iff hV hW).mp fun h => hA h.2
  simp only [g2JacobianAdd, if_neg hand, if_neg hr, if_neg hq]

/-- The addition of a point that is not infinity. -/
theorem representsTwist_add {A C : g2.Point}
    {V W : (Word × Word) × (Word × Word) × (Word × Word)} (hV : RepresentsTwist A V)
    (hW : RepresentsTwist C W) (hA : A ≠ 0) :
    RepresentsTwist (incompleteAdd A C) (g2JacobianAdd V W) := by
  by_cases hC : C = 0
  · have hne : ¬C = A := fun h => hA (h ▸ hC)
    rw [incompleteAdd, if_neg hne]
    exact representsTwist_add_of_zero hV hW (Or.inr hC)
  · rw [g2JacobianAdd_of_ne_zero hV hW hA hC]
    by_cases hCA : C = A
    · subst hCA
      rw [incompleteAdd, if_pos rfl]
      obtain ⟨S, rfl, hS⟩ := hV
      obtain ⟨T, rfl, hT⟩ := hW
      exact ⟨jacobianChord S T, g2JacobianChord_enc S T,
        Or.inl ⟨rfl, hS.chord_self hT hA⟩⟩
    · rw [incompleteAdd, if_neg hCA]
      exact representsTwist_chord hV hW hA hC (Ne.symm hCA)

/-- The addition is right unless the operands are equal and not at infinity. -/
theorem representsTwist_add_iff {A B : g2.Point}
    {V W : (Word × Word) × (Word × Word) × (Word × Word)} (hV : RepresentsTwist A V)
    (hW : RepresentsTwist B W) :
    RepresentsTwist (A + B) (g2JacobianAdd V W) ↔ ¬(A = B ∧ A ≠ 0) := by
  by_cases hA : A = 0
  · exact iff_of_true (representsTwist_add_of_zero hV hW (Or.inl hA)) fun h => h.2 hA
  · have hadd := representsTwist_add hV hW hA
    by_cases hBA : B = A
    · rw [incompleteAdd, if_pos hBA] at hadd
      refine iff_of_false (fun h => ?_) (not_not_intro ⟨hBA.symm, hA⟩)
      have hsum := representsTwist_unique h hadd
      rw [hBA] at hsum
      exact g2_double_ne_zero hA hsum
    · rw [incompleteAdd, if_neg hBA] at hadd
      exact iff_of_true hadd fun h => hBA h.1.symm

/-- The loop is the ladder with the incomplete addition. -/
theorem representsTwist_ladderRun {A : g2.Point}
    {V : (Word × Word) × (Word × Word) × (Word × Word)} (hV : RepresentsTwist A V)
    (hA : A ≠ 0) (scalar : Word) {i : ℕ} (hi : i ≤ 256) {C : g2.Point}
    {W : (Word × Word) × (Word × Word) × (Word × Word)} (hW : RepresentsTwist C W) :
    RepresentsTwist (ladder A scalar.toNat i C) (ladderRun V scalar i W) := by
  induction i generalizing C W with
  | zero =>
      exact hW
  | succ i ih =>
      have hindex : (BitVec.ofNat 256 i).toNat = i := toNat_ofNat_of_lt (by omega)
      have hbit := checkBit_ne_zero (BitVec.ofNat 256 i) scalar (by omega)
      have hdouble := representsTwist_double hW
      rw [hindex] at hbit
      rw [ladder, ladderRun]
      refine ih (by omega) ?_
      by_cases h : scalar.toNat.testBit i
      · simp only [scalarStep, if_pos h, if_pos (hbit.mpr h)]
        exact representsTwist_add hV hdouble hA
      · simp only [scalarStep, if_neg h, if_neg (mt hbit.mp h)]
        exact hdouble

end EraPrecompiles.Bn254

import EraPrecompiles.Pairing.Lines
import EraPrecompiles.Pairing.OptimalAte

/-!
# The Miller loop

`millerLoop` is Miller's algorithm for the digits of `6 * x + 2`, with two changes.  The first
two digits, `0` and `-1`, are read before the loop: the value is squared once less, and from
`2 * Q` the point goes to `3 * Q` by an addition of `Q` instead of a doubling and an addition
of `-Q`.  The digits of the loop are packed in one word, three bits each.

The words of the loop are those of a run of the algorithm, up to factors that the last power
does not see (`Tracks`): each step multiplies by a line up to a constant of `Fp2`, and the
two ways through the second digit differ by vertical lines.
-/

namespace EraPrecompiles.Pairing

open Bn254 ShortWeierstrass

/-! ## The program -/

/-- The digits, from the fourth on: the bits `2` and `4` of each three stand for `1` and
`-1`. -/
def NAF_REPRESENTATIVE : Word :=
  112285798093791963372401816628038344551273221779706221137

def FP12_ONE : Words12 :=
  (((MONTGOMERY_ONE, 0), (0, 0), (0, 0)), ((0, 0), (0, 0), (0, 0)))

def g2ProjectiveFromAffine (xp yp : Word × Word) : TwistWords :=
  if and (eq xp.1 0) (eq xp.2 0) ≠ 0 then
    if and (eq yp.1 0) (eq yp.2 0) ≠ 0 then
      ((MONTGOMERY_ONE, xp.2), (MONTGOMERY_ONE, yp.2), (0, 0))
    else
      (xp, yp, (MONTGOMERY_ONE, 0))
  else
    (xp, yp, (MONTGOMERY_ONE, 0))

def g2AffineNeg (x y : Word × Word) : (Word × Word) × (Word × Word) :=
  (x, fp2Neg y)

/-- `doubleStep`, with the line multiplied to the value -/
def doubleAndMultiply (xp yp : Word) (s : Words12 × TwistWords) : Words12 × TwistWords :=
  let d := doubleStep s.2
  (fp12Mul s.1 (evaluateLine d.1 xp yp), d.2)

/-- `mixedAdditionStep`, with the line multiplied to the value -/
def addAndMultiply (xp yp : Word) (q : (Word × Word) × (Word × Word))
    (s : Words12 × TwistWords) : Words12 × TwistWords :=
  let a := mixedAdditionStep q.1 q.2 s.2
  (fp12Mul s.1 (evaluateLine a.1 xp yp), a.2)

/-- One digit. -/
def millerRound (xp yp : Word) (q mq : (Word × Word) × (Word × Word)) (naf : Word)
    (s : Words12 × TwistWords) : Words12 × TwistWords :=
  let s := doubleAndMultiply xp yp (fp12Square s.1, s.2)
  let s := if and naf 2 ≠ 0 then addAndMultiply xp yp q s else s
  if and naf 4 ≠ 0 then addAndMultiply xp yp mq s else s

/-- The first two digits. -/
def millerStart (xp yp : Word) (q mq : (Word × Word) × (Word × Word)) :
    Words12 × TwistWords :=
  let s := doubleAndMultiply xp yp (FP12_ONE, g2ProjectiveFromAffine q.1 q.2)
  let f := fp12Mul s.1 s.1
  let f := fp12Mul f (evaluateLine (computeLine mq.1 mq.2 s.2) xp yp)
  addAndMultiply xp yp q (f, s.2)

/-- The images of the point under the Frobenius map and, with its sign changed, under the
second power of the map. -/
def millerImages (q : (Word × Word) × (Word × Word)) :
    ((Word × Word) × (Word × Word)) × ((Word × Word) × (Word × Word)) :=
  ((mulByGamma12 (fp2Conjugate q.1), mulByGamma13 (fp2Conjugate q.2)),
    (mulByGamma22 q.1, fp2Neg (mulByGamma23 q.2)))

def millerLoop (fuel : ℕ) (xq yq : Word × Word) (xp yp : Word) : Option Words12 := do
  let q := (xq, yq)
  let mq := g2AffineNeg xq yq
  let n_iter : Word := 63
  let s ← iterate
    (fun (s : Word × Word × Words12 × TwistWords) =>
      let (i, naf, s) := s
      if lt i n_iter ≠ 0 then
        some (.next (add i 1, shr 3 naf, millerRound xp yp q mq naf s))
      else
        some (.done s))
    fuel (0, NAF_REPRESENTATIVE, millerStart xp yp q mq)
  let r := millerImages q
  let s := addAndMultiply xp yp r.1 s
  let s := addAndMultiply xp yp r.2 s
  return s.1

/-! ## One step -/

/-- The words are those of a state of the algorithm, up to factors that the last power does
not see. -/
def Tracks (w : Words12 × TwistWords) (s : Fp12 × g2.Point) : Prop :=
  s.1 ≠ 0 ∧ RepresentsProjective s.2 w.2 ∧ ∃ f, w.1 = encFp12 f ∧ Similar f s.1

/-- Multiplying by a line. -/
theorem similar_line (x y : Fp) {A B : g2.Point} {l f : Words12} {v : Fp12}
    (h : ∃ g, f = encFp12 g ∧ Similar g v) (hl : RepresentsLine A B l) :
    ∃ g, fp12Mul f (evaluateLine l (enc x) (enc y)) = encFp12 g ∧
      Similar g (v * twistLine x y A B) := by
  obtain ⟨g, rfl, hg⟩ := h
  obtain ⟨c, hc, hline⟩ := hl
  refine ⟨g * (ofFp2 c * twistLine x y A B), ?_, hg.mul (Similar.of_mul hc _)⟩
  rw [hline, fp12Mul_enc, twistLine]

section Steps

variable {P : g1.Point} {xP yP : Fp} (hP : Coords P xP yP) {T R : g2.Point} {x y : Fp2}
  {w : Words12 × TwistWords} {s : Fp12 × g2.Point}

include hP

theorem twistLine_tangent_ne_zero (hT : T ≠ 0) : twistLine xP yP T T ≠ 0 := by
  obtain ⟨u, v, huv⟩ := (eq_zero_or_coords T).resolve_left hT
  have hv := huv.y_ne_zero (g2_double_ne_zero hT)
  refine twistLine_ne_zero_of_sparse ?_ (sparse_tangent (Homogeneous.of_coords huv) hT xP yP)
  refine mul_ne_zero (neg_ne_zero.mpr ?_) (QuadraticAlgebra.C_eq_zero_iff.not.mpr ?_)
  · exact mul_ne_zero (mul_ne_zero g2.two_ne_zero hv) one_ne_zero
  · exact g1_coords_y_ne_zero hP

theorem twistLine_chord_ne_zero (hT : T ≠ 0) (hR : Coords R x y) (hne : T ≠ R)
    (hneg : T ≠ -R) : twistLine xP yP T R ≠ 0 := by
  obtain ⟨u, v, huv⟩ := (eq_zero_or_coords T).resolve_left hT
  have hsum : T + R ≠ 0 := fun h => hneg (eq_neg_of_add_eq_zero_left h)
  obtain ⟨hx, hline⟩ := sparse_chord (Homogeneous.of_coords huv) hT hR hne hsum xP yP
  refine twistLine_ne_zero_of_sparse (mul_ne_zero hx ?_) hline
  exact QuadraticAlgebra.C_eq_zero_iff.not.mpr (g1_coords_y_ne_zero hP)

omit hP in
theorem Tracks.square (h : Tracks w s) : Tracks (fp12Square w.1, w.2) (s.1 ^ 2, s.2) := by
  obtain ⟨h0, hT, f, hf, hs⟩ := h
  refine ⟨pow_ne_zero 2 h0, hT, f * f, ?_, ?_⟩
  · rw [hf, fp12Square_enc]
  · rw [sq]
    exact hs.mul hs

theorem Tracks.double (h : Tracks w s) (hT : s.2 ≠ 0) :
    Tracks (doubleAndMultiply (enc xP) (enc yP) w)
      (s.1 * twistLine xP yP s.2 s.2, s.2 + s.2) := by
  obtain ⟨h0, hrep, hs⟩ := h
  obtain ⟨hdouble, hline⟩ := doubleStep_represents hrep hT
  exact ⟨mul_ne_zero h0 (twistLine_tangent_ne_zero hP hT), hdouble, similar_line xP yP hs hline⟩

theorem Tracks.squareDouble (h : Tracks w s) (hT : s.2 ≠ 0) :
    Tracks (doubleAndMultiply (enc xP) (enc yP) (fp12Square w.1, w.2))
      (millerDouble (twistLine xP yP) s) := by
  have hdouble := h.square.double hP hT
  rw [millerDouble]
  with_reducible exact hdouble

theorem Tracks.add (h : Tracks w s) (hT : s.2 ≠ 0) (hR : Coords R x y) (hne : s.2 ≠ R)
    (hneg : s.2 ≠ -R) :
    Tracks (addAndMultiply (enc xP) (enc yP) (encFp2 x, encFp2 y) w)
      (millerAdd (twistLine xP yP) R s) := by
  obtain ⟨h0, hrep, hs⟩ := h
  obtain ⟨hadd, hline⟩ := mixedAdditionStep_represents hrep hT hR hne hneg
  exact ⟨mul_ne_zero h0 (twistLine_chord_ne_zero hP hT hR hne hneg), hadd,
    similar_line xP yP hs hline⟩

end Steps

/-! ## The digits -/

/-- The digit in the lowest three bits. -/
def packedDigit (naf : Word) : ℤ :=
  if and naf 2 ≠ 0 then 1 else if and naf 4 ≠ 0 then -1 else 0

/-- The packed digits before round `k`. -/
def nafAt : ℕ → Word
  | 0 => NAF_REPRESENTATIVE
  | k + 1 => shr 3 (nafAt k)

/-- The digits of the first `k` rounds. -/
def packedDigits (k : ℕ) : List ℤ :=
  (List.range k).map fun i => packedDigit (nafAt i)

theorem packedDigits_succ (k : ℕ) :
    packedDigits (k + 1) = packedDigits k ++ [packedDigit (nafAt k)] := by
  rw [packedDigits, List.range_succ, List.map_append]
  rfl

theorem length_packedDigits (k : ℕ) : (packedDigits k).length = k := by
  rw [packedDigits, List.length_map, List.length_range]

theorem packedDigits_bounds (k : ℕ) : ∀ d ∈ packedDigits k, -1 ≤ d ∧ d ≤ 1 := by
  intro d hd
  obtain ⟨i, -, rfl⟩ := List.mem_map.mp hd
  rw [packedDigit]
  split_ifs
  · decide
  · decide
  · decide

set_option maxRecDepth 4000 in
/-- The packed digits are those of the multiplier, from the fourth on. -/
theorem ateDigits_eq : ateDigits = [0, -1] ++ packedDigits 63 := by
  decide +kernel

/-- The digits are those of the multiplier, and the leading one is a one. -/
theorem digitsFrom_ateDigits : digitsFrom 1 ateDigits = 6 * bnParameter + 2 := by
  have hleading : nonAdjacentForm (6 * bnParameter + 2) = 1 :: ateDigits := by decide +kernel
  have hdigits := digitsFrom_nonAdjacentForm (6 * bnParameter + 2)
  rw [hleading, digitsFrom_cons, mul_zero, zero_add] at hdigits
  rw [hdigits, Nat.cast_add, Nat.cast_mul]
  rfl

set_option maxRecDepth 4000 in
/-- No digit has both of its bits. -/
theorem nafAt_bits : ∀ k, k < 63 → and (nafAt k) 2 ≠ 0 → and (nafAt k) 4 = 0 := by
  decide

section Digits

variable {P : g1.Point} {xP yP : Fp} (hP : Coords P xP yP) {Q : g2.Point} {xQ yQ : Fp2}
  (hQ : Coords Q xQ yQ) (hr : r • Q = 0) {w : Words12 × TwistWords} {s : Fp12 × g2.Point}

include hQ hr

theorem zsmul_ne_zsmul {m k : ℤ} (h : ¬(r : ℤ) ∣ m - k) : m • Q ≠ k • Q := by
  intro heq
  have h0 : (m - k) • Q = 0 := by
    rw [sub_zsmul, heq, add_neg_cancel]
  exact h ((zsmul_eq_zero_iff hQ.ne_zero hr).mp h0)

/-- Small multiples differ. -/
theorem zsmul_ne_zsmul_of_lt {m k : ℤ} (h0 : k < m) (hlt : m - k < r) : m • Q ≠ k • Q := by
  refine zsmul_ne_zsmul hQ hr fun hdvd => ?_
  exact absurd (Int.le_of_dvd (sub_pos.mpr h0) hdvd) (not_le.mpr hlt)

/-- A multiple that can be doubled and added. -/
theorem zsmul_ne_special {k : ℤ} (hk : 2 ≤ k) (hlt : k + 1 < r) :
    k • Q ≠ 0 ∧ k • Q ≠ Q ∧ k • Q ≠ -Q := by
  have h0 := zsmul_ne_zsmul_of_lt hQ hr (m := k) (k := 0) (by omega) (by omega)
  have h1 := zsmul_ne_zsmul_of_lt hQ hr (m := k) (k := 1) (by omega) (by omega)
  have h2 := zsmul_ne_zsmul_of_lt hQ hr (m := k) (k := -1) (by omega) (by omega)
  rw [zero_zsmul] at h0
  rw [one_zsmul] at h1
  rw [neg_one_zsmul] at h2
  exact ⟨h0, h1, h2⟩

include hP

theorem Tracks.round (h : Tracks w s) {m : ℤ} (hs : s.2 = m • Q) (hm : 2 ≤ m)
    (hlt : 2 * m + 1 < r) {naf : Word} (hnaf : and naf 2 ≠ 0 → and naf 4 = 0) :
    Tracks (millerRound (enc xP) (enc yP) (encFp2 xQ, encFp2 yQ) (encFp2 xQ, encFp2 (-yQ)) naf w)
      (millerStep (twistLine xP yP) Q s (packedDigit naf)) := by
  have hT : s.2 ≠ 0 := by
    rw [hs]
    exact (zsmul_ne_special hQ hr hm (by omega)).1
  have hdouble : s.2 + s.2 = (2 * m) • Q := by
    rw [hs, two_mul, add_zsmul]
  obtain ⟨hd0, hd1, hd2⟩ := zsmul_ne_special hQ hr (k := 2 * m) (by omega) hlt
  rw [← hdouble] at hd0 hd1 hd2
  have hstep := h.squareDouble hP hT
  by_cases h2 : and naf 2 ≠ 0
  · have h4 : ¬and naf 4 ≠ 0 := not_not_intro (hnaf h2)
    rw [millerRound, packedDigit, if_pos h2, if_neg h4, if_pos h2, millerStep,
      if_neg one_ne_zero, one_zsmul]
    exact hstep.add hP hd0 hQ hd1 hd2
  by_cases h4 : and naf 4 ≠ 0
  · rw [millerRound, packedDigit, if_neg h2, if_pos h4, if_neg h2, if_pos h4, millerStep,
      if_neg (by decide), neg_one_zsmul]
    exact hstep.add hP hd0 hQ.neg hd2 (by rwa [neg_neg])
  · rw [millerRound, packedDigit, if_neg h2, if_neg h4, if_neg h2, if_neg h4, millerStep,
      if_pos rfl]
    exact hstep

end Digits

/-! ## The run -/

theorem FP12_ONE_eq : FP12_ONE = encFp12 1 := by
  rw [FP12_ONE, ← encFp2_one, ← encFp2_zero]
  rfl

theorem g2ProjectiveFromAffine_enc {x : Fp2} (hx : x ≠ 0) (yq : Word × Word) :
    g2ProjectiveFromAffine (encFp2 x) yq = (encFp2 x, yq, (MONTGOMERY_ONE, 0)) := by
  have h0 : ¬and (eq (encFp2 x).1 0) (eq (encFp2 x).2 0) ≠ 0 := by
    rw [eq, eq, and_boolWord, boolWord_ne_zero, ← Prod.mk.injEq, ← encFp2_zero, encFp2_inj]
    exact hx
  rw [g2ProjectiveFromAffine, if_neg h0]

section Run

variable {P : g1.Point} {xP yP : Fp} (hP : Coords P xP yP) {Q : g2.Point} {xQ yQ : Fp2}
  (hQ : Coords Q xQ yQ) (hr : r • Q = 0)

include hP hQ hr

omit hP in
/-- From the double, the two lines of the second digit. -/
theorem peeled_represents {w : Words12 × TwistWords} {v : Fp12}
    (hrep : RepresentsProjective (2 • Q) w.2) (hw : ∃ f, w.1 = encFp12 f ∧ Similar f v) :
    RepresentsProjective (2 • Q + Q)
        (addAndMultiply (enc xP) (enc yP) (encFp2 xQ, encFp2 yQ)
          (fp12Mul (fp12Mul w.1 w.1)
            (evaluateLine (computeLine (encFp2 xQ) (encFp2 (-yQ)) w.2) (enc xP) (enc yP)),
            w.2)).2 ∧
      ∃ f, (addAndMultiply (enc xP) (enc yP) (encFp2 xQ, encFp2 yQ)
          (fp12Mul (fp12Mul w.1 w.1)
            (evaluateLine (computeLine (encFp2 xQ) (encFp2 (-yQ)) w.2) (enc xP) (enc yP)),
            w.2)).1 = encFp12 f ∧
        Similar f (v ^ 2 * twistLine xP yP (2 • Q) (-Q) * twistLine xP yP (2 • Q) Q) := by
  obtain ⟨h20, h21, h22⟩ := zsmul_ne_special hQ hr (k := 2) le_rfl (by decide)
  rw [ofNat_zsmul] at h20 h21 h22
  obtain ⟨f, hf, hs⟩ := hw
  have hsquare : ∃ g, fp12Mul w.1 w.1 = encFp12 g ∧ Similar g (v ^ 2) := by
    refine ⟨f * f, ?_, ?_⟩
    · rw [hf, fp12Mul_enc]
    · rw [sq]
      exact hs.mul hs
  have hminus := (mixedAdditionStep_represents hrep h20 hQ.neg h22 (by rwa [neg_neg])).2
  obtain ⟨hadd, hplus⟩ := mixedAdditionStep_represents hrep h20 hQ h21 h22
  rw [← computeLine_eq] at hminus
  have hlines := similar_line xP yP (similar_line xP yP hsquare hminus) hplus
  simp only [addAndMultiply]
  with_reducible exact ⟨hadd, hlines⟩

omit hP hQ hr in
theorem millerLoop_eq (fuel : ℕ) (xq yq : Word × Word) (xp yp : Word) :
    millerLoop fuel xq yq xp yp =
      (iterate
        (fun (s : Word × Word × Words12 × TwistWords) =>
          if lt s.1 63 ≠ 0 then
            some (Flow.next (add s.1 1, shr 3 s.2.1,
              millerRound xp yp (xq, yq) (xq, fp2Neg yq) s.2.1 s.2.2))
          else
            some (.done s.2.2))
        fuel (0, NAF_REPRESENTATIVE, millerStart xp yp (xq, yq) (xq, fp2Neg yq)) >>= fun w =>
          some (addAndMultiply xp yp (millerImages (xq, yq)).2
            (addAndMultiply xp yp (millerImages (xq, yq)).1 w)).1) :=
  rfl

omit hP hQ hr in
theorem millerStart_eq (xp yp : Word) (q mq : (Word × Word) × (Word × Word)) :
    millerStart xp yp q mq =
      addAndMultiply xp yp q
        (fp12Mul (fp12Mul (doubleAndMultiply xp yp (FP12_ONE, g2ProjectiveFromAffine q.1 q.2)).1
            (doubleAndMultiply xp yp (FP12_ONE, g2ProjectiveFromAffine q.1 q.2)).1)
          (evaluateLine (computeLine mq.1 mq.2
            (doubleAndMultiply xp yp (FP12_ONE, g2ProjectiveFromAffine q.1 q.2)).2) xp yp),
          (doubleAndMultiply xp yp (FP12_ONE, g2ProjectiveFromAffine q.1 q.2)).2) :=
  rfl

omit hP hr in
theorem tracks_one :
    Tracks (FP12_ONE, g2ProjectiveFromAffine (encFp2 xQ) (encFp2 yQ)) (1, Q) := by
  have hx : xQ ≠ 0 := by
    rintro rfl
    exact g2_x_ne_zero _ hQ.onCurve
  refine ⟨one_ne_zero, ?_, 1, FP12_ONE_eq, Similar.refl 1⟩
  rw [g2ProjectiveFromAffine_enc hx]
  exact representsProjective_affine hQ

theorem millerRun_ne_zero_start : (millerRun (twistLine xP yP) Q [0, -1]).1 ≠ 0 := by
  have hQ0 := hQ.ne_zero
  obtain ⟨h2, -, -⟩ := zsmul_ne_special hQ hr (k := 2) le_rfl (by decide)
  obtain ⟨h40, h41, h42⟩ := zsmul_ne_special hQ hr (k := 4) (by decide) (by decide)
  rw [ofNat_zsmul] at h2 h40 h41 h42
  rw [millerRun_zero_neg_one]
  refine mul_ne_zero (mul_ne_zero (pow_ne_zero 2 ?_) ?_) ?_
  · exact twistLine_tangent_ne_zero hP hQ0
  · exact twistLine_tangent_ne_zero hP h2
  · exact twistLine_chord_ne_zero hP h40 hQ.neg h42 (by rwa [neg_neg])

/-- The value and the point before the loop. -/
theorem tracks_start :
    Tracks (millerStart (enc xP) (enc yP) (encFp2 xQ, encFp2 yQ) (encFp2 xQ, encFp2 (-yQ)))
      (millerRun (twistLine xP yP) Q [0, -1]) := by
  have h0 := millerRun_ne_zero_start hP hQ hr
  obtain ⟨-, hrep, hone⟩ := (tracks_one hQ).double hP hQ.ne_zero
  rw [millerStart_eq]
  generalize doubleAndMultiply _ _ _ = w at hrep hone ⊢
  rw [← two_nsmul] at hrep
  dsimp only at hone
  rw [one_mul] at hone
  obtain ⟨hadd, f, hf, hs⟩ := peeled_represents hQ hr hrep hone
  refine ⟨h0, ?_, f, hf, ?_⟩
  · rw [millerRun_zero_neg_one]
    exact hadd
  · rw [millerRun_zero_neg_one]
    with_reducible exact hs.trans (similar_peel hP hQ.ne_zero hr).mul_right

/-- The invariant of the loop: the run with the digits that are done. -/
def LoopInv (xP yP : Fp) (Q : g2.Point) (k : ℕ) (s : Word × Word × Words12 × TwistWords) :
    Prop :=
  s.1.toNat = k ∧ s.2.1 = nafAt k ∧
    Tracks s.2.2 (millerRun (twistLine xP yP) Q ([0, -1] ++ packedDigits k))

theorem loopInv_step {k : ℕ} (hk : k < 63) {i naf : Word} {w : Words12 × TwistWords}
    (h : LoopInv xP yP Q k (i, naf, w)) :
    LoopInv xP yP Q (k + 1) (add i 1, shr 3 naf,
      millerRound (enc xP) (enc yP) (encFp2 xQ, encFp2 yQ) (encFp2 xQ, encFp2 (-yQ)) naf w) := by
  obtain ⟨hi, rfl, hw⟩ := h
  dsimp only at hi
  refine ⟨?_, rfl, ?_⟩
  · show (add i 1).toNat = _
    rw [toNat_add_one (by omega), hi]
  have hpoint := millerRun_snd (twistLine xP yP) Q ([0, -1] ++ packedDigits k)
  have hfrom : digitsFrom 1 ([0, -1] ++ packedDigits k) = digitsFrom 3 (packedDigits k) := rfl
  obtain ⟨hlo, hhi⟩ := digitsFrom_bounds (m := 3) (by decide) (packedDigits_bounds k)
  rw [length_packedDigits] at hhi
  have hpow : (2 : ℤ) ^ k ≤ 2 ^ 62 := pow_le_pow_right₀ (by decide) (by omega)
  have hr' : (8 * 2 ^ 62 : ℤ) < r := by decide
  rw [hfrom] at hpoint
  have hround := Tracks.round hP hQ hr hw hpoint hlo (by linarith) (nafAt_bits k hk)
  rw [← millerRun_append_singleton, List.append_assoc, ← packedDigits_succ] at hround
  exact hround

omit hP hr in
theorem millerImages_enc :
    Coords (twistFrobenius.map Q) (star xQ * gamma ^ 2) (star yQ * gamma ^ 3) ∧
    Coords (-twistFrobenius.map (twistFrobenius.map Q)) (xQ * gamma2 ^ 2) (-(yQ * gamma2 ^ 3)) ∧
    millerImages (encFp2 xQ, encFp2 yQ) =
      ((encFp2 (star xQ * gamma ^ 2), encFp2 (star yQ * gamma ^ 3)),
        (encFp2 (xQ * gamma2 ^ 2), encFp2 (-(yQ * gamma2 ^ 3)))) := by
  have hfirst := coords_twistFrobenius hQ
  have hsecond := (coords_twistFrobenius hfirst).neg
  refine ⟨hfirst, ?_, ?_⟩
  · convert hsecond using 1
    · rw [star_mul', star_star, star_pow, mul_assoc, ← mul_pow, star_gamma_mul]
    · rw [star_mul', star_star, star_pow, mul_assoc, ← mul_pow, star_gamma_mul]
  · obtain ⟨-, h12, h13, -, -⟩ := mulByGamma1_enc (star xQ)
    obtain ⟨-, -, h13', -, -⟩ := mulByGamma1_enc (star yQ)
    obtain ⟨-, h22, -, -, -⟩ := mulByGamma2_enc xQ
    obtain ⟨-, -, h23, -, -⟩ := mulByGamma2_enc yQ
    rw [millerImages, fp2Conjugate_enc, fp2Conjugate_enc, h12, h13', h22, h23, fp2Neg_enc]

/-- The two additions behind the loop. -/
theorem tracks_images {w : Words12 × TwistWords}
    (h : Tracks w (millerRun (twistLine xP yP) Q ateDigits)) :
    Tracks
      (addAndMultiply (enc xP) (enc yP) (millerImages (encFp2 xQ, encFp2 yQ)).2
        (addAndMultiply (enc xP) (enc yP) (millerImages (encFp2 xQ, encFp2 yQ)).1 w))
      (millerAdd (twistLine xP yP) (-twistFrobenius.map (twistFrobenius.map Q))
        (millerAdd (twistLine xP yP) (twistFrobenius.map Q)
          (millerRun (twistLine xP yP) Q ateDigits))) := by
  obtain ⟨hfirst, hsecond, himages⟩ := millerImages_enc hQ
  have hpoint := millerRun_snd (twistLine xP yP) Q ateDigits
  rw [digitsFrom_ateDigits] at hpoint
  have himage : twistFrobenius.map Q = (p : ℤ) • Q := by
    rw [twistFrobenius_eq hr, natCast_zsmul]
  have himage' : twistFrobenius.map (twistFrobenius.map Q) = (p ^ 2 : ℤ) • Q := by
    have hr' : r • twistFrobenius.map Q = 0 := by
      rw [twistFrobenius_eq hr, nsmul_left_comm, hr, nsmul_zero]
    rw [twistFrobenius_eq hr', himage, ← natCast_zsmul, ← mul_zsmul, sq]
  have hne {m k : ℤ} : ¬(r : ℤ) ∣ m - k → m • Q ≠ k • Q := zsmul_ne_zsmul hQ hr
  rw [himages]
  have hadd : Tracks
      (addAndMultiply (enc xP) (enc yP) (encFp2 (star xQ * gamma ^ 2),
        encFp2 (star yQ * gamma ^ 3)) w)
      (millerAdd (twistLine xP yP) (twistFrobenius.map Q)
        (millerRun (twistLine xP yP) Q ateDigits)) := by
    refine h.add hP ?_ hfirst ?_ ?_
    · rw [hpoint, ← zero_zsmul Q]
      exact hne (by decide)
    · rw [hpoint, himage]
      exact hne (by decide)
    · rw [hpoint, himage, ← neg_zsmul]
      exact hne (by decide)
  have hpoint' : (millerAdd (twistLine xP yP) (twistFrobenius.map Q)
      (millerRun (twistLine xP yP) Q ateDigits)).2 = (6 * bnParameter + 2 + p : ℤ) • Q := by
    rw [millerAdd, hpoint, himage, ← add_zsmul]
  refine hadd.add hP ?_ hsecond ?_ ?_
  · rw [hpoint', ← zero_zsmul Q]
    exact hne (by decide)
  · rw [hpoint', himage', ← neg_zsmul]
    exact hne (by decide)
  · rw [hpoint', neg_neg, himage']
    exact hne (by decide)

/-- The loop ends, with the value of the pairing before the last power. -/
theorem millerLoop_yields :
    ∃ f, Yields (fun fuel => millerLoop fuel (encFp2 xQ) (encFp2 yQ) (enc xP) (enc yP))
        (encFp12 f) ∧
      f ≠ 0 ∧ f ^ ateExponent = optimalAte P Q := by
  have hrule := while_within
    (fun s : Word × Word × Words12 × TwistWords => lt s.1 63 ≠ 0)
    (fun s => (add s.1 1, shr 3 s.2.1,
      millerRound (enc xP) (enc yP) (encFp2 xQ, encFp2 yQ) (encFp2 xQ, encFp2 (-yQ))
        s.2.1 s.2.2)) (fun s => s.2.2)
    (LoopInv xP yP Q) 63 64 (by decide) ?_ ?_
    (0, NAF_REPRESENTATIVE,
      millerStart (enc xP) (enc yP) (encFp2 xQ, encFp2 yQ) (encFp2 xQ, encFp2 (-yQ))) ?_
  · obtain ⟨⟨i, naf, w⟩, ⟨-, -, hw⟩, hloop⟩ := hrule
    rw [← ateDigits_eq] at hw
    obtain ⟨h0, -, f, hf, hs⟩ := tracks_images hP hQ hr hw
    refine ⟨f, ?_, hs.ne_zero h0, ?_⟩
    · have hbind := hloop.bind (g := fun _ w => some (addAndMultiply (enc xP) (enc yP)
        (millerImages (encFp2 xQ, encFp2 yQ)).2 (addAndMultiply (enc xP) (enc yP)
          (millerImages (encFp2 xQ, encFp2 yQ)).1 w)).1)
        (Within.of_eq fun _ => congrArg some hf)
      refine hbind.yields.congr fun fuel => ?_
      rw [millerLoop_eq, fp2Neg_enc]
    · rw [optimalAte_eq hP, ateValue]
      with_reducible exact hs.pow_eq
  · rintro k ⟨i, naf, w⟩ hk hI
    rw [lt_ne_zero, hI.1]
    rfl
  · rintro k ⟨i, naf, w⟩ hk hI
    exact loopInv_step hP hQ hr hk hI
  · exact ⟨rfl, rfl, tracks_start hP hQ hr⟩

end Run

end EraPrecompiles.Pairing

import EraPrecompiles.Bn254.G1

/-!
# EcAdd

The precompile that adds two points of BN254.  The fallback distinguishes six
cases: one or both points at infinity, opposite points, equal points, and the
chord.  Each case validates the points it does not skip; the tests that choose
the case look at the words of the calldata, before they are converted to
Montgomery form.

`ecAdd_refines_add` says that on every calldata the call ends as the addition of
encoded points does: it burns its gas when one of the two pairs of words is not
the encoding of a point, and returns the encoded sum otherwise.
-/

namespace EraPrecompiles.EcAdd

open Bn254 ShortWeierstrass

/-! ## The program -/

def submod (minuend subtrahend modulus : Word) : Word :=
  addmod minuend (sub modulus subtrahend) modulus

/-- The coordinates are in Montgomery form. -/
def pointIsInCurve (x y : Word) : Word :=
  let ySquared := montgomeryMul y y
  let xSquared := montgomeryMul x x
  let xQubed := montgomeryMul xSquared x
  let xQubedPlusThree := montgomeryAdd xQubed MONTGOMERY_THREE
  eq ySquared xQubedPlusThree

def isInfinity (x y : Word) : Word :=
  iszero (or x y)

def isOnFieldOrder (coordinate : Word) : Word :=
  lt coordinate P

def montgomeryDiv (fuel : ℕ) (dividend divisor : Word) : Option Word := do
  let inv ← montgomeryModularInverse fuel divisor
  return montgomeryMul dividend inv

/-- The case of one point at infinity: the other point is validated and
returned as it stands. -/
def addInfinity (x y : Word) : Halt :=
  if or (iszero (isOnFieldOrder x)) (iszero (isOnFieldOrder y)) ≠ 0 then
    .burned
  else
    let m_x := intoMontgomeryForm x
    let m_y := intoMontgomeryForm y
    if iszero (pointIsInCurve m_x m_y) ≠ 0 then
      .burned
    else
      returnPoint x y

/-- The case `P + (-P)`. -/
def addOpposite (x1 y1 : Word) : Halt :=
  let m_x1 := intoMontgomeryForm x1
  let m_y1 := intoMontgomeryForm y1
  if iszero (pointIsInCurve m_x1 m_y1) ≠ 0 then
    .burned
  else
    returnPoint 0 0

/-- The case `P + P`. -/
def double (fuel : ℕ) (x1 y1 : Word) : Option Halt :=
  let x := intoMontgomeryForm x1
  let y := intoMontgomeryForm y1
  if iszero (pointIsInCurve x y) ≠ 0 then
    some .burned
  else do
    let x1_squared := montgomeryMul x x
    let slope ← montgomeryDiv fuel
      (montgomeryAdd x1_squared (montgomeryAdd x1_squared x1_squared))
      (montgomeryAdd y y)
    let x3 := montgomerySub (montgomeryMul slope slope) (montgomeryAdd x x)
    let y3 := montgomerySub (montgomeryMul slope (montgomerySub x x3)) y
    return returnPoint (outOfMontgomeryForm x3) (outOfMontgomeryForm y3)

/-- The remaining case, of points with different `x`. -/
def addDistinct (fuel : ℕ) (x1 y1 x2 y2 : Word) : Option Halt :=
  let x1 := intoMontgomeryForm x1
  let y1 := intoMontgomeryForm y1
  let x2 := intoMontgomeryForm x2
  let y2 := intoMontgomeryForm y2
  if or (iszero (pointIsInCurve x1 y1)) (iszero (pointIsInCurve x2 y2)) ≠ 0 then
    some .burned
  else do
    let slope ← montgomeryDiv fuel (montgomerySub y2 y1) (montgomerySub x2 x1)
    let x3 := montgomerySub (montgomeryMul slope slope) (montgomeryAdd x1 x2)
    let y3 := montgomerySub (montgomeryMul slope (montgomerySub x1 x3)) y1
    return returnPoint (outOfMontgomeryForm x3) (outOfMontgomeryForm y3)

def fallback (fuel : ℕ) (cd : Calldata) : Option Halt :=
  let x1 := calldataload cd 0
  let y1 := calldataload cd 32
  let x2 := calldataload cd 64
  let y2 := calldataload cd 96
  let p1IsInfinity := isInfinity x1 y1
  let p2IsInfinity := isInfinity x2 y2
  if and p1IsInfinity p2IsInfinity ≠ 0 then
    some (returnPoint 0 0)
  else if p1IsInfinity ≠ 0 then
    some (addInfinity x2 y2)
  else if p2IsInfinity ≠ 0 then
    some (addInfinity x1 y1)
  else if or (iszero (isOnFieldOrder x1)) (iszero (isOnFieldOrder y1)) ≠ 0 then
    some .burned
  else if or (iszero (isOnFieldOrder x2)) (iszero (isOnFieldOrder y2)) ≠ 0 then
    some .burned
  else if and (eq x1 x2) (eq (submod 0 y1 P) y2) ≠ 0 then
    some (addOpposite x1 y1)
  else if and (eq x1 x2) (eq y1 y2) ≠ 0 then
    double fuel x1 y1
  else
    addDistinct fuel x1 y1 x2 y2

/-- Addition of encoded points. -/
def addPoints (x1 y1 x2 y2 : Word) : Option g1.Point := do
  let A ← decodePoint x1 y1
  let B ← decodePoint x2 y2
  return A + B

/-! ## The tests -/

theorem isInfinity_eq (x y : Word) : isInfinity x y = boolWord (x = 0 ∧ y = 0) :=
  boolWord_congr or_eq_zero

theorem isOnFieldOrder_eq (w : Word) : isOnFieldOrder w = boolWord (w.toNat < p) := by
  rw [isOnFieldOrder, lt]
  exact boolWord_congr (by rw [toNat_P])

theorem notOnFieldOrder_iff (x y : Word) :
    or (iszero (isOnFieldOrder x)) (iszero (isOnFieldOrder y)) ≠ 0 ↔
      ¬(x.toNat < p ∧ y.toNat < p) := by
  rw [isOnFieldOrder_eq, isOnFieldOrder_eq, iszero_boolWord, iszero_boolWord, or_boolWord,
    boolWord_ne_zero, not_and_or]

theorem pointIsInCurve_enc (x y : Fp) :
    pointIsInCurve (enc x) (enc y) = boolWord (g1.OnCurve x y) := by
  simp only [pointIsInCurve, MONTGOMERY_THREE_eq, montgomeryMul_enc, montgomeryAdd_enc,
    eq_enc]
  refine boolWord_congr ?_
  have h : x * x * x + 3 = x ^ 3 + g1.a * x + g1.b := by
    simp only [g1]
    ring
  rw [OnCurve, h, pow_two]

theorem notInCurve_iff (x y : Word) :
    iszero (pointIsInCurve (intoMontgomeryForm x) (intoMontgomeryForm y)) ≠ 0 ↔
      ¬g1.OnCurve x.toNat y.toNat := by
  rw [intoMontgomeryForm_eq, intoMontgomeryForm_eq, pointIsInCurve_enc, iszero_boolWord,
    boolWord_ne_zero]

/-- Division of residues; a zero divisor is not reached. -/
theorem montgomeryDiv_enc (x : Fp) {y : Fp} (hy : y ≠ 0) :
    Yields (fun fuel => montgomeryDiv fuel (enc x) (enc y)) (enc (x * y⁻¹)) := by
  refine (montgomeryModularInverse_enc hy).bind ?_
  rw [← montgomeryMul_enc]
  exact Yields.const _

/-- The word `-y1` of the test for opposite points. -/
theorem submod_zero {y : Word} (hy : y.toNat < p) :
    submod 0 y P = toWord (-(y.toNat : Fp)) := by
  have hlt : (submod 0 y P).toNat < p := by
    rw [submod, toNat_addmod _ _ P_ne_zero, toNat_P]
    exact Nat.mod_lt _ (by decide)
  have hsub : (sub P y).toNat = p - y.toNat := by
    rw [toNat_sub_of_le (by rw [toNat_P]; omega), toNat_P]
  rw [← toWord_cast hlt, submod, toNat_addmod _ _ P_ne_zero, toNat_P, hsub,
    ZMod.natCast_mod, toNat_eq_zero.mpr rfl, Nat.zero_add, Nat.cast_sub hy.le,
    ZMod.natCast_self, zero_sub]

/-! ## The cases -/

theorem addInfinity_eq {x y : Word} (h0 : ¬(x = 0 ∧ y = 0)) :
    addInfinity x y = answer (decodePoint x y) := by
  by_cases hlt : x.toNat < p ∧ y.toNat < p
  · rw [addInfinity, if_neg (mt (notOnFieldOrder_iff x y).mp (not_not_intro hlt))]
    by_cases hcurve : g1.OnCurve x.toNat y.toNat
    · obtain ⟨A, hA, hxy⟩ := decodePoint_of_onCurve hlt.1 hlt.2 hcurve
      rw [hA]
      simp only [if_neg (mt (notInCurve_iff x y).mp (not_not_intro hcurve))]
      exact returnPoint_of_decode hlt.1 hlt.2 hxy
    · rw [decodePoint_eq_none h0 fun h => hcurve h.2]
      simp only [if_pos ((notInCurve_iff x y).mpr hcurve), answer]
  · rw [addInfinity, if_pos ((notOnFieldOrder_iff x y).mpr hlt),
      decodePoint_eq_none h0 fun h => hlt h.1]
    rfl

theorem addPoints_of_decode {x1 y1 x2 y2 : Word} {A B : g1.Point}
    (hA : decodePoint x1 y1 = some A) (hB : decodePoint x2 y2 = some B) :
    addPoints x1 y1 x2 y2 = some (A + B) := by
  rw [addPoints, hA, hB]
  rfl

theorem addPoints_none_left {x1 y1 : Word} (h : decodePoint x1 y1 = none) (x2 y2 : Word) :
    addPoints x1 y1 x2 y2 = none := by
  rw [addPoints, h]
  rfl

theorem addPoints_none_right {x2 y2 : Word} (h : decodePoint x2 y2 = none) (x1 y1 : Word) :
    addPoints x1 y1 x2 y2 = none := by
  rw [addPoints, h]
  cases decodePoint x1 y1 <;> rfl

section Cases

variable {x1 y1 x2 y2 : Word}

theorem addOpposite_eq (h0 : ¬(x1 = 0 ∧ y1 = 0)) (hlt1 : x1.toNat < p ∧ y1.toNat < p)
    (hlt2 : y2.toNat < p) (hy : submod 0 y1 P = y2) :
    addOpposite x1 y1 = answer (addPoints x1 y1 x1 y2) := by
  by_cases hcurve : g1.OnCurve x1.toNat y1.toNat
  · have hneg : (y2.toNat : Fp) = -(y1.toNat : Fp) := by
      rw [← hy, submod_zero hlt1.2, cast_toWord]
    have hcurve2 : g1.OnCurve x1.toNat y2.toNat := by
      rw [hneg]
      exact hcurve.neg
    obtain ⟨A, hA, hA'⟩ := decodePoint_of_onCurve hlt1.1 hlt1.2 hcurve
    obtain ⟨B, hB, hB'⟩ := decodePoint_of_onCurve hlt1.1 hlt2 hcurve2
    have htest := mt (notInCurve_iff x1 y1).mp (not_not_intro hcurve)
    rw [addPoints_of_decode hA hB, hA'.add_eq_zero hB' (by rw [hneg, neg_neg])]
    simp only [addOpposite, if_neg htest]
    exact returnPoint_zero
  · rw [addPoints_none_left (decodePoint_eq_none h0 fun h => hcurve h.2)]
    simp only [addOpposite, if_pos ((notInCurve_iff x1 y1).mpr hcurve), answer]

theorem double_yields (h0 : ¬(x1 = 0 ∧ y1 = 0)) (hlt : x1.toNat < p ∧ y1.toNat < p) :
    Yields (fun fuel => double fuel x1 y1) (answer (addPoints x1 y1 x1 y1)) := by
  by_cases hcurve : g1.OnCurve x1.toNat y1.toNat
  · obtain ⟨A, hA, hxy⟩ := decodePoint_of_onCurve hlt.1 hlt.2 hcurve
    have hy : (y1.toNat : Fp) ≠ 0 := by
      intro hy
      rw [hy] at hcurve
      exact g1_y_ne_zero _ hcurve
    have hyy : (y1.toNat : Fp) + y1.toNat ≠ 0 := by
      rw [← two_mul]
      exact mul_ne_zero g1.two_ne_zero hy
    have hl : ((x1.toNat : Fp) * x1.toNat +
        ((x1.toNat : Fp) * x1.toNat + (x1.toNat : Fp) * x1.toNat)) *
          ((y1.toNat : Fp) + y1.toNat)⁻¹ * (2 * y1.toNat) =
        3 * (x1.toNat : Fp) ^ 2 + g1.a := by
      rw [two_mul, inv_mul_cancel_right₀ hyy]
      simp only [g1]
      ring
    have hsum := hxy.double hy hl
    rw [addPoints_of_decode hA hA]
    have htest := mt (notInCurve_iff x1 y1).mp (not_not_intro hcurve)
    simp only [double, if_neg htest]
    simp only [intoMontgomeryForm_eq, montgomeryMul_enc, montgomeryAdd_enc]
    refine (montgomeryDiv_enc _ hyy).bind ?_
    simp only [montgomeryMul_enc, montgomerySub_enc]
    rw [← returnPoint_outOfMontgomery (hsum.congr ?_ ?_)]
    · exact Yields.const _
    · ring
    · ring
  · rw [addPoints_none_left (decodePoint_eq_none h0 fun h => hcurve h.2)]
    simp only [double, if_pos ((notInCurve_iff x1 y1).mpr hcurve)]
    exact Yields.const _

theorem addDistinct_yields (h01 : ¬(x1 = 0 ∧ y1 = 0)) (h02 : ¬(x2 = 0 ∧ y2 = 0))
    (hlt1 : x1.toNat < p ∧ y1.toNat < p) (hlt2 : x2.toNat < p ∧ y2.toNat < p)
    (hopp : ¬(x1 = x2 ∧ submod 0 y1 P = y2)) (heq : ¬(x1 = x2 ∧ y1 = y2)) :
    Yields (fun fuel => addDistinct fuel x1 y1 x2 y2) (answer (addPoints x1 y1 x2 y2)) := by
  have htest : or (iszero (pointIsInCurve (intoMontgomeryForm x1) (intoMontgomeryForm y1)))
      (iszero (pointIsInCurve (intoMontgomeryForm x2) (intoMontgomeryForm y2))) ≠ 0 ↔
      ¬g1.OnCurve x1.toNat y1.toNat ∨ ¬g1.OnCurve x2.toNat y2.toNat := by
    rw [← notInCurve_iff, ← notInCurve_iff, ne_eq, or_eq_zero, not_and_or]
  by_cases hcurve : g1.OnCurve x1.toNat y1.toNat ∧ g1.OnCurve x2.toNat y2.toNat
  · obtain ⟨hc1, hc2⟩ := hcurve
    obtain ⟨A, hA, hA'⟩ := decodePoint_of_onCurve hlt1.1 hlt1.2 hc1
    obtain ⟨B, hB, hB'⟩ := decodePoint_of_onCurve hlt2.1 hlt2.2 hc2
    -- With the same `x` one of the two tests before would have held.
    have hx : (x1.toNat : Fp) ≠ x2.toNat := by
      intro hx
      have hx' : x1 = x2 := by
        rw [← toWord_cast hlt1.1, hx, toWord_cast hlt2.1]
      rcases hA'.eq_or_eq_neg (hB'.congr hx.symm rfl) with hy | hy
      · refine heq ⟨hx', ?_⟩
        rw [← toWord_cast hlt1.2, hy, toWord_cast hlt2.2]
      · refine hopp ⟨hx', ?_⟩
        rw [submod_zero hlt1.2, hy, neg_neg, toWord_cast hlt2.2]
    have hsub : (x2.toNat : Fp) - x1.toNat ≠ 0 := sub_ne_zero.mpr (Ne.symm hx)
    have hsum := hA'.add hB' hx (inv_mul_cancel_right₀ hsub _)
    rw [addPoints_of_decode hA hB]
    have hnot := mt htest.mp (not_or.mpr ⟨not_not_intro hc1, not_not_intro hc2⟩)
    simp only [addDistinct, if_neg hnot]
    simp only [intoMontgomeryForm_eq, montgomerySub_enc]
    refine (montgomeryDiv_enc _ hsub).bind ?_
    simp only [montgomeryMul_enc, montgomeryAdd_enc, montgomerySub_enc]
    rw [← returnPoint_outOfMontgomery (hsum.congr ?_ ?_)]
    · exact Yields.const _
    · ring
    · ring
  · have hnone : addPoints x1 y1 x2 y2 = none := by
      rcases not_and_or.mp hcurve with h | h
      · exact addPoints_none_left (decodePoint_eq_none h01 fun h' => h h'.2) x2 y2
      · exact addPoints_none_right (decodePoint_eq_none h02 fun h' => h h'.2) x1 y1
    rw [hnone]
    simp only [addDistinct, if_pos (htest.mpr (not_and_or.mp hcurve))]
    exact Yields.const _

end Cases

/-- The call in the words that it reads, by the cases of the fallback. -/
theorem fallback_yields {cd : Calldata} {x1 y1 x2 y2 : Word} (hx1 : calldataload cd 0 = x1)
    (hy1 : calldataload cd 32 = y1) (hx2 : calldataload cd 64 = x2)
    (hy2 : calldataload cd 96 = y2) :
    Yields (fun fuel => fallback fuel cd) (answer (addPoints x1 y1 x2 y2)) := by
  simp only [fallback, hx1, hy1, hx2, hy2, isInfinity_eq, and_boolWord, boolWord_ne_zero,
    notOnFieldOrder_iff, eq]
  by_cases h01 : x1 = 0 ∧ y1 = 0
  · obtain ⟨rfl, rfl⟩ := h01
    by_cases h02 : x2 = 0 ∧ y2 = 0
    · obtain ⟨rfl, rfl⟩ := h02
      rw [addPoints_of_decode decodePoint_zero decodePoint_zero, add_zero]
      simp only [and_self, if_true, returnPoint_zero, answer]
      exact Yields.const _
    · have hsum : addPoints 0 0 x2 y2 = decodePoint x2 y2 := by
        rw [addPoints, decodePoint_zero]
        cases h : decodePoint x2 y2 with
        | none => rfl
        | some B => exact congrArg some (zero_add B)
      simp only [and_self, true_and, if_true, if_neg h02, addInfinity_eq h02, hsum]
      exact Yields.const _
  · by_cases h02 : x2 = 0 ∧ y2 = 0
    · obtain ⟨rfl, rfl⟩ := h02
      have hsum : addPoints x1 y1 0 0 = decodePoint x1 y1 := by
        rw [addPoints, decodePoint_zero]
        cases h : decodePoint x1 y1 with
        | none => rfl
        | some A => exact congrArg some (add_zero A)
      simp only [if_neg h01, and_self, and_true, if_true, addInfinity_eq h01, hsum]
      exact Yields.const _
    · simp only [if_neg h01, if_neg h02, if_neg fun h => h01 (And.left h)]
      by_cases hlt1 : x1.toNat < p ∧ y1.toNat < p
      · by_cases hlt2 : x2.toNat < p ∧ y2.toNat < p
        · simp only [if_neg (not_not_intro hlt1), if_neg (not_not_intro hlt2)]
          by_cases hopp : x1 = x2 ∧ submod 0 y1 P = y2
          · obtain ⟨rfl, hy⟩ := hopp
            simp only [hy, and_self, if_true, addOpposite_eq h01 hlt1 hlt2.2 hy]
            exact Yields.const _
          · by_cases heq : x1 = x2 ∧ y1 = y2
            · simp only [if_neg hopp, if_pos heq]
              obtain ⟨rfl, rfl⟩ := heq
              exact double_yields h01 hlt1
            · simp only [if_neg hopp, if_neg heq]
              exact addDistinct_yields h01 h02 hlt1 hlt2 hopp heq
        · simp only [if_neg (not_not_intro hlt1), if_pos hlt2,
            addPoints_none_right (decodePoint_out_of_range h02 hlt2)]
          exact Yields.const _
      · simp only [if_pos hlt1, addPoints_none_left (decodePoint_out_of_range h01 hlt1)]
        exact Yields.const _

/-- On every calldata the call ends as the addition of encoded points: with the
encoded sum, or with all gas burned if a pair of words encodes no point. -/
theorem ecAdd_refines_add (cd : Calldata) :
    Yields (fun fuel => fallback fuel cd)
      (answer (addPoints (calldataload cd 0) (calldataload cd 32)
        (calldataload cd 64) (calldataload cd 96))) :=
  fallback_yields rfl rfl rfl rfl

end EraPrecompiles.EcAdd

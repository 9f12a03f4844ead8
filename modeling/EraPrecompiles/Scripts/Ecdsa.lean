import EraPrecompiles.Curve.PrimeOrder
import EraPrecompiles.Scripts.Affine

/-!
# The reference scripts: signatures

The scripts `secp256r1_ecdsa.py` and `secp256k1_ecdsa.py` differ in their constants only.  Here
their functions have the constants `A` and `P` of the curve as parameters.

The addition calls `point_double` with three arguments, but that function takes two: a sum of
equal points ends with a type error.  So `scalar_mul` computes the multiple where it ends
(`scalarMul_sound`), and it ends for all multipliers below the order of the curve
(`scalarMul_eq`), because none of them makes it add equal points.
-/

namespace EraPrecompiles.Scripts

open ShortWeierstrass

/-! ## The functions -/

section Program

variable (A P : ℤ)

def pointDouble (x y : ℤ) : ℤ × ℤ :=
  if isInfinity x y then
    (0, 0)
  else if y = 0 then
    (0, 0)
  else
    let m := divMod (addMod A (mulMod 3 (mulMod x x P) P) P) (addMod y y P) P
    let ret_x := subMod (mulMod m m P) (addMod x x P) P
    let ret_y := subMod (mulMod m (subMod x ret_x P) P) y P
    (ret_x, ret_y)

def pointAdd (x1 y1 x2 y2 : ℤ) : Except Raised (ℤ × ℤ) :=
  if isInfinity x1 y1 ∧ isInfinity x2 y2 then
    .ok (0, 0)
  else if isInfinity x1 y1 ∧ ¬isInfinity x2 y2 then
    .ok (x2, y2)
  else if ¬isInfinity x1 y1 ∧ isInfinity x2 y2 then
    .ok (x1, y1)
  else if x1 = x2 ∧ subMod 0 y1 P = y2 then
    .ok (0, 0)
  else if x1 = x2 ∧ y1 = y2 then
    -- `point_double(x1, y1, mod)`, with one argument more than the function takes
    .error .typeError
  else
    let m := divMod (subMod y1 y2 P) (subMod x1 x2 P) P
    let ret_x := subMod (mulMod m m P) (addMod x1 x2 P) P
    let ret_y := subMod (mulMod m (subMod x1 ret_x P) P) y1 P
    .ok (ret_x, ret_y)

/-- The loop of `scalar_mul`. -/
def scalarLoop (multiplier : ℤ) (res p : ℤ × ℤ) : Except Raised (ℤ × ℤ) :=
  if 0 < multiplier then do
    let res ← if ¬isEven multiplier then pointAdd P res.1 res.2 p.1 p.2 else .ok res
    scalarLoop (multiplier >>> (1 : ℕ)) res (pointDouble A P p.1 p.2)
  else
    .ok res
termination_by multiplier.toNat
decreasing_by
  rw [Int.shiftRight_eq_div_pow]
  omega

def scalarMul (p : ℤ × ℤ) (n : ℤ) : Except Raised (ℤ × ℤ) :=
  scalarLoop A P n (0, 0) p

def publicKey (da gx gy : ℤ) : Except Raised (ℤ × ℤ) :=
  scalarMul A P (gx, gy) da

def sign (z da k gx gy n : ℤ) : Except Raised (ℤ × ℤ) := do
  let (x, _) ← scalarMul A P (gx, gy) k
  let r := x % n
  if r = 0 then
    .error .assertionError
  else
    let k_inv := modPow k (n - 2) n
    if k_inv * k % n ≠ 1 then
      .error .assertionError
    else
      let s := k_inv * (z + r * da) % n
      if s = 0 then .error .assertionError else .ok (r, s)

def verify (z r s public_key_x public_key_y gx gy n : ℤ) : Except Raised Bool := do
  let s_inv := modPow s (n - 2) n
  if s_inv * s % n ≠ 1 then
    .error .assertionError
  else
    let u1 := z * s_inv % n
    let u2 := r * s_inv % n
    let a ← scalarMul A P (gx, gy) u1
    let b ← scalarMul A P (public_key_x, public_key_y) u2
    let (x1, _) ← pointAdd P a.1 a.2 b.1 b.2
    let x1 := x1 % n
    let r := r % n
    .ok (x1 = r)

end Program

/-! ## The group -/

section Points

variable {p : ℕ} [hp : Fact p.Prime] {E : ShortWeierstrass (ZMod p)} {A : ℤ}

theorem pointDouble_eq (h2 : 2 < p) (hA : A = residue E.a) (hb : E.b ≠ 0) (S : E.Point) :
    pointDouble A p (scriptPoint S).1 (scriptPoint S).2 = scriptPoint (S + S) := by
  rcases eq_zero_or_coords S with rfl | ⟨x, y, hS⟩
  · rw [add_zero]
    rfl
  · rw [scriptPoint_of_coords hS, pointDouble, isInfinity_of_coords hb hS,
      if_neg Bool.false_ne_true]
    by_cases hy : y = 0
    · have hsum : S + S = 0 := hS.add_eq_zero hS (by rw [hy, neg_zero])
      rw [if_pos (residue_eq_zero.mpr hy), hsum, scriptPoint_zero]
    · rw [if_neg (mt residue_eq_zero.mp hy)]
      simp only [hA, mulMod_residue, mulMod_three_residue, addMod_residue, divMod_residue h2,
        subMod_residue]
      have h2y : 2 * y ≠ 0 := mul_ne_zero E.two_ne_zero hy
      have hslope : (E.a + 3 * (x * x)) / (y + y) * (2 * y) = 3 * x ^ 2 + E.a := by
        rw [← two_mul, div_mul_cancel₀ _ h2y]
        ring
      rw [scriptPoint_of_coords (hS.double hy hslope)]
      congr 2 <;> ring

/-- The sum, or the type error for equal points. -/
theorem pointAdd_eq (h2 : 2 < p) (hb : E.b ≠ 0) (S T : E.Point) :
    pointAdd p (scriptPoint S).1 (scriptPoint S).2 (scriptPoint T).1 (scriptPoint T).2 =
      if S = T ∧ S + T ≠ 0 then .error .typeError else .ok (scriptPoint (S + T)) := by
  rcases eq_zero_or_coords S with rfl | ⟨x₁, y₁, hS⟩
  · rcases eq_zero_or_coords T with rfl | ⟨x₂, y₂, hT⟩
    · simp [scriptPoint_zero, pointAdd, isInfinity_zero]
    · simp [scriptPoint_zero, scriptPoint_of_coords hT, pointAdd, isInfinity_zero,
        isInfinity_of_coords hb hT, hT.ne_zero.symm]
  rcases eq_zero_or_coords T with rfl | ⟨x₂, y₂, hT⟩
  · simp [scriptPoint_zero, scriptPoint_of_coords hS, pointAdd, isInfinity_zero,
      isInfinity_of_coords hb hS, hS.ne_zero]
  simp only [scriptPoint_of_coords hS, scriptPoint_of_coords hT, pointAdd,
    isInfinity_of_coords hb hS, isInfinity_of_coords hb hT, subMod_zero_residue, residue_inj,
    Bool.false_eq_true, false_and, and_false, not_false_eq_true, if_false]
  by_cases hx : x₁ = x₂
  · subst hx
    by_cases hy : -y₁ = y₂
    · have hsum : S + T = 0 := hS.add_eq_zero hT (by rw [← hy, neg_neg])
      rw [if_pos ⟨rfl, hy⟩, if_neg fun h => h.2 hsum, hsum, scriptPoint_zero]
    · have hyy : y₁ = y₂ := (hS.eq_or_eq_neg hT).resolve_right fun h => hy (by rw [h, neg_neg])
      subst hyy
      have hST : S = T := hS.point_unique hT
      have hsum : S + T ≠ 0 := by
        intro h
        rw [eq_neg_of_add_eq_zero_left h] at hS
        exact hy (hS.unique hT.neg).2.symm
      rw [if_neg fun h => hy h.2, if_pos ⟨rfl, rfl⟩, if_pos ⟨hST, hsum⟩]
  · have hST : S ≠ T := by
      rintro rfl
      exact hx (hS.unique hT).1
    have hsub : x₂ - x₁ ≠ 0 := sub_ne_zero.mpr (Ne.symm hx)
    have hslope : (y₁ - y₂) / (x₁ - x₂) * (x₂ - x₁) = y₂ - y₁ := by
      rw [← neg_sub y₂, ← neg_sub x₂, neg_div_neg_eq, div_mul_cancel₀ _ hsub]
    rw [if_neg fun h => hx h.1, if_neg fun h => hx h.1, if_neg fun h => hST h.1]
    simp only [mulMod_residue, addMod_residue, divMod_residue h2, subMod_residue]
    rw [scriptPoint_of_coords (hS.add hT hx hslope)]
    congr 3 <;> ring

/-! ### The loop -/

theorem toNat_shiftRight_one (m : ℤ) : (m >>> (1 : ℕ)).toNat = m.toNat / 2 := by
  rw [Int.shiftRight_eq_div_pow]
  omega

theorem isEven_iff {m : ℤ} (hm : 0 ≤ m) : isEven m = true ↔ m.toNat % 2 = 0 := by
  rw [isEven, decide_eq_true_iff]
  omega

theorem nsmul_eq_half (m : ℕ) (T : E.Point) :
    m • T = (m % 2) • T + (m / 2) • (T + T) := by
  conv_lhs => rw [← Nat.mod_add_div m 2]
  rw [add_nsmul, mul_nsmul, two_nsmul]

/-- One round: the sum is left as it is, or the type error ends the loop, or the double is
added. -/
theorem scalarLoop_succ (h2 : 2 < p) (hA : A = residue E.a) (hb : E.b ≠ 0) {m : ℤ} (hm : 0 < m)
    (S T : E.Point) :
    scalarLoop A p m (scriptPoint S) (scriptPoint T) =
      if m.toNat % 2 = 1 ∧ S = T ∧ S + T ≠ 0 then
        .error .typeError
      else
        scalarLoop A p (m >>> (1 : ℕ)) (scriptPoint (S + (m.toNat % 2) • T))
          (scriptPoint (T + T)) := by
  rw [scalarLoop, if_pos hm]
  have heven := isEven_iff hm.le
  cases Nat.mod_two_eq_zero_or_one m.toNat with
  | inl h0 =>
      have hno : ¬(m.toNat % 2 = 1 ∧ S = T ∧ S + T ≠ 0) := by
        rintro ⟨h1, -⟩
        omega
      rw [if_neg hno, heven.mpr h0, if_neg (not_not_intro rfl), h0, zero_nsmul, add_zero,
        pointDouble_eq h2 hA hb]
      rfl
  | inr h1 =>
      have hodd : ¬isEven m = true := fun h => by
        have h0 := heven.mp h
        omega
      rw [if_pos hodd, h1, one_nsmul, pointAdd_eq h2 hb, pointDouble_eq h2 hA hb]
      by_cases hequal : S = T ∧ S + T ≠ 0
      · rw [if_pos hequal, if_pos ⟨rfl, hequal⟩]
        rfl
      · rw [if_neg hequal, if_neg fun h => hequal h.2]
        rfl

/-- Where the loop ends, it has added the multiple. -/
theorem scalarLoop_sound (h2 : 2 < p) (hA : A = residue E.a) (hb : E.b ≠ 0) (m : ℤ)
    (S T : E.Point) {R : ℤ × ℤ}
    (h : scalarLoop A p m (scriptPoint S) (scriptPoint T) = .ok R) :
    R = scriptPoint (S + m.toNat • T) := by
  induction hn : m.toNat using Nat.strong_induction_on generalizing m S T with
  | _ n ih =>
      subst hn
      by_cases hm : 0 < m
      · rw [scalarLoop_succ h2 hA hb hm] at h
        split at h
        · cases h
        · have hlt : (m >>> (1 : ℕ)).toNat < m.toNat := by
            rw [toNat_shiftRight_one]
            omega
          rw [ih _ hlt _ _ _ h rfl, toNat_shiftRight_one, add_assoc, ← nsmul_eq_half]
      · rw [scalarLoop, if_neg hm, Except.ok.injEq] at h
        rw [← h, Int.toNat_of_nonpos (not_lt.mp hm), zero_nsmul, add_zero]

/-- On a curve of prime order the loop ends with the multiple, for multipliers below the
order: `j` is the part of the multiplier that is already added, and `i` the number of rounds
so far. -/
theorem scalarLoop_eq {n : ℕ} (h2 : 2 < p) (hA : A = residue E.a) (hb : E.b ≠ 0)
    (hn : n.Prime) (hcard : Nat.card E.Point = n) (B : E.Point) (m : ℤ) {i j : ℕ}
    (hj : j < 2 ^ i) (hlt : 2 ^ i * m.toNat + j < n) :
    scalarLoop A p m (scriptPoint (j • B)) (scriptPoint (2 ^ i • B)) =
      .ok (scriptPoint ((2 ^ i * m.toNat + j) • B)) := by
  have hprime : Fact n.Prime := ⟨hn⟩
  induction hk : m.toNat using Nat.strong_induction_on generalizing m i j with
  | _ k ih =>
      subst hk
      by_cases hm : 0 < m
      · have hpos : 1 ≤ m.toNat := by omega
        have hle : 2 ^ i * 1 ≤ 2 ^ i * m.toNat := Nat.mul_le_mul_left _ hpos
        have hno : ¬(m.toNat % 2 = 1 ∧ j • B = 2 ^ i • B ∧ j • B + 2 ^ i • B ≠ 0) := by
          rintro ⟨-, heq, hsum⟩
          have hB : B ≠ 0 := by
            rintro rfl
            rw [nsmul_zero, nsmul_zero, add_zero] at hsum
            exact hsum rfl
          rw [nsmul_eq_nsmul_iff_of_card hcard hB, ZMod.natCast_eq_natCast_iff',
            Nat.mod_eq_of_lt (by omega), Nat.mod_eq_of_lt (by omega)] at heq
          omega
        have hhalf := toNat_shiftRight_one m
        have hsplit : 2 ^ (i + 1) * (m.toNat / 2) + (j + 2 ^ i * (m.toNat % 2)) =
            2 ^ i * m.toNat + j := by
          conv_rhs => rw [← Nat.div_add_mod m.toNat 2]
          ring
        have hj' : j + 2 ^ i * (m.toNat % 2) < 2 ^ (i + 1) := by
          have hbit : 2 ^ i * (m.toNat % 2) ≤ 2 ^ i * 1 := Nat.mul_le_mul_left _ (by omega)
          rw [pow_succ]
          omega
        have hres : j • B + (m.toNat % 2) • 2 ^ i • B = (j + 2 ^ i * (m.toNat % 2)) • B := by
          rw [add_nsmul, mul_nsmul]
        have hdouble : 2 ^ i • B + 2 ^ i • B = 2 ^ (i + 1) • B := by
          rw [← add_nsmul, pow_succ, mul_two]
        have hrec := ih (m >>> (1 : ℕ)).toNat (by omega) (m >>> (1 : ℕ)) hj'
          (by rw [hhalf, hsplit]; exact hlt)
          rfl
        rw [scalarLoop_succ h2 hA hb hm, if_neg hno, hres, hdouble, hrec, hhalf, hsplit]
      · rw [scalarLoop, if_neg hm, Int.toNat_of_nonpos (not_lt.mp hm), mul_zero, zero_add]

/-! ### The multiples -/

theorem scalarMul_sound (h2 : 2 < p) (hA : A = residue E.a) (hb : E.b ≠ 0) (m : ℤ) (B : E.Point)
    {R : ℤ × ℤ} (h : scalarMul A p (scriptPoint B) m = .ok R) :
    R = scriptPoint (m.toNat • B) := by
  rw [scalarMul, ← scriptPoint_zero (E := E)] at h
  rw [scalarLoop_sound h2 hA hb m 0 B h, zero_add]

theorem scalarMul_eq {n : ℕ} (h2 : 2 < p) (hA : A = residue E.a) (hb : E.b ≠ 0) (hn : n.Prime)
    (hcard : Nat.card E.Point = n) (B : E.Point) {m : ℤ} (hm : m < n) :
    scalarMul A p (scriptPoint B) m = .ok (scriptPoint (m.toNat • B)) := by
  have hpos := hn.pos
  have h := scalarLoop_eq (i := 0) (j := 0) h2 hA hb hn hcard B m (by norm_num) (by omega)
  rw [zero_nsmul, pow_zero, one_nsmul, one_mul, add_zero] at h
  exact h

end Points

end EraPrecompiles.Scripts

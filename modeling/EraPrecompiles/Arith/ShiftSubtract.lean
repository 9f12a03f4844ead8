import EraPrecompiles.Arith.Limbs

/-!
# Remainders by shifting and subtracting

The divisor is shifted up to the dividend, and while it is shifted down again bit by bit
it is subtracted from what is left wherever it fits.  Comparison and subtraction are
those of the chain of limbs in `EraPrecompiles.Arith.Limbs`.

`remChain_eq`: with a dividend below twice the shifted divisor, and with harmless losses
of borrows only, what is left is the remainder.
-/

namespace EraPrecompiles

variable (B n : ℕ)

/-- The divisor `c` is subtracted unless there is a borrow. -/
def remStep (r c : ℕ) : ℕ :=
  if chainBorrow B r c n = 0 then chainSub B r c n else r

/-- The steps from a divisor shifted by `bd` on. -/
def remChain : ℕ → ℕ → ℕ → ℕ
  | 0, r, c => remStep B n r c
  | bd + 1, r, c => remChain bd (remStep B n r c) (c / 2)

variable {B n}

theorem remStep_eq (hB : 0 < B) {r c : ℕ} (hr : r < B ^ n) (hc : c < B ^ n)
    (h : r < 2 * c) (hloss : LossHarmless B r c n) : remStep B n r c = r % c := by
  obtain ⟨hborrow, hsub⟩ := chain_compare r c hB hr hc hloss
  rw [remStep, hborrow]
  rcases Nat.lt_or_ge r c with hlt | hge
  · rw [if_pos hlt, if_neg one_ne_zero, Nat.mod_eq_of_lt hlt]
  · have hzero : (if r < c then 1 else 0) = 0 := if_neg (by omega)
    rw [hzero, if_pos rfl, hsub hge, Nat.mod_eq_sub_mod hge, Nat.mod_eq_of_lt (by omega)]

/-- The loop leaves the remainder. -/
theorem remChain_eq (hB : 0 < B) {m : ℕ} (hm : 0 < m) :
    ∀ (bd r : ℕ), r < B ^ n → m * 2 ^ bd < B ^ n → r < m * 2 ^ (bd + 1) →
      (∀ j, j ≤ bd → LossHarmless B (r % (m * 2 ^ (j + 1))) (m * 2 ^ j) n) →
      remChain B n bd r (m * 2 ^ bd) = r % m := by
  intro bd
  induction bd with
  | zero =>
      intro r hr hc h hloss
      have hstep := hloss 0 le_rfl
      rw [Nat.mod_eq_of_lt h] at hstep
      have heq := remStep_eq hB hr hc (by omega) hstep
      rw [pow_zero, Nat.mul_one] at heq ⊢
      exact heq
  | succ bd ih =>
      intro r hr hc h hloss
      have hstep := hloss (bd + 1) le_rfl
      rw [Nat.mod_eq_of_lt h] at hstep
      have hpos : 0 < m * 2 ^ (bd + 1) := by positivity
      have hdouble : r < 2 * (m * 2 ^ (bd + 1)) := by
        have hpow : m * 2 ^ (bd + 1 + 1) = 2 * (m * 2 ^ (bd + 1)) := by ring
        omega
      have hhalf : m * 2 ^ (bd + 1) / 2 = m * 2 ^ bd := by
        rw [pow_succ, ← Nat.mul_assoc, Nat.mul_div_cancel _ (by norm_num)]
      have hdvd : ∀ j, j ≤ bd → m * 2 ^ (j + 1) ∣ m * 2 ^ (bd + 1) := fun j hj =>
        Nat.mul_dvd_mul_left m (pow_dvd_pow 2 (by omega))
      have hle : m * 2 ^ bd ≤ m * 2 ^ (bd + 1) :=
        Nat.mul_le_mul_left m (Nat.pow_le_pow_right (by norm_num) bd.le_succ)
      have hlt := Nat.mod_lt r hpos
      rw [remChain, remStep_eq hB hr hc hdouble hstep, hhalf,
        ih (r % (m * 2 ^ (bd + 1))) (by omega) (by omega) hlt ?_,
        Nat.mod_mod_of_dvd _ (dvd_mul_right m _)]
      intro j hj
      rw [Nat.mod_mod_of_dvd _ (hdvd j hj)]
      exact hloss j (by omega)

end EraPrecompiles

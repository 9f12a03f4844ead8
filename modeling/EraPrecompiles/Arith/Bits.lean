import Mathlib.Tactic

/-!
# The bits of a number

A number is read from its highest bit on: `n / 2 ^ i` is what has been read when
the bits below `i` are left.
-/

namespace EraPrecompiles

/-- The bits of a number below bit `i + 1`. -/
theorem mod_two_pow_succ (n i : ℕ) :
    n % 2 ^ (i + 1) = (if n.testBit i then 2 ^ i else 0) + n % 2 ^ i := by
  rw [pow_succ, Nat.mod_mul, Nat.testBit_eq_decide_div_mod_eq, Nat.add_comm]
  rcases Nat.mod_two_eq_zero_or_one (n / 2 ^ i) with h | h
  · simp [h]
  · simp [h]

/-- Reading bit `i`. -/
theorem div_two_pow_succ (n i : ℕ) :
    n / 2 ^ i = 2 * (n / 2 ^ (i + 1)) + n / 2 ^ i % 2 := by
  rw [pow_succ, ← Nat.div_div_eq_div_mul]
  omega

/-- `acc * b ^ e`, for exponents of at most `bits` bits. -/
def powLoop {M : Type*} [Mul M] : ℕ → M → M → ℕ → M
  | 0, acc, _, _ => acc
  | bits + 1, acc, b, e =>
      powLoop bits (if e % 2 = 1 then acc * b else acc) (b * b) (e / 2)

theorem powLoop_eq {M : Type*} [CommMonoid M] (bits : ℕ) :
    ∀ (acc b : M) (e : ℕ), e < 2 ^ bits → powLoop bits acc b e = acc * b ^ e := by
  induction bits with
  | zero =>
    intro acc b e he
    have he0 : e = 0 := by omega
    rw [powLoop, he0, pow_zero, mul_one]
  | succ bits ih =>
    intro acc b e he
    have hhalf : e / 2 < 2 ^ bits := by
      rw [pow_succ] at he
      omega
    rw [powLoop, ih _ _ _ hhalf, ← sq, ← pow_mul]
    by_cases hodd : e % 2 = 1
    · have hexp : e = 2 * (e / 2) + 1 := by omega
      conv_rhs => rw [hexp]
      rw [if_pos hodd, pow_succ', mul_assoc]
    · have hexp : e = 2 * (e / 2) := by omega
      conv_rhs => rw [hexp]
      rw [if_neg hodd]

end EraPrecompiles

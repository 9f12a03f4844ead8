import Mathlib.Tactic
import Mathlib.FieldTheory.Finite.Basic
import Mathlib.NumberTheory.LucasPrimality

/-!
# Certified primes

The moduli of the curves are primes of up to 256 bits.  Their primality is
checked with Lucas's test: `p` is prime if some `a` has order `p - 1` modulo `p`.
A certificate is a list of lines, one for each prime; a line names the witness
`a` and the primes that divide `p - 1`, all of which stand in earlier lines.
The test `PrattLine.ok` is arithmetic on numerals, so the kernel evaluates it.

Powers modulo `m` are computed by `powMod`.
-/

namespace EraPrecompiles

/-- `acc * b ^ e` modulo `m`, for exponents of at most `bits` bits. -/
def powModLoop (m : ℕ) : ℕ → ℕ → ℕ → ℕ → ℕ
  | 0, acc, _, _ => acc % m
  | bits + 1, acc, b, e =>
      powModLoop m bits (if e % 2 = 1 then acc * b % m else acc) (b * b % m) (e / 2)

def powMod (m b e : ℕ) : ℕ :=
  powModLoop m (e.log2 + 1) 1 b e

theorem powModLoop_modEq
    (m bits : ℕ) :
    ∀ acc b e : ℕ, e < 2 ^ bits →
      powModLoop m bits acc b e ≡ acc * b ^ e [MOD m] := by
  induction bits with
  | zero =>
      intro acc b e he
      have he0 : e = 0 := by omega
      rw [powModLoop, he0, pow_zero, mul_one]
      exact Nat.mod_modEq acc m
  | succ bits ih =>
      intro acc b e he
      have hhalf : e / 2 < 2 ^ bits := by
        rw [pow_succ] at he
        omega
      have hsq : (b * b % m) ^ (e / 2) ≡ b ^ (2 * (e / 2)) [MOD m] := by
        rw [pow_mul, pow_two]
        exact (Nat.mod_modEq (b * b) m).pow (e / 2)
      have hrec := ih (if e % 2 = 1 then acc * b % m else acc) (b * b % m)
        (e / 2) hhalf
      rw [powModLoop]
      refine hrec.trans ?_
      by_cases hodd : e % 2 = 1
      · have hexp : e = 2 * (e / 2) + 1 := by omega
        rw [if_pos hodd]
        refine ((Nat.mod_modEq (acc * b) m).mul hsq).trans ?_
        conv_rhs => rw [hexp, pow_succ]
        exact congrArg (· % m) (by ring)
      · have hexp : e = 2 * (e / 2) := by omega
        rw [if_neg hodd]
        conv_rhs => rw [hexp]
        exact Nat.ModEq.mul_left acc hsq

theorem powModLoop_lt
    {m : ℕ} (hm : 0 < m) (bits acc b e : ℕ) :
    powModLoop m bits acc b e < m := by
  induction bits generalizing acc b e with
  | zero =>
      exact Nat.mod_lt acc hm
  | succ bits ih =>
      exact ih _ _ _

/-- The power in `ZMod m`, from its computed representative. -/
theorem powMod_zmod
    (m b e : ℕ) :
    ((powMod m b e : ℕ) : ZMod m) = (b : ZMod m) ^ e := by
  have h := (ZMod.natCast_eq_natCast_iff _ _ m).mpr
    (powModLoop_modEq m (e.log2 + 1) 1 b e Nat.lt_log2_self)
  rw [powMod, h, one_mul, Nat.cast_pow]

theorem pow_eq_one_iff_powMod
    {m b e : ℕ} (hm : 1 < m) :
    (b : ZMod m) ^ e = 1 ↔ powMod m b e = 1 := by
  have hlt : powMod m b e < m := powModLoop_lt (Nat.zero_lt_of_lt hm) _ _ _ _
  have hcast := ZMod.natCast_eq_natCast_iff' (powMod m b e) 1 m
  rw [Nat.mod_eq_of_lt hlt, Nat.mod_eq_of_lt hm, Nat.cast_one] at hcast
  rw [← powMod_zmod]
  exact hcast

/-- Euler's criterion: a `k`-th power has a trivial power residue symbol. -/
theorem pow_div_eq_one_of_pow_eq
    {K : Type*} [Field K] [Fintype K] {k : ℕ} (hk : k ∣ Fintype.card K - 1)
    {x c : K} (hc : c ≠ 0) (h : x ^ k = c) :
    c ^ ((Fintype.card K - 1) / k) = 1 := by
  have hcard : Fintype.card K - 1 ≠ 0 := by
    have := Fintype.one_lt_card (α := K)
    omega
  have hx : x ≠ 0 := by
    rintro rfl
    have hk0 : k ≠ 0 := by
      rintro rfl
      exact hcard (Nat.zero_dvd.mp hk)
    exact hc (h.symm.trans (zero_pow hk0))
  rw [← h, ← pow_mul, Nat.mul_div_cancel' hk]
  exact FiniteField.pow_card_sub_one_eq_one x hx

/-- A residue that fails the criterion is not a `k`-th power. -/
theorem pow_ne_of_powMod
    {q k c : ℕ} [Fact q.Prime] (hk : k ∣ q - 1) (hc : c % q ≠ 0)
    (h : powMod q c ((q - 1) / k) ≠ 1) (x : ZMod q) :
    x ^ k ≠ c := by
  intro hx
  have hc' : (c : ZMod q) ≠ 0 := by
    rw [ne_eq, ZMod.natCast_eq_zero_iff]
    exact fun hdvd => hc (Nat.mod_eq_zero_of_dvd hdvd)
  have hone := pow_div_eq_one_of_pow_eq (by rw [ZMod.card]; exact hk) hc' hx
  rw [ZMod.card, pow_eq_one_iff_powMod (Fact.out : q.Prime).one_lt] at hone
  exact h hone

/-- One line of a certificate. -/
structure PrattLine where
  prime : ℕ
  witness : ℕ
  factors : List ℕ

namespace PrattLine

/-- The test of one line.  That all prime divisors of `p - 1` are listed is
checked by one division: `p - 1` divides a power of their product. -/
def ok (known : List ℕ) (l : PrattLine) : Bool :=
  decide (1 < l.prime) &&
    l.factors.all known.contains &&
    l.factors.prod ^ 256 % (l.prime - 1) == 0 &&
    powMod l.prime l.witness (l.prime - 1) == 1 &&
    l.factors.all fun q =>
      powMod l.prime l.witness ((l.prime - 1) / q) != 1

theorem prime_of_ok
    {known : List ℕ} {l : PrattLine}
    (hknown : ∀ q ∈ known, Nat.Prime q)
    (h : l.ok known = true) :
    Nat.Prime l.prime := by
  simp only [ok, Bool.and_eq_true, decide_eq_true_eq, List.all_eq_true,
    List.contains_iff_mem, beq_iff_eq, bne_iff_ne] at h
  obtain ⟨⟨⟨⟨hone, hlisted⟩, hdvd⟩, hpow⟩, hne⟩ := h
  refine lucas_primality l.prime (l.witness : ZMod l.prime) ?_ ?_
  · exact (pow_eq_one_iff_powMod hone).mpr hpow
  · intro q hq hqdvd
    have hqprod : q ∣ l.factors.prod :=
      hq.dvd_of_dvd_pow (hqdvd.trans (Nat.dvd_of_mod_eq_zero hdvd))
    obtain ⟨f, hf, hqf⟩ := (Prime.dvd_prod_iff hq.prime).mp hqprod
    have hfprime : Nat.Prime f := hknown f (hlisted f hf)
    have hqf' : q = f := (Nat.prime_dvd_prime_iff_eq hq hfprime).mp hqf
    rw [ne_eq, pow_eq_one_iff_powMod hone, hqf']
    exact hne f hf

end PrattLine

/-- The test of a certificate, from the first line on. -/
def prattOk : List ℕ → List PrattLine → Bool
  | _, [] => true
  | known, l :: ls => l.ok known && prattOk (l.prime :: known) ls

/-- Every line of a checked certificate names a prime. -/
theorem prime_of_prattOk
    {known : List ℕ} {ls : List PrattLine}
    (hknown : ∀ q ∈ known, Nat.Prime q)
    (h : prattOk known ls = true) :
    ∀ l ∈ ls, Nat.Prime l.prime := by
  induction ls generalizing known with
  | nil =>
      intro l hl
      simp at hl
  | cons l ls ih =>
      rw [prattOk, Bool.and_eq_true] at h
      have hprime : Nat.Prime l.prime := PrattLine.prime_of_ok hknown h.1
      have hknown' : ∀ q ∈ l.prime :: known, Nat.Prime q := by
        intro q hq
        rcases List.mem_cons.mp hq with rfl | hq
        · exact hprime
        · exact hknown q hq
      intro l' hl'
      rcases List.mem_cons.mp hl' with rfl | hl'
      · exact hprime
      · exact ih hknown' h.2 l' hl'

end EraPrecompiles

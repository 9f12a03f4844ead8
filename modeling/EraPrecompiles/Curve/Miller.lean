import Mathlib.Algebra.Group.Hom.Defs
import Mathlib.Algebra.Module.NatInt
import Mathlib.Data.Nat.Size
import Mathlib.Tactic

/-!
# Miller's algorithm

A run of Miller's algorithm follows the multiples of an element `Q` of a group, from one
digit of the multiplier to the next, and multiplies the values `L A B` that belong to its
doublings and additions.  For a pairing, `L A B` is the line through two points, read at a
third point.

The multiplier is given by signed binary digits, for instance by those of its non-adjacent
form.  The element that a run ends with is the multiple (`millerRun_snd`).
-/

namespace EraPrecompiles

/-! ## Signed digits -/

/-- At most `k` digits of the non-adjacent form of a number, the least significant first. -/
def nafDigits : ℕ → ℕ → List ℤ
  | 0, _ => []
  | k + 1, n =>
      if n = 0 then
        []
      else if n % 2 = 0 then
        0 :: nafDigits k (n / 2)
      else if n % 4 = 1 then
        1 :: nafDigits k (n / 2)
      else
        -1 :: nafDigits k (n / 2 + 1)

/-- The non-adjacent form, the most significant digit first. -/
def nonAdjacentForm (n : ℕ) : List ℤ :=
  (nafDigits (n.size + 1) n).reverse

/-- The number that has the given digits behind those of `m`. -/
def digitsFrom (m : ℤ) (ds : List ℤ) : ℤ :=
  ds.foldl (fun m d => 2 * m + d) m

theorem digitsFrom_cons (m : ℤ) (ds : List ℤ) (d : ℤ) :
    digitsFrom m (d :: ds) = digitsFrom (2 * m + d) ds :=
  rfl

theorem digitsFrom_append_singleton (m : ℤ) (ds : List ℤ) (d : ℤ) :
    digitsFrom m (ds ++ [d]) = 2 * digitsFrom m ds + d := by
  rw [digitsFrom, List.foldl_append]
  rfl

theorem digitsFrom_nafDigits (k : ℕ) {n : ℕ} (hn : n ≤ 2 ^ k) :
    digitsFrom 0 (nafDigits (k + 1) n).reverse = n := by
  induction k generalizing n with
  | zero =>
      rw [pow_zero] at hn
      interval_cases n
      · rfl
      · rfl
  | succ k ih =>
      rw [pow_succ] at hn
      rw [nafDigits]
      by_cases h0 : n = 0
      · rw [if_pos h0, h0]
        rfl
      by_cases h2 : n % 2 = 0
      · rw [if_neg h0, if_pos h2, List.reverse_cons, digitsFrom_append_singleton,
          ih (by omega)]
        omega
      by_cases h4 : n % 4 = 1
      · rw [if_neg h0, if_neg h2, if_pos h4, List.reverse_cons, digitsFrom_append_singleton,
          ih (by omega)]
        omega
      · rw [if_neg h0, if_neg h2, if_neg h4, List.reverse_cons, digitsFrom_append_singleton,
          ih (by omega)]
        omega

/-- The digits are those of the number. -/
theorem digitsFrom_nonAdjacentForm (n : ℕ) : digitsFrom 0 (nonAdjacentForm n) = n :=
  digitsFrom_nafDigits n.size (Nat.lt_size_self n).le

/-- Numbers grow with their digits, by a factor of about two. -/
theorem digitsFrom_bounds {m : ℤ} (hm : 2 ≤ m) {ds : List ℤ} (hds : ∀ d ∈ ds, -1 ≤ d ∧ d ≤ 1) :
    2 ≤ digitsFrom m ds ∧ digitsFrom m ds + 1 ≤ (m + 1) * 2 ^ ds.length := by
  induction ds using List.reverseRecOn with
  | nil =>
      rw [List.length_nil, pow_zero, mul_one]
      exact ⟨hm, le_rfl⟩
  | append_singleton ds d ih =>
      have hd := hds d (List.mem_append_right _ (List.mem_singleton_self d))
      obtain ⟨hlo, hhi⟩ := ih fun e he => hds e (List.mem_append_left _ he)
      rw [digitsFrom_append_singleton, List.length_append, List.length_singleton, pow_succ,
        ← mul_assoc]
      constructor
      · linarith [hd.1]
      · linarith [hd.2]

/-! ## The algorithm -/

section Algorithm

variable {G K : Type*} [AddCommGroup G] [CommRing K]

def millerDouble (L : G → G → K) (s : K × G) : K × G :=
  (s.1 ^ 2 * L s.2 s.2, s.2 + s.2)

def millerAdd (L : G → G → K) (R : G) (s : K × G) : K × G :=
  (s.1 * L s.2 R, s.2 + R)

/-- A doubling, and for a digit other than zero an addition. -/
def millerStep (L : G → G → K) (Q : G) (s : K × G) (d : ℤ) : K × G :=
  if d = 0 then millerDouble L s else millerAdd L (d • Q) (millerDouble L s)

/-- The digits behind the first one, which is `1`. -/
def millerRun (L : G → G → K) (Q : G) (ds : List ℤ) : K × G :=
  ds.foldl (millerStep L Q) (1, Q)

/-- The value before the final power of the optimal ate pairing: after the run two more lines,
through images of `Q` under a map `π`. -/
def ateValue (L : G → G → K) (π : G → G) (Q : G) (ds : List ℤ) : K :=
  (millerAdd L (-π (π Q)) (millerAdd L (π Q) (millerRun L Q ds))).1

theorem millerRun_append_singleton (L : G → G → K) (Q : G) (ds : List ℤ) (d : ℤ) :
    millerRun L Q (ds ++ [d]) = millerStep L Q (millerRun L Q ds) d := by
  rw [millerRun, List.foldl_append]
  rfl

theorem millerStep_snd (L : G → G → K) (Q : G) (s : K × G) (d : ℤ) :
    (millerStep L Q s d).2 = s.2 + s.2 + d • Q := by
  rw [millerStep]
  by_cases hd : d = 0
  · rw [if_pos hd, hd, zero_zsmul, add_zero]
    rfl
  · rw [if_neg hd]
    rfl

/-- A run ends with the multiple of `Q` by the number that has the digits. -/
theorem millerRun_snd (L : G → G → K) (Q : G) (ds : List ℤ) :
    (millerRun L Q ds).2 = digitsFrom 1 ds • Q := by
  induction ds using List.reverseRecOn with
  | nil => exact (one_zsmul Q).symm
  | append_singleton ds d ih =>
      rw [millerRun_append_singleton, millerStep_snd, ih, digitsFrom_append_singleton,
        add_zsmul, two_mul, add_zsmul]

/-- The digits `0` and `-1`. -/
theorem millerRun_zero_neg_one (L : G → G → K) (Q : G) :
    millerRun L Q [0, -1] =
      (L Q Q ^ 2 * L (2 • Q) (2 • Q) * L (4 • Q) (-Q), 2 • Q + Q) := by
  have h4 : 4 • Q = 2 • Q + 2 • Q := by
    rw [← add_nsmul]
  have h3 : 2 • Q + 2 • Q + -Q = 2 • Q + Q := by
    rw [add_assoc]
    congr 1
    rw [two_nsmul, add_neg_cancel_right]
  have hdouble : millerStep L Q (1, Q) 0 = (L Q Q, 2 • Q) := by
    rw [millerStep, if_pos rfl, millerDouble, one_pow, one_mul, two_nsmul]
  have hadd (s : K × G) : millerStep L Q s (-1) = millerAdd L (-Q) (millerDouble L s) := by
    rw [millerStep, if_neg (by decide), neg_one_zsmul]
  have hrun : millerRun L Q [0, -1] = millerStep L Q (millerStep L Q (1, Q) 0) (-1) := rfl
  rw [hrun, hdouble, hadd, millerDouble, millerAdd, ← h4, h4, h3]

/-! ### Images -/

section Image

variable {H : Type*} [AddCommGroup H] (φ : G →+ H) (L : H → H → K)

theorem millerAdd_map (R : G) (s : K × G) :
    millerAdd L (φ R) (s.1, φ s.2) =
      ((millerAdd (fun A B => L (φ A) (φ B)) R s).1,
        φ (millerAdd (fun A B => L (φ A) (φ B)) R s).2) := by
  simp only [millerAdd, map_add]

theorem millerStep_map (Q : G) (s : K × G) (d : ℤ) :
    millerStep L (φ Q) (s.1, φ s.2) d =
      ((millerStep (fun A B => L (φ A) (φ B)) Q s d).1,
        φ (millerStep (fun A B => L (φ A) (φ B)) Q s d).2) := by
  by_cases hd : d = 0
  · simp only [millerStep, if_pos hd, millerDouble, map_add]
  · simp only [millerStep, if_neg hd, millerAdd, millerDouble, map_add, map_zsmul]

/-- The run along the multiples of an image. -/
theorem millerRun_map (Q : G) (ds : List ℤ) :
    millerRun L (φ Q) ds =
      ((millerRun (fun A B => L (φ A) (φ B)) Q ds).1,
        φ (millerRun (fun A B => L (φ A) (φ B)) Q ds).2) := by
  induction ds using List.reverseRecOn with
  | nil => rfl
  | append_singleton ds d ih =>
      rw [millerRun_append_singleton, ih, millerStep_map, ← millerRun_append_singleton]

theorem ateValue_map {π : H → H} {ψ : G → G} (Q : G) (hψ : π (φ Q) = φ (ψ Q))
    (hψ' : π (φ (ψ Q)) = φ (ψ (ψ Q))) (ds : List ℤ) :
    ateValue L π (φ Q) ds = ateValue (fun A B => L (φ A) (φ B)) ψ Q ds := by
  rw [ateValue, hψ, hψ', millerRun_map, millerAdd_map, ← map_neg, millerAdd_map, ateValue]

end Image

/-! ### Related values -/

section Related

variable {K' : Type*} [CommRing K'] {R : K → K' → Prop} {L : G → G → K} {L' : G → G → K'}

/-- Two runs along the same multiples, with values that a multiplicative relation relates. -/
structure MillerRelated (R : K → K' → Prop) (L : G → G → K) (L' : G → G → K') : Prop where
  one : R 1 1
  mul : ∀ {a b : K} {a' b' : K'}, R a a' → R b b' → R (a * b) (a' * b')
  value : ∀ A B, R (L A B) (L' A B)

namespace MillerRelated

variable (h : MillerRelated R L L')
include h

theorem add {s : K × G} {s' : K' × G} (hs : R s.1 s'.1) (hpoint : s.2 = s'.2) (T : G) :
    R (millerAdd L T s).1 (millerAdd L' T s').1 ∧
      (millerAdd L T s).2 = (millerAdd L' T s').2 := by
  obtain ⟨v, S⟩ := s
  obtain ⟨v', S'⟩ := s'
  obtain rfl : S = S' := hpoint
  exact ⟨h.mul hs (h.value S T), rfl⟩

theorem double {s : K × G} {s' : K' × G} (hs : R s.1 s'.1) (hpoint : s.2 = s'.2) :
    R (millerDouble L s).1 (millerDouble L' s').1 ∧
      (millerDouble L s).2 = (millerDouble L' s').2 := by
  obtain ⟨v, S⟩ := s
  obtain ⟨v', S'⟩ := s'
  obtain rfl : S = S' := hpoint
  refine ⟨h.mul ?_ (h.value S S), rfl⟩
  rw [sq, sq]
  exact h.mul hs hs

theorem step {s : K × G} {s' : K' × G} (hs : R s.1 s'.1) (hpoint : s.2 = s'.2) (Q : G) (d : ℤ) :
    R (millerStep L Q s d).1 (millerStep L' Q s' d).1 ∧
      (millerStep L Q s d).2 = (millerStep L' Q s' d).2 := by
  obtain ⟨hvalue, hpoint'⟩ := h.double hs hpoint
  by_cases hd : d = 0
  · rw [millerStep, millerStep, if_pos hd, if_pos hd]
    exact ⟨hvalue, hpoint'⟩
  · rw [millerStep, millerStep, if_neg hd, if_neg hd]
    exact h.add hvalue hpoint' (d • Q)

theorem run (Q : G) (ds : List ℤ) :
    R (millerRun L Q ds).1 (millerRun L' Q ds).1 ∧
      (millerRun L Q ds).2 = (millerRun L' Q ds).2 := by
  induction ds using List.reverseRecOn with
  | nil =>
      exact ⟨h.one, rfl⟩
  | append_singleton ds d ih =>
      rw [millerRun_append_singleton, millerRun_append_singleton]
      exact h.step ih.1 ih.2 Q d

theorem ateValue (π : G → G) (Q : G) (ds : List ℤ) :
    R (EraPrecompiles.ateValue L π Q ds) (EraPrecompiles.ateValue L' π Q ds) := by
  obtain ⟨hvalue, hpoint⟩ := h.run Q ds
  obtain ⟨hvalue', hpoint'⟩ := h.add hvalue hpoint (π Q)
  exact (h.add hvalue' hpoint' _).1

end MillerRelated

end Related

end Algorithm

end EraPrecompiles

import Mathlib.Tactic

/-!
# Numbers in a large base

`limb B x i` is the digit of weight `B ^ i`.  Subtraction of two numbers goes over the
limbs from the lowest one on, with a borrow.

`chainBorrow` and `chainSub` are the chain in which a limb of the subtrahend and the
incoming borrow are added in one word: `B - 1` and a borrow make zero, and the borrow is
lost.  The borrow that is due is `a % B ^ i < b % B ^ i`.
* `chain_exact`: without a loss the chain is subtraction modulo `B ^ n`.
* `chain_exact_iff`: it is subtraction only without a loss.
* `chain_compare`: losses below a limb that decides the comparison do no harm.
-/

namespace EraPrecompiles

variable {B : ℕ}

/-- The digit of `x` of weight `B ^ i`. -/
def limb (B x i : ℕ) : ℕ :=
  x / B ^ i % B

theorem limb_lt (hB : 0 < B) (x i : ℕ) : limb B x i < B :=
  Nat.mod_lt _ hB

theorem mod_pow_succ_limb (B x i : ℕ) :
    x % B ^ (i + 1) = x % B ^ i + B ^ i * limb B x i :=
  Nat.mod_pow_succ

/-- Reading one limb more. -/
theorem div_pow_limb (B x i : ℕ) :
    x / B ^ i = B * (x / B ^ (i + 1)) + limb B x i := by
  rw [limb, pow_succ, ← Nat.div_div_eq_div_mul, Nat.div_add_mod]

/-- Two numbers are compared from the highest limb on. -/
theorem mod_pow_succ_lt_iff (hB : 0 < B) (x y i : ℕ) :
    x % B ^ (i + 1) < y % B ^ (i + 1) ↔
      limb B x i < limb B y i ∨ (limb B x i = limb B y i ∧ x % B ^ i < y % B ^ i) := by
  have hP : 0 < B ^ i := pow_pos hB i
  have hx := Nat.mod_lt x hP
  have hy := Nat.mod_lt y hP
  rw [mod_pow_succ_limb, mod_pow_succ_limb]
  generalize limb B x i = u
  generalize limb B y i = v
  generalize x % B ^ i = r at hx ⊢
  generalize y % B ^ i = t at hy ⊢
  rcases lt_trichotomy u v with h | h | h
  · have hmul : B ^ i * (u + 1) ≤ B ^ i * v := Nat.mul_le_mul_left _ h
    rw [Nat.mul_succ] at hmul
    exact iff_of_true (by omega) (Or.inl h)
  · subst h
    constructor
    · intro hlt
      exact Or.inr ⟨rfl, by omega⟩
    · rintro (hlt | ⟨-, hlt⟩)
      · exact absurd hlt (lt_irrefl u)
      · omega
  · have hmul : B ^ i * (v + 1) ≤ B ^ i * u := Nat.mul_le_mul_left _ h
    rw [Nat.mul_succ] at hmul
    refine iff_of_false (by omega) ?_
    rintro (hlt | ⟨heq, -⟩)
    · omega
    · omega

/-! ## Subtraction -/

section Subtraction

variable (B a b : ℕ)

/-- The borrow out of the lowest `i` limbs. -/
def chainBorrow : ℕ → ℕ
  | 0 => 0
  | i + 1 => if limb B a i < (limb B b i + chainBorrow i) % B then 1 else 0

/-- Limb `i` of the difference. -/
def chainLimb (i : ℕ) : ℕ :=
  (limb B a i + (B - (limb B b i + chainBorrow B a b i) % B)) % B

/-- The lowest `i` limbs of the difference. -/
def chainSub : ℕ → ℕ
  | 0 => 0
  | i + 1 => chainSub i + B ^ i * chainLimb B a b i

/-- The limb that turns an incoming borrow into nothing receives one. -/
def BorrowLost (i : ℕ) : Prop :=
  limb B b i = B - 1 ∧ a % B ^ i < b % B ^ i

instance (i : ℕ) : Decidable (BorrowLost B a b i) :=
  inferInstanceAs (Decidable (_ ∧ _))

/-- The borrow that is due. -/
def dueBorrow (i : ℕ) : ℕ :=
  if a % B ^ i < b % B ^ i then 1 else 0

variable {B}

theorem chainBorrow_le_one (i : ℕ) : chainBorrow B a b i ≤ 1 := by
  cases i with
  | zero =>
      exact Nat.zero_le 1
  | succ i =>
      rw [chainBorrow]
      split
      · exact le_rfl
      · exact Nat.zero_le 1

theorem dueBorrow_eq_one_iff (i : ℕ) : dueBorrow B a b i = 1 ↔ a % B ^ i < b % B ^ i := by
  rw [dueBorrow]
  split <;> simp [*]

theorem dueBorrow_le_one (i : ℕ) : dueBorrow B a b i ≤ 1 := by
  rw [dueBorrow]
  split
  · exact le_rfl
  · exact Nat.zero_le 1

theorem chainSub_lt (hB : 0 < B) (i : ℕ) : chainSub B a b i < B ^ i := by
  induction i with
  | zero =>
      exact Nat.one_pos
  | succ i ih =>
      have hlimb : chainLimb B a b i + 1 ≤ B := Nat.mod_lt _ hB
      have hmul : B ^ i * (chainLimb B a b i + 1) ≤ B ^ i * B := Nat.mul_le_mul_left _ hlimb
      rw [Nat.mul_succ] at hmul
      rw [chainSub, pow_succ]
      omega

/-- The borrow that is due after one more limb. -/
theorem dueBorrow_succ (hB : 0 < B) (i : ℕ) :
    dueBorrow B a b (i + 1) =
      if limb B a i < limb B b i + dueBorrow B a b i then 1 else 0 := by
  have hiff := mod_pow_succ_lt_iff hB a b i
  have hdue : dueBorrow B a b (i + 1) =
      if a % B ^ (i + 1) < b % B ^ (i + 1) then 1 else 0 := rfl
  rw [hdue]
  refine if_congr (hiff.trans ?_) rfl rfl
  rw [dueBorrow]
  by_cases h : a % B ^ i < b % B ^ i
  · rw [if_pos h]
    constructor
    · rintro (hlt | ⟨heq, -⟩)
      · omega
      · omega
    · intro hlt
      rcases Nat.lt_succ_iff_lt_or_eq.mp hlt with hlt | heq
      · exact Or.inl hlt
      · exact Or.inr ⟨heq, h⟩
  · rw [if_neg h]
    constructor
    · rintro (hlt | ⟨-, hlt⟩)
      · exact hlt
      · exact absurd hlt h
    · intro hlt
      exact Or.inl hlt

/-- The difference of two limbs with their borrow, when it is the one that is due. -/
theorem chain_step (hB : 0 < B) {i : ℕ} (hdue : chainBorrow B a b i = dueBorrow B a b i)
    (hlost : ¬BorrowLost B a b i) :
    chainBorrow B a b (i + 1) = dueBorrow B a b (i + 1) := by
  have hb := limb_lt hB b i
  have hle := dueBorrow_le_one (B := B) a b i
  have hsum : limb B b i + dueBorrow B a b i < B := by
    by_contra hge
    refine hlost ⟨by omega, (dueBorrow_eq_one_iff a b i).mp (by omega)⟩
  rw [dueBorrow_succ a b hB, chainBorrow, hdue, Nat.mod_eq_of_lt hsum]

/-- As long as no borrow is lost, the borrows are those that are due. -/
theorem chainBorrow_eq (hB : 0 < B) {n : ℕ} (h : ∀ i, i < n → ¬BorrowLost B a b i) :
    ∀ i, i ≤ n → chainBorrow B a b i = dueBorrow B a b i := by
  intro i
  induction i with
  | zero =>
      intro _
      rw [chainBorrow, dueBorrow, pow_zero, Nat.mod_one, Nat.mod_one, if_neg (lt_irrefl 0)]
  | succ i ih =>
      intro hi
      exact chain_step a b hB (ih (by omega)) (h i (by omega))

/-- With the right incoming borrows the lowest limbs are right. -/
theorem chainSub_eq (hB : 0 < B) {n : ℕ}
    (h : ∀ i, i < n → chainBorrow B a b i = dueBorrow B a b i) :
    chainSub B a b n + b % B ^ n = a % B ^ n + B ^ n * dueBorrow B a b n := by
  induction n with
  | zero =>
      rw [chainSub, dueBorrow, pow_zero, Nat.mod_one, Nat.mod_one, if_neg (lt_irrefl 0),
        Nat.mul_zero]
  | succ n ih =>
      have hrec := ih fun i hi => h i (by omega)
      have ha := limb_lt hB a n
      have hb := limb_lt hB b n
      have hle := dueBorrow_le_one (B := B) a b n
      have hlimb : chainLimb B a b n + (limb B b n + dueBorrow B a b n) =
          limb B a n + B * dueBorrow B a b (n + 1) := by
        rw [chainLimb, h n (by omega), dueBorrow_succ a b hB]
        rcases Nat.lt_or_ge (limb B b n + dueBorrow B a b n) B with hsum | hsum
        · rw [Nat.mod_eq_of_lt hsum]
          split
          · rename_i hlt
            rw [Nat.mod_eq_of_lt (by omega)]
            omega
          · rename_i hlt
            have hsplit : limb B a n + (B - (limb B b n + dueBorrow B a b n)) =
                limb B a n - (limb B b n + dueBorrow B a b n) + B := by omega
            rw [hsplit, Nat.add_mod_right, Nat.mod_eq_of_lt (by omega)]
            omega
        · have hsum' : limb B b n + dueBorrow B a b n = B := by omega
          rw [hsum', Nat.mod_self, Nat.sub_zero, Nat.add_mod_right, Nat.mod_eq_of_lt ha,
            if_pos ha, Nat.mul_one]
      have hmul : B ^ n * (chainLimb B a b n + (limb B b n + dueBorrow B a b n)) =
          B ^ n * (limb B a n + B * dueBorrow B a b (n + 1)) := by rw [hlimb]
      rw [Nat.mul_add, Nat.mul_add, Nat.mul_add] at hmul
      rw [chainSub, mod_pow_succ_limb, mod_pow_succ_limb, pow_succ, Nat.mul_assoc]
      omega

variable (B) in
/-- Subtraction modulo `B ^ n`, with the borrow of the comparison. -/
def ChainExact (n : ℕ) : Prop :=
  chainSub B a b n = (a % B ^ n + (B ^ n - b % B ^ n)) % B ^ n ∧
    chainBorrow B a b n = dueBorrow B a b n

instance (n : ℕ) : Decidable (ChainExact B a b n) :=
  inferInstanceAs (Decidable (_ ∧ _))

theorem chainSub_eq_mod (hB : 0 < B) {n : ℕ}
    (h : ∀ i, i < n → chainBorrow B a b i = dueBorrow B a b i) :
    chainSub B a b n = (a % B ^ n + (B ^ n - b % B ^ n)) % B ^ n := by
  have hP : 0 < B ^ n := pow_pos hB n
  have hsum := chainSub_eq a b hB h
  have hlt := chainSub_lt a b hB n
  have hb := Nat.mod_lt b hP
  have heq : a % B ^ n + (B ^ n - b % B ^ n) + B ^ n * dueBorrow B a b n =
      chainSub B a b n + B ^ n := by omega
  rw [← Nat.add_mul_mod_self_left _ (B ^ n) (dueBorrow B a b n), heq, Nat.add_mod_right,
    Nat.mod_eq_of_lt hlt]

theorem chain_exact (hB : 0 < B) {n : ℕ} (h : ∀ i, i < n → ¬BorrowLost B a b i) :
    ChainExact B a b n := by
  have hborrow := chainBorrow_eq a b hB h
  exact ⟨chainSub_eq_mod a b hB fun i hi => hborrow i hi.le, hborrow n le_rfl⟩

/-- One limb, whatever the incoming borrow is. -/
theorem chainLimb_modEq (hB : 0 < B) (i : ℕ) :
    chainLimb B a b i + (limb B b i + chainBorrow B a b i) ≡ limb B a i [MOD B] := by
  have hlt := Nat.mod_lt (limb B b i + chainBorrow B a b i) hB
  have hcancel : limb B a i + (B - (limb B b i + chainBorrow B a b i) % B) +
      (limb B b i + chainBorrow B a b i) % B = limb B a i + B := by omega
  calc chainLimb B a b i + (limb B b i + chainBorrow B a b i)
      ≡ limb B a i + (B - (limb B b i + chainBorrow B a b i) % B) +
          (limb B b i + chainBorrow B a b i) % B [MOD B] :=
        Nat.ModEq.add (Nat.mod_modEq _ _) (Nat.mod_modEq _ _).symm
    _ ≡ limb B a i [MOD B] := by
        rw [hcancel]
        exact Nat.add_modEq_right

theorem chainSub_mod {i n : ℕ} (hi : i ≤ n) :
    chainSub B a b n ≡ chainSub B a b i [MOD B ^ i] := by
  induction hi with
  | refl =>
      exact Nat.ModEq.refl _
  | @step n hi ih =>
      have hzero : B ^ n * chainLimb B a b n ≡ 0 [MOD B ^ i] :=
        (Nat.modEq_zero_iff_dvd.mpr (dvd_mul_of_dvd_left (pow_dvd_pow B hi) _))
      exact (ih.add hzero : _)

/-- A right difference has been computed with the borrows that are due. -/
theorem chainBorrow_of_chainSub (hB : 1 < B) {n : ℕ}
    (h : chainSub B a b n + b ≡ a [MOD B ^ n]) :
    ∀ i, i < n → chainBorrow B a b i = dueBorrow B a b i := by
  have hpos : 0 < B := by omega
  intro i
  induction i using Nat.strong_induction_on with
  | _ i ih =>
      intro hi
      have hlow : chainSub B a b (i + 1) + b ≡ a [MOD B ^ (i + 1)] :=
        ((chainSub_mod a b hi).symm.add_right b).trans
          (h.of_dvd (pow_dvd_pow B hi))
      have hfront := chainSub_eq a b hpos fun j hj => ih j hj (hj.trans hi)
      have hlimb : B ^ i * (chainLimb B a b i + (limb B b i + chainBorrow B a b i)) ≡
          B ^ i * limb B a i [MOD B ^ (i + 1)] := by
        rw [pow_succ]
        exact (chainLimb_modEq a b hpos i).mul_left' (B ^ i)
      have ha := mod_pow_succ_limb B a i
      have hb := mod_pow_succ_limb B b i
      -- both sides of the equation for `i + 1` limbs, with the borrow into limb `i`
      have hsum : chainSub B a b (i + 1) + b % B ^ (i + 1) + B ^ i * chainBorrow B a b i =
          a % B ^ i + B ^ i * dueBorrow B a b i +
            B ^ i * (chainLimb B a b i + (limb B b i + chainBorrow B a b i)) := by
        rw [chainSub, hb, ← hfront]
        ring
      have hboth : a + B ^ i * chainBorrow B a b i ≡
          a + B ^ i * dueBorrow B a b i [MOD B ^ (i + 1)] := by
        calc a + B ^ i * chainBorrow B a b i
            ≡ chainSub B a b (i + 1) + b + B ^ i * chainBorrow B a b i
              [MOD B ^ (i + 1)] := hlow.symm.add_right _
          _ ≡ chainSub B a b (i + 1) + b % B ^ (i + 1) + B ^ i * chainBorrow B a b i
              [MOD B ^ (i + 1)] :=
              ((Nat.mod_modEq b _).symm.add_left _).add_right _
          _ ≡ a % B ^ i + B ^ i * dueBorrow B a b i + B ^ i * limb B a i
              [MOD B ^ (i + 1)] := by
              rw [hsum]
              exact hlimb.add_left _
          _ ≡ a % B ^ (i + 1) + B ^ i * dueBorrow B a b i [MOD B ^ (i + 1)] := by
              rw [ha, Nat.add_right_comm]
          _ ≡ a + B ^ i * dueBorrow B a b i [MOD B ^ (i + 1)] :=
              (Nat.mod_modEq a _).add_right _
      have hborrow : chainBorrow B a b i ≡ dueBorrow B a b i [MOD B] := by
        have hcancel := Nat.ModEq.add_left_cancel' a hboth
        rw [pow_succ] at hcancel
        exact Nat.ModEq.mul_left_cancel' (pow_pos hpos i).ne' hcancel
      have hle := chainBorrow_le_one (B := B) a b i
      have hle' := dueBorrow_le_one (B := B) a b i
      exact Nat.ModEq.eq_of_lt_of_lt hborrow (by omega) (by omega)

/-- The chain is exact if and only if no borrow is lost. -/
theorem chain_exact_iff (hB : 1 < B) (n : ℕ) :
    ChainExact B a b n ↔ ∀ i, i < n → ¬BorrowLost B a b i := by
  have hpos : 0 < B := by omega
  constructor
  · rintro ⟨hsub, hlast⟩ i hi ⟨hlimb, hlt⟩
    have hP : 0 < B ^ n := pow_pos hpos n
    have hmodlt := Nat.mod_lt b hP
    have hmod : chainSub B a b n + b ≡ a [MOD B ^ n] := by
      have hcancel : a % B ^ n + (B ^ n - b % B ^ n) + b % B ^ n = a % B ^ n + B ^ n := by
        omega
      rw [hsub]
      calc (a % B ^ n + (B ^ n - b % B ^ n)) % B ^ n + b
          ≡ a % B ^ n + (B ^ n - b % B ^ n) + b % B ^ n [MOD B ^ n] :=
            Nat.ModEq.add (Nat.mod_modEq _ _) (Nat.mod_modEq _ _).symm
        _ ≡ a % B ^ n [MOD B ^ n] := by
            rw [hcancel]
            exact Nat.add_modEq_right
        _ ≡ a [MOD B ^ n] := Nat.mod_modEq _ _
    have hdue := chainBorrow_of_chainSub a b hB hmod
    have hone := (dueBorrow_eq_one_iff a b i).mpr hlt
    -- the borrow out of limb `i` is lost, but due
    have hout : chainBorrow B a b (i + 1) = 0 := by
      have hwrap : limb B b i + chainBorrow B a b i = B := by
        rw [hdue i hi, hone]
        omega
      rw [chainBorrow, hwrap, Nat.mod_self, if_neg (Nat.not_lt_zero _)]
    have hdue' : dueBorrow B a b (i + 1) = 1 := by
      have ha := limb_lt hpos a i
      rw [dueBorrow_succ a b hpos, hone, if_pos (by omega)]
    rcases Nat.lt_or_ge (i + 1) n with h | h
    · have := hdue (i + 1) h
      omega
    · have hn : n = i + 1 := by omega
      rw [← hn] at hout hdue'
      omega
  · exact chain_exact a b hpos

/-- The borrow of the chain never exceeds the borrow that is due. -/
theorem chainBorrow_le_dueBorrow (hB : 0 < B) (i : ℕ) :
    chainBorrow B a b i ≤ dueBorrow B a b i := by
  induction i with
  | zero =>
      exact Nat.zero_le _
  | succ i ih =>
      have hmod := Nat.mod_le (limb B b i + chainBorrow B a b i) B
      rw [chainBorrow, dueBorrow_succ a b hB]
      split
      · rw [if_pos (by omega)]
      · exact Nat.zero_le _

variable (B) in
/-- A lost borrow does no harm if the limbs above decide the comparison. -/
def LossHarmless (n : ℕ) : Prop :=
  ∀ i, i < n → BorrowLost B a b i → a / B ^ (i + 1) < b / B ^ (i + 1)

instance (n : ℕ) : Decidable (LossHarmless B a b n) :=
  inferInstanceAs (Decidable (∀ i, i < n → _))

/-- A limb of the minuend that is not the greater one, with the borrow kept. -/
theorem chainBorrow_succ_eq_one (hB : 0 < B) {i : ℕ} (hlost : ¬BorrowLost B a b i)
    (h : limb B a i < limb B b i ∨ limb B a i = limb B b i ∧ chainBorrow B a b i = 1) :
    chainBorrow B a b (i + 1) = 1 := by
  have hb := limb_lt hB b i
  have hle := chainBorrow_le_dueBorrow a b hB i
  have hle' := dueBorrow_le_one (B := B) a b i
  have hsum : limb B b i + chainBorrow B a b i < B := by
    by_contra hge
    exact hlost ⟨by omega, (dueBorrow_eq_one_iff a b i).mp (by omega)⟩
  rw [chainBorrow, Nat.mod_eq_of_lt hsum, if_pos (by omega)]

theorem chainBorrow_of_lt (hB : 0 < B) {n : ℕ} (ha : a < B ^ n) (hb : b < B ^ n)
    (hlt : a < b) (h : LossHarmless B a b n) : chainBorrow B a b n = 1 := by
  -- the limbs from `t` on are equal, and limb `t - 1` decides
  have hex : ∃ t, a / B ^ t = b / B ^ t :=
    ⟨n, by rw [Nat.div_eq_of_lt ha, Nat.div_eq_of_lt hb]⟩
  classical
  obtain ⟨t, hfind⟩ : ∃ t, Nat.find hex = t + 1 := by
    refine ⟨Nat.find hex - 1, ?_⟩
    have hzero : Nat.find hex ≠ 0 := by
      intro h0
      have heq := Nat.find_spec hex
      rw [h0, pow_zero, Nat.div_one, Nat.div_one] at heq
      omega
    omega
  have htop : a / B ^ (t + 1) = b / B ^ (t + 1) := hfind ▸ Nat.find_spec hex
  have hdiff : a / B ^ t ≠ b / B ^ t := Nat.find_min hex (by omega)
  have htn : t + 1 ≤ n := hfind ▸ Nat.find_min' hex
    (by rw [Nat.div_eq_of_lt ha, Nat.div_eq_of_lt hb])
  have hequal : ∀ s, t + 1 ≤ s → a / B ^ s = b / B ^ s := by
    intro s hs
    obtain ⟨d, rfl⟩ := Nat.exists_eq_add_of_le hs
    rw [pow_add, ← Nat.div_div_eq_div_mul, ← Nat.div_div_eq_div_mul, htop]
  have hkept : ∀ s, t ≤ s → s < n → ¬BorrowLost B a b s := by
    intro s hs hsn hlost
    have := h s hsn hlost
    have := hequal (s + 1) (by omega)
    omega
  have hlimb : limb B a t < limb B b t := by
    have hle : a / B ^ t ≤ b / B ^ t := Nat.div_le_div_right hlt.le
    rw [div_pow_limb B a t, div_pow_limb B b t, htop] at hle hdiff
    omega
  have hrun : ∀ s, t + 1 ≤ s → s ≤ n → chainBorrow B a b s = 1 := by
    intro s hs
    induction s, hs using Nat.le_induction with
    | base =>
        intro hn
        exact chainBorrow_succ_eq_one a b hB (hkept t le_rfl (by omega)) (Or.inl hlimb)
    | succ s hs ih =>
        intro hn
        have hsame : limb B a s = limb B b s := by rw [limb, limb, hequal s hs]
        exact chainBorrow_succ_eq_one a b hB (hkept s (by omega) (by omega))
          (Or.inr ⟨hsame, ih (by omega)⟩)
  exact hrun n htn le_rfl

/-- With harmless losses only, the comparison is right, and so is the difference of a
greater number and a smaller one. -/
theorem chain_compare (hB : 0 < B) {n : ℕ} (ha : a < B ^ n) (hb : b < B ^ n)
    (h : LossHarmless B a b n) :
    chainBorrow B a b n = (if a < b then 1 else 0) ∧
      (b ≤ a → chainSub B a b n = a - b) := by
  rcases Nat.lt_or_ge a b with hlt | hge
  · rw [if_pos hlt]
    exact ⟨chainBorrow_of_lt a b hB ha hb hlt h, fun hle => absurd hlt (by omega)⟩
  · have hnone : ∀ i, i < n → ¬BorrowLost B a b i := by
      intro i hi hlost
      have hlt := h i hi hlost
      have hle : b / B ^ (i + 1) ≤ a / B ^ (i + 1) := Nat.div_le_div_right hge
      omega
    obtain ⟨-, hborrow⟩ := chain_exact a b hB hnone
    have hdue : dueBorrow B a b n = 0 := by
      rw [dueBorrow, Nat.mod_eq_of_lt ha, Nat.mod_eq_of_lt hb, if_neg (by omega)]
    have hsub := chainSub_eq a b hB fun i hi => chainBorrow_eq a b hB hnone i hi.le
    rw [hdue, Nat.mod_eq_of_lt ha, Nat.mod_eq_of_lt hb] at hsub
    rw [hborrow, hdue, if_neg (by omega)]
    exact ⟨rfl, fun _ => by omega⟩

end Subtraction

end EraPrecompiles

import EraPrecompiles.Arith.Bits
import EraPrecompiles.Curve.Encoded
import EraPrecompiles.Yul.Iteration

/-!
# Linear combinations by Shamir's trick

The signature precompiles compute `t0 * G + t1 * Q` in one loop over the bits of
both scalars, from the highest on.  `compareBits` reads one bit of each, and the
result says which of the points `G`, `Q` and `G + Q` is added after the doubling.

The loop is the same in both precompiles; the doubling and the addition are
parameters, and `Implements` is what the loop needs of them.  Its invariant is
that the accumulator is the combination of the prefixes read so far.
-/

namespace EraPrecompiles.Ecdsa

open ShortWeierstrass

/-! ## The program -/

def compareBits (index t0 t1 : Word) : Word :=
  add (mul (and (shr index t0) 1) 2) (and (shr index t1) 1)

/-- The loop ends one index below the bit that was found. -/
def findMostSignificantBitIndex (fuel : ℕ) (t0 t1 : Word) : Option (Word × Word) := do
  let (index, ret) ← iterate
    (fun (index, ret) =>
      if eq ret 0 ≠ 0 then
        some (.next (sub index 1, compareBits index t0 t1))
      else
        some (.done (index, ret)))
    fuel (255, 0)
  return (add index 1, ret)

section Program

variable (projectiveDouble : Word × Word × Word → Word × Word × Word)
  (projectiveAdd : Word × Word × Word → Word × Word × Word → Word × Word × Word)

/-- The body of the loop over the bits. -/
def shamirStep (q g h : Word × Word × Word) (t0 t1 : Word)
    (s : Word × (Word × Word × Word)) :
    Flow (Word × (Word × Word × Word)) (Word × Word × Word) :=
  let (index, r) := s
  if gt index 0 ≠ 0 then
    let index := sub index 1
    let r := projectiveDouble r
    let ret := compareBits index t0 t1
    if ret = 1 then
      .next (index, projectiveAdd r q)
    else if ret = 2 then
      .next (index, projectiveAdd r g)
    else if ret = 3 then
      .next (index, projectiveAdd r h)
    else
      .next (index, r)
  else
    .done r

def shamirLinearCombination (g : Word × Word × Word) (fuel : ℕ) (q : Word × Word × Word)
    (t0 t1 : Word) : Option (Word × Word × Word) := do
  let h := projectiveAdd g q
  let (index, ret) ← findMostSignificantBitIndex fuel t0 t1
  let r := if ret = 1 then q else if ret = 2 then g else if ret = 3 then h else (0, 0, 0)
  iterate (fun s => some (shamirStep projectiveDouble projectiveAdd q g h t0 t1 s))
    fuel (index, r)

end Program

/-! ## The bits -/

theorem toNat_compareBits (index : Word) (hi : index.toNat < 256) (t0 t1 : Word) :
    (compareBits index t0 t1).toNat =
      2 * (t0.toNat / 2 ^ index.toNat % 2) + t1.toNat / 2 ^ index.toNat % 2 := by
  have h0 : (and (shr index t0) 1).toNat = t0.toNat / 2 ^ index.toNat % 2 := by
    rw [toNat_and_one, toNat_shr t0 hi]
  have h1 : (and (shr index t1) 1).toNat = t1.toNat / 2 ^ index.toNat % 2 := by
    rw [toNat_and_one, toNat_shr t1 hi]
  have htwo : (2 : Word).toNat = 2 := rfl
  have hmul : (mul (and (shr index t0) 1) 2).toNat =
      2 * (t0.toNat / 2 ^ index.toNat % 2) := by
    rw [toNat_mul, h0, htwo]
    omega
  rw [compareBits, toNat_add_of_lt (by omega), hmul, h1]

/-- The bit `index` is the highest one set in `t0` or `t1`. -/
structure HighestBit (t0 t1 index : Word) : Prop where
  lt : index.toNat < 256
  left : t0.toNat / 2 ^ (index.toNat + 1) = 0
  right : t1.toNat / 2 ^ (index.toNat + 1) = 0
  ne_zero : compareBits index t0 t1 ≠ 0

theorem findMostSignificantBitIndex_yields {t0 t1 : Word} (ht : t0 ≠ 0 ∨ t1 ≠ 0) :
    ∃ index, Yields (fun fuel => findMostSignificantBitIndex fuel t0 t1)
        (index, compareBits index t0 t1) ∧ HighestBit t0 t1 index := by
  have hrule := iterate_yields
    (fun _ (s : Word × Word) =>
      if eq s.2 0 ≠ 0 then some (.next (sub s.1 1, compareBits s.1 t0 t1))
      else some (.done s))
    (I := fun s =>
      (s.2 = 0 ∧ s.1.toNat < 256 ∧ t0.toNat / 2 ^ (s.1.toNat + 1) = 0 ∧
        t1.toNat / 2 ^ (s.1.toNat + 1) = 0) ∨
      (s.2 = compareBits (add s.1 1) t0 t1 ∧ HighestBit t0 t1 (add s.1 1)))
    (Q := fun s => s.2 = compareBits (add s.1 1) t0 t1 ∧ HighestBit t0 t1 (add s.1 1))
    (μ := fun s => if s.2 = 0 then s.1.toNat + 1 else 0)
    ?_ (255, 0) ?_
  · obtain ⟨⟨index, ret⟩, hy, hret, hbit⟩ := hrule
    dsimp only at hret hbit
    refine ⟨add index 1, hy.bind ?_, hbit⟩
    rw [← hret]
    exact Yields.const _
  · rintro ⟨index, ret⟩ hinv
    dsimp only at hinv ⊢
    rcases hinv with ⟨rfl, hlt, h0, h1⟩ | ⟨hret, hbit⟩
    · right
      have htest : eq (0 : Word) 0 ≠ 0 := by decide
      refine ⟨_, Yields.of_eq fun _ => if_pos htest, ?_⟩
      have hback : add (sub index 1) 1 = index := sub_add_cancel index 1
      have hcompare := toNat_compareBits index hlt t0 t1
      dsimp only
      rw [hback, if_pos rfl]
      by_cases hbits : compareBits index t0 t1 = 0
      · -- neither bit is set, so both prefixes are still zero
        rw [toNat_eq_zero.mpr hbits] at hcompare
        have hzero0 : t0.toNat / 2 ^ index.toNat = 0 := by
          rw [div_two_pow_succ, h0]
          omega
        have hzero1 : t1.toNat / 2 ^ index.toNat = 0 := by
          rw [div_two_pow_succ, h1]
          omega
        have hpos : index.toNat ≠ 0 := by
          intro hi
          rw [hi, pow_zero, Nat.div_one] at hzero0 hzero1
          rcases ht with ht | ht
          · exact ht (toNat_eq_zero.mp hzero0)
          · exact ht (toNat_eq_zero.mp hzero1)
        have hsub : (sub index 1).toNat = index.toNat - 1 := toNat_sub_one (by omega)
        have hsucc : index.toNat - 1 + 1 = index.toNat := by omega
        rw [if_pos hbits, hsub, hsucc]
        exact ⟨Or.inl ⟨hbits, by omega, hzero0, hzero1⟩, by omega⟩
      · rw [if_neg hbits]
        exact ⟨Or.inr ⟨rfl, hlt, h0, h1, hbits⟩, by omega⟩
    · left
      have htest : ¬eq ret 0 ≠ 0 := by
        rw [eq, boolWord_ne_zero, hret]
        exact hbit.ne_zero
      exact ⟨_, Yields.of_eq fun _ => if_neg htest, hret, hbit⟩
  · left
    have h255 : (255 : Word).toNat + 1 = 256 := rfl
    dsimp only
    rw [h255]
    exact ⟨rfl, by decide, Nat.div_eq_of_lt (word_lt t0), Nat.div_eq_of_lt (word_lt t1)⟩

/-! ## The combination -/

variable {p : ℕ} [Fact p.Prime]

/-- The functions double and add points of the curve. -/
structure Implements (E : ShortWeierstrass (ZMod p))
    (projectiveDouble : Word × Word × Word → Word × Word × Word)
    (projectiveAdd : Word × Word × Word → Word × Word × Word → Word × Word × Word) :
    Prop where
  double : ∀ {A : E.Point} {W}, Represents A W → Represents (A + A) (projectiveDouble W)
  add : ∀ {A B : E.Point} {V W}, Represents A V → Represents B W →
    Represents (A + B) (projectiveAdd V W)

/-- The combination of the prefixes above bit `i`. -/
def prefixSum {E : ShortWeierstrass (ZMod p)} (G Q : E.Point) (t0 t1 i : ℕ) : E.Point :=
  (t0 / 2 ^ i) • G + (t1 / 2 ^ i) • Q

section Combination

variable {E : ShortWeierstrass (ZMod p)} {G Q : E.Point}
  {double : Word × Word × Word → Word × Word × Word}
  {addition : Word × Word × Word → Word × Word × Word → Word × Word × Word}
  {g q : Word × Word × Word} {t0 t1 : Word}

/-- Reading one bit of each scalar. -/
theorem prefixSum_succ (G Q : E.Point) (t0 t1 i : ℕ) :
    prefixSum G Q t0 t1 i =
      prefixSum G Q t0 t1 (i + 1) + prefixSum G Q t0 t1 (i + 1) +
        ((t0 / 2 ^ i % 2) • G + (t1 / 2 ^ i % 2) • Q) := by
  have h0 := div_two_pow_succ t0 i
  have h1 := div_two_pow_succ t1 i
  generalize t0 / 2 ^ i % 2 = b0 at h0 ⊢
  generalize t1 / 2 ^ i % 2 = b1 at h1 ⊢
  rw [prefixSum, h0, h1, prefixSum, add_nsmul, add_nsmul, two_mul, two_mul, add_nsmul,
    add_nsmul]
  abel

theorem shamirStep_spec (himp : Implements E double addition) (hG : Represents G g)
    (hQ : Represents Q q) {index : Word} {r : Word × Word × Word} (hi : index ≠ 0)
    (hlt : index.toNat ≤ 256)
    (hr : Represents (prefixSum G Q t0.toNat t1.toNat index.toNat) r) :
    ∃ r', shamirStep double addition q g (addition g q) t0 t1 (index, r) =
        .next (sub index 1, r') ∧
      Represents (prefixSum G Q t0.toNat t1.toNat (sub index 1).toNat) r' := by
  have hpos : index.toNat ≠ 0 := mt toNat_eq_zero.mp hi
  have hsub : (sub index 1).toNat = index.toNat - 1 := toNat_sub_one (by omega)
  have htest : gt index 0 ≠ 0 := by
    rw [gt_ne_zero]
    exact Nat.pos_of_ne_zero hpos
  have hdouble := himp.double hr
  have hH := himp.add hG hQ
  have hcompare := toNat_compareBits (sub index 1) (by omega) t0 t1
  have hsucc : (sub index 1).toNat + 1 = index.toNat := by omega
  have hsum := prefixSum_succ G Q t0.toNat t1.toNat (sub index 1).toNat
  rw [hsucc] at hsum
  rw [hsum]
  simp only [shamirStep, if_pos htest]
  have hret : ∀ {k : Word}, (compareBits (sub index 1) t0 t1).toNat = k.toNat →
      compareBits (sub index 1) t0 t1 = k := fun h => word_ext h
  rcases Nat.mod_two_eq_zero_or_one (t0.toNat / 2 ^ (sub index 1).toNat) with h0 | h0 <;>
    rcases Nat.mod_two_eq_zero_or_one (t1.toNat / 2 ^ (sub index 1).toNat) with h1 | h1 <;>
    rw [h0, h1] at hcompare ⊢
  · rw [hret (k := 0) hcompare, if_neg (by decide), if_neg (by decide), if_neg (by decide)]
    rw [zero_nsmul, zero_nsmul, add_zero, add_zero]
    exact ⟨_, rfl, hdouble⟩
  · rw [hret (k := 1) hcompare, if_pos rfl, zero_nsmul, one_nsmul, zero_add]
    exact ⟨_, rfl, himp.add hdouble hQ⟩
  · rw [hret (k := 2) hcompare, if_neg (by decide), if_pos rfl, zero_nsmul, one_nsmul,
      add_zero]
    exact ⟨_, rfl, himp.add hdouble hG⟩
  · rw [hret (k := 3) hcompare, if_neg (by decide), if_neg (by decide), if_pos rfl,
      one_nsmul, one_nsmul]
    exact ⟨_, rfl, himp.add hdouble hH⟩

/-- The loop from bit `index` on. -/
theorem shamirLoop_yields (himp : Implements E double addition) (hG : Represents G g)
    (hQ : Represents Q q) {index : Word} {r : Word × Word × Word}
    (hlt : index.toNat ≤ 256)
    (hr : Represents (prefixSum G Q t0.toNat t1.toNat index.toNat) r) :
    ∃ W, Yields (fun fuel => iterate
        (fun s => some (shamirStep double addition q g (addition g q) t0 t1 s)) fuel
        (index, r)) W ∧ Represents (t0.toNat • G + t1.toNat • Q) W := by
  refine iterate_yields
    (fun _ s => some (shamirStep double addition q g (addition g q) t0 t1 s))
    (fun s => s.1.toNat ≤ 256 ∧
      Represents (prefixSum G Q t0.toNat t1.toNat s.1.toNat) s.2)
    (fun W => Represents (t0.toNat • G + t1.toNat • Q) W)
    (fun s => s.1.toNat) ?_ (index, r) ⟨hlt, hr⟩
  rintro ⟨index, r⟩ ⟨hlt, hr⟩
  dsimp only at hlt hr ⊢
  by_cases hi : index = 0
  · left
    subst hi
    have hzero : (0 : Word).toNat = 0 := rfl
    rw [hzero, prefixSum, pow_zero, Nat.div_one, Nat.div_one] at hr
    exact ⟨r, Yields.const _, hr⟩
  · right
    obtain ⟨r', hstep, hr'⟩ := shamirStep_spec himp hG hQ hi hlt hr
    have hpos : index.toNat ≠ 0 := mt toNat_eq_zero.mp hi
    have hsub : (sub index 1).toNat = index.toNat - 1 := toNat_sub_one (by omega)
    refine ⟨(sub index 1, r'), Yields.of_eq fun _ => congrArg some hstep, ⟨?_, hr'⟩, ?_⟩
    · dsimp only
      omega
    · dsimp only
      omega

/-- The operand of the highest bit is the combination of the highest bits. -/
theorem represents_highestBit (himp : Implements E double addition) (hG : Represents G g)
    (hQ : Represents Q q) {index : Word} (hbit : HighestBit t0 t1 index) :
    Represents (prefixSum G Q t0.toNat t1.toNat index.toNat)
      (if compareBits index t0 t1 = 1 then q else if compareBits index t0 t1 = 2 then g
        else if compareBits index t0 t1 = 3 then addition g q else (0, 0, 0)) := by
  have hcompare := toNat_compareBits index hbit.lt t0 t1
  have hne : (compareBits index t0 t1).toNat ≠ 0 := mt toNat_eq_zero.mp hbit.ne_zero
  have hret : ∀ {k : Word}, (compareBits index t0 t1).toNat = k.toNat →
      compareBits index t0 t1 = k := fun h => word_ext h
  have hsum := prefixSum_succ G Q t0.toNat t1.toNat index.toNat
  rw [prefixSum, prefixSum, hbit.left, hbit.right, zero_nsmul, zero_nsmul, add_zero,
    add_zero, zero_add] at hsum
  rw [prefixSum, hsum]
  rcases Nat.mod_two_eq_zero_or_one (t0.toNat / 2 ^ index.toNat) with h0 | h0 <;>
    rcases Nat.mod_two_eq_zero_or_one (t1.toNat / 2 ^ index.toNat) with h1 | h1 <;>
    rw [h0, h1] at hcompare ⊢
  · exact absurd hcompare hne
  · rw [hret (k := 1) hcompare, if_pos rfl, zero_nsmul, one_nsmul, zero_add]
    exact hQ
  · rw [hret (k := 2) hcompare, if_neg (by decide), if_pos rfl, zero_nsmul, one_nsmul,
      add_zero]
    exact hG
  · rw [hret (k := 3) hcompare, if_neg (by decide), if_neg (by decide), if_pos rfl,
      one_nsmul, one_nsmul]
    exact himp.add hG hQ

/-- The combination of two points, unless both scalars are zero. -/
theorem shamirLinearCombination_yields (himp : Implements E double addition)
    (hG : Represents G g) (hQ : Represents Q q) (ht : t0 ≠ 0 ∨ t1 ≠ 0) :
    ∃ W, Yields (fun fuel => shamirLinearCombination double addition g fuel q t0 t1) W ∧
      Represents (t0.toNat • G + t1.toNat • Q) W := by
  obtain ⟨index, hindex, hbit⟩ := findMostSignificantBitIndex_yields ht
  obtain ⟨W, hW, hrep⟩ := shamirLoop_yields himp hG hQ hbit.lt.le
    (represents_highestBit himp hG hQ hbit)
  exact ⟨W, hindex.bind hW, hrep⟩

end Combination

end EraPrecompiles.Ecdsa

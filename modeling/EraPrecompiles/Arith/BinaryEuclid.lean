import EraPrecompiles.Arith.Montgomery
import EraPrecompiles.Yul.Iteration

/-!
# The binary extended Euclidean algorithm on words

The precompiles invert residues with one algorithm.  It runs the binary
greatest common divisor on `u` and `v`, which start as `base` and the modulus,
and keeps two cofactors `b` and `c` with

  `u * r2 = b * base` and `v * r2 = c * base`

modulo the modulus.  When `u` or `v` is one, its cofactor is the result: the
inverse of `base`, times `r2`.

Halving an even `u` halves `b` modulo the modulus.  The implementations halve
in two ways, with and without a carry out of `b + modulus`, so the algorithm is
stated for a halving operation `halve` that is correct for the modulus.
-/

namespace EraPrecompiles

/-- Division by two of a residue, as an operation on words below the modulus. -/
def Halves (n : ℕ) (halve : Word → Word) : Prop :=
  ∀ b : Word, b.toNat < n →
    (halve b).toNat < n ∧ ((halve b).toNat : ZMod n) * 2 = b.toNat

section Definitions

variable (halve : Word → Word) (modulus r2 : Word)

/-- `for {} iszero(and(u, 1)) {} { u := shr(1, u) ... }` -/
def halvingLoop (fuel : ℕ) (u b : Word) : Option (Word × Word) :=
  iterate
    (fun (u, b) =>
      if iszero (and u 1) ≠ 0 then some (.next (shr 1 u, halve b))
      else some (.done (u, b)))
    fuel (u, b)

/-- The difference of two cofactors, as the `switch` of the main loop computes
it. -/
def cofactorSub (b c : Word) : Word :=
  let b := if lt b c ≠ 0 then add b modulus else b
  sub b c

/-- The variables of the main loop. -/
structure EuclidState where
  u : Word
  v : Word
  b : Word
  c : Word

/-- The `switch gt(v, u)` at the end of a round. -/
def euclidSub (s : EuclidState) : EuclidState :=
  if gt s.v s.u = 0 then
    { s with u := sub s.u s.v, b := cofactorSub modulus s.b s.c }
  else
    { s with v := sub s.v s.u, c := cofactorSub modulus s.c s.b }

def euclidStep (fuel : ℕ) (s : EuclidState) :
    Option (Flow EuclidState EuclidState) :=
  if and (iszero (eq s.u 1)) (iszero (eq s.v 1)) ≠ 0 then do
    let (u, b) ← halvingLoop halve fuel s.u s.b
    let (v, c) ← halvingLoop halve fuel s.v s.c
    some (.next (euclidSub modulus ⟨u, v, b, c⟩))
  else
    some (.done s)

def binaryEuclid (fuel : ℕ) (base : Word) : Option Word := do
  let s ← iterate (euclidStep halve modulus fuel) fuel ⟨base, modulus, r2, 0⟩
  return if eq s.u 1 = 0 then s.c else s.b

end Definitions

/-! ## The halving loop -/

section Halving

variable {n : ℕ} [WordModulus n] {halve : Word → Word}

/-- `b` is the cofactor of `u`. -/
def Cofactor (n : ℕ) (base r2 : ℕ) (u b : Word) : Prop :=
  b.toNat < n ∧ (u.toNat : ZMod n) * r2 = b.toNat * base

theorem cofactor_halve {base r2 : ℕ} {u b : Word} (hh : Halves n halve)
    (hu : u.toNat % 2 = 0) (h : Cofactor n base r2 u b) :
    Cofactor n base r2 (shr 1 u) (halve b) := by
  obtain ⟨hb, heq⟩ := h
  obtain ⟨hb', hhalf⟩ := hh b hb
  refine ⟨hb', two_mul_cancel ?_⟩
  have hu2 : ((shr 1 u).toNat : ZMod n) * 2 = u.toNat := by
    rw [toNat_shr_one]
    have : u.toNat / 2 * 2 = u.toNat := by omega
    exact_mod_cast congrArg (Nat.cast (R := ZMod n)) this
  calc
    ((shr 1 u).toNat : ZMod n) * r2 * 2 =
        ((shr 1 u).toNat : ZMod n) * 2 * r2 := by ring
    _ = b.toNat * base := by rw [hu2, heq]
    _ = ((halve b).toNat : ZMod n) * base * 2 := by rw [← hhalf]; ring

/-- The halving loop ends with the odd part of `u`. -/
theorem halvingLoop_yields {base r2 : ℕ} (hh : Halves n halve) {u b : Word}
    (hu : u ≠ 0) (h : Cofactor n base r2 u b) :
    ∃ u' b', Yields (fun fuel => halvingLoop halve fuel u b) (u', b') ∧
      Cofactor n base r2 u' b' ∧ u'.toNat % 2 = 1 ∧
      u'.toNat ∣ u.toNat ∧ (u.toNat % 2 = 1 → u' = u) := by
  have hrule := iterate_yields
    (fun _ (p : Word × Word) =>
      if iszero (and p.1 1) ≠ 0 then some (.next (shr 1 p.1, halve p.2))
      else some (.done p))
    (I := fun p => p.1 ≠ 0 ∧ Cofactor n base r2 p.1 p.2 ∧
      p.1.toNat ∣ u.toNat ∧ (u.toNat % 2 = 1 → p.1 = u))
    (Q := fun p => Cofactor n base r2 p.1 p.2 ∧ p.1.toNat % 2 = 1 ∧
      p.1.toNat ∣ u.toNat ∧ (u.toNat % 2 = 1 → p.1 = u))
    (μ := fun p => p.1.toNat)
    ?_ (u, b) ⟨hu, h, dvd_rfl, fun _ => rfl⟩
  · obtain ⟨⟨u', b'⟩, hy, hQ⟩ := hrule
    exact ⟨u', b', hy, hQ⟩
  · rintro ⟨u', b'⟩ ⟨hu', hcof, hdvd, hodd⟩
    dsimp only at hu' hcof hdvd hodd ⊢
    by_cases heven : u'.toNat % 2 = 0
    · right
      have hpos : u'.toNat ≠ 0 := fun h0 => hu' (toNat_eq_zero.mp h0)
      have hhalf : (shr 1 u').toNat = u'.toNat / 2 := toNat_shr_one u'
      refine ⟨(shr 1 u', halve b'), Yields.of_eq fun _ => ?_, ?_, ?_⟩
      · rw [iszero_and_one, if_pos (by simp [heven])]
      · refine ⟨?_, cofactor_halve hh heven hcof, ?_, ?_⟩
        · rw [ne_eq, ← toNat_eq_zero, hhalf]
          omega
        · refine Dvd.dvd.trans ?_ hdvd
          rw [hhalf]
          exact ⟨2, by omega⟩
        · intro h
          rw [hodd h] at heven
          omega
      · show (shr 1 u').toNat < u'.toNat
        rw [hhalf]
        omega
    · left
      have hone : u'.toNat % 2 = 1 := Nat.mod_two_ne_zero.mp heven
      refine ⟨(u', b'), Yields.of_eq fun _ => ?_, hcof, hone, hdvd, hodd⟩
      rw [iszero_and_one, if_neg (by simp [heven])]

omit [WordModulus n] in
/-- From zero the halving loop never ends. -/
theorem halvingLoop_zero_diverges (halve : Word → Word) (b : Word) :
    Diverges (fun fuel => halvingLoop halve fuel 0 b) := by
  refine iterate_diverges
    (fun _ (p : Word × Word) =>
      if iszero (and p.1 1) ≠ 0 then some (.next (shr 1 p.1, halve p.2))
      else some (.done p))
    (fun p => p.1 = 0) ?_ rfl
  rintro _ ⟨u', b'⟩ hu'
  replace hu' : u' = 0 := hu'
  subst hu'
  refine Or.inr ⟨(shr 1 0, halve b'), if_pos ?_, rfl⟩
  rw [iszero_and_one, boolWord_ne_zero]
  rfl

end Halving

/-! ## The main loop -/

section Main

variable {n : ℕ} [WordModulus n] {halve : Word → Word} {modulus : Word}

omit [WordModulus n] in
theorem cofactorSub_spec (hm : modulus.toNat = n) {b c : Word}
    (hb : b.toNat < n) (hc : c.toNat < n) :
    (cofactorSub modulus b c).toNat < n ∧
      ((cofactorSub modulus b c).toNat : ZMod n) = b.toNat - c.toNat := by
  by_cases hlt : b.toNat < c.toNat
  · have hval : (cofactorSub modulus b c).toNat = b.toNat + n - c.toNat := by
      have hbw := word_lt b
      have hcw := word_lt c
      have hmw := word_lt modulus
      have htest : lt b c ≠ 0 := lt_ne_zero.mpr hlt
      rw [cofactorSub, if_pos htest, toNat_sub, toNat_add, hm]
      omega
    refine ⟨by omega, ?_⟩
    rw [hval, Nat.cast_sub (by omega), Nat.cast_add, ZMod.natCast_self,
      add_zero]
  · have hval : (cofactorSub modulus b c).toNat = b.toNat - c.toNat := by
      have htest : ¬lt b c ≠ 0 := mt lt_ne_zero.mp hlt
      rw [cofactorSub, if_neg htest]
      exact toNat_sub_of_le (by omega)
    refine ⟨by omega, ?_⟩
    rw [hval, Nat.cast_sub (by omega)]

omit [WordModulus n] in
/-- The cofactor of a difference is the difference of the cofactors. -/
theorem cofactor_sub {base r2 : ℕ} (hm : modulus.toNat = n) {u v b c : Word}
    (hvu : v.toNat ≤ u.toNat)
    (hu : Cofactor n base r2 u b) (hv : Cofactor n base r2 v c) :
    Cofactor n base r2 (sub u v) (cofactorSub modulus b c) := by
  obtain ⟨hlt, hsub⟩ := cofactorSub_spec hm hu.1 hv.1
  refine ⟨hlt, ?_⟩
  rw [toNat_sub_of_le hvu, Nat.cast_sub hvu, hsub, sub_mul, sub_mul, hu.2,
    hv.2]

/-- The invariant of the main loop. -/
structure EuclidInv (n base r2 : ℕ) (s : EuclidState) : Prop where
  u_ne_zero : s.u ≠ 0
  v_ne_zero : s.v ≠ 0
  coprime : Nat.Coprime s.u.toNat s.v.toNat
  cofactor_u : Cofactor n base r2 s.u s.b
  cofactor_v : Cofactor n base r2 s.v s.c

theorem euclid_loop_condition (s : EuclidState) :
    and (iszero (eq s.u 1)) (iszero (eq s.v 1)) ≠ 0 ↔ s.u ≠ 1 ∧ s.v ≠ 1 := by
  rw [eq, eq, iszero_boolWord, iszero_boolWord, and_boolWord,
    boolWord_ne_zero]

omit [WordModulus n] in
/-- The subtraction keeps the invariant and makes the pair smaller. -/
theorem euclidSub_inv {base r2 : ℕ} (hm : modulus.toNat = n)
    {s : EuclidState} (hs : EuclidInv n base r2 s)
    (hne : s.u.toNat ≠ s.v.toNat) :
    EuclidInv n base r2 (euclidSub modulus s) ∧
      (euclidSub modulus s).u.toNat + (euclidSub modulus s).v.toNat <
        s.u.toNat + s.v.toNat := by
  have hupos : s.u.toNat ≠ 0 := fun h => hs.u_ne_zero (toNat_eq_zero.mp h)
  have hvpos : s.v.toNat ≠ 0 := fun h => hs.v_ne_zero (toNat_eq_zero.mp h)
  by_cases hlt : s.u.toNat < s.v.toNat
  · have hsub : (sub s.v s.u).toNat = s.v.toNat - s.u.toNat :=
      toNat_sub_of_le hlt.le
    have hgt : ¬gt s.v s.u = 0 := gt_ne_zero.mpr hlt
    rw [euclidSub, if_neg hgt]
    refine ⟨⟨hs.u_ne_zero, ?_, ?_, hs.cofactor_u,
      cofactor_sub hm hlt.le hs.cofactor_v hs.cofactor_u⟩, ?_⟩
    · rw [ne_eq, ← toNat_eq_zero, hsub]
      omega
    · rw [hsub, Nat.coprime_sub_self_right hlt.le]
      exact hs.coprime
    · show s.u.toNat + (sub s.v s.u).toNat < _
      rw [hsub]
      omega
  · have hle : s.v.toNat ≤ s.u.toNat := by omega
    have hsub : (sub s.u s.v).toNat = s.u.toNat - s.v.toNat :=
      toNat_sub_of_le hle
    have hgt : gt s.v s.u = 0 := by
      rw [gt, boolWord_eq_zero]
      exact hlt
    rw [euclidSub, if_pos hgt]
    refine ⟨⟨?_, hs.v_ne_zero, ?_,
      cofactor_sub hm hle hs.cofactor_u hs.cofactor_v, hs.cofactor_v⟩, ?_⟩
    · rw [ne_eq, ← toNat_eq_zero, hsub]
      omega
    · rw [hsub, Nat.coprime_sub_self_left hle]
      exact hs.coprime
    · show (sub s.u s.v).toNat + s.v.toNat < _
      rw [hsub]
      omega

/-- One round of the main loop before `u` or `v` is one. -/
theorem euclidStep_yields {base r2 : ℕ} (hh : Halves n halve)
    (hm : modulus.toNat = n) {s : EuclidState}
    (hs : EuclidInv n base r2 s) (hu1 : s.u ≠ 1) (hv1 : s.v ≠ 1) :
    ∃ s', Yields (fun fuel => euclidStep halve modulus fuel s) (.next s') ∧
      EuclidInv n base r2 s' ∧
      s'.u.toNat + s'.v.toNat < s.u.toNat + s.v.toNat := by
  obtain ⟨u', b', hyu, hcu, hou, hdu, hsu⟩ :=
    halvingLoop_yields hh hs.u_ne_zero hs.cofactor_u
  obtain ⟨v', c', hyv, hcv, hov, hdv, hsv⟩ :=
    halvingLoop_yields hh hs.v_ne_zero hs.cofactor_v
  have hupos : 0 < s.u.toNat :=
    Nat.pos_of_ne_zero fun h => hs.u_ne_zero (toNat_eq_zero.mp h)
  have hvpos : 0 < s.v.toNat :=
    Nat.pos_of_ne_zero fun h => hs.v_ne_zero (toNat_eq_zero.mp h)
  have hule := Nat.le_of_dvd hupos hdu
  have hvle := Nat.le_of_dvd hvpos hdv
  have hcop : Nat.Coprime u'.toNat v'.toNat :=
    Nat.Coprime.of_dvd hdu hdv hs.coprime
  -- Coprime numbers are not both even, so one of the two did not change.
  have hne : u'.toNat ≠ v'.toNat := by
    intro h
    rw [h, Nat.coprime_self] at hcop
    rcases Nat.mod_two_eq_zero_or_one s.u.toNat with hu | hu
    · rcases Nat.mod_two_eq_zero_or_one s.v.toNat with hv | hv
      · have h2 := Nat.dvd_gcd (Nat.dvd_of_mod_eq_zero hu)
          (Nat.dvd_of_mod_eq_zero hv)
        rw [hs.coprime] at h2
        omega
      · exact hv1 (toNat_eq_one.mp ((congrArg _ (hsv hv)).symm.trans hcop))
    · exact hu1 (toNat_eq_one.mp
        ((congrArg _ (hsu hu)).symm.trans (h.trans hcop)))
  have hs' : EuclidInv n base r2 ⟨u', v', b', c'⟩ := by
    refine ⟨?_, ?_, hcop, hcu, hcv⟩
    · rintro rfl
      simp at hou
    · rintro rfl
      simp at hov
  obtain ⟨hinv, hlt⟩ := euclidSub_inv hm hs' hne
  refine ⟨_, ?_, hinv, hlt.trans_le (Nat.add_le_add hule hvle)⟩
  have hcond := (euclid_loop_condition s).mpr ⟨hu1, hv1⟩
  simp only [euclidStep, if_pos hcond]
  exact hyu.bind (hyv.bind (Yields.const _))

/-- The algorithm ends on every base prime to the modulus, with the inverse of
the base times `r2`. -/
theorem binaryEuclid_yields (hh : Halves n halve) (hm : modulus.toNat = n)
    {r2 base : Word} (hr2 : r2.toNat < n) (hbase : base ≠ 0)
    (hcop : Nat.Coprime base.toNat n) :
    ∃ inv, Yields (fun fuel => binaryEuclid halve modulus r2 fuel base) inv ∧
      inv.toNat < n ∧ (inv.toNat : ZMod n) * base.toNat = r2.toNat := by
  have hinit : EuclidInv n base.toNat r2.toNat ⟨base, modulus, r2, 0⟩ := by
    have hn := WordModulus.one_lt (n := n)
    refine ⟨hbase, ?_, by rw [hm]; exact hcop, ⟨hr2, mul_comm _ _⟩, ?_, ?_⟩
    · intro h
      rw [← toNat_eq_zero, hm] at h
      omega
    · show (0 : Word).toNat < n
      exact Nat.zero_lt_of_lt hn
    · rw [hm, ZMod.natCast_self]
      simp
  obtain ⟨s, hs, hinv, hone⟩ := iterate_yields (euclidStep halve modulus)
    (I := EuclidInv n base.toNat r2.toNat)
    (Q := fun s => EuclidInv n base.toNat r2.toNat s ∧ (s.u = 1 ∨ s.v = 1))
    (μ := fun s => s.u.toNat + s.v.toNat)
    (fun s hs => by
      by_cases hend : s.u = 1 ∨ s.v = 1
      · left
        refine ⟨s, Yields.of_eq fun fuel => ?_, hs, hend⟩
        rw [euclidStep, if_neg]
        rw [euclid_loop_condition, ← not_or, not_not]
        exact hend
      · right
        rw [not_or] at hend
        exact euclidStep_yields hh hm hs hend.1 hend.2)
    ⟨base, modulus, r2, 0⟩ hinit
  refine ⟨if eq s.u 1 = 0 then s.c else s.b, hs.bind (Yields.const _), ?_⟩
  by_cases hu1 : s.u = 1
  · have heq : ¬eq s.u 1 = 0 := by
      rw [eq, boolWord_eq_zero, not_not]
      exact hu1
    rw [if_neg heq]
    refine ⟨hinv.cofactor_u.1, ?_⟩
    rw [← hinv.cofactor_u.2, hu1]
    simp
  · have heq : eq s.u 1 = 0 := by
      rw [eq, boolWord_eq_zero]
      exact hu1
    have hv1 : s.v = 1 := hone.resolve_left hu1
    rw [if_pos heq]
    refine ⟨hinv.cofactor_v.1, ?_⟩
    rw [← hinv.cofactor_v.2, hv1]
    simp

/-- In terms of residues: with `r2 = 2^512` the algorithm inverts Montgomery
forms. -/
theorem binaryEuclid_enc (hh : Halves n halve) (hm : modulus.toNat = n)
    {r2 : Word} (hr2 : r2 = toWord (radix n * radix n)) {x y : ZMod n}
    (hxy : y * x = 1) :
    Yields (fun fuel => binaryEuclid halve modulus r2 fuel (enc x))
      (enc y) := by
  have hunit : IsUnit (x * radix n) :=
    (IsUnit.of_mul_eq_one y (by rw [mul_comm, hxy])).mul
      (IsUnit.of_mul_eq_one _ radix_mul_inv)
  have hcop : Nat.Coprime (enc x).toNat n := by
    rw [← ZMod.isUnit_iff_coprime, cast_enc]
    exact hunit
  have hx : enc x ≠ 0 := by
    rw [ne_eq, enc_eq_zero]
    rintro rfl
    rw [mul_zero] at hxy
    exact zero_ne_one hxy
  have hr2lt : r2.toNat < n := by
    rw [hr2]
    exact toNat_toWord_lt _
  obtain ⟨inv, hy, hlt, heq⟩ := binaryEuclid_yields hh hm hr2lt hx hcop
  have hinv : inv = enc y := by
    rw [← toWord_cast hlt, enc, toWord_inj]
    refine hunit.mul_right_cancel ?_
    rw [cast_enc, hr2, cast_toWord] at heq
    calc
      (inv.toNat : ZMod n) * (x * radix n) = radix n * radix n := heq
      _ = y * x * (radix n * radix n) := by rw [hxy, one_mul]
      _ = y * radix n * (x * radix n) := by ring
  rw [← hinv]
  exact hy

/-- On the base zero the algorithm does not end. -/
theorem binaryEuclid_zero_diverges (halve : Word → Word) (r2 : Word)
    (hm : modulus.toNat = n) :
    Diverges (fun fuel => binaryEuclid halve modulus r2 fuel 0) := by
  have hmod : modulus ≠ 1 := by
    have hn := WordModulus.one_lt (n := n)
    rw [ne_eq, ← toNat_eq_one, hm]
    omega
  refine Diverges.bind ?_ _
  refine iterate_diverges (euclidStep halve modulus)
    (fun s => s = ⟨0, modulus, r2, 0⟩) ?_ rfl
  rintro fuel _ rfl
  left
  have hzero : (0 : Word) ≠ 1 := by decide
  have hcond := (euclid_loop_condition ⟨0, modulus, r2, 0⟩).mpr
    ⟨hzero, hmod⟩
  have hloop : halvingLoop halve fuel 0 r2 = none :=
    halvingLoop_zero_diverges halve r2 fuel
  simp only [euclidStep, if_pos hcond, hloop]
  rfl

end Main

end EraPrecompiles

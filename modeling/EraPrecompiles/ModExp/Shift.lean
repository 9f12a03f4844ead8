import EraPrecompiles.ModExp.Buffers

/-!
# The shift of numbers of any length

`bigUIntShl` makes a limb of the result out of two limbs of the source.  Unless the shift
is by full limbs, it reads the word behind the source with the last one (`overRead`), and
it writes the word behind the destination.

`bigUIntShl_within` says what the shift stores, on all memories: the upper bits of the
word behind the source are added to the result.  With it `bigUIntShl_exact_iff` says
when the shift is exact and local.
-/

namespace EraPrecompiles.ModExp

/-! ## Shifted limbs -/

theorem toNat_shiftedLimb {e : Word} (he : e.toNat < 256) (he0 : e ≠ 0) (next limb : Word) :
    (or (shr (sub LIMB_SIZE_IN_BITS e) next) (shl e limb)).toNat =
      limb.toNat * 2 ^ e.toNat % 2 ^ 256 + next.toNat / 2 ^ (256 - e.toNat) := by
  have hpos : e.toNat ≠ 0 := mt toNat_eq_zero.mp he0
  have h256 : LIMB_SIZE_IN_BITS.toNat = 256 := rfl
  have hinv : (sub LIMB_SIZE_IN_BITS e).toNat = 256 - e.toNat := by
    rw [toNat_sub_of_le (by omega), h256]
  have hsplit : (2 : ℕ) ^ 256 = 2 ^ (256 - e.toNat) * 2 ^ e.toNat := by
    rw [← pow_add, Nat.sub_add_cancel he.le]
  have hnext : next.toNat / 2 ^ (256 - e.toNat) < 2 ^ e.toNat := by
    refine Nat.div_lt_of_lt_mul ?_
    rw [← hsplit]
    exact word_lt next
  rw [toNat_or, toNat_shr next (by omega), toNat_shl limb he, hinv, hsplit,
    Nat.mul_mod_mul_right, Nat.or_comm, Nat.mul_comm,
    ← Nat.two_pow_add_eq_or_of_lt hnext]

/-- Shifting one limb more. -/
theorem shift_succ {y limb next e : ℕ} (k : ℕ) (he : e ≤ 256) (hnext : next < 2 ^ 256) :
    ((y * 2 ^ 256 + limb) * 2 ^ e + next / 2 ^ (256 - e)) % 2 ^ (256 * (k + 1)) =
      (y * 2 ^ e + limb / 2 ^ (256 - e)) % 2 ^ (256 * k) * 2 ^ 256 +
        (limb * 2 ^ e % 2 ^ 256 + next / 2 ^ (256 - e)) := by
  have hsplit : (2 : ℕ) ^ 256 = 2 ^ (256 - e) * 2 ^ e := by
    rw [← pow_add, Nat.sub_add_cancel he]
  have hlow : limb * 2 ^ e % 2 ^ 256 + next / 2 ^ (256 - e) < 2 ^ 256 := by
    have hquot : next / 2 ^ (256 - e) + 1 ≤ 2 ^ e := by
      refine Nat.div_lt_of_lt_mul ?_
      rw [← hsplit]
      exact hnext
    have hmod : limb % 2 ^ (256 - e) + 1 ≤ 2 ^ (256 - e) := Nat.mod_lt _ (by positivity)
    have hmul : (limb % 2 ^ (256 - e) + 1) * 2 ^ e ≤ 2 ^ (256 - e) * 2 ^ e :=
      Nat.mul_le_mul_right _ hmod
    rw [Nat.add_mul, Nat.one_mul] at hmul
    rw [hsplit, Nat.mul_mod_mul_right]
    omega
  have hhigh : limb * 2 ^ e / 2 ^ 256 = limb / 2 ^ (256 - e) := by
    rw [hsplit, Nat.mul_div_mul_right _ _ (by positivity)]
  have hsum : (y * 2 ^ 256 + limb) * 2 ^ e + next / 2 ^ (256 - e) =
      limb * 2 ^ e % 2 ^ 256 + next / 2 ^ (256 - e) +
        2 ^ 256 * (y * 2 ^ e + limb / 2 ^ (256 - e)) := by
    have hdiv := Nat.div_add_mod (limb * 2 ^ e) (2 ^ 256)
    rw [hhigh] at hdiv
    calc (y * 2 ^ 256 + limb) * 2 ^ e + next / 2 ^ (256 - e)
        = y * 2 ^ e * 2 ^ 256 + limb * 2 ^ e + next / 2 ^ (256 - e) := by ring
      _ = y * 2 ^ e * 2 ^ 256 +
            (2 ^ 256 * (limb / 2 ^ (256 - e)) + limb * 2 ^ e % 2 ^ 256) +
            next / 2 ^ (256 - e) := by rw [hdiv]
      _ = _ := by ring
  rw [hsum, Nat.mul_succ, Nat.add_comm (256 * k) 256, pow_add, Nat.mod_mul,
    Nat.add_mul_mod_self_left, Nat.mod_eq_of_lt hlow,
    Nat.add_mul_div_left _ _ (by positivity), Nat.div_eq_of_lt hlow, Nat.zero_add]
  ring

/-- A shift within `r` limbs, with less than `2 ^ e` added. -/
theorem shift_add_mod {y t e r : ℕ} (her : e ≤ 256 * r) (ht : t < 2 ^ e) :
    (y * 2 ^ e + t) % 2 ^ (256 * r) = y * 2 ^ e % 2 ^ (256 * r) + t := by
  have hsplit : (2 : ℕ) ^ (256 * r) = 2 ^ (256 * r - e) * 2 ^ e := by
    rw [← pow_add, Nat.sub_add_cancel her]
  have hmod : y % 2 ^ (256 * r - e) + 1 ≤ 2 ^ (256 * r - e) := Nat.mod_lt _ (by positivity)
  have hmul : (y % 2 ^ (256 * r - e) + 1) * 2 ^ e ≤ 2 ^ (256 * r - e) * 2 ^ e :=
    Nat.mul_le_mul_right _ hmod
  rw [Nat.add_mul, Nat.one_mul] at hmul
  rw [hsplit, Nat.mul_mod_mul_right]
  have hdiv := Nat.div_add_mod y (2 ^ (256 * r - e))
  have hsum : y * 2 ^ e + t =
      y % 2 ^ (256 * r - e) * 2 ^ e + t +
        2 ^ (256 * r - e) * 2 ^ e * (y / 2 ^ (256 * r - e)) := by
    calc y * 2 ^ e + t
        = (2 ^ (256 * r - e) * (y / 2 ^ (256 * r - e)) + y % 2 ^ (256 * r - e)) * 2 ^ e + t := by
          rw [hdiv]
      _ = _ := by ring
  rw [hsum, Nat.add_mul_mod_self_left, Nat.mod_eq_of_lt (by omega)]

/-! ## The word behind the source -/

/-- The highest limb of the result. -/
def shiftedTop (mem : Memory) (times numberPtr nLimbs : Word) : Word :=
  BitVec.ofNat 256 (numAt mem numberPtr.toNat nLimbs.toNat * 2 ^ times.toNat %
    2 ^ (256 * nLimbs.toNat) / 2 ^ (256 * (nLimbs.toNat - 1)))

/-- The word behind the source as the last round reads it.  The highest limb of the result
has been stored by then if there are two rounds or more. -/
def overRead (mem : Memory) (times numberPtr nLimbs shiftedPtr : Word) : Word :=
  mload (if 2 ≤ nLimbs.toNat - times.toNat / 256 then
      mstore mem shiftedPtr (shiftedTop mem times numberPtr nLimbs) else mem)
    (add numberPtr (shl 5 nLimbs))

/-- The bits of that word that go into the result. -/
def overReadBits (mem : Memory) (times numberPtr nLimbs shiftedPtr : Word) : ℕ :=
  (overRead mem times numberPtr nLimbs shiftedPtr).toNat / 2 ^ (256 - times.toNat % 256)

/-- The word behind the destination as the shift leaves it. -/
def overWrite (times behind : Word) : Word :=
  if times.toNat % 256 = 0 then behind
  else if times.toNat / 256 = 0 then shl (mod times LIMB_SIZE_IN_BITS) behind
  else 0

/-- The lower limbs are shifted, and the others drop out. -/
theorem shift_split (mem : Memory) (a : ℕ) {times L r : ℕ} (hL : times / 256 = L) :
    numAt mem a (L + r) * 2 ^ times % 2 ^ (256 * (L + r)) =
      numAt mem (a + 32 * L) r * 2 ^ (times % 256) % 2 ^ (256 * r) * 2 ^ (256 * L) := by
  have htimes : 256 * L + times % 256 = times := by
    rw [← hL]
    exact Nat.div_add_mod times 256
  rw [← numAt_mod mem a L r, Nat.mod_mul_mod, ← Nat.mul_mod_mul_right, ← pow_add,
    Nat.mul_assoc, ← pow_add]
  congr 3
  · omega
  · ring

/-- The highest limb of the result, made from two limbs. -/
theorem toNat_shiftedTop {mem : Memory} {times numberPtr nLimbs : Word} {L d : ℕ}
    (hL : times.toNat / 256 = L) (hn : nLimbs.toNat = L + (d + 2)) :
    (shiftedTop mem times numberPtr nLimbs).toNat =
      (wordAt mem (numberPtr.toNat + 32 * L)).toNat * 2 ^ (times.toNat % 256) % 2 ^ 256 +
        (wordAt mem (numberPtr.toNat + 32 * L + 32)).toNat /
          2 ^ (256 - times.toNat % 256) := by
  have he : times.toNat % 256 ≤ 256 := (Nat.mod_lt _ (by norm_num)).le
  have hnext := word_lt (wordAt mem (numberPtr.toNat + 32 * L + 32))
  have hfirst : ∀ limb next : ℕ, next < 2 ^ 256 →
      (limb * 2 ^ (times.toNat % 256) + next / 2 ^ (256 - times.toNat % 256)) % 2 ^ 256 =
        limb * 2 ^ (times.toNat % 256) % 2 ^ 256 +
          next / 2 ^ (256 - times.toNat % 256) := by
    intro limb next hnext
    have h := @shift_succ 0 limb next _ 0 he hnext
    rw [Nat.zero_mul, Nat.zero_add, Nat.zero_add, Nat.mul_zero, pow_zero, Nat.mod_one,
      Nat.zero_mul, Nat.zero_add, Nat.mul_one] at h
    exact h
  have hsplit : (2 : ℕ) ^ 256 = 2 ^ (256 - times.toNat % 256) * 2 ^ (times.toNat % 256) := by
    rw [← pow_add, Nat.sub_add_cancel he]
  have hindex : 256 * (L + (d + 2) - 1) = 256 * (d + 1) + 256 * L := by omega
  have hpow : (2 : ℕ) ^ (256 * (d + 2)) = 2 ^ (256 * (d + 1)) * 2 ^ 256 := by
    rw [← pow_add]
    congr 1
  have htwo := numAt_div mem (numberPtr.toNat + 32 * L) 2 d
  have hlimbs : numAt mem (numberPtr.toNat + 32 * L) 2 =
      (wordAt mem (numberPtr.toNat + 32 * L)).toNat * 2 ^ 256 +
        (wordAt mem (numberPtr.toNat + 32 * L + 32)).toNat := by
    rw [numAt_succ, ← toNat_wordAt_eq_numAt]
  have hdiv : ∀ y : ℕ, y * 2 ^ (times.toNat % 256) / 2 ^ (256 * (d + 1)) =
      y / 2 ^ (256 * d) / 2 ^ (256 - times.toNat % 256) := by
    intro y
    rw [Nat.mul_succ, pow_add, hsplit, ← Nat.mul_assoc,
      Nat.mul_div_mul_right _ _ (by positivity), Nat.div_div_eq_div_mul]
  have hquot : ∀ u v : ℕ, (u * 2 ^ 256 + v) / 2 ^ (256 - times.toNat % 256) =
      u * 2 ^ (times.toNat % 256) + v / 2 ^ (256 - times.toNat % 256) := by
    intro u v
    have hmul : u * 2 ^ 256 = u * 2 ^ (times.toNat % 256) * 2 ^ (256 - times.toNat % 256) := by
      rw [hsplit]
      ring
    rw [hmul, Nat.add_comm, Nat.add_mul_div_right _ _ (by positivity), Nat.add_comm]
  rw [shiftedTop, hn, toNat_ofNat, shift_split mem _ hL, hindex, pow_add,
    Nat.mul_div_mul_right _ _ (by positivity), hpow, Nat.mod_mul_right_div_self, hdiv,
    Nat.add_comm d 2, htwo, hlimbs, hquot, Nat.mod_mod, hfirst _ _ hnext]

section Shift

variable {mem : Memory} {times numberPtr nLimbs shiftedPtr : Word}

/-- When the last round begins, the word behind the source is `overRead`. -/
theorem wordAt_overRead (hnum : numberPtr.toNat + 32 * nLimbs.toNat < 2 ^ 256)
    (hd : numberPtr.toNat + 32 * nLimbs.toNat ≤ shiftedPtr.toNat ∨
      shiftedPtr.toNat + 32 * nLimbs.toNat ≤ numberPtr.toNat)
    {mem' : Memory} {k : ℕ} (hk : k + 1 = nLimbs.toNat - times.toNat / 256)
    (hframe : Frame (region shiftedPtr.toNat k) mem mem')
    (htop : 1 ≤ k → wordAt mem' shiftedPtr.toNat = shiftedTop mem times numberPtr nLimbs) :
    wordAt mem' (numberPtr.toNat + 32 * nLimbs.toNat) =
      overRead mem times numberPtr nLimbs shiftedPtr := by
  rw [overRead, mload_eq_wordAt _ (toNat_limbPtr hnum), ← hk]
  by_cases hk1 : 1 ≤ k
  · rw [if_pos (by omega)]
    have hstore := wordAt_mstore_self mem (p := shiftedPtr) rfl
      (shiftedTop mem times numberPtr nLimbs)
    have hbytes : numAt mem' shiftedPtr.toNat 1 =
        numAt (mstore mem shiftedPtr (shiftedTop mem times numberPtr nLimbs))
          shiftedPtr.toNat 1 := by
      rw [← toNat_wordAt_eq_numAt, ← toNat_wordAt_eq_numAt, hstore, htop hk1]
    refine wordAt_congr fun b hb => ?_
    rw [mem_region] at hb
    by_cases hfirst : b ∈ region shiftedPtr.toNat 1
    · exact numAt_inj hbytes b hfirst
    · have hout : b ∉ region shiftedPtr.toNat k := by
        rw [mem_region] at hfirst ⊢
        omega
      rw [hframe b hout, frame_mstore mem rfl _ b hfirst]
  · rw [if_neg (by omega)]
    refine wordAt_congr fun b _ => hframe b ?_
    rw [mem_region]
    omega

variable (mem times numberPtr nLimbs shiftedPtr)

/-- The loop of the shift by part of a limb. -/
theorem moveLimbs_shift_within (hnum : numberPtr.toNat + 32 * nLimbs.toNat < 2 ^ 256)
    (hshifted : shiftedPtr.toNat + 32 * nLimbs.toNat < 2 ^ 256)
    (hd : numberPtr.toNat + 32 * nLimbs.toNat ≤ shiftedPtr.toNat ∨
      shiftedPtr.toNat + 32 * nLimbs.toNat ≤ numberPtr.toNat)
    (he : times.toNat % 256 ≠ 0) {r : ℕ} (hr : times.toNat / 256 + r = nLimbs.toNat)
    (hr1 : 1 ≤ r) {K : ℕ} (hK : r < K) (s : MoveState) (hmem : s.mem = mem)
    (hi : s.i.toNat = times.toNat / 256)
    (hc : s.currentLimbPtr.toNat = numberPtr.toNat + 32 * (times.toNat / 256))
    (hs : s.currentShiftedLimbPtr = shiftedPtr) :
    ∃ s', Within K (fun fuel => moveLimbs
          (fun next limb => or (shr (sub LIMB_SIZE_IN_BITS (mod times LIMB_SIZE_IN_BITS)) next)
            (shl (mod times LIMB_SIZE_IN_BITS) limb)) nLimbs fuel s) s' ∧
      s'.currentShiftedLimbPtr.toNat = shiftedPtr.toNat + 32 * r ∧
      numAt s'.mem shiftedPtr.toNat r =
        numAt mem (numberPtr.toNat + 32 * (times.toNat / 256)) r * 2 ^ (times.toNat % 256) %
            2 ^ (256 * r) +
          overReadBits mem times numberPtr nLimbs shiftedPtr ∧
      Frame (region shiftedPtr.toNat r) mem s'.mem := by
  subst hmem hs
  have h256 : LIMB_SIZE_IN_BITS.toNat = 256 := rfl
  have heff : (mod times LIMB_SIZE_IN_BITS).toNat = times.toNat % 256 := by
    rw [toNat_mod _ (by decide), h256]
  have helt : times.toNat % 256 < 256 := Nat.mod_lt _ (by norm_num)
  have hne : mod times LIMB_SIZE_IN_BITS ≠ 0 := by
    rw [ne_eq, ← toNat_eq_zero, heff]
    exact he
  have hword := toNat_shiftedLimb (e := mod times LIMB_SIZE_IN_BITS) (by omega) hne
  rw [heff] at hword
  -- the limb that comes in from the right in round `k`
  let next : ℕ → ℕ := fun k =>
    if k < r then
      (wordAt s.mem (numberPtr.toNat + 32 * (times.toNat / 256) + 32 * k)).toNat
    else (overRead s.mem times numberPtr nLimbs s.currentShiftedLimbPtr).toNat
  have hnext : ∀ k, next k < 2 ^ 256 := by
    intro k
    show (if k < r then _ else _) < 2 ^ 256
    split
    · exact word_lt _
    · exact word_lt _
  obtain ⟨s', hrun, hptr, ⟨hvalue, -⟩, hframe⟩ := moveLimbs_within
    (fun next limb =>
      or (shr (sub LIMB_SIZE_IN_BITS (mod times LIMB_SIZE_IN_BITS)) next)
        (shl (mod times LIMB_SIZE_IN_BITS) limb))
    nLimbs s r (by omega) (by omega) (by omega) hK
    (fun k mem' =>
      numAt mem' s.currentShiftedLimbPtr.toNat k =
        (numAt s.mem (numberPtr.toNat + 32 * (times.toNat / 256)) k * 2 ^ (times.toNat % 256) +
          next k / 2 ^ (256 - times.toNat % 256)) % 2 ^ (256 * k) ∧
      (1 ≤ k → k < r → wordAt mem' s.currentShiftedLimbPtr.toNat =
        shiftedTop s.mem times numberPtr nLimbs))
    ⟨by rw [Nat.mul_zero, pow_zero, Nat.mod_one, numAt_none], fun h => absurd h (by omega)⟩
    (by
      rintro k mem' p hk hp hframe ⟨hvalue, htop⟩
      have hcur : (wordAt mem' (s.currentLimbPtr.toNat + 32 * k)).toNat = next k := by
        show _ = if k < r then _ else _
        rw [if_pos hk, hc, hframe.wordAt_eq]
        exact disjoint_region (by omega)
      have hin : (wordAt mem' (s.currentLimbPtr.toNat + 32 * (k + 1))).toNat = next (k + 1) := by
        show _ = if k + 1 < r then _ else _
        split
        · rw [hc, hframe.wordAt_eq]
          exact disjoint_region (by omega)
        · have hbehind : s.currentLimbPtr.toNat + 32 * (k + 1) =
              numberPtr.toNat + 32 * nLimbs.toNat := by omega
          rw [hbehind, wordAt_overRead hnum hd (by omega) hframe fun h => htop h hk]
      have hy : numAt s.mem (numberPtr.toNat + 32 * (times.toNat / 256)) (k + 1) =
          numAt s.mem (numberPtr.toNat + 32 * (times.toNat / 256)) k * 2 ^ 256 + next k := by
        show _ = _ + if k < r then _ else _
        rw [if_pos hk, numAt_succ]
      refine ⟨?_, ?_⟩
      · rw [numAt_mstore_succ mem' hp, hword, hcur, hin, hvalue, hy,
          shift_succ k helt.le (hnext (k + 1))]
      · intro _ hlt
        rcases Nat.eq_zero_or_pos k with rfl | hpos
        · rw [wordAt_mstore_self mem' (hp.trans (Nat.add_zero _))]
          refine word_ext ?_
          rw [hword, hcur, hin, toNat_shiftedTop (L := times.toNat / 256) (d := r - 2) rfl
            (by omega)]
          show (if 0 < r then _ else _) * _ % _ + (if 0 + 1 < r then _ else _) / _ = _
          rw [if_pos hk, if_pos hlt, Nat.mul_zero, Nat.add_zero, Nat.zero_add, Nat.mul_one]
        · rw [(frame_mstore mem' hp _).wordAt_eq (disjoint_region (by omega))]
          exact htop hpos hk)
  refine ⟨s', hrun, hptr, ?_, hframe⟩
  have hlast : next r = (overRead s.mem times numberPtr nLimbs s.currentShiftedLimbPtr).toNat :=
    if_neg (lt_irrefl r)
  have hbits : overReadBits s.mem times numberPtr nLimbs s.currentShiftedLimbPtr <
      2 ^ (times.toNat % 256) := by
    refine Nat.div_lt_of_lt_mul ?_
    rw [← pow_add, Nat.sub_add_cancel helt.le]
    exact word_lt _
  rw [hvalue, hlast]
  exact shift_add_mod (by omega) hbits

/-- A shift by full limbs. -/
theorem bigUIntShl_limbs_within (hnum : numberPtr.toNat + 32 * nLimbs.toNat < 2 ^ 256)
    (hshifted : shiftedPtr.toNat + 32 * nLimbs.toNat < 2 ^ 256)
    (hd : numberPtr.toNat + 32 * nLimbs.toNat ≤ shiftedPtr.toNat ∨
      shiftedPtr.toNat + 32 * nLimbs.toNat ≤ numberPtr.toNat)
    (he : times.toNat % 256 = 0) (htimes : times.toNat < 256 * nLimbs.toNat)
    {K : ℕ} (hK : nLimbs.toNat < K) :
    ∃ mem', Within K (fun fuel => bigUIntShl fuel mem times numberPtr nLimbs shiftedPtr) mem' ∧
      numAt mem' shiftedPtr.toNat nLimbs.toNat =
        numAt mem numberPtr.toNat nLimbs.toNat * 2 ^ times.toNat %
          2 ^ (256 * nLimbs.toNat) ∧
      Frame (region shiftedPtr.toNat nLimbs.toNat) mem mem' := by
  by_cases h0 : times = 0
  · have htest : iszero (eq numberPtr shiftedPtr) ≠ 0 := by
      rw [eq, iszero_boolWord, boolWord_ne_zero]
      rintro rfl
      omega
    obtain ⟨s', hrun, -, hvalue, hframe⟩ := moveLimbs_copy_within nLimbs
      ⟨mem, 0, numberPtr, shiftedPtr⟩ nLimbs.toNat (Nat.zero_add _) hnum hshifted
      (disjoint_region hd) hK
    refine ⟨s'.mem, ?_, ?_, hframe⟩
    · simp only [bigUIntShl, if_pos h0, if_pos htest]
      exact hrun.bind (Within.const K _)
    · have hlt := numAt_lt mem numberPtr.toNat nLimbs.toNat
      rw [hvalue, h0, word_zero, pow_zero, Nat.mul_one, Nat.mod_eq_of_lt hlt]
  · have h256 : LIMB_SIZE_IN_BITS.toNat = 256 := rfl
    have heff : mod times LIMB_SIZE_IN_BITS = 0 := by
      rw [← toNat_eq_zero, toNat_mod _ (by decide), h256, he]
    have htest : iszero (mod times LIMB_SIZE_IN_BITS) ≠ 0 := by
      rw [iszero, boolWord_ne_zero]
      exact heff
    have hL : (div times LIMB_SIZE_IN_BITS).toNat = times.toNat / 256 := by
      rw [toNat_div, h256]
    obtain ⟨r, hr⟩ : ∃ r, times.toNat / 256 + r = nLimbs.toNat :=
      ⟨nLimbs.toNat - times.toNat / 256, by omega⟩
    have hc : (add numberPtr (shl 5 (div times LIMB_SIZE_IN_BITS))).toNat =
        numberPtr.toNat + 32 * (times.toNat / 256) := by
      rw [← hL]
      exact toNat_limbPtr (by omega)
    obtain ⟨s', hrun, hptr, hvalue, hframe⟩ := moveLimbs_copy_within nLimbs
      ⟨mem, div times LIMB_SIZE_IN_BITS,
        add numberPtr (shl 5 (div times LIMB_SIZE_IN_BITS)), shiftedPtr⟩
      r (by dsimp only; omega) (by dsimp only; omega) (by dsimp only; omega)
      (disjoint_region (by dsimp only; omega)) (show r < K by omega)
    dsimp only at hptr hvalue hframe
    rw [hc] at hvalue
    obtain ⟨mem', hfill, hzero, hframe'⟩ := fillZeros_within s'.mem
      (div times LIMB_SIZE_IN_BITS) (shiftedPtr.toNat + 32 * r)
      (by omega) (show _ < K by omega)
    have hptr' : s'.currentShiftedLimbPtr = BitVec.ofNat 256 (shiftedPtr.toNat + 32 * r) := by
      refine word_ext ?_
      rw [← hptr, toNat_ofNat, Nat.mod_eq_of_lt (word_lt _)]
    rw [hL] at hzero hframe'
    refine ⟨mem', ?_, ?_, ?_⟩
    · simp only [bigUIntShl, if_neg h0, if_pos htest]
      refine hrun.bind ?_
      rw [hptr']
      exact hfill
    · have hrest : r + times.toNat / 256 = nLimbs.toNat := by omega
      have hfront := hframe'.numAt_eq (a := shiftedPtr.toNat) (n := r)
        (disjoint_region (Or.inl le_rfl))
      rw [← hr, shift_split mem _ rfl, hr, ← hrest, numAt_add, hzero, hfront, hvalue, he,
        pow_zero, Nat.mul_one, Nat.mod_eq_of_lt (numAt_lt mem _ r), Nat.add_zero]
    · refine (hframe.mono ?_).trans (hframe'.mono ?_)
      · exact region_subset le_rfl (by omega)
      · exact region_subset (by omega) (by omega)

/-- A shift by part of a limb. -/
theorem bigUIntShl_bits_within (hnum : numberPtr.toNat + 32 * nLimbs.toNat < 2 ^ 256)
    (hshifted : shiftedPtr.toNat + 32 * nLimbs.toNat < 2 ^ 256)
    (hd : numberPtr.toNat + 32 * nLimbs.toNat ≤ shiftedPtr.toNat ∨
      shiftedPtr.toNat + 32 * nLimbs.toNat ≤ numberPtr.toNat)
    (he : times.toNat % 256 ≠ 0) (htimes : times.toNat < 256 * nLimbs.toNat)
    (hzero : numAt mem shiftedPtr.toNat nLimbs.toNat = 0) {K : ℕ} (hK : nLimbs.toNat < K) :
    ∃ mem', Within K (fun fuel => bigUIntShl fuel mem times numberPtr nLimbs shiftedPtr) mem' ∧
      numAt mem' shiftedPtr.toNat nLimbs.toNat =
        numAt mem numberPtr.toNat nLimbs.toNat * 2 ^ times.toNat %
            2 ^ (256 * nLimbs.toNat) +
          overReadBits mem times numberPtr nLimbs shiftedPtr *
            2 ^ (256 * (times.toNat / 256)) ∧
      wordAt mem' (shiftedPtr.toNat + 32 * nLimbs.toNat) =
        overWrite times (wordAt mem (shiftedPtr.toNat + 32 * nLimbs.toNat)) ∧
      Frame (region shiftedPtr.toNat (nLimbs.toNat + 1)) mem mem' := by
  have h256 : LIMB_SIZE_IN_BITS.toNat = 256 := rfl
  have h0 : times ≠ 0 := by
    rintro rfl
    exact he rfl
  have heff : (mod times LIMB_SIZE_IN_BITS).toNat = times.toNat % 256 := by
    rw [toNat_mod _ (by decide), h256]
  have htest : ¬iszero (mod times LIMB_SIZE_IN_BITS) ≠ 0 := by
    rw [iszero, boolWord_ne_zero, ← toNat_eq_zero, heff]
    exact he
  have hL : (div times LIMB_SIZE_IN_BITS).toNat = times.toNat / 256 := by
    rw [toNat_div, h256]
  obtain ⟨r, hr⟩ : ∃ r, times.toNat / 256 + r = nLimbs.toNat :=
    ⟨nLimbs.toNat - times.toNat / 256, by omega⟩
  have hc : (add numberPtr (shl 5 (div times LIMB_SIZE_IN_BITS))).toNat =
      numberPtr.toNat + 32 * (times.toNat / 256) := by
    rw [← hL]
    exact toNat_limbPtr (by omega)
  obtain ⟨s', hrun, hptr, hvalue, hframe⟩ := moveLimbs_shift_within mem times numberPtr
    nLimbs shiftedPtr hnum hshifted hd he hr (by omega) (show r < K by omega)
    ⟨mem, div times LIMB_SIZE_IN_BITS,
      add numberPtr (shl 5 (div times LIMB_SIZE_IN_BITS)), shiftedPtr⟩ rfl hL hc rfl
  -- the limb behind the moved ones, zero unless it is behind the destination
  let last := shl (mod times LIMB_SIZE_IN_BITS)
    (mload s'.mem s'.currentShiftedLimbPtr)
  have hread : mload s'.mem s'.currentShiftedLimbPtr =
      wordAt mem (shiftedPtr.toNat + 32 * r) := by
    rw [mload_eq_wordAt _ hptr, hframe.wordAt_eq (disjoint_region (Or.inr le_rfl))]
  have hlast : times.toNat / 256 ≠ 0 → last = 0 := by
    intro hpos
    have hword : wordAt mem (shiftedPtr.toNat + 32 * r) = 0 := by
      rw [← toNat_eq_zero, toNat_wordAt_eq_numAt, numAt_eq_zero]
      intro b hb
      exact numAt_eq_zero.mp hzero b (region_subset (by omega) (by omega) hb)
    show shl _ (mload s'.mem s'.currentShiftedLimbPtr) = 0
    rw [hread, hword, ← toNat_eq_zero, toNat_shl _ (by omega), word_zero, Nat.zero_mul,
      Nat.zero_mod]
  have hstore := frame_mstore s'.mem hptr last
  have hnext : add s'.currentShiftedLimbPtr LIMB_SIZE_IN_BYTES =
      BitVec.ofNat 256 (shiftedPtr.toNat + 32 * r + 32) := by
    refine word_ext ?_
    rw [toNat_add, hptr, toNat_ofNat]
    rfl
  obtain ⟨mem', hfill, hzero', hframe'⟩ := fillZeros_within
    (mstore s'.mem s'.currentShiftedLimbPtr last)
    (div times LIMB_SIZE_IN_BITS) (shiftedPtr.toNat + 32 * r + 32)
    (by omega) (show _ < K by omega)
  rw [hL] at hzero' hframe'
  -- the moved limbs stay, and behind them are `last` and the zeros
  have hmoved : numAt mem' shiftedPtr.toNat r = numAt s'.mem shiftedPtr.toNat r := by
    rw [hframe'.numAt_eq (disjoint_region (by omega)),
      hstore.numAt_eq (disjoint_region (by omega))]
  have hword : wordAt mem' (shiftedPtr.toNat + 32 * r) = last := by
    rw [hframe'.wordAt_eq (disjoint_region (by omega)), wordAt_mstore_self _ hptr]
  have hbehind : numAt mem' (shiftedPtr.toNat + 32 * r) (times.toNat / 256 + 1) =
      last.toNat * 2 ^ (256 * (times.toNat / 256)) := by
    rw [numAt_succ_left, hword, hzero', Nat.add_zero]
  have hend : shiftedPtr.toNat + 32 * r + 32 * (times.toNat / 256) =
      shiftedPtr.toNat + 32 * nLimbs.toNat := by omega
  have hrest : r + times.toNat / 256 = nLimbs.toNat := by omega
  have hlow : numAt mem' (shiftedPtr.toNat + 32 * r) (times.toNat / 256) = 0 ∧
      wordAt mem' (shiftedPtr.toNat + 32 * nLimbs.toNat) =
        overWrite times (wordAt mem (shiftedPtr.toNat + 32 * nLimbs.toNat)) := by
    by_cases hpos : times.toNat / 256 = 0
    · refine ⟨by rw [hpos, numAt_none], ?_⟩
      have hrn : r = nLimbs.toNat := by omega
      rw [overWrite, if_neg he, if_pos hpos, ← hrn, hword]
      show shl _ (mload s'.mem s'.currentShiftedLimbPtr) = _
      rw [hread]
    · rw [hlast hpos, word_zero, Nat.zero_mul, numAt_succ, hend, Nat.add_eq_zero_iff,
        Nat.mul_eq_zero, or_iff_left (by positivity), toNat_eq_zero] at hbehind
      rw [overWrite, if_neg he, if_neg hpos]
      exact hbehind
  refine ⟨mem', ?_, ?_, hlow.2, ?_⟩
  · simp only [bigUIntShl, if_neg h0, if_neg htest]
    refine hrun.bind ?_
    rw [hnext]
    exact hfill
  · rw [← hrest, numAt_add, hlow.1, hmoved, hvalue, hrest, ← hr, shift_split mem _ rfl,
      Nat.add_zero, Nat.add_mul]
  · refine (hframe.mono ?_).trans ((hstore.mono ?_).trans (hframe'.mono ?_))
    · exact region_subset le_rfl (by omega)
    · exact region_subset (by omega) (by omega)
    · exact region_subset (by omega) (by omega)

theorem overReadBits_eq_zero (he : times.toNat % 256 = 0) :
    overReadBits mem times numberPtr nLimbs shiftedPtr = 0 := by
  rw [overReadBits, he]
  exact Nat.div_eq_of_lt (word_lt _)

/-- What the shift stores, and where. -/
theorem bigUIntShl_within (hnum : numberPtr.toNat + 32 * nLimbs.toNat < 2 ^ 256)
    (hshifted : shiftedPtr.toNat + 32 * nLimbs.toNat < 2 ^ 256)
    (hd : Disjoint (region numberPtr.toNat nLimbs.toNat)
      (region shiftedPtr.toNat nLimbs.toNat))
    (htimes : times.toNat < 256 * nLimbs.toNat)
    (hzero : numAt mem shiftedPtr.toNat nLimbs.toNat = 0) {K : ℕ} (hK : nLimbs.toNat < K) :
    ∃ mem', Within K (fun fuel => bigUIntShl fuel mem times numberPtr nLimbs shiftedPtr) mem' ∧
      numAt mem' shiftedPtr.toNat nLimbs.toNat =
        numAt mem numberPtr.toNat nLimbs.toNat * 2 ^ times.toNat %
            2 ^ (256 * nLimbs.toNat) +
          overReadBits mem times numberPtr nLimbs shiftedPtr *
            2 ^ (256 * (times.toNat / 256)) ∧
      wordAt mem' (shiftedPtr.toNat + 32 * nLimbs.toNat) =
        overWrite times (wordAt mem (shiftedPtr.toNat + 32 * nLimbs.toNat)) ∧
      Frame (region shiftedPtr.toNat (nLimbs.toNat + 1)) mem mem' := by
  rw [disjoint_region_iff (by omega) (by omega)] at hd
  by_cases he : times.toNat % 256 = 0
  · obtain ⟨mem', hrun, hvalue, hframe⟩ :=
      bigUIntShl_limbs_within mem times numberPtr nLimbs shiftedPtr hnum hshifted hd he htimes hK
    refine ⟨mem', hrun, ?_, ?_, hframe.mono (region_subset le_rfl (by omega))⟩
    · rw [hvalue, overReadBits_eq_zero mem times numberPtr nLimbs shiftedPtr he, Nat.zero_mul,
        Nat.add_zero]
    · rw [overWrite, if_pos he, hframe.wordAt_eq (disjoint_region (Or.inr le_rfl))]
  · exact bigUIntShl_bits_within mem times numberPtr nLimbs shiftedPtr hnum hshifted hd he htimes
      hzero hK

/-! ## When the shift is exact -/

theorem shl_eq_self_iff {e w : Word} (he : e.toNat < 256) (he0 : e ≠ 0) :
    shl e w = w ↔ w = 0 := by
  have hpos : e.toNat ≠ 0 := mt toNat_eq_zero.mp he0
  constructor
  · intro h
    have hmod : w.toNat * 2 ^ e.toNat % 2 ^ 256 = w.toNat := by
      rw [← toNat_shl w he, h]
    have hle : w.toNat ≤ w.toNat * 2 ^ e.toNat := Nat.le_mul_of_pos_right _ (by positivity)
    have hmodEq : w.toNat ≡ w.toNat * 2 ^ e.toNat [MOD 2 ^ 256] := by
      rw [Nat.ModEq, hmod, Nat.mod_eq_of_lt (word_lt w)]
    have hdvd : 2 ^ 256 ∣ w.toNat * (2 ^ e.toNat - 1) := by
      rw [Nat.mul_sub, Nat.mul_one]
      exact (Nat.modEq_iff_dvd' hle).mp hmodEq
    have hodd : Odd (2 ^ e.toNat - 1) :=
      Nat.Even.sub_odd Nat.one_le_two_pow ((Nat.even_pow.mpr ⟨even_two, hpos⟩)) odd_one
    have hcoprime : Nat.Coprime (2 ^ 256) (2 ^ e.toNat - 1) :=
      Nat.Coprime.pow_left 256 (Nat.coprime_two_left.mpr hodd)
    exact toNat_eq_zero.mp
      (Nat.eq_zero_of_dvd_of_lt (hcoprime.dvd_of_dvd_mul_right hdvd) (word_lt w))
  · rintro rfl
    rw [← toNat_eq_zero, toNat_shl _ he, word_zero, Nat.zero_mul, Nat.zero_mod]

/-- The word behind the destination stays as it is only if it is zero. -/
theorem overWrite_eq_self_iff (times behind : Word) :
    overWrite times behind = behind ↔ times.toNat % 256 = 0 ∨ behind = 0 := by
  have h256 : LIMB_SIZE_IN_BITS.toNat = 256 := rfl
  have heff : (mod times LIMB_SIZE_IN_BITS).toNat = times.toNat % 256 := by
    rw [toNat_mod _ (by decide), h256]
  rw [overWrite]
  by_cases he : times.toNat % 256 = 0
  · rw [if_pos he]
    exact iff_of_true rfl (Or.inl he)
  · rw [if_neg he, or_iff_right he]
    split
    · refine shl_eq_self_iff (by omega) ?_
      rw [ne_eq, ← toNat_eq_zero, heff]
      exact he
    · exact eq_comm

/-- The destination holds the shifted number, the source holds what it held, and nothing
else has changed. -/
def ShlExact (mem : Memory) (times numberPtr nLimbs shiftedPtr : Word) : Prop :=
  ∃ mem', Yields (fun fuel => bigUIntShl fuel mem times numberPtr nLimbs shiftedPtr) mem' ∧
    numAt mem' shiftedPtr.toNat nLimbs.toNat =
      numAt mem numberPtr.toNat nLimbs.toNat * 2 ^ times.toNat % 2 ^ (256 * nLimbs.toNat) ∧
    numAt mem' numberPtr.toNat nLimbs.toNat = numAt mem numberPtr.toNat nLimbs.toNat ∧
    Frame (region shiftedPtr.toNat nLimbs.toNat) mem mem'

/-- A shift that is not by full limbs is exact and local if and only if the word that is
read behind the source has no bits to shift in, and the word behind the destination is
zero. -/
theorem bigUIntShl_exact_iff (hnum : numberPtr.toNat + 32 * nLimbs.toNat < 2 ^ 256)
    (hshifted : shiftedPtr.toNat + 32 * nLimbs.toNat < 2 ^ 256)
    (hd : Disjoint (region numberPtr.toNat nLimbs.toNat)
      (region shiftedPtr.toNat nLimbs.toNat))
    (htimes : times.toNat < 256 * nLimbs.toNat)
    (hzero : numAt mem shiftedPtr.toNat nLimbs.toNat = 0) :
    ShlExact mem times numberPtr nLimbs shiftedPtr ↔
      times.toNat % 256 = 0 ∨
        (overReadBits mem times numberPtr nLimbs shiftedPtr = 0 ∧
          wordAt mem (shiftedPtr.toNat + 32 * nLimbs.toNat) = 0) := by
  obtain ⟨mem', hrun, hvalue, hbehind, hframe⟩ :=
    bigUIntShl_within mem times numberPtr nLimbs shiftedPtr hnum hshifted hd htimes hzero
      (Nat.lt_succ_self _)
  have hself := overWrite_eq_self_iff times
    (wordAt mem (shiftedPtr.toNat + 32 * nLimbs.toNat))
  constructor
  · rintro ⟨mem'', hrun', hvalue', -, hframe'⟩
    rw [← hrun.yields.unique hrun'] at hvalue' hframe'
    rw [hvalue, Nat.add_eq_left, Nat.mul_eq_zero, or_iff_left (by positivity)] at hvalue'
    rw [hframe'.wordAt_eq (disjoint_region (Or.inr le_rfl)), eq_comm, hself] at hbehind
    rcases hbehind with he | hbehind
    · exact Or.inl he
    · exact Or.inr ⟨hvalue', hbehind⟩
  · intro hcond
    have hbits : overReadBits mem times numberPtr nLimbs shiftedPtr = 0 := by
      rcases hcond with he | ⟨hbits, -⟩
      · exact overReadBits_eq_zero mem times numberPtr nLimbs shiftedPtr he
      · exact hbits
    have hword : wordAt mem' (shiftedPtr.toNat + 32 * nLimbs.toNat) =
        wordAt mem (shiftedPtr.toNat + 32 * nLimbs.toNat) := by
      rw [hbehind, hself]
      rcases hcond with he | ⟨-, hzero'⟩
      · exact Or.inl he
      · exact Or.inr hzero'
    have hlocal := hframe.of_succ hword
    rw [hbits, Nat.zero_mul, Nat.add_zero] at hvalue
    exact ⟨mem', hrun.yields, hvalue, hlocal.numAt_eq hd, hlocal⟩

end Shift

/-- The number zero at `0`, and the highest bit set in the word behind it. -/
def overReadMemory : Memory :=
  storeWords Memory.zero 0 [0, BitVec.twoPow 256 255]

/-- Twice zero is stored as one. -/
theorem bigUIntShl_not_exact : ¬ShlExact overReadMemory 1 0 1 64 := by
  obtain ⟨mem', hrun, hvalue, -⟩ := bigUIntShl_within overReadMemory 1 0 1 64 (by decide)
    (by decide) (disjoint_region (by decide)) (by decide) (by decide) (Nat.lt_succ_self _)
  rintro ⟨mem'', hrun', hvalue', -⟩
  rw [← hrun.yields.unique hrun', hvalue, Nat.add_eq_left, Nat.mul_eq_zero,
    or_iff_left (by positivity)] at hvalue'
  exact absurd hvalue' (by decide)

/-- Twice a number of one limb, with zeros behind it. -/
theorem bigUIntShl_exact_one :
    ShlExact (storeWords Memory.zero 0 [5]) 1 0 1 32 :=
  (bigUIntShl_exact_iff _ _ _ _ _ (by decide) (by decide) (disjoint_region (by decide)) (by decide)
    (by decide)).mpr (Or.inr (by decide))

end EraPrecompiles.ModExp

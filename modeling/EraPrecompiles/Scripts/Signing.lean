import EraPrecompiles.Ecdsa.Scheme
import EraPrecompiles.Scripts.Ecdsa

/-!
# The reference scripts and the verification

What `sign`, `public_key` and `verify` of the scripts have to do with the verdict of a
precompile.  The words of a signature and of a public key are those of the integers that the
scripts return.

A signature is accepted together with the public key of the same secret (`verdict_of_sign`).
Signing ends with a signature or with one of its own assertions (`sign_eq`).  And on every
valid input the script's `verify` returns what the verdict says, unless it is stopped by the
addition of two equal points (`verify_eq`).
-/

namespace EraPrecompiles.Scripts

open Ecdsa ShortWeierstrass

/-- The word of an integer. -/
def intWord (v : ℤ) : Word :=
  BitVec.ofNat 256 v.toNat

theorem toNat_intWord {v : ℤ} (hlt : v < 2 ^ 256) : (intWord v).toNat = v.toNat := by
  rw [intWord, toNat_ofNat_of_lt (by omega)]

theorem intWord_natCast (k : ℕ) : intWord k = BitVec.ofNat 256 k := by
  rw [intWord, Int.toNat_natCast]

/-! ## Signing -/

section Sign

variable {p n : ℕ} [Fact p.Prime] [hn : Fact n.Prime] {C : SigningCurve p n}
  {z da k r s : ℤ}

theorem cast_toNat {v : ℤ} (hv : 0 ≤ v) : ((v.toNat : ℕ) : ZMod n) = (v : ZMod n) := by
  rw [← Int.cast_natCast, Int.toNat_of_nonneg hv]

/-- The number `(z + r * da) / k`. -/
def signedScalar (n : ℕ) [Fact n.Prime] (z da k r : ℤ) : ZMod n :=
  (k : ZMod n)⁻¹ * ((z : ZMod n) + (r : ZMod n) * (da : ZMod n))

/-- What a signature is. -/
structure Signed (C : SigningCurve p n) (z da k r s : ℤ) : Prop where
  r_eq : r = (scriptPoint (k.toNat • C.generator)).1 % n
  r_ne_zero : r ≠ 0
  k_ne_zero : (k : ZMod n) ≠ 0
  s_eq : s = residue (signedScalar n z da k r)
  s_ne_zero : s ≠ 0

namespace Signed

variable (h : Signed C z da k r s)
include h

theorem k_nonneg : 0 ≤ k := by
  by_contra hneg
  have hr := h.r_eq
  rw [Int.toNat_of_nonpos (by omega), zero_nsmul, scriptPoint_zero, Int.zero_emod] at hr
  exact h.r_ne_zero hr

theorem point_ne_zero : k.toNat • C.generator ≠ 0 := by
  intro h0
  have hr := h.r_eq
  rw [h0, scriptPoint_zero, Int.zero_emod] at hr
  exact h.r_ne_zero hr

theorem r_bounds : 0 < r ∧ r < n := by
  have hpos : (0 : ℤ) < n := Int.natCast_pos.mpr hn.out.pos
  have h0 := Int.emod_nonneg (scriptPoint (k.toNat • C.generator)).1 hpos.ne'
  have hlt := Int.emod_lt_of_pos (scriptPoint (k.toNat • C.generator)).1 hpos
  have hne := h.r_ne_zero
  rw [← h.r_eq] at h0 hlt
  omega

theorem s_bounds : 0 < s ∧ s < n := by
  have h0 := residue_nonneg (signedScalar n z da k r)
  have hlt := residue_lt (signedScalar n z da k r)
  have hne := h.s_ne_zero
  rw [← h.s_eq] at h0 hlt
  omega

theorem cast_s : (s : ZMod n) = signedScalar n z da k r := by
  conv_lhs => rw [h.s_eq]
  exact cast_residue _

theorem cast_s_ne_zero : (s : ZMod n) ≠ 0 := by
  intro h0
  have hne := h.s_ne_zero
  rw [h.s_eq, ← h.cast_s, h0, residue_zero] at hne
  exact hne rfl

/-- The combination of a signature and the public key of the same secret. -/
theorem combination (hcard : Nat.card C.curve.Point = n) (hz : 0 ≤ z) (hda : 0 ≤ da) :
    C.combination z.toNat r.toNat s.toNat (da.toNat • C.generator) =
      k.toNat • C.generator := by
  have hr := h.r_bounds
  have hs := h.s_bounds
  refine SigningCurve.combination_signed hcard ?_ ?_ ?_
  · rw [cast_toNat h.k_nonneg]
    exact h.k_ne_zero
  · rw [cast_toNat hs.1.le, cast_toNat h.k_nonneg, cast_toNat hz, cast_toNat hr.1.le,
      cast_toNat hda]
    exact h.cast_s
  · rw [cast_toNat hs.1.le]
    exact h.cast_s_ne_zero

end Signed

end Sign

section Scheme

variable {p n : ℕ} [Fact p.Prime] [hn : Fact n.Prime] [WordModulus p] [WordModulus n]
  {C : SigningCurve p n} {A : ℤ} {z da k r s x y : ℤ}

theorem two_lt_modulus (m : ℕ) [WordModulus m] : 2 < m := by
  have hodd : m % 2 = 1 := WordModulus.odd
  have hlt : 1 < m := WordModulus.one_lt
  omega

omit [WordModulus n] in
/-- The product of the inverse and the number, modulo the order. -/
theorem modPow_inv_mul_emod (h2 : 2 < n) (k : ℤ) :
    modPow k ((n : ℤ) - 2) n * k % n = 1 ↔ (k : ZMod n) ≠ 0 := by
  have hone : (1 : ℤ) = residue (1 : ZMod n) := by
    rw [residue, ZMod.val_one, Int.ofNat_one]
  rw [modPow_inv h2, emod_eq_residue, Int.cast_mul, cast_residue, hone, residue_inj]
  by_cases hk : (k : ZMod n) = 0
  · rw [hk, inv_zero, zero_mul]
    exact iff_of_false zero_ne_one (not_not_intro rfl)
  · exact iff_of_true (inv_mul_cancel₀ hk) hk

theorem modPow_inv_mul_eq (z da k r : ℤ) :
    modPow k ((n : ℤ) - 2) n * (z + r * da) % n = residue (signedScalar n z da k r) := by
  rw [modPow_inv (two_lt_modulus n), emod_eq_residue, Int.cast_mul, cast_residue, Int.cast_add,
    Int.cast_mul, signedScalar]

theorem signed_of_sign (hA : A = residue C.curve.a)
    (h : sign A p z da k (scriptPoint C.generator).1 (scriptPoint C.generator).2 n =
      .ok (r, s)) : Signed C z da k r s := by
  rw [sign] at h
  cases hmul : scalarMul A p ((scriptPoint C.generator).1, (scriptPoint C.generator).2) k with
  | error e =>
      rw [hmul] at h
      cases h
  | ok R =>
      have hR := scalarMul_sound (two_lt_modulus p) hA C.b_ne_zero k C.generator hmul
      rw [hmul] at h
      dsimp only [bind, Except.bind] at h
      split_ifs at h with hr hk hs
      rw [Except.ok.injEq, Prod.mk.injEq] at h
      obtain ⟨rfl, rfl⟩ := h
      rw [not_not, modPow_inv_mul_emod (two_lt_modulus n)] at hk
      exact ⟨by rw [hR], hr, hk, modPow_inv_mul_eq z da k _, hs⟩

/-- The words of a signature and of the public key of the same secret: a valid input, whose
combination is the multiple of the generator by the nonce. -/
theorem validInput_of_signed (hA : A = residue C.curve.a)
    (hkey : publicKey A p da (scriptPoint C.generator).1 (scriptPoint C.generator).2 =
      .ok (x, y)) (hxy : (x, y) ≠ (0, 0)) (hsigned : Signed C z da k r s) :
    0 ≤ da ∧ ∃ h : C.ValidInput (intWord r) (intWord s) (intWord x) (intWord y),
      C.publicKey h = da.toNat • C.generator := by
  have hQ := scalarMul_sound (two_lt_modulus p) hA C.b_ne_zero da C.generator hkey
  have hne : da.toNat • C.generator ≠ 0 := by
    intro h0
    rw [h0] at hQ
    exact hxy hQ
  have hda : 0 ≤ da := by
    by_contra hneg
    refine hne ?_
    rw [Int.toNat_of_nonpos (by omega), zero_nsmul]
  obtain ⟨X, Y, hXY⟩ := (eq_zero_or_coords _).resolve_left hne
  rw [scriptPoint_of_coords hXY, Prod.mk.injEq] at hQ
  obtain ⟨rfl, rfl⟩ := hQ
  have hword (t : ZMod p) : intWord (residue t) = toWord t := intWord_natCast t.val
  have hcurve : C.curve.OnCurve ((toWord X).toNat : ZMod p) (toWord Y).toNat := by
    rw [cast_toWord, cast_toWord]
    exact hXY.onCurve
  have hlt : (n : ℤ) < 2 ^ 256 := by exact_mod_cast WordModulus.lt (n := n)
  have hr := hsigned.r_bounds
  have hs := hsigned.s_bounds
  have hvalid : C.ValidInput (intWord r) (intWord s) (intWord (residue X))
      (intWord (residue Y)) := by
    rw [hword, hword]
    refine ⟨?_, ?_, ⟨toNat_toWord_lt X, toNat_toWord_lt Y⟩, hcurve⟩
    · rw [toNat_intWord (by omega)]
      omega
    · rw [toNat_intWord (by omega)]
      omega
  refine ⟨hda, hvalid, (SigningCurve.coords_publicKey hvalid).point_unique (hXY.congr ?_ ?_)⟩
  · rw [hword, cast_toWord]
  · rw [hword, cast_toWord]

/-- The signature is accepted, and its combination is finite. -/
theorem verdict_of_sign (hA : A = residue C.curve.a) (hcard : Nat.card C.curve.Point = n)
    (hz : 0 ≤ z ∧ z < 2 ^ 256)
    (hkey : publicKey A p da (scriptPoint C.generator).1 (scriptPoint C.generator).2 =
      .ok (x, y)) (hxy : (x, y) ≠ (0, 0))
    (hsign : sign A p z da k (scriptPoint C.generator).1 (scriptPoint C.generator).2 n =
      .ok (r, s)) :
    C.verdict (intWord z) (intWord r) (intWord s) (intWord x) (intWord y) =
        .returned (wordBytes 1) ∧
      ∀ h : C.ValidInput (intWord r) (intWord s) (intWord x) (intWord y),
        C.combination (intWord z).toNat (intWord r).toNat (intWord s).toNat
          (C.publicKey h) ≠ 0 := by
  have hsigned := signed_of_sign hA hsign
  obtain ⟨hda, hvalid, hQ⟩ := validInput_of_signed hA hkey hxy hsigned
  have hlt : (n : ℤ) < 2 ^ 256 := by exact_mod_cast WordModulus.lt (n := n)
  have hr := hsigned.r_bounds
  have hs := hsigned.s_bounds
  have hcomb := hsigned.combination hcard hz.1 hda
  rw [← hQ, ← toNat_intWord hz.2, ← toNat_intWord (v := r) (by omega),
    ← toNat_intWord (v := s) (by omega)] at hcomb
  refine ⟨?_, fun h => by rw [hcomb]; exact hsigned.point_ne_zero⟩
  obtain ⟨X, Y, hR⟩ := (eq_zero_or_coords _).resolve_left hsigned.point_ne_zero
  have haccepts : C.accepts (intWord r).toNat (k.toNat • C.generator) = true := by
    rw [SigningCurve.accepts_of_coords hR, toNat_intWord (by omega), hsigned.r_eq,
      scriptPoint_of_coords hR, residue, ← Int.natCast_mod, Int.toNat_natCast]
  rw [SigningCurve.verdict, dif_pos hvalid, hcomb]
  congr 2
  rw [boolWord_eq_one]
  exact haccepts

/-! ## The script's verification -/

omit hn [WordModulus p] [WordModulus n] in
/-- The pair of words of a valid input stands for its public key. -/
theorem scriptPoint_publicKey {r s x y : Word} (h : C.ValidInput r s x y) :
    ((x.toNat : ℤ), (y.toNat : ℤ)) = scriptPoint (C.publicKey h) := by
  rw [scriptPoint_of_coords (SigningCurve.coords_publicKey h), residue_natCast, residue_natCast,
    Nat.mod_eq_of_lt h.2.2.1.1, Nat.mod_eq_of_lt h.2.2.1.2]

omit [WordModulus n] in
/-- The valid coordinates are those of the public keys. -/
theorem validInput_iff_publicKey (hA : A = residue C.curve.a)
    (hcard : Nat.card C.curve.Point = n) (hG : C.generator ≠ 0) {r s x y : Word} :
    C.ValidInput r s x y ↔
      (r.toNat ≠ 0 ∧ r.toNat < n) ∧ (s.toNat ≠ 0 ∧ s.toNat < n) ∧
        ∃ da : ℤ, 0 < da ∧ da < n ∧
          publicKey A p da (scriptPoint C.generator).1 (scriptPoint C.generator).2 =
            .ok ((x.toNat : ℤ), (y.toNat : ℤ)) := by
  have hkey {da : ℤ} (hlt : da < n) :
      publicKey A p da (scriptPoint C.generator).1 (scriptPoint C.generator).2 =
        .ok (scriptPoint (da.toNat • C.generator)) :=
    scalarMul_eq (two_lt_modulus p) hA C.b_ne_zero hn.out hcard C.generator hlt
  constructor
  · intro h
    have hQ := (SigningCurve.coords_publicKey h).ne_zero
    obtain ⟨d, hd, hQd⟩ := exists_nsmul_of_card hcard hG (C.publicKey h)
    refine ⟨h.1, h.2.1, d, ?_, by omega, ?_⟩
    · rcases Nat.eq_zero_or_pos d with rfl | hpos
      · rw [zero_nsmul] at hQd
        exact absurd hQd hQ
      · omega
    · rw [hkey (by omega), Int.toNat_natCast, ← hQd, ← scriptPoint_publicKey h]
  · rintro ⟨hr, hs, da, hda, hlt, hpub⟩
    rw [hkey hlt, Except.ok.injEq] at hpub
    have hne : da.toNat • C.generator ≠ 0 := by
      rw [ne_eq, nsmul_eq_zero_iff_of_card hcard hG, ZMod.natCast_eq_zero_iff]
      exact fun hdvd => absurd (Nat.le_of_dvd (by omega) hdvd) (by omega)
    obtain ⟨X, Y, hXY⟩ := (eq_zero_or_coords _).resolve_left hne
    rw [scriptPoint_of_coords hXY, Prod.mk.injEq, residue, residue, Int.ofNat_inj,
      Int.ofNat_inj] at hpub
    have hcurve := hXY.onCurve
    rw [← ZMod.natCast_zmod_val X, ← ZMod.natCast_zmod_val Y, hpub.1, hpub.2] at hcurve
    exact ⟨hr, hs, ⟨hpub.1 ▸ ZMod.val_lt X, hpub.2 ▸ ZMod.val_lt Y⟩, hcurve⟩

/-- The quotients of the verification. -/
theorem mul_modPow_inv_emod (a s : ℕ) :
    (a : ℤ) * modPow s ((n : ℤ) - 2) n % n =
      residue ((a : ZMod n) * ((s : ℕ) : ZMod n)⁻¹) := by
  rw [modPow_inv (two_lt_modulus n), emod_eq_residue, Int.cast_mul, cast_residue,
    Int.cast_natCast, Int.cast_natCast]

/-- On a valid input the script adds the two multiples of the combination.  It returns whether
the signature is accepted, or stops at equal multiples. -/
theorem verify_eq (hA : A = residue C.curve.a) (hcard : Nat.card C.curve.Point = n)
    (hash : Word) {r s x y : Word} (h : C.ValidInput r s x y) :
    verify A p hash.toNat r.toNat s.toNat x.toNat y.toNat (scriptPoint C.generator).1
        (scriptPoint C.generator).2 n =
      if C.hashMultiple hash.toNat s.toNat = C.keyMultiple r.toNat s.toNat (C.publicKey h) then
        .error .typeError
      else
        .ok (C.accepts r.toNat
          (C.combination hash.toNat r.toNat s.toNat (C.publicKey h))) := by
  have h2p := two_lt_modulus p
  have hs0 : ((s.toNat : ℤ) : ZMod n) ≠ 0 := by
    rw [Int.cast_natCast]
    exact natCast_ne_zero h.2.1
  have hmul (B : C.curve.Point) (u : ZMod n) :
      scalarMul A p (scriptPoint B) (residue u) = .ok (scriptPoint (u.val • B)) := by
    rw [scalarMul_eq h2p hA C.b_ne_zero hn.out hcard B (residue_lt u), residue,
      Int.toNat_natCast]
  have hdouble (U V : C.curve.Point) (hV : V ≠ 0) : U = V ∧ U + V ≠ 0 ↔ U = V := by
    refine and_iff_left_of_imp ?_
    rintro rfl
    exact SigningCurve.add_self_ne_zero hcard (two_lt_modulus n) hV
  rw [verify]
  dsimp only
  rw [if_neg (not_not_intro ((modPow_inv_mul_emod (two_lt_modulus n) _).mpr hs0)),
    mul_modPow_inv_emod, mul_modPow_inv_emod, scriptPoint_publicKey h, hmul, hmul]
  have hV := SigningCurve.keyMultiple_ne_zero hcard h
  rw [SigningCurve.combination_eq, SigningCurve.hashMultiple]
  rw [SigningCurve.keyMultiple] at hV ⊢
  generalize ((hash.toNat : ZMod n) * (s.toNat : ZMod n)⁻¹).val • C.generator = U
  generalize ((r.toNat : ZMod n) * (s.toNat : ZMod n)⁻¹).val • C.publicKey h = V at hV ⊢
  dsimp only [bind, Except.bind]
  rw [pointAdd_eq h2p C.b_ne_zero, if_congr (hdouble U V hV) rfl rfl]
  by_cases hUV : U = V
  · rw [if_pos hUV, if_pos hUV]
  rw [if_neg hUV, if_neg hUV]
  dsimp only
  have hr : (r.toNat : ℤ) % n = r.toNat := by
    rw [← Int.natCast_mod, Nat.mod_eq_of_lt h.1.2]
  rw [hr, Except.ok.injEq]
  rcases eq_zero_or_coords (U + V) with hR | ⟨X, Y, hR⟩
  · rw [hR, scriptPoint_zero, SigningCurve.accepts_zero, Int.zero_emod, decide_eq_false_iff_not]
    have hr0 := h.1.1
    omega
  · rw [scriptPoint_of_coords hR, Bool.eq_iff_iff, SigningCurve.accepts_of_coords hR, residue,
      decide_eq_true_iff, ← Int.natCast_mod, Int.ofNat_inj]

/-- What the script returns on a valid input is the verdict, and it returns false at infinity.
It raises at equal multiples only. -/
theorem verify_verdict (hA : A = residue C.curve.a) (hcard : Nat.card C.curve.Point = n)
    (hash : Word) {r s x y : Word} (h : C.ValidInput r s x y) :
    (∀ b, verify A p hash.toNat r.toNat s.toNat x.toNat y.toNat (scriptPoint C.generator).1
        (scriptPoint C.generator).2 n = .ok b →
      C.verdict hash r s x y = .returned (wordBytes (boolWord (b = true)))) ∧
    (C.combination hash.toNat r.toNat s.toNat (C.publicKey h) = 0 →
      verify A p hash.toNat r.toNat s.toNat x.toNat y.toNat (scriptPoint C.generator).1
        (scriptPoint C.generator).2 n = .ok false) ∧
    ∀ e, verify A p hash.toNat r.toNat s.toNat x.toNat y.toNat (scriptPoint C.generator).1
        (scriptPoint C.generator).2 n = .error e ↔
      e = .typeError ∧
        C.hashMultiple hash.toNat s.toNat = C.keyMultiple r.toNat s.toNat (C.publicKey h) := by
  rw [verify_eq hA hcard hash h, SigningCurve.verdict, dif_pos h]
  by_cases hequal : C.hashMultiple hash.toNat s.toNat =
      C.keyMultiple r.toNat s.toNat (C.publicKey h)
  · rw [if_pos hequal]
    refine ⟨fun b hb => ?_, fun h0 => ?_, fun e => ?_⟩
    · cases hb
    · rw [SigningCurve.combination_eq, hequal] at h0
      exact absurd h0 (SigningCurve.add_self_ne_zero hcard (two_lt_modulus n)
        (SigningCurve.keyMultiple_ne_zero hcard h))
    · rw [Except.error.injEq, and_iff_left hequal]
      exact eq_comm
  · rw [if_neg hequal]
    refine ⟨fun b hb => ?_, fun h0 => ?_, fun e => ?_⟩
    · rw [Except.ok.injEq] at hb
      rw [hb]
    · rw [h0, SigningCurve.accepts_zero]
    · refine iff_of_false (fun he => ?_) fun he => hequal he.2
      cases he

end Scheme

end EraPrecompiles.Scripts

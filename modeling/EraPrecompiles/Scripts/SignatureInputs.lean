import EraPrecompiles.Scripts.Verification

/-!
# Which signatures are accepted together

A signature comes with another one: with `s` replaced by its opposite modulo the order the call
ends in the same way, and with a hash that is the same modulo the order too
(`signature_malleable`).

The gas is burned unless `r` and `s` are scalars and the coordinates are those of a public key,
that is, of a multiple of the generator (`burned_iff_not_publicKey`): the test of the curve
equation leaves no other points.
-/

namespace EraPrecompiles

open Ecdsa Scripts ShortWeierstrass

namespace Ecdsa.SigningCurve

variable {p n : ℕ} [Fact p.Prime] [hn : Fact n.Prime] {C : SigningCurve p n}
  {hash hash' r s s' x y : Word}

omit hn in
theorem validInput_opposite (hs : s.toNat + s'.toNat = n) :
    C.ValidInput r s x y ↔ C.ValidInput r s' x y := by
  have h : s.toNat ≠ 0 ∧ s.toNat < n ↔ s'.toNat ≠ 0 ∧ s'.toNat < n := by omega
  rw [ValidInput, ValidInput, h]

/-- The combination of the other signature. -/
theorem combination_opposite (hcard : Nat.card C.curve.Point = n) (hs : s.toNat + s'.toNat = n)
    (hhash : hash.toNat ≡ hash'.toNat [MOD n]) (Q : C.curve.Point) :
    C.combination hash'.toNat r.toNat s'.toNat Q =
      -C.combination hash.toNat r.toNat s.toNat Q := by
  have hneg : (s'.toNat : ZMod n) = -(s.toNat : ZMod n) := by
    rw [eq_neg_iff_add_eq_zero, add_comm, ← Nat.cast_add, hs, ZMod.natCast_self]
  have hcongr : (hash'.toNat : ZMod n) = hash.toNat :=
    ((ZMod.natCast_eq_natCast_iff _ _ _).mpr hhash).symm
  rw [combination_neg hcard hneg, combination_congr hcongr]

theorem verdict_opposite (hcard : Nat.card C.curve.Point = n) (hs : s.toNat + s'.toNat = n)
    (hhash : hash.toNat ≡ hash'.toNat [MOD n]) :
    C.verdict hash' r s' x y = C.verdict hash r s x y := by
  by_cases h : C.ValidInput r s x y
  · have h' := (validInput_opposite hs).mp h
    rw [verdict, verdict, dif_pos h, dif_pos h']
    have hcomb := combination_opposite (r := r) hcard hs hhash (C.publicKey h)
    have hkey : C.publicKey h' = C.publicKey h := rfl
    simp only [hkey, hcomb, accepts_neg]
  · rw [verdict, verdict, dif_neg h, dif_neg (mt (validInput_opposite hs).mpr h)]

theorem finite_opposite (hcard : Nat.card C.curve.Point = n) (hs : s.toNat + s'.toNat = n)
    (hhash : hash.toNat ≡ hash'.toNat [MOD n]) :
    (∀ h : C.ValidInput r s x y,
        C.combination hash.toNat r.toNat s.toNat (C.publicKey h) ≠ 0) ↔
      ∀ h : C.ValidInput r s' x y,
        C.combination hash'.toNat r.toNat s'.toNat (C.publicKey h) ≠ 0 := by
  constructor
  · intro hfinite h
    rw [combination_opposite hcard hs hhash, neg_ne_zero]
    exact hfinite ((validInput_opposite hs).mpr h)
  · intro hfinite h
    have hne := hfinite ((validInput_opposite hs).mp h)
    rwa [combination_opposite hcard hs hhash, neg_ne_zero] at hne

end Ecdsa.SigningCurve

/-- The two signatures of a message end a call in the same way, or both calls do not end. -/
theorem signature_malleable {hash hash' r s s' x y : Word} {cd cd' : Calldata}
    (hcd : Carries cd [hash, r, s, x, y]) (hcd' : Carries cd' [hash', r, s', x, y])
    (halt : Halt) :
    (s.toNat + s'.toNat = P256.n → hash.toNat ≡ hash'.toNat [MOD P256.n] →
      (Yields (fun fuel => P256VERIFY.fallback fuel cd) halt ↔
        Yields (fun fuel => P256VERIFY.fallback fuel cd') halt)) ∧
    (s.toNat + s'.toNat = Secp256k1.n → hash.toNat ≡ hash'.toNat [MOD Secp256k1.n] →
      (Yields (fun fuel => Secp256k1VERIFY.fallback fuel cd) halt ↔
        Yields (fun fuel => Secp256k1VERIFY.fallback fuel cd') halt)) := by
  constructor
  · intro hs hhash
    rw [(P256VERIFY.fallback_carries hcd).iff_eq, (P256VERIFY.fallback_carries hcd').iff_eq,
      SigningCurve.verdict_opposite (C := P256VERIFY.p256) P256VERIFY.card_curve hs hhash]
  · intro hs hhash
    simp only [Secp256k1VERIFY.fallback_carries_eq hcd, Secp256k1VERIFY.fallback_carries_eq hcd',
      Secp256k1VERIFY.verifyWords_yields_halt_iff]
    rw [SigningCurve.verdict_opposite (C := Secp256k1VERIFY.secp256k1)
      Secp256k1VERIFY.card_curve hs hhash]
    have hfinite := SigningCurve.finite_opposite (C := Secp256k1VERIFY.secp256k1) (r := r)
      (x := x) (y := y) Secp256k1VERIFY.card_curve hs hhash
    exact and_congr_right fun _ => hfinite

/-- The signature of the script for the hash, the secret and the nonce one is accepted, and so is
the one with the opposite `s` for a hash with the order added to it. -/
theorem signature_malleable_returned :
    Yields (fun fuel => P256VERIFY.fallback fuel
        (Calldata.ofWords [intWord (1 + Secp256r1Ecdsa.N),
          intWord (Secp256r1Ecdsa.gx % Secp256r1Ecdsa.N),
          intWord (-(1 + Secp256r1Ecdsa.gx) % Secp256r1Ecdsa.N),
          intWord Secp256r1Ecdsa.gx, intWord Secp256r1Ecdsa.gy]
          (show 32 * 5 < 2 ^ 256 by decide)))
      (.returned (wordBytes 1)) := by
  have hkey : Secp256r1Ecdsa.publicKey 1 Secp256r1Ecdsa.gx Secp256r1Ecdsa.gy =
      .ok (Secp256r1Ecdsa.gx, Secp256r1Ecdsa.gy) := by
    decide +kernel
  have hsign : Secp256r1Ecdsa.sign 1 1 1 Secp256r1Ecdsa.gx Secp256r1Ecdsa.gy
      Secp256r1Ecdsa.N = .ok (Secp256r1Ecdsa.gx % Secp256r1Ecdsa.N,
        (1 + Secp256r1Ecdsa.gx % Secp256r1Ecdsa.N) % Secp256r1Ecdsa.N) := by
    decide +kernel
  have hverdict := verdict_of_sign (C := P256VERIFY.p256) Secp256r1Ecdsa.A_eq
    P256VERIFY.card_curve (z := 1) (by norm_num) hkey (by decide) hsign
  have hrun := P256VERIFY.fallback_carries (carries_ofWords [intWord 1,
    intWord (Secp256r1Ecdsa.gx % Secp256r1Ecdsa.N),
    intWord ((1 + Secp256r1Ecdsa.gx % Secp256r1Ecdsa.N) % Secp256r1Ecdsa.N),
    intWord Secp256r1Ecdsa.gx, intWord Secp256r1Ecdsa.gy] (show 32 * 5 < 2 ^ 256 by decide))
  rw [hverdict.1] at hrun
  exact ((signature_malleable (carries_ofWords _ _) (carries_ofWords _ _) _).1 (by decide +kernel)
    (by decide +kernel)).mp hrun

/-! ## The public keys -/

namespace P256VERIFY

theorem burned_iff {hash r s x y : Word} {cd : Calldata}
    (hcd : Carries cd [hash, r, s, x, y]) :
    Yields (fun fuel => fallback fuel cd) .burned ↔ ¬p256.ValidInput r s x y := by
  rw [(fallback_carries hcd).iff_eq, SigningCurve.burned_eq_verdict_iff]

end P256VERIFY

namespace Secp256k1VERIFY

theorem burned_iff {hash r s x y : Word} {cd : Calldata}
    (hcd : Carries cd [hash, r, s, x, y]) :
    Yields (fun fuel => fallback fuel cd) .burned ↔ ¬secp256k1.ValidInput r s x y := by
  simp only [fallback_carries_eq hcd, verifyWords_yields_halt_iff,
    SigningCurve.burned_eq_verdict_iff]
  exact and_iff_left_of_imp fun h h' => absurd h' h

end Secp256k1VERIFY

/-- A call burns its gas unless `r` and `s` are scalars and the coordinates are a public key of
the script, for some secret. -/
theorem burned_iff_not_publicKey {hash r s x y : Word} {cd : Calldata}
    (hcd : Carries cd [hash, r, s, x, y]) :
    (Yields (fun fuel => P256VERIFY.fallback fuel cd) .burned ↔
      ¬((r.toNat ≠ 0 ∧ r.toNat < P256.n) ∧ (s.toNat ≠ 0 ∧ s.toNat < P256.n) ∧
        ∃ da : ℤ, 0 < da ∧ da < P256.n ∧
          Secp256r1Ecdsa.publicKey da Secp256r1Ecdsa.gx Secp256r1Ecdsa.gy =
            .ok ((x.toNat : ℤ), (y.toNat : ℤ)))) ∧
    (Yields (fun fuel => Secp256k1VERIFY.fallback fuel cd) .burned ↔
      ¬((r.toNat ≠ 0 ∧ r.toNat < Secp256k1.n) ∧ (s.toNat ≠ 0 ∧ s.toNat < Secp256k1.n) ∧
        ∃ da : ℤ, 0 < da ∧ da < Secp256k1.n ∧
          Secp256k1Ecdsa.publicKey da Secp256k1Ecdsa.gx Secp256k1Ecdsa.gy =
            .ok ((x.toNat : ℤ), (y.toNat : ℤ)))) :=
  ⟨(P256VERIFY.burned_iff hcd).trans (not_congr (validInput_iff_publicKey (C := P256VERIFY.p256)
      Secp256r1Ecdsa.A_eq P256VERIFY.card_curve P256VERIFY.generator_ne_zero)),
    (Secp256k1VERIFY.burned_iff hcd).trans (not_congr (validInput_iff_publicKey
      (C := Secp256k1VERIFY.secp256k1) Secp256k1Ecdsa.A_eq Secp256k1VERIFY.card_curve
      Secp256k1VERIFY.generator_ne_zero))⟩

/-- A key that is not on the curve, and the generator. -/
theorem burned_iff_not_publicKey_generator :
    Yields (fun fuel => P256VERIFY.fallback fuel (Calldata.ofWords [1, 1, 1, 1, 1] (by decide)))
        .burned ∧
      ¬Yields (fun fuel => P256VERIFY.fallback fuel (Calldata.ofWords
        [1, 1, 1, intWord Secp256r1Ecdsa.gx, intWord Secp256r1Ecdsa.gy] (by decide))) .burned := by
  refine ⟨(burned_iff_not_publicKey (carries_ofWords _ _)).1.mpr fun hkey => ?_,
    fun hburned => (burned_iff_not_publicKey (carries_ofWords _ _)).1.mp hburned
      ⟨by decide, by decide, 1, by decide, by decide, by decide +kernel⟩⟩
  have hvalid : P256VERIFY.p256.ValidInput 1 1 1 1 := (validInput_iff_publicKey
    (C := P256VERIFY.p256) Secp256r1Ecdsa.A_eq P256VERIFY.card_curve
    P256VERIFY.generator_ne_zero).mpr hkey
  exact absurd hvalid (by decide)

end EraPrecompiles

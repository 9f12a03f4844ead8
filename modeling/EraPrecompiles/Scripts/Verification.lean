import EraPrecompiles.Ecdsa.Orders
import EraPrecompiles.Scripts.Signing
import EraPrecompiles.Yul.Call

/-!
# The reference scripts and the signature precompiles

The two scripts with their constants, and what they say about the precompiles.

Signing with a script and calling the precompile with the public key of the same secret ends
with the answer one.  On a valid input a precompile answers what the script's `verify` returns,
with two differences.  The scripts are stopped by a sum of equal points, where the precompiles
answer.  And secp256k1VERIFY does not end where the combination is infinity, where the script
returns false.
-/

namespace EraPrecompiles

open Ecdsa ShortWeierstrass

namespace Scripts

/-! ## `secp256r1_ecdsa.py` -/

namespace Secp256r1Ecdsa

def A : ℤ := 0xffffffff00000001000000000000000000000000fffffffffffffffffffffffc

def N : ℤ := 0xffffffff00000000ffffffffffffffffbce6faada7179e84f3b9cac2fc632551

def P : ℤ := 0xffffffff00000001000000000000000000000000ffffffffffffffffffffffff

/-- The generator, in `main`. -/
def gx : ℤ := 0x6b17d1f2e12c4247f8bce6e563a440f277037d812deb33a0f4a13945d898c296

def gy : ℤ := 0x4fe342e2fe1a7f9b8ee7eb4a7c0f9e162bce33576b315ececbb6406837bf51f5

def pointDouble (x y : ℤ) : ℤ × ℤ :=
  Scripts.pointDouble A P x y

def pointAdd (x1 y1 x2 y2 : ℤ) : Except Raised (ℤ × ℤ) :=
  Scripts.pointAdd P x1 y1 x2 y2

def scalarMul (p : ℤ × ℤ) (n : ℤ) : Except Raised (ℤ × ℤ) :=
  Scripts.scalarMul A P p n

def publicKey (da gx gy : ℤ) : Except Raised (ℤ × ℤ) :=
  Scripts.publicKey A P da gx gy

def sign (z da k gx gy n : ℤ) : Except Raised (ℤ × ℤ) :=
  Scripts.sign A P z da k gx gy n

def verify (z r s public_key_x public_key_y gx gy n : ℤ) : Except Raised Bool :=
  Scripts.verify A P z r s public_key_x public_key_y gx gy n

theorem A_eq : A = residue P256VERIFY.p256.curve.a := by
  decide

end Secp256r1Ecdsa

/-! ## `secp256k1_ecdsa.py` -/

namespace Secp256k1Ecdsa

def A : ℤ := 0

def N : ℤ := 0xfffffffffffffffffffffffffffffffebaaedce6af48a03bbfd25e8cd0364141

def P : ℤ := 0xfffffffffffffffffffffffffffffffffffffffffffffffffffffffefffffc2f

/-- The generator, in `main`. -/
def gx : ℤ := 0x79be667ef9dcbbac55a06295ce870b07029bfcdb2dce28d959f2815b16f81798

def gy : ℤ := 0x483ada7726a3c4655da4fbfc0e1108a8fd17b448a68554199c47d08ffb10d4b8

def pointDouble (x y : ℤ) : ℤ × ℤ :=
  Scripts.pointDouble A P x y

def pointAdd (x1 y1 x2 y2 : ℤ) : Except Raised (ℤ × ℤ) :=
  Scripts.pointAdd P x1 y1 x2 y2

def scalarMul (p : ℤ × ℤ) (n : ℤ) : Except Raised (ℤ × ℤ) :=
  Scripts.scalarMul A P p n

def publicKey (da gx gy : ℤ) : Except Raised (ℤ × ℤ) :=
  Scripts.publicKey A P da gx gy

def sign (z da k gx gy n : ℤ) : Except Raised (ℤ × ℤ) :=
  Scripts.sign A P z da k gx gy n

def verify (z r s public_key_x public_key_y gx gy n : ℤ) : Except Raised Bool :=
  Scripts.verify A P z r s public_key_x public_key_y gx gy n

theorem A_eq : A = residue Secp256k1VERIFY.secp256k1.curve.a := by
  decide

end Secp256k1Ecdsa

end Scripts

open Scripts

/-! ## P256VERIFY -/

namespace P256VERIFY

open P256

/-- The call with the five words of a signature. -/
theorem fallback_carries {hash r s x y : Word} {cd : Calldata}
    (hcd : Carries cd [hash, r, s, x, y]) :
    Yields (fun fuel => fallback fuel cd) (p256.verdict hash r s x y) := by
  obtain ⟨h0, h1, h2, h3, h4⟩ := hcd.five
  simp only [fallback, h0, h1, h2, h3, h4]
  exact verifyWords_yields hash r s x y

/-- A signature of the script is accepted for the public key of the same secret. -/
theorem p256_sign_accepted {z da k r s x y : ℤ} (hz : 0 ≤ z ∧ z < 2 ^ 256)
    (hkey : Secp256r1Ecdsa.publicKey da Secp256r1Ecdsa.gx Secp256r1Ecdsa.gy = .ok (x, y))
    (hxy : (x, y) ≠ (0, 0))
    (hsign : Secp256r1Ecdsa.sign z da k Secp256r1Ecdsa.gx Secp256r1Ecdsa.gy
      Secp256r1Ecdsa.N = .ok (r, s))
    {cd : Calldata}
    (hcd : Carries cd [intWord z, intWord r, intWord s, intWord x, intWord y]) :
    Yields (fun fuel => fallback fuel cd) (.returned (wordBytes 1)) := by
  have hverdict := verdict_of_sign (C := p256) Secp256r1Ecdsa.A_eq card_curve hz hkey hxy hsign
  rw [← hverdict.1]
  exact fallback_carries hcd

/-- The hash, the secret and the nonce one. -/
theorem p256_sign_accepted_one :
    ∃ r s, Yields (fun fuel => fallback fuel
        (Calldata.ofWords [intWord 1, intWord r, intWord s, intWord Secp256r1Ecdsa.gx,
          intWord Secp256r1Ecdsa.gy] (show 32 * 5 < 2 ^ 256 by decide)))
      (.returned (wordBytes 1)) :=
  ⟨Secp256r1Ecdsa.gx % Secp256r1Ecdsa.N,
    (1 + Secp256r1Ecdsa.gx % Secp256r1Ecdsa.N) % Secp256r1Ecdsa.N,
    @p256_sign_accepted 1 1 1 _ _ _ _ (by norm_num) (by decide +kernel) (by decide)
      (by decide +kernel) _ (carries_ofWords _ _)⟩

/-- On a valid input the precompile answers what the script returns.  The script returns unless
the two multiples to be added are equal. -/
theorem p256_verify_agrees {hash r s x y : Word} (h : p256.ValidInput r s x y) {cd : Calldata}
    (hcd : Carries cd [hash, r, s, x, y]) :
    (∀ b, Secp256r1Ecdsa.verify hash.toNat r.toNat s.toNat x.toNat y.toNat Secp256r1Ecdsa.gx
        Secp256r1Ecdsa.gy Secp256r1Ecdsa.N = .ok b →
      Yields (fun fuel => fallback fuel cd) (.returned (wordBytes (boolWord (b = true))))) ∧
    ∀ e, Secp256r1Ecdsa.verify hash.toNat r.toNat s.toNat x.toNat y.toNat Secp256r1Ecdsa.gx
        Secp256r1Ecdsa.gy Secp256r1Ecdsa.N = .error e ↔
      e = .typeError ∧ p256.hashMultiple hash.toNat s.toNat =
        p256.keyMultiple r.toNat s.toNat (p256.publicKey h) := by
  obtain ⟨hreturned, -, hraised⟩ := verify_verdict (C := p256) Secp256r1Ecdsa.A_eq card_curve hash h
  refine ⟨fun b hb => ?_, hraised⟩
  rw [← hreturned b hb]
  exact fallback_carries hcd

/-- The generator as the public key, with the hash two and a signature of ones. -/
theorem p256_verify_agrees_one :
    Yields (fun fuel => fallback fuel
        (Calldata.ofWords [2, 1, 1, intWord Secp256r1Ecdsa.gx, intWord Secp256r1Ecdsa.gy]
          (by decide)))
      (.returned (wordBytes (boolWord (false = true)))) :=
  (@p256_verify_agrees 2 1 1 _ _ (by decide) _ (carries_ofWords _ _)).1 false (by decide +kernel)

end P256VERIFY

/-! ## secp256k1VERIFY -/

namespace Secp256k1VERIFY

open Secp256k1

/-- The call with the five words of a signature. -/
theorem fallback_carries_eq {hash r s x y : Word} {cd : Calldata}
    (hcd : Carries cd [hash, r, s, x, y]) (fuel : ℕ) :
    fallback fuel cd = verifyWords fuel hash r s x y := by
  obtain ⟨h0, h1, h2, h3, h4⟩ := hcd.five
  rw [fallback, h0, h1, h2, h3, h4]

/-- With an infinite combination the call never ends. -/
theorem verifyWords_infinity {hash r s x y : Word} (h : secp256k1.ValidInput r s x y)
    (h0 : secp256k1.combination hash.toNat r.toNat s.toNat (secp256k1.publicKey h) = 0)
    (halt : Halt) : ¬Yields (fun fuel => verifyWords fuel hash r s x y) halt := by
  obtain ⟨T, hT, -, hdiverges⟩ := verifyWords_valid hash h
  rw [h0] at hT
  have hZ : T.2.2 = 0 := hT.eq_zero_iff.mp rfl
  rw [hZ] at hdiverges
  exact hdiverges (compareFirstCoordinate_zero_diverges T.1 _) halt

/-- The ends of a call: the verdict, if the combination is finite. -/
theorem verifyWords_yields_halt_iff (hash r s x y : Word) (halt : Halt) :
    Yields (fun fuel => verifyWords fuel hash r s x y) halt ↔
      halt = secp256k1.verdict hash r s x y ∧
        ∀ h : secp256k1.ValidInput r s x y,
          secp256k1.combination hash.toNat r.toNat s.toNat (secp256k1.publicKey h) ≠ 0 := by
  constructor
  · intro hrun
    have hfinite : ∀ h : secp256k1.ValidInput r s x y,
        secp256k1.combination hash.toNat r.toNat s.toNat (secp256k1.publicKey h) ≠ 0 :=
      fun h h0 => verifyWords_infinity h h0 halt hrun
    exact ⟨hrun.unique ((verifyWords_yields_iff _ _ _ _ _).mpr hfinite), hfinite⟩
  · rintro ⟨rfl, hfinite⟩
    exact (verifyWords_yields_iff _ _ _ _ _).mpr hfinite

/-- A signature of the script is accepted for the public key of the same secret. -/
theorem secp256k1_sign_accepted {z da k r s x y : ℤ} (hz : 0 ≤ z ∧ z < 2 ^ 256)
    (hkey : Secp256k1Ecdsa.publicKey da Secp256k1Ecdsa.gx Secp256k1Ecdsa.gy = .ok (x, y))
    (hxy : (x, y) ≠ (0, 0))
    (hsign : Secp256k1Ecdsa.sign z da k Secp256k1Ecdsa.gx Secp256k1Ecdsa.gy
      Secp256k1Ecdsa.N = .ok (r, s))
    {cd : Calldata}
    (hcd : Carries cd [intWord z, intWord r, intWord s, intWord x, intWord y]) :
    Yields (fun fuel => fallback fuel cd) (.returned (wordBytes 1)) := by
  have hverdict :=
    verdict_of_sign (C := secp256k1) Secp256k1Ecdsa.A_eq card_curve hz hkey hxy hsign
  simp only [fallback_carries_eq hcd]
  rw [← hverdict.1]
  exact (verifyWords_yields_iff _ _ _ _ _).mpr hverdict.2

/-- The hash, the secret and the nonce one. -/
theorem secp256k1_sign_accepted_one :
    ∃ r s, Yields (fun fuel => fallback fuel
        (Calldata.ofWords [intWord 1, intWord r, intWord s, intWord Secp256k1Ecdsa.gx,
          intWord Secp256k1Ecdsa.gy] (show 32 * 5 < 2 ^ 256 by decide)))
      (.returned (wordBytes 1)) :=
  ⟨Secp256k1Ecdsa.gx % Secp256k1Ecdsa.N,
    (1 + Secp256k1Ecdsa.gx % Secp256k1Ecdsa.N) % Secp256k1Ecdsa.N,
    @secp256k1_sign_accepted 1 1 1 _ _ _ _ (by norm_num) (by decide +kernel) (by decide)
      (by decide +kernel) _ (carries_ofWords _ _)⟩

/-- On a valid input with a finite combination the precompile answers what the script returns.
With an infinite combination the script returns false, and the call does not end. -/
theorem secp256k1_verify_agrees {hash r s x y : Word} (h : secp256k1.ValidInput r s x y)
    {cd : Calldata} (hcd : Carries cd [hash, r, s, x, y]) :
    (∀ b, Secp256k1Ecdsa.verify hash.toNat r.toNat s.toNat x.toNat y.toNat Secp256k1Ecdsa.gx
        Secp256k1Ecdsa.gy Secp256k1Ecdsa.N = .ok b →
      secp256k1.combination hash.toNat r.toNat s.toNat (secp256k1.publicKey h) ≠ 0 →
      Yields (fun fuel => fallback fuel cd) (.returned (wordBytes (boolWord (b = true))))) ∧
    (secp256k1.combination hash.toNat r.toNat s.toNat (secp256k1.publicKey h) = 0 →
      Secp256k1Ecdsa.verify hash.toNat r.toNat s.toNat x.toNat y.toNat Secp256k1Ecdsa.gx
          Secp256k1Ecdsa.gy Secp256k1Ecdsa.N = .ok false ∧
        ∀ halt, ¬Yields (fun fuel => fallback fuel cd) halt) ∧
    ∀ e, Secp256k1Ecdsa.verify hash.toNat r.toNat s.toNat x.toNat y.toNat Secp256k1Ecdsa.gx
        Secp256k1Ecdsa.gy Secp256k1Ecdsa.N = .error e ↔
      e = .typeError ∧ secp256k1.hashMultiple hash.toNat s.toNat =
        secp256k1.keyMultiple r.toNat s.toNat (secp256k1.publicKey h) := by
  obtain ⟨hreturned, hinfinite, hraised⟩ :=
    verify_verdict (C := secp256k1) Secp256k1Ecdsa.A_eq card_curve hash h
  simp only [fallback_carries_eq hcd]
  refine ⟨fun b hb hfinite => ?_, fun h0 => ⟨hinfinite h0, verifyWords_infinity h h0⟩, hraised⟩
  rw [← hreturned b hb]
  exact (verifyWords_yields_iff hash r s x y).mpr fun _ => hfinite

/-- The generator as the public key, with the hash two and a signature of ones; and the opposite
of the generator, with ones. -/
theorem secp256k1_verify_agrees_one :
    Yields (fun fuel => fallback fuel
        (Calldata.ofWords [2, 1, 1, intWord Secp256k1Ecdsa.gx, intWord Secp256k1Ecdsa.gy]
          (by decide)))
      (.returned (wordBytes (boolWord (false = true)))) ∧
    Secp256k1Ecdsa.verify 1 1 1 Secp256k1Ecdsa.gx (Secp256k1Ecdsa.P - Secp256k1Ecdsa.gy)
        Secp256k1Ecdsa.gx Secp256k1Ecdsa.gy Secp256k1Ecdsa.N = .ok false ∧
      ∀ halt, ¬Yields (fun fuel => fallback fuel infinityCall) halt := by
  refine ⟨?_, ?_⟩
  · have hvalid : secp256k1.ValidInput 1 1 (intWord Secp256k1Ecdsa.gx)
        (intWord Secp256k1Ecdsa.gy) := by
      decide +kernel
    refine (secp256k1_verify_agrees hvalid (carries_ofWords _ _)).1 false (by decide +kernel) ?_
    -- three times the generator
    have hkey : secp256k1.publicKey hvalid = secp256k1.generator := by
      refine ((SigningCurve.coords_publicKey hvalid).congr ?_ ?_).point_unique
        (coords_point generator_onCurve)
      · decide
      · decide
    have htwo : (2 : Word).toNat % n = 2 := by decide
    have hone : (1 : Word).toNat = 1 := rfl
    rw [hkey, hone, SigningCurve.combination_one, htwo, ← add_nsmul]
    refine mt (nsmul_eq_zero_iff_of_card card_curve generator_ne_zero).mp ?_
    rw [ZMod.natCast_eq_zero_iff]
    decide
  · have h := (secp256k1_verify_agrees infinityCall_valid (carries_five _)).2.1
      infinityCall_combination
    obtain ⟨hhash, hr, hs, hx, hy⟩ := infinityCall_words
    rw [hhash, hr, hs, hx, hy] at h
    exact h

end Secp256k1VERIFY

/-! ## Signing -/

end EraPrecompiles

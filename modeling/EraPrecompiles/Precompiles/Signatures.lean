import EraPrecompiles.Precompiles.P256VERIFY
import EraPrecompiles.Precompiles.Secp256k1VERIFY

/-!
# The points of the signature precompiles

The two precompiles add points by different case distinctions: secp256k1VERIFY has branches
for two operands at infinity and for opposite points, P256VERIFY leaves both to its general
formulas.  Either way the operations are those of the group, with every representative
allowed for every operand (`projective_operations_exact`), and so is the linear combination
that the loop builds out of them (`shamirLinearCombination_exact`).

A triple stands for the point at infinity exactly if its third word is zero, so the test on
this word in the verification is the test of the sum.
-/

namespace EraPrecompiles

open ShortWeierstrass

/-- Addition and doubling, for all operands and representatives. -/
theorem projective_operations_exact :
    (∀ (A B : P256VERIFY.curve.Point) (V W : Word × Word × Word),
      Represents A V → Represents B W →
        RepresentsExactly (A + B) (P256VERIFY.projectiveAdd V W) ∧
        RepresentsExactly (A + A) (P256VERIFY.projectiveDouble V)) ∧
    (∀ (A B : Secp256k1VERIFY.curve.Point) (V W : Word × Word × Word),
      Represents A V → Represents B W →
        RepresentsExactly (A + B) (Secp256k1VERIFY.projectiveAdd V W) ∧
        RepresentsExactly (A + A) (Secp256k1VERIFY.projectiveDouble V)) := by
  constructor
  · intro A B V W hV hW
    exact ⟨(P256VERIFY.implements.add hV hW).exactly, (P256VERIFY.implements.double hV).exactly⟩
  · intro A B V W hV hW
    exact ⟨(Secp256k1VERIFY.implements.add hV hW).exactly,
      (Secp256k1VERIFY.implements.double hV).exactly⟩

/-- The generators, each added to itself. -/
theorem projective_operations_exact_generator :
    RepresentsExactly (P256VERIFY.p256.generator + P256VERIFY.p256.generator)
      (P256VERIFY.projectiveAdd P256VERIFY.MONTGOMERY_PROJECTIVE_G_P
        P256VERIFY.MONTGOMERY_PROJECTIVE_G_P) ∧
    RepresentsExactly (Secp256k1VERIFY.secp256k1.generator + Secp256k1VERIFY.secp256k1.generator)
      (Secp256k1VERIFY.projectiveAdd Secp256k1VERIFY.MONTGOMERY_PROJECTIVE_G_P
        Secp256k1VERIFY.MONTGOMERY_PROJECTIVE_G_P) :=
  ⟨(projective_operations_exact.1 _ _ _ _ P256VERIFY.represents_generator
      P256VERIFY.represents_generator).1,
    (projective_operations_exact.2 _ _ _ _ Secp256k1VERIFY.represents_generator
      Secp256k1VERIFY.represents_generator).1⟩

/-- The linear combination, for all points and scalars that are not both zero. -/
theorem shamirLinearCombination_exact {t0 t1 : Word} (ht : t0 ≠ 0 ∨ t1 ≠ 0) :
    (∀ (Q : P256VERIFY.p256.curve.Point) (q : Word × Word × Word), Represents Q q →
      ∃ W, Yields (fun fuel => P256VERIFY.shamirLinearCombination fuel q t0 t1) W ∧
        RepresentsExactly (t0.toNat • P256VERIFY.p256.generator + t1.toNat • Q) W) ∧
    (∀ (Q : Secp256k1VERIFY.secp256k1.curve.Point) (q : Word × Word × Word), Represents Q q →
      ∃ W, Yields (fun fuel => Secp256k1VERIFY.shamirLinearCombination fuel q t0 t1) W ∧
        RepresentsExactly (t0.toNat • Secp256k1VERIFY.secp256k1.generator + t1.toNat • Q) W) := by
  constructor
  · intro Q q hQ
    obtain ⟨W, hW, hrep⟩ := Ecdsa.shamirLinearCombination_yields P256VERIFY.implements
      P256VERIFY.represents_generator hQ ht
    exact ⟨W, hW, hrep.exactly⟩
  · intro Q q hQ
    obtain ⟨W, hW, hrep⟩ := Ecdsa.shamirLinearCombination_yields Secp256k1VERIFY.implements
      Secp256k1VERIFY.represents_generator hQ ht
    exact ⟨W, hW, hrep.exactly⟩

/-- Three times the generator and five times the generator again. -/
theorem shamirLinearCombination_exact_generator :
    ∃ W, Yields (fun fuel => P256VERIFY.shamirLinearCombination fuel
        P256VERIFY.MONTGOMERY_PROJECTIVE_G_P 3 5) W ∧
      RepresentsExactly ((3 : Word).toNat • P256VERIFY.p256.generator +
        (5 : Word).toNat • P256VERIFY.p256.generator) W :=
  (@shamirLinearCombination_exact 3 5 (Or.inl (by decide))).1 _ _
    P256VERIFY.represents_generator

end EraPrecompiles

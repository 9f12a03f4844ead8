import EraPrecompiles.Curve.PrimeOrder
import EraPrecompiles.Precompiles.P256VERIFY
import EraPrecompiles.Precompiles.Secp256k1VERIFY

/-!
# The orders of the curves

Both curves of the signature precompiles have as many points as their scalars have residues.
-/

namespace EraPrecompiles

open ShortWeierstrass

namespace P256VERIFY

open P256

theorem curve_rootFree :
    rootFree curve.a curve.b p
      (76626890310466861426869089647039036757962535851890885406097439786770458211455,
        74462945259064871768191128030512052509059297803194871526163573358218695456204,
        34768139465301476436978405170953382516735956999154666452188405812258086013549) = true := by
  decide +kernel

theorem generator_multipleIsInfinity :
    multipleIsInfinity curve.a
      48439561293906451759052585252797914202762949526041747995844080717082404635286
      36134250956749795798585127919587881956611106672985015071877198253568414405109 n = true := by
  decide +kernel

/-- No point of P-256 has order two. -/
theorem curve_y_ne_zero (x : ZMod p) : ¬curve.OnCurve x 0 :=
  not_onCurve_zero_of_rootFree curve_rootFree x

theorem card_curve : Nat.card curve.Point = n :=
  card_eq_prime prime_n.out (by decide) curve_y_ne_zero generator_onCurve
    generator_multipleIsInfinity

end P256VERIFY

namespace Secp256k1VERIFY

open Secp256k1

theorem curve_rootFree :
    rootFree curve.a curve.b p
      (0, 0, 46758632835564736012269203954919337884311706168562511263687580192619680188360) =
        true := by
  decide +kernel

theorem generator_multipleIsInfinity :
    multipleIsInfinity curve.a
      55066263022277343669578718895168534326250603453777594175500187360389116729240
      32670510020758816978083085130507043184471273380659243275938904335757337482424 n = true := by
  decide +kernel

/-- No point of secp256k1 has order two. -/
theorem curve_y_ne_zero (x : ZMod p) : ¬curve.OnCurve x 0 :=
  not_onCurve_zero_of_rootFree curve_rootFree x

theorem card_curve : Nat.card curve.Point = n :=
  card_eq_prime prime_n.out (by decide) curve_y_ne_zero generator_onCurve
    generator_multipleIsInfinity

end Secp256k1VERIFY

end EraPrecompiles

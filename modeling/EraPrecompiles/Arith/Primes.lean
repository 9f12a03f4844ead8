import EraPrecompiles.Arith.Montgomery
import EraPrecompiles.Arith.Pratt

/-!
# The primes of the three curves

For each curve, the prime of its base field and the prime order of its group of
points.  The twist of BN254 has more points: its order is `r * (2 * p - r)`, and
the second factor is the product of the four primes named last.
-/

namespace EraPrecompiles

namespace Bn254

/-- The prime of the base field. -/
def p : ℕ :=
  21888242871839275222246405745257275088696311157297823662689037894645226208583

/-- The prime order of the group of points. -/
def r : ℕ :=
  21888242871839275222246405745257275088548364400416034343698204186575808495617

/-- The largest prime factor of the cofactor of the twist. -/
def twistPrime : ℕ :=
  197620364512881247228717050342013327560683201906968909

end Bn254

namespace P256

/-- The prime of the base field. -/
def p : ℕ :=
  115792089210356248762697446949407573530086143415290314195533631308867097853951

/-- The prime order of the group of points. -/
def n : ℕ :=
  115792089210356248762697446949407573529996955224135760342422259061068512044369

end P256

namespace Secp256k1

/-- The prime of the base field. -/
def p : ℕ :=
  115792089237316195423570985008687907853269984665640564039457584007908834671663

/-- The prime order of the group of points. -/
def n : ℕ :=
  115792089237316195423570985008687907852837564279074904382605163141518161494337

end Secp256k1

/-- The certificate of all of them. -/
def primeCertificate : List PrattLine :=
  [ ⟨2, 1, []⟩, ⟨3, 2, [2]⟩, ⟨5, 2, [2]⟩, ⟨7, 3, [2, 3]⟩, ⟨11, 2, [2, 5]⟩, ⟨13, 2, [2, 3]⟩,
    ⟨17, 3, [2]⟩, ⟨19, 2, [2, 3]⟩, ⟨23, 5, [2, 11]⟩, ⟨29, 2, [2, 7]⟩, ⟨31, 3, [2, 3, 5]⟩,
    ⟨37, 2, [2, 3]⟩, ⟨41, 6, [2, 5]⟩, ⟨43, 3, [2, 3, 7]⟩, ⟨47, 5, [2, 23]⟩, ⟨53, 2, [2, 13]⟩,
    ⟨59, 2, [2, 29]⟩, ⟨61, 2, [2, 3, 5]⟩, ⟨67, 2, [2, 3, 11]⟩, ⟨71, 7, [2, 5, 7]⟩,
    ⟨73, 5, [2, 3]⟩, ⟨83, 2, [2, 41]⟩, ⟨89, 3, [2, 11]⟩, ⟨97, 5, [2, 3]⟩, ⟨101, 2, [2, 5]⟩,
    ⟨103, 5, [2, 3, 17]⟩, ⟨107, 2, [2, 53]⟩, ⟨109, 6, [2, 3]⟩, ⟨113, 3, [2, 7]⟩,
    ⟨127, 3, [2, 3, 7]⟩, ⟨131, 2, [2, 5, 13]⟩, ⟨137, 3, [2, 17]⟩, ⟨149, 2, [2, 37]⟩,
    ⟨151, 6, [2, 3, 5]⟩, ⟨157, 5, [2, 3, 13]⟩, ⟨173, 2, [2, 43]⟩, ⟨181, 2, [2, 3, 5]⟩,
    ⟨197, 2, [2, 7]⟩, ⟨199, 3, [2, 3, 11]⟩, ⟨223, 3, [2, 3, 37]⟩, ⟨229, 6, [2, 3, 19]⟩,
    ⟨233, 3, [2, 29]⟩, ⟨239, 7, [2, 7, 17]⟩, ⟨241, 7, [2, 3, 5]⟩, ⟨257, 3, [2]⟩,
    ⟨263, 5, [2, 131]⟩, ⟨271, 6, [2, 3, 5]⟩, ⟨293, 2, [2, 73]⟩, ⟨311, 17, [2, 5, 31]⟩,
    ⟨313, 10, [2, 3, 13]⟩, ⟨337, 10, [2, 3, 7]⟩, ⟨373, 2, [2, 3, 31]⟩, ⟨379, 2, [2, 3, 7]⟩,
    ⟨409, 21, [2, 3, 17]⟩, ⟨419, 2, [2, 11, 19]⟩, ⟨443, 2, [2, 13, 17]⟩, ⟨449, 3, [2, 7]⟩,
    ⟨461, 2, [2, 5, 23]⟩, ⟨491, 2, [2, 5, 7]⟩, ⟨631, 3, [2, 3, 5, 7]⟩, ⟨641, 3, [2, 5]⟩,
    ⟨661, 2, [2, 3, 5, 11]⟩, ⟨727, 5, [2, 3, 11]⟩, ⟨757, 2, [2, 3, 7]⟩, ⟨797, 2, [2, 199]⟩,
    ⟨823, 3, [2, 3, 137]⟩, ⟨839, 11, [2, 419]⟩, ⟨853, 2, [2, 3, 71]⟩, ⟨887, 5, [2, 443]⟩,
    ⟨911, 17, [2, 5, 7, 13]⟩, ⟨919, 7, [2, 3, 17]⟩, ⟨971, 6, [2, 5, 97]⟩, ⟨983, 5, [2, 491]⟩,
    ⟨1031, 14, [2, 5, 103]⟩, ⟨1087, 3, [2, 3, 181]⟩, ⟨1201, 11, [2, 3, 5]⟩,
    ⟨1231, 3, [2, 3, 5, 41]⟩, ⟨1297, 10, [2, 3]⟩, ⟨1373, 2, [2, 7]⟩, ⟨1381, 2, [2, 3, 5, 23]⟩,
    ⟨1409, 3, [2, 11]⟩, ⟨1511, 11, [2, 5, 151]⟩, ⟨1531, 2, [2, 3, 5, 17]⟩,
    ⟨1627, 3, [2, 3, 271]⟩, ⟨1637, 2, [2, 409]⟩, ⟨1871, 14, [2, 5, 11, 17]⟩,
    ⟨2011, 3, [2, 3, 5, 67]⟩, ⟨2221, 2, [2, 3, 5, 37]⟩, ⟨2411, 6, [2, 5, 241]⟩,
    ⟨2621, 2, [2, 5, 131]⟩, ⟨2657, 3, [2, 83]⟩, ⟨2731, 3, [2, 3, 5, 7, 13]⟩,
    ⟨2861, 2, [2, 5, 11, 13]⟩, ⟨3023, 5, [2, 1511]⟩, ⟨3359, 11, [2, 23, 73]⟩,
    ⟨3407, 5, [2, 13, 131]⟩, ⟨3557, 2, [2, 7, 127]⟩, ⟨3677, 2, [2, 919]⟩,
    ⟨3691, 2, [2, 3, 5, 41]⟩, ⟨3769, 7, [2, 3, 157]⟩, ⟨4051, 10, [2, 3, 5]⟩,
    ⟨4349, 2, [2, 1087]⟩, ⟨4423, 3, [2, 3, 11, 67]⟩, ⟨4999, 3, [2, 3, 7, 17]⟩,
    ⟨5323, 5, [2, 3, 887]⟩, ⟨5501, 2, [2, 5, 11]⟩, ⟨7723, 3, [2, 3, 11, 13]⟩,
    ⟨9349, 2, [2, 3, 19, 41]⟩, ⟨9547, 2, [2, 3, 37, 43]⟩, ⟨10069, 2, [2, 3, 839]⟩,
    ⟨11003, 2, [2, 5501]⟩, ⟨13327, 3, [2, 3, 2221]⟩, ⟨13441, 11, [2, 3, 5, 7]⟩,
    ⟨16699, 3, [2, 3, 11, 23]⟩, ⟨16879, 3, [2, 3, 29, 97]⟩, ⟨17449, 14, [2, 3, 727]⟩,
    ⟨18169, 11, [2, 3, 757]⟩, ⟨20113, 10, [2, 3, 419]⟩, ⟨20963, 2, [2, 47, 223]⟩,
    ⟨24809, 6, [2, 7, 443]⟩, ⟨28181, 2, [2, 5, 1409]⟩, ⟨38189, 2, [2, 9547]⟩,
    ⟨38669, 2, [2, 7, 1381]⟩, ⟨41201, 3, [2, 5, 103]⟩, ⟨41927, 5, [2, 20963]⟩, ⟨65537, 3, [2]⟩,
    ⟨77339, 2, [2, 38669]⟩, ⟨78283, 3, [2, 3, 4349]⟩, ⟨85831, 3, [2, 3, 5, 2861]⟩,
    ⟨93001, 14, [2, 3, 5, 31]⟩, ⟨96557, 2, [2, 101, 239]⟩, ⟨104471, 11, [2, 5, 31, 337]⟩,
    ⟨120233, 3, [2, 7, 19, 113]⟩, ⟨126241, 7, [2, 3, 5, 263]⟩, ⟨133769, 3, [2, 23, 727]⟩,
    ⟨155317, 5, [2, 3, 7, 43]⟩, ⟨237073, 15, [2, 3, 11, 449]⟩, ⟨268721, 3, [2, 5, 3359]⟩,
    ⟨305873, 3, [2, 7, 2731]⟩, ⟨327599, 19, [2, 19, 37, 233]⟩, ⟨490463, 14, [2, 7, 53, 661]⟩,
    ⟨601379, 2, [2, 199, 1511]⟩, ⟨704251, 2, [2, 3, 5, 313]⟩, ⟨1206781, 10, [2, 3, 5, 20113]⟩,
    ⟨1233079, 11, [2, 3, 7, 11, 17, 157]⟩, ⟨1593227, 2, [2, 19, 41927]⟩,
    ⟨1612327, 5, [2, 3, 268721]⟩, ⟨1627771, 3, [2, 3, 5, 29, 1871]⟩,
    ⟨1853641, 17, [2, 3, 5, 19, 271]⟩, ⟨3969899, 2, [2, 19, 104471]⟩,
    ⟨4562087, 5, [2, 17, 109, 1231]⟩, ⟨4681609, 23, [2, 3, 97, 2011]⟩,
    ⟨5835139, 3, [2, 3, 61, 107, 149]⟩, ⟨5864401, 38, [2, 3, 5, 181]⟩,
    ⟨6700417, 5, [2, 3, 17449]⟩, ⟨7240687, 3, [2, 3, 1206781]⟩,
    ⟨9350987, 2, [2, 17, 229, 1201]⟩, ⟨13331831, 13, [2, 5, 971, 1373]⟩,
    ⟨44706919, 6, [2, 3, 797, 9349]⟩, ⟨107590001, 3, [2, 5, 7, 29, 53]⟩,
    ⟨173171039, 13, [2, 73, 89, 13327]⟩, ⟨187019741, 2, [2, 5, 9350987]⟩,
    ⟨191039911, 3, [2, 3, 5, 41, 155317]⟩, ⟨204061199, 11, [2, 11, 23, 107, 3769]⟩,
    ⟨311245691, 2, [2, 5, 7, 17, 29, 311]⟩, ⟨405928799, 22, [2, 11, 3691, 4999]⟩,
    ⟨545358713, 5, [2, 41, 59, 28181]⟩, ⟨622491383, 5, [2, 311245691]⟩,
    ⟨639533339, 2, [2, 229, 853, 1637]⟩, ⟨758568071, 14, [2, 5, 13, 5835139]⟩,
    ⟨1263766531, 10, [2, 3, 5, 13, 911, 3557]⟩, ⟨11465965001, 3, [2, 5, 7, 327599]⟩,
    ⟨12048837557, 2, [2, 7, 661, 93001]⟩, ⟨17367825521, 3, [2, 5, 19, 601379]⟩,
    ⟨34282281433, 17, [2, 3, 7, 204061199]⟩, ⟨35385462869, 2, [2, 7, 1263766531]⟩,
    ⟨66417393611, 6, [2, 5, 53, 173, 197, 3677]⟩, ⟨297159362677, 2, [2, 3, 11, 461, 1627771]⟩,
    ⟨1002328039319, 19, [2, 126241, 3969899]⟩, ⟨1875725156269, 2, [2, 3, 17367825521]⟩,
    ⟨5156902474397, 2, [2, 107, 12048837557]⟩, ⟨11290956913871, 13, [2, 5, 17, 66417393611]⟩,
    ⟨677736056450657, 3, [2, 7, 23, 83, 983, 1612327]⟩,
    ⟨1670836401704629, 2, [2, 3, 5156902474397]⟩,
    ⟨2480874801745591, 6, [2, 3, 5, 19, 41, 35385462869]⟩,
    ⟨46076956964474543, 5, [2, 23, 18169, 78283, 704251]⟩,
    ⟨65865678001877903, 5, [2, 83, 379, 1637, 639533339]⟩,
    ⟨107361793816595537, 3, [2, 16699, 85831, 4681609]⟩,
    ⟨173378833005251801, 6, [2, 5, 2621, 24809, 13331831]⟩,
    ⟨208150935158385979, 2, [2, 3, 11, 43, 127, 3023, 191039911]⟩,
    ⟨1309000310535827101, 2, [2, 3, 5, 43, 133769, 758568071]⟩,
    ⟨174723607534414371449, 3, [2, 17, 59, 4051, 120233, 44706919]⟩,
    ⟨209661715479349446893, 2, [2, 77339, 677736056450657]⟩,
    ⟨22149492674086928081353, 5, [2, 3, 5323, 173378833005251801]⟩,
    ⟨132896956044521568488119, 6, [2, 3, 22149492674086928081353]⟩,
    ⟨3458579658547348475946929, 3, [2, 1031, 209661715479349446893]⟩,
    ⟨2624747550333869278416773953, 7, [2, 3, 1297, 16879, 208150935158385979]⟩,
    ⟨13818364434197438864469338081, 3, [2, 5, 823, 1593227, 65865678001877903]⟩,
    ⟨29047611873442575647497758179, 2, [2, 293, 305873, 545358713, 297159362677]⟩,
    ⟨213235097339095295568608163219551, 31, [2, 5, 1233079, 3458579658547348475946929]⟩,
    ⟨341948486974166000522343609283189, 2, [2, 3, 109, 29047611873442575647497758179]⟩,
    ⟨255515944373312847190720520512484175977, 3,
      [2, 7, 11, 1627, 2657, 4423, 41201, 96557, 7240687, 107590001]⟩,
    ⟨13427688667394608761327070753331941386769, 17,
      [2, 3, 7, 11, 1853641, 4562087, 173171039, 2480874801745591]⟩,
    ⟨774023187263532362759620327192479577272145303, 3,
      [2, 3, 2411, 34282281433, 11290956913871, 46076956964474543]⟩,
    ⟨835945042244614951780389953367877943453916927241, 11,
      [2, 3, 5, 774023187263532362759620327192479577272145303]⟩,
    ⟨197620364512881247228717050342013327560683201906968909, 2,
      [2, 3, 59, 1309000310535827101, 213235097339095295568608163219551]⟩,
    ⟨205115282021455665897114700593932402728804164701536103180137503955397371, 10,
      [2, 3, 5, 29, 31, 7723, 132896956044521568488119,
        255515944373312847190720520512484175977]⟩,
    ⟨21888242871839275222246405745257275088548364400416034343698204186575808495617, 5,
      [2, 3, 13, 29, 983, 11003, 237073, 405928799, 1670836401704629,
        13818364434197438864469338081]⟩,
    ⟨21888242871839275222246405745257275088696311157297823662689037894645226208583, 3,
      [2, 3, 13, 29, 67, 229, 311, 983, 11003, 405928799, 11465965001,
        13427688667394608761327070753331941386769]⟩,
    ⟨115792089210356248762697446949407573529996955224135760342422259061068512044369, 7,
      [2, 3, 71, 131, 373, 3407, 17449, 38189, 187019741, 622491383, 1002328039319,
        2624747550333869278416773953]⟩,
    ⟨115792089210356248762697446949407573530086143415290314195533631308867097853951, 6,
      [2, 3, 5, 17, 257, 641, 1531, 65537, 490463, 6700417,
        835945042244614951780389953367877943453916927241]⟩,
    ⟨115792089237316195423570985008687907852837564279074904382605163141518161494337, 7,
      [2, 3, 149, 631, 107361793816595537, 174723607534414371449,
        341948486974166000522343609283189]⟩,
    ⟨115792089237316195423570985008687907853269984665640564039457584007908834671663, 3,
      [2, 3, 7, 13441,
        205115282021455665897114700593932402728804164701536103180137503955397371]⟩ ]

theorem primeCertificate_ok : prattOk [] primeCertificate = true := by
  decide +kernel

theorem prime_of_certificate
    {q : ℕ} (h : (primeCertificate.map PrattLine.prime).contains q = true) :
    Nat.Prime q := by
  rw [List.contains_iff_mem] at h
  obtain ⟨l, hl, rfl⟩ := List.mem_map.mp h
  exact prime_of_prattOk (by simp) primeCertificate_ok l hl

namespace Bn254

instance prime_p : Fact (Nat.Prime p) :=
  ⟨prime_of_certificate (by decide)⟩

instance prime_r : Fact (Nat.Prime r) :=
  ⟨prime_of_certificate (by decide)⟩

instance wordModulus_p : WordModulus p where
  odd := by decide
  one_lt := by decide
  lt := by decide

theorem cofactor_eq :
    2 * p - r = 10069 * 5864401 * 1875725156269 * twistPrime := by
  decide

theorem prime_twist_factors :
    Nat.Prime 10069 ∧ Nat.Prime 5864401 ∧ Nat.Prime 1875725156269 ∧
      Nat.Prime twistPrime :=
  ⟨prime_of_certificate (by decide),
    prime_of_certificate (by decide),
    prime_of_certificate (by decide),
    prime_of_certificate (by decide)⟩

end Bn254

namespace P256

instance prime_p : Fact (Nat.Prime p) :=
  ⟨prime_of_certificate (by decide)⟩

instance prime_n : Fact (Nat.Prime n) :=
  ⟨prime_of_certificate (by decide)⟩

instance wordModulus_p : WordModulus p where
  odd := by decide
  one_lt := by decide
  lt := by decide

instance wordModulus_n : WordModulus n where
  odd := by decide
  one_lt := by decide
  lt := by decide

end P256

namespace Secp256k1

instance prime_p : Fact (Nat.Prime p) :=
  ⟨prime_of_certificate (by decide)⟩

instance prime_n : Fact (Nat.Prime n) :=
  ⟨prime_of_certificate (by decide)⟩

instance wordModulus_p : WordModulus p where
  odd := by decide
  one_lt := by decide
  lt := by decide

instance wordModulus_n : WordModulus n where
  odd := by decide
  one_lt := by decide
  lt := by decide

end Secp256k1

end EraPrecompiles

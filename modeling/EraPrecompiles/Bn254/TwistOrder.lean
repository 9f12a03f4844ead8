import EraPrecompiles.Bn254.TwistLadder
import EraPrecompiles.Curve.Counting

/-!
# The order of the twist

The twist has `r * (2 * p - r)` points.  The factors are found as orders of points, and the
number is odd and at most `2 * (p^2 + 1)`, which leaves no other multiple of their product.

So the points that `r` kills are the multiples of `twistGenerator`.  And no prefix of `r`
collides in the ladder of the precompiles, whatever the order of the point is: the ladder
computes `r • A` for every point `A` (`ladder_r`).
-/

namespace EraPrecompiles.Bn254

open ShortWeierstrass

/-! ## Points of prime order -/

def twistGeneratorX : Fp2 :=
  ⟨10857046999023057135944570762232829481370756359578518086990519993285655852781,
    11559732032986387107991004021392285783925812861821192530917403151452391805634⟩

def twistGeneratorY : Fp2 :=
  ⟨8495653923123431417604973247489272438418190587263600148770280649306958101930,
    4082367875863433681332203403145435568316851327593401208105741076214120093531⟩

/-- A point and a number that kills it. -/
structure OrderCertificate where
  order : ℕ
  x : Fp2
  y : Fp2

/-- The point lies on the twist, and the evaluation of its multiple ends at infinity. -/
def OrderCertificate.Ok (c : OrderCertificate) : Prop :=
  g2.OnCurve c.x c.y ∧ orderCheck c.x c.y c.order = true

instance OrderCertificate.decidableOk (c : OrderCertificate) : Decidable c.Ok :=
  inferInstanceAs (Decidable (g2.OnCurve c.x c.y ∧ orderCheck c.x c.y c.order = true))

/-- A point for each prime factor of the order. -/
def twistCertificates : List OrderCertificate :=
  [⟨r, twistGeneratorX, twistGeneratorY⟩,
    ⟨10069,
      ⟨17104313122165765134751071573954397998910742057160586741504431865092530247148,
        6803298140907275052193374279696798829244532018046680484422159498316181153049⟩,
      ⟨20929228109215085641673534002875667749781168108789068628040984026599887111329,
        717535573572059415844575060885625982841398457036564749994433381333260146759⟩⟩,
    ⟨5864401,
      ⟨20645889101106370286438925125457760522647058677549836797341127250462367424039,
        2149784104381609123580174812699489683224382621154077809531433725707515094261⟩,
      ⟨17529813212395857658897576850389051027233205697208527831753181773517104250894,
        5578285626927960362468763601468850700859345365549985978139143737950496839574⟩⟩,
    ⟨1875725156269,
      ⟨8058853716569629076274007818712502768378906892694415053401140009439649350070,
        4877361461370981033921653903307716539278014387038299985567108067478413134202⟩,
      ⟨1647777483801291712152150147767693082359564321218909578197078225989425003328,
        14481208640970375014906141358159202611852827475780283461471411822832361318094⟩⟩,
    ⟨twistPrime,
      ⟨5379544293587944055125930410469985572658649554689213058510463639642319119551,
        11655412965582691416958656144298527969035951885755828283357809607099624628541⟩,
      ⟨672858070616423484233726484067405783508299040143129322659258792166490303851,
        4708129798609555730073072523138686588250107784783213608201799510208167458491⟩⟩]

theorem twistCertificates_ok : ∀ c ∈ twistCertificates, c.Ok := by
  decide +kernel

theorem twistGenerator_ok : g2.OnCurve twistGeneratorX twistGeneratorY ∧
    orderCheck twistGeneratorX twistGeneratorY r = true :=
  twistCertificates_ok ⟨r, twistGeneratorX, twistGeneratorY⟩ (List.mem_cons_self ..)

/-- A point of order `r`. -/
def twistGenerator : g2.Point :=
  g2.point twistGeneratorX twistGeneratorY twistGenerator_ok.1

theorem coords_twistGenerator : Coords twistGenerator twistGeneratorX twistGeneratorY :=
  coords_point twistGenerator_ok.1

theorem addOrderOf_twistGenerator : addOrderOf twistGenerator = r := by
  have hr : 1 < r := by decide
  exact addOrderOf_eq_prime
    (nsmul_eq_zero_of_orderCheck rfl coords_twistGenerator hr twistGenerator_ok.2)
    coords_twistGenerator.ne_zero

theorem nsmul_twistGenerator : r • twistGenerator = 0 := by
  rw [← addOrderOf_twistGenerator]
  exact addOrderOf_nsmul_eq_zero _

theorem dvd_card_of_certificate {c : OrderCertificate} (hc : c ∈ twistCertificates)
    (hprime : c.order.Prime) : c.order ∣ Nat.card g2.Point :=
  dvd_card_of_orderCheck rfl hprime (twistCertificates_ok c hc).1 (twistCertificates_ok c hc).2

/-- The orders of the points divide the number of points. -/
theorem orders_dvd_card : ∀ c ∈ twistCertificates, c.order ∣ Nat.card g2.Point := by
  intro c hc
  refine dvd_card_of_certificate hc ?_
  obtain ⟨h₁, h₂, h₃, h₄⟩ := prime_twist_factors
  simp only [twistCertificates, List.mem_cons, List.not_mem_nil, or_false] at hc
  rcases hc with rfl | rfl | rfl | rfl | rfl
  · exact prime_r.out
  · exact h₁
  · exact h₂
  · exact h₃
  · exact h₄

/-! ## The number of points -/

instance finite_twist : Finite g2.Point :=
  finite_point

theorem twistOrder_dvd_card : r * (2 * p - r) ∣ Nat.card g2.Point := by
  have h₁ : Nat.Coprime r 10069 := by decide
  have h₂ : Nat.Coprime (r * 10069) 5864401 := by decide
  have h₃ : Nat.Coprime (r * 10069 * 5864401) 1875725156269 := by decide
  have h₄ : Nat.Coprime (r * 10069 * 5864401 * 1875725156269) twistPrime := by
    decide
  have hall := orders_dvd_card
  simp only [twistCertificates, List.forall_mem_cons] at hall
  obtain ⟨hr, hq₁, hq₂, hq₃, hq₄, -⟩ := hall
  have hdvd := h₄.mul_dvd_of_dvd_of_dvd (h₃.mul_dvd_of_dvd_of_dvd
    (h₂.mul_dvd_of_dvd_of_dvd (h₁.mul_dvd_of_dvd_of_dvd hr hq₁) hq₂) hq₃) hq₄
  rw [cofactor_eq, ← mul_assoc, ← mul_assoc, ← mul_assoc]
  exact hdvd

/-- The number of points of the twist. -/
theorem card_twist : Nat.card g2.Point = r * (2 * p - r) := by
  obtain ⟨k, hk⟩ := twistOrder_dvd_card
  have hle : Nat.card g2.Point ≤ 2 * (p ^ 2 + 1) := by
    rw [← card_fp2]
    exact card_point_le
  have hbound : 2 * (p ^ 2 + 1) < 3 * (r * (2 * p - r)) := by
    decide
  have hodd := odd_card g2_y_ne_zero
  have hpos : Nat.card g2.Point ≠ 0 := Nat.card_pos.ne'
  rw [hk] at hle hodd hpos ⊢
  have hk3 : k < 3 := by
    by_contra h
    have hmul := Nat.mul_le_mul_left (r * (2 * p - r)) (not_lt.mp h)
    omega
  interval_cases k
  · rw [mul_zero] at hpos
    exact absurd rfl hpos
  · rw [mul_one]
  · exact absurd (Dvd.intro_left _ rfl) hodd

theorem nsmul_twistOrder (A : g2.Point) : (r * (2 * p - r)) • A = 0 := by
  rw [← card_twist]
  exact card_nsmul_eq_zero'

/-- The points killed by `r` are the multiples of the generator. -/
theorem exists_nsmul_twistGenerator {A : g2.Point} (hA : r • A = 0) :
    ∃ k : ℕ, A = k • twistGenerator := by
  have hcop : Nat.Coprime r (2 * p - r) := by
    decide
  have hr : 0 < r := by decide
  exact exists_nsmul_of_torsion card_twist hcop hr addOrderOf_twistGenerator hA

/-- The multiples of a point of order `r`. -/
theorem zsmul_eq_zero_iff {A : g2.Point} (hA : A ≠ 0) (hr : r • A = 0) {k : ℤ} :
    k • A = 0 ↔ (r : ℤ) ∣ k := by
  rw [← addOrderOf_dvd_iff_zsmul_eq_zero, addOrderOf_eq_prime hr hA]

/-! ## The ladder for `r` -/

/-- No prefix of `r` collides. -/
theorem r_prefix_coprime :
    ∀ j < 254, r / 2 ^ (j + 1) = 0 ∨
      Nat.Coprime (2 * (r / 2 ^ (j + 1)) - 1) (r * (2 * p - r)) := by
  decide +kernel

theorem ladder_r {A : g2.Point} (hA : A ≠ 0) : ladder A r r.size 0 = r • A := by
  have hsize : r.size ≤ 254 := Nat.size_le.mpr (by decide)
  refine ladder_size A r fun j hj _ => ?_
  exact two_nsmul_ne hA (nsmul_twistOrder A) (r_prefix_coprime j (lt_of_lt_of_le hj hsize))

/-! ## The operations of the precompiles -/

/-- The words of the generator with `z = 1`. -/
def twistGeneratorWords : (Word × Word) × (Word × Word) × (Word × Word) :=
  (encFp2 twistGeneratorX, encFp2 twistGeneratorY, (MONTGOMERY_ONE, 0))

theorem representsTwist_generator : RepresentsTwist twistGenerator twistGeneratorWords :=
  representsTwist_affine coords_twistGenerator

/-- Doubling is right for all points and representatives, addition for all pairs but those of
a finite point with itself. -/
theorem g2Jacobian_operations_iff {A B : g2.Point}
    {V W : (Word × Word) × (Word × Word) × (Word × Word)} (hV : RepresentsTwist A V)
    (hW : RepresentsTwist B W) :
    RepresentsTwist (A + A) (g2JacobianDouble V) ∧ RepresentsTwist (A + B) (g2JacobianAdd V W) ↔
      ¬(A = B ∧ A ≠ 0) := by
  rw [representsTwist_add_iff hV hW]
  exact and_iff_right (representsTwist_double hV)

/-- The generator and its double, which is finite and another point. -/
theorem g2Jacobian_operations_iff_triple :
    twistGenerator + twistGenerator ≠ 0 ∧
      RepresentsTwist (twistGenerator + twistGenerator) (g2JacobianDouble twistGeneratorWords) ∧
      RepresentsTwist (twistGenerator + (twistGenerator + twistGenerator))
        (g2JacobianAdd twistGeneratorWords (g2JacobianDouble twistGeneratorWords)) := by
  have hne := coords_twistGenerator.ne_zero
  refine ⟨g2_double_ne_zero hne, (g2Jacobian_operations_iff representsTwist_generator
    (representsTwist_double representsTwist_generator)).mpr fun h => hne ?_⟩
  exact left_eq_add.mp h.1

/-- The sum of the generator with itself is not what the addition returns. -/
theorem g2JacobianAdd_generator_self :
    RepresentsTwist twistGenerator twistGeneratorWords ∧
      ¬RepresentsTwist (twistGenerator + twistGenerator)
        (g2JacobianAdd twistGeneratorWords twistGeneratorWords) := by
  have h := representsTwist_generator
  exact ⟨h, fun hadd => (representsTwist_add_iff h h).mp hadd
    ⟨rfl, coords_twistGenerator.ne_zero⟩⟩

end EraPrecompiles.Bn254

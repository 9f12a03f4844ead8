import EraPrecompiles.Pairing.Tower

/-!
# The Frobenius maps

The functions `frobenius`, `frobeniusSquare` and `frobeniusCube` of the pairing precompile
are the powers to `p`, `p^2` and `p^3`.  The constants `g_1,i` are the powers of
`gamma = xi ^ ((p - 1) / 6)`, those of the square are `g_2,i = g_1,i * star g_1,i`, which
lie in `Fp`, and those of the cube are `g_3,i = g_1,i * g_2,i`.
-/

namespace EraPrecompiles.Pairing

open Bn254

/-! ## The program -/

def mulByGamma11 (a : Word × Word) : Word × Word :=
  let g : Word × Word :=
    (1334504125441109323775816677333762124980877086439557453392802825656291576071,
      7532670101108748540749979597679923402841328813027773483599019704565791010162)
  fp2Mul a g

def mulByGamma12 (a : Word × Word) : Word × Word :=
  let g : Word × Word :=
    (11461073415658098971834280704587444395456423268720245247603935854280982113072,
      17373957475705492831721812124331982823197004514106338927670775596783233550167)
  fp2Mul a g

def mulByGamma13 (a : Word × Word) : Word × Word :=
  let g : Word × Word :=
    (16829996427371746075450799880956928810557034522864196246648550205375670302249,
      20140510615310063345578764457068708762835443761990824243702724480509675468743)
  fp2Mul a g

def mulByGamma14 (a : Word × Word) : Word × Word :=
  let g : Word × Word :=
    (9893659366031634526915473325149983243417508801286144596494093251884139331218,
      16514792769865828027011044701859348114858257981779976519405133026725453154633)
  fp2Mul a g

def mulByGamma15 (a : Word × Word) : Word × Word :=
  let g : Word × Word :=
    (8443299194457421137480282511969901974227997168695360756777672575877693116391,
      21318636632361225103955470331868462398471880609949088574192481281746934874025)
  fp2Mul a g

def mulByGamma21 (a : Word × Word) : Word × Word :=
  let g0 :=
    1881798392815877688876180778159931906057091683336018750908411925848733129714
  fp2ScalarMul a g0

def mulByGamma22 (a : Word × Word) : Word × Word :=
  let g0 :=
    17419166386535333598783630241015674584964973961482396687585055285806960741276
  fp2ScalarMul a g0

def mulByGamma23 (a : Word × Word) : Word × Word :=
  let g0 :=
    15537367993719455909907449462855742678907882278146377936676643359958227611562
  fp2ScalarMul a g0

def mulByGamma24 (a : Word × Word) : Word × Word :=
  let g0 :=
    20006444479023397533370224967097343182639219473961804911780625968796493078869
  fp2ScalarMul a g0

def mulByGamma25 (a : Word × Word) : Word × Word :=
  let g0 :=
    4469076485303941623462775504241600503731337195815426975103982608838265467307
  fp2ScalarMul a g0

def mulByGamma31 (a : Word × Word) : Word × Word :=
  let g : Word × Word :=
    (3649295186494431467217240962842301358951278585756714214031945394966344685949,
      17372117152826387298350653207345606612066102743297871578090761045572893546809)
  fp2Mul a g

def mulByGamma32 (a : Word × Word) : Word × Word :=
  let g : Word × Word :=
    (14543349330631744552586812320441124107441202078168618766450326117520897829805,
      4646831431411403714092965637071058625728899792817054432901795759277546050476)
  fp2Mul a g

def mulByGamma33 (a : Word × Word) : Word × Word :=
  let g : Word × Word :=
    (5058246444467529146795605864300346278139276634433627416040487689269555906334,
      1747732256529211876667641288188566325860867395306999418986313414135550739840)
  fp2Mul a g

def mulByGamma34 (a : Word × Word) : Word × Word :=
  let g : Word × Word :=
    (3025265262868802913511075437173590487338001780554453930995247874855578067679,
      10425289180741305073643362413949631488281652900778689227251281048515799234257)
  fp2Mul a g

def mulByGamma35 (a : Word × Word) : Word × Word :=
  let g : Word × Word :=
    (9862576063628467829192720579684130652367741026604221989510773554027227469215,
      16681752610922605480353377694363181135019829138759259603037557916788351015335)
  fp2Mul a g

def frobenius (a : Words12) : Words12 :=
  let ((a00, a01, a02), (a10, a11, a12)) := a
  let t1 := fp2Conjugate a00
  let t2 := fp2Conjugate a10
  let t3 := fp2Conjugate a01
  let t4 := fp2Conjugate a11
  let t5 := fp2Conjugate a02
  let t6 := fp2Conjugate a12
  let t2 := mulByGamma11 t2
  let t3 := mulByGamma12 t3
  let t4 := mulByGamma13 t4
  let t5 := mulByGamma14 t5
  let t6 := mulByGamma15 t6
  ((t1, t3, t5), (t2, t4, t6))

def frobeniusSquare (a : Words12) : Words12 :=
  let ((a00, a01, a02), (a10, a11, a12)) := a
  let t1 := a00
  let t2 := mulByGamma21 a10
  let t3 := mulByGamma22 a01
  let t4 := mulByGamma23 a11
  let t5 := mulByGamma24 a02
  let t6 := mulByGamma25 a12
  ((t1, t3, t5), (t2, t4, t6))

def frobeniusCube (a : Words12) : Words12 :=
  let ((a00, a01, a02), (a10, a11, a12)) := a
  let t1 := fp2Conjugate a00
  let t2 := fp2Conjugate a10
  let t3 := fp2Conjugate a01
  let t4 := fp2Conjugate a11
  let t5 := fp2Conjugate a02
  let t6 := fp2Conjugate a12
  let t2 := mulByGamma31 t2
  let t3 := mulByGamma32 t3
  let t4 := mulByGamma33 t4
  let t5 := mulByGamma34 t5
  let t6 := mulByGamma35 t6
  ((t1, t3, t5), (t2, t4, t6))

/-! ## The constants -/

section Constants

variable (x : Fp2)

theorem fp2Mul_const {g : Word × Word} {y : Fp2} (hg : g = encFp2 y) :
    fp2Mul (encFp2 x) g = encFp2 (x * y) := by
  rw [hg, fp2Mul_enc]

theorem fp2ScalarMul_const {g : Word} {i : ℕ} (hg : g = enc (gammaNorm ^ i)) :
    fp2ScalarMul (encFp2 x) g = encFp2 (x * gamma2 ^ i) := by
  rw [hg, fp2ScalarMul_enc, gamma2_pow]

theorem mulByGamma1_enc :
    mulByGamma11 (encFp2 x) = encFp2 (x * gamma) ∧
      mulByGamma12 (encFp2 x) = encFp2 (x * gamma ^ 2) ∧
      mulByGamma13 (encFp2 x) = encFp2 (x * gamma ^ 3) ∧
      mulByGamma14 (encFp2 x) = encFp2 (x * gamma ^ 4) ∧
      mulByGamma15 (encFp2 x) = encFp2 (x * gamma ^ 5) := by
  refine ⟨fp2Mul_const x ?_, fp2Mul_const x ?_, fp2Mul_const x ?_, fp2Mul_const x ?_,
    fp2Mul_const x ?_⟩ <;> decide

theorem mulByGamma2_enc :
    mulByGamma21 (encFp2 x) = encFp2 (x * gamma2) ∧
      mulByGamma22 (encFp2 x) = encFp2 (x * gamma2 ^ 2) ∧
      mulByGamma23 (encFp2 x) = encFp2 (x * gamma2 ^ 3) ∧
      mulByGamma24 (encFp2 x) = encFp2 (x * gamma2 ^ 4) ∧
      mulByGamma25 (encFp2 x) = encFp2 (x * gamma2 ^ 5) := by
  have hone := pow_one gamma2
  refine ⟨?_, fp2ScalarMul_const x ?_, fp2ScalarMul_const x ?_, fp2ScalarMul_const x ?_,
    fp2ScalarMul_const x ?_⟩
  · rw [← hone]
    refine fp2ScalarMul_const x ?_
    decide
  all_goals decide

theorem mulByGamma3_enc :
    mulByGamma31 (encFp2 x) = encFp2 (x * (gamma * gamma2)) ∧
      mulByGamma32 (encFp2 x) = encFp2 (x * (gamma * gamma2) ^ 2) ∧
      mulByGamma33 (encFp2 x) = encFp2 (x * (gamma * gamma2) ^ 3) ∧
      mulByGamma34 (encFp2 x) = encFp2 (x * (gamma * gamma2) ^ 4) ∧
      mulByGamma35 (encFp2 x) = encFp2 (x * (gamma * gamma2) ^ 5) := by
  refine ⟨fp2Mul_const x ?_, fp2Mul_const x ?_, fp2Mul_const x ?_, fp2Mul_const x ?_,
    fp2Mul_const x ?_⟩ <;> decide

end Constants

/-! ## The maps as powers -/

section Maps

variable (z : Fp12)

theorem encFp12_weighted (g : Fp2) :
    encFp12 (weighted g z) =
      ((encFp2 z.re.c0, encFp2 (z.re.c1 * g ^ 2), encFp2 (z.re.c2 * g ^ 4)),
        (encFp2 (z.im.c0 * g), encFp2 (z.im.c1 * g ^ 3), encFp2 (z.im.c2 * g ^ 5))) :=
  rfl

theorem frobenius_enc : frobenius (encFp12 z) = encFp12 (z ^ p) := by
  show ((fp2Conjugate (encFp2 z.re.c0), mulByGamma12 (fp2Conjugate (encFp2 z.re.c1)),
      mulByGamma14 (fp2Conjugate (encFp2 z.re.c2))),
    (mulByGamma11 (fp2Conjugate (encFp2 z.im.c0)), mulByGamma13 (fp2Conjugate (encFp2 z.im.c1)),
      mulByGamma15 (fp2Conjugate (encFp2 z.im.c2)))) = _
  obtain ⟨h₁, -⟩ := mulByGamma1_enc (star z.im.c0)
  obtain ⟨-, h₂, -⟩ := mulByGamma1_enc (star z.re.c1)
  obtain ⟨-, -, h₃, -⟩ := mulByGamma1_enc (star z.im.c1)
  obtain ⟨-, -, -, h₄, -⟩ := mulByGamma1_enc (star z.re.c2)
  obtain ⟨-, -, -, -, h₅⟩ := mulByGamma1_enc (star z.im.c2)
  simp only [fp2Conjugate_enc, h₁, h₂, h₃, h₄, h₅, fp12_pow_p, encFp12_weighted, conjugated]

theorem frobeniusSquare_enc : frobeniusSquare (encFp12 z) = encFp12 (z ^ p ^ 2) := by
  show ((encFp2 z.re.c0, mulByGamma22 (encFp2 z.re.c1), mulByGamma24 (encFp2 z.re.c2)),
    (mulByGamma21 (encFp2 z.im.c0), mulByGamma23 (encFp2 z.im.c1),
      mulByGamma25 (encFp2 z.im.c2))) = _
  obtain ⟨h₁, -⟩ := mulByGamma2_enc z.im.c0
  obtain ⟨-, h₂, -⟩ := mulByGamma2_enc z.re.c1
  obtain ⟨-, -, h₃, -⟩ := mulByGamma2_enc z.im.c1
  obtain ⟨-, -, -, h₄, -⟩ := mulByGamma2_enc z.re.c2
  obtain ⟨-, -, -, -, h₅⟩ := mulByGamma2_enc z.im.c2
  rw [h₁, h₂, h₃, h₄, h₅, fp12_pow_p_sq, encFp12_weighted]

theorem frobeniusCube_enc : frobeniusCube (encFp12 z) = encFp12 (z ^ p ^ 3) := by
  show ((fp2Conjugate (encFp2 z.re.c0), mulByGamma32 (fp2Conjugate (encFp2 z.re.c1)),
      mulByGamma34 (fp2Conjugate (encFp2 z.re.c2))),
    (mulByGamma31 (fp2Conjugate (encFp2 z.im.c0)), mulByGamma33 (fp2Conjugate (encFp2 z.im.c1)),
      mulByGamma35 (fp2Conjugate (encFp2 z.im.c2)))) = _
  obtain ⟨h₁, -⟩ := mulByGamma3_enc (star z.im.c0)
  obtain ⟨-, h₂, -⟩ := mulByGamma3_enc (star z.re.c1)
  obtain ⟨-, -, h₃, -⟩ := mulByGamma3_enc (star z.im.c1)
  obtain ⟨-, -, -, h₄, -⟩ := mulByGamma3_enc (star z.re.c2)
  obtain ⟨-, -, -, -, h₅⟩ := mulByGamma3_enc (star z.im.c2)
  simp only [fp2Conjugate_enc, h₁, h₂, h₃, h₄, h₅, fp12_pow_p_cube, encFp12_weighted,
    conjugated]

/-- Repeated application. -/
theorem frobenius_iterate (k : ℕ) : frobenius^[k] (encFp12 z) = encFp12 (z ^ p ^ k) := by
  induction k with
  | zero =>
    rw [Function.iterate_zero, id, pow_zero, pow_one]
  | succ k ih =>
    rw [Function.iterate_succ_apply', ih, frobenius_enc, ← pow_mul, ← pow_succ]

end Maps

/-- A map on words that raises to a power of `p` is a ring homomorphism. -/
theorem map_ring {f : Words12 → Words12} {k : ℕ}
    (hf : ∀ z, f (encFp12 z) = encFp12 (z ^ p ^ k)) (a b : Fp12) :
    f (fp12Add (encFp12 a) (encFp12 b)) = fp12Add (f (encFp12 a)) (f (encFp12 b)) ∧
      f (fp12Mul (encFp12 a) (encFp12 b)) = fp12Mul (f (encFp12 a)) (f (encFp12 b)) ∧
      f (encFp12 1) = encFp12 1 := by
  refine ⟨?_, ?_, ?_⟩
  · rw [fp12Add_enc, hf, hf, hf, fp12Add_enc, add_pow_char_pow]
  · rw [fp12Mul_enc, hf, hf, hf, fp12Mul_enc, mul_pow]
  · rw [hf, one_pow]

/-- The Frobenius maps are the powers to `p`, `p ^ 2` and `p ^ 3`; they fit together, the
first is of order twelve, and all three are ring homomorphisms. -/
theorem frobenius_eq_pow (a b : Fp12) :
    (frobenius (encFp12 a) = encFp12 (a ^ p) ∧
      frobeniusSquare (encFp12 a) = encFp12 (a ^ p ^ 2) ∧
      frobeniusCube (encFp12 a) = encFp12 (a ^ p ^ 3)) ∧
    frobenius^[12] (encFp12 a) = encFp12 a ∧
    frobeniusSquare (encFp12 a) = frobenius (frobenius (encFp12 a)) ∧
    frobeniusCube (encFp12 a) = frobenius (frobenius (frobenius (encFp12 a))) ∧
    ∀ f ∈ [frobenius, frobeniusSquare, frobeniusCube],
      f (fp12Add (encFp12 a) (encFp12 b)) = fp12Add (f (encFp12 a)) (f (encFp12 b)) ∧
      f (fp12Mul (encFp12 a) (encFp12 b)) = fp12Mul (f (encFp12 a)) (f (encFp12 b)) ∧
      f (encFp12 1) = encFp12 1 := by
  refine ⟨⟨frobenius_enc a, frobeniusSquare_enc a, frobeniusCube_enc a⟩, ?_, ?_, ?_, ?_⟩
  · have hexp : p ^ 12 = p ^ 6 * p ^ 6 := pow_add p 6 6
    rw [frobenius_iterate, hexp, pow_mul, fp12_pow_p_six, fp12_pow_p_six, star_star]
  · exact (frobeniusSquare_enc a).trans (frobenius_iterate a 2).symm
  · exact (frobeniusCube_enc a).trans (frobenius_iterate a 3).symm
  · simp only [List.mem_cons, List.not_mem_nil, or_false, forall_eq_or_imp, forall_eq]
    refine ⟨map_ring (k := 1) (fun z => ?_) a b, map_ring frobeniusSquare_enc a b,
      map_ring frobeniusCube_enc a b⟩
    rw [pow_one, frobenius_enc]

end EraPrecompiles.Pairing

import Mathlib.Algebra.Module.Defs
import Mathlib.LinearAlgebra.Lagrange
import Mathlib.RingTheory.RootsOfUnity.PrimitiveRoots

/-!
# The equations of the proof system

A proof of the system consists of commitments, which are elements of a group `G`, and of values of
the committed polynomials, which are elements of the field `F` that acts on the group.  The
verifier draws challenges, checks one equation between values, and combines the commitments to one
pair of group elements.  These equations are stated here for any field and any group.

The names follow the comments of the contract: `sigma0Z` is the value of the polynomial `sigma_0`
at `z`, and `zPermZOmega` the value of `z_perm` at `z * omega`.
-/

namespace EraPrecompiles.Plonk

open Polynomial

/-! ## Data -/

/-- The domain and the factors that separate its cosets. -/
structure Setting (F : Type) where
  n : ℕ
  omega : F
  k0 : F
  k1 : F
  k2 : F

/-- Commitments to the polynomials of the circuit. -/
structure VerificationKey (G : Type) where
  qA : G
  qB : G
  qC : G
  qD : G
  qAB : G
  qAC : G
  qConst : G
  qDNext : G
  mainGateSelector : G
  customGateSelector : G
  sigma0 : G
  sigma1 : G
  sigma2 : G
  sigma3 : G
  lookupSelector : G
  col0 : G
  col1 : G
  col2 : G
  col3 : G
  tableType : G

/-- A public input, the commitments of the prover, and the values at `z` and at `z * omega`. -/
structure Proof (F G : Type) where
  publicInput : F
  a : G
  b : G
  c : G
  d : G
  zPerm : G
  s : G
  zLookup : G
  t0 : G
  t1 : G
  t2 : G
  t3 : G
  aZ : F
  bZ : F
  cZ : F
  dZ : F
  dZOmega : F
  mainGateSelectorZ : F
  sigma0Z : F
  sigma1Z : F
  sigma2Z : F
  zPermZOmega : F
  sZOmega : F
  zLookupZOmega : F
  tableZ : F
  tableZOmega : F
  lookupSelectorZ : F
  tableTypeZ : F
  quotientZ : F
  linearisationZ : F
  w : G
  w' : G

/-- The challenges of the verifier. -/
structure Challenges (F : Type) where
  eta : F
  beta : F
  gamma : F
  betaLookup : F
  gammaLookup : F
  alpha : F
  z : F
  v : F
  u : F

/-! ## Lagrange polynomials -/

section Field

variable {F G : Type} [Field F]

/-- The Lagrange polynomials of the domain. -/
noncomputable def Setting.lagrange (S : Setting F) (i : ℕ) : F[X] :=
  Lagrange.basis (Finset.range S.n) (fun j => S.omega ^ j) i

/-! ## The equation between values -/

variable (S : Setting F) (π : Proof F G) (ch : Challenges F)

/-- The values of the first and the last Lagrange polynomial at `z`. -/
noncomputable def l0 : F :=
  (S.lagrange 0).eval ch.z

noncomputable def lLast : F :=
  (S.lagrange (S.n - 1)).eval ch.z

/-- `z - omega^{n-1}` -/
def zMinusLastOmega : F :=
  ch.z - S.omega ^ (S.n - 1)

/-- `gamma' * (beta' + 1)` -/
def betaGamma : F :=
  (ch.betaLookup + 1) * ch.gammaLookup

noncomputable def permutationConstant : F :=
  -(ch.alpha ^ 4 * π.zPermZOmega * (π.sigma0Z * ch.beta + ch.gamma + π.aZ) *
      (π.sigma1Z * ch.beta + ch.gamma + π.bZ) * (π.sigma2Z * ch.beta + ch.gamma + π.cZ) *
      (π.dZ + ch.gamma)) -
    ch.alpha ^ 5 * l0 S ch

noncomputable def lookupConstant : F :=
  ch.alpha ^ 6 * (π.sZOmega * ch.betaLookup + betaGamma ch) * zMinusLastOmega S ch *
      π.zLookupZOmega -
    ch.alpha ^ 7 * l0 S ch - ch.alpha ^ 8 * lLast S ch * betaGamma ch ^ (S.n - 1)

/-- The constant term `r_0` of the linearisation polynomial. -/
noncomputable def linearisationConstant : F :=
  l0 S ch * π.publicInput * π.mainGateSelectorZ + permutationConstant S π ch +
    lookupConstant S π ch

/-- `t(z) * Z_H(z) = r(z) + r_0` -/
def QuotientHolds : Prop :=
  π.quotientZ * (ch.z ^ S.n - 1) = π.linearisationZ + linearisationConstant S π ch

/-! ## Combined commitments -/

variable [AddCommGroup G] [Module F G] (vk : VerificationKey G)

/-- `[t_0] + z^n * [t_1] + z^{2n} * [t_2] + z^{3n} * [t_3]` -/
def d0 : G :=
  π.t0 + ch.z ^ S.n • π.t1 + ch.z ^ (2 * S.n) • π.t2 + ch.z ^ (3 * S.n) • π.t3

def mainGate : G :=
  π.mainGateSelectorZ • (π.aZ • vk.qA + π.bZ • vk.qB + π.cZ • vk.qC + π.dZ • vk.qD +
    (π.aZ * π.bZ) • vk.qAB + (π.aZ * π.cZ) • vk.qAC + vk.qConst + π.dZOmega • vk.qDNext)

def customGate : G :=
  (ch.alpha * ((π.aZ ^ 2 - π.bZ) + (π.bZ ^ 2 - π.cZ) * ch.alpha +
    (π.aZ * π.cZ - π.dZ) * ch.alpha ^ 2)) • vk.customGateSelector

/-- The coefficient of `[z_perm]` in the linearisation. -/
noncomputable def zPermCoeff : F :=
  ch.alpha ^ 4 * ((π.aZ + ch.beta * ch.z + ch.gamma) * (π.bZ + ch.beta * ch.z * S.k0 + ch.gamma) *
      (π.cZ + ch.beta * ch.z * S.k1 + ch.gamma) * (π.dZ + ch.beta * ch.z * S.k2 + ch.gamma)) +
    ch.alpha ^ 5 * l0 S ch

/-- The coefficient of `[sigma_3]`, which is subtracted. -/
def sigma3Coeff : F :=
  ch.alpha ^ 4 * π.zPermZOmega * ch.beta * ((π.aZ + ch.beta * π.sigma0Z + ch.gamma) *
    (π.bZ + ch.beta * π.sigma1Z + ch.gamma) * (π.cZ + ch.beta * π.sigma2Z + ch.gamma))

/-- `f(z)`, from the values of the state polynomials and of the table type. -/
def lookupQueryZ : F :=
  π.lookupSelectorZ * (π.aZ + ch.eta * π.bZ + ch.eta ^ 2 * π.cZ + ch.eta ^ 3 * π.tableTypeZ)

/-- The coefficient of `[z_lookup]`. -/
noncomputable def zLookupCoeff : F :=
  -(ch.alpha ^ 6 * (1 + ch.betaLookup) * (ch.gammaLookup + lookupQueryZ π ch) *
      zMinusLastOmega S ch *
      (ch.gammaLookup * (1 + ch.betaLookup) + π.tableZ + ch.betaLookup * π.tableZOmega)) +
    ch.alpha ^ 7 * l0 S ch + ch.alpha ^ 8 * lLast S ch

/-- The coefficient of `[s]`. -/
def sCoeff : F :=
  ch.alpha ^ 6 * π.zLookupZOmega * zMinusLastOmega S ch

/-- The commitment to the linearisation polynomial without its constant term. -/
noncomputable def d1 : G :=
  mainGate π vk + customGate π ch vk + zPermCoeff S π ch • π.zPerm - sigma3Coeff π ch • vk.sigma3 +
    zLookupCoeff S π ch • π.zLookup + sCoeff S π ch • π.s

/-- `[t]`, from the columns of the table. -/
def table : G :=
  vk.col0 + ch.eta • vk.col1 + ch.eta ^ 2 • vk.col2 + ch.eta ^ 3 • vk.col3

/-! ## The aggregated opening -/

/-- The value of the aggregated polynomials. -/
def aggregatedValue : F :=
  π.quotientZ + ch.v * π.linearisationZ + ch.v ^ 2 * π.aZ + ch.v ^ 3 * π.bZ + ch.v ^ 4 * π.cZ +
    ch.v ^ 5 * π.dZ + ch.v ^ 6 * π.mainGateSelectorZ + ch.v ^ 7 * π.sigma0Z +
    ch.v ^ 8 * π.sigma1Z + ch.v ^ 9 * π.sigma2Z + ch.v ^ 10 * π.tableZ +
    ch.v ^ 11 * π.lookupSelectorZ + ch.v ^ 12 * π.tableTypeZ +
    ch.u * (ch.v ^ 13 * π.zPermZOmega + ch.v ^ 14 * π.dZOmega + ch.v ^ 15 * π.sZOmega +
      ch.v ^ 16 * π.zLookupZOmega + ch.v ^ 17 * π.tableZOmega)

/-- `[E]`, for the generator `g` of the group. -/
def commitmentE (g : G) : G :=
  aggregatedValue π ch • g

/-- `[F]` -/
noncomputable def commitmentF : G :=
  d0 S π ch + ch.v • d1 S π ch vk + ch.v ^ 2 • π.a + ch.v ^ 3 • π.b + ch.v ^ 4 • π.c +
    ch.v ^ 5 • π.d + ch.v ^ 6 • vk.mainGateSelector + ch.v ^ 7 • vk.sigma0 +
    ch.v ^ 8 • vk.sigma1 + ch.v ^ 9 • vk.sigma2 + ch.v ^ 10 • table ch vk +
    ch.v ^ 11 • vk.lookupSelector + ch.v ^ 12 • vk.tableType +
    ch.u • (ch.v ^ 13 • π.zPerm + ch.v ^ 14 • π.d + ch.v ^ 15 • π.s + ch.v ^ 16 • π.zLookup +
      ch.v ^ 17 • table ch vk)

/-- `z * [W] + u * z * omega * [W'] + [F] - [E]` -/
noncomputable def pairWithGenerator (g : G) : G :=
  ch.z • π.w + (ch.u * ch.z * S.omega) • π.w' + commitmentF S π ch vk - commitmentE π ch g

/-- `[W] + u * [W']` -/
def pairWithX : G :=
  π.w + ch.u • π.w'

end Field

end EraPrecompiles.Plonk

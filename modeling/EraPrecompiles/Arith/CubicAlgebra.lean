import Mathlib.Algebra.CharP.Algebra
import Mathlib.Algebra.QuadraticAlgebra.Basic
import Mathlib.FieldTheory.Finite.Basic
import Mathlib.Tactic.LinearCombination

/-!
# Pure cubic extensions

`CubicAlgebra R a` is `R[v] / (v^3 - a)`, with elements `c0 + c1 * v + c2 * v^2`.  It is a
field if `R` is a field in which `a` is no cube (`CubicAlgebra.instField`): an element is
inverted by its adjugate, the element `adj x` with `x * adj x = norm x`.

The last section is about the `p`-th power in characteristic `p`, in pure cubic and in
pure quadratic extensions.
-/

namespace EraPrecompiles

/-- Elements `c0 + c1 * v + c2 * v ^ 2` with `v ^ 3 = a`. -/
@[ext]
structure CubicAlgebra (R : Type*) (a : R) where
  c0 : R
  c1 : R
  c2 : R
  deriving DecidableEq

namespace CubicAlgebra

/-- The coordinates. -/
def equivProd {R : Type*} (a : R) : CubicAlgebra R a ≃ R × R × R where
  toFun x := (x.c0, x.c1, x.c2)
  invFun t := ⟨t.1, t.2.1, t.2.2⟩

section Ring

variable {R : Type*} [CommRing R] {a : R}

instance : Zero (CubicAlgebra R a) := ⟨⟨0, 0, 0⟩⟩

instance : One (CubicAlgebra R a) := ⟨⟨1, 0, 0⟩⟩

instance : Add (CubicAlgebra R a) where
  add x y := ⟨x.c0 + y.c0, x.c1 + y.c1, x.c2 + y.c2⟩

instance : Neg (CubicAlgebra R a) where
  neg x := ⟨-x.c0, -x.c1, -x.c2⟩

instance : Sub (CubicAlgebra R a) where
  sub x y := ⟨x.c0 - y.c0, x.c1 - y.c1, x.c2 - y.c2⟩

instance : Mul (CubicAlgebra R a) where
  mul x y :=
    ⟨x.c0 * y.c0 + a * (x.c1 * y.c2 + x.c2 * y.c1),
      x.c0 * y.c1 + x.c1 * y.c0 + a * (x.c2 * y.c2),
      x.c0 * y.c2 + x.c1 * y.c1 + x.c2 * y.c0⟩

instance : NatCast (CubicAlgebra R a) := ⟨fun n => ⟨n, 0, 0⟩⟩

instance : IntCast (CubicAlgebra R a) := ⟨fun n => ⟨n, 0, 0⟩⟩

instance : SMul R (CubicAlgebra R a) where
  smul s x := ⟨s * x.c0, s * x.c1, s * x.c2⟩

section Coordinates

variable (x y : CubicAlgebra R a) (s : R)

@[simp] theorem c0_zero : (0 : CubicAlgebra R a).c0 = 0 := rfl
@[simp] theorem c1_zero : (0 : CubicAlgebra R a).c1 = 0 := rfl
@[simp] theorem c2_zero : (0 : CubicAlgebra R a).c2 = 0 := rfl

@[simp] theorem c0_one : (1 : CubicAlgebra R a).c0 = 1 := rfl
@[simp] theorem c1_one : (1 : CubicAlgebra R a).c1 = 0 := rfl
@[simp] theorem c2_one : (1 : CubicAlgebra R a).c2 = 0 := rfl

@[simp] theorem c0_add : (x + y).c0 = x.c0 + y.c0 := rfl
@[simp] theorem c1_add : (x + y).c1 = x.c1 + y.c1 := rfl
@[simp] theorem c2_add : (x + y).c2 = x.c2 + y.c2 := rfl

@[simp] theorem c0_neg : (-x).c0 = -x.c0 := rfl
@[simp] theorem c1_neg : (-x).c1 = -x.c1 := rfl
@[simp] theorem c2_neg : (-x).c2 = -x.c2 := rfl

@[simp] theorem c0_sub : (x - y).c0 = x.c0 - y.c0 := rfl
@[simp] theorem c1_sub : (x - y).c1 = x.c1 - y.c1 := rfl
@[simp] theorem c2_sub : (x - y).c2 = x.c2 - y.c2 := rfl

@[simp] theorem c0_mul :
    (x * y).c0 = x.c0 * y.c0 + a * (x.c1 * y.c2 + x.c2 * y.c1) := rfl
@[simp] theorem c1_mul :
    (x * y).c1 = x.c0 * y.c1 + x.c1 * y.c0 + a * (x.c2 * y.c2) := rfl
@[simp] theorem c2_mul :
    (x * y).c2 = x.c0 * y.c2 + x.c1 * y.c1 + x.c2 * y.c0 := rfl

@[simp] theorem c0_natCast (n : ℕ) : (n : CubicAlgebra R a).c0 = n := rfl
@[simp] theorem c1_natCast (n : ℕ) : (n : CubicAlgebra R a).c1 = 0 := rfl
@[simp] theorem c2_natCast (n : ℕ) : (n : CubicAlgebra R a).c2 = 0 := rfl

@[simp] theorem c0_intCast (n : ℤ) : (n : CubicAlgebra R a).c0 = n := rfl
@[simp] theorem c1_intCast (n : ℤ) : (n : CubicAlgebra R a).c1 = 0 := rfl
@[simp] theorem c2_intCast (n : ℤ) : (n : CubicAlgebra R a).c2 = 0 := rfl

@[simp] theorem c0_smul : (s • x).c0 = s * x.c0 := rfl
@[simp] theorem c1_smul : (s • x).c1 = s * x.c1 := rfl
@[simp] theorem c2_smul : (s • x).c2 = s * x.c2 := rfl

end Coordinates

instance instCommRing : CommRing (CubicAlgebra R a) where
  add_assoc x y z := by ext <;> exact add_assoc _ _ _
  zero_add x := by ext <;> exact zero_add _
  add_zero x := by ext <;> exact add_zero _
  add_comm x y := by ext <;> exact add_comm _ _
  neg_add_cancel x := by ext <;> exact neg_add_cancel _
  sub_eq_add_neg x y := by ext <;> exact sub_eq_add_neg _ _
  nsmul := nsmulRec
  zsmul := zsmulRec
  natCast_zero := by ext <;> simp
  natCast_succ n := by ext <;> simp
  intCast_ofNat n := by ext <;> simp
  intCast_negSucc n := by
    ext
    · simp [Int.negSucc_eq]
    · simp
    · simp
  mul_assoc x y z := by ext <;> simp <;> ring
  mul_comm x y := by ext <;> simp <;> ring
  one_mul x := by ext <;> simp
  mul_one x := by ext <;> simp
  zero_mul x := by ext <;> simp
  mul_zero x := by ext <;> simp
  left_distrib x y z := by ext <;> simp <;> ring
  right_distrib x y z := by ext <;> simp <;> ring

instance instAlgebra : Algebra R (CubicAlgebra R a) where
  algebraMap :=
    { toFun := fun s => ⟨s, 0, 0⟩
      map_one' := rfl
      map_zero' := rfl
      map_add' := fun s t => by ext <;> simp
      map_mul' := fun s t => by ext <;> simp }
  commutes' s x := mul_comm _ _
  smul_def' s x := by
    ext
    · show s * x.c0 = s * x.c0 + a * (0 * x.c2 + 0 * x.c1)
      ring
    · show s * x.c1 = s * x.c1 + 0 * x.c0 + a * (0 * x.c2)
      ring
    · show s * x.c2 = s * x.c2 + 0 * x.c1 + 0 * x.c0
      ring

theorem algebraMap_eq (s : R) : algebraMap R (CubicAlgebra R a) s = ⟨s, 0, 0⟩ :=
  rfl

theorem algebraMap_injective : Function.Injective (algebraMap R (CubicAlgebra R a)) :=
  fun _ _ h => congrArg c0 h

/-- The generator. -/
def gen : CubicAlgebra R a := ⟨0, 1, 0⟩

@[simp] theorem c0_gen : (gen : CubicAlgebra R a).c0 = 0 := rfl
@[simp] theorem c1_gen : (gen : CubicAlgebra R a).c1 = 1 := rfl
@[simp] theorem c2_gen : (gen : CubicAlgebra R a).c2 = 0 := rfl

theorem gen_sq : (gen : CubicAlgebra R a) ^ 2 = ⟨0, 0, 1⟩ := by
  rw [sq]
  ext <;> simp

theorem gen_cube : (gen : CubicAlgebra R a) ^ 3 = algebraMap R _ a := by
  rw [pow_succ, gen_sq, algebraMap_eq]
  ext <;> simp

/-- An element in the basis of the powers of the generator. -/
theorem eq_sum (x : CubicAlgebra R a) :
    x = algebraMap R _ x.c0 + algebraMap R _ x.c1 * gen + algebraMap R _ x.c2 * gen ^ 2 := by
  rw [gen_sq]
  ext <;> simp [algebraMap_eq]

/-! ## Norm and inverse -/

/-- The determinant of the multiplication by `x`. -/
def norm (x : CubicAlgebra R a) : R :=
  x.c0 * (x.c0 ^ 2 - a * (x.c1 * x.c2)) + a * (x.c2 * (a * x.c2 ^ 2 - x.c0 * x.c1)) +
    a * (x.c1 * (x.c1 ^ 2 - x.c0 * x.c2))

/-- The element whose product with `x` is the norm. -/
def adj (x : CubicAlgebra R a) : CubicAlgebra R a :=
  ⟨x.c0 ^ 2 - a * (x.c1 * x.c2), a * x.c2 ^ 2 - x.c0 * x.c1, x.c1 ^ 2 - x.c0 * x.c2⟩

theorem mul_adj (x : CubicAlgebra R a) : x * adj x = algebraMap R _ (norm x) := by
  rw [algebraMap_eq]
  ext <;> simp [adj, norm] <;> ring

theorem adj_adj (x : CubicAlgebra R a) : adj (adj x) = norm x • x := by
  ext <;> simp [adj, norm] <;> ring

theorem norm_mul (x y : CubicAlgebra R a) : norm (x * y) = norm x * norm y := by
  simp only [norm, c0_mul, c1_mul, c2_mul]
  ring

end Ring

section Field

variable {F : Type*} [Field F] {a : F} [Fact (∀ s : F, s ^ 3 ≠ a)]

theorem eq_zero_of_adj {x : CubicAlgebra F a} (h : adj x = 0) : x = 0 := by
  have h₀ : x.c0 ^ 2 - a * (x.c1 * x.c2) = 0 := congrArg c0 h
  have h₁ : a * x.c2 ^ 2 - x.c0 * x.c1 = 0 := congrArg c1 h
  have h₂ : x.c1 ^ 2 - x.c0 * x.c2 = 0 := congrArg c2 h
  have hc2 : x.c2 = 0 := by
    by_contra hne
    have hcube : (x.c1 / x.c2) ^ 3 = a := by
      rw [div_pow, div_eq_iff (pow_ne_zero 3 hne)]
      linear_combination x.c1 * h₂ - x.c2 * h₁
    exact (Fact.out : ∀ s : F, s ^ 3 ≠ a) _ hcube
  rw [hc2, mul_zero, mul_zero, sub_zero] at h₀
  rw [hc2, mul_zero, sub_zero] at h₂
  exact CubicAlgebra.ext (eq_zero_of_pow_eq_zero h₀) (eq_zero_of_pow_eq_zero h₂) hc2

theorem norm_ne_zero {x : CubicAlgebra F a} (hx : x ≠ 0) : norm x ≠ 0 := by
  intro hzero
  have hadj : adj (adj x) = 0 := by
    rw [adj_adj, hzero]
    ext <;> simp
  exact hx (eq_zero_of_adj (eq_zero_of_adj hadj))

instance : Nontrivial (CubicAlgebra F a) :=
  ⟨0, 1, fun h => zero_ne_one (congrArg c0 h)⟩

instance : Inv (CubicAlgebra F a) where
  inv x := ⟨(adj x).c0 * (norm x)⁻¹, (adj x).c1 * (norm x)⁻¹, (adj x).c2 * (norm x)⁻¹⟩

omit [Fact (∀ s : F, s ^ 3 ≠ a)] in
theorem inv_def (x : CubicAlgebra F a) :
    x⁻¹ = ⟨(adj x).c0 * (norm x)⁻¹, (adj x).c1 * (norm x)⁻¹, (adj x).c2 * (norm x)⁻¹⟩ :=
  rfl

omit [Fact (∀ s : F, s ^ 3 ≠ a)] in
theorem inv_eq_mul (x : CubicAlgebra F a) :
    x⁻¹ = adj x * algebraMap F _ (norm x)⁻¹ := by
  rw [inv_def, algebraMap_eq]
  ext <;> simp

instance instField : Field (CubicAlgebra F a) where
  mul_inv_cancel x hx := by
    rw [inv_eq_mul, ← mul_assoc, mul_adj, ← map_mul, mul_inv_cancel₀ (norm_ne_zero hx), map_one]
  inv_zero := by
    rw [inv_eq_mul]
    have hnorm : norm (0 : CubicAlgebra F a) = 0 := by simp [norm]
    rw [hnorm, inv_zero, map_zero, mul_zero]
  nnqsmul := _
  nnqsmul_def := fun _ _ => rfl
  qsmul := _
  qsmul_def := fun _ _ => rfl

end Field

/-! ## Powers in characteristic `q` -/

section Char

variable {R : Type*} [CommRing R] {a : R} {q : ℕ} [Fact q.Prime] [CharP R q]

instance instCharP : CharP (CubicAlgebra R a) q :=
  charP_of_injective_algebraMap algebraMap_injective q

omit [Fact q.Prime] [CharP R q] in
theorem gen_pow {k : ℕ} (hk : q = 3 * k + 1) :
    (gen : CubicAlgebra R a) ^ q = algebraMap R _ (a ^ k) * gen := by
  rw [hk, pow_succ, pow_mul, gen_cube, map_pow]

/-- The `q`-th power, coordinate by coordinate. -/
theorem pow_char {k : ℕ} (hk : q = 3 * k + 1) (x : CubicAlgebra R a) :
    x ^ q = ⟨x.c0 ^ q, x.c1 ^ q * a ^ k, x.c2 ^ q * (a ^ k) ^ 2⟩ := by
  have hsum := congrArg (· ^ q) (eq_sum x)
  rw [hsum, add_pow_char, add_pow_char, mul_pow, mul_pow, pow_right_comm gen 2 q, gen_pow hk,
    mul_pow, gen_sq, ← map_pow, ← map_pow, ← map_pow, ← map_pow]
  ext <;> simp [algebraMap_eq]

end Char

end CubicAlgebra

/-- The `q`-th power in a pure quadratic extension, coordinate by coordinate. -/
theorem quadratic_pow_char {R : Type*} [CommRing R] {a : R} {q : ℕ} [Fact q.Prime]
    [CharP R q] {k : ℕ} (hk : q = 2 * k + 1) (z : QuadraticAlgebra R a 0) :
    z ^ q = ⟨z.re ^ q, z.im ^ q * a ^ k⟩ := by
  have hchar : CharP (QuadraticAlgebra R a 0) q :=
    charP_of_injective_algebraMap QuadraticAlgebra.algebraMap_injective q
  have hsum : z = algebraMap R _ z.re + algebraMap R _ z.im * QuadraticAlgebra.omega := by
    ext <;> simp [QuadraticAlgebra.algebraMap_eq]
  have homega : (QuadraticAlgebra.omega : QuadraticAlgebra R a 0) ^ q =
      algebraMap R _ (a ^ k) * QuadraticAlgebra.omega := by
    have hsq : (QuadraticAlgebra.omega : QuadraticAlgebra R a 0) ^ 2 = algebraMap R _ a := by
      rw [sq]
      ext <;> simp [QuadraticAlgebra.algebraMap_eq]
    rw [hk, pow_succ, pow_mul, hsq, map_pow]
  have hpow := congrArg (· ^ q) hsum
  rw [hpow, add_pow_char, mul_pow, homega, ← map_pow, ← map_pow]
  ext <;> simp [QuadraticAlgebra.algebraMap_eq]

end EraPrecompiles

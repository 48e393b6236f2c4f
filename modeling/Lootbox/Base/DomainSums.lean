import Lootbox.Base.EvaluationDomain

/-!
# Sums over an evaluation domain

The sum of a polynomial over the domain reads its coefficients at the multiples of the size.
Interpolated values are read outside of the domain by the barycentric formula.
-/

namespace Lootbox

namespace EvaluationDomain

open Polynomial

variable {F : Type} [Field F] (domain : EvaluationDomain F)

def sumOver (f : F → F) : F := (domain.elements.map f).sum

theorem sumOver_eq (f : F → F) :
    domain.sumOver f = ∑ i ∈ Finset.range domain.size, f (domain.element i) := by
  rw [sumOver, elements, List.map_map]
  rfl

theorem sumOver_congr {f g : F → F} (h : ∀ x ∈ domain.elements, f x = g x) :
    domain.sumOver f = domain.sumOver g := by
  rw [sumOver, sumOver, List.map_congr_left h]

theorem sumOver_add (f g : F → F) :
    domain.sumOver (fun x => f x + g x) = domain.sumOver f + domain.sumOver g := by
  rw [sumOver_eq, sumOver_eq, sumOver_eq, Finset.sum_add_distrib]

theorem sumOver_mul (c : F) (f : F → F) :
    domain.sumOver (fun x => c * f x) = c * domain.sumOver f := by
  rw [sumOver_eq, sumOver_eq, Finset.mul_sum]

/-! ### Powers -/

omit domain in
theorem natDegree_lt_of_degree_lt {p : F[X]} {n : Nat} (hn : 0 < n) (h : p.degree < n) :
    p.natDegree < n := by
  by_cases hp : p = 0
  · rw [hp, natDegree_zero]
    exact hn
  · exact (natDegree_lt_iff_degree_lt hp).mpr h

/-- The powers of the elements cancel unless the exponent is a multiple of the size. -/
theorem sumOver_pow (k : Nat) :
    domain.sumOver (· ^ k) = if domain.size ∣ k then (domain.size : F) else 0 := by
  have hterm : ∀ i, domain.element i ^ k = (domain.groupGen ^ k) ^ i := by
    intro i
    rw [element, ← pow_mul, ← pow_mul, mul_comm]
  rw [sumOver_eq]
  simp only [hterm]
  by_cases hdvd : domain.size ∣ k
  · rw [if_pos hdvd, (domain.primitive.pow_eq_one_iff_dvd k).mpr hdvd]
    simp
  · rw [if_neg hdvd]
    have hne : domain.groupGen ^ k - 1 ≠ 0 := by
      intro hzero
      exact hdvd ((domain.primitive.pow_eq_one_iff_dvd k).mp (sub_eq_zero.mp hzero))
    have hgeom := mul_geom_sum (domain.groupGen ^ k) domain.size
    rw [← pow_mul, mul_comm k, pow_mul, domain.primitive.pow_eq_one, one_pow, sub_self] at hgeom
    exact (mul_eq_zero.mp hgeom).resolve_left hne

theorem sumOver_eval (p : F[X]) {n : Nat} (hn : p.natDegree < n) :
    domain.sumOver (fun x => p.eval x) =
      ∑ k ∈ Finset.range n, p.coeff k * if domain.size ∣ k then (domain.size : F) else 0 := by
  have hexpand : ∀ x, p.eval x = ∑ k ∈ Finset.range n, p.coeff k * x ^ k :=
    fun x => Polynomial.eval_eq_sum_range' hn x
  rw [sumOver_eq]
  simp only [hexpand]
  rw [Finset.sum_comm]
  apply Finset.sum_congr rfl
  intro k _
  rw [← Finset.mul_sum, ← domain.sumOver_eq (· ^ k), sumOver_pow]

theorem sumOver_of_natDegree_lt {p : F[X]} (hp : p.natDegree < domain.size) :
    domain.sumOver (fun x => p.eval x) = domain.size * p.coeff 0 := by
  rw [domain.sumOver_eval p hp, Finset.sum_eq_single 0]
  · rw [if_pos (dvd_zero _), mul_comm]
  · intro k hk hne
    have hlt := Finset.mem_range.mp hk
    rw [if_neg (fun hdvd => absurd (Nat.le_of_dvd (by omega) hdvd) (by omega)), mul_zero]
  · intro hout
    exact absurd (Finset.mem_range.mpr domain.size_pos) hout

/-- The coefficients at the multiples of the size, for a polynomial with `m` of them. -/
theorem sumOver_eval_multiples (p : F[X]) {m : Nat} (hm : p.natDegree < domain.size * m) :
    domain.sumOver (fun x => p.eval x) =
      domain.size * ∑ i ∈ Finset.range m, p.coeff (domain.size * i) := by
  have hsum : ∀ m, ∑ k ∈ Finset.range (domain.size * m),
      (p.coeff k * if domain.size ∣ k then (domain.size : F) else 0) =
      domain.size * ∑ i ∈ Finset.range m, p.coeff (domain.size * i) := by
    intro m
    induction m with
    | zero => simp
    | succ m ih =>
      have hblock : ∑ k ∈ Finset.range domain.size, (p.coeff (domain.size * m + k) *
          if domain.size ∣ domain.size * m + k then (domain.size : F) else 0) =
          domain.size * p.coeff (domain.size * m) := by
        rw [Finset.sum_eq_single 0]
        · rw [add_zero, if_pos (dvd_mul_right _ _), mul_comm]
        · intro k hk hne
          have hlt := Finset.mem_range.mp hk
          have hnot : ¬ domain.size ∣ domain.size * m + k := by
            rw [Nat.dvd_add_right (dvd_mul_right _ _)]
            exact fun hdvd => absurd (Nat.le_of_dvd (by omega) hdvd) (by omega)
          rw [if_neg hnot, mul_zero]
        · intro hout
          exact absurd (Finset.mem_range.mpr domain.size_pos) hout
      rw [Nat.mul_succ, Finset.sum_range_add, ih, hblock, Finset.sum_range_succ, mul_add]
  rw [domain.sumOver_eval p hm, hsum]

theorem degree_vanishingPolynomial :
    domain.vanishingPolynomial.toPoly.degree = domain.size := by
  rw [toPoly_vanishingPolynomial, ← C_1]
  exact degree_X_pow_sub_C domain.size_pos 1

theorem length_vanishingPolynomial :
    domain.vanishingPolynomial.coeffs.length = domain.size + 1 :=
  domain.trimmed_vanishingPolynomial.length_eq domain.degree_vanishingPolynomial

theorem length_quotient_le [DecidableEq F] (p : DensePolynomial F) :
    (p.divideWithQAndR domain.vanishingPolynomial).1.coeffs.length ≤
      p.coeffs.length - domain.size := by
  have hle := DensePolynomial.length_quotient_le domain.trimmed_vanishingPolynomial
    domain.vanishingPolynomial_length_pos p
  rw [domain.length_vanishingPolynomial] at hle
  omega

theorem length_remainder_le [DecidableEq F] (p : DensePolynomial F) :
    (p.divideWithQAndR domain.vanishingPolynomial).2.coeffs.length ≤ domain.size := by
  apply (DensePolynomial.divideWithQAndR_trimmed _ _).2.length_le
  have hlt := (DensePolynomial.divideWithQAndR_spec domain.trimmed_vanishingPolynomial
    domain.vanishingPolynomial_length_pos p).2
  rw [domain.degree_vanishingPolynomial] at hlt
  exact hlt

theorem sumOver_eq_remainder [DecidableEq F] (p : DensePolynomial F) :
    domain.sumOver p.evaluate =
      domain.size * (p.divideWithQAndR domain.vanishingPolynomial).2.toPoly.coeff 0 := by
  obtain ⟨heq, hlt⟩ := DensePolynomial.divideWithQAndR_spec domain.trimmed_vanishingPolynomial
    domain.vanishingPolynomial_length_pos p
  have hdegree : (p.divideWithQAndR domain.vanishingPolynomial).2.toPoly.natDegree < domain.size := by
    rw [domain.degree_vanishingPolynomial] at hlt
    exact natDegree_lt_of_degree_lt domain.size_pos hlt
  rw [← domain.sumOver_of_natDegree_lt hdegree]
  apply domain.sumOver_congr
  intro x hx
  have hvalue := congrArg (Polynomial.eval x) heq
  rw [eval_add, eval_mul, DensePolynomial.eval_toPoly domain.vanishingPolynomial,
    domain.evaluate_vanishingPolynomial, domain.evaluateVanishingPolynomial_eq_zero.mpr hx, mul_zero,
    zero_add, DensePolynomial.eval_toPoly p] at hvalue
  exact hvalue.symm

/-! ### Interpolation outside of the domain -/

theorem toPoly_interpolate [DecidableEq F] (evals : List F) :
    (domain.interpolate evals).toPoly =
      (⟨domain.ifft evals⟩ : DensePolynomial F).toPoly := by
  rw [interpolate, DensePolynomial.toPoly_fromCoefficientsVec]
  rfl

theorem length_ifft (evals : List F) : (domain.ifft evals).length = domain.size := by
  rw [ifft, List.length_map, List.length_range]

theorem degree_interpolate_lt [DecidableEq F] (evals : List F) :
    (domain.interpolate evals).toPoly.degree < domain.size := by
  have hdegree := DensePolynomial.degree_toPoly_lt ⟨domain.ifft evals⟩
  rw [toPoly_interpolate]
  simpa only [length_ifft] using hdegree

theorem eq_of_eval_eq {p q : F[X]} (hp : p.degree < domain.size) (hq : q.degree < domain.size)
    (h : ∀ x ∈ domain.elements, p.eval x = q.eval x) : p = q := by
  have hdvd : domain.vanishingPolynomial.toPoly ∣ p - q := by
    apply domain.vanishingPolynomial_dvd
    intro x hx
    rw [eval_sub, h x hx, sub_self]
  have hzero := eq_zero_of_dvd_of_degree_lt hdvd (by
    rw [domain.degree_vanishingPolynomial]
    exact lt_of_le_of_lt (degree_sub_le p q) (max_lt hp hq))
  exact sub_eq_zero.mp hzero

omit domain in
theorem geom_sum_div {x y : F} (hx : x ≠ 0) (hxy : y ≠ x) (n : Nat) (hn : x ^ n = 1) :
    ∑ j ∈ Finset.range n, (y * x⁻¹) ^ j = x * (y ^ n - 1) / (y - x) := by
  have hsub : y - x ≠ 0 := sub_ne_zero.mpr hxy
  have hgeom := geom_sum_mul (y * x⁻¹) n
  rw [mul_pow, inv_pow, hn, inv_one, mul_one] at hgeom
  rw [eq_div_iff hsub, ← hgeom]
  field_simp

theorem evaluate_interpolate_outside [DecidableEq F] (evals : List F) {y : F}
    (hy : y ∉ domain.elements) :
    (domain.interpolate evals).evaluate y = ∑ i ∈ Finset.range domain.size,
      evals.getD i 0 * (domain.element i * domain.evaluateVanishingPolynomial y /
        (domain.size * (y - domain.element i))) := by
  have hcoeff : ∀ j ∈ Finset.range domain.size, (domain.ifft evals).getD j 0 =
      (domain.size : F)⁻¹ * ∑ i ∈ Finset.range domain.size,
        evals.getD i 0 * (domain.groupGen⁻¹) ^ (i * j) := by
    intro j hj
    have hj' : j < (domain.ifft evals).length := by
      rw [length_ifft]
      exact Finset.mem_range.mp hj
    rw [List.getD_eq_getElem _ _ hj']
    simp only [ifft, List.getElem_map, List.getElem_range]
    congr 1
    apply Finset.sum_congr rfl
    intro i hi
    rw [resize_getD_of_lt (Finset.mem_range.mp hi)]
  have hterm : ∀ j i : Nat, (domain.groupGen⁻¹) ^ (i * j) * y ^ j =
      (y * (domain.element i)⁻¹) ^ j := by
    intro j i
    rw [pow_mul, ← mul_pow, element, inv_pow, mul_comm]
  rw [← DensePolynomial.eval_toPoly, toPoly_interpolate, DensePolynomial.toPoly,
    eval_ofCoeffs_eq_sum, length_ifft]
  calc ∑ j ∈ Finset.range domain.size, (domain.ifft evals).getD j 0 * y ^ j
      = ∑ j ∈ Finset.range domain.size, ∑ i ∈ Finset.range domain.size,
          (domain.size : F)⁻¹ * evals.getD i 0 * (y * (domain.element i)⁻¹) ^ j := by
        apply Finset.sum_congr rfl
        intro j hj
        rw [hcoeff j hj, Finset.mul_sum, Finset.sum_mul]
        apply Finset.sum_congr rfl
        intro i _
        rw [← hterm j i]
        ring
    _ = ∑ i ∈ Finset.range domain.size, (domain.size : F)⁻¹ * evals.getD i 0 *
          (domain.element i * (y ^ domain.size - 1) / (y - domain.element i)) := by
        rw [Finset.sum_comm]
        apply Finset.sum_congr rfl
        intro i _
        have hne : y ≠ domain.element i := fun heq => hy (heq ▸ domain.element_mem i)
        have hzero : domain.element i ≠ 0 := pow_ne_zero i domain.groupGen_ne_zero
        rw [← Finset.mul_sum, geom_sum_div hzero hne _ (domain.element_pow_size i)]
    _ = _ := by
        apply Finset.sum_congr rfl
        intro i _
        rw [evaluateVanishingPolynomial, div_eq_mul_inv, div_eq_mul_inv, mul_inv]
        ring

/-! ### The kernel of the sum check -/

/-- `(v(x) - v(X)) / (x - X)` -/
noncomputable def lagrangeKernel (x : F) : F[X] :=
  ∑ k ∈ Finset.range domain.size, C (x ^ (domain.size - 1 - k)) * X ^ k

theorem eval_lagrangeKernel_mul (x y : F) :
    (domain.lagrangeKernel x).eval y * (x - y) =
      domain.evaluateVanishingPolynomial x - domain.evaluateVanishingPolynomial y := by
  have hgeom := geom_sum₂_mul y x domain.size
  have heval : (domain.lagrangeKernel x).eval y =
      ∑ k ∈ Finset.range domain.size, y ^ k * x ^ (domain.size - 1 - k) := by
    rw [lagrangeKernel, eval_finsetSum]
    apply Finset.sum_congr rfl
    intro k _
    rw [eval_mul, eval_C, eval_pow, eval_X, mul_comm]
  rw [heval, evaluateVanishingPolynomial, evaluateVanishingPolynomial]
  linear_combination -hgeom

theorem eval_lagrangeKernel_self (x : F) :
    (domain.lagrangeKernel x).eval x = domain.size * x ^ (domain.size - 1) := by
  rw [lagrangeKernel, eval_finsetSum]
  have hterm : ∀ k ∈ Finset.range domain.size,
      (C (x ^ (domain.size - 1 - k)) * X ^ k).eval x = x ^ (domain.size - 1) := by
    intro k hk
    have := Finset.mem_range.mp hk
    rw [eval_mul, eval_C, eval_pow, eval_X, ← pow_add]
    congr 1
    omega
  rw [Finset.sum_congr rfl hterm, Finset.sum_const, Finset.card_range, nsmul_eq_mul]

theorem degree_lagrangeKernel_lt (x : F) : (domain.lagrangeKernel x).degree < domain.size := by
  apply lt_of_le_of_lt (degree_sum_le _ _)
  rw [Finset.sup_lt_iff (WithBot.bot_lt_coe _)]
  intro k hk
  apply lt_of_le_of_lt (degree_C_mul_X_pow_le k _)
  exact_mod_cast Finset.mem_range.mp hk

theorem toPoly_interpolate_kernel [DecidableEq F] {x : F} (hx : x ∉ domain.elements) :
    (domain.interpolate (domain.elements.map fun y =>
      (x - y)⁻¹ * domain.evaluateVanishingPolynomial x)).toPoly = domain.lagrangeKernel x := by
  apply domain.eq_of_eval_eq (domain.degree_interpolate_lt _) (domain.degree_lagrangeKernel_lt x)
  intro y hy
  have hne : x - y ≠ 0 := sub_ne_zero.mpr fun heq => hx (heq ▸ hy)
  have hkernel := domain.eval_lagrangeKernel_mul x y
  rw [domain.evaluateVanishingPolynomial_eq_zero.mpr hy, sub_zero] at hkernel
  rw [DensePolynomial.eval_toPoly, domain.evaluate_interpolate_map _ hy, ← hkernel,
    mul_comm _ (x - y), inv_mul_cancel_left₀ hne]

end EvaluationDomain

end Lootbox

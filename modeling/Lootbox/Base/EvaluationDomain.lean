import Mathlib
import Lootbox.Base.DensePolynomial

/-!
# Evaluation domains

The cyclic subgroup of the nonzero elements of a field that a primitive root of unity
generates, with its vanishing polynomial `X ^ size - 1`.
-/

namespace Lootbox

structure EvaluationDomain (F : Type) [Field F] where
  size : Nat
  groupGen : F
  size_pos : 0 < size
  primitive : IsPrimitiveRoot groupGen size

namespace EvaluationDomain

open Polynomial

variable {F : Type} [Field F]

def element (domain : EvaluationDomain F) (i : Nat) : F := domain.groupGen ^ i

def elements (domain : EvaluationDomain F) : List F := (List.range domain.size).map domain.element

def evaluateVanishingPolynomial (domain : EvaluationDomain F) (tau : F) : F :=
  tau ^ domain.size - 1

def vanishingPolynomial (domain : EvaluationDomain F) : DensePolynomial F :=
  ⟨-1 :: (List.replicate (domain.size - 1) 0 ++ [1])⟩

section Vanishing

variable (domain : EvaluationDomain F)

theorem element_pow_size (i : Nat) : domain.element i ^ domain.size = 1 := by
  rw [element, ← pow_mul, mul_comm, pow_mul, domain.primitive.pow_eq_one, one_pow]

theorem mem_elements {x : F} : x ∈ domain.elements ↔ x ^ domain.size = 1 := by
  constructor
  · intro hx
    obtain ⟨i, _, rfl⟩ := List.mem_map.mp hx
    exact domain.element_pow_size i
  · intro hx
    have : NeZero domain.size := ⟨domain.size_pos.ne'⟩
    obtain ⟨i, hi, rfl⟩ := domain.primitive.eq_pow_of_pow_eq_one hx
    exact List.mem_map.mpr ⟨i, List.mem_range.mpr hi, rfl⟩

theorem element_mem (i : Nat) : domain.element i ∈ domain.elements :=
  domain.mem_elements.mpr (domain.element_pow_size i)

theorem one_mem : 1 ∈ domain.elements := domain.mem_elements.mpr (one_pow _)

theorem evaluateVanishingPolynomial_eq_zero {x : F} :
    domain.evaluateVanishingPolynomial x = 0 ↔ x ∈ domain.elements := by
  rw [domain.mem_elements, evaluateVanishingPolynomial, sub_eq_zero]

theorem element_injective {i j : Nat} (hi : i < domain.size) (hj : j < domain.size)
    (h : domain.element i = domain.element j) : i = j :=
  domain.primitive.pow_inj hi hj h

theorem toPoly_vanishingPolynomial :
    domain.vanishingPolynomial.toPoly = X ^ domain.size - 1 := by
  have hones : ∀ n : Nat,
      DensePolynomial.ofCoeffs (List.replicate n (0 : F) ++ [1]) = X ^ n := by
    intro n
    induction n with
    | zero => simp
    | succ n ih =>
      rw [List.replicate_succ, List.cons_append, DensePolynomial.ofCoeffs_cons, ih, C_0, pow_succ]
      ring
  have hsize : domain.size = domain.size - 1 + 1 := (Nat.sub_add_cancel domain.size_pos).symm
  rw [vanishingPolynomial, DensePolynomial.toPoly, DensePolynomial.ofCoeffs_cons, hones, C_neg, C_1]
  conv_rhs => rw [hsize, pow_succ]
  ring

theorem evaluate_vanishingPolynomial (x : F) :
    domain.vanishingPolynomial.evaluate x = domain.evaluateVanishingPolynomial x := by
  rw [← DensePolynomial.eval_toPoly, toPoly_vanishingPolynomial, evaluateVanishingPolynomial]
  simp

theorem trimmed_vanishingPolynomial : domain.vanishingPolynomial.Trimmed := by
  rw [DensePolynomial.Trimmed, vanishingPolynomial, ← List.cons_append, List.getLast?_concat]
  simp

theorem vanishingPolynomial_length_pos : 0 < domain.vanishingPolynomial.coeffs.length :=
  Nat.zero_lt_succ _

theorem vanishingPolynomial_dvd {p : F[X]} (h : ∀ x ∈ domain.elements, p.eval x = 0) :
    domain.vanishingPolynomial.toPoly ∣ p := by
  rw [toPoly_vanishingPolynomial, X_pow_sub_one_eq_prod domain.size_pos domain.primitive]
  apply Finset.prod_dvd_of_coprime
  · intro x _ y _ hxy
    exact pairwise_coprime_X_sub_C Function.injective_id hxy
  · intro x hx
    rw [dvd_iff_isRoot]
    exact h x (domain.mem_elements.mpr ((mem_nthRootsFinset domain.size_pos (1 : F)).mp hx))

end Vanishing

/-! ### Interpolation -/

section Interpolation

variable (domain : EvaluationDomain F)

/-- `Vec::resize` with zeros. -/
def resize (n : Nat) (evals : List F) : List F := (evals ++ List.replicate n 0).take n

def ifft (evals : List F) : List F :=
  (List.range domain.size).map fun j => (domain.size : F)⁻¹ *
    ∑ i ∈ Finset.range domain.size,
      (resize domain.size evals).getD i 0 * (domain.groupGen⁻¹) ^ (i * j)

def interpolate [DecidableEq F] (evals : List F) : DensePolynomial F :=
  .fromCoefficientsVec (domain.ifft evals)

theorem length_interpolate_le [DecidableEq F] (evals : List F) :
    (domain.interpolate evals).coeffs.length ≤ domain.size := by
  apply (DensePolynomial.length_trim_le _).trans
  rw [ifft, List.length_map, List.length_range]

theorem groupGen_ne_zero : domain.groupGen ≠ 0 := domain.primitive.ne_zero domain.size_pos.ne'

theorem size_ne_zero : (domain.size : F) ≠ 0 := by
  have : NeZero domain.size := ⟨domain.size_pos.ne'⟩
  exact (domain.primitive.neZero').out

theorem sum_element_mul_inv {i k : Nat} (hi : i < domain.size) (hk : k < domain.size) :
    ∑ j ∈ Finset.range domain.size, (domain.element k * (domain.element i)⁻¹) ^ j =
      if i = k then (domain.size : F) else 0 := by
  have hne : domain.element i ≠ 0 := pow_ne_zero i domain.groupGen_ne_zero
  by_cases hik : i = k
  · rw [if_pos hik, hik, mul_inv_cancel₀ (by rw [← hik]; exact hne)]
    simp
  · rw [if_neg hik]
    have hratio : domain.element k * (domain.element i)⁻¹ - 1 ≠ 0 := by
      intro hzero
      apply hik
      apply domain.element_injective hi hk
      rw [sub_eq_zero, mul_inv_eq_one₀ hne] at hzero
      exact hzero.symm
    have hpow : (domain.element k * (domain.element i)⁻¹) ^ domain.size = 1 := by
      rw [mul_pow, inv_pow, domain.element_pow_size, domain.element_pow_size, inv_one, mul_one]
    have hgeom := mul_geom_sum (domain.element k * (domain.element i)⁻¹) domain.size
    rw [hpow, sub_self] at hgeom
    exact (mul_eq_zero.mp hgeom).resolve_left hratio

theorem eval_ofCoeffs_eq_sum (cs : List F) (x : F) :
    (DensePolynomial.ofCoeffs cs).eval x =
      ∑ j ∈ Finset.range cs.length, cs.getD j 0 * x ^ j := by
  induction cs with
  | nil => simp
  | cons c cs ih =>
    rw [DensePolynomial.ofCoeffs_cons, eval_add, eval_mul, eval_C, eval_X, ih, List.length_cons,
      Finset.sum_range_succ', Finset.mul_sum, add_comm]
    congr 1
    · apply Finset.sum_congr rfl
      intro j _
      rw [List.getD_cons_succ, pow_succ]
      ring
    · simp

/-- An interpolated polynomial takes the given values on the domain. -/
theorem evaluate_interpolate [DecidableEq F] (evals : List F) {k : Nat} (hk : k < domain.size) :
    (domain.interpolate evals).evaluate (domain.element k) =
      (resize domain.size evals).getD k 0 := by
  have hcoeff : ∀ j ∈ Finset.range domain.size, (domain.ifft evals).getD j 0 =
      (domain.size : F)⁻¹ * ∑ i ∈ Finset.range domain.size,
        (resize domain.size evals).getD i 0 * (domain.groupGen⁻¹) ^ (i * j) := by
    intro j hj
    have hj' : j < (domain.ifft evals).length := by
      rw [ifft, List.length_map, List.length_range]
      exact Finset.mem_range.mp hj
    rw [List.getD_eq_getElem _ _ hj']
    simp only [ifft, List.getElem_map, List.getElem_range]
  have hterm : ∀ j i : Nat, (domain.groupGen⁻¹) ^ (i * j) * domain.element k ^ j =
      (domain.element k * (domain.element i)⁻¹) ^ j := by
    intro j i
    rw [pow_mul, ← mul_pow, element, element, inv_pow, mul_comm]
  rw [interpolate, ← DensePolynomial.eval_toPoly, DensePolynomial.toPoly_fromCoefficientsVec,
    eval_ofCoeffs_eq_sum]
  have hlen : (domain.ifft evals).length = domain.size := by
    rw [ifft, List.length_map, List.length_range]
  rw [hlen]
  calc ∑ j ∈ Finset.range domain.size, (domain.ifft evals).getD j 0 * domain.element k ^ j
      = ∑ j ∈ Finset.range domain.size, ∑ i ∈ Finset.range domain.size,
          (domain.size : F)⁻¹ * (resize domain.size evals).getD i 0 *
            (domain.element k * (domain.element i)⁻¹) ^ j := by
        apply Finset.sum_congr rfl
        intro j hj
        rw [hcoeff j hj, Finset.mul_sum, Finset.sum_mul]
        apply Finset.sum_congr rfl
        intro i _
        rw [← hterm j i]
        ring
    _ = ∑ i ∈ Finset.range domain.size, (domain.size : F)⁻¹ *
          (resize domain.size evals).getD i 0 * (if i = k then (domain.size : F) else 0) := by
        rw [Finset.sum_comm]
        apply Finset.sum_congr rfl
        intro i hi
        rw [← Finset.mul_sum, domain.sum_element_mul_inv (Finset.mem_range.mp hi) hk]
    _ = (resize domain.size evals).getD k 0 := by
        simp only [mul_ite, mul_zero]
        rw [Finset.sum_ite_eq', if_pos (Finset.mem_range.mpr hk), mul_assoc,
          mul_comm _ (domain.size : F), ← mul_assoc, inv_mul_cancel₀ domain.size_ne_zero, one_mul]

theorem resize_getD_of_lt {n k : Nat} (hk : k < n) (evals : List F) :
    (resize n evals).getD k 0 = evals.getD k 0 := by
  rw [resize, List.getD_eq_getElem?_getD, List.getD_eq_getElem?_getD, List.getElem?_take_of_lt hk]
  by_cases hlt : k < evals.length
  · rw [List.getElem?_append_left hlt]
  · rw [List.getElem?_append_right (by omega), List.getElem?_eq_none (l := evals) (by omega)]
    cases hrep : (List.replicate n (0 : F))[k - evals.length]? with
    | none => rfl
    | some x =>
      rw [List.getElem?_replicate] at hrep
      by_cases hkn : k - evals.length < n
      · rw [if_pos hkn] at hrep
        cases hrep
        rfl
      · rw [if_neg hkn] at hrep
        cases hrep

theorem evaluate_interpolate_map [DecidableEq F] (g : F → F) {x : F} (hx : x ∈ domain.elements) :
    (domain.interpolate (domain.elements.map g)).evaluate x = g x := by
  obtain ⟨k, hk, rfl⟩ := List.mem_map.mp hx
  rw [List.mem_range] at hk
  have hlen : k < (domain.elements.map g).length := by
    rw [List.length_map, elements, List.length_map, List.length_range]
    exact hk
  rw [domain.evaluate_interpolate _ hk, resize_getD_of_lt hk, List.getD_eq_getElem _ _ hlen]
  simp only [List.getElem_map, elements, List.getElem_range]

end Interpolation

/-! ### Radix-2 domains -/

/-- A root of unity of order `2 ^ twoAdicity`. -/
structure FftParameters (F : Type) [Field F] where
  twoAdicity : Nat
  twoAdicRootOfUnity : F
  primitive : IsPrimitiveRoot twoAdicRootOfUnity (2 ^ twoAdicity)

namespace FftParameters

variable (params : FftParameters F)

def getRootOfUnity (log_size : Nat) : F :=
  params.twoAdicRootOfUnity ^ 2 ^ (params.twoAdicity - log_size)

theorem primitive_getRootOfUnity {log_size : Nat} (h : log_size ≤ params.twoAdicity) :
    IsPrimitiveRoot (params.getRootOfUnity log_size) (2 ^ log_size) := by
  apply params.primitive.pow (Nat.two_pow_pos _)
  rw [← pow_add, Nat.sub_add_cancel h]

/-- The domain of the least power of two that is not below `num_coeffs`. -/
def radix2Domain (num_coeffs : Nat) : Option (EvaluationDomain F) :=
  let log_size := Nat.clog 2 num_coeffs
  if h : log_size ≤ params.twoAdicity then
    some ⟨2 ^ log_size, params.getRootOfUnity log_size, Nat.two_pow_pos _,
      params.primitive_getRootOfUnity h⟩
  else none

theorem exists_radix2Domain {num_coeffs : Nat} (h : Nat.clog 2 num_coeffs ≤ params.twoAdicity) :
    ∃ domain, params.radix2Domain num_coeffs = some domain :=
  ⟨_, dif_pos h⟩

theorem radix2Domain_size {num_coeffs : Nat} {domain : EvaluationDomain F}
    (h : params.radix2Domain num_coeffs = some domain) :
    domain.size = 2 ^ Nat.clog 2 num_coeffs := by
  rw [radix2Domain] at h
  by_cases hle : Nat.clog 2 num_coeffs ≤ params.twoAdicity
  · rw [dif_pos hle] at h
    cases h
    rfl
  · rw [dif_neg hle] at h
    cases h

end FftParameters

end EvaluationDomain

end Lootbox

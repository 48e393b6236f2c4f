import Lootbox.Base.DomainSums
import Lootbox.Commitment.MarlinProver

/-!
# `index_private_marlin`: the two sum checks as equations

The prover's polynomials provide every evaluation that the linear combinations ask for, so each
combination evaluates to one expression in them.
-/

namespace Lootbox.IndexPrivateMarlin

open Polynomial
open ZeroOverK (PolynomialLabel LabeledPolynomial)

variable {F : Type} [Field F] [DecidableEq F]

/-! ### Division by `X` -/

theorem divideByX_eq_ok_iff {p q : DensePolynomial F} :
    divideByX p = .ok q ↔ p.coeffs ≠ [] ∧ q = .fromCoefficientsVec p.coeffs.tail := by
  rw [divideByX, sliceFrom]
  cases p.coeffs with
  | nil => simp
  | cons c cs =>
    simp only [List.length_cons, Nat.le_add_left, if_true, ok_bind, List.drop_one, List.tail_cons,
      ne_eq, reduceCtorEq, not_false_eq_true, true_and]
    constructor
    · intro h
      cases h
      rfl
    · rintro rfl
      rfl

theorem toPoly_divideByX {p q : DensePolynomial F} (h : divideByX p = .ok q) :
    p.toPoly = C (p.toPoly.coeff 0) + X * q.toPoly := by
  obtain ⟨hne, rfl⟩ := divideByX_eq_ok_iff.mp h
  obtain ⟨cs⟩ := p
  cases cs with
  | nil => exact absurd rfl hne
  | cons c cs =>
    have hcoeff : (DensePolynomial.ofCoeffs (c :: cs)).coeff 0 = c := by
      rw [DensePolynomial.coeff_ofCoeffs, List.getD_cons_zero]
    rw [DensePolynomial.toPoly_fromCoefficientsVec]
    simp only [DensePolynomial.toPoly, List.tail_cons, hcoeff]
    rfl

theorem length_divideByX_le {p q : DensePolynomial F} (h : divideByX p = .ok q) :
    q.coeffs.length ≤ p.coeffs.length - 1 := by
  obtain ⟨_, rfl⟩ := divideByX_eq_ok_iff.mp h
  rw [← List.length_tail]
  exact DensePolynomial.length_trim_le _

/-! ### Evaluations -/

section Evaluations

variable (first : ProverFirstOracles F) (second : ProverSecondOracles F)
  (third : ProverThirdOracles F)

def proverOracles : List (LabeledPolynomial F) := first.iter ++ second.iter ++ third.iter

variable (ver_first : VerifierFirstMsg F) (ver_second : VerifierSecondMsg F)
  (domain_h domain_k : EvaluationDomain F)

omit [DecidableEq F] in
theorem getLcEval_single (point : F) :
    getLcEval (proverOracles first second third) (single "z_b") point =
        .ok (first.zB.evaluate point) ∧
      getLcEval (proverOracles first second third) (single "t") point =
        .ok (second.t.evaluate point) ∧
      getLcEval (proverOracles first second third) (single "g_1") point =
        .ok (second.g1.evaluate point) ∧
      getLcEval (proverOracles first second third) (single "g_2") point =
        .ok (third.g2.evaluate point) := by
  have hone : ∀ v : F, 0 + 1 * v = v := fun v => by ring
  refine ⟨?_, ?_, ?_, ?_⟩
  · exact congrArg Except.ok (hone (first.zB.evaluate point))
  · exact congrArg Except.ok (hone (second.t.evaluate point))
  · exact congrArg Except.ok (hone (second.g1.evaluate point))
  · exact congrArg Except.ok (hone (third.g2.evaluate point))

theorem getLcEval_outerSumcheck (beta z_b_at_beta t_at_beta g_1_at_beta point : F) :
    getLcEval (proverOracles first second third)
        (outerSumcheck domain_h ver_first beta z_b_at_beta t_at_beta g_1_at_beta) point =
      .ok (first.maskPoly.evaluate point +
        evalUnnormalizedBivariateLagrangePoly domain_h ver_first.alpha beta *
          ((ver_first.etaA + ver_first.etaC * z_b_at_beta) * first.zA.evaluate point +
            ver_first.etaB * z_b_at_beta) -
        t_at_beta * first.z.evaluate point -
        domain_h.evaluateVanishingPolynomial beta * second.h1.evaluate point -
        beta * g_1_at_beta) := by
  have heval : getLcEval (proverOracles first second third)
      (outerSumcheck domain_h ver_first beta z_b_at_beta t_at_beta g_1_at_beta) point =
      .ok (0 + 1 * first.maskPoly.evaluate point +
        evalUnnormalizedBivariateLagrangePoly domain_h ver_first.alpha beta *
          (ver_first.etaA + ver_first.etaC * z_b_at_beta) * first.zA.evaluate point +
        evalUnnormalizedBivariateLagrangePoly domain_h ver_first.alpha beta * ver_first.etaB *
          z_b_at_beta * 1 + -t_at_beta * first.z.evaluate point +
        -domain_h.evaluateVanishingPolynomial beta * second.h1.evaluate point +
        -beta * g_1_at_beta * 1) := rfl
  rw [heval]
  congr 1
  ring

omit [DecidableEq F] in
theorem getLcEval_fSumcheck (gamma t_at_beta g_2_at_gamma point : F) :
    getLcEval (proverOracles first second third)
        (fSumcheck domain_k gamma t_at_beta g_2_at_gamma) point =
      .ok (first.innerMaskPoly.evaluate point + third.f.evaluate point - gamma * g_2_at_gamma -
        t_at_beta / domain_k.size) := by
  have heval : getLcEval (proverOracles first second third)
      (fSumcheck domain_k gamma t_at_beta g_2_at_gamma) point =
      .ok (0 + 1 * first.innerMaskPoly.evaluate point + 1 * third.f.evaluate point +
        -gamma * g_2_at_gamma * 1 + -(t_at_beta / domain_k.size) * 1) := rfl
  rw [heval]
  congr 1
  ring

theorem exists_constructLinearCombinations (gamma : F) :
    ∃ lcs, constructLinearCombinations (getLcEval (proverOracles first second third)) domain_h
        domain_k ver_first ver_second gamma = .ok lcs ∧
      outerSumcheck domain_h ver_first ver_second.beta (first.zB.evaluate ver_second.beta)
        (second.t.evaluate ver_second.beta) (second.g1.evaluate ver_second.beta) ∈ lcs ∧
      fSumcheck domain_k gamma (second.t.evaluate ver_second.beta) (third.g2.evaluate gamma) ∈
        lcs := by
  obtain ⟨hz_b, ht, hg_1, _⟩ := getLcEval_single first second third ver_second.beta
  obtain ⟨_, _, _, hg_2⟩ := getLcEval_single first second third gamma
  refine ⟨_, bind_eq_of_ok hz_b (bind_eq_of_ok ht (bind_eq_of_ok hg_1 (bind_eq_of_ok hg_2 rfl))),
    ?_, ?_⟩
  · rw [List.mem_insertionSort]
    simp
  · rw [List.mem_insertionSort]
    simp

end Evaluations

end Lootbox.IndexPrivateMarlin

import Lootbox.Commitment.IdealCommitments
import Lootbox.Commitment.QuerySets

/-!
# `zero_over_k`: the value of a virtual oracle

From the queried evaluations of the concrete oracles a virtual oracle has the value of its
polynomial, and so it has in the prover and the verifier when the masks are zero. A combine
function without terms has a value but no polynomial.
-/

namespace Lootbox.ZeroOverK

variable {F : Type} [Field F] [DecidableEq F]

namespace GenericShiftingVO

/-- `ark_poly_commit::evaluate_query_set`, on polynomials whose labels are distinct -/
def EvaluatesQuerySets
    (evaluate_query_set : List (LabeledPolynomial F) → QuerySet F → Evaluations F) : Prop :=
  ∀ polys query_set, (polys.map LabeledPolynomial.label).Nodup →
    ∀ label point_label point, (label, point_label, point) ∈ query_set →
      ∀ p ∈ polys, p.label = label →
        evaluate_query_set polys query_set (label, point) = some (p.polynomial.evaluate point)

variable {vo : GenericShiftingVO F} {oracles : List (LabeledPolynomial F)}

theorem exists_polynomial_of_terms
    (hterms : vo.combineFunction.termsBelow (vo.numOfVariableTerms + 1) = true)
    (huses : vo.combineFunction.hasTerm = true) (hs : Nat → DensePolynomial F) :
    ∃ poly, vo.applyEvaluationFunction ((xPoly :: (List.range vo.numOfVariableTerms).map fun i =>
        shiftDensePoly (hs i) (vo.alpha i)).map VOTerm.polynomial) = .ok (.polynomial poly) ∧
      ∀ x, vo.applyEvaluationFunction (CombineFunction.evaluations
          (x :: (List.range vo.numOfVariableTerms).map fun i =>
            (hs i).evaluate (vo.alpha i * x))) = .ok (.evaluation (poly.evaluate x)) := by
  have hbelow : vo.combineFunction.termsBelow (xPoly :: (List.range vo.numOfVariableTerms).map
      fun i => shiftDensePoly (hs i) (vo.alpha i)).length = true := by
    simpa using hterms
  obtain ⟨poly, hpoly⟩ := CombineFunction.exists_apply_polynomials hbelow huses
  refine ⟨poly, hpoly, fun x => ?_⟩
  rw [← shiftedTerms_valueAt hs x]
  exact CombineFunction.apply_evaluations _ x hpoly

abbrev polynomials (oracles : List (LabeledPolynomial F)) : List (DensePolynomial F) :=
  oracles.map LabeledPolynomial.polynomial

theorem computePolynomial_eq (h : ¬ vo.TooFew oracles.length) :
    vo.computePolynomial oracles =
      vo.applyEvaluationFunction ((xPoly :: (List.range vo.numOfVariableTerms).map fun i =>
        shiftDensePoly (oracleAt vo (polynomials oracles) i) (vo.alpha i)).map VOTerm.polynomial) >>=
      fun
      | .evaluation _ => .error .voFailedToInstantiate
      | .polynomial poly => .ok poly := by
  have hshifted := vo.shiftedOracles_eq_ok_iff.mpr ⟨h, rfl⟩
  rw [vo.mappingVector_zip, List.map_map] at hshifted
  unfold computePolynomial
  rw [vo.checkConreteOracleLength_eq_ok h, ok_bind, hshifted, ok_bind]
  rfl

theorem mem_querySet (labels : List PolynomialLabel) (query_point : String × F) {i : Nat}
    (hi : i < vo.numOfVariableTerms) :
    (labels.getD (vo.mappingVector.getD i 0) "", query_point.1 ++ "_times_alpha" ++ toString i,
      vo.alpha i * query_point.2) ∈ vo.querySet labels query_point := by
  rw [querySet, List.mem_toFinset, vo.mappingVector_zip, zipIdx_map_range, List.map_map]
  exact List.mem_map.mpr ⟨i, List.mem_range.mpr hi, rfl⟩

theorem evaluateFromLabeledEvals_eq
    {evaluate_query_set : List (LabeledPolynomial F) → QuerySet F → Evaluations F}
    (hevaluates : EvaluatesQuerySets evaluate_query_set) (h : ¬ vo.TooFew oracles.length)
    (hlabels : (oracles.map LabeledPolynomial.label).Nodup) (point_name : String) (x : F) :
    vo.evaluateFromLabeledEvals (oracles.map LabeledPolynomial.label) x (evaluate_query_set oracles
        (vo.querySet (oracles.map LabeledPolynomial.label) (point_name, x))) =
      vo.applyEvaluationFunction (CombineFunction.evaluations
        (x :: (List.range vo.numOfVariableTerms).map fun i =>
          (oracleAt vo (polynomials oracles) i).evaluate (vo.alpha i * x))) >>= fun
      | .evaluation eval => .ok eval
      | .polynomial _ => .error .voFailedToCompute := by
  unfold evaluateFromLabeledEvals
  rw [vo.mappingVector_zip, List.mapM_map]
  apply bind_eq_of_ok (mapM_eq_ok_map _) rfl
  intro i hi
  have hin := vo.mem_querySet (oracles.map LabeledPolynomial.label) (point_name, x)
    (List.mem_range.mp hi)
  have hlt : vo.mappingVector.getD i 0 < oracles.length := by
    apply vo.not_tooFew_iff.mp h (vo.mappingVector.getD i 0, vo.alpha i)
    rw [vo.mappingVector_zip]
    exact List.mem_map.mpr ⟨i, hi, rfl⟩
  unfold oracleAt
  dsimp only [Function.comp]
  generalize vo.mappingVector.getD i 0 = k at hin hlt
  have hlabel : (oracles.map LabeledPolynomial.label)[k]? = some oracles[k].label := by
    rw [List.getElem?_map, List.getElem?_eq_getElem hlt]
    rfl
  have hpoly : (polynomials oracles).getD k 0 = oracles[k].polynomial := by
    rw [List.getD_eq_getElem?_getD, List.getElem?_map, List.getElem?_eq_getElem hlt]
    rfl
  rw [List.getD_eq_getElem?_getD, hlabel] at hin
  have heval : evaluate_query_set oracles
      (vo.querySet (oracles.map LabeledPolynomial.label) (point_name, x))
        (oracles[k].label, vo.alpha i * x) =
      some (oracles[k].polynomial.evaluate (vo.alpha i * x)) :=
    hevaluates oracles _ hlabels _ _ _ hin _ (List.getElem_mem hlt) rfl
  rw [hlabel, hpoly, require, need_some, ok_bind, heval, require, need_some]

/-- The three ways to the value of a virtual oracle -/
theorem evaluate_three_ways
    {evaluate_query_set : List (LabeledPolynomial F) → QuerySet F → Evaluations F}
    (hevaluates : EvaluatesQuerySets evaluate_query_set)
    (henough : ∀ index ∈ vo.mappingVector, index < oracles.length)
    (hlabels : (oracles.map LabeledPolynomial.label).Nodup)
    (hterms : vo.combineFunction.termsBelow (vo.numOfVariableTerms + 1) = true)
    (huses : vo.combineFunction.hasTerm = true) (point_name : String) (beta : F) :
    ∃ query_set poly h_primes f_prime,
      vo.generateQuerySet (oracles.map LabeledPolynomial.label) (point_name, beta) =
          .ok query_set ∧
        vo.computePolynomial oracles = .ok poly ∧
        vo.evaluateFromLabeledEvals (oracles.map LabeledPolynomial.label) beta
          (evaluate_query_set oracles query_set) = .ok (poly.evaluate beta) ∧
        computeHPrimes vo (polynomials oracles)
          ((List.range vo.numOfVariableTerms).map fun i => ⟨mLabel i, 0⟩) = .ok h_primes ∧
        computeFPrime vo h_primes = .ok f_prime ∧ f_prime.evaluate beta = poly.evaluate beta ∧
        computeFPrimeEval vo ((h_primes.zip vo.shiftingCoefficients).map fun (h_prime, alpha) =>
          h_prime.polynomial.evaluate (alpha * beta)) beta = .ok (poly.evaluate beta) := by
  have h : ¬ vo.TooFew oracles.length := by
    rintro ⟨index, hindex, hle⟩
    exact absurd (henough index hindex) (not_lt.mpr hle)
  obtain ⟨poly, hpoly, hvalue⟩ :=
    exists_polynomial_of_terms hterms huses (oracleAt vo (polynomials oracles))
  obtain ⟨f_prime, hf, hfvalue⟩ :=
    exists_polynomial_of_terms hterms huses fun i => oracleAt vo (polynomials oracles) i + 0
  have hmasked : ((List.range vo.numOfVariableTerms).map fun i =>
        (oracleAt vo (polynomials oracles) i + 0).evaluate (vo.alpha i * beta)) =
      (List.range vo.numOfVariableTerms).map fun i =>
        (oracleAt vo (polynomials oracles) i).evaluate (vo.alpha i * beta) := by
    apply List.map_congr_left
    intro i _
    rw [DensePolynomial.evaluate_add]
    exact add_zero _
  have hf_value := hfvalue beta
  rw [hmasked, hvalue beta] at hf_value
  have heq : f_prime.evaluate beta = poly.evaluate beta :=
    (VOTerm.evaluation.inj (Except.ok.inj hf_value)).symm
  refine ⟨_, poly, _, f_prime, vo.generateQuerySet_eq_ok (by simpa using h) _, ?_, ?_,
    (computeHPrimes_masks_eq_ok_iff vo (polynomials oracles) fun _ => 0).mpr
      ⟨by simpa using henough, rfl⟩, ?_, heq, ?_⟩
  · rw [computePolynomial_eq h, hpoly]
    rfl
  · rw [evaluateFromLabeledEvals_eq hevaluates h hlabels, hvalue beta]
    rfl
  · rw [computeFPrime_eq_apply, hf]
    rfl
  · have hzip : ((List.range vo.numOfVariableTerms).map fun i =>
          (⟨hPrimeLabel i, oracleAt vo (polynomials oracles) i + 0⟩ : LabeledPolynomial F)).zip
            vo.shiftingCoefficients =
        (List.range vo.numOfVariableTerms).map fun i =>
          (⟨hPrimeLabel i, oracleAt vo (polynomials oracles) i + 0⟩, vo.alpha i) := by
      rw [vo.shiftingCoefficients_eq]
      exact List.zip_map'
    rw [hzip, List.map_map]
    change computeFPrimeEval vo ((List.range vo.numOfVariableTerms).map fun i =>
      (oracleAt vo (polynomials oracles) i + 0).evaluate (vo.alpha i * beta)) beta = _
    rw [hmasked, computeFPrimeEval, hvalue beta]
    rfl

/-! An oracle at two points, and a function without terms. -/

/-- Where it was queried, the evaluation of the polynomial of that label. -/
def lookUpEvaluation (polys : List (LabeledPolynomial F)) (query_set : QuerySet F) :
    Evaluations F := fun (label, point) =>
  if ∃ query ∈ query_set, query.1 = label ∧ query.2.2 = point then
    (polys.find? fun p => p.label = label).map fun p => p.polynomial.evaluate point
  else none

theorem lookUpEvaluation_evaluates : EvaluatesQuerySets (@lookUpEvaluation F _ _) := by
  intro polys query_set hnodup label point_label point hquery p hp hlabel
  have hfind : polys.find? (fun p => p.label = label) = some p := by
    subst hlabel
    clear hquery
    induction polys with
    | nil => cases hp
    | cons q polys ih =>
      rw [List.map_cons, List.nodup_cons] at hnodup
      rcases List.mem_cons.mp hp with rfl | hp
      · simp
      · have hne : q.label ≠ p.label := by
          intro heq
          exact hnodup.1 (heq ▸ List.mem_map_of_mem hp)
        simp [hne, ih hnodup.2 hp]
  have hasked : ∃ query ∈ query_set, query.1 = label ∧ query.2.2 = point :=
    ⟨_, hquery, rfl, rfl⟩
  rw [lookUpEvaluation, if_pos hasked, hfind]
  rfl

def stepVO : GenericShiftingVO ℚ :=
  shiftVO 2 (.sub (.mul (.constant 3) (.term 2)) (.mul (.term 0) (.term 1)))

def stepOracle : LabeledPolynomial ℚ := ⟨"f", ⟨[5, 7]⟩⟩

theorem evaluate_three_ways_step : ∃ query_set poly,
    stepVO.generateQuerySet ["f"] ("beta", 2) = .ok query_set ∧
      stepVO.computePolynomial [stepOracle] = .ok poly ∧
      stepVO.evaluateFromLabeledEvals ["f"] 2 (lookUpEvaluation [stepOracle] query_set) =
        .ok (poly.evaluate 2) := by
  obtain ⟨query_set, poly, _, _, hquery, hpoly, hvalue, _⟩ :=
    @evaluate_three_ways ℚ _ _ stepVO [stepOracle] lookUpEvaluation lookUpEvaluation_evaluates
      (by decide) (by decide) rfl rfl "beta" 2
  exact ⟨query_set, poly, hquery, hpoly, hvalue⟩

def constantVO : GenericShiftingVO ℚ := ⟨[0], [1], .constant 4, 0, rfl, rfl⟩

/-- A constant has no polynomial, and with too few oracles there is none either. -/
theorem constant_without_polynomial : ∃ vo' : GenericShiftingVO ℚ,
    new [0] [1] (.constant 4) = .ok constantVO ∧ new [2] [1] (.term 1) = .ok vo' ∧
      (∃ query_set, constantVO.generateQuerySet ["f"] ("beta", 2) = .ok query_set ∧
        constantVO.evaluateFromLabeledEvals ["f"] 2 (lookUpEvaluation [stepOracle] query_set) =
          .ok 4) ∧
      constantVO.computePolynomial [stepOracle] = .error .voFailedToInstantiate ∧
      (¬ ∃ poly, constantVO.computePolynomial [stepOracle] = .ok poly) ∧
      ¬ ∃ poly, vo'.computePolynomial [stepOracle] = .ok poly := by
  have henough : ¬ constantVO.TooFew [stepOracle].length := by
    rw [tooFew_iff]
    decide
  have hvalue := @evaluateFromLabeledEvals_eq ℚ _ _ constantVO [stepOracle] lookUpEvaluation
    lookUpEvaluation_evaluates henough (by decide) "beta" 2
  refine ⟨⟨[2], [1], .term 1, 2, rfl, rfl⟩, rfl, rfl,
    ⟨_, constantVO.generateQuerySet_eq_ok henough ("beta", 2), hvalue.trans rfl⟩, rfl, ?_, ?_⟩
  · rintro ⟨poly, h⟩
    cases h
  · rintro ⟨poly, h⟩
    cases h

end GenericShiftingVO

end Lootbox.ZeroOverK

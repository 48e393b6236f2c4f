import Lootbox.Commitment.PolynomialLabels
import Lootbox.Commitment.VirtualOracle

/-!
# `zero_over_k`: prover and field checks of the verifier

Commitments are ideal: an opening is the value of the polynomial. The randomness of the
maskings is a function, and the three challenges are arguments.
-/

namespace Lootbox.ZeroOverK

structure LabeledPolynomial (F : Type) where
  label : PolynomialLabel
  polynomial : DensePolynomial F
  deriving DecidableEq, Repr

structure Proof (F : Type) where
  q1Eval : F
  q2Eval : F
  hPrimeEvals : List F
  mEvals : List F
  deriving DecidableEq, Repr

structure VerifierFirstMsg (F : Type) where
  beta1 : F
  beta2 : F
  c : F
  deriving DecidableEq, Repr

variable {F : Type} [Field F] [DecidableEq F]

/-! ### Prover -/

/-- `DensePolynomial::rand(1, rng)` -/
def randomPolynomial (coeffs : F × F) : DensePolynomial F :=
  .fromCoefficientsVec [coeffs.1, coeffs.2]

def maskingPolynomial (domain : EvaluationDomain F) (alpha : F) (r : DensePolynomial F) :
    DensePolynomial F :=
  shiftDensePoly r alpha⁻¹ * shiftDensePoly domain.vanishingPolynomial alpha⁻¹

/-- The random polynomials and the maskings `r_i(alpha_i⁻¹ X) * z_K(alpha_i⁻¹ X)`. -/
def computeMaskings (vo : GenericShiftingVO F) (domain : EvaluationDomain F) (rng : Nat → F × F) :
    Except Error (List (LabeledPolynomial F × LabeledPolynomial F)) :=
  (List.range vo.numOfVariableTerms).mapM fun i => do
    let r := randomPolynomial (rng i)
    let alpha ← require vo.shiftingCoefficients[i]?
    -- `inverse()` has no value at zero
    if alpha = 0 then throw .aborted
    return (⟨rLabel i, r⟩, ⟨mLabel i, maskingPolynomial domain alpha r⟩)

def computeHPrimes (vo : GenericShiftingVO F) (oracles : List (DensePolynomial F))
    (masking_polynomials : List (LabeledPolynomial F)) : Except Error (List (LabeledPolynomial F)) := do
  let h_polynomials ← vo.mappingVector.mapM fun index => require oracles[index]?
  return (h_polynomials.zip masking_polynomials).zipIdx.map fun ((oracle, masking_poly), i) =>
    ⟨hPrimeLabel i, oracle + masking_poly.polynomial⟩

def xPoly : DensePolynomial F := .fromCoefficientsVec [0, 1]

theorem evaluate_xPoly (x : F) : (xPoly : DensePolynomial F).evaluate x = x := by
  rw [xPoly, ← DensePolynomial.eval_toPoly, DensePolynomial.toPoly_fromCoefficientsVec]
  simp

def computeFPrime (vo : GenericShiftingVO F) (h_primes : List (LabeledPolynomial F)) :
    Except Error (DensePolynomial F) := do
  let shifted_h_primes ← h_primes.zipIdx.mapM fun (labeled_poly, i) => do
    let alpha ← require vo.shiftingCoefficients[i]?
    return shiftDensePoly labeled_poly.polynomial alpha
  let terms := (xPoly :: shifted_h_primes).map VOTerm.polynomial
  match ← vo.applyEvaluationFunction terms with
  | .polynomial f_prime => return f_prime
  | .evaluation _ => throw .voFailedToInstantiate

def computeQ1 (domain : EvaluationDomain F) (f_prime : DensePolynomial F) : DensePolynomial F :=
  (f_prime.divideWithQAndR domain.vanishingPolynomial).1

/-- `r_0 + c r_1 + c^2 r_2 + ...` -/
def computeQ2 (random_polynomials : List (LabeledPolynomial F)) (c : F) : DensePolynomial F :=
  (random_polynomials.zip (powersOf c random_polynomials.length)).foldl
    (fun acc_poly (r, c_power) => acc_poly + r.polynomial.scale c_power) 0

/-! ### Openings -/

def verifierQuerySet (alphas : List F) (msg : VerifierFirstMsg F) : List (PolynomialLabel × F) :=
  alphas.zipIdx.flatMap (fun (alpha, i) =>
    [(hPrimeLabel i, alpha * msg.beta1), (mLabel i, alpha * msg.beta2)]) ++
  [("q_1", msg.beta1), ("q_2", msg.beta2)]

def evaluateQuerySet (polys : List (LabeledPolynomial F))
    (query_set : List (PolynomialLabel × F)) : Except Error (List (PolynomialLabel × F)) :=
  query_set.mapM fun (label, point) => do
    let poly ← require (polys.find? fun p => p.label == label)
    return (label, poly.polynomial.evaluate point)

inductive EvaluationKind
  | hPrime
  | m
  | q1
  | q2
  | other
  deriving DecidableEq, Repr

def labelContains (label : PolynomialLabel) (part : String) : Bool :=
  decide (part.toList <:+: label.toList)

/-- The chain of tests that sorts the evaluations into the fields of the proof. -/
def evaluationKind (label : PolynomialLabel) : EvaluationKind :=
  if labelContains label "h_prime_" then .hPrime
  else if labelContains label "m_" then .m
  else if label = "q_1" then .q1
  else if label = "q_2" then .q2
  else .other

def evaluationsOfKind (kind : EvaluationKind) (evals : List (PolynomialLabel × F)) :
    List (PolynomialLabel × F) :=
  evals.filter fun e => evaluationKind e.1 = kind

/-- `sort_by(|a, b| a.0.cmp(b.0))`, the labels dropped afterwards. -/
def sortByLabel (evals : List (PolynomialLabel × F)) : List F :=
  (evals.insertionSort fun a b => a.1 ≤ b.1).map Prod.snd

def collectProof (evaluated_query_set : List (PolynomialLabel × F)) : Except Error (Proof F) := do
  let q1_eval ← require (evaluationsOfKind .q1 evaluated_query_set).getLast?
  let q2_eval ← require (evaluationsOfKind .q2 evaluated_query_set).getLast?
  let h_prime_evals := sortByLabel (evaluationsOfKind .hPrime evaluated_query_set)
  let m_evals := sortByLabel (evaluationsOfKind .m evaluated_query_set)
  if h_prime_evals.length ≠ m_evals.length then throw .aborted
  return ⟨q1_eval.2, q2_eval.2, h_prime_evals, m_evals⟩

def checkSupportedDegree (maximum_oracle_degree_bound : Option Nat) (supported_degree : Nat) :
    Except Error Unit :=
  match maximum_oracle_degree_bound with
  | none => .ok ()
  | some degree => if degree > supported_degree then .error (.unsupportedDegree degree) else .ok ()

def prove (oracles : List (DensePolynomial F)) (maximum_oracle_degree_bound : Option Nat)
    (vo : GenericShiftingVO F) (domain : EvaluationDomain F) (supported_degree : Nat)
    (rng : Nat → F × F) (msg : VerifierFirstMsg F) : Except Error (Proof F) := do
  checkSupportedDegree maximum_oracle_degree_bound supported_degree
  let maskings ← computeMaskings vo domain rng
  let masking_polynomials := maskings.map Prod.snd
  let h_primes ← computeHPrimes vo oracles masking_polynomials
  let f_prime ← computeFPrime vo h_primes
  let q_1 := computeQ1 domain f_prime
  let q_2 := computeQ2 (maskings.map Prod.fst) msg.c
  let evaluated_query_set ← evaluateQuerySet
    (masking_polynomials ++ h_primes ++ [⟨"q_1", q_1⟩] ++ [⟨"q_2", q_2⟩])
    (verifierQuerySet vo.shiftingCoefficients msg)
  collectProof evaluated_query_set

/-! ### Verifier -/

/-- `M(beta_2)` -/
def bigM (m_evals : List F) (c : F) : F :=
  (m_evals.zip (powersOf c m_evals.length)).foldl
    (fun acc (m_eval, c_power) => acc + m_eval * c_power) 0

def computeFPrimeEval (vo : GenericShiftingVO F) (evals : List F) (point : F) : Except Error F := do
  match ← vo.applyEvaluationFunction (CombineFunction.evaluations (point :: evals)) with
  | .evaluation res => return res
  | .polynomial _ => throw .voFailedToCompute

/-- The two field checks of `ZeroOverK::verify`. -/
def verifyFieldChecks (proof : Proof F) (vo : GenericShiftingVO F) (domain : EvaluationDomain F)
    (msg : VerifierFirstMsg F) : Except Error Unit := do
  let big_m_at_beta_2 := bigM proof.mEvals msg.c
  let z_k_at_beta_1 := domain.evaluateVanishingPolynomial msg.beta1
  let z_k_at_beta_2 := domain.evaluateVanishingPolynomial msg.beta2
  let f_prime_eval ← computeFPrimeEval vo proof.hPrimeEvals msg.beta1
  if big_m_at_beta_2 - proof.q2Eval * z_k_at_beta_2 ≠ 0 then throw .check1Failed
  if f_prime_eval - proof.q1Eval * z_k_at_beta_1 ≠ 0 then throw .check2Failed
  return ()

end Lootbox.ZeroOverK

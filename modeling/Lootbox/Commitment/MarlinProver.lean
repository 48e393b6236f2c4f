import Lootbox.Commitment.FunctionRelation
import Lootbox.Commitment.WellFormation
import Lootbox.Commitment.ZeroOverK

/-!
# `index_private_marlin`: the rounds of the prover

The generator of the prover is the sequence of its values. The linear combinations of the two
sum checks read their evaluations from a provider, which the prover instantiates with its
polynomials.
-/

namespace Lootbox.IndexPrivateMarlin

open AcCompiler
open ZeroOverK (PolynomialLabel LabeledPolynomial)

variable {F : Type} [Field F] [DecidableEq F]

structure ProverState (F : Type) [Field F] where
  assignment : List F
  publicInputs : List F
  output : List F
  zA : List F
  zB : List F
  zkBound : Nat
  zPoly : Option (DensePolynomial F)
  mzPolys : Option (DensePolynomial F × DensePolynomial F)
  index : Index F
  verifierFirstMsg : Option (VerifierFirstMsg F)
  maskPoly : Option (DensePolynomial F)
  innerMaskPoly : Option (DensePolynomial F)
  domainH : EvaluationDomain F
  domainK : EvaluationDomain F

structure ProverFirstOracles (F : Type) where
  z : DensePolynomial F
  zA : DensePolynomial F
  zB : DensePolynomial F
  maskPoly : DensePolynomial F
  innerMaskPoly : DensePolynomial F
  deriving DecidableEq, Repr

structure ProverSecondOracles (F : Type) where
  t : DensePolynomial F
  g1 : DensePolynomial F
  h1 : DensePolynomial F
  deriving DecidableEq, Repr

structure ProverThirdOracles (F : Type) where
  f : DensePolynomial F
  g2 : DensePolynomial F
  deriving DecidableEq, Repr

def ProverFirstOracles.iter (self : ProverFirstOracles F) : List (LabeledPolynomial F) :=
  [⟨"z", self.z⟩, ⟨"z_a", self.zA⟩, ⟨"z_b", self.zB⟩, ⟨"mask_poly", self.maskPoly⟩,
    ⟨"inner_mask_poly", self.innerMaskPoly⟩]

def ProverSecondOracles.iter (self : ProverSecondOracles F) : List (LabeledPolynomial F) :=
  [⟨"t", self.t⟩, ⟨"g_1", self.g1⟩, ⟨"h_1", self.h1⟩]

def ProverThirdOracles.iter (self : ProverThirdOracles F) : List (LabeledPolynomial F) :=
  [⟨"f", self.f⟩, ⟨"g_2", self.g2⟩]

/-! ### Dense polynomials by index -/

/-- `DensePolynomial::degree` -/
def degree (p : DensePolynomial F) : Nat := p.coeffs.length - 1

/-- `DensePolynomial::rand(d, rng)` -/
def randPolynomial (d : Nat) (rng : Nat → F) : DensePolynomial F :=
  .fromCoefficientsVec ((List.range (d + 1)).map rng)

/-- `poly[i]` -/
def coeffAt (poly : DensePolynomial F) (i : Nat) : Except Error F := need .aborted poly.coeffs[i]?

/-- `poly[i] = value` -/
def setCoeff (poly : DensePolynomial F) (i : Nat) (value : F) : Except Error (DensePolynomial F) :=
  if i < poly.coeffs.length then .ok ⟨poly.coeffs.set i value⟩ else .error .aborted

/-- `from_coefficients_slice(&poly.coeffs[1..])` -/
def divideByX (poly : DensePolynomial F) : Except Error (DensePolynomial F) := do
  let coeffs ← sliceFrom poly.coeffs 1
  return .fromCoefficientsVec coeffs

/-! ### Initialization -/

/-- The coefficients of the row are not read. -/
def innerProd (assignment : List F) (row : List (F × Nat)) : Except Error F :=
  row.foldlM (fun acc (_, i) => do
    let value ← need .aborted assignment[i]?
    return acc + value) 0

def proverInit (params : EvaluationDomain.FftParameters F) (index : Index F) (assignment : List F) :
    Except Error (ProverState F) := do
  let z_a ← index.a.mapM (innerProd assignment)
  let z_b ← index.b.mapM (innerProd assignment)
  let zk_bound := 1
  let (domain_k, domain_h) ← indexDomains params index.indexInfo
  let public_inputs ← sliceTo assignment index.indexInfo.numberOfInputRows
  let output_start ← usizeSub index.indexInfo.numberOfConstraints index.indexInfo.numberOfOutputs
  let output ← sliceFrom assignment output_start
  return {
    assignment := assignment
    publicInputs := public_inputs
    output := output
    zA := z_a
    zB := z_b
    zkBound := zk_bound
    zPoly := none
    mzPolys := none
    index := index
    verifierFirstMsg := none
    maskPoly := none
    innerMaskPoly := none
    domainH := domain_h
    domainK := domain_k }

/-! ### First round -/

/-- An interpolation over `H`, masked by a multiple of the vanishing polynomial. -/
def maskedInterpolation (domain_h : EvaluationDomain F) (evals : List F) (mask : F) :
    DensePolynomial F :=
  domain_h.interpolate evals + .fromCoefficientsVec [mask] * domain_h.vanishingPolynomial

/-- The coefficients at the multiples of `nh` are added up. -/
def sumMultiples (mask_poly : DensePolynomial F) (nh upper_bound : Nat) : Except Error F :=
  (List.range (upper_bound + 1)).foldlM (fun r_0 i => do
    let coeff ← coeffAt mask_poly (nh * i)
    return r_0 + coeff) 0

/-- The masking of the outer sum check, with sum zero over `H`. -/
def outerMask (domain_h : EvaluationDomain F) (zk_bound : Nat) (rng : Nat → F) :
    Except Error (DensePolynomial F) := do
  let mask_poly_degree := 3 * domain_h.size + 2 * zk_bound - 1
  let mask_poly := randPolynomial mask_poly_degree rng
  let nh := domain_h.size
  let upper_bound := mask_poly_degree / nh
  let r_0 ← sumMultiples mask_poly nh upper_bound
  let constant ← coeffAt mask_poly 0
  setCoeff mask_poly 0 (constant - r_0)

/-- The masking of the inner sum check, with constant coefficient zero. -/
def innerMask (domain_k : EvaluationDomain F) (rng : Nat → F) : Except Error (DensePolynomial F) :=
  setCoeff (randPolynomial (domain_k.size - 1) rng) 0 0

def proverFirstRound (state : ProverState F) (rng : Nat → F) :
    Except Error (ProverFirstOracles F × ProverState F) := do
  let z_poly := maskedInterpolation state.domainH state.assignment (rng 0)
  let z_a_poly := maskedInterpolation state.domainH state.zA (rng 1)
  let z_b_poly := maskedInterpolation state.domainH state.zB (rng 2)
  let mask_poly ← outerMask state.domainH state.zkBound fun i => rng (3 + i)
  let drawn := 3 + (3 * state.domainH.size + 2 * state.zkBound)
  let inner_mask_poly ← innerMask state.domainK fun i => rng (drawn + i)
  if ¬ degree z_a_poly < state.domainH.size + state.zkBound then throw .aborted
  if ¬ degree z_b_poly < state.domainH.size + state.zkBound then throw .aborted
  return (⟨z_poly, z_a_poly, z_b_poly, mask_poly, inner_mask_poly⟩,
    { state with
      zPoly := some z_poly
      mzPolys := some (z_a_poly, z_b_poly)
      maskPoly := some mask_poly
      innerMaskPoly := some inner_mask_poly })

/-! ### Second round -/

/-- `r(alpha, X)` on the domain. `batch_inversion` leaves zeros alone. -/
def batchEvalUnnormalizedBivariateLagrangePolyWithDiffInputs (domain : EvaluationDomain F) (x : F) :
    List F :=
  domain.elements.map fun y => (x - y)⁻¹ * domain.evaluateVanishingPolynomial x

/-- `t_evals_on_h[c] += eta * coeff * r_alpha_x_on_h[r]` -/
def addToT (r_alpha_x_on_h : List F) (eta : F) (t_evals_on_h : List F) (e : (F × Nat) × Nat) :
    Except Error (List F) := do
  let r_alpha ← need .aborted r_alpha_x_on_h[e.2]?
  let t_eval ← need .aborted t_evals_on_h[e.1.2]?
  return t_evals_on_h.set e.1.2 (t_eval + eta * e.1.1 * r_alpha)

def calculateT (matrices : List (Matrix F)) (matrix_randomizers : List F)
    (domain_h : EvaluationDomain F) (r_alpha_x_on_h : List F) : Except Error (DensePolynomial F) := do
  let t_evals_on_h ← (matrices.zip matrix_randomizers).foldlM (fun t_evals_on_h (matrix, eta) =>
    (matrixEntries matrix).foldlM (addToT r_alpha_x_on_h eta) t_evals_on_h)
    (List.replicate domain_h.size 0)
  return domain_h.interpolate t_evals_on_h

/-- A loop over zipped vectors stops with the shorter one. -/
def addPrefix : List F → List F → List F
  | c :: cs, d :: ds => (c + d) :: addPrefix cs ds
  | cs, _ => cs

def summedZM (first : VerifierFirstMsg F) (z_a_poly z_b_poly : DensePolynomial F) :
    DensePolynomial F :=
  let z_c_poly := z_a_poly * z_b_poly
  let summed_z_m_coeffs := z_c_poly.coeffs.map (· * first.etaC)
  .fromCoefficientsVec (addPrefix summed_z_m_coeffs
    (List.zipWith (fun a b => first.etaA * a + first.etaB * b) z_a_poly.coeffs z_b_poly.coeffs))

/-- `r * summed_z_m - z * t`, through the evaluations over a large enough domain. -/
def sumcheckRhs (params : EvaluationDomain.FftParameters F)
    (mask_poly r_alpha_poly summed_z_m z_poly t_poly : DensePolynomial F) :
    Except Error (DensePolynomial F) := do
  let mul_domain_size := max mask_poly.coeffs.length
    (max (r_alpha_poly.coeffs.length + summed_z_m.coeffs.length)
      (t_poly.coeffs.length + z_poly.coeffs.length))
  let mul_domain ← need .aborted (params.radix2Domain mul_domain_size)
  let r_alpha_evals := FunctionRelation.fft mul_domain r_alpha_poly.coeffs
  let summed_z_m_evals := FunctionRelation.fft mul_domain summed_z_m.coeffs
  let z_poly_evals := FunctionRelation.fft mul_domain z_poly.coeffs
  let t_poly_m_evals := FunctionRelation.fft mul_domain t_poly.coeffs
  return mul_domain.interpolate (List.zipWith (· - ·)
    (List.zipWith (· * ·) r_alpha_evals summed_z_m_evals)
    (List.zipWith (· * ·) z_poly_evals t_poly_m_evals))

def proverSecondRound (params : EvaluationDomain.FftParameters F) (ver_message : VerifierFirstMsg F)
    (state : ProverState F) : Except Error (ProverSecondOracles F × ProverState F) := do
  let mask_poly ← need .aborted state.maskPoly
  let (z_a_poly, z_b_poly) ← need .aborted state.mzPolys
  let summed_z_m := summedZM ver_message z_a_poly z_b_poly
  let r_alpha_x_evals :=
    batchEvalUnnormalizedBivariateLagrangePolyWithDiffInputs state.domainH ver_message.alpha
  let r_alpha_poly := state.domainH.interpolate r_alpha_x_evals
  let t_poly ← calculateT [state.index.a, state.index.b, state.index.c]
    [ver_message.etaA, ver_message.etaB, ver_message.etaC] state.domainH r_alpha_x_evals
  let z_poly ← need .aborted state.zPoly
  let rhs ← sumcheckRhs params mask_poly r_alpha_poly summed_z_m z_poly t_poly
  let q_1 := mask_poly + rhs
  let (h_1, x_g_1) := q_1.divideWithQAndR state.domainH.vanishingPolynomial
  let g_1 ← divideByX x_g_1
  if ¬ degree g_1 ≤ state.domainH.size - 2 then throw .aborted
  if ¬ degree h_1 ≤ 2 * state.domainH.size + 2 * state.zkBound - 1 then throw .aborted
  return (⟨t_poly, g_1, h_1⟩, { state with verifierFirstMsg := some ver_message })

/-! ### Third round -/

/-- `sumcheck_eval` of the sanity checks. -/
def sumcheckEval (ver_message : VerifierSecondMsg F) (first : VerifierFirstMsg F)
    (state : ProverState F) : Except Error F := do
  let r_alpha_x_evals :=
    batchEvalUnnormalizedBivariateLagrangePolyWithDiffInputs state.domainH first.alpha
  let t_poly ← calculateT [state.index.a, state.index.b, state.index.c]
    [first.etaA, first.etaB, first.etaC] state.domainH r_alpha_x_evals
  return t_poly.evaluate ver_message.beta * (state.domainK.size : F)⁻¹

def proverThirdRound (ver_message : VerifierSecondMsg F) (state : ProverState F) :
    Except Error (ProverThirdOracles F × ProverState F) := do
  let inner_mask_poly ← need .aborted state.innerMaskPoly
  let first ← need .aborted state.verifierFirstMsg
  let b_poly := thirdRoundBPoly state.index first ver_message
  let a_poly := thirdRoundAPoly state.index state.domainH first ver_message
  let f_poly ← proverThirdRoundF state.index state.domainH state.domainK first ver_message
  let (h_2, reminder) := (a_poly - b_poly * f_poly).divideWithQAndR state.domainK.vanishingPolynomial
  if reminder ≠ 0 then throw .aborted
  let zk_f_poly := f_poly + inner_mask_poly
  let g_2 ← divideByX zk_f_poly
  let sumcheck_eval ← sumcheckEval ver_message first state
  let beta2 : F := 123131
  let x_poly : DensePolynomial F := .fromCoefficientsVec [0, 1]
  let constant ← coeffAt zk_f_poly 0
  if constant ≠ sumcheck_eval then throw .aborted
  if zk_f_poly ≠ x_poly * g_2 + .fromCoefficientsVec [sumcheck_eval] then throw .aborted
  if zk_f_poly.evaluate beta2 ≠ beta2 * g_2.evaluate beta2 + sumcheck_eval then throw .aborted
  if ¬ degree h_2 < 6 * state.domainK.size - 6 then throw .aborted
  if ¬ degree g_2 ≤ state.domainK.size - 2 then throw .aborted
  return (⟨f_poly, g_2⟩, { state with innerMaskPoly := none })

/-! ### Linear combinations -/

inductive LCTerm
  | one
  | polyLabel (label : PolynomialLabel)
  deriving DecidableEq, Repr

structure LinearCombination (F : Type) where
  label : PolynomialLabel
  terms : List (F × LCTerm)
  deriving DecidableEq, Repr

/-- `Error::MissingEval` -/
structure MissingEval where
  message : String
  deriving DecidableEq, Repr

abbrev EvaluationsProvider (F : Type) := LinearCombination F → F → Except MissingEval F

def getLcEval (polys : List (LabeledPolynomial F)) : EvaluationsProvider F := fun lc point =>
  lc.terms.foldlM (fun eval (coeff, term) => do
    let value ← (match term with
      | .one => .ok 1
      | .polyLabel label => do
        let p ← need ⟨"Missing " ++ label ++ " for " ++ lc.label⟩
          (polys.find? fun p => p.label == label)
        return p.polynomial.evaluate point : Except MissingEval F)
    return eval + coeff * value) 0

def evalUnnormalizedBivariateLagrangePoly (domain : EvaluationDomain F) (x y : F) : F :=
  if x ≠ y then
    (domain.evaluateVanishingPolynomial x - domain.evaluateVanishingPolynomial y) / (x - y)
  else domain.size * x ^ (domain.size - 1)

def single (label : PolynomialLabel) : LinearCombination F := ⟨label, [(1, .polyLabel label)]⟩

def outerSumcheck (domain_h : EvaluationDomain F) (first : VerifierFirstMsg F)
    (beta z_b_at_beta t_at_beta g_1_at_beta : F) : LinearCombination F :=
  let r_alpha_at_beta := evalUnnormalizedBivariateLagrangePoly domain_h first.alpha beta
  let v_H_at_beta := domain_h.evaluateVanishingPolynomial beta
  ⟨"outer_sumcheck", [
    (1, .polyLabel "mask_poly"),
    (r_alpha_at_beta * (first.etaA + first.etaC * z_b_at_beta), .polyLabel "z_a"),
    (r_alpha_at_beta * first.etaB * z_b_at_beta, .one),
    (-t_at_beta, .polyLabel "z"),
    (-v_H_at_beta, .polyLabel "h_1"),
    (-beta * g_1_at_beta, .one)]⟩

def fSumcheck (domain_k : EvaluationDomain F) (gamma t_at_beta g_2_at_gamma : F) :
    LinearCombination F :=
  let k_size : F := domain_k.size
  ⟨"f_sumcheck", [
    (1, .polyLabel "inner_mask_poly"),
    (1, .polyLabel "f"),
    (-gamma * g_2_at_gamma, .one),
    (-(t_at_beta / k_size), .one)]⟩

def constructLinearCombinations (evals : EvaluationsProvider F) (domain_h domain_k : EvaluationDomain F)
    (first : VerifierFirstMsg F) (second : VerifierSecondMsg F) (gamma : F) :
    Except MissingEval (List (LinearCombination F)) := do
  let z_b_at_beta ← evals (single "z_b") second.beta
  let t_at_beta ← evals (single "t") second.beta
  let g_1_at_beta ← evals (single "g_1") second.beta
  let outer_sumcheck := outerSumcheck domain_h first second.beta z_b_at_beta t_at_beta g_1_at_beta
  let g_2_at_gamma ← evals (single "g_2") gamma
  let f_sumcheck := fSumcheck domain_k gamma t_at_beta g_2_at_gamma
  return [single "z_b", single "g_1", single "t", outer_sumcheck, single "g_2",
    f_sumcheck].insertionSort fun a b => a.label ≤ b.label

end Lootbox.IndexPrivateMarlin

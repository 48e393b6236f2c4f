import Lootbox.Commitment.CircuitCompiler
import Lootbox.Commitment.VirtualOracle

/-!
# `index_private_marlin`: indexer and rational sumcheck

The prover interpolates a rational function over the domain `K`, and the virtual oracle of
`rational_sumcheck_oracle!` states the same function once more.
-/

namespace Lootbox.IndexPrivateMarlin

open AcCompiler ZeroOverK

inductive Error
  | domainHLargerThanDomainK
  | domainTooLarge
  | aborted
  deriving DecidableEq, Repr

structure VerifierFirstMsg (F : Type) where
  alpha : F
  etaA : F
  etaB : F
  etaC : F
  deriving DecidableEq, Repr

structure VerifierSecondMsg (F : Type) where
  beta : F
  deriving DecidableEq, Repr

structure MatrixArithmetization (F : Type) where
  row : DensePolynomial F
  col : DensePolynomial F
  val : DensePolynomial F
  deriving DecidableEq, Repr

structure Index (F : Type) where
  indexInfo : R1CSfIndex
  aArith : MatrixArithmetization F
  bArith : MatrixArithmetization F
  cArith : MatrixArithmetization F
  a : Matrix F
  b : Matrix F
  c : Matrix F

variable {F : Type} [Field F]

/-! ### Indexer -/

/-- The derivative of the vanishing polynomial at each element: the list is built in the
order of the exponents and its tail is reversed. -/
def batchEvalUnnormalizedBivariateLagrangePolyWithSameInputs (domain : EvaluationDomain F) :
    List F :=
  match domain.elements.map (· * (domain.size : F)) with
  | [] => []
  | elem :: elems => elem :: elems.reverse

/-- The entries of a matrix with the indices of their rows, row after row. -/
def matrixEntries (m : Matrix F) : List ((F × Nat) × Nat) :=
  m.zipIdx.flatMap fun (row, row_index) => row.map fun entry => (entry, row_index)

/-- What one entry pushes to the three vectors. The matrix is transposed here. -/
structure EntryEvals (F : Type) where
  row : F
  col : F
  val : F
  deriving DecidableEq, Repr

variable [DecidableEq F]

def entryEvals (output_domain : EvaluationDomain F) (e : (F × Nat) × Nat) :
    Except Error (EntryEvals F) := do
  let elems := output_domain.elements
  let eq_poly_vals :=
    elems.zip (batchEvalUnnormalizedBivariateLagrangePolyWithSameInputs output_domain)
  let row_val ← need .aborted elems[e.2]?
  let col_val ← need .aborted elems[e.1.2]?
  let eq_poly_val ← need .aborted (eq_poly_vals.lookup col_val)
  return ⟨col_val, row_val, e.1.1 * eq_poly_val⁻¹⟩

def padTo (size : Nat) (evals : List F) (value : F) : List F :=
  evals ++ List.replicate (size - evals.length) value

def arithmetizeMatrix (m : Matrix F) (interpolation_domain output_domain : EvaluationDomain F)
    (is_diag_matrix : Bool) : Except Error (MatrixArithmetization F) := do
  let entries ← (matrixEntries m).mapM (entryEvals output_domain)
  -- `last().unwrap()` on a matrix without entries
  let last ← need .aborted entries.getLast?
  let val_to_append_col := if is_diag_matrix then 1 else last.col
  let val_to_append_row := if is_diag_matrix then 1 else last.row
  let col_vec := padTo interpolation_domain.size (entries.map EntryEvals.col) val_to_append_col
  let row_vec := padTo interpolation_domain.size (entries.map EntryEvals.row) val_to_append_row
  let val_vec := padTo interpolation_domain.size (entries.map EntryEvals.val) 0
  return ⟨interpolation_domain.interpolate row_vec, interpolation_domain.interpolate col_vec,
    interpolation_domain.interpolate val_vec⟩

section Domains

variable (params : EvaluationDomain.FftParameters F)

/-- `check_domains_sizes`, with the `unwrap` of the domain. -/
def checkDomainsSizes (index_info : R1CSfIndex) : Except Error Bool := do
  let interpolation_domain ← need .aborted (params.radix2Domain index_info.numberOfNonZeroEntries)
  return decide (index_info.numberOfConstraints ≤ interpolation_domain.size)

/-- The domains `K` and `H` of an index. -/
def indexDomains (index_info : R1CSfIndex) :
    Except Error (EvaluationDomain F × EvaluationDomain F) := do
  let sizes_ok ← checkDomainsSizes params index_info
  if sizes_ok = false then throw .domainHLargerThanDomainK
  let domain_k ← need .domainTooLarge (params.radix2Domain index_info.numberOfNonZeroEntries)
  let domain_h ← need .domainTooLarge (params.radix2Domain index_info.numberOfConstraints)
  return (domain_k, domain_h)

/-- `Marlin::index` without keys and commitments. -/
def index (index_info : R1CSfIndex) (a b c : Matrix F) : Except Error (Index F) := do
  let (domain_k, domain_h) ← indexDomains params index_info
  let a_arith ← arithmetizeMatrix a domain_k domain_h false
  let b_arith ← arithmetizeMatrix b domain_k domain_h false
  let c_arith ← arithmetizeMatrix c domain_k domain_h true
  return ⟨index_info, a_arith, b_arith, c_arith, a, b, c⟩

end Domains

/-! ### Third round of the prover -/

/-- `(beta - row) * (alpha - col)` -/
def partDenom (alpha beta : F) (m : MatrixArithmetization F) : DensePolynomial F :=
  (.constant beta - m.row) * (.constant alpha - m.col)

def partNom (eta v_h_alpha_v_h_beta : F) (m : MatrixArithmetization F) : DensePolynomial F :=
  .constant (eta * v_h_alpha_v_h_beta) * m.val

section ThirdRound

variable (index : Index F) (domain_h domain_k : EvaluationDomain F) (first : VerifierFirstMsg F)
  (second : VerifierSecondMsg F)

def thirdRoundBPoly : DensePolynomial F :=
  let a_part_denom := partDenom first.alpha second.beta index.aArith
  let b_part_denom := partDenom first.alpha second.beta index.bArith
  let c_part_denom := partDenom first.alpha second.beta index.cArith
  a_part_denom * b_part_denom * c_part_denom

def thirdRoundAPoly : DensePolynomial F :=
  let v_h_at_alpha := domain_h.evaluateVanishingPolynomial first.alpha
  let v_h_at_beta := domain_h.evaluateVanishingPolynomial second.beta
  let v_h_alpha_v_h_beta := v_h_at_alpha * v_h_at_beta
  let a_part_denom := partDenom first.alpha second.beta index.aArith
  let b_part_denom := partDenom first.alpha second.beta index.bArith
  let c_part_denom := partDenom first.alpha second.beta index.cArith
  let a_part_nom := partNom first.etaA v_h_alpha_v_h_beta index.aArith
  let b_part_nom := partNom first.etaB v_h_alpha_v_h_beta index.bArith
  let c_part_nom := partNom first.etaC v_h_alpha_v_h_beta index.cArith
  let summand_0 := a_part_nom * (b_part_denom * c_part_denom)
  let summand_1 := b_part_nom * (a_part_denom * c_part_denom)
  let summand_2 := c_part_nom * (a_part_denom * b_part_denom)
  summand_0 + summand_1 + summand_2

/-- The polynomial `f` of the third round: `a_poly / b_poly` interpolated over `K`. -/
def proverThirdRoundF : Except Error (DensePolynomial F) := do
  let b_poly := thirdRoundBPoly index first second
  let a_poly := thirdRoundAPoly index domain_h first second
  let f_evals ← domain_k.elements.mapM fun elem =>
    -- `inverse().unwrap()`
    if b_poly.evaluate elem = 0 then throw .aborted
    else return a_poly.evaluate elem * (b_poly.evaluate elem)⁻¹
  return domain_k.interpolate f_evals

end ThirdRound

/-! ### Virtual oracle -/

namespace RationalSumcheckOracle

/-- `alpha_beta - beta * col - alpha * row + col * row` -/
def denom (alpha beta : F) (row col : CombineFunction F) : CombineFunction F :=
  .add (.sub (.sub (.mul (.constant alpha) (.constant beta)) (.mul (.constant beta) col))
    (.mul (.constant alpha) row)) (.mul col row)

/-- `rational_sumcheck_oracle!` -/
def combineFunction (first : VerifierFirstMsg F) (second : VerifierSecondMsg F)
    (domain : EvaluationDomain F) : CombineFunction F :=
  let vh_alpha := domain.evaluateVanishingPolynomial first.alpha
  let vh_beta := domain.evaluateVanishingPolynomial second.beta
  let v_h_alpha_v_h_beta := vh_alpha * vh_beta
  let a_denom := denom first.alpha second.beta (.term 1) (.term 2)
  let b_denom := denom first.alpha second.beta (.term 4) (.term 5)
  let c_denom := denom first.alpha second.beta (.term 7) (.term 8)
  let b_poly := .mul (.mul a_denom b_denom) c_denom
  let a_part_nom := .mul (.constant (first.etaA * v_h_alpha_v_h_beta)) (.term 3)
  let b_part_nom := .mul (.constant (first.etaB * v_h_alpha_v_h_beta)) (.term 6)
  let c_part_nom := .mul (.constant (first.etaC * v_h_alpha_v_h_beta)) (.term 9)
  let summand_0 := .mul (.mul a_part_nom b_denom) c_denom
  let summand_1 := .mul (.mul b_part_nom a_denom) c_denom
  let summand_2 := .mul (.mul c_part_nom a_denom) b_denom
  let a_poly := .add (.add summand_0 summand_1) summand_2
  .sub a_poly (.mul b_poly (.term 10))

end RationalSumcheckOracle

/-- The virtual oracle that `Marlin::prove` and `Marlin::verify` build. -/
def rationalSumcheckVO (first : VerifierFirstMsg F) (second : VerifierSecondMsg F)
    (domain_k : EvaluationDomain F) : Except ZeroOverK.Error (GenericShiftingVO F) :=
  GenericShiftingVO.new [0, 1, 2, 3, 4, 5, 6, 7, 8, 9] (List.replicate 10 1)
    (RationalSumcheckOracle.combineFunction first second domain_k)

def rationalSumcheckOracles (index : Index F) (f : DensePolynomial F) : List (DensePolynomial F) :=
  [index.aArith.row, index.aArith.col, index.aArith.val, index.bArith.row, index.bArith.col,
    index.bArith.val, index.cArith.row, index.cArith.col, index.cArith.val, f]

end Lootbox.IndexPrivateMarlin

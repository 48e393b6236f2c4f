import Lootbox.Commitment.VirtualOracle

/-!
# `proof_of_function_relation`: verifiers of the strictly lower triangular test

The verifiers in the ideal model: a commitment is its polynomial, an opening is its value, and
`ZeroOverK` accepts when the virtual oracle vanishes on the domain.
-/

namespace Lootbox.ProofOfFunctionRelation

open ZeroOverK

inductive Error
  | zeroOverK (error : ZeroOverK.Error)
  | notZeroOverK
  | batchCheckError
  | omegaSqrtError
  deriving DecidableEq, Repr

/-- A square root of every square, and of nothing else. -/
structure SquareRootField (F : Type) [Field F] where
  sqrt : F → Option F
  mul_self_eq : ∀ x y, sqrt x = some y → y * y = x
  isSome_of_isSquare : ∀ x, IsSquare x → (sqrt x).isSome

variable {F : Type} [Field F] [DecidableEq F]

def newVO (mapping_vector : List Nat) (shifting_coefficients : List F)
    (combine_function : CombineFunction F) : Except Error (GenericShiftingVO F) :=
  (GenericShiftingVO.new mapping_vector shifting_coefficients combine_function).mapError .zeroOverK

instance (vo : GenericShiftingVO F) (oracles : List (DensePolynomial F))
    (domain : EvaluationDomain F) : Decidable (vo.VanishesOn oracles domain) :=
  inferInstanceAs (Decidable (∀ x ∈ domain.elements, vo.evaluateFromConcreteEvals oracles x = .ok 0))

/-- `ZeroOverK::verify` -/
def verifyZeroOverK (oracles : List (DensePolynomial F)) (vo : GenericShiftingVO F)
    (domain : EvaluationDomain F) : Except Error Unit :=
  if vo.VanishesOn oracles domain then .ok () else .error .notZeroOverK

/-- `PC::batch_check` of one polynomial: a later evaluation of the same point replaces the
earlier one. -/
def batchCheck (f : DensePolynomial F) (points : List F) (evaluations : List (F × F)) :
    Except Error Unit :=
  if ∀ point ∈ points, evaluations.reverse.lookup point = some (f.evaluate point) then .ok ()
  else .error .batchCheckError

namespace GeoSeqTest

/-- The indices at which the sequences start, and the end of the last one. -/
def sequenceStartingIndices (sequence_lengths : List Nat) : List Nat :=
  sequence_lengths.scanl (· + ·) 0

def verify (common_ratio : F) (sequence_initial_values : List F) (sequence_lengths : List Nat)
    (domain : EvaluationDomain F) (f : DensePolynomial F) : Except Error Unit := do
  let geo_seq_vo ← newVO [0, 0] [1, domain.element 1]
    (CombineFunction.geometricSeqCheck common_ratio (domain.element 1) sequence_lengths)
  let points := (sequenceStartingIndices sequence_lengths).map (domain.element 1 ^ ·)
  let evaluations := points.zip sequence_initial_values
  batchCheck f points evaluations
  verifyZeroOverK [f] geo_seq_vo domain

end GeoSeqTest

namespace NonZeroOverK

/-- `g` is the oracle of the prover. -/
def verify (domain : EvaluationDomain F) (f g : DensePolynomial F) : Except Error Unit := do
  let inverse_check_oracle ← newVO [0, 1] [1, 1] CombineFunction.inverseCheck
  verifyZeroOverK [f, g] inverse_check_oracle domain

end NonZeroOverK

namespace SubsetOverK

def verify : Except Error Unit := .ok ()

end SubsetOverK

/-- The initial values and lengths of one sequence, padded with zeros to the size of `K`. -/
def paddedSequence (domain_k : EvaluationDomain F) (initial_value : F) (length : Nat) :
    List F × List Nat :=
  let to_pad := domain_k.size - length
  if to_pad > 0 then ([initial_value, 0], [length, to_pad]) else ([initial_value], [length])

namespace DLComparison

structure Proof (F : Type) where
  s : DensePolynomial F
  fPrime : DensePolynomial F
  gPrime : DensePolynomial F
  sPrime : DensePolynomial F
  h : DensePolynomial F
  nzkFPrime : DensePolynomial F
  nzkGPrime : DensePolynomial F
  nzkSPrime : DensePolynomial F
  nzkSMinusOne : DensePolynomial F
  deriving DecidableEq, Repr

def verify (roots : SquareRootField F) (domain_k domain_h : EvaluationDomain F)
    (f g : DensePolynomial F) (proof : Proof F) : Except Error Unit := do
  let square_check_vo ← newVO [0, 1] [1, 1] CombineFunction.squareCheck
  verifyZeroOverK [f, proof.fPrime] square_check_vo domain_k
  verifyZeroOverK [g, proof.gPrime] square_check_vo domain_k
  verifyZeroOverK [proof.s, proof.sPrime] square_check_vo domain_k
  let product_check_vo ← newVO [0, 1, 2] [1, 1, 1] CombineFunction.abcProductCheck
  verifyZeroOverK [proof.fPrime, proof.sPrime, proof.gPrime] product_check_vo domain_k
  let omega := domain_h.element 1
  let delta ← need .omegaSqrtError (roots.sqrt omega)
  let seq := paddedSequence domain_k 1 domain_h.size
  GeoSeqTest.verify delta seq.1 seq.2 domain_k proof.h
  SubsetOverK.verify
  SubsetOverK.verify
  SubsetOverK.verify
  NonZeroOverK.verify domain_k proof.fPrime proof.nzkFPrime
  NonZeroOverK.verify domain_k proof.gPrime proof.nzkGPrime
  NonZeroOverK.verify domain_k proof.sPrime proof.nzkSPrime
  NonZeroOverK.verify domain_k (proof.s - .constant 1) proof.nzkSMinusOne

end DLComparison

namespace TStrictlyLowerTriangular

structure Proof (F : Type) where
  h : DensePolynomial F
  dlProof : DLComparison.Proof F
  deriving DecidableEq, Repr

def verify (roots : SquareRootField F) (t : Nat) (domain_k domain_h : EvaluationDomain F)
    (row col : DensePolynomial F) (proof : Proof F) : Except Error Unit := do
  let seq := paddedSequence domain_k (domain_h.element t) (domain_h.size - t)
  GeoSeqTest.verify (domain_h.element 1) seq.1 seq.2 domain_k proof.h
  SubsetOverK.verify
  DLComparison.verify roots domain_k domain_h row col proof.dlProof

end TStrictlyLowerTriangular

end Lootbox.ProofOfFunctionRelation

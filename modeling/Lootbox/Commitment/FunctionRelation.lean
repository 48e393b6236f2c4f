import Lootbox.Commitment.PolynomialLabels
import Lootbox.Commitment.ProofOfFunctionRelation

/-!
# `proof_of_function_relation`: provers and verifiers

The arguments over a commitment scheme and a `ZeroOverK` argument. The generator of the
transcript is only handed to the strictly lower triangular test and to what it is part of.
-/

namespace Lootbox.FunctionRelation

open ZeroOverK

inductive Error
  | zeroOverK (error : ZeroOverK.Error)
  | batchCheckError
  | fEvalIsZero
  | omegaSqrtError
  | t2Large
  | mismatchedDegreeBounds (first other : PolynomialLabel)
  | missingCommitment (label : PolynomialLabel)
  | aborted
  deriving DecidableEq, Repr

/-- The part of the transcript's generator that these protocols use. -/
class FiatShamirRng (FS : Type) where
  absorb : FS → List UInt8 → FS

structure Transcript where
  absorbed : List (List UInt8)
  deriving DecidableEq, Repr

instance : FiatShamirRng Transcript := ⟨fun t bytes => ⟨t.absorbed ++ [bytes]⟩⟩

theorem Transcript.absorb_absorbed (t : Transcript) (bytes : List UInt8) :
    (FiatShamirRng.absorb t bytes).absorbed = t.absorbed ++ [bytes] := rfl

structure LabeledPolynomial (F : Type) where
  label : PolynomialLabel
  polynomial : DensePolynomial F
  degreeBound : Option Nat
  deriving DecidableEq, Repr

structure LabeledCommitment (C : Type) where
  label : PolynomialLabel
  commitment : C
  degreeBound : Option Nat
  deriving DecidableEq, Repr

structure LinearCombination (F : Type) where
  label : PolynomialLabel
  terms : List (F × PolynomialLabel)
  deriving DecidableEq, Repr

/-- A commitment scheme with its keys, and the argument that a virtual oracle vanishes. `R` is
the state of the prover's randomness. -/
structure Scheme (F C Rand ZP OP R : Type) [Field F] where
  commit : List (LabeledPolynomial F) → R → Except Error (List (LabeledCommitment C) × List Rand × R)
  commitWithoutRng : List (LabeledPolynomial F) → Except Error (List (LabeledCommitment C))
  emptyCommitment : C
  /-- `commitment += (coef, &other)` -/
  addCommitment : C → F → C → C
  emptyRandomness : Rand
  addRandomness : Rand → F → Rand → Rand
  batchOpen : LabeledPolynomial F → LabeledCommitment C → Rand → List F → F → R →
    Except Error (OP × R)
  batchCheck : LabeledCommitment C → List F → List (F × F) → OP → F → Except Error Bool
  proveZeroOverK : List (LabeledPolynomial F) → List (LabeledCommitment C) → List Rand →
    Option Nat → GenericShiftingVO F → EvaluationDomain F → R → Except Error (ZP × R)
  verifyZeroOverK : ZP → List (LabeledCommitment C) → Option Nat → GenericShiftingVO F →
    EvaluationDomain F → Except Error Unit
  /-- `F::rand` of a generator initialized with the bytes. -/
  initializeAndRand : List UInt8 → F
  commitmentBytes : C → List UInt8
  fieldBytes : F → List UInt8

def protocolBytes (name : String) : List UInt8 := name.toUTF8.toList

/-- The eight bytes of a `u64`, the lowest first. -/
def u64Bytes (x : Nat) : List UInt8 := (List.range 8).map fun i => UInt8.ofNat (x / 256 ^ i)

def nth {α : Type} (xs : List α) (i : Nat) : Except Error α := need .aborted xs[i]?

section Protocols

variable {F C Rand ZP OP R : Type} [Field F] [DecidableEq F]

def newVO (mapping_vector : List Nat) (shifting_coefficients : List F)
    (combine_function : CombineFunction F) : Except Error (GenericShiftingVO F) :=
  (GenericShiftingVO.new mapping_vector shifting_coefficients combine_function).mapError .zeroOverK

/-- The transform reads as many coefficients as the domain has elements. -/
def fft (domain : EvaluationDomain F) (coeffs : List F) : List F :=
  domain.elements.map (DensePolynomial.evaluate ⟨coeffs.take domain.size⟩)

/-- `powers_of` a ratio, times each initial term in turn. -/
def generateSequence (common_ratio : F) (initial_terms : List F) (subsequence_lengths : List Nat) :
    Except Error (List F) :=
  if initial_terms.length = 0 ∨ subsequence_lengths.length ≠ initial_terms.length then .error .aborted
  else .ok ((initial_terms.zip subsequence_lengths).flatMap fun (term, length) =>
    (List.range length).map fun i => term * common_ratio ^ i)

/-- Subtraction of `usize`. -/
def usizeSub (a b : Nat) : Except Error Nat := if b ≤ a then .ok (a - b) else .error .aborted

variable (S : Scheme F C Rand ZP OP R)

/-- `aggregate_commitments`: among commitments of one label the last one counts. -/
def aggregateCommitments (commitments : List (LabeledCommitment C)) (randomness : Option (List Rand))
    (lc : LinearCombination F) : Except Error (LabeledCommitment C × Rand) := do
  let randomness := randomness.getD (commitments.map fun _ => S.emptyRandomness)
  let first ← nth commitments 0
  let label_comm_mapping ← (commitments.zip randomness).mapM fun (comm, rand) =>
    if comm.degreeBound ≠ first.degreeBound then
      .error (.mismatchedDegreeBounds first.label comm.label)
    else .ok (comm.label, comm.commitment, rand)
  let (commitment, rand) ← lc.terms.foldlM (fun (commitment, randomness) (coef, label) =>
    match label_comm_mapping.reverse.lookup label with
    | some (comm, rand) =>
      .ok (S.addCommitment commitment coef comm, S.addRandomness randomness coef rand)
    | none => .error (.missingCommitment label)) (S.emptyCommitment, S.emptyRandomness)
  return (⟨lc.label, commitment, first.degreeBound⟩, rand)

/-- The commitment under its label with the enforced degree bound. -/
def LabeledCommitment.bounded (c : LabeledCommitment C) (enforced_degree_bound : Option Nat) :
    LabeledCommitment C := { c with degreeBound := enforced_degree_bound }

namespace GeoSeqTest

structure Proof (ZP OP : Type) where
  zProof : ZP
  openingProof : OP
  deriving DecidableEq, Repr

def vo (common_ratio : F) (sequence_lengths : List Nat) (domain : EvaluationDomain F) :
    Except Error (GenericShiftingVO F) :=
  newVO [0, 0] [1, domain.element 1]
    (CombineFunction.geometricSeqCheck common_ratio (domain.element 1) sequence_lengths)

def fsBytes (common_ratio : F) (sequence_initial_values : List F) (sequence_lengths : List Nat)
    (domain : EvaluationDomain F) (f_commit : LabeledCommitment C) : List UInt8 :=
  protocolBytes "Geometric Sequence Test" ++ sequence_initial_values.flatMap S.fieldBytes ++
    sequence_lengths.flatMap u64Bytes ++ S.fieldBytes common_ratio ++
    S.commitmentBytes f_commit.commitment ++ [1, domain.element 1].flatMap S.fieldBytes

def points (sequence_lengths : List Nat) (domain : EvaluationDomain F) : List F :=
  (ProofOfFunctionRelation.GeoSeqTest.sequenceStartingIndices sequence_lengths).map
    (domain.element 1 ^ ·)

def prove (common_ratio : F) (f : LabeledPolynomial F) (f_commit : LabeledCommitment C)
    (f_rand : Rand) (sequence_initial_values : List F) (sequence_lengths : List Nat)
    (domain : EvaluationDomain F) (rng : R) : Except Error (Proof ZP OP × R) := do
  let geo_seq_vo ← vo common_ratio sequence_lengths domain
  let separation_challenge := S.initializeAndRand
    (fsBytes S common_ratio sequence_initial_values sequence_lengths domain f_commit)
  let (opening_proof, rng) ← S.batchOpen f f_commit f_rand (points sequence_lengths domain)
    separation_challenge rng
  let (z_proof, rng) ← S.proveZeroOverK [f] [f_commit] [f_rand] f.degreeBound geo_seq_vo domain rng
  return (⟨z_proof, opening_proof⟩, rng)

def verify (common_ratio : F) (sequence_initial_values : List F) (sequence_lengths : List Nat)
    (domain : EvaluationDomain F) (f_commit : LabeledCommitment C)
    (enforced_degree_bound : Option Nat) (proof : Proof ZP OP) : Except Error Unit := do
  let bounded_f_commit := f_commit.bounded enforced_degree_bound
  let geo_seq_vo ← vo common_ratio sequence_lengths domain
  let separation_challenge := S.initializeAndRand
    (fsBytes S common_ratio sequence_initial_values sequence_lengths domain f_commit)
  let evaluations := (points sequence_lengths domain).zip sequence_initial_values
  match S.batchCheck bounded_f_commit (points sequence_lengths domain) evaluations
      proof.openingProof separation_challenge with
  | .ok true => S.verifyZeroOverK proof.zProof [bounded_f_commit] enforced_degree_bound geo_seq_vo domain
  | .ok false => .error .batchCheckError
  | .error _ => .error .aborted

end GeoSeqTest

namespace NonZeroOverK

structure Proof (C ZP : Type) where
  gCommit : C
  zeroOverKProof : ZP
  deriving DecidableEq, Repr

def proverFirstRound (domain_k : EvaluationDomain F) (f : LabeledPolynomial F) :
    Except Error (LabeledPolynomial F) := do
  let f_evals := fft domain_k f.polynomial.coeffs
  if 0 ∈ f_evals then throw .fEvalIsZero
  return ⟨"g", domain_k.interpolate (f_evals.map (·⁻¹)), f.degreeBound⟩

def prove (domain : EvaluationDomain F) (f : LabeledPolynomial F) (f_commit : LabeledCommitment C)
    (f_rand : Rand) (rng : R) : Except Error (Proof C ZP × R) := do
  let g ← proverFirstRound domain f
  let (commitments, rands, rng) ← S.commit [g] rng
  let g_commit ← nth commitments 0
  let g_rand ← nth rands 0
  let inverse_check_oracle ← newVO [0, 1] [1, 1] CombineFunction.inverseCheck
  let (zero_over_k_proof, rng) ← S.proveZeroOverK [f, g] [f_commit, g_commit] [f_rand, g_rand]
    f.degreeBound inverse_check_oracle domain rng
  return (⟨g_commit.commitment, zero_over_k_proof⟩, rng)

def verify (domain : EvaluationDomain F) (f_commit : C) (enforced_degree_bound : Option Nat)
    (proof : Proof C ZP) : Except Error Unit := do
  let bounded_f_commit : LabeledCommitment C := ⟨"f", f_commit, enforced_degree_bound⟩
  let g_commit : LabeledCommitment C := ⟨"g", proof.gCommit, enforced_degree_bound⟩
  let inverse_check_oracle ← newVO [0, 1] [1, 1] CombineFunction.inverseCheck
  S.verifyZeroOverK proof.zeroOverKProof [bounded_f_commit, g_commit] enforced_degree_bound
    inverse_check_oracle domain

end NonZeroOverK

/-- The initial values and lengths of a sequence, padded to the size of `K`. -/
def paddedSequence (domain_k : EvaluationDomain F) (initial_value padding : F) (length : Nat) :
    Except Error (List F × List Nat) := do
  let to_pad ← usizeSub domain_k.size length
  if to_pad > 0 then return ([initial_value, padding], [length, to_pad])
  else return ([initial_value], [length])

namespace DLComparison

structure ProverFirstOracles (F : Type) where
  s : LabeledPolynomial F
  fPrime : LabeledPolynomial F
  gPrime : LabeledPolynomial F
  sPrime : LabeledPolynomial F
  h : LabeledPolynomial F
  deriving DecidableEq, Repr

structure ProverFirstRound (F : Type) where
  oracles : ProverFirstOracles F
  aS : List F
  cS : List Nat
  delta : F
  deriving DecidableEq, Repr

structure Proof (C ZP OP : Type) where
  sCommit : C
  fPrimeCommit : C
  gPrimeCommit : C
  sPrimeCommit : C
  hCommit : C
  fPrimeSquareProof : ZP
  gPrimeSquareProof : ZP
  sPrimeSquareProof : ZP
  fPrimeProductProof : ZP
  hProof : GeoSeqTest.Proof ZP OP
  nzkFPrimeProof : NonZeroOverK.Proof C ZP
  nzkGPrimeProof : NonZeroOverK.Proof C ZP
  nzkSPrimeProof : NonZeroOverK.Proof C ZP
  nzkSMinusOneProof : NonZeroOverK.Proof C ZP
  deriving DecidableEq, Repr

/-- The powers of `delta` whose exponents are the discrete logarithms of the values. -/
def primeEvals (domain_h : EvaluationDomain F) (delta : F) (evals : List F) :
    Except Error (List F) :=
  evals.mapM fun y => do
    let power ← need .aborted (domain_h.elements.zipIdx.lookup y)
    return delta ^ power

def proverFirstRound (roots : ProofOfFunctionRelation.SquareRootField F)
    (domain_k domain_h : EvaluationDomain F) (f g : LabeledPolynomial F)
    (enforced_degree_bound : Option Nat) : Except Error (ProverFirstRound F) := do
  let delta ← need .aborted (roots.sqrt (domain_h.element 1))
  let f_evals := fft domain_k f.polynomial.coeffs
  let g_evals := fft domain_k g.polynomial.coeffs
  let s_evals ← (f_evals.zip g_evals).mapM fun (f_eval, g_eval) =>
    -- `inverse().unwrap()`
    if g_eval = 0 then .error .aborted else .ok (f_eval * g_eval⁻¹)
  let label (name : PolynomialLabel) (evals : List F) : LabeledPolynomial F :=
    ⟨name, domain_k.interpolate evals, enforced_degree_bound⟩
  let f_prime_evals ← primeEvals domain_h delta f_evals
  let g_prime_evals ← primeEvals domain_h delta g_evals
  let s_prime_evals ← primeEvals domain_h delta s_evals
  let (a_s, c_s) ← paddedSequence domain_k 1 0 domain_h.size
  let seq ← generateSequence delta a_s c_s
  return ⟨⟨label "s" s_evals, label "f_prime" f_prime_evals, label "g_prime" g_prime_evals,
    label "s_prime" s_prime_evals, label "h" seq⟩, a_s, c_s, delta⟩

def onePoly (enforced_degree_bound : Option Nat) : LabeledPolynomial F :=
  ⟨"one", .fromCoefficientsVec [1], enforced_degree_bound⟩

def sMinusOneLinearCombination : LinearCombination F := ⟨"s_minus_one", [(1, "s"), (-1, "one")]⟩

/-- `to_bytes![PROTOCOL_NAME, commitments]` -/
def fsBytes (commitments : List (LabeledCommitment C)) : List UInt8 :=
  protocolBytes "Discrete-log Comparison" ++ commitments.flatMap fun c => S.commitmentBytes c.commitment

/-- What `prove` does after it has absorbed the commitments. -/
def proveSubProtocols (domain_k : EvaluationDomain F) (f g : LabeledPolynomial F)
    (f_commit g_commit : LabeledCommitment C) (f_rand g_rand : Rand)
    (enforced_degree_bound : Option Nat) (round : ProverFirstRound F)
    (commitments : List (LabeledCommitment C)) (rands : List Rand) (rng : R) :
    Except Error (Proof C ZP OP × R) := do
  let oracles := round.oracles
  let s_commit ← nth commitments 0
  let f_prime_commit ← nth commitments 1
  let g_prime_commit ← nth commitments 2
  let s_prime_commit ← nth commitments 3
  let h_commit ← nth commitments 4
  let s_rand ← nth rands 0
  let f_prime_rand ← nth rands 1
  let g_prime_rand ← nth rands 2
  let s_prime_rand ← nth rands 3
  let h_rand ← nth rands 4
  let square_check_vo ← newVO [0, 1] [1, 1] CombineFunction.squareCheck
  let (f_prime_square_proof, rng) ← S.proveZeroOverK [f, oracles.fPrime] [f_commit, f_prime_commit]
    [f_rand, f_prime_rand] enforced_degree_bound square_check_vo domain_k rng
  let (g_prime_square_proof, rng) ← S.proveZeroOverK [g, oracles.gPrime] [g_commit, g_prime_commit]
    [g_rand, g_prime_rand] enforced_degree_bound square_check_vo domain_k rng
  let (s_prime_square_proof, rng) ← S.proveZeroOverK [oracles.s, oracles.sPrime]
    [s_commit, s_prime_commit] [s_rand, s_prime_rand] enforced_degree_bound square_check_vo domain_k
    rng
  let product_check_vo ← newVO [0, 1, 2] [1, 1, 1] CombineFunction.abcProductCheck
  let (f_prime_product_proof, rng) ← S.proveZeroOverK [oracles.fPrime, oracles.sPrime, oracles.gPrime]
    [f_prime_commit, s_prime_commit, g_prime_commit] [f_prime_rand, s_prime_rand, g_prime_rand]
    enforced_degree_bound product_check_vo domain_k rng
  let (h_proof, rng) ← GeoSeqTest.prove S round.delta oracles.h h_commit h_rand round.aS round.cS
    domain_k rng
  let (nzk_f_prime_proof, rng) ← NonZeroOverK.prove S domain_k oracles.fPrime f_prime_commit
    f_prime_rand rng
  let (nzk_g_prime_proof, rng) ← NonZeroOverK.prove S domain_k oracles.gPrime g_prime_commit
    g_prime_rand rng
  let (nzk_s_prime_proof, rng) ← NonZeroOverK.prove S domain_k oracles.sPrime s_prime_commit
    s_prime_rand rng
  let s_minus_one : LabeledPolynomial F := ⟨"s_minus_one",
    oracles.s.polynomial - (onePoly enforced_degree_bound).polynomial, enforced_degree_bound⟩
  let (s_minus_one_commitment, s_minus_one_rand) ←
    aggregateCommitments S commitments (some rands) sMinusOneLinearCombination
  let (nzk_s_minus_one_proof, rng) ← NonZeroOverK.prove S domain_k s_minus_one
    s_minus_one_commitment s_minus_one_rand rng
  return (⟨s_commit.commitment, f_prime_commit.commitment, g_prime_commit.commitment,
    s_prime_commit.commitment, h_commit.commitment, f_prime_square_proof, g_prime_square_proof,
    s_prime_square_proof, f_prime_product_proof, h_proof, nzk_f_prime_proof, nzk_g_prime_proof,
    nzk_s_prime_proof, nzk_s_minus_one_proof⟩, rng)

variable {FS : Type} [FiatShamirRng FS]

/-- The order of the commitments is `s`, `f_prime`, `g_prime`, `s_prime`, `h`, `one`. -/
def prove (roots : ProofOfFunctionRelation.SquareRootField F) (domain_k domain_h : EvaluationDomain F)
    (f : LabeledPolynomial F) (f_commit : LabeledCommitment C) (f_rand : Rand)
    (g : LabeledPolynomial F) (g_commit : LabeledCommitment C) (g_rand : Rand)
    (enforced_degree_bound : Option Nat) (fs_rng : FS) (rng : R) :
    Except Error (Proof C ZP OP × FS × R) := do
  let round ← proverFirstRound roots domain_k domain_h f g enforced_degree_bound
  let oracles := round.oracles
  let (commitments, rands, rng) ← S.commit [oracles.s, oracles.fPrime, oracles.gPrime,
    oracles.sPrime, oracles.h, onePoly enforced_degree_bound] rng
  let fs_rng := FiatShamirRng.absorb fs_rng (fsBytes S commitments)
  let (proof, rng) ← proveSubProtocols S domain_k f g f_commit g_commit f_rand g_rand
    enforced_degree_bound round commitments rands rng
  return (proof, fs_rng, rng)

/-- The commitments of a proof under the verifier's labels. -/
def proofCommitments (enforced_degree_bound : Option Nat) (proof : Proof C ZP OP) :
    List (LabeledCommitment C) :=
  [⟨"s", proof.sCommit, enforced_degree_bound⟩, ⟨"f_prime", proof.fPrimeCommit, enforced_degree_bound⟩,
    ⟨"g_prime", proof.gPrimeCommit, enforced_degree_bound⟩,
    ⟨"s_prime", proof.sPrimeCommit, enforced_degree_bound⟩,
    ⟨"h", proof.hCommit, enforced_degree_bound⟩]

/-- What `verify` does after it has absorbed the commitments. -/
def verifySubProtocols (roots : ProofOfFunctionRelation.SquareRootField F)
    (domain_k domain_h : EvaluationDomain F) (f_commit g_commit : LabeledCommitment C)
    (enforced_degree_bound : Option Nat) (proof : Proof C ZP OP) : Except Error Unit := do
  let f_commit := f_commit.bounded enforced_degree_bound
  let g_commit := g_commit.bounded enforced_degree_bound
  let s_commit : LabeledCommitment C := ⟨"s", proof.sCommit, enforced_degree_bound⟩
  let f_prime_commit : LabeledCommitment C := ⟨"f_prime", proof.fPrimeCommit, enforced_degree_bound⟩
  let g_prime_commit : LabeledCommitment C := ⟨"g_prime", proof.gPrimeCommit, enforced_degree_bound⟩
  let s_prime_commit : LabeledCommitment C := ⟨"s_prime", proof.sPrimeCommit, enforced_degree_bound⟩
  let h_commit : LabeledCommitment C := ⟨"h", proof.hCommit, enforced_degree_bound⟩
  let square_check_vo ← newVO [0, 1] [1, 1] CombineFunction.squareCheck
  S.verifyZeroOverK proof.fPrimeSquareProof [f_commit, f_prime_commit] enforced_degree_bound
    square_check_vo domain_k
  S.verifyZeroOverK proof.gPrimeSquareProof [g_commit, g_prime_commit] enforced_degree_bound
    square_check_vo domain_k
  S.verifyZeroOverK proof.sPrimeSquareProof [s_commit, s_prime_commit] enforced_degree_bound
    square_check_vo domain_k
  let product_check_vo ← newVO [0, 1, 2] [1, 1, 1] CombineFunction.abcProductCheck
  S.verifyZeroOverK proof.fPrimeProductProof [f_prime_commit, s_prime_commit, g_prime_commit]
    enforced_degree_bound product_check_vo domain_k
  let delta ← need .omegaSqrtError (roots.sqrt (domain_h.element 1))
  let (a_s, c_s) ← paddedSequence domain_k 1 0 domain_h.size
  GeoSeqTest.verify S delta a_s c_s domain_k h_commit enforced_degree_bound proof.hProof
  ProofOfFunctionRelation.SubsetOverK.verify.mapError fun _ => .aborted
  ProofOfFunctionRelation.SubsetOverK.verify.mapError fun _ => .aborted
  ProofOfFunctionRelation.SubsetOverK.verify.mapError fun _ => .aborted
  NonZeroOverK.verify S domain_k f_prime_commit.commitment enforced_degree_bound proof.nzkFPrimeProof
  NonZeroOverK.verify S domain_k g_prime_commit.commitment enforced_degree_bound proof.nzkGPrimeProof
  NonZeroOverK.verify S domain_k s_prime_commit.commitment enforced_degree_bound proof.nzkSPrimeProof
  let commit_to_one ← S.commitWithoutRng [onePoly enforced_degree_bound]
  let one_commit ← nth commit_to_one 0
  let (s_minus_one_commitment, _) ←
    aggregateCommitments S [s_commit, one_commit] none sMinusOneLinearCombination
  NonZeroOverK.verify S domain_k s_minus_one_commitment.commitment enforced_degree_bound
    proof.nzkSMinusOneProof

def verify (roots : ProofOfFunctionRelation.SquareRootField F)
    (domain_k domain_h : EvaluationDomain F) (f_commit g_commit : LabeledCommitment C)
    (enforced_degree_bound : Option Nat) (proof : Proof C ZP OP) (fs_rng : FS) :
    Except Error Unit × FS :=
  (verifySubProtocols S roots domain_k domain_h f_commit g_commit enforced_degree_bound proof,
    FiatShamirRng.absorb fs_rng (fsBytes S (proofCommitments enforced_degree_bound proof)))

end DLComparison

namespace TStrictlyLowerTriangular

structure Proof (C ZP OP : Type) where
  hCommit : C
  dlProof : DLComparison.Proof C ZP OP
  geoSeqProof : GeoSeqTest.Proof ZP OP
  deriving DecidableEq, Repr

variable {FS : Type} [FiatShamirRng FS]

def prove (roots : ProofOfFunctionRelation.SquareRootField F) (t : Nat)
    (domain_k domain_h : EvaluationDomain F)
    (row_poly : LabeledPolynomial F) (row_commit : LabeledCommitment C) (row_random : Rand)
    (col_poly : LabeledPolynomial F) (col_commit : LabeledCommitment C) (col_random : Rand)
    (enforced_degree_bound : Option Nat) (fs_rng : FS) (rng : R) :
    Except Error (Proof C ZP OP × FS × R) := do
  let fs_rng := FiatShamirRng.absorb fs_rng (protocolBytes "t-Strictly Lower Triangular Test")
  let r := domain_h.element 1
  if t > domain_h.size then throw .t2Large
  let (a_s, c_s) ← paddedSequence domain_k (domain_h.element t) 0 (domain_h.size - t)
  let seq ← generateSequence r a_s c_s
  let h : LabeledPolynomial F := ⟨"h", domain_k.interpolate seq, enforced_degree_bound⟩
  let (commitment, rands, rng) ← S.commit [h] rng
  let h_commit ← nth commitment 0
  let h_rand ← nth rands 0
  let (geo_seq_proof, rng) ← GeoSeqTest.prove S r h h_commit h_rand a_s c_s domain_k rng
  let (dl_proof, fs_rng, rng) ← DLComparison.prove S roots domain_k domain_h row_poly row_commit
    row_random col_poly col_commit col_random enforced_degree_bound fs_rng rng
  return (⟨h_commit.commitment, dl_proof, geo_seq_proof⟩, fs_rng, rng)

/-- The steps of `verify` before the discrete logarithms are compared. -/
def verifySequence (t : Nat) (domain_k domain_h : EvaluationDomain F)
    (enforced_degree_bound : Option Nat) (proof : Proof C ZP OP) : Except Error Unit := do
  let length ← usizeSub domain_h.size t
  let (a_s, c_s) ← paddedSequence domain_k (domain_h.element t) 0 length
  let h_commit : LabeledCommitment C := ⟨"h", proof.hCommit, enforced_degree_bound⟩
  GeoSeqTest.verify S (domain_h.element 1) a_s c_s domain_k h_commit enforced_degree_bound
    proof.geoSeqProof
  ProofOfFunctionRelation.SubsetOverK.verify.mapError fun _ => .aborted

def verify (roots : ProofOfFunctionRelation.SquareRootField F) (t : Nat)
    (domain_k domain_h : EvaluationDomain F) (row_commit col_commit : LabeledCommitment C)
    (enforced_degree_bound : Option Nat) (proof : Proof C ZP OP) (fs_rng : FS) :
    Except Error Unit × FS :=
  match verifySequence S t domain_k domain_h enforced_degree_bound proof with
  | .error e => (.error e, fs_rng)
  | .ok () => DLComparison.verify S roots domain_k domain_h (row_commit.bounded enforced_degree_bound)
      (col_commit.bounded enforced_degree_bound) enforced_degree_bound proof.dlProof fs_rng

end TStrictlyLowerTriangular

namespace TDiag

structure Proof (C ZP OP : Type) where
  h1Commit : C
  h2Commit : C
  h1SeqProof : GeoSeqTest.Proof ZP OP
  h2SeqProof : GeoSeqTest.Proof ZP OP
  hEqRowM : ZP
  rowMEqColM : ZP
  valMTimesH2Proof : ZP
  valPlusH2Proof : NonZeroOverK.Proof C ZP
  deriving DecidableEq, Repr

def hLinearCombination : LinearCombination F := ⟨"h", [(1, "h1"), (1, "h2")]⟩

def valMPlusH2LinearCombination (val_label : PolynomialLabel) : LinearCombination F :=
  ⟨"val_plus_h2", [(1, val_label), (1, "h2")]⟩

def prove (t : Nat) (row_m col_m val_m : LabeledPolynomial F)
    (row_m_commitment col_m_commitment val_m_commitment : LabeledCommitment C)
    (row_m_random col_m_random val_m_random : Rand) (enforced_degree_bound : Option Nat)
    (domain_k domain_h : EvaluationDomain F) (number_of_constraints : Nat) (rng : R) :
    Except Error (Proof C ZP OP × R) := do
  if t > domain_h.size then throw .t2Large
  let length ← usizeSub number_of_constraints t
  let r_h1 := domain_h.element 1
  let (a_s_h1, c_s_h1) ← paddedSequence domain_k (domain_h.element t) 0 length
  let seq ← generateSequence r_h1 a_s_h1 c_s_h1
  let h1 : LabeledPolynomial F := ⟨"h1", domain_k.interpolate seq, enforced_degree_bound⟩
  let r_h2 := domain_h.element 0
  let (a_s_h2, c_s_h2) ← paddedSequence domain_k 0 1 length
  let seq ← generateSequence r_h2 a_s_h2 c_s_h2
  let h2 : LabeledPolynomial F := ⟨"h2", domain_k.interpolate seq, enforced_degree_bound⟩
  let (h_commitments, h_rands, rng) ← S.commit [h1, h2] rng
  let h1_commit ← nth h_commitments 0
  let h2_commit ← nth h_commitments 1
  let h1_rand ← nth h_rands 0
  let h2_rand ← nth h_rands 1
  let (h1_seq_proof, rng) ← GeoSeqTest.prove S r_h1 h1 h1_commit h1_rand a_s_h1 c_s_h1 domain_k rng
  let (h2_seq_proof, rng) ← GeoSeqTest.prove S r_h2 h2 h2_commit h2_rand a_s_h2 c_s_h2 domain_k rng
  let h : LabeledPolynomial F := ⟨"h", h1.polynomial + h2.polynomial, enforced_degree_bound⟩
  let (h_commitment, h_rand) ← aggregateCommitments S h_commitments (some h_rands) hLinearCombination
  let eq_vo ← newVO [0, 1] [1, 1] CombineFunction.equalityCheck
  let (h_eq_row_m, rng) ← S.proveZeroOverK [h, row_m] [h_commitment, row_m_commitment]
    [h_rand, row_m_random] enforced_degree_bound eq_vo domain_k rng
  let (row_m_eq_col_m, rng) ← S.proveZeroOverK [row_m, col_m] [row_m_commitment, col_m_commitment]
    [row_m_random, col_m_random] enforced_degree_bound eq_vo domain_k rng
  let prod_vo ← newVO [0, 1] [1, 1] CombineFunction.zeroProductCheck
  let (val_m_times_h2_proof, rng) ← S.proveZeroOverK [val_m, h2] [val_m_commitment, h2_commit]
    [val_m_random, h2_rand] enforced_degree_bound prod_vo domain_k rng
  let val_plus_h2 : LabeledPolynomial F :=
    ⟨"val_plus_h2", val_m.polynomial + h2.polynomial, enforced_degree_bound⟩
  let (val_plus_h2_commit, val_plus_h2_rand) ← aggregateCommitments S [h2_commit, val_m_commitment]
    (some [h2_rand, val_m_random]) (valMPlusH2LinearCombination val_m.label)
  let (val_plus_h2_proof, rng) ← NonZeroOverK.prove S domain_k val_plus_h2 val_plus_h2_commit
    val_plus_h2_rand rng
  return (⟨h1_commit.commitment, h2_commit.commitment, h1_seq_proof, h2_seq_proof, h_eq_row_m,
    row_m_eq_col_m, val_m_times_h2_proof, val_plus_h2_proof⟩, rng)

def verify (t : Nat) (row_m_commitment col_m_commitment val_m_commitment : LabeledCommitment C)
    (enforced_degree_bound : Option Nat) (domain_h domain_k : EvaluationDomain F)
    (number_of_constraints : Nat) (proof : Proof C ZP OP) : Except Error Unit := do
  let row_m_commitment := row_m_commitment.bounded enforced_degree_bound
  let col_m_commitment := col_m_commitment.bounded enforced_degree_bound
  let val_m_commitment := val_m_commitment.bounded enforced_degree_bound
  let length ← usizeSub number_of_constraints t
  let (a_s_h1, c_s_h1) ← paddedSequence domain_k (domain_h.element t) 0 length
  let h1_commit : LabeledCommitment C := ⟨"h1", proof.h1Commit, enforced_degree_bound⟩
  let h2_commit : LabeledCommitment C := ⟨"h2", proof.h2Commit, enforced_degree_bound⟩
  GeoSeqTest.verify S (domain_h.element 1) a_s_h1 c_s_h1 domain_k h1_commit enforced_degree_bound
    proof.h1SeqProof
  let (a_s_h2, c_s_h2) ← paddedSequence domain_k 0 1 length
  GeoSeqTest.verify S 1 a_s_h2 c_s_h2 domain_k h2_commit enforced_degree_bound proof.h2SeqProof
  let (h_commit, _) ← aggregateCommitments S [h1_commit, h2_commit] none hLinearCombination
  let eq_vo ← newVO [0, 1] [1, 1] CombineFunction.equalityCheck
  S.verifyZeroOverK proof.hEqRowM [h_commit, row_m_commitment] enforced_degree_bound eq_vo domain_k
  S.verifyZeroOverK proof.rowMEqColM [row_m_commitment, col_m_commitment] enforced_degree_bound eq_vo
    domain_k
  let prod_vo ← newVO [0, 1] [1, 1] CombineFunction.zeroProductCheck
  S.verifyZeroOverK proof.valMTimesH2Proof [val_m_commitment, h2_commit] enforced_degree_bound prod_vo
    domain_k
  let (val_plus_h2_commit, _) ← aggregateCommitments S [val_m_commitment, h2_commit] none
    (valMPlusH2LinearCombination val_m_commitment.label)
  NonZeroOverK.verify S domain_k val_plus_h2_commit.commitment enforced_degree_bound
    proof.valPlusH2Proof

end TDiag

namespace TFT

structure Proof (C ZP OP : Type) where
  aSltProof : TStrictlyLowerTriangular.Proof C ZP OP
  bSltProof : TStrictlyLowerTriangular.Proof C ZP OP
  cDiagProof : TDiag.Proof C ZP OP
  deriving DecidableEq, Repr

structure Oracle (F C Rand : Type) where
  poly : LabeledPolynomial F
  commit : LabeledCommitment C
  random : Rand

/-- The rows, columns and values that `prove` is called with. -/
structure Oracles (F C Rand : Type) where
  rowA : Oracle F C Rand
  colA : Oracle F C Rand
  rowB : Oracle F C Rand
  colB : Oracle F C Rand
  rowC : Oracle F C Rand
  colC : Oracle F C Rand
  valC : Oracle F C Rand

variable {FS : Type} [FiatShamirRng FS]

def prove (serialize : Proof C ZP OP → List UInt8)
    (roots : ProofOfFunctionRelation.SquareRootField F) (t : Nat)
    (domain_k domain_h : EvaluationDomain F) (enforced_degree_bound : Option Nat)
    (o : Oracles F C Rand) (fs_rng : FS) (rng : R) : Except Error (List UInt8 × FS × R) := do
  let (a_slt_proof, fs_rng, rng) ← TStrictlyLowerTriangular.prove S roots t domain_k domain_h
    o.rowA.poly o.rowA.commit o.rowA.random o.colA.poly o.colA.commit o.colA.random
    enforced_degree_bound fs_rng rng
  let (b_slt_proof, fs_rng, rng) ← TStrictlyLowerTriangular.prove S roots t domain_k domain_h
    o.rowB.poly o.rowB.commit o.rowB.random o.colB.poly o.colB.commit o.colB.random
    enforced_degree_bound fs_rng rng
  let (c_diag_proof, rng) ← TDiag.prove S t o.rowC.poly o.colC.poly o.valC.poly o.rowC.commit
    o.colC.commit o.valC.commit o.rowC.random o.colC.random o.valC.random enforced_degree_bound
    domain_k domain_h domain_h.size rng
  return (serialize ⟨a_slt_proof, b_slt_proof, c_diag_proof⟩, fs_rng, rng)

def verify (deserialize : List UInt8 → Option (Proof C ZP OP))
    (roots : ProofOfFunctionRelation.SquareRootField F) (t : Nat)
    (row_a_commitment col_a_commitment row_b_commitment col_b_commitment row_c_commitment
      col_c_commitment val_c_commitment : LabeledCommitment C)
    (enforced_degree_bound : Option Nat) (domain_h domain_k : EvaluationDomain F)
    (proof_bytes : List UInt8) (fs_rng : FS) : Except Error Unit × FS :=
  match deserialize proof_bytes with
  | none => (.error .aborted, fs_rng)
  | some proof =>
    match TStrictlyLowerTriangular.verify S roots t domain_k domain_h row_a_commitment
        col_a_commitment enforced_degree_bound proof.aSltProof fs_rng with
    | (.error e, fs_rng) => (.error e, fs_rng)
    | (.ok (), fs_rng) =>
      match TStrictlyLowerTriangular.verify S roots t domain_k domain_h row_b_commitment
          col_b_commitment enforced_degree_bound proof.bSltProof fs_rng with
      | (.error e, fs_rng) => (.error e, fs_rng)
      | (.ok (), fs_rng) =>
        (TDiag.verify S t row_c_commitment col_c_commitment val_c_commitment enforced_degree_bound
          domain_h domain_k domain_h.size proof.cDiagProof, fs_rng)

end TFT

end Protocols

end Lootbox.FunctionRelation

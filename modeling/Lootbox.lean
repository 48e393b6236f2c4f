import Lootbox.Base.BinarySearch
import Lootbox.Base.BlockExponent
import Lootbox.Base.CoefficientList
import Lootbox.Base.CountedLoop
import Lootbox.Base.DensePolynomial
import Lootbox.Base.DomainSums
import Lootbox.Base.EvaluationDomain
import Lootbox.Base.ExponentQuotient
import Lootbox.Base.FallibleCalls
import Lootbox.Base.FixedWidthCode
import Lootbox.Base.HashTree
import Lootbox.Base.IdealPairing
import Lootbox.Base.IndexRanges
import Lootbox.Base.LittleEndian
import Lootbox.Base.Odometer
import Lootbox.Base.PartialEuclid
import Lootbox.Base.PartialResults
import Lootbox.Base.PlaneLattice
import Lootbox.Base.PowerAccumulator
import Lootbox.Base.PySeq
import Lootbox.Base.RingSamples
import Lootbox.Base.SegmentedProofs
import Lootbox.Base.SignedWord
import Lootbox.Base.StepSystem
import Lootbox.Base.Stitching
import Lootbox.Base.WhileLoop
import Lootbox.Chiavdf.AggUtil
import Lootbox.Chiavdf.AggVdf
import Lootbox.Chiavdf.Bqfc
import Lootbox.Chiavdf.ChallengeSeeds
import Lootbox.Chiavdf.ClaimedRounds
import Lootbox.Chiavdf.EventLoop
import Lootbox.Chiavdf.Form
import Lootbox.Chiavdf.FormArithmetic
import Lootbox.Chiavdf.HonestRuns
import Lootbox.Chiavdf.IntermediateStore
import Lootbox.Chiavdf.NWesolowski
import Lootbox.Chiavdf.NonceWalk
import Lootbox.Chiavdf.Nucomp
import Lootbox.Chiavdf.ProverAccounting
import Lootbox.Chiavdf.ProverManager
import Lootbox.Chiavdf.Reducer
import Lootbox.Chiavdf.SegmentBlobs
import Lootbox.Chiavdf.Wesolowski
import Lootbox.Chiavdf.XgcdPartial
import Lootbox.Commitment.BuilderErrors
import Lootbox.Commitment.CircuitCompiler
import Lootbox.Commitment.CommitFunction
import Lootbox.Commitment.ConstraintBuilder
import Lootbox.Commitment.DiagonalTest
import Lootbox.Commitment.FunctionRelation
import Lootbox.Commitment.FunctionRelationCompleteness
import Lootbox.Commitment.FunctionRelationTranscript
import Lootbox.Commitment.FunctionalTriple
import Lootbox.Commitment.GeometricSequence
import Lootbox.Commitment.IdealCommitments
import Lootbox.Commitment.IdealVerifiers
import Lootbox.Commitment.IndexPrivateMarlin
import Lootbox.Commitment.IndexTranscript
import Lootbox.Commitment.Lincheck
import Lootbox.Commitment.LowerTriangularSoundness
import Lootbox.Commitment.MarlinProver
import Lootbox.Commitment.MatrixSums
import Lootbox.Commitment.OuterSumcheck
import Lootbox.Commitment.PolynomialLabels
import Lootbox.Commitment.ProofOfFunctionRelation
import Lootbox.Commitment.QueriedValues
import Lootbox.Commitment.QuerySets
import Lootbox.Commitment.RationalSumcheck
import Lootbox.Commitment.SetupDegree
import Lootbox.Commitment.SumcheckCombinations
import Lootbox.Commitment.VirtualOracle
import Lootbox.Commitment.WellFormation
import Lootbox.Commitment.WinCircuit
import Lootbox.Commitment.WinIndex
import Lootbox.Commitment.WitnessVectors
import Lootbox.Commitment.ZeroOverK
import Lootbox.Commitment.ZeroOverKCompleteness
import Lootbox.Commitment.ZeroOverKSoundness
import Lootbox.Headstart.Basic
import Lootbox.Headstart.Beacon
import Lootbox.Headstart.BeaconHistory
import Lootbox.Headstart.BeaconReaders
import Lootbox.Headstart.BeaconReceipts
import Lootbox.Headstart.BeaconSequential
import Lootbox.Headstart.BeaconServer
import Lootbox.Headstart.BigEndian
import Lootbox.Headstart.Bqf
import Lootbox.Headstart.BqfCanonical
import Lootbox.Headstart.BqfComposition
import Lootbox.Headstart.BqfReduction
import Lootbox.Headstart.BqfTermination
import Lootbox.Headstart.ChiaAccumulator
import Lootbox.Headstart.ClassGroup
import Lootbox.Headstart.Client
import Lootbox.Headstart.ClientCompleteness
import Lootbox.Headstart.ClientSoundness
import Lootbox.Headstart.EquivalentForms
import Lootbox.Headstart.ExponentAccumulators
import Lootbox.Headstart.FormBytes
import Lootbox.Headstart.HashToGroup
import Lootbox.Headstart.HashedForms
import Lootbox.Headstart.MerkleMembership
import Lootbox.Headstart.MerkleSpec
import Lootbox.Headstart.MerkleTree
import Lootbox.Headstart.MerkleWitnesses
import Lootbox.Headstart.NonMembershipWitness
import Lootbox.Headstart.RsaNonMembership
import Lootbox.Headstart.SortedLeaves
import Lootbox.Headstart.SortedMerkle
import Lootbox.Headstart.Stage
import Lootbox.Headstart.ToyVDF
import Lootbox.Headstart.VerificationTermination
import Lootbox.Protocol.DivisionCommitments
import Lootbox.Protocol.FunctionalCommitment
import Lootbox.Protocol.KZG10
import Lootbox.Protocol.LootBoxOpening
import Lootbox.Protocol.ProbabilityVerification

import Lootbox.Headstart.MerkleTree

/-!
# `stage.py`: one stage of the beacon

A stage is filled in field by field while it runs; a field that is not assigned yet is
`none`, and reading it is an `AttributeError`. The earlier stages that a stage
refers to are named by their position in the list of the beacon.
-/

namespace Lootbox.Headstart

inductive Phase
  | NONE
  | CONTRIBUTION
  | EVALUATION
  | DONE
  deriving DecidableEq, Repr

namespace Phase

def value : Phase → Nat
  | NONE => 0
  | CONTRIBUTION => 1
  | EVALUATION => 2
  | DONE => 3

end Phase

/-- `AggregateVDF`; the class-group code behind it lies outside the package. -/
structure AggregateVDF where
  eval : List Bytes → List Bytes
  aggregate : List Bytes → List Bytes → Bytes
  verify : List Bytes → List (Option Bytes) → Option Bytes → Except PyError Bool

structure Parameters where
  sha256 : Bytes → Bytes
  avdf : AggregateVDF

namespace Parameters

def accumulator (P : Parameters) : MerkleTreeAccumulator := ⟨⟨P.sha256⟩⟩

def hash (P : Parameters) (y : Bytes) : Bytes := P.sha256 y

end Parameters

/-- The next statement of `vdf_run`, with the locals it has read so far. -/
inductive VdfRun
  | notStarted
  | evaluating
  | readingChallenges
  | readingYs (prev_challenges : List Bytes)
  | aggregating (prev_challenges prev_ys : List Bytes)
  | finishing
  | finished
  | raised
  deriving DecidableEq, Repr

structure Stage where
  data : List Bytes
  phase : Phase
  prevStages : List Nat
  acc : Option MerkleTree
  vdfChallenge : Option Bytes
  vdfY : Option Bytes
  vdfProof : Option Bytes
  vdfThread : VdfRun
  deriving DecidableEq, Repr

namespace Stage

/-- `b"DUMMY VALUE"` -/
def dummyValue : Bytes := [68, 85, 77, 77, 89, 32, 86, 65, 76, 85, 69]

/-- `Stage.__init__` -/
def init (prev_stages : List Nat) : Stage where
  data := [dummyValue]
  phase := .CONTRIBUTION
  prevStages := prev_stages
  acc := none
  vdfChallenge := none
  vdfY := none
  vdfProof := none
  vdfThread := .notStarted

def getAccVal (P : Parameters) (self : Stage) : Except PyError Bytes :=
  if self.phase.value < Phase.EVALUATION.value then .error (.valueError "not in evaluation phase")
  else do
    let acc ← need .attributeError self.acc
    P.accumulator.getAccval acc

def getAccProof (P : Parameters) (self : Stage) (data_index : Int) : Except PyError MerkleProof :=
  if self.phase.value < Phase.EVALUATION.value then .error (.valueError "not in evaluation phase")
  else do
    let acc ← need .attributeError self.acc
    P.accumulator.witgen acc self.data data_index

def getVdfProof (self : Stage) : Except PyError Bytes :=
  if self.phase.value < Phase.DONE.value then .error (.valueError "not in done phase")
  else need .attributeError self.vdfProof

def getFinalY (self : Stage) : Except PyError Bytes :=
  if self.phase.value < Phase.DONE.value then .error (.valueError "not in done phase")
  else need .attributeError self.vdfY

/-- The statements of `vdf_run`, one at a time; `stages` are the stages of the beacon. -/
def vdfRunStep (P : Parameters) (stages : List Stage) (self : Stage) : Option Stage :=
  match self.vdfThread with
  | .evaluating =>
    match self.vdfChallenge.bind fun challenge => (P.avdf.eval [challenge]).head? with
    | some y => some { self with vdfY := some y, vdfThread := .readingChallenges }
    | none => some { self with vdfThread := .raised }
  | .readingChallenges =>
    match self.prevStages.mapM fun j => stages[j]?.bind Stage.vdfChallenge with
    | some prev_challenges => some { self with vdfThread := .readingYs prev_challenges }
    | none => some { self with vdfThread := .raised }
  | .readingYs prev_challenges =>
    match self.prevStages.mapM fun j => stages[j]?.bind Stage.vdfY with
    | some prev_ys => some { self with vdfThread := .aggregating prev_challenges prev_ys }
    | none => some { self with vdfThread := .raised }
  | .aggregating prev_challenges prev_ys =>
    match self.vdfChallenge, self.vdfY with
    | some challenge, some y =>
      some { self with
        vdfProof := some (P.avdf.aggregate (prev_challenges ++ [challenge]) (prev_ys ++ [y]))
        vdfThread := .finishing }
    | _, _ => some { self with vdfThread := .raised }
  | .finishing => some { self with phase := .DONE, vdfThread := .finished }
  | .notStarted => none
  | .finished => none
  | .raised => none

/-- What one statement of `vdf_run` can do. -/
inductive VdfStep (P : Parameters) (stages : List Stage) (stage : Stage) : Stage → Prop
  | evaluated {challenge y : Bytes} (hthread : stage.vdfThread = .evaluating)
      (hchallenge : stage.vdfChallenge = some challenge)
      (heval : (P.avdf.eval [challenge]).head? = some y) :
      VdfStep P stages stage { stage with vdfY := some y, vdfThread := .readingChallenges }
  | challengesRead {prev_challenges : List Bytes} (hthread : stage.vdfThread = .readingChallenges)
      (hread : (stage.prevStages.mapM fun j => stages[j]?.bind Stage.vdfChallenge) =
        some prev_challenges) :
      VdfStep P stages stage { stage with vdfThread := .readingYs prev_challenges }
  | ysRead {prev_challenges prev_ys : List Bytes}
      (hthread : stage.vdfThread = .readingYs prev_challenges)
      (hread : (stage.prevStages.mapM fun j => stages[j]?.bind Stage.vdfY) = some prev_ys) :
      VdfStep P stages stage { stage with vdfThread := .aggregating prev_challenges prev_ys }
  | aggregated {prev_challenges prev_ys : List Bytes} {challenge y : Bytes}
      (hthread : stage.vdfThread = .aggregating prev_challenges prev_ys)
      (hchallenge : stage.vdfChallenge = some challenge) (hy : stage.vdfY = some y) :
      VdfStep P stages stage { stage with
        vdfProof := some (P.avdf.aggregate (prev_challenges ++ [challenge]) (prev_ys ++ [y]))
        vdfThread := .finishing }
  | done (hthread : stage.vdfThread = .finishing) :
      VdfStep P stages stage { stage with phase := .DONE, vdfThread := .finished }
  | raised (hthread : stage.vdfThread ≠ .notStarted) :
      VdfStep P stages stage { stage with vdfThread := .raised }

theorem vdfRunStep_cases {P : Parameters} {stages : List Stage} {stage stage' : Stage}
    (h : stage.vdfRunStep P stages = some stage') : VdfStep P stages stage stage' := by
  unfold vdfRunStep at h
  cases hthread : stage.vdfThread with
  | notStarted | finished | raised =>
    rw [hthread] at h
    cases h
  | evaluating =>
    rw [hthread] at h
    dsimp only at h
    split at h
    · rename_i y hbind
      obtain ⟨challenge, hchallenge, heval⟩ := Option.bind_eq_some_iff.mp hbind
      cases h
      exact .evaluated hthread hchallenge heval
    · cases h
      exact .raised (by simp [hthread])
  | readingChallenges =>
    rw [hthread] at h
    dsimp only at h
    split at h
    · rename_i prev_challenges hread
      cases h
      exact .challengesRead hthread hread
    · cases h
      exact .raised (by simp [hthread])
  | readingYs prev_challenges =>
    rw [hthread] at h
    dsimp only at h
    split at h
    · rename_i prev_ys hread
      cases h
      exact .ysRead hthread hread
    · cases h
      exact .raised (by simp [hthread])
  | aggregating prev_challenges prev_ys =>
    rw [hthread] at h
    dsimp only at h
    split at h
    · rename_i challenge y hchallenge hy
      cases h
      exact .aggregated hthread hchallenge hy
    · cases h
      exact .raised (by simp [hthread])
  | finishing =>
    rw [hthread] at h
    cases h
    exact .done hthread

end Stage

end Lootbox.Headstart

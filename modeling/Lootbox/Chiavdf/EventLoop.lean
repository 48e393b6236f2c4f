import Lootbox.Base.StepSystem
import Lootbox.Chiavdf.ProverManager

/-!
# `vdf.h`: the event loop of the provers

The main loop squares, provers run in threads of their own, and `RunEventLoop` hands the segments
out: it collects what is finished, appends the segments that the main loop has passed, and keeps
the best ones running. A step of the system is an iteration of the main loop, the end of a prover,
a request for a proof, the part of `RunEventLoop` up to its inner loop, or one round of that.
-/

namespace Lootbox.Chiavdf

open Headstart BinaryQF ReducedForm StepSystem

/-! ### The code -/

/-- `IsWorseThan`, for segments that are not empty. -/
def Segment.isWorseThan (s other : Segment) : Bool :=
  if s.length > other.length then true
  else if s.length < other.length then false
  else decide (s.start > other.start)

/-- An empty segment is worse than any other. -/
def isWorseThan (s : Option Segment) (other : Segment) : Bool :=
  match s with
  | none => true
  | some s => s.isWorseThan other

/-- An `InterruptableProver` with its segment. -/
structure Prover where
  segment : Segment
  is_paused : Bool
  /-- The proof, once `is_finished` is set. -/
  proof : Option Form
  is_fully_finished : Bool
  deriving DecidableEq, Repr

def Prover.isRunning (q : Prover) : Bool := !q.is_paused

structure ProverManager where
  segment_count : Nat
  max_proving_threads : Nat
  increased_proving : Bool
  provers : List Prover
  pending_segments : List (List Segment)
  last_appended : List Nat
  done_segments : List (List (Option Segment))
  pending_iters : List Nat
  max_proving_iteration : Nat
  vdf_iteration : Nat
  intermediates_iter : Nat
  /-- `active_provers`, as long as the inner loop runs. -/
  active_provers : Option Nat
  deriving DecidableEq, Repr

namespace ProverManager

def init (segment_count max_proving_threads : Nat) : ProverManager where
  segment_count := segment_count
  max_proving_threads := max_proving_threads
  increased_proving := false
  provers := []
  pending_segments := List.replicate segment_count []
  last_appended := List.replicate segment_count 0
  done_segments := List.replicate segment_count []
  pending_iters := []
  max_proving_iteration := 0
  vdf_iteration := 0
  intermediates_iter := 0
  active_provers := none

/-- A bucket of `done_segments` with one more segment; empty ones fill it up to the position. -/
def placeSegment (segments : List (Option Segment)) (position : Nat) (s : Segment) :
    List (Option Segment) :=
  (segments ++ List.replicate (position + 1 - segments.length) none).set position (some s)

def placeDone (done_segments : List (List (Option Segment))) (s : Segment) :
    List (List (Option Segment)) :=
  done_segments.modify (segmentBucket s.length) fun segments => placeSegment segments (s.start / s.length) s

/-- The loop over the provers: those that remain, `done_segments` and `new_small_segment`. -/
def collect : List Prover → List (List (Option Segment)) → List Prover × List (List (Option Segment)) × Bool
  | [], done_segments => ([], done_segments, false)
  | q :: qs, done_segments =>
    match q.proof with
    | none =>
      let r := collect qs done_segments
      (q :: r.1, r.2)
    | some proof =>
      let s := { q.segment with proof := proof }
      let r := collect qs (placeDone done_segments s)
      (if q.is_fully_finished then r.1 else { q with segment := s } :: r.1, r.2.1,
        s.length == 2 ^ 16 || r.2.2)

/-- The loop over one bucket that counts the blobs: `max_proving_iteration` and `proof_blobs`. -/
def countBlobs (segment_size : Nat) : List (Option Segment) → Nat × Nat → Nat × Nat
  | some _ :: ss, (max_proving_iteration, proof_blobs) =>
    let r := (max_proving_iteration + segment_size, proof_blobs + 1)
    if r.2 = 63 then r else countBlobs segment_size ss r
  | _, r => r

/-- The buckets below `i`. -/
def countBuckets (done_segments : List (List (Option Segment))) : Nat → Nat × Nat → Nat × Nat
  | 0, r => r
  | i + 1, r =>
    if r.2 < 63 then
      countBuckets done_segments i
        (if r.1 % segmentSize i ≠ 0 then r
        else countBlobs (segmentSize i) ((done_segments.getD i []).drop (r.1 / segmentSize i)) r)
    else r

def expectedProvingIters (done_segments : List (List (Option Segment))) : Nat :=
  match (done_segments.getD 0 []).getLast? with
  | some (some s) => s.start + s.length
  | _ => 0

/-- `max_proving_iteration`, where a new small segment is done. -/
def advance (self : ProverManager) : Nat :=
  match self.pending_iters.min? with
  | none => self.max_proving_iteration
  | some best_pending_iter =>
    if expectedProvingIters self.done_segments ≥ spanStart best_pending_iter then
      (countBuckets self.done_segments self.segment_count (0, 0)).1
    else self.max_proving_iteration

/-- The round of the inner loop that appends one segment. -/
def appendSegment (checkpoints : List Form) (sg_length : Nat) (st : List Segment × Nat) :
    Except PyError (List Segment × Nat) := do
  let x ← need .indexError checkpoints[st.2 / 2 ^ 16]?
  let y ← need .indexError checkpoints[(st.2 + sg_length) / 2 ^ 16]?
  return (st.1 ++ [⟨st.2, sg_length, x, y, ⟨0, 0, 0⟩⟩], st.2 + sg_length)

/-- `while (last_appended[i] + sg_length <= intermediates_iter)` -/
def appendSegments (checkpoints : List Form) (intermediates_iter sg_length : Nat)
    (st : List Segment × Nat) : Except PyError (List Segment × Nat) :=
  repeatM (appendSegment checkpoints sg_length) ((intermediates_iter - st.2) / sg_length) st

/-- The loop over the buckets. From `i = 24` on, `1LL << (16 + 2 * i)` is undefined. -/
def appendAll (checkpoints : List Form) (intermediates_iter : Nat) :
    Nat → List (List Segment) → List Nat → Except PyError (List (List Segment) × List Nat)
  | i, pending :: pendings, last :: lasts =>
    if i ≥ 24 then .error .overflowError
    else do
      let st ← appendSegments checkpoints intermediates_iter (segmentSize i) (pending, last)
      let r ← appendAll checkpoints intermediates_iter (i + 1) pendings lasts
      return (st.1 :: r.1, st.2 :: r.2)
  | _, _, _ => .ok ([], [])

def countRunning (provers : List Prover) : Nat := provers.countP Prover.isRunning

/-- `RunEventLoop` from an event up to its inner loop. -/
def onEvent (self : ProverManager) (multi_proc_machine : Bool) (checkpoints : List Form)
    (vdf_iteration intermediates_iter : Nat) : Except PyError ProverManager := do
  let increase := vdf_iteration ≥ 500000000 && !self.increased_proving && multi_proc_machine
  let (provers, done_segments, new_small_segment) := collect self.provers self.done_segments
  let self := { self with
    vdf_iteration := vdf_iteration
    max_proving_threads := if increase then self.max_proving_threads + 2 else self.max_proving_threads
    increased_proving := self.increased_proving || increase
    provers := provers
    done_segments := done_segments }
  let self := { self with
    max_proving_iteration := if new_small_segment then self.advance else self.max_proving_iteration }
  let (pending_segments, last_appended) ←
    appendAll checkpoints intermediates_iter 0 self.pending_segments self.last_appended
  return { self with
    intermediates_iter := intermediates_iter
    pending_segments := pending_segments
    last_appended := last_appended
    active_provers := some (countRunning provers) }

/-- Where the best segment is: among the provers or in a bucket. -/
inductive Candidate
  | paused (index : Nat)
  | pending (index : Nat)
  deriving DecidableEq, Repr

def better (best : Option (Segment × Candidate)) (s : Segment) (c : Candidate) :
    Option (Segment × Candidate) :=
  if isWorseThan (best.map Prod.fst) s then some (s, c) else best

/-- `best` after the paused provers. -/
def bestPaused : List Prover → Nat → Option (Segment × Candidate) → Option (Segment × Candidate)
  | [], _, best => best
  | q :: qs, i, best =>
    bestPaused qs (i + 1) (if q.isRunning then best else better best q.segment (.paused i))

/-- `best` after the first segment of each bucket. -/
def bestPending : List (List Segment) → Nat → Option (Segment × Candidate) →
    Option (Segment × Candidate)
  | [], _, best => best
  | [] :: pendings, i, best => bestPending pendings (i + 1) best
  | (s :: _) :: pendings, i, best => bestPending pendings (i + 1) (better best s (.pending i))

/-- `worst_running` and its index -/
def worstRunning : List Prover → Nat → Option (Segment × Nat) → Option (Segment × Nat)
  | [], _, worst => worst
  | q :: qs, i, worst =>
    worstRunning qs (i + 1)
      (if q.isRunning && (worst.map Prod.fst).elim true q.segment.isWorseThan then some (q.segment, i)
      else worst)

def setPaused (provers : List Prover) (i : Nat) (is_paused : Bool) : List Prover :=
  provers.modify i fun q => { q with is_paused := is_paused }

/-- `resume`, or a new prover for a segment that is no longer pending. -/
def spawn (self : ProverManager) (best : Segment) : Candidate → ProverManager
  | .paused index => { self with provers := setPaused self.provers index false }
  | .pending index => { self with
      provers := self.provers ++ [⟨best, false, none, false⟩]
      pending_segments := self.pending_segments.modify index List.tail }

def spawnRound (self : ProverManager) (active_provers : Nat) : Except PyError ProverManager :=
  match bestPending self.pending_segments 0 (bestPaused self.provers 0 none) with
  | none => .ok { self with active_provers := none }
  | some (best, candidate) =>
    if active_provers < self.max_proving_threads then
      .ok { self.spawn best candidate with active_provers := some (active_provers + 1) }
    else
      match worstRunning self.provers 0 none with
      -- `worst_index` has no value here.
      | none => .error .indexError
      | some (worst_running, worst_index) =>
        if worst_running.isWorseThan best then
          .ok ({ self with provers := setPaused self.provers worst_index true }.spawn best candidate)
        else .ok { self with active_provers := none }

end ProverManager

/-! ### The system -/

structure Client where
  iterations : Nat
  callback : FastAlgorithmCallback
  manager : ProverManager
  deriving DecidableEq, Repr

/-- `vdf n` is what the main loop hands to `OnIteration` after `n` squarings. -/
structure ClientConfig where
  gcdext : Gcdext
  shrink : Form → Option Form
  H : Primitives
  fuel : Nat
  D : Int
  vdf : Nat → Form

inductive ClientAction
  | iteration
  | finish (i : Nat) (proof : Form)
  | fullyFinish (i : Nat)
  | request (iteration : Nat)
  | answer (iteration : Nat)
  | store (forms : List Form)
  | event (vdf_iteration intermediates_iter : Nat)
  | spawn
  deriving DecidableEq, Repr

namespace Client

def init (segment_count max_proving_threads : Nat) (f : Form) (multi_proc_machine : Bool) : Client where
  iterations := 0
  callback := FastAlgorithmCallback.init segment_count f multi_proc_machine
  manager := ProverManager.init segment_count max_proving_threads

/-- The main loop has written over forms of the segment. -/
def Overtaken (self : Client) (s : Segment) : Prop :=
  s.start / s.length + kWindowSize ≤ self.iterations / s.length

instance decidableOvertaken (self : Client) (s : Segment) : Decidable (self.Overtaken s) :=
  inferInstanceAs (Decidable (_ ≤ _))

def modifyProver (self : Client) (i : Nat) (f : Prover → Prover) : Client :=
  { self with manager := { self.manager with provers := self.manager.provers.modify i f } }

/-- The end of a prover. It reads the forms on the way, where they stay until it is overtaken; then
the proof can be any form. -/
def finishStep (cfg : ClientConfig) (self : Client) (i : Nat) (proof : Form) : Option Client :=
  match self.manager.provers[i]? with
  | none => none
  | some q =>
    if q.proof = none ∧ (self.Overtaken q.segment ∨ interruptableProof cfg.gcdext cfg.shrink cfg.H
        cfg.fuel cfg.D self.callback.forms q.segment = .ok proof) then
      some (self.modifyProver i fun q => { q with proof := some proof })
    else none

/-- `is_fully_finished` is set after `is_finished`. -/
def fullyFinishStep (self : Client) (i : Nat) : Option Client :=
  match self.manager.provers[i]? with
  | none => none
  | some q =>
    if q.proof = none then none
    else some (self.modifyProver i fun q => { q with is_fully_finished := true })

/-- The threads of `FastStorage`, which may store any forms here. -/
def storeStep (self : Client) (forms : List Form) : Option Client :=
  if self.callback.multi_proc_machine then
    some { self with callback := { self.callback with forms := forms } }
  else none

/-- Up to where the forms are stored. `GetFinishedSegment` of `FastStorage` never goes back; without
one the main loop stores them itself. -/
def FormsStored (self : Client) (vdf_iteration intermediates_iter : Nat) : Prop :=
  if self.callback.multi_proc_machine then self.manager.intermediates_iter ≤ intermediates_iter
  else intermediates_iter = vdf_iteration

instance decidableFormsStored (self : Client) (vdf_iteration intermediates_iter : Nat) :
    Decidable (self.FormsStored vdf_iteration intermediates_iter) := by
  unfold FormsStored
  infer_instance

/-- `RunEventLoop` sees some of the squarings that the main loop has done. -/
def eventStep (self : Client) (vdf_iteration intermediates_iter : Nat) : Option Client :=
  if self.manager.active_provers = none ∧ self.manager.vdf_iteration ≤ vdf_iteration ∧
      vdf_iteration ≤ self.iterations ∧ self.FormsStored vdf_iteration intermediates_iter then
    (self.manager.onEvent self.callback.multi_proc_machine self.callback.checkpoints vdf_iteration
      intermediates_iter).toOption.map fun manager => { self with manager := manager }
  else none

def spawnStep (self : Client) : Option Client :=
  match self.manager.active_provers with
  | none => none
  | some active_provers => (self.manager.spawnRound active_provers).toOption.map
      fun manager => { self with manager := manager }

def step (cfg : ClientConfig) (self : Client) : ClientAction → Option Client
  | .iteration =>
    (self.callback.onIteration cfg.shrink (cfg.vdf (self.iterations + 1)) self.iterations).toOption.map
      fun callback => { self with iterations := self.iterations + 1, callback := callback }
  | .finish i proof => finishStep cfg self i proof
  | .fullyFinish i => fullyFinishStep self i
  | .request iteration => some { self with manager := { self.manager with
      pending_iters := self.manager.pending_iters.insert iteration } }
  | .answer iteration => some { self with manager := { self.manager with
      pending_iters := self.manager.pending_iters.erase iteration } }
  | .store forms => storeStep self forms
  | .event vdf_iteration intermediates_iter => eventStep self vdf_iteration intermediates_iter
  | .spawn => spawnStep self

end Client

end Lootbox.Chiavdf

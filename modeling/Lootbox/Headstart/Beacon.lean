import Lootbox.Headstart.Stage
import Lootbox.Base.PySeq
import Lootbox.Base.StepSystem

/-!
# `server.py`: the beacon as a step function

One step executes one statement of `contribute`, of `next_stage` with the
`stop_contribution` it calls, or of a `vdf_run` thread. Any number of `contribute`
calls run at a time; the scheduler runs one `next_stage` job after another.
Statements that only log are left out.
-/

namespace Lootbox.Headstart

/-- What `RandomnessBeacon.contribute` returns, with the value it was called with. -/
structure Receipt where
  stageIdx : Nat
  dataIdx : Nat
  sig : Bytes
  x : Bytes
  deriving DecidableEq, Repr

/-- The next statement of a `contribute` call. The stage that `self` is in
`Stage.contribute` is kept until the call returns. -/
inductive ContributeCall
  | entering (x : Bytes)
  | checking (stage : Nat) (x : Bytes)
  | appending (stage : Nat) (x : Bytes)
  | counting (stage : Nat) (x : Bytes)
  | indexing (stage : Nat) (x : Bytes) (data_idx : Nat)
  | returned (receipt : Receipt)
  | raised
  deriving DecidableEq, Repr

/-- The next statement of the scheduler's `next_stage` job. -/
inductive NextStageJob
  | idle
  | checking (stage : Nat)
  | settingPhase (stage : Nat)
  | accumulating (stage : Nat)
  | waiting (stage : Nat)
  | challenging (stage : Nat) (prev_stage_y : Bytes)
  | starting (stage : Nat)
  | slicing
  | appending (prev_stages : List Nat)
  deriving DecidableEq, Repr

structure Beacon where
  stages : List Stage
  calls : List ContributeCall
  scheduler : NextStageJob
  deriving DecidableEq, Repr

/-- `W`, `Parameters` and `public_key.sign` with the private key of the beacon. -/
structure BeaconConfig where
  W : Nat
  P : Parameters
  sign : Bytes → Bytes

inductive BeaconAction
  | contribute (x : Bytes)
  | call (i : Nat)
  | scheduler
  | vdfRun (stage : Nat)
  deriving DecidableEq, Repr

namespace Beacon

/-- `RandomnessBeacon.__init__` -/
def init : Beacon where
  stages := [Stage.init []]
  calls := []
  scheduler := .idle

def currentStageIndex (self : Beacon) : Nat := self.stages.length - 1

/-- `RandomnessBeacon.contribute` and `Stage.contribute`. -/
def contributeStep (cfg : BeaconConfig) (self : Beacon) :
    ContributeCall → Option (List Stage × ContributeCall)
  | .entering x => some (self.stages, .checking self.currentStageIndex x)
  | .checking k x => self.stages[k]?.map fun stage =>
      if stage.phase ≠ .CONTRIBUTION then (self.stages, .raised) else (self.stages, .appending k x)
  | .appending k x => some
      (self.stages.modify k fun stage => { stage with data := stage.data ++ [x] }, .counting k x)
  | .counting k x => self.stages[k]?.map fun stage =>
      (self.stages, .indexing k x (stage.data.length - 1))
  | .indexing _ x data_idx => some
      (self.stages, .returned ⟨self.currentStageIndex, data_idx, cfg.sign x, x⟩)
  | .returned _ => none
  | .raised => none

/-- `RandomnessBeacon.next_stage` and `Stage.stop_contribution`; an exception ends the job. -/
def nextStageStep (cfg : BeaconConfig) (self : Beacon) :
    NextStageJob → Option (List Stage × NextStageJob)
  | .idle => some (self.stages, .checking self.currentStageIndex)
  | .checking k => self.stages[k]?.map fun stage =>
      if stage.phase ≠ .CONTRIBUTION then (self.stages, .idle) else (self.stages, .settingPhase k)
  | .settingPhase k => some
      (self.stages.modify k fun stage => { stage with phase := .EVALUATION }, .accumulating k)
  | .accumulating k => self.stages[k]?.map fun stage =>
      match cfg.P.accumulator.accumulate stage.data with
      | .ok acc => (self.stages.modify k fun stage => { stage with acc := some acc }, .waiting k)
      | .error _ => (self.stages, .idle)
  | .waiting k => self.stages[k]?.bind fun stage =>
      match stage.prevStages.getLast? with
      | none => some (self.stages, .challenging k [])
      | some j => self.stages[j]?.map fun prev =>
        if prev.phase.value < Phase.DONE.value then (self.stages, .waiting k)
        else match prev.getFinalY with
          | .ok y => (self.stages, .challenging k y)
          | .error _ => (self.stages, .idle)
  | .challenging k prev_stage_y => self.stages[k]?.map fun stage =>
      match stage.getAccVal cfg.P with
      | .ok accval =>
        (self.stages.modify k fun stage =>
          { stage with vdfChallenge := some (cfg.P.hash (accval ++ prev_stage_y)) }, .starting k)
      | .error _ => (self.stages, .idle)
  | .starting k => some
      (self.stages.modify k fun stage => { stage with vdfThread := .evaluating }, .slicing)
  | .slicing => some (self.stages, .appending
      (PySeq.sliceFrom (List.range self.stages.length) (-(cfg.W : Int) + 1)))
  | .appending prev_stages => some (self.stages ++ [Stage.init prev_stages], .idle)

def step (cfg : BeaconConfig) (self : Beacon) : BeaconAction → Option Beacon
  | .contribute x => some { self with calls := self.calls ++ [.entering x] }
  | .call i => do
    let call ← self.calls[i]?
    let (stages, call') ← contributeStep cfg self call
    return { self with stages := stages, calls := self.calls.set i call' }
  | .scheduler => do
    let (stages, job) ← nextStageStep cfg self self.scheduler
    return { self with stages := stages, scheduler := job }
  | .vdfRun k => do
    let stage ← self.stages[k]?
    let stage' ← stage.vdfRunStep cfg.P self.stages
    return { self with stages := self.stages.set k stage' }

/-! ### What one step does -/

/-- The ways in which a step changes the stage at position `k`. -/
inductive StageStep (cfg : BeaconConfig) (s : Beacon) (k : Nat) (stage : Stage) :
    BeaconAction → Stage → Prop
  | unchanged (a : BeaconAction) : StageStep cfg s k stage a stage
  | append {i : Nat} {x : Bytes} (h : s.calls[i]? = some (.appending k x)) :
      StageStep cfg s k stage (.call i) { stage with data := stage.data ++ [x] }
  | phase (h : s.scheduler = .settingPhase k) :
      StageStep cfg s k stage .scheduler { stage with phase := .EVALUATION }
  | acc {tree : MerkleTree} (h : s.scheduler = .accumulating k)
      (htree : cfg.P.accumulator.accumulate stage.data = .ok tree) :
      StageStep cfg s k stage .scheduler { stage with acc := some tree }
  | challenge {accval prev_stage_y : Bytes} (h : s.scheduler = .challenging k prev_stage_y)
      (haccval : stage.getAccVal cfg.P = .ok accval) :
      StageStep cfg s k stage .scheduler
        { stage with vdfChallenge := some (cfg.P.hash (accval ++ prev_stage_y)) }
  | thread (h : s.scheduler = .starting k) :
      StageStep cfg s k stage .scheduler { stage with vdfThread := .evaluating }
  | vdf {stage' : Stage} (h : stage.vdfRunStep cfg.P s.stages = some stage') :
      StageStep cfg s k stage (.vdfRun k) stage'

/-- What one step of the job does: the stages and the place after it. -/
inductive JobStep (cfg : BeaconConfig) (s : Beacon) :
    NextStageJob → List Stage → NextStageJob → Prop
  | called : JobStep cfg s .idle s.stages (.checking s.currentStageIndex)
  | refused {k : Nat} {stage : Stage} (hk : s.stages[k]? = some stage)
      (hphase : stage.phase ≠ .CONTRIBUTION) : JobStep cfg s (.checking k) s.stages .idle
  | checked {k : Nat} : JobStep cfg s (.checking k) s.stages (.settingPhase k)
  | phaseSet {k : Nat} : JobStep cfg s (.settingPhase k)
      (s.stages.modify k fun stage => { stage with phase := .EVALUATION }) (.accumulating k)
  | accumulated {k : Nat} {stage : Stage} {tree : MerkleTree} (hk : s.stages[k]? = some stage)
      (htree : cfg.P.accumulator.accumulate stage.data = .ok tree) :
      JobStep cfg s (.accumulating k) (s.stages.modify k fun stage => { stage with acc := some tree })
        (.waiting k)
  | noTree {k : Nat} {stage : Stage} {e : PyError} (hk : s.stages[k]? = some stage)
      (htree : cfg.P.accumulator.accumulate stage.data = .error e) :
      JobStep cfg s (.accumulating k) s.stages .idle
  | noPredecessor {k : Nat} {stage : Stage} (hk : s.stages[k]? = some stage)
      (hlast : stage.prevStages.getLast? = none) :
      JobStep cfg s (.waiting k) s.stages (.challenging k [])
  | asleep {k : Nat} : JobStep cfg s (.waiting k) s.stages (.waiting k)
  | awake {k j : Nat} {stage prev : Stage} {y : Bytes} (hk : s.stages[k]? = some stage)
      (hlast : stage.prevStages.getLast? = some j) (hprev : s.stages[j]? = some prev)
      (hdone : ¬ prev.phase.value < Phase.DONE.value) (hy : prev.getFinalY = .ok y) :
      JobStep cfg s (.waiting k) s.stages (.challenging k y)
  | noFinalY {k j : Nat} {stage prev : Stage} {e : PyError} (hk : s.stages[k]? = some stage)
      (hlast : stage.prevStages.getLast? = some j) (hprev : s.stages[j]? = some prev)
      (hdone : ¬ prev.phase.value < Phase.DONE.value) (hy : prev.getFinalY = .error e) :
      JobStep cfg s (.waiting k) s.stages .idle
  | challenged {k : Nat} {prev_stage_y accval : Bytes} {stage : Stage} (hk : s.stages[k]? = some stage)
      (haccval : stage.getAccVal cfg.P = .ok accval) :
      JobStep cfg s (.challenging k prev_stage_y) (s.stages.modify k fun stage =>
        { stage with vdfChallenge := some (cfg.P.hash (accval ++ prev_stage_y)) }) (.starting k)
  | noAccVal {k : Nat} {prev_stage_y : Bytes} {stage : Stage} {e : PyError}
      (hk : s.stages[k]? = some stage) (haccval : stage.getAccVal cfg.P = .error e) :
      JobStep cfg s (.challenging k prev_stage_y) s.stages .idle
  | started {k : Nat} : JobStep cfg s (.starting k)
      (s.stages.modify k fun stage => { stage with vdfThread := .evaluating }) .slicing
  | sliced : JobStep cfg s .slicing s.stages
      (.appending (PySeq.sliceFrom (List.range s.stages.length) (-(cfg.W : Int) + 1)))
  | appended {prev_stages : List Nat} :
      JobStep cfg s (.appending prev_stages) (s.stages ++ [Stage.init prev_stages]) .idle

section Inversion
variable {cfg : BeaconConfig} {s t : Beacon} {a : BeaconAction}

theorem nextStageStep_waiting {k : Nat} {stages : List Stage} {job : NextStageJob}
    (h : nextStageStep cfg s (.waiting k) = some (stages, job)) :
    JobStep cfg s (.waiting k) stages job := by
  obtain ⟨stage, hk, heq⟩ := Option.bind_eq_some_iff.mp h
  split at heq
  · rename_i hlast
    cases heq
    exact .noPredecessor hk hlast
  · rename_i j hlast
    obtain ⟨prev, hprev, heq⟩ := Option.map_eq_some_iff.mp heq
    by_cases hdone : prev.phase.value < Phase.DONE.value
    · rw [if_pos hdone] at heq
      cases heq
      exact .asleep
    · rw [if_neg hdone] at heq
      cases hy : prev.getFinalY with
      | ok y =>
        rw [hy] at heq
        cases heq
        exact .awake hk hlast hprev hdone hy
      | error e =>
        rw [hy] at heq
        cases heq
        exact .noFinalY hk hlast hprev hdone hy

theorem nextStageStep_cases {job job' : NextStageJob} {stages : List Stage}
    (h : nextStageStep cfg s job = some (stages, job')) : JobStep cfg s job stages job' := by
  cases job with
  | idle =>
    cases h
    exact .called
  | checking k =>
    obtain ⟨stage, hk, heq⟩ := Option.map_eq_some_iff.mp h
    split at heq
    · cases heq
      exact .refused hk ‹_›
    · cases heq
      exact .checked
  | settingPhase k =>
    cases h
    exact .phaseSet
  | accumulating k =>
    obtain ⟨stage, hk, heq⟩ := Option.map_eq_some_iff.mp h
    split at heq
    · cases heq
      exact .accumulated hk ‹_›
    · cases heq
      exact .noTree hk ‹_›
  | waiting k => exact nextStageStep_waiting h
  | challenging k prev_stage_y =>
    obtain ⟨stage, hk, heq⟩ := Option.map_eq_some_iff.mp h
    split at heq
    · cases heq
      exact .challenged hk ‹_›
    · cases heq
      exact .noAccVal hk ‹_›
  | starting k =>
    cases h
    exact .started
  | slicing =>
    cases h
    exact .sliced
  | appending prev_stages =>
    cases h
    exact .appended

theorem step_call_eq_some_iff {i : Nat} :
    step cfg s (.call i) = some t ↔ ∃ call stages call', s.calls[i]? = some call ∧
      contributeStep cfg s call = some (stages, call') ∧
      t = { s with stages := stages, calls := s.calls.set i call' } := by
  simp only [step, Option.bind_eq_bind, Option.bind_eq_some_iff, pure, Option.some.injEq,
    Prod.exists]
  constructor
  · rintro ⟨call, hcall, stages, call', hstep, rfl⟩
    exact ⟨call, stages, call', hcall, hstep, rfl⟩
  · rintro ⟨call, stages, call', hcall, hstep, rfl⟩
    exact ⟨call, hcall, stages, call', hstep, rfl⟩

theorem step_scheduler_eq_some_iff :
    step cfg s .scheduler = some t ↔ ∃ stages job,
      nextStageStep cfg s s.scheduler = some (stages, job) ∧
      t = { s with stages := stages, scheduler := job } := by
  simp only [step, Option.bind_eq_bind, Option.bind_eq_some_iff, pure, Option.some.injEq,
    Prod.exists]
  constructor
  · rintro ⟨stages, job, hstep, rfl⟩
    exact ⟨stages, job, hstep, rfl⟩
  · rintro ⟨stages, job, hstep, rfl⟩
    exact ⟨stages, job, hstep, rfl⟩

theorem step_vdfRun_eq_some_iff {k : Nat} :
    step cfg s (.vdfRun k) = some t ↔ ∃ stage stage', s.stages[k]? = some stage ∧
      stage.vdfRunStep cfg.P s.stages = some stage' ∧
      t = { s with stages := s.stages.set k stage' } := by
  simp only [step, Option.bind_eq_bind, Option.bind_eq_some_iff, pure, Option.some.injEq]
  constructor
  · rintro ⟨stage, hstage, stage', hstep, rfl⟩
    exact ⟨stage, stage', hstage, hstep, rfl⟩
  · rintro ⟨stage, stage', hstage, hstep, rfl⟩
    exact ⟨stage, hstage, stage', hstep, rfl⟩

theorem getElem?_modify_eq {stages : List Stage} {j k : Nat} {stage : Stage} {f : Stage → Stage}
    (h : stages[k]? = some stage) :
    (stages.modify j f)[k]? = some (if j = k then f stage else stage) := by
  rw [List.getElem?_modify, h]
  rfl

theorem exists_stageStep_modify {j k : Nat} {stage : Stage} {f : Stage → Stage}
    (hk : s.stages[k]? = some stage) (hstep : j = k → StageStep cfg s k stage a (f stage)) :
    ∃ stage', (s.stages.modify j f)[k]? = some stage' ∧ StageStep cfg s k stage a stage' := by
  refine ⟨_, getElem?_modify_eq hk, ?_⟩
  by_cases hj : j = k
  · rw [if_pos hj]
    exact hstep hj
  · rw [if_neg hj]
    exact .unchanged a

theorem of_getElem?_modify {stages : List Stage} {j k : Nat} {stage' : Stage} {f : Stage → Stage}
    (h : (stages.modify j f)[k]? = some stage') :
    ∃ stage, stages[k]? = some stage ∧ (j = k ∧ stage' = f stage ∨ j ≠ k ∧ stage' = stage) := by
  rw [List.getElem?_modify] at h
  obtain ⟨stage, hk, rfl⟩ := Option.map_eq_some_iff.mp h
  by_cases hj : j = k
  · exact ⟨stage, hk, Or.inl ⟨hj, if_pos hj⟩⟩
  · exact ⟨stage, hk, Or.inr ⟨hj, if_neg hj⟩⟩

theorem contributeStep_stage {i k : Nat} {call call' : ContributeCall} {stages : List Stage}
    {stage : Stage} (hcall : s.calls[i]? = some call)
    (h : contributeStep cfg s call = some (stages, call')) (hk : s.stages[k]? = some stage) :
    ∃ stage', stages[k]? = some stage' ∧ StageStep cfg s k stage (.call i) stage' := by
  cases call with
  | entering x =>
    cases h
    exact ⟨stage, hk, .unchanged _⟩
  | checking j x =>
    obtain ⟨other, _, heq⟩ := Option.map_eq_some_iff.mp h
    split at heq
    all_goals
      cases heq
      exact ⟨stage, hk, .unchanged _⟩
  | appending j x =>
    cases h
    exact exists_stageStep_modify hk fun hj => .append (hj ▸ hcall)
  | counting j x =>
    obtain ⟨other, _, heq⟩ := Option.map_eq_some_iff.mp h
    cases heq
    exact ⟨stage, hk, .unchanged _⟩
  | indexing j x data_idx =>
    cases h
    exact ⟨stage, hk, .unchanged _⟩
  | returned receipt => cases h
  | raised => cases h

theorem nextStageStep_stage {k : Nat} {job : NextStageJob} {stages : List Stage} {stage : Stage}
    (h : nextStageStep cfg s s.scheduler = some (stages, job)) (hk : s.stages[k]? = some stage) :
    ∃ stage', stages[k]? = some stage' ∧ StageStep cfg s k stage .scheduler stage' := by
  have hsame : ∃ stage', s.stages[k]? = some stage' ∧ StageStep cfg s k stage .scheduler stage' :=
    ⟨stage, hk, .unchanged _⟩
  have hstep := nextStageStep_cases h
  generalize hjob : s.scheduler = before at hstep
  cases hstep with
  | called | refused | checked | noTree | noPredecessor | asleep | awake | noFinalY | noAccVal
  | sliced => exact hsame
  | phaseSet => exact exists_stageStep_modify hk fun hj => .phase (hj ▸ hjob)
  | accumulated hother htree =>
    apply exists_stageStep_modify hk
    rintro rfl
    cases hk.symm.trans hother
    exact .acc hjob htree
  | challenged hother haccval =>
    apply exists_stageStep_modify hk
    rintro rfl
    cases hk.symm.trans hother
    exact .challenge hjob haccval
  | started => exact exists_stageStep_modify hk fun hj => .thread (hj ▸ hjob)
  | appended =>
    refine ⟨stage, ?_, .unchanged _⟩
    rw [List.getElem?_append_left (List.getElem?_eq_some_iff.mp hk).1]
    exact hk

theorem step_stage {k : Nat} {stage : Stage} (h : step cfg s a = some t)
    (hk : s.stages[k]? = some stage) :
    ∃ stage', t.stages[k]? = some stage' ∧ StageStep cfg s k stage a stage' := by
  cases a with
  | contribute x =>
    cases h
    exact ⟨stage, hk, .unchanged _⟩
  | call i =>
    obtain ⟨call, stages, call', hcall, hstep, rfl⟩ := step_call_eq_some_iff.mp h
    exact contributeStep_stage hcall hstep hk
  | scheduler =>
    obtain ⟨stages, job, hstep, rfl⟩ := step_scheduler_eq_some_iff.mp h
    exact nextStageStep_stage hstep hk
  | vdfRun j =>
    obtain ⟨other, stage', hother, hstep, rfl⟩ := step_vdfRun_eq_some_iff.mp h
    by_cases hj : j = k
    · subst hj
      rw [hk] at hother
      cases hother
      refine ⟨stage', ?_, .vdf hstep⟩
      rw [List.getElem?_set_self (List.getElem?_eq_some_iff.mp hk).1]
    · refine ⟨stage, ?_, .unchanged _⟩
      rw [List.getElem?_set_ne hj]
      exact hk

theorem nextStageStep_length {job : NextStageJob} {stages : List Stage}
    (h : nextStageStep cfg s s.scheduler = some (stages, job)) :
    stages.length = s.stages.length ∨
      ∃ prev_stages, s.scheduler = .appending prev_stages ∧ job = .idle ∧
        stages = s.stages ++ [Stage.init prev_stages] := by
  have hstep := nextStageStep_cases h
  generalize s.scheduler = before at hstep
  cases hstep with
  | appended => exact Or.inr ⟨_, rfl, rfl, rfl⟩
  | phaseSet | accumulated | challenged | started => exact Or.inl (List.length_modify _ _ _)
  | called | refused | checked | noTree | noPredecessor | asleep | awake | noFinalY | noAccVal
  | sliced => exact Or.inl rfl

/-- Stages are only added at the end, by the last statement of `next_stage`. -/
theorem step_length (h : step cfg s a = some t) :
    t.stages.length = s.stages.length ∨
      ∃ prev_stages, a = .scheduler ∧ s.scheduler = .appending prev_stages ∧
        t = { s with stages := s.stages ++ [Stage.init prev_stages], scheduler := .idle } := by
  cases a with
  | contribute x =>
    cases h
    exact Or.inl rfl
  | call i =>
    obtain ⟨call, stages, call', _, hstep, rfl⟩ := step_call_eq_some_iff.mp h
    left
    cases call with
    | checking j x | counting j x =>
      obtain ⟨other, _, heq⟩ := Option.map_eq_some_iff.mp hstep
      repeat' split at heq
      all_goals
        cases heq
        rfl
    | entering x | indexing j x data_idx =>
      cases hstep
      rfl
    | appending j x =>
      cases hstep
      simp
    | returned receipt | raised => cases hstep
  | scheduler =>
    obtain ⟨stages, job, hstep, rfl⟩ := step_scheduler_eq_some_iff.mp h
    rcases nextStageStep_length hstep with hlen | ⟨prev_stages, hjob, rfl, rfl⟩
    · exact Or.inl hlen
    · exact Or.inr ⟨prev_stages, rfl, hjob, rfl⟩
  | vdfRun j =>
    obtain ⟨other, stage', _, _, rfl⟩ := step_vdfRun_eq_some_iff.mp h
    exact Or.inl (by simp)

theorem stage_of_step {k : Nat} {stage' : Stage} (h : step cfg s a = some t)
    (hk : t.stages[k]? = some stage') :
    (∃ stage, s.stages[k]? = some stage ∧ StageStep cfg s k stage a stage') ∨
      ∃ prev_stages, a = .scheduler ∧ s.scheduler = .appending prev_stages ∧
        t = { s with stages := s.stages ++ [Stage.init prev_stages], scheduler := .idle } ∧
        k = s.stages.length ∧ stage' = Stage.init prev_stages := by
  have hlt := (List.getElem?_eq_some_iff.mp hk).1
  by_cases hold : k < s.stages.length
  · left
    obtain ⟨stage'', hk', hstage⟩ := step_stage h (List.getElem?_eq_getElem hold)
    rw [hk] at hk'
    cases hk'
    exact ⟨_, List.getElem?_eq_getElem hold, hstage⟩
  · right
    rcases step_length h with hlen | ⟨prev_stages, ha, hjob, rfl⟩
    · omega
    · rw [List.length_append, List.length_singleton] at hlt
      have hkeq : k = s.stages.length := by omega
      subst hkeq
      rw [List.getElem?_concat_length] at hk
      cases hk
      exact ⟨prev_stages, ha, hjob, rfl, rfl, rfl⟩

theorem scheduler_of_step (ha : a ≠ .scheduler) (h : step cfg s a = some t) :
    t.scheduler = s.scheduler := by
  cases a with
  | contribute x =>
    cases h
    rfl
  | call i =>
    obtain ⟨_, _, _, _, _, rfl⟩ := step_call_eq_some_iff.mp h
    rfl
  | vdfRun j =>
    obtain ⟨_, _, _, _, rfl⟩ := step_vdfRun_eq_some_iff.mp h
    rfl
  | scheduler => exact absurd rfl ha

end Inversion

end Beacon

end Lootbox.Headstart

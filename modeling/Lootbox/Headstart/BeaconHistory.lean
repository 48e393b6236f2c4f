import Lootbox.Headstart.Beacon
import Lootbox.Headstart.MerkleSpec

/-!
# The history of the stages

Whatever the contributors do, the challenge of a stage hashes its accumulator with the
output of the stage before it, its output evaluates the challenge, and its proof
aggregates the window of stages that ends with it. What is assigned stays assigned.
-/

namespace Lootbox.Headstart.Beacon

open StepSystem

/-- The stages that stage `k` aggregates together with itself. -/
def windowBefore (W k : Nat) : List Nat := List.range' (k + 1 - W) (k - (k + 1 - W))

/-- The later state of a stage keeps what the earlier one had. -/
structure Evolved (stage stage' : Stage) : Prop where
  prevStages : stage'.prevStages = stage.prevStages
  acc : ∀ mkt, stage.acc = some mkt → stage'.acc = some mkt
  challenge : ∀ ch, stage.vdfChallenge = some ch → stage'.vdfChallenge = some ch
  y : ∀ y, stage.vdfY = some y → stage'.vdfY = some y
  proof : ∀ p, stage.vdfProof = some p → stage'.vdfProof = some p
  done : stage.phase = .DONE → stage'.phase = .DONE

theorem Evolved.refl (stage : Stage) : Evolved stage stage :=
  ⟨rfl, fun _ => id, fun _ => id, fun _ => id, fun _ => id, id⟩

theorem Evolved.trans {a b c : Stage} (h : Evolved a b) (h' : Evolved b c) : Evolved a c :=
  ⟨h'.prevStages.trans h.prevStages, fun _ e => h'.acc _ (h.acc _ e),
    fun _ e => h'.challenge _ (h.challenge _ e), fun _ e => h'.y _ (h.y _ e),
    fun _ e => h'.proof _ (h.proof _ e), fun e => h'.done (h.done e)⟩

def AllEvolved (stages stages' : List Stage) : Prop :=
  ∀ (j : Nat) (stage : Stage), stages[j]? = some stage →
    ∃ stage', stages'[j]? = some stage' ∧ Evolved stage stage'

/-- The output that the challenge of stage `k` is chained to. -/
def PrevY (stages : List Stage) (k : Nat) (y : Bytes) : Prop :=
  k = 0 ∧ y = [] ∨
    ∃ j prev, k = j + 1 ∧ stages[j]? = some prev ∧ prev.phase = .DONE ∧ prev.vdfY = some y

def fieldOf (field : Stage → Option Bytes) (stages : List Stage) (js : List Nat) :
    Option (List Bytes) :=
  js.mapM fun j => stages[j]?.bind field

/-- What a `vdf_run` thread has read and assigned so far. -/
def ThreadHistory (stages : List Stage) (stage : Stage) : VdfRun → Prop
  | .notStarted => stage.vdfY = none ∧ stage.vdfProof = none ∧ stage.phase ≠ .DONE
  | .evaluating => stage.vdfY = none ∧ stage.vdfProof = none
  | .readingChallenges => stage.vdfProof = none
  | .readingYs chs => stage.vdfProof = none ∧
      fieldOf Stage.vdfChallenge stages stage.prevStages = some chs
  | .aggregating chs ys => stage.vdfProof = none ∧
      fieldOf Stage.vdfChallenge stages stage.prevStages = some chs ∧
      fieldOf Stage.vdfY stages stage.prevStages = some ys
  | .finishing => stage.vdfProof ≠ none
  | .finished => True
  | .raised => True

structure StageHistory (cfg : BeaconConfig) (stages : List Stage) (k : Nat) (stage : Stage) :
    Prop where
  data_ne_nil : stage.data ≠ []
  prevStages_eq : stage.prevStages = windowBefore cfg.W k
  acc_root : ∀ mkt, stage.acc = some mkt →
    ∃ root, cfg.P.accumulator.getAccval mkt = .ok root
  challenge_eq : ∀ ch, stage.vdfChallenge = some ch → ∃ mkt root y, stage.acc = some mkt ∧
    cfg.P.accumulator.getAccval mkt = .ok root ∧ PrevY stages k y ∧ ch = cfg.P.hash (root ++ y)
  y_eq : ∀ y, stage.vdfY = some y →
    ∃ ch, stage.vdfChallenge = some ch ∧ (cfg.P.avdf.eval [ch]).head? = some y
  proof_eq : ∀ p, stage.vdfProof = some p → ∃ ch y chs ys, stage.vdfChallenge = some ch ∧
    stage.vdfY = some y ∧ fieldOf Stage.vdfChallenge stages stage.prevStages = some chs ∧
    fieldOf Stage.vdfY stages stage.prevStages = some ys ∧
    p = cfg.P.avdf.aggregate (chs ++ [ch]) (ys ++ [y])
  done : stage.phase = .DONE → stage.vdfProof ≠ none
  thread : ThreadHistory stages stage stage.vdfThread

/-- Stage `k` is the last one, and no `vdf_run` thread works on it yet. -/
structure Current (stages : List Stage) (k : Nat) (phase : Phase) (acc challenge : Bool) : Prop where
  length : k + 1 = stages.length
  stage : ∃ stage, stages[k]? = some stage ∧ stage.phase = phase ∧ stage.acc.isSome = acc ∧
    stage.vdfChallenge.isSome = challenge ∧ stage.vdfThread = .notStarted

/-- Where the scheduler's job is, the current stage has these fields assigned. -/
def JobHistory (cfg : BeaconConfig) (stages : List Stage) : NextStageJob → Prop
  | .idle => Current stages (stages.length - 1) .CONTRIBUTION false false
  | .checking k => Current stages k .CONTRIBUTION false false
  | .settingPhase k => Current stages k .CONTRIBUTION false false
  | .accumulating k => Current stages k .EVALUATION false false
  | .waiting k => Current stages k .EVALUATION true false
  | .challenging k y => Current stages k .EVALUATION true false ∧ PrevY stages k y
  | .starting k => Current stages k .EVALUATION true true
  | .slicing => True
  | .appending prev_stages => prev_stages = windowBefore cfg.W stages.length

structure History (cfg : BeaconConfig) (s : Beacon) : Prop where
  stages : ∀ (k : Nat) (stage : Stage), s.stages[k]? = some stage →
    StageHistory cfg s.stages k stage
  job : JobHistory cfg s.stages s.scheduler

/-! ### Later states -/

section Later
variable {cfg : BeaconConfig} {stages stages' : List Stage} {k : Nat} {stage : Stage}

theorem PrevY.mono (h : AllEvolved stages stages') {y : Bytes} (hy : PrevY stages k y) :
    PrevY stages' k y := by
  rcases hy with hzero | ⟨j, prev, hk, hprev, hdone, hprevy⟩
  · exact Or.inl hzero
  · obtain ⟨prev', hprev', hev⟩ := h j prev hprev
    exact Or.inr ⟨j, prev', hk, hprev', hev.done hdone, hev.y y hprevy⟩

theorem mapM_mono {f g : Nat → Option Bytes} (h : ∀ j v, f j = some v → g j = some v) :
    ∀ (js : List Nat) (vs : List Bytes), js.mapM f = some vs → js.mapM g = some vs := by
  intro js
  induction js with
  | nil => exact fun _ => id
  | cons j js ih =>
    intro vs hvs
    rw [List.mapM_cons] at hvs ⊢
    obtain ⟨v, hv, hrest⟩ := Option.bind_eq_some_iff.mp hvs
    obtain ⟨ws, hws, heq⟩ := Option.bind_eq_some_iff.mp hrest
    exact Option.bind_eq_some_iff.mpr
      ⟨v, h j v hv, Option.bind_eq_some_iff.mpr ⟨ws, ih ws hws, heq⟩⟩

theorem fieldOf_mono {field : Stage → Option Bytes} (h : AllEvolved stages stages')
    (hfield : ∀ a b, Evolved a b → ∀ v, field a = some v → field b = some v) {js : List Nat}
    {vs : List Bytes} (hvs : fieldOf field stages js = some vs) :
    fieldOf field stages' js = some vs := by
  apply mapM_mono _ js vs hvs
  intro j v hv
  obtain ⟨stage, hstage, hval⟩ := Option.bind_eq_some_iff.mp hv
  obtain ⟨stage', hstage', hev⟩ := h j stage hstage
  exact Option.bind_eq_some_iff.mpr ⟨stage', hstage', hfield stage stage' hev v hval⟩

theorem challenges_mono (h : AllEvolved stages stages') {js : List Nat} {chs : List Bytes}
    (hchs : fieldOf Stage.vdfChallenge stages js = some chs) :
    fieldOf Stage.vdfChallenge stages' js = some chs :=
  fieldOf_mono h (fun _ _ hev => hev.challenge) hchs

theorem ys_mono (h : AllEvolved stages stages') {js : List Nat} {ys : List Bytes}
    (hys : fieldOf Stage.vdfY stages js = some ys) : fieldOf Stage.vdfY stages' js = some ys :=
  fieldOf_mono h (fun _ _ hev => hev.y) hys

theorem ThreadHistory.mono (h : AllEvolved stages stages') {run : VdfRun}
    (hrun : ThreadHistory stages stage run) : ThreadHistory stages' stage run := by
  cases run with
  | readingYs chs => exact ⟨hrun.1, challenges_mono h hrun.2⟩
  | aggregating chs ys => exact ⟨hrun.1, challenges_mono h hrun.2.1, ys_mono h hrun.2.2⟩
  | notStarted | evaluating | readingChallenges | finishing | finished | raised => exact hrun

theorem StageHistory.mono (h : AllEvolved stages stages') (hs : StageHistory cfg stages k stage) :
    StageHistory cfg stages' k stage where
  data_ne_nil := hs.data_ne_nil
  prevStages_eq := hs.prevStages_eq
  acc_root := hs.acc_root
  challenge_eq := by
    intro ch hch
    obtain ⟨mkt, root, y, hacc, hroot, hy, heq⟩ := hs.challenge_eq ch hch
    exact ⟨mkt, root, y, hacc, hroot, hy.mono h, heq⟩
  y_eq := hs.y_eq
  proof_eq := by
    intro p hp
    obtain ⟨ch, y, chs, ys, hch, hy, hchs, hys, heq⟩ := hs.proof_eq p hp
    exact ⟨ch, y, chs, ys, hch, hy, challenges_mono h hchs, ys_mono h hys, heq⟩
  done := hs.done
  thread := hs.thread.mono h

theorem Current.get {phase : Phase} {acc challenge : Bool}
    (h : Current stages k phase acc challenge) (hk : stages[k]? = some stage) :
    stage.phase = phase ∧ stage.acc.isSome = acc ∧ stage.vdfChallenge.isSome = challenge ∧
      stage.vdfThread = .notStarted := by
  obtain ⟨stage', hk', hrest⟩ := h.stage
  rw [hk] at hk'
  cases hk'
  exact hrest

end Later

/-! ### One step -/

section Step
variable {cfg : BeaconConfig} {s t : Beacon} {a : BeaconAction} {k : Nat} {stage stage' : Stage}

theorem getAccVal_eq_ok {P : Parameters} {accval : Bytes} (h : stage.getAccVal P = .ok accval) :
    ∃ mkt, stage.acc = some mkt ∧ P.accumulator.getAccval mkt = .ok accval := by
  unfold Stage.getAccVal at h
  split at h
  · cases h
  · obtain ⟨mkt, hmkt, hval⟩ := bind_eq_ok_iff.mp h
    exact ⟨mkt, need_eq_ok_iff.mp hmkt, hval⟩

theorem StageHistory.setThread {run : VdfRun} (hs : StageHistory cfg s.stages k stage)
    (hrun : ThreadHistory s.stages stage run) :
    Evolved stage { stage with vdfThread := run } ∧
      StageHistory cfg s.stages k { stage with vdfThread := run } := by
  have hthread : ThreadHistory s.stages { stage with vdfThread := run } run := by
    cases run <;> exact hrun
  exact ⟨⟨rfl, fun _ => id, fun _ => id, fun _ => id, fun _ => id, id⟩,
    { hs with thread := hthread }⟩

theorem StageHistory.setY {challenge y : Bytes} (hs : StageHistory cfg s.stages k stage)
    (hthread : stage.vdfThread = .evaluating) (hchallenge : stage.vdfChallenge = some challenge)
    (heval : (cfg.P.avdf.eval [challenge]).head? = some y) :
    Evolved stage { stage with vdfY := some y, vdfThread := .readingChallenges } ∧
      StageHistory cfg s.stages k
        { stage with vdfY := some y, vdfThread := .readingChallenges } := by
  have hnone := hs.thread
  rw [hthread] at hnone
  obtain ⟨hy, hp⟩ := hnone
  refine ⟨⟨rfl, fun _ => id, fun _ => id, ?_, fun _ => id, id⟩,
    { hs with y_eq := ?_, proof_eq := ?_, thread := hp }⟩
  · intro y' hy'
    rw [hy] at hy'
    cases hy'
  · rintro _ ⟨⟩
    exact ⟨challenge, hchallenge, heval⟩
  · intro p hp'
    rw [show stage.vdfProof = some p from hp'] at hp
    cases hp

theorem StageHistory.setProof {chs ys : List Bytes} {challenge y : Bytes}
    (hs : StageHistory cfg s.stages k stage) (hthread : stage.vdfThread = .aggregating chs ys)
    (hchallenge : stage.vdfChallenge = some challenge) (hy : stage.vdfY = some y) :
    Evolved stage { stage with
        vdfProof := some (cfg.P.avdf.aggregate (chs ++ [challenge]) (ys ++ [y]))
        vdfThread := .finishing } ∧
      StageHistory cfg s.stages k { stage with
        vdfProof := some (cfg.P.avdf.aggregate (chs ++ [challenge]) (ys ++ [y]))
        vdfThread := .finishing } := by
  have hread := hs.thread
  rw [hthread] at hread
  obtain ⟨hp, hchs, hys⟩ := hread
  refine ⟨⟨rfl, fun _ => id, fun _ => id, fun _ => id, ?_, id⟩, { hs with
    proof_eq := ?_, done := fun _ => Option.some_ne_none _, thread := Option.some_ne_none _ }⟩
  · intro p hp'
    rw [hp] at hp'
    cases hp'
  · rintro _ ⟨⟩
    exact ⟨challenge, y, chs, ys, hchallenge, hy, hchs, hys, rfl⟩

theorem vdfRunStep_history (hs : StageHistory cfg s.stages k stage)
    (h : stage.vdfRunStep cfg.P s.stages = some stage') :
    Evolved stage stage' ∧ StageHistory cfg s.stages k stage' := by
  have hthread := hs.thread
  cases Stage.vdfRunStep_cases h with
  | evaluated hrun hchallenge heval => exact hs.setY hrun hchallenge heval
  | challengesRead hrun hread =>
    rw [hrun] at hthread
    exact hs.setThread ⟨hthread, hread⟩
  | ysRead hrun hread =>
    rw [hrun] at hthread
    exact hs.setThread ⟨hthread.1, hthread.2, hread⟩
  | aggregated hrun hchallenge hy => exact hs.setProof hrun hchallenge hy
  | done hrun =>
    rw [hrun] at hthread
    exact ⟨⟨rfl, fun _ => id, fun _ => id, fun _ => id, fun _ => id, fun _ => rfl⟩,
      { hs with done := fun _ => hthread, thread := trivial }⟩
  | raised => exact hs.setThread trivial

/-- Every change of a stage adds to it, and keeps what its fields say. -/
theorem StageStep.history (hs : History cfg s) (hk : s.stages[k]? = some stage)
    (h : StageStep cfg s k stage a stage') :
    Evolved stage stage' ∧ StageHistory cfg s.stages k stage' := by
  have hstage := hs.stages k stage hk
  have hjob := hs.job
  cases h with
  | unchanged => exact ⟨Evolved.refl stage, hstage⟩
  | append hcall =>
    exact ⟨⟨rfl, fun _ => id, fun _ => id, fun _ => id, fun _ => id, id⟩,
      { hstage with data_ne_nil := by simp }⟩
  | phase hsched =>
    rw [hsched] at hjob
    obtain ⟨hphase, _, _, hthread⟩ := Current.get hjob hk
    have hold := hstage.thread
    rw [hthread] at hold
    refine ⟨⟨rfl, fun _ => id, fun _ => id, fun _ => id, fun _ => id, ?_⟩,
      { hstage with done := ?_, thread := ?_ }⟩
    · intro hdone
      rw [hphase] at hdone
      cases hdone
    · intro hdone
      cases hdone
    · simp only [hthread]
      exact ⟨hold.1, hold.2.1, by simp⟩
  | acc hsched htree =>
    rw [hsched] at hjob
    obtain ⟨_, hacc, hch, _⟩ := Current.get hjob hk
    refine ⟨⟨rfl, ?_, fun _ => id, fun _ => id, fun _ => id, id⟩,
      { hstage with acc_root := ?_, challenge_eq := ?_ }⟩
    · intro mkt hmkt
      rw [hmkt] at hacc
      cases hacc
    · rintro _ ⟨⟩
      obtain ⟨mkt, root, _, haccumulate, hroot, _⟩ :=
        cfg.P.accumulator.accumulate_complete hstage.data_ne_nil
      rw [htree] at haccumulate
      cases haccumulate
      exact ⟨root, hroot⟩
    · intro ch hch'
      have hch' : stage.vdfChallenge = some ch := hch'
      rw [hch'] at hch
      cases hch
  | challenge hsched haccval =>
    rw [hsched] at hjob
    obtain ⟨hcurrent, hprev⟩ := hjob
    obtain ⟨_, _, hch, hthread⟩ := hcurrent.get hk
    obtain ⟨mkt, hmkt, hroot⟩ := getAccVal_eq_ok haccval
    have hold := hstage.thread
    rw [hthread] at hold
    refine ⟨⟨rfl, fun _ => id, ?_, fun _ => id, fun _ => id, id⟩,
      { hstage with challenge_eq := ?_, y_eq := ?_, proof_eq := ?_ }⟩
    · intro ch hch'
      rw [hch'] at hch
      cases hch
    · rintro _ ⟨⟩
      exact ⟨mkt, _, _, hmkt, hroot, hprev, rfl⟩
    · intro y hy
      have hy : stage.vdfY = some y := hy
      rw [hold.1] at hy
      cases hy
    · intro p hp
      have hp : stage.vdfProof = some p := hp
      rw [hold.2.1] at hp
      cases hp
  | thread hsched =>
    rw [hsched] at hjob
    obtain ⟨_, _, _, hthread⟩ := Current.get hjob hk
    have hold := hstage.thread
    rw [hthread] at hold
    exact hstage.setThread ⟨hold.1, hold.2.1⟩
  | vdf hvdf => exact vdfRunStep_history hstage hvdf

theorem step_evolved (hs : History cfg s) (h : step cfg s a = some t) :
    AllEvolved s.stages t.stages := by
  intro j stage hj
  obtain ⟨stage', hj', hstage⟩ := step_stage h hj
  exact ⟨stage', hj', (hstage.history hs hj).1⟩

theorem stageHistory_init (cfg : BeaconConfig) (stages : List Stage) (k : Nat) :
    StageHistory cfg stages k (Stage.init (windowBefore cfg.W k)) where
  data_ne_nil := by simp [Stage.init]
  prevStages_eq := rfl
  acc_root := fun _ h => by cases h
  challenge_eq := fun _ h => by cases h
  y_eq := fun _ h => by cases h
  proof_eq := fun _ h => by cases h
  done := fun h => by cases h
  thread := ⟨rfl, rfl, by simp [Stage.init]⟩

theorem stages_history_step (hs : History cfg s) (h : step cfg s a = some t) :
    ∀ (k : Nat) (stage : Stage), t.stages[k]? = some stage →
      StageHistory cfg t.stages k stage := by
  intro k stage' hk
  have hev := step_evolved hs h
  rcases stage_of_step h hk with ⟨stage, hold, hstage⟩ | ⟨prev_stages, _, hjob, _, rfl, rfl⟩
  · exact (hstage.history hs hold).2.mono hev
  · have hprev := hs.job
    rw [hjob] at hprev
    rw [show prev_stages = windowBefore cfg.W s.stages.length from hprev]
    exact stageHistory_init cfg _ _

/-! ### The scheduler's place -/

theorem Current.init {stages : List Stage} (prev_stages : List Nat) :
    Current (stages ++ [Stage.init prev_stages]) stages.length .CONTRIBUTION false false where
  length := by simp
  stage := ⟨_, List.getElem?_concat_length, rfl, rfl, rfl, rfl⟩

theorem Current.other {phase : Phase} {acc challenge : Bool} (ha : a ≠ .scheduler)
    (h : step cfg s a = some t) (hc : Current s.stages k phase acc challenge) :
    Current t.stages k phase acc challenge := by
  obtain ⟨hlen, stage, hk, hphase, hacc, hch, hthread⟩ := hc
  obtain ⟨stage', hk', hstage⟩ := step_stage h hk
  refine ⟨?_, stage', hk', ?_⟩
  · rcases step_length h with hlen' | ⟨_, hsched, _⟩
    · omega
    · exact absurd hsched ha
  · cases hstage with
    | unchanged => exact ⟨hphase, hacc, hch, hthread⟩
    | append hcall => exact ⟨hphase, hacc, hch, hthread⟩
    | phase | acc | challenge | thread => exact absurd rfl ha
    | vdf hvdf =>
      rw [Stage.vdfRunStep, hthread] at hvdf
      cases hvdf

theorem job_history_other (ha : a ≠ .scheduler) (hs : History cfg s) (h : step cfg s a = some t) :
    JobHistory cfg t.stages s.scheduler := by
  have hlen : t.stages.length = s.stages.length := by
    rcases step_length h with hlen | ⟨_, hsched, _⟩
    · exact hlen
    · exact absurd hsched ha
  have hjob := hs.job
  cases hsched : s.scheduler with
  | idle =>
    rw [hsched] at hjob
    unfold JobHistory
    rw [hlen]
    exact Current.other ha h hjob
  | checking | settingPhase | accumulating | waiting | starting =>
    rw [hsched] at hjob
    exact Current.other ha h hjob
  | challenging k y =>
    rw [hsched] at hjob
    exact ⟨Current.other ha h hjob.1, hjob.2.mono (step_evolved hs h)⟩
  | slicing => trivial
  | appending prev_stages =>
    rw [hsched] at hjob
    unfold JobHistory
    rw [hlen]
    exact hjob

theorem Current.write {phase phase' : Phase} {acc acc' challenge challenge' : Bool}
    {f : Stage → Stage} (hc : Current s.stages k phase acc challenge)
    (hf : ∀ stage, s.stages[k]? = some stage → stage.phase = phase → stage.acc.isSome = acc →
      stage.vdfChallenge.isSome = challenge → (f stage).phase = phase' ∧
        (f stage).acc.isSome = acc' ∧ (f stage).vdfChallenge.isSome = challenge' ∧
        (f stage).vdfThread = stage.vdfThread) :
    Current (s.stages.modify k f) k phase' acc' challenge' := by
  obtain ⟨hlen, stage, hk, hphase, hacc, hch, hthread⟩ := hc
  obtain ⟨h1, h2, h3, h4⟩ := hf stage hk hphase hacc hch
  refine ⟨by rw [List.length_modify]; exact hlen, f stage, ?_, h1, h2, h3, h4.trans hthread⟩
  rw [getElem?_modify_eq hk, if_pos rfl]

theorem sliceFrom_window {W L : Nat} (hW : 2 ≤ W) :
    PySeq.sliceFrom (List.range L) (-(W : Int) + 1) = windowBefore W L := by
  have hneg : -(W : Int) + 1 = -((W - 1 : Nat) : Int) := by omega
  have hstart : L - (W - 1) = L + 1 - W := by omega
  rw [hneg, PySeq.sliceFrom_neg _ (by omega), List.length_range, List.range_eq_range',
    List.drop_range', hstart, windowBefore]
  simp

theorem windowBefore_zero (W : Nat) : windowBefore W 0 = [] := by simp [windowBefore]

theorem windowBefore_getLast? {W : Nat} (hW : 2 ≤ W) (j : Nat) :
    (windowBefore W (j + 1)).getLast? = some j := by
  rw [windowBefore, List.getLast?_range', if_neg (by omega)]
  congr 1
  omega

theorem eq_zero_of_windowBefore {W k : Nat} (hW : 2 ≤ W)
    (h : (windowBefore W k).getLast? = none) : k = 0 := by
  cases k with
  | zero => rfl
  | succ j =>
    rw [windowBefore_getLast? hW] at h
    cases h

theorem eq_succ_of_windowBefore {W k j : Nat} (hW : 2 ≤ W)
    (h : (windowBefore W k).getLast? = some j) : k = j + 1 := by
  cases k with
  | zero =>
    rw [windowBefore_zero] at h
    cases h
  | succ i =>
    rw [windowBefore_getLast? hW] at h
    cases h
    rfl

theorem Phase.eq_done_of_not_lt {phase : Phase} (h : ¬ phase.value < Phase.DONE.value) :
    phase = .DONE := by
  cases phase with
  | DONE => rfl
  | NONE | CONTRIBUTION | EVALUATION => exact absurd (by decide) h

theorem StageHistory.getFinalY_eq {stages : List Stage} (hs : StageHistory cfg stages k stage)
    (hdone : stage.phase = .DONE) : ∃ y, stage.vdfY = some y ∧ stage.getFinalY = .ok y := by
  obtain ⟨p, hp⟩ := Option.ne_none_iff_exists'.mp (hs.done hdone)
  obtain ⟨_, y, _, _, _, hy, _⟩ := hs.proof_eq p hp
  refine ⟨y, hy, ?_⟩
  rw [Stage.getFinalY, hdone, if_neg (Nat.lt_irrefl _), hy, need_some]

theorem nextStage_history (hW : 2 ≤ cfg.W) (hs : History cfg s) {stages : List Stage}
    {job : NextStageJob} (h : nextStageStep cfg s s.scheduler = some (stages, job)) :
    JobHistory cfg stages job := by
  have hjob := hs.job
  have hstep := nextStageStep_cases h
  generalize s.scheduler = before at hjob hstep
  cases hstep with
  | called | checked | asleep => exact hjob
  | refused hk hphase => exact absurd (Current.get hjob hk).1 hphase
  | phaseSet => exact Current.write hjob fun stage _ _ hacc hch => ⟨rfl, hacc, hch, rfl⟩
  | accumulated => exact Current.write hjob fun stage _ hphase _ hch => ⟨hphase, rfl, hch, rfl⟩
  | noTree hk htree =>
    obtain ⟨mkt, _, _, haccumulate, _⟩ :=
      cfg.P.accumulator.accumulate_complete (hs.stages _ _ hk).data_ne_nil
    rw [haccumulate] at htree
    cases htree
  | noPredecessor hk hlast =>
    rw [(hs.stages _ _ hk).prevStages_eq] at hlast
    exact ⟨hjob, Or.inl ⟨eq_zero_of_windowBefore hW hlast, rfl⟩⟩
  | awake hk hlast hprev hdone hy =>
    rw [(hs.stages _ _ hk).prevStages_eq] at hlast
    obtain rfl := eq_succ_of_windowBefore hW hlast
    obtain ⟨y, hy', hfinal⟩ := (hs.stages _ _ hprev).getFinalY_eq (Phase.eq_done_of_not_lt hdone)
    cases hfinal.symm.trans hy
    exact ⟨hjob, Or.inr ⟨_, _, rfl, hprev, Phase.eq_done_of_not_lt hdone, hy'⟩⟩
  | noFinalY hk hlast hprev hdone hy =>
    obtain ⟨y, _, hfinal⟩ := (hs.stages _ _ hprev).getFinalY_eq (Phase.eq_done_of_not_lt hdone)
    cases hfinal.symm.trans hy
  | challenged => exact Current.write hjob.1 fun stage _ hphase hacc _ => ⟨hphase, hacc, rfl, rfl⟩
  | noAccVal hk haccval =>
    obtain ⟨hphase, hacc, _, _⟩ := hjob.1.get hk
    obtain ⟨mkt, hmkt⟩ := Option.isSome_iff_exists.mp hacc
    obtain ⟨root, hroot⟩ := (hs.stages _ _ hk).acc_root mkt hmkt
    rw [Stage.getAccVal, hphase, if_neg (Nat.lt_irrefl _), hmkt, need_some, ok_bind, hroot] at haccval
    cases haccval
  | started => trivial
  | sliced => exact sliceFrom_window hW
  | appended =>
    unfold JobHistory
    rw [List.length_append, List.length_singleton, Nat.add_sub_cancel]
    exact Current.init _

theorem history_step (hW : 2 ≤ cfg.W) (hs : History cfg s) (h : step cfg s a = some t) :
    History cfg t := by
  refine ⟨stages_history_step hs h, ?_⟩
  by_cases ha : a = .scheduler
  · subst ha
    obtain ⟨stages, job, hstep, rfl⟩ := step_scheduler_eq_some_iff.mp h
    exact nextStage_history hW hs hstep
  · rw [scheduler_of_step ha h]
    exact job_history_other ha hs h

end Step

section Runs
variable {cfg : BeaconConfig}

theorem history_init (cfg : BeaconConfig) : History cfg init where
  stages := by
    intro k stage hk
    have hk0 : k = 0 := by
      have := (List.getElem?_eq_some_iff.mp hk).1
      simpa [init] using this
    subst hk0
    cases hk
    have h := stageHistory_init cfg init.stages 0
    rw [windowBefore_zero] at h
    exact h
  job := ⟨rfl, _, rfl, rfl, rfl, rfl, rfl⟩

/-- The history holds after every run, however the parties interleave. -/
theorem history_run (hW : 2 ≤ cfg.W) {as : List BeaconAction} {s t : Beacon}
    (hs : History cfg s) (hrun : run (step cfg) s as = some t) : History cfg t := by
  have hmeets : Meets (step cfg) (fun _ _ => True) s as :=
    Meets.of_forall (fun _ _ => trivial) as s
  exact run_invariant (fun _ _ _ hs _ h => history_step hW hs h) as s t hs hmeets hrun

theorem run_evolved (hW : 2 ≤ cfg.W) :
    ∀ (as : List BeaconAction) (s t : Beacon), History cfg s → run (step cfg) s as = some t →
      AllEvolved s.stages t.stages := by
  intro as
  induction as with
  | nil =>
    intro s t _ hrun
    cases hrun
    exact fun j stage hj => ⟨stage, hj, Evolved.refl stage⟩
  | cons a as ih =>
    intro s t hs hrun
    obtain ⟨m, hm, hrest⟩ := run_cons_eq_some_iff.mp hrun
    have hlater := ih m t (history_step hW hs hm) hrest
    intro j stage hj
    obtain ⟨stage', hj', hev⟩ := step_evolved hs hm j stage hj
    obtain ⟨stage'', hj'', hev'⟩ := hlater j stage' hj'
    exact ⟨stage'', hj'', hev.trans hev'⟩

end Runs

/-! ### Finished stages -/

/-- What a finished stage of the history shows to a client. -/
structure Finished (cfg : BeaconConfig) (stages : List Stage) (k : Nat) (root ch y p : Bytes) :
    Prop where
  stage : ∃ stage mkt, stages[k]? = some stage ∧ stage.phase = .DONE ∧ stage.acc = some mkt ∧
    cfg.P.accumulator.getAccval mkt = .ok root ∧ stage.vdfChallenge = some ch ∧
    stage.vdfY = some y ∧ stage.vdfProof = some p
  chained : ∃ prev_y, PrevY stages k prev_y ∧ ch = cfg.P.hash (root ++ prev_y)
  evaluated : (cfg.P.avdf.eval [ch]).head? = some y
  aggregated : ∃ chs ys, fieldOf Stage.vdfChallenge stages (windowBefore cfg.W k) = some chs ∧
    fieldOf Stage.vdfY stages (windowBefore cfg.W k) = some ys ∧
    p = cfg.P.avdf.aggregate (chs ++ [ch]) (ys ++ [y])

theorem History.finished {cfg : BeaconConfig} {s : Beacon} (hs : History cfg s) {k : Nat}
    {stage : Stage} (hk : s.stages[k]? = some stage) (hdone : stage.phase = .DONE) :
    ∃ root ch y p, Finished cfg s.stages k root ch y p := by
  have hstage := hs.stages k stage hk
  obtain ⟨p, hp⟩ := Option.ne_none_iff_exists'.mp (hstage.done hdone)
  obtain ⟨ch, y, chs, ys, hch, hy, hchs, hys, heq⟩ := hstage.proof_eq p hp
  obtain ⟨mkt, root, prev_y, hmkt, hroot, hprev, hhash⟩ := hstage.challenge_eq ch hch
  obtain ⟨ch', hch', heval⟩ := hstage.y_eq y hy
  rw [hch] at hch'
  cases hch'
  rw [hstage.prevStages_eq] at hchs hys
  exact ⟨root, ch, y, p, ⟨stage, mkt, hk, hdone, hmkt, hroot, hch, hy, hp⟩, ⟨prev_y, hprev, hhash⟩,
    heval, chs, ys, hchs, hys, heq⟩

theorem History.finished_before {cfg : BeaconConfig} {s : Beacon} (hs : History cfg s) :
    ∀ (d j : Nat) (stage : Stage), s.stages[j + d]? = some stage → stage.phase = .DONE →
      ∃ root ch y p, Finished cfg s.stages j root ch y p := by
  intro d
  induction d with
  | zero => exact fun j stage hk hdone => hs.finished hk hdone
  | succ d ih =>
    intro j stage hk hdone
    obtain ⟨_, _, _, _, hfin⟩ := hs.finished hk hdone
    obtain ⟨_, hprev, _⟩ := hfin.chained
    rcases hprev with ⟨hzero, _⟩ | ⟨i, prev, hi, hprev, hprevdone, _⟩
    · omega
    · have hij : i = j + d := by omega
      rw [hij] at hprev
      exact ih j prev hprev hprevdone

theorem Finished.mono {cfg : BeaconConfig} {stages stages' : List Stage} {k : Nat}
    {root ch y p : Bytes} (hev : AllEvolved stages stages')
    (h : Finished cfg stages k root ch y p) : Finished cfg stages' k root ch y p := by
  obtain ⟨⟨stage, mkt, hk, hdone, hmkt, hroot, hch, hy, hp⟩, ⟨prev_y, hprev, hhash⟩, heval,
    chs, ys, hchs, hys, heq⟩ := h
  obtain ⟨stage', hk', hevolved⟩ := hev k stage hk
  exact ⟨⟨stage', mkt, hk', hevolved.done hdone, hevolved.acc mkt hmkt, hroot,
    hevolved.challenge ch hch, hevolved.y y hy, hevolved.proof p hp⟩,
    ⟨prev_y, hprev.mono hev, hhash⟩, heval, chs, ys, challenges_mono hev hchs, ys_mono hev hys, heq⟩

end Lootbox.Headstart.Beacon

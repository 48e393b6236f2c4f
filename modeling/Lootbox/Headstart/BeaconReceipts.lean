import Lootbox.Headstart.Beacon
import Lootbox.Headstart.MerkleSpec

/-!
# Receipts of concurrent contributions

A receipt names a stage and a position. It is right when no other call comes between
`data.append` and `len(data)`, the stage does not change before its number is read, and
nothing is appended to a stage whose data is accumulated already.
-/

namespace Lootbox.Headstart.Beacon

open StepSystem

def PastContribution (stage : Stage) : Prop := Phase.CONTRIBUTION.value < stage.phase.value

/-- The receipt's value is at its place and, from the accumulation of the stage on, in the tree. -/
def Honoured (cfg : BeaconConfig) (s : Beacon) (receipt : Receipt) : Prop :=
  ∃ stage, s.stages[receipt.stageIdx]? = some stage ∧
    stage.data[receipt.dataIdx]? = some receipt.x ∧
    (PastContribution stage →
      s.scheduler = .accumulating receipt.stageIdx ∨
        ∃ mkt leaves accval proof, stage.acc = some mkt ∧ mkt.data = some leaves ∧
          leaves[receipt.dataIdx]? = some receipt.x ∧
          stage.getAccVal cfg.P = .ok accval ∧
          stage.getAccProof cfg.P receipt.dataIdx = .ok proof ∧
          cfg.P.accumulator.verify accval proof receipt.x = .ok true)

/-- What `contribute` relies on when it executes its next statement. -/
def UndisturbedCall (s : Beacon) : ContributeCall → Prop
  | .appending k _ => (s.stages[k]?.bind Stage.acc) = none
  | .counting k x => (s.stages[k]?.bind fun stage => stage.data.getLast?) = some x
  | .indexing k _ _ => k = s.currentStageIndex
  | _ => True

instance (s : Beacon) (call : ContributeCall) : Decidable (UndisturbedCall s call) :=
  match call with
  | .appending k _ => inferInstanceAs (Decidable ((s.stages[k]?.bind Stage.acc) = none))
  | .counting k x =>
    inferInstanceAs (Decidable ((s.stages[k]?.bind fun stage => stage.data.getLast?) = some x))
  | .indexing k _ _ => inferInstanceAs (Decidable (k = s.currentStageIndex))
  | .entering _ => inferInstanceAs (Decidable True)
  | .checking _ _ => inferInstanceAs (Decidable True)
  | .returned _ => inferInstanceAs (Decidable True)
  | .raised => inferInstanceAs (Decidable True)

def Undisturbed (s : Beacon) : BeaconAction → Prop
  | .call i => ∀ call ∈ s.calls[i]?, UndisturbedCall s call
  | _ => True

instance (s : Beacon) (a : BeaconAction) : Decidable (Undisturbed s a) :=
  match a with
  | .call i => inferInstanceAs (Decidable (∀ call ∈ s.calls[i]?, UndisturbedCall s call))
  | .contribute _ => inferInstanceAs (Decidable True)
  | .scheduler => inferInstanceAs (Decidable True)
  | .vdfRun _ => inferInstanceAs (Decidable True)

/-! ### The invariant -/

/-- The stage whose phase `stop_contribution` has already set. -/
def stoppedStage : NextStageJob → Option Nat
  | .accumulating k => some k
  | .waiting k => some k
  | .challenging k _ => some k
  | .starting k => some k
  | _ => none

structure StageSound (cfg : BeaconConfig) (job : NextStageJob) (k : Nat) (stage : Stage) : Prop where
  data_ne_nil : stage.data ≠ []
  acc_eq : ∀ mkt, stage.acc = some mkt → cfg.P.accumulator.accumulate stage.data = .ok mkt
  accumulated : PastContribution stage → job = .accumulating k ∨ stage.acc ≠ none
  stopped : stoppedStage job = some k → PastContribution stage
  running : stage.vdfThread ≠ .notStarted → PastContribution stage

def Stored (stages : List Stage) (k data_idx : Nat) (x : Bytes) : Prop :=
  ∃ stage, stages[k]? = some stage ∧ stage.data[data_idx]? = some x

def CallSound (stages : List Stage) : ContributeCall → Prop
  | .indexing k x data_idx => Stored stages k data_idx x
  | .returned receipt => Stored stages receipt.stageIdx receipt.dataIdx receipt.x
  | _ => True

structure Sound (cfg : BeaconConfig) (s : Beacon) : Prop where
  stages : ∀ k stage, s.stages[k]? = some stage → StageSound cfg s.scheduler k stage
  calls : ∀ call ∈ s.calls, CallSound s.stages call

section Step
variable {cfg : BeaconConfig} {s t : Beacon} {a : BeaconAction}

theorem vdfRunStep_frame {P : Parameters} {stages : List Stage} {stage stage' : Stage}
    (h : stage.vdfRunStep P stages = some stage') :
    stage'.data = stage.data ∧ stage'.acc = stage.acc ∧ stage'.prevStages = stage.prevStages ∧
      stage'.vdfChallenge = stage.vdfChallenge ∧ stage.vdfThread ≠ .notStarted ∧
      (stage'.phase = stage.phase ∨ stage'.phase = .DONE) := by
  cases Stage.vdfRunStep_cases h with
  | evaluated hthread | challengesRead hthread | ysRead hthread | aggregated hthread | done hthread =>
    simp [hthread]
  | raised hthread => simp [hthread]

theorem StageStep.data_prefix {k : Nat} {stage stage' : Stage}
    (h : StageStep cfg s k stage a stage') : stage.data <+: stage'.data := by
  cases h with
  | append hcall => exact List.prefix_append _ _
  | vdf hvdf => rw [(vdfRunStep_frame hvdf).1]
  | unchanged | phase | acc | challenge | thread => exact List.prefix_refl _

theorem Stored.step {k data_idx : Nat} {x : Bytes} (h : step cfg s a = some t)
    (hx : Stored s.stages k data_idx x) : Stored t.stages k data_idx x := by
  obtain ⟨stage, hk, hget⟩ := hx
  obtain ⟨stage', hk', hstage⟩ := step_stage h hk
  obtain ⟨rest, hrest⟩ := hstage.data_prefix
  refine ⟨stage', hk', ?_⟩
  rw [← hrest, List.getElem?_append_left (List.getElem?_eq_some_iff.mp hget).1]
  exact hget

theorem CallSound.step {call : ContributeCall} (h : step cfg s a = some t)
    (hcall : CallSound s.stages call) : CallSound t.stages call := by
  cases call with
  | indexing k x data_idx => exact Stored.step h hcall
  | returned receipt => exact Stored.step h hcall
  | entering | checking | appending | counting | raised => trivial

theorem contributeStep_sound {i : Nat} {call call' : ContributeCall} {stages : List Stage}
    (hs : Sound cfg s) (hok : Undisturbed s (.call i)) (hi : s.calls[i]? = some call)
    (h : contributeStep cfg s call = some (stages, call')) : CallSound stages call' := by
  have hok := hok call hi
  cases call with
  | entering x =>
    cases h
    trivial
  | checking k x =>
    obtain ⟨stage, _, heq⟩ := Option.map_eq_some_iff.mp h
    split at heq
    all_goals
      cases heq
      trivial
  | appending k x =>
    cases h
    trivial
  | counting k x =>
    obtain ⟨stage, hk, heq⟩ := Option.map_eq_some_iff.mp h
    cases heq
    have hlast : stage.data.getLast? = some x := by
      simpa only [UndisturbedCall, hk, Option.bind_some] using hok
    rw [List.getLast?_eq_getElem?] at hlast
    exact ⟨stage, hk, hlast⟩
  | indexing k x data_idx =>
    have hstored : Stored s.stages k data_idx x := hs.calls _ (List.mem_of_getElem? hi)
    cases h
    have hk : k = s.currentStageIndex := hok
    rw [hk] at hstored
    exact hstored
  | returned receipt => cases h
  | raised => cases h

theorem calls_sound_step (hs : Sound cfg s) (hok : Undisturbed s a) (h : step cfg s a = some t) :
    ∀ call ∈ t.calls, CallSound t.stages call := by
  intro call hcall
  cases a with
  | contribute x =>
    have hstep := h
    cases h
    rcases List.mem_append.mp hcall with hold | hnew
    · exact (hs.calls call hold).step hstep
    · rw [List.mem_singleton.mp hnew]
      trivial
  | call i =>
    obtain ⟨old, stages, call', hi, hstep, rfl⟩ := step_call_eq_some_iff.mp h
    rcases List.mem_or_eq_of_mem_set hcall with hold | rfl
    · exact (hs.calls call hold).step h
    · exact contributeStep_sound hs hok hi hstep
  | scheduler =>
    obtain ⟨stages, job, _, rfl⟩ := step_scheduler_eq_some_iff.mp h
    exact (hs.calls call hcall).step h
  | vdfRun k =>
    obtain ⟨stage, stage', _, _, rfl⟩ := step_vdfRun_eq_some_iff.mp h
    exact (hs.calls call hcall).step h

theorem StageSound.moved {job job' : NextStageJob} {k : Nat} {stage : Stage}
    (h : StageSound cfg job k stage) (hacc : job ≠ .accumulating k)
    (hstop : stoppedStage job' = some k → stoppedStage job = some k) :
    StageSound cfg job' k stage where
  data_ne_nil := h.data_ne_nil
  acc_eq := h.acc_eq
  accumulated := fun hp => Or.inr ((h.accumulated hp).resolve_left hacc)
  stopped := fun hj => h.stopped (hstop hj)
  running := h.running

/-- A change of the stage that touches neither its data nor its tree. -/
theorem StageSound.changed {job job' : NextStageJob} {k : Nat} {stage stage' : Stage}
    (h : StageSound cfg job k stage) (hdata : stage'.data = stage.data)
    (hacc : stage'.acc = stage.acc) (hphase : PastContribution stage')
    (hjob : job' = .accumulating k ∨ stage.acc ≠ none) : StageSound cfg job' k stage' where
  data_ne_nil := by rw [hdata]; exact h.data_ne_nil
  acc_eq := by rw [hdata, hacc]; exact h.acc_eq
  accumulated := fun _ => by rw [hacc]; exact hjob
  stopped := fun _ => hphase
  running := fun _ => hphase

theorem StageSound.init (job : NextStageJob) {k : Nat} (prev_stages : List Nat)
    (hjob : stoppedStage job ≠ some k) : StageSound cfg job k (Stage.init prev_stages) where
  data_ne_nil := by simp [Stage.init]
  acc_eq := fun mkt h => by cases h
  accumulated := fun h => absurd h (by simp [PastContribution, Stage.init])
  stopped := fun h => absurd h hjob
  running := fun h => absurd rfl h

theorem StageSound.setAcc {k : Nat} {stage : Stage} {tree : MerkleTree}
    (h : StageSound cfg (.accumulating k) k stage)
    (htree : cfg.P.accumulator.accumulate stage.data = .ok tree) :
    StageSound cfg (.waiting k) k { stage with acc := some tree } where
  data_ne_nil := h.data_ne_nil
  acc_eq := by
    rintro _ ⟨⟩
    exact htree
  accumulated := fun _ => Or.inr (Option.some_ne_none _)
  stopped := fun _ => h.stopped rfl
  running := fun _ => h.stopped rfl

theorem StageSound.stoppedChanged {job job' : NextStageJob} {k : Nat} {stage stage' : Stage}
    (h : StageSound cfg job k stage) (hjob : stoppedStage job = some k)
    (hacc : job ≠ .accumulating k) (hdata : stage'.data = stage.data) (hsame : stage'.acc = stage.acc)
    (hphase : stage'.phase = stage.phase) : StageSound cfg job' k stage' := by
  have hstopped := h.stopped hjob
  have hpast : PastContribution stage' := by
    rw [PastContribution, hphase]
    exact hstopped
  exact h.changed hdata hsame hpast (Or.inr ((h.accumulated hstopped).resolve_left hacc))

theorem stages_sound_job {stages : List Stage} {job : NextStageJob}
    (hs : ∀ k stage, s.stages[k]? = some stage → StageSound cfg s.scheduler k stage)
    (hstep : nextStageStep cfg s s.scheduler = some (stages, job)) :
    ∀ k stage, stages[k]? = some stage → StageSound cfg job k stage := by
  intro k stage hk
  have hcases := nextStageStep_cases hstep
  generalize s.scheduler = before at hs hcases
  cases hcases with
  | called | refused | checked | noPredecessor | asleep | awake | noFinalY | noAccVal | sliced =>
    exact (hs k stage hk).moved (by simp) (by simp [stoppedStage])
  | noTree hother htree =>
    obtain ⟨mkt, root, leaves, hacc, _⟩ :=
      cfg.P.accumulator.accumulate_complete (hs _ _ hother).data_ne_nil
    rw [hacc] at htree
    cases htree
  | phaseSet =>
    obtain ⟨old, hold, ⟨rfl, rfl⟩ | ⟨hj, rfl⟩⟩ := of_getElem?_modify hk
    · exact (hs _ old hold).changed rfl rfl (by simp [PastContribution, Phase.value]) (Or.inl rfl)
    · exact (hs k stage hold).moved (by simp) (by simp [stoppedStage, hj])
  | accumulated hother htree =>
    obtain ⟨old, hold, ⟨rfl, rfl⟩ | ⟨hj, rfl⟩⟩ := of_getElem?_modify hk
    · rw [hother] at hold
      cases hold
      exact (hs _ _ hother).setAcc htree
    · exact (hs k stage hold).moved (by simpa using hj) (by simp [stoppedStage])
  | challenged | started =>
    obtain ⟨old, hold, ⟨rfl, rfl⟩ | ⟨hj, rfl⟩⟩ := of_getElem?_modify hk
    · exact (hs _ old hold).stoppedChanged rfl (by simp) rfl rfl rfl
    · exact (hs k stage hold).moved (by simp) (by simp [stoppedStage])
  | appended =>
    by_cases hold : k < s.stages.length
    · rw [List.getElem?_append_left hold] at hk
      exact (hs k stage hk).moved (by simp) (by simp [stoppedStage])
    · rw [List.getElem?_append_right (by omega)] at hk
      rw [List.mem_singleton.mp (List.mem_of_getElem? hk)]
      exact StageSound.init _ _ (by simp [stoppedStage])

theorem stages_sound_step (hs : Sound cfg s) (hok : Undisturbed s a) (h : step cfg s a = some t) :
    ∀ k stage, t.stages[k]? = some stage → StageSound cfg t.scheduler k stage := by
  cases a with
  | scheduler =>
    obtain ⟨stages, job, hstep, rfl⟩ := step_scheduler_eq_some_iff.mp h
    exact stages_sound_job hs.stages hstep
  | contribute x =>
    cases h
    exact hs.stages
  | call i =>
    intro k stage' hk
    have hjob : t.scheduler = s.scheduler := by
      obtain ⟨call, stages, call', _, _, rfl⟩ := step_call_eq_some_iff.mp h
      rfl
    rcases stage_of_step h hk with ⟨stage, hold, hstage⟩ | ⟨_, ha, _⟩
    · rw [hjob]
      have hsound := hs.stages k stage hold
      cases hstage with
      | unchanged => exact hsound
      | append hcall =>
        have hnone : stage.acc = none := by
          have := hok _ hcall
          simpa only [UndisturbedCall, hold, Option.bind_some] using this
        exact {
          data_ne_nil := by simp
          acc_eq := fun mkt hmkt => by
            have hmkt : stage.acc = some mkt := hmkt
            rw [hnone] at hmkt
            cases hmkt
          accumulated := hsound.accumulated
          stopped := hsound.stopped
          running := hsound.running }
    · cases ha
  | vdfRun j =>
    intro k stage' hk
    have hjob : t.scheduler = s.scheduler := by
      obtain ⟨_, _, _, _, rfl⟩ := step_vdfRun_eq_some_iff.mp h
      rfl
    rcases stage_of_step h hk with ⟨stage, hold, hstage⟩ | ⟨_, ha, _⟩
    · rw [hjob]
      have hsound := hs.stages k stage hold
      cases hstage with
      | unchanged => exact hsound
      | vdf hvdf =>
        obtain ⟨hdata, hacc, _, _, hthread, hphase⟩ := vdfRunStep_frame hvdf
        have hrun := hsound.running hthread
        refine hsound.changed hdata hacc ?_ (hsound.accumulated hrun)
        unfold PastContribution at hrun ⊢
        rcases hphase with hphase | hphase
        · rw [hphase]
          exact hrun
        · rw [hphase]
          decide
    · cases ha

theorem sound_step (hs : Sound cfg s) (hok : Undisturbed s a) (h : step cfg s a = some t) :
    Sound cfg t :=
  ⟨stages_sound_step hs hok h, calls_sound_step hs hok h⟩

end Step

theorem sound_init (cfg : BeaconConfig) : Sound cfg init where
  stages := by
    intro k stage hk
    rw [List.mem_singleton.mp (List.mem_of_getElem? hk)]
    exact StageSound.init _ _ (by simp [init, stoppedStage])
  calls := by
    intro call hcall
    cases hcall

theorem Sound.honoured {cfg : BeaconConfig} {s : Beacon} (hs : Sound cfg s) {receipt : Receipt}
    (hr : .returned receipt ∈ s.calls) : Honoured cfg s receipt := by
  obtain ⟨stage, hk, hx⟩ := hs.calls _ hr
  have hsound := hs.stages _ stage hk
  refine ⟨stage, hk, hx, fun hphase => ?_⟩
  rcases hsound.accumulated hphase with hjob | hacc
  · exact Or.inl hjob
  · right
    obtain ⟨mkt, hmkt⟩ := Option.ne_none_iff_exists'.mp hacc
    obtain ⟨mkt', root, leaves, haccumulate, hroot, hleaves, hall⟩ :=
      cfg.P.accumulator.accumulate_complete hsound.data_ne_nil
    have hsame : mkt' = mkt := by
      have := hsound.acc_eq mkt hmkt
      rw [haccumulate] at this
      cases this
      rfl
    subst hsame
    obtain ⟨hleaf, w, hw, hverify⟩ := hall _ _ hx
    have hnot : ¬ stage.phase.value < Phase.EVALUATION.value := by
      exact Nat.not_lt.mpr hphase
    refine ⟨mkt', leaves, root, w, hmkt, hleaves, hleaf, ?_, ?_, hverify⟩
    · simp only [Stage.getAccVal, if_neg hnot, hmkt, need_some, ok_bind, hroot]
    · simp only [Stage.getAccProof, if_neg hnot, hmkt, need_some, ok_bind, hw]

/-- After every run in which no call is disturbed, every receipt is honoured. -/
theorem receipts_honoured (cfg : BeaconConfig) (as : List BeaconAction) (s : Beacon)
    (hmeets : Meets (step cfg) Undisturbed init as) (hrun : run (step cfg) init as = some s) :
    ∀ receipt, .returned receipt ∈ s.calls → Honoured cfg s receipt := by
  have hs : Sound cfg s :=
    run_invariant (fun _ _ _ => sound_step) as init s (sound_init cfg) hmeets hrun
  intro receipt hr
  exact hs.honoured hr

/-! ### Two runs -/

def toyConfig : BeaconConfig where
  W := 3
  P := ⟨fun u => [u.foldl (fun h b => 3 * h + b + 1) 0],
    ⟨id, fun chs _ => chs.flatten, fun _ _ _ => .ok true⟩⟩
  sign := id

/-- Between the `append` and the `len` of the first call, a second call appends. -/
def overtaken : List BeaconAction :=
  [.contribute [1], .contribute [2], .call 0, .call 0, .call 0, .call 1, .call 1, .call 1,
    .call 0, .call 0]

/-- The receipt of the first call names the place of the second value. -/
theorem receipt_misattributed :
    ∃ (cfg : BeaconConfig) (as : List BeaconAction) (s : Beacon) (receipt : Receipt),
      run (step cfg) init as = some s ∧ .returned receipt ∈ s.calls ∧
        ¬ Honoured cfg s receipt := by
  refine ⟨toyConfig, overtaken, _, ⟨0, 2, [1], [1]⟩, rfl, List.mem_cons_self, ?_⟩
  rintro ⟨stage, hstage, hx, _⟩
  cases hstage
  exact absurd hx (by decide)

/-- One contribution, then the stage is closed and accumulated. -/
def undisturbedRun : List BeaconAction :=
  [.contribute [1], .call 0, .call 0, .call 0, .call 0, .call 0, .scheduler, .scheduler,
    .scheduler, .scheduler]

theorem receipts_honoured_undisturbedRun :
    ∃ s receipt, run (step toyConfig) init undisturbedRun = some s ∧
      .returned receipt ∈ s.calls ∧ Honoured toyConfig s receipt :=
  ⟨_, ⟨0, 1, [1], [1]⟩, rfl, List.mem_cons_self,
    receipts_honoured toyConfig undisturbedRun _ (by decide) rfl _ List.mem_cons_self⟩

end Lootbox.Headstart.Beacon

import Lootbox.Headstart.BeaconSequential
import Lootbox.Headstart.ClientSoundness

/-!
# `server.py`: the handlers that the client calls

A handler answers from the state of the beacon at the time of the request.
-/

namespace Lootbox.Headstart

def Receipt.toContribution (receipt : Receipt) : Contribution :=
  ⟨receipt.x, receipt.stageIdx, receipt.dataIdx, receipt.sig⟩

namespace Beacon

open HeadStartClient

/-- `get_stage` of the server; stage `-1` is there for the convenience of the client. -/
def serveStage (cfg : BeaconConfig) (s : Beacon) (idx : Int) : Except PyError StageInfo :=
  if idx = -1 then
    .ok ⟨-1, .DONE, 0, some [], some [], some []⟩
  else if ¬ (0 ≤ idx ∧ idx ≤ s.currentStageIndex) then
    .ok ⟨idx, .NONE, 0, none, none, none⟩
  else do
    let stage ← need .indexError s.stages[idx.toNat]?
    let accval ← if stage.phase.value ≥ Phase.EVALUATION.value then
      some <$> stage.getAccVal cfg.P else pure none
    let vdfy ← if stage.phase.value ≥ Phase.DONE.value then some <$> stage.getFinalY else pure none
    let vdfproof ← if stage.phase.value ≥ Phase.DONE.value then
      some <$> stage.getVdfProof else pure none
    return ⟨idx, stage.phase, stage.data.length, accval, vdfy, vdfproof⟩

/-- `[get_stage(idx) for idx in range(start_idx, end_idx + 1)]` -/
def serveStages (cfg : BeaconConfig) (s : Beacon) (start_idx end_idx : Int) :
    Except PyError (List StageInfo) :=
  ((List.range (end_idx + 1 - start_idx).toNat).map fun n : Nat => start_idx + (n : Int)).mapM
    (serveStage cfg s)

def serveAccproof (cfg : BeaconConfig) (s : Beacon) (stage_idx data_idx : Int) :
    Except PyError MerkleProof :=
  if ¬ (0 ≤ stage_idx ∧ stage_idx ≤ s.currentStageIndex) then .error (.valueError "invalid stage")
  else do
    let stage ← need .indexError s.stages[stage_idx.toNat]?
    if stage.phase.value < Phase.EVALUATION.value then
      .error (.valueError "not in correct phase")
    else stage.getAccProof cfg.P data_idx

/-- The client's requests are served in these three states; polls may come before. -/
structure Served (cfg : BeaconConfig) (polled ranged proved : Beacon) (contribution : Contribution)
    (stage_idx : Int) (server : ServerAnswers) : Prop where
  stage : ∃ earlier info, serveStage cfg polled stage_idx = .ok info ∧
    server.stage stage_idx = earlier ++ [info]
  stages : ∀ start_idx end_idx infos, serveStages cfg ranged start_idx end_idx = .ok infos →
    server.stages start_idx end_idx = infos
  accproof : ∀ proof, serveAccproof cfg proved contribution.stage contribution.dataIndex = .ok proof →
    server.accproof contribution.stage contribution.dataIndex = proof

/-- The server that answers every request from one state. -/
def serverOf (cfg : BeaconConfig) (s : Beacon) : ServerAnswers where
  stage i := (serveStage cfg s i).toOption.toList
  stages start_idx end_idx := (serveStages cfg s start_idx end_idx).toOption.getD []
  accproof i j := (serveAccproof cfg s i j).toOption.getD []

theorem served_serverOf {cfg : BeaconConfig} {s : Beacon} (contribution : Contribution)
    {stage_idx : Int} (h : ∃ info, serveStage cfg s stage_idx = .ok info) :
    Served cfg s s s contribution stage_idx (serverOf cfg s) where
  stage := by
    obtain ⟨info, hinfo⟩ := h
    refine ⟨[], info, hinfo, ?_⟩
    simp only [serverOf, hinfo]
    rfl
  stages := by
    intro start_idx end_idx infos hinfos
    simp only [serverOf, hinfos]
    rfl
  accproof := by
    intro proof hproof
    simp only [serverOf, hproof]
    rfl

section Handlers
variable {cfg : BeaconConfig} {s : Beacon} {k : Nat} {root ch y p : Bytes}

theorem serveStage_synthetic : serveStage cfg s (-1) = .ok ⟨-1, .DONE, 0, some [], some [], some []⟩ :=
  if_pos rfl

theorem index_le {stage : Stage} (hk : s.stages[k]? = some stage) : k ≤ s.currentStageIndex := by
  have := (List.getElem?_eq_some_iff.mp hk).1
  unfold currentStageIndex
  omega

theorem serveStage_finished (h : Finished cfg s.stages k root ch y p) :
    ∃ n, serveStage cfg s (k : Int) = .ok ⟨k, .DONE, n, some root, some y, some p⟩ := by
  obtain ⟨stage, mkt, hk, hdone, hmkt, hroot, hch, hy, hp⟩ := h.stage
  have hin : (0 : Int) ≤ k ∧ (k : Int) ≤ s.currentStageIndex := by
    have := index_le hk
    omega
  have hacc : stage.getAccVal cfg.P = .ok root := by
    rw [Stage.getAccVal, hdone, if_neg (by decide), hmkt, need_some, ok_bind, hroot]
  have hfinal : stage.getFinalY = .ok y := by
    rw [Stage.getFinalY, hdone, if_neg (Nat.lt_irrefl _), hy, need_some]
  have hproof : stage.getVdfProof = .ok p := by
    rw [Stage.getVdfProof, hdone, if_neg (Nat.lt_irrefl _), hp, need_some]
  refine ⟨stage.data.length, ?_⟩
  rw [serveStage, if_neg (by omega), if_neg (by simpa using hin), Int.toNat_natCast, hk, need_some,
    ok_bind, hacc, hfinal, hproof, hdone, if_pos (by decide)]
  rfl

theorem serveStages_eq {info : Nat → StageInfo} {start : Int} {N : Nat}
    (h : ∀ n, n < N → serveStage cfg s (start + n) = .ok (info n)) :
    serveStages cfg s start (start + N - 1) = .ok ((List.range N).map info) := by
  have hlen : (start + N - 1 + 1 - start).toNat = N := by omega
  rw [serveStages, hlen, mapM_eq_ok_iff, List.forall₂_map_left_iff, List.forall₂_map_right_iff,
    List.forall₂_same]
  intro n hn
  exact h n (List.mem_range.mp hn)

/-- The receipt of a finished stage is served a proof that verifies against its accval. -/
theorem serveAccproof_finished (hs : SequentialState cfg s) {receipt : Receipt}
    (hr : .returned receipt ∈ s.calls) (h : Finished cfg s.stages receipt.stageIdx root ch y p) :
    ∃ proof, serveAccproof cfg s receipt.stageIdx receipt.dataIdx = .ok proof ∧
      cfg.P.accumulator.verify root proof receipt.x = .ok true := by
  obtain ⟨stage, mkt, hk, hdone, hmkt, hroot, -⟩ := h.stage
  obtain ⟨stage', hk', _, hproved⟩ := hs.sound.honoured hr
  rw [hk] at hk'
  cases hk'
  have hpast : PastContribution stage := by
    rw [PastContribution, hdone]
    decide
  rcases hproved hpast with hjob | ⟨mkt', leaves, accval, proof, hmkt', _, _, hval, hproof, hverify⟩
  · have hcurrent := hs.history.job
    rw [hjob] at hcurrent
    have hphase := (Current.get hcurrent hk).1
    rw [hdone] at hphase
    cases hphase
  · have hsame : accval = root := by
      obtain ⟨mkt'', hmkt'', hroot'⟩ := getAccVal_eq_ok hval
      rw [hmkt] at hmkt''
      cases hmkt''
      rw [hroot] at hroot'
      cases hroot'
      rfl
    subst hsame
    have hin : (0 : Int) ≤ receipt.stageIdx ∧ (receipt.stageIdx : Int) ≤ s.currentStageIndex := by
      have := index_le hk
      omega
    refine ⟨proof, ?_, hverify⟩
    rw [serveAccproof, if_neg (by simpa using hin), Int.toNat_natCast, hk, need_some, ok_bind, hdone,
      if_neg (by decide)]
    exact hproof

end Handlers

theorem returned_step {cfg : BeaconConfig} {s t : Beacon} {a : BeaconAction} {receipt : Receipt}
    (h : step cfg s a = some t) (hr : .returned receipt ∈ s.calls) : .returned receipt ∈ t.calls := by
  cases a with
  | contribute x =>
    cases h
    exact List.mem_append_left _ hr
  | call i =>
    obtain ⟨call, stages, call', hi, hstep, rfl⟩ := step_call_eq_some_iff.mp h
    obtain ⟨j, hj⟩ := List.getElem?_of_mem hr
    have hij : i ≠ j := by
      rintro rfl
      rw [hi] at hj
      cases hj
      cases hstep
    apply List.mem_of_getElem?
    rw [List.getElem?_set_ne hij]
    exact hj
  | scheduler =>
    obtain ⟨_, _, _, rfl⟩ := step_scheduler_eq_some_iff.mp h
    exact hr
  | vdfRun j =>
    obtain ⟨_, _, _, _, rfl⟩ := step_vdfRun_eq_some_iff.mp h
    exact hr

theorem returned_run {cfg : BeaconConfig} {receipt : Receipt} (as : List BeaconAction)
    (s t : Beacon) (hr : .returned receipt ∈ s.calls)
    (hrun : StepSystem.run (step cfg) s as = some t) : .returned receipt ∈ t.calls := by
  have hmeets : StepSystem.Meets (step cfg) (fun _ _ => True) s as :=
    StepSystem.Meets.of_forall (fun _ _ => trivial) as s
  exact StepSystem.run_invariant (fun _ _ _ hr _ h => returned_step h hr) as s t hr hmeets hrun

end Beacon

end Lootbox.Headstart

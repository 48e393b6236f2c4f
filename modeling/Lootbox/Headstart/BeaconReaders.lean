import Lootbox.Headstart.BeaconServer

/-!
# What readers of the beacon see between two statements

`stop_contribution` sets the phase before it accumulates the data, `vdf_run` sets it after
the results. A reader that comes in between finds a stage in the new phase without its
accumulator.
-/

namespace Lootbox.Headstart.Beacon

open StepSystem MerkleTree

/-! ### The getters -/

section Getters
variable {cfg : BeaconConfig} {stage : Stage} {tree : MerkleTree}

theorem getAccVal_of_none (h : stage.acc = none) (v : Bytes) : stage.getAccVal cfg.P ≠ .ok v := by
  intro hv
  obtain ⟨mkt, hmkt, _⟩ := getAccVal_eq_ok hv
  rw [h] at hmkt
  cases hmkt

theorem getAccVal_of_some (hphase : Phase.EVALUATION.value ≤ stage.phase.value)
    (h : stage.acc = some tree) :
    stage.getAccVal cfg.P = cfg.P.accumulator.getAccval tree := by
  unfold Stage.getAccVal
  rw [if_neg (Nat.not_lt.mpr hphase), h]
  rfl

theorem getAccProof_of_some (hphase : Phase.EVALUATION.value ≤ stage.phase.value)
    (h : stage.acc = some tree) (i : Int) :
    stage.getAccProof cfg.P i = getProof tree i := by
  unfold Stage.getAccProof
  rw [if_neg (Nat.not_lt.mpr hphase), h]
  rfl

theorem getProof_of_le {H : MerkleHash} {k : Nat} {labels leaves : List Bytes}
    (hc : Computed H k labels leaves) (data : Option (List Bytes)) {i : Nat} (hi : 2 ^ k ≤ i)
    (proof : MerkleProof) : getProof ⟨labels, 2 ^ k, data⟩ (i : Int) ≠ .ok proof := by
  have hpos := Nat.two_pow_pos k
  have hlen := hc.tree_length
  obtain ⟨cur, hcur⟩ : ∃ cur, ((i : Int) + ((2 ^ k : Nat) : Int) - 1).toNat = cur + 1 :=
    ⟨i + 2 ^ k - 2, by omega⟩
  intro hproof
  simp only [getProof, hcur, proofFrom, Nat.add_one_ne_zero, if_false] at hproof
  obtain ⟨step, hstep, _⟩ := bind_eq_ok_iff.mp hproof
  unfold siblingStep at hstep
  have hnone : ∀ j, labels.length ≤ j → ∀ h, need PyError.indexError labels[j]? ≠ .ok h := by
    intro j hj h hh
    rw [List.getElem?_eq_none hj] at hh
    cases hh
  split at hstep
  · obtain ⟨h, hh, _⟩ := bind_eq_ok_iff.mp hstep
    exact hnone _ (by omega) h hh
  · obtain ⟨h, hh, _⟩ := bind_eq_ok_iff.mp hstep
    exact hnone _ (by omega) h hh

/-- The accumulator answers exactly for its leaves. -/
theorem accumulate_answers {self : MerkleTreeAccumulator} {X : List Bytes} (hX : X ≠ [])
    (h : self.accumulate X = .ok tree) :
    X.length ≤ tree.lendata ∧ (∃ root, self.getAccval tree = .ok root) ∧
      ∀ i : Nat, (∃ proof, getProof tree (i : Int) = .ok proof) ↔ i < tree.lendata := by
  obtain ⟨k, labels, hc, hfrom⟩ := fromData_eq (H := self.H) hX
  obtain ⟨n, hpad⟩ := padData_prefix X
  have hsame : tree = { tree := labels, lendata := 2 ^ k, data := some (padData X) } := by
    rw [MerkleTreeAccumulator.accumulate, hfrom] at h
    cases h
    rfl
  subst hsame
  refine ⟨?_, ⟨_, hc.root_eq _ _⟩, ?_⟩
  · have hleaves := hc.leaves_length
    rw [hpad, List.length_append] at hleaves
    exact hleaves ▸ Nat.le_add_right _ _
  · intro i
    constructor
    · rintro ⟨proof, hproof⟩
      by_contra hi
      exact getProof_of_le hc _ (Nat.not_lt.mp hi) proof hproof
    · exact fun hi => ⟨_, hc.getProof_eq _ hi⟩

end Getters

/-! ### Readers -/

/-- Every stage answers what its phase promises, to callers of its getters and to the
requests that the handlers serve. -/
structure NeverAhead (cfg : BeaconConfig) (s : Beacon) : Prop where
  accVal : ∀ stage ∈ s.stages, Phase.EVALUATION.value ≤ stage.phase.value →
    ∃ accval, stage.getAccVal cfg.P = .ok accval
  accProof : ∀ stage ∈ s.stages, Phase.EVALUATION.value ≤ stage.phase.value →
    ∀ i : Nat, i < stage.data.length → ∃ proof, stage.getAccProof cfg.P i = .ok proof
  finalY : ∀ stage ∈ s.stages, stage.phase = .DONE → ∃ y, stage.getFinalY = .ok y
  vdfProof : ∀ stage ∈ s.stages, stage.phase = .DONE → ∃ p, stage.getVdfProof = .ok p
  serveStage : ∀ idx, ∃ info, serveStage cfg s idx = .ok info
  serveStages : ∀ start_idx end_idx, ∃ infos, serveStages cfg s start_idx end_idx = .ok infos
  serveAccproof : ∀ (k : Nat) (stage : Stage), s.stages[k]? = some stage →
    Phase.EVALUATION.value ≤ stage.phase.value → ∀ i : Nat, i < stage.data.length →
      ∃ proof, serveAccproof cfg s k i = .ok proof

/-- No `stop_contribution` is between `self.phase = Phase.EVALUATION` and `self.acc = ...`. -/
def Unhurried (s : Beacon) : Prop := ∀ k, s.scheduler ≠ .accumulating k

/-- What is appended to a stage after its accumulation still falls on the padding. -/
def DataFits (s : Beacon) : Prop :=
  ∀ stage ∈ s.stages, ∀ tree ∈ stage.acc, stage.data.length ≤ tree.lendata

/-- A `contribute` call that has checked the phase appends before the accumulation. -/
def AppendsInTime (s : Beacon) : BeaconAction → Prop
  | .call i => ∀ k x, s.calls[i]? = some (.appending k x) → (s.stages[k]?.bind Stage.acc) = none
  | _ => True

/-! ### The invariant -/

/-- `next_stage` is past `stop_contribution`. -/
def Closing : NextStageJob → Prop
  | .slicing => True
  | .appending _ => True
  | _ => False

/-- Every stage but the current one has its accumulator, and so has the current one once it
is closed. -/
def Accumulated (s : Beacon) : Prop :=
  ∀ (k : Nat) (stage : Stage), s.stages[k]? = some stage →
    k + 1 < s.stages.length ∨ Closing s.scheduler → stage.acc ≠ none

/-- Every accumulator comes from `accumulate`, past the contributions. -/
def FromData (cfg : BeaconConfig) (s : Beacon) : Prop :=
  ∀ stage ∈ s.stages, ∀ tree ∈ stage.acc, Phase.EVALUATION.value ≤ stage.phase.value ∧
    ∃ X, X ≠ [] ∧ cfg.P.accumulator.accumulate X = .ok tree

section Step
variable {cfg : BeaconConfig} {s t : Beacon} {a : BeaconAction}

theorem closing_of_nextStageStep {job : NextStageJob} {stages : List Stage}
    (h : nextStageStep cfg s s.scheduler = some (stages, job)) (hclosing : Closing job) :
    Closing s.scheduler ∨ ∃ k, s.scheduler = .starting k := by
  have hstep := nextStageStep_cases h
  generalize s.scheduler = before at hstep
  cases hstep with
  | started => exact Or.inr ⟨_, rfl⟩
  | sliced | appended => exact Or.inl trivial
  | called | refused | checked | phaseSet | accumulated | noTree | noPredecessor | asleep | awake
  | noFinalY | challenged | noAccVal => exact False.elim hclosing

theorem closing_of_step (h : step cfg s a = some t) (hclosing : Closing t.scheduler) :
    Closing s.scheduler ∨ ∃ k, s.scheduler = .starting k := by
  by_cases ha : a = .scheduler
  · subst ha
    obtain ⟨stages, job, hstep, rfl⟩ := step_scheduler_eq_some_iff.mp h
    exact closing_of_nextStageStep hstep hclosing
  · rw [scheduler_of_step ha h] at hclosing
    exact Or.inl hclosing

/-- With the last statement of `stop_contribution` ahead, every stage has its accumulator. -/
theorem Accumulated.starting (hacc : Accumulated s) (hs : History cfg s) {j : Nat}
    (hjob : s.scheduler = .starting j) {k : Nat} {stage : Stage} (hk : s.stages[k]? = some stage) :
    stage.acc ≠ none := by
  have hcurrent := hs.job
  rw [hjob] at hcurrent
  have hlast := Current.length hcurrent
  by_cases hkj : k = j
  · subst hkj
    obtain ⟨_, hsome, _⟩ := Current.get hcurrent hk
    exact Option.isSome_iff_ne_none.mp hsome
  · have hlt := (List.getElem?_eq_some_iff.mp hk).1
    exact hacc k stage hk (Or.inl (by omega))

theorem accumulated_step (hs : History cfg s) (hacc : Accumulated s)
    (h : step cfg s a = some t) : Accumulated t := by
  have hkeep : ∀ (k : Nat) (stage stage' : Stage), s.stages[k]? = some stage →
      t.stages[k]? = some stage' → stage.acc ≠ none → stage'.acc ≠ none := by
    intro k stage stage' hk hk' hne
    obtain ⟨_, hk'', hev⟩ := step_evolved hs h k stage hk
    rw [hk'] at hk''
    cases hk''
    obtain ⟨mkt, hmkt⟩ := Option.ne_none_iff_exists'.mp hne
    rw [hev.acc mkt hmkt]
    exact Option.some_ne_none mkt
  intro k stage' hk' hwhen
  rcases step_length h with hlen | ⟨prev_stages, _, hjob, rfl⟩
  · have hlt := (List.getElem?_eq_some_iff.mp hk').1
    have hk := List.getElem?_eq_getElem (l := s.stages) (i := k) (by omega)
    refine hkeep k _ stage' hk hk' ?_
    rcases hwhen with hearlier | hclosing
    · exact hacc k _ hk (Or.inl (by omega))
    · rcases closing_of_step h hclosing with hclosing | ⟨j, hstarting⟩
      · exact hacc k _ hk (Or.inr hclosing)
      · exact hacc.starting hs hstarting hk
  · rcases hwhen with hearlier | hclosing
    · rw [List.length_append, List.length_singleton] at hearlier
      rw [List.getElem?_append_left (by omega)] at hk'
      exact hacc k stage' hk' (Or.inr (by rw [hjob]; trivial))
    · exact False.elim hclosing

theorem fromData_step (hs : History cfg s) (hfrom : FromData cfg s)
    (h : step cfg s a = some t) : FromData cfg t := by
  intro stage' hmem tree htree
  obtain ⟨k, hk⟩ := List.getElem?_of_mem hmem
  rcases stage_of_step h hk with ⟨stage, hold, hstage⟩ | ⟨_, _, _, _, _, rfl⟩
  · have hprev := hfrom stage (List.mem_of_getElem? hold)
    cases hstage with
    | acc hsched haccumulate =>
      cases htree
      have hjob := hs.job
      rw [hsched] at hjob
      exact ⟨(Current.get hjob hold).1 ▸ Nat.le_refl _, stage.data,
        (hs.stages k stage hold).data_ne_nil, haccumulate⟩
    | vdf hvdf =>
      obtain ⟨_, hacc, _, _, _, hphase⟩ := vdfRunStep_frame hvdf
      rw [hacc] at htree
      obtain ⟨hpast, hX⟩ := hprev tree htree
      refine ⟨?_, hX⟩
      rcases hphase with hphase | hphase
      · rw [hphase]
        exact hpast
      · rw [hphase]
        decide
    | phase => exact ⟨Nat.le_refl _, (hprev tree htree).2⟩
    | unchanged | append | challenge | thread => exact hprev tree htree
  · cases htree

theorem dataFits_step (hs : History cfg s) (hfits : DataFits s) (hok : AppendsInTime s a)
    (h : step cfg s a = some t) : DataFits t := by
  intro stage' hmem tree htree
  obtain ⟨k, hk⟩ := List.getElem?_of_mem hmem
  rcases stage_of_step h hk with ⟨stage, hold, hstage⟩ | ⟨_, _, _, _, _, rfl⟩
  · have hprev := hfits stage (List.mem_of_getElem? hold)
    cases hstage with
    | append hcall =>
      have hnone := hok k _ hcall
      rw [hold, Option.bind_some] at hnone
      rw [show stage.acc = some tree from htree] at hnone
      cases hnone
    | acc _ haccumulate =>
      cases htree
      exact (accumulate_answers (hs.stages k stage hold).data_ne_nil haccumulate).1
    | vdf hvdf =>
      obtain ⟨hdata, hacc, _⟩ := vdfRunStep_frame hvdf
      rw [hacc] at htree
      rw [hdata]
      exact hprev tree htree
    | unchanged | phase | challenge | thread => exact hprev tree htree
  · cases htree

end Step

structure ReaderState (cfg : BeaconConfig) (s : Beacon) : Prop where
  history : History cfg s
  accumulated : Accumulated s
  fromData : FromData cfg s
  nonempty : 0 < s.stages.length

theorem readerState_init (cfg : BeaconConfig) : ReaderState cfg init where
  history := history_init cfg
  accumulated := by
    intro k stage _ hwhen
    rcases hwhen with hearlier | hclosing
    · exact absurd hearlier (by simp [init])
    · exact False.elim hclosing
  fromData := by
    intro stage hmem tree htree
    rw [List.mem_singleton.mp hmem] at htree
    cases htree
  nonempty := Nat.one_pos

theorem readerState_step {cfg : BeaconConfig} (hW : 2 ≤ cfg.W) {s t : Beacon} {a : BeaconAction}
    (hs : ReaderState cfg s) (h : step cfg s a = some t) : ReaderState cfg t where
  history := history_step hW hs.history h
  accumulated := accumulated_step hs.history hs.accumulated h
  fromData := fromData_step hs.history hs.fromData h
  nonempty := by
    have hpos := hs.nonempty
    rcases step_length h with hlen | ⟨_, _, _, rfl⟩
    · omega
    · simp

theorem readerState_run {cfg : BeaconConfig} (hW : 2 ≤ cfg.W) {as : List BeaconAction}
    {s : Beacon} (hrun : run (step cfg) init as = some s) : ReaderState cfg s := by
  have hmeets : Meets (step cfg) (fun _ _ => True) init as :=
    Meets.of_forall (fun _ _ => trivial) as init
  exact run_invariant (fun _ _ _ hs _ h => readerState_step hW hs h) as init s
    (readerState_init cfg) hmeets hrun

theorem dataFits_run {cfg : BeaconConfig} (hW : 2 ≤ cfg.W) {as : List BeaconAction}
    {s : Beacon} (hmeets : Meets (step cfg) AppendsInTime init as)
    (hrun : run (step cfg) init as = some s) : DataFits s := by
  have hinit : DataFits init := by
    intro stage hmem tree htree
    rw [List.mem_singleton.mp hmem] at htree
    cases htree
  have hstep : ∀ s a t, (History cfg s ∧ DataFits s) → AppendsInTime s a → step cfg s a = some t →
      History cfg t ∧ DataFits t := by
    intro s a t hs hok h
    exact ⟨history_step hW hs.1 h, dataFits_step hs.1 hs.2 hok h⟩
  exact (run_invariant hstep as init s ⟨history_init cfg, hinit⟩ hmeets hrun).2

/-! ### What a reader finds -/

section Readers
variable {cfg : BeaconConfig} {s : Beacon}

/-- Past its contributions a stage has its accumulator, unless it is being made. -/
theorem ReaderState.acc_ne_none (hs : ReaderState cfg s) (hunhurried : Unhurried s) {k : Nat}
    {stage : Stage} (hk : s.stages[k]? = some stage)
    (hphase : Phase.EVALUATION.value ≤ stage.phase.value) : stage.acc ≠ none := by
  have hlt := (List.getElem?_eq_some_iff.mp hk).1
  by_cases hlast : k + 1 < s.stages.length
  · exact hs.accumulated k stage hk (Or.inl hlast)
  · have hjob := hs.history.job
    have hopen : ∀ {j : Nat} {acc challenge : Bool},
        ¬ Current s.stages j .CONTRIBUTION acc challenge := by
      intro j acc challenge hcurrent
      have hj := hcurrent.length
      obtain rfl : k = j := by omega
      rw [(hcurrent.get hk).1] at hphase
      exact absurd hphase (by decide)
    have hclosed : ∀ {j : Nat} {challenge : Bool},
        Current s.stages j .EVALUATION true challenge → stage.acc ≠ none := by
      intro j challenge hcurrent
      have hj := hcurrent.length
      obtain rfl : k = j := by omega
      exact Option.isSome_iff_ne_none.mp (hcurrent.get hk).2.1
    cases hsched : s.scheduler with
    | idle | checking | settingPhase =>
      rw [hsched] at hjob
      exact absurd hjob hopen
    | accumulating j => exact absurd hsched (hunhurried j)
    | waiting | starting =>
      rw [hsched] at hjob
      exact hclosed hjob
    | challenging =>
      rw [hsched] at hjob
      exact hclosed hjob.1
    | slicing | appending =>
      exact hs.accumulated k stage hk (Or.inr (by rw [hsched]; trivial))

theorem serveStage_answers (hne : 0 < s.stages.length)
    (haccVal : ∀ stage ∈ s.stages, Phase.EVALUATION.value ≤ stage.phase.value →
      ∃ accval, stage.getAccVal cfg.P = .ok accval)
    (hfinalY : ∀ stage ∈ s.stages, stage.phase = .DONE → ∃ y, stage.getFinalY = .ok y)
    (hvdfProof : ∀ stage ∈ s.stages, stage.phase = .DONE → ∃ p, stage.getVdfProof = .ok p)
    (idx : Int) : ∃ info, serveStage cfg s idx = .ok info := by
  unfold serveStage
  by_cases hsynthetic : idx = -1
  · exact ⟨_, if_pos hsynthetic⟩
  by_cases hin : 0 ≤ idx ∧ idx ≤ s.currentStageIndex
  · rw [if_neg hsynthetic, if_neg (not_not_intro hin)]
    have hlt : idx.toNat < s.stages.length := by
      have hle := hin.2
      unfold currentStageIndex at hle
      omega
    rw [List.getElem?_eq_getElem hlt, need_some, ok_bind]
    have hmem := List.getElem_mem hlt
    generalize s.stages[idx.toNat] = stage at hmem
    have haccVal := haccVal stage hmem
    have hfinalY := hfinalY stage hmem
    have hvdfProof := hvdfProof stage hmem
    cases hphase : stage.phase with
    | NONE | CONTRIBUTION => exact ⟨_, rfl⟩
    | EVALUATION =>
      rw [hphase] at haccVal
      obtain ⟨accval, hval⟩ := haccVal (Nat.le_refl _)
      rw [hval]
      exact ⟨_, rfl⟩
    | DONE =>
      rw [hphase] at haccVal
      obtain ⟨accval, hval⟩ := haccVal (by decide)
      obtain ⟨y, hy⟩ := hfinalY hphase
      obtain ⟨p, hp⟩ := hvdfProof hphase
      rw [hval, hy, hp]
      exact ⟨_, rfl⟩
  · exact ⟨_, by rw [if_neg hsynthetic, if_pos hin]⟩

/-- Readers get their answers when every stage past its contributions has an accumulator
that covers its data. -/
theorem ReaderState.neverAhead (hs : ReaderState cfg s) (hunhurried : Unhurried s)
    (hfits : DataFits s) : NeverAhead cfg s := by
  have htree : ∀ (k : Nat) (stage : Stage), s.stages[k]? = some stage →
      Phase.EVALUATION.value ≤ stage.phase.value →
        (∃ accval, stage.getAccVal cfg.P = .ok accval) ∧
          ∀ i : Nat, i < stage.data.length → ∃ proof, stage.getAccProof cfg.P i = .ok proof := by
    intro k stage hk hphase
    have hmem := List.mem_of_getElem? hk
    obtain ⟨tree, hacc⟩ := Option.ne_none_iff_exists'.mp (hs.acc_ne_none hunhurried hk hphase)
    obtain ⟨_, X, hX, haccumulate⟩ := hs.fromData stage hmem tree hacc
    obtain ⟨_, hroot, hproofs⟩ := accumulate_answers hX haccumulate
    rw [getAccVal_of_some hphase hacc]
    refine ⟨hroot, fun i hi => ?_⟩
    rw [getAccProof_of_some hphase hacc]
    exact (hproofs i).mpr (Nat.lt_of_lt_of_le hi (hfits stage hmem tree hacc))
  have haccVal : ∀ stage ∈ s.stages, Phase.EVALUATION.value ≤ stage.phase.value →
      ∃ accval, stage.getAccVal cfg.P = .ok accval := by
    intro stage hmem hphase
    obtain ⟨k, hk⟩ := List.getElem?_of_mem hmem
    exact (htree k stage hk hphase).1
  have hfinalY : ∀ stage ∈ s.stages, stage.phase = .DONE → ∃ y, stage.getFinalY = .ok y := by
    intro stage hmem hdone
    obtain ⟨k, hk⟩ := List.getElem?_of_mem hmem
    obtain ⟨y, _, hy⟩ := (hs.history.stages k stage hk).getFinalY_eq hdone
    exact ⟨y, hy⟩
  have hvdfProof : ∀ stage ∈ s.stages, stage.phase = .DONE → ∃ p, stage.getVdfProof = .ok p := by
    intro stage hmem hdone
    obtain ⟨k, hk⟩ := List.getElem?_of_mem hmem
    obtain ⟨p, hp⟩ := Option.ne_none_iff_exists'.mp ((hs.history.stages k stage hk).done hdone)
    refine ⟨p, ?_⟩
    rw [Stage.getVdfProof, hdone, if_neg (Nat.lt_irrefl _), hp, need_some]
  have hserve := serveStage_answers hs.nonempty haccVal hfinalY hvdfProof
  constructor
  · exact haccVal
  · intro stage hmem hphase
    obtain ⟨k, hk⟩ := List.getElem?_of_mem hmem
    exact (htree k stage hk hphase).2
  · exact hfinalY
  · exact hvdfProof
  · exact hserve
  · exact fun _ _ => exists_mapM_eq_ok fun idx _ => hserve idx
  · intro k stage hk hphase i hi
    have hin : (0 : Int) ≤ k ∧ (k : Int) ≤ s.currentStageIndex := by
      have := index_le hk
      omega
    obtain ⟨proof, hproof⟩ := (htree k stage hk hphase).2 i hi
    refine ⟨proof, ?_⟩
    rw [serveAccproof, if_neg (not_not_intro hin), Int.toNat_natCast, hk, need_some, ok_bind,
      if_neg (Nat.not_lt.mpr hphase), hproof]

theorem NeverAhead.unhurried (h : NeverAhead cfg s) (hs : ReaderState cfg s) : Unhurried s := by
  intro k hsched
  have hjob := hs.history.job
  rw [hsched] at hjob
  obtain ⟨stage, hk, hphase, hacc, _⟩ := Current.stage hjob
  obtain ⟨accval, hval⟩ := h.accVal stage (List.mem_of_getElem? hk) (by rw [hphase])
  exact getAccVal_of_none (Option.isNone_iff_eq_none.mp (by simpa using hacc)) accval hval

theorem NeverAhead.dataFits (h : NeverAhead cfg s) (hs : ReaderState cfg s) : DataFits s := by
  intro stage hmem tree hacc
  obtain ⟨hphase, X, hX, haccumulate⟩ := hs.fromData stage hmem tree hacc
  obtain ⟨_, _, hproofs⟩ := accumulate_answers hX haccumulate
  have hpos : 0 < tree.lendata :=
    Nat.lt_of_lt_of_le (List.length_pos_of_ne_nil hX) (accumulate_answers hX haccumulate).1
  -- the last position of the data is answered, so it is a leaf
  by_contra hover
  obtain ⟨proof, hproof⟩ := h.accProof stage hmem hphase (stage.data.length - 1) (by omega)
  rw [getAccProof_of_some hphase hacc] at hproof
  have hleaf := (hproofs _).mp ⟨proof, hproof⟩
  omega

end Readers

/-- Readers are answered in a state of a run exactly when no phase was set ahead of its
accumulator and no late contribution has outgrown the tree. -/
theorem neverAhead_iff (cfg : BeaconConfig) (hW : 2 ≤ cfg.W) (as : List BeaconAction) (s : Beacon)
    (hrun : run (step cfg) init as = some s) :
    (NeverAhead cfg s ↔ Unhurried s ∧ DataFits s) ∧
      (Meets (step cfg) AppendsInTime init as → DataFits s) := by
  have hs := readerState_run hW hrun
  refine ⟨⟨fun h => ⟨h.unhurried hs, h.dataFits hs⟩, fun h => hs.neverAhead h.1 h.2⟩, ?_⟩
  exact fun hmeets => dataFits_run hW hmeets hrun

/-- The first stage is closed; its accumulator comes with the next statement. -/
theorem phase_ahead_of_accumulator :
    ∃ (cfg : BeaconConfig) (as : List BeaconAction) (s : Beacon),
      run (step cfg) init as = some s ∧ Meets (step cfg) AppendsInTime init as ∧
        ¬ NeverAhead cfg s := by
  refine ⟨toyConfig, [.scheduler, .scheduler, .scheduler], _, rfl, ?_, ?_⟩
  · exact ⟨trivial, fun _ _ => ⟨trivial, fun _ _ => ⟨trivial, fun _ _ => trivial⟩⟩⟩
  · intro h
    obtain ⟨accval, hval⟩ := h.accVal _ List.mem_cons_self (Nat.le_refl _)
    exact getAccVal_of_none rfl accval hval

theorem neverAhead_undisturbedRun :
    ∃ s, run (step toyConfig) init undisturbedRun = some s ∧ NeverAhead toyConfig s := by
  refine ⟨_, rfl, (neverAhead_iff toyConfig (by decide) undisturbedRun _ rfl).1.mpr ⟨?_, ?_⟩⟩
  · rintro k ⟨⟩
  · intro stage hmem tree htree
    cases List.mem_singleton.mp hmem
    cases htree
    decide

end Lootbox.Headstart.Beacon

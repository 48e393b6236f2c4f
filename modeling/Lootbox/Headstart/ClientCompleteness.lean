import Lootbox.Headstart.BeaconServer

/-!
# An honest beacon satisfies its clients

The windows that the client splits its range into are the windows that the stages
aggregated, and the challenges that it recomputes are those of the stages.
-/

namespace Lootbox.Headstart.HeadStartClient

open Beacon StepSystem

/-- Aggregated proofs of evaluated challenges verify. -/
def AvdfComplete (avdf : AggregateVDF) : Prop :=
  ∀ chs ys, chs ≠ [] → List.Forall₂ (fun ch y => (avdf.eval [ch]).head? = some y) chs ys →
    avdf.verify chs (ys.map some) (some (avdf.aggregate chs ys)) = .ok true

/-- The output before stage `j`; before the first stage it is empty. -/
def yBefore (y : Nat → Bytes) : Nat → Bytes
  | 0 => []
  | j + 1 => y j

/-- The stages up to `k` with their roots, challenges, outputs and proofs. -/
structure HonestChain (cfg : BeaconConfig) (k : Nat) (root ch y p : Nat → Bytes) : Prop where
  chained : ∀ j ≤ k, ch j = cfg.P.hash (root j ++ yBefore y j)
  evaluated : ∀ j ≤ k, (cfg.P.avdf.eval [ch j]).head? = some (y j)
  aggregated : ∀ j ≤ k, p j = cfg.P.avdf.aggregate ((windowBefore cfg.W j ++ [j]).map ch)
    ((windowBefore cfg.W j ++ [j]).map y)

/-- The record of stage `j` that the server answers with. -/
def honestInfo (contributions : Nat → Nat) (root y p : Nat → Bytes) (j : Nat) : StageInfo :=
  ⟨j, .DONE, contributions j, some (root j), some (y j), some (p j)⟩

theorem getStageUntil_append (earlier : List StageInfo) {info : StageInfo}
    (h : info.phase = .DONE) : ∃ info', getStageUntil .DONE (earlier ++ [info]) = .ok info' := by
  induction earlier with
  | nil => exact ⟨info, by simp [getStageUntil, h]⟩
  | cons e earlier ih =>
    obtain ⟨info', hinfo'⟩ := ih
    by_cases he : e.phase.value < Phase.DONE.value
    · exact ⟨info', by rw [List.cons_append, getStageUntil, if_pos he, hinfo']⟩
    · exact ⟨e, by rw [List.cons_append, getStageUntil, if_neg he]⟩

theorem windowBefore_append (W : Nat) (hW : 0 < W) (e : Nat) :
    windowBefore W e ++ [e] = List.range' (e + 1 - W) (e + 1 - (e + 1 - W)) := by
  have hlen : e + 1 - (e + 1 - W) = e - (e + 1 - W) + 1 := by omega
  have hlast : e + 1 - W + 1 * (e - (e + 1 - W)) = e := by omega
  rw [hlen, List.range'_concat, hlast, windowBefore]

theorem window_natCast {W c k j : Nat} (hW : 0 < W) (hck : c ≤ k)
    (hj : j < windowCount (W : Int) c k) :
    ∃ e : Nat, c ≤ e ∧ e ≤ k ∧ window (W : Int) k j = (((e + 1 - W : Nat) : Int), (e : Int)) := by
  have hle := (lt_windowCount_iff (W := (W : Int)) (c := c) (s := k) (by omega) (by omega) j).mp hj
  have h0 : 0 ≤ (W : Int) * j := Int.mul_nonneg (by omega) (by omega)
  refine ⟨(k - (W : Int) * j).toNat, by omega, by omega, ?_⟩
  unfold window
  rw [Prod.mk.injEq]
  constructor
  · omega
  · omega

section Lists
variable {cfg : BeaconConfig} {k : Nat} {root ch y p : Nat → Bytes} {contributions : Nat → Nat}
variable {S N : Nat} {extra : StageInfo}

theorem challenges_honest (contributions : Nat → Nat) (h : HonestChain cfg k root ch y p) (hN : S + N ≤ k + 1)
    (hextra : extra.vdfy = some (yBefore y S)) :
    (((List.range' S N).map (honestInfo contributions root y p)).zip
        (extra :: (List.range' S N).map (honestInfo contributions root y p))).mapM
      (challenge cfg.P) = .ok ((List.range' S N).map ch) := by
  rw [mapM_eq_ok_iff, List.forall₂_iff_get]
  refine ⟨by simp, ?_⟩
  intro i hi hi'
  rw [List.length_map, List.length_range'] at hi'
  simp only [List.get_eq_getElem, List.getElem_zip, List.getElem_map, List.getElem_range',
    Nat.one_mul]
  have hlen : i < (extra :: (List.range' S N).map (honestInfo contributions root y p)).length := by
    rw [List.length_cons, List.length_map, List.length_range']
    omega
  have hprev : (extra :: (List.range' S N).map (honestInfo contributions root y p))[i].vdfy =
      some (yBefore y (S + i)) := by
    cases i with
    | zero => exact hextra
    | succ i =>
      simp only [List.getElem_cons_succ, List.getElem_map, List.getElem_range', Nat.one_mul]
      rfl
  rw [challenge, hprev, h.chained (S + i) (by omega)]
  rfl

theorem forall₂_map_map {js : List Nat} (h : ∀ j ∈ js, (cfg.P.avdf.eval [ch j]).head? = some (y j)) :
    List.Forall₂ (fun c v => (cfg.P.avdf.eval [c]).head? = some v) (js.map ch) (js.map y) := by
  rw [List.forall₂_map_left_iff, List.forall₂_map_right_iff, List.forall₂_same]
  exact h

theorem slice_range' {α : Type} (f : Nat → α) {x e : Nat} (hx : S ≤ x) (hxe : x ≤ e)
    (he : e < S + N) :
    PySeq.slice ((List.range' S N).map f) (x - S : Int) (e - S + 1 : Int) =
      (List.range' x (e + 1 - x)).map f := by
  have h1 : (x : Int) - S = ((x - S : Nat) : Int) := by omega
  have h2 : (e : Int) - S + 1 = ((e + 1 - S : Nat) : Int) := by omega
  have h3 : S + (x - S) = x := by omega
  have h4 : e + 1 - S - (x - S) = e + 1 - x := by omega
  rw [h1, h2, PySeq.slice_natCast, ← List.map_take, ← List.map_drop,
    List.take_range'_of_length_ge (by omega), List.drop_range', Nat.mul_one, h3, h4]

theorem verifyRange_honest (hcomplete : AvdfComplete cfg.P.avdf) (hW : 0 < cfg.W)
    (h : HonestChain cfg k root ch y p) (hN : S + N ≤ k + 1) {e : Nat} (hSe : S ≤ e + 1 - cfg.W)
    (he : e < S + N) :
    verifyRange cfg.P ((List.range' S N).map (honestInfo contributions root y p))
      ((List.range' S N).map ch)
      (((List.range' S N).map (honestInfo contributions root y p)).map StageInfo.vdfy)
      (((e + 1 - cfg.W : Nat) : Int) - S, (e : Int) - S) = .ok () := by
  have hys : ((List.range' S N).map (honestInfo contributions root y p)).map StageInfo.vdfy =
      (List.range' S N).map fun j => some (y j) := by
    rw [List.map_map]
    rfl
  have hlast : PySeq.get ((List.range' S N).map (honestInfo contributions root y p)) ((e : Int) - S) =
      some (honestInfo contributions root y p e) := by
    have hcast : (e : Int) - S = ((e - S : Nat) : Int) := by omega
    rw [hcast, PySeq.get_natCast, List.getElem?_map, List.getElem?_range' (by omega), Option.map_some]
    congr 2
    omega
  have hproof : cfg.P.avdf.verify ((windowBefore cfg.W e ++ [e]).map ch)
      (((windowBefore cfg.W e ++ [e]).map y).map some) (some (p e)) = .ok true := by
    rw [h.aggregated e (by omega)]
    apply hcomplete
    · simp
    · apply forall₂_map_map
      intro j hj
      apply h.evaluated
      rw [windowBefore_append _ hW, List.mem_range'_1] at hj
      omega
  rw [windowBefore_append _ hW, List.map_map] at hproof
  simp only [verifyRange, hys, slice_range' _ hSe (show e + 1 - cfg.W ≤ e by omega) he, hlast,
    need_some, ok_bind]
  change (cfg.P.avdf.verify _ _ (some (p e)) >>= _) = _
  rw [show (fun j => some (y j)) = some ∘ y from rfl, hproof]
  rfl

theorem find?_honest {j : Nat} (hSj : S ≤ j) (hj : j < S + N) :
    ((List.range' S N).map (honestInfo contributions root y p)).find? (fun stg => stg.stage == (j : Int)) =
      some (honestInfo contributions root y p j) := by
  rw [List.find?_eq_some_iff_getElem]
  refine ⟨by simp [honestInfo], j - S, ?_, ?_, ?_⟩
  · rw [List.length_map, List.length_range']
    omega
  · simp only [List.getElem_map, List.getElem_range', Nat.one_mul]
    congr 1
    omega
  · intro i hi
    simp only [List.getElem_map, List.getElem_range', Nat.one_mul, honestInfo]
    rw [Bool.not_eq_true', beq_eq_false_iff_ne]
    omega

end Lists

/-! ### The call as a whole -/

section Call
variable {cfg : BeaconConfig} {k c : Nat} {root ch y p : Nat → Bytes} {contributions : Nat → Nat}
variable {contribution : Contribution} {server : ServerAnswers}

theorem verifyStages_eq_ok_of {P : Parameters} {stage_idx : Int} {ranges : List (Int × Int)}
    {start : Int} {extra contributed target : StageInfo} {stages : List StageInfo}
    {chs : List Bytes}
    (hcontributed : (stages.find? fun stg => stg.stage == contribution.stage) = some contributed)
    (hincluded : accumulatorVerify P contributed.accval
      (server.accproof contribution.stage contribution.dataIndex) contribution.value = .ok true)
    (hchs : (stages.zip (extra :: stages)).mapM (challenge P) = .ok chs)
    (hranges : ∀ r ∈ ranges,
      verifyRange P stages chs (stages.map StageInfo.vdfy) (r.1 - start, r.2 - start) = .ok ())
    (htarget : (stages.find? fun stg => stg.stage == stage_idx) = some target) :
    verifyStages P server contribution stage_idx ranges start extra stages = .ok target.vdfy := by
  have hall : (ranges.map fun r => (r.1 - start, r.2 - start)).forM
      (verifyRange P stages chs (stages.map StageInfo.vdfy)) = .ok () := by
    rw [forM_eq_ok_iff, List.forall_mem_map]
    exact hranges
  simp only [verifyStages, hcontributed, hincluded, hchs, htarget, need_some, ok_bind]
  change ((ranges.map fun r => (r.1 - start, r.2 - start)).forM _ >>= _) = _
  rw [hall]
  rfl

def firstStage (W c k : Nat) : Nat := (requestedStart (W : Int) c k).toNat

theorem firstStage_natCast {W c k : Nat} :
    ((firstStage W c k : Nat) : Int) = requestedStart (W : Int) c k :=
  Int.toNat_of_nonneg requestedStart_nonneg

theorem firstStage_le {W c k : Nat} (hW : 0 < W) (hck : c ≤ k) : firstStage W c k ≤ c := by
  have h := requestedStart_le (W := (W : Int)) (c := c) (s := k) (by omega) (by omega) (by omega)
  rw [← firstStage_natCast] at h
  omega

/-- Against honest answers the call returns the output of the stage. -/
theorem getVerifiedRandomness_honest (hcomplete : AvdfComplete cfg.P.avdf) (hW : 0 < cfg.W)
    (hck : c ≤ k) (h : HonestChain cfg k root ch y p) (hstage : contribution.stage = (c : Int))
    {earlier : List StageInfo} {info extra : StageInfo} (hdone : info.phase = .DONE)
    (hpoll : server.stage k = earlier ++ [info])
    (hextra : extra.vdfy = some (yBefore y (firstStage cfg.W c k)))
    (hanswer : server.stages (firstStage cfg.W c k - 1) k = extra ::
      (List.range' (firstStage cfg.W c k) (k + 1 - firstStage cfg.W c k)).map
        (honestInfo contributions root y p))
    (hincluded : accumulatorVerify cfg.P (some (root c))
      (server.accproof contribution.stage contribution.dataIndex) contribution.value = .ok true) :
    getVerifiedRandomness cfg.P cfg.W server contribution k = .ok (some (y k)) := by
  have hSc := firstStage_le hW hck
  obtain ⟨info', hinfo'⟩ := getStageUntil_append earlier hdone
  have hfirst : ((List.range' (firstStage cfg.W c k) (k + 1 - firstStage cfg.W c k)).map
      (honestInfo contributions root y p)).find? (fun stg => stg.stage == contribution.stage) =
        some (honestInfo contributions root y p c) := by
    rw [hstage]
    exact find?_honest hSc (by omega)
  have hverify : verifyStages cfg.P server contribution k
      ((List.range (windowCount (cfg.W : Int) c k)).map (window (cfg.W : Int) k)).reverse
      (firstStage cfg.W c k : Nat) extra
      ((List.range' (firstStage cfg.W c k) (k + 1 - firstStage cfg.W c k)).map
        (honestInfo contributions root y p)) = .ok (honestInfo contributions root y p k).vdfy := by
    apply verifyStages_eq_ok_of hfirst hincluded (challenges_honest contributions h (by omega) hextra) _
      (find?_honest (by omega) (by omega))
    intro r hr
    obtain ⟨j, hj, rfl⟩ := mem_ranges_iff.mp hr
    have hbound := (window_bounds (W := (cfg.W : Int)) (c := c) (s := k) (by omega) hj).1
    obtain ⟨e, hce, hek, hwindow⟩ := window_natCast hW hck hj
    rw [hwindow, ← firstStage_natCast] at hbound
    rw [hwindow]
    exact verifyRange_honest hcomplete hW h (by omega) (by omega) (by omega)
  simp only [getVerifiedRandomness, hpoll, hinfo', ok_bind, hstage,
    ranges_eq (W := (cfg.W : Int)) (c := c) (s := k) (by omega) (by omega), get_ranges_first,
    get_ranges_last, need_some]
  rw [firstStage_natCast] at hanswer hverify
  rw [requestedStart] at hanswer
  rw [hanswer]
  exact hverify

end Call

/-! ### The beacon behind the answers -/

/-- What a client that holds a receipt gets for a finished stage `k` of the beacon `s`. -/
structure Satisfied (cfg : BeaconConfig) (s : Beacon) (receipt : Receipt) (k : Nat)
    (server : ServerAnswers) : Prop where
  value : ∃ stage y, s.stages[k]? = some stage ∧ stage.vdfY = some y ∧
    getVerifiedRandomness cfg.P cfg.W server receipt.toContribution k = .ok (some y)
  cover : ∀ i : Nat, receipt.stageIdx ≤ i → i ≤ k →
    ∃ j, j < windowCount (cfg.W : Int) receipt.stageIdx k ∧
      (window (cfg.W : Int) k j).1 ≤ i ∧ i ≤ (window (cfg.W : Int) k j).2
  windows : ∀ j, j < windowCount (cfg.W : Int) receipt.stageIdx k →
    ∃ (x e : Nat) (stage : Stage), window (cfg.W : Int) k j = ((x : Int), (e : Int)) ∧
      s.stages[e]? = some stage ∧ stage.prevStages ++ [e] = List.range' x (e + 1 - x)
  challenges : ∀ i : Nat, firstStage cfg.W receipt.stageIdx k ≤ i → i ≤ k →
    ∃ stage ch, s.stages[i]? = some stage ∧ stage.vdfChallenge = some ch ∧
      challengeAt cfg.P (answered cfg.W server receipt.stageIdx k)
        (requestedStart (cfg.W : Int) receipt.stageIdx k) i = some ch

theorem fieldOf_eq_map {field : Stage → Option Bytes} {stages : List Stage} {v : Nat → Bytes} :
    ∀ js : List Nat, (∀ j ∈ js, stages[j]?.bind field = some (v j)) →
      fieldOf field stages js = some (js.map v) := by
  intro js
  induction js with
  | nil => exact fun _ => rfl
  | cons j js ih =>
    intro h
    have hj := h j List.mem_cons_self
    have hjs := ih fun i hi => h i (List.mem_cons_of_mem _ hi)
    unfold fieldOf at hjs ⊢
    rw [List.mapM_cons, hj, hjs]
    rfl

theorem honestChain_of_finished {cfg : BeaconConfig} {s : Beacon} {k : Nat}
    {root ch y p : Nat → Bytes}
    (hfin : ∀ j ≤ k, Finished cfg s.stages j (root j) (ch j) (y j) (p j)) :
    HonestChain cfg k root ch y p := by
  have hfields : ∀ j ≤ k, s.stages[j]?.bind Stage.vdfChallenge = some (ch j) ∧
      s.stages[j]?.bind Stage.vdfY = some (y j) := by
    intro j hj
    obtain ⟨stage, _, hk, _, _, _, hch, hy, _⟩ := (hfin j hj).stage
    rw [hk]
    exact ⟨hch, hy⟩
  have hwindow : ∀ j ≤ k, ∀ i ∈ windowBefore cfg.W j, i ≤ k := by
    intro j hj i hi
    rw [windowBefore, List.mem_range'_1] at hi
    omega
  constructor
  · intro j hj
    obtain ⟨prev_y, hprev, heq⟩ := (hfin j hj).chained
    have hsame : prev_y = yBefore y j := by
      rcases hprev with ⟨rfl, rfl⟩ | ⟨i, prev, rfl, hprev, _, hprevy⟩
      · rfl
      · have hi := (hfields i (by omega)).2
        rw [hprev, Option.bind_some, hprevy] at hi
        exact Option.some.inj hi
    rw [heq, hsame]
  · exact fun j hj => (hfin j hj).evaluated
  · intro j hj
    obtain ⟨chs, ys, hchs, hys, heq⟩ := (hfin j hj).aggregated
    rw [fieldOf_eq_map _ fun i hi => (hfields i (hwindow j hj i hi)).1] at hchs
    rw [fieldOf_eq_map _ fun i hi => (hfields i (hwindow j hj i hi)).2] at hys
    cases hchs
    cases hys
    rw [heq, List.map_append, List.map_append]
    rfl

theorem serveStages_honest {cfg : BeaconConfig} {s : Beacon} {k : Nat} {root ch y p : Nat → Bytes}
    (hfin : ∀ j ≤ k, Finished cfg s.stages j (root j) (ch j) (y j) (p j)) {S : Nat} (hS : S ≤ k) :
    ∃ extra contributions, extra.vdfy = some (yBefore y S) ∧
      serveStages cfg s ((S : Int) - 1) k = .ok (extra ::
        (List.range' S (k + 1 - S)).map (honestInfo contributions root y p)) := by
  have hinfo : ∀ j ≤ k, ∃ n, serveStage cfg s (j : Int) =
      .ok ⟨j, .DONE, n, some (root j), some (y j), some (p j)⟩ :=
    fun j hj => serveStage_finished (hfin j hj)
  choose! contributions hinfo using hinfo
  have hextra : ∃ extra : StageInfo, extra.vdfy = some (yBefore y S) ∧
      serveStage cfg s ((S : Int) - 1) = .ok extra := by
    cases S with
    | zero => exact ⟨_, rfl, serveStage_synthetic⟩
    | succ S =>
      refine ⟨honestInfo contributions root y p S, rfl, ?_⟩
      rw [Nat.cast_succ, add_sub_cancel_right]
      exact hinfo S (by omega)
  obtain ⟨extra, hy, hserve⟩ := hextra
  refine ⟨extra, contributions, hy, ?_⟩
  have hall : ∀ n, n < k + 1 - S + 1 → serveStage cfg s ((S : Int) - 1 + n) =
      .ok (match n with
        | 0 => extra
        | n + 1 => honestInfo contributions root y p (S + n)) := by
    intro n hn
    cases n with
    | zero =>
      rw [Nat.cast_zero, add_zero]
      exact hserve
    | succ n =>
      have hcast : (S : Int) - 1 + ((n + 1 : Nat) : Int) = ((S + n : Nat) : Int) := by
        push_cast
        omega
      rw [hcast]
      exact hinfo (S + n) (by omega)
  have hserved := serveStages_eq hall
  have hend : (S : Int) - 1 + ((k + 1 - S + 1 : Nat) : Int) - 1 = k := by omega
  rw [hend, List.range_succ_eq_map, List.map_cons, List.map_map] at hserved
  rw [hserved, List.range'_eq_map_range, List.map_map]
  rfl

/-- Completeness of the beacon: a client that holds a receipt of a sequential run gets the
output of every finished stage from its own stage on. -/
theorem beacon_complete {cfg : BeaconConfig} (hW : 2 ≤ cfg.W)
    (hcomplete : AvdfComplete cfg.P.avdf) {as bs cs : List BeaconAction}
    {polled ranged proved : Beacon}
    (hmeets : Meets (step cfg) Sequential Beacon.init (as ++ bs ++ cs))
    (hpolled : run (step cfg) Beacon.init as = some polled)
    (hranged : run (step cfg) polled bs = some ranged)
    (hproved : run (step cfg) ranged cs = some proved)
    {receipt : Receipt} (hr : .returned receipt ∈ polled.calls)
    {k : Nat} (hle : receipt.stageIdx ≤ k) {stage : Stage} (hk : polled.stages[k]? = some stage)
    (hdone : stage.phase = .DONE) {server : ServerAnswers}
    (hserved : Served cfg polled ranged proved receipt.toContribution k server) :
    Satisfied cfg polled receipt k server := by
  have hW0 : 0 < cfg.W := by omega
  have hhistory := history_run hW (history_init cfg) hpolled
  have hhistory' := history_run hW hhistory hranged
  have hev := run_evolved hW bs polled ranged hhistory hranged
  have hev' := run_evolved hW cs ranged proved hhistory' hproved
  have hstate : SequentialState cfg proved := by
    apply sequentialState_run hW hmeets
    exact run_append_eq_some_iff.mpr
      ⟨ranged, run_append_eq_some_iff.mpr ⟨polled, hpolled, hranged⟩, hproved⟩
  have hfin : ∀ j ≤ k, ∃ root ch y p, Finished cfg polled.stages j root ch y p := by
    intro j hj
    obtain ⟨d, rfl⟩ : ∃ d, k = j + d := ⟨k - j, by omega⟩
    exact hhistory.finished_before d j stage hk hdone
  choose! root ch y p hfin using hfin
  have hchain := honestChain_of_finished hfin
  have hfirst := firstStage_le hW0 hle
  obtain ⟨earlier, info, hinfo, hpoll⟩ := hserved.stage
  have hinfodone : info.phase = .DONE := by
    obtain ⟨n, hn⟩ := serveStage_finished (hfin k (Nat.le_refl k))
    rw [hn] at hinfo
    cases hinfo
    rfl
  obtain ⟨extra, contributions, hextra, hserve⟩ := serveStages_honest
    (fun j hj => (hfin j hj).mono hev) (show firstStage cfg.W receipt.stageIdx k ≤ k by omega)
  have hanswer := hserved.stages _ _ _ hserve
  have hr' : .returned receipt ∈ proved.calls :=
    returned_run cs ranged proved (returned_run bs polled ranged hr hranged) hproved
  obtain ⟨proof, hproof, hverify⟩ := serveAccproof_finished hstate hr'
    (((hfin receipt.stageIdx hle).mono hev).mono hev')
  have haccproof := hserved.accproof proof hproof
  have hincluded : accumulatorVerify cfg.P (some (root receipt.stageIdx))
      (server.accproof receipt.toContribution.stage receipt.toContribution.dataIndex)
      receipt.toContribution.value = .ok true := by
    rw [haccproof]
    change (cfg.P.accumulator.verify (root receipt.stageIdx) proof receipt.x >>= _) = _
    rw [hverify]
    rfl
  constructor
  · obtain ⟨stage', _, hk', _, _, _, _, hy, _⟩ := (hfin k (Nat.le_refl k)).stage
    exact ⟨stage', y k, hk', hy, getVerifiedRandomness_honest hcomplete hW0 hle hchain rfl
      hinfodone hpoll hextra hanswer hincluded⟩
  · intro i hi hik
    exact exists_window (by omega) (by omega) (by omega) (by omega) (by omega)
  · intro j hj
    obtain ⟨e, _, hek, hwindow⟩ := window_natCast hW0 hle hj
    obtain ⟨stage', _, he, _⟩ := (hfin e hek).stage
    refine ⟨_, e, stage', hwindow, he, ?_⟩
    rw [(hhistory.stages e stage' he).prevStages_eq, windowBefore_append _ hW0]
  · intro i hi hik
    obtain ⟨stage', _, hi', _, _, _, hch, _⟩ := (hfin i hik).stage
    refine ⟨stage', ch i, hi', hch, ?_⟩
    obtain ⟨n, rfl⟩ : ∃ n, i = firstStage cfg.W receipt.stageIdx k + n :=
      ⟨i - firstStage cfg.W receipt.stageIdx k, by omega⟩
    have hspan : firstStage cfg.W receipt.stageIdx k +
        (k + 1 - firstStage cfg.W receipt.stageIdx k) ≤ k + 1 := by omega
    have hchs := mapM_eq_ok_iff.mp (challenges_honest contributions hchain hspan hextra)
    rw [answered, ← firstStage_natCast, hanswer, Nat.cast_add,
      challengeAt_add hchs (by rw [List.length_map, List.length_range']; omega),
      List.getElem?_map, List.getElem?_range' (by omega), Option.map_some, Nat.one_mul]

/-! ### A run of two stages -/

def closeStage : List BeaconAction := List.replicate 9 .scheduler

/-- One contribution, then two stages are closed and evaluated. -/
def twoStages : List BeaconAction :=
  .contribute [1] :: List.replicate 5 (.call 0) ++ closeStage ++ List.replicate 5 (.vdfRun 0) ++
    closeStage ++ List.replicate 5 (.vdfRun 1)

theorem toyConfig_complete : AvdfComplete toyConfig.P.avdf := fun _ _ _ _ => rfl

theorem beacon_complete_twoStages :
    ∃ s receipt, run (step toyConfig) Beacon.init twoStages = some s ∧
      .returned receipt ∈ s.calls ∧ Satisfied toyConfig s receipt 1 (serverOf toyConfig s) := by
  have hmeets : Meets (step toyConfig) Sequential Beacon.init (twoStages ++ [] ++ []) := by decide
  refine ⟨_, ⟨0, 1, [1], [1]⟩, rfl, List.mem_cons_self, ?_⟩
  exact beacon_complete (by decide) toyConfig_complete hmeets rfl rfl rfl List.mem_cons_self
    (by decide) rfl rfl (served_serverOf _ ⟨_, rfl⟩)

end Lootbox.Headstart.HeadStartClient

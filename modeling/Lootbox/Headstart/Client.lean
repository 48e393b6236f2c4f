import Lootbox.Headstart.Stage
import Lootbox.Base.PySeq
import Lootbox.Base.WhileLoop

/-!
# `client.py`: `get_verified_randomness` against an arbitrary server

The server is the collection of the answers it gives. A record is located by its
position in the answered list in one place and by the label it carries in another;
the two agree only if the server's labels do.
-/

namespace Lootbox.Headstart

open WhileLoop

structure Contribution where
  value : Bytes
  stage : Int
  dataIndex : Int
  signature : Bytes
  deriving DecidableEq, Repr

structure StageInfo where
  stage : Int
  phase : Phase
  contributions : Nat
  accval : Option Bytes
  vdfy : Option Bytes
  vdfproof : Option Bytes
  deriving DecidableEq, Repr

/-- The answers to `/api/stage/<i>` (one per poll), `/api/stage?start=..&end=..` and
`/api/stage/<i>/accproof/<j>`. -/
structure ServerAnswers where
  stage : Int → List StageInfo
  stages : Int → Int → List StageInfo
  accproof : Int → Int → MerkleProof

namespace HeadStartClient

/-- `while (info := self.get_stage(stage_idx)).phase < phase` over the successive answers. -/
def getStageUntil (phase : Phase) : List StageInfo → Except PyError StageInfo
  | [] => .error .diverges
  | info :: rest => if info.phase.value < phase.value then getStageUntil phase rest else .ok info

/-- `target >= contribution.stage` -/
def rangesGuard (contribution_stage : Int) (st : Int × List (Int × Int)) : Bool :=
  contribution_stage ≤ st.1

/-- One round of the loop that splits the range into windows. -/
def rangesBody (W : Int) (st : Int × List (Int × Int)) : Int × List (Int × Int) :=
  (st.1 - W, st.2 ++ [(max (st.1 - W + 1) 0, st.1)])

def ranges (W contribution_stage stage_idx : Int) : Except PyError (List (Int × Int)) :=
  match whileLoop (rangesGuard contribution_stage) (rangesBody W)
      (stage_idx - contribution_stage + 1).toNat (stage_idx, []) with
  | some (_, ranges) => .ok ranges.reverse
  | none => .error .diverges

/-- `Parameters.accumulator.verify`; a root that is `None` equals no digest. -/
def accumulatorVerify (P : Parameters) (accval : Option Bytes) (w : MerkleProof) (x : Bytes) :
    Except PyError Bool := do
  let ok ← P.accumulator.verify (accval.getD []) w x
  return ok && accval.isSome

/-- `Parameters.hash(cur.accval + prev.vdfy)` -/
def challenge (P : Parameters) (e : StageInfo × StageInfo) : Except PyError Bytes :=
  match e.1.accval, e.2.vdfy with
  | some accval, some vdfy => .ok (P.hash (accval ++ vdfy))
  | _, _ => .error .typeError

def verifyRange (P : Parameters) (stages : List StageInfo) (vdf_challenges : List Bytes)
    (vdf_ys : List (Option Bytes)) (r : Int × Int) : Except PyError Unit := do
  let challenges := PySeq.slice vdf_challenges r.1 (r.2 + 1)
  let ys := PySeq.slice vdf_ys r.1 (r.2 + 1)
  let stage ← need .indexError (PySeq.get stages r.2)
  let ok ← P.avdf.verify challenges ys stage.vdfproof
  if !ok then throw (.valueError "vdf verification failed")

/-- What follows once the range is answered by `extra` and `stages`. -/
def verifyStages (P : Parameters) (server : ServerAnswers) (contribution : Contribution)
    (stage_idx : Int) (ranges : List (Int × Int)) (start : Int) (extra : StageInfo)
    (stages : List StageInfo) : Except PyError (Option Bytes) := do
  let contributed_stage ← need .stopIteration
    (stages.find? fun stg => stg.stage == contribution.stage)
  let accproof := server.accproof contribution.stage contribution.dataIndex
  let included ← accumulatorVerify P contributed_stage.accval accproof contribution.value
  if !included then throw (.valueError "accumulator verification failed")
  let vdf_challenges ← (stages.zip (extra :: stages)).mapM (challenge P)
  let vdf_ys := stages.map StageInfo.vdfy
  (ranges.map fun r => (r.1 - start, r.2 - start)).forM
    (verifyRange P stages vdf_challenges vdf_ys)
  let target_stage ← need .stopIteration (stages.find? fun stg => stg.stage == stage_idx)
  return target_stage.vdfy

def getVerifiedRandomness (P : Parameters) (W : Int) (server : ServerAnswers)
    (contribution : Contribution) (stage_idx : Int) : Except PyError (Option Bytes) := do
  let _ ← getStageUntil .DONE (server.stage stage_idx)
  let ranges ← ranges W contribution.stage stage_idx
  let first ← need .indexError (PySeq.get ranges 0)
  let last ← need .indexError (PySeq.get ranges (-1))
  match server.stages (first.1 - 1) last.2 with
  | [] => .error (.valueError "not enough values to unpack (expected at least 1, got 0)")
  | extra :: stages => verifyStages P server contribution stage_idx ranges first.1 extra stages

/-! ### The windows -/

def windowCount (W c s : Int) : Nat := ((s - c) / W).toNat + 1

def window (W s : Int) (j : Nat) : Int × Int := (max (s - W * j - W + 1) 0, s - W * j)

section Windows
variable {W c s : Int}

theorem lt_windowCount_iff (hW : 0 < W) (hcs : c ≤ s) (j : Nat) :
    j < windowCount W c s ↔ c ≤ s - W * j := by
  have hq : 0 ≤ (s - c) / W := Int.ediv_nonneg (by omega) (by omega)
  have hle : (j : Int) ≤ (s - c) / W ↔ j * W ≤ s - c := Int.le_ediv_iff_mul_le hW
  have hcomm : (j : Int) * W = W * j := Int.mul_comm _ _
  unfold windowCount
  omega

theorem ranges_loop (hW : 0 < W) (hcs : c ≤ s) :
    ∀ (d j fuel : Nat), j + d = windowCount W c s → d ≤ fuel →
      whileLoop (rangesGuard c) (rangesBody W) fuel
          (s - W * j, (List.range j).map (window W s)) =
        some (s - W * (windowCount W c s : Nat),
          (List.range (windowCount W c s)).map (window W s)) := by
  intro d
  induction d with
  | zero =>
    intro j fuel hj _
    have hexit : rangesGuard c (s - W * j, (List.range j).map (window W s)) = false := by
      rw [rangesGuard, decide_eq_false_iff_not, ← lt_windowCount_iff hW hcs]
      omega
    rw [whileLoop_of_not_guard hexit, ← hj, Nat.add_zero]
  | succ d ih =>
    intro j fuel hj hfuel
    obtain ⟨fuel, rfl⟩ : ∃ f, fuel = f + 1 := ⟨fuel - 1, by omega⟩
    have hgo : rangesGuard c (s - W * j, (List.range j).map (window W s)) = true := by
      rw [rangesGuard, decide_eq_true_iff, ← lt_windowCount_iff hW hcs]
      omega
    rw [whileLoop_succ_of_guard hgo, ← ih (j + 1) fuel (by omega) (by omega)]
    congr 1
    rw [rangesBody, List.range_succ, List.map_append]
    simp only [window, List.map_cons, List.map_nil]
    congr 1
    push_cast
    ring

theorem ranges_eq (hW : 0 < W) (hcs : c ≤ s) :
    ranges W c s = .ok ((List.range (windowCount W c s)).map (window W s)).reverse := by
  have hfuel : windowCount W c s ≤ (s - c + 1).toNat := by
    have h : (s - c) / W ≤ s - c := Int.ediv_le_self _ (by omega)
    unfold windowCount
    omega
  have hloop := ranges_loop hW hcs (windowCount W c s) 0 _ (Nat.zero_add _) hfuel
  simp only [Nat.cast_zero, Int.mul_zero, Int.sub_zero, List.range_zero, List.map_nil] at hloop
  rw [ranges, hloop]

/-- The first position of the range that is asked for, after the extra one. -/
def requestedStart (W c s : Int) : Int := (window W s (windowCount W c s - 1)).1

theorem requestedStart_eq : requestedStart W c s = max (s - W * (windowCount W c s : Nat) + 1) 0 := by
  have h : ((windowCount W c s : Nat) : Int) = (windowCount W c s - 1 : Nat) + 1 := by
    unfold windowCount
    omega
  unfold requestedStart window
  rw [h, Int.mul_add, Int.mul_one, Int.sub_sub _ _ W]

theorem requestedStart_le (hW : 0 < W) (hcs : c ≤ s) (hc : 0 ≤ c) : requestedStart W c s ≤ c := by
  have h := lt_windowCount_iff hW hcs (windowCount W c s)
  rw [requestedStart_eq]
  omega

theorem requestedStart_nonneg : 0 ≤ requestedStart W c s := by
  rw [requestedStart_eq]
  omega

theorem mem_ranges_iff {r : Int × Int} :
    r ∈ ((List.range (windowCount W c s)).map (window W s)).reverse ↔
      ∃ j, j < windowCount W c s ∧ window W s j = r := by
  simp only [List.mem_reverse, List.mem_map, List.mem_range]

theorem window_bounds (hW : 0 < W) {j : Nat} (hj : j < windowCount W c s) :
    requestedStart W c s ≤ (window W s j).1 ∧ (window W s j).2 ≤ s := by
  have hn : W * (j + 1 : Int) ≤ W * (windowCount W c s : Nat) :=
    Int.mul_le_mul_of_nonneg_left (by omega) (by omega)
  have h0 : 0 ≤ W * (j : Int) := Int.mul_nonneg (by omega) (by omega)
  rw [Int.mul_add] at hn
  rw [requestedStart_eq]
  unfold window
  omega

theorem exists_window (hW : 0 < W) (hcs : c ≤ s) (hc : 0 ≤ c) {i : Int} (hci : c ≤ i) (his : i ≤ s) :
    ∃ j, j < windowCount W c s ∧ (window W s j).1 ≤ i ∧ i ≤ (window W s j).2 := by
  have hq : 0 ≤ (s - i) / W := Int.ediv_nonneg (by omega) (by omega)
  have hdiv := Int.mul_ediv_add_emod (s - i) W
  have hmod := Int.emod_nonneg (s - i) (show W ≠ 0 by omega)
  have hlt := Int.emod_lt_of_pos (s - i) hW
  refine ⟨((s - i) / W).toNat, ?_, ?_⟩
  · rw [lt_windowCount_iff hW hcs, Int.toNat_of_nonneg hq]
    omega
  · unfold window
    rw [Int.toNat_of_nonneg hq]
    omega

theorem get_ranges_first :
    PySeq.get ((List.range (windowCount W c s)).map (window W s)).reverse 0 =
      some (window W s (windowCount W c s - 1)) := by
  have h := PySeq.get_natCast ((List.range (windowCount W c s)).map (window W s)).reverse 0
  rw [Nat.cast_zero] at h
  have hn : windowCount W c s - 1 < windowCount W c s := by
    unfold windowCount
    omega
  rw [h, ← List.head?_eq_getElem?, List.head?_reverse, List.getLast?_eq_getElem?]
  simp [hn]

theorem get_ranges_last :
    PySeq.get ((List.range (windowCount W c s)).map (window W s)).reverse (-1) =
      some (max (s - W + 1) 0, s) := by
  rw [PySeq.get_neg_one, List.getLast?_reverse, windowCount, List.range_succ_eq_map, List.map_cons,
    List.head?_cons, window]
  simp only [Nat.cast_zero, Int.mul_zero, Int.sub_zero]

end Windows

end HeadStartClient

end Lootbox.Headstart

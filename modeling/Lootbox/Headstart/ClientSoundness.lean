import Lootbox.Headstart.Client

/-!
# What an accepted answer proves

An answer is the extra record followed by the records of the requested range. Positions
are stage numbers counted from the start of the range, whatever the labels say.
-/

namespace Lootbox.Headstart.HeadStartClient

def recordAt (records : List StageInfo) (start i : Int) : Option StageInfo :=
  if start ≤ i then records[(i - start).toNat]? else none

/-- The challenge of the record at position `i`, chained to the record before it. -/
def challengeAt (P : Parameters) (answer : List StageInfo) (start i : Int) : Option Bytes := do
  let cur ← recordAt answer.tail start i
  let prev ← recordAt answer start i
  let accval ← cur.accval
  let vdfy ← prev.vdfy
  return P.hash (accval ++ vdfy)

/-- The aggregate proof of the record at position `z` verifies for the chained challenges
and the outputs of the positions `x, …, z`. -/
def WindowVerified (P : Parameters) (answer : List StageInfo) (start x z : Int) : Prop :=
  ∃ challenges ys last, (challenges.length : Int) = z + 1 - x ∧ (ys.length : Int) = z + 1 - x ∧
    (∀ n : Nat, n < challenges.length → challenges[n]? = challengeAt P answer start (x + n) ∧
      ys[n]? = (recordAt answer.tail start (x + n)).map StageInfo.vdfy) ∧
    recordAt answer.tail start z = some last ∧
    P.avdf.verify challenges ys last.vdfproof = .ok true

/-- The accval that `get_verified_randomness` verifies the contribution against. -/
def contributedAccval (records : List StageInfo) (c : Int) : Option (Option Bytes) :=
  (records.find? fun stg => stg.stage == c).map StageInfo.accval

/-- From the contribution to `y` through verified windows without a gap. -/
structure ChainIn (P : Parameters) (answer : List StageInfo) (start : Int)
    (contribution : Contribution) (accproof : MerkleProof) (stage_idx : Int)
    (y : Option Bytes) : Prop where
  contributed : ∃ r, recordAt answer.tail start contribution.stage = some r ∧
    contributedAccval answer.tail contribution.stage = some r.accval ∧
    accumulatorVerify P r.accval accproof contribution.value = .ok true
  chained : ∀ i, contribution.stage ≤ i → i ≤ stage_idx →
    ∃ x z, start ≤ x ∧ x ≤ i ∧ i ≤ z ∧ z ≤ stage_idx ∧ WindowVerified P answer start x z
  target : ∃ r, recordAt answer.tail start stage_idx = some r ∧ r.vdfy = y

/-- The answer to the range request of `get_verified_randomness`. -/
def answered (W : Int) (server : ServerAnswers) (c s : Int) : List StageInfo :=
  server.stages (requestedStart W c s - 1) s

def VerifiedChain (P : Parameters) (W : Int) (server : ServerAnswers) (contribution : Contribution)
    (stage_idx : Int) (y : Option Bytes) : Prop :=
  ChainIn P (answered W server contribution.stage stage_idx)
    (requestedStart W contribution.stage stage_idx) contribution
    (server.accproof contribution.stage contribution.dataIndex) stage_idx y

/-- The first record labelled with the contributed stage carries the accval of the record at
that position, and the first one labelled with the target carries the output at its position. -/
def LabelsAgree (records : List StageInfo) (start c s : Int) : Prop :=
  0 ≤ c ∧
    (records.find? fun stg => stg.stage == c).map StageInfo.accval =
      (recordAt records start c).map StageInfo.accval ∧
    (records.find? fun stg => stg.stage == s).map StageInfo.vdfy =
      (recordAt records start s).map StageInfo.vdfy

instance (records : List StageInfo) (start c s : Int) : Decidable (LabelsAgree records start c s) :=
  inferInstanceAs (Decidable (_ ∧ _ ∧ _))

section Records
variable {P : Parameters} {extra : StageInfo} {stages : List StageInfo} {start : Int}

theorem recordAt_add (records : List StageInfo) (start : Int) (n : Nat) :
    recordAt records start (start + n) = records[n]? := by
  have hn : (start + (n : Int) - start).toNat = n := by omega
  rw [recordAt, if_pos (by omega), hn]

theorem challengeAt_add {chs : List Bytes}
    (hchs : List.Forall₂ (fun e ch => challenge P e = .ok ch) (stages.zip (extra :: stages)) chs)
    {n : Nat} (hn : n < chs.length) :
    challengeAt P (extra :: stages) start (start + n) = chs[n]? := by
  have hlen : chs.length = stages.length := by
    have h := hchs.length_eq
    rw [List.length_zip, List.length_cons] at h
    omega
  have hrel := hchs.get (i := n) (by rw [hchs.length_eq]; exact hn) hn
  simp only [List.get_eq_getElem, List.getElem_zip] at hrel
  have hcur : stages[n]? = some stages[n] := List.getElem?_eq_getElem (by omega)
  have hn' : n < (extra :: stages).length := by
    rw [List.length_cons]
    omega
  have hprev : (extra :: stages)[n]? = some (extra :: stages)[n] := List.getElem?_eq_getElem hn'
  unfold challengeAt
  rw [List.tail_cons, recordAt_add, recordAt_add, hcur, hprev, List.getElem?_eq_getElem hn]
  unfold challenge at hrel
  split at hrel
  · rename_i accval vdfy hacc hy
    have hacc : stages[n].accval = some accval := hacc
    have hy : (extra :: stages)[n].vdfy = some vdfy := hy
    simp only [Option.bind_eq_bind, Option.bind_some, hacc, hy]
    exact congrArg some (Except.ok.inj hrel)
  · cases hrel

theorem windowVerified_of_verifyRange {chs : List Bytes} {x z : Int}
    (hchs : List.Forall₂ (fun e ch => challenge P e = .ok ch) (stages.zip (extra :: stages)) chs)
    (hx : start ≤ x) (hxz : x ≤ z)
    (h : verifyRange P stages chs (stages.map StageInfo.vdfy) (x - start, z - start) = .ok ()) :
    WindowVerified P (extra :: stages) start x z := by
  obtain ⟨a, rfl⟩ : ∃ a : Nat, x = start + a := ⟨(x - start).toNat, by omega⟩
  obtain ⟨b, rfl⟩ : ∃ b : Nat, z = start + b := ⟨(z - start).toNat, by omega⟩
  have ha : start + (a : Int) - start = (a : Int) := by omega
  have hb : start + (b : Int) - start = (b : Int) := by omega
  have hb1 : (b : Int) + 1 = ((b + 1 : Nat) : Int) := by push_cast; rfl
  have hlen : chs.length = stages.length := by
    have h := hchs.length_eq
    rw [List.length_zip, List.length_cons] at h
    omega
  obtain ⟨last, hlast, hverify⟩ := bind_eq_ok_iff.mp h
  obtain ⟨ok, hok, hthrow⟩ := bind_eq_ok_iff.mp hverify
  rw [hb, need_eq_ok_iff, PySeq.get_natCast] at hlast
  have hbl : b < stages.length := (List.getElem?_eq_some_iff.mp hlast).1
  have hoktrue : ok = true := by
    cases ok with
    | true => rfl
    | false => cases hthrow
  rw [hoktrue, ha, hb, hb1] at hok
  have hslice : ∀ {α : Type} (xs : List α), xs.length = stages.length →
      ((PySeq.slice xs (a : Int) ((b + 1 : Nat) : Int)).length : Int) = start + b + 1 - (start + a) := by
    intro α xs hxs
    rw [PySeq.slice_natCast, List.length_drop, List.length_take, hxs]
    omega
  refine ⟨_, _, last, hslice chs hlen, hslice _ (List.length_map _), ?_, ?_, hok⟩
  · intro n hn
    have hn' := hslice chs hlen
    have hstep : start + (a : Int) + (n : Int) = start + ((a + n : Nat) : Int) := by
      push_cast
      omega
    rw [hstep, PySeq.getElem?_slice _ _ _ _ (by omega), PySeq.getElem?_slice _ _ _ _ (by omega),
      challengeAt_add hchs (by omega), List.tail_cons, recordAt_add, List.getElem?_map]
    exact ⟨rfl, rfl⟩
  · rw [List.tail_cons, recordAt_add]
    exact hlast

end Records

/-! ### The function as a whole -/

section Whole
variable {P : Parameters} {W : Int} {server : ServerAnswers} {contribution : Contribution}
variable {stage_idx : Int} {y : Option Bytes}

/-- What has to be checked for `verifyStages` to return. -/
theorem verifyStages_eq_ok {ranges : List (Int × Int)} {start : Int} {extra : StageInfo}
    {stages : List StageInfo}
    (h : verifyStages P server contribution stage_idx ranges start extra stages = .ok y) :
    ∃ contributed target chs,
      (stages.find? fun stg => stg.stage == contribution.stage) = some contributed ∧
      accumulatorVerify P contributed.accval
        (server.accproof contribution.stage contribution.dataIndex) contribution.value = .ok true ∧
      List.Forall₂ (fun e ch => challenge P e = .ok ch) (stages.zip (extra :: stages)) chs ∧
      (∀ r ∈ ranges,
        verifyRange P stages chs (stages.map StageInfo.vdfy) (r.1 - start, r.2 - start) = .ok ()) ∧
      (stages.find? fun stg => stg.stage == stage_idx) = some target ∧ target.vdfy = y := by
  obtain ⟨contributed, hcontributed, h⟩ := bind_eq_ok_iff.mp h
  obtain ⟨included, hincluded, h⟩ := bind_eq_ok_iff.mp h
  have htrue : included = true := by
    cases included with
    | true => rfl
    | false => cases h
  subst htrue
  obtain ⟨chs, hchs, h⟩ := bind_eq_ok_iff.mp h
  obtain ⟨⟨⟩, hranges, h⟩ := bind_eq_ok_iff.mp h
  obtain ⟨target, htarget, h⟩ := bind_eq_ok_iff.mp h
  cases h
  refine ⟨contributed, target, chs, need_eq_ok_iff.mp hcontributed, hincluded,
    mapM_eq_ok_iff.mp hchs, ?_, need_eq_ok_iff.mp htarget, rfl⟩
  intro r hr
  exact forM_eq_ok_iff.mp hranges _ (List.mem_map_of_mem hr)

theorem getVerifiedRandomness_eq_ok (hW : 0 < W) (hcs : contribution.stage ≤ stage_idx)
    (h : getVerifiedRandomness P W server contribution stage_idx = .ok y) :
    ∃ extra stages, answered W server contribution.stage stage_idx = extra :: stages ∧
      verifyStages P server contribution stage_idx
        ((List.range (windowCount W contribution.stage stage_idx)).map (window W stage_idx)).reverse
        (requestedStart W contribution.stage stage_idx) extra stages = .ok y := by
  obtain ⟨info, _, h⟩ := bind_eq_ok_iff.mp h
  rw [ranges_eq hW hcs, ok_bind, get_ranges_first, get_ranges_last] at h
  simp only [need_some, ok_bind] at h
  cases hans : answered W server contribution.stage stage_idx with
  | nil =>
    rw [answered, requestedStart] at hans
    rw [hans] at h
    cases h
  | cons extra stages =>
    refine ⟨extra, stages, rfl, ?_⟩
    rw [answered, requestedStart] at hans
    rw [hans] at h
    exact h

/-- The returned value is chained to the contribution exactly when the labels agree with the
positions where they are used. -/
theorem verifiedChain_iff (hW : 2 ≤ W) (hcs : contribution.stage ≤ stage_idx)
    (h : getVerifiedRandomness P W server contribution stage_idx = .ok y) :
    VerifiedChain P W server contribution stage_idx y ↔
      LabelsAgree (answered W server contribution.stage stage_idx).tail
        (requestedStart W contribution.stage stage_idx) contribution.stage stage_idx := by
  have hW0 : 0 < W := by omega
  have hstart0 : 0 ≤ requestedStart W contribution.stage stage_idx := requestedStart_nonneg
  obtain ⟨extra, stages, hans, hverify⟩ := getVerifiedRandomness_eq_ok hW0 hcs h
  obtain ⟨contributed, target, chs, hcontributed, hincluded, hchs, hranges, htarget, rfl⟩ :=
    verifyStages_eq_ok hverify
  unfold VerifiedChain LabelsAgree
  rw [hans, List.tail_cons, hcontributed, htarget, Option.map_some, Option.map_some]
  constructor
  · rintro ⟨⟨r, hr, hacc, _⟩, _, ⟨r', hr', hy⟩⟩
    refine ⟨?_, ?_, ?_⟩
    · by_contra hneg
      rw [recordAt, if_neg (by omega)] at hr
      cases hr
    · rw [List.tail_cons] at hr hacc
      rw [hr, Option.map_some, ← hacc, contributedAccval, hcontributed, Option.map_some]
    · rw [List.tail_cons] at hr'
      rw [hr', Option.map_some, hy]
  · rintro ⟨hc, hacc, hy⟩
    obtain ⟨r, hr, hracc⟩ := Option.map_eq_some_iff.mp hacc.symm
    obtain ⟨r', hr', hry⟩ := Option.map_eq_some_iff.mp hy.symm
    refine ⟨⟨r, hr, ?_, ?_⟩, ?_, ⟨r', hr', hry⟩⟩
    · rw [List.tail_cons, contributedAccval, hcontributed, Option.map_some, hracc]
    · rw [hracc]
      exact hincluded
    · intro i hci his
      obtain ⟨j, hj, hle, hge⟩ := exists_window hW0 hcs hc hci his
      have hbounds := window_bounds hW0 hj
      refine ⟨_, _, hbounds.1, hle, hge, hbounds.2, ?_⟩
      exact windowVerified_of_verifyRange hchs hbounds.1 (hle.trans hge)
        (hranges _ (mem_ranges_iff.mpr ⟨j, hj, rfl⟩))

end Whole

/-! ### What the verified windows mean -/

/-- `verify` accepts only the outputs of `eval`. -/
def AvdfSound (avdf : AggregateVDF) : Prop :=
  ∀ challenges ys proof, avdf.verify challenges ys proof = .ok true →
    ys = challenges.map fun challenge => (avdf.eval [challenge]).head?

theorem ChainIn.evaluated {P : Parameters} {answer : List StageInfo} {start : Int}
    {contribution : Contribution} {accproof : MerkleProof} {stage_idx : Int} {y : Option Bytes}
    (hsound : AvdfSound P.avdf)
    (h : ChainIn P answer start contribution accproof stage_idx y) {i : Int}
    (hi : contribution.stage ≤ i) (his : i ≤ stage_idx) :
    ∃ challenge r, challengeAt P answer start i = some challenge ∧
      recordAt answer.tail start i = some r ∧ r.vdfy = (P.avdf.eval [challenge]).head? := by
  obtain ⟨x, z, _, hxi, hiz, _, challenges, ys, last, hlen, hlen', hat, _, hverify⟩ :=
    h.chained i hi his
  obtain ⟨n, rfl⟩ : ∃ n : Nat, i = x + n := ⟨(i - x).toNat, by omega⟩
  have hn : n < challenges.length := by omega
  obtain ⟨hch, hy⟩ := hat n hn
  rw [hsound challenges ys last.vdfproof hverify, List.getElem?_map] at hy
  rw [List.getElem?_eq_getElem hn] at hch hy
  obtain ⟨r, hr, hry⟩ := Option.map_eq_some_iff.mp hy.symm
  exact ⟨challenges[n], r, hch.symm, hr, hry⟩

/-! ### Two servers -/

/-- A collision free hash and an aggregate VDF that is sound. -/
def toyParameters : Parameters where
  sha256 := id
  avdf :=
    { eval := List.map fun ch => 1 :: ch
      aggregate := fun _ _ => []
      verify := fun chs ys _ => .ok (ys == chs.map fun ch => some (1 :: ch)) }

theorem toyParameters_sound : AvdfSound toyParameters.avdf := by
  intro challenges ys proof h
  exact eq_of_beq (Except.ok.inj h)

def toyContribution : Contribution := ⟨[5], 0, 0, []⟩

def toyRecord (label : Int) (accval vdfy : Bytes) : StageInfo :=
  ⟨label, .DONE, 1, some accval, some vdfy, some []⟩

/-- The server answers two verified records and a third one with the label of the target. -/
def relabellingServer : ServerAnswers where
  stage := fun i => [toyRecord i [] []]
  stages := fun _ _ => [toyRecord (-1) [] [], toyRecord 0 [0, 5] [1, 0, 5],
    toyRecord 7 [9] [1, 9, 1, 0, 5], toyRecord 1 [] [66]]
  accproof := fun _ _ => []

/-- The value of the third record is returned, and nothing about it was verified. -/
theorem getVerifiedRandomness_returns_unverified :
    ∃ (P : Parameters) (W : Int) (server : ServerAnswers) (contribution : Contribution)
      (stage_idx : Int) (y : Option Bytes), 2 ≤ W ∧ contribution.stage ≤ stage_idx ∧
      Function.Injective P.sha256 ∧ AvdfSound P.avdf ∧
      getVerifiedRandomness P W server contribution stage_idx = .ok y ∧
      ¬ VerifiedChain P W server contribution stage_idx y := by
  refine ⟨toyParameters, 2, relabellingServer, toyContribution, 1, some [66], by decide, by decide,
    Function.injective_id, toyParameters_sound, by decide, ?_⟩
  intro h
  obtain ⟨r, hr, hy⟩ := h.target
  cases hr
  exact absurd hy (by decide)

def honestServer : ServerAnswers where
  stage := fun i => [toyRecord i [] []]
  stages := fun _ _ => [toyRecord (-1) [] [], toyRecord 0 [0, 5] [1, 0, 5],
    toyRecord 1 [9] [1, 9, 1, 0, 5]]
  accproof := fun _ _ => []

theorem verifiedChain_honestServer :
    VerifiedChain toyParameters 2 honestServer toyContribution 1 (some [1, 9, 1, 0, 5]) :=
  (verifiedChain_iff (by decide) (by decide) (by decide)).mpr (by decide)

end Lootbox.Headstart.HeadStartClient

import Lootbox.Chiavdf.IntermediateStore

/-!
# `vdf.h`: the proof for an iteration

Segments of `2 ^ (16 + 2 * i)` squarings are proved on the way. The proof for an iteration is made
of the largest finished segments, one after the other, and of a last one for what remains.
-/

namespace Lootbox.Chiavdf

open Headstart BinaryQF ReducedForm

/-! ### The code -/

/-- The loop over the finished segments of one bucket, which are `none` as long as they are empty:
what it takes, and `proved_iters`. -/
def takeSegments (segment_size iteration : Nat) :
    List (Option Segment) → Nat → List (Option Segment) × Nat
  | [], proved_iters => ([], proved_iters)
  | s :: ss, proved_iters =>
    if proved_iters + segment_size ≤ iteration then
      let r := takeSegments segment_size iteration ss (proved_iters + segment_size)
      (s :: r.1, r.2)
    else ([], proved_iters)

/-- The buckets below `i`, the largest segments first. -/
def selectSegments (done_segments : List (List (Option Segment))) (iteration : Nat) :
    Nat → Nat → List (Option Segment) × Nat
  | 0, proved_iters => ([], proved_iters)
  | i + 1, proved_iters =>
    let position := proved_iters / segmentSize i
    let r := takeSegments (segmentSize i) iteration ((done_segments.getD i []).drop position) proved_iters
    let rest := selectSegments done_segments iteration i r.2
    (r.1 ++ rest.1, rest.2)

section Program

variable (gcdext : Gcdext) (shrink : Form → Option Form) (H : Primitives) (fuel : Nat)

/-- `y` and the last segment, recalculated from the checkpoint. -/
def lastSegment (D : Int) (checkpoint : Form) (iteration : Nat) :
    Except PyError (Form × Option Segment) :=
  let length := iteration % 2 ^ 16
  if length = 0 then .ok (checkpoint, none)
  else do
    let L := rootFour D
    let st ← (List.range length).foldlM (squareRound gcdext shrink D L 10) ([], checkpoint)
    let proof ← generateProof gcdext shrink H serializedBytes fuel D checkpoint st.2 st.1 10 1 length
    return (st.2, some ⟨iteration - length, length, checkpoint, st.2, proof⟩)

/-- `y_serialized` and `proof_serialized`: the last proof, then the other segments from the last
one on. -/
def assemble (D : Int) (y : Form) (proof_segments : List (Option Segment)) :
    Except PyError (Bytes × Bytes) := do
  let last ← need .indexError proof_segments.getLast?
  let last ← need .indexError last
  let y_serialized ← serializeForm serializedBytes y (numBits D)
  let proof_serialized ← serializeForm serializedBytes last.proof (numBits D)
  let segments ← proof_segments.dropLast.reverse.mapM fun s =>
    need .indexError s >>= segmentBytes H fuel D
  return (y_serialized.1, proof_serialized.1 ++ segments.flatten)

/-- `Prove`, after it has waited for the checkpoint: `y`, the proof and `witness_type`, or nothing
where it waits for more segments. -/
def prove (D : Int) (checkpoints : List Form) (done_segments : List (List (Option Segment)))
    (segment_count iteration : Nat) : Except PyError (Option (Bytes × Bytes × Nat)) := do
  let checkpoint ← need .indexError checkpoints[iteration / 2 ^ 16]?
  let (y, last_segment) ← lastSegment gcdext shrink H fuel D checkpoint iteration
  let selected := selectSegments done_segments iteration segment_count 0
  if selected.1.length > 63 ∨ selected.2 < iteration - iteration % 2 ^ 16 then return none
  else
    let proof_segments := selected.1 ++ last_segment.toList.map some
    let bytes ← assemble H fuel D y proof_segments
    return some (bytes.1, bytes.2, proof_segments.length - 1)

end Program

/-! ### The selected segments -/

section Selection

variable {done_segments : List (List (Option Segment))} {iteration proved_iters : Nat}

/-- Every finished segment stands at the position of its iterations. -/
def Placed (done_segments : List (List (Option Segment))) : Prop :=
  ∀ i position s, (done_segments.getD i [])[position]? = some (some s) →
    InBucket s i position

def Finished (done_segments : List (List (Option Segment))) (s : Segment) : Prop :=
  ∃ i position : Nat, (done_segments.getD i [])[position]? = some (some s)

theorem takeSegments_consecutive (hplaced : Placed done_segments) (i : Nat) :
    ∀ (ss : List (Option Segment)) (position : Nat),
      ss = (done_segments.getD i []).drop position → position * segmentSize i ≤ iteration →
      (∀ s ∈ (takeSegments (segmentSize i) iteration ss (position * segmentSize i)).1, s ≠ none) →
      ∃ (taken : List Segment) (n : Nat),
        takeSegments (segmentSize i) iteration ss (position * segmentSize i) =
          (taken.map some, n * segmentSize i) ∧
        Consecutive (position * segmentSize i) taken (n * segmentSize i) ∧
        n * segmentSize i ≤ iteration ∧ ∀ s ∈ taken, Finished done_segments s := by
  intro ss
  induction ss with
  | nil =>
    intro position _ hle _
    refine ⟨[], position, rfl, rfl, hle, ?_⟩
    intro s hs
    cases hs
  | cons s ss ih =>
    intro position hdrop hle hsome
    have hget : (done_segments.getD i [])[position]? = some s := by
      rw [← Nat.add_zero position, ← List.getElem?_drop, ← hdrop]
      rfl
    have hrest : ss = (done_segments.getD i []).drop (position + 1) := by
      rw [← List.drop_drop, ← hdrop]
      rfl
    unfold takeSegments at hsome ⊢
    by_cases hroom : position * segmentSize i + segmentSize i ≤ iteration
    · rw [if_pos hroom] at hsome ⊢
      dsimp only at hsome ⊢
      rw [← Nat.succ_mul] at hroom hsome ⊢
      obtain ⟨s', rfl⟩ := Option.ne_none_iff_exists'.mp (hsome s List.mem_cons_self)
      obtain ⟨taken, n, htaken, hconsecutive, hstop, hmem⟩ := ih (position + 1) hrest hroom
        fun s hs => hsome s (List.mem_cons_of_mem _ hs)
      obtain ⟨hstart, hlength⟩ := hplaced i position s' hget
      refine ⟨s' :: taken, n, by rw [htaken]; rfl, ⟨hstart, ?_⟩, hstop, ?_⟩
      · rw [hlength, ← Nat.succ_mul]
        exact hconsecutive
      · intro s hs
        rcases List.mem_cons.mp hs with rfl | hs
        · exact ⟨i, position, hget⟩
        · exact hmem s hs
    · rw [if_neg hroom]
      refine ⟨[], position, rfl, rfl, hle, ?_⟩
      intro s hs
      cases hs

/-- The selected segments cover the iterations from the first one on without a gap. -/
theorem selectSegments_consecutive (hplaced : Placed done_segments) (n : Nat) :
    ∀ proved_iters, (∀ i < n, segmentSize i ∣ proved_iters) → segmentSize 0 ∣ proved_iters →
      proved_iters ≤ iteration →
      (∀ s ∈ (selectSegments done_segments iteration n proved_iters).1, s ≠ none) →
      ∃ (selected : List Segment) (stop : Nat),
        selectSegments done_segments iteration n proved_iters = (selected.map some, stop) ∧
        Consecutive proved_iters selected stop ∧ segmentSize 0 ∣ stop ∧ stop ≤ iteration ∧
        ∀ s ∈ selected, Finished done_segments s := by
  induction n with
  | zero =>
    intro proved_iters _ hdvd hle _
    refine ⟨[], proved_iters, rfl, rfl, hdvd, hle, ?_⟩
    intro s hs
    cases hs
  | succ i ih =>
    intro proved_iters hdvd _ hle hsome
    obtain ⟨position, rfl⟩ := hdvd i (Nat.lt_succ_self i)
    rw [mul_comm] at hle hsome ⊢
    unfold selectSegments at hsome ⊢
    dsimp only at hsome ⊢
    rw [Nat.mul_div_cancel _ (segmentSize_pos i)] at hsome ⊢
    obtain ⟨taken, n, htaken, hfirst, hle', hmem⟩ := takeSegments_consecutive hplaced i _ position rfl
      hle fun s hs => hsome s (List.mem_append_left _ hs)
    rw [htaken] at hsome ⊢
    dsimp only at hsome ⊢
    obtain ⟨selected, stop, hselected, hrest, hstop, hstop_le, hmem'⟩ := ih (n * segmentSize i)
      (fun j hj => (segmentSize_dvd hj.le).mul_left n) ((segmentSize_dvd (Nat.zero_le i)).mul_left n)
      hle' fun s hs => hsome s (List.mem_append_right _ hs)
    rw [hselected]
    refine ⟨taken ++ selected, stop, by rw [List.map_append],
      consecutive_append.mpr ⟨_, hfirst, hrest⟩, hstop, hstop_le, ?_⟩
    intro s hs
    rcases List.mem_append.mp hs with hs | hs
    · exact hmem s hs
    · exact hmem' s hs

end Selection

/-! ### What the verifier says -/

section Completeness

variable {p : Nat} [hp : PrimeDiscriminant p] {shrink : Form → Option Form} {H : Primitives}
  {fuel iteration segment_count : Nat} {g : ReducedForm p} {checkpoints : List Form}
  {done_segments : List (List (Option Segment))}

/-- The squarings of `g` behind the last checkpoint. -/
def spanStart (iteration : Nat) : Nat := iteration - iteration % 2 ^ 16

theorem spanStart_add (iteration : Nat) : spanStart iteration + iteration % 2 ^ 16 = iteration :=
  Nat.sub_add_cancel (Nat.mod_le iteration _)

/-- The search for the last challenge goes on for too long. -/
def Endless (H : Primitives) (fuel : Nat) (g : ReducedForm p) (iteration : Nat) : Prop :=
  challenge H serializedBytes fuel (g ^ 2 ^ spanStart iteration) (g ^ 2 ^ iteration) = .error .diverges

theorem challenge_or_endless (fuel iteration : Nat) :
    (∃ B, challenge H serializedBytes fuel (g ^ 2 ^ spanStart iteration) (g ^ 2 ^ iteration) = .ok B) ∨
      Endless H fuel g iteration := search_ok_or_diverges _ fuel 0

/-- `y` and the last segment are those of an honest prover. -/
theorem lastSegment_class (gcdext : Gcdext) (hkeeps : KeepsClass p shrink) {f : Form}
    (hf : HasClass f (g ^ 2 ^ spanStart iteration)) :
    Yields .diverges (Fails p shrink ∨ Endless H fuel g iteration)
      (fun r : Form × Option Segment => HasClass r.1 (g ^ 2 ^ iteration) ∧
        Consecutive (spanStart iteration) r.2.toList iteration ∧ ∀ s ∈ r.2.toList, Proved H fuel g s)
      (lastSegment gcdext shrink H fuel (-p) f iteration) := by
  have hL : 0 ≤ rootFour (-p) := Int.natCast_nonneg _
  have hsum := spanStart_add iteration
  unfold lastSegment
  dsimp only
  split_ifs with hzero
  · rw [hzero, Nat.add_zero] at hsum
    apply Yields.pure
    refine ⟨hsum ▸ hf, hsum, ?_⟩
    intro s hs
    cases hs
  · apply ((squareRounds_class gcdext hkeeps hL (by norm_num) hf _).weaken Or.inl).bind
    intro st hst
    have hlast := hst.last
    rw [← pow_mul, ← pow_add] at hlast
    have hy := hlast
    rw [hsum] at hy
    rcases challenge_or_endless (H := H) (g := g) fuel iteration with ⟨B, hB⟩ | hendless
    · have hlt := Nat.mod_lt iteration (Nat.two_pow_pos 16)
      apply ((generateProof_class gcdext hkeeps hf hy (by norm_num) (by norm_num) one_pos (by norm_num)
        (by omega) hst.kept hB).weaken Or.inl).bind
      intro proof hproof
      apply Yields.pure
      refine ⟨hy, ⟨rfl, hsum⟩, ?_⟩
      intro s hs
      obtain rfl := List.mem_singleton.mp hs
      have hspan : SpanChallenge H fuel g (spanStart iteration) (iteration % 2 ^ 16) B := by
        unfold SpanChallenge
        rw [hsum]
        exact hB
      exact ⟨hf, hlast, B, hspan, hproof⟩
    · right
      unfold generateProof proofWith
      rw [getB_class hf hy, hendless]
      exact ⟨rfl, Or.inr hendless⟩

theorem assemble_verifies (gcdext : BoundedGcdext) (hkeeps : KeepsClass p shrink)
    (hbits : numBits (-p) ≤ 1024) {ss : List Segment} (hproved : ∀ s ∈ ss, Proved H fuel g s)
    (hconsecutive : Consecutive 0 ss iteration) (hpos : 0 < iteration) (hlt : iteration < 2 ^ 64)
    (hg : Stored g) (hy : Stored (g ^ 2 ^ iteration)) (hstored : ProofsStored H fuel g iteration)
    {y : Form} (hclass : HasClass y (g ^ 2 ^ iteration)) : ∃ y_serialized proof_serialized,
      assemble H fuel (-p) y (ss.map some) = .ok (y_serialized, proof_serialized) ∧
      Yields .diverges (Fails p shrink) (· = true)
        (checkProofOfTimeNWesolowski gcdext.toGcdext shrink H fuel (-p) (formBlob g)
          (y_serialized ++ proof_serialized) iteration ((ss.length - 1 : Nat) : Int)) := by
  rcases List.eq_nil_or_concat ss with rfl | ⟨ss, last, rfl⟩
  · exact absurd hconsecutive hpos.ne
  · rw [List.concat_eq_append] at hproved hconsecutive ⊢
    obtain ⟨B, bytes, hproof, hbytes, hcheck⟩ :=
      written_verifies gcdext hkeeps hbits hproved hconsecutive hlt hg hy hstored
    refine ⟨_, _, ?_, by simpa using hcheck⟩
    have hsome : (fun s => need .indexError s >>= segmentBytes H fuel (-p)) ∘ some =
        segmentBytes H fuel (-p) := rfl
    unfold assemble
    rw [List.map_append, List.map_singleton, List.getLast?_concat, need_some, ok_bind, need_some, ok_bind,
      serializeForm_class hclass, ok_bind, serializeForm_class hproof, ok_bind, List.dropLast_concat,
      ← List.map_reverse, List.mapM_map, hsome, hbytes, ok_bind]
    rfl

/-- What `Prove` returns is accepted. -/
theorem prove_class (gcdext : BoundedGcdext) (hkeeps : KeepsClass p shrink)
    (hbits : numBits (-p) ≤ 1024) (hpos : 0 < iteration) (hlt : iteration < 2 ^ 64)
    {f : Form} (hcheckpoint : checkpoints[iteration / 2 ^ 16]? = some f)
    (hf : HasClass f (g ^ 2 ^ spanStart iteration)) (hplaced : Placed done_segments)
    (hproved : ∀ s, Finished done_segments s → Proved H fuel g s)
    (hsome : ∀ s ∈ (selectSegments done_segments iteration segment_count 0).1, s ≠ none)
    (hg : Stored g) (hy : Stored (g ^ 2 ^ iteration)) (hstored : ProofsStored H fuel g iteration) :
    Yields .diverges (Fails p shrink ∨ Endless H fuel g iteration)
      (fun r => ∀ y proof witness_type, r = some (y, proof, witness_type) →
        Yields .diverges (Fails p shrink) (· = true)
          (checkProofOfTimeNWesolowski gcdext.toGcdext shrink H fuel (-p) (formBlob g) (y ++ proof)
            iteration (witness_type : Nat)))
      (prove gcdext.toGcdext shrink H fuel (-p) checkpoints done_segments segment_count iteration) := by
  obtain ⟨selected, stop, hselected, hfirst, hdvd, hle, hfinished⟩ := selectSegments_consecutive hplaced
    segment_count 0 (fun i _ => dvd_zero _) (dvd_zero _) (Nat.zero_le iteration) hsome
  unfold prove
  rw [hcheckpoint, need_some, ok_bind]
  apply (lastSegment_class gcdext.toGcdext hkeeps hf).bind
  intro r hr
  obtain ⟨y, last_segment⟩ := r
  obtain ⟨hclass, hlast, hlast_proved⟩ := hr
  dsimp only at hclass hlast hlast_proved ⊢
  rw [hselected]
  dsimp only
  split_ifs with hwait
  · apply Yields.pure
    intro y proof witness_type h
    cases h
  · have hstop : stop = spanStart iteration := by
      have hge : ¬ stop < spanStart iteration := fun h => hwait (Or.inr h)
      unfold segmentSize at hdvd
      unfold spanStart at hge ⊢
      omega
    have hall : ∀ s ∈ selected ++ last_segment.toList, Proved H fuel g s := by
      intro s hs
      rcases List.mem_append.mp hs with hs | hs
      · exact hproved s (hfinished s hs)
      · exact hlast_proved s hs
    obtain ⟨y_serialized, proof_serialized, hassemble, hcheck⟩ := assemble_verifies gcdext hkeeps hbits
      hall (consecutive_append.mpr ⟨_, hstop ▸ hfirst, hlast⟩) hpos hlt hg hy hstored hclass
    rw [← List.map_append, hassemble, ok_bind]
    apply Yields.pure
    intro y proof witness_type h
    cases h
    rw [List.length_map]
    exact hcheck

/-- The proof of honest segments is accepted, unless the reducer or the search for the last
challenge does not end. -/
theorem prove_accepted (gcdext : BoundedGcdext) (H : Primitives) (fuel : Nat)
    (hbits : numBits (-p) ≤ 1024) (hpos : 0 < iteration) (hlt : iteration < 2 ^ 64)
    {f : Form} (hcheckpoint : checkpoints[iteration / 2 ^ 16]? = some f)
    (hf : HasClass f (g ^ 2 ^ spanStart iteration)) (hplaced : Placed done_segments)
    (hproved : ∀ s, Finished done_segments s → Proved H fuel g s)
    (hsome : ∀ s ∈ (selectSegments done_segments iteration segment_count 0).1, s ≠ none)
    (hg : Stored g) (hy : Stored (g ^ 2 ^ iteration)) (hstored : ProofsStored H fuel g iteration) :
    Yields .diverges (Fails p Reducer.reduced ∨ Endless H fuel g iteration)
      (fun r => ∀ y proof witness_type, r = some (y, proof, witness_type) →
        Yields .diverges (Fails p Reducer.reduced) (· = true)
          (checkProofOfTimeNWesolowski gcdext.toGcdext Reducer.reduced H fuel (-p) (formBlob g)
            (y ++ proof) iteration (witness_type : Nat)))
      (prove gcdext.toGcdext Reducer.reduced H fuel (-p) checkpoints done_segments segment_count
        iteration) :=
  prove_class gcdext (reduced_keepsClass p) hbits hpos hlt hcheckpoint hf hplaced hproved hsome hg hy
    hstored

/-- The proof of a finished segment for a class of order three. -/
def finishedSegment : Segment := ⟨0, 2 ^ 16, ⟨2, 1, 3⟩, ⟨2, 1, 3⟩, ⟨2, -1, 3⟩⟩

theorem finishedSegment_proved :
    ∃ _ : PrimeDiscriminant 23, Proved smallHashes 1 orderThree finishedSegment := by
  obtain ⟨hprime, hpow⟩ := orderThree_pow 32768
  have hf := hasClass_form orderThree
  have hzero : orderThree ^ 2 ^ 0 = orderThree := by rw [pow_zero, pow_one]
  have hend : orderThree ^ 2 ^ (0 + 2 ^ 16) = orderThree := by
    rw [show 0 + 2 ^ 16 = 2 * 32768 by norm_num]
    exact hpow
  have hB : getB smallHashes serializedBytes 1 (-23) ⟨2, 1, 3⟩ ⟨2, 1, 3⟩ =
      .ok (2 ^ 263 + 12545, ⟨2, 1, 3⟩, ⟨2, 1, 3⟩) := by
    decide +kernel
  refine ⟨hprime, hzero.symm ▸ hf, hend.symm ▸ hf, 2 ^ 263 + 12545, ?_, ?_⟩
  · have hchallenge : challenge smallHashes serializedBytes 1 (orderThree ^ 2 ^ 0)
        (orderThree ^ 2 ^ (0 + 2 ^ 16)) = .ok (2 ^ 263 + 12545) := by
      rw [hzero, hend]
      exact challenge_of_getB hf hf hB
    exact hchallenge
  · have hcube : orderThree ^ 3 = 1 := by
      have heval : qfPow euclid ⟨2, 1, 3⟩ 3 = .ok ⟨1, 1, 6⟩ := by decide +kernel
      have hclass := qfPow_eq euclid 3 hf orderThree.reduced.isCoprime
      exact form_injective (Except.ok.inj (hclass.symm.trans heval))
    have hquotient : 2 ^ 2 ^ 16 / (2 ^ 263 + 12545) % 3 = 2 := by decide +kernel
    have heval : qfPow euclid ⟨2, 1, 3⟩ 2 = .ok ⟨2, -1, 3⟩ := by decide +kernel
    have hclass := qfPow_eq euclid 2 hf orderThree.reduced.isCoprime
    have hsquare : (orderThree ^ 2).form = ⟨2, -1, 3⟩ := Except.ok.inj (hclass.symm.trans heval)
    have hproof : spanProof orderThree 0 (2 ^ 16) (2 ^ 263 + 12545) = orderThree ^ 2 := by
      rw [spanProof, hzero, pow_eq_pow_mod _ hcube, hquotient]
    have hlast := hasClass_form (orderThree ^ 2)
    rw [hsquare, ← hproof] at hlast
    exact hlast

/-- A finished segment and three squarings behind it. -/
theorem prove_accepted_23 : ∃ _ : PrimeDiscriminant 23,
    (selectSegments [[some finishedSegment]] 65539 1 0).1 = [some finishedSegment] ∧
    Yields .diverges (Fails 23 Reducer.reduced ∨ Endless smallHashes 1 orderThree 65539)
      (fun r => ∀ y proof witness_type, r = some (y, proof, witness_type) →
        Yields .diverges (Fails 23 Reducer.reduced) (· = true)
          (checkProofOfTimeNWesolowski boundedEuclid.toGcdext Reducer.reduced smallHashes 1 (-23)
            (formBlob orderThree) (y ++ proof) 65539 (witness_type : Nat)))
      (prove boundedEuclid.toGcdext Reducer.reduced smallHashes 1 (-23) [⟨2, 1, 3⟩, ⟨2, 1, 3⟩]
        [[some finishedSegment]] 1 65539) := by
  obtain ⟨hprime, hproved⟩ := finishedSegment_proved
  have hselected : selectSegments [[some finishedSegment]] 65539 1 0 =
      ([some finishedSegment], 65536) := by
    decide
  refine ⟨hprime, congrArg Prod.fst hselected, ?_⟩
  have hbits : numBits (-(23 : Nat)) = 5 := by decide +kernel
  have hstored : ∀ x : ReducedForm 23, Stored x := fun x =>
    cofactorFits_of_bits x.reduced (by rw [hbits]; decide)
  have hfinished : ∀ (i position : Nat) (s : Segment),
      ([[some finishedSegment]].getD i [])[position]? = some (some s) →
        i = 0 ∧ position = 0 ∧ s = finishedSegment := by
    intro i position s h
    cases i with
    | zero =>
      cases position with
      | zero => exact ⟨rfl, rfl, (Option.some.inj (Option.some.inj h)).symm⟩
      | succ position => cases h
    | succ i => cases h
  have hspan : spanStart 65539 = finishedSegment.start + finishedSegment.length := by decide
  have hf : HasClass ⟨2, 1, 3⟩ (orderThree ^ 2 ^ spanStart 65539) := by
    rw [hspan]
    exact hproved.y
  apply prove_accepted (p := 23) boundedEuclid smallHashes 1 (by rw [hbits]; norm_num) (by norm_num)
    (by norm_num) rfl hf
  · intro i position s h
    obtain ⟨rfl, rfl, rfl⟩ := hfinished i position s h
    exact ⟨rfl, rfl⟩
  · intro s h
    obtain ⟨i, position, h⟩ := h
    obtain ⟨_, _, rfl⟩ := hfinished i position s h
    exact hproved
  · intro s hs
    rw [hselected] at hs
    obtain rfl := List.mem_singleton.mp hs
    exact Option.some_ne_none _
  · exact hstored _
  · exact hstored _
  · intro _ _ _ _ _
    exact hstored _

end Completeness

end Lootbox.Chiavdf

import Lootbox.Chiavdf.NWesolowski

/-!
# Blobs that provers write

A prover of segments writes the last proof and then, from the last segment to the first, the length,
the challenge and the proof of each. The verifier reads them from the end.
-/

namespace Lootbox.Chiavdf

open Headstart BinaryQF ReducedForm

/-! ### The code -/

/-- `Segment`, once it has a proof. -/
structure Segment where
  start : Nat
  length : Nat
  x : Form
  y : Form
  proof : Form
  deriving DecidableEq, Repr

/-- `to_bytes` of a number that is not negative. -/
def integerBytes (n : Nat) : Bytes := toBytes ((numBits n + 7) / 8) n

/-- What is appended to a proof for a segment before it. -/
def segmentBytes (H : Primitives) (fuel : Nat) (D : Int) (s : Segment) : Except PyError Bytes := do
  let B ← getB H serializedBytes fuel D s.x s.y
  let proof ← serializeForm serializedBytes s.proof (numBits D)
  return toBytes 8 s.length ++ integerBytes B.1 ++ proof.1

/-! ### What the verifier reads -/

section Layout

open SegmentedProofs

variable {p : Nat} [hp : PrimeDiscriminant p] {gcdext : BoundedGcdext} {shrink : Form → Option Form}
  {H : Primitives} {fuel : Nat} {pre post : Bytes} {x y π : ReducedForm p} {B T : Nat}

/-- The class is written and read back. -/
def Stored (x : ReducedForm p) : Prop := CofactorFits x.form (numBits (-p))

/-- `SerializeForm` of a class -/
def formBlob (x : ReducedForm p) : Bytes := serializedBytes x.form.a x.form.b (numBits (-p))

/-- The numbers and the proof of a segment fit their fields. -/
structure Writable (s : SegmentedProofs.Segment (ReducedForm p)) : Prop where
  iters_lt : s.iters < 2 ^ 64
  challenge_lt : s.challenge < 2 ^ 264
  proof : Stored s.proof

def segmentBlob (s : SegmentedProofs.Segment (ReducedForm p)) : Bytes :=
  toBytes 8 s.iters ++ (toBytes bBytes s.challenge ++ formBlob s.proof)

def segmentsBlob : List (SegmentedProofs.Segment (ReducedForm p)) → Bytes
  | [] => []
  | s :: ss => segmentsBlob ss ++ segmentBlob s

variable {s : SegmentedProofs.Segment (ReducedForm p)}
  {ss : List (SegmentedProofs.Segment (ReducedForm p))}

theorem length_formBlob (hbits : numBits (-p) ≤ 1024) (hx : Stored x) :
    (formBlob x).length = bqfcFormSize :=
  (deserializeForm_serialized boundedEuclid x.reduced hbits hx).1

theorem readForm_formBlob (gcdext : BoundedGcdext) (hbits : numBits (-p) ≤ 1024) (hx : Stored x)
    (post : Bytes) : readForm gcdext.toGcdext (-p) (formBlob x ++ post) 0 = .ok x.form := by
  rw [readForm_left _ (length_formBlob hbits hx)]
  exact (deserializeForm_serialized gcdext x.reduced hbits hx).2

theorem length_segmentBlob (hbits : numBits (-p) ≤ 1024) (hs : Writable s) :
    (segmentBlob s).length = segmentLen := by
  rw [segmentBlob, List.length_append, List.length_append, length_toBytes, length_toBytes,
    length_formBlob hbits hs.proof]
  rfl

theorem length_segmentsBlob (hbits : numBits (-p) ≤ 1024) (hss : ∀ s ∈ ss, Writable s) :
    (segmentsBlob ss).length = ss.length * segmentLen := by
  induction ss with
  | nil => rfl
  | cons s ss ih =>
    rw [segmentsBlob, List.length_append, ih fun s hs => hss s (List.mem_cons_of_mem _ hs),
      length_segmentBlob hbits (hss s List.mem_cons_self), List.length_cons, Nat.succ_mul]

omit hp in
theorem readBytes_toBytes (length v : Nat) (post : Bytes) :
    readBytes (toBytes length v ++ post) 0 length = .ok (toBytes length v) := by
  have hlength := length_toBytes length v
  unfold readBytes
  rw [if_pos (by rw [List.length_append]; omega), List.drop_zero, List.take_left' hlength]

theorem readSegment_segmentBlob (gcdext : BoundedGcdext) (hbits : numBits (-p) ≤ 1024)
    (hs : Writable s) (pre post : Bytes) :
    readSegment gcdext.toGcdext (-p) (pre ++ (segmentBlob s ++ post)) pre.length =
      .ok (s.iters, s.proof.form, s.challenge) := by
  have hiters : s.iters < 256 ^ 8 := hs.iters_lt.trans_eq (pow_mul 2 8 8)
  have hchallenge : s.challenge < 256 ^ bBytes := hs.challenge_lt.trans_eq (pow_mul 2 8 bBytes)
  have hlength := length_toBytes 8 s.iters
  have hblob : segmentBlob s ++ post =
      toBytes 8 s.iters ++ (toBytes bBytes s.challenge ++ (formBlob s.proof ++ post)) := by
    rw [segmentBlob, List.append_assoc, List.append_assoc]
  have hB : readBytes (segmentBlob s ++ post) (0 + 8) bBytes = .ok (toBytes bBytes s.challenge) := by
    have hfield : readBytes (toBytes 8 s.iters ++ (toBytes bBytes s.challenge ++
        (formBlob s.proof ++ post))) ((toBytes 8 s.iters).length + 0) bBytes =
          .ok (toBytes bBytes s.challenge) := by rw [readBytes_append, readBytes_toBytes]
    rwa [← hblob, hlength] at hfield
  have hproof : readForm gcdext.toGcdext (-p) (segmentBlob s ++ post) (0 + 8 + bBytes) =
      .ok s.proof.form := by
    rw [hblob, ← List.append_assoc, Nat.zero_add]
    have hsum : 8 + bBytes = (toBytes 8 s.iters ++ toBytes bBytes s.challenge).length + 0 := by
      rw [List.length_append, length_toBytes, length_toBytes]
      rfl
    rw [hsum, readForm_append]
    exact readForm_formBlob gcdext hbits hs.proof post
  rw [← Nat.add_zero pre.length, readSegment_append]
  unfold readSegment
  rw [hB, hproof, hblob, readBytes_toBytes]
  simp only [ok_bind, bytesToLong_toBytes hiters, bytesToLong_toBytes hchallenge]
  rfl

theorem checkSegments_class (gcdext : BoundedGcdext) (hkeeps : KeepsClass p shrink)
    (hbits : numBits (-p) ≤ 1024) (pre : Bytes) {ss : List (SegmentedProofs.Segment (ReducedForm p))}
    (hss : ∀ s ∈ ss, Writable s) : ∀ (x : ReducedForm p) (rest : Nat) (post : Bytes),
      Challenged (IsChallenge p H serializedBytes fuel) x ss →
      Yields .diverges (Fails p shrink) (· = some ((result x ss).form, rest))
        (checkSegments gcdext.toGcdext shrink H fuel false (-p) (pre ++ (segmentsBlob ss ++ post))
          pre.length ss.length x.form (total ss + rest)) := by
  induction ss with
  | nil =>
    intro x rest post _
    apply Yields.pure
    rw [total, List.map_nil, List.sum_nil, Nat.zero_add]
    rfl
  | cons s ss ih =>
    intro x rest post hchain
    obtain ⟨hB, hchain⟩ := hchain
    have hsome := fun s hs => hss s (List.mem_cons_of_mem _ hs)
    have hread := readSegment_segmentBlob gcdext hbits (hss s List.mem_cons_self)
      (pre ++ segmentsBlob ss) post
    rw [List.length_append, length_segmentsBlob hbits hsome, List.append_assoc,
      ← List.append_assoc (segmentsBlob ss)] at hread
    have hrest := ih hsome (s.next x) rest (segmentBlob s ++ post) hchain
    rw [← List.append_assoc (segmentsBlob ss)] at hrest
    rw [List.length_cons, segmentsBlob, total_cons]
    unfold checkSegments
    rw [hread, ok_bind]
    dsimp only
    apply (verifyWesoSegment_class gcdext.toGcdext hkeeps (hasClass_form x) (hasClass_form s.proof)
      hB).bind
    rintro r rfl
    dsimp only
    rw [if_neg (by decide), if_neg (by omega), Nat.add_assoc, Nat.add_sub_cancel_left]
    exact hrest

/-- A blob is accepted for challenged segments, exactly if the last proof leads to `y`. -/
theorem checkProofOfTimeNWesolowski_class (gcdext : BoundedGcdext) (hkeeps : KeepsClass p shrink)
    (hbits : numBits (-p) ≤ 1024) (hx : Stored x) (hy : Stored y) (hπ : Stored π)
    (hss : ∀ s ∈ ss, Writable s) (hchain : Challenged (IsChallenge p H serializedBytes fuel) x ss)
    (hB : IsChallenge p H serializedBytes fuel (result x ss) y B) (T : Nat) :
    Yields .diverges (Fails p shrink)
      (fun b => b = true ↔ (SegmentedProofs.Segment.mk T B π).next (result x ss) = y)
      (checkProofOfTimeNWesolowski gcdext.toGcdext shrink H fuel (-p) (formBlob x)
        (formBlob y ++ (formBlob π ++ segmentsBlob ss)) (total ss + T) ss.length) := by
  have hylen := length_formBlob hbits hy
  have hπlen := length_formBlob hbits hπ
  have hx_read : readForm gcdext.toGcdext (-p) (formBlob x) 0 = .ok x.form := by
    rw [← List.append_nil (formBlob x)]
    exact readForm_formBlob gcdext hbits hx []
  have hsegments := checkSegments_class gcdext hkeeps hbits (formBlob y ++ formBlob π) hss x T []
    hchain
  rw [List.append_nil, List.length_append, hylen, hπlen, ← two_mul, List.append_assoc] at hsegments
  have hlength : ((formBlob y ++ (formBlob π ++ segmentsBlob ss)).length : Int) =
      2 * bqfcFormSize + ss.length * segmentLen := by
    rw [List.length_append, List.length_append, hylen, hπlen, length_segmentsBlob hbits hss]
    push_cast
    ring
  unfold checkProofOfTimeNWesolowski
  rw [hx_read, ok_bind, if_neg (not_not.mpr hlength), Int.toNat_natCast]
  apply hsegments.bind
  rintro r rfl
  dsimp only
  rw [readForm_formBlob gcdext hbits hy, ok_bind, readForm_full hylen,
    readForm_formBlob gcdext hbits hπ, ok_bind]
  exact verifyWesolowskiProof_class gcdext.toGcdext hkeeps (hasClass_form _) (hasClass_form y)
    (hasClass_form π) hB T

end Layout

/-! ### Proved segments -/

section Proved

open SegmentedProofs

variable {p : Nat} [hp : PrimeDiscriminant p] {shrink : Form → Option Form} {H : Primitives}
  {fuel : Nat} {g : ReducedForm p} {s last : Segment} {ss : List Segment} {start mid stop : Nat}

def Consecutive : Nat → List Segment → Nat → Prop
  | start, [], stop => start = stop
  | start, s :: ss, stop => s.start = start ∧ Consecutive (start + s.length) ss stop

theorem consecutive_append {ss' : List Segment} : Consecutive start (ss ++ ss') stop ↔
    ∃ mid, Consecutive start ss mid ∧ Consecutive mid ss' stop := by
  induction ss generalizing start with
  | nil =>
    constructor
    · intro h
      exact ⟨start, rfl, h⟩
    · rintro ⟨mid, rfl, h⟩
      exact h
  | cons s ss ih =>
    rw [List.cons_append, Consecutive, ih]
    constructor
    · rintro ⟨hs, mid, hfirst, hrest⟩
      exact ⟨mid, ⟨hs, hfirst⟩, hrest⟩
    · rintro ⟨mid, ⟨hs, hfirst⟩, hrest⟩
      exact ⟨hs, mid, hfirst, hrest⟩

theorem Consecutive.le (h : Consecutive start ss stop) : start ≤ stop := by
  induction ss generalizing start with
  | nil => exact Nat.le_of_eq h
  | cons s ss ih => exact (Nat.le_add_right _ _).trans (ih h.2)

/-- The challenge for some of the squarings of `g`. -/
def SpanChallenge (H : Primitives) (fuel : Nat) (g : ReducedForm p) (start length B : Nat) : Prop :=
  IsChallenge p H serializedBytes fuel (g ^ 2 ^ start) (g ^ 2 ^ (start + length)) B

/-- The honest proof for some of the squarings of `g`. -/
noncomputable def spanProof (g : ReducedForm p) (start length B : Nat) : ReducedForm p :=
  (g ^ 2 ^ start) ^ (2 ^ length / B)

/-- A segment of an honest prover of the powers of `g`. -/
structure Proved (H : Primitives) (fuel : Nat) (g : ReducedForm p) (s : Segment) : Prop where
  x : HasClass s.x (g ^ 2 ^ s.start)
  y : HasClass s.y (g ^ 2 ^ (s.start + s.length))
  proof : ∃ B, SpanChallenge H fuel g s.start s.length B ∧
    HasClass s.proof (spanProof g s.start s.length B)

/-- The proofs of all spans up to `stop` are written and read back. -/
def ProofsStored (H : Primitives) (fuel : Nat) (g : ReducedForm p) (stop : Nat) : Prop :=
  ∀ start length B, start + length ≤ stop → SpanChallenge H fuel g start length B →
    Stored (spanProof g start length B)

/-- The segment that the verifier reads for some of the squarings of `g`. -/
noncomputable def spanSegment (g : ReducedForm p) (start length B : Nat) :
    SegmentedProofs.Segment (ReducedForm p) := ⟨length, B, spanProof g start length B⟩

theorem next_spanSegment (g : ReducedForm p) (start length B : Nat) :
    (spanSegment g start length B).next (g ^ 2 ^ start) = g ^ 2 ^ (start + length) := by
  have hnext := Segment.next_honest (g ^ 2 ^ start) length B
  rw [← pow_mul, ← pow_add] at hnext
  exact hnext

/-- Segments that lead from one power of `g` to another, with their challenges. -/
structure Written (H : Primitives) (fuel : Nat) (g : ReducedForm p) (start stop : Nat)
    (written : List (SegmentedProofs.Segment (ReducedForm p))) : Prop where
  writable : ∀ s ∈ written, Writable s
  challenged : Challenged (IsChallenge p H serializedBytes fuel) (g ^ 2 ^ start) written
  result : result (g ^ 2 ^ start) written = g ^ 2 ^ stop
  total : start + total written = stop

theorem Written.cons {length B : Nat} {written : List (SegmentedProofs.Segment (ReducedForm p))}
    (hB : SpanChallenge H fuel g start length B) (hwritable : Writable (spanSegment g start length B))
    (h : Written H fuel g (start + length) stop written) :
    Written H fuel g start stop (spanSegment g start length B :: written) := by
  have hnext := next_spanSegment g start length B
  constructor
  · intro s hs
    rcases List.mem_cons.mp hs with rfl | hs
    · exact hwritable
    · exact h.writable s hs
  · rw [Challenged, hnext]
    exact ⟨hB, h.challenged⟩
  · rw [SegmentedProofs.result, hnext, h.result]
  · rw [total_cons, ← h.total]
    exact (Nat.add_assoc _ _ _).symm

omit hp in
theorem integerBytes_challenge {B : Nat} (hlower : 2 ^ 263 ≤ B) (hupper : B < 2 ^ 264) :
    integerBytes B = toBytes bBytes B := by
  have hsize : B.size = 264 := by
    apply Nat.le_antisymm
    · exact Nat.size_le.mpr hupper
    · exact Nat.lt_size.mpr hlower
  have hbits : numBits B = 264 := by
    unfold numBits
    rw [Int.natAbs_natCast, hsize]
    rfl
  rw [integerBytes, hbits]
  rfl

theorem Proved.segmentBytes_eq (h : Proved H fuel g s) (hlt : s.length < 2 ^ 64)
    (hstored : ProofsStored H fuel g (s.start + s.length)) : ∃ B,
      SpanChallenge H fuel g s.start s.length B ∧ Writable (spanSegment g s.start s.length B) ∧
      segmentBytes H fuel (-p) s = .ok (segmentBlob (spanSegment g s.start s.length B)) := by
  obtain ⟨B, hB, hproof⟩ := h.proof
  have hupper := lt_two_pow_of_hashPrime hB
  refine ⟨B, hB, ⟨hlt, hupper, hstored _ _ _ le_rfl hB⟩, ?_⟩
  unfold segmentBytes
  rw [getB_class h.x h.y, hB, ok_bind, ok_bind, serializeForm_class hproof, ok_bind,
    integerBytes_challenge (two_pow_le_of_hashPrime hB) hupper, List.append_assoc]
  rfl

/-- Proved segments are written as a chain of challenged and honest segments. -/
theorem exists_written (hproved : ∀ s ∈ ss, Proved H fuel g s) (hconsecutive : Consecutive start ss stop)
    (hlt : stop < 2 ^ 64) (hstored : ProofsStored H fuel g stop) :
    ∃ (written : List (SegmentedProofs.Segment (ReducedForm p))) (bytes : List Bytes),
      written.length = ss.length ∧ ss.reverse.mapM (segmentBytes H fuel (-p)) = .ok bytes ∧
      bytes.flatten = segmentsBlob written ∧ Written H fuel g start stop written := by
  induction ss generalizing start with
  | nil =>
    obtain rfl : start = stop := hconsecutive
    refine ⟨[], [], rfl, rfl, rfl, ?_, trivial, rfl, rfl⟩
    intro s hs
    cases hs
  | cons s ss ih =>
    obtain ⟨rfl, hrest⟩ := hconsecutive
    have hle := hrest.le
    obtain ⟨B, hB, hwritable, hbytes⟩ := (hproved s List.mem_cons_self).segmentBytes_eq (by omega)
      fun start length B hstop => hstored start length B (hstop.trans hle)
    obtain ⟨written, bytes, hlength, hmap, hflatten, hwritten⟩ :=
      ih (fun s hs => hproved s (List.mem_cons_of_mem _ hs)) hrest
    refine ⟨spanSegment g s.start s.length B :: written,
      bytes ++ [segmentBlob (spanSegment g s.start s.length B)], ?_, ?_, ?_, hwritten.cons hB hwritable⟩
    · rw [List.length_cons, List.length_cons, hlength]
    · rw [List.reverse_cons, List.mapM_append, hmap, ok_bind, List.mapM_cons, hbytes]
      rfl
    · rw [List.flatten_append, hflatten, List.flatten_singleton]
      rfl

/-- What is written for proved segments from the first squaring on is accepted. -/
theorem written_verifies (gcdext : BoundedGcdext) (hkeeps : KeepsClass p shrink)
    (hbits : numBits (-p) ≤ 1024) (hproved : ∀ s ∈ ss ++ [last], Proved H fuel g s)
    (hconsecutive : Consecutive 0 (ss ++ [last]) stop) (hlt : stop < 2 ^ 64) (hg : Stored g)
    (hy : Stored (g ^ 2 ^ stop)) (hstored : ProofsStored H fuel g stop) :
    ∃ (B : Nat) (bytes : List Bytes), HasClass last.proof (spanProof g last.start last.length B) ∧
      ss.reverse.mapM (segmentBytes H fuel (-p)) = .ok bytes ∧
      Yields .diverges (Fails p shrink) (· = true)
        (checkProofOfTimeNWesolowski gcdext.toGcdext shrink H fuel (-p) (formBlob g)
          (formBlob (g ^ 2 ^ stop) ++
            (formBlob (spanProof g last.start last.length B) ++ bytes.flatten)) stop ss.length) := by
  obtain ⟨mid, hfirst, rfl, rfl⟩ := consecutive_append.mp hconsecutive
  obtain ⟨B, hB, hproof⟩ := (hproved last (List.mem_append_right _ List.mem_cons_self)).proof
  obtain ⟨written, bytes, hlength, hmap, hflatten, hwritten⟩ := exists_written
    (fun s hs => hproved s (List.mem_append_left _ hs)) hfirst (by omega)
    (fun start length B hle => hstored start length B (by omega))
  have hresult := hwritten.result
  have hchain := hwritten.challenged
  have htotal := hwritten.total
  rw [pow_zero, pow_one] at hchain hresult
  rw [Nat.zero_add] at htotal
  refine ⟨B, bytes, hproof, hmap, ?_⟩
  have hB_last : IsChallenge p H serializedBytes fuel (result g written)
      (g ^ 2 ^ (last.start + last.length)) B := by
    rw [hresult]
    exact hB
  have hcheck := checkProofOfTimeNWesolowski_class gcdext hkeeps hbits hg hy
    (hstored _ _ B le_rfl hB) hwritten.writable hchain hB_last last.length
  rw [hresult, htotal, ← hflatten, hlength] at hcheck
  exact hcheck.mono fun b hb => hb.mpr (next_spanSegment g last.start last.length B)

end Proved

end Lootbox.Chiavdf

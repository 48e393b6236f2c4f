import Lootbox.Chiavdf.Bqfc
import Lootbox.Chiavdf.Wesolowski

/-!
# `verifier.h`: proofs in segments

A blob holds the last proof and, from its end, one segment after the other: a number of iterations,
a challenge and a proof. Each segment determines the input of the next one, and the last proof is
that of the iterations which remain.
-/

namespace Lootbox.Chiavdf

open Headstart BinaryQF ReducedForm

def bBytes : Nat := (264 + 7) / 8

def segmentLen : Nat := 8 + bBytes + bqfcFormSize

/-- The bytes from an offset on; behind the end of the blob they are undefined. -/
def readBytes (blob : Bytes) (offset size : Nat) : Except PyError Bytes :=
  if offset + size ≤ blob.length then .ok ((blob.drop offset).take size) else .error .indexError

section Program

variable (gcdext : Gcdext) (shrink : Form → Option Form) (H : Primitives) (fuel : Nat)

def readForm (D : Int) (blob : Bytes) (offset : Nat) : Except PyError Form := do
  let bytes ← readBytes blob offset bqfcFormSize
  deserializeForm gcdext D bytes

/-- `segment_iters`, `proof` and `B`. -/
def readSegment (D : Int) (blob : Bytes) (i : Nat) : Except PyError (Nat × Form × Nat) := do
  let segment_iters ← readBytes blob i 8
  let proof ← readForm gcdext D blob (i + 8 + bBytes)
  let B ← readBytes blob (i + 8) bBytes
  return (bytesToLong segment_iters, proof, bytesToLong B)

/-- `xnew`, and whether the segment is accepted. -/
def segmentStep (skip_check : Bool) (D : Int) (x proof : Form) (B segment_iters : Nat) :
    Except PyError (Form × Bool) :=
  if skip_check then do
    let xnew ← verifierProduct gcdext shrink D x proof B segment_iters
    return (xnew, true)
  else verifyWesoSegment gcdext shrink H serializedBytes fuel D x proof B segment_iters

/-- The loop over the segments, here `n` of them, from the end of the blob down to
`last_segment`. There is no state where it returns false. -/
def checkSegments (skip_check : Bool) (D : Int) (blob : Bytes) (last_segment : Nat) :
    Nat → Form → Nat → Except PyError (Option (Form × Nat))
  | 0, x, iterations => .ok (some (x, iterations))
  | n + 1, x, iterations => do
    let (segment_iters, proof, B) ← readSegment gcdext D blob (last_segment + n * segmentLen)
    let (xnew, valid) ← segmentStep gcdext shrink H fuel skip_check D x proof B segment_iters
    if valid = false then return none
    else if segment_iters > iterations then return none
    else checkSegments skip_check D blob last_segment n xnew (iterations - segment_iters)

def checkProofOfTimeNWesolowski (D : Int) (x_s proof_blob : Bytes) (iterations : Nat) (depth : Int) :
    Except PyError Bool := do
  let x ← readForm gcdext D x_s 0
  if (proof_blob.length : Int) ≠ 2 * bqfcFormSize + depth * segmentLen then return false
  else
    let st ← checkSegments gcdext shrink H fuel false D proof_blob (2 * bqfcFormSize) depth.toNat x
      iterations
    match st with
    | none => return false
    | some (x, iterations) => do
      let y ← readForm gcdext D proof_blob 0
      let proof ← readForm gcdext D proof_blob bqfcFormSize
      verifyWesolowskiProof gcdext shrink H serializedBytes fuel D x y proof iterations

def checkProofOfTimeNWesolowskiWithB (D : Int) (B : Nat) (x_s proof_blob : Bytes) (iterations : Nat)
    (depth : Int) : Except PyError (Bool × Bytes) := do
  let x ← readForm gcdext D x_s 0
  if (proof_blob.length : Int) ≠ bqfcFormSize + depth * segmentLen then return (false, [])
  else
    let st ← checkSegments gcdext shrink H fuel false D proof_blob bqfcFormSize depth.toNat x iterations
    match st with
    | none => return (false, [])
    | some (x, iterations) => do
      let proof ← readForm gcdext D proof_blob 0
      let (y_result, valid) ←
        verifyWesoSegment gcdext shrink H serializedBytes fuel D x proof B iterations
      if valid = false then return (false, [])
      else
        let result ← serializeForm serializedBytes y_result (numBits D)
        return (true, result.1)

def getBFromProof (D : Int) (x_s proof_blob : Bytes) (iterations : Nat) (depth : Int) :
    Except PyError Nat := do
  let x ← readForm gcdext D x_s 0
  if (proof_blob.length : Int) ≠ 2 * bqfcFormSize + depth * segmentLen then
    throw (.runtimeError "Invalid proof.")
  else
    let st ← checkSegments gcdext shrink H fuel true D proof_blob (2 * bqfcFormSize) depth.toNat x
      iterations
    match st with
    | none => throw (.runtimeError "Invalid proof.")
    | some (x, _) => do
      let y ← readForm gcdext D proof_blob 0
      let B ← getB H serializedBytes fuel D x y
      return B.1

end Program

/-! ### What is accepted -/

section Soundness

open SegmentedProofs

variable {p : Nat} [hp : PrimeDiscriminant p] {gcdext : Gcdext} {shrink : Form → Option Form}
  {H : Primitives} {fuel : Nat} {blob : Bytes} {f : Form} {x : ReducedForm p}

theorem readForm_class {offset : Nat} (h : readForm gcdext (-p) blob offset = .ok f) :
    ∃ x : ReducedForm p, f = x.form := by
  obtain ⟨bytes, _, h⟩ := bind_eq_ok_iff.mp h
  exact ⟨⟨f, deserializeForm_reduced (neg_discriminant p) h⟩, rfl⟩

omit hp in
theorem le_of_readForm {D : Int} {offset : Nat} (h : readForm gcdext D blob offset = .ok f) :
    offset + bqfcFormSize ≤ blob.length := by
  obtain ⟨bytes, hbytes, _⟩ := bind_eq_ok_iff.mp h
  unfold readBytes at hbytes
  split_ifs at hbytes with hle
  exact hle

theorem readSegment_class {i t B : Nat}
    (h : readSegment gcdext (-p) blob i = .ok (t, f, B)) : ∃ π : ReducedForm p, f = π.form := by
  obtain ⟨_, _, h⟩ := bind_eq_ok_iff.mp h
  obtain ⟨proof, hproof, h⟩ := bind_eq_ok_iff.mp h
  obtain ⟨_, _, h⟩ := bind_eq_ok_iff.mp h
  cases h
  exact readForm_class hproof

def Holds (gcdext : Gcdext) (blob : Bytes) (last_segment : Nat) (ss : List (Segment (ReducedForm p))) :
    Prop :=
  ∀ i s, ss[i]? = some s → readSegment gcdext (-p) blob
    (last_segment + (ss.length - 1 - i) * segmentLen) = .ok (s.iters, s.proof.form, s.challenge)

/-- The segments that were checked are challenged one after the other. -/
theorem checkSegments_chain (hkeeps : KeepsClass p shrink) {last_segment : Nat} (n : Nat) :
    ∀ (x : ReducedForm p) (iterations : Nat) (fy : Form) (rest : Nat),
      checkSegments gcdext shrink H fuel false (-p) blob last_segment n x.form iterations =
        .ok (some (fy, rest)) →
      ∃ ss, ss.length = n ∧ Holds gcdext blob last_segment ss ∧ fy = (result x ss).form ∧
        iterations = total ss + rest ∧ Challenged (IsChallenge p H serializedBytes fuel) x ss := by
  induction n with
  | zero =>
    intro x iterations fy rest h
    cases h
    refine ⟨[], rfl, ?_, rfl, (Nat.zero_add _).symm, trivial⟩
    intro i s hs
    cases hs
  | succ n ih =>
    intro x iterations fy rest h
    unfold checkSegments at h
    obtain ⟨⟨segment_iters, proof, B⟩, hsegment, h⟩ := bind_eq_ok_iff.mp h
    dsimp only at h
    obtain ⟨⟨xnew, valid⟩, hstep, h⟩ := bind_eq_ok_iff.mp h
    dsimp only at h
    split_ifs at h with hvalid hiters
    · cases h
    · cases h
    · obtain ⟨π, rfl⟩ := readSegment_class hsegment
      obtain ⟨_, rfl, hchallenge⟩ :=
        verifyWesoSegment_of_ok hkeeps (hasClass_form x) (hasClass_form π) hstep
      obtain ⟨ss, hlength, hholds, rfl, htotal, hchain⟩ := ih _ _ _ _ h
      refine ⟨⟨segment_iters, B, π⟩ :: ss, by rw [List.length_cons, hlength], ?_, rfl, ?_,
        hchallenge (by simpa using hvalid), hchain⟩
      · intro i s hs
        rw [List.length_cons, hlength]
        cases i with
        | zero =>
          cases hs
          exact hsegment
        | succ i =>
          have hread := hholds i s hs
          rw [hlength] at hread
          rw [show n + 1 - 1 - (i + 1) = n - 1 - i by omega]
          exact hread
      · rw [total_cons]
        dsimp only
        omega

/-- What an accepted blob says about `y`, for every number of segments. -/
theorem checkProofOfTimeNWesolowski_accepts (gcdext : Gcdext) (H : Primitives) (rounds fuel : Nat)
    {x_s proof_blob : Bytes} {iterations : Nat} {depth : Int}
    (h : checkProofOfTimeNWesolowski gcdext (Reducer.run rounds) H fuel (-p) x_s proof_blob iterations
      depth = .ok true) :
    ∃ (x y : ReducedForm p) (ss : List (Segment (ReducedForm p))) (last : Segment (ReducedForm p)),
      readForm gcdext (-p) x_s 0 = .ok x.form ∧ readForm gcdext (-p) proof_blob 0 = .ok y.form ∧
      readForm gcdext (-p) proof_blob bqfcFormSize = .ok last.proof.form ∧
      (ss.length : Int) = depth ∧ Holds gcdext proof_blob (2 * bqfcFormSize) ss ∧
      total (ss ++ [last]) = iterations ∧
      Challenged (IsChallenge p H serializedBytes fuel) x (ss ++ [last]) ∧
      y = x ^ 2 ^ iterations * error x (ss ++ [last]) ∧
      (Honest x (ss ++ [last]) → y = x ^ 2 ^ iterations) := by
  unfold checkProofOfTimeNWesolowski at h
  obtain ⟨fx, hx, h⟩ := bind_eq_ok_iff.mp h
  obtain ⟨x, rfl⟩ := readForm_class hx
  split_ifs at h with hlength
  · cases h
  obtain ⟨st, hst, h⟩ := bind_eq_ok_iff.mp h
  cases st with
  | none => cases h
  | some st =>
    obtain ⟨fz, rest⟩ := st
    dsimp only at h
    obtain ⟨fy, hy, h⟩ := bind_eq_ok_iff.mp h
    obtain ⟨fπ, hπ, h⟩ := bind_eq_ok_iff.mp h
    obtain ⟨y, rfl⟩ := readForm_class hy
    obtain ⟨π, rfl⟩ := readForm_class hπ
    have hkeeps := run_keepsClass p rounds
    obtain ⟨ss, hss, hholds, rfl, htotal, hchain⟩ := checkSegments_chain hkeeps _ _ _ _ _ hst
    obtain ⟨B, hB, _, hnext⟩ := verifyWesolowskiProof_of_true hkeeps (hasClass_form (result x ss))
      (hasClass_form y) (hasClass_form π) h
    have hall : total (ss ++ [⟨rest, B, π⟩]) = iterations := by
      rw [total_append, htotal]
      rfl
    have hresult : result x (ss ++ [⟨rest, B, π⟩]) = y := by
      rw [result_append]
      exact hnext
    refine ⟨x, y, ss, ⟨rest, B, π⟩, hx, hy, hπ, ?_, hholds, hall, ?_, ?_, ?_⟩
    · have hlen : (proof_blob.length : Int) = 2 * bqfcFormSize + depth * segmentLen :=
        not_not.mp hlength
      have hle := le_of_readForm hπ
      have hsegment : segmentLen = 141 := by decide
      rw [hsegment] at hlen
      omega
    · rw [challenged_append]
      refine ⟨hchain, ?_, trivial⟩
      rw [hnext]
      exact hB
    · rw [← hall, ← result_eq, hresult]
    · intro hhonest
      rw [← hall, ← hhonest.result_eq, hresult]

/-- A proof of one squaring after a segment of two, for a form of discriminant `-23`. -/
def smallBlob : Bytes := serializedBytes 1 1 5 ++
  (toBytes 8 2 ++ toBytes bBytes (2 ^ 263 + 12545) ++ serializedBytes 1 1 5)

theorem smallBlob_accepted : checkProofOfTimeNWesolowski boundedEuclid.toGcdext (Reducer.run 9)
    smallHashes 1 (-23) (serializedBytes 2 1 5) (serializedBytes 2 (-1) 5 ++ smallBlob) 3 1 =
      .ok true := by decide +kernel

theorem checkProofOfTimeNWesolowski_accepts_23 :
    ∃ x y : ReducedForm 23, readForm boundedEuclid.toGcdext (-23) (serializedBytes 2 1 5) 0 =
      .ok x.form ∧ readForm boundedEuclid.toGcdext (-23) (serializedBytes 2 (-1) 5 ++ smallBlob) 0 =
        .ok y.form := by
  have : PrimeDiscriminant 23 := ⟨by norm_num, by norm_num⟩
  obtain ⟨x, y, _, _, hx, hy, _⟩ := checkProofOfTimeNWesolowski_accepts (p := 23)
    boundedEuclid.toGcdext smallHashes 9 1 smallBlob_accepted
  exact ⟨x, y, hx, hy⟩

end Soundness

/-! ### A blob without `y` -/

section WithB

open SegmentedProofs

variable {gcdext : Gcdext} {shrink : Form → Option Form} {H : Primitives} {fuel : Nat}
  {y_s blob : Bytes}

theorem readBytes_append (offset size : Nat) :
    readBytes (y_s ++ blob) (y_s.length + offset) size = readBytes blob offset size := by
  unfold readBytes
  rw [List.length_append, ← List.drop_drop, List.drop_left]
  simp only [Nat.add_assoc, Nat.add_le_add_iff_left]

theorem readForm_append (D : Int) (offset : Nat) : readForm gcdext D (y_s ++ blob) (y_s.length + offset) =
    readForm gcdext D blob offset := by
  unfold readForm
  rw [readBytes_append]

theorem readForm_left (D : Int) (hy : y_s.length = bqfcFormSize) :
    readForm gcdext D (y_s ++ blob) 0 = deserializeForm gcdext D y_s := by
  unfold readForm readBytes
  rw [if_pos (by rw [List.length_append]; omega), ok_bind, List.drop_zero, List.take_left' hy]

theorem readSegment_append (D : Int) (i : Nat) :
    readSegment gcdext D (y_s ++ blob) (y_s.length + i) = readSegment gcdext D blob i := by
  unfold readSegment
  simp only [Nat.add_assoc, readBytes_append, readForm_append]

theorem checkSegments_append (skip_check : Bool) (D : Int) (last_segment n : Nat) :
    ∀ x iterations, checkSegments gcdext shrink H fuel skip_check D (y_s ++ blob)
        (y_s.length + last_segment) n x iterations =
      checkSegments gcdext shrink H fuel skip_check D blob last_segment n x iterations := by
  induction n with
  | zero =>
    intro x iterations
    rfl
  | succ n ih =>
    intro x iterations
    unfold checkSegments
    rw [Nat.add_assoc, readSegment_append]
    simp only [ih]

theorem checkSegments_full (hy : y_s.length = bqfcFormSize) (skip_check : Bool) (D : Int) (n : Nat)
    (x : Form) (iterations : Nat) : checkSegments gcdext shrink H fuel skip_check D (y_s ++ blob)
        (2 * bqfcFormSize) n x iterations =
      checkSegments gcdext shrink H fuel skip_check D blob bqfcFormSize n x iterations := by
  rw [two_mul, ← hy, checkSegments_append, hy]

theorem readForm_full (hy : y_s.length = bqfcFormSize) (D : Int) :
    readForm gcdext D (y_s ++ blob) bqfcFormSize = readForm gcdext D blob 0 := by
  rw [← hy, ← readForm_append D 0, Nat.add_zero]

variable {p : Nat} [hp : PrimeDiscriminant p]

theorem checkSegments_skip (hkeeps : KeepsClass p shrink) {last_segment : Nat} (n : Nat) :
    ∀ (x : ReducedForm p) (iterations : Nat) (r : Form × Nat),
      checkSegments gcdext shrink H fuel false (-p) blob last_segment n x.form iterations =
        .ok (some r) →
      checkSegments gcdext shrink H fuel true (-p) blob last_segment n x.form iterations =
        .ok (some r) := by
  induction n with
  | zero =>
    intro x iterations r h
    exact h
  | succ n ih =>
    intro x iterations r h
    unfold checkSegments at h ⊢
    obtain ⟨⟨segment_iters, proof, B⟩, hsegment, h⟩ := bind_eq_ok_iff.mp h
    refine bind_eq_of_ok hsegment ?_
    dsimp only at h ⊢
    obtain ⟨⟨xnew, valid⟩, hstep, h⟩ := bind_eq_ok_iff.mp h
    obtain ⟨π, rfl⟩ := readSegment_class hsegment
    obtain ⟨hproduct, rfl, _⟩ :=
      verifyWesoSegment_of_ok hkeeps (hasClass_form x) (hasClass_form π) hstep
    have hskip : segmentStep gcdext shrink H fuel true (-p) x.form π.form B segment_iters =
        .ok (((Segment.mk segment_iters B π).next x).form, true) := by
      unfold segmentStep
      rw [if_pos rfl, hproduct, ok_bind]
      rfl
    refine bind_eq_of_ok hskip ?_
    dsimp only at h ⊢
    split_ifs at h with hvalid hiters
    · cases h
    · cases h
    · rw [if_neg (by decide), if_neg hiters]
      exact ih _ _ _ h

/-- What both verifiers go through: the segments lead to `z`, and the last proof from `z` to `y`. -/
structure Verified (gcdext : Gcdext) (shrink : Form → Option Form) (H : Primitives) (fuel : Nat)
    (x_s blob : Bytes) (iterations : Nat) (depth : Int) (x z y π : ReducedForm p) (rest B : Nat) :
    Prop where
  read_x : readForm gcdext (-p) x_s 0 = .ok x.form
  length : (blob.length : Int) = bqfcFormSize + depth * segmentLen
  segments : checkSegments gcdext shrink H fuel false (-p) blob bqfcFormSize depth.toNat x.form
    iterations = .ok (some (z.form, rest))
  read_proof : readForm gcdext (-p) blob 0 = .ok π.form
  product : verifierProduct gcdext shrink (-p) z.form π.form B rest = .ok y.form
  challenge : IsChallenge p H serializedBytes fuel z y B

section Verified

variable {x_s : Bytes} {iterations rest B : Nat} {depth : Int} {x z y π : ReducedForm p}

theorem Verified.length_full (h : Verified gcdext shrink H fuel x_s blob iterations depth x z y π rest B)
    (hy : y_s.length = bqfcFormSize) :
    ((y_s ++ blob).length : Int) = 2 * bqfcFormSize + depth * segmentLen := by
  have hlength := h.length
  rw [List.length_append, hy]
  omega

theorem Verified.accepts (h : Verified gcdext shrink H fuel x_s blob iterations depth x z y π rest B)
    (hy : y_s.length = bqfcFormSize) (hread : deserializeForm gcdext (-p) y_s = .ok y.form) :
    checkProofOfTimeNWesolowski gcdext shrink H fuel (-p) x_s (y_s ++ blob) iterations depth =
      .ok true := by
  unfold checkProofOfTimeNWesolowski
  refine bind_eq_of_ok h.read_x ?_
  rw [if_neg (not_not.mpr (h.length_full hy)), (checkSegments_full hy _ _ _ _ _).trans h.segments, ok_bind]
  dsimp only
  rw [readForm_left _ hy, hread, ok_bind, readForm_full hy, h.read_proof, ok_bind]
  exact verifyWesolowskiProof_eq (hasClass_form z) (hasClass_form y) h.product h.challenge

theorem Verified.getBFromProof_eq (hkeeps : KeepsClass p shrink)
    (h : Verified gcdext shrink H fuel x_s blob iterations depth x z y π rest B)
    (hy : y_s.length = bqfcFormSize) (hread : deserializeForm gcdext (-p) y_s = .ok y.form) :
    getBFromProof gcdext shrink H fuel (-p) x_s (y_s ++ blob) iterations depth = .ok B := by
  unfold getBFromProof
  refine bind_eq_of_ok h.read_x ?_
  rw [if_neg (not_not.mpr (h.length_full hy)), checkSegments_skip hkeeps _ _ _ _
    ((checkSegments_full hy _ _ _ _ _).trans h.segments),
    ok_bind]
  dsimp only
  rw [readForm_left _ hy, hread, ok_bind, getB_class (hasClass_form z) (hasClass_form y), h.challenge,
    ok_bind, ok_bind]
  rfl

theorem Verified.withB (h : Verified gcdext shrink H fuel x_s blob iterations depth x z y π rest B) :
    checkProofOfTimeNWesolowskiWithB gcdext shrink H fuel (-p) B x_s blob iterations depth =
      .ok (true, serializedBytes y.form.a y.form.b (numBits (-p))) := by
  unfold checkProofOfTimeNWesolowskiWithB
  refine bind_eq_of_ok h.read_x ?_
  rw [if_neg (not_not.mpr h.length), h.segments, ok_bind]
  dsimp only
  rw [h.read_proof, ok_bind, verifyWesoSegment_eq (hasClass_form z) h.product h.challenge, ok_bind]
  dsimp only
  rw [if_neg (by decide), serializeForm_class (hasClass_form y), ok_bind]
  rfl

theorem exists_verified_of_accepts (hkeeps : KeepsClass p shrink) (hy : y_s.length = bqfcFormSize)
    (h : checkProofOfTimeNWesolowski gcdext shrink H fuel (-p) x_s (y_s ++ blob) iterations depth =
      .ok true) : ∃ x z y π rest B, deserializeForm gcdext (-p) y_s = .ok (y : ReducedForm p).form ∧
        Verified gcdext shrink H fuel x_s blob iterations depth x z y π rest B := by
  unfold checkProofOfTimeNWesolowski at h
  obtain ⟨fx, hx, h⟩ := bind_eq_ok_iff.mp h
  obtain ⟨x, rfl⟩ := readForm_class hx
  split_ifs at h with hlength
  · cases h
  obtain ⟨st, hst, h⟩ := bind_eq_ok_iff.mp h
  cases st with
  | none => cases h
  | some st =>
    obtain ⟨fz, rest⟩ := st
    dsimp only at h
    obtain ⟨fy, hfy, h⟩ := bind_eq_ok_iff.mp h
    obtain ⟨fπ, hπ, h⟩ := bind_eq_ok_iff.mp h
    obtain ⟨y, rfl⟩ := readForm_class hfy
    obtain ⟨π, rfl⟩ := readForm_class hπ
    obtain ⟨ss, _, _, rfl, _, _⟩ := checkSegments_chain hkeeps _ _ _ _ _ hst
    obtain ⟨B, hB, hproduct, _⟩ := verifyWesolowskiProof_of_true hkeeps
      (hasClass_form (result x ss)) (hasClass_form y) (hasClass_form π) h
    rw [readForm_left _ hy] at hfy
    refine ⟨x, result x ss, y, π, rest, B, hfy, hx, ?_, ?_, ?_, hproduct, hB⟩
    · rw [List.length_append, hy] at hlength
      omega
    · rw [← hst, checkSegments_full hy]
    · rw [← hπ, readForm_full hy]

theorem exists_verified_of_withB (hkeeps : KeepsClass p shrink)
    (h : checkProofOfTimeNWesolowskiWithB gcdext shrink H fuel (-p) B x_s blob iterations depth =
      .ok (true, y_s)) : ∃ x z y π rest, y_s = serializedBytes (y : ReducedForm p).form.a y.form.b
        (numBits (-p)) ∧ Verified gcdext shrink H fuel x_s blob iterations depth x z y π rest B := by
  unfold checkProofOfTimeNWesolowskiWithB at h
  obtain ⟨fx, hx, h⟩ := bind_eq_ok_iff.mp h
  obtain ⟨x, rfl⟩ := readForm_class hx
  split_ifs at h with hlength
  · cases h
  obtain ⟨st, hst, h⟩ := bind_eq_ok_iff.mp h
  cases st with
  | none => cases h
  | some st =>
    obtain ⟨fz, rest⟩ := st
    dsimp only at h
    obtain ⟨fπ, hπ, h⟩ := bind_eq_ok_iff.mp h
    obtain ⟨π, rfl⟩ := readForm_class hπ
    obtain ⟨⟨fy, valid⟩, hstep, h⟩ := bind_eq_ok_iff.mp h
    dsimp only at h
    split_ifs at h with hvalid
    · cases h
    obtain ⟨ss, _, _, rfl, _, _⟩ := checkSegments_chain hkeeps _ _ _ _ _ hst
    obtain ⟨hproduct, rfl, hchallenge⟩ :=
      verifyWesoSegment_of_ok hkeeps (hasClass_form (result x ss)) (hasClass_form π) hstep
    rw [serializeForm_class (hasClass_form _)] at h
    cases h
    exact ⟨x, result x ss, _, π, rest, rfl, hx, not_not.mp hlength, hst, hπ, hproduct,
      hchallenge (by simpa using hvalid)⟩

end Verified

/-- The full blob and the blob without `y` are accepted for the same `y`, with the challenge that
`GetBFromProof` finds. -/
theorem checkProofOfTimeNWesolowski_agrees_withB (gcdext : BoundedGcdext) (H : Primitives)
    (rounds fuel : Nat) (hbits : numBits (-p) ≤ 1024) (x_s blob : Bytes) (iterations : Nat)
    (depth : Int) :
    (∀ y_s, y_s.length = bqfcFormSize →
      checkProofOfTimeNWesolowski gcdext.toGcdext (Reducer.run rounds) H fuel (-p) x_s (y_s ++ blob)
        iterations depth = .ok true →
      ∃ (y : Form) (B : Nat), deserializeForm gcdext.toGcdext (-p) y_s = .ok y ∧
        getBFromProof gcdext.toGcdext (Reducer.run rounds) H fuel (-p) x_s (y_s ++ blob) iterations
          depth = .ok B ∧
        checkProofOfTimeNWesolowskiWithB gcdext.toGcdext (Reducer.run rounds) H fuel (-p) B x_s blob
          iterations depth = .ok (true, serializedBytes y.a y.b (numBits (-p)))) ∧
    ∀ B y_s, checkProofOfTimeNWesolowskiWithB gcdext.toGcdext (Reducer.run rounds) H fuel (-p) B x_s
        blob iterations depth = .ok (true, y_s) →
      ∃ y : Form, y.Reduced (-p) ∧ y_s = serializedBytes y.a y.b (numBits (-p)) ∧
        (CofactorFits y (numBits (-p)) →
          checkProofOfTimeNWesolowski gcdext.toGcdext (Reducer.run rounds) H fuel (-p) x_s
            (y_s ++ blob) iterations depth = .ok true ∧
          getBFromProof gcdext.toGcdext (Reducer.run rounds) H fuel (-p) x_s (y_s ++ blob) iterations
            depth = .ok B) := by
  have hkeeps := run_keepsClass p rounds
  constructor
  · intro y_s hy h
    obtain ⟨x, z, y, π, rest, B, hread, hverified⟩ := exists_verified_of_accepts hkeeps hy h
    exact ⟨y.form, B, hread, hverified.getBFromProof_eq hkeeps hy hread, hverified.withB⟩
  · intro B y_s h
    obtain ⟨x, z, y, π, rest, rfl, hverified⟩ := exists_verified_of_withB hkeeps h
    refine ⟨y.form, y.reduced, rfl, ?_⟩
    intro hfits
    obtain ⟨hlength, hread⟩ := deserializeForm_serialized gcdext y.reduced hbits hfits
    exact ⟨hverified.accepts hlength hread, hverified.getBFromProof_eq hkeeps hlength hread⟩

/-- The same `y` without its bytes. -/
theorem checkProofOfTimeNWesolowski_agrees_withB_23 :
    ∃ (y : Form) (B : Nat), getBFromProof boundedEuclid.toGcdext (Reducer.run 9) smallHashes 1 (-23)
        (serializedBytes 2 1 5) (serializedBytes 2 (-1) 5 ++ smallBlob) 3 1 = .ok B ∧
      checkProofOfTimeNWesolowskiWithB boundedEuclid.toGcdext (Reducer.run 9) smallHashes 1 (-23) B
        (serializedBytes 2 1 5) smallBlob 3 1 = .ok (true, serializedBytes y.a y.b (numBits (-23))) := by
  have : PrimeDiscriminant 23 := ⟨by norm_num, by norm_num⟩
  have hbits : numBits (-(23 : Nat)) ≤ 1024 := by decide +kernel
  obtain ⟨hfull, _⟩ := checkProofOfTimeNWesolowski_agrees_withB boundedEuclid smallHashes 9 1 hbits
    (serializedBytes 2 1 5) smallBlob 3 1
  obtain ⟨y, B, _, hB, hwithB⟩ := hfull (serializedBytes 2 (-1) 5) (by decide +kernel) smallBlob_accepted
  exact ⟨y, B, hB, hwithB⟩

end WithB

end Lootbox.Chiavdf

import Lootbox.Commitment.GeometricSequence

/-!
# `proof_of_function_relation`: the verifiers over ideal commitments

With polynomials as their own commitments the verifiers accept what the verifiers of the ideal model
accept.
-/

namespace Lootbox.FunctionRelation

open ZeroOverK

variable {F R : Type} [Field F] [DecidableEq F]

/-! ### Padded sequences -/

section Segments

variable (domain : EvaluationDomain F) (r v p : F) (n : Nat)

/-- The initial values and the lengths of a sequence and of its padding. -/
def segments (size : Nat) (v p : F) (n : Nat) : List F × List Nat :=
  if size - n > 0 then ([v, p], [n, size - n]) else ([v], [n])

def segmentValue (j : Nat) : F := if j < n then v * r ^ j else p * r ^ (j - n)

variable {domain r v p n}

omit [DecidableEq F] in
theorem paddedSequence_eq (hn : n ≤ domain.size) :
    paddedSequence domain v p n = .ok (segments domain.size v p n) := by
  rw [paddedSequence, usizeSub, if_pos hn, ok_bind, segments]
  by_cases hpad : domain.size - n > 0
  · rw [if_pos hpad, if_pos hpad]
    rfl
  · rw [if_neg hpad, if_neg hpad]
    rfl

omit [DecidableEq F] in
theorem generateSequence_segments {size : Nat} (hn : n ≤ size) :
    generateSequence r (segments size v p n).1 (segments size v p n).2 =
      .ok ((List.range size).map (segmentValue r v p n)) := by
  have hfirst : (List.range n).map (segmentValue r v p n) =
      (List.range n).map fun i => v * r ^ i := by
    apply List.map_congr_left
    intro i hi
    rw [segmentValue, if_pos (List.mem_range.mp hi)]
  rw [segments]
  by_cases hpad : size - n > 0
  · have hsize : n + (size - n) = size := by omega
    have hsecond : ((List.range (size - n)).map (n + ·)).map (segmentValue r v p n) =
        (List.range (size - n)).map fun i => p * r ^ i := by
      rw [List.map_map]
      apply List.map_congr_left
      intro i _
      rw [Function.comp, segmentValue, if_neg (by omega), Nat.add_sub_cancel_left]
    have hrange : (List.range size).map (segmentValue r v p n) =
        (List.range n).map (fun i => v * r ^ i) ++
          (List.range (size - n)).map fun i => p * r ^ i := by
      rw [← hsecond, ← hfirst, ← List.map_append, ← List.range_add, hsize]
    rw [if_pos hpad, hrange, generateSequence, if_neg (by simp)]
    simp
  · have hsize : n = size := by omega
    subst hsize
    rw [if_neg hpad, hfirst, generateSequence, if_neg (by simp)]
    simp

theorem evaluate_interpolate_segments {j : Nat} (hj : j < domain.size) :
    (domain.interpolate ((List.range domain.size).map (segmentValue r v p n))).evaluate
      (domain.element j) = segmentValue r v p n j := by
  rw [domain.evaluate_interpolate _ hj, EvaluationDomain.resize_getD_of_lt hj,
    List.getD_eq_getElem _ _ (by simpa using hj), List.getElem_map, List.getElem_range]

omit [Field F] [DecidableEq F] in
theorem segments_length (size : Nat) :
    (segments size v p n).1.length = (segments size v p n).2.length := by
  rw [segments]
  split
  · rfl
  · rfl

omit [Field F] [DecidableEq F] in
theorem segments_pos (size : Nat) (hpos : 0 < n) : ∀ c ∈ (segments size v p n).2, 0 < c := by
  rw [segments]
  split
  · rename_i hpad
    simp only [List.forall_mem_cons, List.not_mem_nil, false_implies, implies_true, and_true]
    exact ⟨hpos, hpad⟩
  · simpa using hpos

omit [Field F] [DecidableEq F] in
theorem segments_sum {size : Nat} (hn : n ≤ size) : (segments size v p n).2.sum = size := by
  rw [segments]
  split
  · rw [List.sum_cons, List.sum_singleton]
    omega
  · rw [List.sum_singleton]
    omega

omit [DecidableEq F] in
theorem segments_terms (hn : n ≤ domain.size) {f : DensePolynomial F} :
    domain.elements.map f.evaluate =
        ((segments domain.size v p n).1.zip (segments domain.size v p n).2).flatMap
          (fun e => terms r e.1 e.2) ↔
      ∀ j < domain.size, f.evaluate (domain.element j) = segmentValue r v p n j := by
  have hgenerated := generateSequence_eq (r := r) (segments_length domain.size)
    (ne_nil_of_sum (segments_length domain.size) (segments_sum (v := v) (p := p) hn))
  rw [generateSequence_segments hn, Except.ok.injEq] at hgenerated
  rw [← hgenerated, EvaluationDomain.elements, List.map_map, List.map_inj_left]
  simp only [List.mem_range, Function.comp_apply]

end Segments

/-! ### The sub-protocols -/

section Checks

variable (setup : IdealSetup F R) {domain : EvaluationDomain F} {bound : Option Nat}
  {f_commit g_commit h_commit : LabeledCommitment (DensePolynomial F)} {proof : ZeroOverK.Proof F}

theorem verify_square_iff : (idealScheme setup).verifyZeroOverK proof [f_commit, g_commit] bound
      (pairVO CombineFunction.squareCheck) domain = .ok () ↔ ∀ x ∈ domain.elements,
        f_commit.commitment.evaluate x =
          g_commit.commitment.evaluate x * g_commit.commitment.evaluate x := by
  rw [verifyZeroOverK_eq_ok_iff]
  refine (pairVO_vanishesOn_iff (by rfl) (by rfl)).trans ?_
  simp only [CombineFunction.squareCheck, CombineFunction.value, List.getD_cons_succ,
    List.getD_cons_zero, sub_eq_zero]

theorem verify_equality_iff : (idealScheme setup).verifyZeroOverK proof [f_commit, g_commit] bound
      (pairVO CombineFunction.equalityCheck) domain = .ok () ↔ ∀ x ∈ domain.elements,
        f_commit.commitment.evaluate x = g_commit.commitment.evaluate x := by
  rw [verifyZeroOverK_eq_ok_iff]
  refine (pairVO_vanishesOn_iff (by rfl) (by rfl)).trans ?_
  simp only [CombineFunction.equalityCheck, CombineFunction.value, List.getD_cons_succ,
    List.getD_cons_zero, sub_eq_zero]

theorem verify_zeroProduct_iff : (idealScheme setup).verifyZeroOverK proof [f_commit, g_commit] bound
      (pairVO CombineFunction.zeroProductCheck) domain = .ok () ↔ ∀ x ∈ domain.elements,
        f_commit.commitment.evaluate x * g_commit.commitment.evaluate x = 0 := by
  rw [verifyZeroOverK_eq_ok_iff]
  refine (pairVO_vanishesOn_iff (by rfl) (by rfl)).trans ?_
  simp only [CombineFunction.zeroProductCheck, CombineFunction.value, List.getD_cons_succ,
    List.getD_cons_zero]

theorem verify_inverse_iff : (idealScheme setup).verifyZeroOverK proof [f_commit, g_commit] bound
      (pairVO CombineFunction.inverseCheck) domain = .ok () ↔ ∀ x ∈ domain.elements,
        f_commit.commitment.evaluate x * g_commit.commitment.evaluate x = 1 := by
  rw [verifyZeroOverK_eq_ok_iff]
  refine (pairVO_vanishesOn_iff (by rfl) (by rfl)).trans ?_
  simp only [CombineFunction.inverseCheck, CombineFunction.value, List.getD_cons_succ,
    List.getD_cons_zero, sub_eq_zero]

theorem verify_abcProduct_iff : (idealScheme setup).verifyZeroOverK proof
      [f_commit, g_commit, h_commit] bound (tripleVO CombineFunction.abcProductCheck) domain =
        .ok () ↔ ∀ x ∈ domain.elements, f_commit.commitment.evaluate x =
          g_commit.commitment.evaluate x * h_commit.commitment.evaluate x := by
  rw [verifyZeroOverK_eq_ok_iff]
  refine (tripleVO_vanishesOn_iff (by rfl) (by rfl)).trans ?_
  simp only [CombineFunction.abcProductCheck, CombineFunction.value, List.getD_cons_succ,
    List.getD_cons_zero, sub_eq_zero]

omit [DecidableEq F] in
theorem newVO_pair (combine : CombineFunction F) : newVO [0, 1] [1, 1] combine = .ok (pairVO combine) :=
  newVO_eq_ok combine (by rfl) (by rfl)

omit [DecidableEq F] in
theorem newVO_triple (combine : CombineFunction F) :
    newVO [0, 1, 2] [1, 1, 1] combine = .ok (tripleVO combine) :=
  newVO_eq_ok combine (by rfl) (by rfl)

theorem NonZeroOverK.verify_ideal_iff {c : DensePolynomial F}
    {proof : NonZeroOverK.Proof (DensePolynomial F) (ZeroOverK.Proof F)} :
    NonZeroOverK.verify (idealScheme setup) domain c bound proof = .ok () ↔
      ∀ x ∈ domain.elements, c.evaluate x * proof.gCommit.evaluate x = 1 := by
  rw [NonZeroOverK.verify, newVO_pair, ok_bind]
  exact verify_inverse_iff setup

end Checks

section GeoSeq

variable (setup : IdealSetup F R) {domain : EvaluationDomain F} {r v p : F} {n : Nat}
  {bound : Option Nat}

/-- The test of a sequence and its padding accepts exactly their values. -/
theorem GeoSeqTest.verify_ideal_iff (hpos : 0 < n) (hn : n ≤ domain.size)
    {c : LabeledCommitment (DensePolynomial F)} {proof : GeoSeqTest.Proof (ZeroOverK.Proof F) Unit} :
    GeoSeqTest.verify (idealScheme setup) r (segments domain.size v p n).1
        (segments domain.size v p n).2 domain c bound proof = .ok () ↔
      ∀ j < domain.size, c.commitment.evaluate (domain.element j) = segmentValue r v p n j := by
  rw [GeoSeqTest.verify_iff_values setup (segments_length domain.size)
    (segments_pos domain.size hpos) (segments_sum hn), segments_terms hn]

end GeoSeq

section SMinusOne

variable (setup : IdealSetup F R)

theorem aggregate_sMinusOne_verifier (s : DensePolynomial F) (bound : Option Nat) :
    aggregateCommitments (idealScheme setup)
        [⟨"s", s, bound⟩, commitTo (DLComparison.onePoly bound)] none
        DLComparison.sMinusOneLinearCombination =
      .ok (⟨"s_minus_one", 0 + s.scale 1 + (DLComparison.onePoly bound).polynomial.scale (-1),
        bound⟩, ()) := by
  have hone : commitmentOf [⟨"s", s, bound⟩, commitTo (DLComparison.onePoly bound)] "one" =
      some (commitTo (DLComparison.onePoly bound)) := rfl
  have hs : commitmentOf [⟨"s", s, bound⟩, commitTo (DLComparison.onePoly bound)] "s" =
      some ⟨"s", s, bound⟩ := rfl
  refine aggregateCommitments_pair rfl (fun _ _ _ => rfl) ?_ ?_ hs hone
  · intro rands h
    cases h
  · simp [commitTo, DLComparison.onePoly]

theorem evaluate_combination (p q : DensePolynomial F) (c c' x : F) :
    (0 + p.scale c + q.scale c').evaluate x = c * p.evaluate x + c' * q.evaluate x := by
  rw [DensePolynomial.evaluate_add, DensePolynomial.evaluate_add, DensePolynomial.evaluate_scale,
    DensePolynomial.evaluate_scale, DensePolynomial.evaluate_zero, zero_add]

end SMinusOne

/-! ### The verifiers of the ideal model -/

section Agreement

variable (setup : IdealSetup F R) {roots : ProofOfFunctionRelation.SquareRootField F}
  {domain domain_k domain_h : EvaluationDomain F} {bound : Option Nat} {r : F}

def DLComparison.Proof.polynomials
    (proof : DLComparison.Proof (DensePolynomial F) (ZeroOverK.Proof F) Unit) :
    ProofOfFunctionRelation.DLComparison.Proof F where
  s := proof.sCommit
  fPrime := proof.fPrimeCommit
  gPrime := proof.gPrimeCommit
  sPrime := proof.sPrimeCommit
  h := proof.hCommit
  nzkFPrime := proof.nzkFPrimeProof.gCommit
  nzkGPrime := proof.nzkGPrimeProof.gCommit
  nzkSPrime := proof.nzkSPrimeProof.gCommit
  nzkSMinusOne := proof.nzkSMinusOneProof.gCommit

def TStrictlyLowerTriangular.Proof.polynomials
    (proof : TStrictlyLowerTriangular.Proof (DensePolynomial F) (ZeroOverK.Proof F) Unit) :
    ProofOfFunctionRelation.TStrictlyLowerTriangular.Proof F where
  h := proof.hCommit
  dlProof := proof.dlProof.polynomials

theorem GeoSeqTest.verify_ideal {values : List F} {lengths : List Nat}
    {c : LabeledCommitment (DensePolynomial F)} {proof : GeoSeqTest.Proof (ZeroOverK.Proof F) Unit} :
    GeoSeqTest.verify (idealScheme setup) r values lengths domain c bound proof = .ok () ↔
      ProofOfFunctionRelation.GeoSeqTest.verify r values lengths domain c.commitment = .ok () := by
  have hvo : ProofOfFunctionRelation.newVO [0, 0] [1, domain.element 1]
      (CombineFunction.geometricSeqCheck r (domain.element 1) lengths) =
      .ok (shiftVO (domain.element 1)
        (CombineFunction.geometricSeqCheck r (domain.element 1) lengths)) :=
    ProofOfFunctionRelation.newVO_eq_ok _ (by rfl) (by rfl)
  rw [GeoSeqTest.verify_iff_checks, ProofOfFunctionRelation.GeoSeqTest.verify, hvo, ok_bind,
    unit_bind_eq_ok_iff, ProofOfFunctionRelation.batchCheck_eq_ok_iff,
    ProofOfFunctionRelation.verifyZeroOverK_eq_ok_iff, and_comm]
  rfl

theorem DLComparison.verify_ideal (hsize : domain_h.size ≤ domain_k.size)
    {f g : LabeledCommitment (DensePolynomial F)}
    {proof : DLComparison.Proof (DensePolynomial F) (ZeroOverK.Proof F) Unit} :
    DLComparison.verifySubProtocols (idealScheme setup) roots domain_k domain_h f g bound proof =
        .ok () ↔
      ProofOfFunctionRelation.DLComparison.verify roots domain_k domain_h f.commitment g.commitment
        proof.polynomials = .ok () := by
  have hsubset : (ProofOfFunctionRelation.SubsetOverK.verify.mapError fun _ =>
      (Error.aborted : Error)) = .ok () := rfl
  have hcommit : (idealScheme setup).commitWithoutRng [DLComparison.onePoly bound] =
      .ok [commitTo (DLComparison.onePoly bound)] := rfl
  have hone : nth [commitTo (DLComparison.onePoly (F := F) bound)] 0 =
      .ok (commitTo (DLComparison.onePoly bound)) := rfl
  have hsMinusOne : ∀ x, (0 + proof.sCommit.scale 1 +
      (DLComparison.onePoly bound).polynomial.scale (-1)).evaluate x =
        proof.sCommit.evaluate x - 1 := by
    intro x
    have hone_value : (DLComparison.onePoly (F := F) bound).polynomial.evaluate x = 1 :=
      DensePolynomial.evaluate_constant 1 x
    rw [evaluate_combination, hone_value]
    ring
  rw [ProofOfFunctionRelation.DLComparison.verify_iff]
  simp only [DLComparison.verifySubProtocols, newVO_pair, newVO_triple, ok_bind, unit_bind_eq_ok_iff,
    verify_square_iff, verify_abcProduct_iff, paddedSequence_eq hsize, hsubset, hcommit, hone,
    aggregate_sMinusOne_verifier]
  rw [bind_eq_ok_iff]
  simp only [need_eq_ok_iff, unit_bind_eq_ok_iff, GeoSeqTest.verify_ideal,
    NonZeroOverK.verify_ideal_iff, hsMinusOne]
  rfl

variable {FS : Type} [FiatShamirRng FS] {t : Nat}
  {row col : LabeledCommitment (DensePolynomial F)}

theorem TStrictlyLowerTriangular.verify_ideal (ht : t ≤ domain_h.size)
    (hsize : domain_h.size ≤ domain_k.size)
    {proof : TStrictlyLowerTriangular.Proof (DensePolynomial F) (ZeroOverK.Proof F) Unit}
    {fs_rng : FS} :
    (TStrictlyLowerTriangular.verify (idealScheme setup) roots t domain_k domain_h row col bound proof
        fs_rng).1 = .ok () ↔
      ProofOfFunctionRelation.TStrictlyLowerTriangular.verify roots t domain_k domain_h
        row.commitment col.commitment proof.polynomials = .ok () := by
  have hsub : usizeSub domain_h.size t = .ok (domain_h.size - t) := if_pos ht
  have hsubset : (ProofOfFunctionRelation.SubsetOverK.verify.mapError fun _ =>
      (Error.aborted : Error)) = .ok () := rfl
  have hlength : domain_h.size - t ≤ domain_k.size := by omega
  have hsequence : TStrictlyLowerTriangular.verifySequence (idealScheme setup) t domain_k domain_h bound
      proof = .ok () ↔ ProofOfFunctionRelation.GeoSeqTest.verify (domain_h.element 1)
        (segments domain_k.size (domain_h.element t) 0 (domain_h.size - t)).1
        (segments domain_k.size (domain_h.element t) 0 (domain_h.size - t)).2 domain_k proof.hCommit =
          .ok () := by
    simp only [TStrictlyLowerTriangular.verifySequence, hsub, ok_bind, paddedSequence_eq hlength,
      unit_bind_eq_ok_iff, hsubset, and_true, GeoSeqTest.verify_ideal]
  have hlogs : DLComparison.verifySubProtocols (idealScheme setup) roots domain_k domain_h
      (row.bounded bound) (col.bounded bound) bound proof.dlProof = .ok () ↔ _ :=
    DLComparison.verify_ideal setup hsize
  rw [ProofOfFunctionRelation.TStrictlyLowerTriangular.verify_iff]
  unfold TStrictlyLowerTriangular.verify
  cases hcase : TStrictlyLowerTriangular.verifySequence (idealScheme setup) t domain_k domain_h bound
    proof with
  | error e =>
    rw [hcase] at hsequence
    constructor
    · intro h
      cases h
    · intro h
      cases hsequence.mpr h.1
  | ok u =>
    rw [hcase] at hsequence
    have hfirst := hsequence.mp rfl
    exact hlogs.trans ⟨fun h => ⟨hfirst, h⟩, fun h => h.2⟩

/-- Over ideal commitments, too, an accepted proof says no more than that no entry lies on the
diagonal. -/
theorem TStrictlyLowerTriangular.accepts_ideal_iff {delta : F}
    (hdelta : IsPrimitiveRoot delta (2 * domain_h.size)) (ht : t ≤ domain_h.size)
    (hsize : domain_h.size ≤ domain_k.size)
    (hrow : ∀ x ∈ domain_k.elements, row.commitment.evaluate x ∈ domain_h.elements)
    (hcol : ∀ x ∈ domain_k.elements, col.commitment.evaluate x ∈ domain_h.elements) (fs_rng : FS) :
    (∃ proof, (TStrictlyLowerTriangular.verify (idealScheme setup) roots t domain_k domain_h row col
        bound proof fs_rng).1 = .ok ()) ↔
      ∀ x ∈ domain_k.elements, row.commitment.evaluate x ≠ col.commitment.evaluate x := by
  have haccepts : (∃ proof, ProofOfFunctionRelation.TStrictlyLowerTriangular.verify roots t domain_k
      domain_h row.commitment col.commitment proof = .ok ()) ↔ _ :=
    ProofOfFunctionRelation.TStrictlyLowerTriangular.accepts_iff hdelta hsize hrow hcol
  rw [← haccepts]
  constructor
  · rintro ⟨proof, hproof⟩
    exact ⟨proof.polynomials, (TStrictlyLowerTriangular.verify_ideal setup ht hsize).mp hproof⟩
  · rintro ⟨⟨h, p⟩, hproof⟩
    let z : ZeroOverK.Proof F := ⟨0, 0, [], []⟩
    refine ⟨⟨h, ⟨p.s, p.fPrime, p.gPrime, p.sPrime, p.h, z, z, z, z, ⟨z, ()⟩, ⟨p.nzkFPrime, z⟩,
      ⟨p.nzkGPrime, z⟩, ⟨p.nzkSPrime, z⟩, ⟨p.nzkSMinusOne, z⟩⟩, ⟨z, ()⟩⟩, ?_⟩
    exact (TStrictlyLowerTriangular.verify_ideal setup ht hsize).mpr hproof

end Agreement

end Lootbox.FunctionRelation

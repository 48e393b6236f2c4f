import Lootbox.Commitment.FunctionRelationCompleteness

/-!
# The diagonal test

The values of the two auxiliary sequences are forced by their tests, and with them the rows,
the columns and the places of the values. The prover succeeds on every diagonal.
-/

namespace Lootbox.FunctionRelation

open ZeroOverK

variable {F R : Type} [Field F] [DecidableEq F]

/-- The entries are the diagonal from row `t` on, and behind them zeros in row and column 0. -/
structure EncodesDiagonal (domain_k domain_h : EvaluationDomain F) (t : Nat)
    (row col val : DensePolynomial F) : Prop where
  rows : ∀ j < domain_k.size, row.evaluate (domain_k.element j) =
    if j < domain_h.size - t then domain_h.element (t + j) else 1
  columns : ∀ x ∈ domain_k.elements, row.evaluate x = col.evaluate x
  values : ∀ j < domain_k.size,
    (val.evaluate (domain_k.element j) = 0 ↔ ¬ j < domain_h.size - t)

/-! ### The combinations of the commitments -/

section Combinations

variable (setup : IdealSetup F R) {val_m : LabeledPolynomial F} {bound : Option Nat}

theorem aggregate_h {h1 h2 : LabeledPolynomial F} (hlabel1 : h1.label = "h1")
    (hlabel2 : h2.label = "h2") (h1b : h1.degreeBound = bound) (h2b : h2.degreeBound = bound) :
    aggregateCommitments (idealScheme setup) [commitTo h1, commitTo h2] (some [(), ()])
        TDiag.hLinearCombination =
      .ok (⟨"h", 0 + h1.polynomial.scale 1 + h2.polynomial.scale 1, bound⟩, ()) ∧
    aggregateCommitments (idealScheme setup) [commitTo h1, commitTo h2] none
        TDiag.hLinearCombination =
      .ok (⟨"h", 0 + h1.polynomial.scale 1 + h2.polynomial.scale 1, bound⟩, ()) := by
  have hfirst : commitmentOf [commitTo h1, commitTo h2] "h1" = some (commitTo h1) := by
    simp [commitmentOf, commitTo, hlabel1, hlabel2]
  have hsecond : commitmentOf [commitTo h1, commitTo h2] "h2" = some (commitTo h2) := by
    simp [commitmentOf, commitTo, hlabel1, hlabel2]
  have hbounds : ∀ c ∈ [commitTo h1, commitTo h2], c.degreeBound = bound := by
    simp [commitTo, h1b, h2b]
  constructor
  · refine aggregateCommitments_pair rfl (fun _ _ _ => rfl) ?_ hbounds hfirst hsecond
    intro rands h
    cases h
    rfl
  · refine aggregateCommitments_pair rfl (fun _ _ _ => rfl) ?_ hbounds hfirst hsecond
    intro rands h
    cases h

theorem aggregate_val {h2 : LabeledPolynomial F} (hlabel2 : h2.label = "h2")
    (hlabel : val_m.label ≠ "h2") (h2b : h2.degreeBound = bound) (hvb : val_m.degreeBound = bound) :
    aggregateCommitments (idealScheme setup) [commitTo h2, commitTo val_m] (some [(), ()])
        (TDiag.valMPlusH2LinearCombination val_m.label) =
      .ok (⟨"val_plus_h2", 0 + val_m.polynomial.scale 1 + h2.polynomial.scale 1, bound⟩, ()) ∧
    aggregateCommitments (idealScheme setup) [commitTo val_m, commitTo h2] none
        (TDiag.valMPlusH2LinearCombination val_m.label) =
      .ok (⟨"val_plus_h2", 0 + val_m.polynomial.scale 1 + h2.polynomial.scale 1, bound⟩, ()) := by
  have hbeq : (val_m.label == "h2") = false := beq_eq_false_iff_ne.mpr hlabel
  have hbeq' : ("h2" == val_m.label) = false := beq_eq_false_iff_ne.mpr hlabel.symm
  constructor
  · have hfirst : commitmentOf [commitTo h2, commitTo val_m] val_m.label = some (commitTo val_m) := by
      simp [commitmentOf, commitTo]
    have hsecond : commitmentOf [commitTo h2, commitTo val_m] "h2" = some (commitTo h2) := by
      simp [commitmentOf, commitTo, hlabel2, hbeq]
    refine aggregateCommitments_pair rfl (fun _ _ _ => rfl) ?_ ?_ hfirst hsecond
    · intro rands h
      cases h
      rfl
    · simp [commitTo, h2b, hvb]
  · have hfirst : commitmentOf [commitTo val_m, commitTo h2] val_m.label = some (commitTo val_m) := by
      simp [commitmentOf, commitTo, hlabel2, hbeq']
    have hsecond : commitmentOf [commitTo val_m, commitTo h2] "h2" = some (commitTo h2) := by
      simp [commitmentOf, commitTo, hlabel2]
    refine aggregateCommitments_pair rfl (fun _ _ _ => rfl) ?_ ?_ hfirst hsecond
    · intro rands h
      cases h
    · simp [commitTo, h2b, hvb]

end Combinations

/-! ### What the verifier accepts -/

section TDiag

variable (setup : IdealSetup F R) {domain_k domain_h : EvaluationDomain F} {t : Nat}
  {bound : Option Nat} {row_m col_m val_m : LabeledCommitment (DensePolynomial F)}
  {proof : TDiag.Proof (DensePolynomial F) (ZeroOverK.Proof F) Unit}

/-- What the proof of the diagonal test has to satisfy on `K`. -/
structure TDiag.Checks (domain_k domain_h : EvaluationDomain F) (t : Nat)
    (row col val h1 h2 g : DensePolynomial F) : Prop where
  h1Values : ∀ j < domain_k.size, h1.evaluate (domain_k.element j) =
    segmentValue (domain_h.element 1) (domain_h.element t) 0 (domain_h.size - t) j
  h2Values : ∀ j < domain_k.size, h2.evaluate (domain_k.element j) =
    segmentValue 1 0 1 (domain_h.size - t) j
  rows : ∀ x ∈ domain_k.elements, h1.evaluate x + h2.evaluate x = row.evaluate x
  columns : ∀ x ∈ domain_k.elements, row.evaluate x = col.evaluate x
  products : ∀ x ∈ domain_k.elements, val.evaluate x * h2.evaluate x = 0
  inverses : ∀ x ∈ domain_k.elements, (val.evaluate x + h2.evaluate x) * g.evaluate x = 1

theorem TDiag.verify_ideal_iff (ht : t < domain_h.size) (hsize : domain_h.size ≤ domain_k.size)
    (hlabel : val_m.label ≠ "h2") :
    TDiag.verify (idealScheme setup) t row_m col_m val_m bound domain_h domain_k domain_h.size proof =
        .ok () ↔
      TDiag.Checks domain_k domain_h t row_m.commitment col_m.commitment val_m.commitment
        proof.h1Commit proof.h2Commit proof.valPlusH2Proof.gCommit := by
  have hlength : domain_h.size - t ≤ domain_k.size := by omega
  have hpos : 0 < domain_h.size - t := by omega
  have hsub : usizeSub domain_h.size t = .ok (domain_h.size - t) := if_pos (by omega)
  have hsum : aggregateCommitments (idealScheme setup)
      [⟨"h1", proof.h1Commit, bound⟩, ⟨"h2", proof.h2Commit, bound⟩] none TDiag.hLinearCombination =
      .ok (⟨"h", 0 + proof.h1Commit.scale 1 + proof.h2Commit.scale 1, bound⟩, ()) := by
    let h1 : LabeledPolynomial F := ⟨"h1", proof.h1Commit, bound⟩
    let h2 : LabeledPolynomial F := ⟨"h2", proof.h2Commit, bound⟩
    exact (aggregate_h setup (rfl : h1.label = "h1") (rfl : h2.label = "h2")
      (rfl : h1.degreeBound = bound) (rfl : h2.degreeBound = bound)).2
  have hval : aggregateCommitments (idealScheme setup)
      [⟨val_m.label, val_m.commitment, bound⟩, ⟨"h2", proof.h2Commit, bound⟩] none
        (TDiag.valMPlusH2LinearCombination val_m.label) =
      .ok (⟨"val_plus_h2", 0 + val_m.commitment.scale 1 + proof.h2Commit.scale 1, bound⟩, ()) := by
    let val : LabeledPolynomial F := ⟨val_m.label, val_m.commitment, bound⟩
    let h2 : LabeledPolynomial F := ⟨"h2", proof.h2Commit, bound⟩
    exact (aggregate_val setup (rfl : h2.label = "h2") (hlabel : val.label ≠ "h2")
      (rfl : h2.degreeBound = bound) (rfl : val.degreeBound = bound)).2
  simp only [TDiag.verify, hsub, ok_bind, paddedSequence_eq hlength, unit_bind_eq_ok_iff, newVO_pair,
    LabeledCommitment.bounded, hsum, hval, verify_equality_iff, verify_zeroProduct_iff,
    GeoSeqTest.verify_ideal_iff setup hpos hlength, NonZeroOverK.verify_ideal_iff,
    evaluate_combination, one_mul]
  constructor
  · rintro ⟨hh1, hh2, hrows, hcolumns, hproducts, hinverses⟩
    exact ⟨hh1, hh2, hrows, hcolumns, hproducts, hinverses⟩
  · rintro ⟨hh1, hh2, hrows, hcolumns, hproducts, hinverses⟩
    exact ⟨hh1, hh2, hrows, hcolumns, hproducts, hinverses⟩

omit [DecidableEq F] in
theorem segmentValue_add (domain_h : EvaluationDomain F) (t j : Nat) :
    segmentValue (domain_h.element 1) (domain_h.element t) 0 (domain_h.size - t) j +
        segmentValue 1 0 1 (domain_h.size - t) j =
      if j < domain_h.size - t then domain_h.element (t + j) else 1 := by
  rw [segmentValue, segmentValue]
  by_cases hin : j < domain_h.size - t
  · rw [if_pos hin, if_pos hin, if_pos hin, zero_mul, add_zero,
      ProofOfFunctionRelation.element_one_pow, EvaluationDomain.element, EvaluationDomain.element,
      EvaluationDomain.element, pow_add]
  · rw [if_neg hin, if_neg hin, if_neg hin, zero_mul, zero_add, one_pow, mul_one]

omit [DecidableEq F] in
theorem segmentValue_indicator (n j : Nat) :
    segmentValue (1 : F) 0 1 n j = if j < n then 0 else 1 := by
  rw [segmentValue, one_pow, one_pow, zero_mul, one_mul]

section Checks

variable {row col val h1 h2 g : DensePolynomial F}

omit [DecidableEq F] in
theorem TDiag.Checks.encodesDiagonal (h : TDiag.Checks domain_k domain_h t row col val h1 h2 g) :
    EncodesDiagonal domain_k domain_h t row col val := by
  have hh2 : ∀ j < domain_k.size, h2.evaluate (domain_k.element j) =
      if j < domain_h.size - t then 0 else 1 := by
    intro j hj
    rw [h.h2Values j hj, segmentValue_indicator]
  constructor
  · intro j hj
    rw [← h.rows _ (domain_k.element_mem j), h.h1Values j hj, h.h2Values j hj, segmentValue_add]
  · exact h.columns
  · intro j hj
    have hproduct := h.products _ (domain_k.element_mem j)
    have hinverse := h.inverses _ (domain_k.element_mem j)
    rw [hh2 j hj] at hproduct hinverse
    by_cases hin : j < domain_h.size - t
    · rw [if_pos hin, add_zero] at hinverse
      refine ⟨fun hzero => ?_, fun hout => absurd hin hout⟩
      rw [hzero, zero_mul] at hinverse
      exact absurd hinverse zero_ne_one
    · rw [if_neg hin, mul_one] at hproduct
      exact ⟨fun _ => hin, fun _ => hproduct⟩

section Sequences

variable (h : EncodesDiagonal domain_k domain_h t row col val)
  (hh1 : ∀ j < domain_k.size, h1.evaluate (domain_k.element j) =
    segmentValue (domain_h.element 1) (domain_h.element t) 0 (domain_h.size - t) j)
  (hh2 : ∀ j < domain_k.size, h2.evaluate (domain_k.element j) =
    segmentValue 1 0 1 (domain_h.size - t) j)

include h hh2

omit [DecidableEq F] in
include hh1 in
theorem EncodesDiagonal.rows_eq {x : F} (hx : x ∈ domain_k.elements) :
    h1.evaluate x + h2.evaluate x = row.evaluate x := by
  obtain ⟨j, hj, rfl⟩ := List.mem_map.mp hx
  rw [List.mem_range] at hj
  rw [hh1 j hj, hh2 j hj, segmentValue_add, h.rows j hj]

omit [DecidableEq F] in
theorem EncodesDiagonal.product_eq_zero {x : F} (hx : x ∈ domain_k.elements) :
    val.evaluate x * h2.evaluate x = 0 := by
  obtain ⟨j, hj, rfl⟩ := List.mem_map.mp hx
  rw [List.mem_range] at hj
  rw [hh2 j hj, segmentValue_indicator]
  by_cases hin : j < domain_h.size - t
  · rw [if_pos hin, mul_zero]
  · rw [(h.values j hj).mpr hin, zero_mul]

omit [DecidableEq F] in
theorem EncodesDiagonal.sum_ne_zero {x : F} (hx : x ∈ domain_k.elements) :
    val.evaluate x + h2.evaluate x ≠ 0 := by
  obtain ⟨j, hj, rfl⟩ := List.mem_map.mp hx
  rw [List.mem_range] at hj
  rw [hh2 j hj, segmentValue_indicator]
  by_cases hin : j < domain_h.size - t
  · rw [if_pos hin, add_zero]
    exact fun hzero => (h.values j hj).mp hzero hin
  · rw [if_neg hin, (h.values j hj).mpr hin, zero_add]
    exact one_ne_zero

end Sequences

theorem EncodesDiagonal.exists_checks (h : EncodesDiagonal domain_k domain_h t row col val) :
    ∃ h1 h2 g, TDiag.Checks domain_k domain_h t row col val h1 h2 g := by
  let h1 := domain_k.interpolate ((List.range domain_k.size).map
    (segmentValue (domain_h.element 1) (domain_h.element t) 0 (domain_h.size - t)))
  let h2 := domain_k.interpolate ((List.range domain_k.size).map
    (segmentValue (1 : F) 0 1 (domain_h.size - t)))
  let g := domain_k.interpolate (domain_k.elements.map fun x => (val.evaluate x + h2.evaluate x)⁻¹)
  have hh1 : ∀ j < domain_k.size, h1.evaluate (domain_k.element j) =
      segmentValue (domain_h.element 1) (domain_h.element t) 0 (domain_h.size - t) j :=
    fun j hj => evaluate_interpolate_segments hj
  have hh2 : ∀ j < domain_k.size, h2.evaluate (domain_k.element j) =
      segmentValue 1 0 1 (domain_h.size - t) j := fun j hj => evaluate_interpolate_segments hj
  refine ⟨h1, h2, g, hh1, hh2, fun x hx => h.rows_eq hh1 hh2 hx, h.columns,
    fun x hx => h.product_eq_zero hh2 hx, ?_⟩
  intro x hx
  have hg : g.evaluate x = (val.evaluate x + h2.evaluate x)⁻¹ :=
    domain_k.evaluate_interpolate_map _ hx
  rw [hg]
  exact mul_inv_cancel₀ (h.sum_ne_zero hh2 hx)

end Checks

theorem TDiag.exists_verify_ideal_iff (ht : t < domain_h.size)
    (hsize : domain_h.size ≤ domain_k.size) (hlabel : val_m.label ≠ "h2") :
    (∃ proof, TDiag.verify (idealScheme setup) t row_m col_m val_m bound domain_h domain_k
        domain_h.size proof = .ok ()) ↔
      EncodesDiagonal domain_k domain_h t row_m.commitment col_m.commitment val_m.commitment := by
  constructor
  · rintro ⟨proof, hproof⟩
    exact ((TDiag.verify_ideal_iff setup ht hsize hlabel).mp hproof).encodesDiagonal
  · intro h
    obtain ⟨h1, h2, g, hchecks⟩ := h.exists_checks
    let zero_over_k_proof : ZeroOverK.Proof F := ⟨0, 0, [], []⟩
    refine ⟨⟨h1, h2, ⟨zero_over_k_proof, ()⟩, ⟨zero_over_k_proof, ()⟩, zero_over_k_proof,
      zero_over_k_proof, zero_over_k_proof, ⟨g, zero_over_k_proof⟩⟩, ?_⟩
    exact (TDiag.verify_ideal_iff setup ht hsize hlabel).mpr hchecks

/-- The test accepts some proof exactly for a diagonal from row `t` on, with zeros in row and
column 0 behind it. The labels are those of the index. -/
theorem TDiag.exists_verify_iff (row col val : DensePolynomial F) (ht : t < domain_h.size)
    (hsize : domain_h.size ≤ domain_k.size) :
    (∃ proof, TDiag.verify (idealScheme setup) t ⟨"c_row", row, bound⟩ ⟨"c_col", col, bound⟩
        ⟨"c_val", val, bound⟩ bound domain_h domain_k domain_h.size proof = .ok ()) ↔
      EncodesDiagonal domain_k domain_h t row col val :=
  TDiag.exists_verify_ideal_iff setup ht hsize (show "c_val" ≠ "h2" by decide)

end TDiag

/-! ### The prover -/

section Complete

variable (setup : IdealSetup F R) {domain_k domain_h : EvaluationDomain F}
  {row_m col_m val_m : LabeledPolynomial F} {bound : Option Nat} {t : Nat}

/-- The row sequence of the diagonal, which the prover commits to as `h1`. -/
def TDiag.rowSequence (domain_k domain_h : EvaluationDomain F) (t : Nat) (bound : Option Nat) :
    LabeledPolynomial F :=
  ⟨"h1", domain_k.interpolate ((List.range domain_k.size).map
    (segmentValue (domain_h.element 1) (domain_h.element t) 0 (domain_h.size - t))), bound⟩

/-- The indicator of the places behind the diagonal, committed to as `h2`. -/
def TDiag.indicator (domain_k domain_h : EvaluationDomain F) (t : Nat) (bound : Option Nat) :
    LabeledPolynomial F :=
  ⟨"h2", domain_k.interpolate ((List.range domain_k.size).map
    (segmentValue 1 0 1 (domain_h.size - t))), bound⟩

theorem TDiag.evaluate_rowSequence {j : Nat} (hj : j < domain_k.size) :
    (TDiag.rowSequence domain_k domain_h t bound).polynomial.evaluate (domain_k.element j) =
      segmentValue (domain_h.element 1) (domain_h.element t) 0 (domain_h.size - t) j :=
  evaluate_interpolate_segments hj

theorem TDiag.evaluate_indicator {j : Nat} (hj : j < domain_k.size) :
    (TDiag.indicator domain_k domain_h t bound).polynomial.evaluate (domain_k.element j) =
      segmentValue 1 0 1 (domain_h.size - t) j :=
  evaluate_interpolate_segments hj

section SubProofs

variable {h1 h2 : LabeledPolynomial F}

variable (domain_k h1) in
/-- The proofs that the rows are `h1 + h2`, that rows and columns agree, and that the values
vanish where `h2` does not. -/
theorem TDiag.exists_zeroProofs (hrb : row_m.degreeBound = bound) (hcb : col_m.degreeBound = bound)
    (hvb : val_m.degreeBound = bound) (h2b : h2.degreeBound = bound)
    (hsupported : checkSupportedDegree bound setup.supportedDegree = .ok ()) (rng : R) :
    ∃ p₁ p₂ p₃ rng₁ rng₂ rng₃,
      (idealScheme setup).proveZeroOverK [⟨"h", h1.polynomial + h2.polynomial, bound⟩, row_m]
        [⟨"h", 0 + h1.polynomial.scale 1 + h2.polynomial.scale 1, bound⟩, commitTo row_m] [(), ()] bound
        (pairVO CombineFunction.equalityCheck) domain_k rng = .ok (p₁, rng₁) ∧
      (idealScheme setup).proveZeroOverK [row_m, col_m] [commitTo row_m, commitTo col_m] [(), ()] bound
        (pairVO CombineFunction.equalityCheck) domain_k rng₁ = .ok (p₂, rng₂) ∧
      (idealScheme setup).proveZeroOverK [val_m, h2] [commitTo val_m, commitTo h2] [(), ()] bound
        (pairVO CombineFunction.zeroProductCheck) domain_k rng₂ = .ok (p₃, rng₃) := by
  let sum : LabeledPolynomial F := ⟨"h", h1.polynomial + h2.polynomial, bound⟩
  let sumCommitment : LabeledCommitment (DensePolynomial F) :=
    ⟨"h", 0 + h1.polynomial.scale 1 + h2.polynomial.scale 1, bound⟩
  have hsum : sumCommitment.label = sum.label ∧ sumCommitment.degreeBound = bound := ⟨rfl, rfl⟩
  have hrow : (commitTo row_m).label = row_m.label ∧ (commitTo row_m).degreeBound = bound := ⟨rfl, hrb⟩
  obtain ⟨p₁, rng₁, h₁⟩ : ∃ proof rng', (idealScheme setup).proveZeroOverK [sum, row_m]
      [sumCommitment, commitTo row_m] [(), ()] bound (pairVO CombineFunction.equalityCheck) domain_k
        rng = .ok (proof, rng') := exists_provePair setup rfl rfl hsupported hsum hrow rng
  obtain ⟨p₂, rng₂, h₂⟩ : ∃ proof rng', (idealScheme setup).proveZeroOverK [row_m, col_m]
      [commitTo row_m, commitTo col_m] [(), ()] bound (pairVO CombineFunction.equalityCheck) domain_k
        rng₁ = .ok (proof, rng') := exists_provePair setup rfl rfl hsupported hrow ⟨rfl, hcb⟩ rng₁
  obtain ⟨p₃, rng₃, h₃⟩ : ∃ proof rng', (idealScheme setup).proveZeroOverK [val_m, h2]
      [commitTo val_m, commitTo h2] [(), ()] bound (pairVO CombineFunction.zeroProductCheck) domain_k
        rng₂ = .ok (proof, rng') := exists_provePair setup rfl rfl hsupported ⟨rfl, hvb⟩ ⟨rfl, h2b⟩ rng₂
  exact ⟨p₁, p₂, p₃, rng₁, rng₂, rng₃, h₁, h₂, h₃⟩

theorem TDiag.exists_inverseProof (hval : val_m.polynomial.coeffs.length ≤ domain_k.size)
    (hh2 : h2.polynomial.coeffs.length ≤ domain_k.size)
    (hne : ∀ x ∈ domain_k.elements, val_m.polynomial.evaluate x + h2.polynomial.evaluate x ≠ 0)
    (hsupported : checkSupportedDegree bound setup.supportedDegree = .ok ()) (rng : R) :
    ∃ proof rng', NonZeroOverK.prove (idealScheme setup) domain_k
        ⟨"val_plus_h2", val_m.polynomial + h2.polynomial, bound⟩
        ⟨"val_plus_h2", 0 + val_m.polynomial.scale 1 + h2.polynomial.scale 1, bound⟩ () rng =
          .ok (proof, rng') ∧
      ∀ x ∈ domain_k.elements, (val_m.polynomial.evaluate x + h2.polynomial.evaluate x) *
        proof.gCommit.evaluate x = 1 := by
  let sum : LabeledPolynomial F := ⟨"val_plus_h2", val_m.polynomial + h2.polynomial, bound⟩
  let sumCommitment : LabeledCommitment (DensePolynomial F) :=
    ⟨"val_plus_h2", 0 + val_m.polynomial.scale 1 + h2.polynomial.scale 1, bound⟩
  have hsum : ∀ x, sum.polynomial.evaluate x =
      val_m.polynomial.evaluate x + h2.polynomial.evaluate x :=
    fun x => DensePolynomial.evaluate_add _ _ x
  have hne' : ∀ x ∈ domain_k.elements, sum.polynomial.evaluate x ≠ 0 := by
    intro x hx
    rw [hsum]
    exact hne x hx
  obtain ⟨proof, rng', hprove, hverify⟩ := NonZeroOverK.complete setup sumCommitment
    (DensePolynomial.length_add_le hval hh2) hne' rfl ⟨rfl, rfl⟩ hsupported rng
  refine ⟨proof, rng', hprove, ?_⟩
  intro x hx
  have hinverse := (NonZeroOverK.verify_ideal_iff setup).mp (hverify sum.polynomial fun _ _ => rfl) x hx
  rw [← hsum]
  exact hinverse

end SubProofs

theorem TDiag.complete (ht : t < domain_h.size) (hsize : domain_h.size ≤ domain_k.size)
    (hval : val_m.polynomial.coeffs.length ≤ domain_k.size) (hlabel : val_m.label ≠ "h2")
    (hdiag : EncodesDiagonal domain_k domain_h t row_m.polynomial col_m.polynomial val_m.polynomial)
    (hrb : row_m.degreeBound = bound) (hcb : col_m.degreeBound = bound)
    (hvb : val_m.degreeBound = bound)
    (hsupported : checkSupportedDegree bound setup.supportedDegree = .ok ()) (rng : R) :
    ∃ proof rng', TDiag.prove (idealScheme setup) t row_m col_m val_m (commitTo row_m) (commitTo col_m)
        (commitTo val_m) () () () bound domain_k domain_h domain_h.size rng = .ok (proof, rng') ∧
      TDiag.verify (idealScheme setup) t (commitTo row_m) (commitTo col_m) (commitTo val_m) bound
        domain_h domain_k domain_h.size proof = .ok () := by
  have hlength : domain_h.size - t ≤ domain_k.size := by omega
  have hpos : 0 < domain_h.size - t := by omega
  obtain ⟨h1, hdef1⟩ : ∃ p, p = TDiag.rowSequence domain_k domain_h t bound := ⟨_, rfl⟩
  obtain ⟨h2, hdef2⟩ : ∃ p, p = TDiag.indicator domain_k domain_h t bound := ⟨_, rfl⟩
  have hh1 : ∀ j < domain_k.size, h1.polynomial.evaluate (domain_k.element j) =
      segmentValue (domain_h.element 1) (domain_h.element t) 0 (domain_h.size - t) j := by
    intro j hj
    rw [hdef1, TDiag.evaluate_rowSequence hj]
  have hh2 : ∀ j < domain_k.size, h2.polynomial.evaluate (domain_k.element j) =
      segmentValue 1 0 1 (domain_h.size - t) j := by
    intro j hj
    rw [hdef2, TDiag.evaluate_indicator hj]
  have h1b : h1.degreeBound = bound := by rw [hdef1, TDiag.rowSequence]
  have h2b : h2.degreeBound = bound := by rw [hdef2, TDiag.indicator]
  have h1l : h1.label = "h1" := by rw [hdef1, TDiag.rowSequence]
  have h2l : h2.label = "h2" := by rw [hdef2, TDiag.indicator]
  have hlen2 : h2.polynomial.coeffs.length ≤ domain_k.size := by
    rw [hdef2]
    exact EvaluationDomain.length_interpolate_le _ _
  -- the sub-proofs in the order in which the randomness is used
  obtain ⟨p₁, rng₁, q₁, _⟩ := GeoSeqTest.complete setup hpos hlength hh1 h1b hsupported rng
  obtain ⟨p₂, rng₂, q₂, _⟩ := GeoSeqTest.complete setup hpos hlength hh2 h2b hsupported rng₁
  obtain ⟨p₃, p₄, p₅, rng₃, rng₄, rng₅, q₃, q₄, q₅⟩ :=
    TDiag.exists_zeroProofs setup domain_k h1 hrb hcb hvb h2b hsupported rng₂
  obtain ⟨p₆, rng₆, q₆, hinverses⟩ := TDiag.exists_inverseProof setup hval hlen2
    (fun x hx => hdiag.sum_ne_zero hh2 hx) hsupported rng₅
  refine ⟨⟨h1.polynomial, h2.polynomial, p₁, p₂, p₃, p₄, p₅, p₆⟩, rng₆, ?_, ?_⟩
  · have hle : ¬ t > domain_h.size := by omega
    have hsub : usizeSub domain_h.size t = .ok (domain_h.size - t) := if_pos (by omega)
    have hone : domain_h.element 0 = 1 := pow_zero _
    have hcommit : (idealScheme setup).commit [h1, h2] rng =
        .ok ([commitTo h1, commitTo h2], [(), ()], rng) := rfl
    have hnth0 : nth [commitTo h1, commitTo h2] 0 = .ok (commitTo h1) := rfl
    have hnth1 : nth [commitTo h1, commitTo h2] 1 = .ok (commitTo h2) := rfl
    have hrand0 : nth [(), ()] 0 = .ok () := rfl
    have hrand1 : nth [(), ()] 1 = .ok () := rfl
    have hsum := (aggregate_h setup h1l h2l h1b h2b).1
    have hvals := (aggregate_val setup h2l hlabel h2b hvb).1
    rw [TDiag.rowSequence] at hdef1
    rw [TDiag.indicator] at hdef2
    have hpoly1 := congrArg LabeledPolynomial.polynomial hdef1
    have hpoly2 := congrArg LabeledPolynomial.polynomial hdef2
    dsimp only at hpoly1 hpoly2
    simp only [TDiag.prove, if_neg hle, hsub, hone, paddedSequence_eq hlength,
      generateSequence_segments hlength, ok_bind, ← hdef1, ← hdef2]
    simp only [← hpoly1, ← hpoly2, hcommit, ok_bind, hnth0, hnth1, hrand0, hrand1, q₁, q₂, hsum,
      newVO_pair, q₃, q₄, q₅, hvals, q₆]
    rfl
  · exact (TDiag.verify_ideal_iff setup ht hsize hlabel).mpr ⟨hh1, hh2,
      fun x hx => hdiag.rows_eq hh1 hh2 hx, hdiag.columns,
      fun x hx => hdiag.product_eq_zero hh2 hx, hinverses⟩

end Complete

/-! Over the field of five elements, `H = K = {1, 4}`: the entry of row and column one. -/

section Five

open ProofOfFunctionRelation (domain5)

def setup5 : IdealSetup (ZMod 5) Unit where
  supportedDegree := 2
  coins _ := (fun _ => (0, 0), ⟨(2 : Nat), (2 : Nat), (2 : Nat)⟩, ())
  initializeAndRand _ := (2 : Nat)
  commitmentBytes _ := []
  fieldBytes _ := []

theorem TDiag.exists_verify_entry :
    ∃ proof, TDiag.verify (idealScheme setup5) 1 ⟨"c_row", ⟨[0, 4]⟩, none⟩ ⟨"c_col", ⟨[0, 4]⟩, none⟩
      ⟨"c_val", ⟨[3, 3]⟩, none⟩ none domain5 domain5 domain5.size proof = .ok () :=
  (TDiag.exists_verify_iff setup5 ⟨[0, 4]⟩ ⟨[0, 4]⟩ ⟨[3, 3]⟩ (by decide) le_rfl).mpr
    ⟨by decide, by decide, by decide⟩

end Five

end Lootbox.FunctionRelation

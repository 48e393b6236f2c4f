import Lootbox.Commitment.ProofOfFunctionRelation

/-!
# What the strictly lower triangular test accepts

The subset arguments are placeholders, so nothing ties the square roots to small exponents and
nothing ties the rows to the sequence of the powers from `t` on. What is left is that no entry
lies on the diagonal.
-/

namespace Lootbox.ProofOfFunctionRelation

open ZeroOverK

variable {F : Type} [Field F] [DecidableEq F]

theorem verifyZeroOverK_eq_ok_iff {oracles : List (DensePolynomial F)} {vo : GenericShiftingVO F}
    {domain : EvaluationDomain F} :
    verifyZeroOverK oracles vo domain = .ok () ↔ vo.VanishesOn oracles domain :=
  ite_ok_eq_ok_iff

omit [Field F] [DecidableEq F] in
theorem newVO_eq_ok {mapping_vector : List Nat} {alphas : List F} (combine : CombineFunction F)
    {max_index : Nat} (hlen : alphas.length = mapping_vector.length)
    (hmax : mapping_vector.max? = some max_index) :
    newVO mapping_vector alphas combine =
      .ok ⟨mapping_vector, alphas, combine, max_index, hlen, hmax⟩ := by
  rw [newVO, GenericShiftingVO.new_eq_ok combine hlen hmax]
  rfl

section Vanishing

variable {mapping_vector : List Nat} {alphas : List F} {combine : CombineFunction F}
  {oracles : List (DensePolynomial F)} {domain : EvaluationDomain F} {max_index : Nat}
  (hlen : alphas.length = mapping_vector.length) (hmax : mapping_vector.max? = some max_index)
  (hindex : ∀ index ∈ mapping_vector, index < oracles.length)
  (hterms : combine.termsBelow (mapping_vector.length + 1) = true)

include hindex hterms

theorem verifyZeroOverK_mk_iff :
    verifyZeroOverK oracles ⟨mapping_vector, alphas, combine, max_index, hlen, hmax⟩ domain =
        .ok () ↔
      ∀ x ∈ domain.elements, (combine.value fun i =>
        (x :: (List.zip mapping_vector alphas).map fun (index, alpha) =>
          (oracles.getD index 0).evaluate (alpha * x)).getD i 0) = 0 := by
  rw [verifyZeroOverK_eq_ok_iff, GenericShiftingVO.VanishesOn]
  apply forall_congr'
  intro x
  apply imp_congr_right
  intro _
  rw [GenericShiftingVO.evaluateFromConcreteEvals_eq hindex hterms, Except.ok.injEq]

include hlen hmax

theorem newVO_verify_iff :
    (newVO mapping_vector alphas combine >>= fun vo => verifyZeroOverK oracles vo domain) = .ok () ↔
      ∀ x ∈ domain.elements, (combine.value fun i =>
        (x :: (List.zip mapping_vector alphas).map fun (index, alpha) =>
          (oracles.getD index 0).evaluate (alpha * x)).getD i 0) = 0 := by
  rw [newVO_eq_ok combine hlen hmax, ok_bind]
  exact verifyZeroOverK_mk_iff hlen hmax hindex hterms

end Vanishing

section Checks

variable {domain : EvaluationDomain F} {f g h : DensePolynomial F}

theorem squareCheck_iff :
    (newVO [0, 1] [1, 1] CombineFunction.squareCheck >>= fun vo =>
      verifyZeroOverK [f, g] vo domain) = .ok () ↔
      ∀ x ∈ domain.elements, f.evaluate x = g.evaluate x * g.evaluate x := by
  refine (newVO_verify_iff (by rfl) (by rfl) (by simp) (by rfl)).trans ?_
  simp only [CombineFunction.squareCheck, CombineFunction.value, List.zip_cons_cons,
    List.zip_nil_right, List.map_cons, List.map_nil, List.getD_cons_succ, List.getD_cons_zero,
    one_mul, sub_eq_zero]

theorem abcProductCheck_iff :
    (newVO [0, 1, 2] [1, 1, 1] CombineFunction.abcProductCheck >>= fun vo =>
      verifyZeroOverK [f, g, h] vo domain) = .ok () ↔
      ∀ x ∈ domain.elements, f.evaluate x = g.evaluate x * h.evaluate x := by
  refine (newVO_verify_iff (by rfl) (by rfl) (by simp) (by rfl)).trans ?_
  simp only [CombineFunction.abcProductCheck, CombineFunction.value, List.zip_cons_cons,
    List.zip_nil_right, List.map_cons, List.map_nil, List.getD_cons_succ, List.getD_cons_zero,
    one_mul, sub_eq_zero]

theorem NonZeroOverK.verify_iff :
    NonZeroOverK.verify domain f g = .ok () ↔
      ∀ x ∈ domain.elements, f.evaluate x * g.evaluate x = 1 := by
  refine (newVO_verify_iff (by rfl) (by rfl) (by simp) (by rfl)).trans ?_
  simp only [CombineFunction.inverseCheck, CombineFunction.value, List.zip_cons_cons,
    List.zip_nil_right, List.map_cons, List.map_nil, List.getD_cons_succ, List.getD_cons_zero,
    one_mul, sub_eq_zero]

end Checks

/-! ### A padded geometric sequence always passes its test -/

section GeoSeq

variable (domain : EvaluationDomain F) (r a : F) (length : Nat)

/-- The values of the sequence `a, a r, ..., 0, ..., 0` along the domain. -/
def sequencePolynomial : DensePolynomial F :=
  domain.interpolate ((List.range domain.size).map fun j => if j < length then a * r ^ j else 0)

theorem evaluate_sequencePolynomial {j : Nat} (hj : j < domain.size) :
    (sequencePolynomial domain r a length).evaluate (domain.element j) =
      if j < length then a * r ^ j else 0 := by
  rw [sequencePolynomial, domain.evaluate_interpolate _ hj, EvaluationDomain.resize_getD_of_lt hj,
    List.getD_eq_getElem _ _ (by simpa using hj), List.getElem_map, List.getElem_range]

omit [DecidableEq F] in
theorem element_one_mul (j : Nat) : domain.element 1 * domain.element j = domain.element (j + 1) := by
  rw [EvaluationDomain.element, EvaluationDomain.element, EvaluationDomain.element, pow_one,
    pow_succ, mul_comm]

omit [DecidableEq F] in
theorem element_size : domain.element domain.size = domain.element 0 := by
  rw [EvaluationDomain.element, EvaluationDomain.element, domain.primitive.pow_eq_one, pow_zero]

omit [DecidableEq F] in
theorem element_one_pow (j : Nat) : domain.element 1 ^ j = domain.element j := by
  rw [EvaluationDomain.element, EvaluationDomain.element, pow_one]

omit [DecidableEq F] in
theorem stitch_value_eq_zero {start len j : Nat} (hj : start + len = j + 1) (values : Nat → F)
    (hvalues : values 0 = domain.element j) :
    (CombineFunction.stitch (domain.element 1) start len).value values = 0 := by
  rw [CombineFunction.stitch, CombineFunction.value, CombineFunction.value, CombineFunction.value,
    hvalues, if_neg (by omega), hj, Nat.add_sub_cancel, element_one_pow, sub_self]

omit [DecidableEq F] in
theorem geometricSeqCheck_termsBelow (gamma : F) (lengths : List Nat) :
    (CombineFunction.geometricSeqCheck r gamma lengths).termsBelow 3 = true := by
  have hfold : ∀ (lengths : List Nat) (evaluation_function : CombineFunction F) (start : Nat),
      evaluation_function.termsBelow 3 = true →
      (lengths.foldl (fun check length =>
        (.mul check.1 (CombineFunction.stitch gamma check.2 length), check.2 + length))
        (evaluation_function, start)).1.termsBelow 3 = true := by
    intro lengths
    induction lengths with
    | nil => exact fun _ _ h => h
    | cons length lengths ih =>
      intro evaluation_function start h
      apply ih
      rw [CombineFunction.termsBelow, h]
      rfl
  exact hfold lengths _ 0 rfl

theorem GeoSeqTest.verify_iff {values : List F} {lengths : List Nat} {f : DensePolynomial F} :
    GeoSeqTest.verify r values lengths domain f = .ok () ↔
      batchCheck f ((GeoSeqTest.sequenceStartingIndices lengths).map (domain.element 1 ^ ·))
        (((GeoSeqTest.sequenceStartingIndices lengths).map (domain.element 1 ^ ·)).zip values) =
          .ok () ∧
      ∀ x ∈ domain.elements, ((CombineFunction.geometricSeqCheck r (domain.element 1) lengths).value
        fun i => [x, f.evaluate x, f.evaluate (domain.element 1 * x)].getD i 0) = 0 := by
  have hvo : newVO [0, 0] [1, domain.element 1]
      (CombineFunction.geometricSeqCheck r (domain.element 1) lengths) =
      .ok ⟨[0, 0], [1, domain.element 1], _, 0, rfl, rfl⟩ := newVO_eq_ok _ (by rfl) (by rfl)
  rw [GeoSeqTest.verify, hvo, ok_bind, unit_bind_eq_ok_iff]
  apply and_congr_right'
  refine (verifyZeroOverK_mk_iff _ _ (by simp) ?_).trans ?_
  · exact geometricSeqCheck_termsBelow r (domain.element 1) lengths
  · simp only [List.zip_cons_cons, List.zip_nil_right, List.map_cons, List.map_nil,
      List.getD_cons_zero, one_mul]

omit [DecidableEq F] in
/-- The loop of `geometric_seq_check!` multiplies one stitch for each sequence. -/
theorem foldl_stitch_value (gamma : F) (lengths : List Nat) (values : Nat → F)
    (evaluation_function : CombineFunction F) (start : Nat) :
    (lengths.foldl (fun (evaluation_function, start) length =>
      (.mul evaluation_function (CombineFunction.stitch gamma start length), start + length))
      (evaluation_function, start)).1.value values = 0 ↔
    evaluation_function.value values = 0 ∨ ∃ e ∈ (lengths.scanl (· + ·) start).zip lengths,
      (CombineFunction.stitch gamma e.1 e.2).value values = 0 := by
  induction lengths generalizing evaluation_function start with
  | nil => simp
  | cons length lengths ih =>
    rw [List.foldl_cons, ih, List.scanl_cons, List.zip_cons_cons, CombineFunction.value, mul_eq_zero,
      or_assoc]
    simp only [List.mem_cons, exists_eq_or_imp]

omit [DecidableEq F] in
theorem geometricSeqCheck_value (lengths : List Nat) (values : Nat → F) :
    (CombineFunction.geometricSeqCheck r (domain.element 1) lengths).value values = 0 ↔
      values 2 = r * values 1 ∨
        ∃ e ∈ (GeoSeqTest.sequenceStartingIndices lengths).zip lengths,
          (CombineFunction.stitch (domain.element 1) e.1 e.2).value values = 0 := by
  rw [CombineFunction.geometricSeqCheck, foldl_stitch_value]
  simp only [CombineFunction.value, sub_eq_zero]
  rfl

theorem geometricSeqCheck_sequencePolynomial {lengths : List Nat}
    (hlengths : lengths = [length] ∧ length = domain.size ∨
      ∃ pad, lengths = [length, pad] ∧ length + pad = domain.size)
    {j : Nat} (hj : j < domain.size) :
    ((CombineFunction.geometricSeqCheck r (domain.element 1) lengths).value fun i =>
      [domain.element j, (sequencePolynomial domain r a length).evaluate (domain.element j),
        (sequencePolynomial domain r a length).evaluate
          (domain.element 1 * domain.element j)].getD i 0) = 0 := by
  rw [geometricSeqCheck_value]
  by_cases hlast : j + 1 = domain.size
  · right
    rcases hlengths with ⟨rfl, hsize⟩ | ⟨pad, rfl, hsize⟩
    · exact ⟨(0, length), by simp [GeoSeqTest.sequenceStartingIndices],
        stitch_value_eq_zero domain (by omega) _ rfl⟩
    · exact ⟨(length, pad), by simp [GeoSeqTest.sequenceStartingIndices],
        stitch_value_eq_zero domain (by omega) _ rfl⟩
  · by_cases hend : j + 1 = length
    · right
      refine ⟨(0, length), ?_, stitch_value_eq_zero domain (by omega) _ rfl⟩
      rcases hlengths with ⟨rfl, _⟩ | ⟨pad, rfl, _⟩
      · simp [GeoSeqTest.sequenceStartingIndices]
      · simp [GeoSeqTest.sequenceStartingIndices]
    · left
      simp only [List.getD_cons_succ, List.getD_cons_zero]
      rw [element_one_mul, evaluate_sequencePolynomial domain r a length (by omega),
        evaluate_sequencePolynomial domain r a length hj]
      by_cases hin : j + 1 < length
      · rw [if_pos hin, if_pos (by omega), pow_succ]
        ring
      · rw [if_neg hin, if_neg (by omega), mul_zero]

theorem batchCheck_eq_ok_iff {f : DensePolynomial F} {points : List F} {evaluations : List (F × F)} :
    batchCheck f points evaluations = .ok () ↔
      ∀ point ∈ points, evaluations.reverse.lookup point = some (f.evaluate point) :=
  ite_ok_eq_ok_iff

/-- A prover who pads the sequence passes the test. -/
theorem GeoSeqTest.exists_verify (hlength : length ≤ domain.size) :
    ∃ f, GeoSeqTest.verify r (paddedSequence domain a length).1
      (paddedSequence domain a length).2 domain f = .ok () := by
  have hsize := domain.size_pos
  have hzero := evaluate_sequencePolynomial domain r a length hsize
  refine ⟨sequencePolynomial domain r a length, (GeoSeqTest.verify_iff domain r).mpr ⟨?_, ?_⟩⟩
  · rw [batchCheck_eq_ok_iff, paddedSequence]
    by_cases hpad : domain.size - length > 0
    · have hsum : length + (domain.size - length) = domain.size := by omega
      have hend := evaluate_sequencePolynomial domain r a length (j := length) (by omega)
      rw [if_pos hpad]
      simp only [GeoSeqTest.sequenceStartingIndices, List.scanl_cons, List.scanl_nil, List.map_cons,
        List.map_nil, zero_add, hsum, element_one_pow, element_size, List.forall_mem_cons,
        List.zip_cons_cons, List.zip_nil_right, List.reverse_cons, List.reverse_nil, List.nil_append,
        List.singleton_append, List.not_mem_nil, false_implies, implies_true, and_true]
      rw [if_neg (by omega)] at hend
      have hlast : List.lookup (domain.element length)
          [(domain.element length, 0), (domain.element 0, a)] = some 0 := List.lookup_cons_self
      have hfirst : List.lookup (domain.element 0)
          [(domain.element length, 0), (domain.element 0, a)] =
          some (if 0 < length then a * r ^ 0 else 0) := by
        by_cases hempty : length = 0
        · rw [hempty]
          exact List.lookup_cons_self
        · have hne : domain.element 0 ≠ domain.element length := fun heq =>
            hempty (domain.element_injective hsize (by omega) heq).symm
          rw [List.lookup_cons, beq_eq_false_iff_ne.mpr hne, if_pos (by omega), pow_zero, mul_one]
          exact List.lookup_cons_self
      rw [hzero, hend]
      exact ⟨hfirst, hlast, hfirst⟩
    · have hfull : length = domain.size := by omega
      rw [if_neg hpad]
      simp only [GeoSeqTest.sequenceStartingIndices, List.scanl_cons, List.scanl_nil, List.map_cons,
        List.map_nil, zero_add, hfull, element_one_pow, element_size, List.forall_mem_cons,
        List.zip_cons_cons, List.zip_nil_right, List.reverse_cons, List.reverse_nil, List.nil_append,
        List.not_mem_nil, false_implies, implies_true, and_true]
      rw [hfull, if_pos hsize, pow_zero, mul_one] at hzero
      rw [hzero]
      exact ⟨List.lookup_cons_self, List.lookup_cons_self⟩
  · intro x hx
    obtain ⟨j, hj, rfl⟩ := List.mem_map.mp hx
    apply geometricSeqCheck_sequencePolynomial domain r a length _ (List.mem_range.mp hj)
    rw [paddedSequence]
    by_cases hpad : domain.size - length > 0
    · rw [if_pos hpad]
      exact Or.inr ⟨_, rfl, by omega⟩
    · rw [if_neg hpad]
      exact Or.inl ⟨rfl, by omega⟩

end GeoSeq

/-! ### The two verifiers -/

section Verify

variable (roots : SquareRootField F) (domain_k domain_h : EvaluationDomain F)

theorem DLComparison.verify_iff {f g : DensePolynomial F} {proof : DLComparison.Proof F} :
    DLComparison.verify roots domain_k domain_h f g proof = .ok () ↔
      (∀ x ∈ domain_k.elements, f.evaluate x = proof.fPrime.evaluate x * proof.fPrime.evaluate x) ∧
      (∀ x ∈ domain_k.elements, g.evaluate x = proof.gPrime.evaluate x * proof.gPrime.evaluate x) ∧
      (∀ x ∈ domain_k.elements,
        proof.s.evaluate x = proof.sPrime.evaluate x * proof.sPrime.evaluate x) ∧
      (∀ x ∈ domain_k.elements,
        proof.fPrime.evaluate x = proof.sPrime.evaluate x * proof.gPrime.evaluate x) ∧
      ∃ delta, roots.sqrt (domain_h.element 1) = some delta ∧
        GeoSeqTest.verify delta (paddedSequence domain_k 1 domain_h.size).1
          (paddedSequence domain_k 1 domain_h.size).2 domain_k proof.h = .ok () ∧
        (∀ x ∈ domain_k.elements, proof.fPrime.evaluate x * proof.nzkFPrime.evaluate x = 1) ∧
        (∀ x ∈ domain_k.elements, proof.gPrime.evaluate x * proof.nzkGPrime.evaluate x = 1) ∧
        (∀ x ∈ domain_k.elements, proof.sPrime.evaluate x * proof.nzkSPrime.evaluate x = 1) ∧
        (∀ x ∈ domain_k.elements,
          (proof.s.evaluate x - 1) * proof.nzkSMinusOne.evaluate x = 1) := by
  have hsquare : newVO [0, 1] [1, 1] CombineFunction.squareCheck =
      .ok ⟨[0, 1], [(1 : F), 1], CombineFunction.squareCheck, 1, rfl, rfl⟩ :=
    newVO_eq_ok _ (by rfl) (by rfl)
  have hproduct : newVO [0, 1, 2] [1, 1, 1] CombineFunction.abcProductCheck =
      .ok ⟨[0, 1, 2], [(1 : F), 1, 1], CombineFunction.abcProductCheck, 2, rfl, rfl⟩ :=
    newVO_eq_ok _ (by rfl) (by rfl)
  have hsquare_iff : ∀ p q : DensePolynomial F, verifyZeroOverK [p, q]
      ⟨[0, 1], [(1 : F), 1], CombineFunction.squareCheck, 1, rfl, rfl⟩ domain_k = .ok () ↔
      ∀ x ∈ domain_k.elements, p.evaluate x = q.evaluate x * q.evaluate x := by
    intro p q
    rw [← squareCheck_iff, hsquare, ok_bind]
  have hproduct_iff : ∀ p q r : DensePolynomial F, verifyZeroOverK [p, q, r]
      ⟨[0, 1, 2], [(1 : F), 1, 1], CombineFunction.abcProductCheck, 2, rfl, rfl⟩ domain_k = .ok () ↔
      ∀ x ∈ domain_k.elements, p.evaluate x = q.evaluate x * r.evaluate x := by
    intro p q r
    rw [← abcProductCheck_iff, hproduct, ok_bind]
  simp only [DLComparison.verify, hsquare, hproduct, ok_bind, unit_bind_eq_ok_iff, hsquare_iff,
    hproduct_iff, SubsetOverK.verify]
  rw [bind_eq_ok_iff]
  simp only [need_eq_ok_iff, unit_bind_eq_ok_iff, NonZeroOverK.verify_iff,
    DensePolynomial.evaluate_sub, DensePolynomial.evaluate_constant]

theorem TStrictlyLowerTriangular.verify_iff {t : Nat} {row col : DensePolynomial F}
    {proof : TStrictlyLowerTriangular.Proof F} :
    TStrictlyLowerTriangular.verify roots t domain_k domain_h row col proof = .ok () ↔
      GeoSeqTest.verify (domain_h.element 1)
        (paddedSequence domain_k (domain_h.element t) (domain_h.size - t)).1
        (paddedSequence domain_k (domain_h.element t) (domain_h.size - t)).2 domain_k proof.h =
          .ok () ∧
      DLComparison.verify roots domain_k domain_h row col proof.dlProof = .ok () := by
  simp only [TStrictlyLowerTriangular.verify, SubsetOverK.verify, unit_bind_eq_ok_iff, true_and]

end Verify

/-! ### What is accepted -/

section Accepted

variable {roots : SquareRootField F} {domain_k domain_h : EvaluationDomain F}
  {row col : DensePolynomial F} {delta : F}

theorem DLComparison.verify_ne {proof : DLComparison.Proof F}
    (h : DLComparison.verify roots domain_k domain_h row col proof = .ok ()) {x : F}
    (hx : x ∈ domain_k.elements) : row.evaluate x ≠ col.evaluate x := by
  obtain ⟨hf, hg, hs, hproduct, _, _, _, _, hnzg, _, hnzs⟩ :=
    (DLComparison.verify_iff roots domain_k domain_h).mp h
  intro heq
  have hgne : proof.gPrime.evaluate x ≠ 0 := by
    intro hzero
    have hone := hnzg x hx
    rw [hzero, zero_mul] at hone
    exact zero_ne_one hone
  have hsone : proof.s.evaluate x = 1 := by
    have hsquare : proof.s.evaluate x * (proof.gPrime.evaluate x * proof.gPrime.evaluate x) =
        1 * (proof.gPrime.evaluate x * proof.gPrime.evaluate x) := by
      calc proof.s.evaluate x * (proof.gPrime.evaluate x * proof.gPrime.evaluate x)
          = proof.fPrime.evaluate x * proof.fPrime.evaluate x := by
            rw [hs x hx, hproduct x hx]
            ring
        _ = 1 * (proof.gPrime.evaluate x * proof.gPrime.evaluate x) := by
            rw [← hf x hx, heq, hg x hx, one_mul]
    exact mul_right_cancel₀ (mul_ne_zero hgne hgne) hsquare
  have hone := hnzs x hx
  rw [hsone, sub_self, zero_mul] at hone
  exact zero_ne_one hone

omit [DecidableEq F] in
theorem isSquare_of_mem (hdelta : IsPrimitiveRoot delta (2 * domain_h.size)) {y : F}
    (hy : y ∈ domain_h.elements) : IsSquare y := by
  have hsquare : IsPrimitiveRoot (delta ^ 2) domain_h.size :=
    hdelta.pow (Nat.mul_pos (by omega) domain_h.size_pos) rfl
  have : NeZero domain_h.size := ⟨domain_h.size_pos.ne'⟩
  obtain ⟨i, _, rfl⟩ := hsquare.eq_pow_of_pow_eq_one (domain_h.mem_elements.mp hy)
  refine ⟨delta ^ i, ?_⟩
  rw [← pow_add, ← pow_mul, two_mul]

omit [DecidableEq F] in
variable (roots) in
theorem SquareRootField.exists_sqrt (hdelta : IsPrimitiveRoot delta (2 * domain_h.size)) {y : F}
    (hy : y ∈ domain_h.elements) :
    ∃ z, roots.sqrt y = some z ∧ z * z = y := by
  obtain ⟨z, hz⟩ := Option.isSome_iff_exists.mp
    (roots.isSome_of_isSquare y (isSquare_of_mem hdelta hy))
  exact ⟨z, hz, roots.mul_self_eq y z hz⟩

omit [DecidableEq F] in
theorem ne_zero_of_mem {y : F} (hy : y ∈ domain_h.elements) : y ≠ 0 := by
  rintro rfl
  rw [domain_h.mem_elements, zero_pow domain_h.size_pos.ne'] at hy
  exact zero_ne_one hy

variable (roots) in
/-- Square roots of the values and of their quotients pass every check. -/
theorem DLComparison.exists_verify (hdelta : IsPrimitiveRoot delta (2 * domain_h.size))
    (hsize : domain_h.size ≤ domain_k.size)
    (hrow : ∀ x ∈ domain_k.elements, row.evaluate x ∈ domain_h.elements)
    (hcol : ∀ x ∈ domain_k.elements, col.evaluate x ∈ domain_h.elements)
    (hne : ∀ x ∈ domain_k.elements, row.evaluate x ≠ col.evaluate x) :
    ∃ proof, DLComparison.verify roots domain_k domain_h row col proof = .ok () := by
  obtain ⟨omega_root, homega, _⟩ :=
    SquareRootField.exists_sqrt roots hdelta (domain_h.element_mem 1)
  obtain ⟨h, hh⟩ := GeoSeqTest.exists_verify domain_k omega_root 1 domain_h.size hsize
  let root : F → F := fun y => (roots.sqrt y).getD 0
  have hroot : ∀ y ∈ domain_h.elements, root y * root y = y := by
    intro y hy
    obtain ⟨z, hz, hsquare⟩ := SquareRootField.exists_sqrt roots hdelta hy
    simp only [root, hz, Option.getD_some, hsquare]
  have hroot_ne : ∀ y ∈ domain_h.elements, root y ≠ 0 := by
    intro y hy hzero
    have hsquare := hroot y hy
    rw [hzero, zero_mul] at hsquare
    exact ne_zero_of_mem hy hsquare.symm
  let onK : (F → F) → DensePolynomial F := fun g => domain_k.interpolate (domain_k.elements.map g)
  have honK : ∀ (g : F → F), ∀ x ∈ domain_k.elements, (onK g).evaluate x = g x :=
    fun g x hx => domain_k.evaluate_interpolate_map g hx
  let fPrime : F → F := fun x => root (row.evaluate x)
  let gPrime : F → F := fun x => root (col.evaluate x)
  let sPrime : F → F := fun x => fPrime x * (gPrime x)⁻¹
  refine ⟨⟨onK fun x => sPrime x * sPrime x, onK fPrime, onK gPrime, onK sPrime, h,
    onK fun x => (fPrime x)⁻¹, onK fun x => (gPrime x)⁻¹, onK fun x => (sPrime x)⁻¹,
    onK fun x => (sPrime x * sPrime x - 1)⁻¹⟩, ?_⟩
  have hf_ne : ∀ x ∈ domain_k.elements, fPrime x ≠ 0 := fun x hx => hroot_ne _ (hrow x hx)
  have hg_ne : ∀ x ∈ domain_k.elements, gPrime x ≠ 0 := fun x hx => hroot_ne _ (hcol x hx)
  rw [DLComparison.verify_iff]
  refine ⟨?_, ?_, ?_, ?_, omega_root, homega, hh, ?_, ?_, ?_, ?_⟩
  all_goals
    intro x hx
    dsimp only
    rw [honK _ x hx]
  · exact (hroot _ (hrow x hx)).symm
  · exact (hroot _ (hcol x hx)).symm
  · rw [honK _ x hx]
  · rw [honK _ x hx, honK _ x hx]
    exact (inv_mul_cancel_right₀ (hg_ne x hx) _).symm
  · rw [honK _ x hx]
    exact mul_inv_cancel₀ (hf_ne x hx)
  · rw [honK _ x hx]
    exact mul_inv_cancel₀ (hg_ne x hx)
  · rw [honK _ x hx]
    exact mul_inv_cancel₀ (mul_ne_zero (hf_ne x hx) (inv_ne_zero (hg_ne x hx)))
  · rw [honK _ x hx]
    apply mul_inv_cancel₀
    intro hzero
    apply hne x hx
    have hquotient : sPrime x * sPrime x = 1 := sub_eq_zero.mp hzero
    calc row.evaluate x = fPrime x * fPrime x := (hroot _ (hrow x hx)).symm
      _ = sPrime x * sPrime x * (gPrime x * gPrime x) := by
          have hg := hg_ne x hx
          simp only [sPrime]
          field_simp
      _ = col.evaluate x := by rw [hquotient, one_mul, hroot _ (hcol x hx)]

/-- The test accepts some proof exactly when no entry lies on the diagonal. -/
theorem TStrictlyLowerTriangular.accepts_iff
    (hdelta : IsPrimitiveRoot delta (2 * domain_h.size)) (hsize : domain_h.size ≤ domain_k.size)
    {t : Nat}
    (hrow : ∀ x ∈ domain_k.elements, row.evaluate x ∈ domain_h.elements)
    (hcol : ∀ x ∈ domain_k.elements, col.evaluate x ∈ domain_h.elements) :
    (∃ proof, TStrictlyLowerTriangular.verify roots t domain_k domain_h row col proof = .ok ()) ↔
      ∀ x ∈ domain_k.elements, row.evaluate x ≠ col.evaluate x := by
  constructor
  · rintro ⟨proof, hproof⟩ x hx
    exact DLComparison.verify_ne
      ((TStrictlyLowerTriangular.verify_iff roots domain_k domain_h).mp hproof).2 hx
  · intro hne
    obtain ⟨dlProof, hdl⟩ := DLComparison.exists_verify roots hdelta hsize hrow hcol hne
    obtain ⟨h, hh⟩ := GeoSeqTest.exists_verify domain_k (domain_h.element 1) (domain_h.element t)
      (domain_h.size - t) (by omega)
    exact ⟨⟨h, dlProof⟩, (TStrictlyLowerTriangular.verify_iff roots domain_k domain_h).mpr ⟨hh, hdl⟩⟩

/-- Every encoded entry lies strictly below the diagonal and outside the first `t` rows. -/
def StrictlyLowerTriangular (t : Nat) (domain_k domain_h : EvaluationDomain F)
    (row col : DensePolynomial F) : Prop :=
  ∀ x ∈ domain_k.elements, ∃ a b, a < domain_h.size ∧ b < domain_h.size ∧
    row.evaluate x = domain_h.element a ∧ col.evaluate x = domain_h.element b ∧ t ≤ a ∧ b < a

/-- Acceptance says that the matrix is strictly lower triangular if it has an entry on the
diagonal, so that nothing is accepted, or if it is strictly lower triangular to begin with. -/
theorem TStrictlyLowerTriangular.sound_iff
    (hdelta : IsPrimitiveRoot delta (2 * domain_h.size)) (hsize : domain_h.size ≤ domain_k.size)
    {t : Nat} (hrow : ∀ x ∈ domain_k.elements, row.evaluate x ∈ domain_h.elements)
    (hcol : ∀ x ∈ domain_k.elements, col.evaluate x ∈ domain_h.elements) :
    ((∃ proof, TStrictlyLowerTriangular.verify roots t domain_k domain_h row col proof = .ok ()) →
        StrictlyLowerTriangular t domain_k domain_h row col) ↔
      (∃ x ∈ domain_k.elements, row.evaluate x = col.evaluate x) ∨
        StrictlyLowerTriangular t domain_k domain_h row col := by
  rw [TStrictlyLowerTriangular.accepts_iff hdelta hsize hrow hcol]
  constructor
  · intro h
    by_cases hdiag : ∃ x ∈ domain_k.elements, row.evaluate x = col.evaluate x
    · exact Or.inl hdiag
    · right
      apply h
      intro x hx heq
      exact hdiag ⟨x, hx, heq⟩
  · rintro (⟨x, hx, heq⟩ | hlower) hne
    · exact absurd heq (hne x hx)
    · exact hlower

theorem TStrictlyLowerTriangular.exists_verify_upper
    (hdelta : IsPrimitiveRoot delta (2 * domain_h.size)) (hsize : domain_h.size ≤ domain_k.size)
    (htwo : 1 < domain_h.size) (t : Nat) :
    (∃ proof, TStrictlyLowerTriangular.verify roots t domain_k domain_h
        (.constant (domain_h.element 0)) (.constant (domain_h.element 1)) proof = .ok ()) ∧
      ¬ StrictlyLowerTriangular t domain_k domain_h
        (.constant (domain_h.element 0)) (.constant (domain_h.element 1)) := by
  constructor
  · rw [TStrictlyLowerTriangular.accepts_iff hdelta hsize]
    · intro x _
      rw [DensePolynomial.evaluate_constant, DensePolynomial.evaluate_constant]
      intro heq
      exact absurd (domain_h.element_injective domain_h.size_pos htwo heq) (by decide)
    · intro x _
      rw [DensePolynomial.evaluate_constant]
      exact domain_h.element_mem 0
    · intro x _
      rw [DensePolynomial.evaluate_constant]
      exact domain_h.element_mem 1
  · intro hlower
    obtain ⟨a, b, ha, _, hrow, _, _, hlt⟩ := hlower 1 domain_k.one_mem
    rw [DensePolynomial.evaluate_constant] at hrow
    have hzero := domain_h.element_injective domain_h.size_pos ha hrow
    omega

end Accepted

/-! The field of five elements, `H = K = {1, 4}`. -/

section Five

instance factPrimeFive : Fact (Nat.Prime 5) := ⟨by norm_num⟩

def roots5 : SquareRootField (ZMod 5) where
  sqrt x := List.find? (fun y : ZMod 5 => y * y = x) (List.finRange 5)
  mul_self_eq := by decide
  isSome_of_isSquare := by
    rintro x ⟨y, rfl⟩
    revert y
    decide

def domain5 : EvaluationDomain (ZMod 5) where
  size := 2
  groupGen := -1
  size_pos := Nat.two_pos
  primitive := IsPrimitiveRoot.neg_one 5 (by decide)

theorem primitive_two : IsPrimitiveRoot (2 : ZMod 5) (2 * domain5.size) := by
  have horder : orderOf (2 : ZMod 5) = 2 ^ (1 + 1) := orderOf_eq_prime_pow (by decide) (by decide)
  have hsize : 2 * domain5.size = orderOf (2 : ZMod 5) := horder.symm
  rw [hsize]
  exact IsPrimitiveRoot.orderOf 2

/-- The entry of row zero and column one. -/
theorem TStrictlyLowerTriangular.sound_iff_upper :
    ((∃ proof, TStrictlyLowerTriangular.verify roots5 0 domain5 domain5
        (.constant (domain5.element 0)) (.constant (domain5.element 1)) proof = .ok ()) →
      StrictlyLowerTriangular 0 domain5 domain5
        (.constant (domain5.element 0)) (.constant (domain5.element 1))) ↔
      (∃ x ∈ domain5.elements, (DensePolynomial.constant (domain5.element 0)).evaluate x =
        (DensePolynomial.constant (domain5.element 1)).evaluate x) ∨
        StrictlyLowerTriangular 0 domain5 domain5
          (.constant (domain5.element 0)) (.constant (domain5.element 1)) :=
  TStrictlyLowerTriangular.sound_iff primitive_two le_rfl
    (fun x _ => by rw [DensePolynomial.evaluate_constant]; exact domain5.element_mem 0)
    (fun x _ => by rw [DensePolynomial.evaluate_constant]; exact domain5.element_mem 1)

theorem TStrictlyLowerTriangular.upper_accepted :
    (∃ proof, TStrictlyLowerTriangular.verify roots5 0 domain5 domain5
        (.constant (domain5.element 0)) (.constant (domain5.element 1)) proof = .ok ()) ∧
      ¬ StrictlyLowerTriangular 0 domain5 domain5
        (.constant (domain5.element 0)) (.constant (domain5.element 1)) :=
  TStrictlyLowerTriangular.exists_verify_upper primitive_two le_rfl (by decide) 0

end Five

end Lootbox.ProofOfFunctionRelation

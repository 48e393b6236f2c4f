import Lootbox.Commitment.MatrixSums
import Lootbox.Commitment.SumcheckCombinations

/-!
# `index_private_marlin`: the sum check over `K`

The arithmetized matrices and the polynomial `t` carry the same bilinear forms: the sum of `f`
over `K` is `t` at `beta`.
-/

namespace Lootbox.IndexPrivateMarlin

open AcCompiler

variable {F : Type} [Field F] [DecidableEq F] {domain_k domain_h : EvaluationDomain F}

/-! ### The bilinear form at the challenges -/

/-- `r(x, e_i)` for the elements of `H`. -/
def kernelAt (domain_h : EvaluationDomain F) (x : F) (i : Nat) : F :=
  (x - domain_h.element i)⁻¹ * domain_h.evaluateVanishingPolynomial x

/-- The Lagrange basis of `H`. -/
def basisAt (domain_h : EvaluationDomain F) (y : F) (i : Nat) : F :=
  domain_h.element i * domain_h.evaluateVanishingPolynomial y /
    (domain_h.size * (y - domain_h.element i))

/-- `∑ eta * M(alpha, beta)` over the three matrices. -/
def lincheckSum (domain_h : EvaluationDomain F) (a b c : Matrix F) (first : VerifierFirstMsg F)
    (beta : F) : F :=
  first.etaA * entrySum a (kernelAt domain_h first.alpha) (basisAt domain_h beta) +
    first.etaB * entrySum b (kernelAt domain_h first.alpha) (basisAt domain_h beta) +
    first.etaC * entrySum c (kernelAt domain_h first.alpha) (basisAt domain_h beta)

omit [DecidableEq F] in
theorem entrySum_congr {m : Matrix F} {left left' right : Nat → F} (hrange : InRange domain_h m)
    (h : ∀ i < domain_h.size, left i = left' i) : entrySum m left right = entrySum m left' right := by
  rw [entrySum, entrySum]
  congr 1
  apply List.map_congr_left
  intro e he
  rw [h e.2 (hrange e he).1]

omit [DecidableEq F] in
theorem length_diff_inputs (x : F) :
    (batchEvalUnnormalizedBivariateLagrangePolyWithDiffInputs domain_h x).length = domain_h.size := by
  rw [batchEvalUnnormalizedBivariateLagrangePolyWithDiffInputs, List.length_map,
    EvaluationDomain.elements, List.length_map, List.length_range]

omit [DecidableEq F] in
theorem getD_diff_inputs (x : F) {i : Nat} (hi : i < domain_h.size) :
    (batchEvalUnnormalizedBivariateLagrangePolyWithDiffInputs domain_h x).getD i 0 =
      kernelAt domain_h x i := by
  rw [batchEvalUnnormalizedBivariateLagrangePolyWithDiffInputs, List.getD_eq_getElem?_getD,
    List.getElem?_map, elements_getElem?, if_pos hi]
  rfl

/-! ### The side of `t` -/

section SideOfT

variable {a b c : Matrix F} {first : VerifierFirstMsg F} {beta : F}

theorem evaluate_t (hrange : ∀ m ∈ [a, b, c], InRange domain_h m) {t : DensePolynomial F}
    (h : calculateT [a, b, c] [first.etaA, first.etaB, first.etaC] domain_h
      (batchEvalUnnormalizedBivariateLagrangePolyWithDiffInputs domain_h first.alpha) = .ok t)
    (hbeta : beta ∉ domain_h.elements) :
    t.evaluate beta = lincheckSum domain_h a b c first beta := by
  have hsum := calculateT_eq_ok h (basisAt domain_h beta)
  have hkernel : ∀ m ∈ [a, b, c], entrySum m
      ((batchEvalUnnormalizedBivariateLagrangePolyWithDiffInputs domain_h first.alpha).getD · 0)
      (basisAt domain_h beta) =
        entrySum m (kernelAt domain_h first.alpha) (basisAt domain_h beta) :=
    fun m hm => entrySum_congr (hrange m hm) fun i hi => getD_diff_inputs first.alpha hi
  simp only [List.forall_mem_cons] at hkernel
  obtain ⟨ha, hb, hc, _⟩ := hkernel
  simp only [List.zip_cons_cons, List.zip_nil_right, List.map_cons, List.map_nil, List.sum_cons,
    List.sum_nil, ha, hb, hc] at hsum
  obtain ⟨t_evals_on_h, _, h⟩ := bind_eq_ok_iff.mp h
  cases h
  rw [domain_h.evaluate_interpolate_outside _ hbeta, lincheckSum]
  refine Eq.trans ?_ (hsum.trans (by ring))
  apply Finset.sum_congr rfl
  intro i hi
  rw [Finset.mem_range] at hi
  rw [domain_h.evaluate_interpolate _ hi, EvaluationDomain.resize_getD_of_lt hi]
  rfl

end SideOfT

/-! ### The side of `f` -/

section SideOfF

variable {m : Matrix F} {is_diag_matrix : Bool} {arith : MatrixArithmetization F}

omit [DecidableEq F] in
theorem sum_range_getD : ∀ (xs : List F) {n : Nat}, xs.length ≤ n →
    ∑ k ∈ Finset.range n, xs.getD k 0 = xs.sum
  | [], n, _ => Finset.sum_eq_zero fun k _ => rfl
  | x :: xs, 0, h => absurd h (Nat.not_succ_le_zero _)
  | x :: xs, n + 1, h => by
    rw [Finset.sum_range_succ', List.sum_cons, ← sum_range_getD xs (Nat.le_of_succ_le_succ h), add_comm]
    rfl

theorem sumOver_arithmetizeMatrix
    (h : arithmetizeMatrix m domain_k domain_h is_diag_matrix = .ok arith)
    (hlen : (matrixEntries m).length ≤ domain_k.size) (g : F → F → F) :
    domain_k.sumOver (fun x => arith.val.evaluate x * g (arith.row.evaluate x) (arith.col.evaluate x)) =
      ((matrixEntries m).map fun e => (entryAt domain_h e).val *
        g (domain_h.element e.1.2) (domain_h.element e.2)).sum := by
  obtain ⟨_, last, _, hat⟩ := arithmetizeMatrix_eq_ok h
  have hpadding : ∀ ev : EntryEvals F, (padding is_diag_matrix ev).val = 0 := by
    intro ev
    cases is_diag_matrix with
    | true => rfl
    | false => rfl
  rw [domain_k.sumOver_eq, ← sum_range_getD _ ((List.length_map _).le.trans hlen)]
  apply Finset.sum_congr rfl
  intro k hk
  have hk := hat k (Finset.mem_range.mp hk)
  have hrow := congrArg EntryEvals.row hk
  have hcol := congrArg EntryEvals.col hk
  have hval := congrArg EntryEvals.val hk
  dsimp only [MatrixArithmetization.at] at hrow hcol hval
  rw [hrow, hcol, hval]
  rcases Nat.lt_or_ge k (matrixEntries m).length with hlt | hge
  · rw [List.getD_eq_getElem _ _ (by rw [List.length_map]; exact hlt), List.getElem_map,
      List.getD_eq_getElem _ _ (by rw [List.length_map]; exact hlt), List.getElem_map]
    rfl
  · rw [List.getD_eq_default _ _ (by rw [List.length_map]; exact hge),
      List.getD_eq_default _ _ (by rw [List.length_map]; exact hge), hpadding, zero_mul]

theorem sumOver_fraction (h : arithmetizeMatrix m domain_k domain_h is_diag_matrix = .ok arith)
    (hlen : (matrixEntries m).length ≤ domain_k.size) (first : VerifierFirstMsg F)
    (second : VerifierSecondMsg F) :
    domain_k.sumOver (fun x => arith.val.evaluate x *
        (vanishingFactor domain_h first second / denomAt first.alpha second.beta arith x)) =
      entrySum m (kernelAt domain_h first.alpha) (basisAt domain_h second.beta) := by
  refine (sumOver_arithmetizeMatrix h hlen fun row col => vanishingFactor domain_h first second /
    ((second.beta - row) * (first.alpha - col))).trans ?_
  rw [entrySum]
  congr 1
  apply List.map_congr_left
  intro e _
  rw [entryAt, vanishingFactor, kernelAt, basisAt]
  simp only [div_eq_mul_inv, mul_inv, inv_inv]
  ring

theorem denomAt_arithmetizeMatrix_ne_zero {first : VerifierFirstMsg F} {second : VerifierSecondMsg F}
    (h : arithmetizeMatrix m domain_k domain_h is_diag_matrix = .ok arith)
    (halpha : first.alpha ∉ domain_h.elements) (hbeta : second.beta ∉ domain_h.elements) {x : F}
    (hx : x ∈ domain_k.elements) : denomAt first.alpha second.beta arith x ≠ 0 := by
  obtain ⟨hrow, hcol⟩ := (arithmetizeMatrix_spec h).1 x hx
  exact denomAt_ne_zero hrow hcol halpha hbeta

variable {idx : Index F} {first : VerifierFirstMsg F} {second : VerifierSecondMsg F}

/-- The index holds the arithmetizations of its matrices, none of which exceeds `K`. -/
structure Arithmetized (idx : Index F) (domain_k domain_h : EvaluationDomain F) : Prop where
  a : arithmetizeMatrix idx.a domain_k domain_h false = .ok idx.aArith
  b : arithmetizeMatrix idx.b domain_k domain_h false = .ok idx.bArith
  c : arithmetizeMatrix idx.c domain_k domain_h true = .ok idx.cArith
  length_le : ∀ m ∈ [idx.a, idx.b, idx.c], (matrixEntries m).length ≤ domain_k.size

theorem exists_proverThirdRoundF (h : Arithmetized idx domain_k domain_h)
    (halpha : first.alpha ∉ domain_h.elements) (hbeta : second.beta ∉ domain_h.elements) :
    ∃ f, proverThirdRoundF idx domain_h domain_k first second = .ok f ∧
      domain_k.sumOver f.evaluate =
        lincheckSum domain_h idx.a idx.b idx.c first second.beta := by
  have hlen := h.length_le
  simp only [List.forall_mem_cons] at hlen
  obtain ⟨hlen_a, hlen_b, hlen_c, _⟩ := hlen
  have hne_a : ∀ x ∈ domain_k.elements, denomAt first.alpha second.beta idx.aArith x ≠ 0 :=
    fun x hx => denomAt_arithmetizeMatrix_ne_zero h.a halpha hbeta hx
  have hne_b : ∀ x ∈ domain_k.elements, denomAt first.alpha second.beta idx.bArith x ≠ 0 :=
    fun x hx => denomAt_arithmetizeMatrix_ne_zero h.b halpha hbeta hx
  have hne_c : ∀ x ∈ domain_k.elements, denomAt first.alpha second.beta idx.cArith x ≠ 0 :=
    fun x hx => denomAt_arithmetizeMatrix_ne_zero h.c halpha hbeta hx
  obtain ⟨f, hf, hfeval⟩ := @proverThirdRoundF_eq_ok F _ _ idx domain_h domain_k first second
    fun x hx => mul_ne_zero (mul_ne_zero (hne_a x hx) (hne_b x hx)) (hne_c x hx)
  refine ⟨f, hf, ?_⟩
  -- the common denominator falls apart into the three fractions
  have hsplit : ∀ x ∈ domain_k.elements, f.evaluate x =
      first.etaA * (idx.aArith.val.evaluate x * (vanishingFactor domain_h first second /
        denomAt first.alpha second.beta idx.aArith x)) +
      first.etaB * (idx.bArith.val.evaluate x * (vanishingFactor domain_h first second /
        denomAt first.alpha second.beta idx.bArith x)) +
      first.etaC * (idx.cArith.val.evaluate x * (vanishingFactor domain_h first second /
        denomAt first.alpha second.beta idx.cArith x)) := by
    intro x hx
    have ha := hne_a x hx
    have hb := hne_b x hx
    have hc := hne_c x hx
    rw [hfeval x hx, numeratorAt, denominatorAt]
    field_simp
  rw [domain_k.sumOver_congr hsplit, domain_k.sumOver_add, domain_k.sumOver_add,
    domain_k.sumOver_mul, domain_k.sumOver_mul, domain_k.sumOver_mul,
    sumOver_fraction h.a hlen_a, sumOver_fraction h.b hlen_b, sumOver_fraction h.c hlen_c,
    lincheckSum]

end SideOfF

/-! ### The constant coefficient -/

section ConstantCoefficient

variable {first : VerifierFirstMsg F} {second : VerifierSecondMsg F}

omit [DecidableEq F] in
theorem coeff_toPoly (p : DensePolynomial F) (i : Nat) : p.toPoly.coeff i = p.coeffs.getD i 0 := by
  rw [DensePolynomial.toPoly, DensePolynomial.coeff_ofCoeffs]

omit [DecidableEq F] in
theorem setCoeff_eq_ok {p q : DensePolynomial F} {i : Nat} {value : F}
    (h : setCoeff p i value = .ok q) :
    q.coeffs.length = p.coeffs.length ∧ q.toPoly.coeff i = value ∧
      ∀ j, j ≠ i → q.toPoly.coeff j = p.toPoly.coeff j := by
  rw [setCoeff] at h
  by_cases hi : i < p.coeffs.length
  · rw [if_pos hi] at h
    cases h
    refine ⟨List.length_set, ?_, ?_⟩
    · rw [coeff_toPoly, List.getD_eq_getElem?_getD, List.getElem?_set_self hi]
      rfl
    · intro j hne
      rw [coeff_toPoly, coeff_toPoly, List.getD_eq_getElem?_getD, List.getElem?_set_ne hne.symm,
        List.getD_eq_getElem?_getD]
  · rw [if_neg hi] at h
    cases h

theorem innerMask_coeff {rng : Nat → F} {inner_mask_poly : DensePolynomial F}
    (h : innerMask domain_k rng = .ok inner_mask_poly) : inner_mask_poly.toPoly.coeff 0 = 0 :=
  (setCoeff_eq_ok h).2.1

theorem length_randPolynomial_le (d : Nat) (rng : Nat → F) :
    (randPolynomial d rng).coeffs.length ≤ d + 1 := by
  apply (DensePolynomial.length_trim_le _).trans
  rw [List.length_map, List.length_range]

theorem length_innerMask_le {rng : Nat → F} {inner_mask_poly : DensePolynomial F}
    (h : innerMask domain_k rng = .ok inner_mask_poly) :
    inner_mask_poly.coeffs.length ≤ domain_k.size := by
  have hrand := length_randPolynomial_le (domain_k.size - 1) rng
  have hpos := domain_k.size_pos
  rw [(setCoeff_eq_ok h).1]
  omega

theorem coeff_f_mask {idx : Index F} {f inner_mask_poly : DensePolynomial F} {rng : Nat → F}
    (hf : proverThirdRoundF idx domain_h domain_k first second = .ok f)
    (hmask : innerMask domain_k rng = .ok inner_mask_poly) :
    (f + inner_mask_poly).toPoly.coeff 0 = domain_k.sumOver f.evaluate / domain_k.size := by
  have hdegree : f.toPoly.natDegree < domain_k.size := by
    obtain ⟨_, rfl⟩ := proverThirdRoundF_eq_ok_iff.mp hf
    exact EvaluationDomain.natDegree_lt_of_degree_lt domain_k.size_pos
      (domain_k.degree_interpolate_lt _)
  have hsum := domain_k.sumOver_of_natDegree_lt hdegree
  simp only [DensePolynomial.eval_toPoly] at hsum
  rw [DensePolynomial.toPoly_add, Polynomial.coeff_add, innerMask_coeff hmask, add_zero,
    eq_div_iff domain_k.size_ne_zero, mul_comm, ← hsum]

end ConstantCoefficient

/-! ### The assertions of the third round -/

section Degrees

variable {arith arith' : MatrixArithmetization F} {n : Nat}

/-- The polynomials of a matrix have at most `n` coefficients. -/
def MatrixArithmetization.LengthLe (n : Nat) (arith : MatrixArithmetization F) : Prop :=
  arith.row.coeffs.length ≤ n ∧ arith.col.coeffs.length ≤ n ∧ arith.val.coeffs.length ≤ n

theorem length_partDenom_le (hn : 0 < n) (h : arith.LengthLe n) (alpha beta : F) :
    (partDenom alpha beta arith).coeffs.length ≤ 2 * n - 1 := by
  obtain ⟨hrow, hcol, _⟩ := h
  have hconstant : ∀ c : F, (DensePolynomial.constant c).coeffs.length ≤ n :=
    fun c => (DensePolynomial.length_constant_le c).trans hn
  apply DensePolynomial.length_mul_le_of_le (DensePolynomial.length_sub_le (hconstant beta) hrow)
    (DensePolynomial.length_sub_le (hconstant alpha) hcol)
  omega

theorem length_partNom_le (h : arith.LengthLe n) (hn : 0 < n) (eta v : F) :
    (partNom eta v arith).coeffs.length ≤ n := by
  apply DensePolynomial.length_mul_le_of_le (DensePolynomial.length_constant_le _) h.2.2
  omega

theorem length_mul_partDenom_le (hn : 0 < n) (h : arith.LengthLe n) (h' : arith'.LengthLe n)
    (alpha beta : F) :
    (partDenom alpha beta arith * partDenom alpha beta arith').coeffs.length ≤ 4 * n - 3 := by
  apply DensePolynomial.length_mul_le_of_le (length_partDenom_le hn h alpha beta)
    (length_partDenom_le hn h' alpha beta)
  omega

variable {idx : Index F} {first : VerifierFirstMsg F} {second : VerifierSecondMsg F}

theorem length_thirdRoundBPoly_le (hn : 0 < n) (ha : idx.aArith.LengthLe n)
    (hb : idx.bArith.LengthLe n) (hc : idx.cArith.LengthLe n) :
    (thirdRoundBPoly idx first second).coeffs.length ≤ 6 * n - 5 := by
  apply DensePolynomial.length_mul_le_of_le (length_mul_partDenom_le hn ha hb _ _)
    (length_partDenom_le hn hc _ _)
  omega

theorem length_thirdRoundAPoly_le (hn : 0 < n) (ha : idx.aArith.LengthLe n)
    (hb : idx.bArith.LengthLe n) (hc : idx.cArith.LengthLe n) :
    (thirdRoundAPoly idx domain_h first second).coeffs.length ≤ 5 * n - 4 := by
  have hsummand : ∀ {p q : DensePolynomial F}, p.coeffs.length ≤ n → q.coeffs.length ≤ 4 * n - 3 →
      (p * q).coeffs.length ≤ 5 * n - 4 := by
    intro p q hp hq
    apply DensePolynomial.length_mul_le_of_le hp hq
    omega
  refine DensePolynomial.length_add_le (DensePolynomial.length_add_le ?_ ?_) ?_
  · exact hsummand (length_partNom_le ha hn _ _) (length_mul_partDenom_le hn hb hc _ _)
  · exact hsummand (length_partNom_le hb hn _ _) (length_mul_partDenom_le hn ha hc _ _)
  · exact hsummand (length_partNom_le hc hn _ _) (length_mul_partDenom_le hn ha hb _ _)

theorem length_proverThirdRoundF_le {f : DensePolynomial F}
    (hf : proverThirdRoundF idx domain_h domain_k first second = .ok f) :
    f.coeffs.length ≤ domain_k.size := by
  obtain ⟨_, rfl⟩ := proverThirdRoundF_eq_ok_iff.mp hf
  exact domain_k.length_interpolate_le _

theorem length_h_2_le {f : DensePolynomial F}
    (hf : proverThirdRoundF idx domain_h domain_k first second = .ok f)
    (ha : idx.aArith.LengthLe domain_k.size) (hb : idx.bArith.LengthLe domain_k.size)
    (hc : idx.cArith.LengthLe domain_k.size) :
    ((thirdRoundAPoly idx domain_h first second - thirdRoundBPoly idx first second * f).divideWithQAndR
      domain_k.vanishingPolynomial).1.coeffs.length ≤ 6 * domain_k.size - 6 := by
  have hpos := domain_k.size_pos
  have hA : (thirdRoundAPoly idx domain_h first second).coeffs.length ≤ 5 * domain_k.size - 4 :=
    length_thirdRoundAPoly_le hpos ha hb hc
  have hproduct : (thirdRoundBPoly idx first second * f).coeffs.length ≤ 7 * domain_k.size - 6 := by
    apply DensePolynomial.length_mul_le_of_le (length_thirdRoundBPoly_le hpos ha hb hc)
      (length_proverThirdRoundF_le hf)
    omega
  have hdifference := DensePolynomial.length_sub_le
    (hA.trans (by omega : 5 * domain_k.size - 4 ≤ 7 * domain_k.size - 6)) hproduct
  refine (domain_k.length_quotient_le _).trans ?_
  omega

theorem remainder_thirdRound {f : DensePolynomial F}
    (hf : proverThirdRoundF idx domain_h domain_k first second = .ok f) :
    ((thirdRoundAPoly idx domain_h first second - thirdRoundBPoly idx first second * f).divideWithQAndR
      domain_k.vanishingPolynomial).2 = 0 := by
  have hdenom := (proverThirdRoundF_eq_ok_iff.mp hf).1
  rw [DensePolynomial.remainder_eq_zero_iff domain_k.trimmed_vanishingPolynomial
    domain_k.vanishingPolynomial_length_pos]
  apply domain_k.vanishingPolynomial_dvd
  intro x hx
  rw [DensePolynomial.eval_toPoly, DensePolynomial.evaluate_sub, DensePolynomial.evaluate_mul,
    evaluate_thirdRoundAPoly, evaluate_thirdRoundBPoly, evaluate_proverThirdRoundF hf hx, fractionAt,
    mul_comm (denominatorAt idx first second x), inv_mul_cancel_right₀ (hdenom x hx), sub_self]

end Degrees

section Assertions

variable {state state' : ProverState F} {third : ProverThirdOracles F} {first : VerifierFirstMsg F}
  {second : VerifierSecondMsg F} {f t inner_mask_poly : DensePolynomial F}

theorem proverThirdRound_eq_ok (h : proverThirdRound second state = .ok (third, state')) :
    ∃ inner_mask_poly first,
      state.innerMaskPoly = some inner_mask_poly ∧ state.verifierFirstMsg = some first ∧
      proverThirdRoundF state.index state.domainH state.domainK first second = .ok third.f ∧
      divideByX (third.f + inner_mask_poly) = .ok third.g2 ∧
      degree ((thirdRoundAPoly state.index state.domainH first second -
        thirdRoundBPoly state.index first second * third.f).divideWithQAndR
          state.domainK.vanishingPolynomial).1 < 6 * state.domainK.size - 6 ∧
      state' = { state with innerMaskPoly := none } := by
  obtain ⟨inner_mask_poly, hinner, h⟩ := bind_eq_ok_iff.mp h
  obtain ⟨first, hfirst, h⟩ := bind_eq_ok_iff.mp h
  obtain ⟨f_poly, hf, h⟩ := bind_eq_ok_iff.mp h
  dsimp only at h
  obtain ⟨_, h⟩ := ite_throw_eq_ok_iff.mp h
  obtain ⟨g_2, hg_2, h⟩ := bind_eq_ok_iff.mp h
  obtain ⟨sumcheck_eval, _, h⟩ := bind_eq_ok_iff.mp h
  obtain ⟨constant, _, h⟩ := bind_eq_ok_iff.mp h
  obtain ⟨_, h⟩ := ite_throw_eq_ok_iff.mp h
  obtain ⟨_, h⟩ := ite_throw_eq_ok_iff.mp h
  obtain ⟨_, h⟩ := ite_throw_eq_ok_iff.mp h
  obtain ⟨hdegree, h⟩ := ite_throw_eq_ok_iff.mp h
  obtain ⟨_, h⟩ := ite_throw_eq_ok_iff.mp h
  cases h
  exact ⟨inner_mask_poly, first, need_eq_ok_iff.mp hinner, need_eq_ok_iff.mp hfirst, hf, hg_2,
    not_not.mp hdegree, rfl⟩

/-- The assertions hold when the constant coefficient is the sum and `K` has two elements. -/
theorem proverThirdRound_of_coeff (hfirst : state.verifierFirstMsg = some first)
    (hinner : state.innerMaskPoly = some inner_mask_poly)
    (hinner_len : inner_mask_poly.coeffs.length ≤ state.domainK.size)
    (ha : state.index.aArith.LengthLe state.domainK.size)
    (hb : state.index.bArith.LengthLe state.domainK.size)
    (hc : state.index.cArith.LengthLe state.domainK.size)
    (hf : proverThirdRoundF state.index state.domainH state.domainK first second = .ok f)
    (ht : calculateT [state.index.a, state.index.b, state.index.c]
      [first.etaA, first.etaB, first.etaC] state.domainH
      (batchEvalUnnormalizedBivariateLagrangePolyWithDiffInputs state.domainH first.alpha) = .ok t)
    (hcoeff : (f + inner_mask_poly).toPoly.coeff 0 =
      t.evaluate second.beta * (state.domainK.size : F)⁻¹)
    (hsize : 2 ≤ state.domainK.size) {g_2 : DensePolynomial F}
    (hg_2 : divideByX (f + inner_mask_poly) = .ok g_2) :
    proverThirdRound second state = .ok (⟨f, g_2⟩, { state with innerMaskPoly := none }) := by
  have hf_len := length_proverThirdRoundF_le hf
  have hremainder := remainder_thirdRound hf
  have hh_2 := length_h_2_le hf ha hb hc
  have hg_2_len := (length_divideByX_le hg_2).trans
    (Nat.sub_le_sub_right (DensePolynomial.length_add_le hf_len hinner_len) 1)
  have hX := toPoly_divideByX hg_2
  rw [hcoeff] at hX
  have hsplit : f + inner_mask_poly =
      .fromCoefficientsVec [0, 1] * g_2 +
        .fromCoefficientsVec [t.evaluate second.beta * (state.domainK.size : F)⁻¹] := by
    apply (DensePolynomial.trimmed_add _ _).eq (DensePolynomial.trimmed_add _ _)
    rw [hX, DensePolynomial.toPoly_add, DensePolynomial.toPoly_mul,
      DensePolynomial.toPoly_fromCoefficientsVec, DensePolynomial.toPoly_fromCoefficientsVec]
    simp only [DensePolynomial.ofCoeffs_cons, DensePolynomial.ofCoeffs_nil, map_zero, map_one]
    ring
  refine bind_eq_of_ok (need_eq_ok_iff.mpr hinner) (bind_eq_of_ok (need_eq_ok_iff.mpr hfirst)
    (bind_eq_of_ok hf ?_))
  dsimp only
  rw [ite_throw_eq_ok_iff]
  refine ⟨not_not.mpr hremainder, bind_eq_of_ok hg_2 (bind_eq_of_ok (bind_eq_of_ok ht rfl)
    (bind_eq_of_ok (a := t.evaluate second.beta * (state.domainK.size : F)⁻¹) ?_ ?_))⟩
  · rw [← hcoeff, coeff_toPoly]
    obtain ⟨hne, _⟩ := divideByX_eq_ok_iff.mp hg_2
    apply need_eq_ok_iff.mpr
    rw [List.getD_eq_getElem _ _ (List.length_pos_iff.mpr hne)]
    exact List.getElem?_eq_getElem _
  · simp only [ite_throw_eq_ok_iff, ne_eq, not_not]
    refine ⟨trivial, hsplit, ?_, ?_, ?_, rfl⟩
    · rw [← DensePolynomial.eval_toPoly, hX, Polynomial.eval_add, Polynomial.eval_C,
        Polynomial.eval_mul, Polynomial.eval_X, DensePolynomial.eval_toPoly, add_comm]
    · rw [degree]
      omega
    · rw [degree]
      omega

/-- Both summands have as many coefficients as `K` has elements, so values on `K` decide. -/
theorem f_mask_eq_zero_iff {idx : Index F}
    (hf : proverThirdRoundF idx domain_h domain_k first second = .ok f)
    (hinner_len : inner_mask_poly.coeffs.length ≤ domain_k.size) :
    f + inner_mask_poly = 0 ↔ ∀ x ∈ domain_k.elements,
      inner_mask_poly.evaluate x = -fractionAt idx domain_h first second x := by
  have hvalue : ∀ x ∈ domain_k.elements, (f + inner_mask_poly).evaluate x =
      fractionAt idx domain_h first second x + inner_mask_poly.evaluate x := by
    intro x hx
    rw [DensePolynomial.evaluate_add, evaluate_proverThirdRoundF hf hx]
  constructor
  · intro hzero x hx
    have hx_value := hvalue x hx
    rw [hzero, DensePolynomial.evaluate_zero] at hx_value
    exact eq_neg_of_add_eq_zero_right hx_value.symm
  · intro hcancel
    have hdegree : (f + inner_mask_poly).toPoly.degree < domain_k.size := by
      refine (DensePolynomial.degree_toPoly_lt _).trans_le ?_
      exact_mod_cast DensePolynomial.length_add_le (length_proverThirdRoundF_le hf) hinner_len
    apply (DensePolynomial.trimmed_add _ _).eq DensePolynomial.trimmed_zero
    apply domain_k.eq_of_eval_eq hdegree (by simp)
    intro x hx
    rw [DensePolynomial.eval_toPoly, DensePolynomial.eval_toPoly, hvalue x hx, hcancel x hx,
      add_neg_cancel, DensePolynomial.evaluate_zero]

end Assertions

/-! ### The whole sum check -/

section Complete

variable {first : VerifierFirstMsg F} {second : VerifierSecondMsg F}

/-- Whatever the masking, the third round returns a polynomial `g_2` that makes the inner sum check
hold at every `gamma`, unless `K` has one element or the masking cancels the three fractions. -/
def InnerSumcheckComplete (idx : Index F) (domain_k domain_h : EvaluationDomain F)
    (first : VerifierFirstMsg F) (second : VerifierSecondMsg F) (t f : DensePolynomial F) : Prop :=
  ∀ rng inner_mask_poly, innerMask domain_k rng = .ok inner_mask_poly →
    (f + inner_mask_poly).coeffs.getD 0 0 = t.evaluate second.beta / domain_k.size ∧
    ∀ state : ProverState F, state.index = idx → state.domainH = domain_h →
      state.domainK = domain_k → state.verifierFirstMsg = some first →
      state.innerMaskPoly = some inner_mask_poly →
      ((∃ out, proverThirdRound second state = .ok out) ↔ 2 ≤ domain_k.size ∧
        ∃ x ∈ domain_k.elements,
          inner_mask_poly.evaluate x ≠ -fractionAt idx domain_h first second x) ∧
      ∀ third state', proverThirdRound second state = .ok (third, state') → third.f = f ∧
        ∀ (first_oracles : ProverFirstOracles F) (second_oracles : ProverSecondOracles F) (gamma : F),
          first_oracles.innerMaskPoly = inner_mask_poly → second_oracles.t = t →
          ∃ lcs, constructLinearCombinations
              (getLcEval (proverOracles first_oracles second_oracles third)) domain_h domain_k
              first second gamma = .ok lcs ∧
            ∃ lc ∈ lcs, lc.label = "f_sumcheck" ∧
              getLcEval (proverOracles first_oracles second_oracles third) lc gamma = .ok 0

variable {idx : Index F} {t f inner_mask_poly : DensePolynomial F} {state : ProverState F}

theorem Arithmetized.lengthLe (h : Arithmetized idx domain_k domain_h) :
    idx.aArith.LengthLe domain_k.size ∧ idx.bArith.LengthLe domain_k.size ∧
      idx.cArith.LengthLe domain_k.size :=
  ⟨arithmetizeMatrix_length h.a, arithmetizeMatrix_length h.b, arithmetizeMatrix_length h.c⟩

/-- The third round returns unless `K` has one element or nothing is left of `f` and its masking. -/
theorem exists_proverThirdRound_iff {rng : Nat → F}
    (hidx : Arithmetized state.index state.domainK state.domainH)
    (hfirst : state.verifierFirstMsg = some first)
    (hinner : state.innerMaskPoly = some inner_mask_poly)
    (hmask : innerMask state.domainK rng = .ok inner_mask_poly)
    (hf : proverThirdRoundF state.index state.domainH state.domainK first second = .ok f)
    (ht : calculateT [state.index.a, state.index.b, state.index.c]
      [first.etaA, first.etaB, first.etaC] state.domainH
      (batchEvalUnnormalizedBivariateLagrangePolyWithDiffInputs state.domainH first.alpha) = .ok t)
    (hcoeff : (f + inner_mask_poly).toPoly.coeff 0 = t.evaluate second.beta / state.domainK.size) :
    (∃ out, proverThirdRound second state = .ok out) ↔
      2 ≤ state.domainK.size ∧ f + inner_mask_poly ≠ 0 := by
  constructor
  · rintro ⟨⟨third, state'⟩, hout⟩
    obtain ⟨_, _, hmask', hfirst', hf', hg_2, hdegree, _⟩ := proverThirdRound_eq_ok hout
    cases hinner.symm.trans hmask'
    cases hfirst.symm.trans hfirst'
    cases hf.symm.trans hf'
    -- a quotient of degree below `6 * 1 - 6` does not exist
    refine ⟨by omega, fun hzero => ?_⟩
    exact (divideByX_eq_ok_iff.mp hg_2).1 (congrArg DensePolynomial.coeffs hzero)
  · rintro ⟨hsize, hne⟩
    have hcoeffs : (f + inner_mask_poly).coeffs ≠ [] :=
      fun hnil => hne (DensePolynomial.mk.injEq _ _ ▸ hnil)
    obtain ⟨ha, hb, hc⟩ := hidx.lengthLe
    rw [div_eq_mul_inv] at hcoeff
    exact ⟨_, proverThirdRound_of_coeff hfirst hinner (length_innerMask_le hmask) ha hb hc hf ht
      hcoeff hsize (divideByX_eq_ok_iff.mpr ⟨hcoeffs, rfl⟩)⟩

theorem innerSumcheckComplete (hidx : Arithmetized idx domain_k domain_h)
    (ht : calculateT [idx.a, idx.b, idx.c] [first.etaA, first.etaB, first.etaC] domain_h
      (batchEvalUnnormalizedBivariateLagrangePolyWithDiffInputs domain_h first.alpha) = .ok t)
    (hf : proverThirdRoundF idx domain_h domain_k first second = .ok f)
    (hsum : domain_k.sumOver f.evaluate = t.evaluate second.beta) :
    InnerSumcheckComplete idx domain_k domain_h first second t f := by
  intro rng inner_mask_poly hmask
  have hcoeff := coeff_f_mask hf hmask
  rw [hsum] at hcoeff
  refine ⟨by rw [← coeff_toPoly, hcoeff], ?_⟩
  rintro state rfl rfl rfl hfirst hinner
  constructor
  · rw [exists_proverThirdRound_iff hidx hfirst hinner hmask hf ht hcoeff, ne_eq,
      f_mask_eq_zero_iff hf (length_innerMask_le hmask)]
    simp only [not_forall, exists_prop, ne_eq]
  · intro third state' hout
    obtain ⟨_, _, hmask', hfirst', hf', hg_2, _⟩ := proverThirdRound_eq_ok hout
    cases hinner.symm.trans hmask'
    cases hfirst.symm.trans hfirst'
    cases hf.symm.trans hf'
    refine ⟨rfl, ?_⟩
    intro first_oracles second_oracles gamma hmask_oracle ht_oracle
    obtain ⟨lcs, hlcs, _, hmem⟩ := exists_constructLinearCombinations first_oracles second_oracles
      third first second state.domainH state.domainK gamma
    refine ⟨lcs, hlcs, _, hmem, rfl, ?_⟩
    have hvalue := congrArg (Polynomial.eval gamma) (toPoly_divideByX hg_2)
    rw [hcoeff, DensePolynomial.eval_toPoly, DensePolynomial.evaluate_add, Polynomial.eval_add,
      Polynomial.eval_C, Polynomial.eval_mul, Polynomial.eval_X, DensePolynomial.eval_toPoly] at hvalue
    rw [getLcEval_fSumcheck, hmask_oracle, ht_oracle]
    congr 1
    linear_combination hvalue

/-- For matrices with entries inside of `H` the sum of `f` over `K` is `t` at `beta`, and the inner
sum check holds at every `gamma`. -/
theorem exists_fSumcheck (index_info : R1CSfIndex) {a b c : Matrix F}
    (hm : ∀ m ∈ [a, b, c], InRange domain_h m ∧ 1 ≤ (matrixEntries m).length ∧
      (matrixEntries m).length ≤ domain_k.size)
    (halpha : first.alpha ∉ domain_h.elements) (hbeta : second.beta ∉ domain_h.elements) :
    ∃ a_arith b_arith c_arith t f,
      arithmetizeMatrix a domain_k domain_h false = .ok a_arith ∧
      arithmetizeMatrix b domain_k domain_h false = .ok b_arith ∧
      arithmetizeMatrix c domain_k domain_h true = .ok c_arith ∧
      calculateT [a, b, c] [first.etaA, first.etaB, first.etaC] domain_h
        (batchEvalUnnormalizedBivariateLagrangePolyWithDiffInputs domain_h first.alpha) = .ok t ∧
      proverThirdRoundF ⟨index_info, a_arith, b_arith, c_arith, a, b, c⟩ domain_h domain_k first
        second = .ok f ∧
      domain_k.sumOver f.evaluate = t.evaluate second.beta ∧
      InnerSumcheckComplete ⟨index_info, a_arith, b_arith, c_arith, a, b, c⟩ domain_k domain_h first
        second t f := by
  simp only [List.forall_mem_cons] at hm
  obtain ⟨⟨hrange_a, hpos_a, hlen_a⟩, ⟨hrange_b, hpos_b, hlen_b⟩, ⟨hrange_c, hpos_c, hlen_c⟩, _⟩ := hm
  obtain ⟨a_arith, ha⟩ := exists_arithmetizeMatrix_of_inRange domain_k false
    (List.length_pos_iff.mp hpos_a) hrange_a
  obtain ⟨b_arith, hb⟩ := exists_arithmetizeMatrix_of_inRange domain_k false
    (List.length_pos_iff.mp hpos_b) hrange_b
  obtain ⟨c_arith, hc⟩ := exists_arithmetizeMatrix_of_inRange domain_k true
    (List.length_pos_iff.mp hpos_c) hrange_c
  have hrange : ∀ m ∈ [a, b, c], InRange domain_h m := by
    simp only [List.forall_mem_cons]
    exact ⟨hrange_a, hrange_b, hrange_c, nofun⟩
  have hidx : Arithmetized ⟨index_info, a_arith, b_arith, c_arith, a, b, c⟩ domain_k domain_h :=
    ⟨ha, hb, hc, by simpa using ⟨hlen_a, hlen_b, hlen_c⟩⟩
  obtain ⟨t, ht⟩ : ∃ t, calculateT [a, b, c] [first.etaA, first.etaB, first.etaC] domain_h
      (batchEvalUnnormalizedBivariateLagrangePolyWithDiffInputs domain_h first.alpha) = .ok t :=
    exists_calculateT hrange (length_diff_inputs first.alpha)
  obtain ⟨f, hf, hsum⟩ := exists_proverThirdRoundF hidx halpha hbeta
  rw [← evaluate_t hrange ht hbeta] at hsum
  exact ⟨a_arith, b_arith, c_arith, t, f, ha, hb, hc, ht, hf, hsum,
    innerSumcheckComplete hidx ht hf hsum⟩

/-- Matrices over seventeen elements, one with a repeated position. -/
theorem exists_fSumcheck_repeated : ∃ domain : EvaluationDomain (ZMod 17),
    params17.radix2Domain 2 = some domain ∧
    ∃ a_arith b_arith c_arith t f,
      arithmetizeMatrix [[(2, 0), (3, 0)], []] domain domain false = .ok a_arith ∧
      arithmetizeMatrix [[], [(5, 0)]] domain domain false = .ok b_arith ∧
      arithmetizeMatrix [[(1, 0)], [(1, 1)]] domain domain true = .ok c_arith ∧
      calculateT [[[(2, 0), (3, 0)], []], [[], [(5, 0)]], [[(1, 0)], [(1, 1)]]] [1, 2, 4] domain
        (batchEvalUnnormalizedBivariateLagrangePolyWithDiffInputs domain 0) = .ok t ∧
      proverThirdRoundF ⟨⟨2, 1, 1, 2⟩, a_arith, b_arith, c_arith, [[(2, 0), (3, 0)], []],
        [[], [(5, 0)]], [[(1, 0)], [(1, 1)]]⟩ domain domain ⟨0, 1, 2, 4⟩ ⟨3⟩ = .ok f ∧
      domain.sumOver f.evaluate = t.evaluate 3 ∧
      InnerSumcheckComplete ⟨⟨2, 1, 1, 2⟩, a_arith, b_arith, c_arith, [[(2, 0), (3, 0)], []],
        [[], [(5, 0)]], [[(1, 0)], [(1, 1)]]⟩ domain domain ⟨0, 1, 2, 4⟩ ⟨3⟩ t f := by
  have hclog : Nat.clog 2 2 = 1 := by norm_num
  obtain ⟨domain, hdomain⟩ := params17.exists_radix2Domain (by rw [hclog]; decide)
  have hsize : domain.size = 2 := by rw [params17.radix2Domain_size hdomain, hclog]; rfl
  refine ⟨domain, hdomain, ?_⟩
  have hm : ∀ m ∈ ([[[(2, 0), (3, 0)], []], [[], [(5, 0)]], [[(1, 0)], [(1, 1)]]] :
      List (Matrix (ZMod 17))), InRange domain m ∧ 1 ≤ (matrixEntries m).length ∧
        (matrixEntries m).length ≤ domain.size := by
    simp only [InRange, hsize]
    decide
  have hbeta : (3 : ZMod 17) ∉ domain.elements := by
    rw [domain.mem_elements, hsize]
    decide
  exact @exists_fSumcheck (ZMod 17) _ _ domain domain ⟨0, 1, 2, 4⟩ ⟨3⟩ ⟨2, 1, 1, 2⟩ _ _ _ hm
    (zero_not_mem domain) hbeta

/-- The polynomial `f` of these two matrices is `12 X` at the challenges, and its masking `5 X`. -/
theorem thirdRound_aborts : ∃ idx state oracles state₁ second_oracles state₂,
    index params17 ⟨2, 1, 1, 2⟩ [[(1, 0)], [(2, 1)]] [[(1, 1)], [(1, 0)]] [[(1, 0)], [(1, 1)]] =
      .ok idx ∧
    proverInit params17 idx [1, 2] = .ok state ∧
    proverFirstRound state (fun _ => (5 : ZMod 17)) = .ok (oracles, state₁) ∧
    proverSecondRound params17 ⟨0, 1, 7, 0⟩ state₁ = .ok (second_oracles, state₂) ∧
    0 ∉ state.domainH.elements ∧ 3 ∉ state.domainH.elements ∧
    proverThirdRound ⟨3⟩ state₂ = .error .aborted := by
  have hrun : ((index params17 ⟨2, 1, 1, 2⟩ [[((1 : ZMod 17), 0)], [(2, 1)]] [[(1, 1)], [(1, 0)]]
      [[(1, 0)], [(1, 1)]] >>= fun idx => proverInit params17 idx [1, 2] >>= fun state =>
      proverFirstRound state (fun _ => 5) >>= fun first =>
      proverSecondRound params17 ⟨0, 1, 7, 0⟩ first.2 >>= fun second =>
        pure (state, second)).toOption.any fun out =>
      decide (0 ∉ out.1.domainH.elements ∧ 3 ∉ out.1.domainH.elements ∧
        (proverThirdRound ⟨3⟩ out.2.2).map (fun _ => ()) = .error .aborted)) = true := by
    decide +kernel
  obtain ⟨⟨state, second_oracles, state₂⟩, hrun, hchecks⟩ := exists_of_any hrun
  obtain ⟨idx, hidx, hrun⟩ := bind_eq_ok_iff.mp hrun
  obtain ⟨state', hstate, hrun⟩ := bind_eq_ok_iff.mp hrun
  obtain ⟨⟨oracles, state₁⟩, hfirst, hrun⟩ := bind_eq_ok_iff.mp hrun
  obtain ⟨second', hsecond, hrun⟩ := bind_eq_ok_iff.mp hrun
  cases hrun
  obtain ⟨halpha, hbeta, hthird⟩ := of_decide_eq_true hchecks
  exact ⟨idx, state, oracles, state₁, second_oracles, state₂, hidx, hstate, hfirst, hsecond, halpha,
    hbeta, map_eq_error_iff.mp hthird⟩

end Complete

end Lootbox.IndexPrivateMarlin

import Lootbox.Commitment.IndexPrivateMarlin

/-!
# `index_private_marlin`: what the rational sumcheck oracle takes on `K`

The prover scales the numerator by the vanishing polynomial of `H`, the virtual oracle by
that of `K`. The oracle is the difference of the two factors times the numerator.
-/

namespace Lootbox.IndexPrivateMarlin

open AcCompiler ZeroOverK

variable {F : Type} [Field F] [DecidableEq F]

/-! ### Arithmetized matrices -/

section Arithmetize

section Normalization

variable (domain : EvaluationDomain F)

omit [DecidableEq F] in
theorem element_sub {i : Nat} (hi : i ≤ domain.size) :
    domain.element (domain.size - i) = (domain.element i)⁻¹ := by
  apply eq_inv_of_mul_eq_one_left
  rw [EvaluationDomain.element, EvaluationDomain.element, ← pow_add, Nat.sub_add_cancel hi,
    domain.primitive.pow_eq_one]

omit [DecidableEq F] in
theorem elements_getElem? (i : Nat) :
    domain.elements[i]? = if i < domain.size then some (domain.element i) else none := by
  rw [EvaluationDomain.elements, List.getElem?_map]
  by_cases hi : i < domain.size
  · rw [if_pos hi, List.getElem?_range hi]
    rfl
  · rw [if_neg hi, List.getElem?_eq_none (by rw [List.length_range]; omega)]
    rfl

omit [DecidableEq F] in
theorem same_inputs_eq : batchEvalUnnormalizedBivariateLagrangePolyWithSameInputs domain =
    domain.elements.map fun x => x⁻¹ * (domain.size : F) := by
  have hlen : (domain.elements.map (· * (domain.size : F))).length = domain.size := by
    rw [List.length_map, EvaluationDomain.elements, List.length_map, List.length_range]
  have hget : ∀ j < domain.size, (domain.elements.map (· * (domain.size : F)))[j]? =
      some (domain.element j * domain.size) := by
    intro j hj
    rw [List.getElem?_map, elements_getElem?, if_pos hj]
    rfl
  rw [batchEvalUnnormalizedBivariateLagrangePolyWithSameInputs]
  cases hlist : domain.elements.map (· * (domain.size : F)) with
  | nil =>
    have := domain.size_pos
    rw [hlist, List.length_nil] at hlen
    omega
  | cons elem elems =>
    rw [hlist] at hget hlen
    rw [List.length_cons] at hlen
    apply List.ext_getElem?
    intro i
    rw [List.getElem?_map, elements_getElem?]
    by_cases hi : i < domain.size
    · rw [if_pos hi, Option.map_some]
      cases i with
      | zero =>
        have hzero := hget 0 hi
        rw [EvaluationDomain.element, pow_zero] at hzero ⊢
        rw [inv_one]
        exact hzero
      | succ i =>
        have hindex : elems.length - 1 - i + 1 = domain.size - (i + 1) := by omega
        have hback := hget (elems.length - 1 - i + 1) (by omega)
        rw [List.getElem?_cons_succ, hindex, element_sub domain (by omega)] at hback
        dsimp only
        rw [List.getElem?_cons_succ, List.getElem?_reverse (by omega), hback]
    · rw [if_neg hi, Option.map_none]
      dsimp only
      rw [List.getElem?_eq_none (by rw [List.length_cons, List.length_reverse]; omega)]

/-- What the entry `e` stands for. -/
def entryAt (e : (F × Nat) × Nat) : EntryEvals F :=
  ⟨domain.element e.1.2, domain.element e.2,
    e.1.1 * ((domain.element e.1.2)⁻¹ * domain.size)⁻¹⟩

omit [Field F] in
theorem lookup_zip_map (g : F → F) {xs : List F} {x : F} (hx : x ∈ xs) :
    (xs.zip (xs.map g)).lookup x = some (g x) := by
  induction xs with
  | nil => cases hx
  | cons y ys ih =>
    rw [List.map_cons, List.zip_cons_cons, List.lookup_cons]
    by_cases hxy : x = y
    · rw [hxy, beq_self_eq_true]
    · rw [beq_false_of_ne hxy]
      exact ih ((List.mem_cons.mp hx).resolve_left hxy)

theorem entryEvals_eq_ok_iff {e : (F × Nat) × Nat} {ev : EntryEvals F} :
    entryEvals domain e = .ok ev ↔
      (e.2 < domain.size ∧ e.1.2 < domain.size) ∧ ev = entryAt domain e := by
  rw [entryEvals]
  by_cases hrow : e.2 < domain.size
  · by_cases hcol : e.1.2 < domain.size
    · have hlookup := lookup_zip_map (fun x : F => x⁻¹ * domain.size) (domain.element_mem e.1.2)
      simp only [elements_getElem?, hrow, hcol, if_true, need_some, ok_bind, same_inputs_eq, hlookup,
        and_self, true_and]
      constructor
      · intro h
        cases h
        rfl
      · rintro rfl
        rfl
    · simp [elements_getElem?, hrow, hcol]
  · simp [elements_getElem?, hrow]

end Normalization

omit [DecidableEq F] in
theorem padTo_getD {size k : Nat} (hk : k < size) (evals : List F) (value : F) :
    (padTo size evals value).getD k 0 = evals.getD k value := by
  rw [padTo, List.getD_eq_getElem?_getD, List.getD_eq_getElem?_getD]
  by_cases hlt : k < evals.length
  · rw [List.getElem?_append_left hlt, List.getElem?_eq_getElem hlt]
    rfl
  · have hrep : k - evals.length < size - evals.length := by omega
    rw [List.getElem?_append_right (by omega), List.getElem?_replicate, if_pos hrep,
      List.getElem?_eq_none (by omega)]
    rfl

omit [DecidableEq F] [Field F] in
theorem matrixEntries_map_fst (m : Matrix F) : (matrixEntries m).map Prod.fst = m.flatten := by
  rw [matrixEntries, List.map_flatMap]
  have hrow : ∀ (row : List (F × Nat)) (i : Nat),
      (row.map fun entry => (entry, i)).map Prod.fst = row := by
    intro row i
    rw [List.map_map]
    exact List.map_id row
  simp only [hrow]
  rw [List.flatMap, List.zipIdx_map_fst]

/-- The first entries of a matrix, as many as the domain has elements, are zero. -/
def ZeroOn (domain_k : EvaluationDomain F) (m : Matrix F) : Prop :=
  ∀ e ∈ m.flatten.take domain_k.size, e.1 = 0

/-- The entries of the matrix lie inside of `H`. -/
def InRange (domain_h : EvaluationDomain F) (m : Matrix F) : Prop :=
  ∀ e ∈ matrixEntries m, e.2 < domain_h.size ∧ e.1.2 < domain_h.size

omit [DecidableEq F] in
theorem inRange_of_length {domain_h : EvaluationDomain F} {m : Matrix F}
    (hrows : m.length ≤ domain_h.size) (hcols : ∀ e ∈ m.flatten, e.2 < domain_h.size) :
    InRange domain_h m := by
  intro e he
  constructor
  · obtain ⟨⟨row, i⟩, hmem, he⟩ := List.mem_flatMap.mp he
    obtain ⟨entry, _, rfl⟩ := List.mem_map.mp he
    have := List.snd_lt_of_mem_zipIdx hmem
    omega
  · apply hcols
    rw [← matrixEntries_map_fst]
    exact List.mem_map_of_mem he

section Matrix

variable {m : Matrix F} {domain_k domain_h : EvaluationDomain F} {is_diag_matrix : Bool}
  {arith : MatrixArithmetization F}

def MatrixArithmetization.at (arith : MatrixArithmetization F) (x : F) : EntryEvals F :=
  ⟨arith.row.evaluate x, arith.col.evaluate x, arith.val.evaluate x⟩

def padding (is_diag_matrix : Bool) (last : EntryEvals F) : EntryEvals F :=
  if is_diag_matrix then ⟨1, 1, 0⟩ else ⟨last.row, last.col, 0⟩

theorem arithmetizeMatrix_length (h : arithmetizeMatrix m domain_k domain_h is_diag_matrix = .ok arith) :
    arith.row.coeffs.length ≤ domain_k.size ∧ arith.col.coeffs.length ≤ domain_k.size ∧
      arith.val.coeffs.length ≤ domain_k.size := by
  obtain ⟨entries, _, h⟩ := bind_eq_ok_iff.mp h
  obtain ⟨last, _, h⟩ := bind_eq_ok_iff.mp h
  cases h
  exact ⟨EvaluationDomain.length_interpolate_le _ _, EvaluationDomain.length_interpolate_le _ _,
    EvaluationDomain.length_interpolate_le _ _⟩

theorem arithmetizeMatrix_eq_ok (h : arithmetizeMatrix m domain_k domain_h is_diag_matrix = .ok arith) :
    InRange domain_h m ∧ ∃ last ∈ matrixEntries m, ∀ k < domain_k.size,
      arith.at (domain_k.element k) =
        ((matrixEntries m).map (entryAt domain_h)).getD k
          (padding is_diag_matrix (entryAt domain_h last)) := by
  obtain ⟨entries, hentries, h⟩ := bind_eq_ok_iff.mp h
  obtain ⟨last, hlast, h⟩ := bind_eq_ok_iff.mp h
  cases h
  rw [mapM_eq_ok_map_iff fun e _ ev => entryEvals_eq_ok_iff domain_h] at hentries
  obtain ⟨hrange, rfl⟩ := hentries
  rw [need_eq_ok_iff] at hlast
  obtain ⟨e, he, rfl⟩ := List.mem_map.mp (List.mem_of_getLast? hlast)
  refine ⟨hrange, e, he, fun k hk => ?_⟩
  have hat : ∀ (xs : List F) (value : F), (domain_k.interpolate
      (padTo domain_k.size xs value)).evaluate (domain_k.element k) = xs.getD k value := by
    intro xs value
    rw [domain_k.evaluate_interpolate _ hk, EvaluationDomain.resize_getD_of_lt hk, padTo_getD hk]
  rw [MatrixArithmetization.at]
  dsimp only
  rw [hat, hat, hat]
  rcases Nat.lt_or_ge k (matrixEntries m).length with hlt | hge
  · simp [hlt]
  · cases is_diag_matrix with
    | true => simp [hge, padding]
    | false => simp [hge, padding]

omit [DecidableEq F] in
theorem entryAt_val_eq_zero (domain : EvaluationDomain F) {e : (F × Nat) × Nat} :
    (entryAt domain e).val = 0 ↔ e.1.1 = 0 := by
  have hne : ((domain.element e.1.2)⁻¹ * (domain.size : F))⁻¹ ≠ 0 :=
    inv_ne_zero (mul_ne_zero (inv_ne_zero (pow_ne_zero _ domain.groupGen_ne_zero))
      domain.size_ne_zero)
  rw [entryAt, mul_eq_zero, or_iff_left hne]

theorem arithmetizeMatrix_spec (h : arithmetizeMatrix m domain_k domain_h is_diag_matrix = .ok arith) :
    (∀ x ∈ domain_k.elements, arith.row.evaluate x ∈ domain_h.elements ∧
      arith.col.evaluate x ∈ domain_h.elements) ∧
    ((∀ x ∈ domain_k.elements, arith.val.evaluate x = 0) ↔ ZeroOn domain_k m) := by
  obtain ⟨_, last, _, hat⟩ := arithmetizeMatrix_eq_ok h
  have hin : ∀ k, (((matrixEntries m).map (entryAt domain_h)).getD k
      (padding is_diag_matrix (entryAt domain_h last))).row ∈ domain_h.elements ∧
      (((matrixEntries m).map (entryAt domain_h)).getD k
        (padding is_diag_matrix (entryAt domain_h last))).col ∈ domain_h.elements := by
    intro k
    rcases Nat.lt_or_ge k (matrixEntries m).length with hlt | hge
    · rw [List.getD_eq_getElem _ _ (by rw [List.length_map]; exact hlt), List.getElem_map]
      exact ⟨domain_h.element_mem _, domain_h.element_mem _⟩
    · rw [List.getD_eq_default _ _ (by rw [List.length_map]; exact hge)]
      cases is_diag_matrix with
      | true => exact ⟨domain_h.one_mem, domain_h.one_mem⟩
      | false => exact ⟨domain_h.element_mem _, domain_h.element_mem _⟩
  have hval : (padding is_diag_matrix (entryAt domain_h last)).val = 0 := by
    cases is_diag_matrix with
    | true => rfl
    | false => rfl
  rw [EvaluationDomain.elements, List.forall_mem_map, List.forall_mem_map]
  simp only [List.mem_range]
  constructor
  · intro k hk
    have hrow := congrArg EntryEvals.row (hat k hk)
    have hcol := congrArg EntryEvals.col (hat k hk)
    dsimp only [MatrixArithmetization.at] at hrow hcol
    rw [hrow, hcol]
    exact hin k
  · rw [ZeroOn, ← matrixEntries_map_fst]
    constructor
    · intro hzero e he
      obtain ⟨k, hk, rfl⟩ := List.mem_take_iff_getElem.mp he
      rw [List.length_map, lt_min_iff] at hk
      have hkzero := (congrArg EntryEvals.val (hat k hk.1)).symm.trans (hzero k hk.1)
      rw [List.getD_eq_getElem _ _ (by rw [List.length_map]; exact hk.2), List.getElem_map,
        entryAt_val_eq_zero] at hkzero
      rw [List.getElem_map]
      exact hkzero
    · intro hzero k hk
      refine (congrArg EntryEvals.val (hat k hk)).trans ?_
      rcases Nat.lt_or_ge k (matrixEntries m).length with hlt | hge
      · rw [List.getD_eq_getElem _ _ (by rw [List.length_map]; exact hlt), List.getElem_map,
          entryAt_val_eq_zero]
        apply hzero
        rw [List.mem_take_iff_getElem]
        exact ⟨k, by rw [List.length_map]; omega, by rw [List.getElem_map]⟩
      · rw [List.getD_eq_default _ _ (by rw [List.length_map]; exact hge)]
        exact hval

end Matrix

end Arithmetize

/-! ### Prover and oracle on `K` -/

section Pointwise

/-- `(beta - row(x)) * (alpha - col(x))` -/
def denomAt (alpha beta : F) (m : MatrixArithmetization F) (x : F) : F :=
  (beta - m.row.evaluate x) * (alpha - m.col.evaluate x)

/-- The numerator without the factor of the vanishing polynomials. -/
def numeratorAt (idx : Index F) (first : VerifierFirstMsg F) (second : VerifierSecondMsg F)
    (x : F) : F :=
  let a := denomAt first.alpha second.beta idx.aArith x
  let b := denomAt first.alpha second.beta idx.bArith x
  let c := denomAt first.alpha second.beta idx.cArith x
  first.etaA * idx.aArith.val.evaluate x * (b * c) +
    first.etaB * idx.bArith.val.evaluate x * (a * c) +
    first.etaC * idx.cArith.val.evaluate x * (a * b)

def denominatorAt (idx : Index F) (first : VerifierFirstMsg F) (second : VerifierSecondMsg F)
    (x : F) : F :=
  denomAt first.alpha second.beta idx.aArith x * denomAt first.alpha second.beta idx.bArith x *
    denomAt first.alpha second.beta idx.cArith x

/-- The factor that the prover takes at `H` and the macro at `K`. -/
def vanishingFactor (domain : EvaluationDomain F) (first : VerifierFirstMsg F)
    (second : VerifierSecondMsg F) : F :=
  domain.evaluateVanishingPolynomial first.alpha * domain.evaluateVanishingPolynomial second.beta

variable {idx : Index F} {domain_h domain_k : EvaluationDomain F} {first : VerifierFirstMsg F}
  {second : VerifierSecondMsg F}

theorem evaluate_partDenom (alpha beta : F) (m : MatrixArithmetization F) (x : F) :
    (partDenom alpha beta m).evaluate x = denomAt alpha beta m x := by
  simp only [partDenom, denomAt, DensePolynomial.evaluate_mul, DensePolynomial.evaluate_sub,
    DensePolynomial.evaluate_constant]

theorem evaluate_partNom (eta v : F) (m : MatrixArithmetization F) (x : F) :
    (partNom eta v m).evaluate x = eta * v * m.val.evaluate x := by
  rw [partNom, DensePolynomial.evaluate_mul, DensePolynomial.evaluate_constant]

theorem evaluate_thirdRoundBPoly (x : F) :
    (thirdRoundBPoly idx first second).evaluate x = denominatorAt idx first second x := by
  simp only [thirdRoundBPoly, denominatorAt, DensePolynomial.evaluate_mul, evaluate_partDenom]

theorem evaluate_thirdRoundAPoly (x : F) :
    (thirdRoundAPoly idx domain_h first second).evaluate x =
      vanishingFactor domain_h first second * numeratorAt idx first second x := by
  simp only [thirdRoundAPoly, numeratorAt, vanishingFactor, DensePolynomial.evaluate_mul,
    DensePolynomial.evaluate_add, evaluate_partDenom, evaluate_partNom]
  ring

/-- `a_poly / b_poly` -/
def fractionAt (idx : Index F) (domain_h : EvaluationDomain F) (first : VerifierFirstMsg F)
    (second : VerifierSecondMsg F) (x : F) : F :=
  vanishingFactor domain_h first second * numeratorAt idx first second x *
    (denominatorAt idx first second x)⁻¹

/-- The prover gets its polynomial when no denominator is zero on `K`. -/
theorem proverThirdRoundF_eq_ok_iff {f : DensePolynomial F} :
    proverThirdRoundF idx domain_h domain_k first second = .ok f ↔
      (∀ x ∈ domain_k.elements, denominatorAt idx first second x ≠ 0) ∧
        f = domain_k.interpolate (domain_k.elements.map (fractionAt idx domain_h first second)) := by
  have hstep : ∀ x ∈ domain_k.elements, ∀ y,
      (if (thirdRoundBPoly idx first second).evaluate x = 0 then throw Error.aborted
        else return (thirdRoundAPoly idx domain_h first second).evaluate x *
          ((thirdRoundBPoly idx first second).evaluate x)⁻¹ : Except Error F) = .ok y ↔
      denominatorAt idx first second x ≠ 0 ∧ y = fractionAt idx domain_h first second x := by
    intro x _ y
    rw [evaluate_thirdRoundBPoly, evaluate_thirdRoundAPoly]
    by_cases hzero : denominatorAt idx first second x = 0
    · rw [if_pos hzero]
      exact ⟨nofun, fun h => absurd hzero h.1⟩
    · rw [if_neg hzero]
      constructor
      · intro h
        cases h
        exact ⟨hzero, rfl⟩
      · rintro ⟨_, rfl⟩
        rfl
  rw [proverThirdRoundF]
  constructor
  · intro h
    obtain ⟨f_evals, hevals, h⟩ := bind_eq_ok_iff.mp h
    cases h
    obtain ⟨hne, rfl⟩ := (mapM_eq_ok_map_iff hstep).mp hevals
    exact ⟨hne, rfl⟩
  · rintro ⟨hne, rfl⟩
    exact bind_eq_of_ok ((mapM_eq_ok_map_iff hstep).mpr ⟨hne, rfl⟩) rfl

theorem evaluate_proverThirdRoundF {f : DensePolynomial F}
    (h : proverThirdRoundF idx domain_h domain_k first second = .ok f) {x : F}
    (hx : x ∈ domain_k.elements) : f.evaluate x = fractionAt idx domain_h first second x := by
  obtain ⟨_, rfl⟩ := proverThirdRoundF_eq_ok_iff.mp h
  exact domain_k.evaluate_interpolate_map _ hx

theorem proverThirdRoundF_eq_ok
    (hdenom : ∀ x ∈ domain_k.elements, denominatorAt idx first second x ≠ 0) :
    ∃ f, proverThirdRoundF idx domain_h domain_k first second = .ok f ∧
      ∀ x ∈ domain_k.elements, f.evaluate x =
        vanishingFactor domain_h first second * numeratorAt idx first second x *
          (denominatorAt idx first second x)⁻¹ := by
  have hf : proverThirdRoundF idx domain_h domain_k first second = .ok _ :=
    proverThirdRoundF_eq_ok_iff.mpr ⟨hdenom, rfl⟩
  exact ⟨_, hf, fun x hx => evaluate_proverThirdRoundF hf hx⟩

omit [DecidableEq F] in
theorem rationalSumcheckVO_eq_ok (domain : EvaluationDomain F) :
    rationalSumcheckVO first second domain =
      .ok ⟨[0, 1, 2, 3, 4, 5, 6, 7, 8, 9], List.replicate 10 1,
        RationalSumcheckOracle.combineFunction first second domain, 9, rfl, rfl⟩ := rfl

theorem rationalSumcheckVO_value {vo : GenericShiftingVO F}
    (hvo : rationalSumcheckVO first second domain_k = .ok vo) (f : DensePolynomial F) (x : F) :
    vo.evaluateFromConcreteEvals (rationalSumcheckOracles idx f) x =
      .ok (vanishingFactor domain_k first second * numeratorAt idx first second x -
        denominatorAt idx first second x * f.evaluate x) := by
  rw [rationalSumcheckVO_eq_ok] at hvo
  cases hvo
  have hindex : ∀ index ∈ [0, 1, 2, 3, 4, 5, 6, 7, 8, 9], index < 10 := by decide
  rw [GenericShiftingVO.evaluateFromConcreteEvals_eq hindex rfl]
  simp only [RationalSumcheckOracle.combineFunction, RationalSumcheckOracle.denom,
    CombineFunction.value, rationalSumcheckOracles, List.replicate, List.zip_cons_cons,
    List.zip_nil_right, List.map_cons, List.map_nil, List.getD_cons_succ, List.getD_cons_zero,
    one_mul]
  rw [vanishingFactor, numeratorAt, denominatorAt, denomAt, denomAt, denomAt]
  congr 1
  ring

theorem rationalSumcheckVO_on_K {vo : GenericShiftingVO F}
    (hvo : rationalSumcheckVO first second domain_k = .ok vo) {f : DensePolynomial F} {x : F}
    (hdenom : denominatorAt idx first second x ≠ 0)
    (hf : f.evaluate x = vanishingFactor domain_h first second * numeratorAt idx first second x *
      (denominatorAt idx first second x)⁻¹) :
    vo.evaluateFromConcreteEvals (rationalSumcheckOracles idx f) x =
      .ok ((vanishingFactor domain_k first second - vanishingFactor domain_h first second) *
        numeratorAt idx first second x) := by
  rw [rationalSumcheckVO_value hvo, hf]
  congr 1
  field_simp

end Pointwise

/-! ### Completeness -/

section Completeness

/-- Every choice of challenges outside `H` lets the virtual oracle vanish on `K`. -/
def RationalSumcheckComplete (idx : Index F) (domain_h domain_k : EvaluationDomain F) : Prop :=
  ∀ (first : VerifierFirstMsg F) (second : VerifierSecondMsg F),
    first.alpha ∉ domain_h.elements → second.beta ∉ domain_h.elements →
    ∃ f vo, proverThirdRoundF idx domain_h domain_k first second = .ok f ∧
      rationalSumcheckVO first second domain_k = .ok vo ∧
      vo.VanishesOn (rationalSumcheckOracles idx f) domain_k

variable {params : EvaluationDomain.FftParameters F} {info : R1CSfIndex} {a b c : Matrix F}
  {idx : Index F} {domain_h domain_k : EvaluationDomain F} {first : VerifierFirstMsg F}
  {second : VerifierSecondMsg F}

omit [DecidableEq F] in
theorem denomAt_ne_zero {m : MatrixArithmetization F} {x : F}
    (hrow : m.row.evaluate x ∈ domain_h.elements) (hcol : m.col.evaluate x ∈ domain_h.elements)
    (halpha : first.alpha ∉ domain_h.elements) (hbeta : second.beta ∉ domain_h.elements) :
    denomAt first.alpha second.beta m x ≠ 0 := by
  apply mul_ne_zero
  · intro hzero
    rw [sub_eq_zero] at hzero
    rw [hzero] at hbeta
    exact hbeta hrow
  · intro hzero
    rw [sub_eq_zero] at hzero
    rw [hzero] at halpha
    exact halpha hcol

theorem index_eq_ok (hindex : index params info a b c = .ok idx)
    (hdomains : indexDomains params info = .ok (domain_k, domain_h)) :
    arithmetizeMatrix a domain_k domain_h false = .ok idx.aArith ∧
      arithmetizeMatrix b domain_k domain_h false = .ok idx.bArith ∧
      arithmetizeMatrix c domain_k domain_h true = .ok idx.cArith := by
  rw [index, hdomains, ok_bind] at hindex
  obtain ⟨a_arith, ha, hindex⟩ := bind_eq_ok_iff.mp hindex
  obtain ⟨b_arith, hb, hindex⟩ := bind_eq_ok_iff.mp hindex
  obtain ⟨c_arith, hc, hindex⟩ := bind_eq_ok_iff.mp hindex
  cases hindex
  exact ⟨ha, hb, hc⟩

omit [DecidableEq F] in
theorem indexDomains_eq_ok (hk : params.radix2Domain info.numberOfNonZeroEntries = some domain_k)
    (hh : params.radix2Domain info.numberOfConstraints = some domain_h)
    (hle : info.numberOfConstraints ≤ domain_k.size) :
    indexDomains params info = .ok (domain_k, domain_h) := by
  simp only [indexDomains, checkDomainsSizes, hk, hh, need_some, ok_bind, hle]
  rfl

omit [DecidableEq F] in
theorem radix2Domain_of_indexDomains
    (hdomains : indexDomains params info = .ok (domain_k, domain_h)) :
    params.radix2Domain info.numberOfNonZeroEntries = some domain_k ∧
      params.radix2Domain info.numberOfConstraints = some domain_h ∧
      info.numberOfConstraints ≤ domain_k.size := by
  obtain ⟨sizes_ok, hsizes, hrest⟩ := bind_eq_ok_iff.mp hdomains
  obtain ⟨interpolation_domain, hinter, hsizes⟩ := bind_eq_ok_iff.mp hsizes
  cases hsizes
  by_cases hle : info.numberOfConstraints ≤ interpolation_domain.size
  · rw [decide_eq_true hle] at hrest
    obtain ⟨k, hk, hrest⟩ := bind_eq_ok_iff.mp hrest
    obtain ⟨h, hh, hrest⟩ := bind_eq_ok_iff.mp hrest
    cases hrest
    rw [need_eq_ok_iff] at hinter hk hh
    rw [hinter] at hk
    cases hk
    exact ⟨hinter, hh, hle⟩
  · rw [decide_eq_false hle] at hrest
    cases hrest

omit [DecidableEq F] in
theorem indexDomains_size_le
    (hdomains : indexDomains params info = .ok (domain_k, domain_h)) :
    domain_h.size ≤ domain_k.size := by
  obtain ⟨hk, hh, hle⟩ := radix2Domain_of_indexDomains hdomains
  have hk_size := params.radix2Domain_size hk
  rw [params.radix2Domain_size hh, hk_size]
  rw [hk_size] at hle
  exact Nat.pow_le_pow_right (by omega) (Nat.clog_le_of_le_pow hle)

/-- Exactly when the factor or every numerator is zero on `K` does the oracle vanish there. -/
theorem rationalSumcheck_vanishes_iff (hindex : index params info a b c = .ok idx)
    (hdomains : indexDomains params info = .ok (domain_k, domain_h))
    (halpha : first.alpha ∉ domain_h.elements) (hbeta : second.beta ∉ domain_h.elements) :
    (∃ f vo, proverThirdRoundF idx domain_h domain_k first second = .ok f ∧
      rationalSumcheckVO first second domain_k = .ok vo ∧
      vo.VanishesOn (rationalSumcheckOracles idx f) domain_k) ↔
    vanishingFactor domain_k first second = vanishingFactor domain_h first second ∨
      ∀ x ∈ domain_k.elements, numeratorAt idx first second x = 0 := by
  obtain ⟨ha, hb, hc⟩ := index_eq_ok hindex hdomains
  have hdenom : ∀ x ∈ domain_k.elements, denominatorAt idx first second x ≠ 0 := by
    intro x hx
    obtain ⟨harow, hacol⟩ := (arithmetizeMatrix_spec ha).1 x hx
    obtain ⟨hbrow, hbcol⟩ := (arithmetizeMatrix_spec hb).1 x hx
    obtain ⟨hcrow, hccol⟩ := (arithmetizeMatrix_spec hc).1 x hx
    exact mul_ne_zero (mul_ne_zero (denomAt_ne_zero harow hacol halpha hbeta)
      (denomAt_ne_zero hbrow hbcol halpha hbeta)) (denomAt_ne_zero hcrow hccol halpha hbeta)
  obtain ⟨f, hf, hfeval⟩ := proverThirdRoundF_eq_ok hdenom
  constructor
  · rintro ⟨f', vo, hf', hvo, hvanish⟩
    rw [hf] at hf'
    cases hf'
    by_cases hfactor : vanishingFactor domain_k first second = vanishingFactor domain_h first second
    · exact Or.inl hfactor
    · right
      intro x hx
      have hzero := hvanish x hx
      rw [rationalSumcheckVO_on_K hvo (hdenom x hx) (hfeval x hx)] at hzero
      injection hzero with hzero
      exact (mul_eq_zero.mp hzero).resolve_left (sub_ne_zero.mpr hfactor)
  · intro h
    refine ⟨f, _, hf, rationalSumcheckVO_eq_ok domain_k, ?_⟩
    intro x hx
    rw [rationalSumcheckVO_on_K (rationalSumcheckVO_eq_ok domain_k) (hdenom x hx) (hfeval x hx)]
    rcases h with hfactor | hnum
    · rw [hfactor, sub_self, zero_mul]
    · rw [hnum x hx, mul_zero]

omit [DecidableEq F] in
theorem numeratorAt_single (alpha : F) (x : F) :
    numeratorAt idx ⟨alpha, 1, 0, 0⟩ second x = idx.aArith.val.evaluate x *
        (denomAt alpha second.beta idx.bArith x * denomAt alpha second.beta idx.cArith x) ∧
      numeratorAt idx ⟨alpha, 0, 1, 0⟩ second x = idx.bArith.val.evaluate x *
        (denomAt alpha second.beta idx.aArith x * denomAt alpha second.beta idx.cArith x) ∧
      numeratorAt idx ⟨alpha, 0, 0, 1⟩ second x = idx.cArith.val.evaluate x *
        (denomAt alpha second.beta idx.aArith x * denomAt alpha second.beta idx.bArith x) := by
  refine ⟨?_, ?_, ?_⟩
  all_goals
    rw [numeratorAt]
    ring

/-- With each randomizer alone the numerators show the entries of each matrix. -/
theorem zeroOn_of_numeratorAt (hindex : index params info a b c = .ok idx)
    (hdomains : indexDomains params info = .ok (domain_k, domain_h)) {alpha : F}
    (halpha : alpha ∉ domain_h.elements) (hbeta : second.beta ∉ domain_h.elements) :
    ((∀ x ∈ domain_k.elements, numeratorAt idx ⟨alpha, 1, 0, 0⟩ second x = 0) → ZeroOn domain_k a) ∧
    ((∀ x ∈ domain_k.elements, numeratorAt idx ⟨alpha, 0, 1, 0⟩ second x = 0) → ZeroOn domain_k b) ∧
    ((∀ x ∈ domain_k.elements, numeratorAt idx ⟨alpha, 0, 0, 1⟩ second x = 0) →
      ZeroOn domain_k c) := by
  obtain ⟨ha, hb, hc⟩ := index_eq_ok hindex hdomains
  have hdenom : ∀ {m : Matrix F} {flag : Bool} {arith : MatrixArithmetization F},
      arithmetizeMatrix m domain_k domain_h flag = .ok arith → ∀ x ∈ domain_k.elements,
        denomAt alpha second.beta arith x ≠ 0 := by
    intro m flag arith harith x hx
    obtain ⟨hrow, hcol⟩ := (arithmetizeMatrix_spec harith).1 x hx
    have hfirst : (⟨alpha, 0, 0, 0⟩ : VerifierFirstMsg F).alpha ∉ domain_h.elements := halpha
    exact denomAt_ne_zero hrow hcol hfirst hbeta
  refine ⟨?_, ?_, ?_⟩
  · intro hnum
    apply (arithmetizeMatrix_spec ha).2.mp
    intro x hx
    have hzero := hnum x hx
    rw [(numeratorAt_single alpha x).1] at hzero
    exact (mul_eq_zero.mp hzero).resolve_right (mul_ne_zero (hdenom hb x hx) (hdenom hc x hx))
  · intro hnum
    apply (arithmetizeMatrix_spec hb).2.mp
    intro x hx
    have hzero := hnum x hx
    rw [(numeratorAt_single alpha x).2.1] at hzero
    exact (mul_eq_zero.mp hzero).resolve_right (mul_ne_zero (hdenom ha x hx) (hdenom hc x hx))
  · intro hnum
    apply (arithmetizeMatrix_spec hc).2.mp
    intro x hx
    have hzero := hnum x hx
    rw [(numeratorAt_single alpha x).2.2] at hzero
    exact (mul_eq_zero.mp hzero).resolve_right (mul_ne_zero (hdenom ha x hx) (hdenom hb x hx))

omit [DecidableEq F] in
theorem zero_not_mem (domain : EvaluationDomain F) : (0 : F) ∉ domain.elements := by
  rw [domain.mem_elements, zero_pow domain.size_pos.ne']
  exact zero_ne_one

omit [DecidableEq F] in
theorem vanishingFactor_ne (hlt : domain_h.size < domain_k.size) (etaA etaB etaC : F) :
    domain_k.groupGen ∉ domain_h.elements ∧
      vanishingFactor domain_k ⟨0, etaA, etaB, etaC⟩ ⟨domain_k.groupGen⟩ ≠
        vanishingFactor domain_h ⟨0, etaA, etaB, etaC⟩ ⟨domain_k.groupGen⟩ := by
  have hout : domain_k.groupGen ∉ domain_h.elements := by
    rw [domain_h.mem_elements]
    exact domain_k.primitive.pow_ne_one_of_pos_of_lt domain_h.size_pos.ne' hlt
  refine ⟨hout, ?_⟩
  have hk : domain_k.evaluateVanishingPolynomial domain_k.groupGen = 0 := by
    rw [EvaluationDomain.evaluateVanishingPolynomial, domain_k.primitive.pow_eq_one, sub_self]
  have hh : vanishingFactor domain_h ⟨0, etaA, etaB, etaC⟩ ⟨domain_k.groupGen⟩ ≠ 0 := by
    apply mul_ne_zero
    · exact fun h => zero_not_mem domain_h (domain_h.evaluateVanishingPolynomial_eq_zero.mp h)
    · exact fun h => hout (domain_h.evaluateVanishingPolynomial_eq_zero.mp h)
  rw [vanishingFactor, hk, mul_zero]
  exact hh.symm

theorem exists_arithmetizeMatrix_of_inRange {m : Matrix F} (domain_k : EvaluationDomain F)
    (is_diag_matrix : Bool) (hne : matrixEntries m ≠ []) (hrange : InRange domain_h m) :
    ∃ arith, arithmetizeMatrix m domain_k domain_h is_diag_matrix = .ok arith := by
  have hentries : (matrixEntries m).mapM (entryEvals domain_h) =
      .ok ((matrixEntries m).map (entryAt domain_h)) :=
    mapM_eq_ok_map fun e he => (entryEvals_eq_ok_iff domain_h).mpr ⟨hrange e he, rfl⟩
  obtain ⟨last, hlast⟩ : ∃ last, ((matrixEntries m).map (entryAt domain_h)).getLast? = some last := by
    rw [← Option.isSome_iff_exists, List.getLast?_isSome]
    exact fun hnil => hne (List.map_eq_nil_iff.mp hnil)
  exact ⟨_, bind_eq_of_ok hentries (bind_eq_of_ok (need_eq_ok_iff.mpr hlast) rfl)⟩

theorem exists_arithmetizeMatrix {m : Matrix F} (domain_k domain_h : EvaluationDomain F)
    (is_diag_matrix : Bool) (hne : m.flatten ≠ []) (hrows : m.length ≤ domain_h.size)
    (hcols : ∀ e ∈ m.flatten, e.2 < domain_h.size) :
    ∃ arith, arithmetizeMatrix m domain_k domain_h is_diag_matrix = .ok arith := by
  apply exists_arithmetizeMatrix_of_inRange domain_k is_diag_matrix _ (inRange_of_length hrows hcols)
  intro hnil
  rw [← matrixEntries_map_fst, hnil] at hne
  exact hne rfl

theorem exists_index (hdomains : indexDomains params info = .ok (domain_k, domain_h))
    (hm : ∀ m ∈ [a, b, c], m.flatten ≠ [] ∧ m.length ≤ domain_h.size ∧
      ∀ e ∈ m.flatten, e.2 < domain_h.size) :
    ∃ idx, index params info a b c = .ok idx := by
  obtain ⟨hane, harows, hacols⟩ := hm a (by simp)
  obtain ⟨hbne, hbrows, hbcols⟩ := hm b (by simp)
  obtain ⟨hcne, hcrows, hccols⟩ := hm c (by simp)
  obtain ⟨a_arith, ha⟩ := exists_arithmetizeMatrix domain_k domain_h false hane harows hacols
  obtain ⟨b_arith, hb⟩ := exists_arithmetizeMatrix domain_k domain_h false hbne hbrows hbcols
  obtain ⟨c_arith, hc⟩ := exists_arithmetizeMatrix domain_k domain_h true hcne hcrows hccols
  simp only [index, hdomains, ok_bind, ha, hb, hc]
  exact ⟨_, rfl⟩

def threeAdditions : Circuit :=
  ⟨[⟨0, 0, .Add⟩, ⟨1, 0, .Add⟩, ⟨2, 0, .Add⟩], 0, 1⟩

instance factPrimeSeventeen : Fact (Nat.Prime 17) := ⟨by norm_num⟩

def params17 : EvaluationDomain.FftParameters (ZMod 17) where
  twoAdicity := 4
  twoAdicRootOfUnity := 3
  primitive := by
    have horder : orderOf (3 : ZMod 17) = 2 ^ (3 + 1) :=
      orderOf_eq_prime_pow (by decide) (by decide)
    rw [← horder]
    exact IsPrimitiveRoot.orderOf 3

theorem exists_threeAdditions_index :
    ∃ domain_k domain_h idx,
      indexDomains params17 (ac2tft (F := ZMod 17) threeAdditions).1 = .ok (domain_k, domain_h) ∧
      domain_k.size = 8 ∧ domain_h.size = 4 ∧
      index params17 (ac2tft (F := ZMod 17) threeAdditions).1 (ac2tft threeAdditions).2.1
        (ac2tft threeAdditions).2.2.1 (ac2tft threeAdditions).2.2.2 = .ok idx := by
  have hclog_k : Nat.clog 2 6 = 3 := by norm_num
  have hclog_h : Nat.clog 2 4 = 2 := by norm_num
  obtain ⟨domain_k, hk⟩ := params17.exists_radix2Domain (by rw [hclog_k]; decide)
  obtain ⟨domain_h, hh⟩ := params17.exists_radix2Domain (by rw [hclog_h]; decide)
  have hk_size : domain_k.size = 8 := by rw [params17.radix2Domain_size hk, hclog_k]; rfl
  have hh_size : domain_h.size = 4 := by rw [params17.radix2Domain_size hh, hclog_h]; rfl
  have hdomains : indexDomains params17 (ac2tft (F := ZMod 17) threeAdditions).1 =
      .ok (domain_k, domain_h) :=
    indexDomains_eq_ok hk hh (by rw [hk_size]; decide)
  obtain ⟨idx, hidx⟩ := exists_index hdomains
    (a := (ac2tft threeAdditions).2.1) (b := (ac2tft threeAdditions).2.2.1)
    (c := (ac2tft threeAdditions).2.2.2) (by rw [hh_size]; decide)
  exact ⟨domain_k, domain_h, idx, hdomains, hk_size, hh_size, hidx⟩

end Completeness

end Lootbox.IndexPrivateMarlin

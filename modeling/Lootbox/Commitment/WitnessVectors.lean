import Lootbox.Commitment.OuterSumcheck

/-!
# `index_private_marlin`: the witness vectors of the prover

`prover_init` multiplies the rows of a matrix with the assignment without their coefficients,
`calculate_t` and `arithmetize_matrix` with them. The two maps agree exactly when every column of
every row has coefficients that add up to the number of its entries.
-/

namespace Lootbox.IndexPrivateMarlin

open AcCompiler

variable {F : Type} [Field F]

/-! ### Rows without their coefficients -/

section UnitRow

/-- The row as `inner_prod_fn` reads it. -/
def unitRow (row : List (F × Nat)) : List (F × Nat) := row.map fun e => (1, e.2)

/-- What `inner_prod_fn` leaves out. -/
def excessRow (row : List (F × Nat)) : List (F × Nat) := row.map fun e => (e.1 - 1, e.2)

/-- The coefficients of one column of the row, added up. -/
def columnCoeff (row : List (F × Nat)) (j : Nat) : F :=
  (row.map fun e => if e.2 = j then e.1 else 0).sum

def columnCount (row : List (F × Nat)) (j : Nat) : Nat := row.countP fun e => e.2 = j

theorem rowSum_unitRow_add_excessRow (row : List (F × Nat)) (right : Nat → F) :
    rowSum (unitRow row) right + rowSum (excessRow row) right = rowSum row right := by
  induction row with
  | nil => exact add_zero 0
  | cons e row ih =>
    simp only [rowSum, unitRow, excessRow, List.map_cons, List.sum_cons] at ih ⊢
    rw [← ih]
    ring

theorem rowSum_eq_columns {row : List (F × Nat)} {n : Nat} (hrow : ∀ e ∈ row, e.2 < n)
    (right : Nat → F) :
    rowSum row right = ∑ j ∈ Finset.range n, columnCoeff row j * right j := by
  induction row with
  | nil => simp [rowSum, columnCoeff]
  | cons e row ih =>
    obtain ⟨he, hrow⟩ := List.forall_mem_cons.mp hrow
    have hcolumn : ∑ j ∈ Finset.range n, (if e.2 = j then e.1 else 0) * right j =
        e.1 * right e.2 := by
      simp only [ite_mul, zero_mul]
      rw [Finset.sum_ite_eq, if_pos (Finset.mem_range.mpr he)]
    have hsplit : ∀ j, columnCoeff (e :: row) j * right j =
        (if e.2 = j then e.1 else 0) * right j + columnCoeff row j * right j := by
      intro j
      simp only [columnCoeff, List.map_cons, List.sum_cons]
      ring
    rw [Finset.sum_congr rfl fun j _ => hsplit j, Finset.sum_add_distrib, hcolumn, ← ih hrow]
    rfl

theorem columnCoeff_excessRow (row : List (F × Nat)) (j : Nat) :
    columnCoeff (excessRow row) j = columnCoeff row j - columnCount row j := by
  induction row with
  | nil => simp [columnCoeff, excessRow, columnCount]
  | cons e row ih =>
    simp only [columnCoeff, excessRow, columnCount, List.map_cons, List.sum_cons,
      List.countP_cons] at ih ⊢
    rw [ih]
    by_cases hj : e.2 = j
    · simp only [hj, if_true, decide_true, Nat.cast_add, Nat.cast_one]
      ring
    · simp [hj]

theorem columnCoeff_excessRow_eq_zero_iff {row : List (F × Nat)} {j : Nat} :
    columnCoeff (excessRow row) j = 0 ↔ columnCoeff row j = columnCount row j := by
  rw [columnCoeff_excessRow, sub_eq_zero]

/-- A row leaves nothing out for every vector when it does so in every column. -/
theorem excessRow_zero_iff {row : List (F × Nat)} {n : Nat} (hrow : ∀ e ∈ row, e.2 < n) :
    (∀ z : List F, z.length = n → rowSum (excessRow row) (z.getD · 0) = 0) ↔
      ∀ j < n, columnCoeff row j = columnCount row j := by
  have hexcess : ∀ e ∈ excessRow row, e.2 < n := by
    intro e he
    obtain ⟨e', he', rfl⟩ := List.mem_map.mp he
    exact hrow e' he'
  constructor
  · intro h j hj
    rw [← columnCoeff_excessRow_eq_zero_iff]
    -- the vector with a one in the column
    have hunit : ∀ k, ((List.range n).map fun k => if k = j then (1 : F) else 0).getD k 0 =
        if k = j then 1 else 0 := by
      intro k
      rw [List.getD_eq_getElem?_getD, List.getElem?_map]
      rcases Nat.lt_or_ge k n with hk | hk
      · rw [List.getElem?_range hk]
        rfl
      · rw [List.getElem?_eq_none (by rw [List.length_range]; exact hk), if_neg (by omega)]
        rfl
    have hzero := h ((List.range n).map fun k => if k = j then 1 else 0) (by simp)
    rw [rowSum_eq_columns hexcess] at hzero
    simp only [hunit, mul_ite, mul_one, mul_zero] at hzero
    rw [Finset.sum_ite_eq', if_pos (Finset.mem_range.mpr hj)] at hzero
    exact hzero
  · intro h z _
    rw [rowSum_eq_columns hexcess]
    apply Finset.sum_eq_zero
    intro j hj
    rw [columnCoeff_excessRow_eq_zero_iff.mpr (h j (Finset.mem_range.mp hj)), zero_mul]

end UnitRow

/-! ### Initialization -/

section Init

theorem innerProd_unitRow (assignment : List F) (row : List (F × Nat)) :
    innerProd assignment (unitRow row) = innerProd assignment row := by
  rw [innerProd, unitRow, List.foldlM_map]
  rfl

theorem inside_of_innerProd {assignment : List F} {row : List (F × Nat)} {v : F}
    (h : innerProd assignment row = .ok v) : ∀ e ∈ row, e.2 < assignment.length := by
  rw [innerProd] at h
  generalize (0 : F) = acc at h
  induction row generalizing acc with
  | nil => exact nofun
  | cons e row ih =>
    rw [List.foldlM_cons] at h
    obtain ⟨acc', hacc, h⟩ := bind_eq_ok_iff.mp h
    obtain ⟨value, hvalue, _⟩ := bind_eq_ok_iff.mp hacc
    rw [need_eq_ok_iff] at hvalue
    exact List.forall_mem_cons.mpr ⟨(List.getElem?_eq_some_iff.mp hvalue).1, ih _ h⟩

theorem innerProd_eq_ok_iff {assignment : List F} {row : List (F × Nat)} {v : F} :
    innerProd assignment row = .ok v ↔
      (∀ e ∈ row, e.2 < assignment.length) ∧ v = rowSum (unitRow row) (assignment.getD · 0) := by
  have hvalue : (∀ e ∈ row, e.2 < assignment.length) →
      innerProd assignment row = .ok (rowSum (unitRow row) (assignment.getD · 0)) := by
    intro hrow
    rw [← innerProd_unitRow]
    apply innerProd_eq_ok
    intro e he
    obtain ⟨e', he', rfl⟩ := List.mem_map.mp he
    exact ⟨rfl, hrow e' he'⟩
  constructor
  · intro h
    have hrow := inside_of_innerProd h
    exact ⟨hrow, Except.ok.inj (h.symm.trans (hvalue hrow))⟩
  · rintro ⟨hrow, rfl⟩
    exact hvalue hrow

/-- Every entry stands in one of the first `n` columns. -/
def Inside (n : Nat) (m : Matrix F) : Prop := ∀ row ∈ m, ∀ e ∈ row, e.2 < n

theorem mapM_innerProd_eq_ok_iff {m : Matrix F} {z z_m : List F} :
    m.mapM (innerProd z) = .ok z_m ↔
      Inside z.length m ∧ z_m = m.map fun row => rowSum (unitRow row) (z.getD · 0) :=
  mapM_eq_ok_map_iff fun _ _ _ => innerProd_eq_ok_iff

variable {params : EvaluationDomain.FftParameters F} {idx : Index F} {z : List F}

/-- The index fits an assignment with one value for each constraint. -/
structure FitsAssignment (idx : Index F) : Prop where
  insideA : Inside idx.indexInfo.numberOfConstraints idx.a
  insideB : Inside idx.indexInfo.numberOfConstraints idx.b
  inputs : idx.indexInfo.numberOfInputRows ≤ idx.indexInfo.numberOfConstraints
  outputs : idx.indexInfo.numberOfOutputs ≤ idx.indexInfo.numberOfConstraints

/-- The initialization returns on exactly the assignments that the index fits. -/
theorem exists_proverInit_iff {domain_k domain_h : EvaluationDomain F}
    (hdomains : indexDomains params idx.indexInfo = .ok (domain_k, domain_h))
    (hz : z.length = idx.indexInfo.numberOfConstraints) :
    (∃ state, proverInit params idx z = .ok state) ↔ FitsAssignment idx := by
  constructor
  · rintro ⟨state, h⟩
    obtain ⟨z_a, ha, h⟩ := bind_eq_ok_iff.mp h
    obtain ⟨z_b, hb, h⟩ := bind_eq_ok_iff.mp h
    obtain ⟨_, _, h⟩ := bind_eq_ok_iff.mp h
    obtain ⟨public_inputs, hinputs, h⟩ := bind_eq_ok_iff.mp h
    obtain ⟨output_start, houtputs, _⟩ := bind_eq_ok_iff.mp h
    rw [mapM_innerProd_eq_ok_iff, hz] at ha hb
    refine ⟨ha.1, hb.1, ?_, ?_⟩
    · by_contra hlt
      rw [sliceTo, hz, if_neg hlt] at hinputs
      cases hinputs
    · by_contra hlt
      rw [usizeSub, if_neg hlt] at houtputs
      cases houtputs
  · intro h
    have hstart : idx.indexInfo.numberOfConstraints - idx.indexInfo.numberOfOutputs ≤ z.length := by
      rw [hz]
      exact Nat.sub_le _ _
    have ha := mapM_innerProd_eq_ok_iff.mpr ⟨hz.symm ▸ h.insideA, rfl⟩
    have hb := mapM_innerProd_eq_ok_iff.mpr ⟨hz.symm ▸ h.insideB, rfl⟩
    exact ⟨_, bind_eq_of_ok ha (bind_eq_of_ok hb (bind_eq_of_ok hdomains
      (bind_eq_of_ok (if_pos (hz ▸ h.inputs)) (bind_eq_of_ok (if_pos h.outputs)
        (bind_eq_of_ok (if_pos hstart) rfl)))))⟩

end Init

/-! ### The sums over `H` -/

section Sums

variable [DecidableEq F] {domain_h : EvaluationDomain F} {m : Matrix F}

/-- `r(alpha, X)` on `H` -/
def rAlphaOnH (domain_h : EvaluationDomain F) (alpha : F) : List F :=
  domain_h.elements.map (evalUnnormalizedBivariateLagrangePoly domain_h alpha)

/-- For every `alpha` the sum of `r(alpha, X) z_M(X)` over `H` is the one of `t_M(X) z(X)`, with the
polynomials as the rounds of the prover build them. -/
def SumsAgree (domain_h : EvaluationDomain F) (m : Matrix F) (z_m z : List F) : Prop :=
  ∀ alpha z_m_mask z_mask, ∃ t, calculateT [m] [1] domain_h (rAlphaOnH domain_h alpha) = .ok t ∧
    domain_h.sumOver (fun x => evalUnnormalizedBivariateLagrangePoly domain_h alpha x *
      (maskedInterpolation domain_h z_m z_m_mask).evaluate x) =
    domain_h.sumOver (fun x => t.evaluate x * (maskedInterpolation domain_h z z_mask).evaluate x)

theorem length_rAlphaOnH (alpha : F) : (rAlphaOnH domain_h alpha).length = domain_h.size := by
  rw [rAlphaOnH, List.length_map, EvaluationDomain.elements, List.length_map, List.length_range]

theorem getD_rAlphaOnH (alpha : F) {i : Nat} (hi : i < domain_h.size) :
    (rAlphaOnH domain_h alpha).getD i 0 =
      evalUnnormalizedBivariateLagrangePoly domain_h alpha (domain_h.element i) := by
  rw [rAlphaOnH, List.getD_eq_getElem?_getD, List.getElem?_map, elements_getElem?, if_pos hi]
  rfl

theorem rAlphaOnH_eq_diff_inputs {alpha : F} (halpha : alpha ∉ domain_h.elements) :
    rAlphaOnH domain_h alpha =
      batchEvalUnnormalizedBivariateLagrangePolyWithDiffInputs domain_h alpha := by
  apply List.map_congr_left
  intro y hy
  have hne : alpha ≠ y := fun heq => halpha (heq ▸ hy)
  rw [evalUnnormalizedBivariateLagrangePoly, if_pos hne,
    domain_h.evaluateVanishingPolynomial_eq_zero.mpr hy, sub_zero, div_eq_mul_inv, mul_comm]

omit [DecidableEq F] in
theorem getD_eq_nil_of_inRange (hrange : InRange domain_h m) {i : Nat} (hi : domain_h.size ≤ i) :
    m.getD i [] = [] := by
  rw [List.getD_eq_getElem?_getD]
  cases hget : m[i]? with
  | none => rfl
  | some row =>
    rw [Option.getD_some, List.eq_nil_iff_forall_not_mem]
    intro e he
    have hmem : (e, i) ∈ matrixEntries m :=
      List.mem_flatMap.mpr ⟨(row, i), List.mk_mem_zipIdx_iff_getElem?.mpr hget,
        List.mem_map.mpr ⟨e, he, rfl⟩⟩
    have hlt := (hrange _ hmem).1
    dsimp only at hlt
    omega

omit [DecidableEq F] in
theorem entrySum_eq_rows_of_inRange (hrange : InRange domain_h m) (left right : Nat → F) :
    entrySum m left right =
      ∑ i ∈ Finset.range domain_h.size, left i * rowSum (m.getD i []) right := by
  rw [entrySum_eq_rows m left right (le_max_left m.length domain_h.size)]
  symm
  apply Finset.sum_subset (Finset.range_subset_range.mpr (le_max_right _ _))
  intro i _ hout
  have hi : domain_h.size ≤ i := Nat.le_of_not_lt fun hlt => hout (Finset.mem_range.mpr hlt)
  rw [getD_eq_nil_of_inRange hrange hi]
  exact mul_zero _

theorem kernel_on_domain {i k : Nat} (hne : domain_h.element k ≠ domain_h.element i) :
    evalUnnormalizedBivariateLagrangePoly domain_h (domain_h.element k) (domain_h.element i) = 0 := by
  rw [evalUnnormalizedBivariateLagrangePoly, if_pos hne,
    domain_h.evaluateVanishingPolynomial_eq_zero.mpr (domain_h.element_mem k),
    domain_h.evaluateVanishingPolynomial_eq_zero.mpr (domain_h.element_mem i), sub_zero, zero_div]

theorem kernel_on_diagonal_ne_zero (k : Nat) :
    evalUnnormalizedBivariateLagrangePoly domain_h (domain_h.element k) (domain_h.element k) ≠ 0 := by
  rw [evalUnnormalizedBivariateLagrangePoly, if_neg (not_not_intro rfl)]
  exact mul_ne_zero domain_h.size_ne_zero
    (pow_ne_zero _ (pow_ne_zero _ domain_h.groupGen_ne_zero))

theorem eq_of_kernel_sums {left right : Nat → F}
    (h : ∀ alpha, ∑ i ∈ Finset.range domain_h.size,
        evalUnnormalizedBivariateLagrangePoly domain_h alpha (domain_h.element i) * left i =
      ∑ i ∈ Finset.range domain_h.size,
        evalUnnormalizedBivariateLagrangePoly domain_h alpha (domain_h.element i) * right i)
    {k : Nat} (hk : k < domain_h.size) : left k = right k := by
  have hsum : ∀ values : Nat → F, ∑ i ∈ Finset.range domain_h.size,
      evalUnnormalizedBivariateLagrangePoly domain_h (domain_h.element k) (domain_h.element i) *
        values i =
      evalUnnormalizedBivariateLagrangePoly domain_h (domain_h.element k) (domain_h.element k) *
        values k := by
    intro values
    apply Finset.sum_eq_single_of_mem k (Finset.mem_range.mpr hk)
    intro i hi hik
    rw [Finset.mem_range] at hi
    rw [kernel_on_domain fun heq => hik (domain_h.element_injective hk hi heq).symm, zero_mul]
  have halpha := h (domain_h.element k)
  rw [hsum, hsum] at halpha
  exact mul_left_cancel₀ (kernel_on_diagonal_ne_zero k) halpha

/-- The sums agree when the vector is the product of the matrix and the assignment on `H`. -/
theorem sumsAgree_iff (hrange : InRange domain_h m) {z_m z : List F} :
    SumsAgree domain_h m z_m z ↔
      ∀ i < domain_h.size, z_m.getD i 0 = rowSum (m.getD i []) (z.getD · 0) := by
  have hleft : ∀ alpha mask, domain_h.sumOver (fun x =>
      evalUnnormalizedBivariateLagrangePoly domain_h alpha x *
        (maskedInterpolation domain_h z_m mask).evaluate x) =
      ∑ i ∈ Finset.range domain_h.size,
        evalUnnormalizedBivariateLagrangePoly domain_h alpha (domain_h.element i) * z_m.getD i 0 := by
    intro alpha mask
    rw [domain_h.sumOver_eq]
    apply Finset.sum_congr rfl
    intro i hi
    rw [evaluate_maskedInterpolation (Finset.mem_range.mp hi)]
  have hright : ∀ alpha mask t, calculateT [m] [1] domain_h (rAlphaOnH domain_h alpha) = .ok t →
      domain_h.sumOver (fun x => t.evaluate x * (maskedInterpolation domain_h z mask).evaluate x) =
      ∑ i ∈ Finset.range domain_h.size,
        evalUnnormalizedBivariateLagrangePoly domain_h alpha (domain_h.element i) *
          rowSum (m.getD i []) (z.getD · 0) := by
    intro alpha mask t ht
    have hz : ∀ i ∈ Finset.range domain_h.size, t.evaluate (domain_h.element i) *
        (maskedInterpolation domain_h z mask).evaluate (domain_h.element i) =
        t.evaluate (domain_h.element i) * z.getD i 0 := by
      intro i hi
      rw [evaluate_maskedInterpolation (Finset.mem_range.mp hi)]
    rw [domain_h.sumOver_eq, Finset.sum_congr rfl hz, calculateT_eq_ok ht (z.getD · 0),
      List.zip_cons_cons, List.zip_nil_right, List.map_singleton, List.sum_singleton, one_mul,
      entrySum_congr hrange fun i hi => getD_rAlphaOnH alpha hi, entrySum_eq_rows_of_inRange hrange]
  constructor
  · intro h i hi
    apply eq_of_kernel_sums _ hi
    intro alpha
    obtain ⟨t, ht, hsums⟩ := h alpha 0 0
    rw [← hleft alpha 0, hsums, hright alpha 0 t ht]
  · intro h alpha z_m_mask z_mask
    obtain ⟨t, ht⟩ : ∃ t, calculateT [m] [1] domain_h (rAlphaOnH domain_h alpha) = .ok t :=
      exists_calculateT (List.forall_mem_singleton.mpr hrange) (length_rAlphaOnH alpha)
    refine ⟨t, ht, ?_⟩
    rw [hleft, hright alpha z_mask t ht]
    apply Finset.sum_congr rfl
    intro i hi
    rw [h i (Finset.mem_range.mp hi)]

end Sums

/-! ### Which matrices are represented -/

section Represents

variable [DecidableEq F] {params : EvaluationDomain.FftParameters F} {info : R1CSfIndex}
  {a b c : Matrix F} {idx : Index F} {z : List F}

/-- The initialization returns vectors that agree with the two matrices. -/
def Represents (params : EvaluationDomain.FftParameters F) (idx : Index F) (z : List F) : Prop :=
  ∃ state, proverInit params idx z = .ok state ∧ SumsAgree state.domainH idx.a state.zA z ∧
    SumsAgree state.domainH idx.b state.zB z

/-- On a vector the coefficients of the rows make no difference. -/
def CoefficientsIrrelevant (m : Matrix F) (z : List F) : Prop :=
  ∀ row ∈ m, rowSum (excessRow row) (z.getD · 0) = 0

theorem sumsAgree_unitRows_iff {domain_h : EvaluationDomain F} {m : Matrix F}
    (hrange : InRange domain_h m) :
    SumsAgree domain_h m (m.map fun row => rowSum (unitRow row) (z.getD · 0)) z ↔
      CoefficientsIrrelevant m z := by
  have hunit : ∀ i, (m.map fun row => rowSum (unitRow row) (z.getD · 0)).getD i 0 =
      rowSum (unitRow (m.getD i [])) (z.getD · 0) :=
    fun i => List.getD_map m [] fun row => rowSum (unitRow row) (z.getD · 0)
  have hrow : ∀ row : List (F × Nat), rowSum (unitRow row) (z.getD · 0) = rowSum row (z.getD · 0) ↔
      rowSum (excessRow row) (z.getD · 0) = 0 := by
    intro row
    rw [← rowSum_unitRow_add_excessRow row, left_eq_add]
  rw [sumsAgree_iff hrange]
  simp only [hunit, hrow]
  constructor
  · intro h row hmem
    obtain ⟨i, hi, rfl⟩ := List.mem_iff_getElem.mp hmem
    rw [← List.getD_eq_getElem m [] hi]
    rcases Nat.lt_or_ge i domain_h.size with hlt | hge
    · exact h i hlt
    · rw [getD_eq_nil_of_inRange hrange hge]
      rfl
  · intro h i _
    rcases Nat.lt_or_ge i m.length with hlt | hge
    · rw [List.getD_eq_getElem m [] hlt]
      exact h _ (List.getElem_mem hlt)
    · rw [List.getD_eq_default m [] hge]
      rfl

theorem represents_iff (hindex : index params info a b c = .ok idx)
    (hz : z.length = info.numberOfConstraints) :
    Represents params idx z ↔
      FitsAssignment idx ∧ CoefficientsIrrelevant a z ∧ CoefficientsIrrelevant b z := by
  obtain ⟨rfl, rfl, rfl, rfl⟩ := index_fields hindex
  obtain ⟨⟨domain_k, domain_h⟩, hdomains, _⟩ := bind_eq_ok_iff.mp hindex
  obtain ⟨ha, hb, _⟩ := index_eq_ok hindex hdomains
  have hrange_a := (arithmetizeMatrix_eq_ok ha).1
  have hrange_b := (arithmetizeMatrix_eq_ok hb).1
  have hstate : ∀ state, proverInit params idx z = .ok state →
      (SumsAgree state.domainH idx.a state.zA z ↔ CoefficientsIrrelevant idx.a z) ∧
      (SumsAgree state.domainH idx.b state.zB z ↔ CoefficientsIrrelevant idx.b z) := by
    intro state h
    obtain ⟨z_a, hz_a, h⟩ := bind_eq_ok_iff.mp h
    obtain ⟨z_b, hz_b, h⟩ := bind_eq_ok_iff.mp h
    rw [hdomains, ok_bind] at h
    obtain ⟨_, _, h⟩ := bind_eq_ok_iff.mp h
    obtain ⟨_, _, h⟩ := bind_eq_ok_iff.mp h
    obtain ⟨_, _, h⟩ := bind_eq_ok_iff.mp h
    cases h
    obtain ⟨_, rfl⟩ := mapM_innerProd_eq_ok_iff.mp hz_a
    obtain ⟨_, rfl⟩ := mapM_innerProd_eq_ok_iff.mp hz_b
    exact ⟨sumsAgree_unitRows_iff hrange_a, sumsAgree_unitRows_iff hrange_b⟩
  rw [← exists_proverInit_iff hdomains hz]
  constructor
  · rintro ⟨state, hinit, hagree_a, hagree_b⟩
    obtain ⟨hiff_a, hiff_b⟩ := hstate state hinit
    exact ⟨⟨state, hinit⟩, hiff_a.mp hagree_a, hiff_b.mp hagree_b⟩
  · rintro ⟨⟨state, hinit⟩, hirrelevant_a, hirrelevant_b⟩
    obtain ⟨hiff_a, hiff_b⟩ := hstate state hinit
    exact ⟨state, hinit, hiff_a.mpr hirrelevant_a, hiff_b.mpr hirrelevant_b⟩

/-- In every column the coefficients of a row add up to the number of its entries. -/
def UnitLike (n : Nat) (m : Matrix F) : Prop :=
  ∀ row ∈ m, ∀ j < n, columnCoeff row j = columnCount row j

omit [DecidableEq F] in
theorem unitLike_iff {n : Nat} {m : Matrix F} (hinside : Inside n m) :
    UnitLike n m ↔ ∀ z : List F, z.length = n → CoefficientsIrrelevant m z := by
  constructor
  · intro h z hz row hrow
    exact (excessRow_zero_iff (hinside row hrow)).mpr (h row hrow) z hz
  · intro h row hrow
    exact (excessRow_zero_iff (hinside row hrow)).mp fun z hz => h z hz row hrow

/-- The witness vectors represent the matrices of an index exactly when it fits an assignment and the
coefficients make no difference: on one vector in every row, on all of them in every column. -/
theorem witness_vectors_represent_iff (hindex : index params info a b c = .ok idx) :
    (∀ z : List F, z.length = info.numberOfConstraints → (Represents params idx z ↔
      FitsAssignment idx ∧ CoefficientsIrrelevant a z ∧ CoefficientsIrrelevant b z)) ∧
    ((∀ z : List F, z.length = info.numberOfConstraints → Represents params idx z) ↔
      FitsAssignment idx ∧ UnitLike info.numberOfConstraints a ∧
        UnitLike info.numberOfConstraints b) ∧
    ∀ (domain_h : EvaluationDomain F) (alpha : F), alpha ∉ domain_h.elements →
      rAlphaOnH domain_h alpha =
        batchEvalUnnormalizedBivariateLagrangePolyWithDiffInputs domain_h alpha := by
  refine ⟨fun z hz => represents_iff hindex hz, ?_, fun _ _ => rAlphaOnH_eq_diff_inputs⟩
  obtain ⟨hinfo, ha, hb, _⟩ := index_fields hindex
  have hinside : FitsAssignment idx → Inside info.numberOfConstraints a ∧
      Inside info.numberOfConstraints b := by
    intro h
    rw [← hinfo, ← ha, ← hb]
    exact ⟨h.insideA, h.insideB⟩
  constructor
  · intro h
    have hfits := ((represents_iff hindex List.length_replicate).mp
      (h (List.replicate info.numberOfConstraints 0) List.length_replicate)).1
    obtain ⟨hinside_a, hinside_b⟩ := hinside hfits
    refine ⟨hfits, (unitLike_iff hinside_a).mpr fun z hz => ?_,
      (unitLike_iff hinside_b).mpr fun z hz => ?_⟩
    · exact ((represents_iff hindex hz).mp (h z hz)).2.1
    · exact ((represents_iff hindex hz).mp (h z hz)).2.2
  · rintro ⟨hfits, hunit_a, hunit_b⟩ z hz
    obtain ⟨hinside_a, hinside_b⟩ := hinside hfits
    exact (represents_iff hindex hz).mpr ⟨hfits, (unitLike_iff hinside_a).mp hunit_a z hz,
      (unitLike_iff hinside_b).mp hunit_b z hz⟩

theorem exists_doubledEntry_index : ∃ domain_k domain_h idx,
    indexDomains params17 ⟨2, 1, 1, 2⟩ = .ok (domain_k, domain_h) ∧
    index params17 ⟨2, 1, 1, 2⟩ [[], [(2, 0)]] [[], [(1, 0)]] [[], [(1, 1)]] = .ok idx := by
  have hclog : Nat.clog 2 2 = 1 := by norm_num
  obtain ⟨domain, hdomain⟩ := params17.exists_radix2Domain (by rw [hclog]; decide)
  have hsize : domain.size = 2 := by rw [params17.radix2Domain_size hdomain, hclog]; rfl
  have hdomains : indexDomains params17 ⟨2, 1, 1, 2⟩ = .ok (domain, domain) :=
    indexDomains_eq_ok hdomain hdomain hsize.ge
  obtain ⟨idx, hidx⟩ : ∃ idx, index params17 ⟨2, 1, 1, 2⟩ [[], [(2, 0)]] [[], [(1, 0)]]
      [[], [(1, 1)]] = .ok idx := by
    apply exists_index hdomains
    rw [hsize]
    decide
  exact ⟨domain, domain, idx, hdomains, hidx⟩

/-- The doubled entry, with the condition of its two matrices. -/
theorem witness_vectors_represent_doubledEntry : ∃ idx,
    index params17 ⟨2, 1, 1, 2⟩ [[], [(2, 0)]] [[], [(1, 0)]] [[], [(1, 1)]] = .ok idx ∧
    (∀ z : List (ZMod 17), z.length = 2 → (Represents params17 idx z ↔
      FitsAssignment idx ∧ CoefficientsIrrelevant [[], [(2, 0)]] z ∧
        CoefficientsIrrelevant [[], [(1, 0)]] z)) ∧
    ((∀ z : List (ZMod 17), z.length = 2 → Represents params17 idx z) ↔
      FitsAssignment idx ∧ UnitLike 2 ([[], [(2, 0)]] : Matrix (ZMod 17)) ∧
        UnitLike 2 ([[], [(1, 0)]] : Matrix (ZMod 17))) := by
  obtain ⟨_, _, idx, _, hidx⟩ := exists_doubledEntry_index
  obtain ⟨hone, hall, _⟩ := witness_vectors_represent_iff hidx
  exact ⟨idx, hidx, hone, hall⟩

/-- The prover takes one for the product of the doubled entry with one. -/
theorem doubledEntry_not_represented : ∃ idx,
    index params17 ⟨2, 1, 1, 2⟩ [[], [(2, 0)]] [[], [(1, 0)]] [[], [(1, 1)]] = .ok idx ∧
    (∃ state, proverInit params17 idx [1, 2] = .ok state) ∧ ¬ Represents params17 idx [1, 2] := by
  obtain ⟨domain_k, domain_h, idx, hdomains, hidx⟩ := exists_doubledEntry_index
  refine ⟨idx, hidx, ?_, ?_⟩
  · obtain ⟨hinfo, ha, hb, _⟩ := index_fields hidx
    rw [exists_proverInit_iff (hinfo.symm ▸ hdomains) (by rw [hinfo]; rfl)]
    constructor
    · rw [hinfo, ha, Inside]
      decide
    · rw [hinfo, hb, Inside]
      decide
    · rw [hinfo]
      decide
    · rw [hinfo]
      decide
  · intro h
    have hirrelevant := ((represents_iff hidx rfl).mp h).2.1 [(2, 0)] (by simp)
    revert hirrelevant
    decide

end Represents

end Lootbox.IndexPrivateMarlin

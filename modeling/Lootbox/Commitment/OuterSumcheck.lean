import Lootbox.Commitment.FunctionRelationCompleteness
import Lootbox.Commitment.FunctionalTriple
import Lootbox.Commitment.Lincheck

/-!
# `index_private_marlin`: the sum check over `H`

For a solution of a compiled circuit the polynomial of the first sum check has sum zero over `H`,
so its remainder modulo the vanishing polynomial is a multiple of `X`.
-/

namespace Lootbox.IndexPrivateMarlin

open AcCompiler Polynomial

variable {F : Type} [Field F] [DecidableEq F] {domain_h : EvaluationDomain F}

/-! ### Masked interpolations -/

section MaskedInterpolation

variable {evals : List F} {mask : F}

theorem toPoly_maskedInterpolation : (maskedInterpolation domain_h evals mask).toPoly =
    (domain_h.interpolate evals).toPoly + C mask * (X ^ domain_h.size - 1) := by
  rw [maskedInterpolation, DensePolynomial.toPoly_add, DensePolynomial.toPoly_mul,
    DensePolynomial.toPoly_fromCoefficientsVec, domain_h.toPoly_vanishingPolynomial]
  simp

theorem evaluate_maskedInterpolation {i : Nat} (hi : i < domain_h.size) :
    (maskedInterpolation domain_h evals mask).evaluate (domain_h.element i) = evals.getD i 0 := by
  rw [← DensePolynomial.eval_toPoly, toPoly_maskedInterpolation, eval_add, eval_mul, eval_sub,
    eval_pow, eval_X, eval_one, domain_h.element_pow_size, sub_self, mul_zero, add_zero,
    DensePolynomial.eval_toPoly, domain_h.evaluate_interpolate _ hi,
    EvaluationDomain.resize_getD_of_lt hi]

theorem degree_maskedInterpolation (hmask : mask ≠ 0) :
    (maskedInterpolation domain_h evals mask).toPoly.degree = domain_h.size := by
  have hvanish : (C mask * (X ^ domain_h.size - 1) : F[X]).degree = domain_h.size := by
    rw [← C_1, degree_C_mul hmask]
    exact degree_X_pow_sub_C domain_h.size_pos 1
  rw [toPoly_maskedInterpolation, degree_add_eq_right_of_degree_lt, hvanish]
  rw [hvanish]
  exact domain_h.degree_interpolate_lt evals

theorem length_maskedInterpolation (hmask : mask ≠ 0) :
    (maskedInterpolation domain_h evals mask).coeffs.length = domain_h.size + 1 := by
  have htrim : (maskedInterpolation domain_h evals mask).Trimmed :=
    DensePolynomial.trimmed_fromCoefficientsVec _
  exact htrim.length_eq (degree_maskedInterpolation hmask)

end MaskedInterpolation

/-! ### The sum of the three products -/

section SummedZM

omit [DecidableEq F] in
theorem ofCoeffs_addPrefix : ∀ cs ds : List F, ds.length ≤ cs.length →
    DensePolynomial.ofCoeffs (addPrefix cs ds) =
      DensePolynomial.ofCoeffs cs + DensePolynomial.ofCoeffs ds
  | [], [], _ => (add_zero _).symm
  | [], d :: ds, h => absurd h (Nat.not_succ_le_zero _)
  | c :: cs, [], _ => (add_zero _).symm
  | c :: cs, d :: ds, h => by
    simp only [addPrefix, DensePolynomial.ofCoeffs_cons,
      ofCoeffs_addPrefix cs ds (Nat.le_of_succ_le_succ h), map_add]
    ring

omit [DecidableEq F] in
theorem ofCoeffs_zipWith (eta_a eta_b : F) : ∀ as bs : List F, as.length = bs.length →
    DensePolynomial.ofCoeffs (List.zipWith (fun a b => eta_a * a + eta_b * b) as bs) =
      C eta_a * DensePolynomial.ofCoeffs as + C eta_b * DensePolynomial.ofCoeffs bs
  | [], [], _ => by simp
  | [], b :: bs, h => by cases h
  | a :: as, [], h => by cases h
  | a :: as, b :: bs, h => by
    simp only [List.zipWith_cons_cons, DensePolynomial.ofCoeffs_cons, map_add, map_mul,
      ofCoeffs_zipWith eta_a eta_b as bs (Nat.succ.inj h)]
    ring

variable {first : VerifierFirstMsg F} {z_a_poly z_b_poly : DensePolynomial F}

theorem toPoly_summedZM (hlen : z_a_poly.coeffs.length = z_b_poly.coeffs.length)
    (hle : z_a_poly.coeffs.length ≤ (z_a_poly * z_b_poly).coeffs.length) :
    (summedZM first z_a_poly z_b_poly).toPoly = C first.etaA * z_a_poly.toPoly +
      C first.etaB * z_b_poly.toPoly + C first.etaC * (z_a_poly.toPoly * z_b_poly.toPoly) := by
  have hscale : (z_a_poly * z_b_poly).coeffs.map (· * first.etaC) =
      (z_a_poly * z_b_poly).coeffs.map (first.etaC * ·) := by
    apply List.map_congr_left
    intro c _
    exact mul_comm c first.etaC
  rw [summedZM, DensePolynomial.toPoly_fromCoefficientsVec, ofCoeffs_addPrefix, ofCoeffs_zipWith _ _ _ _ hlen,
    hscale, DensePolynomial.ofCoeffs_map_mul, ← DensePolynomial.toPoly_mul]
  · simp only [DensePolynomial.toPoly]
    ring
  · rw [List.length_zipWith, List.length_map, hlen, Nat.min_self, ← hlen]
    exact hle

end SummedZM

/-! ### The right-hand side -/

section SumcheckRhs

variable {params : EvaluationDomain.FftParameters F}
  {mask_poly r_alpha_poly summed_z_m z_poly t_poly rhs : DensePolynomial F}

/-- The domain of the multiplication is large enough for every factor. -/
def mulDomainSize (mask_poly r_alpha_poly summed_z_m z_poly t_poly : DensePolynomial F) : Nat :=
  max mask_poly.coeffs.length (max (r_alpha_poly.coeffs.length + summed_z_m.coeffs.length)
    (t_poly.coeffs.length + z_poly.coeffs.length))

omit [DecidableEq F] in
theorem degree_mul_lt {p q : DensePolynomial F} {n : Nat}
    (h : p.coeffs.length + q.coeffs.length ≤ n) : (p.toPoly * q.toPoly).degree < n := by
  rw [degree_lt_iff_coeff_zero]
  intro k hk
  rw [coeff_mul]
  apply Finset.sum_eq_zero
  rintro ⟨i, j⟩ hij
  rw [Finset.HasAntidiagonal.mem_antidiagonal] at hij
  dsimp only at hij ⊢
  rcases Nat.lt_or_ge i p.coeffs.length with hi | hi
  · rw [coeff_toPoly q, List.getD_eq_default _ _ (by omega), mul_zero]
  · rw [coeff_toPoly p, List.getD_eq_default _ _ hi, zero_mul]

theorem sumcheckRhs_eq_ok
    (h : sumcheckRhs params mask_poly r_alpha_poly summed_z_m z_poly t_poly = .ok rhs) :
    rhs.toPoly = r_alpha_poly.toPoly * summed_z_m.toPoly - z_poly.toPoly * t_poly.toPoly := by
  obtain ⟨mul_domain, hdomain, h⟩ := bind_eq_ok_iff.mp h
  cases h
  rw [need_eq_ok_iff] at hdomain
  have hsize : mulDomainSize mask_poly r_alpha_poly summed_z_m z_poly t_poly ≤ mul_domain.size := by
    rw [params.radix2Domain_size hdomain]
    exact Nat.le_pow_clog (by decide) _
  have hrs : r_alpha_poly.coeffs.length + summed_z_m.coeffs.length ≤ mul_domain.size :=
    (le_max_left _ _).trans ((le_max_right _ _).trans hsize)
  have htz : t_poly.coeffs.length + z_poly.coeffs.length ≤ mul_domain.size :=
    (le_max_right _ _).trans ((le_max_right _ _).trans hsize)
  rw [FunctionRelation.fft_eq (by omega), FunctionRelation.fft_eq (by omega),
    FunctionRelation.fft_eq (by omega), FunctionRelation.fft_eq (by omega), List.zipWith_map,
    List.zipWith_self, List.zipWith_map, List.zipWith_self, List.zipWith_map, List.zipWith_self]
  apply mul_domain.eq_of_eval_eq (mul_domain.degree_interpolate_lt _)
  · apply lt_of_le_of_lt (degree_sub_le _ _)
    exact max_lt (degree_mul_lt hrs) (degree_mul_lt (by omega))
  · intro x hx
    rw [DensePolynomial.eval_toPoly, mul_domain.evaluate_interpolate_map _ hx, eval_sub, eval_mul,
      eval_mul, DensePolynomial.eval_toPoly, DensePolynomial.eval_toPoly, DensePolynomial.eval_toPoly,
      DensePolynomial.eval_toPoly]

theorem exists_sumcheckRhs_iff :
    (∃ rhs, sumcheckRhs params mask_poly r_alpha_poly summed_z_m z_poly t_poly = .ok rhs) ↔
      (params.radix2Domain
        (mulDomainSize mask_poly r_alpha_poly summed_z_m z_poly t_poly)).isSome := by
  rw [Option.isSome_iff_exists]
  constructor
  · rintro ⟨rhs, h⟩
    obtain ⟨mul_domain, hdomain, _⟩ := bind_eq_ok_iff.mp h
    exact ⟨mul_domain, need_eq_ok_iff.mp hdomain⟩
  · rintro ⟨mul_domain, hdomain⟩
    exact ⟨_, bind_eq_of_ok (need_eq_ok_iff.mpr hdomain) rfl⟩

end SumcheckRhs

/-! ### The masking -/

section Masking

variable {zk_bound : Nat} {rng : Nat → F}

theorem trim_of_getLast_ne_zero {cs : List F} (h : ∀ c ∈ cs.getLast?, c ≠ 0) :
    DensePolynomial.trim cs = cs := by
  induction cs with
  | nil => rfl
  | cons c cs ih =>
    cases cs with
    | nil =>
      have hc : c ≠ 0 := h c rfl
      rw [DensePolynomial.trim, DensePolynomial.trim, if_neg hc]
    | cons d ds =>
      rw [List.getLast?_cons_cons] at h
      rw [DensePolynomial.trim, ih h]

theorem randPolynomial_coeffs (d : Nat) (hrng : rng d ≠ 0) :
    (randPolynomial d rng).coeffs = (List.range (d + 1)).map rng := by
  rw [randPolynomial, DensePolynomial.fromCoefficientsVec]
  apply trim_of_getLast_ne_zero
  intro c hc
  rw [List.range_succ, List.map_append, List.map_singleton, List.getLast?_concat] at hc
  cases hc
  exact hrng

omit [DecidableEq F] in
theorem sumMultiples_eq_ok {mask_poly : DensePolynomial F} {nh upper_bound : Nat}
    (h : nh * upper_bound < mask_poly.coeffs.length) :
    sumMultiples mask_poly nh upper_bound =
      .ok (∑ i ∈ Finset.range (upper_bound + 1), mask_poly.toPoly.coeff (nh * i)) := by
  have hcoeff : ∀ i ∈ List.range (upper_bound + 1),
      coeffAt mask_poly (nh * i) = .ok (mask_poly.toPoly.coeff (nh * i)) := by
    intro i hi
    have hle : nh * i ≤ nh * upper_bound :=
      Nat.mul_le_mul_left nh (Nat.lt_succ_iff.mp (List.mem_range.mp hi))
    have hlt : nh * i < mask_poly.coeffs.length := by omega
    rw [coeffAt, need_eq_ok_iff, coeff_toPoly, List.getD_eq_getElem _ _ hlt,
      List.getElem?_eq_getElem hlt]
  rw [sumMultiples]
  refine (foldlM_add_eq_ok hcoeff 0).trans ?_
  rw [zero_add]
  rfl

/-- The mask sums to zero over `H`: its constant coefficient takes the others back. -/
theorem exists_outerMask (domain_h : EvaluationDomain F) (zk_bound : Nat) (hrng : ∀ i, rng i ≠ 0) :
    ∃ mask_poly, outerMask domain_h zk_bound rng = .ok mask_poly ∧
      mask_poly.coeffs.length = 3 * domain_h.size + 2 * zk_bound ∧
      domain_h.sumOver mask_poly.evaluate = 0 := by
  have hsize := domain_h.size_pos
  obtain ⟨d, hd⟩ : ∃ d, d = 3 * domain_h.size + 2 * zk_bound - 1 := ⟨_, rfl⟩
  obtain ⟨p, hp⟩ : ∃ p, p = randPolynomial d rng := ⟨_, rfl⟩
  have hlen : p.coeffs.length = d + 1 := by
    rw [hp, randPolynomial_coeffs d (hrng d), List.length_map, List.length_range]
  have hlast : domain_h.size * (d / domain_h.size) < p.coeffs.length := by
    have := Nat.mul_div_le d domain_h.size
    omega
  have hconst : coeffAt p 0 = .ok (p.toPoly.coeff 0) := by
    rw [coeffAt, need_eq_ok_iff, coeff_toPoly, List.getD_eq_getElem _ _ (by omega),
      List.getElem?_eq_getElem (by omega)]
  obtain ⟨r_0, hr_0⟩ : ∃ r_0, r_0 = ∑ i ∈ Finset.range (d / domain_h.size + 1),
    p.toPoly.coeff (domain_h.size * i) := ⟨_, rfl⟩
  obtain ⟨q, hq⟩ : ∃ q, setCoeff p 0 (p.toPoly.coeff 0 - r_0) = .ok q :=
    ⟨_, if_pos (by omega)⟩
  have houter : outerMask domain_h zk_bound rng = .ok q := by
    rw [outerMask, ← hd, ← hp]
    refine bind_eq_of_ok (sumMultiples_eq_ok hlast) (bind_eq_of_ok hconst ?_)
    rw [← hr_0, hq]
  obtain ⟨hqlen, hqzero, hqother⟩ := setCoeff_eq_ok hq
  refine ⟨q, houter, by omega, ?_⟩
  have hdegree : q.toPoly.natDegree < domain_h.size * (d / domain_h.size + 1) := by
    have hlt := DensePolynomial.degree_toPoly_lt q
    rw [hqlen, hlen] at hlt
    have hbound := EvaluationDomain.natDegree_lt_of_degree_lt (Nat.succ_pos d) hlt
    have := Nat.lt_mul_div_succ d hsize
    omega
  have hsum := domain_h.sumOver_eval_multiples q.toPoly hdegree
  simp only [DensePolynomial.eval_toPoly] at hsum
  have hother : ∀ i ∈ Finset.range (d / domain_h.size), q.toPoly.coeff (domain_h.size * (i + 1)) =
      p.toPoly.coeff (domain_h.size * (i + 1)) :=
    fun i _ => hqother _ (Nat.mul_pos hsize (Nat.succ_pos i)).ne'
  rw [Finset.sum_range_succ'] at hr_0 hsum
  rw [Finset.sum_congr rfl hother, Nat.mul_zero, hqzero, hr_0, Nat.mul_zero] at hsum
  rw [hsum]
  ring

theorem exists_innerMask (domain_k : EvaluationDomain F) (hrng : ∀ i, rng i ≠ 0) :
    ∃ inner_mask_poly, innerMask domain_k rng = .ok inner_mask_poly := by
  refine ⟨_, if_pos ?_⟩
  rw [randPolynomial_coeffs _ (hrng _), List.length_map, List.length_range]
  exact Nat.succ_pos _

end Masking

/-! ### Solutions of a compiled circuit -/

section Solutions

omit [DecidableEq F] in
theorem innerProduct_eq_rowSum {row : List (F × Nat)} {z : List F} {v : F}
    (h : innerProduct row z = some v) :
    v = rowSum row (z.getD · 0) ∧ ∀ e ∈ row, e.2 < z.length := by
  have hloop : ∀ (row : List (F × Nat)) (acc : F),
      row.foldlM (fun acc e => z[e.2]?.map fun v => acc + e.1 * v) acc = some v →
      v = acc + rowSum row (z.getD · 0) ∧ ∀ e ∈ row, e.2 < z.length := by
    intro row
    induction row with
    | nil =>
      intro acc h
      cases h
      exact ⟨(add_zero _).symm, nofun⟩
    | cons e row ih =>
      intro acc h
      rw [List.foldlM_cons, Option.bind_eq_bind, Option.bind_eq_some_iff] at h
      obtain ⟨acc', hacc, h⟩ := h
      obtain ⟨w, hw, rfl⟩ := Option.map_eq_some_iff.mp hacc
      obtain ⟨hv, hrow⟩ := ih _ h
      obtain ⟨hlt, rfl⟩ := List.getElem?_eq_some_iff.mp hw
      refine ⟨?_, List.forall_mem_cons.mpr ⟨hlt, hrow⟩⟩
      rw [hv, rowSum, rowSum, List.map_cons, List.sum_cons, List.getD_eq_getElem _ _ hlt, add_assoc]
  obtain ⟨hv, hrow⟩ := hloop row 0 h
  exact ⟨by rw [hv, zero_add], hrow⟩

omit [DecidableEq F] in
theorem rowAt_coeff {f : Gate → Nat → List (F × Nat)} (hf : f = rowA ∨ f = rowB) (circuit : Circuit)
    (r : Nat) : ∀ e ∈ rowAt f circuit r, e.1 = 1 := by
  intro e he
  unfold rowAt at he
  split at he
  · cases hgate : circuit.gates[r - (1 + circuit.numberOfInputs)]? with
    | none =>
      rw [hgate] at he
      cases he
    | some gate =>
      rw [hgate, Option.map_some, Option.getD_some] at he
      rcases hf with rfl | rfl
      · unfold rowA at he
        split at he
        · rw [List.mem_singleton.mp he]
        · rw [List.mem_singleton.mp he]
      · unfold rowB at he
        split at he
        · rcases List.mem_cons.mp he with rfl | he
          · rfl
          · rw [List.mem_singleton.mp he]
        · rw [List.mem_singleton.mp he]
  · cases he

omit [DecidableEq F] in
theorem innerProd_eq_ok {assignment : List F} {row : List (F × Nat)}
    (hrow : ∀ e ∈ row, e.1 = 1 ∧ e.2 < assignment.length) :
    innerProd assignment row = .ok (rowSum row (assignment.getD · 0)) := by
  have hstep : ∀ e ∈ row, need Error.aborted assignment[e.2]? = .ok (e.1 * assignment.getD e.2 0) := by
    intro e he
    obtain ⟨hone, hlt⟩ := hrow e he
    rw [need_eq_ok_iff, hone, one_mul, List.getD_eq_getElem _ _ hlt, List.getElem?_eq_getElem hlt]
  refine (foldlM_add_eq_ok hstep 0).trans ?_
  rw [zero_add]
  rfl

variable {circuit : Circuit} {z : List F}

/-- What the prover relies on in the rows of the three matrices. -/
structure Rows (z : List F) (a b c : Matrix F) : Prop where
  lengths : ∀ m ∈ [a, b, c], m.length = z.length
  inside : ∀ m ∈ [a, b, c], ∀ row ∈ m, ∀ e ∈ row, e.2 < z.length
  ones : ∀ m ∈ [a, b], ∀ row ∈ m, ∀ e ∈ row, e.1 = 1
  product : ∀ i, rowSum (a.getD i []) (z.getD · 0) * rowSum (b.getD i []) (z.getD · 0) =
    rowSum (c.getD i []) (z.getD · 0)

omit [DecidableEq F] in
theorem ac2tft_lengths (circuit : Circuit) :
    (ac2tft (F := F) circuit).2.1.length = (ac2tft (F := F) circuit).1.numberOfConstraints ∧
      (ac2tft (F := F) circuit).2.2.1.length = (ac2tft (F := F) circuit).1.numberOfConstraints ∧
      (ac2tft (F := F) circuit).2.2.2.length = (ac2tft (F := F) circuit).1.numberOfConstraints := by
  obtain ⟨st, hcount, hac⟩ := ac2tft_counted (F := F) circuit
  rw [hac]
  exact ⟨hcount.lengthA, hcount.lengthB, hcount.lengthC⟩

omit [DecidableEq F] in
/-- At the index of a constraint stand the rows of the compiler, and the solution meets them. -/
theorem solved_row (hz : Solves circuit z)
    (hlen : z.length = (ac2tft (F := F) circuit).1.numberOfConstraints) {i : Nat} (hi : i < z.length) :
    ∃ a b c, innerProduct (rowAt rowA circuit i) z = some a ∧
      innerProduct (rowAt rowB circuit i) z = some b ∧
      innerProduct (rowAt rowC circuit i) z = some c ∧ a * b = c := by
  obtain ⟨ha, hb, hc⟩ := ac2tft_rows (F := F) circuit (lt_of_lt_of_eq hi hlen)
  have hsolves := hz i (lt_of_lt_of_eq hi hlen)
  rw [ha, hb, hc] at hsolves
  exact hsolves

omit [Field F] [DecidableEq F] in
theorem exists_rowAt_of_mem {n : Nat} {m : Matrix F} {f : Gate → Nat → List (F × Nat)}
    (hm : m.length = n) (hget : ∀ i < n, m[i]? = some (rowAt f circuit i)) {row : List (F × Nat)}
    (hrow : row ∈ m) : ∃ i < n, row = rowAt f circuit i := by
  obtain ⟨i, hi, rfl⟩ := List.mem_iff_getElem.mp hrow
  have hsome := hget i (hm ▸ hi)
  rw [List.getElem?_eq_getElem hi] at hsome
  exact ⟨i, hm ▸ hi, Option.some.inj hsome⟩

omit [DecidableEq F] in
theorem rows_of_solves (hz : Solves circuit z)
    (hlen : z.length = (ac2tft (F := F) circuit).1.numberOfConstraints) :
    Rows z (ac2tft circuit).2.1 (ac2tft circuit).2.2.1 (ac2tft circuit).2.2.2 := by
  have hrows : ∀ i < z.length, (ac2tft (F := F) circuit).2.1[i]? = some (rowAt rowA circuit i) ∧
      (ac2tft (F := F) circuit).2.2.1[i]? = some (rowAt rowB circuit i) ∧
      (ac2tft (F := F) circuit).2.2.2[i]? = some (rowAt rowC circuit i) :=
    fun i hi => ac2tft_rows circuit (lt_of_lt_of_eq hi hlen)
  obtain ⟨hlenA, hlenB, hlenC⟩ := ac2tft_lengths (F := F) circuit
  rw [← hlen] at hlenA hlenB hlenC
  have hmemA : ∀ row ∈ (ac2tft (F := F) circuit).2.1, ∃ i < z.length, row = rowAt rowA circuit i :=
    fun row hrow => exists_rowAt_of_mem hlenA (fun i hi => (hrows i hi).1) hrow
  have hmemB : ∀ row ∈ (ac2tft (F := F) circuit).2.2.1, ∃ i < z.length, row = rowAt rowB circuit i :=
    fun row hrow => exists_rowAt_of_mem hlenB (fun i hi => (hrows i hi).2.1) hrow
  have hmemC : ∀ row ∈ (ac2tft (F := F) circuit).2.2.2, ∃ i < z.length, row = rowAt rowC circuit i :=
    fun row hrow => exists_rowAt_of_mem hlenC (fun i hi => (hrows i hi).2.2) hrow
  constructor
  · simp only [List.forall_mem_cons]
    exact ⟨hlenA, hlenB, hlenC, nofun⟩
  · simp only [List.forall_mem_cons]
    refine ⟨?_, ?_, ?_, nofun⟩
    · intro row hrow
      obtain ⟨i, hi, rfl⟩ := hmemA row hrow
      obtain ⟨_, _, _, ha, _⟩ := solved_row hz hlen hi
      exact (innerProduct_eq_rowSum ha).2
    · intro row hrow
      obtain ⟨i, hi, rfl⟩ := hmemB row hrow
      obtain ⟨_, _, _, _, hb, _⟩ := solved_row hz hlen hi
      exact (innerProduct_eq_rowSum hb).2
    · intro row hrow
      obtain ⟨i, hi, rfl⟩ := hmemC row hrow
      obtain ⟨_, _, _, _, _, hc, _⟩ := solved_row hz hlen hi
      exact (innerProduct_eq_rowSum hc).2
  · simp only [List.forall_mem_cons]
    refine ⟨?_, ?_, nofun⟩
    · intro row hrow
      obtain ⟨i, _, rfl⟩ := hmemA row hrow
      exact rowAt_coeff (Or.inl rfl) circuit i
    · intro row hrow
      obtain ⟨i, _, rfl⟩ := hmemB row hrow
      exact rowAt_coeff (Or.inr rfl) circuit i
  · intro i
    rcases Nat.lt_or_ge i z.length with hi | hi
    · obtain ⟨hA, hB, hC⟩ := hrows i hi
      obtain ⟨a, b, c, ha, hb, hc, habc⟩ := solved_row hz hlen hi
      rw [List.getD_eq_getElem?_getD, List.getD_eq_getElem?_getD, List.getD_eq_getElem?_getD, hA, hB,
        hC, Option.getD_some, Option.getD_some, Option.getD_some, ← (innerProduct_eq_rowSum ha).1,
        ← (innerProduct_eq_rowSum hb).1, ← (innerProduct_eq_rowSum hc).1, habc]
    · rw [List.getD_eq_default _ _ (hlenA ▸ hi), List.getD_eq_default _ _ (hlenB ▸ hi),
        List.getD_eq_default _ _ (hlenC ▸ hi)]
      exact mul_zero 0

omit [DecidableEq F] in
theorem Rows.entries {a b c : Matrix F} (hrows : Rows z a b c) :
    ∀ m ∈ [a, b], ∀ row ∈ m, ∀ e ∈ row, e.1 = 1 ∧ e.2 < z.length := by
  intro m hm row hrow e he
  have hm' : m ∈ [a, b, c] := List.mem_append_left [c] hm
  exact ⟨hrows.ones m hm row hrow e he, hrows.inside m hm' row hrow e he⟩

omit [DecidableEq F] in
theorem mapM_innerProd {m : Matrix F} (hrow : ∀ row ∈ m, ∀ e ∈ row, e.1 = 1 ∧ e.2 < z.length) :
    m.mapM (innerProd z) = .ok (m.map fun row => rowSum row (z.getD · 0)) :=
  mapM_eq_ok_map fun row hmem => innerProd_eq_ok (hrow row hmem)

omit [DecidableEq F] in
theorem getD_map_rowSum (m : Matrix F) (right : Nat → F) (i : Nat) :
    (m.map fun row => rowSum row right).getD i 0 = rowSum (m.getD i []) right :=
  List.getD_map m [] fun row => rowSum row right

end Solutions

/-! ### The first round -/

section FirstRound

/-- `mask + r(alpha, X) (eta_a z_A + eta_b z_B + eta_c z_A z_B) - t z` -/
noncomputable def outerPolynomial (domain_h : EvaluationDomain F) (first : VerifierFirstMsg F)
    (oracles : ProverFirstOracles F) (t : DensePolynomial F) : F[X] :=
  oracles.maskPoly.toPoly + domain_h.lagrangeKernel first.alpha * (C first.etaA * oracles.zA.toPoly +
    C first.etaB * oracles.zB.toPoly + C first.etaC * (oracles.zA.toPoly * oracles.zB.toPoly)) -
    t.toPoly * oracles.z.toPoly

variable {z : List F} {a b c : Matrix F} {oracles : ProverFirstOracles F} {first : VerifierFirstMsg F}
  {state : ProverState F} {rng : Nat → F} {t : DensePolynomial F}

structure FirstRoundSpec (domain_h : EvaluationDomain F) (zk_bound : Nat) (z : List F) (a b : Matrix F)
    (oracles : ProverFirstOracles F) : Prop where
  length_z : oracles.z.coeffs.length = domain_h.size + 1
  length_zA : oracles.zA.coeffs.length = domain_h.size + 1
  length_zB : oracles.zB.coeffs.length = domain_h.size + 1
  trimmed : oracles.zA.Trimmed ∧ oracles.zB.Trimmed
  length_mask : oracles.maskPoly.coeffs.length = 3 * domain_h.size + 2 * zk_bound
  z_at : ∀ i < domain_h.size, oracles.z.evaluate (domain_h.element i) = z.getD i 0
  zA_at : ∀ i < domain_h.size, oracles.zA.evaluate (domain_h.element i) =
    rowSum (a.getD i []) (z.getD · 0)
  zB_at : ∀ i < domain_h.size, oracles.zB.evaluate (domain_h.element i) =
    rowSum (b.getD i []) (z.getD · 0)
  mask_sum : domain_h.sumOver oracles.maskPoly.evaluate = 0

def afterFirstRound (state : ProverState F) (oracles : ProverFirstOracles F) : ProverState F :=
  { state with
    zPoly := some oracles.z
    mzPolys := some (oracles.zA, oracles.zB)
    maskPoly := some oracles.maskPoly
    innerMaskPoly := some oracles.innerMaskPoly }

theorem exists_proverFirstRound (hzk : 0 < state.zkBound) (hz : state.assignment = z)
    (hzA : state.zA = a.map fun row => rowSum row (z.getD · 0))
    (hzB : state.zB = b.map fun row => rowSum row (z.getD · 0)) (hrng : ∀ i, rng i ≠ 0) :
    ∃ oracles, proverFirstRound state rng = .ok (oracles, afterFirstRound state oracles) ∧
      FirstRoundSpec state.domainH state.zkBound z a b oracles := by
  obtain ⟨mask_poly, hmask, hmask_len, hmask_sum⟩ :=
    exists_outerMask state.domainH state.zkBound fun i => hrng (3 + i)
  obtain ⟨inner_mask_poly, hinner⟩ := exists_innerMask state.domainK fun i =>
    hrng (3 + (3 * state.domainH.size + 2 * state.zkBound) + i)
  have hassert : ∀ (evals : List F) {mask : F}, mask ≠ 0 →
      degree (maskedInterpolation state.domainH evals mask) < state.domainH.size + state.zkBound := by
    intro evals mask hne
    rw [degree, length_maskedInterpolation hne]
    omega
  refine ⟨⟨maskedInterpolation state.domainH state.assignment (rng 0),
    maskedInterpolation state.domainH state.zA (rng 1),
    maskedInterpolation state.domainH state.zB (rng 2), mask_poly, inner_mask_poly⟩, ?_, ?_⟩
  · rw [proverFirstRound]
    refine bind_eq_of_ok hmask (bind_eq_of_ok hinner ?_)
    rw [if_neg (not_not_intro (hassert _ (hrng 1))), if_neg (not_not_intro (hassert _ (hrng 2)))]
    rfl
  · constructor
    · exact length_maskedInterpolation (hrng 0)
    · exact length_maskedInterpolation (hrng 1)
    · exact length_maskedInterpolation (hrng 2)
    · exact ⟨DensePolynomial.trimmed_fromCoefficientsVec _, DensePolynomial.trimmed_fromCoefficientsVec _⟩
    · exact hmask_len
    · intro i hi
      rw [evaluate_maskedInterpolation hi, hz]
    · intro i hi
      rw [evaluate_maskedInterpolation hi, hzA, getD_map_rowSum]
    · intro i hi
      rw [evaluate_maskedInterpolation hi, hzB, getD_map_rowSum]
    · exact hmask_sum

omit [DecidableEq F] in
theorem eval_lagrangeKernel_element (halpha : first.alpha ∉ domain_h.elements) (i : Nat) :
    (domain_h.lagrangeKernel first.alpha).eval (domain_h.element i) =
      kernelAt domain_h first.alpha i := by
  have hmem := domain_h.element_mem i
  have hne : first.alpha - domain_h.element i ≠ 0 := sub_ne_zero.mpr fun heq => halpha (heq ▸ hmem)
  have hmul := domain_h.eval_lagrangeKernel_mul first.alpha (domain_h.element i)
  rw [domain_h.evaluateVanishingPolynomial_eq_zero.mpr hmem, sub_zero] at hmul
  rw [kernelAt, ← hmul, mul_comm _ (first.alpha - _), inv_mul_cancel_left₀ hne]

omit [DecidableEq F] in
theorem Rows.inRange (hrows : Rows z a b c) (hsize : z.length ≤ domain_h.size) :
    ∀ m ∈ [a, b, c], InRange domain_h m := by
  intro m hm
  apply inRange_of_length ((hrows.lengths m hm).le.trans hsize)
  intro e he
  obtain ⟨row, hrow, he⟩ := List.mem_flatten.mp he
  exact (hrows.inside m hm row hrow e he).trans_le hsize

theorem sum_t_z (hrows : Rows z a b c) (hsize : z.length ≤ domain_h.size)
    (ht : calculateT [a, b, c] [first.etaA, first.etaB, first.etaC] domain_h
      (batchEvalUnnormalizedBivariateLagrangePolyWithDiffInputs domain_h first.alpha) = .ok t) :
    ∑ i ∈ Finset.range domain_h.size, t.evaluate (domain_h.element i) * z.getD i 0 =
      first.etaA * ∑ i ∈ Finset.range domain_h.size,
        kernelAt domain_h first.alpha i * rowSum (a.getD i []) (z.getD · 0) +
      first.etaB * ∑ i ∈ Finset.range domain_h.size,
        kernelAt domain_h first.alpha i * rowSum (b.getD i []) (z.getD · 0) +
      first.etaC * ∑ i ∈ Finset.range domain_h.size,
        kernelAt domain_h first.alpha i * rowSum (c.getD i []) (z.getD · 0) := by
  have hrange := hrows.inRange hsize
  have hkernel : ∀ m ∈ [a, b, c], entrySum m
      ((batchEvalUnnormalizedBivariateLagrangePolyWithDiffInputs domain_h first.alpha).getD · 0)
      (z.getD · 0) = ∑ i ∈ Finset.range domain_h.size,
        kernelAt domain_h first.alpha i * rowSum (m.getD i []) (z.getD · 0) := by
    intro m hm
    rw [entrySum_congr (hrange m hm) fun i hi => getD_diff_inputs first.alpha hi,
      entrySum_eq_rows m _ _ ((hrows.lengths m hm).le.trans hsize)]
  simp only [List.forall_mem_cons] at hkernel
  obtain ⟨ha, hb, hc, _⟩ := hkernel
  rw [calculateT_eq_ok ht (z.getD · 0)]
  simp only [List.zip_cons_cons, List.zip_nil_right, List.map_cons, List.map_nil, List.sum_cons,
    List.sum_nil, ha, hb, hc]
  ring

/-- For a solution the values on `H` add up to zero. -/
theorem sumOver_outerPolynomial {zk_bound : Nat} (hrows : Rows z a b c)
    (hsize : z.length ≤ domain_h.size) (hspec : FirstRoundSpec domain_h zk_bound z a b oracles)
    (halpha : first.alpha ∉ domain_h.elements)
    (ht : calculateT [a, b, c] [first.etaA, first.etaB, first.etaC] domain_h
      (batchEvalUnnormalizedBivariateLagrangePolyWithDiffInputs domain_h first.alpha) = .ok t) :
    domain_h.sumOver (fun x => (outerPolynomial domain_h first oracles t).eval x) = 0 := by
  have hterm : ∀ i ∈ Finset.range domain_h.size,
      (outerPolynomial domain_h first oracles t).eval (domain_h.element i) =
        oracles.maskPoly.evaluate (domain_h.element i) +
        (first.etaA * (kernelAt domain_h first.alpha i * rowSum (a.getD i []) (z.getD · 0)) +
          first.etaB * (kernelAt domain_h first.alpha i * rowSum (b.getD i []) (z.getD · 0)) +
          first.etaC * (kernelAt domain_h first.alpha i * rowSum (c.getD i []) (z.getD · 0))) -
        t.evaluate (domain_h.element i) * z.getD i 0 := by
    intro i hi
    rw [Finset.mem_range] at hi
    simp only [outerPolynomial, eval_add, eval_sub, eval_mul, eval_C, DensePolynomial.eval_toPoly,
      eval_lagrangeKernel_element halpha, hspec.z_at i hi, hspec.zA_at i hi, hspec.zB_at i hi,
      hrows.product i]
    ring
  have hmask := hspec.mask_sum
  rw [domain_h.sumOver_eq] at hmask
  rw [domain_h.sumOver_eq, Finset.sum_congr rfl hterm, Finset.sum_sub_distrib,
    Finset.sum_add_distrib, Finset.sum_add_distrib, Finset.sum_add_distrib, ← Finset.mul_sum,
    ← Finset.mul_sum, ← Finset.mul_sum, hmask, sum_t_z hrows hsize ht]
  ring

end FirstRound

/-! ### The second round -/

section SecondRound

theorem length_calculateT_le {matrices : List (Matrix F)} {etas r_alpha_x_on_h : List F}
    {t : DensePolynomial F} (h : calculateT matrices etas domain_h r_alpha_x_on_h = .ok t) :
    t.coeffs.length ≤ domain_h.size := by
  obtain ⟨t_evals_on_h, _, h⟩ := bind_eq_ok_iff.mp h
  cases h
  exact domain_h.length_interpolate_le t_evals_on_h

omit [DecidableEq F] in
theorem natDegree_le_degree (p : DensePolynomial F) : p.toPoly.natDegree ≤ degree p := by
  rw [natDegree_le_iff_coeff_eq_zero]
  intro i hi
  rw [degree] at hi
  rw [coeff_toPoly, List.getD_eq_default _ _ (by omega)]

variable {params : EvaluationDomain.FftParameters F} {z : List F} {a b c : Matrix F}
  {oracles : ProverFirstOracles F} {first : VerifierFirstMsg F} {zk_bound : Nat}
  {t : DensePolynomial F}

theorem length_product (hspec : FirstRoundSpec domain_h zk_bound z a b oracles) :
    (oracles.zA * oracles.zB).coeffs.length = 2 * domain_h.size + 1 := by
  have htrim : (oracles.zA * oracles.zB).Trimmed := DensePolynomial.trimmed_fromCoefficientsVec _
  have hpos : 0 < domain_h.size + 1 := Nat.succ_pos _
  have hA := (hspec.trimmed.1.leading (hspec.length_zA ▸ hpos)).2.1
  have hB := (hspec.trimmed.2.leading (hspec.length_zB ▸ hpos)).2.1
  rw [hspec.length_zA, Nat.add_sub_cancel] at hA
  rw [hspec.length_zB, Nat.add_sub_cancel] at hB
  apply htrim.length_eq
  rw [DensePolynomial.toPoly_mul, degree_mul, hA, hB, Nat.two_mul]
  exact_mod_cast rfl

omit [DecidableEq F] in
theorem length_addPrefix : ∀ cs ds : List F, (addPrefix cs ds).length = cs.length
  | [], [] => rfl
  | [], _ :: _ => rfl
  | _ :: _, [] => rfl
  | _ :: cs, _ :: ds => congrArg Nat.succ (length_addPrefix cs ds)

theorem length_summedZM_le (first : VerifierFirstMsg F) {z_a_poly z_b_poly : DensePolynomial F}
    {n : Nat} (ha : z_a_poly.coeffs.length ≤ n + 1) (hb : z_b_poly.coeffs.length ≤ n + 1) :
    (summedZM first z_a_poly z_b_poly).coeffs.length ≤ 2 * n + 1 := by
  have hmul := DensePolynomial.length_mul_le z_a_poly z_b_poly
  apply (DensePolynomial.length_trim_le _).trans
  rw [length_addPrefix, List.length_map]
  omega

theorem mulDomainSize_eq (hspec : FirstRoundSpec domain_h zk_bound z a b oracles) (hzk : 0 < zk_bound)
    (ht : t.coeffs.length ≤ domain_h.size) (evals : List F) :
    mulDomainSize oracles.maskPoly (domain_h.interpolate evals) (summedZM first oracles.zA oracles.zB)
      oracles.z t = 3 * domain_h.size + 2 * zk_bound := by
  have hr := domain_h.length_interpolate_le evals
  have hs := length_summedZM_le first hspec.length_zA.le hspec.length_zB.le
  rw [mulDomainSize, hspec.length_mask, hspec.length_z]
  omega

variable {state : ProverState F}

abbrev secondRoundRhs (params : EvaluationDomain.FftParameters F) (domain_h : EvaluationDomain F)
    (first : VerifierFirstMsg F) (oracles : ProverFirstOracles F) (t : DensePolynomial F) :
    Except Error (DensePolynomial F) :=
  sumcheckRhs params oracles.maskPoly (domain_h.interpolate
    (batchEvalUnnormalizedBivariateLagrangePolyWithDiffInputs domain_h first.alpha))
    (summedZM first oracles.zA oracles.zB) oracles.z t

/-- The lengths of the first oracles, whatever is drawn. -/
structure FirstRoundLengths (domain_h : EvaluationDomain F) (zk_bound : Nat)
    (oracles : ProverFirstOracles F) : Prop where
  z : oracles.z.coeffs.length ≤ domain_h.size + 1
  zA : oracles.zA.coeffs.length ≤ domain_h.size + 1
  zB : oracles.zB.coeffs.length ≤ domain_h.size + 1
  mask : oracles.maskPoly.coeffs.length ≤ 3 * domain_h.size + 2 * zk_bound

omit [DecidableEq F] in
theorem FirstRoundSpec.lengths (hspec : FirstRoundSpec domain_h zk_bound z a b oracles) :
    FirstRoundLengths domain_h zk_bound oracles :=
  ⟨hspec.length_z.le, hspec.length_zA.le, hspec.length_zB.le, hspec.length_mask.le⟩

theorem length_secondRoundRhs_le {rhs : DensePolynomial F}
    (hlengths : FirstRoundLengths domain_h zk_bound oracles) (ht : t.coeffs.length ≤ domain_h.size)
    (h : secondRoundRhs params domain_h first oracles t = .ok rhs) :
    rhs.coeffs.length ≤ 3 * domain_h.size + 1 := by
  have hr := domain_h.length_interpolate_le
    (batchEvalUnnormalizedBivariateLagrangePolyWithDiffInputs domain_h first.alpha)
  have hs := length_summedZM_le first hlengths.zA hlengths.zB
  have hz := hlengths.z
  have hpoly := sumcheckRhs_eq_ok h
  have htrim : rhs.Trimmed := by
    obtain ⟨mul_domain, _, h⟩ := bind_eq_ok_iff.mp h
    cases h
    exact DensePolynomial.trimmed_fromCoefficientsVec _
  apply htrim.length_le
  rw [hpoly]
  apply lt_of_le_of_lt (degree_sub_le _ _)
  apply max_lt
  · exact degree_mul_lt (by omega)
  · exact degree_mul_lt (by omega)

theorem secondRoundRhs_eq_ok (hspec : FirstRoundSpec domain_h zk_bound z a b oracles)
    (halpha : first.alpha ∉ domain_h.elements) {rhs : DensePolynomial F}
    (h : secondRoundRhs params domain_h first oracles t = .ok rhs) :
    (oracles.maskPoly + rhs).toPoly = outerPolynomial domain_h first oracles t := by
  rw [DensePolynomial.toPoly_add, sumcheckRhs_eq_ok h,
    batchEvalUnnormalizedBivariateLagrangePolyWithDiffInputs,
    domain_h.toPoly_interpolate_kernel halpha, toPoly_summedZM (hspec.length_zA.trans
      hspec.length_zB.symm) (by rw [hspec.length_zA, length_product hspec]; omega), outerPolynomial]
  ring

theorem secondRound_degrees (hlengths : FirstRoundLengths domain_h zk_bound oracles)
    (hzk : 0 < zk_bound) (ht : t.coeffs.length ≤ domain_h.size) {rhs g_1 : DensePolynomial F}
    (h : secondRoundRhs params domain_h first oracles t = .ok rhs)
    (hg_1 : divideByX ((oracles.maskPoly + rhs).divideWithQAndR domain_h.vanishingPolynomial).2 =
      .ok g_1) :
    degree g_1 ≤ domain_h.size - 2 ∧
      degree ((oracles.maskPoly + rhs).divideWithQAndR domain_h.vanishingPolynomial).1 ≤
        2 * domain_h.size + 2 * zk_bound - 1 := by
  have hrhs := length_secondRoundRhs_le hlengths ht h
  have hq_1 : (oracles.maskPoly + rhs).coeffs.length ≤ 3 * domain_h.size + 2 * zk_bound :=
    DensePolynomial.length_add_le hlengths.mask (by omega)
  have hquotient := domain_h.length_quotient_le (oracles.maskPoly + rhs)
  have hremainder := domain_h.length_remainder_le (oracles.maskPoly + rhs)
  have hlen := length_divideByX_le hg_1
  have hsize := domain_h.size_pos
  rw [degree, degree]
  omega

theorem proverSecondRound_eq_ok_iff {second : ProverSecondOracles F} {state' : ProverState F}
    (hlengths : FirstRoundLengths state.domainH state.zkBound oracles) (hzk : 0 < state.zkBound)
    (ht : calculateT [state.index.a, state.index.b, state.index.c]
      [first.etaA, first.etaB, first.etaC] state.domainH
      (batchEvalUnnormalizedBivariateLagrangePolyWithDiffInputs state.domainH first.alpha) = .ok t) :
    proverSecondRound params first (afterFirstRound state oracles) = .ok (second, state') ↔
      ∃ rhs, secondRoundRhs params state.domainH first oracles t = .ok rhs ∧ second.t = t ∧
        second.h1 = ((oracles.maskPoly + rhs).divideWithQAndR state.domainH.vanishingPolynomial).1 ∧
        divideByX ((oracles.maskPoly + rhs).divideWithQAndR state.domainH.vanishingPolynomial).2 =
          .ok second.g1 ∧
        state' = { afterFirstRound state oracles with verifierFirstMsg := some first } := by
  have ht_len := length_calculateT_le ht
  constructor
  · intro h
    obtain ⟨mask_poly, hmask, h⟩ := bind_eq_ok_iff.mp h
    obtain rfl : oracles.maskPoly = mask_poly := Option.some.inj (need_eq_ok_iff.mp hmask)
    obtain ⟨mz_polys, hmz, h⟩ := bind_eq_ok_iff.mp h
    obtain rfl : (oracles.zA, oracles.zB) = mz_polys := Option.some.inj (need_eq_ok_iff.mp hmz)
    obtain ⟨t', ht', h⟩ := bind_eq_ok_iff.mp h
    cases ht.symm.trans ht'
    obtain ⟨z_poly, hz, h⟩ := bind_eq_ok_iff.mp h
    obtain rfl : oracles.z = z_poly := Option.some.inj (need_eq_ok_iff.mp hz)
    obtain ⟨rhs, hrhs, h⟩ := bind_eq_ok_iff.mp h
    have hdegrees : ∀ g_1, divideByX _ = .ok g_1 → _ :=
      fun g_1 => secondRound_degrees hlengths hzk ht_len hrhs
    refine ⟨rhs, hrhs, ?_⟩
    dsimp only [afterFirstRound] at h
    generalize (oracles.maskPoly + rhs).divideWithQAndR state.domainH.vanishingPolynomial = qr at h hdegrees ⊢
    obtain ⟨g_1, hg_1, h⟩ := bind_eq_ok_iff.mp h
    obtain ⟨hdegree_g, hdegree_h⟩ := hdegrees g_1 hg_1
    simp only [hdegree_g, hdegree_h, not_true_eq_false, if_false] at h
    cases h
    exact ⟨rfl, rfl, hg_1, rfl⟩
  · obtain ⟨t', g_1, h_1⟩ := second
    rintro ⟨rhs, hrhs, rfl, hh_1, hg_1, rfl⟩
    have hdegrees := secondRound_degrees hlengths hzk ht_len hrhs hg_1
    refine bind_eq_of_ok (need_eq_ok_iff.mpr rfl) (bind_eq_of_ok (need_eq_ok_iff.mpr rfl)
      (bind_eq_of_ok ht (bind_eq_of_ok (need_eq_ok_iff.mpr rfl) (bind_eq_of_ok hrhs ?_))))
    dsimp only [afterFirstRound] at hh_1 hg_1 ⊢
    generalize (oracles.maskPoly + rhs).divideWithQAndR state.domainH.vanishingPolynomial = qr
      at hh_1 hg_1 hdegrees ⊢
    obtain rfl : h_1 = qr.1 := hh_1
    obtain ⟨hdegree_g, hdegree_h⟩ := hdegrees
    refine bind_eq_of_ok hg_1 ?_
    simp only [hdegree_g, hdegree_h, not_true_eq_false, if_false]
    rfl

theorem secondRound_identity (hspec : FirstRoundSpec domain_h zk_bound z a b oracles)
    (halpha : first.alpha ∉ domain_h.elements)
    (hsum : domain_h.sumOver (fun x => (outerPolynomial domain_h first oracles t).eval x) = 0)
    {rhs g_1 : DensePolynomial F} (hrhs : secondRoundRhs params domain_h first oracles t = .ok rhs)
    (hg_1 : divideByX ((oracles.maskPoly + rhs).divideWithQAndR domain_h.vanishingPolynomial).2 =
      .ok g_1) :
    outerPolynomial domain_h first oracles t =
      ((oracles.maskPoly + rhs).divideWithQAndR domain_h.vanishingPolynomial).1.toPoly *
        domain_h.vanishingPolynomial.toPoly + X * g_1.toPoly := by
  have hpoly := secondRoundRhs_eq_ok hspec halpha hrhs
  have hremainder := domain_h.sumOver_eq_remainder (oracles.maskPoly + rhs)
  simp only [← hpoly, DensePolynomial.eval_toPoly] at hsum
  rw [hsum, eq_comm, mul_eq_zero, or_iff_right domain_h.size_ne_zero] at hremainder
  have hx := toPoly_divideByX hg_1
  rw [hremainder, C_0, zero_add] at hx
  rw [← hpoly, ← hx]
  exact (DensePolynomial.divideWithQAndR_spec domain_h.trimmed_vanishingPolynomial
    domain_h.vanishingPolynomial_length_pos (oracles.maskPoly + rhs)).1.symm

/-- The remainder has a coefficient unless the division is exact. -/
theorem remainder_ne_nil_iff (p : DensePolynomial F) :
    (p.divideWithQAndR domain_h.vanishingPolynomial).2.coeffs ≠ [] ↔
      ¬ domain_h.vanishingPolynomial.toPoly ∣ p.toPoly := by
  rw [← DensePolynomial.remainder_eq_zero_iff domain_h.trimmed_vanishingPolynomial
    domain_h.vanishingPolynomial_length_pos, ne_eq, DensePolynomial.mk.injEq]
  rfl

theorem evalUnnormalizedBivariateLagrangePoly_eq (x y : F) :
    evalUnnormalizedBivariateLagrangePoly domain_h x y = (domain_h.lagrangeKernel x).eval y := by
  rw [evalUnnormalizedBivariateLagrangePoly]
  by_cases hxy : x = y
  · rw [if_neg (not_not_intro hxy), ← hxy, domain_h.eval_lagrangeKernel_self]
  · rw [if_pos hxy, ← domain_h.eval_lagrangeKernel_mul, mul_div_cancel_right₀ _ (sub_ne_zero.mpr hxy)]

theorem outerSumcheck_evaluates {second : ProverSecondOracles F}
    (hidentity : outerPolynomial domain_h first oracles second.t =
      second.h1.toPoly * domain_h.vanishingPolynomial.toPoly + X * second.g1.toPoly)
    (domain_k : EvaluationDomain F) (third : ProverThirdOracles F) (ver_second : VerifierSecondMsg F)
    (gamma : F) :
    ∃ lcs, constructLinearCombinations (getLcEval (proverOracles oracles second third)) domain_h
        domain_k first ver_second gamma = .ok lcs ∧
      ∃ lc ∈ lcs, lc.label = "outer_sumcheck" ∧
        getLcEval (proverOracles oracles second third) lc ver_second.beta = .ok 0 := by
  obtain ⟨lcs, hlcs, hmem, _⟩ :=
    exists_constructLinearCombinations oracles second third first ver_second domain_h domain_k gamma
  refine ⟨lcs, hlcs, _, hmem, rfl, ?_⟩
  have hvalue := congrArg (Polynomial.eval ver_second.beta) hidentity
  simp only [outerPolynomial, eval_add, eval_sub, eval_mul, eval_C, eval_X,
    DensePolynomial.eval_toPoly, domain_h.evaluate_vanishingPolynomial] at hvalue
  rw [getLcEval_outerSumcheck, evalUnnormalizedBivariateLagrangePoly_eq]
  congr 1
  linear_combination hvalue

end SecondRound

/-! ### Both rounds for a solution -/

section Complete

variable {params : EvaluationDomain.FftParameters F} {idx : Index F} {state : ProverState F}

theorem index_fields {info : R1CSfIndex} {a b c : Matrix F} (h : index params info a b c = .ok idx) :
    idx.indexInfo = info ∧ idx.a = a ∧ idx.b = b ∧ idx.c = c := by
  obtain ⟨_, _, h⟩ := bind_eq_ok_iff.mp h
  obtain ⟨_, _, h⟩ := bind_eq_ok_iff.mp h
  obtain ⟨_, _, h⟩ := bind_eq_ok_iff.mp h
  obtain ⟨_, _, h⟩ := bind_eq_ok_iff.mp h
  cases h
  exact ⟨rfl, rfl, rfl, rfl⟩

omit [DecidableEq F] in
theorem proverInit_eq_ok {z : List F} (h : proverInit params idx z = .ok state) :
    state.index = idx ∧ state.assignment = z ∧ state.zkBound = 1 ∧
      idx.a.mapM (innerProd z) = .ok state.zA ∧ idx.b.mapM (innerProd z) = .ok state.zB ∧
      idx.indexInfo.numberOfConstraints ≤ state.domainH.size := by
  obtain ⟨z_a, ha, h⟩ := bind_eq_ok_iff.mp h
  obtain ⟨z_b, hb, h⟩ := bind_eq_ok_iff.mp h
  obtain ⟨⟨domain_k, domain_h⟩, hdomains, h⟩ := bind_eq_ok_iff.mp h
  obtain ⟨_, _, h⟩ := bind_eq_ok_iff.mp h
  obtain ⟨_, _, h⟩ := bind_eq_ok_iff.mp h
  obtain ⟨_, _, h⟩ := bind_eq_ok_iff.mp h
  cases h
  refine ⟨rfl, rfl, rfl, ha, hb, ?_⟩
  rw [params.radix2Domain_size (radix2Domain_of_indexDomains hdomains).2.1]
  exact Nat.le_pow_clog (by decide) _

/-- The first round returns, and the second one does unless there is no domain for the products or
the vanishing polynomial divides the sum check. What it returns satisfies the sum check, and its
combination evaluates to zero outside of `H`. -/
def OuterSumcheckComplete (params : EvaluationDomain.FftParameters F) (state : ProverState F)
    (rng : Nat → F) (first : VerifierFirstMsg F) : Prop :=
  ∃ oracles state₁ t, proverFirstRound state rng = .ok (oracles, state₁) ∧
    calculateT [state.index.a, state.index.b, state.index.c] [first.etaA, first.etaB, first.etaC]
      state.domainH (batchEvalUnnormalizedBivariateLagrangePolyWithDiffInputs state.domainH
        first.alpha) = .ok t ∧
    ((∃ out, proverSecondRound params first state₁ = .ok out) ↔
      (params.radix2Domain (3 * state.domainH.size + 2)).isSome ∧
        ¬ state.domainH.vanishingPolynomial.toPoly ∣ outerPolynomial state.domainH first oracles t) ∧
    ∀ second state₂, proverSecondRound params first state₁ = .ok (second, state₂) →
      second.t = t ∧
      outerPolynomial state.domainH first oracles t =
        second.h1.toPoly * state.domainH.vanishingPolynomial.toPoly + X * second.g1.toPoly ∧
      second.g1.toPoly.natDegree ≤ state.domainH.size - 2 ∧
      ∀ (third : ProverThirdOracles F) (ver_second : VerifierSecondMsg F) (gamma : F),
        ver_second.beta ∉ state.domainH.elements →
        ∃ lcs, constructLinearCombinations (getLcEval (proverOracles oracles second third))
            state.domainH state.domainK first ver_second gamma = .ok lcs ∧
          ∃ lc ∈ lcs, lc.label = "outer_sumcheck" ∧
            getLcEval (proverOracles oracles second third) lc ver_second.beta = .ok 0

variable {circuit : Circuit} {z : List F}

omit [DecidableEq F] in
theorem exists_proverInit (hz : Solves circuit z)
    (hlen : z.length = (ac2tft (F := F) circuit).1.numberOfConstraints)
    (houtputs : (ac2tft (F := F) circuit).1.numberOfOutputs ≤ z.length)
    (hinfo : idx.indexInfo = (ac2tft (F := F) circuit).1) (ha : idx.a = (ac2tft circuit).2.1)
    (hb : idx.b = (ac2tft circuit).2.2.1) {domain_k domain_h : EvaluationDomain F}
    (hdomains : indexDomains params idx.indexInfo = .ok (domain_k, domain_h)) :
    ∃ state, proverInit params idx z = .ok state := by
  have hrows := rows_of_solves hz hlen
  have hrow : ∀ m ∈ [idx.a, idx.b], ∀ row ∈ m, ∀ e ∈ row, e.1 = 1 ∧ e.2 < z.length := by
    rw [ha, hb]
    exact hrows.entries
  simp only [List.forall_mem_cons] at hrow
  have hinputs : idx.indexInfo.numberOfInputRows ≤ z.length := by
    rw [hinfo, hlen]
    exact Nat.succ_le_succ (Nat.le_add_left _ _)
  rw [hlen, ← hinfo] at houtputs
  have hstart : idx.indexInfo.numberOfConstraints - idx.indexInfo.numberOfOutputs ≤ z.length := by
    rw [hlen, hinfo]
    exact Nat.sub_le _ _
  exact ⟨_, bind_eq_of_ok (mapM_innerProd hrow.1) (bind_eq_of_ok (mapM_innerProd hrow.2.1)
    (bind_eq_of_ok hdomains (bind_eq_of_ok (if_pos hinputs) (bind_eq_of_ok (if_pos houtputs)
      (bind_eq_of_ok (if_pos hstart) rfl)))))⟩

/-- The sum check over `H` is complete for a solution of a compiled circuit and a masking without
zeros. -/
theorem outerSumcheckComplete (hz : Solves circuit z)
    (hlen : z.length = (ac2tft (F := F) circuit).1.numberOfConstraints)
    (hindex : index params (ac2tft (F := F) circuit).1 (ac2tft circuit).2.1 (ac2tft circuit).2.2.1
      (ac2tft circuit).2.2.2 = .ok idx)
    (hinit : proverInit params idx z = .ok state) {rng : Nat → F} (hrng : ∀ i, rng i ≠ 0)
    {first : VerifierFirstMsg F} (halpha : first.alpha ∉ state.domainH.elements) :
    OuterSumcheckComplete params state rng first := by
  obtain ⟨hinfo, ha, hb, hc⟩ := index_fields hindex
  obtain ⟨hstate, hassignment, hzk, hzA, hzB, hle⟩ := proverInit_eq_ok hinit
  have hrows := rows_of_solves hz hlen
  rw [hinfo, ← hlen] at hle
  have hrow := hrows.entries
  simp only [List.forall_mem_cons] at hrow
  rw [ha, mapM_innerProd hrow.1] at hzA
  rw [hb, mapM_innerProd hrow.2.1] at hzB
  obtain ⟨oracles, hround, hspec⟩ := exists_proverFirstRound (hzk ▸ Nat.one_pos) hassignment
    (Except.ok.inj hzA).symm (Except.ok.inj hzB).symm hrng
  obtain ⟨t, ht⟩ : ∃ t, calculateT [(ac2tft circuit).2.1, (ac2tft circuit).2.2.1,
      (ac2tft circuit).2.2.2] [first.etaA, first.etaB, first.etaC] state.domainH
      (batchEvalUnnormalizedBivariateLagrangePolyWithDiffInputs state.domainH first.alpha) = .ok t :=
    exists_calculateT (hrows.inRange hle) (length_diff_inputs first.alpha)
  have hsum := sumOver_outerPolynomial hrows hle hspec halpha ht
  have ht_len := length_calculateT_le ht
  rw [← ha, ← hb, ← hc, ← hstate] at ht
  have hsecond : ∀ second state₂,
      proverSecondRound params first (afterFirstRound state oracles) = .ok (second, state₂) ↔ _ :=
    fun second state₂ => proverSecondRound_eq_ok_iff hspec.lengths (hzk ▸ Nat.one_pos) ht
  refine ⟨oracles, afterFirstRound state oracles, t, hround, ht, ?_, ?_⟩
  · have hdomain : (∃ rhs, secondRoundRhs params state.domainH first oracles t = .ok rhs) ↔ _ :=
      exists_sumcheckRhs_iff
    rw [mulDomainSize_eq hspec (hzk ▸ Nat.one_pos) ht_len, hzk, Nat.mul_one] at hdomain
    rw [← hdomain]
    constructor
    · rintro ⟨⟨second, state₂⟩, hout⟩
      obtain ⟨rhs, hrhs, _, _, hg_1, _⟩ := (hsecond second state₂).mp hout
      refine ⟨⟨rhs, hrhs⟩, ?_⟩
      rw [← secondRoundRhs_eq_ok hspec halpha hrhs, ← remainder_ne_nil_iff]
      exact (divideByX_eq_ok_iff.mp hg_1).1
    · rintro ⟨⟨rhs, hrhs⟩, hdvd⟩
      rw [← secondRoundRhs_eq_ok hspec halpha hrhs, ← remainder_ne_nil_iff] at hdvd
      exact ⟨(⟨t, _, _⟩, _), (hsecond _ _).mpr
        ⟨rhs, hrhs, rfl, rfl, divideByX_eq_ok_iff.mpr ⟨hdvd, rfl⟩, rfl⟩⟩
  · intro second state₂ hout
    obtain ⟨rhs, hrhs, hsecond_t, hh_1, hg_1, _⟩ := (hsecond second state₂).mp hout
    have hidentity := secondRound_identity hspec halpha hsum hrhs hg_1
    rw [← hh_1] at hidentity
    refine ⟨hsecond_t, hidentity, ?_, ?_⟩
    · have hdegree := (secondRound_degrees hspec.lengths (hzk ▸ Nat.one_pos) ht_len hrhs hg_1).1
      exact (natDegree_le_degree second.g1).trans hdegree
    · intro third ver_second gamma _
      rw [← hsecond_t] at hidentity
      exact outerSumcheck_evaluates hidentity state.domainK third ver_second gamma

/-- The three additions, solved by the numbers from one to four. -/
theorem outerSumcheckComplete_threeAdditions : ∃ idx state,
    index params17 (ac2tft (F := ZMod 17) threeAdditions).1 (ac2tft threeAdditions).2.1
      (ac2tft threeAdditions).2.2.1 (ac2tft threeAdditions).2.2.2 = .ok idx ∧
    proverInit params17 idx [1, 2, 3, 4] = .ok state ∧
    OuterSumcheckComplete params17 state (fun _ => 1) ⟨0, 1, 2, 3⟩ := by
  obtain ⟨domain_k, domain_h, idx, hdomains, _, _, hidx⟩ := exists_threeAdditions_index
  obtain ⟨hinfo, ha, hb, _⟩ := index_fields hidx
  have hz : Solves threeAdditions ([1, 2, 3, 4] : List (ZMod 17)) := by
    intro i hi
    have hi : i < 4 := hi
    interval_cases i
    all_goals exact ⟨_, _, _, rfl, rfl, rfl, by decide⟩
  have hlen : ([1, 2, 3, 4] : List (ZMod 17)).length =
      (ac2tft (F := ZMod 17) threeAdditions).1.numberOfConstraints := rfl
  rw [← hinfo] at hdomains
  obtain ⟨state, hstate⟩ := exists_proverInit hz hlen (by decide) hinfo ha hb hdomains
  exact ⟨idx, state, hidx, hstate, outerSumcheckComplete hz hlen hidx hstate (fun _ => one_ne_zero)
    (zero_not_mem state.domainH)⟩

def oneAddition : Circuit := ⟨[⟨0, 0, .Add⟩], 0, 1⟩

def cancellingMask (i : Nat) : ZMod 17 := if i = 4 then (10 : Nat) else 1

/-- The remainder of the outer polynomial has no coefficient to split off. -/
theorem secondRound_aborts : Solves oneAddition ([1, 2] : List (ZMod 17)) ∧
    (∀ i, cancellingMask i ≠ 0) ∧ ∃ idx state oracles state₁,
      index params17 (ac2tft (F := ZMod 17) oneAddition).1 (ac2tft oneAddition).2.1
        (ac2tft oneAddition).2.2.1 (ac2tft oneAddition).2.2.2 = .ok idx ∧
      proverInit params17 idx [1, 2] = .ok state ∧ 0 ∉ state.domainH.elements ∧
      proverFirstRound state cancellingMask = .ok (oracles, state₁) ∧
      proverSecondRound params17 ⟨0, 0, 2, 3⟩ state₁ = .error .aborted := by
  have hz : Solves oneAddition ([1, 2] : List (ZMod 17)) := by
    intro i hi
    have hi : i < 2 := hi
    interval_cases i
    all_goals exact ⟨_, _, _, rfl, rfl, rfl, by decide⟩
  have hmask : ∀ i, cancellingMask i ≠ 0 := by
    intro i
    rw [cancellingMask]
    split
    · decide
    · decide
  refine ⟨hz, hmask, ?_⟩
  have hrun : ((index params17 (ac2tft (F := ZMod 17) oneAddition).1 (ac2tft oneAddition).2.1
      (ac2tft oneAddition).2.2.1 (ac2tft oneAddition).2.2.2 >>= fun idx =>
      proverInit params17 idx [1, 2] >>= fun state =>
      proverFirstRound state cancellingMask >>= fun first =>
        pure (state, first)).toOption.any fun out =>
      decide (0 ∉ out.1.domainH.elements ∧
        (proverSecondRound params17 ⟨0, 0, 2, 3⟩ out.2.2).map (fun _ => ()) =
          .error .aborted)) = true := by
    decide +kernel
  obtain ⟨⟨state, oracles, state₁⟩, hrun, hchecks⟩ := exists_of_any hrun
  obtain ⟨idx, hidx, hrun⟩ := bind_eq_ok_iff.mp hrun
  obtain ⟨state', hstate, hrun⟩ := bind_eq_ok_iff.mp hrun
  obtain ⟨first, hfirst, hrun⟩ := bind_eq_ok_iff.mp hrun
  cases hrun
  obtain ⟨halpha, hsecond⟩ := of_decide_eq_true hchecks
  exact ⟨idx, state, oracles, state₁, hidx, hstate, halpha, hfirst, map_eq_error_iff.mp hsecond⟩

end Complete

end Lootbox.IndexPrivateMarlin

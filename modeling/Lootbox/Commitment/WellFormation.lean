import Lootbox.Commitment.IndexPrivateMarlin

/-!
# `well_formation.rs`: inputs and outputs of the assignment

The verifier interpolates the public input over the first rows and the output over the last
rows, and a virtual oracle compares the assignment with both.
-/

namespace Lootbox.IndexPrivateMarlin

open AcCompiler ZeroOverK

variable {F : Type} [Field F] [DecidableEq F]

/-- `X - point` -/
def linear (point : F) : DensePolynomial F := .fromCoefficientsVec [-point, 1]

/-- The body of the inner loop of `construct_lagrange_basis`. -/
def basisStep (evaluation_domain : List F) (i : Nat) (x_i : F) (l_i : DensePolynomial F) (j : Nat) :
    Except Error (DensePolynomial F) :=
  if j ≠ i then do
    let x_j ← need .aborted evaluation_domain[j]?
    let denom := x_i - x_j
    -- `inverse().unwrap()`
    let inverse ← (if denom = 0 then .error .aborted else .ok denom⁻¹ : Except Error F)
    return l_i * (linear x_j).scale inverse
  else return l_i

def constructLagrangeBasis (evaluation_domain : List F) : Except Error (List (DensePolynomial F)) :=
  (List.range evaluation_domain.length).mapM fun i => do
    let x_i ← need .aborted evaluation_domain[i]?
    (List.range evaluation_domain.length).foldlM (basisStep evaluation_domain i x_i)
      (.fromCoefficientsVec [1])

def constructVanishing (evaluation_domain : List F) : DensePolynomial F :=
  evaluation_domain.foldl (fun v_h point => v_h * linear point) (.fromCoefficientsVec [1])

structure VerifierWellFormationOracles (F : Type) where
  x : DensePolynomial F
  y : DensePolynomial F
  vhGtX : DensePolynomial F
  vhLtY : DensePolynomial F

def VerifierWellFormationOracles.iter (self : VerifierWellFormationOracles F) :
    List (DensePolynomial F) := [self.x, self.vhGtX, self.y, self.vhLtY]

/-- `&elems[..n]` -/
def sliceTo (elems : List F) (n : Nat) : Except Error (List F) :=
  if n ≤ elems.length then .ok (elems.take n) else .error .aborted

/-- `&elems[n..]` -/
def sliceFrom (elems : List F) (n : Nat) : Except Error (List F) :=
  if n ≤ elems.length then .ok (elems.drop n) else .error .aborted

/-- Subtraction of `usize`. -/
def usizeSub (a b : Nat) : Except Error Nat := if b ≤ a then .ok (a - b) else .error .aborted

def combineBases (bases : List (DensePolynomial F)) (values : List F) : DensePolynomial F :=
  (bases.zip values).foldl (fun poly lv => poly + lv.1.scale lv.2) 0

def verifierWellFormationOracles (info : R1CSfIndex) (public_input output : List F)
    (domain_h : EvaluationDomain F) : Except Error (VerifierWellFormationOracles F) := do
  let elems := domain_h.elements
  let pi_roots_of_unity ← sliceTo elems info.numberOfInputRows
  let output_start ← usizeSub info.numberOfConstraints info.numberOfOutputs
  let output_roots_of_unity ← sliceFrom elems output_start
  let pi_bases ← constructLagrangeBasis pi_roots_of_unity
  let output_bases ← constructLagrangeBasis output_roots_of_unity
  let gt_x ← sliceFrom elems info.numberOfInputRows
  let lt_y_end ← usizeSub elems.length info.numberOfOutputs
  let lt_y ← sliceTo elems lt_y_end
  return {
    x := combineBases pi_bases public_input
    y := combineBases output_bases output
    vhGtX := constructVanishing gt_x
    vhLtY := constructVanishing lt_y }

/-- `well_formation_vo!` -/
def wellFormationCombine (separation_challenge : F) : CombineFunction F :=
  .add (.mul (.sub (.term 1) (.term 2)) (.term 3))
    (.mul (.mul (.constant separation_challenge) (.sub (.term 4) (.term 5))) (.term 6))

/-- The virtual oracle that `Marlin::prove` and `Marlin::verify` build. -/
def wellFormationVO (separation_challenge : F) : Except ZeroOverK.Error (GenericShiftingVO F) :=
  GenericShiftingVO.new [0, 1, 2, 0, 3, 4] (List.replicate 6 1)
    (wellFormationCombine separation_challenge)

def wellFormationOracles (z : DensePolynomial F) (oracles : VerifierWellFormationOracles F) :
    List (DensePolynomial F) := z :: oracles.iter

/-! ### Lagrange bases -/

section Bases

theorem evaluate_linear (point x : F) : (linear point).evaluate x = x - point := by
  rw [linear, ← DensePolynomial.eval_toPoly, DensePolynomial.toPoly_fromCoefficientsVec]
  simp
  ring

theorem evaluate_one (x : F) : (DensePolynomial.fromCoefficientsVec [(1 : F)]).evaluate x = 1 :=
  DensePolynomial.evaluate_constant 1 x

/-- What step `j` multiplies the value of the `i`-th basis at `x` with. -/
def basisFactor (points : List F) (i : Nat) (x : F) (j : Nat) : F :=
  if j = i then 1 else (x - points.getD j 0) * (points.getD i 0 - points.getD j 0)⁻¹

variable {points : List F}

theorem basisStep_eq_ok (hnodup : points.Nodup) {i j : Nat} (hi : i < points.length)
    (hj : j < points.length) (l : DensePolynomial F) :
    ∃ l', basisStep points i (points.getD i 0) l j = .ok l' ∧
      ∀ x, l'.evaluate x = l.evaluate x * basisFactor points i x j := by
  by_cases hji : j = i
  · refine ⟨l, if_neg (not_not_intro hji), fun x => ?_⟩
    rw [basisFactor, if_pos hji, mul_one]
  · have hne : points.getD i 0 - points.getD j 0 ≠ 0 := by
      rw [sub_ne_zero, List.getD_eq_getElem _ _ hi, List.getD_eq_getElem _ _ hj]
      exact fun heq => hji ((hnodup.getElem_inj_iff).mp heq.symm)
    refine ⟨l * (linear (points.getD j 0)).scale (points.getD i 0 - points.getD j 0)⁻¹, ?_, ?_⟩
    · rw [basisStep, if_pos hji, List.getElem?_eq_getElem hj, need_some, ok_bind,
        ← List.getD_eq_getElem _ 0 hj]
      dsimp only
      rw [if_neg hne, ok_bind]
      rfl
    · intro x
      rw [DensePolynomial.evaluate_mul, DensePolynomial.evaluate_scale, evaluate_linear, basisFactor,
        if_neg hji, mul_comm (x - _)]

theorem basisLoop_eq_ok (hnodup : points.Nodup) {i : Nat} (hi : i < points.length)
    (js : List Nat) : ∀ l : DensePolynomial F, (∀ j ∈ js, j < points.length) →
      ∃ l', js.foldlM (basisStep points i (points.getD i 0)) l = .ok l' ∧
        ∀ x, l'.evaluate x = l.evaluate x * (js.map (basisFactor points i x)).prod := by
  induction js with
  | nil => exact fun l _ => ⟨l, rfl, fun x => (mul_one _).symm⟩
  | cons j js ih =>
    intro l hjs
    rw [List.forall_mem_cons] at hjs
    obtain ⟨m, hm, hmx⟩ := basisStep_eq_ok hnodup hi hjs.1 l
    obtain ⟨l', hl', hlx⟩ := ih m hjs.2
    refine ⟨l', bind_eq_of_ok hm hl', fun x => ?_⟩
    rw [hlx, hmx, List.map_cons, List.prod_cons, mul_assoc]

omit [DecidableEq F] in
theorem prod_basisFactor (hnodup : points.Nodup) {i k : Nat} (hi : i < points.length)
    (hk : k < points.length) :
    ((List.range points.length).map (basisFactor points i (points.getD k 0))).prod =
      if i = k then 1 else 0 := by
  by_cases hik : i = k
  · subst hik
    rw [if_pos rfl]
    apply List.prod_eq_one
    intro y hy
    obtain ⟨j, hj, rfl⟩ := List.mem_map.mp hy
    rw [List.mem_range] at hj
    unfold basisFactor
    by_cases hji : j = i
    · rw [if_pos hji]
    · rw [if_neg hji, mul_inv_cancel₀]
      rw [sub_ne_zero, List.getD_eq_getElem _ _ hi, List.getD_eq_getElem _ _ hj]
      exact fun heq => hji ((hnodup.getElem_inj_iff).mp heq.symm)
  · rw [if_neg hik, List.prod_eq_zero_iff, List.mem_map]
    refine ⟨k, List.mem_range.mpr hk, ?_⟩
    rw [basisFactor, if_neg (Ne.symm hik), sub_self, zero_mul]

theorem constructLagrangeBasis_eq_ok (hnodup : points.Nodup) :
    ∃ bases, constructLagrangeBasis points = .ok bases ∧
      ∀ k < points.length, bases.map (fun l => l.evaluate (points.getD k 0)) =
        (List.range points.length).map fun i => if i = k then 1 else 0 := by
  have hbasis : ∀ i ∈ List.range points.length, ∃ l : DensePolynomial F,
      (do
        let x_i ← need Error.aborted points[i]?
        (List.range points.length).foldlM (basisStep points i x_i) (.fromCoefficientsVec [1])) =
          .ok l ∧ ∀ k < points.length, l.evaluate (points.getD k 0) = if i = k then 1 else 0 := by
    intro i hi
    rw [List.mem_range] at hi
    obtain ⟨l, hl, hlx⟩ := basisLoop_eq_ok hnodup hi (List.range points.length)
      (.fromCoefficientsVec [1]) fun j hj => List.mem_range.mp hj
    refine ⟨l, ?_, fun k hk => ?_⟩
    · rw [List.getElem?_eq_getElem hi, need_some, ok_bind, ← List.getD_eq_getElem _ 0 hi]
      exact hl
    · rw [hlx, evaluate_one, one_mul, prod_basisFactor hnodup hi hk]
  obtain ⟨bases, hbases⟩ := exists_forall₂ hbasis
  refine ⟨bases, mapM_eq_ok_iff.mpr (hbases.imp fun _ _ h => h.1), fun k hk => ?_⟩
  have hvalues : List.Forall₂ (· = ·) (bases.map fun l => l.evaluate (points.getD k 0))
      ((List.range points.length).map fun i => if i = k then (1 : F) else 0) := by
    rw [List.forall₂_map_left_iff, List.forall₂_map_right_iff]
    exact hbases.flip.imp fun _ _ h => h.2 k hk
  exact List.forall₂_eq_eq_eq ▸ hvalues

theorem evaluate_foldl_scale (x : F) (pairs : List (DensePolynomial F × F)) :
    ∀ poly : DensePolynomial F,
      (pairs.foldl (fun poly lv => poly + lv.1.scale lv.2) poly).evaluate x =
        poly.evaluate x + (pairs.map fun lv => lv.2 * lv.1.evaluate x).sum := by
  induction pairs with
  | nil => simp
  | cons lv pairs ih =>
    intro poly
    rw [List.foldl_cons, ih, DensePolynomial.evaluate_add, DensePolynomial.evaluate_scale,
      List.map_cons, List.sum_cons, add_assoc]

theorem evaluate_combineBases {bases : List (DensePolynomial F)} {values : List F} {k : Nat}
    (hk : k < values.length) {x : F}
    (h : bases.map (fun l => l.evaluate x) =
      (List.range values.length).map fun i => if i = k then 1 else 0) :
    (combineBases bases values).evaluate x = values.getD k 0 := by
  have hlength : bases.length = values.length := by
    simpa using congrArg List.length h
  have hzip : (bases.zip values).map (fun lv => lv.2 * lv.1.evaluate x) =
      (List.range values.length).map fun i => values.getD i 0 * if i = k then 1 else 0 := by
    apply List.ext_getElem
    · simp [hlength]
    · intro i hi _
      have hi' : i < values.length := by
        simpa [hlength] using hi
      have hbase : bases[i].evaluate x = if i = k then 1 else 0 := by
        have hget := congrArg (fun xs => xs.getD i 0) h
        simpa [hlength, hi'] using hget
      simp [hbase, List.getElem?_eq_getElem hi']
  have hsum : ((List.range values.length).map fun i => values.getD i 0 * if i = k then 1 else 0).sum =
      ∑ i ∈ Finset.range values.length, values.getD i 0 * if i = k then 1 else 0 := rfl
  rw [combineBases, evaluate_foldl_scale, DensePolynomial.evaluate_zero, zero_add, hzip, hsum]
  simp [hk]

theorem evaluate_foldl_linear (x : F) (points : List F) : ∀ v_h : DensePolynomial F,
    (points.foldl (fun v_h point => v_h * linear point) v_h).evaluate x =
      v_h.evaluate x * (points.map fun point => x - point).prod := by
  induction points with
  | nil => simp
  | cons point points ih =>
    intro v_h
    rw [List.foldl_cons, ih, DensePolynomial.evaluate_mul, evaluate_linear, List.map_cons,
      List.prod_cons, mul_assoc]

theorem evaluate_constructVanishing {x : F} :
    (constructVanishing points).evaluate x = 0 ↔ x ∈ points := by
  rw [constructVanishing, evaluate_foldl_linear, evaluate_one, one_mul, List.prod_eq_zero_iff,
    List.mem_map]
  constructor
  · rintro ⟨point, hmem, hzero⟩
    rw [sub_eq_zero.mp hzero]
    exact hmem
  · exact fun hmem => ⟨x, hmem, sub_self x⟩

end Bases

/-! ### The virtual oracle -/

section Oracle

variable (domain_h : EvaluationDomain F)

omit [DecidableEq F] in
theorem elements_nodup : domain_h.elements.Nodup := by
  refine List.Nodup.map_on ?_ List.nodup_range
  intro i hi j hj heq
  exact domain_h.element_injective (List.mem_range.mp hi) (List.mem_range.mp hj) heq

omit [DecidableEq F] in
theorem length_elements : domain_h.elements.length = domain_h.size := by
  rw [EvaluationDomain.elements, List.length_map, List.length_range]

omit [DecidableEq F] in
theorem getElem_elements {i : Nat} (hi : i < domain_h.elements.length) :
    domain_h.elements[i] = domain_h.element i := by
  simp [EvaluationDomain.elements]

omit [DecidableEq F] in
theorem element_mem_take {i n : Nat} (hi : i < domain_h.size) :
    domain_h.element i ∈ domain_h.elements.take n ↔ i < n := by
  rw [EvaluationDomain.elements, ← List.map_take, List.take_range, List.mem_map]
  constructor
  · rintro ⟨j, hj, heq⟩
    rw [List.mem_range] at hj
    rw [← domain_h.element_injective (by omega) hi heq]
    omega
  · exact fun hin => ⟨i, List.mem_range.mpr (by omega), rfl⟩

omit [DecidableEq F] in
theorem element_mem_drop {i n : Nat} (hi : i < domain_h.size) :
    domain_h.element i ∈ domain_h.elements.drop n ↔ n ≤ i := by
  rw [EvaluationDomain.elements, ← List.map_drop, List.range_eq_range', List.drop_range',
    List.mem_map]
  constructor
  · rintro ⟨j, hj, heq⟩
    rw [List.mem_range'_1] at hj
    rw [← domain_h.element_injective (by omega) hi heq]
    omega
  · exact fun hin => ⟨i, List.mem_range'_1.mpr (by omega), rfl⟩

theorem exists_combineBases {points : List F} (values : List F) (hnodup : points.Nodup)
    (hlength : values.length = points.length) :
    ∃ bases, constructLagrangeBasis points = .ok bases ∧
      ∀ k < points.length, (combineBases bases values).evaluate (points.getD k 0) =
        values.getD k 0 := by
  obtain ⟨bases, hbases, hat⟩ := constructLagrangeBasis_eq_ok hnodup
  refine ⟨bases, hbases, fun k hk => evaluate_combineBases (by omega) ?_⟩
  rw [hlength]
  exact hat k hk

variable {domain_h} {info : R1CSfIndex} {public_input output : List F}

/-- The oracles exist; the selectors vanish outside their rows, and on them the interpolated
polynomials take the given values. -/
theorem verifierWellFormationOracles_spec
    (hrows : info.numberOfInputRows + info.numberOfOutputs ≤ domain_h.size)
    (hsize : domain_h.size = info.numberOfConstraints)
    (hinput : public_input.length = info.numberOfInputRows)
    (houtput : output.length = info.numberOfOutputs) :
    ∃ oracles, verifierWellFormationOracles info public_input output domain_h = .ok oracles ∧
      ∀ k < domain_h.size,
        (oracles.vhGtX.evaluate (domain_h.element k) = 0 ↔ info.numberOfInputRows ≤ k) ∧
        (oracles.vhLtY.evaluate (domain_h.element k) = 0 ↔
          k < domain_h.size - info.numberOfOutputs) ∧
        (k < info.numberOfInputRows →
          oracles.x.evaluate (domain_h.element k) = public_input.getD k 0) ∧
        (domain_h.size - info.numberOfOutputs ≤ k →
          oracles.y.evaluate (domain_h.element k) =
            output.getD (k - (domain_h.size - info.numberOfOutputs)) 0) := by
  have hlen := length_elements domain_h
  have hnodup := elements_nodup domain_h
  have hfirst : info.numberOfInputRows ≤ domain_h.elements.length := by omega
  have hlast : domain_h.size - info.numberOfOutputs ≤ domain_h.elements.length := by omega
  have houts : info.numberOfOutputs ≤ domain_h.size := by omega
  obtain ⟨pi_bases, hpi, hx⟩ := exists_combineBases public_input
    (hnodup.sublist (List.take_sublist info.numberOfInputRows _)) (by simp; omega)
  obtain ⟨output_bases, hout, hy⟩ := exists_combineBases output
    (hnodup.sublist (List.drop_sublist (domain_h.size - info.numberOfOutputs) _)) (by simp; omega)
  refine ⟨⟨combineBases pi_bases public_input, combineBases output_bases output,
    constructVanishing (domain_h.elements.drop info.numberOfInputRows),
    constructVanishing (domain_h.elements.take (domain_h.size - info.numberOfOutputs))⟩, ?_, ?_⟩
  · unfold verifierWellFormationOracles
    refine bind_eq_of_ok (if_pos hfirst) ?_
    rw [← hsize, hlen]
    refine bind_eq_of_ok (if_pos houts) ?_
    refine bind_eq_of_ok (if_pos hlast) ?_
    refine bind_eq_of_ok hpi ?_
    refine bind_eq_of_ok hout ?_
    refine bind_eq_of_ok (if_pos hfirst) ?_
    refine bind_eq_of_ok (if_pos houts) ?_
    exact bind_eq_of_ok (if_pos hlast) rfl
  · intro k hk
    refine ⟨?_, ?_, ?_, ?_⟩
    · rw [evaluate_constructVanishing, element_mem_drop domain_h hk]
    · rw [evaluate_constructVanishing, element_mem_take domain_h hk]
    · intro hin
      have hat := hx k (by simp; omega)
      rw [List.getD_eq_getElem _ _ (by simp; omega), List.getElem_take, getElem_elements] at hat
      exact hat
    · intro hin
      have hat := hy (k - (domain_h.size - info.numberOfOutputs)) (by simp; omega)
      rw [List.getD_eq_getElem _ _ (by simp; omega), List.getElem_drop, getElem_elements,
        Nat.add_sub_of_le hin] at hat
      exact hat

omit [DecidableEq F] in
theorem wellFormationVO_eq_ok (sep : F) : wellFormationVO sep =
    .ok ⟨[0, 1, 2, 0, 3, 4], List.replicate 6 1, wellFormationCombine sep, 4, rfl, rfl⟩ := rfl

theorem wellFormationVO_value {sep : F} {vo : GenericShiftingVO F} (hvo : wellFormationVO sep = .ok vo)
    (z : DensePolynomial F) (oracles : VerifierWellFormationOracles F) (x : F) :
    vo.evaluateFromConcreteEvals (wellFormationOracles z oracles) x =
      .ok ((z.evaluate x - oracles.x.evaluate x) * oracles.vhGtX.evaluate x +
        sep * (z.evaluate x - oracles.y.evaluate x) * oracles.vhLtY.evaluate x) := by
  rw [wellFormationVO_eq_ok] at hvo
  cases hvo
  have hindex : ∀ index ∈ [0, 1, 2, 0, 3, 4], index < 5 := by decide
  rw [GenericShiftingVO.evaluateFromConcreteEvals_eq hindex rfl]
  simp only [wellFormationCombine, CombineFunction.value, wellFormationOracles,
    VerifierWellFormationOracles.iter, List.replicate, List.zip_cons_cons, List.zip_nil_right,
    List.map_cons, List.map_nil, List.getD_cons_succ, List.getD_cons_zero, one_mul]

/-- The virtual oracle is zero on `H` exactly for the assignments that start with the public
input and end with the output. -/
theorem wellFormation_vanishes_iff (domain_h : EvaluationDomain F) (info : R1CSfIndex)
    (public_input output : List F) (z : DensePolynomial F) (separation_challenge : F)
    (hrows : info.numberOfInputRows + info.numberOfOutputs ≤ domain_h.size)
    (hsize : domain_h.size = info.numberOfConstraints)
    (hinput : public_input.length = info.numberOfInputRows)
    (houtput : output.length = info.numberOfOutputs) (hseparation : separation_challenge ≠ 0) :
    ∃ oracles vo, verifierWellFormationOracles info public_input output domain_h = .ok oracles ∧
      wellFormationVO separation_challenge = .ok vo ∧
      (vo.VanishesOn (wellFormationOracles z oracles) domain_h ↔
        (domain_h.elements.take info.numberOfInputRows).map z.evaluate = public_input ∧
        (domain_h.elements.drop (domain_h.size - info.numberOfOutputs)).map z.evaluate =
          output) := by
  obtain ⟨oracles, horacles, hspec⟩ := verifierWellFormationOracles_spec hrows hsize hinput houtput
  refine ⟨oracles, _, horacles, wellFormationVO_eq_ok separation_challenge, ?_⟩
  have hlen := length_elements domain_h
  have hvalue := wellFormationVO_value (wellFormationVO_eq_ok separation_challenge) z oracles
  constructor
  · intro hvanishes
    have hzero : ∀ k < domain_h.size,
        (z.evaluate (domain_h.element k) - oracles.x.evaluate (domain_h.element k)) *
            oracles.vhGtX.evaluate (domain_h.element k) +
          separation_challenge *
            (z.evaluate (domain_h.element k) - oracles.y.evaluate (domain_h.element k)) *
            oracles.vhLtY.evaluate (domain_h.element k) = 0 := by
      intro k _
      have := hvanishes _ (domain_h.element_mem k)
      rw [hvalue, Except.ok.injEq] at this
      exact this
    constructor
    · apply List.ext_getElem
      · simp
        omega
      · intro k hk hk'
        have hlt : k < domain_h.size := by omega
        obtain ⟨hgt, hlt_y, hx, _⟩ := hspec k hlt
        have hat := hzero k hlt
        rw [hlt_y.mpr (by omega), mul_zero, add_zero, mul_eq_zero,
          or_iff_left (mt hgt.mp (by omega)), sub_eq_zero, hx (by omega),
          List.getD_eq_getElem _ _ hk'] at hat
        rw [List.getElem_map, List.getElem_take, getElem_elements]
        exact hat
    · apply List.ext_getElem
      · simp
        omega
      · intro j hj hj'
        have hlt : domain_h.size - info.numberOfOutputs + j < domain_h.size := by omega
        obtain ⟨hgt, hlt_y, _, hy⟩ := hspec _ hlt
        have hat := hzero _ hlt
        rw [hgt.mpr (by omega), mul_zero, zero_add, mul_eq_zero,
          or_iff_left (mt hlt_y.mp (by omega)), mul_eq_zero, or_iff_right hseparation, sub_eq_zero,
          hy (by omega), Nat.add_sub_cancel_left, List.getD_eq_getElem _ _ hj'] at hat
        rw [List.getElem_map, List.getElem_drop, getElem_elements]
        exact hat
  · rintro ⟨hfirst, hlast⟩ x hx
    obtain ⟨k, hk, rfl⟩ := List.mem_map.mp hx
    rw [List.mem_range] at hk
    obtain ⟨hgt, hlt_y, hx, hy⟩ := hspec k hk
    rw [hvalue, Except.ok.injEq]
    by_cases hinputs : k < info.numberOfInputRows
    · have hz : z.evaluate (domain_h.element k) = public_input.getD k 0 := by
        rw [← hfirst, List.getD_eq_getElem _ _ (by simp; omega), List.getElem_map, List.getElem_take,
          getElem_elements]
      rw [hlt_y.mpr (by omega), hx hinputs, hz, sub_self]
      ring
    · rw [hgt.mpr (by omega), mul_zero, zero_add]
      by_cases houtputs : domain_h.size - info.numberOfOutputs ≤ k
      · have hz : z.evaluate (domain_h.element k) =
            output.getD (k - (domain_h.size - info.numberOfOutputs)) 0 := by
          rw [← hlast, List.getD_eq_getElem _ _ (by simp; omega), List.getElem_map,
            List.getElem_drop, getElem_elements, Nat.add_sub_of_le houtputs]
        rw [hy houtputs, hz, sub_self]
        ring
      · rw [hlt_y.mpr (by omega), mul_zero]

/-- The domain of `1` and `-1`. -/
def signs : EvaluationDomain ℚ := ⟨2, -1, Nat.two_pos, IsPrimitiveRoot.neg_one 0 (by decide)⟩

/-- One input row and one output row. -/
theorem wellFormation_signs : ∃ oracles vo,
    verifierWellFormationOracles ⟨2, 1, 1, 2⟩ [1] [3] signs = .ok oracles ∧
      wellFormationVO 1 = .ok vo ∧
      (vo.VanishesOn (wellFormationOracles ⟨[2, -1]⟩ oracles) signs ↔
        (signs.elements.take 1).map (DensePolynomial.evaluate ⟨[2, -1]⟩) = [1] ∧
        (signs.elements.drop (signs.size - 1)).map (DensePolynomial.evaluate ⟨[2, -1]⟩) = [3]) :=
  wellFormation_vanishes_iff signs ⟨2, 1, 1, 2⟩ [1] [3] ⟨[2, -1]⟩ 1 (by decide) rfl rfl rfl one_ne_zero

end Oracle

end Lootbox.IndexPrivateMarlin

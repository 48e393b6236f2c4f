import Lootbox.Commitment.FunctionRelation
import Lootbox.Commitment.LowerTriangularSoundness
import Lootbox.Commitment.ZeroOverKCompleteness

/-!
# Ideal commitments

A commitment is its polynomial and an opening is a value. The prover of `ZeroOverK` is the
real one, with the combinations of commitments that it looks up by label; its verifier accepts
when the virtual oracle vanishes.
-/

namespace Lootbox.ZeroOverK

variable {F : Type} [Field F] [DecidableEq F]

/-! ### Virtual oracles that a prover can use -/

/-- The virtual oracle fits `n` concrete oracles. -/
structure GenericShiftingVO.Fits (vo : GenericShiftingVO F) (n : Nat) : Prop where
  indices : ∀ index ∈ vo.mappingVector, index < n
  alphas : ∀ alpha ∈ vo.shiftingCoefficients, alpha ≠ 0
  terms : vo.combineFunction.termsBelow (vo.mappingVector.length + 1) = true
  reads : vo.combineFunction.hasTerm = true

section Fits

variable {vo : GenericShiftingVO F} {oracles : List (DensePolynomial F)}
  {domain : EvaluationDomain F} {rng : Nat → F × F}

omit [DecidableEq F] in
theorem GenericShiftingVO.Fits.alpha_ne_zero {n : Nat} (h : vo.Fits n) :
    ∀ i ∈ List.range vo.numOfVariableTerms, vo.alpha i ≠ 0 := by
  intro i hi
  apply h.alphas
  exact List.mem_of_getElem? (vo.shiftingCoefficients_getElem? (List.mem_range.mp hi))

theorem GenericShiftingVO.Fits.exists_prove (h : vo.Fits oracles.length) {bound : Option Nat}
    {supported : Nat} (hbound : checkSupportedDegree bound supported = .ok ())
    (msg : VerifierFirstMsg F) :
    ∃ proof, prove oracles bound vo domain supported rng msg = .ok proof := by
  have hterms : vo.combineFunction.termsBelow (xPoly :: (List.range vo.numOfVariableTerms).map
      fun i => shiftDensePoly (hPrimeAt vo oracles domain rng i) (vo.alpha i)).length = true := by
    rw [List.length_cons, List.length_map, List.length_range]
    exact h.terms
  obtain ⟨f_prime, ht⟩ := CombineFunction.exists_apply_polynomials hterms h.reads
  exact ⟨_, (prove_eq_ok_iff vo oracles domain rng msg bound supported).mpr
    ⟨hbound, h.alpha_ne_zero, h.indices, f_prime, ht, rfl⟩⟩

theorem GenericShiftingVO.Fits.computeMaskings {n : Nat} (h : vo.Fits n) :
    computeMaskings vo domain rng = .ok ((List.range vo.numOfVariableTerms).map fun i =>
      (⟨rLabel i, randomPolynomial (rng i)⟩, ⟨mLabel i, maskingAt vo domain rng i⟩)) :=
  (computeMaskings_eq_ok_iff vo domain rng).mpr ⟨h.alpha_ne_zero, rfl⟩

theorem GenericShiftingVO.Fits.vanishesOn_iff (h : vo.Fits oracles.length) :
    vo.VanishesOn oracles domain ↔ ∀ x ∈ domain.elements, (vo.combineFunction.value fun i =>
      (x :: (List.zip vo.mappingVector vo.shiftingCoefficients).map fun (index, alpha) =>
        (oracles.getD index 0).evaluate (alpha * x)).getD i 0) = 0 := by
  apply forall_congr'
  intro x
  apply imp_congr_right
  intro _
  rw [evaluateFromConcreteEvals_eq h.indices h.terms, Except.ok.injEq]

end Fits

/-! The presets -/

def pairVO (combine : CombineFunction F) : GenericShiftingVO F :=
  ⟨[0, 1], [1, 1], combine, 1, rfl, rfl⟩

def tripleVO (combine : CombineFunction F) : GenericShiftingVO F :=
  ⟨[0, 1, 2], [1, 1, 1], combine, 2, rfl, rfl⟩

def shiftVO (alpha : F) (combine : CombineFunction F) : GenericShiftingVO F :=
  ⟨[0, 0], [1, alpha], combine, 0, rfl, rfl⟩

section Presets

variable {domain : EvaluationDomain F} {combine : CombineFunction F} {f g h : DensePolynomial F}

omit [DecidableEq F] in
theorem pairVO_fits (hterms : combine.termsBelow 3 = true) (hreads : combine.hasTerm = true) :
    (pairVO combine).Fits 2 := by
  constructor
  · simp [pairVO]
  · simp [pairVO]
  · exact hterms
  · exact hreads

omit [DecidableEq F] in
theorem tripleVO_fits (hterms : combine.termsBelow 4 = true) (hreads : combine.hasTerm = true) :
    (tripleVO combine).Fits 3 := by
  constructor
  · simp [tripleVO]
  · simp [tripleVO]
  · exact hterms
  · exact hreads

omit [DecidableEq F] in
theorem shiftVO_fits {alpha : F} (halpha : alpha ≠ 0) (hterms : combine.termsBelow 3 = true)
    (hreads : combine.hasTerm = true) : (shiftVO alpha combine).Fits 1 := by
  constructor
  · simp [shiftVO]
  · simp [shiftVO, halpha]
  · exact hterms
  · exact hreads

theorem pairVO_vanishesOn_iff (hterms : combine.termsBelow 3 = true)
    (hreads : combine.hasTerm = true) : (pairVO combine).VanishesOn [f, g] domain ↔
      ∀ x ∈ domain.elements,
        (combine.value fun i => [x, f.evaluate x, g.evaluate x].getD i 0) = 0 := by
  refine (GenericShiftingVO.Fits.vanishesOn_iff (pairVO_fits hterms hreads)).trans ?_
  simp only [pairVO, List.zip_cons_cons, List.zip_nil_right, List.map_cons, List.map_nil,
    List.getD_cons_succ, List.getD_cons_zero, one_mul]

theorem tripleVO_vanishesOn_iff (hterms : combine.termsBelow 4 = true)
    (hreads : combine.hasTerm = true) : (tripleVO combine).VanishesOn [f, g, h] domain ↔
      ∀ x ∈ domain.elements,
        (combine.value fun i => [x, f.evaluate x, g.evaluate x, h.evaluate x].getD i 0) = 0 := by
  refine (GenericShiftingVO.Fits.vanishesOn_iff (tripleVO_fits hterms hreads)).trans ?_
  simp only [tripleVO, List.zip_cons_cons, List.zip_nil_right, List.map_cons, List.map_nil,
    List.getD_cons_succ, List.getD_cons_zero, one_mul]

theorem shiftVO_vanishesOn_iff {alpha : F} (halpha : alpha ≠ 0)
    (hterms : combine.termsBelow 3 = true) (hreads : combine.hasTerm = true) :
    (shiftVO alpha combine).VanishesOn [f] domain ↔ ∀ x ∈ domain.elements,
      (combine.value fun i => [x, f.evaluate x, f.evaluate (alpha * x)].getD i 0) = 0 := by
  refine (GenericShiftingVO.Fits.vanishesOn_iff (shiftVO_fits halpha hterms hreads)).trans ?_
  simp only [shiftVO, List.zip_cons_cons, List.zip_nil_right, List.map_cons, List.map_nil,
    List.getD_cons_zero, one_mul]

end Presets

end Lootbox.ZeroOverK

namespace Lootbox.FunctionRelation

open ZeroOverK

variable {F R : Type} [Field F] [DecidableEq F]

/-- What the ideal scheme is built over: the degree that the keys support, the randomness and
the challenge of each `ZeroOverK` prover, and the serializations. -/
structure IdealSetup (F R : Type) where
  supportedDegree : Nat
  coins : R → (Nat → F × F) × ZeroOverK.VerifierFirstMsg F × R
  initializeAndRand : List UInt8 → F
  commitmentBytes : DensePolynomial F → List UInt8
  fieldBytes : F → List UInt8

def commitTo (p : LabeledPolynomial F) : LabeledCommitment (DensePolynomial F) :=
  ⟨p.label, p.polynomial, p.degreeBound⟩

variable (setup : IdealSetup F R)

/-- The scheme without the prover of `ZeroOverK`. -/
def idealCommitments : Scheme F (DensePolynomial F) Unit (ZeroOverK.Proof F) Unit R where
  commit polys rng := .ok (polys.map commitTo, polys.map fun _ => (), rng)
  commitWithoutRng polys := .ok (polys.map commitTo)
  emptyCommitment := 0
  addCommitment commitment coef other := commitment + other.scale coef
  emptyRandomness := ()
  addRandomness _ _ _ := ()
  batchOpen _ _ _ _ _ rng := .ok ((), rng)
  batchCheck f_commit points evaluations _ _ := .ok (decide (∀ point ∈ points,
    evaluations.reverse.lookup point = some (f_commit.commitment.evaluate point)))
  proveZeroOverK _ _ _ _ _ _ _ := .error .aborted
  verifyZeroOverK _ commitments _ vo domain :=
    if vo.VanishesOn (commitments.map LabeledCommitment.commitment) domain then .ok ()
    else .error (.zeroOverK .check2Failed)
  initializeAndRand := setup.initializeAndRand
  commitmentBytes := setup.commitmentBytes
  fieldBytes := setup.fieldBytes

/-- The commitment to `h_prime_i` is combined from those to an oracle and to a masking. -/
def hPrimeLinearCombination (i : Nat) (label : PolynomialLabel) : LinearCombination F :=
  ⟨hPrimeLabel i, [(1, label), (1, mLabel i)]⟩

def proveZeroOverK (concrete_oracles : List (LabeledPolynomial F))
    (concrete_oracle_commitments : List (LabeledCommitment (DensePolynomial F)))
    (maximum_oracle_degree_bound : Option Nat) (vo : GenericShiftingVO F)
    (domain : EvaluationDomain F) (rng : R) : Except Error (ZeroOverK.Proof F × R) := do
  let (randomness, msg, rng) := setup.coins rng
  let proof ← (ZeroOverK.prove (concrete_oracles.map LabeledPolynomial.polynomial)
    maximum_oracle_degree_bound vo domain setup.supportedDegree randomness msg).mapError .zeroOverK
  let maskings ← (computeMaskings vo domain randomness).mapError .zeroOverK
  let h_and_m_commitments := concrete_oracle_commitments ++ maskings.map fun (_, m) =>
    ⟨m.label, m.polynomial, maximum_oracle_degree_bound⟩
  let _h_prime_commitments ← vo.mappingVector.zipIdx.mapM fun (index, i) => do
    let oracle ← nth concrete_oracles index
    aggregateCommitments (idealCommitments setup) h_and_m_commitments none
      (hPrimeLinearCombination i oracle.label)
  return (proof, rng)

def idealScheme : Scheme F (DensePolynomial F) Unit (ZeroOverK.Proof F) Unit R :=
  { idealCommitments setup with
    proveZeroOverK := fun oracles commitments _ bound vo domain rng =>
      proveZeroOverK setup oracles commitments bound vo domain rng }

/-! ### Combinations of commitments -/

omit [Field F] [DecidableEq F] in
theorem lookup_map_eq {α β γ : Type} [BEq γ] [LawfulBEq γ] (f : α → γ) (g : α → β) (xs : List α)
    (key : γ) : (xs.map fun a => (f a, g a)).lookup key = (xs.find? fun a => f a == key).map g := by
  induction xs with
  | nil => rfl
  | cons a xs ih =>
    rw [List.map_cons, List.lookup_cons, List.find?_cons, ih, BEq.comm]
    cases f a == key <;> rfl

/-- The commitment of a label, the last one with that label. -/
def commitmentOf (commitments : List (LabeledCommitment (DensePolynomial F)))
    (label : PolynomialLabel) : Option (LabeledCommitment (DensePolynomial F)) :=
  commitments.reverse.find? fun c => c.label == label

section Aggregate

variable {setup} {S : Scheme F (DensePolynomial F) Unit (ZeroOverK.Proof F) Unit R}
  {commitments : List (LabeledCommitment (DensePolynomial F))} {bound : Option Nat}

omit [Field F] [DecidableEq F] in
theorem exists_commitmentOf {label : PolynomialLabel}
    (h : label ∈ commitments.map LabeledCommitment.label) :
    ∃ c, commitmentOf commitments label = some c := by
  obtain ⟨c, hc, rfl⟩ := List.mem_map.mp h
  apply Option.isSome_iff_exists.mp
  rw [commitmentOf, List.find?_isSome]
  exact ⟨c, List.mem_reverse.mpr hc, beq_self_eq_true _⟩

theorem aggregateCommitments_pair (hempty : S.emptyCommitment = 0)
    (hadd : ∀ c coef other, S.addCommitment c coef other = c + DensePolynomial.scale coef other)
    {randomness : Option (List Unit)}
    (hrandomness : ∀ rands, randomness = some rands → rands.length = commitments.length)
    (hbound : ∀ c ∈ commitments, c.degreeBound = bound) {label first second : PolynomialLabel}
    {coef coef' : F} {c c' : LabeledCommitment (DensePolynomial F)}
    (hfirst : commitmentOf commitments first = some c)
    (hsecond : commitmentOf commitments second = some c') :
    aggregateCommitments S commitments randomness ⟨label, [(coef, first), (coef', second)]⟩ =
      .ok (⟨label, 0 + c.commitment.scale coef + c'.commitment.scale coef', bound⟩, ()) := by
  obtain ⟨c₀, hc₀⟩ : ∃ c₀, commitments[0]? = some c₀ := by
    cases commitments with
    | nil => cases hfirst
    | cons c₀ _ => exact ⟨c₀, rfl⟩
  have hbound₀ : c₀.degreeBound = bound := hbound c₀ (List.mem_of_getElem? hc₀)
  obtain ⟨rands, hrands, hlen⟩ : ∃ rands : List Unit,
      (randomness.getD (commitments.map fun _ => S.emptyRandomness)) = rands ∧
        rands.length = commitments.length := by
    cases randomness with
    | none => exact ⟨_, rfl, List.length_map _⟩
    | some rands => exact ⟨rands, rfl, hrandomness rands rfl⟩
  have hmapping : ((commitments.zip rands).mapM fun (x : LabeledCommitment (DensePolynomial F) × Unit) =>
      if x.1.degreeBound ≠ c₀.degreeBound then
        Except.error (Error.mismatchedDegreeBounds c₀.label x.1.label)
      else .ok (x.1.label, x.1.commitment, x.2)) =
      .ok (commitments.map fun c => (c.label, c.commitment, ())) := by
    have hzip : commitments.zip rands = commitments.map fun c => (c, ()) := by
      apply List.ext_getElem
      · simp [hlen]
      · intro i h₁ h₂
        simp
    rw [hzip, List.mapM_map]
    apply mapM_eq_ok_map
    intro c hc
    dsimp only [Function.comp]
    rw [hbound c hc, hbound₀, if_neg (not_not_intro rfl)]
  have hlookup : ∀ label, (commitments.map fun c => (c.label, c.commitment, ())).reverse.lookup label =
      (commitmentOf commitments label).map fun c => (c.commitment, ()) := by
    intro label
    rw [← List.map_reverse]
    exact lookup_map_eq _ _ _ _
  simp only [aggregateCommitments, hrands]
  rw [nth, hc₀, need_some, ok_bind, hmapping, ok_bind]
  simp only [List.foldlM_cons, List.foldlM_nil, hlookup, hfirst, hsecond, Option.map_some, ok_bind,
    hempty, hadd, hbound₀]
  rfl

end Aggregate

/-! ### The prover of `ZeroOverK` -/

section Prover

variable {oracles : List (LabeledPolynomial F)}
  {commitments : List (LabeledCommitment (DensePolynomial F))} {bound : Option Nat}
  {vo : GenericShiftingVO F} {domain : EvaluationDomain F}

def withMaskings (vo : GenericShiftingVO F) (domain : EvaluationDomain F) (randomness : Nat → F × F)
    (bound : Option Nat) (commitments : List (LabeledCommitment (DensePolynomial F))) :
    List (LabeledCommitment (DensePolynomial F)) :=
  commitments ++ (List.range vo.numOfVariableTerms).map fun i =>
    ⟨mLabel i, maskingAt vo domain randomness i, bound⟩

theorem exists_hPrimeCommitment {randomness : Nat → F × F}
    (hlabels : commitments.map LabeledCommitment.label = oracles.map LabeledPolynomial.label)
    (hbound : ∀ c ∈ commitments, c.degreeBound = bound) {index i : Nat}
    (hindex : index < oracles.length) (hi : i < vo.numOfVariableTerms) :
    ∃ c, (do
      let oracle ← nth oracles index
      aggregateCommitments (idealCommitments setup)
        (withMaskings vo domain randomness bound commitments) none
        (hPrimeLinearCombination i oracle.label)) = .ok c := by
  have hfirst : oracles[index].label ∈
      (withMaskings vo domain randomness bound commitments).map LabeledCommitment.label := by
    rw [withMaskings, List.map_append, hlabels]
    exact List.mem_append_left _ (List.mem_map_of_mem (List.getElem_mem hindex))
  have hsecond : mLabel i ∈
      (withMaskings vo domain randomness bound commitments).map LabeledCommitment.label := by
    rw [withMaskings, List.map_append, List.map_map]
    apply List.mem_append_right
    exact List.mem_map.mpr ⟨i, List.mem_range.mpr hi, rfl⟩
  obtain ⟨c, hc⟩ := exists_commitmentOf hfirst
  obtain ⟨c', hc'⟩ := exists_commitmentOf hsecond
  have hbounds : ∀ c ∈ withMaskings vo domain randomness bound commitments, c.degreeBound = bound := by
    intro c hc
    rcases List.mem_append.mp hc with hc | hc
    · exact hbound c hc
    · obtain ⟨_, _, rfl⟩ := List.mem_map.mp hc
      rfl
  rw [nth, List.getElem?_eq_getElem hindex, need_some, ok_bind]
  exact ⟨_, aggregateCommitments_pair (S := idealCommitments setup) rfl (fun _ _ _ => rfl)
    (fun _ h => by cases h) hbounds hc hc'⟩

theorem exists_proveZeroOverK (hvo : vo.Fits oracles.length)
    (hsupported : checkSupportedDegree bound setup.supportedDegree = .ok ())
    (hlabels : commitments.map LabeledCommitment.label = oracles.map LabeledPolynomial.label)
    (hbound : ∀ c ∈ commitments, c.degreeBound = bound) (rands : List Unit) (rng : R) :
    ∃ proof rng', (idealScheme setup).proveZeroOverK oracles commitments rands bound vo domain rng =
      .ok (proof, rng') := by
  obtain ⟨randomness, msg, rng', hcoins⟩ : ∃ randomness msg rng',
      setup.coins rng = (randomness, msg, rng') := ⟨_, _, _, rfl⟩
  have hvo' : vo.Fits (oracles.map LabeledPolynomial.polynomial).length := by
    rw [List.length_map]
    exact hvo
  obtain ⟨proof, hproof⟩ : ∃ proof, ZeroOverK.prove (oracles.map LabeledPolynomial.polynomial) bound
      vo domain setup.supportedDegree randomness msg = .ok proof := hvo'.exists_prove hsupported msg
  obtain ⟨h_primes, hprimes⟩ : ∃ h_primes, (vo.mappingVector.zipIdx.mapM fun (x : Nat × Nat) => do
      let oracle ← nth oracles x.1
      aggregateCommitments (idealCommitments setup)
        (withMaskings vo domain randomness bound commitments) none
        (hPrimeLinearCombination x.2 oracle.label)) = .ok h_primes := by
    apply exists_mapM_eq_ok
    intro x hx
    exact exists_hPrimeCommitment setup hlabels hbound
      (hvo.indices _ (List.fst_mem_of_mem_zipIdx hx)) (List.snd_lt_of_mem_zipIdx hx)
  have hmaskings : (commitments ++ ((List.range vo.numOfVariableTerms).map fun i =>
      ((⟨rLabel i, randomPolynomial (randomness i)⟩ : ZeroOverK.LabeledPolynomial F),
        (⟨mLabel i, maskingAt vo domain randomness i⟩ : ZeroOverK.LabeledPolynomial F))).map
          fun x => (⟨x.2.label, x.2.polynomial, bound⟩ : LabeledCommitment (DensePolynomial F))) =
      withMaskings vo domain randomness bound commitments := by
    rw [List.map_map]
    rfl
  refine ⟨proof, rng', ?_⟩
  show proveZeroOverK setup oracles commitments bound vo domain rng = _
  simp only [proveZeroOverK, hcoins, hproof, hvo.computeMaskings, Except.mapError, ok_bind,
    hmaskings]
  rw [hprimes]
  rfl

theorem verifyZeroOverK_eq_ok_iff {proof : ZeroOverK.Proof F} :
    (idealScheme setup).verifyZeroOverK proof commitments bound vo domain = .ok () ↔
      vo.VanishesOn (commitments.map LabeledCommitment.commitment) domain :=
  ite_ok_eq_ok_iff

omit [Field F] [DecidableEq F] in
theorem newVO_eq_ok {mapping_vector : List Nat} {alphas : List F} (combine : CombineFunction F)
    {max_index : Nat} (hlen : alphas.length = mapping_vector.length)
    (hmax : mapping_vector.max? = some max_index) :
    newVO mapping_vector alphas combine =
      .ok ⟨mapping_vector, alphas, combine, max_index, hlen, hmax⟩ := by
  rw [newVO, GenericShiftingVO.new_eq_ok combine hlen hmax]
  rfl

end Prover

end Lootbox.FunctionRelation

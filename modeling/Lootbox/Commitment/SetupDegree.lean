import Lootbox.Commitment.CommitFunction
import Lootbox.Commitment.OuterSumcheck
import Lootbox.Commitment.ZeroOverKCompleteness

/-!
# `index_private_marlin`: the degree of the universal setup

The keys are trimmed to `max_degree` with four degree bounds. Every polynomial that the indexer
and the prover commit to fits them.
-/

namespace Lootbox.ZeroOverK

variable {F : Type} [Field F] [DecidableEq F]

/-! ### First round of `zero_over_k` -/

structure ProverFirstOracles (F : Type) where
  maskingPolynomials : List (FunctionRelation.LabeledPolynomial F)
  randomPolynomials : List (FunctionRelation.LabeledPolynomial F)
  q1 : FunctionRelation.LabeledPolynomial F

def ProverFirstOracles.iter (self : ProverFirstOracles F) :
    List (FunctionRelation.LabeledPolynomial F) :=
  self.maskingPolynomials ++ self.randomPolynomials ++ [self.q1]

def proverFirstRound (oracles : List (DensePolynomial F)) (maximum_oracle_degree_bound : Option Nat)
    (vo : GenericShiftingVO F) (domain : EvaluationDomain F) (rng : Nat → F × F) :
    Except Error (ProverFirstOracles F) := do
  let maskings ← computeMaskings vo domain rng
  let h_primes ← computeHPrimes vo oracles (maskings.map Prod.snd)
  let f_prime ← computeFPrime vo h_primes
  let q_1 := computeQ1 domain f_prime
  return {
    maskingPolynomials := maskings.map fun (_, m) =>
      ⟨m.label, m.polynomial, maximum_oracle_degree_bound⟩
    randomPolynomials := maskings.map fun (r, _) => ⟨r.label, r.polynomial, some 2⟩
    q1 := ⟨"q_1", q_1, none⟩ }

/-! ### Lengths of the masked oracles -/

section Lengths

omit [DecidableEq F] in
theorem length_scaleCoeffs (s : F) (cs : List F) :
    ∀ acc, (scaleCoeffs s acc cs).length = cs.length := by
  induction cs with
  | nil => exact fun acc => rfl
  | cons c cs ih => exact fun acc => congrArg Nat.succ (ih _)

theorem length_shiftDensePoly_le (p : DensePolynomial F) (s : F) :
    (shiftDensePoly p s).coeffs.length ≤ p.coeffs.length := by
  rw [shiftDensePoly]
  by_cases hs : s = 1
  · rw [if_pos hs]
  · rw [if_neg hs]
    apply (DensePolynomial.length_trim_le _).trans
    rw [length_scaleCoeffs]

theorem length_randomPolynomial_le (coeffs : F × F) : (randomPolynomial coeffs).coeffs.length ≤ 2 :=
  DensePolynomial.length_trim_le _

variable {domain : EvaluationDomain F}

theorem length_maskingPolynomial_le (alpha : F) {r : DensePolynomial F} (hr : r.coeffs.length ≤ 2) :
    (maskingPolynomial domain alpha r).coeffs.length ≤ domain.size + 2 := by
  have hmul := DensePolynomial.length_mul_le (shiftDensePoly r alpha⁻¹)
    (shiftDensePoly domain.vanishingPolynomial alpha⁻¹)
  have hr_shifted := length_shiftDensePoly_le r alpha⁻¹
  have hvanishing_shifted := length_shiftDensePoly_le domain.vanishingPolynomial alpha⁻¹
  rw [domain.length_vanishingPolynomial] at hvanishing_shifted
  rw [maskingPolynomial]
  omega

end Lengths

/-! ### Degrees of combine functions -/

/-- The terms have degree at most `d`. -/
def VOTerm.DegreeLe (d : Nat) : VOTerm F → Prop
  | .evaluation _ => True
  | .polynomial poly => poly.coeffs.length ≤ d + 1

omit [Field F] [DecidableEq F] in
theorem VOTerm.DegreeLe.mono {d e : Nat} {t : VOTerm F} (h : t.DegreeLe d) (hle : d ≤ e) :
    t.DegreeLe e := by
  cases t with
  | evaluation eval => exact trivial
  | polynomial poly => exact Nat.le_trans h (Nat.succ_le_succ hle)

theorem length_constant_le (c : F) (d : Nat) :
    (DensePolynomial.constant c).coeffs.length ≤ d + 1 :=
  (DensePolynomial.length_constant_le c).trans (Nat.succ_le_succ (Nat.zero_le d))

theorem VOTerm.DegreeLe.add {d : Nat} {s t : VOTerm F} (hs : s.DegreeLe d) (ht : t.DegreeLe d) :
    (s.add t).DegreeLe d := by
  cases s with
  | evaluation eval =>
    cases t with
    | evaluation rhs_eval => exact trivial
    | polynomial rhs_poly => exact DensePolynomial.length_add_le (length_constant_le eval d) ht
  | polynomial poly =>
    cases t with
    | evaluation rhs_eval => exact DensePolynomial.length_add_le hs (length_constant_le rhs_eval d)
    | polynomial rhs_poly => exact DensePolynomial.length_add_le hs ht

theorem VOTerm.DegreeLe.sub {d : Nat} {s t : VOTerm F} (hs : s.DegreeLe d) (ht : t.DegreeLe d) :
    (s.sub t).DegreeLe d := by
  cases s with
  | evaluation eval =>
    cases t with
    | evaluation rhs_eval => exact trivial
    | polynomial rhs_poly => exact DensePolynomial.length_sub_le (length_constant_le eval d) ht
  | polynomial poly =>
    cases t with
    | evaluation rhs_eval => exact DensePolynomial.length_sub_le hs (length_constant_le rhs_eval d)
    | polynomial rhs_poly => exact DensePolynomial.length_sub_le hs ht

theorem VOTerm.DegreeLe.mul {d e : Nat} {s t : VOTerm F} (hs : s.DegreeLe d) (ht : t.DegreeLe e) :
    (s.mul t).DegreeLe (d + e) := by
  cases s with
  | evaluation eval =>
    cases t with
    | evaluation rhs_eval => exact trivial
    | polynomial rhs_poly =>
      have hscale := DensePolynomial.length_scale_le eval rhs_poly
      dsimp only [VOTerm.mul, VOTerm.DegreeLe] at ht ⊢
      omega
  | polynomial poly =>
    cases t with
    | evaluation rhs_eval =>
      have hscale := DensePolynomial.length_scale_le rhs_eval poly
      dsimp only [VOTerm.mul, VOTerm.DegreeLe] at hs ⊢
      omega
    | polynomial rhs_poly =>
      have hmul := DensePolynomial.length_mul_le poly rhs_poly
      dsimp only [VOTerm.mul, VOTerm.DegreeLe] at hs ht ⊢
      omega

namespace CombineFunction

/-- The degree of the combination of terms of degree `d`. -/
def degreeBound (d : Nat) : CombineFunction F → Nat
  | .term _ => d
  | .constant _ => 0
  | .add left right => max (left.degreeBound d) (right.degreeBound d)
  | .sub left right => max (left.degreeBound d) (right.degreeBound d)
  | .mul left right => left.degreeBound d + right.degreeBound d

theorem degreeLe_apply {f : CombineFunction F} {terms : List (VOTerm F)} {d : Nat}
    (hterms : ∀ t ∈ terms, t.DegreeLe d) {t : VOTerm F} (h : f.apply terms = .ok t) :
    t.DegreeLe (f.degreeBound d) := by
  induction f generalizing t with
  | term index => exact hterms t (List.mem_of_getElem? (require_eq_ok_iff.mp h))
  | constant eval =>
    cases h
    exact trivial
  | add left right ihl ihr =>
    obtain ⟨l, hl, hrest⟩ := bind_eq_ok_iff.mp h
    obtain ⟨r, hr, heq⟩ := bind_eq_ok_iff.mp hrest
    cases heq
    exact ((ihl hl).mono (le_max_left _ _)).add ((ihr hr).mono (le_max_right _ _))
  | sub left right ihl ihr =>
    obtain ⟨l, hl, hrest⟩ := bind_eq_ok_iff.mp h
    obtain ⟨r, hr, heq⟩ := bind_eq_ok_iff.mp hrest
    cases heq
    exact ((ihl hl).mono (le_max_left _ _)).sub ((ihr hr).mono (le_max_right _ _))
  | mul left right ihl ihr =>
    obtain ⟨l, hl, hrest⟩ := bind_eq_ok_iff.mp h
    obtain ⟨r, hr, heq⟩ := bind_eq_ok_iff.mp hrest
    cases heq
    exact (ihl hl).mul (ihr hr)

end CombineFunction

/-! ### Degrees of the first round -/

section FirstRoundDegrees

variable {vo : GenericShiftingVO F} {oracles : List (DensePolynomial F)}
  {domain : EvaluationDomain F} {rng : Nat → F × F} {d : Nat}

theorem degreeLe_proverTerms (hsize : domain.size + 1 ≤ d)
    (horacles : ∀ oracle ∈ oracles, oracle.coeffs.length ≤ d + 1) :
    ∀ t ∈ proverTerms vo oracles domain rng, t.DegreeLe d := by
  have horacle : ∀ i, (oracleAt vo oracles i).coeffs.length ≤ d + 1 := by
    intro i
    rw [oracleAt, List.getD_eq_getElem?_getD]
    cases hget : oracles[vo.mappingVector.getD i 0]? with
    | none => exact Nat.zero_le _
    | some oracle => exact horacles oracle (List.mem_of_getElem? hget)
  intro t ht
  obtain ⟨p, hp, rfl⟩ := List.mem_map.mp ht
  change p.coeffs.length ≤ d + 1
  rcases List.mem_cons.mp hp with rfl | hp
  · have hx : (xPoly : DensePolynomial F).coeffs.length ≤ 2 := DensePolynomial.length_trim_le _
    have hpos := domain.size_pos
    omega
  · obtain ⟨i, _, rfl⟩ := List.mem_map.mp hp
    have hmask : (maskingAt vo domain rng i).coeffs.length ≤ d + 1 :=
      (length_maskingPolynomial_le _ (length_randomPolynomial_le _)).trans (by omega)
    exact (length_shiftDensePoly_le _ _).trans (DensePolynomial.length_add_le (horacle i) hmask)

theorem proverFirstRound_lengths {bound : Option Nat} {first : ProverFirstOracles F}
    (h : proverFirstRound oracles bound vo domain rng = .ok first) (hsize : domain.size + 1 ≤ d)
    (horacles : ∀ oracle ∈ oracles, oracle.coeffs.length ≤ d + 1) :
    (∀ p ∈ first.randomPolynomials, p.polynomial.coeffs.length ≤ 2 ∧ p.degreeBound = some 2) ∧
    (∀ p ∈ first.maskingPolynomials,
      p.polynomial.coeffs.length ≤ domain.size + 2 ∧ p.degreeBound = bound) ∧
    first.q1.polynomial.coeffs.length ≤ vo.combineFunction.degreeBound d + 1 - domain.size ∧
    first.q1.degreeBound = none := by
  obtain ⟨maskings, hmaskings, h⟩ := bind_eq_ok_iff.mp h
  obtain ⟨_, rfl⟩ := (computeMaskings_eq_ok_iff vo domain rng).mp hmaskings
  obtain ⟨h_primes, hprimes, h⟩ := bind_eq_ok_iff.mp h
  rw [List.map_map] at hprimes
  obtain ⟨_, rfl⟩ := (computeHPrimes_eq_ok_iff vo oracles domain rng).mp hprimes
  obtain ⟨f_prime, hf_prime, h⟩ := bind_eq_ok_iff.mp h
  have happly := (computeFPrime_eq_ok_iff vo oracles domain rng).mp hf_prime
  have hf_len : f_prime.coeffs.length ≤ vo.combineFunction.degreeBound d + 1 :=
    CombineFunction.degreeLe_apply (degreeLe_proverTerms hsize horacles) happly
  cases h
  refine ⟨?_, ?_, ?_, rfl⟩
  · intro p hp
    obtain ⟨m, hm, rfl⟩ := List.mem_map.mp hp
    obtain ⟨i, _, rfl⟩ := List.mem_map.mp hm
    exact ⟨length_randomPolynomial_le _, rfl⟩
  · intro p hp
    obtain ⟨m, hm, rfl⟩ := List.mem_map.mp hp
    obtain ⟨i, _, rfl⟩ := List.mem_map.mp hm
    exact ⟨length_maskingPolynomial_le _ (length_randomPolynomial_le _), rfl⟩
  · have hquotient := domain.length_quotient_le f_prime
    dsimp only [computeQ1]
    omega

end FirstRoundDegrees

end Lootbox.ZeroOverK

namespace Lootbox.IndexPrivateMarlin

open AcCompiler
open FunctionRelation (maxDegree indexPolynomials)

variable {F : Type} [Field F] [DecidableEq F]

/-! ### What the prover commits to -/

/-- `get_degree_bounds`. The source underflows on domains of one element, where this gives zero. -/
def getDegreeBounds (info : R1CSfIndex) : List Nat :=
  let h_size := 2 ^ Nat.clog 2 info.numberOfConstraints
  let k_size := 2 ^ Nat.clog 2 info.numberOfNonZeroEntries
  -- for g1, for g2, for the random polynomials of zero over k, for the index polynomials
  [h_size - 2, k_size - 2, 2, k_size + 1]

def ProverFirstOracles.labeled (self : ProverFirstOracles F) :
    List (FunctionRelation.LabeledPolynomial F) :=
  [⟨"z", self.z, none⟩, ⟨"z_a", self.zA, none⟩, ⟨"z_b", self.zB, none⟩,
    ⟨"mask_poly", self.maskPoly, none⟩, ⟨"inner_mask_poly", self.innerMaskPoly, none⟩]

def ProverSecondOracles.labeled (self : ProverSecondOracles F) (domain_h : EvaluationDomain F) :
    List (FunctionRelation.LabeledPolynomial F) :=
  [⟨"t", self.t, none⟩, ⟨"g_1", self.g1, some (domain_h.size - 2)⟩, ⟨"h_1", self.h1, none⟩]

def ProverThirdOracles.labeled (self : ProverThirdOracles F) (domain_k : EvaluationDomain F) :
    List (FunctionRelation.LabeledPolynomial F) :=
  [⟨"f", self.f, none⟩, ⟨"g_2", self.g2, some (domain_k.size - 2)⟩]

def VerifierWellFormationOracles.labeled (self : VerifierWellFormationOracles F) :
    List (FunctionRelation.LabeledPolynomial F) :=
  [⟨"pi_lde", self.x, none⟩, ⟨"vh_gt_x", self.vhGtX, none⟩, ⟨"output_lde", self.y, none⟩,
    ⟨"vh_lt_y", self.vhLtY, none⟩]

/-- The errors of `Marlin::prove`. -/
inductive MarlinError
  | ahpError (err : Error)
  | zeroOverKError (err : ZeroOverK.Error)
  deriving DecidableEq, Repr

/-- What the prover draws in the rounds and in its two proofs. -/
structure ProverRng (F : Type) where
  rounds : Nat → F
  rationalSumcheck : Nat → F × F
  wellFormation : Nat → F × F

structure VerifierMsgs (F : Type) where
  first : VerifierFirstMsg F
  second : VerifierSecondMsg F
  separationChallenge : F

/-- The polynomials that `Marlin::prove` hands to `PC::commit`, call after call. -/
def committedPolynomials (params : EvaluationDomain.FftParameters F) (index : Index F)
    (assignment : List F) (zk_rng : ProverRng F) (msgs : VerifierMsgs F) :
    Except MarlinError (List (FunctionRelation.LabeledPolynomial F)) := do
  let prover_init_state ← (proverInit params index assignment).mapError .ahpError
  let (prover_first_oracles, prover_state) ←
    (proverFirstRound prover_init_state zk_rng.rounds).mapError .ahpError
  let (prover_second_oracles, prover_state) ←
    (proverSecondRound params msgs.first prover_state).mapError .ahpError
  let domain_k := prover_state.domainK
  let domain_h := prover_state.domainH
  let (prover_third_oracles, prover_state) ←
    (proverThirdRound msgs.second prover_state).mapError .ahpError
  let rational_sumcheck_vo ←
    (rationalSumcheckVO msgs.first msgs.second domain_k).mapError .zeroOverKError
  let rational_sumcheck ← (ZeroOverK.proverFirstRound
    (rationalSumcheckOracles index prover_third_oracles.f) none rational_sumcheck_vo domain_k
    zk_rng.rationalSumcheck).mapError .zeroOverKError
  let well_formation_oracles ← (verifierWellFormationOracles index.indexInfo
    prover_state.publicInputs prover_state.output domain_h).mapError .ahpError
  let well_formation_vo ← (wellFormationVO msgs.separationChallenge).mapError .zeroOverKError
  let well_formation ← (ZeroOverK.proverFirstRound
    (wellFormationOracles prover_first_oracles.z well_formation_oracles) none well_formation_vo
    domain_h zk_rng.wellFormation).mapError .zeroOverKError
  return prover_first_oracles.labeled ++ prover_second_oracles.labeled domain_h ++
    prover_third_oracles.labeled domain_k ++ rational_sumcheck.iter ++
    well_formation_oracles.labeled ++ well_formation.iter

/-- Keys that are trimmed for the index commit to the polynomial. -/
structure Supported (info : R1CSfIndex) (p : FunctionRelation.LabeledPolynomial F) : Prop where
  degree_le : degree p.polynomial ≤ maxDegree info
  bound_enforced : ∀ bound ∈ p.degreeBound, bound ∈ getDegreeBounds info
  bound_respected : ∀ bound ∈ p.degreeBound, degree p.polynomial ≤ bound

/-! ### Lengths of the rounds -/

section Rounds

variable {domain_h domain_k : EvaluationDomain F} {state state' : ProverState F} {rng : Nat → F}

theorem length_maskedInterpolation_le (evals : List F) (mask : F) :
    (maskedInterpolation domain_h evals mask).coeffs.length ≤ domain_h.size + 1 := by
  have hmask : (DensePolynomial.fromCoefficientsVec [mask]).coeffs.length ≤ 1 :=
    DensePolynomial.length_trim_le _
  have hmul := DensePolynomial.length_mul_le (.fromCoefficientsVec [mask])
    domain_h.vanishingPolynomial
  rw [domain_h.length_vanishingPolynomial] at hmul
  exact DensePolynomial.length_add_le ((domain_h.length_interpolate_le evals).trans (Nat.le_succ _))
    (by omega)

theorem length_outerMask_le {zk_bound : Nat} {mask_poly : DensePolynomial F}
    (h : outerMask domain_h zk_bound rng = .ok mask_poly) :
    mask_poly.coeffs.length ≤ 3 * domain_h.size + 2 * zk_bound := by
  obtain ⟨r_0, _, h⟩ := bind_eq_ok_iff.mp h
  obtain ⟨constant, _, h⟩ := bind_eq_ok_iff.mp h
  have hrand := length_randPolynomial_le (3 * domain_h.size + 2 * zk_bound - 1) rng
  have hpos := domain_h.size_pos
  rw [(setCoeff_eq_ok h).1]
  omega

/-- Both assertions hold, whatever is drawn. -/
theorem degree_maskedInterpolation_lt {zk_bound : Nat} (hzk : 0 < zk_bound) (evals : List F)
    (mask : F) :
    degree (maskedInterpolation domain_h evals mask) < domain_h.size + zk_bound := by
  have hlen : (maskedInterpolation domain_h evals mask).coeffs.length ≤ domain_h.size + 1 :=
    length_maskedInterpolation_le evals mask
  have hpos := domain_h.size_pos
  rw [degree]
  omega

theorem proverFirstRound_lengths {oracles : ProverFirstOracles F} (hzk : 0 < state.zkBound)
    (h : proverFirstRound state rng = .ok (oracles, state')) :
    FirstRoundLengths state.domainH state.zkBound oracles ∧
      oracles.innerMaskPoly.coeffs.length ≤ state.domainK.size ∧
      state' = afterFirstRound state oracles := by
  obtain ⟨mask_poly, hmask, h⟩ := bind_eq_ok_iff.mp h
  obtain ⟨inner_mask_poly, hinner, h⟩ := bind_eq_ok_iff.mp h
  dsimp only at h
  rw [if_neg (not_not_intro (degree_maskedInterpolation_lt hzk _ _)),
    if_neg (not_not_intro (degree_maskedInterpolation_lt hzk _ _))] at h
  cases h
  refine ⟨⟨?_, ?_, ?_, length_outerMask_le hmask⟩, length_innerMask_le hinner, rfl⟩
  · exact length_maskedInterpolation_le _ _
  · exact length_maskedInterpolation_le _ _
  · exact length_maskedInterpolation_le _ _

variable {params : EvaluationDomain.FftParameters F}

theorem proverSecondRound_degrees {oracles : ProverFirstOracles F} {first : VerifierFirstMsg F}
    {second : ProverSecondOracles F} (hzk : 0 < state.zkBound)
    (hlengths : FirstRoundLengths state.domainH state.zkBound oracles)
    (h : proverSecondRound params first (afterFirstRound state oracles) = .ok (second, state')) :
    second.t.coeffs.length ≤ state.domainH.size ∧
      degree second.g1 ≤ state.domainH.size - 2 ∧
      degree second.h1 ≤ 2 * state.domainH.size + 2 * state.zkBound - 1 ∧
      state' = { afterFirstRound state oracles with verifierFirstMsg := some first } := by
  obtain ⟨t, ht⟩ : ∃ t, calculateT [state.index.a, state.index.b, state.index.c]
      [first.etaA, first.etaB, first.etaC] state.domainH
      (batchEvalUnnormalizedBivariateLagrangePolyWithDiffInputs state.domainH first.alpha) =
        .ok t := by
    obtain ⟨_, _, h⟩ := bind_eq_ok_iff.mp h
    obtain ⟨_, _, h⟩ := bind_eq_ok_iff.mp h
    obtain ⟨t, ht, _⟩ := bind_eq_ok_iff.mp h
    exact ⟨t, ht⟩
  obtain ⟨rhs, hrhs, rfl, hh_1, hg_1, hstate⟩ :=
    (proverSecondRound_eq_ok_iff hlengths hzk ht).mp h
  have ht_len := length_calculateT_le ht
  obtain ⟨hdegree_g, hdegree_h⟩ := secondRound_degrees hlengths hzk ht_len hrhs hg_1
  rw [← hh_1] at hdegree_h
  exact ⟨ht_len, hdegree_g, hdegree_h, hstate⟩

theorem proverThirdRound_lengths {ver_message : VerifierSecondMsg F} {third : ProverThirdOracles F}
    {inner_mask_poly : DensePolynomial F}
    (h : proverThirdRound ver_message state = .ok (third, state'))
    (hinner : state.innerMaskPoly = some inner_mask_poly)
    (hlen : inner_mask_poly.coeffs.length ≤ state.domainK.size) :
    third.f.coeffs.length ≤ state.domainK.size ∧
      third.g2.coeffs.length ≤ state.domainK.size - 1 ∧
      state' = { state with innerMaskPoly := none } := by
  obtain ⟨_, first, hmask, _, hf, hg_2, _, hstate⟩ := proverThirdRound_eq_ok h
  cases hinner.symm.trans hmask
  have hf_len := length_proverThirdRoundF_le hf
  have hsum := DensePolynomial.length_add_le hf_len hlen
  exact ⟨hf_len, (length_divideByX_le hg_2).trans (Nat.sub_le_sub_right hsum 1), hstate⟩

end Rounds

/-! ### Lengths of the well formation oracles -/

section WellFormationLengths

theorem length_linear_le (point : F) : (linear point).coeffs.length ≤ 2 :=
  DensePolynomial.length_trim_le _

theorem length_one_le : (DensePolynomial.fromCoefficientsVec [(1 : F)]).coeffs.length ≤ 1 :=
  DensePolynomial.length_trim_le _

theorem length_constructVanishing_le (points : List F) :
    (constructVanishing points).coeffs.length ≤ points.length + 1 := by
  have hloop : ∀ (points : List F) (v_h : DensePolynomial F),
      (points.foldl (fun v_h point => v_h * linear point) v_h).coeffs.length ≤
        v_h.coeffs.length + points.length := by
    intro points
    induction points with
    | nil => exact fun v_h => Nat.le_refl _
    | cons point points ih =>
      intro v_h
      have hmul := DensePolynomial.length_mul_le v_h (linear point)
      have hlinear := length_linear_le point
      have hrest := ih (v_h * linear point)
      rw [List.foldl_cons, List.length_cons]
      omega
  have hone := length_one_le (F := F)
  have hle := hloop points (.fromCoefficientsVec [1])
  rw [constructVanishing]
  omega

theorem length_basisStep_le {points : List F} {i j : Nat} {x_i : F} {l l' : DensePolynomial F}
    (h : basisStep points i x_i l j = .ok l') : l'.coeffs.length ≤ l.coeffs.length + 1 := by
  rw [basisStep] at h
  by_cases hji : j = i
  · rw [if_neg (not_not_intro hji)] at h
    cases h
    exact Nat.le_succ _
  · rw [if_pos hji] at h
    obtain ⟨x_j, _, h⟩ := bind_eq_ok_iff.mp h
    obtain ⟨inverse, _, h⟩ := bind_eq_ok_iff.mp h
    cases h
    have hmul := DensePolynomial.length_mul_le l ((linear x_j).scale inverse)
    have hscale := DensePolynomial.length_scale_le inverse (linear x_j)
    have hlinear := length_linear_le x_j
    omega

theorem length_basisLoop_le {points : List F} {i : Nat} {x_i : F} (js : List Nat) :
    ∀ {l l' : DensePolynomial F}, js.foldlM (basisStep points i x_i) l = .ok l' →
      l'.coeffs.length ≤ l.coeffs.length + js.length := by
  induction js with
  | nil =>
    intro l l' h
    cases h
    exact Nat.le_refl _
  | cons j js ih =>
    intro l l' h
    rw [List.foldlM_cons] at h
    obtain ⟨m, hm, h⟩ := bind_eq_ok_iff.mp h
    have hstep := length_basisStep_le hm
    have hrest := ih h
    rw [List.length_cons]
    omega

theorem length_constructLagrangeBasis_le {points : List F} {bases : List (DensePolynomial F)}
    (h : constructLagrangeBasis points = .ok bases) :
    ∀ l ∈ bases, l.coeffs.length ≤ points.length + 1 := by
  intro l hl
  obtain ⟨i, _, hi⟩ := exists_of_mem_mapM h hl
  obtain ⟨x_i, _, hloop⟩ := bind_eq_ok_iff.mp hi
  have hone := length_one_le (F := F)
  have hle := length_basisLoop_le _ hloop
  rw [List.length_range] at hle
  omega

theorem length_combineBases_le {bases : List (DensePolynomial F)} {n : Nat}
    (h : ∀ l ∈ bases, l.coeffs.length ≤ n) (values : List F) :
    (combineBases bases values).coeffs.length ≤ n := by
  have hloop : ∀ (pairs : List (DensePolynomial F × F)), (∀ lv ∈ pairs, lv.1.coeffs.length ≤ n) →
      ∀ poly : DensePolynomial F, poly.coeffs.length ≤ n →
        (pairs.foldl (fun poly lv => poly + lv.1.scale lv.2) poly).coeffs.length ≤ n := by
    intro pairs
    induction pairs with
    | nil => exact fun _ poly hpoly => hpoly
    | cons lv pairs ih =>
      intro hpairs poly hpoly
      rw [List.forall_mem_cons] at hpairs
      apply ih hpairs.2
      exact DensePolynomial.length_add_le hpoly
        ((DensePolynomial.length_scale_le lv.2 lv.1).trans hpairs.1)
  exact hloop _ (fun lv hlv => h lv.1 (List.of_mem_zip hlv).1) 0 (Nat.zero_le n)

omit [Field F] [DecidableEq F] in
theorem length_sliceTo_le {elems slice : List F} {n : Nat} (h : sliceTo elems n = .ok slice) :
    slice.length ≤ elems.length := by
  rw [sliceTo] at h
  split at h
  · cases h
    exact List.length_take_le' n elems
  · cases h

omit [Field F] [DecidableEq F] in
theorem length_sliceFrom_le {elems slice : List F} {n : Nat} (h : sliceFrom elems n = .ok slice) :
    slice.length ≤ elems.length := by
  rw [sliceFrom] at h
  split at h
  · cases h
    rw [List.length_drop]
    exact Nat.sub_le _ _
  · cases h

theorem verifierWellFormationOracles_lengths {info : R1CSfIndex} {public_input output : List F}
    {domain_h : EvaluationDomain F} {oracles : VerifierWellFormationOracles F}
    (h : verifierWellFormationOracles info public_input output domain_h = .ok oracles) :
    ∀ p ∈ oracles.iter, p.coeffs.length ≤ domain_h.size + 1 := by
  obtain ⟨pi_roots, hpi_roots, h⟩ := bind_eq_ok_iff.mp h
  obtain ⟨_, _, h⟩ := bind_eq_ok_iff.mp h
  obtain ⟨output_roots, houtput_roots, h⟩ := bind_eq_ok_iff.mp h
  obtain ⟨pi_bases, hpi, h⟩ := bind_eq_ok_iff.mp h
  obtain ⟨output_bases, houtput, h⟩ := bind_eq_ok_iff.mp h
  obtain ⟨gt_x, hgt_x, h⟩ := bind_eq_ok_iff.mp h
  obtain ⟨_, _, h⟩ := bind_eq_ok_iff.mp h
  obtain ⟨lt_y, hlt_y, h⟩ := bind_eq_ok_iff.mp h
  cases h
  have hpi_len := length_sliceTo_le hpi_roots
  have houtput_len := length_sliceFrom_le houtput_roots
  have hgt_len := length_sliceFrom_le hgt_x
  have hlt_len := length_sliceTo_le hlt_y
  rw [length_elements] at hpi_len houtput_len hgt_len hlt_len
  have hbases : ∀ {points : List F} {bases : List (DensePolynomial F)} (values : List F),
      points.length ≤ domain_h.size → constructLagrangeBasis points = .ok bases →
        (combineBases bases values).coeffs.length ≤ domain_h.size + 1 := by
    intro points bases values hlen hbases
    apply length_combineBases_le
    intro l hl
    exact (length_constructLagrangeBasis_le hbases l hl).trans (Nat.succ_le_succ hlen)
  have hvanishing : ∀ {points : List F}, points.length ≤ domain_h.size →
      (constructVanishing points).coeffs.length ≤ domain_h.size + 1 :=
    fun hlen => (length_constructVanishing_le _).trans (Nat.succ_le_succ hlen)
  rw [VerifierWellFormationOracles.iter, List.forall_mem_cons, List.forall_mem_cons,
    List.forall_mem_cons, List.forall_mem_singleton]
  exact ⟨hbases public_input hpi_len hpi, hvanishing hgt_len, hbases output houtput_len houtput,
    hvanishing hlt_len⟩

end WellFormationLengths

/-! ### The two proofs of `zero_over_k` -/

section Combinations

omit [DecidableEq F] in
theorem degreeBound_rationalSumcheck (first : VerifierFirstMsg F) (second : VerifierSecondMsg F)
    (domain : EvaluationDomain F) (d : Nat) :
    (RationalSumcheckOracle.combineFunction first second domain).degreeBound d = 7 * d := by
  simp only [RationalSumcheckOracle.combineFunction, RationalSumcheckOracle.denom,
    ZeroOverK.CombineFunction.degreeBound]
  omega

omit [Field F] [DecidableEq F] in
theorem degreeBound_wellFormation (separation_challenge : F) (d : Nat) :
    (wellFormationCombine separation_challenge).degreeBound d = 2 * d := by
  simp only [wellFormationCombine, ZeroOverK.CombineFunction.degreeBound]
  omega

end Combinations

/-! ### The degree of the keys -/

section Supported

variable {params : EvaluationDomain.FftParameters F} {info : R1CSfIndex}
  {domain_h domain_k : EvaluationDomain F} {p : FunctionRelation.LabeledPolynomial F}

omit [DecidableEq F] in
theorem maxDegree_eq (hdomains : indexDomains params info = .ok (domain_k, domain_h)) :
    maxDegree info = max (3 * domain_h.size + 1) (6 * domain_k.size + 7) := by
  obtain ⟨hk, hh, _⟩ := radix2Domain_of_indexDomains hdomains
  rw [params.radix2Domain_size hk, params.radix2Domain_size hh]
  rfl

omit [DecidableEq F] in
theorem getDegreeBounds_eq (hdomains : indexDomains params info = .ok (domain_k, domain_h)) :
    getDegreeBounds info = [domain_h.size - 2, domain_k.size - 2, 2, domain_k.size + 1] := by
  obtain ⟨hk, hh, _⟩ := radix2Domain_of_indexDomains hdomains
  rw [params.radix2Domain_size hk, params.radix2Domain_size hh]
  rfl

theorem getDegreeBounds_le_maxDegree {bound : Nat} (h : bound ∈ getDegreeBounds info) :
    bound ≤ maxDegree info := by
  simp only [getDegreeBounds, List.mem_cons, List.not_mem_nil, or_false] at h
  rw [maxDegree]
  omega

omit [Field F] [DecidableEq F] in
theorem supported_of_none (hbound : p.degreeBound = none)
    (hdegree : degree p.polynomial ≤ maxDegree info) : Supported info p := by
  refine ⟨hdegree, ?_, ?_⟩
  · rw [hbound]
    exact fun bound hmem => absurd hmem (Option.not_mem_none bound)
  · rw [hbound]
    exact fun bound hmem => absurd hmem (Option.not_mem_none bound)

omit [Field F] [DecidableEq F] in
theorem supported_of_some {bound : Nat} (hbound : p.degreeBound = some bound)
    (henforced : bound ∈ getDegreeBounds info) (hdegree : degree p.polynomial ≤ bound) :
    Supported info p := by
  refine ⟨hdegree.trans (getDegreeBounds_le_maxDegree henforced), ?_, ?_⟩
  · rw [hbound]
    rintro _ ⟨⟩
    exact henforced
  · rw [hbound]
    rintro _ ⟨⟩
    exact hdegree

theorem supported_zeroOverK {vo : ZeroOverK.GenericShiftingVO F} {domain : EvaluationDomain F}
    {oracles : List (DensePolynomial F)} {rng : Nat → F × F} {first : ZeroOverK.ProverFirstOracles F}
    (h : ZeroOverK.proverFirstRound oracles none vo domain rng = .ok first)
    (horacles : ∀ oracle ∈ oracles, oracle.coeffs.length ≤ domain.size + 2)
    (hmask : domain.size + 1 ≤ maxDegree info)
    (hquotient : vo.combineFunction.degreeBound (domain.size + 1) - domain.size ≤ maxDegree info) :
    ∀ p ∈ first.iter, Supported info p := by
  obtain ⟨hrandom, hmasking, hq_1, hq_1_bound⟩ :=
    ZeroOverK.proverFirstRound_lengths h (Nat.le_refl _) horacles
  intro p hp
  rw [ZeroOverK.ProverFirstOracles.iter, List.mem_append, List.mem_append, List.mem_singleton] at hp
  obtain (hp | hp) | rfl := hp
  · obtain ⟨hlen, hbound⟩ := hmasking p hp
    apply supported_of_none hbound
    rw [degree]
    omega
  · obtain ⟨hlen, hbound⟩ := hrandom p hp
    apply supported_of_some hbound
    · simp [getDegreeBounds]
    · rw [degree]
      omega
  · apply supported_of_none hq_1_bound
    rw [degree]
    omega

theorem length_indexPolynomials_le {idx : Index F} {a b c : Matrix F}
    (hindex : index params info a b c = .ok idx)
    (hdomains : indexDomains params info = .ok (domain_k, domain_h)) (bound : Option Nat) :
    ∀ p ∈ indexPolynomials idx bound,
      p.polynomial.coeffs.length ≤ domain_k.size ∧ p.degreeBound = bound := by
  obtain ⟨ha, hb, hc⟩ := index_eq_ok hindex hdomains
  obtain ⟨har, hac, hav⟩ := arithmetizeMatrix_length ha
  obtain ⟨hbr, hbc, hbv⟩ := arithmetizeMatrix_length hb
  obtain ⟨hcr, hcc, hcv⟩ := arithmetizeMatrix_length hc
  simp only [indexPolynomials, FunctionRelation.matrixPolynomials, List.cons_append, List.nil_append,
    List.forall_mem_cons, List.not_mem_nil, false_implies, implies_true, and_true]
  exact ⟨har, hac, hav, hbr, hbc, hbv, hcr, hcc, hcv⟩

omit [DecidableEq F] in
theorem proverInit_domains {idx : Index F} {z : List F} {state : ProverState F}
    (h : proverInit params idx z = .ok state) :
    indexDomains params idx.indexInfo = .ok (state.domainK, state.domainH) := by
  obtain ⟨_, _, h⟩ := bind_eq_ok_iff.mp h
  obtain ⟨_, _, h⟩ := bind_eq_ok_iff.mp h
  obtain ⟨⟨domain_k, domain_h⟩, hdomains, h⟩ := bind_eq_ok_iff.mp h
  obtain ⟨_, _, h⟩ := bind_eq_ok_iff.mp h
  obtain ⟨_, _, h⟩ := bind_eq_ok_iff.mp h
  obtain ⟨_, _, h⟩ := bind_eq_ok_iff.mp h
  cases h
  exact hdomains

omit [DecidableEq F] in
theorem supported_firstRound {oracles : ProverFirstOracles F}
    (hdomains : indexDomains params info = .ok (domain_k, domain_h))
    (hlengths : FirstRoundLengths domain_h 1 oracles)
    (hinner : oracles.innerMaskPoly.coeffs.length ≤ domain_k.size) :
    ∀ p ∈ oracles.labeled, Supported info p := by
  obtain ⟨hz, hzA, hzB, hmask⟩ := hlengths
  have hmax := maxDegree_eq hdomains
  have hmasked : ∀ p : DensePolynomial F, p.coeffs.length ≤ domain_h.size + 1 →
      degree p ≤ maxDegree info := by
    intro p hlen
    rw [degree]
    omega
  simp only [ProverFirstOracles.labeled, List.forall_mem_cons, List.not_mem_nil, false_implies,
    implies_true, and_true]
  refine ⟨?_, ?_, ?_, ?_, ?_⟩
  · exact supported_of_none rfl (hmasked _ hz)
  · exact supported_of_none rfl (hmasked _ hzA)
  · exact supported_of_none rfl (hmasked _ hzB)
  · apply supported_of_none rfl
    dsimp only [degree]
    omega
  · apply supported_of_none rfl
    dsimp only [degree]
    omega

omit [DecidableEq F] in
theorem supported_secondRound {oracles : ProverSecondOracles F}
    (hdomains : indexDomains params info = .ok (domain_k, domain_h))
    (ht : oracles.t.coeffs.length ≤ domain_h.size)
    (hg_1 : degree oracles.g1 ≤ domain_h.size - 2)
    (hh_1 : degree oracles.h1 ≤ 2 * domain_h.size + 1) :
    ∀ p ∈ oracles.labeled domain_h, Supported info p := by
  have hmax := maxDegree_eq hdomains
  have hbounds := getDegreeBounds_eq hdomains
  simp only [ProverSecondOracles.labeled, List.forall_mem_cons, List.not_mem_nil, false_implies,
    implies_true, and_true]
  refine ⟨?_, ?_, ?_⟩
  · apply supported_of_none rfl
    dsimp only [degree]
    omega
  · apply supported_of_some rfl _ hg_1
    simp [hbounds]
  · apply supported_of_none rfl
    dsimp only
    omega

omit [DecidableEq F] in
theorem supported_thirdRound {oracles : ProverThirdOracles F}
    (hdomains : indexDomains params info = .ok (domain_k, domain_h))
    (hf : oracles.f.coeffs.length ≤ domain_k.size)
    (hg_2 : oracles.g2.coeffs.length ≤ domain_k.size - 1) :
    ∀ p ∈ oracles.labeled domain_k, Supported info p := by
  have hmax := maxDegree_eq hdomains
  have hbounds := getDegreeBounds_eq hdomains
  simp only [ProverThirdOracles.labeled, List.forall_mem_cons, List.not_mem_nil, false_implies,
    implies_true, and_true]
  refine ⟨?_, ?_⟩
  · apply supported_of_none rfl
    dsimp only [degree]
    omega
  · apply supported_of_some rfl
    · simp [hbounds]
    · dsimp only [degree]
      omega

theorem supported_rationalSumcheck {idx : Index F} {a b c : Matrix F} {f : DensePolynomial F}
    {ver_first : VerifierFirstMsg F} {ver_second : VerifierSecondMsg F}
    {vo : ZeroOverK.GenericShiftingVO F} {rng : Nat → F × F} {first : ZeroOverK.ProverFirstOracles F}
    (hindex : index params info a b c = .ok idx)
    (hdomains : indexDomains params info = .ok (domain_k, domain_h))
    (hvo : rationalSumcheckVO ver_first ver_second domain_k = .ok vo)
    (hf : f.coeffs.length ≤ domain_k.size)
    (h : ZeroOverK.proverFirstRound (rationalSumcheckOracles idx f) none vo domain_k rng = .ok first) :
    ∀ p ∈ first.iter, Supported info p := by
  have hmax := maxDegree_eq hdomains
  apply supported_zeroOverK h
  · obtain ⟨ha, hb, hc⟩ := index_eq_ok hindex hdomains
    obtain ⟨har, hac, hav⟩ := arithmetizeMatrix_length ha
    obtain ⟨hbr, hbc, hbv⟩ := arithmetizeMatrix_length hb
    obtain ⟨hcr, hcc, hcv⟩ := arithmetizeMatrix_length hc
    have hall : ∀ oracle ∈ rationalSumcheckOracles idx f, oracle.coeffs.length ≤ domain_k.size := by
      simp only [rationalSumcheckOracles, List.forall_mem_cons, List.not_mem_nil, false_implies,
        implies_true, and_true]
      exact ⟨har, hac, hav, hbr, hbc, hbv, hcr, hcc, hcv, hf⟩
    exact fun oracle hmem => (hall oracle hmem).trans (Nat.le_add_right _ 2)
  · omega
  · rw [rationalSumcheckVO_eq_ok] at hvo
    cases hvo
    -- 7 * (|K| + 1) - |K| is the second closed form
    rw [degreeBound_rationalSumcheck]
    omega

theorem supported_wellFormation {z : DensePolynomial F} {oracles : VerifierWellFormationOracles F}
    {separation_challenge : F} {vo : ZeroOverK.GenericShiftingVO F} {rng : Nat → F × F}
    {first : ZeroOverK.ProverFirstOracles F}
    (hdomains : indexDomains params info = .ok (domain_k, domain_h))
    (hvo : wellFormationVO separation_challenge = .ok vo)
    (hz : z.coeffs.length ≤ domain_h.size + 1)
    (horacles : ∀ p ∈ oracles.iter, p.coeffs.length ≤ domain_h.size + 1)
    (h : ZeroOverK.proverFirstRound (wellFormationOracles z oracles) none vo domain_h rng =
      .ok first) :
    (∀ p ∈ oracles.labeled, Supported info p) ∧ ∀ p ∈ first.iter, Supported info p := by
  have hmax := maxDegree_eq hdomains
  have hpos := domain_h.size_pos
  constructor
  · have hdegree : ∀ p ∈ oracles.iter, degree p ≤ maxDegree info := by
      intro p hp
      have hlen := horacles p hp
      rw [degree]
      omega
    rw [VerifierWellFormationOracles.iter, List.forall_mem_cons, List.forall_mem_cons,
      List.forall_mem_cons, List.forall_mem_singleton] at hdegree
    obtain ⟨hx, hgt_x, hy, hlt_y⟩ := hdegree
    simp only [VerifierWellFormationOracles.labeled, List.forall_mem_cons, List.not_mem_nil,
      false_implies, implies_true, and_true]
    exact ⟨supported_of_none rfl hx, supported_of_none rfl hgt_x, supported_of_none rfl hy,
      supported_of_none rfl hlt_y⟩
  · apply supported_zeroOverK h
    · rw [wellFormationOracles, List.forall_mem_cons]
      exact ⟨hz.trans (Nat.le_succ _), fun p hp => (horacles p hp).trans (Nat.le_succ _)⟩
    · omega
    · rw [wellFormationVO_eq_ok] at hvo
      cases hvo
      rw [degreeBound_wellFormation]
      omega

/-- Whatever the prover draws and the verifier asks, the keys support every polynomial. -/
theorem universal_setup_degree_sufficient {idx : Index F} {a b c : Matrix F}
    (hindex : index params info a b c = .ok idx)
    (hdomains : indexDomains params info = .ok (domain_k, domain_h)) :
    (∀ p ∈ indexPolynomials idx (some (domain_k.size + 1)), Supported info p) ∧
    ∀ assignment zk_rng msgs polys,
      committedPolynomials params idx assignment zk_rng msgs = .ok polys →
        ∀ p ∈ polys, Supported info p := by
  constructor
  · intro p hp
    obtain ⟨hlen, hbound⟩ := length_indexPolynomials_le hindex hdomains _ p hp
    apply supported_of_some hbound
    · simp [getDegreeBounds_eq hdomains]
    · rw [degree]
      omega
  · intro assignment zk_rng msgs polys h
    obtain ⟨hinfo, _⟩ := index_fields hindex
    obtain ⟨state, hinit, h⟩ := bind_eq_ok_iff.mp h
    rw [mapError_eq_ok_iff] at hinit
    obtain ⟨_, _, hzk, _⟩ := proverInit_eq_ok hinit
    have hstate := proverInit_domains hinit
    rw [hinfo, hdomains] at hstate
    cases hstate
    obtain ⟨⟨first, state₁⟩, hfirst, h⟩ := bind_eq_ok_iff.mp h
    obtain ⟨hlengths, hinner, rfl⟩ :=
      proverFirstRound_lengths (hzk ▸ Nat.one_pos) (mapError_eq_ok_iff.mp hfirst)
    obtain ⟨⟨second, state₂⟩, hsecond, h⟩ := bind_eq_ok_iff.mp h
    obtain ⟨ht, hg_1, hh_1, rfl⟩ :=
      proverSecondRound_degrees (hzk ▸ Nat.one_pos) hlengths (mapError_eq_ok_iff.mp hsecond)
    rw [hzk] at hlengths hh_1
    obtain ⟨⟨third, state₃⟩, hthird, h⟩ := bind_eq_ok_iff.mp h
    obtain ⟨hf, hg_2, rfl⟩ := proverThirdRound_lengths (mapError_eq_ok_iff.mp hthird) rfl hinner
    obtain ⟨rational_sumcheck_vo, hrational_vo, h⟩ := bind_eq_ok_iff.mp h
    obtain ⟨rational_sumcheck, hrational, h⟩ := bind_eq_ok_iff.mp h
    obtain ⟨well_formation_oracles, horacles, h⟩ := bind_eq_ok_iff.mp h
    obtain ⟨well_formation_vo, hwell_vo, h⟩ := bind_eq_ok_iff.mp h
    obtain ⟨well_formation, hwell, h⟩ := bind_eq_ok_iff.mp h
    cases h
    obtain ⟨hwell_oracles, hwell_first⟩ := supported_wellFormation hdomains
      (mapError_eq_ok_iff.mp hwell_vo) hlengths.z
      (verifierWellFormationOracles_lengths (mapError_eq_ok_iff.mp horacles))
      (mapError_eq_ok_iff.mp hwell)
    simp only [List.forall_mem_append]
    refine ⟨⟨⟨⟨⟨?_, ?_⟩, ?_⟩, ?_⟩, hwell_oracles⟩, hwell_first⟩
    · exact supported_firstRound hdomains hlengths hinner
    · exact supported_secondRound hdomains ht hg_1 hh_1
    · exact supported_thirdRound hdomains hf hg_2
    · exact supported_rationalSumcheck hindex hdomains (mapError_eq_ok_iff.mp hrational_vo) hf
        (mapError_eq_ok_iff.mp hrational)

end Supported

/-! ### A run that needs the whole degree -/

section Seventeen

def info17 : R1CSfIndex := ⟨2, 1, 1, 2⟩

/-- `z_1 = z_0 * z_0` over seventeen elements, both domains of size two. -/
def index17 : Except Error (Index (ZMod 17)) :=
  index params17 info17 [[], [(1, 0)]] [[], [(1, 0)]] [[], [(1, 1)]]

def ones : ProverRng (ZMod 17) := ⟨fun _ => 1, fun _ => (1, 1), fun _ => (1, 1)⟩

def msgs17 : VerifierMsgs (ZMod 17) := ⟨⟨8, 1, 7, 4⟩, ⟨5⟩, 6⟩

theorem exists_committedPolynomials17 : ∃ idx polys, index17 = .ok idx ∧
    committedPolynomials params17 idx [1, 1] ones msgs17 = .ok polys ∧
    ∃ p ∈ polys, degree p.polynomial = maxDegree info17 := by
  have hrun : ((index17.mapError .ahpError >>= fun idx =>
      committedPolynomials params17 idx [1, 1] ones msgs17).toOption.any fun polys =>
        polys.any fun p => degree p.polynomial == maxDegree info17) = true := by
    decide +kernel
  obtain ⟨polys, hcommitted, hfull⟩ := exists_of_any hrun
  obtain ⟨p, hp, hdegree⟩ := List.any_eq_true.mp hfull
  obtain ⟨idx, hidx, hpolys⟩ := bind_eq_ok_iff.mp hcommitted
  exact ⟨idx, polys, mapError_eq_ok_iff.mp hidx, hpolys, p, hp, eq_of_beq hdegree⟩

/-- The keys support the run, and the quotient of its rational sumcheck has their degree. -/
theorem universal_setup_degree_sufficient_seventeen : ∃ idx domain_k domain_h polys,
    index17 = .ok idx ∧ indexDomains params17 info17 = .ok (domain_k, domain_h) ∧
    (∀ p ∈ indexPolynomials idx (some (domain_k.size + 1)), Supported info17 p) ∧
    committedPolynomials params17 idx [1, 1] ones msgs17 = .ok polys ∧
    (∀ p ∈ polys, Supported info17 p) ∧
    ∃ p ∈ polys, degree p.polynomial = maxDegree info17 := by
  obtain ⟨idx, polys, hidx, hpolys, hfull⟩ := exists_committedPolynomials17
  obtain ⟨⟨domain_k, domain_h⟩, hdomains, _⟩ := bind_eq_ok_iff.mp hidx
  obtain ⟨hindex, hprover⟩ := universal_setup_degree_sufficient hidx hdomains
  exact ⟨idx, domain_k, domain_h, polys, hidx, hdomains, hindex, hpolys,
    hprover [1, 1] ones msgs17 polys hpolys, hfull⟩

end Seventeen

end Lootbox.IndexPrivateMarlin

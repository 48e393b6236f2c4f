import Lootbox.Commitment.IdealVerifiers

/-!
# `proof_of_function_relation`: completeness

The provers succeed on strictly lower triangular matrices, and what they commit to passes every
check of the verifiers.
-/

namespace Lootbox

namespace FunctionRelation

open ZeroOverK

variable {F R : Type} [Field F] [DecidableEq F]

omit [DecidableEq F] in
theorem fft_eq {domain : EvaluationDomain F} {p : DensePolynomial F}
    (h : p.coeffs.length ≤ domain.size) :
    fft domain p.coeffs = domain.elements.map p.evaluate := by
  rw [fft, List.take_of_length_le h]

/-! ### The geometric sequence test -/

section GeoSeq

variable (setup : IdealSetup F R) {domain : EvaluationDomain F} {r v p : F} {n : Nat}
  {bound : Option Nat}

theorem GeoSeqTest.complete {f : LabeledPolynomial F} (hpos : 0 < n) (hn : n ≤ domain.size)
    (hf : ∀ j < domain.size, f.polynomial.evaluate (domain.element j) = segmentValue r v p n j)
    (hbound : f.degreeBound = bound)
    (hsupported : checkSupportedDegree bound setup.supportedDegree = .ok ()) (rng : R) :
    ∃ proof rng', GeoSeqTest.prove (idealScheme setup) r f (commitTo f) ()
        (segments domain.size v p n).1 (segments domain.size v p n).2 domain rng = .ok (proof, rng') ∧
      ∀ c : LabeledCommitment (DensePolynomial F), c.commitment = f.polynomial →
        GeoSeqTest.verify (idealScheme setup) r (segments domain.size v p n).1
          (segments domain.size v p n).2 domain c bound proof = .ok () := by
  have halpha : domain.element 1 ≠ 0 := pow_ne_zero 1 domain.groupGen_ne_zero
  have hfits := shiftVO_fits halpha (ProofOfFunctionRelation.geometricSeqCheck_termsBelow r
    (domain.element 1) (segments domain.size v p n).2) (geometricSeqCheck_hasTerm _ _)
  obtain ⟨z_proof, rng', hprove⟩ : ∃ z_proof rng', (idealScheme setup).proveZeroOverK [f] [commitTo f]
      [()] f.degreeBound (shiftVO (domain.element 1) (CombineFunction.geometricSeqCheck r
        (domain.element 1) (segments domain.size v p n).2)) domain rng = .ok (z_proof, rng') :=
    exists_proveZeroOverK setup hfits (hbound ▸ hsupported) rfl (by simp [commitTo]) [()] rng
  refine ⟨⟨z_proof, ()⟩, rng', ?_, ?_⟩
  · rw [GeoSeqTest.prove, geoSeq_vo_eq, ok_bind]
    show ((idealScheme setup).proveZeroOverK [f] [commitTo f] [()] f.degreeBound _ domain rng >>=
      _) = _
    rw [hprove]
    rfl
  · intro c hc
    rw [GeoSeqTest.verify_ideal_iff setup hpos hn, hc]
    exact hf

end GeoSeq

/-! ### Presets on committed oracles -/

section Presets

variable (setup : IdealSetup F R) {domain : EvaluationDomain F} {bound : Option Nat}
  {f g h : LabeledPolynomial F} {f_commit g_commit h_commit : LabeledCommitment (DensePolynomial F)}
  {combine : CombineFunction F}

theorem exists_provePair (hterms : combine.termsBelow 3 = true) (hreads : combine.hasTerm = true)
    (hsupported : checkSupportedDegree bound setup.supportedDegree = .ok ())
    (hf : f_commit.label = f.label ∧ f_commit.degreeBound = bound)
    (hg : g_commit.label = g.label ∧ g_commit.degreeBound = bound) (rng : R) :
    ∃ proof rng', (idealScheme setup).proveZeroOverK [f, g] [f_commit, g_commit] [(), ()] bound
      (pairVO combine) domain rng = .ok (proof, rng') := by
  apply exists_proveZeroOverK setup (pairVO_fits hterms hreads) hsupported
  · simp [hf.1, hg.1]
  · simp [hf.2, hg.2]

theorem exists_proveTriple (hterms : combine.termsBelow 4 = true) (hreads : combine.hasTerm = true)
    (hsupported : checkSupportedDegree bound setup.supportedDegree = .ok ())
    (hf : f_commit.label = f.label ∧ f_commit.degreeBound = bound)
    (hg : g_commit.label = g.label ∧ g_commit.degreeBound = bound)
    (hh : h_commit.label = h.label ∧ h_commit.degreeBound = bound) (rng : R) :
    ∃ proof rng', (idealScheme setup).proveZeroOverK [f, g, h] [f_commit, g_commit, h_commit]
      [(), (), ()] bound (tripleVO combine) domain rng = .ok (proof, rng') := by
  apply exists_proveZeroOverK setup (tripleVO_fits hterms hreads) hsupported
  · simp [hf.1, hg.1, hh.1]
  · simp [hf.2, hg.2, hh.2]

variable (domain) in
theorem exists_prove_square (f g : LabeledPolynomial F)
    (hsupported : checkSupportedDegree bound setup.supportedDegree = .ok ())
    (hf : f.degreeBound = bound) (hg : g.degreeBound = bound) (rng : R) :
    ∃ proof rng', (idealScheme setup).proveZeroOverK [f, g] [commitTo f, commitTo g] [(), ()] bound
      (pairVO CombineFunction.squareCheck) domain rng = .ok (proof, rng') :=
  exists_provePair setup rfl rfl hsupported ⟨rfl, hf⟩ ⟨rfl, hg⟩ rng

end Presets

/-! ### The nonzero test -/

section NonZero

variable (setup : IdealSetup F R) {domain : EvaluationDomain F} {bound : Option Nat}
  {f : LabeledPolynomial F} {f_commit : LabeledCommitment (DensePolynomial F)}

variable (f_commit) in
theorem NonZeroOverK.complete (hlen : f.polynomial.coeffs.length ≤ domain.size)
    (hne : ∀ x ∈ domain.elements, f.polynomial.evaluate x ≠ 0) (hbound : f.degreeBound = bound)
    (hcommit : f_commit.label = f.label ∧ f_commit.degreeBound = bound)
    (hsupported : checkSupportedDegree bound setup.supportedDegree = .ok ()) (rng : R) :
    ∃ proof rng', NonZeroOverK.prove (idealScheme setup) domain f f_commit () rng = .ok (proof, rng') ∧
      ∀ c : DensePolynomial F, (∀ x ∈ domain.elements, c.evaluate x = f.polynomial.evaluate x) →
        NonZeroOverK.verify (idealScheme setup) domain c bound proof = .ok () := by
  have hfft := fft_eq hlen
  have hnotmem : (0 : F) ∉ domain.elements.map f.polynomial.evaluate := by
    intro hmem
    obtain ⟨x, hx, hzero⟩ := List.mem_map.mp hmem
    exact hne x hx hzero
  have hround : NonZeroOverK.proverFirstRound domain f = .ok ⟨"g", domain.interpolate
      ((domain.elements.map f.polynomial.evaluate).map (·⁻¹)), f.degreeBound⟩ := by
    rw [NonZeroOverK.proverFirstRound, hfft]
    dsimp only
    rw [if_neg hnotmem]
    rfl
  have hg : ∀ x ∈ domain.elements, (domain.interpolate
      ((domain.elements.map f.polynomial.evaluate).map (·⁻¹))).evaluate x =
        (f.polynomial.evaluate x)⁻¹ := by
    intro x hx
    rw [List.map_map]
    exact domain.evaluate_interpolate_map _ hx
  obtain ⟨g, hgdef⟩ : ∃ g : LabeledPolynomial F, g = ⟨"g", domain.interpolate
      ((domain.elements.map f.polynomial.evaluate).map (·⁻¹)), f.degreeBound⟩ := ⟨_, rfl⟩
  have hgbound : g.degreeBound = bound := by rw [hgdef, hbound]
  obtain ⟨z_proof, rng', hprove⟩ : ∃ z_proof rng', (idealScheme setup).proveZeroOverK [f, g]
      [f_commit, commitTo g] [(), ()] bound (pairVO CombineFunction.inverseCheck) domain rng =
        .ok (z_proof, rng') :=
    exists_provePair setup rfl rfl hsupported hcommit ⟨rfl, hgbound⟩ rng
  refine ⟨⟨g.polynomial, z_proof⟩, rng', ?_, ?_⟩
  · rw [NonZeroOverK.prove, hround, ← hgdef, ok_bind, newVO_pair, hbound]
    show ((idealScheme setup).proveZeroOverK [f, g] [f_commit, commitTo g] [(), ()] bound _ domain
      rng >>= _) = _
    rw [hprove]
    rfl
  · intro c hc
    rw [NonZeroOverK.verify, newVO_pair, ok_bind]
    apply (verify_inverse_iff setup).mpr
    intro x hx
    rw [hc x hx, hgdef, hg x hx]
    exact mul_inv_cancel₀ (hne x hx)

end NonZero

/-! ### The comparison of discrete logarithms -/

section DiscreteLogs

variable (domain_h : EvaluationDomain F)

/-- The discrete logarithm of an element of `H`. -/
def logOf (y : F) : Nat := (domain_h.elements.zipIdx.lookup y).getD 0

theorem lookup_element {a : Nat} (ha : a < domain_h.size) :
    domain_h.elements.zipIdx.lookup (domain_h.element a) = some a := by
  rw [EvaluationDomain.elements, zipIdx_map_range, lookup_map_eq]
  obtain ⟨i, hi⟩ : ∃ i, ((List.range domain_h.size).find? fun i =>
      domain_h.element i == domain_h.element a) = some i := by
    apply Option.isSome_iff_exists.mp
    rw [List.find?_isSome]
    exact ⟨a, List.mem_range.mpr ha, beq_self_eq_true _⟩
  have heq : domain_h.element i = domain_h.element a := eq_of_beq
    (List.find?_some (p := fun i => domain_h.element i == domain_h.element a) hi)
  have hlt := List.mem_range.mp (List.mem_of_find?_eq_some hi)
  rw [hi, domain_h.element_injective hlt ha heq]
  rfl

theorem logOf_element {a : Nat} (ha : a < domain_h.size) : logOf domain_h (domain_h.element a) = a := by
  rw [logOf, lookup_element domain_h ha]
  rfl

theorem primeEvals_eq {v : F → F} {xs : List F} (delta : F)
    (h : ∀ x ∈ xs, ∃ a < domain_h.size, v x = domain_h.element a) :
    DLComparison.primeEvals domain_h delta (xs.map v) =
      .ok (xs.map fun x => delta ^ logOf domain_h (v x)) := by
  rw [DLComparison.primeEvals, List.mapM_map]
  apply mapM_eq_ok_map
  intro x hx
  obtain ⟨a, ha, hv⟩ := h x hx
  rw [Function.comp, hv, lookup_element domain_h ha, logOf_element domain_h ha, need_some, ok_bind]
  rfl

omit [DecidableEq F] in
theorem element_mul_inv {a b : Nat} (hlt : b < a) :
    domain_h.element a * (domain_h.element b)⁻¹ = domain_h.element (a - b) := by
  have hne : domain_h.element b ≠ 0 := pow_ne_zero b domain_h.groupGen_ne_zero
  rw [mul_inv_eq_iff_eq_mul₀ hne, EvaluationDomain.element, EvaluationDomain.element,
    EvaluationDomain.element, ← pow_add, Nat.sub_add_cancel (Nat.le_of_lt hlt)]

end DiscreteLogs

/-- The entries that two polynomials encode lie strictly below the diagonal. -/
def EncodesLower (domain_k domain_h : EvaluationDomain F) (row col : DensePolynomial F) : Prop :=
  ∀ x ∈ domain_k.elements, ∃ a b, b < a ∧ a < domain_h.size ∧
    row.evaluate x = domain_h.element a ∧ col.evaluate x = domain_h.element b

section FirstRound

variable {roots : ProofOfFunctionRelation.SquareRootField F} {domain_k domain_h : EvaluationDomain F}
  {f g : LabeledPolynomial F} {bound : Option Nat} {delta : F}

/-- The oracles of the prover on an entry of row `a` and column `b`. -/
structure RoundAt (round : DLComparison.ProverFirstRound F) (domain_h : EvaluationDomain F)
    (delta : F) (f g : DensePolynomial F) (x : F) (a b : Nat) : Prop where
  lt : b < a
  row_lt : a < domain_h.size
  f : f.evaluate x = domain_h.element a
  g : g.evaluate x = domain_h.element b
  s : round.oracles.s.polynomial.evaluate x = domain_h.element (a - b)
  fPrime : round.oracles.fPrime.polynomial.evaluate x = delta ^ a
  gPrime : round.oracles.gPrime.polynomial.evaluate x = delta ^ b
  sPrime : round.oracles.sPrime.polynomial.evaluate x = delta ^ (a - b)

structure RoundSpec (round : DLComparison.ProverFirstRound F) (domain_k domain_h : EvaluationDomain F)
    (delta : F) (f g : DensePolynomial F) (bound : Option Nat) : Prop where
  sequence : (round.aS, round.cS) = segments domain_k.size 1 0 domain_h.size
  delta_eq : round.delta = delta
  labels : round.oracles.s.label = "s" ∧ round.oracles.fPrime.label = "f_prime" ∧
    round.oracles.gPrime.label = "g_prime" ∧ round.oracles.sPrime.label = "s_prime" ∧
    round.oracles.h.label = "h"
  oracles : ∀ p ∈ [round.oracles.s, round.oracles.fPrime, round.oracles.gPrime,
    round.oracles.sPrime, round.oracles.h], p.degreeBound = bound ∧
      p.polynomial.coeffs.length ≤ domain_k.size
  at_entry : ∀ x ∈ domain_k.elements, ∃ a b, RoundAt round domain_h delta f g x a b
  h : ∀ j < domain_k.size, round.oracles.h.polynomial.evaluate (domain_k.element j) =
    segmentValue delta 1 0 domain_h.size j

namespace EncodesLower

variable (hlower : EncodesLower domain_k domain_h f.polynomial g.polynomial)

include hlower

omit [DecidableEq F] in
theorem row {x : F} (hx : x ∈ domain_k.elements) :
    ∃ a < domain_h.size, f.polynomial.evaluate x = domain_h.element a := by
  obtain ⟨a, _, _, ha, hfx, _⟩ := hlower x hx
  exact ⟨a, ha, hfx⟩

omit [DecidableEq F] in
theorem col {x : F} (hx : x ∈ domain_k.elements) :
    ∃ b < domain_h.size, g.polynomial.evaluate x = domain_h.element b := by
  obtain ⟨a, b, hlt, ha, _, hgx⟩ := hlower x hx
  exact ⟨b, by omega, hgx⟩

omit [DecidableEq F] in
theorem quotient {x : F} (hx : x ∈ domain_k.elements) : ∃ c < domain_h.size,
    f.polynomial.evaluate x * (g.polynomial.evaluate x)⁻¹ = domain_h.element c := by
  obtain ⟨a, b, hlt, ha, hfx, hgx⟩ := hlower x hx
  exact ⟨a - b, by omega, by rw [hfx, hgx, element_mul_inv domain_h hlt]⟩

theorem quotients_eq : (((domain_k.elements.map f.polynomial.evaluate).zip
      (domain_k.elements.map g.polynomial.evaluate)).mapM fun (x : F × F) =>
        if x.2 = 0 then (.error .aborted : Except Error F) else .ok (x.1 * x.2⁻¹)) =
      .ok (domain_k.elements.map fun x =>
        f.polynomial.evaluate x * (g.polynomial.evaluate x)⁻¹) := by
  rw [List.zip_map', List.mapM_map]
  apply mapM_eq_ok_map
  intro x hx
  obtain ⟨b, _, hgx⟩ := hlower.col hx
  have hne : g.polynomial.evaluate x ≠ 0 := by
    rw [hgx]
    exact pow_ne_zero b domain_h.groupGen_ne_zero
  rw [Function.comp]
  exact if_neg hne

end EncodesLower

/-- The first round on entries below the diagonal. -/
def lowerRound (domain_k domain_h : EvaluationDomain F) (delta : F) (f g : DensePolynomial F)
    (bound : Option Nat) : DLComparison.ProverFirstRound F where
  oracles :=
    { s := ⟨"s", domain_k.interpolate (domain_k.elements.map fun x =>
        f.evaluate x * (g.evaluate x)⁻¹), bound⟩
      fPrime := ⟨"f_prime", domain_k.interpolate (domain_k.elements.map fun x =>
        delta ^ logOf domain_h (f.evaluate x)), bound⟩
      gPrime := ⟨"g_prime", domain_k.interpolate (domain_k.elements.map fun x =>
        delta ^ logOf domain_h (g.evaluate x)), bound⟩
      sPrime := ⟨"s_prime", domain_k.interpolate (domain_k.elements.map fun x =>
        delta ^ logOf domain_h (f.evaluate x * (g.evaluate x)⁻¹)), bound⟩
      h := ⟨"h", domain_k.interpolate ((List.range domain_k.size).map
        (segmentValue delta 1 0 domain_h.size)), bound⟩ }
  aS := (segments domain_k.size (1 : F) 0 domain_h.size).1
  cS := (segments domain_k.size (1 : F) 0 domain_h.size).2
  delta := delta

theorem proverFirstRound_eq (hdelta : roots.sqrt (domain_h.element 1) = some delta)
    (hsize : domain_h.size ≤ domain_k.size) (hf : f.polynomial.coeffs.length ≤ domain_k.size)
    (hg : g.polynomial.coeffs.length ≤ domain_k.size)
    (hlower : EncodesLower domain_k domain_h f.polynomial g.polynomial) :
    DLComparison.proverFirstRound roots domain_k domain_h f g bound =
      .ok (lowerRound domain_k domain_h delta f.polynomial g.polynomial bound) := by
  simp only [DLComparison.proverFirstRound, hdelta, need_some, ok_bind, fft_eq hf, fft_eq hg]
  rw [hlower.quotients_eq]
  simp only [ok_bind, primeEvals_eq domain_h delta fun x hx => hlower.row hx,
    primeEvals_eq domain_h delta fun x hx => hlower.col hx,
    primeEvals_eq domain_h delta fun x hx => hlower.quotient hx, paddedSequence_eq hsize,
    generateSequence_segments hsize, pure, Except.pure]
  rfl

theorem roundAt_lowerRound {f g : DensePolynomial F} (hlower : EncodesLower domain_k domain_h f g)
    {x : F} (hx : x ∈ domain_k.elements) :
    ∃ a b, RoundAt (lowerRound domain_k domain_h delta f g bound) domain_h delta f g x a b := by
  obtain ⟨a, b, hlt, ha, hfx, hgx⟩ := hlower x hx
  have hsx : f.evaluate x * (g.evaluate x)⁻¹ = domain_h.element (a - b) := by
    rw [hfx, hgx, element_mul_inv domain_h hlt]
  refine ⟨a, b, hlt, ha, hfx, hgx, ?_, ?_, ?_, ?_⟩
  · exact (domain_k.evaluate_interpolate_map _ hx).trans hsx
  · refine (domain_k.evaluate_interpolate_map _ hx).trans ?_
    rw [hfx, logOf_element domain_h ha]
  · refine (domain_k.evaluate_interpolate_map _ hx).trans ?_
    rw [hgx, logOf_element domain_h (by omega)]
  · refine (domain_k.evaluate_interpolate_map _ hx).trans ?_
    rw [hsx, logOf_element domain_h (by omega)]

theorem exists_proverFirstRound (hdelta : roots.sqrt (domain_h.element 1) = some delta)
    (hsize : domain_h.size ≤ domain_k.size) (hf : f.polynomial.coeffs.length ≤ domain_k.size)
    (hg : g.polynomial.coeffs.length ≤ domain_k.size)
    (hlower : EncodesLower domain_k domain_h f.polynomial g.polynomial) :
    ∃ round, DLComparison.proverFirstRound roots domain_k domain_h f g bound = .ok round ∧
      RoundSpec round domain_k domain_h delta f.polynomial g.polynomial bound := by
  refine ⟨_, proverFirstRound_eq hdelta hsize hf hg hlower, ?_⟩
  constructor
  · rfl
  · rfl
  · exact ⟨rfl, rfl, rfl, rfl, rfl⟩
  · simp only [lowerRound, List.forall_mem_cons, List.not_mem_nil, false_implies, implies_true,
      and_true, true_and]
    exact ⟨EvaluationDomain.length_interpolate_le _ _, EvaluationDomain.length_interpolate_le _ _,
      EvaluationDomain.length_interpolate_le _ _, EvaluationDomain.length_interpolate_le _ _,
      EvaluationDomain.length_interpolate_le _ _⟩
  · intro x hx
    exact roundAt_lowerRound hlower hx
  · intro j hj
    exact evaluate_interpolate_segments hj

end FirstRound

section DLComparison

variable (setup : IdealSetup F R) {roots : ProofOfFunctionRelation.SquareRootField F}
  {domain_k domain_h : EvaluationDomain F} {f g : LabeledPolynomial F} {bound : Option Nat} {delta : F}
  {round : DLComparison.ProverFirstRound F}

structure Identities (round : DLComparison.ProverFirstRound F) (f g : DensePolynomial F) (x : F) :
    Prop where
  f_eq : f.evaluate x = round.oracles.fPrime.polynomial.evaluate x *
    round.oracles.fPrime.polynomial.evaluate x
  g_eq : g.evaluate x = round.oracles.gPrime.polynomial.evaluate x *
    round.oracles.gPrime.polynomial.evaluate x
  s_eq : round.oracles.s.polynomial.evaluate x = round.oracles.sPrime.polynomial.evaluate x *
    round.oracles.sPrime.polynomial.evaluate x
  product : round.oracles.fPrime.polynomial.evaluate x = round.oracles.sPrime.polynomial.evaluate x *
    round.oracles.gPrime.polynomial.evaluate x
  fPrime_ne : round.oracles.fPrime.polynomial.evaluate x ≠ 0
  gPrime_ne : round.oracles.gPrime.polynomial.evaluate x ≠ 0
  sPrime_ne : round.oracles.sPrime.polynomial.evaluate x ≠ 0
  s_ne : round.oracles.s.polynomial.evaluate x - 1 ≠ 0

omit [DecidableEq F] in
theorem RoundAt.identities {x : F} {a b : Nat} {f g : DensePolynomial F}
    (h : RoundAt round domain_h delta f g x a b) (hdelta : delta * delta = domain_h.element 1) :
    Identities round f g x := by
  have hsquare : ∀ i, delta ^ i * delta ^ i = domain_h.element i := by
    intro i
    rw [← mul_pow, hdelta, ProofOfFunctionRelation.element_one_pow]
  have hne : delta ≠ 0 := by
    rintro rfl
    rw [zero_mul] at hdelta
    exact pow_ne_zero 1 domain_h.groupGen_ne_zero hdelta.symm
  have hlt := h.lt
  have hrow := h.row_lt
  have hproduct : delta ^ a = delta ^ (a - b) * delta ^ b := by
    rw [← pow_add, Nat.sub_add_cancel (Nat.le_of_lt h.lt)]
  constructor
  · rw [h.f, h.fPrime, hsquare]
  · rw [h.g, h.gPrime, hsquare]
  · rw [h.s, h.sPrime, hsquare]
  · rw [h.fPrime, h.sPrime, h.gPrime, hproduct]
  · rw [h.fPrime]
    exact pow_ne_zero _ hne
  · rw [h.gPrime]
    exact pow_ne_zero _ hne
  · rw [h.sPrime]
    exact pow_ne_zero _ hne
  -- the exponent lies strictly between zero and the order
  rw [h.s, sub_ne_zero]
  intro hone
  have hzero : domain_h.element (a - b) = domain_h.element 0 := by
    rw [hone, EvaluationDomain.element, pow_zero]
  have := domain_h.element_injective (by omega) domain_h.size_pos hzero
  omega

omit [DecidableEq F] in
theorem RoundSpec.identities {f g : DensePolynomial F} (hround : RoundSpec round domain_k domain_h delta f
    g bound) (hdelta : delta * delta = domain_h.element 1) :
    ∀ x ∈ domain_k.elements, Identities round f g x := by
  intro x hx
  obtain ⟨_, _, hat⟩ := hround.at_entry x hx
  exact hat.identities hdelta

/-- The commitments that the prover makes in its first round. -/
def roundCommitments (round : DLComparison.ProverFirstRound F) (bound : Option Nat) :
    List (LabeledCommitment (DensePolynomial F)) :=
  [round.oracles.s, round.oracles.fPrime, round.oracles.gPrime, round.oracles.sPrime,
    round.oracles.h, DLComparison.onePoly bound].map commitTo

theorem aggregate_sMinusOne (hround : RoundSpec round domain_k domain_h delta f.polynomial
    g.polynomial bound) :
    aggregateCommitments (idealScheme setup) (roundCommitments round bound)
        (some ([(), (), (), (), (), ()])) DLComparison.sMinusOneLinearCombination =
      .ok (⟨"s_minus_one", 0 + round.oracles.s.polynomial.scale 1 +
        (DLComparison.onePoly bound).polynomial.scale (-1), bound⟩, ()) := by
  obtain ⟨hs, hf, hg, hs', hh⟩ := hround.labels
  have hbounds := hround.oracles
  simp only [List.forall_mem_cons, List.not_mem_nil, false_implies, implies_true, and_true] at hbounds
  have hone : commitmentOf (roundCommitments round bound) "one" =
      some (commitTo (DLComparison.onePoly bound)) := rfl
  have hsc : commitmentOf (roundCommitments round bound) "s" = some (commitTo round.oracles.s) := by
    simp [commitmentOf, roundCommitments, commitTo, hs, hf, hg, hs', hh, DLComparison.onePoly]
  refine aggregateCommitments_pair rfl (fun _ _ _ => rfl) ?_ ?_ hsc hone
  · intro rands h
    cases h
    rfl
  · simp only [roundCommitments, List.map_cons, List.map_nil, List.forall_mem_cons, commitTo,
      List.not_mem_nil, false_implies, implies_true, and_true]
    exact ⟨hbounds.1.1, hbounds.2.1.1, hbounds.2.2.1.1, hbounds.2.2.2.1.1, hbounds.2.2.2.2.1, rfl⟩

theorem exists_identityProofs (hround : RoundSpec round domain_k domain_h delta f.polynomial
    g.polynomial bound) (hfb : f.degreeBound = bound) (hgb : g.degreeBound = bound)
    (hsupported : checkSupportedDegree bound setup.supportedDegree = .ok ()) (rng : R) :
    ∃ p₁ p₂ p₃ p₄ rng₁ rng₂ rng₃ rng₄,
      (idealScheme setup).proveZeroOverK [f, round.oracles.fPrime]
        [commitTo f, commitTo round.oracles.fPrime] [(), ()] bound
        (pairVO CombineFunction.squareCheck) domain_k rng = .ok (p₁, rng₁) ∧
      (idealScheme setup).proveZeroOverK [g, round.oracles.gPrime]
        [commitTo g, commitTo round.oracles.gPrime] [(), ()] bound
        (pairVO CombineFunction.squareCheck) domain_k rng₁ = .ok (p₂, rng₂) ∧
      (idealScheme setup).proveZeroOverK [round.oracles.s, round.oracles.sPrime]
        [commitTo round.oracles.s, commitTo round.oracles.sPrime] [(), ()] bound
        (pairVO CombineFunction.squareCheck) domain_k rng₂ = .ok (p₃, rng₃) ∧
      (idealScheme setup).proveZeroOverK
        [round.oracles.fPrime, round.oracles.sPrime, round.oracles.gPrime]
        [commitTo round.oracles.fPrime, commitTo round.oracles.sPrime, commitTo round.oracles.gPrime]
        [(), (), ()] bound (tripleVO CombineFunction.abcProductCheck) domain_k rng₃ =
          .ok (p₄, rng₄) := by
  have hbounds := hround.oracles
  simp only [List.forall_mem_cons, List.not_mem_nil, false_implies, implies_true, and_true] at hbounds
  obtain ⟨⟨hsb, _⟩, ⟨hfpb, _⟩, ⟨hgpb, _⟩, ⟨hspb, _⟩, _, _⟩ := hbounds
  obtain ⟨p₁, rng₁, h₁⟩ := exists_prove_square setup domain_k f round.oracles.fPrime hsupported hfb hfpb
    rng
  obtain ⟨p₂, rng₂, h₂⟩ := exists_prove_square setup domain_k g round.oracles.gPrime hsupported hgb hgpb
    rng₁
  obtain ⟨p₃, rng₃, h₃⟩ := exists_prove_square setup domain_k round.oracles.s round.oracles.sPrime
    hsupported hsb hspb rng₂
  obtain ⟨p₄, rng₄, h₄⟩ : ∃ proof rng', (idealScheme setup).proveZeroOverK
      [round.oracles.fPrime, round.oracles.sPrime, round.oracles.gPrime]
      [commitTo round.oracles.fPrime, commitTo round.oracles.sPrime, commitTo round.oracles.gPrime]
      [(), (), ()] bound (tripleVO CombineFunction.abcProductCheck) domain_k rng₃ =
        .ok (proof, rng') :=
    exists_proveTriple setup rfl rfl hsupported ⟨rfl, hfpb⟩ ⟨rfl, hspb⟩ ⟨rfl, hgpb⟩ rng₃
  exact ⟨p₁, p₂, p₃, p₄, rng₁, rng₂, rng₃, rng₄, h₁, h₂, h₃, h₄⟩

/-- `s - 1`, as the prover labels it. -/
def sMinusOne (round : DLComparison.ProverFirstRound F) (bound : Option Nat) : LabeledPolynomial F :=
  ⟨"s_minus_one", round.oracles.s.polynomial - (DLComparison.onePoly bound).polynomial, bound⟩

def sMinusOneCommitment (round : DLComparison.ProverFirstRound F) (bound : Option Nat) :
    LabeledCommitment (DensePolynomial F) :=
  ⟨"s_minus_one", 0 + round.oracles.s.polynomial.scale 1 +
    (DLComparison.onePoly bound).polynomial.scale (-1), bound⟩

theorem evaluate_sMinusOne (x : F) : (sMinusOne round bound).polynomial.evaluate x =
    round.oracles.s.polynomial.evaluate x - 1 := by
  rw [sMinusOne, DensePolynomial.evaluate_sub]
  exact congrArg _ (DensePolynomial.evaluate_constant 1 x)

theorem exists_nonZeroProofs (hround : RoundSpec round domain_k domain_h delta f.polynomial
    g.polynomial bound) (hdelta : delta * delta = domain_h.element 1)
    (hsupported : checkSupportedDegree bound setup.supportedDegree = .ok ()) (rng : R) :
    ∃ p₁ p₂ p₃ p₄ rng₁ rng₂ rng₃ rng₄,
      NonZeroOverK.prove (idealScheme setup) domain_k round.oracles.fPrime
        (commitTo round.oracles.fPrime) () rng = .ok (p₁, rng₁) ∧
      NonZeroOverK.prove (idealScheme setup) domain_k round.oracles.gPrime
        (commitTo round.oracles.gPrime) () rng₁ = .ok (p₂, rng₂) ∧
      NonZeroOverK.prove (idealScheme setup) domain_k round.oracles.sPrime
        (commitTo round.oracles.sPrime) () rng₂ = .ok (p₃, rng₃) ∧
      NonZeroOverK.prove (idealScheme setup) domain_k (sMinusOne round bound)
        (sMinusOneCommitment round bound) () rng₃ = .ok (p₄, rng₄) ∧
      (∀ x ∈ domain_k.elements,
        round.oracles.fPrime.polynomial.evaluate x * p₁.gCommit.evaluate x = 1) ∧
      (∀ x ∈ domain_k.elements,
        round.oracles.gPrime.polynomial.evaluate x * p₂.gCommit.evaluate x = 1) ∧
      (∀ x ∈ domain_k.elements,
        round.oracles.sPrime.polynomial.evaluate x * p₃.gCommit.evaluate x = 1) ∧
      ∀ x ∈ domain_k.elements,
        (round.oracles.s.polynomial.evaluate x - 1) * p₄.gCommit.evaluate x = 1 := by
  have hidentities := hround.identities hdelta
  have hbounds := hround.oracles
  simp only [List.forall_mem_cons, List.not_mem_nil, false_implies, implies_true, and_true] at hbounds
  obtain ⟨⟨_, hsl⟩, ⟨hfpb, hfpl⟩, ⟨hgpb, hgpl⟩, ⟨hspb, hspl⟩, _, _⟩ := hbounds
  have hone : (DLComparison.onePoly (F := F) bound).polynomial.coeffs.length ≤ domain_k.size :=
    (DensePolynomial.length_trim_le _).trans domain_k.size_pos
  obtain ⟨p₁, rng₁, h₁, v₁⟩ := NonZeroOverK.complete setup (commitTo round.oracles.fPrime) hfpl
    (fun x hx => (hidentities x hx).fPrime_ne) hfpb ⟨rfl, hfpb⟩ hsupported rng
  obtain ⟨p₂, rng₂, h₂, v₂⟩ := NonZeroOverK.complete setup (commitTo round.oracles.gPrime) hgpl
    (fun x hx => (hidentities x hx).gPrime_ne) hgpb ⟨rfl, hgpb⟩ hsupported rng₁
  obtain ⟨p₃, rng₃, h₃, v₃⟩ := NonZeroOverK.complete setup (commitTo round.oracles.sPrime) hspl
    (fun x hx => (hidentities x hx).sPrime_ne) hspb ⟨rfl, hspb⟩ hsupported rng₂
  have hne : ∀ x ∈ domain_k.elements, (sMinusOne round bound).polynomial.evaluate x ≠ 0 := by
    intro x hx
    rw [evaluate_sMinusOne]
    exact (hidentities x hx).s_ne
  obtain ⟨p₄, rng₄, h₄, v₄⟩ := NonZeroOverK.complete setup (sMinusOneCommitment round bound)
    (DensePolynomial.length_sub_le hsl hone) hne rfl ⟨rfl, rfl⟩ hsupported rng₃
  have hlast := (NonZeroOverK.verify_ideal_iff setup).mp (v₄ _ fun _ _ => rfl)
  refine ⟨p₁, p₂, p₃, p₄, rng₁, rng₂, rng₃, rng₄, h₁, h₂, h₃, h₄, ?_, ?_, ?_, ?_⟩
  · exact (NonZeroOverK.verify_ideal_iff setup).mp (v₁ _ fun _ _ => rfl)
  · exact (NonZeroOverK.verify_ideal_iff setup).mp (v₂ _ fun _ _ => rfl)
  · exact (NonZeroOverK.verify_ideal_iff setup).mp (v₃ _ fun _ _ => rfl)
  · intro x hx
    rw [← evaluate_sMinusOne]
    exact hlast x hx

theorem DLComparison.subProtocols_complete (hdelta : roots.sqrt (domain_h.element 1) = some delta)
    (hsize : domain_h.size ≤ domain_k.size) (hround : RoundSpec round domain_k domain_h delta
      f.polynomial g.polynomial bound) (hfb : f.degreeBound = bound) (hgb : g.degreeBound = bound)
    (hsupported : checkSupportedDegree bound setup.supportedDegree = .ok ()) (rng : R) :
    ∃ proof rng', DLComparison.proveSubProtocols (idealScheme setup) domain_k f g (commitTo f)
        (commitTo g) () () bound round (roundCommitments round bound) [(), (), (), (), (), ()] rng =
          .ok (proof, rng') ∧
      ∀ f_commit g_commit : LabeledCommitment (DensePolynomial F),
        f_commit.commitment = f.polynomial → g_commit.commitment = g.polynomial →
          DLComparison.verifySubProtocols (idealScheme setup) roots domain_k domain_h f_commit
            g_commit bound proof = .ok () := by
  have hsquare := roots.mul_self_eq _ _ hdelta
  have hidentities := hround.identities hsquare
  have hsequence := hround.sequence
  rw [Prod.ext_iff] at hsequence
  dsimp only at hsequence
  have hhb : round.oracles.h.degreeBound = bound := (hround.oracles _ (by simp)).1
  have haggregate : aggregateCommitments (idealScheme setup) (roundCommitments round bound)
      (some [(), (), (), (), (), ()]) DLComparison.sMinusOneLinearCombination =
        .ok (sMinusOneCommitment round bound, ()) := aggregate_sMinusOne setup hround
  -- the sub-protocols in the order in which the randomness is used
  obtain ⟨p₁, p₂, p₃, p₄, rng₁, rng₂, rng₃, rng₄, h₁, h₂, h₃, h₄⟩ :=
    exists_identityProofs setup hround hfb hgb hsupported rng
  obtain ⟨p₅, rng₅, h₅, v₅⟩ := GeoSeqTest.complete setup domain_h.size_pos hsize hround.h hhb hsupported
    rng₄
  obtain ⟨p₆, p₇, p₈, p₉, rng₆, rng₇, rng₈, rng₉, h₆, h₇, h₈, h₉, v₆, v₇, v₈, v₉⟩ :=
    exists_nonZeroProofs setup hround hsquare hsupported rng₅
  refine ⟨⟨round.oracles.s.polynomial, round.oracles.fPrime.polynomial, round.oracles.gPrime.polynomial,
    round.oracles.sPrime.polynomial, round.oracles.h.polynomial, p₁, p₂, p₃, p₄, p₅, p₆, p₇, p₈, p₉⟩,
    rng₉, ?_, ?_⟩
  · have hnth : ∀ i c, (roundCommitments round bound)[i]? = some c →
        nth (roundCommitments round bound) i = .ok c := fun i c hc => by rw [nth, hc, need_some]
    have hrand : ∀ i < 6, nth [(), (), (), (), (), ()] i = .ok () := by
      intro i hi
      rw [nth, List.getElem?_eq_getElem (by simpa using hi), need_some]
    rw [sMinusOne] at h₉
    simp only [DLComparison.proveSubProtocols, hnth 0 _ rfl, hnth 1 _ rfl, hnth 2 _ rfl, hnth 3 _ rfl,
      hnth 4 _ rfl, hrand 0 (by omega), hrand 1 (by omega), hrand 2 (by omega), hrand 3 (by omega),
      hrand 4 (by omega), ok_bind, newVO_pair, newVO_triple, h₁, h₂, h₃, h₄, hsequence.1, hsequence.2,
      hround.delta_eq, h₅, h₆, h₇, h₈, haggregate, h₉]
    rfl
  · intro f_commit g_commit hfc hgc
    rw [DLComparison.verify_ideal setup hsize, ProofOfFunctionRelation.DLComparison.verify_iff, hfc, hgc]
    have hgeo := (GeoSeqTest.verify_ideal setup).mp (v₅ ⟨"h", round.oracles.h.polynomial, bound⟩ rfl)
    refine ⟨?_, ?_, ?_, ?_, delta, hdelta, hgeo, v₆, v₇, v₈, v₉⟩
    · exact fun x hx => (hidentities x hx).f_eq
    · exact fun x hx => (hidentities x hx).g_eq
    · exact fun x hx => (hidentities x hx).s_eq
    · exact fun x hx => (hidentities x hx).product

variable {FS : Type} [FiatShamirRng FS]

/-- The prover succeeds on entries below the diagonal, and the verifier accepts. -/
theorem DLComparison.complete (hdelta : roots.sqrt (domain_h.element 1) = some delta)
    (hsize : domain_h.size ≤ domain_k.size) (hf : f.polynomial.coeffs.length ≤ domain_k.size)
    (hg : g.polynomial.coeffs.length ≤ domain_k.size)
    (hlower : EncodesLower domain_k domain_h f.polynomial g.polynomial) (hfb : f.degreeBound = bound)
    (hgb : g.degreeBound = bound)
    (hsupported : checkSupportedDegree bound setup.supportedDegree = .ok ()) (fs_rng : FS) (rng : R) :
    ∃ proof fs_rng' rng', DLComparison.prove (idealScheme setup) roots domain_k domain_h f (commitTo f)
        () g (commitTo g) () bound fs_rng rng = .ok (proof, fs_rng', rng') ∧
      ∀ (f_commit g_commit : LabeledCommitment (DensePolynomial F)) (fs_rng : FS),
        f_commit.commitment = f.polynomial → g_commit.commitment = g.polynomial →
          (DLComparison.verify (idealScheme setup) roots domain_k domain_h f_commit g_commit bound
            proof fs_rng).1 = .ok () := by
  obtain ⟨round, hprove, hround⟩ :
      ∃ round, DLComparison.proverFirstRound roots domain_k domain_h f g bound = .ok round ∧
        RoundSpec round domain_k domain_h delta f.polynomial g.polynomial bound :=
    exists_proverFirstRound hdelta hsize hf hg hlower
  obtain ⟨proof, rng', hsub, hverify⟩ :=
    DLComparison.subProtocols_complete setup hdelta hsize hround hfb hgb hsupported rng
  refine ⟨proof, FiatShamirRng.absorb fs_rng
    (DLComparison.fsBytes (idealScheme setup) (roundCommitments round bound)), rng', ?_,
    fun f_commit g_commit _ hfc hgc => hverify f_commit g_commit hfc hgc⟩
  rw [DLComparison.prove, hprove, ok_bind]
  show (DLComparison.proveSubProtocols (idealScheme setup) domain_k f g (commitTo f) (commitTo g) () ()
    bound round (roundCommitments round bound) [(), (), (), (), (), ()] rng >>= _) = _
  rw [hsub]
  rfl

end DLComparison

/-! ### The strictly lower triangular test -/

section TStrictlyLowerTriangular

variable (setup : IdealSetup F R) {roots : ProofOfFunctionRelation.SquareRootField F}
  {domain_k domain_h : EvaluationDomain F} {row col : LabeledPolynomial F} {bound : Option Nat}
  {delta : F} {t : Nat} {FS : Type} [FiatShamirRng FS]

theorem TStrictlyLowerTriangular.complete (ht : t < domain_h.size)
    (hdelta : roots.sqrt (domain_h.element 1) = some delta) (hsize : domain_h.size ≤ domain_k.size)
    (hrow : row.polynomial.coeffs.length ≤ domain_k.size)
    (hcol : col.polynomial.coeffs.length ≤ domain_k.size)
    (hlower : EncodesLower domain_k domain_h row.polynomial col.polynomial)
    (hrb : row.degreeBound = bound) (hcb : col.degreeBound = bound)
    (hsupported : checkSupportedDegree bound setup.supportedDegree = .ok ()) (fs_rng : FS) (rng : R) :
    ∃ proof fs_rng' rng', TStrictlyLowerTriangular.prove (idealScheme setup) roots t domain_k domain_h
        row (commitTo row) () col (commitTo col) () bound fs_rng rng = .ok (proof, fs_rng', rng') ∧
      ∀ fs_rng : FS, (TStrictlyLowerTriangular.verify (idealScheme setup) roots t domain_k domain_h
        (commitTo row) (commitTo col) bound proof fs_rng).1 = .ok () := by
  have hlength : domain_h.size - t ≤ domain_k.size := by omega
  obtain ⟨h, hdef⟩ : ∃ p : LabeledPolynomial F, p = ⟨"h", domain_k.interpolate
      ((List.range domain_k.size).map (segmentValue (domain_h.element 1) (domain_h.element t) 0
        (domain_h.size - t))), bound⟩ := ⟨_, rfl⟩
  have hh : ∀ j < domain_k.size, h.polynomial.evaluate (domain_k.element j) =
      segmentValue (domain_h.element 1) (domain_h.element t) 0 (domain_h.size - t) j := by
    intro j hj
    rw [hdef]
    exact evaluate_interpolate_segments hj
  have hhb : h.degreeBound = bound := by rw [hdef]
  obtain ⟨p₁, rng₁, h₁, v₁⟩ := GeoSeqTest.complete setup (by omega) hlength hh hhb hsupported rng
  obtain ⟨p₂, fs_rng₂, rng₂, h₂, v₂⟩ := DLComparison.complete setup hdelta hsize hrow hcol hlower hrb
    hcb hsupported (FiatShamirRng.absorb fs_rng (protocolBytes "t-Strictly Lower Triangular Test")) rng₁
  refine ⟨⟨h.polynomial, p₂, p₁⟩, fs_rng₂, rng₂, ?_, ?_⟩
  · have hcommit : (idealScheme setup).commit [h] rng = .ok ([commitTo h], [()], rng) := rfl
    have hnth : nth [commitTo h] 0 = .ok (commitTo h) := rfl
    have hrand : nth [()] 0 = .ok () := rfl
    have hle : ¬ t > domain_h.size := by omega
    simp only [TStrictlyLowerTriangular.prove, if_neg hle, paddedSequence_eq hlength,
      generateSequence_segments hlength, ok_bind, ← hdef, hcommit, hnth, hrand, h₁, h₂]
    rfl
  · intro fs_rng
    have hsubset : (ProofOfFunctionRelation.SubsetOverK.verify.mapError fun _ =>
        (Error.aborted : Error)) = .ok () := rfl
    have hsub : usizeSub domain_h.size t = .ok (domain_h.size - t) := if_pos (by omega)
    have hsequence : TStrictlyLowerTriangular.verifySequence (idealScheme setup) t domain_k domain_h
        bound ⟨h.polynomial, p₂, p₁⟩ = .ok () := by
      simp only [TStrictlyLowerTriangular.verifySequence, hsub, ok_bind, paddedSequence_eq hlength,
        v₁ ⟨"h", h.polynomial, bound⟩ rfl, hsubset]
    rw [TStrictlyLowerTriangular.verify, hsequence]
    exact v₂ _ _ fs_rng rfl rfl

end TStrictlyLowerTriangular

end FunctionRelation

end Lootbox

import Lootbox.Commitment.ZeroOverK

/-!
# `zero_over_k`: completeness

A proof that the prover returns has one form, and up to ten terms it passes both field
checks. From eleven terms on the order of the labels is not the order of the terms, and some
maskings make the first check fail.
-/

namespace Lootbox.ZeroOverK

variable {F : Type} [Field F] [DecidableEq F]

/-! ### Terms by index -/

def GenericShiftingVO.alpha (vo : GenericShiftingVO F) (i : Nat) : F :=
  vo.shiftingCoefficients.getD i 0

def oracleAt (vo : GenericShiftingVO F) (oracles : List (DensePolynomial F)) (i : Nat) :
    DensePolynomial F :=
  oracles.getD (vo.mappingVector.getD i 0) 0

def maskingAt (vo : GenericShiftingVO F) (domain : EvaluationDomain F) (rng : Nat → F × F)
    (i : Nat) : DensePolynomial F :=
  maskingPolynomial domain (vo.alpha i) (randomPolynomial (rng i))

def hPrimeAt (vo : GenericShiftingVO F) (oracles : List (DensePolynomial F))
    (domain : EvaluationDomain F) (rng : Nat → F × F) (i : Nat) : DensePolynomial F :=
  oracleAt vo oracles i + maskingAt vo domain rng i

theorem map_range_getD {α : Type} (xs : List α) (d : α) {n : Nat} (hn : xs.length = n) :
    (List.range n).map (fun i => xs.getD i d) = xs := by
  subst hn
  apply List.ext_getElem
  · simp
  · intro i h₁ h₂
    simp [h₂]

theorem zipIdx_map_range {α : Type} (f : Nat → α) (n : Nat) :
    ((List.range n).map f).zipIdx = (List.range n).map fun i => (f i, i) := by
  apply List.ext_getElem
  · simp
  · intro i h₁ h₂
    simp

omit [DecidableEq F] in
theorem GenericShiftingVO.shiftingCoefficients_getElem? (vo : GenericShiftingVO F) {i : Nat}
    (hi : i < vo.numOfVariableTerms) : vo.shiftingCoefficients[i]? = some (vo.alpha i) := by
  have hi' : i < vo.shiftingCoefficients.length := by
    rw [vo.lengths]
    exact hi
  rw [alpha, List.getD_eq_getElem?_getD, List.getElem?_eq_getElem hi']
  rfl

omit [DecidableEq F] in
theorem GenericShiftingVO.shiftingCoefficients_eq (vo : GenericShiftingVO F) :
    vo.shiftingCoefficients = (List.range vo.numOfVariableTerms).map vo.alpha :=
  (map_range_getD vo.shiftingCoefficients 0 vo.lengths).symm

omit [DecidableEq F] in
theorem GenericShiftingVO.mappingVector_zip (vo : GenericShiftingVO F) :
    vo.mappingVector.zip vo.shiftingCoefficients =
      (List.range vo.numOfVariableTerms).map fun i => (vo.mappingVector.getD i 0, vo.alpha i) := by
  conv_lhs => rw [vo.shiftingCoefficients_eq, ← map_range_getD vo.mappingVector 0 rfl]
  exact List.zip_map'

/-! ### First round -/

section FirstRound

variable (vo : GenericShiftingVO F) (oracles : List (DensePolynomial F))
  (domain : EvaluationDomain F) (rng : Nat → F × F)

theorem computeMaskings_eq_ok_iff {ms : List (LabeledPolynomial F × LabeledPolynomial F)} :
    computeMaskings vo domain rng = .ok ms ↔
      (∀ i ∈ List.range vo.numOfVariableTerms, vo.alpha i ≠ 0) ∧
      ms = (List.range vo.numOfVariableTerms).map fun i =>
        (⟨rLabel i, randomPolynomial (rng i)⟩, ⟨mLabel i, maskingAt vo domain rng i⟩) := by
  apply mapM_eq_ok_map_iff
  intro i hi y
  dsimp only
  rw [vo.shiftingCoefficients_getElem? (List.mem_range.mp hi), require, need_some, ok_bind]
  by_cases hzero : vo.alpha i = 0
  · simp [hzero, throw, throwThe, MonadExceptOf.throw, bind, Except.bind]
  · simp [hzero, maskingAt, pure, Except.pure, eq_comm]

theorem computeHPrimes_masks_eq_ok_iff (masks : Nat → DensePolynomial F)
    {hs : List (LabeledPolynomial F)} :
    computeHPrimes vo oracles ((List.range vo.numOfVariableTerms).map fun i =>
        ⟨mLabel i, masks i⟩) = .ok hs ↔
      (∀ index ∈ vo.mappingVector, index < oracles.length) ∧
      hs = (List.range vo.numOfVariableTerms).map fun i =>
        ⟨hPrimeLabel i, oracleAt vo oracles i + masks i⟩ := by
  have hmap : ∀ ps, (vo.mappingVector.mapM fun index => require oracles[index]?) = .ok ps ↔
      (∀ index ∈ vo.mappingVector, index < oracles.length) ∧
      ps = vo.mappingVector.map fun index => oracles.getD index 0 := by
    intro ps
    apply mapM_eq_ok_map_iff
    exact fun index _ y => require_getElem?_eq_ok_iff 0
  have hterms : vo.mappingVector.map (fun index => oracles.getD index 0) =
      (List.range vo.numOfVariableTerms).map (oracleAt vo oracles) := by
    conv_lhs => rw [← map_range_getD vo.mappingVector 0 rfl]
    rw [List.map_map]
    rfl
  rw [computeHPrimes, bind_eq_ok_iff]
  constructor
  · rintro ⟨ps, hps, heq⟩
    obtain ⟨hindex, rfl⟩ := (hmap ps).mp hps
    cases heq
    refine ⟨hindex, ?_⟩
    rw [hterms, List.zip_map', zipIdx_map_range, List.map_map]
    rfl
  · rintro ⟨hindex, rfl⟩
    refine ⟨_, (hmap _).mpr ⟨hindex, rfl⟩, ?_⟩
    rw [hterms, List.zip_map', zipIdx_map_range, List.map_map]
    rfl

theorem computeHPrimes_eq_ok_iff {hs : List (LabeledPolynomial F)} :
    computeHPrimes vo oracles ((List.range vo.numOfVariableTerms).map fun i =>
        ⟨mLabel i, maskingAt vo domain rng i⟩) = .ok hs ↔
      (∀ index ∈ vo.mappingVector, index < oracles.length) ∧
      hs = (List.range vo.numOfVariableTerms).map fun i =>
        ⟨hPrimeLabel i, hPrimeAt vo oracles domain rng i⟩ :=
  computeHPrimes_masks_eq_ok_iff vo oracles (maskingAt vo domain rng)

theorem computeFPrime_eq_apply (hs : Nat → DensePolynomial F) :
    computeFPrime vo ((List.range vo.numOfVariableTerms).map fun i => ⟨hPrimeLabel i, hs i⟩) =
      vo.applyEvaluationFunction ((xPoly :: (List.range vo.numOfVariableTerms).map fun i =>
        shiftDensePoly (hs i) (vo.alpha i)).map VOTerm.polynomial) >>= fun
      | .polynomial f_prime => .ok f_prime
      | .evaluation _ => .error .voFailedToInstantiate := by
  have hshift : (((List.range vo.numOfVariableTerms).map fun i =>
        (⟨hPrimeLabel i, hs i⟩ : LabeledPolynomial F)).zipIdx.mapM fun h_prime => do
          let alpha ← require vo.shiftingCoefficients[h_prime.2]?
          return shiftDensePoly h_prime.1.polynomial alpha) =
      .ok ((List.range vo.numOfVariableTerms).map fun i => shiftDensePoly (hs i) (vo.alpha i)) := by
    rw [zipIdx_map_range, List.mapM_map]
    apply mapM_eq_ok_map
    intro i hi
    dsimp only [Function.comp]
    rw [vo.shiftingCoefficients_getElem? (List.mem_range.mp hi), require, need_some, ok_bind]
    rfl
  exact bind_eq_of_ok hshift rfl

def proverTerms : List (VOTerm F) :=
  (xPoly :: (List.range vo.numOfVariableTerms).map fun i =>
    shiftDensePoly (hPrimeAt vo oracles domain rng i) (vo.alpha i)).map VOTerm.polynomial

theorem computeFPrime_eq_ok_iff {f_prime : DensePolynomial F} :
    computeFPrime vo ((List.range vo.numOfVariableTerms).map fun i =>
        ⟨hPrimeLabel i, hPrimeAt vo oracles domain rng i⟩) = .ok f_prime ↔
      vo.applyEvaluationFunction (proverTerms vo oracles domain rng) = .ok (.polynomial f_prime) := by
  rw [computeFPrime_eq_apply]
  change (vo.applyEvaluationFunction (proverTerms vo oracles domain rng) >>= _) = _ ↔ _
  rw [bind_eq_ok_iff]
  constructor
  · rintro ⟨t, ht, hrest⟩
    cases t with
    | evaluation e => cases hrest
    | polynomial p =>
      cases hrest
      exact ht
  · intro h
    exact ⟨_, h, rfl⟩

end FirstRound

/-! ### Openings -/

section Openings

omit [Field F] [DecidableEq F]

theorem contains_familyLabel (family : String) (i : Nat) :
    labelContains (familyLabel family i) family = true := by
  rw [labelContains, decide_eq_true_iff, toList_familyLabel]
  exact (List.prefix_append _ _).isInfix

theorem mLabel_not_contains (i : Nat) : labelContains (mLabel i) "h_prime_" = false := by
  rw [labelContains, decide_eq_false_iff_not, mLabel, toList_familyLabel]
  intro hinfix
  -- the letter h is neither in the family nor a digit
  have hmem : 'h' ∈ "m_".toList ++ Nat.toDigits 10 i := hinfix.subset (by decide)
  rcases List.mem_append.mp hmem with hfamily | hdigit
  · exact absurd hfamily (by decide)
  · exact absurd (Nat.isDigit_of_mem_toDigits (by omega) (by omega) hdigit) (by decide)

theorem evaluationKind_hPrimeLabel (i : Nat) : evaluationKind (hPrimeLabel i) = .hPrime := by
  rw [evaluationKind, hPrimeLabel, contains_familyLabel, if_pos rfl]

theorem evaluationKind_mLabel (i : Nat) : evaluationKind (mLabel i) = .m := by
  rw [evaluationKind, mLabel_not_contains, mLabel, contains_familyLabel]
  rfl

theorem evaluationKind_q1 : evaluationKind "q_1" = .q1 := by decide

theorem evaluationKind_q2 : evaluationKind "q_2" = .q2 := by decide

theorem find?_of_kind_ne {ps : List (LabeledPolynomial F)} {label : PolynomialLabel}
    (h : ∀ p ∈ ps, evaluationKind p.label ≠ evaluationKind label) :
    (ps.find? fun p => p.label == label) = none := by
  rw [List.find?_eq_none]
  intro p hp hlabel
  apply h p hp
  rw [eq_of_beq hlabel]

theorem find?_family (family : String) (poly : Nat → DensePolynomial F) {n i : Nat} (hi : i < n) :
    (((List.range n).map fun j => (⟨familyLabel family j, poly j⟩ : LabeledPolynomial F)).find?
      fun p => p.label == familyLabel family i) = some ⟨familyLabel family i, poly i⟩ := by
  have hrange : (List.range n).find? (fun j => familyLabel family j == familyLabel family i) =
      some i := by
    rw [List.find?_range_eq_some]
    refine ⟨beq_self_eq_true _, List.mem_range.mpr hi, ?_⟩
    intro j hj
    rw [Bool.not_eq_true', beq_eq_false_iff_ne]
    intro heq
    have := familyLabel_injective family heq
    omega
  rw [List.find?_map]
  dsimp only [Function.comp_def]
  rw [hrange, Option.map_some]

variable (n : Nat) (hPrime mask : Nat → DensePolynomial F) (q1 q2 : DensePolynomial F)

def openedPolynomials : List (LabeledPolynomial F) :=
  ((List.range n).map fun i => ⟨mLabel i, mask i⟩) ++
    ((List.range n).map fun i => ⟨hPrimeLabel i, hPrime i⟩) ++ [⟨"q_1", q1⟩] ++ [⟨"q_2", q2⟩]

def findOpened (label : PolynomialLabel) : Option (LabeledPolynomial F) :=
  (openedPolynomials n hPrime mask q1 q2).find? fun p => p.label == label

theorem findOpened_m {i : Nat} (hi : i < n) :
    findOpened n hPrime mask q1 q2 (mLabel i) = some ⟨mLabel i, mask i⟩ := by
  have hfind := find?_family "m_" mask hi
  rw [findOpened, openedPolynomials, List.append_assoc, List.append_assoc, List.find?_append]
  unfold mLabel
  rw [hfind, Option.some_or]

theorem findOpened_hPrime {i : Nat} (hi : i < n) :
    findOpened n hPrime mask q1 q2 (hPrimeLabel i) = some ⟨hPrimeLabel i, hPrime i⟩ := by
  have hmask : (((List.range n).map fun j =>
      (⟨mLabel j, mask j⟩ : LabeledPolynomial F)).find? fun p => p.label == hPrimeLabel i) = none := by
    apply find?_of_kind_ne
    intro p hp
    obtain ⟨j, _, rfl⟩ := List.mem_map.mp hp
    rw [evaluationKind_mLabel, evaluationKind_hPrimeLabel]
    decide
  have hfind := find?_family "h_prime_" hPrime hi
  rw [findOpened, openedPolynomials, List.append_assoc, List.append_assoc, List.find?_append, hmask,
    Option.none_or, List.find?_append]
  unfold hPrimeLabel
  rw [hfind, Option.some_or]

theorem find?_masks_hPrimes {label : PolynomialLabel} (hm : evaluationKind label ≠ .m)
    (hh : evaluationKind label ≠ .hPrime) :
    (((List.range n).map fun i => (⟨mLabel i, mask i⟩ : LabeledPolynomial F)) ++
      (List.range n).map fun i => (⟨hPrimeLabel i, hPrime i⟩ : LabeledPolynomial F)).find?
        (fun p => p.label == label) = none := by
  apply find?_of_kind_ne
  intro p hp
  rcases List.mem_append.mp hp with hp | hp
  · obtain ⟨j, _, rfl⟩ := List.mem_map.mp hp
    rw [evaluationKind_mLabel]
    exact hm.symm
  · obtain ⟨j, _, rfl⟩ := List.mem_map.mp hp
    rw [evaluationKind_hPrimeLabel]
    exact hh.symm

theorem findOpened_q1 : findOpened n hPrime mask q1 q2 "q_1" = some ⟨"q_1", q1⟩ := by
  have hnone : (_ ++ _ : List (LabeledPolynomial F)).find? (fun p => p.label == "q_1") = none :=
    find?_masks_hPrimes n hPrime mask (by rw [evaluationKind_q1]; decide) (by rw [evaluationKind_q1]; decide)
  rw [findOpened, openedPolynomials, List.append_assoc, List.find?_append, hnone]
  rfl

theorem findOpened_q2 : findOpened n hPrime mask q1 q2 "q_2" = some ⟨"q_2", q2⟩ := by
  have hnone : (_ ++ _ : List (LabeledPolynomial F)).find? (fun p => p.label == "q_2") = none :=
    find?_masks_hPrimes n hPrime mask (by rw [evaluationKind_q2]; decide) (by rw [evaluationKind_q2]; decide)
  rw [findOpened, openedPolynomials, List.append_assoc, List.find?_append, hnone]
  rfl

end Openings

section Collect

/-- Every polynomial evaluated where the query set asks for it. -/
def openedEvaluations (n : Nat) (h m : Nat → F) (q1 q2 : F) : List (PolynomialLabel × F) :=
  (List.range n).flatMap (fun i => [(hPrimeLabel i, h i), (mLabel i, m i)]) ++
    [("q_1", q1), ("q_2", q2)]

omit [DecidableEq F] in
theorem evaluateQuerySet_opened (vo : GenericShiftingVO F) (msg : VerifierFirstMsg F)
    (hPrime mask : Nat → DensePolynomial F) (q1 q2 : DensePolynomial F) :
    evaluateQuerySet (openedPolynomials vo.numOfVariableTerms hPrime mask q1 q2)
        (verifierQuerySet vo.shiftingCoefficients msg) =
      .ok (openedEvaluations vo.numOfVariableTerms
        (fun i => (hPrime i).evaluate (vo.alpha i * msg.beta1))
        (fun i => (mask i).evaluate (vo.alpha i * msg.beta2))
        (q1.evaluate msg.beta1) (q2.evaluate msg.beta2)) := by
  have hopen : ∀ (label : PolynomialLabel) (point : F) (p : LabeledPolynomial F),
      findOpened vo.numOfVariableTerms hPrime mask q1 q2 label = some p →
      (do
        let poly ← require ((openedPolynomials vo.numOfVariableTerms hPrime mask q1 q2).find?
          fun p => p.label == label)
        return (label, poly.polynomial.evaluate point)) =
      (.ok (label, p.polynomial.evaluate point) : Except Error (PolynomialLabel × F)) := by
    intro label point p hp
    rw [findOpened] at hp
    rw [hp]
    rfl
  rw [evaluateQuerySet, verifierQuerySet, vo.shiftingCoefficients_eq, zipIdx_map_range,
    List.flatMap_map, mapM_eq_ok_iff, openedEvaluations]
  apply List.rel_append
  · rw [List.flatMap, List.flatMap]
    apply List.rel_flatten
    rw [List.forall₂_map_left_iff, List.forall₂_map_right_iff, List.forall₂_same]
    intro i hi
    have hlt := List.mem_range.mp hi
    exact .cons (hopen _ _ _ (findOpened_hPrime _ _ _ _ _ hlt))
      (.cons (hopen _ _ _ (findOpened_m _ _ _ _ _ hlt)) .nil)
  · exact .cons (hopen _ _ _ (findOpened_q1 _ _ _ _ _))
      (.cons (hopen _ _ _ (findOpened_q2 _ _ _ _ _)) .nil)

omit [Field F] [DecidableEq F] in
theorem evaluationsOfKind_flatMap (h m : Nat → F) (is : List Nat) :
    evaluationsOfKind .hPrime (is.flatMap fun i => [(hPrimeLabel i, h i), (mLabel i, m i)]) =
        is.map (fun i => (hPrimeLabel i, h i)) ∧
      evaluationsOfKind .m (is.flatMap fun i => [(hPrimeLabel i, h i), (mLabel i, m i)]) =
        is.map (fun i => (mLabel i, m i)) := by
  unfold evaluationsOfKind
  induction is with
  | nil => exact ⟨rfl, rfl⟩
  | cons i is ih =>
    obtain ⟨ihh, ihm⟩ := ih
    refine ⟨?_, ?_⟩
    · rw [List.flatMap_cons, List.filter_append, ihh]
      simp [evaluationKind_hPrimeLabel, evaluationKind_mLabel]
    · rw [List.flatMap_cons, List.filter_append, ihm]
      simp [evaluationKind_hPrimeLabel, evaluationKind_mLabel]

omit [Field F] [DecidableEq F] in
theorem evaluationsOfKind_flatMap_q (h m : Nat → F) (is : List Nat) {kind : EvaluationKind}
    (hh : kind ≠ .hPrime) (hm : kind ≠ .m) :
    evaluationsOfKind kind (is.flatMap fun i => [(hPrimeLabel i, h i), (mLabel i, m i)]) = [] := by
  rw [evaluationsOfKind, List.filter_eq_nil_iff]
  intro e he
  obtain ⟨i, _, hmem⟩ := List.mem_flatMap.mp he
  rw [List.mem_cons, List.mem_singleton] at hmem
  rcases hmem with rfl | rfl
  · simpa [evaluationKind_hPrimeLabel] using hh.symm
  · simpa [evaluationKind_mLabel] using hm.symm

omit [Field F] [DecidableEq F] in
theorem sortByLabel_family (family : String) (e : Nat → F) (n : Nat) :
    sortByLabel ((List.range n).map fun i => (familyLabel family i, e i)) =
      (labelOrder n).map e := by
  rw [sortByLabel, ← List.map_insertionSort digitsLe (fun a b => a.1 ≤ b.1)
    (fun i => (familyLabel family i, e i)) (List.range n)
    (fun i _ j _ => (familyLabel_le_iff family).symm), List.map_map]
  rfl

omit [Field F] [DecidableEq F] in
theorem collectProof_opened (n : Nat) (h m : Nat → F) (q1 q2 : F) :
    collectProof (openedEvaluations n h m q1 q2) =
      .ok ⟨q1, q2, (labelOrder n).map h, (labelOrder n).map m⟩ := by
  have hkind : ∀ kind, evaluationsOfKind kind (openedEvaluations n h m q1 q2) =
      evaluationsOfKind kind
        ((List.range n).flatMap fun i => [(hPrimeLabel i, h i), (mLabel i, m i)]) ++
      evaluationsOfKind kind [("q_1", q1), ("q_2", q2)] :=
    fun kind => List.filter_append _ _
  obtain ⟨hhs, hms⟩ := evaluationsOfKind_flatMap h m (List.range n)
  have hq1 : evaluationsOfKind .q1 (openedEvaluations n h m q1 q2) = [("q_1", q1)] := by
    rw [hkind, evaluationsOfKind_flatMap_q h m _ (by decide) (by decide)]
    simp [evaluationsOfKind, evaluationKind_q1, evaluationKind_q2]
  have hq2 : evaluationsOfKind .q2 (openedEvaluations n h m q1 q2) = [("q_2", q2)] := by
    rw [hkind, evaluationsOfKind_flatMap_q h m _ (by decide) (by decide)]
    simp [evaluationsOfKind, evaluationKind_q1, evaluationKind_q2]
  have hh' : sortByLabel (evaluationsOfKind .hPrime (openedEvaluations n h m q1 q2)) =
      (labelOrder n).map h := by
    rw [hkind, hhs]
    simp only [evaluationsOfKind, List.filter_cons, evaluationKind_q1, evaluationKind_q2]
    exact (congrArg sortByLabel (List.append_nil _)).trans (sortByLabel_family "h_prime_" h n)
  have hm' : sortByLabel (evaluationsOfKind .m (openedEvaluations n h m q1 q2)) =
      (labelOrder n).map m := by
    rw [hkind, hms]
    simp only [evaluationsOfKind, List.filter_cons, evaluationKind_q1, evaluationKind_q2]
    exact (congrArg sortByLabel (List.append_nil _)).trans (sortByLabel_family "m_" m n)
  rw [collectProof, hq1, hq2, hh', hm']
  simp [require, pure, Except.pure]

end Collect

/-! ### The proof the prover returns -/

section Prove

variable (vo : GenericShiftingVO F) (oracles : List (DensePolynomial F))
  (domain : EvaluationDomain F) (rng : Nat → F × F) (msg : VerifierFirstMsg F)

def q2At : DensePolynomial F :=
  computeQ2 ((List.range vo.numOfVariableTerms).map fun i =>
    ⟨rLabel i, randomPolynomial (rng i)⟩) msg.c

/-- The proof for a given `f_prime`. -/
def proofFor (f_prime : DensePolynomial F) : Proof F where
  q1Eval := (computeQ1 domain f_prime).evaluate msg.beta1
  q2Eval := (q2At vo rng msg).evaluate msg.beta2
  hPrimeEvals := (labelOrder vo.numOfVariableTerms).map fun i =>
    (hPrimeAt vo oracles domain rng i).evaluate (vo.alpha i * msg.beta1)
  mEvals := (labelOrder vo.numOfVariableTerms).map fun i =>
    (maskingAt vo domain rng i).evaluate (vo.alpha i * msg.beta2)

theorem prove_eq_ok_iff (bound : Option Nat) (supported : Nat) {proof : Proof F} :
    prove oracles bound vo domain supported rng msg = .ok proof ↔
      checkSupportedDegree bound supported = .ok () ∧
      (∀ i ∈ List.range vo.numOfVariableTerms, vo.alpha i ≠ 0) ∧
      (∀ index ∈ vo.mappingVector, index < oracles.length) ∧
      ∃ f_prime, vo.applyEvaluationFunction (proverTerms vo oracles domain rng) =
          .ok (.polynomial f_prime) ∧ proof = proofFor vo oracles domain rng msg f_prime := by
  have hopenings : ∀ f_prime, (do
      let evaluated_query_set ← evaluateQuerySet
        (openedPolynomials vo.numOfVariableTerms (hPrimeAt vo oracles domain rng)
          (maskingAt vo domain rng) (computeQ1 domain f_prime) (q2At vo rng msg))
        (verifierQuerySet vo.shiftingCoefficients msg)
      collectProof evaluated_query_set) = .ok (proofFor vo oracles domain rng msg f_prime) := by
    intro f_prime
    rw [evaluateQuerySet_opened, ok_bind, collectProof_opened]
    rfl
  rw [prove, bind_eq_ok_iff]
  constructor
  · rintro ⟨_, hdegree, hrest⟩
    obtain ⟨ms, hms, hrest⟩ := bind_eq_ok_iff.mp hrest
    obtain ⟨halpha, rfl⟩ := (computeMaskings_eq_ok_iff vo domain rng).mp hms
    rw [List.map_map] at hrest
    obtain ⟨hs, hhs, hrest⟩ := bind_eq_ok_iff.mp hrest
    obtain ⟨hindex, rfl⟩ := (computeHPrimes_eq_ok_iff vo oracles domain rng).mp hhs
    obtain ⟨f_prime, hf, hrest⟩ := bind_eq_ok_iff.mp hrest
    refine ⟨hdegree, halpha, hindex, f_prime,
      (computeFPrime_eq_ok_iff vo oracles domain rng).mp hf, ?_⟩
    rw [List.map_map] at hrest
    have heq := hrest.symm.trans (hopenings f_prime)
    cases heq
    rfl
  · rintro ⟨hdegree, halpha, hindex, f_prime, hf, rfl⟩
    refine ⟨(), hdegree, ?_⟩
    rw [(computeMaskings_eq_ok_iff vo domain rng).mpr ⟨halpha, rfl⟩, ok_bind, List.map_map]
    have hhs := (computeHPrimes_eq_ok_iff vo oracles domain rng).mpr ⟨hindex, rfl⟩
    have hfp := (computeFPrime_eq_ok_iff vo oracles domain rng).mpr hf
    change (computeHPrimes vo oracles ((List.range vo.numOfVariableTerms).map fun i =>
      ⟨mLabel i, maskingAt vo domain rng i⟩) >>= _) = _
    rw [hhs, ok_bind, hfp, ok_bind, List.map_map]
    exact hopenings f_prime

end Prove

/-! ### The sums of the first check -/

section Sums

omit [DecidableEq F] in
theorem foldl_add_eq_sum {α : Type} (g : α → F) (xs : List α) (acc : F) :
    xs.foldl (fun acc x => acc + g x) acc = acc + (xs.map g).sum := by
  induction xs generalizing acc with
  | nil => simp
  | cons x xs ih => rw [List.foldl_cons, ih, List.map_cons, List.sum_cons, add_assoc]

omit [DecidableEq F] in
theorem sum_range_single (g : Nat → F) {n j : Nat} (hj : j < n) :
    ((List.range n).map fun i => if i = j then g i else 0).sum = g j := by
  have hsum : ((List.range n).map fun i => if i = j then g i else 0).sum =
      ∑ i ∈ Finset.range n, if i = j then g i else 0 := rfl
  rw [hsum, Finset.sum_ite_eq', if_pos (Finset.mem_range.mpr hj)]

omit [DecidableEq F] in
theorem bigM_labelOrder (e : Nat → F) (n : Nat) (c : F) :
    bigM ((labelOrder n).map e) c =
      ((List.range n).map fun p => e ((labelOrder n).getD p 0) * c ^ p).sum := by
  have hlist : (labelOrder n).map e = (List.range n).map fun p => e ((labelOrder n).getD p 0) := by
    conv_lhs => rw [← map_range_getD (labelOrder n) 0 (length_labelOrder n)]
    rw [List.map_map]
    rfl
  rw [bigM, powersOf, List.length_map, length_labelOrder, hlist, List.zip_map']
  rw [foldl_add_eq_sum (fun p : F × F => p.1 * p.2), zero_add, List.map_map]
  rfl

theorem evaluate_foldl_add {α : Type} (g : α → DensePolynomial F) (x : F) (xs : List α)
    (acc : DensePolynomial F) :
    (xs.foldl (fun acc y => acc + g y) acc).evaluate x =
      acc.evaluate x + (xs.map fun y => (g y).evaluate x).sum := by
  induction xs generalizing acc with
  | nil => simp
  | cons y ys ih =>
    rw [List.foldl_cons, ih, List.map_cons, List.sum_cons, DensePolynomial.evaluate_add, add_assoc]

theorem evaluate_q2At (vo : GenericShiftingVO F) (rng : Nat → F × F) (msg : VerifierFirstMsg F)
    (x : F) :
    (q2At vo rng msg).evaluate x = ((List.range vo.numOfVariableTerms).map fun i =>
      (randomPolynomial (rng i)).evaluate x * msg.c ^ i).sum := by
  rw [q2At, computeQ2, powersOf, List.length_map, List.length_range, List.zip_map']
  rw [evaluate_foldl_add (fun p : LabeledPolynomial F × F => p.1.polynomial.scale p.2),
    DensePolynomial.evaluate_zero, zero_add, List.map_map]
  congr 1
  apply List.map_congr_left
  intro i _
  rw [Function.comp_apply, DensePolynomial.evaluate_scale, mul_comm]

theorem evaluate_maskingAt (vo : GenericShiftingVO F) (domain : EvaluationDomain F)
    (rng : Nat → F × F) {i : Nat} (halpha : vo.alpha i ≠ 0) (x : F) :
    (maskingAt vo domain rng i).evaluate (vo.alpha i * x) =
      (randomPolynomial (rng i)).evaluate x * domain.evaluateVanishingPolynomial x := by
  rw [maskingAt, maskingPolynomial, DensePolynomial.evaluate_mul, evaluate_shiftDensePoly,
    evaluate_shiftDensePoly, inv_mul_cancel_left₀ halpha, domain.evaluate_vanishingPolynomial]

theorem evaluate_randomPolynomial (coeffs : F × F) (x : F) :
    (randomPolynomial coeffs).evaluate x = coeffs.1 + x * coeffs.2 := by
  rw [randomPolynomial, ← DensePolynomial.eval_toPoly, DensePolynomial.toPoly_fromCoefficientsVec]
  simp
  exact mul_comm _ _

end Sums

/-! ### The two checks -/

section Checks

variable {vo : GenericShiftingVO F} {oracles : List (DensePolynomial F)}
  {domain : EvaluationDomain F} {rng : Nat → F × F} {msg : VerifierFirstMsg F}
  {f_prime : DensePolynomial F}

theorem verifyFieldChecks_eq_ok_iff {proof : Proof F} :
    verifyFieldChecks proof vo domain msg = .ok () ↔
      bigM proof.mEvals msg.c = proof.q2Eval * domain.evaluateVanishingPolynomial msg.beta2 ∧
      computeFPrimeEval vo proof.hPrimeEvals msg.beta1 =
        .ok (proof.q1Eval * domain.evaluateVanishingPolynomial msg.beta1) := by
  rw [verifyFieldChecks, bind_eq_ok_iff]
  constructor
  · rintro ⟨e, he, hrest⟩
    rw [he]
    by_cases h₁ : bigM proof.mEvals msg.c -
        proof.q2Eval * domain.evaluateVanishingPolynomial msg.beta2 = 0
    · by_cases h₂ : e - proof.q1Eval * domain.evaluateVanishingPolynomial msg.beta1 = 0
      · exact ⟨sub_eq_zero.mp h₁, by rw [sub_eq_zero.mp h₂]⟩
      · simp [h₁, h₂, throw, throwThe, MonadExceptOf.throw] at hrest
    · simp [h₁, throw, throwThe, MonadExceptOf.throw] at hrest
  · rintro ⟨h₁, h₂⟩
    exact ⟨_, h₂, by simp [h₁, pure, Except.pure]⟩

theorem check_1_failed {proof : Proof F} {e : F}
    (he : computeFPrimeEval vo proof.hPrimeEvals msg.beta1 = .ok e)
    (h : bigM proof.mEvals msg.c ≠ proof.q2Eval * domain.evaluateVanishingPolynomial msg.beta2) :
    verifyFieldChecks proof vo domain msg = .error .check1Failed := by
  rw [verifyFieldChecks, he, ok_bind]
  simp [sub_eq_zero, h, throw, throwThe, MonadExceptOf.throw]

theorem bigM_proofFor (halpha : ∀ i ∈ List.range vo.numOfVariableTerms, vo.alpha i ≠ 0) :
    bigM (proofFor vo oracles domain rng msg f_prime).mEvals msg.c =
      ((List.range vo.numOfVariableTerms).map fun p =>
        (randomPolynomial (rng ((labelOrder vo.numOfVariableTerms).getD p 0))).evaluate msg.beta2 *
          msg.c ^ p).sum * domain.evaluateVanishingPolynomial msg.beta2 := by
  rw [proofFor, bigM_labelOrder, ← List.sum_map_mul_right]
  congr 1
  apply List.map_congr_left
  intro p hp
  have hlt : (labelOrder vo.numOfVariableTerms).getD p 0 < vo.numOfVariableTerms := by
    apply lt_of_mem_labelOrder
    have hp' : p < (labelOrder vo.numOfVariableTerms).length := by
      rw [length_labelOrder]
      exact List.mem_range.mp hp
    rw [List.getD_eq_getElem _ _ hp']
    exact List.getElem_mem hp'
  rw [evaluate_maskingAt vo domain rng (halpha _ (List.mem_range.mpr hlt))]
  ring

theorem q2Eval_proofFor : (proofFor vo oracles domain rng msg f_prime).q2Eval =
    ((List.range vo.numOfVariableTerms).map fun i =>
      (randomPolynomial (rng i)).evaluate msg.beta2 * msg.c ^ i).sum :=
  evaluate_q2At vo rng msg msg.beta2

omit rng oracles domain in
theorem shiftedTerms_valueAt (hs : Nat → DensePolynomial F) (x : F) :
    ((xPoly :: (List.range vo.numOfVariableTerms).map fun i =>
        shiftDensePoly (hs i) (vo.alpha i)).map VOTerm.polynomial).map (VOTerm.valueAt x) =
      x :: (List.range vo.numOfVariableTerms).map fun i => (hs i).evaluate (vo.alpha i * x) := by
  rw [List.map_map, List.map_cons, List.map_map]
  congr 1
  · exact evaluate_xPoly x
  · apply List.map_congr_left
    intro i _
    exact evaluate_shiftDensePoly _ _ _

theorem proverTerms_valueAt (x : F) :
    (proverTerms vo oracles domain rng).map (VOTerm.valueAt x) =
      x :: (List.range vo.numOfVariableTerms).map fun i =>
        (hPrimeAt vo oracles domain rng i).evaluate (vo.alpha i * x) :=
  shiftedTerms_valueAt (hPrimeAt vo oracles domain rng) x

theorem evaluate_f_prime
    (hf : vo.applyEvaluationFunction (proverTerms vo oracles domain rng) = .ok (.polynomial f_prime))
    (x : F) :
    vo.applyEvaluationFunction (CombineFunction.evaluations
        (x :: (List.range vo.numOfVariableTerms).map fun i =>
          (hPrimeAt vo oracles domain rng i).evaluate (vo.alpha i * x))) =
      .ok (.evaluation (f_prime.evaluate x)) := by
  rw [← proverTerms_valueAt x]
  exact CombineFunction.apply_evaluations _ x hf

theorem evaluateFromConcreteEvals_eq_ok {x e : F}
    (h : vo.evaluateFromConcreteEvals oracles x = .ok e) :
    vo.applyEvaluationFunction (CombineFunction.evaluations
        (x :: (List.range vo.numOfVariableTerms).map fun i =>
          (oracleAt vo oracles i).evaluate (vo.alpha i * x))) = .ok (.evaluation e) := by
  rw [GenericShiftingVO.evaluateFromConcreteEvals] at h
  obtain ⟨values, hvalues, hrest⟩ := bind_eq_ok_iff.mp h
  have heq : values = (List.range vo.numOfVariableTerms).map fun i =>
      (oracleAt vo oracles i).evaluate (vo.alpha i * x) := by
    rw [vo.mappingVector_zip, List.mapM_map, mapM_eq_ok_iff] at hvalues
    rw [← List.forall₂_eq_eq_eq, List.forall₂_map_right_iff]
    apply hvalues.flip.imp
    intro value i hvalue
    obtain ⟨oracle, horacle, heq⟩ := bind_eq_ok_iff.mp hvalue
    cases heq
    rw [require_eq_ok_iff] at horacle
    unfold oracleAt
    rw [List.getD_eq_getElem?_getD (l := oracles), horacle]
    rfl
  obtain ⟨t, ht, hrest⟩ := bind_eq_ok_iff.mp hrest
  rw [← heq, ht]
  cases t with
  | evaluation e' =>
    cases hrest
    rfl
  | polynomial p => cases hrest

theorem f_prime_vanishes
    (hf : vo.applyEvaluationFunction (proverTerms vo oracles domain rng) = .ok (.polynomial f_prime))
    (halpha : ∀ i ∈ List.range vo.numOfVariableTerms, vo.alpha i ≠ 0)
    (hvanish : vo.VanishesOn oracles domain) {x : F} (hx : x ∈ domain.elements) :
    f_prime.evaluate x = 0 := by
  have hmask : ∀ i ∈ List.range vo.numOfVariableTerms,
      (hPrimeAt vo oracles domain rng i).evaluate (vo.alpha i * x) =
        (oracleAt vo oracles i).evaluate (vo.alpha i * x) := by
    intro i hi
    rw [hPrimeAt, DensePolynomial.evaluate_add, evaluate_maskingAt vo domain rng (halpha i hi),
      domain.evaluateVanishingPolynomial_eq_zero.mpr hx, mul_zero, add_zero]
  have heval := evaluate_f_prime hf x
  rw [List.map_congr_left hmask, evaluateFromConcreteEvals_eq_ok (hvanish x hx)] at heval
  injection heval with heval
  injection heval with heval
  exact heval.symm

theorem q_1_mul_vanishing
    (hf : vo.applyEvaluationFunction (proverTerms vo oracles domain rng) = .ok (.polynomial f_prime))
    (halpha : ∀ i ∈ List.range vo.numOfVariableTerms, vo.alpha i ≠ 0)
    (hvanish : vo.VanishesOn oracles domain) (x : F) :
    (computeQ1 domain f_prime).evaluate x * domain.evaluateVanishingPolynomial x =
      f_prime.evaluate x := by
  have hdvd : domain.vanishingPolynomial.toPoly ∣ f_prime.toPoly := by
    apply domain.vanishingPolynomial_dvd
    intro y hy
    rw [DensePolynomial.eval_toPoly]
    exact f_prime_vanishes hf halpha hvanish hy
  have hmul := DensePolynomial.divideWithQAndR_of_dvd domain.trimmed_vanishingPolynomial
    domain.vanishingPolynomial_length_pos hdvd
  have heval := congrArg (Polynomial.eval x) hmul
  rw [Polynomial.eval_mul, DensePolynomial.eval_toPoly, DensePolynomial.eval_toPoly,
    DensePolynomial.eval_toPoly, domain.evaluate_vanishingPolynomial] at heval
  exact heval

theorem verifyFieldChecks_proofFor (hn : vo.numOfVariableTerms ≤ 10)
    (hf : vo.applyEvaluationFunction (proverTerms vo oracles domain rng) = .ok (.polynomial f_prime))
    (halpha : ∀ i ∈ List.range vo.numOfVariableTerms, vo.alpha i ≠ 0)
    (hvanish : vo.VanishesOn oracles domain) :
    verifyFieldChecks (proofFor vo oracles domain rng msg f_prime) vo domain msg = .ok () := by
  rw [verifyFieldChecks_eq_ok_iff]
  refine ⟨?_, ?_⟩
  · rw [bigM_proofFor halpha, q2Eval_proofFor, labelOrder_of_le_ten hn]
    congr 2
    apply List.map_congr_left
    intro p hp
    rw [List.getD_eq_getElem _ _ (by rw [List.length_range]; exact List.mem_range.mp hp),
      List.getElem_range]
  · have hq1 := q_1_mul_vanishing hf halpha hvanish msg.beta1
    rw [computeFPrimeEval, proofFor]
    dsimp only
    rw [labelOrder_of_le_ten hn, evaluate_f_prime hf, ok_bind, hq1]
    rfl

/-- The randomness that makes every random polynomial zero but the one at index `j`. -/
def singleMask (F : Type) [Field F] (j : Nat) : Nat → F × F :=
  fun i => if i = j then (1, 0) else (0, 0)

omit [DecidableEq F] in
theorem evaluate_singleMask [DecidableEq F] (j i : Nat) (x : F) :
    (randomPolynomial (singleMask F j i)).evaluate x = if i = j then 1 else 0 := by
  rw [evaluate_randomPolynomial, singleMask]
  by_cases hi : i = j
  · simp [hi]
  · simp [hi]

/-- A masking whose index has left its place: the verifier takes another power of `c` for it. -/
theorem check_1_failed_of_moved {p₀ j : Nat}
    (hmoved : (labelOrder vo.numOfVariableTerms)[p₀]? = some j) (hne : j ≠ p₀)
    (hc : ∀ p < vo.numOfVariableTerms, ∀ i < vo.numOfVariableTerms, msg.c ^ p = msg.c ^ i → p = i)
    (hbeta2 : msg.beta2 ∉ domain.elements) {bound : Option Nat} {supported : Nat} {proof : Proof F}
    (hproof : prove oracles bound vo domain supported (singleMask F j) msg = .ok proof) :
    verifyFieldChecks proof vo domain msg = .error .check1Failed := by
  obtain ⟨_, halpha, _, f_prime, hf, rfl⟩ := (prove_eq_ok_iff _ _ _ _ _ _ _).mp hproof
  have hlen := length_labelOrder vo.numOfVariableTerms
  obtain ⟨hp₀, hj⟩ := List.getElem?_eq_some_iff.mp hmoved
  have hj₀ : j < vo.numOfVariableTerms := by
    rw [← hj]
    exact lt_of_mem_labelOrder (List.getElem_mem hp₀)
  rw [hlen] at hp₀
  have hterms : vo.combineFunction.termsBelow (msg.beta1 ::
      (proofFor vo oracles domain (singleMask F j) msg f_prime).hPrimeEvals).length = true := by
    have hbelow := CombineFunction.termsBelow_of_apply hf
    simp only [proverTerms, List.length_map, List.length_cons, List.length_range] at hbelow
    simp only [proofFor, List.length_map, List.length_cons, hlen]
    exact hbelow
  have hf' := CombineFunction.apply_evaluations_eq hterms
  apply check_1_failed
  · rw [computeFPrimeEval, GenericShiftingVO.applyEvaluationFunction, hf', ok_bind]
    rfl
  -- one power of the challenge is left on each side
  rw [bigM_proofFor halpha, q2Eval_proofFor]
  intro heq
  have hz : domain.evaluateVanishingPolynomial msg.beta2 ≠ 0 := fun hz =>
    hbeta2 (domain.evaluateVanishingPolynomial_eq_zero.mp hz)
  have hsum := mul_right_cancel₀ hz heq
  simp only [evaluate_singleMask] at hsum
  have hleft : ((List.range vo.numOfVariableTerms).map fun p =>
      (if (labelOrder vo.numOfVariableTerms).getD p 0 = j then (1 : F) else 0) * msg.c ^ p).sum =
        msg.c ^ p₀ := by
    have hmap : ((List.range vo.numOfVariableTerms).map fun p =>
        (if (labelOrder vo.numOfVariableTerms).getD p 0 = j then (1 : F) else 0) * msg.c ^ p) =
        (List.range vo.numOfVariableTerms).map fun p => if p = p₀ then msg.c ^ p else 0 := by
      apply List.map_congr_left
      intro p hp
      have hp' : p < (labelOrder vo.numOfVariableTerms).length := by
        rw [hlen]
        exact List.mem_range.mp hp
      have hplace : (labelOrder vo.numOfVariableTerms).getD p 0 = j ↔ p = p₀ := by
        rw [List.getD_eq_getElem _ _ hp', ← hj, (labelOrder_nodup _).getElem_inj_iff]
      rw [if_congr hplace rfl rfl, ite_mul, one_mul, zero_mul]
    rw [hmap, sum_range_single _ hp₀]
  have hright : ((List.range vo.numOfVariableTerms).map fun i =>
      (if i = j then (1 : F) else 0) * msg.c ^ i).sum = msg.c ^ j := by
    simp only [ite_mul, one_mul, zero_mul]
    exact sum_range_single _ hj₀
  rw [hleft, hright] at hsum
  exact hne (hc _ hp₀ _ hj₀ hsum).symm

end Checks

/-! ### Completeness by the number of terms -/

section Complete

/-- Every proof the prover returns for a virtual oracle of `n` terms passes the field checks. -/
def Complete (n : Nat) : Prop :=
  ∀ (F : Type) [Field F] [DecidableEq F] (domain : EvaluationDomain F) (vo : GenericShiftingVO F)
    (oracles : List (DensePolynomial F)) (bound : Option Nat) (supported : Nat)
    (rng : Nat → F × F) (msg : VerifierFirstMsg F) (proof : Proof F),
    vo.numOfVariableTerms = n → (∀ alpha ∈ vo.shiftingCoefficients, alpha ≠ 0) →
    vo.VanishesOn oracles domain → msg.beta1 ∉ domain.elements → msg.beta2 ∉ domain.elements →
    msg.c ∉ domain.elements → prove oracles bound vo domain supported rng msg = .ok proof →
    verifyFieldChecks proof vo domain msg = .ok ()

def trivialDomain (F : Type) [Field F] : EvaluationDomain F :=
  ⟨1, 1, Nat.one_pos, IsPrimitiveRoot.one⟩

omit [DecidableEq F] in
theorem mem_trivialDomain {x : F} : x ∈ (trivialDomain F).elements ↔ x = 1 := by
  rw [EvaluationDomain.mem_elements, trivialDomain, pow_one]

/-- The first of `n` copies of one oracle against the second. -/
def equalityVO (F : Type) [Field F] (n : Nat) (hn : 1 < n) : GenericShiftingVO F where
  mappingVector := List.replicate n 0
  shiftingCoefficients := List.replicate n 1
  combineFunction := CombineFunction.equalityCheck
  minimumOracleLength := 0
  lengths := by rw [List.length_replicate, List.length_replicate]
  minimum := List.max?_replicate_of_pos (by omega)

variable {n : Nat} (hn : 1 < n)

omit [DecidableEq F] in
theorem equalityVO_numOfVariableTerms : (equalityVO F n hn).numOfVariableTerms = n :=
  List.length_replicate

omit [DecidableEq F] in
theorem equalityVO_alpha {i : Nat} (hi : i < n) : (equalityVO F n hn).alpha i = 1 := by
  rw [GenericShiftingVO.alpha, equalityVO, List.getD_eq_getElem _ _ (by simpa using hi)]
  exact List.getElem_replicate _

theorem equalityVO_vanishesOn (domain : EvaluationDomain F) :
    (equalityVO F n hn).VanishesOn [0] domain := by
  intro x _
  have hterms : (List.zip (List.replicate n 0) (List.replicate n (1 : F))).mapM
      (fun entry => do
        let oracle ← require ([(0 : DensePolynomial F)])[entry.1]?
        return oracle.evaluate (entry.2 * x)) =
      (.ok (List.replicate n 0) : Except Error (List F)) := by
    rw [List.zip_replicate', mapM_eq_ok_iff, List.forall₂_iff_get]
    simp [require, pure, Except.pure]
  refine bind_eq_of_ok hterms ?_
  have hpos : 0 < n := by omega
  simp [GenericShiftingVO.applyEvaluationFunction, equalityVO, CombineFunction.equalityCheck,
    CombineFunction.apply, CombineFunction.evaluations, require, hn, hpos, VOTerm.sub, pure,
    Except.pure]

theorem exists_prove_equalityVO (domain : EvaluationDomain F) (rng : Nat → F × F)
    (msg : VerifierFirstMsg F) :
    ∃ proof, prove [0] none (equalityVO F n hn) domain 0 rng msg = .ok proof := by
  have hpos : 0 < n := by omega
  have hf : ∃ f_prime, (equalityVO F n hn).applyEvaluationFunction
      (proverTerms (equalityVO F n hn) [0] domain rng) = .ok (.polynomial f_prime) := by
    refine ⟨shiftDensePoly (hPrimeAt (equalityVO F n hn) [0] domain rng 0)
        ((equalityVO F n hn).alpha 0) -
      shiftDensePoly (hPrimeAt (equalityVO F n hn) [0] domain rng 1)
        ((equalityVO F n hn).alpha 1), ?_⟩
    rw [proverTerms, equalityVO_numOfVariableTerms]
    simp [GenericShiftingVO.applyEvaluationFunction, equalityVO, CombineFunction.equalityCheck,
      CombineFunction.apply, require, hn, hpos, VOTerm.sub, pure, Except.pure]
  obtain ⟨f_prime, hf⟩ := hf
  refine ⟨_, (prove_eq_ok_iff _ _ _ _ _ none 0).mpr ⟨rfl, ?_, ?_, f_prime, hf, rfl⟩⟩
  · intro i hi
    rw [equalityVO_numOfVariableTerms, List.mem_range] at hi
    rw [equalityVO_alpha hn hi]
    exact one_ne_zero
  · intro index hindex
    rw [equalityVO] at hindex
    rw [List.eq_of_mem_replicate hindex]
    exact Nat.one_pos

theorem complete_of_le_ten (hn : n ≤ 10) : Complete n := by
  intro F _ _ domain vo oracles bound supported rng msg proof hterms _ hvanish _ _ _ hproof
  obtain ⟨_, halpha, _, f_prime, hf, rfl⟩ :=
    (prove_eq_ok_iff vo oracles domain rng msg bound supported).mp hproof
  exact verifyFieldChecks_proofFor (by omega) hf halpha hvanish

theorem two_pow_injOn {q : Nat} (hq : 2 ^ n < q) {p j : Nat} (hp : p < n) (hj : j < n)
    (h : (2 : ZMod q) ^ p = 2 ^ j) : p = j := by
  have hpq : 2 ^ p < q := (Nat.pow_lt_pow_right (by omega) hp).trans hq
  have hjq : 2 ^ j < q := (Nat.pow_lt_pow_right (by omega) hj).trans hq
  have hcast : ((2 ^ p : Nat) : ZMod q) = ((2 ^ j : Nat) : ZMod q) := by
    push_cast
    exact h
  rw [ZMod.natCast_eq_natCast_iff, Nat.ModEq, Nat.mod_eq_of_lt hpq, Nat.mod_eq_of_lt hjq] at hcast
  exact Nat.pow_right_injective (le_refl 2) hcast

theorem not_complete_of_ten_lt (hn : 10 < n) : ¬ Complete n := by
  intro hcomplete
  obtain ⟨q, hq, hprime⟩ := Nat.exists_infinite_primes (2 ^ n + 1)
  have : Fact q.Prime := ⟨hprime⟩
  have hn' : 1 < n := by omega
  have hterms : (equalityVO (ZMod q) n hn').numOfVariableTerms = n :=
    equalityVO_numOfVariableTerms hn'
  have hone : (2 : ZMod q) ≠ 1 := by
    intro h
    have hpow : (2 : ZMod q) ^ 1 = 2 ^ 0 := by rw [pow_one, pow_zero, h]
    exact absurd (two_pow_injOn (n := n) (by omega) hn' (by omega) hpow) one_ne_zero
  have hzero : (0 : ZMod q) ∉ (trivialDomain (ZMod q)).elements := by
    rw [mem_trivialDomain]
    exact zero_ne_one
  have hpow : ∀ p < (equalityVO (ZMod q) n hn').numOfVariableTerms,
      ∀ i < (equalityVO (ZMod q) n hn').numOfVariableTerms, (2 : ZMod q) ^ p = 2 ^ i → p = i := by
    rw [hterms]
    intro p hp i hi
    exact two_pow_injOn (n := n) (by omega) hp hi
  obtain ⟨p₀, hp₀, hne⟩ := exists_labelOrder_ne hn
  obtain ⟨proof, hproof⟩ := exists_prove_equalityVO hn' (trivialDomain (ZMod q))
    (singleMask (ZMod q) (labelOrder n)[p₀]) ⟨0, 0, 2⟩
  have hfail := check_1_failed_of_moved
    (by rw [hterms]; exact List.getElem?_eq_getElem hp₀) hne hpow hzero hproof
  have hok := hcomplete (ZMod q) _ _ [0] none 0 _ ⟨0, 0, 2⟩ proof hterms
    (by
      intro alpha halpha
      rw [List.eq_of_mem_replicate halpha]
      exact one_ne_zero)
    (equalityVO_vanishesOn hn' _) hzero hzero
    (by
      rw [mem_trivialDomain]
      exact hone) hproof
  rw [hok] at hfail
  cases hfail

instance factPrimeNinetySeven : Fact (Nat.Prime 97) := ⟨by norm_num⟩

/-- Eleven copies of the zero polynomial, and one masking that is not zero. -/
theorem eleven_terms_check_1_failed :
    (equalityVO (ZMod 97) 11 (by decide)).VanishesOn [0] (trivialDomain (ZMod 97)) ∧
      ∃ proof, prove [0] none (equalityVO (ZMod 97) 11 (by decide)) (trivialDomain (ZMod 97)) 0
          (singleMask (ZMod 97) 10) ⟨0, 0, 2⟩ = .ok proof ∧
        verifyFieldChecks proof (equalityVO (ZMod 97) 11 (by decide)) (trivialDomain (ZMod 97))
          ⟨0, 0, 2⟩ = .error .check1Failed := by
  refine ⟨equalityVO_vanishesOn _ _, ?_⟩
  obtain ⟨proof, hproof⟩ := exists_prove_equalityVO (n := 11) (by decide)
    (trivialDomain (ZMod 97)) (singleMask (ZMod 97) 10) ⟨0, 0, 2⟩
  have hmoved : (labelOrder (equalityVO (ZMod 97) 11 (by decide)).numOfVariableTerms)[2]? = some 10 := by
    decide
  refine ⟨proof, hproof, check_1_failed_of_moved hmoved (by decide) (by decide) ?_ hproof⟩
  rw [mem_trivialDomain]
  decide

/-- Completeness holds up to ten terms and fails from eleven on. -/
theorem complete_iff_le_ten (n : Nat) : Complete n ↔ n ≤ 10 := by
  constructor
  · intro h
    by_contra hlt
    exact not_complete_of_ten_lt (by omega) h
  · exact complete_of_le_ten

end Complete

end Lootbox.ZeroOverK

import Lootbox.Commitment.IdealCommitments

/-!
# `zero_over_k`: soundness

The verifier reads the commitments under their labels. When what it samples holds for every
point and for as many challenges as there are terms, each masking is zero at the shifted
points of the domain, and the virtual oracle vanishes without the maskings too.
-/

namespace Lootbox.ZeroOverK

open FunctionRelation (LinearCombination hPrimeLinearCombination)

variable {F : Type} [Field F] [DecidableEq F]

/-! ### The verifier -/

def getTermLabels (vo : GenericShiftingVO F) (concrete_oracle_labels : List PolynomialLabel) :
    Except Error (List PolynomialLabel) :=
  vo.mappingVector.mapM fun index => require concrete_oracle_labels[index]?

def generateHPrimeLinearCombinations (vo : GenericShiftingVO F)
    (concrete_oracle_labels : List PolynomialLabel) : Except Error (List (LinearCombination F)) := do
  let h_labels ← getTermLabels vo concrete_oracle_labels
  (List.range vo.numOfVariableTerms).mapM fun i => do
    let h_label ← require h_labels[i]?
    return hPrimeLinearCombination i h_label

def generateQ2LinearCombination (vo : GenericShiftingVO F) (q2_separation_challenge : F) :
    LinearCombination F :=
  let r_labels := (List.range vo.numOfVariableTerms).map rLabel
  ⟨"q_2", (r_labels.zip (powersOf q2_separation_challenge r_labels.length)).map
    fun (r_label, challenge_power) => (challenge_power, r_label)⟩

/-- `aggregate_commitments`, the commitments being polynomials. -/
def aggregateCommitted (committed : PolynomialLabel → DensePolynomial F)
    (lc : LinearCombination F) : LabeledPolynomial F :=
  ⟨lc.label, lc.terms.foldl (fun acc (coef, label) => acc + (committed label).scale coef) 0⟩

/-- Every query is answered by the value of what is committed under its label. -/
def batchCheck (commitments : List (LabeledPolynomial F)) (query_set : List (PolynomialLabel × F))
    (evaluations : List ((PolynomialLabel × F) × F)) : Bool :=
  query_set.all fun (label, point) =>
    match commitments.find? (fun p => p.label == label), evaluations.reverse.lookup (label, point) with
    | some p, some eval => decide (eval = p.polynomial.evaluate point)
    | _, _ => false

/-- `ZeroOverK::verify`. The commitments `r_i`, `m_i` and `q_1` of the proof and those to the
concrete oracles are what is committed under their labels. -/
def verify (proof : Proof F) (committed : PolynomialLabel → DensePolynomial F)
    (concrete_oracle_labels : List PolynomialLabel) (maximum_oracle_degree_bound : Option Nat)
    (vo : GenericShiftingVO F) (domain : EvaluationDomain F) (supported_degree : Nat)
    (msg : VerifierFirstMsg F) : Except FunctionRelation.Error Unit := do
  (checkSupportedDegree maximum_oracle_degree_bound supported_degree).mapError .zeroOverK
  let query_set := verifierQuerySet vo.shiftingCoefficients msg
  let m_commitments := (List.range vo.numOfVariableTerms).map fun i =>
    (⟨mLabel i, committed (mLabel i)⟩ : LabeledPolynomial F)
  let h_prime_lcs ←
    (generateHPrimeLinearCombinations vo concrete_oracle_labels).mapError .zeroOverK
  let h_prime_commitments := h_prime_lcs.map (aggregateCommitted committed)
  let q2_commit := aggregateCommitted committed (generateQ2LinearCombination vo msg.c)
  let evals := proof.hPrimeEvals ++ proof.mEvals ++ [proof.q1Eval] ++ [proof.q2Eval]
  -- the order of the labels says which evaluation answers which query
  let evaluation_labels := query_set.insertionSort fun a b => a.1 ≤ b.1
  let evaluations := evaluation_labels.zip evals
  let commitments := m_commitments ++ h_prime_commitments ++ [⟨"q_1", committed "q_1"⟩] ++ [q2_commit]
  if batchCheck commitments query_set evaluations = false then throw .batchCheckError
  (verifyFieldChecks proof vo domain msg).mapError .zeroOverK

/-! ### The combinations -/

section Combinations

variable {vo : GenericShiftingVO F} {committed : PolynomialLabel → DensePolynomial F}
  {concrete_oracle_labels : List PolynomialLabel}

def termLabel (vo : GenericShiftingVO F) (concrete_oracle_labels : List PolynomialLabel) (i : Nat) :
    PolynomialLabel :=
  concrete_oracle_labels.getD (vo.mappingVector.getD i 0) ""

omit [DecidableEq F] in
theorem generateHPrimeLinearCombinations_eq_ok {lcs : List (LinearCombination F)}
    (h : generateHPrimeLinearCombinations vo concrete_oracle_labels = .ok lcs) :
    (∀ index ∈ vo.mappingVector, index < concrete_oracle_labels.length) ∧
      lcs = (List.range vo.numOfVariableTerms).map fun i =>
        hPrimeLinearCombination i (termLabel vo concrete_oracle_labels i) := by
  obtain ⟨h_labels, hlabels, hrest⟩ := bind_eq_ok_iff.mp h
  have hmap : (∀ index ∈ vo.mappingVector, index < concrete_oracle_labels.length) ∧
      h_labels = vo.mappingVector.map fun index => concrete_oracle_labels.getD index "" := by
    refine (mapM_eq_ok_map_iff ?_).mp hlabels
    exact fun index _ y => require_getElem?_eq_ok_iff ""
  obtain ⟨hindex, rfl⟩ := hmap
  refine ⟨hindex, ?_⟩
  have hlcs : ((List.range vo.numOfVariableTerms).mapM fun i => do
      let h_label ← require (vo.mappingVector.map fun index =>
        concrete_oracle_labels.getD index "")[i]?
      return hPrimeLinearCombination i h_label) =
      (.ok ((List.range vo.numOfVariableTerms).map fun i =>
        hPrimeLinearCombination i (termLabel vo concrete_oracle_labels i)) :
        Except Error (List (LinearCombination F))) := by
    apply mapM_eq_ok_map
    intro i hi
    have hlt : i < vo.mappingVector.length := List.mem_range.mp hi
    rw [List.getElem?_map, List.getElem?_eq_getElem hlt, Option.map_some, require, need_some,
      ok_bind, termLabel, List.getD_eq_getElem vo.mappingVector _ hlt]
    rfl
  rw [hlcs] at hrest
  cases hrest
  rfl

/-- What the verifier takes for the commitment to `h_prime_i`. -/
def hPrimeCommitted (vo : GenericShiftingVO F) (committed : PolynomialLabel → DensePolynomial F)
    (concrete_oracle_labels : List PolynomialLabel) (i : Nat) : DensePolynomial F :=
  (aggregateCommitted committed
    (hPrimeLinearCombination i (termLabel vo concrete_oracle_labels i))).polynomial

theorem evaluate_hPrimeCommitted (i : Nat) (x : F) :
    (hPrimeCommitted vo committed concrete_oracle_labels i).evaluate x =
      (committed (termLabel vo concrete_oracle_labels i)).evaluate x +
        (committed (mLabel i)).evaluate x := by
  simp only [hPrimeCommitted, aggregateCommitted, hPrimeLinearCombination, List.foldl_cons,
    List.foldl_nil, DensePolynomial.evaluate_add, DensePolynomial.evaluate_scale,
    DensePolynomial.evaluate_zero, one_mul, zero_add]

end Combinations

/-! ### The order of the queries -/

section QueryOrder

theorem familyLabel_lt (family : String) {i j : Nat} (hij : i < j) (hj : j < 10) :
    familyLabel family i < familyLabel family j := by
  apply lt_of_le_of_ne
  · exact (familyLabel_le_iff family).mpr (digitsLe_of_lt_ten j hj i hij)
  · intro heq
    have := familyLabel_injective family heq
    omega

theorem familyLabels_sorted (family : String) {n : Nat} (hn : n ≤ 10) :
    ((List.range n).map (familyLabel family)).Pairwise (· < ·) := by
  rw [List.pairwise_map]
  apply List.pairwise_lt_range.imp_of_mem
  intro i j _ hj hij
  have := List.mem_range.mp hj
  exact familyLabel_lt family hij (by omega)

theorem label_lt_of_head {c d : Char} {cs ds : List Char} {a b : PolynomialLabel}
    (ha : a.toList = c :: cs) (hb : b.toList = d :: ds) (hcd : c < d) : a < b := by
  rw [String.lt_iff_toList_lt, ha, hb, List.cons_lt_cons_iff]
  exact .inl hcd

def sortedLabels (n : Nat) : List PolynomialLabel :=
  (List.range n).map hPrimeLabel ++ (List.range n).map mLabel ++ ["q_1"] ++ ["q_2"]

theorem sortedLabels_sorted {n : Nat} (hn : n ≤ 10) : (sortedLabels n).Pairwise (· < ·) := by
  have hprime : ∀ i, ∃ cs, (hPrimeLabel i).toList = 'h' :: cs :=
    fun i => ⟨_, toList_familyLabel "h_prime_" i⟩
  have hm : ∀ i, ∃ cs, (mLabel i).toList = 'm' :: cs := fun i => ⟨_, toList_familyLabel "m_" i⟩
  have hq : ∀ label ∈ (["q_1", "q_2"] : List PolynomialLabel), ∃ cs, label.toList = 'q' :: cs := by
    simp
  rw [sortedLabels, List.append_assoc _ ["q_1"]]
  refine List.pairwise_append.mpr ⟨List.pairwise_append.mpr
    ⟨familyLabels_sorted "h_prime_" hn, familyLabels_sorted "m_" hn, ?_⟩, by decide, ?_⟩
  · intro a ha b hb
    obtain ⟨i, _, rfl⟩ := List.mem_map.mp ha
    obtain ⟨j, _, rfl⟩ := List.mem_map.mp hb
    obtain ⟨cs, hcs⟩ := hprime i
    obtain ⟨ds, hds⟩ := hm j
    exact label_lt_of_head hcs hds (by decide)
  · intro a ha b hb
    obtain ⟨ds, hds⟩ := hq b hb
    rcases List.mem_append.mp ha with ha | ha
    · obtain ⟨i, _, rfl⟩ := List.mem_map.mp ha
      obtain ⟨cs, hcs⟩ := hprime i
      exact label_lt_of_head hcs hds (by decide)
    · obtain ⟨i, _, rfl⟩ := List.mem_map.mp ha
      obtain ⟨cs, hcs⟩ := hm i
      exact label_lt_of_head hcs hds (by decide)

variable (vo : GenericShiftingVO F) (msg : VerifierFirstMsg F)

def sortedQueries : List (PolynomialLabel × F) :=
  (List.range vo.numOfVariableTerms).map (fun i => (hPrimeLabel i, vo.alpha i * msg.beta1)) ++
    (List.range vo.numOfVariableTerms).map (fun i => (mLabel i, vo.alpha i * msg.beta2)) ++
    [("q_1", msg.beta1)] ++ [("q_2", msg.beta2)]

omit [DecidableEq F] in
theorem map_fst_sortedQueries :
    (sortedQueries vo msg).map Prod.fst = sortedLabels vo.numOfVariableTerms := by
  simp only [sortedQueries, sortedLabels, List.map_append, List.map_map, List.map_cons,
    List.map_nil]
  rfl

omit [DecidableEq F] in
theorem verifierQuerySet_perm :
    (verifierQuerySet vo.shiftingCoefficients msg).Perm (sortedQueries vo msg) := by
  have hflat := List.flatMap_append_perm (List.range vo.numOfVariableTerms)
    (fun i => [(hPrimeLabel i, vo.alpha i * msg.beta1)])
    (fun i => [(mLabel i, vo.alpha i * msg.beta2)])
  rw [← List.map_eq_flatMap, ← List.map_eq_flatMap] at hflat
  rw [verifierQuerySet, sortedQueries, vo.shiftingCoefficients_eq, zipIdx_map_range,
    List.flatMap_map, List.append_assoc _ [("q_1", msg.beta1)]]
  exact hflat.symm.append_right _

omit [DecidableEq F] in
theorem nodup_sortedQueries (hn : vo.numOfVariableTerms ≤ 10) :
    ((sortedQueries vo msg).map Prod.fst).Nodup := by
  rw [map_fst_sortedQueries]
  exact (sortedLabels_sorted hn).imp ne_of_lt

omit [DecidableEq F] in
theorem insertionSort_verifierQuerySet (hn : vo.numOfVariableTerms ≤ 10) :
    (verifierQuerySet vo.shiftingCoefficients msg).insertionSort (fun a b => a.1 ≤ b.1) =
      sortedQueries vo msg := by
  have hperm := (List.perm_insertionSort (fun a b : PolynomialLabel × F => a.1 ≤ b.1)
    (verifierQuerySet vo.shiftingCoefficients msg)).trans (verifierQuerySet_perm vo msg)
  have : Std.Total fun a b : PolynomialLabel × F => a.1 ≤ b.1 := ⟨fun a b => le_total a.1 b.1⟩
  have : IsTrans (PolynomialLabel × F) fun a b => a.1 ≤ b.1 := ⟨fun _ _ _ hab hbc => hab.trans hbc⟩
  refine List.Perm.eq_of_pairwise ?_ (List.pairwise_insertionSort _ _) ?_ hperm
  · intro a b ha hb hab hba
    exact List.inj_on_of_nodup_map (nodup_sortedQueries vo msg hn) (hperm.mem_iff.mp ha) hb
      (le_antisymm hab hba)
  · have hsorted := sortedLabels_sorted hn
    rw [← map_fst_sortedQueries vo msg, List.pairwise_map] at hsorted
    exact hsorted.imp le_of_lt

end QueryOrder

/-! ### What an accepted proof opens -/

section Accepted

variable {vo : GenericShiftingVO F} {committed : PolynomialLabel → DensePolynomial F}
  {concrete_oracle_labels : List PolynomialLabel} {msg : VerifierFirstMsg F}

omit [Field F] [DecidableEq F] in
theorem lookup_reverse_of_mem {α β : Type} [BEq α] [LawfulBEq α] {xs : List (α × β)} {a : α} {b : β}
    (hnodup : (xs.map Prod.fst).Nodup) (h : (a, b) ∈ xs) : xs.reverse.lookup a = some b := by
  obtain ⟨s, t, hsplit⟩ := List.append_of_mem (List.mem_reverse.mpr h)
  rw [List.lookup_eq_some_iff]
  refine ⟨s, t, hsplit, ?_⟩
  rintro p hp
  have hkeys : (xs.reverse.map Prod.fst).Nodup := by
    rw [List.map_reverse]
    exact List.nodup_reverse.mpr hnodup
  rw [hsplit, List.map_append, List.map_cons] at hkeys
  rw [bne_iff_ne]
  rintro rfl
  exact (List.nodup_append.mp hkeys).2.2 p.1 (List.mem_map_of_mem hp) p.1 (List.mem_cons_self ..) rfl

theorem eval_of_batchCheck {commitments : List (LabeledPolynomial F)}
    {query_set queries : List (PolynomialLabel × F)} {evals : List F}
    (hlen : queries.length ≤ evals.length) (hperm : query_set.Perm queries)
    (hnodup : (queries.map Prod.fst).Nodup)
    (hcheck : batchCheck commitments query_set (queries.zip evals) = true)
    {label : PolynomialLabel} {point eval : F}
    (hmem : ((label, point), eval) ∈ queries.zip evals) {p : LabeledPolynomial F}
    (hp : commitments.find? (fun p => p.label == label) = some p) :
    eval = p.polynomial.evaluate point := by
  have hkeys : ((queries.zip evals).map Prod.fst).Nodup := by
    rw [List.map_fst_zip hlen]
    exact hnodup.of_map
  have hquery := List.all_eq_true.mp hcheck (label, point)
    (hperm.mem_iff.mpr (List.of_mem_zip hmem).1)
  dsimp only at hquery
  rw [hp, lookup_reverse_of_mem hkeys hmem] at hquery
  exact of_decide_eq_true hquery

variable (vo committed concrete_oracle_labels msg) in
/-- The evaluations are those of the committed polynomials. -/
structure Opens (proof : Proof F) : Prop where
  hPrimes : proof.hPrimeEvals = (List.range vo.numOfVariableTerms).map fun i =>
    (hPrimeCommitted vo committed concrete_oracle_labels i).evaluate (vo.alpha i * msg.beta1)
  ms : proof.mEvals = (List.range vo.numOfVariableTerms).map fun i =>
    (committed (mLabel i)).evaluate (vo.alpha i * msg.beta2)
  q1 : proof.q1Eval = (committed "q_1").evaluate msg.beta1
  q2 : proof.q2Eval = (aggregateCommitted committed
    (generateQ2LinearCombination vo msg.c)).polynomial.evaluate msg.beta2

omit [Field F] [DecidableEq F] in
theorem eq_map_range_of_zip {α : Type} {n : Nat} {q : Nat → α} {value : Nat → F} {evals : List F}
    (hlen : evals.length = n)
    (h : ∀ i < n, ∀ eval, (q i, eval) ∈ ((List.range n).map q).zip evals → eval = value i) :
    evals = (List.range n).map value := by
  apply List.ext_getElem
  · rw [hlen, List.length_map, List.length_range]
  · intro i h₁ h₂
    have hi : i < n := by omega
    rw [List.getElem_map, List.getElem_range]
    apply h i hi
    have hzip : i < (((List.range n).map q).zip evals).length := by
      rw [List.length_zip, List.length_map, List.length_range, hlen, Nat.min_self]
      exact hi
    have hget := List.getElem_mem hzip
    rw [List.getElem_zip, List.getElem_map, List.getElem_range] at hget
    exact hget

theorem opens_of_batchCheck {proof : Proof F} (hn : vo.numOfVariableTerms ≤ 10)
    (hprimes : proof.hPrimeEvals.length = vo.numOfVariableTerms)
    (hms : proof.mEvals.length = vo.numOfVariableTerms)
    (hcheck : batchCheck (openedPolynomials vo.numOfVariableTerms
        (hPrimeCommitted vo committed concrete_oracle_labels) (fun i => committed (mLabel i))
        (committed "q_1")
        (aggregateCommitted committed (generateQ2LinearCombination vo msg.c)).polynomial)
      (verifierQuerySet vo.shiftingCoefficients msg)
      ((sortedQueries vo msg).zip
        (proof.hPrimeEvals ++ proof.mEvals ++ [proof.q1Eval] ++ [proof.q2Eval])) = true) :
    Opens vo committed concrete_oracle_labels msg proof := by
  have hlen : (sortedQueries vo msg).length ≤
      (proof.hPrimeEvals ++ proof.mEvals ++ [proof.q1Eval] ++ [proof.q2Eval]).length := by
    simp only [sortedQueries, List.length_append, List.length_map, List.length_range,
      List.length_singleton, hprimes, hms, le_refl]
  have hanswer : ∀ query eval p, (query, eval) ∈ (sortedQueries vo msg).zip
      (proof.hPrimeEvals ++ proof.mEvals ++ [proof.q1Eval] ++ [proof.q2Eval]) →
      findOpened vo.numOfVariableTerms (hPrimeCommitted vo committed concrete_oracle_labels)
        (fun i => committed (mLabel i)) (committed "q_1")
        (aggregateCommitted committed (generateQ2LinearCombination vo msg.c)).polynomial query.1 =
          some p → eval = p.polynomial.evaluate query.2 := by
    intro query eval p hmem hp
    exact eval_of_batchCheck hlen (verifierQuerySet_perm vo msg) (nodup_sortedQueries vo msg hn)
      hcheck hmem hp
  rw [sortedQueries, List.zip_append (by simp [hprimes, hms]), List.zip_append (by simp [hprimes, hms]),
    List.zip_append (by simp [hprimes])] at hanswer
  constructor
  · apply eq_map_range_of_zip (q := fun i => (hPrimeLabel i, vo.alpha i * msg.beta1)) hprimes
    intro i hi eval hmem
    refine hanswer (hPrimeLabel i, vo.alpha i * msg.beta1) _ _ ?_ (findOpened_hPrime _ _ _ _ _ hi)
    exact List.mem_append_left _ (List.mem_append_left _ (List.mem_append_left _ hmem))
  · apply eq_map_range_of_zip (q := fun i => (mLabel i, vo.alpha i * msg.beta2)) hms
    intro i hi eval hmem
    refine hanswer (mLabel i, vo.alpha i * msg.beta2) _ _ ?_ (findOpened_m _ _ _ _ _ hi)
    exact List.mem_append_left _ (List.mem_append_left _ (List.mem_append_right _ hmem))
  · refine hanswer ("q_1", msg.beta1) _ _ ?_ (findOpened_q1 _ _ _ _ _)
    exact List.mem_append_left _ (List.mem_append_right _ (List.mem_singleton_self _))
  · refine hanswer ("q_2", msg.beta2) _ _ ?_ (findOpened_q2 _ _ _ _ _)
    exact List.mem_append_right _ (List.mem_singleton_self _)

theorem opens_of_verify {proof : Proof F} {bound : Option Nat} {domain : EvaluationDomain F}
    {supported : Nat} (hn : vo.numOfVariableTerms ≤ 10)
    (hprimes : proof.hPrimeEvals.length = vo.numOfVariableTerms)
    (hms : proof.mEvals.length = vo.numOfVariableTerms)
    (h : verify proof committed concrete_oracle_labels bound vo domain supported msg = .ok ()) :
    (∀ index ∈ vo.mappingVector, index < concrete_oracle_labels.length) ∧
      Opens vo committed concrete_oracle_labels msg proof ∧
      verifyFieldChecks proof vo domain msg = .ok () := by
  unfold verify at h
  obtain ⟨_, _, h⟩ := bind_eq_ok_iff.mp h
  obtain ⟨lcs, hlcs, h⟩ := bind_eq_ok_iff.mp h
  obtain ⟨hindex, rfl⟩ := generateHPrimeLinearCombinations_eq_ok (mapError_eq_ok_iff.mp hlcs)
  rw [insertionSort_verifierQuerySet vo msg hn, List.map_map] at h
  let q2 := (aggregateCommitted committed (generateQ2LinearCombination vo msg.c)).polynomial
  let commitments := openedPolynomials vo.numOfVariableTerms
    (hPrimeCommitted vo committed concrete_oracle_labels) (fun i => committed (mLabel i))
    (committed "q_1") q2
  let evals := proof.hPrimeEvals ++ proof.mEvals ++ [proof.q1Eval] ++ [proof.q2Eval]
  have hbranch : (if batchCheck commitments (verifierQuerySet vo.shiftingCoefficients msg)
      ((sortedQueries vo msg).zip evals) = false then .error FunctionRelation.Error.batchCheckError
      else (verifyFieldChecks proof vo domain msg).mapError FunctionRelation.Error.zeroOverK) =
        .ok () := h
  by_cases hcheck : batchCheck commitments (verifierQuerySet vo.shiftingCoefficients msg)
      ((sortedQueries vo msg).zip evals) = false
  · rw [if_pos hcheck] at hbranch
    cases hbranch
  rw [if_neg hcheck, mapError_eq_ok_iff] at hbranch
  rw [Bool.not_eq_false] at hcheck
  exact ⟨hindex, opens_of_batchCheck hn hprimes hms hcheck, hbranch⟩

end Accepted

/-! ### The two identities -/

section Identities

open Polynomial

omit [DecidableEq F] in
theorem eq_zero_of_sum_pow_mul_eq_zero {n : Nat} {a : Nat → F} {challenges : Finset F}
    (hmany : n ≤ challenges.card)
    (h : ∀ c ∈ challenges, ∑ i ∈ Finset.range n, a i * c ^ i = 0) {i : Nat} (hi : i < n) :
    a i = 0 := by
  let p : F[X] := ∑ i ∈ Finset.range n, C (a i) * X ^ i
  have hcoeff : p.coeff i = a i := by
    simp [p, Polynomial.coeff_C_mul, Polynomial.coeff_X_pow, hi]
  have hdegree : p.natDegree < challenges.card := by
    have hle : p.natDegree ≤ n - 1 := by
      apply Polynomial.natDegree_sum_le_of_forall_le
      intro j hj
      have := Finset.mem_range.mp hj
      exact (Polynomial.natDegree_C_mul_X_pow_le _ _).trans (by omega)
    omega
  have hroots : ∀ c ∈ challenges, p.eval c = 0 := by
    intro c hc
    rw [← h c hc, Polynomial.eval_finsetSum]
    apply Finset.sum_congr rfl
    intro j _
    rw [eval_mul, eval_C, eval_pow, eval_X]
  have hzero := Polynomial.eq_zero_of_natDegree_lt_card_of_eval_eq_zero' p challenges hroots hdegree
  rw [← hcoeff, hzero, Polynomial.coeff_zero]

omit [DecidableEq F] in
theorem bigM_range (e : Nat → F) (n : Nat) (c : F) :
    bigM ((List.range n).map e) c = ∑ i ∈ Finset.range n, e i * c ^ i := by
  rw [bigM, powersOf, List.length_map, List.length_range, List.zip_map',
    foldl_add_eq_sum (fun p : F × F => p.1 * p.2), zero_add, List.map_map]
  rfl

variable {vo : GenericShiftingVO F} {committed : PolynomialLabel → DensePolynomial F}
  {concrete_oracle_labels : List PolynomialLabel} {domain : EvaluationDomain F}

theorem evaluateFromConcreteEvals_of_apply {oracles : List (DensePolynomial F)} {x e : F}
    (hindex : ∀ index ∈ vo.mappingVector, index < oracles.length)
    (h : vo.applyEvaluationFunction (CombineFunction.evaluations
        (x :: (List.range vo.numOfVariableTerms).map fun i =>
          (oracleAt vo oracles i).evaluate (vo.alpha i * x))) = .ok (.evaluation e)) :
    vo.evaluateFromConcreteEvals oracles x = .ok e := by
  have hterms := CombineFunction.termsBelow_of_apply h
  rw [CombineFunction.evaluations, List.length_map, List.length_cons, List.length_map,
    List.length_range] at hterms
  have heval := GenericShiftingVO.evaluateFromConcreteEvals_eq hindex hterms x
  have happly := (evaluateFromConcreteEvals_eq_ok heval).symm.trans h
  injection happly with happly
  injection happly with happly
  rw [heval, happly]

theorem computeFPrimeEval_eq_ok {evals : List F} {point e : F}
    (h : computeFPrimeEval vo evals point = .ok e) :
    vo.applyEvaluationFunction (CombineFunction.evaluations (point :: evals)) =
      .ok (.evaluation e) := by
  obtain ⟨t, ht, hrest⟩ := bind_eq_ok_iff.mp h
  rw [ht]
  cases t with
  | evaluation res =>
    cases hrest
    rfl
  | polynomial poly => cases hrest

theorem mask_eq_zero {x : F} (hx : x ∈ domain.elements) {challenges : Finset F}
    (hmany : vo.numOfVariableTerms ≤ challenges.card)
    (hchecks : ∀ c ∈ challenges, ∃ proof, Opens vo committed concrete_oracle_labels ⟨x, x, c⟩ proof ∧
      verifyFieldChecks proof vo domain ⟨x, x, c⟩ = .ok ())
    {i : Nat} (hi : i < vo.numOfVariableTerms) :
    (committed (mLabel i)).evaluate (vo.alpha i * x) = 0 := by
  refine eq_zero_of_sum_pow_mul_eq_zero
    (a := fun i => (committed (mLabel i)).evaluate (vo.alpha i * x)) hmany ?_ hi
  intro c hc
  obtain ⟨proof, hopens, hfield⟩ := hchecks c hc
  have hsum := (verifyFieldChecks_eq_ok_iff.mp hfield).1
  rw [hopens.ms, bigM_range] at hsum
  dsimp only at hsum
  rw [hsum, domain.evaluateVanishingPolynomial_eq_zero.mpr hx, mul_zero]

omit [Field F] [DecidableEq F] in
theorem oracleAt_map (hindex : ∀ index ∈ vo.mappingVector, index < concrete_oracle_labels.length)
    {i : Nat} (hi : i < vo.numOfVariableTerms) :
    oracleAt vo (concrete_oracle_labels.map committed) i =
      committed (termLabel vo concrete_oracle_labels i) := by
  have hlt : vo.mappingVector.getD i 0 < concrete_oracle_labels.length := by
    rw [List.getD_eq_getElem _ _ hi]
    exact hindex _ (List.getElem_mem hi)
  rw [oracleAt, termLabel]
  generalize vo.mappingVector.getD i 0 = index at hlt
  rw [List.getD_eq_getElem _ _ hlt, List.getD_eq_getElem _ _ (by rw [List.length_map]; exact hlt),
    List.getElem_map]

theorem evaluateFromConcreteEvals_eq_zero {x c : F} (hx : x ∈ domain.elements) {proof : Proof F}
    (hindex : ∀ index ∈ vo.mappingVector, index < concrete_oracle_labels.length)
    (hopens : Opens vo committed concrete_oracle_labels ⟨x, x, c⟩ proof)
    (hfield : verifyFieldChecks proof vo domain ⟨x, x, c⟩ = .ok ())
    (hmask : ∀ i < vo.numOfVariableTerms, (committed (mLabel i)).evaluate (vo.alpha i * x) = 0) :
    vo.evaluateFromConcreteEvals (concrete_oracle_labels.map committed) x = .ok 0 := by
  have hcombined := (verifyFieldChecks_eq_ok_iff.mp hfield).2
  dsimp only at hcombined
  rw [domain.evaluateVanishingPolynomial_eq_zero.mpr hx, mul_zero] at hcombined
  have happly := computeFPrimeEval_eq_ok hcombined
  have hterms : proof.hPrimeEvals = (List.range vo.numOfVariableTerms).map fun i =>
      (oracleAt vo (concrete_oracle_labels.map committed) i).evaluate (vo.alpha i * x) := by
    rw [hopens.hPrimes]
    apply List.map_congr_left
    intro i hi
    have hlt := List.mem_range.mp hi
    rw [evaluate_hPrimeCommitted, hmask i hlt, add_zero, oracleAt_map hindex hlt]
  rw [hterms] at happly
  apply evaluateFromConcreteEvals_of_apply _ happly
  intro index hmem
  rw [List.length_map]
  exact hindex index hmem

/-- What the verifier samples holds at every point: then the virtual oracle, without the
maskings, is zero on the domain. In a field with fewer elements than there are terms, the
powers of all the challenges would not tell the terms apart. -/
theorem vanishesOn_of_verify (vo : GenericShiftingVO F) (committed : PolynomialLabel → DensePolynomial F)
    (concrete_oracle_labels : List PolynomialLabel) (maximum_oracle_degree_bound : Option Nat)
    (domain : EvaluationDomain F) (supported_degree : Nat) (challenges : Finset F)
    (hn : vo.numOfVariableTerms ≤ 10) (hmany : vo.numOfVariableTerms ≤ challenges.card)
    (hverify : ∀ beta1 beta2, ∀ c ∈ challenges, ∃ proof : Proof F,
      proof.hPrimeEvals.length = vo.numOfVariableTerms ∧
      proof.mEvals.length = vo.numOfVariableTerms ∧
      verify proof committed concrete_oracle_labels maximum_oracle_degree_bound vo domain
        supported_degree ⟨beta1, beta2, c⟩ = .ok ()) :
    vo.VanishesOn (concrete_oracle_labels.map committed) domain := by
  have hopened : ∀ x, ∀ c ∈ challenges, ∃ proof,
      (∀ index ∈ vo.mappingVector, index < concrete_oracle_labels.length) ∧
      Opens vo committed concrete_oracle_labels ⟨x, x, c⟩ proof ∧
      verifyFieldChecks proof vo domain ⟨x, x, c⟩ = .ok () := by
    intro x c hc
    obtain ⟨proof, hprimes, hms, hok⟩ := hverify x x c hc
    exact ⟨proof, opens_of_verify hn hprimes hms hok⟩
  obtain ⟨c, hc⟩ : challenges.Nonempty := by
    rw [← Finset.card_pos]
    exact vo.numOfVariableTerms_pos.trans_le hmany
  intro x hx
  obtain ⟨proof, hindex, hopens, hfield⟩ := hopened x c hc
  have hchecks : ∀ c ∈ challenges, ∃ proof,
      Opens vo committed concrete_oracle_labels ⟨x, x, c⟩ proof ∧
      verifyFieldChecks proof vo domain ⟨x, x, c⟩ = .ok () := by
    intro c hc
    obtain ⟨proof, _, h⟩ := hopened x c hc
    exact ⟨proof, h⟩
  exact evaluateFromConcreteEvals_eq_zero hx hindex hopens hfield
    fun i hi => mask_eq_zero hx hmany hchecks hi

/-! The product of an oracle with its reflection, both maskings being `X² - 1`. -/

def reflectionVO : GenericShiftingVO (ZMod 3) := shiftVO (-1) (.mul (.term 1) (.term 2))

def reflectionDomain : EvaluationDomain (ZMod 3) :=
  ⟨2, -1, Nat.two_pos, IsPrimitiveRoot.neg_one 3 (by decide)⟩

def reflectionCommitted (label : PolynomialLabel) : DensePolynomial (ZMod 3) :=
  if label ∈ ["r_0", "r_1"] then ⟨[1]⟩ else ⟨[-1, 0, 1]⟩

def reflectionProof (msg : VerifierFirstMsg (ZMod 3)) : Proof (ZMod 3) where
  q1Eval := msg.beta1 ^ 2 - 1
  q2Eval := 1 + msg.c
  hPrimeEvals := [-(msg.beta1 ^ 2 - 1), -(msg.beta1 ^ 2 - 1)]
  mEvals := [msg.beta2 ^ 2 - 1, msg.beta2 ^ 2 - 1]

theorem vanishesOn_reflection : reflectionVO.VanishesOn [⟨[-1, 0, 1]⟩] reflectionDomain :=
  vanishesOn_of_verify reflectionVO reflectionCommitted ["h_0"] none reflectionDomain 4 {1, 2}
    (by decide) (by decide) fun beta1 beta2 c hc =>
      ⟨reflectionProof ⟨beta1, beta2, c⟩, rfl, rfl, by revert beta1 beta2 c; decide⟩

end Identities

end Lootbox.ZeroOverK

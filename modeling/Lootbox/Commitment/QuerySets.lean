import Lootbox.Commitment.ZeroOverK

/-!
# `zero_over_k`: query sets of virtual oracles

A virtual oracle as a polynomial, and its value from the queried evaluations of the concrete
oracles. Both count the concrete oracles in one helper, which asks for one too few.
-/

namespace Lootbox.ZeroOverK

variable {F : Type} [Field F] [DecidableEq F]

/-- A label, and a point under the name of its own. -/
abbrev QuerySet (F : Type) := Finset (PolynomialLabel × String × F)

abbrev Evaluations (F : Type) := PolynomialLabel × F → Option F

namespace GenericShiftingVO

variable (vo : GenericShiftingVO F)

def checkConreteOracleLength (input_length : Nat) : Except Error Unit :=
  if input_length < vo.minimumOracleLength then
    .error (.inputLengthError ("Mapping vector requires " ++ toString vo.minimumOracleLength ++
      " oracles/evaluations but only " ++ toString input_length ++ " were provided"))
  else .ok ()

/-- The concrete oracles where the mapping vector wants them. -/
def shiftedOracles (concrete_oracles : List (LabeledPolynomial F)) :
    Except Error (List (DensePolynomial F)) :=
  (vo.mappingVector.zip vo.shiftingCoefficients).mapM fun (mapped_index, alpha) => do
    let oracle ← require concrete_oracles[mapped_index]?
    return shiftDensePoly oracle.polynomial alpha

def computePolynomial (concrete_oracles : List (LabeledPolynomial F)) :
    Except Error (DensePolynomial F) := do
  vo.checkConreteOracleLength concrete_oracles.length
  let shifted ← vo.shiftedOracles concrete_oracles
  match ← vo.applyEvaluationFunction ((xPoly :: shifted).map .polynomial) with
  | .evaluation _ => throw .voFailedToInstantiate
  | .polynomial poly => return poly

def generateQuerySet (concrete_oracle_labels : List PolynomialLabel) (query_point : String × F) :
    Except Error (QuerySet F) := do
  vo.checkConreteOracleLength concrete_oracle_labels.length
  let queries ← (vo.mappingVector.zip vo.shiftingCoefficients).zipIdx.mapM
    fun ((mapped_index, alpha), term_index) => do
      let poly_label ← require concrete_oracle_labels[mapped_index]?
      let point_label := query_point.1 ++ "_times_alpha" ++ toString term_index
      return (poly_label, point_label, alpha * query_point.2)
  return queries.toFinset

/-- `evaluate_from_concrete_evals` -/
def evaluateFromLabeledEvals (concrete_oracle_labels : List PolynomialLabel) (eval_point : F)
    (evaluations : Evaluations F) : Except Error F := do
  let terms ← (vo.mappingVector.zip vo.shiftingCoefficients).mapM fun (mapped_index, alpha) => do
    let poly_label ← require concrete_oracle_labels[mapped_index]?
    -- `expect` on a missing evaluation
    require (evaluations (poly_label, alpha * eval_point))
  match ← vo.applyEvaluationFunction (CombineFunction.evaluations (eval_point :: terms)) with
  | .evaluation eval => return eval
  | .polynomial _ => throw .voFailedToCompute

/-! ### The count of concrete oracles -/

/-- Some index of the mapping vector is not smaller than the count. -/
def TooFew (input_length : Nat) : Prop := ∃ index ∈ vo.mappingVector, input_length ≤ index

omit [Field F] [DecidableEq F] in
theorem tooFew_iff {input_length : Nat} :
    vo.TooFew input_length ↔ input_length ≤ vo.minimumOracleLength := by
  obtain ⟨hmem, hle⟩ := List.max?_eq_some_iff.mp vo.minimum
  constructor
  · rintro ⟨index, hindex, hlen⟩
    exact hlen.trans (hle index hindex)
  · intro hlen
    exact ⟨_, hmem, hlen⟩

omit [Field F] [DecidableEq F] in
theorem not_tooFew_iff {input_length : Nat} :
    ¬ vo.TooFew input_length ↔
      ∀ p ∈ vo.mappingVector.zip vo.shiftingCoefficients, p.1 < input_length := by
  have hzip : (vo.mappingVector.zip vo.shiftingCoefficients).map Prod.fst = vo.mappingVector :=
    List.map_fst_zip (le_of_eq vo.lengths.symm)
  constructor
  · intro h p hp
    by_contra hlt
    exact h ⟨p.1, (List.of_mem_zip hp).1, not_lt.mp hlt⟩
  · rintro h ⟨index, hindex, hle⟩
    rw [← hzip] at hindex
    obtain ⟨p, hp, rfl⟩ := List.mem_map.mp hindex
    exact absurd (h p hp) (not_lt.mpr hle)

omit [Field F] [DecidableEq F] in
theorem checkConreteOracleLength_eq_ok {input_length : Nat} (h : ¬ vo.TooFew input_length) :
    vo.checkConreteOracleLength input_length = .ok () := by
  rw [tooFew_iff, not_le] at h
  exact if_neg (not_lt.mpr h.le)

theorem shiftedOracles_eq_ok_iff {concrete_oracles : List (LabeledPolynomial F)}
    {shifted : List (DensePolynomial F)} :
    vo.shiftedOracles concrete_oracles = .ok shifted ↔
      ¬ vo.TooFew concrete_oracles.length ∧
        shifted = (vo.mappingVector.zip vo.shiftingCoefficients).map fun (index, alpha) =>
          shiftDensePoly ((concrete_oracles.map LabeledPolynomial.polynomial).getD index 0)
            alpha := by
  unfold shiftedOracles
  rw [not_tooFew_iff]
  apply mapM_eq_ok_map_iff
  intro p _ y
  by_cases hlt : p.1 < concrete_oracles.length
  · simp [hlt, require, pure, Except.pure, eq_comm]
  · simp [hlt, require]

def querySet (concrete_oracle_labels : List PolynomialLabel) (query_point : String × F) :
    QuerySet F :=
  ((vo.mappingVector.zip vo.shiftingCoefficients).zipIdx.map fun ((index, alpha), i) =>
    (concrete_oracle_labels.getD index "", query_point.1 ++ "_times_alpha" ++ toString i,
      alpha * query_point.2)).toFinset

theorem generateQuerySet_eq_ok {concrete_oracle_labels : List PolynomialLabel}
    (h : ¬ vo.TooFew concrete_oracle_labels.length) (query_point : String × F) :
    vo.generateQuerySet concrete_oracle_labels query_point =
      .ok (vo.querySet concrete_oracle_labels query_point) := by
  unfold generateQuerySet
  rw [vo.checkConreteOracleLength_eq_ok h, ok_bind]
  apply bind_eq_of_ok (mapM_eq_ok_map _) rfl
  intro p hp
  have hlt := vo.not_tooFew_iff.mp h p.1 (List.fst_mem_of_mem_zipIdx hp)
  simp [hlt, require, pure, Except.pure]

/-! ### Reports -/

/-- The call ends with `InputLengthError`. -/
def Reported {α : Type} (result : Except Error α) : Prop :=
  ∃ message, result = .error (.inputLengthError message)

theorem reported_bind {α β : Type} {x : Except Error α} {f : α → Except Error β} :
    Reported (x >>= f) ↔ Reported x ∨ ∃ a, x = .ok a ∧ Reported (f a) := by
  cases x <;> simp [Reported]

theorem not_reported_mapM {α β : Type} {f : α → Except Error β} {xs : List α}
    (h : ∀ x ∈ xs, ¬ Reported (f x)) : ¬ Reported (xs.mapM f) := by
  rintro ⟨message, hm⟩
  obtain ⟨x, hx, hf⟩ := exists_of_mapM_eq_error hm
  exact h x hx ⟨message, hf⟩

theorem not_reported_require {α : Type} (o : Option α) : ¬ Reported (require o) := by
  cases o <;> simp [Reported, require]

theorem not_reported_ok {α : Type} (a : α) : ¬ Reported (.ok a) := by simp [Reported]

theorem not_reported_apply (f : CombineFunction F) (terms : List (VOTerm F)) :
    ¬ Reported (f.apply terms) := by
  induction f with
  | term index => exact not_reported_require _
  | constant eval => exact not_reported_ok _
  | add left right ihl ihr =>
    simp [CombineFunction.apply, reported_bind, ihl, ihr, not_reported_ok, pure, Except.pure]
  | sub left right ihl ihr =>
    simp [CombineFunction.apply, reported_bind, ihl, ihr, not_reported_ok, pure, Except.pure]
  | mul left right ihl ihr =>
    simp [CombineFunction.apply, reported_bind, ihl, ihr, not_reported_ok, pure, Except.pure]

omit [Field F] [DecidableEq F] in
theorem reported_checkConreteOracleLength {input_length : Nat} :
    Reported (vo.checkConreteOracleLength input_length) ↔
      input_length < vo.minimumOracleLength := by
  unfold checkConreteOracleLength
  by_cases h : input_length < vo.minimumOracleLength
  · simp [Reported, h]
  · simp [Reported, h]

theorem reported_bind_iff_left {α β : Type} {x : Except Error α} {f : α → Except Error β}
    (h : ∀ a, ¬ Reported (f a)) : Reported (x >>= f) ↔ Reported x := by
  rw [reported_bind]
  simp [h]

theorem reported_computePolynomial {concrete_oracles : List (LabeledPolynomial F)} :
    Reported (vo.computePolynomial concrete_oracles) ↔
      concrete_oracles.length < vo.minimumOracleLength := by
  unfold computePolynomial
  rw [reported_bind_iff_left, reported_checkConreteOracleLength]
  rintro ⟨⟩ h
  rcases reported_bind.mp h with h | ⟨shifted, -, h⟩
  · apply not_reported_mapM _ h
    intro p _ hp
    rcases reported_bind.mp hp with hp | ⟨oracle, -, hp⟩
    · exact not_reported_require _ hp
    · exact not_reported_ok _ hp
  · rcases reported_bind.mp h with h | ⟨combined, -, h⟩
    · exact not_reported_apply _ _ h
    · obtain ⟨message, h⟩ := h
      cases combined <;> cases h

theorem reported_generateQuerySet {concrete_oracle_labels : List PolynomialLabel}
    {query_point : String × F} :
    Reported (vo.generateQuerySet concrete_oracle_labels query_point) ↔
      concrete_oracle_labels.length < vo.minimumOracleLength := by
  unfold generateQuerySet
  rw [reported_bind_iff_left, reported_checkConreteOracleLength]
  rintro ⟨⟩ h
  rcases reported_bind.mp h with h | ⟨queries, -, h⟩
  · apply not_reported_mapM _ h
    intro p _ hp
    rcases reported_bind.mp hp with hp | ⟨label, -, hp⟩
    · exact not_reported_require _ hp
    · exact not_reported_ok _ hp
  · exact not_reported_ok _ h

/-- The count is right: too few oracles are reported, and enough oracles are all there. -/
def ReportsTooFew {α β : Type} (input_length : Nat) (call : Except Error α)
    (accesses : Except Error β) : Prop :=
  (Reported call ↔ vo.TooFew input_length) ∧
    (¬ vo.TooFew input_length → ∃ b, accesses = .ok b)

omit [Field F] [DecidableEq F] in
theorem reportsTooFew_iff {α β : Type} {input_length : Nat} {call : Except Error α}
    {accesses : Except Error β} (hcall : Reported call ↔ input_length < vo.minimumOracleLength)
    (haccesses : ¬ vo.TooFew input_length → ∃ b, accesses = .ok b) :
    vo.ReportsTooFew input_length call accesses ↔ vo.mappingVector.max? ≠ some input_length := by
  rw [ReportsTooFew, and_iff_left haccesses, hcall, tooFew_iff, vo.minimum]
  constructor
  · rintro h ⟨⟩
    exact lt_irrefl _ (h.mpr le_rfl)
  · intro hne
    have hne' : input_length ≠ vo.minimumOracleLength := fun h => hne (congrArg some h.symm)
    exact ⟨le_of_lt, fun hle => lt_of_le_of_ne hle hne'⟩

/-- The count goes wrong exactly where it is the largest index itself. -/
theorem tooFewOracles_reported_iff (concrete_oracles : List (LabeledPolynomial F))
    (concrete_oracle_labels : List PolynomialLabel) (query_point : String × F) :
    (vo.ReportsTooFew concrete_oracles.length (vo.computePolynomial concrete_oracles)
        (vo.shiftedOracles concrete_oracles) ↔
      vo.mappingVector.max? ≠ some concrete_oracles.length) ∧
    (vo.ReportsTooFew concrete_oracle_labels.length
        (vo.generateQuerySet concrete_oracle_labels query_point)
        (vo.generateQuerySet concrete_oracle_labels query_point) ↔
      vo.mappingVector.max? ≠ some concrete_oracle_labels.length) := by
  constructor
  · apply vo.reportsTooFew_iff vo.reported_computePolynomial
    intro h
    exact ⟨_, vo.shiftedOracles_eq_ok_iff.mpr ⟨h, rfl⟩⟩
  · apply vo.reportsTooFew_iff vo.reported_generateQuerySet
    intro h
    exact ⟨_, vo.generateQuerySet_eq_ok h query_point⟩

/-- Two oracles under the mapping vector `[2]` -/
theorem twoOracles_not_reported : ∃ vo : GenericShiftingVO ℚ,
    new [2] [1] (.term 1) = .ok vo ∧
      vo.computePolynomial [⟨"a", ⟨[1]⟩⟩, ⟨"b", ⟨[1]⟩⟩] = .error .aborted ∧
      ¬ vo.ReportsTooFew 2 (vo.computePolynomial [⟨"a", ⟨[1]⟩⟩, ⟨"b", ⟨[1]⟩⟩])
        (vo.shiftedOracles [⟨"a", ⟨[1]⟩⟩, ⟨"b", ⟨[1]⟩⟩]) ∧
      ¬ vo.ReportsTooFew 2 (vo.generateQuerySet ["a", "b"] ("beta", 1))
        (vo.generateQuerySet ["a", "b"] ("beta", 1)) := by
  refine ⟨⟨[2], [1], .term 1, 2, rfl, rfl⟩, rfl, rfl, ?_, ?_⟩
  · rintro ⟨h, -⟩
    obtain ⟨message, hm⟩ := h.mpr ⟨2, List.mem_singleton_self 2, le_rfl⟩
    cases hm
  · rintro ⟨h, -⟩
    obtain ⟨message, hm⟩ := h.mpr ⟨2, List.mem_singleton_self 2, le_rfl⟩
    cases hm

end GenericShiftingVO

end Lootbox.ZeroOverK

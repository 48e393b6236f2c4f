import Lootbox.Base.FallibleCalls
import Lootbox.Base.EvaluationDomain

/-!
# `zero_over_k`: virtual oracles

A virtual oracle shifts concrete oracles and combines them. Combining polynomials and then
evaluating is the same as evaluating first.
-/

namespace Lootbox.ZeroOverK

open Polynomial

/-- The errors of the modelled functions. `aborted` marks an index out of range or an
`unwrap` of nothing, which end the program. -/
inductive Error
  | check1Failed
  | check2Failed
  | inputLengthError (message : String)
  | unsupportedDegree (degree : Nat)
  | voFailedToInstantiate
  | voFailedToCompute
  | aborted
  deriving DecidableEq, Repr

def require {α : Type} (o : Option α) : Except Error α := need .aborted o

theorem require_eq_ok_iff {α : Type} {o : Option α} {a : α} : require o = .ok a ↔ o = some a :=
  need_eq_ok_iff

theorem require_getElem?_eq_ok_iff {α : Type} {xs : List α} {i : Nat} (d : α) {a : α} :
    require xs[i]? = .ok a ↔ i < xs.length ∧ a = xs.getD i d := by
  rw [require_eq_ok_iff, List.getElem?_eq_some_iff]
  constructor
  · rintro ⟨hlt, rfl⟩
    exact ⟨hlt, by rw [List.getD_eq_getElem _ _ hlt]⟩
  · rintro ⟨hlt, rfl⟩
    exact ⟨hlt, by rw [List.getD_eq_getElem _ _ hlt]⟩

variable {F : Type} [Field F] [DecidableEq F]

/-- The first `count` powers of `scalar`. -/
def powersOf (scalar : F) (count : Nat) : List F := (List.range count).map (scalar ^ ·)

def scaleCoeffs (shifting_factor : F) : F → List F → List F
  | _, [] => []
  | acc, c :: cs => (c * acc) :: scaleCoeffs shifting_factor (acc * shifting_factor) cs

/-- `p(shifting_factor * X)` -/
def shiftDensePoly (p : DensePolynomial F) (shifting_factor : F) : DensePolynomial F :=
  if shifting_factor = 1 then p
  else .fromCoefficientsVec (scaleCoeffs shifting_factor 1 p.coeffs)

omit [DecidableEq F] in
theorem eval_scaleCoeffs (s x acc : F) (cs : List F) :
    (DensePolynomial.ofCoeffs (scaleCoeffs s acc cs)).eval x =
      acc * (DensePolynomial.ofCoeffs cs).eval (s * x) := by
  induction cs generalizing acc with
  | nil => simp [scaleCoeffs]
  | cons c cs ih =>
    rw [scaleCoeffs, DensePolynomial.ofCoeffs_cons, DensePolynomial.ofCoeffs_cons, eval_add,
      eval_add, eval_mul, eval_mul, ih, eval_X, eval_X, eval_C, eval_C]
    ring

theorem evaluate_shiftDensePoly (p : DensePolynomial F) (s x : F) :
    (shiftDensePoly p s).evaluate x = p.evaluate (s * x) := by
  rw [shiftDensePoly]
  by_cases hs : s = 1
  · rw [if_pos hs, hs, one_mul]
  · rw [if_neg hs, ← DensePolynomial.eval_toPoly, DensePolynomial.toPoly_fromCoefficientsVec,
      eval_scaleCoeffs, one_mul, ← DensePolynomial.eval_toPoly]
    rfl

/-! ### Terms -/

inductive VOTerm (F : Type) where
  | evaluation (eval : F)
  | polynomial (poly : DensePolynomial F)
  deriving DecidableEq, Repr

namespace VOTerm

def add : VOTerm F → VOTerm F → VOTerm F
  | .evaluation eval, .evaluation rhs_eval => .evaluation (eval + rhs_eval)
  | .evaluation eval, .polynomial rhs_poly => .polynomial (.constant eval + rhs_poly)
  | .polynomial poly, .evaluation rhs_eval => .polynomial (poly + .constant rhs_eval)
  | .polynomial poly, .polynomial rhs_poly => .polynomial (poly + rhs_poly)

def sub : VOTerm F → VOTerm F → VOTerm F
  | .evaluation eval, .evaluation rhs_eval => .evaluation (eval - rhs_eval)
  | .evaluation eval, .polynomial rhs_poly => .polynomial (.constant eval - rhs_poly)
  | .polynomial poly, .evaluation rhs_eval => .polynomial (poly - .constant rhs_eval)
  | .polynomial poly, .polynomial rhs_poly => .polynomial (poly - rhs_poly)

def mul : VOTerm F → VOTerm F → VOTerm F
  | .evaluation eval, .evaluation rhs_eval => .evaluation (eval * rhs_eval)
  | .evaluation eval, .polynomial rhs_poly => .polynomial (rhs_poly.scale eval)
  | .polynomial poly, .evaluation rhs_eval => .polynomial (poly.scale rhs_eval)
  | .polynomial poly, .polynomial rhs_poly => .polynomial (poly * rhs_poly)

/-- The value of a term at a point: an evaluation has been taken there already. -/
def valueAt (x : F) : VOTerm F → F
  | .evaluation eval => eval
  | .polynomial poly => poly.evaluate x

theorem valueAt_add (x : F) (s t : VOTerm F) :
    (add s t).valueAt x = s.valueAt x + t.valueAt x := by
  cases s <;> cases t <;>
    simp only [add, valueAt, DensePolynomial.evaluate_add, DensePolynomial.evaluate_constant]

theorem valueAt_sub (x : F) (s t : VOTerm F) :
    (sub s t).valueAt x = s.valueAt x - t.valueAt x := by
  cases s <;> cases t <;>
    simp only [sub, valueAt, DensePolynomial.evaluate_sub, DensePolynomial.evaluate_constant]

theorem valueAt_mul (x : F) (s t : VOTerm F) :
    (mul s t).valueAt x = s.valueAt x * t.valueAt x := by
  cases s <;> cases t <;>
    simp only [mul, valueAt, DensePolynomial.evaluate_mul, DensePolynomial.evaluate_scale, mul_comm]

def isPolynomial : VOTerm F → Bool
  | .evaluation _ => false
  | .polynomial _ => true

theorem isPolynomial_op (s t : VOTerm F) :
    (s.add t).isPolynomial = (s.isPolynomial || t.isPolynomial) ∧
      (s.sub t).isPolynomial = (s.isPolynomial || t.isPolynomial) ∧
      (s.mul t).isPolynomial = (s.isPolynomial || t.isPolynomial) := by
  cases s <;> cases t <;> exact ⟨rfl, rfl, rfl⟩

end VOTerm

/-! ### Combine functions -/

/-- A function of the terms, `term 0` being `X`. -/
inductive CombineFunction (F : Type) where
  | term (index : Nat)
  | constant (eval : F)
  | add (left right : CombineFunction F)
  | sub (left right : CombineFunction F)
  | mul (left right : CombineFunction F)
  deriving DecidableEq, Repr

namespace CombineFunction

def apply : CombineFunction F → List (VOTerm F) → Except Error (VOTerm F)
  | .term index, terms => require terms[index]?
  | .constant eval, _ => .ok (.evaluation eval)
  | .add left right, terms => do
    let l ← left.apply terms
    let r ← right.apply terms
    return l.add r
  | .sub left right, terms => do
    let l ← left.apply terms
    let r ← right.apply terms
    return l.sub r
  | .mul left right, terms => do
    let l ← left.apply terms
    let r ← right.apply terms
    return l.mul r

def evaluations (values : List F) : List (VOTerm F) := values.map .evaluation

/-- Evaluation commutes with combining. -/
theorem apply_evaluations (f : CombineFunction F) (x : F) {terms : List (VOTerm F)}
    {t : VOTerm F} (h : f.apply terms = .ok t) :
    f.apply (evaluations (terms.map (VOTerm.valueAt x))) = .ok (.evaluation (t.valueAt x)) := by
  induction f generalizing t with
  | term index =>
    rw [apply, require_eq_ok_iff] at h
    rw [apply, require_eq_ok_iff, evaluations, List.getElem?_map, List.getElem?_map, h]
    rfl
  | constant eval =>
    cases h
    rfl
  | add left right ihl ihr =>
    obtain ⟨l, hl, hrest⟩ := bind_eq_ok_iff.mp h
    obtain ⟨r, hr, heq⟩ := bind_eq_ok_iff.mp hrest
    cases heq
    rw [apply, ihl hl, ok_bind, ihr hr, ok_bind, VOTerm.valueAt_add]
    rfl
  | sub left right ihl ihr =>
    obtain ⟨l, hl, hrest⟩ := bind_eq_ok_iff.mp h
    obtain ⟨r, hr, heq⟩ := bind_eq_ok_iff.mp hrest
    cases heq
    rw [apply, ihl hl, ok_bind, ihr hr, ok_bind, VOTerm.valueAt_sub]
    rfl
  | mul left right ihl ihr =>
    obtain ⟨l, hl, hrest⟩ := bind_eq_ok_iff.mp h
    obtain ⟨r, hr, heq⟩ := bind_eq_ok_iff.mp hrest
    cases heq
    rw [apply, ihl hl, ok_bind, ihr hr, ok_bind, VOTerm.valueAt_mul]
    rfl

/-- The value of a combine function when every term has one. -/
def value : CombineFunction F → (Nat → F) → F
  | .term index, values => values index
  | .constant eval, _ => eval
  | .add left right, values => left.value values + right.value values
  | .sub left right, values => left.value values - right.value values
  | .mul left right, values => left.value values * right.value values

/-- The function uses the first `n` terms only. -/
def termsBelow (n : Nat) : CombineFunction F → Bool
  | .term index => index < n
  | .constant _ => true
  | .add left right => left.termsBelow n && right.termsBelow n
  | .sub left right => left.termsBelow n && right.termsBelow n
  | .mul left right => left.termsBelow n && right.termsBelow n

theorem termsBelow_of_apply {f : CombineFunction F} {terms : List (VOTerm F)} {t : VOTerm F}
    (h : f.apply terms = .ok t) : f.termsBelow terms.length = true := by
  induction f generalizing t with
  | term index =>
    rw [apply, require_eq_ok_iff] at h
    obtain ⟨hlt, _⟩ := List.getElem?_eq_some_iff.mp h
    exact decide_eq_true hlt
  | constant eval => rfl
  | add left right ihl ihr =>
    obtain ⟨l, hl, hrest⟩ := bind_eq_ok_iff.mp h
    obtain ⟨r, hr, _⟩ := bind_eq_ok_iff.mp hrest
    rw [termsBelow, ihl hl, ihr hr, Bool.and_self]
  | sub left right ihl ihr =>
    obtain ⟨l, hl, hrest⟩ := bind_eq_ok_iff.mp h
    obtain ⟨r, hr, _⟩ := bind_eq_ok_iff.mp hrest
    rw [termsBelow, ihl hl, ihr hr, Bool.and_self]
  | mul left right ihl ihr =>
    obtain ⟨l, hl, hrest⟩ := bind_eq_ok_iff.mp h
    obtain ⟨r, hr, _⟩ := bind_eq_ok_iff.mp hrest
    rw [termsBelow, ihl hl, ihr hr, Bool.and_self]

theorem apply_evaluations_eq {f : CombineFunction F} {values : List F}
    (h : f.termsBelow values.length = true) :
    f.apply (evaluations values) = .ok (.evaluation (f.value fun i => values.getD i 0)) := by
  induction f with
  | term index =>
    rw [termsBelow, decide_eq_true_iff] at h
    rw [apply, require_eq_ok_iff, evaluations, List.getElem?_map, List.getElem?_eq_getElem h, value,
      List.getD_eq_getElem _ _ h]
    rfl
  | constant eval => rfl
  | add left right ihl ihr =>
    rw [termsBelow, Bool.and_eq_true] at h
    rw [apply, ihl h.1, ok_bind, ihr h.2, ok_bind]
    rfl
  | sub left right ihl ihr =>
    rw [termsBelow, Bool.and_eq_true] at h
    rw [apply, ihl h.1, ok_bind, ihr h.2, ok_bind]
    rfl
  | mul left right ihl ihr =>
    rw [termsBelow, Bool.and_eq_true] at h
    rw [apply, ihl h.1, ok_bind, ihr h.2, ok_bind]
    rfl

def hasTerm : CombineFunction F → Bool
  | .term _ => true
  | .constant _ => false
  | .add left right => left.hasTerm || right.hasTerm
  | .sub left right => left.hasTerm || right.hasTerm
  | .mul left right => left.hasTerm || right.hasTerm

theorem apply_polynomials {f : CombineFunction F} {ps : List (DensePolynomial F)}
    (h : f.termsBelow ps.length = true) :
    ∃ t, f.apply (ps.map VOTerm.polynomial) = .ok t ∧ t.isPolynomial = f.hasTerm := by
  induction f with
  | term index =>
    rw [termsBelow, decide_eq_true_iff] at h
    refine ⟨.polynomial ps[index], ?_, rfl⟩
    rw [apply, require_eq_ok_iff, List.getElem?_map, List.getElem?_eq_getElem h]
    rfl
  | constant eval => exact ⟨_, rfl, rfl⟩
  | add left right ihl ihr =>
    rw [termsBelow, Bool.and_eq_true] at h
    obtain ⟨l, hl, hlpoly⟩ := ihl h.1
    obtain ⟨r, hr, hrpoly⟩ := ihr h.2
    refine ⟨l.add r, ?_, ?_⟩
    · rw [apply, hl, ok_bind, hr, ok_bind]
      rfl
    · rw [(VOTerm.isPolynomial_op l r).1, hlpoly, hrpoly, hasTerm]
  | sub left right ihl ihr =>
    rw [termsBelow, Bool.and_eq_true] at h
    obtain ⟨l, hl, hlpoly⟩ := ihl h.1
    obtain ⟨r, hr, hrpoly⟩ := ihr h.2
    refine ⟨l.sub r, ?_, ?_⟩
    · rw [apply, hl, ok_bind, hr, ok_bind]
      rfl
    · rw [(VOTerm.isPolynomial_op l r).2.1, hlpoly, hrpoly, hasTerm]
  | mul left right ihl ihr =>
    rw [termsBelow, Bool.and_eq_true] at h
    obtain ⟨l, hl, hlpoly⟩ := ihl h.1
    obtain ⟨r, hr, hrpoly⟩ := ihr h.2
    refine ⟨l.mul r, ?_, ?_⟩
    · rw [apply, hl, ok_bind, hr, ok_bind]
      rfl
    · rw [(VOTerm.isPolynomial_op l r).2.2, hlpoly, hrpoly, hasTerm]

theorem exists_apply_polynomials {f : CombineFunction F} {ps : List (DensePolynomial F)}
    (h : f.termsBelow ps.length = true) (hreads : f.hasTerm = true) :
    ∃ poly, f.apply (ps.map VOTerm.polynomial) = .ok (.polynomial poly) := by
  obtain ⟨t, ht, hpoly⟩ := apply_polynomials h
  rw [hreads] at hpoly
  cases t with
  | evaluation eval => cases hpoly
  | polynomial poly => exact ⟨poly, ht⟩

/-! Presets -/

def equalityCheck : CombineFunction F := .sub (.term 1) (.term 2)

def inverseCheck : CombineFunction F := .sub (.mul (.term 1) (.term 2)) (.constant 1)

def squareCheck : CombineFunction F := .sub (.term 1) (.mul (.term 2) (.term 2))

def zeroProductCheck : CombineFunction F := .mul (.term 1) (.term 2)

def abcProductCheck : CombineFunction F := .sub (.term 1) (.mul (.term 2) (.term 3))

/-- One more factor `X - gamma^(start + length - 1)`. The subtraction wraps at zero, as `usize`
does in a release build. -/
def stitch (gamma : F) (start length : Nat) : CombineFunction F :=
  .sub (.term 0)
    (.constant (gamma ^ (if start + length = 0 then 2 ^ 64 - 1 else start + length - 1)))

/-- `geometric_seq_check!`: the loop over the lengths carries the function and the index at
which the current sequence starts. -/
def geometricSeqCheck (common_ratio gamma : F) (sequence_lengths : List Nat) : CombineFunction F :=
  let check_next_term := .sub (.term 2) (.mul (.constant common_ratio) (.term 1))
  (sequence_lengths.foldl (fun (evaluation_function, start) length =>
    (.mul evaluation_function (stitch gamma start length), start + length))
    (check_next_term, 0)).1

end CombineFunction

/-! ### Shifting virtual oracles -/

/-- Every mapped index has its shifting coefficient, and there is at least one. -/
structure GenericShiftingVO (F : Type) where
  mappingVector : List Nat
  shiftingCoefficients : List F
  combineFunction : CombineFunction F
  minimumOracleLength : Nat
  lengths : shiftingCoefficients.length = mappingVector.length
  minimum : mappingVector.max? = some minimumOracleLength

namespace GenericShiftingVO

def new (mapping_vector : List Nat) (shifting_coefficients : List F)
    (combine_function : CombineFunction F) : Except Error (GenericShiftingVO F) :=
  if hlen : shifting_coefficients.length = mapping_vector.length then
    match hmax : mapping_vector.max? with
    | some max_index =>
      .ok ⟨mapping_vector, shifting_coefficients, combine_function, max_index, hlen, hmax⟩
    | none => .error .aborted
  else .error (.inputLengthError "mapping vector and shifting coefficients do not match")

def numOfVariableTerms (vo : GenericShiftingVO F) : Nat := vo.mappingVector.length

def applyEvaluationFunction (vo : GenericShiftingVO F) (terms : List (VOTerm F)) :
    Except Error (VOTerm F) :=
  vo.combineFunction.apply terms

/-- `evaluate_from_concrete_evals` on the evaluations of the given oracles. -/
def evaluateFromConcreteEvals (vo : GenericShiftingVO F) (oracles : List (DensePolynomial F))
    (eval_point : F) : Except Error F := do
  let terms ← (List.zip vo.mappingVector vo.shiftingCoefficients).mapM fun (index, alpha) => do
    let oracle ← require oracles[index]?
    return oracle.evaluate (alpha * eval_point)
  let combined ← vo.applyEvaluationFunction (CombineFunction.evaluations (eval_point :: terms))
  match combined with
  | .evaluation eval => return eval
  | .polynomial _ => throw .voFailedToCompute

omit [Field F] [DecidableEq F] in
theorem new_eq_ok {mapping_vector : List Nat} {alphas : List F}
    (combine : CombineFunction F) {max_index : Nat} (hlen : alphas.length = mapping_vector.length)
    (hmax : mapping_vector.max? = some max_index) :
    new mapping_vector alphas combine =
      .ok ⟨mapping_vector, alphas, combine, max_index, hlen, hmax⟩ := by
  rw [new, dif_pos hlen]
  split
  · rename_i max' hmax'
    have heq : max' = max_index := Option.some_injective _ (hmax'.symm.trans hmax)
    subst heq
    rfl
  · rename_i hnone
    rw [hmax] at hnone
    cases hnone

theorem evaluateFromConcreteEvals_eq {vo : GenericShiftingVO F}
    {oracles : List (DensePolynomial F)} (hindex : ∀ index ∈ vo.mappingVector, index < oracles.length)
    (hterms : vo.combineFunction.termsBelow (vo.mappingVector.length + 1) = true) (x : F) :
    vo.evaluateFromConcreteEvals oracles x = .ok (vo.combineFunction.value fun i =>
      (x :: (List.zip vo.mappingVector vo.shiftingCoefficients).map fun (index, alpha) =>
        (oracles.getD index 0).evaluate (alpha * x)).getD i 0) := by
  have hmap : ((List.zip vo.mappingVector vo.shiftingCoefficients).mapM fun (index, alpha) => do
      let oracle ← require oracles[index]?
      return oracle.evaluate (alpha * x)) =
      .ok ((List.zip vo.mappingVector vo.shiftingCoefficients).map fun (index, alpha) =>
        (oracles.getD index 0).evaluate (alpha * x)) := by
    apply mapM_eq_ok_map
    intro ia hia
    have hlt := hindex ia.1 (List.of_mem_zip hia).1
    dsimp only
    rw [List.getElem?_eq_getElem hlt, require, need_some, ok_bind, List.getD_eq_getElem _ _ hlt]
    rfl
  rw [evaluateFromConcreteEvals, hmap, ok_bind, applyEvaluationFunction,
    CombineFunction.apply_evaluations_eq (by
      rw [List.length_cons, List.length_map, List.length_zip, vo.lengths, Nat.min_self]
      exact hterms)]
  rfl

/-- The virtual oracle is zero on the whole domain. -/
def VanishesOn (vo : GenericShiftingVO F) (oracles : List (DensePolynomial F))
    (domain : EvaluationDomain F) : Prop :=
  ∀ x ∈ domain.elements, vo.evaluateFromConcreteEvals oracles x = .ok 0

omit [Field F] [DecidableEq F] in
theorem numOfVariableTerms_pos (vo : GenericShiftingVO F) : 0 < vo.numOfVariableTerms := by
  rw [numOfVariableTerms, List.length_pos_iff]
  intro hnil
  have := vo.minimum
  rw [hnil] at this
  cases this

end GenericShiftingVO

end Lootbox.ZeroOverK

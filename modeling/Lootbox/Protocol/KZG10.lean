import Mathlib
import Lootbox.Base.FallibleCalls
import Lootbox.Base.PySeq
import Lootbox.Base.IdealPairing

/-!
# Polynomial commitments of the loot-box scripts

Field elements are residues modulo the curve order `r`; the curve is an ideal bilinear
group. Polynomials are coefficient lists, and the quotient by a linear factor comes from an
in-place long division on such lists.
-/

namespace Lootbox.KZG10

inductive PyException
  | indexError
  | typeError
  | valueError (message : String)
  | zeroDivisionError
  | diverges
  deriving DecidableEq, Repr

variable {r : Nat}

/-- `Field.__truediv__`: the inverse of zero raises. -/
def fieldDiv (a b : ZMod r) : Except PyException (ZMod r) :=
  if b = 0 then .error .zeroDivisionError else .ok (a * b⁻¹)

def polynomial (x : ZMod r) : List (ZMod r) → Except PyException (ZMod r)
  | [] => .error .indexError
  | c :: cs => .ok (cs.foldl (fun (result, cur) c_i => (result + c_i * cur, cur * x)) (c, x)).1

/-! ### Long division -/

structure DivisionState (r : Nat) where
  quotient : List (ZMod r)
  remainder : List (ZMod r)
  quotient_degree : Int

/-- `for i in range(len(divisor)): remainder[i + quotient_degree] -= quotient_term * divisor[i]` -/
def subtractMultiple (quotient_term : ZMod r) (quotient_degree : Int) (divisor : List (ZMod r))
    (remainder : List (ZMod r)) : Except PyException (List (ZMod r)) :=
  divisor.zipIdx.foldlM (fun rem (d, i) => do
    let entry ← need .indexError (PySeq.get rem (i + quotient_degree))
    need .indexError (PySeq.set rem (i + quotient_degree) (entry - quotient_term * d))) remainder

/-- `while len(remainder) > 0 and remainder[-1] == F(0)`: pop, and lower the degree by one. -/
def popZeros (remainder : List (ZMod r)) (quotient_degree : Int) : List (ZMod r) × Int :=
  let kept := remainder.rdropWhile (· == 0)
  (kept, quotient_degree - (remainder.length - kept.length))

def divisionStep (divisor : List (ZMod r)) (s : DivisionState r) :
    Except PyException (DivisionState r) := do
  let top ← need .indexError (PySeq.get s.remainder (-1))
  let lead ← need .indexError (PySeq.get divisor (-1))
  let quotient_term ← fieldDiv top lead
  let quotient ← need .indexError (PySeq.set s.quotient s.quotient_degree quotient_term)
  let remainder ← subtractMultiple quotient_term s.quotient_degree divisor s.remainder
  let (remainder, quotient_degree) := popZeros remainder s.quotient_degree
  return ⟨quotient, remainder, quotient_degree⟩

def divisionLoop (divisor : List (ZMod r)) :
    Nat → DivisionState r → Except PyException (DivisionState r)
  | 0, s => if divisor.length ≤ s.remainder.length then .error .diverges else .ok s
  | fuel + 1, s =>
    if divisor.length ≤ s.remainder.length then do
      let s ← divisionStep divisor s
      divisionLoop divisor fuel s
    else .ok s

/-- Every round pops at least one coefficient, so the length of the dividend bounds the rounds. -/
def polynomial_division (dividend divisor : List (ZMod r)) :
    Except PyException (List (ZMod r) × List (ZMod r)) := do
  let quotient_degree : Int := dividend.length - divisor.length
  let quotient := List.replicate (quotient_degree + 1).toNat 0
  let s ← divisionLoop divisor dividend.length ⟨quotient, dividend, quotient_degree⟩
  return (s.quotient, s.remainder)

/-! ### Setup and commitments -/

structure TrustedSetup (r : Nat) (G1 G2 : Type) where
  g1_powers : List G1
  g2_powers : List G2
  alpha_powers : List (ZMod r)

variable {G1 G2 GT : Type} [AddCommGroup G1] [AddCommGroup G2] [CommGroup GT]
  [Module (ZMod r) G1] [Module (ZMod r) G2]

/-- `curve.multiply(P, int(n))` -/
def multiply {G : Type} [AddCommGroup G] (P : G) (n : ZMod r) : G := n.val • P

def TrustedSetup.generate (e : IdealPairing r G1 G2 GT) (alpha : ZMod r) (t : Nat)
    (g1andg2 : Bool) : TrustedSetup r G1 G2 where
  g1_powers := if g1andg2 then PySeq.appendIterates (multiply · alpha) (t + 1) e.g1 else [e.g1]
  g2_powers := if g1andg2 then PySeq.appendIterates (multiply · alpha) (t + 1) e.g2 else [e.g2]
  alpha_powers := PySeq.appendIterates (· * alpha) (t + 1) 1

/-- `functools.reduce` without an initial value. -/
def reduce {α : Type} (f : α → α → α) : List α → Except PyException α
  | [] => .error .typeError
  | a :: as => .ok (as.foldl f a)

def CommitSum (PK : TrustedSetup r G1 G2) (coeff : List (ZMod r)) : Except PyException G1 := do
  let terms ← coeff.zipIdx.mapM fun (c_i, i) => do
    let power ← need .indexError PK.g1_powers[i]?
    return multiply power c_i
  reduce (· + ·) terms

def CommitDivision_optimized (PK : TrustedSetup r G1 G2) (i : ZMod r) (coeff : List (ZMod r)) :
    Except PyException G1 := do
  let y ← polynomial i coeff
  let first ← need .indexError coeff[0]?
  let a := coeff.set 0 (first - y)
  let b := [-i, 1]
  let (q, _) ← polynomial_division a b
  CommitSum PK q

/-! ### Evaluation -/

theorem polynomial_foldl (x : ZMod r) (cs : List (ZMod r)) :
    ∀ result cur : ZMod r,
      (cs.foldl (fun (result, cur) c_i => (result + c_i * cur, cur * x)) (result, cur)).1 =
        result + cur * evalCoeffs cs x := by
  induction cs with
  | nil =>
    intro result cur
    simp
  | cons c cs ih =>
    intro result cur
    rw [List.foldl_cons, ih, evalCoeffs_cons]
    ring

theorem polynomial_eq_ok (x : ZMod r) {coeff : List (ZMod r)} (hne : coeff ≠ []) :
    polynomial x coeff = .ok (evalCoeffs coeff x) := by
  cases coeff with
  | nil => exact absurd rfl hne
  | cons c cs => rw [polynomial, polynomial_foldl, evalCoeffs_cons]

/-! ### What the long division returns -/

/-- The loop rewrites the last `len(divisor)` coefficients and keeps those before them. -/
theorem subtractMultiple_append (q : ZMod r) :
    ∀ (divisor pre ys : List (ZMod r)), ys.length = divisor.length →
      subtractMultiple q pre.length divisor (pre ++ ys) =
        .ok (pre ++ List.zipWith (fun y d => y - q * d) ys divisor) := by
  have hloop : ∀ (divisor ys done pre : List (ZMod r)), ys.length = divisor.length →
      (divisor.zipIdx done.length).foldlM (fun rem (d, i) => do
        let entry ← need PyException.indexError (PySeq.get rem ((i : Nat) + (pre.length : Int)))
        need PyException.indexError
          (PySeq.set rem ((i : Nat) + (pre.length : Int)) (entry - q * d))) (pre ++ (done ++ ys)) =
        .ok (pre ++ (done ++ List.zipWith (fun y d => y - q * d) ys divisor)) := by
    intro divisor
    induction divisor with
    | nil =>
      intro ys done pre h
      have hnil : ys = [] := List.length_eq_zero_iff.mp h
      subst hnil
      rfl
    | cons d ds ih =>
      intro ys done pre h
      cases ys with
      | nil => cases h
      | cons y ys =>
        have hindex : (done.length : Int) + (pre.length : Int) = ((pre ++ done).length : Nat) := by
          rw [List.length_append]
          omega
        have hlt : (pre ++ done).length < (pre ++ (done ++ y :: ys)).length := by
          simp only [List.length_append, List.length_cons]
          omega
        have hget : (pre ++ (done ++ y :: ys))[(pre ++ done).length]? = some y := by
          rw [← List.append_assoc, List.getElem?_append_right (le_refl _), Nat.sub_self]
          rfl
        have hset : (pre ++ (done ++ y :: ys)).set (pre ++ done).length (y - q * d) =
            pre ++ (done ++ [y - q * d] ++ ys) := by
          rw [← List.append_assoc, List.set_append_right _ _ (le_refl _), Nat.sub_self]
          simp
        rw [List.zipIdx_cons, List.foldlM_cons]
        dsimp only
        rw [hindex, PySeq.get_natCast, hget, need_some, ok_bind, PySeq.set_natCast _ hlt, hset,
          need_some, ok_bind]
        have hnext := ih ys (done ++ [y - q * d]) pre (Nat.succ.inj h)
        rw [List.length_append, List.length_singleton] at hnext
        rw [hnext, List.zipWith_cons_cons, List.append_assoc]
        rfl
  intro divisor pre ys h
  exact hloop divisor ys [] pre h

variable {divisor dividend : List (ZMod r)}

structure DivisionInv (dividend divisor : List (ZMod r)) (s : DivisionState r) : Prop where
  degree : s.quotient_degree = s.remainder.length - divisor.length
  shrinks : s.remainder.length ≤ dividend.length
  length : s.quotient.length = dividend.length + 1 - divisor.length
  unset : ∀ j : Nat, (j : Int) ≤ s.quotient_degree → s.quotient.getD j 0 = 0
  value : ∀ x, evalCoeffs dividend x =
    evalCoeffs s.quotient x * evalCoeffs divisor x + evalCoeffs s.remainder x

/-- The remainder of a round before its zeros are popped. -/
def subtracted (q : ZMod r) (qd : Nat) (divisor remainder : List (ZMod r)) : List (ZMod r) :=
  remainder.take qd ++ List.zipWith (fun y d => y - q * d) (remainder.drop qd) divisor

section Subtracted

variable {remainder : List (ZMod r)} {qd : Nat} (hqd : remainder.length = qd + divisor.length)
include hqd

theorem length_subtracted (q : ZMod r) : (subtracted q qd divisor remainder).length = remainder.length := by
  rw [subtracted, List.length_append, List.length_zipWith, List.length_take, List.length_drop]
  omega

theorem toPolynomial_subtracted (q : ZMod r) :
    toPolynomial (subtracted q qd divisor remainder) =
      toPolynomial remainder -
        Polynomial.C q * Polynomial.X ^ qd * toPolynomial divisor := by
  have hpre : (remainder.take qd).length = qd := by
    rw [List.length_take]
    omega
  have hys : (remainder.drop qd).length = divisor.length := by
    rw [List.length_drop]
    omega
  have hsplit := toPolynomial_append (remainder.take qd) (remainder.drop qd)
  rw [List.take_append_drop, hpre] at hsplit
  rw [subtracted, toPolynomial_append, hpre, toPolynomial_zipWith_sub_mul q hys, hsplit]
  ring

end Subtracted

theorem rdropWhile_zero_getLast? (cs : List (ZMod r)) :
    (cs.rdropWhile (· == 0)).getLast? ≠ some 0 := by
  intro hlast
  obtain ⟨before, hbefore⟩ := List.getLast?_eq_some_iff.mp hlast
  have hne : cs.rdropWhile (· == 0) ≠ [] := by
    rw [hbefore]
    simp
  have hkept := List.rdropWhile_last_not (· == (0 : ZMod r)) cs hne
  simp [hbefore] at hkept

variable [Fact r.Prime]

theorem divisionStep_eq {lead : ZMod r} (hlead : divisor.getLast? = some lead) (hne : lead ≠ 0)
    {quotient remainder : List (ZMod r)} {qd : Nat} (hqd : remainder.length = qd + divisor.length)
    (hlt : qd < quotient.length) :
    ∃ q, divisionStep divisor ⟨quotient, remainder, qd⟩ =
        .ok ⟨quotient.set qd q, (subtracted q qd divisor remainder).rdropWhile (· == 0),
          ((subtracted q qd divisor remainder).rdropWhile (· == 0)).length - (divisor.length : Int)⟩ ∧
      ((subtracted q qd divisor remainder).rdropWhile (· == 0)).length < remainder.length := by
  obtain ⟨before, rfl⟩ := List.getLast?_eq_some_iff.mp hlead
  have hdivisor : (before ++ [lead]).length = before.length + 1 := List.length_append
  have hpre : (remainder.take qd).length = qd := by
    rw [List.length_take]
    omega
  have hys : (remainder.drop qd).length = (before ++ [lead]).length := by
    rw [List.length_drop]
    omega
  have hrem : remainder ≠ [] := by
    intro hnil
    rw [hnil, List.length_nil] at hqd
    omega
  have hlast := List.getLast?_eq_some_getLast hrem
  generalize remainder.getLast hrem = top at hlast
  let q := top * lead⁻¹
  have hsub := subtractMultiple_append q (before ++ [lead]) (remainder.take qd)
    (remainder.drop qd) hys
  rw [hpre, List.take_append_drop] at hsub
  have hlength := length_subtracted hqd q
  refine ⟨q, ?_, ?_⟩
  · have hkept_le : ((subtracted q qd (before ++ [lead]) remainder).rdropWhile (· == 0)).length ≤
        (subtracted q qd (before ++ [lead]) remainder).length :=
      (List.rdropWhile_prefix _ _).length_le
    have hdegree : (qd : Int) - ((subtracted q qd (before ++ [lead]) remainder).length -
        ((subtracted q qd (before ++ [lead]) remainder).rdropWhile (· == 0)).length) =
        ((subtracted q qd (before ++ [lead]) remainder).rdropWhile (· == 0)).length -
          ((before ++ [lead]).length : Int) := by
      omega
    rw [divisionStep]
    dsimp only
    rw [PySeq.get_neg_one, hlast, need_some, ok_bind, PySeq.get_neg_one, hlead, need_some, ok_bind,
      fieldDiv, if_neg hne, ok_bind, PySeq.set_natCast _ hlt, need_some, ok_bind, hsub, ok_bind,
      ← hdegree]
    rfl
  · -- the coefficient at the top cancels, so that at least it is popped
    obtain ⟨ys, hyslast⟩ : ∃ ys, remainder.drop qd = ys ++ [top] := by
      apply List.getLast?_eq_some_iff.mp
      rw [List.getLast?_drop, if_neg (by omega), hlast]
    have hyslen : ys.length = before.length := by
      rw [hyslast, List.length_append, List.length_append] at hys
      exact Nat.add_right_cancel hys
    have hcancel : top - q * lead = 0 := by
      simp only [q]
      rw [mul_assoc, inv_mul_cancel₀ hne, mul_one, sub_self]
    have hsplit : subtracted q qd (before ++ [lead]) remainder = (remainder.take qd ++
        List.zipWith (fun y d => y - q * d) ys before) ++ [0] := by
      rw [subtracted, hyslast, List.zipWith_append hyslen, List.zipWith_cons_cons, hcancel,
        List.append_assoc]
      rfl
    rw [← hlength, hsplit, List.rdropWhile_concat_pos _ _ _ (by simp), List.length_append]
    exact Nat.lt_succ_of_le (List.rdropWhile_prefix _ _).length_le

def Conserves (divisor : List (ZMod r)) (s t : DivisionState r) : Prop :=
  toPolynomial t.quotient * toPolynomial divisor + toPolynomial t.remainder =
    toPolynomial s.quotient * toPolynomial divisor + toPolynomial s.remainder

theorem divisionStep_spec {lead : ZMod r} (hlead : divisor.getLast? = some lead) (hne : lead ≠ 0)
    {s : DivisionState r} (hs : DivisionInv dividend divisor s)
    (hguard : divisor.length ≤ s.remainder.length) :
    ∃ t, divisionStep divisor s = .ok t ∧ DivisionInv dividend divisor t ∧
      t.remainder.length < s.remainder.length ∧ Conserves divisor s t ∧
      t.remainder.getLast? ≠ some 0 := by
  obtain ⟨quotient, remainder, quotient_degree⟩ := s
  obtain ⟨hdegree, hshrinks, hlength, hunset, hvalue⟩ := hs
  dsimp only at *
  obtain ⟨qd, hqd⟩ : ∃ qd : Nat, remainder.length = qd + divisor.length :=
    ⟨remainder.length - divisor.length, by omega⟩
  obtain rfl : quotient_degree = (qd : Int) := by omega
  have hpos : 0 < divisor.length := by
    obtain ⟨before, rfl⟩ := List.getLast?_eq_some_iff.mp hlead
    simp
  have hlt : qd < quotient.length := by omega
  obtain ⟨q, hstep, hkept⟩ := divisionStep_eq hlead hne hqd hlt
  have hzero : quotient[qd] = 0 := by
    rw [← List.getD_eq_getElem _ 0 hlt]
    exact hunset qd le_rfl
  have hconserves : Conserves divisor ⟨quotient, remainder, qd⟩
      ⟨quotient.set qd q, (subtracted q qd divisor remainder).rdropWhile (· == 0),
        ((subtracted q qd divisor remainder).rdropWhile (· == 0)).length - (divisor.length : Int)⟩ := by
    rw [Conserves, toPolynomial_set _ hlt, hzero, sub_zero, toPolynomial_rdropWhile_zero,
      toPolynomial_subtracted hqd]
    ring
  refine ⟨_, hstep, ⟨rfl, by dsimp only; omega, ?_, ?_, ?_⟩, hkept, hconserves,
    rdropWhile_zero_getLast? _⟩
  · rw [List.length_set]
    exact hlength
  · intro j hj
    have hne_index : qd ≠ j := by
      dsimp only at hj
      omega
    rw [List.getD_eq_getElem?_getD, List.getElem?_set_ne hne_index, ← List.getD_eq_getElem?_getD]
    exact hunset j (by dsimp only at hj; omega)
  · intro x
    have heval := congrArg (Polynomial.eval x) hconserves
    simp only [Polynomial.eval_add, Polynomial.eval_mul, eval_toPolynomial] at heval
    rw [hvalue x, ← heval]

omit [Fact r.Prime] in
theorem divisionLoop_of_lt {s : DivisionState r} (h : s.remainder.length < divisor.length)
    (fuel : Nat) : divisionLoop divisor fuel s = .ok s := by
  cases fuel with
  | zero => rw [divisionLoop, if_neg (not_le.mpr h)]
  | succ fuel => rw [divisionLoop, if_neg (not_le.mpr h)]

/-- Enough rounds always end the loop, and the exit state keeps the invariant. -/
theorem divisionLoop_spec {lead : ZMod r} (hlead : divisor.getLast? = some lead) (hne : lead ≠ 0) :
    ∀ (fuel : Nat) (s : DivisionState r), DivisionInv dividend divisor s →
      s.remainder.length ≤ fuel →
      ∃ t, divisionLoop divisor fuel s = .ok t ∧ DivisionInv dividend divisor t ∧
        t.remainder.length < divisor.length ∧ Conserves divisor s t ∧
        (t = s ∨ t.remainder.getLast? ≠ some 0) := by
  have hpos : 0 < divisor.length := by
    obtain ⟨before, rfl⟩ := List.getLast?_eq_some_iff.mp hlead
    simp
  intro fuel
  induction fuel with
  | zero =>
    intro s hs hfuel
    have hlt : s.remainder.length < divisor.length := by omega
    exact ⟨s, divisionLoop_of_lt hlt 0, hs, hlt, rfl, Or.inl rfl⟩
  | succ fuel ih =>
    intro s hs hfuel
    by_cases hguard : divisor.length ≤ s.remainder.length
    · obtain ⟨t, ht, hinv, hlt, hconserves, htrimmed⟩ := divisionStep_spec hlead hne hs hguard
      obtain ⟨u, hu, huinv, hushort, huconserves, hulast⟩ := ih t hinv (by omega)
      refine ⟨u, ?_, huinv, hushort, huconserves.trans hconserves, ?_⟩
      · rw [divisionLoop, if_pos hguard, ht, ok_bind, hu]
      · rcases hulast with rfl | hulast
        · exact Or.inr htrimmed
        · exact Or.inr hulast
    · have hlt := not_le.mp hguard
      exact ⟨s, divisionLoop_of_lt hlt _, hs, hlt, rfl, Or.inl rfl⟩

def divisionStart (dividend divisor : List (ZMod r)) : DivisionState r :=
  let quotient_degree : Int := dividend.length - divisor.length
  ⟨List.replicate (quotient_degree + 1).toNat 0, dividend, quotient_degree⟩

theorem divisionInv_start (dividend divisor : List (ZMod r)) :
    DivisionInv dividend divisor (divisionStart dividend divisor) := by
  refine ⟨rfl, le_refl _, ?_, ?_, ?_⟩
  · simp only [divisionStart, List.length_replicate]
    omega
  · intro j _
    simp only [divisionStart, List.getD_eq_getElem?_getD, List.getElem?_replicate]
    split
    · rfl
    · rfl
  · intro x
    simp only [divisionStart]
    rw [evalCoeffs_replicate_zero, zero_mul, zero_add]

theorem exists_polynomial_division {lead : ZMod r} (hlead : divisor.getLast? = some lead)
    (hne : lead ≠ 0) (dividend : List (ZMod r)) :
    ∃ t : DivisionState r, polynomial_division dividend divisor = .ok (t.quotient, t.remainder) ∧
      DivisionInv dividend divisor t ∧ t.remainder.length < divisor.length ∧
      toPolynomial dividend =
        toPolynomial t.quotient * toPolynomial divisor + toPolynomial t.remainder ∧
      (t = divisionStart dividend divisor ∨ t.remainder.getLast? ≠ some 0) := by
  obtain ⟨t, ht, hinv, hlt, hconserves, hlast⟩ := divisionLoop_spec hlead hne dividend.length
    (divisionStart dividend divisor) (divisionInv_start dividend divisor) (le_refl _)
  refine ⟨t, ?_, hinv, hlt, ?_, hlast⟩
  · exact bind_eq_of_ok ht rfl
  · rw [hconserves]
    simp only [divisionStart]
    rw [toPolynomial_replicate_zero, zero_mul, zero_add]

/-- Euclidean division of polynomials, without an index error. A dividend that is shorter than the
divisor is the remainder; else the remainder has no zero at its end. -/
theorem polynomial_division_euclidean {lead : ZMod r} (hlead : divisor.getLast? = some lead)
    (hne : lead ≠ 0) (dividend : List (ZMod r)) :
    ∃ q rem, polynomial_division dividend divisor = .ok (q, rem) ∧
      toPolynomial dividend = toPolynomial q * toPolynomial divisor + toPolynomial rem ∧
      rem.length < divisor.length ∧ (dividend.length < divisor.length → rem = dividend) ∧
      (divisor.length ≤ dividend.length → rem.getLast? ≠ some 0) := by
  obtain ⟨t, hdivision, _, hlt, hidentity, hlast⟩ := exists_polynomial_division hlead hne dividend
  refine ⟨t.quotient, t.remainder, hdivision, hidentity, hlt, ?_, ?_⟩
  · intro hshort
    have hstart : polynomial_division dividend divisor =
        .ok ((divisionStart dividend divisor).quotient, dividend) :=
      bind_eq_of_ok (divisionLoop_of_lt hshort dividend.length) rfl
    rw [hdivision, Except.ok.injEq, Prod.mk.injEq] at hstart
    exact hstart.2
  · intro hle
    rcases hlast with rfl | hlast
    · exact absurd hlt (not_lt.mpr hle)
    · exact hlast

/-- `X ^ 3 - 1` by `X - 1`, with a zero in front. -/
theorem polynomial_division_euclidean_cube :
    ∃ q rem, polynomial_division ([6, 0, 0, 1, 0] : List (ZMod 7)) [6, 1] = .ok (q, rem) ∧
      toPolynomial ([6, 0, 0, 1, 0] : List (ZMod 7)) =
        toPolynomial q * toPolynomial [6, 1] + toPolynomial rem ∧
      rem.length < ([6, 1] : List (ZMod 7)).length ∧
      (([6, 0, 0, 1, 0] : List (ZMod 7)).length < ([6, 1] : List (ZMod 7)).length →
        rem = [6, 0, 0, 1, 0]) ∧
      (([6, 1] : List (ZMod 7)).length ≤ ([6, 0, 0, 1, 0] : List (ZMod 7)).length →
        rem.getLast? ≠ some 0) := by
  have : Fact (Nat.Prime 7) := ⟨by norm_num⟩
  have hlast : ([6, 1] : List (ZMod 7)).getLast? = some 1 := rfl
  exact polynomial_division_euclidean hlast one_ne_zero [6, 0, 0, 1, 0]

/-! ### Commitments -/

theorem iterate_multiply {G : Type} [AddCommGroup G] [Module (ZMod r) G] (alpha : ZMod r) (g : G)
    (i : Nat) : (multiply · alpha)^[i] g = alpha ^ i • g := by
  induction i with
  | zero => rw [Function.iterate_zero_apply, pow_zero, one_smul]
  | succ i ih =>
    rw [Function.iterate_succ_apply', ih, multiply, IdealPairing.val_nsmul, smul_smul, ← pow_succ']

theorem g1_powers_generate (e : IdealPairing r G1 G2 GT) (alpha : ZMod r) (t : Nat) :
    (TrustedSetup.generate e alpha t true).g1_powers =
      (List.range (t + 2)).map fun i => alpha ^ i • e.g1 := by
  simp only [TrustedSetup.generate, if_true, PySeq.appendIterates_eq, iterate_multiply]

theorem g2_powers_generate (e : IdealPairing r G1 G2 GT) (alpha : ZMod r) (t : Nat) :
    (TrustedSetup.generate e alpha t true).g2_powers =
      (List.range (t + 2)).map fun i => alpha ^ i • e.g2 := by
  simp only [TrustedSetup.generate, if_true, PySeq.appendIterates_eq, iterate_multiply]

theorem reduce_add_eq_ok {G : Type} [AddCommGroup G] {terms : List G} (hne : terms ≠ []) :
    reduce (· + ·) terms = .ok terms.sum := by
  cases terms with
  | nil => exact absurd rfl hne
  | cons a as =>
    rw [reduce, List.sum_eq_foldl, List.foldl_cons, zero_add]

omit [AddCommGroup G2] [Module (ZMod r) G1] [Module (ZMod r) G2] [Fact r.Prime] in
theorem CommitSum_nil (PK : TrustedSetup r G1 G2) :
    CommitSum PK [] = .error .typeError := rfl

theorem CommitSum_eq_ok (e : IdealPairing r G1 G2 GT) (alpha : ZMod r) (t : Nat)
    {coeff : List (ZMod r)} (hne : coeff ≠ []) (hlen : coeff.length ≤ t + 2) :
    CommitSum (TrustedSetup.generate e alpha t true) coeff =
      .ok (evalCoeffs coeff alpha • e.g1) := by
  have hterms : (coeff.zipIdx.mapM fun (c_i, i) => do
      let power ← need PyException.indexError
        (TrustedSetup.generate e alpha t true).g1_powers[i]?
      return multiply power c_i) = .ok (coeff.zipIdx.map fun ci => ci.1 • alpha ^ ci.2 • e.g1) := by
    apply mapM_eq_ok_map
    intro ci hci
    have hlt : ci.2 < t + 2 := by
      have := List.snd_lt_of_mem_zipIdx hci
      omega
    dsimp only
    rw [g1_powers_generate, List.getElem?_map, List.getElem?_range hlt, Option.map_some, need_some,
      ok_bind, multiply, IdealPairing.val_nsmul]
    rfl
  have hmap_ne : (coeff.zipIdx.map fun ci => ci.1 • alpha ^ ci.2 • e.g1) ≠ [] := by
    simpa using hne
  rw [CommitSum, hterms, ok_bind, reduce_add_eq_ok hmap_ne, sum_smul_powers]

end Lootbox.KZG10

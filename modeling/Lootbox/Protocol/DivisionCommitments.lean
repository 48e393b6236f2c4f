import Lootbox.Base.IndexRanges
import Lootbox.Protocol.KZG10

/-!
# Commitments to a quotient

`KZG10.py` commits to `(phi(x) - phi(y)) / (x - y)` in three ways: by a double sum over the powers
of the trapdoor, by the same sum in the group, and by a long division.
-/

namespace Lootbox.KZG10

variable {r : Nat} {G1 G2 GT : Type} [AddCommGroup G1] [AddCommGroup G2] [CommGroup GT]
  [Module (ZMod r) G1] [Module (ZMod r) G2]

def CommitDivisionTrusted (PK : TrustedSetup r G1 G2) (y : ZMod r) (coeff : List (ZMod r)) :
    Except PyException (ZMod r) :=
  let n := coeff.length
  let y_powers := PySeq.appendIterates (· * y) n 1
  (List.range (n - 1)).foldlM (fun result i =>
    (List.range (i + 1)).reverse.foldlM (fun result j => do
      let a ← need .indexError PK.alpha_powers[j]?
      let b ← need .indexError y_powers[i - j]?
      let c ← need .indexError coeff[i + 1]?
      return result + a * b * c) result) 0

/-- `term if result is None else curve.add(result, term)` -/
def addTerm {G : Type} [AddCommGroup G] (result : Option G) (term : G) : G :=
  match result with
  | none => term
  | some result => result + term

/-- The result stays `None` where there is no term. -/
def CommitDivision (PK : TrustedSetup r G1 G2) (y : ZMod r) (coeff : List (ZMod r)) :
    Except PyException (Option G1) :=
  let n := coeff.length
  let y_powers := PySeq.appendIterates (· * y) n 1
  (List.range (n - 1)).foldlM (fun result i =>
    (List.range (i + 1)).reverse.foldlM (fun result j => do
      let a ← need .indexError PK.g1_powers[j]?
      let b ← need .indexError y_powers[i - j]?
      let c ← need .indexError coeff[i + 1]?
      let term := multiply a (b * c)
      return some (addTerm result term)) result) none

/-! ### One loop over all pairs of indices -/

/-- The pairs `(i, j)` in the order of the two loops. -/
def divisionPairs (n : Nat) : List (Nat × Nat) :=
  (List.range (n - 1)).flatMap fun i => (List.range (i + 1)).reverse.map fun j => (i, j)

theorem foldlM_divisionPairs {σ : Type} (step : Nat → σ → Nat → Except PyException σ) (n : Nat)
    (s : σ) :
    (List.range (n - 1)).foldlM (fun s i => (List.range (i + 1)).reverse.foldlM (step i) s) s =
      (divisionPairs n).foldlM (fun s p => step p.1 s p.2) s := by
  rw [divisionPairs, IndexRanges.foldlM_flatMap]
  congr 1
  funext s i
  rw [List.foldlM_map]

theorem mem_divisionPairs {n : Nat} {p : Nat × Nat} (h : p ∈ divisionPairs n) :
    p.1 + 1 < n ∧ p.2 ≤ p.1 := by
  obtain ⟨i, hi, hp⟩ := List.mem_flatMap.mp h
  obtain ⟨j, hj, rfl⟩ := List.mem_map.mp hp
  rw [List.mem_reverse, List.mem_range] at hj
  rw [List.mem_range] at hi
  exact ⟨by dsimp only; omega, by dsimp only; omega⟩

theorem sum_map_range {M : Type*} [AddCommMonoid M] (f : Nat → M) (n : Nat) :
    ((List.range n).map f).sum = ∑ i ∈ Finset.range n, f i := by
  induction n with
  | zero => rfl
  | succ n ih => rw [List.sum_range_succ, ih, Finset.sum_range_succ]

theorem sum_divisionPairs {M : Type*} [AddCommMonoid M] (n : Nat) (f : Nat → Nat → M) :
    ((divisionPairs n).map fun p => f p.1 p.2).sum =
      ∑ i ∈ Finset.range (n - 1), ∑ j ∈ Finset.range (i + 1), f i j := by
  rw [divisionPairs]
  induction n - 1 with
  | zero => rfl
  | succ m ih =>
    rw [List.range_succ, List.flatMap_append, List.map_append, List.sum_append, ih,
      List.flatMap_singleton, Finset.sum_range_succ, List.map_map, List.map_reverse,
      List.sum_reverse, ← sum_map_range]
    rfl

/-! ### What the two loops add up -/

section Loops

variable (e : IdealPairing r G1 G2 GT) (alpha y : ZMod r) {t : Nat} {coeff : List (ZMod r)}

def divisionSum (coeff : List (ZMod r)) : ZMod r :=
  ∑ i ∈ Finset.range (coeff.length - 1), ∑ j ∈ Finset.range (i + 1),
    alpha ^ j * y ^ (i - j) * coeff.getD (i + 1) 0

theorem iterate_mul (x : ZMod r) (i : Nat) : (· * x)^[i] 1 = x ^ i := by
  induction i with
  | zero => rw [Function.iterate_zero_apply, pow_zero]
  | succ i ih => rw [Function.iterate_succ_apply', ih, pow_succ]

theorem getElem?_powers (x : ZMod r) {n i : Nat} (hi : i ≤ n) :
    (PySeq.appendIterates (· * x) n 1)[i]? = some (x ^ i) := by
  rw [PySeq.appendIterates_eq, List.getElem?_map, List.getElem?_range (by omega), Option.map_some,
    iterate_mul]

theorem round_reads {p : Nat × Nat} (hp : p ∈ divisionPairs coeff.length) :
    (PySeq.appendIterates (· * y) coeff.length 1)[p.1 - p.2]? = some (y ^ (p.1 - p.2)) ∧
      coeff[p.1 + 1]? = some (coeff.getD (p.1 + 1) 0) := by
  obtain ⟨hi, _⟩ := mem_divisionPairs hp
  refine ⟨getElem?_powers y (by omega), ?_⟩
  rw [List.getD_eq_getElem _ _ hi, List.getElem?_eq_getElem hi]

theorem CommitDivisionTrusted_eq_ok (hlen : coeff.length ≤ t + 2) (g1andg2 : Bool) :
    CommitDivisionTrusted (TrustedSetup.generate e alpha t g1andg2) y coeff =
      .ok (divisionSum alpha y coeff) := by
  unfold CommitDivisionTrusted
  dsimp only
  rw [foldlM_divisionPairs]
  refine (foldlM_eq_ok_foldl (g := fun result p =>
    result + alpha ^ p.2 * y ^ (p.1 - p.2) * coeff.getD (p.1 + 1) 0) ?_ 0).trans ?_
  · intro p hp result
    obtain ⟨hi, hj⟩ := mem_divisionPairs hp
    obtain ⟨hy, hc⟩ := round_reads y hp
    have ha : (TrustedSetup.generate e alpha t g1andg2).alpha_powers[p.2]? = some (alpha ^ p.2) :=
      getElem?_powers alpha (by omega)
    rw [ha, need_some, ok_bind, hy, need_some, ok_bind, hc, need_some, ok_bind]
    rfl
  · rw [divisionSum, ← sum_divisionPairs, List.sum_eq_foldl, List.foldl_map]

theorem foldl_addTerm {α G : Type} [AddCommGroup G] (term : α → G) (xs : List α) (s : G) :
    xs.foldl (fun result x => some (addTerm result (term x))) (some s) =
      some (s + (xs.map term).sum) := by
  induction xs generalizing s with
  | nil => rw [List.map_nil, List.sum_nil, add_zero]; rfl
  | cons x xs ih => rw [List.foldl_cons, addTerm, ih, List.map_cons, List.sum_cons, add_assoc]

theorem foldl_addTerm_none {α G : Type} [AddCommGroup G] (term : α → G) {xs : List α} (hne : xs ≠ []) :
    xs.foldl (fun result x => some (addTerm result (term x))) none = some (xs.map term).sum := by
  cases xs with
  | nil => exact absurd rfl hne
  | cons x xs => rw [List.foldl_cons, addTerm, foldl_addTerm, List.map_cons, List.sum_cons]

variable [Fact r.Prime]

theorem CommitDivision_eq_ok (hlen : coeff.length ≤ t + 2) (htwo : 2 ≤ coeff.length) :
    CommitDivision (TrustedSetup.generate e alpha t true) y coeff =
      .ok (some (divisionSum alpha y coeff • e.g1)) := by
  let term : Nat × Nat → G1 := fun p =>
    (alpha ^ p.2 * y ^ (p.1 - p.2) * coeff.getD (p.1 + 1) 0) • e.g1
  have hpairs : divisionPairs coeff.length ≠ [] := by
    have hmem : (0, 0) ∈ divisionPairs coeff.length :=
      List.mem_flatMap.mpr ⟨0, List.mem_range.mpr (by omega), List.mem_singleton.mpr rfl⟩
    exact List.ne_nil_of_mem hmem
  unfold CommitDivision
  dsimp only
  rw [foldlM_divisionPairs]
  refine (foldlM_eq_ok_foldl (g := fun result p => some (addTerm result (term p))) ?_ none).trans ?_
  · intro p hp result
    obtain ⟨hi, hj⟩ := mem_divisionPairs hp
    obtain ⟨hy, hc⟩ := round_reads y hp
    have ha : (TrustedSetup.generate e alpha t true).g1_powers[p.2]? = some (alpha ^ p.2 • e.g1) := by
      rw [g1_powers_generate, List.getElem?_map, List.getElem?_range (by omega), Option.map_some]
    have hterm : multiply (alpha ^ p.2 • e.g1) (y ^ (p.1 - p.2) * coeff.getD (p.1 + 1) 0) =
        term p := by
      rw [multiply, IdealPairing.val_nsmul, smul_smul]
      simp only [term]
      congr 1
      ring
    rw [ha, need_some, ok_bind, hy, need_some, ok_bind, hc, need_some, ok_bind, hterm]
    rfl
  · have hsum : ((divisionPairs coeff.length).map term).sum = divisionSum alpha y coeff • e.g1 := by
      simp only [divisionSum, Finset.sum_smul]
      exact sum_divisionPairs coeff.length fun i j =>
        (alpha ^ j * y ^ (i - j) * coeff.getD (i + 1) 0) • e.g1
    rw [foldl_addTerm_none term hpairs, hsum]

end Loops

/-! ### The long division has the same value -/

section Quotient

open Polynomial

variable {r : Nat} (y : ZMod r) (coeff : List (ZMod r))

noncomputable def divisionPolynomial : (ZMod r)[X] :=
  ∑ i ∈ Finset.range (coeff.length - 1), ∑ j ∈ Finset.range (i + 1),
    X ^ j * C y ^ (i - j) * C (coeff.getD (i + 1) 0)

theorem eval_divisionPolynomial (alpha : ZMod r) :
    (divisionPolynomial y coeff).eval alpha = divisionSum alpha y coeff := by
  simp only [divisionPolynomial, divisionSum, eval_finsetSum, eval_mul, eval_pow, eval_X, eval_C]

theorem divisionPolynomial_mul :
    divisionPolynomial y coeff * (X - C y) = toPolynomial coeff - C (evalCoeffs coeff y) := by
  have hphi : toPolynomial coeff =
      ∑ i ∈ Finset.range coeff.length, C (coeff.getD i 0) * X ^ i := by
    rw [toPolynomial, evalCoeffs_eq_sum, List.length_map]
    refine Finset.sum_congr rfl fun i _ => ?_
    rw [List.getD_eq_getElem?_getD, List.getElem?_map, List.getD_eq_getElem?_getD]
    cases coeff[i]? with
    | none => simp
    | some c => rfl
  have hround : ∀ i, (∑ j ∈ Finset.range (i + 1), X ^ j * C y ^ (i - j) * C (coeff.getD (i + 1) 0)) *
      (X - C y) = C (coeff.getD (i + 1) 0) * (X ^ (i + 1) - C y ^ (i + 1)) := by
    intro i
    have hgeom := (Commute.all (X : (ZMod r)[X]) (C y)).geom_sum₂_mul (i + 1)
    rw [← hgeom, ← Finset.sum_mul]
    simp only [Nat.add_sub_cancel]
    ring
  rw [divisionPolynomial, Finset.sum_mul, Finset.sum_congr rfl fun i _ => hround i, hphi,
    evalCoeffs_eq_sum]
  cases coeff.length with
  | zero => simp
  | succ n =>
    rw [Nat.add_sub_cancel, Finset.sum_range_succ', Finset.sum_range_succ' (n := n)]
    simp only [map_add, map_sum, map_mul, map_pow, pow_zero, mul_one]
    rw [add_sub_add_right_eq_sub, ← Finset.sum_sub_distrib]
    refine Finset.sum_congr rfl fun i _ => ?_
    ring

theorem divisionSum_mul (alpha : ZMod r) :
    divisionSum alpha y coeff * (alpha - y) = evalCoeffs coeff alpha - evalCoeffs coeff y := by
  have hquotient := congrArg (eval alpha) (divisionPolynomial_mul y coeff)
  simp only [eval_mul, eval_sub, eval_X, eval_C, eval_divisionPolynomial,
    eval_toPolynomial] at hquotient
  exact hquotient

variable [Fact r.Prime]

/-- The long division by `X - y` leaves no remainder, and its quotient is the double sum. -/
theorem exists_quotient {coeff : List (ZMod r)} (htwo : 2 ≤ coeff.length) :
    ∃ q rem, polynomial_division (coeff.set 0 (coeff.getD 0 0 - evalCoeffs coeff y)) [-y, 1] =
        .ok (q, rem) ∧ q.length = coeff.length - 1 ∧ toPolynomial q = divisionPolynomial y coeff := by
  have hpos : 0 < coeff.length := by omega
  have hlast : ([-y, 1] : List (ZMod r)).getLast? = some 1 := rfl
  obtain ⟨t, hdivision, hinv, hlt, hidentity, _⟩ := exists_polynomial_division hlast one_ne_zero
    (coeff.set 0 (coeff.getD 0 0 - evalCoeffs coeff y))
  refine ⟨t.quotient, t.remainder, hdivision, ?_, ?_⟩
  · have hlength := hinv.length
    rw [List.length_set] at hlength
    rw [hlength]
    rfl
  have hdivisor : toPolynomial ([-y, 1] : List (ZMod r)) = X - C y := by
    simp [toPolynomial]
    ring
  have hdividend : toPolynomial (coeff.set 0 (coeff.getD 0 0 - evalCoeffs coeff y)) =
      divisionPolynomial y coeff * (X - C y) := by
    rw [divisionPolynomial_mul, toPolynomial_set _ hpos, List.getD_eq_getElem _ _ hpos]
    simp only [sub_sub_cancel_left, pow_zero, mul_one, C_neg]
    ring
  rw [hdividend, hdivisor] at hidentity
  obtain ⟨c, hc⟩ : ∃ c, toPolynomial t.remainder = C c := by
    rcases hrem : t.remainder with _ | ⟨c, _ | ⟨d, rest⟩⟩
    · exact ⟨0, C_0.symm⟩
    · exact ⟨c, by simp [toPolynomial]⟩
    · rw [hrem] at hlt
      simp at hlt
  have hzero : c = 0 := by
    have heval := congrArg (eval y) hidentity
    rw [hc] at heval
    simpa using heval.symm
  rw [hc, hzero, C_0, add_zero] at hidentity
  exact (mul_right_cancel₀ (X_sub_C_ne_zero y) hidentity).symm

end Quotient

section Agreement

variable [Fact r.Prime] (e : IdealPairing r G1 G2 GT) (alpha y : ZMod r) {t : Nat}
  {coeff : List (ZMod r)}

theorem CommitDivision_optimized_eq_ok (hlen : coeff.length ≤ t + 2) (htwo : 2 ≤ coeff.length) :
    CommitDivision_optimized (TrustedSetup.generate e alpha t true) y coeff =
      .ok (divisionSum alpha y coeff • e.g1) := by
  have hpos : 0 < coeff.length := by omega
  have hfirst : coeff[0]? = some (coeff.getD 0 0) := by
    rw [List.getElem?_eq_getElem hpos, List.getD_eq_getElem _ _ hpos]
  obtain ⟨q, rem, hdivision, hq_len, hq⟩ := exists_quotient y htwo
  have hvalue : evalCoeffs q alpha = divisionSum alpha y coeff := by
    rw [← eval_toPolynomial, hq, eval_divisionPolynomial]
  have hne : q ≠ [] := by
    rw [← List.length_pos_iff]
    omega
  refine bind_eq_of_ok (polynomial_eq_ok y (List.ne_nil_of_length_pos hpos)) ?_
  refine bind_eq_of_ok (need_eq_ok_iff.mpr hfirst) ?_
  refine bind_eq_of_ok hdivision ?_
  dsimp only
  rw [CommitSum_eq_ok e alpha t hne (by omega), hvalue]

/-- The three ways commit to one value, which is the quotient where `alpha` is not `y`. -/
theorem CommitDivision_agree (g1andg2 : Bool) (htwo : 2 ≤ coeff.length)
    (hlen : coeff.length ≤ (TrustedSetup.generate e alpha t g1andg2).g1_powers.length) :
    ∃ q phi_alpha phi_y,
      CommitDivisionTrusted (TrustedSetup.generate e alpha t g1andg2) y coeff = .ok q ∧
      CommitDivision (TrustedSetup.generate e alpha t g1andg2) y coeff =
        .ok (some (multiply e.g1 q)) ∧
      CommitDivision_optimized (TrustedSetup.generate e alpha t g1andg2) y coeff =
        .ok (multiply e.g1 q) ∧
      polynomial alpha coeff = .ok phi_alpha ∧ polynomial y coeff = .ok phi_y ∧
      q * (alpha - y) = phi_alpha - phi_y := by
  cases g1andg2 with
  | false =>
    have hone : (TrustedSetup.generate e alpha t false).g1_powers.length = 1 := rfl
    omega
  | true =>
    have hle : coeff.length ≤ t + 2 := by
      rwa [g1_powers_generate, List.length_map, List.length_range] at hlen
    have hne : coeff ≠ [] := List.ne_nil_of_length_pos (by omega)
    refine ⟨divisionSum alpha y coeff, _, _, CommitDivisionTrusted_eq_ok e alpha y hle true, ?_, ?_,
      polynomial_eq_ok alpha hne, polynomial_eq_ok y hne, divisionSum_mul y coeff alpha⟩
    · rw [multiply, IdealPairing.val_nsmul]
      exact CommitDivision_eq_ok e alpha y hle htwo
    · rw [multiply, IdealPairing.val_nsmul]
      exact CommitDivision_optimized_eq_ok e alpha y hle htwo

end Agreement

/-- `3 + X ^ 2`, with a zero in front, at `y = 4` and the trapdoor `2`. -/
theorem CommitDivision_agree_seven :
    ∃ q phi_alpha phi_y,
      CommitDivisionTrusted (TrustedSetup.generate (.residues 7) 2 2 true) 4 [3, 0, 1, 0] = .ok q ∧
      CommitDivision (TrustedSetup.generate (.residues 7) 2 2 true) 4 [3, 0, 1, 0] =
        .ok (some (multiply 1 q)) ∧
      CommitDivision_optimized (TrustedSetup.generate (.residues 7) 2 2 true) 4 [3, 0, 1, 0] =
        .ok (multiply 1 q) ∧
      polynomial (2 : ZMod 7) [3, 0, 1, 0] = .ok phi_alpha ∧
      polynomial (4 : ZMod 7) [3, 0, 1, 0] = .ok phi_y ∧ q * (2 - 4) = phi_alpha - phi_y := by
  have hlen : ([3, 0, 1, 0] : List (ZMod 7)).length ≤
      (TrustedSetup.generate (.residues 7) 2 2 true).g1_powers.length := by decide
  have : Fact (Nat.Prime 7) := ⟨by norm_num⟩
  exact CommitDivision_agree (.residues 7) 2 4 true (by decide) hlen

end Lootbox.KZG10

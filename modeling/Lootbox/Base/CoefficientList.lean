import Mathlib

/-!
# Values of coefficient lists

A list of coefficients, constant coefficient first and zeros at the end allowed. The
operations that algorithms apply to such lists in place each say what they do to the value
of the list at a point.
-/

namespace Lootbox

universe u
variable {R : Type u} [CommRing R]

def evalCoeffs (cs : List R) (x : R) : R := cs.foldr (fun c acc => c + x * acc) 0

@[simp] theorem evalCoeffs_nil (x : R) : evalCoeffs [] x = 0 := rfl

@[simp] theorem evalCoeffs_cons (c : R) (cs : List R) (x : R) :
    evalCoeffs (c :: cs) x = c + x * evalCoeffs cs x := rfl

theorem evalCoeffs_append (as bs : List R) (x : R) :
    evalCoeffs (as ++ bs) x = evalCoeffs as x + x ^ as.length * evalCoeffs bs x := by
  induction as with
  | nil => simp
  | cons a as ih =>
    rw [List.cons_append, evalCoeffs_cons, evalCoeffs_cons, ih, List.length_cons, pow_succ]
    ring

theorem evalCoeffs_replicate_zero (n : Nat) (x : R) : evalCoeffs (List.replicate n 0) x = 0 := by
  induction n with
  | zero => rfl
  | succ n ih => rw [List.replicate_succ, evalCoeffs_cons, ih, mul_zero, add_zero]

theorem evalCoeffs_eq_sum (cs : List R) (x : R) :
    evalCoeffs cs x = ∑ j ∈ Finset.range cs.length, cs.getD j 0 * x ^ j := by
  induction cs with
  | nil => rfl
  | cons c cs ih =>
    rw [evalCoeffs_cons, ih, List.length_cons, Finset.sum_range_succ', Finset.mul_sum]
    simp only [List.getD_cons_succ, List.getD_cons_zero, pow_succ, pow_zero, mul_one]
    rw [add_comm]
    congr 1
    apply Finset.sum_congr rfl
    intro j _
    ring

theorem evalCoeffs_set (cs : List R) {i : Nat} (hi : i < cs.length) (c x : R) :
    evalCoeffs (cs.set i c) x = evalCoeffs cs x + (c - cs[i]) * x ^ i := by
  induction cs generalizing i with
  | nil => simp at hi
  | cons a as ih =>
    cases i with
    | zero =>
      rw [List.set_cons_zero, evalCoeffs_cons, evalCoeffs_cons, List.getElem_cons_zero]
      ring
    | succ i =>
      have hlt : i < as.length := Nat.lt_of_succ_lt_succ hi
      rw [List.set_cons_succ, evalCoeffs_cons, evalCoeffs_cons, ih hlt, List.getElem_cons_succ]
      ring

theorem evalCoeffs_zipWith_sub_mul (c : R) :
    ∀ {as bs : List R}, as.length = bs.length → ∀ x : R,
      evalCoeffs (List.zipWith (fun a b => a - c * b) as bs) x =
        evalCoeffs as x - c * evalCoeffs bs x := by
  intro as
  induction as with
  | nil =>
    intro bs h x
    have hnil : bs = [] := List.length_eq_zero_iff.mp h.symm
    subst hnil
    simp
  | cons a as ih =>
    intro bs h x
    cases bs with
    | nil => cases h
    | cons b bs =>
      rw [List.zipWith_cons_cons, evalCoeffs_cons, ih (Nat.succ.inj h), evalCoeffs_cons,
        evalCoeffs_cons]
      ring

/-! ### The polynomial of a coefficient list -/

section Polynomial

open Polynomial

noncomputable def toPolynomial (cs : List R) : R[X] := evalCoeffs (cs.map C) X

theorem eval_toPolynomial (cs : List R) (x : R) : (toPolynomial cs).eval x = evalCoeffs cs x := by
  induction cs with
  | nil => exact eval_zero
  | cons c cs ih =>
    rw [toPolynomial] at ih
    rw [toPolynomial, List.map_cons, evalCoeffs_cons, eval_add, eval_mul, eval_C, eval_X, ih,
      evalCoeffs_cons]

theorem toPolynomial_append (as bs : List R) :
    toPolynomial (as ++ bs) = toPolynomial as + X ^ as.length * toPolynomial bs := by
  rw [toPolynomial, List.map_append, evalCoeffs_append, List.length_map]
  rfl

theorem toPolynomial_replicate_zero (n : Nat) : toPolynomial (List.replicate n (0 : R)) = 0 := by
  rw [toPolynomial, List.map_replicate, C_0, evalCoeffs_replicate_zero]

theorem toPolynomial_set (cs : List R) {i : Nat} (hi : i < cs.length) (c : R) :
    toPolynomial (cs.set i c) = toPolynomial cs + C (c - cs[i]) * X ^ i := by
  have hi_map : i < (cs.map C).length := by rwa [List.length_map]
  rw [toPolynomial, List.map_set, evalCoeffs_set _ hi_map, List.getElem_map, ← C_sub]
  rfl

theorem toPolynomial_zipWith_sub_mul (c : R) {as bs : List R} (h : as.length = bs.length) :
    toPolynomial (List.zipWith (fun a b => a - c * b) as bs) =
      toPolynomial as - C c * toPolynomial bs := by
  have hmap : (List.zipWith (fun a b => a - c * b) as bs).map C =
      List.zipWith (fun a b => a - C c * b) (as.map C) (bs.map C) := by
    rw [List.map_zipWith, List.zipWith_map]
    simp only [C_sub, C_mul]
  have hlen : (as.map (C : R → R[X])).length = (bs.map C).length := by
    rw [List.length_map, List.length_map, h]
  rw [toPolynomial, hmap, evalCoeffs_zipWith_sub_mul (C c) hlen]
  rfl

theorem toPolynomial_rdropWhile_zero [DecidableEq R] (cs : List R) :
    toPolynomial (cs.rdropWhile (· == 0)) = toPolynomial cs := by
  induction cs using List.reverseRecOn with
  | nil => rfl
  | append_singleton cs c ih =>
    by_cases hc : c = 0
    · rw [List.rdropWhile_concat_pos _ _ _ (by simpa using hc), ih, toPolynomial_append, hc]
      simp [toPolynomial]
    · rw [List.rdropWhile_concat_neg _ _ _ (by simpa using hc)]

end Polynomial

end Lootbox

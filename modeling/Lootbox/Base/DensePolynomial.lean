import Mathlib

/-!
# Dense univariate polynomials that compute

A polynomial is the list of its coefficients, constant coefficient first; the operations
drop zeros at the end. `toPoly` reads it as a polynomial of Mathlib, and every operation
has one lemma that says what it denotes.
-/

namespace Lootbox

structure DensePolynomial (F : Type) where
  coeffs : List F
  deriving DecidableEq, Repr

namespace DensePolynomial

open Polynomial

variable {F : Type} [Field F] [DecidableEq F]

/-! ### Operations -/

def trim : List F → List F
  | [] => []
  | c :: cs =>
    match trim cs with
    | [] => if c = 0 then [] else [c]
    | t => c :: t

def fromCoefficientsVec (cs : List F) : DensePolynomial F := ⟨trim cs⟩

def addCoeffs : List F → List F → List F
  | [], bs => bs
  | as, [] => as
  | a :: as, b :: bs => (a + b) :: addCoeffs as bs

def mulCoeffs : List F → List F → List F
  | [], _ => []
  | a :: as, bs => addCoeffs (bs.map (a * ·)) (0 :: mulCoeffs as bs)

def scale (c : F) (p : DensePolynomial F) : DensePolynomial F :=
  fromCoefficientsVec (p.coeffs.map (c * ·))

instance : Zero (DensePolynomial F) := ⟨⟨[]⟩⟩

instance : Add (DensePolynomial F) :=
  ⟨fun p q => fromCoefficientsVec (addCoeffs p.coeffs q.coeffs)⟩

instance : Sub (DensePolynomial F) :=
  ⟨fun p q => fromCoefficientsVec (addCoeffs p.coeffs (q.coeffs.map (-1 * ·)))⟩

instance : Mul (DensePolynomial F) :=
  ⟨fun p q => fromCoefficientsVec (mulCoeffs p.coeffs q.coeffs)⟩

def evaluate (p : DensePolynomial F) (x : F) : F := p.coeffs.foldr (fun c acc => c + x * acc) 0

def constant (c : F) : DensePolynomial F := fromCoefficientsVec [c]

/-- `c * X ^ n` -/
def monomial (n : Nat) (c : F) : DensePolynomial F :=
  fromCoefficientsVec (List.replicate n 0 ++ [c])

/-- One step of the long division cancels the leading coefficient of the remainder. -/
def divideStep (divisor : DensePolynomial F) (st : DensePolynomial F × DensePolynomial F) :
    DensePolynomial F × DensePolynomial F :=
  let term := monomial (st.2.coeffs.length - divisor.coeffs.length)
    (st.2.coeffs.getLastD 0 * (divisor.coeffs.getLastD 0)⁻¹)
  (st.1 + term, st.2 - term * divisor)

/-- Quotient and remainder; `fuel` bounds the number of steps. -/
def divideLoop (divisor : DensePolynomial F) :
    Nat → DensePolynomial F × DensePolynomial F → DensePolynomial F × DensePolynomial F
  | 0, st => st
  | fuel + 1, st =>
    if st.2.coeffs.length < divisor.coeffs.length then st
    else divideLoop divisor fuel (divideStep divisor st)

def divideWithQAndR (p divisor : DensePolynomial F) : DensePolynomial F × DensePolynomial F :=
  divideLoop divisor (p.coeffs.length + 1) (0, fromCoefficientsVec p.coeffs)

/-! ### What they denote -/

omit [DecidableEq F] in
noncomputable def ofCoeffs (cs : List F) : F[X] := cs.foldr (fun c p => C c + X * p) 0

omit [DecidableEq F] in
noncomputable def toPoly (p : DensePolynomial F) : F[X] := ofCoeffs p.coeffs

section Denote

omit [DecidableEq F] in
@[simp] theorem ofCoeffs_nil : ofCoeffs ([] : List F) = 0 := rfl

omit [DecidableEq F] in
@[simp] theorem ofCoeffs_cons (c : F) (cs : List F) : ofCoeffs (c :: cs) = C c + X * ofCoeffs cs := rfl

theorem ofCoeffs_trim (cs : List F) : ofCoeffs (trim cs) = ofCoeffs cs := by
  induction cs with
  | nil => rfl
  | cons c cs ih =>
    rw [trim, ofCoeffs_cons, ← ih]
    cases trim cs with
    | nil =>
      by_cases hc : c = 0
      · simp [hc]
      · simp [hc]
    | cons d ds => rfl

omit [DecidableEq F] in
theorem ofCoeffs_addCoeffs : ∀ as bs : List F,
    ofCoeffs (addCoeffs as bs) = ofCoeffs as + ofCoeffs bs
  | [], bs => by simp [addCoeffs]
  | a :: as, [] => by simp [addCoeffs]
  | a :: as, b :: bs => by
    rw [addCoeffs, ofCoeffs_cons, ofCoeffs_cons, ofCoeffs_cons, ofCoeffs_addCoeffs as bs, C_add]
    ring

omit [DecidableEq F] in
theorem ofCoeffs_map_mul (c : F) (cs : List F) : ofCoeffs (cs.map (c * ·)) = C c * ofCoeffs cs := by
  induction cs with
  | nil => simp
  | cons d ds ih =>
    rw [List.map_cons, ofCoeffs_cons, ofCoeffs_cons, ih, C_mul]
    ring

omit [DecidableEq F] in
theorem ofCoeffs_mulCoeffs (as bs : List F) :
    ofCoeffs (mulCoeffs as bs) = ofCoeffs as * ofCoeffs bs := by
  induction as with
  | nil => simp [mulCoeffs]
  | cons a as ih =>
    rw [mulCoeffs, ofCoeffs_addCoeffs, ofCoeffs_map_mul, ofCoeffs_cons, ofCoeffs_cons, ih, C_0]
    ring

omit [DecidableEq F] in
theorem coeff_ofCoeffs (cs : List F) (i : Nat) : (ofCoeffs cs).coeff i = cs.getD i 0 := by
  induction cs generalizing i with
  | nil => simp
  | cons c cs ih =>
    cases i with
    | zero => simp
    | succ i => simp [ih, coeff_X_mul, coeff_C_succ]

@[simp] theorem toPoly_fromCoefficientsVec (cs : List F) :
    (fromCoefficientsVec cs).toPoly = ofCoeffs cs := ofCoeffs_trim cs

omit [DecidableEq F] in
@[simp] theorem toPoly_zero : (0 : DensePolynomial F).toPoly = 0 := rfl

@[simp] theorem toPoly_add (p q : DensePolynomial F) : (p + q).toPoly = p.toPoly + q.toPoly :=
  (toPoly_fromCoefficientsVec _).trans (ofCoeffs_addCoeffs _ _)

@[simp] theorem toPoly_sub (p q : DensePolynomial F) : (p - q).toPoly = p.toPoly - q.toPoly := by
  refine (toPoly_fromCoefficientsVec _).trans ?_
  rw [ofCoeffs_addCoeffs, ofCoeffs_map_mul, C_neg, C_1]
  unfold toPoly
  ring

@[simp] theorem toPoly_mul (p q : DensePolynomial F) : (p * q).toPoly = p.toPoly * q.toPoly :=
  (toPoly_fromCoefficientsVec _).trans (ofCoeffs_mulCoeffs _ _)

@[simp] theorem toPoly_scale (c : F) (p : DensePolynomial F) :
    (p.scale c).toPoly = C c * p.toPoly :=
  (toPoly_fromCoefficientsVec _).trans (ofCoeffs_map_mul _ _)

@[simp] theorem toPoly_monomial (n : Nat) (c : F) : (monomial n c).toPoly = C c * X ^ n := by
  refine (toPoly_fromCoefficientsVec _).trans ?_
  induction n with
  | zero => simp
  | succ n ih =>
    rw [List.replicate_succ, List.cons_append, ofCoeffs_cons, ih, C_0, pow_succ]
    ring

omit [DecidableEq F] in
theorem eval_toPoly (p : DensePolynomial F) (x : F) : p.toPoly.eval x = p.evaluate x := by
  obtain ⟨cs⟩ := p
  unfold toPoly evaluate
  dsimp only
  induction cs with
  | nil => simp
  | cons c cs ih =>
    rw [ofCoeffs_cons, List.foldr_cons, ← ih]
    simp

theorem evaluate_add (p q : DensePolynomial F) (x : F) :
    (p + q).evaluate x = p.evaluate x + q.evaluate x := by
  simp only [← eval_toPoly, toPoly_add, eval_add]

theorem evaluate_sub (p q : DensePolynomial F) (x : F) :
    (p - q).evaluate x = p.evaluate x - q.evaluate x := by
  simp only [← eval_toPoly, toPoly_sub, eval_sub]

theorem evaluate_mul (p q : DensePolynomial F) (x : F) :
    (p * q).evaluate x = p.evaluate x * q.evaluate x := by
  simp only [← eval_toPoly, toPoly_mul, eval_mul]

theorem evaluate_scale (c : F) (p : DensePolynomial F) (x : F) :
    (p.scale c).evaluate x = c * p.evaluate x := by
  simp only [← eval_toPoly, toPoly_scale, eval_mul, eval_C]

omit [DecidableEq F] in
@[simp] theorem evaluate_zero (x : F) : (0 : DensePolynomial F).evaluate x = 0 := rfl

theorem evaluate_constant (c x : F) : (constant c).evaluate x = c := by
  rw [constant, ← eval_toPoly, toPoly_fromCoefficientsVec]
  simp

end Denote

/-! ### Lengths of coefficients -/

section Lengths

theorem length_trim_le (cs : List F) : (trim cs).length ≤ cs.length := by
  induction cs with
  | nil => exact Nat.le_refl 0
  | cons c cs ih =>
    rw [trim]
    cases htrim : trim cs with
    | nil =>
      by_cases hc : c = 0
      · simp [hc]
      · simp [hc]
    | cons d ds =>
      rw [htrim] at ih
      exact Nat.succ_le_succ ih

omit [DecidableEq F] in
theorem length_addCoeffs (as bs : List F) :
    (addCoeffs as bs).length = max as.length bs.length := by
  induction as generalizing bs with
  | nil => simp [addCoeffs]
  | cons a as ih =>
    cases bs with
    | nil => simp [addCoeffs]
    | cons b bs =>
      rw [addCoeffs, List.length_cons, ih, List.length_cons, List.length_cons]
      omega

theorem length_add_le {p q : DensePolynomial F} {n : Nat} (hp : p.coeffs.length ≤ n)
    (hq : q.coeffs.length ≤ n) : (p + q).coeffs.length ≤ n := by
  apply (length_trim_le _).trans
  rw [length_addCoeffs]
  exact max_le hp hq

theorem length_sub_le {p q : DensePolynomial F} {n : Nat} (hp : p.coeffs.length ≤ n)
    (hq : q.coeffs.length ≤ n) : (p - q).coeffs.length ≤ n := by
  apply (length_trim_le _).trans
  rw [length_addCoeffs, List.length_map]
  exact max_le hp hq

theorem length_scale_le (c : F) (p : DensePolynomial F) :
    (p.scale c).coeffs.length ≤ p.coeffs.length := by
  apply (length_trim_le _).trans
  rw [List.length_map]

omit [DecidableEq F] in
theorem length_mulCoeffs_le (as bs : List F) :
    (mulCoeffs as bs).length ≤ as.length + (bs.length - 1) := by
  induction as with
  | nil => exact Nat.zero_le _
  | cons a as ih =>
    rw [mulCoeffs, length_addCoeffs, List.length_map, List.length_cons, List.length_cons]
    omega

theorem length_mul_le (p q : DensePolynomial F) :
    (p * q).coeffs.length ≤ p.coeffs.length + (q.coeffs.length - 1) :=
  (length_trim_le _).trans (length_mulCoeffs_le p.coeffs q.coeffs)

theorem length_constant_le (c : F) : (constant c).coeffs.length ≤ 1 := length_trim_le [c]

theorem length_mul_le_of_le {p q : DensePolynomial F} {m n k : Nat} (hp : p.coeffs.length ≤ m)
    (hq : q.coeffs.length ≤ n) (hk : m + (n - 1) ≤ k) : (p * q).coeffs.length ≤ k := by
  have hmul := length_mul_le p q
  omega

end Lengths

/-! ### Long division -/

def Trimmed (p : DensePolynomial F) : Prop := p.coeffs.getLast? ≠ some 0

section Division

theorem trim_getLast? (cs : List F) : (trim cs).getLast? ≠ some 0 := by
  induction cs with
  | nil => simp [trim]
  | cons c cs ih =>
    rw [trim]
    cases htrim : trim cs with
    | nil =>
      by_cases hc : c = 0
      · simp [hc]
      · simp [hc]
    | cons d ds =>
      rw [htrim] at ih
      rw [List.getLast?_cons_cons]
      exact ih

theorem trimmed_fromCoefficientsVec (cs : List F) : (fromCoefficientsVec cs).Trimmed :=
  trim_getLast? cs

omit [DecidableEq F] in
theorem trimmed_zero : (0 : DensePolynomial F).Trimmed := nofun

theorem trimmed_add (p q : DensePolynomial F) : (p + q).Trimmed := trimmed_fromCoefficientsVec _

omit [DecidableEq F] in
theorem degree_toPoly_lt (p : DensePolynomial F) : p.toPoly.degree < p.coeffs.length := by
  rw [degree_lt_iff_coeff_zero]
  intro i hi
  rw [toPoly, coeff_ofCoeffs, List.getD_eq_default _ _ hi]

omit [DecidableEq F] in
theorem Trimmed.leading {p : DensePolynomial F} (h : p.Trimmed) (hpos : 0 < p.coeffs.length) :
    p.coeffs.getLastD 0 ≠ 0 ∧ p.toPoly.degree = (p.coeffs.length - 1 : Nat) ∧
      p.toPoly.leadingCoeff = p.coeffs.getLastD 0 := by
  have hlast : p.coeffs.getLast? = some (p.coeffs.getD (p.coeffs.length - 1) 0) := by
    rw [List.getLast?_eq_getElem?, List.getD_eq_getElem?_getD,
      List.getElem?_eq_getElem (by omega), Option.getD_some]
  have hlastD : p.coeffs.getLastD 0 = p.coeffs.getD (p.coeffs.length - 1) 0 := by
    rw [List.getLastD_eq_getLast?, hlast, Option.getD_some]
  have hne : p.coeffs.getLastD 0 ≠ 0 := by
    rw [hlastD]
    intro hzero
    rw [hzero] at hlast
    exact h hlast
  have hcoeff : p.toPoly.coeff (p.coeffs.length - 1) = p.coeffs.getLastD 0 := by
    rw [toPoly, coeff_ofCoeffs, hlastD]
  have hdeg : p.toPoly.degree = (p.coeffs.length - 1 : Nat) := by
    apply le_antisymm
    · rw [degree_le_iff_coeff_zero]
      intro i hi
      have hi' : p.coeffs.length - 1 < i := by exact_mod_cast hi
      rw [toPoly, coeff_ofCoeffs, List.getD_eq_default _ _ (by omega)]
    · apply le_degree_of_ne_zero
      rw [hcoeff]
      exact hne
  refine ⟨hne, hdeg, ?_⟩
  rw [leadingCoeff, natDegree_eq_of_degree_eq_some hdeg, hcoeff]

omit [DecidableEq F] in
theorem Trimmed.length_le {p : DensePolynomial F} (h : p.Trimmed) {n : Nat}
    (hdeg : p.toPoly.degree < n) : p.coeffs.length ≤ n := by
  by_contra hlt
  obtain ⟨_, hdeg', _⟩ := h.leading (by omega)
  rw [hdeg'] at hdeg
  have : p.coeffs.length - 1 < n := by exact_mod_cast hdeg
  omega

omit [DecidableEq F] in
theorem Trimmed.length_eq {p : DensePolynomial F} (h : p.Trimmed) {n : Nat}
    (hdeg : p.toPoly.degree = n) : p.coeffs.length = n + 1 := by
  have hlt := degree_toPoly_lt p
  rw [hdeg] at hlt
  have hlt' : n < p.coeffs.length := by exact_mod_cast hlt
  have hle := h.length_le (n := n + 1) (by rw [hdeg]; exact_mod_cast Nat.lt_succ_self n)
  omega

omit [DecidableEq F] in
theorem Trimmed.eq {p q : DensePolynomial F} (hp : p.Trimmed) (hq : q.Trimmed)
    (h : p.toPoly = q.toPoly) : p = q := by
  have hle : ∀ {p q : DensePolynomial F}, p.Trimmed → p.toPoly = q.toPoly →
      p.coeffs.length ≤ q.coeffs.length :=
    fun hp h => hp.length_le (h ▸ degree_toPoly_lt _)
  obtain ⟨as⟩ := p
  obtain ⟨bs⟩ := q
  congr 1
  apply List.ext_getElem (le_antisymm (hle hp h) (hle hq h.symm))
  intro i hi hi'
  have hcoeff := congrArg (fun r : F[X] => r.coeff i) h
  simp only [toPoly, coeff_ofCoeffs] at hcoeff
  rwa [List.getD_eq_getElem _ _ hi, List.getD_eq_getElem _ _ hi'] at hcoeff

theorem toPoly_divideStep (divisor : DensePolynomial F)
    (st : DensePolynomial F × DensePolynomial F) :
    (divideStep divisor st).1.toPoly * divisor.toPoly + (divideStep divisor st).2.toPoly =
      st.1.toPoly * divisor.toPoly + st.2.toPoly := by
  simp only [divideStep, toPoly_add, toPoly_sub, toPoly_mul]
  ring

theorem divideStep_length_lt {divisor : DensePolynomial F} (hd : divisor.Trimmed)
    (hpos : 0 < divisor.coeffs.length) {st : DensePolynomial F × DensePolynomial F}
    (hr : st.2.Trimmed) (hle : divisor.coeffs.length ≤ st.2.coeffs.length) :
    (divideStep divisor st).2.Trimmed ∧
      (divideStep divisor st).2.coeffs.length < st.2.coeffs.length := by
  have htrim : (divideStep divisor st).2.Trimmed := trimmed_fromCoefficientsVec _
  refine ⟨htrim, ?_⟩
  obtain ⟨hdne, hddeg, hdlead⟩ := hd.leading hpos
  obtain ⟨hrne, hrdeg, hrlead⟩ := hr.leading (by omega)
  have hdpoly : divisor.toPoly ≠ 0 := by
    intro hzero
    rw [hzero, leadingCoeff_zero] at hdlead
    exact hdne hdlead.symm
  have hrpoly : st.2.toPoly ≠ 0 := by
    intro hzero
    rw [hzero, leadingCoeff_zero] at hrlead
    exact hrne hrlead.symm
  -- the term has been chosen so that both leading monomials agree
  have hdrop : (divideStep divisor st).2.toPoly.degree < (st.2.coeffs.length - 1 : Nat) := by
    rw [← hrdeg, divideStep, toPoly_sub, toPoly_mul, toPoly_monomial]
    have hc : st.2.coeffs.getLastD 0 * (divisor.coeffs.getLastD 0)⁻¹ ≠ 0 :=
      mul_ne_zero hrne (inv_ne_zero hdne)
    apply degree_sub_lt_left
    · rw [degree_mul, degree_C_mul_X_pow _ hc, hddeg, hrdeg]
      have hsum : st.2.coeffs.length - 1 =
          st.2.coeffs.length - divisor.coeffs.length + (divisor.coeffs.length - 1) := by omega
      rw [hsum]
      exact_mod_cast rfl
    · exact hrpoly
    · rw [leadingCoeff_mul, leadingCoeff_C_mul_X_pow, hdlead, hrlead, mul_assoc,
        inv_mul_cancel₀ hdne, mul_one]
  have := htrim.length_le hdrop
  omega

theorem divideLoop_spec {divisor : DensePolynomial F} (hd : divisor.Trimmed)
    (hpos : 0 < divisor.coeffs.length) (fuel : Nat)
    (st : DensePolynomial F × DensePolynomial F) (hr : st.2.Trimmed)
    (hfuel : st.2.coeffs.length < fuel) :
    (divideLoop divisor fuel st).1.toPoly * divisor.toPoly +
        (divideLoop divisor fuel st).2.toPoly = st.1.toPoly * divisor.toPoly + st.2.toPoly ∧
      (divideLoop divisor fuel st).2.coeffs.length < divisor.coeffs.length := by
  induction fuel generalizing st with
  | zero => omega
  | succ fuel ih =>
    rw [divideLoop]
    by_cases hlt : st.2.coeffs.length < divisor.coeffs.length
    · rw [if_pos hlt]
      exact ⟨rfl, hlt⟩
    · rw [if_neg hlt]
      obtain ⟨htrim, hshort⟩ := divideStep_length_lt hd hpos hr (by omega)
      obtain ⟨heq, hlen⟩ := ih _ htrim (by omega)
      exact ⟨heq.trans (toPoly_divideStep divisor st), hlen⟩

theorem divideWithQAndR_spec {divisor : DensePolynomial F} (hd : divisor.Trimmed)
    (hpos : 0 < divisor.coeffs.length) (p : DensePolynomial F) :
    (p.divideWithQAndR divisor).1.toPoly * divisor.toPoly +
        (p.divideWithQAndR divisor).2.toPoly = p.toPoly ∧
      (p.divideWithQAndR divisor).2.toPoly.degree < divisor.toPoly.degree := by
  have hr : (fromCoefficientsVec p.coeffs).Trimmed := trimmed_fromCoefficientsVec _
  have hlen : (fromCoefficientsVec p.coeffs).coeffs.length < p.coeffs.length + 1 := by
    have := hr.length_le (n := p.coeffs.length)
      (by rw [toPoly_fromCoefficientsVec]; exact degree_toPoly_lt p)
    omega
  obtain ⟨heq, hlt⟩ := divideLoop_spec hd hpos _ (0, fromCoefficientsVec p.coeffs) hr hlen
  refine ⟨?_, ?_⟩
  · refine heq.trans ?_
    rw [toPoly_zero, zero_mul, zero_add, toPoly_fromCoefficientsVec, toPoly]
  · rw [(hd.leading hpos).2.1]
    refine lt_of_lt_of_le (degree_toPoly_lt _) ?_
    have : (divideLoop divisor (p.coeffs.length + 1)
        (0, fromCoefficientsVec p.coeffs)).2.coeffs.length ≤ divisor.coeffs.length - 1 := by omega
    exact_mod_cast this

theorem divideLoop_trimmed {divisor : DensePolynomial F} (fuel : Nat)
    (st : DensePolynomial F × DensePolynomial F) (hq : st.1.Trimmed) (hr : st.2.Trimmed) :
    (divideLoop divisor fuel st).1.Trimmed ∧ (divideLoop divisor fuel st).2.Trimmed := by
  induction fuel generalizing st with
  | zero => exact ⟨hq, hr⟩
  | succ fuel ih =>
    rw [divideLoop]
    by_cases hlt : st.2.coeffs.length < divisor.coeffs.length
    · rw [if_pos hlt]
      exact ⟨hq, hr⟩
    · rw [if_neg hlt]
      exact ih _ (trimmed_fromCoefficientsVec _) (trimmed_fromCoefficientsVec _)

theorem divideWithQAndR_trimmed (p divisor : DensePolynomial F) :
    (p.divideWithQAndR divisor).1.Trimmed ∧ (p.divideWithQAndR divisor).2.Trimmed := by
  exact divideLoop_trimmed _ _ trimmed_zero (trimmed_fromCoefficientsVec _)

theorem length_quotient_le {divisor : DensePolynomial F} (hd : divisor.Trimmed)
    (hpos : 0 < divisor.coeffs.length) (p : DensePolynomial F) :
    (p.divideWithQAndR divisor).1.coeffs.length ≤ p.coeffs.length + 1 - divisor.coeffs.length := by
  obtain ⟨heq, hlt⟩ := divideWithQAndR_spec hd hpos p
  obtain ⟨_, hddeg, _⟩ := hd.leading hpos
  by_cases hzero : (p.divideWithQAndR divisor).1.coeffs.length = 0
  · omega
  · obtain ⟨_, hqdeg, _⟩ := (divideWithQAndR_trimmed p divisor).1.leading (by omega)
    have hmul : ((p.divideWithQAndR divisor).1.toPoly * divisor.toPoly).degree =
        ((p.divideWithQAndR divisor).1.coeffs.length - 1 + (divisor.coeffs.length - 1) : Nat) := by
      rw [degree_mul, hqdeg, hddeg]
      exact_mod_cast rfl
    have hsum : p.toPoly.degree =
        ((p.divideWithQAndR divisor).1.coeffs.length - 1 + (divisor.coeffs.length - 1) : Nat) := by
      rw [← heq, degree_add_eq_left_of_degree_lt, hmul]
      rw [hmul]
      apply lt_of_lt_of_le hlt
      rw [hddeg]
      exact_mod_cast Nat.le_add_left _ _
    have hp := degree_toPoly_lt p
    rw [hsum] at hp
    have : (p.divideWithQAndR divisor).1.coeffs.length - 1 + (divisor.coeffs.length - 1) <
        p.coeffs.length := by exact_mod_cast hp
    omega

theorem divideWithQAndR_of_dvd {divisor : DensePolynomial F} (hd : divisor.Trimmed)
    (hpos : 0 < divisor.coeffs.length) {p : DensePolynomial F} (hdvd : divisor.toPoly ∣ p.toPoly) :
    (p.divideWithQAndR divisor).1.toPoly * divisor.toPoly = p.toPoly := by
  obtain ⟨heq, hlt⟩ := divideWithQAndR_spec hd hpos p
  have hrem : divisor.toPoly ∣ (p.divideWithQAndR divisor).2.toPoly := by
    rw [← heq] at hdvd
    exact (dvd_add_right (dvd_mul_left _ _)).mp hdvd
  rw [eq_zero_of_dvd_of_degree_lt hrem hlt, add_zero] at heq
  exact heq

theorem remainder_eq_zero_iff {divisor : DensePolynomial F} (hd : divisor.Trimmed)
    (hpos : 0 < divisor.coeffs.length) (p : DensePolynomial F) :
    (p.divideWithQAndR divisor).2 = 0 ↔ divisor.toPoly ∣ p.toPoly := by
  obtain ⟨heq, hlt⟩ := divideWithQAndR_spec hd hpos p
  rw [← heq, dvd_add_right (dvd_mul_left _ _)]
  constructor
  · intro hzero
    rw [hzero]
    exact dvd_zero _
  · intro hdvd
    exact (divideWithQAndR_trimmed _ _).2.eq trimmed_zero (eq_zero_of_dvd_of_degree_lt hdvd hlt)

end Division

end DensePolynomial

end Lootbox

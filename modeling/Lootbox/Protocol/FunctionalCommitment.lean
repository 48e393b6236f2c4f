import Mathlib
import Lootbox.Protocol.DivisionCommitments

/-!
# The functional commitment of the loot-box scripts

A player's input is hashed into the field; the server opens the committed polynomial there.
-/

namespace Lootbox.KZG10

def CommonPolynomial : List Int := [8, 7, 8, 6, 5, 3, 2, 1, 2, 3, 4, 5, 7]

/-! ### Inputs -/

def hexChar (d : Nat) : Char := "0123456789abcdef".toList.getD d '0'

/-- The last `k` hexadecimal digits of `n`, the most significant one first. -/
def hexDigits : Nat → Nat → List Char
  | 0, _ => []
  | k + 1, n => hexDigits k (n / 16) ++ [hexChar (n % 16)]

/-- `hashlib.sha256(s.encode()).hexdigest()`; the digest is a number of 256 bits. -/
def hexdigest (sha256 : String → BitVec 256) (s : String) : String :=
  String.ofList (hexDigits 64 (sha256 s).toNat)

def hexValue (c : Char) : Option Nat :=
  if '0' ≤ c ∧ c ≤ '9' then some (c.toNat - '0'.toNat)
  else if 'a' ≤ c ∧ c ≤ 'f' then some (c.toNat - 'a'.toNat + 10)
  else none

/-- `int(s, 16)` of a nonempty string of hexadecimal digits. -/
def intBase16 (s : String) : Option Nat :=
  s.toList.foldlM (fun acc c => (hexValue c).map (16 * acc + ·)) 0

structure LootBoxInput where
  r : String
  o : String
  deriving DecidableEq, Repr

variable {r : Nat}

def LootBoxInput.getFieldInput (r : Nat) (sha256 : String → BitVec 256) (input : LootBoxInput) :
    Except PyException (ZMod r) := do
  let string_input := input.r ++ input.o
  let hashed_value := hexdigest sha256 string_input
  let value ← need (.valueError "invalid literal for int() with base 16") (intBase16 hashed_value)
  return value

/-! ### Commitment, opening and check -/

structure FunctionalCommitment (r : Nat) (G1 : Type) where
  degree : Nat
  coeff : List (ZMod r)
  c : G1

variable {G1 G2 GT : Type} [AddCommGroup G1] [AddCommGroup G2] [CommGroup GT]
  [Module (ZMod r) G1] [Module (ZMod r) G2] [DecidableEq GT]

/-- `FunctionalCommitment(degree, randomCoeff, coeff)`; `random` gives the successive draws. -/
def FunctionalCommitment.init (PK : TrustedSetup r G1 G2) (random : Nat → ZMod r) (degree : Nat)
    (randomCoeff : Bool) (coeff : List Int) : Except PyException (FunctionalCommitment r G1) := do
  let drawn ← (if randomCoeff then .ok ((List.range degree).map random)
    else (List.range degree).mapM fun i => do
      let c : Int ← need .indexError CommonPolynomial[i]?
      return (c : ZMod r))
  let chosen ← (if coeff = [] then .ok drawn
    else if coeff.length ≠ degree + 1 then .error (.valueError "Invalid number of coefficients")
    else .ok (coeff.map fun (c : Int) => (c : ZMod r)))
  let c ← CommitSum PK chosen
  return ⟨degree, chosen, c⟩

def evalAndProofRaw (PK : TrustedSetup r G1 G2) (self : FunctionalCommitment r G1) (i : ZMod r) :
    Except PyException (ZMod r × G1) := do
  let y ← polynomial i self.coeff
  let W ← CommitDivision_optimized PK i self.coeff
  return (y, W)

def evalAndProof (PK : TrustedSetup r G1 G2) (sha256 : String → BitVec 256)
    (self : FunctionalCommitment r G1) (input : LootBoxInput) :
    Except PyException (ZMod r × G1) := do
  let i ← input.getFieldInput r sha256
  evalAndProofRaw PK self i

def verifyEvalProofRaw (e : IdealPairing r G1 G2 GT) (PK : TrustedSetup r G1 G2) (c : G1)
    (i y : ZMod r) (W : G1) : Except PyException Bool := do
  let g2_i := multiply e.g2 i
  let g2_x ← need .indexError PK.g2_powers[1]?
  let g2_x_sub_i := g2_x + -g2_i
  let g1_phi_at_i := multiply e.g1 y
  let g1_phi_at_x_sub_i := c + -g1_phi_at_i
  let a := e.pairing g2_x_sub_i W
  let b := e.pairing e.g2 (-g1_phi_at_x_sub_i)
  return a * b == 1

def verifyEvalProof (e : IdealPairing r G1 G2 GT) (PK : TrustedSetup r G1 G2)
    (sha256 : String → BitVec 256) (c : G1) (input : LootBoxInput) (y : ZMod r) (W : G1) :
    Except PyException Bool := do
  let i ← input.getFieldInput r sha256
  verifyEvalProofRaw e PK c i y W

/-! ### The hash of an input always denotes a field element -/

theorem length_hexDigits (k n : Nat) : (hexDigits k n).length = k := by
  induction k generalizing n with
  | zero => rfl
  | succ k ih => rw [hexDigits, List.length_append, ih, List.length_singleton]

theorem length_hexdigest (sha256 : String → BitVec 256) (s : String) :
    (hexdigest sha256 s).length = 64 := by
  rw [hexdigest, String.length_ofList, length_hexDigits]

theorem hexValue_hexChar : ∀ d : Nat, d < 16 → hexValue (hexChar d) = some d := by
  decide

theorem foldlM_hexDigits (k : Nat) :
    ∀ n : Nat, n < 16 ^ k →
      (hexDigits k n).foldlM (fun acc c => (hexValue c).map (16 * acc + ·)) 0 = some n := by
  induction k with
  | zero =>
    intro n hn
    have hzero : n = 0 := by simpa using hn
    subst hzero
    rfl
  | succ k ih =>
    intro n hn
    have hdiv : n / 16 < 16 ^ k := by
      apply Nat.div_lt_of_lt_mul
      rw [pow_succ] at hn
      omega
    have hmod : n % 16 < 16 := Nat.mod_lt _ (by omega)
    have hjoin : 16 * (n / 16) + n % 16 = n := Nat.div_add_mod n 16
    rw [hexDigits, List.foldlM_append, ih _ hdiv]
    simp [hexValue_hexChar _ hmod, hjoin]

theorem intBase16_hexdigest (sha256 : String → BitVec 256) (s : String) :
    intBase16 (hexdigest sha256 s) = some (sha256 s).toNat := by
  rw [intBase16, hexdigest, String.toList_ofList]
  exact foldlM_hexDigits 64 _ (sha256 s).isLt

theorem hexdigest_inj {sha256 : String → BitVec 256} {s t : String} :
    hexdigest sha256 s = hexdigest sha256 t ↔ sha256 s = sha256 t := by
  constructor
  · intro h
    have hs := intBase16_hexdigest sha256 s
    rw [h, intBase16_hexdigest] at hs
    exact (BitVec.eq_of_toNat_eq (Option.some.inj hs)).symm
  · intro h
    rw [hexdigest, hexdigest, h]

theorem getFieldInput_eq_ok (sha256 : String → BitVec 256) (input : LootBoxInput) :
    input.getFieldInput r sha256 = .ok ((sha256 (input.r ++ input.o)).toNat : ZMod r) := by
  rw [LootBoxInput.getFieldInput, intBase16_hexdigest]
  rfl

/-! ### The constructor -/

theorem drawn_eq_ok {degree : Nat} (hdegree : degree ≤ 13) :
    ((List.range degree).mapM fun i => do
        let c : Int ← need PyException.indexError CommonPolynomial[i]?
        return (c : ZMod r)) =
      .ok ((List.range degree).map fun i => ((CommonPolynomial.getD i 0 : Int) : ZMod r)) := by
  apply mapM_eq_ok_map
  intro i hi
  have hlt : i < CommonPolynomial.length := by
    have := List.mem_range.mp hi
    exact Nat.lt_of_lt_of_le this hdegree
  rw [List.getElem?_eq_getElem hlt, need_some, ok_bind, List.getD_eq_getElem _ _ hlt]
  rfl

variable [Fact r.Prime]

omit [DecidableEq GT] in
theorem init_default_eq_ok (e : IdealPairing r G1 G2 GT) (alpha : ZMod r) (t : Nat)
    (random : Nat → ZMod r) {degree : Nat} (hpos : 0 < degree) (hdegree : degree ≤ 13)
    (hlen : degree ≤ t + 2) :
    let coeff := (List.range degree).map fun i => ((CommonPolynomial.getD i 0 : Int) : ZMod r)
    FunctionalCommitment.init (TrustedSetup.generate e alpha t true) random degree false [] =
      .ok ⟨degree, coeff, evalCoeffs coeff alpha • e.g1⟩ := by
  intro coeff
  have hlength : coeff.length = degree := by
    rw [List.length_map, List.length_range]
  have hne : coeff ≠ [] := by
    apply List.length_pos_iff.mp
    omega
  have hcommit := CommitSum_eq_ok e alpha t hne (by omega)
  rw [FunctionalCommitment.init, if_neg Bool.false_ne_true, drawn_eq_ok hdegree, ok_bind,
    if_pos rfl, ok_bind, hcommit, ok_bind]
  rfl

omit [DecidableEq GT] in
theorem init_coeff_eq_ok (e : IdealPairing r G1 G2 GT) (alpha : ZMod r) (t : Nat)
    (random : Nat → ZMod r) {degree : Nat} (hdegree : degree ≤ 13) (hlen : degree ≤ t + 1)
    {coeff : List Int} (hlength : coeff.length = degree + 1) :
    FunctionalCommitment.init (TrustedSetup.generate e alpha t true) random degree false coeff =
      .ok ⟨degree, coeff.map fun (c : Int) => (c : ZMod r),
        evalCoeffs (coeff.map fun (c : Int) => (c : ZMod r)) alpha • e.g1⟩ := by
  have hcoeff : coeff ≠ [] := by
    apply List.length_pos_iff.mp
    omega
  have hne : (coeff.map fun (c : Int) => (c : ZMod r)) ≠ [] := by
    rw [ne_eq, List.map_eq_nil_iff]
    exact hcoeff
  have hcommit := CommitSum_eq_ok e alpha t hne (by rw [List.length_map]; omega)
  rw [FunctionalCommitment.init, if_neg Bool.false_ne_true, drawn_eq_ok hdegree, ok_bind,
    if_neg hcoeff, if_neg (not_not_intro hlength), ok_bind, hcommit, ok_bind]
  rfl

/-! ### Openings -/

theorem verifyEvalProofRaw_eq_ok_true_iff (e : IdealPairing r G1 G2 GT) (alpha : ZMod r) (t : Nat)
    (c : G1) (i y : ZMod r) (W : G1) :
    verifyEvalProofRaw e (TrustedSetup.generate e alpha t true) c i y W = .ok true ↔
      (alpha - i) • W = c - y • e.g1 := by
  have hpower : (TrustedSetup.generate e alpha t true).g2_powers[1]? = some (alpha • e.g2) := by
    rw [g2_powers_generate, List.getElem?_map, List.getElem?_range (by omega), Option.map_some,
      pow_one]
  rw [verifyEvalProofRaw]
  dsimp only
  rw [hpower, need_some, ok_bind, multiply, multiply, IdealPairing.val_nsmul,
    IdealPairing.val_nsmul, ← sub_eq_add_neg, ← sub_eq_add_neg, ← sub_smul,
    ← e.pairing_mul_eq_one_iff]
  simp [pure, Except.pure]

omit [AddCommGroup G2] [Module (ZMod r) G1] [Module (ZMod r) G2] in
theorem evalAndProofRaw_singleton (PK : TrustedSetup r G1 G2) {self : FunctionalCommitment r G1}
    {a : ZMod r} (h : self.coeff = [a]) (i : ZMod r) :
    evalAndProofRaw PK self i = .error .typeError := by
  have hdivision : polynomial_division [a - a] [-i, 1] = .ok ([], [a - a]) := rfl
  rw [evalAndProofRaw, h, polynomial_eq_ok i (List.cons_ne_nil a []), ok_bind,
    CommitDivision_optimized, polynomial_eq_ok i (List.cons_ne_nil a []), ok_bind]
  simp only [List.getElem?_cons_zero, need_some, ok_bind, List.set_cons_zero, evalCoeffs_cons,
    evalCoeffs_nil, mul_zero, add_zero, hdivision, CommitSum_nil]
  rfl

theorem evalAndProofRaw_accepted (e : IdealPairing r G1 G2 GT) (alpha : ZMod r) (t : Nat)
    (self : FunctionalCommitment r G1) (hlength : 2 ≤ self.coeff.length)
    (hlen : self.coeff.length ≤ t + 2) (i : ZMod r) :
    ∃ W, evalAndProofRaw (TrustedSetup.generate e alpha t true) self i =
        .ok (evalCoeffs self.coeff i, W) ∧
      verifyEvalProofRaw e (TrustedSetup.generate e alpha t true)
        (evalCoeffs self.coeff alpha • e.g1) i (evalCoeffs self.coeff i) W = .ok true := by
  have hne : self.coeff ≠ [] := by
    apply List.length_pos_iff.mp
    omega
  have hW := CommitDivision_optimized_eq_ok e alpha i hlen hlength
  refine ⟨divisionSum alpha i self.coeff • e.g1, ?_, ?_⟩
  · rw [evalAndProofRaw, polynomial_eq_ok i hne, ok_bind, hW, ok_bind]
    rfl
  · rw [verifyEvalProofRaw_eq_ok_true_iff, smul_smul, mul_comm, divisionSum_mul, sub_smul]

/-- An honest opening succeeds and is accepted exactly when there are at least two
coefficients: the quotient of a constant is an empty list, which cannot be summed. -/
theorem evalAndProofRaw_complete_iff (e : IdealPairing r G1 G2 GT) (alpha : ZMod r) (t : Nat)
    (self : FunctionalCommitment r G1) (hne : self.coeff ≠ [])
    (hlen : self.coeff.length ≤ (TrustedSetup.generate e alpha t true).g1_powers.length)
    (i : ZMod r) :
    (∃ c y W, CommitSum (TrustedSetup.generate e alpha t true) self.coeff = .ok c ∧
      evalAndProofRaw (TrustedSetup.generate e alpha t true) self i = .ok (y, W) ∧
      y = ∑ j ∈ Finset.range self.coeff.length, self.coeff.getD j 0 * i ^ j ∧
      verifyEvalProofRaw e (TrustedSetup.generate e alpha t true) c i y W = .ok true) ↔
      2 ≤ self.coeff.length := by
  have hpowers : (TrustedSetup.generate e alpha t true).g1_powers.length = t + 2 := by
    rw [g1_powers_generate, List.length_map, List.length_range]
  rw [hpowers] at hlen
  constructor
  · rintro ⟨c, y, W, _, hopen, _, _⟩
    by_contra hshort
    obtain ⟨a, ha⟩ : ∃ a, self.coeff = [a] := by
      apply List.length_eq_one_iff.mp
      have := List.length_pos_iff.mpr hne
      omega
    rw [evalAndProofRaw_singleton _ ha] at hopen
    cases hopen
  · intro hlength
    obtain ⟨W, hopen, haccept⟩ := evalAndProofRaw_accepted e alpha t self hlength hlen i
    exact ⟨_, _, W, CommitSum_eq_ok e alpha t hne hlen, hopen, evalCoeffs_eq_sum _ _, haccept⟩

theorem evalAndProofRaw_complete_quadratic :
    (∃ c y W, CommitSum (TrustedSetup.generate (IdealPairing.residues 7) 5 200 true) [8, 7, 8] =
        .ok c ∧
      evalAndProofRaw (TrustedSetup.generate (IdealPairing.residues 7) 5 200 true)
        ⟨3, [8, 7, 8], 1⟩ 3 = .ok (y, W) ∧
      y = ∑ j ∈ Finset.range 3, [8, 7, 8].getD j 0 * 3 ^ j ∧
      verifyEvalProofRaw (IdealPairing.residues 7)
        (TrustedSetup.generate (IdealPairing.residues 7) 5 200 true) c 3 y W = .ok true) ↔
      2 ≤ 3 := by
  have : Fact (Nat.Prime 7) := ⟨by decide⟩
  have hlen : 3 ≤ (TrustedSetup.generate (IdealPairing.residues 7) 5 200 true).g1_powers.length := by
    rw [g1_powers_generate, List.length_map, List.length_range]
    decide
  exact evalAndProofRaw_complete_iff (IdealPairing.residues 7) 5 200 ⟨3, [8, 7, 8], 1⟩
    (List.cons_ne_nil _ _) hlen 3

/-- A constant polynomial is accepted by the constructor, and its opening raises. -/
theorem constant_opening_raises :
    ∃ self, FunctionalCommitment.init
        (TrustedSetup.generate (IdealPairing.residues 7) 5 200 true) (fun _ => 0) 0 false [8] =
          .ok self ∧ self.coeff = [8] ∧
      ¬ ∃ y W, evalAndProofRaw (TrustedSetup.generate (IdealPairing.residues 7) 5 200 true) self 3 =
        .ok (y, W) := by
  have : Fact (Nat.Prime 7) := ⟨by decide⟩
  have hinit := init_coeff_eq_ok (IdealPairing.residues 7) 5 200 (fun _ => 0) (Nat.zero_le 13)
    (Nat.zero_le 201) (List.length_singleton (a := (8 : Int)))
  refine ⟨_, hinit, rfl, ?_⟩
  rintro ⟨y, W, hopen⟩
  rw [evalAndProofRaw_singleton _ rfl] at hopen
  cases hopen

end Lootbox.KZG10

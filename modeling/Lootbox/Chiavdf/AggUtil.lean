import Lootbox.Chiavdf.Form
import Lootbox.Headstart.HashToGroup

/-!
# `aggutil.h`: hashing with a claimed number of rounds

The hash and the primality test are arbitrary. A search runs for at most `fuel` rounds; its
counter is an `int`, whose overflow is undefined and not modelled.
-/

namespace Lootbox.Chiavdf

open Headstart BinaryQF ReducedForm

/-- `picosha2::hash256` and `integer::prime` -/
structure Primitives where
  sha256 : Bytes → Vector UInt8 32
  prime : Nat → Bool

/-! ### The stream of blobs -/

/-- Increments from the last byte on, here the first, until a byte satisfies `stop`. -/
def bump (stop : UInt8 → Bool) : Bytes → Bytes
  | [] => []
  | b :: rest => if stop (b + 1) then (b + 1) :: rest else (b + 1) :: bump stop rest

def increment (stop : UInt8 → Bool) (sprout : Bytes) : Bytes := (bump stop sprout.reverse).reverse

section Stream

variable (H : Primitives) (stop : UInt8 → Bool) (size : Nat)

/-- Hashes until the blob has `size` bytes; each round adds one at least. -/
def fillBlob : Nat → Bytes → Bytes → Bytes × Bytes
  | 0, sprout, blob => (sprout, blob)
  | rounds + 1, sprout, blob =>
    if blob.length < size then
      let sprout := increment stop sprout
      let hash := (H.sha256 sprout).toList
      fillBlob rounds sprout (blob ++ hash.take (size - blob.length))
    else (sprout, blob)

/-- `sprout` after `i` iterations -/
def sproutAfter (seed : Bytes) : Nat → Bytes
  | 0 => seed
  | i + 1 => (fillBlob H stop size size (sproutAfter seed i) []).1

/-- `blob` in the iteration after `i` others -/
def blobAfter (seed : Bytes) (i : Nat) : Bytes :=
  (fillBlob H stop size size (sproutAfter H stop size seed i) []).2

end Stream

/-- `set_bit` for each bit -/
def setBits (bits : List Nat) (n : Nat) : Nat := bits.foldl (fun n b => n ||| 1 <<< b) n

def numBits (x : Int) : Nat := max x.natAbs.size 1

def convertIntegerToBytes2 (x : Int) (num_bytes : Nat) : Bytes :=
  let magnitude := if x < 0 then (-x - 1).toNat else x.toNat
  let byte := fun i => UInt8.ofNat (magnitude / 256 ^ i % 256)
  ((List.range num_bytes).map fun i => if x < 0 then byte i ^^^ 255 else byte i).reverse

/-! ### `H_G` and `H_GFast` -/

section Generator

variable (H : Primitives)

/-- `a` in the iteration after `i` others; the increment stops at a byte that becomes zero. -/
def candidate (challenge D : Int) (i : Nat) : Nat :=
  let int_size := (numBits D + 16) >>> 4
  let seed := convertIntegerToBytes2 challenge int_size
  setBits [0, 1] (bytesToLong (blobAfter H (· == 0) 32 seed i))

/-- `d ^ ((a - 1) / 2) = 1 (mod a)` -/
def Residue (D : Int) (a : Nat) : Prop := powMod (D % a) ((a - 1) / 2) a = 1

instance (D : Int) (a : Nat) : Decidable (Residue D a) := inferInstanceAs (Decidable (_ = _))

/-- The form with first coefficient `a`. -/
def generatorForm (D : Int) (a : Nat) : Except PyError Form :=
  let b := powMod (D % a) ((a + 1) / 4) a
  let b := if b % 2 = 0 then a - b else b
  fromAbd a b D

def hG (fuel : Nat) (challenge D : Int) : Except PyError (Form × Int) := do
  let (a, ii) ← search (fun i =>
    let a := candidate H challenge D i
    if H.prime a then
      if Residue D a then some (a, (i : Int) + 1) else none
    else none) fuel 0
  let f ← generatorForm D a
  return (f, ii)

/-- What `H_GFast` finds in its branch `ii == a_iter`: a form's `a`, the identity, or neither, and
then it goes on. -/
def fastCandidate (challenge D a_iter : Int) (i : Nat) : Option (Option Nat) :=
  if (i : Int) + 1 = a_iter then
    let a := candidate H challenge D i
    if H.prime a then
      if Residue D a then some (some a) else none
    else some none
  else none

def hGFast (fuel : Nat) (challenge D a_iter : Int) : Except PyError Form := do
  let found ← search (fastCandidate H challenge D a_iter) fuel 0
  match found with
  | some a => generatorForm D a
  | none => identity D

end Generator

/-! ### `HashPrimeWithIteration` and `HashPrimeFast` -/

section HashPrime

variable (H : Primitives)

/-- `p` in the iteration after `i` others; the increment stops at a byte that does not become
zero. -/
def primeCandidate (seed : Bytes) (length : Nat) (bitmask : List Nat) (i : Nat) : Nat :=
  setBits (bitmask ++ [0]) (bytesToLong (blobAfter H (· != 0) (length / 8) seed i))

def hashPrimeWithIteration (fuel : Nat) (seed : Bytes) (length : Nat) (bitmask : List Nat) :
    Except PyError (Nat × Int) :=
  search (fun i =>
    let p := primeCandidate H seed length bitmask i
    if H.prime p then some (p, (i : Int) + 1) else none) fuel 0

def hashPrimeFast (fuel : Nat) (seed : Bytes) (length : Nat) (bitmask : List Nat)
    (skip_to_iteration : Int) : Except PyError Nat :=
  search (fun i =>
    if (i : Int) + 1 < skip_to_iteration then none
    else
      let p := primeCandidate H seed length bitmask i
      if H.prime p then some p else none) fuel 0

end HashPrime

/-! ### What the searches find -/

section Search

variable {α : Type} {found : Nat → Option α} {fuel i : Nat} {a : α}

theorem search_eq_ok_iff : search found fuel i = .ok a ↔
    ∃ j < fuel, found (i + j) = some a ∧ ∀ k < j, found (i + k) = none := by
  induction fuel generalizing i with
  | zero =>
    constructor
    · intro h
      cases h
    · rintro ⟨j, hj, _⟩
      omega
  | succ fuel ih =>
    rw [search]
    cases hi : found i with
    | some b =>
      constructor
      · intro h
        cases h
        exact ⟨0, by omega, hi, fun k hk => absurd hk (by omega)⟩
      · rintro ⟨j, _, hj, hnone⟩
        cases j with
        | zero =>
          rw [Nat.add_zero, hi] at hj
          cases hj
          rfl
        | succ j =>
          have h := hnone 0 (by omega)
          rw [Nat.add_zero, hi] at h
          cases h
    | none =>
      refine ih.trans ?_
      constructor
      · rintro ⟨j, hj, hfound, hnone⟩
        refine ⟨j + 1, by omega, by rwa [Nat.add_right_comm] at hfound, ?_⟩
        intro k hk
        cases k with
        | zero => exact hi
        | succ k =>
          have h := hnone k (by omega)
          rwa [Nat.add_right_comm] at h
      · rintro ⟨j, hj, hfound, hnone⟩
        cases j with
        | zero =>
          rw [Nat.add_zero, hi] at hfound
          cases hfound
        | succ j =>
          refine ⟨j, by omega, by rwa [Nat.add_right_comm], ?_⟩
          intro k hk
          have h := hnone (k + 1) (by omega)
          rwa [Nat.add_right_comm]

theorem search_ok_or_diverges (found : Nat → Option α) (fuel i : Nat) :
    (∃ a, search found fuel i = .ok a) ∨ search found fuel i = .error .diverges := by
  induction fuel generalizing i with
  | zero => exact Or.inr rfl
  | succ fuel ih =>
    rw [search]
    cases found i with
    | some a => exact Or.inl ⟨a, rfl⟩
    | none => exact ih (i + 1)

theorem search_halts_iff : Halts (search found fuel i) ↔ ∃ a, search found fuel i = .ok a := by
  constructor
  · intro h
    exact (search_ok_or_diverges found fuel i).resolve_right h
  · rintro ⟨a, ha⟩
    exact Halts.of_eq_ok ha

end Search

/-! ### When `H_GFast` returns -/

section Generator

variable {H : Primitives} {challenge D a_iter : Int} {fuel : Nat}

theorem fastCandidate_eq_none {i : Nat} (h : (i : Int) + 1 ≠ a_iter) :
    fastCandidate H challenge D a_iter i = none := if_neg h

theorem fastCandidate_self (i : Nat) : fastCandidate H challenge D (i + 1) i =
    if H.prime (candidate H challenge D i) then
      if Residue D (candidate H challenge D i) then some (some (candidate H challenge D i)) else none
    else some none := if_pos rfl

theorem fastSearch_eq_ok_iff {found : Option Nat} :
    search (fastCandidate H challenge D a_iter) fuel 0 = .ok found ↔
      ∃ i < fuel, a_iter = i + 1 ∧ fastCandidate H challenge D a_iter i = some found := by
  rw [search_eq_ok_iff]
  constructor
  · rintro ⟨i, hi, hfound, _⟩
    rw [Nat.zero_add] at hfound
    refine ⟨i, hi, ?_, hfound⟩
    by_contra hne
    rw [fastCandidate_eq_none (Ne.symm hne)] at hfound
    cases hfound
  · rintro ⟨i, hi, ha, hfound⟩
    refine ⟨i, hi, by rwa [Nat.zero_add], ?_⟩
    intro k hk
    exact fastCandidate_eq_none (by omega)

/-- The claimed candidate is one on which `H_GFast` returns. -/
def Returning (H : Primitives) (challenge D a_iter : Int) : Prop :=
  ∃ i : Nat, a_iter = i + 1 ∧
    (H.prime (candidate H challenge D i) = true → Residue D (candidate H challenge D i))

theorem returning_iff : Returning H challenge D a_iter ↔
    ∃ (i : Nat) (found : Option Nat), a_iter = i + 1 ∧
      fastCandidate H challenge D a_iter i = some found := by
  constructor
  · rintro ⟨i, rfl, hresidue⟩
    by_cases hprime : H.prime (candidate H challenge D i) = true
    · exact ⟨i, some (candidate H challenge D i), rfl, by
        rw [fastCandidate_self, if_pos hprime, if_pos (hresidue hprime)]⟩
    · exact ⟨i, none, rfl, by rw [fastCandidate_self, if_neg hprime]⟩
  · rintro ⟨i, found, rfl, hfound⟩
    refine ⟨i, rfl, ?_⟩
    intro hprime
    rw [fastCandidate_self, if_pos hprime] at hfound
    by_contra hresidue
    rw [if_neg hresidue] at hfound
    cases hfound

theorem hGFast_halts_of_search (h : Halts (search (fastCandidate H challenge D a_iter) fuel 0)) :
    Halts (hGFast H fuel challenge D a_iter) := by
  refine halts_bind_iff.mpr ⟨h, ?_⟩
  intro found _
  cases found with
  | some a => exact fromAbd_halts _ _ _
  | none => exact fromAbd_halts _ _ _

/-- `H_GFast` returns, or throws, exactly when the counter is positive and its candidate is not a
prime for which `D` is a non-residue. -/
theorem hGFast_halts_iff (H : Primitives) (challenge D a_iter : Int) :
    (∃ fuel, Halts (hGFast H fuel challenge D a_iter)) ↔ Returning H challenge D a_iter := by
  rw [returning_iff]
  constructor
  · rintro ⟨fuel, h⟩
    obtain ⟨found, hsearch⟩ := search_halts_iff.mp (halts_bind_iff.mp h).1
    obtain ⟨i, _, ha, hfound⟩ := fastSearch_eq_ok_iff.mp hsearch
    exact ⟨i, found, ha, hfound⟩
  · rintro ⟨i, found, ha, hfound⟩
    refine ⟨i + 1, hGFast_halts_of_search ?_⟩
    exact Halts.of_eq_ok (fastSearch_eq_ok_iff.mpr ⟨i, Nat.lt_succ_self i, ha, hfound⟩)

/-- A hash of zeros, whose first candidate is `3`. -/
def zeroHash : Primitives where
  sha256 _ := Vector.replicate 32 0
  prime n := n == 3

/-- Counter zero is never reached, and `-7` is a non-residue modulo `3`. -/
theorem hGFast_diverges :
    (∀ fuel, ¬ Halts (hGFast zeroHash fuel 0 (-7) 0)) ∧
      ∀ fuel, ¬ Halts (hGFast zeroHash fuel 0 (-7) 1) := by
  have hcandidate : candidate zeroHash 0 (-7) 0 = 3 := by decide +kernel
  constructor
  · intro fuel h
    obtain ⟨found, hsearch⟩ := search_halts_iff.mp (halts_bind_iff.mp h).1
    obtain ⟨i, _, ha, _⟩ := fastSearch_eq_ok_iff.mp hsearch
    omega
  · intro fuel h
    obtain ⟨found, hsearch⟩ := search_halts_iff.mp (halts_bind_iff.mp h).1
    obtain ⟨i, _, ha, hfound⟩ := fastSearch_eq_ok_iff.mp hsearch
    obtain rfl : i = 0 := by omega
    have hnone : fastCandidate zeroHash 0 (-7) 1 0 = none := by
      have hself := @fastCandidate_self zeroHash 0 (-7) 0
      rw [hcandidate] at hself
      exact hself.trans (by decide)
    rw [hnone] at hfound
    cases hfound

section Class

variable {p : Nat} [hp : PrimeDiscriminant p]

theorem candidate_mod_four (challenge D : Int) (i : Nat) : candidate H challenge D i % 4 = 3 := by
  rw [candidate]
  generalize bytesToLong _ = n
  have hset : setBits [0, 1] n = n ||| 3 := by
    rw [setBits, List.foldl_cons, List.foldl_cons, List.foldl_nil, Nat.lor_assoc]
    rfl
  have hmod := lor_mod_two_pow n 2 (n := 3) rfl
  rw [hset]
  omega

theorem exists_generatorForm {a : Nat} (hmod : a % 4 = 3) (h : Residue (-p) a) :
    ∃ x : ReducedForm p, generatorForm (-p) a = .ok x.form := by
  obtain ⟨r, hr⟩ : ∃ r, r = powMod (-p % a) ((a + 1) / 4) a := ⟨_, rfl⟩
  obtain ⟨b, hb⟩ : ∃ b, b = if r % 2 = 0 then (a : Int) - r else r := ⟨_, rfl⟩
  have hroot : (a : Int) ∣ r * r + p := by
    have hsq := sq_powMod hmod h
    rw [← hr] at hsq
    have hself : (a : Int) ∣ -p % a - -p := by
      rw [← dvd_neg, neg_sub]
      exact Int.dvd_self_sub_emod
    have heq : r * r + (p : Int) = (r * r - -p % a) + (-p % a - -p) := by ring
    rw [heq]
    exact dvd_add hsq hself
  have hb_odd : b % 2 = 1 := by
    rw [hb]
    split <;> omega
  have hb_root : (a : Int) ∣ b * b + p := by
    rw [hb]
    split
    · have heq : ((a : Int) - r) * (a - r) + p = a * (a - 2 * r) + (r * r + p) := by ring
      rw [heq]
      exact dvd_add (dvd_mul_right _ _) hroot
    · exact hroot
  have hfour : (4 : Int) ∣ b * b + p := by
    obtain ⟨q, hq⟩ : ∃ q, b = 2 * q + 1 := ⟨b / 2, by omega⟩
    have hp_mod := hp.mod_four
    have hsq : b * b = 4 * (q * q + q) + 1 := by
      rw [hq]
      ring
    omega
  have hcop : IsCoprime (4 : Int) a := by
    rw [Int.isCoprime_iff_gcd_eq_one]
    have hodd : Nat.Coprime 2 a := Nat.coprime_two_left.mpr (Nat.odd_iff.mpr (by omega))
    exact Nat.Coprime.pow_left 2 hodd
  obtain ⟨x, hx⟩ := exists_fromAbd (p := p) (by omega) (hcop.mul_dvd hfour hb_root)
  refine ⟨x, ?_⟩
  rw [generatorForm]
  simp only [← hr, ← hb]
  exact hx

end Class

end Generator

end Lootbox.Chiavdf

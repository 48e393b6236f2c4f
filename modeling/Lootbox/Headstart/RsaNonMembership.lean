import Lootbox.Headstart.ExponentAccumulators
import Lootbox.Headstart.ToyVDF

/-!
# `RSAPrimeAccumulator`: witnesses of non-membership

The Bezout coefficients have any sign, so the powers are taken among the units modulo `n`.
-/

namespace Lootbox.Headstart

open PowerAccumulator
open ReducedForm (euclid)

/-- The inverse that `gmpy2.powmod` looks for. -/
def invert (x m : Int) : Except PyError Int :=
  if Int.gcd x m = 1 then .ok (Int.gcdA x m % m)
  else .error (.valueError "pow() base not invertible")

/-- `gmpy2.powmod`, which inverts the base for a negative exponent. -/
def powmodInt (x y m : Int) : Except PyError Int :=
  if 0 ≤ y then powmod x y.toNat m
  else do
    let i ← invert x m
    powmod i (-y).toNat m

namespace RSAPrimeAccumulator

section Methods

variable (H : Hashes) (self : RSAAccumulator)

def accumulate (X : List Bytes) : Except PyError Int := self.accumulate (bytesToLong H) X

/-- The product of the primes of `X`. -/
def prod (X : List Bytes) : Except PyError Nat :=
  X.foldlM (fun s x => do
    let e ← bytesToLong H x
    return s * e) 1

/-- The accumulated value `acc` is an argument that the method does not use. -/
def nonmemwitgen (gcdext : Gcdext) (_acc : Int) (X : List Bytes) (x : Bytes) :
    Except PyError (Int × Int) := do
  let s ← prod H X
  let e ← bytesToLong H x
  let (_, a, b) := gcdext.run s e
  let B ← powmodInt self.g b self.n
  return (a, B)

def nonmemverify (acc : Int) (w : Int × Int) (x : Bytes) : Except PyError Bool := do
  let (a, B) := w
  let l ← powmodInt acc a self.n
  let e ← bytesToLong H x
  let r ← powmodInt B e self.n
  let y ← floorMod (l * r) self.n
  return y == self.g

end Methods

end RSAPrimeAccumulator

/-! ### Powers of units -/

section Units

variable {n : Nat} {x : Int} {u : (ZMod n)ˣ}

theorem powmod_spec (hn : 0 < n) (hx : (x : ZMod n) = u) (y : Nat) :
    ∃ r, powmod x y n = .ok r ∧ (r : ZMod n) = ↑(u ^ y) := by
  refine ⟨x ^ y % n, floorMod_of_pos _ (Int.natCast_pos.mpr hn), ?_⟩
  rw [ZMod.intCast_mod, Int.cast_pow, hx, Units.val_pow_eq_pow_val]

theorem gcd_eq_one_of_unit (hx : (x : ZMod n) = u) : Int.gcd x n = 1 := by
  have hunit : IsUnit (x : ZMod n) := hx ▸ u.isUnit
  exact Int.isCoprime_iff_gcd_eq_one.mp ((ZMod.coe_int_isUnit_iff_isCoprime x n).mp hunit).symm

theorem invert_spec (hx : (x : ZMod n) = u) :
    ∃ i, invert x n = .ok i ∧ (i : ZMod n) = ↑u⁻¹ := by
  have hgcd := gcd_eq_one_of_unit hx
  refine ⟨Int.gcdA x n % n, if_pos hgcd, ?_⟩
  have hbezout := congrArg (Int.cast : Int → ZMod n) (Int.gcd_eq_gcd_ab x n)
  rw [hgcd] at hbezout
  push_cast at hbezout
  rw [ZMod.natCast_self, zero_mul, add_zero, hx] at hbezout
  rw [ZMod.intCast_mod]
  exact (Units.inv_eq_of_mul_eq_one_right hbezout.symm).symm

theorem powmodInt_spec (hn : 0 < n) (hx : (x : ZMod n) = u) (y : Int) :
    ∃ r, powmodInt x y n = .ok r ∧ (r : ZMod n) = ↑(u ^ y) := by
  by_cases hy : 0 ≤ y
  · obtain ⟨k, rfl⟩ := Int.eq_ofNat_of_zero_le hy
    rw [powmodInt, if_pos hy]
    exact powmod_spec hn hx k
  · obtain ⟨k, hk⟩ := Int.eq_ofNat_of_zero_le (show 0 ≤ -y by omega)
    obtain ⟨i, hi, hi_unit⟩ := invert_spec hx
    obtain ⟨r, hr, hr_unit⟩ := powmod_spec hn hi_unit k
    refine ⟨r, ?_, ?_⟩
    · rw [powmodInt, if_neg hy, hi, ok_bind, hk]
      exact hr
    · rw [hr_unit, ← neg_neg y, hk, zpow_neg, zpow_natCast, inv_pow]

end Units

/-! ### Completeness -/

section Completeness

variable {H : Hashes} {self : RSAAccumulator} {primes : Bytes → Nat} {X : List Bytes} {x : Bytes}

theorem prod_eq_total (hX : ∀ y ∈ X, RSAPrimeAccumulator.bytesToLong H y = .ok (primes y)) :
    RSAPrimeAccumulator.prod H X = .ok (total primes X) := by
  have hfold : ∀ s, X.foldlM (fun s y => do
      let e ← RSAPrimeAccumulator.bytesToLong H y
      return s * e) s = .ok (s * total primes X) := by
    induction X with
    | nil =>
      intro s
      rw [total_nil, mul_one]
      rfl
    | cons y X ih =>
      intro s
      rw [List.foldlM_cons, hX y List.mem_cons_self, ok_bind, total_cons, ← mul_assoc]
      exact ih (fun z hz => hX z (List.mem_cons_of_mem y hz)) (s * primes y)
  rw [RSAPrimeAccumulator.prod, hfold 1, one_mul]

/-- The prime of an element outside `X` divides no product of the primes of `X`. -/
theorem gcd_total_eq_one
    (hX : ∀ y ∈ x :: X, RSAPrimeAccumulator.bytesToLong H y = .ok (primes y))
    (hne : ∀ y ∈ X, primes y ≠ primes x) : Int.gcd (total primes X) (primes x) = 1 := by
  have hprime : ∀ y ∈ x :: X, (primes y).Prime := fun y hy => hP_prime (hX y hy)
  rw [Int.gcd_natCast_natCast]
  apply Nat.coprime_list_prod_left_iff.mpr
  intro q hq
  obtain ⟨y, hy, rfl⟩ := List.mem_map.mp hq
  exact (Nat.coprime_primes (hprime y (List.mem_cons_of_mem x hy))
    (hprime x List.mem_cons_self)).mpr (hne y hy)

theorem zpow_bezout {G : Type} [Group G] (u : G) {s q a b : Int} (h : s * a + q * b = 1) :
    (u ^ s) ^ a * (u ^ b) ^ q = u := by
  rw [← zpow_mul, ← zpow_mul, ← zpow_add, mul_comm b q, h, zpow_one]

/-- What is not a member has a witness, and the witness is accepted. -/
theorem RSAPrimeAccumulator.nonmembership_complete (gcdext : Gcdext) (hn : 1 < self.n)
    (hg : 0 ≤ self.g) (hlt : self.g < self.n) (hcop : IsCoprime self.g self.n)
    (hX : ∀ y ∈ x :: X, bytesToLong H y = .ok (primes y)) (hne : ∀ y ∈ X, primes y ≠ primes x) :
    ∃ acc a B, accumulate H self X = .ok acc ∧
      nonmemwitgen H self gcdext acc X x = .ok (a, B) ∧
      nonmemverify H self acc (a, B) x = .ok true := by
  obtain ⟨n, hself⟩ := Int.eq_ofNat_of_zero_le (show 0 ≤ self.n by omega)
  have hpos : 0 < n := by omega
  have hmem : ∀ y ∈ X, bytesToLong H y = .ok (primes y) :=
    fun y hy => hX y (List.mem_cons_of_mem x hy)
  have hx := hX x List.mem_cons_self
  rw [hself] at hcop
  have hunit : IsUnit ((self.g : Int) : ZMod n) :=
    (ZMod.coe_int_isUnit_iff_isCoprime self.g n).mpr hcop.symm
  obtain ⟨u, hu⟩ := hunit
  -- the accumulated value is a power of the base
  have hne_zero : self.n ≠ 0 := by omega
  obtain ⟨acc, hacc, hrep⟩ :=
    (RSAAccumulator.computes hne_zero hmem).exists_foldlM (Int.ModEq.refl self.g)
  have hacc_unit : (acc : ZMod n) = ↑(u ^ total primes X) := by
    rw [hself] at hrep
    rw [(ZMod.intCast_eq_intCast_iff _ _ n).mpr hrep, Int.cast_pow, ← hu, Units.val_pow_eq_pow_val]
  obtain ⟨d, a, b, hrun⟩ : ∃ d a b, gcdext.run (total primes X) (primes x) = (d, a, b) := ⟨_, _, _, rfl⟩
  have hbezout := gcdext.bezout (total primes X) (primes x)
  rw [gcdext.gcd_eq, gcd_total_eq_one hX hne, hrun] at hbezout
  obtain ⟨B, hB, hB_unit⟩ := powmodInt_spec hpos hu.symm b
  obtain ⟨l, hl, hl_unit⟩ := powmodInt_spec hpos hacc_unit a
  obtain ⟨r, hr, hr_unit⟩ := powmodInt_spec hpos hB_unit (primes x)
  rw [← hself] at hB hl hr
  refine ⟨acc, a, B, hacc, ?_, ?_⟩
  · rw [nonmemwitgen, prod_eq_total hmem, ok_bind, hx, ok_bind, hrun]
    exact bind_eq_of_ok hB rfl
  · have hy : (l * r) % self.n = self.g := by
      have hmod : l * r ≡ self.g [ZMOD n] := by
        apply (ZMod.intCast_eq_intCast_iff _ _ n).mp
        rw [Int.cast_mul, hl_unit, hr_unit, ← hu, ← Units.val_mul, ← zpow_natCast u,
          zpow_bezout u hbezout]
      rw [hself, hmod, ← hself, Int.emod_eq_of_lt hg hlt]
    refine bind_eq_of_ok hl (bind_eq_of_ok hx (bind_eq_of_ok hr ?_))
    rw [floorMod_of_pos _ (by omega), ok_bind, hy, beq_self_eq_true]
    rfl

def primeHashes : Hashes :=
  { twoDigests with
    shake := fun x _ => toBytes 32 (if x = [0] then generatorPrime else discriminantPrime)
    fuel := 1 }

theorem RSAPrimeAccumulator.nonmembership_complete_twice :
    ∃ acc a B, accumulate primeHashes ⟨15, 2⟩ [[0], [0]] = .ok acc ∧
      nonmemwitgen primeHashes ⟨15, 2⟩ euclid acc [[0], [0]] [1] = .ok (a, B) ∧
      nonmemverify primeHashes ⟨15, 2⟩ acc (a, B) [1] = .ok true := by
  have hprimes : ∀ y ∈ [[1], [0], [0]], bytesToLong primeHashes y =
      .ok (if y = [0] then generatorPrime else discriminantPrime) := by
    decide +kernel
  exact nonmembership_complete euclid (by decide) (by decide) (by decide) ⟨-7, 1, by decide⟩ hprimes
    (by decide +kernel)

end Completeness

end Lootbox.Headstart

import Lootbox.Headstart.BigEndian
import Lootbox.Headstart.ClassGroup

/-!
# `utils.py` and `vdf/toy_vdf.py`: hashing to primes and to forms

The hash functions are arbitrary and a search runs for at most `fuel` candidates; a search that
has not ended by then counts as one that does not return.
-/

namespace Lootbox.Headstart

open ReducedForm

/-- `shake x n` is `shake_256(x).digest(n)`, and `isPrime` is the primality test. -/
structure Hashes where
  shake : Bytes → Nat → Bytes
  sha256 : Bytes → Bytes
  isPrime : Nat → Bool
  prime_of_isPrime : ∀ n, isPrime n = true → n.Prime
  fuel : Nat

/-- The first result of the candidates from `i` on. -/
def search {α : Type} (candidate : Nat → Option α) : Nat → Nat → Except PyError α
  | 0, _ => .error .diverges
  | fuel + 1, i =>
    match candidate i with
    | some a => .ok a
    | none => search candidate fuel (i + 1)

theorem search_of_some {α : Type} {candidate : Nat → Option α} {i : Nat} {a : α}
    (h : candidate i = some a) (fuel : Nat) : search candidate (fuel + 1) i = .ok a := by
  rw [search, h]

theorem search_of_none {α : Type} {candidate : Nat → Option α} {i : Nat} (h : candidate i = none)
    (fuel : Nat) : search candidate (fuel + 1) i = search candidate fuel (i + 1) := by
  rw [search, h]

theorem exists_of_search {α : Type} {candidate : Nat → Option α} {fuel i : Nat} {a : α}
    (h : search candidate fuel i = .ok a) : ∃ j, candidate j = some a := by
  induction fuel generalizing i with
  | zero => cases h
  | succ fuel ih =>
    rw [search] at h
    cases hi : candidate i with
    | some b =>
      rw [hi] at h
      cases h
      exact ⟨i, hi⟩
    | none =>
      rw [hi] at h
      exact ih h

namespace Hashes

variable (H : Hashes)

/-- The digest behind the `i`-th number of `H_kgen(x, k)`. -/
def kgenDigest (x : Bytes) (k : Nat) : Nat → Bytes
  | 0 => H.shake x ((k + 7) / 8)
  | i + 1 => H.shake (kgenDigest x k i) ((k + 7) / 8)

/-- The `i`-th number that `H_kgen(x, k)` yields. -/
def kgen (x : Bytes) (k i : Nat) : Nat :=
  (bytesToLong (H.kgenDigest x k i) ||| 1 <<< (k - 1)) % 1 <<< k

def hP (x : Bytes) (k : Nat) : Except PyError Nat :=
  search (fun i =>
    let p := H.kgen x k i ||| 1
    if H.isPrime p then some p else none) H.fuel 0

def hD (x : Bytes) (k : Nat) : Except PyError Int :=
  search (fun i =>
    let d := H.kgen x k i ||| 7
    if H.isPrime d then some (-d : Int) else none) H.fuel 0

end Hashes

/-- `pow(x, y, m)` for a positive modulus -/
def powMod (x : Int) (y m : Nat) : Int := x ^ y % m

/-- The form that `H_QF` and `BQFAccumulator.generate` make of a number. -/
def formCandidate (isPrime : Nat → Bool) (d : Int) (a : Nat) : Option BinaryQF :=
  let a := a ||| 3
  if isPrime a then
    if powMod d ((a - 1) / 2) a = 1 then
      let b := powMod d ((a + 1) / 4) a
      let b := if b % 2 ≠ 1 then a - b else b
      some ⟨a, b, (b * b - d) / (4 * a)⟩
    else none
  else none

def Hashes.hQF (H : Hashes) (x : Bytes) (d : Int) (k : Nat) : Except PyError BinaryQF := do
  let f ← search (fun i => formCandidate H.isPrime d (H.kgen x k i)) H.fuel 0
  f.reducedForm

/-! ### What the searches find -/

section Found

theorem lor_mod_two_pow (a : Nat) {n : Nat} (k : Nat) (hn : n = 2 ^ k - 1) : (a ||| n) % 2 ^ k = n := by
  apply Nat.eq_of_testBit_eq
  intro i
  rw [Nat.testBit_mod_two_pow, Nat.testBit_or, hn, Nat.testBit_two_pow_sub_one]
  by_cases hi : i < k
  · simp [hi]
  · simp [hi]

variable {H : Hashes}

theorem hP_prime {x : Bytes} {k l : Nat} (h : H.hP x k = .ok l) : l.Prime := by
  obtain ⟨i, hi⟩ := exists_of_search h
  dsimp only at hi
  split at hi
  · rename_i hprime
    cases hi
    exact H.prime_of_isPrime _ hprime
  · cases hi

theorem hD_discriminant {x : Bytes} {k : Nat} {d : Int} (h : H.hD x k = .ok d) :
    ∃ p : Nat, d = -p ∧ PrimeDiscriminant p := by
  obtain ⟨i, hi⟩ := exists_of_search h
  dsimp only at hi
  split at hi
  · rename_i hprime
    cases hi
    refine ⟨_, rfl, H.prime_of_isPrime _ hprime, ?_⟩
    have hmod := lor_mod_two_pow (H.kgen x k i) 3 (n := 7) rfl
    omega
  · cases hi

section Candidate

variable {isPrime : Nat → Bool} {d : Int} {a : Nat} {f : BinaryQF}

theorem sq_powMod {d : Int} {a : Nat} (hmod : a % 4 = 3) (h : powMod d ((a - 1) / 2) a = 1) :
    (a : Int) ∣ powMod d ((a + 1) / 4) a * powMod d ((a + 1) / 4) a - d := by
  have hroot : powMod d ((a + 1) / 4) a ≡ d ^ ((a + 1) / 4) [ZMOD a] := Int.mod_modEq _ _
  have hone : d ^ ((a - 1) / 2) ≡ 1 [ZMOD a] := by
    have hself : d ^ ((a - 1) / 2) % a ≡ d ^ ((a - 1) / 2) [ZMOD a] := Int.mod_modEq _ _
    rw [powMod] at h
    rw [h] at hself
    exact hself.symm
  have hexp : (a + 1) / 4 + (a + 1) / 4 = (a - 1) / 2 + 1 := by omega
  have hsq := hroot.mul hroot
  rw [← pow_add, hexp, pow_succ] at hsq
  have hd := hsq.trans (hone.mul_right d)
  rw [one_mul] at hd
  exact hd.symm.dvd

theorem isCoprime_of_powMod (hmod : a % 4 = 3) (h : powMod d ((a - 1) / 2) a = 1) :
    IsCoprime (a : Int) d := by
  have hdvd : (a : Int) ∣ d ^ ((a - 1) / 2) - 1 := by
    rw [← h]
    exact Int.dvd_self_sub_emod
  obtain ⟨q, hq⟩ := hdvd
  have hcop : IsCoprime (a : Int) (d ^ ((a - 1) / 2)) := ⟨-q, 1, by linear_combination hq⟩
  exact (IsCoprime.pow_right_iff (by omega)).mp hcop

theorem formCandidate_eq_some (h : formCandidate isPrime d a = some f) :
    ∃ n : Nat, n % 4 = 3 ∧ powMod d ((n - 1) / 2) n = 1 ∧ f.a = n ∧
      f.b = (if powMod d ((n + 1) / 4) n % 2 ≠ 1 then (n : Int) - powMod d ((n + 1) / 4) n
        else powMod d ((n + 1) / 4) n) ∧
      f.c = (f.b * f.b - d) / (4 * n) := by
  have hmod := lor_mod_two_pow a 2 (n := 3) rfl
  simp only [formCandidate] at h
  split at h
  · split at h
    · rename_i hone
      cases h
      exact ⟨a ||| 3, by omega, hone, rfl, rfl, rfl⟩
    · cases h
  · cases h

theorem formCandidate_root (h : formCandidate isPrime d a = some f) :
    f.b % 2 = 1 ∧ f.a ∣ f.b * f.b - d := by
  obtain ⟨n, hmod, hone, ha, hb, _⟩ := formCandidate_eq_some h
  obtain ⟨r, hr⟩ : ∃ r, r = powMod d ((n + 1) / 4) n := ⟨_, rfl⟩
  have hroot := sq_powMod hmod hone
  rw [← hr] at hroot hb
  rw [ha]
  split at hb
  · have heq : f.b * f.b - d = n * (n - 2 * r) + (r * r - d) := by
      rw [hb]
      ring
    exact ⟨by omega, heq ▸ dvd_add (dvd_mul_right _ _) hroot⟩
  · exact ⟨by omega, hb ▸ hroot⟩

theorem formCandidate_exact (hd : d % 4 = 1) (h : formCandidate isPrime d a = some f) :
    4 * f.a * f.c = f.b * f.b - d := by
  obtain ⟨hodd, hroot⟩ := formCandidate_root h
  obtain ⟨n, hmod, _, ha, _, hc⟩ := formCandidate_eq_some h
  have hfour : (4 : Int) ∣ f.b * f.b - d := by
    obtain ⟨q, hq⟩ : ∃ q, f.b = 2 * q + 1 := ⟨f.b / 2, by omega⟩
    have hsq : f.b * f.b = 4 * (q * q + q) + 1 := by
      rw [hq]
      ring
    omega
  have hcop : IsCoprime (4 : Int) f.a := by
    rw [ha, Int.isCoprime_iff_gcd_eq_one]
    have hodd : Nat.Coprime 2 n := Nat.coprime_two_left.mpr (Nat.odd_iff.mpr (by omega))
    exact Nat.Coprime.pow_left 2 hodd
  rw [hc, ← ha]
  exact Int.mul_ediv_cancel' (hcop.mul_dvd hfour hroot)

theorem formCandidate_spec (hd : d % 4 = 1) (h : formCandidate isPrime d a = some f) :
    f.PosDef d ∧ IsCoprime f.a f.b := by
  have hexact := formCandidate_exact hd h
  obtain ⟨n, hmod, hone, ha, _, _⟩ := formCandidate_eq_some h
  refine ⟨⟨by omega, ?_⟩, ?_⟩
  · simp only [BinaryQF.discriminant]
    linear_combination -hexact
  · have hcop := isCoprime_of_powMod hmod hone
    have hd_eq : d = f.b * f.b + f.a * (-(4 * f.c)) := by linear_combination hexact
    rw [← ha, hd_eq] at hcop
    exact hcop.of_add_mul_left_right.of_mul_right_left

variable {p : Nat} [hp : PrimeDiscriminant p]

theorem neg_mod_four (p : Nat) [hp : PrimeDiscriminant p] : (-p : Int) % 4 = 1 := by
  have := hp.mod_four
  omega

theorem hQF_form {x : Bytes} {k : Nat} (h : H.hQF x (-p) k = .ok f) :
    ∃ y : ReducedForm p, y.form = f := by
  obtain ⟨g, hsearch, hreduce⟩ := bind_eq_ok_iff.mp h
  obtain ⟨i, hi⟩ := exists_of_search hsearch
  obtain ⟨y, hy⟩ := exists_hasClass (formCandidate_spec (neg_mod_four p) hi).1
  exact ⟨y, Except.ok.inj (hy.reducedForm_eq.symm.trans hreduce)⟩

end Candidate

end Found

end Lootbox.Headstart

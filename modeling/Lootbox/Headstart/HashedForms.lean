import Lootbox.Headstart.BqfCanonical
import Lootbox.Headstart.ExponentAccumulators

/-!
# What `H_QF` and `BQFAccumulator.generate` answer

Neither the numbers that are tried nor the primality test matter: a candidate that passes
Euler's criterion is a form of the discriminant.
-/

namespace Lootbox.Headstart

open BinaryQF
open ReducedForm (euclid)

/-- `H_QF` over any numbers in place of those of `H_kgen`. -/
def hQF (isPrime : Nat → Bool) (kgen : Nat → Nat) (fuel : Nat) (d : Int) :
    Except PyError BinaryQF := do
  let f ← search (fun i => formCandidate isPrime d (kgen i)) fuel 0
  f.reducedForm

section Candidates

variable {isPrime : Nat → Bool} {d : Int}

theorem hQF_spec {kgen : Nat → Nat} {fuel : Nat} {f : BinaryQF} (hd : d < 0) (hmod : d % 4 = 1)
    (h : hQF isPrime kgen fuel d = .ok f) :
    f.Reduced d ∧ ∃ i g, formCandidate isPrime d (kgen i) = some g ∧
      4 * g.a * g.c = g.b * g.b - d ∧ ProperlyEquivalent g f := by
  obtain ⟨g, hsearch, hreduce⟩ := bind_eq_ok_iff.mp h
  obtain ⟨i, hi⟩ := exists_of_search hsearch
  have hposDef := (formCandidate_spec hmod hi).1
  refine ⟨?_, i, g, hi, formCandidate_exact hmod hi, reducedForm_equivalent hreduce⟩
  have hdisc := hposDef.disc
  obtain ⟨f', hreduce', hf'⟩ := exists_reducedForm hposDef.a_pos (hdisc ▸ hd)
  rw [hreduce] at hreduce'
  cases hreduce'
  exact hdisc ▸ hf'

theorem formCandidate_square (gcdext : Gcdext) {a : Nat} {g : BinaryQF} (hmod : d % 4 = 1)
    (h : formCandidate isPrime d a = some g) : ∃ s, g.square gcdext = .ok s ∧ s.PosDef d := by
  obtain ⟨hposDef, hcop⟩ := formCandidate_spec hmod h
  obtain ⟨mu, _, m, _, hm, hsquare⟩ := square_spec gcdext hposDef hcop
  exact ⟨_, hsquare, square_posDef hposDef hm⟩

end Candidates

/-- Hashing to a form and drawing a generator give forms of the discriminant. -/
theorem hashed_forms_valid (isPrime : Nat → Bool) (gcdext : Gcdext) :
    (∀ (kgen : Nat → Nat) (fuel : Nat) (d : Int) (f : BinaryQF), d < 0 → d % 8 = 1 →
      hQF isPrime kgen fuel d = .ok f →
      f.Reduced d ∧ ∃ i g, formCandidate isPrime d (kgen i) = some g ∧
        4 * g.a * g.c = g.b * g.b - d ∧ ProperlyEquivalent g f) ∧
    ∀ (primes numbers : List Nat) (self : BQFAccumulator),
      BQFAccumulator.generate isPrime primes numbers = some self →
      ∃ p ∈ primes, p % 4 = 3 ∧ self.g.PosDef (-p) ∧
        4 * self.g.a * self.g.c = self.g.b * self.g.b - -p ∧ IsCoprime self.g.a self.g.b ∧
        ∃ s, self.g.square gcdext = .ok s ∧ s.PosDef (-p) := by
  constructor
  · intro kgen fuel d f hd hmod h
    exact hQF_spec hd (by omega) h
  · intro primes numbers self h
    obtain ⟨p, hp, hp_mod, a, _, ha⟩ := BQFAccumulator.generate_eq_some h
    have hmod : (-p : Int) % 4 = 1 := by omega
    obtain ⟨hposDef, hcop⟩ := formCandidate_spec hmod ha
    exact ⟨p, hp, hp_mod, hposDef, formCandidate_exact hmod ha, hcop,
      formCandidate_square gcdext hmod ha⟩

theorem hashed_forms_valid_23 :
    Reduced (-23) ⟨2, -1, 3⟩ ∧ ∃ s, (⟨3, 1, 2⟩ : BinaryQF).square euclid = .ok s := by
  obtain ⟨hhash, hgenerate⟩ := hashed_forms_valid (fun n => n == 3) euclid
  have hreduced := (hhash (fun _ => 0) 1 (-23) ⟨2, -1, 3⟩ (by decide) (by decide) (by decide)).1
  obtain ⟨_, _, _, _, _, _, s, hs, _⟩ := hgenerate [23] [3] ⟨⟨3, 1, 2⟩⟩ (by decide)
  exact ⟨hreduced, s, hs⟩

end Lootbox.Headstart

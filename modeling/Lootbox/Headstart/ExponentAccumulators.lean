import Lootbox.Base.PowerAccumulator
import Lootbox.Headstart.HashToGroup

/-!
# `acc/rsa_accumulator.py` and `acc/bqf_accumulator.py`

Both accumulate by raising to the exponents of the elements and divide the list for the
witnesses; they differ in the group and in the exponents.
-/

namespace Lootbox.Headstart

open PowerAccumulator ReducedForm

/-! ### RSA -/

/-- `gmpy2.powmod` for exponents that are not negative. -/
def powmod (x : Int) (y : Nat) (m : Int) : Except PyError Int := floorMod (x ^ y) m

structure RSAAccumulator where
  n : Int
  g : Int
  deriving DecidableEq, Repr

namespace RSAAccumulator

/-- `self.bytes_to_long` -/
def bytesToLong (x : Bytes) : Except PyError Nat := .ok (Headstart.bytesToLong x)

section Methods

-- `bytes_to_long` is the method that `RSAPrimeAccumulator` overrides.
variable (bytes_to_long : Bytes → Except PyError Nat) (self : RSAAccumulator)

def power (r : Int) (x : Bytes) : Except PyError Int := do
  let e ← bytes_to_long x
  powmod r e self.n

def accumulate (X : List Bytes) : Except PyError Int :=
  X.foldlM (power bytes_to_long self) self.g

/-- The halves of an empty list are empty again, so the recursion does not end. -/
def batchWitgen (X : List Bytes) : Except PyError (List Int) :=
  rootFactor (power bytes_to_long self) .diverges self.g X

def verify (acc w : Int) (x : Bytes) : Except PyError Bool := do
  let r ← power bytes_to_long self w x
  return r == acc

end Methods

theorem computes {bytes_to_long : Bytes → Except PyError Nat} {self : RSAAccumulator} (hn : self.n ≠ 0)
    {exponent : Bytes → Nat} {X : List Bytes} (he : ∀ x ∈ X, bytes_to_long x = .ok (exponent x)) :
    Computes (power bytes_to_long self) (fun g m => g ≡ m [ZMOD self.n]) (Int.fmod · self.n)
      exponent X := by
  have hmod : ∀ {a b : Int}, a ≡ b [ZMOD self.n] → a.fmod self.n = b.fmod self.n := by
    intro a b hab
    rw [Int.fmod_eq_fmod_iff_fmod_sub_eq_zero]
    exact Int.fmod_eq_zero_of_dvd hab.symm.dvd
  constructor
  · intro m
    exact (Int.modEq_iff_dvd.mpr Int.dvd_self_sub_fmod)
  · intro x hx g m hg
    rw [power, he x hx, ok_bind, powmod, floorMod, if_neg hn, hmod (hg.pow (exponent x))]

end RSAAccumulator

/-- `RSAPrimeAccumulator.bytes_to_long` -/
def RSAPrimeAccumulator.bytesToLong (H : Hashes) (x : Bytes) : Except PyError Nat := H.hP x 256

/-! ### Forms -/

structure BQFAccumulator where
  g : BinaryQF
  deriving DecidableEq, Repr

namespace BQFAccumulator

section Methods

variable (gcdext : Gcdext) (self : BQFAccumulator)

def power (r : BinaryQF) (x : Bytes) : Except PyError BinaryQF := qfPow gcdext r (bytesToLong x)

def accumulate (X : List Bytes) : Except PyError BinaryQF := X.foldlM (power gcdext) self.g

def batchWitgen (X : List Bytes) : Except PyError (List BinaryQF) :=
  rootFactor (power gcdext) .diverges self.g X

def verify (acc w : BinaryQF) (x : Bytes) : Except PyError Bool := do
  let r ← power gcdext w x
  return r == acc

/-- `generate`, from the primes and the numbers that it draws. -/
def generate (isPrime : Nat → Bool) (primes numbers : List Nat) : Option BQFAccumulator := do
  let p ← primes.find? fun p => p % 4 = 3
  let g ← numbers.findSome? (formCandidate isPrime (-p))
  return ⟨g⟩

end Methods

theorem generate_eq_some {isPrime : Nat → Bool} {primes numbers : List Nat} {acc : BQFAccumulator}
    (h : generate isPrime primes numbers = some acc) :
    ∃ p ∈ primes, p % 4 = 3 ∧ ∃ a ∈ numbers, formCandidate isPrime (-p) a = some acc.g := by
  obtain ⟨p, hp, h⟩ := Option.bind_eq_some_iff.mp h
  obtain ⟨g, hg, h⟩ := Option.bind_eq_some_iff.mp h
  cases h
  have hmod : p % 4 = 3 := by simpa using List.find?_some hp
  exact ⟨p, List.mem_of_find?_eq_some hp, hmod, List.exists_of_findSome?_eq_some hg⟩

/-- A generator is a form of a prime discriminant whose square `qf_pow` can compute. -/
theorem generate_spec {isPrime : Nat → Bool} {primes numbers : List Nat}
    (hprimes : ∀ p ∈ primes, p.Prime) {acc : BQFAccumulator}
    (h : generate isPrime primes numbers = some acc) :
    ∃ p, PrimeDiscriminant p ∧ acc.g.PosDef (-p) ∧ IsCoprime acc.g.a acc.g.b := by
  obtain ⟨p, hp, hmod, a, _, ha⟩ := generate_eq_some h
  have hdisc : PrimeDiscriminant p := ⟨hprimes p hp, hmod⟩
  exact ⟨p, hdisc, formCandidate_spec (neg_mod_four p) ha⟩

theorem computes (gcdext : Gcdext) {p : Nat} [PrimeDiscriminant p] (X : List Bytes) :
    Computes (power gcdext) (fun f (x : ReducedForm p) => HasClass f x ∧ IsCoprime f.a f.b)
      ReducedForm.form bytesToLong X := by
  constructor
  · intro x
    exact ⟨hasClass_form x, x.reduced.isCoprime⟩
  · intro x _ f y hf
    exact qfPow_eq gcdext _ hf.1 hf.2

end BQFAccumulator

/-! ### Completeness -/

/-- Every element of `X` has a witness: the base raised to the exponents of all other elements, and
accepted for what `X` accumulates to. -/
def AllWitnessed {G M : Type} [Monoid M] (accumulate : List Bytes → Except PyError G)
    (batch_witgen : List Bytes → Except PyError (List G))
    (verify : G → G → Bytes → Except PyError Bool) (Rep : G → M → Prop) (base : M)
    (exponent : Bytes → Nat) (X : List Bytes) : Prop :=
  ∃ acc ws, accumulate X = .ok acc ∧ batch_witgen X = .ok ws ∧ ws.length = X.length ∧
    ∀ (i : Nat) (x : Bytes) (w : G), X[i]? = some x → ws[i]? = some w →
      Rep w (base ^ ((X.eraseIdx i).map exponent).prod) ∧ verify acc w x = .ok true

theorem RSAAccumulator.allWitnessed {bytes_to_long : Bytes → Except PyError Nat}
    {self : RSAAccumulator} (hn : self.n ≠ 0) {exponent : Bytes → Nat} {X : List Bytes} (hX : X ≠ [])
    (he : ∀ x ∈ X, bytes_to_long x = .ok (exponent x)) :
    AllWitnessed (self.accumulate bytes_to_long) (self.batchWitgen bytes_to_long)
      (self.verify bytes_to_long) (fun w m => w ≡ m [ZMOD self.n]) self.g exponent X := by
  obtain ⟨acc, ws, hacc, hws, hlen, hall⟩ :=
    (computes hn he).complete .diverges hX (Int.ModEq.refl self.g)
  refine ⟨acc, ws, hacc, hws, hlen, ?_⟩
  intro i x w hx hw
  obtain ⟨hrep, hpow⟩ := hall i x w hx hw
  refine ⟨hrep, ?_⟩
  rw [verify, hpow, ok_bind, beq_self_eq_true]
  rfl

theorem BQFAccumulator.allWitnessed (gcdext : Gcdext) {p : Nat} [PrimeDiscriminant p]
    {self : BQFAccumulator} {x : ReducedForm p} (hg : HasClass self.g x)
    (hcop : IsCoprime self.g.a self.g.b) {X : List Bytes} (hX : X ≠ []) :
    AllWitnessed (self.accumulate gcdext) (self.batchWitgen gcdext) (verify gcdext) HasClass x
      bytesToLong X := by
  obtain ⟨acc, ws, hacc, hws, hlen, hall⟩ :=
    (computes gcdext X).complete .diverges hX (⟨hg, hcop⟩ : HasClass self.g x ∧ _)
  refine ⟨acc, ws, hacc, hws, hlen, ?_⟩
  intro i x w hx hw
  obtain ⟨hrep, hpow⟩ := hall i x w hx hw
  refine ⟨hrep.1, ?_⟩
  rw [verify, hpow, ok_bind, beq_self_eq_true]
  rfl

/-- The three accumulators are complete. -/
theorem exponent_accumulators_complete (H : Hashes) (gcdext : Gcdext) {X : List Bytes} (hX : X ≠ []) :
    (∀ self : RSAAccumulator, self.n ≠ 0 →
      AllWitnessed (self.accumulate RSAAccumulator.bytesToLong)
        (self.batchWitgen RSAAccumulator.bytesToLong) (self.verify RSAAccumulator.bytesToLong)
        (fun w m => w ≡ m [ZMOD self.n]) self.g bytesToLong X) ∧
    (∀ (self : RSAAccumulator) (primes : Bytes → Nat), self.n ≠ 0 →
      (∀ x ∈ X, RSAPrimeAccumulator.bytesToLong H x = .ok (primes x)) →
      AllWitnessed (self.accumulate (RSAPrimeAccumulator.bytesToLong H))
        (self.batchWitgen (RSAPrimeAccumulator.bytesToLong H))
        (self.verify (RSAPrimeAccumulator.bytesToLong H)) (fun w m => w ≡ m [ZMOD self.n]) self.g
        primes X) ∧
    ∀ (primes numbers : List Nat) (self : BQFAccumulator), (∀ p ∈ primes, p.Prime) →
      BQFAccumulator.generate H.isPrime primes numbers = some self →
      ∃ (p : Nat) (_ : PrimeDiscriminant p) (x : ReducedForm p), HasClass self.g x ∧
        AllWitnessed (self.accumulate gcdext) (self.batchWitgen gcdext)
          (BQFAccumulator.verify gcdext) HasClass x bytesToLong X := by
  refine ⟨?_, ?_, ?_⟩
  · intro self hn
    exact RSAAccumulator.allWitnessed hn hX fun _ _ => rfl
  · intro self primes hn hprimes
    exact RSAAccumulator.allWitnessed hn hX hprimes
  · intro primes numbers self hprimes hgenerate
    obtain ⟨p, hp, hposDef, hcop⟩ := BQFAccumulator.generate_spec hprimes hgenerate
    obtain ⟨x, hx⟩ := exists_hasClass hposDef
    exact ⟨p, hp, x, hx, BQFAccumulator.allWitnessed gcdext hx hcop hX⟩

def constantHashes : Hashes where
  shake _ n := List.replicate n 7
  sha256 x := x
  isPrime n := decide n.Prime
  prime_of_isPrime _ h := of_decide_eq_true h
  fuel := 1

/-- Three elements, one with exponent zero. -/
theorem exponent_accumulators_three :
    AllWitnessed (RSAAccumulator.accumulate RSAAccumulator.bytesToLong ⟨15, 2⟩)
        (RSAAccumulator.batchWitgen RSAAccumulator.bytesToLong ⟨15, 2⟩)
        (RSAAccumulator.verify RSAAccumulator.bytesToLong ⟨15, 2⟩) (fun w m => w ≡ m [ZMOD 15]) 2
        bytesToLong [[2], [0], [3]] ∧
      ∃ (p : Nat) (_ : PrimeDiscriminant p) (x : ReducedForm p), HasClass ⟨3, 1, 2⟩ x ∧
        AllWitnessed (BQFAccumulator.accumulate euclid ⟨⟨3, 1, 2⟩⟩)
          (BQFAccumulator.batchWitgen euclid ⟨⟨3, 1, 2⟩⟩) (BQFAccumulator.verify euclid) HasClass x
          bytesToLong [[2], [0], [3]] := by
  obtain ⟨hrsa, _, hbqf⟩ :=
    exponent_accumulators_complete constantHashes euclid (List.cons_ne_nil [2] [[0], [3]])
  exact ⟨hrsa ⟨15, 2⟩ (by decide), hbqf [23] [3] ⟨⟨3, 1, 2⟩⟩ (by norm_num) (by decide)⟩

end Lootbox.Headstart

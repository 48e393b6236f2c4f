import Lootbox.Headstart.BqfCanonical
import Lootbox.Headstart.ExponentAccumulators
import Lootbox.Headstart.ToyVDF

/-!
# Forms as bytes

`qf_tobytes` gives each coefficient `b // 8` signed bytes. The largest coefficient of a
discriminant is that of its principal form.
-/

namespace Lootbox.Headstart

open BinaryQF

/-- `int.from_bytes(x, "big", signed=True)` -/
def intFromBytes (x : Bytes) : Int :=
  if 2 * bytesToLong x < 256 ^ x.length then bytesToLong x else bytesToLong x - 256 ^ x.length

def qfFromBytes (x : Bytes) (b : Nat) : Except PyError BinaryQF :=
  if b / 8 = 0 then .error (.valueError "range() arg 3 must not be zero")
  else
    let starts := List.range' 0 ((x.length + b / 8 - 1) / (b / 8)) (b / 8)
    match starts.map fun i => intFromBytes ((x.drop i).take (b / 8)) with
    | [a, b, c] => .ok ⟨a, b, c⟩
    | _ => .error .typeError

/-- `get_bytes`, with `self.d.bit_length()`. -/
def BQFAccumulator.getBytes (self : BQFAccumulator) (acc : BinaryQF) : Except PyError Bytes :=
  qfToBytes acc self.g.discriminant.natAbs.size

/-! ### Signed numbers -/

/-- `length` signed bytes can hold `v`. -/
def Fits (length : Nat) (v : Int) : Prop := -(256 ^ length) ≤ 2 * v ∧ 2 * v < 256 ^ length

section Signed

variable {v : Int} {length : Nat}

theorem intToBytes_eq_ok_iff {bs : Bytes} : intToBytes v length = .ok bs ↔
    Fits length v ∧ bs = toBytes length (v % 256 ^ length).toNat := by
  rw [intToBytes, Fits]
  split
  · rename_i hv
    rw [and_iff_right hv, Except.ok.injEq, eq_comm]
  · rename_i hv
    simp [hv]

/-- The residue of a number that fits is the number, or what is `256 ** length` above it. -/
theorem intFromBytes_toBytes (hv : Fits length v) :
    intFromBytes (toBytes length (v % 256 ^ length).toNat) = v := by
  obtain ⟨hlower, hupper⟩ := hv
  obtain ⟨M, hM⟩ : ∃ M : Int, M = 256 ^ length := ⟨_, rfl⟩
  have hM_pos : 0 < M := by
    rw [hM]
    positivity
  have hnonneg := Int.emod_nonneg v hM_pos.ne'
  have hlt := Int.emod_lt_of_pos v hM_pos
  rw [← hM] at hlower hupper
  have hn : (v % M).toNat < 256 ^ length := by
    zify
    rw [Int.toNat_of_nonneg hnonneg, ← hM]
    exact hlt
  rw [intFromBytes, ← hM, bytesToLong_toBytes hn, length_toBytes, Int.toNat_of_nonneg hnonneg, ← hM]
  have hcast : 2 * (v % M).toNat < 256 ^ length ↔ 2 * (v % M) < M := by
    zify
    rw [Int.toNat_of_nonneg hnonneg, ← hM]
  rw [if_congr hcast rfl rfl]
  rcases Int.lt_or_le v 0 with hneg | hpos
  · have hmod : v % M = v + M := by
      rw [← Int.add_emod_right]
      exact Int.emod_eq_of_lt (by omega) (by omega)
    rw [hmod, if_neg (by omega)]
    omega
  · have hmod : v % M = v := Int.emod_eq_of_lt hpos (by omega)
    rw [hmod, if_pos hupper]

end Signed

/-! ### Forms -/

/-- `x` is written without an error, and read back. -/
def RoundTrips (x : BinaryQF) (b : Nat) : Prop :=
  ∃ r, qfToBytes x b = .ok r ∧ qfFromBytes r b = .ok x

section Forms

variable {x : BinaryQF} {b : Nat}

theorem qfFromBytes_append {A B C : Bytes} (hb : 0 < b / 8) (hA : A.length = b / 8)
    (hB : B.length = b / 8) (hC : C.length = b / 8) : qfFromBytes (A ++ (B ++ C)) b =
      .ok ⟨intFromBytes A, intFromBytes B, intFromBytes C⟩ := by
  obtain ⟨k, hk⟩ : ∃ k, k = b / 8 := ⟨_, rfl⟩
  rw [← hk] at hb hA hB hC
  have hcount : ((A ++ (B ++ C)).length + k - 1) / k = 3 := by
    rw [List.length_append, List.length_append, hA, hB, hC]
    rw [Nat.div_eq_iff hb]
    omega
  have hdropB : (A ++ (B ++ C)).drop k = B ++ C := List.drop_left' hA
  have hdropC : (A ++ (B ++ C)).drop (k + k) = C := by
    rw [← List.drop_drop, hdropB, List.drop_left' hB]
  rw [qfFromBytes, ← hk, if_neg hb.ne', hcount]
  simp only [List.range', List.map_cons, List.map_nil, zero_add, List.drop_zero, hdropB, hdropC,
    List.take_left' hA, List.take_left' hB, List.take_of_length_le hC.le]

theorem qfToBytes_eq_ok_iff {r : Bytes} : qfToBytes x b = .ok r ↔
    (∀ v ∈ [x.a, x.b, x.c], Fits (b / 8) v) ∧
      r = ([x.a, x.b, x.c].map fun v => toBytes (b / 8) (v % 256 ^ (b / 8)).toNat).flatten := by
  have hall : ∀ {rs : List Bytes}, [x.a, x.b, x.c].mapM (intToBytes · (b / 8)) = .ok rs ↔
      (∀ v ∈ [x.a, x.b, x.c], Fits (b / 8) v) ∧
        rs = [x.a, x.b, x.c].map fun v => toBytes (b / 8) (v % 256 ^ (b / 8)).toNat :=
    mapM_eq_ok_map_iff fun _ _ _ => intToBytes_eq_ok_iff
  constructor
  · intro h
    obtain ⟨rs, hrs, hr⟩ := bind_eq_ok_iff.mp h
    obtain ⟨hfits, rfl⟩ := hall.mp hrs
    exact ⟨hfits, (Except.ok.inj hr).symm⟩
  · rintro ⟨hfits, rfl⟩
    exact bind_eq_of_ok (hall.mpr ⟨hfits, rfl⟩) rfl

theorem roundTrips_iff_fits (hb : 8 ≤ b) :
    RoundTrips x b ↔ ∀ v ∈ [x.a, x.b, x.c], Fits (b / 8) v := by
  constructor
  · rintro ⟨r, hr, _⟩
    exact (qfToBytes_eq_ok_iff.mp hr).1
  · intro hx
    have hlen := length_toBytes (b / 8)
    have hread := fun v hv => intFromBytes_toBytes (hx v hv)
    refine ⟨_, qfToBytes_eq_ok_iff.mpr ⟨hx, rfl⟩, ?_⟩
    simp only [List.map_cons, List.map_nil, List.flatten_cons, List.flatten_nil, List.append_nil]
    rw [qfFromBytes_append (by omega) (hlen _) (hlen _) (hlen _), hread x.a (by simp),
      hread x.b (by simp), hread x.c (by simp)]

theorem roundTrips_iff {d : Int} (hb : 8 ≤ b) (hx : x.Reduced d) :
    RoundTrips x b ↔ 2 * x.c < 256 ^ (b / 8) := by
  have ha := hx.a_pos
  have hac := hx.a_le_c
  have hlower := hx.lower
  have hupper := hx.upper
  have hM : (0 : Int) < 256 ^ (b / 8) := by positivity
  rw [roundTrips_iff_fits hb]
  constructor
  · intro h
    exact (h x.c (by simp)).2
  · intro hc v hv
    simp only [List.mem_cons, List.not_mem_nil, or_false] at hv
    rcases hv with rfl | rfl | rfl
    · exact ⟨by linarith, by linarith⟩
    · exact ⟨by linarith, by linarith⟩
    · exact ⟨by linarith, hc⟩

end Forms

/-! ### The forms of one discriminant -/

section Discriminant

variable {p : Nat} {b : Nat}

theorem BinaryQF.Reduced.four_mul_c_le {x : BinaryQF} (hx : x.Reduced (-p)) : 4 * x.c ≤ p + 1 := by
  have ha := hx.a_pos
  have hdisc := hx.eq
  have hsq := hx.three_mul_sq_le
  have hb : x.b ^ 2 ≤ x.a ^ 2 := sq_le_sq' hx.lower.le hx.upper
  have hap : x.a ≤ p := by nlinarith
  have hmul : x.a * (4 * x.c) ≤ x.a * (p + 1) := by nlinarith
  exact le_of_mul_le_mul_left hmul ha

theorem forall_roundTrips_iff [hp : PrimeDiscriminant p] (hb : 8 ≤ b) :
    (∀ x : BinaryQF, x.Reduced (-p) → RoundTrips x b) ↔ p + 1 < 2 * 256 ^ (b / 8) := by
  obtain ⟨c, hprincipal, hc⟩ := principal_eq p
  constructor
  · intro h
    have hx := principal_reduced p
    have hlt := (roundTrips_iff hb hx).mp (h _ hx)
    rw [hprincipal] at hlt
    zify
    dsimp only at hlt
    linarith
  · intro hlt x hx
    have hle := hx.four_mul_c_le
    zify at hlt
    exact (roundTrips_iff hb hx).mpr (by linarith)

/-- A discriminant of exactly `bits` bits: one bit too many is left over, unless the last form of
all fails to need it. -/
theorem size_iff {bits : Nat} (hlower : 2 ^ (bits - 1) ≤ p) (hupper : p < 2 ^ bits) :
    p + 1 < 2 * 256 ^ (bits / 8) ↔ bits % 8 = 0 ∨ (bits % 8 = 1 ∧ p ≠ 2 ^ bits - 1) := by
  obtain ⟨q, r, hr, rfl⟩ : ∃ q r, r < 8 ∧ bits = 8 * q + r :=
    ⟨bits / 8, bits % 8, Nat.mod_lt _ (by norm_num), (Nat.div_add_mod bits 8).symm⟩
  have hdiv : (8 * q + r) / 8 = q := by omega
  have hmod : (8 * q + r) % 8 = r := by omega
  have hpow : 256 ^ q = 2 ^ (8 * q) := by
    rw [pow_mul]
    norm_num
  have hpos : 0 < 2 ^ (8 * q) := Nat.two_pow_pos _
  rw [hdiv, hmod, hpow]
  rcases Nat.lt_or_ge r 2 with hlt | hge
  · have hcase : r = 0 ∨ r = 1 := by omega
    rcases hcase with rfl | rfl
    · rw [add_zero] at hupper
      omega
    · rw [pow_succ] at hupper ⊢
      omega
  · have hle : 2 ^ (8 * q + 1) ≤ 2 ^ (8 * q + r - 1) := Nat.pow_le_pow_right two_pos (by omega)
    rw [pow_succ] at hle
    omega

/-- A discriminant of 256 bits, whatever `bits` is. -/
theorem size_256_iff {bits : Nat} (hlower : 2 ^ 255 ≤ p) (hupper : p < 2 ^ 256) :
    p + 1 < 2 * 256 ^ (bits / 8) ↔ 256 ≤ bits := by
  constructor
  · intro h
    by_contra hlt
    have hle : 256 ^ (bits / 8) ≤ 256 ^ 31 := Nat.pow_le_pow_right (by norm_num) (by omega)
    omega
  · intro h
    have hle : 256 ^ 32 ≤ 256 ^ (bits / 8) := Nat.pow_le_pow_right (by norm_num) (by omega)
    omega

end Discriminant

/-! ### The three callers -/

section Callers

variable {H : Hashes}

/-- `H_D` finds a discriminant of exactly `k` bits. -/
theorem hD_size {x : Bytes} {k : Nat} {d : Int} (hk : 3 ≤ k) (h : H.hD x k = .ok d) :
    ∃ p : Nat, d = -p ∧ PrimeDiscriminant p ∧ 2 ^ (k - 1) ≤ p ∧ p < 2 ^ k := by
  obtain ⟨p, rfl, hp⟩ := hD_discriminant h
  have hlt := hD_lt hk h
  rw [neg_neg] at hlt
  refine ⟨p, rfl, hp, ?_, by exact_mod_cast hlt⟩
  obtain ⟨i, hi⟩ := exists_of_search h
  dsimp only at hi
  split at hi
  · have hp_eq : H.kgen x k i ||| 7 = p := by simpa using hi
    apply Nat.ge_two_pow_of_testBit
    rw [← hp_eq, Nat.testBit_or, Hashes.kgen, Nat.one_shiftLeft, Nat.one_shiftLeft,
      Nat.testBit_mod_two_pow, Nat.testBit_or, Nat.testBit_two_pow_self]
    simp
    omega
  · cases hi

theorem getBytes_eq {self : BQFAccumulator} {p bits : Nat} (hd : self.g.discriminant = -p)
    (hlower : 2 ^ (bits - 1) ≤ p) (hupper : p < 2 ^ bits) (hbits : 0 < bits) (x : BinaryQF) :
    self.getBytes x = qfToBytes x bits := by
  have hle : p.size ≤ bits := Nat.size_le.mpr hupper
  have hlt : bits - 1 < p.size := Nat.lt_size.mpr hlower
  have hsize : p.size = bits := by omega
  rw [BQFAccumulator.getBytes, hd, Int.natAbs_neg, Int.natAbs_natCast, hsize]

theorem forall_roundTrips_size {p bits : Nat} [PrimeDiscriminant p] (hbits : 8 ≤ bits)
    (hlower : 2 ^ (bits - 1) ≤ p) (hupper : p < 2 ^ bits) :
    (∀ x : BinaryQF, x.Reduced (-p) → RoundTrips x bits) ↔
      bits % 8 = 0 ∨ (bits % 8 = 1 ∧ (-p : Int) ≠ -(2 ^ bits - 1)) := by
  have hne : (-p : Int) ≠ -(2 ^ bits - 1) ↔ p ≠ 2 ^ bits - 1 := by
    zify [Nat.one_le_two_pow]
    exact neg_inj.not
  rw [forall_roundTrips_iff hbits, size_iff hlower hupper, hne]

/-- Which sizes are written and read back for every reduced form. -/
theorem roundTrips_callers_iff (H : Hashes) {bits : Nat} (hbits : 8 ≤ bits) :
    (∀ (challenge : Bytes) (d : Int), H.hD challenge bits = .ok d →
      ((∀ x : BinaryQF, x.Reduced d → RoundTrips x bits) ↔
        bits % 8 = 0 ∨ (bits % 8 = 1 ∧ d ≠ -(2 ^ bits - 1)))) ∧
    (∀ (primes numbers : List Nat) (self : BQFAccumulator),
      (∀ p ∈ primes, p.Prime ∧ 2 ^ (bits - 1) ≤ p ∧ p < 2 ^ bits) →
      BQFAccumulator.generate H.isPrime primes numbers = some self →
      ((∀ x : BinaryQF, x.Reduced self.g.discriminant →
          ∃ r, self.getBytes x = .ok r ∧ qfFromBytes r bits = .ok x) ↔
        bits % 8 = 0 ∨ (bits % 8 = 1 ∧ self.g.discriminant ≠ -(2 ^ bits - 1)))) ∧
    (∀ (T : Nat) (self : AggregateToyVDF), AggregateToyVDF.new H bits T = .ok self →
      ((∀ x : BinaryQF, x.Reduced self.d → RoundTrips x self.bits) ↔ 256 ≤ bits)) ∧
    ∀ (d : Int) (x : BinaryQF), x.Reduced d → (RoundTrips x bits ↔ 2 * x.c < 256 ^ (bits / 8)) := by
  refine ⟨?_, ?_, ?_, ?_⟩
  · intro challenge d hd
    obtain ⟨p, rfl, hp, hlower, hupper⟩ := hD_size (by omega) hd
    exact forall_roundTrips_size hbits hlower hupper
  · intro primes numbers self hprimes hgenerate
    obtain ⟨p, hmem, hmod, a, _, ha⟩ := BQFAccumulator.generate_eq_some hgenerate
    obtain ⟨hprime, hlower, hupper⟩ := hprimes p hmem
    have hp : PrimeDiscriminant p := ⟨hprime, hmod⟩
    have hd : self.g.discriminant = -p := (formCandidate_spec (neg_mod_four p) ha).1.disc
    simp only [getBytes_eq hd hlower hupper (by omega), hd]
    exact forall_roundTrips_size hbits hlower hupper
  · intro T self hnew
    obtain ⟨d, hd, hself⟩ := bind_eq_ok_iff.mp hnew
    cases hself
    obtain ⟨p, rfl, hp, hlower, hupper⟩ := hD_size (by norm_num) hd
    exact (forall_roundTrips_iff hbits).trans (size_256_iff hlower hupper)
  · intro d x hx
    exact roundTrips_iff hbits hx

/-- A hash to the discriminant `-991`, which has ten bits. -/
def tenBitHashes : Hashes where
  shake _ _ := [3, 223]
  sha256 x := x
  isPrime n := n == 991
  prime_of_isPrime n h := by
    rw [beq_iff_eq.mp h]
    norm_num
  fuel := 1

theorem roundTrips_callers_ten :
    ¬ ∀ x : BinaryQF, x.Reduced (-991) → RoundTrips x 10 := by
  obtain ⟨htoy, _⟩ := roundTrips_callers_iff tenBitHashes (show 8 ≤ 10 by decide)
  rw [htoy [] (-991) (by decide)]
  decide

/-- One byte does not hold the last coefficient of the principal form. -/
theorem qfToBytes_overflow : tenBitHashes.hD [] 10 = .ok (-991) ∧ Reduced (-991) ⟨1, 1, 248⟩ ∧
    qfToBytes ⟨1, 1, 248⟩ 10 = .error .overflowError := by
  refine ⟨by decide, ?_, by decide⟩
  exact ⟨⟨by decide, by decide⟩, by decide, by decide, by decide⟩

end Callers

end Lootbox.Headstart

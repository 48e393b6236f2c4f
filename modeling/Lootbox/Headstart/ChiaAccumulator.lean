import Lootbox.Chiavdf.Form
import Lootbox.Headstart.ExponentAccumulators

/-!
# `acc/bqf_accumulator.py` and `fastvdf.cpp`: the accumulator over `chiavdf`

The coefficients of a form cross the border between the languages as unsigned numbers, in both
directions.
-/

namespace Lootbox.Chiavdf

open Headstart

/-- `integer::to_bytes`: the magnitude, and one zero byte for zero. -/
def integerToBytes (x : Int) : Bytes := toBytes ((max x.natAbs.size 1 + 7) / 8) x.natAbs

/-- `exp` of the Python bindings -/
def exp (ops : ClassGroupOps) (a_be b_be c_be : Bytes) (exp_be_list : List Bytes) :
    Except PyError (Bytes × Bytes × Bytes) := do
  let a : Int := bytesToLong a_be
  let b : Int := bytesToLong b_be
  let c : Int := bytesToLong c_be
  let D := b * b - 4 * a * c
  let x ← fromAbc a b c
  let x := exp_be_list.foldl (fun x exp_be => ops.fastPow x D (bytesToLong exp_be)) x
  return (integerToBytes x.a, integerToBytes x.b, integerToBytes x.c)

end Lootbox.Chiavdf

namespace Lootbox.Headstart

open BinaryQF ReducedForm PowerAccumulator Chiavdf

/-- `int(x).to_bytes((x.bit_length() + 7) // 8, "big")` -/
def int2bytes (x : Int) : Except PyError Bytes :=
  if x < 0 then .error .overflowError else .ok (toBytes ((x.natAbs.size + 7) / 8) x.natAbs)

def bytes2int (x : Bytes) : Int := bytesToLong x

def chaiExp (ops : ClassGroupOps) (g : BinaryQF) (exps : List Bytes) : Except PyError BinaryQF := do
  let a ← int2bytes g.a
  let b ← int2bytes g.b
  let c ← int2bytes g.c
  let (a, b, c) ← exp ops a b c exps
  return ⟨bytes2int a, bytes2int b, bytes2int c⟩

/-- `ChiaBQFAccumulator` keeps the fields of the class it inherits from. -/
abbrev ChiaBQFAccumulator := BQFAccumulator

namespace ChiaBQFAccumulator

variable (ops : ClassGroupOps) (self : ChiaBQFAccumulator)

def accumulate (X : List Bytes) : Except PyError BinaryQF := chaiExp ops self.g X

/-- The halves of an empty list are empty again, so the recursion does not end. -/
def rootFactor (g : BinaryQF) (X : List Bytes) : Except PyError (List BinaryQF) :=
  if _h : X.length = 1 then .ok [g]
  else if _h' : X.length = 0 then .error .diverges
  else do
    let h := X.length / 2
    let gl ← chaiExp ops g (X.take h)
    let gr ← chaiExp ops g (X.drop h)
    let L ← rootFactor gr (X.take h)
    let R ← rootFactor gl (X.drop h)
    return L ++ R
termination_by X.length
decreasing_by
  · rw [List.length_take]
    omega
  · rw [List.length_drop]
    omega

def batchWitgen (X : List Bytes) : Except PyError (List BinaryQF) := rootFactor ops self.g X

end ChiaBQFAccumulator

/-! ### What crosses the border -/

theorem bytesToLong_natAbs (x : Int) {n : Nat} (hn : x.natAbs.size ≤ n) :
    bytesToLong (toBytes ((n + 7) / 8) x.natAbs) = x.natAbs := by
  apply bytesToLong_toBytes
  calc x.natAbs < 2 ^ x.natAbs.size := Nat.lt_size_self _
    _ ≤ 2 ^ (8 * ((n + 7) / 8)) := Nat.pow_le_pow_right two_pos (by omega)
    _ = 256 ^ ((n + 7) / 8) := by rw [pow_mul]; norm_num

theorem bytes2int_integerToBytes (x : Int) : bytes2int (integerToBytes x) = |x| := by
  rw [bytes2int, integerToBytes, bytesToLong_natAbs x (le_max_left _ _), Int.natCast_natAbs]

theorem exists_int2bytes {x : Int} (hx : 0 ≤ x) :
    ∃ bs, int2bytes x = .ok bs ∧ (bytesToLong bs : Int) = x := by
  refine ⟨_, if_neg (by omega), ?_⟩
  rw [bytesToLong_natAbs x le_rfl, Int.natCast_natAbs, abs_of_nonneg hx]

def magnitude (f : BinaryQF) : BinaryQF := ⟨|f.a|, |f.b|, |f.c|⟩

section Sign

variable {p : Nat} [hp : PrimeDiscriminant p] {f : BinaryQF} {x y : ReducedForm p}

theorem magnitude_of_nonneg (hf : f.PosDef (-p)) (hb : 0 ≤ f.b) : magnitude f = f := by
  have hc := hf.c_pos (neg_discriminant p)
  rw [magnitude, abs_of_pos hf.a_pos, abs_of_nonneg hb, abs_of_pos hc]

theorem magnitude_of_nonpos (hf : f.PosDef (-p)) (hb : f.b ≤ 0) : magnitude f = ⟨f.a, -f.b, f.c⟩ := by
  have hc := hf.c_pos (neg_discriminant p)
  rw [magnitude, abs_of_pos hf.a_pos, abs_of_nonpos hb, abs_of_pos hc]

theorem eq_one_of_b_eq_a (hb : x.form.b = x.form.a) : x = 1 := by
  have ha := x.reduced.a_pos
  have hdisc := x.reduced.eq
  have hsq := x.reduced.three_mul_sq_le
  have hmul : x.form.a * (4 * x.form.c - x.form.a) = p := by
    rw [hb] at hdisc
    linarith
  have hone : x.form.a = 1 := by
    obtain ⟨n, hn⟩ := Int.eq_ofNat_of_zero_le ha.le
    have hdvd : n ∣ p := Int.natCast_dvd_natCast.mp (hn ▸ Dvd.intro _ hmul)
    rcases (Nat.dvd_prime hp.prime).mp hdvd with hn1 | hnp
    · rw [hn, hn1]
      rfl
    · rw [hn, hnp] at hsq
      have hpos : (0 : Int) < p := by exact_mod_cast hp.prime.pos
      nlinarith
  obtain ⟨c, hprincipal, hc⟩ := principal_eq p
  have hform : x.form = (1 : ReducedForm p).form := by
    refine x.reduced.toPosDef.ext_of_eq (1 : ReducedForm p).reduced.toPosDef ?_ ?_
    · rw [one_form, hprincipal, hone]
    · rw [one_form, hprincipal, hb, hone]
  cases x
  simp only [one_form] at hform
  subst hform
  rfl

theorem inv_form (hx : x ≠ 1) : x⁻¹.form = ⟨x.form.a, -x.form.b, x.form.c⟩ := by
  have hne : x.form.b ≠ x.form.a := fun hb => hx (eq_one_of_b_eq_a hb)
  have hupper := x.reduced.upper
  have hlower := x.reduced.lower
  have hac : x.form.a < x.form.c := by
    rcases x.reduced.order with hlt | ⟨heq, _⟩
    · exact hlt
    · obtain ⟨_, hform⟩ := x.reduced.eq_one_of_a_eq_c hp.prime heq
      exact absurd (by rw [hform]) hne
  have hreduced : Reduced (-p) ⟨x.form.a, -x.form.b, x.form.c⟩ :=
    ⟨conj_posDef x.reduced.toPosDef, by dsimp only; omega, by dsimp only; omega, Or.inl hac⟩
  have heq : x⁻¹ = ⟨_, hreduced⟩ := eq_of_homothetic (hasClass_inv x).homothetic.symm
  rw [heq]

theorem magnitude_inv (x : ReducedForm p) : magnitude x⁻¹.form = magnitude x.form := by
  by_cases hx : x = 1
  · rw [hx, inv_one]
  · rw [inv_form hx, magnitude, magnitude, abs_neg]

theorem exists_magnitude (x : ReducedForm p) : ∃ y : ReducedForm p,
    y.form = magnitude x.form ∧ (y = x ∨ y = x⁻¹) := by
  rcases le_or_gt 0 x.form.b with hb | hb
  · exact ⟨x, (magnitude_of_nonneg x.reduced.toPosDef hb).symm, Or.inl rfl⟩
  · refine ⟨x⁻¹, ?_, Or.inr rfl⟩
    have hx : x ≠ 1 := by
      rintro rfl
      obtain ⟨c, hprincipal, _⟩ := principal_eq p
      rw [one_form, hprincipal] at hb
      dsimp only at hb
      omega
    rw [inv_form hx, magnitude_of_nonpos x.reduced.toPosDef hb.le]

theorem magnitude_eq_iff (x : ReducedForm p) : magnitude x.form = x.form ↔ 0 ≤ x.form.b := by
  constructor
  · intro h
    rw [← h]
    exact abs_nonneg _
  · exact magnitude_of_nonneg x.reduced.toPosDef

/-! ### `chai_exp` -/

section Power

variable {ops : ClassGroupOps} (hops : ops.Computes p)
include hops

theorem foldl_fastPow (x : ReducedForm p) (exps : List Bytes) :
    exps.foldl (fun f e => ops.fastPow f (-p) (bytesToLong e)) x.form =
      (x ^ total bytesToLong exps).form := by
  induction exps generalizing x with
  | nil => rw [total_nil, pow_one]; rfl
  | cons e exps ih => rw [List.foldl_cons, hops.fastPow_form, ih, total_cons, pow_mul]

theorem chaiExp_eq (hf : HasClass f x) (hb : 0 ≤ f.b) (exps : List Bytes) :
    chaiExp ops f exps = .ok (magnitude (x ^ total bytesToLong exps).form) := by
  have hdisc := hf.posDef.eq
  obtain ⟨a, ha, ha_eq⟩ := exists_int2bytes hf.posDef.a_pos.le
  obtain ⟨b, hb, hb_eq⟩ := exists_int2bytes hb
  obtain ⟨c, hc, hc_eq⟩ := exists_int2bytes (hf.posDef.c_pos (neg_discriminant p)).le
  have hD : f.b * f.b - 4 * f.a * f.c = -p := by rw [← hdisc]; ring
  refine bind_eq_of_ok ha ?_
  refine bind_eq_of_ok hb ?_
  refine bind_eq_of_ok hc ?_
  have hexp : exp ops a b c exps = .ok (integerToBytes (x ^ total bytesToLong exps).form.a,
      integerToBytes (x ^ total bytesToLong exps).form.b,
      integerToBytes (x ^ total bytesToLong exps).form.c) := by
    rw [exp]
    simp only [ha_eq, hb_eq, hc_eq, hD]
    refine bind_eq_of_ok (reduce_class hf) ?_
    rw [foldl_fastPow hops]
    rfl
  refine bind_eq_of_ok hexp ?_
  dsimp only
  rw [bytes2int_integerToBytes, bytes2int_integerToBytes, bytes2int_integerToBytes]
  rfl

omit hops hp in
theorem chaiExp_of_neg (hf : f.PosDef (-p)) (hb : f.b < 0) (exps : List Bytes) :
    chaiExp ops f exps = .error .overflowError := by
  obtain ⟨a, ha, _⟩ := exists_int2bytes hf.a_pos.le
  rw [chaiExp, ha, ok_bind, int2bytes, if_pos hb]
  rfl

theorem chaiExp_magnitude (x : ReducedForm p) (exps : List Bytes) :
    chaiExp ops (magnitude x.form) exps = .ok (magnitude (x ^ total bytesToLong exps).form) := by
  obtain ⟨y, hy, hxy⟩ := exists_magnitude x
  have hb : 0 ≤ (magnitude x.form).b := abs_nonneg _
  rw [← hy] at hb ⊢
  rw [chaiExp_eq hops (hasClass_form y) hb]
  rcases hxy with rfl | rfl
  · rfl
  · rw [inv_pow, magnitude_inv]

theorem rootFactor_eq {X : List Bytes} (hX : X ≠ [])
    (hpass : ∀ exps, chaiExp ops f exps = .ok (magnitude (x ^ total bytesToLong exps).form))
    (hone : X.length = 1 → f = magnitude x.form) :
    ∃ ws, ChiaBQFAccumulator.rootFactor ops f X = .ok ws ∧ ws.length = X.length ∧
      ∀ i w, ws[i]? = some w → w = magnitude (x ^ total bytesToLong (X.eraseIdx i)).form := by
  induction X, hX using halves_induction generalizing f x with
  | single e =>
    refine ⟨[f], by rw [ChiaBQFAccumulator.rootFactor, dif_pos List.length_singleton], rfl, ?_⟩
    intro i w hw
    match i with
    | 0 =>
      cases hw
      rw [List.eraseIdx_cons_zero, total_nil, pow_one]
      exact hone rfl
  | halves X hX hlen hleft hright ihl ihr =>
    obtain ⟨L, hL, hL_len, hL_eq⟩ := ihl
      (chaiExp_magnitude hops (x ^ total bytesToLong (X.drop (X.length / 2)))) (fun _ => rfl)
    obtain ⟨R, hR, hR_len, hR_eq⟩ := ihr
      (chaiExp_magnitude hops (x ^ total bytesToLong (X.take (X.length / 2)))) (fun _ => rfl)
    refine ⟨L ++ R, ?_, ?_, ?_⟩
    · rw [ChiaBQFAccumulator.rootFactor, dif_neg hlen, dif_neg (List.length_pos_of_ne_nil hX).ne']
      simp only [hpass, hL, hR, ok_bind]
      rfl
    · rw [List.length_append, hL_len, hR_len, ← List.length_append, List.take_append_drop]
    · rw [← List.take_append_drop (X.length / 2) X]
      apply witnesses_append (P := fun n w => w = magnitude (x ^ n).form) hL_len
      · intro i w hw
        rw [pow_mul]
        exact hL_eq i w hw
      · intro i w hw
        rw [pow_mul]
        exact hR_eq i w hw

end Power

/-! ### Agreement with `BQFAccumulator` -/

/-- The two forms are equal up to `reduced_form`. -/
def SameReduced (f g : BinaryQF) : Prop := ∃ h, f.reducedForm = .ok h ∧ g.reducedForm = .ok h

theorem sameReduced_magnitude_iff (hf : HasClass f x) :
    SameReduced f (magnitude x.form) ↔ 0 ≤ x.form.b := by
  obtain ⟨y, hy, _⟩ := exists_magnitude x
  rw [← magnitude_eq_iff, ← hy]
  have hreduce := (hasClass_form y).reducedForm_eq
  constructor
  · rintro ⟨h, hf', hy'⟩
    rw [hf.reducedForm_eq] at hf'
    rw [hreduce] at hy'
    exact Except.ok.inj (hy'.trans hf'.symm)
  · intro h
    rw [h]
    exact ⟨x.form, hf.reducedForm_eq, (hasClass_form x).reducedForm_eq⟩

section Plain

variable (gcdext : Gcdext)

theorem isCoprime_of_square (hf : f.PosDef (-p)) {g : BinaryQF} (h : f.square gcdext = .ok g) :
    IsCoprime f.a f.b := by
  obtain ⟨⟨mu, v⟩, hsolve, _⟩ := bind_eq_ok_iff.mp h
  obtain ⟨hdvd, _⟩ := solveLinmod_exact gcdext hf.a_pos hsolve
  have hunit := hf.isUnit_of_dvd (squarefree_neg hp.prime) (Int.gcd_dvd_right f.b f.a)
    (Int.gcd_dvd_left f.b f.a) hdvd
  rw [Int.isCoprime_iff_gcd_eq_one, Int.gcd_comm]
  exact Int.ofNat_isUnit.mp hunit |> Nat.isUnit_iff.mp

theorem isCoprime_of_qfPow (hf : f.PosDef (-p)) {n : Nat} (hn : n ≠ 0) {g : BinaryQF}
    (h : qfPow gcdext f n = .ok g) : IsCoprime f.a f.b := by
  rw [qfPow, qfPowLoop, if_neg hn] at h
  obtain ⟨_, _, h⟩ := bind_eq_ok_iff.mp h
  obtain ⟨ff, hmul, _⟩ := bind_eq_ok_iff.mp h
  rw [mul, if_pos rfl] at hmul
  exact isCoprime_of_square gcdext hf hmul

/-- When `qf_pow` can be applied for one exponent after the other. -/
def Powerable (f : BinaryQF) (exps : List Bytes) : Prop :=
  IsCoprime f.a f.b ∨ ∀ e ∈ exps.head?, bytesToLong e = 0

theorem Powerable.exists_foldlM (hf : HasClass f x) {exps : List Bytes} (h : Powerable f exps) :
    ∃ r, exps.foldlM (BQFAccumulator.power gcdext) f = .ok r ∧
      HasClass r (x ^ total bytesToLong exps) := by
  rcases h with hcop | hzero
  · obtain ⟨r, hfold, hr, _⟩ := (BQFAccumulator.computes gcdext exps).exists_foldlM ⟨hf, hcop⟩
    exact ⟨r, hfold, hr⟩
  · cases exps with
    | nil =>
      refine ⟨f, rfl, ?_⟩
      rw [total_nil, pow_one]
      exact hf
    | cons e exps =>
      have he : bytesToLong e = 0 := hzero e rfl
      have hpow : BQFAccumulator.power gcdext f e = .ok (1 : ReducedForm p).form := by
        rw [BQFAccumulator.power, he, qfPow, qfPowLoop, if_pos rfl, hf.posDef.disc, one_form]
      obtain ⟨r, hfold, hr, _⟩ := (BQFAccumulator.computes gcdext exps).exists_foldlM
        ⟨hasClass_form (1 : ReducedForm p), (1 : ReducedForm p).reduced.isCoprime⟩
      refine ⟨r, ?_, ?_⟩
      · rw [List.foldlM_cons, hpow, ok_bind, hfold]
      · rw [total_cons, he, zero_mul, pow_zero]
        rwa [one_pow] at hr

theorem powerable_of_foldlM (hf : f.PosDef (-p)) {exps : List Bytes} {r : BinaryQF}
    (h : exps.foldlM (BQFAccumulator.power gcdext) f = .ok r) : Powerable f exps := by
  cases exps with
  | nil => exact Or.inr fun e he => nomatch he
  | cons e exps =>
    obtain ⟨g, hpow, _⟩ := bind_eq_ok_iff.mp h
    by_cases he : bytesToLong e = 0
    · right
      intro e' he'
      cases he'
      exact he
    · exact Or.inl (isCoprime_of_qfPow gcdext hf he hpow)

end Plain

end Sign

theorem formCandidate_b_nonneg {isPrime : Nat → Bool} {d : Int} {a : Nat} {f : BinaryQF}
    (h : formCandidate isPrime d a = some f) : 0 ≤ f.b := by
  obtain ⟨n, hmod, _, _, hb, _⟩ := formCandidate_eq_some h
  have hlower : 0 ≤ powMod d ((n + 1) / 4) n := Int.emod_nonneg _ (by omega)
  have hupper : powMod d ((n + 1) / 4) n < n := Int.emod_lt_of_pos _ (by omega)
  rw [hb]
  split <;> omega

theorem generate_b_nonneg {isPrime : Nat → Bool} {primes numbers : List Nat} {self : BQFAccumulator}
    (h : BQFAccumulator.generate isPrime primes numbers = some self) : 0 ≤ self.g.b := by
  obtain ⟨_, _, _, _, _, ha⟩ := BQFAccumulator.generate_eq_some h
  exact formCandidate_b_nonneg ha

section Agreement

variable (gcdext : Gcdext) {ops : ClassGroupOps} {p : Nat} [hp : PrimeDiscriminant p]
  (hops : ops.Computes p) {self : BQFAccumulator} {x : ReducedForm p}
include hops

theorem chaiExp_agrees_iff {f : BinaryQF} (hf : HasClass f x) (exps : List Bytes) :
    (∃ r r', exps.foldlM (BQFAccumulator.power gcdext) f = .ok r ∧
      chaiExp ops f exps = .ok r' ∧ SameReduced r r') ↔
    0 ≤ f.b ∧ 0 ≤ (x ^ total bytesToLong exps).form.b ∧ Powerable f exps := by
  constructor
  · rintro ⟨r, r', hfold, hchai, hsame⟩
    have hpowerable := powerable_of_foldlM gcdext hf.posDef hfold
    obtain ⟨r₁, hfold₁, hr₁⟩ := hpowerable.exists_foldlM gcdext hf
    obtain rfl := Except.ok.inj (hfold₁.symm.trans hfold)
    rcases lt_or_ge f.b 0 with hneg | hb
    · rw [chaiExp_of_neg hf.posDef hneg] at hchai
      cases hchai
    · rw [chaiExp_eq hops hf hb] at hchai
      cases hchai
      exact ⟨hb, (sameReduced_magnitude_iff hr₁).mp hsame, hpowerable⟩
  · rintro ⟨hb, hsign, hpowerable⟩
    obtain ⟨r, hfold, hr⟩ := hpowerable.exists_foldlM gcdext hf
    exact ⟨r, _, hfold, chaiExp_eq hops hf hb exps, (sameReduced_magnitude_iff hr).mpr hsign⟩

theorem batchWitgen_agrees_iff (hg : HasClass self.g x) (hcop : IsCoprime self.g.a self.g.b)
    (hb : 0 ≤ self.g.b) {X : List Bytes} {i : Nat} (hi : i < X.length) :
    (∃ ws ws' w w', self.batchWitgen gcdext X = .ok ws ∧
      ChiaBQFAccumulator.batchWitgen ops self X = .ok ws' ∧ ws[i]? = some w ∧
      ws'[i]? = some w' ∧ SameReduced w w') ↔
    X.length = 1 ∨ 0 ≤ (x ^ total bytesToLong (X.eraseIdx i)).form.b := by
  have hX : X ≠ [] := by
    rintro rfl
    exact absurd hi (by simp)
  obtain ⟨ws, hws, hlen, hrep⟩ := (BQFAccumulator.computes gcdext X).rootFactor_eq .diverges hX
    (⟨hg, hcop⟩ : HasClass self.g x ∧ _)
  have hw := List.getElem?_eq_getElem (hlen ▸ hi)
  by_cases hone : X.length = 1
  · refine iff_of_true ?_ (Or.inl hone)
    have hplain : self.batchWitgen gcdext X = .ok [self.g] := by
      rw [BQFAccumulator.batchWitgen, rootFactor, dif_pos hone]
    have hchia : ChiaBQFAccumulator.batchWitgen ops self X = .ok [self.g] := by
      rw [ChiaBQFAccumulator.batchWitgen, ChiaBQFAccumulator.rootFactor, dif_pos hone]
    obtain rfl : i = 0 := by omega
    exact ⟨_, _, self.g, self.g, hplain, hchia, rfl, rfl, x.form, hg.reducedForm_eq,
      hg.reducedForm_eq⟩
  · obtain ⟨ws', hws', hlen', heq⟩ := rootFactor_eq hops hX (chaiExp_eq hops hg hb)
      (fun h => absurd h hone)
    have hw' := List.getElem?_eq_getElem (hlen' ▸ hi)
    have hsame := sameReduced_magnitude_iff (hrep i _ hw).1
    rw [← heq i _ hw'] at hsame
    rw [or_iff_right hone, ← hsame]
    constructor
    · rintro ⟨vs, vs', w, w', hvs, hvs', hv, hv', h⟩
      obtain rfl := Except.ok.inj (hws.symm.trans hvs)
      obtain rfl := Except.ok.inj (hws'.symm.trans hvs')
      obtain rfl := Option.some.inj (hw.symm.trans hv)
      obtain rfl := Option.some.inj (hw'.symm.trans hv')
      exact h
    · intro h
      exact ⟨ws, ws', _, _, hws, hws', hw, hw', h⟩

end Agreement

/-- The accumulator over `chiavdf` agrees with the plain one where the reduced form has no negative
`b` that could be lost. -/
theorem chia_accumulator_agrees_iff (H : Hashes) (gcdext : Gcdext) {ops : ClassGroupOps}
    (hops : ∀ (p : Nat) [PrimeDiscriminant p], ops.Computes p) {primes numbers : List Nat}
    (hprimes : ∀ p ∈ primes, p.Prime) {self : BQFAccumulator}
    (hgenerate : BQFAccumulator.generate H.isPrime primes numbers = some self) :
    ∃ (p : Nat) (_ : PrimeDiscriminant p) (x : ReducedForm p), HasClass self.g x ∧
      (∀ X : List Bytes, (∃ f f', self.accumulate gcdext X = .ok f ∧
          ChiaBQFAccumulator.accumulate ops self X = .ok f' ∧ SameReduced f f') ↔
        0 ≤ (x ^ total bytesToLong X).form.b) ∧
      (∀ (X : List Bytes) (i : Nat), i < X.length →
        ((∃ ws ws' w w', self.batchWitgen gcdext X = .ok ws ∧
            ChiaBQFAccumulator.batchWitgen ops self X = .ok ws' ∧ ws[i]? = some w ∧
            ws'[i]? = some w' ∧ SameReduced w w') ↔
          X.length = 1 ∨ 0 ≤ (x ^ total bytesToLong (X.eraseIdx i)).form.b)) ∧
      ∀ (f : BinaryQF) (y : ReducedForm p), HasClass f y → ∀ exps : List Bytes,
        (∃ r r', exps.foldlM (BQFAccumulator.power gcdext) f = .ok r ∧
            chaiExp ops f exps = .ok r' ∧ SameReduced r r') ↔
          0 ≤ f.b ∧ 0 ≤ (y ^ total bytesToLong exps).form.b ∧ Powerable f exps := by
  obtain ⟨p, hp, hposDef, hcop⟩ := BQFAccumulator.generate_spec hprimes hgenerate
  obtain ⟨x, hx⟩ := exists_hasClass hposDef
  have hb := generate_b_nonneg hgenerate
  refine ⟨p, hp, x, hx, ?_, ?_, ?_⟩
  · intro X
    have hagrees := chaiExp_agrees_iff gcdext (hops p) hx X
    have hpowerable : Powerable self.g X := Or.inl hcop
    rw [and_iff_right hb, and_iff_left hpowerable] at hagrees
    exact hagrees
  · intro X i hi
    exact batchWitgen_agrees_iff gcdext (hops p) hx hcop hb hi
  · intro f y hf exps
    exact chaiExp_agrees_iff gcdext (hops p) hf exps

def plainOps (gcdext : Gcdext) : ClassGroupOps where
  fastPow x _ n := (x.reducedForm >>= fun f => qfPow gcdext f n).toOption.getD x
  nudupl x _ := (x.reducedForm >>= fun f => f.mul gcdext f).toOption.getD x
  nucomp x y _ := (x.reducedForm >>= fun f => y.reducedForm >>= fun g => f.mul gcdext g).toOption.getD x
  pulmarkReduce x := x.reducedForm.toOption.getD x
  times x y := (x.dot gcdext y).toOption.getD x

theorem plainOps_computes (gcdext : Gcdext) (p : Nat) [PrimeDiscriminant p] :
    (plainOps gcdext).Computes p := by
  constructor
  · intro f x n hf
    dsimp only [plainOps]
    rw [hf.reducedForm_eq, ok_bind, qfPow_eq gcdext n (hasClass_form x) x.reduced.isCoprime]
    rfl
  · intro f x hf
    obtain ⟨h, hmul, hh⟩ := mul_form gcdext x x
    dsimp only [plainOps]
    rw [hf.reducedForm_eq, ok_bind, hmul]
    exact hh
  · intro f g x y hf hg
    obtain ⟨h, hmul, hh⟩ := mul_form gcdext x y
    dsimp only [plainOps]
    rw [hf.reducedForm_eq, ok_bind, hg.reducedForm_eq, ok_bind, hmul]
    exact hh
  · intro f x hf
    dsimp only [plainOps]
    rw [hf.reducedForm_eq]
    rfl
  · intro x y
    dsimp only [plainOps]
    rw [dot_form]
    rfl

/-- The generator `(3, 1, 2)` of discriminant `-23`. -/
theorem chia_accumulator_23 : ∃ (p : Nat) (_ : PrimeDiscriminant p) (x : ReducedForm p),
    HasClass ⟨3, 1, 2⟩ x ∧
      ((∃ f f', BQFAccumulator.accumulate euclid ⟨⟨3, 1, 2⟩⟩ [[2], [3]] = .ok f ∧
          ChiaBQFAccumulator.accumulate (plainOps euclid) ⟨⟨3, 1, 2⟩⟩ [[2], [3]] = .ok f' ∧
          SameReduced f f') ↔ 0 ≤ (x ^ total bytesToLong [[2], [3]]).form.b) := by
  have hgenerate : BQFAccumulator.generate constantHashes.isPrime [23] [3] = some ⟨⟨3, 1, 2⟩⟩ := by
    decide
  obtain ⟨p, hp, x, hx, haccumulate, _⟩ := chia_accumulator_agrees_iff constantHashes euclid
    (fun p _ => plainOps_computes euclid p) (by norm_num) hgenerate
  exact ⟨p, hp, x, hx, haccumulate [[2], [3]]⟩

/-- One element with exponent one: `(2, 1, 3)` comes back for `(2, -1, 3)`. -/
theorem chia_accumulator_differs :
    ¬ ∃ f f', BQFAccumulator.accumulate euclid ⟨⟨3, 1, 2⟩⟩ [[1]] = .ok f ∧
      ChiaBQFAccumulator.accumulate (plainOps euclid) ⟨⟨3, 1, 2⟩⟩ [[1]] = .ok f' ∧
      SameReduced f f' := by
  have : PrimeDiscriminant 23 := ⟨by norm_num, by norm_num⟩
  obtain ⟨x, hx⟩ := exists_hasClass (p := 23) (f := ⟨3, 1, 2⟩) ⟨by decide, by decide⟩
  have hreduce : (⟨3, 1, 2⟩ : BinaryQF).reducedForm = .ok ⟨2, -1, 3⟩ := by decide
  have hform : x.form = ⟨2, -1, 3⟩ := Except.ok.inj (hx.reducedForm_eq.symm.trans hreduce)
  intro h
  obtain ⟨_, hsign, _⟩ :=
    (chaiExp_agrees_iff euclid (plainOps_computes euclid 23) hx [[1]]).mp h
  have hone : total bytesToLong [[1]] = 1 := by decide
  rw [hone, pow_one, hform] at hsign
  exact absurd hsign (by decide)

end Lootbox.Headstart

import Lootbox.Base.LittleEndian
import Lootbox.Chiavdf.AggVdf
import Lootbox.Chiavdf.Nucomp

/-!
# `bqfc.c`: compressed forms

Of a reduced form only half of `b` is written: a cofactor `t` for which `t * b` has a small residue
modulo `a`. The residue is the square root of `t * t * D` modulo `a`, so `b` can be recovered.
-/

namespace Lootbox.Chiavdf

open Headstart BinaryQF ReducedForm PartialEuclid LittleEndian

/-! ### The code -/

/-- A return value other than zero, or an operation without a defined result. -/
inductive BqfcError
  | refused
  | undefined
  deriving DecidableEq, Repr

structure QfbC where
  a : Int
  t : Int
  g : Int
  b0 : Int
  b_sign : Bool
  deriving DecidableEq, Repr

def bqfcFormSize : Nat := (1024 + 31) / 32 * 3 + 4

/-- `mpz_tdiv_q` -/
def tdivQ (n d : Int) : Option Int := if d = 0 then none else some (n.tdiv d)

def bqfcCompr (a b : Int) : Except BqfcError QfbC :=
  if a = b then .ok ⟨a, 0, 0, 0, false⟩
  else if a < 0 then .error .undefined
  else do
    let sign := decide (b < 0)
    let s ← need .undefined (checkedXgcdPartial a |b| (Nat.sqrt a.toNat))
    let t := -s.co1
    let g : Int := Int.gcd a t
    if g = 1 then return ⟨a, t, g, 0, sign⟩
    else
      let a' ← need .undefined (divexact a g)
      let t ← need .undefined (divexact t g)
      let b0 ← need .undefined (tdivQ b a')
      return ⟨a', t, g, if sign then -b0 else b0, sign⟩

/-- `mpz_perfect_square_p` -/
def perfectSquare (x : Int) : Bool := decide (0 ≤ x ∧ Nat.sqrt x.toNat * Nat.sqrt x.toNat = x.toNat)

def bqfcDecompr (gcdext : Gcdext) (D : Int) (c : QfbC) : Except BqfcError (Int × Int) :=
  if c.t = 0 then .ok (c.a, c.a)
  else if c.a = 0 then .error .refused
  else
    let t := if c.t < 0 then c.t + c.a else c.t
    if (gcdext.run t c.a).1 ≠ 1 then .error .refused
    else
      let t_inv := (gcdext.run t c.a).2.1
      let t_inv := if t_inv < 0 then t_inv + c.a else t_inv
      let d := D.fmod c.a
      let tmp := (c.t ^ 2 % c.a * d).tmod c.a
      if perfectSquare tmp then
        let b := (Nat.sqrt tmp.toNat * t_inv).tmod c.a
        let b := if c.b0 > 0 then b + c.a * c.b0 else b
        .ok (if c.g > 1 then c.a * c.g else c.a, if c.b_sign then -b else b)
      else .error .refused

/-- `d_bits`, rounded up. -/
def roundedBits (d_bits : Nat) : Nat := (d_bits + 31) / 32 * 32

def gSize (g : Int) : Nat := (numBits g + 7) / 8 - 1

def bqfcSerializeOnly (out : Bytes) (c : QfbC) (d_bits : Nat) : Except BqfcError Bytes :=
  let d_bits := roundedBits d_bits
  let g_size := gSize c.g
  let flags := c.b_sign.toNat + if c.t < 0 then 2 else 0
  -- the width of the second field would wrap
  if d_bits / 32 < g_size then .error .undefined
  else need .undefined do
    let out ← write out 0 [UInt8.ofNat flags, UInt8.ofNat g_size]
    let offset := 2
    let out ← writeField out offset (d_bits / 16 - g_size) c.a.natAbs
    let offset := offset + (d_bits / 16 - g_size)
    let out ← writeField out offset (d_bits / 32 - g_size) c.t.natAbs
    let offset := offset + (d_bits / 32 - g_size)
    let out ← writeField out offset (g_size + 1) c.g.natAbs
    let offset := offset + (g_size + 1)
    writeField out offset (g_size + 1) c.b0.natAbs

/-- `mpz_import` of a field. -/
def readField (str : Bytes) (offset width : Nat) : Int := decode ((str.drop offset).take width)

def bqfcDeserializeOnly (str : Bytes) (d_bits : Nat) : Except BqfcError QfbC :=
  let d_bits := roundedBits d_bits
  let g_size := (str.getD 1 0).toNat
  if g_size ≥ d_bits / 32 then .error .refused
  else if str.length < 4 + d_bits / 16 + d_bits / 32 then .error .undefined
  else
    let flags := str.getD 0 0
    let offset_t := 2 + (d_bits / 16 - g_size)
    let offset_g := offset_t + (d_bits / 32 - g_size)
    let t := readField str offset_t (d_bits / 32 - g_size)
    .ok {
      a := readField str 2 (d_bits / 16 - g_size)
      t := if flags &&& 2 ≠ 0 then -t else t
      g := readField str offset_g (g_size + 1)
      b0 := readField str (offset_g + (g_size + 1)) (g_size + 1)
      b_sign := decide (flags &&& 1 ≠ 0) }

def bqfcGetComprSize (d_bits : Nat) : Nat := (d_bits + 31) / 32 * 3 + 4

def bqfcSerialize (out : Bytes) (a b : Int) (d_bits : Nat) : Except BqfcError Bytes :=
  let valid_size := bqfcGetComprSize d_bits
  if b = 1 ∧ a ≤ 2 then
    need .undefined (write out 0 ((if a = 2 then 8 else 4) :: List.replicate (bqfcFormSize - 1) 0))
  else do
    let c ← bqfcCompr a b
    let out ← bqfcSerializeOnly out c d_bits
    if bqfcFormSize < valid_size then throw .undefined
    need .undefined (write out valid_size (List.replicate (bqfcFormSize - valid_size) 0))

def bqfcVerifyCanon (a b : Int) (str : Bytes) (d_bits : Nat) : Except BqfcError Unit := do
  let canon_str ← bqfcSerialize (List.replicate bqfcFormSize 0) a b d_bits
  if canon_str ≠ str then throw .refused

def bqfcDeserialize (gcdext : Gcdext) (D : Int) (str : Bytes) (d_bits : Nat) :
    Except BqfcError (Int × Int) :=
  let flags := str.getD 0 0
  if str.length ≠ bqfcFormSize then .error .refused
  else if flags &&& 12 ≠ 0 then .ok (if flags &&& 8 ≠ 0 then 2 else 1, 1)
  else do
    let c ← bqfcDeserializeOnly str d_bits
    let ab ← bqfcDecompr gcdext D c
    bqfcVerifyCanon ab.1 ab.2 str d_bits
    return ab

/-- `is_reduced` -/
def formIsReduced (f : Form) : Bool :=
  decide ((f.a < f.c ∨ f.a = f.c ∧ f.b ≥ 0) ∧ (f.a.natAbs > f.b.natAbs ∨ f.a = f.b))

def deserializeForm (gcdext : Gcdext) (D : Int) (bytes : Bytes) : Except PyError Form :=
  match bqfcDeserialize gcdext D bytes (numBits D) with
  | .error .refused => .error (.runtimeError "Deserializing compressed form failed")
  | .error .undefined => .error .indexError
  | .ok ab => do
    let f ← fromAbd ab.1 ab.2 D
    if formIsReduced f then return f else throw (.runtimeError "Form is not reduced")

/-- The bytes that `SerializeForm` returns, whatever `bqfc_serialize` returns. -/
def serializedBytes (a b : Int) (d_bits : Nat) : Bytes :=
  match bqfcSerialize (List.replicate bqfcFormSize 0) a b d_bits with
  | .ok str => str
  | .error _ => List.replicate bqfcFormSize 0

/-! ### What is written -/

/-- `t * b` is congruent to a square root of `t * t * D` that is less than the root of `a`. -/
structure QfbC.Compresses (c : QfbC) (a b : Int) : Prop where
  a_pos : 0 < c.a
  g_pos : 0 < c.g
  a_eq : c.a * c.g = a
  t_ne : c.t ≠ 0
  t_le : |c.t| ≤ c.a
  coprime : IsCoprime c.t c.a
  root : ∃ r, 0 ≤ r ∧ r * r < c.a ∧ c.a ∣ r - c.t * |b|
  b0_nonneg : 0 ≤ c.b0
  b0_lt : c.b0 < c.g
  b0_eq : c.a * c.b0 + |b| % c.a = |b|
  b_sign : c.b_sign = decide (b < 0)
  g_sq : c.g * c.g ≤ a
  t_sq : (c.g * c.t) ^ 2 < 4 * a

section Compression

variable {a k L : Int}

theorem checkedXgcdPartial_of_le (ha : 0 ≤ a) (hk : k ≤ L) :
    checkedXgcdPartial a k L = some ⟨a, k, 0, -1⟩ := by
  have houter : checkedOuter L k.toNat ⟨a, k, 0, -1⟩ = some ⟨a, k, 0, -1⟩ := by
    cases k.toNat with
    | zero => rfl
    | succ fuel => rw [checkedOuter, if_neg (by dsimp only; omega)]
  rw [checkedXgcdPartial, houter]
  simp only [Option.bind_eq_bind, Option.bind_some]
  rw [if_neg (by omega)]
  rfl

variable {p : Nat} [hp : PrimeDiscriminant p] {f : Form}

omit hp in
theorem abs_b_lt (hf : f.Reduced (-p)) (hne : f.a ≠ f.b) : |f.b| < f.a := by
  have hlower := hf.lower
  have hupper := hf.upper
  exact abs_lt.mpr ⟨hlower, lt_of_le_of_ne hupper (Ne.symm hne)⟩

/-- The remainders do not end before: `a` and `b` have no common divisor. -/
theorem remainder_pos {s : Pair} (hf : f.Reduced (-p)) (hrem : Remainders f.a |f.b| s)
    (hb : 1 < |f.b|) (hlt : |f.b| < f.a) (hfar : f.a < 4 * (s.r2 * s.r2)) : 0 < s.r1 := by
  rcases hrem.nonneg.lt_or_eq with hpos | hzero
  · exact hpos
  exfalso
  have hr2 : 0 ≤ s.r2 := hrem.nonneg.trans hrem.le
  have hcross : ∃ m, f.a = s.r2 * m ∧ (m = s.co1 ∨ m = -s.co1) := by
    rcases hrem.cross with ⟨_, _, heq⟩ | ⟨_, _, heq⟩
    · exact ⟨s.co1, by rw [← hzero] at heq; linarith, Or.inl rfl⟩
    · exact ⟨-s.co1, by rw [← hzero] at heq; linarith, Or.inr rfl⟩
  obtain ⟨m, hm, hsign⟩ := hcross
  have hdvd : f.a ∣ |f.b| * m := by
    have hdvd1 := hrem.dvd1
    rw [← hzero, zero_add] at hdvd1
    rcases hsign with rfl | rfl
    · exact hdvd1
    · rw [mul_neg]
      exact hdvd1.neg_right
  have hm_ne : m ≠ 0 := by
    rintro rfl
    rw [mul_zero] at hm
    omega
  have hr2_dvd : s.r2 ∣ |f.b| := by
    rw [hm] at hdvd
    exact Int.dvd_of_mul_dvd_mul_right hm_ne hdvd
  have hunit : IsUnit s.r2 := hf.isCoprime.isUnit_of_dvd' (Dvd.intro m hm.symm) ((dvd_abs _ _).mp hr2_dvd)
  have hone : s.r2 = 1 := by
    rcases Int.isUnit_iff.mp hunit with h | h
    · exact h
    · omega
  rw [hone] at hfar
  obtain ⟨r, hr⟩ := hf.toPosDef.exists_odd
  rcases abs_cases f.b with ⟨h, _⟩ | ⟨h, _⟩
  · omega
  · omega

theorem exists_partial_remainder (hf : f.Reduced (-p)) (hne : f.a ≠ f.b) :
    ∃ s, checkedXgcdPartial f.a |f.b| (Nat.sqrt f.a.toNat) = some s ∧ Remainders f.a |f.b| s ∧
      0 < s.r1 ∧ s.r1 * s.r1 ≤ f.a ∧ s.co1 ^ 2 < 4 * f.a := by
  have ha := hf.a_pos
  have hlt := abs_b_lt hf hne
  have hb_pos : 0 < |f.b| := by
    obtain ⟨r, hr⟩ := hf.toPosDef.exists_odd
    rw [abs_pos]
    omega
  obtain ⟨L, hL⟩ : ∃ L : Int, L = Nat.sqrt f.a.toNat := ⟨_, rfl⟩
  have hroot : L * L ≤ f.a := by
    have hle := Nat.sqrt_le f.a.toNat
    rw [hL]
    omega
  have hsucc : f.a < (L + 1) * (L + 1) := by
    have hlt := Nat.lt_succ_sqrt f.a.toNat
    rw [Nat.succ_eq_add_one] at hlt
    zify at hlt
    rw [hL]
    omega
  have hL_pos : 0 < L := by nlinarith
  rw [← hL]
  rcases le_or_gt |f.b| L with hsmall | hlarge
  · refine ⟨_, checkedXgcdPartial_of_le ha.le hsmall, remainders_start hb_pos.le hlt.le, hb_pos, ?_, ?_⟩
    · dsimp only
      nlinarith
    · dsimp only
      omega
  · obtain ⟨s, hs, hrem, hle, hstart⟩ := checkedXgcdPartial_remainders hb_pos.le hlt.le hL_pos.le
    have hfar : L < 2 * s.r2 := by
      rcases hstart with rfl | hfar
      · dsimp only
        omega
      · exact hfar
    have hr1 := remainder_pos hf hrem (by omega) hlt (by nlinarith)
    refine ⟨s, hs, hrem, hr1, by nlinarith, ?_⟩
    have hco := hrem.mul_abs_co1_le
    have hnonneg := abs_nonneg s.co1
    have hprod : (L + 1) * |s.co1| ≤ 2 * f.a := by nlinarith
    have hsq : ((L + 1) * |s.co1|) ^ 2 ≤ (2 * f.a) ^ 2 := by
      apply pow_le_pow_left₀ (mul_nonneg (by omega) hnonneg) hprod
    rw [← sq_abs]
    by_contra hge
    have hmul : 4 * f.a * ((L + 1) * (L + 1)) ≤ |s.co1| ^ 2 * ((L + 1) * (L + 1)) :=
      mul_le_mul_of_nonneg_right (not_lt.mp hge) (by positivity)
    nlinarith

/-- The discriminant has no square factor, so the residue is less than the root of `a`. -/
theorem root_ne (hf : f.Reduced (-p)) (hne : f.a ≠ f.b) {a' t' g r : Int} (hg : 0 < g)
    (ha' : a' * g = f.a) (hcop : IsCoprime t' a') (hle : g * (r * r) ≤ a')
    (hdvd : a' ∣ r - t' * |f.b|) : r * r ≠ a' := by
  intro heq
  have ha := hf.a_pos
  have ha'_pos : 0 < a' := pos_of_mul_pos_left (ha' ▸ ha) hg.le
  have hg_one : g = 1 := by nlinarith
  have hdisc := hf.toPosDef.eq
  have hdvd_p : a' ∣ t' ^ 2 * (-p) := by
    have hsquares : t' ^ 2 * (-p) = a' - (r - t' * |f.b|) * (r + t' * |f.b|) - a' * (4 * t' ^ 2 * f.c) := by
      rw [hg_one, mul_one] at ha'
      have hsq : |f.b| ^ 2 = f.b ^ 2 := sq_abs _
      rw [ha']
      linear_combination (-t' ^ 2) * hdisc + ha' + heq - t' ^ 2 * hsq
    rw [hsquares]
    exact dvd_sub (dvd_sub (dvd_refl a') (hdvd.mul_right _)) (dvd_mul_right a' _)
  have hunit : IsUnit r := by
    apply squarefree_neg hp.prime r
    rw [heq]
    exact (hcop.symm.pow_right).dvd_of_dvd_mul_left hdvd_p
  have hone : a' = 1 := by
    rw [← heq]
    rcases Int.isUnit_iff.mp hunit with rfl | rfl
    · norm_num
    · norm_num
  rw [hone, hg_one] at ha'
  have hlt := abs_b_lt hf hne
  obtain ⟨j, hj⟩ := hf.toPosDef.exists_odd
  rcases abs_cases f.b with ⟨h, _⟩ | ⟨h, _⟩
  · omega
  · omega

/-- Both the cofactor and `a` are divided by their greatest common divisor. -/
theorem compresses_of_remainder {s : Pair} (hf : f.Reduced (-p)) (hne : f.a ≠ f.b)
    (hrem : Remainders f.a |f.b| s) (hr1 : 0 < s.r1) (hroot : s.r1 * s.r1 ≤ f.a)
    (hco : s.co1 ^ 2 < 4 * f.a) {a' t' g : Int} (hg : g = Int.gcd f.a (-s.co1)) (ha' : a' * g = f.a)
    (ht' : t' * g = -s.co1) :
    QfbC.Compresses ⟨a', t', g, |f.b| / a', decide (f.b < 0)⟩ f.a f.b := by
  have ha := hf.a_pos
  have hlt := abs_b_lt hf hne
  have hco_ne := hrem.co1_ne_zero
  have hg_pos : 0 < g := by
    rw [hg]
    exact_mod_cast Int.gcd_pos_of_ne_zero_left _ ha.ne'
  have ha'_pos : 0 < a' := pos_of_mul_pos_left (ha' ▸ ha) hg_pos.le
  have hdvd : f.a ∣ s.r1 - t' * g * |f.b| := by
    have heq : s.r1 - t' * g * |f.b| = s.r1 + |f.b| * s.co1 := by
      rw [ht']
      ring
    rw [heq]
    exact hrem.dvd1
  obtain ⟨r, hr⟩ : g ∣ s.r1 := by
    have h1 : g ∣ s.r1 - t' * g * |f.b| := (Dvd.intro_left a' ha').trans hdvd
    have h2 : g ∣ t' * g * |f.b| := (dvd_mul_left g t').mul_right _
    have hsum := dvd_add h1 h2
    rwa [sub_add_cancel] at hsum
  have hr_pos : 0 < r := pos_of_mul_pos_right (hr ▸ hr1) hg_pos.le
  have hdvd' : a' ∣ r - t' * |f.b| := by
    obtain ⟨m, hm⟩ := hdvd
    refine ⟨m, mul_left_cancel₀ hg_pos.ne' ?_⟩
    rw [hr, ← ha'] at hm
    linear_combination hm
  have hcop : IsCoprime t' a' := by
    rw [← ha', ← ht', Int.gcd_mul_right, Nat.cast_mul, Int.natAbs_of_nonneg hg_pos.le] at hg
    apply IsCoprime.symm
    rw [Int.isCoprime_iff_gcd_eq_one]
    exact_mod_cast (mul_eq_right₀ hg_pos.ne').mp hg.symm
  have hle : g * (r * r) ≤ a' := by
    apply le_of_mul_le_mul_left _ hg_pos
    calc g * (g * (r * r)) = s.r1 * s.r1 := by rw [hr]; ring
      _ ≤ f.a := hroot
      _ = g * a' := by rw [← ha', mul_comm]
  have hg_le : g ≤ s.r1 := by nlinarith
  refine ⟨ha'_pos, hg_pos, ha', ?_, ?_, hcop, ⟨r, hr_pos.le, ?_, hdvd'⟩, ?_, ?_, ?_, rfl, ?_, ?_⟩
  · rintro rfl
    rw [zero_mul] at ht'
    omega
  · have hbound := hrem.mul_abs_co1_le
    have hle_r2 := hrem.le
    have habs : |t'| * g = |s.co1| := by
      rw [← abs_of_pos hg_pos, ← abs_mul, ht', abs_neg]
    apply le_of_mul_le_mul_right _ hg_pos
    dsimp only
    rw [habs, ha']
    nlinarith [abs_nonneg s.co1]
  · exact lt_of_le_of_ne (by nlinarith) (root_ne hf hne hg_pos ha' hcop hle hdvd')
  · exact Int.ediv_nonneg (abs_nonneg _) ha'_pos.le
  · apply Int.ediv_lt_of_lt_mul ha'_pos
    rw [mul_comm, ha']
    exact hlt
  · exact Int.mul_ediv_add_emod _ _
  · nlinarith
  · dsimp only
    rw [mul_comm g, ht', neg_sq]
    exact hco

theorem tdiv_of_sign (b : Int) (a' : Int) :
    (if decide (b < 0) = true then -b.tdiv a' else b.tdiv a') = |b| / a' := by
  simp only [decide_eq_true_eq]
  split_ifs with hneg
  · rw [abs_of_neg hneg, ← Int.neg_tdiv, Int.tdiv_eq_ediv_of_nonneg (by omega)]
  · rw [abs_of_nonneg (by omega), Int.tdiv_eq_ediv_of_nonneg (by omega)]

/-- A reduced form is compressed. -/
theorem bqfcCompr_compresses (hf : f.Reduced (-p)) (hne : f.a ≠ f.b) :
    ∃ c, bqfcCompr f.a f.b = .ok c ∧ c.Compresses f.a f.b := by
  have ha := hf.a_pos
  obtain ⟨s, hs, hrem, hr1, hroot, hco⟩ := exists_partial_remainder hf hne
  have hspec : ∀ a' t' g : Int, g = Int.gcd f.a (-s.co1) → a' * g = f.a → t' * g = -s.co1 →
      QfbC.Compresses ⟨a', t', g, |f.b| / a', decide (f.b < 0)⟩ f.a f.b := by
    intro a' t' g hg ha' ht'
    exact compresses_of_remainder hf hne hrem hr1 hroot hco hg ha' ht'
  unfold bqfcCompr
  rw [if_neg hne, if_neg (by omega), hs, need_some, ok_bind]
  dsimp only
  by_cases hg : (Int.gcd f.a (-s.co1) : Int) = 1
  · have hzero : |f.b| / f.a = 0 := Int.ediv_eq_zero_of_lt (abs_nonneg _) (abs_b_lt hf hne)
    have hcompresses := hspec f.a (-s.co1) 1 hg.symm (mul_one _) (mul_one _)
    rw [hzero] at hcompresses
    rw [if_pos hg, hg]
    exact ⟨_, rfl, hcompresses⟩
  · obtain ⟨a', ha'⟩ : (Int.gcd f.a (-s.co1) : Int) ∣ f.a := Int.gcd_dvd_left f.a _
    obtain ⟨t', ht'⟩ : (Int.gcd f.a (-s.co1) : Int) ∣ -s.co1 := Int.gcd_dvd_right f.a _
    have hcompresses := hspec a' t' _ rfl (by rw [mul_comm, ← ha']) (by rw [mul_comm, ← ht'])
    have hg_ne : (Int.gcd f.a (-s.co1) : Int) ≠ 0 := hcompresses.g_pos.ne'
    have hdiv_a : divexact f.a (Int.gcd f.a (-s.co1)) = some a' := by
      nth_rewrite 1 [ha']
      exact divexact_mul hg_ne a'
    have hdiv_t : divexact (-s.co1) (Int.gcd f.a (-s.co1)) = some t' := by
      nth_rewrite 1 [ht']
      exact divexact_mul hg_ne t'
    have hquot : tdivQ f.b a' = some (f.b.tdiv a') := if_neg hcompresses.a_pos.ne'
    rw [if_neg hg, hdiv_a, need_some, ok_bind, hdiv_t, need_some, ok_bind, hquot, need_some, ok_bind,
      tdiv_of_sign]
    exact ⟨_, rfl, hcompresses⟩

end Compression

/-! ### What is read -/

/-- The cofactor has a bound as in the documentation of GMP. -/
structure BoundedGcdext extends Gcdext where
  bounded : ∀ a b, 0 ≤ a → 0 < b → |(run a b).2.1| ≤ b

def boundedEuclid : BoundedGcdext where
  run a b := if 0 < b then (Int.gcd a b, Int.gcdA a b % b, (Int.gcd a b - a * (Int.gcdA a b % b)) / b)
    else euclid.run a b
  gcd_eq a b := by
    split_ifs
    · rfl
    · exact euclid.gcd_eq a b
  bezout a b := by
    split_ifs with hb
    · have hdvd : b ∣ Int.gcd a b - a * (Int.gcdA a b % b) := by
        have hab := Int.gcd_eq_gcd_ab a b
        have hmod := Int.mul_ediv_add_emod (Int.gcdA a b) b
        refine ⟨Int.gcdB a b + a * (Int.gcdA a b / b), ?_⟩
        linear_combination hab - a * hmod
      dsimp only
      rw [Int.mul_ediv_cancel' hdvd]
      ring
    · exact euclid.bezout a b
  bounded a b _ hb := by
    have hlt := Int.emod_lt_of_pos (Int.gcdA a b) hb
    rw [if_pos hb, abs_of_nonneg (Int.emod_nonneg _ hb.ne')]
    exact hlt.le

section Decompression

theorem add_of_neg_nonneg {x m : Int} (h : |x| ≤ m) : 0 ≤ if x < 0 then x + m else x := by
  have hle := (abs_le.mp h).1
  split_ifs
  · omega
  · omega

theorem add_of_neg_modEq (x m : Int) : (if x < 0 then x + m else x) ≡ x [ZMOD m] := by
  split_ifs
  · exact Int.add_modulus_modEq_iff.mpr rfl
  · rfl

theorem perfectSquare_mul_self {r : Int} (hr : 0 ≤ r) : perfectSquare (r * r) = true := by
  unfold perfectSquare
  rw [decide_eq_true_eq, Int.toNat_mul hr hr, Nat.sqrt_eq]
  exact ⟨mul_nonneg hr hr, rfl⟩

section Inverse

variable (gcdext : BoundedGcdext) {t u m : Int}

theorem BoundedGcdext.gcd_eq_one (ht : t ≡ u [ZMOD m]) (hu : IsCoprime u m) :
    (gcdext.run t m).1 = 1 := by
  obtain ⟨k, hk⟩ := Int.modEq_iff_dvd.mp ht.symm
  have hcop : IsCoprime t m := by
    rw [show t = u + m * k by linarith]
    exact hu.add_mul_left_left k
  rw [gcdext.gcd_eq, Int.isCoprime_iff_gcd_eq_one.mp hcop]
  rfl

theorem BoundedGcdext.inverse_modEq (ht : t ≡ u [ZMOD m]) (hu : IsCoprime u m) :
    (if (gcdext.run t m).2.1 < 0 then (gcdext.run t m).2.1 + m else (gcdext.run t m).2.1) * u
      ≡ 1 [ZMOD m] := by
  have hbezout := gcdext.bezout t m
  rw [gcdext.gcd_eq_one ht hu] at hbezout
  have hone : (gcdext.run t m).2.1 * t ≡ 1 [ZMOD m] := by
    apply (Int.modEq_iff_dvd.mpr _)
    exact ⟨(gcdext.run t m).2.2, by linarith⟩
  exact ((add_of_neg_modEq _ m).mul ht.symm).trans hone

end Inverse

variable {a b D : Int} {c : QfbC}

namespace QfbC.Compresses

variable (h : c.Compresses a b) {r : Int} (hdvd : c.a ∣ r - c.t * |b|)

include h

include hdvd in
theorem square_eq (hD : a ∣ D - b ^ 2) (hr : 0 ≤ r) (hroot : r * r < c.a) :
    (c.t ^ 2 % c.a * D.fmod c.a).tmod c.a = r * r := by
  have ha' := h.a_pos
  have hroot_mod : r ≡ c.t * |b| [ZMOD c.a] := (Int.modEq_iff_dvd.mpr hdvd).symm
  have hdisc : D.fmod c.a ≡ |b| ^ 2 [ZMOD c.a] := by
    rw [Int.fmod_eq_emod_of_nonneg _ ha'.le, sq_abs]
    exact (Int.mod_modEq D c.a).trans (Int.modEq_iff_dvd.mpr ((Dvd.intro c.g h.a_eq).trans hD)).symm
  have hmod : c.t ^ 2 % c.a * D.fmod c.a ≡ r * r [ZMOD c.a] := by
    calc c.t ^ 2 % c.a * D.fmod c.a ≡ c.t ^ 2 * |b| ^ 2 [ZMOD c.a] :=
          (Int.mod_modEq _ _).mul hdisc
      _ = (c.t * |b|) * (c.t * |b|) := by ring
      _ ≡ r * r [ZMOD c.a] := (hroot_mod.mul hroot_mod).symm
  have hnonneg : 0 ≤ c.t ^ 2 % c.a * D.fmod c.a :=
    mul_nonneg (Int.emod_nonneg _ ha'.ne') (Int.fmod_nonneg_of_pos _ ha')
  rw [Int.tmod_eq_emod_of_nonneg hnonneg, hmod.eq, Int.emod_eq_of_lt (mul_nonneg hr hr) hroot]

omit h in
include hdvd in
theorem remainder_eq (hr : 0 ≤ r) {t_inv : Int} (hnonneg : 0 ≤ t_inv)
    (hinv : t_inv * c.t ≡ 1 [ZMOD c.a]) : (r * t_inv).tmod c.a = |b| % c.a := by
  have hroot_mod : r ≡ c.t * |b| [ZMOD c.a] := (Int.modEq_iff_dvd.mpr hdvd).symm
  rw [Int.tmod_eq_emod_of_nonneg (mul_nonneg hr hnonneg)]
  calc r * t_inv ≡ c.t * |b| * t_inv [ZMOD c.a] := hroot_mod.mul_right _
    _ = t_inv * c.t * |b| := by ring
    _ ≡ 1 * |b| [ZMOD c.a] := hinv.mul_right _
    _ = |b| := one_mul _

theorem restored_a : (if c.g > 1 then c.a * c.g else c.a) = a := by
  have hg := h.g_pos
  have ha_eq := h.a_eq
  split_ifs with hlt
  · exact ha_eq
  · rw [show c.g = 1 by omega, mul_one] at ha_eq
    exact ha_eq

theorem restored_abs_b : (if c.b0 > 0 then |b| % c.a + c.a * c.b0 else |b| % c.a) = |b| := by
  have hb0 := h.b0_nonneg
  have hb0_eq := h.b0_eq
  split_ifs with hpos
  · rw [add_comm]
    exact hb0_eq
  · rw [show c.b0 = 0 by omega, mul_zero, zero_add] at hb0_eq
    exact hb0_eq

theorem restored_sign : (if c.b_sign = true then -|b| else |b|) = b := by
  simp only [h.b_sign, decide_eq_true_eq]
  split_ifs with hneg
  · rw [abs_of_neg hneg, neg_neg]
  · exact abs_of_nonneg (not_lt.mp hneg)

end QfbC.Compresses

theorem bqfcDecompr_compresses (gcdext : BoundedGcdext) (h : c.Compresses a b) (hD : a ∣ D - b ^ 2) :
    bqfcDecompr gcdext.toGcdext D c = .ok (a, b) := by
  obtain ⟨r, hr, hroot, hdvd⟩ := h.root
  obtain ⟨t, ht⟩ : ∃ t, t = if c.t < 0 then c.t + c.a else c.t := ⟨_, rfl⟩
  have ht_nonneg : 0 ≤ t := by
    rw [ht]
    exact add_of_neg_nonneg h.t_le
  have ht_mod : t ≡ c.t [ZMOD c.a] := by
    rw [ht]
    exact add_of_neg_modEq c.t c.a
  have hgcd := gcdext.gcd_eq_one ht_mod h.coprime
  have hinv := gcdext.inverse_modEq ht_mod h.coprime
  have hinv_nonneg := add_of_neg_nonneg (gcdext.bounded t c.a ht_nonneg h.a_pos)
  have hsqrt : Nat.sqrt (r * r).toNat = r.toNat := by
    rw [Int.toNat_mul hr hr, Nat.sqrt_eq]
  unfold bqfcDecompr
  rw [if_neg h.t_ne, if_neg h.a_pos.ne']
  dsimp only
  rw [← ht, if_neg (not_not.mpr hgcd), h.square_eq hdvd hD hr hroot, if_pos (perfectSquare_mul_self hr),
    hsqrt, Int.toNat_of_nonneg hr, QfbC.Compresses.remainder_eq hdvd hr hinv_nonneg hinv, h.restored_a,
    h.restored_abs_b, h.restored_sign]

end Decompression

/-! ### The fields -/

/-- Every number fits its field, for at most `d_bits` bits. -/
structure QfbC.Fits (c : QfbC) (d_bits : Nat) : Prop where
  bits_le : d_bits ≤ 1024
  g_size_lt : gSize c.g < roundedBits d_bits / 32
  a_nonneg : 0 ≤ c.a
  a_lt : c.a.natAbs < 256 ^ (roundedBits d_bits / 16 - gSize c.g)
  t_lt : c.t.natAbs < 256 ^ (roundedBits d_bits / 32 - gSize c.g)
  g_nonneg : 0 ≤ c.g
  b0_nonneg : 0 ≤ c.b0
  b0_lt : c.b0.natAbs < 256 ^ (gSize c.g + 1)

def QfbC.flags (c : QfbC) : UInt8 := UInt8.ofNat (c.b_sign.toNat + if c.t < 0 then 2 else 0)

def QfbC.fields (c : QfbC) (d_bits : Nat) : Bytes :=
  let g_size := gSize c.g
  [c.flags, UInt8.ofNat g_size] ++ encode (roundedBits d_bits / 16 - g_size) c.a.natAbs ++
    encode (roundedBits d_bits / 32 - g_size) c.t.natAbs ++ encode (g_size + 1) c.g.natAbs ++
    encode (g_size + 1) c.b0.natAbs

section Fields

variable {c : QfbC} {d_bits : Nat} {out rest : Bytes}

theorem byteLength_g (g : Int) : byteLength g.natAbs ≤ gSize g + 1 := by
  unfold byteLength gSize numBits
  have := le_max_left g.natAbs.size 1
  omega

theorem roundedBits_div (d_bits : Nat) :
    roundedBits d_bits / 16 = 2 * (roundedBits d_bits / 32) ∧
      bqfcGetComprSize d_bits = 3 * (roundedBits d_bits / 32) + 4 := by
  unfold roundedBits bqfcGetComprSize
  omega

theorem QfbC.Fits.length_fields (h : c.Fits d_bits) :
    (c.fields d_bits).length = bqfcGetComprSize d_bits := by
  obtain ⟨hdiv, hsize⟩ := roundedBits_div d_bits
  have hlt := h.g_size_lt
  unfold QfbC.fields
  simp only [List.length_append, length_encode, List.length_cons, List.length_nil]
  omega

theorem QfbC.Fits.size_le (h : c.Fits d_bits) : bqfcGetComprSize d_bits ≤ bqfcFormSize := by
  have hle := h.bits_le
  unfold bqfcGetComprSize bqfcFormSize
  omega

theorem QfbC.flags_t (c : QfbC) : (if c.flags &&& 2 ≠ 0 then -|c.t| else |c.t|) = c.t := by
  rcases lt_or_ge c.t 0 with hneg | hnonneg
  · have hflag : c.flags &&& 2 ≠ 0 := by
      unfold QfbC.flags
      rw [if_pos hneg]
      cases c.b_sign <;> decide
    rw [if_pos hflag, abs_of_neg hneg, neg_neg]
  · have hflag : ¬ c.flags &&& 2 ≠ 0 := by
      unfold QfbC.flags
      rw [if_neg (not_lt.mpr hnonneg)]
      cases c.b_sign <;> decide
    rw [if_neg hflag, abs_of_nonneg hnonneg]

theorem QfbC.flags_b_sign (c : QfbC) : decide (c.flags &&& 1 ≠ 0) = c.b_sign := by
  unfold QfbC.flags
  split_ifs
  · cases c.b_sign <;> decide
  · cases c.b_sign <;> decide

theorem QfbC.flags_special (c : QfbC) : c.flags &&& 12 = 0 := by
  unfold QfbC.flags
  split_ifs
  · cases c.b_sign <;> decide
  · cases c.b_sign <;> decide

theorem bqfcSerializeOnly_eq (h : c.Fits d_bits) (hout : bqfcGetComprSize d_bits ≤ out.length) :
    bqfcSerializeOnly out c d_bits =
      .ok (c.fields d_bits ++ out.drop (bqfcGetComprSize d_bits)) := by
  obtain ⟨hdiv, hsize⟩ := roundedBits_div d_bits
  have hlt := h.g_size_lt
  have hg := byteLength_le_iff.mp (byteLength_g c.g)
  unfold bqfcSerializeOnly
  dsimp only
  rw [if_neg (by omega)]
  obtain ⟨head, hhead⟩ : ∃ head, head = [c.flags, UInt8.ofNat (gSize c.g)] := ⟨_, rfl⟩
  have hstart : write out 0 head = some (head ++ out.drop 2) := by
    rw [hhead]
    exact write_zero (by simp only [List.length_cons, List.length_nil]; omega)
  rw [QfbC.flags] at hhead
  rw [← hhead, hstart]
  have hlen : head.length = 2 := by rw [hhead]; rfl
  simp only [Option.bind_eq_bind, Option.bind_some]
  rw [writeField_append hlen h.a_lt (by rw [List.length_drop]; omega), Option.bind_some,
    writeField_append (by simp only [List.length_append, length_encode]; omega) h.t_lt
      (by simp only [List.length_drop]; omega), Option.bind_some,
    writeField_append (by simp only [List.length_append, length_encode]; omega) hg
      (by simp only [List.length_drop]; omega), Option.bind_some,
    writeField_append (by simp only [List.length_append, length_encode]; omega) h.b0_lt
      (by simp only [List.length_drop]; omega), need_some]
  simp only [List.drop_drop]
  rw [QfbC.fields, hhead]
  congr 3
  omega

theorem bqfcDeserializeOnly_eq (h : c.Fits d_bits) :
    bqfcDeserializeOnly (c.fields d_bits ++ rest) d_bits = .ok c := by
  obtain ⟨hdiv, hsize⟩ := roundedBits_div d_bits
  have hlt := h.g_size_lt
  have hg := byteLength_le_iff.mp (byteLength_g c.g)
  have hbytes : (UInt8.ofNat (gSize c.g)).toNat = gSize c.g := by
    have hle := h.bits_le
    apply UInt8.toNat_ofNat_of_lt'
    unfold roundedBits at hlt
    show gSize c.g < 256
    omega
  have hlength := h.length_fields
  obtain ⟨head, hhead⟩ : ∃ head, head = [c.flags, UInt8.ofNat (gSize c.g)] := ⟨_, rfl⟩
  have hlen : head.length = 2 := by rw [hhead]; rfl
  have hfields : c.fields d_bits = head ++ encode (roundedBits d_bits / 16 - gSize c.g) c.a.natAbs ++
      encode (roundedBits d_bits / 32 - gSize c.g) c.t.natAbs ++ encode (gSize c.g + 1) c.g.natAbs ++
      encode (gSize c.g + 1) c.b0.natAbs := by
    rw [hhead]
    rfl
  have hflags : (c.fields d_bits ++ rest).getD 0 0 = c.flags := rfl
  have hsecond : ((c.fields d_bits ++ rest).getD 1 0).toNat = gSize c.g := hbytes
  have hread_a : readField (c.fields d_bits ++ rest) 2 (roundedBits d_bits / 16 - gSize c.g) = c.a := by
    rw [hfields, readField]
    simp only [List.append_assoc]
    rw [← List.append_assoc, decode_field hlen h.a_lt, Int.natAbs_of_nonneg h.a_nonneg]
  have hread_t : readField (c.fields d_bits ++ rest) (2 + (roundedBits d_bits / 16 - gSize c.g))
      (roundedBits d_bits / 32 - gSize c.g) = |c.t| := by
    rw [hfields, readField, List.append_assoc, List.append_assoc,
      decode_field (by simp only [List.length_append, length_encode]; omega) h.t_lt, Int.natCast_natAbs]
  have hread_g : readField (c.fields d_bits ++ rest) (2 + (roundedBits d_bits / 16 - gSize c.g) +
      (roundedBits d_bits / 32 - gSize c.g)) (gSize c.g + 1) = c.g := by
    rw [hfields, readField, List.append_assoc,
      decode_field (by simp only [List.length_append, length_encode]; omega) hg,
      Int.natAbs_of_nonneg h.g_nonneg]
  have hread_b0 : readField (c.fields d_bits ++ rest) (2 + (roundedBits d_bits / 16 - gSize c.g) +
      (roundedBits d_bits / 32 - gSize c.g) + (gSize c.g + 1)) (gSize c.g + 1) = c.b0 := by
    rw [hfields, readField,
      decode_field (by simp only [List.length_append, length_encode]; omega) h.b0_lt,
      Int.natAbs_of_nonneg h.b0_nonneg]
  unfold bqfcDeserializeOnly
  dsimp only
  rw [hsecond, if_neg (by omega), if_neg (by rw [List.length_append]; omega), hflags, hread_a,
    hread_t, hread_g, hread_b0, c.flags_t, c.flags_b_sign]

/-- The last field is padded to the end of the buffer, whatever it held before. -/
theorem bqfcSerialize_eq {a b : Int} (hspecial : ¬(b = 1 ∧ a ≤ 2)) (hc : bqfcCompr a b = .ok c)
    (h : c.Fits d_bits) (hout : out.length = bqfcFormSize) : bqfcSerialize out a b d_bits =
      .ok (c.fields d_bits ++ List.replicate (bqfcFormSize - bqfcGetComprSize d_bits) 0) := by
  have hsize := h.size_le
  unfold bqfcSerialize
  dsimp only
  rw [if_neg hspecial, hc, ok_bind, bqfcSerializeOnly_eq h (by omega), ok_bind, if_neg (by omega),
    write_append h.length_fields (by rw [List.length_replicate, List.length_drop]; omega),
    List.drop_drop, List.length_replicate, List.drop_eq_nil_of_le (by omega), List.append_nil]
  rfl

theorem bqfcSerialize_special {a b : Int} (hspecial : b = 1 ∧ a ≤ 2)
    (hout : out.length = bqfcFormSize) : bqfcSerialize out a b d_bits =
      .ok ((if a = 2 then 8 else 4) :: List.replicate (bqfcFormSize - 1) 0) := by
  unfold bqfcSerialize
  dsimp only
  rw [if_pos hspecial, write_all (by rw [hout]; rfl), need_some]

end Fields

/-! ### Which forms fit -/

/-- The cofactor of the form fits its field. -/
def CofactorFits (f : Form) (d_bits : Nat) : Prop :=
  ∀ c, bqfcCompr f.a f.b = .ok c → c.t.natAbs < 256 ^ (roundedBits d_bits / 32 - gSize c.g)

section Sizes

variable {p : Nat} [hp : PrimeDiscriminant p] {f : Form} {c : QfbC}

omit hp in
theorem three_mul_sq_lt (hf : f.Reduced (-p)) : 3 * f.a ^ 2 < 2 ^ numBits (-p) := by
  have hle := hf.three_mul_sq_le
  have hlt := lt_two_pow_numBits (x := (p : Int)) (Int.natCast_nonneg p)
  have hbits : numBits (-p) = numBits (p : Int) := by
    rw [numBits, numBits, Int.natAbs_neg]
  rw [hbits]
  linarith

theorem two_pow_le_rounded (d_bits : Nat) :
    (2 : Int) ^ d_bits ≤ (256 ^ (2 * (roundedBits d_bits / 32))) ^ 2 := by
  have hpow : ((256 : Int) ^ (2 * (roundedBits d_bits / 32))) ^ 2 =
      2 ^ (32 * (roundedBits d_bits / 32)) := by
    rw [show (256 : Int) = 2 ^ 8 by norm_num, ← pow_mul, ← pow_mul]
    congr 1
    omega
  rw [hpow]
  apply pow_le_pow_right₀ one_le_two
  unfold roundedBits
  omega

omit hp in
theorem a_lt_of_reduced (hf : f.Reduced (-p)) :
    f.a < 256 ^ (2 * (roundedBits (numBits (-p)) / 32)) := by
  have ha := hf.a_pos
  have hlt := (three_mul_sq_lt hf).trans_le (two_pow_le_rounded _)
  apply lt_of_pow_lt_pow_left₀ 2 (by positivity)
  nlinarith

theorem gSize_zero : gSize 0 = 0 := by simp [gSize, numBits]

theorem pow_gSize_le {g : Int} (hg : 0 < g) : (256 : Int) ^ gSize g ≤ g := by
  have hlt : gSize g < byteLength g.natAbs := by
    have hsize : 0 < g.natAbs.size := Nat.size_pos.mpr (by omega)
    unfold gSize numBits byteLength
    omega
  have hle := pow_le_of_lt_byteLength hlt
  zify at hle
  rwa [abs_of_pos hg] at hle

theorem lt_pow_of_mul_lt {x g : Int} {n : Nat} (hg : 0 < g) (hx : 0 ≤ x)
    (hn : gSize g ≤ n) (hlt : x * g < 256 ^ n) : x < 256 ^ (n - gSize g) := by
  have hle := pow_gSize_le hg
  have hsplit : (256 : Int) ^ (n - gSize g) * 256 ^ gSize g = 256 ^ n := by
    rw [← pow_add, Nat.sub_add_cancel hn]
  by_contra hge
  have hmul : (256 : Int) ^ (n - gSize g) * 256 ^ gSize g ≤ x * g :=
    mul_le_mul (not_lt.mp hge) hle (by positivity) hx
  omega

theorem QfbC.Compresses.gSize_lt {a b : Int} (h : c.Compresses a b) {m : Nat} (ha : a < 256 ^ (2 * m)) :
    gSize c.g < m := by
  have hle := pow_gSize_le h.g_pos
  have hsq := h.g_sq
  by_contra hge
  have hpow : (256 : Int) ^ m ≤ 256 ^ gSize c.g := pow_le_pow_right₀ (by norm_num) (not_lt.mp hge)
  have hmul : (256 : Int) ^ (2 * m) = 256 ^ m * 256 ^ m := by rw [two_mul, pow_add]
  have hprod : (256 : Int) ^ m * 256 ^ m ≤ c.g * c.g :=
    mul_le_mul (hpow.trans hle) (hpow.trans hle) (by positivity) h.g_pos.le
  omega

theorem natAbs_lt_pow {x : Int} {n : Nat} (h : |x| < 256 ^ n) : x.natAbs < 256 ^ n := by
  zify
  exact h

theorem fits_of_cofactor (hf : f.Reduced (-p)) (hbits : numBits (-p) ≤ 1024)
    (hc : bqfcCompr f.a f.b = .ok c) (ht : CofactorFits f (numBits (-p))) : c.Fits (numBits (-p)) := by
  obtain ⟨hdiv, _⟩ := roundedBits_div (numBits (-p))
  obtain ⟨m, hm⟩ : ∃ m, m = roundedBits (numBits (-p)) / 32 := ⟨_, rfl⟩
  have ha := hf.a_pos
  have hlt := a_lt_of_reduced hf
  have hcofactor := ht c hc
  by_cases hne : f.a = f.b
  · have heq : c = ⟨f.a, 0, 0, 0, false⟩ := by
      rw [bqfcCompr, if_pos hne] at hc
      exact (Except.ok.inj hc).symm
    rw [heq] at hcofactor ⊢
    refine ⟨hbits, ?_, ha.le, ?_, hcofactor, le_rfl, le_rfl, by norm_num⟩
    · have hpos : 1 ≤ numBits (-p) := le_max_right _ _
      dsimp only
      rw [gSize_zero]
      unfold roundedBits
      omega
    · apply natAbs_lt_pow
      dsimp only
      rw [abs_of_pos ha, hdiv, gSize_zero]
      exact hlt
  · obtain ⟨c', hc', h⟩ := bqfcCompr_compresses hf hne
    rw [hc] at hc'
    cases hc'
    have hg_lt := h.gSize_lt hlt
    refine ⟨hbits, hg_lt, h.a_pos.le, ?_, hcofactor, h.g_pos.le, h.b0_nonneg, ?_⟩
    · apply natAbs_lt_pow
      rw [abs_of_pos h.a_pos, hdiv]
      apply lt_pow_of_mul_lt h.g_pos h.a_pos.le (by omega)
      rw [h.a_eq]
      exact hlt
    · have hg := byteLength_le_iff.mp (byteLength_g c.g)
      have hb0 := h.b0_lt
      have hb0_nonneg := h.b0_nonneg
      omega

theorem cofactorFits_of_le (hf : f.Reduced (-p))
    (ha : 4 * f.a ≤ 256 ^ (2 * (roundedBits (numBits (-p)) / 32))) :
    CofactorFits f (numBits (-p)) := by
  intro c hc
  obtain ⟨m, hm⟩ : ∃ m, m = roundedBits (numBits (-p)) / 32 := ⟨_, rfl⟩
  have hlt := a_lt_of_reduced hf
  rw [← hm] at ha hlt ⊢
  by_cases hne : f.a = f.b
  · have heq : c = ⟨f.a, 0, 0, 0, false⟩ := by
      rw [bqfcCompr, if_pos hne] at hc
      exact (Except.ok.inj hc).symm
    rw [heq]
    exact Nat.pow_pos (by norm_num)
  · obtain ⟨c', hc', h⟩ := bqfcCompr_compresses hf hne
    rw [hc] at hc'
    cases hc'
    apply natAbs_lt_pow
    apply lt_pow_of_mul_lt h.g_pos (abs_nonneg _) (h.gSize_lt hlt).le
    have hsq : (|c.t| * c.g) ^ 2 < (256 ^ m) ^ 2 := by
      have hpow : ((256 : Int) ^ m) ^ 2 = 256 ^ (2 * m) := by rw [← pow_mul, mul_comm]
      rw [hpow, mul_pow, sq_abs, ← mul_pow, mul_comm]
      exact h.t_sq.trans_le ha
    exact lt_of_pow_lt_pow_left₀ 2 (by positivity) hsq

theorem cofactorFits_of_bits (hf : f.Reduced (-p))
    (hbits : numBits (-p) + 3 ≤ roundedBits (numBits (-p))) : CofactorFits f (numBits (-p)) := by
  apply cofactorFits_of_le hf
  have hlt := three_mul_sq_lt hf
  have hpow : ((256 : Int) ^ (2 * (roundedBits (numBits (-p)) / 32))) ^ 2 =
      2 ^ roundedBits (numBits (-p)) := by
    rw [show (256 : Int) = 2 ^ 8 by norm_num, ← pow_mul, ← pow_mul]
    congr 1
    unfold roundedBits
    omega
  have hle : (2 : Int) ^ (numBits (-p) + 3) ≤ 2 ^ roundedBits (numBits (-p)) :=
    pow_le_pow_right₀ one_le_two hbits
  rw [← hpow, pow_add] at hle
  have ha := hf.a_pos
  apply (pow_le_pow_iff_left₀ (by omega) (by positivity) two_ne_zero).mp
  nlinarith

end Sizes

/-! ### Round trip -/

section RoundTrip

variable {p : Nat} [hp : PrimeDiscriminant p] {f : Form} {c : QfbC} {d_bits : Nat}

theorem exists_bqfcCompr (gcdext : BoundedGcdext) (hf : f.Reduced (-p)) : ∃ c, bqfcCompr f.a f.b = .ok c ∧
    bqfcDecompr gcdext.toGcdext (-p) c = .ok (f.a, f.b) := by
  by_cases hne : f.a = f.b
  · refine ⟨⟨f.a, 0, 0, 0, false⟩, by rw [bqfcCompr, if_pos hne], ?_⟩
    rw [bqfcDecompr, if_pos rfl, ← hne]
  · obtain ⟨c, hc, hcompresses⟩ := bqfcCompr_compresses hf hne
    refine ⟨c, hc, bqfcDecompr_compresses gcdext hcompresses ?_⟩
    have hdisc := hf.toPosDef.eq
    exact ⟨-(4 * f.c), by linarith⟩

/-- What is written is read back, if the fields are wide enough. -/
theorem bqfcDeserialize_serialize (gcdext : BoundedGcdext) (hf : f.Reduced (-p))
    (hfits : ∀ c, bqfcCompr f.a f.b = .ok c → c.Fits d_bits) (out : Bytes)
    (hout : out.length = bqfcFormSize) : ∃ str, bqfcSerialize out f.a f.b d_bits = .ok str ∧
      bqfcDeserialize gcdext.toGcdext (-p) str d_bits = .ok (f.a, f.b) := by
  have hcanon : (List.replicate bqfcFormSize (0 : UInt8)).length = bqfcFormSize := List.length_replicate
  by_cases hspecial : f.b = 1 ∧ f.a ≤ 2
  · refine ⟨_, bqfcSerialize_special hspecial hout, ?_⟩
    have ha := hf.a_pos
    unfold bqfcDeserialize
    dsimp only
    by_cases htwo : f.a = 2
    · rw [if_pos htwo, hspecial.1, htwo]
      rfl
    · rw [if_neg htwo, hspecial.1, show f.a = 1 by omega]
      rfl
  · obtain ⟨c, hc, hdecompr⟩ := exists_bqfcCompr gcdext hf
    have hfit := hfits c hc
    have hsize := hfit.size_le
    refine ⟨_, bqfcSerialize_eq hspecial hc hfit hout, ?_⟩
    have hlength : (c.fields d_bits ++
        List.replicate (bqfcFormSize - bqfcGetComprSize d_bits) 0).length = bqfcFormSize := by
      rw [List.length_append, hfit.length_fields, List.length_replicate]
      omega
    have hflags : (c.fields d_bits ++
        List.replicate (bqfcFormSize - bqfcGetComprSize d_bits) 0).getD 0 0 = c.flags := rfl
    unfold bqfcDeserialize
    dsimp only
    rw [if_neg (not_not.mpr hlength), hflags, if_neg (not_not.mpr c.flags_special),
      bqfcDeserializeOnly_eq hfit, ok_bind, hdecompr, ok_bind]
    unfold bqfcVerifyCanon
    rw [bqfcSerialize_eq hspecial hc hfit hcanon, ok_bind, if_neg (not_not.mpr rfl)]
    rfl

theorem formIsReduced_of_reduced {D : Int} (hf : f.Reduced D) : formIsReduced f = true := by
  have ha := hf.a_pos
  have hlower := hf.lower
  have hupper := hf.upper
  have horder := hf.order
  unfold formIsReduced
  rw [decide_eq_true_eq]
  omega

theorem deserializeForm_serialized (gcdext : BoundedGcdext) (hf : f.Reduced (-p))
    (hbits : numBits (-p) ≤ 1024) (ht : CofactorFits f (numBits (-p))) :
    (serializedBytes f.a f.b (numBits (-p))).length = bqfcFormSize ∧
      deserializeForm gcdext.toGcdext (-p) (serializedBytes f.a f.b (numBits (-p))) = .ok f := by
  obtain ⟨str, hstr, hread⟩ := bqfcDeserialize_serialize gcdext hf
    (fun c hc => fits_of_cofactor hf hbits hc ht) (List.replicate bqfcFormSize 0)
    List.length_replicate
  have hlength : str.length = bqfcFormSize := by
    by_contra hne
    rw [bqfcDeserialize, if_pos hne] at hread
    cases hread
  have hclass : HasClass ⟨f.a, f.b, f.c⟩ (⟨f, hf⟩ : ReducedForm p) := hasClass_form ⟨f, hf⟩
  unfold serializedBytes deserializeForm
  rw [hstr]
  dsimp only
  rw [hread]
  dsimp only
  rw [fromAbd_eq hclass, ok_bind, if_pos (formIsReduced_of_reduced hf)]
  exact ⟨hlength, rfl⟩

/-- `SerializeForm` and `DeserializeForm` are inverse to each other on the class group, for every
discriminant whose size leaves room for the cofactors and for every form whose cofactor is small. -/
theorem serializeForm_round_trip (gcdext : BoundedGcdext) {x : ReducedForm p} (h : HasClass f x)
    (hbits : numBits (-p) ≤ 1024) (ht : CofactorFits x.form (numBits (-p)) ∨
      4 * x.form.a ≤ 256 ^ (2 * (roundedBits (numBits (-p)) / 32)) ∨
        numBits (-p) + 3 ≤ roundedBits (numBits (-p))) :
    ∃ str, serializeForm serializedBytes f (numBits (-p)) = .ok (str, x.form) ∧
      str.length = bqfcFormSize ∧ deserializeForm gcdext.toGcdext (-p) str = .ok x.form := by
  have hfits : CofactorFits x.form (numBits (-p)) := by
    rcases ht with hfits | hsmall | hroom
    · exact hfits
    · exact cofactorFits_of_le x.reduced hsmall
    · exact cofactorFits_of_bits x.reduced hroom
  exact ⟨_, serializeForm_class h _, deserializeForm_serialized gcdext x.reduced hbits hfits⟩

/-- A form of discriminant `-23`, which is compressed. -/
theorem serializeForm_round_trip_23 : ∃ str, serializeForm serializedBytes ⟨2, -1, 3⟩ 5 =
    .ok (str, ⟨2, -1, 3⟩) ∧ deserializeForm boundedEuclid.toGcdext (-23) str = .ok ⟨2, -1, 3⟩ := by
  have : PrimeDiscriminant 23 := ⟨by norm_num, by norm_num⟩
  have hreduced : Reduced (-(23 : Nat)) ⟨2, -1, 3⟩ :=
    ⟨⟨by decide, by decide⟩, by decide, by decide, by decide⟩
  have hbits : numBits (-(23 : Nat)) = 5 := by decide +kernel
  obtain ⟨str, hstr, _, hread⟩ := serializeForm_round_trip boundedEuclid
    (hasClass_form ⟨_, hreduced⟩) (by rw [hbits]; norm_num)
    (Or.inr (Or.inr (by rw [hbits]; decide)))
  rw [hbits] at hstr
  exact ⟨str, hstr, hread⟩

end RoundTrip

/-! ### What is accepted -/

section Accepted

variable {gcdext : Gcdext} {D a b : Int} {f : Form} {bytes : Bytes}

theorem fromAbd_cases (hD : D < 0) (a b : Int) :
    fromAbd a b D = .error (.runtimeError "Invalid form. Positive a") ∨
      fromAbd a b D = .error (.runtimeError "Invalid form. Can't find c.") ∨
        ∃ f, fromAbd a b D = .ok f ∧ f.Reduced D := by
  unfold fromAbd
  split_ifs with ha hdvd
  · exact Or.inl rfl
  · exact Or.inr (Or.inl rfl)
  · right
    right
    obtain ⟨c, hc⟩ := Int.dvd_of_emod_eq_zero (not_not.mp hdvd)
    have hdisc : (⟨a, b, c⟩ : Form).discriminant = D := by
      simp only [discriminant]
      linear_combination hc
    obtain ⟨g, hreduce, hg⟩ := exists_reducedForm (f := ⟨a, b, c⟩) (not_le.mp ha) (hdisc ▸ hD)
    rw [hdisc] at hg
    rw [hc, floorDiv_mul (by omega), ok_bind]
    exact ⟨g, reduce_eq hreduce hg, hg⟩

/-- The bytes that stand for a form: canonical ones, or any with a flag. -/
def StandFor (bytes : Bytes) (a b : Int) (d_bits : Nat) : Prop :=
  bytes.length = bqfcFormSize ∧ (bytes.getD 0 0 &&& 12 ≠ 0 ∧ b = 1 ∧ (a = 1 ∨ a = 2) ∨
    bqfcSerialize (List.replicate bqfcFormSize 0) a b d_bits = .ok bytes)

theorem bqfcDeserialize_standFor {d_bits : Nat} {ab : Int × Int}
    (h : bqfcDeserialize gcdext D bytes d_bits = .ok ab) : StandFor bytes ab.1 ab.2 d_bits := by
  unfold bqfcDeserialize at h
  dsimp only at h
  by_cases hlength : bytes.length ≠ bqfcFormSize
  · rw [if_pos hlength] at h
    cases h
  refine ⟨not_not.mp hlength, ?_⟩
  rw [if_neg hlength] at h
  by_cases hflags : bytes.getD 0 0 &&& 12 ≠ 0
  · left
    rw [if_pos hflags] at h
    cases h
    refine ⟨hflags, rfl, ?_⟩
    dsimp only
    split_ifs
    · exact Or.inr rfl
    · exact Or.inl rfl
  · right
    rw [if_neg hflags] at h
    obtain ⟨c, _, h⟩ := bind_eq_ok_iff.mp h
    obtain ⟨ab', _, h⟩ := bind_eq_ok_iff.mp h
    obtain ⟨_, hcanon, h⟩ := bind_eq_ok_iff.mp h
    cases h
    obtain ⟨canon_str, hcanon_str, hcmp⟩ := bind_eq_ok_iff.mp hcanon
    by_cases heq : canon_str = bytes
    · rw [← heq]
      exact hcanon_str
    · rw [if_pos heq] at hcmp
      cases hcmp

theorem deserializeForm_reduced (hD : D < 0) (h : deserializeForm gcdext D bytes = .ok f) :
    f.Reduced D := by
  unfold deserializeForm at h
  split at h
  · cases h
  · cases h
  · rename_i ab _
    rcases fromAbd_cases hD ab.1 ab.2 with hform | hform | ⟨g, hform, hg⟩
    · rw [hform] at h
      cases h
    · rw [hform] at h
      cases h
    · rw [hform, ok_bind, if_pos (formIsReduced_of_reduced hg)] at h
      cases h
      exact hg

/-- What is accepted is a reduced form, and the bytes stand for some form of its class. The check
for a reduced form comes after a reduction and never fails. -/
theorem deserializeForm_accepts (gcdext : Gcdext) (hD : D < 0) (bytes : Bytes) :
    (∀ f, deserializeForm gcdext D bytes = .ok f → f.Reduced D ∧
      ∃ a b, fromAbd a b D = .ok f ∧ StandFor bytes a b (numBits D)) ∧
      deserializeForm gcdext D bytes ≠ .error (.runtimeError "Form is not reduced") := by
  unfold deserializeForm
  cases hread : bqfcDeserialize gcdext D bytes (numBits D) with
  | error e =>
    cases e with
    | refused =>
      constructor
      · intro f h
        cases h
      · simp
    | undefined =>
      constructor
      · intro f h
        cases h
      · simp
  | ok ab =>
    dsimp only
    rcases fromAbd_cases hD ab.1 ab.2 with hform | hform | ⟨g, hform, hg⟩
    · rw [hform]
      constructor
      · intro f h
        cases h
      · simp [bind, Except.bind]
    · rw [hform]
      constructor
      · intro f h
        cases h
      · simp [bind, Except.bind]
    · rw [hform, ok_bind, if_pos (formIsReduced_of_reduced hg)]
      constructor
      · intro f h
        cases h
        exact ⟨hg, ab.1, ab.2, hform, bqfcDeserialize_standFor hread⟩
      · intro h
        cases h

/-- The bytes of the form with `a = 3` stand for a form that is not reduced. -/
theorem deserializeForm_accepts_23 : ∃ a b, fromAbd a b (-23) = .ok ⟨2, -1, 3⟩ ∧
    StandFor (serializedBytes 3 1 5) a b (numBits (-23)) := by
  have hread : deserializeForm euclid (-23) (serializedBytes 3 1 5) = .ok ⟨2, -1, 3⟩ := by
    decide +kernel
  have hneg : (-23 : Int) < 0 := by norm_num
  obtain ⟨haccepts, _⟩ := deserializeForm_accepts euclid hneg (serializedBytes 3 1 5)
  exact (haccepts _ hread).2

end Accepted

end Lootbox.Chiavdf

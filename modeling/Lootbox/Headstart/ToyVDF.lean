import Lootbox.Base.ExponentQuotient
import Lootbox.Headstart.HashToGroup

/-!
# `vdf/toy_vdf.py`: the delay functions over class groups

A proof that `y` is `g` squared `T` times, and one proof for many such statements.
-/

namespace Lootbox.Headstart

open ExponentQuotient ReducedForm

/-! ### Forms as bytes -/

/-- `int(v).to_bytes(length, "big", signed=True)` -/
def intToBytes (v : Int) (length : Nat) : Except PyError Bytes :=
  if -(256 ^ length) ≤ 2 * v ∧ 2 * v < 256 ^ length then
    .ok (toBytes length (v % 256 ^ length).toNat)
  else .error .overflowError

def qfToBytes (x : BinaryQF) (b : Nat) : Except PyError Bytes := do
  let r ← [x.a, x.b, x.c].mapM (intToBytes · (b / 8))
  return r.flatten

/-! ### One statement -/

section Single

variable (H : Hashes) (gcdext : Gcdext)

/-- `compute_proof`: `g` to the quotient of `2 ** T` by `l`. -/
def computeProof (g : BinaryQF) (l T : Nat) : Except PyError BinaryQF := do
  let (x, _) ← repeatM (fun ((x, r) : BinaryQF × Int) => do
    let b ← floorDiv (2 * r) l
    let r ← floorMod (2 * r) l
    let xx ← x.mul gcdext x
    let gb ← qfPow gcdext g b.toNat
    let x ← xx.mul gcdext gb
    let x ← x.reducedForm
    return (x, r)) T (getQfPrincipalForm g.discriminant, 1)
  return x

def vdfEval (g : BinaryQF) (T : Nat) : Except PyError BinaryQF := do
  let g ← g.reducedForm
  let y ← repeatM (fun y => do
    let yy ← y.mul gcdext y
    yy.reducedForm) T g
  y.reducedForm

/-- The prime that `g` and `y` are hashed to. -/
def vdfChallenge (bits : Nat) (g y : BinaryQF) : Except PyError Nat := do
  let gBytes ← qfToBytes g bits
  let yBytes ← qfToBytes y bits
  H.hP (gBytes ++ yBytes) bits

def vdfProve (bits : Nat) (g : BinaryQF) (T : Nat) (y : BinaryQF) : Except PyError BinaryQF := do
  let l ← vdfChallenge H bits g y
  computeProof gcdext g l T

/-- `pi ** l * g ** (2 ** T % l)`, reduced. -/
def proofPower (pi g : BinaryQF) (l T : Nat) : Except PyError BinaryQF := do
  let r := powMod 2 T l
  let pil ← qfPow gcdext pi l
  let gr ← qfPow gcdext g r.toNat
  let lhs ← pil.mul gcdext gr
  lhs.reducedForm

def vdfVerify (bits : Nat) (g y pi : BinaryQF) (T : Nat) : Except PyError Bool := do
  let g ← g.reducedForm
  let y ← y.reducedForm
  let l ← vdfChallenge H bits g y
  let lhs ← proofPower gcdext pi g l T
  return lhs == y

structure ToyProof where
  d : Int
  g : BinaryQF
  y : BinaryQF
  pi : BinaryQF
  deriving DecidableEq, Repr

structure ToyVDF where
  bits : Nat
  T : Nat
  deriving DecidableEq, Repr

namespace ToyVDF

variable (self : ToyVDF)

def evalAndProve (challenge : Bytes) : Except PyError ToyProof := do
  let d ← H.hD challenge self.bits
  let g ← H.hQF challenge d self.bits
  let y ← vdfEval gcdext g self.T
  let pi ← vdfProve H gcdext self.bits g self.T y
  return ⟨d, g, y, pi⟩

def verify (challenge : Bytes) (proof : ToyProof) : Except PyError Bool := do
  let d ← H.hD challenge self.bits
  let g ← H.hQF challenge d self.bits
  vdfVerify H gcdext self.bits g proof.y proof.pi self.T

end ToyVDF

end Single

/-! ### Many statements -/

structure AggregateToyVDF where
  bits : Nat
  T : Nat
  d : Int
  deriving DecidableEq, Repr

namespace AggregateToyVDF

def aggregationDiscriminantSeed : Bytes := "totally non-backdoored seed".toUTF8.toList

section Methods

variable (H : Hashes) (gcdext : Gcdext)

/-- `__init__` -/
def new (bits T : Nat) : Except PyError AggregateToyVDF := do
  let d ← H.hD aggregationDiscriminantSeed 256
  return ⟨bits, T, d⟩

variable (self : AggregateToyVDF)

def evalOne (challenge : Bytes) : Except PyError BinaryQF := do
  let g ← H.hQF challenge self.d self.bits
  vdfEval gcdext g self.T

def eval (challenges : List Bytes) : Except PyError (List BinaryQF) :=
  challenges.mapM (self.evalOne H gcdext)

/-- The product of `f ** a` over `zip(a, fs)`, each factor reduced in. -/
def product (a : List Nat) (fs : List BinaryQF) : Except PyError BinaryQF :=
  (a.zip fs).foldlM (fun G (a_j, f_j) => do
    let f ← qfPow gcdext f_j a_j
    let G ← G.mul gcdext f
    G.reducedForm) (getQfPrincipalForm self.d)

structure Parameters where
  gs : List BinaryQF
  a : List Nat
  l : Nat
  G : BinaryQF

def computeParameters (challenges : List Bytes) (ys : List BinaryQF) : Except PyError Parameters := do
  let gs ← challenges.mapM (H.hQF · self.d self.bits)
  let gBytes ← gs.mapM (qfToBytes · self.bits)
  let yBytes ← ys.mapM (qfToBytes · self.bits)
  let s := H.sha256 (gBytes.flatten ++ yBytes.flatten)
  let a := (List.range challenges.length).map fun j =>
    H.kgen ((toString (j + 1)).toUTF8.toList ++ s) self.bits 0
  let l ← H.hP s self.bits
  let G ← self.product gcdext a gs
  return ⟨gs, a, l, G⟩

def aggregate (challenges : List Bytes) (ys : List BinaryQF) : Except PyError BinaryQF := do
  let parameters ← self.computeParameters H gcdext challenges ys
  computeProof gcdext parameters.G parameters.l self.T

def verify (challenges : List Bytes) (ys : List BinaryQF) (pi : BinaryQF) : Except PyError Bool := do
  let parameters ← self.computeParameters H gcdext challenges ys
  let Y ← self.product gcdext parameters.a ys
  let lhs ← proofPower gcdext pi parameters.G parameters.l self.T
  return lhs == Y

end Methods

end AggregateToyVDF

/-! ### What the functions compute -/

section Group

variable {p : Nat} [hp : PrimeDiscriminant p] {H : Hashes} (gcdext : Gcdext)

omit hp in
theorem intToBytes_eq_ok {v : Int} {length : Nat} (hv : 2 * |v| < 256 ^ length) :
    ∃ bs, intToBytes v length = .ok bs := by
  obtain ⟨hlower, hupper⟩ := abs_le.mp (le_refl |v|)
  refine ⟨_, if_pos ⟨?_, ?_⟩⟩
  · linarith
  · linarith

omit hp in
theorem two_mul_coefficient_lt {f : BinaryQF} (hf : f.Reduced (-p)) :
    ∀ v ∈ [f.a, f.b, f.c], 2 * |v| < p := by
  have hdisc := hf.eq
  have ha := hf.a_pos
  have hsq := hf.three_mul_sq_le
  have hb : f.b ^ 2 ≤ f.a ^ 2 := sq_le_sq' hf.lower.le hf.upper
  have hac : f.a ≤ f.c := by
    rcases hf.order with hlt | ⟨heq, _⟩
    · exact hlt.le
    · exact heq.le
  have hc : 2 * f.c < p := by nlinarith
  have hb_abs : |f.b| ≤ f.a := abs_le.mpr ⟨hf.lower.le, hf.upper⟩
  intro v hv
  rcases List.mem_cons.mp hv with rfl | hv
  · rw [abs_of_pos ha]
    linarith
  · rcases List.mem_cons.mp hv with rfl | hv
    · linarith
    · rw [List.mem_singleton.mp hv, abs_of_pos (ha.trans_le hac)]
      exact hc

omit hp in
theorem qfToBytes_eq_ok {bits : Nat} (hbits : 8 ∣ bits) (hp : p < 2 ^ bits) (x : ReducedForm p) :
    ∃ bs, qfToBytes x.form bits = .ok bs := by
  have hsize : (2 ^ bits : Int) = 256 ^ (bits / 8) := by
    obtain ⟨k, rfl⟩ := hbits
    rw [Nat.mul_div_cancel_left k (by norm_num), pow_mul]
    norm_num
  have hlt : (p : Int) < 256 ^ (bits / 8) := by
    rw [← hsize]
    exact_mod_cast hp
  obtain ⟨r, hr⟩ := exists_mapM_eq_ok fun v hv =>
    intToBytes_eq_ok ((two_mul_coefficient_lt x.reduced v hv).trans hlt)
  exact ⟨r.flatten, bind_eq_of_ok hr rfl⟩

/-- Each round of `compute_proof` appends one bit to the quotient. -/
theorem computeProof_eq (x : ReducedForm p) {l : Nat} (hl : l.Prime) (T : Nat) :
    computeProof gcdext x.form l T = .ok (x ^ (2 ^ T / l)).form := by
  have hl_pos : (0 : Int) < l := Int.natCast_pos.mpr hl.pos
  have hone : (2 ^ 0) / l = 0 := Nat.div_eq_of_lt hl.one_lt
  have hone' : (2 ^ 0) % l = 1 := Nat.mod_eq_of_lt hl.one_lt
  have hloop := repeatM_eq_ok
    (fun ((y, r) : BinaryQF × Int) => do
      let b ← floorDiv (2 * r) l
      let r ← floorMod (2 * r) l
      let xx ← y.mul gcdext y
      let gb ← qfPow gcdext x.form b.toNat
      let y ← xx.mul gcdext gb
      let y ← y.reducedForm
      return (y, r))
    (fun i => ((x ^ (2 ^ i / l)).form, ((2 ^ i % l : Nat) : Int))) ?_ T 0
  · rw [hone, hone', pow_zero, one_form, ← x.reduced.disc, Nat.zero_add] at hloop
    exact bind_eq_of_ok hloop rfl
  · intro i
    obtain ⟨xx, hmul, hxx⟩ := mul_form gcdext (x ^ (2 ^ i / l)) (x ^ (2 ^ i / l))
    have hdiv : (2 * ((2 ^ i % l : Nat) : Int) / l).toNat = 2 * (2 ^ i % l) / l := by
      exact_mod_cast Int.toNat_natCast (2 * (2 ^ i % l) / l)
    have hmod : 2 * ((2 ^ i % l : Nat) : Int) % l = ((2 ^ (i + 1) % l : Nat) : Int) := by
      rw [two_pow_succ_mod]
      push_cast
      rfl
    have hpow := qfPow_eq gcdext (2 * (2 ^ i % l) / l) (hasClass_form x) x.reduced.isCoprime
    have hstep := mul_reducedForm gcdext hxx (hasClass_form (x ^ (2 * (2 ^ i % l) / l)))
      fun heq => heq ▸ (x ^ (2 * (2 ^ i % l) / l)).reduced.isCoprime
    rw [quotient_step] at hstep
    obtain ⟨y, hy, hreduce⟩ := bind_eq_ok_iff.mp hstep
    refine bind_eq_of_ok (floorDiv_of_pos _ hl_pos) ?_
    refine bind_eq_of_ok (floorMod_of_pos _ hl_pos) ?_
    refine bind_eq_of_ok hmul ?_
    rw [hdiv, hmod]
    refine bind_eq_of_ok hpow ?_
    refine bind_eq_of_ok hy ?_
    exact bind_eq_of_ok hreduce rfl

theorem vdfEval_eq (x : ReducedForm p) (T : Nat) :
    vdfEval gcdext x.form T = .ok (x ^ 2 ^ T).form := by
  have hloop := repeatM_eq_ok
    (fun y => do
      let yy ← BinaryQF.mul gcdext y y
      yy.reducedForm)
    (fun i => (x ^ 2 ^ i).form) ?_ T 0
  · rw [pow_zero, pow_one, Nat.zero_add] at hloop
    refine bind_eq_of_ok (hasClass_form x).reducedForm_eq ?_
    exact bind_eq_of_ok hloop (hasClass_form (x ^ 2 ^ T)).reducedForm_eq
  · intro i
    have hsquare := BinaryQF.dot_form gcdext (x ^ 2 ^ i) (x ^ 2 ^ i)
    rw [← pow_add, ← two_mul, ← pow_succ'] at hsquare
    exact hsquare

theorem proofPower_eq (x : ReducedForm p) (l T : Nat) :
    proofPower gcdext (x ^ (2 ^ T / l)).form x.form l T = .ok (x ^ 2 ^ T).form := by
  have hr : (powMod 2 T l).toNat = 2 ^ T % l := by
    rw [powMod]
    exact_mod_cast Int.toNat_natCast (2 ^ T % l)
  have hleft := qfPow_eq gcdext l (hasClass_form (x ^ (2 ^ T / l)))
    (x ^ (2 ^ T / l)).reduced.isCoprime
  have hright := qfPow_eq gcdext (2 ^ T % l) (hasClass_form x) x.reduced.isCoprime
  have hdot := BinaryQF.dot_form gcdext ((x ^ (2 ^ T / l)) ^ l) (x ^ (2 ^ T % l))
  rw [pow_quotient_mul] at hdot
  rw [proofPower, hr]
  refine bind_eq_of_ok hleft ?_
  exact bind_eq_of_ok hright hdot

theorem product_eq (self : AggregateToyVDF) (hd : self.d = -p) (a : List Nat)
    (xs : List (ReducedForm p)) :
    self.product gcdext a (xs.map ReducedForm.form) = .ok (combination a xs).form := by
  have hfold : ∀ y : ReducedForm p,
      (a.zip (xs.map ReducedForm.form)).foldlM (fun G (a_j, f_j) => do
        let f ← qfPow gcdext f_j a_j
        let G ← BinaryQF.mul gcdext G f
        G.reducedForm) y.form = .ok (y * combination a xs).form := by
    induction a generalizing xs with
    | nil =>
      intro y
      rw [combination_nil, mul_one]
      rfl
    | cons a_j a ih =>
      intro y
      cases xs with
      | nil =>
        rw [combination_nil_right, mul_one]
        rfl
      | cons x xs =>
        have hpow := qfPow_eq gcdext a_j (hasClass_form x) x.reduced.isCoprime
        have hdot := BinaryQF.dot_form gcdext y (x ^ a_j)
        rw [combination_cons, ← mul_assoc, List.map_cons, List.zip_cons_cons, List.foldlM_cons]
        refine bind_eq_of_ok ?_ (ih xs (y * x ^ a_j))
        exact bind_eq_of_ok hpow hdot
  have h := hfold 1
  rw [one_mul, one_form, ← hd] at h
  exact h

/-! ### Completeness -/

omit hp in
theorem hD_lt {x : Bytes} {k : Nat} {d : Int} (hk : 3 ≤ k) (h : H.hD x k = .ok d) : -d < 2 ^ k := by
  obtain ⟨i, hi⟩ := exists_of_search h
  dsimp only at hi
  split at hi
  · cases hi
    have hkgen : H.kgen x k i < 2 ^ k := by
      rw [Hashes.kgen, Nat.one_shiftLeft (n := k)]
      exact Nat.mod_lt _ (Nat.two_pow_pos k)
    have hseven : 7 < 2 ^ k := lt_of_lt_of_le (by norm_num) (Nat.pow_le_pow_right two_pos hk)
    have hlt := Nat.or_lt_two_pow hkgen hseven
    rw [neg_neg]
    exact_mod_cast hlt
  · cases hi

theorem ToyVDF.verify_evalAndProve (self : ToyVDF) (hbits : 8 ∣ self.bits) (hpos : 8 ≤ self.bits)
    {challenge : Bytes} {d : Int} {g : BinaryQF} (hd : H.hD challenge self.bits = .ok d)
    (hg : H.hQF challenge d self.bits = .ok g) (hP : ∀ x, ∃ l, H.hP x self.bits = .ok l) :
    ∃ proof, self.evalAndProve H gcdext challenge = .ok proof ∧
      self.verify H gcdext challenge proof = .ok true := by
  obtain ⟨p, rfl, hp⟩ := hD_discriminant hd
  obtain ⟨x, rfl⟩ := hQF_form hg
  have hlt : p < 2 ^ self.bits := by
    have hlt := hD_lt (by omega) hd
    rw [neg_neg] at hlt
    exact_mod_cast hlt
  obtain ⟨gBytes, hgBytes⟩ := qfToBytes_eq_ok hbits hlt x
  obtain ⟨yBytes, hyBytes⟩ := qfToBytes_eq_ok hbits hlt (x ^ 2 ^ self.T)
  obtain ⟨l, hl⟩ := hP (gBytes ++ yBytes)
  have hchallenge : vdfChallenge H self.bits x.form (x ^ 2 ^ self.T).form = .ok l :=
    bind_eq_of_ok hgBytes (bind_eq_of_ok hyBytes hl)
  refine ⟨⟨-p, x.form, (x ^ 2 ^ self.T).form, (x ^ (2 ^ self.T / l)).form⟩, ?_, ?_⟩
  · refine bind_eq_of_ok hd ?_
    refine bind_eq_of_ok hg ?_
    refine bind_eq_of_ok (vdfEval_eq gcdext x self.T) ?_
    have hprove : vdfProve H gcdext self.bits x.form self.T (x ^ 2 ^ self.T).form =
        .ok (x ^ (2 ^ self.T / l)).form :=
      bind_eq_of_ok hchallenge (computeProof_eq gcdext x (hP_prime hl) self.T)
    exact bind_eq_of_ok hprove rfl
  · refine bind_eq_of_ok hd ?_
    refine bind_eq_of_ok hg ?_
    refine bind_eq_of_ok (hasClass_form x).reducedForm_eq ?_
    refine bind_eq_of_ok (hasClass_form (x ^ 2 ^ self.T)).reducedForm_eq ?_
    refine bind_eq_of_ok hchallenge ?_
    refine bind_eq_of_ok (proofPower_eq gcdext x l self.T) ?_
    rw [beq_self_eq_true]
    rfl

theorem exists_generatorForms {bits : Nat} {challenges : List Bytes}
    (hgs : ∀ challenge ∈ challenges, ∃ g, H.hQF challenge (-p) bits = .ok g) :
    ∃ xs : List (ReducedForm p),
      List.Forall₂ (fun challenge x => H.hQF challenge (-p) bits = .ok x.form) challenges xs ∧
      challenges.mapM (H.hQF · (-p) bits) = .ok (xs.map ReducedForm.form) := by
  obtain ⟨xs, hxs⟩ : ∃ xs : List (ReducedForm p),
      List.Forall₂ (fun challenge x => H.hQF challenge (-p) bits = .ok x.form) challenges xs := by
    apply exists_forall₂
    intro challenge hmem
    obtain ⟨g, hg⟩ := hgs challenge hmem
    obtain ⟨x, rfl⟩ := hQF_form hg
    exact ⟨x, hg⟩
  refine ⟨xs, hxs, ?_⟩
  rw [mapM_eq_ok_iff, List.forall₂_map_right_iff]
  exact hxs

theorem AggregateToyVDF.verify_aggregate {bits T : Nat} (hbits : 8 ∣ bits) (hpos : 256 ≤ bits)
    {self : AggregateToyVDF} (hnew : AggregateToyVDF.new H bits T = .ok self)
    {challenges : List Bytes}
    (hgs : ∀ challenge ∈ challenges, ∃ g, H.hQF challenge self.d bits = .ok g)
    (hP : ∀ x, ∃ l, H.hP x bits = .ok l) :
    ∃ ys pi, self.eval H gcdext challenges = .ok ys ∧
      self.aggregate H gcdext challenges ys = .ok pi ∧
      self.verify H gcdext challenges ys pi = .ok true := by
  obtain ⟨d, hd, hself⟩ := bind_eq_ok_iff.mp hnew
  cases hself
  obtain ⟨p, rfl, hp⟩ := hD_discriminant hd
  have hlt : p < 2 ^ bits := by
    have hlt := hD_lt (by omega) hd
    rw [neg_neg] at hlt
    exact lt_of_lt_of_le (by exact_mod_cast hlt) (Nat.pow_le_pow_right two_pos hpos)
  obtain ⟨xs, hxs, hgs_eq⟩ := exists_generatorForms hgs
  obtain ⟨ys, hys⟩ : ∃ ys, ys = xs.map (· ^ 2 ^ T) := ⟨_, rfl⟩
  have heval : AggregateToyVDF.eval H gcdext ⟨bits, T, -p⟩ challenges =
      .ok (ys.map ReducedForm.form) := by
    rw [AggregateToyVDF.eval, mapM_eq_ok_iff, hys, List.map_map, List.forall₂_map_right_iff]
    apply hxs.imp
    intro challenge x hx
    exact bind_eq_of_ok hx (vdfEval_eq gcdext x T)
  have hbytes : ∀ zs : List (ReducedForm p), ∃ bs,
      (zs.map ReducedForm.form).mapM (qfToBytes · bits) = .ok bs := by
    intro zs
    apply exists_mapM_eq_ok
    intro f hf
    obtain ⟨z, _, rfl⟩ := List.mem_map.mp hf
    exact qfToBytes_eq_ok hbits hlt z
  obtain ⟨gBytes, hgBytes⟩ := hbytes xs
  obtain ⟨yBytes, hyBytes⟩ := hbytes ys
  obtain ⟨s, hs⟩ : ∃ s, s = H.sha256 (gBytes.flatten ++ yBytes.flatten) := ⟨_, rfl⟩
  obtain ⟨a, ha⟩ : ∃ a, a = (List.range challenges.length).map fun j =>
    H.kgen ((toString (j + 1)).toUTF8.toList ++ s) bits 0 := ⟨_, rfl⟩
  obtain ⟨l, hl⟩ := hP s
  have hparameters : AggregateToyVDF.computeParameters H gcdext ⟨bits, T, -p⟩ challenges
      (ys.map ReducedForm.form) = .ok ⟨xs.map ReducedForm.form, a, l, (combination a xs).form⟩ := by
    refine bind_eq_of_ok hgs_eq ?_
    refine bind_eq_of_ok hgBytes ?_
    refine bind_eq_of_ok hyBytes ?_
    simp only [← hs, ← ha]
    refine bind_eq_of_ok hl ?_
    exact bind_eq_of_ok (product_eq gcdext ⟨bits, T, -p⟩ rfl a xs) rfl
  refine ⟨_, _, heval, bind_eq_of_ok hparameters (computeProof_eq gcdext _ (hP_prime hl) T), ?_⟩
  refine bind_eq_of_ok hparameters ?_
  refine bind_eq_of_ok (product_eq gcdext ⟨bits, T, -p⟩ rfl a ys) ?_
  refine bind_eq_of_ok (proofPower_eq gcdext (combination a xs) l T) ?_
  rw [hys, combination_map_pow, beq_self_eq_true]
  rfl

omit hp in
/-- The delay functions of the package are complete. -/
theorem python_vdfs_complete {bits : Nat} (hbits : 8 ∣ bits) (hP : ∀ x, ∃ l, H.hP x bits = .ok l) :
    (8 ≤ bits → ∀ (T : Nat) (challenge : Bytes) (d : Int) (g : BinaryQF),
      H.hD challenge bits = .ok d → H.hQF challenge d bits = .ok g →
      ∃ proof, ToyVDF.evalAndProve H gcdext ⟨bits, T⟩ challenge = .ok proof ∧
        ToyVDF.verify H gcdext ⟨bits, T⟩ challenge proof = .ok true) ∧
    (256 ≤ bits → ∀ (T : Nat) (self : AggregateToyVDF) (challenges : List Bytes),
      AggregateToyVDF.new H bits T = .ok self →
      (∀ challenge ∈ challenges, ∃ g, H.hQF challenge self.d bits = .ok g) →
      ∃ ys pi, self.eval H gcdext challenges = .ok ys ∧
        self.aggregate H gcdext challenges ys = .ok pi ∧
        self.verify H gcdext challenges ys pi = .ok true) := by
  constructor
  · intro hpos T challenge d g hd hg
    exact ToyVDF.verify_evalAndProve gcdext ⟨bits, T⟩ hbits hpos hd hg hP
  · intro hpos T self challenges hnew hgs
    exact AggregateToyVDF.verify_aggregate gcdext hbits hpos hnew hgs hP

end Group

/-! ### A run -/

/-- A number is prime when some power has the order `n - 1`, here with the factors up to `7`. -/
theorem prime_of_powers {a b c n : Nat} (w : ZMod n) (hn : n - 1 = 2 * 3 ^ a * 5 ^ b * 7 ^ c)
    (hone : w ^ (n - 1) = 1) (hne : ∀ q ∈ [2, 3, 5, 7], w ^ ((n - 1) / q) ≠ 1) : n.Prime := by
  apply lucas_primality n w hone
  intro q hq hdvd
  apply hne q
  rw [hn] at hdvd
  rcases hq.dvd_mul.mp hdvd with hdvd | h7
  · rcases hq.dvd_mul.mp hdvd with hdvd | h5
    · rcases hq.dvd_mul.mp hdvd with h2 | h3
      · simp [(Nat.prime_dvd_prime_iff_eq hq Nat.prime_two).mp h2]
      · simp [(Nat.prime_dvd_prime_iff_eq hq Nat.prime_three).mp (hq.dvd_of_dvd_pow h3)]
    · simp [(Nat.prime_dvd_prime_iff_eq hq Nat.prime_five).mp (hq.dvd_of_dvd_pow h5)]
  · simp [(Nat.prime_dvd_prime_iff_eq hq Nat.prime_seven).mp (hq.dvd_of_dvd_pow h7)]

def discriminantPrime : Nat :=
  114070909221513619996770886938090846503126537925254524452611804008483886718751

theorem discriminantPrime_prime : discriminantPrime.Prime := by
  rw [discriminantPrime]
  apply prime_of_powers (a := 7) (b := 47) (c := 48) 3 (by norm_num)
  · reduce_mod_char
  · intro q hq
    fin_cases hq
    · norm_num
      reduce_mod_char
      decide
    · norm_num
      reduce_mod_char
      decide
    · norm_num
      reduce_mod_char
      decide
    · norm_num
      reduce_mod_char
      decide

def generatorPrime : Nat :=
  71533696206113359192473355321008871867063742901282239472493529319763183593751

theorem generatorPrime_prime : generatorPrime.Prime := by
  rw [generatorPrime]
  apply prime_of_powers (a := 31) (b := 40) (c := 40) 3 (by norm_num)
  · reduce_mod_char
  · intro q hq
    fin_cases hq
    · norm_num
      reduce_mod_char
      decide
    · norm_num
      reduce_mod_char
      decide
    · norm_num
      reduce_mod_char
      decide
    · norm_num
      reduce_mod_char
      decide

/-- Every chain of digests alternates between two, one for each prime. -/
def twoDigests : Hashes where
  shake x _ :=
    if x = toBytes 32 (discriminantPrime - 4) then toBytes 32 generatorPrime
    else toBytes 32 (discriminantPrime - 4)
  sha256 x := x
  isPrime n := n == discriminantPrime || n == generatorPrime
  prime_of_isPrime n h := by
    rcases Bool.or_eq_true_iff.mp h with h | h
    · rw [beq_iff_eq.mp h]
      exact discriminantPrime_prime
    · rw [beq_iff_eq.mp h]
      exact generatorPrime_prime
  fuel := 2

theorem residue : powMod (-discriminantPrime) ((generatorPrime - 1) / 2) generatorPrime = 1 := by
  have hone : (1 : Int) % generatorPrime = 1 := rfl
  have hpow : ((-discriminantPrime : Int) : ZMod generatorPrime) ^ ((generatorPrime - 1) / 2) = 1 := by
    rw [generatorPrime, discriminantPrime]
    norm_num
    reduce_mod_char
  have heq : (-discriminantPrime : Int) ^ ((generatorPrime - 1) / 2) % generatorPrime =
      1 % generatorPrime := by
    apply (ZMod.intCast_eq_intCast_iff' _ _ _).mp
    rw [Int.cast_pow, Int.cast_one]
    exact hpow
  rw [powMod, heq, hone]

theorem twoDigests_shake (x : Bytes) (n : Nat) : twoDigests.shake x n =
    if x = toBytes 32 (discriminantPrime - 4) then toBytes 32 generatorPrime
    else toBytes 32 (discriminantPrime - 4) := rfl

section TwoDigests

variable {x : Bytes} (hx : x ≠ toBytes 32 (discriminantPrime - 4))
include hx

theorem twoDigests_kgen_zero : twoDigests.kgen x 256 0 = discriminantPrime - 4 := by
  have hdigest : twoDigests.kgenDigest x 256 0 = toBytes 32 (discriminantPrime - 4) := if_neg hx
  rw [Hashes.kgen, hdigest, bytesToLong_toBytes (by norm_num [discriminantPrime])]
  rfl

theorem twoDigests_kgen_one : twoDigests.kgen x 256 1 = generatorPrime := by
  have hdigest : twoDigests.kgenDigest x 256 0 = toBytes 32 (discriminantPrime - 4) := if_neg hx
  have hdigest' : twoDigests.kgenDigest x 256 1 = toBytes 32 generatorPrime := by
    rw [Hashes.kgenDigest, hdigest, twoDigests_shake, if_pos rfl]
  rw [Hashes.kgen, hdigest', bytesToLong_toBytes (by norm_num [generatorPrime])]
  rfl

theorem twoDigests_hD : twoDigests.hD x 256 = .ok (-discriminantPrime) := by
  apply search_of_some
  rw [twoDigests_kgen_zero hx]
  rfl

theorem twoDigests_hQF : ∃ g, twoDigests.hQF x (-discriminantPrime) 256 = .ok g := by
  have : PrimeDiscriminant discriminantPrime := ⟨discriminantPrime_prime, rfl⟩
  obtain ⟨f, hf⟩ : ∃ f, formCandidate twoDigests.isPrime (-discriminantPrime)
      (twoDigests.kgen x 256 1) = some f := by
    have hlor : generatorPrime ||| 3 = generatorPrime := rfl
    have hprime : twoDigests.isPrime generatorPrime = true := rfl
    rw [twoDigests_kgen_one hx, formCandidate]
    simp only [hlor]
    rw [if_pos hprime, if_pos residue]
    exact ⟨_, rfl⟩
  obtain ⟨y, hy⟩ := exists_hasClass (formCandidate_spec (neg_mod_four discriminantPrime) hf).1
  refine ⟨y.form, bind_eq_of_ok ?_ hy.reducedForm_eq⟩
  refine Eq.trans (search_of_none ?_ 1) (search_of_some hf 0)
  rw [twoDigests_kgen_zero hx]
  rfl

end TwoDigests

theorem twoDigests_hP (x : Bytes) : ∃ l, twoDigests.hP x 256 = .ok l := by
  refine ⟨generatorPrime, ?_⟩
  by_cases hx : x = toBytes 32 (discriminantPrime - 4)
  · subst hx
    decide +kernel
  · refine Eq.trans (search_of_none ?_ 1) (search_of_some ?_ 0)
    · rw [twoDigests_kgen_zero hx]
      rfl
    · rw [twoDigests_kgen_one hx]
      rfl

theorem ne_digest_of_length_lt {x : Bytes} (hx : x.length < 32) :
    x ≠ toBytes 32 (discriminantPrime - 4) := by
  rintro rfl
  rw [length_toBytes] at hx
  exact absurd hx (Nat.lt_irrefl 32)

theorem twoDigests_new (T : Nat) :
    AggregateToyVDF.new twoDigests 256 T = .ok ⟨256, T, -discriminantPrime⟩ := by
  have hseed : twoDigests.hD AggregateToyVDF.aggregationDiscriminantSeed 256 =
      .ok (-discriminantPrime) := twoDigests_hD (ne_digest_of_length_lt (by decide +kernel))
  exact bind_eq_of_ok hseed rfl

theorem python_vdfs_two_digests :
    (∃ proof, ToyVDF.evalAndProve twoDigests euclid ⟨256, 5⟩ [1] = .ok proof ∧
      ToyVDF.verify twoDigests euclid ⟨256, 5⟩ [1] proof = .ok true) ∧
    ∃ ys pi, AggregateToyVDF.eval twoDigests euclid ⟨256, 5, -discriminantPrime⟩ [[1], [2], [1]] =
        .ok ys ∧
      AggregateToyVDF.aggregate twoDigests euclid ⟨256, 5, -discriminantPrime⟩ [[1], [2], [1]] ys =
        .ok pi ∧
      AggregateToyVDF.verify twoDigests euclid ⟨256, 5, -discriminantPrime⟩ [[1], [2], [1]] ys pi =
        .ok true := by
  obtain ⟨htoy, haggregate⟩ := python_vdfs_complete euclid (by norm_num) twoDigests_hP
  constructor
  · have hshort : ([1] : Bytes) ≠ toBytes 32 (discriminantPrime - 4) :=
      ne_digest_of_length_lt (by decide)
    obtain ⟨g, hg⟩ := twoDigests_hQF hshort
    exact htoy (by norm_num) 5 [1] _ g (twoDigests_hD hshort) hg
  · apply haggregate le_rfl 5
    · exact twoDigests_new 5
    · intro challenge hmem
      apply twoDigests_hQF
      apply ne_digest_of_length_lt
      fin_cases hmem <;> decide

end Lootbox.Headstart

import Lootbox.Chiavdf.Form
import Lootbox.Chiavdf.XgcdPartial
import Lootbox.Headstart.EquivalentForms

/-!
# `nucomp.h`: composition with a partial reduction on the way

A composition solves `a2 * k = m (mod a1)`. For a small `a1` the composed form is written down;
otherwise a unimodular substitution, made of the partial remainders of `a1` and `k`, is carried
out before any large coefficient arises. Both lie in the class of the product.
-/

namespace Lootbox.Chiavdf

open Headstart BinaryQF ReducedForm PartialEuclid

/-! ### Divisions of GMP -/

/-- `mpz_fdiv_q` -/
def fdivQ (n d : Int) : Option Int := if d = 0 then none else some (n.fdiv d)

/-- `mpz_fdiv_r` -/
def fdivR (n d : Int) : Option Int := if d = 0 then none else some (n.fmod d)

/-- `mpz_divexact`, which is undefined where the quotient is not exact. -/
def divexact (n d : Int) : Option Int := if d ≠ 0 ∧ d ∣ n then some (n / d) else none

theorem fdivQ_mul {d : Int} (hd : d ≠ 0) (q : Int) : fdivQ (d * q) d = some q := by
  rw [fdivQ, if_neg hd, Int.mul_fdiv_cancel_left q hd]

theorem fdivR_of_pos (n : Int) {d : Int} (hd : 0 < d) : fdivR n d = some (n % d) := by
  rw [fdivR, if_neg hd.ne', Int.fmod_eq_emod_of_nonneg n hd.le]

theorem fdivR_of_ne {n d : Int} (hd : d ≠ 0) : ∃ j, fdivR n d = some (n + d * j) := by
  refine ⟨-n.fdiv d, ?_⟩
  rw [fdivR, if_neg hd, Int.fmod_def]
  congr 1
  ring

theorem divexact_mul {d : Int} (hd : d ≠ 0) (q : Int) : divexact (d * q) d = some q := by
  rw [divexact, if_pos ⟨hd, dvd_mul_right d q⟩, Int.mul_ediv_cancel_left q hd]

/-! ### The code -/

/-- The variables before the comparison with `L`. -/
structure NucompLocals where
  a1 : Int
  a2 : Int
  c2 : Int
  k : Int
  m : Int
  ss : Int
  deriving DecidableEq, Repr

/-- The second greatest common divisor, that of `ss` and the first. -/
def nucompSecond (gcdext : Gcdext) (f g : Form) (sp k m ss : Int) : Option NucompLocals := do
  let s := (gcdext.run ss sp).1
  let v2 := (gcdext.run ss sp).2.1
  let u2 := (gcdext.run ss sp).2.2
  let a1 ← (if s = 1 then some f.a else divexact f.a s)
  let a2 ← (if s = 1 then some g.a else divexact g.a s)
  let k ← fdivR (k * u2 - v2 * g.c) a1
  return ⟨a1, a2, if s = 1 then g.c else g.c * s, k, m, ss⟩

def nucompLocals (gcdext : Gcdext) (f g : Form) : Option NucompLocals := do
  let ss := (f.b + g.b).fdiv 2
  let m := (f.b - g.b).fdiv 2
  let t ← fdivR g.a f.a
  let sp := if t = 0 then f.a else (gcdext.run t f.a).1
  let v1 := if t = 0 then 0 else (gcdext.run t f.a).2.1
  let k ← fdivR (m * v1) f.a
  if sp = 1 then return ⟨f.a, g.a, g.c, k, m, ss⟩
  else nucompSecond gcdext f g sp k m ss

/-- The composed form as it is; `b` is that of the second form. -/
def nucompPlain (w : NucompLocals) (b : Int) : Option Form := do
  let t := w.a2 * w.k
  let cc ← divexact ((b + t) * w.k + w.c2) w.a1
  return ⟨w.a2 * w.a1, 2 * t + b, cc⟩

def nucompPartial (w : NucompLocals) (b D L : Int) : Option Form := do
  let r ← checkedXgcdPartial w.a1 w.k L
  let t := w.a2 * r.r1
  let m1 ← divexact (w.m * r.co1 + t) w.a1
  let m2 ← divexact (w.ss * r.r1 - w.c2 * r.co1) w.a1
  let ca := if r.co1 < 0 then r.r1 * m1 - r.co1 * m2 else r.co1 * m2 - r.r1 * m1
  let q ← divexact (2 * (t - ca * r.co2)) r.co1
  let cb ← fdivR (q - b) (2 * ca)
  let cc ← divexact (cb * cb - D) ca
  let cc := cc.fdiv 4
  return if ca < 0 then ⟨-ca, cb, -cc⟩ else ⟨ca, cb, cc⟩

def nucompOrdered (gcdext : Gcdext) (f g : Form) (D L : Int) : Option Form := do
  let w ← nucompLocals gcdext f g
  if w.a1 < L then nucompPlain w g.b else nucompPartial w g.b D L

def qfbNucomp (gcdext : Gcdext) (f g : Form) (D L : Int) : Option Form :=
  if f.a > g.a then nucompOrdered gcdext g f D L else nucompOrdered gcdext f g D L

def qfbNudupl (gcdext : Gcdext) (f : Form) (D L : Int) : Option Form := do
  let s := (gcdext.run |f.b| f.a).1
  let v2 := if f.b < 0 then -(gcdext.run (-f.b) f.a).2.1 else (gcdext.run f.b f.a).2.1
  let a1 ← (if s = 1 then some f.a else fdivQ f.a s)
  let c1 := if s = 1 then f.c else f.c * s
  let k ← fdivR (-(v2 * f.c)) a1
  if a1 < L then
    let t := a1 * k
    let c ← fdivQ ((f.b + t) * k + c1) a1
    return ⟨a1 * a1, 2 * t + f.b, c⟩
  else
    let r ← checkedXgcdPartial a1 k L
    let m2 ← divexact (f.b * r.r1 - c1 * r.co1) a1
    let ra := r.r1 * r.r1 - r.co1 * m2
    let ra := if r.co1 ≥ 0 then -ra else ra
    let q ← divexact (2 * -(ra * r.co2 - a1 * r.r1)) r.co1
    let cb ← fdivR (q - f.b) (2 * ra)
    let rc ← divexact (cb * cb - D) ra
    let rc := rc.tdiv 4
    return if ra < 0 then ⟨-ra, cb, -rc⟩ else ⟨ra, cb, rc⟩

/-! ### Both branches compose -/

/-- What the variables satisfy: `s` is the greatest common divisor of `f.a`, `g.a` and `ss`. -/
structure NucompLocals.Solves (f g : Form) (s u : Int) (w : NucompLocals) : Prop where
  s_pos : 0 < s
  a1_pos : 0 < w.a1
  a2_pos : 0 < w.a2
  a1 : s * w.a1 = f.a
  a2 : s * w.a2 = g.a
  c2 : w.c2 = g.c * s
  ss : s * u = w.ss
  sum : 2 * w.ss = f.b + g.b
  diff : 2 * w.m = f.b - g.b
  k_nonneg : 0 ≤ w.k
  k_lt : w.k < w.a1
  first : w.a1 ∣ w.a2 * w.k - w.m
  second : w.a1 ∣ u * w.k + g.c
  gcd : Int.gcd (Int.gcd w.a1 w.a2) u = 1

section Compose

variable {p : Nat} [hp : PrimeDiscriminant p] {f g : Form} {x y : ReducedForm p}
  {w : NucompLocals} {s u : Int}

def NucompLocals.form (w : NucompLocals) (b c : Int) : Form := ⟨w.a2 * w.a1, 2 * (w.a2 * w.k) + b, c⟩

theorem NucompLocals.Solves.hasClass (hw : w.Solves f g s u) (hf : HasClass f x)
    (hg : HasClass g y) : ∃ l n, w.a2 * w.k - w.m = w.a1 * l ∧ u * w.k + g.c = w.a1 * n ∧
      HasClass (w.form g.b (w.k * l + s * n)) (x * y) := by
  obtain ⟨l, hl⟩ := hw.first
  obtain ⟨n, hn⟩ := hw.second
  refine ⟨l, n, hl, hn, ?_⟩
  have hs := hw.s_pos
  have ha1 := hw.a1
  have ha2 := hw.a2
  have hss := hw.ss
  have hsum := hw.sum
  have hdiff := hw.diff
  have hfd := hf.posDef.eq
  have hgd := hg.posDef.eq
  have hgamma : w.a2 * g.c = f.c * w.a1 - w.m * u := by
    apply mul_left_cancel₀ (mul_pos four_pos hs).ne'
    linear_combination 4 * g.c * ha2 - 4 * f.c * ha1 + 4 * w.m * hss + 2 * w.m * hsum +
      (f.b + g.b) * hdiff + hfd - hgd
  have hb : g.b = w.ss - w.m := by linarith
  obtain ⟨v, hv⟩ : ∃ v : Locals, v = ⟨w.ss, -w.m, s, w.a1, w.a2, u, -w.k, -l, -n⟩ := ⟨_, rfl⟩
  have hexact : v.Exact f g := by
    rw [hv]
    refine ⟨hsum, by dsimp only; linarith, ha1, ha2, hss, by dsimp only; linarith, ?_⟩
    dsimp only
    linear_combination w.a2 * hn - hgamma
  have hform : w.form g.b (w.k * l + s * n) = v.form := by
    rw [hv]
    refine ext_coefficients (mul_comm _ _) ?_ ?_
    · simp only [NucompLocals.form, Locals.form]
      linear_combination hl - hss + hb
    · simp only [NucompLocals.form, Locals.form]
      ring
  rw [hform]
  exact hf.compose hg hexact (hv ▸ hs) (hv ▸ hw.a1_pos) (hv ▸ hw.a2_pos) (hv ▸ hw.gcd)

theorem NucompLocals.Solves.numerator (hw : w.Solves f g s u) {l n : Int}
    (hl : w.a2 * w.k - w.m = w.a1 * l) (hn : u * w.k + g.c = w.a1 * n) :
    (g.b + w.a2 * w.k) * w.k + w.c2 = w.a1 * (w.k * l + s * n) := by
  have hsum := hw.sum
  have hdiff := hw.diff
  have hb : g.b = w.ss - w.m := by linarith
  rw [hb, hw.c2, ← hw.ss]
  linear_combination w.k * hl + s * hn

theorem nucompPlain_eq (hw : w.Solves f g s u) {l n : Int}
    (hl : w.a2 * w.k - w.m = w.a1 * l) (hn : u * w.k + g.c = w.a1 * n) :
    nucompPlain w g.b = some (w.form g.b (w.k * l + s * n)) := by
  unfold nucompPlain
  dsimp only
  rw [hw.numerator hl hn, divexact_mul hw.a1_pos.ne']
  rfl

end Compose

section Substitution

variable {p : Nat} {F : Form} {r : Pair} {x2 x1 ε : Int}

/-- `F` at `x1` and `-co1`. -/
def valueAt (F : Form) (r : Pair) (x1 : Int) : Int :=
  F.a * x1 ^ 2 - F.b * x1 * r.co1 + F.c * r.co1 ^ 2

/-- The polar form of `F` at `x1`, `-co1` and `x2`, `-co2`. -/
def polarAt (F : Form) (r : Pair) (x2 x1 : Int) : Int :=
  2 * F.a * x1 * x2 - F.b * (x1 * r.co2 + x2 * r.co1) + 2 * F.c * r.co1 * r.co2

theorem valueAt_pos (hF : F.PosDef (-p)) (hp : 0 < p) (hco1 : r.co1 ≠ 0) : 0 < valueAt F r x1 := by
  have ha := hF.a_pos
  have hdisc := hF.eq
  have hsq : 0 < r.co1 ^ 2 := by positivity
  have hp' : (0 : Int) < p := by exact_mod_cast hp
  have hfour : 4 * F.a * valueAt F r x1 = (2 * F.a * x1 - F.b * r.co1) ^ 2 + p * r.co1 ^ 2 := by
    unfold valueAt
    linear_combination -r.co1 ^ 2 * hdisc
  have hsum : 0 < 4 * F.a * valueAt F r x1 := by
    rw [hfour]
    positivity
  exact pos_of_mul_pos_right hsum (by omega)

theorem substitute_equivalent (hε : ε * ε = 1) (hdet : x2 * r.co1 - x1 * r.co2 = ε) (j : Int) :
    ∃ c, ProperlyEquivalent F
      ⟨valueAt F r x1, ε * polarAt F r x2 x1 + 2 * valueAt F r x1 * j, c⟩ := by
  obtain ⟨G, hG⟩ : ∃ G, G = F.subst x1 (ε * x2) (-r.co1) (-(ε * r.co2)) := ⟨_, rfl⟩
  have hFG : ProperlyEquivalent F G :=
    ⟨x1, ε * x2, -r.co1, -(ε * r.co2), by linear_combination ε * hdet + hε, hG⟩
  have ha : G.a = valueAt F r x1 := by
    rw [hG]
    simp only [subst, valueAt]
    ring
  have hb : G.b = ε * polarAt F r x2 x1 := by
    rw [hG]
    simp only [subst, polarAt]
    ring
  have htranslate := hFG.trans (translate_equivalent G j)
  rw [ha, hb] at htranslate
  exact ⟨_, htranslate⟩

theorem partial_steps (hF : F.PosDef (-p)) (hp : 0 < p)
    (hsign : ε = 1 ∧ 0 < r.co1 ∨ ε = -1 ∧ r.co1 < 0) (hdet : x2 * r.co1 - x1 * r.co2 = ε) {ca : Int}
    (hca : ca = -ε * valueAt F r x1) :
    ∃ cb c, fdivR (ε * polarAt F r x2 x1) (2 * ca) = some cb ∧
      divexact (cb * cb - -(p : Int)) ca = some (4 * c) ∧
      ProperlyEquivalent F (if ca < 0 then ⟨-ca, cb, -c⟩ else ⟨ca, cb, c⟩) := by
  have hco1 : r.co1 ≠ 0 := by
    rcases hsign with ⟨_, h⟩ | ⟨_, h⟩
    · exact h.ne'
    · exact h.ne
  have hε : ε * ε = 1 := by
    rcases hsign with ⟨h, _⟩ | ⟨h, _⟩ <;> rw [h] <;> norm_num
  have hvalue : 0 < valueAt F r x1 := valueAt_pos hF hp hco1
  have hε_ne : ε ≠ 0 := by
    rintro rfl
    norm_num at hε
  have hca_ne : ca ≠ 0 := by
    rw [hca]
    exact mul_ne_zero (neg_ne_zero.mpr hε_ne) hvalue.ne'
  obtain ⟨j, hj⟩ := fdivR_of_ne (n := ε * polarAt F r x2 x1) (mul_ne_zero two_ne_zero hca_ne)
  obtain ⟨c, hG⟩ := substitute_equivalent (F := F) hε hdet (-ε * j)
  have hcb : ε * polarAt F r x2 x1 + 2 * ca * j =
      ε * polarAt F r x2 x1 + 2 * valueAt F r x1 * (-ε * j) := by
    rw [hca]
    ring
  rw [← hcb] at hG
  have hdisc := hG.discriminant_eq.trans hF.disc
  simp only [discriminant] at hdisc
  refine ⟨_, -ε * c, hj, ?_, ?_⟩
  · have hsq : ∀ b : Int, b ^ 2 - 4 * valueAt F r x1 * c = -p →
        b * b - -(p : Int) = ca * (4 * (-ε * c)) := by
      intro b hb
      rw [hca]
      linear_combination hb - 4 * valueAt F r x1 * c * hε
    rw [hsq _ hdisc, divexact_mul hca_ne]
  · rcases hsign with ⟨h, _⟩ | ⟨h, _⟩
    · have hneg : ca = -valueAt F r x1 := by rw [hca, h, neg_one_mul]
      rw [if_pos (by omega), h, hneg, neg_neg, neg_one_mul, neg_neg, ← h, ← hneg]
      exact hG
    · have hpos : ca = valueAt F r x1 := by rw [hca, h, neg_neg, one_mul]
      rw [if_neg (by omega), h, neg_neg, one_mul, ← h]
      rw [← hpos] at hG
      exact hG

end Substitution

section Locals

variable {d : Int} {f g : Form} {ss m sp v1 k s v2 u2 : Int}

theorem half_sum (hf : f.PosDef d) (hg : g.PosDef d) :
    2 * (f.b + g.b).fdiv 2 = f.b + g.b ∧ 2 * (f.b - g.b).fdiv 2 = f.b - g.b := by
  obtain ⟨h, hh⟩ := hf.even_sub hg
  rw [Int.fdiv_eq_ediv_of_nonneg _ two_pos.le, Int.fdiv_eq_ediv_of_nonneg _ two_pos.le]
  constructor <;> omega

theorem first_congruences (hf : f.PosDef d) (hg : g.PosDef d) (hsum : 2 * ss = f.b + g.b)
    (hdiff : 2 * m = f.b - g.b) (hv1 : f.a ∣ g.a * v1 - sp) (hk : f.a ∣ m * v1 - k) :
    f.a ∣ g.a * k - m * sp ∧ f.a ∣ ss * k + g.c * sp := by
  obtain ⟨e, he⟩ := hv1
  obtain ⟨j, hj⟩ := hk
  have hfd := hf.eq
  have hgd := hg.eq
  have hgamma : m * ss + g.a * g.c = f.a * f.c := by
    apply mul_left_cancel₀ four_ne_zero
    linear_combination 2 * m * hsum + (f.b + g.b) * hdiff + hfd - hgd
  constructor
  · refine ⟨m * e - g.a * j, ?_⟩
    linear_combination m * he - g.a * hj
  · refine ⟨v1 * f.c - ss * j - g.c * e, ?_⟩
    linear_combination v1 * hgamma - ss * hj - g.c * he

theorem solves_of_bezout (hf : f.PosDef d) (hg : g.PosDef d) (hsum : 2 * ss = f.b + g.b)
    (hdiff : 2 * m = f.b - g.b) (hs : s = Int.gcd (Int.gcd f.a g.a) ss)
    (hbezout : ss * v2 + sp * u2 = s) (hfirst : f.a ∣ g.a * k - m * sp)
    (hsecond : f.a ∣ ss * k + g.c * sp) {a1 a2 k' : Int} (ha1 : s * a1 = f.a) (ha2 : s * a2 = g.a)
    (hk' : k' = (k * u2 - v2 * g.c) % a1) :
    ∃ u, NucompLocals.Solves f g s u ⟨a1, a2, g.c * s, k', m, ss⟩ := by
  have hs_pos : 0 < s := by
    have hne : (Int.gcd f.a g.a : Int) ≠ 0 := by
      exact_mod_cast (Int.gcd_pos_of_ne_zero_left g.a hf.a_pos.ne').ne'
    rw [hs]
    exact_mod_cast Int.gcd_pos_of_ne_zero_left ss hne
  have ha1_pos : 0 < a1 := pos_of_mul_pos_right (ha1 ▸ hf.a_pos) hs_pos.le
  have ha2_pos : 0 < a2 := pos_of_mul_pos_right (ha2 ▸ hg.a_pos) hs_pos.le
  obtain ⟨u, hu⟩ : s ∣ ss := hs ▸ Int.gcd_dvd_right _ _
  have hfd := hf.eq
  have hgd := hg.eq
  have hgamma : m * ss + g.a * g.c = f.a * f.c := by
    apply mul_left_cancel₀ four_ne_zero
    linear_combination 2 * m * hsum + (f.b + g.b) * hdiff + hfd - hgd
  obtain ⟨j, hj⟩ : a1 ∣ (k * u2 - v2 * g.c) - k' := hk' ▸ Int.dvd_self_sub_emod
  obtain ⟨e, he⟩ := hfirst
  obtain ⟨e', he'⟩ := hsecond
  refine ⟨u, hs_pos, ha1_pos, ha2_pos, ha1, ha2, rfl, hu.symm, hsum, hdiff, ?_, ?_, ?_, ?_, ?_⟩
  · exact hk' ▸ Int.emod_nonneg _ ha1_pos.ne'
  · exact hk' ▸ Int.emod_lt_of_pos _ ha1_pos
  · refine ⟨u2 * e - v2 * f.c - a2 * j, ?_⟩
    apply mul_left_cancel₀ hs_pos.ne'
    dsimp only
    linear_combination u2 * he - v2 * hgamma - s * a2 * hj + (k * u2 - v2 * g.c) * ha2 +
      m * hbezout + (v2 * f.c - u2 * e) * ha1
  · refine ⟨u2 * e' - u * j, ?_⟩
    apply mul_left_cancel₀ hs_pos.ne'
    dsimp only
    linear_combination u2 * he' - s * u * hj - (k * u2 - v2 * g.c) * hu - g.c * hbezout - u2 * e' * ha1
  · apply gcd_eq_one hs_pos
    rw [ha1, ha2, ← hu]
    exact hs

theorem first_bezout (gcdext : Gcdext) (ha : 0 < f.a) {t : Int} (ht : t = g.a % f.a) :
    (if t = 0 then f.a else (gcdext.run t f.a).1) = Int.gcd f.a g.a ∧
      f.a ∣ g.a * (if t = 0 then 0 else (gcdext.run t f.a).2.1) -
        (if t = 0 then f.a else (gcdext.run t f.a).1) := by
  split_ifs with hzero
  · have hdvd : f.a ∣ g.a := Int.dvd_of_emod_eq_zero (ht ▸ hzero)
    refine ⟨?_, ⟨-1, by ring⟩⟩
    exact (Int.gcd_eq_left ha.le hdvd).symm
  · obtain ⟨j, hj⟩ : f.a ∣ g.a - t := ht ▸ Int.dvd_self_sub_emod
    have hgcd : Int.gcd t f.a = Int.gcd f.a g.a := by
      rw [ht, Int.gcd_emod, Int.gcd_comm]
    have hbezout := gcdext.bezout t f.a
    refine ⟨(gcdext.gcd_eq t f.a).trans (congrArg _ hgcd), ?_⟩
    refine ⟨j * (gcdext.run t f.a).2.1 - (gcdext.run t f.a).2.2, ?_⟩
    linear_combination (gcdext.run t f.a).2.1 * hj + hbezout

theorem nucompSecond_spec (gcdext : Gcdext) (hf : f.PosDef d) (hg : g.PosDef d)
    (hsum : 2 * ss = f.b + g.b) (hdiff : 2 * m = f.b - g.b) (hsp : sp = Int.gcd f.a g.a)
    (hfirst : f.a ∣ g.a * k - m * sp) (hsecond : f.a ∣ ss * k + g.c * sp) :
    ∃ w s u, nucompSecond gcdext f g sp k m ss = some w ∧ w.Solves f g s u := by
  obtain ⟨s, hs⟩ : ∃ s, s = (gcdext.run ss sp).1 := ⟨_, rfl⟩
  have hbezout := gcdext.bezout ss sp
  rw [← hs] at hbezout
  have hs_eq : s = Int.gcd (Int.gcd f.a g.a) ss := by
    rw [hs, gcdext.gcd_eq, hsp, Int.gcd_comm]
  obtain ⟨a1, ha1⟩ : s ∣ f.a := hs_eq ▸ (Int.gcd_dvd_left _ _).trans (Int.gcd_dvd_left _ _)
  obtain ⟨a2, ha2⟩ : s ∣ g.a := hs_eq ▸ (Int.gcd_dvd_left _ _).trans (Int.gcd_dvd_right _ _)
  obtain ⟨u, hsolves⟩ := solves_of_bezout hf hg hsum hdiff hs_eq hbezout hfirst hsecond ha1.symm
    ha2.symm rfl
  refine ⟨_, s, u, ?_, hsolves⟩
  have hs_ne := hsolves.s_pos.ne'
  have hc2 : (if s = 1 then g.c else g.c * s) = g.c * s := by
    split_ifs with hone
    · rw [hone, mul_one]
    · rfl
  have hquot : ∀ {n q : Int}, n = s * q → (if s = 1 then some n else divexact n s) = some q := by
    intro n q hn
    split_ifs with hone
    · rw [hn, hone, one_mul]
    · rw [hn, divexact_mul hs_ne]
  unfold nucompSecond
  simp only [← hs]
  simp only [hquot ha1, hquot ha2, hc2, Option.bind_eq_bind, Option.bind_some,
    fdivR_of_pos _ hsolves.a1_pos]
  rfl

theorem nucompLocals_spec (gcdext : Gcdext) (hf : f.PosDef d) (hg : g.PosDef d) :
    ∃ w s u, nucompLocals gcdext f g = some w ∧ w.Solves f g s u := by
  obtain ⟨hsum, hdiff⟩ := half_sum hf hg
  obtain ⟨hsp, hv1⟩ := first_bezout (g := g) gcdext hf.a_pos rfl
  unfold nucompLocals
  simp only [fdivR_of_pos _ hf.a_pos, Option.bind_eq_bind, Option.bind_some]
  generalize (if g.a % f.a = 0 then f.a else (gcdext.run (g.a % f.a) f.a).1) = sp at hsp hv1 ⊢
  generalize (if g.a % f.a = 0 then 0 else (gcdext.run (g.a % f.a) f.a).2.1) = v1 at hv1 ⊢
  obtain ⟨hfirst, hsecond⟩ := first_congruences hf hg hsum hdiff hv1 Int.dvd_self_sub_emod
  split_ifs with hone
  · rw [hone] at hsp hfirst hsecond
    have hbezout : ∀ ss : Int, ss * 0 + 1 * 1 = 1 := fun ss => by ring
    obtain ⟨u, hsolves⟩ := solves_of_bezout hf hg hsum hdiff (by rw [← hsp]; simp) (hbezout _) hfirst
      hsecond (one_mul _) (one_mul _) rfl
    refine ⟨_, 1, u, rfl, ?_⟩
    simpa using hsolves
  · exact nucompSecond_spec gcdext hf hg hsum hdiff hsp hfirst hsecond

end Locals

section Partial

variable {p : Nat} {f g : Form} {w : NucompLocals} {s u l n : Int} {r : Pair} {x2 x1 ε : Int}

theorem NucompLocals.Solves.partial_numerators (hw : w.Solves f g s u)
    (hl : w.a2 * w.k - w.m = w.a1 * l) (hn : u * w.k + g.c = w.a1 * n)
    (hr1 : r.r1 = w.a1 * x1 - w.k * r.co1) :
    w.m * r.co1 + w.a2 * r.r1 = w.a1 * (w.a2 * x1 - r.co1 * l) ∧
      w.ss * r.r1 - w.c2 * r.co1 = w.a1 * (w.ss * x1 - r.co1 * (s * n)) := by
  constructor
  · rw [hr1]
    linear_combination -r.co1 * hl
  · rw [hr1, hw.c2, ← hw.ss]
    linear_combination -(r.co1 * s) * hn

theorem NucompLocals.Solves.valueAt_eq (hw : w.Solves f g s u)
    (hl : w.a2 * w.k - w.m = w.a1 * l) (hr1 : r.r1 = w.a1 * x1 - w.k * r.co1) :
    r.r1 * (w.a2 * x1 - r.co1 * l) - r.co1 * (w.ss * x1 - r.co1 * (s * n)) =
      valueAt (w.form g.b (w.k * l + s * n)) r x1 := by
  have hsum := hw.sum
  have hdiff := hw.diff
  have hb : g.b = w.ss - w.m := by linarith
  rw [hr1, hb]
  simp only [valueAt, NucompLocals.form]
  linear_combination r.co1 * x1 * hl

theorem NucompLocals.quotient_numerator (w : NucompLocals) (b c : Int) (hε : ε * ε = 1)
    (hr1 : r.r1 = w.a1 * x1 - w.k * r.co1) (hdet : x2 * r.co1 - x1 * r.co2 = ε) :
    2 * (w.a2 * r.r1 - -ε * valueAt (w.form b c) r x1 * r.co2) =
      r.co1 * (ε * polarAt (w.form b c) r x2 x1 + b) := by
  rw [hr1]
  simp only [valueAt, polarAt, NucompLocals.form]
  have hone : x2 * r.co1 * ε - x1 * r.co2 * ε = 1 := by rw [← hε, ← hdet]; ring
  linear_combination (2 * w.a2 * w.k * r.co1 + b * r.co1 - 2 * w.a1 * w.a2 * x1) * hone

/-- The variables of the branch that reduces partially, in the order of their computation. -/
structure PartialValues (w : NucompLocals) (b D L : Int) (F : Form) (r : Pair)
    (m1 m2 ca q cb c : Int) : Prop where
  xgcd : checkedXgcdPartial w.a1 w.k L = some r
  co1 : r.co1 ≠ 0
  m1_eq : w.m * r.co1 + w.a2 * r.r1 = w.a1 * m1
  m2_eq : w.ss * r.r1 - w.c2 * r.co1 = w.a1 * m2
  ca_eq : ca = if r.co1 < 0 then r.r1 * m1 - r.co1 * m2 else r.co1 * m2 - r.r1 * m1
  q_eq : 2 * (w.a2 * r.r1 - ca * r.co2) = r.co1 * (q + b)
  cb_eq : fdivR q (2 * ca) = some cb
  cc_eq : divexact (cb * cb - D) ca = some (4 * c)
  equivalent : ProperlyEquivalent F (if ca < 0 then ⟨-ca, cb, -c⟩ else ⟨ca, cb, c⟩)

theorem exists_partialValues (hw : w.Solves f g s u) (hp : 0 < p) {L : Int} (hL : 0 ≤ L)
    (hl : w.a2 * w.k - w.m = w.a1 * l) (hn : u * w.k + g.c = w.a1 * n)
    (hF : (w.form g.b (w.k * l + s * n)).PosDef (-p)) :
    ∃ r m1 m2 ca q cb c,
      PartialValues w g.b (-p) L (w.form g.b (w.k * l + s * n)) r m1 m2 ca q cb c := by
  obtain ⟨r, hr⟩ : ∃ r, r = mpzXgcdPartial w.a1 w.k L := ⟨_, rfl⟩
  have hxgcd := checkedXgcdPartial_eq hw.k_nonneg hw.k_lt.le hL
  have hremainders := (mpzXgcdPartial_spec hw.k_nonneg hw.k_lt.le hL).1
  rw [← hr] at hxgcd hremainders
  obtain ⟨x2, x1, _, hr1, hdet⟩ := hremainders.exists_multiples hw.a1_pos.ne'
  obtain ⟨ε, hsign, hdet⟩ : ∃ ε : Int, (ε = 1 ∧ 0 < r.co1 ∨ ε = -1 ∧ r.co1 < 0) ∧
      x2 * r.co1 - x1 * r.co2 = ε := by
    rcases hdet with ⟨hpos, hdet⟩ | ⟨hneg, hdet⟩
    · exact ⟨1, Or.inl ⟨rfl, hpos⟩, hdet⟩
    · exact ⟨-1, Or.inr ⟨rfl, hneg⟩, hdet⟩
  have hε : ε * ε = 1 := by
    rcases hsign with ⟨h, _⟩ | ⟨h, _⟩
    · rw [h, one_mul]
    · rw [h, neg_one_mul, neg_neg]
  obtain ⟨hm1, hm2⟩ := hw.partial_numerators hl hn hr1
  have hvalue := hw.valueAt_eq (n := n) hl hr1
  have hquotient := w.quotient_numerator g.b (w.k * l + s * n) hε hr1 hdet
  obtain ⟨cb, c, hcb, hc, hequivalent⟩ := partial_steps hF hp hsign hdet rfl
  refine ⟨r, _, _, _, _, cb, c,
    ⟨hxgcd, hremainders.co1_ne_zero, hm1, hm2, ?_, hquotient, hcb, hc, hequivalent⟩⟩
  rcases hsign with ⟨h, hpos⟩ | ⟨h, hneg⟩
  · rw [if_neg (by omega), h, ← hvalue]
    ring
  · rw [if_pos hneg, h, ← hvalue]
    ring

theorem PartialValues.nucompPartial_eq {b D L : Int} {F : Form} {m1 m2 ca q cb c : Int}
    (h : PartialValues w b D L F r m1 m2 ca q cb c) (ha1 : w.a1 ≠ 0) :
    nucompPartial w b D L = some (if ca < 0 then ⟨-ca, cb, -c⟩ else ⟨ca, cb, c⟩) := by
  unfold nucompPartial
  simp only [h.xgcd, Option.bind_eq_bind, Option.bind_some]
  rw [h.m1_eq, divexact_mul ha1, Option.bind_some, h.m2_eq, divexact_mul ha1, Option.bind_some,
    ← h.ca_eq, h.q_eq, divexact_mul h.co1, Option.bind_some, add_sub_cancel_right, h.cb_eq,
    Option.bind_some, h.cc_eq, Option.bind_some, Int.mul_fdiv_cancel_left c four_ne_zero]
  split_ifs <;> rfl

end Partial

/-! ### The classes of the results -/

section Class

variable {p : Nat} [hp : PrimeDiscriminant p] {f g : Form} {x y : ReducedForm p} {L : Int}

theorem nucompOrdered_class (gcdext : Gcdext) (hf : HasClass f x) (hg : HasClass g y)
    (hL : 0 ≤ L) : ∃ h, nucompOrdered gcdext f g (-p) L = some h ∧ HasClass h (x * y) := by
  obtain ⟨w, s, u, hlocals, hw⟩ := nucompLocals_spec gcdext hf.posDef hg.posDef
  obtain ⟨l, n, hl, hn, hclass⟩ := hw.hasClass hf hg
  unfold nucompOrdered
  rw [hlocals, Option.bind_eq_bind, Option.bind_some]
  split_ifs
  · exact ⟨_, nucompPlain_eq hw hl hn, hclass⟩
  · obtain ⟨r, m1, m2, ca, q, cb, c, hvalues⟩ :=
      exists_partialValues hw hp.prime.pos hL hl hn hclass.posDef
    exact ⟨_, hvalues.nucompPartial_eq hw.a1_pos.ne',
      hclass.of_equivalent hvalues.equivalent⟩

theorem qfbNucomp_class (gcdext : Gcdext) (hf : HasClass f x) (hg : HasClass g y) (hL : 0 ≤ L) :
    ∃ h, qfbNucomp gcdext f g (-p) L = some h ∧ HasClass h (x * y) := by
  unfold qfbNucomp
  split_ifs
  · rw [mul_comm]
    exact nucompOrdered_class gcdext hg hf hL
  · exact nucompOrdered_class gcdext hf hg hL

end Class

/-! ### Doubling -/

section Nudupl

variable {d : Int} {f : Form}

theorem nudupl_bezout (gcdext : Gcdext) (f : Form) :
    (gcdext.run |f.b| f.a).1 = Int.gcd f.a f.b ∧
      ∃ u2, f.b * (if f.b < 0 then -(gcdext.run (-f.b) f.a).2.1 else (gcdext.run f.b f.a).2.1) +
        f.a * u2 = Int.gcd f.a f.b := by
  constructor
  · rw [gcdext.gcd_eq, Int.gcd_comm]
    rcases abs_choice f.b with h | h
    · rw [h]
    · rw [h, Int.gcd_neg]
  · split_ifs with hneg
    · have hbezout := gcdext.bezout (-f.b) f.a
      rw [gcdext.gcd_eq, Int.gcd_comm, Int.gcd_neg] at hbezout
      exact ⟨(gcdext.run (-f.b) f.a).2.2, by linarith⟩
    · have hbezout := gcdext.bezout f.b f.a
      rw [gcdext.gcd_eq, Int.gcd_comm] at hbezout
      exact ⟨_, hbezout⟩

theorem nudupl_solves (hf : f.PosDef d) {s v2 u2 a1 : Int} (hs : s = Int.gcd f.a f.b)
    (hbezout : f.b * v2 + f.a * u2 = s) (ha1 : s * a1 = f.a) :
    ∃ u, NucompLocals.Solves f f s u ⟨a1, a1, f.c * s, -(v2 * f.c) % a1, 0, f.b⟩ := by
  have hself : (Int.gcd f.a f.a : Int) = f.a := by
    rw [Int.gcd_self, Int.natAbs_of_nonneg hf.a_pos.le]
  apply solves_of_bezout (k := 0) hf hf (two_mul _) (by ring) (by rw [hself, hs]) hbezout
    (by simp) ⟨f.c, by ring⟩ ha1 ha1
  rw [zero_mul, zero_sub]

variable {p : Nat} [hp : PrimeDiscriminant p] {x : ReducedForm p} {L : Int}

/-- `qfb_nudupl` squares classes, on either branch. -/
theorem qfbNudupl_class (gcdext : Gcdext) (hf : HasClass f x) (hL : 0 ≤ L) :
    ∃ h, qfbNudupl gcdext f (-p) L = some h ∧ HasClass h (x * x) := by
  obtain ⟨hs, u2, hbezout⟩ := nudupl_bezout gcdext f
  unfold qfbNudupl
  dsimp only
  generalize (gcdext.run |f.b| f.a).1 = s at hs ⊢
  generalize (if f.b < 0 then -(gcdext.run (-f.b) f.a).2.1 else (gcdext.run f.b f.a).2.1) = v2
    at hbezout ⊢
  rw [← hs] at hbezout
  obtain ⟨a1, ha1⟩ : s ∣ f.a := hs ▸ Int.gcd_dvd_left _ _
  obtain ⟨u, hw⟩ := nudupl_solves hf.posDef hs hbezout ha1.symm
  have hs_ne := hw.s_pos.ne'
  have ha1_pos : 0 < a1 := hw.a1_pos
  have hquot : (if s = 1 then some f.a else fdivQ f.a s) = some a1 := by
    split_ifs with hone
    · rw [ha1, hone, one_mul]
    · rw [ha1, fdivQ_mul hs_ne]
  have hc1 : (if s = 1 then f.c else f.c * s) = f.c * s := by
    split_ifs with hone
    · rw [hone, mul_one]
    · rfl
  obtain ⟨l, n, hl, hn, hclass⟩ := hw.hasClass hf hf
  have hnumerator := hw.numerator hl hn
  dsimp only at hl hn hnumerator
  have hl_eq : l = -(v2 * f.c) % a1 := by
    apply mul_left_cancel₀ ha1_pos.ne'
    linarith
  rw [hquot, hc1, Option.bind_eq_bind, Option.bind_some, fdivR_of_pos _ ha1_pos, Option.bind_eq_bind,
    Option.bind_some]
  split_ifs
  · rw [hnumerator, fdivQ_mul ha1_pos.ne']
    exact ⟨_, rfl, hclass⟩
  · obtain ⟨r, m1, m2, ca, q, cb, c, hvalues⟩ :=
      exists_partialValues hw hp.prime.pos hL hl hn hclass.posDef
    refine ⟨_, ?_, hclass.of_equivalent hvalues.equivalent⟩
    have hm1 := hvalues.m1_eq
    have hm2 := hvalues.m2_eq
    have hca := hvalues.ca_eq
    have hq := hvalues.q_eq
    dsimp only at hm1 hm2 hca hq
    have hm1_eq : m1 = r.r1 := by
      apply mul_left_cancel₀ ha1_pos.ne'
      linarith
    have hra : (if r.co1 ≥ 0 then -(r.r1 * r.r1 - r.co1 * m2) else r.r1 * r.r1 - r.co1 * m2) = ca := by
      rw [hca, hm1_eq]
      split_ifs <;> omega
    have hcb : 2 * -(ca * r.co2 - a1 * r.r1) = r.co1 * (q + f.b) := by
      rw [← hq]
      ring
    rw [hvalues.xgcd, Option.bind_some, hm2, divexact_mul ha1_pos.ne', Option.bind_some, hra, hcb,
      divexact_mul hvalues.co1, Option.bind_some, add_sub_cancel_right, hvalues.cb_eq,
      Option.bind_some, hvalues.cc_eq, Option.bind_some, Int.mul_tdiv_cancel_left c four_ne_zero]
    split_ifs <;> rfl

end Nudupl

/-! ### Agreement with the plain composition -/

/-- For any `L`, no division of `nucomp.h` is undefined, and what it returns reduces to the plain
product of the two forms. -/
theorem nucomp_agrees_with_mul (gcdext gcdext' : Gcdext) {p : Nat} (hprime : p.Prime)
    (hmod : p % 4 = 3) {f g : Form} (hf : f.PosDef (-p)) (hg : g.PosDef (-p)) {L : Int} (hL : 0 ≤ L) :
    (∃ h r, qfbNucomp gcdext f g (-p) L = some h ∧ h.PosDef (-p) ∧ reduce h = .ok r ∧
      r.Reduced (-p) ∧ ((f = g → IsCoprime f.a f.b) → f.dot gcdext' g = .ok r)) ∧
    ∃ h r, qfbNudupl gcdext f (-p) L = some h ∧ h.PosDef (-p) ∧ reduce h = .ok r ∧
      r.Reduced (-p) ∧ (IsCoprime f.a f.b → f.dot gcdext' f = .ok r) := by
  have : PrimeDiscriminant p := ⟨hprime, hmod⟩
  obtain ⟨x, hx⟩ := exists_hasClass hf
  obtain ⟨y, hy⟩ := exists_hasClass hg
  constructor
  · obtain ⟨h, hnucomp, hh⟩ := qfbNucomp_class gcdext hx hy hL
    exact ⟨h, (x * y).form, hnucomp, hh.posDef, reduce_class hh, (x * y).reduced,
      mul_reducedForm gcdext' hx hy⟩
  · obtain ⟨h, hnudupl, hh⟩ := qfbNudupl_class gcdext hx hL
    exact ⟨h, (x * x).form, hnudupl, hh.posDef, reduce_class hh, (x * x).reduced,
      fun hcop => mul_reducedForm gcdext' hx hx fun _ => hcop⟩

/-- Two forms of discriminant `-23`. -/
theorem nucomp_agrees_with_mul_23 : ∃ h r, qfbNucomp euclid ⟨2, 1, 3⟩ ⟨4, -3, 2⟩ (-23) 1 = some h ∧
    reduce h = .ok r ∧ dot euclid ⟨2, 1, 3⟩ ⟨4, -3, 2⟩ = .ok r := by
  have hf : PosDef (-(23 : Nat)) ⟨2, 1, 3⟩ := ⟨by decide, by decide⟩
  have hg : PosDef (-(23 : Nat)) ⟨4, -3, 2⟩ := ⟨by decide, by decide⟩
  obtain ⟨⟨h, r, hnucomp, _, hreduce, _, hdot⟩, _⟩ :=
    nucomp_agrees_with_mul euclid euclid (by norm_num) (by decide) hf hg zero_le_one
  exact ⟨h, r, hnucomp, hreduce, hdot (fun heq => absurd heq (by decide))⟩

end Lootbox.Chiavdf

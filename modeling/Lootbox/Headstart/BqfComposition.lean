import Lootbox.Base.PlaneLattice
import Lootbox.Headstart.Bqf

/-!
# `math/bqf.py`: composition multiplies lattices

The form `(a, b, c)` of discriminant `d` stands for the lattice of `a` and `(-b + √d) / 2`. Both
branches of `__mul__` return a form whose lattice is homothetic to the product of the two
lattices, and on the way no division leaves a remainder.
-/

namespace Lootbox.Headstart

open PlaneLattice

/-! ### `solve_linmod` -/

section Linmod

variable {gcdext : Gcdext} {a b m : Int}

theorem floorDiv_of_pos (a : Int) {b : Int} (hb : 0 < b) : floorDiv a b = .ok (a / b) := by
  rw [floorDiv, if_neg (by omega), Int.fdiv_eq_ediv_of_nonneg a (by omega)]

theorem floorMod_of_pos (a : Int) {b : Int} (hb : 0 < b) : floorMod a b = .ok (a % b) := by
  rw [floorMod, if_neg (by omega), Int.fmod_eq_emod_of_nonneg a (by omega)]

theorem floorDiv_mul {b : Int} (hb : 0 < b) (q : Int) : floorDiv (b * q) b = .ok q := by
  rw [floorDiv_of_pos _ hb, Int.mul_ediv_cancel_left q (by omega)]

theorem solveLinmod_spec (gcdext : Gcdext) (hm : 0 < m) (hdvd : (Int.gcd a m : Int) ∣ b) :
    ∃ u v, solveLinmod gcdext a b m = .ok (u, v) ∧ m ∣ a * u - b ∧ v * Int.gcd a m = m := by
  have hg : (0 : Int) < Int.gcd a m := by
    exact_mod_cast Int.gcd_pos_of_ne_zero_right a (by omega)
  obtain ⟨q, rfl⟩ := hdvd
  obtain ⟨v, hv⟩ : (Int.gcd a m : Int) ∣ m := Int.gcd_dvd_right a m
  obtain ⟨⟨g, d, e⟩, hrun⟩ : ∃ r, gcdext.run a m = r := ⟨_, rfl⟩
  have hgcd := gcdext.gcd_eq a m
  have hbezout := gcdext.bezout a m
  rw [hrun] at hgcd hbezout
  obtain rfl : g = Int.gcd a m := hgcd
  refine ⟨(q * d) % m, v, ?_, ?_, ?_⟩
  · have hdiv : floorDiv m (Int.gcd a m) = .ok v := by
      have hmul := floorDiv_mul hg v
      rwa [← hv] at hmul
    simp only [solveLinmod, hrun, floorDiv_mul hg, floorMod_of_pos _ hg, floorMod_of_pos _ hm, hdiv,
      ok_bind, Int.mul_emod_right]
    rfl
  · have hmod : m ∣ q * d - (q * d) % m := Int.dvd_self_sub_emod
    obtain ⟨r, hr⟩ := hmod
    refine ⟨-(a * r) - q * e, ?_⟩
    linear_combination (-a) * hr + q * hbezout
  · rw [mul_comm]
    exact hv.symm

theorem solveLinmod_exact (gcdext : Gcdext) {u v : Int} (hm : 0 < m)
    (h : solveLinmod gcdext a b m = .ok (u, v)) : (Int.gcd a m : Int) ∣ b ∧ v * Int.gcd a m = m := by
  have hg : (0 : Int) < Int.gcd a m := by
    exact_mod_cast Int.gcd_pos_of_ne_zero_right a (by omega)
  by_cases hdvd : (Int.gcd a m : Int) ∣ b
  · obtain ⟨u', v', heq, _, hv⟩ := solveLinmod_spec gcdext hm hdvd
    cases heq.symm.trans h
    exact ⟨hdvd, hv⟩
  · exfalso
    have hgcd := gcdext.gcd_eq a m
    have hne : b % Int.gcd a m ≠ 0 := fun hzero => hdvd (Int.dvd_of_emod_eq_zero hzero)
    simp only [solveLinmod, hgcd, floorDiv_of_pos _ hg, floorMod_of_pos _ hg, ok_bind, if_pos hne] at h
    cases h

end Linmod

namespace BinaryQF

/-! ### Forms of one discriminant -/

structure PosDef (d : Int) (f : BinaryQF) : Prop where
  a_pos : 0 < f.a
  disc : f.discriminant = d

section Forms

variable {d : Int} {f g : BinaryQF}

theorem PosDef.eq (hf : PosDef d f) : f.b ^ 2 - 4 * f.a * f.c = d := hf.disc

theorem PosDef.c_pos (hd : d < 0) (hf : PosDef d f) : 0 < f.c := by
  have ha := hf.a_pos
  have hdisc := hf.eq
  by_contra hc
  have hac : f.a * f.c ≤ 0 := mul_nonpos_of_nonneg_of_nonpos ha.le (not_lt.mp hc)
  nlinarith [sq_nonneg f.b]

theorem PosDef.even_sub (hf : PosDef d f) (hg : PosDef d g) : ∃ h, g.b - f.b = 2 * h := by
  have hfd := hf.eq
  have hgd := hg.eq
  have heven : Even (g.b ^ 2 - f.b ^ 2) := ⟨2 * (g.a * g.c - f.a * f.c), by linear_combination hgd - hfd⟩
  have hsub : Even (g.b - f.b) := by
    rw [Int.even_sub] at heven ⊢
    rwa [Int.even_pow' two_ne_zero, Int.even_pow' two_ne_zero] at heven
  obtain ⟨h, hh⟩ := hsub
  exact ⟨h, by rw [hh, two_mul]⟩

theorem PosDef.isUnit_of_dvd (hd : Squarefree d) (hf : PosDef d f) {q : Int} (ha : q ∣ f.a)
    (hb : q ∣ f.b) (hc : q ∣ f.c) : IsUnit q := by
  apply hd q
  obtain ⟨a, ha⟩ := ha
  obtain ⟨b, hb⟩ := hb
  obtain ⟨c, hc⟩ := hc
  have hdisc := hf.eq
  rw [ha, hb, hc] at hdisc
  exact ⟨b ^ 2 - 4 * a * c, by rw [← hdisc]; ring⟩

end Forms

/-! ### Lattices of forms -/

section Lattice

variable {K : Type*} [Field K]

/-- The lattice of `a` and `(-b + σ) / 2`, where `σ` is a square root of the discriminant. -/
def lattice (σ : K) (f : BinaryQF) : Submodule ℤ K := pair (f.a : K) ((-f.b + σ) / (2 : Int))

theorem lattice_def (σ : K) (f : BinaryQF) : lattice σ f = pair (f.a : K) ((-f.b + σ) / 2) := by
  rw [lattice, Int.cast_ofNat]

end Lattice

/-! ### Gaussian composition -/

/-- Every division of `__mul__` is exact. -/
structure Locals.Exact (v : Locals) (x y : BinaryQF) : Prop where
  g : 2 * v.g = x.b + y.b
  h : 2 * v.h = y.b - x.b
  s : v.w * v.s = x.a
  t : v.w * v.t = y.a
  u : v.w * v.u = v.g
  l : v.s * v.l = v.k * v.t - v.h
  m : v.s * v.t * v.m = v.t * v.u * v.k - v.h * v.u - x.c * v.s

section Bezout

theorem exists_bezout_three {x y z : Int} (h : Int.gcd (Int.gcd x y) z = 1) :
    ∃ f₁ f₂ f₃ : Int, f₁ * x + f₂ * y + f₃ * z = 1 := by
  obtain ⟨p, q, hpq⟩ := Int.isCoprime_iff_gcd_eq_one.mpr h
  have hxy := Int.gcd_eq_gcd_ab x y
  refine ⟨p * Int.gcdA x y, p * Int.gcdB x y, q, ?_⟩
  linear_combination hpq - p * hxy

theorem exists_bezout_four {w x y z : Int}
    (h : ∀ q : Int, q ∣ w → q ∣ x → q ∣ y → q ∣ z → IsUnit q) :
    ∃ e₁ e₂ e₃ e₄ : Int, e₁ * w + e₂ * x + e₃ * y + e₄ * z = 1 := by
  have hspan : Ideal.span {w, x, y, z} = (⊤ : Ideal Int) := by
    obtain ⟨q, hq⟩ := IsPrincipalIdealRing.principal (Ideal.span {w, x, y, z})
    have hdvd : ∀ r ∈ ({w, x, y, z} : Set Int), q ∣ r := by
      intro r hr
      have hmem := Ideal.subset_span hr
      rw [hq] at hmem
      exact Ideal.mem_span_singleton.mp hmem
    have hunit := h q (hdvd w (by simp)) (hdvd x (by simp)) (hdvd y (by simp)) (hdvd z (by simp))
    rw [hq]
    exact Ideal.span_singleton_eq_top.mpr hunit
  have hone : (1 : Int) ∈ Ideal.span {w, x, y, z} := hspan ▸ Submodule.mem_top
  simp only [Ideal.mem_span_insert, Ideal.mem_span_singleton'] at hone
  obtain ⟨e₁, _, ⟨e₂, _, ⟨e₃, _, ⟨e₄, rfl⟩, rfl⟩, rfl⟩, hone⟩ := hone
  exact ⟨e₁, e₂, e₃, e₄, by linarith⟩

end Bezout

section Compose

variable {d : Int} {f g : BinaryQF}

theorem gcd_eq_one {w s t u : Int} (hw : 0 < w)
    (h : w = Int.gcd (Int.gcd (w * s) (w * t)) (w * u)) : Int.gcd (Int.gcd s t) u = 1 := by
  rw [Int.gcd_mul_left, Nat.cast_mul, Int.natAbs_of_nonneg hw.le, Int.gcd_mul_left, Nat.cast_mul,
    Int.natAbs_of_nonneg hw.le] at h
  have hone : (Int.gcd (Int.gcd s t) u : Int) = 1 := by
    apply mul_left_cancel₀ hw.ne'
    rw [mul_one]
    exact h.symm
  exact_mod_cast hone

/-- Two chained congruences: `s * t ∣ t * u * k - t * gamma` and `s ∣ t * k - h`. -/
theorem exists_solutions (gcdext : Gcdext) {s t u h gamma n : Int} (hs : 0 < s) (ht : 0 < t)
    (hgcd : Int.gcd (Int.gcd s t) u = 1) (hn : n = t * gamma) (hu : s ∣ n - h * u) :
    ∃ mu nu lam rest, solveLinmod gcdext (t * u) n (s * t) = .ok (mu, nu) ∧
      solveLinmod gcdext (t * nu) (h - t * mu) s = .ok (lam, rest) ∧
      s ∣ (mu + nu * lam) * t - h ∧ s * t ∣ t * u * (mu + nu * lam) - n := by
  obtain ⟨e, he⟩ : ∃ e : Int, e = Int.gcd u s := ⟨_, rfl⟩
  have he_pos : 0 < e := by
    rw [he]
    exact_mod_cast Int.gcd_pos_of_ne_zero_right u hs.ne'
  have hcop : IsCoprime e t := by
    rw [Int.isCoprime_iff_gcd_eq_one, he, Int.gcd_assoc, Int.gcd_comm u, hgcd]
  obtain ⟨u', hu'⟩ : e ∣ u := by rw [he]; exact Int.gcd_dvd_left u s
  obtain ⟨s', hs'⟩ : e ∣ s := by rw [he]; exact Int.gcd_dvd_right u s
  have hcop' : IsCoprime s' u' := by
    rw [Int.isCoprime_iff_gcd_eq_one, Int.gcd_comm]
    have hge : (Int.gcd u s : Int) = e * Int.gcd u' s' := by
      conv_lhs => rw [hu', hs']
      rw [Int.gcd_mul_left, Nat.cast_mul, Int.natAbs_of_nonneg he_pos.le]
    have hone : (Int.gcd u' s' : Int) = 1 := by
      apply mul_left_cancel₀ he_pos.ne'
      rw [mul_one, ← hge, he]
    exact_mod_cast hone
  have hgcd_first : (Int.gcd (t * u) (s * t) : Int) = t * e := by
    rw [mul_comm s t, Int.gcd_mul_left, Nat.cast_mul, Int.natAbs_of_nonneg ht.le, he]
  have hgamma : e ∣ gamma := by
    apply hcop.dvd_of_dvd_mul_left
    rw [← hn]
    have hes : e ∣ n - h * u := Dvd.dvd.trans ⟨s', hs'⟩ hu
    have heu : e ∣ h * u := Dvd.dvd.mul_left ⟨u', hu'⟩ h
    exact (dvd_sub_left heu).mp hes
  obtain ⟨mu, nu, hfirst, hmu, hnu⟩ := solveLinmod_spec gcdext (a := t * u) (b := n) (mul_pos hs ht)
    (by rw [hgcd_first, hn]; exact mul_dvd_mul_left t hgamma)
  have hnu' : nu = s' := by
    rw [hgcd_first] at hnu
    apply mul_right_cancel₀ (mul_pos ht he_pos).ne'
    rw [hnu]
    conv_lhs => rw [hs']
    ring
  subst hnu'
  have hgcd_second : (Int.gcd (t * nu) s : Int) = nu := by
    have hnu_pos : 0 < nu := by
      rw [hs'] at hs
      exact pos_of_mul_pos_right hs he_pos.le
    conv_lhs => rw [hs']
    rw [mul_comm t, mul_comm e, Int.gcd_mul_left, Nat.cast_mul, Int.natAbs_of_nonneg hnu_pos.le,
      Int.gcd_comm, Int.isCoprime_iff_gcd_eq_one.mp hcop, Nat.cast_one, mul_one]
  have hdvd : nu ∣ h - t * mu := by
    apply hcop'.dvd_of_dvd_mul_left
    have hs_dvd : s ∣ u * (h - t * mu) := by
      have hmod : s ∣ t * u * mu - n := Dvd.dvd.trans (dvd_mul_right s t) hmu
      have hsum := dvd_add hmod hu
      have hneg : u * (h - t * mu) = -(t * u * mu - n + (n - h * u)) := by ring
      rw [hneg]
      exact hsum.neg_right
    rw [hs', hu', mul_assoc] at hs_dvd
    exact (mul_dvd_mul_iff_left he_pos.ne').mp hs_dvd
  obtain ⟨lam, rest, hsecond, hlam, _⟩ := solveLinmod_spec gcdext (a := t * nu) (b := h - t * mu) hs
    (by rw [hgcd_second]; exact hdvd)
  refine ⟨mu, nu, lam, rest, hfirst, hsecond, ?_, ?_⟩
  · have heq : (mu + nu * lam) * t - h = t * nu * lam - (h - t * mu) := by ring
    rw [heq]
    exact hlam
  · have heq : t * u * (mu + nu * lam) - n = t * u * mu - n + s * t * (u' * lam) := by
      rw [hs', hu']
      ring
    rw [heq]
    exact dvd_add hmu (dvd_mul_right _ _)

/-- The composition of two forms of one discriminant runs through, and exactly. -/
theorem compose_spec (gcdext : Gcdext) (hf : PosDef d f) (hg : PosDef d g) :
    ∃ v, compose gcdext f g = .ok v ∧ v.Exact f g ∧ 0 < v.w ∧ 0 < v.s ∧ 0 < v.t ∧
      Int.gcd (Int.gcd v.s v.t) v.u = 1 := by
  obtain ⟨h, hh⟩ := hf.even_sub hg
  obtain ⟨sum, hsum⟩ : ∃ sum, sum = f.b + h := ⟨_, rfl⟩
  have hsum_eq : f.b + g.b = 2 * sum := by linarith
  have hneg_eq : -(f.b - g.b) = 2 * h := by linarith
  obtain ⟨w, hw⟩ : ∃ w : Int, w = Int.gcd (Int.gcd f.a g.a) sum := ⟨_, rfl⟩
  have hw_pos : 0 < w := by
    have hne : (Int.gcd f.a g.a : Int) ≠ 0 := by
      exact_mod_cast (Int.gcd_pos_of_ne_zero_left g.a hf.a_pos.ne').ne'
    rw [hw]
    exact_mod_cast Int.gcd_pos_of_ne_zero_left sum hne
  obtain ⟨s, hs⟩ : w ∣ f.a := hw ▸ (Int.gcd_dvd_left _ _).trans (Int.gcd_dvd_left _ _)
  obtain ⟨t, ht⟩ : w ∣ g.a := hw ▸ (Int.gcd_dvd_left _ _).trans (Int.gcd_dvd_right _ _)
  obtain ⟨u, hu⟩ : w ∣ sum := hw ▸ Int.gcd_dvd_right _ _
  have hs_pos : 0 < s := pos_of_mul_pos_right (hs ▸ hf.a_pos) hw_pos.le
  have ht_pos : 0 < t := pos_of_mul_pos_right (ht ▸ hg.a_pos) hw_pos.le
  have hgcd : Int.gcd (Int.gcd s t) u = 1 := by
    apply gcd_eq_one hw_pos
    rw [← hs, ← ht, ← hu, ← hw]
  have hfd := hf.eq
  have hgd := hg.eq
  have hgamma : h * u + s * f.c = t * g.c := by
    apply mul_left_cancel₀ (mul_pos four_pos hw_pos).ne'
    linear_combination -4 * h * hu - 2 * sum * hh - (g.b - f.b) * hsum_eq + hgd - hfd -
      4 * f.c * hs + 4 * g.c * ht
  obtain ⟨mu, nu, lam, rest, hfirst, hsecond, ⟨l, hl⟩, m, hm⟩ :=
    exists_solutions gcdext hs_pos ht_pos hgcd hgamma ⟨f.c, by ring⟩
  refine ⟨⟨sum, h, w, s, t, u, mu + nu * lam, l, m⟩, ?_, ?_, hw_pos, hs_pos, ht_pos, hgcd⟩
  · have hg_eq : (f.b + g.b).fdiv 2 = sum := by
      rw [hsum_eq, Int.fdiv_eq_ediv_of_nonneg _ two_pos.le, Int.mul_ediv_cancel_left _ two_ne_zero]
    have hh_eq : (-(f.b - g.b)).fdiv 2 = h := by
      rw [hneg_eq, Int.fdiv_eq_ediv_of_nonneg _ two_pos.le, Int.mul_ediv_cancel_left _ two_ne_zero]
    have hs_eq : floorDiv f.a w = .ok s := by rw [hs, floorDiv_mul hw_pos]
    have ht_eq : floorDiv g.a w = .ok t := by rw [ht, floorDiv_mul hw_pos]
    have hu_eq : floorDiv sum w = .ok u := by rw [hu, floorDiv_mul hw_pos]
    have hl_eq : floorDiv ((mu + nu * lam) * t - h) s = .ok l := by rw [hl, floorDiv_mul hs_pos]
    have hm_eq : floorDiv (t * u * (mu + nu * lam) - h * u - f.c * s) (s * t) = .ok m := by
      have hsplit : t * u * (mu + nu * lam) - h * u - f.c * s = s * t * m := by
        rw [← hm]
        ring
      rw [hsplit, floorDiv_mul (mul_pos hs_pos ht_pos)]
    simp only [compose, hg_eq, hh_eq, ← hw, hs_eq, ht_eq, hu_eq, hfirst, hsecond, hl_eq, hm_eq, ok_bind]
    rfl
  · refine ⟨hsum_eq.symm, hh.symm, hs.symm, ht.symm, hu.symm, hl.symm, ?_⟩
    linear_combination -hm

section Exact

variable {v : Locals} (hv : v.Exact f g)
include hv

theorem Locals.Exact.b_eq : f.b = v.w * v.u - v.h := by
  have hg := hv.g
  have hh := hv.h
  have hu := hv.u
  linarith

theorem Locals.Exact.beta_eq : g.b = v.w * v.u + v.h := by
  have hg := hv.g
  have hh := hv.h
  have hu := hv.u
  linarith

theorem Locals.Exact.discriminant_form : v.form.discriminant = f.discriminant := by
  have hs := hv.s
  have hl := hv.l
  have hm := hv.m
  have hb := hv.b_eq
  simp only [Locals.form, discriminant]
  rw [hb, ← hs]
  linear_combination (4 * v.w) * hm - (2 * v.w * v.u + v.k * v.t - v.l * v.s + v.h) * hl

/-- The two by two minors of the composition are `h` and the last coefficients. -/
theorem Locals.Exact.minors (hw : 0 < v.w) (hs : 0 < v.s) (ht : 0 < v.t)
    (hdisc : f.discriminant = g.discriminant) :
    v.t * v.k - v.s * v.l = v.h ∧ v.u * v.k - v.s * v.m = g.c ∧ v.u * v.l - v.t * v.m = f.c := by
  have hgamma : v.h * v.u + v.s * f.c = v.t * g.c := by
    have hb := hv.b_eq
    have hbeta := hv.beta_eq
    simp only [discriminant] at hdisc
    rw [hb, hbeta, ← hv.s, ← hv.t] at hdisc
    apply mul_left_cancel₀ (mul_pos four_pos hw).ne'
    linear_combination -hdisc
  have hl := hv.l
  have hm := hv.m
  refine ⟨by linarith, ?_, ?_⟩
  · apply mul_left_cancel₀ ht.ne'
    linear_combination -hm + hgamma
  · apply mul_left_cancel₀ hs.ne'
    linear_combination v.u * hl - hm

/-- The lattices multiply to `w` times the lattice of the composition. -/
theorem Locals.Exact.lattice_mul {K : Type*} [Field K] [CharZero K] {σ : K} (hw : 0 < v.w)
    (hs : 0 < v.s) (ht : 0 < v.t) (hgcd : Int.gcd (Int.gcd v.s v.t) v.u = 1) (hd : Squarefree d)
    (hf : PosDef d f) (hg : PosDef d g) (hσ : σ ^ 2 = d) :
    lattice σ f * lattice σ g = Submodule.span ℤ {(v.w : K)} * lattice σ v.form := by
  obtain ⟨hmin₁, hmin₂, hmin₃⟩ := hv.minors hw hs ht (hf.disc.trans hg.disc.symm)
  have hb := hv.b_eq
  have hbeta := hv.beta_eq
  have hbezout : ∃ e₁ e₂ e₃ e₄ : Int, e₁ * v.w + e₂ * (v.t * v.k - v.s * v.l) +
      e₃ * (v.u * v.k - v.s * v.m) + e₄ * (v.u * v.l - v.t * v.m) = 1 := by
    rw [hmin₁, hmin₂, hmin₃]
    apply exists_bezout_four
    intro q hqw hqh _ hqc
    apply hf.isUnit_of_dvd hd (hv.s ▸ hqw.mul_right v.s) _ hqc
    rw [hb]
    exact dvd_sub (hqw.mul_right v.u) hqh
  obtain ⟨x, hx⟩ : ∃ x : K, x = v.s * v.t := ⟨_, rfl⟩
  obtain ⟨y, hy⟩ : ∃ y : K, y = (-(v.w * v.u - (v.k * v.t + v.l * v.s)) + σ) / 2 := ⟨_, rfl⟩
  have hform : lattice σ v.form = pair x y := by
    rw [lattice_def, Locals.form, hx, hy]
    push_cast
    rfl
  have ha : (f.a : K) = v.w * v.s := by exact_mod_cast congrArg (Int.cast : Int → K) hv.s.symm
  have halpha : (g.a : K) = v.w * v.t := by exact_mod_cast congrArg (Int.cast : Int → K) hv.t.symm
  have hbK : (f.b : K) = v.w * v.u - v.h := by exact_mod_cast congrArg (Int.cast : Int → K) hb
  have hbetaK : (g.b : K) = v.w * v.u + v.h := by exact_mod_cast congrArg (Int.cast : Int → K) hbeta
  have hlK : (v.s : K) * v.l = v.k * v.t - v.h := by exact_mod_cast congrArg (Int.cast : Int → K) hv.l
  have hτf : (-f.b + σ) / 2 = y - v.l * v.s := by
    rw [hy, hbK]
    linear_combination (1 / 2) * hlK
  have hτg : (-g.b + σ) / 2 = y - v.k * v.t := by
    rw [hy, hbetaK]
    linear_combination (-1 / 2) * hlK
  have hprod : (y - v.l * v.s) * (y - v.k * v.t) = v.m * (v.w * x) - v.u * (v.w * y) := by
    have hdisc := hv.discriminant_form.trans hf.disc
    simp only [Locals.form, discriminant] at hdisc
    have hdiscK : ((v.w * v.u - (v.k * v.t + v.l * v.s)) ^ 2 -
        4 * (v.s * v.t) * (v.k * v.l - v.w * v.m) : K) = d := by
      exact_mod_cast congrArg (Int.cast : Int → K) hdisc
    rw [hx, hy]
    linear_combination (1 / 4) * hσ - (1 / 4) * hdiscK
  have h₁ : (v.w * v.s : K) * (v.w * v.t) = v.w * (v.w * x) := by
    rw [hx]
    ring
  have h₂ : (v.w * v.s : K) * (y - v.k * v.t) = v.s * (v.w * y) - v.k * (v.w * x) := by
    rw [hx]
    ring
  have h₃ : (y - v.l * v.s) * (v.w * v.t : K) = v.t * (v.w * y) - v.l * (v.w * x) := by
    rw [hx]
    ring
  rw [hform, span_mul_pair, lattice_def, lattice_def, pair_mul_pair, hτf, hτg, ha, halpha, hprod, h₁,
    h₂, h₃, span_four_eq_pair hbezout (exists_bezout_three hgcd)]

end Exact

end Compose

/-! ### Squares and products -/

section Product

variable {d : Int} {f g : BinaryQF} {K : Type*} [Field K] [CharZero K] {σ : K}

/-- `(b * mu - c) // a` is exact, and the square is a form of the same discriminant. -/
theorem square_spec (gcdext : Gcdext) (hf : PosDef d f) (hcop : IsCoprime f.a f.b) :
    ∃ mu rest m, solveLinmod gcdext f.b f.c f.a = .ok (mu, rest) ∧ f.a * m = f.b * mu - f.c ∧
      f.square gcdext = .ok ⟨f.a ^ 2, f.b - 2 * f.a * mu, mu ^ 2 - m⟩ := by
  have hgcd : (Int.gcd f.b f.a : Int) ∣ f.c := by
    rw [Int.isCoprime_iff_gcd_eq_one.mp hcop.symm]
    exact one_dvd f.c
  obtain ⟨mu, rest, hsolve, ⟨m, hm⟩, _⟩ := solveLinmod_spec gcdext hf.a_pos hgcd
  refine ⟨mu, rest, m, hsolve, hm.symm, ?_⟩
  have hdiv : floorDiv (f.b * mu - f.c) f.a = .ok m := by rw [hm, floorDiv_mul hf.a_pos]
  simp only [square, hsolve, hdiv, ok_bind]
  rfl

theorem square_posDef (hf : PosDef d f) {mu m : Int} (hm : f.a * m = f.b * mu - f.c) :
    PosDef d ⟨f.a ^ 2, f.b - 2 * f.a * mu, mu ^ 2 - m⟩ := by
  refine ⟨pow_pos hf.a_pos 2, ?_⟩
  rw [← hf.disc]
  simp only [discriminant]
  linear_combination (4 * f.a) * hm

theorem square_lattice (hf : PosDef d f) (hcop : IsCoprime f.a f.b) (hσ : σ ^ 2 = d) {mu m : Int}
    (hm : f.a * m = f.b * mu - f.c) :
    lattice σ f * lattice σ f = lattice σ ⟨f.a ^ 2, f.b - 2 * f.a * mu, mu ^ 2 - m⟩ := by
  obtain ⟨p, q, hpq⟩ := hcop
  obtain ⟨x, hx⟩ : ∃ x : K, x = f.a ^ 2 := ⟨_, rfl⟩
  obtain ⟨y, hy⟩ : ∃ y : K, y = (-(f.b - 2 * f.a * mu) + σ) / 2 := ⟨_, rfl⟩
  have hτ : (-f.b + σ) / 2 = y - f.a * mu := by
    rw [hy]
    ring
  have hmK : (f.a : K) * m = f.b * mu - f.c := by exact_mod_cast congrArg (Int.cast : Int → K) hm
  have hdiscK : (f.b : K) ^ 2 - 4 * f.a * f.c = d := by
    exact_mod_cast congrArg (Int.cast : Int → K) hf.eq
  have hform : lattice σ ⟨f.a ^ 2, f.b - 2 * f.a * mu, mu ^ 2 - m⟩ = pair x y := by
    rw [lattice_def, hx, hy]
    push_cast
    rfl
  have h₁ : (f.a : K) * f.a = (1 : Int) * x := by
    rw [hx]
    push_cast
    ring
  have h₂ : (f.a : K) * (y - f.a * mu) = f.a * y - mu * x := by
    rw [hx]
    ring
  have h₃ : (y - f.a * mu) * (f.a : K) = f.a * y - mu * x := by rw [mul_comm, h₂]
  have h₄ : (y - f.a * mu) * (y - f.a * mu) = m * x - f.b * y := by
    rw [hx, hy]
    linear_combination (1 / 4) * hσ - (1 / 4) * hdiscK - (f.a : K) * hmK
  rw [hform, lattice_def, pair_mul_pair, hτ, h₁, h₂, h₃, h₄]
  exact span_four_eq_pair ⟨1, 0, 0, 0, by ring⟩ ⟨p, 0, q, by linarith⟩

theorem mul_spec (gcdext : Gcdext) (hd : Squarefree d) (hf : PosDef d f) (hg : PosDef d g)
    (hcop : f = g → IsCoprime f.a f.b) (hσ : σ ^ 2 = d) :
    ∃ h, f.mul gcdext g = .ok h ∧ PosDef d h ∧
      Homothetic (lattice σ f * lattice σ g) (lattice σ h) := by
  by_cases heq : f = g
  · subst heq
    obtain ⟨mu, rest, m, _, hm, hsquare⟩ := square_spec gcdext hf (hcop rfl)
    refine ⟨_, by rw [mul, if_pos rfl, hsquare], square_posDef hf hm, ?_⟩
    rw [square_lattice hf (hcop rfl) hσ hm]
    exact Homothetic.refl _
  · obtain ⟨v, hcompose, hv, hw, hs, ht, hgcd⟩ := compose_spec gcdext hf hg
    refine ⟨v.form, ?_, ⟨mul_pos hs ht, hv.discriminant_form.trans hf.disc⟩, ?_⟩
    · rw [mul, if_neg heq, hcompose, ok_bind]
      rfl
    · apply Homothetic.symm
      exact ⟨v.w, Int.cast_ne_zero.mpr hw.ne', hv.lattice_mul hw hs ht hgcd hd hf hg hσ⟩

end Product

end BinaryQF

end Lootbox.Headstart

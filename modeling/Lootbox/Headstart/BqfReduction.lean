import Lootbox.Headstart.BqfComposition

/-!
# `math/bqf.py`: reduction finds one form in each class

Reduction keeps the lattice up to homothety. The first coefficient of a reduced form is the
shortest vector of its lattice, so homothetic lattices have one reduced form.
-/

namespace Lootbox.Headstart.BinaryQF

open PlaneLattice

/-- Positive definite of discriminant `d`, with `-a < b ≤ a ≤ c` and `0 ≤ b` where `a = c`. -/
structure Reduced (d : Int) (f : BinaryQF) : Prop extends PosDef d f where
  lower : -f.a < f.b
  upper : f.b ≤ f.a
  order : f.a < f.c ∨ (f.a = f.c ∧ 0 ≤ f.b)

/-! ### `reduced_form` -/

section Reduction

variable {d : Int} {f : BinaryQF}

theorem normalize_spec (hf : PosDef d f) {K : Type*} [Field K] [CharZero K] (σ : K) :
    ∃ g, f.normalize = .ok g ∧ PosDef d g ∧ g.a = f.a ∧ -g.a < g.b ∧ g.b ≤ g.a ∧
      lattice σ g = lattice σ f := by
  have ha := hf.a_pos
  obtain ⟨r, hr⟩ : ∃ r, r = (f.a - f.b) / (2 * f.a) := ⟨_, rfl⟩
  have hle : 2 * f.a * r ≤ f.a - f.b := hr ▸ Int.mul_ediv_self_le (by omega)
  have hlt : f.a - f.b < 2 * f.a * r + 2 * f.a := hr ▸ Int.lt_mul_ediv_self_add (by omega)
  refine ⟨⟨f.a, f.b + 2 * r * f.a, f.a * r * r + f.b * r + f.c⟩, ?_, ⟨ha, ?_⟩, rfl, ?_, ?_, ?_⟩
  · rw [normalize, floorDiv_of_pos _ (by omega), ← hr]
    rfl
  · rw [← hf.disc]
    simp only [discriminant]
    ring
  · show -f.a < f.b + 2 * r * f.a
    linarith
  · show f.b + 2 * r * f.a ≤ f.a
    linarith
  · rw [lattice_def, lattice_def, ← pair_add_mul (f.a : K) ((-f.b + σ) / 2) (-r)]
    congr 1
    push_cast
    ring

theorem swap_homothetic (hd : d < 0) (hf : PosDef d f) (s : Int) {K : Type*} [Field K] [CharZero K]
    {σ : K} (hσ : σ ^ 2 = d) :
    Homothetic (lattice σ f)
      (lattice σ ⟨f.c, -f.b + 2 * s * f.c, f.c * s * s - f.b * s + f.a⟩) := by
  have ha : (f.a : K) ≠ 0 := Int.cast_ne_zero.mpr hf.a_pos.ne'
  have hc : (f.c : K) ≠ 0 := Int.cast_ne_zero.mpr (hf.c_pos hd).ne'
  have hdiscK : (f.b : K) ^ 2 - 4 * f.a * f.c = d := by
    exact_mod_cast congrArg (Int.cast : Int → K) hf.eq
  have hprod : (-f.b + σ) / 2 * ((f.b + σ) / 2) = f.c * -f.a := by
    linear_combination (1 / 4) * hσ - (1 / 4) * hdiscK
  have hτ : (-f.b + σ) / 2 ≠ 0 := by
    intro hzero
    rw [hzero, zero_mul] at hprod
    exact mul_ne_zero hc (neg_ne_zero.mpr ha) hprod.symm
  have hshift : lattice σ ⟨f.c, -f.b + 2 * s * f.c, f.c * s * s - f.b * s + f.a⟩ =
      pair (f.c : K) ((f.b + σ) / 2) := by
    rw [lattice_def, ← pair_add_mul (f.c : K) ((f.b + σ) / 2) (-s)]
    congr 1
    push_cast
    ring
  apply homothetic_of_mul_eq hc hτ
  rw [hshift, lattice_def, span_mul_pair, span_mul_pair, hprod, mul_comm ((-f.b + σ) / 2), mul_neg,
    pair_neg_right, pair_comm]

/-- The bound of `reduceLoop`: it drops when `a` and `c` change places. -/
def variant (f : BinaryQF) : Nat := 2 * f.a.natAbs + if f.b < 0 then 1 else 0

theorem variant_swap_lt {s : Int} (ha : 0 < f.a) (hc : 0 < f.c) (hlower : -f.a < f.b)
    (hguard : ¬ (f.a < f.c ∨ (f.a = f.c ∧ f.b ≥ 0))) (hs : s = (f.c + f.b) / (2 * f.c)) :
    variant ⟨f.c, -f.b + 2 * s * f.c, f.c * s * s - f.b * s + f.a⟩ < variant f := by
  push Not at hguard
  obtain ⟨hle, hneg⟩ := hguard
  unfold variant
  dsimp only
  rcases hle.lt_or_eq with hlt | heq
  · have hind : (if -f.b + 2 * s * f.c < 0 then 1 else 0) ≤ 1 := by split <;> omega
    omega
  · have hb := hneg heq.symm
    have hzero : s = 0 := by
      rw [hs]
      exact Int.ediv_eq_zero_of_lt (by omega) (by omega)
    subst hzero
    rw [if_neg (by omega), if_pos hb, heq]
    omega

theorem reduceLoop_spec (hd : d < 0) {K : Type*} [Field K] [CharZero K] {σ : K} (hσ : σ ^ 2 = d)
    {fuel : Nat} (hf : PosDef d f) (hlower : -f.a < f.b) (hupper : f.b ≤ f.a)
    (hfuel : variant f < fuel) :
    ∃ g, reduceLoop fuel f = .ok g ∧ Reduced d g ∧ Homothetic (lattice σ f) (lattice σ g) := by
  induction fuel generalizing f with
  | zero => omega
  | succ fuel ih =>
    rw [reduceLoop]
    by_cases hguard : f.a < f.c ∨ (f.a = f.c ∧ f.b ≥ 0)
    · rw [if_pos hguard]
      exact ⟨f, rfl, ⟨hf, hlower, hupper, hguard⟩, Homothetic.refl _⟩
    · have hc := hf.c_pos hd
      obtain ⟨s, hs⟩ : ∃ s, s = (f.c + f.b) / (2 * f.c) := ⟨_, rfl⟩
      have hle : 2 * f.c * s ≤ f.c + f.b := hs ▸ Int.mul_ediv_self_le (by omega)
      have hlt : f.c + f.b < 2 * f.c * s + 2 * f.c := hs ▸ Int.lt_mul_ediv_self_add (by omega)
      have hswap : PosDef d ⟨f.c, -f.b + 2 * s * f.c, f.c * s * s - f.b * s + f.a⟩ := by
        refine ⟨hc, ?_⟩
        rw [← hf.disc]
        simp only [discriminant]
        ring
      have hvariant := variant_swap_lt hf.a_pos hc hlower hguard hs
      obtain ⟨g, hloop, hg, hhom⟩ := ih hswap (by dsimp only; linarith) (by dsimp only; linarith)
        (by omega)
      refine ⟨g, ?_, hg, (swap_homothetic hd hf s hσ).trans hhom⟩
      rw [if_neg hguard, floorDiv_of_pos _ (by omega), ← hs, ok_bind, hloop]

/-- `reduced_form` of a positive definite form returns a reduced form of its class. -/
theorem reducedForm_spec (hd : d < 0) (hf : PosDef d f) {K : Type*} [Field K] [CharZero K] {σ : K}
    (hσ : σ ^ 2 = d) :
    ∃ g, f.reducedForm = .ok g ∧ Reduced d g ∧ Homothetic (lattice σ f) (lattice σ g) := by
  obtain ⟨nf, hnormalize, hnf, ha, hlower, hupper, hlattice⟩ := normalize_spec hf σ
  have hfuel : variant nf < 2 * f.a.natAbs + 2 := by
    unfold variant
    rw [ha]
    split <;> omega
  obtain ⟨g, hloop, hg, hhom⟩ := reduceLoop_spec hd hσ hnf hlower hupper hfuel
  refine ⟨g, ?_, hg, hlattice ▸ hhom⟩
  rw [reducedForm, hnormalize, ok_bind, hloop]

end Reduction

/-! ### Reduced forms of discriminant `-p` -/

section Unique

variable {p : Nat} {f g : BinaryQF}

/-- A square root of `-p` in the upper half plane. -/
noncomputable def sqrtNeg (p : Nat) : ℂ := ⟨0, Real.sqrt p⟩

theorem sqrtNeg_sq (p : Nat) : sqrtNeg p ^ 2 = ((-p : Int) : ℂ) := by
  have hsq : Real.sqrt p * Real.sqrt p = p := Real.mul_self_sqrt (Nat.cast_nonneg p)
  apply Complex.ext
  · simp [sqrtNeg, pow_two, hsq]
  · simp [sqrtNeg, pow_two]

/-- The lattice vector `m * a + n * (-b + √-p) / 2`. -/
noncomputable def vector (p : Nat) (f : BinaryQF) (m n : Int) : ℂ :=
  m * (f.a : ℂ) + n * ((-f.b + sqrtNeg p) / (2 : Int))

theorem vector_def (p : Nat) (f : BinaryQF) (m n : Int) :
    vector p f m n = m * (f.a : ℂ) + n * ((-f.b + sqrtNeg p) / 2) := by
  rw [vector, Int.cast_ofNat]

theorem mem_lattice_iff {v : ℂ} : v ∈ lattice (sqrtNeg p) f ↔ ∃ m n, vector p f m n = v := mem_pair

theorem vector_re (m n : Int) : (vector p f m n).re = m * f.a - n * f.b / 2 := by
  simp [vector_def, sqrtNeg]
  ring

theorem vector_im (m n : Int) : (vector p f m n).im = n * Real.sqrt p / 2 := by
  simp [vector_def, sqrtNeg]
  ring

theorem normSq_vector (hf : PosDef (-p) f) (m n : Int) :
    Complex.normSq (vector p f m n) = (f.a * (f.a * m ^ 2 - f.b * m * n + f.c * n ^ 2) : Int) := by
  have hsq : Real.sqrt p * Real.sqrt p = p := Real.mul_self_sqrt (Nat.cast_nonneg p)
  have hdisc : (f.b : ℝ) ^ 2 - 4 * f.a * f.c = -p := by
    exact_mod_cast congrArg (Int.cast : Int → ℝ) hf.eq
  rw [Complex.normSq_apply, vector_re, vector_im]
  push_cast
  linear_combination (n ^ 2 / 4 : ℝ) * hsq + (n ^ 2 / 4 : ℝ) * hdisc

/-- The quadratic form takes its least values at `(±1, 0)`. -/
theorem Reduced.lt_value {d : Int} (hf : Reduced d f) (hac : f.a < f.c) {m n : Int}
    (hn : n ≠ 0 ∨ 1 < |m|) : f.a < f.a * m ^ 2 - f.b * m * n + f.c * n ^ 2 := by
  have ha := hf.a_pos
  have hbmn : f.b * m * n ≤ f.a * (|m| * |n|) := by
    have habs : |f.b| ≤ f.a := abs_le.mpr ⟨hf.lower.le, hf.upper⟩
    calc f.b * m * n ≤ |f.b * m * n| := le_abs_self _
      _ = |f.b| * (|m| * |n|) := by rw [abs_mul, abs_mul, mul_assoc]
      _ ≤ f.a * (|m| * |n|) := mul_le_mul_of_nonneg_right habs (by positivity)
  have hcn : f.a * n ^ 2 + n ^ 2 ≤ f.c * n ^ 2 := by nlinarith [sq_nonneg n]
  have hm2 := sq_abs m
  have hn2 := sq_abs n
  obtain ⟨x, hx⟩ : ∃ x, x = |m| := ⟨_, rfl⟩
  obtain ⟨y, hy⟩ : ∃ y, y = |n| := ⟨_, rfl⟩
  have hx0 : 0 ≤ x := hx ▸ abs_nonneg m
  have hy0 : 0 ≤ y := hy ▸ abs_nonneg n
  rw [← hx, ← hy] at hbmn
  rw [← hx] at hm2 hn
  rw [← hy] at hn2
  rw [← hm2]
  rw [← hn2] at hcn ⊢
  rcases hn with hn | hm
  · have hy1 : 1 ≤ y := by
      rw [hy]
      exact Int.one_le_abs hn
    have hxy : 1 ≤ x ^ 2 - x * y + y ^ 2 := by nlinarith [sq_nonneg (x - y), mul_nonneg hx0 hy0]
    nlinarith
  · rcases hy0.eq_or_lt with hzero | hpos
    · have hx2 : 2 * 2 ≤ x * x := mul_le_mul hm hm (by norm_num) hx0
      rw [← hzero] at hbmn hcn ⊢
      nlinarith
    · have hxy : 1 ≤ x ^ 2 - x * y + y ^ 2 := by nlinarith [sq_nonneg (x - y), mul_nonneg hx0 hy0]
      nlinarith

theorem Reduced.shortest (hf : Reduced (-p) f) (hac : f.a < f.c) :
    Shortest Complex.normSq (lattice (sqrtNeg p) f) (f.a : ℂ) := by
  have ha := hf.a_pos
  refine ⟨left_mem_pair _ _, Int.cast_ne_zero.mpr ha.ne', ?_⟩
  intro v hv hv0 hne hne'
  obtain ⟨m, n, rfl⟩ := mem_lattice_iff.mp hv
  have hmn : n ≠ 0 ∨ 1 < |m| := by
    by_contra hcon
    push Not at hcon
    obtain ⟨rfl, hm⟩ := hcon
    rw [abs_le] at hm
    obtain rfl | rfl | rfl : m = -1 ∨ m = 0 ∨ m = 1 := by omega
    · exact hne' (by simp [vector_def])
    · exact hv0 (by simp [vector_def])
    · exact hne (by simp [vector_def])
  have hlt := hf.lt_value hac hmn
  have hself : Complex.normSq (f.a : ℂ) = (f.a * f.a : Int) := by
    rw [← Complex.ofReal_intCast, Complex.normSq_ofReal]
    push_cast
    rfl
  rw [normSq_vector hf.toPosDef, hself]
  exact_mod_cast (mul_lt_mul_iff_right₀ ha).mpr hlt

theorem normSq_pos {z : ℂ} (hz : z ≠ 0) : 0 < Complex.normSq z := Complex.normSq_pos.mpr hz

theorem Reduced.exists_of_homothetic (hp : 0 < p) (hf : Reduced (-p) f) (hg : Reduced (-p) g)
    (hfac : f.a < f.c) (hgac : g.a < g.c)
    (h : Homothetic (lattice (sqrtNeg p) f) (lattice (sqrtNeg p) g)) :
    ∃ m n : Int, n * f.a = g.a ∧ 2 * m * f.a = g.b - f.b := by
  have hfa : (f.a : ℂ) ≠ 0 := Int.cast_ne_zero.mpr hf.a_pos.ne'
  have heq := h.eq_of_shortest (fun _ => normSq_pos) (hf.shortest hfac) (hg.shortest hgac)
  have hmem : (g.a / f.a : ℂ) * vector p f 0 1 ∈ lattice (sqrtNeg p) g := by
    rw [heq]
    exact mem_span_mul_iff.mpr ⟨_, mem_lattice_iff.mpr ⟨0, 1, rfl⟩, rfl⟩
  obtain ⟨m, n, hmn⟩ := mem_lattice_iff.mp hmem
  have hscaled : (f.a : ℂ) * vector p g m n = g.a * vector p f 0 1 := by
    rw [hmn, ← mul_assoc, mul_div_cancel₀ _ hfa]
  rw [← Complex.ofReal_intCast, ← Complex.ofReal_intCast] at hscaled
  have him := congrArg Complex.im hscaled
  have hre := congrArg Complex.re hscaled
  rw [Complex.im_ofReal_mul, Complex.im_ofReal_mul, vector_im, vector_im] at him
  rw [Complex.re_ofReal_mul, Complex.re_ofReal_mul, vector_re, vector_re] at hre
  have hroot : Real.sqrt p ≠ 0 := (Real.sqrt_pos.mpr (by exact_mod_cast hp)).ne'
  have hna : (n * f.a : ℝ) = g.a := by
    apply mul_right_cancel₀ hroot
    push_cast at him
    linear_combination 2 * him
  have hga : (g.a : ℝ) ≠ 0 := Int.cast_ne_zero.mpr hg.a_pos.ne'
  have hmb : (2 * m * f.a : ℝ) = g.b - f.b := by
    apply mul_left_cancel₀ hga
    push_cast at hre
    linear_combination 2 * hre + (g.b : ℝ) * hna
  exact ⟨m, n, by exact_mod_cast hna, by exact_mod_cast hmb⟩

theorem PosDef.ext_of_eq {d : Int} (hf : PosDef d f) (hg : PosDef d g) (ha : f.a = g.a)
    (hb : f.b = g.b) : f = g := by
  have hc : f.c = g.c := by
    have hfd := hf.eq
    have hgd := hg.eq
    rw [ha, hb] at hfd
    apply mul_left_cancel₀ (mul_pos four_pos hg.a_pos).ne'
    linarith
  cases f
  cases g
  simp only [mk.injEq]
  exact ⟨ha, hb, hc⟩

theorem Reduced.eq_one_of_a_eq_c (hp : p.Prime) (hf : Reduced (-p) f) (hac : f.a = f.c) :
    p = 3 ∧ f = ⟨1, 1, 1⟩ := by
  have ha := hf.a_pos
  have hb : 0 ≤ f.b := by
    rcases hf.order with hlt | ⟨_, hb⟩
    · omega
    · exact hb
  have hupper := hf.upper
  have hfactor : (2 * f.a - f.b) * (2 * f.a + f.b) = p := by
    have hdisc := hf.eq
    rw [← hac] at hdisc
    linear_combination -hdisc
  have hirr : Irreducible (p : Int) := (Nat.prime_iff_prime_int.mp hp).irreducible
  have hunit := hirr.isUnit_or_isUnit hfactor.symm
  have hone : 2 * f.a - f.b = 1 := by
    rcases hunit with h | h
    · rcases Int.isUnit_iff.mp h with h | h <;> omega
    · rcases Int.isUnit_iff.mp h with h | h <;> omega
  have hf1 : f.a = 1 := by omega
  have hb1 : f.b = 1 := by omega
  rw [hf1, hb1] at hfactor
  have hthree : (p : Int) = 3 := by
    rw [← hfactor]
    norm_num
  refine ⟨by exact_mod_cast hthree, ?_⟩
  exact hf.toPosDef.ext_of_eq ⟨one_pos, by rw [← hfactor]; rfl⟩ hf1 hb1

theorem Reduced.a_eq_c_of_three (hf : Reduced (-3) f) : f.a = f.c := by
  have ha := hf.a_pos
  have hdisc := hf.eq
  rcases hf.order with hlt | ⟨hac, _⟩
  · have hb : f.b ^ 2 ≤ f.a ^ 2 := sq_le_sq' hf.lower.le hf.upper
    have hac : f.a * (f.a + 1) ≤ f.a * f.c := mul_le_mul_of_nonneg_left hlt ha.le
    nlinarith
  · exact hac

/-- Reduced forms with homothetic lattices are equal. -/
theorem Reduced.eq_of_homothetic (hp : p.Prime) (hf : Reduced (-p) f) (hg : Reduced (-p) g)
    (h : Homothetic (lattice (sqrtNeg p) f) (lattice (sqrtNeg p) g)) : f = g := by
  by_cases hthree : p = 3
  · subst hthree
    rw [(hf.eq_one_of_a_eq_c hp hf.a_eq_c_of_three).2, (hg.eq_one_of_a_eq_c hp hg.a_eq_c_of_three).2]
  · have hfac : f.a < f.c := by
      rcases hf.order with hlt | ⟨hac, _⟩
      · exact hlt
      · exact absurd (hf.eq_one_of_a_eq_c hp hac).1 hthree
    have hgac : g.a < g.c := by
      rcases hg.order with hlt | ⟨hac, _⟩
      · exact hlt
      · exact absurd (hg.eq_one_of_a_eq_c hp hac).1 hthree
    obtain ⟨m, n, hn, hm⟩ := hf.exists_of_homothetic hp.pos hg hfac hgac h
    obtain ⟨_, n', hn', _⟩ := hg.exists_of_homothetic hp.pos hf hgac hfac h.symm
    have ha : f.a = g.a :=
      Int.dvd_antisymm hf.a_pos.le hg.a_pos.le ⟨n, by linarith⟩ ⟨n', by linarith⟩
    have hfl := hf.lower
    have hfu := hf.upper
    have hgl := hg.lower
    have hgu := hg.upper
    have hm0 : m = 0 := by
      have hlt : 2 * m * f.a < 2 * f.a := by linarith
      have hgt : -(2 * f.a) < 2 * m * f.a := by linarith
      have hfa := hf.a_pos
      by_contra hne
      rcases lt_or_gt_of_ne hne with hneg | hpos
      · nlinarith
      · nlinarith
    refine hf.toPosDef.ext_of_eq hg.toPosDef ha ?_
    rw [hm0] at hm
    linarith

end Unique

end Lootbox.Headstart.BinaryQF

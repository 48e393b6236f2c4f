import Lootbox.Headstart.BqfReduction

/-!
# `math/bqf.py`: proper equivalence

Every step of `reduced_form` is a substitution of determinant one, whatever the form. Of positive
definite forms, each class has one that is reduced, so `__eq__` on reduced forms decides proper
equivalence.
-/

namespace Lootbox.Headstart.BinaryQF

/-- The form in `p * x + q * y` and `r * x + s * y`. -/
def subst (f : BinaryQF) (p q r s : Int) : BinaryQF :=
  ⟨f.a * p ^ 2 + f.b * p * r + f.c * r ^ 2,
    2 * f.a * p * q + f.b * (p * s + q * r) + 2 * f.c * r * s,
    f.a * q ^ 2 + f.b * q * s + f.c * s ^ 2⟩

def ProperlyEquivalent (f g : BinaryQF) : Prop :=
  ∃ p q r s : Int, p * s - q * r = 1 ∧ g = f.subst p q r s

variable {f g h : BinaryQF}

theorem ext_coefficients (ha : f.a = g.a) (hb : f.b = g.b) (hc : f.c = g.c) : f = g := by
  cases f
  cases g
  simp only [mk.injEq]
  exact ⟨ha, hb, hc⟩

namespace ProperlyEquivalent

theorem refl (f : BinaryQF) : ProperlyEquivalent f f := by
  refine ⟨1, 0, 0, 1, by ring, ?_⟩
  apply ext_coefficients
  · simp only [subst]
    ring
  · simp only [subst]
    ring
  · simp only [subst]
    ring

theorem symm (hfg : ProperlyEquivalent f g) : ProperlyEquivalent g f := by
  obtain ⟨p, q, r, s, hdet, rfl⟩ := hfg
  refine ⟨s, -q, -r, p, by linarith, ?_⟩
  apply ext_coefficients
  · simp only [subst]
    linear_combination (-f.a * (p * s - q * r + 1)) * hdet
  · simp only [subst]
    linear_combination (-f.b * (p * s - q * r + 1)) * hdet
  · simp only [subst]
    linear_combination (-f.c * (p * s - q * r + 1)) * hdet

theorem trans (hfg : ProperlyEquivalent f g) (hgh : ProperlyEquivalent g h) :
    ProperlyEquivalent f h := by
  obtain ⟨p, q, r, s, hdet, rfl⟩ := hfg
  obtain ⟨p', q', r', s', hdet', rfl⟩ := hgh
  refine ⟨p * p' + q * r', p * q' + q * s', r * p' + s * r', r * q' + s * s', ?_, ?_⟩
  · linear_combination (p' * s' - q' * r') * hdet + hdet'
  · apply ext_coefficients
    · simp only [subst]
      ring
    · simp only [subst]
      ring
    · simp only [subst]
      ring

theorem discriminant_eq (hfg : ProperlyEquivalent f g) : g.discriminant = f.discriminant := by
  obtain ⟨p, q, r, s, hdet, rfl⟩ := hfg
  simp only [discriminant, subst]
  linear_combination ((f.b ^ 2 - 4 * f.a * f.c) * (p * s - q * r + 1)) * hdet

end ProperlyEquivalent

/-! ### The steps of `reduced_form` -/

theorem floorDiv_eq_ok {a b q : Int} (h : floorDiv a b = .ok q) : b ≠ 0 ∧ q = a.fdiv b := by
  rw [floorDiv] at h
  split at h
  · cases h
  · rename_i hb
    cases h
    exact ⟨hb, rfl⟩

theorem normalize_equivalent (h : f.normalize = .ok g) : ProperlyEquivalent f g := by
  obtain ⟨r, _, hg⟩ := bind_eq_ok_iff.mp h
  cases hg
  refine ⟨1, r, 0, 1, by ring, ?_⟩
  apply ext_coefficients
  · simp only [subst]
    ring
  · simp only [subst]
    ring
  · simp only [subst]
    ring

theorem swap_equivalent (f : BinaryQF) (s : Int) :
    ProperlyEquivalent f ⟨f.c, -f.b + 2 * s * f.c, f.c * s * s - f.b * s + f.a⟩ := by
  refine ⟨0, -1, 1, s, by ring, ?_⟩
  apply ext_coefficients
  · simp only [subst]
    ring
  · simp only [subst]
    ring
  · simp only [subst]
    ring

theorem reduceLoop_equivalent {fuel : Nat} (h : reduceLoop fuel f = .ok g) :
    ProperlyEquivalent f g := by
  induction fuel generalizing f with
  | zero => cases h
  | succ fuel ih =>
    rw [reduceLoop] at h
    split at h
    · cases h
      exact ProperlyEquivalent.refl _
    · obtain ⟨s, _, hrest⟩ := bind_eq_ok_iff.mp h
      exact (swap_equivalent f s).trans (ih hrest)

theorem reducedForm_equivalent (h : f.reducedForm = .ok g) : ProperlyEquivalent f g := by
  obtain ⟨nf, hnormalize, hloop⟩ := bind_eq_ok_iff.mp h
  exact (normalize_equivalent hnormalize).trans (reduceLoop_equivalent hloop)

/-! ### One reduced form in each class -/

section Unique

variable {d : Int}

theorem Reduced.a_le_c (hf : Reduced d f) : f.a ≤ f.c := by
  rcases hf.order with hlt | ⟨heq, _⟩
  · exact hlt.le
  · exact heq.le

theorem Reduced.le_value (hf : Reduced d f) {p r : Int} (hr : r ≠ 0) :
    f.a ≤ f.a * p ^ 2 + f.b * p * r + f.c * r ^ 2 := by
  have ha := hf.a_pos
  have hac := hf.a_le_c
  have hupper := hf.upper
  have hlower := hf.lower
  have hr2 : 1 ≤ r ^ 2 := by
    rw [← sq_abs]
    have := Int.one_le_abs hr
    nlinarith
  have hcr : f.a * r ^ 2 ≤ f.c * r ^ 2 := mul_le_mul_of_nonneg_right hac (sq_nonneg r)
  have hform : 1 ≤ p ^ 2 - p * r + r ^ 2 ∧ 1 ≤ p ^ 2 + p * r + r ^ 2 := by
    constructor
    · nlinarith [sq_nonneg (2 * p - r)]
    · nlinarith [sq_nonneg (2 * p + r)]
  rcases le_total 0 (p * r) with hpr | hpr
  · have hb : -f.a * (p * r) ≤ f.b * (p * r) := mul_le_mul_of_nonneg_right hlower.le hpr
    nlinarith [mul_le_mul_of_nonneg_left hform.1 ha.le]
  · have hb : f.a * (p * r) ≤ f.b * (p * r) := mul_le_mul_of_nonpos_right hupper hpr
    nlinarith [mul_le_mul_of_nonneg_left hform.2 ha.le]

theorem eq_one_or_neg_one_of_mul_eq_one {p s : Int} (h : p * s = 1) :
    (p = 1 ∧ s = 1) ∨ (p = -1 ∧ s = -1) := Int.mul_eq_one_iff_eq_one_or_neg_one.mp h

theorem Reduced.a_le_of_equivalent (hf : Reduced d f) (h : ProperlyEquivalent f g) :
    f.a ≤ g.a := by
  obtain ⟨p, q, r, s, hdet, rfl⟩ := h
  simp only [subst]
  by_cases hr : r = 0
  · subst hr
    have hps : p * s = 1 := by linarith
    have hp : p ^ 2 = 1 := by
      rcases eq_one_or_neg_one_of_mul_eq_one hps with ⟨rfl, _⟩ | ⟨rfl, _⟩
      · norm_num
      · norm_num
    rw [hp]
    linarith
  · exact hf.le_value hr

theorem Reduced.eq_of_lt (hf : Reduced d f) (hg : Reduced d g) (hac : f.a < f.c)
    (h : ProperlyEquivalent f g) : f = g := by
  have ha : f.a = g.a := le_antisymm (hf.a_le_of_equivalent h) (hg.a_le_of_equivalent h.symm)
  obtain ⟨p, q, r, s, hdet, hgs⟩ := h
  have hga : g.a = f.a * p ^ 2 + f.b * p * r + f.c * r ^ 2 := by rw [hgs, subst]
  have hgb : g.b = 2 * f.a * p * q + f.b * (p * s + q * r) + 2 * f.c * r * s := by rw [hgs, subst]
  have hr : r = 0 := by
    by_contra hr
    have hlt := hf.lt_value hac (m := p) (n := -r) (Or.inl (neg_ne_zero.mpr hr))
    rw [ha, hga] at hlt
    nlinarith
  subst hr
  have hps : p * s = 1 := by linarith
  refine hf.toPosDef.ext_of_eq hg.toPosDef ha ?_
  have hshift : g.b - f.b = 2 * (p * q) * f.a := by
    rw [hgb]
    linear_combination f.b * hps
  have hfa := hf.a_pos
  have hfl := hf.lower
  have hfu := hf.upper
  have hgl := hg.lower
  have hgu := hg.upper
  have hzero : p * q = 0 := by
    by_contra hne
    rcases lt_or_gt_of_ne hne with hneg | hpos
    · nlinarith
    · nlinarith
  rw [hzero] at hshift
  linarith

theorem Reduced.eq_of_equivalent (hf : Reduced d f) (hg : Reduced d g)
    (h : ProperlyEquivalent f g) : f = g := by
  rcases hf.order with hlt | ⟨hfac, hfb⟩
  · exact hf.eq_of_lt hg hlt h
  · rcases hg.order with hlt | ⟨hgac, hgb⟩
    · exact (hg.eq_of_lt hf hlt h.symm).symm
    · have ha : f.a = g.a := le_antisymm (hf.a_le_of_equivalent h) (hg.a_le_of_equivalent h.symm)
      have hfd := hf.eq
      have hgd := hg.eq
      have hsq : f.b ^ 2 = g.b ^ 2 := by
        rw [← hfac] at hfd
        rw [← hgac, ← ha] at hgd
        linarith
      refine hf.toPosDef.ext_of_eq hg.toPosDef ha ?_
      exact (sq_eq_sq₀ hfb hgb).mp hsq

end Unique

/-! ### The reduced form -/

theorem exists_reducedForm (ha : 0 < f.a) (hd : f.discriminant < 0) :
    ∃ g, f.reducedForm = .ok g ∧ Reduced f.discriminant g := by
  obtain ⟨n, hn⟩ : ∃ n : Nat, f.discriminant = -n :=
    ⟨f.discriminant.natAbs, by omega⟩
  have hσ := sqrtNeg_sq n
  rw [← hn] at hσ
  obtain ⟨g, hreduce, hg, _⟩ := reducedForm_spec hd ⟨ha, rfl⟩ hσ
  exact ⟨g, hreduce, hg⟩

theorem Reduced.reducedForm_eq {d : Int} (hd : d < 0) (hf : Reduced d f) :
    f.reducedForm = .ok f := by
  have hdisc := hf.disc
  obtain ⟨g, hreduce, hg⟩ := exists_reducedForm hf.a_pos (hdisc ▸ hd)
  rw [hdisc] at hg
  rw [hreduce, ← hf.eq_of_equivalent hg (reducedForm_equivalent hreduce)]

/-- `reduced_form` chooses one form in each class of positive definite forms. -/
theorem reducedForm_canonical (ha : 0 < f.a) (hd : f.discriminant < 0) :
    ∃ r, f.reducedForm = .ok r ∧ ProperlyEquivalent f r ∧ r.discriminant = f.discriminant ∧
      -r.a < r.b ∧ r.b ≤ r.a ∧ r.a ≤ r.c ∧ (r.a = r.c → 0 ≤ r.b) ∧ r.reducedForm = .ok r ∧
      ∀ g : BinaryQF, 0 < g.a → g.discriminant < 0 →
        ∃ s, g.reducedForm = .ok s ∧ (ProperlyEquivalent f g ↔ r = s) := by
  obtain ⟨r, hreduce, hr⟩ := exists_reducedForm ha hd
  have hfr := reducedForm_equivalent hreduce
  have horder : r.a = r.c → 0 ≤ r.b := by
    intro heq
    rcases hr.order with hlt | ⟨_, hb⟩
    · exact absurd heq hlt.ne
    · exact hb
  refine ⟨r, hreduce, hfr, hr.disc, hr.lower, hr.upper, hr.a_le_c, horder, hr.reducedForm_eq hd, ?_⟩
  intro g hga hgd
  obtain ⟨s, hreduce', hs⟩ := exists_reducedForm hga hgd
  have hgs := reducedForm_equivalent hreduce'
  refine ⟨s, hreduce', ?_⟩
  constructor
  · intro hfg
    rw [hfg.discriminant_eq] at hs
    exact hr.eq_of_equivalent hs ((hfr.symm.trans hfg).trans hgs)
  · rintro rfl
    exact hfr.trans hgs.symm

/-- `(12, 11, 3)` and `(3, 1, 2)` have discriminant `-23` and lie in one class. -/
theorem reducedForm_canonical_23 :
    ∃ r, (⟨12, 11, 3⟩ : BinaryQF).reducedForm = .ok r ∧ ∃ s,
      (⟨3, 1, 2⟩ : BinaryQF).reducedForm = .ok s ∧ (ProperlyEquivalent ⟨12, 11, 3⟩ ⟨3, 1, 2⟩ ↔ r = s) := by
  obtain ⟨r, hr, _, _, _, _, _, _, _, hclass⟩ :=
    reducedForm_canonical (f := ⟨12, 11, 3⟩) (by decide) (by decide)
  exact ⟨r, hr, hclass ⟨3, 1, 2⟩ (by decide) (by decide)⟩

end Lootbox.Headstart.BinaryQF

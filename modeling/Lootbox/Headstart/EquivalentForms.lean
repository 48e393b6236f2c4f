import Lootbox.Headstart.BqfCanonical
import Lootbox.Headstart.ClassGroup

/-!
# Classes of equivalent and of composed forms
-/

namespace Lootbox.Headstart

namespace BinaryQF

variable {f g : BinaryQF} {d : Int}

theorem PosDef.of_equivalent (hd : d < 0) (hf : f.PosDef d) (hfg : ProperlyEquivalent f g) :
    g.PosDef d := by
  refine ⟨?_, hfg.discriminant_eq.trans hf.disc⟩
  obtain ⟨p, q, r, s, hdet, rfl⟩ := hfg
  have ha := hf.a_pos
  have hdisc := hf.eq
  have hfour : 4 * f.a * (f.a * p ^ 2 + f.b * p * r + f.c * r ^ 2) =
      (2 * f.a * p + f.b * r) ^ 2 + -d * r ^ 2 := by linear_combination -r ^ 2 * hdisc
  have hpos : 0 < (2 * f.a * p + f.b * r) ^ 2 + -d * r ^ 2 := by
    by_cases hr : r = 0
    · have hp : p ≠ 0 := by
        rintro rfl
        rw [hr] at hdet
        omega
      have hprod : 2 * f.a * p + f.b * r ≠ 0 := by
        rw [hr, mul_zero, add_zero]
        exact mul_ne_zero (by omega) hp
      have hsq : 0 < (2 * f.a * p + f.b * r) ^ 2 := by positivity
      rw [hr]
      rw [hr] at hsq
      linarith
    · have hneg : 0 < -d := by omega
      positivity
  rw [← hfour] at hpos
  exact pos_of_mul_pos_right hpos (by omega)

theorem translate_equivalent (f : BinaryQF) (j : Int) :
    ProperlyEquivalent f ⟨f.a, f.b + 2 * f.a * j, f.a * j ^ 2 + f.b * j + f.c⟩ := by
  refine ⟨1, j, 0, 1, by ring, ext_coefficients ?_ ?_ ?_⟩
  · simp only [subst]
    ring
  · simp only [subst]
    ring
  · simp only [subst]
    ring

end BinaryQF

namespace ReducedForm

open BinaryQF PlaneLattice

variable {p : Nat} [hp : PrimeDiscriminant p] {f g : BinaryQF} {x y : ReducedForm p}

theorem HasClass.unique (hx : HasClass f x) (hy : HasClass f y) : x = y :=
  eq_of_homothetic (hx.homothetic.symm.trans hy.homothetic)

theorem HasClass.of_equivalent (hf : HasClass f x) (hfg : ProperlyEquivalent f g) :
    HasClass g x := by
  obtain ⟨y, hy⟩ := exists_hasClass (hf.posDef.of_equivalent (neg_discriminant p) hfg)
  have hxy : ProperlyEquivalent x.form y.form :=
    ((reducedForm_equivalent hf.reducedForm_eq).symm.trans hfg).trans
      (reducedForm_equivalent hy.reducedForm_eq)
  have heq : x = y := by
    apply eq_of_homothetic
    rw [lattice, x.reduced.eq_of_equivalent y.reduced hxy]
    exact Homothetic.refl _
  rw [heq]
  exact hy

theorem HasClass.compose {v : Locals} (hf : HasClass f x) (hg : HasClass g y) (hv : v.Exact f g)
    (hw : 0 < v.w) (hs : 0 < v.s) (ht : 0 < v.t) (hgcd : Int.gcd (Int.gcd v.s v.t) v.u = 1) :
    HasClass v.form (x * y) := by
  refine ⟨⟨mul_pos hs ht, hv.discriminant_form.trans hf.posDef.disc⟩, ?_⟩
  have hlattice := hv.lattice_mul hw hs ht hgcd (squarefree_neg hp.prime) hf.posDef hg.posDef
    (sqrtNeg_sq p)
  have hhom : Homothetic (f.lattice (sqrtNeg p) * g.lattice (sqrtNeg p))
      (v.form.lattice (sqrtNeg p)) := by
    apply Homothetic.symm
    exact ⟨v.w, Int.cast_ne_zero.mpr hw.ne', hlattice⟩
  exact hhom.symm.trans ((hf.homothetic.mul hg.homothetic).trans (mul_homothetic x y))

end ReducedForm

end Lootbox.Headstart

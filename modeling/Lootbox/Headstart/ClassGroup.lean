import Lootbox.Headstart.BqfReduction

/-!
# `math/bqf.py`: the reduced forms of a prime discriminant are a group

The group is stated on lattices; `__mul__` followed by `reduced_form` computes it, with any
Bezout coefficients, and `qf_pow` computes its powers.
-/

namespace Lootbox.Headstart

open PlaneLattice

/-- `-p` is the discriminant that the package works with. -/
class PrimeDiscriminant (p : Nat) : Prop where
  prime : p.Prime
  mod_four : p % 4 = 3

/-- A reduced form of discriminant `-p`. -/
structure ReducedForm (p : Nat) where
  form : BinaryQF
  reduced : form.Reduced (-p)

namespace BinaryQF

variable {p : Nat} [hp : PrimeDiscriminant p] {f g : BinaryQF}

omit hp in
theorem squarefree_neg (hp : p.Prime) : Squarefree (-p : Int) := by
  rw [← Int.squarefree_natAbs, Int.natAbs_neg, Int.natAbs_natCast]
  exact hp.prime.squarefree

theorem neg_discriminant (p : Nat) [hp : PrimeDiscriminant p] : (-p : Int) < 0 := by
  have := hp.prime.pos
  omega

theorem PosDef.exists_odd (hf : PosDef (-p) f) : ∃ r, f.b = 2 * r + 1 := by
  have hdisc := hf.eq
  have hmod := hp.mod_four
  rcases Int.even_or_odd f.b with ⟨r, hr⟩ | hodd
  · exfalso
    have hr2 : f.b ^ 2 = 4 * r ^ 2 := by
      rw [hr]
      ring
    have hac : 4 * f.a * f.c = 4 * (f.a * f.c) := by ring
    omega
  · exact hodd

/-- The first two coefficients of a form are coprime unless `p` divides both. -/
theorem PosDef.isCoprime (hf : PosDef (-p) f) (ha : ¬ (p : Int) ∣ f.a) : IsCoprime f.a f.b := by
  rw [Int.isCoprime_iff_gcd_eq_one]
  have hdvd : (Int.gcd f.a f.b : Int) ∣ (p : Int) := by
    have hdisc := hf.eq
    have hp_eq : (p : Int) = f.a * (4 * f.c) - f.b * f.b := by linear_combination hdisc
    rw [hp_eq]
    exact dvd_sub ((Int.gcd_dvd_left _ _).mul_right _) ((Int.gcd_dvd_right _ _).mul_right _)
  rcases (Nat.dvd_prime hp.prime).mp (Int.natCast_dvd_natCast.mp hdvd) with hone | heq
  · exact hone
  · exact absurd (heq ▸ Int.gcd_dvd_left f.a f.b) ha

theorem Reduced.three_mul_sq_le {d : Int} (hf : Reduced d f) : 3 * f.a ^ 2 ≤ -d := by
  have hdisc := hf.eq
  have ha := hf.a_pos
  have hb : f.b ^ 2 ≤ f.a ^ 2 := sq_le_sq' hf.lower.le hf.upper
  have hac : f.a ≤ f.c := by
    rcases hf.order with hlt | ⟨heq, _⟩
    · exact hlt.le
    · exact heq.le
  nlinarith

theorem Reduced.isCoprime (hf : Reduced (-p) f) : IsCoprime f.a f.b := by
  apply hf.toPosDef.isCoprime
  intro hdvd
  have hle := Int.le_of_dvd hf.a_pos hdvd
  have hsq := hf.three_mul_sq_le
  have hpos : (0 : Int) < p := by exact_mod_cast hp.prime.pos
  nlinarith

/-! ### The principal form and conjugate forms -/

theorem principal_eq (p : Nat) [hp : PrimeDiscriminant p] :
    ∃ c, getQfPrincipalForm (-p) = ⟨1, 1, c⟩ ∧ 4 * c = 1 + p := by
  have hmod := hp.mod_four
  have hk : (-p : Int).fmod 2 = 1 := by
    rw [Int.fmod_eq_emod_of_nonneg _ two_pos.le]
    omega
  refine ⟨(1 + p) / 4, ?_, by omega⟩
  simp only [getQfPrincipalForm, hk]
  rw [Int.fdiv_eq_ediv_of_nonneg _ four_pos.le]
  congr 2
  ring

theorem principal_reduced (p : Nat) [hp : PrimeDiscriminant p] :
    Reduced (-p) (getQfPrincipalForm (-p)) := by
  obtain ⟨c, hprincipal, hc⟩ := principal_eq p
  have hpos := hp.prime.pos
  have hmod := hp.mod_four
  rw [hprincipal]
  refine ⟨⟨one_pos, ?_⟩, by norm_num, le_rfl, ?_⟩
  · simp only [discriminant]
    linarith
  · rcases Nat.lt_or_ge p 4 with hlt | hge
    · right
      exact ⟨by dsimp only; omega, zero_le_one⟩
    · left
      dsimp only
      omega

section Lattice

variable {K : Type*} [Field K] [CharZero K] {σ : K}

omit [CharZero K] in
theorem lattice_principal (p : Nat) [PrimeDiscriminant p] (σ : K) :
    lattice σ (getQfPrincipalForm (-p)) = pair 1 ((-1 + σ) / 2) := by
  obtain ⟨c, hprincipal, _⟩ := principal_eq p
  rw [hprincipal, lattice_def]
  push_cast
  rfl

theorem lattice_principal_mul (hf : PosDef (-p) f) (hσ : σ ^ 2 = ((-p : Int) : K)) :
    lattice σ (getQfPrincipalForm (-p)) * lattice σ f = lattice σ f := by
  obtain ⟨r, hr⟩ := hf.exists_odd
  have hrK : (f.b : K) = 2 * r + 1 := by exact_mod_cast congrArg (Int.cast : Int → K) hr
  have hdiscK : (f.b : K) ^ 2 - 4 * f.a * f.c = ((-p : Int) : K) := by
    exact_mod_cast congrArg (Int.cast : Int → K) hf.eq
  obtain ⟨y, hy⟩ : ∃ y : K, y = (-f.b + σ) / 2 := ⟨_, rfl⟩
  have hω : (-1 + σ) / 2 = y + r := by
    rw [hy, hrK]
    ring
  have h₁ : (1 : K) * f.a = (1 : Int) * f.a := by rw [Int.cast_one]
  have h₂ : (1 : K) * y = (1 : Int) * y - (0 : Int) * f.a := by
    push_cast
    ring
  have h₃ : (y + r) * (f.a : K) = f.a * y - (-r : Int) * f.a := by
    push_cast
    ring
  have h₄ : (y + r) * y = (-f.c : Int) * (f.a : K) - (r + 1 : Int) * y := by
    rw [hy]
    push_cast
    linear_combination (1 / 4) * hσ - (1 / 4) * hdiscK - ((-f.b + σ) / 2) * hrK
  rw [lattice_principal, lattice_def, pair_mul_pair, ← hy, hω, h₁, h₂, h₃, h₄]
  exact span_four_eq_pair ⟨1, 0, 0, 0, by ring⟩ ⟨1, 0, 0, by ring⟩

theorem lattice_conj_mul (hf : PosDef (-p) f) (hσ : σ ^ 2 = ((-p : Int) : K)) :
    Homothetic (lattice σ ⟨f.a, -f.b, f.c⟩ * lattice σ f)
      (lattice σ (getQfPrincipalForm (-p))) := by
  obtain ⟨r, hr⟩ := hf.exists_odd
  have hrK : (f.b : K) = 2 * r + 1 := by exact_mod_cast congrArg (Int.cast : Int → K) hr
  have hdiscK : (f.b : K) ^ 2 - 4 * f.a * f.c = ((-p : Int) : K) := by
    exact_mod_cast congrArg (Int.cast : Int → K) hf.eq
  have ha : (f.a : K) ≠ 0 := Int.cast_ne_zero.mpr hf.a_pos.ne'
  obtain ⟨x, hx⟩ : ∃ x : K, x = f.a * 1 := ⟨_, rfl⟩
  obtain ⟨y, hy⟩ : ∃ y : K, y = f.a * ((-1 + σ) / 2) := ⟨_, rfl⟩
  have h₁ : (f.a : K) * f.a = f.a * x := by rw [hx, mul_one]
  have h₂ : (f.a : K) * ((-f.b + σ) / 2) = (1 : Int) * y - (r : Int) * x := by
    rw [hx, hy, hrK]
    push_cast
    ring
  have h₃ : (-(-f.b : Int) + σ) / 2 * (f.a : K) = (1 : Int) * y - (-(r + 1) : Int) * x := by
    rw [hx, hy]
    push_cast
    rw [hrK]
    ring
  have h₄ : (-(-f.b : Int) + σ) / 2 * ((-f.b + σ) / 2) = (-f.c : Int) * x - (0 : Int) * y := by
    rw [hx]
    push_cast
    linear_combination (1 / 4) * hσ - (1 / 4) * hdiscK
  have hbezout : ∃ e₁ e₂ e₃ e₄ : Int, e₁ * f.a + e₂ * (1 * r - 1 * -(r + 1)) +
      e₃ * (0 * r - 1 * -f.c) + e₄ * (0 * -(r + 1) - 1 * -f.c) = 1 := by
    apply exists_bezout_four
    intro q hqa hqb hqc _
    apply hf.isUnit_of_dvd (squarefree_neg hp.prime) hqa
    · rw [hr]
      have heq : 2 * r + 1 = 1 * r - 1 * -(r + 1) := by ring
      rwa [heq]
    · have heq : f.c = 0 * r - 1 * -f.c := by ring
      rwa [heq]
  apply Homothetic.symm
  refine ⟨f.a, ha, ?_⟩
  rw [lattice_principal, span_mul_pair, ← hx, ← hy, lattice_def, lattice_def, pair_mul_pair]
  dsimp only
  rw [h₁, h₂, h₃, h₄]
  exact span_four_eq_pair hbezout ⟨1, 0, 0, by ring⟩

end Lattice

end BinaryQF

/-! ### The group -/

namespace ReducedForm

open BinaryQF

variable {p : Nat}

noncomputable def lattice (x : ReducedForm p) : Submodule ℤ ℂ := x.form.lattice (sqrtNeg p)

/-- The form lies in the class of the reduced form. -/
structure HasClass (f : BinaryQF) (x : ReducedForm p) : Prop where
  posDef : f.PosDef (-p)
  homothetic : Homothetic (f.lattice (sqrtNeg p)) x.lattice

theorem hasClass_form (x : ReducedForm p) : HasClass x.form x :=
  ⟨x.reduced.toPosDef, Homothetic.refl _⟩

variable [hp : PrimeDiscriminant p] {x y z : ReducedForm p}

theorem eq_of_homothetic (h : Homothetic x.lattice y.lattice) : x = y := by
  have heq := x.reduced.eq_of_homothetic hp.prime y.reduced h
  cases x
  cases y
  simp only [mk.injEq]
  exact heq

theorem exists_hasClass {f : BinaryQF} (hf : f.PosDef (-p)) : ∃ x : ReducedForm p, HasClass f x := by
  obtain ⟨g, _, hg, hhom⟩ := reducedForm_spec (neg_discriminant p) hf (sqrtNeg_sq p)
  exact ⟨⟨g, hg⟩, hf, hhom⟩

theorem HasClass.reducedForm_eq {f : BinaryQF} (h : HasClass f x) : f.reducedForm = .ok x.form := by
  obtain ⟨g, hreduce, hg, hhom⟩ := reducedForm_spec (neg_discriminant p) h.posDef (sqrtNeg_sq p)
  have hx : x = ⟨g, hg⟩ := eq_of_homothetic (h.homothetic.symm.trans hhom)
  rw [hreduce, hx]

def euclid : Gcdext where
  run a b := (Int.gcd a b, Int.gcdA a b, Int.gcdB a b)
  gcd_eq _ _ := rfl
  bezout a b := (Int.gcd_eq_gcd_ab a b).symm

theorem exists_mul_homothetic (x y : ReducedForm p) :
    ∃ z : ReducedForm p, Homothetic (x.lattice * y.lattice) z.lattice := by
  obtain ⟨h, _, hh, hmul⟩ := mul_spec euclid (squarefree_neg hp.prime) x.reduced.toPosDef
    y.reduced.toPosDef (fun _ => x.reduced.isCoprime) (sqrtNeg_sq p)
  obtain ⟨z, hz⟩ := exists_hasClass hh
  exact ⟨z, hmul.trans hz.homothetic⟩

noncomputable instance : Mul (ReducedForm p) := ⟨fun x y => (exists_mul_homothetic x y).choose⟩

theorem mul_homothetic (x y : ReducedForm p) : Homothetic (x.lattice * y.lattice) (x * y).lattice :=
  (exists_mul_homothetic x y).choose_spec

instance : One (ReducedForm p) := ⟨⟨getQfPrincipalForm (-p), principal_reduced p⟩⟩

theorem one_form : (1 : ReducedForm p).form = getQfPrincipalForm (-p) := rfl

omit hp in
theorem conj_posDef {f : BinaryQF} (hf : f.PosDef (-p)) :
    BinaryQF.PosDef (-p) ⟨f.a, -f.b, f.c⟩ := by
  refine ⟨hf.a_pos, ?_⟩
  rw [← hf.disc]
  simp only [discriminant, neg_sq]

noncomputable instance : Inv (ReducedForm p) :=
  ⟨fun x => (exists_hasClass (conj_posDef x.reduced.toPosDef)).choose⟩

theorem hasClass_inv (x : ReducedForm p) : HasClass ⟨x.form.a, -x.form.b, x.form.c⟩ x⁻¹ :=
  (exists_hasClass (conj_posDef x.reduced.toPosDef)).choose_spec

theorem mul_assoc' (x y z : ReducedForm p) : x * y * z = x * (y * z) := by
  apply eq_of_homothetic
  have hleft := ((mul_homothetic x y).mul (Homothetic.refl z.lattice)).trans (mul_homothetic (x * y) z)
  have hright := ((Homothetic.refl x.lattice).mul (mul_homothetic y z)).trans
    (mul_homothetic x (y * z))
  rw [mul_assoc] at hleft
  exact hleft.symm.trans hright

theorem mul_comm' (x y : ReducedForm p) : x * y = y * x := by
  apply eq_of_homothetic
  have hleft := mul_homothetic x y
  rw [mul_comm] at hleft
  exact hleft.symm.trans (mul_homothetic y x)

theorem one_mul' (x : ReducedForm p) : 1 * x = x := by
  apply eq_of_homothetic
  have h := mul_homothetic 1 x
  have hone : (1 : ReducedForm p).lattice * x.lattice = x.lattice :=
    lattice_principal_mul x.reduced.toPosDef (sqrtNeg_sq p)
  rw [hone] at h
  exact h.symm

theorem inv_mul_cancel' (x : ReducedForm p) : x⁻¹ * x = 1 := by
  apply eq_of_homothetic
  have hinv := (hasClass_inv x).homothetic.symm.mul (Homothetic.refl x.lattice)
  exact (mul_homothetic x⁻¹ x).symm.trans
    (hinv.trans (lattice_conj_mul x.reduced.toPosDef (sqrtNeg_sq p)))

noncomputable instance : CommGroup (ReducedForm p) :=
  { Group.ofLeftAxioms mul_assoc' one_mul' inv_mul_cancel' with mul_comm := mul_comm' }

/-! ### The code computes in the group -/

section Code

variable {f g : BinaryQF}

theorem HasClass.mul (gcdext : Gcdext) (hf : HasClass f x) (hg : HasClass g y)
    (hcop : f = g → IsCoprime f.a f.b) :
    ∃ h, f.mul gcdext g = .ok h ∧ HasClass h (x * y) := by
  obtain ⟨h, hmul, hh, hhom⟩ := mul_spec gcdext (squarefree_neg hp.prime) hf.posDef hg.posDef hcop
    (sqrtNeg_sq p)
  refine ⟨h, hmul, hh, ?_⟩
  exact hhom.symm.trans ((hf.homothetic.mul hg.homothetic).trans (mul_homothetic x y))

theorem mul_form (gcdext : Gcdext) (x y : ReducedForm p) :
    ∃ h, x.form.mul gcdext y.form = .ok h ∧ HasClass h (x * y) :=
  (hasClass_form x).mul gcdext (hasClass_form y) fun _ => x.reduced.isCoprime

theorem mul_reducedForm (gcdext : Gcdext) (hf : HasClass f x) (hg : HasClass g y)
    (hcop : f = g → IsCoprime f.a f.b) :
    (f.mul gcdext g >>= reducedForm) = .ok (x * y).form := by
  obtain ⟨h, hmul, hh⟩ := hf.mul gcdext hg hcop
  exact bind_eq_of_ok hmul hh.reducedForm_eq

theorem qfPowLoop_eq (gcdext : Gcdext) (n : Nat) (hf : HasClass f x) (hcop : IsCoprime f.a f.b) :
    qfPowLoop gcdext y.form f n = .ok (y * x ^ n).form := by
  induction n using Nat.strong_induction_on generalizing x y f with
  | _ n ih =>
    rw [qfPowLoop]
    by_cases hn : n = 0
    · rw [if_pos hn, hn, pow_zero, mul_one]
    · rw [if_neg hn]
      have hstep : (if n % 2 = 1 then y.form.mul gcdext f >>= reducedForm else .ok y.form) =
          Except.ok (y * x ^ (n % 2)).form := by
        rcases Nat.mod_two_eq_zero_or_one n with h | h
        · rw [h, if_neg (by decide), pow_zero, mul_one]
        · rw [h, if_pos rfl, pow_one]
          exact mul_reducedForm gcdext (hasClass_form y) hf fun _ => y.reduced.isCoprime
      obtain ⟨h, hmul, hh⟩ := hf.mul gcdext hf fun _ => hcop
      have hsplit : y * x ^ (n % 2) * (x * x) ^ (n / 2) = y * x ^ n := by
        rw [mul_assoc, ← pow_two, ← pow_mul, ← pow_add, Nat.mod_add_div]
      refine bind_eq_of_ok hstep ?_
      refine bind_eq_of_ok hmul ?_
      refine bind_eq_of_ok hh.reducedForm_eq ?_
      rw [ih (n / 2) (by omega) (hasClass_form (x * x)) (x * x).reduced.isCoprime, hsplit]

theorem qfPow_eq (gcdext : Gcdext) (n : Nat) (hf : HasClass f x) (hcop : IsCoprime f.a f.b) :
    qfPow gcdext f n = .ok (x ^ n).form := by
  have h := qfPowLoop_eq gcdext (y := 1) n hf hcop
  rw [one_mul, one_form, ← hf.posDef.disc] at h
  exact h

end Code

end ReducedForm

/-! ### The law in terms of the code -/

namespace BinaryQF

open ReducedForm

/-- `(self * other).reduced_form()` -/
def dot (gcdext : Gcdext) (self other : BinaryQF) : Except PyError BinaryQF :=
  self.mul gcdext other >>= reducedForm

/-- `h` is what `__mul__` makes of `f` and `g` when each floor division on its way is exact. -/
def ExactProduct (gcdext : Gcdext) (f g h : BinaryQF) : Prop :=
  (f ≠ g → ∃ v, compose gcdext f g = .ok v ∧ v.Exact f g ∧ h = v.form) ∧
  (f = g → ∃ mu rest m, solveLinmod gcdext f.b f.c f.a = .ok (mu, rest) ∧
    f.a * m = f.b * mu - f.c ∧ h = ⟨f.a ^ 2, f.b - 2 * f.a * mu, mu ^ 2 - m⟩)

theorem exists_exactProduct (gcdext : Gcdext) {d : Int} {f g : BinaryQF} (hf : PosDef d f)
    (hg : PosDef d g) (hcop : f = g → IsCoprime f.a f.b) :
    ∃ h, f.mul gcdext g = .ok h ∧ PosDef d h ∧ ExactProduct gcdext f g h := by
  by_cases heq : f = g
  · subst heq
    obtain ⟨mu, rest, m, hsolve, hm, hsquare⟩ := square_spec gcdext hf (hcop rfl)
    exact ⟨_, by rw [mul, if_pos rfl, hsquare], square_posDef hf hm, fun hne => absurd rfl hne,
      fun _ => ⟨mu, rest, m, hsolve, hm, rfl⟩⟩
  · obtain ⟨v, hcompose, hv, _, hs, ht, _⟩ := compose_spec gcdext hf hg
    refine ⟨v.form, ?_, ⟨mul_pos hs ht, hv.discriminant_form.trans hf.disc⟩,
      fun _ => ⟨v, hcompose, hv, rfl⟩, fun h => absurd h heq⟩
    rw [mul, if_neg heq, hcompose, ok_bind]
    rfl

theorem dot_form (gcdext : Gcdext) {p : Nat} [PrimeDiscriminant p] (x y : ReducedForm p) :
    x.form.dot gcdext y.form = .ok (x * y).form :=
  mul_reducedForm gcdext (hasClass_form x) (hasClass_form y) fun _ => x.reduced.isCoprime

/-- The reduced forms of discriminant `-p` are a commutative group under `dot`. -/
theorem class_group_law (gcdext : Gcdext) {p : Nat} (hprime : p.Prime) (hmod : p % 4 = 3)
    {f g h : BinaryQF} (hf : f.Reduced (-p)) (hg : g.Reduced (-p)) (hh : h.Reduced (-p)) :
    (∃ fg, f.mul gcdext g = .ok fg ∧ PosDef (-p) fg ∧ ExactProduct gcdext f g fg) ∧
    (∀ a b m u v, 0 < m → solveLinmod gcdext a b m = .ok (u, v) →
      (Int.gcd a m : Int) ∣ b ∧ v * Int.gcd a m = m) ∧
    (∃ fg gh fgh, f.dot gcdext g = .ok fg ∧ fg.Reduced (-p) ∧ g.dot gcdext h = .ok gh ∧
      fg.dot gcdext h = .ok fgh ∧ f.dot gcdext gh = .ok fgh) ∧
    f.dot gcdext g = g.dot gcdext f ∧
    (getQfPrincipalForm (-p)).Reduced (-p) ∧
    (getQfPrincipalForm (-p)).dot gcdext f = .ok f ∧
    ∃ inv, (⟨f.a, -f.b, f.c⟩ : BinaryQF).reducedForm = .ok inv ∧ inv.Reduced (-p) ∧
      inv.dot gcdext f = .ok (getQfPrincipalForm (-p)) := by
  have : PrimeDiscriminant p := ⟨hprime, hmod⟩
  obtain ⟨x, rfl⟩ : ∃ x : ReducedForm p, x.form = f := ⟨⟨f, hf⟩, rfl⟩
  obtain ⟨y, rfl⟩ : ∃ y : ReducedForm p, y.form = g := ⟨⟨g, hg⟩, rfl⟩
  obtain ⟨z, rfl⟩ : ∃ z : ReducedForm p, z.form = h := ⟨⟨h, hh⟩, rfl⟩
  refine ⟨exists_exactProduct gcdext hf.toPosDef hg.toPosDef fun _ => hf.isCoprime,
    fun _ _ _ _ _ => solveLinmod_exact gcdext, ?_, ?_, principal_reduced p, ?_, ?_⟩
  · refine ⟨(x * y).form, (y * z).form, (x * y * z).form, dot_form gcdext x y, (x * y).reduced,
      dot_form gcdext y z, dot_form gcdext (x * y) z, ?_⟩
    rw [dot_form, mul_assoc]
  · rw [dot_form, dot_form, mul_comm]
  · rw [← one_form, dot_form, one_mul]
  · refine ⟨x⁻¹.form, (hasClass_inv x).reducedForm_eq, x⁻¹.reduced, ?_⟩
    rw [dot_form, inv_mul_cancel, one_form]

/-- Discriminant `-23`, where `(2, 1, 3)` and `(2, -1, 3)` are inverse. -/
theorem class_group_23 : ∃ fg, dot euclid ⟨2, 1, 3⟩ ⟨2, -1, 3⟩ = .ok fg ∧ fg.Reduced (-23) := by
  have hf : Reduced (-(23 : Nat)) ⟨2, 1, 3⟩ := ⟨⟨by decide, by decide⟩, by decide, by decide, by decide⟩
  have hg : Reduced (-(23 : Nat)) ⟨2, -1, 3⟩ :=
    ⟨⟨by decide, by decide⟩, by decide, by decide, by decide⟩
  obtain ⟨_, _, ⟨fg, _, _, hdot, hreduced, _⟩, _⟩ :=
    class_group_law euclid (by norm_num) (by decide) hf hg hf
  exact ⟨fg, hdot, hreduced⟩

end BinaryQF

end Lootbox.Headstart

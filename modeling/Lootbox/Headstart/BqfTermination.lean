import Lootbox.Headstart.BqfCanonical

/-!
# `math/bqf.py`: when `reduced_form` ends

Nothing checks a form before it is reduced. The loop ends on every triple of integers, whatever
its discriminant and sign, but for one family of negative definite forms, which it maps to
themselves.
-/

namespace Lootbox.Headstart

/-- The call returns or raises. -/
def Halts {α : Type} (c : Except PyError α) : Prop := c ≠ .error .diverges

theorem halts_ok {α : Type} (a : α) : Halts (.ok a : Except PyError α) := by
  intro h
  cases h

theorem Halts.of_eq_ok {α : Type} {c : Except PyError α} {a : α} (h : c = .ok a) : Halts c :=
  h ▸ halts_ok a

theorem halts_bind_iff {α β : Type} {c : Except PyError α} {k : α → Except PyError β} :
    Halts (c >>= k) ↔ Halts c ∧ ∀ a, c = .ok a → Halts (k a) := by
  cases c with
  | error e =>
    constructor
    · intro h
      exact ⟨fun he => h (congrArg _ (Except.error.inj he)), fun a ha => nomatch ha⟩
    · intro h he
      exact h.1 (congrArg _ (Except.error.inj he))
  | ok a =>
    constructor
    · intro h
      refine ⟨halts_ok a, ?_⟩
      intro b hb
      cases hb
      exact h
    · intro h
      exact h.2 a rfl

theorem floorDiv_halts (a b : Int) : Halts (floorDiv a b) := by
  unfold floorDiv Halts
  split <;> simp

theorem floorMod_halts (a b : Int) : Halts (floorMod a b) := by
  unfold floorMod Halts
  split <;> simp

namespace BinaryQF

variable {f g : BinaryQF}

/-- `a * (x ^ 2 + k * x * y + (k ^ 2 + 3) / 4 * y ^ 2)` for a negative `a` and an odd `k`. -/
def Stuck (f : BinaryQF) : Prop :=
  f.a < 0 ∧ ∃ k, k % 2 = 1 ∧ f.b = k * f.a ∧ 4 * f.c = f.a * (k ^ 2 + 3)

/-- What `normalize` and each round make of the middle coefficient. -/
def Normalized (f : BinaryQF) : Prop :=
  (0 < f.a ∧ -f.a < f.b ∧ f.b ≤ f.a) ∨ (f.a < 0 ∧ f.a ≤ f.b ∧ f.b < -f.a)

theorem fmod_of_neg (a : Int) {b : Int} (hb : b < 0) : b < a.fmod b ∧ a.fmod b ≤ 0 := by
  have hneg : a.fmod b = -(-a).fmod (-b) := by rw [Int.neg_fmod_neg, neg_neg]
  have hlower := Int.fmod_nonneg_of_pos (-a) (b := -b) (by omega)
  have hupper := Int.fmod_lt_of_pos (-a) (b := -b) (by omega)
  omega

theorem fdiv_of_neg {a b q : Int} (hb : b < 0) (hlower : b < a - b * q) (hupper : a - b * q ≤ 0) :
    a.fdiv b = q := by
  have hsplit := Int.mul_fdiv_add_fmod a b
  obtain ⟨hlo, hhi⟩ := fmod_of_neg a hb
  by_contra hne
  rcases lt_or_gt_of_ne hne with hlt | hgt
  · nlinarith
  · nlinarith

theorem shift_normalized {b c : Int} (hc : c ≠ 0) {s : Int} (hs : s = (c + b).fdiv (2 * c)) :
    (0 < c ∧ -c < -b + 2 * s * c ∧ -b + 2 * s * c ≤ c) ∨
      (c < 0 ∧ c ≤ -b + 2 * s * c ∧ -b + 2 * s * c < -c) := by
  have hsplit := Int.mul_fdiv_add_fmod (c + b) (2 * c)
  rw [← hs] at hsplit
  have heq : -b + 2 * s * c = c - (c + b).fmod (2 * c) := by linear_combination hsplit
  rw [heq]
  rcases lt_or_gt_of_ne hc with hneg | hpos
  · right
    obtain ⟨hlower, hupper⟩ := fmod_of_neg (c + b) (b := 2 * c) (by omega)
    omega
  · left
    have hlower := Int.fmod_nonneg_of_pos (c + b) (b := 2 * c) (by omega)
    have hupper := Int.fmod_lt_of_pos (c + b) (b := 2 * c) (by omega)
    omega

theorem normalize_normalized (h : f.normalize = .ok g) : g.a = f.a ∧ Normalized g := by
  obtain ⟨r, hr, hg⟩ := bind_eq_ok_iff.mp h
  cases hg
  obtain ⟨ha, hr⟩ := floorDiv_eq_ok hr
  have hshift := shift_normalized (b := -f.b) (c := f.a) (by omega) hr
  rw [neg_neg] at hshift
  exact ⟨rfl, hshift⟩

/-! ### Forms that are mapped to themselves -/

theorem reduceLoop_stuck {a : Int} (ha : a < 0) (fuel : Nat) :
    reduceLoop fuel ⟨a, a, a⟩ = .error .diverges := by
  induction fuel with
  | zero => rfl
  | succ fuel ih =>
    have hs : (a + a).fdiv (2 * a) = 1 := fdiv_of_neg (by omega) (by omega) (by omega)
    have hround : (⟨a, -a + 2 * 1 * a, a * 1 * 1 - a * 1 + a⟩ : BinaryQF) = ⟨a, a, a⟩ := by
      apply ext_coefficients
      · rfl
      · ring
      · ring
    rw [reduceLoop]
    dsimp only
    rw [if_neg (by omega), floorDiv, if_neg (by omega), ok_bind, hs, hround, ih]

theorem Stuck.normalize_eq (h : Stuck f) : f.normalize = .ok ⟨f.a, f.a, f.a⟩ := by
  obtain ⟨ha, k, hk, hb, hc⟩ := h
  obtain ⟨m, rfl⟩ : ∃ m, k = 1 - 2 * m := ⟨(1 - k) / 2, by omega⟩
  have hr : (f.a - f.b).fdiv (2 * f.a) = m := by
    have hmul : f.a - f.b = m * (2 * f.a) := by
      rw [hb]
      ring
    rw [hmul, Int.mul_fdiv_cancel _ (by omega)]
  rw [normalize, floorDiv, if_neg (by omega), ok_bind, hr]
  refine congrArg Except.ok (ext_coefficients rfl ?_ ?_)
  · show f.b + 2 * m * f.a = f.a
    rw [hb]
    ring
  · show f.a * m * m + f.b * m + f.c = f.a
    rw [hb]
    linarith

theorem stuck_of_normalize {a : Int} (ha : a < 0) (h : f.normalize = .ok ⟨a, a, a⟩) : Stuck f := by
  have hdisc := (normalize_equivalent h).discriminant_eq
  obtain ⟨r, _, hg⟩ := bind_eq_ok_iff.mp h
  have hg := Except.ok.inj hg
  have hfa : f.a = a := congrArg BinaryQF.a hg
  have hfb : f.b + 2 * r * f.a = a := congrArg BinaryQF.b hg
  subst hfa
  refine ⟨ha, 1 - 2 * r, by omega, by linarith, ?_⟩
  have hb : f.b = f.a * (1 - 2 * r) := by linarith
  simp only [discriminant] at hdisc
  rw [hb] at hdisc
  apply mul_left_cancel₀ ha.ne
  linarith

/-! ### All other forms -/

theorem reduceLoop_of_neg (hlower : f.a ≤ f.b) (hupper : f.b < -f.a)
    (hne : ¬ (f.b = f.a ∧ f.c = f.a)) (fuel : Nat) : ∃ g, reduceLoop (fuel + 2) f = .ok g := by
  rw [reduceLoop]
  by_cases hguard : f.a < f.c ∨ (f.a = f.c ∧ f.b ≥ 0)
  · rw [if_pos hguard]
    exact ⟨f, rfl⟩
  · have hs : (f.c + f.b).fdiv (2 * f.c) = 0 := fdiv_of_neg (by omega) (by omega) (by omega)
    rw [if_neg hguard, floorDiv, if_neg (by omega), ok_bind, hs, reduceLoop, if_pos]
    · exact ⟨_, rfl⟩
    · simp only [mul_zero, zero_mul, add_zero, sub_zero, zero_add]
      omega

/-- With a positive first coefficient the places change until the other is zero or negative. -/
theorem reduceLoop_of_pos {fuel : Nat} (ha : 0 < f.a) (hlower : -f.a < f.b) (hupper : f.b ≤ f.a)
    (hfuel : variant f < fuel) : Halts (reduceLoop fuel f) := by
  induction fuel generalizing f with
  | zero => omega
  | succ fuel ih =>
    rw [reduceLoop]
    by_cases hguard : f.a < f.c ∨ (f.a = f.c ∧ f.b ≥ 0)
    · rw [if_pos hguard]
      exact halts_ok f
    · rw [if_neg hguard]
      refine halts_bind_iff.mpr ⟨floorDiv_halts _ _, ?_⟩
      intro s hs
      obtain ⟨hc, hs⟩ := floorDiv_eq_ok hs
      rcases shift_normalized (by omega) hs with ⟨hpos, hlo, hhi⟩ | ⟨hneg, hlo, hhi⟩
      · have hs' : s = (f.c + f.b) / (2 * f.c) := by
          rw [hs, Int.fdiv_eq_ediv_of_nonneg _ (by omega)]
        have hvariant := variant_swap_lt ha hpos hlower hguard hs'
        exact ih hpos hlo hhi (by omega)
      · obtain ⟨n, rfl⟩ : ∃ n, fuel = n + 1 := by
          unfold variant at hfuel
          exact ⟨fuel - 1, by omega⟩
        -- the discriminant is positive, so the next last coefficient is greater
        have hdisc := (swap_equivalent f s).discriminant_eq
        simp only [discriminant] at hdisc
        rw [reduceLoop, if_pos]
        · exact halts_ok _
        · left
          show f.c < f.c * s * s - f.b * s + f.a
          have hac : f.a * f.c < 0 := mul_neg_of_pos_of_neg ha hneg
          nlinarith

theorem reducedForm_halts_iff : Halts f.reducedForm ↔ ¬ Stuck f := by
  constructor
  · intro h hstuck
    apply h
    rw [reducedForm, hstuck.normalize_eq, ok_bind, reduceLoop_stuck hstuck.1]
  · intro hstuck
    have hnormalize : Halts f.normalize := by
      rw [normalize, halts_bind_iff]
      exact ⟨floorDiv_halts _ _, fun r _ => halts_ok _⟩
    refine halts_bind_iff.mpr ⟨hnormalize, ?_⟩
    intro nf hnf
    obtain ⟨ha, hpos | hneg⟩ := normalize_normalized hnf
    · apply reduceLoop_of_pos hpos.1 hpos.2.1 hpos.2.2
      unfold variant
      rw [ha]
      split <;> omega
    · have hne : ¬ (nf.b = nf.a ∧ nf.c = nf.a) := by
        rintro ⟨hb, hc⟩
        apply hstuck
        apply stuck_of_normalize hneg.1
        rw [hnf, ext_coefficients (f := nf) (g := ⟨nf.a, nf.a, nf.a⟩) rfl hb hc]
      obtain ⟨g, hg⟩ := reduceLoop_of_neg hneg.2.1 hneg.2.2 hne (2 * f.a.natAbs)
      exact Halts.of_eq_ok hg

theorem Stuck.diverges (h : Stuck f) (fuel : Nat) :
    (f.normalize >>= reduceLoop fuel) = .error .diverges := by
  rw [h.normalize_eq, ok_bind, reduceLoop_stuck h.1]

end BinaryQF

end Lootbox.Headstart

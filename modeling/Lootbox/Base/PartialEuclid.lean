import Mathlib

/-!
# Euclid's algorithm stopped halfway

Two successive remainders of `a` and `k` stand beside the cofactors of `k`. A division keeps the
remainders ordered and the cofactors of opposite sign; so does a run of divisions whose quotients
were read off the leading digits, as long as the cofactors of the run stay small.
-/

namespace Lootbox.PartialEuclid

/-- Successive remainders and their cofactors, the older one first. -/
structure Pair where
  r2 : Int
  r1 : Int
  co2 : Int
  co1 : Int
  deriving DecidableEq, Repr

namespace Pair

def divide (s : Pair) (q : Int) : Pair := ⟨s.r1, s.r2 - q * s.r1, s.co1, s.co2 - q * s.co1⟩

def combine (s : Pair) (b2 a2 b1 a1 : Int) : Pair :=
  ⟨b2 * s.r2 + a2 * s.r1, b1 * s.r2 + a1 * s.r1, b2 * s.co2 + a2 * s.co1, b1 * s.co2 + a1 * s.co1⟩

theorem divide_combine (s : Pair) (q b2 a2 b1 a1 : Int) :
    (s.combine b2 a2 b1 a1).divide q = s.combine b1 a1 (b2 - q * b1) (a2 - q * a1) := by
  simp only [divide, combine, mk.injEq, true_and]
  constructor <;> ring

theorem combine_one (s : Pair) : s.combine 1 0 0 1 = s := by
  simp [combine]

end Pair

/-- A step of Euclid's algorithm: the older remainder is divided by the other one. -/
def Pair.Next (s t : Pair) : Prop := 0 < s.r1 ∧ t = s.divide (s.r2 / s.r1)

/-- The pair occurs in the Euclidean sequence of `a` and `k`, so that a remainder is minus its cofactor
times `k` modulo `a`, and the cofactors have opposite signs. -/
structure Remainders (a k : Int) (s : Pair) : Prop where
  occurs : Relation.ReflTransGen Pair.Next ⟨a, k, 0, -1⟩ s
  nonneg : 0 ≤ s.r1
  le : s.r1 ≤ s.r2
  dvd2 : a ∣ s.r2 + k * s.co2
  dvd1 : a ∣ s.r1 + k * s.co1
  cross : (0 < s.co1 ∧ s.co2 ≤ 0 ∧ s.r2 * s.co1 - s.r1 * s.co2 = a) ∨
    (s.co1 < 0 ∧ 0 ≤ s.co2 ∧ s.r1 * s.co2 - s.r2 * s.co1 = a)

section Remainders

variable {a k : Int} {s : Pair}

theorem remainders_start (hk : 0 ≤ k) (hka : k ≤ a) : Remainders a k ⟨a, k, 0, -1⟩ := by
  refine ⟨Relation.ReflTransGen.refl, hk, hka, by simp, by simp, Or.inr ⟨by norm_num, le_rfl, ?_⟩⟩
  ring

theorem Remainders.divide (h : Remainders a k s) {q : Int} (hq : 1 ≤ q) (hlow : 0 ≤ s.r2 - q * s.r1)
    (hhigh : s.r2 - q * s.r1 < s.r1) : Remainders a k (s.divide q) := by
  have hr1 : 0 < s.r1 := hlow.trans_lt hhigh
  have hquot : q = s.r2 / s.r1 := by
    apply le_antisymm
    · rw [Int.le_ediv_iff_mul_le hr1]
      linarith
    · rw [← Int.lt_add_one_iff, Int.ediv_lt_iff_lt_mul hr1, add_one_mul]
      linarith
  refine ⟨h.occurs.tail ⟨hr1, by rw [hquot]⟩, hlow, hhigh.le, h.dvd1, ?_, ?_⟩
  · have heq : s.r2 - q * s.r1 + k * (s.co2 - q * s.co1) =
        s.r2 + k * s.co2 - q * (s.r1 + k * s.co1) := by ring
    show a ∣ s.r2 - q * s.r1 + k * (s.co2 - q * s.co1)
    rw [heq]
    exact dvd_sub h.dvd2 (h.dvd1.mul_left q)
  · rcases h.cross with ⟨hpos, hnonpos, heq⟩ | ⟨hneg, hnonneg, heq⟩
    · right
      refine ⟨?_, hpos.le, ?_⟩
      · show s.co2 - q * s.co1 < 0
        nlinarith
      · show (s.r2 - q * s.r1) * s.co1 - s.r1 * (s.co2 - q * s.co1) = a
        linear_combination heq
    · left
      refine ⟨?_, hneg.le, ?_⟩
      · show 0 < s.co2 - q * s.co1
        nlinarith
      · show s.r1 * (s.co2 - q * s.co1) - (s.r2 - q * s.r1) * s.co1 = a
        linear_combination heq

theorem Remainders.divide_fdiv (h : Remainders a k s) (hr1 : 0 < s.r1) :
    Remainders a k (s.divide (s.r2 / s.r1)) ∧ (s.divide (s.r2 / s.r1)).r1 < s.r1 := by
  have hle := h.le
  have hmod : s.r2 - s.r2 / s.r1 * s.r1 = s.r2 % s.r1 := by
    linear_combination -(Int.mul_ediv_add_emod s.r2 s.r1)
  have hnonneg := Int.emod_nonneg s.r2 hr1.ne'
  have hlt := Int.emod_lt_of_pos s.r2 hr1
  have hq : 1 ≤ s.r2 / s.r1 := by
    rw [Int.le_ediv_iff_mul_le hr1, one_mul]
    exact hle
  refine ⟨h.divide hq (hmod ▸ hnonneg) (hmod ▸ hlt), ?_⟩
  show s.r2 - s.r2 / s.r1 * s.r1 < s.r1
  rw [hmod]
  exact hlt

theorem Remainders.co1_ne_zero (h : Remainders a k s) : s.co1 ≠ 0 := by
  rcases h.cross with ⟨hpos, _, _⟩ | ⟨hneg, _, _⟩
  · exact hpos.ne'
  · exact hneg.ne

theorem Remainders.mul_abs_co1_le (h : Remainders a k s) : s.r2 * |s.co1| ≤ a := by
  have hr1 := h.nonneg
  rcases h.cross with ⟨hpos, hnonpos, heq⟩ | ⟨hneg, hnonneg, heq⟩
  · rw [abs_of_pos hpos]
    nlinarith
  · rw [abs_of_neg hneg]
    nlinarith

/-- The two multiples of `a` in the remainders, with determinant one up to sign. -/
theorem Remainders.exists_multiples (h : Remainders a k s) (ha : a ≠ 0) :
    ∃ x2 x1, s.r2 = a * x2 - k * s.co2 ∧ s.r1 = a * x1 - k * s.co1 ∧
      ((0 < s.co1 ∧ x2 * s.co1 - x1 * s.co2 = 1) ∨ (s.co1 < 0 ∧ x2 * s.co1 - x1 * s.co2 = -1)) := by
  obtain ⟨x2, hx2⟩ := h.dvd2
  obtain ⟨x1, hx1⟩ := h.dvd1
  refine ⟨x2, x1, by linarith, by linarith, ?_⟩
  rcases h.cross with ⟨hpos, _, heq⟩ | ⟨hneg, _, heq⟩
  · left
    refine ⟨hpos, mul_left_cancel₀ ha ?_⟩
    linear_combination heq - s.co1 * hx2 + s.co2 * hx1
  · right
    refine ⟨hneg, mul_left_cancel₀ ha ?_⟩
    linear_combination -heq - s.co1 * hx2 + s.co2 * hx1

end Remainders

/-! ### Leading digits

A remainder is `P * t + x * e + y * f` where `t` was computed from the leading digits, `e` and `f`
are what these leave out, and `x` and `y` are the cofactors within the window. -/

section Window

variable {P t t' x y u v e f : Int}

theorem window_nonneg (he : 0 ≤ e) (hf0 : 0 ≤ f) (hf : f < P) (hu : 0 ≤ u) (hv : v ≤ 0)
    (hcond : -v ≤ t') : 0 ≤ P * t' + u * e + v * f := by
  have hue : 0 ≤ u * e := mul_nonneg hu he
  have hvf : v * P ≤ v * f := mul_le_mul_of_nonpos_left hf.le hv
  have hsum : 0 ≤ P * (t' + v) := mul_nonneg (by omega) (by omega)
  linarith

theorem window_lt (hf0 : 0 ≤ f) (he0 : 0 ≤ e) (he : e < P) (hxu : 1 ≤ u - x) (hvy : v ≤ y)
    (hcond : u - x ≤ t - t') : P * t' + u * e + v * f < P * t + x * e + y * f := by
  have hvf : v * f ≤ y * f := mul_le_mul_of_nonneg_right hvy hf0
  have hPt : P * (u - x) ≤ P * (t - t') := mul_le_mul_of_nonneg_left hcond (by omega)
  have hgap : (u - x) * e < (u - x) * P := mul_lt_mul_of_pos_left he (by omega)
  linarith

theorem window_half (hf0 : 0 ≤ f) (he0 : 0 ≤ e) (he : e < P) (hx : x ≤ 0) (hy : 0 ≤ y)
    (ht' : 0 ≤ t') (hxu : -x ≤ u) (hcond : u - x ≤ t - t') :
    P * t ≤ 2 * (P * t + x * e + y * f) := by
  have hyf : 0 ≤ y * f := mul_nonneg hy hf0
  have hxe : x * P ≤ x * e := mul_le_mul_of_nonpos_left he.le hx
  have hsum : 0 ≤ P * (t + 2 * x) := mul_nonneg (by omega) (by omega)
  linarith

end Window

end Lootbox.PartialEuclid

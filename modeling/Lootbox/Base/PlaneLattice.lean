import Mathlib

/-!
# Lattices of rank two up to homothety

A lattice is a `ℤ`-submodule of a field. Two lattices are homothetic when one is a multiple of
the other; the product of lattices respects this. A lattice with a shortest vector that is
unique up to sign fixes the scale.
-/

namespace Lootbox.PlaneLattice

open Submodule

universe u
variable {K : Type u} [Field K]

section Homothety

variable {L M N L' M' : Submodule ℤ K}

def Homothetic (L M : Submodule ℤ K) : Prop := ∃ z : K, z ≠ 0 ∧ M = span ℤ {z} * L

theorem span_singleton_mul_span_singleton (y z : K) :
    span ℤ {y} * span ℤ {z} = span ℤ {y * z} := by
  rw [span_mul_span, Set.singleton_mul_singleton]

theorem Homothetic.refl (L : Submodule ℤ K) : Homothetic L L :=
  ⟨1, one_ne_zero, by rw [← Submodule.one_eq_span, one_mul]⟩

theorem Homothetic.symm (h : Homothetic L M) : Homothetic M L := by
  obtain ⟨z, hz, rfl⟩ := h
  refine ⟨z⁻¹, inv_ne_zero hz, ?_⟩
  rw [← mul_assoc, span_singleton_mul_span_singleton, inv_mul_cancel₀ hz, ← Submodule.one_eq_span,
    one_mul]

theorem Homothetic.trans (h : Homothetic L M) (h' : Homothetic M N) : Homothetic L N := by
  obtain ⟨y, hy, rfl⟩ := h
  obtain ⟨z, hz, rfl⟩ := h'
  refine ⟨z * y, mul_ne_zero hz hy, ?_⟩
  rw [← mul_assoc, span_singleton_mul_span_singleton]

theorem Homothetic.mul (h : Homothetic L M) (h' : Homothetic L' M') :
    Homothetic (L * L') (M * M') := by
  obtain ⟨y, hy, rfl⟩ := h
  obtain ⟨z, hz, rfl⟩ := h'
  refine ⟨y * z, mul_ne_zero hy hz, ?_⟩
  rw [mul_mul_mul_comm, span_singleton_mul_span_singleton]

theorem homothetic_of_mul_eq {y z : K} (hy : y ≠ 0) (hz : z ≠ 0)
    (h : span ℤ {y} * L = span ℤ {z} * M) : Homothetic L M := by
  have hleft : Homothetic L (span ℤ {y} * L) := ⟨y, hy, rfl⟩
  have hright : Homothetic M (span ℤ {y} * L) := ⟨z, hz, h⟩
  exact hleft.trans hright.symm

end Homothety

/-! ### Two generators -/

section Pair

def pair (x y : K) : Submodule ℤ K := span ℤ {x, y}

theorem mem_pair {x y v : K} : v ∈ pair x y ↔ ∃ m n : ℤ, (m : K) * x + n * y = v := by
  rw [pair, mem_span_pair]
  simp only [zsmul_eq_mul]

theorem pair_le_iff {x y : K} {L : Submodule ℤ K} : pair x y ≤ L ↔ x ∈ L ∧ y ∈ L := by
  rw [pair, span_le, Set.insert_subset_iff, Set.singleton_subset_iff]
  rfl

theorem left_mem_pair (x y : K) : x ∈ pair x y := (pair_le_iff.mp le_rfl).1

theorem right_mem_pair (x y : K) : y ∈ pair x y := (pair_le_iff.mp le_rfl).2

theorem span_mul_pair (z x y : K) : span ℤ {z} * pair x y = pair (z * x) (z * y) := by
  rw [pair, span_mul_span, Set.singleton_mul, Set.image_pair]
  rfl

theorem pair_mul_pair (x y x' y' : K) :
    pair x y * pair x' y' = span ℤ {x * x', x * y', y * x', y * y'} := by
  rw [pair, pair, span_mul_span, Set.insert_eq x {y}, Set.union_mul, Set.singleton_mul,
    Set.singleton_mul, Set.image_pair, Set.image_pair, Set.insert_union, Set.singleton_union]

theorem intCast_mul_mem {L : Submodule ℤ K} {x : K} (n : ℤ) (hx : x ∈ L) : (n : K) * x ∈ L := by
  rw [← zsmul_eq_mul]
  exact L.smul_mem n hx

theorem pair_add_mul (x y : K) (n : ℤ) : pair x (y + n * x) = pair x y := by
  apply le_antisymm
  · rw [pair_le_iff]
    exact ⟨left_mem_pair x y, add_mem (right_mem_pair x y) (intCast_mul_mem n (left_mem_pair x y))⟩
  · rw [pair_le_iff]
    refine ⟨left_mem_pair _ _, ?_⟩
    have h := sub_mem (right_mem_pair x (y + n * x)) (intCast_mul_mem n (left_mem_pair x (y + n * x)))
    rwa [add_sub_cancel_right] at h

theorem pair_comm (x y : K) : pair x y = pair y x := by
  rw [pair, pair, Set.pair_comm]

theorem pair_neg_right (x y : K) : pair x (-y) = pair x y := by
  apply le_antisymm
  · rw [pair_le_iff]
    exact ⟨left_mem_pair x y, neg_mem (right_mem_pair x y)⟩
  · rw [pair_le_iff]
    refine ⟨left_mem_pair _ _, ?_⟩
    rw [← neg_neg y]
    exact neg_mem (by rw [neg_neg]; exact right_mem_pair x (-y))

/-- Four vectors whose two by two minors have no common divisor generate the whole lattice. -/
theorem span_four_eq_pair {x y : K} {w s t u k l m : ℤ}
    (hminors : ∃ e₁ e₂ e₃ e₄ : ℤ,
      e₁ * w + e₂ * (t * k - s * l) + e₃ * (u * k - s * m) + e₄ * (u * l - t * m) = 1)
    (hcoprime : ∃ f₁ f₂ f₃ : ℤ, f₁ * s + f₂ * t + f₃ * u = 1) :
    span ℤ {(w : K) * x, s * y - k * x, t * y - l * x, m * x - u * y} = pair x y := by
  have hx := left_mem_pair x y
  have hy := right_mem_pair x y
  apply le_antisymm
  · rw [span_le]
    intro v hv
    rcases hv with rfl | rfl | rfl | rfl
    · exact intCast_mul_mem w hx
    · exact sub_mem (intCast_mul_mem s hy) (intCast_mul_mem k hx)
    · exact sub_mem (intCast_mul_mem t hy) (intCast_mul_mem l hx)
    · exact sub_mem (intCast_mul_mem m hx) (intCast_mul_mem u hy)
  · obtain ⟨S, hS⟩ : ∃ S, S = span ℤ {(w : K) * x, s * y - k * x, t * y - l * x, m * x - u * y} :=
      ⟨_, rfl⟩
    rw [← hS]
    have hsub := subset_span (R := ℤ) (s := {(w : K) * x, s * y - k * x, t * y - l * x, m * x - u * y})
    rw [← hS] at hsub
    have h₁ : (w : K) * x ∈ S := hsub (by simp)
    have h₂ : (s : K) * y - k * x ∈ S := hsub (by simp)
    have h₃ : (t : K) * y - l * x ∈ S := hsub (by simp)
    have h₄ : (m : K) * x - u * y ∈ S := hsub (by simp)
    have hxS : x ∈ S := by
      obtain ⟨e₁, e₂, e₃, e₄, he⟩ := hminors
      have he' : (e₁ * w + e₂ * (t * k - s * l) + e₃ * (u * k - s * m) + e₄ * (u * l - t * m) : K) = 1 := by
        exact_mod_cast congrArg (Int.cast : ℤ → K) he
      have hmem := add_mem (add_mem (intCast_mul_mem e₁ h₁)
        (intCast_mul_mem e₂ (sub_mem (intCast_mul_mem s h₃) (intCast_mul_mem t h₂))))
        (add_mem (intCast_mul_mem (-e₃) (add_mem (intCast_mul_mem u h₂) (intCast_mul_mem s h₄)))
          (intCast_mul_mem (-e₄) (add_mem (intCast_mul_mem u h₃) (intCast_mul_mem t h₄))))
      convert hmem using 1
      push_cast
      linear_combination (-x) * he'
    have hyS : y ∈ S := by
      obtain ⟨f₁, f₂, f₃, hf⟩ := hcoprime
      have hf' : (f₁ * s + f₂ * t + f₃ * u : K) = 1 := by
        exact_mod_cast congrArg (Int.cast : ℤ → K) hf
      have hsy : (s : K) * y ∈ S := by
        have h := add_mem h₂ (intCast_mul_mem k hxS)
        rwa [sub_add_cancel] at h
      have hty : (t : K) * y ∈ S := by
        have h := add_mem h₃ (intCast_mul_mem l hxS)
        rwa [sub_add_cancel] at h
      have huy : (u : K) * y ∈ S := by
        have h := sub_mem (intCast_mul_mem m hxS) h₄
        rwa [sub_sub_cancel] at h
      have hmem := add_mem (add_mem (intCast_mul_mem f₁ hsy) (intCast_mul_mem f₂ hty))
        (intCast_mul_mem f₃ huy)
      convert hmem using 1
      linear_combination (-y) * hf'
    exact pair_le_iff.mpr ⟨hxS, hyS⟩

end Pair

/-! ### Shortest vectors -/

section Shortest

variable (N : K →*₀ ℝ)

/-- `u` is shorter than every vector of the lattice but `0`, `u` and `-u`. -/
structure Shortest (L : Submodule ℤ K) (u : K) : Prop where
  mem : u ∈ L
  ne_zero : u ≠ 0
  lt : ∀ v ∈ L, v ≠ 0 → v ≠ u → v ≠ -u → N u < N v

variable {N} {L : Submodule ℤ K} {u v : K}

theorem Shortest.eq_or_eq_neg (hu : Shortest N L u) (hv : Shortest N L v) : v = u ∨ v = -u := by
  by_contra hne
  push Not at hne
  have huv := hu.lt v hv.mem hv.ne_zero hne.1 hne.2
  have hvu := hv.lt u hu.mem hu.ne_zero (fun h => hne.1 h.symm) (fun h => hne.2 (by rw [h, neg_neg]))
  exact lt_asymm huv hvu

theorem mem_span_mul_iff {z x : K} : x ∈ span ℤ {z} * L ↔ ∃ y ∈ L, z * y = x :=
  Submodule.mem_span_singleton_mul

theorem Shortest.mul (hN : ∀ x, x ≠ 0 → 0 < N x) (hu : Shortest N L u) {z : K} (hz : z ≠ 0) :
    Shortest N (span ℤ {z} * L) (z * u) := by
  refine ⟨mem_span_mul_iff.mpr ⟨u, hu.mem, rfl⟩, mul_ne_zero hz hu.ne_zero, ?_⟩
  intro v hv hv0 hne hne'
  obtain ⟨y, hy, rfl⟩ := mem_span_mul_iff.mp hv
  rw [map_mul, map_mul]
  apply mul_lt_mul_of_pos_left _ (hN z hz)
  apply hu.lt y hy
  · rintro rfl
    exact hv0 (mul_zero z)
  · rintro rfl
    exact hne rfl
  · rintro rfl
    exact hne' (mul_neg z u)

theorem Homothetic.eq_of_shortest (hN : ∀ x, x ≠ 0 → 0 < N x) {M : Submodule ℤ K}
    (h : Homothetic L M) (hu : Shortest N L u) (hv : Shortest N M v) :
    M = span ℤ {v / u} * L := by
  obtain ⟨z, hz, rfl⟩ := h
  have hu0 := hu.ne_zero
  rcases (hu.mul hN hz).eq_or_eq_neg hv with rfl | rfl
  · rw [mul_div_cancel_right₀ z hu0]
  · rw [neg_div, mul_div_cancel_right₀ z hu0, ← Set.neg_singleton, Submodule.span_neg]

end Shortest

end Lootbox.PlaneLattice

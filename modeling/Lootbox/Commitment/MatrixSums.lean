import Lootbox.Base.DomainSums
import Lootbox.Commitment.MarlinProver
import Lootbox.Commitment.RationalSumcheck

/-!
# The bilinear form of a sparse matrix

Both sum checks read a matrix as the sum of its entries, weighted by a value for the row and a
value for the column. The polynomial `t` collects the rows of the three matrices.
-/

namespace Lootbox.IndexPrivateMarlin

open AcCompiler

variable {F : Type} [Field F]

/-- `∑ coeff * left row * right column` over the entries. -/
def entrySum (m : Matrix F) (left right : Nat → F) : F :=
  ((matrixEntries m).map fun e => e.1.1 * left e.2 * right e.1.2).sum

def rowSum (row : List (F × Nat)) (right : Nat → F) : F := (row.map fun e => e.1 * right e.2).sum

/-! ### Rows -/

theorem sum_row_entries (row : List (F × Nat)) (i : Nat) (left right : Nat → F) :
    ((row.map fun entry => (entry, i)).map fun e => e.1.1 * left e.2 * right e.1.2).sum =
      left i * rowSum row right := by
  induction row with
  | nil => simp [rowSum]
  | cons e row ih =>
    simp only [rowSum, List.map_cons, List.sum_cons] at ih ⊢
    rw [ih]
    ring

theorem entrySum_zipIdx (m : Matrix F) (left right : Nat → F) : ∀ k,
    (((m.zipIdx k).flatMap fun (row, row_index) => row.map fun entry => (entry, row_index)).map
      fun e => e.1.1 * left e.2 * right e.1.2).sum =
        ∑ i ∈ Finset.range m.length, left (k + i) * rowSum (m.getD i []) right := by
  induction m with
  | nil => exact fun k => rfl
  | cons row m ih =>
    intro k
    have hshift : ∀ i, k + 1 + i = k + (i + 1) := fun i => by omega
    rw [List.zipIdx_cons, List.flatMap_cons, List.map_append, List.sum_append, ih (k + 1),
      sum_row_entries, List.length_cons, Finset.sum_range_succ', add_comm]
    simp only [hshift]
    rfl

theorem entrySum_eq_rows (m : Matrix F) (left right : Nat → F) {n : Nat} (hn : m.length ≤ n) :
    entrySum m left right = ∑ i ∈ Finset.range n, left i * rowSum (m.getD i []) right := by
  have hsum := entrySum_zipIdx m left right 0
  simp only [Nat.zero_add] at hsum
  rw [entrySum, matrixEntries, hsum]
  apply Finset.sum_subset (Finset.range_subset_range.mpr hn)
  intro i _ hout
  have hlen : m.length ≤ i := Nat.le_of_not_lt fun hlt => hout (Finset.mem_range.mpr hlt)
  rw [List.getD_eq_default _ _ hlen]
  exact mul_zero _

/-! ### Weighted sums of a vector -/

def weightedSum (w : Nat → F) (xs : List F) : F := ∑ i ∈ Finset.range xs.length, xs.getD i 0 * w i

theorem weightedSum_set (w : Nat → F) {xs : List F} {i : Nat} (hi : i < xs.length) (v : F) :
    weightedSum w (xs.set i (xs[i] + v)) = weightedSum w xs + v * w i := by
  have hmem : i ∈ Finset.range xs.length := Finset.mem_range.mpr hi
  have hget : (xs.set i (xs[i] + v)).getD i 0 = xs.getD i 0 + v := by
    rw [List.getD_eq_getElem _ _ (by rw [List.length_set]; exact hi), List.getElem_set_self,
      List.getD_eq_getElem _ _ hi]
  have hrest : ∑ k ∈ (Finset.range xs.length).erase i, (xs.set i (xs[i] + v)).getD k 0 * w k =
      ∑ k ∈ (Finset.range xs.length).erase i, xs.getD k 0 * w k := by
    apply Finset.sum_congr rfl
    intro k hk
    rw [List.getD_eq_getElem?_getD, List.getElem?_set_ne (Finset.ne_of_mem_erase hk).symm,
      ← List.getD_eq_getElem?_getD]
  rw [weightedSum, weightedSum, List.length_set, ← Finset.add_sum_erase _ _ hmem, hget, hrest,
    ← Finset.add_sum_erase _ (fun k => xs.getD k 0 * w k) hmem]
  ring

theorem weightedSum_replicate (w : Nat → F) (n : Nat) : weightedSum w (List.replicate n 0) = 0 := by
  apply Finset.sum_eq_zero
  intro i _
  rw [List.getD_eq_getElem?_getD, List.getElem?_replicate]
  split
  · exact zero_mul _
  · exact zero_mul _

/-! ### The polynomial `t` -/

section CalculateT

variable {r_alpha_x_on_h t_evals_on_h : List F} {eta : F}

theorem addToT_eq_ok {e : (F × Nat) × Nat} {t' : List F}
    (h : addToT r_alpha_x_on_h eta t_evals_on_h e = .ok t') :
    t'.length = t_evals_on_h.length ∧ ∀ w, weightedSum w t' = weightedSum w t_evals_on_h +
      eta * (e.1.1 * r_alpha_x_on_h.getD e.2 0 * w e.1.2) := by
  obtain ⟨r_alpha, hr, h⟩ := bind_eq_ok_iff.mp h
  obtain ⟨t_eval, ht, h⟩ := bind_eq_ok_iff.mp h
  cases h
  rw [need_eq_ok_iff] at hr ht
  obtain ⟨hlt, rfl⟩ := List.getElem?_eq_some_iff.mp ht
  refine ⟨List.length_set, fun w => ?_⟩
  rw [weightedSum_set w hlt, List.getD_eq_getElem?_getD, hr, Option.getD_some]
  ring

theorem exists_addToT {e : (F × Nat) × Nat} (hrow : e.2 < r_alpha_x_on_h.length)
    (hcol : e.1.2 < t_evals_on_h.length) :
    ∃ t', addToT r_alpha_x_on_h eta t_evals_on_h e = .ok t' ∧ t'.length = t_evals_on_h.length := by
  refine ⟨t_evals_on_h.set e.1.2 (t_evals_on_h[e.1.2] + eta * e.1.1 * r_alpha_x_on_h[e.2]), ?_,
    List.length_set⟩
  refine bind_eq_of_ok (need_eq_ok_iff.mpr (List.getElem?_eq_getElem hrow)) ?_
  refine bind_eq_of_ok (need_eq_ok_iff.mpr (List.getElem?_eq_getElem hcol)) ?_
  rfl

theorem addMatrix_eq_ok {m : Matrix F} {t' : List F}
    (h : (matrixEntries m).foldlM (addToT r_alpha_x_on_h eta) t_evals_on_h = .ok t') :
    t'.length = t_evals_on_h.length ∧ ∀ w, weightedSum w t' = weightedSum w t_evals_on_h +
      eta * entrySum m (r_alpha_x_on_h.getD · 0) w := by
  have hloop := fun w => foldlM_eq_ok_add (P := fun t => t.length = t_evals_on_h.length)
    (m := weightedSum w) (g := fun e => eta * (e.1.1 * r_alpha_x_on_h.getD e.2 0 * w e.1.2))
    (fun e _ s s' hs hstep => ⟨(addToT_eq_ok hstep).1.trans hs, (addToT_eq_ok hstep).2 w⟩) rfl h
  refine ⟨(hloop fun _ => 0).1, fun w => ?_⟩
  rw [(hloop w).2, entrySum, List.sum_map_mul_left]

variable [DecidableEq F] {matrices : List (Matrix F)} {etas : List F} {domain_h : EvaluationDomain F}

theorem calculateT_eq_ok {t : DensePolynomial F}
    (h : calculateT matrices etas domain_h r_alpha_x_on_h = .ok t) (w : Nat → F) :
    ∑ i ∈ Finset.range domain_h.size, t.evaluate (domain_h.element i) * w i =
      ((matrices.zip etas).map fun p => p.2 * entrySum p.1 (r_alpha_x_on_h.getD · 0) w).sum := by
  obtain ⟨t_evals_on_h, hloop, h⟩ := bind_eq_ok_iff.mp h
  cases h
  have hmatrix : ∀ p ∈ matrices.zip etas, ∀ s s' : List F, s.length = domain_h.size →
      (matrixEntries p.1).foldlM (addToT r_alpha_x_on_h p.2) s = .ok s' →
      s'.length = domain_h.size ∧ weightedSum w s' =
        weightedSum w s + p.2 * entrySum p.1 (r_alpha_x_on_h.getD · 0) w := by
    intro p _ s s' hs hstep
    obtain ⟨hlength, hsum⟩ := addMatrix_eq_ok hstep
    exact ⟨hlength.trans hs, hsum w⟩
  obtain ⟨hlength, hsum⟩ := foldlM_eq_ok_add hmatrix (List.length_replicate (a := 0)) hloop
  rw [weightedSum_replicate, zero_add] at hsum
  rw [← hsum, weightedSum, hlength]
  apply Finset.sum_congr rfl
  intro i hi
  rw [Finset.mem_range] at hi
  rw [domain_h.evaluate_interpolate _ hi, EvaluationDomain.resize_getD_of_lt hi]

theorem exists_calculateT (hrange : ∀ m ∈ matrices, InRange domain_h m)
    (hlength : r_alpha_x_on_h.length = domain_h.size) :
    ∃ t, calculateT matrices etas domain_h r_alpha_x_on_h = .ok t := by
  have hmatrix : ∀ p ∈ matrices.zip etas, ∀ t : List F, t.length = domain_h.size →
      ∃ t', (matrixEntries p.1).foldlM (addToT r_alpha_x_on_h p.2) t = .ok t' ∧
        t'.length = domain_h.size := by
    intro p hp t ht
    refine exists_foldlM_eq_ok (P := fun t : List F => t.length = domain_h.size) ?_ ht
    intro e he s hs
    obtain ⟨hrow, hcol⟩ := hrange p.1 (List.of_mem_zip hp).1 e he
    obtain ⟨s', hs', hlen⟩ := exists_addToT (hlength ▸ hrow) (hs ▸ hcol)
    exact ⟨s', hs', hlen.trans hs⟩
  obtain ⟨t_evals_on_h, hloop, _⟩ := exists_foldlM_eq_ok hmatrix (List.length_replicate (a := 0))
  exact ⟨_, bind_eq_of_ok hloop rfl⟩

end CalculateT

end Lootbox.IndexPrivateMarlin

import Mathlib

/-!
# Sequences laid end to end

Each sequence has a label and a length, and starts where the one before it ends. A function that
takes the first value of every sequence, and steps on everywhere but at the ends, takes every value.
-/

namespace Lootbox.Stitching

universe u v
variable {α : Type u} {β : Type v}

/-- Start, label and length of each sequence, the first one starting at `start`. -/
def spans (start : Nat) (labels : List α) (lengths : List Nat) : List (Nat × α × Nat) :=
  (lengths.scanl (· + ·) start).zip (labels.zip lengths)

variable {start : Nat} {labels : List α} {lengths : List Nat}

theorem spans_nil (start : Nat) (labels : List α) : spans start labels [] = [] := by
  rw [spans, List.zip_nil_right, List.zip_nil_right]

theorem spans_cons (start : Nat) (a : α) (labels : List α) (c : Nat) (lengths : List Nat) :
    spans start (a :: labels) (c :: lengths) =
      (start, a, c) :: spans (start + c) labels lengths := by
  rw [spans, List.scanl_cons, List.zip_cons_cons, List.zip_cons_cons]
  rfl

theorem zip_eq_map_spans (h : labels.length = lengths.length) :
    (lengths.scanl (· + ·) start).zip lengths =
      (spans start labels lengths).map fun e => (e.1, e.2.2) := by
  have hsnd : (labels.zip lengths).map Prod.snd = lengths := List.map_snd_zip (Nat.le_of_eq h.symm)
  obtain ⟨starts, hstarts⟩ : ∃ starts, starts = lengths.scanl (· + ·) start := ⟨_, rfl⟩
  rw [spans, ← hstarts, ← hsnd, List.zip_map_right, hsnd]
  rfl

theorem zip_labels_eq_map_spans (h : labels.length = lengths.length) :
    (lengths.scanl (· + ·) start).zip labels =
      (spans start labels lengths).map fun e => (e.1, e.2.1) := by
  have hfst : (labels.zip lengths).map Prod.fst = labels := List.map_fst_zip (Nat.le_of_eq h)
  obtain ⟨starts, hstarts⟩ : ∃ starts, starts = lengths.scanl (· + ·) start := ⟨_, rfl⟩
  rw [spans, ← hstarts, ← hfst, List.zip_map_right, hfst]
  rfl

theorem scanl_eq_spans (h : labels.length = lengths.length) :
    lengths.scanl (· + ·) start =
      (spans start labels lengths).map Prod.fst ++ [start + lengths.sum] := by
  induction lengths generalizing start labels with
  | nil =>
    rw [spans_nil]
    rfl
  | cons c lengths ih =>
    cases labels with
    | nil => cases h
    | cons a labels =>
      rw [List.scanl_cons, spans_cons, List.map_cons, List.cons_append, List.sum_cons,
        ih (Nat.succ_injective h), Nat.add_assoc]

theorem map_fst_spans (h : labels.length = lengths.length) :
    (spans start labels lengths).map Prod.fst =
      (List.range labels.length).map fun j => start + (lengths.take j).sum := by
  induction lengths generalizing start labels with
  | nil =>
    obtain rfl : labels = [] := List.length_eq_zero_iff.mp h
    rw [spans_nil]
    rfl
  | cons c lengths ih =>
    cases labels with
    | nil => cases h
    | cons a labels =>
      rw [spans_cons, List.map_cons, ih (Nat.succ_injective h), List.length_cons,
        List.range_succ_eq_map, List.map_cons, List.map_map, List.take_zero, List.sum_nil]
      congr 1
      apply List.map_congr_left
      intro j _
      rw [Function.comp_apply, List.take_succ_cons, List.sum_cons, Nat.add_assoc]

theorem forall_starts_iff (h : labels.length = lengths.length) {P : Nat → α → Prop} :
    (∀ e ∈ spans start labels lengths, P e.1 e.2.1) ↔
      ∀ j a, labels[j]? = some a → P (start + (lengths.take j).sum) a := by
  induction lengths generalizing start labels with
  | nil =>
    obtain rfl : labels = [] := List.length_eq_zero_iff.mp h
    rw [spans_nil]
    constructor
    · intro _ j a hj
      cases hj
    · intro _ e he
      cases he
  | cons c lengths ih =>
    cases labels with
    | nil => cases h
    | cons a labels =>
      rw [spans_cons, List.forall_mem_cons, ih (Nat.succ_injective h)]
      constructor
      · rintro ⟨hfirst, hrest⟩ j a' hj
        cases j with
        | zero =>
          obtain rfl : a = a' := Option.some.inj hj
          exact hfirst
        | succ j =>
          rw [List.take_succ_cons, List.sum_cons, ← Nat.add_assoc]
          exact hrest j a' hj
      · intro hall
        constructor
        · exact hall 0 a rfl
        · intro j a' hj
          have hnext := hall (j + 1) a' hj
          rw [List.take_succ_cons, List.sum_cons, ← Nat.add_assoc] at hnext
          exact hnext

theorem length_pos_of_mem (hpos : ∀ c ∈ lengths, 0 < c) {e : Nat × α × Nat}
    (he : e ∈ spans start labels lengths) : 0 < e.2.2 := by
  have hmem : (e.2.1, e.2.2) ∈ labels.zip lengths := (List.of_mem_zip (show (e.1, e.2) ∈ _ from he)).2
  exact hpos e.2.2 (List.of_mem_zip hmem).2

theorem bounds_of_mem {e : Nat × α × Nat} (he : e ∈ spans start labels lengths) :
    start ≤ e.1 ∧ e.1 + e.2.2 ≤ start + lengths.sum := by
  induction lengths generalizing start labels with
  | nil =>
    rw [spans_nil] at he
    cases he
  | cons c lengths ih =>
    cases labels with
    | nil =>
      rw [spans, List.zip_nil_left, List.zip_nil_right] at he
      cases he
    | cons a labels =>
      rw [spans_cons, List.mem_cons] at he
      rw [List.sum_cons]
      rcases he with rfl | he
      · dsimp only
        omega
      · obtain ⟨hlower, hupper⟩ := ih he
        omega

theorem exists_mem_spans (h : labels.length = lengths.length) {j : Nat} (hj : start ≤ j)
    (hlt : j < start + lengths.sum) :
    ∃ e ∈ spans start labels lengths, ∃ t < e.2.2, j = e.1 + t := by
  induction lengths generalizing start labels with
  | nil =>
    rw [List.sum_nil] at hlt
    omega
  | cons c lengths ih =>
    cases labels with
    | nil => cases h
    | cons a labels =>
      rw [List.sum_cons] at hlt
      rw [spans_cons]
      rcases Nat.lt_or_ge j (start + c) with hin | hout
      · refine ⟨_, List.mem_cons_self, j - start, ?_, ?_⟩
        · dsimp only
          omega
        · dsimp only
          omega
      · obtain ⟨e, he, ht⟩ := ih (Nat.succ_injective h) hout (by omega)
        exact ⟨e, List.mem_cons_of_mem _ he, ht⟩

/-- No sequence ends inside another one. -/
theorem not_end_inside {e e' : Nat × α × Nat} (he : e ∈ spans start labels lengths)
    (he' : e' ∈ spans start labels lengths) {t : Nat} (ht : 0 < t) (hlt : t < e.2.2) :
    e.1 + t ≠ e'.1 + e'.2.2 := by
  induction lengths generalizing start labels with
  | nil =>
    rw [spans_nil] at he
    cases he
  | cons c lengths ih =>
    cases labels with
    | nil =>
      rw [spans, List.zip_nil_left, List.zip_nil_right] at he
      cases he
    | cons a labels =>
      rw [spans_cons, List.mem_cons] at he he'
      rcases he with rfl | he
      · dsimp only at hlt ⊢
        rcases he' with rfl | he'
        · dsimp only
          omega
        · have hbounds := bounds_of_mem he'
          omega
      · rcases he' with rfl | he'
        · have hbounds := bounds_of_mem he
          dsimp only
          omega
        · exact ih he he'

theorem spans_pairwise (hpos : ∀ c ∈ lengths, 0 < c) :
    (spans start labels lengths).Pairwise fun e e' => e.1 < e'.1 := by
  induction lengths generalizing start labels with
  | nil =>
    rw [spans_nil]
    exact .nil
  | cons c lengths ih =>
    cases labels with
    | nil =>
      rw [spans, List.zip_nil_left, List.zip_nil_right]
      exact .nil
    | cons a labels =>
      rw [List.forall_mem_cons] at hpos
      rw [spans_cons]
      refine .cons ?_ (ih hpos.2)
      intro e he
      have hbounds := bounds_of_mem he
      dsimp only
      omega

theorem map_range_eq_flatMap_iff (h : labels.length = lengths.length) (g : Nat → β)
    (value : α → Nat → β) :
    (List.range lengths.sum).map (fun j => g (start + j)) =
        (labels.zip lengths).flatMap (fun e => (List.range e.2).map (value e.1)) ↔
      ∀ e ∈ spans start labels lengths, ∀ t < e.2.2, g (e.1 + t) = value e.2.1 t := by
  induction lengths generalizing start labels with
  | nil =>
    rw [spans_nil, List.zip_nil_right]
    simp
  | cons c lengths ih =>
    cases labels with
    | nil => cases h
    | cons a labels =>
      have htail : _ ↔ ∀ e ∈ spans (start + c) labels lengths, _ := ih (Nat.succ_injective h)
      have hshift : ((List.range lengths.sum).map (c + ·)).map (fun j => g (start + j)) =
          (List.range lengths.sum).map fun j => g (start + c + j) := by
        rw [List.map_map]
        apply List.map_congr_left
        intro j _
        rw [Function.comp_apply, Nat.add_assoc]
      rw [spans_cons, List.forall_mem_cons, List.sum_cons, List.range_add, List.map_append,
        hshift, List.zip_cons_cons, List.flatMap_cons, ← htail]
      have hlen : ((List.range c).map fun j => g (start + j)).length =
          ((List.range c).map (value a)).length := by
        rw [List.length_map, List.length_map]
      rw [List.append_eq_append_iff_of_size_eq_left hlen, List.map_inj_left]
      simp only [List.mem_range]

theorem forall_step_iff (h : labels.length = lengths.length) (hpos : ∀ c ∈ lengths, 0 < c)
    (g : Nat → β) {value : α → Nat → β} {next : β → β}
    (hnext : ∀ a t, value a (t + 1) = next (value a t)) :
    ((∀ j, start ≤ j → j < start + lengths.sum →
        g (j + 1) = next (g j) ∨ ∃ e ∈ spans start labels lengths, j + 1 = e.1 + e.2.2) ∧
      ∀ e ∈ spans start labels lengths, g e.1 = value e.2.1 0) ↔
    ∀ e ∈ spans start labels lengths, ∀ t < e.2.2, g (e.1 + t) = value e.2.1 t := by
  constructor
  · rintro ⟨hstep, hfirst⟩ e he t ht
    induction t with
    | zero => exact hfirst e he
    | succ t ih =>
      obtain ⟨hlower, hupper⟩ := bounds_of_mem he
      rcases hstep (e.1 + t) (by omega) (by omega) with hg | ⟨e', he', hend⟩
      · rw [← Nat.add_assoc, hg, ih (by omega), hnext]
      · exact absurd hend (not_end_inside he he' (Nat.succ_pos t) ht)
  · intro hall
    constructor
    · intro j hj hlt
      obtain ⟨e, he, t, ht, rfl⟩ := exists_mem_spans h hj hlt
      rcases Nat.lt_or_eq_of_le (Nat.succ_le_of_lt ht) with hin | hend
      · left
        rw [hall e he t ht, ← hnext]
        exact hall e he (t + 1) hin
      · right
        exact ⟨e, he, by omega⟩
    · intro e he
      exact hall e he 0 (length_pos_of_mem hpos he)

end Lootbox.Stitching

import Mathlib
import Lootbox.Base.FallibleCalls

/-!
# Accumulators in the exponent

`pow g x` raises the group element that `g` stands for to the exponent of `x`, and answers one
chosen representative. Accumulating a list, dividing it in two for the witnesses of all its
members, and checking a witness depend on nothing else.
-/

namespace Lootbox.PowerAccumulator

variable {ε G X M : Type} [CommMonoid M]

/-- `pow` computes powers of what its argument stands for, for the members of `xs`. -/
structure Computes (pow : G → X → Except ε G) (Rep : G → M → Prop) (canon : M → G)
    (exponent : X → Nat) (xs : List X) : Prop where
  rep : ∀ m, Rep (canon m) m
  pow : ∀ x ∈ xs, ∀ g m, Rep g m → pow g x = .ok (canon (m ^ exponent x))

section RootFactor

variable (pow : G → X → Except ε G) (empty : ε)

/-- For each member the power of `g` to the exponents of all others; `empty` for an empty list. -/
def rootFactor (g : G) (xs : List X) : Except ε (List G) :=
  if _h : xs.length = 1 then .ok [g]
  else if _h' : xs.length = 0 then .error empty
  else do
    let h := xs.length / 2
    let gl ← (xs.take h).foldlM pow g
    let gr ← (xs.drop h).foldlM pow g
    let L ← rootFactor gr (xs.take h)
    let R ← rootFactor gl (xs.drop h)
    return L ++ R
termination_by xs.length
decreasing_by
  · rw [List.length_take]
    omega
  · rw [List.length_drop]
    omega

end RootFactor

variable {pow : G → X → Except ε G} {Rep : G → M → Prop} {canon : M → G} {exponent : X → Nat}
  {xs ys : List X} {g : G} {m : M}

theorem Computes.subset (h : Computes pow Rep canon exponent xs) (hsub : ys ⊆ xs) :
    Computes pow Rep canon exponent ys :=
  ⟨h.rep, fun x hx => h.pow x (hsub hx)⟩

def total (exponent : X → Nat) (xs : List X) : Nat := (xs.map exponent).prod

theorem total_nil : total exponent [] = 1 := rfl

theorem total_append (xs ys : List X) :
    total exponent (xs ++ ys) = total exponent xs * total exponent ys := by
  rw [total, List.map_append, List.prod_append]
  rfl

theorem total_cons (x : X) (xs : List X) :
    total exponent (x :: xs) = exponent x * total exponent xs := by
  rw [total, List.map_cons, List.prod_cons]
  rfl

theorem total_eraseIdx {i : Nat} {x : X} (hx : xs[i]? = some x) :
    total exponent (xs.eraseIdx i) * exponent x = total exponent xs := by
  induction xs generalizing i with
  | nil => cases hx
  | cons y xs ih =>
    cases i with
    | zero =>
      cases hx
      rw [List.eraseIdx_cons_zero, total_cons, mul_comm]
    | succ i =>
      rw [List.eraseIdx_cons_succ, total_cons, total_cons, mul_assoc, ih hx]

theorem Computes.exists_foldlM (h : Computes pow Rep canon exponent xs) (hg : Rep g m) :
    ∃ g', xs.foldlM pow g = .ok g' ∧ Rep g' (m ^ total exponent xs) := by
  induction xs generalizing g m with
  | nil =>
    refine ⟨g, rfl, ?_⟩
    rw [total_nil, pow_one]
    exact hg
  | cons x xs ih =>
    obtain ⟨g', hfold, hrep⟩ := ih (h.subset (List.subset_cons_self x xs)) (h.rep (m ^ exponent x))
    refine ⟨g', ?_, ?_⟩
    · rw [List.foldlM_cons, h.pow x List.mem_cons_self g m hg, ok_bind, hfold]
    · rwa [total_cons, pow_mul]

theorem Computes.foldlM_eq (h : Computes pow Rep canon exponent xs) (hne : xs ≠ [])
    (hg : Rep g m) : xs.foldlM pow g = .ok (canon (m ^ total exponent xs)) := by
  obtain ⟨init, last, rfl⟩ := List.eq_nil_or_concat xs |>.resolve_left hne
  rw [List.concat_eq_append] at h hne ⊢
  obtain ⟨g', hfold, hrep⟩ := (h.subset (List.subset_append_left init [last])).exists_foldlM hg
  rw [List.foldlM_append, hfold, ok_bind, List.foldlM_cons,
    h.pow last (List.mem_append_right init List.mem_cons_self) g' _ hrep, ok_bind, total_append,
    pow_mul, total_cons, total_nil, mul_one]
  rfl

theorem halves_induction {motive : ∀ xs : List X, xs ≠ [] → Prop}
    (single : ∀ x, motive [x] (List.cons_ne_nil x []))
    (halves : ∀ xs (hne : xs ≠ []), xs.length ≠ 1 → ∀ (hleft : xs.take (xs.length / 2) ≠ [])
      (hright : xs.drop (xs.length / 2) ≠ []), motive (xs.take (xs.length / 2)) hleft →
        motive (xs.drop (xs.length / 2)) hright → motive xs hne) (xs : List X) (hne : xs ≠ []) :
    motive xs hne := by
  induction hn : xs.length using Nat.strong_induction_on generalizing xs with
  | _ n ih =>
    have hpos := List.length_pos_of_ne_nil hne
    by_cases hone : xs.length = 1
    · obtain ⟨x, rfl⟩ := List.length_eq_one_iff.mp hone
      exact single x
    · have htake : (xs.take (xs.length / 2)).length = xs.length / 2 := by
        rw [List.length_take]
        omega
      have hdrop : (xs.drop (xs.length / 2)).length = xs.length - xs.length / 2 := List.length_drop
      have hleft : xs.take (xs.length / 2) ≠ [] := by
        rw [← List.length_pos_iff_ne_nil]
        omega
      have hright : xs.drop (xs.length / 2) ≠ [] := by
        rw [← List.length_pos_iff_ne_nil]
        omega
      exact halves xs hne hone hleft hright (ih _ (by omega) _ hleft rfl) (ih _ (by omega) _ hright rfl)

theorem witnesses_append {W : Type} {P : Nat → W → Prop} {left right : List X} {L R : List W}
    (hlen : L.length = left.length)
    (hL : ∀ i w, L[i]? = some w → P (total exponent right * total exponent (left.eraseIdx i)) w)
    (hR : ∀ i w, R[i]? = some w → P (total exponent left * total exponent (right.eraseIdx i)) w) :
    ∀ i w, (L ++ R)[i]? = some w → P (total exponent ((left ++ right).eraseIdx i)) w := by
  intro i w hw
  rcases Nat.lt_or_ge i L.length with hlt | hge
  · rw [List.getElem?_append_left hlt] at hw
    rw [List.eraseIdx_append_of_lt_length (by omega), total_append, mul_comm]
    exact hL i w hw
  · rw [List.getElem?_append_right hge] at hw
    rw [List.eraseIdx_append_of_length_le (by omega), total_append, ← hlen]
    exact hR (i - L.length) w hw

/-- The divide and conquer leaves each member its witness. -/
theorem Computes.rootFactor_eq (empty : ε) (h : Computes pow Rep canon exponent xs) (hne : xs ≠ [])
    (hg : Rep g m) : ∃ ws, rootFactor pow empty g xs = .ok ws ∧ ws.length = xs.length ∧
      ∀ i w, ws[i]? = some w → Rep w (m ^ total exponent (xs.eraseIdx i)) := by
  induction xs, hne using halves_induction generalizing g m with
  | single x =>
    refine ⟨[g], by rw [rootFactor, dif_pos List.length_singleton], rfl, ?_⟩
    intro i w hw
    match i with
    | 0 =>
      cases hw
      rw [List.eraseIdx_cons_zero, total_nil, pow_one]
      exact hg
  | halves xs hne hone hleft hright ihl ihr =>
    have hl := h.subset (List.take_subset (xs.length / 2) xs)
    have hr := h.subset (List.drop_subset (xs.length / 2) xs)
    obtain ⟨gl, hgl, hrep_l⟩ := hl.exists_foldlM hg
    obtain ⟨gr, hgr, hrep_r⟩ := hr.exists_foldlM hg
    obtain ⟨L, hL, hL_len, hL_rep⟩ := ihl hl hrep_r
    obtain ⟨R, hR, hR_len, hR_rep⟩ := ihr hr hrep_l
    refine ⟨L ++ R, ?_, ?_, ?_⟩
    · rw [rootFactor, dif_neg hone, dif_neg (List.length_pos_of_ne_nil hne).ne']
      simp only [hgl, hgr, hL, hR, ok_bind]
      rfl
    · rw [List.length_append, hL_len, hR_len, ← List.length_append, List.take_append_drop]
    · rw [← List.take_append_drop (xs.length / 2) xs]
      apply witnesses_append (P := fun n w => Rep w (m ^ n)) hL_len
      · intro i w hw
        rw [pow_mul]
        exact hL_rep i w hw
      · intro i w hw
        rw [pow_mul]
        exact hR_rep i w hw

theorem Computes.pow_witness (h : Computes pow Rep canon exponent xs) {i : Nat} {x : X} {w : G}
    (hx : xs[i]? = some x) (hw : Rep w (m ^ total exponent (xs.eraseIdx i))) :
    pow w x = .ok (canon (m ^ total exponent xs)) := by
  rw [h.pow x (List.mem_of_getElem? hx) w _ hw, ← pow_mul, total_eraseIdx hx]

theorem Computes.complete (empty : ε) (h : Computes pow Rep canon exponent xs) (hne : xs ≠ [])
    (hg : Rep g m) : ∃ acc ws, xs.foldlM pow g = .ok acc ∧ rootFactor pow empty g xs = .ok ws ∧
      ws.length = xs.length ∧ ∀ i x w, xs[i]? = some x → ws[i]? = some w →
        Rep w (m ^ total exponent (xs.eraseIdx i)) ∧ pow w x = .ok acc := by
  obtain ⟨ws, hws, hlen, hrep⟩ := h.rootFactor_eq empty hne hg
  refine ⟨_, ws, h.foldlM_eq hne hg, hws, hlen, ?_⟩
  intro i x w hx hw
  exact ⟨hrep i w hw, h.pow_witness hx (hrep i w hw)⟩

end Lootbox.PowerAccumulator

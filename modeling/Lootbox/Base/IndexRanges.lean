import Mathlib
import Lootbox.Base.FallibleCalls

/-!
# Index ranges of threads

Consecutive ranges between increasing bounds cover all indices once and in order, so a loop over
ranges of ranges is one loop.
-/

namespace Lootbox.IndexRanges

def block (bound : Nat → Nat) (t : Nat) : List Nat :=
  List.range' (bound t) (bound (t + 1) - bound t)

theorem flatMap_block {bound : Nat → Nat} (hzero : bound 0 = 0) (hmono : Monotone bound) (N : Nat) :
    (List.range N).flatMap (block bound) = List.range (bound N) := by
  induction N with
  | zero => rw [hzero]; rfl
  | succ N ih =>
    have hle : bound N ≤ bound (N + 1) := hmono (Nat.le_succ N)
    have hblock : block bound N = List.range' (0 + bound N) (bound (N + 1) - bound N) := by
      rw [Nat.zero_add]
      rfl
    rw [List.range_succ, List.flatMap_append, ih, List.flatMap_singleton, hblock,
      List.range_eq_range', List.range'_append_1, Nat.add_sub_cancel' hle, ← List.range_eq_range']

/-- The indices of thread `t`, as the threads are started: the last range ends at `n`. -/
def threadRange (n nthreads t : Nat) : List Nat :=
  let first := t * n / nthreads
  let last := if t + 1 = nthreads then n else (t + 1) * n / nthreads
  List.range' first (last - first)

theorem threadRange_eq_block {n nthreads t : Nat} (hpos : 0 < nthreads) :
    threadRange n nthreads t = block (fun t => t * n / nthreads) t := by
  have hlast : (if t + 1 = nthreads then n else (t + 1) * n / nthreads) = (t + 1) * n / nthreads := by
    split
    · rename_i heq
      rw [heq, Nat.mul_div_cancel_left n hpos]
    · rfl
  rw [threadRange]
  simp only [hlast]
  rfl

/-- Every index belongs to one thread, whatever the number of threads. -/
theorem flatMap_threadRange (n : Nat) {nthreads : Nat} (hpos : 0 < nthreads) :
    (List.range nthreads).flatMap (threadRange n nthreads) = List.range n := by
  have hmono : Monotone fun t => t * n / nthreads := by
    intro s t hst
    exact Nat.div_le_div_right (Nat.mul_le_mul_right n hst)
  have hblock : (List.range nthreads).flatMap (threadRange n nthreads) =
      (List.range nthreads).flatMap (block fun t => t * n / nthreads) := by
    rw [List.flatMap_def, List.flatMap_def]
    congr 1
    apply List.map_congr_left
    intro t _
    exact threadRange_eq_block hpos
  rw [hblock, flatMap_block (by rw [Nat.zero_mul, Nat.zero_div]) hmono,
    Nat.mul_div_cancel_left n hpos]

theorem foldlM_flatMap {ε α β σ : Type} (f : α → List β) (step : σ → β → Except ε σ) (xs : List α)
    (s : σ) : (xs.flatMap f).foldlM step s = xs.foldlM (fun s x => (f x).foldlM step s) s := by
  induction xs generalizing s with
  | nil => rfl
  | cons x xs ih =>
    rw [List.flatMap_cons, List.foldlM_append, List.foldlM_cons]
    exact congrArg _ (funext ih)

/-- Filling a vector index by index. -/
theorem foldlM_set {ε α : Type} (f : Nat → Except ε α) (d : α) (n : Nat) :
    (List.range n).foldlM (fun xs i => f i >>= fun x => .ok (xs.set i x)) (List.replicate n d) =
      (List.range n).mapM f := by
  have hwritten : ∀ k ≤ n, (List.range k).foldlM (fun xs i => f i >>= fun x => .ok (xs.set i x))
      (List.replicate n d) =
      (List.range k).mapM f >>= fun ys => .ok (ys ++ List.replicate (n - k) d) := by
    intro k hk
    induction k with
    | zero => rfl
    | succ k ih =>
      rw [List.range_succ, List.foldlM_append, ih (by omega), List.mapM_append]
      cases hys : (List.range k).mapM f with
      | error e => rfl
      | ok ys =>
        have hlen : ys.length = k := by
          rw [← (mapM_eq_ok_iff.mp hys).length_eq, List.length_range]
        have hreplicate : List.replicate (n - k) d = d :: List.replicate (n - (k + 1)) d := by
          rw [← List.replicate_succ]
          congr 1
          omega
        rw [ok_bind, ok_bind, List.foldlM_cons, List.mapM_cons]
        cases f k with
        | error e => rfl
        | ok x =>
          simp only [ok_bind, List.foldlM_nil, List.mapM_nil, pure, Except.pure, hreplicate]
          rw [List.set_append_right _ _ (by omega), hlen, Nat.sub_self, List.set_cons_zero,
            List.append_assoc]
          rfl
  rw [hwritten n le_rfl]
  cases (List.range n).mapM f with
  | error e => rfl
  | ok ys => rw [ok_bind, Nat.sub_self, List.replicate_zero, List.append_nil]

end Lootbox.IndexRanges

import Mathlib

/-!
# Indexing and slicing with signed positions

A negative position counts from the end of the sequence. Indexing outside the
sequence fails; the bounds of a slice are clamped to it instead.
-/

namespace Lootbox.PySeq

universe u
variable {α : Type u}

/-- The position a signed index denotes before any range check. -/
def resolve (length : Nat) (i : Int) : Int := if i < 0 then i + length else i

def get (xs : List α) (i : Int) : Option α :=
  let j := resolve xs.length i
  if j < 0 then none else xs[j.toNat]?

/-- `xs[i] = a` -/
def set (xs : List α) (i : Int) (a : α) : Option (List α) :=
  let j := resolve xs.length i
  if 0 ≤ j ∧ j < xs.length then some (xs.set j.toNat a) else none

/-- A slice bound, clamped into `[0, length]`. -/
def clamp (length : Nat) (i : Int) : Nat := min (resolve length i).toNat length

def slice (xs : List α) (start stop : Int) : List α :=
  (xs.take (clamp xs.length stop)).drop (clamp xs.length start)

/-- `xs[start:]` -/
def sliceFrom (xs : List α) (start : Int) : List α := xs.drop (clamp xs.length start)

/-- `xs.append(next(xs[-1]))`, `n` times, from `[a]`. -/
def appendIterates (next : α → α) (n : Nat) (a : α) : List α :=
  (List.range n).foldl (fun xs _ => xs ++ [next (xs.getLastD a)]) [a]

theorem get_of_nonneg (xs : List α) {i : Int} (h : 0 ≤ i) : get xs i = xs[i.toNat]? := by
  have hn : ¬ i < 0 := by omega
  simp [get, resolve, hn]

@[simp] theorem get_natCast (xs : List α) (i : Nat) : get xs (i : Int) = xs[i]? := by
  simpa using get_of_nonneg xs (Int.natCast_nonneg i)

theorem get_neg_one (xs : List α) : get xs (-1) = xs.getLast? := by
  rw [List.getLast?_eq_getElem?]
  cases xs with
  | nil => simp [get, resolve]
  | cons a as =>
    have hj : resolve (as.length + 1) (-1) = (as.length : Int) := by simp [resolve]
    have hn : ¬ ((as.length : Int) < 0) := by omega
    simp [get, hj, hn]

theorem set_natCast (xs : List α) {i : Nat} (hi : i < xs.length) (a : α) :
    set xs (i : Int) a = some (xs.set i a) := by
  have hj : resolve xs.length (i : Int) = i := by
    rw [resolve, if_neg (by omega)]
  rw [set, hj, if_pos ⟨by omega, by omega⟩, Int.toNat_natCast]

theorem clamp_natCast (length i : Nat) : clamp length (i : Int) = min i length := by
  have hn : ¬ ((i : Int) < 0) := by omega
  simp [clamp, resolve, hn]

theorem clamp_neg (length k : Nat) (hk : 0 < k) : clamp length (-(k : Int)) = length - k := by
  have hn : -(k : Int) < 0 := by omega
  simp only [clamp, resolve, if_pos hn]
  omega

theorem slice_natCast (xs : List α) (i j : Nat) : slice xs (i : Int) (j : Int) = (xs.take j).drop i := by
  simp only [slice, clamp_natCast]
  rw [List.take_eq_take_min (i := j), List.drop_eq_drop_iff]
  simp only [List.length_take]
  omega

theorem getElem?_slice (xs : List α) (i j n : Nat) (hn : i + n < j) :
    (slice xs (i : Int) (j : Int))[n]? = xs[i + n]? := by
  rw [slice_natCast, List.getElem?_drop, List.getElem?_take_of_lt hn]

theorem sliceFrom_neg (xs : List α) {k : Nat} (hk : 0 < k) :
    sliceFrom xs (-(k : Int)) = xs.drop (xs.length - k) := by
  rw [sliceFrom, clamp_neg _ _ hk]

theorem appendIterates_eq (next : α → α) (n : Nat) (a : α) :
    appendIterates next n a = (List.range (n + 1)).map fun i => next^[i] a := by
  induction n with
  | zero => rfl
  | succ n ih =>
    have hsucc : appendIterates next (n + 1) a =
        appendIterates next n a ++ [next ((appendIterates next n a).getLastD a)] := by
      rw [appendIterates, List.range_succ, List.foldl_append, List.foldl_cons, List.foldl_nil]
      rfl
    have hlast : ((List.range (n + 1)).map fun i => next^[i] a).getLastD a = next^[n] a := by
      rw [List.getLastD_eq_getLast?, List.range_succ, List.map_append, List.map_singleton,
        List.getLast?_concat, Option.getD_some]
    rw [hsucc, ih, hlast, List.range_succ (n := n + 1), List.map_append, List.map_singleton,
      Function.iterate_succ_apply']

end Lootbox.PySeq

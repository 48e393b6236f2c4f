import Mathlib

/-!
# The order of the labels

The labels of one family are compared by their decimal digits, so label 10 comes before
label 2. Up to ten labels this is the order of the numbers.
-/

namespace Lootbox.ZeroOverK

abbrev PolynomialLabel := String

/-- `format!("{family}{i}")` -/
def familyLabel (family : String) (i : Nat) : PolynomialLabel := family ++ toString i

def rLabel (i : Nat) : PolynomialLabel := familyLabel "r_" i

def mLabel (i : Nat) : PolynomialLabel := familyLabel "m_" i

def hPrimeLabel (i : Nat) : PolynomialLabel := familyLabel "h_prime_" i

theorem toList_familyLabel (family : String) (i : Nat) :
    (familyLabel family i).toList = family.toList ++ Nat.toDigits 10 i := by
  rw [familyLabel, String.toList_append, Nat.toString_eq_repr, Nat.toList_repr]

theorem familyLabel_injective (family : String) {i j : Nat}
    (h : familyLabel family i = familyLabel family j) : i = j := by
  have hlist := congrArg String.toList h
  rw [toList_familyLabel, toList_familyLabel, List.append_right_inj] at hlist
  rw [← Nat.ofDigitChars_ten_toDigits (n := i), hlist, Nat.ofDigitChars_ten_toDigits]

def digitsLe (i j : Nat) : Prop := Nat.toDigits 10 i ≤ Nat.toDigits 10 j

instance : DecidableRel digitsLe := fun i j =>
  inferInstanceAs (Decidable (Nat.toDigits 10 i ≤ Nat.toDigits 10 j))

theorem append_le_append_iff (xs : List Char) {as bs : List Char} :
    xs ++ as ≤ xs ++ bs ↔ as ≤ bs := by
  induction xs with
  | nil => rfl
  | cons x xs ih =>
    rw [List.cons_append, List.cons_append, ← ih, ← not_lt, ← not_lt, List.cons_lt_cons_iff]
    simp

theorem familyLabel_le_iff (family : String) {i j : Nat} :
    familyLabel family i ≤ familyLabel family j ↔ digitsLe i j := by
  rw [String.le_iff_toList_le, toList_familyLabel, toList_familyLabel, append_le_append_iff]
  rfl

/-- The indices below `n` in the order of their labels. -/
def labelOrder (n : Nat) : List Nat := (List.range n).insertionSort digitsLe

theorem labelOrder_perm (n : Nat) : (labelOrder n).Perm (List.range n) :=
  List.perm_insertionSort _ _

theorem length_labelOrder (n : Nat) : (labelOrder n).length = n := by
  rw [(labelOrder_perm n).length_eq, List.length_range]

theorem labelOrder_nodup (n : Nat) : (labelOrder n).Nodup :=
  (labelOrder_perm n).nodup_iff.mpr List.nodup_range

theorem lt_of_mem_labelOrder {n i : Nat} (h : i ∈ labelOrder n) : i < n :=
  List.mem_range.mp ((labelOrder_perm n).mem_iff.mp h)

theorem labelOrder_sorted (n : Nat) : (labelOrder n).Pairwise digitsLe := by
  have : Std.Total digitsLe := ⟨fun i j => le_total (Nat.toDigits 10 i) (Nat.toDigits 10 j)⟩
  have : IsTrans Nat digitsLe := ⟨fun _ _ _ hij hjk => le_trans hij hjk⟩
  exact List.pairwise_insertionSort _ _

theorem digitsLe_of_lt_ten : ∀ j < 10, ∀ i < j, digitsLe i j := by decide

theorem labelOrder_of_le_ten {n : Nat} (hn : n ≤ 10) : labelOrder n = List.range n := by
  apply List.Pairwise.insertionSort_eq
  apply List.pairwise_lt_range.imp_of_mem
  intro i j _ hj hij
  exact digitsLe_of_lt_ten j (by have := List.mem_range.mp hj; omega) i hij

theorem exists_labelOrder_ne {n : Nat} (hn : 10 < n) :
    ∃ p, ∃ hp : p < (labelOrder n).length, (labelOrder n)[p] ≠ p := by
  by_contra hall
  have hrange : labelOrder n = List.range n := by
    apply List.ext_getElem
    · rw [length_labelOrder, List.length_range]
    · intro p hp hp'
      rw [List.getElem_range]
      by_contra hne
      exact hall ⟨p, hp, hne⟩
  have hsorted := labelOrder_sorted n
  rw [hrange, List.pairwise_iff_getElem] at hsorted
  have hle := hsorted 2 10 (by rw [List.length_range]; omega) (by rw [List.length_range]; omega)
    (by omega)
  rw [List.getElem_range, List.getElem_range] at hle
  exact absurd hle (by decide)

end Lootbox.ZeroOverK

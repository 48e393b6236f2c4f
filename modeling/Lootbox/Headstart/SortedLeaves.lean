import Lootbox.Headstart.SortedMerkle

/-!
# `acc/merkle_tree.py`: the sorted leaves and where each element went
-/

namespace Lootbox.Headstart

/-! ### The order of byte strings -/

theorem bytesLe_cons {a b : UInt8} {x y : Bytes} :
    bytesLe (a :: x) (b :: y) = true ↔ a < b ∨ (a = b ∧ bytesLe x y = true) := by
  rw [bytesLe, Bool.or_eq_true, Bool.and_eq_true, decide_eq_true_iff, beq_iff_eq]

theorem bytesLe_refl (x : Bytes) : bytesLe x x = true := by
  induction x with
  | nil => rfl
  | cons a x ih => exact bytesLe_cons.mpr (Or.inr ⟨rfl, ih⟩)

theorem bytesLe_total (x y : Bytes) : bytesLe x y = true ∨ bytesLe y x = true := by
  induction x generalizing y with
  | nil => exact Or.inl rfl
  | cons a x ih =>
    cases y with
    | nil => exact Or.inr rfl
    | cons b y =>
      rw [bytesLe_cons, bytesLe_cons]
      by_cases hab : a = b
      · subst hab
        rcases ih y with hxy | hyx
        · exact Or.inl (Or.inr ⟨rfl, hxy⟩)
        · exact Or.inr (Or.inr ⟨rfl, hyx⟩)
      · rcases UInt8.lt_or_lt_of_ne hab with hlt | hgt
        · exact Or.inl (Or.inl hlt)
        · exact Or.inr (Or.inl hgt)

theorem bytesLe_trans {x y z : Bytes} (hxy : bytesLe x y = true) (hyz : bytesLe y z = true) :
    bytesLe x z = true := by
  induction x generalizing y z with
  | nil => rfl
  | cons a x ih =>
    cases y with
    | nil => cases hxy
    | cons b y =>
      cases z with
      | nil => cases hyz
      | cons c z =>
        rw [bytesLe_cons] at hxy hyz ⊢
        rcases hxy with hab | ⟨rfl, hxy⟩
        · rcases hyz with hbc | ⟨rfl, _⟩
          · exact Or.inl (UInt8.lt_trans hab hbc)
          · exact Or.inl hab
        · rcases hyz with hbc | ⟨rfl, hyz⟩
          · exact Or.inl hbc
          · exact Or.inr ⟨rfl, ih hxy hyz⟩

theorem bytesLe_antisymm {x y : Bytes} (hxy : bytesLe x y = true) (hyx : bytesLe y x = true) :
    x = y := by
  induction x generalizing y with
  | nil =>
    cases y with
    | nil => rfl
    | cons b y => cases hyx
  | cons a x ih =>
    cases y with
    | nil => cases hxy
    | cons b y =>
      rw [bytesLe_cons] at hxy hyx
      rcases hxy with hab | ⟨rfl, hxy⟩
      · rcases hyx with hba | ⟨rfl, _⟩
        · exact absurd hba (UInt8.lt_asymm hab)
        · exact absurd hab (UInt8.lt_irrefl _)
      · rcases hyx with haa | ⟨_, hyx⟩
        · exact absurd haa (UInt8.lt_irrefl a)
        · rw [ih hxy hyx]

namespace SortedMerkleTreeAccumulator

/-! ### The sorted list -/

theorem sortIdx_pairwise (X : List Bytes) : (sortIdx X).Pairwise fun i j =>
    bytesLe (X[i]?.getD []) (X[j]?.getD []) = true := by
  have htotal : Std.Total fun i j : Nat => bytesLe (X[i]?.getD []) (X[j]?.getD []) = true :=
    ⟨fun _ _ => bytesLe_total _ _⟩
  have htrans : IsTrans Nat fun i j : Nat => bytesLe (X[i]?.getD []) (X[j]?.getD []) = true :=
    ⟨fun _ _ _ => bytesLe_trans⟩
  exact List.pairwise_insertionSort _ _

theorem sortedData_pairwise (X : List Bytes) :
    (sortedData X).Pairwise fun x y => bytesLe x y = true :=
  List.pairwise_map.mpr (sortIdx_pairwise X)

theorem length_sortedData (X : List Bytes) : (sortedData X).length = X.length :=
  (sortedData_perm X).length_eq

theorem length_sortIdx (X : List Bytes) : (sortIdx X).length = X.length := by
  rw [(sortIdx_perm X).length_eq, List.length_range]

/-! ### `index_map` -/

section Assign

variable {β : Type}

theorem foldl_set_getElem? {l : List (Nat × β)} (hnodup : (l.map Prod.fst).Nodup) (m : List β) :
    (l.foldl (fun m e => m.set e.1 e.2) m).length = m.length ∧
    (∀ i, i ∉ l.map Prod.fst → (l.foldl (fun m e => m.set e.1 e.2) m)[i]? = m[i]?) ∧
    ∀ e ∈ l, e.1 < m.length → (l.foldl (fun m e => m.set e.1 e.2) m)[e.1]? = some e.2 := by
  induction l generalizing m with
  | nil => exact ⟨rfl, fun _ _ => rfl, fun e he => absurd he List.not_mem_nil⟩
  | cons e l ih =>
    rw [List.map_cons, List.nodup_cons] at hnodup
    obtain ⟨hlen, hother, hown⟩ := ih hnodup.2 (m.set e.1 e.2)
    rw [List.length_set] at hlen hown
    refine ⟨hlen, ?_, ?_⟩
    · intro i hi
      rw [List.map_cons, List.mem_cons, not_or] at hi
      rw [List.foldl_cons, hother i hi.2, List.getElem?_set_ne (Ne.symm hi.1)]
    · intro e' he' hlt
      rcases List.mem_cons.mp he' with rfl | he'
      · rw [List.foldl_cons, hother _ hnodup.1, List.getElem?_set_self hlt]
      · exact hown e' he' hlt

end Assign

theorem zipIdx_keys (X : List Bytes) : ((sortIdx X).zipIdx.map Prod.fst).Nodup := by
  rw [List.zipIdx_map_fst, (sortIdx_perm X).nodup_iff]
  exact List.nodup_range

theorem length_indexMap (X : List Bytes) : (indexMap X).length = X.length := by
  obtain ⟨hlen, _⟩ := foldl_set_getElem? (zipIdx_keys X) (List.replicate X.length 0)
  rw [indexMap, hlen, List.length_replicate]

theorem indexMap_sortIdx {X : List Bytes} {i p : Nat} (h : (sortIdx X)[p]? = some i) :
    (indexMap X)[i]? = some p := by
  obtain ⟨_, _, hown⟩ := foldl_set_getElem? (zipIdx_keys X) (List.replicate X.length 0)
  have hmem : (i, p) ∈ (sortIdx X).zipIdx := List.mk_mem_zipIdx_iff_getElem?.mpr h
  have hi : i < X.length := by
    have hi := List.mem_of_getElem? h
    rwa [(sortIdx_perm X).mem_iff, List.mem_range] at hi
  exact hown (i, p) hmem (by rwa [List.length_replicate])

theorem exists_indexMap {X : List Bytes} {i : Nat} (hi : i < X.length) :
    ∃ p, (indexMap X)[i]? = some p ∧ (sortIdx X)[p]? = some i := by
  have hmem : i ∈ sortIdx X := (sortIdx_perm X).mem_iff.mpr (List.mem_range.mpr hi)
  obtain ⟨p, hp⟩ := List.mem_iff_getElem?.mp hmem
  exact ⟨p, indexMap_sortIdx hp, hp⟩

theorem sortedData_indexMap {X : List Bytes} {i : Nat} {x : Bytes} (hx : X[i]? = some x) :
    ∃ p, (indexMap X)[i]? = some p ∧ (sortedData X)[p]? = some x := by
  obtain ⟨p, hmap, hsort⟩ := exists_indexMap (List.getElem?_eq_some_iff.mp hx).1
  refine ⟨p, hmap, ?_⟩
  rw [sortedData, List.getElem?_map, hsort, Option.map_some, hx, Option.getD_some]

theorem indexMap_perm (X : List Bytes) : (indexMap X).Perm (List.range X.length) := by
  have hsub : List.range X.length ⊆ indexMap X := by
    intro p hp
    have hlt : p < (sortIdx X).length := by
      rw [length_sortIdx]
      exact List.mem_range.mp hp
    exact List.mem_of_getElem? (indexMap_sortIdx (List.getElem?_eq_getElem hlt))
  refine ((List.nodup_range.subperm hsub).perm_of_length_le ?_).symm
  rw [length_indexMap, List.length_range]

end SortedMerkleTreeAccumulator

end Lootbox.Headstart

import Lootbox.Headstart.SortedLeaves

/-!
# `acc/merkle_tree.py`: membership witnesses

Both accumulators accept the proofs of their own trees, and the sides of a proof spell the
position of its leaf.
-/

namespace Lootbox.Headstart

open HashTree MerkleTree

namespace MerkleTree

variable {H : MerkleHash}

/-- `check_present` walks as `get_proof` does, and hashes as `check_proof` does. -/
theorem presentFrom_eq (tree : List Bytes) (fuel cur : Nat) (x : Bytes) :
    presentFrom H tree fuel cur x = (do
      let proof ← proofFrom tree fuel cur
      proof.foldlM (checkStep H) x) := by
  induction fuel generalizing cur x with
  | zero => rfl
  | succ fuel ih =>
    rw [presentFrom, proofFrom, siblingStep]
    split
    · rfl
    · split
      · cases tree[cur + 1]? with
        | none => rfl
        | some h =>
          simp only [need, ok_bind, ih]
          cases proofFrom tree fuel ((cur - 1) / 2) <;> rfl
      · cases tree[cur - 1]? with
        | none => rfl
        | some h =>
          simp only [need, ok_bind, ih]
          cases proofFrom tree fuel ((cur - 1) / 2) <;> rfl

theorem checkPresent_eq {mkt : MerkleTree} {index : Int} {proof : MerkleProof} {root : Bytes}
    (hproof : mkt.getProof index = .ok proof) (hroot : mkt.root = .ok root) (x : Bytes) :
    mkt.checkPresent H index x = checkProof H root x index proof := by
  have hwalk : proofFrom mkt.tree (index + mkt.lendata - 1).toNat (index + mkt.lendata - 1).toNat =
      .ok proof := hproof
  simp only [checkPresent, presentFrom_eq, hwalk, hroot, ok_bind, checkProof]

theorem toProof_sides (label : Nat → Nat → Bytes) (k p : Nat) :
    (toProof (path label k p)).map Prod.fst =
      (List.range k).map fun i => if p.testBit i then "L" else "R" := by
  have hsides : (toProof (path label k p)).map Prod.fst =
      ((path label k p).map Prod.fst).map fun b => if b then "L" else "R" := by
    rw [toProof, List.map_map, List.map_map]
    rfl
  rw [hsides, path_sides, List.map_map]
  rfl

theorem getProof_sides {mkt : MerkleTree} {k j : Nat} (hlen : mkt.tree.length = 2 * 2 ^ k - 1)
    (hlendata : mkt.lendata = 2 ^ k) (hj : j < 2 ^ k) :
    ∃ proof, mkt.getProof (j : Int) = .ok proof ∧ proof.length = k ∧
      proof.map Prod.fst = (List.range k).map fun i => if j.testBit i then "L" else "R" := by
  have hcur : ((j : Int) + mkt.lendata - 1).toNat = heapIndex k j := by
    rw [heapIndex, hlendata]
    omega
  refine ⟨toProof (path (label mkt.tree) k j), ?_, ?_, toProof_sides _ k j⟩
  · simp only [getProof, hcur]
    exact proofFrom_heapIndex hlen k j _ le_rfl hj le_rfl
  · rw [toProof_length, path_length]

theorem exists_root {mkt : MerkleTree} {k : Nat} (hlen : mkt.tree.length = 2 * 2 ^ k - 1) :
    ∃ root, mkt.root = .ok root := by
  have hpos := Nat.two_pow_pos k
  refine ⟨mkt.tree.get ⟨0, by omega⟩, ?_⟩
  rw [MerkleTree.root, List.getElem?_eq_getElem (by omega)]
  rfl

end MerkleTree

namespace SortedMerkleTreeAccumulator

theorem exists_accumulate (self : SortedMerkleTreeAccumulator) {X : List Bytes} (hX : X ≠ []) :
    ∃ k tree, Computed self.H k tree (storedLeaves X) ∧
      self.accumulate X = .ok (⟨tree, 2 ^ k, some (storedLeaves X)⟩, indexMap X) := by
  obtain ⟨k, tree, hc, hfrom⟩ := fromData_eq (H := self.H) (sortedData_ne_nil hX)
  exact ⟨k, tree, hc, bind_eq_of_ok hfrom rfl⟩

theorem accumulate_complete (self : SortedMerkleTreeAccumulator) {X : List Bytes} (hX : X ≠ []) :
    ∃ acc root, self.accumulate X = .ok acc ∧ self.getAccval acc = .ok root ∧
      acc.1.data = some (storedLeaves X) ∧ acc.2 = indexMap X ∧ ∀ (i : Nat) (x : Bytes), X[i]? = some x →
        ∃ w, self.witgen acc X (i : Int) = .ok w ∧ self.verify root w x = .ok true := by
  obtain ⟨k, tree, hc, hacc⟩ := exists_accumulate self hX
  refine ⟨_, _, hacc, hc.root_eq _ _, rfl, rfl, ?_⟩
  intro i x hx
  obtain ⟨p, hmap, hdata⟩ := sortedData_indexMap hx
  have hleaf : (storedLeaves X)[p]? = some x := padData_getElem? hdata
  have hp : p < 2 ^ k := by
    rw [← hc.leaves_length]
    exact (List.getElem?_eq_some_iff.mp hleaf).1
  refine ⟨_, ?_, hc.checkProof_path hleaf 0⟩
  rw [witgen, PySeq.get_natCast, hmap]
  exact hc.getProof_eq _ hp

end SortedMerkleTreeAccumulator

/-- Both accumulators accept their own witnesses; a proof spells the position of its leaf and
decides as `check_present` does; `index_map` sends each element to its place in sorted order. -/
theorem merkle_witnesses_complete (H : MerkleHash) :
    (∀ X : List Bytes, X ≠ [] → ∃ mkt root, MerkleTreeAccumulator.accumulate ⟨H⟩ X = .ok mkt ∧
      MerkleTreeAccumulator.getAccval ⟨H⟩ mkt = .ok root ∧
      ∀ (i : Nat) (x : Bytes), X[i]? = some x →
        ∃ w, MerkleTreeAccumulator.witgen ⟨H⟩ mkt X (i : Int) = .ok w ∧
          MerkleTreeAccumulator.verify ⟨H⟩ root w x = .ok true) ∧
    (∀ X : List Bytes, X ≠ [] → ∃ mkt index_map root,
      SortedMerkleTreeAccumulator.accumulate ⟨H⟩ X = .ok (mkt, index_map) ∧
      SortedMerkleTreeAccumulator.getAccval ⟨H⟩ (mkt, index_map) = .ok root ∧
      (∀ (i : Nat) (x : Bytes), X[i]? = some x →
        ∃ w, SortedMerkleTreeAccumulator.witgen ⟨H⟩ (mkt, index_map) X (i : Int) = .ok w ∧
          SortedMerkleTreeAccumulator.verify ⟨H⟩ root w x = .ok true) ∧
      index_map.Perm (List.range X.length) ∧
      ∃ sorted : List Bytes, mkt.data = some (padData sorted) ∧ sorted.Perm X ∧
        (sorted.Pairwise fun x y => bytesLe x y = true) ∧
        ∀ (i : Nat) (x : Bytes), X[i]? = some x →
          ∃ p, index_map[i]? = some p ∧ sorted[p]? = some x) ∧
    ∀ (mkt : MerkleTree) (k : Nat), mkt.tree.length = 2 * 2 ^ k - 1 → mkt.lendata = 2 ^ k →
      ∃ root, mkt.root = .ok root ∧ ∀ j : Nat, j < 2 ^ k →
        ∃ proof, mkt.getProof (j : Int) = .ok proof ∧ proof.length = k ∧
        proof.map Prod.fst = ((List.range k).map fun i => if j.testBit i then "L" else "R") ∧
        ∀ x, mkt.checkPresent H (j : Int) x = checkProof H root x (j : Int) proof := by
  refine ⟨?_, ?_, ?_⟩
  · intro X hX
    obtain ⟨mkt, root, _, hacc, hroot, _, hall⟩ := MerkleTreeAccumulator.accumulate_complete ⟨H⟩ hX
    exact ⟨mkt, root, hacc, hroot, fun i x hx => (hall i x hx).2⟩
  · intro X hX
    obtain ⟨⟨mkt, _⟩, root, hacc, hroot, hdata, rfl, hall⟩ :=
      SortedMerkleTreeAccumulator.accumulate_complete ⟨H⟩ hX
    exact ⟨mkt, _, root, hacc, hroot, hall, SortedMerkleTreeAccumulator.indexMap_perm X, _, hdata,
      SortedMerkleTreeAccumulator.sortedData_perm X,
      SortedMerkleTreeAccumulator.sortedData_pairwise X,
      fun i x hx => SortedMerkleTreeAccumulator.sortedData_indexMap hx⟩
  · intro mkt k hlen hlendata
    obtain ⟨root, hroot⟩ := exists_root hlen
    refine ⟨root, hroot, ?_⟩
    intro j hj
    obtain ⟨proof, hproof, hlength, hsides⟩ := getProof_sides hlen hlendata hj
    exact ⟨proof, hproof, hlength, hsides, checkPresent_eq hproof hroot⟩

/-- Three elements, two of them equal. -/
theorem merkle_witnesses_complete_three : ∃ mkt index_map root w,
    SortedMerkleTreeAccumulator.accumulate ⟨SortedMerkleTreeAccumulator.byteHash⟩ [[2], [1], [2]] =
      .ok (mkt, index_map) ∧
    SortedMerkleTreeAccumulator.getAccval ⟨SortedMerkleTreeAccumulator.byteHash⟩ (mkt, index_map) =
      .ok root ∧
    SortedMerkleTreeAccumulator.witgen ⟨SortedMerkleTreeAccumulator.byteHash⟩ (mkt, index_map)
      [[2], [1], [2]] (2 : Nat) = .ok w ∧
    SortedMerkleTreeAccumulator.verify ⟨SortedMerkleTreeAccumulator.byteHash⟩ root w [2] =
      .ok true := by
  obtain ⟨_, hsorted, _⟩ := merkle_witnesses_complete SortedMerkleTreeAccumulator.byteHash
  obtain ⟨mkt, index_map, root, hacc, hroot, hall, _⟩ := hsorted [[2], [1], [2]] (by decide)
  obtain ⟨w, hw, hverify⟩ := hall 2 [2] rfl
  exact ⟨mkt, index_map, root, w, hacc, hroot, hw, hverify⟩

end Lootbox.Headstart

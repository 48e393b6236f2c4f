import Lootbox.Headstart.SortedMerkle

/-!
# `acc/merkle_tree.py`: what a membership witness proves

`from_data` pads with empty strings, and a witness cannot tell a padding leaf from an element.
-/

namespace Lootbox.Headstart.MerkleTreeAccumulator

open HashTree MerkleTree

/-- The byte strings hashed when the tree is built and when the witness is checked. -/
def membershipInputs (H : MerkleHash) (X : List Bytes) (mkt : MerkleTree) (w : MerkleProof)
    (x : Bytes) : List Bytes :=
  treeInputs (padData X).length.log2 mkt.tree (padData X) ++ proofInputs H x w

/-- The witness leads to a leaf that holds no element of `X`. -/
def PaddingWitness (self : MerkleTreeAccumulator) (mkt : MerkleTree) (X : List Bytes)
    (w : MerkleProof) : Prop :=
  ∃ i : Nat, X.length ≤ i ∧ i < (padData X).length ∧ self.witgen mkt X (i : Int) = .ok w

theorem padData_getElem?_of_le {X : List Bytes} {i : Nat} (hi : X.length ≤ i)
    (hlt : i < (padData X).length) : (padData X)[i]? = some [] := by
  obtain ⟨n, hn⟩ := padData_prefix X
  rw [hn] at hlt ⊢
  rw [List.length_append, List.length_replicate] at hlt
  rw [List.getElem?_append_right hi, List.getElem?_replicate, if_pos (by omega)]

/-- There is padding exactly behind a list whose length is no power of two. -/
theorem length_lt_padData_iff {X : List Bytes} (hX : X ≠ []) :
    X.length < (padData X).length ↔ ¬ ∃ k, X.length = 2 ^ k := by
  have hpos := List.length_pos_of_ne_nil hX
  have hpower := isPowerOfTwo_iff X.length
  rw [padData]
  split
  · rename_i h
    rcases hpower.mp h with hzero | hk
    · omega
    · exact ⟨fun hlt => absurd hlt (Nat.lt_irrefl _), fun hno => absurd hk hno⟩
  · rename_i h
    have hlt := Nat.lt_size_self X.length
    rw [List.length_append, List.length_replicate]
    constructor
    · exact fun _ hk => h (hpower.mpr (Or.inr hk))
    · intro _
      omega

section Tree

variable {H : MerkleHash} {X : List Bytes} {mkt : MerkleTree} {root : Bytes}

theorem accumulate_computed (hX : X ≠ []) (hacc : accumulate ⟨H⟩ X = .ok mkt)
    (hroot : getAccval ⟨H⟩ mkt = .ok root) :
    ∃ k tree, Computed H k tree (padData X) ∧ mkt = ⟨tree, 2 ^ k, some (padData X)⟩ ∧
      root = label tree 0 0 := by
  obtain ⟨k, tree, hc, hfrom⟩ := fromData_eq (H := H) hX
  have hmkt : mkt = ⟨tree, 2 ^ k, some (padData X)⟩ := Except.ok.inj (hacc.symm.trans hfrom)
  subst hmkt
  exact ⟨k, tree, hc, rfl, Except.ok.inj (hroot.symm.trans (hc.root_eq _ _))⟩

/-- An accepted witness proves an element and its position, unless it leads into the padding
and the value is the empty string. -/
theorem verify_sound_iff {digest : Nat} (w : MerkleProof) (x : Bytes) (hX : X ≠ [])
    (hacc : accumulate ⟨H⟩ X = .ok mkt) (hroot : getAccval ⟨H⟩ mkt = .ok root)
    (hcf : CollisionFree H digest (membershipInputs H X mkt w x)) :
    (verify ⟨H⟩ root w x = .ok true →
        x ∈ X ∧ ∃ i : Nat, X[i]? = some x ∧ witgen ⟨H⟩ mkt X (i : Int) = .ok w) ↔
      x ≠ [] ∨ ¬ PaddingWitness ⟨H⟩ mkt X w := by
  obtain ⟨k, tree, hc, rfl, rfl⟩ := accumulate_computed hX hacc hroot
  have hlen : (padData X).length = 2 ^ k := hc.leaves_length
  rw [membershipInputs, hlen, Nat.log2_two_pow] at hcf
  constructor
  · intro hsound
    by_contra hcon
    push Not at hcon
    obtain ⟨rfl, i, hi, hlt, hw⟩ := hcon
    have hproof := hc.getProof_eq (some (padData X)) (hlen ▸ hlt)
    obtain rfl : toProof (path (label tree) k i) = w := Except.ok.inj (hproof.symm.trans hw)
    obtain ⟨_, j, hj, hwj⟩ := hsound (hc.checkProof_path (padData_getElem?_of_le hi hlt) 0)
    have hjX : j < X.length := (List.getElem?_eq_some_iff.mp hj).1
    have hjk : j < 2 ^ k := by omega
    -- the sides of a path spell its position
    have hpaths := Except.ok.inj ((hc.getProof_eq (some (padData X)) hjk).symm.trans hwj)
    have hsame := congrArg (fun w => position ((fromProof w).map Prod.fst)) hpaths
    simp only [fromProof_toProof, position_path k j hjk, position_path k i (hlen ▸ hlt)] at hsame
    omega
  · intro hcond haccept
    obtain ⟨p, hp, hleaf, rfl⟩ := hc.checkProof_binding hcf haccept
    have hproof := hc.getProof_eq (some (padData X)) hp
    rcases Nat.lt_or_ge p X.length with hlt | hge
    · have hx : X[p]? = some x := by
        rw [← hleaf, padData_getElem? (List.getElem?_eq_getElem hlt)]
        exact List.getElem?_eq_getElem hlt
      exact ⟨List.mem_of_getElem? hx, p, hx, hproof⟩
    · have hempty := padData_getElem?_of_le hge (hlen ▸ hp)
      rw [hleaf, Option.some.injEq] at hempty
      rcases hcond with hne | hno
      · exact absurd hempty hne
      · exact absurd ⟨p, hge, hlen ▸ hp, hproof⟩ hno

end Tree

/-! ### Three elements and one padding leaf -/

open SortedMerkleTreeAccumulator (byteHash)

def threeTree : MerkleTree where
  tree := (computeTree byteHash [[1], [2], [3], []]).toOption.getD []
  lendata := 4
  data := some [[1], [2], [3], []]

/-- `get_proof` of a position of the tree. -/
def threeProof (i : Int) : MerkleProof := (threeTree.getProof i).toOption.getD []

theorem accumulate_three : accumulate ⟨byteHash⟩ [[1], [2], [3]] = .ok threeTree := by decide

theorem getAccval_three : getAccval ⟨byteHash⟩ threeTree = .ok threeTree.tree.headI := by decide

theorem byteHash_collisionFree_three :
    CollisionFree byteHash 1
        (membershipInputs byteHash [[1], [2], [3]] threeTree (threeProof 3) []) ∧
      CollisionFree byteHash 1
        (membershipInputs byteHash [[1], [2], [3]] threeTree (threeProof 2) [3]) :=
  ⟨⟨fun _ => rfl, by decide⟩, ⟨fun _ => rfl, by decide⟩⟩

theorem verify_sound_three :
    verify ⟨byteHash⟩ threeTree.tree.headI (threeProof 2) [3] = .ok true ∧
      [3] ∈ ([[1], [2], [3]] : List Bytes) ∧ ∃ i : Nat, ([[1], [2], [3]] : List Bytes)[i]? = some [3] ∧
        witgen ⟨byteHash⟩ threeTree [[1], [2], [3]] (i : Int) = .ok (threeProof 2) := by
  have haccept : verify ⟨byteHash⟩ threeTree.tree.headI (threeProof 2) [3] = .ok true := by decide
  exact ⟨haccept, (verify_sound_iff (threeProof 2) [3] (by decide) accumulate_three getAccval_three
    byteHash_collisionFree_three.2).mpr (Or.inl (by decide)) haccept⟩

/-- The empty string is accepted and is no element. -/
theorem verify_accepts_padding :
    ∃ (H : MerkleHash) (digest : Nat) (X : List Bytes) (mkt : MerkleTree) (root : Bytes)
      (w : MerkleProof) (x : Bytes), X ≠ [] ∧ accumulate ⟨H⟩ X = .ok mkt ∧
      getAccval ⟨H⟩ mkt = .ok root ∧ CollisionFree H digest (membershipInputs H X mkt w x) ∧
      verify ⟨H⟩ root w x = .ok true ∧ x ∉ X :=
  ⟨byteHash, 1, [[1], [2], [3]], threeTree, threeTree.tree.headI, threeProof 3, [], by decide,
    accumulate_three, getAccval_three, byteHash_collisionFree_three.1, by decide, by decide⟩

end Lootbox.Headstart.MerkleTreeAccumulator

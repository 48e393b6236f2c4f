import Lootbox.Headstart.MerkleTree

/-!
# The heap-ordered tree is a perfect hash tree

`Computed` says what `compute_tree` leaves in the list. Everything later about
proofs is read off it through the abstract tree, never through the loops.
-/

namespace Lootbox.Headstart.MerkleTree

open HashTree

variable {H : MerkleHash}

/-! ### What the two loops of `compute_tree` write -/

@[simp] theorem fillInner_length (n : Nat) (tree : List Bytes) :
    (fillInner H n tree).length = tree.length := by
  induction n generalizing tree with
  | zero => rfl
  | succ n ih => simp [fillInner, ih]

theorem fillInner_getElem?_of_le (n : Nat) (tree : List Bytes) {i : Nat} (hi : n ≤ i) :
    (fillInner H n tree)[i]? = tree[i]? := by
  induction n generalizing tree with
  | zero => rfl
  | succ n ih =>
    rw [fillInner, ih _ (by omega), List.getElem?_set_ne (by omega)]

theorem fillInner_getElem? (n : Nat) (tree : List Bytes) {i : Nat} (hi : i < n)
    (hlen : n ≤ tree.length) :
    (fillInner H n tree)[i]? =
      some (H.hashNode ((fillInner H n tree)[i * 2 + 1]?.getD [])
        ((fillInner H n tree)[i * 2 + 2]?.getD [])) := by
  induction n generalizing tree with
  | zero => omega
  | succ n ih =>
    rw [fillInner]
    rcases Nat.lt_or_eq_of_le (Nat.le_of_lt_succ hi) with h | rfl
    · exact ih _ h (by simp; omega)
    · rw [fillInner_getElem?_of_le i _ (Nat.le_refl i),
        fillInner_getElem?_of_le i _ (by omega : i ≤ i * 2 + 1),
        fillInner_getElem?_of_le i _ (by omega : i ≤ i * 2 + 2),
        List.getElem?_set_self (by omega), List.getElem?_set_ne (by omega),
        List.getElem?_set_ne (by omega)]

def label (tree : List Bytes) (j p : Nat) : Bytes := tree[heapIndex j p]?.getD []

/-- The list holds a perfect tree of depth `k` over `leaves`. -/
structure Computed (H : MerkleHash) (k : Nat) (tree leaves : List Bytes) : Prop where
  leaves_length : leaves.length = 2 ^ k
  tree_length : tree.length = 2 * 2 ^ k - 1
  labelling : Labelling H.hashNode k (label tree)
  leaf : ∀ p x, leaves[p]? = some x → label tree k p = H.hashLeaf x

theorem isPowerOfTwo_iff (l : Nat) : isPowerOfTwo l = true ↔ l = 0 ∨ ∃ k, l = 2 ^ k := by
  unfold isPowerOfTwo
  rw [beq_iff_eq]
  rcases Nat.eq_zero_or_pos l with rfl | hl
  · simp
  · rw [Nat.and_sub_one_eq_zero_iff_isPowerOfTwo (by omega)]
    constructor
    · rintro ⟨k, hk⟩
      exact Or.inr ⟨k, hk⟩
    · rintro (h | ⟨k, hk⟩)
      · omega
      · exact ⟨k, hk⟩

theorem computeTree_computed {k : Nat} {leaves : List Bytes} (hlen : leaves.length = 2 ^ k) :
    ∃ tree, computeTree H leaves = .ok tree ∧ Computed H k tree leaves := by
  have hpow : isPowerOfTwo leaves.length = true :=
    (isPowerOfTwo_iff _).mpr (Or.inr ⟨k, hlen⟩)
  have hpos := Nat.two_pow_pos k
  refine ⟨_, by rw [computeTree, if_pos hpow], hlen, ?_, ?_, ?_⟩
  · simp [hlen]
    omega
  · intro j p hj hp
    have hmono := Nat.pow_le_pow_right Nat.two_pos (Nat.succ_le_of_lt hj)
    have hidx : heapIndex j p < leaves.length - 1 := by
      rw [Nat.succ_eq_add_one, Nat.pow_succ] at hmono
      unfold heapIndex
      omega
    unfold label
    rw [← left_heapIndex, ← right_heapIndex,
      fillInner_getElem? (H := H) (leaves.length - 1) _ hidx (by simp)]
    simp [Nat.mul_comm]
  · intro p x hx
    have hp : p < leaves.length := by
      by_contra hcon
      rw [List.getElem?_eq_none (by omega)] at hx
      cases hx
    have hidx : heapIndex k p = (leaves.length - 1) + p := by rw [heapIndex, hlen]
    unfold label
    rw [hidx, fillInner_getElem?_of_le _ _ (by omega),
      List.getElem?_append_right (by simp)]
    simp [hx]

/-! ### `from_data` -/

theorem padData_length {data : List Bytes} (hne : data ≠ []) :
    ∃ k, (padData data).length = 2 ^ k := by
  unfold padData
  cases hp : isPowerOfTwo data.length with
  | true =>
    rcases (isPowerOfTwo_iff _).mp hp with h | ⟨k, hk⟩
    · exact absurd (List.length_eq_zero_iff.mp h) hne
    · exact ⟨k, hk⟩
  | false =>
    have hlt := Nat.lt_size_self data.length
    refine ⟨data.length.size, ?_⟩
    simp
    omega

theorem padData_prefix (data : List Bytes) : ∃ n, padData data = data ++ List.replicate n [] := by
  unfold padData
  split
  · exact ⟨0, by simp⟩
  · exact ⟨_, rfl⟩

theorem padData_getElem? {data : List Bytes} {i : Nat} {x : Bytes} (hx : data[i]? = some x) :
    (padData data)[i]? = some x := by
  obtain ⟨n, hn⟩ := padData_prefix data
  have hi : i < data.length := by
    by_contra hcon
    rw [List.getElem?_eq_none (by omega)] at hx
    cases hx
  rw [hn, List.getElem?_append_left hi, hx]

theorem fromData_eq {data : List Bytes} (hne : data ≠ []) :
    ∃ k tree, Computed H k tree (padData data) ∧
      fromData H data = .ok { tree := tree, lendata := 2 ^ k, data := some (padData data) } := by
  obtain ⟨k, hk⟩ := padData_length hne
  obtain ⟨tree, htree, hc⟩ := computeTree_computed (H := H) hk
  have hpow : isPowerOfTwo (padData data).length = true :=
    (isPowerOfTwo_iff _).mpr (Or.inr ⟨k, hk⟩)
  have hpos := Nat.two_pow_pos k
  have hlen : (tree.length : Int) = 2 * ((padData data).length : Int) - 1 := by
    rw [hc.tree_length, hk]
    omega
  have hhalf : (tree.length + 1) / 2 = 2 ^ k := by
    rw [hc.tree_length]
    omega
  refine ⟨k, tree, hc, ?_⟩
  simp [fromData, init, verifyData, htree, hpow, hlen, hhalf]
  rfl

/-! ### Proofs are paths -/

def toProof (w : List (Bool × Bytes)) : MerkleProof :=
  w.map fun s => (if s.1 then "L" else "R", s.2)

@[simp] theorem toProof_length (w : List (Bool × Bytes)) : (toProof w).length = w.length := by
  simp [toProof]

theorem siblingStep_heapIndex {tree : List Bytes} {k j p : Nat}
    (hlen : tree.length = 2 * 2 ^ k - 1) (hj : j + 1 ≤ k) (hp : p < 2 ^ (j + 1)) :
    siblingStep tree (heapIndex (j + 1) p) =
      .ok (if p % 2 == 1 then "L" else "R", label tree (j + 1) (sibling p)) := by
  have hpos := heapIndex_succ_pos j p
  have hpow : 2 ^ (j + 1) = 2 * 2 ^ j := by rw [Nat.pow_succ, Nat.mul_comm]
  unfold siblingStep
  rcases Nat.mod_two_eq_zero_or_one p with h | h
  · have hsib : heapIndex (j + 1) p + 1 = heapIndex (j + 1) (sibling p) := by
      simp [heapIndex, sibling, h]
      omega
    have hlt := heapIndex_lt hj (show sibling p < 2 ^ (j + 1) by simp [sibling, h]; omega)
    rw [if_pos ((heapIndex_succ_mod j p).mpr h), hsib, List.getElem?_eq_getElem (by omega)]
    simp [h, label, List.getElem?_eq_getElem (show heapIndex (j + 1) (sibling p) < tree.length by omega)]
  · have hmod : ¬ heapIndex (j + 1) p % 2 = 1 := by
      rw [heapIndex_succ_mod]
      omega
    have hsib : heapIndex (j + 1) p - 1 = heapIndex (j + 1) (sibling p) := by
      simp [heapIndex, sibling, h]
      omega
    have hlt := heapIndex_lt hj (show sibling p < 2 ^ (j + 1) by simp [sibling, h]; omega)
    rw [if_neg hmod, hsib, List.getElem?_eq_getElem (by omega)]
    simp [h, label, List.getElem?_eq_getElem (show heapIndex (j + 1) (sibling p) < tree.length by omega)]

theorem proofFrom_heapIndex {tree : List Bytes} {k : Nat} (hlen : tree.length = 2 * 2 ^ k - 1) :
    ∀ (j p fuel : Nat), j ≤ k → p < 2 ^ j → heapIndex j p ≤ fuel →
      proofFrom tree fuel (heapIndex j p) = .ok (toProof (path (label tree) j p)) := by
  intro j
  induction j with
  | zero =>
    intro p fuel _ hp _
    have h0 : p = 0 := by simpa using hp
    subst h0
    cases fuel <;> simp [proofFrom, heapIndex, path, toProof]
  | succ j ih =>
    intro p fuel hj hp hfuel
    have hpos := heapIndex_succ_pos j p
    have hhalf : p / 2 < 2 ^ j := by
      rw [Nat.pow_succ] at hp
      omega
    obtain ⟨fuel, rfl⟩ : ∃ f, fuel = f + 1 := ⟨fuel - 1, by omega⟩
    have hparent := parent_heapIndex j p
    have hle : heapIndex j (p / 2) ≤ fuel := by omega
    rw [proofFrom, if_neg (by omega), siblingStep_heapIndex hlen hj hp, hparent]
    simp only [ok_bind, ih (p / 2) fuel (by omega) hhalf hle]
    simp [path, toProof]
    rfl

theorem foldlM_toProof (x : Bytes) (w : List (Bool × Bytes)) :
    (toProof w).foldlM (checkStep H) x = .ok (climb H.hashNode x w) := by
  induction w generalizing x with
  | nil => rfl
  | cons s w ih =>
    have hstep : checkStep H x (if s.1 then "L" else "R", s.2) = .ok (climbStep H.hashNode x s) := by
      cases h : s.1 <;> simp [checkStep, climbStep, h]
    simp only [toProof, List.map_cons, List.foldlM_cons, hstep, ok_bind, climb_cons]
    exact ih _

/-- A proof that `check_proof` does not reject as malformed names a side in every step. -/
theorem exists_toProof_of_foldlM {x y : Bytes} {proof : MerkleProof}
    (h : proof.foldlM (checkStep H) x = .ok y) :
    ∃ w, proof = toProof w ∧ y = climb H.hashNode x w := by
  induction proof generalizing x with
  | nil =>
    cases h
    exact ⟨[], rfl, rfl⟩
  | cons s proof ih =>
    obtain ⟨side, v⟩ := s
    rw [List.foldlM_cons] at h
    obtain ⟨x', hx', hrest⟩ := bind_eq_ok_iff.mp h
    obtain ⟨w, rfl, rfl⟩ := ih hrest
    unfold checkStep at hx'
    split at hx'
    · rename_i hR
      cases hx'
      exact ⟨(false, v) :: w, by simp [toProof, show side = "R" from hR], rfl⟩
    · split at hx'
      · rename_i hL
        cases hx'
        exact ⟨(true, v) :: w, by simp [toProof, show side = "L" from hL], rfl⟩
      · cases hx'

theorem checkProof_toProof (root x : Bytes) (index : Int) (w : List (Bool × Bytes)) :
    checkProof H root x index (toProof w) = .ok (climb H.hashNode (H.hashLeaf x) w == root) := by
  simp [checkProof, foldlM_toProof]

section Tree
variable {k : Nat} {tree leaves : List Bytes} (hc : Computed H k tree leaves)
include hc

theorem Computed.root_eq (lendata : Nat) (data : Option (List Bytes)) :
    root ⟨tree, lendata, data⟩ = .ok (label tree 0 0) := by
  have hpos := Nat.two_pow_pos k
  have h0 : 0 < tree.length := by
    rw [hc.tree_length]
    omega
  simp [root, label, heapIndex, List.getElem?_eq_getElem h0]

theorem Computed.getProof_eq (data : Option (List Bytes)) {p : Nat} (hp : p < 2 ^ k) :
    getProof ⟨tree, 2 ^ k, data⟩ (p : Int) = .ok (toProof (path (label tree) k p)) := by
  have hpos := Nat.two_pow_pos k
  have hcur : ((p : Int) + ((2 ^ k : Nat) : Int) - 1).toNat = heapIndex k p := by
    unfold heapIndex
    omega
  simp only [getProof, hcur]
  exact proofFrom_heapIndex hc.tree_length k p _ (Nat.le_refl k) hp (Nat.le_refl _)

theorem Computed.checkProof_path {p : Nat} {x : Bytes} (hx : leaves[p]? = some x) (index : Int) :
    checkProof H (label tree 0 0) x index (toProof (path (label tree) k p)) = .ok true := by
  have hp : p < 2 ^ k := by
    by_contra hcon
    rw [List.getElem?_eq_none (by rw [hc.leaves_length]; omega)] at hx
    cases hx
  rw [checkProof_toProof, ← hc.leaf p x hx, climb_path hc.labelling k p (Nat.le_refl k) hp]
  simp

end Tree

/-! ### Collisions -/

/-- The sides and siblings of a proof, without its spelling. -/
def fromProof (proof : MerkleProof) : List (Bool × Bytes) := proof.map fun s => (s.1 == "L", s.2)

@[simp] theorem fromProof_toProof (w : List (Bool × Bytes)) : fromProof (toProof w) = w := by
  induction w with
  | nil => rfl
  | cons s w ih =>
    obtain ⟨b, h⟩ := s
    cases b <;> simpa [fromProof, toProof] using ih

/-- The byte strings hashed to build the tree of depth `k` over `leaves`. -/
def treeInputs (k : Nat) (tree leaves : List Bytes) : List Bytes :=
  leaves.map (0 :: ·) ++ (List.range k).flatMap fun j => (List.range (2 ^ j)).map fun p =>
    1 :: (label tree (j + 1) (2 * p) ++ label tree (j + 1) (2 * p + 1))

/-- The byte strings hashed when a proof is checked from the value `x`. -/
def proofInputs (H : MerkleHash) (x : Bytes) (proof : MerkleProof) : List Bytes :=
  (0 :: x) :: (climbPairs H.hashNode (H.hashLeaf x) (fromProof proof)).map fun q => 1 :: (q.1 ++ q.2)

/-- Digests have one length, and no two of the strings in play collide. -/
structure CollisionFree (H : MerkleHash) (digest : Nat) (inputs : List Bytes) : Prop where
  length : ∀ u, (H.hashfn u).length = digest
  inj : ∀ u ∈ inputs, ∀ v ∈ inputs, H.hashfn u = H.hashfn v → u = v

theorem CollisionFree.mono {digest : Nat} {inputs inputs' : List Bytes}
    (h : CollisionFree H digest inputs) (hsub : inputs' ⊆ inputs) :
    CollisionFree H digest inputs' :=
  ⟨h.length, fun u hu v hv => h.inj u (hsub hu) v (hsub hv)⟩

theorem mem_treeInputs_leaf {k : Nat} {tree leaves : List Bytes} {x : Bytes} (hx : x ∈ leaves) :
    (0 :: x) ∈ treeInputs k tree leaves :=
  List.mem_append.mpr (Or.inl (List.mem_map.mpr ⟨x, hx, rfl⟩))

theorem mem_treeInputs_node {k : Nat} {tree leaves : List Bytes} {j p : Nat} (hj : j < k)
    (hp : p < 2 ^ j) :
    (1 :: (label tree (j + 1) (2 * p) ++ label tree (j + 1) (2 * p + 1))) ∈
      treeInputs k tree leaves := by
  apply List.mem_append.mpr (Or.inr _)
  exact List.mem_flatMap.mpr ⟨j, List.mem_range.mpr hj,
    List.mem_map.mpr ⟨p, List.mem_range.mpr hp, rfl⟩⟩

theorem climbPairs_digest {digest : Nat} (hlen : ∀ u, (H.hashfn u).length = digest) :
    ∀ (w : List (Bool × Bytes)) (x : Bytes), x.length = digest →
      ∀ q ∈ climbPairs H.hashNode x w, q.1.length = digest ∨ q.2.length = digest := by
  intro w
  induction w with
  | nil =>
    intro x _ q hq
    cases hq
  | cons s w ih =>
    intro x hx q hq
    rcases List.mem_cons.mp hq with rfl | hq
    · unfold stepPair
      split
      · exact Or.inr hx
      · exact Or.inl hx
    · refine ih _ ?_ q hq
      rw [climbStep_eq_stepPair]
      exact hlen _

section Binding
variable {k digest : Nat} {tree leaves : List Bytes} (hc : Computed H k tree leaves)
include hc

theorem Computed.label_digest (hlen : ∀ u, (H.hashfn u).length = digest) {j p : Nat} (hj : j ≤ k)
    (hp : p < 2 ^ j) : (label tree j p).length = digest := by
  rcases Nat.lt_or_eq_of_le hj with h | rfl
  · rw [hc.labelling j p h hp]
    exact hlen _
  · have hp' : p < leaves.length := by rw [hc.leaves_length]; exact hp
    rw [hc.leaf p leaves[p] (List.getElem?_eq_getElem hp')]
    exact hlen _

theorem Computed.distinct {x : Bytes} {proof : MerkleProof}
    (hcf : CollisionFree H digest (treeInputs k tree leaves ++ proofInputs H x proof)) :
    Distinct H.hashNode k (label tree)
      (climbPairs H.hashNode (H.hashLeaf x) (fromProof proof)) := by
  have hmem : ∀ q ∈ climbPairs H.hashNode (H.hashLeaf x) (fromProof proof),
      (1 :: (q.1 ++ q.2)) ∈ treeInputs k tree leaves ++ proofInputs H x proof := fun q hq =>
    List.mem_append.mpr (Or.inr (List.mem_cons_of_mem _ (List.mem_map.mpr ⟨q, hq, rfl⟩)))
  constructor
  · intro j p hj hp q hq heq
    have hp2 : 2 * p + 1 < 2 ^ (j + 1) := by
      rw [Nat.pow_succ]
      omega
    have hdl := hc.label_digest hcf.length (show j + 1 ≤ k from hj) (show 2 * p < 2 ^ (j + 1) by omega)
    have hdr := hc.label_digest hcf.length (show j + 1 ≤ k from hj) hp2
    rw [hc.labelling j p hj hp] at heq
    have hcat := hcf.inj _ (hmem q hq) _
      (List.mem_append.mpr (Or.inl (mem_treeInputs_node hj hp))) heq
    have hcat : q.1 ++ q.2 = label tree (j + 1) (2 * p) ++ label tree (j + 1) (2 * p + 1) := by
      simpa using hcat
    rcases climbPairs_digest hcf.length _ _ (hcf.length _) q hq with h1 | h2
    · obtain ⟨e1, e2⟩ := List.append_inj hcat (h1.trans hdl.symm)
      exact Prod.ext e1 e2
    · obtain ⟨e1, e2⟩ := List.append_inj' hcat (h2.trans hdr.symm)
      exact Prod.ext e1 e2
  · intro p hp q hq heq
    have hp' : p < leaves.length := by rw [hc.leaves_length]; exact hp
    rw [hc.leaf p leaves[p] (List.getElem?_eq_getElem hp')] at heq
    have hcat := hcf.inj _ (hmem q hq) _
      (List.mem_append.mpr (Or.inl (mem_treeInputs_leaf (List.getElem_mem hp')))) heq
    simp at hcat

/-- Binding: without collisions, a proof that verifies against the root is the
authentication path of a leaf that holds the value. -/
theorem Computed.checkProof_binding {x : Bytes} {proof : MerkleProof} {index : Int}
    (hcf : CollisionFree H digest (treeInputs k tree leaves ++ proofInputs H x proof))
    (hok : checkProof H (label tree 0 0) x index proof = .ok true) :
    ∃ p, p < 2 ^ k ∧ leaves[p]? = some x ∧ proof = toProof (path (label tree) k p) := by
  obtain ⟨top, htop, heq⟩ := bind_eq_ok_iff.mp hok
  obtain ⟨w, rfl, rfl⟩ := exists_toProof_of_foldlM htop
  have hroot : climb H.hashNode (H.hashLeaf x) w = label tree 0 0 := by
    simpa [pure, Except.pure] using heq
  have hdist := hc.distinct hcf
  rw [fromProof_toProof] at hdist
  obtain ⟨p, hp, hle, hx, hw⟩ := climb_binding w _ hdist hroot
  have hxmem : (0 :: x) ∈ treeInputs k tree leaves ++ proofInputs H x (toProof w) :=
    List.mem_append.mpr (Or.inr List.mem_cons_self)
  rcases Nat.lt_or_eq_of_le hle with hlt | heqk
  · rw [hc.labelling _ p hlt hp] at hx
    have hcat := hcf.inj _ hxmem _
      (List.mem_append.mpr (Or.inl (mem_treeInputs_node hlt hp))) hx
    simp at hcat
  · rw [heqk] at hp hx hw
    have hp' : p < leaves.length := by rw [hc.leaves_length]; exact hp
    rw [hc.leaf p leaves[p] (List.getElem?_eq_getElem hp')] at hx
    have hcat := hcf.inj _ hxmem _
      (List.mem_append.mpr (Or.inl (mem_treeInputs_leaf (List.getElem_mem hp')))) hx
    refine ⟨p, hp, ?_, by rw [hw]⟩
    rw [List.getElem?_eq_getElem hp']
    simpa using hcat.symm

end Binding

end Lootbox.Headstart.MerkleTree

namespace Lootbox.Headstart.MerkleTreeAccumulator

open HashTree MerkleTree

theorem accumulate_complete (self : MerkleTreeAccumulator) {X : List Bytes} (hX : X ≠ []) :
    ∃ mkt root leaves, self.accumulate X = .ok mkt ∧ self.getAccval mkt = .ok root ∧
      mkt.data = some leaves ∧ ∀ (i : Nat) (x : Bytes), X[i]? = some x → leaves[i]? = some x ∧
        ∃ w, self.witgen mkt X (i : Int) = .ok w ∧ self.verify root w x = .ok true := by
  obtain ⟨k, tree, hc, hfrom⟩ := fromData_eq (H := self.H) hX
  refine ⟨_, _, _, hfrom, hc.root_eq _ _, rfl, ?_⟩
  intro i x hx
  have hleaf := padData_getElem? hx
  have hi : i < 2 ^ k := by
    by_contra hcon
    rw [List.getElem?_eq_none (by rw [hc.leaves_length]; omega)] at hleaf
    cases hleaf
  exact ⟨hleaf, _, hc.getProof_eq _ hi, hc.checkProof_path hleaf 0⟩

end Lootbox.Headstart.MerkleTreeAccumulator

import Lootbox.Base.PySeq
import Lootbox.Headstart.MerkleSpec

/-!
# `acc/merkle_tree.py`: the sorted accumulator and its non-membership check
-/

namespace Lootbox.Headstart

open HashTree MerkleTree

structure SortedMerkleTreeNonMemWitness where
  left : Option (Int × Bytes × MerkleProof)
  right : Option (Int × Bytes × MerkleProof)
  deriving DecidableEq, Repr

structure SortedMerkleTreeAccumulator where
  H : MerkleHash

namespace SortedMerkleTreeAccumulator

/-- `sorted(range(len(X)), key=X.__getitem__)` -/
def sortIdx (X : List Bytes) : List Nat :=
  (List.range X.length).insertionSort fun i j => bytesLe (X[i]?.getD []) (X[j]?.getD []) = true

/-- The values `accumulate` stores, before padding. -/
def sortedData (X : List Bytes) : List Bytes := (sortIdx X).map fun i => X[i]?.getD []

def indexMap (X : List Bytes) : List Nat :=
  (sortIdx X).zipIdx.foldl (fun index_map e => index_map.set e.1 e.2) (List.replicate X.length 0)

def accumulate (self : SortedMerkleTreeAccumulator) (X : List Bytes) :
    Except PyError (MerkleTree × List Nat) := do
  let mkt ← MerkleTree.fromData self.H (sortedData X)
  return (mkt, indexMap X)

def witgen (_self : SortedMerkleTreeAccumulator) (acc : MerkleTree × List Nat) (_X : List Bytes)
    (index : Int) : Except PyError MerkleProof := do
  let i ← need .indexError (PySeq.get acc.2 index)
  acc.1.getProof i

def verify (self : SortedMerkleTreeAccumulator) (root : Bytes) (w : MerkleProof) (x : Bytes) :
    Except PyError Bool := MerkleTree.checkProof self.H root x 0 w

def getAccval (_self : SortedMerkleTreeAccumulator) (acc : MerkleTree × List Nat) :
    Except PyError Bytes := acc.1.root

/-- `MerkleTree.check_proof(self.H, root, side[1], side[0], side[2]) if side else True` -/
def sideProved (self : SortedMerkleTreeAccumulator) (root : Bytes) :
    Option (Int × Bytes × MerkleProof) → Except PyError Bool
  | some (index, x, proof) => MerkleTree.checkProof self.H root x index proof
  | none => .ok true

/-- `int("".join([str(int(side == "L")) for side, _ in proof])[::-1], 2)` -/
def sidesIndex (proof : MerkleProof) : Except PyError Int :=
  if proof = [] then .error (.valueError "invalid literal for int() with base 2: ''")
  else .ok ((proof.map fun s => (s.1 == "L").toNat).reverse.foldl (fun n b => 2 * n + b) 0 : Nat)

def sideIndex : Option (Int × Bytes × MerkleProof) → Except PyError Int
  | some (_, _, proof) => sidesIndex proof
  | none => .ok (-1)

/-- The third alternative reads `w.left[2]`, which fails when there is no left side. -/
def goodIndex (w : SortedMerkleTreeNonMemWitness) (li ri : Int) : Except PyError Bool :=
  if li + 1 = ri then .ok true
  else if ri = 0 ∧ li = -1 then .ok true
  else match w.left with
    | some (_, _, proof) => .ok (li + 1 = 2 ^ proof.length ∧ ri = -1)
    | none => .error .typeError

def indexMatched (w : SortedMerkleTreeNonMemWitness) (li ri : Int) : Bool :=
  (match w.left with
    | some (index, _, _) => li == index
    | none => true) &&
  (match w.right with
    | some (index, _, _) => ri == index
    | none => true)

def nonmemverify (self : SortedMerkleTreeAccumulator) (root : Bytes)
    (w : SortedMerkleTreeNonMemWitness) (_x : Bytes) : Except PyError Bool := do
  let leftProved ← self.sideProved root w.left
  let rightProved ← self.sideProved root w.right
  let li ← sideIndex w.left
  let ri ← sideIndex w.right
  let good ← goodIndex w li ri
  return leftProved && rightProved && good && indexMatched w li ri

/-! ### The stored leaves -/

theorem sortIdx_perm (X : List Bytes) : (sortIdx X).Perm (List.range X.length) :=
  List.perm_insertionSort _ _

theorem sortedData_perm (X : List Bytes) : (sortedData X).Perm X := by
  have h := (sortIdx_perm X).map fun i => X[i]?.getD []
  have hX : (List.range X.length).map (fun i => X[i]?.getD []) = X := by
    apply List.ext_getElem (by simp)
    intro i hi hi'
    simp [List.getElem?_eq_getElem hi']
  rw [hX] at h
  exact h

theorem sortedData_ne_nil {X : List Bytes} (hX : X ≠ []) : sortedData X ≠ [] := by
  intro h
  have hp := sortedData_perm X
  rw [h] at hp
  exact hX (List.nil_perm.mp hp)

/-! ### What an accepted witness is -/

theorem sidesIndex_toProof (w : List (Bool × Bytes)) (hw : w ≠ []) :
    sidesIndex (toProof w) = .ok (position (w.map Prod.fst) : Nat) := by
  have hne : toProof w ≠ [] := by
    intro h
    exact hw (List.map_eq_nil_iff.mp h)
  have hbits : (toProof w).map (fun s => (s.1 == "L").toNat) = w.map fun s => s.1.toNat := by
    unfold toProof
    rw [List.map_map]
    apply List.map_congr_left
    rintro ⟨b, h⟩ _
    cases b <;> simp
  have hfold : ∀ v : List (Bool × Bytes),
      (v.map fun s => s.1.toNat).reverse.foldl (fun n b => 2 * n + b) 0 =
        position (v.map Prod.fst) := by
    intro v
    induction v with
    | nil => rfl
    | cons s v ih =>
      rw [List.map_cons, List.reverse_cons, List.foldl_append, ih]
      simp [position, Nat.add_comm]
  rw [sidesIndex, if_neg hne, hbits, hfold]

theorem sidesIndex_path (label : Nat → Nat → Bytes) {k p : Nat} (hk : 0 < k) (hp : p < 2 ^ k) :
    sidesIndex (toProof (path label k p)) = .ok (p : Int) := by
  have hne : path label k p ≠ [] := by
    intro h
    have := congrArg List.length h
    rw [path_length, List.length_nil] at this
    omega
  rw [sidesIndex_toProof _ hne, position_path k p hp]

/-- The side is the leaf at position `p` of the tree, with its authentication path. -/
def AuthenticatedAt (mkt : MerkleTree) (leaves : List Bytes) (p : Nat)
    (side : Int × Bytes × MerkleProof) : Prop :=
  side.1 = p ∧ leaves[p]? = some side.2.1 ∧ mkt.getProof (p : Int) = .ok side.2.2

/-- The two sides are neighbouring leaves of the tree, or its first leaf alone on the
right, or its last leaf alone on the left. -/
def NeighbouringLeaves (mkt : MerkleTree) (leaves : List Bytes)
    (w : SortedMerkleTreeNonMemWitness) : Prop :=
  match w.left, w.right with
  | some l, some r => ∃ p, AuthenticatedAt mkt leaves p l ∧ AuthenticatedAt mkt leaves (p + 1) r
  | none, some r => AuthenticatedAt mkt leaves 0 r
  | some l, none => AuthenticatedAt mkt leaves (leaves.length - 1) l
  | none, none => False

/-- The byte strings hashed while the witness is checked. -/
def witnessInputs (H : MerkleHash) (w : SortedMerkleTreeNonMemWitness) : List Bytes :=
  (w.left.elim [] fun s => proofInputs H s.2.1 s.2.2) ++
    w.right.elim [] fun s => proofInputs H s.2.1 s.2.2

section Accepted
variable {H : MerkleHash} {k digest : Nat} {tree leaves : List Bytes}
variable (hc : Computed H k tree leaves)
include hc

theorem authenticatedAt_iff {p : Nat} {side : Int × Bytes × MerkleProof} (hp : p < 2 ^ k)
    (data : Option (List Bytes)) :
    AuthenticatedAt ⟨tree, 2 ^ k, data⟩ leaves p side ↔
      side.1 = p ∧ leaves[p]? = some side.2.1 ∧ side.2.2 = toProof (path (label tree) k p) := by
  unfold AuthenticatedAt
  rw [hc.getProof_eq data hp]
  simp only [Except.ok.injEq, @eq_comm _ _ side.2.2]

/-- A side that is proved and whose index is readable names a leaf of a tree that is not
a single leaf. -/
theorem side_accepted {side : Int × Bytes × MerkleProof} {i : Int}
    (hcf : CollisionFree H digest (treeInputs k tree leaves ++ proofInputs H side.2.1 side.2.2))
    (hproved : sideProved ⟨H⟩ (label tree 0 0) (some side) = .ok true)
    (hindex : sideIndex (some side) = .ok i) :
    0 < k ∧ ∃ p : Nat, p < 2 ^ k ∧ i = p ∧ leaves[p]? = some side.2.1 ∧
      side.2.2 = toProof (path (label tree) k p) := by
  obtain ⟨index, x, proof⟩ := side
  have haccept : checkProof H (label tree 0 0) x index proof = .ok true := hproved
  obtain ⟨p, hp, hx, rfl⟩ := hc.checkProof_binding hcf haccept
  have hk : 0 < k := by
    by_contra hcon
    have h0 : k = 0 := by omega
    subst h0
    simp [sideIndex, sidesIndex, path, toProof] at hindex
  have hidx := sidesIndex_path (label tree) hk hp
  have hi : i = p := by
    have h := hindex.symm.trans hidx
    simpa using h
  exact ⟨hk, p, hp, hi, hx, rfl⟩

theorem side_of_authenticated {side : Int × Bytes × MerkleProof} {p : Nat} (hk : 0 < k)
    (hp : p < 2 ^ k) (data : Option (List Bytes))
    (h : AuthenticatedAt ⟨tree, 2 ^ k, data⟩ leaves p side) :
    sideProved ⟨H⟩ (label tree 0 0) (some side) = .ok true ∧
      sideIndex (some side) = .ok (p : Int) ∧ side.1 = p := by
  obtain ⟨index, x, proof⟩ := side
  obtain ⟨hi, hx, hproof⟩ := (authenticatedAt_iff hc hp data).mp h
  simp only at hi hx hproof
  subst hproof
  exact ⟨hc.checkProof_path hx index, sidesIndex_path (label tree) hk hp, hi⟩

end Accepted

/-- `sorted` and padded: the leaves of the tree that `accumulate` builds. -/
def storedLeaves (X : List Bytes) : List Bytes := padData (sortedData X)

/-- The byte strings hashed when the tree is built and when the witness is checked. -/
def hashedInputs (H : MerkleHash) (X : List Bytes) (mkt : MerkleTree)
    (w : SortedMerkleTreeNonMemWitness) : List Bytes :=
  treeInputs (storedLeaves X).length.log2 mkt.tree (storedLeaves X) ++ witnessInputs H w

theorem nonmemverify_of_sides {self : SortedMerkleTreeAccumulator} {root : Bytes}
    {w : SortedMerkleTreeNonMemWitness} {x : Bytes} {li ri : Int}
    (hl : self.sideProved root w.left = .ok true) (hr : self.sideProved root w.right = .ok true)
    (hli : sideIndex w.left = .ok li) (hri : sideIndex w.right = .ok ri)
    (hgood : goodIndex w li ri = .ok true) (hmatch : indexMatched w li ri = true) :
    nonmemverify self root w x = .ok true := by
  simp only [nonmemverify, hl, hr, hli, hri, hgood, hmatch, ok_bind]
  rfl

section Verdict
variable {H : MerkleHash} {k digest : Nat} {tree leaves : List Bytes}
variable (hc : Computed H k tree leaves)
include hc

theorem nonmemverify_of_neighbouring (data : Option (List Bytes))
    (w : SortedMerkleTreeNonMemWitness) (x : Bytes) (hk : 0 < k)
    (hn : NeighbouringLeaves ⟨tree, 2 ^ k, data⟩ leaves w) :
    nonmemverify ⟨H⟩ (label tree 0 0) w x = .ok true := by
  have hpos := Nat.two_pow_pos k
  obtain ⟨left, right⟩ := w
  cases left with
  | none =>
    cases right with
    | none => exact False.elim hn
    | some r =>
      obtain ⟨hp, hi, hm⟩ := side_of_authenticated hc hk hpos data hn
      have hgood : goodIndex ⟨none, some r⟩ (-1) ((0 : Nat) : Int) = .ok true := rfl
      have hmatch : indexMatched ⟨none, some r⟩ (-1) ((0 : Nat) : Int) = true := by
        simp only [indexMatched, hm, Bool.true_and, beq_self_eq_true]
      exact nonmemverify_of_sides rfl hp rfl hi hgood hmatch
  | some l =>
    cases right with
    | none =>
      have hlast : leaves.length - 1 < 2 ^ k := by
        rw [hc.leaves_length]
        omega
      obtain ⟨hp, hi, hm⟩ := side_of_authenticated hc hk hlast data hn
      have hlen : l.2.2.length = k := by
        rw [((authenticatedAt_iff hc hlast data).mp hn).2.2, toProof_length, path_length]
      have hcast : ((leaves.length - 1 : Nat) : Int) + 1 = 2 ^ k := by
        have : ((2 ^ k : Nat) : Int) = 2 ^ k := by norm_num
        rw [hc.leaves_length]
        omega
      have hgood : goodIndex ⟨some l, none⟩ ((leaves.length - 1 : Nat) : Int) (-1) = .ok true := by
        simp only [goodIndex]
        rw [if_neg (by omega), if_neg (by omega)]
        simp [hlen, hcast]
      have hmatch : indexMatched ⟨some l, none⟩ ((leaves.length - 1 : Nat) : Int) (-1) = true := by
        simp only [indexMatched, hm, Bool.and_true, beq_self_eq_true]
      exact nonmemverify_of_sides hp rfl hi rfl hgood hmatch
    | some r =>
      obtain ⟨p, hl, hr⟩ := hn
      have hq : p + 1 < 2 ^ k := by
        have h := hr.2.1
        by_contra hcon
        rw [List.getElem?_eq_none (by rw [hc.leaves_length]; omega)] at h
        cases h
      obtain ⟨hp, hi, hm⟩ := side_of_authenticated hc hk (by omega) data hl
      obtain ⟨hp', hi', hm'⟩ := side_of_authenticated hc hk hq data hr
      have hgood : goodIndex ⟨some l, some r⟩ (p : Int) ((p + 1 : Nat) : Int) = .ok true := by
        rw [goodIndex, if_pos (by omega)]
      have hmatch : indexMatched ⟨some l, some r⟩ (p : Int) ((p + 1 : Nat) : Int) = true := by
        simp only [indexMatched, hm, hm', beq_self_eq_true, Bool.and_self]
      exact nonmemverify_of_sides hp hp' hi hi' hgood hmatch

theorem neighbouring_of_right (data : Option (List Bytes)) {r : Int × Bytes × MerkleProof} {ri : Int}
    (hcf : CollisionFree H digest (treeInputs k tree leaves ++ proofInputs H r.2.1 r.2.2))
    (hproved : sideProved ⟨H⟩ (label tree 0 0) (some r) = .ok true)
    (hindex : sideIndex (some r) = .ok ri) (hgood : goodIndex ⟨none, some r⟩ (-1) ri = .ok true)
    (hmatch : indexMatched ⟨none, some r⟩ (-1) ri = true) :
    0 < k ∧ AuthenticatedAt ⟨tree, 2 ^ k, data⟩ leaves 0 r := by
  obtain ⟨hk, p, hp, rfl, hx, hproof⟩ := side_accepted hc hcf hproved hindex
  have hp0 : p = 0 := by
    simp only [goodIndex] at hgood
    split at hgood
    · omega
    · split at hgood
      · omega
      · cases hgood
  subst hp0
  simp only [indexMatched, Bool.true_and, beq_iff_eq] at hmatch
  exact ⟨hk, (authenticatedAt_iff hc hp data).mpr ⟨hmatch.symm, hx, hproof⟩⟩

theorem neighbouring_of_left (data : Option (List Bytes)) {l : Int × Bytes × MerkleProof} {li : Int}
    (hcf : CollisionFree H digest (treeInputs k tree leaves ++ proofInputs H l.2.1 l.2.2))
    (hproved : sideProved ⟨H⟩ (label tree 0 0) (some l) = .ok true)
    (hindex : sideIndex (some l) = .ok li) (hgood : goodIndex ⟨some l, none⟩ li (-1) = .ok true)
    (hmatch : indexMatched ⟨some l, none⟩ li (-1) = true) :
    0 < k ∧ AuthenticatedAt ⟨tree, 2 ^ k, data⟩ leaves (leaves.length - 1) l := by
  obtain ⟨hk, p, hp, rfl, hx, hproof⟩ := side_accepted hc hcf hproved hindex
  have hlast : p = leaves.length - 1 := by
    have hlen : l.2.2.length = k := by rw [hproof, toProof_length, path_length]
    simp only [goodIndex] at hgood
    rw [if_neg (by omega), if_neg (by omega)] at hgood
    simp only [hlen, Except.ok.injEq, decide_eq_true_eq, and_true] at hgood
    have hcast : ((2 ^ k : Nat) : Int) = 2 ^ k := by norm_num
    rw [hc.leaves_length]
    omega
  subst hlast
  simp only [indexMatched, Bool.and_true, beq_iff_eq] at hmatch
  exact ⟨hk, (authenticatedAt_iff hc hp data).mpr ⟨hmatch.symm, hx, hproof⟩⟩

theorem neighbouring_of_both (data : Option (List Bytes)) {l r : Int × Bytes × MerkleProof} {li ri : Int}
    (hcfl : CollisionFree H digest (treeInputs k tree leaves ++ proofInputs H l.2.1 l.2.2))
    (hcfr : CollisionFree H digest (treeInputs k tree leaves ++ proofInputs H r.2.1 r.2.2))
    (hlp : sideProved ⟨H⟩ (label tree 0 0) (some l) = .ok true)
    (hrp : sideProved ⟨H⟩ (label tree 0 0) (some r) = .ok true)
    (hli : sideIndex (some l) = .ok li) (hri : sideIndex (some r) = .ok ri)
    (hgood : goodIndex ⟨some l, some r⟩ li ri = .ok true)
    (hmatch : indexMatched ⟨some l, some r⟩ li ri = true) :
    0 < k ∧ ∃ p, AuthenticatedAt ⟨tree, 2 ^ k, data⟩ leaves p l ∧
      AuthenticatedAt ⟨tree, 2 ^ k, data⟩ leaves (p + 1) r := by
  obtain ⟨hk, p, hp, rfl, hx, hproof⟩ := side_accepted hc hcfl hlp hli
  obtain ⟨_, q, hq, rfl, hy, hproof'⟩ := side_accepted hc hcfr hrp hri
  have hnext : q = p + 1 := by
    simp only [goodIndex] at hgood
    split at hgood
    · omega
    · rw [if_neg (by omega)] at hgood
      simp only [Except.ok.injEq, decide_eq_true_eq] at hgood
      omega
  subst hnext
  simp only [indexMatched, Bool.and_eq_true, beq_iff_eq] at hmatch
  exact ⟨hk, p, (authenticatedAt_iff hc hp data).mpr ⟨hmatch.1.symm, hx, hproof⟩,
    (authenticatedAt_iff hc hq data).mpr ⟨hmatch.2.symm, hy, hproof'⟩⟩

/-- Exactly the neighbouring leaves of a tree with at least two leaves are accepted;
the value that is tested plays no part. -/
theorem nonmemverify_eq_true_iff (data : Option (List Bytes))
    (w : SortedMerkleTreeNonMemWitness) (x : Bytes)
    (hcf : CollisionFree H digest (treeInputs k tree leaves ++ witnessInputs H w)) :
    nonmemverify ⟨H⟩ (label tree 0 0) w x = .ok true ↔
      0 < k ∧ NeighbouringLeaves ⟨tree, 2 ^ k, data⟩ leaves w := by
  constructor
  · intro h
    obtain ⟨left, right⟩ := w
    obtain ⟨lp, hlp, h⟩ := bind_eq_ok_iff.mp h
    obtain ⟨rp, hrp, h⟩ := bind_eq_ok_iff.mp h
    obtain ⟨li, hli, h⟩ := bind_eq_ok_iff.mp h
    obtain ⟨ri, hri, h⟩ := bind_eq_ok_iff.mp h
    obtain ⟨good, hgood, h⟩ := bind_eq_ok_iff.mp h
    simp only [pure, Except.pure, Except.ok.injEq, Bool.and_eq_true] at h
    obtain ⟨⟨⟨rfl, rfl⟩, rfl⟩, hmatch⟩ := h
    cases left with
    | none =>
      cases right with
      | none =>
        cases hli
        cases hri
        exact absurd hgood (by decide)
      | some r =>
        cases hli
        exact neighbouring_of_right hc data (hcf.mono (by simp [witnessInputs])) hrp hri hgood hmatch
    | some l =>
      cases right with
      | none =>
        cases hri
        exact neighbouring_of_left hc data (hcf.mono (by simp [witnessInputs])) hlp hli hgood hmatch
      | some r =>
        exact neighbouring_of_both hc data (hcf.mono (by simp [witnessInputs]))
          (hcf.mono (by simp [witnessInputs])) hlp hrp hli hri hgood hmatch
  · rintro ⟨hk, hn⟩
    exact nonmemverify_of_neighbouring hc data w x hk hn

end Verdict

/-- `nonmemverify` never looks at `x`: it is sound for `x` exactly when `x` is absent or the
witness is not one of the witnesses it accepts for every value. -/
theorem nonmemverify_sound_iff {H : MerkleHash} {digest : Nat} {X : List Bytes} {mkt : MerkleTree}
    {index_map : List Nat} {root : Bytes} (w : SortedMerkleTreeNonMemWitness) (x : Bytes)
    (hX : X ≠ []) (hacc : accumulate ⟨H⟩ X = .ok (mkt, index_map))
    (hroot : getAccval ⟨H⟩ (mkt, index_map) = .ok root)
    (hcf : CollisionFree H digest (hashedInputs H X mkt w)) :
    (nonmemverify ⟨H⟩ root w x = .ok true → x ∉ X) ↔
      x ∉ X ∨ (storedLeaves X).length = 1 ∨ ¬ NeighbouringLeaves mkt (storedLeaves X) w := by
  obtain ⟨k, tree, hc, hfrom⟩ := fromData_eq (H := H) (sortedData_ne_nil hX)
  have hmkt : mkt = ⟨tree, 2 ^ k, some (storedLeaves X)⟩ := by
    unfold accumulate at hacc
    rw [hfrom] at hacc
    simp only [ok_bind, pure, Except.pure, Except.ok.injEq, Prod.mk.injEq] at hacc
    exact hacc.1.symm
  subst hmkt
  have hr : root = label tree 0 0 := by
    have h := hroot.symm.trans (hc.root_eq (2 ^ k) (some (storedLeaves X)))
    simpa using h
  subst hr
  have hlog : (storedLeaves X).length.log2 = k := by
    rw [show (storedLeaves X).length = 2 ^ k from hc.leaves_length, Nat.log2_two_pow]
  unfold hashedInputs at hcf
  rw [hlog] at hcf
  have hone : (storedLeaves X).length = 1 ↔ ¬ 0 < k := by
    rw [show (storedLeaves X).length = 2 ^ k from hc.leaves_length, Nat.pow_eq_one]
    omega
  rw [nonmemverify_eq_true_iff hc (some (storedLeaves X)) w x hcf, hone]
  constructor
  · intro h
    by_cases hx : x ∈ X
    · right
      by_contra hcon
      push Not at hcon
      exact h ⟨hcon.1, hcon.2⟩ hx
    · exact Or.inl hx
  · rintro (h | h | h) ⟨hk, hn⟩
    · exact h
    · exact absurd hk h
    · exact absurd hn h

/-! ### Two leaves and their own witness -/

/-- A one byte digest, free of collisions on the strings of the run below. -/
def byteHash : MerkleHash where
  hashfn u := [u.foldl (fun h b => 3 * h + b + 1) 0]

/-- The witness that `nonmemwitgen` answers for a value between `[1]` and `[2]`. -/
def betweenWitness : SortedMerkleTreeNonMemWitness where
  left := some (0, [1], [("R", byteHash.hashLeaf [2])])
  right := some (1, [2], [("L", byteHash.hashLeaf [1])])

def pairTree : MerkleTree where
  tree := [byteHash.hashNode (byteHash.hashLeaf [1]) (byteHash.hashLeaf [2]),
    byteHash.hashLeaf [1], byteHash.hashLeaf [2]]
  lendata := 2
  data := some [[1], [2]]

theorem byteHash_collisionFree :
    CollisionFree byteHash 1 (hashedInputs byteHash [[1], [2]] pairTree betweenWitness) :=
  ⟨fun _ => rfl, by decide⟩

theorem accumulate_pair : accumulate ⟨byteHash⟩ [[1], [2]] = .ok (pairTree, [0, 1]) := by decide

theorem getAccval_pair :
    getAccval ⟨byteHash⟩ (pairTree, [0, 1]) = .ok pairTree.tree.headI := by decide

/-- The leaf `[1]` is accepted as absent. -/
theorem nonmemverify_accepts_leaf :
    ∃ (H : MerkleHash) (digest : Nat) (X : List Bytes) (mkt : MerkleTree) (index_map : List Nat)
      (root : Bytes) (w : SortedMerkleTreeNonMemWitness) (x : Bytes),
      X ≠ [] ∧ accumulate ⟨H⟩ X = .ok (mkt, index_map) ∧
      getAccval ⟨H⟩ (mkt, index_map) = .ok root ∧
      CollisionFree H digest (hashedInputs H X mkt w) ∧
      nonmemverify ⟨H⟩ root w x = .ok true ∧ x ∈ X :=
  ⟨byteHash, 1, [[1], [2]], pairTree, [0, 1], pairTree.tree.headI, betweenWitness, [1], by decide,
    accumulate_pair, getAccval_pair, byteHash_collisionFree, by decide, by decide⟩

/-- A value outside the set is a case in which the verdict is sound. -/
theorem nonmemverify_sound_between :
    nonmemverify ⟨byteHash⟩ pairTree.tree.headI betweenWitness [1, 7] = .ok true ∧
      ([1, 7] : Bytes) ∉ ([[1], [2]] : List Bytes) := by
  have haccept : nonmemverify ⟨byteHash⟩ pairTree.tree.headI betweenWitness [1, 7] = .ok true := by
    decide
  refine ⟨haccept, ?_⟩
  exact (nonmemverify_sound_iff betweenWitness [1, 7] (by decide) accumulate_pair getAccval_pair
    byteHash_collisionFree).mpr (Or.inl (by decide)) haccept

end SortedMerkleTreeAccumulator

end Lootbox.Headstart

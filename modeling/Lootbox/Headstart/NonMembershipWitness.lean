import Lootbox.Base.BinarySearch
import Lootbox.Headstart.MerkleMembership
import Lootbox.Headstart.MerkleWitnesses

/-!
# `acc/merkle_tree.py`: the witness that `nonmemwitgen` finds

The search runs over the padded leaves, and the padding behind the largest element is the smallest
byte string.
-/

namespace Lootbox.Headstart.SortedMerkleTreeAccumulator

open BinarySearch HashTree MerkleTree

/-- `data[mid] < x` -/
def leafBelow (data : List Bytes) (x : Bytes) (mid : Nat) : Bool := !bytesLe x (data[mid]?.getD [])

/-- `bisect.bisect_left(data, x)` -/
def bisectLeft (data : List Bytes) (x : Bytes) : Nat :=
  bisect (leafBelow data x) data.length 0 data.length

/-- `(i, mkt.data[i], mkt.get_proof(i)) if present else None` -/
def sideAt (mkt : MerkleTree) (data : List Bytes) (present : Bool) (i : Nat) :
    Except PyError (Option (Int × Bytes × MerkleProof)) :=
  if present then do
    let y ← need .indexError data[i]?
    let proof ← mkt.getProof i
    return some ((i : Int), y, proof)
  else .ok none

def nonmemwitgen (_self : SortedMerkleTreeAccumulator) (acc : MerkleTree × List Nat)
    (X : List Bytes) (x : Bytes) : Except PyError SortedMerkleTreeNonMemWitness := do
  if x ∈ X then throw (.valueError "x is already in X")
  let (mkt, _) := acc
  let data ← need .assertionError mkt.data
  let index := bisectLeft data x
  let left ← sideAt mkt data (0 < index) (index - 1)
  let right ← sideAt mkt data (index < data.length) index
  return ⟨left, right⟩

/-! ### Neighbours -/

/-- The left leaf is the greatest element below `x`, and the right one the least above it. -/
structure Surrounds (X : List Bytes) (x : Bytes) (w : SortedMerkleTreeNonMemWitness) : Prop where
  left : match w.left with
    | some (_, y, _) => y ∈ X ∧ bytesLe x y = false ∧ ∀ z ∈ X, bytesLe x z = false → bytesLe z y = true
    | none => ∀ z ∈ X, bytesLe x z = true
  right : match w.right with
    | some (i, y, _) =>
      if i < X.length then
        y ∈ X ∧ bytesLe y x = false ∧ ∀ z ∈ X, bytesLe z x = false → bytesLe y z = true
      else ∀ z ∈ X, bytesLe z x = true
    | none => ∀ z ∈ X, bytesLe z x = true

/-- `x` gets a witness with its neighbours, and the witness is accepted. -/
def WitnessedAbsent (self : SortedMerkleTreeAccumulator) (X : List Bytes) (x : Bytes) : Prop :=
  ∃ acc root w, self.accumulate X = .ok acc ∧ self.getAccval acc = .ok root ∧
    self.nonmemwitgen acc X x = .ok w ∧ Surrounds X x w ∧ self.nonmemverify root w x = .ok true

/-! ### The witness at a position -/

section Witness

variable {H : MerkleHash} {k : Nat} {tree leaves : List Bytes}

/-- The leaf at position `i` with its path. -/
def sideOf (k : Nat) (tree leaves : List Bytes) (i : Nat) : Int × Bytes × MerkleProof :=
  (i, leaves[i]?.getD [], toProof (path (label tree) k i))

/-- The leaves on both sides of the gap before position `r`. -/
def witnessAt (k : Nat) (tree leaves : List Bytes) (r : Nat) : SortedMerkleTreeNonMemWitness where
  left := if 0 < r then some (sideOf k tree leaves (r - 1)) else none
  right := if r < 2 ^ k then some (sideOf k tree leaves r) else none

variable (hc : Computed H k tree leaves)
include hc

theorem leaves_getElem? {i : Nat} (hi : i < 2 ^ k) : leaves[i]? = some (leaves[i]?.getD []) := by
  rw [List.getElem?_eq_getElem (by rw [hc.leaves_length]; exact hi), Option.getD_some]

theorem sideAt_eq (present : Bool) (i : Nat) (hi : present = true → i < 2 ^ k)
    (data : Option (List Bytes)) : sideAt ⟨tree, 2 ^ k, data⟩ leaves present i =
      .ok (if present then some (sideOf k tree leaves i) else none) := by
  rw [sideAt]
  split
  · rename_i hpresent
    rw [leaves_getElem? hc (hi hpresent), need, ok_bind, hc.getProof_eq data (hi hpresent)]
    rfl
  · rfl

theorem authenticatedAt_sideOf {i : Nat} (hi : i < 2 ^ k) (data : Option (List Bytes)) :
    AuthenticatedAt ⟨tree, 2 ^ k, data⟩ leaves i (sideOf k tree leaves i) :=
  ⟨rfl, leaves_getElem? hc hi, hc.getProof_eq data hi⟩

theorem bisectLeft_le (x : Bytes) : bisectLeft leaves x ≤ 2 ^ k := by
  rw [bisectLeft, hc.leaves_length]
  exact bisect_le (Nat.zero_le _)

theorem nonmemwitgen_eq (self : SortedMerkleTreeAccumulator) {X : List Bytes} {x : Bytes}
    (hx : x ∉ X) (index_map : List Nat) :
    self.nonmemwitgen (⟨tree, 2 ^ k, some leaves⟩, index_map) X x =
      .ok (witnessAt k tree leaves (bisectLeft leaves x)) := by
  have hpos := Nat.two_pow_pos k
  have hle := bisectLeft_le hc x
  have hleft := sideAt_eq hc (0 < bisectLeft leaves x) (bisectLeft leaves x - 1) (fun _ => by omega)
    (some leaves)
  have hright := sideAt_eq hc (bisectLeft leaves x < 2 ^ k) (bisectLeft leaves x)
    (fun h => of_decide_eq_true h) (some leaves)
  simp only [nonmemwitgen, if_neg hx, need, ok_bind, hc.leaves_length, hleft, hright,
    decide_eq_true_eq]
  rfl

theorem witnessAt_neighbouring {r : Nat} (hr : r ≤ 2 ^ k) (data : Option (List Bytes)) :
    NeighbouringLeaves ⟨tree, 2 ^ k, data⟩ leaves (witnessAt k tree leaves r) := by
  have hpos := Nat.two_pow_pos k
  rw [NeighbouringLeaves, witnessAt]
  rcases Nat.eq_zero_or_pos r with rfl | hr_pos
  · rw [if_neg (Nat.lt_irrefl 0), if_pos hpos]
    exact authenticatedAt_sideOf hc hpos data
  · rw [if_pos hr_pos]
    rcases Nat.lt_or_eq_of_le hr with hlt | rfl
    · rw [if_pos hlt]
      refine ⟨r - 1, authenticatedAt_sideOf hc (by omega) data, ?_⟩
      rw [Nat.sub_add_cancel hr_pos]
      exact authenticatedAt_sideOf hc hlt data
    · rw [if_neg (Nat.lt_irrefl _)]
      dsimp only
      rw [hc.leaves_length]
      exact authenticatedAt_sideOf hc (by omega) data

theorem nonmemverify_witnessAt {r : Nat} (hr : r ≤ 2 ^ k) (x : Bytes) :
    nonmemverify ⟨H⟩ (label tree 0 0) (witnessAt k tree leaves r) x = .ok true ↔ 0 < k := by
  constructor
  · intro h
    by_contra hcon
    obtain rfl : k = 0 := by omega
    obtain ⟨_, _, h⟩ := bind_eq_ok_iff.mp h
    obtain ⟨_, _, h⟩ := bind_eq_ok_iff.mp h
    obtain ⟨li, hli, h⟩ := bind_eq_ok_iff.mp h
    obtain ⟨ri, hri, _⟩ := bind_eq_ok_iff.mp h
    rw [witnessAt] at hli hri
    rcases Nat.eq_zero_or_pos r with rfl | hr_pos
    · cases hri
    · rw [if_pos hr_pos] at hli
      cases hli
  · intro hk
    exact nonmemverify_of_neighbouring hc none _ x hk (witnessAt_neighbouring hc hr none)

end Witness

/-! ### The boundary -/

section Boundary

variable {S X : List Bytes} {x : Bytes}

/-- The first `c` entries lie below `x`, and all others above. -/
structure Boundary (S : List Bytes) (x : Bytes) (c : Nat) : Prop where
  le : c ≤ S.length
  before : ∀ i y, i < c → S[i]? = some y → bytesLe x y = false
  after : ∀ i y, c ≤ i → S[i]? = some y → bytesLe y x = false

theorem bytesLe_of_not {x y : Bytes} (h : bytesLe x y = false) : bytesLe y x = true := by
  rcases bytesLe_total x y with hxy | hyx
  · rw [h] at hxy
    cases hxy
  · exact hyx

theorem exists_boundary (hS : S.Pairwise fun x y => bytesLe x y = true) (hx : x ∉ S) :
    ∃ c, Boundary S x c := by
  induction S with
  | nil =>
    exact ⟨0, le_rfl, fun i _ hi => absurd hi (Nat.not_lt_zero i), fun _ _ _ h => nomatch h⟩
  | cons a S ih =>
    rw [List.pairwise_cons] at hS
    rw [List.mem_cons, not_or] at hx
    cases hxa : bytesLe x a with
    | true =>
      refine ⟨0, Nat.zero_le _, fun i _ hi => absurd hi (Nat.not_lt_zero i), ?_⟩
      intro i y _ hy
      have hay : bytesLe a y = true := by
        rcases List.mem_cons.mp (List.mem_of_getElem? hy) with rfl | hmem
        · exact bytesLe_refl y
        · exact hS.1 y hmem
      have hxy := bytesLe_trans hxa hay
      have hne : x ≠ y := by
        rintro rfl
        rcases List.mem_cons.mp (List.mem_of_getElem? hy) with heq | hmem
        · exact hx.1 heq
        · exact hx.2 hmem
      cases hyx : bytesLe y x with
      | true => exact absurd (bytesLe_antisymm hxy hyx) hne
      | false => rfl
    | false =>
      obtain ⟨c, hle, hbefore, hafter⟩ := ih hS.2 hx.2
      refine ⟨c + 1, Nat.succ_le_succ hle, ?_, ?_⟩
      · intro i y hi hy
        cases i with
        | zero =>
          cases hy
          exact hxa
        | succ i => exact hbefore i y (Nat.lt_of_succ_lt_succ hi) hy
      · intro i y hi hy
        cases i with
        | zero => omega
        | succ i => exact hafter i y (Nat.le_of_succ_le_succ hi) hy

theorem sortedData_le {i j : Nat} {y z : Bytes} (hij : i ≤ j) (hy : (sortedData X)[i]? = some y)
    (hz : (sortedData X)[j]? = some z) : bytesLe y z = true := by
  rcases Nat.lt_or_eq_of_le hij with hlt | rfl
  · obtain ⟨hi, rfl⟩ := List.getElem?_eq_some_iff.mp hy
    obtain ⟨hj, rfl⟩ := List.getElem?_eq_some_iff.mp hz
    exact List.pairwise_iff_getElem.mp (sortedData_pairwise X) i j hi hj hlt
  · cases hy.symm.trans hz
    exact bytesLe_refl y

theorem mem_iff_sortedData {z : Bytes} : z ∈ X ↔ ∃ i : Nat, (sortedData X)[i]? = some z := by
  rw [← (sortedData_perm X).mem_iff, List.mem_iff_getElem?]

section Stored

variable {k c : Nat} (hlen : (storedLeaves X).length = 2 ^ k) (hb : Boundary (sortedData X) x c)
include hb

omit hb in
theorem storedLeaves_getElem? {i : Nat} (hi : i < X.length) :
    ∃ y, (sortedData X)[i]? = some y ∧ (storedLeaves X)[i]? = some y := by
  have hy := List.getElem?_eq_getElem (show i < (sortedData X).length by rwa [length_sortedData])
  exact ⟨_, hy, padData_getElem? hy⟩

theorem Boundary.le_length : c ≤ X.length := by
  rw [← length_sortedData]
  exact hb.le

theorem leafBelow_before {i : Nat} (hi : i < c) : leafBelow (storedLeaves X) x i = true := by
  obtain ⟨y, hy, hleaf⟩ := storedLeaves_getElem? (hi.trans_le hb.le_length)
  rw [leafBelow, hleaf, Option.getD_some, hb.before i y hi hy]
  rfl

theorem leafBelow_after {i : Nat} (hci : c ≤ i) (hi : i < X.length) :
    leafBelow (storedLeaves X) x i = false := by
  obtain ⟨y, hy, hleaf⟩ := storedLeaves_getElem? hi
  rw [leafBelow, hleaf, Option.getD_some, bytesLe_of_not (hb.after i y hci hy)]
  rfl

omit hb in
include hlen in
theorem storedLeaves_pad {i : Nat} (hi : X.length ≤ i) (hlt : i < 2 ^ k) :
    (storedLeaves X)[i]? = some [] := by
  apply MerkleTreeAccumulator.padData_getElem?_of_le
  · rwa [length_sortedData]
  · rwa [← hlen] at hlt

omit hb in
include hlen in
theorem leafBelow_pad {i : Nat} (hx : x ≠ []) (hi : X.length ≤ i) (hlt : i < 2 ^ k) :
    leafBelow (storedLeaves X) x i = true := by
  rw [leafBelow, storedLeaves_pad hlen hi hlt, Option.getD_some]
  cases x with
  | nil => exact absurd rfl hx
  | cons a x => rfl

omit hb in
include hlen in
theorem length_le_of_stored : X.length ≤ 2 ^ k := by
  obtain ⟨n, hn⟩ := padData_prefix (sortedData X)
  have h := congrArg List.length hn
  rw [List.length_append, length_sortedData] at h
  have hlen' : (padData (sortedData X)).length = 2 ^ k := hlen
  omega

theorem lt_boundary_iff {i : Nat} {z : Bytes} (hz : (sortedData X)[i]? = some z) :
    i < c ↔ bytesLe x z = false := by
  constructor
  · exact fun hi => hb.before i z hi hz
  · intro hxz
    by_contra hcon
    have hzx := hb.after i z (Nat.le_of_not_lt hcon) hz
    rw [bytesLe_of_not hxz] at hzx
    cases hzx

theorem boundary_le_iff {i : Nat} {z : Bytes} (hz : (sortedData X)[i]? = some z) :
    c ≤ i ↔ bytesLe z x = false := by
  constructor
  · exact fun hi => hb.after i z hi hz
  · intro hzx
    by_contra hcon
    have hxz := hb.before i z (Nat.lt_of_not_le hcon) hz
    rw [bytesLe_of_not hzx] at hxz
    cases hxz

theorem greatest_below {y : Bytes} (hc : 0 < c) (hy : (sortedData X)[c - 1]? = some y) :
    y ∈ X ∧ bytesLe x y = false ∧ ∀ z ∈ X, bytesLe x z = false → bytesLe z y = true := by
  refine ⟨mem_iff_sortedData.mpr ⟨_, hy⟩, hb.before _ y (by omega) hy, ?_⟩
  intro z hz hxz
  obtain ⟨i, hi⟩ := mem_iff_sortedData.mp hz
  have hlt := (lt_boundary_iff hb hi).mpr hxz
  exact sortedData_le (by omega) hi hy

theorem least_above {y : Bytes} (hy : (sortedData X)[c]? = some y) :
    y ∈ X ∧ bytesLe y x = false ∧ ∀ z ∈ X, bytesLe z x = false → bytesLe y z = true := by
  refine ⟨mem_iff_sortedData.mpr ⟨_, hy⟩, hb.after _ y le_rfl hy, ?_⟩
  intro z hz hzx
  obtain ⟨i, hi⟩ := mem_iff_sortedData.mp hz
  exact sortedData_le ((boundary_le_iff hb hi).mpr hzx) hy hi

theorem none_below (hc : c = 0) : ∀ z ∈ X, bytesLe x z = true := by
  intro z hz
  obtain ⟨i, hi⟩ := mem_iff_sortedData.mp hz
  exact bytesLe_of_not (hb.after i z (by omega) hi)

theorem none_above (hc : c = X.length) : ∀ z ∈ X, bytesLe z x = true := by
  intro z hz
  obtain ⟨i, hi⟩ := mem_iff_sortedData.mp hz
  have hlt := (List.getElem?_eq_some_iff.mp hi).1
  rw [length_sortedData] at hlt
  exact bytesLe_of_not (hb.before i z (by omega) hi)

include hlen in
theorem surrounds_witnessAt (tree : List Bytes) :
    Surrounds X x (witnessAt k tree (storedLeaves X) c) := by
  have hle := hb.le_length
  have hle_k := length_le_of_stored hlen
  constructor
  · rw [witnessAt]
    by_cases hpos : 0 < c
    · obtain ⟨y, hy, hleaf⟩ := storedLeaves_getElem? (show c - 1 < X.length by omega)
      simp only [if_pos hpos, sideOf, hleaf, Option.getD_some]
      exact greatest_below hb hpos hy
    · simp only [if_neg hpos]
      exact none_below hb (by omega)
  · rw [witnessAt]
    by_cases hlt : c < X.length
    · obtain ⟨y, hy, hleaf⟩ := storedLeaves_getElem? hlt
      simp only [if_pos (hlt.trans_le hle_k), sideOf, hleaf, Option.getD_some]
      rw [if_pos (by exact_mod_cast hlt)]
      exact least_above hb hy
    · have habove := none_above hb (show c = X.length by omega)
      by_cases hck : c < 2 ^ k
      · simp only [if_pos hck, sideOf]
        rw [if_neg (by exact_mod_cast hlt)]
        exact habove
      · simp only [if_neg hck]
        exact habove

omit hb in
include hlen in
/-- The last padding leaf stands for the greatest element only if every element is empty. -/
theorem surrounds_last_iff (tree : List Bytes) (hx : x ≠ []) (hne : X ≠ []) (hX : x ∉ X)
    (hlt : X.length < 2 ^ k) :
    Surrounds X x (witnessAt k tree (storedLeaves X) (2 ^ k)) ↔ ∀ y ∈ X, y = [] := by
  have hleaf := storedLeaves_pad hlen (show X.length ≤ 2 ^ k - 1 by omega) (by omega)
  have hw : witnessAt k tree (storedLeaves X) (2 ^ k) =
      ⟨some (((2 ^ k - 1 : Nat) : Int), [], toProof (path (label tree) k (2 ^ k - 1))), none⟩ := by
    rw [witnessAt, if_pos (Nat.two_pow_pos k), if_neg (Nat.lt_irrefl _), sideOf, hleaf,
      Option.getD_some]
  rw [hw]
  constructor
  · rintro ⟨⟨_, _, hgreatest⟩, habove⟩ y hy
    have hne_xy : x ≠ y := fun heq => hX (heq ▸ hy)
    have hxy : bytesLe x y = false := by
      cases h : bytesLe x y with
      | true => exact absurd (bytesLe_antisymm h (habove y hy)) hne_xy
      | false => rfl
    exact bytesLe_antisymm (hgreatest y hy hxy) rfl
  · intro hempty
    have hx_nil : bytesLe x [] = false := by
      cases x with
      | nil => exact absurd rfl hx
      | cons a x => rfl
    obtain ⟨y, hy⟩ := List.exists_mem_of_ne_nil X hne
    refine ⟨⟨hempty y hy ▸ hy, hx_nil, ?_⟩, ?_⟩
    · intro z hz _
      rw [hempty z hz]
      rfl
    · intro z hz
      rw [hempty z hz]
      rfl

/-! ### Where the search ends -/

include hlen in
theorem bisectLeft_of_power (hpower : X.length = 2 ^ k) : bisectLeft (storedLeaves X) x = c := by
  rw [bisectLeft, hlen]
  exact bisect_eq_boundary (by omega) (Nat.zero_le c) (hpower ▸ hb.le_length)
    (fun i _ hi => leafBelow_before hb hi) (fun i hc hi => leafBelow_after hb hc (hpower ▸ hi))

include hlen in
theorem bisectLeft_of_nil (hx : x = []) : bisectLeft (storedLeaves X) x = c ∧ c = 0 := by
  have hbelow : ∀ i, leafBelow (storedLeaves X) x i = false := by
    intro i
    rw [leafBelow, hx]
    rfl
  have hc : c = 0 := by
    by_contra hcon
    have h := leafBelow_before hb (Nat.pos_of_ne_zero hcon)
    rw [hbelow] at h
    cases h
  refine ⟨?_, hc⟩
  rw [bisectLeft, hlen]
  exact bisect_eq_boundary (by omega) (Nat.zero_le c) (by omega) (fun i _ hi => by omega)
    (fun i _ _ => hbelow i)

include hlen in
theorem bisectLeft_of_left (hk : 0 < k) (hx : x ≠ [])
    (hleft : ∃ i < k, leafBelow (storedLeaves X) x (2 ^ k - 2 ^ i) = false) :
    bisectLeft (storedLeaves X) x = c := by
  rw [bisectLeft, hlen]
  exact bisect_one_left (by omega) (Rightmost.init hk) (Nat.zero_le c)
    (fun i hi => leafBelow_before hb hi) (fun i hc hi => leafBelow_after hb hc hi)
    (fun i hi hlt => leafBelow_pad hlen hx hi hlt) hleft

omit hb in
include hlen in
theorem bisectLeft_of_right (hk : 0 < k)
    (hright : ∀ i < k, leafBelow (storedLeaves X) x (2 ^ k - 2 ^ i) = true) :
    bisectLeft (storedLeaves X) x = 2 ^ k := by
  rw [bisectLeft, hlen]
  exact bisect_all_right (by omega) (Rightmost.init hk) hright

end Stored

end Boundary

/-! ### When the witness is right -/

section Absent

variable {X : List Bytes} {x : Bytes}

theorem witnessedAbsent_iff_surrounds (self : SortedMerkleTreeAccumulator) (hX : X ≠ [])
    (hx : x ∉ X) : ∃ k tree, (storedLeaves X).length = 2 ^ k ∧ (WitnessedAbsent self X x ↔
      Surrounds X x (witnessAt k tree (storedLeaves X) (bisectLeft (storedLeaves X) x)) ∧ 0 < k) := by
  obtain ⟨k, tree, hc, hacc⟩ := exists_accumulate self hX
  have hroot : self.getAccval (⟨tree, 2 ^ k, some (storedLeaves X)⟩, indexMap X) =
      .ok (label tree 0 0) := hc.root_eq _ _
  have hwitgen := nonmemwitgen_eq hc self hx (indexMap X)
  have hverify := nonmemverify_witnessAt hc (bisectLeft_le hc x) x
  refine ⟨k, tree, hc.leaves_length, ?_⟩
  constructor
  · rintro ⟨acc, root, w, hacc', hroot', hw, hsurrounds, haccept⟩
    cases hacc.symm.trans hacc'
    cases hroot.symm.trans hroot'
    cases hwitgen.symm.trans hw
    exact ⟨hsurrounds, hverify.mp haccept⟩
  · rintro ⟨hsurrounds, hk⟩
    exact ⟨_, _, _, hacc, hroot, hwitgen, hsurrounds, hverify.mpr hk⟩

theorem storedLeaves_length {k : Nat} (hX : X ≠ []) (hlen : (storedLeaves X).length = 2 ^ k) :
    X.length = 2 ^ k ∨
      ((¬ ∃ j, X.length = 2 ^ j) ∧ k = X.length.size ∧ X.length < 2 ^ k ∧ 2 ^ (k - 1) < X.length) := by
  have hlt := MerkleTreeAccumulator.length_lt_padData_iff (sortedData_ne_nil hX)
  have hle := length_le_of_stored hlen
  have hlen' : (padData (sortedData X)).length = 2 ^ k := hlen
  rw [hlen', length_sortedData] at hlt
  rcases Nat.lt_or_eq_of_le hle with hless | heq
  · right
    have hno := hlt.mp hless
    have hsize : k = X.length.size := by
      have hnot : ¬ isPowerOfTwo X.length = true := by
        rw [isPowerOfTwo_iff, not_or]
        exact ⟨(List.length_pos_of_ne_nil hX).ne', hno⟩
      have hpad := Nat.lt_size_self X.length
      rw [padData, length_sortedData, if_neg hnot, List.length_append, List.length_replicate,
        length_sortedData] at hlen'
      exact Nat.pow_right_injective le_rfl (show 2 ^ k = 2 ^ X.length.size by omega)
    have hpos : 0 < X.length.size := Nat.size_pos.mpr (List.length_pos_of_ne_nil hX)
    have hlower : 2 ^ (k - 1) ≤ X.length := Nat.lt_size.mp (by omega)
    refine ⟨hno, hsize, hless, lt_of_le_of_ne hlower ?_⟩
    exact fun heq => hno ⟨k - 1, heq.symm⟩
  · exact Or.inl heq

/-- A middle that the search compares lies above `x` exactly where it turns left. -/
theorem leafBelow_eq_false_iff {k i : Nat} (hlen : (storedLeaves X).length = 2 ^ k) (hx : x ∉ X)
    (hx_ne : x ≠ []) (hi : i < 2 ^ k) : leafBelow (storedLeaves X) x i = false ↔
      ∃ y, (sortedData X)[i]? = some y ∧ bytesLe y x = false := by
  rcases Nat.lt_or_ge i X.length with hlt | hge
  · obtain ⟨y, hy, hleaf⟩ := storedLeaves_getElem? hlt
    have hne : x ≠ y := fun heq => hx (heq ▸ mem_iff_sortedData.mpr ⟨i, hy⟩)
    rw [leafBelow, hleaf, Option.getD_some, Bool.not_eq_false']
    constructor
    · intro hxy
      refine ⟨y, hy, ?_⟩
      cases hyx : bytesLe y x with
      | true => exact absurd (bytesLe_antisymm hxy hyx) hne
      | false => rfl
    · rintro ⟨z, hz, hzx⟩
      cases hy.symm.trans hz
      exact bytesLe_of_not hzx
  · rw [leafBelow_pad hlen hx_ne hge hi]
    constructor
    · intro h
      cases h
    · rintro ⟨y, hy, _⟩
      have hlt := (List.getElem?_eq_some_iff.mp hy).1
      rw [length_sortedData] at hlt
      omega

/-- A witness with the neighbours of `x` is found and accepted where there is no padding, where the
search turns left before it reaches the padding, and where padding cannot be told from the elements;
a single leaf is never accepted. -/
theorem witnessedAbsent_iff (self : SortedMerkleTreeAccumulator) (hX : X ≠ []) (hx : x ∉ X) :
    WitnessedAbsent self X x ↔ 2 ≤ X.length ∧
      ((∃ k, X.length = 2 ^ k) ∨
        (∃ i < X.length.size, ∃ y, (sortedData X)[2 ^ X.length.size - 2 ^ i]? = some y ∧
          bytesLe y x = false) ∨
        ∀ y ∈ X, y = []) := by
  obtain ⟨k, tree, hlen, hiff⟩ := witnessedAbsent_iff_surrounds self hX hx
  have hx_sorted : x ∉ sortedData X := fun h => hx ((sortedData_perm X).mem_iff.mp h)
  obtain ⟨c, hb⟩ := exists_boundary (sortedData_pairwise X) hx_sorted
  have hsurrounds := surrounds_witnessAt hlen hb tree
  rw [hiff]
  rcases storedLeaves_length hX hlen with hpower | ⟨hno, rfl, hlt, hlower⟩
  · -- no padding
    rw [bisectLeft_of_power hlen hb hpower, and_iff_right hsurrounds]
    have hk : 0 < k ↔ 2 ≤ X.length := by
      rw [hpower]
      constructor
      · exact fun hk => Nat.le_self_pow hk.ne' 2
      · intro h
        by_contra hcon
        obtain rfl : k = 0 := by omega
        omega
    rw [hk, and_iff_left (Or.inl ⟨k, hpower⟩)]
  · have hk : 0 < X.length.size := Nat.size_pos.mpr (List.length_pos_of_ne_nil hX)
    have hpow : 2 ^ X.length.size = 2 * 2 ^ (X.length.size - 1) := by
      rw [← Nat.pow_succ', Nat.succ_eq_add_one, Nat.sub_add_cancel hk]
    have htwo : 2 ≤ X.length := by
      have := Nat.two_pow_pos (X.length.size - 1)
      omega
    rw [and_iff_left hk, and_iff_right htwo, or_iff_right hno]
    by_cases hx_nil : x = []
    · -- the first middle lies above the empty string
      obtain ⟨hfound, _⟩ := bisectLeft_of_nil hlen hb hx_nil
      rw [hfound]
      refine iff_of_true hsurrounds (Or.inl ⟨X.length.size - 1, by omega, ?_⟩)
      obtain ⟨y, hy, _⟩ := storedLeaves_getElem?
        (show 2 ^ X.length.size - 2 ^ (X.length.size - 1) < X.length by omega)
      refine ⟨y, hy, ?_⟩
      have hne : y ≠ [] := fun heq => hx (hx_nil ▸ heq ▸ mem_iff_sortedData.mpr ⟨_, hy⟩)
      rw [hx_nil]
      cases y with
      | nil => exact absurd rfl hne
      | cons a y => rfl
    · have hturn : ∀ i, leafBelow (storedLeaves X) x (2 ^ X.length.size - 2 ^ i) = false ↔
          ∃ y, (sortedData X)[2 ^ X.length.size - 2 ^ i]? = some y ∧ bytesLe y x = false := by
        intro i
        have := Nat.two_pow_pos i
        have := Nat.two_pow_pos X.length.size
        exact leafBelow_eq_false_iff hlen hx hx_nil (by omega)
      simp only [← hturn]
      by_cases hleft : ∃ i < X.length.size,
          leafBelow (storedLeaves X) x (2 ^ X.length.size - 2 ^ i) = false
      · rw [bisectLeft_of_left hlen hb hk hx_nil hleft]
        exact iff_of_true hsurrounds (Or.inl hleft)
      · have hright : ∀ i < X.length.size,
            leafBelow (storedLeaves X) x (2 ^ X.length.size - 2 ^ i) = true := by
          intro i hi
          exact Bool.eq_true_of_not_eq_false fun h => hleft ⟨i, hi, h⟩
        rw [bisectLeft_of_right hlen hk hright, or_iff_right hleft]
        exact surrounds_last_iff hlen tree hx_nil hX hx hlt

/-- Four elements, as in the self-test. -/
theorem witnessedAbsent_four : WitnessedAbsent ⟨byteHash⟩ [[53], [50], [51], [49]] [52] :=
  (witnessedAbsent_iff ⟨byteHash⟩ (by decide) (by decide)).mpr ⟨by decide, Or.inl ⟨2, by decide⟩⟩

open MerkleTreeAccumulator (threeTree threeProof)

/-- The left leaf for a value above three elements is the padding behind them. -/
theorem nonmemwitgen_padding :
    nonmemwitgen ⟨byteHash⟩ (threeTree, [0, 1, 2]) [[1], [2], [3]] [4] =
        .ok ⟨some (3, [], threeProof 3), none⟩ ∧
      ¬ WitnessedAbsent ⟨byteHash⟩ [[1], [2], [3]] [4] := by
  have hwitgen : nonmemwitgen ⟨byteHash⟩ (threeTree, [0, 1, 2]) [[1], [2], [3]] [4] =
      .ok ⟨some (3, [], threeProof 3), none⟩ := by decide
  have hacc : accumulate ⟨byteHash⟩ [[1], [2], [3]] = .ok (threeTree, [0, 1, 2]) := by decide
  refine ⟨hwitgen, ?_⟩
  rintro ⟨acc, _, w, hacc', _, hw, hsurrounds, _⟩
  cases hacc.symm.trans hacc'
  cases hwitgen.symm.trans hw
  exact absurd hsurrounds.left.1 (by decide)

end Absent

end Lootbox.Headstart.SortedMerkleTreeAccumulator

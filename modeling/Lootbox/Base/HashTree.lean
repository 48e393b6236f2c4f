import Mathlib

/-!
# Perfect binary trees of hashes

`label j p` is the value of the `p`-th node at depth `j`, for an arbitrary node
function on an arbitrary digest type. A path is listed from the leaf upwards. The
binding theorem asks for no global injectivity: only the pairs met on the climb
must not collide with a node of the tree.
-/

namespace Lootbox.HashTree

universe u
variable {D : Type u} (node : D → D → D)

/-- One step up: `true` when the current node is a right child, with its sibling. -/
def climbStep (x : D) (s : Bool × D) : D := if s.1 then node s.2 x else node x s.2

def climb (x : D) (w : List (Bool × D)) : D := w.foldl (climbStep node) x

def stepPair (x : D) (s : Bool × D) : D × D := if s.1 then (s.2, x) else (x, s.2)

def climbPairs : D → List (Bool × D) → List (D × D)
  | _, [] => []
  | x, s :: w => stepPair x s :: climbPairs (climbStep node x s) w

def Labelling (depth : Nat) (label : Nat → Nat → D) : Prop :=
  ∀ j p, j < depth → p < 2 ^ j → label j p = node (label (j + 1) (2 * p)) (label (j + 1) (2 * p + 1))

def sibling (p : Nat) : Nat := if p % 2 = 1 then p - 1 else p + 1

def path (label : Nat → Nat → D) : Nat → Nat → List (Bool × D)
  | 0, _ => []
  | j + 1, p => (p % 2 == 1, label (j + 1) (sibling p)) :: path label j (p / 2)

/-- The position spelled by the sides of a path, least significant bit first. -/
def position : List Bool → Nat
  | [] => 0
  | b :: bs => b.toNat + 2 * position bs

variable {node} {depth : Nat} {label : Nat → Nat → D}

@[simp] theorem climb_nil (x : D) : climb node x [] = x := rfl

@[simp] theorem climb_cons (x : D) (s : Bool × D) (w : List (Bool × D)) :
    climb node x (s :: w) = climb node (climbStep node x s) w := rfl

theorem climbStep_eq_stepPair (x : D) (s : Bool × D) :
    climbStep node x s = node (stepPair x s).1 (stepPair x s).2 := by
  unfold climbStep stepPair
  split <;> rfl

@[simp] theorem path_length (j p : Nat) : (path label j p).length = j := by
  induction j generalizing p with
  | zero => rfl
  | succ j ih => simp [path, ih]

theorem position_path (j p : Nat) (hp : p < 2 ^ j) :
    position ((path label j p).map Prod.fst) = p := by
  induction j generalizing p with
  | zero =>
    have : p = 0 := by simpa using hp
    simp [path, position, this]
  | succ j ih =>
    have hhalf : p / 2 < 2 ^ j := by
      rw [Nat.pow_succ] at hp
      omega
    simp only [path, List.map_cons, position, ih _ hhalf]
    rcases Nat.mod_two_eq_zero_or_one p with h | h <;> simp [h] <;> omega

theorem path_sides (j p : Nat) : (path label j p).map Prod.fst = (List.range j).map p.testBit := by
  induction j generalizing p with
  | zero => rfl
  | succ j ih =>
    rw [path, List.map_cons, ih, List.range_succ_eq_map, List.map_cons, List.map_map, Nat.testBit_zero]
    congr 1
    exact List.map_congr_left fun i _ => by rw [Function.comp_apply, Nat.testBit_succ]

theorem parent_eq_climbStep (hl : Labelling node depth label) {j p : Nat} (hj : j < depth)
    (hp : p < 2 ^ (j + 1)) :
    climbStep node (label (j + 1) p) (p % 2 == 1, label (j + 1) (sibling p)) = label j (p / 2) := by
  have hhalf : p / 2 < 2 ^ j := by
    rw [Nat.pow_succ] at hp
    omega
  rw [hl j (p / 2) hj hhalf]
  rcases Nat.mod_two_eq_zero_or_one p with h | h
  · have h0 : 2 * (p / 2) = p := by omega
    simp [climbStep, sibling, h, h0]
  · have h0 : 2 * (p / 2) = p - 1 := by omega
    have h1 : p - 1 + 1 = p := by omega
    simp [climbStep, sibling, h, h0, h1]

theorem climb_path (hl : Labelling node depth label) :
    ∀ j p, j ≤ depth → p < 2 ^ j → climb node (label j p) (path label j p) = label 0 0 := by
  intro j
  induction j with
  | zero =>
    intro p _ hp
    have : p = 0 := by simpa using hp
    simp [path, this]
  | succ j ih =>
    intro p hj hp
    have hhalf : p / 2 < 2 ^ j := by
      rw [Nat.pow_succ] at hp
      omega
    rw [path, climb_cons, parent_eq_climbStep hl (by omega) hp]
    exact ih (p / 2) (by omega) hhalf

/-- No pair hashed on the climb collides with an inner node or with a leaf of the tree. -/
structure Distinct (node : D → D → D) (depth : Nat) (label : Nat → Nat → D)
    (pairs : List (D × D)) : Prop where
  inner : ∀ j p, j < depth → p < 2 ^ j → ∀ q ∈ pairs, node q.1 q.2 = label j p →
    q = (label (j + 1) (2 * p), label (j + 1) (2 * p + 1))
  leaf : ∀ p, p < 2 ^ depth → ∀ q ∈ pairs, node q.1 q.2 ≠ label depth p

theorem eq_path_of_stepPair {j p : Nat} {x : D} {s : Bool × D}
    (h : stepPair x s = (label (j + 1) (2 * p), label (j + 1) (2 * p + 1))) :
    ∃ q, q / 2 = p ∧ q < 2 * p + 2 ∧ x = label (j + 1) q ∧
      s = (q % 2 == 1, label (j + 1) (sibling q)) := by
  obtain ⟨right, y⟩ := s
  cases right with
  | true =>
    simp only [stepPair, if_true, Prod.mk.injEq] at h
    refine ⟨2 * p + 1, by omega, by omega, h.2, ?_⟩
    have hs : sibling (2 * p + 1) = 2 * p := by
      unfold sibling
      rw [if_pos (by omega)]
      omega
    simp [hs, h.1]
  | false =>
    simp only [stepPair, Bool.false_eq_true, if_false, Prod.mk.injEq] at h
    refine ⟨2 * p, by omega, by omega, h.1, ?_⟩
    have hs : sibling (2 * p) = 2 * p + 1 := by
      unfold sibling
      rw [if_neg (by omega)]
    simp [hs, h.2]

/-- Binding: a climb that ends at the root is the path of one node of the tree. -/
theorem climb_binding :
    ∀ (w : List (Bool × D)) (x : D), Distinct node depth label (climbPairs node x w) →
      climb node x w = label 0 0 →
      ∃ p, p < 2 ^ w.length ∧ w.length ≤ depth ∧ x = label w.length p ∧ w = path label w.length p := by
  intro w
  induction w with
  | nil =>
    intro x _ hx
    exact ⟨0, by simp, Nat.zero_le _, hx, rfl⟩
  | cons s w ih =>
    intro x hd hx
    have htail : Distinct node depth label (climbPairs node (climbStep node x s) w) :=
      ⟨fun j p hj hp q hq => hd.inner j p hj hp q (List.mem_cons_of_mem _ hq),
        fun p hp q hq => hd.leaf p hp q (List.mem_cons_of_mem _ hq)⟩
    obtain ⟨p, hp, hlen, hlabel, hw⟩ := ih (climbStep node x s) htail hx
    rw [climbStep_eq_stepPair] at hlabel
    have hne : w.length ≠ depth := by
      intro heq
      rw [heq] at hlabel hp
      exact hd.leaf p hp _ List.mem_cons_self hlabel
    have hpair := hd.inner w.length p (by omega) hp _ List.mem_cons_self hlabel
    obtain ⟨q, hq, hlt, hxq, hs⟩ := eq_path_of_stepPair hpair
    refine ⟨q, ?_, ?_, hxq, ?_⟩
    · rw [List.length_cons, Nat.pow_succ]
      omega
    · rw [List.length_cons]
      omega
    · rw [List.length_cons, path, hq, ← hw, ← hs]

/-! ### Heap order -/

/-- The index of a node when the tree is stored level by level in one array. -/
def heapIndex (j p : Nat) : Nat := 2 ^ j - 1 + p

theorem heapIndex_succ (j p : Nat) : heapIndex (j + 1) p = 2 * 2 ^ j - 1 + p := by
  simp [heapIndex, Nat.pow_succ, Nat.mul_comm]

theorem left_heapIndex (j p : Nat) : 2 * heapIndex j p + 1 = heapIndex (j + 1) (2 * p) := by
  have h := Nat.two_pow_pos j
  rw [heapIndex_succ, heapIndex]
  omega

theorem right_heapIndex (j p : Nat) : 2 * heapIndex j p + 2 = heapIndex (j + 1) (2 * p + 1) := by
  have h := left_heapIndex j p
  simp only [heapIndex] at h ⊢
  omega

theorem parent_heapIndex (j p : Nat) : (heapIndex (j + 1) p - 1) / 2 = heapIndex j (p / 2) := by
  have h := Nat.two_pow_pos j
  rw [heapIndex_succ, heapIndex]
  omega

theorem heapIndex_succ_mod (j p : Nat) : heapIndex (j + 1) p % 2 = 1 ↔ p % 2 = 0 := by
  have h := Nat.two_pow_pos j
  rw [heapIndex_succ]
  omega

theorem heapIndex_succ_pos (j p : Nat) : 0 < heapIndex (j + 1) p := by
  have h := Nat.two_pow_pos j
  rw [heapIndex_succ]
  omega

theorem heapIndex_lt {j p depth : Nat} (hj : j ≤ depth) (hp : p < 2 ^ j) :
    heapIndex j p < 2 * 2 ^ depth - 1 := by
  have h := Nat.pow_le_pow_right (Nat.two_pos) hj
  unfold heapIndex
  omega

end Lootbox.HashTree

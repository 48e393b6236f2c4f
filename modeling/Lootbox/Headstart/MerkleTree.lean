import Lootbox.Headstart.Basic
import Lootbox.Base.HashTree

/-!
# `acc/merkle_tree.py`: the tree and its plain accumulator

The tree lives in one list in heap order, root first. Indices are Python integers;
reading outside the list is an `IndexError`.
-/

namespace Lootbox.Headstart

open HashTree

/-- `hashfn` stands for `lambda b: hashfn(b).digest()`. -/
structure MerkleHash where
  hashfn : Bytes → Bytes

namespace MerkleHash

def hashLeaf (H : MerkleHash) (x : Bytes) : Bytes := H.hashfn (0 :: x)

def hashNode (H : MerkleHash) (x y : Bytes) : Bytes := H.hashfn (1 :: (x ++ y))

end MerkleHash

structure MerkleTree where
  tree : List Bytes
  lendata : Nat
  data : Option (List Bytes)
  deriving DecidableEq, Repr

abbrev MerkleProof := List (String × Bytes)

namespace MerkleTree

def isPowerOfTwo (l : Nat) : Bool := l &&& (l - 1) == 0

/-- `for i in range(n - 1, -1, -1): tree[i] = H.hash_node(tree[i * 2 + 1], tree[i * 2 + 2])` -/
def fillInner (H : MerkleHash) : Nat → List Bytes → List Bytes
  | 0, tree => tree
  | i + 1, tree =>
    fillInner H i
      (tree.set i (H.hashNode (tree[i * 2 + 1]?.getD []) (tree[i * 2 + 2]?.getD [])))

def computeTree (H : MerkleHash) (data : List Bytes) : Except PyError (List Bytes) :=
  if isPowerOfTwo data.length then
    .ok (fillInner H (data.length - 1)
      (List.replicate (data.length - 1) [] ++ data.map H.hashLeaf))
  else .error (.valueError "data length must be a power of 2")

def verifyData (H : MerkleHash) (tree data : List Bytes) : Except PyError Unit := do
  if !isPowerOfTwo data.length then
    throw (.valueError "data length must be a power of 2")
  if (tree.length : Int) ≠ 2 * (data.length : Int) - 1 then
    throw (.valueError "tree length must be 2 * len(data) - 1")
  let computed ← computeTree H data
  if computed ≠ tree then
    throw (.valueError "invalid tree")

/-- `MerkleTree.__init__` with `verify_data=True`. -/
def init (H : MerkleHash) (tree : List Bytes) (data : Option (List Bytes)) :
    Except PyError MerkleTree := do
  if let some d := data then verifyData H tree d
  return { tree := tree, lendata := (tree.length + 1) / 2, data := data }

/-- The padding of `from_data`: empty strings up to the next power of two. -/
def padData (data : List Bytes) : List Bytes :=
  if isPowerOfTwo data.length then data
  else data ++ List.replicate (2 ^ data.length.size - data.length) []

def fromData (H : MerkleHash) (data : List Bytes) : Except PyError MerkleTree := do
  let tree ← computeTree H (padData data)
  init H tree (some (padData data))

def root (mkt : MerkleTree) : Except PyError Bytes := need .indexError mkt.tree[0]?

/-- The walk of `check_present` from heap index `cur` to the root. -/
def presentFrom (H : MerkleHash) (tree : List Bytes) : Nat → Nat → Bytes → Except PyError Bytes
  | 0, _, x => .ok x
  | fuel + 1, cur, x =>
    if cur = 0 then .ok x
    else if cur % 2 = 1 then do
      let h ← need .indexError tree[cur + 1]?
      presentFrom H tree fuel ((cur - 1) / 2) (H.hashNode x h)
    else do
      let h ← need .indexError tree[cur - 1]?
      presentFrom H tree fuel ((cur - 1) / 2) (H.hashNode h x)

def checkPresent (H : MerkleHash) (mkt : MerkleTree) (index : Int) (x : Bytes) :
    Except PyError Bool := do
  let cur := (index + mkt.lendata - 1).toNat
  let top ← presentFrom H mkt.tree cur cur (H.hashLeaf x)
  let root ← mkt.root
  return top == root

/-- The sibling of `cur`: on its right (`"R"`) for a left child, else on its left. -/
def siblingStep (tree : List Bytes) (cur : Nat) : Except PyError (String × Bytes) :=
  if cur % 2 = 1 then do
    let h ← need .indexError tree[cur + 1]?
    return ("R", h)
  else do
    let h ← need .indexError tree[cur - 1]?
    return ("L", h)

/-- The walk from heap index `cur` to the root; `fuel` bounds its length. -/
def proofFrom (tree : List Bytes) : Nat → Nat → Except PyError MerkleProof
  | 0, _ => .ok []
  | fuel + 1, cur =>
    if cur = 0 then .ok []
    else do
      let step ← siblingStep tree cur
      let rest ← proofFrom tree fuel ((cur - 1) / 2)
      return step :: rest

def getProof (mkt : MerkleTree) (index : Int) : Except PyError MerkleProof :=
  let cur := (index + mkt.lendata - 1).toNat
  proofFrom mkt.tree cur cur

def checkStep (H : MerkleHash) (x : Bytes) (s : String × Bytes) : Except PyError Bytes :=
  if s.1 = "R" then .ok (H.hashNode x s.2)
  else if s.1 = "L" then .ok (H.hashNode s.2 x)
  else .error (.valueError "invalid proof")

def checkProof (H : MerkleHash) (root x : Bytes) (_index : Int) (proof : MerkleProof) :
    Except PyError Bool := do
  let top ← proof.foldlM (checkStep H) (H.hashLeaf x)
  return top == root

end MerkleTree

structure MerkleTreeAccumulator where
  H : MerkleHash

namespace MerkleTreeAccumulator

def accumulate (self : MerkleTreeAccumulator) (X : List Bytes) : Except PyError MerkleTree :=
  MerkleTree.fromData self.H X

def witgen (_self : MerkleTreeAccumulator) (mkt : MerkleTree) (_X : List Bytes) (index : Int) :
    Except PyError MerkleProof := mkt.getProof index

def verify (self : MerkleTreeAccumulator) (root : Bytes) (w : MerkleProof) (x : Bytes) :
    Except PyError Bool := MerkleTree.checkProof self.H root x 0 w

def getAccval (_self : MerkleTreeAccumulator) (mkt : MerkleTree) : Except PyError Bytes := mkt.root

end MerkleTreeAccumulator

end Lootbox.Headstart

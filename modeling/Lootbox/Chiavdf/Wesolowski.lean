import Lootbox.Base.BlockExponent
import Lootbox.Base.SegmentedProofs
import Lootbox.Chiavdf.AggUtil
import Lootbox.Chiavdf.AggVdf
import Lootbox.Chiavdf.FormArithmetic

/-!
# `prover_base.hpp`, `prover_slow.h` and `verifier.h`: proofs of Wesolowski

The prover raises the input to the quotient of `2 ^ T` by the challenge, in blocks of `k` bits
and rows of `l` blocks; the verifier checks the remainder. The hash, the primality test and the
serialization of a form are parameters, and so are the block sizes and the division of doubles.
-/

namespace Lootbox.Chiavdf

open Headstart BinaryQF ReducedForm

def fastPow (a b c : Nat) : Except PyError Nat :=
  if c = 0 then .error (.runtimeError "Division by 0") else .ok (a ^ b % c)

section Program

variable (gcdext : Gcdext) (shrink : Form → Option Form) (H : Primitives)
  (bqfcSerialize : Int → Int → Nat → Bytes) (fuel : Nat)

def hashPrime (seed : Bytes) (length : Nat) (bitmask : List Nat) : Except PyError Nat :=
  search (fun i =>
    let p := primeCandidate H seed length bitmask i
    if H.prime p then some p else none) fuel 0

/-- `GetB`, with the forms that it reduces in place. -/
def getB (D : Int) (x y : Form) : Except PyError (Nat × Form × Form) := do
  let d_bits := numBits D
  let xs ← serializeForm bqfcSerialize x d_bits
  let ys ← serializeForm bqfcSerialize y d_bits
  let B ← hashPrime H fuel (xs.1 ++ ys.1) 264 [263]
  return (B, xs.2, ys.2)

/-! ### The prover -/

/-- `GetBlock`, where `front` is `res_vector[0]` of an empty vector. -/
def getBlock (front : Except PyError Nat) (i k T B : Nat) : Except PyError Nat := do
  let res ← fastPow 2 (T - k * (i + 1)) B
  let res := 2 ^ k * res / B
  if res = 0 then front else .ok (res % 2 ^ 64)

/-- The block `i` of the row `j` goes to its bucket. The bound is computed in `uint64_t`. -/
def fillRound (front : Except PyError Nat) (D L : Int) (intermediates : List Form) (k l T B j : Nat)
    (ys : List Form) (i : Nat) : Except PyError (List Form) :=
  if T ≥ k * (i * l + j + 1) % 2 ^ 64 then do
    let b ← getBlock front (i * l + j) k T B
    let tmp ← need .indexError intermediates[i]?
    let y ← need .indexError ys[b]?
    let y ← nucompForm gcdext y tmp D L
    return ys.set b y
  else .ok ys

/-- The product of `n` buckets. -/
def bucketProduct (D L : Int) (id : Form) (ys : List Form) (index : Nat → Nat) (n : Nat) :
    Except PyError Form :=
  (List.range n).foldlM (fun z b => do
    let y ← need .indexError ys[index b]?
    nucompForm gcdext z y D L) id

/-- `x` times the product of some buckets to a power. -/
def combineRound (D L : Int) (id : Form) (ys : List Form) (index : Nat → Nat) (n e : Nat) (x : Form) :
    Except PyError Form := do
  let z ← bucketProduct gcdext D L id ys index n
  let z ← fastPowFormNucomp gcdext shrink z D e L
  nucompForm gcdext x z D L

/-- Rounds of `kl` squarings each, the last one perhaps fewer. -/
def roundCount (kl T : Nat) : Nat := T / kl + if T % kl = 0 then 0 else 1

/-- `limit` of `Prover::GenerateProof`, where `k * l` is a product of `uint32_t`. -/
def roundLimit (k l T : Nat) : Except PyError Nat :=
  let kl := k * l % 2 ^ 32
  if kl = 0 then .error .zeroDivisionError else .ok (roundCount kl T)

/-- The row `j`. -/
def proofRow (front limit : Except PyError Nat) (D L : Int) (id : Form) (intermediates : List Form)
    (k l T B j : Nat) (x : Form) : Except PyError Form := do
  let k1 := k / 2
  let k0 := k - k1
  let x ← fastPowFormNucomp gcdext shrink x D (2 ^ k) L
  let limit ← limit
  let ys ← (List.range limit).foldlM (fillRound gcdext front D L intermediates k l T B j)
    (List.replicate (2 ^ k) id)
  let x ← (List.range (2 ^ k1)).foldlM (fun x b1 =>
    combineRound gcdext shrink D L id ys (fun b0 => b1 * 2 ^ k0 + b0) (2 ^ k0) (b1 * 2 ^ k0) x) x
  (List.range (2 ^ k0)).foldlM (fun x b0 =>
    combineRound gcdext shrink D L id ys (fun b1 => b1 * 2 ^ k0 + b0) (2 ^ k1) b0 x) x

/-- The rows from `j - 1` down. -/
def proofRows (front limit : Except PyError Nat) (D L : Int) (id : Form) (intermediates : List Form)
    (k l T B : Nat) : Nat → Form → Except PyError Form
  | 0, x => .ok x
  | j + 1, x => do
    let x ← proofRow gcdext shrink front limit D L id intermediates k l T B j x
    proofRows front limit D L id intermediates k l T B j x

def proofWith (front limit : Except PyError Nat) (D : Int) (x y : Form) (intermediates : List Form)
    (k l T : Nat) : Except PyError Form := do
  let B ← getB H bqfcSerialize fuel D x y
  let L := rootFour D
  let id ← identity D
  let x ← proofRows gcdext shrink front limit D L id intermediates k l T B.1 l id
  reducerReduce shrink x

/-- `Prover::GenerateProof`, where nothing interrupts it: an empty vector counts as zero. -/
def generateProof (D : Int) (x y : Form) (intermediates : List Form) (k l T : Nat) :
    Except PyError Form :=
  proofWith gcdext shrink H bqfcSerialize fuel (.ok 0) (roundLimit k l T) D x y intermediates k l T

/-- `GenerateWesolowski`, which reads from the empty vector and has
`ceil(double(num_iterations) / (k * l))` rounds. -/
def generateWesolowski (front : Except PyError Nat) (ceilDouble : Nat → Nat → Nat) (D : Int) (x y : Form)
    (intermediates : List Form) (k l T : Nat) : Except PyError Form :=
  proofWith gcdext shrink H bqfcSerialize fuel front (.ok (ceilDouble T (k * l))) D x y intermediates
    k l T

/-- A round of the loop of `ProveSlow`: every `kl`-th `y` is kept. -/
def squareRound (D L : Int) (kl : Nat) (st : List Form × Form) (i : Nat) :
    Except PyError (List Form × Form) := do
  let intermediates := if i % kl = 0 then st.1 ++ [st.2] else st.1
  let y ← need .diverges (qfbNudupl gcdext st.2 D L)
  let y ← reducerReduce shrink y
  return (intermediates, y)

/-- `ProveSlow` before it serializes: `y` and the proof. -/
def proveSlow (front : Except PyError Nat) (ceilDouble : Nat → Nat → Nat) (D : Int) (x : Form)
    (k l T : Nat) : Except PyError (Form × Form) := do
  let L := rootFour D
  let y ← fromAbd x.a x.b D
  let st ← (List.range T).foldlM (squareRound gcdext shrink D L (k * l)) ([], y)
  let proof ← generateWesolowski gcdext shrink H bqfcSerialize fuel front ceilDouble D x st.2 st.1 k l T
  return (st.2, proof)

/-! ### The verifier -/

/-- `proof ^ B * x ^ r` -/
def verifierProduct (D : Int) (x proof : Form) (B iters : Nat) : Except PyError Form := do
  let L := rootFour D
  let r ← fastPow 2 iters B
  let f1 ← fastPowFormNucomp gcdext shrink proof D B L
  let f2 ← fastPowFormNucomp gcdext shrink x D r L
  multiply gcdext f1 f2

/-- `VerifyWesoSegment`: `out_y`, and whether `B` is the challenge for it. -/
def verifyWesoSegment (D : Int) (x proof : Form) (B iters : Nat) : Except PyError (Form × Bool) := do
  let out_y ← verifierProduct gcdext shrink D x proof B iters
  let b ← getB H bqfcSerialize fuel D x out_y
  return (b.2.2, B == b.1)

def verifyWesolowskiProof (D : Int) (x y proof : Form) (iters : Nat) : Except PyError Bool := do
  let b ← getB H bqfcSerialize fuel D x y
  let product ← verifierProduct gcdext shrink D b.2.1 proof b.1 iters
  return decide (product = b.2.2)

end Program

/-! ### The challenge -/

section Challenge

variable {H : Primitives} {bqfcSerialize : Int → Int → Nat → Bytes} {fuel : Nat}

theorem length_fillBlob_le (stop : UInt8 → Bool) (size rounds : Nat) (sprout : Bytes) {blob : Bytes}
    (h : blob.length ≤ size) : (fillBlob H stop size rounds sprout blob).2.length ≤ size := by
  induction rounds generalizing sprout blob with
  | zero => exact h
  | succ rounds ih =>
    unfold fillBlob
    split_ifs with hlt
    · apply ih
      rw [List.length_append, List.length_take]
      omega
    · exact h

theorem exists_hashPrime {seed : Bytes} {B : Nat} (h : hashPrime H fuel seed 264 [263] = .ok B) :
    ∃ n < 2 ^ 264, B = n ||| 2 ^ 263 ||| 1 := by
  obtain ⟨i, _, hfound, _⟩ := search_eq_ok_iff.mp h
  dsimp only at hfound
  split_ifs at hfound
  cases hfound
  refine ⟨bytesToLong (blobAfter H (· != 0) (264 / 8) seed (0 + i)), ?_, ?_⟩
  · have hempty : ([] : Bytes).length ≤ 264 / 8 := Nat.zero_le _
    have hlength := length_fillBlob_le (H := H) (· != 0) (264 / 8) (264 / 8)
      (sproutAfter H (· != 0) (264 / 8) seed (0 + i)) hempty
    calc bytesToLong _ < 256 ^ List.length _ := bytesToLong_lt _
      _ ≤ 256 ^ (264 / 8) := Nat.pow_le_pow_right (by norm_num) hlength
      _ = 2 ^ (8 * (264 / 8)) := (pow_mul 2 8 (264 / 8)).symm
  · rw [primeCandidate, List.singleton_append, setBits, List.foldl_cons, List.foldl_cons,
      List.foldl_nil, Nat.one_shiftLeft, Nat.one_shiftLeft, pow_zero]

theorem two_pow_le_of_hashPrime {seed : Bytes} {B : Nat}
    (h : hashPrime H fuel seed 264 [263] = .ok B) : 2 ^ 263 ≤ B := by
  obtain ⟨n, _, rfl⟩ := exists_hashPrime h
  exact Nat.right_le_or.trans Nat.left_le_or

theorem lt_two_pow_of_hashPrime {seed : Bytes} {B : Nat}
    (h : hashPrime H fuel seed 264 [263] = .ok B) : B < 2 ^ 264 := by
  obtain ⟨n, hn, rfl⟩ := exists_hashPrime h
  have hlast : 1 < 2 ^ 264 := Nat.one_lt_two_pow (by norm_num)
  exact Nat.or_lt_two_pow (Nat.or_lt_two_pow hn (Nat.pow_lt_pow_right one_lt_two (by norm_num))) hlast

variable {p : Nat} [hp : PrimeDiscriminant p] {f g : Form} {x y : ReducedForm p}

def challenge (H : Primitives) (bqfcSerialize : Int → Int → Nat → Bytes) (fuel : Nat)
    (x y : ReducedForm p) : Except PyError Nat :=
  hashPrime H fuel (bqfcSerialize x.form.a x.form.b (numBits (-p)) ++
    bqfcSerialize y.form.a y.form.b (numBits (-p))) 264 [263]

omit hp in
theorem pos_of_challenge {B : Nat} (hB : challenge H bqfcSerialize fuel x y = .ok B) : 0 < B :=
  (Nat.two_pow_pos 263).trans_le (two_pow_le_of_hashPrime hB)

theorem getB_class (hf : HasClass f x) (hg : HasClass g y) :
    getB H bqfcSerialize fuel (-p) f g =
      challenge H bqfcSerialize fuel x y >>= fun B => .ok (B, x.form, y.form) := by
  unfold getB
  dsimp only
  rw [serializeForm_class hf, ok_bind, serializeForm_class hg, ok_bind]
  rfl

theorem challenge_of_getB (hf : HasClass f x) (hg : HasClass g y) {B : Nat} {f' g' : Form}
    (h : getB H bqfcSerialize fuel (-p) f g = .ok (B, f', g')) :
    challenge H bqfcSerialize fuel x y = .ok B := by
  rw [getB_class hf hg] at h
  obtain ⟨B', hB', heq⟩ := bind_eq_ok_iff.mp h
  cases heq
  exact hB'

end Challenge

/-! ### The prover's buckets and rows -/

section Prover

open BlockExponent Finset

variable {p : Nat} [hp : PrimeDiscriminant p] {shrink : Form → Option Form} {x g : ReducedForm p}
  {L : Int} {f id : Form} {k l T B : Nat}

/-- A read from an empty vector gives zero, or does not happen: no block is zero then. -/
def ReadsZero (front : Except PyError Nat) (k T B : Nat) : Prop :=
  ∀ n, k * (n + 1) ≤ T → block k T B n = 0 → front = .ok 0

variable {front : Except PyError Nat}

theorem getBlock_eq (hk : k < 64) (hB : 0 < B) (hfront : ReadsZero front k T B) {n : Nat}
    (hn : k * (n + 1) ≤ T) : getBlock front n k T B = .ok (block k T B n) := by
  have hlt : block k T B n < 2 ^ 64 :=
    (block_lt hB n).trans_le (Nat.pow_le_pow_right two_pos hk.le)
  unfold getBlock fastPow
  rw [if_neg hB.ne', ok_bind]
  dsimp only
  rw [← block, Nat.mod_eq_of_lt hlt]
  split_ifs with hzero
  · rw [hfront n hn hzero, hzero]
  · rfl

/-- `intermediates` holds every `kl`-th power on the way to the exponent `2 ^ T`. -/
def Intermediates (g : ReducedForm p) (kl T : Nat) (intermediates : List Form) : Prop :=
  ∀ i, kl * i < T → ∃ f, intermediates[i]? = some f ∧ HasClass f (g ^ 2 ^ (kl * i))

def Buckets (k : Nat) (c : Nat → ReducedForm p) (ys : List Form) : Prop :=
  ys.length = 2 ^ k ∧ ∀ b < 2 ^ k, ∃ f, ys[b]? = some f ∧ HasClass f (c b)

omit hp in
theorem Buckets.set {c : Nat → ReducedForm p} {ys : List Form} (h : Buckets k c ys) {b : Nat}
    (hf : HasClass f x) {c' : Nat → ReducedForm p} (hself : c' b = x)
    (hother : ∀ b', b' ≠ b → c' b' = c b') : Buckets k c' (ys.set b f) := by
  refine ⟨by rw [List.length_set, h.1], ?_⟩
  intro b' hb'
  by_cases heq : b = b'
  · refine ⟨f, ?_, heq ▸ hself ▸ hf⟩
    rw [← heq, List.getElem?_set_self (by rw [h.1, heq]; exact hb')]
  · obtain ⟨f', hf', hclass⟩ := h.2 b' hb'
    refine ⟨f', by rw [List.getElem?_set_ne heq, hf'], ?_⟩
    rw [hother b' (Ne.symm heq)]
    exact hclass

variable {intermediates : List Form} {ys : List Form}

/-- What the buckets of the row `j` hold after `n` rounds. -/
noncomputable def rowBucket (g : ReducedForm p) (k l T B j n : Nat) : Nat → ReducedForm p :=
  bucket (fun i => k * (i * l + j + 1) ≤ T) (fun i => block k T B (i * l + j))
    (fun i => g ^ 2 ^ (k * l * i)) n

omit hp in
theorem lt_roundCount_iff {kl i : Nat} (hkl : 0 < kl) : i < roundCount kl T ↔ kl * i < T := by
  have hdiv := Nat.div_add_mod T kl
  have hmod := Nat.mod_lt T hkl
  unfold roundCount
  split_ifs with hzero
  · rw [Nat.add_zero, Nat.lt_div_iff_mul_lt' (Nat.dvd_of_mod_eq_zero hzero)]
  · constructor
    · intro hi
      have hle := Nat.mul_le_mul_left kl (Nat.lt_succ_iff.mp hi)
      omega
    · intro hi
      have hlt : kl * i < kl * (T / kl + 1) := by
        rw [Nat.mul_succ]
        omega
      exact Nat.lt_of_mul_lt_mul_left hlt

omit hp in
/-- The blocks of a round end before the next one begins, so their positions are `uint64_t`. -/
theorem block_lt_two_pow (hT : T + k * l < 2 ^ 64) {j i : Nat} (hj : j < l) (hi : k * l * i < T) :
    k * (i * l + j + 1) < 2 ^ 64 := by
  have hend : k * (i * l + j + 1) ≤ k * (i * l + l) := Nat.mul_le_mul_left k (by omega)
  calc k * (i * l + j + 1) ≤ k * (i * l + l) := hend
    _ = k * l * i + k * l := by ring
    _ < 2 ^ 64 := by omega

theorem fillRound_class (gcdext : Gcdext) (hL : 0 ≤ L) (hk64 : k < 64) (hB : 0 < B)
    (hfront : ReadsZero front k T B) (hT : T + k * l < 2 ^ 64)
    (hinter : Intermediates g (k * l) T intermediates) {j i : Nat} (hj : j < l) (hi : k * l * i < T)
    (h : Buckets k (rowBucket g k l T B j i) ys) :
    Yields .diverges (Fails p shrink) (Buckets k (rowBucket g k l T B j (i + 1)))
      (fillRound gcdext front (-p) L intermediates k l T B j ys i) := by
  unfold fillRound
  rw [Nat.mod_eq_of_lt (block_lt_two_pow hT hj hi)]
  split_ifs with huse
  · obtain ⟨tmp, htmp, htmp_class⟩ := hinter i hi
    obtain ⟨y, hy, hy_class⟩ := h.2 _ (block_lt hB (i * l + j))
    rw [getBlock_eq hk64 hB hfront huse, ok_bind, htmp, need_some, ok_bind, hy, need_some, ok_bind]
    apply (nucompForm_class gcdext shrink hy_class htmp_class hL).bind
    intro f hf
    apply Yields.pure
    apply h.set hf
    · rw [rowBucket, bucket_succ, if_pos ⟨huse, rfl⟩]
      rfl
    · intro b' hb'
      rw [rowBucket, bucket_succ, if_neg fun hand => hb' hand.2.symm, mul_one]
      rfl
  · apply Yields.pure
    have hsame : rowBucket g k l T B j (i + 1) = rowBucket g k l T B j i := by
      funext b
      rw [rowBucket, bucket_succ, if_neg fun hand => huse hand.1, mul_one]
      rfl
    rwa [hsame]

theorem fillRounds_class (gcdext : Gcdext) (hL : 0 ≤ L) (hk : 0 < k) (hk64 : k < 64) (hB : 0 < B)
    (hfront : ReadsZero front k T B) (hT : T + k * l < 2 ^ 64)
    (hinter : Intermediates g (k * l) T intermediates) (hid : HasClass id (1 : ReducedForm p)) {j : Nat}
    (hj : j < l) :
    Yields .diverges (Fails p shrink) (Buckets k (rowBucket g k l T B j (roundCount (k * l) T)))
      ((List.range (roundCount (k * l) T)).foldlM (fillRound gcdext front (-p) L intermediates k l T B j)
        (List.replicate (2 ^ k) id)) := by
  apply Yields.foldlM_range (I := fun i => Buckets k (rowBucket g k l T B j i))
  · refine ⟨List.length_replicate, ?_⟩
    intro b hb
    refine ⟨id, List.getElem?_replicate_of_lt hb, ?_⟩
    simpa [rowBucket, bucket] using hid
  · intro i hi ys hys
    have hkl : 0 < k * l := Nat.mul_pos hk (Nat.zero_lt_of_lt hj)
    exact fillRound_class gcdext hL hk64 hB hfront hT hinter hj ((lt_roundCount_iff hkl).mp hi) hys

theorem bucketProduct_class (gcdext : Gcdext) (hL : 0 ≤ L) {c : Nat → ReducedForm p}
    (hys : Buckets k c ys) (hid : HasClass id (1 : ReducedForm p)) {index : Nat → Nat} {n : Nat}
    (hindex : ∀ b < n, index b < 2 ^ k) :
    YieldsClass shrink (∏ b ∈ range n, c (index b))
      (bucketProduct gcdext (-p) L id ys index n) := by
  apply Yields.foldlM_range (I := fun i z => HasClass z (∏ b ∈ range i, c (index b)))
  · rwa [prod_range_zero]
  · intro b hb z hz
    obtain ⟨y, hy, hy_class⟩ := hys.2 _ (hindex b hb)
    rw [hy, need_some, ok_bind, prod_range_succ]
    exact nucompForm_class gcdext shrink hz hy_class hL

theorem combineRound_class (gcdext : Gcdext) (hkeeps : KeepsClass p shrink) (hL : 0 ≤ L)
    {c : Nat → ReducedForm p} (hys : Buckets k c ys) (hid : HasClass id (1 : ReducedForm p))
    {index : Nat → Nat} {n : Nat} (hindex : ∀ b < n, index b < 2 ^ k) (e : Nat) (hf : HasClass f x) :
    YieldsClass shrink (x * (∏ b ∈ range n, c (index b)) ^ e)
      (combineRound gcdext shrink (-p) L id ys index n e f) := by
  apply (bucketProduct_class gcdext hL hys hid hindex).bind
  intro z hz
  apply (fastPowFormNucomp_class gcdext hkeeps hL hz e).bind
  intro z hz
  exact nucompForm_class gcdext shrink hf hz hL

theorem combineRounds_class (gcdext : Gcdext) (hkeeps : KeepsClass p shrink) (hL : 0 ≤ L)
    {c : Nat → ReducedForm p} (hys : Buckets k c ys) (hid : HasClass id (1 : ReducedForm p))
    (index : Nat → Nat → Nat) (e : Nat → Nat) {n m : Nat}
    (hindex : ∀ a < m, ∀ b < n, index a b < 2 ^ k) (hf : HasClass f x) :
    YieldsClass shrink (x * ∏ a ∈ range m, (∏ b ∈ range n, c (index a b)) ^ e a)
      ((List.range m).foldlM (fun x a =>
        combineRound gcdext shrink (-p) L id ys (index a) n (e a) x) f) := by
  apply Yields.foldlM_range
    (I := fun i z => HasClass z (x * ∏ a ∈ range i, (∏ b ∈ range n, c (index a b)) ^ e a))
  · rwa [prod_range_zero, mul_one]
  · intro a ha z hz
    rw [prod_range_succ, ← mul_assoc]
    exact combineRound_class gcdext hkeeps hL hys hid (hindex a ha) (e a) hz

/-- What the row `j` multiplies by. -/
noncomputable def rowFactor (g : ReducedForm p) (k l T B j n : Nat) : ReducedForm p :=
  ∏ i ∈ range n, if k * (i * l + j + 1) ≤ T then
    (g ^ 2 ^ (k * l * i)) ^ block k T B (i * l + j) else 1

theorem proofRow_class (gcdext : Gcdext) (hkeeps : KeepsClass p shrink) (hL : 0 ≤ L) (hk : 0 < k)
    (hk64 : k < 64) (hB : 0 < B) (hfront : ReadsZero front k T B) (hT : T + k * l < 2 ^ 64)
    (hinter : Intermediates g (k * l) T intermediates) (hid : HasClass id (1 : ReducedForm p)) {j : Nat}
    (hj : j < l) (hf : HasClass f x) :
    YieldsClass shrink (x ^ 2 ^ k * rowFactor g k l T B j (roundCount (k * l) T))
      (proofRow gcdext shrink front (.ok (roundCount (k * l) T)) (-p) L id intermediates k l T B j
        f) := by
  have hsplit : 2 ^ (k / 2) * 2 ^ (k - k / 2) = 2 ^ k := by
    rw [← pow_add]
    congr 1
    omega
  have hindex : ∀ b1 < 2 ^ (k / 2), ∀ b0 < 2 ^ (k - k / 2), b1 * 2 ^ (k - k / 2) + b0 < 2 ^ k := by
    intro b1 hb1 b0 hb0
    calc b1 * 2 ^ (k - k / 2) + b0 < (b1 + 1) * 2 ^ (k - k / 2) := by rw [add_one_mul]; omega
      _ ≤ 2 ^ (k / 2) * 2 ^ (k - k / 2) := Nat.mul_le_mul_right _ hb1
      _ = 2 ^ k := hsplit
  unfold proofRow
  dsimp only
  apply (fastPowFormNucomp_class gcdext hkeeps hL hf (2 ^ k)).bind
  intro f1 hf1
  rw [ok_bind]
  apply (fillRounds_class gcdext hL hk hk64 hB hfront hT hinter hid hj).bind
  intro ys hys
  apply (combineRounds_class gcdext hkeeps hL hys hid _ _ hindex hf1).bind
  intro f2 hf2
  have hlast : YieldsClass shrink _ _ := combineRounds_class gcdext hkeeps hL hys hid
    (fun b0 b1 => b1 * 2 ^ (k - k / 2) + b0) (fun b0 => b0)
    (fun b0 hb0 b1 hb1 => hindex b1 hb1 b0 hb0) hf2
  have hfactor := prod_digits (rowBucket g k l T B j (roundCount (k * l) T)) (2 ^ (k / 2))
    (2 ^ (k - k / 2))
  rw [hsplit, rowBucket, prod_buckets _ _ _ (fun i => block_lt hB _)] at hfactor
  rw [mul_assoc] at hlast
  rw [rowFactor, ← hfactor]
  exact hlast

theorem proofRows_class (gcdext : Gcdext) (hkeeps : KeepsClass p shrink) (hL : 0 ≤ L) (hk : 0 < k)
    (hk64 : k < 64) (hB : 0 < B) (hfront : ReadsZero front k T B) (hT : T + k * l < 2 ^ 64)
    (hinter : Intermediates g (k * l) T intermediates) (hid : HasClass id (1 : ReducedForm p))
    (j : Nat) : j ≤ l → ∀ (f : Form) (x : ReducedForm p),
      HasClass f x → YieldsClass shrink (x ^ 2 ^ (k * j) *
        ∏ i ∈ range j, rowFactor g k l T B i (roundCount (k * l) T) ^ 2 ^ (k * i))
      (proofRows gcdext shrink front (.ok (roundCount (k * l) T)) (-p) L id intermediates k l T B j
        f) := by
  induction j with
  | zero =>
    intro _ f x hf
    apply Yields.pure
    simpa using hf
  | succ j ih =>
    intro hj f x hf
    apply (proofRow_class gcdext hkeeps hL hk hk64 hB hfront hT hinter hid hj hf).bind
    intro f' hf'
    have hrest := ih (Nat.le_of_succ_le hj) f' _ hf'
    rw [mul_pow, ← pow_mul, ← pow_add, Nat.add_comm k, ← Nat.mul_succ] at hrest
    rw [prod_range_succ_comm, ← mul_assoc]
    exact hrest

theorem div_le_roundCount (hk : 0 < k) (hl : 0 < l) (T : Nat) :
    T / k ≤ roundCount (k * l) T * l := by
  have hlt : T < k * l * (T / (k * l) + 1) := Nat.lt_mul_div_succ T (Nat.mul_pos hk hl)
  unfold roundCount
  split_ifs with hdvd
  · obtain ⟨q, rfl⟩ := Nat.dvd_of_mod_eq_zero hdvd
    rw [add_zero, Nat.mul_div_cancel_left q (Nat.mul_pos hk hl), mul_assoc,
      Nat.mul_div_cancel_left _ hk, mul_comm]
  · apply Nat.le_of_lt
    rw [Nat.div_lt_iff_lt_mul hk]
    linarith

theorem proofWith_class (gcdext : Gcdext) (hkeeps : KeepsClass p shrink) {H : Primitives}
    {bqfcSerialize : Int → Int → Nat → Bytes} {fuel : Nat} {y : ReducedForm p} {fy : Form}
    (hf : HasClass f g) (hy : HasClass fy y) (hk : 0 < k) (hk31 : k < 31) (hl : 0 < l)
    (hT : T + k * l < 2 ^ 64) (hinter : Intermediates g (k * l) T intermediates)
    (hB : challenge H bqfcSerialize fuel g y = .ok B) (hfront : ReadsZero front k T B) :
    YieldsClass shrink (g ^ (2 ^ T / B)) (proofWith gcdext shrink H bqfcSerialize fuel front
      (.ok (roundCount (k * l) T)) (-p) f fy intermediates k l T) := by
  have hlarge : 2 ^ k ≤ B :=
    (Nat.pow_le_pow_right two_pos (by omega)).trans (two_pow_le_of_hashPrime hB)
  have hB_pos : 0 < B := (Nat.two_pow_pos k).trans_le hlarge
  have hL : 0 ≤ rootFour (-p) := Int.natCast_nonneg _
  have hid := hasClass_form (1 : ReducedForm p)
  unfold proofWith
  rw [getB_class hf hy, hB, ok_bind, ok_bind, identity_eq, ok_bind]
  apply (proofRows_class gcdext hkeeps hL hk (by omega) hB_pos hfront hT hinter hid l le_rfl _ _ hid).bind
  intro z hz
  have hrows := prod_rows g hlarge hk (div_le_roundCount hk hl T)
  rw [one_pow, one_mul] at hz
  unfold rowFactor at hz
  rw [hrows] at hz
  exact reducerReduce_class hkeeps hz

omit hp in
theorem roundLimit_eq (hpos : 0 < k * l) (hkl : k * l < 2 ^ 32) (T : Nat) :
    roundLimit k l T = .ok (roundCount (k * l) T) := by
  unfold roundLimit
  rw [Nat.mod_eq_of_lt hkl, if_neg hpos.ne']

theorem generateProof_class (gcdext : Gcdext) (hkeeps : KeepsClass p shrink) {H : Primitives}
    {bqfcSerialize : Int → Int → Nat → Bytes} {fuel : Nat} {y : ReducedForm p} {fy : Form}
    (hf : HasClass f g) (hy : HasClass fy y) (hk : 0 < k) (hk31 : k < 31) (hl : 0 < l)
    (hkl : k * l < 2 ^ 32) (hT : T + k * l < 2 ^ 64)
    (hinter : Intermediates g (k * l) T intermediates)
    (hB : challenge H bqfcSerialize fuel g y = .ok B) :
    YieldsClass shrink (g ^ (2 ^ T / B)) (generateProof gcdext shrink H bqfcSerialize fuel (-p) f fy
      intermediates k l T) := by
  unfold generateProof
  rw [roundLimit_eq (Nat.mul_pos hk hl) hkl]
  exact proofWith_class gcdext hkeeps hf hy hk hk31 hl hT hinter hB fun _ _ _ => rfl

theorem exists_challenge_of_generateProof {gcdext : Gcdext} {H : Primitives}
    {bqfcSerialize : Int → Int → Nat → Bytes} {fuel : Nat} {y : ReducedForm p} {fy proof : Form}
    (hf : HasClass f g) (hy : HasClass fy y) (h : generateProof gcdext shrink H bqfcSerialize fuel (-p) f
      fy intermediates k l T = .ok proof) : ∃ B, challenge H bqfcSerialize fuel g y = .ok B := by
  unfold generateProof proofWith at h
  obtain ⟨⟨B, f', fy'⟩, hB, _⟩ := bind_eq_ok_iff.mp h
  exact ⟨B, challenge_of_getB hf hy hB⟩

/-! ### The squarings -/

/-- The state of the loop of `ProveSlow` after `n` squarings. -/
structure Squared (g : ReducedForm p) (kl n : Nat) (st : List Form × Form) : Prop where
  last : HasClass st.2 (g ^ 2 ^ n)
  kept : Intermediates g kl n st.1
  lt_length_iff : ∀ i, i < st.1.length ↔ kl * i < n

variable {kl n : Nat} {st : List Form × Form}

theorem Squared.keep (h : Squared g kl n st) (hkl : 0 < kl) :
    Intermediates g kl (n + 1) (if n % kl = 0 then st.1 ++ [st.2] else st.1) ∧
      ∀ i, i < (if n % kl = 0 then st.1 ++ [st.2] else st.1).length ↔ kl * i < n + 1 := by
  split_ifs with hdue
  · obtain ⟨q, rfl⟩ := Nat.dvd_of_mod_eq_zero hdue
    have hlength : st.1.length = q := by
      apply Nat.le_antisymm
      · apply Nat.le_of_not_lt
        intro hlt
        exact absurd ((h.lt_length_iff q).mp hlt) (lt_irrefl _)
      · apply Nat.le_of_not_lt
        intro hlt
        exact absurd ((h.lt_length_iff _).mpr (Nat.mul_lt_mul_of_pos_left hlt hkl)) (lt_irrefl _)
    have hle : ∀ i, kl * i < kl * q + 1 ↔ i ≤ q := by
      intro i
      rw [Nat.lt_succ_iff, Nat.mul_le_mul_left_iff hkl]
    constructor
    · intro i hi
      rcases ((hle i).mp hi).lt_or_eq with hlt | rfl
      · obtain ⟨f, hf, hclass⟩ := h.kept i (Nat.mul_lt_mul_of_pos_left hlt hkl)
        exact ⟨f, by rw [List.getElem?_append_left (by omega), hf], hclass⟩
      · exact ⟨st.2, by rw [← hlength, List.getElem?_concat_length], h.last⟩
    · intro i
      rw [List.length_append, List.length_singleton, hlength, hle, Nat.lt_succ_iff]
  · have hlt : ∀ i, kl * i < n + 1 ↔ kl * i < n := by
      intro i
      have hne : kl * i ≠ n := by
        rintro rfl
        exact hdue (Nat.mul_mod_right kl i)
      omega
    constructor
    · intro i hi
      exact h.kept i ((hlt i).mp hi)
    · intro i
      rw [hlt, h.lt_length_iff]

theorem squareRound_class (gcdext : Gcdext) (hkeeps : KeepsClass p shrink) (hL : 0 ≤ L) (hkl : 0 < kl)
    (h : Squared g kl n st) : Yields .diverges (Fails p shrink) (Squared g kl (n + 1))
      (squareRound gcdext shrink (-p) L kl st n) := by
  obtain ⟨s, hnudupl, hs⟩ := qfbNudupl_class gcdext h.last hL
  obtain ⟨hkept, hlength⟩ := h.keep hkl
  rw [← pow_two, ← pow_mul, ← pow_succ] at hs
  unfold squareRound
  dsimp only
  rw [hnudupl, need_some, ok_bind]
  apply (reducerReduce_class hkeeps hs).bind
  intro y hy
  exact Yields.pure ⟨hy, hkept, hlength⟩

theorem squareRounds_class (gcdext : Gcdext) (hkeeps : KeepsClass p shrink) (hL : 0 ≤ L)
    (hkl : 0 < kl) (hf : HasClass f g) (T : Nat) :
    Yields .diverges (Fails p shrink) (Squared g kl T)
      ((List.range T).foldlM (squareRound gcdext shrink (-p) L kl) ([], f)) := by
  apply Yields.foldlM_range
  · refine ⟨?_, ?_, ?_⟩
    · rwa [pow_zero, pow_one]
    · intro i hi
      omega
    · intro i
      simp
  · intro n _ st hst
    exact squareRound_class gcdext hkeeps hL hkl hst

/-- The quotient of doubles, rounded up, is exact where the dividend is. -/
def CeilsExactly (ceilDouble : Nat → Nat → Nat) : Prop :=
  ∀ T n, 0 < n → T < 2 ^ 53 → ceilDouble T n = roundCount n T

theorem proveSlow_class (gcdext : Gcdext) (hkeeps : KeepsClass p shrink) {H : Primitives}
    {bqfcSerialize : Int → Int → Nat → Bytes} {fuel : Nat} (hf : HasClass f g) (hk : 0 < k)
    (hk31 : k < 31) (hl : 0 < l) (hkl : k * l < 2 ^ 31) (hT : T < 2 ^ 53)
    (hB : challenge H bqfcSerialize fuel g (g ^ 2 ^ T) = .ok B) (hfront : ReadsZero front k T B)
    {ceilDouble : Nat → Nat → Nat} (hceil : CeilsExactly ceilDouble) :
    Yields .diverges (Fails p shrink)
      (fun r : Form × Form => HasClass r.1 (g ^ 2 ^ T) ∧ HasClass r.2 (g ^ (2 ^ T / B)))
      (proveSlow gcdext shrink H bqfcSerialize fuel front ceilDouble (-p) f k l T) := by
  have hL : 0 ≤ rootFour (-p) := Int.natCast_nonneg _
  have hpos := Nat.mul_pos hk hl
  unfold proveSlow generateWesolowski
  dsimp only
  rw [fromAbd_eq hf, ok_bind, hceil T (k * l) hpos hT]
  apply (squareRounds_class gcdext hkeeps hL hpos (hasClass_form g) T).bind
  intro st hst
  apply (proofWith_class gcdext hkeeps hf hst.last hk hk31 hl (by omega) hst.kept hB hfront).bind
  intro proof hproof
  exact Yields.pure ⟨hst.last, hproof⟩

end Prover

/-! ### The verifier -/

section Verifier

variable {p : Nat} [hp : PrimeDiscriminant p] {gcdext : Gcdext} {shrink : Form → Option Form}
  {H : Primitives} {bqfcSerialize : Int → Int → Nat → Bytes} {fuel : Nat} {x y π : ReducedForm p}
  {f fy fπ : Form} {B T : Nat}

theorem verifierProduct_class (gcdext : Gcdext) (hkeeps : KeepsClass p shrink) (hf : HasClass f x)
    (hπ : HasClass fπ π) (hB : 0 < B) (T : Nat) :
    Yields .diverges (Fails p shrink) (· = (π ^ B * x ^ (2 ^ T % B)).form)
      (verifierProduct gcdext shrink (-p) f fπ B T) := by
  have hL : 0 ≤ rootFour (-p) := Int.natCast_nonneg _
  unfold verifierProduct fastPow
  dsimp only
  rw [if_neg hB.ne', ok_bind]
  apply (fastPowFormNucomp_class gcdext hkeeps hL hπ B).bind
  intro f1 hf1
  apply (fastPowFormNucomp_class gcdext hkeeps hL hf (2 ^ T % B)).bind
  intro f2 hf2
  exact Yields.of_ok (multiply_class gcdext hf1 hf2) rfl

/-- `B` is the challenge for the two classes. -/
def IsChallenge (p : Nat) [PrimeDiscriminant p] (H : Primitives)
    (bqfcSerialize : Int → Int → Nat → Bytes) (fuel : Nat) (x y : ReducedForm p) (B : Nat) : Prop :=
  challenge H bqfcSerialize fuel x y = .ok B

theorem verifyWesoSegment_of_ok (hkeeps : KeepsClass p shrink) (hf : HasClass f x)
    (hπ : HasClass fπ π) {out_y : Form} {valid : Bool}
    (h : verifyWesoSegment gcdext shrink H bqfcSerialize fuel (-p) f fπ B T = .ok (out_y, valid)) :
    verifierProduct gcdext shrink (-p) f fπ B T = .ok out_y ∧
      out_y = ((SegmentedProofs.Segment.mk T B π).next x).form ∧ (valid = true →
        IsChallenge p H bqfcSerialize fuel x ((SegmentedProofs.Segment.mk T B π).next x) B) := by
  unfold verifyWesoSegment at h
  obtain ⟨out, hout, h⟩ := bind_eq_ok_iff.mp h
  have hB : 0 < B := by
    rcases Nat.eq_zero_or_pos B with rfl | hB
    · unfold verifierProduct fastPow at hout
      rw [if_pos rfl] at hout
      cases hout
    · exact hB
  have heq := (verifierProduct_class gcdext hkeeps hf hπ hB T).of_eq_ok hout
  rw [heq, getB_class hf (hasClass_form _)] at h
  obtain ⟨b, hb, h⟩ := bind_eq_ok_iff.mp h
  obtain ⟨B', hB', hb⟩ := bind_eq_ok_iff.mp hb
  cases hb
  cases h
  refine ⟨heq ▸ hout, rfl, ?_⟩
  intro hvalid
  obtain rfl : B = B' := beq_iff_eq.mp hvalid
  exact hB'

theorem verifyWesoSegment_eq (hf : HasClass f x)
    (hproduct : verifierProduct gcdext shrink (-p) f fπ B T = .ok y.form)
    (hB : IsChallenge p H bqfcSerialize fuel x y B) :
    verifyWesoSegment gcdext shrink H bqfcSerialize fuel (-p) f fπ B T = .ok (y.form, true) := by
  unfold verifyWesoSegment
  rw [hproduct, ok_bind, getB_class hf (hasClass_form y), hB, ok_bind, ok_bind]
  exact congrArg (fun b => Except.ok (y.form, b)) (beq_self_eq_true B)

theorem verifyWesoSegment_class (gcdext : Gcdext) (hkeeps : KeepsClass p shrink) (hf : HasClass f x)
    (hπ : HasClass fπ π)
    (hB : IsChallenge p H bqfcSerialize fuel x ((SegmentedProofs.Segment.mk T B π).next x) B) :
    Yields .diverges (Fails p shrink)
      (· = (((SegmentedProofs.Segment.mk T B π).next x).form, true))
      (verifyWesoSegment gcdext shrink H bqfcSerialize fuel (-p) f fπ B T) := by
  rcases verifierProduct_class gcdext hkeeps hf hπ (pos_of_challenge hB) T with
    ⟨out_y, hproduct, rfl⟩ | ⟨hdiverges, hfails⟩
  · exact Yields.of_ok (verifyWesoSegment_eq hf hproduct hB) rfl
  · right
    unfold verifyWesoSegment
    rw [hdiverges, error_bind]
    exact ⟨rfl, hfails⟩

theorem verifyWesolowskiProof_eq (hf : HasClass f x) (hy : HasClass fy y)
    (hproduct : verifierProduct gcdext shrink (-p) x.form fπ B T = .ok y.form)
    (hB : IsChallenge p H bqfcSerialize fuel x y B) :
    verifyWesolowskiProof gcdext shrink H bqfcSerialize fuel (-p) f fy fπ T = .ok true := by
  unfold verifyWesolowskiProof
  rw [getB_class hf hy, hB, ok_bind, ok_bind, hproduct, ok_bind]
  exact congrArg Except.ok (decide_eq_true rfl)

theorem verifyWesolowskiProof_of_true (hkeeps : KeepsClass p shrink) (hf : HasClass f x)
    (hy : HasClass fy y) (hπ : HasClass fπ π)
    (h : verifyWesolowskiProof gcdext shrink H bqfcSerialize fuel (-p) f fy fπ T = .ok true) :
    ∃ B, IsChallenge p H bqfcSerialize fuel x y B ∧
      verifierProduct gcdext shrink (-p) x.form fπ B T = .ok y.form ∧
        (SegmentedProofs.Segment.mk T B π).next x = y := by
  unfold verifyWesolowskiProof at h
  rw [getB_class hf hy] at h
  obtain ⟨b, hb, h⟩ := bind_eq_ok_iff.mp h
  obtain ⟨B, hB, hb⟩ := bind_eq_ok_iff.mp hb
  cases hb
  obtain ⟨product, hproduct, h⟩ := bind_eq_ok_iff.mp h
  have hproduct_y : product = y.form := of_decide_eq_true (Except.ok.inj h)
  rw [hproduct_y] at hproduct
  refine ⟨B, hB, hproduct, ?_⟩
  have hclass := verifierProduct_class gcdext hkeeps (hasClass_form x) hπ (pos_of_challenge hB) T
  exact (form_injective (hclass.of_eq_ok hproduct)).symm

theorem verifyWesolowskiProof_class (gcdext : Gcdext) (hkeeps : KeepsClass p shrink)
    (hf : HasClass f x) (hy : HasClass fy y) (hπ : HasClass fπ π)
    (hB : challenge H bqfcSerialize fuel x y = .ok B) (T : Nat) :
    Yields .diverges (Fails p shrink) (fun b => b = true ↔ π ^ B * x ^ (2 ^ T % B) = y)
      (verifyWesolowskiProof gcdext shrink H bqfcSerialize fuel (-p) f fy fπ T) := by
  have hB_pos := pos_of_challenge hB
  unfold verifyWesolowskiProof
  rw [getB_class hf hy, hB, ok_bind, ok_bind]
  apply (verifierProduct_class gcdext hkeeps (hasClass_form x) hπ hB_pos T).bind
  intro product hproduct
  apply Yields.pure
  rw [decide_eq_true_iff, hproduct]
  constructor
  · intro h
    exact form_injective h
  · intro h
    rw [h]

end Verifier

/-! ### Proofs and their verification -/

def orderThree : ReducedForm 23 :=
  ⟨⟨2, 1, 3⟩, ⟨⟨by decide, by decide⟩, by decide, by decide, by decide⟩⟩

theorem getB_orderThree : getB smallHashes twoBytes 1 (-23) ⟨2, 1, 3⟩ ⟨2, 1, 3⟩ =
    .ok (2 ^ 263 + 12545, ⟨2, 1, 3⟩, ⟨2, 1, 3⟩) := by
  decide +kernel

section Results

variable {p : Nat} [hp : PrimeDiscriminant p] {H : Primitives}
  {bqfcSerialize : Int → Int → Nat → Bytes} {fuel : Nat} {x y π : ReducedForm p} {f fy fπ : Form}
  {k l T B : Nat}

/-- Whatever `k` and `l` are, the buckets compute the power to the quotient of `2 ^ T` by the
challenge. -/
theorem generateProof_eq_quotient_power (gcdext : Gcdext) (hf : HasClass f x) (hy : HasClass fy y)
    (hk : 0 < k) (hk31 : k < 31) (hl : 0 < l) (hkl : k * l < 2 ^ 32) (hT : T + k * l < 2 ^ 64)
    {intermediates : List Form} (hinter : Intermediates x (k * l) T intermediates)
    {f' fy' : Form}
    (hB : getB H bqfcSerialize fuel (-p) f fy = .ok (B, f', fy')) :
    (∃ proof, generateProof gcdext Reducer.reduced H bqfcSerialize fuel (-p) f fy intermediates k l
        T = .ok proof ∧ HasClass proof (x ^ (2 ^ T / B))) ∨
      generateProof gcdext Reducer.reduced H bqfcSerialize fuel (-p) f fy intermediates k l T =
          .error .diverges ∧ ∃ h : Form, h.PosDef (-p) ∧ ∀ rounds, Reducer.run rounds h = none := by
  have hchallenge := challenge_of_getB hf hy hB
  rcases generateProof_class gcdext (reduced_keepsClass p) hf hy hk hk31 hl hkl hT hinter
    hchallenge with
    hproof | ⟨hdiverges, hfails⟩
  · exact Or.inl hproof
  · exact Or.inr ⟨hdiverges, hfails.exists_form⟩

theorem orderThree_pow (n : Nat) : ∃ _ : PrimeDiscriminant 23, orderThree ^ 2 ^ (2 * n) = orderThree := by
  have hprime : PrimeDiscriminant 23 := ⟨by norm_num, by norm_num⟩
  refine ⟨hprime, ?_⟩
  induction n with
  | zero => rw [mul_zero, pow_zero, pow_one]
  | succ n ih =>
    have hfour : orderThree ^ 2 ^ 2 = orderThree := by
      have heval : qfPow euclid ⟨2, 1, 3⟩ (2 ^ 2) = .ok ⟨2, 1, 3⟩ := by decide +kernel
      have hclass := qfPow_eq euclid (2 ^ 2) (hasClass_form orderThree) orderThree.reduced.isCoprime
      exact form_injective (Except.ok.inj (hclass.symm.trans heval))
    rw [Nat.mul_succ, pow_add, pow_mul, ih, hfour]

/-- A quotient of three bits, in rows of two blocks, for a form of order three. -/
theorem generateProof_eq_quotient_power_23 :
    2 ^ 266 / (2 ^ 263 + 12545) = 7 ∧
    ((∃ proof, generateProof euclid Reducer.reduced smallHashes twoBytes 1 (-23) ⟨2, 1, 3⟩ ⟨2, 1, 3⟩
        (List.replicate 19 ⟨2, 1, 3⟩) 7 2 266 = .ok proof ∧ reduce proof = .ok ⟨2, 1, 3⟩) ∨
      ∃ h : Form, h.PosDef (-23) ∧ ∀ rounds, Reducer.run rounds h = none) := by
  obtain ⟨hprime, _⟩ := orderThree_pow 0
  have hf := hasClass_form orderThree
  have hquotient : 2 ^ 266 / (2 ^ 263 + 12545) = 7 := by decide +kernel
  have hinter : Intermediates orderThree (7 * 2) 266 (List.replicate 19 ⟨2, 1, 3⟩) := by
    intro i hi
    refine ⟨⟨2, 1, 3⟩, List.getElem?_replicate_of_lt (by omega), ?_⟩
    obtain ⟨_, hpow⟩ := orderThree_pow (7 * i)
    rw [show 7 * 2 * i = 2 * (7 * i) by ring, hpow]
    exact hf
  have hseven : orderThree ^ 7 = orderThree := by
    have heval : qfPow euclid ⟨2, 1, 3⟩ 7 = .ok ⟨2, 1, 3⟩ := by decide +kernel
    have hclass := qfPow_eq euclid 7 hf orderThree.reduced.isCoprime
    exact form_injective (Except.ok.inj (hclass.symm.trans heval))
  refine ⟨hquotient, ?_⟩
  rcases generateProof_eq_quotient_power euclid hf hf (by norm_num) (by norm_num) two_pos (by norm_num)
    (by norm_num) hinter getB_orderThree with ⟨proof, hproof, hclass⟩ | ⟨_, hfails⟩
  · rw [hquotient, hseven] at hclass
    exact Or.inl ⟨proof, hproof, reduce_class hclass⟩
  · exact Or.inr hfails

/-- The verifier accepts exactly where the error of `y` is the power of the error of the proof to
the challenge. -/
theorem verifyWesolowskiProof_accepts_iff (gcdext : Gcdext) (hf : HasClass f x) (hy : HasClass fy y)
    (hπ : HasClass fπ π) {f' fy' : Form}
    (hB : getB H bqfcSerialize fuel (-p) f fy = .ok (B, f', fy')) (T : Nat) :
    (∃ is_valid, verifyWesolowskiProof gcdext Reducer.reduced H bqfcSerialize fuel (-p) f fy fπ T =
        .ok is_valid ∧ (is_valid = true ↔ (π / x ^ (2 ^ T / B)) ^ B = y / x ^ 2 ^ T)) ∨
      verifyWesolowskiProof gcdext Reducer.reduced H bqfcSerialize fuel (-p) f fy fπ T =
          .error .diverges ∧ ∃ h : Form, h.PosDef (-p) ∧ ∀ rounds, Reducer.run rounds h = none := by
  have hchallenge := challenge_of_getB hf hy hB
  have hquotient := SegmentedProofs.quotient_equation x y π T B
  rcases verifyWesolowskiProof_class gcdext (reduced_keepsClass p) hf hy hπ hchallenge T with
    ⟨is_valid, hverify, hvalid⟩ | ⟨hdiverges, hfails⟩
  · exact Or.inl ⟨is_valid, hverify, hvalid.trans hquotient⟩
  · exact Or.inr ⟨hdiverges, hfails.exists_form⟩

/-- A statement about discriminant `-23`. -/
theorem verifyWesolowskiProof_accepts_iff_23 :
    (∃ is_valid, verifyWesolowskiProof euclid Reducer.reduced smallHashes twoBytes 1 (-23) ⟨2, 1, 3⟩
      ⟨2, 1, 3⟩ ⟨2, 1, 3⟩ 2 = .ok is_valid) ∨
        ∃ h : Form, h.PosDef (-23) ∧ ∀ rounds, Reducer.run rounds h = none := by
  have : PrimeDiscriminant 23 := ⟨by norm_num, by norm_num⟩
  have hf := hasClass_form orderThree
  rcases verifyWesolowskiProof_accepts_iff euclid hf hf hf getB_orderThree 2 with
    ⟨is_valid, hverify, _⟩ | ⟨_, hfails⟩
  · exact Or.inl ⟨is_valid, hverify⟩
  · exact Or.inr hfails

/-- An honest proof is accepted, unless one of the two calls does not return. -/
theorem proveSlow_verifies (gcdext : Gcdext) (hf : HasClass f x) (hk : 0 < k) (hk31 : k < 31)
    (hl : 0 < l) (hkl : k * l < 2 ^ 31) (hT : T < 2 ^ 53)
    (hB : challenge H bqfcSerialize fuel x (x ^ 2 ^ T) = .ok B) {front : Except PyError Nat}
    (hfront : ReadsZero front k T B) {ceilDouble : Nat → Nat → Nat} (hceil : CeilsExactly ceilDouble) :
    (∃ fy fπ, proveSlow gcdext Reducer.reduced H bqfcSerialize fuel front ceilDouble (-p) f k l T =
        .ok (fy, fπ) ∧ HasClass fy (x ^ 2 ^ T) ∧ HasClass fπ (x ^ (2 ^ T / B)) ∧
        (verifyWesolowskiProof gcdext Reducer.reduced H bqfcSerialize fuel (-p) f fy fπ T = .ok true ∨
          verifyWesolowskiProof gcdext Reducer.reduced H bqfcSerialize fuel (-p) f fy fπ T =
            .error .diverges ∧ ∃ h : Form, h.PosDef (-p) ∧ ∀ rounds, Reducer.run rounds h = none)) ∨
      proveSlow gcdext Reducer.reduced H bqfcSerialize fuel front ceilDouble (-p) f k l T =
        .error .diverges ∧ ∃ h : Form, h.PosDef (-p) ∧ ∀ rounds, Reducer.run rounds h = none := by
  rcases proveSlow_class gcdext (reduced_keepsClass p) hf hk hk31 hl hkl hT hB hfront hceil with
    ⟨⟨fy, fπ⟩, hprove, hy, hπ⟩ | ⟨hdiverges, hfails⟩
  · refine Or.inl ⟨fy, fπ, hprove, hy, hπ, ?_⟩
    rcases verifyWesolowskiProof_class gcdext (reduced_keepsClass p) hf hy hπ hB T with
      ⟨is_valid, hverify, hvalid⟩ | ⟨hdiverges, hfails⟩
    · rw [hvalid.mpr (ExponentQuotient.pow_quotient_mul x B T)] at hverify
      exact Or.inl hverify
    · exact Or.inr ⟨hdiverges, hfails.exists_form⟩
  · exact Or.inr ⟨hdiverges, hfails.exists_form⟩

/-- The squarings of a form of order three up to a quotient of three bits. -/
theorem proveSlow_verifies_23 :
    (∃ fy fπ, proveSlow euclid Reducer.reduced smallHashes twoBytes 1 (.ok 0)
        (fun T n => roundCount n T) (-23) ⟨2, 1, 3⟩ 7 2 266 = .ok (fy, fπ) ∧
        reduce fy = .ok ⟨2, 1, 3⟩ ∧
        (verifyWesolowskiProof euclid Reducer.reduced smallHashes twoBytes 1 (-23) ⟨2, 1, 3⟩ fy fπ 266 =
            .ok true ∨
          verifyWesolowskiProof euclid Reducer.reduced smallHashes twoBytes 1 (-23) ⟨2, 1, 3⟩ fy fπ 266 =
            .error .diverges ∧ ∃ h : Form, h.PosDef (-23) ∧ ∀ rounds, Reducer.run rounds h = none)) ∨
      proveSlow euclid Reducer.reduced smallHashes twoBytes 1 (.ok 0) (fun T n => roundCount n T) (-23)
          ⟨2, 1, 3⟩ 7 2 266 = .error .diverges ∧
        ∃ h : Form, h.PosDef (-23) ∧ ∀ rounds, Reducer.run rounds h = none := by
  obtain ⟨hprime, hpow⟩ := orderThree_pow 133
  have hf := hasClass_form orderThree
  have hB : challenge smallHashes twoBytes 1 orderThree (orderThree ^ 2 ^ 266) =
      .ok (2 ^ 263 + 12545) := by
    rw [hpow]
    exact challenge_of_getB hf hf getB_orderThree
  have hfront : ReadsZero (.ok 0) 7 266 (2 ^ 263 + 12545) := fun _ _ _ => rfl
  have hceil : CeilsExactly (fun T n => roundCount n T) := fun _ _ _ _ => rfl
  rcases proveSlow_verifies euclid hf (by norm_num) (by norm_num) two_pos (by norm_num) (by norm_num) hB
    hfront hceil with ⟨fy, fπ, hprove, hy, _, hverify⟩ | hdiverges
  · rw [hpow] at hy
    exact Or.inl ⟨fy, fπ, hprove, reduce_class hy, hverify⟩
  · exact Or.inr hdiverges

end Results

end Lootbox.Chiavdf

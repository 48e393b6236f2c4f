import Lootbox.Base.RingSamples
import Lootbox.Chiavdf.SegmentBlobs

/-!
# `callback.h` and `provers.h`: the stored forms

While it squares, the main loop stores forms for the provers. A segment of `2 ^ (16 + 2 * i)`
squarings belongs to the bucket `i`, whose forms stay until `kWindowSize` more segments of this
length have begun.
-/

namespace Lootbox.Chiavdf

open Headstart BinaryQF ReducedForm

/-! ### The code -/

def kWindowSize : Nat := 20

def bucketSize1 : Nat := 6554

def bucketSize2 : Nat := 21846

def segmentSize (i : Nat) : Nat := 2 ^ (16 + 2 * i)

/-- The loop of `GetSegmentBucket`, for a length that was shifted. -/
def bucketLoop (length : Nat) : Nat := if 1 < length then bucketLoop (length >>> 2) + 1 else 0
termination_by length
decreasing_by
  rw [Nat.shiftRight_eq_div_pow]
  omega

/-- `GetSegmentBucket` -/
def segmentBucket (length : Nat) : Nat := bucketLoop (length >>> 16)

def bucketsBegin : Nat → Nat
  | 0 => 0
  | 1 => bucketSize1 * kWindowSize
  | i + 2 => bucketsBegin (i + 1) + bucketSize2 * kWindowSize

def bucketSize (bucket : Nat) : Nat := if bucket = 0 then bucketSize1 else bucketSize2

/-- `kl`, which is an `int` in the first fifteen buckets. -/
def bucketSpacing (bucket : Nat) : Nat := if bucket = 0 then 10 else 12 * (segmentSize bucket >>> 18)

def getPosition (exponent bucket : Nat) : Nat :=
  bucketsBegin bucket + exponent / segmentSize bucket % kWindowSize * bucketSize bucket +
    exponent % segmentSize bucket / bucketSpacing bucket

def setAt (fs : List Form) (i : Nat) (f : Form) : Except PyError (List Form) :=
  if i < fs.length then .ok (fs.set i f) else .error .indexError

structure FastAlgorithmCallback where
  segments : Nat
  multi_proc_machine : Bool
  forms : List Form
  checkpoints : List Form
  y_ret : Form
  deriving DecidableEq, Repr

def spaceNeeded (segments : Nat) : Nat := kWindowSize * (bucketSize1 + bucketSize2 * (segments - 1))

def FastAlgorithmCallback.init (segments : Nat) (f : Form) (multi_proc_machine : Bool) :
    FastAlgorithmCallback where
  segments := segments
  multi_proc_machine := multi_proc_machine
  forms := (List.range segments).foldl (fun forms i => forms.set (bucketsBegin i) f)
    (List.replicate (spaceNeeded segments) ⟨0, 0, 0⟩)
  checkpoints := (List.replicate (2 ^ 18) ⟨0, 0, 0⟩).set 0 f
  y_ret := f

section Program

variable (gcdext : Gcdext) (shrink : Form → Option Form) (H : Primitives) (fuel : Nat)

/-- A round of the loop over the buckets. A `kl` that is no `int` counts as an error. -/
def storeForm (data : Form) (iteration : Nat) (forms : List Form) (i : Nat) :
    Except PyError (List Form) :=
  if bucketSpacing i ≥ 2 ^ 31 then .error .overflowError
  else if iteration % segmentSize i % bucketSpacing i = 0 then do
    let f ← reducerReduce shrink data
    setAt forms (getPosition iteration i) f
  else return forms

def storeCheckpoint (data : Form) (iteration : Nat) (checkpoints : List Form) :
    Except PyError (List Form) :=
  if iteration % 2 ^ 16 = 0 then do
    let f ← reducerReduce shrink data
    setAt checkpoints (iteration / 2 ^ 16) f
  else return checkpoints

/-- With many processors `FastStorage` computes the forms again, from `y_ret`. -/
def FastAlgorithmCallback.storeIntermediates (self : FastAlgorithmCallback) (data : Form)
    (iteration : Nat) : Except PyError FastAlgorithmCallback :=
  if self.multi_proc_machine then
    if iteration % 2 ^ 15 = 0 then do
      let f ← reducerReduce shrink data
      return { self with y_ret := f }
    else return self
  else do
    let forms ← (List.range self.segments).foldlM (storeForm shrink data iteration) self.forms
    return { self with forms := forms }

def FastAlgorithmCallback.onIteration (self : FastAlgorithmCallback) (data : Form) (iteration : Nat) :
    Except PyError FastAlgorithmCallback := do
  let iteration := iteration + 1
  let self ← self.storeIntermediates shrink data iteration
  let checkpoints ← storeCheckpoint shrink data iteration self.checkpoints
  return { self with checkpoints := checkpoints }

/-- `k` of an `InterruptableProver` -/
def proverK (length : Nat) : Nat := if length ≤ 2 ^ 16 then 10 else 12

/-- `l` of an `InterruptableProver` -/
def proverL (length : Nat) : Nat := if length ≤ 2 ^ 18 then 1 else length >>> 18

/-- `GetForm` for every block of a segment. -/
def readForms (forms : List Form) (start bucket k l length : Nat) : Except PyError (List Form) := do
  let limit ← roundLimit k l length
  (List.range limit).mapM fun i => need .indexError forms[getPosition (start + i * k * l) bucket]?

/-- The proof of an `InterruptableProver` that nothing stops. -/
def interruptableProof (D : Int) (forms : List Form) (s : Segment) : Except PyError Form := do
  let k := proverK s.length
  let l := proverL s.length
  let intermediates ← readForms forms s.start (segmentBucket s.length) k l s.length
  generateProof gcdext shrink H serializedBytes fuel D s.x s.y intermediates k l s.length

end Program

/-! ### The buckets -/

theorem segmentSize_pos (i : Nat) : 0 < segmentSize i := Nat.two_pow_pos _

theorem segmentSize_dvd {i j : Nat} (h : i ≤ j) : segmentSize i ∣ segmentSize j :=
  Nat.pow_dvd_pow 2 (by omega)

theorem bucketLoop_pow (i : Nat) : bucketLoop (2 ^ (2 * i)) = i := by
  induction i with
  | zero =>
    unfold bucketLoop
    rfl
  | succ i ih =>
    have hshift : 2 ^ (2 * (i + 1)) >>> 2 = 2 ^ (2 * i) := by
      rw [Nat.shiftRight_eq_div_pow, Nat.pow_div (by omega) two_pos]
      congr 1
    unfold bucketLoop
    rw [if_pos (Nat.one_lt_two_pow (by omega)), hshift, ih]

theorem segmentBucket_size (i : Nat) : segmentBucket (segmentSize i) = i := by
  have hshift : segmentSize i >>> 16 = 2 ^ (2 * i) := by
    rw [Nat.shiftRight_eq_div_pow, segmentSize, Nat.pow_div (by omega) two_pos]
    congr 1
    omega
  rw [segmentBucket, hshift, bucketLoop_pow]

theorem bucketSpacing_succ (i : Nat) : bucketSpacing (i + 1) = 12 * 2 ^ (2 * i) := by
  rw [bucketSpacing, if_neg (Nat.succ_ne_zero i), Nat.shiftRight_eq_div_pow, segmentSize,
    Nat.pow_div (by omega) two_pos]
  congr 2
  omega

theorem bucketSpacing_lt {i : Nat} (hi : i < 15) : bucketSpacing i < 2 ^ 31 := by
  cases i with
  | zero => decide
  | succ i =>
    rw [bucketSpacing_succ]
    have hpow : 2 ^ (2 * i) ≤ 2 ^ (2 * 13) := Nat.pow_le_pow_right two_pos (by omega)
    omega

theorem bucketSpacing_pos (i : Nat) : 0 < bucketSpacing i := by
  cases i with
  | zero => decide
  | succ i =>
    rw [bucketSpacing_succ]
    positivity

/-- A prover needs exactly the forms that are stored for its bucket. -/
theorem proverK_mul_proverL (i : Nat) :
    proverK (segmentSize i) * proverL (segmentSize i) = bucketSpacing i := by
  rcases i with _ | _ | i
  · decide
  · decide
  · have hlarge : 2 ^ 18 < segmentSize (i + 1 + 1) := Nat.pow_lt_pow_right one_lt_two (by omega)
    have hk : ¬ segmentSize (i + 1 + 1) ≤ 2 ^ 16 := by omega
    rw [proverK, if_neg hk, proverL, if_neg (by omega), bucketSpacing, if_neg (by omega)]

theorem proverK_bounds (length : Nat) : 0 < proverK length ∧ proverK length < 31 := by
  unfold proverK
  split_ifs <;> omega

theorem proverL_pos (i : Nat) : 0 < proverL (segmentSize i) := by
  have hpos := bucketSpacing_pos i
  rw [← proverK_mul_proverL] at hpos
  exact Nat.pos_of_mul_pos_left hpos

theorem segmentSize_le (i : Nat) : segmentSize i ≤ bucketSize i * bucketSpacing i := by
  cases i with
  | zero => decide
  | succ i =>
    have hsize : segmentSize (i + 1) = 2 ^ 18 * 2 ^ (2 * i) := by
      rw [segmentSize, ← pow_add]
      congr 1
      omega
    rw [bucketSpacing_succ, hsize, bucketSize, if_neg (Nat.succ_ne_zero i), ← mul_assoc]
    exact Nat.mul_le_mul_right _ (by decide)

def bucketRing (i : Nat) : Ring where
  period := segmentSize i
  spacing := bucketSpacing i
  slots := bucketSize i
  window := kWindowSize
  period_pos := segmentSize_pos i
  window_pos := by decide
  fits := segmentSize_le i

theorem getPosition_eq (n i : Nat) : getPosition n i = bucketsBegin i + (bucketRing i).slot n := by
  rw [getPosition, Nat.add_assoc]
  rfl

theorem bucketsBegin_succ (i : Nat) :
    bucketsBegin (i + 1) = bucketsBegin i + (bucketRing i).size := by
  have hsize : (bucketRing i).size = kWindowSize * bucketSize i := rfl
  rw [hsize, mul_comm]
  cases i with
  | zero => exact (Nat.zero_add _).symm
  | succ i => rw [bucketsBegin, bucketSize, if_neg (Nat.succ_ne_zero i)]

theorem bucketsBegin_le {i j : Nat} (h : i < j) :
    bucketsBegin i + (bucketRing i).size ≤ bucketsBegin j := by
  induction j, h using Nat.le_induction with
  | base => exact (bucketsBegin_succ i).ge
  | succ j _ ih =>
    rw [bucketsBegin_succ j]
    omega

theorem bucketsBegin_spaceNeeded (i : Nat) : bucketsBegin (i + 1) = spaceNeeded (i + 1) := by
  induction i with
  | zero => exact mul_comm _ _
  | succ i ih =>
    rw [bucketsBegin_succ, ih, spaceNeeded, spaceNeeded, Nat.add_sub_cancel, Nat.add_sub_cancel]
    have hsize : (bucketRing (i + 1)).size = kWindowSize * bucketSize2 := rfl
    rw [hsize]
    ring

theorem bucket_le_spaceNeeded {i segments : Nat} (h : i < segments) :
    bucketsBegin i + (bucketRing i).size ≤ spaceNeeded segments := by
  obtain ⟨n, rfl⟩ := Nat.exists_eq_add_of_lt h
  rw [← bucketsBegin_spaceNeeded]
  exact bucketsBegin_le h

theorem bucket_ne {i j k k' : Nat} (hij : i ≠ j) (hk : k < (bucketRing i).size)
    (hk' : k' < (bucketRing j).size) : bucketsBegin i + k ≠ bucketsBegin j + k' := by
  rcases Nat.lt_or_gt_of_ne hij with hlt | hlt
  · have hle := bucketsBegin_le hlt
    omega
  · have hle := bucketsBegin_le hlt
    omega

theorem setAt_of_lt {fs : List Form} {i : Nat} {f : Form} (h : i < fs.length) :
    setAt fs i f = .ok (fs.set i f) := if_pos h

/-! ### The forms behind the main loop -/

section Invariant

variable {p : Nat} [hp : PrimeDiscriminant p] {shrink : Form → Option Form} {g : ReducedForm p}
  {n : Nat} {forms : List Form} {data : Form}

def AfterSquarings (g : ReducedForm p) (m : Nat) (f : Form) : Prop := HasClass f (g ^ 2 ^ m)

def Bucket (g : ReducedForm p) (n : Nat) (forms : List Form) (i : Nat) : Prop :=
  (bucketRing i).Held (AfterSquarings g) n fun k => forms[bucketsBegin i + k]?

theorem Bucket.frame {i : Nat} (h : Bucket g n forms i) {j : Nat} (hij : i ≠ j) (m : Nat) (f : Form) :
    Bucket g n (forms.set (getPosition m j) f) i := by
  apply Ring.Held.congr h
  intro k hk
  rw [getPosition_eq]
  exact List.getElem?_set_ne (bucket_ne hij hk ((bucketRing j).slot_lt m)).symm

theorem Bucket.write {i : Nat} (h : Bucket g n forms i)
    (hlength : bucketsBegin i + (bucketRing i).size ≤ forms.length)
    (hsampled : (bucketRing i).Sampled (n + 1)) {f : Form} (hf : AfterSquarings g (n + 1) f) :
    Bucket g (n + 1) (forms.set (getPosition (n + 1) i) f) i := by
  have hslot := (bucketRing i).slot_lt (n + 1)
  rw [getPosition_eq]
  apply Ring.Held.next h
  · intro _
    exact ⟨f, List.getElem?_set_self (by omega), hf⟩
  · intro k _ hne
    have hk := hne hsampled
    exact List.getElem?_set_ne (by omega)

theorem Bucket.skip {i : Nat} (h : Bucket g n forms i) (hsampled : ¬ (bucketRing i).Sampled (n + 1)) :
    Bucket g (n + 1) forms i := by
  apply Ring.Held.next h
  · intro hn
    exact absurd hn hsampled
  · intro k _ _
    rfl

/-- The buckets below `k` hold the forms up to the next squaring already. -/
structure Filled (g : ReducedForm p) (n segments k : Nat) (forms : List Form) : Prop where
  length : forms.length = spaceNeeded segments
  done : ∀ i < segments, i < k → Bucket g (n + 1) forms i
  rest : ∀ i < segments, k ≤ i → Bucket g n forms i

variable {segments : Nat}

theorem storeForm_class (hkeeps : KeepsClass p shrink) (hdata : AfterSquarings g (n + 1) data) {k : Nat}
    (hfits : bucketSpacing k < 2 ^ 31) (hk : k < segments) (h : Filled g n segments k forms) :
    Yields .diverges (Fails p shrink) (Filled g n segments (k + 1))
      (storeForm shrink data (n + 1) forms k) := by
  have hlength := bucket_le_spaceNeeded hk
  rw [← h.length] at hlength
  have hbucket := h.rest k hk le_rfl
  unfold storeForm
  rw [if_neg (not_le.mpr hfits)]
  split_ifs with hsampled
  · apply (reducerReduce_class hkeeps hdata).bind
    intro f hf
    have hslot := (bucketRing k).slot_lt (n + 1)
    have hlt : getPosition (n + 1) k < forms.length := by
      rw [getPosition_eq]
      omega
    rw [setAt_of_lt hlt]
    apply Yields.pure
    constructor
    · rw [List.length_set, h.length]
    · intro i hi hik
      rcases Nat.lt_succ_iff_lt_or_eq.mp hik with hlt | rfl
      · exact (h.done i hi hlt).frame hlt.ne _ f
      · exact hbucket.write hlength hsampled hf
    · intro i hi hik
      exact (h.rest i hi (by omega)).frame (by omega) _ f
  · apply Yields.pure
    constructor
    · exact h.length
    · intro i hi hik
      rcases Nat.lt_succ_iff_lt_or_eq.mp hik with hlt | rfl
      · exact h.done i hi hlt
      · exact hbucket.skip hsampled
    · intro i hi hik
      exact h.rest i hi (by omega)

namespace FastAlgorithmCallback

variable {store : FastAlgorithmCallback}

/-- What is stored after `n` squarings on a machine with few processors. -/
structure UpToDate (g : ReducedForm p) (n : Nat) (store : FastAlgorithmCallback) : Prop where
  multi_proc_machine : store.multi_proc_machine = false
  segments : store.segments ≤ 15
  length : store.forms.length = spaceNeeded store.segments
  forms : ∀ i < store.segments, Bucket g n store.forms i
  length_checkpoints : store.checkpoints.length = 2 ^ 18
  checkpoints : ∀ i, i * 2 ^ 16 ≤ n →
    ∃ f, store.checkpoints[i]? = some f ∧ AfterSquarings g (i * 2 ^ 16) f

theorem UpToDate.nextCheckpoint (h : store.UpToDate g n) (hkeeps : KeepsClass p shrink)
    (hdata : AfterSquarings g (n + 1) data) (hroom : (n + 1) / 2 ^ 16 < 2 ^ 18) :
    Yields .diverges (Fails p shrink)
      (fun checkpoints : List Form => checkpoints.length = 2 ^ 18 ∧ ∀ i, i * 2 ^ 16 ≤ n + 1 →
        ∃ f, checkpoints[i]? = some f ∧ AfterSquarings g (i * 2 ^ 16) f)
      (storeCheckpoint shrink data (n + 1) store.checkpoints) := by
  have hlength := h.length_checkpoints
  unfold storeCheckpoint
  split_ifs with hdue
  · apply (reducerReduce_class hkeeps hdata).bind
    intro f hf
    rw [setAt_of_lt (by omega)]
    apply Yields.pure
    refine ⟨by rw [List.length_set, hlength], ?_⟩
    intro i hi
    by_cases heq : i = (n + 1) / 2 ^ 16
    · have hmul : i * 2 ^ 16 = n + 1 := by omega
      refine ⟨f, ?_, hmul ▸ hf⟩
      rw [heq]
      exact List.getElem?_set_self (by omega)
    · obtain ⟨f', hf', hclass⟩ := h.checkpoints i (by omega)
      exact ⟨f', by rw [List.getElem?_set_ne (Ne.symm heq), hf'], hclass⟩
  · apply Yields.pure
    refine ⟨hlength, ?_⟩
    intro i hi
    exact h.checkpoints i (by omega)

theorem UpToDate.onIteration (h : store.UpToDate g n) (hkeeps : KeepsClass p shrink)
    (hdata : AfterSquarings g (n + 1) data) (hroom : (n + 1) / 2 ^ 16 < 2 ^ 18) :
    Yields .diverges (Fails p shrink)
      (fun store' : FastAlgorithmCallback => store'.UpToDate g (n + 1) ∧ store'.segments = store.segments)
      (store.onIteration shrink data n) := by
  have hfilled : Yields .diverges (Fails p shrink) (Filled g n store.segments store.segments)
      ((List.range store.segments).foldlM (storeForm shrink data (n + 1)) store.forms) := by
    apply Yields.foldlM_range
    · refine ⟨h.length, ?_, fun i hi _ => h.forms i hi⟩
      intro i _ hi
      omega
    · intro k hk forms hforms
      exact storeForm_class hkeeps hdata (bucketSpacing_lt (hk.trans_le h.segments)) hk hforms
  unfold FastAlgorithmCallback.onIteration storeIntermediates
  dsimp only
  rw [h.multi_proc_machine, if_neg Bool.false_ne_true, bind_assoc]
  apply hfilled.bind
  intro forms hforms
  rw [pure_bind]
  apply (h.nextCheckpoint hkeeps hdata hroom).bind
  intro checkpoints hcheckpoints
  apply Yields.pure
  exact ⟨⟨rfl, h.segments, hforms.length, fun i hi => hforms.done i hi hi, hcheckpoints.1,
    hcheckpoints.2⟩, rfl⟩

theorem upToDate_init {segments : Nat} (hsegments : segments ≤ 15) {f : Form} (hf : HasClass f g) :
    (init segments f false).UpToDate g 0 := by
  have hf_zero : AfterSquarings g 0 f := by
    rw [AfterSquarings, pow_zero, pow_one]
    exact hf
  have hloop : ∀ (n : Nat) (forms : List Form),
      ((List.range n).foldl (fun forms i => forms.set (bucketsBegin i) f) forms).length =
        forms.length ∧ ∀ i < n, bucketsBegin i < forms.length →
      ((List.range n).foldl (fun forms i => forms.set (bucketsBegin i) f) forms)[bucketsBegin i]? =
        some f := by
    intro n forms
    induction n with
    | zero => exact ⟨rfl, fun i hi => absurd hi (Nat.not_lt_zero i)⟩
    | succ n ih =>
      rw [List.range_succ, List.foldl_append, List.foldl_cons, List.foldl_nil, List.length_set]
      refine ⟨ih.1, ?_⟩
      intro i hi hlt
      rcases Nat.lt_succ_iff_lt_or_eq.mp hi with hin | rfl
      · rw [List.getElem?_set, ih.2 i hin hlt]
        split_ifs with heq hlt'
        · rfl
        · omega
        · rfl
      · exact List.getElem?_set_self (ih.1.symm ▸ hlt)
  obtain ⟨hlength, hbegin⟩ := hloop segments (List.replicate (spaceNeeded segments) ⟨0, 0, 0⟩)
  rw [List.length_replicate] at hlength hbegin
  refine ⟨rfl, hsegments, ?_, ?_, ?_, ?_⟩
  · exact hlength
  · intro i hi
    have hle : bucketsBegin i + (bucketRing i).size ≤ spaceNeeded segments := bucket_le_spaceNeeded hi
    have hpos := ((bucketRing i).slot_lt 0).pos
    exact Ring.Held.start ⟨f, hbegin i hi (by omega), hf_zero⟩
  · exact (List.length_set).trans List.length_replicate
  · intro i hi
    obtain rfl : i = 0 := by omega
    refine ⟨f, List.getElem?_set_self (by rw [List.length_replicate]; norm_num), ?_⟩
    rw [Nat.zero_mul]
    exact hf_zero

end FastAlgorithmCallback

/-! ### The provers of segments -/

/-- A segment at its place among those of its length. -/
structure InBucket (s : Segment) (i position : Nat) : Prop where
  start : s.start = position * segmentSize i
  length : s.length = segmentSize i

variable {s : Segment} {i position : Nat}

theorem InBucket.kept (h : InBucket s i position) (hn : s.start + s.length ≤ n)
    (hwindow : n / segmentSize i < position + kWindowSize) {j : Nat}
    (hj : bucketSpacing i * j < s.length) : (bucketRing i).Kept n (s.start + bucketSpacing i * j) := by
  have hlt : bucketSpacing i * j < segmentSize i := h.length ▸ hj
  have hdiv : (s.start + bucketSpacing i * j) / segmentSize i = position := by
    rw [h.start, Nat.mul_comm position, Nat.mul_add_div (segmentSize_pos i), Nat.div_eq_of_lt hlt,
      Nat.add_zero]
  have hmod : (s.start + bucketSpacing i * j) % segmentSize i = bucketSpacing i * j := by
    rw [h.start, Nat.mul_comm position, Nat.mul_add_mod, Nat.mod_eq_of_lt hlt]
  refine ⟨by omega, ?_, ?_⟩
  · have hsampled : (s.start + bucketSpacing i * j) % segmentSize i % bucketSpacing i = 0 := by
      rw [hmod, Nat.mul_mod_right]
    exact hsampled
  · have hlater : n / segmentSize i < (s.start + bucketSpacing i * j) / segmentSize i + kWindowSize := by
      rw [hdiv]
      exact hwindow
    exact hlater

theorem exists_readForms (hbucket : Bucket g n forms i) (h : InBucket s i position)
    (hn : s.start + s.length ≤ n) (hwindow : n / segmentSize i < position + kWindowSize) {k l : Nat}
    (hkl : k * l = bucketSpacing i) (hfits : bucketSpacing i < 2 ^ 31) : ∃ fs,
      readForms forms s.start i k l s.length = .ok fs ∧
      Intermediates (g ^ 2 ^ s.start) (k * l) s.length fs := by
  have hpos : 0 < k * l := hkl ▸ bucketSpacing_pos i
  have hread : ∀ j ∈ List.range (roundCount (k * l) s.length), ∃ f,
      forms[getPosition (s.start + j * k * l) i]? = some f ∧
        HasClass f ((g ^ 2 ^ s.start) ^ 2 ^ (k * l * j)) := by
    intro j hj
    have hlt := (lt_roundCount_iff hpos).mp (List.mem_range.mp hj)
    have hexponent : s.start + j * k * l = s.start + bucketSpacing i * j := by
      rw [← hkl]
      ring
    obtain ⟨f, hf, hclass⟩ := hbucket _ (h.kept hn hwindow (hkl ▸ hlt))
    refine ⟨f, ?_, ?_⟩
    · rw [hexponent, getPosition_eq]
      exact hf
    · rw [← pow_mul, ← pow_add, hkl]
      exact hclass
  obtain ⟨fs, hfs⟩ := exists_forall₂ hread
  refine ⟨fs, ?_, ?_⟩
  · rw [readForms, roundLimit_eq hpos (by omega), ok_bind]
    exact mapM_eq_ok_iff.mpr (hfs.imp fun j f hf => need_eq_ok_iff.mpr hf.1)
  intro j hj
  have hlt := (lt_roundCount_iff hpos).mpr hj
  have hlen : j < fs.length := by
    rw [← hfs.length_eq, List.length_range]
    exact hlt
  have hget := hfs.get (by rw [List.length_range]; exact hlt) hlen
  rw [List.get_eq_getElem, List.getElem_range] at hget
  exact ⟨fs[j], List.getElem?_eq_getElem hlen, hget.2⟩

theorem interruptableProof_eq (gcdext : Gcdext) (shrink : Form → Option Form) (H : Primitives)
    (fuel : Nat) (D : Int) (hfits : bucketSpacing i < 2 ^ 31) (hbucket : Bucket g n forms i)
    (h : InBucket s i position) (hn : s.start + s.length ≤ n)
    (hwindow : n / segmentSize i < position + kWindowSize) : ∃ fs,
      interruptableProof gcdext shrink H fuel D forms s = generateProof gcdext shrink H
        serializedBytes fuel D s.x s.y fs (proverK s.length) (proverL s.length) s.length ∧
      Intermediates (g ^ 2 ^ s.start) (proverK s.length * proverL s.length) s.length fs := by
  have hkl := proverK_mul_proverL i
  rw [← h.length] at hkl
  obtain ⟨fs, hread, hinter⟩ := exists_readForms hbucket h hn hwindow hkl hfits
  refine ⟨fs, ?_, hinter⟩
  unfold interruptableProof
  dsimp only
  rw [h.length, segmentBucket_size, ← h.length, hread, ok_bind]

variable {H : Primitives} {fuel : Nat}

theorem interruptableProof_class (gcdext : Gcdext) (hkeeps : KeepsClass p shrink)
    (hfits : bucketSpacing i < 2 ^ 31) (hbucket : Bucket g n forms i) (h : InBucket s i position)
    (hn : s.start + s.length ≤ n) (hwindow : n / segmentSize i < position + kWindowSize)
    (hx : AfterSquarings g s.start s.x) (hy : AfterSquarings g (s.start + s.length) s.y) {B : Nat}
    (hB : IsChallenge p H serializedBytes fuel (g ^ 2 ^ s.start) (g ^ 2 ^ (s.start + s.length)) B) :
    YieldsClass shrink ((g ^ 2 ^ s.start) ^ (2 ^ s.length / B))
      (interruptableProof gcdext shrink H fuel (-p) forms s) := by
  obtain ⟨fs, heq, hinter⟩ := interruptableProof_eq gcdext shrink H fuel (-p) hfits hbucket h hn hwindow
  rw [heq]
  have hkl := proverK_mul_proverL i
  have hl := proverL_pos i
  rw [← h.length] at hkl hl
  obtain ⟨hk, hk31⟩ := proverK_bounds s.length
  have hT : s.length + proverK s.length * proverL s.length < 2 ^ 64 := by
    have hslots : bucketSize i ≤ bucketSize2 := by
      unfold bucketSize
      split_ifs <;> decide
    have hlength := (segmentSize_le i).trans (Nat.mul_le_mul hslots hfits.le)
    rw [hkl, h.length]
    unfold bucketSize2 at hlength
    omega
  exact generateProof_class gcdext hkeeps hx hy hk hk31 hl (by omega) hT hinter hB

theorem proved_of_interruptableProof (gcdext : Gcdext) (hkeeps : KeepsClass p shrink)
    (hfits : bucketSpacing i < 2 ^ 31) (hbucket : Bucket g n forms i) (h : InBucket s i position)
    (hn : s.start + s.length ≤ n) (hwindow : n / segmentSize i < position + kWindowSize)
    (hx : AfterSquarings g s.start s.x) (hy : AfterSquarings g (s.start + s.length) s.y) {proof : Form}
    (hproof : interruptableProof gcdext shrink H fuel (-p) forms s = .ok proof) :
    Proved H fuel g { s with proof := proof } := by
  obtain ⟨fs, heq, _⟩ := interruptableProof_eq gcdext shrink H fuel (-p) hfits hbucket h hn hwindow
  obtain ⟨B, hB⟩ := exists_challenge_of_generateProof hx hy (heq.symm.trans hproof)
  have hclass := interruptableProof_class gcdext hkeeps hfits hbucket h hn hwindow hx hy hB
  exact ⟨hx, hy, B, hB, hclass.of_eq_ok hproof⟩

end Invariant

end Lootbox.Chiavdf

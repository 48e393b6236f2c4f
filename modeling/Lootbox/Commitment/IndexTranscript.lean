import Lootbox.Base.FixedWidthCode
import Lootbox.Commitment.FunctionRelation
import Lootbox.Commitment.RationalSumcheck

/-!
# The index in the transcript

The generators of `Marlin::prove` and `Marlin::verify` start from the bytes of the verifier
key. The number of outputs is written three times, and the number of entries not at all.
-/

namespace Lootbox.AcCompiler

open FunctionRelation

namespace R1CSfIndex

/-- `ToBytes` -/
def write (index_info : R1CSfIndex) : List UInt8 :=
  u64Bytes index_info.numberOfConstraints ++ u64Bytes index_info.numberOfInputRows ++
    u64Bytes index_info.numberOfOutputs ++ u64Bytes index_info.numberOfOutputs ++
    u64Bytes index_info.numberOfOutputs

/-- Each size is a `usize`. -/
structure InRange (index_info : R1CSfIndex) : Prop where
  constraints : index_info.numberOfConstraints < 2 ^ 64
  input_rows : index_info.numberOfInputRows < 2 ^ 64
  outputs : index_info.numberOfOutputs < 2 ^ 64
  non_zero_entries : index_info.numberOfNonZeroEntries < 2 ^ 64

def writtenSizes (index_info : R1CSfIndex) : Nat × Nat × Nat :=
  (index_info.numberOfConstraints, index_info.numberOfInputRows, index_info.numberOfOutputs)

theorem ext_iff_writtenSizes {i j : R1CSfIndex} :
    i = j ↔ i.writtenSizes = j.writtenSizes ∧
      i.numberOfNonZeroEntries = j.numberOfNonZeroEntries := by
  cases i
  cases j
  simp [writtenSizes, and_assoc]

end R1CSfIndex

def u64Code : FixedWidthCode (Fin (2 ^ 64)) UInt8 where
  encode x := u64Bytes x
  width := 8
  length_encode x := by simp [u64Bytes]
  injective := by
    intro x y h
    have hd : ∀ i < 8, (x : Nat) / 256 ^ i % 256 = (y : Nat) / 256 ^ i % 256 := by
      intro i hi
      have hb := congrArg (fun bs : List UInt8 => bs[i]?.map UInt8.toNat) h
      simpa [u64Bytes, hi] using hb
    have hm := mod_pow_eq_of_digits 8 hd
    have hp : 256 ^ 8 = 2 ^ 64 := by norm_num
    rw [hp, Nat.mod_eq_of_lt x.isLt, Nat.mod_eq_of_lt y.isLt] at hm
    exact Fin.ext hm

theorem u64Bytes_append_inj {x y : Nat} {r s : List UInt8} (hx : x < 2 ^ 64) (hy : y < 2 ^ 64) :
    u64Bytes x ++ r = u64Bytes y ++ s ↔ x = y ∧ r = s :=
  (u64Code.append_inj (a := ⟨x, hx⟩) (b := ⟨y, hy⟩)).trans (and_congr_left' Fin.mk_eq_mk)

theorem R1CSfIndex.write_append_inj {i j : R1CSfIndex} {r s : List UInt8}
    (hi : i.InRange) (hj : j.InRange) :
    i.write ++ r = j.write ++ s ↔ i.writtenSizes = j.writtenSizes ∧ r = s := by
  simp only [write, List.append_assoc, writtenSizes, Prod.mk.injEq,
    u64Bytes_append_inj hi.constraints hj.constraints,
    u64Bytes_append_inj hi.input_rows hj.input_rows,
    u64Bytes_append_inj hi.outputs hj.outputs]
  tauto

end Lootbox.AcCompiler

namespace Lootbox.IndexPrivateMarlin

open AcCompiler FunctionRelation

/-- The key without that of the commitment scheme, which is not written. -/
structure VerifierKey (C : Type) where
  commits : List C
  indexInfo : R1CSfIndex
  deriving DecidableEq, Repr

/-- A vector writes its items and no length. -/
def VerifierKey.write {C : Type} (commitmentBytes : C → List UInt8) (vk : VerifierKey C) :
    List UInt8 :=
  vk.indexInfo.write ++ vk.commits.flatMap commitmentBytes

/-- What `FS::initialize` reads, in `prove` and in `verify` -/
def initializeBytes {F C : Type} (commitmentBytes : C → List UInt8) (fieldBytes : F → List UInt8)
    (vk : VerifierKey C) (public_input : List F) : List UInt8 :=
  protocolBytes "INDEX-PRIVATE-MARLIN" ++ vk.write commitmentBytes ++
    public_input.flatMap fieldBytes

/-- The keys have the same domains `K` and `H`. -/
def SameDomains {F : Type} [Field F] (params : EvaluationDomain.FftParameters F)
    (i j : R1CSfIndex) : Prop :=
  params.radix2Domain i.numberOfNonZeroEntries = params.radix2Domain j.numberOfNonZeroEntries ∧
    params.radix2Domain i.numberOfConstraints = params.radix2Domain j.numberOfConstraints

/-- The keys differ in `number_of_non_zero_entries` and nowhere else. -/
def OnlyEntriesDiffer {C : Type} (vk vk' : VerifierKey C) : Prop :=
  vk.indexInfo.writtenSizes = vk'.indexInfo.writtenSizes ∧ vk.commits = vk'.commits ∧
    vk.indexInfo.numberOfNonZeroEntries ≠ vk'.indexInfo.numberOfNonZeroEntries

section Transcript

variable {F C : Type} (code : FixedWidthCode C UInt8) {vk vk' : VerifierKey C}
  (hi : vk.indexInfo.InRange) (hj : vk'.indexInfo.InRange)
  (hl : vk.commits.length = vk'.commits.length)
include hi hj hl

theorem write_append_inj {r s : List UInt8} :
    vk.write code.encode ++ r = vk'.write code.encode ++ s ↔
      vk.indexInfo.writtenSizes = vk'.indexInfo.writtenSizes ∧ vk.commits = vk'.commits ∧
        r = s := by
  rw [VerifierKey.write, VerifierKey.write, List.append_assoc, List.append_assoc,
    R1CSfIndex.write_append_inj hi hj, code.flatMap_append_inj hl]

theorem write_inj :
    vk.write code.encode = vk'.write code.encode ↔
      vk.indexInfo.writtenSizes = vk'.indexInfo.writtenSizes ∧ vk.commits = vk'.commits := by
  simpa using write_append_inj code hi hj hl (r := []) (s := [])

theorem initializeBytes_inj (fieldBytes : F → List UInt8) {x x' : List F} :
    initializeBytes code.encode fieldBytes vk x = initializeBytes code.encode fieldBytes vk' x' ↔
      vk.indexInfo.writtenSizes = vk'.indexInfo.writtenSizes ∧ vk.commits = vk'.commits ∧
        x.flatMap fieldBytes = x'.flatMap fieldBytes := by
  rw [initializeBytes, initializeBytes, List.append_assoc, List.append_assoc,
    List.append_cancel_left_eq, write_append_inj code hi hj hl]

/-- The bytes of the key determine it unless another key differs in the number of entries only,
and the domains unless that changes `K`. -/
theorem transcript_binds_index_iff [Field F] (params : EvaluationDomain.FftParameters F)
    (fieldBytes : F → List UInt8) :
    ((vk.write code.encode = vk'.write code.encode →
        vk.indexInfo = vk'.indexInfo ∧ vk.commits = vk'.commits) ↔
      ¬ OnlyEntriesDiffer vk vk') ∧
    ((∀ x x', initializeBytes code.encode fieldBytes vk x =
          initializeBytes code.encode fieldBytes vk' x' →
        SameDomains params vk.indexInfo vk'.indexInfo) ↔
      ¬ (OnlyEntriesDiffer vk vk' ∧ params.radix2Domain vk.indexInfo.numberOfNonZeroEntries ≠
        params.radix2Domain vk'.indexInfo.numberOfNonZeroEntries)) := by
  constructor
  · rw [write_inj code hi hj hl, R1CSfIndex.ext_iff_writtenSizes, OnlyEntriesDiffer]
    tauto
  · have hconstraints : vk.indexInfo.writtenSizes = vk'.indexInfo.writtenSizes →
        vk.indexInfo.numberOfConstraints = vk'.indexInfo.numberOfConstraints := congrArg Prod.fst
    constructor
    · rintro h ⟨⟨hsizes, hcommits, -⟩, hk⟩
      exact hk (h [] [] ((initializeBytes_inj code hi hj hl fieldBytes).mpr
        ⟨hsizes, hcommits, rfl⟩)).1
    · intro h x x' hx
      obtain ⟨hsizes, hcommits, -⟩ := (initializeBytes_inj code hi hj hl fieldBytes).mp hx
      refine ⟨?_, by rw [hconstraints hsizes]⟩
      by_contra hk
      refine h ⟨⟨hsizes, hcommits, ?_⟩, hk⟩
      intro he
      exact hk (by rw [he])

end Transcript

/-! Three multiplications next to three additions: `K` has four elements or eight. -/

def threeMultiplications : Circuit :=
  ⟨[⟨0, 0, .Mul⟩, ⟨1, 0, .Mul⟩, ⟨2, 0, .Mul⟩], 0, 1⟩

def byteCode : FixedWidthCode UInt8 UInt8 where
  encode b := [b]
  width := 1
  length_encode _ := rfl
  injective := List.singleton_injective

def keyOf (circuit : Circuit) : VerifierKey UInt8 :=
  ⟨List.replicate 9 0, (ac2tft (F := ZMod 17) circuit).1⟩

theorem keyOf_inRange : (keyOf threeMultiplications).indexInfo.InRange ∧
    (keyOf threeAdditions).indexInfo.InRange :=
  ⟨⟨by decide, by decide, by decide, by decide⟩, by decide, by decide, by decide, by decide⟩

theorem keyOf_domains :
    params17.radix2Domain (keyOf threeMultiplications).indexInfo.numberOfNonZeroEntries ≠
      params17.radix2Domain (keyOf threeAdditions).indexInfo.numberOfNonZeroEntries := by
  intro h
  have hclog_mul :
      Nat.clog 2 (keyOf threeMultiplications).indexInfo.numberOfNonZeroEntries = 2 := by
    change Nat.clog 2 3 = 2
    norm_num
  have hclog_add : Nat.clog 2 (keyOf threeAdditions).indexInfo.numberOfNonZeroEntries = 3 := by
    change Nat.clog 2 6 = 3
    norm_num
  obtain ⟨domain, hd⟩ := params17.exists_radix2Domain (by rw [hclog_mul]; decide)
  have hmul := params17.radix2Domain_size hd
  have hadd := params17.radix2Domain_size (h ▸ hd)
  rw [hclog_mul] at hmul
  rw [hclog_add, hmul] at hadd
  exact absurd hadd (by decide)

theorem transcript_binds_index_iff_circuits :
    (keyOf threeMultiplications).indexInfo.InRange ∧ (keyOf threeAdditions).indexInfo.InRange ∧
    (((keyOf threeMultiplications).write byteCode.encode =
          (keyOf threeAdditions).write byteCode.encode →
        (keyOf threeMultiplications).indexInfo = (keyOf threeAdditions).indexInfo ∧
          (keyOf threeMultiplications).commits = (keyOf threeAdditions).commits) ↔
      ¬ OnlyEntriesDiffer (keyOf threeMultiplications) (keyOf threeAdditions)) :=
  ⟨keyOf_inRange.1, keyOf_inRange.2, (transcript_binds_index_iff byteCode keyOf_inRange.1
    keyOf_inRange.2 rfl params17 fun x : ZMod 17 => [UInt8.ofNat x.val]).1⟩

/-- The two keys write the same bytes. -/
theorem circuits_share_transcript :
    ¬ ((keyOf threeMultiplications).write byteCode.encode =
          (keyOf threeAdditions).write byteCode.encode →
        (keyOf threeMultiplications).indexInfo = (keyOf threeAdditions).indexInfo ∧
          (keyOf threeMultiplications).commits = (keyOf threeAdditions).commits) ∧
      initializeBytes byteCode.encode (fun x : ZMod 17 => [UInt8.ofNat x.val])
          (keyOf threeMultiplications) [] =
        initializeBytes byteCode.encode (fun x : ZMod 17 => [UInt8.ofNat x.val])
          (keyOf threeAdditions) [] ∧
      ¬ SameDomains params17 (keyOf threeMultiplications).indexInfo
        (keyOf threeAdditions).indexInfo := by
  refine ⟨?_, rfl, fun h => keyOf_domains h.1⟩
  intro h
  exact absurd (congrArg R1CSfIndex.numberOfNonZeroEntries (h rfl).1) (by decide)

end Lootbox.IndexPrivateMarlin

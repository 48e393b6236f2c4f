import Lootbox.Commitment.WinCircuit
import Lootbox.Protocol.FunctionalCommitment

/-!
# `ProbabilityVerification.py`: counting the wins of a sample

The lines of the bulletin board hold an output and a proof. The script hands both to the
`verify` binary, which reads the output as a number, and then counts the outputs whose text
is `1`.
-/

namespace Lootbox.ProbabilityVerification

open KZG10 AcCompiler

inductive Failure
  | python (e : PyException)
  | calledProcessError
  deriving DecidableEq, Repr

/-! ### Text -/

/-- A file opened as text gives `\n` for every end of a line. -/
def universalNewlines : List Char → List Char
  | '\r' :: '\n' :: cs => '\n' :: universalNewlines cs
  | '\r' :: cs => '\n' :: universalNewlines cs
  | c :: cs => c :: universalNewlines cs
  | [] => []

/-- `f.readlines()`; `line` is what has been read of the current line, in reverse. -/
def splitLines (line : List Char) : List Char → List (List Char)
  | [] => if line = [] then [] else [line.reverse]
  | '\n' :: cs => ('\n' :: line).reverse :: splitLines [] cs
  | c :: cs => splitLines (c :: line) cs

def readlines (content : String) : List (List Char) :=
  splitLines [] (universalNewlines content.toList)

/-- `str.isspace` of one character. -/
def isSpace (c : Char) : Bool :=
  let n := c.toNat
  (9 ≤ n && n ≤ 13) || (28 ≤ n && n ≤ 32) || n == 0x85 || n == 0xa0 || n == 0x1680 ||
    (0x2000 ≤ n && n ≤ 0x200a) || n == 0x2028 || n == 0x2029 || n == 0x202f || n == 0x205f ||
    n == 0x3000

def strip (cs : List Char) : List Char :=
  ((cs.dropWhile isSpace).reverse.dropWhile isSpace).reverse

def split (cs : List Char) : List String := (cs.splitOn '#').map String.ofList

/-- `a, b = line.strip().split("#")` -/
def evalProof (line : List Char) : Except Failure (String × String) :=
  match split (strip line) with
  | [y, W] => .ok (y, W)
  | _ => .error (.python (.valueError "cannot unpack"))

/-! ### What the binary reads -/

def checkedI32 (v : Int) : Option Int := if -2 ^ 31 ≤ v ∧ v < 2 ^ 31 then some v else none

/-- One digit of `i32::from_str`, which adds the digits of a positive number and subtracts
those of a negative one. -/
def i32Step (sign : Int) (result : Int) (c : Char) : Option Int := do
  let x ← (if '0' ≤ c ∧ c ≤ '9' then some (c.toNat - '0'.toNat) else none : Option Nat)
  let result ← checkedI32 (result * 10)
  checkedI32 (result + sign * x)

/-- `i32::from_str` -/
def parseI32 (src : String) : Option Int :=
  match src.toList with
  | [] => none
  | ['+'] => none
  | ['-'] => none
  | '+' :: digits => digits.foldlM (i32Step 1) 0
  | '-' :: digits => digits.foldlM (i32Step (-1)) 0
  | digits => digits.foldlM (i32Step 1) 0

/-- `(input >> n) & 1` -/
def bit (input : Int) (n : Nat) : Int := (input >>> n) % 2

/-- The output of the circuit that `verify.rs` builds for its arguments `a` and `b`. -/
def circuitOutput (F : Type) [Field F] (a b : String) : Option F := do
  let input_a ← parseI32 a
  let input_b ← parseI32 b
  xorCircuitOutput ((List.range 3).map fun n => ((bit input_a n : F), (bit input_b n : F)))

/-! ### The script -/

/-- `random.choice` of the seeded generator, from the `drawn`-th call on. -/
def generateRandomString (choice : Nat → Char) (drawn length : Nat) : String :=
  String.ofList ((List.range length).map fun i => choice (drawn + i))

def mapToTestData (sampleSize : Nat) (choice : Nat → Char) : List (String × String) :=
  (List.range sampleSize).map fun k =>
    (generateRandomString choice (20 * k) 10, generateRandomString choice (20 * k + 10) 10)

/-- What the script finds around it: the files of the bulletin board, the seed from
`PRB.eval`, the generator behind `random.choice`, and the output of the programs it calls. -/
structure Environment (Seed : Type) where
  commitmentFile : String
  evalProofFile : String
  prbEval : Except Failure Seed
  sampleSize : Nat
  choice : Seed → Nat → Char
  checkOutput : List String → Except Failure String

variable {r : Nat} {Seed : Type} (sha256 : String → BitVec 256) (env : Environment Seed)

def rustVerifyEvalProof (r : Nat) (c : List String) (input : LootBoxInput) (y W : String) :
    Except Failure Bool := do
  let i ← (input.getFieldInput r sha256).mapError .python
  let a := toString (i.val &&& 0b111)
  let b := toString ((i.val &&& 0b111000) >>> 3)
  let c0 ← need (.python .indexError) (PySeq.get c 0)
  let c1 ← need (.python .indexError) (PySeq.get c 1)
  let output ← env.checkOutput ["./functional-commitment/verify", W, c0, c1, a, b, y]
  return output == "Verify Success!"

/-- `for i, r in enumerate(result): if not r: return False` -/
def allVerified : List (Except Failure Bool) → Except Failure Bool
  | [] => .ok true
  | result :: results => do
    let verified ← result
    if verified then allVerified results else return false

/-- `sum([1 for y in ys if y == "1"])` -/
def countOnes (ys : List String) : Nat := ((ys.filter (· == "1")).map fun _ => 1).sum

/-- `Rust_verifyProbability`; with `True` comes the `winningNumber` of the last message. -/
def rustVerifyProbability (r : Nat) : Except Failure (Option Nat) := do
  let c := split (strip (universalNewlines env.commitmentFile.toList))
  let seed ← env.prbEval
  let testData := mapToTestData env.sampleSize (env.choice seed)
  let evalProofs ← (readlines env.evalProofFile).mapM evalProof
  if testData.length ≠ evalProofs.length then return none
  let verified ← allVerified (List.zipWith (fun d p =>
    rustVerifyEvalProof sha256 env r c ⟨d.1, d.2⟩ p.1 p.2) testData evalProofs)
  if ¬ verified then return none
  let winningNumber := countOnes (evalProofs.map Prod.fst)
  if testData.length = 0 then throw (.python .zeroDivisionError)
  return some winningNumber

/-! ### The claim about the binary, and the statistic -/

/-- What the binary accepts: an output that reads as a number with the value of the circuit. -/
def Correct (F : Type) [Field F] (a b y : String) : Prop :=
  ∃ v, parseI32 y = some v ∧ circuitOutput F a b = some (v : F)

/-- The low three bits of a sampled input and the next three are complementary. -/
def winning (r : Nat) (d : String × String) : Bool :=
  let i := ((sha256 (d.1 ++ d.2)).toNat : ZMod r).val
  (i &&& 0b111) ^^^ ((i &&& 0b111000) >>> 3) == 7

/-- The only text of the proofs on the board that reads as one is `1` itself. -/
def PlainOnes (evalProofFile : String) : Prop :=
  ∀ evalProofs, (readlines evalProofFile).mapM evalProof = .ok evalProofs →
    ∀ p ∈ evalProofs, parseI32 p.1 = some 1 → p.1 = "1"

/-! ### Numbers -/

theorem foldlM_i32Step_range (sign : Int) (digits : List Char) :
    ∀ v result : Int, -2 ^ 31 ≤ v ∧ v < 2 ^ 31 → digits.foldlM (i32Step sign) v = some result →
      -2 ^ 31 ≤ result ∧ result < 2 ^ 31 := by
  induction digits with
  | nil =>
    intro v result hv h
    cases h
    exact hv
  | cons c digits ih =>
    intro v result _ h
    rw [List.foldlM_cons] at h
    obtain ⟨w, hw, hrest⟩ := Option.bind_eq_some_iff.mp h
    refine ih w result ?_ hrest
    unfold i32Step at hw
    obtain ⟨x, _, hw⟩ := Option.bind_eq_some_iff.mp hw
    obtain ⟨m, _, hw⟩ := Option.bind_eq_some_iff.mp hw
    unfold checkedI32 at hw
    split at hw
    · rename_i hrange
      cases hw
      exact hrange
    · cases hw

theorem parseI32_range {src : String} {v : Int} (h : parseI32 src = some v) :
    -2 ^ 31 ≤ v ∧ v < 2 ^ 31 := by
  unfold parseI32 at h
  have hzero : -2 ^ 31 ≤ (0 : Int) ∧ (0 : Int) < 2 ^ 31 := by decide
  split at h
  · cases h
  · cases h
  · cases h
  · exact foldlM_i32Step_range _ _ _ _ hzero h
  · exact foldlM_i32Step_range _ _ _ _ hzero h
  · exact foldlM_i32Step_range _ _ _ _ hzero h

theorem parseI32_toString : ∀ n : Nat, n < 8 → parseI32 (toString n) = some (n : Int) := by
  decide

/-! ### The circuit on three bits -/

theorem xorValue_bit {F : Type} [Field F] (p q : Bool) :
    xorValue (((p.toInt : Int) : F), ((q.toInt : Int) : F)) = if p = q then 0 else 1 := by
  unfold xorValue
  cases p <;> cases q <;> norm_num [Bool.toInt]

theorem bit_natCast : ∀ a : Nat, a < 8 → ∀ n : Nat, n < 3 → bit (a : Int) n = (a.testBit n).toInt := by
  decide

theorem complementary_iff : ∀ a : Nat, a < 8 → ∀ b : Nat, b < 8 →
    ((∀ n : Nat, n < 3 → a.testBit n ≠ b.testBit n) ↔ a ^^^ b = 7) := by
  decide

theorem circuitOutput_eq (F : Type) [Field F] {a b : Nat} (ha : a < 8) (hb : b < 8) :
    circuitOutput F (toString a) (toString b) = some (if a ^^^ b = 7 then 1 else 0) := by
  unfold circuitOutput
  rw [parseI32_toString a ha, Option.bind_eq_bind, Option.bind_some, parseI32_toString b hb,
    Option.bind_some, xorCircuitOutput_eq (by simp)]
  congr 1
  have hxor : ∀ n ∈ List.range 3, xorValue ((bit (a : Int) n : F), (bit (b : Int) n : F)) =
      if a.testBit n = b.testBit n then 0 else 1 := by
    intro n hn
    rw [bit_natCast a ha n (List.mem_range.mp hn), bit_natCast b hb n (List.mem_range.mp hn),
      xorValue_bit]
  have hmap : (List.range 3).map (xorValue ∘ fun n => ((bit (a : Int) n : F), (bit (b : Int) n : F))) =
      (List.range 3).map fun n => if a.testBit n = b.testBit n then 0 else 1 :=
    List.map_congr_left hxor
  rw [List.map_map, hmap]
  by_cases hcomplementary : a ^^^ b = 7
  · rw [if_pos hcomplementary]
    apply List.prod_eq_one
    intro x hx
    obtain ⟨n, hn, rfl⟩ := List.mem_map.mp hx
    exact if_neg ((complementary_iff a ha b hb).mpr hcomplementary n (List.mem_range.mp hn))
  · rw [if_neg hcomplementary, List.prod_eq_zero_iff, List.mem_map]
    by_contra hnone
    refine hcomplementary ((complementary_iff a ha b hb).mp fun n hn heq => hnone ?_)
    exact ⟨n, List.mem_range.mpr hn, if_pos heq⟩

/-- An accepted output reads as one exactly when the input wins. -/
theorem Correct.parse_eq_one_iff [Fact r.Prime] (hr : 2 ^ 32 ≤ r) {a b : Nat} (ha : a < 8)
    (hb : b < 8) {y : String} (h : Correct (ZMod r) (toString a) (toString b) y) :
    parseI32 y = some 1 ↔ a ^^^ b = 7 := by
  obtain ⟨v, hv, hout⟩ := h
  have hrange := parseI32_range hv
  rw [circuitOutput_eq (ZMod r) ha hb, Option.some.injEq] at hout
  rw [hv, Option.some.injEq]
  constructor
  · rintro rfl
    by_contra hlose
    rw [if_neg hlose, Int.cast_one] at hout
    exact zero_ne_one hout
  · intro hwin
    rw [if_pos hwin, ← Int.cast_one] at hout
    have hdvd := (ZMod.intCast_eq_intCast_iff_dvd_sub 1 v r).mp hout
    have hsmall : |v - 1| < r := by
      rw [abs_lt]
      constructor <;> omega
    have hzero := Int.eq_zero_of_abs_lt_dvd hdvd hsmall
    omega

/-! ### A run of the script -/

theorem allVerified_eq_ok_true {results : List (Except Failure Bool)}
    (h : allVerified results = .ok true) : ∀ result ∈ results, result = .ok true := by
  induction results with
  | nil => simp
  | cons result results ih =>
    obtain ⟨verified, hverified, hrest⟩ := bind_eq_ok_iff.mp h
    cases verified with
    | false => cases hrest
    | true =>
      rw [List.forall_mem_cons]
      exact ⟨hverified, ih hrest⟩

/-- A sample and the text of its output agree on whether it wins. -/
def Agrees (r : Nat) (d : String × String) (p : String × String) : Prop :=
  winning sha256 r d = true ↔ parseI32 p.1 = some 1

variable {sha256 env}

theorem countOnes_cons_of_eq {y : String} {ys : List String} (h : y = "1") :
    countOnes (y :: ys) = countOnes ys + 1 := by
  rw [countOnes, List.filter_cons_of_pos (by rw [h]; rfl), List.map_cons, List.sum_cons,
    Nat.add_comm]
  rfl

theorem countOnes_cons_of_ne {y : String} {ys : List String} (h : y ≠ "1") :
    countOnes (y :: ys) = countOnes ys := by
  rw [countOnes, List.filter_cons_of_neg (by rw [beq_iff_eq]; exact h)]
  rfl

theorem countOnes_le {ds ps : List (String × String)} (h : List.Forall₂ (Agrees sha256 r) ds ps) :
    countOnes (ps.map Prod.fst) ≤ (ds.filter (winning sha256 r)).length ∧
      (countOnes (ps.map Prod.fst) = (ds.filter (winning sha256 r)).length ↔
        ∀ p ∈ ps, parseI32 p.1 = some 1 → p.1 = "1") := by
  induction h with
  | nil => simp [countOnes]
  | @cons d p ds ps hagrees _ ih =>
    obtain ⟨hle, hiff⟩ := ih
    rw [List.map_cons, List.forall_mem_cons]
    by_cases hone : p.1 = "1"
    · have hwin : winning sha256 r d = true := hagrees.mpr (by rw [hone]; decide)
      rw [List.filter_cons_of_pos hwin, List.length_cons, countOnes_cons_of_eq hone, ← hiff]
      refine ⟨by omega, ?_⟩
      constructor
      · exact fun heq => ⟨fun _ => hone, by omega⟩
      · exact fun heq => by omega
    · rw [countOnes_cons_of_ne hone]
      by_cases hwin : winning sha256 r d = true
      · rw [List.filter_cons_of_pos hwin, List.length_cons]
        refine ⟨by omega, ?_⟩
        constructor
        · exact fun heq => by omega
        · exact fun hplain => absurd (hplain.1 (hagrees.mp hwin)) hone
      · rw [List.filter_cons_of_neg hwin, hiff]
        refine ⟨hle, ?_⟩
        constructor
        · exact fun hplain => ⟨fun hparse => absurd (hagrees.mpr hparse) hwin, hplain⟩
        · exact fun hplain => hplain.2

theorem agrees_of_verified [Fact r.Prime] (hr : 2 ^ 32 ≤ r)
    (hverify : ∀ W c0 c1 a b y, env.checkOutput
      ["./functional-commitment/verify", W, c0, c1, a, b, y] = .ok "Verify Success!" →
        Correct (ZMod r) a b y)
    {c : List String} {d p : String × String}
    (h : rustVerifyEvalProof sha256 env r c ⟨d.1, d.2⟩ p.1 p.2 = .ok true) :
    Agrees sha256 r d p := by
  unfold rustVerifyEvalProof at h
  rw [getFieldInput_eq_ok] at h
  obtain ⟨i, hi, h⟩ := bind_eq_ok_iff.mp h
  cases hi
  obtain ⟨c0, _, h⟩ := bind_eq_ok_iff.mp h
  obtain ⟨c1, _, h⟩ := bind_eq_ok_iff.mp h
  obtain ⟨output, houtput, h⟩ := bind_eq_ok_iff.mp h
  have hsuccess : output = "Verify Success!" := by
    simpa [pure, Except.pure] using h
  have hcorrect := hverify _ _ _ _ _ _ (hsuccess ▸ houtput)
  rw [Agrees, hcorrect.parse_eq_one_iff hr, winning, beq_iff_eq]
  · exact Nat.lt_of_le_of_lt Nat.and_le_right (by decide)
  · rw [Nat.shiftRight_eq_div_pow]
    exact Nat.div_lt_of_lt_mul (Nat.lt_of_le_of_lt Nat.and_le_right (by decide))

/-- When the script succeeds, the number it reports is that of the winning inputs exactly if
every output that reads as one is written `1`. -/
theorem winningNumber_iff [Fact r.Prime] (hr : 2 ^ 32 ≤ r)
    (hverify : ∀ W c0 c1 a b y, env.checkOutput
      ["./functional-commitment/verify", W, c0, c1, a, b, y] = .ok "Verify Success!" →
        Correct (ZMod r) a b y)
    {seed : Seed} (hseed : env.prbEval = .ok seed) {winningNumber : Nat}
    (hrun : rustVerifyProbability sha256 env r = .ok (some winningNumber)) :
    winningNumber =
        ((mapToTestData env.sampleSize (env.choice seed)).filter (winning sha256 r)).length ↔
      PlainOnes env.evalProofFile := by
  unfold rustVerifyProbability at hrun
  rw [hseed] at hrun
  generalize split (strip (universalNewlines env.commitmentFile.toList)) = c at hrun
  obtain ⟨_, hsame, hrun⟩ := bind_eq_ok_iff.mp hrun
  cases hsame
  obtain ⟨evalProofs, hproofs, hrun⟩ := bind_eq_ok_iff.mp hrun
  generalize mapToTestData env.sampleSize (env.choice seed) = testData at hrun ⊢
  split at hrun
  · cases hrun
  rename_i hlength
  obtain ⟨verified, hverified, hrun⟩ := bind_eq_ok_iff.mp hrun
  split at hrun
  · cases hrun
  rename_i htrue
  obtain rfl : verified = true := by simpa using htrue
  have hagrees : List.Forall₂ (Agrees sha256 r) testData evalProofs := by
    rw [List.forall₂_iff_zip]
    refine ⟨by simpa using hlength, fun {d p} hmem => agrees_of_verified (c := c) hr hverify ?_⟩
    refine allVerified_eq_ok_true hverified _ ?_
    rw [← List.map_uncurry_zip_eq_zipWith]
    exact List.mem_map.mpr ⟨(d, p), hmem, rfl⟩
  have hplain : PlainOnes env.evalProofFile ↔
      ∀ p ∈ evalProofs, parseI32 p.1 = some 1 → p.1 = "1" := by
    constructor
    · exact fun h => h evalProofs hproofs
    · intro h other hother
      rw [hproofs] at hother
      cases hother
      exact h
  split at hrun
  · cases hrun
  · cases hrun
    rw [hplain]
    exact (countOnes_le hagrees).2

/-! ### One sample -/

/-- The sampled input hashes to 7, so `a` is 7 and `b` is 0. -/
def sevenHash (_ : String) : BitVec 256 := 7

/-- A board with one proof, and a binary that accepts it for every spelling of one. -/
def oneSample (evalProofFile : String) : Environment Unit where
  commitmentFile := "vk.bin#tft.bin"
  evalProofFile := evalProofFile
  prbEval := .ok ()
  sampleSize := 1
  choice := fun _ _ => 'a'
  checkOutput
    | [_, _, _, _, a, b, y] =>
      if a = "7" ∧ b = "0" ∧ parseI32 y = some 1 then .ok "Verify Success!"
      else .error .calledProcessError
    | _ => .error .calledProcessError

theorem oneSample_verify (r : Nat) [Fact r.Prime] (evalProofFile W c0 c1 a b y : String)
    (h : (oneSample evalProofFile).checkOutput
      ["./functional-commitment/verify", W, c0, c1, a, b, y] = .ok "Verify Success!") :
    Correct (ZMod r) a b y := by
  dsimp only [oneSample] at h
  split at h
  · rename_i haccepted
    obtain ⟨rfl, rfl, hparse⟩ := haccepted
    have houtput := circuitOutput_eq (ZMod r) (by decide : 7 < 8) (by decide : 0 < 8)
    refine ⟨1, hparse, ?_⟩
    rw [Int.cast_one]
    exact houtput
  · cases h

theorem oneSample_eq_ok (hr : 2 ^ 32 ≤ r) {evalProofFile y W : String}
    (hfile : (readlines evalProofFile).mapM evalProof = .ok [(y, W)])
    (hparse : parseI32 y = some 1) :
    rustVerifyProbability sevenHash (oneSample evalProofFile) r =
      .ok (some (countOnes [y])) := by
  have hval : ((7 : Nat) : ZMod r).val = 7 := ZMod.val_natCast_of_lt (by omega)
  have hverified : rustVerifyEvalProof sevenHash (oneSample evalProofFile) r
      ["vk.bin", "tft.bin"] ⟨"aaaaaaaaaa", "aaaaaaaaaa"⟩ y W = .ok true := by
    unfold rustVerifyEvalProof
    rw [getFieldInput_eq_ok, show (sevenHash ("aaaaaaaaaa" ++ "aaaaaaaaaa")).toNat = 7 from rfl]
    refine bind_eq_of_ok (a := ((7 : Nat) : ZMod r)) rfl ?_
    have hchecked : (oneSample evalProofFile).checkOutput ["./functional-commitment/verify", W,
        "vk.bin", "tft.bin", toString (7 &&& 0b111), toString ((7 &&& 0b111000) >>> 3), y] =
          .ok "Verify Success!" := if_pos ⟨by decide, by decide, hparse⟩
    rw [hval]
    refine bind_eq_of_ok (a := "vk.bin") rfl ?_
    refine bind_eq_of_ok (a := "tft.bin") rfl ?_
    exact bind_eq_of_ok hchecked rfl
  have hdata : mapToTestData (oneSample evalProofFile).sampleSize
      ((oneSample evalProofFile).choice ()) = [("aaaaaaaaaa", "aaaaaaaaaa")] := rfl
  have hboard : split (strip (universalNewlines "vk.bin#tft.bin".toList)) = ["vk.bin", "tft.bin"] := by
    decide
  unfold rustVerifyProbability
  rw [show (oneSample evalProofFile).commitmentFile = "vk.bin#tft.bin" from rfl, hboard]
  refine bind_eq_of_ok (a := ()) rfl ?_
  rw [hdata]
  refine bind_eq_of_ok hfile ?_
  have hlength : ¬ [("aaaaaaaaaa", "aaaaaaaaaa")].length ≠ [(y, W)].length := not_not_intro rfl
  rw [if_neg hlength]
  refine bind_eq_of_ok (a := true) ?_ rfl
  exact bind_eq_of_ok hverified rfl

theorem prime_206158430209 : Nat.Prime 206158430209 := by
  have hne : ∀ n : Nat, n < 206158430209 → n ≠ 1 → (n : ZMod 206158430209) ≠ 1 := by
    intro n hlt hn h
    rw [← Nat.cast_one, ZMod.natCast_eq_natCast_iff', Nat.mod_eq_of_lt hlt] at h
    exact hn (h.trans (Nat.mod_eq_of_lt (by norm_num)))
  apply lucas_primality _ 22
  · norm_num
    reduce_mod_char
  · intro q hq hdvd
    have hfactor : q ∣ 2 ^ 36 * 3 := by
      norm_num at hdvd ⊢
      exact hdvd
    rcases (Nat.Prime.dvd_mul hq).mp hfactor with h | h
    · obtain rfl := (Nat.prime_dvd_prime_iff_eq hq Nat.prime_two).mp (hq.dvd_of_dvd_pow h)
      norm_num
      reduce_mod_char
      exact hne 206158430208 (by norm_num) (by norm_num)
    · obtain rfl := (Nat.prime_dvd_prime_iff_eq hq Nat.prime_three).mp h
      norm_num
      reduce_mod_char
      exact hne 103079608320 (by norm_num) (by norm_num)

theorem oneSample_wins (hr : 2 ^ 32 ≤ r) (evalProofFile : String) :
    ((mapToTestData (oneSample evalProofFile).sampleSize
      ((oneSample evalProofFile).choice ())).filter (winning sevenHash r)).length = 1 := by
  have hval : ((7 : Nat) : ZMod r).val = 7 := ZMod.val_natCast_of_lt (by omega)
  have hwinning : ∀ d, winning sevenHash r d = true := by
    intro d
    rw [winning, show (sevenHash (d.1 ++ d.2)).toNat = 7 from rfl, hval]
    rfl
  rw [List.filter_eq_self.mpr fun d _ => hwinning d]
  rfl

/-- A win spelled `+1` is accepted and not counted. -/
theorem winningNumber_misses : ∃ (r : Nat) (_ : Fact r.Prime) (sha256 : String → BitVec 256)
    (env : Environment Unit), 2 ^ 32 ≤ r ∧
      (∀ W c0 c1 a b y, env.checkOutput ["./functional-commitment/verify", W, c0, c1, a, b, y] =
        .ok "Verify Success!" → Correct (ZMod r) a b y) ∧
      env.prbEval = .ok () ∧ rustVerifyProbability sha256 env r = .ok (some 0) ∧
      ((mapToTestData env.sampleSize (env.choice ())).filter (winning sha256 r)).length = 1 := by
  have hr : 2 ^ 32 ≤ 206158430209 := by norm_num
  have hprime : Fact (Nat.Prime 206158430209) := ⟨prime_206158430209⟩
  have hfile : (readlines "+1#proof0.bin\n").mapM evalProof = .ok [("+1", "proof0.bin")] := by
    decide
  have hparse : parseI32 "+1" = some 1 := by decide
  have hcount : countOnes ["+1"] = 0 := by decide
  exact ⟨206158430209, hprime, sevenHash, oneSample "+1#proof0.bin\n", hr, oneSample_verify _ _, rfl,
    hcount ▸ oneSample_eq_ok hr hfile hparse, oneSample_wins hr _⟩

/-- Spelled `1`, it is counted. -/
theorem winningNumber_oneSample : ∃ (r : Nat), 1 =
      ((mapToTestData (oneSample "1#proof0.bin\n").sampleSize
        ((oneSample "1#proof0.bin\n").choice ())).filter (winning sevenHash r)).length ↔
      PlainOnes (oneSample "1#proof0.bin\n").evalProofFile := by
  have hr : 2 ^ 32 ≤ 206158430209 := by norm_num
  have hprime : Fact (Nat.Prime 206158430209) := ⟨prime_206158430209⟩
  have hfile : (readlines "1#proof0.bin\n").mapM evalProof = .ok [("1", "proof0.bin")] := by
    decide
  have hparse : parseI32 "1" = some 1 := by decide
  exact ⟨206158430209, winningNumber_iff hr (oneSample_verify _ _) rfl
    (oneSample_eq_ok hr hfile hparse)⟩

end Lootbox.ProbabilityVerification

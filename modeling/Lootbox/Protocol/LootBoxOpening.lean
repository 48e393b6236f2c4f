import Mathlib
import Lootbox.Protocol.FunctionalCommitment

/-!
# Opening loot boxes along a hash chain

The server publishes the end of a hash chain and reveals one element before it per opening;
the client accepts an element that hashes to the one it holds.
-/

namespace Lootbox.LootBoxOpening

open KZG10

variable {r : Nat} {G1 G2 GT : Type} [AddCommGroup G1] [AddCommGroup G2] [CommGroup GT]
  [Module (ZMod r) G1] [Module (ZMod r) G2] [DecidableEq GT]

structure LootBoxOpeningServer (r : Nat) (G1 : Type) where
  fc : FunctionalCommitment r G1
  chain : List String
  current : Int

abbrev Reply (r : Nat) (G1 : Type) := Except PyException (Option (String × ZMod r × G1))

def LootBoxOpeningServer.setup (PK : TrustedSetup r G1 G2) (sha256 : String → BitVec 256)
    (random : Nat → ZMod r) : Except PyException (LootBoxOpeningServer r G1 × String) := do
  let fc ← FunctionalCommitment.init PK random 3 false []
  let chain := PySeq.appendIterates (hexdigest sha256) 100 "random_seed"
  let current : Int := chain.length - 1
  let last ← need .indexError (PySeq.get chain (-1))
  return (⟨fc, chain, current⟩, last)

/-- What `eval` returns once the index has moved. -/
def LootBoxOpeningServer.reveal (PK : TrustedSetup r G1 G2) (sha256 : String → BitVec 256)
    (self : LootBoxOpeningServer r G1) (beta o : String) :
    Except PyException (Option (String × ZMod r × G1)) := do
  if self.current = 0 then return none
  let previousElement ← need .indexError (PySeq.get self.chain self.current)
  let (y, W) ← evalAndProof PK sha256 self.fc ⟨previousElement ++ beta, o⟩
  return some (previousElement, y, W)

/-- The index moves before the exhaustion test, and stays moved when the call raises. -/
def LootBoxOpeningServer.eval (PK : TrustedSetup r G1 G2) (sha256 : String → BitVec 256)
    (self : LootBoxOpeningServer r G1) (beta o : String) :
    LootBoxOpeningServer r G1 × Reply r G1 :=
  let self := { self with current := self.current - 1 }
  (self, self.reveal PK sha256 beta o)

/-- `y.v % math.floor(1 / realProbability) == 0`, for the probability one half. -/
def isWinning (y : ZMod r) : Bool := y.val % 2 == 0

inductive OpeningResult
  | hashRejected
  | proofRejected
  | opened (won : Bool)
  deriving DecidableEq, Repr

/-- One `requestOpening` of the client that holds `current`; `c` is the commitment on the
bulletin board. Unpacking a reply of `None` raises. -/
def requestOpening (e : IdealPairing r G1 G2 GT) (PK : TrustedSetup r G1 G2)
    (sha256 : String → BitVec 256) (c : G1) (current : String) (server : LootBoxOpeningServer r G1)
    (beta o : String) :
    String × LootBoxOpeningServer r G1 × Except PyException OpeningResult :=
  let (server, reply) := server.eval PK sha256 beta o
  match reply with
  | .error err => (current, server, .error err)
  | .ok none => (current, server, .error .typeError)
  | .ok (some (previousElement, y, W)) =>
    if hexdigest sha256 previousElement ≠ current then (current, server, .ok .hashRejected)
    else
      match verifyEvalProof e PK sha256 c ⟨previousElement ++ beta, o⟩ y W with
      | .error err => (current, server, .error err)
      | .ok false => (current, server, .ok .proofRejected)
      | .ok true => (previousElement, server, .ok (.opened (isWinning y)))

/-! ### Runs -/

def replies (PK : TrustedSetup r G1 G2) (sha256 : String → BitVec 256) :
    LootBoxOpeningServer r G1 → List (String × String) → List (Reply r G1)
  | _, [] => []
  | server, (beta, o) :: calls =>
    let (server, reply) := server.eval PK sha256 beta o
    reply :: replies PK sha256 server calls

/-- Every reply with an element reveals a new one, a preimage of the last one revealed. The
elements revealed so far are listed with the last one first. -/
def RevealsFresh (sha256 : String → BitVec 256) : List String → List (Reply r G1) → Prop
  | _, [] => True
  | revealed, .ok (some (element, _, _)) :: rest =>
    element ∉ revealed ∧ revealed.head? = some (hexdigest sha256 element) ∧
      RevealsFresh sha256 (element :: revealed) rest
  | revealed, _ :: rest => RevealsFresh sha256 revealed rest

/-- After a reply of `None` every reply is `None`. -/
def ExhaustedForGood : List (Reply r G1) → Prop
  | [] => True
  | reply :: rest => (reply = .ok none → ∀ later ∈ rest, later = .ok none) ∧ ExhaustedForGood rest

/-- As long as the server's index is positive, every opening passes the client's checks and
leaves the client at the server's position. -/
def ClientFollows (e : IdealPairing r G1 G2 GT) (PK : TrustedSetup r G1 G2)
    (sha256 : String → BitVec 256) (c : G1) :
    String → LootBoxOpeningServer r G1 → List (String × String) → Prop
  | _, _, [] => True
  | current, server, (beta, o) :: calls =>
    let (current, server, result) := requestOpening e PK sha256 c current server beta o
    (0 < server.current → (∃ won, result = .ok (.opened won)) ∧
      PySeq.get server.chain server.current = some current) ∧
    ClientFollows e PK sha256 c current server calls

/-- The discipline of the chain over a run of calls, for a client that holds `current` and
the server's own commitment on the bulletin board. -/
structure HashChainDiscipline (e : IdealPairing r G1 G2 GT) (PK : TrustedSetup r G1 G2)
    (sha256 : String → BitVec 256) (revealed : List String) (current : String)
    (server : LootBoxOpeningServer r G1) (calls : List (String × String)) : Prop where
  fresh : RevealsFresh sha256 revealed (replies PK sha256 server calls)
  exhausted : ExhaustedForGood (replies PK sha256 server calls)
  follows : ClientFollows e PK sha256 server.fc.c current server calls

/-! ### The chain -/

/-- The `i`-th element of the chain. -/
def chainAt (sha256 : String → BitVec 256) (i : Nat) : String :=
  (hexdigest sha256)^[i] "random_seed"

variable {sha256 : String → BitVec 256}

theorem chainAt_succ (i : Nat) : chainAt sha256 (i + 1) = hexdigest sha256 (chainAt sha256 i) :=
  Function.iterate_succ_apply' _ _ _

theorem chainAt_ne (hcollision : ∀ i < 100, ∀ j < 100,
      sha256 (chainAt sha256 i) = sha256 (chainAt sha256 j) →
        chainAt sha256 i = chainAt sha256 j) :
    ∀ i j : Nat, i < j → j ≤ 100 → chainAt sha256 i ≠ chainAt sha256 j := by
  intro i
  induction i with
  | zero =>
    intro j hlt _ heq
    obtain ⟨k, rfl⟩ : ∃ k, j = k + 1 := ⟨j - 1, by omega⟩
    have hlength : (chainAt sha256 0).length = 64 := by
      rw [heq, chainAt_succ, length_hexdigest]
    exact absurd hlength (by decide : "random_seed".length ≠ 64)
  | succ i ih =>
    intro j hlt hle heq
    obtain ⟨k, rfl⟩ : ∃ k, j = k + 1 := ⟨j - 1, by omega⟩
    rw [chainAt_succ, chainAt_succ, hexdigest_inj] at heq
    exact ih k (by omega) (by omega) (hcollision i (by omega) k (by omega) heq)

/-! ### One call -/

variable [Fact r.Prime] (e : IdealPairing r G1 G2 GT) (alpha : ZMod r)

structure Honest (sha256 : String → BitVec 256) (server : LootBoxOpeningServer r G1) : Prop where
  opens : ∀ i, ∃ y W, evalAndProofRaw (TrustedSetup.generate e alpha 200 true) server.fc i =
      .ok (y, W) ∧
    verifyEvalProofRaw e (TrustedSetup.generate e alpha 200 true) server.fc.c i y W = .ok true
  chain : server.chain = (List.range 101).map (chainAt sha256)

theorem setup_spec (sha256 : String → BitVec 256) (random : Nat → ZMod r) :
    ∃ server, LootBoxOpeningServer.setup (TrustedSetup.generate e alpha 200 true) sha256 random =
        .ok (server, chainAt sha256 100) ∧
      Honest e alpha sha256 server ∧ server.current = 100 := by
  let coeff := (List.range 3).map fun i => ((CommonPolynomial.getD i 0 : Int) : ZMod r)
  let fc : FunctionalCommitment r G1 := ⟨3, coeff, evalCoeffs coeff alpha • e.g1⟩
  have hinit : FunctionalCommitment.init (TrustedSetup.generate e alpha 200 true) random 3 false [] =
      .ok fc := init_default_eq_ok e alpha 200 random (by omega) (by omega) (by omega)
  have hchain : PySeq.appendIterates (hexdigest sha256) 100 "random_seed" =
      (List.range 101).map (chainAt sha256) := PySeq.appendIterates_eq _ _ _
  have hlast : PySeq.get ((List.range 101).map (chainAt sha256)) (-1) =
      some (chainAt sha256 100) := by
    rw [PySeq.get_neg_one, List.range_succ, List.map_append, List.map_singleton,
      List.getLast?_concat]
  refine ⟨⟨fc, (List.range 101).map (chainAt sha256), 100⟩, ?_, ⟨?_, rfl⟩, rfl⟩
  · rw [LootBoxOpeningServer.setup, hinit, ok_bind, hchain]
    dsimp only
    rw [hlast, need_some, ok_bind, List.length_map, List.length_range]
    rfl
  · intro i
    have hlength : fc.coeff.length = 3 := by
      rw [List.length_map, List.length_range]
    obtain ⟨W, hopen, haccept⟩ := evalAndProofRaw_accepted e alpha 200 fc (by omega) (by omega) i
    exact ⟨_, W, hopen, haccept⟩

variable {e alpha} {server : LootBoxOpeningServer r G1}

section Unfolding

omit [AddCommGroup G2] [Module (ZMod r) G1] [Module (ZMod r) G2] [Fact r.Prime]
variable (PK : TrustedSetup r G1 G2) (sha256) (beta o : String) (call : String × String)
  (calls : List (String × String))

theorem eval_current :
    (server.eval PK sha256 beta o).1.current = server.current - 1 := rfl

theorem replies_cons :
    replies PK sha256 server (call :: calls) = (server.eval PK sha256 call.1 call.2).2 ::
      replies PK sha256 (server.eval PK sha256 call.1 call.2).1 calls := rfl

theorem eval_exhausted (hcurrent : server.current = 1) :
    (server.eval PK sha256 beta o).2 = .ok none := by
  have hmoved : server.current - 1 = 0 := by omega
  rw [LootBoxOpeningServer.eval, hmoved]
  rfl

end Unfolding

omit [Fact r.Prime] in
theorem Honest.eval (hserver : Honest e alpha sha256 server) (beta o : String) :
    Honest e alpha sha256 (server.eval (TrustedSetup.generate e alpha 200 true) sha256 beta o).1 :=
  ⟨hserver.opens, hserver.chain⟩

omit [Fact r.Prime] in
/-- Whatever nonzero index the server moves to, an element found there is revealed with an
opening that the check accepts. -/
theorem Honest.reveal (hserver : Honest e alpha sha256 server) (hne : server.current ≠ 0)
    {element : String} (helement : PySeq.get server.chain server.current = some element)
    (beta o : String) :
    ∃ y W, server.reveal (TrustedSetup.generate e alpha 200 true) sha256 beta o =
        .ok (some (element, y, W)) ∧
      verifyEvalProof e (TrustedSetup.generate e alpha 200 true) sha256 server.fc.c
        ⟨element ++ beta, o⟩ y W = .ok true := by
  obtain ⟨y, W, hopen, haccept⟩ := hserver.opens ((sha256 (element ++ beta ++ o)).toNat : ZMod r)
  refine ⟨y, W, ?_, ?_⟩
  · rw [LootBoxOpeningServer.reveal, if_neg hne, helement, need_some]
    simp only [ok_bind, evalAndProof, getFieldInput_eq_ok, hopen]
    rfl
  · rw [verifyEvalProof, getFieldInput_eq_ok, ok_bind]
    exact haccept

omit [Fact r.Prime] in
theorem Honest.get_chain (hserver : Honest e alpha sha256 server) {i : Nat} (hle : i ≤ 100) :
    PySeq.get server.chain (i : Int) = some (chainAt sha256 i) := by
  rw [hserver.chain, PySeq.get_natCast, List.getElem?_map, List.getElem?_range (by omega),
    Option.map_some]

omit [Fact r.Prime] in
theorem Honest.eval_of_pos (hserver : Honest e alpha sha256 server) {i : Nat} (hpos : 0 < i)
    (hle : i ≤ 100) (hcurrent : server.current = i + 1) (beta o : String) :
    ∃ y W, (server.eval (TrustedSetup.generate e alpha 200 true) sha256 beta o).2 =
        .ok (some (chainAt sha256 i, y, W)) ∧
      verifyEvalProof e (TrustedSetup.generate e alpha 200 true) sha256 server.fc.c
        ⟨chainAt sha256 i ++ beta, o⟩ y W = .ok true := by
  have hmoved : server.current - 1 = (i : Int) := by omega
  apply (hserver.eval beta o).reveal
  · rw [eval_current, hmoved]
    omega
  · rw [eval_current, hmoved]
    exact hserver.get_chain hle

omit [Fact r.Prime] in
theorem Honest.eval_past_end (hserver : Honest e alpha sha256 server) (hcurrent : server.current = 0)
    (beta o : String) :
    ∃ y W, (server.eval (TrustedSetup.generate e alpha 200 true) sha256 beta o).2 =
      .ok (some (chainAt sha256 100, y, W)) := by
  have hmoved : server.current - 1 = -1 := by omega
  have hlast : PySeq.get server.chain (-1) = some (chainAt sha256 100) := by
    rw [hserver.chain, PySeq.get_neg_one, List.range_succ, List.map_append, List.map_singleton,
      List.getLast?_concat]
  have hne : (server.eval (TrustedSetup.generate e alpha 200 true) sha256 beta o).1.current ≠ 0 := by
    rw [eval_current, hmoved]
    omega
  have hget : PySeq.get
      (server.eval (TrustedSetup.generate e alpha 200 true) sha256 beta o).1.chain
      (server.eval (TrustedSetup.generate e alpha 200 true) sha256 beta o).1.current =
        some (chainAt sha256 100) := by
    rw [eval_current, hmoved]
    exact hlast
  obtain ⟨y, W, hreply, _⟩ := (hserver.eval beta o).reveal hne hget beta o
  exact ⟨y, W, hreply⟩

omit [Fact r.Prime] in
theorem Honest.requestOpening (hserver : Honest e alpha sha256 server) {i : Nat} (hpos : 0 < i)
    (hle : i ≤ 100) (hcurrent : server.current = i + 1) (beta o : String) :
    ∃ won, requestOpening e (TrustedSetup.generate e alpha 200 true) sha256 server.fc.c
        (chainAt sha256 (i + 1)) server beta o =
      (chainAt sha256 i, (server.eval (TrustedSetup.generate e alpha 200 true) sha256 beta o).1,
        .ok (.opened won)) := by
  obtain ⟨y, W, hreply, haccept⟩ := hserver.eval_of_pos hpos hle hcurrent beta o
  refine ⟨isWinning y, ?_⟩
  rw [LootBoxOpening.requestOpening]
  dsimp only
  rw [hreply]
  dsimp only
  rw [if_neg (not_not_intro (chainAt_succ i).symm), haccept]

/-! ### Runs within the chain -/

/-- The elements revealed when the server stands at `i`, the last one first. -/
def revealedAt (sha256 : String → BitVec 256) (i : Nat) : List String :=
  (List.range' i (101 - i)).map (chainAt sha256)

theorem revealedAt_eq_cons {i : Nat} (hle : i ≤ 100) :
    revealedAt sha256 i = chainAt sha256 i :: revealedAt sha256 (i + 1) := by
  have hsucc : 101 - i = (101 - (i + 1)) + 1 := by omega
  rw [revealedAt, hsucc, List.range'_succ, List.map_cons]
  rfl

theorem mem_revealedAt {i : Nat} {element : String} (h : element ∈ revealedAt sha256 i) :
    ∃ j, i ≤ j ∧ j ≤ 100 ∧ element = chainAt sha256 j := by
  obtain ⟨j, hj, rfl⟩ := List.mem_map.mp h
  rw [List.mem_range'_1] at hj
  exact ⟨j, hj.1, by omega, rfl⟩

omit [Fact r.Prime] in
/-- A server at `m + 1` keeps the discipline for `m + 1` calls: `m` of them reveal an element
and the last one answers `None`. -/
theorem discipline_of_length_le (hcollision : ∀ i < 100, ∀ j < 100,
      sha256 (chainAt sha256 i) = sha256 (chainAt sha256 j) →
        chainAt sha256 i = chainAt sha256 j) :
    ∀ (m : Nat) (server : LootBoxOpeningServer r G1) (calls : List (String × String)), m ≤ 99 →
      Honest e alpha sha256 server → server.current = m + 1 → calls.length ≤ m + 1 →
      HashChainDiscipline e (TrustedSetup.generate e alpha 200 true) sha256
        (revealedAt sha256 (m + 1)) (chainAt sha256 (m + 1)) server calls := by
  intro m
  induction m with
  | zero =>
    intro server calls _ _ hcurrent hlength
    cases calls with
    | nil => exact ⟨trivial, trivial, trivial⟩
    | cons call calls =>
      have hnil : calls = [] := by
        apply List.length_eq_zero_iff.mp
        rw [List.length_cons] at hlength
        omega
      subst hnil
      have hreply := eval_exhausted sha256 (TrustedSetup.generate e alpha 200 true) call.1 call.2
        hcurrent
      refine ⟨?_, ?_, ?_⟩
      · rw [replies_cons, hreply]
        trivial
      · rw [replies_cons, hreply]
        exact ⟨fun _ later hlater => absurd hlater List.not_mem_nil, trivial⟩
      · rw [ClientFollows, requestOpening]
        dsimp only
        rw [hreply]
        dsimp only
        rw [eval_current, hcurrent]
        exact ⟨fun hpos => absurd hpos (by decide), trivial⟩
  | succ m ih =>
    intro server calls hle hserver hcurrent hlength
    cases calls with
    | nil => exact ⟨trivial, trivial, trivial⟩
    | cons call calls =>
      obtain ⟨y, W, hreply, _⟩ := hserver.eval_of_pos (Nat.succ_pos m) (by omega) hcurrent
        call.1 call.2
      obtain ⟨won, hrequest⟩ := hserver.requestOpening (Nat.succ_pos m) (by omega) hcurrent
        call.1 call.2
      have hmoved : (server.eval (TrustedSetup.generate e alpha 200 true) sha256 call.1
          call.2).1.current = (m : Int) + 1 := by
        rw [eval_current]
        omega
      have hrest := ih _ calls (by omega) (hserver.eval call.1 call.2) hmoved
        (Nat.le_of_succ_le_succ hlength)
      refine ⟨?_, ?_, ?_⟩
      · rw [replies_cons, hreply]
        refine ⟨?_, ?_, ?_⟩
        · intro hmem
          obtain ⟨j, hij, hj, heq⟩ := mem_revealedAt hmem
          exact chainAt_ne hcollision (m + 1) j (by omega) hj heq
        · rw [revealedAt_eq_cons (by omega), List.head?_cons, chainAt_succ]
        · rw [← revealedAt_eq_cons (by omega)]
          exact hrest.fresh
      · rw [replies_cons, hreply]
        exact ⟨(nomatch ·), hrest.exhausted⟩
      · rw [ClientFollows, hrequest]
        dsimp only
        refine ⟨fun _ => ⟨⟨won, rfl⟩, ?_⟩, hrest.follows⟩
        rw [hmoved]
        exact (hserver.eval call.1 call.2).get_chain (by omega : m + 1 ≤ 100)

omit [Fact r.Prime] in
/-- One call more reveals the published element again. -/
theorem not_revealsFresh :
    ∀ (m : Nat) (server : LootBoxOpeningServer r G1) (calls : List (String × String))
      (revealed : List String), m ≤ 99 → Honest e alpha sha256 server →
      server.current = m + 1 → m + 1 < calls.length → chainAt sha256 100 ∈ revealed →
      ¬ RevealsFresh sha256 revealed
        (replies (TrustedSetup.generate e alpha 200 true) sha256 server calls) := by
  intro m
  induction m with
  | zero =>
    intro server calls revealed _ hserver hcurrent hlength hmem hfresh
    match calls, hlength with
    | call :: call' :: calls, _ =>
      have hmoved : (server.eval (TrustedSetup.generate e alpha 200 true) sha256 call.1
          call.2).1.current = 0 := by
        rw [eval_current]
        omega
      obtain ⟨y, W, hreply⟩ := (hserver.eval call.1 call.2).eval_past_end hmoved call'.1 call'.2
      rw [replies_cons, eval_exhausted _ _ _ _ hcurrent, replies_cons, hreply] at hfresh
      exact hfresh.1 hmem
  | succ m ih =>
    intro server calls revealed hle hserver hcurrent hlength hmem hfresh
    cases calls with
    | nil => cases hlength
    | cons call calls =>
      obtain ⟨y, W, hreply, _⟩ := hserver.eval_of_pos (Nat.succ_pos m) (by omega) hcurrent
        call.1 call.2
      rw [replies_cons, hreply] at hfresh
      apply ih _ calls _ (by omega) (hserver.eval call.1 call.2) _ (Nat.lt_of_succ_lt_succ hlength)
        (List.mem_cons_of_mem _ hmem) hfresh.2.2
      rw [eval_current]
      omega

/-- From setup on, the discipline holds in exactly the runs of at most a hundred calls: the
call after the one that answers `None` takes the index below zero. -/
theorem hashChainDiscipline_iff (e : IdealPairing r G1 G2 GT) (alpha : ZMod r)
    (sha256 : String → BitVec 256)
    (hcollision : ∀ i < 100, ∀ j < 100,
      sha256 (chainAt sha256 i) = sha256 (chainAt sha256 j) →
        chainAt sha256 i = chainAt sha256 j)
    (random : Nat → ZMod r) (calls : List (String × String)) :
    ∃ server last, LootBoxOpeningServer.setup (TrustedSetup.generate e alpha 200 true) sha256
        random = .ok (server, last) ∧
      (HashChainDiscipline e (TrustedSetup.generate e alpha 200 true) sha256 [last] last server
        calls ↔ calls.length ≤ 100) := by
  obtain ⟨server, hsetup, hserver, hcurrent⟩ := setup_spec e alpha sha256 random
  refine ⟨server, chainAt sha256 100, hsetup, ?_⟩
  have hstart : server.current = ((99 : Nat) : Int) + 1 := hcurrent
  constructor
  · intro h
    by_contra hlong
    exact not_revealsFresh 99 server calls _ (le_refl _) hserver hstart (by omega)
      List.mem_cons_self h.fresh
  · intro hlength
    exact discipline_of_length_le hcollision 99 server calls (le_refl _) hserver hstart hlength

/-! ### A hash that counts -/

def countingHash (s : String) : BitVec 256 :=
  if s = "random_seed" then 0 else BitVec.ofNat 256 ((intBase16 s).getD 0 + 1)

theorem countingHash_chainAt :
    ∀ i : Nat, i < 100 → (countingHash (chainAt countingHash i)).toNat = i := by
  intro i
  induction i with
  | zero =>
    intro _
    rfl
  | succ i ih =>
    intro hlt
    have hne : chainAt countingHash (i + 1) ≠ "random_seed" := by
      intro heq
      have hlength := length_hexdigest countingHash (chainAt countingHash i)
      rw [← chainAt_succ, heq] at hlength
      exact absurd hlength (by decide)
    rw [countingHash, if_neg hne, chainAt_succ, intBase16_hexdigest, ih (by omega), Option.getD_some,
      BitVec.toNat_ofNat, Nat.mod_eq_of_lt]
    exact lt_of_lt_of_le hlt (by norm_num)

theorem countingHash_collision : ∀ i < 100, ∀ j < 100,
    countingHash (chainAt countingHash i) = countingHash (chainAt countingHash j) →
      chainAt countingHash i = chainAt countingHash j := by
  intro i hi j hj heq
  have htoNat := congrArg BitVec.toNat heq
  rw [countingHash_chainAt i hi, countingHash_chainAt j hj] at htoNat
  rw [htoNat]

theorem hashChainDiscipline_two_calls :
    ∃ server last, LootBoxOpeningServer.setup
        (TrustedSetup.generate (IdealPairing.residues 7) 5 200 true) countingHash (fun _ => 0) =
          .ok (server, last) ∧
      (HashChainDiscipline (IdealPairing.residues 7)
        (TrustedSetup.generate (IdealPairing.residues 7) 5 200 true) countingHash [last] last server
        [("a", "b"), ("c", "d")] ↔ 2 ≤ 100) := by
  have : Fact (Nat.Prime 7) := ⟨by decide⟩
  exact hashChainDiscipline_iff (IdealPairing.residues 7) 5 countingHash countingHash_collision
    (fun _ => 0) [("a", "b"), ("c", "d")]

/-- After one hundred and one calls the published element has been revealed. -/
theorem tail_revealed_again :
    ∃ server last, LootBoxOpeningServer.setup
        (TrustedSetup.generate (IdealPairing.residues 7) 5 200 true) countingHash (fun _ => 0) =
          .ok (server, last) ∧
      ¬ HashChainDiscipline (IdealPairing.residues 7)
        (TrustedSetup.generate (IdealPairing.residues 7) 5 200 true) countingHash [last] last server
        (List.replicate 101 ("a", "b")) := by
  have : Fact (Nat.Prime 7) := ⟨by decide⟩
  obtain ⟨server, hsetup, hserver, hcurrent⟩ :=
    setup_spec (IdealPairing.residues 7) 5 countingHash (fun _ => 0)
  refine ⟨server, _, hsetup, ?_⟩
  intro h
  have hlength : 99 + 1 < (List.replicate 101 ("a", "b")).length := by
    rw [List.length_replicate]
    omega
  exact not_revealsFresh 99 server _ _ (le_refl _) hserver hcurrent hlength List.mem_cons_self h.fresh

end Lootbox.LootBoxOpening

import Lootbox.Chiavdf.ProverAccounting

/-!
# `vdf.h`: honest runs

Where the main loop hands out the powers of a class and no prover is overtaken, every segment that
is done has its honest proof. So the proofs made of them are accepted.
-/

namespace Lootbox.Chiavdf

open Headstart BinaryQF ReducedForm StepSystem

variable {p : Nat} [hp : PrimeDiscriminant p] {g : ReducedForm p} {H : Primitives} {fuel n : Nat}
  {m : ProverManager}

/-! ### The segments -/

section Segments

/-- The ends are the powers of `g`. -/
def Ends (g : ReducedForm p) (s : Segment) : Prop :=
  AfterSquarings g s.start s.x ∧
    AfterSquarings g (s.start + s.length) s.y

/-- The segment of a prover, and its proof if there is one. -/
def HonestProver (H : Primitives) (fuel : Nat) (g : ReducedForm p) (r : Prover) : Prop :=
  Ends g r.segment ∧ ∀ proof, r.proof = some proof → Proved H fuel g { r.segment with proof := proof }

structure HonestSegments (H : Primitives) (fuel : Nat) (g : ReducedForm p) (m : ProverManager) :
    Prop where
  pending : ∀ pending ∈ m.pending_segments, ∀ s ∈ pending, Ends g s
  provers : ∀ r ∈ m.provers, HonestProver H fuel g r
  done : ∀ i j s, DoneAt m.done_segments i j s → Proved H fuel g s

theorem mem_of_mem_modify {α : Type} {f : α → α} {xs : List α} {i : Nat} {a : α}
    (h : a ∈ xs.modify i f) : a ∈ xs ∨ ∃ b, xs[i]? = some b ∧ a = f b := by
  obtain ⟨k, hk⟩ := List.mem_iff_getElem?.mp h
  rw [List.getElem?_modify] at hk
  obtain ⟨b, hb, hba⟩ := Option.map_eq_some_iff.mp hk
  by_cases hik : i = k
  · rw [if_pos hik] at hba
    exact Or.inr ⟨b, hik ▸ hb, hba.symm⟩
  · rw [if_neg hik] at hba
    exact Or.inl (hba ▸ List.mem_of_getElem? hb)

theorem HonestSegments.modify (h : HonestSegments H fuel g m) {i : Nat} {f : Prover → Prover}
    (hf : ∀ r, m.provers[i]? = some r → HonestProver H fuel g (f r)) :
    HonestSegments H fuel g { m with provers := m.provers.modify i f } := by
  refine ⟨h.pending, ?_, h.done⟩
  intro r hr
  rcases mem_of_mem_modify hr with hr | ⟨r', hr', rfl⟩
  · exact h.provers r hr
  · exact hf r' hr'

theorem HonestSegments.setPaused (h : HonestSegments H fuel g m) (i : Nat) (is_paused : Bool) :
    HonestSegments H fuel g { m with provers := ProverManager.setPaused m.provers i is_paused } := by
  apply h.modify
  intro r hr
  exact h.provers r (List.mem_of_getElem? hr)

theorem HonestProver.collected {r : Prover} (h : HonestProver H fuel g r) :
    HonestProver H fuel g r.collected := by
  obtain ⟨segment, is_paused, proof, is_fully_finished⟩ := r
  cases proof with
  | none => exact h
  | some proof => exact h

theorem HonestProver.result {r : Prover} {s : Segment} (h : HonestProver H fuel g r)
    (hs : r.result = some s) : Proved H fuel g s := by
  obtain ⟨proof, hproof, rfl⟩ := Option.map_eq_some_iff.mp hs
  exact h.2 proof hproof

theorem HonestSegments.collect (h : HonestSegments H fuel g m) {q : Nat → Nat} (hq : Accounted q m) :
    HonestSegments H fuel g { m with
      provers := (ProverManager.collect m.provers m.done_segments).1
      done_segments := (ProverManager.collect m.provers m.done_segments).2.1 } := by
  obtain ⟨hprovers, hdone⟩ := collect_eq m.provers m.done_segments
  rw [hprovers, hdone]
  refine ⟨h.pending, ?_, ?_⟩
  · intro r' hr'
    obtain ⟨r, hr, rfl⟩ := List.mem_map.mp hr'
    exact (h.provers r (List.mem_of_mem_filter hr)).collected
  · intro i j s hs
    rcases of_doneAt_placeAll _ hq.located hs with hs | ⟨hs, _⟩
    · exact h.done i j s hs
    · obtain ⟨r, hr, hrs⟩ := List.mem_filterMap.mp hs
      exact (h.provers r hr).result hrs

theorem ends_of_checkpoints {store : FastAlgorithmCallback} (hstore : store.UpToDate g n) {s : Segment}
    {i j : Nat} (hbucket : InBucket s i j) (hend : s.start + s.length ≤ n)
    (h : FromCheckpoints store.checkpoints s) : Ends g s := by
  have hdvd : 2 ^ 16 ∣ segmentSize i := Nat.pow_dvd_pow 2 (Nat.le_add_right 16 _)
  have hstart : 2 ^ 16 ∣ s.start := hbucket.start ▸ Dvd.dvd.mul_left hdvd j
  have hlength : 2 ^ 16 ∣ s.length := hbucket.length ▸ hdvd
  have hat : ∀ {t : Nat} {f : Form}, 2 ^ 16 ∣ t → t ≤ n → store.checkpoints[t / 2 ^ 16]? = some f →
      AfterSquarings g t f := by
    intro t f ht hle hf
    obtain ⟨f', hf', hafter⟩ := hstore.checkpoints (t / 2 ^ 16) (by rwa [Nat.div_mul_cancel ht])
    rw [Nat.div_mul_cancel ht] at hafter
    obtain rfl := Option.some.inj (hf.symm.trans hf')
    exact hafter
  exact ⟨hat hstart (by omega) h.1, hat (Nat.dvd_add hstart hlength) hend h.2⟩

theorem HonestSegments.append (h : HonestSegments H fuel g m) {q : Nat → Nat} (hq : Accounted q m)
    {store : FastAlgorithmCallback} (hstore : store.UpToDate g n) {intermediates_iter : Nat}
    (hlower : m.intermediates_iter ≤ intermediates_iter) (hupper : intermediates_iter ≤ n)
    {r : List (List Segment) × List Nat} (happend : ProverManager.appendAll store.checkpoints
      intermediates_iter 0 m.pending_segments m.last_appended = .ok r) :
    ∀ pending ∈ r.1, ∀ s ∈ pending, Ends g s := by
  obtain ⟨hfirst, _, hbuckets⟩ := appendAll_eq_ok _ 0 _ happend
    (hq.length_pending.trans hq.length_last.symm)
  intro pending' hpending' s hs
  obtain ⟨i, hi, rfl⟩ := List.mem_iff_getElem.mp hpending'
  have hcount : i < m.segment_count := (hfirst.trans hq.length_pending) ▸ hi
  obtain ⟨pending, hpending, hlast, hlast_le, _⟩ := hq.pending i hcount
  obtain ⟨st, hst, hst_pending, _⟩ := hbuckets i pending _ hpending hlast
  rw [Nat.zero_add] at hst
  obtain ⟨new, rfl, hnew_le, hnew⟩ := appendSegments_eq_ok (hlast_le.trans hlower) hst
  rw [List.getElem?_eq_getElem hi] at hst_pending
  rw [Option.some.inj hst_pending] at hs
  rcases List.mem_append.mp hs with hs | hs
  · exact h.pending pending (List.mem_of_getElem? hpending) s hs
  · obtain ⟨k, hk⟩ := List.mem_iff_getElem?.mp hs
    obtain ⟨hbucket, hfrom⟩ := hnew k s hk
    have hklt := (List.getElem?_eq_some_iff.mp hk).1
    have hend : s.start + s.length ≤ n := by
      rw [hbucket.start, hbucket.length, ← Nat.succ_mul]
      exact ((Nat.mul_le_mul_right _ (by omega)).trans hnew_le).trans hupper
    exact ends_of_checkpoints hstore hbucket hend hfrom

theorem HonestSegments.onEvent (h : HonestSegments H fuel g m) {q : Nat → Nat} (hq : Accounted q m)
    {store : FastAlgorithmCallback} (hstore : store.UpToDate g n)
    {vdf_iteration intermediates_iter : Nat} {multi_proc_machine : Bool}
    (hlower : m.intermediates_iter ≤ intermediates_iter) (hupper : intermediates_iter ≤ n)
    {m' : ProverManager} (hm : m.onEvent multi_proc_machine store.checkpoints vdf_iteration
      intermediates_iter = .ok m') : HonestSegments H fuel g m' := by
  unfold ProverManager.onEvent at hm
  dsimp only at hm
  obtain ⟨r, hr, hm⟩ := bind_eq_ok_iff.mp hm
  cases hm
  have hcollect := h.collect hq
  exact ⟨h.append hq hstore hlower hupper hr, hcollect.provers, hcollect.done⟩

theorem HonestSegments.spawn (h : HonestSegments H fuel g m) {s : Segment} {c : ProverManager.Candidate}
    (hwaits : Waits m.provers m.pending_segments s c) : HonestSegments H fuel g (m.spawn s c) := by
  cases c with
  | paused i => exact h.setPaused i false
  | pending i =>
    obtain ⟨rest, hrest⟩ := hwaits
    have hmem := List.mem_of_getElem? hrest
    refine ⟨?_, ?_, h.done⟩
    · intro pending hpending s' hs'
      rcases mem_of_mem_modify hpending with hpending | ⟨pending', hpending', rfl⟩
      · exact h.pending pending hpending s' hs'
      · exact h.pending pending' (List.mem_of_getElem? hpending') s' (List.mem_of_mem_tail hs')
    · intro r hr
      rcases List.mem_append.mp hr with hr | hr
      · exact h.provers r hr
      · obtain rfl := List.mem_singleton.mp hr
        refine ⟨h.pending _ hmem s List.mem_cons_self, ?_⟩
        intro proof hproof
        cases hproof

end Segments

/-! ### Runs -/

section Runs

variable {cfg : ClientConfig} {st st' : Client} {a : ClientAction}

/-- The main loop hands out the powers of `g`. -/
structure HonestConfig (g : ReducedForm p) (cfg : ClientConfig) : Prop where
  D : cfg.D = -p
  keeps : KeepsClass p cfg.shrink
  vdf : ∀ n, AfterSquarings g n (cfg.vdf n)

/-- The provers keep up with the main loop, and there is room for the next checkpoint. -/
def InTime (st : Client) : Prop :=
  (∀ r ∈ st.manager.provers, r.proof = none → ¬ st.Overtaken r.segment) ∧
    (st.iterations + 1) / 2 ^ 16 < 2 ^ 18

instance decidableInTime : DecidablePred InTime := fun st =>
  inferInstanceAs (Decidable ((∀ r ∈ st.manager.provers, r.proof = none → ¬ st.Overtaken r.segment) ∧
    (st.iterations + 1) / 2 ^ 16 < 2 ^ 18))

structure HonestState (H : Primitives) (fuel : Nat) (g : ReducedForm p) (st : Client) : Prop where
  inOrder : InOrder st
  store : st.callback.UpToDate g st.iterations
  segment_count : st.callback.segments = st.manager.segment_count
  segments : HonestSegments H fuel g st.manager

theorem honestState_init (H : Primitives) (fuel max_proving_threads : Nat) {segment_count : Nat}
    (hsegments : segment_count ≤ 15) {f : Form} (hf : HasClass f g) :
    HonestState H fuel g (Client.init segment_count max_proving_threads f false) := by
  have haccounted := accounted_init segment_count max_proving_threads
  refine ⟨inOrder_init _ _ _ _, FastAlgorithmCallback.upToDate_init hsegments hf, rfl, ?_, ?_, ?_⟩
  · intro pending hpending s hs
    obtain rfl := List.eq_of_mem_replicate hpending
    cases hs
  · intro r hr
    cases hr
  · intro i j s hs
    exact absurd (haccounted.done_given i j s hs).2.1 (Nat.not_lt_zero j)

theorem HonestState.finish (h : HonestState cfg.H cfg.fuel g st) (hcfg : HonestConfig g cfg)
    {r : Prover} (hr : r ∈ st.manager.provers) (htime : ¬ st.Overtaken r.segment) {proof : Form}
    (hproof : interruptableProof cfg.gcdext cfg.shrink cfg.H cfg.fuel cfg.D st.callback.forms
      r.segment = .ok proof) : Proved cfg.H cfg.fuel g { r.segment with proof := proof } := by
  obtain ⟨⟨q, hq⟩, hseen, hstored⟩ := h.inOrder
  have hle := (hstored h.store.multi_proc_machine).trans_le hseen
  obtain ⟨i, hi, j, hj, hbucket⟩ := hq.provers r hr
  obtain ⟨pending, _, _, hlast_le, _⟩ := hq.pending i hi
  have hpos := segmentSize_pos i
  have hend : r.segment.start + r.segment.length ≤ st.iterations := by
    rw [hbucket.start, hbucket.length, ← Nat.succ_mul]
    exact ((Nat.mul_le_mul_right _ (by omega)).trans hlast_le).trans hle
  have hwindow : st.iterations / segmentSize i < j + kWindowSize := by
    have hnot := not_le.mp htime
    rwa [hbucket.start, hbucket.length, Nat.mul_div_cancel _ hpos] at hnot
  obtain ⟨hx, hy⟩ := (h.segments.provers r hr).1
  rw [hcfg.D] at hproof
  have hfits := bucketSpacing_lt (hi.trans_le (h.segment_count ▸ h.store.segments))
  exact proved_of_interruptableProof cfg.gcdext hcfg.keeps hfits
    (h.store.forms i (h.segment_count ▸ hi)) hbucket hend hwindow hx hy hproof

theorem HonestSegments.spawnRound {active_provers : Nat} {m' : ProverManager}
    (h : HonestSegments H fuel g m) (hm : m.spawnRound active_provers = .ok m') :
    HonestSegments H fuel g m' := by
  rcases spawnRound_cases hm with rfl | ⟨s, c, hwaits, hspawn⟩
  · exact ⟨h.pending, h.provers, h.done⟩
  · rcases hspawn with rfl | ⟨k, r, hr, hrunning, rfl⟩
    · have hspawn := h.spawn hwaits
      exact ⟨hspawn.pending, hspawn.provers, hspawn.done⟩
    · exact (h.setPaused k true).spawn (waits_setPaused hwaits hr hrunning)

theorem HonestState.step (h : HonestState cfg.H cfg.fuel g st) (hcfg : HonestConfig g cfg)
    (htime : InTime st) (hstep : st.step cfg a = some st') : HonestState cfg.H cfg.fuel g st' := by
  have hinOrder := h.inOrder.step hstep
  obtain ⟨q, hq⟩ := h.inOrder.accounted
  cases moved_of_step hstep with
  | iteration callback hcallback =>
    obtain ⟨hstore, hsegments⟩ :=
      (h.store.onIteration hcfg.keeps (hcfg.vdf _) htime.2).of_eq_ok hcallback
    exact ⟨hinOrder, hstore, hsegments.trans h.segment_count, h.segments⟩
  | finish i r proof hr hnone hread =>
    have hmem := List.mem_of_getElem? hr
    have hintime := htime.1 r hmem hnone
    refine ⟨hinOrder, h.store, h.segment_count, h.segments.modify ?_⟩
    intro r' hr'
    obtain rfl := Option.some.inj (hr.symm.trans hr')
    refine ⟨(h.segments.provers r hmem).1, ?_⟩
    intro proof' hproof'
    cases hproof'
    exact h.finish hcfg hmem hintime (hread.resolve_left hintime)
  | fullyFinish i =>
    refine ⟨hinOrder, h.store, h.segment_count, h.segments.modify ?_⟩
    intro r hr
    exact h.segments.provers r (List.mem_of_getElem? hr)
  | requests pending_iters =>
    exact ⟨hinOrder, h.store, h.segment_count, h.segments.pending, h.segments.provers, h.segments.done⟩
  | store forms hmulti => exact absurd (h.store.multi_proc_machine.symm.trans hmulti) Bool.false_ne_true
  | event vdf_iteration intermediates_iter manager _ hlower hupper hstored hevent =>
    have hle := h.inOrder.le_of_formsStored hlower hstored
    unfold Client.FormsStored at hstored
    rw [h.store.multi_proc_machine, if_neg Bool.false_ne_true] at hstored
    exact ⟨hinOrder, h.store, h.segment_count.trans (onEvent_frame hevent).2.2.symm,
      h.segments.onEvent hq h.store hle (hstored.trans_le hupper) hevent⟩
  | spawn active_provers manager _ hspawn =>
    exact ⟨hinOrder, h.store, h.segment_count.trans (spawnRound_frame hspawn).2.2.2.2.2.symm,
      h.segments.spawnRound hspawn⟩

/-- Whatever the order of the steps, the proof for an iteration that the main loop has passed is
accepted, where the segments for it are done. -/
theorem honest_run_accepted (gcdext : BoundedGcdext) (hcfg : HonestConfig g cfg)
    (hbits : numBits (-p) ≤ 1024) {segment_count max_proving_threads iteration : Nat}
    (hsegments : segment_count ≤ 15) {f : Form} (hf : HasClass f g) {as : List ClientAction}
    (htime : Meets (Client.step cfg) (fun st _ => InTime st)
      (Client.init segment_count max_proving_threads f false) as)
    (hrun : run (Client.step cfg) (Client.init segment_count max_proving_threads f false) as = some st)
    (hpos : 0 < iteration) (hle : iteration ≤ st.iterations) (hlt : iteration < 2 ^ 64)
    (hsome : ∀ s ∈ (selectSegments st.manager.done_segments iteration segment_count 0).1, s ≠ none)
    (hg : Stored g) (hy : Stored (g ^ 2 ^ iteration))
    (hstored : ProofsStored cfg.H cfg.fuel g iteration) :
    Yields .diverges (Fails p cfg.shrink ∨ Endless cfg.H cfg.fuel g iteration)
      (fun r => ∀ y proof witness_type, r = some (y, proof, witness_type) →
        Yields .diverges (Fails p cfg.shrink) (· = true)
          (checkProofOfTimeNWesolowski gcdext.toGcdext cfg.shrink cfg.H cfg.fuel (-p) (formBlob g)
            (y ++ proof) iteration (witness_type : Nat)))
      (prove gcdext.toGcdext cfg.shrink cfg.H cfg.fuel (-p) st.callback.checkpoints
        st.manager.done_segments segment_count iteration) := by
  have hpreserved : ∀ s a t, HonestState cfg.H cfg.fuel g s → InTime s →
      Client.step cfg s a = some t → HonestState cfg.H cfg.fuel g t :=
    fun s a t hs hintime hstep => hs.step hcfg hintime hstep
  have hinit := honestState_init cfg.H cfg.fuel max_proving_threads hsegments hf
  have hstate := run_invariant hpreserved as _ st hinit htime hrun
  obtain ⟨q, hq⟩ := hstate.inOrder.accounted
  have hspan : iteration / 2 ^ 16 * 2 ^ 16 = spanStart iteration := by
    unfold spanStart
    omega
  obtain ⟨f', hcheckpoint, hafter⟩ := hstate.store.checkpoints (iteration / 2 ^ 16)
    ((Nat.div_mul_le_self _ _).trans hle)
  rw [hspan] at hafter
  apply prove_class gcdext hcfg.keeps hbits hpos hlt hcheckpoint hafter
  · intro i position s hs
    exact (hq.done_given i position s hs).2.2
  · intro s hs
    obtain ⟨i, position, hs⟩ := hs
    exact hstate.segments.done i position s hs
  · exact hsome
  · exact hg
  · exact hy
  · exact hstored

/-! ### A run with a finished segment -/

theorem iterations_run (hcfg : HonestConfig g cfg) (hreturns : ¬ Fails p cfg.shrink)
    (hprovers : m.provers = []) (n : Nat) :
    ∀ {iterations : Nat} {callback : FastAlgorithmCallback}, callback.UpToDate g iterations →
      (iterations + n) / 2 ^ 16 < 2 ^ 18 →
      ∃ callback' : FastAlgorithmCallback, callback'.UpToDate g (iterations + n) ∧
        callback'.segments = callback.segments ∧ ∀ {as : List ClientAction} {t : Client},
          Meets (Client.step cfg) (fun st _ => InTime st) ⟨iterations + n, callback', m⟩ as ∧
            run (Client.step cfg) ⟨iterations + n, callback', m⟩ as = some t →
          Meets (Client.step cfg) (fun st _ => InTime st) ⟨iterations, callback, m⟩
              (List.replicate n .iteration ++ as) ∧
            run (Client.step cfg) ⟨iterations, callback, m⟩ (List.replicate n .iteration ++ as) =
              some t := by
  induction n with
  | zero => exact fun {iterations callback} h _ => ⟨callback, h, rfl, id⟩
  | succ n ih =>
    intro iterations callback h hroom
    have hnext : (iterations + 1) / 2 ^ 16 < 2 ^ 18 :=
      (Nat.div_le_div_right (by omega)).trans_lt hroom
    rcases h.onIteration hcfg.keeps (hcfg.vdf (iterations + 1)) hnext with
      ⟨next, hiteration, hstore, hsegments⟩ | ⟨_, hfails⟩
    · rw [Nat.add_comm n 1, ← Nat.add_assoc] at hroom ⊢
      obtain ⟨callback', hstore', hsegments', hrun⟩ := ih hstore hroom
      refine ⟨callback', hstore', hsegments'.trans hsegments, ?_⟩
      intro as t hrest
      have hintime : InTime ⟨iterations, callback, m⟩ := by
        refine ⟨?_, hnext⟩
        intro r hr
        rw [show (⟨iterations, callback, m⟩ : Client).manager.provers = [] from hprovers] at hr
        cases hr
      have hstep : Client.step cfg ⟨iterations, callback, m⟩ .iteration =
          some ⟨iterations + 1, next, m⟩ := by
        unfold Client.step
        dsimp only
        rw [hiteration]
        rfl
      rw [Nat.add_comm 1 n, List.replicate_succ, List.cons_append]
      exact meets_run_cons hintime hstep (hrun hrest)
    · exact absurd hfails hreturns

instance primeDiscriminant_23 : PrimeDiscriminant 23 := ⟨by norm_num, by norm_num⟩

def exactShrink (f : Form) : Option Form := (reduce f).toOption

theorem exactShrink_eq {f : Form} {x : ReducedForm p} (h : HasClass f x) :
    exactShrink f = some x.form := by
  rw [exactShrink, reduce_class h]
  rfl

/-- A main loop over the powers of a class of order three. -/
noncomputable def orderThreeConfig : ClientConfig where
  gcdext := boundedEuclid.toGcdext
  shrink := exactShrink
  H := smallHashes
  fuel := 1
  D := -23
  vdf := fun n => (orderThree ^ 2 ^ n).form

theorem honestConfig_orderThree : HonestConfig orderThree orderThreeConfig := by
  refine ⟨rfl, ?_, fun _ => hasClass_form _⟩
  intro f g x hf hg
  obtain rfl := Option.some.inj ((exactShrink_eq hf).symm.trans hg)
  exact hasClass_form x

theorem not_fails_exactShrink : ¬ Fails 23 exactShrink := by
  rintro ⟨f, x, hf, hnone⟩
  cases (exactShrink_eq hf).symm.trans hnone

def firstProof (proof : Form) : List ClientAction :=
  [.event (2 ^ 16) (2 ^ 16), .spawn, .spawn, .finish 0 proof, .fullyFinish 0,
    .event (2 ^ 16) (2 ^ 16)]

/-- The squarings of a segment, which is then proved, and three more. -/
def oneSegment (proof : Form) : List ClientAction :=
  List.replicate (2 ^ 16) .iteration ++ (firstProof proof ++ List.replicate 3 .iteration)

def firstSegment (x y : Form) : Segment := ⟨0, 2 ^ 16, x, y, ⟨0, 0, 0⟩⟩

/-- The manager of one bucket, after it has seen the squarings of the first segment. -/
def seenManager (provers : List Prover) (pending : List Segment) (done : List (Option Segment))
    (active_provers : Option Nat) : ProverManager :=
  { ProverManager.init 1 2 with
    provers := provers
    pending_segments := [pending]
    last_appended := [2 ^ 16]
    done_segments := [done]
    vdf_iteration := 2 ^ 16
    intermediates_iter := 2 ^ 16
    active_provers := active_provers }

section FirstSegment

variable {callback : FastAlgorithmCallback} {x y proof : Form}

theorem inTime_first (hprovers : ∀ r ∈ m.provers, r.segment = firstSegment x y) :
    InTime ⟨2 ^ 16, callback, m⟩ := by
  refine ⟨?_, by norm_num⟩
  intro r hr _ hovertaken
  unfold Client.Overtaken at hovertaken
  dsimp only at hovertaken
  rw [hprovers r hr] at hovertaken
  have hwindow : ¬ 0 / 2 ^ 16 + kWindowSize ≤ 2 ^ 16 / 2 ^ 16 := by decide
  exact hwindow hovertaken

theorem exists_interruptableProof (h : callback.UpToDate orderThree (2 ^ 16))
    (hsegments : callback.segments = 1) (hx : AfterSquarings orderThree 0 x)
    (hy : AfterSquarings orderThree (2 ^ 16) y) : ∃ proof,
      interruptableProof boundedEuclid.toGcdext exactShrink smallHashes 1 (-23) callback.forms
        (firstSegment x y) = .ok proof := by
  obtain ⟨_, hproved⟩ := finishedSegment_proved
  obtain ⟨B, hB, _⟩ := hproved.proof
  have hbucket : InBucket (firstSegment x y) 0 0 := ⟨rfl, rfl⟩
  have hend : AfterSquarings orderThree (0 + 2 ^ 16) y := by
    rw [Nat.zero_add]
    exact hy
  rcases interruptableProof_class boundedEuclid.toGcdext honestConfig_orderThree.keeps
    (bucketSpacing_lt (by norm_num)) (h.forms 0 (by omega)) hbucket (Nat.zero_add _).le (by decide) hx hend
    hB with ⟨proof, hproof, _⟩ | ⟨_, hfails⟩
  · exact ⟨proof, hproof⟩
  · exact absurd hfails not_fails_exactShrink

theorem event_first (cfg : ClientConfig) (hmulti : callback.multi_proc_machine = false)
    (hx : callback.checkpoints[0]? = some x) (hy : callback.checkpoints[1]? = some y) :
    Client.step cfg ⟨2 ^ 16, callback, ProverManager.init 1 2⟩ (.event (2 ^ 16) (2 ^ 16)) =
      some ⟨2 ^ 16, callback, seenManager [] [firstSegment x y] [] (some 0)⟩ := by
  obtain ⟨segments, multi_proc_machine, forms, checkpoints, y_ret⟩ := callback
  cases hmulti
  obtain _ | ⟨x', _ | ⟨y', checkpoints⟩⟩ := checkpoints
  · cases hx
  · cases hy
  · obtain rfl := Option.some.inj hx
    obtain rfl := Option.some.inj hy
    rfl

theorem event_collect (cfg : ClientConfig) (hmulti : callback.multi_proc_machine = false) :
    Client.step cfg ⟨2 ^ 16, callback, seenManager [⟨firstSegment x y, false, some proof, true⟩] [] []
        none⟩ (.event (2 ^ 16) (2 ^ 16)) =
      some ⟨2 ^ 16, callback, seenManager [] [] [some { firstSegment x y with proof := proof }]
        (some 0)⟩ := by
  have hbucket : segmentBucket (2 ^ 16) = 0 := segmentBucket_size 0
  have hcollect : ProverManager.collect [⟨firstSegment x y, false, some proof, true⟩] [[]] =
      ([], [[some { firstSegment x y with proof := proof }]], true) := by
    unfold ProverManager.collect ProverManager.placeDone firstSegment
    dsimp only
    rw [hbucket]
    rfl
  have hevent : (seenManager [⟨firstSegment x y, false, some proof, true⟩] [] [] none).onEvent
      callback.multi_proc_machine callback.checkpoints (2 ^ 16) (2 ^ 16) =
        .ok (seenManager [] [] [some { firstSegment x y with proof := proof }] (some 0)) := by
    unfold ProverManager.onEvent seenManager
    dsimp only
    rw [hmulti, hcollect]
    rfl
  have hstored : Client.FormsStored ⟨2 ^ 16, callback, seenManager [⟨firstSegment x y, false, some proof,
      true⟩] [] [] none⟩ (2 ^ 16) (2 ^ 16) := by
    unfold Client.FormsStored
    rw [hmulti]
    rfl
  unfold Client.step Client.eventStep
  dsimp only
  rw [if_pos ⟨rfl, le_rfl, le_rfl, hstored⟩, hevent]
  rfl

theorem segment_run (h : callback.UpToDate orderThree (2 ^ 16)) (hsegments : callback.segments = 1) :
    ∃ (proof : Form) (s : Segment), ∀ {as : List ClientAction} {t : Client},
      Meets (Client.step orderThreeConfig) (fun st _ => InTime st)
          ⟨2 ^ 16, callback, seenManager [] [] [some s] (some 0)⟩ as ∧
        run (Client.step orderThreeConfig) ⟨2 ^ 16, callback, seenManager [] [] [some s] (some 0)⟩ as =
          some t →
      Meets (Client.step orderThreeConfig) (fun st _ => InTime st)
          ⟨2 ^ 16, callback, ProverManager.init 1 2⟩ (firstProof proof ++ as) ∧
        run (Client.step orderThreeConfig) ⟨2 ^ 16, callback, ProverManager.init 1 2⟩
          (firstProof proof ++ as) = some t := by
  obtain ⟨x, hget_x, hx⟩ := h.checkpoints 0 (Nat.zero_le _)
  obtain ⟨y, hget_y, hy⟩ := h.checkpoints 1 le_rfl
  obtain ⟨proof, hproof⟩ := exists_interruptableProof h hsegments hx hy
  have hmulti := h.multi_proc_machine
  refine ⟨proof, { firstSegment x y with proof := proof }, ?_⟩
  intro as t hrest
  have hnone : ∀ r ∈ ([] : List Prover), r.segment = firstSegment x y := by simp
  have hone : ∀ proof is_fully_finished,
      ∀ r ∈ [(⟨firstSegment x y, false, proof, is_fully_finished⟩ : Prover)],
        r.segment = firstSegment x y := by simp
  have hfinish : Client.step orderThreeConfig ⟨2 ^ 16, callback,
        seenManager [⟨firstSegment x y, false, none, false⟩] [] [] none⟩ (.finish 0 proof) =
      some ⟨2 ^ 16, callback, seenManager [⟨firstSegment x y, false, some proof, false⟩] [] [] none⟩ :=
    if_pos ⟨rfl, Or.inr hproof⟩
  refine meets_run_cons (inTime_first hnone) (event_first _ hmulti hget_x hget_y) ?_
  refine meets_run_cons (inTime_first hnone) (m := ⟨2 ^ 16, callback,
    seenManager [⟨firstSegment x y, false, none, false⟩] [] [] (some 1)⟩) rfl ?_
  refine meets_run_cons (inTime_first (hone _ _)) (m := ⟨2 ^ 16, callback,
    seenManager [⟨firstSegment x y, false, none, false⟩] [] [] none⟩) rfl ?_
  refine meets_run_cons (inTime_first (hone _ _)) hfinish ?_
  refine meets_run_cons (inTime_first (hone _ _)) (m := ⟨2 ^ 16, callback,
    seenManager [⟨firstSegment x y, false, some proof, true⟩] [] [] none⟩) rfl ?_
  exact meets_run_cons (inTime_first (hone _ _)) (event_collect _ hmulti) hrest

theorem oneSegment_run : ∃ (proof : Form) (st : Client),
    (Meets (Client.step orderThreeConfig) (fun st _ => InTime st)
        (Client.init 1 2 orderThree.form false) (oneSegment proof) ∧
      run (Client.step orderThreeConfig) (Client.init 1 2 orderThree.form false) (oneSegment proof) =
        some st) ∧
    st.iterations = 65539 ∧ ∃ s, st.manager.done_segments = [[some s]] := by
  have hstore := FastAlgorithmCallback.upToDate_init (by norm_num : 1 ≤ 15) (hasClass_form orderThree)
  obtain ⟨callback, hfirst, hsegments, hfirst_run⟩ := iterations_run (m := ProverManager.init 1 2)
    honestConfig_orderThree not_fails_exactShrink rfl (2 ^ 16) hstore (by norm_num)
  rw [Nat.zero_add] at hfirst hfirst_run
  obtain ⟨proof, s, hsegment_run⟩ := segment_run hfirst hsegments
  obtain ⟨callback', _, _, hlast_run⟩ := iterations_run (m := seenManager [] [] [some s] (some 0))
    honestConfig_orderThree not_fails_exactShrink rfl 3 hfirst (by norm_num)
  have hlast := @hlast_run [] _ ⟨trivial, rfl⟩
  rw [List.append_nil] at hlast
  exact ⟨proof, _, hfirst_run (hsegment_run hlast), rfl, s, rfl⟩

end FirstSegment

theorem honest_run_accepted_23 : ∃ (proof : Form) (st : Client),
    run (Client.step orderThreeConfig) (Client.init 1 2 orderThree.form false) (oneSegment proof) =
      some st ∧
    (∃ s, (selectSegments st.manager.done_segments 65539 1 0).1 = [some s]) ∧
    Yields .diverges (Fails 23 exactShrink ∨ Endless smallHashes 1 orderThree 65539)
      (fun r => ∀ y proof witness_type, r = some (y, proof, witness_type) →
        Yields .diverges (Fails 23 exactShrink) (· = true)
          (checkProofOfTimeNWesolowski boundedEuclid.toGcdext exactShrink smallHashes 1 (-23)
            (formBlob orderThree) (y ++ proof) 65539 (witness_type : Nat)))
      (prove boundedEuclid.toGcdext exactShrink smallHashes 1 (-23) st.callback.checkpoints
        st.manager.done_segments 1 65539) := by
  obtain ⟨proof, st, ⟨htime, hst⟩, hiterations, s, hdone⟩ := oneSegment_run
  have hselected : selectSegments [[some s]] 65539 1 0 = ([some s], 65536) := rfl
  have hbits : numBits (-(23 : Nat)) = 5 := by decide +kernel
  have hstored : ∀ x : ReducedForm 23, Stored x := fun x =>
    cofactorFits_of_bits x.reduced (by rw [hbits]; decide)
  refine ⟨proof, st, hst, ⟨s, by rw [hdone, hselected]⟩, ?_⟩
  apply honest_run_accepted boundedEuclid honestConfig_orderThree (by rw [hbits]; norm_num)
    (by norm_num) (hasClass_form orderThree) htime hst (by norm_num) hiterations.ge (by norm_num)
  · rw [hdone, hselected]
    intro s' hs'
    obtain rfl := List.mem_singleton.mp hs'
    exact Option.some_ne_none _
  · exact hstored _
  · exact hstored _
  · intro _ _ _ _ _
    exact hstored _

end Runs

end Lootbox.Chiavdf

import Lootbox.Chiavdf.EventLoop

/-!
# Where the segments are

A segment is pending, then a prover has it, then it is done. Whatever the order of the steps is, the
event loop loses no segment and gives none to two provers.
-/

namespace Lootbox.Chiavdf

open Headstart BinaryQF ReducedForm StepSystem

/-! ### Places in `done_segments` -/

section Places

variable {done_segments : List (List (Option Segment))} {s s' : Segment} {i i' j j' : Nat}

def DoneAt (done_segments : List (List (Option Segment))) (i j : Nat) (s : Segment) : Prop :=
  (done_segments.getD i [])[j]? = some (some s)

theorem segmentSize_injective : Function.Injective segmentSize := by
  intro i j h
  have hpow : 16 + 2 * i = 16 + 2 * j := Nat.pow_right_injective le_rfl h
  omega

theorem InBucket.unique (h : InBucket s i j) (h' : InBucket s i' j') : i = i' ∧ j = j' := by
  obtain rfl : i = i' := segmentSize_injective (h.length.symm.trans h'.length)
  exact ⟨rfl, Nat.eq_of_mul_eq_mul_right (segmentSize_pos i) (h.start.symm.trans h'.start)⟩

theorem InBucket.same_key (h : InBucket s i j) (h' : InBucket s' i j) :
    s.start = s'.start ∧ s.length = s'.length :=
  ⟨h.start.trans h'.start.symm, h.length.trans h'.length.symm⟩

theorem getElem?_placeSegment (segments : List (Option Segment)) (position : Nat) (s : Segment) :
    (ProverManager.placeSegment segments position s)[position]? = some (some s) := by
  apply List.getElem?_set_self
  rw [List.length_append, List.length_replicate]
  omega

theorem getElem?_placeSegment_ne (segments : List (Option Segment)) (s s' : Segment) {position : Nat}
    (hj : position ≠ j) :
    (ProverManager.placeSegment segments position s)[j]? = some (some s') ↔
      segments[j]? = some (some s') := by
  rw [ProverManager.placeSegment, List.getElem?_set_ne hj]
  rcases Nat.lt_or_ge j segments.length with hlt | hge
  · rw [List.getElem?_append_left hlt]
  · rw [List.getElem?_append_right hge, List.getElem?_eq_none hge, List.getElem?_replicate]
    split_ifs <;> simp

theorem doneAt_placeDone (h : InBucket s i j) (hi : i < done_segments.length) :
    DoneAt (ProverManager.placeDone done_segments s) i' j' s' ↔
      (i' = i ∧ j' = j ∧ s' = s) ∨ (¬ (i' = i ∧ j' = j) ∧ DoneAt done_segments i' j' s') := by
  have hbucket : segmentBucket s.length = i := by rw [h.length, segmentBucket_size]
  have hposition : s.start / s.length = j := by
    rw [h.start, h.length, Nat.mul_div_cancel _ (segmentSize_pos i)]
  unfold DoneAt ProverManager.placeDone
  rw [hbucket, hposition, List.getD_eq_getElem?_getD, List.getD_eq_getElem?_getD, List.getElem?_modify]
  by_cases hii : i = i'
  · subst hii
    rw [List.getElem?_eq_getElem hi]
    by_cases hjj : j = j'
    · subst hjj
      have hplace := getElem?_placeSegment done_segments[i] j s
      simp [hplace, eq_comm]
    · have hplace := getElem?_placeSegment_ne done_segments[i] s s' hjj
      simp [hplace, Ne.symm hjj]
  · simp [hii, Ne.symm hii]

theorem length_placeDone (done_segments : List (List (Option Segment))) (s : Segment) :
    (ProverManager.placeDone done_segments s).length = done_segments.length := List.length_modify _ _ _

/-- A segment of one of the lengths that the buckets are for. -/
def Located (segment_count : Nat) (s : Segment) : Prop := ∃ i < segment_count, ∃ j, InBucket s i j

variable {ss : List Segment}

theorem length_placeAll (ss : List Segment) : ∀ done_segments : List (List (Option Segment)),
    (ss.foldl ProverManager.placeDone done_segments).length = done_segments.length := by
  induction ss with
  | nil =>
    intro done_segments
    rfl
  | cons s ss ih =>
    intro done_segments
    rw [List.foldl_cons, ih, length_placeDone]

theorem exists_doneAt_placeDone (hs : Located done_segments.length s)
    (h : (∃ s', DoneAt done_segments i j s') ∨ InBucket s i j) :
    ∃ s', DoneAt (ProverManager.placeDone done_segments s) i j s' := by
  obtain ⟨i', hi', j', hbucket⟩ := hs
  by_cases hij : i = i' ∧ j = j'
  · exact ⟨s, (doneAt_placeDone hbucket hi').mpr (Or.inl ⟨hij.1, hij.2, rfl⟩)⟩
  · rcases h with ⟨s', hs'⟩ | hs'
    · exact ⟨s', (doneAt_placeDone hbucket hi').mpr (Or.inr ⟨hij, hs'⟩)⟩
    · exact absurd (hs'.unique hbucket) hij

theorem exists_doneAt_placeAll (ss : List Segment) : ∀ {done_segments : List (List (Option Segment))},
    (∀ s ∈ ss, Located done_segments.length s) →
    ((∃ s', DoneAt done_segments i j s') ∨ ∃ s ∈ ss, InBucket s i j) →
      ∃ s', DoneAt (ss.foldl ProverManager.placeDone done_segments) i j s' := by
  induction ss with
  | nil =>
    intro done_segments _ h
    rcases h with h | ⟨s, hs, _⟩
    · exact h
    · cases hs
  | cons s ss ih =>
    intro done_segments hlocated h
    have hs := hlocated s List.mem_cons_self
    apply ih
    · intro s' hs'
      rw [length_placeDone]
      exact hlocated s' (List.mem_cons_of_mem s hs')
    · rcases h with h | ⟨s', hs', hbucket⟩
      · exact Or.inl (exists_doneAt_placeDone hs (Or.inl h))
      · rcases List.mem_cons.mp hs' with rfl | hs'
        · exact Or.inl (exists_doneAt_placeDone hs (Or.inr hbucket))
        · exact Or.inr ⟨s', hs', hbucket⟩

theorem of_doneAt_placeAll (ss : List Segment) : ∀ {done_segments : List (List (Option Segment))},
    (∀ s ∈ ss, Located done_segments.length s) →
    DoneAt (ss.foldl ProverManager.placeDone done_segments) i j s' →
      DoneAt done_segments i j s' ∨ s' ∈ ss ∧ InBucket s' i j := by
  induction ss with
  | nil =>
    intro done_segments _ h
    exact Or.inl h
  | cons s ss ih =>
    intro done_segments hlocated h
    obtain ⟨i', hi', j', hbucket⟩ := hlocated s List.mem_cons_self
    have hrest : ∀ s' ∈ ss, Located (ProverManager.placeDone done_segments s).length s' := by
      intro s' hs'
      rw [length_placeDone]
      exact hlocated s' (List.mem_cons_of_mem s hs')
    rcases ih hrest h with h | ⟨hmem, hplace⟩
    · rcases (doneAt_placeDone hbucket hi').mp h with ⟨rfl, rfl, rfl⟩ | ⟨_, h⟩
      · exact Or.inr ⟨List.mem_cons_self, hbucket⟩
      · exact Or.inl h
    · exact Or.inr ⟨List.mem_cons_of_mem s hmem, hplace⟩

end Places

/-! ### What is collected -/

section Collect

def Prover.result (q : Prover) : Option Segment := q.proof.map fun proof => { q.segment with proof := proof }

def Prover.collected (q : Prover) : Prover := { q with segment := q.result.getD q.segment }

def Prover.stays (q : Prover) : Bool := !(q.proof.isSome && q.is_fully_finished)

theorem collect_eq (qs : List Prover) : ∀ done_segments : List (List (Option Segment)),
    (ProverManager.collect qs done_segments).1 = (qs.filter Prover.stays).map Prover.collected ∧
    (ProverManager.collect qs done_segments).2.1 =
      (qs.filterMap Prover.result).foldl ProverManager.placeDone done_segments := by
  induction qs with
  | nil =>
    intro done_segments
    exact ⟨rfl, rfl⟩
  | cons q qs ih =>
    intro done_segments
    obtain ⟨segment, is_paused, proof, is_fully_finished⟩ := q
    cases proof with
    | none =>
      simp [ProverManager.collect, Prover.stays, Prover.collected, Prover.result, ih,
        List.filterMap_cons]
    | some proof =>
      cases is_fully_finished with
      | false => simp [ProverManager.collect, Prover.stays, Prover.collected, Prover.result, ih]
      | true => simp [ProverManager.collect, Prover.stays, Prover.result, ih]

end Collect

/-! ### What is appended -/

section Append

variable {checkpoints : List Form} {i a n : Nat} {pending : List Segment}

def FromCheckpoints (checkpoints : List Form) (s : Segment) : Prop :=
  checkpoints[s.start / 2 ^ 16]? = some s.x ∧ checkpoints[(s.start + s.length) / 2 ^ 16]? = some s.y

def NewFrom (checkpoints : List Form) (i a : Nat) (new : List Segment) : Prop :=
  ∀ k s, new[k]? = some s → InBucket s i (a + k) ∧ FromCheckpoints checkpoints s

theorem appendSegment_eq_ok {st : List Segment × Nat} (h : ProverManager.appendSegment checkpoints
    (segmentSize i) (pending, a * segmentSize i) = .ok st) :
    ∃ s, st = (pending ++ [s], (a + 1) * segmentSize i) ∧ InBucket s i a ∧
      FromCheckpoints checkpoints s := by
  unfold ProverManager.appendSegment at h
  dsimp only at h
  obtain ⟨x, hx, h⟩ := bind_eq_ok_iff.mp h
  obtain ⟨y, hy, h⟩ := bind_eq_ok_iff.mp h
  cases h
  rw [need_eq_ok_iff] at hx hy
  exact ⟨_, by rw [← Nat.succ_mul], ⟨rfl, rfl⟩, hx, hy⟩

theorem repeatM_appendSegment {st : List Segment × Nat} (n : Nat) : ∀ {pending : List Segment} {a : Nat},
    repeatM (ProverManager.appendSegment checkpoints (segmentSize i)) n
      (pending, a * segmentSize i) = .ok st →
    ∃ new, st = (pending ++ new, (a + n) * segmentSize i) ∧ new.length = n ∧
      NewFrom checkpoints i a new := by
  induction n with
  | zero =>
    intro pending a h
    cases h
    refine ⟨[], by rw [List.append_nil, Nat.add_zero], rfl, ?_⟩
    intro k s hk
    cases hk
  | succ n ih =>
    intro pending a h
    obtain ⟨st', hst', h⟩ := bind_eq_ok_iff.mp h
    obtain ⟨s, rfl, hbucket, hcheckpoints⟩ := appendSegment_eq_ok hst'
    obtain ⟨new, rfl, hlength, hnew⟩ := ih h
    refine ⟨s :: new, ?_, by rw [List.length_cons, hlength], ?_⟩
    · rw [List.append_assoc, List.singleton_append, Nat.add_right_comm, Nat.add_assoc]
    · intro k s' hk
      cases k with
      | zero =>
        cases hk
        exact ⟨hbucket, hcheckpoints⟩
      | succ k =>
        rw [Nat.add_comm k, ← Nat.add_assoc]
        exact hnew k s' hk

theorem appendSegments_eq_ok {intermediates_iter : Nat} {st : List Segment × Nat}
    (ha : a * segmentSize i ≤ intermediates_iter)
    (h : ProverManager.appendSegments checkpoints intermediates_iter (segmentSize i)
      (pending, a * segmentSize i) = .ok st) :
    ∃ new, st = (pending ++ new, (a + new.length) * segmentSize i) ∧
      (a + new.length) * segmentSize i ≤ intermediates_iter ∧ NewFrom checkpoints i a new := by
  obtain ⟨new, hst, hlength, hnew⟩ := repeatM_appendSegment _ h
  rw [← hlength] at hst
  refine ⟨new, hst, ?_, hnew⟩
  have hle := Nat.div_mul_le_self (intermediates_iter - a * segmentSize i) (segmentSize i)
  rw [hlength, Nat.add_mul]
  dsimp only at hle ⊢
  omega

theorem appendAll_eq_ok {intermediates_iter : Nat} (pendings : List (List Segment)) :
    ∀ (i : Nat) (lasts : List Nat) {r : List (List Segment) × List Nat},
      ProverManager.appendAll checkpoints intermediates_iter i pendings lasts = .ok r →
      pendings.length = lasts.length → r.1.length = pendings.length ∧ r.2.length = lasts.length ∧
      ∀ k pending last, pendings[k]? = some pending → lasts[k]? = some last →
        ∃ st, ProverManager.appendSegments checkpoints intermediates_iter (segmentSize (i + k))
          (pending, last) = .ok st ∧ r.1[k]? = some st.1 ∧ r.2[k]? = some st.2 := by
  induction pendings with
  | nil =>
    intro i lasts r h hlength
    obtain rfl := List.length_eq_zero_iff.mp hlength.symm
    cases h
    refine ⟨rfl, rfl, ?_⟩
    intro k pending last hk
    cases hk
  | cons pending pendings ih =>
    intro i lasts r h hlength
    cases lasts with
    | nil => cases hlength
    | cons last lasts =>
      unfold ProverManager.appendAll at h
      split_ifs at h
      obtain ⟨st, hst, h⟩ := bind_eq_ok_iff.mp h
      obtain ⟨r', hr', h⟩ := bind_eq_ok_iff.mp h
      cases h
      obtain ⟨hfirst, hsecond, hrest⟩ := ih (i + 1) lasts hr' (Nat.succ.inj hlength)
      refine ⟨by rw [List.length_cons, List.length_cons, hfirst],
        by rw [List.length_cons, List.length_cons, hsecond], ?_⟩
      intro k pending' last' hk hk'
      cases k with
      | zero =>
        cases hk
        cases hk'
        exact ⟨st, hst, rfl, rfl⟩
      | succ k =>
        rw [show i + (k + 1) = i + 1 + k by omega]
        exact hrest k pending' last' hk hk'

end Append

/-! ### What is chosen -/

section Choice

open ProverManager

variable {best : Option (Segment × Candidate)} {s : Segment} {c : Candidate} {i n : Nat}

/-- The candidate is where it says, and waits. -/
def Waits (provers : List Prover) (pending_segments : List (List Segment)) (s : Segment) :
    Candidate → Prop
  | .paused i => ∃ r, provers[i]? = some r ∧ r.isRunning = false ∧ r.segment = s
  | .pending i => ∃ rest, pending_segments[i]? = some (s :: rest)

theorem better_eq_some {s' : Segment} {c' : Candidate} (h : better best s' c' = some (s, c)) :
    best = some (s, c) ∨ s = s' ∧ c = c' := by
  unfold better at h
  split_ifs at h with hworse
  · cases h
    exact Or.inr ⟨rfl, rfl⟩
  · exact Or.inl h

theorem bestPaused_eq_some (qs : List Prover) : ∀ (i : Nat) {best : Option (Segment × Candidate)},
    bestPaused qs i best = some (s, c) → best = some (s, c) ∨
      ∃ k r, qs[k]? = some r ∧ r.isRunning = false ∧ r.segment = s ∧ c = .paused (i + k) := by
  induction qs with
  | nil =>
    intro i best h
    exact Or.inl h
  | cons q qs ih =>
    intro i best h
    rcases ih (i + 1) h with hbest | ⟨k, r, hr, hpaused, hs, hc⟩
    · split_ifs at hbest with hrunning
      · exact Or.inl hbest
      · rcases better_eq_some hbest with hbest | ⟨rfl, rfl⟩
        · exact Or.inl hbest
        · exact Or.inr ⟨0, q, rfl, by simpa using hrunning, rfl, rfl⟩
    · exact Or.inr ⟨k + 1, r, hr, hpaused, hs, by rw [hc, Nat.add_right_comm, Nat.add_assoc]⟩

theorem bestPending_eq_some (pendings : List (List Segment)) :
    ∀ (i : Nat) {best : Option (Segment × Candidate)}, bestPending pendings i best = some (s, c) →
      best = some (s, c) ∨ ∃ k rest, pendings[k]? = some (s :: rest) ∧ c = .pending (i + k) := by
  induction pendings with
  | nil =>
    intro i best h
    exact Or.inl h
  | cons pending pendings ih =>
    intro i best h
    cases pending with
    | nil =>
      rcases ih (i + 1) h with hbest | ⟨k, rest, hk, hc⟩
      · exact Or.inl hbest
      · exact Or.inr ⟨k + 1, rest, hk, by rw [hc, Nat.add_right_comm, Nat.add_assoc]⟩
    | cons s' rest' =>
      rcases ih (i + 1) h with hbest | ⟨k, rest, hk, hc⟩
      · rcases better_eq_some hbest with hbest | ⟨rfl, rfl⟩
        · exact Or.inl hbest
        · exact Or.inr ⟨0, rest', rfl, rfl⟩
      · exact Or.inr ⟨k + 1, rest, hk, by rw [hc, Nat.add_right_comm, Nat.add_assoc]⟩

theorem waits_of_best {m : ProverManager}
    (h : bestPending m.pending_segments 0 (bestPaused m.provers 0 none) = some (s, c)) :
    Waits m.provers m.pending_segments s c := by
  rcases bestPending_eq_some _ _ h with h | ⟨k, rest, hk, rfl⟩
  · rcases bestPaused_eq_some _ _ h with h | ⟨k, r, hr, hpaused, hs, rfl⟩
    · cases h
    · exact ⟨r, (Nat.zero_add k).symm ▸ hr, hpaused, hs⟩
  · exact ⟨rest, (Nat.zero_add k).symm ▸ hk⟩

theorem worstRunning_eq_some (qs : List Prover) : ∀ (i : Nat) {worst : Option (Segment × Nat)},
    worstRunning qs i worst = some (s, n) → worst = some (s, n) ∨
      ∃ k r, qs[k]? = some r ∧ r.isRunning = true ∧ r.segment = s ∧ n = i + k := by
  induction qs with
  | nil =>
    intro i worst h
    exact Or.inl h
  | cons q qs ih =>
    intro i worst h
    rcases ih (i + 1) h with hworst | ⟨k, r, hr, hrunning, hs, hn⟩
    · split_ifs at hworst with hreplace
      · cases hworst
        exact Or.inr ⟨0, q, rfl, (Bool.and_eq_true_iff.mp hreplace).1, rfl, rfl⟩
      · exact Or.inl hworst
    · exact Or.inr ⟨k + 1, r, hr, hrunning, hs, by omega⟩

end Choice

/-! ### The invariant -/

section Accounting

def Segment.key (s : Segment) : Nat × Nat := (s.start, s.length)

def Prover.key (q : Prover) : Nat × Nat := q.segment.key

/-- The pending segments of a bucket follow the first `q` ones. -/
def PendingFrom (i q : Nat) (pending : List Segment) : Prop :=
  ∀ k s, pending[k]? = some s → InBucket s i (q + k)

/-- In the bucket `i` the first `q i` segments have been given to provers, and the others up to the
last appended one are pending. -/
structure Accounted (q : Nat → Nat) (m : ProverManager) : Prop where
  length_pending : m.pending_segments.length = m.segment_count
  length_last : m.last_appended.length = m.segment_count
  length_done : m.done_segments.length = m.segment_count
  pending : ∀ i < m.segment_count, ∃ pending, m.pending_segments[i]? = some pending ∧
    m.last_appended[i]? = some ((q i + pending.length) * segmentSize i) ∧
    (q i + pending.length) * segmentSize i ≤ m.intermediates_iter ∧ PendingFrom i (q i) pending
  provers : ∀ r ∈ m.provers, ∃ i < m.segment_count, ∃ j < q i, InBucket r.segment i j
  distinct : (m.provers.map Prover.key).Nodup
  done_given : ∀ i j s, DoneAt m.done_segments i j s → i < m.segment_count ∧ j < q i ∧ InBucket s i j
  found : ∀ i < m.segment_count, ∀ j < q i, (∃ r ∈ m.provers, InBucket r.segment i j) ∨
    ∃ s, DoneAt m.done_segments i j s
  exclusive : ∀ r ∈ m.provers, r.proof = none → ∀ i j s, InBucket r.segment i j →
    ¬ DoneAt m.done_segments i j s

variable {q : Nat → Nat} {m : ProverManager}

theorem accounted_init (segment_count max_proving_threads : Nat) :
    Accounted (fun _ => 0) (ProverManager.init segment_count max_proving_threads) := by
  have hempty : ∀ i j s, ¬ DoneAt (List.replicate segment_count []) i j s := by
    intro i j s h
    unfold DoneAt at h
    rw [List.getD_eq_getElem?_getD, List.getElem?_replicate] at h
    split_ifs at h <;> cases h
  constructor
  · exact List.length_replicate
  · exact List.length_replicate
  · exact List.length_replicate
  · intro i hi
    have hzero : (0 + ([] : List Segment).length) * segmentSize i = 0 := Nat.zero_mul _
    refine ⟨[], List.getElem?_replicate_of_lt hi, ?_, hzero.le, ?_⟩
    · rw [hzero]
      exact List.getElem?_replicate_of_lt hi
    · intro k s hk
      cases hk
  · intro r hr
    cases hr
  · exact List.nodup_nil
  · intro i j s h
    exact absurd h (hempty i j s)
  · intro i _ j hj
    exact absurd hj (Nat.not_lt_zero j)
  · intro r hr
    cases hr

theorem InBucket.of_key {s s' : Segment} {i j : Nat} (hkey : s'.key = s.key) (h : InBucket s i j) :
    InBucket s' i j :=
  ⟨(congrArg Prod.fst hkey).trans h.start, (congrArg Prod.snd hkey).trans h.length⟩

/-- A prover that has changed, but still has its segment. -/
def Relabelled (r r' : Prover) : Prop := r'.key = r.key ∧ (r'.proof = none → r.proof = none)

theorem forall₂_modify {α : Type} {R : α → α → Prop} (hrefl : ∀ a, R a a) {f : α → α}
    (hf : ∀ a, R a (f a)) (i : Nat) (xs : List α) : List.Forall₂ R xs (xs.modify i f) := by
  induction xs generalizing i with
  | nil =>
    rw [List.modify_nil]
    exact .nil
  | cons x xs ih =>
    cases i with
    | zero => exact .cons (hf x) (List.forall₂_same.mpr fun a _ => hrefl a)
    | succ i => exact .cons (hrefl x) (ih i)

theorem exists_of_forall₂ {α β : Type} {R : α → β → Prop} {xs : List α} {ys : List β}
    (h : List.Forall₂ R xs ys) {x : α} (hx : x ∈ xs) : ∃ y ∈ ys, R x y := by
  induction h with
  | nil => cases hx
  | cons hxy _ ih =>
    rcases List.mem_cons.mp hx with rfl | hx
    · exact ⟨_, List.mem_cons_self, hxy⟩
    · obtain ⟨y, hy, hR⟩ := ih hx
      exact ⟨y, List.mem_cons_of_mem _ hy, hR⟩

theorem map_eq_of_forall₂ {α β : Type} {R : α → α → Prop} {f : α → β} (hf : ∀ x y, R x y → f y = f x)
    {xs ys : List α} (h : List.Forall₂ R xs ys) : ys.map f = xs.map f := by
  induction h with
  | nil => rfl
  | cons hxy _ ih => rw [List.map_cons, List.map_cons, ih, hf _ _ hxy]

theorem Accounted.relabel (h : Accounted q m) {provers : List Prover}
    (hprovers : List.Forall₂ Relabelled m.provers provers) :
    Accounted q { m with provers := provers } := by
  have hback := hprovers.flip
  constructor
  · exact h.length_pending
  · exact h.length_last
  · exact h.length_done
  · exact h.pending
  · intro r' hr'
    obtain ⟨r, hr, hkey, _⟩ := exists_of_forall₂ hback hr'
    obtain ⟨i, hi, j, hj, hbucket⟩ := h.provers r hr
    exact ⟨i, hi, j, hj, hbucket.of_key hkey⟩
  · have hkeys := map_eq_of_forall₂ (f := Prover.key) (fun r r' hr => hr.1) hprovers
    exact hkeys ▸ h.distinct
  · exact h.done_given
  · intro i hi j hj
    rcases h.found i hi j hj with ⟨r, hr, hbucket⟩ | hdone
    · obtain ⟨r', hr', hkey, _⟩ := exists_of_forall₂ hprovers hr
      exact Or.inl ⟨r', hr', hbucket.of_key hkey⟩
    · exact Or.inr hdone
  · intro r' hr' hnone i j s hbucket
    obtain ⟨r, hr, hkey, hproof⟩ := exists_of_forall₂ hback hr'
    exact h.exclusive r hr (hproof hnone) i j s (hbucket.of_key hkey.symm)

theorem eq_of_key (h : Accounted q m) {r r' : Prover} (hr : r ∈ m.provers) (hr' : r' ∈ m.provers)
    (hkey : r.key = r'.key) : r = r' := List.inj_on_of_nodup_map h.distinct hr hr' hkey

theorem Prover.result_key {r : Prover} {s : Segment} (h : r.result = some s) : s.key = r.key := by
  obtain ⟨proof, _, rfl⟩ := Option.map_eq_some_iff.mp h
  rfl

theorem Prover.collected_key (r : Prover) : r.collected.key = r.key := by
  cases h : r.result with
  | none =>
    unfold Prover.collected Prover.key
    rw [h]
    rfl
  | some s =>
    have hkey := Prover.result_key h
    unfold Prover.collected Prover.key at *
    rw [h]
    exact hkey

theorem Accounted.located (h : Accounted q m) :
    ∀ s ∈ m.provers.filterMap Prover.result, Located m.done_segments.length s := by
  intro s hs
  obtain ⟨r, hr, hrs⟩ := List.mem_filterMap.mp hs
  obtain ⟨i, hi, j, _, hbucket⟩ := h.provers r hr
  exact ⟨i, h.length_done.symm ▸ hi, j, hbucket.of_key (Prover.result_key hrs)⟩

theorem exists_of_mem_result {provers : List Prover} {s : Segment}
    (hs : s ∈ provers.filterMap Prover.result) : ∃ r ∈ provers, r.proof ≠ none ∧ s.key = r.key := by
  obtain ⟨r, hr, hrs⟩ := List.mem_filterMap.mp hs
  refine ⟨r, hr, ?_, Prover.result_key hrs⟩
  intro hnone
  rw [Prover.result, hnone] at hrs
  cases hrs

theorem exists_of_mem_collected {provers : List Prover} {r' : Prover}
    (hr' : r' ∈ (provers.filter Prover.stays).map Prover.collected) :
    ∃ r ∈ provers, r'.key = r.key ∧ r'.proof = r.proof := by
  obtain ⟨r, hr, rfl⟩ := List.mem_map.mp hr'
  exact ⟨r, List.mem_of_mem_filter hr, r.collected_key, rfl⟩

theorem Prover.stays_of_result {r : Prover} (h : r.result = none) : r.stays = true := by
  rw [Prover.result, Option.map_eq_none_iff] at h
  rw [Prover.stays, h]
  rfl

theorem Accounted.found_collect (h : Accounted q m) {i j : Nat} (hi : i < m.segment_count)
    (hj : j < q i) :
    (∃ r ∈ (m.provers.filter Prover.stays).map Prover.collected, InBucket r.segment i j) ∨
      ∃ s, DoneAt ((m.provers.filterMap Prover.result).foldl ProverManager.placeDone m.done_segments)
        i j s := by
  rcases h.found i hi j hj with ⟨r, hr, hbucket⟩ | hs
  · cases hproof : r.result with
    | none =>
      have hstays := List.mem_filter.mpr ⟨hr, Prover.stays_of_result hproof⟩
      exact Or.inl ⟨r.collected, List.mem_map_of_mem hstays, hbucket.of_key r.collected_key⟩
    | some s =>
      right
      apply exists_doneAt_placeAll _ h.located
      exact Or.inr ⟨s, List.mem_filterMap.mpr ⟨r, hr, hproof⟩,
        hbucket.of_key (Prover.result_key hproof)⟩
  · right
    exact exists_doneAt_placeAll _ h.located (Or.inl hs)

/-- What the event loop has collected is done, and the other segments are where they were. -/
theorem Accounted.collect (h : Accounted q m) :
    Accounted q { m with
      provers := (ProverManager.collect m.provers m.done_segments).1
      done_segments := (ProverManager.collect m.provers m.done_segments).2.1 } := by
  obtain ⟨hprovers, hdone⟩ := collect_eq m.provers m.done_segments
  rw [hprovers, hdone]
  constructor
  · exact h.length_pending
  · exact h.length_last
  · exact (length_placeAll _ _).trans h.length_done
  · exact h.pending
  · intro r' hr'
    obtain ⟨r, hr, hkey, _⟩ := exists_of_mem_collected hr'
    obtain ⟨i, hi, j, hj, hbucket⟩ := h.provers r hr
    exact ⟨i, hi, j, hj, hbucket.of_key hkey⟩
  · have hkeys : ((m.provers.filter Prover.stays).map Prover.collected).map Prover.key =
        (m.provers.filter Prover.stays).map Prover.key := by
      rw [List.map_map]
      exact List.map_congr_left fun r _ => r.collected_key
    rw [hkeys]
    exact h.distinct.sublist (List.filter_sublist.map Prover.key)
  · intro i j s hs
    rcases of_doneAt_placeAll _ h.located hs with hs | ⟨hs, hbucket⟩
    · exact h.done_given i j s hs
    · obtain ⟨r, hr, _, hkey⟩ := exists_of_mem_result hs
      obtain ⟨i', hi', j', hj', hbucket'⟩ := h.provers r hr
      obtain ⟨rfl, rfl⟩ := hbucket.unique (hbucket'.of_key hkey)
      exact ⟨hi', hj', hbucket⟩
  · intro i hi j hj
    exact h.found_collect hi hj
  · intro r' hr' hnone i j s hbucket hs
    obtain ⟨r, hr, hkey, hproof⟩ := exists_of_mem_collected hr'
    rw [hproof] at hnone
    have hbucket_r := hbucket.of_key hkey.symm
    rcases of_doneAt_placeAll _ h.located hs with hs | ⟨hs, hbucket'⟩
    · exact h.exclusive r hr hnone i j s hbucket_r hs
    · obtain ⟨r'', hr'', hfinished, hkey''⟩ := exists_of_mem_result hs
      have hsame := hbucket_r.same_key (hbucket'.of_key hkey''.symm)
      rw [← eq_of_key h hr hr'' (Prod.ext hsame.1 hsame.2)] at hfinished
      exact hfinished hnone

theorem Accounted.reframe (h : Accounted q m) (max_proving_threads : Nat) (increased_proving : Bool)
    (pending_iters : List Nat) (max_proving_iteration vdf_iteration : Nat)
    (active_provers : Option Nat) : Accounted q { m with
      max_proving_threads := max_proving_threads
      increased_proving := increased_proving
      pending_iters := pending_iters
      max_proving_iteration := max_proving_iteration
      vdf_iteration := vdf_iteration
      active_provers := active_provers } :=
  ⟨h.length_pending, h.length_last, h.length_done, h.pending, h.provers, h.distinct, h.done_given,
    h.found, h.exclusive⟩

theorem PendingFrom.append {checkpoints : List Form} {i q : Nat} {pending new : List Segment}
    (h : PendingFrom i q pending) (hnew : NewFrom checkpoints i (q + pending.length) new) :
    PendingFrom i q (pending ++ new) := by
  intro k s hk
  rcases Nat.lt_or_ge k pending.length with hlt | hge
  · rw [List.getElem?_append_left hlt] at hk
    exact h k s hk
  · rw [List.getElem?_append_right hge] at hk
    obtain ⟨hbucket, _⟩ := hnew _ s hk
    rwa [Nat.add_assoc, Nat.add_sub_cancel' hge] at hbucket

theorem Accounted.append (h : Accounted q m) {checkpoints : List Form} {intermediates_iter : Nat}
    (hle : m.intermediates_iter ≤ intermediates_iter) {r : List (List Segment) × List Nat}
    (happend : ProverManager.appendAll checkpoints intermediates_iter 0 m.pending_segments
      m.last_appended = .ok r) : Accounted q { m with
        intermediates_iter := intermediates_iter, pending_segments := r.1, last_appended := r.2 } := by
  obtain ⟨hfirst, hsecond, hbuckets⟩ := appendAll_eq_ok _ 0 _ happend
    (h.length_pending.trans h.length_last.symm)
  refine ⟨hfirst.trans h.length_pending, hsecond.trans h.length_last, h.length_done, ?_, h.provers,
    h.distinct, h.done_given, h.found, h.exclusive⟩
  intro i hi
  obtain ⟨pending, hpending, hlast, hlast_le, hfrom⟩ := h.pending i hi
  obtain ⟨st, hst, hst_pending, hst_last⟩ := hbuckets i pending _ hpending hlast
  rw [Nat.zero_add] at hst
  obtain ⟨new, rfl, hnew_le, hnew⟩ := appendSegments_eq_ok (hlast_le.trans hle) hst
  rw [Nat.add_assoc, ← List.length_append] at hst_last hnew_le
  exact ⟨pending ++ new, hst_pending, hst_last, hnew_le, hfrom.append hnew⟩

theorem lt_update_succ_iff {i i' j : Nat} :
    j < Function.update q i (q i + 1) i' ↔ j < q i' ∨ i' = i ∧ j = q i := by
  by_cases heq : i' = i
  · rw [heq, Function.update_self]
    omega
  · rw [Function.update_of_ne heq]
    exact ⟨Or.inl, fun h => h.resolve_right fun hnew => heq hnew.1⟩

section SpawnPending

variable {i : Nat} {best : Segment} {rest : List Segment} (h : Accounted q m)
  (hi : m.pending_segments[i]? = some (best :: rest))

include h hi

theorem Accounted.lt_of_pending : i < m.segment_count := by
  rw [← h.length_pending]
  exact (List.getElem?_eq_some_iff.mp hi).1

theorem Accounted.pending_cons :
    m.last_appended[i]? = some ((q i + (best :: rest).length) * segmentSize i) ∧
    (q i + (best :: rest).length) * segmentSize i ≤ m.intermediates_iter ∧
    PendingFrom i (q i) (best :: rest) := by
  obtain ⟨pending, hpending, hrest⟩ := h.pending i (h.lt_of_pending hi)
  obtain rfl : pending = best :: rest := Option.some.inj (hpending.symm.trans hi)
  exact hrest

theorem Accounted.best_inBucket : InBucket best i (q i) := (h.pending_cons hi).2.2 0 best rfl

theorem Accounted.pending_tail {i' : Nat} (hi' : i' < m.segment_count) :
    ∃ pending, (m.pending_segments.modify i List.tail)[i']? = some pending ∧
      m.last_appended[i']? =
        some ((Function.update q i (q i + 1) i' + pending.length) * segmentSize i') ∧
      (Function.update q i (q i + 1) i' + pending.length) * segmentSize i' ≤ m.intermediates_iter ∧
      PendingFrom i' (Function.update q i (q i + 1) i') pending := by
  by_cases heq : i' = i
  · subst heq
    obtain ⟨hlast, hle, hfrom⟩ := h.pending_cons hi
    have hlength : q i' + 1 + rest.length = q i' + (best :: rest).length := by
      rw [List.length_cons]
      omega
    rw [Function.update_self]
    refine ⟨rest, ?_, by rw [hlength]; exact hlast, by rw [hlength]; exact hle, ?_⟩
    · rw [List.getElem?_modify_eq, hi]
      rfl
    · intro k s hk
      rw [Nat.add_assoc, Nat.add_comm 1]
      exact hfrom (k + 1) s hk
  · rw [Function.update_of_ne heq]
    obtain ⟨pending, hpending, hrest⟩ := h.pending i' hi'
    exact ⟨pending, (List.getElem?_modify_ne _ _ (Ne.symm heq)).trans hpending, hrest⟩

theorem Accounted.distinct_concat :
    ((m.provers ++ [(⟨best, false, none, false⟩ : Prover)]).map Prover.key).Nodup := by
  rw [List.map_append, List.map_singleton]
  apply h.distinct.append (List.nodup_singleton _)
  intro key hkey hkey'
  obtain ⟨r, hr, rfl⟩ := List.mem_map.mp hkey
  have hsame := List.mem_singleton.mp hkey'
  obtain ⟨i', _, j, hj, hbucket⟩ := h.provers r hr
  obtain ⟨rfl, rfl⟩ := (h.best_inBucket hi).unique (hbucket.of_key hsame.symm)
  exact lt_irrefl _ hj

/-- The first pending segment of a bucket gets a prover. -/
theorem Accounted.spawnPending : Accounted (Function.update q i (q i + 1)) { m with
      provers := m.provers ++ [⟨best, false, none, false⟩]
      pending_segments := m.pending_segments.modify i List.tail } := by
  have hbest := h.best_inBucket hi
  constructor
  · exact (List.length_modify _ _ _).trans h.length_pending
  · exact h.length_last
  · exact h.length_done
  · intro i' hi'
    exact h.pending_tail hi hi'
  · intro r hr
    rcases List.mem_append.mp hr with hr | hr
    · obtain ⟨i', hi', j, hj, hbucket⟩ := h.provers r hr
      exact ⟨i', hi', j, lt_update_succ_iff.mpr (Or.inl hj), hbucket⟩
    · obtain rfl := List.mem_singleton.mp hr
      exact ⟨i, h.lt_of_pending hi, q i, lt_update_succ_iff.mpr (Or.inr ⟨rfl, rfl⟩), hbest⟩
  · exact h.distinct_concat hi
  · intro i' j s hs
    obtain ⟨hi', hj, hbucket⟩ := h.done_given i' j s hs
    exact ⟨hi', lt_update_succ_iff.mpr (Or.inl hj), hbucket⟩
  · intro i' hi' j hj
    rcases lt_update_succ_iff.mp hj with hold | ⟨rfl, rfl⟩
    · rcases h.found i' hi' j hold with ⟨r, hr, hbucket⟩ | hdone
      · exact Or.inl ⟨r, List.mem_append_left _ hr, hbucket⟩
      · exact Or.inr hdone
    · exact Or.inl ⟨_, List.mem_append_right _ List.mem_cons_self, hbest⟩
  · intro r hr hnone i' j s hbucket hs
    rcases List.mem_append.mp hr with hr | hr
    · exact h.exclusive r hr hnone i' j s hbucket hs
    · obtain rfl := List.mem_singleton.mp hr
      obtain ⟨rfl, rfl⟩ := hbest.unique hbucket
      exact lt_irrefl _ (h.done_given _ _ s hs).2.1

end SpawnPending

theorem forall₂_setPaused (provers : List Prover) (i : Nat) (is_paused : Bool) :
    List.Forall₂ Relabelled provers (ProverManager.setPaused provers i is_paused) :=
  forall₂_modify (fun _ => ⟨rfl, id⟩) (fun _ => ⟨rfl, id⟩) i provers

theorem Accounted.setPaused (h : Accounted q m) (i : Nat) (is_paused : Bool) :
    Accounted q { m with provers := ProverManager.setPaused m.provers i is_paused } :=
  h.relabel (forall₂_setPaused m.provers i is_paused)

theorem Accounted.spawn (h : Accounted q m) {s : Segment} {c : ProverManager.Candidate}
    (hwaits : Waits m.provers m.pending_segments s c) : ∃ q', Accounted q' (m.spawn s c) := by
  cases c with
  | paused i => exact ⟨q, h.setPaused i false⟩
  | pending i =>
    obtain ⟨rest, hrest⟩ := hwaits
    exact ⟨_, h.spawnPending hrest⟩

theorem Accounted.onEvent (h : Accounted q m) {multi_proc_machine : Bool} {checkpoints : List Form}
    {vdf_iteration intermediates_iter : Nat} (hle : m.intermediates_iter ≤ intermediates_iter)
    {m' : ProverManager} (hm : m.onEvent multi_proc_machine checkpoints vdf_iteration
      intermediates_iter = .ok m') : Accounted q m' := by
  unfold ProverManager.onEvent at hm
  dsimp only at hm
  obtain ⟨r, hr, hm⟩ := bind_eq_ok_iff.mp hm
  cases hm
  exact (h.collect.append hle hr).reframe _ _ _ _ _ _

theorem waits_setPaused {provers : List Prover} {pending_segments : List (List Segment)} {s : Segment}
    {c : ProverManager.Candidate} (h : Waits provers pending_segments s c) {i : Nat} {r : Prover}
    (hi : provers[i]? = some r) (hr : r.isRunning = true) :
    Waits (ProverManager.setPaused provers i true) pending_segments s c := by
  cases c with
  | paused j =>
    obtain ⟨r', hr', hpaused, hs⟩ := h
    have hne : i ≠ j := by
      rintro rfl
      obtain rfl := Option.some.inj (hi.symm.trans hr')
      rw [hr] at hpaused
      cases hpaused
    exact ⟨r', (List.getElem?_modify_ne _ _ hne).trans hr', hpaused, hs⟩
  | pending j => exact h

/-- A round of the inner loop ends it, or a candidate that waits gets going, with or without a
running prover that is paused for it. -/
theorem spawnRound_cases {active_provers : Nat} {m' : ProverManager}
    (hm : m.spawnRound active_provers = .ok m') :
    m' = { m with active_provers := none } ∨
      ∃ s c, Waits m.provers m.pending_segments s c ∧
        (m' = { m.spawn s c with active_provers := some (active_provers + 1) } ∨
          ∃ k r, m.provers[k]? = some r ∧ r.isRunning = true ∧
            m' = { m with provers := ProverManager.setPaused m.provers k true }.spawn s c) := by
  unfold ProverManager.spawnRound at hm
  cases hbest : ProverManager.bestPending m.pending_segments 0
      (ProverManager.bestPaused m.provers 0 none) with
  | none =>
    rw [hbest] at hm
    cases hm
    exact Or.inl rfl
  | some best =>
    obtain ⟨s, c⟩ := best
    have hwaits := waits_of_best hbest
    rw [hbest] at hm
    dsimp only at hm
    split_ifs at hm with hfree
    · cases hm
      exact Or.inr ⟨s, c, hwaits, Or.inl rfl⟩
    · cases hworst : ProverManager.worstRunning m.provers 0 none with
      | none =>
        rw [hworst] at hm
        cases hm
      | some worst =>
        obtain ⟨w, i⟩ := worst
        rw [hworst] at hm
        dsimp only at hm
        split_ifs at hm with hworse
        · cases hm
          rcases worstRunning_eq_some _ _ hworst with hnone | ⟨k, r, hr, hrunning, _, rfl⟩
          · cases hnone
          · rw [Nat.zero_add]
            exact Or.inr ⟨s, c, hwaits, Or.inr ⟨k, r, hr, hrunning, rfl⟩⟩
        · cases hm
          exact Or.inl rfl

theorem Accounted.spawnRound (h : Accounted q m) {active_provers : Nat} {m' : ProverManager}
    (hm : m.spawnRound active_provers = .ok m') : ∃ q', Accounted q' m' := by
  rcases spawnRound_cases hm with rfl | ⟨s, c, hwaits, hspawn⟩
  · exact ⟨q, h.reframe _ _ _ _ _ _⟩
  · rcases hspawn with rfl | ⟨k, r, hr, hrunning, rfl⟩
    · obtain ⟨q', hq'⟩ := h.spawn hwaits
      exact ⟨q', hq'.reframe _ _ _ _ _ _⟩
    · exact (h.setPaused k true).spawn (waits_setPaused hwaits hr hrunning)

end Accounting

/-! ### Runs -/

section Runs

variable {cfg : ClientConfig} {st st' : Client} {a : ClientAction}

theorem toOption_eq_some {α : Type} {c : Except PyError α} {x : α} (h : c.toOption = some x) :
    c = .ok x := by
  cases c with
  | error e => cases h
  | ok y =>
    cases h
    rfl

inductive Moved (cfg : ClientConfig) (st : Client) : Client → Prop
  | iteration (callback : FastAlgorithmCallback)
      (h : st.callback.onIteration cfg.shrink (cfg.vdf (st.iterations + 1)) st.iterations = .ok callback) :
      Moved cfg st { st with iterations := st.iterations + 1, callback := callback }
  | finish (i : Nat) (r : Prover) (proof : Form) (hr : st.manager.provers[i]? = some r)
      (hnone : r.proof = none) (h : st.Overtaken r.segment ∨ interruptableProof cfg.gcdext cfg.shrink
        cfg.H cfg.fuel cfg.D st.callback.forms r.segment = .ok proof) :
      Moved cfg st (st.modifyProver i fun q => { q with proof := some proof })
  | fullyFinish (i : Nat) :
      Moved cfg st (st.modifyProver i fun q => { q with is_fully_finished := true })
  | requests (pending_iters : List Nat) :
      Moved cfg st { st with manager := { st.manager with pending_iters := pending_iters } }
  | store (forms : List Form) (h : st.callback.multi_proc_machine = true) :
      Moved cfg st { st with callback := { st.callback with forms := forms } }
  | event (vdf_iteration intermediates_iter : Nat) (manager : ProverManager)
      (hwait : st.manager.active_provers = none) (hlower : st.manager.vdf_iteration ≤ vdf_iteration)
      (hupper : vdf_iteration ≤ st.iterations)
      (hstored : st.FormsStored vdf_iteration intermediates_iter)
      (h : st.manager.onEvent st.callback.multi_proc_machine st.callback.checkpoints vdf_iteration
        intermediates_iter = .ok manager) :
      Moved cfg st { st with manager := manager }
  | spawn (active_provers : Nat) (manager : ProverManager)
      (hactive : st.manager.active_provers = some active_provers)
      (h : st.manager.spawnRound active_provers = .ok manager) :
      Moved cfg st { st with manager := manager }

theorem moved_of_step (h : st.step cfg a = some st') : Moved cfg st st' := by
  cases a with
  | iteration =>
    obtain ⟨callback, hcallback, rfl⟩ := Option.map_eq_some_iff.mp h
    exact .iteration callback (toOption_eq_some hcallback)
  | finish i proof =>
    have h : Client.finishStep cfg st i proof = some st' := h
    unfold Client.finishStep at h
    cases hr : st.manager.provers[i]? with
    | none =>
      rw [hr] at h
      cases h
    | some r =>
      rw [hr] at h
      dsimp only at h
      split_ifs at h with hand
      cases h
      exact .finish i r proof hr hand.1 hand.2
  | fullyFinish i =>
    have h : st.fullyFinishStep i = some st' := h
    unfold Client.fullyFinishStep at h
    cases hr : st.manager.provers[i]? with
    | none =>
      rw [hr] at h
      cases h
    | some r =>
      rw [hr] at h
      dsimp only at h
      split_ifs at h
      cases h
      exact .fullyFinish i
  | request iteration =>
    cases h
    exact .requests _
  | answer iteration =>
    cases h
    exact .requests _
  | store forms =>
    have h : st.storeStep forms = some st' := h
    unfold Client.storeStep at h
    split_ifs at h with hmulti
    cases h
    exact .store forms hmulti
  | event vdf_iteration intermediates_iter =>
    have h : st.eventStep vdf_iteration intermediates_iter = some st' := h
    unfold Client.eventStep at h
    split_ifs at h with hand
    obtain ⟨hwait, hlower, hupper, hstored⟩ := hand
    obtain ⟨manager, hmanager, rfl⟩ := Option.map_eq_some_iff.mp h
    exact .event vdf_iteration intermediates_iter manager hwait hlower hupper hstored
      (toOption_eq_some hmanager)
  | spawn =>
    have h : st.spawnStep = some st' := h
    unfold Client.spawnStep at h
    cases hactive : st.manager.active_provers with
    | none =>
      rw [hactive] at h
      cases h
    | some active_provers =>
      rw [hactive] at h
      obtain ⟨manager, hmanager, rfl⟩ := Option.map_eq_some_iff.mp h
      exact .spawn active_provers manager hactive (toOption_eq_some hmanager)

/-- The segments are accounted for, and the event loop is not ahead of the main loop. -/
structure InOrder (st : Client) : Prop where
  accounted : ∃ q, Accounted q st.manager
  seen : st.manager.vdf_iteration ≤ st.iterations
  stored : st.callback.multi_proc_machine = false →
    st.manager.intermediates_iter = st.manager.vdf_iteration

theorem inOrder_init (segment_count max_proving_threads : Nat) (f : Form) (multi_proc_machine : Bool) :
    InOrder (Client.init segment_count max_proving_threads f multi_proc_machine) :=
  ⟨⟨_, accounted_init segment_count max_proving_threads⟩, le_rfl, fun _ => rfl⟩

theorem InOrder.le_of_formsStored (h : InOrder st) {vdf_iteration intermediates_iter : Nat}
    (hlower : st.manager.vdf_iteration ≤ vdf_iteration)
    (hstored : st.FormsStored vdf_iteration intermediates_iter) :
    st.manager.intermediates_iter ≤ intermediates_iter := by
  unfold Client.FormsStored at hstored
  split_ifs at hstored with hmulti
  · exact hstored
  · rw [h.stored (Bool.eq_false_of_not_eq_true hmulti), hstored]
    exact hlower

theorem onIteration_frame {store store' : FastAlgorithmCallback} {shrink : Form → Option Form}
    {data : Form} {n : Nat} (h : store.onIteration shrink data n = .ok store') :
    store'.multi_proc_machine = store.multi_proc_machine := by
  unfold FastAlgorithmCallback.onIteration FastAlgorithmCallback.storeIntermediates at h
  obtain ⟨stored, hstored, h⟩ := bind_eq_ok_iff.mp h
  obtain ⟨checkpoints, _, h⟩ := bind_eq_ok_iff.mp h
  cases h
  dsimp only at hstored ⊢
  split_ifs at hstored
  · obtain ⟨f, _, hstored⟩ := bind_eq_ok_iff.mp hstored
    cases hstored
    rfl
  · cases hstored
    rfl
  · obtain ⟨forms, _, hstored⟩ := bind_eq_ok_iff.mp hstored
    cases hstored
    rfl

theorem onEvent_frame {m m' : ProverManager} {multi_proc_machine : Bool} {checkpoints : List Form}
    {vdf_iteration intermediates_iter : Nat} (h : m.onEvent multi_proc_machine checkpoints vdf_iteration
      intermediates_iter = .ok m') : m'.vdf_iteration = vdf_iteration ∧
      m'.intermediates_iter = intermediates_iter ∧ m'.segment_count = m.segment_count := by
  unfold ProverManager.onEvent at h
  dsimp only at h
  obtain ⟨r, _, h⟩ := bind_eq_ok_iff.mp h
  cases h
  exact ⟨rfl, rfl, rfl⟩

theorem spawnRound_frame {m m' : ProverManager} {active_provers : Nat}
    (h : m.spawnRound active_provers = .ok m') : m'.vdf_iteration = m.vdf_iteration ∧
      m'.intermediates_iter = m.intermediates_iter ∧
      m'.done_segments = m.done_segments ∧ m'.last_appended = m.last_appended ∧
      m'.max_proving_threads = m.max_proving_threads ∧ m'.segment_count = m.segment_count := by
  rcases spawnRound_cases h with rfl | ⟨s, c, _, hspawn⟩
  · exact ⟨rfl, rfl, rfl, rfl, rfl, rfl⟩
  · rcases hspawn with rfl | ⟨k, r, _, _, rfl⟩
    · cases c <;> exact ⟨rfl, rfl, rfl, rfl, rfl, rfl⟩
    · cases c <;> exact ⟨rfl, rfl, rfl, rfl, rfl, rfl⟩

theorem InOrder.step (h : InOrder st) (hstep : st.step cfg a = some st') : InOrder st' := by
  obtain ⟨q, hq⟩ := h.accounted
  cases moved_of_step hstep with
  | iteration callback hcallback =>
    refine ⟨⟨q, hq⟩, h.seen.trans (Nat.le_succ _), ?_⟩
    intro hmulti
    exact h.stored ((onIteration_frame hcallback).symm.trans hmulti)
  | finish i r proof _ _ _ =>
    refine ⟨⟨q, hq.relabel ?_⟩, h.seen, h.stored⟩
    apply forall₂_modify
    · exact fun _ => ⟨rfl, id⟩
    · intro r
      exact ⟨rfl, fun hnone => by cases hnone⟩
  | fullyFinish i =>
    refine ⟨⟨q, hq.relabel ?_⟩, h.seen, h.stored⟩
    exact forall₂_modify (fun _ => ⟨rfl, id⟩) (fun _ => ⟨rfl, id⟩) i _
  | requests pending_iters => exact ⟨⟨q, hq.reframe _ _ _ _ _ _⟩, h.seen, h.stored⟩
  | store forms _ => exact ⟨⟨q, hq⟩, h.seen, h.stored⟩
  | event vdf_iteration intermediates_iter manager _ hlower hupper hstored hevent =>
    obtain ⟨hseen, hintermediates, _⟩ := onEvent_frame hevent
    refine ⟨⟨q, hq.onEvent (h.le_of_formsStored hlower hstored) hevent⟩, hseen.trans_le hupper, ?_⟩
    intro hmulti
    have hmulti : st.callback.multi_proc_machine = false := hmulti
    unfold Client.FormsStored at hstored
    rw [if_neg (by rw [hmulti]; exact Bool.false_ne_true)] at hstored
    exact hintermediates.trans (hstored.trans hseen.symm)
  | spawn active_provers manager _ hspawn =>
    obtain ⟨hseen, hintermediates, _⟩ := spawnRound_frame hspawn
    refine ⟨hq.spawnRound hspawn, hseen.trans_le h.seen, ?_⟩
    intro hmulti
    exact hintermediates.trans ((h.stored hmulti).trans hseen.symm)

theorem segment_count_step (hstep : st.step cfg a = some st') :
    st'.manager.segment_count = st.manager.segment_count := by
  cases moved_of_step hstep with
  | iteration callback _ => rfl
  | finish i r proof _ _ _ => rfl
  | fullyFinish i => rfl
  | requests pending_iters => rfl
  | store forms _ => rfl
  | event vdf_iteration intermediates_iter manager _ _ _ _ hevent => exact (onEvent_frame hevent).2.2
  | spawn active_provers manager _ hspawn => exact (spawnRound_frame hspawn).2.2.2.2.2

/-- Every segment that has been appended is pending, or has a prover, or is done. -/
structure EachOnce (segment_count : Nat) (st : Client) : Prop where
  appended : ∀ i < segment_count, ∃ given pending, st.manager.pending_segments[i]? = some pending ∧
    st.manager.last_appended[i]? = some ((given + pending.length) * segmentSize i) ∧
    (given + pending.length) * segmentSize i ≤ st.manager.intermediates_iter ∧
    PendingFrom i given pending ∧
    ∀ j, j < given ↔ (∃ r ∈ st.manager.provers, InBucket r.segment i j) ∨
      ∃ s, DoneAt st.manager.done_segments i j s
  distinct : (st.manager.provers.map Prover.key).Nodup
  unfinished : ∀ r ∈ st.manager.provers, r.proof = none → ∀ i j s, InBucket r.segment i j →
    ¬ DoneAt st.manager.done_segments i j s
  passed : st.callback.multi_proc_machine = false → st.manager.intermediates_iter ≤ st.iterations

theorem InOrder.eachOnce (h : InOrder st) : EachOnce st.manager.segment_count st := by
  obtain ⟨q, hq⟩ := h.accounted
  refine ⟨?_, hq.distinct, hq.exclusive, fun hmulti => (h.stored hmulti).trans_le h.seen⟩
  intro i hi
  obtain ⟨pending, hpending, hlast, hlast_le, hfrom⟩ := hq.pending i hi
  refine ⟨q i, pending, hpending, hlast, hlast_le, hfrom, ?_⟩
  intro j
  constructor
  · intro hj
    exact hq.found i hi j hj
  · intro h
    rcases h with ⟨r, hr, hbucket⟩ | ⟨s, hs⟩
    · obtain ⟨i', _, j', hj', hbucket'⟩ := hq.provers r hr
      obtain ⟨rfl, rfl⟩ := hbucket.unique hbucket'
      exact hj'
    · exact (hq.done_given i j s hs).2.1

/-- No run loses a segment or proves it twice at once. -/
theorem each_segment_once (cfg : ClientConfig) {segment_count max_proving_threads : Nat} {f : Form}
    {multi_proc_machine : Bool} {as : List ClientAction} {st : Client}
    (hrun : run (Client.step cfg)
      (Client.init segment_count max_proving_threads f multi_proc_machine) as = some st) :
    EachOnce segment_count st := by
  have hpreserved : ∀ s a t, InOrder s ∧ s.manager.segment_count = segment_count → True →
      Client.step cfg s a = some t → InOrder t ∧ t.manager.segment_count = segment_count := by
    intro s a t hs _ hstep
    exact ⟨hs.1.step hstep, (segment_count_step hstep).trans hs.2⟩
  have hinit := inOrder_init segment_count max_proving_threads f multi_proc_machine
  obtain ⟨hinv, rfl⟩ := run_invariant hpreserved as _ st ⟨hinit, rfl⟩
    (Meets.of_forall (fun _ _ => trivial) as _) hrun
  exact hinv.eachOnce

def quietConfig : ClientConfig where
  gcdext := boundedEuclid.toGcdext
  shrink := Reducer.run 9
  H := smallHashes
  fuel := 1
  D := -23
  vdf := fun _ => ⟨2, 1, 3⟩

/-- With many processors the forms of five small segments and a large one are stored, while one thread
proves the first of them. -/
def fiveSegments : List ClientAction :=
  [.iteration, .request 1, .event 1 (4 * 2 ^ 16), .spawn, .spawn, .event 1 (5 * 2 ^ 16), .answer 1]

theorem each_segment_once_quiet : ∃ st, run (Client.step quietConfig)
    (Client.init 2 1 ⟨2, 1, 3⟩ true) fiveSegments = some st ∧
    st.manager.provers.map Prover.key = [(0, 2 ^ 16)] ∧
    st.manager.pending_segments.map List.length = [4, 1] ∧ EachOnce 2 st := by
  have hseen : (run (Client.step quietConfig) (Client.init 2 1 ⟨2, 1, 3⟩ true) fiveSegments).map
      (fun st => (st.manager.provers.map Prover.key, st.manager.pending_segments.map List.length)) =
        some ([(0, 2 ^ 16)], [4, 1]) := by
    decide +kernel
  obtain ⟨st, hst, hfields⟩ := Option.map_eq_some_iff.mp hseen
  obtain ⟨hprovers, hpending⟩ := Prod.mk.inj hfields
  exact ⟨st, hst, hprovers, hpending, each_segment_once quietConfig hst⟩

end Runs

end Lootbox.Chiavdf

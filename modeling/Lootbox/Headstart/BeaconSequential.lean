import Lootbox.Headstart.BeaconReceipts
import Lootbox.Headstart.BeaconHistory

/-!
# Runs in which the calls do not overlap

A `contribute` call or a `next_stage` job starts only when none is under way; the
`vdf_run` threads go on in the background. Such runs disturb no call.
-/

namespace Lootbox.Headstart.Beacon

open StepSystem

def Ended : ContributeCall → Prop
  | .returned _ => True
  | .raised => True
  | _ => False

def Quiet (s : Beacon) : Prop := s.scheduler = .idle ∧ ∀ call ∈ s.calls, Ended call

/-- The action starts no call or job while another one is under way. -/
def Sequential (s : Beacon) : BeaconAction → Prop
  | .contribute _ => Quiet s
  | .scheduler => s.scheduler = .idle → Quiet s
  | _ => True

instance (call : ContributeCall) : Decidable (Ended call) :=
  match call with
  | .returned _ => inferInstanceAs (Decidable True)
  | .raised => inferInstanceAs (Decidable True)
  | .entering _ => inferInstanceAs (Decidable False)
  | .checking _ _ => inferInstanceAs (Decidable False)
  | .appending _ _ => inferInstanceAs (Decidable False)
  | .counting _ _ => inferInstanceAs (Decidable False)
  | .indexing _ _ _ => inferInstanceAs (Decidable False)

instance (s : Beacon) : Decidable (Quiet s) := inferInstanceAs (Decidable (_ ∧ _))

instance (s : Beacon) (a : BeaconAction) : Decidable (Sequential s a) :=
  match a with
  | .contribute _ => inferInstanceAs (Decidable (Quiet s))
  | .scheduler => inferInstanceAs (Decidable (s.scheduler = .idle → Quiet s))
  | .call _ => inferInstanceAs (Decidable True)
  | .vdfRun _ => inferInstanceAs (Decidable True)

def CallPlace (s : Beacon) : ContributeCall → Prop
  | .checking k _ => k = s.currentStageIndex
  | .appending k _ => k = s.currentStageIndex
  | .counting k x => k = s.currentStageIndex ∧
      (s.stages[k]?.bind fun stage => stage.data.getLast?) = some x
  | .indexing k _ _ => k = s.currentStageIndex
  | _ => True

structure OneAtATime (s : Beacon) : Prop where
  alone : s.scheduler ≠ .idle → ∀ call ∈ s.calls, Ended call
  one : ∀ (i j : Nat) (a b : ContributeCall), s.calls[i]? = some a → s.calls[j]? = some b →
    ¬ Ended a → ¬ Ended b → i = j
  place : ∀ call ∈ s.calls, CallPlace s call

theorem CallPlace.of_ended {s : Beacon} {call : ContributeCall} (h : Ended call) :
    CallPlace s call := by
  cases call with
  | returned | raised => trivial
  | entering | checking | appending | counting | indexing => exact False.elim h

section Step
variable {cfg : BeaconConfig} {s t : Beacon}

theorem contributeStep_place (hs : History cfg s) (hidle : s.scheduler = .idle) {i : Nat}
    {call call' : ContributeCall} {stages : List Stage} (hplace : CallPlace s call)
    (h : contributeStep cfg s call = some (stages, call')) :
    CallPlace { s with stages := stages, calls := s.calls.set i call' } call' := by
  cases call with
  | entering x =>
    cases h
    rfl
  | checking k x =>
    obtain ⟨stage, _, heq⟩ := Option.map_eq_some_iff.mp h
    split at heq
    · cases heq
      trivial
    · cases heq
      exact hplace
  | appending k x =>
    cases h
    have hk : k = s.currentStageIndex := hplace
    have hjob := hs.job
    rw [hidle] at hjob
    obtain ⟨stage, hstage, _⟩ := Current.stage hjob
    refine ⟨?_, ?_⟩
    · simp only [currentStageIndex, List.length_modify]
      exact hk
    · rw [hk, currentStageIndex, getElem?_modify_eq hstage, if_pos rfl, Option.bind_some,
        List.getLast?_concat]
  | counting k x =>
    obtain ⟨stage, _, heq⟩ := Option.map_eq_some_iff.mp h
    cases heq
    exact hplace.1
  | indexing k x data_idx =>
    cases h
    trivial
  | returned receipt => cases h
  | raised => cases h

theorem not_ended_of_contributeStep {call call' : ContributeCall} {stages : List Stage}
    (h : contributeStep cfg s call = some (stages, call')) : ¬ Ended call := by
  cases call with
  | returned | raised => cases h
  | entering | checking | appending | counting | indexing => exact id

theorem oneAtATime_call (hs : History cfg s) (hone : OneAtATime s) {i : Nat}
    (h : step cfg s (.call i) = some t) : OneAtATime t := by
  obtain ⟨call, stages, call', hi, hstep, rfl⟩ := step_call_eq_some_iff.mp h
  have hcall := not_ended_of_contributeStep hstep
  have hidle : s.scheduler = .idle := by
    by_contra hjob
    exact hcall (hone.alone hjob call (List.mem_of_getElem? hi))
  have hother : ∀ (j : Nat) (b : ContributeCall), j ≠ i → s.calls[j]? = some b → Ended b := by
    intro j b hj hb
    by_contra hnot
    exact hj (hone.one j i b call hb hi hnot hcall)
  constructor
  · exact fun hjob => absurd hidle hjob
  · have hi' : ∀ (j : Nat) (b : ContributeCall), (s.calls.set i call')[j]? = some b →
        ¬ Ended b → j = i := by
      intro j b hb hnot
      by_contra hj
      rw [List.getElem?_set_ne (Ne.symm hj)] at hb
      exact hnot (hother j b hj hb)
    intro j j' a b ha hb hna hnb
    rw [hi' j a ha hna, hi' j' b hb hnb]
  · intro b hb
    obtain ⟨j, hj⟩ := List.getElem?_of_mem hb
    by_cases hji : j = i
    · subst hji
      rw [List.getElem?_set_self (List.getElem?_eq_some_iff.mp hi).1] at hj
      cases hj
      exact contributeStep_place hs hidle (hone.place call (List.mem_of_getElem? hi)) hstep
    · rw [List.getElem?_set_ne (Ne.symm hji)] at hj
      exact CallPlace.of_ended (hother j b hji hj)

theorem oneAtATime_scheduler (hone : OneAtATime s) (hok : Sequential s .scheduler)
    (h : step cfg s .scheduler = some t) : OneAtATime t := by
  obtain ⟨stages, job, _, rfl⟩ := step_scheduler_eq_some_iff.mp h
  have hended : ∀ call ∈ s.calls, Ended call := by
    by_cases hidle : s.scheduler = .idle
    · exact (hok hidle).2
    · exact hone.alone hidle
  exact ⟨fun _ => hended, hone.one, fun call hcall => CallPlace.of_ended (hended call hcall)⟩

theorem oneAtATime_vdfRun (hone : OneAtATime s) {j : Nat}
    (h : step cfg s (.vdfRun j) = some t) : OneAtATime t := by
  obtain ⟨stage, stage', hj, hstep, rfl⟩ := step_vdfRun_eq_some_iff.mp h
  refine ⟨hone.alone, hone.one, ?_⟩
  intro call hcall
  have hplace := hone.place call hcall
  have hlen : (s.stages.set j stage').length = s.stages.length := List.length_set
  cases call with
  | checking k x | appending k x | indexing k x data_idx =>
    simp only [CallPlace, currentStageIndex, hlen]
    exact hplace
  | counting k x =>
    obtain ⟨hk, hlast⟩ := hplace
    refine ⟨?_, ?_⟩
    · simp only [currentStageIndex, hlen]
      exact hk
    · by_cases hjk : j = k
      · subst hjk
        rw [hj] at hlast
        simp only [List.getElem?_set_self (List.getElem?_eq_some_iff.mp hj).1, Option.bind_some,
          (vdfRunStep_frame hstep).1]
        exact hlast
      · simp only [List.getElem?_set_ne hjk]
        exact hlast
  | entering | returned | raised => trivial

theorem oneAtATime_contribute {x : Bytes} (hok : Sequential s (.contribute x))
    (h : step cfg s (.contribute x) = some t) : OneAtATime t := by
  cases h
  obtain ⟨hidle, hended⟩ := hok
  have hlast : ∀ (j : Nat) (b : ContributeCall), (s.calls ++ [.entering x])[j]? = some b →
      ¬ Ended b → j = s.calls.length := by
    intro j b hb hnot
    by_contra hj
    have hlt := (List.getElem?_eq_some_iff.mp hb).1
    rw [List.length_append, List.length_singleton] at hlt
    rw [List.getElem?_append_left (by omega)] at hb
    exact hnot (hended b (List.mem_of_getElem? hb))
  refine ⟨fun hjob => absurd hidle hjob, ?_, ?_⟩
  · intro j j' a b ha hb hna hnb
    rw [hlast j a ha hna, hlast j' b hb hnb]
  · intro call hcall
    rcases List.mem_append.mp hcall with hold | hnew
    · exact CallPlace.of_ended (hended call hold)
    · rw [List.mem_singleton.mp hnew]
      trivial

theorem oneAtATime_step {a : BeaconAction} (hs : History cfg s) (hone : OneAtATime s)
    (hok : Sequential s a) (h : step cfg s a = some t) : OneAtATime t := by
  cases a with
  | contribute x => exact oneAtATime_contribute hok h
  | call i => exact oneAtATime_call hs hone h
  | scheduler => exact oneAtATime_scheduler hone hok h
  | vdfRun j => exact oneAtATime_vdfRun hone h

theorem undisturbed_of_oneAtATime (hs : History cfg s) (hone : OneAtATime s) (a : BeaconAction) :
    Undisturbed s a := by
  cases a with
  | contribute | scheduler | vdfRun => trivial
  | call i =>
    intro call hi
    have hmem := List.mem_of_getElem? hi
    have hplace := hone.place call hmem
    cases call with
    | appending k x =>
      have hidle : s.scheduler = .idle := by
        by_contra hjob
        exact hone.alone hjob _ hmem
      have hjob := hs.job
      rw [hidle] at hjob
      obtain ⟨stage, hstage, _, hacc, _⟩ := Current.stage hjob
      have hk : k = s.currentStageIndex := hplace
      simp only [UndisturbedCall, hk, currentStageIndex, hstage, Option.bind_some]
      exact Option.isNone_iff_eq_none.mp (by simpa using hacc)
    | counting k x => exact hplace.2
    | indexing k x data_idx => exact hplace
    | entering | checking | returned | raised => trivial

end Step

structure SequentialState (cfg : BeaconConfig) (s : Beacon) : Prop where
  history : History cfg s
  oneAtATime : OneAtATime s
  sound : Sound cfg s

theorem sequentialState_init (cfg : BeaconConfig) : SequentialState cfg init where
  history := history_init cfg
  oneAtATime :=
    { alone := fun h => absurd rfl h
      one := fun _ _ _ _ h => by cases h
      place := fun _ h => by cases h }
  sound := sound_init cfg

theorem sequentialState_step {cfg : BeaconConfig} (hW : 2 ≤ cfg.W) (s : Beacon) (a : BeaconAction)
    (t : Beacon) (hs : SequentialState cfg s) (hok : Sequential s a)
    (h : step cfg s a = some t) : SequentialState cfg t where
  history := history_step hW hs.history h
  oneAtATime := oneAtATime_step hs.history hs.oneAtATime hok h
  sound := sound_step hs.sound (undisturbed_of_oneAtATime hs.history hs.oneAtATime a) h

theorem sequentialState_run {cfg : BeaconConfig} (hW : 2 ≤ cfg.W) {as : List BeaconAction}
    {s : Beacon} (hmeets : Meets (step cfg) Sequential init as)
    (hrun : run (step cfg) init as = some s) : SequentialState cfg s :=
  run_invariant (sequentialState_step hW) as init s (sequentialState_init cfg) hmeets hrun

end Lootbox.Headstart.Beacon

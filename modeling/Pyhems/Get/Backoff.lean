import Pyhems.Get.PollCycle

/-! Failures of poll cycles and the interval that follows from them. An answered chunk clears the
count, also in a cycle that fails with a later chunk. -/
namespace Pyhems.Get
open Protocol Library

variable {classCode : Nat}

/-! ### One cycle -/

theorem runCycle_failures (turns : List Turn) (epcs : List Epc) (state : DeviceScheduleState) :
    let cycle := runCycle classCode turns epcs state
    (cycle.ending = some .answered →
      cycle.state.consecutiveFailures = if cycle.chunks = [] then state.consecutiveFailures else 0) ∧
    (cycle.ending = some .unanswered → cycle.chunks ≠ [] ∧ cycle.state.consecutiveFailures =
      if cycle.chunks.length = 1 then state.consecutiveFailures+1 else 1) := by
  have hruns := runCycle_runs classCode turns epcs
  generalize runCycle classCode turns epcs = run at hruns ⊢
  induction hruns generalizing state with
  | done hrun =>
    rw [hrun]
    exact ⟨fun _ => rfl,fun h => by cases h⟩
  | pending hrun =>
    rw [hrun]
    exact ⟨fun h => (by cases h),fun h => by cases h⟩
  | halted hanswered hunanswered hrun =>
    rw [hrun]
    exact ⟨fun h => absurd (Option.some.inj h) hanswered,fun h => absurd (Option.some.inj h) hunanswered⟩
  | unanswered _ _ _ _ hrun =>
    rw [hrun]
    exact ⟨fun h => (by cases h),fun _ => ⟨List.cons_ne_nil _ _,rfl⟩⟩
  | @answered _ _ _ chunk _ _ latency _ next _ _ _ _ _ hrun ih =>
    rw [hrun]
    obtain ⟨hanswered,hunanswered⟩ := ih (state.succeed latency)
    have hzero : (state.succeed latency).consecutiveFailures = 0 := rfl
    rw [hzero] at hanswered hunanswered
    refine ⟨fun h => ?_,fun h => ⟨List.cons_ne_nil _ _,?_⟩⟩
    · have hfailures := hanswered h
      rw [ite_self] at hfailures
      exact hfailures
    · obtain ⟨hchunks,hfailures⟩ := hunanswered h
      have hlength : (chunk :: (next (state.succeed latency)).chunks).length ≠ 1 := by
        have := List.length_pos_of_ne_nil hchunks
        rw [List.length_cons]
        omega
      rw [zero_add,ite_self] at hfailures
      exact hfailures.trans (if_neg hlength).symm

/-- An unanswered cycle met a turn without a response, and one that is answered in all its turns did not. -/
theorem runCycle_responses (turns : List Turn) (epcs : List Epc) (state : DeviceScheduleState) :
    let cycle := runCycle classCode turns epcs state
    (cycle.ending = some .unanswered → ∃ turn ∈ turns, turn.response = none) ∧
    (cycle.ending = some .answered → cycle.chunks.length = turns.length →
      ∀ turn ∈ turns, turn.response ≠ none) := by
  have hruns := runCycle_runs classCode turns epcs
  generalize runCycle classCode turns epcs = run at hruns ⊢
  induction hruns generalizing state with
  | done hrun =>
    rw [hrun]
    refine ⟨fun h => (by cases h),fun _ hlength => ?_⟩
    cases List.length_eq_zero_iff.mp hlength.symm
    exact fun _ hmem => by cases hmem
  | pending hrun =>
    rw [hrun]
    exact ⟨fun h => (by cases h),fun h => by cases h⟩
  | halted hanswered hunanswered hrun =>
    rw [hrun]
    exact ⟨fun h => absurd (Option.some.inj h) hunanswered,fun h => absurd (Option.some.inj h) hanswered⟩
  | unanswered _ _ _ hresponse hrun =>
    rw [hrun]
    exact ⟨fun _ => ⟨_,List.mem_cons_self,hresponse⟩,fun h => by cases h⟩
  | answered _ _ _ hresponse _ hrun ih =>
    rw [hrun]
    obtain ⟨hlater,hall⟩ := ih (state.succeed _)
    refine ⟨fun h => ?_,fun h hlength => List.forall_mem_cons.mpr ⟨by simp [hresponse],?_⟩⟩
    · obtain ⟨turn',hmem,hnone⟩ := hlater h
      exact ⟨turn',List.mem_cons_of_mem _ hmem,hnone⟩
    · exact hall h (Nat.succ.inj hlength)

/-- A cycle with its turns, which ends when its chunks are answered or one is not. -/
structure PollCycle (classCode : Nat) where
  epcs : List Epc
  turns : List Turn
  requested : epcs ≠ []
  complete : (runCycle classCode turns epcs {}).chunks.length = turns.length
  ended : (runCycle classCode turns epcs {}).ending = some .answered ∨
    (runCycle classCode turns epcs {}).ending = some .unanswered

namespace PollCycle
variable (cycle : PollCycle classCode)

def run (state : DeviceScheduleState) : DeviceScheduleState := (runCycle classCode cycle.turns cycle.epcs state).state

def Failed : Prop := ∃ turn ∈ cycle.turns, turn.response = none

instance : Decidable cycle.Failed := inferInstanceAs (Decidable (∃ turn ∈ cycle.turns, turn.response = none))

/-- The first chunk is answered, and a later one is not. -/
def FailsLate : Prop := cycle.Failed ∧ ∃ turn ∈ cycle.turns.head?, turn.response ≠ none

instance : Decidable cycle.FailsLate :=
  inferInstanceAs (Decidable (_ ∧ ∃ turn ∈ cycle.turns.head?, turn.response ≠ none))

theorem turns_ne_nil : cycle.turns ≠ [] := by
  obtain ⟨epcs,turns,hne,_,hended⟩ := cycle
  rintro rfl
  obtain ⟨epc,epcs,rfl⟩ := List.exists_cons_of_ne_nil hne
  rcases hended with h | h <;> cases h

/-- The first of several chunks is answered. -/
theorem head_response {turn : Turn} {turns : List Turn} (h : cycle.turns = turn :: turns)
    (hresponse : turn.response = none) : turns = [] := by
  have hcomplete := cycle.complete
  have hruns := runCycle_runs classCode cycle.turns cycle.epcs
  generalize runCycle classCode cycle.turns cycle.epcs = run at hruns hcomplete
  generalize cycle.epcs = epcs at hruns
  rw [h] at hruns hcomplete
  cases hruns with
  | done hrun | halted _ _ hrun =>
    rw [hrun] at hcomplete
    cases hcomplete
  | unanswered _ _ _ _ hrun =>
    rw [hrun] at hcomplete
    exact List.length_eq_zero_iff.mp (Nat.succ.inj hcomplete).symm
  | answered _ _ _ hsome =>
    rw [hresponse] at hsome
    cases hsome

theorem failsLate_iff (hfailed : cycle.Failed) : cycle.FailsLate ↔ cycle.turns.length ≠ 1 := by
  obtain ⟨turn,turns,hturns⟩ := List.exists_cons_of_ne_nil cycle.turns_ne_nil
  constructor
  · rintro ⟨_,first,hfirst,hresponse⟩ hlength
    obtain ⟨turn',hmem,hnone⟩ := hfailed
    rw [hturns] at hfirst hlength hmem
    cases hfirst
    cases List.length_eq_zero_iff.mp (Nat.succ.inj hlength)
    cases List.mem_singleton.mp hmem
    exact hresponse hnone
  · intro hlength
    refine ⟨hfailed,turn,by rw [hturns]; rfl,fun hnone => hlength ?_⟩
    rw [hturns,cycle.head_response hturns hnone]
    rfl

/-- The count after a cycle. -/
theorem run_failures (state : DeviceScheduleState) : (cycle.run state).consecutiveFailures =
    if cycle.Failed then if cycle.FailsLate then 1 else state.consecutiveFailures+1 else 0 := by
  obtain ⟨hchunks,hending⟩ := @runCycle_requests classCode cycle.turns cycle.epcs state {}
  obtain ⟨hanswered,hunanswered⟩ := @runCycle_failures classCode cycle.turns cycle.epcs state
  obtain ⟨hfailed,hall⟩ := @runCycle_responses classCode cycle.turns cycle.epcs {}
  have hlength : (runCycle classCode cycle.turns cycle.epcs state).chunks.length = cycle.turns.length := by
    rw [hchunks,cycle.complete]
  rcases cycle.ended with h | h
  · have hnot : ¬ cycle.Failed := fun ⟨turn,hmem,hnone⟩ => hall h cycle.complete turn hmem hnone
    have hne : (runCycle classCode cycle.turns cycle.epcs state).chunks ≠ [] := by
      intro hnil
      rw [hnil] at hlength
      exact cycle.turns_ne_nil (List.length_eq_zero_iff.mp hlength.symm)
    rw [if_neg hnot]
    exact (hanswered (hending.trans h)).trans (if_neg hne)
  · have hfail : cycle.Failed := hfailed h
    rw [if_pos hfail]
    refine (hunanswered (hending.trans h)).2.trans ?_
    rw [hlength]
    by_cases hlate : cycle.FailsLate
    · rw [if_pos hlate,if_neg ((cycle.failsLate_iff hfail).mp hlate)]
    · rw [if_neg hlate,if_pos (not_not.mp (mt (cycle.failsLate_iff hfail).mpr hlate))]

end PollCycle

/-! ### Runs of cycles -/

def stateAfter (cycles : List (PollCycle classCode)) : DeviceScheduleState :=
  cycles.foldl (fun state cycle => cycle.run state) {}

/-- How many of the last cycles failed, one after the other. -/
def recentFailures (cycles : List (PollCycle classCode)) : Nat :=
  (cycles.reverse.takeWhile fun cycle => decide cycle.Failed).length

/-- After every cycle the count is the number of failed cycles, and the interval has grown with it. -/
def Accumulates (settings : PollerSettings) (cycles : List (PollCycle classCode)) : Prop :=
  ∀ done, done <+: cycles → (stateAfter done).consecutiveFailures = recentFailures done ∧
    (0 < recentFailures done →
      min (settings.pollInterval*backoffBase^(min (recentFailures done) maxBackoffExponent)) settings.maxInterval ≤
        settings.effectiveInterval (stateAfter done))

/-- No cycle fails after an answered chunk right after another failed cycle. -/
def SteadyFailures (cycles : List (PollCycle classCode)) : Prop :=
  ∀ before cycle next after, cycles = before ++ cycle :: next :: after → cycle.Failed → ¬ next.FailsLate

theorem stateAfter_concat (cycles : List (PollCycle classCode)) (cycle : PollCycle classCode) :
    stateAfter (cycles ++ [cycle]) = cycle.run (stateAfter cycles) := by
  simp [stateAfter]

theorem recentFailures_concat (cycles : List (PollCycle classCode)) (cycle : PollCycle classCode) :
    recentFailures (cycles ++ [cycle]) = if cycle.Failed then recentFailures cycles+1 else 0 := by
  by_cases h : cycle.Failed <;> simp [recentFailures,h]

/-- The interval backs off with the count. -/
theorem PollerSettings.le_effectiveInterval (settings : PollerSettings) (state : DeviceScheduleState)
    (h : 0 < state.consecutiveFailures) :
    min (settings.pollInterval*backoffBase^(min state.consecutiveFailures maxBackoffExponent))
      settings.maxInterval ≤ settings.effectiveInterval state := by
  simp only [effectiveInterval,if_neg h.ne']
  exact min_le_min_right _ (le_max_right _ _)

/-- The count accumulates exactly while no failed cycle is followed by one that fails late. -/
theorem accumulates_iff (settings : PollerSettings) (cycles : List (PollCycle classCode)) :
    Accumulates settings cycles ↔ SteadyFailures cycles := by
  constructor
  · rintro h before cycle next after rfl hfailed hlate
    have hfirst := (h (before ++ [cycle]) ⟨next :: after,by simp⟩).1
    have hsecond := (h (before ++ [cycle] ++ [next]) ⟨after,by simp⟩).1
    rw [recentFailures_concat,if_pos hfailed] at hfirst
    rw [stateAfter_concat,PollCycle.run_failures,if_pos hlate.1,if_pos hlate,recentFailures_concat,
      if_pos hlate.1,recentFailures_concat,if_pos hfailed] at hsecond
    omega
  · intro h done hdone
    have hcount : (stateAfter done).consecutiveFailures = recentFailures done := by
      induction done using List.reverseRecOn with
      | nil => rfl
      | append_singleton done cycle ih =>
        have hearlier := ih ((List.prefix_append done [cycle]).trans hdone)
        rw [stateAfter_concat,PollCycle.run_failures,recentFailures_concat,hearlier]
        by_cases hfailed : cycle.Failed
        · rw [if_pos hfailed,if_pos hfailed]
          by_cases hlate : cycle.FailsLate
          · -- The cycle before, if there is one, did not fail.
            have hzero : recentFailures done = 0 := by
              cases done using List.reverseRecOn with
              | nil => rfl
              | append_singleton before previous =>
                rw [recentFailures_concat,if_neg]
                obtain ⟨after,rfl⟩ := hdone
                exact fun hprevious => h before previous cycle after (by simp) hprevious hlate
            rw [if_pos hlate,hzero]
          · rw [if_neg hlate]
        · rw [if_neg hfailed,if_neg hfailed]
    refine ⟨hcount,fun hpos => ?_⟩
    rw [← hcount] at hpos ⊢
    exact settings.le_effectiveInterval _ hpos

/-- The first of two chunks is answered, and the second is not. -/
def halfAnswered : PollCycle 0x0130 where
  epcs := [0xE0,0xE1]
  turns := [⟨some 0,some 1,some (1/10)⟩,⟨some 0,some 1,none⟩]
  requested := List.cons_ne_nil _ _
  complete := rfl
  ended := Or.inr rfl

/-- A device that answers only the first chunk of its cycles has failed once, however often it fails. -/
theorem not_accumulates : ¬ ∀ settings (cycles : List (PollCycle 0x0130)), Accumulates settings cycles := by
  intro h
  have htwice := (h ⟨60,5/2,600⟩ [halfAnswered,halfAnswered] _ List.prefix_rfl).1
  have hlate : halfAnswered.FailsLate := by decide
  have hrecent : recentFailures [halfAnswered,halfAnswered] = 2 := by decide
  have hcount := PollCycle.run_failures halfAnswered (stateAfter [halfAnswered])
  rw [if_pos hlate.1,if_pos hlate,← stateAfter_concat] at hcount
  rw [hrecent] at htwice
  exact absurd (hcount.symm.trans htwice) (by decide)

end Pyhems.Get

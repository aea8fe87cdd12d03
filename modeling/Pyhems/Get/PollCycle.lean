import Mathlib.Data.Rat.Defs
import Mathlib.Algebra.Order.Field.Rat
import Pyhems.Get.Sharing

/-! One poll cycle of a device: it requests its EPCs chunk by chunk until all are answered or one is
not, and keeps the scheduling state that the polling intervals go by. Seconds are rationals. -/
namespace Pyhems.Get
open Protocol Library

def latencyEwmaAlpha : ℚ := 3/10

def backoffBase : ℚ := 2

def maxBackoffExponent : Nat := 10

/-- `_DeviceScheduleState`, with the fields that cycles write. -/
structure DeviceScheduleState where
  latencyEwma : Option ℚ := none
  consecutiveFailures : Nat := 0
  deriving DecidableEq

def DeviceScheduleState.updateLatency (state : DeviceScheduleState) (latency : ℚ) : DeviceScheduleState :=
  match state.latencyEwma with
  | none => {state with latencyEwma := some latency}
  | some ewma => {state with latencyEwma := some (latencyEwmaAlpha*latency+(1-latencyEwmaAlpha)*ewma)}

/-- What an unanswered chunk does to the state. -/
def DeviceScheduleState.fail (state : DeviceScheduleState) : DeviceScheduleState :=
  {state with consecutiveFailures := state.consecutiveFailures+1}

/-- What an answered chunk does to the state. -/
def DeviceScheduleState.succeed (state : DeviceScheduleState) (latency : ℚ) : DeviceScheduleState :=
  {state.updateLatency latency with consecutiveFailures := 0}

/-- What the loop of a cycle meets in one turn: the manufacturer code of the device if it is still
there, the limit, and the latency of the response if there is one. -/
structure Turn where
  node : Option Nat
  capacity : Option Nat
  response : Option ℚ
  deriving DecidableEq

inductive Ending where
  | answered
  | unanswered
  | gone
  | empty
  | raised (exn : Exn)
  deriving DecidableEq

/-- The chunks that a cycle has requested, its end if it has come to one, and the state. -/
structure Cycle where
  chunks : List (List Epc)
  ending : Option Ending
  state : DeviceScheduleState

def Cycle.after (chunk : List Epc) (next : Cycle) : Cycle := {next with chunks := chunk :: next.chunks}

/-- `_run_cycle` for the turns that have come. -/
def runCycle (classCode : Nat) : List Turn → List Epc → DeviceScheduleState → Cycle
  | _, [], state => ⟨[],some .answered,state⟩
  | [], _ :: _, state => ⟨[],none,state⟩
  | turn :: turns, epc :: epcs, state =>
    match turn.node with
    | none => ⟨[],some .gone,state⟩
    | some code =>
      match takeFirstBatch (epc :: epcs) (some code) classCode turn.capacity with
      | .error exn => ⟨[],some (.raised exn),state⟩
      | .ok (chunk,remaining) =>
        if chunk = [] then ⟨[],some .empty,state⟩
        else
          match turn.response with
          | none => ⟨[chunk],some .unanswered,state.fail⟩
          | some latency => (runCycle classCode turns remaining (state.succeed latency)).after chunk

/-- The intervals that a poller was made with. -/
structure PollerSettings where
  pollInterval : ℚ
  safetyFactor : ℚ
  maxInterval : ℚ

/-- `_effective_interval` for a device with a state. -/
def PollerSettings.effectiveInterval (settings : PollerSettings) (state : DeviceScheduleState) : ℚ :=
  let slowed := match state.latencyEwma with
    | none => settings.pollInterval
    | some ewma => max settings.pollInterval (ewma*settings.safetyFactor)
  let interval :=
    if state.consecutiveFailures = 0 then slowed
    else max slowed (settings.pollInterval*backoffBase^(min state.consecutiveFailures maxBackoffExponent))
  min interval settings.maxInterval

/-! ### What a cycle requests -/

variable {classCode : Nat}

/-- How a cycle goes through its turns: a turn ends it without a request, with an unanswered one, or
goes on with the rest. The state does not matter for what is requested. -/
inductive CycleRuns (classCode : Nat) : List Turn → List Epc → (DeviceScheduleState → Cycle) → Prop where
  | done {turns : List Turn} {run : DeviceScheduleState → Cycle}
      (hrun : ∀ state, run state = ⟨[],some .answered,state⟩) : CycleRuns classCode turns [] run
  | pending {epc : Epc} {epcs : List Epc} {run : DeviceScheduleState → Cycle}
      (hrun : ∀ state, run state = ⟨[],none,state⟩) : CycleRuns classCode [] (epc :: epcs) run
  | halted {turn : Turn} {turns : List Turn} {epc : Epc} {epcs : List Epc} {ending : Ending}
      {run : DeviceScheduleState → Cycle} (hanswered : ending ≠ .answered) (hunanswered : ending ≠ .unanswered)
      (hrun : ∀ state, run state = ⟨[],some ending,state⟩) : CycleRuns classCode (turn :: turns) (epc :: epcs) run
  | unanswered {turn : Turn} {turns : List Turn} {epcs chunk rest : List Epc} {code : Nat}
      {run : DeviceScheduleState → Cycle} (hnode : turn.node = some code) (hchunk : chunk ≠ [])
      (hbatch : takeFirstBatch epcs (some code) classCode turn.capacity = .ok (chunk,rest))
      (hresponse : turn.response = none) (hrun : ∀ state, run state = ⟨[chunk],some .unanswered,state.fail⟩) :
      CycleRuns classCode (turn :: turns) epcs run
  | answered {turn : Turn} {turns : List Turn} {epcs chunk rest : List Epc} {code : Nat} {latency : ℚ}
      {run next : DeviceScheduleState → Cycle} (hnode : turn.node = some code) (hchunk : chunk ≠ [])
      (hbatch : takeFirstBatch epcs (some code) classCode turn.capacity = .ok (chunk,rest))
      (hresponse : turn.response = some latency) (hnext : CycleRuns classCode turns rest next)
      (hrun : ∀ state, run state = (next (state.succeed latency)).after chunk) :
      CycleRuns classCode (turn :: turns) epcs run

theorem runCycle_runs (classCode : Nat) (turns : List Turn) (epcs : List Epc) :
    CycleRuns classCode turns epcs (runCycle classCode turns epcs) := by
  induction turns generalizing epcs with
  | nil =>
    cases epcs with
    | nil => exact .done fun state => by rw [runCycle]
    | cons epc epcs => exact .pending fun state => by rw [runCycle]
  | cons turn turns ih =>
    cases epcs with
    | nil => exact .done fun state => by rw [runCycle]
    | cons epc epcs =>
      cases hnode : turn.node with
      | none =>
        have hrun : ∀ state, runCycle classCode (turn :: turns) (epc :: epcs) state = ⟨[],some .gone,state⟩ :=
          fun state => by simp only [runCycle,hnode]
        exact .halted (fun h => by cases h) (fun h => by cases h) hrun
      | some code =>
        cases hbatch : takeFirstBatch (epc :: epcs) (some code) classCode turn.capacity with
        | error exn =>
          have hrun : ∀ state,
              runCycle classCode (turn :: turns) (epc :: epcs) state = ⟨[],some (.raised exn),state⟩ :=
            fun state => by simp only [runCycle,hnode,hbatch]
          exact .halted (fun h => by cases h) (fun h => by cases h) hrun
        | ok plan =>
          obtain ⟨chunk,rest⟩ := plan
          by_cases hchunk : chunk = []
          · have hrun : ∀ state, runCycle classCode (turn :: turns) (epc :: epcs) state = ⟨[],some .empty,state⟩ :=
              fun state => by simp only [runCycle,hnode,hbatch,if_pos hchunk]
            exact .halted (fun h => by cases h) (fun h => by cases h) hrun
          · cases hresponse : turn.response with
            | none =>
              refine .unanswered hnode hchunk hbatch hresponse fun state => ?_
              simp only [runCycle,hnode,hbatch,if_neg hchunk,hresponse]
            | some latency =>
              refine .answered hnode hchunk hbatch hresponse (ih rest) fun state => ?_
              simp only [runCycle,hnode,hbatch,if_neg hchunk,hresponse]

theorem runCycle_requests (turns : List Turn) (epcs : List Epc) (state other : DeviceScheduleState) :
    (runCycle classCode turns epcs state).chunks = (runCycle classCode turns epcs other).chunks ∧
    (runCycle classCode turns epcs state).ending = (runCycle classCode turns epcs other).ending := by
  have hruns := runCycle_runs classCode turns epcs
  generalize runCycle classCode turns epcs = run at hruns ⊢
  induction hruns generalizing state other with
  | done hrun | pending hrun | halted _ _ hrun | unanswered _ _ _ _ hrun =>
    rw [hrun,hrun]
    exact ⟨rfl,rfl⟩
  | answered _ _ _ _ _ hrun ih =>
    rw [hrun,hrun]
    obtain ⟨hchunks,hending⟩ := ih (state.succeed _) (other.succeed _)
    exact ⟨congrArg (_ :: ·) hchunks,hending⟩

/-- A cycle that shares the device with other calls awaits the same chunk. -/
theorem Shared.runCycle_awaits (s : Shared) (epcs : List Epc) (state : DeviceScheduleState) :
    (s.runCycle classCode epcs).2.awaits =
      (Get.runCycle classCode [⟨s.node,s.getObservedBatchCapacity,none⟩] epcs state).chunks.head? := by
  cases epcs with
  | nil => rfl
  | cons epc epcs =>
    simp only [Shared.runCycle,Get.runCycle,List.cons_ne_nil,if_false]
    cases s.node with
    | none => rfl
    | some code =>
      simp only
      cases takeFirstBatch (epc :: epcs) (some code) classCode s.getObservedBatchCapacity with
      | error exn => rfl
      | ok plan =>
        simp only
        split <;> rfl

/-- Every chunk has an EPC, and no EPC is requested more often than it is to be. -/
theorem runCycle_chunks (turns : List Turn) (epcs : List Epc) (state : DeviceScheduleState) :
    (∀ chunk ∈ (runCycle classCode turns epcs state).chunks, chunk ≠ []) ∧
    ∃ rest, ((runCycle classCode turns epcs state).chunks.flatten ++ rest).Perm epcs ∧
      ((runCycle classCode turns epcs state).ending = some .answered → rest = []) := by
  have hruns := runCycle_runs classCode turns epcs
  generalize runCycle classCode turns epcs = run at hruns ⊢
  induction hruns generalizing state with
  | done hrun =>
    rw [hrun]
    exact ⟨nofun,[],.refl _,fun _ => rfl⟩
  | pending hrun =>
    rw [hrun]
    exact ⟨nofun,_,.refl _,nofun⟩
  | halted hanswered _ hrun =>
    rw [hrun]
    exact ⟨nofun,_,.refl _,fun h => absurd (Option.some.inj h) hanswered⟩
  | unanswered _ hchunk hbatch _ hrun =>
    rw [hrun]
    have hperm := (takeFirstBatch_eq hbatch).perm
    exact ⟨by simpa using hchunk,_,by simpa using hperm,nofun⟩
  | answered _ hchunk hbatch _ _ hrun ih =>
    rw [hrun]
    obtain ⟨hchunks,left,hperm,hdone⟩ := ih (state.succeed _)
    refine ⟨List.forall_mem_cons.mpr ⟨hchunk,hchunks⟩,left,?_,hdone⟩
    rw [Cycle.after,List.flatten_cons,List.append_assoc]
    exact (hperm.append_left _).trans (takeFirstBatch_eq hbatch).perm

end Pyhems.Get

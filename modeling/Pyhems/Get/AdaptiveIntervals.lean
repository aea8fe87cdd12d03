import Pyhems.Get.TierIntervals
import Pyhems.Library.MovingAverage

/-! A poller over its history: the scheduling states of its devices come from the cycles that were
fired, the answers to their chunks and the devices that were dropped, and the intervals come from the states. -/
namespace Pyhems.Get
open Library Library.MovingAverage

/-! ### Pollers -/

/-- A poller with the scheduling states of its devices. -/
structure PropertyPoller (κ : Type) where
  tiers : PollerTiers
  state : κ → Option DeviceScheduleState := fun _ => none

variable {κ : Type}

namespace PropertyPoller
variable (poller : PropertyPoller κ) (key : κ)

def effectiveInterval : ℚ :=
  match poller.state key with
  | none => min poller.tiers.pollInterval poller.tiers.maxInterval
  | some state => poller.tiers.effectiveInterval state

def effectiveFastInterval : ℚ :=
  match poller.state key with
  | none => min (min poller.tiers.fastPollInterval poller.tiers.maxInterval) (poller.effectiveInterval key)
  | some state => poller.tiers.effectiveFastInterval state

/-- `latency_ewma` of a device, which one without a state does not have either. -/
def latencyEwma : Option ℚ := ((poller.state key).getD {}).latencyEwma

/-- A device without a state is polled like one with a fresh state. -/
theorem effectiveInterval_getD :
    poller.effectiveInterval key = poller.tiers.effectiveInterval ((poller.state key).getD {}) := by
  rw [effectiveInterval]
  cases poller.state key <;> rfl

theorem effectiveFastInterval_getD :
    poller.effectiveFastInterval key = poller.tiers.effectiveFastInterval ((poller.state key).getD {}) := by
  rw [effectiveFastInterval,effectiveInterval]
  cases poller.state key <;> rfl

end PropertyPoller

/-! ### Histories -/

/-- What a chunk does to the state when it is answered after a latency, or not. -/
def DeviceScheduleState.poll (state : DeviceScheduleState) : (response : Option ℚ) → DeviceScheduleState
  | none => state.fail
  | some latency => state.succeed latency

/-- What happens to the scheduling states: a cycle is fired for a device, a chunk of it is answered
or not, a device is no longer present, and the poller is stopped. The last two also cancel cycles,
so a chunk belongs to a cycle whose state is kept. -/
inductive PollerEvent (κ : Type) where
  | fired (key : κ)
  | polled (key : κ) (response : Option ℚ)
  | removed (key : κ)
  | stopped

variable [DecidableEq κ]

/-- The latency that an event observes for a device. -/
def PollerEvent.latency (key : κ) : PollerEvent κ → Option ℚ
  | .polled other response => if key = other then response else none
  | _ => none

/-- An event drops the state of a device. -/
def PollerEvent.drops (key : κ) : PollerEvent κ → Bool
  | .removed other => key = other
  | .stopped => true
  | _ => false

def latencies (history : List (PollerEvent κ)) (key : κ) : List ℚ := history.filterMap (·.latency key)

/-- The latencies that were observed for a device since its state was last dropped. -/
def recentLatencies (history : List (PollerEvent κ)) (key : κ) : List ℚ :=
  history.foldl (fun recent event => if event.drops key then [] else recent ++ (event.latency key).toList) []

section Latencies
variable (history : List (PollerEvent κ)) (event : PollerEvent κ) (key : κ)

theorem latencies_append_singleton :
    latencies (history ++ [event]) key = latencies history key ++ (event.latency key).toList := by
  rw [latencies,List.filterMap_append]
  cases h : event.latency key <;> simp [h,latencies]

theorem recentLatencies_append_singleton : recentLatencies (history ++ [event]) key =
    if event.drops key then [] else recentLatencies history key ++ (event.latency key).toList := by
  rw [recentLatencies,List.foldl_append]
  rfl

theorem recentLatencies_suffix : recentLatencies history key <:+ latencies history key := by
  induction history using List.reverseRecOn with
  | nil => exact List.nil_suffix
  | append_singleton history event ih =>
    rw [recentLatencies_append_singleton,latencies_append_singleton]
    split
    · exact List.nil_suffix
    · obtain ⟨older,holder⟩ := ih
      exact ⟨older,by rw [← holder,List.append_assoc]⟩

end Latencies

namespace PropertyPoller

/-- `_get_state`, with what is then done to the state. -/
def update (poller : PropertyPoller κ) (key : κ) (f : DeviceScheduleState → DeviceScheduleState) :
    PropertyPoller κ :=
  {poller with state := Function.update poller.state key (some (f ((poller.state key).getD {})))}

/-- What `_cleanup_stale` does for a device. -/
def remove (poller : PropertyPoller κ) (key : κ) : PropertyPoller κ :=
  {poller with state := Function.update poller.state key none}

def step (poller : PropertyPoller κ) : PollerEvent κ → PropertyPoller κ
  | .fired key => poller.update key id
  | .polled key response => poller.update key (·.poll response)
  | .removed key => poller.remove key
  | .stopped => {poller with state := fun _ => none}

/-- A poller made with the arguments after a history. -/
def after (arguments : PollerArguments) (history : List (PollerEvent κ)) : PropertyPoller κ :=
  history.foldl step {tiers := arguments.tiers}

section Step
variable (poller : PropertyPoller κ) (f : DeviceScheduleState → DeviceScheduleState) {key other : κ}

theorem update_state_self : (poller.update key f).state key = some (f ((poller.state key).getD {})) :=
  Function.update_self _ _ _

theorem update_state_of_ne (h : other ≠ key) : (poller.update key f).state other = poller.state other :=
  Function.update_of_ne h _ _

theorem remove_state_self : (poller.remove key).state key = none := Function.update_self _ _ _

theorem remove_state_of_ne (h : other ≠ key) : (poller.remove key).state other = poller.state other :=
  Function.update_of_ne h _ _

theorem step_tiers (event : PollerEvent κ) : (poller.step event).tiers = poller.tiers := by
  cases event <;> rfl

end Step

theorem after_append_singleton (arguments : PollerArguments) (history : List (PollerEvent κ)) (event : PollerEvent κ) :
    after arguments (history ++ [event]) = (after arguments history).step event := by
  rw [after,List.foldl_append]
  rfl

theorem after_tiers (arguments : PollerArguments) (history : List (PollerEvent κ)) :
    (after arguments history).tiers = arguments.tiers := by
  induction history using List.reverseRecOn with
  | nil => rfl
  | append_singleton history event ih =>
    rw [after_append_singleton,step_tiers]
    exact ih

/-! ### Observed latencies -/

theorem update_latencyEwma (poller : PropertyPoller κ) (other key : κ)
    (f : DeviceScheduleState → DeviceScheduleState) :
    (poller.update other f).latencyEwma key =
      if key = other then (f ((poller.state key).getD {})).latencyEwma else poller.latencyEwma key := by
  by_cases hkey : key = other
  · rw [if_pos hkey,hkey,latencyEwma,update_state_self,Option.getD_some]
  · rw [if_neg hkey,latencyEwma,update_state_of_ne poller f hkey,latencyEwma]

theorem latencyEwmaAlpha_nonneg : 0 ≤ latencyEwmaAlpha := by
  norm_num [latencyEwmaAlpha]

theorem latencyEwmaAlpha_le_one : latencyEwmaAlpha ≤ 1 := by
  norm_num [latencyEwmaAlpha]

/-- A chunk takes the latency of its answer into the average. -/
theorem poll_latencyEwma (state : DeviceScheduleState) (response : Option ℚ) :
    (state.poll response).latencyEwma =
      response.elim state.latencyEwma (smooth latencyEwmaAlpha state.latencyEwma) := by
  cases response with
  | none => rfl
  | some latency =>
    rw [DeviceScheduleState.poll,DeviceScheduleState.succeed,DeviceScheduleState.updateLatency]
    cases state.latencyEwma <;> rfl

/-- An event drops the average, or takes the latency that it observes into it. -/
theorem step_latencyEwma (poller : PropertyPoller κ) (event : PollerEvent κ) (key : κ) :
    (poller.step event).latencyEwma key =
      if event.drops key then none
      else (event.latency key).elim (poller.latencyEwma key) (smooth latencyEwmaAlpha (poller.latencyEwma key)) := by
  cases event with
  | fired other =>
    rw [step,update_latencyEwma]
    exact ite_self _
  | polled other response =>
    rw [step,update_latencyEwma,poll_latencyEwma,PollerEvent.latency]
    split <;> rfl
  | removed other =>
    by_cases hkey : key = other
    · rw [step,latencyEwma,hkey,remove_state_self,PollerEvent.drops,decide_eq_true rfl]
      rfl
    · rw [step,latencyEwma,remove_state_of_ne poller hkey,PollerEvent.drops,decide_eq_false hkey]
      rfl
  | stopped => rfl

/-- The average is that of the latencies since the state was last dropped. -/
theorem after_latencyEwma (arguments : PollerArguments) (history : List (PollerEvent κ)) (key : κ) :
    (after arguments history).latencyEwma key =
      movingAverage latencyEwmaAlpha (recentLatencies history key) := by
  induction history using List.reverseRecOn with
  | nil => rfl
  | append_singleton history event ih =>
    rw [after_append_singleton,step_latencyEwma,recentLatencies_append_singleton,ih]
    split
    · rfl
    · cases event.latency key with
      | none => rw [Option.toList_none,List.append_nil,Option.elim_none]
      | some latency => rw [Option.toList_some,movingAverage_append_singleton,Option.elim_some]

/-! ### Cycles -/

theorem update_update (poller : PropertyPoller κ) (key : κ) (f g : DeviceScheduleState → DeviceScheduleState) :
    (poller.update key f).update key g = poller.update key (g ∘ f) := by
  rw [update,update_state_self]
  simp only [update,Function.update_idem]
  rfl

theorem foldl_polled (poller : PropertyPoller κ) (key : κ) (responses : List (Option ℚ))
    (f : DeviceScheduleState → DeviceScheduleState) :
    (responses.map (PollerEvent.polled key)).foldl step (poller.update key f) =
      poller.update key fun state => responses.foldl DeviceScheduleState.poll (f state) := by
  induction responses generalizing f with
  | nil => rfl
  | cons response responses ih =>
    rw [List.map_cons,List.foldl_cons,step,update_update]
    exact ih _

/-- A cycle polls its device once with each chunk. -/
theorem runCycle_state {classCode : Nat} (turns : List Turn) (epcs : List Epc) (state : DeviceScheduleState) :
    (runCycle classCode turns epcs state).state =
      ((turns.take (runCycle classCode turns epcs state).chunks.length).map Turn.response).foldl
        DeviceScheduleState.poll state := by
  have hruns := runCycle_runs classCode turns epcs
  generalize runCycle classCode turns epcs = run at hruns ⊢
  induction hruns generalizing state with
  | done hrun | pending hrun | halted _ _ hrun =>
    rw [hrun]
    rfl
  | unanswered _ _ _ hresponse hrun =>
    rw [hrun,List.length_singleton,List.take_succ_cons,List.take_zero,List.map_cons,hresponse]
    rfl
  | answered _ _ _ hresponse _ hrun ih =>
    rw [hrun,Cycle.after,List.length_cons,List.take_succ_cons,List.map_cons,List.foldl_cons,hresponse]
    exact ih (state.succeed _)

/-- What a cycle adds to the history: it is fired, and each chunk that it requests is answered or not. -/
def cycleHistory (key : κ) (classCode : Nat) (turns : List Turn) (epcs : List Epc) : List (PollerEvent κ) :=
  let chunks := (runCycle classCode turns epcs {}).chunks
  .fired key :: ((turns.take chunks.length).map Turn.response).map (.polled key)

/-- The history of a cycle does to the state of its device what the cycle does. -/
theorem foldl_cycleHistory (poller : PropertyPoller κ) (key : κ) (classCode : Nat) (turns : List Turn)
    (epcs : List Epc) :
    (cycleHistory key classCode turns epcs).foldl step poller =
      poller.update key fun state => (runCycle classCode turns epcs state).state := by
  rw [cycleHistory,List.foldl_cons,step,foldl_polled]
  refine congrArg (poller.update key) (funext fun state => ?_)
  rw [runCycle_state,(runCycle_requests turns epcs state {}).1]
  rfl

/-! ### Order and bounds -/

/-- After every history the intervals lie in their bounds, the fast one below the normal one, and
grow with failures and latency, and the latency lies among those observed. -/
theorem intervals_ordered (arguments : PollerArguments) (history : List (PollerEvent κ)) (key : κ) :
    let poller := after arguments history
    (max 1 arguments.pollInterval ≤ poller.effectiveInterval key ∧
      poller.effectiveInterval key ≤ max (max 1 arguments.pollInterval) arguments.maxInterval) ∧
    (min (max 1 arguments.fastPollInterval) (max 1 arguments.pollInterval) ≤ poller.effectiveFastInterval key ∧
      poller.effectiveFastInterval key ≤ poller.effectiveInterval key) ∧
    (Monotone poller.tiers.effectiveInterval ∧ Monotone poller.tiers.effectiveFastInterval) ∧
    ∀ ewma ∈ poller.latencyEwma key, ∃ smallest largest,
      IsLeast {latency | latency ∈ latencies history key} smallest ∧
      IsGreatest {latency | latency ∈ latencies history key} largest ∧ smallest ≤ ewma ∧ ewma ≤ largest := by
  intro poller
  have htiers : poller.tiers = arguments.tiers := after_tiers arguments history
  have hnormal := arguments.tiers.effectiveInterval_bounds ((poller.state key).getD {})
  have hfast := arguments.tiers.effectiveFastInterval_bounds ((poller.state key).getD {})
  rw [effectiveInterval_getD,effectiveFastInterval_getD,htiers]
  refine ⟨hnormal,hfast,⟨arguments.tiers.effectiveInterval_mono,arguments.tiers.effectiveFastInterval_mono⟩,?_⟩
  intro ewma hewma
  have haverage := (after_latencyEwma arguments history key).symm.trans hewma
  have hrecent := (recentLatencies_suffix history key).subset
  exact movingAverage_between latencyEwmaAlpha_nonneg latencyEwmaAlpha_le_one hrecent haverage

/-- A maximum below the base of the normal tier is raised to it. -/
theorem interval_above_maxInterval :
    let arguments : PollerArguments := {pollInterval := 60,maxInterval := 10}
    let poller := after arguments [.fired "k1",.polled "k1" (some 1)]
    arguments.maxInterval < poller.effectiveInterval "k1" := by
  decide +kernel

end PropertyPoller

end Pyhems.Get

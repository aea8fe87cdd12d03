import Mathlib.Data.Finset.Sort
import Mathlib.Data.NNRat.Defs
import Pyhems.Device.Subscriptions
import Pyhems.Get.AdaptiveIntervals
import Pyhems.Library.Dict

/-! The scheduler of `PropertyPoller`. A loop wakes up, drops the states of devices that are gone and
fires a cycle for each device that a tier is due for; the cycles are tasks of their own, which share
the state objects of their devices with the loop. -/
namespace Pyhems.Poll
open Library Device Protocol
open Get (Epc DeviceScheduleState PollerTiers PropertyPoller Ending takeFirstBatch)

/-- `_DeviceScheduleState`. -/
structure ScheduleState extends DeviceScheduleState where
  cycleTask : Option Nat := none
  lastPolledAt : Option ℚ := none
  lastFastPolledAt : Option ℚ := none

/-- What the start of a cycle writes to the state. -/
def ScheduleState.launch (state : ScheduleState) (now : ℚ) (fast normal : Bool) (task : Nat) : ScheduleState :=
  {state with
    lastPolledAt := if normal then some now else state.lastPolledAt
    lastFastPolledAt := if fast then some now else state.lastFastPolledAt
    cycleTask := some task}

/-- What a response does to the state. -/
def ScheduleState.observe (state : ScheduleState) (response : Option ℚ) : ScheduleState :=
  {state with toDeviceScheduleState := state.toDeviceScheduleState.poll response}

/-- A cycle at its await: not begun, or waiting for the answer to a chunk. `state` is the state
object that it took when it began. -/
inductive Stage where
  | created (epcs : List Epc)
  | awaiting (state : Nat) (chunk remaining : List Epc)
  | ended (ending : Ending)
  deriving DecidableEq

structure CycleTask (κ : Type) where
  deviceKey : κ
  stage : Stage
  cancelRequested : Bool := false

def CycleTask.cancel {κ : Type} (t : CycleTask κ) : CycleTask κ :=
  match t.stage with
  | .ended _ => t
  | _ => {t with cancelRequested := true}

/-- `NodeState`, with its class and `polling_available`. -/
structure PolledNode extends NodeState where
  classCode : Nat
  pollingAvailable : Option Bool := none

/-- What the manager does with a device as far as its availability goes: it registers the device, and
emits `AvailabilityChanged`. -/
inductive Notice (κ : Type) where
  | registered (deviceKey : κ)
  | availabilityChanged (deviceKey : κ) (available : Bool)
  deriving DecidableEq

/-- A cycle as it was fired, with the intervals of its device at that time. -/
structure Firing (κ : Type) where
  deviceKey : κ
  state : Nat
  task : Nat
  time : ℚ
  normal : Bool
  fast : Bool
  normalInterval : ℚ
  fastInterval : ℚ
  epcs : Finset Epc

/-- `PropertyPoller` with the manager that it polls for. `running` is `_task is not None`; `objects`
are the state objects, and `states` names the one of each device. `fired`, `requested` and `notices`
record what happened. -/
structure Poller (κ : Type) where
  tiers : PollerTiers
  now : ℚ := 0
  running : Bool := false
  objects : List ScheduleState := []
  states : List (κ × Nat) := []
  tasks : List (CycleTask κ) := []
  data : List (κ × PolledNode) := []
  subscriptions : Subscriptions κ := {}
  capacity : κ → Option Nat := fun _ => none
  fired : List (Firing κ) := []
  requested : List (Nat × List Epc) := []
  notices : List (Notice κ) := []

variable {κ : Type} [DecidableEq κ]

namespace Poller
variable (s : Poller κ)

/-- `self._state.get(device_key)`. -/
def stateOf (key : κ) : Option ScheduleState := (Dict.get key s.states).bind fun i => s.objects[i]?

/-- The poller as far as its intervals go. -/
def schedule : PropertyPoller κ := ⟨s.tiers,fun key => (s.stateOf key).map (·.toDeviceScheduleState)⟩

def getState (key : κ) : Poller κ × Nat :=
  match Dict.get key s.states with
  | some i => (s,i)
  | none =>
    ({s with objects := s.objects ++ [{}], states := Dict.insert key s.objects.length s.states},s.objects.length)

/-- The cycle of a state object is in progress. -/
def polling (state : ScheduleState) : Bool :=
  match state.cycleTask.bind fun task => s.tasks[task]? with
  | some ⟨_,.ended _,_⟩ => false
  | some _ => true
  | none => false

def isPolling (key : κ) : Bool := (s.stateOf key).any s.polling

/-! ### The manager -/

def effectivePollEpcs (key : κ) : Finset Epc :=
  s.subscriptions.effectivePollEpcs (fun key => (Dict.get key s.data).map (·.toNodeState)) key

def effectiveFastPollEpcs (key : κ) : Finset Epc :=
  s.subscriptions.effectiveFastPollEpcs (fun key => (Dict.get key s.data).map (·.toNodeState)) key

def setPollingAvailable (key : κ) (available : Bool) : Poller κ :=
  match Dict.get key s.data with
  | none => s
  | some node =>
    if node.pollingAvailable = some available then s
    else
      {s with
        data := Dict.insert key {node with pollingAvailable := some available} s.data
        notices := s.notices ++ [.availabilityChanged key available]}

/-! ### Cycles -/

def setStage (task : Nat) (stage : Stage) : Poller κ :=
  {s with tasks := s.tasks.modify task fun t => {t with stage}}

/-- The cycle requests a chunk, and awaits the answer. -/
def request (task i : Nat) (chunk rest : List Epc) : Poller κ :=
  {s.setStage task (.awaiting i chunk rest) with requested := s.requested ++ [(task,chunk)]}

/-- The loop of `_run_cycle` from its head to its await, for a cycle that holds a state object. -/
def nextChunk (task i : Nat) (key : κ) (remaining : List Epc) : Poller κ :=
  if remaining = [] then s.setStage task (.ended .answered)
  else
    match Dict.get key s.data with
    | none => s.setStage task (.ended .gone)
    | some node =>
      match takeFirstBatch remaining (some node.manufacturerCode) node.classCode (s.capacity key) with
      | .error exn => s.setStage task (.ended (.raised exn))
      | .ok (chunk,rest) =>
        if chunk = [] then s.setStage task (.ended .empty)
        else s.request task i chunk rest

/-- What a response does to the state object and to the availability of the device. -/
def observe (i : Nat) (key : κ) (response : Option ℚ) : Poller κ :=
  {s with objects := s.objects.modify i (·.observe response)}.setPollingAvailable key response.isSome

/-! ### The loop -/

/-- The cycles that the states of the devices that are not to be kept name. -/
def droppedCycles (keep : κ → Bool) : List Nat :=
  (s.states.filter fun e => !keep e.1).filterMap fun e => s.objects[e.2]?.bind ScheduleState.cycleTask

/-- Drop the states of the devices that are not to be kept, and cancel their cycles. -/
def dropStates (keep : κ → Bool) : Poller κ :=
  {s with
    states := s.states.filter fun e => keep e.1
    tasks := s.tasks.mapIdx fun task t => if task ∈ s.droppedCycles keep then t.cancel else t}

def cleanupStale : Poller κ := s.dropStates fun key => (Dict.get key s.data).isSome

def stop : Poller κ := {s.dropStates fun _ => false with running := false}

/-- `now - last >= interval`, for a tier that was polled last at `last`. -/
def due (now interval : ℚ) : (last : Option ℚ) → Bool
  | none => true
  | some last => decide (interval ≤ now-last)

/-- The cycle that is fired for a set of EPCs. -/
def firing (key : κ) (fast normal : Bool) (epcs : Finset Epc) : Firing κ where
  deviceKey := key
  state := (s.getState key).2
  task := s.tasks.length
  time := s.now
  normal
  fast
  normalInterval := s.schedule.effectiveInterval key
  fastInterval := s.schedule.effectiveFastInterval key
  epcs

/-- `_fire_poll` from `_get_state` on. -/
def fire (key : κ) (fast normal : Bool) (epcs : Finset Epc) : Poller κ :=
  let (t,i) := s.getState key
  {t with
    objects := t.objects.modify i fun state => state.launch s.now fast normal t.tasks.length
    tasks := t.tasks ++ [⟨key,.created (epcs.sort (· ≤ ·)),false⟩]
    fired := t.fired ++ [s.firing key fast normal epcs]}

/-- The EPCs that `_fire_poll` requests for the tiers that are due. -/
def cycleEpcs (key : κ) (fast normal : Bool) : Finset Epc :=
  let normalEpcs := if normal then s.effectivePollEpcs key else ∅
  let fastEpcs := if fast then s.effectiveFastPollEpcs key else ∅
  normalEpcs ∪ fastEpcs

/-- `_fire_poll`; the clock has gone on by `drift` when it is read again. -/
def firePoll (key : κ) (fast normal : Bool) (drift : ℚ≥0) : Poller κ :=
  match Dict.get key s.data with
  | none => s
  | some _ =>
    let epcs := s.cycleEpcs key fast normal
    if epcs = ∅ then s else {s with now := s.now+drift}.fire key fast normal epcs

/-- A tier with EPCs is due at a time. -/
def normalDue (now : ℚ) (key : κ) (node : PolledNode) : Bool :=
  decide (node.pollEpcs ≠ ∅) &&
    due now (s.schedule.effectiveInterval key) ((s.stateOf key).bind ScheduleState.lastPolledAt)

def fastDue (now : ℚ) (key : κ) (node : PolledNode) : Bool :=
  decide (node.fastPollEpcs ≠ ∅) &&
    due now (s.schedule.effectiveFastInterval key) ((s.stateOf key).bind ScheduleState.lastFastPolledAt)

/-- The body of the loop of `_schedule_polls`. -/
def scheduleDevice (now : ℚ) (drift : κ → ℚ≥0) (key : κ) (node : PolledNode) : Poller κ :=
  if s.isPolling key then s
  else if node.pollEpcs = ∅ ∧ node.fastPollEpcs = ∅ then s
  else
    let normal := s.normalDue now key node
    let fast := s.fastDue now key node
    if normal = false ∧ fast = false then s else s.firePoll key fast normal (drift key)

def schedulePolls (drift : κ → ℚ≥0) : Poller κ :=
  s.data.foldl (fun t entry => t.scheduleDevice s.now drift entry.1 entry.2) s

end Poller

/-! ### Steps -/

/-- What happens to a poller: the clock goes on, it is started and stopped, its loop wakes up, a
cycle begins, gets its response or is interrupted by an exception; and the manager gets
subscriptions, registers, updates and forgets devices and learns their limits. It happens between the steps of
the cycles: a listener that stops the poller from within one is left out. -/
inductive PollEvent (κ : Type) where
  | elapse (time : ℚ≥0)
  | start
  | stop
  | wake (drift : κ → ℚ≥0)
  | begin (task : Nat)
  | respond (task : Nat) (response : Option ℚ)
  | interrupt (task : Nat) (exn : Exn)
  | subscription (call : SubscriptionCall κ)
  | register (key : κ) (classCode : Nat) (node : NodeState)
  | change (key : κ) (node : NodeState)
  | forget (key : κ)
  | learn (key : κ) (capacity : Option Nat)

/-- A cancelled task ends with the exception as soon as it is resumed, also before it begins. -/
def Poller.step (s : Poller κ) : PollEvent κ → Option (Poller κ)
  | .elapse time => some {s with now := s.now+time}
  | .start => some {s with running := true}
  | .stop => some s.stop
  | .wake drift => if s.running then some (s.cleanupStale.schedulePolls drift) else none
  | .begin task =>
    match s.tasks[task]? with
    | some ⟨key,.created epcs,cancelled⟩ =>
      if cancelled then some (s.setStage task (.ended (.raised .cancelledError)))
      else
        let (t,i) := s.getState key
        some (t.nextChunk task i key epcs)
    | _ => none
  | .respond task response =>
    match s.tasks[task]? with
    | some ⟨key,.awaiting i _ remaining,false⟩ =>
      let t := s.observe i key response
      match response with
      | none => some (t.setStage task (.ended .unanswered))
      | some _ => some (t.nextChunk task i key remaining)
    | _ => none
  | .interrupt task exn =>
    match s.tasks[task]? with
    | some ⟨_,.awaiting _ _ _,_⟩ => some (s.setStage task (.ended (.raised exn)))
    | _ => none
  | .subscription call => (s.subscriptions.step call).map fun subscriptions => {s with subscriptions}
  | .register key classCode node =>
    some {s with
      data := Dict.insert key {node with classCode} s.data
      notices := s.notices ++ [.registered key]}
  | .change key node =>
    (Dict.get key s.data).map fun old =>
      {s with data := Dict.insert key {old with toNodeState := node} s.data}
  | .forget key => some {s with data := s.data.filter fun e => decide (e.1 ≠ key)}
  | .learn key capacity => some {s with capacity := Function.update s.capacity key capacity}

end Pyhems.Poll

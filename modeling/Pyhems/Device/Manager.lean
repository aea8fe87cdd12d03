import Pyhems.Device.NodeState
import Pyhems.Library.Transition

/-! The device manager: received frames and instance lists, the job task of every node, the setup
of a device object, and `async_stop`. Only one task runs at a time, from the end of an await to
the next one. `running` names it while it has not reached its next await, and no other
task gets a turn before that. -/
namespace Pyhems.Device
open Protocol Library Pyhems.Runtime
open Get (Epc manufacturerCodeEpc)

/-- `_device_key`: a node and an object of it. -/
abbrev DeviceKey := NodeId × EOJ

def maxDeferredFrames : Nat := 64

structure Config where
  monitoredEpcs : EpcSelection
  fastEpcs : EpcSelection
  bindings : CollectionBindings

/-- The jobs that `_enqueue_node_job` is given. -/
inductive Job where
  | processInstanceList (nodeId : NodeId) (instances : List EOJ)
  | recoverAndNotify (key : DeviceKey)
  deriving DecidableEq

/-- Where `_setup_device` stands: `registered` and `recovered` lie between two awaits, the others
are the awaits themselves, with what the code after them goes by. -/
inductive SetupStage where
  | manufacturerCode
  | properties (code : Nat) (initial : Finset Epc)
  | registered
  | recovery (written : List Property)
  | recovered
  | notification
  deriving DecidableEq

/-- What a job is doing. `remaining` is what the loop of `process_instance_list_event` has still
before it, and `written` the SetC that `_recover_and_notify` awaits. -/
inductive Activity where
  | idle
  | listing (nodeId : NodeId) (remaining : List EOJ)
  | setup (key : DeviceKey) (stage : SetupStage) (remaining : List EOJ)
  | recovering (key : DeviceKey) (written : Option (List Property))
  deriving DecidableEq

/-- What a task runs. `created` is a `_run_node_jobs` before its first step; `jobs` runs jobs, as a
node's worker with the deque that it took, or for one direct call. -/
inductive Routine where
  | created (nodeId : NodeId)
  | jobs (worker : Option (NodeId × Nat)) (activity : Activity)
  | consumer
  | refresh (key : DeviceKey) (epcs : List Epc) (reading : Bool)
  | setting (key : DeviceKey) (properties : List Property) (refresh : Bool)
  | ended
  deriving DecidableEq

structure Task where
  routine : Routine
  cancelRequested : Bool := false

/-- What `async_stop` awaits: cancelled workers, then refresh tasks, then the consumer. -/
inductive StopPhase where
  | workers (awaited : List Nat)
  | refreshes (awaited : List Nat)
  | consumer (task : Nat)
  deriving DecidableEq

inductive DeviceEvent where
  | deviceAdded (key : DeviceKey)
  | propertiesChanged (key : DeviceKey) (epcs : Finset Epc)
  deriving DecidableEq

/-- The calls of the client. `recovery` is the SetC of a range recovery, and `setProperties` the one
of a caller. -/
inductive ManagerRequest where
  | readManufacturerCode (key : DeviceKey)
  | setupGet (key : DeviceKey) (epcs : List Epc)
  | recovery (key : DeviceKey) (properties : List Property)
  | infRequest (key : DeviceKey) (epcs : List Epc)
  | refreshGet (key : DeviceKey) (epcs : List Epc)
  | setProperties (key : DeviceKey) (properties : List Property)
  deriving DecidableEq

/-- What an await gives. The manufacturer code comes from an answer, or was remembered; `woken` is
the first step of a task and the end of a sleep. -/
inductive Outcome where
  | woken
  | manufacturer (answer : Option Get.Attempt)
  | properties (result : Except Exn (List Property))
  | reply (reply : Reply)

/-- A value frame that found its object unregistered, and the job task of its node then. -/
structure HandledFrame where
  key : DeviceKey
  frame : Frame
  jobTask : Option Nat
  deriving DecidableEq

/-- `stopping` is set while `async_stop` is suspended. Tasks and deques are objects, numbered as they
are created. From `enqueued` on the fields are a record of the run that no code reads: the jobs of
a node that were enqueued and started and how many returned, the value frames for unregistered
objects, the EDTs of 0x8A that a code was taken from, and the answers to the setup reads and to
INF_REQ. -/
structure Manager where
  data : DeviceKey → Option NodeState := fun _ => none
  pendingSetups : Finset DeviceKey := ∅
  nodeJobs : AList (fun _ : NodeId => Nat) := ∅
  nodeWorkers : AList (fun _ : NodeId => Nat) := ∅
  deferredFrames : DeviceKey → List Frame := fun _ => []
  eventQueue : List RuntimeEvent := []
  subscribed : Bool := false
  eventConsumerTask : Option Nat := none
  refreshTasks : List Nat := []
  stopping : Option StopPhase := none
  tasks : List Task := []
  running : Option Nat := none
  deques : NodeId × Nat → List Job := fun _ => []
  dequeCount : Nat := 0
  manufacturerCodes : DeviceKey → Option Nat := fun _ => none
  emitted : List DeviceEvent := []
  requests : List ManagerRequest := []
  enqueued : NodeId → List Job := fun _ => []
  started : NodeId → List Job := fun _ => []
  finished : NodeId → Nat := fun _ => 0
  handled : List HandledFrame := []
  identified : List (DeviceKey × Bytes) := []
  setupReads : List (DeviceKey × List Property) := []
  infAnswers : List (DeviceKey × Frame) := []

/-- `advance` is the running task on its way to its next await. `processFrame`,
`processInstanceList` and `setProperties` are calls from outside, `identify` and `forget` what the
client learns and drops on its own. -/
inductive ManagerEvent where
  | start
  | stop
  | stopResumes
  | received (event : RuntimeEvent)
  | consume
  | advance
  | resume (task : Nat) (outcome : Outcome)
  | cancel (task : Nat)
  | processFrame (key : DeviceKey) (frame : Frame)
  | processInstanceList (nodeId : NodeId) (instances : List EOJ)
  | setProperties (key : DeviceKey) (properties : List Property) (refresh : Bool)
  | discardRefresh (task : Nat)
  | identify (key : DeviceKey) (attempt : Get.Attempt)
  | forget (key : DeviceKey)

/-- The node whose jobs the routine runs as its worker. -/
def Routine.workerOf : Routine → Option NodeId
  | .created nodeId => some nodeId
  | .jobs (some (nodeId,_)) _ => some nodeId
  | _ => none

/-- `EPC` values that a setup always reads. -/
def baseEpcs : List Epc :=
  [EPC.infPropertyMap,EPC.setPropertyMap,EPC.getPropertyMap,EPC.productCode,EPC.serialNumber]

def sorted (epcs : Finset Epc) : List Epc := epcs.sort (· ≤ ·)

/-- The dict of the values read, with the manufacturer code. -/
def setupValues (manufacturerCode : Bytes) (props : List Property) : Values :=
  LastWrite.writeAll (fun _ => none)
    (writesOf (props.filter fun prop => decide (prop.edt ≠ []))
      ++ [(manufacturerCodeEpc,manufacturerCode)])

/-- The part of `_setup_device` between its reads and the registration; none if a property map is
missing or invalid. -/
def setupNode (config : Config) (key : DeviceKey) (code : Nat) (initial : Finset Epc)
    (props : List Property) : Except Exn (Option NodeState) := do
  let properties := setupValues (← toBytes code 3) props
  match extractPropertyMaps properties with
  | (some getEpcs,some setEpcs,some infEpcs) =>
    let fastCandidateEpcs := initial ∩ (← selectEpcs config.fastEpcs key.2.classCode code)
    let (pollEpcs,fastPollEpcs) := computePollEpcs initial getEpcs fastCandidateEpcs ∅
    pure (some
      {properties, manufacturerCode := code, getEpcs, setEpcs, infEpcs, pollEpcs, fastPollEpcs,
       monitoredEpcs := initial, fastCandidateEpcs, infRequestEpcs := initial ∩ infEpcs})
  | _ => pure none

/-- What `_send_initial_notification` makes of the answer. -/
def NodeState.notified (node : NodeState) (result : InfRequestResult) : NodeState :=
  let (pollEpcs,fastPollEpcs) :=
    computePollEpcs node.monitoredEpcs node.getEpcs node.fastCandidateEpcs result.notifiedEpcs
  {node with infNotifiedEpcs := result.notifiedEpcs,
             infUnconfirmedEpcs := result.rejectedEpcs ∪ result.unansweredEpcs,
             pollEpcs, fastPollEpcs}

namespace Manager

/-! ### Tasks and jobs -/

def setTask (s : Manager) (task : Nat) (routine : Routine) : Manager :=
  {s with tasks := s.tasks.set task {routine}}

/-- `asyncio.create_task`; the new task has the next number. -/
def createTask (s : Manager) (routine : Routine) : Manager := {s with tasks := s.tasks ++ [{routine}]}

def proceed (s : Manager) (task : Nat) (routine : Routine) : Manager :=
  {s.setTask task routine with running := some task}

/-- The task has reached an await, or its end. -/
def suspend (s : Manager) (task : Nat) (routine : Routine) : Manager :=
  {s.setTask task routine with running := none}

def cancelTasks (s : Manager) (cancelled : List Nat) : Manager :=
  {s with tasks := s.tasks.mapIdx fun task t =>
    {t with cancelRequested := t.cancelRequested || decide (task ∈ cancelled)}}

def done (s : Manager) (task : Nat) : Bool :=
  match s.tasks[task]? with
  | some t => decide (t.routine = .ended)
  | none => true

/-- The live worker of a node, looked for among the tasks themselves. -/
def jobTask (s : Manager) (nodeId : NodeId) : Option Nat :=
  s.tasks.findIdx? fun t => decide (t.routine.workerOf = some nodeId)

/-- `self._node_jobs.setdefault(node_id, deque()).append(job)`. -/
def appendJob (s : Manager) (nodeId : NodeId) (job : Job) : Manager :=
  let s := {s with enqueued := Function.update s.enqueued nodeId (s.enqueued nodeId ++ [job])}
  match s.nodeJobs.lookup nodeId with
  | some deque =>
    {s with deques := Function.update s.deques (nodeId,deque) (s.deques (nodeId,deque) ++ [job])}
  | none =>
    {s with nodeJobs := s.nodeJobs.insert nodeId s.dequeCount,
            deques := Function.update s.deques (nodeId,s.dequeCount) [job],
            dequeCount := s.dequeCount+1}

def enqueueNodeJob (s : Manager) (nodeId : NodeId) (job : Job) : Manager :=
  let s := s.appendJob nodeId job
  if nodeId ∈ s.nodeWorkers then s
  else {s.createTask (.created nodeId) with nodeWorkers := s.nodeWorkers.insert nodeId s.tasks.length}

/-- `finally` of `_run_node_jobs`. -/
def endWorker (s : Manager) (task : Nat) (nodeId : NodeId) : Manager :=
  {s with nodeJobs := s.nodeJobs.erase nodeId,
          nodeWorkers := s.nodeWorkers.erase nodeId,
          deferredFrames := fun key =>
            if key.1 = nodeId ∧ (s.data key).isNone then [] else s.deferredFrames key}.suspend task .ended

/-- A job that returns or raises; a worker then looks for its next job. -/
def finishJob (s : Manager) (task : Nat) (worker : Option (NodeId × Nat)) : Manager :=
  (match worker with
    | some (nodeId,_) => {s with finished := Function.update s.finished nodeId (s.finished nodeId+1)}
    | none => s).proceed task (.jobs worker .idle)

def request (s : Manager) (request : ManagerRequest) : Manager :=
  {s with requests := s.requests ++ [request]}

def emit (s : Manager) (event : DeviceEvent) : Manager := {s with emitted := s.emitted ++ [event]}

/-! ### Frames -/

def notifyPropertiesChanged (s : Manager) (key : DeviceKey) (epcs : Finset Epc) : Manager :=
  if epcs = ∅ then s else s.emit (.propertiesChanged key epcs)

def putNode (s : Manager) (key : DeviceKey) (node : NodeState) : Manager :=
  {s with data := Function.update s.data key (some node)}

/-- A range that is unset is recovered by a job of the node. -/
def checkRanges (config : Config) (s : Manager) (key : DeviceKey) (node : NodeState) : Manager :=
  if collectionRangeRecoveryProperties (config.bindings.get key.2.classCode) node = [] then s
  else s.enqueueNodeJob key.1 (.recoverAndNotify key)

def applyFrame (config : Config) (s : Manager) (key : DeviceKey) (node : NodeState) (frame : Frame) :
    Manager :=
  if frame.esv ∉ valueEsvs then s
  else
    let written := writeProperties node.properties frame.properties
    let node := {node with properties := written.1}
    ((s.putNode key node).checkRanges config key node).notifyPropertiesChanged key written.2

/-- The loop of `_apply_deferred_frames`. -/
def applyFrames (config : Config) (s : Manager) (key : DeviceKey) (frames : List Frame) : Manager :=
  frames.foldl (fun s frame =>
    match s.data key with
    | some node => s.applyFrame config key node frame
    | none => s) s

/-- `process_frame_event` for an object that is not registered. -/
def deferFrame (s : Manager) (key : DeviceKey) (frame : Frame) : Manager :=
  let deferred := s.deferredFrames key
  if key.1 ∈ s.nodeWorkers ∧ deferred.length < maxDeferredFrames then
    {s with deferredFrames := Function.update s.deferredFrames key (deferred ++ [frame])}
  else s

/-- Record a value frame for an object that is not registered. -/
def recordFrame (s : Manager) (key : DeviceKey) (frame : Frame) : Manager :=
  if frame.esv ∈ valueEsvs then {s with handled := s.handled ++ [⟨key,frame,s.jobTask key.1⟩]} else s

def processFrameEvent (config : Config) (s : Manager) (key : DeviceKey) (frame : Frame) : Manager :=
  if frame.esv ∈ requestEsvs then s
  else
    match s.data key with
    | some node => s.applyFrame config key node frame
    | none => (s.deferFrame key frame).recordFrame key frame

/-- One event of `_consume_runtime_events`. -/
def consumeEvent (config : Config) (s : Manager) : RuntimeEvent → Manager
  | .frame _ frame nodeId eoj => s.processFrameEvent config (nodeId,eoj) frame
  | .instanceList _ instances nodeId =>
    s.enqueueNodeJob nodeId (.processInstanceList nodeId instances)

/-! ### Setup -/

section Setup
variable (config : Config) (s : Manager) (task : Nat) (worker : Option (NodeId × Nat))
  (key : DeviceKey) (remaining : List EOJ)

/-- A new key: `setup_device` up to the read of the manufacturer code. -/
def beginSetup : Manager :=
  ({s with pendingSetups := insert key s.pendingSetups}.request (.readManufacturerCode key)).suspend
    task (.jobs worker (.setup key .manufacturerCode remaining))

/-- `setup_device` returns, and the loop over the instances goes on. -/
def endSetup : Manager :=
  {s with pendingSetups := s.pendingSetups.erase key}.proceed task
    (.jobs worker (.listing key.1 remaining))

/-- `CancelledError` at an await of a job: no handler catches it. -/
def interrupt (activity : Activity) : Manager :=
  let s := match activity with
    | .setup key _ _ => {s with pendingSetups := s.pendingSetups.erase key}
    | _ => s
  match worker with
  | some (nodeId,_) => s.endWorker task nodeId
  | none => s.suspend task .ended

/-- An exception at an await of a job: `setup_device` catches it for a setup, and the worker for
another job. -/
def raise (activity : Activity) (exn : Exn) : Manager :=
  match exn,activity with
  | .cancelledError,activity => s.interrupt task worker activity
  | _,.setup key _ remaining => s.endSetup task worker key remaining
  | _,_ => s.finishJob task worker

/-- `_read_manufacturer_code` for the attempt that its request gave. -/
def readManufacturerCode (attempt : Get.Attempt) : Except Exn Nat × Manager :=
  match Get.readManufacturerCode attempt {} with
  | .error exn => (.error exn,s)
  | .ok (none,_) => (.error (Get.unreadableManufacturer key.1 key.2),s)
  | .ok (some prop,_) =>
    let code := fromBytes (prop.edt.take 3)
    (.ok code,{s with manufacturerCodes := Function.update s.manufacturerCodes key (some code),
                      identified := s.identified ++ [(key,prop.edt)]})

/-- `_setup_device` from the manufacturer code to `setup_get`. -/
def requestProperties (code : Nat) : Manager :=
  match selectEpcs config.monitoredEpcs key.2.classCode code with
  | .error exn => s.raise task worker (.setup key .manufacturerCode remaining) exn
  | .ok initial =>
    let monitored := (initial \ baseEpcs.toFinset) \ {manufacturerCodeEpc}
    (s.request (.setupGet key (baseEpcs ++ sorted monitored))).suspend task
      (.jobs worker (.setup key (.properties code initial) remaining))

/-- `self.data[device_key] = node`, then the deferred frames. -/
def register (node : NodeState) : Manager :=
  let t := {s.putNode key node with deferredFrames := Function.update s.deferredFrames key []}
  (t.proceed task (.jobs worker (.setup key .registered remaining))).applyFrames config key
    (s.deferredFrames key)

/-- `_setup_device` with the properties read. -/
def setupRead (code : Nat) (initial : Finset Epc) (props : List Property) : Manager :=
  let s := {s with setupReads := s.setupReads ++ [(key,props)]}
  match setupNode config key code initial props with
  | .error exn => s.raise task worker (.setup key (.properties code initial) remaining) exn
  | .ok none => s.endSetup task worker key remaining
  | .ok (some node) => s.register config task worker key remaining node

/-- `_recover_uninitialized_collection_ranges` up to its SetC, if there is anything to write. -/
def beginRecovery : Manager × List Property :=
  match s.data key with
  | none => (s,[])
  | some node =>
    let properties := collectionRangeRecoveryProperties (config.bindings.get key.2.classCode) node
    if properties = [] then (s,[])
    else
      let attempted := node.rangeRecoveryAttemptedEpcs ∪ epcsOf properties
      ((s.putNode key {node with rangeRecoveryAttemptedEpcs := attempted}).request
        (.recovery key properties),properties)

/-- `_recover_uninitialized_collection_ranges` after its SetC: the EPCs whose value changed. -/
def endRecovery (written : List Property) (result : SetRequestResult) : Manager × Finset Epc :=
  match s.data key with
  | none => (s,∅)
  | some node =>
    if result.sent then
      let (properties,changed) :=
        applyAcceptedProperties node.properties written result.acceptedEpcs
      (s.putNode key {node with properties},changed)
    else (s,∅)

/-- The recovery within `_setup_device`. -/
def setupRecovery : Manager :=
  match s.beginRecovery config key with
  | (s,[]) => s.proceed task (.jobs worker (.setup key .recovered remaining))
  | (s,written) => s.suspend task (.jobs worker (.setup key (.recovery written) remaining))

/-- The recovery of `_recover_and_notify`. -/
def jobRecovery : Manager :=
  match s.beginRecovery config key with
  | (s,[]) => s.finishJob task worker
  | (s,written) => s.suspend task (.jobs worker (.recovering key (some written)))

/-- The end of a successful setup. -/
def announce : Manager :=
  (s.emit (.deviceAdded key)).endSetup task worker key remaining

/-- `_send_initial_notification` up to its INF_REQ. -/
def sendInitialNotification : Option Manager :=
  (s.data key).map fun node =>
    if node.infRequestEpcs = ∅ then s.announce task worker key remaining
    else
      (s.request (.infRequest key (sorted node.infRequestEpcs))).suspend task
        (.jobs worker (.setup key .notification remaining))

/-- `_send_initial_notification` after its INF_REQ. -/
def setupNotified (reply : Reply) : Option Manager :=
  (s.data key).map fun node =>
    match requestNotifications (sorted node.infRequestEpcs) reply with
    | .error exn => s.raise task worker (.setup key .notification remaining) exn
    | .ok result =>
      {s.putNode key (node.notified result) with
        infAnswers := s.infAnswers ++ (reply.frame.map fun frame => (key,frame)).toList}.announce
          task worker key remaining

/-- The recovery within `_setup_device`, after its SetC. -/
def setupRecovered (written : List Property) (reply : Reply) : Manager :=
  match Pyhems.Runtime.setProperties written reply with
  | .error exn => s.raise task worker (.setup key (.recovery written) remaining) exn
  | .ok result =>
    (s.endRecovery key written result).1.proceed task (.jobs worker (.setup key .recovered remaining))

/-- The recovery of `_recover_and_notify`, after its SetC. -/
def jobRecovered (written : List Property) (reply : Reply) : Manager :=
  match Pyhems.Runtime.setProperties written reply with
  | .error exn => s.raise task worker (.recovering key (some written)) exn
  | .ok result =>
    let (s,changed) := s.endRecovery key written result
    (s.notifyPropertiesChanged key changed).finishJob task worker

/-- `_setup_device` with what `read_manufacturer_code` gave: a remembered code, or an answer. -/
def setupIdentified : Option Get.Attempt → Option Manager
  | none => (s.manufacturerCodes key).map fun code =>
    s.requestProperties config task worker key remaining code
  | some attempt =>
    match s.readManufacturerCode key attempt with
    | (.error exn,s) => some (s.raise task worker (.setup key .manufacturerCode remaining) exn)
    | (.ok code,s) => some (s.requestProperties config task worker key remaining code)

end Setup

/-! ### Steps -/

/-- The running task on its way to its next await. -/
def advance (config : Config) (s : Manager) (task : Nat) (worker : Option (NodeId × Nat)) :
    Activity → Option Manager
  | .idle =>
    match worker with
    | none => some (s.suspend task .ended)
    | some (nodeId,deque) =>
      match s.deques (nodeId,deque) with
      | [] => some (s.endWorker task nodeId)
      | job :: jobs =>
        let activity := match job with
          | .processInstanceList nodeId instances => Activity.listing nodeId instances
          | .recoverAndNotify key => .recovering key none
        some ({s with deques := Function.update s.deques (nodeId,deque) jobs,
                      started := Function.update s.started nodeId (s.started nodeId ++ [job])}.proceed
          task (.jobs worker activity))
  | .listing _ [] => some (s.finishJob task worker)
  | .listing nodeId (eoj :: remaining) =>
    if (s.data (nodeId,eoj)).isSome ∨ (nodeId,eoj) ∈ s.pendingSetups then
      some (s.proceed task (.jobs worker (.listing nodeId remaining)))
    else some (s.beginSetup task worker (nodeId,eoj) remaining)
  | .setup key .registered remaining => some (s.setupRecovery config task worker key remaining)
  | .setup key .recovered remaining => s.sendInitialNotification task worker key remaining
  | .recovering key none => some (s.jobRecovery config task worker key)
  | _ => none

def resumeJob (config : Config) (s : Manager) (task : Nat) (worker : Option (NodeId × Nat)) :
    Activity → Outcome → Option Manager
  | .setup key .manufacturerCode remaining, .manufacturer answer =>
    s.setupIdentified config task worker key remaining answer
  | .setup key (.properties code initial) remaining, .properties (.ok props) =>
    some (s.setupRead config task worker key remaining code initial props)
  | .setup key (.properties code initial) remaining, .properties (.error exn) =>
    some (s.raise task worker (.setup key (.properties code initial) remaining) exn)
  | .setup key (.recovery written) remaining, .reply reply =>
    some (s.setupRecovered task worker key remaining written reply)
  | .setup key .notification remaining, .reply reply =>
    s.setupNotified task worker key remaining reply
  | .recovering key (some written), .reply reply => some (s.jobRecovered task worker key written reply)
  | _, _ => none

def scheduleRefresh (s : Manager) (key : DeviceKey) (node : NodeState) (epcs : Finset Epc) : Manager :=
  let readable := sorted (epcs ∩ node.getEpcs)
  if readable = [] then s
  else {s.createTask (.refresh key readable false) with refreshTasks := s.refreshTasks ++ [s.tasks.length]}

/-- `if refresh and result.accepted_epcs: self._schedule_refresh(...)`. -/
def refreshAccepted (s : Manager) (key : DeviceKey) (node : NodeState) (refresh : Bool)
    (acceptedEpcs : Finset Epc) : Manager :=
  if refresh ∧ acceptedEpcs ≠ ∅ then s.scheduleRefresh key node acceptedEpcs else s

/-- `set_properties` with the result of the client. -/
def propertiesSet (s : Manager) (key : DeviceKey) (properties : List Property) (refresh : Bool)
    (result : SetRequestResult) : Manager :=
  match s.data key with
  | none => s
  | some node =>
    if !result.sent then s
    else
      let written := applyAcceptedProperties node.properties properties result.acceptedEpcs
      let node := {node with properties := written.1}
      ((s.putNode key node).notifyPropertiesChanged key written.2).refreshAccepted key node refresh
        result.acceptedEpcs

/-- A task that runs no jobs yet goes on from its await. -/
def resumeOther (s : Manager) (task : Nat) : Routine → Outcome → Option Manager
  | .created nodeId, .woken =>
    match s.nodeJobs.lookup nodeId with
    | some deque => some (s.proceed task (.jobs (some (nodeId,deque)) .idle))
    -- `self._node_jobs[node_id]` raises KeyError outside the `try`.
    | none => some (s.suspend task .ended)
  | .refresh key epcs false, .woken =>
    some ((s.request (.refreshGet key epcs)).suspend task (.refresh key epcs true))
  | .refresh _ _ true, .properties _ => some (s.suspend task .ended)
  | .setting key properties refresh, .reply reply =>
    match Pyhems.Runtime.setProperties properties reply with
    | .error _ => some (s.suspend task .ended)
    | .ok result => some ((s.propertiesSet key properties refresh result).suspend task .ended)
  | _, _ => none

/-- A task goes on from its await. A cancelled one ends there, whatever it awaited; a worker that is
cancelled before its first step has no `finally` to run. -/
def resume (config : Config) (s : Manager) (task : Nat) (t : Task) (outcome : Outcome) :
    Option Manager :=
  match t.routine with
  | .jobs worker activity =>
    if t.cancelRequested then some (s.interrupt task worker activity)
    else s.resumeJob config task worker activity outcome
  | .ended => none
  | routine =>
    if t.cancelRequested then some (s.suspend task .ended) else s.resumeOther task routine outcome

/-- `async_start`. -/
def start (s : Manager) : Manager :=
  match s.eventConsumerTask with
  | some _ => s
  | none =>
    {s.createTask .consumer with eventConsumerTask := some s.tasks.length, eventQueue := [],
                                 subscribed := true}

/-- `async_stop` from the refresh tasks on. -/
def stopConsumer (s : Manager) : Manager :=
  let s := {s with refreshTasks := []}
  match s.eventConsumerTask with
  | none => {s with stopping := none}
  | some task => {s.cancelTasks [task] with stopping := some (.consumer task)}

/-- `async_stop` from the workers on. -/
def stopRefreshes (s : Manager) : Manager :=
  let s := {s with nodeWorkers := ∅, nodeJobs := ∅, deferredFrames := fun _ => []}
  let s := s.cancelTasks s.refreshTasks
  if s.refreshTasks = [] then s.stopConsumer
  else {s with stopping := some (.refreshes s.refreshTasks)}

/-- `async_stop` up to its first await that suspends. -/
def stop (s : Manager) : Manager :=
  let workers := s.nodeWorkers.entries.map Sigma.snd
  let s := {s with subscribed := false}.cancelTasks workers
  if workers = [] then s.stopRefreshes else {s with stopping := some (.workers workers)}

/-- `async_stop` goes on once what it awaits is done. -/
def stopResumes (s : Manager) : Option Manager :=
  match s.stopping with
  | some (.workers awaited) => if awaited.all s.done then some s.stopRefreshes else none
  | some (.refreshes awaited) => if awaited.all s.done then some s.stopConsumer else none
  | some (.consumer task) =>
    if s.done task then some {s with eventConsumerTask := none, eventQueue := [], stopping := none}
    else none
  | none => none

/-- The task is live and at an await. -/
def awaits (s : Manager) (task : Nat) : Bool :=
  match s.tasks[task]? with
  | some ⟨.created _,_⟩ => false
  | some ⟨.ended,_⟩ => false
  | some _ => true
  | none => false

def consume (config : Config) (s : Manager) : Option Manager :=
  match s.eventConsumerTask,s.eventQueue with
  | some task,event :: events =>
    match s.tasks[task]? with
    | some ⟨.consumer,false⟩ => some ({s with eventQueue := events}.consumeEvent config event)
    | _ => none
  | _,_ => none

/-- An event while no task is on its way. -/
def perform (config : Config) (s : Manager) : ManagerEvent → Option Manager
  | .start => some s.start
  | .stop => if s.stopping = none then some s.stop else none
  | .stopResumes => s.stopResumes
  | .received event => some (if s.subscribed then {s with eventQueue := s.eventQueue ++ [event]} else s)
  | .consume => s.consume config
  | .advance => none
  | .resume task outcome => s.tasks[task]?.bind fun t => s.resume config task t outcome
  | .cancel task => if s.awaits task then some (s.cancelTasks [task]) else none
  | .processFrame key frame => some (s.processFrameEvent config key frame)
  | .processInstanceList nodeId instances =>
    let t := s.createTask (.jobs none (.listing nodeId instances))
    some {t with running := some s.tasks.length}
  | .setProperties key properties refresh =>
    some ((s.createTask (.setting key properties refresh)).request (.setProperties key properties))
  | .discardRefresh task =>
    if s.done task then some {s with refreshTasks := s.refreshTasks.erase task} else none
  | .identify key attempt => some (s.readManufacturerCode key attempt).2
  | .forget key => some {s with manufacturerCodes := Function.update s.manufacturerCodes key none}

def step (config : Config) (s : Manager) (event : ManagerEvent) : Option Manager :=
  match s.running,event with
  | some task,.advance =>
    match s.tasks[task]? with
    | some ⟨.jobs worker activity,_⟩ => s.advance config task worker activity
    | _ => none
  | some _,_ => none
  | none,event => s.perform config event

end Manager

end Pyhems.Device

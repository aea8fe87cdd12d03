import Pyhems.Device.Manager
import Pyhems.Library.Simulation

/-! The job tasks of a manager, apart from what the jobs are about: who works for which node, what is
queued, what is deferred for objects that are not registered, and how far `async_stop` is. -/
namespace Pyhems.Device
open Protocol Library Pyhems.Runtime

/-- What a live task is to the jobs: a worker before its first step, a worker with its deque and
whether a job of it is started, a task of `set_properties` or of a direct call (`outside`), or one of
the other two kinds. -/
inductive Post where
  | created (nodeId : NodeId)
  | worker (nodeId : NodeId) (deque : Nat) (busy : Bool)
  | outside
  | refresh
  | consumer
  deriving DecidableEq

/-- The node that the task works for. -/
def Post.nodeId : Post → Option NodeId
  | .created nodeId => some nodeId
  | .worker nodeId _ _ => some nodeId
  | _ => none

/-- A worker between two jobs. -/
def Post.isIdle : Post → Bool
  | .worker _ _ busy => !busy
  | _ => false

/-- `posts` gives the live tasks with their cancel requests, `count` the number of the next task, and
the other fields are the manager's. -/
@[ext] structure Crew where
  posts : Nat → Option (Post × Bool) := fun _ => none
  count : Nat := 0
  running : Option Nat := none
  nodeJobs : NodeId → Option Nat := fun _ => none
  nodeWorkers : NodeId → Option Nat := fun _ => none
  deques : NodeId × Nat → List Job := fun _ => []
  dequeCount : Nat := 0
  deferredFrames : DeviceKey → List Frame := fun _ => []
  registered : DeviceKey → Bool := fun _ => false
  refreshTasks : List Nat := []
  eventConsumerTask : Option Nat := none
  stopping : Option StopPhase := none
  enqueued : NodeId → List Job := fun _ => []
  started : NodeId → List Job := fun _ => []
  finished : NodeId → Nat := fun _ => 0
  handled : List HandledFrame := []

namespace Crew

def setPost (d : Crew) (task : Nat) (post : Option (Post × Bool)) : Crew :=
  {d with posts := Function.update d.posts task post}

def create (d : Crew) (post : Post) : Crew :=
  {d.setPost d.count (some (post,false)) with count := d.count+1}

def cancelTasks (d : Crew) (cancelled : List Nat) : Crew :=
  {d with posts := fun task =>
    (d.posts task).map fun post => (post.1,post.2 || decide (task ∈ cancelled))}

def Works (d : Crew) (nodeId : NodeId) (task : Nat) : Prop :=
  ∃ post c, d.posts task = some (post,c) ∧ post.nodeId = some nodeId

def queued (d : Crew) (nodeId : NodeId) : List Job :=
  match d.nodeJobs nodeId with
  | some deque => d.deques (nodeId,deque)
  | none => []

def appendJob (d : Crew) (nodeId : NodeId) (job : Job) : Crew :=
  let d := {d with enqueued := Function.update d.enqueued nodeId (d.enqueued nodeId ++ [job])}
  match d.nodeJobs nodeId with
  | some deque =>
    {d with deques := Function.update d.deques (nodeId,deque) (d.deques (nodeId,deque) ++ [job])}
  | none =>
    {d with nodeJobs := Function.update d.nodeJobs nodeId (some d.dequeCount),
            deques := Function.update d.deques (nodeId,d.dequeCount) [job],
            dequeCount := d.dequeCount+1}

def hire (d : Crew) (nodeId : NodeId) : Crew :=
  {d.create (.created nodeId) with
    nodeWorkers := Function.update d.nodeWorkers nodeId (some d.count)}

/-- The worker of the node is gone, and with it its entries. -/
def dismiss (d : Crew) (task : Nat) (nodeId : NodeId) : Crew :=
  {d.setPost task none with
    nodeJobs := Function.update d.nodeJobs nodeId none,
    nodeWorkers := Function.update d.nodeWorkers nodeId none,
    deferredFrames := fun key =>
      if key.1 = nodeId ∧ d.registered key = false then [] else d.deferredFrames key,
    running := none}

def defer (d : Crew) (key : DeviceKey) (frame : Frame) : Crew :=
  if (d.nodeWorkers key.1).isSome ∧ (d.deferredFrames key).length < maxDeferredFrames then
    {d with deferredFrames := Function.update d.deferredFrames key (d.deferredFrames key ++ [frame])}
  else d

def record (d : Crew) (key : DeviceKey) (frame : Frame) (jobTask : Option Nat) : Crew :=
  if frame.esv ∈ valueEsvs then {d with handled := d.handled ++ [⟨key,frame,jobTask⟩]} else d

/-- No worker, refresh task or consumer is left. -/
def Quiet (d : Crew) : Prop := ∀ task post c, d.posts task = some (post,c) → post = .outside

/-- The turn of a task: no other is on its way. -/
def Turn (d : Crew) (task : Nat) : Prop := d.running = none ∨ d.running = some task

/-- What happens to the job tasks. `cancels` permits cancelled tasks and `async_stop`, and `drops` that
a value frame finds its deferred list full. -/
inductive Move (cancels drops : Prop) : Crew → Crew → Prop where
  | turn (d) (task : Nat) (post : Post) (running : Option Nat) (hturn : d.Turn task)
      (hpost : d.posts task = some (post,false))
      (hrunning : running = some task ∨ running = none ∧ post.isIdle = false) :
      Move cancels drops d {d with running}
  | leave (d) (task : Nat) (post : Post) (c : Bool) (hturn : d.Turn task)
      (hpost : d.posts task = some (post,c)) (hworker : post.nodeId = none) :
      Move cancels drops d {d.setPost task none with running := none}
  | take (d) (task : Nat) (nodeId : NodeId) (deque : Nat) (hturn : d.Turn task)
      (hpost : d.posts task = some (.created nodeId,false)) (hjobs : d.nodeJobs nodeId = some deque) :
      Move cancels drops d
        {d.setPost task (some (.worker nodeId deque false,false)) with running := some task}
  | start (d) (task : Nat) (nodeId : NodeId) (deque : Nat) (job : Job) (jobs : List Job)
      (hturn : d.Turn task) (hpost : d.posts task = some (.worker nodeId deque false,false))
      (hdeque : d.deques (nodeId,deque) = job :: jobs) :
      Move cancels drops d {d.setPost task (some (.worker nodeId deque true,false)) with
        deques := Function.update d.deques (nodeId,deque) jobs,
        started := Function.update d.started nodeId (d.started nodeId ++ [job]),
        running := some task}
  | finish (d) (task : Nat) (nodeId : NodeId) (deque : Nat) (hturn : d.Turn task)
      (hpost : d.posts task = some (.worker nodeId deque true,false)) :
      Move cancels drops d {d.setPost task (some (.worker nodeId deque false,false)) with
        finished := Function.update d.finished nodeId (d.finished nodeId+1),
        running := some task}
  | dismiss (d) (task : Nat) (nodeId : NodeId) (deque : Nat) (busy c : Bool) (hturn : d.Turn task)
      (hpost : d.posts task = some (.worker nodeId deque busy,c))
      (hends : cancels ∨ busy = false ∧ d.deques (nodeId,deque) = []) :
      Move cancels drops d (d.dismiss task nodeId)
  | abandon (d) (task : Nat) (nodeId : NodeId) (c : Bool) (hturn : d.Turn task)
      (hpost : d.posts task = some (.created nodeId,c))
      (hends : cancels ∧ c = true ∨ d.nodeJobs nodeId = none) :
      Move cancels drops d {d.setPost task none with running := none}
  | append (d) (nodeId : NodeId) (job : Job) (hworker : (d.nodeWorkers nodeId).isSome) :
      Move cancels drops d (d.appendJob nodeId job)
  | hire (d) (nodeId : NodeId) (job : Job) (hworker : d.nodeWorkers nodeId = none)
      (hfree : d.stopping = none) : Move cancels drops d ((d.appendJob nodeId job).hire nodeId)
  | call (d) : Move cancels drops d (d.create .outside)
  | refresh (d) (hfree : d.stopping = none) : Move cancels drops d
      {d.create .refresh with refreshTasks := d.refreshTasks ++ [d.count]}
  | listen (d) (hfree : d.stopping = none) (hconsumer : d.eventConsumerTask = none) :
      Move cancels drops d {d.create .consumer with eventConsumerTask := some d.count}
  | cancel (d) (cancelled : List Nat) (hcancels : cancels) (hturn : d.running = none)
      (hcreated : ∀ task ∈ cancelled, ∀ nodeId c, d.posts task ≠ some (.created nodeId,c)) :
      Move cancels drops d (d.cancelTasks cancelled)
  | handle (d) (key : DeviceKey) (frame : Frame) (jobTask : Option Nat) (hkey : d.registered key = false)
      (hjob : ∀ task, jobTask = some task → d.Works key.1 task)
      (hnone : jobTask = none → ∀ task, ¬ d.Works key.1 task)
      (hroom : drops ∨ (frame.esv ∈ valueEsvs → (d.nodeWorkers key.1).isSome →
        (d.deferredFrames key).length < maxDeferredFrames)) :
      Move cancels drops d ((d.defer key frame).record key frame jobTask)
  | register (d) (key : DeviceKey) : Move cancels drops d
      {d with registered := Function.update d.registered key true,
              deferredFrames := Function.update d.deferredFrames key []}
  | discard (d) (task : Nat) (hdone : d.posts task = none) :
      Move cancels drops d {d with refreshTasks := d.refreshTasks.erase task}
  | halt (d) (awaited : List Nat) (hcancels : cancels) (hturn : d.running = none)
      (hfree : d.stopping = none)
      (hall : ∀ nodeId task, d.nodeWorkers nodeId = some task → task ∈ awaited) :
      Move cancels drops d {d.cancelTasks awaited with stopping := some (.workers awaited)}
  | clear (d) (awaited : List Nat) (hcancels : cancels) (hturn : d.running = none)
      (hphase : d.stopping = some (.workers awaited)) (hdone : ∀ task ∈ awaited, d.posts task = none) :
      Move cancels drops d {d.cancelTasks d.refreshTasks with
        nodeWorkers := fun _ => none, nodeJobs := fun _ => none, deferredFrames := fun _ => [],
        stopping := some (.refreshes d.refreshTasks)}
  | settle (d) (awaited : List Nat) (task : Nat) (hcancels : cancels) (hturn : d.running = none)
      (hphase : d.stopping = some (.refreshes awaited)) (hdone : ∀ task ∈ awaited, d.posts task = none)
      (hconsumer : d.eventConsumerTask = some task) :
      Move cancels drops d {d.cancelTasks [task] with
        refreshTasks := [], stopping := some (.consumer task)}
  | settleUnstarted (d) (awaited : List Nat) (hcancels : cancels)
      (hphase : d.stopping = some (.refreshes awaited)) (hdone : ∀ task ∈ awaited, d.posts task = none)
      (hconsumer : d.eventConsumerTask = none) :
      Move cancels drops d {d with refreshTasks := [], stopping := none}
  | rest (d) (task : Nat) (hcancels : cancels) (hphase : d.stopping = some (.consumer task))
      (hdone : d.posts task = none) :
      Move cancels drops d {d with eventConsumerTask := none, stopping := none}

end Crew

end Pyhems.Device

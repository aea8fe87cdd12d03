import Pyhems.Get.Reads
import Pyhems.Library.Transition

/-! Many calls and poll cycles on one device object. Each is a task suspended at its one
await; the event that ends the await runs the task up to the next one. The calls
share the capability objects, and the client's entry names the current one. -/
namespace Pyhems.Get
open Protocol Library

/-- A request as it was sent, with the stored limit and the manufacturer code that its batch
was planned from. -/
structure Request where
  limit : Option Nat
  manufacturerCode : Option Nat
  batch : List Epc

/-- The callers of `_read_manufacturer_code`. -/
inductive Reader where
  | setupGet
  | get
  | readManufacturerCode
  deriving DecidableEq

/-- A task at its await, or at its end. `object` is the capability object that it holds. -/
inductive Task where
  | reading (reader : Reader) (object : Nat) (epcs : List Epc)
  | batching (probe : Bool) (object : Nat) (limit : Option Nat) (batch rest : List Epc) (vars : Vars)
  | polling (chunk remaining : List Epc)
  | finished (outcome : Except Exn Unit) (received : Received)

/-- The batch that the answer is awaited for. -/
def Task.awaits : Task → Option (List Epc)
  | .reading _ _ _ => some [manufacturerCodeEpc]
  | .batching _ _ _ batch _ _ => some batch
  | .polling chunk _ => some chunk
  | .finished _ _ => none

/-- The capability object that a task holds. -/
def Task.object : Task → Option Nat
  | .reading _ object _ => some object
  | .batching _ object _ _ _ _ => some object
  | _ => none

/-- `entry` is the object under the device's key in `_get_capabilities`, and `node` the
manufacturer code of the device in `DeviceManager.data`. `requests` and `failures` record
what was sent and what the planner raised. -/
structure Shared where
  objects : List GetCapability := []
  entry : Option Nat := none
  node : Option Nat := none
  tasks : List Task := []
  requests : List Request := []
  failures : List Exn := []

inductive Event where
  | setupGet (epcs : List Epc)
  | get (epcs : List Epc)
  | readManufacturerCode
  | runCycle (epcs : List Epc)
  | resume (task : Nat) (attempt : Attempt)
  | clear
  | register (manufacturerCode : Option Nat)

namespace Shared

def capability (s : Shared) (object : Nat) : GetCapability := s.objects.getD object {}

def limit (s : Shared) (object : Nat) : Option Nat := (s.capability object).observedBatchCapacity

def getObservedBatchCapacity (s : Shared) : Option Nat := s.entry.bind s.limit

/-- `self._get_capabilities.setdefault((node_id, deoj), _GetCapability())`. -/
def setdefault (s : Shared) : Shared × Nat :=
  match s.entry with
  | some object => (s,object)
  | none =>
    ({s with objects := s.objects ++ [{}], entry := some s.objects.length},s.objects.length)

/-- Record a request and leave the task at its await. -/
def send (s : Shared) (limit manufacturerCode : Option Nat) (batch : List Epc) (task : Task) :
    Shared × Task :=
  ({s with requests := s.requests ++ [⟨limit,manufacturerCode,batch⟩]},task)

def fail (s : Shared) (exn : Exn) (task : Task) : Shared × Task :=
  ({s with failures := s.failures ++ [exn]},task)

/-- `_read_manufacturer_code` up to its await. -/
def startReading (s : Shared) (reader : Reader) (object : Nat) (epcs : List Epc) : Shared × Task :=
  s.send (s.limit object) (s.capability object).manufacturerCode [manufacturerCodeEpc]
    (.reading reader object epcs)

/-- `_run_get_batches` up to its next await, from the loop head. -/
def runGetBatches (s : Shared) (classCode : Nat) (probe : Bool) (object : Nat) (vars : Vars) :
    Shared × Task :=
  match planBatch classCode (s.capability object) vars with
  | .done => (s,.finished (.ok ()) vars.received)
  | .failed exn => s.fail exn (.finished (.error exn) vars.received)
  | .request limit batch rest =>
    s.send limit (s.capability object).manufacturerCode batch
      (.batching probe object limit batch rest vars)

/-- The first loop head of `_run_get_batches`. -/
def startBatches (s : Shared) (classCode : Nat) (probe : Bool) (object : Nat) (epcs : List Epc)
    (received : Received) : Shared × Task :=
  s.runGetBatches classCode probe object ⟨FirstMatch.fromkeys (unread epcs received),none,received⟩

/-- `_run_cycle` up to its next await. -/
def runCycle (s : Shared) (classCode : Nat) (remaining : List Epc) : Shared × Task :=
  if remaining = [] then (s,.finished (.ok ()) (.single none))
  else
    match s.node with
    | none => (s,.finished (.ok ()) (.single none))
    | some code =>
      let capacity := s.getObservedBatchCapacity
      match takeFirstBatch remaining (some code) classCode capacity with
      | .error exn => s.fail exn (.finished (.error exn) (.single none))
      | .ok (chunk,remaining) =>
        if chunk = [] then (s,.finished (.ok ()) (.single none))
        else s.send capacity (some code) chunk (.polling chunk remaining)

def spawn (next : Shared × Task) : Shared := {next.1 with tasks := next.1.tasks ++ [next.2]}

def put (task : Nat) (next : Shared × Task) : Shared :=
  {next.1 with tasks := next.1.tasks.set task next.2}

/-- The part of each caller that follows `_read_manufacturer_code`. -/
def afterReading (nodeId : String) (deoj : EOJ) (s : Shared) (reader : Reader) (object : Nat)
    (epcs : List Epc) : Option Property → Shared × Task
  | none =>
    match reader with
    | .get => (s,.finished (.ok ()) (.single none))
    | _ => (s,.finished (.error (unreadableManufacturer nodeId deoj)) (.single none))
  | some manufacturer =>
    match reader with
    | .setupGet => s.startBatches deoj.classCode true object epcs (.single (some manufacturer))
    | .get => s.startBatches deoj.classCode false object epcs
        (.single (if manufacturerCodeEpc ∈ epcs then some manufacturer else none))
    | .readManufacturerCode => (s,.finished (.ok ()) (.single (some manufacturer)))

/-- The task runs from the end of its await to the next one. -/
def resume (nodeId : String) (target : Target) (s : Shared) (attempt : Attempt) : Task → Option (Shared × Task)
  | .reading reader object epcs =>
    match readManufacturerCode attempt (s.capability object) with
    | .error exn => some (s,.finished (.error exn) (.single none))
    | .ok (manufacturer,capability) =>
      some (afterReading nodeId target.deoj {s with objects := s.objects.set object capability}
        reader object epcs manufacturer)
  | .batching probe object limit batch rest vars =>
    match handleAttempt target probe limit batch rest (s.capability object) vars attempt with
    | .error exn => some (s,.finished (.error exn) vars.received)
    | .ok next =>
      some (runGetBatches {s with objects := s.objects.set object next.capability}
        target.deoj.classCode probe object next.vars)
  | .polling _ remaining =>
    match attempt with
    | .answered _ => some (s.runCycle target.deoj.classCode remaining)
    | .raised (.clientStoppedError _) => some (s,.finished (.ok ()) (.single none))
    | .raised exn => some (s,.finished (.error exn) (.single none))
    | _ => some (s,.finished (.ok ()) (.single none))
  | .finished _ _ => none

/-- One event. `clear` deletes the entry, as `stop` and a change of the node id do. -/
def step (nodeId : String) (target : Target) (s : Shared) : Event → Option Shared
  | .setupGet epcs =>
    let (s,object) := s.setdefault
    some (spawn (
      match (s.capability object).manufacturerCode with
      | none => s.startReading .setupGet object epcs
      | some _ => s.startBatches target.deoj.classCode true object epcs (.single none)))
  | .get epcs =>
    if epcs = [] then some (spawn (s,.finished (.ok ()) (.single none)))
    else
      let (s,object) := s.setdefault
      some (spawn (
        if (s.capability object).manufacturerCode.isNone &&
            hasGetBatchPolicyForClass target.deoj.classCode then s.startReading .get object epcs
        else s.startBatches target.deoj.classCode false object epcs (.single none)))
  | .readManufacturerCode =>
    let (s,object) := s.setdefault
    some (spawn (
      match (s.capability object).manufacturerCode with
      | none => s.startReading .readManufacturerCode object []
      | some _ => (s,.finished (.ok ()) (.single none))))
  | .runCycle epcs => some (spawn (s.runCycle target.deoj.classCode epcs))
  | .resume task attempt => (s.tasks[task]?.bind (resume nodeId target s attempt)).map (put task)
  | .clear => some {s with entry := none}
  | .register manufacturerCode => some {s with node := manufacturerCode}

end Shared

end Pyhems.Get

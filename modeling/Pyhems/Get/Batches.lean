import Mathlib.Logic.Function.Basic
import Pyhems.Get.BatchPolicy
import Pyhems.Library.FirstMatch
import Pyhems.Library.Loop
import Pyhems.Protocol.Frame

/-! The batch loop behind `setup_get` and `get`. A turn plans a batch from the learned limit,
sends it once, and rebuilds the queue from the answer. The device is an adversary
that sees the whole exchange so far. -/
namespace Pyhems.Get
open Protocol Library

/-- Observed GET response behavior for one device object. -/
structure GetCapability where
  observedBatchCapacity : Option Nat := none
  manufacturerCode : Option Nat := none
  deriving DecidableEq, Repr

/-- `_fix_batch_capacity`: record a limit, keeping the smallest value. -/
def fixBatchCapacity (capability : GetCapability) (capacity : Nat) : GetCapability :=
  match capability.observedBatchCapacity with
  | none => {capability with observedBatchCapacity := some capacity}
  | some previous =>
    if previous ≤ capacity then capability
    else {capability with observedBatchCapacity := some capacity}

/-- The device object that a run of requests is addressed to. -/
structure Target where
  address : String
  deoj : EOJ
  deriving DecidableEq, Repr

/-- How `_attempt_get_request` ended: it raised, the request was not sent, it was sent and
not answered, or it was answered with these properties. -/
inductive Attempt where
  | raised (exn : Exn)
  | notSent
  | unanswered
  | answered (properties : List Property)
  deriving DecidableEq, Repr

/-- The properties of a response; none if there was no response. -/
def Attempt.properties : Attempt → List Property
  | .answered properties => properties
  | _ => []

/-- The dictionary `received` from EPC to the property that was stored for it. -/
abbrev Received := Epc → Option Property

/-- `received.update((epc, prop) for epc, prop in matched.items() if prop.edt)`. -/
def Received.update (received : Received) (matched : List Property) : Received :=
  matched.foldl (fun received prop =>
    if prop.edt = [] then received else Function.update received prop.epc (some prop)) received

/-- The dictionary `matched` of one response, in insertion order. -/
def matchResponse (batch : List Epc) : Attempt → List Property
  | .answered properties => FirstMatch.collect Property.epc batch properties
  | _ => []

def formatEpcs (epcs : List Epc) : String := " ".intercalate (epcs.map (hexUpper 2))

structure Vars where
  queue : List Epc
  probeSize : Option Nat
  received : Received

/-- `size`: the batch size in force, from the stored limit and the local probe size. -/
def batchSize (limit probeSize : Option Nat) : Option Nat :=
  match probeSize with
  | none => limit
  | some probeSize =>
    match limit with
    | none => some probeSize
    | some limit => some (min limit probeSize)

/-- What one turn makes of an answer. `accepted` lists the EPCs taken from it; `retried`
tells that the whole batch was put back instead. -/
structure Handled where
  capability : GetCapability
  vars : Vars
  accepted : List Epc
  retried : Bool

/-- Split the batch in half and put it back in front of the queue. -/
def retryInHalves (capability : GetCapability) (vars : Vars) (batch rest : List Epc) : Handled :=
  ⟨capability,{vars with probeSize := some ((batch.length+1)/2), queue := batch ++ rest},[],true⟩

/-- The part of the loop body after the await. `limit` is the stored limit that was read
when the batch was planned; `capability` is the object as it is now. -/
def handleAttempt (target : Target) (probe : Bool) (limit : Option Nat) (batch rest : List Epc)
    (capability : GetCapability) (vars : Vars) (attempt : Attempt) : Except Exn Handled :=
  match attempt with
  | .raised exn => .error exn
  | .notSent => .error (.getAbortedError
      s!"Get request to {target.address} {target.deoj.repr} could not be sent")
  | attempt =>
    let n := batch.length
    let matched := matchResponse batch attempt
    let m := matched.length
    if matched = [] then
      if !probe || n == 1 then .error (.getAbortedError
        s!"Get request to {target.address} {target.deoj.repr} for EPCs [{formatEpcs batch}] was not answered")
      else .ok (retryInHalves capability vars batch rest)
    else if m < n then
      let omitted := batch.filter fun epc => decide (epc ∉ matched.map Property.epc)
      .ok ⟨if probe then fixBatchCapacity capability m else capability,
        ⟨omitted ++ rest,if probe then none else vars.probeSize,vars.received.update matched⟩,
        matched.map Property.epc,false⟩
    else if probe && matched.all (fun prop => decide (prop.edt = [])) && limit.isNone && decide (n > 1)
    then .ok (retryInHalves capability vars batch rest)
    else
      let fixes := probe && (vars.probeSize.isSome || (limit.isNone && decide (n > 1)))
      .ok ⟨if fixes then fixBatchCapacity capability n else capability,
        ⟨rest,if fixes then none else vars.probeSize,vars.received.update matched⟩,
        matched.map Property.epc,false⟩

/-- One request of a run and what the loop made of its answer. -/
structure Exchange where
  batch : List Epc
  attempt : Attempt
  accepted : List Epc
  retried : Bool
  deriving DecidableEq, Repr

/-- A device answers knowing the exchange so far and the EPCs now requested. -/
abbrev Device := List Exchange → List Epc → Attempt

/-- The loop head: the shared capability, the local variables and the exchange so far. -/
structure GetState where
  capability : GetCapability
  vars : Vars
  log : List Exchange

/-- How a run ended, and what it left behind. -/
structure GetRun where
  outcome : Except Exn Unit
  capability : GetCapability
  received : Received
  log : List Exchange

/-- What the loop does before its await. -/
inductive Plan where
  | done
  | failed (exn : Exn)
  | request (limit : Option Nat) (batch rest : List Epc)

/-- The part of the loop body before the await: the exit, or the batch to request. -/
def planBatch (classCode : Nat) (capability : GetCapability) (vars : Vars) : Plan :=
  if vars.queue = [] then .done
  else
    let limit := capability.observedBatchCapacity
    match takeFirstBatch vars.queue capability.manufacturerCode classCode
      (batchSize limit vars.probeSize) with
    | .error exn => .failed exn
    | .ok (batch,rest) => .request limit batch rest

/-- One turn of a run that has the device object to itself. -/
def getBatchesBody (target : Target) (probe : Bool) (device : Device) (s : GetState) :
    Loop.Turn GetState GetRun :=
  match planBatch target.deoj.classCode s.capability s.vars with
  | .done => .leave ⟨.ok (),s.capability,s.vars.received,s.log⟩
  | .failed exn => .leave ⟨.error exn,s.capability,s.vars.received,s.log⟩
  | .request limit batch rest =>
    let attempt := device s.log batch
    match handleAttempt target probe limit batch rest s.capability s.vars attempt with
    | .error exn =>
      .leave ⟨.error exn,s.capability,s.vars.received,s.log ++ [⟨batch,attempt,[],false⟩]⟩
    | .ok next =>
      .again ⟨next.capability,next.vars,s.log ++ [⟨batch,attempt,next.accepted,next.retried⟩]⟩

/-- The first turn's state; `list(dict.fromkeys(epcs))` keeps first occurrences. -/
def getBatchesStart (epcs : List Epc) (capability : GetCapability) (received : Received) : GetState :=
  ⟨capability,⟨FirstMatch.fromkeys epcs,none,received⟩,[]⟩

/-- `_run_get_batches`. The fuel is never exhausted: see `runGetBatches_total`. -/
def runGetBatches (target : Target) (probe : Bool) (device : Device) (epcs : List Epc)
    (capability : GetCapability) (received : Received) : Option GetRun :=
  Loop.run (getBatchesBody target probe device) (2*epcs.length+1)
    (getBatchesStart epcs capability received)

end Pyhems.Get

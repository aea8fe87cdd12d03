import Pyhems.Library.Bidict
import Pyhems.Library.FirstMatch
import Pyhems.Runtime.Requests

/-! The routing of received frames: which node an address belongs to, the frames kept for an
address while it is unknown, and the events handed to the subscribers. A received
frame is stamped with its place in the order of reception. -/
namespace Pyhems.Runtime
open Protocol Library

/-- The hex string of the identification number, EPC 0x83. -/
abbrev NodeId := String

def nodeProfileClass : Nat := nodeProfileInstance.classCode

def maxPendingAddresses : Nat := 32

def maxPendingFramesPerAddress : Nat := 16

namespace EPC

def identificationNumber : Nat := 0x83
def instanceList : Nat := 0xD5
def selfNodeInstanceList : Nat := 0xD6

end EPC

/-- The instances in the EDT of an instance list: a count, then three bytes for each, which
always make an EOJ. -/
def listedInstances (edt : Bytes) : List EOJ :=
  (List.range (edt.headD 0).toNat).filterMap fun i =>
    let offset := 1+i*3
    if offset+3 ≤ edt.length then (EOJ.fromBytes (slice edt offset (offset+3))).toOption else none

/-- One turn of the loop of `_extract_discovery_info`. -/
def extractProperty (info : Option NodeId × List EOJ) (prop : Property) :
    Option NodeId × List EOJ :=
  if prop.edt = [] then info
  else if prop.epc = EPC.identificationNumber then (some (hex prop.edt),info.2)
  else if prop.epc = EPC.instanceList ∨ prop.epc = EPC.selfNodeInstanceList then
    (info.1,info.2 ++ listedInstances prop.edt)
  else info

def extractDiscoveryInfo (frame : Frame) : Option NodeId × List EOJ :=
  let (nodeId,instances) := frame.properties.foldl extractProperty (none,[])
  (nodeId,FirstMatch.fromkeys instances)

/-- A frame kept while its source address is unknown. -/
structure PendingFrame where
  frame : Frame
  eoj : EOJ
  receivedAt : Nat
  deriving DecidableEq, Repr

/-- `HemsInstanceListEvent` and `HemsFrameEvent`. -/
inductive RuntimeEvent where
  | instanceList (receivedAt : Nat) (instances : List EOJ) (nodeId : NodeId)
  | frame (receivedAt : Nat) (frame : Frame) (nodeId : NodeId) (eoj : EOJ)
  deriving DecidableEq, Repr

/-- `dispatched` and `answers` are what went out so far: the events, each with the source
address of its frame, and the INFC_RES frames. -/
structure Router where
  deviceAddresses : Bidict Address NodeId := .empty
  pendingFrames : AList (fun _ : Address => List PendingFrame) := ∅
  discoveryTasks : AList (fun _ : Address => Nat) := ∅
  taskCount : Nat := 0
  clock : Nat := 0
  dispatched : List (Address × RuntimeEvent) := []
  answers : List (Address × Frame) := []

/-- `discoveryEnds` is the `finally` of `_discover_address`, and `discoveryDone` the callback
of its task. -/
inductive RouterEvent where
  | receive (frame : Frame) (address : Address)
  | discoveryEnds (address : Address)
  | discoveryDone (address : Address) (task : Nat)
  | stop

namespace Router

def scheduleAddressDiscovery (s : Router) (address : Address) : Router :=
  if address ∈ s.discoveryTasks then s
  else
    {s with discoveryTasks := s.discoveryTasks.insert address s.taskCount, taskCount := s.taskCount+1}

/-- The queue of an address with one more frame; the oldest gives way in a full queue. -/
def appendPending (frames : List PendingFrame) (new : PendingFrame) : List PendingFrame :=
  (if frames.length ≥ maxPendingFramesPerAddress then frames.drop 1 else frames) ++ [new]

/-- Keep these frames for an address, and discover it. -/
def keep (s : Router) (address : Address) (frames : List PendingFrame) : Router :=
  {s with pendingFrames := s.pendingFrames.insert address frames}.scheduleAddressDiscovery address

def queueUnknownFrame (s : Router) (frame : Frame) (address : Address) (receivedAt : Nat) : Router :=
  let new : PendingFrame := ⟨frame,frame.seoj,receivedAt⟩
  match s.pendingFrames.lookup address with
  | some frames => s.keep address (appendPending frames new)
  | none =>
    if s.pendingFrames.entries.length ≥ maxPendingAddresses then s else s.keep address [new]

def dispatch (s : Router) (address : Address) (event : RuntimeEvent) : Router :=
  {s with dispatched := s.dispatched ++ [(address,event)]}

/-- The loop that replays the frames of an address. -/
def replay (s : Router) (address : Address) (nodeId : NodeId) (frames : List PendingFrame) : Router :=
  frames.foldl (fun s pending =>
    s.dispatch address (.frame pending.receivedAt pending.frame nodeId pending.eoj)) s

/-- The end of `_handle_node_profile`: the instances are announced, then the frames that waited
for them are replayed. -/
def announce (s : Router) (address : Address) (nodeId : NodeId) (instances : List EOJ)
    (receivedAt : Nat) : Router :=
  let s := s.dispatch address (.instanceList receivedAt instances nodeId)
  match s.pendingFrames.lookup address with
  | some frames =>
    {s with pendingFrames := s.pendingFrames.erase address}.replay address nodeId frames
  | none => s

/-- `_device_addresses.forceput`, if the frame carried an identification number. -/
def learn (s : Router) (address : Address) : Option NodeId → Router
  | some nodeId => {s with deviceAddresses := s.deviceAddresses.forceput address nodeId}
  | none => s

/-- `_handle_node_profile`, once the identification number is taken in. -/
def introduce (s : Router) (address : Address) (instances : List EOJ) (receivedAt : Nat) : Router :=
  match s.deviceAddresses.get address with
  | none => s.scheduleAddressDiscovery address
  | some nodeId => if instances = [] then s else s.announce address nodeId instances receivedAt

def handleNodeProfile (s : Router) (frame : Frame) (address : Address) (receivedAt : Nat) : Router :=
  let info := extractDiscoveryInfo frame
  (s.learn address info.1).introduce address info.2 receivedAt

/-- `INFC_RES` for an INFC, sent at once. -/
def answerInfc (s : Router) (frame : Frame) (address : Address) : Router :=
  if frame.esv = .infc then
    let properties := frame.properties.map fun prop => ⟨prop.epc,[]⟩
    {s with answers := s.answers ++ [(address,⟨frame.deoj,frame.seoj,.infcRes,frame.tid,properties⟩)]}
  else s

/-- `_process_frame`, past the pending requests. -/
def processFrame (s : Router) (frame : Frame) (address : Address) : Router :=
  let receivedAt := s.clock
  let s := {s with clock := receivedAt+1}
  if frame.esv ∈ requestEsvs then s
  else if frame.esv = .inf ∧ s.deviceAddresses.get address = none ∧
      frame.seoj.classCode ≠ nodeProfileClass then
    s.queueUnknownFrame frame address receivedAt
  else if frame.seoj.classCode = nodeProfileClass then s.handleNodeProfile frame address receivedAt
  else
    let s := s.answerInfc frame address
    match s.deviceAddresses.get address with
    | none => s.queueUnknownFrame frame address receivedAt
    | some nodeId => s.dispatch address (.frame receivedAt frame nodeId frame.seoj)

def discoveryEnds (s : Router) (address : Address) : Router :=
  if s.deviceAddresses.get address = none then
    {s with pendingFrames := s.pendingFrames.erase address}
  else s

def discoveryDone (s : Router) (address : Address) (task : Nat) : Router :=
  if s.discoveryTasks.lookup address = some task then
    {s with discoveryTasks := s.discoveryTasks.erase address}
  else s

def step (s : Router) : RouterEvent → Option Router
  | .receive frame address => some (s.processFrame frame address)
  | .discoveryEnds address => some (s.discoveryEnds address)
  | .discoveryDone address task => some (s.discoveryDone address task)
  | .stop => some {s with discoveryTasks := ∅, pendingFrames := ∅}

end Router

end Pyhems.Runtime

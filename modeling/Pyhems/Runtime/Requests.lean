import Mathlib.Data.List.AList
import Mathlib.Logic.Function.Basic
import Pyhems.Library.Transition
import Pyhems.Protocol.Frame
import Pyhems.Runtime.NodeRequestQueue

/-! The request side of the client: `_send_request` with the queue of each address, the
pending table, and `stop`. One request is one invocation; an event runs it from the end
of an await to the next one, and everything in between is atomic. -/
namespace Pyhems.Runtime
open Protocol Library

abbrev Address := String

/-- The requests that the client waits for: Get, SetC and INF_REQ. -/
inductive RequestKind where
  | get
  | setc
  | infReq
  deriving DecidableEq, Repr

def RequestKind.esv : RequestKind → ESV
  | get => .get
  | setc => .setc
  | infReq => .infReq

/-- `_GET_RESPONSE_ESVS`, `_SET_RESPONSE_ESVS` and `_INF_REQ_RESPONSE_ESVS`. -/
def RequestKind.responseEsvs : RequestKind → List ESV
  | get => [.getRes,.getSna]
  | setc => [.setRes,.setcSna]
  | infReq => [.inf,.infSna]

/-- The arguments of one `_send_request`. -/
structure Call where
  address : Address
  deoj : EOJ
  seoj : EOJ
  kind : RequestKind
  properties : List Property
  priority : RequestPriority
  deriving DecidableEq, Repr

/-- A request sent to a device and waiting for its response; `request` owns the future. -/
structure PendingRequest where
  address : Address
  deoj : EOJ
  seoj : EOJ
  responseEsvs : List ESV
  request : Nat
  deriving DecidableEq, Repr

def Call.pendingRequest (call : Call) (request : Nat) : PendingRequest :=
  ⟨call.address,call.deoj,call.seoj,call.kind.responseEsvs,request⟩

/-- Where a request stands: at the await in `acquire`, at the shielded await of its response,
or past its end with what it returned or raised. -/
inductive Phase where
  | queued (future : Future Unit)
  | awaiting (tid : Nat) (response : Future Frame) (timedOut : Bool)
  | left (outcome : Except Exn (Bool × Option Frame))
  deriving DecidableEq

/-- `obtained` and `releases` record whether the slot was ever handed to the request and how
often the request called `release`. -/
structure Request where
  call : Call
  queue : Nat
  phase : Phase
  cancelRequested : Bool := false
  obtained : Bool := false
  releases : Nat := 0

/-- `started` is `_protocol is not None`. Queues and requests are objects, numbered in the
order of their creation. -/
structure Client where
  started : Bool := false
  stopped : Bool := false
  tidCounter : Nat := 0
  pending : AList (fun _ : Nat => PendingRequest) := ∅
  nodeQueues : AList (fun _ : Address => Nat) := ∅
  queues : Nat → NodeRequestQueue := fun _ => {}
  queueCount : Nat := 0
  requests : Nat → Option Request := fun _ => none
  requestCount : Nat := 0

/-- `delivered` tells whether `sendto` succeeds if the event gets that far. -/
inductive ClientEvent where
  | start
  | stop
  | call (call : Call) (delivered : Bool)
  | resume (request : Nat) (delivered : Bool)
  | cancel (request : Nat)
  | timeout (request : Nat)
  | receive (frame : Frame) (address : Address)
  | allocate

/-- `_next_transaction_id` with the turns that are left. -/
def nextTransactionId (pending : AList fun _ : Nat => PendingRequest) :
    (turns tidCounter : Nat) → Except Exn Nat × Nat
  | 0, tidCounter => (.error (.runtimeError "No transaction ID is available"),tidCounter)
  | turns+1, tidCounter =>
    let tidCounter := tidCounter % 0xFFFF + 1
    if tidCounter ∈ pending then nextTransactionId pending turns tidCounter
    else (.ok tidCounter,tidCounter)

def matchesRequest (frame : Frame) (address : Address) (entry : PendingRequest) : Bool :=
  decide (address = entry.address) && decide (frame.seoj = entry.deoj) &&
    decide (frame.deoj = entry.seoj)

theorem matchesRequest_iff {frame : Frame} {address : Address} {entry : PendingRequest} :
    matchesRequest frame address entry = true ↔
      address = entry.address ∧ frame.seoj = entry.deoj ∧ frame.deoj = entry.seoj := by
  simp [matchesRequest,and_assoc]

/-- The ESVs of requests, which are discarded on reception. -/
def requestEsvs : List ESV := [.seti,.setc,.get,.infReq,.setget]

theorem RequestKind.not_requestEsvs (kind : RequestKind) :
    ∀ esv ∈ kind.responseEsvs, esv ∉ requestEsvs := by
  cases kind <;> decide

def clientStopped : Exn := .clientStoppedError "Runtime client stopped"

/-- `set_exception` on the futures that `stop` and `fail_waiters` reach. -/
def Phase.fail : Phase → Phase
  | .queued .pending => .queued (.exception clientStopped)
  | .awaiting tid .pending timedOut => .awaiting tid (.exception clientStopped) timedOut
  | phase => phase

/-- What `wait_for(shield(future), request_timeout)` and its handler make of the response
once the task resumes; none while there is nothing to resume it. -/
def awaitedOutcome (cancelRequested timedOut : Bool) :
    Future Frame → Option (Except Exn (Bool × Option Frame))
  | response =>
    if cancelRequested then some (.error .cancelledError)
    else
      match response with
      | .result frame => some (.ok (true,some frame))
      | .exception exn => some (.error exn)
      | .cancelled => some (.error .cancelledError)
      | .pending => if timedOut then some (.ok (true,none)) else none

namespace Client

/-- `done()` of the future that the request awaits in `acquire`. -/
def done (s : Client) (request : Nat) : Bool :=
  match (s.requests request).map Request.phase with
  | some (.queued future) => future.done
  | _ => true

def put (s : Client) (request : Nat) (new : Request) : Client :=
  {s with requests := Function.update s.requests request (some new)}

/-- `set_result` on the future of the request that a release chose. -/
def grant (s : Client) : Option Nat → Client
  | none => s
  | some request =>
    match s.requests request with
    | some q => s.put request {q with phase := .queued (.result ()), obtained := true}
    | none => s

def release (s : Client) (queue : Nat) : Client :=
  let (released,granted) := (s.queues queue).release s.done
  {s with queues := Function.update s.queues queue released}.grant granted

/-- `if queue.idle and self._node_queues.get(address) is queue: del ...`. -/
def dropIdleQueue (s : Client) (address : Address) (queue : Nat) : Client :=
  if (s.queues queue).idle && decide (s.nodeQueues.lookup address = some queue) then
    {s with nodeQueues := s.nodeQueues.erase address}
  else s

/-- `finally` of `_send_request`, for a request that leaves with `outcome`. -/
def leave (s : Client) (request : Nat) (q : Request) (tid : Option Nat)
    (outcome : Except Exn (Bool × Option Frame)) : Client :=
  let s := match tid with
    | none => s
    | some tid => {s with pending := s.pending.erase tid}
  let s := s.put request {q with phase := .left outcome, releases := q.releases+1}
  (s.release q.queue).dropIdleQueue q.call.address q.queue

def sendToAddress (s : Client) (frame : Frame) (delivered : Bool) : Except Exn Bool :=
  if !s.started then .ok false
  else
    match frame.encode with
    | .error exn => .error exn
    | .ok _ => .ok delivered

/-- `_send_request` from the slot to the await of the response, or to its end. -/
def transmit (s : Client) (request : Nat) (q : Request) (delivered : Bool) : Client :=
  match nextTransactionId s.pending 0xFFFF s.tidCounter with
  | (.error exn,tidCounter) => {s with tidCounter}.leave request q none (.error exn)
  | (.ok tid,tidCounter) =>
    let s := {s with tidCounter, pending := s.pending.insert tid (q.call.pendingRequest request)}
    let frame : Frame := ⟨q.call.seoj,q.call.deoj,q.call.kind.esv,tid,q.call.properties⟩
    match s.sendToAddress frame delivered with
    | .error exn => s.leave request q (some tid) (.error exn)
    | .ok false => s.leave request q (some tid) (.ok (false,none))
    | .ok true => s.put request {q with phase := .awaiting tid .pending false}

/-- `self._node_queues[address] = _NodeRequestQueue()`. -/
def registerQueue (s : Client) (address : Address) : Client :=
  {s with nodeQueues := s.nodeQueues.insert address s.queueCount,
          queues := Function.update s.queues s.queueCount {},
          queueCount := s.queueCount+1}

/-- The queue object of an address, created if there is none. -/
def nodeQueue (s : Client) (address : Address) : Client × Nat :=
  match s.nodeQueues.lookup address with
  | some queue => (s,queue)
  | none => (s.registerQueue address,s.queueCount)

/-- A new request at `await queue.acquire(priority)`, which returns at once if the slot is idle. -/
def acquire (s : Client) (call : Call) (queue : Nat) : Client × Request :=
  let (acquired,direct) := (s.queues queue).acquire call.priority s.requestCount
  let q : Request :=
    {call, queue, phase := .queued (if direct then .result () else .pending), obtained := direct}
  ({s with queues := Function.update s.queues queue acquired,
           requestCount := s.requestCount+1}.put s.requestCount q,q)

/-- `_send_request` up to its first await that suspends. -/
def sendRequest (s : Client) (call : Call) (delivered : Bool) : Client :=
  let (registered,queue) := s.nodeQueue call.address
  let (t,q) := registered.acquire call queue
  if q.obtained then t.transmit s.requestCount q delivered else t

/-- The `except asyncio.CancelledError` of `acquire`, then the end of the request. -/
def abandon (s : Client) (request : Nat) (q : Request) (release : Bool) (exn : Exn) : Client :=
  let releases := if release then q.releases+1 else q.releases
  let s := s.put request {q with phase := .left (.error exn), releases}
  if release then s.release q.queue else s

/-- A request that can resume runs up to its next await or its end. -/
def resume (s : Client) (request : Nat) (q : Request) (delivered : Bool) : Option Client :=
  match q.phase with
  | .queued .pending => none
  | .queued .cancelled => some (s.abandon request q false .cancelledError)
  | .queued (.result _) =>
    -- Cancelled just after the hand-over: `acquire` gives the slot back.
    if q.cancelRequested then some (s.abandon request q true .cancelledError)
    else some (s.transmit request q delivered)
  | .queued (.exception exn) =>
    if q.cancelRequested then some (s.abandon request q true .cancelledError)
    else some (s.abandon request q false exn)
  | .awaiting tid response timedOut =>
    (awaitedOutcome q.cancelRequested timedOut response).map (s.leave request q (some tid))
  | .left _ => none

/-- `task.cancel()`: it cancels a pending `acquire` future, and marks the task otherwise. -/
def cancel (s : Client) (request : Nat) (q : Request) : Option Client :=
  match q.phase with
  | .queued .pending => some (s.put request {q with phase := .queued .cancelled, cancelRequested := true})
  | .left _ => none
  | _ => some (s.put request {q with cancelRequested := true})

/-- The timer of `wait_for` fires. -/
def timeout (s : Client) (request : Nat) (q : Request) : Option Client :=
  match q.phase with
  | .awaiting tid response _ => some (s.put request {q with phase := .awaiting tid response true})
  | _ => none

/-- `if not pending.future.done(): pending.future.set_result(frame)`. -/
def setResult (s : Client) (request : Nat) (frame : Frame) : Client :=
  match s.requests request with
  | some q =>
    match q.phase with
    | .awaiting tid .pending timedOut =>
      s.put request {q with phase := .awaiting tid (.result frame) timedOut}
    | _ => s
  | none => s

/-- The part of `_process_frame` that serves pending requests. -/
def receive (s : Client) (frame : Frame) (address : Address) : Client :=
  if frame.esv ∈ requestEsvs then s
  else
    match s.pending.lookup frame.tid with
    | some entry =>
      if frame.esv ∈ entry.responseEsvs ∧ matchesRequest frame address entry = true then
        {s with pending := s.pending.erase frame.tid}.setResult entry.request frame
      else s
    | none => s

/-- The requests whose futures `stop` fails: those in the pending table, and those that wait
in a registered queue. -/
def failedByStop (s : Client) : List Nat :=
  (s.pending.entries.map fun entry => entry.2.request) ++
    s.nodeQueues.entries.flatMap fun entry => ((s.queues entry.2).failWaiters s.done).2

/-- `stop`, after its awaits. -/
def stop (s : Client) : Client :=
  if !s.started then s
  else
    let registered := s.nodeQueues.entries.map Sigma.snd
    {s with
      started := false
      stopped := true
      pending := ∅
      nodeQueues := ∅
      queues := fun queue =>
        if queue ∈ registered then ((s.queues queue).failWaiters s.done).1 else s.queues queue
      requests := fun request =>
        (s.requests request).map fun q =>
          if request ∈ s.failedByStop then {q with phase := q.phase.fail} else q}

def step (s : Client) : ClientEvent → Option Client
  | .start => some {s with started := true}
  | .stop => some s.stop
  | .call call delivered => some (s.sendRequest call delivered)
  | .resume request delivered => (s.requests request).bind fun q => s.resume request q delivered
  | .cancel request => (s.requests request).bind fun q => s.cancel request q
  | .timeout request => (s.requests request).bind fun q => s.timeout request q
  | .receive frame address => some (s.receive frame address)
  | .allocate => some {s with tidCounter := (nextTransactionId s.pending 0xFFFF s.tidCounter).2}

end Client

end Pyhems.Runtime

import Pyhems.Runtime.Answers
import Pyhems.Runtime.NodeCalls
import Pyhems.Runtime.Transmission

/-! Calls of `set_properties` among everything else that the client does. What a call reports about
its SetC is compared with the frames that the transport was handed. -/
namespace Pyhems.Runtime
open Protocol Library Transition

/-! ### Calls -/

/-- A call of `set_properties`, with the request that it made unless it returned before. -/
structure SetCall where
  properties : List Property
  deoj : EOJ
  seoj : EOJ
  request : Option Nat

/-- The SetC of the call under a TID. -/
def SetCall.frame (call : SetCall) (tid : Nat) : Frame :=
  ⟨call.seoj,call.deoj,.setc,tid,call.properties⟩

/-- The system with its calls of `set_properties`; `handed` lists the frames for which `send` of the
transport returned, with their requests. -/
structure Writing where
  system : System := {}
  calls : List SetCall := []
  handed : List (Nat × Frame) := []

inductive WritingEvent where
  | setProperties (nodeId : NodeId) (deoj : EOJ) (properties : List Property) (seoj : EOJ)
      (priority : RequestPriority) (delivered : Bool)
  | other (event : SystemEvent)

/-- What an event of the system is for the client. -/
def System.clientEvent (s : System) : SystemEvent → Option ClientEvent
  | .issue operation deoj seoj kind properties priority delivered =>
    match s.operations operation with
    | some ⟨_,address,true⟩ => some (.call ⟨address,deoj,seoj,kind,properties,priority⟩ delivered)
    | _ => none
  | .receive frame address => some (.receive frame address)
  | .stop => some .stop
  | .client (.receive _ _) | .client .stop => none
  | .client event => some event
  | .begin _ | .finish _ | .router _ => none

namespace Writing

/-- An event of the client, with the frame that it hands over. -/
def record (w : Writing) (event : Option ClientEvent) (system : System) : Writing :=
  {w with system, handed := w.handed ++ (event.bind w.system.client.hands).toList}

/-- `set_properties` up to its first await that suspends, or to its end. -/
def setProperties (w : Writing) (nodeId : NodeId) (deoj : EOJ) (properties : List Property) (seoj : EOJ)
    (priority : RequestPriority) (delivered : Bool) : Writing :=
  let unsent : Writing := {w with calls := w.calls ++ [⟨properties,deoj,seoj,none⟩]}
  if properties = [] then unsent
  else
    match w.system.router.deviceAddresses.inverse nodeId with
    | none => unsent
    | some address =>
      if address = "" ∨ w.system.client.started = false then unsent
      else
        let call : Call := ⟨address,deoj,seoj,.setc,properties,priority⟩
        let sending : Writing := {w with calls := w.calls ++ [⟨properties,deoj,seoj,some w.system.client.requestCount⟩]}
        sending.record (some (.call call delivered))
          {w.system with client := w.system.client.sendRequest call delivered}

def step (w : Writing) : WritingEvent → Option Writing
  | .setProperties nodeId deoj properties seoj priority delivered =>
    some (w.setProperties nodeId deoj properties seoj priority delivered)
  | .other event => (w.system.step event).map (w.record (w.system.clientEvent event))

/-- What a call returned or raised, once it did. -/
def returned (w : Writing) (call : SetCall) : Option (Except Exn SetRequestResult) :=
  match call.request with
  | none => some (Pyhems.Runtime.setProperties call.properties none)
  | some request =>
    match (w.system.client.requests request).map Request.phase with
    | some (.left outcome) => some (Pyhems.Runtime.setProperties call.properties (some outcome))
    | _ => none

/-- The SetC of the call is among the frames handed to the transport. -/
def HandedOver (w : Writing) (call : SetCall) : Prop :=
  ∃ request tid, call.request = some request ∧ (request,call.frame tid) ∈ w.handed

/-- A result says exactly whether the SetC was handed over. -/
def Truthful (w : Writing) (call : SetCall) : Prop :=
  ∀ result, w.returned call = some (.ok result) → (result.sent = true ↔ w.HandedOver call)

end Writing

/-- The call does not come back from the queue with the error that `stop` left there. -/
def Granted (i : Nat) (w : Writing) : WritingEvent → Prop
  | .other (.client (.resume request _)) => ∀ call q, w.calls[i]? = some call →
      call.request = some request → w.system.client.requests request = some q →
      q.cancelRequested = false → ∀ exn, q.phase ≠ .queued (.exception exn)
  | _ => True

/-! ### What a call knows -/

/-- The stage of a request tells whether its frame was handed over. -/
def Tells (handed : List (Nat × Frame)) (request : Nat) (call : Call) : RequestStage → Prop
  | .queued | .left (.ok (false,_)) => ∀ frame, (request,frame) ∉ handed
  | .awaiting tid => (request,call.frame tid) ∈ handed
  | .left (.ok (true,_)) | .left (.error (.clientStoppedError _)) => ∃ tid, (request,call.frame tid) ∈ handed
  | .left (.error _) => True

variable {handed : List (Nat × Frame)} {request : Nat} {call : Call} {stage : RequestStage} {sent : Option Frame}

theorem Tells.keep (h : Tells handed request call stage) {more : List (Nat × Frame)}
    (hmore : ∀ frame, (request,frame) ∉ more) : Tells (handed ++ more) request call stage := by
  have hiff : ∀ frame, (request,frame) ∈ handed ++ more ↔ (request,frame) ∈ handed := by
    intro frame
    rw [List.mem_append,or_iff_left (hmore frame)]
  unfold Tells at h ⊢
  simpa only [hiff] using h

theorem tells_error {exn : Exn} (h : ∀ text, exn ≠ .clientStoppedError text) :
    Tells handed request call (.left (.error exn)) := by
  cases exn with
  | clientStoppedError text => exact absurd rfl (h text)
  | _ => trivial

/-- A request that gets the slot tells what it did with its frame. -/
theorem Transmitted.tells (h : Transmitted call stage sent) (hbefore : ∀ frame, (request,frame) ∉ handed) :
    Tells (handed ++ (sent.map fun frame => (request,frame)).toList) request call stage := by
  cases sent with
  | some frame =>
    obtain ⟨tid,rfl,rfl⟩ := h
    exact List.mem_append_right _ (List.mem_singleton_self _)
  | none =>
    rw [Option.map_none,Option.toList_none,List.append_nil]
    rcases h with rfl | ⟨exn,rfl,hexn⟩
    · exact hbefore
    · exact tells_error hexn

/-- A step of the client leaves a request that tells what was handed over, unless an error of `stop`
takes it out of its queue. -/
theorem Tells.step {s t : Client} {event : ClientEvent} (h : Tells handed request call stage)
    (hstage : s.stage request = some (call,stage)) (hfresh : s.requests s.requestCount = none)
    (hstep : s.step event = some t)
    (hguard : ∀ delivered q, event = .resume request delivered → s.requests request = some q →
      q.cancelRequested = false → ∀ exn, q.phase ≠ .queued (.exception exn)) :
    ∃ stage', t.stage request = some (call,stage') ∧
      Tells (handed ++ (s.hands event).toList) request call stage' := by
  obtain ⟨q,hq,hstands⟩ := Option.map_eq_some_iff.mp hstage
  cases hstands
  rcases step_stage hfresh hstep hq with ⟨hsame,hnone⟩ | ⟨delivered,hevent,stage',sent,hnext,hresumes,hhands⟩
  · refine ⟨_,hsame.trans hstage,h.keep fun frame hmem => ?_⟩
    exact hnone frame (Option.mem_toList.mp hmem)
  · refine ⟨stage',hnext,?_⟩
    rw [hhands]
    cases hresumes with
    | cancelled => exact tells_error nofun
    | stopped exn hphase hcancel => exact absurd hphase (hguard delivered q hevent hq hcancel exn)
    | transmitted _ _ hphase hsent =>
      rw [hphase] at h
      exact hsent.tells h
    | ended tid outcome hphase houtcome =>
      rw [hphase] at h
      rw [Option.map_none,Option.toList_none,List.append_nil]
      cases outcome with
      | error exn =>
        cases exn with
        | clientStoppedError text => exact ⟨tid,h⟩
        | _ => trivial
      | ok ended =>
        obtain ⟨sent,frame⟩ := ended
        cases sent with
        | false => exact absurd rfl (houtcome frame)
        | true => exact ⟨tid,h⟩

/-- The requests and the frames handed over are recorded. -/
structure Recorded (w : Writing) : Prop where
  fresh : ∀ r, w.system.client.requestCount ≤ r → w.system.client.requests r = none
  requested : ∀ r frame, (r,frame) ∈ w.handed → ∃ q, w.system.client.requests r = some q

/-- The request of the call tells whether its SetC was handed over. -/
def SetCall.Known (set : SetCall) (s : Client) (handed : List (Nat × Frame)) : Prop :=
  ∀ request, set.request = some request → set.properties ≠ [] ∧ ∃ call stage,
    s.stage request = some (call,stage) ∧ (∀ tid, call.frame tid = set.frame tid) ∧
      Tells handed request call stage

variable {i : Nat} {w w' : Writing}

theorem clientEvent_step {s t : System} {event : SystemEvent} (h : s.step event = some t) :
    s.clientEvent event = none ∧ t.client = s.client ∨ ∃ e, s.clientEvent event = some e ∧
      s.client.step e = some t.client ∧ ∀ r delivered, e = .resume r delivered →
        event = .client (.resume r delivered) := by
  unfold System.step at h
  split at h
  · cases h
    refine Or.inl ⟨rfl,?_⟩
    unfold System.begin
    split <;> rfl
  · next operation deoj seoj kind properties priority delivered =>
    split at h
    · next address ho =>
      cases h
      refine Or.inr ⟨.call ⟨address,deoj,seoj,kind,properties,priority⟩ delivered,?_,rfl,nofun⟩
      rw [System.clientEvent,ho]
    · cases h
  · split at h
    · split at h <;> cases h
      exact Or.inl ⟨rfl,rfl⟩
    · cases h
  · cases h
    exact Or.inr ⟨_,rfl,rfl,nofun⟩
  · cases h
    exact Or.inr ⟨_,rfl,rfl,nofun⟩
  · cases h
  · cases h
  · next e hreceive hstop =>
    obtain ⟨client,hclient,rfl⟩ := Option.map_eq_some_iff.mp h
    refine Or.inr ⟨e,?_,hclient,fun r delivered he => by rw [he]⟩
    cases e with
    | receive frame address => exact absurd rfl (hreceive frame address)
    | stop => exact absurd rfl hstop
    | _ => rfl
  · cases h
  · cases h
  · obtain ⟨router,_,rfl⟩ := Option.map_eq_some_iff.mp h
    exact Or.inl ⟨rfl,rfl⟩

theorem Recorded.not_handed (hw : Recorded w) (frame : Frame) :
    (w.system.client.requestCount,frame) ∉ w.handed := by
  intro hmem
  obtain ⟨q,hq⟩ := hw.requested _ _ hmem
  rw [hw.fresh _ le_rfl] at hq
  cases hq

theorem Recorded.record (hw : Recorded w) {event : ClientEvent} {system : System}
    (h : w.system.client.step event = some system.client) : Recorded (w.record (some event) system) := by
  have hfresh := hw.fresh _ le_rfl
  refine ⟨fresh_step hw.fresh h,fun r frame hmem => ?_⟩
  rcases List.mem_append.mp hmem with hold | hnew
  · obtain ⟨q,hq⟩ := hw.requested r frame hold
    obtain ⟨q',hq',_⟩ := (step_moves hfresh h).moved r q hq
    exact ⟨q',hq'⟩
  · exact hands_some hfresh h (Option.mem_toList.mp hnew)

/-- A call that has its request already. -/
theorem SetCall.Known.step {set : SetCall} {s t : Client} {event : ClientEvent} (hset : set.Known s handed)
    (hfresh : s.requests s.requestCount = none) (h : s.step event = some t)
    (hguard : ∀ request delivered q, set.request = some request → event = .resume request delivered →
      s.requests request = some q → q.cancelRequested = false → ∀ exn, q.phase ≠ .queued (.exception exn)) :
    set.Known t (handed ++ (s.hands event).toList) := by
  intro request hrequest
  obtain ⟨hproperties,call,stage,hstage,hframe,htells⟩ := hset request hrequest
  obtain ⟨stage',hstage',htells'⟩ := htells.step hstage hfresh h
    fun delivered q hevent => hguard request delivered q hrequest hevent
  exact ⟨hproperties,call,stage',hstage',hframe,htells'⟩

theorem record_none (w : Writing) (system : System) : w.record none system = {w with system} := by
  unfold Writing.record
  rw [Option.bind_none,Option.toList_none,List.append_nil]

/-- A call of `set_properties` either returns at once or makes a request. -/
theorem setProperties_cases (w : Writing) (nodeId : NodeId) (deoj : EOJ) (properties : List Property)
    (seoj : EOJ) (priority : RequestPriority) (delivered : Bool) :
    (∃ set : SetCall, set.request = none ∧
      w.setProperties nodeId deoj properties seoj priority delivered = {w with calls := w.calls ++ [set]}) ∨
    ∃ (set : SetCall) (call : Call) (system : System), set.request = some w.system.client.requestCount ∧
      set.properties ≠ [] ∧ (∀ tid, call.frame tid = set.frame tid) ∧
      w.system.client.step (.call call delivered) = some system.client ∧
      w.setProperties nodeId deoj properties seoj priority delivered =
        Writing.record {w with calls := w.calls ++ [set]} (some (.call call delivered)) system := by
  unfold Writing.setProperties
  simp only
  split
  · exact Or.inl ⟨_,rfl,rfl⟩
  · next hproperties =>
    split
    · exact Or.inl ⟨_,rfl,rfl⟩
    · split
      · exact Or.inl ⟨_,rfl,rfl⟩
      · exact Or.inr ⟨_,⟨_,deoj,seoj,.setc,properties,priority⟩,_,rfl,hproperties,fun _ => rfl,rfl,rfl⟩

/-- A call is among the old ones, or is the new one. -/
theorem getElem?_concat_some {calls : List SetCall} {set set' : SetCall}
    (h : (calls ++ [set'])[i]? = some set) : calls[i]? = some set ∨ set = set' := by
  rcases lt_or_ge i calls.length with hlt | hle
  · rw [List.getElem?_append_left hlt] at h
    exact Or.inl h
  · rw [List.getElem?_append_right hle] at h
    exact Or.inr (List.mem_singleton.mp (List.mem_of_getElem? h))

/-- A call with a new request. -/
theorem known_new (hrec : Recorded w) {set : SetCall} {call : Call} {delivered : Bool} {t : Client}
    (hrequest : set.request = some w.system.client.requestCount) (hproperties : set.properties ≠ [])
    (hframe : ∀ tid, call.frame tid = set.frame tid)
    (h : w.system.client.step (.call call delivered) = some t) :
    set.Known t (w.handed ++ (w.system.client.hands (.call call delivered)).toList) := by
  intro request hr
  cases hrequest.symm.trans hr
  obtain ⟨stage,hstage,hsent⟩ := sendRequest_stage w.system.client call delivered
  rw [← Option.some.inj h]
  refine ⟨hproperties,call,stage,by rw [hstage,Function.update_self],hframe,?_⟩
  rcases hsent with ⟨rfl,hnone⟩ | ⟨sent,hsent,hhands⟩
  · rw [hnone,Option.toList_none,List.append_nil]
    exact hrec.not_handed
  · rw [hhands]
    exact hsent.tells hrec.not_handed

/-- Everything recorded, and the call known. -/
structure Kept (i : Nat) (w : Writing) : Prop where
  recorded : Recorded w
  known : ∀ set, w.calls[i]? = some set → set.Known w.system.client w.handed

theorem Kept.setProperties (hw : Kept i w) (nodeId : NodeId) (deoj : EOJ) (properties : List Property)
    (seoj : EOJ) (priority : RequestPriority) (delivered : Bool) :
    Kept i (w.setProperties nodeId deoj properties seoj priority delivered) := by
  rcases setProperties_cases w nodeId deoj properties seoj priority delivered with
    ⟨set',hnone,he⟩ | ⟨set',call,system,hrequest,hproperties,hframe,hclient,he⟩ <;> rw [he]
  · refine ⟨⟨hw.recorded.fresh,hw.recorded.requested⟩,fun set hset => ?_⟩
    rcases getElem?_concat_some hset with hold | rfl
    · exact hw.known set hold
    · intro request hrequest
      cases hnone.symm.trans hrequest
  · have hrec : Recorded {w with calls := w.calls ++ [set']} :=
      ⟨hw.recorded.fresh,hw.recorded.requested⟩
    refine ⟨hrec.record hclient,fun set hset => ?_⟩
    rcases getElem?_concat_some hset with hold | rfl
    · exact (hw.known set hold).step (hw.recorded.fresh _ le_rfl) hclient fun _ _ _ _ hevent => nomatch hevent
    · exact known_new hw.recorded hrequest hproperties hframe hclient

theorem Kept.other (hw : Kept i w) {event : SystemEvent} {system : System}
    (hguard : Granted i w (.other event)) (h : w.system.step event = some system) :
    Kept i (w.record (w.system.clientEvent event) system) := by
  rcases clientEvent_step h with ⟨hnone,hclient⟩ | ⟨e,he,hclient,hresume⟩
  · rw [hnone,record_none]
    refine ⟨⟨?_,?_⟩,fun set hset => ?_⟩ <;> rw [hclient]
    · exact hw.recorded.fresh
    · exact hw.recorded.requested
    · exact hw.known set hset
  · rw [he]
    refine ⟨hw.recorded.record hclient,fun set hset => ?_⟩
    apply (hw.known set hset).step (hw.recorded.fresh _ le_rfl) hclient
    intro request delivered q hrequest hevent
    rw [hresume request delivered hevent] at hguard
    exact hguard set q hset hrequest

theorem kept_reaches (h : Reaches Writing.step (Granted i) {} w) : Kept i w := by
  apply h.invariant
  · exact ⟨⟨fun _ _ => rfl,nofun⟩,nofun⟩
  · intro w event w' hw hguard h
    cases event with
    | setProperties nodeId deoj properties seoj priority delivered =>
      cases h
      exact hw.setProperties nodeId deoj properties seoj priority delivered
    | other event =>
      obtain ⟨system,hsystem,rfl⟩ := Option.map_eq_some_iff.mp h
      exact hw.other hguard hsystem

/-! ### Results -/

theorem setProperties_unsent {properties : List Property} {result : SetRequestResult}
    (h : setProperties properties none = .ok result) : result.sent = false := by
  unfold setProperties at h
  split at h <;> cases h <;> rfl

theorem acknowledged_sent (requested : Finset Nat) (frame : Frame) :
    (acknowledged requested frame).sent = true := by
  unfold acknowledged
  split <;> rfl

theorem setProperties_sent {properties : List Property} (hproperties : properties ≠ [])
    {outcome : Except Exn (Bool × Option Frame)} {result : SetRequestResult}
    (h : setProperties properties (some outcome) = .ok result) :
    (∃ frame, outcome = .ok (result.sent,frame)) ∨
      result.sent = true ∧ ∃ text, outcome = .error (.clientStoppedError text) := by
  rw [setProperties,if_neg hproperties] at h
  cases outcome with
  | error exn =>
    cases exn with
    | clientStoppedError text =>
      cases h
      exact Or.inr ⟨rfl,text,rfl⟩
    | _ => cases h
  | ok ended =>
    obtain ⟨sent,frame⟩ := ended
    cases sent with
    | false =>
      cases h
      exact Or.inl ⟨frame,rfl⟩
    | true =>
      cases frame with
      | none =>
        cases h
        exact Or.inl ⟨none,rfl⟩
      | some frame =>
        cases h
        refine Or.inl ⟨some frame,?_⟩
        rw [acknowledged_sent]

/-- In every run in which the call is granted its turn, its result tells the truth. -/
theorem sent_truthful (i : Nat) (h : Reaches Writing.step (Granted i) {} w) (set : SetCall)
    (hset : w.calls[i]? = some set) : w.Truthful set := by
  intro result hresult
  have hknown := (kept_reaches h).known set hset
  unfold Writing.returned at hresult
  split at hresult
  · next hnone =>
    rw [setProperties_unsent (Option.some.inj hresult)]
    constructor
    · intro hsent
      cases hsent
    · rintro ⟨request,_,hrequest,_⟩
      cases hnone.symm.trans hrequest
  · next request hrequest =>
    split at hresult
    · next outcome hleft =>
      obtain ⟨hproperties,call,stage,hstage,hframe,htells⟩ := hknown request hrequest
      obtain ⟨q,hq,hphase⟩ := Option.map_eq_some_iff.mp hleft
      rw [Client.stage,hq,Option.map_some,hphase] at hstage
      cases hstage
      have hhanded : w.HandedOver set ↔ ∃ tid, (request,q.call.frame tid) ∈ w.handed := by
        constructor
        · rintro ⟨request',tid,hrequest',hmem⟩
          cases hrequest.symm.trans hrequest'
          exact ⟨tid,(hframe tid).symm ▸ hmem⟩
        · rintro ⟨tid,hmem⟩
          exact ⟨request,tid,hrequest,hframe tid ▸ hmem⟩
      rw [hhanded]
      rcases setProperties_sent hproperties (Option.some.inj hresult) with
        ⟨frame,rfl⟩ | ⟨hsent,text,rfl⟩
      · cases hsent : result.sent with
        | true =>
          rw [hsent] at htells
          exact ⟨fun _ => htells,fun _ => rfl⟩
        | false =>
          rw [hsent] at htells
          constructor
          · intro hsent
            cases hsent
          · rintro ⟨tid,hmem⟩
            exact absurd hmem (htells _)
      · exact ⟨fun _ => htells,fun _ => hsent⟩
    · cases hresult

/-! ### A SetC and a stop -/

/-- The client is started and a node known. -/
def nodeKnown : List WritingEvent :=
  [.other (.client .start),.other (.receive (selfIdentification 0x0A) "192.0.2.1")]

def switchOff : WritingEvent :=
  .setProperties "fe0a" temperatureSensor [⟨0x80,[0x31]⟩] controllerInstance .set true

def switchOffCall (request : Nat) : SetCall :=
  ⟨[⟨0x80,[0x31]⟩],temperatureSensor,controllerInstance,some request⟩

/-- The SetC is sent, and `stop` ends the wait for its answer. -/
def stoppedAwaiting : List WritingEvent := nodeKnown ++ [switchOff,.other .stop]

theorem sent_truthful_stopped : ∃ w : Writing, w.returned (switchOffCall 0) =
    some (.ok {sent := true, unansweredEpcs := {0x80}}) ∧ w.Truthful (switchOffCall 0) := by
  obtain ⟨w,hw⟩ : ∃ w, exec Writing.step {} stoppedAwaiting = some w := Option.isSome_iff_exists.mp rfl
  obtain ⟨w',hw'⟩ : ∃ w', ((exec Writing.step {} stoppedAwaiting).bind fun w =>
      w.step (.other (.client (.resume 0 true)))) = some w' := Option.isSome_iff_exists.mp rfl
  have hphase : (exec Writing.step {} stoppedAwaiting).map (fun w =>
      (w.system.client.requests 0).map Request.phase) =
        some (some (.awaiting 1 (.exception clientStopped) false)) := rfl
  have hafter : (((exec Writing.step {} stoppedAwaiting).bind fun w =>
      w.step (.other (.client (.resume 0 true)))).map fun w' =>
        (w'.calls[0]?,w'.returned (switchOffCall 0))) =
          some (some (switchOffCall 0),some (.ok {sent := true, unansweredEpcs := {0x80}})) := rfl
  rw [hw'] at hafter
  rw [hw] at hphase hw'
  have hreaches : Reaches Writing.step (Granted 0) {} w := by
    refine reaches_of_exec ?_ hw
    simp [stoppedAwaiting,nodeKnown,switchOff,Granted]
  have hguard : Granted 0 w (.other (.client (.resume 0 true))) := by
    intro call q _ _ hq _ exn hqueued
    rw [Option.map_some,hq,Option.map_some,hqueued] at hphase
    cases hphase
  obtain ⟨hset,hreturned⟩ := Prod.mk.inj (Option.some.inj hafter)
  exact ⟨w',hreturned,sent_truthful 0 (hreaches.tail hguard hw') _ hset⟩

/-- The SetC waits behind a Get while `stop` is called. -/
def stoppedInQueue : List WritingEvent :=
  nodeKnown ++ [.other (.client (.call ⟨"192.0.2.1",temperatureSensor,controllerInstance,.get,[⟨0x80,[]⟩],.poll⟩
    true)),switchOff,.other .stop,.other (.client (.resume 1 true))]

/-- It is reported as sent, although it never left the queue. -/
theorem sent_in_queue : ¬ ∀ w, Reachable Writing.step {} w → ∀ set ∈ w.calls, w.Truthful set := by
  intro h
  obtain ⟨w,hw⟩ : ∃ w, exec Writing.step {} stoppedInQueue = some w := Option.isSome_iff_exists.mp rfl
  have hfinal : (exec Writing.step {} stoppedInQueue).map (fun w =>
      (w.calls,w.returned (switchOffCall 1),w.handed.map Prod.fst)) =
        some ([switchOffCall 1],some (.ok {sent := true, unansweredEpcs := {0x80}}),[0]) := rfl
  rw [hw] at hfinal
  obtain ⟨hcalls,hrest⟩ := Prod.mk.inj (Option.some.inj hfinal)
  obtain ⟨hreturned,hhanded⟩ := Prod.mk.inj hrest
  have htruthful := h w (reachable_of_exec hw) (switchOffCall 1) (by rw [hcalls]; exact List.mem_singleton_self _)
  obtain ⟨request,tid,hrequest,hmem⟩ := (htruthful _ hreturned).mp rfl
  cases hrequest
  have hone : 1 ∈ w.handed.map Prod.fst := List.mem_map_of_mem hmem
  rw [hhanded] at hone
  exact absurd hone (by decide)

end Pyhems.Runtime

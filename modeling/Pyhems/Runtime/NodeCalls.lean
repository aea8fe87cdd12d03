import Pyhems.Runtime.ResponseMatching
import Pyhems.Runtime.Router

/-! API calls for a node. A call looks up the address of its node once, and all its requests go
to that address, however long they wait in its queue; received node-profile frames
may meanwhile give the address to another node, or the node another address. -/
namespace Pyhems.Runtime
open Protocol Library Transition

/-- A call of `get`, `request_get`, `read_manufacturer_code`, `setup_get`,
`request_notifications` or `set_properties`, with the address that it found. -/
structure Operation where
  nodeId : NodeId
  address : Address
  active : Bool

/-- The client with its requests and its routing. `issuer` tells which operation a request
was made by; the requests of a direct discovery have none. -/
structure System where
  client : Client := {}
  router : Router := {}
  operations : Nat → Option Operation := fun _ => none
  operationCount : Nat := 0
  issuer : Nat → Option Nat := fun _ => none

/-- `begin` is a call up to its first request, and `issue` is one of its requests. -/
inductive SystemEvent where
  | begin (nodeId : NodeId)
  | issue (operation : Nat) (deoj seoj : EOJ) (kind : RequestKind) (properties : List Property)
      (priority : RequestPriority) (delivered : Bool)
  | finish (operation : Nat)
  | receive (frame : Frame) (address : Address)
  | stop
  | client (event : ClientEvent)
  | router (event : RouterEvent)

namespace System

/-- `self._device_addresses.inverse.get(node_id)` at the start of a call. -/
def begin (s : System) (nodeId : NodeId) : System :=
  match s.router.deviceAddresses.inverse nodeId with
  | none => s
  | some address =>
    {s with operations := Function.update s.operations s.operationCount (some ⟨nodeId,address,true⟩),
            operationCount := s.operationCount+1}

/-- `_send_request` by an operation. -/
def issue (s : System) (operation : Nat) (call : Call) (delivered : Bool) : System :=
  {s with client := s.client.sendRequest call delivered,
          issuer := Function.update s.issuer s.client.requestCount (some operation)}

/-- Whether all requests of the operation have left, so that it can return. -/
def settled (s : System) (operation : Nat) : Bool :=
  (List.range s.client.requestCount).all fun r =>
    decide (s.issuer r ≠ some operation) ||
      match (s.client.requests r).map Request.phase with
      | some (.left _) => true
      | _ => false

def finish (s : System) (operation : Nat) (o : Operation) : System :=
  {s with operations := Function.update s.operations operation (some {o with active := false})}

def step (s : System) : SystemEvent → Option System
  | .begin nodeId => some (s.begin nodeId)
  | .issue operation deoj seoj kind properties priority delivered =>
    match s.operations operation with
    | some ⟨_,address,true⟩ =>
      some (s.issue operation ⟨address,deoj,seoj,kind,properties,priority⟩ delivered)
    | _ => none
  | .finish operation =>
    match s.operations operation with
    | some o => if s.settled operation then some (s.finish operation o) else none
    | none => none
  | .receive frame address =>
    some {s with client := s.client.receive frame address, router := s.router.processFrame frame address}
  | .stop => some {s with client := s.client.stop, router := (s.router.step .stop).getD s.router}
  | .client (.receive _ _) | .client .stop => none
  | .client event => (s.client.step event).map fun client => {s with client}
  | .router (.receive _ _) | .router .stop => none
  | .router event => (s.router.step event).map fun router => {s with router}

def issuedFor (s : System) (r : Nat) : Option NodeId :=
  (s.issuer r).bind fun operation => (s.operations operation).map Operation.nodeId

end System

/-- The node that a received frame identifies with its source address. -/
def identifies (frame : Frame) : Option NodeId :=
  if frame.esv ∈ requestEsvs ∨ frame.seoj.classCode ≠ nodeProfileClass then none
  else (extractDiscoveryInfo frame).1

/-- No received frame gives another node the address of a call in progress, or its node
another address. -/
def SettledAddresses (s : System) : SystemEvent → Prop
  | .receive frame address => ∀ nodeId, identifies frame = some nodeId → ∀ operation o,
      s.operations operation = some o → o.active = true → (o.address = address ↔ o.nodeId = nodeId)
  | _ => True

/-- Requests go to, and are acknowledged by, the node that they were made for. -/
structure Routed (s : System) : Prop where
  /-- A request that is transmitted goes to the address of its node at that moment. -/
  sent : ∀ event t r a nodeId, s.step event = some t → s.client.awaiting r = none →
    t.client.awaiting r = some a → t.issuedFor r = some nodeId →
    s.router.deviceAddresses.inverse nodeId = some a.call.address
  /-- The frame that completes a request comes from the address of its node at that moment. -/
  acknowledged : ∀ event t r a b frame nodeId, s.step event = some t → s.client.awaiting r = some a →
    a.response = .pending → t.client.awaiting r = some b → b.response = .result frame →
    s.issuedFor r = some nodeId → ∃ address, event = .receive frame address ∧
      s.router.deviceAddresses.get address = some nodeId

variable {s t : System} {event : SystemEvent} {r : Nat}

/-! ### The addresses -/

/-- What queueing, discovering and dispatching leave alone: the addresses and the answers. -/
structure Router.Aside (s t : Router) : Prop where
  addresses : t.deviceAddresses = s.deviceAddresses
  answers : t.answers = s.answers

theorem keep_aside (s : Router) (address : Address) (frames : List PendingFrame) :
    s.Aside (s.keep address frames) := by
  unfold Router.keep Router.scheduleAddressDiscovery
  split <;> exact ⟨rfl,rfl⟩

theorem queueUnknownFrame_aside (s : Router) (frame : Frame) (address : Address) (receivedAt : Nat) :
    s.Aside (s.queueUnknownFrame frame address receivedAt) := by
  unfold Router.queueUnknownFrame
  simp only
  split
  · exact keep_aside ..
  · split
    · exact ⟨rfl,rfl⟩
    · exact keep_aside ..

theorem replay_aside (s : Router) (address : Address) (nodeId : NodeId) (frames : List PendingFrame) :
    s.Aside (s.replay address nodeId frames) := by
  induction frames generalizing s with
  | nil => exact ⟨rfl,rfl⟩
  | cons pending frames ih =>
    have hrest := ih (s.dispatch address (.frame pending.receivedAt pending.frame nodeId pending.eoj))
    exact ⟨hrest.addresses,hrest.answers⟩

theorem introduce_aside (s : Router) (address : Address) (instances : List EOJ) (receivedAt : Nat) :
    s.Aside (s.introduce address instances receivedAt) := by
  unfold Router.introduce
  split
  · unfold Router.scheduleAddressDiscovery
    split <;> exact ⟨rfl,rfl⟩
  · split
    · exact ⟨rfl,rfl⟩
    · unfold Router.announce
      simp only
      split
      · exact ⟨(replay_aside ..).addresses,(replay_aside ..).answers⟩
      · exact ⟨rfl,rfl⟩

/-- The addresses change by what a frame identifies, and by nothing else. -/
theorem processFrame_addresses (s : Router) (frame : Frame) (address : Address) :
    (s.processFrame frame address).deviceAddresses =
      match identifies frame with
      | some nodeId => s.deviceAddresses.forceput address nodeId
      | none => s.deviceAddresses := by
  unfold Router.processFrame identifies
  simp only
  split
  · next hesv => rw [if_pos (Or.inl hesv)]
  · next hesv =>
    split
    · next hinf =>
      rw [if_pos (Or.inr hinf.2.2)]
      exact (queueUnknownFrame_aside ..).addresses
    · split
      · next hclass =>
        rw [if_neg (not_or.mpr ⟨hesv,not_not.mpr hclass⟩)]
        refine (introduce_aside ..).addresses.trans ?_
        cases (extractDiscoveryInfo frame).1 <;> rfl
      · next hclass =>
        rw [if_pos (Or.inr hclass)]
        have hanswer : (Router.answerInfc {s with clock := s.clock+1} frame address).deviceAddresses =
            s.deviceAddresses := by
          unfold Router.answerInfc
          split <;> rfl
        split
        · exact (queueUnknownFrame_aside ..).addresses.trans hanswer
        · exact hanswer

theorem router_step_addresses {s t : Router} {event : RouterEvent} (h : s.step event = some t)
    (hreceive : ∀ frame address, event ≠ .receive frame address) :
    t.deviceAddresses = s.deviceAddresses := by
  cases event with
  | receive frame address => exact absurd rfl (hreceive frame address)
  | discoveryEnds address =>
    cases h
    unfold Router.discoveryEnds
    split <;> rfl
  | discoveryDone address task =>
    cases h
    unfold Router.discoveryDone
    split <;> rfl
  | stop => cases h; rfl

/-! ### The operations -/

/-- Every request of an operation goes to the address that the operation found, which stays the
address of its node until the operation is finished and its requests have left. -/
structure Addressed (s : System) : Prop where
  table : Table s.client
  issued : ∀ r operation, s.issuer r = some operation → ∃ q o, s.client.requests r = some q ∧
    s.operations operation = some o ∧ q.call.address = o.address ∧
    (o.active = false → ∃ outcome, q.phase = .left outcome)
  mapped : ∀ operation o, s.operations operation = some o → o.active = true →
    s.router.deviceAddresses.inverse o.nodeId = some o.address
  fresh : ∀ operation, s.operationCount ≤ operation → s.operations operation = none

/-- What the requests of an operation owe it survives any moves of requests. -/
theorem Addressed.issued_moves (hs : Addressed s) {client : Client} (hmoves : Moves s.client client)
    {operation : Nat} (hissuer : s.issuer r = some operation) :
    ∃ q o, client.requests r = some q ∧ s.operations operation = some o ∧
      q.call.address = o.address ∧ (o.active = false → ∃ outcome, q.phase = .left outcome) := by
  obtain ⟨q,o,hq,ho,haddress,hleft⟩ := hs.issued r operation hissuer
  obtain ⟨q',hq',hm⟩ := hmoves.moved r q hq
  refine ⟨q',o,hq',ho,by rw [moved_call hm,haddress],fun hactive => ?_⟩
  obtain ⟨outcome,hphase⟩ := hleft hactive
  exact ⟨outcome,by rw [moved_left hm hphase,hphase]⟩

/-- A request of an operation that awaits its response is addressed to the node. -/
theorem Addressed.awaiting (hs : Addressed s) {client : Client} (hmoves : Moves s.client client)
    {operation : Nat} {o : Operation} {a : Awaiting} (hissuer : s.issuer r = some operation)
    (ho : s.operations operation = some o) (ha : client.awaiting r = some a) :
    s.router.deviceAddresses.inverse o.nodeId = some a.call.address := by
  obtain ⟨q,o',hq,ho',haddress,hleft⟩ := hs.issued_moves hmoves hissuer
  cases ho.symm.trans ho'
  obtain ⟨q',hq',hcall,_,hphase⟩ := awaiting_some ha
  cases hq.symm.trans hq'
  have hactive : o.active = true := by
    by_contra hended
    obtain ⟨outcome,hoff⟩ := hleft (by simpa using hended)
    cases hphase.symm.trans hoff
  rw [hs.mapped operation o ho hactive,← haddress,hcall]

theorem settled_left {operation : Nat} (h : s.settled operation = true) {q : Request}
    (hr : r < s.client.requestCount) (hissuer : s.issuer r = some operation)
    (hq : s.client.requests r = some q) : ∃ outcome, q.phase = .left outcome := by
  have hall := List.all_eq_true.mp h r (List.mem_range.mpr hr)
  rw [hq,Option.map_some] at hall
  simp only [hissuer,ne_eq,not_true,decide_false,Bool.false_or] at hall
  split at hall
  · next outcome hphase => exact ⟨outcome,Option.some.inj hphase⟩
  · cases hall

/-- An event of the system is an event of the client, or leaves it alone. -/
theorem step_client (h : s.step event = some t) : t.client = s.client ∨
    ∃ e, s.client.step e = some t.client ∧
      ∀ frame address, e = .receive frame address → event = .receive frame address := by
  unfold System.step at h
  split at h
  · next nodeId =>
    cases h
    unfold System.begin
    split <;> exact Or.inl rfl
  · split at h
    · cases h
      exact Or.inr ⟨.call _ _,rfl,nofun⟩
    · cases h
  · split at h
    · split at h
      · cases h
        exact Or.inl rfl
      · cases h
    · cases h
  · cases h
    refine Or.inr ⟨.receive _ _,rfl,fun _ _ he => ?_⟩
    cases he
    rfl
  · cases h
    exact Or.inr ⟨.stop,rfl,nofun⟩
  · cases h
  · cases h
  · next e hreceive _ =>
    obtain ⟨client,hclient,rfl⟩ := Option.map_eq_some_iff.mp h
    exact Or.inr ⟨e,hclient,fun frame address he => absurd (he ▸ rfl) (hreceive frame address)⟩
  · cases h
  · cases h
  · obtain ⟨router,_,rfl⟩ := Option.map_eq_some_iff.mp h
    exact Or.inl rfl

/-- An event that changes the client keeps the record of operations, unless it issues a request. -/
theorem step_issuer (h : s.step event = some t) : t.client = s.client ∨
    t.issuer = s.issuer ∧ t.operations = s.operations ∨
    ∃ operation o call delivered, s.operations operation = some o ∧ o.active = true ∧
      call.address = o.address ∧ t = s.issue operation call delivered := by
  unfold System.step at h
  split at h
  · cases h
    unfold System.begin
    split <;> exact Or.inl rfl
  · split at h
    · next ho =>
      cases h
      exact Or.inr (Or.inr ⟨_,_,_,_,ho,rfl,rfl,rfl⟩)
    · cases h
  · split at h
    · split at h
      · cases h
        exact Or.inl rfl
      · cases h
    · cases h
  · cases h
    exact Or.inr (Or.inl ⟨rfl,rfl⟩)
  · cases h
    exact Or.inr (Or.inl ⟨rfl,rfl⟩)
  · cases h
  · cases h
  · obtain ⟨client,_,rfl⟩ := Option.map_eq_some_iff.mp h
    exact Or.inr (Or.inl ⟨rfl,rfl⟩)
  · cases h
  · cases h
  · obtain ⟨router,_,rfl⟩ := Option.map_eq_some_iff.mp h
    exact Or.inl rfl

theorem client_kept (hs : Table s.client) (h : s.step event = some t) :
    Table t.client ∧ Moves s.client t.client := by
  rcases step_client h with hsame | ⟨e,he,_⟩
  · rw [hsame]
    exact ⟨hs,moves_of_eq rfl le_rfl⟩
  · exact ⟨table_step hs he,step_moves (hs.fresh _ le_rfl) he⟩

/-- An event that neither begins, issues nor finishes anything. -/
theorem Addressed.quiet (hs : Addressed s) (h : s.step event = some t) (hissuer : t.issuer = s.issuer)
    (hoperations : t.operations = s.operations) (hcount : t.operationCount = s.operationCount)
    (hmapped : ∀ operation o, s.operations operation = some o → o.active = true →
      t.router.deviceAddresses.inverse o.nodeId = some o.address) : Addressed t := by
  obtain ⟨htable,hmoves⟩ := client_kept hs.table h
  refine ⟨htable,fun r operation hr => ?_,by rwa [hoperations],by rw [hoperations,hcount]; exact hs.fresh⟩
  rw [hissuer] at hr
  rw [hoperations]
  exact hs.issued_moves hmoves hr

theorem Addressed.begin (hs : Addressed s) (nodeId : NodeId) : Addressed (s.begin nodeId) := by
  unfold System.begin
  split
  · exact hs
  · next address hlookup =>
    have hnone := hs.fresh _ le_rfl
    refine ⟨hs.table,fun r operation hr => ?_,fun operation o ho hactive => ?_,fun operation hle => ?_⟩
    · obtain ⟨q,o,hq,ho,hrest⟩ := hs.issued r operation hr
      have hne : operation ≠ s.operationCount := by
        rintro rfl
        rw [hnone] at ho
        cases ho
      exact ⟨q,o,hq,(Function.update_of_ne hne ..).trans ho,hrest⟩
    · by_cases hop : operation = s.operationCount
      · subst hop
        cases (Function.update_self ..).symm.trans ho
        exact hlookup
      · exact hs.mapped operation o ((Function.update_of_ne hop ..).symm.trans ho) hactive
    · have hle : s.operationCount < operation := hle
      exact (Function.update_of_ne hle.ne' ..).trans (hs.fresh _ hle.le)

theorem Addressed.issue (hs : Addressed s) {operation : Nat} {o : Operation} {call : Call}
    {delivered : Bool} (ho : s.operations operation = some o) (hactive : o.active = true)
    (hcall : call.address = o.address) : Addressed (s.issue operation call delivered) := by
  have hstep : s.client.step (.call call delivered) = some (s.client.sendRequest call delivered) := rfl
  have hmoves := step_moves (hs.table.fresh _ le_rfl) hstep
  refine ⟨table_step hs.table hstep,fun r operation' hr => ?_,hs.mapped,hs.fresh⟩
  by_cases hnew : r = s.client.requestCount
  · subst hnew
    cases (Function.update_self ..).symm.trans hr
    obtain ⟨q,hq,hqcall⟩ := sendRequest_call s.client call delivered
    refine ⟨q,o,hq,ho,by rw [hqcall,hcall],fun hended => ?_⟩
    rw [hactive] at hended
    cases hended
  · exact hs.issued_moves hmoves ((Function.update_of_ne hnew ..).symm.trans hr)

theorem Addressed.finish (hs : Addressed s) {operation : Nat} {o : Operation}
    (ho : s.operations operation = some o) (hsettled : s.settled operation = true) :
    Addressed (s.finish operation o) := by
  refine ⟨hs.table,fun r operation' hr => ?_,fun operation' o' ho' hactive => ?_,fun operation' hle => ?_⟩
  · obtain ⟨q,o',hq,ho',haddress,hleft⟩ := hs.issued r operation' hr
    by_cases hop : operation' = operation
    · subst hop
      cases ho.symm.trans ho'
      have hlt : r < s.client.requestCount := by
        by_contra hge
        rw [hs.table.fresh r (by omega)] at hq
        cases hq
      exact ⟨q,_,hq,Function.update_self ..,haddress,fun _ => settled_left hsettled hlt hr hq⟩
    · exact ⟨q,o',hq,(Function.update_of_ne hop ..).trans ho',haddress,hleft⟩
  · by_cases hop : operation' = operation
    · subst hop
      cases (Function.update_self ..).symm.trans ho'
      cases hactive
    · exact hs.mapped operation' o' ((Function.update_of_ne hop ..).symm.trans ho') hactive
  · have hop : operation' ≠ operation := by
      rintro rfl
      rw [hs.fresh _ hle] at ho
      cases ho
    exact (Function.update_of_ne hop ..).trans (hs.fresh _ hle)

theorem addressed_step (hs : Addressed s) (hguard : SettledAddresses s event)
    (h : s.step event = some t) : Addressed t := by
  have hstep := h
  unfold System.step at h
  split at h
  · cases h
    exact hs.begin _
  · split at h
    · next ho =>
      cases h
      exact hs.issue ho rfl rfl
    · cases h
  · split at h
    · next ho =>
      split at h
      · next hsettled =>
        cases h
        exact hs.finish ho hsettled
      · cases h
    · cases h
  · next frame address =>
    cases h
    refine hs.quiet hstep rfl rfl rfl fun operation o ho hactive => ?_
    have hmapped := hs.mapped operation o ho hactive
    show (s.router.processFrame frame address).deviceAddresses.inverse o.nodeId = some o.address
    rw [processFrame_addresses]
    split
    · next nodeId hfound =>
      rw [Bidict.inverse_iff_get] at hmapped ⊢
      exact Bidict.get_forceput_of_iff hmapped (hguard nodeId hfound operation o ho hactive)
    · exact hmapped
  · cases h
    exact hs.quiet hstep rfl rfl rfl hs.mapped
  · cases h
  · cases h
  · obtain ⟨client,_,rfl⟩ := Option.map_eq_some_iff.mp h
    exact hs.quiet hstep rfl rfl rfl hs.mapped
  · cases h
  · cases h
  · next hreceive _ =>
    obtain ⟨router,hrouter,rfl⟩ := Option.map_eq_some_iff.mp h
    refine hs.quiet hstep rfl rfl rfl fun operation o ho hactive => ?_
    have hsame := router_step_addresses hrouter fun frame address he => hreceive frame address (by rw [he])
    show router.deviceAddresses.inverse o.nodeId = some o.address
    rw [hsame]
    exact hs.mapped operation o ho hactive

theorem addressed_init : Addressed {} :=
  ⟨table_init,nofun,nofun,fun _ _ => rfl⟩

theorem issuedFor_some {nodeId : NodeId} (h : s.issuedFor r = some nodeId) : ∃ operation o,
    s.issuer r = some operation ∧ s.operations operation = some o ∧ o.nodeId = nodeId := by
  obtain ⟨operation,hissuer,ho⟩ := Option.bind_eq_some_iff.mp h
  obtain ⟨o,ho,hnode⟩ := Option.map_eq_some_iff.mp ho
  exact ⟨operation,o,hissuer,ho,hnode⟩

/-- A request is transmitted to the address of its node. -/
theorem Addressed.sent (hs : Addressed s) (h : s.step event = some t) {a : Awaiting} {nodeId : NodeId}
    (hnone : s.client.awaiting r = none) (ha : t.client.awaiting r = some a)
    (hissued : t.issuedFor r = some nodeId) :
    s.router.deviceAddresses.inverse nodeId = some a.call.address := by
  obtain ⟨operation,o,hissuer,ho,rfl⟩ := issuedFor_some hissued
  have hmoves := (client_kept hs.table h).2
  rcases step_issuer h with hsame | ⟨hissuers,hoperations⟩ | ⟨operation',o',call,delivered,ho',hactive,
    hcall,rfl⟩
  · rw [hsame,hnone] at ha
    cases ha
  · rw [hissuers] at hissuer
    rw [hoperations] at ho
    exact hs.awaiting hmoves hissuer ho ha
  · by_cases hnew : r = s.client.requestCount
    · subst hnew
      cases (Function.update_self ..).symm.trans hissuer
      cases ho'.symm.trans ho
      obtain ⟨q,hq,hqcall⟩ := sendRequest_call s.client call delivered
      obtain ⟨q',hq',hacall,_⟩ := awaiting_some ha
      cases hq.symm.trans hq'
      rw [hs.mapped _ _ ho hactive,← hcall,← hqcall,hacall]
    · exact hs.awaiting hmoves ((Function.update_of_ne hnew ..).symm.trans hissuer) ho ha

/-- A request is acknowledged by its node. -/
theorem Addressed.acknowledged (hs : Addressed s) (h : s.step event = some t) {a b : Awaiting}
    {frame : Frame} {nodeId : NodeId} (ha : s.client.awaiting r = some a) (hpending : a.response = .pending)
    (hb : t.client.awaiting r = some b) (hresult : b.response = .result frame)
    (hissued : s.issuedFor r = some nodeId) : ∃ address, event = .receive frame address ∧
      s.router.deviceAddresses.get address = some nodeId := by
  obtain ⟨operation,o,hissuer,ho,rfl⟩ := issuedFor_some hissued
  rcases step_client h with hsame | ⟨e,he,hreceive⟩
  · rw [hsame,ha] at hb
    cases hb
    cases hpending.symm.trans hresult
  · rcases response_step (step_table (hs.table.fresh _ le_rfl) he) hs.table ha with
      ⟨_,_,_,hleft,_⟩ | ⟨b',hb',hresponse⟩
    · cases hleft.symm.trans hb
    · cases hb.symm.trans hb'
      rcases hresponse with hsame | ⟨_,hstopped | ⟨frame',address,hevent,hmatch,hframe⟩⟩
      · rw [hresult,hpending] at hsame
        cases hsame
      · cases hstopped.symm.trans hresult
      · cases hframe.symm.trans hresult
        refine ⟨address,hreceive frame address hevent,?_⟩
        have hmoves : Moves s.client s.client := moves_of_eq rfl le_rfl
        rw [← Bidict.inverse_iff_get,hmatch.2.1]
        exact hs.awaiting hmoves hissuer ho ha

/-- Requests are routed to the node they were made for, in every run in which the addresses of
the calls in progress stay as they are. -/
theorem routed (h : Reaches System.step SettledAddresses {} s) : Routed s := by
  have hs := h.invariant addressed_init fun _ _ _ hs hguard ht => addressed_step hs hguard ht
  exact ⟨fun event t r a nodeId ht => hs.sent ht,
    fun event t r a b frame nodeId ht => hs.acknowledged ht⟩

/-! ### An address that changes hands -/

def selfIdentification (id : UInt8) : Frame :=
  ⟨nodeProfileInstance,controllerInstance,.inf,0,[⟨EPC.identificationNumber,[0xFE,id]⟩]⟩

/-- The address of one node is known. -/
def known : System :=
  {client := {started := true},
   router := Router.processFrame {} (selfIdentification 0x0A) "192.0.2.1"}

/-- The node is asked and then set by two calls, and the SetC waits behind the Get. -/
def askAndSet : List SystemEvent :=
  [.begin "fe0a",.begin "fe0a",
    .issue 0 temperatureSensor controllerInstance .get [⟨0x80,[]⟩] .poll true,
    .issue 1 temperatureSensor controllerInstance .setc [⟨0x80,[0x31]⟩] .set true]

/-- Another node takes the address over while the SetC waits, and the Get times out. -/
def takeOver : List SystemEvent :=
  askAndSet ++ [.receive (selfIdentification 0x0B) "192.0.2.1",.client (.timeout 0),
    .client (.resume 0 true)]

theorem known_reached : Reaches System.step SettledAddresses {} known :=
  (Reaches.refl.tail (l := .client .start) trivial rfl).tail
    (l := .receive (selfIdentification 0x0A) "192.0.2.1")
    (fun _ _ _ _ ho => by cases ho) rfl

/-- Another node is known, too. -/
def bothKnown : System := {known with router := known.router.processFrame (selfIdentification 0x0B) "192.0.2.2"}

theorem bothKnown_reached : Reaches System.step SettledAddresses {} bothKnown :=
  known_reached.tail (l := .receive (selfIdentification 0x0B) "192.0.2.2") (fun _ _ _ _ ho => by cases ho) rfl

/-- The calls in progress when the SetC waits are to the one node. -/
theorem operations_askAndSet {s : System} (h : exec System.step bothKnown askAndSet = some s) {operation : Nat}
    {o : Operation} (ho : s.operations operation = some o) : o = ⟨"fe0a","192.0.2.1",true⟩ := by
  have hoperations : (exec System.step bothKnown askAndSet).map System.operations =
      some (Function.update (Function.update (fun _ => none) 0 (some ⟨"fe0a","192.0.2.1",true⟩)) 1
        (some ⟨"fe0a","192.0.2.1",true⟩)) := rfl
  rw [h] at hoperations
  rw [Option.some.inj hoperations,Function.update_apply,Function.update_apply] at ho
  split_ifs at ho <;> exact (Option.some.inj ho).symm

/-- The other node moves while the SetC waits, and the Get times out. -/
def moveOther : List SystemEvent :=
  [.receive (selfIdentification 0x0B) "192.0.2.3",.client (.timeout 0),.client (.resume 0 true)]

/-- The SetC goes to its own node. -/
theorem routed_waiting : ∃ s t : System, s.step (.client (.resume 1 true)) = some t ∧
    s.router.deviceAddresses.inverse "fe0b" = some "192.0.2.3" ∧ t.issuedFor 1 = some "fe0a" ∧
    (t.client.awaiting 1).map (fun a => a.call.address) = some "192.0.2.1" ∧ Routed s := by
  have hrun : (exec System.step bothKnown (askAndSet ++ moveOther)).any (fun s =>
      (s.step (.client (.resume 1 true))).any fun t =>
        decide (s.router.deviceAddresses.inverse "fe0b" = some "192.0.2.3" ∧ t.issuedFor 1 = some "fe0a" ∧
          (t.client.awaiting 1).map (fun a => a.call.address) = some "192.0.2.1")) = true := by decide +kernel
  obtain ⟨s,hs,hstep⟩ := (Option.any_eq_true _ _).mp hrun
  obtain ⟨t,ht,hcheck⟩ := (Option.any_eq_true _ _).mp hstep
  obtain ⟨hmoved,hissued,hsent⟩ := of_decide_eq_true hcheck
  refine ⟨s,t,ht,hmoved,hissued,hsent,routed ?_⟩
  obtain ⟨r,hr,hs⟩ := exec_append.mp hs
  have hwaiting : Reaches System.step SettledAddresses {} r :=
    bothKnown_reached.trans (reaches_of_exec (by simp [askAndSet,SettledAddresses]) hr)
  obtain ⟨moved,hmove,hlater⟩ : ∃ moved, r.step (.receive (selfIdentification 0x0B) "192.0.2.3") = some moved ∧
    exec System.step moved [.client (.timeout 0),.client (.resume 0 true)] = some s := ⟨_,rfl,hs⟩
  have hsettled : SettledAddresses r (.receive (selfIdentification 0x0B) "192.0.2.3") := by
    intro nodeId hnode operation o ho _
    cases operations_askAndSet hr ho
    cases hnode
    decide
  exact (hwaiting.tail hsettled hmove).trans (reaches_of_exec (by simp [SettledAddresses]) hlater)

/-- The SetC is sent to the node that took the address over. -/
theorem set_misrouted : ¬ ∀ s, Reachable System.step {} s → Routed s := by
  intro h
  obtain ⟨s,hs⟩ : ∃ s, exec System.step known takeOver = some s := Option.isSome_iff_exists.mp rfl
  obtain ⟨t,ht⟩ : ∃ t, ((exec System.step known takeOver).bind fun s =>
    s.step (.client (.resume 1 true))) = some t := Option.isSome_iff_exists.mp rfl
  have hbefore : (exec System.step known takeOver).map (fun s => s.client.awaiting 1) = some none := rfl
  have hafter : (((exec System.step known takeOver).bind fun s =>
      s.step (.client (.resume 1 true))).map fun t => t.client.awaiting 1) = some (some
        ⟨⟨"192.0.2.1",temperatureSensor,controllerInstance,.setc,[⟨0x80,[0x31]⟩],.set⟩,2,.pending,
          false,false⟩) := rfl
  have hissued : (((exec System.step known takeOver).bind fun s =>
      s.step (.client (.resume 1 true))).map fun t => t.issuedFor 1) = some (some "fe0a") := rfl
  have hunknown : (exec System.step known takeOver).map
      (fun s => s.router.deviceAddresses.inverse "fe0a") = some none := rfl
  rw [ht] at hafter hissued
  rw [hs,Option.bind_some] at ht
  rw [hs] at hbefore hunknown
  have hrun : Reachable System.step {} s := known_reached.reachable.trans (reachable_of_exec hs)
  have hsent := (h s hrun).sent _ t 1 _ _ ht (Option.some.inj hbefore) (Option.some.inj hafter)
    (Option.some.inj hissued)
  cases (Option.some.inj hunknown).symm.trans hsent

end Pyhems.Runtime

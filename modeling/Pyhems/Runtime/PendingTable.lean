import Pyhems.Runtime.Effects

/-! What one event can do to the pending table and to the requests that await a response, said
once. The queues only decide when a request is sent; nothing here depends on them. -/
namespace Pyhems.Runtime
open Protocol Library

/-- A request at the await of its response. -/
structure Awaiting where
  call : Call
  tid : Nat
  response : Future Frame
  timedOut : Bool
  cancelRequested : Bool

def Request.awaiting (q : Request) : Option Awaiting :=
  match q.phase with
  | .awaiting tid response timedOut => some ⟨q.call,tid,response,timedOut,q.cancelRequested⟩
  | _ => none

def Client.awaiting (s : Client) (request : Nat) : Option Awaiting :=
  (s.requests request).bind Request.awaiting

/-- The owners of the futures in the table. -/
def Client.pendingRequests (s : Client) : List Nat :=
  s.pending.entries.map fun entry => entry.2.request

def Awaiting.setResult (a : Awaiting) (frame : Frame) : Awaiting :=
  match a.response with
  | .pending => {a with response := .result frame}
  | _ => a

def Awaiting.fail (a : Awaiting) : Awaiting :=
  match a.response with
  | .pending => {a with response := .exception clientStopped}
  | _ => a

/-- The six things that an event can do to the table and the awaiting requests. -/
inductive TableStep (s : Client) (event : ClientEvent) (t : Client) : Prop where
  | quiet (hpending : ∀ k, t.pending.lookup k = s.pending.lookup k) (ha : t.awaiting = s.awaiting)
  | sent (r tid : Nat) (call : Call) (hr : s.awaiting r = none) (htid : tid ∉ s.pending)
      (hrange : 1 ≤ tid ∧ tid ≤ 0xFFFF) (hstarted : s.started = true)
      (hpending : t.pending = s.pending.insert tid (call.pendingRequest r))
      (ha : t.awaiting = Function.update s.awaiting r (some ⟨call,tid,.pending,false,false⟩))
  | ended (r : Nat) (delivered : Bool) (a : Awaiting) (outcome : Except Exn (Bool × Option Frame))
      (hevent : event = .resume r delivered) (hr : s.awaiting r = some a)
      (houtcome : awaitedOutcome a.cancelRequested a.timedOut a.response = some outcome)
      (hpending : t.pending = s.pending.erase a.tid)
      (ha : t.awaiting = Function.update s.awaiting r none)
      (hleft : ∃ q, t.requests r = some q ∧ q.phase = .left outcome ∧
        q.cancelRequested = a.cancelRequested)
  | marked (r : Nat) (a a' : Awaiting) (hr : s.awaiting r = some a)
      (hmark : event = .cancel r ∧ a' = {a with cancelRequested := true} ∨
        event = .timeout r ∧ a' = {a with timedOut := true})
      (hpending : t.pending = s.pending) (ha : t.awaiting = Function.update s.awaiting r (some a'))
  | answered (frame : Frame) (address : Address) (entry : PendingRequest)
      (hevent : event = .receive frame address) (hentry : s.pending.lookup frame.tid = some entry)
      (hanswers : Answers frame address entry) (hpending : t.pending = s.pending.erase frame.tid)
      (ha : t.awaiting = Function.update s.awaiting entry.request
        ((s.awaiting entry.request).map fun a => a.setResult frame))
  | stopped (hevent : event = .stop) (hpending : t.pending = ∅)
      (ha : ∀ r, t.awaiting r = (s.awaiting r).map fun a =>
        if r ∈ s.pendingRequests then a.fail else a)

variable {s t : Client} {event : ClientEvent} {request : Nat} {q new : Request}

/-! ### The helpers of the client, as seen from the table -/

theorem awaiting_put (s : Client) (request : Nat) (new : Request) :
    (s.put request new).awaiting = Function.update s.awaiting request new.awaiting := by
  funext x
  unfold Client.awaiting Client.put
  by_cases hx : x = request
  · subst hx
    simp
  · simp [hx]

theorem awaiting_put_none (h : s.awaiting request = none) (hnew : new.awaiting = none) :
    (s.put request new).awaiting = s.awaiting := by
  rw [awaiting_put,hnew,← h,Function.update_eq_self]

theorem done_eq_false (h : s.done request = false) :
    ∃ q, s.requests request = some q ∧ q.phase = .queued .pending := by
  unfold Client.done at h
  cases hq : s.requests request with
  | none => simp [hq] at h
  | some q =>
    refine ⟨q,rfl,?_⟩
    rw [hq,Option.map_some] at h
    split at h
    · next future he =>
      rw [Option.some.inj he]
      cases future with
      | pending => rfl
      | _ => cases h
    · cases h

theorem release_granted {queue : NodeRequestQueue} {done : Nat → Bool} {g : Nat}
    (h : (queue.release done).2 = some g) : done g = false := by
  unfold NodeRequestQueue.release at h
  split at h
  · next w rest hpop =>
    cases h
    have hlive := SkipQueue.live_of_pop hpop
    exact hlive
  · cases h

/-- What `release` leaves alone: everything but queue objects and one waiting request. -/
structure Released (s t : Client) : Prop where
  started : t.started = s.started
  stopped : t.stopped = s.stopped
  tidCounter : t.tidCounter = s.tidCounter
  pending : t.pending = s.pending
  nodeQueues : t.nodeQueues = s.nodeQueues
  queueCount : t.queueCount = s.queueCount
  requestCount : t.requestCount = s.requestCount
  requests : ∀ x, t.requests x = s.requests x ∨ ∃ q, s.requests x = some q ∧
    q.phase = .queued .pending ∧
    t.requests x = some {q with phase := .queued (.result ()), obtained := true}

theorem released_release (s : Client) (queue : Nat) : Released s (s.release queue) := by
  unfold Client.release
  cases hrelease : (s.queues queue).release s.done with
  | mk queue' granted =>
    cases granted with
    | none => exact ⟨rfl,rfl,rfl,rfl,rfl,rfl,rfl,fun _ => Or.inl rfl⟩
    | some g =>
      have hdone : s.done g = false := release_granted (congrArg Prod.snd hrelease)
      obtain ⟨q,hq,hphase⟩ := done_eq_false hdone
      simp only [Client.grant,hq]
      refine ⟨rfl,rfl,rfl,rfl,rfl,rfl,rfl,fun x => ?_⟩
      by_cases hx : x = g
      · subst hx
        exact Or.inr ⟨q,hq,hphase,by simp [Client.put]⟩
      · exact Or.inl (by simp [Client.put,hx])

theorem Released.awaiting (h : Released s t) : t.awaiting = s.awaiting := by
  funext x
  unfold Client.awaiting
  rcases h.requests x with he | ⟨q,hq,hphase,ht⟩
  · rw [he]
  · rw [hq,ht]
    simp [Request.awaiting,hphase]

theorem dropIdleQueue_cases (s : Client) (address : Address) (queue : Nat) :
    s.dropIdleQueue address queue = s ∨
      (s.queues queue).idle = true ∧ s.nodeQueues.lookup address = some queue ∧
        s.dropIdleQueue address queue = {s with nodeQueues := s.nodeQueues.erase address} := by
  unfold Client.dropIdleQueue
  split
  · next h =>
    obtain ⟨hidle,hlookup⟩ := Bool.and_eq_true_iff.mp h
    exact Or.inr ⟨hidle,of_decide_eq_true hlookup,rfl⟩
  · exact Or.inl rfl

theorem dropIdleQueue_requests (s : Client) (address : Address) (queue : Nat) :
    (s.dropIdleQueue address queue).requests = s.requests ∧
      (s.dropIdleQueue address queue).pending = s.pending ∧
      (s.dropIdleQueue address queue).requestCount = s.requestCount := by
  rcases dropIdleQueue_cases s address queue with h | ⟨_,_,h⟩ <;> rw [h] <;> exact ⟨rfl,rfl,rfl⟩

/-- The table without the TID of a request that leaves. -/
def Client.popped (s : Client) : Option Nat → AList fun _ : Nat => PendingRequest
  | none => s.pending
  | some tid => s.pending.erase tid

theorem Released.same (h : Released s t) {x : Nat} (hq : s.requests x = some q)
    (hphase : q.phase ≠ .queued .pending) : t.requests x = some q := by
  rcases h.requests x with he | ⟨q',hq',hpending,_⟩
  · exact he.trans hq
  · cases hq.symm.trans hq'
    exact absurd hpending hphase

theorem update_awaiting_none (h : s.awaiting request = none) :
    Function.update s.awaiting request none = s.awaiting := by
  rw [← h,Function.update_eq_self]

theorem awaiting_congr (h : t.requests = s.requests) : t.awaiting = s.awaiting := by
  unfold Client.awaiting
  rw [h]

theorem leave_table (s : Client) (request : Nat) (q : Request) (tid : Option Nat)
    (outcome : Except Exn (Bool × Option Frame)) :
    (s.leave request q tid outcome).pending = s.popped tid ∧
      (s.leave request q tid outcome).awaiting = Function.update s.awaiting request none ∧
      (s.leave request q tid outcome).requests request =
        some {q with phase := .left outcome, releases := q.releases+1} := by
  let new : Request := {q with phase := .left outcome, releases := q.releases+1}
  have hpopped : ∃ u : Client, u.pending = s.popped tid ∧ u.requests = s.requests ∧
      s.leave request q tid outcome =
        ((u.put request new).release q.queue).dropIdleQueue q.call.address q.queue := by
    cases tid with
    | none => exact ⟨s,rfl,rfl,rfl⟩
    | some tid => exact ⟨{s with pending := s.pending.erase tid},rfl,rfl,rfl⟩
  obtain ⟨u,hpending,hrequests,hleave⟩ := hpopped
  have hreleased := released_release (u.put request new) q.queue
  obtain ⟨hdropRequests,hdropPending,_⟩ := dropIdleQueue_requests
    ((u.put request new).release q.queue) q.call.address q.queue
  rw [hleave]
  refine ⟨hdropPending.trans (hreleased.pending.trans hpending),?_,?_⟩
  · rw [awaiting_congr hdropRequests,hreleased.awaiting,awaiting_put,awaiting_congr hrequests]
    rfl
  · rw [hdropRequests]
    exact hreleased.same (q := new) (by simp [Client.put,new]) nofun

theorem nextTransactionId_ok {pending : AList fun _ : Nat => PendingRequest} {turns counter : Nat}
    {tid next : Nat} (h : nextTransactionId pending turns counter = (.ok tid,next)) :
    tid ∉ pending ∧ 1 ≤ tid ∧ tid ≤ 0xFFFF := by
  induction turns generalizing counter with
  | zero => cases h
  | succ turns ih =>
    rw [nextTransactionId] at h
    split at h
    · exact ih h
    · next hnot =>
      cases h
      exact ⟨hnot,by omega,by omega⟩

/-- An inserted TID that leaves again leaves no trace. -/
theorem lookup_erase_insert {pending : AList fun _ : Nat => PendingRequest} {tid : Nat}
    (entry : PendingRequest) (h : tid ∉ pending) (k : Nat) :
    ((pending.insert tid entry).erase tid).lookup k = pending.lookup k := by
  by_cases hk : k = tid
  · subst hk
    rw [AList.lookup_erase,AList.lookup_eq_none.mpr h]
  · rw [AList.lookup_erase_ne hk,AList.lookup_insert_ne hk]

/-- The client with a TID taken and the request entered in the table under it. -/
def Client.entered (s : Client) (request : Nat) (q : Request) (tid tidCounter : Nat) : Client :=
  {s with tidCounter, pending := s.pending.insert tid (q.call.pendingRequest request)}

/-- The three ends of `transmit`: no TID is free, the frame is not sent, or the request waits
for its response. -/
theorem transmit_cases (s : Client) (request : Nat) (q : Request) (delivered : Bool) :
    (∃ counter exn, s.transmit request q delivered =
      {s with tidCounter := counter}.leave request q none (.error exn)) ∨
    ∃ tid counter, (tid ∉ s.pending ∧ 1 ≤ tid ∧ tid ≤ 0xFFFF) ∧
      ((∃ outcome, s.transmit request q delivered =
        (s.entered request q tid counter).leave request q (some tid) outcome) ∨
      s.started = true ∧ s.transmit request q delivered =
        (s.entered request q tid counter).put request {q with phase := .awaiting tid .pending false}) := by
  unfold Client.transmit
  cases hnext : nextTransactionId s.pending 0xFFFF s.tidCounter with
  | mk result counter =>
    cases result with
    | error exn => exact Or.inl ⟨counter,exn,rfl⟩
    | ok tid =>
      refine Or.inr ⟨tid,counter,nextTransactionId_ok hnext,?_⟩
      simp only
      split
      · exact Or.inl ⟨_,rfl⟩
      · exact Or.inl ⟨_,rfl⟩
      · next hsent =>
        refine Or.inr ⟨?_,rfl⟩
        by_contra hstopped
        rw [Bool.not_eq_true] at hstopped
        simp [Client.sendToAddress,hstopped] at hsent

/-- Sending from the slot either leaves no trace in the table or awaits under a new TID. -/
theorem transmit_table (event : ClientEvent) {delivered : Bool} (hr : s.awaiting request = none)
    (hq : q.cancelRequested = false) :
    TableStep s event (s.transmit request q delivered) := by
  rcases transmit_cases s request q delivered with
    ⟨counter,exn,h⟩ | ⟨tid,counter,⟨htid,hrange⟩,⟨outcome,h⟩ | ⟨hstarted,h⟩⟩ <;> rw [h]
  · obtain ⟨hpending,ha,_⟩ := leave_table {s with tidCounter := counter} request q none (.error exn)
    exact .quiet (fun k => by rw [hpending]; rfl) (ha.trans (update_awaiting_none hr))
  · obtain ⟨hpending,ha,_⟩ := leave_table (s.entered request q tid counter) request q (some tid) outcome
    refine .quiet (fun k => ?_) (ha.trans (update_awaiting_none hr))
    rw [hpending]
    exact lookup_erase_insert _ htid k
  · refine .sent request tid q.call hr htid hrange hstarted rfl ((awaiting_put _ _ _).trans ?_)
    simp only [Request.awaiting,hq]
    rfl

/-! ### Every event -/

theorem TableStep.congr {u : Client} (h : TableStep u event t) (hpending : u.pending = s.pending)
    (ha : u.awaiting = s.awaiting) (hstarted : u.started = s.started) : TableStep s event t := by
  have hrequests : u.pendingRequests = s.pendingRequests := by
    unfold Client.pendingRequests
    rw [hpending]
  cases h with
  | quiet hp hq => exact .quiet (hpending ▸ hp) (ha ▸ hq)
  | sent r tid call hr htid hrange hs hp hq =>
    exact .sent r tid call (ha ▸ hr) (hpending ▸ htid) hrange (hstarted ▸ hs) (hpending ▸ hp) (ha ▸ hq)
  | ended r delivered a outcome hevent hr houtcome hp hq hleft =>
    exact .ended r delivered a outcome hevent (ha ▸ hr) houtcome (hpending ▸ hp) (ha ▸ hq) hleft
  | marked r a a' hr hmark hp hq => exact .marked r a a' (ha ▸ hr) hmark (hpending ▸ hp) (ha ▸ hq)
  | answered frame address entry hevent hentry hanswers hp hq =>
    exact .answered frame address entry hevent (hpending ▸ hentry) hanswers (hpending ▸ hp) (ha ▸ hq)
  | stopped hevent hp hq => exact .stopped hevent hp (hrequests ▸ ha ▸ hq)

theorem TableStep.of_eq (hpending : t.pending = s.pending) (ha : t.awaiting = s.awaiting) :
    TableStep s event t := .quiet (fun _ => by rw [hpending]) ha

theorem awaiting_eq (h : s.requests request = some q) : s.awaiting request = q.awaiting := by
  unfold Client.awaiting
  rw [h,Option.bind_some]

theorem awaiting_queued {future : Future Unit} (h : s.requests request = some q)
    (hphase : q.phase = .queued future) : s.awaiting request = none := by
  rw [awaiting_eq h,Request.awaiting,hphase]

theorem awaiting_at {tid : Nat} {response : Future Frame} {timedOut : Bool}
    (h : s.requests request = some q) (hphase : q.phase = .awaiting tid response timedOut) :
    s.awaiting request = some ⟨q.call,tid,response,timedOut,q.cancelRequested⟩ := by
  rw [awaiting_eq h,Request.awaiting,hphase]

theorem awaiting_some {a : Awaiting} (h : s.awaiting request = some a) :
    ∃ q, s.requests request = some q ∧ q.call = a.call ∧ q.cancelRequested = a.cancelRequested ∧
      q.phase = .awaiting a.tid a.response a.timedOut := by
  obtain ⟨q,hq,ha⟩ := Option.bind_eq_some_iff.mp h
  unfold Request.awaiting at ha
  split at ha
  · next hphase =>
    cases ha
    exact ⟨q,hq,rfl,rfl,hphase⟩
  · cases ha

theorem abandon_table (h : s.requests request = some q) {future : Future Unit}
    (hphase : q.phase = .queued future) (release : Bool) (exn : Exn) :
    TableStep s event (s.abandon request q release exn) := by
  have hnone := awaiting_queued h hphase
  cases release with
  | false => exact .of_eq rfl (awaiting_put_none hnone rfl)
  | true =>
    have hreleased := released_release (s.put request
      {q with phase := .left (.error exn), releases := q.releases+1}) q.queue
    exact .of_eq hreleased.pending (hreleased.awaiting.trans (awaiting_put_none hnone rfl))

theorem mark_table (h : s.requests request = some q) :
    TableStep s (.cancel request) (s.put request {q with cancelRequested := true}) := by
  cases ha : q.awaiting with
  | none =>
    refine .of_eq rfl (awaiting_put_none (by rw [awaiting_eq h,ha]) ?_)
    unfold Request.awaiting at ha ⊢
    split at ha
    · cases ha
    · rfl
  | some a =>
    refine .marked request a {a with cancelRequested := true} (by rw [awaiting_eq h,ha])
      (Or.inl ⟨rfl,rfl⟩) rfl ((awaiting_put _ _ _).trans ?_)
    unfold Request.awaiting at ha
    split at ha
    · next hphase =>
      cases ha
      simp [Request.awaiting,hphase]
    · cases ha

/-- The frame reaches the future of the request, if that is still pending. -/
theorem answered_awaiting {tid : Nat} {timedOut : Bool} (frame : Frame)
    (h : s.requests request = some q) (hphase : q.phase = .awaiting tid .pending timedOut) :
    (s.put request {q with phase := .awaiting tid (.result frame) timedOut}).awaiting =
      Function.update s.awaiting request ((s.awaiting request).map fun a => a.setResult frame) := by
  rw [awaiting_put,awaiting_at h hphase]
  rfl

theorem dropped_awaiting (frame : Frame) (hdone : ∀ q tid timedOut, s.requests request = some q →
      q.phase ≠ .awaiting tid .pending timedOut) :
    s.awaiting =
      Function.update s.awaiting request ((s.awaiting request).map fun a => a.setResult frame) := by
  have hsame : ((s.awaiting request).map fun a => a.setResult frame) = s.awaiting request := by
    cases ha : s.awaiting request with
    | none => rfl
    | some a =>
      obtain ⟨q,hq,_,_,hphase⟩ := awaiting_some ha
      have hpending : a.response ≠ .pending := fun he => hdone q _ _ hq (he ▸ hphase)
      rw [Option.map_some,Awaiting.setResult]
      split
      · next he => exact absurd he hpending
      · rfl
  rw [hsame,Function.update_eq_self]

/-- `stop` fails the responses of the requests in the table. -/
theorem stop_awaiting (hstarted : s.started = true) (r : Nat) : s.stop.awaiting r =
    (s.awaiting r).map fun a => if r ∈ s.pendingRequests then a.fail else a := by
  have hstop : s.stop.requests r = (s.requests r).map fun q =>
      if r ∈ s.failedByStop then {q with phase := q.phase.fail} else q := by
    simp [Client.stop,hstarted]
  unfold Client.awaiting
  rw [hstop]
  cases hr : s.requests r with
  | none => rfl
  | some q =>
    simp only [Option.map_some,Option.bind_some]
    have hqueued : ∀ queue : NodeRequestQueue, r ∈ (queue.failWaiters s.done).2 →
        q.phase = .queued .pending := by
      intro queue hmem
      have hdone := (List.mem_filter.mp hmem).2
      obtain ⟨q',hq',hphase⟩ := done_eq_false (by simpa using hdone)
      cases hr.symm.trans hq'
      exact hphase
    by_cases hmem : r ∈ s.pendingRequests
    · have hfailed : r ∈ s.failedByStop := List.mem_append_left _ hmem
      simp only [hfailed,hmem,if_true]
      unfold Request.awaiting
      cases q.phase with
      | queued future => cases future <;> rfl
      | awaiting tid response timedOut => cases response <;> rfl
      | left outcome => rfl
    · simp only [hmem,if_false]
      split
      · next hfailed =>
        rcases List.mem_append.mp hfailed with hpending | hwaiting
        · exact absurd hpending hmem
        · obtain ⟨entry,_,hwaiting⟩ := List.mem_flatMap.mp hwaiting
          rw [Request.awaiting,Request.awaiting,hqueued _ hwaiting]
          rfl
      · simp

theorem stop_table (s : Client) : TableStep s .stop s.stop := by
  cases hstarted : s.started with
  | false => exact .of_eq (by simp [Client.stop,hstarted]) (by simp [Client.stop,hstarted])
  | true => exact .stopped rfl (by simp [Client.stop,hstarted]) (stop_awaiting hstarted)

theorem nodeQueue_frame (s : Client) (address : Address) :
    (s.nodeQueue address).1.pending = s.pending ∧ (s.nodeQueue address).1.requests = s.requests ∧
      (s.nodeQueue address).1.started = s.started ∧
      (s.nodeQueue address).1.requestCount = s.requestCount := by
  unfold Client.nodeQueue
  split <;> exact ⟨rfl,rfl,rfl,rfl⟩

theorem sendRequest_eq (s : Client) (call : Call) (delivered : Bool) :
    ∃ u queue, s.nodeQueue call.address = (u,queue) ∧ s.sendRequest call delivered =
      if (u.acquire call queue).2.obtained then
        (u.acquire call queue).1.transmit s.requestCount (u.acquire call queue).2 delivered
      else (u.acquire call queue).1 :=
  ⟨_,_,rfl,rfl⟩

/-- `acquire` only adds a request. -/
theorem acquire_eq (s : Client) (call : Call) (queue : Nat) :
    ∃ u : Client, (s.acquire call queue).1 = u.put s.requestCount (s.acquire call queue).2 ∧
      u.pending = s.pending ∧ u.started = s.started ∧ u.requests = s.requests ∧
      u.requestCount = s.requestCount+1 :=
  ⟨_,rfl,rfl,rfl,rfl,rfl⟩

theorem acquire_table (s : Client) (call : Call) (queue : Nat)
    (hnone : s.awaiting s.requestCount = none) :
    (s.acquire call queue).1.pending = s.pending ∧ (s.acquire call queue).1.started = s.started ∧
      (s.acquire call queue).1.awaiting = s.awaiting := by
  obtain ⟨u,hacquire,hpending,hstarted,hrequests,_⟩ := acquire_eq s call queue
  have hu := awaiting_congr hrequests
  rw [hacquire]
  refine ⟨hpending,hstarted,?_⟩
  rw [awaiting_put_none ((congrFun hu _).trans hnone) rfl,hu]

theorem sendRequest_table (hfresh : s.requests s.requestCount = none) (call : Call)
    (delivered : Bool) : TableStep s (.call call delivered) (s.sendRequest call delivered) := by
  obtain ⟨u,queue,hqueue,hsend⟩ := sendRequest_eq s call delivered
  obtain ⟨hpending,hrequests,hstarted,hcount⟩ := nodeQueue_frame s call.address
  rw [hqueue] at hpending hrequests hstarted hcount
  have hu : u.awaiting = s.awaiting := awaiting_congr hrequests
  have hnone : u.awaiting u.requestCount = none := by
    rw [Client.awaiting,hrequests,hcount,hfresh,Option.bind_none]
  obtain ⟨hp,hs,ha⟩ := acquire_table u call queue hnone
  rw [hsend]
  split
  · refine (transmit_table _ ?_ rfl).congr (hp.trans hpending) (ha.trans hu) (hs.trans hstarted)
    rw [ha,← hcount]
    exact hnone
  · exact .of_eq (hp.trans hpending) (ha.trans hu)

/-- Every event is one of the six kinds. -/
theorem step_table (hfresh : s.requests s.requestCount = none) (h : s.step event = some t) :
    TableStep s event t := by
  cases step_effect h with
  | start => exact .of_eq rfl rfl
  | stop => exact stop_table s
  | called call delivered => exact sendRequest_table hfresh call delivered
  | allocated => exact .of_eq rfl rfl
  | withdrawn r delivered q release exn hq hphase =>
    rcases hphase with ⟨hphase,_⟩ | ⟨_,hphase⟩ <;> exact abandon_table hq hphase release exn
  | handedBack r delivered q hq hphase => exact abandon_table hq hphase true _
  | transmitted r delivered q hq hphase hcancel =>
    exact transmit_table _ (awaiting_queued hq hphase) hcancel
  | ended r delivered q tid response timedOut outcome hq hphase houtcome =>
    obtain ⟨hpending,ha,hleft⟩ := leave_table s r q (some tid) outcome
    exact .ended r delivered ⟨q.call,tid,response,timedOut,q.cancelRequested⟩ outcome rfl
      (awaiting_at hq hphase) houtcome hpending ha ⟨_,hleft,rfl,rfl⟩
  | abandoned r q hq hphase =>
    exact .of_eq rfl (awaiting_put_none (awaiting_queued hq hphase) rfl)
  | marked r q hq => exact mark_table hq
  | timedOut r q tid response before hq hphase =>
    exact .marked r ⟨q.call,tid,response,before,q.cancelRequested⟩
      ⟨q.call,tid,response,true,q.cancelRequested⟩ (awaiting_at hq hphase) (Or.inr ⟨rfl,rfl⟩) rfl
      (awaiting_put _ _ _)
  | ignored => exact .of_eq rfl rfl
  | answered frame address entry q tid timedOut hentry hanswers hq hphase =>
    let u : Client := {s with pending := s.pending.erase frame.tid}
    have hq : u.requests entry.request = some q := hq
    exact .answered frame address entry rfl hentry hanswers rfl (answered_awaiting frame hq hphase)
  | dropped frame address entry hentry hanswers hdone =>
    exact .answered frame address entry rfl hentry hanswers rfl (dropped_awaiting frame hdone)

end Pyhems.Runtime

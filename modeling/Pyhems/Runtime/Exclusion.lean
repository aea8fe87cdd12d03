import Pyhems.Runtime.Queues
import Pyhems.Runtime.TidOwnership

/-! At most one outstanding request for each address, over every interleaving. While the client
runs, the queues give the exclusion; `stop` drains them, and from then on every
request leaves without a wait. -/
namespace Pyhems.Runtime
open Protocol Library Transition

/-- No request waits for a slot. -/
def Client.Quiet (s : Client) : Prop := ∀ r q, s.requests r = some q → ¬ q.Waiting

/-- Nothing waits for a slot, and no queue is registered. -/
structure Drained (s : Client) : Prop where
  nodes : ∀ address, s.nodeQueues.lookup address = none
  quiet : s.Quiet

variable {s t : Client} {event : ClientEvent} {request : Nat} {q new : Request}

/-! ### A drained client stays drained -/

theorem Drained.congr (hs : Drained s) (hrequests : t.requests = s.requests)
    (hnodes : t.nodeQueues = s.nodeQueues) : Drained t :=
  ⟨hnodes ▸ hs.nodes,fun r q hq => hs.quiet r q (hrequests ▸ hq)⟩

theorem quiet_put (hs : s.Quiet) (request : Nat) (hnew : ¬ new.Waiting) :
    (s.put request new).Quiet := by
  intro r q hq
  by_cases hr : r = request
  · rw [hr,put_self] at hq
    cases hq
    exact hnew
  · rw [put_of_ne s new hr] at hq
    exact hs r q hq

theorem quiet_release (hs : s.Quiet) (k : Nat) : (s.release k).Quiet := by
  intro r q hq
  rcases (released_release s k).requests r with hsame | ⟨q',_,_,hgranted⟩
  · exact hs r q (hsame.symm.trans hq)
  · cases hgranted.symm.trans hq
    nofun

theorem quiet_leave (hs : s.Quiet) (tid : Option Nat) (outcome : Except Exn (Bool × Option Frame)) :
    (s.leave request q tid outcome).Quiet := by
  let u : Client := {s with pending := s.popped tid}
  have hu : u.Quiet := hs
  have hleft : ¬ Request.Waiting {q with phase := .left outcome, releases := q.releases+1} := nofun
  have hreleased := quiet_release (quiet_put hu request hleft) q.queue
  intro r q' hq'
  rw [leave_eq,(dropIdleQueue_requests _ _ _).1] at hq'
  exact hreleased r q' hq'

theorem Drained.put (hs : Drained s) (hnew : ¬ new.Waiting) : Drained (s.put request new) :=
  ⟨hs.nodes,quiet_put hs.quiet request hnew⟩

theorem Drained.release (hs : Drained s) (k : Nat) : Drained (s.release k) :=
  ⟨(released_release s k).nodeQueues ▸ hs.nodes,quiet_release hs.quiet k⟩

theorem Drained.leave (hs : Drained s) (tid : Option Nat)
    (outcome : Except Exn (Bool × Option Frame)) : Drained (s.leave request q tid outcome) := by
  refine ⟨?_,quiet_leave hs.quiet tid outcome⟩
  let u : Client := {s with pending := s.popped tid}.put request
    {q with phase := .left outcome, releases := q.releases+1}
  have hreleased : ∀ address, (u.release q.queue).nodeQueues.lookup address = none := by
    rw [(released_release u q.queue).nodeQueues]
    exact hs.nodes
  have hleave : s.leave request q tid outcome =
      (u.release q.queue).dropIdleQueue q.call.address q.queue := leave_eq ..
  rw [hleave]
  rcases dropIdleQueue_cases (u.release q.queue) q.call.address q.queue with h | ⟨_,hlookup,_⟩
  · rwa [h]
  · rw [hreleased] at hlookup
    cases hlookup

theorem Drained.transmit (hs : Drained s) (delivered : Bool) :
    Drained (s.transmit request q delivered) := by
  rcases transmit_cases s request q delivered with
    ⟨counter,exn,h⟩ | ⟨tid,counter,_,⟨outcome,h⟩ | ⟨_,h⟩⟩ <;> rw [h]
  · have hu : Drained {s with tidCounter := counter} := hs.congr rfl rfl
    exact hu.leave _ _
  · have hu : Drained (s.entered request q tid counter) := hs.congr rfl rfl
    exact hu.leave _ _
  · have hu : Drained (s.entered request q tid counter) := hs.congr rfl rfl
    exact hu.put nofun

theorem Drained.abandon (hs : Drained s) (release : Bool) (exn : Exn) :
    Drained (s.abandon request q release exn) := by
  cases release with
  | false => exact hs.put nofun
  | true =>
    have hput : Drained (s.put request
      {q with phase := .left (.error exn), releases := q.releases+1}) := hs.put nofun
    exact hput.release _

/-- A request on a fresh queue that leaves at once takes the queue's registration with it. -/
theorem leave_unregisters {tid : Option Nat} {outcome : Except Exn (Bool × Option Frame)}
    (hwaiters : (s.queues q.queue).waiters = [])
    (hlookup : s.nodeQueues.lookup q.call.address = some q.queue) :
    (s.leave request q tid outcome).nodeQueues = s.nodeQueues.erase q.call.address := by
  let u : Client := {s with pending := s.popped tid}.put request
    {q with phase := .left outcome, releases := q.releases+1}
  have hreleased := released_release u q.queue
  have hidle : ((u.release q.queue).queues q.queue).idle = true := by
    have hu : (u.queues q.queue).waiters = [] := hwaiters
    rw [release_queues,Function.update_self]
    unfold NodeRequestQueue.release
    rw [hu]
    rfl
  have hdrop : (u.release q.queue).dropIdleQueue q.call.address q.queue =
      {u.release q.queue with nodeQueues := (u.release q.queue).nodeQueues.erase q.call.address} := by
    have hu : u.nodeQueues.lookup q.call.address = some q.queue := hlookup
    unfold Client.dropIdleQueue
    rw [hreleased.nodeQueues,hidle,Bool.true_and,if_pos (decide_eq_true hu)]
  have hleave : s.leave request q tid outcome =
      (u.release q.queue).dropIdleQueue q.call.address q.queue := leave_eq ..
  rw [hleave,hdrop]
  exact congrArg (AList.erase q.call.address) hreleased.nodeQueues

/-- Without a socket a new request takes a fresh queue, is not sent, and leaves at once. -/
theorem Drained.sendRequest (hs : Drained s) (hstarted : s.started = false) (call : Call)
    (delivered : Bool) : Drained (s.sendRequest call delivered) := by
  obtain ⟨u,k,hqueue,hsend⟩ := sendRequest_eq s call delivered
  have hregister : s.nodeQueue call.address = (s.registerQueue call.address,s.queueCount) := by
    rw [Client.nodeQueue,hs.nodes]
  obtain ⟨rfl,rfl⟩ := Prod.mk.inj (hregister.symm.trans hqueue)
  let v := ((s.registerQueue call.address).acquire call s.queueCount).1
  let q := ((s.registerQueue call.address).acquire call s.queueCount).2
  have hempty : (s.registerQueue call.address).queues s.queueCount = {} := Function.update_self ..
  have hidle : ((s.registerQueue call.address).queues s.queueCount).idle = true := by
    rw [hempty]
    rfl
  have hobtained : q.obtained = true := by
    have hdirect := NodeRequestQueue.acquire_direct ((s.registerQueue call.address).queues s.queueCount)
      call.priority (s.registerQueue call.address).requestCount
    exact hdirect.trans hidle
  have hwaiters : (v.queues s.queueCount).waiters = [] := by
    have hv : v.queues s.queueCount = (((s.registerQueue call.address).queues s.queueCount).acquire
        call.priority s.requestCount).1 := Function.update_self ..
    rw [hv,NodeRequestQueue.acquire,if_pos hidle,hempty]
  have hnodes : v.nodeQueues = s.nodeQueues.insert call.address s.queueCount := rfl
  have hlookup : v.nodeQueues.lookup call.address = some s.queueCount := by
    rw [hnodes,AList.lookup_insert]
  have hquiet : v.Quiet := by
    have hphase := acquire_phase (s.registerQueue call.address) call s.queueCount
    have hnew : ¬ q.Waiting := by
      rw [Request.Waiting,hphase,hidle]
      simp
    have hput := quiet_put hs.quiet s.requestCount hnew
    exact hput
  have hleave : ∀ (w : Client) tid outcome, w.queues = v.queues → w.nodeQueues = v.nodeQueues →
      w.requests = v.requests → Drained (w.leave s.requestCount q tid outcome) := by
    intro w tid outcome hqueues hwnodes hrequests
    have hw : w.Quiet := fun r q' hq' => hquiet r q' (hrequests ▸ hq')
    have hunregistered : (w.leave s.requestCount q tid outcome).nodeQueues =
        w.nodeQueues.erase call.address :=
      leave_unregisters (by rw [hqueues]; exact hwaiters) (by rw [hwnodes]; exact hlookup)
    refine ⟨fun address => ?_,quiet_leave hw tid outcome⟩
    rw [hunregistered,hwnodes,hnodes]
    by_cases ha : address = call.address
    · rw [ha,AList.lookup_erase]
    · rw [AList.lookup_erase_ne ha,AList.lookup_insert_ne ha,hs.nodes]
  have hv : v.started = false := hstarted
  rw [hsend,if_pos hobtained]
  rcases transmit_cases v s.requestCount q delivered with
    ⟨counter,exn,h⟩ | ⟨tid,counter,_,⟨outcome,h⟩ | ⟨hopen,_⟩⟩
  · rw [h]
    exact hleave {v with tidCounter := counter} none _ rfl rfl rfl
  · rw [h]
    exact hleave (v.entered s.requestCount q tid counter) _ _ rfl rfl rfl
  · rw [hv] at hopen
    cases hopen

theorem Drained.step (hs : Drained s) (hstarted : s.started = false) (h : s.step event = some t) :
    Drained t := by
  cases step_effect h with
  | start | allocated | dropped => exact hs.congr rfl rfl
  | stop => simpa [Client.stop,hstarted] using hs
  | called call delivered => exact hs.sendRequest hstarted call delivered
  | withdrawn | handedBack => exact hs.abandon _ _
  | transmitted => exact hs.transmit _
  | ended => exact hs.leave _ _
  | marked r q hq =>
    have hquiet := hs.quiet _ _ hq
    exact hs.put hquiet
  | abandoned | timedOut => exact hs.put fun h => by cases h
  | ignored => exact hs
  | answered frame =>
    have hu : Drained {s with pending := s.pending.erase frame.tid} := hs.congr rfl rfl
    exact hu.put fun h => by cases h

/-! ### Stop drains a running client -/

/-- A request that waits for a slot is in a registered queue, where `stop` finds it. -/
theorem Queues.failedByStop (hs : Queues s) (hq : s.requests request = some q) (hwaiting : q.Waiting) :
    request ∈ s.failedByStop := by
  have hlookup := hs.registered _ _ hq (Or.inl hwaiting)
  obtain ⟨w,hw,hrequest⟩ := (hs.coherent q.queue).queued request ⟨q,hq,rfl,hwaiting⟩
  have hdone : s.done request = false := (done_eq_false_iff s request).mpr ⟨q,hq,hwaiting⟩
  refine List.mem_append_right _ (List.mem_flatMap.mpr ⟨_,AList.mem_lookup_iff.mp hlookup,?_⟩)
  refine List.mem_filter.mpr ⟨List.mem_map.mpr ⟨w,hw,hrequest⟩,?_⟩
  rw [hdone]
  rfl

theorem fail_not_waiting (phase : Phase) : phase.fail ≠ .queued .pending := by
  cases phase with
  | queued future => cases future <;> nofun
  | awaiting tid response timedOut => cases response <;> nofun
  | left outcome => nofun

theorem Queues.stop (hs : Queues s) (hstarted : s.started = true) : Drained s.stop := by
  have hnodes : s.stop.nodeQueues = ∅ := by simp [Client.stop,hstarted]
  have hrequests : ∀ r, s.stop.requests r = (s.requests r).map fun q =>
      if r ∈ s.failedByStop then {q with phase := q.phase.fail} else q := by
    intro r
    simp [Client.stop,hstarted]
  refine ⟨fun address => by rw [hnodes,AList.lookup_empty],fun r q hq => ?_⟩
  obtain ⟨q',hq',hfail⟩ := Option.map_eq_some_iff.mp ((hrequests r).symm.trans hq)
  rw [← hfail]
  split
  · exact fail_not_waiting _
  · next hnot => exact fun hwaiting => hnot (hs.failedByStop hq' hwaiting)

/-- While the client runs its queues are in step, and once stopped it is drained. -/
def Client.Lifecycle (s : Client) : Prop :=
  (s.stopped = false → Queues s) ∧ (s.stopped = true → s.started = false ∧ Drained s)

theorem lifecycle_step (hs : s.Lifecycle) (hone : OneStop s event) (h : s.step event = some t) :
    t.Lifecycle := by
  rcases step_lifecycle h with hsame | ⟨rfl,rfl⟩ | ⟨rfl,hstarted,rfl,hclosed⟩
  · obtain ⟨hstarted,hstopped⟩ := Prod.mk.inj hsame
    refine ⟨fun hrunning => ?_,fun hended => ?_⟩
    · have hqueues := hs.1 (hstopped ▸ hrunning)
      by_cases hstop : event = .stop
      · subst hstop
        cases hopen : s.started with
        | false =>
          cases h
          simpa [Client.stop,hopen] using hqueues
        | true =>
          cases h
          simp [Client.stop,hopen] at hrunning
      · exact hqueues.step h hstop
    · obtain ⟨hclosed,hdrained⟩ := hs.2 (hstopped ▸ hended)
      exact ⟨hstarted.trans hclosed,hdrained.step hclosed h⟩
  · have hrunning := hone rfl
    exact ⟨fun _ => (hs.1 hrunning).congr rfl rfl rfl rfl rfl,fun hended => by
      cases hrunning.symm.trans hended⟩
  · obtain ⟨hclosed,hstopped⟩ := Prod.mk.inj hclosed
    have hrunning : s.stopped = false := by
      by_contra hended
      have hclosed := (hs.2 (by simpa using hended)).1
      rw [hstarted] at hclosed
      cases hclosed
    exact ⟨fun h => (by cases hstopped.symm.trans h),fun _ => ⟨hclosed,(hs.1 hrunning).stop hstarted⟩⟩

/-! ### The exclusion -/

/-- The request side of the client in one state. -/
structure Exclusive (s : Client) : Prop where
  /-- An address has at most one entry in the table. -/
  single : ∀ tid tid' e e', s.pending.lookup tid = some e → s.pending.lookup tid' = some e' →
    e.address = e'.address → tid = tid'
  /-- Pending TIDs are in range. -/
  range : ∀ tid e, s.pending.lookup tid = some e → 1 ≤ tid ∧ tid ≤ 0xFFFF
  /-- Unanswered requests differ in their addresses and in their TIDs. -/
  outstanding : ∀ r r' a a', s.awaiting r = some a → s.awaiting r' = some a' →
    a.response = .pending → a'.response = .pending →
    a.call.address = a'.call.address ∨ a.tid = a'.tid → r = r'
  /-- A request that obtained the slot has released it once when it has left, and not before. -/
  released : ∀ r q, s.requests r = some q → q.obtained = true →
    ((∃ outcome, q.phase = .left outcome) → q.releases = 1) ∧
      ((∀ outcome, q.phase ≠ .left outcome) → q.releases = 0)
  /-- The table holds the TIDs of the unanswered requests and no others: each leaves it with its
  own request only. -/
  removed : ∀ tid r, (∃ e, s.pending.lookup tid = some e ∧ e.request = r) ↔
    ∃ a, s.awaiting r = some a ∧ a.tid = tid ∧ a.response = .pending
  /-- A request that waits for a slot waits behind the owner of the slot. -/
  behind : ∀ r q, s.requests r = some q → q.Waiting →
    (s.queues q.queue).busy = true ∧ ∃ o, s.Owns q.queue o
  /-- After `stop` nothing is left to wait for. -/
  resolved : s.stopped = true → ∀ r q, s.requests r = some q →
    ¬ q.Waiting ∧ ∀ tid timedOut, q.phase ≠ .awaiting tid .pending timedOut

/-- An unanswered request is in the table of a client that is still open. -/
theorem running_of_unanswered {r : Nat} {a : Awaiting} (htable : Table s) (htracked : Tracked s)
    (hlife : s.Lifecycle) (ha : s.awaiting r = some a) (hpending : a.response = .pending) :
    s.stopped = false := by
  have hlookup := htracked r a ha hpending
  by_contra hstopped
  rw [htable.closed (hlife.2 (by simpa using hstopped)).1] at hlookup
  cases hlookup

theorem outstanding_unique {r r' : Nat} {a a' : Awaiting} (htable : Table s) (htracked : Tracked s)
    (hlife : s.Lifecycle) (ha : s.awaiting r = some a) (ha' : s.awaiting r' = some a')
    (hpending : a.response = .pending) (hpending' : a'.response = .pending)
    (hsame : a.call.address = a'.call.address ∨ a.tid = a'.tid) : r = r' := by
  rcases hsame with haddress | htid
  · have hqueues := hlife.1 (running_of_unanswered htable htracked hlife ha hpending)
    obtain ⟨q,hq,hcall,_,hphase⟩ := awaiting_some ha
    obtain ⟨q',hq',hcall',_,hphase'⟩ := awaiting_some ha'
    refine hqueues.unique_address hq hq' (Or.inr ⟨_,_,_,hphase⟩) (Or.inr ⟨_,_,_,hphase'⟩) ?_
    rw [hcall,hcall',haddress]
  · have hlookup := htracked r a ha hpending
    rw [htid,htracked r' a' ha' hpending'] at hlookup
    exact (congrArg PendingRequest.request (Option.some.inj hlookup)).symm

theorem entry_iff (htable : Table s) (htracked : Tracked s) (tid r : Nat) :
    (∃ e, s.pending.lookup tid = some e ∧ e.request = r) ↔
      ∃ a, s.awaiting r = some a ∧ a.tid = tid ∧ a.response = .pending := by
  constructor
  · rintro ⟨e,he,rfl⟩
    obtain ⟨_,a,ha,htid,hpending,_⟩ := htable.entered tid e he
    exact ⟨a,ha,htid,hpending⟩
  · rintro ⟨a,ha,rfl,hpending⟩
    exact ⟨_,htracked r a ha hpending,rfl⟩

theorem entry_unique {tid tid' : Nat} {e e' : PendingRequest} (htable : Table s)
    (htracked : Tracked s) (hlife : s.Lifecycle) (he : s.pending.lookup tid = some e)
    (he' : s.pending.lookup tid' = some e') (haddress : e.address = e'.address) : tid = tid' := by
  obtain ⟨_,a,ha,rfl,hpending,hcall⟩ := htable.entered tid e he
  obtain ⟨_,a',ha',rfl,hpending',hcall'⟩ := htable.entered tid' e' he'
  rw [hcall,hcall'] at haddress
  have hrequest := outstanding_unique htable htracked hlife ha ha' hpending hpending' (Or.inl haddress)
  rw [hrequest,ha'] at ha
  rw [Option.some.inj ha]

theorem Request.Counted.released (h : q.Counted) (hobtained : q.obtained = true) :
    ((∃ outcome, q.phase = .left outcome) → q.releases = 1) ∧
      ((∀ outcome, q.phase ≠ .left outcome) → q.releases = 0) := by
  unfold Request.Counted at h
  cases hphase : q.phase with
  | left outcome =>
    rw [hphase] at h
    exact ⟨fun _ => h hobtained,fun hnot => absurd rfl (hnot outcome)⟩
  | awaiting tid response timedOut =>
    rw [hphase] at h
    exact ⟨nofun,fun _ => h.2⟩
  | queued future =>
    rw [hphase] at h
    refine ⟨nofun,fun _ => ?_⟩
    cases future <;> exact h.2

/-- In runs with one stop where requests that end own their TIDs, each address has at most one
outstanding request, and nothing is left behind. -/
theorem exclusive (h : Reaches Client.step (fun s event => OwnTid s event ∧ OneStop s event) {} s) :
    Exclusive s := by
  have htable := table_reached h
  have htracked := tracked_reached h fun _ _ hguard => hguard.1
  have hcounted : ∀ r q, s.requests r = some q → q.Counted :=
    h.invariant₂ (fun _ => table_reached) (fun _ _ hq => by cases hq)
      fun _ _ _ hs hcounted _ ht => counted_step hs.fresh ht hcounted
  have hlife : s.Lifecycle :=
    h.invariant ⟨fun _ => queues_init,nofun⟩ fun _ _ _ hs hguard ht => lifecycle_step hs hguard.2 ht
  refine ⟨fun tid tid' e e' => entry_unique htable htracked hlife,
    fun tid e he => (htable.entered tid e he).1,
    fun r r' a a' => outstanding_unique htable htracked hlife,
    fun r q hq => (hcounted r q hq).released,entry_iff htable htracked,fun r q hq hwaiting => ?_,
    fun hstopped r q hq => ⟨(hlife.2 hstopped).2.quiet r q hq,fun tid timedOut hphase => ?_⟩⟩
  · have hrunning : s.stopped = false := by
      by_contra hstopped
      exact (hlife.2 (by simpa using hstopped)).2.quiet r q hq hwaiting
    have hcoherent := (hlife.1 hrunning).coherent q.queue
    have howner := hcoherent.exists_owner ⟨q,hq,rfl,hwaiting⟩
    exact ⟨hcoherent.owner.mpr howner,howner⟩
  · have ha : s.awaiting r = some ⟨q.call,tid,.pending,timedOut,q.cancelRequested⟩ := by
      rw [awaiting_eq hq,Request.awaiting,hphase]
    rw [running_of_unanswered htable htracked hlife ha rfl] at hstopped
    cases hstopped

/-- A second request to the node of an unanswered one waits behind it. -/
theorem exclusive_queued : ∃ s, Exclusive s ∧ s.Waits 0 1 ∧ s.Owns 0 0 := by
  have hrun : Reaches Client.step (fun s event => OwnTid s event ∧ OneStop s event) {}
      ((({started := true} : Client).sendRequest (readStatus "192.0.2.1") true).sendRequest
        (readStatus "192.0.2.1") true) :=
    ((Reaches.refl.tail (l := .start) ⟨trivial,fun _ => rfl⟩ rfl).tail
      (l := .call (readStatus "192.0.2.1") true) ⟨trivial,nofun⟩ rfl).tail
      (l := .call (readStatus "192.0.2.1") true) ⟨trivial,nofun⟩ rfl
  exact ⟨_,exclusive hrun,⟨_,rfl,rfl,rfl⟩,⟨_,rfl,rfl,Or.inr ⟨_,_,_,rfl⟩⟩⟩

/-- The request whose entry was taken is still unanswered after `stop`. -/
theorem unresolved_after_stop : ¬ ∀ s, Reaches Client.step OneStop {} s → Exclusive s := by
  intro h
  obtain ⟨s,hs,_,hstarted,hempty,hawaiting⟩ := entry_lost
  have hstop : Reaches Client.step OneStop {} s.stop := hs.tail (l := .stop) nofun rfl
  have hstopped : s.stop.stopped = true := by simp [Client.stop,hstarted]
  have hnone : s.pendingRequests = [] := by
    rw [Client.pendingRequests,hempty]
    rfl
  have hkept : s.stop.awaiting 1 = some ⟨readStatus "192.0.2.2",1,.pending,false,false⟩ := by
    rw [stop_awaiting hstarted,hawaiting,hnone]
    rfl
  obtain ⟨q,hq,_,_,hphase⟩ := awaiting_some hkept
  exact ((h _ hstop).resolved hstopped 1 q hq).2 1 false hphase

end Pyhems.Runtime

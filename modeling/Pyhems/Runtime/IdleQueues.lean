import Pyhems.Runtime.Queues
import Pyhems.Runtime.TidOwnership

/-! The removal of idle queues, in runs with any number of stops. Every registered queue is
held by a request to its address, as long as no request gives its slot back in `acquire`
with nobody left to take it. -/
namespace Pyhems.Runtime
open Protocol Library Transition

/-- The address of a request and the queue that it was put in. -/
def Request.place (q : Request) : Address × Nat := (q.call.address,q.queue)

def Client.place (s : Client) (request : Nat) : Option (Address × Nat) :=
  (s.requests request).map Request.place

/-- A request to the address waits for the slot of its queue or holds it. -/
def Client.InUse (s : Client) (address : Address) : Prop :=
  ∃ r q, s.requests r = some q ∧ q.call.address = address ∧
    s.nodeQueues.lookup address = some q.queue ∧ (q.Waiting ∨ q.Holds)

/-- The event resumes a request that was cancelled after the slot was handed to it, and no
other request waits in the queue, which is still registered. -/
def Client.strands (s : Client) : ClientEvent → Bool
  | .resume request _ =>
    match s.requests request with
    | none => false
    | some q =>
      decide (q.phase = .queued (.result ())) && q.cancelRequested &&
        decide (s.nodeQueues.lookup q.call.address = some q.queue) &&
        (s.queues q.queue).waiters.all fun w => s.done w.request
  | _ => false

/-- Requests stay where they were put, and a registered queue has requests of one address. -/
structure Placed (s : Client) : Prop where
  fresh : ∀ r, s.requestCount ≤ r → s.place r = none
  created : ∀ r address k, s.place r = some (address,k) → k < s.queueCount
  nodes : ∀ address k, s.nodeQueues.lookup address = some k → k < s.queueCount
  waiters : ∀ k, ∀ w ∈ (s.queues k).waiters, ∃ address, s.place w.request = some (address,k)
  addressed : ∀ address address' k r, s.nodeQueues.lookup address = some k →
    s.place r = some (address',k) → address' = address

/-- Every registered queue is held. -/
def Client.Served (s : Client) : Prop :=
  ∀ address k, s.nodeQueues.lookup address = some k → ∃ r, s.Owns k r

variable {s t u : Client} {event : ClientEvent} {request r k k' : Nat} {q new : Request}
  {address : Address}

theorem place_eq (hq : s.requests request = some q) :
    s.place request = some (q.call.address,q.queue) := by
  rw [Client.place,hq]
  rfl

theorem place_some (h : s.place request = some (address,k)) :
    ∃ q, s.requests request = some q ∧ q.call.address = address ∧ q.queue = k := by
  obtain ⟨q,hq,hplace⟩ := Option.map_eq_some_iff.mp h
  exact ⟨q,hq,congrArg Prod.fst hplace,congrArg Prod.snd hplace⟩

/-! ### Events that put no request in a queue -/

/-- No request is added or moved elsewhere, and no queue is registered or filled. -/
structure Shrinks (s t : Client) : Prop where
  place : t.place = s.place
  requestCount : t.requestCount = s.requestCount
  queueCount : t.queueCount = s.queueCount
  nodes : ∀ address k, t.nodeQueues.lookup address = some k → s.nodeQueues.lookup address = some k
  waiters : ∀ k, ∀ w ∈ (t.queues k).waiters, w ∈ (s.queues k).waiters

theorem Shrinks.refl (s : Client) : Shrinks s s := ⟨rfl,rfl,rfl,fun _ _ => id,fun _ _ => id⟩

theorem Shrinks.trans (h : Shrinks s t) (h' : Shrinks t u) : Shrinks s u :=
  ⟨h'.place.trans h.place,h'.requestCount.trans h.requestCount,h'.queueCount.trans h.queueCount,
    fun address k hk => h.nodes address k (h'.nodes address k hk),
    fun k w hw => h.waiters k w (h'.waiters k w hw)⟩

theorem Placed.shrink (hs : Placed s) (h : Shrinks s t) : Placed t := by
  refine ⟨fun r hr => ?_,fun r address k hr => ?_,fun address k hk => ?_,fun k w hw => ?_,
    fun address address' k r hk hr => ?_⟩
  · rw [h.place]
    exact hs.fresh r (h.requestCount ▸ hr)
  · rw [h.place] at hr
    rw [h.queueCount]
    exact hs.created r address k hr
  · rw [h.queueCount]
    exact hs.nodes address k (h.nodes address k hk)
  · rw [h.place]
    exact hs.waiters k w (h.waiters k w hw)
  · rw [h.place] at hr
    exact hs.addressed address address' k r (h.nodes address k hk) hr

/-- Only requests, queues and registrations matter. -/
theorem shrinks_of_eq (hrequests : t.requests = s.requests) (hqueues : t.queues = s.queues)
    (hnodes : t.nodeQueues = s.nodeQueues) (hcount : t.requestCount = s.requestCount)
    (hqueueCount : t.queueCount = s.queueCount) : Shrinks s t := by
  refine ⟨?_,hcount,hqueueCount,fun address k hk => ?_,fun k w hw => ?_⟩
  · funext r
    rw [Client.place,hrequests]
    rfl
  · rwa [hnodes] at hk
  · rwa [hqueues] at hw

theorem shrinks_put (hq : s.requests request = some q) (hplace : new.place = q.place) :
    Shrinks s (s.put request new) := by
  refine ⟨?_,rfl,rfl,fun _ _ => id,fun _ _ => id⟩
  funext r
  unfold Client.place
  by_cases hr : r = request
  · rw [hr,put_self,hq,Option.map_some,Option.map_some,hplace]
  · rw [put_of_ne s new hr]

theorem shrinks_release (s : Client) (k : Nat) : Shrinks s (s.release k) := by
  have hreleased := released_release s k
  refine ⟨?_,hreleased.requestCount,hreleased.queueCount,fun address k' hk' => ?_,fun k' w hw => ?_⟩
  · funext r
    unfold Client.place
    rcases hreleased.requests r with hsame | ⟨q,hq,_,hgranted⟩
    · rw [hsame]
    · rw [hq,hgranted]
      rfl
  · rwa [hreleased.nodeQueues] at hk'
  · rw [release_queues] at hw
    by_cases hk : k' = k
    · subst hk
      rw [Function.update_self] at hw
      exact mem_waiters_of_release hw
    · rwa [Function.update_of_ne hk] at hw

theorem shrinks_dropIdleQueue (s : Client) (address : Address) (k : Nat) :
    Shrinks s (s.dropIdleQueue address k) := by
  rcases dropIdleQueue_cases s address k with h | ⟨_,_,h⟩
  · rw [h]
    exact .refl s
  · rw [h]
    exact ⟨rfl,rfl,rfl,fun _ _ hk => (lookup_of_erase hk).2,fun _ _ => id⟩

theorem shrinks_leave (hq : s.requests request = some q) (tid : Option Nat)
    (outcome : Except Exn (Bool × Option Frame)) : Shrinks s (s.leave request q tid outcome) := by
  let u : Client := {s with pending := s.popped tid}
  have hpopped : Shrinks s u := shrinks_of_eq rfl rfl rfl rfl rfl
  have hput : Shrinks u (u.put request {q with phase := .left outcome, releases := q.releases+1}) :=
    shrinks_put hq rfl
  rw [leave_eq]
  exact hpopped.trans (hput.trans ((shrinks_release _ _).trans (shrinks_dropIdleQueue _ _ _)))

theorem shrinks_transmit (delivered : Bool) (hq : s.requests request = some q) :
    Shrinks s (s.transmit request q delivered) := by
  rcases transmit_cases s request q delivered with
    ⟨counter,exn,h⟩ | ⟨tid,counter,_,⟨outcome,h⟩ | ⟨_,h⟩⟩ <;> rw [h]
  · let u : Client := {s with tidCounter := counter}
    have hcounted : Shrinks s u := shrinks_of_eq rfl rfl rfl rfl rfl
    have hu : u.requests request = some q := hq
    exact hcounted.trans (shrinks_leave hu none (.error exn))
  · have hentered : Shrinks s (s.entered request q tid counter) := shrinks_of_eq rfl rfl rfl rfl rfl
    have hu : (s.entered request q tid counter).requests request = some q := hq
    exact hentered.trans (shrinks_leave hu (some tid) outcome)
  · have hentered : Shrinks s (s.entered request q tid counter) := shrinks_of_eq rfl rfl rfl rfl rfl
    have hput : Shrinks (s.entered request q tid counter) ((s.entered request q tid counter).put request
        {q with phase := .awaiting tid .pending false}) := shrinks_put hq rfl
    exact hentered.trans hput

theorem shrinks_abandon (hq : s.requests request = some q) (release : Bool) (exn : Exn) :
    Shrinks s (s.abandon request q release exn) := by
  cases release with
  | false => exact shrinks_put hq rfl
  | true =>
    have hput : Shrinks s (s.put request {q with phase := .left (.error exn), releases := q.releases+1}) :=
      shrinks_put hq rfl
    exact hput.trans (shrinks_release _ q.queue)

theorem shrinks_stop (s : Client) : Shrinks s s.stop := by
  unfold Client.stop
  split
  · exact .refl s
  · refine ⟨?_,rfl,rfl,nofun,fun k w hw => ?_⟩
    · funext r
      unfold Client.place
      simp only [Option.map_map]
      congr 1
      funext q
      rw [Function.comp_apply]
      split <;> rfl
    · simp only at hw
      split at hw
      · cases hw
      · exact hw

/-! ### A new request -/

theorem Placed.registerQueue (hs : Placed s) (address : Address) : Placed (s.registerQueue address) := by
  have hqueues : (s.registerQueue address).queues = Function.update s.queues s.queueCount {} := rfl
  have hnodes : (s.registerQueue address).nodeQueues = s.nodeQueues.insert address s.queueCount := rfl
  have hplace : (s.registerQueue address).place = s.place := rfl
  refine ⟨hs.fresh,fun r a k hr => Nat.lt_succ_of_lt (hs.created r a k hr),fun a k hk => ?_,
    fun k w hw => ?_,fun a a' k r hk hr => ?_⟩
  · rw [hnodes] at hk
    by_cases ha : a = address
    · rw [ha,AList.lookup_insert] at hk
      cases hk
      exact Nat.lt_succ_self _
    · rw [AList.lookup_insert_ne ha] at hk
      exact Nat.lt_succ_of_lt (hs.nodes a k hk)
  · rw [hqueues] at hw
    by_cases hk : k = s.queueCount
    · rw [hk,Function.update_self] at hw
      cases hw
    · rw [Function.update_of_ne hk] at hw
      exact hs.waiters k w hw
  · rw [hplace] at hr
    rw [hnodes] at hk
    by_cases ha : a = address
    -- No request was put in the new queue yet.
    · rw [ha,AList.lookup_insert] at hk
      cases hk
      exact absurd (hs.created r a' _ hr) (Nat.lt_irrefl _)
    · rw [AList.lookup_insert_ne ha] at hk
      exact hs.addressed a a' k r hk hr

theorem Placed.nodeQueue (hs : Placed s) (address : Address) : Placed (s.nodeQueue address).1 ∧
    (s.nodeQueue address).1.nodeQueues.lookup address = some (s.nodeQueue address).2 := by
  unfold Client.nodeQueue
  split
  · next queue hqueue => exact ⟨hs,hqueue⟩
  · exact ⟨hs.registerQueue address,AList.lookup_insert _⟩

theorem acquire_requests (s : Client) (call : Call) (k : Nat) : (s.acquire call k).1.requests =
    Function.update s.requests s.requestCount (some (s.acquire call k).2) := rfl

theorem acquire_place (s : Client) (call : Call) (k : Nat) : (s.acquire call k).1.place =
    Function.update s.place s.requestCount (some (call.address,k)) := by
  funext r
  unfold Client.place
  rw [acquire_requests]
  by_cases hr : r = s.requestCount
  · rw [hr,Function.update_self,Function.update_self]
    rfl
  · rw [Function.update_of_ne hr,Function.update_of_ne hr]

theorem Placed.acquire (hs : Placed s) {call : Call}
    (hk : s.nodeQueues.lookup call.address = some k)
    (hone : ∀ address, s.nodeQueues.lookup address = some k → address = call.address) :
    Placed (s.acquire call k).1 := by
  have hqueues : (s.acquire call k).1.queues =
      Function.update s.queues k ((s.queues k).acquire call.priority s.requestCount).1 := rfl
  have hold : ∀ r place, s.place r = some place → (s.acquire call k).1.place r = some place := by
    intro r place hr
    have hne : r ≠ s.requestCount := by
      intro he
      rw [he,hs.fresh _ le_rfl] at hr
      cases hr
    rw [acquire_place,Function.update_of_ne hne,hr]
  refine ⟨fun r hr => ?_,fun r a k' hr => ?_,hs.nodes,fun k' w hw => ?_,fun a a' k' r hk' hr => ?_⟩
  · have hr : s.requestCount < r := hr
    rw [acquire_place,Function.update_of_ne hr.ne']
    exact hs.fresh r hr.le
  · rw [acquire_place] at hr
    by_cases he : r = s.requestCount
    · rw [he,Function.update_self] at hr
      cases hr
      exact hs.nodes _ _ hk
    · rw [Function.update_of_ne he] at hr
      exact hs.created r a k' hr
  · rw [hqueues] at hw
    by_cases hkk : k' = k
    · rw [hkk,Function.update_self] at hw
      rw [hkk]
      rcases mem_acquire hw with he | hw
      · exact ⟨call.address,by rw [he,acquire_place,Function.update_self]⟩
      · obtain ⟨a,ha⟩ := hs.waiters k w hw
        exact ⟨a,hold _ _ ha⟩
    · rw [Function.update_of_ne hkk] at hw
      obtain ⟨a,ha⟩ := hs.waiters k' w hw
      exact ⟨a,hold _ _ ha⟩
  · rw [acquire_place] at hr
    by_cases he : r = s.requestCount
    · rw [he,Function.update_self] at hr
      cases hr
      exact (hone a hk').symm
    · rw [Function.update_of_ne he] at hr
      exact hs.addressed a a' k' r hk' hr

/-! ### The holder of a registered queue -/

theorem owner_put (hq : s.requests request = some q) (h : s.Owns k r)
    (hnew : q.queue = k → q.Holds → new.queue = k ∧ new.Holds) : (s.put request new).Owns k r := by
  obtain ⟨q',hq',hk,hholds⟩ := h
  by_cases hr : r = request
  · subst hr
    cases hq.symm.trans hq'
    exact ⟨new,put_self ..,hnew hk hholds⟩
  · exact ⟨q',by rw [put_of_ne s new hr,hq'],hk,hholds⟩

theorem owner_release (h : s.Owns k r) (k' : Nat) : (s.release k').Owns k r := by
  obtain ⟨q,hq,hk,hholds⟩ := h
  exact ⟨q,(released_release s k').same hq hholds.not_waiting,hk,hholds⟩

/-- A release hands the slot to a request of the queue, or leaves the queue idle. -/
theorem Placed.release (hs : Placed s) (k : Nat) : (∃ r, (s.release k).Owns k r) ∨
    ((s.release k).queues k).idle = true ∧ ∀ w ∈ (s.queues k).waiters, s.done w.request = true := by
  rw [release_queues,Function.update_self]
  cases hpop : SkipQueue.pop (fun w : Waiter => s.done w.request) (s.queues k).waiters with
  | none =>
    refine Or.inr ⟨?_,SkipQueue.pop_eq_none hpop⟩
    rw [NodeRequestQueue.release,hpop]
    rfl
  | some popped =>
    have hgranted : ((s.queues k).release s.done).2 = some popped.1.request := by
      rw [NodeRequestQueue.release,hpop]
    have hmem : popped.1 ∈ (s.queues k).waiters := SkipQueue.popped_mem hpop
    obtain ⟨address,hplace⟩ := hs.waiters k _ hmem
    obtain ⟨q,hq,_,hk⟩ := place_some hplace
    refine Or.inl ⟨popped.1.request,q.granted,?_,hk,Or.inl rfl⟩
    rw [release_requests,if_pos hgranted,hq,Option.map_some]

theorem Client.Served.put (hs : s.Served) (hq : s.requests request = some q)
    (hnew : q.Holds → new.queue = q.queue ∧ new.Holds) : (s.put request new).Served := by
  intro address k hk
  obtain ⟨r,hr⟩ := hs address k hk
  refine ⟨r,owner_put hq hr fun hqueue hholds => ?_⟩
  obtain ⟨hnewQueue,hnewHolds⟩ := hnew hholds
  exact ⟨hnewQueue.trans hqueue,hnewHolds⟩

/-- When a request gives its slot back, the queue has a new holder, or nobody waited in it. -/
theorem Placed.handOver (hs : Placed s) (hserved : s.Served) (hq : s.requests request = some q)
    (hnew : new.place = q.place) (hk : s.nodeQueues.lookup address = some k) :
    (∃ r, ((s.put request new).release q.queue).Owns k r) ∨
      k = q.queue ∧ address = q.call.address ∧
        (((s.put request new).release q.queue).queues q.queue).idle = true ∧
        ∀ w ∈ (s.queues q.queue).waiters, (s.put request new).done w.request = true := by
  by_cases hqueue : k = q.queue
  · subst hqueue
    have hput := hs.shrink (shrinks_put hq hnew)
    rcases hput.release q.queue with howner | ⟨hidle,hdone⟩
    · exact Or.inl howner
    · exact Or.inr ⟨rfl,(hs.addressed _ _ _ _ hk (place_eq hq)).symm,hidle,hdone⟩
  · obtain ⟨r,hr⟩ := hserved address k hk
    have hput : (s.put request new).Owns k r := owner_put hq hr fun he => absurd he.symm hqueue
    exact Or.inl ⟨r,owner_release hput _⟩

theorem Placed.served_leave (hs : Placed s) (hserved : s.Served) (hq : s.requests request = some q)
    (tid : Option Nat) (outcome : Except Exn (Bool × Option Frame)) :
    (s.leave request q tid outcome).Served := by
  let u : Client := {s with pending := s.popped tid}
  let new : Request := {q with phase := .left outcome, releases := q.releases+1}
  let v : Client := (u.put request new).release q.queue
  have hu : Placed u := hs.shrink (shrinks_of_eq rfl rfl rfl rfl rfl)
  have huServed : u.Served := hserved
  have hnodes : v.nodeQueues = s.nodeQueues := (released_release (u.put request new) q.queue).nodeQueues
  have hcases : ∀ a k, s.nodeQueues.lookup a = some k → (∃ r, v.Owns k r) ∨
      k = q.queue ∧ a = q.call.address ∧ (v.queues q.queue).idle = true ∧
        ∀ w ∈ (s.queues q.queue).waiters, (u.put request new).done w.request = true :=
    fun a k hk => hu.handOver huServed hq rfl hk
  intro a k hk
  rw [leave_eq] at hk ⊢
  rcases dropIdleQueue_cases v q.call.address q.queue with hsame | ⟨_,_,hdrop⟩
  · have hsame : ((u.put request new).release q.queue).dropIdleQueue q.call.address q.queue = v := hsame
    rw [hsame,hnodes] at hk
    rw [hsame]
    rcases hcases a k hk with howner | ⟨rfl,rfl,hidle,_⟩
    · exact howner
    -- The idle queue is registered, so it is not left in the table.
    · have hkept : v.nodeQueues.lookup q.call.address = some q.queue := hnodes ▸ hk
      have hdrop : v.dropIdleQueue q.call.address q.queue =
          {v with nodeQueues := v.nodeQueues.erase q.call.address} := by
        rw [Client.dropIdleQueue,hidle,Bool.true_and,if_pos (decide_eq_true hkept)]
      have hnone : v.nodeQueues.lookup q.call.address = none := by
        rw [← hsame]
        exact (congrArg (fun t : Client => t.nodeQueues.lookup q.call.address) hdrop).trans
          (AList.lookup_erase _ _)
      rw [hkept] at hnone
      cases hnone
  · have hdrop : ((u.put request new).release q.queue).dropIdleQueue q.call.address q.queue =
        {v with nodeQueues := v.nodeQueues.erase q.call.address} := hdrop
    rw [hdrop] at hk ⊢
    have hk : (v.nodeQueues.erase q.call.address).lookup a = some k := hk
    rw [hnodes] at hk
    obtain ⟨hne,hk⟩ := lookup_of_erase hk
    rcases hcases a k hk with howner | ⟨_,ha,_⟩
    · exact howner
    · exact absurd ha hne

theorem Placed.served_transmit (hs : Placed s) (hserved : s.Served) {delivered : Bool}
    (hq : s.requests request = some q) : (s.transmit request q delivered).Served := by
  rcases transmit_cases s request q delivered with
    ⟨counter,exn,h⟩ | ⟨tid,counter,_,⟨outcome,h⟩ | ⟨_,h⟩⟩ <;> rw [h]
  · let u : Client := {s with tidCounter := counter}
    have hu : Placed u := hs.shrink (shrinks_of_eq rfl rfl rfl rfl rfl)
    have huServed : u.Served := hserved
    have huq : u.requests request = some q := hq
    exact hu.served_leave huServed huq none _
  · have hu : Placed (s.entered request q tid counter) :=
      hs.shrink (shrinks_of_eq rfl rfl rfl rfl rfl)
    have huServed : (s.entered request q tid counter).Served := hserved
    have huq : (s.entered request q tid counter).requests request = some q := hq
    exact hu.served_leave huServed huq (some tid) _
  · have huServed : (s.entered request q tid counter).Served := hserved
    have huq : (s.entered request q tid counter).requests request = some q := hq
    exact huServed.put huq fun _ => ⟨rfl,Or.inr ⟨tid,_,_,rfl⟩⟩

/-- A new request takes the idle slot, or the queue was held already. -/
theorem served_acquire {call : Call} (hfresh : s.requests s.requestCount = none)
    (hserved : ∀ address k', s.nodeQueues.lookup address = some k' →
      (∃ r, s.Owns k' r) ∨ k' = k ∧ (s.queues k).idle = true) :
    (s.acquire call k).1.Served := by
  have hparts := acquire_parts hfresh call k Request.Holds
  intro address k' hk'
  rcases hserved address k' hk' with ⟨r,hr⟩ | ⟨rfl,hidle⟩
  · exact ⟨r,(hparts k' r).mpr (Or.inl hr)⟩
  · have hphase := acquire_phase s call k'
    rw [hidle,if_pos rfl] at hphase
    exact ⟨s.requestCount,(hparts k' _).mpr (Or.inr ⟨rfl,rfl,Or.inl hphase⟩)⟩

theorem Placed.sendRequest (hs : Placed s) (hserved : s.Served) (call : Call) (delivered : Bool) :
    Placed (s.sendRequest call delivered) ∧ (s.sendRequest call delivered).Served := by
  obtain ⟨u,k,hqueue,hsend⟩ := sendRequest_eq s call delivered
  obtain ⟨hu,hlookup⟩ := hs.nodeQueue call.address
  obtain ⟨_,hrequests,_,hcount⟩ := nodeQueue_frame s call.address
  rw [hqueue] at hu hlookup hrequests hcount
  have hrequests : u.requests = s.requests := hrequests
  have hcount : u.requestCount = s.requestCount := hcount
  have howns : ∀ k' r, u.Owns k' r ↔ s.Owns k' r := by
    intro k' r
    unfold Client.Owns
    rw [hrequests]
  -- The queue is the one that was registered, which is held, or a new one, which is idle.
  have hregistered : ∀ a k', u.nodeQueues.lookup a = some k' → (∃ r, u.Owns k' r) ∨
      k' = k ∧ (u.queues k).idle = true ∧ a = call.address := by
    intro a k' hk'
    unfold Client.nodeQueue at hqueue
    split at hqueue
    · cases hqueue
      exact Or.inl (hserved a k' hk')
    · cases hqueue
      have hnodes : (s.registerQueue call.address).nodeQueues =
          s.nodeQueues.insert call.address s.queueCount := rfl
      rw [hnodes] at hk'
      by_cases ha : a = call.address
      · rw [ha,AList.lookup_insert] at hk'
        have hnew : (s.registerQueue call.address).queues s.queueCount = {} := Function.update_self ..
        exact Or.inr ⟨(Option.some.inj hk').symm,by rw [hnew]; rfl,ha⟩
      · rw [AList.lookup_insert_ne ha] at hk'
        obtain ⟨r,hr⟩ := hserved a k' hk'
        exact Or.inl ⟨r,(howns k' r).mpr hr⟩
  have hone : ∀ a, u.nodeQueues.lookup a = some k → a = call.address := by
    intro a ha
    rcases hregistered a k ha with ⟨r,q,hq,hk,_⟩ | ⟨_,_,ha⟩
    · have hplace : u.place r = some (q.call.address,k) := hk ▸ place_eq hq
      rw [← hu.addressed a _ k r ha hplace,hu.addressed _ _ k r hlookup hplace]
    · exact ha
  have hnone : u.requests u.requestCount = none := by
    have hfresh := hs.fresh s.requestCount le_rfl
    rw [hrequests,hcount]
    exact Option.map_eq_none_iff.mp hfresh
  have hacquire : Placed (u.acquire call k).1 := hu.acquire hlookup hone
  have hheld : (u.acquire call k).1.Served := served_acquire hnone fun a k' hk' =>
    (hregistered a k' hk').imp_right fun h => ⟨h.1,h.2.1⟩
  have hnew : (u.acquire call k).1.requests s.requestCount = some (u.acquire call k).2 :=
    hcount ▸ Function.update_self ..
  rw [hsend]
  split
  · exact ⟨hacquire.shrink (shrinks_transmit delivered hnew),hacquire.served_transmit hheld hnew⟩
  · exact ⟨hacquire,hheld⟩

/-! ### Runs in which no request strands its queue -/

theorem Placed.step (hs : Placed s) (hserved : s.Served) (h : s.step event = some t) : Placed t := by
  cases step_effect h with
  | start | allocated | dropped => exact hs.shrink (shrinks_of_eq rfl rfl rfl rfl rfl)
  | stop => exact hs.shrink (shrinks_stop s)
  | called call delivered => exact (hs.sendRequest hserved call delivered).1
  | withdrawn r delivered q release exn hq | handedBack r delivered q hq =>
    exact hs.shrink (shrinks_abandon hq _ _)
  | transmitted r delivered q hq => exact hs.shrink (shrinks_transmit delivered hq)
  | ended r delivered q tid response timedOut outcome hq => exact hs.shrink (shrinks_leave hq _ outcome)
  | abandoned r q hq | marked r q hq | timedOut r q tid response before hq =>
    exact hs.shrink (shrinks_put hq rfl)
  | ignored => exact hs
  | answered frame address entry q tid timedOut _ _ hq =>
    have hu : Placed {s with pending := s.pending.erase frame.tid} :=
      hs.shrink (shrinks_of_eq rfl rfl rfl rfl rfl)
    exact hu.shrink (shrinks_put hq rfl)

/-- A slot that is given back in `acquire` goes to a request that waits, unless the event
strands the queue. -/
theorem Placed.served_handBack (hs : Placed s) (hserved : s.Served) {delivered : Bool}
    (hq : s.requests request = some q) (hphase : q.phase = .queued (.result ()))
    (hcancel : q.cancelRequested = true) (hguard : s.strands (.resume request delivered) = false) :
    (s.abandon request q true .cancelledError).Served := by
  let new : Request := {q with phase := .left (.error .cancelledError), releases := q.releases+1}
  intro a k hk
  have hnodes : s.nodeQueues.lookup a = some k := (shrinks_abandon hq true _).nodes a k hk
  have hplace : new.place = q.place := rfl
  rcases hs.handOver hserved hq hplace hnodes with howner | ⟨hk,ha,_,hdone⟩
  · exact howner
  · have hall : (s.queues q.queue).waiters.all (fun w => s.done w.request) = true := by
      refine List.all_eq_true.mpr fun w hw => ?_
      have hw := hdone w hw
      by_cases hr : w.request = request
      · rw [hr,Client.done,hq,Option.map_some,hphase]
        rfl
      · rwa [Client.done,put_of_ne s _ hr] at hw
    rw [hk,ha] at hnodes
    simp [Client.strands,hq,hphase,hcancel,hnodes] at hguard
    obtain ⟨w,hw,hlive⟩ := hguard
    rw [List.all_eq_true.mp hall w hw] at hlive
    cases hlive

theorem served_withdraw (hserved : s.Served) (hq : s.requests request = some q) (hgone : ¬ q.Holds)
    (release : Bool) (exn : Exn) : (s.abandon request q release exn).Served := by
  cases release with
  | false => exact hserved.put hq fun hholds => absurd hholds hgone
  | true =>
    let new : Request := {q with phase := .left (.error exn), releases := q.releases+1}
    have hput : (s.put request new).Served := hserved.put hq fun hholds => absurd hholds hgone
    intro a k hk
    have hnodes : s.nodeQueues.lookup a = some k := (shrinks_abandon hq true exn).nodes a k hk
    obtain ⟨r,hr⟩ := hput a k hnodes
    exact ⟨r,owner_release hr q.queue⟩

theorem Placed.served_step (hs : Placed s) (hserved : s.Served) (hguard : s.strands event = false)
    (h : s.step event = some t) : t.Served := by
  cases step_effect h with
  | start | allocated | ignored | dropped => exact hserved
  | stop =>
    unfold Client.stop
    split
    · exact hserved
    · nofun
  | called call delivered => exact (hs.sendRequest hserved call delivered).2
  | withdrawn r delivered q release exn hq hphase =>
    have hgone : ¬ q.Holds := by
      rcases hphase with ⟨hphase,_⟩ | ⟨e,hphase⟩ <;> simp [Request.Holds,hphase]
    exact served_withdraw hserved hq hgone release exn
  | handedBack r delivered q hq hphase =>
    by_cases hcancel : q.cancelRequested = true
    · exact hs.served_handBack hserved hq hphase hcancel hguard
    -- Without a cancellation the request would have been sent.
    · have ht : s.step (.resume r delivered) = some (s.transmit r q delivered) := by
        simp [Client.step,hq,Client.resume,hphase,hcancel]
      rw [Option.some.inj (h.symm.trans ht)]
      exact hs.served_transmit hserved hq
  | transmitted r delivered q hq => exact hs.served_transmit hserved hq
  | ended r delivered q tid response timedOut outcome hq => exact hs.served_leave hserved hq _ outcome
  | abandoned r q hq hphase => exact hserved.put hq fun hholds => absurd hphase hholds.not_waiting
  | marked r q hq => exact hserved.put hq fun hholds => ⟨rfl,hholds⟩
  | timedOut r q tid response before hq =>
    exact hserved.put hq fun _ => ⟨rfl,Or.inr ⟨tid,response,true,rfl⟩⟩
  | answered frame address entry q tid timedOut _ _ hq =>
    have hu : Client.Served {s with pending := s.pending.erase frame.tid} := hserved
    have huq : ({s with pending := s.pending.erase frame.tid} : Client).requests entry.request = some q := hq
    exact hu.put huq fun _ => ⟨rfl,Or.inr ⟨tid,.result frame,timedOut,rfl⟩⟩

theorem placed_init : Placed {} :=
  ⟨fun _ _ => rfl,nofun,nofun,nofun,nofun⟩

theorem served_reached (h : Reaches Client.step (fun s event => s.strands event = false) {} s) :
    Placed s ∧ s.Served := by
  induction h with
  | refl => exact ⟨placed_init,nofun⟩
  | tail _ hguard ht ih =>
    obtain ⟨hplaced,hserved⟩ := ih
    exact ⟨hplaced.step hserved ht,hplaced.served_step hserved hguard ht⟩

/-- An address whose slot no request waits for or holds has no queue. -/
theorem idle_queues_removed
    (h : Reaches Client.step (fun s event => s.strands event = false) {} s)
    (hidle : ¬ s.InUse address) : address ∉ s.nodeQueues := by
  obtain ⟨hplaced,hserved⟩ := served_reached h
  rw [← AList.lookup_eq_none,Option.eq_none_iff_forall_ne_some]
  intro k hk
  obtain ⟨r,q,hq,hqueue,hholds⟩ := hserved address k hk
  have haddress := hplaced.addressed _ _ _ _ hk (hqueue ▸ place_eq hq)
  exact hidle ⟨r,q,hq,haddress,hqueue ▸ hk,Or.inr hholds⟩

/-- Two requests that have both left use no slot. -/
theorem not_inUse {o o' : Except Exn (Bool × Option Frame)} (hs : Table s) (hcount : s.requestCount = 2)
    (hfirst : (s.requests 0).map Request.phase = some (.left o))
    (hsecond : (s.requests 1).map Request.phase = some (.left o')) (address : Address) :
    ¬ s.InUse address := by
  rintro ⟨r,q,hq,_,_,hactive⟩
  have hleft : ∃ outcome, (s.requests r).map Request.phase = some (.left outcome) := by
    by_cases hr : r < 2
    · have hr : r = 0 ∨ r = 1 := by omega
      rcases hr with rfl | rfl
      · exact ⟨o,hfirst⟩
      · exact ⟨o',hsecond⟩
    · rw [hs.fresh r (by omega)] at hq
      cases hq
  obtain ⟨outcome,hphase⟩ := hleft
  rw [hq,Option.map_some,Option.some.injEq] at hphase
  simp [Request.Waiting,Request.Holds,hphase] at hactive

/-- A request is cancelled while it waits, and the one before it times out and leaves last. -/
def cancelledWaiting : List ClientEvent :=
  [.start,.call (readStatus "192.0.2.1") true,.call (readStatus "192.0.2.1") true,.cancel 1,.resume 1 true,
    .timeout 0,.resume 0 true]

theorem idle_queues_removed_cancelled :
    ∃ s : Client, s.requestCount = 2 ∧ "192.0.2.1" ∉ s.nodeQueues := by
  have hrun : (exec (fun s event => if !s.strands event then Client.step s event else none) {}
      cancelledWaiting).any (fun s => decide (s.requestCount = 2 ∧
        (s.requests 0).map Request.phase = some (.left (.ok (true,none))) ∧
        (s.requests 1).map Request.phase = some (.left (.error .cancelledError)))) = true := by
    decide +kernel
  obtain ⟨s,hs,hend⟩ := (Option.any_eq_true _ _).mp hrun
  obtain ⟨hcount,hfirst,hsecond⟩ := of_decide_eq_true hend
  have hreached := reaches_of_checked (fun s event => s.strands event = false)
    (fun _ _ hcheck => by simpa using hcheck) hs
  exact ⟨s,hcount,idle_queues_removed hreached
    (not_inUse (table_reached hreached) hcount hfirst hsecond _)⟩

/-- The first request times out and hands the slot to the second, which is cancelled before it
resumes. -/
def cancelledHolding : List ClientEvent :=
  [.start,.call (readStatus "192.0.2.1") true,.call (readStatus "192.0.2.1") true,.timeout 0,.resume 0 true,
    .cancel 1,.resume 1 true]

/-- The queue stays registered when its last request gives the slot back in `acquire`. -/
theorem idle_queue_left : ¬ ∀ s, Reachable Client.step {} s → ∀ address, ¬ s.InUse address →
    address ∉ s.nodeQueues := by
  have hrun : (exec Client.step {} cancelledHolding).any (fun s => decide (s.requestCount = 2 ∧
      (s.requests 0).map Request.phase = some (.left (.ok (true,none))) ∧
      (s.requests 1).map Request.phase = some (.left (.error .cancelledError)) ∧
      s.nodeQueues.lookup "192.0.2.1" = some 0)) = true := by decide +kernel
  obtain ⟨s,hs,hend⟩ := (Option.any_eq_true _ _).mp hrun
  obtain ⟨hcount,hfirst,hsecond,hkept⟩ := of_decide_eq_true hend
  have hreached := reachable_of_exec hs
  intro h
  have hremoved := h s hreached "192.0.2.1"
    (not_inUse (table_reached hreached) hcount hfirst hsecond _)
  rw [AList.lookup_eq_none.mpr hremoved] at hkept
  cases hkept

end Pyhems.Runtime

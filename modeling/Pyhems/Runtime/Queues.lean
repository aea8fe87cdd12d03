import Pyhems.Runtime.RequestMoves

/-! The queues of all addresses while the client runs. A request that waits for a slot or holds
one is registered under its address, so two requests to one address share a queue,
and every queue stays in step with its requests. -/
namespace Pyhems.Runtime
open Protocol Library

def Request.Waiting (q : Request) : Prop := q.phase = .queued .pending

/-- The slot was handed to the request, and the request has not released it. -/
def Request.Holds (q : Request) : Prop :=
  q.phase = .queued (.result ()) ∨ ∃ tid response timedOut, q.phase = .awaiting tid response timedOut

def Client.Waits (s : Client) (queue request : Nat) : Prop :=
  ∃ q, s.requests request = some q ∧ q.queue = queue ∧ q.Waiting

def Client.Owns (s : Client) (queue request : Nat) : Prop :=
  ∃ q, s.requests request = some q ∧ q.queue = queue ∧ q.Holds

structure Queues (s : Client) : Prop where
  fresh : ∀ r, s.requestCount ≤ r → s.requests r = none
  created : ∀ r q, s.requests r = some q → q.queue < s.queueCount
  nodes : ∀ address k, s.nodeQueues.lookup address = some k → k < s.queueCount
  waiters : ∀ k, ∀ w ∈ (s.queues k).waiters, ∃ q, s.requests w.request = some q ∧ q.queue = k
  coherent : ∀ k, Coherent (s.queues k) (s.Waits k) (s.Owns k)
  registered : ∀ r q, s.requests r = some q → q.Waiting ∨ q.Holds →
    s.nodeQueues.lookup q.call.address = some q.queue
  unfailed : ∀ r q, s.requests r = some q → ∀ exn, q.phase ≠ .queued (.exception exn)

variable {s t : Client} {request : Nat} {q new : Request}

theorem Request.Holds.not_waiting (h : q.Holds) : ¬ q.Waiting := by
  intro hwaiting
  rcases h with h | ⟨_,_,_,h⟩ <;> cases h.symm.trans hwaiting

theorem done_eq_false_iff (s : Client) (request : Nat) :
    s.done request = false ↔ ∃ q, s.requests request = some q ∧ q.Waiting := by
  constructor
  · exact done_eq_false
  · rintro ⟨q,hq,hwaiting⟩
    rw [Client.done,hq,Option.map_some,hwaiting]
    rfl

theorem put_self (s : Client) (request : Nat) (new : Request) :
    (s.put request new).requests request = some new := Function.update_self ..

theorem put_of_ne (s : Client) {request r : Nat} (new : Request) (h : r ≠ request) :
    (s.put request new).requests r = s.requests r := Function.update_of_ne h ..

/-- The owner of a queue is alone. -/
theorem Queues.unique (hs : Queues s) {k a b : Nat} (ha : s.Owns k a) (hb : s.Owns k b) : a = b :=
  (hs.coherent k).unique a b ha hb

/-- Two owners for one address are one request. -/
theorem Queues.unique_address (hs : Queues s) {a b : Nat} {q q' : Request}
    (ha : s.requests a = some q) (hb : s.requests b = some q') (hq : q.Holds) (hq' : q'.Holds)
    (haddress : q.call.address = q'.call.address) : a = b := by
  have hqueue := hs.registered a q ha (Or.inr hq)
  rw [haddress,hs.registered b q' hb (Or.inr hq')] at hqueue
  exact hs.unique ⟨q,ha,(Option.some.inj hqueue).symm,hq⟩ ⟨q',hb,rfl,hq'⟩

/-! ### The operations of the client -/

/-- Only requests, queues and registrations matter. -/
theorem Queues.congr (hs : Queues s) (hrequests : t.requests = s.requests)
    (hqueues : t.queues = s.queues) (hnodes : t.nodeQueues = s.nodeQueues)
    (hcount : t.requestCount = s.requestCount) (hqueueCount : t.queueCount = s.queueCount) :
    Queues t := by
  obtain ⟨fresh,created,nodes,waiters,coherent,registered,unfailed⟩ := hs
  refine ⟨?_,?_,?_,?_,fun k => ?_,?_,?_⟩
  · rwa [hrequests,hcount]
  · rwa [hrequests,hqueueCount]
  · rwa [hnodes,hqueueCount]
  · rwa [hrequests,hqueues]
  · unfold Client.Waits Client.Owns
    rw [hrequests,hqueues]
    exact coherent k
  · rwa [hrequests,hnodes]
  · rwa [hrequests]

/-- A request that changes without taking or giving a slot. -/
theorem Queues.put (hs : Queues s) (hq : s.requests request = some q) (hqueue : new.queue = q.queue)
    (haddress : new.call.address = q.call.address) (hwaiting : new.Waiting → q.Waiting)
    (hholds : new.Holds ↔ q.Holds) (hfailed : ∀ exn, new.phase ≠ .queued (.exception exn)) :
    Queues (s.put request new) := by
  have hall : ∀ {P : Nat → Request → Prop}, (∀ r q, s.requests r = some q → P r q) → P request new →
      ∀ r q, (s.put request new).requests r = some q → P r q := by
    intro P hP hnew r q' hq'
    by_cases hr : r = request
    · subst hr
      rw [put_self] at hq'
      cases hq'
      exact hnew
    · rw [put_of_ne s new hr] at hq'
      exact hP r q' hq'
  refine ⟨fun r hr => ?_,hall hs.created (hqueue ▸ hs.created _ _ hq),hs.nodes,fun k w hw => ?_,
    fun k => (hs.coherent k).congr ?_ ?_,hall hs.registered ?_,hall hs.unfailed hfailed⟩
  · have hne : r ≠ request := by
      rintro rfl
      rw [hs.fresh r hr] at hq
      cases hq
    rw [put_of_ne s new hne]
    exact hs.fresh r hr
  · obtain ⟨q',hq',hk⟩ := hs.waiters k w hw
    by_cases hr : w.request = request
    · rw [hr] at hq' ⊢
      cases hq.symm.trans hq'
      exact ⟨new,put_self ..,hqueue.trans hk⟩
    · exact ⟨q',by rw [put_of_ne s new hr,hq'],hk⟩
  · rintro r ⟨q',hq',hk,hw⟩
    by_cases hr : r = request
    · subst hr
      rw [put_self] at hq'
      cases hq'
      exact ⟨q,hq,hqueue.symm.trans hk,hwaiting hw⟩
    · exact ⟨q',by rwa [put_of_ne s new hr] at hq',hk,hw⟩
  · intro r
    by_cases hr : r = request
    · subst hr
      constructor
      · rintro ⟨q',hq',hk,hw⟩
        rw [put_self] at hq'
        cases hq'
        exact ⟨q,hq,hqueue.symm.trans hk,hholds.mp hw⟩
      · rintro ⟨q',hq',hk,hw⟩
        cases hq.symm.trans hq'
        exact ⟨new,put_self ..,hqueue.trans hk,hholds.mpr hw⟩
    · unfold Client.Owns
      rw [put_of_ne s new hr]
  · intro hactive
    rw [haddress,hqueue]
    exact hs.registered _ _ hq (hactive.imp hwaiting hholds.mp)

def Request.granted (q : Request) : Request :=
  {q with phase := .queued (.result ()), obtained := true}

theorem release_queues (s : Client) (k : Nat) :
    (s.release k).queues = Function.update s.queues k ((s.queues k).release s.done).1 := by
  unfold Client.release
  simp only
  generalize ((s.queues k).release s.done).2 = granted
  cases granted with
  | none => rfl
  | some g =>
    unfold Client.grant
    simp only
    split <;> rfl

theorem release_requests (s : Client) (k r : Nat) : (s.release k).requests r =
    if ((s.queues k).release s.done).2 = some r then (s.requests r).map Request.granted
    else s.requests r := by
  unfold Client.release
  simp only
  generalize ((s.queues k).release s.done).2 = granted
  cases granted with
  | none => rfl
  | some g =>
    by_cases hg : g = r
    · subst hg
      cases hq : s.requests g with
      | none => simp [Client.grant,hq]
      | some q => simp [Client.grant,hq,Client.put,Request.granted]
    · rw [if_neg (by simpa using hg)]
      cases hq : s.requests g with
      | none => simp [Client.grant,hq]
      | some q => simp [Client.grant,hq,Client.put,Ne.symm hg]

theorem mem_waiters_of_release {queue : NodeRequestQueue} {done : Nat → Bool} {w : Waiter}
    (h : w ∈ (queue.release done).1.waiters) : w ∈ queue.waiters := by
  unfold NodeRequestQueue.release at h
  split at h
  · next v rest hpop =>
    exact SkipQueue.mem_of_pop hpop h
  · cases h

section Release
variable (hs : Queues s) (hq : s.requests request = some q) (hholds : q.Holds)
  (hleft : ∃ outcome, new.phase = .left outcome)
include hs hq hholds hleft

theorem Queues.done_iff {w : Waiter} (hw : w ∈ (s.queues q.queue).waiters) :
    (s.put request new).done w.request = false ↔ s.Waits q.queue w.request := by
  rw [done_eq_false_iff]
  by_cases hr : w.request = request
  · rw [hr,put_self]
    constructor
    · rintro ⟨q',hq',hwaiting⟩
      cases hq'
      obtain ⟨outcome,hphase⟩ := hleft
      cases hphase.symm.trans hwaiting
    · rintro ⟨q',hq',_,hwaiting⟩
      cases hq.symm.trans hq'
      exact absurd hwaiting hholds.not_waiting
  · rw [put_of_ne s new hr]
    obtain ⟨q',hq',hqueue⟩ := hs.waiters _ w hw
    constructor
    · rintro ⟨q'',hq'',hwaiting⟩
      cases hq'.symm.trans hq''
      exact ⟨q',hq',hqueue,hwaiting⟩
    · rintro ⟨q'',hq'',_,hwaiting⟩
      exact ⟨q'',hq'',hwaiting⟩

/-- The request that the release chooses was waiting in the queue. -/
theorem Queues.granted_waits {g : Nat}
    (hg : ((s.queues q.queue).release (s.put request new).done).2 = some g) : s.Waits q.queue g := by
  have hgranted := (hs.coherent q.queue).release_granted fun w => hs.done_iff hq hholds hleft
  rw [hg] at hgranted
  obtain ⟨_,_,_,hwaits,_⟩ := hgranted
  exact hwaits

/-- The three parts that a request can have in a release. -/
theorem Queues.release_cases (r : Nat) :
    r = request ∧ ((s.put request new).release q.queue).requests r = some new ∨
    (r ≠ request ∧ ((s.queues q.queue).release (s.put request new).done).2 = some r ∧
      ∃ q', s.requests r = some q' ∧ q'.queue = q.queue ∧ q'.Waiting ∧
        ((s.put request new).release q.queue).requests r = some q'.granted) ∨
    r ≠ request ∧ ((s.queues q.queue).release (s.put request new).done).2 ≠ some r ∧
      ((s.put request new).release q.queue).requests r = s.requests r := by
  have hqueues : (s.put request new).queues = s.queues := rfl
  rw [release_requests,hqueues]
  by_cases hg : ((s.queues q.queue).release (s.put request new).done).2 = some r
  · obtain ⟨q',hq',hqueue,hwaiting⟩ := hs.granted_waits hq hholds hleft hg
    have hne : r ≠ request := by
      rintro rfl
      cases hq.symm.trans hq'
      exact hholds.not_waiting hwaiting
    refine Or.inr (Or.inl ⟨hne,hg,q',hq',hqueue,hwaiting,?_⟩)
    rw [if_pos hg,put_of_ne s new hne,hq',Option.map_some]
  · rw [if_neg hg]
    by_cases hr : r = request
    · exact Or.inl ⟨hr,by rw [hr,put_self]⟩
    · exact Or.inr (Or.inr ⟨hr,hg,put_of_ne s new hr⟩)

/-- The released queue is in step with its requests. -/
theorem Queues.release_coherent (k : Nat) :
    Coherent (((s.put request new).release q.queue).queues k)
      (((s.put request new).release q.queue).Waits k)
      (((s.put request new).release q.queue).Owns k) := by
  obtain ⟨outcome,hphase⟩ := hleft
  have hcases := hs.release_cases hq hholds ⟨outcome,hphase⟩
  have hgone : ¬ new.Waiting ∧ ¬ new.Holds := by
    unfold Request.Waiting Request.Holds
    simp [hphase]
  rw [release_queues]
  by_cases hk : k = q.queue
  · subst hk
    rw [Function.update_self]
    refine (hs.coherent q.queue).release _ _ ⟨q,hq,rfl,hholds⟩
      (fun w => hs.done_iff hq hholds ⟨outcome,hphase⟩) ?_ ?_
    · rintro r ⟨q',hq',hqueue',hwaiting⟩
      rcases hcases r with ⟨_,hnew⟩ | ⟨_,_,q'',_,_,_,hnew⟩ | ⟨_,hnot,hsame⟩
      · cases hnew.symm.trans hq'
        exact absurd hwaiting hgone.1
      · cases hnew.symm.trans hq'
        cases hwaiting
      · exact ⟨⟨q',hsame.symm.trans hq',hqueue',hwaiting⟩,hnot⟩
    · intro r
      rcases hcases r with ⟨hr,hnew⟩ | ⟨hr,hgranted,q'',hq'',hqueue'',_,hnew⟩ | ⟨hr,hnot,hsame⟩
      · constructor
        · rintro ⟨q',hq',_,hholds'⟩
          cases hnew.symm.trans hq'
          exact absurd hholds' hgone.2
        · rintro (⟨_,hne⟩ | hgranted)
          · exact absurd hr hne
          · obtain ⟨q',hq',_,hwaiting⟩ := hs.granted_waits hq hholds ⟨outcome,hphase⟩ hgranted
            cases (hr ▸ hq).symm.trans hq'
            exact absurd hwaiting hholds.not_waiting
      · exact ⟨fun _ => Or.inr hgranted,fun _ => ⟨_,hnew,hqueue'',Or.inl rfl⟩⟩
      · unfold Client.Owns
        rw [hsame]
        exact ⟨fun h => Or.inl ⟨h,hr⟩,fun h => (h.resolve_right hnot).1⟩
  · rw [Function.update_of_ne hk]
    refine (hs.coherent k).congr ?_ ?_
    · rintro r ⟨q',hq',hqueue',hwaiting⟩
      rcases hcases r with ⟨_,hnew⟩ | ⟨_,_,q'',_,_,_,hnew⟩ | ⟨_,_,hsame⟩
      · cases hnew.symm.trans hq'
        exact absurd hwaiting hgone.1
      · cases hnew.symm.trans hq'
        cases hwaiting
      · exact ⟨q',hsame.symm.trans hq',hqueue',hwaiting⟩
    · intro r
      rcases hcases r with ⟨hr,hnew⟩ | ⟨_,_,q'',hq'',hqueue'',_,hnew⟩ | ⟨_,_,hsame⟩
      · subst hr
        constructor
        · rintro ⟨q',hq',_,hholds'⟩
          cases hnew.symm.trans hq'
          exact absurd hholds' hgone.2
        · rintro ⟨q',hq',hqueue',_⟩
          cases hq.symm.trans hq'
          exact absurd hqueue'.symm hk
      · constructor
        · rintro ⟨q',hq',hqueue',_⟩
          cases hnew.symm.trans hq'
          exact absurd (hqueue'.symm.trans hqueue'') hk
        · rintro ⟨q',hq',hqueue',_⟩
          cases hq''.symm.trans hq'
          exact absurd (hqueue'.symm.trans hqueue'') hk
      · unfold Client.Owns
        rw [hsame]

/-- The owner leaves and releases its slot. -/
theorem Queues.release (hqueue : new.queue = q.queue) (haddress : new.call.address = q.call.address) :
    Queues ((s.put request new).release q.queue) := by
  have hreleased := released_release (s.put request new) q.queue
  have hcases := hs.release_cases hq hholds hleft
  refine ⟨fun r hr => ?_,fun r q' hq' => ?_,?_,fun k w hw => ?_,
    hs.release_coherent hq hholds hleft,fun r q' hq' hactive => ?_,fun r q' hq' exn => ?_⟩
  · rw [hreleased.requestCount] at hr
    have hnone := hs.fresh r hr
    rcases hcases r with ⟨rfl,_⟩ | ⟨_,_,q'',hq'',_⟩ | ⟨_,_,hsame⟩
    · cases hnone.symm.trans hq
    · cases hnone.symm.trans hq''
    · exact hsame.trans hnone
  · rw [hreleased.queueCount]
    rcases hcases r with ⟨_,hnew⟩ | ⟨_,_,q'',hq'',_,_,hnew⟩ | ⟨_,_,hsame⟩
    · cases hnew.symm.trans hq'
      rw [hqueue]
      exact hs.created _ _ hq
    · cases hnew.symm.trans hq'
      have hcreated := hs.created r q'' hq''
      exact hcreated
    · exact hs.created _ _ (hsame.symm.trans hq')
  · rw [hreleased.nodeQueues,hreleased.queueCount]
    exact hs.nodes
  · have hold : w ∈ (s.queues k).waiters := by
      rw [release_queues] at hw
      by_cases hk : k = q.queue
      · rw [hk,Function.update_self] at hw
        rw [hk]
        exact mem_waiters_of_release hw
      · rwa [Function.update_of_ne hk] at hw
    obtain ⟨q',hq',hk⟩ := hs.waiters k w hold
    rcases hcases w.request with ⟨hr,hnew⟩ | ⟨_,_,q'',hq'',_,_,hnew⟩ | ⟨_,_,hsame⟩
    · rw [hr] at hq' hnew ⊢
      cases hq.symm.trans hq'
      exact ⟨new,hnew,hqueue.trans hk⟩
    · cases hq''.symm.trans hq'
      exact ⟨_,hnew,hk⟩
    · exact ⟨q',hsame.trans hq',hk⟩
  · rw [hreleased.nodeQueues]
    rcases hcases r with ⟨_,hnew⟩ | ⟨_,_,q'',hq'',_,hwaiting,hnew⟩ | ⟨_,_,hsame⟩
    · cases hnew.symm.trans hq'
      rw [haddress,hqueue]
      exact hs.registered _ _ hq (Or.inr hholds)
    · cases hnew.symm.trans hq'
      have hregistered := hs.registered r q'' hq'' (Or.inl hwaiting)
      exact hregistered
    · exact hs.registered _ _ (hsame.symm.trans hq') hactive
  · rcases hcases r with ⟨_,hnew⟩ | ⟨_,_,q'',_,_,_,hnew⟩ | ⟨_,_,hsame⟩
    · cases hnew.symm.trans hq'
      obtain ⟨outcome,hphase⟩ := hleft
      rw [hphase]
      nofun
    · cases hnew.symm.trans hq'
      nofun
    · exact hs.unfailed _ _ (hsame.symm.trans hq') exn

end Release

theorem lookup_of_erase {nodes : AList fun _ : Address => Nat} {address other : Address} {k : Nat}
    (h : (nodes.erase other).lookup address = some k) :
    address ≠ other ∧ nodes.lookup address = some k := by
  have hne : address ≠ other := by
    intro he
    rw [he,AList.lookup_erase] at h
    cases h
  rw [AList.lookup_erase_ne hne] at h
  exact ⟨hne,h⟩

theorem Queues.dropIdleQueue (hs : Queues s) (address : Address) (k : Nat) :
    Queues (s.dropIdleQueue address k) := by
  rcases dropIdleQueue_cases s address k with h | ⟨hidle,hlookup,h⟩
  · rwa [h]
  · obtain ⟨hfree,hunowned⟩ := (hs.coherent k).idle hidle
    rw [h]
    refine ⟨hs.fresh,hs.created,fun address' k' hk' => ?_,hs.waiters,hs.coherent,
      fun r q hq hactive => ?_,hs.unfailed⟩
    · exact hs.nodes _ _ (lookup_of_erase hk').2
    · have hregistered := hs.registered r q hq hactive
      have ha : q.call.address ≠ address := by
        intro ha
        rw [ha,hlookup] at hregistered
        have hqueue := (Option.some.inj hregistered).symm
        rcases hactive with hwaiting | hholds
        · exact hfree r ⟨q,hq,hqueue,hwaiting⟩
        · exact hunowned r ⟨q,hq,hqueue,hholds⟩
      rw [AList.lookup_erase_ne ha]
      exact hregistered

theorem Queues.registerQueue (hs : Queues s) {address : Address}
    (hnone : s.nodeQueues.lookup address = none) : Queues (s.registerQueue address) := by
  have hnew : ∀ r q, s.requests r = some q → q.queue ≠ s.queueCount := fun r q hq =>
    (hs.created r q hq).ne
  have hqueues : (s.registerQueue address).queues = Function.update s.queues s.queueCount {} := rfl
  have hnodes : (s.registerQueue address).nodeQueues = s.nodeQueues.insert address s.queueCount := rfl
  refine ⟨hs.fresh,fun r q hq => Nat.lt_succ_of_lt (hs.created r q hq),fun address' k hk => ?_,
    fun k w hw => ?_,fun k => ?_,fun r q hq hactive => ?_,hs.unfailed⟩
  · rw [hnodes] at hk
    by_cases ha : address' = address
    · rw [ha,AList.lookup_insert] at hk
      cases hk
      exact Nat.lt_succ_self _
    · rw [AList.lookup_insert_ne ha] at hk
      exact Nat.lt_succ_of_lt (hs.nodes _ _ hk)
  · rw [hqueues] at hw
    by_cases hk : k = s.queueCount
    · subst hk
      rw [Function.update_self] at hw
      cases hw
    · rw [Function.update_of_ne hk] at hw
      exact hs.waiters k w hw
  · rw [hqueues]
    by_cases hk : k = s.queueCount
    · subst hk
      rw [Function.update_self]
      exact coherent_empty (fun r ⟨q,hq,hqueue,_⟩ => hnew r q hq hqueue)
        fun r ⟨q,hq,hqueue,_⟩ => hnew r q hq hqueue
    · rw [Function.update_of_ne hk]
      exact hs.coherent k
  · have hregistered := hs.registered r q hq hactive
    have ha : q.call.address ≠ address := by
      intro ha
      rw [ha,hnone] at hregistered
      cases hregistered
    rw [hnodes,AList.lookup_insert_ne ha]
    exact hregistered

theorem Queues.nodeQueue (hs : Queues s) (address : Address) :
    Queues (s.nodeQueue address).1 ∧
      (s.nodeQueue address).1.nodeQueues.lookup address = some (s.nodeQueue address).2 := by
  unfold Client.nodeQueue
  split
  · next queue hqueue => exact ⟨hs,hqueue⟩
  · next hnone => exact ⟨hs.registerQueue hnone,AList.lookup_insert _⟩

/-- Adding a request to a queue adds it to the parts that it plays. -/
theorem acquire_parts (hfresh : s.requests s.requestCount = none) (call : Call) (k : Nat)
    (part : Request → Prop) (k' r : Nat) :
    (∃ q, (s.acquire call k).1.requests r = some q ∧ q.queue = k' ∧ part q) ↔
      (∃ q, s.requests r = some q ∧ q.queue = k' ∧ part q) ∨
        r = s.requestCount ∧ k' = k ∧ part (s.acquire call k).2 := by
  have hnew : (s.acquire call k).1.requests s.requestCount = some (s.acquire call k).2 :=
    Function.update_self ..
  have hqueue : (s.acquire call k).2.queue = k := rfl
  by_cases hr : r = s.requestCount
  · subst hr
    rw [hnew,hfresh]
    constructor
    · rintro ⟨q,hq,hk,hpart⟩
      cases hq
      exact Or.inr ⟨rfl,hk.symm,hpart⟩
    · rintro (⟨q,hq,_⟩ | ⟨_,hk,hpart⟩)
      · cases hq
      · exact ⟨_,rfl,hk.symm,hpart⟩
  · have hsame : (s.acquire call k).1.requests r = s.requests r := Function.update_of_ne hr ..
    rw [hsame]
    exact ⟨Or.inl,fun h => h.resolve_right fun hnew => hr hnew.1⟩

theorem acquire_phase (s : Client) (call : Call) (k : Nat) : (s.acquire call k).2.phase =
    .queued (if (s.queues k).idle then .result () else .pending) := by
  rw [← NodeRequestQueue.acquire_direct (s.queues k) call.priority s.requestCount]
  rfl

theorem mem_acquire {queue : NodeRequestQueue} {priority : RequestPriority} {w : Waiter}
    (hw : w ∈ (queue.acquire priority request).1.waiters) :
    w.request = request ∨ w ∈ queue.waiters := by
  unfold NodeRequestQueue.acquire at hw
  split at hw
  · exact Or.inr hw
  · rcases SkipQueue.mem_push.mp hw with rfl | hw
    · exact Or.inl rfl
    · exact Or.inr hw

theorem Queues.acquire_coherent (hs : Queues s) (call : Call) (k k' : Nat) :
    Coherent ((s.acquire call k).1.queues k') ((s.acquire call k).1.Waits k')
      ((s.acquire call k).1.Owns k') := by
  have hnone := hs.fresh _ le_rfl
  have hwaits := acquire_parts hnone call k Request.Waiting k'
  have howns := acquire_parts hnone call k Request.Holds k'
  have hphase := acquire_phase s call k
  have hqueues : (s.acquire call k).1.queues =
      Function.update s.queues k ((s.queues k).acquire call.priority s.requestCount).1 := rfl
  rw [hqueues]
  by_cases hk : k' = k
  · subst hk
    rw [Function.update_self]
    cases hidle : (s.queues k').idle with
    | true =>
      have hholds : (s.acquire call k').2.Holds := Or.inl (by simpa [hidle] using hphase)
      refine (hs.coherent k').take hidle (fun r hr => ?_) fun r => ?_
      · exact ((hwaits r).mp hr).resolve_right fun h => hholds.not_waiting h.2.2
      · exact (howns r).trans (or_congr_right ⟨fun h => h.1,fun h => ⟨h,rfl,hholds⟩⟩)
    | false =>
      have hwaiting : (s.acquire call k').2.Waiting := by
        rw [Request.Waiting,hphase,hidle]
        rfl
      refine (hs.coherent k').wait hidle (fun w hw => ?_) (fun r hr => ?_) fun r => ?_
      · obtain ⟨q,hq,_⟩ := hs.waiters k' w hw
        intro he
        cases (he ▸ hnone).symm.trans hq
      · exact ((hwaits r).mp hr).imp_right fun h => h.1
      · exact (howns r).trans (or_iff_left fun h => h.2.2.not_waiting hwaiting)
  · rw [Function.update_of_ne hk]
    exact (hs.coherent k').congr (fun r hr => ((hwaits r).mp hr).resolve_right fun h => hk h.2.1)
      fun r => (howns r).trans (or_iff_left fun h => hk h.2.1)

/-- A new request takes the idle slot or waits behind its owner. -/
theorem Queues.acquire (hs : Queues s) {call : Call} {k : Nat}
    (hk : s.nodeQueues.lookup call.address = some k) : Queues (s.acquire call k).1 := by
  have hnone := hs.fresh _ le_rfl
  have hnew : (s.acquire call k).1.requests s.requestCount = some (s.acquire call k).2 :=
    Function.update_self ..
  have hsame : ∀ r, r ≠ s.requestCount → (s.acquire call k).1.requests r = s.requests r :=
    fun r hr => Function.update_of_ne hr ..
  have hall : ∀ {P : Nat → Request → Prop}, (∀ r q, s.requests r = some q → P r q) →
      P s.requestCount (s.acquire call k).2 →
      ∀ r q, (s.acquire call k).1.requests r = some q → P r q := by
    intro P hP hacquired r q hq
    by_cases hr : r = s.requestCount
    · subst hr
      cases hnew.symm.trans hq
      exact hacquired
    · exact hP r q ((hsame r hr).symm.trans hq)
  refine ⟨fun r hr => ?_,hall hs.created (hs.nodes _ _ hk),hs.nodes,fun k' w hw => ?_,
    hs.acquire_coherent call k,hall hs.registered fun _ => hk,hall hs.unfailed fun exn => ?_⟩
  · have hr : s.requestCount < r := hr
    rw [hsame r hr.ne']
    exact hs.fresh r hr.le
  · have hold : w.request = s.requestCount ∧ k' = k ∨ w ∈ (s.queues k').waiters := by
      by_cases hk' : k' = k
      · subst hk'
        have hw : w ∈ ((s.queues k').acquire call.priority s.requestCount).1.waiters := by
          simpa [Client.acquire,Client.put] using hw
        exact (mem_acquire hw).imp_left fun hrequest => ⟨hrequest,rfl⟩
      · have hqueues : (s.acquire call k).1.queues k' = s.queues k' := Function.update_of_ne hk' ..
        rw [hqueues] at hw
        exact Or.inr hw
    rcases hold with ⟨hr,rfl⟩ | hw
    · exact ⟨_,hr ▸ hnew,rfl⟩
    · obtain ⟨q,hq,hqueue⟩ := hs.waiters k' w hw
      have hr : w.request ≠ s.requestCount := by
        intro hr
        cases (hr ▸ hnone).symm.trans hq
      exact ⟨q,(hsame _ hr).trans hq,hqueue⟩
  · rw [acquire_phase]
    split <;> simp

theorem Queues.leave (hs : Queues s) (hq : s.requests request = some q) (hholds : q.Holds)
    (tid : Option Nat) (outcome : Except Exn (Bool × Option Frame)) :
    Queues (s.leave request q tid outcome) := by
  let u : Client := {s with pending := s.popped tid}
  have hu : Queues u := hs.congr rfl rfl rfl rfl rfl
  have hreleased : Queues ((u.put request
      {q with phase := .left outcome, releases := q.releases+1}).release q.queue) :=
    hu.release hq hholds ⟨outcome,rfl⟩ rfl rfl
  rw [leave_eq]
  exact hreleased.dropIdleQueue _ _

theorem Queues.transmit (hs : Queues s) {delivered : Bool} (hq : s.requests request = some q)
    (hphase : q.phase = .queued (.result ())) : Queues (s.transmit request q delivered) := by
  have hholds : q.Holds := Or.inl hphase
  rcases transmit_cases s request q delivered with
    ⟨counter,exn,h⟩ | ⟨tid,counter,_,⟨outcome,h⟩ | ⟨_,h⟩⟩ <;> rw [h]
  · have hu : Queues {s with tidCounter := counter} := hs.congr rfl rfl rfl rfl rfl
    exact hu.leave hq hholds none _
  · have hu : Queues (s.entered request q tid counter) := hs.congr rfl rfl rfl rfl rfl
    exact hu.leave hq hholds _ _
  · have hu : Queues (s.entered request q tid counter) := hs.congr rfl rfl rfl rfl rfl
    exact hu.put hq rfl rfl nofun (iff_of_true (Or.inr ⟨tid,_,_,rfl⟩) hholds) nofun

theorem Queues.sendRequest (hs : Queues s) (call : Call) (delivered : Bool) :
    Queues (s.sendRequest call delivered) := by
  obtain ⟨u,queue,hqueue,hsend⟩ := sendRequest_eq s call delivered
  obtain ⟨hu,hlookup⟩ := hs.nodeQueue call.address
  have hcount := (nodeQueue_frame s call.address).2.2.2
  rw [hqueue] at hu hlookup hcount
  have hacquire : Queues (u.acquire call queue).1 := hu.acquire hlookup
  have hnew : (u.acquire call queue).1.requests s.requestCount = some (u.acquire call queue).2 :=
    hcount ▸ Function.update_self ..
  rw [hsend]
  split
  · next hobtained => exact hacquire.transmit hnew ((acquire_new u call queue).2 hobtained)
  · exact hacquire

/-- A request that no longer waits for the slot and does not hold it is out of the queue. -/
theorem Queues.putGone (hs : Queues s) (hq : s.requests request = some q) (hgone : ¬ q.Holds)
    (hqueue : new.queue = q.queue) (haddress : new.call.address = q.call.address)
    (hwaiting : ¬ new.Waiting) (hholds : ¬ new.Holds)
    (hunfailed : ∀ exn, new.phase ≠ .queued (.exception exn)) : Queues (s.put request new) :=
  hs.put hq hqueue haddress (fun h => absurd h hwaiting) (iff_of_false hholds hgone) hunfailed

/-- A request at the await of its response keeps the slot, whatever becomes of the response. -/
theorem Queues.putAwaiting (hs : Queues s) (hq : s.requests request = some q) {tid : Nat}
    {response : Future Frame} {timedOut : Bool} (hphase : q.phase = .awaiting tid response timedOut)
    (response' : Future Frame) (timedOut' : Bool) :
    Queues (s.put request {q with phase := .awaiting tid response' timedOut'}) := by
  have hholds : q.Holds := Or.inr ⟨tid,response,timedOut,hphase⟩
  exact hs.put hq rfl rfl nofun (iff_of_true (Or.inr ⟨_,_,_,rfl⟩) hholds) nofun

/-- Every event but `stop` keeps the queues in step. -/
theorem Queues.step {event : ClientEvent} (hs : Queues s) (h : s.step event = some t)
    (hstop : event ≠ .stop) : Queues t := by
  cases step_effect h with
  | start => exact hs.congr rfl rfl rfl rfl rfl
  | stop => exact absurd rfl hstop
  | called call delivered => exact hs.sendRequest call delivered
  | allocated => exact hs.congr rfl rfl rfl rfl rfl
  | withdrawn r delivered q release exn hq hphase =>
    rcases hphase with ⟨hphase,rfl⟩ | ⟨exn,hphase⟩
    -- The cancelled future stays in the heap, where a release will skip it.
    · exact hs.putGone hq (by simp [Request.Holds,hphase]) rfl rfl nofun (by simp [Request.Holds]) nofun
    · exact absurd hphase (hs.unfailed _ _ hq exn)
  | handedBack r delivered q hq hphase => exact hs.release hq (Or.inl hphase) ⟨_,rfl⟩ rfl rfl
  | transmitted r delivered q hq hphase => exact hs.transmit hq hphase
  | ended r delivered q tid response timedOut outcome hq hphase =>
    exact hs.leave hq (Or.inr ⟨tid,response,timedOut,hphase⟩) _ outcome
  | abandoned r q hq hphase =>
    exact hs.putGone hq (by simp [Request.Holds,hphase]) rfl rfl nofun (by simp [Request.Holds]) nofun
  | marked r q hq =>
    have hunfailed := hs.unfailed _ _ hq
    exact hs.put hq rfl rfl id Iff.rfl hunfailed
  | timedOut r q tid response before hq hphase => exact hs.putAwaiting hq hphase response true
  | ignored => exact hs
  | answered frame address entry q tid timedOut _ _ hq hphase =>
    have hu : Queues {s with pending := s.pending.erase frame.tid} := hs.congr rfl rfl rfl rfl rfl
    exact hu.putAwaiting hq hphase (.result frame) timedOut
  | dropped => exact hs.congr rfl rfl rfl rfl rfl

theorem queues_init : Queues {} := by
  have hnone : ∀ r, ({} : Client).requests r = none := fun _ => rfl
  have hwaits : ∀ k r, ¬ ({} : Client).Waits k r := fun k r ⟨q,hq,_⟩ => by
    rw [hnone] at hq
    cases hq
  have howns : ∀ k r, ¬ ({} : Client).Owns k r := fun k r ⟨q,hq,_⟩ => by
    rw [hnone] at hq
    cases hq
  refine ⟨fun r _ => hnone r,fun r q hq => ?_,fun address k hk => ?_,fun k w hw => ?_,
    fun k => coherent_empty (hwaits k) (howns k),fun r q hq => ?_,fun r q hq => ?_⟩
  · cases (hnone r).symm.trans hq
  · cases hk
  · cases hw
  · cases (hnone r).symm.trans hq
  · cases (hnone r).symm.trans hq

end Pyhems.Runtime

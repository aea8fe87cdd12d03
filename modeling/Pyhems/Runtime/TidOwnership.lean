import Pyhems.Runtime.RequestMoves

/-! Who owns a TID of the pending table. An entry always belongs to a request that waits for
its response; the converse needs that no request ends while its TID is another's, for the
clean-up of a request removes whatever entry stands under its TID. -/
namespace Pyhems.Runtime
open Protocol Library Transition

/-- The request that ends, if one does, finds no other request's entry under its TID. -/
def OwnTid (s : Client) : ClientEvent → Prop
  | .resume r _ => ∀ a e, s.awaiting r = some a → s.pending.lookup a.tid = some e → e.request = r
  | _ => True

/-- The client is stopped once: no start follows the stop. -/
def OneStop (s : Client) (event : ClientEvent) : Prop := event = .start → s.stopped = false

/-- The parts of the client that the table invariants are about. -/
structure Table (s : Client) : Prop where
  fresh : ∀ r, s.requestCount ≤ r → s.requests r = none
  entered : ∀ tid e, s.pending.lookup tid = some e → (1 ≤ tid ∧ tid ≤ 0xFFFF) ∧
    ∃ a, s.awaiting e.request = some a ∧ a.tid = tid ∧ a.response = .pending ∧
      e = a.call.pendingRequest e.request
  closed : s.started = false → ∀ tid, s.pending.lookup tid = none

/-- Every request that waits for its response is in the table under its TID. -/
def Tracked (s : Client) : Prop :=
  ∀ r a, s.awaiting r = some a → a.response = .pending →
    s.pending.lookup a.tid = some (a.call.pendingRequest r)

variable {s t : Client} {event : ClientEvent}

theorem lookup_erase_some {pending : AList fun _ : Nat => PendingRequest} {tid k : Nat}
    {e : PendingRequest} (h : (pending.erase tid).lookup k = some e) :
    k ≠ tid ∧ pending.lookup k = some e := by
  have hk : k ≠ tid := by
    rintro rfl
    rw [AList.lookup_erase] at h
    cases h
  exact ⟨hk,by rwa [AList.lookup_erase_ne hk] at h⟩

theorem lookup_empty (k : Nat) : (∅ : AList fun _ : Nat => PendingRequest).lookup k = none :=
  AList.lookup_empty k

/-! ### Start and stop -/

/-- Whether the socket is open, and whether `stop` ever closed it. -/
def Client.lifecycle (s : Client) : Bool × Bool := (s.started,s.stopped)

@[simp] theorem lifecycle_put (s : Client) (request : Nat) (new : Request) :
    (s.put request new).lifecycle = s.lifecycle := rfl

@[simp] theorem lifecycle_release (s : Client) (queue : Nat) :
    (s.release queue).lifecycle = s.lifecycle :=
  Prod.ext (released_release s queue).started (released_release s queue).stopped

@[simp] theorem lifecycle_dropIdleQueue (s : Client) (address : Address) (queue : Nat) :
    (s.dropIdleQueue address queue).lifecycle = s.lifecycle := by
  rcases dropIdleQueue_cases s address queue with h | ⟨_,_,h⟩
  · rw [h]
  · rw [h]
    rfl

@[simp] theorem lifecycle_leave (s : Client) (request : Nat) (q : Request) (tid : Option Nat)
    (outcome : Except Exn (Bool × Option Frame)) :
    (s.leave request q tid outcome).lifecycle = s.lifecycle := by
  rw [leave_eq,lifecycle_dropIdleQueue,lifecycle_release,lifecycle_put]
  rfl

@[simp] theorem lifecycle_transmit (s : Client) (request : Nat) (q : Request) (delivered : Bool) :
    (s.transmit request q delivered).lifecycle = s.lifecycle := by
  rcases transmit_cases s request q delivered with
    ⟨counter,exn,h⟩ | ⟨tid,counter,_,⟨outcome,h⟩ | ⟨_,h⟩⟩ <;> rw [h]
  · exact lifecycle_leave ..
  · exact lifecycle_leave ..
  · rfl

@[simp] theorem lifecycle_abandon (s : Client) (request : Nat) (q : Request) (release : Bool)
    (exn : Exn) : (s.abandon request q release exn).lifecycle = s.lifecycle := by
  cases release with
  | false => rfl
  | true => exact lifecycle_release ..

theorem lifecycle_sendRequest (s : Client) (call : Call) (delivered : Bool) :
    (s.sendRequest call delivered).lifecycle = s.lifecycle := by
  obtain ⟨u,queue,hqueue,hsend⟩ := sendRequest_eq s call delivered
  have hu : u.lifecycle = s.lifecycle := by
    have hframe : (s.nodeQueue call.address).1.lifecycle = s.lifecycle := by
      unfold Client.nodeQueue
      split <;> rfl
    rwa [hqueue] at hframe
  have hacquire : (u.acquire call queue).1.lifecycle = s.lifecycle := hu
  rw [hsend]
  split
  · rw [lifecycle_transmit,hacquire]
  · exact hacquire

/-- Only `start` and `stop` open and close the socket. -/
theorem step_lifecycle (h : s.step event = some t) :
    t.lifecycle = s.lifecycle ∨ event = .start ∧ t = {s with started := true} ∨
      event = .stop ∧ s.started = true ∧ t = s.stop ∧ t.lifecycle = (false,true) := by
  cases step_effect h with
  | start => exact Or.inr (Or.inl ⟨rfl,rfl⟩)
  | stop =>
    cases hstarted : s.started with
    | false => exact Or.inl (by simp [Client.stop,hstarted])
    | true => exact Or.inr (Or.inr ⟨rfl,rfl,rfl,by simp [Client.stop,hstarted,Client.lifecycle]⟩)
  | called call delivered => exact Or.inl (lifecycle_sendRequest ..)
  | withdrawn | handedBack => exact Or.inl (lifecycle_abandon ..)
  | transmitted => exact Or.inl (lifecycle_transmit ..)
  | ended => exact Or.inl (lifecycle_leave ..)
  | _ => exact Or.inl rfl

/-! ### One step -/

/-- A mark leaves the request and its response as they are. -/
theorem marked_same {a a' : Awaiting} {r : Nat}
    (hmark : event = .cancel r ∧ a' = {a with cancelRequested := true} ∨
      event = .timeout r ∧ a' = {a with timedOut := true}) :
    a'.tid = a.tid ∧ a'.response = a.response ∧ a'.call = a.call := by
  rcases hmark with ⟨_,rfl⟩ | ⟨_,rfl⟩ <;> exact ⟨rfl,rfl,rfl⟩

theorem ne_of_awaiting {r x : Nat} {a : Awaiting} (hr : s.awaiting r = none)
    (hx : s.awaiting x = some a) : x ≠ r := by
  rintro rfl
  cases hr.symm.trans hx

theorem entered_step (h : TableStep s event t) (hs : Table s) :
    ∀ tid e, t.pending.lookup tid = some e → (1 ≤ tid ∧ tid ≤ 0xFFFF) ∧
      ∃ a, t.awaiting e.request = some a ∧ a.tid = tid ∧ a.response = .pending ∧
        e = a.call.pendingRequest e.request := by
  intro k e he
  cases h with
  | quiet hpending ha =>
    rw [hpending] at he
    rw [ha]
    exact hs.entered k e he
  | sent r tid call hr htid hrange hstarted hpending ha =>
    rw [hpending] at he
    by_cases hk : k = tid
    · subst hk
      rw [AList.lookup_insert] at he
      cases he
      exact ⟨hrange,_,by rw [ha]; exact Function.update_self ..,rfl,rfl,rfl⟩
    · rw [AList.lookup_insert_ne hk] at he
      obtain ⟨hrange,a,hawait,hrest⟩ := hs.entered k e he
      exact ⟨hrange,a,by rw [ha,Function.update_of_ne (ne_of_awaiting hr hawait),hawait],hrest⟩
  | ended r delivered a outcome _ hr _ hpending ha =>
    rw [hpending] at he
    obtain ⟨hk,he⟩ := lookup_erase_some he
    obtain ⟨hrange,b,hawait,htid,hrest⟩ := hs.entered k e he
    have hne : e.request ≠ r := by
      intro hreq
      rw [hreq,hr] at hawait
      cases hawait
      exact hk htid.symm
    exact ⟨hrange,b,by rw [ha,Function.update_of_ne hne,hawait],htid,hrest⟩
  | marked r a a' hr hmark hpending ha =>
    rw [hpending] at he
    obtain ⟨hrange,b,hawait,hrest⟩ := hs.entered k e he
    by_cases hreq : e.request = r
    · have hsame := marked_same hmark
      rw [hreq,hr] at hawait
      cases hawait
      refine ⟨hrange,a',by rw [ha,hreq,Function.update_self],?_⟩
      rw [hsame.1,hsame.2.1,hsame.2.2]
      exact hrest
    · exact ⟨hrange,b,by rw [ha,Function.update_of_ne hreq,hawait],hrest⟩
  | answered frame address entry _ hentry _ hpending ha =>
    rw [hpending] at he
    obtain ⟨hk,he⟩ := lookup_erase_some he
    obtain ⟨hrange,b,hawait,htid,hrest⟩ := hs.entered k e he
    have hne : e.request ≠ entry.request := by
      intro hreq
      obtain ⟨_,c,hc,hctid,_⟩ := hs.entered _ entry hentry
      rw [hreq,hc] at hawait
      cases hawait
      exact hk (htid.symm.trans hctid)
    exact ⟨hrange,b,by rw [ha,Function.update_of_ne hne,hawait],htid,hrest⟩
  | stopped _ hpending =>
    rw [hpending,lookup_empty] at he
    cases he

theorem tracked_step (h : TableStep s event t) (hown : OwnTid s event) (hs : Table s)
    (htracked : Tracked s) : Tracked t := by
  intro r b hb hresponse
  cases h with
  | quiet hpending ha =>
    rw [ha] at hb
    rw [hpending]
    exact htracked r b hb hresponse
  | sent r' tid call _ htid _ _ hpending ha =>
    rw [ha] at hb
    rw [hpending]
    by_cases hr : r = r'
    · subst hr
      rw [Function.update_self] at hb
      cases hb
      exact AList.lookup_insert _
    · rw [Function.update_of_ne hr] at hb
      have hlookup := htracked r b hb hresponse
      have hne : b.tid ≠ tid := by
        rintro rfl
        rw [AList.lookup_eq_none.mpr htid] at hlookup
        cases hlookup
      rw [AList.lookup_insert_ne hne,hlookup]
  | ended r' delivered a outcome hevent hr' _ hpending ha =>
    rw [ha] at hb
    rw [hpending]
    have hr : r ≠ r' := by
      rintro rfl
      rw [Function.update_self] at hb
      cases hb
    rw [Function.update_of_ne hr] at hb
    have hlookup := htracked r b hb hresponse
    -- The entry of `r` survives: the request that ends may only remove its own.
    have hne : b.tid ≠ a.tid := by
      intro htid
      rw [htid] at hlookup
      subst hevent
      exact hr (hown a _ hr' hlookup)
    rw [AList.lookup_erase_ne hne,hlookup]
  | marked r' a a' hr' hmark hpending ha =>
    rw [ha] at hb
    rw [hpending]
    have hsame := marked_same hmark
    by_cases hr : r = r'
    · subst hr
      rw [Function.update_self] at hb
      cases hb
      rw [hsame.1,hsame.2.2]
      exact htracked r a hr' (hsame.2.1 ▸ hresponse)
    · rw [Function.update_of_ne hr] at hb
      exact htracked r b hb hresponse
  | answered frame address entry _ hentry _ hpending ha =>
    obtain ⟨_,a,hawait,_,hpend,_⟩ := hs.entered _ entry hentry
    rw [ha] at hb
    rw [hpending]
    by_cases hr : r = entry.request
    · subst hr
      rw [Function.update_self,hawait,Option.map_some,Awaiting.setResult,hpend] at hb
      cases hb
      cases hresponse
    · rw [Function.update_of_ne hr] at hb
      have hlookup := htracked r b hb hresponse
      have hne : b.tid ≠ frame.tid := by
        intro htid
        rw [htid,hentry] at hlookup
        exact hr (congrArg PendingRequest.request (Option.some.inj hlookup)).symm
      rw [AList.lookup_erase_ne hne,hlookup]
  | stopped _ hpending ha =>
    rw [ha] at hb
    obtain ⟨a,hawait,rfl⟩ := Option.map_eq_some_iff.mp hb
    have hpend : a.response = .pending := by
      revert hresponse
      split
      · unfold Awaiting.fail
        split
        · simp
        · exact id
      · exact id
    have hmem : r ∈ s.pendingRequests := by
      have hlookup := htracked r a hawait hpend
      exact List.mem_map.mpr ⟨_,AList.mem_lookup_iff.mp hlookup,rfl⟩
    rw [if_pos hmem,Awaiting.fail,hpend] at hresponse
    cases hresponse

theorem closed_step (h : TableStep s event t) (hlife : s.started = false)
    (hs : Table s) : ∀ tid, t.pending.lookup tid = none := by
  have hclosed := hs.closed hlife
  have herase : ∀ k tid, (s.pending.erase k).lookup tid = none := by
    intro k tid
    by_cases hk : tid = k
    · rw [hk,AList.lookup_erase]
    · rw [AList.lookup_erase_ne hk,hclosed]
  intro tid
  cases h with
  | quiet hpending => rw [hpending,hclosed]
  | sent _ _ _ _ _ _ hstarted =>
    rw [hlife] at hstarted
    cases hstarted
  | ended _ _ _ _ _ _ _ hpending => rw [hpending,herase]
  | marked _ _ _ _ _ hpending => rw [hpending,hclosed]
  | answered _ _ _ _ _ _ hpending => rw [hpending,herase]
  | stopped _ hpending => rw [hpending,lookup_empty]

theorem table_step (hs : Table s) (h : s.step event = some t) : Table t := by
  have htable := step_table (hs.fresh _ le_rfl) h
  refine ⟨fresh_step hs.fresh h,entered_step htable hs,fun hstarted => ?_⟩
  rcases step_lifecycle h with hlife | ⟨_,rfl⟩ | ⟨rfl,hopen,rfl,_⟩
  · exact closed_step htable ((congrArg Prod.fst hlife).symm.trans hstarted) hs
  · cases hstarted
  · intro tid
    simp [Client.stop,hopen]

theorem table_init : Table {} := ⟨fun _ _ => rfl,nofun,fun _ _ => rfl⟩

/-- The table invariants hold in every state that the client can reach. -/
theorem table_reached {guard : Client → ClientEvent → Prop} (h : Reaches Client.step guard {} s) :
    Table s :=
  h.invariant table_init fun _ _ _ hs _ ht => table_step hs ht

/-- While every request that ends owns its TID, no waiting request loses its entry. -/
theorem tracked_reached {guard : Client → ClientEvent → Prop} (h : Reaches Client.step guard {} s)
    (hguard : ∀ s event, guard s event → OwnTid s event) : Tracked s := by
  have hstart : Tracked {} := fun _ _ hwaits => by cases hwaits
  exact h.invariant₂ (fun _ => table_reached) hstart fun _ _ _ hs htracked hg ht =>
    tracked_step (step_table (hs.fresh _ le_rfl) ht) (hguard _ _ hg) hs htracked

/-! ### A run that takes another request's entry -/

def temperatureSensor : EOJ := ⟨0x001101,by decide⟩

def readStatus (address : Address) : Call :=
  ⟨address,temperatureSensor,controllerInstance,.get,[⟨0x80,[]⟩],.poll⟩

def statusFrame (tid : Nat) : Frame := ⟨temperatureSensor,controllerInstance,.getRes,tid,[⟨0x80,[0x30]⟩]⟩

/-- A request under TID 1 has its answer, and its task has not resumed yet. -/
def answered : Client :=
  (({started := true} : Client).sendRequest (readStatus "192.0.2.1") true).receive (statusFrame 1)
    "192.0.2.1"

/-- 65534 more TIDs were taken, by frames that wait for no response, and another node is asked
under the next one, which is 1 again. -/
def wrapped : Client :=
  {answered with tidCounter := answered.tidCounter+65534}.sendRequest (readStatus "192.0.2.2") true

/-- Frames that wait for no response take the TIDs in turn. -/
theorem allocate_reached {s : Client} (hpending : s.pending = ∅) (n : Nat)
    (hn : s.tidCounter+n ≤ 0xFFFF) :
    Reaches Client.step OneStop s {s with tidCounter := s.tidCounter+n} := by
  induction n with
  | zero => exact .refl
  | succ n ih =>
    have hnext : nextTransactionId ∅ 0xFFFF (s.tidCounter+n) =
        (.ok (s.tidCounter+n+1),s.tidCounter+n+1) := by
      have hmod : (s.tidCounter+n) % 0xFFFF = s.tidCounter+n := Nat.mod_eq_of_lt (by omega)
      rw [nextTransactionId,hmod,if_neg (AList.notMem_empty _)]
    refine (ih (by omega)).tail (l := .allocate) (fun h => by cases h) ?_
    simp only [Client.step,hpending,hnext]
    rfl

/-- The first request resumes and removes the entry of the second one, which goes on waiting. -/
theorem entry_lost : ∃ s : Client, Reaches Client.step OneStop {} s ∧ s.stopped = false ∧
    s.started = true ∧ s.pending.entries = [] ∧
    s.awaiting 1 = some ⟨readStatus "192.0.2.2",1,.pending,false,false⟩ := by
  have hanswered : Reaches Client.step OneStop {} answered :=
    ((Reaches.refl.tail (l := .start) (fun _ => rfl) rfl).tail
      (l := .call (readStatus "192.0.2.1") true) nofun rfl).tail
      (l := .receive (statusFrame 1) "192.0.2.1") nofun rfl
  have hwrapped : Reaches Client.step OneStop {} wrapped :=
    (hanswered.trans (allocate_reached rfl 65534 (by decide))).tail
      (l := .call (readStatus "192.0.2.2") true) nofun rfl
  exact ⟨_,hwrapped.tail (l := .resume 0 true) nofun rfl,rfl,rfl,rfl,rfl⟩

end Pyhems.Runtime

import Mathlib.Logic.Relation
import Pyhems.Runtime.PendingTable

/-! The life of one request: the moves that events can make on it, and what no move can
change. A request that has left never moves again, and one that was handed the slot has
released it once when it leaves. -/
namespace Pyhems.Runtime
open Protocol Library Relation

/-- One change of a request, whoever makes it. -/
inductive Move (q : Request) : Request → Prop where
  | granted (h : q.phase = .queued .pending) :
      Move q {q with phase := .queued (.result ()), obtained := true}
  | abandoned (h : q.phase = .queued .pending) :
      Move q {q with phase := .queued .cancelled, cancelRequested := true}
  | failed (h : q.phase = .queued .pending) :
      Move q {q with phase := .queued (.exception clientStopped)}
  | marked (hqueued : q.phase ≠ .queued .pending) (hleft : ∀ outcome, q.phase ≠ .left outcome) :
      Move q {q with cancelRequested := true}
  | sent (tid : Nat) (h : q.phase = .queued (.result ())) :
      Move q {q with phase := .awaiting tid .pending false}
  | waited {tid : Nat} {response : Future Frame} {timedOut : Bool} (response' : Future Frame)
      (timedOut' : Bool) (h : q.phase = .awaiting tid response timedOut) :
      Move q {q with phase := .awaiting tid response' timedOut'}
  | withdrawn (exn : Exn) (releases : Nat)
      (h : q.phase = .queued .cancelled ∨ ∃ e, q.phase = .queued (.exception e)) :
      Move q {q with phase := .left (.error exn), releases}
  | ended (outcome : Except Exn (Bool × Option Frame))
      (h : q.phase = .queued (.result ()) ∨
        ∃ tid response timedOut, q.phase = .awaiting tid response timedOut) :
      Move q {q with phase := .left outcome, releases := q.releases+1}

/-- A request at its start: it waits for the slot, or was handed it at once. -/
def Request.New (q : Request) : Prop :=
  q.cancelRequested = false ∧ q.releases = 0 ∧
    (q.phase = .queued .pending ∧ q.obtained = false ∨
      q.phase = .queued (.result ()) ∧ q.obtained = true)

/-- Requests are only added, under new numbers, and moved. -/
structure Moves (s t : Client) : Prop where
  count : s.requestCount ≤ t.requestCount
  moved : ∀ r q, s.requests r = some q →
    ∃ q', t.requests r = some q' ∧ ReflTransGen Move q q'
  arisen : ∀ r, s.requests r = none → t.requests r = none ∨ r < t.requestCount ∧
    ∃ q q', q.New ∧ t.requests r = some q' ∧ ReflTransGen Move q q'

variable {s t u : Client} {event : ClientEvent} {request : Nat} {q new : Request}

theorem Moves.trans (h : Moves s t) (h' : Moves t u) : Moves s u := by
  refine ⟨h.count.trans h'.count,fun r q hq => ?_,fun r hr => ?_⟩
  · obtain ⟨q₁,hq₁,hm₁⟩ := h.moved r q hq
    obtain ⟨q₂,hq₂,hm₂⟩ := h'.moved r q₁ hq₁
    exact ⟨q₂,hq₂,hm₁.trans hm₂⟩
  · rcases h.arisen r hr with hnone | ⟨hlt,q,q₁,hnew,hq₁,hm₁⟩
    · exact h'.arisen r hnone
    · obtain ⟨q₂,hq₂,hm₂⟩ := h'.moved r q₁ hq₁
      exact Or.inr ⟨hlt.trans_le h'.count,q,q₂,hnew,hq₂,hm₁.trans hm₂⟩

/-- A property of requests that holds at the start of each and survives every move. -/
theorem Moves.all (h : Moves s t) {P : Request → Prop} (hnew : ∀ q, q.New → P q)
    (hmove : ∀ q q', Move q q' → P q → P q') (hs : ∀ r q, s.requests r = some q → P q) :
    ∀ r q, t.requests r = some q → P q := by
  have hmoves : ∀ q q', ReflTransGen Move q q' → P q → P q' := by
    intro q q' hm hq
    induction hm with
    | refl => exact hq
    | tail _ hm ih => exact hmove _ _ hm ih
  intro r q' hq'
  cases hr : s.requests r with
  | none =>
    rcases h.arisen r hr with hnone | ⟨_,q,q₁,hq,hq₁,hm⟩
    · rw [hnone] at hq'
      cases hq'
    · cases hq₁.symm.trans hq'
      exact hmoves _ _ hm (hnew q hq)
  | some q =>
    obtain ⟨q₁,hq₁,hm⟩ := h.moved r q hr
    cases hq₁.symm.trans hq'
    exact hmoves _ _ hm (hs r q hr)

theorem moves_of_eq (h : t.requests = s.requests) (hcount : s.requestCount ≤ t.requestCount) :
    Moves s t :=
  ⟨hcount,fun r q hq => ⟨q,by rw [h,hq],.refl⟩,fun r hr => Or.inl (by rw [h,hr])⟩

theorem moves_put (h : s.requests request = some q) (hm : Move q new) :
    Moves s (s.put request new) := by
  refine ⟨le_rfl,fun r q' hq' => ?_,fun r hr => Or.inl ?_⟩
  · by_cases hrequest : r = request
    · subst hrequest
      cases h.symm.trans hq'
      exact ⟨new,by simp [Client.put],.single hm⟩
    · exact ⟨q',by simpa [Client.put,hrequest] using hq',.refl⟩
  · have hne : r ≠ request := by
      rintro rfl
      rw [h] at hr
      cases hr
    simpa [Client.put,hne] using hr

theorem moves_new (h : s.requests request = none) (hnew : new.New)
    (hcount : request < s.requestCount) : Moves s (s.put request new) := by
  refine ⟨le_rfl,fun r q hq => ⟨q,?_,.refl⟩,fun r hr => ?_⟩
  · have hne : r ≠ request := by
      rintro rfl
      rw [h] at hq
      cases hq
    simpa [Client.put,hne] using hq
  · by_cases hrequest : r = request
    · subst hrequest
      exact Or.inr ⟨hcount,new,new,hnew,by simp [Client.put],.refl⟩
    · exact Or.inl (by simpa [Client.put,hrequest] using hr)

theorem Released.moves (h : Released s t) : Moves s t := by
  refine ⟨h.requestCount.ge,fun r q hq => ?_,fun r hr => Or.inl ?_⟩
  · rcases h.requests r with he | ⟨q',hq',hphase,ht⟩
    · exact ⟨q,he.trans hq,.refl⟩
    · cases hq.symm.trans hq'
      exact ⟨_,ht,.single (.granted hphase)⟩
  · rcases h.requests r with he | ⟨q',hq',_⟩
    · exact he.trans hr
    · rw [hr] at hq'
      cases hq'

/-! ### The moves of every event -/

/-- Leaving is one `put` on a client whose table may have lost a TID, a release, and the
removal of an idle queue. -/
theorem leave_eq (s : Client) (request : Nat) (q : Request) (tid : Option Nat)
    (outcome : Except Exn (Bool × Option Frame)) :
    s.leave request q tid outcome =
      ((({s with pending := s.popped tid}.put request
        {q with phase := .left outcome, releases := q.releases+1}).release q.queue).dropIdleQueue
        q.call.address q.queue) := by
  cases tid <;> rfl

theorem leave_moves (h : s.requests request = some q)
    (hphase : q.phase = .queued (.result ()) ∨
      ∃ tid response timedOut, q.phase = .awaiting tid response timedOut) (tid : Option Nat)
    (outcome : Except Exn (Bool × Option Frame)) : Moves s (s.leave request q tid outcome) := by
  let u : Client := {s with pending := s.popped tid}
  have hpopped : Moves s u := moves_of_eq rfl le_rfl
  have hput : Moves u (u.put request {q with phase := .left outcome, releases := q.releases+1}) :=
    moves_put h (.ended outcome hphase)
  have hrelease := (released_release (u.put request
    {q with phase := .left outcome, releases := q.releases+1}) q.queue).moves
  obtain ⟨hdrop,_,hcount⟩ := dropIdleQueue_requests ((u.put request
    {q with phase := .left outcome, releases := q.releases+1}).release q.queue) q.call.address q.queue
  rw [leave_eq]
  exact hpopped.trans (hput.trans (hrelease.trans (moves_of_eq hdrop hcount.ge)))

theorem transmit_moves (delivered : Bool) (h : s.requests request = some q)
    (hphase : q.phase = .queued (.result ())) : Moves s (s.transmit request q delivered) := by
  have hleave : ∀ u : Client, u.requests = s.requests → u.requestCount = s.requestCount →
      ∀ tid outcome, Moves s (u.leave request q tid outcome) := by
    intro u hu hcount tid outcome
    have hq : u.requests request = some q := by rw [hu,h]
    exact (moves_of_eq hu hcount.ge).trans (leave_moves hq (Or.inl hphase) tid outcome)
  rcases transmit_cases s request q delivered with
    ⟨counter,exn,ht⟩ | ⟨tid,counter,_,⟨outcome,ht⟩ | ⟨_,ht⟩⟩ <;> rw [ht]
  · exact hleave {s with tidCounter := counter} rfl rfl _ _
  · exact hleave (s.entered request q tid counter) rfl rfl _ _
  · have hq : (s.entered request q tid counter).requests request = some q := h
    have hentered : Moves s (s.entered request q tid counter) := moves_of_eq rfl le_rfl
    exact hentered.trans (moves_put hq (.sent tid hphase))

theorem abandon_moves (h : s.requests request = some q) {release : Bool} {exn : Exn}
    (hm : Move q {q with phase := .left (.error exn),
                         releases := if release then q.releases+1 else q.releases}) :
    Moves s (s.abandon request q release exn) := by
  cases release with
  | false => exact moves_put h hm
  | true => exact (moves_put h hm).trans (released_release _ q.queue).moves

theorem fail_moves (q : Request) : ReflTransGen Move q {q with phase := q.phase.fail} := by
  obtain ⟨call,queue,phase,cancelRequested,obtained,releases⟩ := q
  cases phase with
  | queued future =>
    cases future with
    | pending => exact .single (.failed rfl)
    | _ => exact .refl
  | awaiting tid response timedOut =>
    cases response with
    | pending => exact .single (.waited (.exception clientStopped) timedOut rfl)
    | _ => exact .refl
  | left outcome => exact .refl

theorem stop_moves (s : Client) : Moves s s.stop := by
  unfold Client.stop
  split
  · exact moves_of_eq rfl le_rfl
  · refine ⟨le_rfl,fun r q hq => ?_,fun r hr => Or.inl (by simp [hr])⟩
    simp only [hq,Option.map_some]
    split
    · exact ⟨_,rfl,fail_moves q⟩
    · exact ⟨q,rfl,.refl⟩

theorem acquire_new (s : Client) (call : Call) (queue : Nat) : (s.acquire call queue).2.New ∧
    ((s.acquire call queue).2.obtained = true →
      (s.acquire call queue).2.phase = .queued (.result ())) := by
  unfold Client.acquire
  cases hacquire : (s.queues queue).acquire call.priority s.requestCount with
  | mk acquired direct => cases direct <;> simp [Request.New]

theorem sendRequest_moves (hfresh : s.requests s.requestCount = none) (call : Call)
    (delivered : Bool) : Moves s (s.sendRequest call delivered) := by
  obtain ⟨u,queue,hqueue,hsend⟩ := sendRequest_eq s call delivered
  obtain ⟨_,hrequests,_,hcount⟩ := nodeQueue_frame s call.address
  rw [hqueue] at hrequests hcount
  replace hcount : u.requestCount = s.requestCount := hcount
  obtain ⟨v,hacquire,_,_,hv,hvcount⟩ := acquire_eq u call queue
  obtain ⟨hnew,hdirect⟩ := acquire_new u call queue
  have hv := hv.trans hrequests
  have harisen : Moves s (u.acquire call queue).1 := by
    have hnone : v.requests u.requestCount = none := by rw [hv,hcount,hfresh]
    have hput := moves_new hnone hnew (by omega)
    rw [hacquire]
    exact (moves_of_eq hv (by omega)).trans hput
  rw [hsend]
  split
  · next hobtained =>
    refine harisen.trans (transmit_moves _ ?_ (hdirect hobtained))
    rw [hacquire,← hcount]
    simp [Client.put]
  · exact harisen

theorem moved_call (h : ReflTransGen Move q new) : new.call = q.call := by
  induction h with
  | refl => rfl
  | tail _ hm ih => cases hm <;> exact ih

/-- The request that `_send_request` makes carries its arguments. -/
theorem sendRequest_call (s : Client) (call : Call) (delivered : Bool) : ∃ q,
    (s.sendRequest call delivered).requests s.requestCount = some q ∧ q.call = call := by
  obtain ⟨u,queue,hqueue,hsend⟩ := sendRequest_eq s call delivered
  have hcount : u.requestCount = s.requestCount := by
    have hframe := (nodeQueue_frame s call.address).2.2.2
    rwa [hqueue] at hframe
  have hnew : (u.acquire call queue).1.requests s.requestCount = some (u.acquire call queue).2 :=
    hcount ▸ Function.update_self ..
  rw [hsend]
  split
  · next hobtained =>
    obtain ⟨q,hq,hm⟩ := (transmit_moves delivered hnew
      ((acquire_new u call queue).2 hobtained)).moved _ _ hnew
    exact ⟨q,hq,moved_call hm⟩
  · exact ⟨_,hnew,rfl⟩

theorem step_moves (hfresh : s.requests s.requestCount = none) (h : s.step event = some t) :
    Moves s t := by
  cases step_effect h with
  | start => exact moves_of_eq rfl le_rfl
  | stop => exact stop_moves s
  | called call delivered => exact sendRequest_moves hfresh call delivered
  | allocated => exact moves_of_eq rfl le_rfl
  | withdrawn r delivered q release exn hq hphase =>
    exact abandon_moves hq (.withdrawn _ _ (hphase.imp_left And.left))
  | handedBack r delivered q hq hphase => exact abandon_moves hq (.ended _ (Or.inl hphase))
  | transmitted r delivered q hq hphase => exact transmit_moves _ hq hphase
  | ended r delivered q tid response timedOut outcome hq hphase =>
    exact leave_moves hq (Or.inr ⟨tid,response,timedOut,hphase⟩) _ outcome
  | abandoned r q hq hphase => exact moves_put hq (.abandoned hphase)
  | marked r q hq hqueued hleft => exact moves_put hq (.marked hqueued hleft)
  | timedOut r q tid response before hq hphase => exact moves_put hq (.waited _ _ hphase)
  | ignored => exact moves_of_eq rfl le_rfl
  | answered frame address entry q tid timedOut _ _ hq hphase =>
    let u : Client := {s with pending := s.pending.erase frame.tid}
    have hmoves : Moves s u := moves_of_eq rfl le_rfl
    exact hmoves.trans (moves_put hq (.waited (.result frame) _ hphase))
  | dropped => exact moves_of_eq rfl le_rfl

/-! ### What no move can change -/

theorem fresh_step (hfresh : ∀ r, s.requestCount ≤ r → s.requests r = none)
    (h : s.step event = some t) : ∀ r, t.requestCount ≤ r → t.requests r = none := by
  have hmoves := step_moves (hfresh _ le_rfl) h
  intro r hr
  rcases hmoves.arisen r (hfresh r (hmoves.count.trans hr)) with hnone | ⟨hlt,_⟩
  · exact hnone
  · omega

theorem moved_left {outcome : Except Exn (Bool × Option Frame)} (h : ReflTransGen Move q new)
    (hleft : q.phase = .left outcome) : new = q := by
  induction h with
  | refl => rfl
  | tail _ hm ih =>
    subst ih
    cases hm <;> simp_all

/-- A request that has left stays as it is. -/
theorem left_step {outcome : Except Exn (Bool × Option Frame)}
    (hfresh : ∀ r, s.requestCount ≤ r → s.requests r = none) (h : s.step event = some t)
    (hq : s.requests request = some q) (hleft : q.phase = .left outcome) :
    t.requests request = some q := by
  obtain ⟨q',hq',hm⟩ := (step_moves (hfresh _ le_rfl) h).moved request q hq
  rw [hq',moved_left hm hleft]

/-- The slot is released once by a request that had it, at its end. -/
def Request.Counted (q : Request) : Prop :=
  match q.phase with
  | .queued (.result _) | .awaiting _ _ _ => q.obtained = true ∧ q.releases = 0
  | .queued _ => q.obtained = false ∧ q.releases = 0
  | .left _ => q.obtained = true → q.releases = 1

theorem Request.New.counted (h : q.New) : q.Counted := by
  obtain ⟨_,hreleases,⟨hphase,hobtained⟩ | ⟨hphase,hobtained⟩⟩ := h <;>
    simp [Request.Counted,hphase,hobtained,hreleases]

theorem Move.counted (h : Move q new) (hq : q.Counted) : new.Counted := by
  unfold Request.Counted at hq ⊢
  cases h with
  | granted h | abandoned h | failed h | sent _ h | waited _ _ h => simp_all
  | marked hqueued hleft => exact hq
  | withdrawn exn releases h => rcases h with h | ⟨e,h⟩ <;> simp_all
  | ended outcome h => rcases h with h | ⟨tid,response,timedOut,h⟩ <;> simp_all

theorem counted_step (hfresh : ∀ r, s.requestCount ≤ r → s.requests r = none)
    (h : s.step event = some t) (hs : ∀ r q, s.requests r = some q → q.Counted) :
    ∀ r q, t.requests r = some q → q.Counted :=
  (step_moves (hfresh _ le_rfl) h).all (fun _ hq => hq.counted) (fun _ _ hm hq => hm.counted hq) hs

end Pyhems.Runtime

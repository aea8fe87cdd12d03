import Pyhems.Runtime.Requests

/-! What each event does to the client, said once: every branch of the code that an event can
take, with the tests that lead there. -/
namespace Pyhems.Runtime
open Protocol Library

/-- A frame that answers the entry in the table under its TID. -/
def Answers (frame : Frame) (address : Address) (entry : PendingRequest) : Prop :=
  frame.esv ∉ requestEsvs ∧ frame.esv ∈ entry.responseEsvs ∧ matchesRequest frame address entry = true

inductive Effect (s : Client) : ClientEvent → Client → Prop where
  | start : Effect s .start {s with started := true}
  | stop : Effect s .stop s.stop
  | called (call : Call) (delivered : Bool) : Effect s (.call call delivered) (s.sendRequest call delivered)
  | allocated (tidCounter : Nat) : Effect s .allocate {s with tidCounter}
  /-- The request was cancelled in the queue, or its waiting was failed by `stop`. -/
  | withdrawn (r : Nat) (delivered : Bool) (q : Request) (release : Bool) (exn : Exn)
      (hq : s.requests r = some q)
      (hphase : q.phase = .queued .cancelled ∧ release = false ∨
        ∃ e, q.phase = .queued (.exception e)) :
      Effect s (.resume r delivered) (s.abandon r q release exn)
  /-- The request was cancelled after the slot was handed to it. -/
  | handedBack (r : Nat) (delivered : Bool) (q : Request) (hq : s.requests r = some q)
      (hphase : q.phase = .queued (.result ())) :
      Effect s (.resume r delivered) (s.abandon r q true .cancelledError)
  | transmitted (r : Nat) (delivered : Bool) (q : Request) (hq : s.requests r = some q)
      (hphase : q.phase = .queued (.result ())) (hcancel : q.cancelRequested = false) :
      Effect s (.resume r delivered) (s.transmit r q delivered)
  | ended (r : Nat) (delivered : Bool) (q : Request) (tid : Nat) (response : Future Frame)
      (timedOut : Bool) (outcome : Except Exn (Bool × Option Frame)) (hq : s.requests r = some q)
      (hphase : q.phase = .awaiting tid response timedOut)
      (houtcome : awaitedOutcome q.cancelRequested timedOut response = some outcome) :
      Effect s (.resume r delivered) (s.leave r q (some tid) outcome)
  | abandoned (r : Nat) (q : Request) (hq : s.requests r = some q) (hphase : q.phase = .queued .pending) :
      Effect s (.cancel r) (s.put r {q with phase := .queued .cancelled, cancelRequested := true})
  | marked (r : Nat) (q : Request) (hq : s.requests r = some q) (hqueued : q.phase ≠ .queued .pending)
      (hleft : ∀ outcome, q.phase ≠ .left outcome) :
      Effect s (.cancel r) (s.put r {q with cancelRequested := true})
  | timedOut (r : Nat) (q : Request) (tid : Nat) (response : Future Frame) (before : Bool)
      (hq : s.requests r = some q) (hphase : q.phase = .awaiting tid response before) :
      Effect s (.timeout r) (s.put r {q with phase := .awaiting tid response true})
  /-- The frame answers no entry. -/
  | ignored (frame : Frame) (address : Address)
      (hnone : ∀ entry, s.pending.lookup frame.tid = some entry → ¬ Answers frame address entry) :
      Effect s (.receive frame address) s
  | answered (frame : Frame) (address : Address) (entry : PendingRequest) (q : Request) (tid : Nat)
      (timedOut : Bool) (hentry : s.pending.lookup frame.tid = some entry)
      (hanswers : Answers frame address entry) (hq : s.requests entry.request = some q)
      (hphase : q.phase = .awaiting tid .pending timedOut) :
      Effect s (.receive frame address) ({s with pending := s.pending.erase frame.tid}.put entry.request
        {q with phase := .awaiting tid (.result frame) timedOut})
  /-- The future of the entry is done already. -/
  | dropped (frame : Frame) (address : Address) (entry : PendingRequest)
      (hentry : s.pending.lookup frame.tid = some entry) (hanswers : Answers frame address entry)
      (hdone : ∀ q tid timedOut, s.requests entry.request = some q →
        q.phase ≠ .awaiting tid .pending timedOut) :
      Effect s (.receive frame address) {s with pending := s.pending.erase frame.tid}

variable {s t : Client} {event : ClientEvent} {r : Nat} {q : Request}

theorem resume_effect {delivered : Bool} (hq : s.requests r = some q)
    (h : s.resume r q delivered = some t) : Effect s (.resume r delivered) t := by
  unfold Client.resume at h
  split at h
  · cases h
  · next hphase =>
    cases h
    exact .withdrawn r delivered q false _ hq (Or.inl ⟨hphase,rfl⟩)
  · next hphase =>
    split at h
    · cases h
      exact .handedBack r delivered q hq hphase
    · next hcancel =>
      cases h
      exact .transmitted r delivered q hq hphase (by simpa using hcancel)
  · next exn hphase =>
    split at h <;> cases h <;> exact .withdrawn r delivered q _ _ hq (Or.inr ⟨exn,hphase⟩)
  · next tid response timedOut hphase =>
    obtain ⟨outcome,houtcome,rfl⟩ := Option.map_eq_some_iff.mp h
    exact .ended r delivered q tid response timedOut outcome hq hphase houtcome
  · cases h

theorem cancel_effect (hq : s.requests r = some q) (h : s.cancel r q = some t) :
    Effect s (.cancel r) t := by
  unfold Client.cancel at h
  split at h
  · next hphase =>
    cases h
    exact .abandoned r q hq hphase
  · cases h
  · next hqueued hleft =>
    cases h
    exact .marked r q hq hqueued hleft

theorem timeout_effect (hq : s.requests r = some q) (h : s.timeout r q = some t) :
    Effect s (.timeout r) t := by
  unfold Client.timeout at h
  split at h
  · next tid response before hphase =>
    cases h
    exact .timedOut r q tid response before hq hphase
  · cases h

theorem receive_effect (s : Client) (frame : Frame) (address : Address) :
    Effect s (.receive frame address) (s.receive frame address) := by
  unfold Client.receive
  split
  · next hesv => exact .ignored frame address fun _ _ hanswers => hanswers.1 hesv
  · next hesv =>
    split
    · next entry hentry =>
      split
      · next hmatch =>
        have hanswers : Answers frame address entry := ⟨hesv,hmatch⟩
        unfold Client.setResult
        split
        · next q hq =>
          split
          · next tid timedOut hphase =>
            exact .answered frame address entry q tid timedOut hentry hanswers hq hphase
          · next hdone =>
            refine .dropped frame address entry hentry hanswers fun q' tid timedOut hq' hphase => ?_
            cases hq.symm.trans hq'
            exact hdone tid timedOut hphase
        · next hnone =>
          refine .dropped frame address entry hentry hanswers fun q' tid timedOut hq' _ => ?_
          cases hnone.symm.trans hq'
      · next hmatch =>
        refine .ignored frame address fun entry' hentry' hanswers => hmatch ?_
        cases hentry.symm.trans hentry'
        exact hanswers.2
    · next hnone =>
      refine .ignored frame address fun entry hentry => ?_
      cases hnone.symm.trans hentry

/-- Every event takes one of these branches. -/
theorem step_effect (h : s.step event = some t) : Effect s event t := by
  cases event with
  | start => cases h; exact .start
  | stop => cases h; exact .stop
  | call call delivered => cases h; exact .called call delivered
  | resume r delivered =>
    obtain ⟨q,hq,ht⟩ := Option.bind_eq_some_iff.mp h
    exact resume_effect hq ht
  | cancel r =>
    obtain ⟨q,hq,ht⟩ := Option.bind_eq_some_iff.mp h
    exact cancel_effect hq ht
  | timeout r =>
    obtain ⟨q,hq,ht⟩ := Option.bind_eq_some_iff.mp h
    exact timeout_effect hq ht
  | receive frame address => cases h; exact receive_effect s frame address
  | allocate => cases h; exact .allocated _

end Pyhems.Runtime

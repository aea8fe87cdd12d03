import Pyhems.Library.Fallible
import Pyhems.Runtime.RequestMoves

/-! The stages of a request, and the step that hands its frame to the transport. A request goes to
its next stage only when it resumes; what others do leaves it where it stands. -/
namespace Pyhems.Runtime
open Protocol Library

def Call.frame (call : Call) (tid : Nat) : Frame :=
  ⟨call.seoj,call.deoj,call.kind.esv,tid,call.properties⟩

/-- The frame with which a request that has the slot succeeds in `_send_to_address`. -/
def Client.handedOver (s : Client) (call : Call) (delivered : Bool) : Option Frame :=
  match nextTransactionId s.pending 0xFFFF s.tidCounter with
  | (.error _,_) => none
  | (.ok tid,_) =>
    match s.sendToAddress (call.frame tid) delivered with
    | .ok true => some (call.frame tid)
    | _ => none

/-- The request that an event brings as far as the transport, with its frame. -/
def Client.hands (s : Client) : ClientEvent → Option (Nat × Frame)
  | .call call delivered =>
    let (registered,queue) := s.nodeQueue call.address
    let (t,q) := registered.acquire call queue
    if q.obtained then (t.handedOver call delivered).map fun frame => (s.requestCount,frame) else none
  | .resume request delivered =>
    (s.requests request).bind fun q =>
      if q.phase = .queued (.result ()) ∧ q.cancelRequested = false then
        (s.handedOver q.call delivered).map fun frame => (request,frame)
      else none
  | _ => none

inductive RequestStage where
  | queued
  | awaiting (tid : Nat)
  | left (outcome : Except Exn (Bool × Option Frame))

def Phase.stage : Phase → RequestStage
  | .queued _ => .queued
  | .awaiting tid _ _ => .awaiting tid
  | .left outcome => .left outcome

def Client.stage (s : Client) (request : Nat) : Option (Call × RequestStage) :=
  (s.requests request).map fun q => (q.call,q.phase.stage)

/-- What `_send_request` comes to from the slot on, by the frame that it handed over. -/
def Transmitted (call : Call) (stage : RequestStage) : Option Frame → Prop
  | some frame => ∃ tid, frame = call.frame tid ∧ stage = .awaiting tid
  | none => stage = .left (.ok (false,none)) ∨
      ∃ exn, stage = .left (.error exn) ∧ ∀ text, exn ≠ .clientStoppedError text

variable {s t : Client} {event : ClientEvent} {request r : Nat} {q new : Request}

/-! ### Errors of sending -/

theorem toBytes_error {n width : Nat} {exn : Exn} (h : toBytes n width = .error exn) :
    ∀ text, exn ≠ .clientStoppedError text := by
  unfold toBytes at h
  split at h <;> cases h
  exact nofun

theorem appended_error {n : Nat} {exn : Exn} (h : appended n = .error exn) :
    ∀ text, exn ≠ .clientStoppedError text := by
  unfold appended at h
  split at h <;> cases h
  exact nofun

theorem encodeProperties_error {properties : List Property} {exn : Exn}
    (h : encodeProperties properties = .error exn) : ∀ text, exn ≠ .clientStoppedError text := by
  induction properties with
  | nil => cases h
  | cons prop rest ih =>
    rcases Fallible.bind_eq_error.mp h with hhead | ⟨_,_,h⟩
    · rcases Fallible.bind_eq_error.mp hhead with hepc | ⟨_,_,h⟩
      · exact appended_error hepc
      · rcases Fallible.bind_eq_error.mp h with hpdc | ⟨_,_,h⟩
        · exact appended_error hpdc
        · cases h
    · rcases Fallible.bind_eq_error.mp h with htail | ⟨_,_,h⟩
      · exact ih htail
      · cases h

theorem encode_error {frame : Frame} {exn : Exn} (h : frame.encode = .error exn) :
    ∀ text, exn ≠ .clientStoppedError text := by
  rcases Fallible.bind_eq_error.mp h with htid | ⟨_,_,h⟩
  · exact toBytes_error htid
  · rcases Fallible.bind_eq_error.mp h with hseoj | ⟨_,_,h⟩
    · exact toBytes_error hseoj
    · rcases Fallible.bind_eq_error.mp h with hdeoj | ⟨_,_,h⟩
      · exact toBytes_error hdeoj
      · rcases Fallible.bind_eq_error.mp h with hopc | ⟨_,_,h⟩
        · exact appended_error hopc
        · rcases Fallible.bind_eq_error.mp h with hproperties | ⟨_,_,h⟩
          · exact encodeProperties_error hproperties
          · cases h

theorem nextTransactionId_error {pending : AList fun _ : Nat => PendingRequest} {turns counter next : Nat}
    {exn : Exn} (h : nextTransactionId pending turns counter = (.error exn,next)) :
    ∃ text, exn = .runtimeError text := by
  induction turns generalizing counter with
  | zero =>
    cases h
    exact ⟨_,rfl⟩
  | succ turns ih =>
    rw [nextTransactionId] at h
    split at h
    · exact ih h
    · cases h

/-! ### Stages -/

theorem stage_congr (h : t.requests = s.requests) : t.stage = s.stage := by
  funext r
  rw [Client.stage,h]
  rfl

theorem stage_put (s : Client) (request : Nat) (new : Request) : (s.put request new).stage =
    Function.update s.stage request (some (new.call,new.phase.stage)) := by
  funext r
  by_cases hr : r = request
  · subst hr
    simp [Client.stage,Client.put]
  · simp [Client.stage,Client.put,hr]

/-- A change within the stage. -/
theorem stage_put_same (hq : s.requests request = some q) (hcall : new.call = q.call)
    (hstage : new.phase.stage = q.phase.stage) : (s.put request new).stage = s.stage := by
  have hsame : s.stage request = some (new.call,new.phase.stage) := by
    rw [Client.stage,hq,hcall,hstage]
    rfl
  rw [stage_put,← hsame,Function.update_eq_self]

theorem Released.stage (h : Released s t) : t.stage = s.stage := by
  funext r
  rcases h.requests r with he | ⟨q,hq,hphase,ht⟩
  · rw [Client.stage,he]
    rfl
  · rw [Client.stage,Client.stage,hq,ht,Option.map_some,Option.map_some,hphase]
    rfl

theorem leave_stage (s : Client) (request : Nat) (q : Request) (tid : Option Nat)
    (outcome : Except Exn (Bool × Option Frame)) : (s.leave request q tid outcome).stage =
      Function.update s.stage request (some (q.call,.left outcome)) := by
  rw [leave_eq,stage_congr (dropIdleQueue_requests ..).1,(released_release ..).stage,stage_put]
  rfl

theorem abandon_stage (s : Client) (request : Nat) (q : Request) (release : Bool) (exn : Exn) :
    (s.abandon request q release exn).stage =
      Function.update s.stage request (some (q.call,.left (.error exn))) := by
  cases release with
  | false => exact stage_put ..
  | true => exact ((released_release ..).stage).trans (stage_put ..)

theorem sendToAddress_error {frame : Frame} {delivered : Bool} {exn : Exn}
    (h : s.sendToAddress frame delivered = .error exn) : ∀ text, exn ≠ .clientStoppedError text := by
  unfold Client.sendToAddress at h
  split at h
  · cases h
  · split at h
    · next hencode =>
      cases h
      exact encode_error hencode
    · cases h

theorem transmit_stage (s : Client) (request : Nat) (q : Request) (delivered : Bool) : ∃ stage,
    (s.transmit request q delivered).stage = Function.update s.stage request (some (q.call,stage)) ∧
      Transmitted q.call stage (s.handedOver q.call delivered) := by
  unfold Client.transmit
  split
  · next exn counter hnext =>
    have hnone : s.handedOver q.call delivered = none := by rw [Client.handedOver,hnext]
    rw [hnone]
    refine ⟨_,leave_stage ..,Or.inr ⟨exn,rfl,fun text he => ?_⟩⟩
    obtain ⟨text',he'⟩ := nextTransactionId_error hnext
    cases he.symm.trans he'
  · next tid counter hnext =>
    simp only
    split
    · next exn hsend =>
      have hsend : s.sendToAddress (q.call.frame tid) delivered = .error exn := hsend
      have hnone : s.handedOver q.call delivered = none := by
        rw [Client.handedOver,hnext]
        simp only [hsend]
      rw [hnone]
      exact ⟨_,leave_stage ..,Or.inr ⟨exn,rfl,sendToAddress_error hsend⟩⟩
    · next hsend =>
      have hsend : s.sendToAddress (q.call.frame tid) delivered = .ok false := hsend
      have hnone : s.handedOver q.call delivered = none := by
        rw [Client.handedOver,hnext]
        simp only [hsend]
      rw [hnone]
      exact ⟨_,leave_stage ..,Or.inl rfl⟩
    · next hsend =>
      have hsend : s.sendToAddress (q.call.frame tid) delivered = .ok true := hsend
      have hsome : s.handedOver q.call delivered = some (q.call.frame tid) := by
        rw [Client.handedOver,hnext]
        simp only [hsend]
      rw [hsome]
      exact ⟨_,stage_put ..,tid,rfl,rfl⟩

theorem fail_stage (phase : Phase) : phase.fail.stage = phase.stage := by
  unfold Phase.fail
  split <;> rfl

theorem stop_stage (s : Client) : s.stop.stage = s.stage := by
  unfold Client.stop
  split
  · rfl
  · funext r
    simp only [Client.stage,Option.map_map]
    congr 1
    funext q
    simp only [Function.comp_apply]
    split
    · rw [fail_stage]
    · rfl

theorem acquire_stage (s : Client) (call : Call) (queue : Nat) : (s.acquire call queue).1.stage =
    Function.update s.stage s.requestCount (some (call,.queued)) := by
  obtain ⟨u,hacquire,_,_,hrequests,_⟩ := acquire_eq s call queue
  rw [hacquire,stage_put,stage_congr hrequests]
  rfl

/-- A new request, which may have gone to the transport at once. -/
theorem sendRequest_stage (s : Client) (call : Call) (delivered : Bool) : ∃ stage,
    (s.sendRequest call delivered).stage =
        Function.update s.stage s.requestCount (some (call,stage)) ∧
      (stage = .queued ∧ s.hands (.call call delivered) = none ∨ ∃ sent, Transmitted call stage sent ∧
        s.hands (.call call delivered) = sent.map fun frame => (s.requestCount,frame)) := by
  obtain ⟨u,queue,hqueue,hsend⟩ := sendRequest_eq s call delivered
  obtain ⟨_,hrequests,_,hcount⟩ := nodeQueue_frame s call.address
  rw [hqueue] at hrequests hcount
  have hacquire : (u.acquire call queue).1.stage =
      Function.update s.stage s.requestCount (some (call,.queued)) := by
    rw [acquire_stage,stage_congr hrequests,hcount]
  rw [hsend,Client.hands,hqueue]
  simp only
  split
  · obtain ⟨stage,hstage,hsent⟩ := transmit_stage (u.acquire call queue).1 s.requestCount
      (u.acquire call queue).2 delivered
    refine ⟨stage,?_,Or.inr ⟨_,hsent,rfl⟩⟩
    rw [hstage,hacquire,Function.update_idem]
    rfl
  · exact ⟨.queued,hacquire,Or.inl ⟨rfl,rfl⟩⟩

/-- What becomes of a request that resumes, and the frame that it hands to the transport. -/
inductive Resumes (s : Client) (q : Request) : RequestStage → Option Frame → Prop
  | cancelled : Resumes s q (.left (.error .cancelledError)) none
  | stopped (exn : Exn) (hphase : q.phase = .queued (.exception exn)) (hcancel : q.cancelRequested = false) :
      Resumes s q (.left (.error exn)) none
  | transmitted (stage : RequestStage) (sent : Option Frame) (hphase : q.phase.stage = .queued)
      (h : Transmitted q.call stage sent) : Resumes s q stage sent
  | ended (tid : Nat) (outcome : Except Exn (Bool × Option Frame)) (hphase : q.phase.stage = .awaiting tid)
      (h : ∀ frame, outcome ≠ .ok (false,frame)) : Resumes s q (.left outcome) none

theorem awaitedOutcome_sent {cancelRequested timedOut : Bool} {response : Future Frame}
    {outcome : Except Exn (Bool × Option Frame)}
    (h : awaitedOutcome cancelRequested timedOut response = some outcome) :
    ∀ frame, outcome ≠ .ok (false,frame) := by
  cases cancelRequested with
  | true =>
    cases h
    exact nofun
  | false =>
    cases response with
    | pending =>
      cases timedOut <;> cases h
      exact nofun
    | _ =>
      cases h
      exact nofun

/-- What a resumption makes of its request. -/
theorem resume_stage {delivered : Bool} (hq : s.requests r = some q)
    (h : s.resume r q delivered = some t) : ∃ stage sent, t.stage =
      Function.update s.stage r (some (q.call,stage)) ∧ Resumes s q stage sent ∧
      s.hands (.resume r delivered) = sent.map fun frame => (r,frame) := by
  have hhands : (q.phase = .queued (.result ()) → q.cancelRequested = true) →
      s.hands (.resume r delivered) = none := by
    intro hnot
    rw [Client.hands,hq,Option.bind_some,if_neg]
    rintro ⟨hphase,hcancel⟩
    rw [hnot hphase] at hcancel
    cases hcancel
  unfold Client.resume at h
  split at h
  · cases h
  · next hphase =>
    cases h
    exact ⟨_,none,abandon_stage ..,.cancelled,hhands fun he => by cases hphase.symm.trans he⟩
  · next hphase =>
    split at h
    · next hcancel =>
      cases h
      exact ⟨_,none,abandon_stage ..,.cancelled,hhands fun _ => hcancel⟩
    · next hcancel =>
      cases h
      obtain ⟨stage,hstage,hsent⟩ := transmit_stage s r q delivered
      refine ⟨stage,_,hstage,.transmitted stage _ (by rw [hphase]; rfl) hsent,?_⟩
      rw [Client.hands,hq,Option.bind_some,if_pos ⟨hphase,by simpa using hcancel⟩]
  · next exn hphase =>
    have hnone := hhands fun he => by cases hphase.symm.trans he
    split at h
    · cases h
      exact ⟨_,none,abandon_stage ..,.cancelled,hnone⟩
    · next hcancel =>
      cases h
      exact ⟨_,none,abandon_stage ..,.stopped exn hphase (by simpa using hcancel),hnone⟩
  · next tid response timedOut hphase =>
    obtain ⟨outcome,houtcome,rfl⟩ := Option.map_eq_some_iff.mp h
    refine ⟨_,none,leave_stage ..,.ended tid outcome (by rw [hphase]; rfl) (awaitedOutcome_sent houtcome),?_⟩
    exact hhands fun he => by cases hphase.symm.trans he
  · cases h

theorem request_of_map {sent : Option Frame} {frame : Frame}
    (h : (sent.map fun frame => (request,frame)) = some (r,frame)) : r = request := by
  obtain ⟨_,_,he⟩ := Option.map_eq_some_iff.mp h
  exact (Prod.mk.inj he).1.symm

/-- A request stays in its stage, unless it resumes itself. -/
theorem step_stage (hfresh : s.requests s.requestCount = none) (h : s.step event = some t)
    (hq : s.requests r = some q) :
    t.stage r = s.stage r ∧ (∀ frame, s.hands event ≠ some (r,frame)) ∨
    ∃ delivered, event = .resume r delivered ∧ ∃ stage sent, t.stage r = some (q.call,stage) ∧
      Resumes s q stage sent ∧ s.hands event = sent.map fun frame => (r,frame) := by
  have hstays : t.stage = s.stage → s.hands event = none →
      t.stage r = s.stage r ∧ ∀ frame, s.hands event ≠ some (r,frame) := by
    intro hstage hnone
    rw [hstage,hnone]
    exact ⟨rfl,nofun⟩
  have hresume : ∀ r' delivered, event = .resume r' delivered → t.stage r = s.stage r ∧
      (∀ frame, s.hands event ≠ some (r,frame)) ∨ ∃ delivered, event = .resume r delivered ∧
        ∃ stage sent, t.stage r = some (q.call,stage) ∧ Resumes s q stage sent ∧
          s.hands event = sent.map fun frame => (r,frame) := by
    rintro r' delivered rfl
    obtain ⟨q',hq',ht⟩ := Option.bind_eq_some_iff.mp h
    obtain ⟨stage,sent,hstage,hresumes,hhands⟩ := resume_stage hq' ht
    by_cases hr : r = r'
    · subst hr
      cases hq.symm.trans hq'
      exact Or.inr ⟨delivered,rfl,stage,sent,by rw [hstage,Function.update_self],hresumes,hhands⟩
    · refine Or.inl ⟨by rw [hstage,Function.update_of_ne hr],fun frame he => ?_⟩
      rw [hhands] at he
      exact hr (request_of_map he)
  cases step_effect h with
  | start => exact Or.inl (hstays rfl rfl)
  | stop => exact Or.inl (hstays (stop_stage s) rfl)
  | called call delivered =>
    obtain ⟨stage,hstage,hsent⟩ := sendRequest_stage s call delivered
    have hr : r ≠ s.requestCount := by
      rintro rfl
      rw [hfresh] at hq
      cases hq
    refine Or.inl ⟨by rw [hstage,Function.update_of_ne hr],fun frame he => ?_⟩
    rcases hsent with ⟨_,hnone⟩ | ⟨_,_,hhands⟩
    · cases hnone.symm.trans he
    · rw [hhands] at he
      exact hr (request_of_map he)
  | allocated => exact Or.inl (hstays rfl rfl)
  | withdrawn r' delivered | handedBack r' delivered | transmitted r' delivered | ended r' delivered =>
    exact hresume r' delivered rfl
  | abandoned r' q' hq' hphase =>
    exact Or.inl (hstays (stage_put_same hq' rfl (by rw [hphase]; rfl)) rfl)
  | marked r' q' hq' => exact Or.inl (hstays (stage_put_same hq' rfl rfl) rfl)
  | timedOut r' q' tid response before hq' hphase =>
    exact Or.inl (hstays (stage_put_same hq' rfl (by rw [hphase]; rfl)) rfl)
  | ignored => exact Or.inl (hstays rfl rfl)
  | answered frame address entry q' tid timedOut _ _ hq' hphase =>
    let u : Client := {s with pending := s.pending.erase frame.tid}
    have hu : u.requests entry.request = some q' := hq'
    exact Or.inl (hstays (stage_put_same hu rfl (by rw [hphase]; rfl)) rfl)
  | dropped => exact Or.inl (hstays rfl rfl)

/-- Only a request can be handed over. -/
theorem hands_some (hfresh : s.requests s.requestCount = none) (h : s.step event = some t) {frame : Frame}
    (hhands : s.hands event = some (r,frame)) : ∃ q, t.requests r = some q := by
  cases event with
  | call call delivered =>
    cases h
    obtain ⟨stage,hstage,⟨_,hnone⟩ | ⟨sent,_,hsent⟩⟩ := sendRequest_stage s call delivered
    · cases hnone.symm.trans hhands
    · rw [hsent] at hhands
      cases request_of_map hhands
      have hnew : (s.sendRequest call delivered).stage s.requestCount = some (call,stage) := by
        rw [hstage,Function.update_self]
      obtain ⟨q,hq,_⟩ := Option.map_eq_some_iff.mp hnew
      exact ⟨q,hq⟩
  | resume request delivered =>
    obtain ⟨q,hq,hsent⟩ := Option.bind_eq_some_iff.mp hhands
    split at hsent
    · cases request_of_map hsent
      obtain ⟨q',hq',_⟩ := (step_moves hfresh h).moved _ _ hq
      exact ⟨q',hq'⟩
    · cases hsent
  | _ => cases hhands

end Pyhems.Runtime

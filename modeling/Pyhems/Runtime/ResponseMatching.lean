import Pyhems.Runtime.TidOwnership

/-! Which frame completes which request. Every state of a run in which requests that end own
their TIDs matches responses exactly; a TID that wrapped around while a finished
request had not yet resumed shows that the condition is needed. -/
namespace Pyhems.Runtime
open Protocol Library Transition

/-- The frame answers the request: TID, source address, SEOJ, DEOJ and ESV all match. -/
def Awaiting.Matches (a : Awaiting) (frame : Frame) (address : Address) : Prop :=
  frame.tid = a.tid ∧ address = a.call.address ∧ frame.seoj = a.call.deoj ∧
    frame.deoj = a.call.seoj ∧ frame.esv ∈ a.call.kind.responseEsvs

/-- A request that returned the frame, or whose caller cancelled it. -/
def Request.Returned (q : Request) (frame : Frame) : Prop :=
  q.phase = .left (.ok (true,some frame)) ∨
    q.phase = .left (.error .cancelledError) ∧ q.cancelRequested = true

/-- The request has the frame in hand, or has returned it. -/
def Client.Has (s : Client) (r : Nat) (frame : Frame) : Prop :=
  (∃ a, s.awaiting r = some a ∧ a.response = .result frame) ∨
    ∃ q, s.requests r = some q ∧ q.Returned frame

/-- Responses are matched soundly in this state, and none is lost. -/
structure ResponseMatching (s : Client) : Prop where
  /-- Only a frame that matches completes a request. -/
  sound : ∀ event t r a b frame, s.step event = some t → s.awaiting r = some a →
    a.response = .pending → t.awaiting r = some b → b.response = .result frame →
    ∃ address, event = .receive frame address ∧ a.Matches frame address
  /-- A request that one frame completed is completed by no other. -/
  once : ∀ event t r a b frame, s.step event = some t → s.awaiting r = some a →
    a.response = .result frame → t.awaiting r = some b → b.response = .result frame
  /-- A frame that matches no request leaves the table alone. -/
  unmatched : ∀ frame address,
    (∀ r a, s.awaiting r = some a → a.response = .pending → ¬ a.Matches frame address) →
    (s.receive frame address).pending = s.pending
  /-- A frame that does not match a request leaves it and its entry alone. -/
  kept : ∀ frame address r a, s.awaiting r = some a → a.response = .pending →
    ¬ a.Matches frame address → (s.receive frame address).awaiting r = some a ∧
      (s.receive frame address).pending.lookup a.tid = s.pending.lookup a.tid
  /-- A frame that matches a request completes it. -/
  completed : ∀ frame address r a, s.awaiting r = some a → a.response = .pending →
    a.Matches frame address →
    (s.receive frame address).awaiting r = some {a with response := .result frame}
  /-- A late answer under another TID completes nothing. -/
  late : ∀ frame address r a, s.awaiting r = some a → frame.tid ≠ a.tid →
    (s.receive frame address).awaiting r = some a
  /-- A request with its frame in hand returns it when it resumes, timed out or not. -/
  resumed : ∀ r a frame delivered, s.awaiting r = some a → a.response = .result frame →
    a.cancelRequested = false → ∃ t, s.step (.resume r delivered) = some t ∧
      (t.requests r).map Request.phase = some (.left (.ok (true,some frame)))
  /-- Whatever happens before it resumes, it keeps the frame, and then returns it. -/
  returned : ∀ r frame, s.Has r frame → ∀ t, Reachable Client.step s t → t.Has r frame

variable {s t : Client} {event : ClientEvent} {r : Nat} {a b : Awaiting} {frame : Frame}
  {address : Address}

/-- An entry is answered by the frames that match its request. -/
theorem answers_iff (htid : frame.tid = a.tid) :
    Answers frame address (a.call.pendingRequest r) ↔ a.Matches frame address := by
  unfold Answers Awaiting.Matches
  rw [matchesRequest_iff]
  constructor
  · exact fun ⟨_,hesv,haddress,hseoj,hdeoj⟩ => ⟨htid,haddress,hseoj,hdeoj,hesv⟩
  · exact fun ⟨_,haddress,hseoj,hdeoj,hesv⟩ =>
      ⟨a.call.kind.not_requestEsvs _ hesv,hesv,haddress,hseoj,hdeoj⟩

/-- How one event changes a request that awaits its response. -/
theorem response_step (h : TableStep s event t) (hs : Table s) (ha : s.awaiting r = some a) :
    (∃ q outcome, awaitedOutcome a.cancelRequested a.timedOut a.response = some outcome ∧
      t.awaiting r = none ∧ t.requests r = some q ∧ q.phase = .left outcome ∧
      q.cancelRequested = a.cancelRequested) ∨
    ∃ b, t.awaiting r = some b ∧ (b.response = a.response ∨ a.response = .pending ∧
      (b.response = .exception clientStopped ∨ ∃ frame address, event = .receive frame address ∧
        a.Matches frame address ∧ b.response = .result frame)) := by
  cases h with
  | quiet _ hawaiting => exact Or.inr ⟨a,by rw [hawaiting,ha],Or.inl rfl⟩
  | sent r' tid call hr' _ _ _ _ hawaiting =>
    exact Or.inr ⟨a,by rw [hawaiting,Function.update_of_ne (ne_of_awaiting hr' ha),ha],Or.inl rfl⟩
  | ended r' delivered a' outcome _ hr' houtcome _ hawaiting hleft =>
    by_cases hr : r = r'
    · subst hr
      cases hr'.symm.trans ha
      obtain ⟨q,hq,hphase,hcancel⟩ := hleft
      exact Or.inl ⟨q,outcome,houtcome,by rw [hawaiting,Function.update_self],hq,hphase,hcancel⟩
    · exact Or.inr ⟨a,by rw [hawaiting,Function.update_of_ne hr,ha],Or.inl rfl⟩
  | marked r' a' b hr' hmark _ hawaiting =>
    by_cases hr : r = r'
    · subst hr
      cases hr'.symm.trans ha
      refine Or.inr ⟨b,by rw [hawaiting,Function.update_self],Or.inl ?_⟩
      exact (marked_same hmark).2.1
    · exact Or.inr ⟨a,by rw [hawaiting,Function.update_of_ne hr,ha],Or.inl rfl⟩
  | answered frame address entry hevent hentry hanswers _ hawaiting =>
    by_cases hr : r = entry.request
    · obtain ⟨_,a',ha',htid,hpending,hcall⟩ := hs.entered _ entry hentry
      rw [← hr] at ha' hcall
      cases ha'.symm.trans ha
      refine Or.inr ⟨a.setResult frame,?_,Or.inr ⟨hpending,Or.inr ⟨frame,address,hevent,?_,?_⟩⟩⟩
      · rw [hawaiting,← hr,Function.update_self,ha,Option.map_some]
      · exact (answers_iff htid.symm).mp (hcall ▸ hanswers)
      · rw [Awaiting.setResult,hpending]
    · exact Or.inr ⟨a,by rw [hawaiting,Function.update_of_ne hr,ha],Or.inl rfl⟩
  | stopped _ _ hawaiting =>
    refine Or.inr ⟨_,by rw [hawaiting,ha,Option.map_some],?_⟩
    split
    · unfold Awaiting.fail
      split
      · next hpending => exact Or.inr ⟨hpending,Or.inl rfl⟩
      · exact Or.inl rfl
    · exact Or.inl rfl

/-- What `receive` does, seen from the table. -/
theorem receive_cases (s : Client) (frame : Frame) (address : Address) :
    ((s.receive frame address).pending = s.pending ∧
      (s.receive frame address).awaiting = s.awaiting ∧
      ∀ entry, s.pending.lookup frame.tid = some entry → ¬ Answers frame address entry) ∨
    ∃ entry, s.pending.lookup frame.tid = some entry ∧ Answers frame address entry ∧
      (s.receive frame address).pending = s.pending.erase frame.tid ∧
      (s.receive frame address).awaiting = Function.update s.awaiting entry.request
        ((s.awaiting entry.request).map fun a => a.setResult frame) := by
  have heffect := receive_effect s frame address
  generalize s.receive frame address = t at heffect ⊢
  cases heffect with
  | ignored _ _ hnone => exact Or.inl ⟨rfl,rfl,hnone⟩
  | answered _ _ entry q tid timedOut hentry hanswers hq hphase =>
    let u : Client := {s with pending := s.pending.erase frame.tid}
    have hq : u.requests entry.request = some q := hq
    exact Or.inr ⟨entry,hentry,hanswers,rfl,answered_awaiting frame hq hphase⟩
  | dropped _ _ entry hentry hanswers hdone =>
    exact Or.inr ⟨entry,hentry,hanswers,rfl,dropped_awaiting frame hdone⟩

/-- The request that a frame completes is one that it matches. -/
theorem receive_owner (hs : Table s) {entry : PendingRequest}
    (hentry : s.pending.lookup frame.tid = some entry) (hanswers : Answers frame address entry) :
    ∃ a, s.awaiting entry.request = some a ∧ a.tid = frame.tid ∧ a.response = .pending ∧
      a.Matches frame address := by
  obtain ⟨_,a,ha,htid,hpending,hcall⟩ := hs.entered _ entry hentry
  rw [hcall] at hanswers
  exact ⟨a,ha,htid,hpending,(answers_iff htid.symm).mp hanswers⟩

/-- A frame that does not match a request does not touch it. -/
theorem receive_kept (hs : Table s) (ha : s.awaiting r = some a) (hmatch : ¬ a.Matches frame address) :
    (s.receive frame address).awaiting r = some a ∧ (a.response = .pending →
      (s.receive frame address).pending.lookup a.tid = s.pending.lookup a.tid ∨
      s.pending.lookup a.tid ≠ some (a.call.pendingRequest r)) := by
  rcases receive_cases s frame address with
    ⟨hpending,hawaiting,_⟩ | ⟨entry,hentry,hanswers,hpending,hawaiting⟩
  · exact ⟨by rw [hawaiting,ha],fun _ => Or.inl (by rw [hpending])⟩
  · obtain ⟨a',ha',htid,_,hmatches⟩ := receive_owner hs hentry hanswers
    have hr : r ≠ entry.request := by
      rintro rfl
      cases ha.symm.trans ha'
      exact hmatch hmatches
    refine ⟨by rw [hawaiting,Function.update_of_ne hr,ha],fun _ => ?_⟩
    by_cases hsame : a.tid = frame.tid
    · refine Or.inr fun hlookup => hr ?_
      rw [hsame,hentry] at hlookup
      exact (congrArg PendingRequest.request (Option.some.inj hlookup)).symm
    · exact Or.inl (by rw [hpending,AList.lookup_erase_ne hsame])

/-- A frame completes the request that it matches, as long as the table still knows it. -/
theorem receive_completed (ha : s.awaiting r = some a) (hpend : a.response = .pending)
    (htracked : s.pending.lookup a.tid = some (a.call.pendingRequest r))
    (hmatch : a.Matches frame address) :
    (s.receive frame address).awaiting r = some {a with response := .result frame} := by
  have hlookup : s.pending.lookup frame.tid = some (a.call.pendingRequest r) := by
    rw [hmatch.1,htracked]
  have hanswers : Answers frame address (a.call.pendingRequest r) := (answers_iff hmatch.1).mpr hmatch
  rcases receive_cases s frame address with ⟨_,_,hnone⟩ | ⟨entry,hentry,_,_,hawaiting⟩
  · exact absurd hanswers (hnone _ hlookup)
  · cases hlookup.symm.trans hentry
    rw [hawaiting]
    simp [Call.pendingRequest,ha,Awaiting.setResult,hpend]

/-- Once it has its frame a request keeps it, and returns it in the end. -/
theorem has_step (hs : Table s) (h : s.step event = some t) (hr : s.Has r frame) : t.Has r frame := by
  rcases hr with ⟨a,ha,hresult⟩ | ⟨q,hq,hreturned⟩
  · rcases response_step (step_table (hs.fresh _ le_rfl) h) hs ha with
      ⟨q,outcome,houtcome,_,hq,hphase,hcancel⟩ | ⟨b,hb,hsame | ⟨hpending,_⟩⟩
    · refine Or.inr ⟨q,hq,?_⟩
      rw [hresult,awaitedOutcome] at houtcome
      split at houtcome <;> cases houtcome
      · next hcancelled => exact Or.inr ⟨hphase,hcancel.trans hcancelled⟩
      · exact Or.inl hphase
    · exact Or.inl ⟨b,hb,hsame.trans hresult⟩
    · rw [hresult] at hpending
      cases hpending
  · refine Or.inr ⟨q,?_,hreturned⟩
    rcases hreturned with hphase | ⟨hphase,_⟩ <;> exact left_step hs.fresh h hq hphase

theorem has_reached (hs : Table s) (hr : s.Has r frame) (h : Reachable Client.step s t) :
    t.Has r frame :=
  h.invariant₂ (fun _ hu => hu.invariant hs fun _ _ _ hu _ ht => table_step hu ht) hr
    fun _ _ _ hu hr _ ht => has_step hu ht hr

theorem resume_result (delivered : Bool) (ha : s.awaiting r = some a)
    (hresult : a.response = .result frame) (hcancel : a.cancelRequested = false) :
    ∃ t, s.step (.resume r delivered) = some t ∧
      (t.requests r).map Request.phase = some (.left (.ok (true,some frame))) := by
  obtain ⟨q,hq,_,hqcancel,hphase⟩ := awaiting_some ha
  refine ⟨s.leave r q (some a.tid) (.ok (true,some frame)),?_,?_⟩
  · simp [Client.step,hq,Client.resume,hphase,hqcancel,hcancel,hresult,awaitedOutcome]
  · rw [(leave_table s r q _ _).2.2]
    rfl

/-- Responses are matched in every state of a run in which requests that end own their TIDs. -/
theorem response_matching (h : Reaches Client.step OwnTid {} s) : ResponseMatching s := by
  have hs := table_reached h
  have htracked := tracked_reached h fun _ _ hown => hown
  refine ⟨fun event t r a b frame ht ha hpending hb hresult => ?_,
    fun event t r a b frame ht ha hresult hb => ?_,fun frame address hnone => ?_,
    fun frame address r a ha hpending hmatch => ?_,fun frame address r a ha hpending hmatch =>
      receive_completed ha hpending (htracked r a ha hpending) hmatch,
    fun frame address r a ha htid => (receive_kept hs ha fun hmatch => htid hmatch.1).1,
    fun r a frame delivered => resume_result delivered,
    fun r frame hr t => has_reached hs hr⟩
  · rcases response_step (step_table (hs.fresh _ le_rfl) ht) hs ha with
      ⟨_,_,_,hnone,_⟩ | ⟨b',hb',hresponse⟩
    · rw [hb] at hnone
      cases hnone
    · cases hb.symm.trans hb'
      rcases hresponse with hsame | ⟨_,hstopped | ⟨frame',address,hevent,hmatch,hframe⟩⟩
      · rw [hsame,hpending] at hresult
        cases hresult
      · rw [hstopped] at hresult
        cases hresult
      · cases hframe.symm.trans hresult
        exact ⟨address,hevent,hmatch⟩
  · rcases response_step (step_table (hs.fresh _ le_rfl) ht) hs ha with
      ⟨_,_,_,hnone,_⟩ | ⟨b',hb',hsame | ⟨hpending,_⟩⟩
    · rw [hb] at hnone
      cases hnone
    · cases hb.symm.trans hb'
      exact hsame.trans hresult
    · rw [hresult] at hpending
      cases hpending
  · rcases receive_cases s frame address with ⟨hpending,_⟩ | ⟨entry,hentry,hanswers,_⟩
    · exact hpending
    · obtain ⟨a,ha,_,hpending,hmatch⟩ := receive_owner hs hentry hanswers
      exact absurd hmatch (hnone _ a ha hpending)
  · obtain ⟨hawaiting,hlookup⟩ := receive_kept hs ha hmatch
    exact ⟨hawaiting,(hlookup hpending).resolve_right fun hne => hne (htracked r a ha hpending)⟩

/-- A request whose answer has arrived, in a run that meets the condition. -/
theorem response_matching_answered : ResponseMatching answered ∧ answered.Has 0 (statusFrame 1) := by
  have hexec : exec Client.step {} [.start,.call (readStatus "192.0.2.1") true,
      .receive (statusFrame 1) "192.0.2.1"] = some answered := rfl
  exact ⟨response_matching (reaches_of_exec (by simp [OwnTid]) hexec),Or.inl ⟨_,rfl,rfl⟩⟩

/-- The request whose entry was taken never sees the frame that answers it. -/
theorem response_lost : ¬ ∀ s, Reachable Client.step {} s → ResponseMatching s := by
  intro h
  obtain ⟨s,hs,_,_,hempty,hawaiting⟩ := entry_lost
  have hcompleted := (h s hs.reachable).completed (statusFrame 1) "192.0.2.2" 1 _ hawaiting rfl
    ⟨rfl,rfl,rfl,rfl,by decide⟩
  have hnone : s.pending.lookup (statusFrame 1).tid = none := by
    rw [AList.lookup,hempty]
    rfl
  rcases receive_cases s (statusFrame 1) "192.0.2.2" with ⟨_,hsame,_⟩ | ⟨entry,hentry,_⟩
  · rw [hsame,hawaiting] at hcompleted
    cases hcompleted
  · rw [hnone] at hentry
    cases hentry

end Pyhems.Runtime

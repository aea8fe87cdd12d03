import Pyhems.Get.Turns

/-! Where every requested EPC is: still queued, or accepted from exactly one answer. The
values that the public reads return follow from the exchange alone. -/
namespace Pyhems.Get
open Protocol Library

variable {target : Target} {probe : Bool} {device : Device} {s t : GetState}

/-- The EPCs accepted so far, in order of acceptance. -/
def acceptedEpcs (log : List Exchange) : List Epc := log.flatMap Exchange.accepted

/-- The first property of an answer for an EPC. -/
def Attempt.property (attempt : Attempt) (epc : Epc) : Option Property :=
  attempt.properties.find? fun prop => prop.epc == epc

/-- The first property for an EPC in the answer that it was accepted from. -/
def acceptedProperty (log : List Exchange) (epc : Epc) : Option Property :=
  (log.find? fun x => decide (epc ∈ x.accepted)).bind fun x => x.attempt.property epc

/-- No accepted EPC is sent again. -/
def SentOnce (log : List Exchange) : Prop :=
  log.Pairwise fun x y => ∀ epc ∈ x.accepted, epc ∉ y.batch

/-- What storing `found` leaves of `old`: a property without a value is not stored. -/
def keep (found old : Option Property) : Option Property :=
  match found with
  | none => old
  | some prop => if prop.edt = [] then old else some prop

theorem Received.update_apply (received : Received) (matched : List Property)
    (hnodup : (matched.map Property.epc).Nodup) (epc : Epc) :
    received.update matched epc =
      keep (matched.find? fun prop => prop.epc == epc) (received epc) := by
  induction matched using List.reverseRecOn with
  | nil => rfl
  | append_singleton matched prop ih =>
    rw [List.map_append] at hnodup
    obtain ⟨hold,_,hdisjoint⟩ := List.nodup_append.mp hnodup
    have hstep : received.update (matched ++ [prop]) =
        if prop.edt = [] then received.update matched
        else Function.update (received.update matched) prop.epc (some prop) := by
      simp [Received.update]
    rw [hstep,List.find?_append]
    by_cases he : prop.epc = epc
    · subst he
      have hnone : matched.find? (fun p => p.epc == prop.epc) = none := by
        rw [List.find?_eq_none]
        intro p hp hsame
        exact hdisjoint p.epc (List.mem_map_of_mem hp) prop.epc (by simp) (by simpa using hsame)
      have hprev := ih hold
      rw [hnone] at hprev ⊢
      by_cases hempty : prop.edt = []
      · simpa [keep,hempty] using hprev
      · simp [keep,hempty]
    · have hskip : [prop].find? (fun p => p.epc == epc) = none := by simp [he]
      rw [hskip,Option.or_none,← ih hold]
      split
      · rfl
      · exact Function.update_of_ne (Ne.symm he) _ _

theorem find_matchResponse {batch : List Epc} {attempt : Attempt} {epc : Epc} (h : epc ∈ batch) :
    (matchResponse batch attempt).find? (fun prop => prop.epc == epc) = attempt.property epc := by
  cases attempt with
  | answered properties => exact FirstMatch.find_collect h
  | _ => rfl

theorem mem_accepted_iff {matched : List Property} {epc : Epc} :
    epc ∈ matched.map Property.epc ↔ (matched.find? fun prop => prop.epc == epc).isSome := by
  rw [List.find?_isSome]
  simp [List.mem_map]

theorem acceptedEpcs_concat (log : List Exchange) (x : Exchange) :
    acceptedEpcs (log ++ [x]) = acceptedEpcs log ++ x.accepted := by
  simp [acceptedEpcs]

theorem acceptedProperty_of_notMem {log : List Exchange} {epc : Epc} (h : epc ∉ acceptedEpcs log) :
    acceptedProperty log epc = none := by
  have hnone : log.find? (fun x => decide (epc ∈ x.accepted)) = none := by
    rw [List.find?_eq_none]
    intro x hx hmem
    exact h (List.mem_flatMap.mpr ⟨x,hx,by simpa using hmem⟩)
  simp [acceptedProperty,hnone]

theorem acceptedProperty_concat_of_notMem {log : List Exchange} {x : Exchange} {epc : Epc}
    (h : epc ∉ x.accepted) : acceptedProperty (log ++ [x]) epc = acceptedProperty log epc := by
  simp [acceptedProperty,List.find?_append,h]

theorem acceptedProperty_concat_of_mem {log : List Exchange} {x : Exchange} {epc : Epc}
    (hnew : epc ∉ acceptedEpcs log) (h : epc ∈ x.accepted) :
    acceptedProperty (log ++ [x]) epc = x.attempt.property epc := by
  have hnone : log.find? (fun x => decide (epc ∈ x.accepted)) = none := by
    rw [List.find?_eq_none]
    intro y hy hmem
    exact hnew (List.mem_flatMap.mpr ⟨y,hy,by simpa using hmem⟩)
  simp [acceptedProperty,List.find?_append,hnone,h]

/-! ### The account of a run -/

/-- An exchange accepts requested EPCs only, each with a property of its answer. -/
def Exchange.FromAnswer (x : Exchange) : Prop :=
  ∀ epc ∈ x.accepted, epc ∈ x.batch ∧ (x.attempt.property epc).isSome

/-- The account at the loop head of a run over `epcs` that began with `initial`. -/
structure Accounted (epcs : List Epc) (initial : Received) (s : GetState) : Prop where
  perm : (s.vars.queue ++ acceptedEpcs s.log).Perm (FirstMatch.fromkeys epcs)
  once : SentOnce s.log
  fromAnswer : ∀ x ∈ s.log, x.FromAnswer
  received : ∀ epc, s.vars.received epc = keep (acceptedProperty s.log epc) (initial epc)

variable {epcs batch rest : List Epc} {initial : Received} {attempt : Attempt} {next : Handled}
  {limit : Option Nat}

theorem Accounted.start (capability : GetCapability) :
    Accounted epcs initial (getBatchesStart epcs capability initial) :=
  ⟨by simp [getBatchesStart,acceptedEpcs],.nil,by simp [getBatchesStart],fun _ => rfl⟩

theorem Accounted.nodup (hs : Accounted epcs initial s) :
    (s.vars.queue ++ acceptedEpcs s.log).Nodup :=
  hs.perm.nodup_iff.mpr (FirstMatch.nodup_fromkeys epcs)

/-- A batch planned from the queue asks for nothing that was accepted before. -/
theorem Accounted.sentOnce (hs : Accounted epcs initial s)
    (hplan : (batch ++ rest).Perm s.vars.queue) (x : Exchange) (hx : x.batch = batch) :
    SentOnce (s.log ++ [x]) := by
  refine List.pairwise_append.mpr ⟨hs.once,List.pairwise_singleton _ _,?_⟩
  intro y hy z hz epc haccepted hsent
  rw [List.mem_singleton.mp hz,hx] at hsent
  have hqueue : epc ∈ s.vars.queue := hplan.subset (List.mem_append_left _ hsent)
  exact (List.nodup_append.mp hs.nodup).2.2 epc hqueue epc
    (List.mem_flatMap.mpr ⟨y,hy,haccepted⟩) rfl

/-- What any further turn has to show. -/
theorem Accounted.turn (hs : Accounted epcs initial s) (hplan : (batch ++ rest).Perm s.vars.queue)
    (hperm : (next.vars.queue ++ next.accepted).Perm (batch ++ rest))
    (hanswer : ∀ epc ∈ next.accepted, epc ∈ batch ∧ (attempt.property epc).isSome)
    (hstored : ∀ epc, next.vars.received epc =
      if epc ∈ next.accepted then keep (attempt.property epc) (s.vars.received epc)
      else s.vars.received epc) :
    Accounted epcs initial
      ⟨next.capability,next.vars,s.log ++ [⟨batch,attempt,next.accepted,next.retried⟩]⟩ := by
  refine ⟨?_,hs.sentOnce hplan _ rfl,?_,?_⟩
  · rw [acceptedEpcs_concat]
    refine .trans (List.perm_append_comm.append_left _) ?_
    rw [← List.append_assoc]
    exact ((hperm.trans hplan).append_right _).trans hs.perm
  · intro x hx
    rcases List.mem_append.mp hx with hx | hx
    · exact hs.fromAnswer x hx
    · rw [List.mem_singleton.mp hx]
      exact hanswer
  · intro epc
    rw [hstored epc]
    by_cases hacc : epc ∈ next.accepted
    · have hqueue : epc ∈ s.vars.queue := (hperm.trans hplan).subset (List.mem_append_right _ hacc)
      have hnew : epc ∉ acceptedEpcs s.log := fun h =>
        (List.nodup_append.mp hs.nodup).2.2 epc hqueue epc h rfl
      rw [if_pos hacc,acceptedProperty_concat_of_mem hnew hacc,hs.received epc,
        acceptedProperty_of_notMem hnew]
      rfl
    · rw [if_neg hacc,acceptedProperty_concat_of_notMem hacc]
      exact hs.received epc

theorem Retried.accounted (hs : Accounted epcs initial s)
    (hplan : (batch ++ rest).Perm s.vars.queue)
    (h : Retried probe limit batch rest s.capability s.vars attempt next) :
    Accounted epcs initial
      ⟨next.capability,next.vars,s.log ++ [⟨batch,attempt,next.accepted,next.retried⟩]⟩ := by
  have haccepted : next.accepted = [] := by rw [h.next_eq]; rfl
  have hreceived : next.vars.received = s.vars.received := by rw [h.next_eq]; rfl
  exact hs.turn hplan h.perm (by simp [haccepted]) (by simp [haccepted,hreceived])

theorem Accepted.accounted (hs : Accounted epcs initial s)
    (hplan : (batch ++ rest).Perm s.vars.queue)
    (h : Accepted probe limit batch rest s.capability s.vars attempt next) :
    Accounted epcs initial
      ⟨next.capability,next.vars,s.log ++ [⟨batch,attempt,next.accepted,next.retried⟩]⟩ := by
  have hqueue : (batch ++ rest).Nodup :=
    hplan.nodup_iff.mpr (List.nodup_append.mp hs.nodup).1
  have hfound : ∀ epc, epc ∈ next.accepted ↔
      ((matchResponse batch attempt).find? fun prop => prop.epc == epc).isSome := by
    intro epc
    rw [h.accepted_eq]
    exact mem_accepted_iff
  refine hs.turn hplan (h.perm (List.nodup_append.mp hqueue).1) ?_ ?_
  · intro epc hepc
    exact ⟨h.subset hepc,find_matchResponse (h.subset hepc) ▸ (hfound epc).mp hepc⟩
  · intro epc
    rw [h.received_eq,Received.update_apply _ _ (nodup_matchResponse batch attempt)]
    by_cases hepc : epc ∈ next.accepted
    · rw [if_pos hepc,find_matchResponse (h.subset hepc)]
    · rw [if_neg hepc,Option.not_isSome_iff_eq_none.mp (mt (hfound epc).mpr hepc)]
      rfl

theorem Accounted.again (hs : Accounted epcs initial s)
    (h : getBatchesBody target probe device s = .again t) : Accounted epcs initial t := by
  obtain ⟨batch,rest,next,_,hplan,hcase,rfl⟩ := getBatchesBody_again h
  rcases hcase with hcase | hcase
  · exact hcase.accounted hs hplan.perm
  · exact hcase.accounted hs hplan.perm

/-- The account holds whenever the loop head is reached. -/
theorem accounted_of_heads {capability : GetCapability}
    (h : Loop.Heads (getBatchesBody target probe device)
      (getBatchesStart epcs capability initial) s) : Accounted epcs initial s :=
  h.invariant (fun _ _ hs ht => hs.again ht) (.start capability)

/-! ### The account of a finished run -/

/-- The account a run leaves behind. -/
structure GetRun.Settled (epcs : List Epc) (initial : Received) (run : GetRun) : Prop where
  once : SentOnce run.log
  fromAnswer : ∀ x ∈ run.log, x.FromAnswer
  accepted : (acceptedEpcs run.log).Nodup ∧ acceptedEpcs run.log ⊆ epcs
  complete : run.outcome = .ok () → epcs ⊆ acceptedEpcs run.log
  received : ∀ epc, run.received epc = keep (acceptedProperty run.log epc) (initial epc)

theorem Accounted.leave {run : GetRun} (hs : Accounted epcs initial s)
    (h : getBatchesBody target probe device s = .leave run) : run.Settled epcs initial := by
  have hnodup := (List.nodup_append.mp hs.nodup).2.1
  have hsub : acceptedEpcs s.log ⊆ epcs := fun _ h =>
    FirstMatch.mem_fromkeys.mp (hs.perm.subset (List.mem_append_right _ h))
  obtain ⟨_,hreceived,hcase⟩ := getBatchesBody_leave h
  rcases hcase with ⟨hnil,_,hlog⟩ | ⟨_,⟨exn,hout⟩,hlog⟩ | ⟨batch,rest,exn,_,hplan,_,hout,hlog⟩
  · refine ⟨hlog ▸ hs.once,hlog ▸ hs.fromAnswer,hlog ▸ ⟨hnodup,hsub⟩,fun _ epc hepc => ?_,
      by rw [hreceived,hlog]; exact hs.received⟩
    have hmem := hs.perm.symm.subset (FirstMatch.mem_fromkeys.mpr hepc)
    rwa [hnil,List.nil_append,← hlog] at hmem
  · refine ⟨hlog ▸ hs.once,hlog ▸ hs.fromAnswer,hlog ▸ ⟨hnodup,hsub⟩,fun hok => ?_,
      by rw [hreceived,hlog]; exact hs.received⟩
    rw [hout] at hok
    cases hok
  · have haccepted : acceptedEpcs run.log = acceptedEpcs s.log := by
      rw [hlog,acceptedEpcs_concat,List.append_nil]
    refine ⟨hlog ▸ hs.sentOnce hplan.perm _ rfl,?_,haccepted ▸ ⟨hnodup,hsub⟩,fun hok => ?_,
      fun epc => ?_⟩
    · intro x hx
      rw [hlog] at hx
      rcases List.mem_append.mp hx with hx | hx
      · exact hs.fromAnswer x hx
      · rw [List.mem_singleton.mp hx]
        simp [Exchange.FromAnswer]
    · rw [hout] at hok
      cases hok
    · rw [hreceived,hs.received,hlog,acceptedProperty_concat_of_notMem (by simp)]

theorem runGetBatches_settled {capability : GetCapability} {run : GetRun}
    (h : runGetBatches target probe device epcs capability initial = some run) :
    run.Settled epcs initial := by
  obtain ⟨s,hs,hleave⟩ := Loop.heads_of_run h
  exact (accounted_of_heads hs).leave hleave

/-- Accepted without repetition means accepted by exactly one exchange. -/
theorem length_filter_accepted {log : List Exchange} (hnodup : (acceptedEpcs log).Nodup)
    {epc : Epc} (h : epc ∈ acceptedEpcs log) :
    (log.filter fun x => decide (epc ∈ x.accepted)).length = 1 := by
  induction log using List.reverseRecOn with
  | nil => cases h
  | append_singleton log x ih =>
    rw [acceptedEpcs_concat] at hnodup h
    obtain ⟨hold,_,hdisjoint⟩ := List.nodup_append.mp hnodup
    rw [List.filter_append,List.length_append]
    rcases List.mem_append.mp h with h | h
    · have hnew : epc ∉ x.accepted := fun hx => hdisjoint epc h epc hx rfl
      rw [ih hold h]
      simp [hnew]
    · have hnone : (log.filter fun x => decide (epc ∈ x.accepted)) = [] := by
        rw [List.filter_eq_nil_iff]
        intro y hy hmem
        exact hdisjoint epc (List.mem_flatMap.mpr ⟨y,hy,by simpa using hmem⟩) epc h rfl
      rw [hnone]
      simp [h]

end Pyhems.Get

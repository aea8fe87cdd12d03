import Pyhems.Get.Accounting
import Pyhems.Get.RequestBound
import Pyhems.Get.Unrequested

/-! What the public reads return. Every value comes from the answer its EPC was accepted
from, and properties that were not requested leave no trace. -/
namespace Pyhems.Get
open Protocol Library

variable {target : Target} {probe : Bool} {device : Device} {epcs : List Epc}
  {capability : GetCapability}

/-- The value that a read reports for an EPC: that of the separately read 0x8A, else that
of the property it was accepted with, else nothing. -/
def ReadRun.edt (run : ReadRun) (epc : Epc) : Bytes :=
  ((if epc = manufacturerCodeEpc then run.manufacturer else none).or
    (acceptedProperty run.log epc)).elim [] Property.edt

/-! ### From the account to the result -/

theorem epc_of_acceptedProperty {log : List Exchange} {epc : Epc} {prop : Property}
    (h : acceptedProperty log epc = some prop) : prop.epc = epc := by
  obtain ⟨x,_,hx⟩ := Option.bind_eq_some_iff.mp h
  simpa using List.find?_some hx

theorem epc_of_manufacturerProperty {attempt : Attempt} {prop : Property}
    (h : attempt.manufacturerProperty = some prop) : prop.epc = manufacturerCodeEpc := by
  have hprop := List.find?_some h
  simp only [Bool.and_eq_true,beq_iff_eq] at hprop
  exact hprop.1

/-- What the dictionary reports for an EPC that is read once. -/
theorem getD_keep {found old : Option Property} {epc : Epc}
    (hfound : ∀ prop, found = some prop → prop.epc = epc)
    (hold : ∀ prop, old = some prop → prop.epc = epc) (honce : found.isSome → old = none) :
    (keep found old).getD ⟨epc,[]⟩ = ⟨epc,(old.or found).elim [] Property.edt⟩ := by
  cases found with
  | none =>
    cases old with
    | none => rfl
    | some prop => simp [keep,← hold prop rfl]
  | some prop =>
    cases honce rfl
    by_cases hempty : prop.edt = []
    · simp [keep,hempty]
    · simp [keep,hempty,← hfound prop rfl]

theorem mem_unread (epcs : List Epc) {received : Received} {epc : Epc} (h : epc ∈ unread epcs received) :
    received epc = none := by
  simpa [unread] using (List.mem_filter.mp h).2

theorem single_apply {manufacturer : Option Property}
    (hepc : ∀ m, manufacturer = some m → m.epc = manufacturerCodeEpc) (epc : Epc) :
    Received.single manufacturer epc = if epc = manufacturerCodeEpc then manufacturer else none := by
  cases manufacturer with
  | none => simp [Received.single]
  | some m =>
    have hm := hepc m rfl
    simp only [Received.single,Option.bind_some,hm]
    exact if_congr eq_comm rfl rfl

/-- The result assembled from the dictionary that a run of batches left behind. -/
theorem collectResult_eq (read : ReadRun) {run : GetRun} {initial : Received} {requested : List Epc}
    (hrun : run.Settled (unread requested initial) initial) (hlog : read.log = run.log)
    (hepc : ∀ m, read.manufacturer = some m → m.epc = manufacturerCodeEpc)
    (hinitial : ∀ epc ∈ requested,
      initial epc = if epc = manufacturerCodeEpc then read.manufacturer else none) :
    collectResult requested run.received = requested.map fun epc => ⟨epc,read.edt epc⟩ := by
  apply List.map_congr_left
  intro epc hrequested
  have honce : (acceptedProperty run.log epc).isSome → initial epc = none := by
    intro hsome
    apply mem_unread requested
    apply hrun.accepted.2
    by_contra hnot
    rw [acceptedProperty_of_notMem hnot] at hsome
    cases hsome
  have hold : ∀ prop, initial epc = some prop → prop.epc = epc := by
    intro prop hprop
    rw [hinitial epc hrequested] at hprop
    split at hprop
    · next he => rw [hepc prop hprop,he]
    · cases hprop
  rw [hrun.received epc,getD_keep (fun _ => epc_of_acceptedProperty) hold honce,
    hinitial epc hrequested,ReadRun.edt,hlog]

/-- The results that the account allows: one value per requested EPC, in order. -/
def ReadRun.Reports (epcs : List Epc) (read : ReadRun) : Prop :=
  read.result = .ok (epcs.map fun epc => ⟨epc,read.edt epc⟩)

theorem finishSetup_reports {manufacturer : Option Property} {read : ReadRun}
    (hepc : ∀ m, manufacturer = some m → m.epc = manufacturerCodeEpc)
    (h : finishSetup target device epcs capability manufacturer = some read) :
    read.Reports epcs ∨ ∃ exn, read.result = .error exn := by
  obtain ⟨run,hrun,rfl⟩ := Option.map_eq_some_iff.mp h
  have hcollect := collectResult_eq
    ⟨run.outcome.map fun _ => collectResult epcs run.received,run.capability,manufacturer,run.log⟩
    (runGetBatches_settled hrun) rfl hepc (fun epc _ => single_apply hepc epc)
  unfold ReadRun.Reports
  rw [← hcollect]
  cases run.outcome with
  | ok done => exact Or.inl rfl
  | error exn => exact Or.inr ⟨exn,rfl⟩

theorem finishGet_reports {manufacturer : Option Property} {received : Received} {read : ReadRun}
    (hepc : ∀ m, manufacturer = some m → m.epc = manufacturerCodeEpc)
    (hreceived : ∀ epc ∈ epcs,
      received epc = if epc = manufacturerCodeEpc then manufacturer else none)
    (h : finishGet target device epcs capability manufacturer received = some read) :
    read.Reports epcs ∨ ∃ exn, read.result = .error exn ∧ caughtByGet exn = false := by
  obtain ⟨run,hrun,rfl⟩ := Option.map_eq_some_iff.mp h
  have hcollect := collectResult_eq
    ⟨getResult epcs run.received run.outcome,run.capability,manufacturer,run.log⟩
    (runGetBatches_settled hrun) rfl hepc hreceived
  unfold ReadRun.Reports
  rw [← hcollect]
  cases run.outcome with
  | ok done => exact Or.inl rfl
  | error exn =>
    cases hcaught : caughtByGet exn
    · exact Or.inr ⟨exn,by simp [getResult,hcaught],hcaught⟩
    · exact Or.inl (by simp [getResult,hcaught])

theorem finishSetup_total (target : Target) (capability : GetCapability)
    (manufacturer : Option Property) :
    ∃ read, finishSetup target device epcs capability manufacturer = some read := by
  obtain ⟨run,hrun⟩ := runGetBatches_total target true device (unread epcs (.single manufacturer))
    capability (.single manufacturer)
  exact ⟨_,by rw [finishSetup,hrun]; rfl⟩

theorem finishGet_total (target : Target) (capability : GetCapability)
    (manufacturer : Option Property) (received : Received) :
    ∃ read, finishGet target device epcs capability manufacturer received = some read := by
  obtain ⟨run,hrun⟩ := runGetBatches_total target false device (unread epcs received) capability
    received
  exact ⟨_,by rw [finishGet,hrun]; rfl⟩

/-! ### The public reads -/

theorem collectResult_empty (read : ReadRun) (hmanufacturer : read.manufacturer = none)
    (hlog : read.log = []) : (epcs.map fun epc => (⟨epc,[]⟩ : Property)) =
      epcs.map fun epc => ⟨epc,read.edt epc⟩ := by
  apply List.map_congr_left
  intro epc _
  simp [ReadRun.edt,hmanufacturer,hlog,acceptedProperty]

/-- The separately read property, as a read returns it, is the one in the answer. -/
theorem readManufacturerCode_some {attempt : Attempt} {manufacturer : Property}
    {after : GetCapability}
    (h : readManufacturerCode attempt capability = .ok (some manufacturer,after)) :
    attempt.manufacturerProperty = some manufacturer := by
  unfold readManufacturerCode at h
  split at h
  · cases h
  · split at h
    · cases h
    · next m hm =>
      cases h
      exact hm

theorem setupGet_reports {nodeId : String} {address : Option String} {started : Bool} {deoj : EOJ}
    {read : ReadRun}
    (h : setupGet nodeId address started deoj device epcs capability = some read) :
    read.Reports epcs ∨ ∃ exn, read.result = .error exn := by
  unfold setupGet at h
  split at h
  · cases h
    exact Or.inr ⟨_,rfl⟩
  · split at h
    · cases h
      exact Or.inr ⟨_,rfl⟩
    · split at h
      · exact finishSetup_reports (by simp) h
      · simp only at h
        split at h
        · cases h
          exact Or.inr ⟨_,rfl⟩
        · cases h
          exact Or.inr ⟨_,rfl⟩
        · next manufacturer _ hread =>
          refine finishSetup_reports (fun m hm => ?_) h
          cases hm
          exact epc_of_manufacturerProperty (readManufacturerCode_some hread)

theorem get_reports {address : Option String} {started : Bool} {deoj : EOJ} {read : ReadRun}
    (h : get address started deoj device epcs capability = some read) :
    read.Reports epcs ∨ ∃ exn, read.result = .error exn ∧ caughtByGet exn = false := by
  unfold get at h
  split at h
  · cases h
    exact Or.inl (congrArg Except.ok (collectResult_empty _ rfl rfl))
  · split at h
    · cases h
      exact Or.inl (congrArg Except.ok (collectResult_empty _ rfl rfl))
    · split at h
      · simp only at h
        split at h
        · next exn _ =>
          cases h
          cases hcaught : caughtByGet exn
          · exact Or.inr ⟨exn,by simp [getResult,hcaught],hcaught⟩
          · refine Or.inl ?_
            rw [ReadRun.Reports,← collectResult_empty _ rfl rfl]
            simp [getResult,hcaught,collectResult,Received.single]
        · cases h
          exact Or.inl (congrArg Except.ok (collectResult_empty _ rfl rfl))
        · next manufacturer _ hread =>
          have hepc := epc_of_manufacturerProperty (readManufacturerCode_some hread)
          refine finishGet_reports (fun m hm => by cases hm; exact hepc) (fun epc hrequested => ?_) h
          rw [single_apply (fun m hm => ?_)]
          · split
            · next he => rw [if_pos (he ▸ hrequested)]
            · rfl
          · split at hm
            · cases hm
              exact hepc
            · cases hm
      · exact finishGet_reports (by simp) (fun epc _ => by simp [Received.single]) h

/-- Every read returns: the loops behind it end for every device. -/
theorem setupGet_total (device : Device) (epcs : List Epc) (capability : GetCapability)
    (nodeId : String) (address : Option String) (started : Bool) (deoj : EOJ) :
    ∃ read, setupGet nodeId address started deoj device epcs capability = some read := by
  unfold setupGet
  split
  · exact ⟨_,rfl⟩
  · split
    · exact ⟨_,rfl⟩
    · split
      · exact finishSetup_total _ _ _
      · simp only
        split
        · exact ⟨_,rfl⟩
        · exact ⟨_,rfl⟩
        · exact finishSetup_total _ _ _

theorem get_total (device : Device) (epcs : List Epc) (capability : GetCapability)
    (address : Option String) (started : Bool) (deoj : EOJ) :
    ∃ read, get address started deoj device epcs capability = some read := by
  unfold get
  split
  · exact ⟨_,rfl⟩
  · split
    · exact ⟨_,rfl⟩
    · split
      · simp only
        split
        · exact ⟨_,rfl⟩
        · exact ⟨_,rfl⟩
        · exact finishGet_total _ _ _ _
      · exact finishGet_total _ _ _ _

/-- The 0x8A of the standalone read that a call sends when `asked` holds. -/
def standalone (device : Device) (asked : Bool) : Option Property :=
  if asked then (device [] [manufacturerCodeEpc]).manufacturerProperty else none

theorem readManufacturerCode_none {attempt : Attempt} {after : GetCapability}
    (h : readManufacturerCode attempt capability = .ok (none,after)) :
    attempt.manufacturerProperty = none := by
  unfold readManufacturerCode at h
  split at h
  · cases h
  · split at h
    · next hm => exact hm
    · cases h

theorem readManufacturerCode_error {attempt : Attempt} {exn : Exn}
    (h : readManufacturerCode attempt capability = .error exn) :
    attempt.manufacturerProperty = none := by
  unfold readManufacturerCode at h
  split at h
  · rfl
  · split at h <;> cases h

theorem finishSetup_manufacturer {manufacturer : Option Property} {read : ReadRun}
    (h : finishSetup target device epcs capability manufacturer = some read) :
    read.manufacturer = manufacturer := by
  obtain ⟨run,_,rfl⟩ := Option.map_eq_some_iff.mp h
  rfl

theorem finishGet_manufacturer {manufacturer : Option Property} {received : Received} {read : ReadRun}
    (h : finishGet target device epcs capability manufacturer received = some read) :
    read.manufacturer = manufacturer := by
  obtain ⟨run,_,rfl⟩ := Option.map_eq_some_iff.mp h
  rfl

theorem setupGet_manufacturer {nodeId : String} {address : Option String} {started : Bool}
    {deoj : EOJ} {read : ReadRun}
    (h : setupGet nodeId address started deoj device epcs capability = some read) :
    read.manufacturer =
      standalone device (address.isSome && started && capability.manufacturerCode.isNone) := by
  unfold setupGet at h
  cases address with
  | none => cases h; rfl
  | some address =>
    cases started with
    | false => cases h; rfl
    | true =>
      cases hcode : capability.manufacturerCode with
      | some code =>
        rw [hcode] at h
        exact finishSetup_manufacturer h
      | none =>
        simp only [hcode,Bool.not_true,Bool.false_eq_true,if_false] at h
        split at h
        · next hread => cases h; exact (readManufacturerCode_error hread).symm
        · next hread => cases h; exact (readManufacturerCode_none hread).symm
        · next hread =>
          exact (finishSetup_manufacturer h).trans (readManufacturerCode_some hread).symm

theorem get_manufacturer {address : Option String} {started : Bool} {deoj : EOJ} {read : ReadRun}
    (h : get address started deoj device epcs capability = some read) :
    read.manufacturer =
      standalone device (address.isSome && started && decide (epcs ≠ []) &&
        capability.manufacturerCode.isNone && hasGetBatchPolicyForClass deoj.classCode) := by
  unfold get at h
  cases address with
  | none => cases h; rfl
  | some address =>
    by_cases hearly : (!started || decide (epcs = [])) = true
    · simp only [hearly,if_true] at h
      cases h
      have hskip : (started && decide (epcs ≠ [])) = false := by
        cases started
        · rfl
        · simpa using hearly
      simp only [Option.isSome_some,Bool.true_and,hskip,Bool.false_and]
      rfl
    · obtain ⟨rfl,hne⟩ : started = true ∧ epcs ≠ [] := by simpa using hearly
      have hasked : (decide (epcs ≠ [])) = true := by simpa using hne
      simp only [hearly,Bool.false_eq_true,if_false] at h
      simp only [Option.isSome_some,Bool.true_and,hasked]
      split at h
      · next hask =>
        rw [hask]
        split at h
        · next hread => cases h; exact (readManufacturerCode_error hread).symm
        · next hread => cases h; exact (readManufacturerCode_none hread).symm
        · next hread =>
          exact (finishGet_manufacturer h).trans (readManufacturerCode_some hread).symm
      · next hask =>
        rw [Bool.not_eq_true] at hask
        rw [hask]
        exact finishGet_manufacturer h

/-- No EPC is lost, invented or read again. At every loop head the queue and the accepted
EPCs split the requested ones, a run that ends normally accepted each from one answer, and
the public reads report exactly the accepted values, whatever else the answers carry. -/
theorem accounting (target : Target) (probe : Bool) (device : Device) (epcs : List Epc)
    (capability : GetCapability) (received : Received) :
    (∀ s, Loop.Heads (getBatchesBody target probe device)
        (getBatchesStart epcs capability received) s →
      (s.vars.queue ++ acceptedEpcs s.log).Nodup ∧
      (∀ epc, epc ∈ s.vars.queue ++ acceptedEpcs s.log ↔ epc ∈ epcs) ∧
      SentOnce s.log ∧ ∀ x ∈ s.log, x.FromAnswer) ∧
    (∃ run, runGetBatches target probe device epcs capability received = some run ∧
      SentOnce run.log ∧ (run.outcome = .ok () →
        ∀ epc ∈ epcs, (run.log.filter fun x => decide (epc ∈ x.accepted)).length = 1)) ∧
    (∀ nodeId address started deoj,
      ∃ read, setupGet nodeId address started deoj device epcs capability = some read ∧
        read.manufacturer = standalone device
          (address.isSome && started && capability.manufacturerCode.isNone) ∧
        (read.Reports epcs ∨ ∃ exn, read.result = .error exn)) ∧
    (∀ address started deoj, ∃ read, get address started deoj device epcs capability = some read ∧
      read.manufacturer = standalone device (address.isSome && started && decide (epcs ≠ []) &&
        capability.manufacturerCode.isNone && hasGetBatchPolicyForClass deoj.classCode) ∧
      (read.Reports epcs ∨ ∃ exn, read.result = .error exn ∧ caughtByGet exn = false)) ∧
    ∀ (answers : Answers) nodeId address started deoj,
      (setupGet nodeId address started deoj (.ofAnswers answers.requested) epcs capability).map
          ReadRun.result =
        (setupGet nodeId address started deoj (.ofAnswers answers) epcs capability).map
          ReadRun.result ∧
      (get address started deoj (.ofAnswers answers.requested) epcs capability).map ReadRun.result =
        (get address started deoj (.ofAnswers answers) epcs capability).map ReadRun.result := by
  refine ⟨fun s hs => ?_,?_,fun nodeId address started deoj => ?_,fun address started deoj => ?_,
    fun answers nodeId address started deoj => ⟨?_,?_⟩⟩
  · have hs := accounted_of_heads hs
    exact ⟨hs.nodup,fun epc => hs.perm.mem_iff.trans FirstMatch.mem_fromkeys,hs.once,hs.fromAnswer⟩
  · obtain ⟨run,hrun⟩ := runGetBatches_total target probe device epcs capability received
    have hsettled := runGetBatches_settled hrun
    exact ⟨run,hrun,hsettled.once,fun hok epc hepc =>
      length_filter_accepted hsettled.accepted.1 (hsettled.complete hok hepc)⟩
  · obtain ⟨read,hread⟩ := setupGet_total device epcs capability nodeId address started deoj
    exact ⟨read,hread,setupGet_manufacturer hread,setupGet_reports hread⟩
  · obtain ⟨read,hread⟩ := get_total device epcs capability address started deoj
    exact ⟨read,hread,get_manufacturer hread,get_reports hread⟩
  · rw [setupGet_requested,Option.map_map]
    rfl
  · rw [get_requested,Option.map_map]
    rfl

end Pyhems.Get

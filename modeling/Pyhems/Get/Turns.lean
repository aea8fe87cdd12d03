import Pyhems.Get.Batches

/-! What one turn of the batch loop can do, said once: a batch is put back and halved, or
its answer is accepted, or the run ends. Every result about runs starts here. -/
namespace Pyhems.Get
open Protocol Library

variable {target : Target} {probe : Bool} {limit : Option Nat} {batch rest : List Epc}
  {capability : GetCapability} {vars : Vars} {attempt : Attempt} {next : Handled}

/-! ### The dictionary of one response -/

theorem nodup_matchResponse (batch : List Epc) (attempt : Attempt) :
    ((matchResponse batch attempt).map Property.epc).Nodup := by
  cases attempt with
  | answered properties => exact FirstMatch.nodup_keys_collect
  | _ => simp [matchResponse]

theorem mem_matchResponse {epc : Epc} (h : epc ∈ (matchResponse batch attempt).map Property.epc) :
    epc ∈ batch := by
  cases attempt with
  | answered properties => exact (FirstMatch.mem_keys_collect.mp h).1
  | _ => simp [matchResponse] at h

theorem length_matchResponse_le : (matchResponse batch attempt).length ≤ batch.length := by
  have h := (nodup_matchResponse batch attempt).subperm
    (fun _ => mem_matchResponse) |>.length_le
  rwa [List.length_map] at h

/-- A response that processed as many EPCs as were requested processed all of them. -/
theorem mem_matchResponse_of_full (hfull : ¬ (matchResponse batch attempt).length < batch.length)
    {epc : Epc} (h : epc ∈ batch) : epc ∈ (matchResponse batch attempt).map Property.epc := by
  have hsub := (nodup_matchResponse batch attempt).subperm
    (fun _ => mem_matchResponse)
  have hperm := hsub.perm_of_length_le (by rw [List.length_map]; omega)
  exact hperm.symm.subset h

/-! ### The exits of a turn -/

/-- The batch was put back to be requested in halves. -/
structure Retried (probe : Bool) (limit : Option Nat) (batch rest : List Epc)
    (capability : GetCapability) (vars : Vars) (attempt : Attempt) (next : Handled) : Prop where
  probing : probe = true
  size : batch.length ≠ 1
  next_eq : next = retryInHalves capability vars batch rest
  why : matchResponse batch attempt = [] ∨
    limit = none ∧ 1 < batch.length ∧ (matchResponse batch attempt).length = batch.length ∧
      ∀ prop ∈ matchResponse batch attempt, prop.edt = []

/-- The answer was accepted. `fixes` tells whether it fixed the limit and ended probing. -/
structure Accepted (probe : Bool) (limit : Option Nat) (batch rest : List Epc)
    (capability : GetCapability) (vars : Vars) (attempt : Attempt) (next : Handled) : Prop where
  matched : matchResponse batch attempt ≠ []
  accepted_eq : next.accepted = (matchResponse batch attempt).map Property.epc
  retried_eq : next.retried = false
  valued : probe = true → limit = none → 1 < batch.length → next.accepted.length = batch.length →
    ∃ prop ∈ matchResponse batch attempt, prop.edt ≠ []
  queue_eq : next.vars.queue = batch.filter (fun epc => decide (epc ∉ next.accepted)) ++ rest
  received_eq : next.vars.received = vars.received.update (matchResponse batch attempt)
  limit_eq : ∃ fixes : Bool,
    (fixes = true ↔ probe = true ∧ (next.accepted.length < batch.length ∨ vars.probeSize ≠ none ∨
      limit = none ∧ 1 < batch.length)) ∧
    next.capability =
      (if fixes then fixBatchCapacity capability next.accepted.length else capability) ∧
    next.vars.probeSize = if fixes then none else vars.probeSize

/-- Why a turn gives the run up. -/
theorem handleAttempt_error {exn : Exn}
    (h : handleAttempt target probe limit batch rest capability vars attempt = .error exn) :
    attempt = .raised exn ∨ (∃ text, exn = .getAbortedError text) ∧
      (attempt = .notSent ∨ matchResponse batch attempt = [] ∧ (probe = false ∨ batch.length = 1)) := by
  unfold handleAttempt at h
  split at h
  · cases h
    exact Or.inl rfl
  · cases h
    exact Or.inr ⟨⟨_,rfl⟩,Or.inl rfl⟩
  · simp only at h
    split_ifs at h with hm hn
    cases h
    refine Or.inr ⟨⟨_,rfl⟩,Or.inr ⟨hm,?_⟩⟩
    simpa using hn

theorem handleAttempt_ok
    (h : handleAttempt target probe limit batch rest capability vars attempt = .ok next) :
    Retried probe limit batch rest capability vars attempt next ∨
      Accepted probe limit batch rest capability vars attempt next := by
  unfold handleAttempt at h
  split at h
  · cases h
  · cases h
  · simp only at h
    by_cases hm : matchResponse batch attempt = []
    · rw [if_pos hm] at h
      split_ifs at h with hn
      cases h
      obtain ⟨hprobe,hsize⟩ : probe = true ∧ batch.length ≠ 1 := by simpa using hn
      exact Or.inl ⟨hprobe,hsize,rfl,Or.inl hm⟩
    rw [if_neg hm] at h
    by_cases hpart : (matchResponse batch attempt).length < batch.length
    · rw [if_pos hpart] at h
      cases h
      refine Or.inr ⟨hm,rfl,rfl,fun _ _ _ hfull => ?_,rfl,rfl,probe,by simp [hpart],by simp,rfl⟩
      rw [List.length_map] at hfull
      omega
    rw [if_neg hpart] at h
    have hlen : (matchResponse batch attempt).length = batch.length :=
      le_antisymm length_matchResponse_le (by omega)
    split at h
    · next hempty =>
      cases h
      simp only [Bool.and_eq_true,List.all_eq_true,decide_eq_true_eq,Option.isNone_iff_eq_none]
        at hempty
      obtain ⟨⟨⟨hprobe,hall⟩,hlimit⟩,hsize⟩ := hempty
      exact Or.inl ⟨hprobe,by omega,rfl,Or.inr ⟨hlimit,hsize,hlen,hall⟩⟩
    · next hvalued =>
      cases h
      have hqueue : batch.filter
          (fun epc => decide (epc ∉ (matchResponse batch attempt).map Property.epc)) = [] := by
        simpa using fun epc he => List.mem_map.mp (mem_matchResponse_of_full hpart he)
      refine Or.inr ⟨hm,rfl,rfl,fun hprobe hlimit hsize _ => ?_,by rw [hqueue]; rfl,rfl,
        probe && (vars.probeSize.isSome || (limit.isNone && decide (batch.length > 1))),?_,?_,rfl⟩
      · by_contra hempty
        push Not at hempty
        refine hvalued ?_
        simp only [hprobe,hlimit,Bool.true_and,Option.isNone_none,Bool.and_true,Bool.and_eq_true,
          List.all_eq_true,decide_eq_true_eq]
        exact ⟨hempty,hsize⟩
      · simp [hlen,Option.isSome_iff_ne_none]
      · simp [hlen]

theorem Retried.perm (h : Retried probe limit batch rest capability vars attempt next) :
    (next.vars.queue ++ next.accepted).Perm (batch ++ rest) := by
  rw [h.next_eq]
  exact .of_eq (List.append_nil _)

theorem Accepted.nodup (h : Accepted probe limit batch rest capability vars attempt next) :
    next.accepted.Nodup := h.accepted_eq ▸ nodup_matchResponse batch attempt

theorem Accepted.subset (h : Accepted probe limit batch rest capability vars attempt next) :
    next.accepted ⊆ batch := fun _ he => mem_matchResponse (h.accepted_eq ▸ he)

theorem Accepted.ne_nil (h : Accepted probe limit batch rest capability vars attempt next) :
    next.accepted ≠ [] := by
  rw [h.accepted_eq]
  simpa using h.matched

/-- What is left of the batch and what was accepted from it make up the batch again. -/
theorem Accepted.perm (h : Accepted probe limit batch rest capability vars attempt next)
    (hbatch : batch.Nodup) : (next.vars.queue ++ next.accepted).Perm (batch ++ rest) := by
  have hkept : (batch.filter fun epc => !decide (epc ∉ next.accepted)).Perm next.accepted := by
    apply (List.perm_ext_iff_of_nodup (hbatch.filter _) h.nodup).mpr
    intro epc
    simpa using fun he => h.subset he
  have hbatch := (List.filter_append_perm (fun epc => decide (epc ∉ next.accepted)) batch).symm.trans
    (hkept.append_left _)
  rw [h.queue_eq,List.append_assoc]
  refine .trans (List.perm_append_comm.append_left _) ?_
  rw [← List.append_assoc]
  exact hbatch.symm.append_right rest

/-! ### The turns of the loop -/

theorem planBatch_done {classCode : Nat} (h : planBatch classCode capability vars = .done) :
    vars.queue = [] := by
  unfold planBatch at h
  split at h
  · next hnil => exact hnil
  · simp only at h
    split at h <;> cases h

/-- The planner fails only on a batch size of zero. -/
theorem planBatch_failed {classCode : Nat} {exn : Exn}
    (h : planBatch classCode capability vars = .failed exn) :
    batchSize capability.observedBatchCapacity vars.probeSize = some 0 := by
  unfold planBatch at h
  split at h
  · cases h
  · simp only at h
    split at h
    · next hplan =>
      by_contra hsize
      obtain ⟨_,_,he,_⟩ := takeFirstBatch_planned vars.queue capability.manufacturerCode classCode hsize
      rw [hplan] at he
      cases he
    · cases h

theorem planBatch_request {classCode : Nat} (h : planBatch classCode capability vars =
    .request limit batch rest) :
    vars.queue ≠ [] ∧ limit = capability.observedBatchCapacity ∧
      Planned (getGetBatchPolicy capability.manufacturerCode classCode)
        (batchSize capability.observedBatchCapacity vars.probeSize) vars.queue batch rest := by
  unfold planBatch at h
  split at h
  · cases h
  · next hne =>
    simp only at h
    split at h
    · cases h
    · next hplan =>
      cases h
      exact ⟨hne,rfl,takeFirstBatch_eq hplan⟩

variable {device : Device} {s t : GetState}

/-- Going round again means that a batch was planned, sent, and retried or accepted. -/
theorem getBatchesBody_again (h : getBatchesBody target probe device s = .again t) :
    ∃ batch rest next, s.vars.queue ≠ [] ∧
      Planned (getGetBatchPolicy s.capability.manufacturerCode target.deoj.classCode)
        (batchSize s.capability.observedBatchCapacity s.vars.probeSize) s.vars.queue batch rest ∧
      (Retried probe s.capability.observedBatchCapacity batch rest s.capability s.vars
          (device s.log batch) next ∨
        Accepted probe s.capability.observedBatchCapacity batch rest s.capability s.vars
          (device s.log batch) next) ∧
      t = ⟨next.capability,next.vars,
        s.log ++ [⟨batch,device s.log batch,next.accepted,next.retried⟩]⟩ := by
  unfold getBatchesBody at h
  split at h
  · cases h
  · cases h
  · next limit batch rest hplan =>
    obtain ⟨hne,rfl,hplanned⟩ := planBatch_request hplan
    simp only at h
    split at h
    · cases h
    · next next hok =>
      cases h
      exact ⟨batch,rest,next,hne,hplanned,handleAttempt_ok hok,rfl⟩

/-- Leaving means that the queue is empty, that no batch could be planned, or that the
last request gave the run up. -/
theorem getBatchesBody_leave {run : GetRun} (h : getBatchesBody target probe device s = .leave run) :
    run.capability = s.capability ∧ run.received = s.vars.received ∧
      ((s.vars.queue = [] ∧ run.outcome = .ok () ∧ run.log = s.log) ∨
        (batchSize s.capability.observedBatchCapacity s.vars.probeSize = some 0 ∧
          (∃ exn, run.outcome = .error exn) ∧ run.log = s.log) ∨
        ∃ batch rest exn, s.vars.queue ≠ [] ∧
          Planned (getGetBatchPolicy s.capability.manufacturerCode target.deoj.classCode)
            (batchSize s.capability.observedBatchCapacity s.vars.probeSize) s.vars.queue batch rest ∧
          handleAttempt target probe s.capability.observedBatchCapacity batch rest s.capability
            s.vars (device s.log batch) = .error exn ∧ run.outcome = .error exn ∧
          run.log = s.log ++ [⟨batch,device s.log batch,[],false⟩]) := by
  unfold getBatchesBody at h
  split at h
  · next hdone =>
    cases h
    exact ⟨rfl,rfl,Or.inl ⟨planBatch_done hdone,rfl,rfl⟩⟩
  · next exn hfailed =>
    cases h
    exact ⟨rfl,rfl,Or.inr (Or.inl ⟨planBatch_failed hfailed,⟨exn,rfl⟩,rfl⟩)⟩
  · next limit batch rest hplan =>
    obtain ⟨hne,rfl,hplanned⟩ := planBatch_request hplan
    simp only at h
    split at h
    · next exn herr =>
      cases h
      exact ⟨rfl,rfl,Or.inr (Or.inr ⟨batch,rest,exn,hne,hplanned,herr,rfl,rfl⟩)⟩
    · cases h

end Pyhems.Get

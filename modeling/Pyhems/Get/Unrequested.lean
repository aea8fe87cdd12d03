import Pyhems.Get.Reads

/-! Properties that were not requested. A run against the answers stripped of them is the
same run with a stripped log, so nothing that a read returns depends on them. -/
namespace Pyhems.Get
open Protocol Library

/-- The answer without the properties that the batch did not ask for. -/
def Attempt.requested (batch : List Epc) : Attempt → Attempt
  | .answered properties => .answered (properties.filter fun prop => decide (prop.epc ∈ batch))
  | attempt => attempt

def Exchange.requested (x : Exchange) : Exchange := {x with attempt := x.attempt.requested x.batch}

/-- What a device answers, request after request. -/
abbrev Answers := List (List Epc) → List Epc → Attempt

def Device.ofAnswers (answers : Answers) : Device := fun log => answers (log.map Exchange.batch)

/-- The same answers, stripped. -/
def Answers.requested (answers : Answers) : Answers :=
  fun sent batch => (answers sent batch).requested batch

def GetState.requested (s : GetState) : GetState := {s with log := s.log.map Exchange.requested}

def GetRun.requested (run : GetRun) : GetRun := {run with log := run.log.map Exchange.requested}

def ReadRun.requested (read : ReadRun) : ReadRun :=
  {read with log := read.log.map Exchange.requested}

variable {batch rest : List Epc} {attempt : Attempt} {answers : Answers}

theorem matchResponse_requested (batch : List Epc) (attempt : Attempt) :
    matchResponse batch (attempt.requested batch) = matchResponse batch attempt := by
  cases attempt with
  | answered properties => exact FirstMatch.collect_filter
  | _ => rfl

theorem manufacturerProperty_requested (attempt : Attempt) :
    (attempt.requested [manufacturerCodeEpc]).manufacturerProperty = attempt.manufacturerProperty := by
  cases attempt with
  | answered properties =>
    simp only [Attempt.manufacturerProperty,Attempt.requested,Attempt.properties,List.find?_filter]
    congr 1
    funext prop
    by_cases h : prop.epc = manufacturerCodeEpc <;> simp [h]
  | _ => rfl

/-- A turn reads the answer only through the properties that were requested. -/
theorem handleAttempt_requested (target : Target) (probe : Bool) (limit : Option Nat)
    (capability : GetCapability) (vars : Vars) :
    handleAttempt target probe limit batch rest capability vars (attempt.requested batch) =
      handleAttempt target probe limit batch rest capability vars attempt := by
  cases attempt with
  | answered properties =>
    have hmatch := matchResponse_requested batch (.answered properties)
    simp only [Attempt.requested] at hmatch ⊢
    simp only [handleAttempt,hmatch]
  | _ => rfl

theorem batches_requested (log : List Exchange) :
    (log.map Exchange.requested).map Exchange.batch = log.map Exchange.batch := by
  simp [Exchange.requested]

theorem ofAnswers_requested (s : GetState) (batch : List Epc) :
    Device.ofAnswers answers.requested s.requested.log batch =
      (Device.ofAnswers answers s.log batch).requested batch := by
  simp only [Device.ofAnswers,Answers.requested,GetState.requested,batches_requested]

/-- One turn against the stripped answers is the stripped turn. -/
theorem getBatchesBody_requested (target : Target) (probe : Bool) (s : GetState) :
    getBatchesBody target probe (.ofAnswers answers.requested) s.requested =
      match getBatchesBody target probe (.ofAnswers answers) s with
      | .again t => .again t.requested
      | .leave run => .leave run.requested := by
  have hvars : s.requested.vars = s.vars := rfl
  have hcapability : s.requested.capability = s.capability := rfl
  unfold getBatchesBody
  rw [hvars,hcapability]
  split
  · rfl
  · rfl
  · simp only [ofAnswers_requested,handleAttempt_requested]
    split
    · simp [GetState.requested,GetRun.requested,Exchange.requested]
    · simp [GetState.requested,Exchange.requested]

theorem runGetBatches_requested (target : Target) (probe : Bool) (epcs : List Epc)
    (capability : GetCapability) (received : Received) :
    runGetBatches target probe (.ofAnswers answers.requested) epcs capability received =
      (runGetBatches target probe (.ofAnswers answers) epcs capability received).map
        GetRun.requested := by
  refine Loop.run_map GetState.requested GetRun.requested (fun s t h => ?_) (fun s run h => ?_) _
    (getBatchesStart epcs capability received)
  · rw [getBatchesBody_requested,h]
  · rw [getBatchesBody_requested,h]

/-! ### The public reads -/

theorem readManufacturerCode_requested (capability : GetCapability) :
    readManufacturerCode (attempt.requested [manufacturerCodeEpc]) capability =
      readManufacturerCode attempt capability := by
  cases attempt with
  | answered properties =>
    have hfound := manufacturerProperty_requested (.answered properties)
    simp only [Attempt.requested] at hfound ⊢
    simp only [readManufacturerCode,hfound]
  | _ => rfl

theorem finishSetup_requested (answers : Answers) (target : Target) (epcs : List Epc) (capability : GetCapability)
    (manufacturer : Option Property) :
    finishSetup target (.ofAnswers answers.requested) epcs capability manufacturer =
      (finishSetup target (.ofAnswers answers) epcs capability manufacturer).map
        ReadRun.requested := by
  simp only [finishSetup,runGetBatches_requested,Option.map_map]
  rfl

theorem finishGet_requested (answers : Answers) (target : Target) (epcs : List Epc) (capability : GetCapability)
    (manufacturer : Option Property) (received : Received) :
    finishGet target (.ofAnswers answers.requested) epcs capability manufacturer received =
      (finishGet target (.ofAnswers answers) epcs capability manufacturer received).map
        ReadRun.requested := by
  simp only [finishGet,runGetBatches_requested,Option.map_map]
  rfl

theorem setupGet_requested (nodeId : String) (address : Option String) (started : Bool) (deoj : EOJ)
    (epcs : List Epc) (capability : GetCapability) :
    setupGet nodeId address started deoj (.ofAnswers answers.requested) epcs capability =
      (setupGet nodeId address started deoj (.ofAnswers answers) epcs capability).map
        ReadRun.requested := by
  have hread : Device.ofAnswers answers.requested [] [manufacturerCodeEpc] =
      (Device.ofAnswers answers [] [manufacturerCodeEpc]).requested [manufacturerCodeEpc] := rfl
  unfold setupGet
  cases address with
  | none => rfl
  | some address =>
    cases started with
    | false => rfl
    | true =>
      cases hcode : capability.manufacturerCode with
      | some code => exact finishSetup_requested answers _ epcs capability none
      | none =>
        simp only [Bool.not_true,if_false,Bool.false_eq_true,hread,readManufacturerCode_requested]
        split
        · rfl
        · rfl
        · next manufacturer after _ =>
          exact finishSetup_requested (fun sent => answers ([manufacturerCodeEpc] :: sent))
            _ epcs after (some manufacturer)

theorem get_requested (address : Option String) (started : Bool) (deoj : EOJ) (epcs : List Epc)
    (capability : GetCapability) :
    get address started deoj (.ofAnswers answers.requested) epcs capability =
      (get address started deoj (.ofAnswers answers) epcs capability).map ReadRun.requested := by
  have hread : Device.ofAnswers answers.requested [] [manufacturerCodeEpc] =
      (Device.ofAnswers answers [] [manufacturerCodeEpc]).requested [manufacturerCodeEpc] := rfl
  unfold get
  cases address with
  | none => rfl
  | some address =>
    simp only [hread,readManufacturerCode_requested]
    split
    · rfl
    · split
      · split
        · rfl
        · rfl
        · next manufacturer after _ =>
          exact finishGet_requested (fun sent => answers ([manufacturerCodeEpc] :: sent))
            _ epcs after (some manufacturer) _
      · exact finishGet_requested answers _ epcs capability none _

end Pyhems.Get

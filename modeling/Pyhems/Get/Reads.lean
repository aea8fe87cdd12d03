import Pyhems.Get.Batches

/-! The public reads built on the batch loop: the standalone read of the manufacturer
code, `setup_get` and `get`. -/
namespace Pyhems.Get
open Protocol Library

/-- `EPC.MANUFACTURER_CODE`. -/
def manufacturerCodeEpc : Epc := 0x8A

/-- `manufacturer_property`: the first 0x8A of a response that carries a code. -/
def Attempt.manufacturerProperty (attempt : Attempt) : Option Property :=
  attempt.properties.find? fun prop =>
    prop.epc == manufacturerCodeEpc && decide (3 ≤ prop.edt.length)

/-- `_read_manufacturer_code`, for the attempt that its one request gave. -/
def readManufacturerCode (attempt : Attempt) (capability : GetCapability) :
    Except Exn (Option Property × GetCapability) :=
  match attempt with
  | .raised exn => .error exn
  | attempt =>
    match attempt.manufacturerProperty with
    | none => .ok (none,capability)
    | some manufacturer => .ok (some manufacturer,
        {capability with manufacturerCode := some (fromBytes (manufacturer.edt.take 3))})

/-- The error of the callers that cannot go on without the manufacturer code. -/
def unreadableManufacturer (nodeId : String) (deoj : EOJ) : Exn :=
  .getAbortedError s!"Could not read manufacturer code (EPC 0x8A) from {nodeId} {deoj.repr}"

/-- `[received.get(epc, Property(epc=epc, edt=b"")) for epc in epcs]`. -/
def collectResult (epcs : List Epc) (received : Received) : List Property :=
  epcs.map fun epc => (received epc).getD ⟨epc,[]⟩

/-- A finished read: what the caller sees, the 0x8A that the standalone read gave, and the
exchanges of the batch loop. -/
structure ReadRun where
  result : Except Exn (List Property)
  capability : GetCapability
  manufacturer : Option Property
  log : List Exchange

/-- The device as the batch loop meets it after the standalone read. -/
def Device.after (device : Device) (attempt : Attempt) : Device :=
  fun log => device (⟨[manufacturerCodeEpc],attempt,[],false⟩ :: log)

/-- `received` holding the separately read property, if there is one. -/
def Received.single (prop : Option Property) : Received :=
  fun epc => prop.bind fun prop => if prop.epc = epc then some prop else none

/-- `[epc for epc in epcs if epc not in received]`. -/
def unread (epcs : List Epc) (received : Received) : List Epc :=
  epcs.filter fun epc => (received epc).isNone

/-- The batch loop of `setup_get` and what it returns. -/
def finishSetup (target : Target) (device : Device) (epcs : List Epc) (capability : GetCapability)
    (manufacturer : Option Property) : Option ReadRun :=
  (runGetBatches target true device (unread epcs (.single manufacturer)) capability
    (.single manufacturer)).map fun run =>
      ⟨run.outcome.map fun _ => collectResult epcs run.received,run.capability,manufacturer,run.log⟩

/-- `setup_get`. `address` is the looked-up address and `started` whether a protocol is open. -/
def setupGet (nodeId : String) (address : Option String) (started : Bool) (deoj : EOJ)
    (device : Device) (epcs : List Epc) (capability : GetCapability) : Option ReadRun :=
  match address with
  | none => some ⟨.error (.getAbortedError s!"No address known for device {nodeId}"),capability,none,[]⟩
  | some address =>
    if !started then
      some ⟨.error (.getAbortedError "Runtime client is not started"),capability,none,[]⟩
    else
      match capability.manufacturerCode with
      | some _ => finishSetup ⟨address,deoj⟩ device epcs capability none
      | none =>
        let attempt := device [] [manufacturerCodeEpc]
        match readManufacturerCode attempt capability with
        | .error exn => some ⟨.error exn,capability,none,[]⟩
        | .ok (none,capability) => some ⟨.error (unreadableManufacturer nodeId deoj),capability,none,[]⟩
        | .ok (some manufacturer,capability) =>
          finishSetup ⟨address,deoj⟩ (device.after attempt) epcs capability (some manufacturer)

/-- `except (GetAbortedError, ClientStoppedError)` in `get`. -/
def caughtByGet : Exn → Bool
  | .getAbortedError _ => true
  | .clientStoppedError _ => true
  | _ => false

/-- What `get` returns when its reads ended with `outcome`. -/
def getResult (epcs : List Epc) (received : Received) : Except Exn Unit → Except Exn (List Property)
  | .ok () => .ok (collectResult epcs received)
  | .error exn => if caughtByGet exn then .ok (collectResult epcs received) else .error exn

/-- The batch loop of `get` and what it returns, from the `received` it begins with. -/
def finishGet (target : Target) (device : Device) (epcs : List Epc) (capability : GetCapability)
    (manufacturer : Option Property) (received : Received) : Option ReadRun :=
  (runGetBatches target false device (unread epcs received) capability received).map fun run =>
      ⟨getResult epcs run.received run.outcome,run.capability,manufacturer,run.log⟩

/-- `get` with `_get_at_address`. -/
def get (address : Option String) (started : Bool) (deoj : EOJ) (device : Device)
    (epcs : List Epc) (capability : GetCapability) : Option ReadRun :=
  match address with
  | none => some ⟨.ok (epcs.map fun epc => ⟨epc,[]⟩),capability,none,[]⟩
  | some address =>
    if !started || decide (epcs = []) then some ⟨.ok (epcs.map fun epc => ⟨epc,[]⟩),capability,none,[]⟩
    else if capability.manufacturerCode.isNone && hasGetBatchPolicyForClass deoj.classCode then
      let attempt := device [] [manufacturerCodeEpc]
      match readManufacturerCode attempt capability with
      | .error exn => some ⟨getResult epcs (.single none) (.error exn),capability,none,[]⟩
      | .ok (none,capability) => some ⟨getResult epcs (.single none) (.ok ()),capability,none,[]⟩
      | .ok (some manufacturer,capability) =>
        finishGet ⟨address,deoj⟩ (device.after attempt) epcs capability
          (some manufacturer) (.single (if manufacturerCodeEpc ∈ epcs then some manufacturer else none))
    else finishGet ⟨address,deoj⟩ device epcs capability none (.single none)

end Pyhems.Get

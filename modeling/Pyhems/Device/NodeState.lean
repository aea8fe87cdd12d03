import Mathlib.Data.Finset.Sort
import Pyhems.Get.Reads
import Pyhems.Library.LastWrite
import Pyhems.Runtime.Answers
import Pyhems.Runtime.Router

/-! The state of one device object: its property maps, the EPCs selected for it, its cached
values, how its EPCs are polled, and the ranges of its paged lists. -/
namespace Pyhems.Device
open Protocol Library Pyhems.Runtime
open Get (Epc manufacturerCodeEpc)

namespace EPC

def productCode : Epc := 0x8C
def serialNumber : Epc := 0x8D
def infPropertyMap : Epc := 0x9D
def setPropertyMap : Epc := 0x9E
def getPropertyMap : Epc := 0x9F

end EPC

/-! ### Property maps -/

/-- The EPCs of a bitmap: the byte index is the low nibble of an EPC and the bit index its high
nibble, from 0x8 on. -/
def bitmapEpcs (bitmap : Bytes) : List Epc :=
  (List.range 16).flatMap fun byteIdx =>
    let byteVal := (bitmap.getD byteIdx 0).toNat
    ((List.range 8).filter fun bitIdx => byteVal.testBit bitIdx).map fun bitIdx =>
      0x80+bitIdx*0x10+byteIdx

def parsePropertyMap (edt : Bytes) : Option (Finset Epc) :=
  match edt with
  | [] => none
  | count :: _ =>
    if count.toNat ≤ 15 then
      if edt.length < count.toNat+1 then none
      else some ((slice edt 1 (count.toNat+1)).map UInt8.toNat).toFinset
    else if edt.length < 17 then none
    else some (bitmapEpcs (slice edt 1 17)).toFinset

/-- Cached property values, the dict from EPCs to EDTs. -/
abbrev Values := Epc → Option Bytes

/-- `_extract_property_maps`: the Get, Set and Inf maps. -/
def extractPropertyMaps (values : Values) :
    Option (Finset Epc) × Option (Finset Epc) × Option (Finset Epc) :=
  let parse := fun epc => parsePropertyMap ((values epc).getD [])
  (parse EPC.getPropertyMap,parse EPC.setPropertyMap,parse EPC.infPropertyMap)

/-! ### Selected EPCs -/

/-- `EpcSelection`: EPCs by class, or a function of the class and the manufacturer. -/
inductive EpcSelection where
  | mapping (epcs : Nat → Option (Finset Epc))
  | function (select : Nat → Nat → Except Exn (Finset Epc))

def selectEpcs : EpcSelection → (classCode manufacturerCode : Nat) → Except Exn (Finset Epc)
  | .function select, classCode, manufacturerCode => select classCode manufacturerCode
  | .mapping epcs, classCode, _ => .ok ((epcs classCode).getD ∅)

/-- `_compute_poll_epcs`: the normal and the fast tier. -/
def computePollEpcs (monitoredEpcs getEpcs fastCandidateEpcs infNotifiedEpcs : Finset Epc) :
    Finset Epc × Finset Epc :=
  let pollable := (monitoredEpcs ∩ getEpcs) \ infNotifiedEpcs
  let fastPollEpcs := pollable ∩ fastCandidateEpcs
  (pollable \ fastPollEpcs,fastPollEpcs)

/-! ### One device object -/

/-- `NodeState`, with the fields that setup, frames and polling go by. -/
structure NodeState where
  properties : Values
  manufacturerCode : Nat
  getEpcs : Finset Epc
  setEpcs : Finset Epc
  infEpcs : Finset Epc
  pollEpcs : Finset Epc
  fastPollEpcs : Finset Epc
  monitoredEpcs : Finset Epc
  fastCandidateEpcs : Finset Epc
  infRequestEpcs : Finset Epc
  infNotifiedEpcs : Finset Epc := ∅
  infUnconfirmedEpcs : Finset Epc := ∅
  rangeRecoveryAttemptedEpcs : Finset Epc := ∅

/-- One turn of the loops that write received values; the second part collects the EPCs whose
value changed. -/
def writeProperty (written : Values × Finset Epc) (prop : Property) : Values × Finset Epc :=
  if written.1 prop.epc ≠ some prop.edt then
    (Function.update written.1 prop.epc (some prop.edt),insert prop.epc written.2)
  else written

def writeProperties (values : Values) (properties : List Property) : Values × Finset Epc :=
  properties.foldl writeProperty (values,∅)

def applyAcceptedProperties (values : Values) (properties : List Property)
    (acceptedEpcs : Finset Epc) : Values × Finset Epc :=
  writeProperties values (properties.filter fun prop => decide (prop.epc ∈ acceptedEpcs))

def valueEsvs : List ESV := [.getRes,.getSna,.inf,.infc]

def writesOf (properties : List Property) : List (Epc × Bytes) :=
  properties.map fun prop => (prop.epc,prop.edt)

theorem writeProperties_values (values : Values) (properties : List Property) :
    (writeProperties values properties).1 = LastWrite.writeAll values (writesOf properties) := by
  unfold writeProperties
  generalize (∅ : Finset Epc) = changed
  induction properties generalizing values changed with
  | nil => rfl
  | cons prop properties ih =>
    have hwrite : (writeProperty (values,changed) prop).1 =
        Function.update values prop.epc (some prop.edt) := by
      unfold writeProperty
      split
      · rfl
      · next hsame => exact (Function.update_eq_self_iff.mpr (not_not.mp hsame).symm).symm
    rw [List.foldl_cons,← Prod.mk.eta (p := writeProperty (values,changed) prop),ih,hwrite]
    rfl

/-- A value changes only for an EPC of the list. -/
theorem writeProperties_of_notMem (values : Values) {properties : List Property} {epc : Epc}
    (h : epc ∉ epcsOf properties) : (writeProperties values properties).1 epc = values epc := by
  rw [writeProperties_values]
  refine LastWrite.writeAll_of_forall_ne values fun w hw hepc => h ?_
  obtain ⟨prop,hprop,rfl⟩ := List.mem_map.mp hw
  exact List.mem_toFinset.mpr (List.mem_map.mpr ⟨prop,hprop,hepc⟩)

/-! ### Ranges of paged lists -/

/-- `CollectionBinding`, with the fields that range recovery goes by. -/
structure CollectionBinding where
  resultEpc : Epc
  countEpc : Option Epc
  selectorEpc : Option Epc
  maxRange : Option Nat
  deriving DecidableEq

/-- `REGISTRY.collection_bindings`: the bindings of a class, whose selectors differ. -/
structure CollectionBindings where
  get : Nat → List CollectionBinding
  distinct : ∀ classCode, ((get classCode).filterMap CollectionBinding.selectorEpc).Nodup

/-- `COLLECTION_BINDINGS`. -/
def curatedBindings : CollectionBindings where
  get classCode :=
    if classCode = 647 then
      [⟨179,some 177,some 178,some 60⟩,⟨181,some 177,some 180,some 60⟩,
        ⟨183,some 177,some 182,some 60⟩,⟨186,some 184,some 185,some 30⟩,
        ⟨188,some 184,some 187,some 60⟩,⟨190,some 184,some 189,some 60⟩]
    else []
  distinct classCode := by split <;> decide

/-- The body of the loop of `_collection_range_recovery_properties`. -/
def CollectionBinding.recoveryProperty (binding : CollectionBinding) (node : NodeState) :
    Option Property :=
  match binding.selectorEpc,binding.countEpc,binding.maxRange with
  | some selector,some count,some maxRange =>
    if selector ∈ node.rangeRecoveryAttemptedEpcs then none
    else
      match node.properties binding.resultEpc,node.properties count with
      | some result,some [channelCount] =>
        let range := min maxRange channelCount.toNat
        if result.length < 2 ∨ 0xFD ∉ result.take 2 then none
        else if ¬ (1 ≤ channelCount.toNat ∧ channelCount.toNat ≤ 252) then none
        else if ¬ (1 ≤ range ∧ range ≤ 0xFF) then none
        else some ⟨selector,[1,UInt8.ofNat range]⟩
      | _,_ => none
  | _,_,_ => none

def collectionRangeRecoveryProperties (bindings : List CollectionBinding) (node : NodeState) :
    List Property :=
  bindings.filterMap fun binding => binding.recoveryProperty node

/-- What a recovery write rests on: the selector was not tried before, the list is marked unset,
and the number of channels is known. -/
structure CollectionBinding.Unset (binding : CollectionBinding) (node : NodeState) (prop : Property) :
    Prop where
  selector : binding.selectorEpc = some prop.epc
  untried : prop.epc ∉ node.rangeRecoveryAttemptedEpcs
  marked : ∃ result, node.properties binding.resultEpc = some result ∧ 2 ≤ result.length ∧
    0xFD ∈ result.take 2
  counted : ∃ count channelCount maxRange, binding.countEpc = some count ∧
    binding.maxRange = some maxRange ∧ node.properties count = some [channelCount] ∧
    1 ≤ channelCount.toNat ∧ channelCount.toNat ≤ 252 ∧
    prop.edt = [1,UInt8.ofNat (min maxRange channelCount.toNat)] ∧
    1 ≤ min maxRange channelCount.toNat ∧ min maxRange channelCount.toNat ≤ 255

theorem CollectionBinding.recoveryProperty_unset {binding : CollectionBinding} {node : NodeState}
    {prop : Property} (h : binding.recoveryProperty node = some prop) : binding.Unset node prop := by
  unfold recoveryProperty at h
  split at h
  · next selector count maxRange hselector hcount hrange =>
    split at h
    · cases h
    · next huntried =>
      split at h
      · next result channelCount hresult hchannels =>
        simp only at h
        split_ifs at h with hmark hchannel hbyte
        cases h
        rw [not_or,not_lt,not_not] at hmark
        exact ⟨hselector,huntried,⟨result,hresult,hmark⟩,
          ⟨count,channelCount,maxRange,hcount,hrange,hchannels,hchannel.1,hchannel.2,rfl,hbyte⟩⟩
      · cases h
  · cases h

section Recovery
variable {bindings : List CollectionBinding} {node : NodeState}

theorem recoveryProperties_unset {prop : Property}
    (h : prop ∈ collectionRangeRecoveryProperties bindings node) :
    ∃ binding ∈ bindings, binding.Unset node prop := by
  obtain ⟨binding,hbinding,hprop⟩ := List.mem_filterMap.mp h
  exact ⟨binding,hbinding,binding.recoveryProperty_unset hprop⟩

/-- The properties of one recovery write differ in their EPCs. -/
theorem recoveryProperties_nodup (h : (bindings.filterMap CollectionBinding.selectorEpc).Nodup) :
    ((collectionRangeRecoveryProperties bindings node).map Property.epc).Nodup := by
  refine h.sublist ?_
  unfold collectionRangeRecoveryProperties
  clear h
  induction bindings with
  | nil => exact List.Sublist.refl _
  | cons binding bindings ih =>
    cases hprop : binding.recoveryProperty node with
    | none =>
      simp only [List.filterMap_cons,hprop]
      cases binding.selectorEpc with
      | none => exact ih
      | some selector => exact ih.cons _
    | some prop =>
      have hselector := (binding.recoveryProperty_unset hprop).selector
      simp only [List.filterMap_cons,hprop,hselector,List.map_cons]
      exact ih.cons_cons _

end Recovery

end Pyhems.Device

import Pyhems.Generator.EntityIds
import Pyhems.Codec.NumericCodec

/-! The codecs of the registry. A temporal entity and one that was defined have a codec, which writes back every byte
that it reads. -/
namespace Pyhems.Generator
open Library Codec Fallible
open Protocol (Bytes)
open Get (Epc)

/-- What a codec reads of EDTs of a width it writes back. -/
def WritesBack (arithmetic : Arithmetic) (codec : PropertyCodec) (width : Nat) : Prop :=
  ∀ context (edt : Bytes) value, edt.length = width → codec.decode arithmetic context edt = .ok value →
    value ≠ .none → codec.encode arithmetic value = .ok edt

/-- The codec reads the EDT of each state as what stands for its key, and writes it for that. -/
def ReadsStates (read : String → Value) (codec : PropertyCodec) (width : Nat) (entity : EntityDefinition) : Prop :=
  ∀ state ∈ entity.enumValues, ∀ arithmetic context,
    codec.decode arithmetic context (BigEndian.digits width state.edt) = .ok (read state.key) ∧
      codec.encode arithmetic (read state.key) = .ok (BigEndian.digits width state.edt)

section Codecs
variable {entity : EntityDefinition} {classCode : Nat}

/-! ### Temporal entities -/

theorem writesBack_temporal {codec : TemporalCodec} (h : codec.Distinct) (arithmetic : Arithmetic) (width : Nat) :
    WritesBack arithmetic codec.propertyCodec width := by
  intro context edt value _ hdecode hvalue
  rw [TemporalCodec.decode_eq h] at hdecode
  cases hdecode
  cases hstate : codec.findState edt with
  | some state =>
    have hedt : edt = BigEndian.digits codec.temporal.size state.edt :=
      of_decide_eq_true (List.find?_some hstate :)
    exact (TemporalCodec.encode_text h).mpr ⟨state,List.mem_of_find?_eq_some hstate,rfl,hedt⟩
  | none =>
    cases htime : codec.temporal.decode edt with
    | none =>
      rw [hstate,htime] at hvalue
      exact absurd rfl hvalue
    | some time => exact TemporalCodec.encode_temporal.trans (TemporalDefinition.decode_eq_some_iff.mp htime)

theorem readsStates_temporal {temporal : TemporalDefinition}
    (h : (TemporalCodec.mk temporal entity.enumValues).Distinct) :
    ReadsStates .text (.temporal temporal entity.enumValues) temporal.size entity := by
  intro state hstate arithmetic context
  exact ⟨TemporalCodec.decode_state h hstate,(TemporalCodec.encode_text h).mpr ⟨state,hstate,rfl,rfl⟩⟩

/-! ### Defined entities -/

theorem digits_one (n : Nat) : BigEndian.digits 1 n = [UInt8.ofNat n] := rfl

theorem writesBack_codes {codec : PropertyCodec} (h : Codes entity codec) (arithmetic : Arithmetic) :
    WritesBack arithmetic codec 1 := by
  intro context edt value hlength hdecode hvalue
  obtain ⟨byte,rfl⟩ := List.length_eq_one_iff.mp hlength
  by_cases hstate : ∃ state ∈ entity.enumValues, state.edt = byte.toNat
  · obtain ⟨state,hmem,heq⟩ := hstate
    have hbyte : UInt8.ofNat state.edt = byte := by rw [heq,UInt8.ofNat_toNat]
    have hread := h.decode state hmem arithmetic context
    rw [hbyte,hdecode] at hread
    cases hread
    rw [h.encode state hmem arithmetic,hbyte]
  · have hnone := h.others byte (fun state hmem heq => hstate ⟨state,hmem,heq⟩) arithmetic context
    rw [hdecode] at hnone
    cases hnone
    exact absurd rfl hvalue

theorem readsStates_codes {codec : PropertyCodec} (h : Codes entity codec) :
    ReadsStates (keyValue entity) codec 1 entity := by
  intro state hstate arithmetic context
  rw [digits_one]
  exact ⟨h.decode state hstate arithmetic context,h.encode state hstate arithmetic⟩

theorem formatInfo_of_mem {format : String} (h : format ∈ numericFormats) :
    ∃ signed count, formatInfo.lookup format = some (signed,count) ∧ 0 < count ∧ format ≠ "" := by
  have hall : ∀ format ∈ numericFormats, ((formatInfo.lookup format).any fun info => decide (0 < info.2)) = true ∧
      format ≠ "" := by decide
  obtain ⟨hany,hne⟩ := hall format h
  cases hinfo : formatInfo.lookup format with
  | none =>
    rw [hinfo] at hany
    cases hany
  | some info =>
    rw [hinfo] at hany
    exact ⟨info.1,info.2,rfl,of_decide_eq_true hany,hne⟩

theorem writesBack_numeric {format : String} {scale : ℚ} {minimum maximum : Option ℚ} {signed : Bool} {count : Nat}
    (hformat : formatInfo.lookup format = some (signed,count)) (hscale : 0 < scale) :
    WritesBack .exact (.numeric format scale minimum maximum 0 []) count := by
  intro context edt value hlength hdecode hvalue
  rw [decode_numeric_exact hformat hlength] at hdecode
  split at hdecode
  · next hrange =>
    cases hdecode
    have hraw : roundHalfEven (signedNumber signed edt*scale/scale) = signedNumber signed edt := by
      rw [mul_div_cancel_right₀ _ hscale.ne',roundHalfEven_eq,halfEven_intCast]
    rw [encode_numeric hformat,hraw]
    exact ⟨hrange,hlength ▸ signedBytes_signedNumber signed edt⟩
  · cases hdecode
    exact absurd rfl hvalue

/-- Without coefficients, the codec does not depend on other entities. -/
theorem getCodecWith_eq (h : entity.coefficientEpcs = none) (lookup lookup' : Nat → Epc → Except Failure PropertyCodec)
    (classCode : Option Nat) : getCodecWith lookup entity classCode = getCodecWith lookup' entity classCode := by
  unfold getCodecWith
  rw [h]
  rfl

/-- A definition at the start of the EDT has a codec, whatever else the registry holds. -/
theorem codec_of_defined (h : Defined classCode entity) (hoffset : entity.byteOffset = 0) :
    ∃ codec width, 0 < width ∧ WritesBack .exact codec width ∧ ReadsStates (keyValue entity) codec width entity ∧
      ∀ lookup, getCodecWith lookup entity (some classCode) = .ok codec := by
  by_cases hstates : entity.enumValues = []
  · obtain ⟨format,hmem,hformat⟩ := h.format hstates
    obtain ⟨signed,count,hinfo,hcount,hne⟩ := formatInfo_of_mem hmem
    refine ⟨.numeric format entity.multipleOf entity.minimum entity.maximum 0 [],count,hcount,
      writesBack_numeric hinfo h.scale,?_,?_⟩
    · intro state hstate
      rw [hstates] at hstate
      cases hstate
    · intro lookup
      have hfilter : entity.format.filter (fun text => decide (text ≠ "")) = some format := by
        rw [hformat,Option.filter_some,if_pos (decide_eq_true hne)]
      unfold getCodecWith
      simp only [h.temporal,h.numericValues,hstates,ne_eq,not_true_eq_false,if_false,hfilter,h.coefficientEpcs,hoffset]
      rfl
  · have hentity : StateEntity entity := ⟨h.temporal,h.numericValues,hoffset,hstates⟩
    obtain ⟨codec,hcodec,hcodes⟩ := @StateEntity.codes entity ⟨fun _ => []⟩ (some classCode) hentity
      h.states.keys h.states.edts h.states.fit
    refine ⟨codec,1,one_pos,writesBack_codes hcodes .exact,readsStates_codes hcodes,fun lookup => ?_⟩
    exact (getCodecWith_eq h.coefficientEpcs _ _ _).trans hcodec

end Codecs

/-! ### The registry -/

section Registry
variable {inputs : Inputs} {build : DefinitionsBuild} {classCode : Nat} {entity : EntityDefinition}

theorem DefinitionsBuild.Consistent.emitted (h : build.Consistent)
    (hentity : entity ∈ build.registry.entities classCode) :
    ∃ source, Emitted source entity := by
  obtain hown | ⟨_,hshared,_⟩ := mem_registry.mp hentity
  · exact ⟨classCode,(h.ofClass classCode).emitted entity hown⟩
  · exact ⟨0,h.common.emitted entity hshared⟩

/-- The lookup of an entity by its coordinates selects its own codec. -/
theorem Inputs.getCodecForEpc_eq (h : inputs.WellFormed) (hbuild : inputs.build = .ok build)
    (hentity : entity ∈ build.registry.entities classCode) :
    ∃ lookup, getCodecForEpc build.registry classCode entity.epc entity.manufacturerCode entity.byteOffset =
      getCodecWith lookup entity (some classCode) := by
  have hfound := (Inputs.entity_iff h hbuild).mpr ⟨hentity,rfl,rfl,Or.inr rfl⟩
  refine ⟨fun classCode epc => getCodecForEpcWithin build.registry 999 classCode epc none 0,?_⟩
  rw [getCodecForEpc,recursionLimit,getCodecForEpcWithin,hfound]

/-- Every temporal entity is found with a codec that reads its states as their keys and writes back what it reads. -/
theorem Inputs.temporal_codec (h : inputs.WellFormed) (hbuild : inputs.build = .ok build)
    (hentity : entity ∈ build.registry.entities classCode) {temporal : TemporalDefinition}
    (htemporal : entity.temporal = some temporal) :
    ∃ codec, getCodecForEpc build.registry classCode entity.epc entity.manufacturerCode entity.byteOffset = .ok codec ∧
      (∀ arithmetic width, WritesBack arithmetic codec width) ∧ ReadsStates .text codec temporal.size entity := by
  obtain ⟨source,hemitted⟩ := (consistent_of_build h hbuild).emitted hentity
  obtain ⟨hoffset,hdistinct⟩ := hemitted.temporal temporal htemporal
  obtain ⟨lookup,hlookup⟩ := getCodecForEpc_eq h hbuild hentity
  refine ⟨.temporal temporal entity.enumValues,?_,writesBack_temporal hdistinct,readsStates_temporal hdistinct⟩
  rw [hlookup,getCodecWith,htemporal]
  exact if_neg (not_not.mpr hoffset)

theorem Inputs.temporal_codec_timer : ∃ codec,
    getCodecForEpc airConditionerBuild.registry 0x0130 0x94 none 0 = .ok codec ∧
      (∀ arithmetic width, WritesBack arithmetic codec width) ∧ ReadsStates .text codec 2 timerEntity :=
  Inputs.temporal_codec airConditioner_wellFormed airConditioner_build timerEntity_mem rfl

theorem Inputs.defined_of_notMem (h : inputs.WellFormed) (hbuild : inputs.build = .ok build)
    (hown : entity ∈ definitionsOf (build.entities classCode)) (hother : entity.epc ∉ build.epcs classCode) :
    Defined classCode entity :=
  ((consistent_of_build h hbuild).ofClass classCode).defined entity hown hother

/-- Every entity that was defined at the start of the EDT is found with a codec that reads its states as their keys and,
but for rounding, writes back what it reads. -/
theorem Inputs.defined_codec (h : inputs.WellFormed) (hbuild : inputs.build = .ok build)
    (hown : entity ∈ definitionsOf (build.entities classCode)) (hother : entity.epc ∉ build.epcs classCode)
    (hoffset : entity.byteOffset = 0) :
    ∃ codec width, 0 < width ∧
      getCodecForEpc build.registry classCode entity.epc entity.manufacturerCode 0 = .ok codec ∧
        WritesBack .exact codec width ∧ ReadsStates (keyValue entity) codec width entity := by
  obtain ⟨codec,width,hwidth,hwrites,hreads,hcodec⟩ := codec_of_defined (defined_of_notMem h hbuild hown hother) hoffset
  obtain ⟨lookup,hlookup⟩ := getCodecForEpc_eq h hbuild (mem_registry.mpr (Or.inl hown))
  rw [hoffset] at hlookup
  exact ⟨codec,width,hwidth,hlookup.trans (hcodec lookup),hwrites,hreads⟩

theorem Inputs.defined_codec_fanLevel : ∃ codec width, 0 < width ∧
    getCodecForEpc airConditionerBuild.registry 0x0130 0xF1 (some 0x16) 0 = .ok codec ∧
      WritesBack .exact codec width ∧ ReadsStates (keyValue fanLevel) codec width fanLevel :=
  @Inputs.defined_codec airConditioner airConditionerBuild 0x0130 fanLevel airConditioner_wellFormed
    airConditioner_build (by decide +kernel) (by decide +kernel) rfl

end Registry

end Pyhems.Generator

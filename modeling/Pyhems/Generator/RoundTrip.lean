import Pyhems.Generator.Entities
import Pyhems.Library.Fallible

/-! State properties. Their definitions declare a size, and their codecs look at one byte. -/
namespace Pyhems.Generator
open Library Codec Fallible
open Protocol (Bytes fromBytes)
open Get (Epc)

/-- The entries of a property that are not ranges. -/
def declaredStates (definitions : Definitions) (data : Spec) : List EnumItem :=
  ((resolvedSpecs definitions data).flatMap fun spec => spec.enum.getD []).filter fun item => !isRange item.edt

/-- A property of states of one size, with names and EDTs of their own. -/
structure StateProperty where
  definitions : Definitions
  prop : PropertyData
  size : Nat
  pos : 1 ≤ size
  states : ∀ spec ∈ resolvedSpecs definitions prop.data, spec.type = some .state ∧ spec.size = some size
  names : ((declaredStates definitions prop.data).map EnumItem.name).Nodup
  edts : ((declaredStates definitions prop.data).map fun item => hexInt item.edt).Nodup
  fit : ∀ item ∈ declaredStates definitions prop.data, ∀ edt, hexInt item.edt = .ok edt → edt < 256^size

namespace StateProperty

def entries (p : StateProperty) : List EnumItem := declaredStates p.definitions p.prop.data

def build (p : StateProperty) (classCode : Nat) : Except Failure (Option EntityDefinition) := do
  buildEntityFromProperty classCode (← parseMraProperty p.prop p.definitions)

end StateProperty

/-- The key of a state is its name, unless a pair of states was recognised as a boolean. -/
def KeyOf (name key : String) : Prop :=
  key = name ∨ (∃ other, (name,other) ∈ booleanEnumKeyNormalizations ∧ key = "true") ∨
    ∃ other, (other,name) ∈ booleanEnumKeyNormalizations ∧ key = "false"

/-- What the codec of an entity exchanges for a key. -/
def keyValue (entity : EntityDefinition) (key : String) : Value :=
  if entity.isBinary then .bool (decide (key = "true")) else .text key

/-- Every entry is encoded to its EDT and decoded from it, and all other EDTs of the size are unknown. -/
structure RoundTrips (p : StateProperty) (entity : EntityDefinition) (codec : PropertyCodec) : Prop where
  entries : List.Forall₂ (fun item state => ∃ name edt, item.name = some name ∧ hexInt item.edt = .ok edt ∧
    KeyOf name state.key ∧ (entity.isBinary = false → state.key = name) ∧ ∀ arithmetic context,
      codec.encode arithmetic (keyValue entity state.key) = .ok (BigEndian.digits p.size edt) ∧
      codec.decode arithmetic context (BigEndian.digits p.size edt) = .ok (keyValue entity state.key))
    p.entries entity.enumValues
  others : ∀ edt : Bytes, edt.length = p.size →
    (∀ item ∈ p.entries, hexInt item.edt ≠ .ok (fromBytes edt)) →
    ∀ arithmetic context, codec.decode arithmetic context edt = .ok .none
  distinct : ∀ arithmetic context, ∀ item ∈ p.entries, ∀ item' ∈ p.entries, ∀ edt edt',
    hexInt item.edt = .ok edt → hexInt item'.edt = .ok edt' →
    codec.decode arithmetic context (BigEndian.digits p.size edt) =
      codec.decode arithmetic context (BigEndian.digits p.size edt') → edt = edt'

/-! ### What is parsed -/

/-- A state with the EDT and the name of an entry. -/
def Entered (item : EnumItem) (state : EnumValue) : Prop :=
  hexInt item.edt = .ok state.edt ∧ item.name = some state.key

/-- What becomes of an entry: nothing of a range, or else a state. -/
def Entry (item : EnumItem) (result : Option EnumValue) : Prop :=
  (isRange item.edt = true ∧ result = none) ∨
    (isRange item.edt = false ∧ ∃ state, result = some state ∧ Entered item state)

theorem propertyState_entry {item : EnumItem} {result : Option EnumValue} (h : propertyState item = .ok result) :
    Entry item result := by
  obtain ⟨name,hname,h⟩ := bind_eq_ok.mp h
  cases hrange : isRange item.edt with
  | true =>
    rw [hrange] at h
    cases h
    exact Or.inl ⟨hrange,rfl⟩
  | false =>
    rw [hrange] at h
    obtain ⟨edt,hedt,h⟩ := bind_eq_ok.mp h
    obtain ⟨descriptions,_,h⟩ := bind_eq_ok.mp h
    cases h
    exact Or.inr ⟨hrange,_,rfl,hedt,required_eq_ok.mp hname⟩

theorem entered_items {items : List EnumItem} {results : List (Option EnumValue)}
    (h : List.Forall₂ Entry items results) :
    List.Forall₂ Entered (items.filter fun item => !isRange item.edt) (results.filterMap id) := by
  induction h with
  | nil => exact .nil
  | cons hhead _ ih =>
    rcases hhead with ⟨hrange,rfl⟩ | ⟨hrange,state,rfl,hentered⟩
    · simpa [hrange] using ih
    · simpa [hrange] using ⟨hentered,ih⟩

/-- States alone are no levels, and keep the order of the entries. -/
theorem entered_specs {specs : List Spec} {results : List (List EnumValue × Bool)}
    (hstate : ∀ spec ∈ specs, spec.type = some .state)
    (h : List.Forall₂ (fun spec result => specStates spec = .ok result) specs results) :
    results.any Prod.snd = false ∧
      List.Forall₂ Entered ((specs.flatMap fun spec => spec.enum.getD []).filter fun item => !isRange item.edt)
        (results.flatMap Prod.fst) := by
  induction h with
  | nil => exact ⟨rfl,.nil⟩
  | @cons spec result specs results hhead _ ih =>
    obtain ⟨htype,hlater⟩ := List.forall_mem_cons.mp hstate
    obtain ⟨hlevels,hrest⟩ := ih hlater
    rw [specStates,htype] at hhead
    obtain ⟨states,hstates,he⟩ := bind_eq_ok.mp hhead
    cases he
    refine ⟨by simpa using hlevels,?_⟩
    rw [List.flatMap_cons,List.filter_append,List.flatMap_cons]
    exact List.rel_append (entered_items ((mapM_eq_ok.mp hstates).imp fun _ _ => propertyState_entry)) hrest

/-- What is parsed of a state property. -/
theorem parsed_states {p : StateProperty} {prop : MraProperty}
    (h : parseMraProperty p.prop p.definitions = .ok prop) :
    prop.dataType = .state ∧ prop.hasLevelEnums = false ∧
      List.Forall₂ Entered p.entries prop.enumValues := by
  obtain ⟨epc,_,h⟩ := bind_eq_ok.mp h
  split at h
  · cases h
  · next first others hspecs =>
    obtain ⟨type,htype,h⟩ := bind_eq_ok.mp h
    have hstates := p.states
    rw [hspecs] at hstates
    have hfirst := (hstates first List.mem_cons_self).1
    cases (required_eq_ok.mp htype).symm.trans hfirst
    obtain ⟨coefficientEpcs,_,h⟩ := bind_eq_ok.mp h
    obtain ⟨numericValues,_,h⟩ := bind_eq_ok.mp h
    obtain ⟨results,hresults,h⟩ := bind_eq_ok.mp h
    cases h
    have hspec := entered_specs (fun spec hspec => (hstates spec hspec).1) (mapM_eq_ok.mp hresults)
    refine ⟨by simp [hspec.1],hspec.1,?_⟩
    rw [StateProperty.entries,declaredStates,hspecs]
    exact hspec.2

/-! ### What is built -/

theorem built_states {classCode : Nat} {prop : MraProperty} {entity : EntityDefinition}
    (hstate : prop.dataType = .state) (h : buildEntityFromProperty classCode prop = .ok (some entity)) :
    (prop.enumValues.map EnumValue.key).Nodup ∧ prop.enumValues ≠ [] ∧ ∃ enumValues,
      normalizeTwoValueEnumKeys prop.enumValues classCode prop.epc none = .ok enumValues ∧
      entity = entityOf classCode prop enumValues := by
  simp only [buildEntityFromProperty,ite_error_eq_ok,ite_none_eq_some,hstate,decide_true,true_and] at h
  obtain ⟨_,_,_,hkeys,_,hstates,h⟩ := h
  obtain ⟨enumValues,hvalues,he⟩ := bind_eq_ok.mp h
  cases he
  rw [enumVals,hstate] at hvalues
  exact ⟨not_not.mp hkeys,hstates,enumValues,hvalues,rfl⟩

/-! ### Keys -/

theorem sameKeys_iff {first second : String} {pair : String × String} :
    sameKeys first second pair = true ↔
      first = pair.1 ∧ second = pair.2 ∨ first = pair.2 ∧ second = pair.1 := decide_eq_true_iff

theorem normalizations_ne : ∀ pair ∈ booleanEnumKeyNormalizations, pair.2 ≠ pair.1 := by decide

/-- The states keep their EDTs, and their keys either all stay or become `true` and `false`. -/
theorem normalized_keys {states normal : List EnumValue} {classCode : Nat} {epc : Epc}
    {manufacturerCode : Option Nat}
    (h : normalizeTwoValueEnumKeys states classCode epc manufacturerCode = .ok normal) :
    normal = states ∨ ∃ first second on off, states = [first,second] ∧
      (on,off) ∈ booleanEnumKeyNormalizations ∧ (first.key = on ∧ second.key = off ∧
          normal = [{first with key := "true"},{second with key := "false"}] ∨
        first.key = off ∧ second.key = on ∧
          normal = [{first with key := "false"},{second with key := "true"}]) := by
  unfold normalizeTwoValueEnumKeys at h
  split at h
  · next first second =>
    split at h
    · cases h
      exact Or.inl rfl
    · split at h
      · next on off hfound =>
        cases h
        have hmem := List.mem_of_find?_eq_some hfound
        have hne : off ≠ on := normalizations_ne (on,off) hmem
        right
        refine ⟨first,second,on,off,rfl,hmem,?_⟩
        rcases sameKeys_iff.mp (List.find?_some hfound) with ⟨hfirst,hsecond⟩ | ⟨hfirst,hsecond⟩
        · left
          simp [hfirst,hsecond,hne]
        · right
          simp [hfirst,hsecond,hne]
      · cases h
  · cases h
    exact Or.inl rfl

/-! ### One byte -/

variable {entity : EntityDefinition} {codec : PropertyCodec} {registry : Registry} {classCode' : Option Nat}

/-- An entity of states, read from the start of the EDT. -/
structure StateEntity (entity : EntityDefinition) : Prop where
  temporal : entity.temporal = none
  numericValues : entity.numericValues = none
  byteOffset : entity.byteOffset = 0
  states : entity.enumValues ≠ []

theorem StateEntity.getCodec_eq (h : StateEntity entity) : getCodec registry entity classCode =
    if entity.isBinary then do
      let (onEdt,offEdt) ← entity.getBinaryValues
      pure (.binary onEdt offEdt 0)
    else
      .ok (.enum (Dict.ofPairs (entity.enumValues.map fun ev => (ev.key,ev.edt)))
        (Dict.ofPairs (entity.enumValues.map fun ev => (ev.edt,ev.key))) 0) := by
  rw [getCodec,getCodecWith,h.temporal]
  simp only [h.numericValues,h.byteOffset,ne_eq,h.states,not_false_eq_true,if_true]

theorem length_singleByte {edt : Nat} {bytes : Bytes} (h : singleByte edt = .ok bytes) : bytes.length = 1 := by
  unfold singleByte at h
  split at h
  · cases h
    rfl
  · cases h

/-- A codec of states writes one byte. -/
theorem StateEntity.length_encode (h : StateEntity entity)
    (hcodec : getCodec registry entity classCode' = .ok codec) {arithmetic : Arithmetic} {value : Value}
    {bytes : Bytes} (hencode : codec.encode arithmetic value = .ok bytes) : bytes.length = 1 := by
  rw [h.getCodec_eq] at hcodec
  split at hcodec
  · obtain ⟨⟨onEdt,offEdt⟩,_,hcodec⟩ := bind_eq_ok.mp hcodec
    cases hcodec
    cases value with
    | bool b =>
      obtain ⟨_,_,hencode⟩ := bind_eq_ok.mp hencode
      exact length_singleByte hencode
    | none | number _ | text _ | bytes _ | temporal _ => cases hencode
  · cases hcodec
    cases value with
    | text key =>
      obtain ⟨_,_,hencode⟩ := bind_eq_ok.mp hencode
      split at hencode
      · exact length_singleByte hencode
      · cases hencode
    | none | number _ | bool _ | bytes _ | temporal _ => cases hencode

/-- The codec reads and writes the states, each as one byte. -/
structure Codes (entity : EntityDefinition) (codec : PropertyCodec) : Prop where
  encode : ∀ state ∈ entity.enumValues, ∀ arithmetic,
    codec.encode arithmetic (keyValue entity state.key) = .ok [UInt8.ofNat state.edt]
  decode : ∀ state ∈ entity.enumValues, ∀ arithmetic context,
    codec.decode arithmetic context [UInt8.ofNat state.edt] = .ok (keyValue entity state.key)
  others : ∀ byte : UInt8, (∀ state ∈ entity.enumValues, state.edt ≠ byte.toNat) → ∀ arithmetic context,
    codec.decode arithmetic context [byte] = .ok .none

theorem singleByte_of_lt {edt : Nat} (h : edt < 256) : singleByte edt = .ok [UInt8.ofNat edt] := if_pos h

theorem byte_ofNat {edt : Nat} (h : edt < 256) : PropertyCodec.byte 0 [UInt8.ofNat edt] = some edt := by
  simp [PropertyCodec.byte,Nat.mod_eq_of_lt h]

theorem codes_enum (hbinary : entity.isBinary = false) (hkeys : (entity.enumValues.map EnumValue.key).Nodup)
    (hedts : (entity.enumValues.map EnumValue.edt).Nodup)
    (hfit : ∀ state ∈ entity.enumValues, state.edt < 256) :
    Codes entity (.enum (Dict.ofPairs (entity.enumValues.map fun ev => (ev.key,ev.edt)))
      (Dict.ofPairs (entity.enumValues.map fun ev => (ev.edt,ev.key))) 0) := by
  have hvalue : ∀ key, keyValue entity key = .text key := fun key => if_neg (by simp [hbinary])
  have hbyKey : ((entity.enumValues.map fun ev => (ev.key,ev.edt)).map Prod.fst).Nodup := by
    rwa [List.map_map]
  have hbyEdt : ((entity.enumValues.map fun ev => (ev.edt,ev.key)).map Prod.fst).Nodup := by
    rwa [List.map_map]
  rw [Dict.ofPairs_eq_self hbyKey,Dict.ofPairs_eq_self hbyEdt]
  constructor
  · intro state hstate arithmetic
    have hget := (Dict.get_eq_some hbyKey).mpr (List.mem_map_of_mem hstate)
    rw [hvalue,PropertyCodec.encode,hget]
    exact singleByte_of_lt (hfit state hstate)
  · intro state hstate arithmetic context
    have hget := (Dict.get_eq_some hbyEdt).mpr (List.mem_map_of_mem hstate)
    rw [hvalue,PropertyCodec.decode,byte_ofNat (hfit state hstate),Option.bind_some,hget]
    rfl
  · intro byte hothers arithmetic context
    have hnone : byte.toNat ∉ (entity.enumValues.map fun ev => (ev.edt,ev.key)).map Prod.fst := by
      rw [List.map_map]
      intro hmem
      obtain ⟨state,hstate,he⟩ := List.mem_map.mp hmem
      exact hothers state hstate he
    have hbyte : PropertyCodec.byte 0 [byte] = some byte.toNat := rfl
    rw [PropertyCodec.decode,hbyte,Option.bind_some,Dict.get_eq_none hnone]
    rfl

/-- The two states of a boolean. -/
theorem binary_states (h : entity.isBinary = true) : ∃ on off, on.key = "true" ∧ off.key = "false" ∧
    (entity.enumValues = [on,off] ∨ entity.enumValues = [off,on]) := by
  rw [EntityDefinition.isBinary] at h
  simp only [Bool.and_eq_true,decide_eq_true_eq] at h
  obtain ⟨⟨hlength,htrue⟩,hfalse⟩ := h
  obtain ⟨first,second,hstates⟩ := List.length_eq_two.mp hlength
  rw [hstates] at htrue hfalse ⊢
  rcases List.mem_pair.mp htrue with hfirst | hsecond
  · rcases List.mem_pair.mp hfalse with hfirst' | hsecond
    · exact absurd (hfirst.trans hfirst'.symm) (by decide)
    · exact ⟨first,second,hfirst.symm,hsecond.symm,Or.inl rfl⟩
  · rcases List.mem_pair.mp hfalse with hfirst | hsecond'
    · exact ⟨second,first,hsecond.symm,hfirst.symm,Or.inr rfl⟩
    · exact absurd (hsecond.trans hsecond'.symm) (by decide)

theorem codes_binary {on off : EnumValue} (hon : on.key = "true") (hoff : off.key = "false")
    (hstates : entity.enumValues = [on,off] ∨ entity.enumValues = [off,on]) (hne : on.edt ≠ off.edt)
    (hfit : on.edt < 256 ∧ off.edt < 256) :
    entity.getBinaryValues = .ok (on.edt,off.edt) ∧ Codes entity (.binary on.edt off.edt 0) := by
  have hmem : ∀ state, state ∈ entity.enumValues ↔ state = on ∨ state = off := by
    intro state
    rcases hstates with he | he <;> simp [he,or_comm]
  have hbinary : entity.isBinary = true := by
    rcases hstates with he | he <;> simp [EntityDefinition.isBinary,he,hon,hoff]
  have hvalue : keyValue entity on.key = .bool true ∧ keyValue entity off.key = .bool false := by
    simp [keyValue,hbinary,hon,hoff]
  constructor
  · have hvalues : Dict.get "true" (Dict.ofPairs (entity.enumValues.map fun v => (v.key,v.edt))) = some on.edt ∧
        Dict.get "false" (Dict.ofPairs (entity.enumValues.map fun v => (v.key,v.edt))) = some off.edt := by
      rcases hstates with he | he <;> simp [he,Dict.ofPairs,Dict.insert,Dict.get,hon,hoff]
    have hlength : entity.enumValues.length = 2 := by
      rcases hstates with he | he <;> rw [he] <;> rfl
    simp only [EntityDefinition.getBinaryValues,hvalues.1,hvalues.2,hlength,decide_true,
      singleByte_of_lt hfit.1,singleByte_of_lt hfit.2]
    rfl
  constructor
  · intro state hstate arithmetic
    rcases (hmem state).mp hstate with rfl | rfl
    · rw [hvalue.1]
      exact singleByte_of_lt hfit.1
    · rw [hvalue.2]
      exact singleByte_of_lt hfit.2
  · intro state hstate arithmetic context
    rcases (hmem state).mp hstate with rfl | rfl
    · rw [hvalue.1,PropertyCodec.decode,byte_ofNat hfit.1]
      simp
    · rw [hvalue.2,PropertyCodec.decode,byte_ofNat hfit.2]
      simp [hne.symm]
  · intro byte hothers arithmetic context
    have hbyte : PropertyCodec.byte 0 [byte] = some byte.toNat := rfl
    have hon' := hothers on ((hmem on).mpr (Or.inl rfl))
    have hoff' := hothers off ((hmem off).mpr (Or.inr rfl))
    rw [PropertyCodec.decode,hbyte]
    simp [hon'.symm,hoff'.symm]

/-- The codec of a state entity whose states fit in a byte. -/
theorem StateEntity.codes (h : StateEntity entity) (hkeys : (entity.enumValues.map EnumValue.key).Nodup)
    (hedts : (entity.enumValues.map EnumValue.edt).Nodup)
    (hfit : ∀ state ∈ entity.enumValues, state.edt < 256) :
    ∃ codec, getCodec registry entity classCode' = .ok codec ∧ Codes entity codec := by
  rw [h.getCodec_eq]
  cases hbinary : entity.isBinary with
  | false => exact ⟨_,rfl,codes_enum hbinary hkeys hedts hfit⟩
  | true =>
    obtain ⟨on,off,hon,hoff,hstates⟩ := binary_states hbinary
    have hne : on.edt ≠ off.edt := by
      rcases hstates with he | he <;> rw [he] at hedts <;> simp at hedts
      · exact hedts
      · exact Ne.symm hedts
    have hboth : on.edt < 256 ∧ off.edt < 256 := by
      rcases hstates with he | he <;> rw [he] at hfit <;> simp at hfit
      · exact hfit
      · exact hfit.symm
    obtain ⟨hvalues,hcodes⟩ := codes_binary hon hoff hstates hne hboth
    exact ⟨_,by rw [hvalues]; rfl,hcodes⟩

/-! ### Round trips -/

/-- A state of an entity that stands for an entry. -/
def Stands (entity : EntityDefinition) (item : EnumItem) (state : EnumValue) : Prop :=
  ∃ name, item.name = some name ∧ hexInt item.edt = .ok state.edt ∧ KeyOf name state.key ∧
    (entity.isBinary = false → state.key = name)

theorem built {p : StateProperty} {classCode : Nat} (h : p.build classCode = .ok (some entity)) :
    StateEntity entity ∧ (entity.enumValues.map EnumValue.key).Nodup ∧
      List.Forall₂ (Stands entity) p.entries entity.enumValues := by
  obtain ⟨prop,hparse,hbuild⟩ := bind_eq_ok.mp h
  obtain ⟨hstate,_,hentered⟩ := parsed_states hparse
  obtain ⟨hkeys,hstates,normal,hnormal,rfl⟩ := built_states hstate hbuild
  rcases normalized_keys hnormal with rfl | ⟨first,second,on,off,hpair,hmem,hnames⟩
  · refine ⟨⟨rfl,by simp [entityOf,hstate],rfl,hstates⟩,hkeys,hentered.imp ?_⟩
    rintro item state ⟨hedt,hname⟩
    exact ⟨state.key,hname,hedt,Or.inl rfl,fun _ => rfl⟩
  · rw [hpair,List.forall₂_cons_right_iff] at hentered
    obtain ⟨item,others,⟨hedt,hname⟩,hrest,hentries⟩ := hentered
    obtain ⟨item',others',⟨hedt',hname'⟩,hnil,rfl⟩ := List.forall₂_cons_right_iff.mp hrest
    cases List.forall₂_nil_right_iff.mp hnil
    rw [hentries]
    rcases hnames with ⟨hon,hoff,rfl⟩ | ⟨hoff,hon,rfl⟩
    · refine ⟨⟨rfl,by simp [entityOf,hstate],rfl,nofun⟩,by simp [entityOf],.cons ?_ (.cons ?_ .nil)⟩
      · exact ⟨on,hon ▸ hname,hedt,Or.inr (Or.inl ⟨off,hmem,rfl⟩),nofun⟩
      · exact ⟨off,hoff ▸ hname',hedt',Or.inr (Or.inr ⟨on,hmem,rfl⟩),nofun⟩
    · refine ⟨⟨rfl,by simp [entityOf,hstate],rfl,nofun⟩,by simp [entityOf],.cons ?_ (.cons ?_ .nil)⟩
      · exact ⟨off,hoff ▸ hname,hedt,Or.inr (Or.inr ⟨on,hmem,rfl⟩),nofun⟩
      · exact ⟨on,hon ▸ hname',hedt',Or.inr (Or.inl ⟨off,hmem,rfl⟩),nofun⟩

theorem edts_nodup {p : StateProperty} (h : List.Forall₂ (Stands entity) p.entries entity.enumValues) :
    (entity.enumValues.map EnumValue.edt).Nodup := by
  have hmap : p.entries.map (fun item => hexInt item.edt) =
      (entity.enumValues.map EnumValue.edt).map Except.ok := by
    rw [List.map_map,← List.forall₂_eq_eq_eq,List.forall₂_map_left_iff,List.forall₂_map_right_iff]
    exact h.imp fun item state ⟨_,_,hedt,_⟩ => hedt
  have hnodup := p.edts
  rw [← StateProperty.entries,hmap] at hnodup
  exact hnodup.of_map _

theorem keyValue_inj {state state' : EnumValue} (hmem : state ∈ entity.enumValues)
    (hmem' : state' ∈ entity.enumValues) (h : keyValue entity state.key = keyValue entity state'.key) :
    state.key = state'.key := by
  cases hbinary : entity.isBinary with
  | false => simpa [keyValue,hbinary] using h
  | true =>
    have hbool : state.key = "true" ↔ state'.key = "true" := by simpa [keyValue,hbinary] using h
    have hkeys : ∀ s ∈ entity.enumValues, s.key = "true" ∨ s.key = "false" := by
      obtain ⟨on,off,hon,hoff,hstates⟩ := binary_states hbinary
      intro s hs
      rcases hstates with he | he <;> rw [he] at hs <;> rcases List.mem_pair.mp hs with rfl | rfl <;>
        simp [hon,hoff]
    rcases hkeys state hmem with he | he
    · rw [he,hbool.mp he]
    · rcases hkeys state' hmem' with he' | he'
      · exact absurd (he.symm.trans (hbool.mpr he')) (by decide)
      · rw [he,he']

/-- What is written is one byte, whatever the size. -/
theorem size_of_roundTrips {p : StateProperty} {classCode : Nat} (h : p.build classCode = .ok (some entity))
    (hcodec : getCodec registry entity classCode' = .ok codec) (hround : RoundTrips p entity codec) :
    p.size = 1 := by
  obtain ⟨hentity,_,_⟩ := built h
  obtain ⟨state,states,hstates⟩ := List.exists_cons_of_ne_nil hentity.states
  have hentries := hround.entries
  rw [hstates,List.forall₂_cons_right_iff] at hentries
  obtain ⟨item,_,⟨name,edt,_,_,_,_,hcode⟩,_,_⟩ := hentries
  have hlength := hentity.length_encode hcodec (hcode .exact none).1
  rwa [BigEndian.length_digits] at hlength

/-- States round-trip exactly if they take one byte. -/
theorem roundTrips_iff (p : StateProperty) (classCode : Nat) (entity : EntityDefinition)
    (registry : Registry) (classCode' : Option Nat) (h : p.build classCode = .ok (some entity)) :
    (∃ codec, getCodec registry entity classCode' = .ok codec ∧ RoundTrips p entity codec) ↔ p.size = 1 := by
  obtain ⟨hentity,hkeys,hstands⟩ := built h
  constructor
  · rintro ⟨codec,hcodec,hround⟩
    exact size_of_roundTrips h hcodec hround
  · intro hsize
    have hitem : ∀ state ∈ entity.enumValues, ∃ item ∈ p.entries, Stands entity item state := by
      intro state hstate
      obtain ⟨item,hzip,hstand⟩ := exists_mem_zip hstands.flip hstate
      exact ⟨item,(List.of_mem_zip hzip).2,hstand⟩
    have hfit : ∀ state ∈ entity.enumValues, state.edt < 256 := by
      intro state hstate
      obtain ⟨item,hmem,_,_,hedt,_⟩ := hitem state hstate
      simpa [hsize] using p.fit item hmem state.edt hedt
    obtain ⟨codec,hcodec,hcodes⟩ := @StateEntity.codes _ registry classCode' hentity hkeys (edts_nodup hstands) hfit
    have hdigits : ∀ edt, BigEndian.digits p.size edt = [UInt8.ofNat edt] := fun edt => by
      rw [hsize]
      rfl
    refine ⟨codec,hcodec,⟨?_,?_,?_⟩⟩
    · refine List.forall₂_iff_zip.mpr ⟨hstands.length_eq,fun {item state} hzip => ?_⟩
      obtain ⟨name,hname,hedt,hkey,hplain⟩ := List.forall₂_zip hstands hzip
      have hstate := (List.of_mem_zip hzip).2
      refine ⟨name,state.edt,hname,hedt,hkey,hplain,fun arithmetic context => ?_⟩
      rw [hdigits]
      exact ⟨hcodes.encode state hstate arithmetic,hcodes.decode state hstate arithmetic context⟩
    · intro edt hlength hothers arithmetic context
      rw [hsize] at hlength
      obtain ⟨byte,rfl⟩ := List.length_eq_one_iff.mp hlength
      apply hcodes.others byte
      intro state hstate he
      obtain ⟨item,hmem,_,_,hedt,_⟩ := hitem state hstate
      have hbyte : fromBytes [byte] = byte.toNat := by simp [fromBytes,BigEndian.value]
      exact hothers item hmem (by rw [hedt,hbyte,he])
    · intro arithmetic context item hmem item' hmem' edt edt' hedt hedt' hsame
      obtain ⟨state,hzip,_,_,hedt₁,_⟩ := exists_mem_zip hstands hmem
      obtain ⟨state',hzip',_,_,hedt₂,_⟩ := exists_mem_zip hstands hmem'
      cases hedt.symm.trans hedt₁
      cases hedt'.symm.trans hedt₂
      have hstate := (List.of_mem_zip hzip).2
      have hstate' := (List.of_mem_zip hzip').2
      rw [hdigits,hdigits,hcodes.decode state hstate,hcodes.decode state' hstate',Except.ok.injEq] at hsame
      have hkey := keyValue_inj hstate hstate' hsame
      rw [List.inj_on_of_nodup_map hkeys hstate hstate' hkey]

/-! ### Two properties -/

/-- A state of the MRA with the names `name`. -/
def stateItem (edt name : String) : EnumItem := ⟨edt,some name,some (name,name),none⟩

def stateData (epc : String) (size : Nat) (enum : List EnumItem) : PropertyData :=
  ⟨epc,("State",""),("",""),.required,.other "notApplicable",{type := some .state, size, enum}⟩

theorem fit_of_all {items : List EnumItem} {bound : Nat}
    (h : (items.all fun item => (hexInt item.edt).toOption.all fun edt => decide (edt < bound)) = true) :
    ∀ item ∈ items, ∀ edt, hexInt item.edt = .ok edt → edt < bound := by
  intro item hitem edt hedt
  simpa [hedt,Except.toOption] using List.all_eq_true.mp h item hitem

/-- An operation status of one byte. -/
def statusProperty : StateProperty where
  definitions := fun _ => none
  prop := stateData "0x80" 1 [stateItem "0x30" "on",stateItem "0x31" "off"]
  size := 1
  pos := by decide
  states := by decide
  names := by decide
  edts := by decide
  fit := fit_of_all (by decide)

theorem roundTrips_status : ∃ entity codec, statusProperty.build 0x0130 = .ok (some entity) ∧
    getCodec ⟨fun _ => []⟩ entity none = .ok codec ∧ RoundTrips statusProperty entity codec := by
  have hbuilt : ∃ entity, statusProperty.build 0x0130 = .ok (some entity) := ⟨_,rfl⟩
  obtain ⟨entity,hentity⟩ := hbuilt
  obtain ⟨codec,hcodec⟩ := (roundTrips_iff statusProperty 0x0130 entity ⟨fun _ => []⟩ none hentity).mpr rfl
  exact ⟨entity,codec,hentity,hcodec⟩

/-- A fault description of two bytes. -/
def faultProperty : StateProperty where
  definitions := fun _ => none
  prop := stateData "0x89" 2
    [stateItem "0x0000" "noFault",stateItem "0x0001" "trunOffOrUnplug",stateItem "0x0014...0x001D" "switch",
      stateItem "0x03FF" "fault"]
  size := 2
  pos := by decide
  states := by decide
  names := by decide
  edts := by decide
  fit := fit_of_all (by decide)

/-- Two bytes are written as one. -/
theorem fault_not_roundTrip :
    ¬ ∀ (p : StateProperty) classCode entity registry classCode', p.build classCode = .ok (some entity) →
      ∃ codec, getCodec registry entity classCode' = .ok codec ∧ RoundTrips p entity codec := by
  intro h
  have hbuilt : ∃ entity, faultProperty.build 0x0130 = .ok (some entity) := ⟨_,rfl⟩
  obtain ⟨entity,hentity⟩ := hbuilt
  obtain ⟨codec,hcodec,hround⟩ := h faultProperty 0x0130 entity ⟨fun _ => []⟩ none hentity
  exact absurd (size_of_roundTrips hentity hcodec hround) (by decide)

end Pyhems.Generator

import Pyhems.Generator.Patches
import Pyhems.Generator.RoundTrip

/-! What a definition becomes. The entity has coordinates of its own kind, states that a byte can tell apart or a
format that is known, and limits that a number can meet. -/
namespace Pyhems.Generator
open Library Codec Fallible
open Get (Epc)

/-! ### Coordinates -/

/-- The EPC is one that manufacturers define for themselves. -/
def OfManufacturer (classCode : Nat) (epc : Epc) : Prop := classCode/256 = 0x0F ∨ 0xF0 ≤ epc

/-- Where a definition may be. -/
structure Admissible (classCode : Nat) (entity : EntityDefinition) : Prop where
  epc : 0x80 ≤ entity.epc ∧ entity.epc ≤ 0xFF
  byteOffset : entity.byteOffset ≤ 0xFF
  manufacturer : ∀ code ∈ entity.manufacturerCode, code ≤ 0xFFFFFF
  scope : entity.manufacturerCode ≠ none ↔ OfManufacturer classCode entity.epc

section Fields
variable {classCode : Nat} {entry : PropertyEntry}

theorem le_of_validateCode {value : Option Scalar} {maximum n : Nat} {field : String}
    (h : validateCode value maximum field classCode entry = .ok n) : n ≤ maximum := by
  unfold validateCode at h
  split at h
  · split at h
    · next hle =>
      cases h
      exact hle
    · cases h
  · cases h

theorem le_of_manufacturerField {manufacturerCode : Option Nat}
    (h : manufacturerField classCode entry = .ok manufacturerCode) : ∀ code ∈ manufacturerCode, code ≤ 0xFFFFFF := by
  rw [manufacturerField] at h
  split at h
  · cases h
    exact fun _ hcode => by cases hcode
  · obtain ⟨code,hcode,h⟩ := bind_eq_ok.mp h
    cases h
    intro other hother
    cases hother
    exact le_of_validateCode hcode

/-- The manufacturer of a valid entry is there exactly if its EPC is one for manufacturers. -/
theorem scope_of_validate {epc : Epc} {manufacturerCode : Option Nat}
    (h : validateCustomProperty classCode entry = .ok (epc,manufacturerCode)) :
    (0x80 ≤ epc ∧ epc ≤ 0xFF) ∧ (∀ code ∈ manufacturerCode, code ≤ 0xFFFFFF) ∧
      (manufacturerCode ≠ none ↔ OfManufacturer classCode epc) := by
  obtain ⟨epc,hepc,h⟩ := bind_eq_ok.mp h
  obtain ⟨manufacturerCode,hmanufacturer,h⟩ := bind_eq_ok.mp h
  obtain ⟨hlow,h⟩ := ite_error_eq_ok.mp h
  obtain ⟨hmissing,h⟩ := ite_error_eq_ok.mp h
  obtain ⟨hextra,h⟩ := ite_error_eq_ok.mp h
  cases h
  rw [decide_eq_true_iff] at hmissing hextra
  refine ⟨⟨Nat.not_lt.mp hlow,le_of_validateCode hepc⟩,le_of_manufacturerField hmanufacturer,?_⟩
  constructor
  · intro hsome
    by_contra hnot
    exact hextra ⟨hnot,hsome⟩
  · exact fun hrequired hnone => hmissing ⟨hrequired,hnone⟩

/-! ### Numbers -/

theorem formatField_eq_ok {value : Option Scalar} {format : Option String}
    (h : formatField value classCode entry = .ok format) :
    (∀ text ∈ format, text ∈ numericFormats) ∧ (value ≠ none → format ≠ none) := by
  unfold formatField at h
  split at h
  · cases h
    exact ⟨fun _ htext => (by cases htext),fun hsome => absurd rfl hsome⟩
  · split at h
    · next hmem =>
      cases h
      exact ⟨fun _ htext => (by cases htext; exact hmem),fun _ => Option.some_ne_none _⟩
    · cases h
  · cases h
  · cases h

theorem valid_of_validateNumbers {fields : NumericFields}
    (h : validateNumbers fields classCode entry = .ok ()) : fields.Valid := by
  have hstep : ∀ multipleOf : Option ℚ, ¬ multipleOf.any (· ≤ 0) → ∀ step ∈ multipleOf, 0 < step := by
    intro multipleOf hnot step hstep
    rw [Option.mem_def.mp hstep] at hnot
    simpa using hnot
  obtain ⟨format,minimum,maximum,multipleOf⟩ := fields
  unfold validateNumbers at h
  dsimp only at h
  split at h
  · obtain ⟨hordered,h⟩ := ite_error_eq_ok.mp h
    obtain ⟨hpositive,_⟩ := ite_error_eq_ok.mp h
    refine ⟨?_,hstep _ hpositive⟩
    intro least hleast greatest hgreatest
    cases hleast
    cases hgreatest
    exact not_lt.mp hordered
  · next hmissing =>
    obtain ⟨hpositive,_⟩ := ite_error_eq_ok.mp h
    refine ⟨?_,hstep _ hpositive⟩
    intro least hleast greatest hgreatest
    exact (hmissing least greatest hleast hgreatest).elim

/-- The numbers of an entry that is accepted. -/
theorem valid_of_validateNumericFields {fields : NumericFields}
    (h : validateNumericFields classCode entry = .ok fields) :
    fields.Valid ∧ (∀ text ∈ fields.format, text ∈ numericFormats) ∧ (entry.format ≠ none → fields.format ≠ none) := by
  obtain ⟨format,hformat,h⟩ := bind_eq_ok.mp h
  obtain ⟨minimum,_,h⟩ := bind_eq_ok.mp h
  obtain ⟨maximum,_,h⟩ := bind_eq_ok.mp h
  obtain ⟨multipleOf,_,h⟩ := bind_eq_ok.mp h
  obtain ⟨_,hnumbers,h⟩ := bind_eq_ok.mp h
  cases h
  exact ⟨valid_of_validateNumbers hnumbers,formatField_eq_ok hformat⟩

/-! ### States -/

/-- States that the codecs of enums can tell apart in one byte. -/
structure States (states : List EnumValue) : Prop where
  keys : (states.map EnumValue.key).Nodup
  edts : (states.map EnumValue.edt).Nodup
  fit : ∀ state ∈ states, state.edt < 256

theorem states_nil : States [] where
  keys := List.nodup_nil
  edts := List.nodup_nil
  fit := List.forall_mem_nil _

theorem states_step {values values' : List EnumValue} {value : Option EnumEntry} (h : States values)
    (hstep : buildEnumValue classCode entry values value = .ok values') :
    States values' ∧ values'.length = values.length+1 := by
  unfold buildEnumValue at hstep
  split at hstep
  · obtain ⟨edt,hedt,hstep⟩ := bind_eq_ok.mp hstep
    split at hstep
    · cases hstep
    next key _ =>
    obtain ⟨hnew,hstep⟩ := ite_error_eq_ok.mp hstep
    obtain ⟨_,hstep⟩ := ite_error_eq_ok.mp hstep
    cases hstep
    obtain ⟨hkey,hother⟩ := not_or.mp hnew
    refine ⟨⟨?_,?_,?_⟩,List.length_append⟩
    · rw [List.map_append]
      exact h.keys.append (List.nodup_singleton _) (List.disjoint_singleton.mpr hkey)
    · rw [List.map_append]
      exact h.edts.append (List.nodup_singleton _) (List.disjoint_singleton.mpr hother)
    · exact List.forall_mem_append.mpr
        ⟨h.fit,List.forall_mem_singleton.mpr (Nat.lt_succ_of_le (le_of_validateCode hedt))⟩
  · cases hstep

theorem states_of_build {values : List (Option EnumEntry)} {enumValues : List EnumValue}
    (h : values.foldlM (buildEnumValue classCode entry) [] = .ok enumValues) :
    States enumValues ∧ enumValues.length = values.length := by
  have hinv := foldlM_invariant (fun rest states => States states ∧ states.length+rest.length = values.length)
    ?_ ⟨states_nil,Nat.zero_add _⟩ h
  · exact hinv
  · rintro value rest states states' ⟨hstates,hlength⟩ hstep
    obtain ⟨hstates',hlength'⟩ := states_step hstates hstep
    rw [List.length_cons] at hlength
    exact ⟨hstates',by omega⟩

theorem states_of_normalize {states normal : List EnumValue} {epc : Epc} {manufacturerCode : Option Nat}
    (h : normalizeTwoValueEnumKeys states classCode epc manufacturerCode = .ok normal) (hstates : States states) :
    States normal ∧ normal.length = states.length := by
  obtain rfl | ⟨first,second,on,off,rfl,_,⟨_,_,rfl⟩ | ⟨_,_,rfl⟩⟩ := normalized_keys h
  · exact ⟨hstates,rfl⟩
  · exact ⟨⟨(by decide : ["true","false"].Nodup),hstates.edts,by simpa using hstates.fit⟩,rfl⟩
  · exact ⟨⟨(by decide : ["false","true"].Nodup),hstates.edts,by simpa using hstates.fit⟩,rfl⟩

/-! ### Entities -/

/-- A definition without states has a format. -/
theorem format_of_enumField {values : List (Option EnumEntry)} (h : enumField classCode entry = .ok values) :
    values = [] → entry.format ≠ none := by
  rintro rfl
  unfold enumField at h
  obtain ⟨htruthy,h⟩ := ite_error_eq_ok.mp h
  split at h
  · next values heq =>
    cases h
    rw [heq] at htruthy
    simpa using htruthy
  · cases h
  · next hlist hother =>
    cases hvalues : entry.enumValues with
    | none => simpa [hvalues] using htruthy
    | some values =>
      cases values with
      | null => simpa [hvalues] using htruthy
      | entries values => exact absurd hvalues (hlist values)
      | other truthy => exact absurd hvalues (hother truthy)

end Fields

/-- What holds of an entity that was defined. -/
structure Defined (classCode : Nat) (entity : EntityDefinition) : Prop extends Admissible classCode entity where
  id : entity.id = entityId classCode entity.epc entity.manufacturerCode entity.byteOffset
  temporal : entity.temporal = none
  numericValues : entity.numericValues = none
  coefficientEpcs : entity.coefficientEpcs = none
  states : States entity.enumValues
  format : entity.enumValues = [] → ∃ format ∈ numericFormats, entity.format = some format
  ordered : ∀ least ∈ entity.minimum, ∀ greatest ∈ entity.maximum, least ≤ greatest
  scale : 0 < entity.multipleOf

/-- A definition that is accepted has its own coordinates and all that its codec needs. -/
theorem defined_of_build {classCode : Nat} {entry : PropertyEntry} {entity : BuildEntity} {epc : Epc}
    {manufacturerCode : Option Nat} {byteOffset : Nat}
    (hplace : validateCustomProperty classCode entry = .ok (epc,manufacturerCode))
    (hoffset : validateCode (entry.byteOffset <|> some (.int 0)) 0xFF "byte_offset" classCode entry = .ok byteOffset)
    (h : buildCustomEntity classCode entry = .ok entity) :
    coordinates entity.toEntityDefinition = (epc,byteOffset,manufacturerCode) ∧
      Defined classCode entity.toEntityDefinition := by
  obtain ⟨hepc,hmanufacturer,hscope⟩ := scope_of_validate hplace
  obtain ⟨_,h⟩ := ite_error_eq_ok.mp h
  obtain ⟨_,hplace',h⟩ := bind_eq_ok.mp h
  cases hplace.symm.trans hplace'
  obtain ⟨_,hoffset',h⟩ := bind_eq_ok.mp h
  cases hoffset.symm.trans hoffset'
  obtain ⟨nameEn,_,h⟩ := bind_eq_ok.mp h
  obtain ⟨nameJa,_,h⟩ := bind_eq_ok.mp h
  obtain ⟨get,_,h⟩ := bind_eq_ok.mp h
  obtain ⟨set,_,h⟩ := bind_eq_ok.mp h
  obtain ⟨values,hvalues,h⟩ := bind_eq_ok.mp h
  obtain ⟨fields,hfields,h⟩ := bind_eq_ok.mp h
  obtain ⟨enumValues,hstates,h⟩ := bind_eq_ok.mp h
  obtain ⟨role,_,h⟩ := bind_eq_ok.mp h
  obtain ⟨normalized,hnormalized,h⟩ := bind_eq_ok.mp h
  cases h
  obtain ⟨hbuilt,hlength⟩ := states_of_build hstates
  obtain ⟨hnormal,hlength'⟩ := states_of_normalize hnormalized hbuilt
  obtain ⟨hvalid,hformats,hformat⟩ := valid_of_validateNumericFields hfields
  refine ⟨rfl,⟨hepc,le_of_validateCode hoffset,hmanufacturer,hscope⟩,rfl,rfl,rfl,rfl,hnormal,?_,?_,?_⟩
  · intro (hnone : normalized = [])
    have hzero : values.length = 0 := by rw [← hlength,← hlength',hnone,List.length_nil]
    have hempty : enumValues = [] := List.eq_nil_of_length_eq_zero (hlength.trans hzero)
    obtain ⟨format,heq⟩ := Option.ne_none_iff_exists'.mp
      (hformat (format_of_enumField hvalues (List.eq_nil_of_length_eq_zero hzero)))
    refine ⟨format,hformats format heq,?_⟩
    simp only [hempty,decide_true,if_true,heq]
  · intro least hleast greatest hgreatest
    by_cases hempty : enumValues = []
    · simp only [hempty,decide_true,if_true] at hleast hgreatest
      exact hvalid.ordered least hleast greatest hgreatest
    · simp only [hempty,decide_false,Bool.false_eq_true,if_false] at hleast
      cases hleast
  · by_cases hempty : enumValues = []
    · simp only [hempty,decide_true,if_true]
      cases hstep : fields.multipleOf with
      | none => exact one_pos
      | some step => exact hvalid.step step hstep
    · simp only [hempty,decide_false,Bool.false_eq_true,if_false]
      exact one_pos

end Pyhems.Generator

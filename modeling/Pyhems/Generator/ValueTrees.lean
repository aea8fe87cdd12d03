import Pyhems.Generator.Pipeline

/-! Value trees. A property has one only if no entity represents it, whether of the class, shared or defined. -/
namespace Pyhems.Generator
open Library Codec Fallible
open Get (Epc)

/-- A property with a value tree has no entity, and the shared ones do not represent it. -/
theorem Sources.structured_of_deviceProperty {sources : Sources} {prop : MraEntry} {built : Built} {classCode : Nat}
    {common atomicPairedEpcs : List Epc} (h : sources.deviceProperty classCode common atomicPairedEpcs prop = .ok built)
    {epc : Epc} {value : PropertyValueDefinition} (hvalue : built.structured = some (epc,value)) :
    hexInt prop.epc = .ok epc ∧ built.entities = [] ∧ epc ∉ common := by
  obtain ⟨place,hplace,hbecomes⟩ := becomes_of_deviceProperty h
  cases hbecomes with
  | tree _ hcommon =>
    cases hvalue
    exact ⟨hplace,rfl,hcommon⟩
  | _ => cases hvalue

/-- What a property of an EPC becomes. -/
structure Represents (common : List Epc) (epc : Epc) (built : Built) : Prop where
  entities : ∀ entity ∈ built.definitions, entity.epc = epc
  structured : ∀ place value, built.structured = some (place,value) →
    place = epc ∧ built.entities = [] ∧ epc ∉ common

/-- The value trees of properties that are different. -/
theorem tree_of_properties {common epcs : List Epc} {properties : List Built} (hnodup : epcs.Nodup)
    (h : List.Forall₂ (Represents common) epcs properties) {built : Built} (hbuilt : built ∈ properties) {place : Epc}
    {value : PropertyValueDefinition} (hvalue : built.structured = some (place,value)) :
    place ∈ epcs ∧ place ∉ common ∧ ∀ entity ∈ definitionsOf (properties.flatMap Built.entities), entity.epc ≠ place := by
  obtain ⟨i,hi,rfl⟩ := List.getElem_of_mem hbuilt
  have hi' : i < epcs.length := by rwa [h.length_eq]
  obtain ⟨rfl,hempty,hcommon⟩ := (h.get hi' hi).structured place value hvalue
  refine ⟨List.getElem_mem hi',hcommon,?_⟩
  rintro entity hentity hepc
  obtain ⟨owned,howned,rfl⟩ := List.mem_map.mp hentity
  obtain ⟨other,hother,howned⟩ := List.mem_flatMap.mp howned
  obtain ⟨j,hj,rfl⟩ := List.getElem_of_mem hother
  have hj' : j < epcs.length := by rwa [h.length_eq]
  have hsame := (h.get hj' hj).entities _ (List.mem_map_of_mem howned)
  -- the entity and the tree have one EPC, so that they come from one property
  have hindex : j = i := hnodup.getElem_inj_iff.mp (hsame.symm.trans hepc)
  subst hindex
  rw [List.get_eq_getElem] at hempty
  rw [hempty] at howned
  cases howned

/-! ### The generated module -/

theorem Sources.deviceBuild_tree {sources : Sources} {common : List Epc} {file : DeviceFile}
    {built : DeviceBuild × List Epc × List (Nat × Epc)} (hfile : DistinctEpcs file.elProperties)
    (h : sources.deviceBuild common file = .ok built) {place : Epc}
    (hplace : place ∈ built.1.structuredValues.map Prod.fst) :
    place ∈ built.2.1 ∧ place ∉ common ∧ ∀ entity ∈ definitionsOf built.1.entities, entity.epc ≠ place := by
  obtain ⟨epcs,_,properties,hepcs,hproperties,hentities,htrees,hread⟩ := read_of_deviceBuild h
  rw [htrees] at hplace
  rw [hentities,hread]
  have hrepresents : List.Forall₂ (Represents common) epcs properties := by
    refine forall₂_of_common (mapM_eq_ok.mp hepcs) (mapM_eq_ok.mp hproperties) ?_
    intro prop epc built hepc hbuilt
    obtain ⟨epc',hepc',hfrom⟩ := deviceProperty_spec hbuilt
    cases hepc.symm.trans hepc'
    refine ⟨fun entity hentity => (hfrom.ofProperty.scope entity hentity).1,?_⟩
    intro place value hvalue
    obtain ⟨hplace,hempty,hcommon⟩ := structured_of_deviceProperty hbuilt hvalue
    cases hepc.symm.trans hplace
    exact ⟨rfl,hempty,hcommon⟩
  obtain ⟨⟨_,value⟩,hpair,rfl⟩ := List.mem_map.mp (Dict.mem_keys_ofPairs.mp hplace)
  obtain ⟨built,hbuilt,hvalue⟩ := List.mem_filterMap.mp hpair
  exact tree_of_properties (hfile epcs hepcs) hrepresents hbuilt hvalue

section Registry
variable {inputs : Inputs} {build : DefinitionsBuild} {classCode : Nat}

theorem Inputs.tree_of_generate {generated : DefinitionsBuild} (h : inputs.WellFormed)
    (hgenerate : inputs.generate = .ok generated) {place : Epc}
    (hplace : place ∈ (generated.structuredValues classCode).map Prod.fst) :
    Dict.get classCode generated.devices ≠ none ∧ place ∈ generated.epcs classCode ∧
      (∀ entity ∈ definitionsOf generated.common, entity.epc ≠ place) ∧
      ∀ entity ∈ definitionsOf (generated.entities classCode), entity.epc ≠ place := by
  rw [DefinitionsBuild.structuredValues] at hplace
  rw [DefinitionsBuild.epcs,DefinitionsBuild.entities]
  cases hdevice : Dict.get classCode generated.devices with
  | none =>
    rw [hdevice] at hplace
    cases hplace
  | some device =>
    rw [hdevice] at hplace
    obtain ⟨kinds,_,file,hfile,built,_,rfl,hbuilt,hepcs⟩ := file_of_device hgenerate hdevice
    obtain ⟨hmem,hcommon,hown⟩ := Sources.deviceBuild_tree (h.files file hfile) hbuilt hplace
    rw [hepcs]
    refine ⟨Option.some_ne_none _,hmem,?_,hown⟩
    intro entity hentity heq
    obtain ⟨shared,hshared,rfl⟩ := List.mem_map.mp hentity
    exact hcommon (List.mem_map.mpr ⟨shared,hshared,heq⟩)

/-- No EPC of a class has both a value tree and an entity. -/
theorem Inputs.tree_or_entity (h : inputs.WellFormed) (hbuild : inputs.build = .ok build) {place : Epc}
    (hplace : place ∈ (build.structuredValues classCode).map Prod.fst) :
    ∀ entity ∈ build.registry.entities classCode, entity.epc ≠ place := by
  obtain ⟨generated,hgenerate,_,hcustomized,_⟩ := customized_of_build h hbuild
  rw [hcustomized.structuredValues] at hplace
  obtain ⟨hknown,hmem,hcommon,hown⟩ := tree_of_generate h hgenerate hplace
  intro entity hentity
  obtain hentity | ⟨_,hshared,_⟩ := mem_registry.mp hentity
  · obtain ⟨patched,defined,hall,hpatched,hdefined⟩ := hcustomized.extended classCode
    rw [hall] at hentity
    obtain hentity | hentity := List.mem_append.mp hentity
    · refine forall_mem_of_forall₂ (Q := fun entity => entity.epc ≠ place) hpatched hown ?_ entity hentity
      exact fun _ _ hne hsame heq => hne (hsame.epc.symm.trans heq)
    · rintro rfl
      rw [← (hcustomized.known classCode hknown).2] at hmem
      exact hdefined entity hentity hmem
  · rw [hcustomized.common] at hshared
    exact hcommon entity hshared

theorem Inputs.tree_or_entity_fanLevel : fanLevel.epc ≠ 0xC5 :=
  Inputs.tree_or_entity airConditioner_wellFormed airConditioner_build (by decide +kernel) fanLevel fanLevel_mem

end Registry

end Pyhems.Generator
